import Framecast.Bytes.Adler32
import Framecast.Flate.Huffman

/-!
# Inflating

Data compressed by the deflate method is a sequence of blocks: plain bytes, or symbols of two prefix codes, one for
literals and lengths and one for distances. A length and a distance repeat what was put out that far back. `unwrap`
reads data with the two bytes in front and the four behind that the zlib format adds, and does not compare the check in
the last four; `unwrapChecked` does.
-/

namespace Framecast.Flate

/-! ## Tables -/

/-- The least length and the number of further bits of each length symbol, from 257 on. -/
def lengthTable : List (Nat × Nat) :=
  [(3, 0), (4, 0), (5, 0), (6, 0), (7, 0), (8, 0), (9, 0), (10, 0), (11, 1), (13, 1), (15, 1), (17, 1), (19, 2),
    (23, 2), (27, 2), (31, 2), (35, 3), (43, 3), (51, 3), (59, 3), (67, 4), (83, 4), (99, 4), (115, 4), (131, 5),
    (163, 5), (195, 5), (227, 5), (258, 0)]

/-- The least distance and the number of further bits of each distance symbol. -/
def distanceTable : List (Nat × Nat) :=
  [(1, 0), (2, 0), (3, 0), (4, 0), (5, 1), (7, 1), (9, 2), (13, 2), (17, 3), (25, 3), (33, 4), (49, 4), (65, 5),
    (97, 5), (129, 6), (193, 6), (257, 7), (385, 7), (513, 8), (769, 8), (1025, 9), (1537, 9), (2049, 10), (3073, 10),
    (4097, 11), (6145, 11), (8193, 12), (12289, 12), (16385, 13), (24577, 13)]

/-- The order in which the lengths of the code for code lengths are given. -/
def lengthOrder : List Nat := [16, 17, 18, 0, 8, 7, 9, 6, 10, 5, 11, 4, 12, 3, 13, 2, 14, 1, 15]

def fixedLiterals : PrefixCode :=
  .ofLengths (List.replicate 144 8 ++ List.replicate 112 9 ++ List.replicate 24 7 ++ List.replicate 8 8)

def fixedDistances : PrefixCode := .ofLengths (List.replicate 32 5)

/-! ## Symbols -/

/-- Repeats `count` bytes from `distance` back. -/
def repeatBack (distance : Nat) : (count : Nat) → ByteArray → ByteArray
  | 0, out => out
  | count + 1, out => repeatBack distance count (out.push (Buffer.byteAt out (out.size - distance)))

/-- Reads the number that a symbol stands for in a table, with its further bits. -/
def tableValue (table : List (Nat × Nat)) (symbol : Nat) : Reader Nat := do
  match table[symbol]? with
  | none => failure
  | some (base, extra) => return base + (← Reader.bits extra)

/-- Where a block ends: at its end symbol, or at one of the two that have a word in the fixed code and no length. -/
def endsBlock (symbol : Nat) : Bool := symbol == 256 || symbol == 286 || symbol == 287

/-- Reads the symbols of a block up to its end, at most so many of them. -/
def symbols (literals distances : PrefixCode) : (fuel : Nat) → ByteArray → Reader ByteArray
  | 0, _ => failure
  | fuel + 1, out => do
    let symbol ← literals.read
    if symbol < 256 then symbols literals distances fuel (out.push symbol.toUInt8)
    else if endsBlock symbol then return out
    else
      let length ← tableValue lengthTable (symbol - 257)
      let distance ← tableValue distanceTable (← distances.read)
      Reader.require (distance ≤ out.size)
      symbols literals distances fuel (repeatBack distance length out)

/-! ## Blocks -/

/-- Reads `count` plain bytes. -/
def plainBytes : (count : Nat) → ByteArray → Reader ByteArray
  | 0, out => return out
  | count + 1, out => do
    let b ← Reader.bits 8
    plainBytes count (out.push b.toUInt8)

def plainBlock (out : ByteArray) : Reader ByteArray := do
  Reader.align
  let count ← Reader.bits 16
  let complement ← Reader.bits 16
  Reader.require (count + complement = 65535)
  plainBytes count out

/-- Reads the lengths of the code for code lengths. -/
def orderedLengths : (order : List Nat) → Reader (List (Nat × Nat))
  | [] => return []
  | place :: rest => do
    let length ← Reader.bits 3
    return (place, length) :: (← orderedLengths rest)

/-- The code length that a symbol stands for, and how often: once, or for the last three symbols a number of times that
is read. `done` holds the lengths before it, the last of them first. -/
def lengthRun (done : List Nat) : (symbol : Nat) → Reader (Nat × Nat)
  | 16 =>
    match done with
    | [] => failure
    | last :: _ => return (last, 3 + (← Reader.bits 2))
  | 17 => return (0, 3 + (← Reader.bits 3))
  | 18 => return (0, 11 + (← Reader.bits 7))
  | symbol => return (symbol, 1)

/-- Reads `total` code lengths, of which those in `done` are read, the last of them first. -/
def codeLengths (code : PrefixCode) (total : Nat) : (fuel : Nat) → (done : List Nat) → Reader (List Nat)
  | 0, _ => failure
  | fuel + 1, done => do
    if done.length = total then return done.reverse
    let symbol ← code.read
    let (length, count) ← lengthRun done symbol
    Reader.require (done.length + count ≤ total)
    codeLengths code total fuel (List.replicate count length ++ done)

/-- Reads the two codes of a block. -/
def blockCodes : Reader (PrefixCode × PrefixCode) := do
  let literals := 257 + (← Reader.bits 5)
  let distances := 1 + (← Reader.bits 5)
  let lengths := 4 + (← Reader.bits 4)
  Reader.require (literals ≤ 286 ∧ distances ≤ 30)
  let given ← orderedLengths (lengthOrder.take lengths)
  let code := PrefixCode.ofLengths ((List.range 19).map fun symbol => (given.lookup symbol).getD 0)
  Reader.require (code.complete = true)
  let all ← codeLengths code (literals + distances) (literals + distances + 1) []
  let literalCode := PrefixCode.ofLengths (all.take literals)
  let distanceCode := PrefixCode.ofLengths (all.drop literals)
  Reader.require (literalCode.complete = true ∧ (distanceCode.complete || distanceCode.trivial) = true)
  return (literalCode, distanceCode)

/-- Reads blocks up to the last one, at most so many of them. `size` bounds the symbols of a block. -/
def blocks (size : Nat) : (fuel : Nat) → ByteArray → Reader ByteArray
  | 0, _ => failure
  | fuel + 1, out => do
    let last ← Reader.bit
    let out ← match ← Reader.bits 2 with
      | 0 => plainBlock out
      | 1 => symbols fixedLiterals fixedDistances size out
      | 2 => do
        let (literals, distances) ← blockCodes
        symbols literals distances size out
      | _ => failure
    if last = 1 then return out else blocks size fuel out

/-! ## The wrapping -/

/-- Reads the two bytes in front: the method is deflate, the window is not too large, no dictionary is asked for, and
both together are a multiple of 31. -/
def wrapHeader : Reader Unit := do
  let method ← Reader.bits 8
  let flags ← Reader.bits 8
  Reader.require (method % 16 = 8 ∧ method / 16 ≤ 7 ∧ flags / 32 % 2 = 0 ∧ (method * 256 + flags) % 31 = 0)

/-- Reads wrapped data to the end, and the check behind them. -/
def unwrapData (size : Nat) : Reader (ByteArray × Nat) := do
  wrapHeader
  let out ← blocks size size ByteArray.empty
  Reader.align
  let check ← Reader.wholeBytes 4 0
  return (out, check)

/-- The data that wrapped bytes stand for, and their check. Bytes behind them are passed over. -/
def unwrapWithCheck (bytes : ByteArray) : Option (ByteArray × Nat) :=
  (unwrapData (bytes.size * 8 + 1) ⟨bytes, 0⟩).map Prod.fst

/-- The data that wrapped bytes stand for, whatever their check is. -/
def unwrap (bytes : ByteArray) : Option ByteArray := (unwrapWithCheck bytes).map Prod.fst

/-- The data that wrapped bytes stand for, if they have the check that they come with. -/
def unwrapChecked (bytes : ByteArray) : Option ByteArray := do
  let (out, check) ← unwrapWithCheck bytes
  if check = Adler32.ofBytes out then some out else none

end Framecast.Flate
