import Framecast.Bytes.Buffer
import Framecast.Flate.Inflate
import Framecast.Png.Header

/-!
# Ancillary chunks

Chunks that do not change the pixels of an image are read only to see whether they are well formed, and some of them are
kept. Some may stand once in a file, and a text starts with a keyword of 1 to 79 bytes and a zero. The significant bits
of the samples and a color profile are passed over where they are not well formed.
-/

namespace Framecast.Png.Ancillary

/-- The kinds that may stand once. -/
def single : List String := ["pHYs", "gAMA", "cHRM", "sRGB"]

/-- The kinds that hold texts, which are kept. -/
def texts : List String := ["tEXt", "zTXt", "iTXt"]

/-- The bytes before and after the first zero. -/
def splitZero? : List UInt8 → Option (List UInt8 × List UInt8)
  | [] => none
  | b :: rest => if b = 0 then some ([], rest) else (splitZero? rest).map fun (before, after) => (b :: before, after)

/-- The bytes after a keyword. -/
def afterKeyword? (b : List UInt8) : Option (List UInt8) := do
  let (keyword, rest) ← splitZero? b
  if 1 ≤ keyword.length ∧ keyword.length ≤ 79 then some rest else none

/-- The bytes are a text in UTF-8. -/
def isUtf8 (b : List UInt8) : Bool := (String.fromUTF8? (Buffer.ofList b)).isSome

/-- What follows the keyword of an international text: whether it is compressed and how, a language, a translated
keyword and the text. -/
def isInternational : List UInt8 → Bool
  | compressed :: method :: rest =>
    match splitZero? rest with
    | none => false
    | some (language, rest) =>
      match splitZero? rest with
      | none => false
      | some (keyword, text) =>
        compressed ≤ 1 && (compressed == 0 || method == 0) && language.all (· < 128) && isUtf8 keyword
          && (compressed == 1 || isUtf8 text)
  | _ => false

def wellFormed (kind : String) (body : ByteArray) : Bool :=
  match kind with
  | "pHYs" => 9 ≤ body.size && BigEndian.load body 1 8 ≤ 1
  | "gAMA" => 4 ≤ body.size
  | "cHRM" => 32 ≤ body.size
  | "sRGB" => 1 ≤ body.size && BigEndian.load body 1 0 ≤ 3
  | "tEXt" => (afterKeyword? (Buffer.toList body)).isSome
  | "zTXt" => (afterKeyword? (Buffer.toList body)).any fun rest => rest.head? == some 0
  | "iTXt" => (afterKeyword? (Buffer.toList body)).any isInternational
  | _ => true

/-- The numbers of significant bits, one for each sample of a color, are well formed: none is zero or more than there
are bits. A palette has colors of eight bits. -/
def areSignificantBits (h : Header) (body : ByteArray) : Bool :=
  let (samples, depth) := if h.kind = .indexed then (3, 8) else (h.kind.samples, h.depth)
  body.size == samples && (Buffer.toList body).all fun count => 1 ≤ count.toNat && count.toNat ≤ depth

/-- The color profile in the body of its chunk, behind a name of 1 to 80 bytes and a zero, and a zero for the way it is
compressed. -/
def profile? (body : ByteArray) : Option ByteArray := do
  let (name, rest) ← splitZero? (Buffer.toList body)
  guard (1 ≤ name.length ∧ name.length ≤ 80 ∧ rest.head? = some 0)
  Flate.unwrapChecked (body.extract (name.length + 2) body.size)

end Framecast.Png.Ancillary
