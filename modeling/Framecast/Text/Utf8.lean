/-!
# Reading UTF-8

A machine that reads UTF-8 one byte at a time and never fails: each longest run of bytes that starts a character but
cannot finish it, and each byte that cannot start one, reads as the replacement character. A byte below 0x80 always
leaves the machine between characters, so a text can be cut at any ASCII character and read piece by piece.
-/

namespace Framecast.Utf8

/-- Where the machine stands: between characters, or inside one with the bits read so far, the number of bytes still
owed, and the range of the next of them. -/
inductive State where
  | start
  | inside (bits owed : Nat) (low high : UInt8)
  deriving DecidableEq

/-- What stands for bytes that are no character. -/
def replacement : Char := '\uFFFD'

/-- Reads the first byte of a character. -/
def begin (b : UInt8) : List Char × State :=
  if b < 0x80 then ([Char.ofNat b.toNat], .start)
  else if 0xC2 ≤ b ∧ b ≤ 0xDF then ([], .inside (b.toNat - 0xC0) 1 0x80 0xBF)
  else if 0xE0 ≤ b ∧ b ≤ 0xEF then
    ([], .inside (b.toNat - 0xE0) 2 (if b = 0xE0 then 0xA0 else 0x80) (if b = 0xED then 0x9F else 0xBF))
  else if 0xF0 ≤ b ∧ b ≤ 0xF4 then
    ([], .inside (b.toNat - 0xF0) 3 (if b = 0xF0 then 0x90 else 0x80) (if b = 0xF4 then 0x8F else 0xBF))
  else ([replacement], .start)

/-- Reads one byte: the characters that it completes, and the state after it. -/
def step : State → UInt8 → List Char × State
  | .start, b => begin b
  | .inside bits owed low high, b =>
    if low ≤ b ∧ b ≤ high then
      let bits := bits * 64 + (b.toNat - 0x80)
      if owed ≤ 1 then ([Char.ofNat bits], .start) else ([], .inside bits (owed - 1) 0x80 0xBF)
    else
      let (chars, state) := begin b
      (replacement :: chars, state)

/-- The characters still due at the end of the bytes. -/
def finish : State → List Char
  | .start => []
  | .inside .. => [replacement]

/-- Reads bytes to their end from a state. -/
def decodeFrom : State → List UInt8 → List Char
  | state, [] => finish state
  | state, b :: rest => (step state b).1 ++ decodeFrom (step state b).2 rest

/-- The characters that bytes stand for. -/
def decode (bytes : List UInt8) : List Char := decodeFrom .start bytes

/-- An ASCII byte ends whatever stands before it. -/
theorem step_ascii {b : UInt8} (h : b < 0x80) (state : State)
    (hlow : ∀ bits owed low high, state = .inside bits owed low high → 0x80 ≤ low) :
    step state b = (finish state ++ [Char.ofNat b.toNat], .start) := by
  cases state with
  | start => simp [step, begin, finish, h]
  | inside bits owed low high =>
    have hb : ¬ low ≤ b := by
      intro hle
      exact UInt8.not_le.mpr h (UInt8.le_trans (hlow _ _ _ _ rfl) hle)
    simp [step, begin, finish, h, hb]

end Framecast.Utf8
