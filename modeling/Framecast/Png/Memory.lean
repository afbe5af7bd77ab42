/-!
# Memory

Reading a file may take so many bytes of memory and no more. What is kept of a chunk is taken once, and the buffer that
a chunk is read into is doubled until the chunk fits, or grows by less where less is free.
-/

namespace Framecast.Png

/-- The bytes that may still be taken, and the size of the buffer for chunks. -/
structure Memory where
  free : Nat
  buffer : Nat
  deriving DecidableEq

namespace Memory

/-- The memory for a file of which nothing was read. -/
def initial : Memory := ⟨64 * 1024 * 1024, 32 * 1024⟩

/-- Takes bytes, if so many are free. -/
def take? (m : Memory) (count : Nat) : Option Memory :=
  if count ≤ m.free then some { m with free := m.free - count } else none

/-- The bytes by which the buffer grows in one step. -/
def growth (m : Memory) : Nat := min (m.free - m.buffer) m.buffer

/-- Grows the buffer until so many bytes fit, if there is memory for it. -/
def fit? (m : Memory) (count : Nat) : Option Memory :=
  if count ≤ m.buffer then some m
  else if m.growth = 0 then none
  else fit? ⟨m.free - m.growth, m.buffer + m.growth⟩ count
termination_by count - m.buffer

end Memory

end Framecast.Png
