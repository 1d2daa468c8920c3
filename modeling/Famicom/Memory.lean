/-!
# Memory chips

A memory of `n` bytes sees only the low address lines: an address selects the cell whose number is
the address modulo `n`. So every access is defined, and two addresses name one cell exactly if
they agree modulo `n`.

* `Memory.load_store`: a load after a store, for every pair of addresses.
* `Rom.load`: the same decoding for an image of any size that is not empty.
-/

namespace Famicom

/-- A memory of `n` bytes, of which there is at least one. -/
structure Memory (n : Nat) where
  cells : Vector UInt8 n
  size_pos : 0 < n := by decide
  deriving DecidableEq

namespace Memory

variable {n : Nat}

/-- A memory whose bytes all have one value. -/
def filled (n : Nat) (value : UInt8) (size_pos : 0 < n := by decide) : Memory n where
  cells := Vector.replicate n value
  size_pos := size_pos

/-- The byte at an address. -/
@[inline] def load (m : Memory n) (address : Nat) : UInt8 :=
  have : address % n < n := Nat.mod_lt _ m.size_pos
  m.cells[address % n]

/-- Change the byte at an address. -/
@[inline] def store (m : Memory n) (address : Nat) (value : UInt8) : Memory n where
  cells := m.cells.set (address % n) value (Nat.mod_lt _ m.size_pos)
  size_pos := m.size_pos

@[simp] theorem load_filled (value : UInt8) (size_pos : 0 < n) (address : Nat) :
    (filled n value size_pos).load address = value := by
  simp [load, filled]

/-- A load sees the last store to its cell, and no other. -/
theorem load_store (m : Memory n) (a b : Nat) (value : UInt8) :
    (m.store a value).load b = if a % n = b % n then value else m.load b := by
  simp only [load, store, Vector.getElem_set]

end Memory

/-- A memory that cannot be written, of any size but none. -/
structure Rom where
  image : Array UInt8
  size_pos : 0 < image.size

namespace Rom

/-- The byte at an address. -/
@[inline] def load (rom : Rom) (address : Nat) : UInt8 :=
  have : address % rom.image.size < rom.image.size := Nat.mod_lt _ rom.size_pos
  rom.image[address % rom.image.size]

/-- The memory that holds an image, if the image is not empty. -/
def ofImage? (image : Array UInt8) : Option Rom :=
  if h : 0 < image.size then some ⟨image, h⟩ else none

/-- The memory that holds an image; in place of an empty image, a single zero byte. -/
def ofImage (image : Array UInt8) : Rom := (ofImage? image).getD ⟨#[0], by decide⟩

end Rom

end Famicom
