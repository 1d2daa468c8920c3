import Famicom.Bus

/-!
# Mirrored addresses

The processor's address space repeats two kilobytes of work RAM up to `$1FFF` and eight registers of
the picture unit up to `$3FFF`. An access to a repetition is an access to the original, with the
same side effects, and so is a transfer to sprite memory from a page of repetitions.

* `BusCall`, `Bus.serveAll`: what can be asked of a bus, and its replies to a sequence of it.
* `lowestMirror`, `lowestPage`: the first of the addresses, or pages, that mean the same.
* `Bus.serveAll_lowest`: over any sequence, they are as good as each other.
-/

namespace Famicom

/-- What can be asked of a bus. -/
inductive BusCall where
  | read (address : UInt16)
  | write (address : UInt16) (value : UInt8)
  /-- Take the transfer to sprite memory that has been requested. -/
  | takeDmaRequest
  /-- Make a transfer to sprite memory. -/
  | transferPage (page : UInt8)
  deriving DecidableEq, Repr

/-- What a bus replies. -/
inductive BusReply where
  | done
  | byte (value : UInt8)
  | request (page : Option UInt8)
  deriving DecidableEq, Repr

/-- The first of the addresses that mean what an address means. -/
def lowestMirror (address : UInt16) : UInt16 :=
  if address < 0x2000 then address % 0x800
  else if address < 0x4000 then 0x2000 + address % 8
  else address

/-- The first of the pages whose transfer copies what that of a page copies. -/
def lowestPage (page : UInt8) : UInt8 :=
  if page < 0x20 then page % 8
  else if page < 0x40 then 0x20
  else page

/-- A call with the first of the addresses or pages that mean the same; a byte that is written stays
as it is, even if it names a page. -/
def BusCall.lowest : BusCall → BusCall
  | .read address => .read (lowestMirror address)
  | .write address value => .write (lowestMirror address) value
  | .takeDmaRequest => .takeDmaRequest
  | .transferPage page => .transferPage (lowestPage page)

/-! ## Addresses -/

/-- An address is the first of its kind, or it lies among the repetitions of one of the two
devices. -/
theorem lowestMirror_cases (address : UInt16) :
    (address < 0x2000 ∧ lowestMirror address < 0x2000 ∧
        (lowestMirror address).toNat % 0x800 = address.toNat % 0x800) ∨
      (0x2000 ≤ address ∧ address < 0x4000 ∧ 0x2000 ≤ lowestMirror address ∧
        lowestMirror address < 0x4000 ∧ lowestMirror address % 8 = address % 8) ∨
      lowestMirror address = address := by
  unfold lowestMirror
  by_cases hram : address < 0x2000
  · left
    rw [if_pos hram]
    simp only [UInt16.lt_iff_toNat_lt, UInt16.toNat_mod, UInt16.reduceToNat] at hram ⊢
    omega
  by_cases hppu : address < 0x4000
  · right; left
    rw [if_neg hram, if_pos hppu]
    simp only [UInt16.lt_iff_toNat_lt, UInt16.le_iff_toNat_le, ← UInt16.toNat_inj,
      UInt16.toNat_add, UInt16.toNat_mod, UInt16.reduceToNat] at hram hppu ⊢
    omega
  · right; right
    rw [if_neg hram, if_neg hppu]

/-- A page of repetitions holds repetitions of what the first such page holds. -/
theorem lowestMirror_ofBytes (offset page : UInt8) :
    lowestMirror (Word.ofBytes offset (lowestPage page)) =
      lowestMirror (Word.ofBytes offset page) := by
  have hoffset := offset.toNat_lt
  unfold lowestPage
  by_cases hram : page < 0x20
  · have hpage : page.toNat < 0x20 := hram
    rw [if_pos hram]
    simp only [lowestMirror, UInt16.lt_iff_toNat_lt, Word.toNat_ofBytes, UInt8.toNat_mod,
      UInt8.reduceToNat, UInt16.reduceToNat]
    rw [if_pos (by omega), if_pos (by omega), ← UInt16.toNat_inj]
    simp only [UInt16.toNat_mod, Word.toNat_ofBytes, UInt8.toNat_mod, UInt8.reduceToNat,
      UInt16.reduceToNat]
    omega
  rw [if_neg hram]
  by_cases hppu : page < 0x40
  · have hlow : 0x20 ≤ page.toNat := Nat.le_of_not_lt hram
    have hhigh : page.toNat < 0x40 := hppu
    rw [if_pos hppu]
    simp only [lowestMirror, UInt16.lt_iff_toNat_lt, Word.toNat_ofBytes, UInt8.reduceToNat,
      UInt16.reduceToNat]
    rw [if_neg (by omega), if_pos (by omega), if_neg (by omega), if_pos (by omega),
      ← UInt16.toNat_inj]
    simp only [UInt16.toNat_add, UInt16.toNat_mod, Word.toNat_ofBytes, UInt8.reduceToNat,
      UInt16.reduceToNat]
    omega
  · rw [if_neg hppu]

namespace Bus

variable {C A D : Type} [Cartridge C] [Apu A] [Controller D]

/-! ## Accesses -/

theorem read_lowest (bus : Bus C A D) (address : UInt16) :
    bus.read (lowestMirror address) = bus.read address := by
  unfold read
  rcases lowestMirror_cases address with
    ⟨hram, hlow, hcell⟩ | ⟨hfrom, hto, hlowFrom, hlowTo, hregister⟩ | hsame
  · have hload : bus.ram.load (lowestMirror address).toNat = bus.ram.load address.toNat := by
      simp only [Memory.load, hcell]
    rw [if_pos hlow, if_pos hram, hload]
  · have hread : bus.readPpu (lowestMirror address) = bus.readPpu address := by
      unfold readPpu Ppu.readRegister
      rw [hregister]
    rw [if_neg (UInt16.not_lt.mpr hlowFrom), if_pos hlowTo, if_neg (UInt16.not_lt.mpr hfrom),
      if_pos hto, hread]
  · rw [hsame]

theorem write_lowest (bus : Bus C A D) (address : UInt16) (value : UInt8) :
    bus.write (lowestMirror address) value = bus.write address value := by
  unfold write
  rcases lowestMirror_cases address with
    ⟨hram, hlow, hcell⟩ | ⟨hfrom, hto, hlowFrom, hlowTo, hregister⟩ | hsame
  · have hstore : bus.ram.store (lowestMirror address).toNat value =
        bus.ram.store address.toNat value := by
      simp only [Memory.store, hcell]
    rw [if_pos hlow, if_pos hram, hstore]
  · have hwrite : bus.writePpu (lowestMirror address) value = bus.writePpu address value := by
      unfold writePpu Ppu.writeRegister
      rw [hregister]
    rw [if_neg (UInt16.not_lt.mpr hlowFrom), if_pos hlowTo, if_neg (UInt16.not_lt.mpr hfrom),
      if_pos hto, hwrite]
  · rw [hsame]

/-- The registers change as a transfer reads them, but at each step they do so alike. -/
theorem transferPage_lowest (bus : Bus C A D) (page : UInt8) :
    SystemBus.transferPage bus (lowestPage page) = SystemBus.transferPage bus page := by
  have hbyte : SystemBus.transferByte (B := Bus C A D) (lowestPage page) =
      SystemBus.transferByte page := by
    funext bus offset
    have hread : SystemBus.read bus (Word.ofBytes offset (lowestPage page)) =
        SystemBus.read bus (Word.ofBytes offset page) := by
      show bus.read _ = bus.read _
      rw [← bus.read_lowest, lowestMirror_ofBytes, bus.read_lowest]
    rw [SystemBus.transferByte, SystemBus.transferByte, hread]
  unfold SystemBus.transferPage
  rw [hbyte]

/-! ## Sequences of calls -/

/-- Do what is asked of a bus. -/
def serve (bus : Bus C A D) : BusCall → BusReply × Bus C A D
  | .read address =>
    let (value, bus) := bus.read address
    (.byte value, bus)
  | .write address value => (.done, bus.write address value)
  | .takeDmaRequest =>
    let (page, bus) := SystemBus.takeDmaRequest bus
    (.request page, bus)
  | .transferPage page => (.done, SystemBus.transferPage bus page)

/-- Do what is asked of a bus, one call after the other. -/
def serveAll (bus : Bus C A D) : List BusCall → List BusReply × Bus C A D
  | [] => ([], bus)
  | call :: calls =>
    let (reply, bus) := bus.serve call
    let (replies, bus) := bus.serveAll calls
    (reply :: replies, bus)

theorem serve_lowest (bus : Bus C A D) (call : BusCall) :
    bus.serve call.lowest = bus.serve call := by
  cases call with
  | read address => simp only [BusCall.lowest, serve, read_lowest]
  | write address value => simp only [BusCall.lowest, serve, write_lowest]
  | takeDmaRequest => rfl
  | transferPage page => simp only [BusCall.lowest, serve, transferPage_lowest]

/-- Mirrored addresses are interchangeable: over any sequence of calls, each address and each page
may be replaced by the first that means the same. The bus replies the same and ends in the same
state, whatever is connected to it. -/
theorem serveAll_lowest (bus : Bus C A D) (calls : List BusCall) :
    bus.serveAll (calls.map BusCall.lowest) = bus.serveAll calls := by
  induction calls generalizing bus with
  | nil => rfl
  | cons call calls ih => simp only [List.map_cons, serveAll, serve_lowest, ih]

end Bus

end Famicom
