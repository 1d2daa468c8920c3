import Famicom.Proofs.Bus.Cells

/-!
# The stack as a ring

The stack pointer goes round its page. A push into the lowest cell makes the highest one next, and
once the page has been gone through, every push overwrites the oldest byte that is left. So the page
holds the latest 256 bytes, whatever their number and wherever the pointer has started, and pulls
give them back, the latest first.

* `WorkRam.Stacked.push`: a push may find the page full.
* `Registers.pushAll`, `Registers.pullTimes`: bytes pushed one after the other, and pulls.
* `Bus.stacked_pushAll`: what then lies on the stack, and beneath it what has lain there before.
* `Bus.pullTimes_of_stacked`: pulls give what lies on the stack.
* `Registers.stacksInRing`: bytes pushed, where they lie, and how they come back.
-/

namespace Famicom

open SystemBus

/-! ## Cells of the page -/

namespace WorkRam

variable {ram : WorkRam} {sp : UInt8} {bytes : List UInt8}

/-- The address of a cell above the pointer, round the page. -/
theorem toNat_stackAddress_add (sp : UInt8) (k : Nat) :
    (stackAddress (sp + UInt8.ofNat k)).toNat = 0x100 + (sp.toNat + k) % 0x100 := by
  rw [toNat_stackAddress, UInt8.toNat_add, UInt8.toNat_ofNat']
  omega

/-- A push leaves alone what lies outside of the page. -/
theorem load_store_outside (ram : WorkRam) (sp value : UInt8) {address : Nat}
    (hlow : address < 0x800) (houtside : ¬ (0x100 ≤ address ∧ address < 0x200)) :
    (ram.store (stackAddress sp).toNat value).load address = ram.load address := by
  have hsp := sp.toNat_lt
  have hcell : (stackAddress sp).toNat % 0x800 ≠ address % 0x800 := by
    rw [toNat_stackAddress]
    omega
  rw [Memory.load_store, if_neg hcell]

/-- A push on a stack of any size: of a full page, the oldest byte is lost. -/
theorem Stacked.push (h : ram.Stacked sp bytes) (value : UInt8) :
    Stacked (ram.store (stackAddress sp).toNat value) (sp - 1) ((value :: bytes).take 0x100) := by
  have hlength : (bytes.take 0xFF).length < 0x100 := Nat.lt_succ_of_le (List.length_take_le _ _)
  exact (h.take 0xFF).store hlength value

end WorkRam

/-! ## One after the other -/

namespace Registers

variable {B : Type} [SystemBus B]

/-- Push some bytes, the first of the list first. -/
def pushAll (r : Registers) (bus : B) : List UInt8 → Registers × B
  | [] => (r, bus)
  | value :: rest =>
    let (r, bus) := r.push bus value
    r.pushAll bus rest

/-- Pull so many bytes, and list them as they come. -/
def pullTimes (r : Registers) (bus : B) : Nat → List UInt8 × Registers × B
  | 0 => ([], r, bus)
  | count + 1 =>
    let (value, r, bus) := r.pull bus
    let (rest, r, bus) := r.pullTimes bus count
    (value :: rest, r, bus)

/-- Pushes move the pointer, and no other register. -/
theorem pushAll_fst (r : Registers) (bus : B) (bytes : List UInt8) :
    (r.pushAll bus bytes).1 = { r with sp := r.sp - UInt8.ofNat bytes.length } := by
  induction bytes generalizing r bus with
  | nil => exact congrArg (fun sp => { r with sp }) (UInt8.sub_zero r.sp).symm
  | cons value rest ih =>
    have hsp : r.sp - 1 - UInt8.ofNat rest.length = r.sp - UInt8.ofNat (rest.length + 1) := by
      rw [UInt8.ofNat_add rest.length 1]
      grind
    refine (ih _ _).trans ?_
    rw [List.length_cons, ← hsp]

theorem length_pullTimes (r : Registers) (bus : B) (count : Nat) :
    (r.pullTimes bus count).1.length = count := by
  induction count generalizing r bus with
  | zero => rfl
  | succ count ih => exact congrArg Nat.succ (ih _ _)

end Registers

namespace Bus

variable {C A D : Type} [Cartridge C] [Apu A] [Controller D]

/-- Pushes change work RAM, and nothing else on the bus. -/
theorem pushAll_snd (bus : Bus C A D) (r : Registers) (bytes : List UInt8) :
    (r.pushAll bus bytes).2 = { bus with ram := (r.pushAll bus bytes).2.ram } := by
  induction bytes generalizing r bus with
  | nil => rfl
  | cons value rest ih =>
    simp only [Registers.pushAll, bus.push_eq]
    exact ih _ _

/-- In work RAM they change nothing outside of the page. -/
theorem load_pushAll_outside (bus : Bus C A D) (r : Registers) (bytes : List UInt8) {address : Nat}
    (hlow : address < 0x800) (houtside : ¬ (0x100 ≤ address ∧ address < 0x200)) :
    (r.pushAll bus bytes).2.ram.load address = bus.ram.load address := by
  induction bytes generalizing r bus with
  | nil => rfl
  | cons value rest ih =>
    simp only [Registers.pushAll, bus.push_eq]
    rw [ih, WorkRam.load_store_outside _ _ _ hlow houtside]

/-- The bytes lie on the stack, the latest on top, above what has lain there before: as many in all
as the page holds. -/
theorem stacked_pushAll {bus : Bus C A D} {r : Registers} {below : List UInt8}
    (h : bus.ram.Stacked r.sp below) (bytes : List UInt8) :
    (r.pushAll bus bytes).2.ram.Stacked (r.pushAll bus bytes).1.sp
      ((bytes.reverse ++ below).take 0x100) := by
  -- Each push adds its byte to what lies below the following ones.
  induction bytes generalizing r bus below with
  | nil => exact h.take 0x100
  | cons value rest ih =>
    have htake : (rest.reverse ++ (value :: below).take 0x100).take 0x100 =
        ((value :: rest).reverse ++ below).take 0x100 := by
      rw [List.take_append, List.take_take, Nat.min_eq_left (Nat.sub_le _ _), ← List.take_append,
        List.reverse_cons, List.append_assoc, List.singleton_append]
    simp only [Registers.pushAll, bus.push_eq]
    rw [← htake]
    exact ih (h.push value)

/-- What lies on the stack is pulled, the topmost byte first. -/
theorem pullTimes_of_stacked {bus : Bus C A D} {r : Registers} {bytes : List UInt8}
    (h : bus.ram.Stacked r.sp bytes) :
    r.pullTimes bus bytes.length =
      (bytes, { r with sp := r.sp + UInt8.ofNat bytes.length }, bus) := by
  induction bytes generalizing r with
  | nil => exact congrArg (fun sp => ([], { r with sp }, bus)) (UInt8.add_zero r.sp).symm
  | cons byte rest ih =>
    have hrest := ih (r := { r with sp := r.sp + 1 }) h.pop.2
    rw [List.length_cons, Registers.pullTimes, bus.pull_of_stacked h]
    simp only [hrest, WorkRam.succ_add_ofNat]

/-- What is pulled has lain on the stack. -/
theorem stacked_pullTimes (bus : Bus C A D) (r : Registers) (count : Nat) :
    bus.ram.Stacked r.sp (r.pullTimes bus count).1 := by
  induction count generalizing r with
  | zero => exact bus.ram.stacked_nil r.sp
  | succ count ih =>
    simp only [Registers.pullTimes, bus.pull_eq]
    exact (ih { r with sp := r.sp + 1 }).cons rfl

/-- Of what lay on the stack before, nothing need be known: the latest bytes lie on top. -/
theorem stacked_latest (bus : Bus C A D) (r : Registers) (bytes : List UInt8) :
    (r.pushAll bus bytes).2.ram.Stacked (r.pushAll bus bytes).1.sp (bytes.reverse.take 0x100) := by
  have hstacked := stacked_pushAll (bus.ram.stacked_nil r.sp) bytes
  rwa [List.append_nil] at hstacked

/-- Pulls give back as many of the latest bytes as the page holds. -/
theorem pullTimes_pushAll (bus : Bus C A D) (r : Registers) (bytes : List UInt8) {count : Nat}
    (hcount : count ≤ min bytes.length 0x100) :
    (r.pushAll bus bytes).1.pullTimes (r.pushAll bus bytes).2 count =
      (bytes.reverse.take count, { r with sp := (r.pushAll bus bytes).1.sp + UInt8.ofNat count },
        (r.pushAll bus bytes).2) := by
  obtain ⟨hbytes, hpage⟩ := Nat.le_min.mp hcount
  have htop := (bus.stacked_latest r bytes).take count
  rw [List.take_take, Nat.min_eq_left hpage] at htop
  have hlength : (bytes.reverse.take count).length = count := by
    rw [List.length_take, List.length_reverse, Nat.min_eq_left hbytes]
  have hpulls := pullTimes_of_stacked htop
  rw [hlength] at hpulls
  rw [hpulls, r.pushAll_fst bus bytes]

end Bus

namespace Registers

variable {C A D : Type} [Cartridge C] [Apu A] [Controller D]

/-- Bytes that have been pushed from `r`: where they lie, and how they come back. -/
structure StacksInRing (r : Registers) (bus : Bus C A D) (bytes : List UInt8)
    (pushed : Registers × Bus C A D) : Prop where
  /-- The pointer goes down by a cell for each byte, and round its page; -/
  pointer : (pushed.1.sp.toNat : Int) = (r.sp.toNat - bytes.length) % 0x100
  /-- the other registers stay. -/
  registers : pushed.1 = { r with sp := pushed.1.sp }
  /-- On the bus nothing changes but work RAM, -/
  devices : pushed.2 = { bus with ram := pushed.2.ram }
  /-- and there no byte outside of the page. -/
  outside : ∀ address < 0x800, ¬ (0x100 ≤ address ∧ address < 0x200) →
    pushed.2.ram.load address = bus.ram.load address
  /-- Upwards from the pointer, round the page, lie the latest bytes, as many as it holds. -/
  latest : ∀ k, 1 ≤ k → k ≤ min bytes.length 0x100 →
    bytes.reverse[k - 1]? =
      some (pushed.2.ram.load (0x100 + (pushed.1.sp.toNat + k) % 0x100))
  /-- So many pulls give them back, and each moves the pointer up by a cell. -/
  pulled : ∀ count ≤ min bytes.length 0x100,
    pushed.1.pullTimes pushed.2 count =
      (bytes.reverse.take count, { r with sp := pushed.1.sp + UInt8.ofNat count }, pushed.2)
  /-- If the page holds them all, then all come back, and so does the pointer. -/
  restored : bytes.length ≤ 0x100 →
    pushed.1.pullTimes pushed.2 bytes.length = (bytes.reverse, r, pushed.2)
  /-- Pulls all round the page give the bytes, and then what such pulls would have given before,
  less what has been overwritten. -/
  lap : (pushed.1.pullTimes pushed.2 0x100).1 =
    (bytes.reverse ++ (r.pullTimes bus 0x100).1).take 0x100

theorem stacksInRing (r : Registers) (bus : Bus C A D) (bytes : List UInt8) :
    r.StacksInRing bus bytes (r.pushAll bus bytes) := by
  have hregisters := r.pushAll_fst bus bytes
  have hsp : (r.pushAll bus bytes).1.sp = r.sp - UInt8.ofNat bytes.length :=
    congrArg Registers.sp hregisters
  refine ⟨?pointer, ?registers, bus.pushAll_snd r bytes, ?outside, ?latest, ?pulled, ?restored,
    ?lap⟩
  case pointer =>
    have hlt := r.sp.toNat_lt
    rw [hsp, UInt8.toNat_sub, UInt8.toNat_ofNat']
    omega
  case registers => rw [hsp, hregisters]
  case outside => exact fun _ hlow houtside => bus.load_pushAll_outside r bytes hlow houtside
  case latest =>
    intro k hpos hk
    obtain ⟨k, rfl⟩ : ∃ i, k = i + 1 := Nat.exists_eq_add_of_le' hpos
    have hlatest : k < bytes.reverse.length := by
      rw [List.length_reverse]
      omega
    have htop : k < (bytes.reverse.take 0x100).length := by
      rw [List.length_take, List.length_reverse]
      omega
    have hcell := bus.stacked_latest r bytes k htop
    rw [WorkRam.toNat_stackAddress_add, List.getElem_take] at hcell
    rw [hcell, Nat.add_sub_cancel, List.getElem?_eq_getElem hlatest]
  case pulled => exact fun _ hcount => bus.pullTimes_pushAll r bytes hcount
  case restored =>
    intro hlength
    have hall : bytes.reverse.take bytes.length = bytes.reverse :=
      List.take_of_length_le (Nat.le_of_eq List.length_reverse)
    rw [bus.pullTimes_pushAll r bytes (Nat.le_min.mpr ⟨Nat.le_refl _, hlength⟩), hall, hsp,
      UInt8.sub_add_cancel]
  case lap =>
    have hpage := Bus.pullTimes_of_stacked
      (Bus.stacked_pushAll (bus.stacked_pullTimes r 0x100) bytes)
    have hlength : ((bytes.reverse ++ (r.pullTimes bus 0x100).1).take 0x100).length = 0x100 := by
      rw [List.length_take, List.length_append, length_pullTimes]
      omega
    rw [hlength] at hpage
    rw [hpage]

end Registers

end Famicom
