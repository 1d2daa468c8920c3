import Famicom.Proofs.Cpu.BusMap

/-!
# The accesses of a run

A bus with a recorder on it notes what the processor reads and writes, bytes copied to sprite
memory included. The processor does not notice the recorder, so `Cpu.accesses` is what it accesses
on the bare bus.

* `Keeps Q P`: accesses that satisfy `Q`, and all that is not an access, keep `P`.
* `Keeps.runTo`, `Keeps.answerNmi`: if all accesses of a run satisfy `Q`, the run keeps `P`.
-/

namespace Famicom

open SystemBus

/-- An access to the bus. -/
inductive Access where
  | read (address : UInt16)
  | write (address : UInt16) (value : UInt8)
  deriving DecidableEq, Repr

/-- The address of an access. -/
def Access.address : Access → UInt16
  | read address => address
  | write address _ => address

/-- A bus and the accesses that have been made to it, the latest first. -/
structure Recorder (B : Type) where
  bus : B
  accesses : List Access

namespace Recorder

variable {B : Type}

/-- A recorder that has noted nothing. -/
def start (bus : B) : Recorder B := ⟨bus, []⟩

instance [SystemBus B] : SystemBus (Recorder B) where
  read r address :=
    ((SystemBus.read r.bus address).1,
      ⟨(SystemBus.read r.bus address).2, .read address :: r.accesses⟩)
  write r address value := ⟨SystemBus.write r.bus address value, .write address value :: r.accesses⟩
  clock r cycles := { r with bus := SystemBus.clock r.bus cycles }
  takeNmi r := ((SystemBus.takeNmi r.bus).1, { r with bus := (SystemBus.takeNmi r.bus).2 })
  irqLine r := SystemBus.irqLine r.bus
  takeDmaRequest r :=
    ((SystemBus.takeDmaRequest r.bus).1, { r with bus := (SystemBus.takeDmaRequest r.bus).2 })
  writeOam r value := { r with bus := SystemBus.writeOam r.bus value }

/-- The processor does not notice a recorder. -/
theorem busMap_bus [SystemBus B] : BusMap (Recorder.bus : Recorder B → B) where
  read _ _ := rfl
  write _ _ _ := rfl
  clock _ _ := rfl
  takeNmi _ := rfl
  irqLine _ := rfl
  takeDmaRequest _ := rfl
  writeOam _ _ := rfl

end Recorder

variable {T B : Type} [SystemBus B]

namespace Cpu

/-- Answer the interrupt of vertical blanking, which is lost on a halted processor. -/
def answerNmi (cpu : Cpu T) (bus : B) : Cpu T × B :=
  let (pending, bus) := takeNmi bus
  if pending && !cpu.jammed then cpu.nmi bus else (cpu, bus)

/-- What a processor accesses on its way to a limit, the latest first. -/
def accesses [Time T] (cpu : Cpu T) (bus : B) (limit : T) : List Access :=
  (cpu.runTo (Recorder.start bus) limit).2.accesses

/-- What a processor accesses to answer the interrupt of vertical blanking, the latest first. -/
def nmiAccesses (cpu : Cpu T) (bus : B) : List Access :=
  (cpu.answerNmi (Recorder.start bus)).2.accesses

/-! ## The halted processor -/

theorem advance_of_jammed {cpu : Cpu T} (h : cpu.jammed = true) (bus : B) :
    cpu.advance bus = cpu.elapse bus jammedCycles := by
  unfold advance poll
  rw [if_pos h]
  unfold step
  dsimp only
  rw [if_pos h]
  rfl

/-- A halted processor lets time pass, and nothing else. -/
theorem runThrough_of_jammed {cpu : Cpu T} (h : cpu.jammed = true) (r : Recorder B) (last : Nat) :
    (cpu.runThrough r last).1.jammed = true ∧ (cpu.runThrough r last).2.accesses = r.accesses := by
  fun_induction runThrough cpu r last with
  | case1 cpu r hle next ih =>
    have hnext : next = cpu.elapse r jammedCycles := advance_of_jammed h r
    rw [hnext] at ih ⊢
    exact ih h
  | case2 cpu r hlt => exact ⟨h, rfl⟩

theorem runTo_of_jammed [Time T] {cpu : Cpu T} (h : cpu.jammed = true) (bus : B) (limit : T) :
    (cpu.runTo bus limit).1.jammed = true ∧ cpu.accesses bus limit = [] := by
  have hbare := Recorder.busMap_bus.runTo cpu (Recorder.start bus) limit
  have hrun : (cpu.runTo (Recorder.start bus) limit).1.jammed = true ∧
      (cpu.runTo (Recorder.start bus) limit).2.accesses = [] := by
    unfold runTo
    split
    · exact ⟨h, rfl⟩
    · exact runThrough_of_jammed h _ _
  refine ⟨?_, hrun.2⟩
  show (cpu.runTo (Recorder.start bus).bus limit).1.jammed = true
  rw [hbare]
  exact hrun.1

theorem answerNmi_of_jammed {cpu : Cpu T} (h : cpu.jammed = true) (bus : B) :
    cpu.answerNmi bus = (cpu, (takeNmi bus).2) := by
  unfold answerNmi
  dsimp only
  rw [h, Bool.not_true, Bool.and_false]
  rfl

end Cpu

theorem BusMap.answerNmi {B' : Type} [SystemBus B'] {f : B → B'} (h : BusMap f) (cpu : Cpu T)
    (bus : B) : cpu.answerNmi (f bus) = ((cpu.answerNmi bus).1, f (cpu.answerNmi bus).2) := by
  simp only [Cpu.answerNmi, h.takeNmi]
  split
  · rw [h.nmi]
  · rfl

/-- Accesses that satisfy `Q`, and whatever is not an access, keep the property `P` of a bus. -/
structure Keeps (Q : Access → Prop) (P : B → Prop) : Prop where
  read : ∀ bus address, Q (.read address) → P bus → P (read bus address).2
  write : ∀ bus address value, Q (.write address value) → P bus → P (write bus address value)
  clock : ∀ bus cycles, P bus → P (clock bus cycles)
  takeNmi : ∀ bus, P bus → P (takeNmi bus).2
  takeDmaRequest : ∀ bus, P bus → P (takeDmaRequest bus).2
  writeOam : ∀ bus value, P bus → P (writeOam bus value)

namespace Keeps

variable {Q : Access → Prop} {P : B → Prop}

/-- On a recorder, every operation keeps "if all accesses satisfy `Q`, the bus satisfies `P`". -/
theorem recorded (h : Keeps Q P) :
    Keeps (fun _ => True) fun r : Recorder B => (∀ a ∈ r.accesses, Q a) → P r.bus where
  read r address _ hr hq :=
    h.read r.bus address (hq _ (List.mem_cons_self ..)) (hr fun a ha => hq a (.tail _ ha))
  write r address value _ hr hq :=
    h.write r.bus address value (hq _ (List.mem_cons_self ..)) (hr fun a ha => hq a (.tail _ ha))
  clock r cycles hr hq := h.clock r.bus cycles (hr hq)
  takeNmi r hr hq := h.takeNmi r.bus (hr hq)
  takeDmaRequest r hr hq := h.takeDmaRequest r.bus (hr hq)
  writeOam r value hr hq := h.writeOam r.bus value (hr hq)

/-- The buses with a property that every operation keeps are buses themselves. -/
@[reducible] def restrict (h : Keeps (fun _ => True) P) : SystemBus {bus // P bus} where
  read bus address :=
    ((SystemBus.read bus.1 address).1,
      ⟨(SystemBus.read bus.1 address).2, h.read _ _ trivial bus.2⟩)
  write bus address value :=
    ⟨SystemBus.write bus.1 address value, h.write _ _ _ trivial bus.2⟩
  clock bus cycles := ⟨SystemBus.clock bus.1 cycles, h.clock _ _ bus.2⟩
  takeNmi bus :=
    ((SystemBus.takeNmi bus.1).1, ⟨(SystemBus.takeNmi bus.1).2, h.takeNmi _ bus.2⟩)
  irqLine bus := SystemBus.irqLine bus.1
  takeDmaRequest bus :=
    ((SystemBus.takeDmaRequest bus.1).1,
      ⟨(SystemBus.takeDmaRequest bus.1).2, h.takeDmaRequest _ bus.2⟩)
  writeOam bus value := ⟨SystemBus.writeOam bus.1 value, h.writeOam _ _ bus.2⟩

theorem busMap_val (h : Keeps (fun _ => True) P) :
    letI := h.restrict
    BusMap (Subtype.val : {bus // P bus} → B) :=
  letI := h.restrict
  { read := fun _ _ => rfl
    write := fun _ _ _ => rfl
    clock := fun _ _ => rfl
    takeNmi := fun _ => rfl
    irqLine := fun _ => rfl
    takeDmaRequest := fun _ => rfl
    writeOam := fun _ _ => rfl }

/-- Anything that a processor can do, whatever the bus, keeps `P` if all its accesses satisfy `Q`:
it could as well run on recorders that keep `P` in this sense. -/
theorem of_natural {α : Type} (h : Keeps Q P) (run : ∀ {B : Type} [SystemBus B], B → α × B)
    (natural : ∀ {B B' : Type} [SystemBus B] [SystemBus B'] {f : B → B'}, BusMap f →
      ∀ bus, run (f bus) = ((run bus).1, f (run bus).2))
    {bus : B} (hp : P bus) (hq : ∀ a ∈ (run (Recorder.start bus)).2.accesses, Q a) :
    P (run bus).2 := by
  have hr := h.recorded
  let _ := hr.restrict
  let start : {r : Recorder B // (∀ a ∈ r.accesses, Q a) → P r.bus} :=
    ⟨Recorder.start bus, fun _ => hp⟩
  have hbare : run bus = _ := natural Recorder.busMap_bus start.1
  have hrun : run start.1 = _ := natural hr.busMap_val start
  have hq' : ∀ a ∈ (run start.1).2.accesses, Q a := hq
  rw [hrun] at hq'
  rw [hbare, hrun]
  exact (run start).2.property hq'

/-- A run whose accesses all satisfy `Q` keeps `P`. -/
theorem runTo [Time T] (h : Keeps Q P) (cpu : Cpu T) {bus : B} (hp : P bus) {limit : T}
    (hq : ∀ a ∈ cpu.accesses bus limit, Q a) : P (cpu.runTo bus limit).2 :=
  h.of_natural (fun bus => cpu.runTo bus limit) (fun hf bus => hf.runTo cpu bus limit) hp hq

/-- An interrupt whose accesses all satisfy `Q` keeps `P`. -/
theorem answerNmi (h : Keeps Q P) (cpu : Cpu T) {bus : B} (hp : P bus)
    (hq : ∀ a ∈ cpu.nmiAccesses bus, Q a) : P (cpu.answerNmi bus).2 :=
  h.of_natural (fun bus => cpu.answerNmi bus) (fun hf bus => hf.answerNmi cpu bus) hp hq

end Keeps

end Famicom
