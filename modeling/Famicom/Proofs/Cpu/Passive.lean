import Famicom.Cpu.Run

/-!
# What an instruction may change

An instruction reads as often as it likes and uses the stack, but it writes to at most one address
that it has computed. So a property of the bus that survives reads, the stack and whatever is not an
access survives an instruction, up to that one write.

* `Inert P`: reads, the stack and transfers keep `P`; so do operands and, up to a write, effects.
* `Passive P`: the passing of time keeps it too.
* `Passive.nmi`, `Passive.irq`: what consists of nothing else.
* `Passive.step`: an instruction leads from `P` to `Q` if a write does.
-/

namespace Famicom

open SystemBus

variable {T B : Type} [SystemBus B]

/-- Reads, writes to the stack, and what a transfer to sprite memory does keep the property `P`; the
passing of time and taking the pending interrupt need not. -/
structure Inert (P : B → Prop) : Prop where
  read : ∀ bus address, P bus → P (read bus address).2
  stack : ∀ bus sp value, P bus → P (write bus (stackAddress sp) value)
  takeDmaRequest : ∀ bus, P bus → P (takeDmaRequest bus).2
  writeOam : ∀ bus value, P bus → P (writeOam bus value)

namespace Inert

variable {P Q : B → Prop} {bus : B}

/-! ## Reading -/

theorem readWord (h : Inert P) (hp : P bus) (address : UInt16) :
    P (SystemBus.readWord bus address).2 :=
  h.read _ _ (h.read _ _ hp)

theorem transferPage (h : Inert P) (hp : P bus) (page : UInt8) :
    P (SystemBus.transferPage bus page) := by
  unfold SystemBus.transferPage
  rw [Fin.foldl_eq_finRange_foldl]
  generalize List.finRange 256 = offsets
  induction offsets generalizing bus with
  | nil => exact hp
  | cons offset rest ih => exact ih (h.writeOam _ _ (h.read _ _ hp))

theorem fetchByte (h : Inert P) (hp : P bus) (r : Registers) : P (r.fetchByte bus).2.2 :=
  h.read _ _ hp

theorem fetchWord (h : Inert P) (hp : P bus) (r : Registers) : P (r.fetchWord bus).2.2 :=
  h.read _ _ (h.read _ _ hp)

theorem readPointer (h : Inert P) (hp : P bus) (low : UInt16) :
    P (Famicom.readPointer bus low).2 :=
  h.read _ _ (h.read _ _ hp)

theorem resolve (h : Inert P) (hp : P bus) (mode : AddressingMode) (r : Registers) :
    P (mode.resolve r bus).2.2 := by
  cases mode with
  | implied => exact hp
  | accumulator => exact hp
  | absolute => exact h.fetchWord hp r
  | absoluteX => exact h.fetchWord hp r
  | absoluteY => exact h.fetchWord hp r
  | indirect => exact h.readPointer (h.fetchWord hp r) _
  | indexedIndirect => exact h.readPointer (h.fetchByte hp r) _
  | indirectIndexed => exact h.readPointer (h.fetchByte hp r) _
  | _ => exact h.fetchByte hp r

theorem load (h : Inert P) (hp : P bus) (operand : Operand) : P (operand.load bus).2 := by
  cases operand with
  | memory address crossed => exact h.read _ _ hp
  | _ => exact hp

/-! ## The stack -/

theorem pullWord (h : Inert P) (hp : P bus) (r : Registers) : P (r.pullWord bus).2.2 :=
  h.read _ _ (h.read _ _ hp)

theorem pushWord (h : Inert P) (hp : P bus) (r : Registers) (value : UInt16) :
    P (r.pushWord bus value).2 :=
  h.stack _ _ _ (h.stack _ _ _ hp)

/-- An interrupt sequence pushes and reads its vector. -/
theorem interrupt (h : Inert P) (hp : P bus) (r : Registers) (vector : UInt16)
    (software : Bool) : P (r.interrupt bus vector software).2 :=
  h.readWord (h.stack _ _ _ (h.pushWord hp r r.pc)) vector

/-! ## Effects -/

/-- An effect writes to at most one address that is not on the stack. -/
theorem run (h : Inert P) (h' : Inert Q) (weaken : ∀ bus, P bus → Q bus)
    (write : ∀ bus address value, P bus → Q (write bus address value)) (hp : P bus)
    (effect : Effect) (operand : Operand) (r : Registers) : Q (effect.run operand r bus).2 := by
  cases effect with
  | load f => exact h'.load (weaken _ hp) operand
  | store value => exact write _ _ _ hp
  | modify f absorb =>
    cases operand with
    | inline value => exact weaken _ hp
    | _ => exact write _ _ _ (h.read _ _ hp)
  | storeMasked index value prepare => exact write _ _ _ hp
  | call => exact h'.pushWord (weaken _ hp) _ _
  | callReturn => exact h'.pullWord (weaken _ hp) _
  | push value => exact h'.stack _ _ _ (weaken _ hp)
  | pull f => exact h'.read _ _ (weaken _ hp)
  | softwareInterrupt => exact h'.interrupt (weaken _ hp) _ _ _
  | interruptReturn => exact h'.pullWord (h'.read _ _ (weaken _ hp)) _
  | _ => exact weaken _ hp

end Inert

/-! ## Time -/

/-- Reads, writes to the stack, and whatever is not an access keep the property `P`; taking the
pending interrupt need not. -/
structure Passive (P : B → Prop) : Prop where
  read : ∀ bus address, P bus → P (read bus address).2
  stack : ∀ bus sp value, P bus → P (write bus (stackAddress sp) value)
  clock : ∀ bus cycles, P bus → P (clock bus cycles)
  takeDmaRequest : ∀ bus, P bus → P (takeDmaRequest bus).2
  writeOam : ∀ bus value, P bus → P (writeOam bus value)

namespace Passive

variable {P Q : B → Prop} {bus : B}

theorem inert (h : Passive P) : Inert P := ⟨h.read, h.stack, h.takeDmaRequest, h.writeOam⟩

theorem nmi (h : Passive P) (hp : P bus) (cpu : Cpu T) : P (cpu.nmi bus).2 :=
  h.clock _ _ (h.inert.interrupt hp _ _ _)

theorem irq (h : Passive P) (hp : P bus) (cpu : Cpu T) : P (cpu.irq bus).2 := by
  unfold Cpu.irq
  split
  · exact hp
  · exact h.clock _ _ (h.inert.interrupt hp _ _ _)

theorem serveTransfer (h : Passive P) (hp : P bus) (cpu : Cpu T) :
    P (cpu.serveTransfer bus).2.2 := by
  have htaken := h.takeDmaRequest bus hp
  unfold Cpu.serveTransfer
  dsimp only
  split
  · exact htaken
  · exact h.clock _ _ (h.inert.transferPage htaken _)

/-- An instruction leads from `P` to `Q`, if a write does. -/
theorem step (h : Passive P) (h' : Passive Q) (weaken : ∀ bus, P bus → Q bus)
    (write : ∀ bus address value, P bus → Q (write bus address value)) (hp : P bus)
    (cpu : Cpu T) : Q (cpu.step bus).2.2 := by
  unfold Cpu.step
  split
  · exact h'.clock _ _ (weaken _ hp)
  have hresolved := h.inert.resolve (h.inert.fetchByte hp cpu.registers)
    (Opcode.ofByte (cpu.registers.fetchByte bus).1).mode (cpu.registers.fetchByte bus).2.1
  dsimp only
  split
  · unfold Cpu.jam
    split
    · exact h'.clock _ _ (h'.inert.readWord (weaken _ hresolved) _)
    · exact h'.clock _ _ (weaken _ hresolved)
  · exact h'.serveTransfer (h'.clock _ _ (h.inert.run h'.inert weaken write hresolved _ _ _)) _

end Passive

end Famicom
