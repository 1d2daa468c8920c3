import Famicom.Proofs.Cpu.MaskedStores

/-!
# Replaying accesses

Until its time passes, an instruction reaches the bus through reads and writes only. So the bus that
its operation leaves is the one on which its accesses have been made once more, and what holds of
the bus then follows from the list of accesses, without another look at modes and operations.

* `SystemBus.replay`, `SystemBus.replay_induction`: accesses made once more, and what they keep.
* `Cpu.operated_eq_replay`: an operation leaves the bus of its accesses.
* `Cpu.writes_operated`: nothing else is written by an instruction.
* `Cpu.stepWrites_of_mem`: an instruction that writes outside the stack writes once.
-/

namespace Famicom

open SystemBus

variable {T B : Type} [SystemBus B]

/-! ## Accesses -/

namespace SystemBus

/-- Make accesses once more, of which the latest comes first. -/
def replay (bus : B) : List Access → B
  | [] => bus
  | .read address :: earlier => (read (replay bus earlier) address).2
  | .write address value :: earlier => write (replay bus earlier) address value

theorem replay_append (bus : B) (later earlier : List Access) :
    replay bus (later ++ earlier) = replay (replay bus earlier) later := by
  induction later with
  | nil => rfl
  | cons a later ih => cases a <;> simp only [List.cons_append, replay, ih]

/-- What reads keep, and the writes among some accesses, the accesses keep. -/
theorem replay_induction {P : B → Prop} {accesses : List Access}
    (read : ∀ bus address, P bus → P (read bus address).2)
    (write : ∀ w ∈ accesses.filterMap Access.write?, ∀ bus, P bus → P (write bus w.1 w.2))
    {bus : B} (h : P bus) : P (replay bus accesses) := by
  induction accesses with
  | nil => exact h
  | cons a accesses ih =>
    cases a with
    | read address => exact read _ _ (ih write)
    | write address value =>
      exact write (address, value) (List.mem_cons_self ..) _ (ih fun w hw => write w (.tail _ hw))

end SystemBus

theorem BusMap.replay {B' : Type} [SystemBus B'] {f : B → B'} (h : BusMap f) (bus : B)
    (accesses : List Access) :
    f (SystemBus.replay bus accesses) = SystemBus.replay (f bus) accesses := by
  induction accesses with
  | nil => rfl
  | cons a accesses ih => cases a <;> simp only [SystemBus.replay, ← ih, h.read, h.write]

/-! ## Operands and effects -/

theorem AddressingMode.resolve_eq_replay (mode : AddressingMode) (r : Registers) (bus : B) :
    (mode.resolve r bus).2.2 =
      replay bus (mode.resolve r (Recorder.start bus)).2.2.accesses := by
  cases mode <;> rfl

theorem Effect.run_eq_replay (effect : Effect) (operand : Operand) (r : Registers) (bus : B) :
    (effect.run operand r bus).2 =
      replay bus (effect.run operand r (Recorder.start bus)).2.accesses := by
  cases effect with
  | load f => cases operand <;> rfl
  | modify f absorb => cases operand <;> rfl
  | _ => rfl

namespace Recorder

/-- A recorder that has noted something notes the same as one that has not, after it. -/
theorem accesses_resolve (recorder : Recorder B) (mode : AddressingMode) (r : Registers) :
    (mode.resolve r recorder).2.2.accesses =
      (mode.resolve r (start recorder.bus)).2.2.accesses ++ recorder.accesses := by
  cases mode <;> rfl

theorem accesses_run (recorder : Recorder B) (effect : Effect) (operand : Operand)
    (r : Registers) :
    (effect.run operand r recorder).2.accesses =
      (effect.run operand r (start recorder.bus)).2.accesses ++ recorder.accesses := by
  cases effect with
  | load f => cases operand <;> rfl
  | modify f absorb => cases operand <;> rfl
  | _ => rfl

end Recorder

/-! ## Instructions -/

/-- An effect that writes outside the stack writes there only. -/
theorem Effect.targets_of_mem {effect : Effect} {operand : Operand} {r : Registers}
    {address : UInt16} (h : address ∈ effect.targets operand r)
    (houtside : ∀ sp, address ≠ stackAddress sp) : effect.targets operand r = [address] := by
  have honly {target : UInt16} (h : address ∈ [target]) : [target] = [address] :=
    congrArg (fun address => [address]) (List.mem_singleton.mp h).symm
  cases effect with
  | store value => exact honly h
  | modify f absorb =>
    cases operand with
    | inline value => cases h
    | _ => exact honly h
  | storeMasked index value prepare => exact honly h
  | push value => exact absurd (List.mem_singleton.mp h) (houtside _)
  | call | softwareInterrupt =>
    simp only [targets, List.mem_cons, List.not_mem_nil, houtside, or_false] at h
  | _ => cases h

namespace Cpu

/-- The bus behind an operand is that of the opcode's and the operand's reads. -/
theorem nextOperand_eq_replay (cpu : Cpu T) (bus : B) :
    (cpu.nextOperand bus).2.2 =
      replay bus (cpu.nextOperand (Recorder.start bus)).2.2.accesses := by
  have hopcode : (cpu.nextOperand (Recorder.start bus)).2.2.accesses =
      _ ++ [.read cpu.registers.pc] :=
    Recorder.accesses_resolve (read (Recorder.start bus) cpu.registers.pc).2 _ _
  rw [hopcode, replay_append]
  exact AddressingMode.resolve_eq_replay _ _ _

/-- An operation leaves the bus on which the accesses of its instruction have been made. -/
theorem operated_eq_replay (cpu : Cpu T) (bus : B) :
    cpu.operated bus = replay bus (cpu.operated (Recorder.start bus)).accesses := by
  have hbus : (cpu.nextOperand (Recorder.start bus)).2.2.bus = (cpu.nextOperand bus).2.2 := by
    rw [cpu.nextOperand_start bus]
  have hoperand : (cpu.operated (Recorder.start bus)).accesses = _ ++ _ :=
    Recorder.accesses_run (cpu.nextOperand (Recorder.start bus)).2.2 _ _ _
  rw [hoperand, hbus, replay_append, ← nextOperand_eq_replay, operated, Effect.run_eq_replay,
    cpu.nextOperand_start bus]
  rfl

/-- After the operation, time passes, and a transfer is made if one is pending. -/
theorem step_eq_serveTransfer {cpu : Cpu T} {bus : B} (hrunning : cpu.jammed = false)
    (hkil : (cpu.nextOpcode bus).operation ≠ .kil) :
    ∃ (later : Cpu T) (cycles : Nat),
      (cpu.step bus).2.2 = (later.serveTransfer (clock (cpu.operated bus) cycles)).2.2 := by
  rw [step_of_running hrunning hkil]
  unfold perform elapse operated
  exact ⟨_, _, rfl⟩

/-- After its operation, an instruction writes nothing more. -/
theorem writes_operated {cpu : Cpu T} {bus : B} (hrunning : cpu.jammed = false)
    (hkil : (cpu.nextOpcode bus).operation ≠ .kil) :
    (cpu.operated (Recorder.start bus)).writes = cpu.stepWrites bus := by
  have hstep : cpu.step (Recorder.start bus) = _ := step_of_running hrunning hkil
  rw [stepWrites, hstep, Recorder.writes_perform]
  rfl

/-- An instruction that writes outside the stack writes once. -/
theorem stepWrites_of_mem {cpu : Cpu T} {bus : B} {address : UInt16} {value : UInt8}
    (h : (address, value) ∈ cpu.stepWrites bus) (houtside : ∀ sp, address ≠ stackAddress sp) :
    cpu.jammed = false ∧ (cpu.nextOpcode bus).operation ≠ .kil ∧
      cpu.stepWrites bus = [(address, value)] := by
  have hmem : address ∈ cpu.targets bus :=
    List.mem_reverse.mpr (List.mem_map_of_mem h)
  cases hrunning : cpu.jammed with
  | true =>
    rw [targets_of_jammed hrunning] at hmem
    cases hmem
  | false =>
    by_cases hkil : (cpu.nextOpcode bus).operation = .kil
    · rw [targets_of_kil hrunning hkil] at hmem
      cases hmem
    have honly : cpu.targets bus = [address] := by
      rw [targets_of_running hrunning hkil] at hmem ⊢
      exact Effect.targets_of_mem hmem houtside
    have haddresses : (cpu.stepWrites bus).map Prod.fst = [address] :=
      List.reverse_inj.mp honly
    obtain ⟨w, hw, -⟩ := List.map_eq_singleton_iff.mp haddresses
    rw [hw] at h ⊢
    exact ⟨rfl, hkil, by rw [List.mem_singleton.mp h]⟩

end Cpu

end Famicom
