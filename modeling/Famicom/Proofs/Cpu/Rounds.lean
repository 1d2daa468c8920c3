import Famicom.Cpu.Run

/-!
# The rounds of a run

A run makes rounds, one interrupt and one instruction each, for as long as its guard holds. Here
are the guard and the rounds by themselves, and what time a round takes.

* `runTo_eq_rounds`: a run is the least number of rounds after which the guard fails.
* `elapsed_advance`: a round takes 2 to 529 cycles, which both counters show.
* `elapsed_runTo`: a run moves both counters alike.
* `Begins`: the cycles at which the rounds of a run and their instructions begin.
-/

namespace Famicom

open SystemBus

namespace Cpu

variable {T B : Type} [SystemBus B]

/-! ## Passing time -/

/-- Between two states some cycles have passed; the fraction of the frame is the same. -/
structure Elapsed (cycles : Nat) (cpu later : Cpu T) : Prop where
  cycle : later.cycle = cpu.cycle + cycles
  totalCycles : later.totalCycles = cpu.totalCycles + cycles
  cycleOffset : later.cycleOffset = cpu.cycleOffset

theorem Elapsed.refl (cpu : Cpu T) : Elapsed 0 cpu cpu := ⟨rfl, rfl, rfl⟩

theorem Elapsed.trans {m n : Nat} {cpu later last : Cpu T} (h : Elapsed m cpu later)
    (h' : Elapsed n later last) : Elapsed (m + n) cpu last where
  cycle := by rw [h'.cycle, h.cycle, Nat.add_assoc]
  totalCycles := by rw [h'.totalCycles, h.totalCycles, Nat.add_assoc]
  cycleOffset := h'.cycleOffset.trans h.cycleOffset

theorem elapsed_nmi (cpu : Cpu T) (bus : B) : Elapsed 7 cpu (cpu.nmi bus).1 := ⟨rfl, rfl, rfl⟩

/-- An interrupt takes seven cycles, if there is one. -/
theorem elapsed_poll (cpu : Cpu T) (bus : B) :
    ∃ cycles ≤ 7, Elapsed cycles cpu (cpu.poll bus).1 := by
  unfold poll pollInterrupts
  split
  · exact ⟨0, by decide, .refl cpu⟩
  · rcases takeNmi bus with ⟨pending, bus⟩
    dsimp only
    split
    · exact ⟨7, by decide, elapsed_nmi cpu bus⟩
    · split
      · unfold irq
        split
        · exact ⟨0, by decide, .refl cpu⟩
        · exact ⟨7, by decide, rfl, rfl, rfl⟩
      · exact ⟨0, by decide, .refl cpu⟩

end Cpu

/-! ## The longest instruction -/

/-- The most cycles that an effect adds to those of the table. -/
def Effect.mostExtra : Effect → Nat
  | .branch _ => 2
  | _ => 0

theorem Effect.extraCycles_le_mostExtra (effect : Effect) (operand : Operand) (p : Status) :
    effect.extraCycles operand p ≤ effect.mostExtra := by
  cases effect with
  | branch taken => simp only [extraCycles, mostExtra]; split <;> (try split) <;> decide
  | _ => exact Nat.le_refl _

/-- Over the whole opcode table, an instruction takes at most eight cycles. -/
theorem Opcode.most_le_eight (code : UInt8) :
    (ofByte code).cycles + (ofByte code).operation.effect.mostExtra +
      (if (ofByte code).paged then 1 else 0) ≤ 8 := by
  refine forall_of_table (P := fun opcode =>
    opcode.cycles + opcode.operation.effect.mostExtra + (if opcode.paged then 1 else 0) ≤ 8) ?_ code
  decide +kernel

theorem Opcode.cost_le_eight (code : UInt8) (operand : Operand) (p : Status) :
    (ofByte code).cost operand p ≤ 8 := by
  have hmost := most_le_eight code
  have hextra := (ofByte code).operation.effect.extraCycles_le_mostExtra operand p
  have hpaged : (if (ofByte code).paged && operand.crossed then 1 else 0) ≤
      (if (ofByte code).paged then 1 else 0) := by
    cases (ofByte code).paged <;> cases operand.crossed <;> decide
  unfold cost
  omega

namespace Cpu

variable {T B : Type} [SystemBus B]

theorem elapsed_jam (cpu : Cpu T) (bus : B) :
    ∃ cycles ≤ 7, Elapsed cycles cpu (cpu.jam bus).2.1 := by
  unfold jam
  split
  · exact ⟨7, by decide, rfl, rfl, rfl⟩
  · exact ⟨2, by decide, rfl, rfl, rfl⟩

/-- A transfer to sprite memory stalls the processor for at most 514 cycles. -/
theorem elapsed_serveTransfer (cpu : Cpu T) (bus : B) :
    ∃ cycles ≤ 514, Elapsed cycles cpu (cpu.serveTransfer bus).2.1 := by
  unfold serveTransfer
  rcases takeDmaRequest bus with ⟨_ | page, bus⟩
  · exact ⟨0, by decide, .refl cpu⟩
  · refine ⟨transferCycles cpu.totalCycles, ?_, rfl, rfl, rfl⟩
    unfold transferCycles
    split <;> decide

theorem elapsed_perform (cpu : Cpu T) (bus : B) (code : UInt8) (operand : Operand) :
    ∃ cycles ≤ 522, Elapsed cycles cpu (cpu.perform bus (.ofByte code) operand).2.1 := by
  have hcost := Opcode.cost_le_eight code operand cpu.registers.p
  unfold perform
  rcases (Opcode.ofByte code).operation.effect.run operand cpu.registers bus with ⟨registers, bus⟩
  dsimp only
  generalize (Opcode.ofByte code).cost operand cpu.registers.p = cost at hcost ⊢
  obtain ⟨stall, hle, hstall⟩ :=
    elapsed_serveTransfer ({ cpu with registers }.elapse bus cost).1
      ({ cpu with registers }.elapse bus cost).2
  have hspent : Elapsed cost cpu ({ cpu with registers }.elapse bus cost).1 := ⟨rfl, rfl, rfl⟩
  exact ⟨cost + stall, by omega, hspent.trans hstall⟩

/-- An instruction takes at least two cycles, and at most eight and a transfer. -/
theorem elapsed_step (cpu : Cpu T) (bus : B) :
    ∃ cycles, 2 ≤ cycles ∧ cycles ≤ 522 ∧ Elapsed cycles cpu (cpu.step bus).2.1 := by
  obtain ⟨⟨hcycle, htotal⟩, htwo⟩ := counts_step cpu bus
  have hmost : ∃ cycles ≤ 522, Elapsed cycles cpu (cpu.step bus).2.1 := by
    unfold step
    split
    · exact ⟨2, by decide, rfl, rfl, rfl⟩
    · rcases cpu.registers.fetchByte bus with ⟨code, registers, bus⟩
      rcases h : (Opcode.ofByte code).mode.resolve registers bus with ⟨operand, registers, bus⟩
      simp only [h]
      split
      · obtain ⟨cycles, hle, hjam⟩ := elapsed_jam { cpu with registers } bus
        exact ⟨cycles, by omega, hjam.cycle, hjam.totalCycles, hjam.cycleOffset⟩
      · obtain ⟨cycles, hle, hrun⟩ := elapsed_perform { cpu with registers } bus code operand
        exact ⟨cycles, hle, hrun.cycle, hrun.totalCycles, hrun.cycleOffset⟩
  obtain ⟨cycles, hle, h⟩ := hmost
  have := h.cycle
  exact ⟨cycles, by omega, hle, h⟩

/-- A round takes at most an interrupt, an instruction and a transfer. -/
theorem elapsed_advance (cpu : Cpu T) (bus : B) :
    ∃ cycles, 2 ≤ cycles ∧ cycles ≤ 529 ∧ Elapsed cycles cpu (cpu.advance bus).1 := by
  obtain ⟨m, hm, hpoll⟩ := elapsed_poll cpu bus
  obtain ⟨n, htwo, hn, hstep⟩ := elapsed_step (cpu.poll bus).1 (cpu.poll bus).2
  exact ⟨m + n, by omega, by omega, hpoll.trans hstep⟩

/-- A round without interrupt: the instruction step by step, and the transfer that it may have asked
for. -/
theorem advance_uninterrupted {cpu : Cpu T} {bus fetched resolved after : B} {code : UInt8}
    {r operated done : Registers} {operand : Operand} {cost : Nat} (hrunning : cpu.jammed = false)
    (hnmi : takeNmi bus = (false, bus)) (hirq : irqLine bus = false)
    (hfetch : cpu.registers.fetchByte bus = (code, r, fetched))
    (hresolve : (Opcode.ofByte code).mode.resolve r fetched = (operand, operated, resolved))
    (hkil : (Opcode.ofByte code).operation ≠ .kil)
    (heffect : (Opcode.ofByte code).operation.effect.run operand operated resolved =
      (done, after))
    (hcost : (Opcode.ofByte code).cost operand operated.p = cost) :
    cpu.advance bus =
      (serveTransfer
        { cpu with
          registers := done
          cycle := cpu.cycle + cost
          totalCycles := cpu.totalCycles + cost } (clock after cost)).2 := by
  have hpoll : cpu.poll bus = (cpu, bus) := by
    unfold poll pollInterrupts
    rw [hrunning, hnmi]
    dsimp only
    rw [hirq]
    rfl
  unfold advance step
  rw [hpoll]
  dsimp only
  rw [hrunning, hfetch]
  dsimp only
  rw [hresolve]
  dsimp only
  rw [if_neg Bool.false_ne_true, if_neg hkil]
  unfold perform elapse
  rw [heffect, hcost]

/-! ## Rounds -/

/-- Make some rounds, whatever the time. -/
def rounds (cpu : Cpu T) (bus : B) : Nat → Cpu T × B
  | 0 => (cpu, bus)
  | n + 1 => (cpu.advance bus).1.rounds (cpu.advance bus).2 n

theorem elapsed_rounds (cpu : Cpu T) (bus : B) (n : Nat) :
    ∃ cycles, Elapsed cycles cpu (cpu.rounds bus n).1 := by
  induction n generalizing cpu bus with
  | zero => exact ⟨0, .refl cpu⟩
  | succ n ih =>
    obtain ⟨_, -, -, hfirst⟩ := elapsed_advance cpu bus
    obtain ⟨_, hrest⟩ := ih (cpu.advance bus).1 (cpu.advance bus).2
    exact ⟨_, hfirst.trans hrest⟩

theorem rounds_succ (cpu : Cpu T) (bus : B) (n : Nat) :
    cpu.rounds bus (n + 1) = (cpu.rounds bus n).1.advance (cpu.rounds bus n).2 := by
  induction n generalizing cpu bus with
  | zero => rfl
  | succ n ih => exact ih (cpu.advance bus).1 (cpu.advance bus).2

/-- Rounds take at least two cycles each. -/
theorem cycle_add_le_rounds (cpu : Cpu T) (bus : B) (n : Nat) :
    cpu.cycle + 2 * n ≤ (cpu.rounds bus n).1.cycle := by
  induction n with
  | zero => exact Nat.le_refl _
  | succ n ih =>
    obtain ⟨cycles, htwo, -, he⟩ := elapsed_advance (cpu.rounds bus n).1 (cpu.rounds bus n).2
    have hcycle := he.cycle
    rw [rounds_succ]
    omega

theorem runThrough_eq_rounds (cpu : Cpu T) (bus : B) (last : Nat) :
    ∃ n, cpu.runThrough bus last = cpu.rounds bus n ∧
      (∀ m < n, (cpu.rounds bus m).1.cycle ≤ last) ∧ last < (cpu.rounds bus n).1.cycle := by
  fun_induction runThrough cpu bus last with
  | case1 cpu bus hle next ih =>
    obtain ⟨n, hrun, hbefore, hafter⟩ := ih
    refine ⟨n + 1, hrun, fun m hm => ?_, hafter⟩
    cases m with
    | zero => exact hle
    | succ m => exact hbefore m (by omega)
  | case2 cpu bus hlt => exact ⟨0, rfl, fun m hm => by omega, by simpa [rounds] using hlt⟩

variable [Time T]

/-- The guard of a run: a round is due before `limit` has passed. -/
def Due (cpu : Cpu T) (limit : T) : Prop :=
  ∃ last, cpu.lastStart? limit = some last ∧ cpu.cycle ≤ last

theorem lastStart?_rounds (cpu : Cpu T) (bus : B) (n : Nat) (limit : T) :
    (cpu.rounds bus n).1.lastStart? limit = cpu.lastStart? limit := by
  obtain ⟨_, h⟩ := elapsed_rounds cpu bus n
  simp only [lastStart?, h.cycleOffset]

/-- A run makes rounds as long as its guard holds. -/
theorem runTo_eq_rounds (cpu : Cpu T) (bus : B) (limit : T) :
    ∃ n, cpu.runTo bus limit = cpu.rounds bus n ∧
      (∀ m < n, (cpu.rounds bus m).1.Due limit) ∧ ¬ (cpu.rounds bus n).1.Due limit := by
  unfold runTo Due
  simp only [lastStart?_rounds]
  cases cpu.lastStart? limit with
  | none => exact ⟨0, rfl, fun m hm => by omega, by rintro ⟨_, h, -⟩; cases h⟩
  | some last =>
    obtain ⟨n, hrun, hbefore, hafter⟩ := cpu.runThrough_eq_rounds bus last
    refine ⟨n, hrun, fun m hm => ⟨last, rfl, hbefore m hm⟩, ?_⟩
    rintro ⟨last', h, hle⟩
    cases h
    omega

/-- What the rounds that are due keep, a run keeps. -/
theorem runTo_induction {P : Cpu T → B → Prop} {cpu : Cpu T} {bus : B} {limit : T}
    (round : ∀ cpu bus, P cpu bus → cpu.Due limit → P (cpu.advance bus).1 (cpu.advance bus).2)
    (h : P cpu bus) : P (cpu.runTo bus limit).1 (cpu.runTo bus limit).2 := by
  obtain ⟨n, hrun, hdue, -⟩ := cpu.runTo_eq_rounds bus limit
  rw [hrun]
  clear hrun
  induction n with
  | zero => exact h
  | succ n ih =>
    rw [rounds_succ]
    exact round _ _ (ih fun m hm => hdue m (by omega)) (hdue n n.lt_succ_self)

/-- On its way to a limit, a run begins a round at `cycle` in which an instruction starts at
`start`: later than the round only if the processor answers an interrupt first. -/
def Begins (cpu : Cpu T) (bus : B) (limit : T) (cycle start : Nat) : Prop :=
  ∃ n, (∀ m ≤ n, (cpu.rounds bus m).1.Due limit) ∧ (cpu.rounds bus n).1.jammed = false ∧
    (cpu.rounds bus n).1.cycle = cycle ∧
    ((cpu.rounds bus n).1.poll (cpu.rounds bus n).2).1.cycle = start

theorem begins_self {cpu : Cpu T} {limit : T} (h : cpu.Due limit) (hrunning : cpu.jammed = false)
    (bus : B) : cpu.Begins bus limit cpu.cycle (cpu.poll bus).1.cycle := by
  refine ⟨0, fun m hm => ?_, hrunning, rfl, rfl⟩
  rw [Nat.le_zero.mp hm]
  exact h

namespace Begins

variable {cpu : Cpu T} {bus : B} {limit : T} {cycle start : Nat}

theorem cycle_le (h : cpu.Begins bus limit cycle start) : cpu.cycle ≤ cycle := by
  obtain ⟨n, -, -, rfl, -⟩ := h
  obtain ⟨_, he⟩ := elapsed_rounds cpu bus n
  rw [he.cycle]
  exact Nat.le_add_right _ _

theorem cycle_le_start (h : cpu.Begins bus limit cycle start) : cycle ≤ start := by
  obtain ⟨n, -, -, rfl, rfl⟩ := h
  exact cycle_le_poll _ _

end Begins

theorem elapsed_runTo (cpu : Cpu T) (bus : B) (limit : T) :
    ∃ cycles, Elapsed cycles cpu (cpu.runTo bus limit).1 := by
  obtain ⟨n, hrun, -, -⟩ := cpu.runTo_eq_rounds bus limit
  rw [hrun]
  exact elapsed_rounds cpu bus n

end Cpu

end Famicom
