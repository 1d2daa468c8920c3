import Famicom.Proofs.Bus.SpriteTransfer
import Famicom.Proofs.Console.Moments
import Famicom.Proofs.Console.Phantoms

/-!
# Transfers in a run

A write at `$4014` leaves a request in a single place, where another one would take its room. But an
instruction makes at most one such write, and the transfer is the last thing that it does. So
between instructions and interrupt sequences there is never a request, and each one is served once,
whatever is asked of the processor from power-on on.

* `TransferLog`: a bus and what has happened to transfers on it.
* `InTurn`: a run in which every request is served at once, and nothing else is.
* `Console.transfersOver`: what happens to transfers in a run.
* `Console.inTurn_obeyAll`: every run from a console without a request is such a run.
* `spriteTransfers`: transfers, from the write that asks for one to the run that it is part
  of.
-/

namespace Famicom

open SystemBus

/-- Something that happens to transfers. -/
inductive TransferEvent where
  /-- The processor is between instructions and interrupt sequences; the page that is pending. -/
  | boundary (pending : Option UInt8)
  /-- A page is asked for. -/
  | request (page : UInt8)
  /-- A byte is passed to sprite memory; where it has just been read, unless it is another byte. -/
  | fill (source : Option UInt16)
  deriving DecidableEq, Repr

/-! ## Logs -/

/-- A bus, what has been read from it last and where, and what has happened to transfers, the latest
first. -/
structure TransferLog (B : Type) where
  bus : B
  lastRead : UInt16 × UInt8
  events : List TransferEvent

namespace TransferLog

variable {B : Type}

/-- A log in which nothing has happened. -/
def start (bus : B) : TransferLog B := ⟨bus, (0, 0), []⟩

variable [SystemBus B]

instance : SystemBus (TransferLog B) where
  read log address :=
    ((read log.bus address).1,
      { log with bus := (read log.bus address).2, lastRead := (address, (read log.bus address).1) })
  write log address value :=
    { log with
      bus := write log.bus address value
      events := if address = 0x4014 then .request value :: log.events else log.events }
  clock log cycles := { log with bus := clock log.bus cycles }
  takeNmi log := ((takeNmi log.bus).1, { log with bus := (takeNmi log.bus).2 })
  irqLine log := irqLine log.bus
  takeDmaRequest log :=
    ((takeDmaRequest log.bus).1, { log with bus := (takeDmaRequest log.bus).2 })
  writeOam log value :=
    { log with
      bus := writeOam log.bus value
      events :=
        .fill (if log.lastRead.2 = value then some log.lastRead.1 else none) :: log.events }

/-- The processor does not notice a log. -/
theorem busMap_bus : BusMap (TransferLog.bus : TransferLog B → B) where
  read _ _ := rfl
  write _ _ _ := rfl
  clock _ _ := rfl
  takeNmi _ := rfl
  irqLine _ := rfl
  takeDmaRequest _ := rfl
  writeOam _ _ := rfl

end TransferLog

/-- The page is copied to sprite memory, byte after byte. -/
def pageFills (page : UInt8) : List TransferEvent :=
  (List.finRange 256).map fun offset => .fill (some (Word.ofBytes (.ofFin offset) page))

/-- Between instructions and interrupt sequences no page is pending; after each request its page is
copied before anything else happens, and no byte is copied otherwise. -/
inductive InTurn : List TransferEvent → Prop where
  | nil : InTurn []
  | boundary {rest : List TransferEvent} : InTurn rest → InTurn (.boundary none :: rest)
  | transfer {rest : List TransferEvent} (page : UInt8) :
      InTurn rest → InTurn (.request page :: pageFills page ++ rest)

theorem InTurn.append {trace trace' : List TransferEvent} (h : InTurn trace)
    (h' : InTurn trace') : InTurn (trace ++ trace') := by
  induction h with
  | nil => exact h'
  | boundary _ ih => exact .boundary ih
  | transfer page _ ih =>
    rw [List.append_assoc]
    exact .transfer page ih

/-! ## Traces -/

/-- What happens to transfers while something is done to a bus, and at the boundary before it. -/
def transfersOf {B α : Type} [SystemBus B] (run : TransferLog B → α × TransferLog B) (bus : B) :
    List TransferEvent :=
  .boundary (takeDmaRequest bus).1 :: (run (.start bus)).2.events.reverse

namespace Cpu

variable {T B : Type} [SystemBus B]

/-- What happens in a round: at the poll, and in the instruction after it. -/
def roundTransfers (cpu : Cpu T) (bus : B) : List TransferEvent :=
  transfersOf cpu.poll bus ++
    transfersOf (fun log => ((cpu.poll bus).1.step log).2) (cpu.poll bus).2

/-- What happens in the rounds that begin up to cycle `last`. -/
def transfersThrough (cpu : Cpu T) (bus : B) (last : Nat) : List TransferEvent :=
  if _ : cpu.cycle ≤ last then
    let next := cpu.advance bus
    cpu.roundTransfers bus ++ transfersThrough next.1 next.2 last
  else []
termination_by last + 1 - cpu.cycle
decreasing_by
  have := cycle_lt_advance cpu bus
  omega

/-- What happens on the way to a limit. -/
def transfersTo [Time T] (cpu : Cpu T) (bus : B) (limit : T) : List TransferEvent :=
  match cpu.lastStart? limit with
  | none => []
  | some last => cpu.transfersThrough bus last

end Cpu

namespace Console

variable {T C A D S : Type} [Time T] [Cartridge C] [Apu A] [Controller D] [VideoSink S]

/-- What happens in an act. -/
def actTransfers (console : Console T C A D) : FrameAct T → List TransferEvent
  | .runCpu limit => console.cpu.transfersTo console.bus limit
  | .answerNmi => transfersOf console.cpu.answerNmi console.bus
  | _ => []

/-- What happens in some acts. -/
def transfers (console : Console T C A D) : List (FrameAct T) → List TransferEvent
  | [] => []
  | a :: rest => console.actTransfers a ++ (console.act a).transfers rest

/-- What happens in something that the processor is asked for. -/
def callTransfers (console : Console T C A D) : CpuCall T → List TransferEvent
  | .instruction => transfersOf (fun log => (console.cpu.step log).2) console.bus
  | .run limit => console.cpu.transfersTo console.bus limit
  | .nmi => transfersOf console.cpu.nmi console.bus
  | .irq => transfersOf console.cpu.irq console.bus
  | .restart => transfersOf console.cpu.restart console.bus
  | .reset => transfersOf console.cpu.reset console.bus
  | .resetButton => transfersOf console.cpu.reset console.bus.reset
  | .frame _ => console.transfers console.frameActs

/-- What happens while the processor is asked for one thing after the other. -/
def transfersOver (console : Console T C A D) (sink : S) :
    List (CpuCall T) → List TransferEvent
  | [] => []
  | call :: calls =>
    console.callTransfers call ++
      (console.obey sink call).1.transfersOver (console.obey sink call).2 calls

end Console

/-! ## Events -/

/-- The bus behind a poll: untouched, with the interrupt request taken, or behind an interrupt
sequence as well. -/
theorem Cpu.poll_snd_cases {T B : Type} [SystemBus B] (cpu : Cpu T) (bus : B) :
    (cpu.poll bus).2 = bus ∨ (cpu.poll bus).2 = (takeNmi bus).2 ∨
      (cpu.poll bus).2 = (cpu.nmi (takeNmi bus).2).2 ∨
        (cpu.poll bus).2 = (cpu.irq (takeNmi bus).2).2 := by
  cases hjammed : cpu.jammed with
  | true => exact .inl (by rw [poll, if_pos hjammed])
  | false =>
    rcases poll_cases hjammed bus with ⟨-, -, hpoll⟩ | ⟨-, -, hpoll⟩ | ⟨-, -, hpoll⟩
    · exact .inr (.inr (.inl (by rw [hpoll])))
    · exact .inr (.inr (.inr (by rw [hpoll])))
    · exact .inr (.inl (by rw [hpoll]))

namespace TransferLog

variable {T B : Type} [SystemBus B]

theorem events_clock (log : TransferLog B) (cycles : Nat) :
    (clock log cycles).events = log.events := rfl

theorem events_push (log : TransferLog B) (r : Registers) (value : UInt8) :
    (r.push log value).2.events = log.events :=
  if_neg (Cpu.transferRegister_ne r.sp).symm

theorem events_interrupt (log : TransferLog B) (r : Registers) (vector : UInt16)
    (software : Bool) : (r.interrupt log vector software).2.events = log.events :=
  (events_push _ _ _).trans ((events_push _ _ _).trans (events_push _ _ _))

theorem events_nmi (log : TransferLog B) (cpu : Cpu T) : (cpu.nmi log).2.events = log.events :=
  log.events_interrupt cpu.registers Interrupt.nmiVector false

theorem events_irq (log : TransferLog B) (cpu : Cpu T) :
    (cpu.irq log).2.events = log.events := by
  unfold Cpu.irq
  split
  · rfl
  · exact log.events_interrupt cpu.registers Interrupt.irqVector false

theorem events_poll (log : TransferLog B) (cpu : Cpu T) :
    (cpu.poll log).2.events = log.events := by
  rcases cpu.poll_snd_cases log with hpoll | hpoll | hpoll | hpoll <;> rw [hpoll]
  · rfl
  · exact events_nmi _ cpu
  · exact events_irq _ cpu

theorem events_answerNmi (log : TransferLog B) (cpu : Cpu T) :
    (cpu.answerNmi log).2.events = log.events := by
  unfold Cpu.answerNmi
  dsimp only
  split
  · exact events_nmi _ cpu
  · rfl

/-- Accesses are requests where they write at `$4014`. -/
theorem events_replay (log : TransferLog B) (accesses : List Access) :
    (replay log accesses).events =
      (Bus.requested (accesses.filterMap Access.write?)).map .request ++ log.events := by
  induction accesses with
  | nil => rfl
  | cons a accesses ih =>
    cases a with
    | read address => exact ih
    | write address value =>
      show (if address = 0x4014 then _ else _) = _
      rw [ih]
      simp only [Bus.requested, List.filterMap_cons, Access.write?]
      split <;> rfl

/-- Every byte of a page is read and passed on. -/
theorem events_transferPage (log : TransferLog B) (page : UInt8) :
    (transferPage log page).events = (pageFills page).reverse ++ log.events := by
  unfold transferPage pageFills
  rw [Fin.foldl_eq_finRange_foldl]
  generalize List.finRange 256 = offsets
  induction offsets generalizing log with
  | nil => rfl
  | cons offset rest ih =>
    have hbyte : (transferByte page log (.ofFin offset)).events =
        .fill (some (Word.ofBytes (.ofFin offset) page)) :: log.events :=
      congrArg (TransferEvent.fill · :: log.events) (if_pos rfl)
    rw [List.foldl_cons, ih, hbyte, List.map_cons, List.reverse_cons, List.append_assoc]
    rfl

theorem events_serveTransfer (log : TransferLog B) (cpu : Cpu T) :
    (cpu.serveTransfer log).2.2.events =
      ((takeDmaRequest log.bus).1.elim [] fun page => (pageFills page).reverse) ++ log.events := by
  have htaken : takeDmaRequest log =
      ((takeDmaRequest log.bus).1, { log with bus := (takeDmaRequest log.bus).2 }) := rfl
  unfold Cpu.serveTransfer
  rw [htaken]
  cases (takeDmaRequest log.bus).1 with
  | none => rfl
  | some page =>
    have hmoved := events_transferPage { log with bus := (takeDmaRequest log.bus).2 } page
    rw [Option.elim_some, ← hmoved]
    rfl

theorem events_nextOperand (log : TransferLog B) (cpu : Cpu T) :
    (cpu.nextOperand log).2.2.events = log.events := by
  unfold Cpu.nextOperand
  generalize (cpu.nextOpcode log).mode = mode
  cases mode <;> rfl

theorem events_jam (log : TransferLog B) (cpu : Cpu T) :
    (cpu.jam log).2.2.events = log.events := by
  unfold Cpu.jam
  split <;> rfl

end TransferLog

/-- An instruction makes at most one request. -/
theorem Cpu.requested_stepWrites {T B : Type} [SystemBus B] (cpu : Cpu T) (bus : B) :
    Bus.requested (cpu.stepWrites bus) = [] ∨
      ∃ page, Bus.requested (cpu.stepWrites bus) = [page] := by
  by_cases hrequest : ∃ page, (0x4014, page) ∈ cpu.stepWrites bus
  · obtain ⟨page, hpage⟩ := hrequest
    obtain ⟨-, -, honly⟩ := stepWrites_of_mem hpage transferRegister_ne
    rw [honly]
    exact .inr ⟨page, rfl⟩
  · refine .inl (List.filterMap_eq_nil_iff.mpr fun w hw => if_neg fun haddress => ?_)
    exact hrequest ⟨w.2, haddress ▸ hw⟩

/-! ## The place of the request -/

section

variable {T C A D : Type} [Cartridge C] [Apu A] [Controller D]

/-- Unless a program writes at `$4014`, nothing makes a request. -/
theorem Bus.passive_dmaPage : Passive fun bus : Bus C A D => bus.dmaPage = none where
  read bus address h := (bus.dmaPage_read address).trans h
  stack bus sp value h :=
    (bus.dmaPage_write _ value).trans
      ((if_neg (Cpu.transferRegister_ne sp).symm).trans h)
  clock _ _ h := h
  takeDmaRequest _ _ := rfl
  writeOam _ _ h := h

namespace Cpu

variable (cpu : Cpu T) {bus : Bus C A D}

/-- A transfer takes the request. -/
theorem dmaPage_serveTransfer (bus : Bus C A D) :
    (cpu.serveTransfer bus).2.2.dmaPage = none := by
  unfold serveTransfer
  dsimp only
  split
  · rfl
  · exact Bus.passive_dmaPage.clock _ _ (Bus.passive_dmaPage.inert.transferPage rfl _)

theorem dmaPage_poll (h : bus.dmaPage = none) : (cpu.poll bus).2.dmaPage = none := by
  have htaken : (takeNmi bus).2.dmaPage = none := h
  rcases cpu.poll_snd_cases bus with hpoll | hpoll | hpoll | hpoll <;> rw [hpoll]
  · exact h
  · exact htaken
  · exact Bus.passive_dmaPage.nmi htaken cpu
  · exact Bus.passive_dmaPage.irq htaken cpu

theorem dmaPage_answerNmi (h : bus.dmaPage = none) : (cpu.answerNmi bus).2.dmaPage = none := by
  have htaken : (takeNmi bus).2.dmaPage = none := h
  unfold answerNmi
  dsimp only
  split
  · exact Bus.passive_dmaPage.nmi htaken cpu
  · exact htaken

theorem dmaPage_restart (h : bus.dmaPage = none) : (cpu.restart bus).2.dmaPage = none := by
  have hread := Bus.passive_dmaPage.inert.readWord h Interrupt.resetVector
  exact Bus.passive_dmaPage.clock _ _ hread

/-- After an instruction no request is left. -/
theorem dmaPage_step (h : bus.dmaPage = none) : (cpu.step bus).2.2.dmaPage = none := by
  cases hrunning : cpu.jammed with
  | true =>
    rw [step_of_jammed hrunning]
    exact h
  | false =>
    by_cases hkil : (cpu.nextOpcode bus).operation = .kil
    · have hread : (cpu.nextOperand bus).2.2.dmaPage = none :=
        Bus.passive_dmaPage.inert.resolve (Bus.passive_dmaPage.read _ _ h) _ _
      rw [step_of_kil hrunning hkil]
      unfold jam
      split
      · exact dmaPage_restart _ hread
      · exact hread
    · obtain ⟨later, cycles, hstep⟩ := step_eq_serveTransfer hrunning hkil
      rw [hstep]
      exact later.dmaPage_serveTransfer _

end Cpu

/-! ## Instructions and interrupts -/

namespace TransferLog

/-- The operation of an instruction makes at most one request, which is then the pending one. -/
theorem operated_cases (bus : Bus C A D) (h : bus.dmaPage = none) {cpu : Cpu T}
    (hrunning : cpu.jammed = false) (hkil : (cpu.nextOpcode (start bus)).operation ≠ .kil) :
    ((cpu.operated (start bus)).events = [] ∧ (cpu.operated (start bus)).bus.dmaPage = none) ∨
      ∃ page, (cpu.operated (start bus)).events = [.request page] ∧
        (cpu.operated (start bus)).bus.dmaPage = some page := by
  have hwrites := Cpu.writes_operated hrunning hkil
  have hbus : (cpu.operated (start bus)).bus =
      replay bus (cpu.operated (Recorder.start (start bus))).accesses := by
    rw [Cpu.operated_eq_replay]
    exact busMap_bus.replay (start bus) _
  have hrequests := cpu.requested_stepWrites (start bus)
  rw [← hwrites] at hrequests
  rw [hbus, Cpu.operated_eq_replay, events_replay, Bus.dmaPage_replay, h]
  rcases hrequests with hnone | ⟨page, hpage⟩
  · left
    unfold Recorder.writes at hnone
    rw [hnone]
    exact ⟨rfl, rfl⟩
  · right
    unfold Recorder.writes at hpage
    rw [hpage]
    exact ⟨page, rfl, rfl⟩

end TransferLog

/-- What leaves no trace leaves a boundary. -/
theorem inTurn_of_quiet {α : Type} {run : TransferLog (Bus C A D) → α × TransferLog (Bus C A D)}
    {bus : Bus C A D} (h : bus.dmaPage = none) (hquiet : (run (.start bus)).2.events = []) :
    InTurn (transfersOf run bus) := by
  have hpending : (takeDmaRequest bus).1 = none := h
  rw [transfersOf, hpending, hquiet]
  exact .boundary .nil

namespace Cpu

variable (cpu : Cpu T) {bus : Bus C A D}

/-- An instruction serves the request that it makes. -/
theorem inTurn_step (h : bus.dmaPage = none) :
    InTurn (transfersOf (fun log => (cpu.step log).2) bus) := by
  cases hrunning : cpu.jammed with
  | true =>
    refine inTurn_of_quiet h ?_
    rw [step_of_jammed hrunning]
    rfl
  | false =>
    by_cases hkil : (cpu.nextOpcode bus).operation = .kil
    · refine inTurn_of_quiet h ?_
      have hstep : cpu.step (TransferLog.start bus) = _ := step_of_kil hrunning hkil
      rw [hstep, TransferLog.events_jam, TransferLog.events_nextOperand]
      rfl
    · have hpending : (takeDmaRequest bus).1 = none := h
      have hstart : (cpu.nextOpcode (TransferLog.start bus)).operation ≠ .kil := hkil
      obtain ⟨later, cycles, hstep⟩ := step_eq_serveTransfer hrunning hstart
      have htaken (log : TransferLog (Bus C A D)) :
          (takeDmaRequest (clock log cycles).bus).1 = log.bus.dmaPage := rfl
      rw [transfersOf, hpending, hstep, TransferLog.events_serveTransfer, htaken,
        TransferLog.events_clock]
      rcases TransferLog.operated_cases bus h hrunning hstart with ⟨hnone, hidle⟩ |
          ⟨page, hrequest, hpage⟩
      · rw [hnone, hidle]
        exact .boundary .nil
      · rw [hrequest, hpage, Option.elim_some, List.reverse_append, List.reverse_reverse]
        have hserved := InTurn.boundary (.transfer page .nil)
        rwa [List.append_nil] at hserved

/-- A round makes and serves requests between its boundaries. -/
theorem inTurn_advance (h : bus.dmaPage = none) :
    InTurn (cpu.roundTransfers bus) ∧ (cpu.advance bus).2.dmaPage = none := by
  have hpolled := cpu.dmaPage_poll h
  exact ⟨(inTurn_of_quiet h ((TransferLog.start bus).events_poll cpu)).append
    ((cpu.poll bus).1.inTurn_step hpolled), (cpu.poll bus).1.dmaPage_step hpolled⟩

/-! ## Runs -/

theorem inTurn_runThrough (h : bus.dmaPage = none) (last : Nat) :
    InTurn (cpu.transfersThrough bus last) ∧ (cpu.runThrough bus last).2.dmaPage = none := by
  fun_induction transfersThrough cpu bus last with
  | case1 cpu bus hle next =>
    rename_i ih
    obtain ⟨hround, hidle⟩ := cpu.inTurn_advance h
    obtain ⟨hrest, hlast⟩ := ih hidle
    rw [runThrough, dif_pos hle]
    exact ⟨hround.append hrest, hlast⟩
  | case2 cpu bus hlt =>
    rw [runThrough, dif_neg hlt]
    exact ⟨.nil, h⟩

theorem inTurn_runTo [Time T] (h : bus.dmaPage = none) (limit : T) :
    InTurn (cpu.transfersTo bus limit) ∧ (cpu.runTo bus limit).2.dmaPage = none := by
  unfold transfersTo runTo
  cases cpu.lastStart? limit with
  | none => exact ⟨.nil, h⟩
  | some last => exact cpu.inTurn_runThrough h last

theorem inTurn_answerNmi (h : bus.dmaPage = none) :
    InTurn (transfersOf cpu.answerNmi bus) ∧ (cpu.answerNmi bus).2.dmaPage = none :=
  ⟨inTurn_of_quiet h ((TransferLog.start bus).events_answerNmi cpu), cpu.dmaPage_answerNmi h⟩

end Cpu

end

/-! ## Frames and calls -/

namespace Console

variable {T C A D S : Type} [Time T] [Cartridge C] [Apu A] [Controller D] [VideoSink S]
  {console : Console T C A D}

theorem inTurn_act (h : console.bus.dmaPage = none) (a : FrameAct T) :
    InTurn (console.actTransfers a) ∧ (console.act a).bus.dmaPage = none := by
  cases a with
  | runCpu limit => exact console.cpu.inTurn_runTo h limit
  | answerNmi => exact console.cpu.inTurn_answerNmi h
  | _ => exact ⟨.nil, h⟩

theorem inTurn_performAll (h : console.bus.dmaPage = none) (acts : List (FrameAct T)) :
    InTurn (console.transfers acts) ∧ (console.performAll acts).bus.dmaPage = none := by
  induction acts generalizing console with
  | nil => exact ⟨.nil, h⟩
  | cons a acts ih =>
    obtain ⟨hact, hidle⟩ := inTurn_act h a
    obtain ⟨hrest, hlast⟩ := ih hidle
    exact ⟨hact.append hrest, hlast⟩

/-- Whatever the processor is asked for. -/
theorem inTurn_obey (h : console.bus.dmaPage = none) (sink : S) (call : CpuCall T) :
    InTurn (console.callTransfers call) ∧ (console.obey sink call).1.bus.dmaPage = none := by
  cases call with
  | instruction => exact ⟨console.cpu.inTurn_step h, console.cpu.dmaPage_step h⟩
  | run limit => exact console.cpu.inTurn_runTo h limit
  | nmi =>
    exact ⟨inTurn_of_quiet h ((TransferLog.start console.bus).events_nmi console.cpu),
      Bus.passive_dmaPage.nmi h console.cpu⟩
  | irq =>
    exact ⟨inTurn_of_quiet h ((TransferLog.start console.bus).events_irq console.cpu),
      Bus.passive_dmaPage.irq h console.cpu⟩
  | restart => exact ⟨inTurn_of_quiet h rfl, console.cpu.dmaPage_restart h⟩
  | reset =>
    exact ⟨inTurn_of_quiet h rfl, Cpu.dmaPage_restart { console.cpu with jammed := false } h⟩
  | resetButton =>
    have hreset : console.bus.reset.dmaPage = none := rfl
    exact ⟨inTurn_of_quiet hreset rfl,
      Cpu.dmaPage_restart { console.cpu with jammed := false } hreset⟩
  | frame call =>
    have hframe := inTurn_performAll h console.frameActs
    rw [← runUnpainted_eq, ← console.runCall_fst sink call] at hframe
    exact hframe

theorem inTurn_obeyAll (h : console.bus.dmaPage = none) (sink : S) (calls : List (CpuCall T)) :
    InTurn (console.transfersOver sink calls) ∧
      (console.obeyAll sink calls).1.bus.dmaPage = none := by
  induction calls generalizing console sink with
  | nil => exact ⟨.nil, h⟩
  | cons call calls ih =>
    obtain ⟨hcall, hidle⟩ := inTurn_obey h sink call
    obtain ⟨hrest, hlast⟩ := ih hidle (console.obey sink call).2
    exact ⟨hcall.append hrest, hlast⟩

theorem dmaPage_powerOn (console : Console T C A D) : console.powerOn.bus.dmaPage = none := by
  have hpowered : (console.bus.powerOn console.config.timing.standard).dmaPage = none := rfl
  exact Bus.passive_dmaPage.inert.readWord hpowered Interrupt.resetVector

end Console

/-- Transfers to sprite memory, from the write that asks for one to the run that it is part of. -/
structure SpriteTransfers (T C A D : Type) [Time T] [Cartridge C] [Apu A] [Controller D] :
    Prop where
  /-- Any page of work RAM can be transferred, whatever the cartridge, -/
  ram : ∀ (cpu : Cpu T) (bus : Bus C A D) (page : UInt8), page < 0x20 →
    (0x4014, page) ∈ cpu.stepWrites bus → cpu.FillsSprites bus page
  /-- and any page of the memory on a board without bank switching. -/
  board : ∀ (cpu : Cpu T) (bus : Bus Nrom A D) (page : UInt8), 0x60 ≤ page →
    (0x4014, page) ∈ cpu.stepWrites bus → cpu.FillsSprites bus page
  /-- From power-on, whatever is asked of the processor, each request is served once and before
  anything else happens, and none is left. -/
  run : ∀ {S : Type} [VideoSink S] (console : Console T C A D) (sink : S)
    (calls : List (CpuCall T)),
    InTurn (console.powerOn.transfersOver sink calls) ∧
      (console.powerOn.obeyAll sink calls).1.bus.dmaPage = none

theorem spriteTransfers (T C A D : Type) [Time T] [Cartridge C] [Apu A] [Controller D] :
    SpriteTransfers T C A D where
  ram _ _ _ hpage hrequest := Cpu.fillsSprites hrequest (Bus.steadyPage_ram _ hpage)
  board _ _ _ hpage hrequest := Cpu.fillsSprites hrequest (Bus.steadyPage_board _ hpage)
  run console sink calls := Console.inTurn_obeyAll console.dmaPage_powerOn sink calls

/-- A program that asks for page 2 over and over. -/
def Console.copying : Console ℚ Nrom SilentApu Unplugged :=
  .new
    (.new
      #[
        -- LDA #$02, STA $4014, JMP $8002
        0xA9, 0x02, 0x8D, 0x14, 0x40, 0x4C, 0x02, 0x80, 0xEA, 0xEA, 0xEA, 0xEA,
        -- the start address
        0x00, 0x80,
        0xEA, 0xEA]
      #[] .vertical)
    .new ⟨⟩ ⟨⟩ .default

/-- The second instruction asks for the page, and leaves it in sprite memory. -/
theorem spriteTransfers_copying :
    let later := (Console.copying.powerOn.obeyAll NullSink.mk [.instruction]).1
    let trace := Console.copying.powerOn.transfersOver NullSink.mk [.instruction, .instruction]
    later.cpu.stepWrites later.bus = [(0x4014, 2)] ∧ later.cpu.FillsSprites later.bus 2 ∧
      .request 2 ∈ trace ∧ InTurn trace := by
  intro later trace
  have htransfers := spriteTransfers ℚ Nrom SilentApu Unplugged
  have hstore : later.cpu.Performs later.bus .sta := ⟨by decide +kernel, by decide +kernel⟩
  have hwrites : later.cpu.stepWrites later.bus = [(0x4014, 2)] :=
    (Cpu.stepWrites_of_running hstore Operation.noConfusion).trans (by decide +kernel)
  have hrequest : (0x4014, 2) ∈ later.cpu.stepWrites later.bus := by
    rw [hwrites]
    exact List.mem_singleton_self _
  exact ⟨hwrites, htransfers.ram later.cpu later.bus 2 (by decide) hrequest, by decide +kernel,
    (htransfers.run Console.copying NullSink.mk [.instruction, .instruction]).1⟩

end Famicom
