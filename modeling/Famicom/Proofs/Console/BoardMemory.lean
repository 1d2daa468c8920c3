import Famicom.Proofs.Bus.Ledger
import Famicom.Proofs.Bus.Mirrors
import Famicom.Proofs.Console.Phantoms
import Famicom.Proofs.Console.Scheduling

/-!
# The memory of a board over a run

Whatever is done to a console with a board without bank switching, the images on the board stay as
they are, and its RAM returns what was last delivered to it. Programs can write wherever they want,
in every way that there is, and hosts can run frames, press buttons and reach for the processor and
the bus; only another cartridge changes what is read.

* `Deed`, `Console.undertakeAll`: all that can be done to a console and its parts.
* `Console.entriesOver`: what a ledger notes meanwhile.
* `Console.remembers_undertakeAll`: the board stays faithful to it.
* `Console.board_remembers`: so this is what is read.
-/

namespace Famicom

/-- What can be done to a console and to its parts. -/
inductive Deed (T C A D : Type) where
  | host (call : HostCall T C A D)
  | processor (call : CpuCall T)
  | bus (call : BusCall)
  /-- Switch on the bus alone. -/
  | busPowerOn (standard : VideoStandard)
  /-- Reset the bus alone. -/
  | busReset
  /-- Perform an act of a frame, so that a run can end within a frame. -/
  | act (a : FrameAct T)

/-- The deeds that leave the cartridge in the slot. -/
def Deed.LeavesCartridge {T C A D : Type} : Deed T C A D → Prop
  | host (.insertCartridge _) => False
  | _ => True

theorem BusMap.powerOn {B B' T : Type} [SystemBus B] [SystemBus B'] [Time T] {f : B → B'}
    (h : BusMap f) (cpu : Cpu T) (bus : B) :
    cpu.powerOn (f bus) = ((cpu.powerOn bus).1, f (cpu.powerOn bus).2) := by
  simp only [Cpu.powerOn, h.readWord]

namespace Console

variable {T C A D S : Type} [Time T] [Cartridge C] [Apu A] [Controller D] [VideoSink S]

/-! ## Deeds -/

/-- Do something to a console or one of its parts. -/
def undertake (console : Console T C A D) (sink : S) : Deed T C A D → Console T C A D × S
  | .host call => console.answer sink call
  | .processor call => console.obey sink call
  | .bus call => ({ console with bus := (console.bus.serve call).2 }, sink)
  | .busPowerOn standard => ({ console with bus := console.bus.powerOn standard }, sink)
  | .busReset => ({ console with bus := console.bus.reset }, sink)
  | .act a => (console.act a, sink)

/-- Do one thing after the other. -/
def undertakeAll (console : Console T C A D) (sink : S) :
    List (Deed T C A D) → Console T C A D × S
  | [] => (console, sink)
  | deed :: deeds =>
    (console.undertake sink deed).1.undertakeAll (console.undertake sink deed).2 deeds

/-! ## What a ledger notes, the latest entry first -/

/-- The entries of an act. -/
def entriesOf (console : Console T C A D) : FrameAct T → List Entry
  | .runCpu limit => (console.cpu.runTo (Ledger.start console.bus) limit).2.entries
  | .answerNmi => (console.cpu.answerNmi (Ledger.start console.bus)).2.entries
  | _ => []

/-- The entries of some acts. -/
def entries (console : Console T C A D) : List (FrameAct T) → List Entry
  | [] => []
  | a :: rest => (console.act a).entries rest ++ console.entriesOf a

/-- The entries of the frame that a console begins with. -/
def frameEntries (console : Console T C A D) : List Entry := console.entries console.frameActs

/-- The entries of a call of a host: of the frames that it runs, or of the way to where the program
starts. -/
def hostEntries (console : Console T C A D) : HostCall T C A D → List Entry
  | .reset => (console.cpu.reset (Ledger.start console.bus.reset)).2.entries
  | .powerOn =>
    let bus := console.bus.powerOn console.config.timing.standard
    (console.cpu.powerOn (Ledger.start bus)).2.entries
  | call => (console.frameHeads call).reverse.flatMap frameEntries

/-- The entries of something that the processor is asked for. -/
def processorEntries (console : Console T C A D) : CpuCall T → List Entry
  | .instruction => (console.cpu.step (Ledger.start console.bus)).2.2.entries
  | .run limit => (console.cpu.runTo (Ledger.start console.bus) limit).2.entries
  | .nmi => (console.cpu.nmi (Ledger.start console.bus)).2.entries
  | .irq => (console.cpu.irq (Ledger.start console.bus)).2.entries
  | .restart => (console.cpu.restart (Ledger.start console.bus)).2.entries
  | .reset => (console.cpu.reset (Ledger.start console.bus)).2.entries
  | .resetButton => console.hostEntries .reset
  | .frame _ => console.frameEntries

/-- The entries of something that is done to a console. -/
def deedEntries (console : Console T C A D) : Deed T C A D → List Entry
  | .host call => console.hostEntries call
  | .processor call => console.processorEntries call
  | .bus (.read address) => [.reading address (console.bus.read address).1]
  | .bus (.write address value) => (console.bus.delivery? address value).toList
  | .bus (.transferPage page) =>
    (SystemBus.transferPage (Ledger.start console.bus) page).entries
  | .bus .takeDmaRequest | .busPowerOn _ | .busReset => []
  | .act a => console.entriesOf a

/-- The entries while one thing is done after the other. -/
def entriesOver (console : Console T C A D) (sink : S) : List (Deed T C A D) → List Entry
  | [] => []
  | deed :: deeds =>
    (console.undertake sink deed).1.entriesOver (console.undertake sink deed).2 deeds ++
      console.deedEntries deed

end Console

namespace Console

variable {T A D S : Type} [Time T] [Apu A] [Controller D] [VideoSink S]
  {console : Console T Nrom A D} {program pattern : Array UInt8} {earlier : List Entry}

/-! ## Frames -/

theorem remembers_act (h : console.bus.Remembers program pattern earlier) (a : FrameAct T) :
    (console.act a).bus.Remembers program pattern (console.entriesOf a ++ earlier) := by
  cases a with
  | runCpu limit =>
    exact Ledger.remembers (fun bus => console.cpu.runTo bus limit)
      (fun hf bus => hf.runTo console.cpu bus limit) h
  | answerNmi =>
    exact Ledger.remembers (fun bus => console.cpu.answerNmi bus)
      (fun hf bus => hf.answerNmi console.cpu bus) h
  | perform line event =>
    have hboard : (event.step.run console.bus.ppu console.bus.cartridge).2 =
        console.bus.cartridge :=
      event.step.run_cartridge (f := id) (fun _ _ => rfl) console.bus.ppu console.bus.cartridge
    refine ⟨?_, h.readings⟩
    show (event.step.run console.bus.ppu console.bus.cartridge).2.Faithful program pattern earlier
    rw [hboard]
    exact h.board
  | _ => exact ⟨h.board, h.readings⟩

theorem remembers_performAll (h : console.bus.Remembers program pattern earlier)
    (acts : List (FrameAct T)) :
    (console.performAll acts).bus.Remembers program pattern (console.entries acts ++ earlier) := by
  induction acts generalizing console earlier with
  | nil => exact h
  | cons a acts ih =>
    have hlater := ih (remembers_act h a)
    rwa [← List.append_assoc] at hlater

theorem remembers_runUnpainted (h : console.bus.Remembers program pattern earlier) :
    console.runUnpainted.bus.Remembers program pattern (console.frameEntries ++ earlier) := by
  rw [runUnpainted_eq]
  exact remembers_performAll h console.frameActs

/-- Frames, one after the other. -/
theorem remembers_repeat (h : console.bus.Remembers program pattern earlier) (n : Nat) :
    (Nat.repeat runUnpainted n console).bus.Remembers program pattern
      (((List.range n).map (Nat.repeat runUnpainted · console)).reverse.flatMap frameEntries ++
        earlier) := by
  induction n with
  | zero => exact h
  | succ n ih =>
    have hframe := remembers_runUnpainted ih
    rw [← List.append_assoc] at hframe
    show (Nat.repeat runUnpainted n console).runUnpainted.bus.Remembers program pattern _
    simpa [List.range_succ] using hframe

/-! ## Deeds -/

/-- Whatever a host asks for, except another cartridge. -/
theorem remembers_host (h : console.bus.Remembers program pattern earlier) (sink : S)
    {call : HostCall T Nrom A D} (hcall : Deed.LeavesCartridge (.host call)) :
    (console.answer sink call).1.bus.Remembers program pattern
      (console.hostEntries call ++ earlier) := by
  by_cases hschedules : call.Schedules
  · obtain ⟨n, pacer, hheads, _, _, hanswer⟩ := console.exists_frames hschedules sink
    have hready : { console with pacer }.bus.Remembers program pattern earlier := h
    have hentries : console.hostEntries call =
        (console.frameHeads call).reverse.flatMap frameEntries := by
      cases call with
      | reset => exact hschedules.elim
      | powerOn => exact hschedules.elim
      | _ => rfl
    rw [hanswer, hentries, hheads]
    exact remembers_repeat hready n
  cases call with
  | reset =>
    have hready : console.bus.reset.Remembers program pattern earlier := ⟨h.board, h.readings⟩
    exact Ledger.remembers (fun bus => console.cpu.reset bus)
      (fun hf bus => hf.restart { console.cpu with jammed := false } bus) hready
  | powerOn =>
    have hready : (console.bus.powerOn console.config.timing.standard).Remembers program pattern
        earlier := ⟨h.board, h.readings⟩
    exact Ledger.remembers (fun bus => console.cpu.powerOn bus)
      (fun hf bus => hf.powerOn console.cpu bus) hready
  | insertCartridge cartridge => exact hcall.elim
  | plug socket device => cases socket <;> exact ⟨h.board, h.readings⟩
  | setConfig config => exact ⟨h.board, h.readings⟩
  | setApu apu => exact ⟨h.board, h.readings⟩
  | _ => exact absurd trivial hschedules

/-- Whatever the processor is asked for. -/
theorem remembers_processor (h : console.bus.Remembers program pattern earlier) (sink : S)
    (call : CpuCall T) :
    (console.obey sink call).1.bus.Remembers program pattern
      (console.processorEntries call ++ earlier) := by
  cases call with
  | instruction =>
    exact Ledger.remembers (fun bus => (console.cpu.step bus).2)
      (fun hf bus => congrArg Prod.snd (hf.step console.cpu bus)) h
  | run limit =>
    exact Ledger.remembers (fun bus => console.cpu.runTo bus limit)
      (fun hf bus => hf.runTo console.cpu bus limit) h
  | nmi => exact Ledger.remembers console.cpu.nmi (fun hf bus => hf.nmi console.cpu bus) h
  | irq => exact Ledger.remembers console.cpu.irq (fun hf bus => hf.irq console.cpu bus) h
  | restart =>
    exact Ledger.remembers console.cpu.restart (fun hf bus => hf.restart console.cpu bus) h
  | reset =>
    exact Ledger.remembers (fun bus => console.cpu.reset bus)
      (fun hf bus => hf.restart { console.cpu with jammed := false } bus) h
  | resetButton =>
    have hreset : Deed.LeavesCartridge (.host (.reset : HostCall T Nrom A D)) := trivial
    exact remembers_host h sink hreset
  | frame call =>
    show (console.runCall sink call).1.bus.Remembers program pattern _
    rw [runCall_fst]
    exact remembers_runUnpainted h

/-- Whatever a bus is asked for. -/
theorem remembers_bus (h : console.bus.Remembers program pattern earlier) (call : BusCall) :
    (console.bus.serve call).2.Remembers program pattern
      (console.deedEntries (.bus call) ++ earlier) := by
  cases call with
  | read address => exact Bus.remembers_read h address
  | write address value => exact Bus.remembers_write h address value
  | takeDmaRequest => exact ⟨h.board, h.readings⟩
  | transferPage page =>
    have htransfer := Ledger.remembers (fun bus => ((), SystemBus.transferPage bus page))
      (fun hf bus => by rw [hf.transferPage]) h
    rw [deedEntries, Bus.serve]
    exact htransfer

/-- Whatever is done to a console, except that another cartridge is inserted. -/
theorem remembers_undertake (h : console.bus.Remembers program pattern earlier) (sink : S)
    {deed : Deed T Nrom A D} (hdeed : deed.LeavesCartridge) :
    (console.undertake sink deed).1.bus.Remembers program pattern
      (console.deedEntries deed ++ earlier) := by
  cases deed with
  | host call => exact remembers_host h sink hdeed
  | processor call => exact remembers_processor h sink call
  | bus call => exact remembers_bus h call
  | busPowerOn standard => exact ⟨h.board, h.readings⟩
  | busReset => exact ⟨h.board, h.readings⟩
  | act a => exact remembers_act h a

theorem remembers_undertakeAll (h : console.bus.Remembers program pattern earlier) (sink : S)
    {deeds : List (Deed T Nrom A D)} (hdeeds : ∀ deed ∈ deeds, deed.LeavesCartridge) :
    (console.undertakeAll sink deeds).1.bus.Remembers program pattern
      (console.entriesOver sink deeds ++ earlier) := by
  induction deeds generalizing console sink earlier with
  | nil => exact h
  | cons deed deeds ih =>
    have hfirst := remembers_undertake h sink (hdeeds deed (List.mem_cons_self ..))
    have hlater := ih hfirst (console.undertake sink deed).2
      fun later hmem => hdeeds later (.tail _ hmem)
    rwa [← List.append_assoc] at hlater

/-- Nothing that can be done to a console changes the images on its board, of whatever sizes they
are, as long as the board is left in the slot: the processor reads the program image from `$8000`,
repeated, and the picture unit reads the pattern image, repeated. The board's RAM, at `$6000` and in
place of an empty pattern image, reads as what was last delivered, or zero. This is so at the end
of a run, which may be within a frame, and for all that the processor has read meanwhile. -/
theorem board_remembers {program pattern : Array UInt8} (hprogram : 0 < program.size)
    {mirroring : Mirroring} {console : Console T Nrom A D}
    (hboard : console.bus.cartridge = .new program pattern mirroring) (sink : S)
    {deeds : List (Deed T Nrom A D)} (hdeeds : ∀ deed ∈ deeds, deed.LeavesCartridge) :
    let bus := (console.undertakeAll sink deeds).1.bus
    let entries := console.entriesOver sink deeds
    (∀ address : UInt16, 0x8000 ≤ address →
        program[(address.toNat - 0x8000) % program.size]? = some (bus.read address).1) ∧
      (0 < pattern.size → ∀ address : UInt16, address < 0x2000 →
        pattern[address.toNat % pattern.size]? =
          some (bus.ppu.readVram bus.cartridge address).1) ∧
      (pattern.size = 0 → ∀ address : UInt16, address < 0x2000 →
        (bus.ppu.readVram bus.cartridge address).1 = lastByte entries (.pattern address)) ∧
      (∀ address : UInt16, 0x6000 ≤ address → address < 0x8000 →
        (bus.read address).1 = lastByte entries (.program address)) ∧
      AllRight program entries := by
  intro bus entries
  have hstart : console.bus.Remembers program pattern [] := by
    refine ⟨?_, trivial⟩
    rw [hboard]
    exact Nrom.faithful_new hprogram pattern mirroring
  have h : bus.Remembers program pattern entries := by
    have hrun := remembers_undertakeAll hstart sink hdeeds
    rwa [List.append_nil] at hrun
  refine ⟨fun address haddress => (h.right address).1 haddress,
    fun himage address haddress => ?_, fun hempty address haddress => ?_,
    fun address hlow hhigh => (h.right address).2 hlow hhigh, h.readings⟩
  · rw [Ppu.readVram_ppuLoad _ _ haddress]
    exact h.board.ppuLoad_image himage haddress
  · rw [Ppu.readVram_ppuLoad _ _ haddress]
    exact h.board.ppuLoad_ram hempty haddress

/-- A board with a program image of three bytes and no pattern image. -/
def threeBytes : Console ℚ Nrom SilentApu Unplugged :=
  .new (.new #[1, 2, 3] #[] .horizontal) .new ⟨⟩ ⟨⟩ .default

/-- Writes to the image and to both kinds of RAM, after which the console is reset and switched off
and on. -/
def threeBytesDeeds : List (Deed ℚ Nrom SilentApu Unplugged) :=
  [.bus (.write 0x8001 9), .bus (.write 0x6000 7), .bus (.write 0x2006 0x01),
    .bus (.write 0x2006 0x23), .bus (.write 0x2007 5), .host .reset, .host .powerOn]

theorem board_remembers_threeBytes :
    (∀ deed ∈ threeBytesDeeds, deed.LeavesCartridge) ∧
      let bus := (threeBytes.undertakeAll CaptureSink.empty threeBytesDeeds).1.bus
      (bus.read 0x8004).1 = 2 ∧ (bus.read 0x6000).1 = 7 ∧
        (bus.ppu.readVram bus.cartridge 0x0123).1 = 5 := by
  have hdeeds : ∀ deed ∈ threeBytesDeeds, deed.LeavesCartridge := by
    simp [threeBytesDeeds, Deed.LeavesCartridge]
  have hboard : threeBytes.bus.cartridge = .new #[1, 2, 3] #[] .horizontal := rfl
  obtain ⟨hprogram, -, hpattern, hram, -⟩ :=
    board_remembers (by decide) hboard CaptureSink.empty hdeeds
  have hlast : lastByte (threeBytes.entriesOver CaptureSink.empty threeBytesDeeds)
        (.program 0x6000) = 7 ∧
      lastByte (threeBytes.entriesOver CaptureSink.empty threeBytesDeeds)
        (.pattern 0x0123) = 5 := by
    decide +kernel
  refine ⟨hdeeds, ?_, ?_, ?_⟩
  · have hbyte := hprogram 0x8004 (by decide)
    simpa using hbyte.symm
  · exact (hram 0x6000 (by decide) (by decide)).trans hlast.1
  · exact (hpattern rfl 0x0123 (by decide)).trans hlast.2

end Console

end Famicom
