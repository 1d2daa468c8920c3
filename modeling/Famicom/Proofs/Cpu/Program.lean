import Famicom.Cartridge.Nrom
import Famicom.Proofs.Cpu.Access
import Famicom.Proofs.Cpu.Rounds
import Famicom.Proofs.Ppu.Settings

/-!
# Running a program

A program on a board without an interrupt line runs undisturbed as long as the picture unit asks for
no interrupt: each round is one instruction, whose bytes are those of the program's image.

* `Executes`: an image is on the board, and no interrupt waits.
* `Undisturbed`: nor will one come from the picture unit.
* `Executes.advance_immediate`, `Executes.advance_absolute`: the rounds of two kinds of
  instructions.
* `Executes.advance_jump`: the round of a jump, and what it reads.
* `Undisturbed.perform`, `Undisturbed.beginVblank`: the picture unit does not disturb the program.
-/

namespace Famicom

/-- What the processor reads from its program. -/
theorem Bus.read_program {A D : Type} [Apu A] [Controller D] (bus : Bus Nrom A D) {address : UInt16}
    (h : 0x8000 ≤ address) :
    SystemBus.read bus address = (bus.cartridge.program.load (address - 0x8000).toNat, bus) := by
  have hge : 0x8000 ≤ address.toNat := h
  have hnot {bound : UInt16} (hb : bound.toNat ≤ 0x8000) : ¬ address < bound := by
    rw [UInt16.lt_iff_toNat_lt]
    omega
  show Bus.read bus address = _
  unfold Bus.read
  rw [if_neg (hnot (by decide)), if_neg (hnot (by decide)), if_neg (hnot (by decide))]
  show (bus.cartridge.cpuLoad address, bus) = _
  rw [Nrom.cpuLoad, if_pos h]

/-- A transfer from work memory only fills sprite memory. -/
theorem Bus.transferPage_of_ram {C A D : Type} [Cartridge C] [Apu A] [Controller D]
    {P : Bus C A D → Prop} (hoam : ∀ bus value, P bus → P (SystemBus.writeOam bus value))
    {page : UInt8} (hpage : page < 0x20) {bus : Bus C A D} (h : P bus) :
    P (SystemBus.transferPage bus page) := by
  have hread (bus : Bus C A D) (offset : UInt8) :
      (SystemBus.read bus (Word.ofBytes offset page)).2 = bus := by
    have hlow : Word.ofBytes offset page < 0x2000 := by
      have hlt : page.toNat < 0x20 := hpage
      have hoffset := offset.toNat_lt
      rw [UInt16.lt_iff_toNat_lt, Word.toNat_ofBytes]
      show offset.toNat + 0x100 * page.toNat < 0x2000
      omega
    show (Bus.read bus _).2 = bus
    rw [Bus.read, if_pos hlow]
  unfold SystemBus.transferPage
  rw [Fin.foldl_eq_finRange_foldl]
  generalize List.finRange 256 = offsets
  induction offsets generalizing bus with
  | nil => exact h
  | cons offset rest ih =>
    refine ih ?_
    show P (SystemBus.writeOam (SystemBus.read bus (Word.ofBytes _ page)).2 _)
    rw [hread]
    exact hoam _ _ h

variable {T D : Type}

/-- The image of a program is on the board, the processor is not halted, and neither an interrupt
nor a transfer has been asked for. -/
structure Executes (image : Array UInt8) (cpu : Cpu T) (bus : Bus Nrom SilentApu D) : Prop where
  program : bus.cartridge.program = .ofImage image
  jammed : cpu.jammed = false
  dmaPage : bus.dmaPage = none
  nmiPending : bus.ppu.nmiPending = false

namespace Executes

variable {image : Array UInt8} {cpu : Cpu T} {bus : Bus Nrom SilentApu D}

/-! ## The picture unit -/

/-- The picture unit does not disturb the program. -/
theorem perform (h : Executes image cpu bus) (step : PpuStep) :
    Executes image cpu { bus with
      ppu := (step.run bus.ppu bus.cartridge).1
      cartridge := (step.run bus.ppu bus.cartridge).2 } := by
  have hsame := step.run_settings_eq bus.ppu bus.cartridge
  refine ⟨?_, h.jammed, h.dmaPage, hsame.nmiPending.trans h.nmiPending⟩
  exact (step.run_cartridge (f := Nrom.program) (fun _ _ => rfl) _ _).trans h.program

theorem endVblank (h : Executes image cpu bus) :
    Executes image cpu { bus with ppu := bus.ppu.endVblank } :=
  ⟨h.program, h.jammed, h.dmaPage, h.nmiPending⟩

/-! ## Rounds -/

variable [Controller D]

theorem takeNmi_eq (h : Executes image cpu bus) : SystemBus.takeNmi bus = (false, bus) := by
  have hppu : { bus.ppu with nmiPending := false } = bus.ppu := by
    rw [← h.nmiPending]
  show (bus.ppu.nmiPending, { bus with ppu := { bus.ppu with nmiPending := false } }) = _
  rw [h.nmiPending, hppu]

theorem answerNmi_eq (h : Executes image cpu bus) : cpu.answerNmi bus = (cpu, bus) := by
  unfold Cpu.answerNmi
  rw [h.takeNmi_eq]
  rfl

theorem fetchByte (h : Executes image cpu bus) {r : Registers} {pc : UInt16} {byte : UInt8}
    (hpc : r.pc = pc) (hge : 0x8000 ≤ pc)
    (hbyte : (Rom.ofImage image).load (pc - 0x8000).toNat = byte) :
    r.fetchByte bus = (byte, { r with pc := pc + 1 }, bus) := by
  unfold Registers.fetchByte
  rw [hpc, bus.read_program hge, h.program, hbyte]

theorem takeDmaRequest_of_none (h : bus.dmaPage = none) :
    SystemBus.takeDmaRequest bus = (none, bus) := by
  show (bus.dmaPage, { bus with dmaPage := none }) = (none, bus)
  rw [h, ← h]

theorem serveTransfer_of_none (cpu : Cpu T) (h : bus.dmaPage = none) :
    cpu.serveTransfer bus = (0, cpu, bus) := by
  unfold Cpu.serveTransfer
  rw [takeDmaRequest_of_none h]

theorem serveTransfer_of_some (cpu : Cpu T) {page : UInt8} (h : bus.dmaPage = some page) :
    cpu.serveTransfer bus =
      cpu.spend (SystemBus.transferPage { bus with dmaPage := none } page)
        (Cpu.transferCycles cpu.totalCycles) := by
  have htake : SystemBus.takeDmaRequest bus = (some page, { bus with dmaPage := none }) := by
    show (bus.dmaPage, { bus with dmaPage := none }) = _
    rw [h]
  unfold Cpu.serveTransfer
  rw [htake]

/-- The round of an instruction whose operand is the byte after it. -/
theorem advance_immediate (h : Executes image cpu bus) {pc : UInt16} {code value : UInt8}
    {operation : Operation} {f : Registers → UInt8 → Registers} (hpc : cpu.registers.pc = pc)
    (hge : 0x8000 ≤ pc) (hge' : 0x8000 ≤ pc + 1)
    (hcode : (Rom.ofImage image).load (pc - 0x8000).toNat = code)
    (hvalue : (Rom.ofImage image).load (pc + 1 - 0x8000).toNat = value)
    (hopcode : Opcode.ofByte code = OpcodeTable.documented operation .immediate 2)
    (hkil : operation ≠ .kil) (heffect : operation.effect = .load f) :
    cpu.advance bus =
      ({ cpu with
          registers := f { cpu.registers with pc := pc + 1 + 1 } value
          cycle := cpu.cycle + 2
          totalCycles := cpu.totalCycles + 2 }, SystemBus.clock bus 2) := by
  have hirq : SystemBus.irqLine bus = false := rfl
  have hfetch := h.fetchByte hpc hge hcode
  have hresolve : (Opcode.ofByte code).mode.resolve { cpu.registers with pc := pc + 1 } bus =
      (.inline value, { cpu.registers with pc := pc + 1 + 1 }, bus) := by
    rw [hopcode]
    unfold OpcodeTable.documented AddressingMode.resolve
    dsimp only
    rw [h.fetchByte (r := { cpu.registers with pc := pc + 1 }) rfl hge' hvalue]
  have hrun : (Opcode.ofByte code).operation.effect.run (.inline value)
      { cpu.registers with pc := pc + 1 + 1 } bus =
        (f { cpu.registers with pc := pc + 1 + 1 } value, bus) := by
    rw [hopcode]
    unfold OpcodeTable.documented
    dsimp only
    rw [heffect]
    rfl
  have hcost : (Opcode.ofByte code).cost (.inline value) cpu.registers.p = 2 := by
    rw [hopcode]
    unfold OpcodeTable.documented Opcode.cost
    dsimp only
    rw [heffect]
    rfl
  have hnone : (SystemBus.clock bus 2).dmaPage = none := h.dmaPage
  rw [Cpu.advance_uninterrupted h.jammed h.takeNmi_eq hirq hfetch hresolve (hopcode ▸ hkil) hrun
    hcost, serveTransfer_of_none _ hnone]

/-- The round of an instruction whose operand is an address. -/
theorem advance_absolute (h : Executes image cpu bus) {pc : UInt16} {code lo hi : UInt8}
    {cost : Nat} {two_le : 2 ≤ cost} {operation : Operation} {r : Registers}
    {after : Bus Nrom SilentApu D} (hpc : cpu.registers.pc = pc)
    (hge : 0x8000 ≤ pc) (hge' : 0x8000 ≤ pc + 1) (hge'' : 0x8000 ≤ pc + 1 + 1)
    (hcode : (Rom.ofImage image).load (pc - 0x8000).toNat = code)
    (hlo : (Rom.ofImage image).load (pc + 1 - 0x8000).toNat = lo)
    (hhi : (Rom.ofImage image).load (pc + 1 + 1 - 0x8000).toNat = hi)
    (hopcode : Opcode.ofByte code = OpcodeTable.documented operation .absolute cost two_le)
    (hkil : operation ≠ .kil) (hextra : ∀ operand p, operation.effect.extraCycles operand p = 0)
    (hrun : operation.effect.run (.memory (Word.ofBytes lo hi) false)
      { cpu.registers with pc := pc + 1 + 1 + 1 } bus = (r, after)) :
    cpu.advance bus =
      (Cpu.serveTransfer
        { cpu with
          registers := r
          cycle := cpu.cycle + cost
          totalCycles := cpu.totalCycles + cost } (SystemBus.clock after cost)).2 := by
  have hirq : SystemBus.irqLine bus = false := rfl
  have hfetch := h.fetchByte hpc hge hcode
  have hresolve : (Opcode.ofByte code).mode.resolve { cpu.registers with pc := pc + 1 } bus =
      (.memory (Word.ofBytes lo hi) false, { cpu.registers with pc := pc + 1 + 1 + 1 }, bus) := by
    rw [hopcode]
    unfold OpcodeTable.documented AddressingMode.resolve Registers.fetchWord
    dsimp only
    rw [h.fetchByte (r := { cpu.registers with pc := pc + 1 }) rfl hge' hlo]
    dsimp only
    rw [h.fetchByte (r := { cpu.registers with pc := pc + 1 + 1 }) rfl hge'' hhi]
  have hcost : (Opcode.ofByte code).cost (.memory (Word.ofBytes lo hi) false) cpu.registers.p =
      cost := by
    rw [hopcode]
    unfold OpcodeTable.documented Opcode.cost
    dsimp only
    rw [hextra]
    rfl
  exact Cpu.advance_uninterrupted h.jammed h.takeNmi_eq hirq hfetch hresolve (hopcode ▸ hkil)
    (hopcode ▸ hrun) hcost

/-! ## On a recorder -/

variable {recorder : Recorder (Bus Nrom SilentApu D)}

theorem takeNmi_recorded (h : Executes image cpu recorder.bus) :
    SystemBus.takeNmi recorder = (false, recorder) := by
  show ((SystemBus.takeNmi recorder.bus).1,
    ({ recorder with bus := (SystemBus.takeNmi recorder.bus).2 } : Recorder _)) = _
  rw [h.takeNmi_eq]

theorem answerNmi_recorded (h : Executes image cpu recorder.bus) :
    cpu.answerNmi recorder = (cpu, recorder) := by
  unfold Cpu.answerNmi
  rw [h.takeNmi_recorded]
  rfl

theorem fetchByte_recorded (h : Executes image cpu bus) (accesses : List Access) {r : Registers}
    {pc : UInt16} {byte : UInt8} (hpc : r.pc = pc) (hge : 0x8000 ≤ pc)
    (hbyte : (Rom.ofImage image).load (pc - 0x8000).toNat = byte) :
    r.fetchByte (⟨bus, accesses⟩ : Recorder _) =
      (byte, { r with pc := pc + 1 }, ⟨bus, .read pc :: accesses⟩) := by
  have hread : SystemBus.read (⟨bus, accesses⟩ : Recorder _) pc =
      (byte, ⟨bus, .read pc :: accesses⟩) := by
    have hbare := bus.read_program hge
    rw [h.program, hbyte] at hbare
    show ((SystemBus.read bus pc).1, (⟨(SystemBus.read bus pc).2, _⟩ : Recorder _)) = _
    rw [hbare]
  unfold Registers.fetchByte
  rw [hpc, hread]

theorem serveTransfer_recorded (cpu : Cpu T) (h : recorder.bus.dmaPage = none) :
    cpu.serveTransfer recorder = (0, cpu, recorder) := by
  have htake : SystemBus.takeDmaRequest recorder = (none, recorder) := by
    show ((SystemBus.takeDmaRequest recorder.bus).1,
      ({ recorder with bus := (SystemBus.takeDmaRequest recorder.bus).2 } : Recorder _)) = _
    rw [takeDmaRequest_of_none h]
  unfold Cpu.serveTransfer
  rw [htake]

/-- The round of a jump: the processor reads the instruction, and nothing else. -/
theorem advance_jump (h : Executes image cpu recorder.bus) {pc : UInt16} {lo hi : UInt8}
    (hpc : cpu.registers.pc = pc) (hge : 0x8000 ≤ pc) (hge' : 0x8000 ≤ pc + 1)
    (hge'' : 0x8000 ≤ pc + 1 + 1)
    (hcode : (Rom.ofImage image).load (pc - 0x8000).toNat = 0x4C)
    (hlo : (Rom.ofImage image).load (pc + 1 - 0x8000).toNat = lo)
    (hhi : (Rom.ofImage image).load (pc + 1 + 1 - 0x8000).toNat = hi) :
    cpu.advance recorder =
      ({ cpu with
          registers := { cpu.registers with pc := Word.ofBytes lo hi }
          cycle := cpu.cycle + 3
          totalCycles := cpu.totalCycles + 3 },
        ⟨SystemBus.clock recorder.bus 3,
          .read (pc + 1 + 1) :: .read (pc + 1) :: .read pc :: recorder.accesses⟩) := by
  have hfetch := h.fetchByte_recorded recorder.accesses hpc hge hcode
  have hlow := h.fetchByte_recorded (.read pc :: recorder.accesses)
    (r := { cpu.registers with pc := pc + 1 }) rfl hge' hlo
  have hhigh := h.fetchByte_recorded (.read (pc + 1) :: .read pc :: recorder.accesses)
    (r := { cpu.registers with pc := pc + 1 + 1 }) rfl hge'' hhi
  have hresolve : (Opcode.ofByte 0x4C).mode.resolve { cpu.registers with pc := pc + 1 }
      (⟨recorder.bus, .read pc :: recorder.accesses⟩ : Recorder _) =
        (.memory (Word.ofBytes lo hi) false, { cpu.registers with pc := pc + 1 + 1 + 1 },
          ⟨recorder.bus,
            .read (pc + 1 + 1) :: .read (pc + 1) :: .read pc :: recorder.accesses⟩) := by
    show AddressingMode.absolute.resolve _ _ = _
    unfold AddressingMode.resolve Registers.fetchWord
    dsimp only
    rw [hlow]
    dsimp only
    rw [hhigh]
  have hcost : (Opcode.ofByte 0x4C).cost (.memory (Word.ofBytes lo hi) false) cpu.registers.p = 3 :=
    rfl
  rw [Cpu.advance_uninterrupted h.jammed h.takeNmi_recorded rfl hfetch hresolve (by decide) rfl
    hcost, serveTransfer_recorded _ (by exact h.dmaPage)]
  rfl

end Executes

/-- The program runs, and the picture unit may not interrupt it. -/
structure Undisturbed (image : Array UInt8) (cpu : Cpu T) (bus : Bus Nrom SilentApu D) : Prop
    extends Executes image cpu bus where
  nmiEnabled : bus.ppu.control.nmiEnabled = false

namespace Undisturbed

variable {image : Array UInt8} {cpu : Cpu T} {bus : Bus Nrom SilentApu D}

theorem perform (h : Undisturbed image cpu bus) (step : PpuStep) :
    Undisturbed image cpu { bus with
      ppu := (step.run bus.ppu bus.cartridge).1
      cartridge := (step.run bus.ppu bus.cartridge).2 } where
  toExecutes := h.toExecutes.perform step
  nmiEnabled :=
    (congrArg Control.nmiEnabled (step.run_settings_eq bus.ppu bus.cartridge).control).trans
      h.nmiEnabled

theorem beginVblank (h : Undisturbed image cpu bus) :
    Undisturbed image cpu { bus with ppu := bus.ppu.beginVblank } := by
  have hpending : (bus.ppu.nmiPending || bus.ppu.control.nmiEnabled) = false := by
    rw [h.nmiPending, h.nmiEnabled]
    rfl
  exact ⟨⟨h.program, h.jammed, h.dmaPage, hpending⟩, h.nmiEnabled⟩

theorem endVblank (h : Undisturbed image cpu bus) :
    Undisturbed image cpu { bus with ppu := bus.ppu.endVblank } :=
  ⟨h.toExecutes.endVblank, h.nmiEnabled⟩

end Undisturbed

end Famicom
