import Famicom.Cpu.Alu
import Famicom.Cpu.Interrupt
import Famicom.Cpu.Operand
import Famicom.Cpu.Operation

/-!
# Effects of operations

An effect says what an operation does with the bus, and holds the pure functions that do the rest:
which byte is stored, how a loaded byte changes the registers, when a branch is taken. So an
operation's bus accesses can be read off the constructor of its effect, and its flags off the
function inside.
-/

namespace Famicom

open SystemBus

/-- How an operation uses the bus. -/
inductive Effect where
  /-- Changes registers and uses neither operand nor bus. -/
  | internal (f : Registers → Registers)
  /-- Loads the operand. -/
  | load (f : Registers → UInt8 → Registers)
  /-- Stores a byte at the effective address. -/
  | store (value : Registers → UInt8)
  /-- Replaces the operand where it lies, and lets the registers absorb the new value. -/
  | modify (f : UInt8 → Status → UInt8 × Status) (absorb : Registers → UInt8 → Registers)
  /-- Stores a byte masked by the high byte of the address before indexing. -/
  | storeMasked (index value : Registers → UInt8) (prepare : Registers → Registers)
  /-- Continues at the effective address if the flags say so. -/
  | branch (taken : Status → Bool)
  /-- Continues at the effective address. -/
  | jump
  /-- Continues at the effective address and remembers where to return. -/
  | call
  /-- Returns from a call. -/
  | callReturn
  /-- Pushes a byte. -/
  | push (value : Registers → UInt8)
  /-- Pulls a byte. -/
  | pull (f : Registers → UInt8 → Registers)
  /-- Enters the interrupt handler from within the program. -/
  | softwareInterrupt
  /-- Returns from an interrupt handler. -/
  | interruptReturn
  /-- Stops the instruction sequencer. -/
  | jam

namespace Effect

/-- Registers that take no notice of the new value of a modified operand. -/
@[inline] def ignore (r : Registers) (_ : UInt8) : Registers := r

/-- The byte that a masked store writes: `value` where the high byte of the address before
indexing, plus one, has ones. -/
def maskedValue (address : UInt16) (index value : UInt8) : UInt8 :=
  value &&& (Word.high (address - index.toUInt16) + 1)

/-- Where a masked store writes it: if indexing has crossed a page, the byte written replaces the
high byte of the address. -/
def maskedAddress (operand : Operand) (written : UInt8) : UInt16 :=
  if operand.crossed then Word.ofBytes (Word.low operand.address) written else operand.address

variable {B : Type} [SystemBus B]

/-- Perform an effect on a resolved operand. -/
def run (effect : Effect) (operand : Operand) (r : Registers) (bus : B) : Registers × B :=
  match effect with
  | internal f => (f r, bus)
  | load f =>
    let (value, bus) := operand.load bus
    (f r value, bus)
  | store value => (r, write bus operand.address (value r))
  | modify f absorb =>
    match operand with
    | .inline value =>
      let (result, p) := f value r.p
      (absorb { r with a := result, p } result, bus)
    | operand =>
      let (value, bus) := read bus operand.address
      let (result, p) := f value r.p
      (absorb { r with p } result, write bus operand.address result)
  | storeMasked index value prepare =>
    let r := prepare r
    let written := maskedValue operand.address (index r) (value r)
    (r, write bus (maskedAddress operand written) written)
  | branch taken => (if taken r.p then { r with pc := operand.address } else r, bus)
  | jump => ({ r with pc := operand.address }, bus)
  | call =>
    let (r, bus) := r.pushWord bus (r.pc - 1)
    ({ r with pc := operand.address }, bus)
  | callReturn =>
    let (pc, r, bus) := r.pullWord bus
    ({ r with pc := pc + 1 }, bus)
  | push value => r.push bus (value r)
  | pull f =>
    let (value, r, bus) := r.pull bus
    (f r value, bus)
  | softwareInterrupt => { r with pc := r.pc + 1 }.interrupt bus Interrupt.irqVector true
  | interruptReturn =>
    let (status, r, bus) := r.pull bus
    let (pc, r, bus) := r.pullWord bus
    ({ r with pc, p := .pulled status }, bus)
  | jam => (r, bus)

/-- Cycles beyond the table's: one for a branch taken, two if it leaves the page. -/
def extraCycles (effect : Effect) (operand : Operand) (p : Status) : Nat :=
  match effect with
  | branch taken => if taken p then if operand.crossed then 2 else 1 else 0
  | _ => 0

end Effect

namespace Operation

/-- The bits that the two unstable immediate operations let through from the accumulator. -/
def unstableBits : UInt8 := 0xEE

/-- The effect of each operation. -/
def effect : Operation → Effect
  -- Loads and stores
  | .lda => .load Registers.setA
  | .ldx => .load Registers.setX
  | .ldy => .load Registers.setY
  | .sta => .store (·.a)
  | .stx => .store (·.x)
  | .sty => .store (·.y)
  -- Arithmetic and logic
  | .adc => .load fun r m => let (a, p) := Alu.add r.a m r.p; { r with a, p }
  | .sbc => .load fun r m => let (a, p) := Alu.subtract r.a m r.p; { r with a, p }
  | .and => .load fun r m => r.setA (r.a &&& m)
  | .ora => .load fun r m => r.setA (r.a ||| m)
  | .eor => .load fun r m => r.setA (r.a ^^^ m)
  | .bit => .load fun r m => { r with p := Alu.bitTest r.a m r.p }
  | .cmp => .load fun r m => { r with p := Alu.compare r.a m r.p }
  | .cpx => .load fun r m => { r with p := Alu.compare r.x m r.p }
  | .cpy => .load fun r m => { r with p := Alu.compare r.y m r.p }
  | .inx => .internal fun r => r.setX (r.x + 1)
  | .iny => .internal fun r => r.setY (r.y + 1)
  | .dex => .internal fun r => r.setX (r.x - 1)
  | .dey => .internal fun r => r.setY (r.y - 1)
  -- Read, modify, write
  | .inc => .modify Alu.increment Effect.ignore
  | .dec => .modify Alu.decrement Effect.ignore
  | .asl => .modify Alu.shiftLeft Effect.ignore
  | .lsr => .modify Alu.shiftRight Effect.ignore
  | .rol => .modify Alu.rotateLeft Effect.ignore
  | .ror => .modify Alu.rotateRight Effect.ignore
  -- Branches and jumps
  | .bcc => .branch (!·.carry)
  | .bcs => .branch (·.carry)
  | .bne => .branch (!·.zero)
  | .beq => .branch (·.zero)
  | .bpl => .branch (!·.negative)
  | .bmi => .branch (·.negative)
  | .bvc => .branch (!·.overflow)
  | .bvs => .branch (·.overflow)
  | .jmp => .jump
  | .jsr => .call
  | .rts => .callReturn
  | .brk => .softwareInterrupt
  | .rti => .interruptReturn
  -- Stack
  | .pha => .push (·.a)
  | .php => .push (·.p.pushed true)
  | .pla => .pull Registers.setA
  | .plp => .pull fun r v => { r with p := .pulled v }
  -- Transfers
  | .tax => .internal fun r => r.setX r.a
  | .tay => .internal fun r => r.setY r.a
  | .txa => .internal fun r => r.setA r.x
  | .tya => .internal fun r => r.setA r.y
  | .tsx => .internal fun r => r.setX r.sp
  | .txs => .internal fun r => { r with sp := r.x }
  -- Flags
  | .clc => .internal fun r => { r with p.carry := false }
  | .sec => .internal fun r => { r with p.carry := true }
  | .cli => .internal fun r => { r with p.interruptDisable := false }
  | .sei => .internal fun r => { r with p.interruptDisable := true }
  | .cld => .internal fun r => { r with p.decimal := false }
  | .sed => .internal fun r => { r with p.decimal := true }
  | .clv => .internal fun r => { r with p.overflow := false }
  -- Nothing, though an operand in memory is read
  | .nop => .load Effect.ignore
  -- Combinations of a modification with the accumulator
  | .slo => .modify Alu.shiftLeft fun r m => r.setA (r.a ||| m)
  | .rla => .modify Alu.rotateLeft fun r m => r.setA (r.a &&& m)
  | .sre => .modify Alu.shiftRight fun r m => r.setA (r.a ^^^ m)
  | .rra => .modify Alu.rotateRight fun r m => let (a, p) := Alu.add r.a m r.p; { r with a, p }
  | .dcp => .modify Alu.decrement fun r m => { r with p := Alu.compare r.a m r.p }
  | .isc => .modify Alu.increment fun r m => let (a, p) := Alu.subtract r.a m r.p; { r with a, p }
  -- Combined loads and stores
  | .lax => .load fun r m => { r with a := m, x := m, p := r.p.ofResult m }
  | .las => .load fun r m =>
    let v := m &&& r.sp
    { r with a := v, x := v, sp := v, p := r.p.ofResult v }
  | .sax => .store fun r => r.a &&& r.x
  | .shy => .storeMasked (·.x) (·.y) id
  | .shx => .storeMasked (·.y) (·.x) id
  | .ahx => .storeMasked (·.y) (fun r => r.a &&& r.x) id
  | .tas => .storeMasked (·.y) (·.sp) fun r => { r with sp := r.a &&& r.x }
  -- Combined immediate operations
  | .anc => .load fun r m =>
    let r := r.setA (r.a &&& m)
    { r with p.carry := r.p.negative }
  | .alr => .load fun r m => let (a, p) := Alu.shiftRight (m &&& r.a) r.p; { r with a, p }
  | .arr => .load fun r m =>
    let v := (Alu.rotateRight (m &&& r.a) r.p).1
    let p := r.p.ofResult v
    let overflow := Byte.bit v 6 != Byte.bit v 5
    { r with a := v, p := { p with carry := Byte.bit v 6, overflow } }
  | .axs => .load fun r m => let (x, p) := Alu.difference (r.a &&& r.x) m r.p; { r with x, p }
  | .xaa => .load fun r m => r.setA ((r.a ||| unstableBits) &&& r.x &&& m)
  | .lxa => .load fun r m =>
    let v := (r.a ||| unstableBits) &&& m
    { r with a := v, x := v, p := r.p.ofResult v }
  | .kil => .jam

end Operation

end Famicom
