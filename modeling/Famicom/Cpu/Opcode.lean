import Famicom.Cpu.Effect

/-!
# Opcodes

The opcode table: for each of the 256 opcodes its operation, its addressing mode, its base cycles,
whether crossing a page costs one more, and whether it is documented.
-/

namespace Famicom

/-- The decoded form of an opcode. -/
structure Opcode where
  operation : Operation
  mode : AddressingMode
  /-- Cycles without branches taken and pages crossed. -/
  cycles : Nat
  /-- Whether crossing a page while indexing costs one more cycle. -/
  paged : Bool
  /-- Whether the maker documents it. -/
  documented : Bool
  /-- No instruction is shorter than two cycles. -/
  two_le_cycles : 2 ≤ cycles
  deriving DecidableEq, Repr

namespace Opcode

/-- The length of the instruction, opcode included. -/
def bytes (opcode : Opcode) : Nat := opcode.mode.bytes

/-- The cycles that an instruction takes before any transfer to sprite memory. -/
def cost (opcode : Opcode) (operand : Operand) (p : Status) : Nat :=
  opcode.cycles + opcode.operation.effect.extraCycles operand p +
    (if opcode.paged && operand.crossed then 1 else 0)

theorem two_le_cost (opcode : Opcode) (operand : Operand) (p : Status) :
    2 ≤ opcode.cost operand p := by
  have := opcode.two_le_cycles
  unfold cost
  omega

end Opcode

namespace OpcodeTable

/-- A documented opcode. -/
def documented (operation : Operation) (mode : AddressingMode) (cycles : Nat)
    (two_le : 2 ≤ cycles := by decide) : Opcode :=
  ⟨operation, mode, cycles, false, true, two_le⟩

/-- A documented opcode that takes longer across a page. -/
def documentedPaged (operation : Operation) (mode : AddressingMode) (cycles : Nat)
    (two_le : 2 ≤ cycles := by decide) : Opcode :=
  ⟨operation, mode, cycles, true, true, two_le⟩

/-- An undocumented opcode. -/
def extra (operation : Operation) (mode : AddressingMode) (cycles : Nat)
    (two_le : 2 ≤ cycles := by decide) : Opcode :=
  ⟨operation, mode, cycles, false, false, two_le⟩

/-- An undocumented opcode that takes longer across a page. -/
def extraPaged (operation : Operation) (mode : AddressingMode) (cycles : Nat)
    (two_le : 2 ≤ cycles := by decide) : Opcode :=
  ⟨operation, mode, cycles, true, false, two_le⟩

/-- An opcode that stops the processor. -/
def jam : Opcode := extra .kil .implied 2

end OpcodeTable

set_option maxRecDepth 4000 in
open OpcodeTable in
/-- The opcodes, in the order of their codes. -/
def opcodeTable : Vector Opcode 256 := #v[
  -- $00
  documented .brk .implied 7, documented .ora .indexedIndirect 6,
  jam, extra .slo .indexedIndirect 8,
  extra .nop .zeroPage 3, documented .ora .zeroPage 3,
  documented .asl .zeroPage 5, extra .slo .zeroPage 5,
  documented .php .implied 3, documented .ora .immediate 2,
  documented .asl .accumulator 2, extra .anc .immediate 2,
  extra .nop .absolute 4, documented .ora .absolute 4,
  documented .asl .absolute 6, extra .slo .absolute 6,
  -- $10
  documented .bpl .relative 2, documentedPaged .ora .indirectIndexed 5,
  jam, extra .slo .indirectIndexed 8,
  extra .nop .zeroPageX 4, documented .ora .zeroPageX 4,
  documented .asl .zeroPageX 6, extra .slo .zeroPageX 6,
  documented .clc .implied 2, documentedPaged .ora .absoluteY 4,
  extra .nop .implied 2, extra .slo .absoluteY 7,
  extraPaged .nop .absoluteX 4, documentedPaged .ora .absoluteX 4,
  documented .asl .absoluteX 7, extra .slo .absoluteX 7,
  -- $20
  documented .jsr .absolute 6, documented .and .indexedIndirect 6,
  jam, extra .rla .indexedIndirect 8,
  documented .bit .zeroPage 3, documented .and .zeroPage 3,
  documented .rol .zeroPage 5, extra .rla .zeroPage 5,
  documented .plp .implied 4, documented .and .immediate 2,
  documented .rol .accumulator 2, extra .anc .immediate 2,
  documented .bit .absolute 4, documented .and .absolute 4,
  documented .rol .absolute 6, extra .rla .absolute 6,
  -- $30
  documented .bmi .relative 2, documentedPaged .and .indirectIndexed 5,
  jam, extra .rla .indirectIndexed 8,
  extra .nop .zeroPageX 4, documented .and .zeroPageX 4,
  documented .rol .zeroPageX 6, extra .rla .zeroPageX 6,
  documented .sec .implied 2, documentedPaged .and .absoluteY 4,
  extra .nop .implied 2, extra .rla .absoluteY 7,
  extraPaged .nop .absoluteX 4, documentedPaged .and .absoluteX 4,
  documented .rol .absoluteX 7, extra .rla .absoluteX 7,
  -- $40
  documented .rti .implied 6, documented .eor .indexedIndirect 6,
  jam, extra .sre .indexedIndirect 8,
  extra .nop .zeroPage 3, documented .eor .zeroPage 3,
  documented .lsr .zeroPage 5, extra .sre .zeroPage 5,
  documented .pha .implied 3, documented .eor .immediate 2,
  documented .lsr .accumulator 2, extra .alr .immediate 2,
  documented .jmp .absolute 3, documented .eor .absolute 4,
  documented .lsr .absolute 6, extra .sre .absolute 6,
  -- $50
  documented .bvc .relative 2, documentedPaged .eor .indirectIndexed 5,
  jam, extra .sre .indirectIndexed 8,
  extra .nop .zeroPageX 4, documented .eor .zeroPageX 4,
  documented .lsr .zeroPageX 6, extra .sre .zeroPageX 6,
  documented .cli .implied 2, documentedPaged .eor .absoluteY 4,
  extra .nop .implied 2, extra .sre .absoluteY 7,
  extraPaged .nop .absoluteX 4, documentedPaged .eor .absoluteX 4,
  documented .lsr .absoluteX 7, extra .sre .absoluteX 7,
  -- $60
  documented .rts .implied 6, documented .adc .indexedIndirect 6,
  jam, extra .rra .indexedIndirect 8,
  extra .nop .zeroPage 3, documented .adc .zeroPage 3,
  documented .ror .zeroPage 5, extra .rra .zeroPage 5,
  documented .pla .implied 4, documented .adc .immediate 2,
  documented .ror .accumulator 2, extra .arr .immediate 2,
  documented .jmp .indirect 5, documented .adc .absolute 4,
  documented .ror .absolute 6, extra .rra .absolute 6,
  -- $70
  documented .bvs .relative 2, documentedPaged .adc .indirectIndexed 5,
  jam, extra .rra .indirectIndexed 8,
  extra .nop .zeroPageX 4, documented .adc .zeroPageX 4,
  documented .ror .zeroPageX 6, extra .rra .zeroPageX 6,
  documented .sei .implied 2, documentedPaged .adc .absoluteY 4,
  extra .nop .implied 2, extra .rra .absoluteY 7,
  extraPaged .nop .absoluteX 4, documentedPaged .adc .absoluteX 4,
  documented .ror .absoluteX 7, extra .rra .absoluteX 7,
  -- $80
  extra .nop .immediate 2, documented .sta .indexedIndirect 6,
  extra .nop .immediate 2, extra .sax .indexedIndirect 6,
  documented .sty .zeroPage 3, documented .sta .zeroPage 3,
  documented .stx .zeroPage 3, extra .sax .zeroPage 3,
  documented .dey .implied 2, extra .nop .immediate 2,
  documented .txa .implied 2, extra .xaa .immediate 2,
  documented .sty .absolute 4, documented .sta .absolute 4,
  documented .stx .absolute 4, extra .sax .absolute 4,
  -- $90
  documented .bcc .relative 2, documented .sta .indirectIndexed 6,
  jam, extra .ahx .indirectIndexed 6,
  documented .sty .zeroPageX 4, documented .sta .zeroPageX 4,
  documented .stx .zeroPageY 4, extra .sax .zeroPageY 4,
  documented .tya .implied 2, documented .sta .absoluteY 5,
  documented .txs .implied 2, extra .tas .absoluteY 5,
  extra .shy .absoluteX 5, documented .sta .absoluteX 5,
  extra .shx .absoluteY 5, extra .ahx .absoluteY 5,
  -- $A0
  documented .ldy .immediate 2, documented .lda .indexedIndirect 6,
  documented .ldx .immediate 2, extra .lax .indexedIndirect 6,
  documented .ldy .zeroPage 3, documented .lda .zeroPage 3,
  documented .ldx .zeroPage 3, extra .lax .zeroPage 3,
  documented .tay .implied 2, documented .lda .immediate 2,
  documented .tax .implied 2, extra .lxa .immediate 2,
  documented .ldy .absolute 4, documented .lda .absolute 4,
  documented .ldx .absolute 4, extra .lax .absolute 4,
  -- $B0
  documented .bcs .relative 2, documentedPaged .lda .indirectIndexed 5,
  jam, extraPaged .lax .indirectIndexed 5,
  documented .ldy .zeroPageX 4, documented .lda .zeroPageX 4,
  documented .ldx .zeroPageY 4, extra .lax .zeroPageY 4,
  documented .clv .implied 2, documentedPaged .lda .absoluteY 4,
  documented .tsx .implied 2, extraPaged .las .absoluteY 4,
  documentedPaged .ldy .absoluteX 4, documentedPaged .lda .absoluteX 4,
  documentedPaged .ldx .absoluteY 4, extraPaged .lax .absoluteY 4,
  -- $C0
  documented .cpy .immediate 2, documented .cmp .indexedIndirect 6,
  extra .nop .immediate 2, extra .dcp .indexedIndirect 8,
  documented .cpy .zeroPage 3, documented .cmp .zeroPage 3,
  documented .dec .zeroPage 5, extra .dcp .zeroPage 5,
  documented .iny .implied 2, documented .cmp .immediate 2,
  documented .dex .implied 2, extra .axs .immediate 2,
  documented .cpy .absolute 4, documented .cmp .absolute 4,
  documented .dec .absolute 6, extra .dcp .absolute 6,
  -- $D0
  documented .bne .relative 2, documentedPaged .cmp .indirectIndexed 5,
  jam, extra .dcp .indirectIndexed 8,
  extra .nop .zeroPageX 4, documented .cmp .zeroPageX 4,
  documented .dec .zeroPageX 6, extra .dcp .zeroPageX 6,
  documented .cld .implied 2, documentedPaged .cmp .absoluteY 4,
  extra .nop .implied 2, extra .dcp .absoluteY 7,
  extraPaged .nop .absoluteX 4, documentedPaged .cmp .absoluteX 4,
  documented .dec .absoluteX 7, extra .dcp .absoluteX 7,
  -- $E0
  documented .cpx .immediate 2, documented .sbc .indexedIndirect 6,
  extra .nop .immediate 2, extra .isc .indexedIndirect 8,
  documented .cpx .zeroPage 3, documented .sbc .zeroPage 3,
  documented .inc .zeroPage 5, extra .isc .zeroPage 5,
  documented .inx .implied 2, documented .sbc .immediate 2,
  documented .nop .implied 2, extra .sbc .immediate 2,
  documented .cpx .absolute 4, documented .sbc .absolute 4,
  documented .inc .absolute 6, extra .isc .absolute 6,
  -- $F0
  documented .beq .relative 2, documentedPaged .sbc .indirectIndexed 5,
  jam, extra .isc .indirectIndexed 8,
  extra .nop .zeroPageX 4, documented .sbc .zeroPageX 4,
  documented .inc .zeroPageX 6, extra .isc .zeroPageX 6,
  documented .sed .implied 2, documentedPaged .sbc .absoluteY 4,
  extra .nop .implied 2, extra .isc .absoluteY 7,
  extraPaged .nop .absoluteX 4, documentedPaged .sbc .absoluteX 4,
  documented .inc .absoluteX 7, extra .isc .absoluteX 7]

/-- The meaning of an opcode. -/
@[inline] def Opcode.ofByte (code : UInt8) : Opcode := opcodeTable.get code.toFin

/-- A property of all opcodes of the table is one of every code. -/
theorem Opcode.forall_of_table {P : Opcode → Prop} (h : ∀ opcode ∈ opcodeTable.toList, P opcode)
    (code : UInt8) : P (ofByte code) := by
  have hmem : opcodeTable[code.toFin] ∈ opcodeTable.toList :=
    Vector.mem_toList_iff.mpr (Vector.getElem_mem _)
  exact h _ hmem

end Famicom
