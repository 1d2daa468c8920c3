/-!
# Operations

What an opcode does, apart from where its operand lies: the 56 documented operations and the 20
that the silicon performs besides.
-/

namespace Famicom

/-- The operations of the processor, documented ones first. -/
inductive Operation where
  | adc | and | asl | bcc | bcs | beq | bit | bmi | bne | bpl | brk | bvc | bvs | clc | cld | cli
  | clv | cmp | cpx | cpy | dec | dex | dey | eor | inc | inx | iny | jmp | jsr | lda | ldx | ldy
  | lsr | nop | ora | pha | php | pla | plp | rol | ror | rti | rts | sbc | sec | sed | sei | sta
  | stx | sty | tax | tay | tsx | txa | txs | tya
  | ahx | alr | anc | arr | axs | dcp | isc | kil | las | lax | lxa | rla | rra | sax | shx | shy
  | slo | sre | tas | xaa
  deriving DecidableEq, Repr, Inhabited

/-- The assembler's name of an operation. -/
def Operation.mnemonic : Operation → String
  | .adc => "ADC" | .and => "AND" | .asl => "ASL" | .bcc => "BCC" | .bcs => "BCS" | .beq => "BEQ"
  | .bit => "BIT" | .bmi => "BMI" | .bne => "BNE" | .bpl => "BPL" | .brk => "BRK" | .bvc => "BVC"
  | .bvs => "BVS" | .clc => "CLC" | .cld => "CLD" | .cli => "CLI" | .clv => "CLV" | .cmp => "CMP"
  | .cpx => "CPX" | .cpy => "CPY" | .dec => "DEC" | .dex => "DEX" | .dey => "DEY" | .eor => "EOR"
  | .inc => "INC" | .inx => "INX" | .iny => "INY" | .jmp => "JMP" | .jsr => "JSR" | .lda => "LDA"
  | .ldx => "LDX" | .ldy => "LDY" | .lsr => "LSR" | .nop => "NOP" | .ora => "ORA" | .pha => "PHA"
  | .php => "PHP" | .pla => "PLA" | .plp => "PLP" | .rol => "ROL" | .ror => "ROR" | .rti => "RTI"
  | .rts => "RTS" | .sbc => "SBC" | .sec => "SEC" | .sed => "SED" | .sei => "SEI" | .sta => "STA"
  | .stx => "STX" | .sty => "STY" | .tax => "TAX" | .tay => "TAY" | .tsx => "TSX" | .txa => "TXA"
  | .txs => "TXS" | .tya => "TYA" | .ahx => "AHX" | .alr => "ALR" | .anc => "ANC" | .arr => "ARR"
  | .axs => "AXS" | .dcp => "DCP" | .isc => "ISC" | .kil => "KIL" | .las => "LAS" | .lax => "LAX"
  | .lxa => "LXA" | .rla => "RLA" | .rra => "RRA" | .sax => "SAX" | .shx => "SHX" | .shy => "SHY"
  | .slo => "SLO" | .sre => "SRE" | .tas => "TAS" | .xaa => "XAA"

end Famicom
