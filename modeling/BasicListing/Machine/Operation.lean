/-
  The operations of the 6502: mnemonics, addressing modes and the table of
  documented operation codes.
-/
import BasicListing.Text.Basic

namespace BasicListing

/-- The names of the operations. -/
inductive Mnemonic where
  | adc | and | asl | bcc | bcs | beq | bit | bmi | bne | bpl | brk | bvc | bvs | clc | cld | cli
  | clv | cmp | cpx | cpy | dec | dex | dey | eor | inc | inx | iny | jmp | jsr | lda | ldx | ldy
  | lsr | nop | ora | pha | php | pla | plp | rol | ror | rti | rts | sbc | sec | sed | sei | sta
  | stx | sty | tax | tay | tsx | txa | txs | tya
  deriving DecidableEq, Repr

/-- The name of an operation as it is written. -/
def Mnemonic.text (m : Mnemonic) : Text :=
  String.toList <| match m with
    | .adc => "ADC" | .and => "AND" | .asl => "ASL" | .bcc => "BCC" | .bcs => "BCS"
    | .beq => "BEQ" | .bit => "BIT" | .bmi => "BMI" | .bne => "BNE" | .bpl => "BPL"
    | .brk => "BRK" | .bvc => "BVC" | .bvs => "BVS" | .clc => "CLC" | .cld => "CLD"
    | .cli => "CLI" | .clv => "CLV" | .cmp => "CMP" | .cpx => "CPX" | .cpy => "CPY"
    | .dec => "DEC" | .dex => "DEX" | .dey => "DEY" | .eor => "EOR" | .inc => "INC"
    | .inx => "INX" | .iny => "INY" | .jmp => "JMP" | .jsr => "JSR" | .lda => "LDA"
    | .ldx => "LDX" | .ldy => "LDY" | .lsr => "LSR" | .nop => "NOP" | .ora => "ORA"
    | .pha => "PHA" | .php => "PHP" | .pla => "PLA" | .plp => "PLP" | .rol => "ROL"
    | .ror => "ROR" | .rti => "RTI" | .rts => "RTS" | .sbc => "SBC" | .sec => "SEC"
    | .sed => "SED" | .sei => "SEI" | .sta => "STA" | .stx => "STX" | .sty => "STY"
    | .tax => "TAX" | .tay => "TAY" | .tsx => "TSX" | .txa => "TXA" | .txs => "TXS"
    | .tya => "TYA"

/-- The ways in which an operation names its operand. -/
inductive AddressingMode where
  | implied
  | accumulator
  | immediate
  | zeroPage
  | zeroPageX
  | zeroPageY
  | relative
  | absolute
  | absoluteX
  | absoluteY
  | indirect
  | indirectX
  | indirectY
  deriving DecidableEq, Repr

/-- The number of bytes behind the operation code. -/
def AddressingMode.operandSize : AddressingMode → Nat
  | .implied | .accumulator => 0
  | .absolute | .absoluteX | .absoluteY | .indirect => 2
  | _ => 1

/-- An operation together with its addressing mode. -/
structure Operation where
  mnemonic : Mnemonic
  mode : AddressingMode
  deriving DecidableEq, Repr

namespace Operation

/-- The documented operation codes. -/
def table : List (UInt8 × Operation) :=
  [(0x69, ⟨.adc, .immediate⟩), (0x65, ⟨.adc, .zeroPage⟩), (0x75, ⟨.adc, .zeroPageX⟩),
   (0x6D, ⟨.adc, .absolute⟩), (0x7D, ⟨.adc, .absoluteX⟩), (0x79, ⟨.adc, .absoluteY⟩),
   (0x61, ⟨.adc, .indirectX⟩), (0x71, ⟨.adc, .indirectY⟩), (0x29, ⟨.and, .immediate⟩),
   (0x25, ⟨.and, .zeroPage⟩), (0x35, ⟨.and, .zeroPageX⟩), (0x2D, ⟨.and, .absolute⟩),
   (0x3D, ⟨.and, .absoluteX⟩), (0x39, ⟨.and, .absoluteY⟩), (0x21, ⟨.and, .indirectX⟩),
   (0x31, ⟨.and, .indirectY⟩), (0x0A, ⟨.asl, .accumulator⟩), (0x06, ⟨.asl, .zeroPage⟩),
   (0x16, ⟨.asl, .zeroPageX⟩), (0x0E, ⟨.asl, .absolute⟩), (0x1E, ⟨.asl, .absoluteX⟩),
   (0x90, ⟨.bcc, .relative⟩), (0xB0, ⟨.bcs, .relative⟩), (0xF0, ⟨.beq, .relative⟩),
   (0x30, ⟨.bmi, .relative⟩), (0xD0, ⟨.bne, .relative⟩), (0x10, ⟨.bpl, .relative⟩),
   (0x50, ⟨.bvc, .relative⟩), (0x70, ⟨.bvs, .relative⟩), (0x24, ⟨.bit, .zeroPage⟩),
   (0x2C, ⟨.bit, .absolute⟩), (0x00, ⟨.brk, .implied⟩), (0x18, ⟨.clc, .implied⟩),
   (0xD8, ⟨.cld, .implied⟩), (0x58, ⟨.cli, .implied⟩), (0xB8, ⟨.clv, .implied⟩),
   (0xC9, ⟨.cmp, .immediate⟩), (0xC5, ⟨.cmp, .zeroPage⟩), (0xD5, ⟨.cmp, .zeroPageX⟩),
   (0xCD, ⟨.cmp, .absolute⟩), (0xDD, ⟨.cmp, .absoluteX⟩), (0xD9, ⟨.cmp, .absoluteY⟩),
   (0xC1, ⟨.cmp, .indirectX⟩), (0xD1, ⟨.cmp, .indirectY⟩), (0xE0, ⟨.cpx, .immediate⟩),
   (0xE4, ⟨.cpx, .zeroPage⟩), (0xEC, ⟨.cpx, .absolute⟩), (0xC0, ⟨.cpy, .immediate⟩),
   (0xC4, ⟨.cpy, .zeroPage⟩), (0xCC, ⟨.cpy, .absolute⟩), (0xC6, ⟨.dec, .zeroPage⟩),
   (0xD6, ⟨.dec, .zeroPageX⟩), (0xCE, ⟨.dec, .absolute⟩), (0xDE, ⟨.dec, .absoluteX⟩),
   (0xCA, ⟨.dex, .implied⟩), (0x88, ⟨.dey, .implied⟩), (0x49, ⟨.eor, .immediate⟩),
   (0x45, ⟨.eor, .zeroPage⟩), (0x55, ⟨.eor, .zeroPageX⟩), (0x4D, ⟨.eor, .absolute⟩),
   (0x5D, ⟨.eor, .absoluteX⟩), (0x59, ⟨.eor, .absoluteY⟩), (0x41, ⟨.eor, .indirectX⟩),
   (0x51, ⟨.eor, .indirectY⟩), (0xE6, ⟨.inc, .zeroPage⟩), (0xF6, ⟨.inc, .zeroPageX⟩),
   (0xEE, ⟨.inc, .absolute⟩), (0xFE, ⟨.inc, .absoluteX⟩), (0xE8, ⟨.inx, .implied⟩),
   (0xC8, ⟨.iny, .implied⟩), (0x4C, ⟨.jmp, .absolute⟩), (0x6C, ⟨.jmp, .indirect⟩),
   (0x20, ⟨.jsr, .absolute⟩), (0xA9, ⟨.lda, .immediate⟩), (0xA5, ⟨.lda, .zeroPage⟩),
   (0xB5, ⟨.lda, .zeroPageX⟩), (0xAD, ⟨.lda, .absolute⟩), (0xBD, ⟨.lda, .absoluteX⟩),
   (0xB9, ⟨.lda, .absoluteY⟩), (0xA1, ⟨.lda, .indirectX⟩), (0xB1, ⟨.lda, .indirectY⟩),
   (0xA2, ⟨.ldx, .immediate⟩), (0xA6, ⟨.ldx, .zeroPage⟩), (0xB6, ⟨.ldx, .zeroPageY⟩),
   (0xAE, ⟨.ldx, .absolute⟩), (0xBE, ⟨.ldx, .absoluteY⟩), (0xA0, ⟨.ldy, .immediate⟩),
   (0xA4, ⟨.ldy, .zeroPage⟩), (0xB4, ⟨.ldy, .zeroPageX⟩), (0xAC, ⟨.ldy, .absolute⟩),
   (0xBC, ⟨.ldy, .absoluteX⟩), (0x4A, ⟨.lsr, .accumulator⟩), (0x46, ⟨.lsr, .zeroPage⟩),
   (0x56, ⟨.lsr, .zeroPageX⟩), (0x4E, ⟨.lsr, .absolute⟩), (0x5E, ⟨.lsr, .absoluteX⟩),
   (0xEA, ⟨.nop, .implied⟩), (0x09, ⟨.ora, .immediate⟩), (0x05, ⟨.ora, .zeroPage⟩),
   (0x15, ⟨.ora, .zeroPageX⟩), (0x0D, ⟨.ora, .absolute⟩), (0x1D, ⟨.ora, .absoluteX⟩),
   (0x19, ⟨.ora, .absoluteY⟩), (0x01, ⟨.ora, .indirectX⟩), (0x11, ⟨.ora, .indirectY⟩),
   (0x48, ⟨.pha, .implied⟩), (0x08, ⟨.php, .implied⟩), (0x68, ⟨.pla, .implied⟩),
   (0x28, ⟨.plp, .implied⟩), (0x2A, ⟨.rol, .accumulator⟩), (0x26, ⟨.rol, .zeroPage⟩),
   (0x36, ⟨.rol, .zeroPageX⟩), (0x2E, ⟨.rol, .absolute⟩), (0x3E, ⟨.rol, .absoluteX⟩),
   (0x6A, ⟨.ror, .accumulator⟩), (0x66, ⟨.ror, .zeroPage⟩), (0x76, ⟨.ror, .zeroPageX⟩),
   (0x6E, ⟨.ror, .absolute⟩), (0x7E, ⟨.ror, .absoluteX⟩), (0x40, ⟨.rti, .implied⟩),
   (0x60, ⟨.rts, .implied⟩), (0xE9, ⟨.sbc, .immediate⟩), (0xE5, ⟨.sbc, .zeroPage⟩),
   (0xF5, ⟨.sbc, .zeroPageX⟩), (0xED, ⟨.sbc, .absolute⟩), (0xFD, ⟨.sbc, .absoluteX⟩),
   (0xF9, ⟨.sbc, .absoluteY⟩), (0xE1, ⟨.sbc, .indirectX⟩), (0xF1, ⟨.sbc, .indirectY⟩),
   (0x38, ⟨.sec, .implied⟩), (0xF8, ⟨.sed, .implied⟩), (0x78, ⟨.sei, .implied⟩),
   (0x85, ⟨.sta, .zeroPage⟩), (0x95, ⟨.sta, .zeroPageX⟩), (0x8D, ⟨.sta, .absolute⟩),
   (0x9D, ⟨.sta, .absoluteX⟩), (0x99, ⟨.sta, .absoluteY⟩), (0x81, ⟨.sta, .indirectX⟩),
   (0x91, ⟨.sta, .indirectY⟩), (0x86, ⟨.stx, .zeroPage⟩), (0x96, ⟨.stx, .zeroPageY⟩),
   (0x8E, ⟨.stx, .absolute⟩), (0x84, ⟨.sty, .zeroPage⟩), (0x94, ⟨.sty, .zeroPageX⟩),
   (0x8C, ⟨.sty, .absolute⟩), (0xAA, ⟨.tax, .implied⟩), (0xA8, ⟨.tay, .implied⟩),
   (0xBA, ⟨.tsx, .implied⟩), (0x8A, ⟨.txa, .implied⟩), (0x9A, ⟨.txs, .implied⟩),
   (0x98, ⟨.tya, .implied⟩)]

/-- The operation of a code; not every byte is one. -/
def ofByte? (b : UInt8) : Option Operation := table.lookup b

end Operation

end BasicListing
