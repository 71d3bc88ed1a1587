import HereEmu.Instr.Types

/-!
# The dispatch table

The names of the instructions and the function each of them is executed by.
-/

namespace HereEmu

inductive RiscvInstr (F V : Type) where
  -- RV_I and RV_M
  | ADD | ADDI | ADDW | ADDIW | SUB | SUBW
  | MUL | MULH | MULHU | MULHSU | DIV | DIVU | REM | REMU | MULW | DIVW | DIVUW | REMW | REMUW
  | SLL | SLLI | SRL | SRLI | SRA | SRAI | SRAW | SRAIW | SLLW | SLLIW | SRLW | SRLIW
  | SLT | SLTI | SLTU | SLTIU | AND | ANDI | OR | ORI | XOR | XORI
  | BEQ | BNE | BLT | BGE | BLTU | BGEU
  | LB | LBU | LH | LHU | LW | LWU | LD | SB | SH | SW | SD
  | JAL | JALR | AUIPC | LUI | EBREAK | ECALL | FENCE | FENCE_I
  | CSRRW | CSRRC | CSRRS | CSRRWI | CSRRCI | CSRRSI
  | MRET | WFI | SRET | SFENCE_VMA
  -- RV_F and RV_D
  | FLW | FSW | FLD | FSD
  | float (op : F)
  -- RV_A
  | AMOADD_W | AMOAND_W | AMOOR_W | AMOXOR_W | AMOSWAP_W | AMOMAX_W | AMOMIN_W | AMOMAXU_W | AMOMINU_W
  | AMOADD_D | AMOAND_D | AMOOR_D | AMOXOR_D | AMOSWAP_D | AMOMAX_D | AMOMIN_D | AMOMAXU_D | AMOMINU_D
  | LR_W | SC_W | LR_D | SC_D
  -- RV_C
  | C_ADD | C_ADDI | C_ADDI16SP | C_ADDW | C_ADDIW | C_ADDI4SPN | C_SLLI | C_SRLI | C_SRAI | C_MV
  | C_AND | C_ANDI | C_OR | C_XOR | C_SUB | C_SUBW | C_NOP | C_EBREAK | C_LI | C_LUI
  | C_LW | C_LD | C_LWSP | C_LDSP | C_SW | C_SD | C_SWSP | C_SDSP
  | C_FLW | C_FLD | C_FLWSP | C_FLDSP | C_FSW | C_FSD | C_FSWSP | C_FSDSP
  | C_BEQZ | C_BNEZ | C_J | C_JAL | C_JR | C_JALR | ILLEGAL
  -- RV_V
  | VSETVL | VSETVLI | VSETIVLI
  | vectorMem (op : VectorMemOp)
  | vector (op : V)
  deriving DecidableEq

/-- The functions of the dispatch table. -/
inductive ExecFunc (F V : Type) where
  | arith (op : ArithOp)
  | branch (op : BranchOp)
  | load (w : Width) (extend : Bool)
  | store (w : Width)
  | jal | jalr | auipc | lui
  | ebreak | ecall | nop | fenceI
  | csrw (uimm : Bool)
  | csrBit (set uimm : Bool)
  | mret | sret | sfenceVma
  | floatLoad (f : FloatFmt)
  | floatStore (f : FloatFmt)
  | float (op : F)
  | amo (op : AmoOp) (w : Width)
  | lr (w : Width) (extend : Bool)
  | sc (w : Width)
  | compressArith (op : ArithOp)
  | addi4spn | compressMv | compressLi | compressNop
  | compressLoad (w : Width) (extend : Bool)
  | compressLoadSp (w : Width) (extend : Bool)
  | compressStore (w : Width)
  | compressStoreSp (w : Width)
  | compressFloatLoad (f : FloatFmt)
  | compressFloatLoadSp (f : FloatFmt)
  | compressFloatStore (f : FloatFmt)
  | compressFloatStoreSp (f : FloatFmt)
  | compressBranch (op : BranchOp)
  | compressJump (link : Bool)
  | compressJumpReg (link : Bool)
  | illegal
  | vectorConfig (op : VectorConfigOp)
  | vectorMem (op : VectorMemOp)
  | vector (op : V)

def getExecFunc {F V : Type} : RiscvInstr F V → ExecFunc F V
  | .ADD | .ADDI => .arith .add
  | .ADDW | .ADDIW => .arith .addw
  | .SUB => .arith .sub
  | .SUBW => .arith .subw
  | .MUL => .arith .mulLow
  | .MULH => .arith .mulHighSigned
  | .MULHU => .arith .mulHighUnsigned
  | .MULHSU => .arith .mulHighSignedUnsigned
  | .DIV => .arith .divSigned
  | .DIVU => .arith .divUnsigned
  | .REM => .arith .remSigned
  | .REMU => .arith .remUnsigned
  | .MULW => .arith .mulw
  | .DIVW => .arith .divw
  | .DIVUW => .arith .divuw
  | .REMW => .arith .remw
  | .REMUW => .arith .remuw
  | .SLL | .SLLI => .arith .sll
  | .SRL | .SRLI => .arith .srl
  | .SRA | .SRAI => .arith .sra
  | .SRAW | .SRAIW => .arith .sraw
  | .SLLW | .SLLIW => .arith .sllw
  | .SRLW | .SRLIW => .arith .srlw
  | .SLT | .SLTI => .arith .signedLess
  | .SLTU | .SLTIU => .arith .unsignedLess
  | .AND | .ANDI => .arith .and
  | .OR | .ORI => .arith .or
  | .XOR | .XORI => .arith .xor
  | .BEQ => .branch .equal
  | .BNE => .branch .notEqual
  | .BLT => .branch .signedLess
  | .BGE => .branch .signedGreatEqual
  | .BLTU => .branch .unsignedLess
  | .BGEU => .branch .unsignedGreatEqual
  | .LB => .load .u8 true
  | .LBU => .load .u8 false
  | .LH => .load .u16 true
  | .LHU => .load .u16 false
  | .LW => .load .u32 true
  | .LWU => .load .u32 false
  | .LD => .load .u64 false
  | .SB => .store .u8
  | .SH => .store .u16
  | .SW => .store .u32
  | .SD => .store .u64
  | .JAL => .jal
  | .JALR => .jalr
  | .AUIPC => .auipc
  | .LUI => .lui
  | .EBREAK => .ebreak
  | .ECALL => .ecall
  | .FENCE => .nop
  | .FENCE_I => .fenceI
  | .CSRRW => .csrw false
  | .CSRRC => .csrBit false false
  | .CSRRS => .csrBit true false
  | .CSRRWI => .csrw true
  | .CSRRCI => .csrBit false true
  | .CSRRSI => .csrBit true true
  | .MRET => .mret
  | .WFI => .nop
  | .SRET => .sret
  | .SFENCE_VMA => .sfenceVma
  | .FLW => .floatLoad .f32
  | .FSW => .floatStore .f32
  | .FLD => .floatLoad .f64
  | .FSD => .floatStore .f64
  | .float op => .float op
  | .AMOADD_W => .amo .add .u32
  | .AMOAND_W => .amo .and .u32
  | .AMOOR_W => .amo .or .u32
  | .AMOXOR_W => .amo .xor .u32
  | .AMOSWAP_W => .amo .swap .u32
  | .AMOMAX_W => .amo .max .u32
  | .AMOMIN_W => .amo .min .u32
  | .AMOMAXU_W => .amo .maxU .u32
  | .AMOMINU_W => .amo .minU .u32
  | .AMOADD_D => .amo .add .u64
  | .AMOAND_D => .amo .and .u64
  | .AMOOR_D => .amo .or .u64
  | .AMOXOR_D => .amo .xor .u64
  | .AMOSWAP_D => .amo .swap .u64
  | .AMOMAX_D => .amo .max .u64
  | .AMOMIN_D => .amo .min .u64
  | .AMOMAXU_D => .amo .maxU .u64
  | .AMOMINU_D => .amo .minU .u64
  | .LR_W => .lr .u32 true
  | .SC_W => .sc .u32
  | .LR_D => .lr .u64 false
  | .SC_D => .sc .u64
  | .C_ADD | .C_ADDI | .C_ADDI16SP => .compressArith .add
  | .C_ADDW | .C_ADDIW => .compressArith .addw
  | .C_ADDI4SPN => .addi4spn
  | .C_SLLI => .compressArith .sll
  | .C_SRLI => .compressArith .srl
  | .C_SRAI => .compressArith .sra
  | .C_MV => .compressMv
  | .C_AND | .C_ANDI => .compressArith .and
  | .C_OR => .compressArith .or
  | .C_XOR => .compressArith .xor
  | .C_SUB => .compressArith .sub
  | .C_SUBW => .compressArith .subw
  | .C_NOP => .compressNop
  | .C_EBREAK => .ebreak
  | .C_LI | .C_LUI => .compressLi
  | .C_LW => .compressLoad .u32 true
  | .C_LD => .compressLoad .u64 false
  | .C_LWSP => .compressLoadSp .u32 true
  | .C_LDSP => .compressLoadSp .u64 false
  | .C_SW => .compressStore .u32
  | .C_SD => .compressStore .u64
  | .C_SWSP => .compressStoreSp .u32
  | .C_SDSP => .compressStoreSp .u64
  | .C_FLW => .compressFloatLoad .f32
  | .C_FLD => .compressFloatLoad .f64
  | .C_FLWSP => .compressFloatLoadSp .f32
  | .C_FLDSP => .compressFloatLoadSp .f64
  | .C_FSW => .compressFloatStore .f32
  | .C_FSD => .compressFloatStore .f64
  | .C_FSWSP => .compressFloatStoreSp .f32
  | .C_FSDSP => .compressFloatStoreSp .f64
  | .C_BEQZ => .compressBranch .equal
  | .C_BNEZ => .compressBranch .notEqual
  | .C_J => .compressJump false
  | .C_JAL => .compressJump true
  | .C_JR => .compressJumpReg false
  | .C_JALR => .compressJumpReg true
  | .ILLEGAL => .illegal
  | .VSETVL => .vectorConfig .vsetvl
  | .VSETVLI => .vectorConfig .vsetvli
  | .VSETIVLI => .vectorConfig .vsetivli
  | .vectorMem op => .vectorMem op
  | .vector op => .vector op

end HereEmu
