import Unheaded.Mbc.Isa

/-!
# The RV32I to MBC translator

`Translator::translate_program_internal` and `translate_insn`.
-/

namespace Unheaded.Mbc

namespace Translator

inductive TranslateError where
  | unsupportedInstruction (pc : Word) (opcode funct3 funct7 : Byte)
  | branchTargetOutOfRange (target : Word) (mbcPc : Nat)
  | unmappedTarget (rv32iTarget : Word)
  deriving DecidableEq, Repr

/-- An emitted item: a word, or a placeholder for pass 2. -/
inductive MbcEmit where
  | concrete (word : Word)
  | branch (opcode : Opcode) (rv32iTargetByte : Word)
  | call (rv32iTargetByte : Word)
  deriving DecidableEq, Repr

variable (insn : Word)

def rvOpcode : Word := insn &&& 0x7F
def rvRd : BitVec 5 := ((insn >>> 7) &&& 0x1F).setWidth 5
def rvRs1 : BitVec 5 := ((insn >>> 15) &&& 0x1F).setWidth 5
def rvRs2 : BitVec 5 := ((insn >>> 20) &&& 0x1F).setWidth 5
def rvFunct3 : Byte := ((insn >>> 12) &&& 0x07).setWidth 8
def rvFunct7 : Byte := ((insn >>> 25) &&& 0x7F).setWidth 8

/-- `sign_extend_12` of the shifted word, as the bits of the `i32`. -/
def signExtend12 (bits : Word) : Word :=
  if bits &&& 0x800 ≠ 0 then bits ||| ~~~0xFFF else bits &&& 0xFFF

def decodeJImm : Word :=
  let imm20 := (insn >>> 31) &&& 1
  let imm10_1 := (insn >>> 21) &&& 0x3FF
  let imm11 := (insn >>> 20) &&& 1
  let imm19_12 := (insn >>> 12) &&& 0xFF
  let raw := (imm20 <<< 20) ||| (imm19_12 <<< 12) ||| (imm11 <<< 11) ||| (imm10_1 <<< 1)
  if raw &&& 0x100000 ≠ 0 then raw ||| 0xFFE00000 else raw

def decodeBImm : Word :=
  let imm12 := (insn >>> 31) &&& 1
  let imm10_5 := (insn >>> 25) &&& 0x3F
  let imm4_1 := (insn >>> 8) &&& 0xF
  let imm11 := (insn >>> 7) &&& 1
  let raw := (imm12 <<< 12) ||| (imm11 <<< 11) ||| (imm10_5 <<< 5) ||| (imm4_1 <<< 1)
  if raw &&& 0x1000 ≠ 0 then raw ||| 0xFFFFE000 else raw

def decodeSImm : Word :=
  let imm11_5 := (insn >>> 25) &&& 0x7F
  let imm4_0 := (insn >>> 7) &&& 0x1F
  let raw := (imm11_5 <<< 5) ||| imm4_0
  if raw &&& 0x800 ≠ 0 then raw ||| 0xFFFFF000 else raw

def mapRegister (xreg : BitVec 5) : Reg :=
  match xreg.toNat with
  | 0 => 0 | 1 => 14 | 2 => 15 | 3 => 1 | 4 => 2 | 5 => 3 | 6 => 4 | 7 => 5 | 8 => 6
  | 9 => 7 | 10 => 8 | 11 => 9 | 12 => 10 | 13 => 11 | 14 => 12 | 15 => 13
  | 16 => 2 | 17 => 1
  | 18 => 6 | 19 => 7 | 20 => 8 | 21 => 9
  | 22 => 10 | 23 => 11 | 24 => 12 | 25 => 13
  | 26 => 12 | 27 => 13
  | 28 => 3 | 29 => 4 | 30 => 5 | _ => 6

def emit (opcode : Opcode) (dst src : Reg) (imm : Half) : Word :=
  MbcInsn.encode opcode.toByte dst src imm

def emitLoad32 (dst : Reg) (value : Word) : List Word :=
  let hi : Half := ((value >>> 16) &&& 0xFFFF).setWidth 16
  let lo : Half := (value &&& 0xFFFF).setWidth 16
  if value.toNat ≤ 0xFFFF then [emit .movi dst 0 lo]
  else if lo = 0 then [emit .movi dst 0 hi, emit .shl dst 0 16]
  else [emit .movi dst 0 lo, emit .loadImm32 dst 0 hi]

def guardZeroSrc (rs : BitVec 5) (mbcRs : Reg) : List Word :=
  if rs = 0 then [emit .movi mbcRs 0 0] else []

def guardZeroDst (rd : BitVec 5) : List Word :=
  if rd = 0 then [emit .movi 0 0 0] else []

variable (mbcOp : Opcode)

def emitRTypeOp (mbcRd mbcRs1 mbcRs2 : Reg) (commutative : Bool) : List Word :=
  if mbcRd = mbcRs2 ∧ mbcRd ≠ mbcRs1 then
    if commutative then [emit mbcOp mbcRd mbcRs1 0]
    else
      [emit .mov 0 mbcRs1 0, emit mbcOp 0 mbcRd 0, emit .mov mbcRd 0 0, emit .movi 0 0 0]
  else [emit .mov mbcRd mbcRs1 0, emit mbcOp mbcRd mbcRs2 0]

/-- The tail of `SLT` and its relatives: `rd` is 0 when `skip` jumps, else 1. -/
def emitSetLess (skip : Opcode) (mbcRd : Reg) : List Word :=
  [emit .movi mbcRd 0 0, emit skip 0 0 1, emit .movi mbcRd 0 1]

variable (funct3 funct7 : Byte)

/-- The `OP` rows that go through `emit_r_type_op`: opcode and commutativity. -/
def opRow : Option (Opcode × Bool) :=
  match funct3.toNat, funct7.toNat with
  | 0, 0x00 => some (.add, true)
  | 0, 0x20 => some (.sub, false)
  | 7, 0x00 => some (.and, true)
  | 6, 0x00 => some (.or, true)
  | 4, 0x00 => some (.xor, true)
  | 0, 0x01 => some (.mul, true)
  | 4, 0x01 => some (.div, false)
  | 5, 0x01 => some (.div, false)
  | 6, 0x01 => some (.mod, false)
  | 7, 0x01 => some (.mod, false)
  | 1, 0x00 => some (.shlr, false)
  | 5, 0x00 => some (.shrr, false)
  | 5, 0x20 => some (.sarr, false)
  | 1, 0x01 => some (.mulh, true)
  | 2, 0x01 => some (.mulh, true)
  | 3, 0x01 => some (.mulhu, true)
  | _, _ => none

/-- The `OP` rows that compare: the branch that skips the 1. -/
def opCompareRow : Option Opcode :=
  match funct3.toNat, funct7.toNat with
  | 2, 0x00 => some .jp
  | 3, 0x00 => some .jnc
  | _, _ => none

/-- `OP`: register-register arithmetic. -/
def translateOp : Option (List Word) :=
  let rd := rvRd insn
  let rs1 := rvRs1 insn
  let rs2 := rvRs2 insn
  let mbcRd := mapRegister rd
  let mbcRs1 := mapRegister rs1
  let mbcRs2 := mapRegister rs2
  match opRow (rvFunct3 insn) (rvFunct7 insn) with
  | some (mbcOp, commutative) =>
    some (guardZeroSrc rs1 mbcRs1 ++ guardZeroSrc rs2 mbcRs2 ++
      emitRTypeOp mbcOp mbcRd mbcRs1 mbcRs2 commutative ++ guardZeroDst rd)
  | none =>
    match opCompareRow (rvFunct3 insn) (rvFunct7 insn) with
    | some skip =>
      some (guardZeroSrc rs1 mbcRs1 ++ guardZeroSrc rs2 mbcRs2 ++
        [emit .cmp mbcRs1 mbcRs2 0] ++ emitSetLess skip mbcRd ++ guardZeroDst rd)
    | none => none

/-- `MOVI` when the immediate is a non-negative 16-bit value, else two words. -/
def emitImmediate (imm12 : Word) : List Word :=
  if 0 ≤ imm12.toInt ∧ imm12.toInt ≤ 0xFFFF then [emit .movi 0 0 (imm12.setWidth 16)]
  else emitLoad32 0 imm12

/-- `ANDI`, `ORI`, `XORI`: the immediate goes through `r0`. -/
def emitLogicImm (mbcRd mbcRs1 : Reg) (imm12 : Word) : List Word :=
  [emit .mov mbcRd mbcRs1 0] ++ emitImmediate imm12 ++ [emit mbcOp mbcRd 0 0, emit .movi 0 0 0]

def emitAddImm (mbcRd mbcRs1 : Reg) (imm12 : Word) : List Word := [emit .mov mbcRd mbcRs1 0] ++
    (if imm12 ≠ 0 then
      if -32768 ≤ imm12.toInt ∧ imm12.toInt ≤ 32767 then
        [emit .addi mbcRd 0 (imm12.setWidth 16)]
      else emitLoad32 0 imm12 ++ [emit .add mbcRd 0 0, emit .movi 0 0 0]
    else [])

def emitShiftImm (mbcRd mbcRs1 : Reg) (imm12 : Word) : List Word :=
  [emit .mov mbcRd mbcRs1 0, emit mbcOp mbcRd 0 ((imm12 &&& 0x1F).setWidth 16)]

/-- `SLTI`, `SLTIU`: the immediate is compared through `r0`. -/
def emitSetLessImm (skip : Opcode) (mbcRd mbcRs1 : Reg) (imm12 : Word) : List Word :=
  emitLoad32 0 imm12 ++ [emit .cmp mbcRs1 0 0, emit .movi 0 0 0] ++ emitSetLess skip mbcRd

/-- The `OP-IMM` rows. -/
def opImmRow (mbcRd mbcRs1 : Reg) (imm12 : Word) : Option (List Word) :=
  match funct3.toNat with
  | 0 => some (emitAddImm mbcRd mbcRs1 imm12)
  | 7 => some (emitLogicImm .and mbcRd mbcRs1 imm12)
  | 6 => some (emitLogicImm .or mbcRd mbcRs1 imm12)
  | 4 => some (emitLogicImm .xor mbcRd mbcRs1 imm12)
  | 1 => some (emitShiftImm .shl mbcRd mbcRs1 imm12)
  | 5 =>
    if funct7 &&& 0x20 = 0 then some (emitShiftImm .shr mbcRd mbcRs1 imm12)
    else some (emitShiftImm .sar mbcRd mbcRs1 imm12)
  | 2 => some (emitSetLessImm .jp mbcRd mbcRs1 imm12)
  | 3 => some (emitSetLessImm .jnc mbcRd mbcRs1 imm12)
  | _ => none

/-- `OP-IMM`. -/
def translateOpImm : Option (List Word) :=
  let rd := rvRd insn
  let rs1 := rvRs1 insn
  let mbcRd := mapRegister rd
  let mbcRs1 := mapRegister rs1
  let imm12 := signExtend12 (insn >>> 20)
  (opImmRow (rvFunct3 insn) (rvFunct7 insn) mbcRd mbcRs1 imm12).map fun words =>
    guardZeroSrc rs1 mbcRs1 ++ words ++ guardZeroDst rd

/-- The `LOAD` rows. -/
def loadRow (funct3 : Byte) (mbcRd mbcRs1 : Reg) (offset : Half) : Option (List Word) :=
  match funct3.toNat with
  | 2 => some [emit .ld mbcRd mbcRs1 offset]
  | 1 => some [emit .ldh mbcRd mbcRs1 offset, emit .shl mbcRd 0 16, emit .sar mbcRd 0 16]
  | 0 => some [emit .ldb mbcRd mbcRs1 offset, emit .shl mbcRd 0 24, emit .sar mbcRd 0 24]
  | 5 => some [emit .ldh mbcRd mbcRs1 offset]
  | 4 => some [emit .ldb mbcRd mbcRs1 offset]
  | _ => none

/-- `LOAD`. -/
def translateLoad : Option (List Word) :=
  let rd := rvRd insn
  let rs1 := rvRs1 insn
  let mbcRd := mapRegister rd
  let mbcRs1 := mapRegister rs1
  let offset : Half := (signExtend12 (insn >>> 20)).setWidth 16
  (loadRow (rvFunct3 insn) mbcRd mbcRs1 offset).map fun words =>
    guardZeroSrc rs1 mbcRs1 ++ words ++ guardZeroDst rd

/-- The `STORE` rows: the address register is the `dst` field. -/
def storeRow (funct3 : Byte) : Option Opcode :=
  match funct3.toNat with
  | 2 => some .st
  | 1 => some .sth
  | 0 => some .stb
  | _ => none

/-- `STORE`. -/
def translateStore : Option (List Word) :=
  let rs1 := rvRs1 insn
  let rs2 := rvRs2 insn
  let mbcRs1 := mapRegister rs1
  let mbcRs2 := mapRegister rs2
  let offset : Half := (decodeSImm insn).setWidth 16
  (storeRow (rvFunct3 insn)).map fun opcode =>
    guardZeroSrc rs1 mbcRs1 ++ guardZeroSrc rs2 mbcRs2 ++ [emit opcode mbcRs1 mbcRs2 offset]

/-- The MBC branch for a `BRANCH` row. -/
def branchRow (funct3 : Byte) : Option Opcode :=
  match funct3.toNat with
  | 0 => some .jz
  | 1 => some .jnz
  | 4 => some .jn
  | 5 => some .jp
  | 6 => some .jc
  | 7 => some .jnc
  | _ => none

/-- `BRANCH`. -/
def translateBranch (insn pc : Word) : Option (List MbcEmit) :=
  let rs1 := rvRs1 insn
  let rs2 := rvRs2 insn
  let mbcRs1 := mapRegister rs1
  let mbcRs2 := mapRegister rs2
  let targetByte := pc + decodeBImm insn
  (branchRow (rvFunct3 insn)).map fun opcode =>
    (guardZeroSrc rs1 mbcRs1 ++ guardZeroSrc rs2 mbcRs2 ++
      [emit .cmp mbcRs1 mbcRs2 0]).map MbcEmit.concrete ++ [MbcEmit.branch opcode targetByte]

/-- `JAL`: the link register is not written. -/
def translateJal (insn pc : Word) : List MbcEmit :=
  let targetByte := pc + decodeJImm insn
  if rvRd insn = 0 then [.branch .jmp targetByte] else [.call targetByte]

/-- `JALR`. -/
def translateJalr : List Word :=
  let rd := rvRd insn
  let rs1 := rvRs1 insn
  let mbcRs1 := mapRegister rs1
  let imm12 := signExtend12 (insn >>> 20)
  if rd = 0 ∧ rs1 = 1 ∧ imm12 = 0 then [emit .ret 0 0 0]
  else if rd = 0 ∧ imm12 = 0 then
    if rs1 = 1 then [emit .ret 0 0 0]
    else guardZeroSrc rs1 mbcRs1 ++ [emit .jmpr mbcRs1 0 0]
  else if rd = 1 ∧ imm12 = 0 then guardZeroSrc rs1 mbcRs1 ++ [emit .callr mbcRs1 0 0]
  else if imm12 = 0 then guardZeroSrc rs1 mbcRs1 ++ [emit .callr mbcRs1 0 0]
  else
    guardZeroSrc rs1 mbcRs1 ++ [emit .mov 0 mbcRs1 0] ++
      (if 0 < imm12.toInt ∧ imm12.toInt ≤ 0xFFFF then
        [emit .movi mbcRs1 0 (imm12.setWidth 16), emit .add 0 mbcRs1 0, emit .mov mbcRs1 0 0]
      else []) ++
      [if rd = 0 then emit .jmpr 0 0 0 else emit .callr 0 0 0, emit .movi 0 0 0]

def translateUpper (insn value : Word) : List Word :=
  emitLoad32 (mapRegister (rvRd insn)) value ++ guardZeroDst (rvRd insn)

def upperImm : Word := ((insn >>> 12) &&& 0xFFFFF) <<< 12

/-- `SYSTEM` with `funct3 = 0`. -/
def translatePrivileged (insn pc : Word) : Option (List Word) :=
  match ((insn >>> 20) &&& 0xFFF).toNat, (rvFunct7 insn).toNat with
  | 0x000, _ => some [emit .syscall 0 0 (((pc >>> 2) &&& 0xFFFF).setWidth 16)]
  | 0x001, _ => some [emit .halt 0 0 0]
  | 0x302, _ => some [emit .mret 0 0 0]
  | 0x102, _ => some [emit .sret 0 0 0]
  | 0x105, _ => some []
  | _, 0x09 | _, 0x0B | _, 0x08 | _, 0x18 | _, 0x19 | _, 0x55 | _, 0x0A | _, 0x1F | _, 0x23
  | _, 0x7F => some [emit .fence 0 0 0]
  | _, _ => none

/-- The CSR instructions: pure reads and `CSRRW`; the rest is refused. -/
def translateCsr : Option (List Word) :=
  let rs1 := rvRs1 insn
  let mbcRd := mapRegister (rvRd insn)
  let csrByteAddr : Word := 0xF000 + ((insn >>> 20) &&& 0xFFF) * 4
  match (rvFunct3 insn).toNat with
  | 2 | 3 | 6 | 7 =>
    if rs1 = 0 then
      some (if mbcRd ≠ 0 then emitLoad32 mbcRd csrByteAddr ++ [emit .ld mbcRd mbcRd 0] else [])
    else none
  | 1 =>
    let mbcRs1 := mapRegister rs1
    if rs1 = 0 then none
    else if mbcRd ≠ 0 ∧ mbcRd = mbcRs1 then none
    else some (emitLoad32 0 csrByteAddr ++ (if mbcRd ≠ 0 then [emit .ld mbcRd 0 0] else []) ++
      [emit .st 0 mbcRs1 0, emit .movi 0 0 0])
  | _ => none

/-- `SYSTEM`. -/
def translateSystem (insn pc : Word) : Option (List Word) :=
  if rvFunct3 insn = 0 then translatePrivileged insn pc else translateCsr insn

/-- The expansion of one instruction, `none` when it is unsupported. -/
def translateInsn? (insn pc : Word) : Option (List MbcEmit) :=
  match (rvOpcode insn).toNat with
  | 0x33 => (translateOp insn).map (·.map .concrete)
  | 0x13 => (translateOpImm insn).map (·.map .concrete)
  | 0x03 => (translateLoad insn).map (·.map .concrete)
  | 0x23 => (translateStore insn).map (·.map .concrete)
  | 0x63 => translateBranch insn pc
  | 0x6F => some (translateJal insn pc)
  | 0x67 => some ((translateJalr insn).map .concrete)
  | 0x37 => some ((translateUpper insn (upperImm insn)).map .concrete)
  | 0x17 => some ((translateUpper insn (pc + upperImm insn)).map .concrete)
  | 0x73 => (translateSystem insn pc).map (·.map .concrete)
  | 0x0F => some []
  | 0x00 => some [.concrete (emit .nop 0 0 0)]
  | _ => none

def translateInsn (insn pc : Word) : Except TranslateError (List MbcEmit) :=
  match translateInsn? insn pc with
  | some items => .ok items
  | none => .error (.unsupportedInstruction pc ((rvOpcode insn).setWidth 8) (rvFunct3 insn)
      (rvFunct7 insn))

def hasRdReg : Bool :=
  match (rvOpcode insn).toNat with
  | 0x33 | 0x13 | 0x03 | 0x67 | 0x37 | 0x17 | 0x6F => true
  | _ => false

def hasRs1Reg : Bool :=
  match (rvOpcode insn).toNat with
  | 0x33 | 0x13 | 0x03 | 0x67 | 0x23 | 0x63 => true
  | _ => false

def hasRs2Reg : Bool :=
  match (rvOpcode insn).toNat with
  | 0x33 | 0x23 | 0x63 => true
  | _ => false

def isSrc (x : BitVec 5) : Bool :=
  (hasRs1Reg insn && rvRs1 insn == x) || (hasRs2Reg insn && rvRs2 insn == x)

def isDst (x : BitVec 5) : Bool := hasRdReg insn && rvRd insn == x

/-- Load a spill word at `0x60000 + low` into its shadow register. -/
def spillLoad (shadow : Reg) (low : Half) : List Word :=
  [emit .movi 0 0 low, emit .loadImm32 0 0 0x0006, emit .ld shadow 0 0, emit .movi 0 0 0]

def spillStore (shadow : Reg) (low : Half) : List Word :=
  [emit .movi 0 0 low, emit .loadImm32 0 0 0x0006, emit .st 0 shadow 0, emit .movi 0 0 0]

def spillLoads : List Word := (if isSrc insn 16 then spillLoad 2 0x4000 else []) ++
    (if isSrc insn 17 then spillLoad 1 0x4004 else [])

def spillStores : List Word := (if isDst insn 16 then spillStore 2 0x4000 else []) ++
    (if isDst insn 17 then spillStore 1 0x4004 else [])

end Translator

structure Translator where
  items : List Translator.MbcEmit
  errors : List Translator.TranslateError
  pcMap : List Nat

namespace Translator

def new : Translator := ⟨[], [], []⟩

variable (t : Translator)

def append (items : List MbcEmit) : Translator :=
  { t with items := t.items ++ items }

def recordPc : Translator := { t with pcMap := t.pcMap ++ [t.items.length] }

/-- One turn of the pass 1 loop. -/
def expand (idx : Nat) (insn : Word) : Translator :=
  let t := t.recordPc
  let t := t.append ((spillLoads insn).map .concrete)
  let t :=
    match translateInsn insn (BitVec.ofNat 32 (idx * 4)) with
    | .ok items => t.append items
    | .error e => { t with errors := t.errors ++ [e] }
  t.append ((spillStores insn).map .concrete)

/-- Pass 1 from word index `idx` on, with the sentinel at the end. -/
def expandAll : Nat → List Word → Translator → Translator
  | _, [], t => t.recordPc
  | idx, insn :: insns, t => expandAll (idx + 1) insns (t.expand idx insn)

/-- The word for one item at MBC index `mbcIdx`. -/
def resolve (pcMap : List Nat) (mbcIdx : Nat) : MbcEmit → Except TranslateError Word
  | .concrete word => .ok word
  | .branch opcode target =>
    match pcMap[target.toNat / 4]? with
    | none => .error (.unmappedTarget target)
    | some targetMbcPc =>
      let offset : Int := (targetMbcPc : Int) - ((mbcIdx : Int) + 1)
      if -8388608 ≤ offset ∧ offset ≤ 8388607 then
        .ok (MbcInsn.encodeBranch opcode.toByte (BitVec.ofInt 32 offset))
      else .error (.branchTargetOutOfRange target mbcIdx)
  | .call target =>
    match pcMap[target.toNat / 4]? with
    | none => .error (.unmappedTarget target)
    | some targetMbcPc =>
      if 0x00FFFFFF < targetMbcPc then .error (.branchTargetOutOfRange target mbcIdx)
      else .ok (MbcInsn.encodeBranch Opcode.call.toByte (BitVec.ofNat 32 targetMbcPc))

/-- Pass 2 from MBC index `mbcIdx` on: the output, with a zero for each item
that cannot be resolved, and the errors. -/
def resolveAll (pcMap : List Nat) : Nat → List MbcEmit → List Word × List TranslateError
  | _, [] => ([], [])
  | mbcIdx, item :: items =>
    let (output, errors) := resolveAll pcMap (mbcIdx + 1) items
    match resolve pcMap mbcIdx item with
    | .ok word => (word :: output, errors)
    | .error e => (0 :: output, e :: errors)

def translateProgramInternal (rv32iWords : List Word) :
    Except (List TranslateError) (List Word × List Nat) :=
  let t := expandAll 0 rv32iWords new
  if t.errors ≠ [] then .error t.errors
  else
    let (output, errors) := resolveAll t.pcMap 0 t.items
    if errors ≠ [] then .error errors else .ok (output, t.pcMap)

def translateProgramWithMap (rv32iWords : List Word) :
    Except (List TranslateError) (List Word × List Word) :=
  match translateProgramInternal rv32iWords with
  | .error errors => .error errors
  | .ok (words, pcMap) => .ok (words, pcMap.map (BitVec.ofNat 32))

end Translator

end Unheaded.Mbc
