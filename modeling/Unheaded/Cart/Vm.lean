import Unheaded.Mbc.Isa

/-!
# The cartridge interpreter

`monad_common::cart`: one instruction (`step`), one budgeted call (`run`) and the resets before a
packet run or a tick job.
-/

namespace Unheaded.Cart

open Mbc Function MbcInsn

def STAGE_XDP : Byte := 0
def STAGE_TICK : Byte := 1

def N_PKT : Nat := 64
def N_TICK : Nat := 256
def ROM_WORDS_MAX : Half := 1024
def DATA_WORDS_MAX : Half := 1024
def DATA_BASE : Word := 0x1000

namespace Sys

def FIELD : Half := 0
def NOW_NS_LO : Half := 1
def VERDICT : Half := 2
def EMIT : Half := 3
def QUEUE : Half := 4
def YIELD : Half := 5

end Sys

namespace Status

def IDLE : Byte := 0
def YIELDED : Byte := 1
def DONE : Byte := 2

end Status

inductive FaultKind where
  | badOpcode | mem | pc | syscall | field | verdict | budget | loopBound
  deriving DecidableEq, Repr

/-- `cart::Step`; `cont` is `Continue`. -/
inductive Step where
  | cont
  | verdict (code : Byte)
  | yield
  | halt
  | fault (kind : FaultKind)
  deriving DecidableEq, Repr

/-- A ScoreJob feature snapshot, `[u32; FEAT_WORDS]`. -/
abbrev Features := BitVec 3 → Word

/-- `CartState`.  The window index is masked to six bits, so it is always in range. -/
structure CartState where
  regs : Reg → Word
  mem : BitVec 6 → Word
  pc : Half
  flags : Byte
  status : Byte
  insns : Word
  backEdges : Word
  gen : Word

structure CartCfg where
  stage : Byte
  maxInsn : Half
  romWords : Half
  dataWords : Half
  entry : Half
  loopBound : Half

/-- The trait `CartIo`: the cartridge's only inputs and outputs. -/
class CartIo (ι : Type) where
  field : ι → Word → Option Word × ι
  nowNsLo : ι → Word × ι
  emit : ι → Word → Word → Word → ι
  queue : ι → Features → ι

/-- The run parameters with the ROM and DATA words behind them. -/
structure Cartridge where
  cfg : CartCfg
  rom : Word → Option Word
  data : Word → Option Word

/-- What a call returns, with the state and the I/O it leaves. -/
structure Ran (ι : Type) where
  result : Step
  st : CartState
  io : ι

namespace CartState

def zeroed : CartState where
  regs _ := 0
  mem _ := 0
  pc := 0
  flags := 0
  status := 0
  insns := 0
  backEdges := 0
  gen := 0

variable (st : CartState)

def setReg (r : Reg) (v : Word) : CartState :=
  { st with regs := update st.regs r v }

def setFlags (result : Word) (carry : Bool) : CartState :=
  { st with flags :=
      Flag.pack (decide (result = 0)) (decide (result &&& 0x80000000 ≠ 0)) carry }

def setResult (d : Reg) (result : Word) (carry : Bool) : CartState :=
  (st.setReg d result).setFlags result carry

def resetInsns : CartState := { st with insns := 0 }

def withStatus (status : Byte) : CartState := { st with status := status }

end CartState

def memIndex (addr : Word) : BitVec 6 := (addr >>> 2).setWidth 6

namespace Cartridge

variable {ι : Type} (p : Cartridge)

variable (st : CartState)

/-- A taken branch: outside the ROM it faults, and a back-edge counts against
the loop bound. -/
def branchTo (io : ι) (pc target : Word) : Ran ι :=
  if p.cfg.romWords.setWidth 32 ≤ target then ⟨.fault .pc, st.withStatus Status.DONE, io⟩
  else if target ≤ pc then
    let st := { st with backEdges := st.backEdges + 1 }
    if p.cfg.loopBound.setWidth 32 < st.backEdges ∨ p.cfg.stage = STAGE_XDP then
      ⟨.fault .loopBound, st.withStatus Status.DONE, io⟩
    else ⟨.cont, { st with pc := target.setWidth 16 }, io⟩
  else ⟨.cont, { st with pc := target.setWidth 16 }, io⟩

def branchIf (io : ι) (pc w : Word) (taken : Bool) : Ran ι :=
  if taken then p.branchTo st io pc (pc + 1 + branchOffset w) else ⟨.cont, st, io⟩

/-- The word behind a load: the flow window or the DATA window. -/
def loadWord (addr : Word) : Option Word :=
  if addr < 0x100 then some (st.mem (memIndex addr))
  else if DATA_BASE ≤ addr ∧ addr - DATA_BASE < p.cfg.dataWords.setWidth 32 * 4 then
    p.data ((addr - DATA_BASE) >>> 2)
  else none

def load (io : ι) (d : Reg) (addr : Word) : Ran ι :=
  match p.loadWord st addr with
  | some v => if addr &&& 3 = 0 then ⟨.cont, st.setReg d v, io⟩ else ⟨.fault .mem, st, io⟩
  | none => ⟨.fault .mem, st, io⟩

def loadByte (io : ι) (d : Reg) (addr : Word) : Ran ι :=
  match p.loadWord st addr with
  | some v => ⟨.cont, st.setReg d ((v >>> ((addr &&& 3) * 8).toNat) &&& 0xFF), io⟩
  | none => ⟨.fault .mem, st, io⟩

def store (io : ι) (addr v : Word) : Ran ι :=
  if addr < 0x100 ∧ addr &&& 3 = 0 then
    ⟨.cont, { st with mem := update st.mem (memIndex addr) v }, io⟩
  else ⟨.fault .mem, st, io⟩

variable [CartIo ι]

variable (st : CartState)

def syscall (io : ι) (n : Half) : Ran ι :=
  if n = Sys.FIELD ∧ p.cfg.stage = STAGE_XDP then
    match CartIo.field io (st.regs 1) with
    | (some v, io) => ⟨.cont, st.setReg 0 v, io⟩
    | (none, io) => ⟨.fault .field, st, io⟩
  else if n = Sys.NOW_NS_LO then
    let (now, io) := CartIo.nowNsLo io
    ⟨.cont, st.setReg 0 now, io⟩
  else if n = Sys.VERDICT ∧ p.cfg.stage = STAGE_XDP then
    if st.regs 1 = 0 ∨ st.regs 1 = 1 then ⟨.verdict ((st.regs 1).setWidth 8), st, io⟩
    else ⟨.fault .verdict, st, io⟩
  else if n = Sys.EMIT then
    ⟨.cont, st, CartIo.emit io (st.regs 1) (st.regs 2) (st.regs 3)⟩
  else if n = Sys.QUEUE ∧ p.cfg.stage = STAGE_XDP then
    let a := st.regs 1
    if a &&& 3 ≠ 0 ∨ 224 < a then ⟨.fault .mem, st, io⟩
    else
      let feat : Features := fun i => st.mem ((a >>> 2).setWidth 6 + i.setWidth 6)
      ⟨.cont, st, CartIo.queue io feat⟩
  else if n = Sys.YIELD ∧ p.cfg.stage ≠ STAGE_XDP then
    ⟨.yield, st.withStatus Status.YIELDED, io⟩
  else ⟨.fault .syscall, st, io⟩

/-- The body of `step`: the word `w` fetched at `pc`, with the state's pc and
instruction count already advanced. -/
def execute (io : ι) (pc w : Word) : Ran ι :=
  let d := dst w
  let s := src w
  let imm : Word := (imm16 w).setWidth 32
  let simm := imm16Signed w
  let rd := st.regs d
  let rs := st.regs s
  let f := st.flags
  match opcode? w with
  | some .nop => ⟨.cont, st, io⟩
  | some .add => ⟨.cont, st.setResult d (rd + rs) (addCarry rd rs), io⟩
  | some .sub => ⟨.cont, st.setResult d (rd - rs) (subBorrow rd rs), io⟩
  | some .mul => ⟨.cont, st.setResult d (rd * rs) false, io⟩
  | some .and => ⟨.cont, st.setResult d (rd &&& rs) false, io⟩
  | some .or => ⟨.cont, st.setResult d (rd ||| rs) false, io⟩
  | some .xor => ⟨.cont, st.setResult d (rd ^^^ rs) false, io⟩
  | some .not => ⟨.cont, st.setResult d (~~~rd) false, io⟩
  | some .shl => ⟨.cont, st.setResult d (rd <<< shamt imm) false, io⟩
  | some .shr => ⟨.cont, st.setResult d (rd >>> shamt imm) false, io⟩
  | some .sar => ⟨.cont, st.setResult d (rd.sshiftRight (shamt imm)) false, io⟩
  | some .shlr => ⟨.cont, st.setResult d (rd <<< shamt rs) false, io⟩
  | some .shrr => ⟨.cont, st.setResult d (rd >>> shamt rs) false, io⟩
  | some .sarr => ⟨.cont, st.setResult d (rd.sshiftRight (shamt rs)) false, io⟩
  | some .mulh => ⟨.cont, st.setResult d (mulHighSigned rd rs) false, io⟩
  | some .mov => ⟨.cont, st.setReg d rs, io⟩
  | some .movi => ⟨.cont, st.setReg d imm, io⟩
  | some .loadImm32 => ⟨.cont, st.setReg d ((imm <<< 16) ||| (rd &&& 0xFFFF)), io⟩
  | some .addi => ⟨.cont, st.setResult d (rd + simm) (addCarry rd simm), io⟩
  | some .cmp => ⟨.cont, st.setFlags (rd - rs) (subBorrow rd rs), io⟩
  | some .jmp => p.branchIf st io pc w true
  | some .jz => p.branchIf st io pc w (f &&& Flag.Z != 0)
  | some .jnz => p.branchIf st io pc w (f &&& Flag.Z == 0)
  | some .jn => p.branchIf st io pc w (f &&& Flag.N != 0)
  | some .jp => p.branchIf st io pc w (f &&& Flag.N == 0)
  | some .jc => p.branchIf st io pc w (f &&& Flag.C != 0)
  | some .jnc => p.branchIf st io pc w (f &&& Flag.C == 0)
  | some .ld => p.load st io d (rs + simm)
  | some .ldb => p.loadByte st io d (rs + simm)
  | some .st => store st io (rd + simm) rs
  | some .syscall => p.syscall st io (imm16 w)
  | some .halt => ⟨.halt, st, io⟩
  | _ => ⟨.fault .badOpcode, st, io⟩

/-- The end of `step`: every result but `Continue` and `Yield` ends the run. -/
def settle (r : Ran ι) : Ran ι :=
  if r.result ≠ .cont ∧ r.result ≠ .yield then { r with st := r.st.withStatus Status.DONE } else r

/-- The state with pc and instruction count advanced past the word at `pc`. -/
def advance : CartState :=
  { st with pc := (st.pc.setWidth 32 + 1).setWidth 16, insns := st.insns + 1 }

def step (io : ι) : Ran ι :=
  let pc : Word := st.pc.setWidth 32
  if p.cfg.romWords.setWidth 32 ≤ pc then ⟨.fault .pc, st.withStatus Status.DONE, io⟩
  else
    match p.rom pc with
    | none => ⟨.fault .pc, st.withStatus Status.DONE, io⟩
    | some w => settle (p.execute (advance st) io pc w)

/-- `cart::run_out`: the budget is spent. -/
def runOut (io : ι) : Ran ι :=
  if p.cfg.stage = STAGE_TICK then ⟨.yield, st.withStatus Status.YIELDED, io⟩
  else ⟨.fault .budget, st.withStatus Status.DONE, io⟩

def runOne (io : ι) : Ran ι :=
  if p.cfg.maxInsn.setWidth 32 ≤ st.insns then p.runOut st io else p.step st io

/-- The loop of `cart::run`, with `n` iterations left. -/
def runLoop : Nat → CartState → ι → Ran ι
  | 0, st, io => p.runOut st io
  | n + 1, st, io =>
    let r := p.runOne st io
    if r.result = .cont then runLoop n r.st r.io else r

/-- `cart::run::<N>`. -/
def run (n : Nat) (st : CartState) (io : ι) : Ran ι := p.runLoop n st.resetInsns io

end Cartridge

/-- `cart::begin_run`: the window and the generation persist. -/
def beginRun (st : CartState) (entry : Half) : CartState :=
  { st with
    regs := fun _ => 0
    pc := entry
    flags := 0
    status := Status.IDLE
    insns := 0
    backEdges := 0 }

/-- `cart::begin_job`: the features, then zeros. -/
def beginJob (st : CartState) (entry : Half) (feat : Features) : CartState :=
  { beginRun st entry with mem := fun i => if i < 8 then feat (i.setWidth 3) else 0 }

end Unheaded.Cart
