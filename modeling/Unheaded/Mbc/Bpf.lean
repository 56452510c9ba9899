import Unheaded.Mbc.BpfMemory

/-!
# BPF interpreter: the execute loop

One iteration of the execute loop of `try_monad_cpu`.
-/

namespace Unheaded.Mbc

open Lib MbcInsn

namespace Bpf

/-- What one iteration does: it goes on, it breaks out of the loop, or it
enters a system arm. -/
inductive Iteration where
  | next (b : Bpf)
  | stop (b : Bpf)
  | system (b : Bpf)

/-- The `set_flags` of this engine: the sign is bit 31. -/
def bpfFlags (result : Word) (carry : Bool) : Byte :=
  Flag.pack (decide (result = 0)) (decide (result &&& 0x80000000 ≠ 0)) carry

variable (b : Bpf)

def setResult (d : Reg) (result : Word) (carry : Bool) : Bpf :=
  (b.setReg d result).withFlags (bpfFlags result carry)

def branchBy (w : Word) : Bpf := b.withPc (b.state.pc + branchOffset w)

def branchIf (w : Word) (taken : Bool) : Bpf := if taken then b.branchBy w else b

def push (d : Reg) : Bpf :=
  let b := b.setReg REG_SP (b.state.regs REG_SP - 4)
  b.memWriteWord (b.state.regs REG_SP >>> 2) (b.state.regs d)

def pop (d : Reg) : Bpf :=
  let b := b.setReg d (b.memReadWord (b.state.regs REG_SP >>> 2))
  b.setReg REG_SP (b.state.regs REG_SP + 4)

def rv2mbcBranchBase : Word :=
  if b.ascendLinux ∧ b.state.privLevel = 3 then b.state.rv2mbcBase else 0

def lookup (rvAddr : Word) : Option Word :=
  match b.rv2mbc.get? ((rvAddr >>> 2) + b.rv2mbcBranchBase).toNat with
  | some mbcIdx => if mbcIdx ≠ 0 then some mbcIdx else none
  | none => none

def DIAG_BASE : Word := 0xE0000 >>> 2
def CALLR_LOG_BASE : Word := 0xE1000 >>> 2

def reportRestart (opc : Opcode) (oldPc rvAddr : Word) : Bpf :=
  if b.state.pc = 0 then
    b.record DIAG_BASE [0xDEAD0001, opc.toByte.setWidth 32, oldPc, rvAddr, b.state.regs REG_SP]
  else b

def call (w : Word) : Bpf :=
  let b := b.setReg 14 (b.state.pc ||| RET_MBC_TAG)
  let target := branchRaw w
  let b := b.withPc target
  b.reportRestart .call (b.state.pc - 1) target

/-- An unmapped target is skipped: the pc stays on the next word. -/
def jmpr (d : Reg) : Bpf :=
  let oldPc := b.state.pc - 1
  let rvAddr := b.state.regs d
  let b :=
    match b.lookup rvAddr with
    | some mbcIdx => b.withPc mbcIdx
    | none =>
      b.record DIAG_BASE
        [0xDEAD0002, Opcode.jmpr.toByte.setWidth 32, oldPc, rvAddr, b.state.regs REG_SP,
          rvAddr >>> 2]
  b.reportRestart .jmpr oldPc rvAddr

/-- The link is written before the target register is read. -/
def callr (d : Reg) : Bpf :=
  let oldPc := b.state.pc - 1
  let b := b.setReg 14 (b.state.pc ||| RET_MBC_TAG)
  let rvAddr := b.state.regs d
  let rvWord := rvAddr >>> 2
  let b := b.record CALLR_LOG_BASE [rvAddr, rvWord, d.setWidth 32, oldPc]
  let b :=
    match b.lookup rvAddr with
    | some mbcIdx => (b.record (CALLR_LOG_BASE + 4) [mbcIdx, 0xCA110001]).withPc mbcIdx
    | none =>
      (b.record (CALLR_LOG_BASE + 4) [0xDEAD0003, rvWord]).record DIAG_BASE
        [0xDEAD0003, Opcode.callr.toByte.setWidth 32, oldPc, rvAddr, b.state.regs REG_SP, rvWord]
  b.reportRestart .callr oldPc rvAddr

/-- A tagged link is an MBC pc, any other a RISC-V address. -/
def ret : Bpf :=
  let link := b.state.regs 14
  if link &&& RET_MBC_TAG ≠ 0 then b.withPc (link &&& ~~~RET_MBC_TAG)
  else
    let b :=
      if link = 0 then
        b.record DIAG_BASE
          [0xDEAD0001, Opcode.ret.toByte.setWidth 32, b.state.pc - 1, link, b.state.regs REG_SP,
            b.state.regs 14]
      else b
    b.withPc ((b.lookup link).getD link)

/-- `cache_misses` counts loads, `cache_hits` stores. -/
def countLoad : Bpf :=
  { b with state := { b.state with cacheMisses := b.state.cacheMisses + 1 } }

def countStore : Bpf :=
  { b with state := { b.state with cacheHits := b.state.cacheHits + 1 } }

def load (d : Reg) (vaddr : Word) (extract : Word → Word → Word) : Bpf :=
  let (addr, b) := b.translateAddress vaddr
  (b.setReg d (extract addr (b.ramWord (addr >>> 2)))).countLoad

def exchange (d s : Reg) (simm : Word) : Bpf :=
  let wordAddr := (b.state.regs s + simm) >>> 2
  let old := b.memReadWord wordAddr
  (b.memWriteWord wordAddr (b.state.regs d)).setReg d old

def compareAndSwap : Bpf :=
  let wordAddr := b.state.regs 1 >>> 2
  let old := b.memReadWord wordAddr
  let b :=
    if old = b.state.regs 0 then
      let b := b.memWriteWord wordAddr (b.state.regs 2)
      b.withFlags (b.state.flags ||| Flag.Z)
    else b.withFlags (b.state.flags &&& ~~~Flag.Z)
  b.setReg 0 old

def setReservation (address : Word) : Bpf :=
  { b with state := { b.state with reservationAddress := address } }

def loadReserved (d s : Reg) : Bpf :=
  let addr := b.state.regs s
  (b.setReg d (b.memReadWord (addr >>> 2))).setReservation addr

def storeConditional (d s : Reg) (imm : Word) : Bpf :=
  let addr := b.state.regs s
  let valueReg : Reg := imm.setWidth 4
  let b :=
    if b.state.reservationAddress = addr then
      (b.memWriteWord (addr >>> 2) (b.state.regs valueReg)).setReg d 0
    else b.setReg d 1
  b.setReservation 0xFFFFFFFF

/-- The body of the loop for one word, with the pc already advanced. -/
def executeInsn (w : Word) : Iteration :=
  let d := dst w
  let s := src w
  let imm : Word := (imm16 w).setWidth 32
  let simm := imm16Signed w
  let rd := b.state.regs d
  let rs := b.state.regs s
  let flags := b.state.flags
  match opcode? w with
  | none => .next b
  | some .nop => .next b
  | some .add => .next (b.setResult d (rd + rs) (addCarry rd rs))
  | some .sub => .next (b.setResult d (rd - rs) (subBorrow rd rs))
  | some .mul => .next (b.setResult d (rd * rs) false)
  | some .div =>
    if rs = 0 then .next (b.setReg d 0xFFFFFFFF) else .next (b.setResult d (rd / rs) false)
  | some .mod =>
    if rs = 0 then .next (b.setReg d 0) else .next (b.setResult d (rd % rs) false)
  | some .neg => .next (b.setResult d (0 - rd) false)
  | some .and => .next (b.setResult d (rd &&& rs) false)
  | some .or => .next (b.setResult d (rd ||| rs) false)
  | some .xor => .next (b.setResult d (rd ^^^ rs) false)
  | some .not => .next (b.setResult d (~~~rd) false)
  | some .shl => .next (b.setResult d (rd <<< shamt imm) false)
  | some .shr => .next (b.setResult d (rd >>> shamt imm) false)
  | some .sar => .next (b.setResult d (rd.sshiftRight (shamt imm)) false)
  | some .shlr => .next (b.setResult d (rd <<< shamt rs) false)
  | some .shrr => .next (b.setResult d (rd >>> shamt rs) false)
  | some .sarr => .next (b.setResult d (rd.sshiftRight (shamt rs)) false)
  | some .mulh => .next (b.setResult d (mulHighSigned rd rs) false)
  | some .mulhu => .next (b.setResult d (mulHighUnsigned rd rs) false)
  | some .push => .next (b.push d)
  | some .pop => .next (b.pop d)
  | some .loadImm32 => .next (b.setReg d ((imm <<< 16) ||| (rd &&& 0xFFFF)))
  | some .addi => .next (b.setResult d (rd + simm) (addCarry rd simm))
  | some .mov => .next (b.setReg d rs)
  | some .movi => .next (b.setReg d imm)
  | some .cmp => .next (b.withFlags (bpfFlags (rd - rs) (subBorrow rd rs)))
  | some .jmp => .next (b.branchBy w)
  | some .jz => .next (b.branchIf w (flags &&& Flag.Z != 0))
  | some .jnz => .next (b.branchIf w (flags &&& Flag.Z == 0))
  | some .jn => .next (b.branchIf w (flags &&& Flag.N != 0))
  | some .jp => .next (b.branchIf w (flags &&& Flag.N == 0))
  | some .jc => .next (b.branchIf w (flags &&& Flag.C != 0))
  | some .jnc => .next (b.branchIf w (flags &&& Flag.C == 0))
  | some .call => .next (b.call w)
  | some .jmpr => .next (b.jmpr d)
  | some .callr => .next (b.callr d)
  | some .ret => .next b.ret
  | some .ld => .next (b.load d (rs + simm) (fun _ word => word))
  | some .st =>
    let (addr, b) := b.translateAddress (rd + simm)
    .next (b.memWriteWord (addr >>> 2) rs).countStore
  | some .ldb =>
    .next (b.load d (rs + simm) (fun addr word => (word >>> ((addr &&& 3).toNat * 8)) &&& 0xFF))
  | some .stb =>
    let (addr, b) := b.translateAddress (rd + simm)
    .next (b.memWriteByte addr (rs.setWidth 8)).countStore
  | some .ldh =>
    .next (b.load d (rs + simm) (fun addr word => (word >>> ((addr &&& 2).toNat * 8)) &&& 0xFFFF))
  | some .sth =>
    let (addr, b) := b.translateAddress (rd + simm)
    .next (b.memWriteHalf addr (rs.setWidth 16)).countStore
  | some .cli => .next { b with state := { b.state with interruptsEnabled := 0 } }
  | some .sti => .next { b with state := { b.state with interruptsEnabled := 1 } }
  | some .xchg => .next (b.exchange d s simm)
  | some .cas => .next b.compareAndSwap
  -- the default build has no arm for the next five: an unknown opcode does nothing
  | some .fence => .next b
  | some .lrW => .next (if b.ascendLinux then b.loadReserved d s else b)
  | some .scW => .next (if b.ascendLinux then b.storeConditional d s imm else b)
  | some .mret | some .sret => if b.ascendLinux then .system b else .next b
  | some .int | some .iret | some .syscall => .system b
  | some .halt => .stop b.setHalted

/-- Dispatch a pending interrupt before the fetch. -/
def dispatchInterrupt : Bpf :=
  if b.state.interruptPending ≠ 0 ∧ b.state.interruptsEnabled ≠ 0 then
    let b := b.setReg REG_SP (b.state.regs REG_SP - 4)
    let b := b.memWriteWord (b.state.regs REG_SP >>> 2) (b.state.flags.setWidth 32)
    let b := b.setReg REG_SP (b.state.regs REG_SP - 4)
    let b := b.memWriteWord (b.state.regs REG_SP >>> 2) b.state.pc
    let ivtAddr : Word := b.state.interruptVector.setWidth 32 * 4
    { b with state := { b.state with
        interruptsEnabled := 0
        pc := b.memReadWord (ivtAddr >>> 2)
        interruptPending := 0 } }
  else b

/-- `b"0123456789ABCDEF"`. -/
def hexDigit (nibble : BitVec 4) : Byte :=
  if nibble.toNat < 10 then 0x30 + nibble.setWidth 8 else 0x41 + (nibble.setWidth 8 - 10)

def traceBytes (pc : Word) : List Byte :=
  [hexDigit ((pc >>> 12).setWidth 4), hexDigit ((pc >>> 8).setWidth 4),
    hexDigit ((pc >>> 4).setWidth 4), hexDigit (pc.setWidth 4), 0x20]

def tracePc : Bpf :=
  if 0 < b.traceLeft.toNat then
    let b' := (traceBytes b.state.pc).foldl (fun b v => b.memWriteByte 0xC001 v) b
    { b' with traceLeft := b.traceLeft - 1 }
  else b

def countInsn : Bpf :=
  { b with state := { b.state with insnCount := b.state.insnCount + 1 } }

def RESTART_INSNS : Nat := 1000000

def fetch : Option Word :=
  if ROM_MAP_WORDS_DEFAULT ≤ b.state.pc.toNat then none
  else if b.state.pc = 0 ∧ RESTART_INSNS < b.state.insnCount.toNat then none
  else b.rom.get? b.state.pc.toNat

/-- One iteration of the execute loop. -/
def iterate : Iteration :=
  if b.state.halted ≠ 0 then .stop b
  else
    let b := b.dispatchInterrupt.tracePc
    match b.fetch with
    | none => .stop b.setHalted
    | some w =>
      match (b.withPc (b.state.pc + 1)).executeInsn w with
      | .next b => .next b.countInsn
      | .stop b => .stop b
      | .system b => .system b

/-- An iteration that reaches the end of the loop body. -/
def iterate? : Option Bpf :=
  match b.iterate with
  | .next b => some b
  | _ => none

/-! ## Where the BPF interpreter's indirect jumps land

`JMPR`, `CALLR` and `RET` read the address map and write diagnostics to RAM.
What matters to a program is the registers and the pc they leave.
-/

/-- The pc after an indirect jump to `rvAddr`: an unmapped address is skipped. -/
def landing (rvAddr : Word) : Word := (b.lookup rvAddr).getD b.state.pc

theorem lookup_congr {b b' : Bpf} (setting : b'.setting = b.setting) : b'.lookup = b.lookup := by
  have maps : b'.rv2mbc = b.rv2mbc := congrArg Setting.rv2mbc setting
  have feature : b'.ascendLinux = b.ascendLinux := congrArg Setting.ascendLinux setting
  have level : b'.state.privLevel = b.state.privLevel := congrArg Setting.privLevel setting
  have base : b'.state.rv2mbcBase = b.state.rv2mbcBase := congrArg Setting.rv2mbcBase setting
  funext rvAddr
  rw [lookup, lookup, rv2mbcBranchBase, rv2mbcBranchBase, maps, feature, level, base]

/-- A move to new registers and a new pc with all modes and maps kept. -/
structure Jumps (b : Bpf) (regs : Reg → Word) (pc : Word) (b' : Bpf) : Prop where
  regs : b'.state.regs = regs
  pc : b'.state.pc = pc
  setting : b'.setting = b.setting

theorem reportRestart_jumps (opc : Opcode) (oldPc rvAddr : Word) :
    b.Jumps b.state.regs b.state.pc (b.reportRestart opc oldPc rvAddr) := by
  rw [reportRestart]
  split
  · exact ⟨by rw [state_record], by rw [state_record], setting_record _ _ _⟩
  · exact ⟨rfl, rfl, rfl⟩

namespace Jumps

theorem trans {b b' b'' : Bpf} {regs regs' : Reg → Word} {pc pc' : Word}
    (first : b.Jumps regs pc b') (second : b'.Jumps regs' pc' b'') : b.Jumps regs' pc' b'' :=
  ⟨second.regs, second.pc, second.setting.trans first.setting⟩

theorem report {b b' : Bpf} {regs : Reg → Word} {pc : Word} (jumps : b.Jumps regs pc b')
    (opc : Opcode) (oldPc rvAddr : Word) : b.Jumps regs pc (b'.reportRestart opc oldPc rvAddr) := by
  have reported := jumps.trans (reportRestart_jumps b' opc oldPc rvAddr)
  rwa [jumps.regs, jumps.pc] at reported

end Jumps

variable (b : Bpf)

theorem jmpr_jumps (d : Reg) : b.Jumps b.state.regs (b.landing (b.state.regs d)) (b.jmpr d) := by
  rw [landing]
  apply Jumps.report
  cases b.lookup (b.state.regs d) with
  | some mbcIdx => exact ⟨rfl, rfl, rfl⟩
  | none => exact ⟨by rw [state_record], by rw [state_record]; rfl, setting_record _ _ _⟩

/-- The registers after `CALLR` wrote the link. -/
def linked : Reg → Word := Function.update b.state.regs 14 (b.state.pc ||| RET_MBC_TAG)

theorem callr_jumps (d : Reg) : b.Jumps b.linked (b.landing (b.linked d)) (b.callr d) := by
  rw [landing]
  apply Jumps.report
  have kept : ∀ vs, ((b.setReg 14 (b.state.pc ||| RET_MBC_TAG)).record CALLR_LOG_BASE vs).setting =
      b.setting := fun vs => setting_record _ _ _
  have target : (b.setReg 14 (b.state.pc ||| RET_MBC_TAG)).state.regs d = b.linked d := rfl
  rw [lookup_congr (kept _), target]
  cases b.lookup (b.linked d) with
  | some mbcIdx =>
    refine ⟨?_, rfl, ?_⟩
    · rfl
    · rw [setting_withPc]
      rfl
  | none =>
    refine ⟨?_, ?_, ?_⟩
    · rfl
    · rfl
    · rfl

def returnPc : Word :=
  let link := b.state.regs 14
  if link &&& RET_MBC_TAG ≠ 0 then link &&& ~~~RET_MBC_TAG else (b.lookup link).getD link

theorem ret_jumps : b.Jumps b.state.regs b.returnPc b.ret := by
  unfold ret returnPc
  dsimp only
  split
  · exact ⟨rfl, rfl, rfl⟩
  · split
    next zero =>
      rw [lookup_congr (setting_record _ _ _)]
      refine ⟨?_, rfl, ?_⟩
      · change (record _ _ _).state.regs = _
        rw [state_record]
      · rw [setting_withPc, setting_record]
    next => exact ⟨rfl, rfl, rfl⟩

end Bpf

end Unheaded.Mbc
