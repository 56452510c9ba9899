import Unheaded.Mbc.HostChecked
import Unheaded.Mbc.HostProcesses

/-!
# Host emulator: instructions that panic

The dispatch of the calls, the instructions and a step with their run-time checks.
-/

namespace Unheaded.Mbc

open Lib BitVec MbcInsn Cpu

namespace Cpu.Checked

variable (c : Cpu)

/-- The `INT 0x80` dispatch. -/
def linuxSyscall : Option ExecResult :=
  let nr := c.state.regs 0
  if !c.fuzixPermissive && Lsys.isPermissive nr then some (.ok (c.setReg 0 (negErrno Lsys.ENOSYS)))
  else if nr = Lsys.SYS_EXIT then sysExit c
  else if nr = Lsys.SYS_WRITE then (sysWrite c).map .ok
  else if nr = Lsys.SYS_BRK then some (.ok c.sysBrk)
  else if nr = Lsys.SYS_GETPID then some (.ok (c.setReg 0 c.instanceId))
  else if nr = Lsys.SYS_CLOCK_GETTIME then (sysClockGettime c).map .ok
  else if nr = Lsys.SYS_NANOSLEEP then (sysNanosleep c).map .ok
  else if nr = Lsys.SYS_READ_BLOCK then (sysBlock c false).map .ok
  else if nr = Lsys.SYS_WRITE_BLOCK then (sysBlock c true).map .ok
  else if nr = Lsys.SYS_FORK then (sysFork c false).map .ok
  else if nr = Lsys.SYS_VFORK then (sysFork c true).map .ok
  else if nr = Lsys.SYS_SCHED_YIELD then
    (if 1 < c.state.numProcesses.toNat then schedulerContextSwitch c else some c).map
      fun c => .ok (c.setReg 0 0)
  else if nr = Lsys.SYS_READ then (sysRead c).map .ok
  else if nr = Lsys.SYS_OPEN then some (.ok (c.setReg 0 3))
  else if nr = Lsys.SYS_CLOSE then some (.ok (c.setReg 0 0))
  else if nr = Lsys.SYS_WAITPID then (sysWaitpid c).map .ok
  else if nr = Lsys.SYS_SET_PAGE_DIR then
    some (.ok ({ c with state := { c.state with pageDirBase := c.state.regs 1 } }.setReg 0 0))
  else if nr = Lsys.SYS_ENABLE_MMU then
    some (.ok ({ c with state := { c.state with mmuEnabled := 1 } }.setReg 0 0))
  else if nr = Lsys.SYS_FLUSH_TLB then some (.ok (c.flushTlb.setReg 0 0))
  else if nr = Lsys.SYS_EXECVE then some (.ok c.sysExecve)
  else if nr = Lsys.SYS_GETUID ∨ nr = Lsys.SYS_GETGID ∨ nr = Lsys.SYS_GETEUID ∨
      nr = Lsys.SYS_GETEGID ∨ nr = Lsys.SYS_SETUID ∨ nr = Lsys.SYS_SETGID then
    some (.ok (c.setReg 0 0))
  else if nr = Lsys.SYS_DUP then some (.ok (c.setReg 0 (c.state.regs 1)))
  else if nr = Lsys.SYS_DUP2 then some (.ok (c.setReg 0 (c.state.regs 2)))
  else if nr = Lsys.SYS_SIGNAL then (sysSignal c).map .ok
  else if nr = Lsys.SYS_KILL then some (.ok (c.setReg 0 0))
  else if nr = Lsys.SYS_STAT ∨ nr = Lsys.SYS_FSTAT then (sysStat c).map .ok
  else if nr = Lsys.SYS_LSEEK then some (.ok (c.setReg 0 0))
  else if nr = Lsys.SYS_GETPPID then some (.ok (c.setReg 0 0))
  else if nr = Lsys.SYS_UMASK then some (.ok (c.setReg 0 0o22))
  else if nr = Lsys.SYS_SYNC then some (.ok (c.setReg 0 0))
  else if nr = Lsys.SYS_TIMES then some (.ok (c.setReg 0 0))
  else if nr = Lsys.SYS_IOCTL then (sysIoctl c).map .ok
  else if nr = Lsys.SYS_PIPE then (sysPipe c).map .ok
  else if nr = Lsys.SYS_FCNTL then some (.ok (c.setReg 0 0))
  else if nr = Lsys.SYS_ACCESS then some (.ok (c.setReg 0 0))
  else if nr = Lsys.SYS_CHDIR then some (.ok (c.setReg 0 0))
  else if nr = Lsys.SYS_TIME then (checkedDiv c.ticksMs 1000).map fun secs => .ok (c.setReg 0 secs)
  else some (.ok (c.setReg 0 (negErrno Lsys.ENOSYS)))

theorem some_ite {α : Type _} {p : Prop} [Decidable p] {x y : Option α} {a b : α}
    (yes : p → x = some a) (no : ¬ p → y = some b) :
    (if p then x else y) = some (if p then a else b) := by
  split
  next h => exact yes h
  next h => exact no h

theorem linuxSyscall_eq {c : Cpu} (seated : Seated c)
    (fits : c.state.regs 0 = Lsys.SYS_NANOSLEEP → sleepMs c < 2 ^ 32) :
    linuxSyscall c = some c.linuxSyscall := by
  have ok {x : Option Cpu} {c' : Cpu} (goes : x = some c') :
      x.map ExecResult.ok = some (.ok c') := by
    rw [goes]
    rfl
  unfold linuxSyscall Cpu.linuxSyscall
  repeat' with_reducible refine some_ite (fun _ => ?_) (fun _ => ?_)
  all_goals first
    | rfl
    | skip
  · exact sysExit_eq seated
  · exact ok sysWrite_eq
  · exact ok sysClockGettime_eq
  · next sleeps => exact ok (sysNanosleep_eq.trans (if_pos (fits sleeps)))
  · exact ok (sysBlock_eq false)
  · exact ok (sysBlock_eq true)
  · exact ok (sysFork_eq seated false)
  · exact ok (sysFork_eq seated true)
  · rw [schedulerContextSwitch_eq seated]
    split
    next => rfl
    next => rfl
  · exact ok sysRead_eq
  · exact ok (sysWaitpid_eq seated)
  · exact ok sysSignal_eq
  · exact ok sysStat_eq
  · exact ok sysIoctl_eq
  · exact ok sysPipe_eq

theorem linuxSyscall_none {c : Cpu} (sleeps : c.state.regs 0 = Lsys.SYS_NANOSLEEP)
    (long : ¬ sleepMs c < 2 ^ 32) : linuxSyscall c = none := by
  have stops : sysNanosleep c = none := sysNanosleep_eq.trans (if_neg long)
  have kept : (!c.fuzixPermissive && Lsys.isPermissive Lsys.SYS_NANOSLEEP) = false := by
    rw [show Lsys.isPermissive Lsys.SYS_NANOSLEEP = false from by decide, Bool.and_false]
  unfold linuxSyscall
  dsimp only
  rw [sleeps, kept, stops]
  rfl

def pushInterrupt (value : Word) : Option Cpu := do
  let sp := c.state.regs REG_SP - 4
  let c := c.setReg REG_SP sp
  let ram ← c.ram.writeGuarded (sp >>> 2).toNat value
  some (c.withRam ram)

def enterVector (vector : Byte) : Option Cpu := do
  let c ← pushInterrupt c (c.state.flags.setWidth 32)
  let c ← pushInterrupt c c.state.pc
  let c := { c with state := { c.state with interruptsEnabled := 0 } }
  let ivtAddr := (← checkedMul (vector.setWidth 32) (4 : Word)) >>> 2
  let handler ← memReadWord c ivtAddr.toNat
  some (c.withPc handler)

def intInsn (imm : Word) : Option ExecResult :=
  let vector : Byte := (imm &&& 0xFF).setWidth 8
  if vector = 0x80 then linuxSyscall c else (enterVector c vector).map .ok

def iret : Option Cpu := do
  let spPc := (c.state.regs REG_SP >>> 2).toNat
  let c ← c.ram.readThen spPc c.withPc c
  let c := c.setReg REG_SP (c.state.regs REG_SP + 4)
  let spFlags := (c.state.regs REG_SP >>> 2).toNat
  let c ← c.ram.readThen spFlags (fun word => c.withFlags (word.setWidth 8)) c
  let c := c.setReg REG_SP (c.state.regs REG_SP + 4)
  some { c with state := { c.state with interruptsEnabled := 1 } }

theorem pushInterrupt_eq (value : Word) : pushInterrupt c value = some (c.pushInterrupt value) := by
  rw [pushInterrupt, Cpu.pushInterrupt, bind_of_some (Store.writeGuarded_eq _ _ _)]

theorem enterVector_eq (vector : Byte) : enterVector c vector = some (c.enterVector vector) := by
  have entry : checkedMul (vector.setWidth 32) (4 : Word) = some (vector.setWidth 32 * 4) := by
    refine checkedMul_of_fits ?_
    rw [toNat_setWidth, show (4 : Word).toNat = 4 from rfl]
    omega
  unfold enterVector Cpu.enterVector
  rw [bind_of_some (pushInterrupt_eq _ _), bind_of_some (pushInterrupt_eq _ _),
    bind_of_some entry, bind_of_some (memReadWord_eq _ _)]

theorem iret_eq : iret c = some c.iret := by
  unfold iret Cpu.iret
  rw [bind_of_some (Store.readThen_eq _ _ _ _), bind_of_some (Store.readThen_eq _ _ _ _)]

theorem intInsn_eq {c : Cpu} {imm : Word} (seated : Seated c)
    (fits : (imm &&& 0xFF).setWidth 8 = (0x80 : Byte) →
      c.state.regs 0 = Lsys.SYS_NANOSLEEP → sleepMs c < 2 ^ 32) :
    intInsn c imm = some (c.intInsn imm) := by
  refine some_ite (fun call => linuxSyscall_eq seated (fits call)) (fun _ => ?_)
  rw [enterVector_eq]
  rfl

def register (field : Word) : Option Reg := checkedIndex 16 4 (field &&& 0x0F).toNat

def pushWord (value : Word) : Option Cpu :=
  let sp := c.state.regs REG_SP
  if sp.toNat < c.ram.len then do
    let ram ← c.ram.set? sp.toNat value
    some ((c.withRam ram).setReg REG_SP (sp - 1))
  else some c

def readCsr (csr : Nat) : Option Word := memReadWord c ((0xF000 + csr * 4) >>> 2)

def mret : Option Cpu := do
  let mepc ← readCsr c 0x341
  let mstatus ← readCsr c 0x300
  let mpp : Byte := ((mstatus >>> 11) &&& 0b11).setWidth 8
  some (({ c with state := { c.state with
    privLevel := mpp, pc := mepc >>> 2 } }).setReservation 0xFFFFFFFF)

def sret : Option Cpu := do
  let sepc ← readCsr c 0x141
  let sstatus ← readCsr c 0x100
  let spp : Byte := ((sstatus >>> 8) &&& 0b1).setWidth 8
  some (({ c with state := { c.state with
    privLevel := if spp = 0 then 3 else 1
    pc := sepc >>> 2 } }).setReservation 0xFFFFFFFF)

def storeConditional (d s : Reg) (imm : Word) : Option Cpu := do
  let address := c.state.regs s
  let valueReg ← register imm
  let c ←
    if c.state.reservationAddress = address then
      (memWriteWord c (address >>> 2).toNat (c.state.regs valueReg)).map (·.setReg d 0)
    else some (c.setReg d 1)
  some (c.setReservation 0xFFFFFFFF)

def exchange (d s : Reg) (simm : Word) : Option Cpu := do
  let wordAddr := ((c.state.regs s + simm) >>> 2).toNat
  let old ← memReadWord c wordAddr
  let c ← memWriteWord c wordAddr (c.state.regs d)
  some (c.setReg d old)

def compareAndSwap : Option Cpu := do
  let wordAddr := (c.state.regs 1 >>> 2).toNat
  let old ← memReadWord c wordAddr
  let c ←
    if old = c.state.regs 0 then
      (memWriteWord c wordAddr (c.state.regs 2)).map fun c => c.withFlags (c.state.flags ||| Flag.Z)
    else some (c.withFlags (c.state.flags &&& ~~~Flag.Z))
  some (c.setReg 0 old)

/-- `execute_insn`: the instructions with a check of their own. -/
def executeInsn (w : Word) : Option ExecResult := do
  let d ← register (w >>> 20)
  let s ← register (w >>> 16)
  let imm : Word := (imm16 w).setWidth 32
  let simm := imm16Signed w
  let rd := c.state.regs d
  let rs := c.state.regs s
  match opcode? w with
  | some .div =>
    if rs = 0 then some (.ok ((c.setReg d 0xFFFFFFFF).withFlags Flag.C))
    else (checkedDiv rd rs).map fun result => .ok (c.setResult d result false)
  | some .mod =>
    if rs = 0 then some (.ok (c.setReg d 0))
    else (checkedRem rd rs).map fun result => .ok (c.setResult d result false)
  | some .shl => (checkedShl rd (shamt imm)).map fun result => .ok (c.setResult d result false)
  | some .shr => (checkedShr rd (shamt imm)).map fun result => .ok (c.setResult d result false)
  | some .sar => (checkedSar rd (shamt imm)).map fun result => .ok (c.setResult d result false)
  | some .shlr => (checkedShl rd (shamt rs)).map fun result => .ok (c.setResult d result false)
  | some .shrr => (checkedShr rd (shamt rs)).map fun result => .ok (c.setResult d result false)
  | some .sarr => (checkedSar rd (shamt rs)).map fun result => .ok (c.setResult d result false)
  | some .mulh =>
    (checkedMulSigned (rd.signExtend 64) (rs.signExtend 64)).map fun product =>
      .ok (c.setResult d ((product.sshiftRight 32).setWidth 32) false)
  | some .mulhu =>
    (checkedMul (rd.setWidth 64) (rs.setWidth 64)).map fun (product : BitVec 64) =>
      .ok (c.setResult d ((product >>> 32).setWidth 32) false)
  | some .push => (pushWord c rd).map .ok
  | some .pop =>
    let sp := c.state.regs REG_SP + 1
    c.ram.readThen sp.toNat (fun word => .ok ((c.setReg d word).setReg REG_SP sp)) (.ok c)
  | some .call => (pushWord c c.state.pc).map fun c => .ok (c.withPc (branchRaw w))
  | some .ret =>
    let sp := c.state.regs REG_SP + 1
    c.ram.readThen sp.toNat (fun word => .ok ((c.withPc word).setReg REG_SP sp)) (.ok c)
  | some .callr => (pushWord c c.state.pc).map fun c => .ok (c.withPc (c.state.regs s))
  | some .ld => do
    let (addr, c) ← translateAddress c (rs + simm)
    let word ← memReadWord c (addr.toNat >>> 2)
    some (.ok (c.setReg d word))
  | some .st => do
    let (addr, c) ← translateAddress c (rd + simm)
    (memWriteWord c (addr.toNat >>> 2) rs).map .ok
  | some .ldb => do
    let (addr, c) ← translateAddress c (rs + simm)
    let byte ← memReadByte c addr.toNat
    some (.ok (c.setReg d (byte.setWidth 32)))
  | some .stb => do
    let (addr, c) ← translateAddress c (rd + simm)
    (memWriteByte c addr.toNat (rs.setWidth 8)).map .ok
  | some .ldh => do
    let (addr, c) ← translateAddress c (rs + simm)
    let half ← memReadHalf c addr.toNat
    some (.ok (c.setReg d (half.setWidth 32)))
  | some .sth => do
    let (addr, c) ← translateAddress c (rd + simm)
    (memWriteHalf c addr.toNat (rs.setWidth 16)).map .ok
  | some .xchg => (exchange c d s simm).map .ok
  | some .cas => (compareAndSwap c).map .ok
  | some .mret => (mret c).map .ok
  | some .sret => (sret c).map .ok
  | some .lrW =>
    (memReadWord c (rs >>> 2).toNat).map fun word =>
      .ok ((c.setReg d word).setReservation rs)
  | some .scW => (storeConditional c d s imm).map .ok
  | some .int => intInsn c imm
  | some .iret => (iret c).map .ok
  | _ => some (c.executeInsn w)

section Instructions

variable {c : Cpu}

theorem nibble_eq (field : Word) : register field = some ((field &&& 0x0F).setWidth 4) := by
  have small : (field &&& 0x0F).toNat < 16 := by
    exact Nat.lt_of_le_of_lt Nat.and_le_right (by decide)
  exact if_pos small

theorem shamt_lt (w : Word) : shamt w < 32 := by
  exact Nat.lt_of_le_of_lt Nat.and_le_right (by decide)

theorem pushWord_eq (c : Cpu) (value : Word) : pushWord c value = some (c.pushWord value) := by
  unfold pushWord Cpu.pushWord
  dsimp only
  split
  next inside =>
    have written : c.ram.set? (c.state.regs REG_SP).toNat value =
        some (c.ram.set (c.state.regs REG_SP).toNat value) := if_pos inside
    rw [bind_of_some written]
  next => rfl

theorem mret_eq (c : Cpu) : mret c = some c.mret := by
  unfold mret Cpu.mret readCsr Cpu.readCsr
  rw [bind_of_some (memReadWord_eq _ _), bind_of_some (memReadWord_eq _ _)]

theorem sret_eq (c : Cpu) : sret c = some c.sret := by
  unfold sret Cpu.sret readCsr Cpu.readCsr
  rw [bind_of_some (memReadWord_eq _ _), bind_of_some (memReadWord_eq _ _)]

theorem valueReg_eq (imm : Half) : register (imm.setWidth 32) = some (imm.setWidth 4) := by
  rw [nibble_eq]
  refine congrArg some (eq_of_toNat_eq ?_)
  rw [toNat_setWidth, toNat_and, toNat_setWidth, toNat_setWidth,
    show (0x0F : Word).toNat = 2 ^ 4 - 1 from rfl, Nat.and_two_pow_sub_one_eq_mod]
  omega

theorem storeConditional_eq (c : Cpu) (d s : Reg) (imm : Half) :
    storeConditional c d s (imm.setWidth 32) = some (c.storeConditional d s imm) := by
  rw [storeConditional, Cpu.storeConditional, bind_of_some (valueReg_eq imm)]
  dsimp only
  split
  next =>
    rw [memWriteWord_eq]
    rfl
  next => rfl

theorem exchange_eq (c : Cpu) (d s : Reg) (simm : Word) :
    exchange c d s simm = some (c.exchange d s simm) := by
  unfold exchange Cpu.exchange
  rw [bind_of_some (memReadWord_eq _ _), bind_of_some (memWriteWord_eq _ _ _)]

theorem compareAndSwap_eq (c : Cpu) : compareAndSwap c = some c.compareAndSwap := by
  rw [compareAndSwap, Cpu.compareAndSwap, bind_of_some (memReadWord_eq _ _)]
  dsimp only
  split
  next =>
    rw [memWriteWord_eq]
    rfl
  next => rfl

theorem signedProduct_eq (a b : Word) : checkedMulSigned (a.signExtend 64) (b.signExtend 64) =
      some (a.signExtend 64 * b.signExtend 64) := by
  refine if_pos ?_
  rw [toInt_signExtend_of_le (by decide), toInt_signExtend_of_le (by decide)]
  have magnitude (x : Word) : x.toInt.natAbs ≤ 2 ^ 31 := by
    have low := le_toInt x
    have high := toInt_lt (x := x)
    omega
  have product : (a.toInt * b.toInt).natAbs ≤ 2 ^ 31 * 2 ^ 31 := by
    rw [Int.natAbs_mul]
    exact Nat.mul_le_mul (magnitude a) (magnitude b)
  omega

theorem unsignedProduct_eq (a b : Word) :
    checkedMul (a.setWidth 64) (b.setWidth 64) = some (a.setWidth 64 * b.setWidth 64) := by
  refine checkedMul_of_fits ?_
  calc a.toNat * b.toNat < 2 ^ 32 * 2 ^ 32 := Nat.mul_lt_mul'' a.isLt b.isLt
    _ = 2 ^ 64 := by decide

def Oversleeps (c : Cpu) (w : Word) : Prop :=
  MbcInsn.CallsKernel w ∧ c.state.regs 0 = Lsys.SYS_NANOSLEEP ∧ ¬ sleepMs c < 2 ^ 32

theorem executeInsn_eq {w : Word} (seated : Seated c) (fits : ¬ Oversleeps c w) :
    executeInsn c w = some (c.executeInsn w) := by
  rw [executeInsn, Cpu.executeInsn, bind_of_some (nibble_eq _), bind_of_some (nibble_eq _)]
  dsimp only
  split
  next op =>
    rw [op]
    refine some_ite (fun _ => rfl) (fun nonzero => ?_)
    rw [checkedDiv_of_ne nonzero]
    rfl
  next op =>
    rw [op]
    refine some_ite (fun _ => rfl) (fun nonzero => ?_)
    rw [checkedRem_of_ne nonzero]
    rfl
  next op =>
    rw [op, checkedShl_of_lt (shamt_lt _)]
    rfl
  next op =>
    rw [op, checkedShr_of_lt (shamt_lt _)]
    rfl
  next op =>
    rw [op, checkedSar_of_lt (shamt_lt _)]
    rfl
  next op =>
    rw [op, checkedShl_of_lt (shamt_lt _)]
    rfl
  next op =>
    rw [op, checkedShr_of_lt (shamt_lt _)]
    rfl
  next op =>
    rw [op, checkedSar_of_lt (shamt_lt _)]
    rfl
  next op =>
    rw [op, signedProduct_eq]
    rfl
  next op =>
    rw [op, unsignedProduct_eq]
    rfl
  next op =>
    rw [op, pushWord_eq]
    rfl
  next op =>
    rw [op]
    exact Store.readThen_eq _ _ _ _
  next op =>
    rw [op, pushWord_eq]
    rfl
  next op =>
    rw [op]
    exact Store.readThen_eq _ _ _ _
  next op =>
    rw [op, pushWord_eq]
    rfl
  next op =>
    rw [op, bind_of_some (translateAddress_eq _ _), memReadWord_eq]
    rfl
  next op =>
    rw [op, bind_of_some (translateAddress_eq _ _), memWriteWord_eq]
    rfl
  next op =>
    rw [op, bind_of_some (translateAddress_eq _ _), memReadByte_eq]
    rfl
  next op =>
    rw [op, bind_of_some (translateAddress_eq _ _), memWriteByte_eq]
    rfl
  next op =>
    rw [op, bind_of_some (translateAddress_eq _ _), memReadHalf_eq]
    rfl
  next op =>
    rw [op, bind_of_some (translateAddress_eq _ _), memWriteHalf_eq]
    rfl
  next op =>
    rw [op, exchange_eq]
    rfl
  next op =>
    rw [op, compareAndSwap_eq]
    rfl
  next op =>
    rw [op, mret_eq]
    rfl
  next op =>
    rw [op, sret_eq]
    rfl
  next op =>
    rw [op, memReadWord_eq]
    rfl
  next op =>
    rw [op, storeConditional_eq]
    rfl
  next op =>
    rw [op]
    exact intInsn_eq seated fun call sleeps => not_not.mp fun long => fits ⟨⟨op, call⟩, sleeps, long⟩
  next op =>
    rw [op, iret_eq]
    rfl
  next => rfl

theorem executeInsn_none {w : Word} (long : Oversleeps c w) : executeInsn c w = none := by
  obtain ⟨⟨op, call⟩, sleeps, oversized⟩ := long
  rw [executeInsn, bind_of_some (nibble_eq _), bind_of_some (nibble_eq _)]
  dsimp only
  rw [op]
  rw [intInsn, if_pos call]
  exact linuxSyscall_none sleeps oversized

end Instructions

def dispatchInterrupt (c : Cpu) : Option Cpu :=
  if c.state.interruptPending ≠ 0 ∧ c.state.interruptsEnabled ≠ 0 then do
    let c ← enterVector c c.state.interruptVector
    some { c with state := { c.state with interruptPending := 0 } }
  else some c

def step (c : Cpu) : Option ExecResult :=
  if c.state.halted ≠ 0 then some (.err .halted c)
  else do
    let c ← dispatchInterrupt c
    let pc := c.state.pc.toNat
    if c.rom.length ≤ pc then some (.err .romFault c)
    else
      let w ← c.rom[pc]?
      let result ← executeInsn (c.withPc (c.state.pc + 1)) w
      some (counted result)

def SleepFits (c : Cpu) : Prop :=
  ∀ k, c.called = some k → k.state.regs 0 = Lsys.SYS_NANOSLEEP → sleepMs k < 2 ^ 32

section Steps

variable {c : Cpu}

theorem dispatchInterrupt_eq (c : Cpu) : dispatchInterrupt c = some c.dispatchInterrupt := by
  refine some_ite (fun _ => ?_) (fun _ => rfl)
  rw [bind_of_some (enterVector_eq _ _)]

theorem seated_of_started (started : c.Started) (pc : Word) :
    Seated (c.dispatchInterrupt.withPc pc) := by
  have desk := desk_of_shelf (dispatchInterrupt_shelf c)
  have pid : c.dispatchInterrupt.state.currentPid = c.state.currentPid :=
    congrArg Desk.currentPid desk
  have count : c.dispatchInterrupt.state.numProcesses = c.state.numProcesses :=
    congrArg Desk.numProcesses desk
  have running := started.running
  have few : c.state.numProcesses.toNat ≤ 8 := started.few
  refine ⟨?_, ?_⟩
  · change c.dispatchInterrupt.state.currentPid.toNat < 8
    rw [pid]
    omega
  · change c.dispatchInterrupt.state.numProcesses.toNat ≤ 8
    rw [count]
    exact few

theorem step_of_fetched {w : Word} (awake : c.state.halted = 0)
    (fetched : c.dispatchInterrupt.rom[c.dispatchInterrupt.state.pc.toNat]? = some w) :
    step c = (executeInsn (c.dispatchInterrupt.withPc (c.dispatchInterrupt.state.pc + 1)) w).map
        counted ∧
      c.step = counted ((c.dispatchInterrupt.withPc (c.dispatchInterrupt.state.pc + 1)).executeInsn
        w) := by
  have inside := (List.getElem?_eq_some_iff.mp fetched).1
  constructor
  · rw [step, if_neg (not_not.mpr awake), bind_of_some (dispatchInterrupt_eq c)]
    rw [if_neg (Nat.not_le.mpr inside), bind_of_some fetched]
    cases executeInsn (c.dispatchInterrupt.withPc (c.dispatchInterrupt.state.pc + 1)) w with
    | none => rfl
    | some result => rfl
  · rw [Cpu.step, if_neg (not_not.mpr awake)]
    dsimp only
    rw [fetched]
    rfl

theorem called_eq_some_iff {k : Cpu} : c.called = some k ↔ c.state.halted = 0 ∧
        ∃ w, c.dispatchInterrupt.rom[c.dispatchInterrupt.state.pc.toNat]? = some w ∧
          MbcInsn.CallsKernel w ∧
          k = c.dispatchInterrupt.withPc (c.dispatchInterrupt.state.pc + 1) := by
  unfold called
  constructor
  · intro h
    split at h
    next => cases h
    next awake =>
      dsimp only at h
      split at h
      next => cases h
      next w fetched =>
        split at h <;> cases h
        next kernel =>
          exact ⟨not_not.mp awake, w, fetched, kernel, rfl⟩
  · rintro ⟨awake, w, fetched, kernel, rfl⟩
    rw [if_neg (not_not.mpr awake)]
    dsimp only
    rw [fetched]
    exact if_pos kernel

theorem step_eq (started : c.Started) (fits : SleepFits c) : step c = some c.step := by
  by_cases awake : c.state.halted = 0
  · cases fetched : c.dispatchInterrupt.rom[c.dispatchInterrupt.state.pc.toNat]? with
    | none =>
      rw [step, Cpu.step, if_neg (not_not.mpr awake), if_neg (not_not.mpr awake),
        bind_of_some (dispatchInterrupt_eq c)]
      dsimp only
      rw [if_pos (List.getElem?_eq_none_iff.mp fetched), fetched]
    | some w =>
      obtain ⟨checked, plain⟩ := step_of_fetched awake fetched
      rw [checked, plain, executeInsn_eq (seated_of_started started _)]
      · rfl
      · rintro ⟨kernel, sleeps, long⟩
        exact long (fits _ (called_eq_some_iff.mpr ⟨awake, w, fetched, kernel, rfl⟩) sleeps)
  · rw [step, Cpu.step, if_pos awake, if_pos awake]

theorem step_none (long : ¬ SleepFits c) : step c = none := by
  obtain ⟨k, other⟩ := not_forall.mp long
  obtain ⟨call, rest⟩ := Classical.not_imp.mp other
  obtain ⟨sleeps, oversized⟩ := Classical.not_imp.mp rest
  obtain ⟨awake, w, fetched, kernel, rfl⟩ := called_eq_some_iff.mp call
  rw [(step_of_fetched awake fetched).1, executeInsn_none ⟨kernel, sleeps, oversized⟩]
  rfl

end Steps

/-- The machine after an event, if it does not panic. -/
def after (c : Cpu) : Input → Option Cpu
  | .step => (step c).map ExecResult.cpu
  | .key value => some { c with kbd := value }
  | .interrupt vector =>
    some { c with state := { c.state with interruptPending := 1, interruptVector := vector } }

def run (c : Cpu) (inputs : List Input) : Option Cpu := inputs.foldlM after c

def Fits (c : Cpu) (i : Input) : Prop := i = .step → SleepFits c

theorem after_eq {c : Cpu} {i : Input} (started : c.Started) (fits : Fits c i) :
    after c i = some (c.after i.event) := by
  cases i with
  | step =>
    rw [after, step_eq started (fits rfl)]
    rfl
  | key value => rfl
  | interrupt vector => rfl

theorem after_none {c : Cpu} {i : Input} (long : ¬ Fits c i) : after c i = none := by
  cases i with
  | step =>
    rw [after, step_none fun fits => long fun _ => fits]
    rfl
  | key value => exact absurd (fun same => nomatch same) long
  | interrupt vector => exact absurd (fun same => nomatch same) long

/-- No step of a run from reset panics, if and only if every `SYS_NANOSLEEP` of it
asks for a time that fits a word. -/
theorem reset_run_returns_iff (rom : List Word) (ram : Store Word) (fuzixPermissive : Bool)
    (inputs : List Input) : (run (reset rom ram fuzixPermissive) inputs).isSome ↔
      Along (fun c i => c.after i.event) Fits (reset rom ram fuzixPermissive) inputs :=
  foldlM_isSome_iff (fun (c : Cpu) i (started : c.Started) _ => started.after i)
    (fun _ _ started fits => after_eq started fits) (fun _ _ _ long => after_none long)
    (reset_started rom ram fuzixPermissive) inputs

/-- A program that asks to sleep for `0xFFFFFFFF` seconds. -/
def oversleep : List Word :=
  [encode Opcode.movi.toByte 2 0 0xFFFF, encode Opcode.loadImm32.toByte 2 0 0xFFFF,
    encode Opcode.movi.toByte 1 0 0x1000, encode Opcode.st.toByte 1 2 0,
    encode Opcode.movi.toByte 0 0 162, encode Opcode.int.toByte 0 0 0x80]

theorem oversleep_panics :
    run (reset oversleep new.ram false) (List.replicate 6 .step) = none := by
  decide +kernel

end Cpu.Checked

end Unheaded.Mbc
