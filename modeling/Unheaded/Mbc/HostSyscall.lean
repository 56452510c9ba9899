import Unheaded.Mbc.HostMemory

/-!
# Host emulator: scheduler and software interrupts

The round-robin context switch, the `INT 0x80` dispatch with its FUZIX and Linux call numbers, and
the vectored interrupts.
-/

namespace Unheaded.Mbc

open Lib Function
open BitVec (ofNat)

def negErrno (n : Nat) : Word := BitVec.ofInt 32 (-(n : Int))

namespace Cpu

def unsuspendVforkParent (c : Cpu) : Cpu :=
  if c.suspendedMask ≠ 0 then { c with suspendedMask := 0 } else c

/-- The row the running process is saved in. -/
def saveSlot (c : Cpu) : ProcSlot where
  regs := c.state.regs
  pc := c.state.pc
  flags := c.state.flags.setWidth 32
  spCopy := c.state.regs REG_SP
  programBreak := c.state.programBreak
  pageDirBase := c.state.pageDirBase

/-- The search loop: the first pid from `pid` on that is not skipped, in at
most `tries` attempts. -/
def nextRunnable (skipMask : Word) (num : Nat) : Nat → Nat → Option Nat
  | 0, _ => none
  | tries + 1, pid =>
    if pid < num ∧ skipMask &&& (1 <<< pid) = 0 then some pid
    else nextRunnable skipMask num tries ((pid + 1) % num)

def schedulerContextSwitch (c : Cpu) : Cpu :=
  let oldPid := c.state.currentPid.toNat
  let num := c.state.numProcesses.toNat
  if num ≤ 1 then c
  else
    let c := { c with procTable := update c.procTable c.state.currentPid c.saveSlot }
    let skipMask := c.haltedMask ||| c.suspendedMask
    match nextRunnable skipMask num 8 ((oldPid + 1) % num) with
    | none => c
    | some nextPid =>
      if nextPid = oldPid then c
      else
        let load := c.procTable (ofNat 8 nextPid)
        { c with state := { c.state with
            reservationAddress := 0xFFFFFFFF
            regs := load.regs
            pc := load.pc
            flags := load.flags.setWidth 8
            programBreak := load.programBreak
            pageDirBase := load.pageDirBase
            currentPid := ofNat 8 nextPid } }

end Cpu

namespace Lsys

def SYS_EXIT : Word := 1
def SYS_FORK : Word := 2
def SYS_READ : Word := 3
def SYS_WRITE : Word := 4
def SYS_OPEN : Word := 5
def SYS_CLOSE : Word := 6
def SYS_WAITPID : Word := 7
def SYS_EXECVE : Word := 11
def SYS_CHDIR : Word := 12
def SYS_TIME : Word := 13
def SYS_LSEEK : Word := 19
def SYS_GETPID : Word := 20
def SYS_SETUID : Word := 23
def SYS_GETUID : Word := 24
def SYS_ACCESS : Word := 33
def SYS_SYNC : Word := 36
def SYS_KILL : Word := 37
def SYS_DUP : Word := 41
def SYS_PIPE : Word := 42
def SYS_TIMES : Word := 43
def SYS_BRK : Word := 45
def SYS_SETGID : Word := 46
def SYS_GETGID : Word := 47
def SYS_SIGNAL : Word := 48
def SYS_GETEUID : Word := 49
def SYS_GETEGID : Word := 50
def SYS_IOCTL : Word := 54
def SYS_FCNTL : Word := 55
def SYS_UMASK : Word := 60
def SYS_DUP2 : Word := 63
def SYS_GETPPID : Word := 64
def SYS_STAT : Word := 106
def SYS_FSTAT : Word := 108
def SYS_SCHED_YIELD : Word := 158
def SYS_NANOSLEEP : Word := 162
def SYS_VFORK : Word := 190
def SYS_READ_BLOCK : Word := 200
def SYS_WRITE_BLOCK : Word := 201
def SYS_SET_PAGE_DIR : Word := 250
def SYS_ENABLE_MMU : Word := 251
def SYS_FLUSH_TLB : Word := 252
def SYS_CLOCK_GETTIME : Word := 265

def EIO : Nat := 5
def ENOSYS : Nat := 38

def SIGNAL_TABLE_BASE : Word := 0xF0000
def SIGNAL_MAX_SLOTS : Word := 64

/-- The calls that fabricate a result; only the permissive build answers them. -/
def isPermissive (n : Word) : Bool :=
  [SYS_OPEN, SYS_CLOSE, SYS_GETUID, SYS_GETGID, SYS_GETEUID, SYS_GETEGID, SYS_SETUID,
   SYS_SETGID, SYS_DUP, SYS_DUP2, SYS_KILL, SYS_STAT, SYS_FSTAT, SYS_LSEEK, SYS_GETPPID,
   SYS_UMASK, SYS_SYNC, SYS_TIMES, SYS_IOCTL, SYS_PIPE, SYS_FCNTL, SYS_ACCESS,
   SYS_CHDIR].contains n

end Lsys

namespace Block

def RAMDISK_BASE_WORD : Nat := 0x200000
def TOTAL_BLOCKS : Nat := 8192
def WORDS_PER_BLOCK : Nat := 128
def BLOCK_SIZE : Word := 512

end Block

def MAX_PROCESSES : Nat := 8

/-- Copy `n` words upwards, one at a time, in one store. -/
def copyWords (ram : Store Word) (srcBase dstBase n : Nat) : Store Word :=
  (List.range n).foldl (fun ram w => ram.set (dstBase + w) (ram.getD (srcBase + w) 0)) ram

namespace Cpu

variable (c : Cpu)

/-- `SYS_EXIT`: mark the slot a zombie, then run something else or halt. -/
def sysExit : ExecResult :=
  let exitingPid := c.state.currentPid
  let c := { c with
    state := { c.state with exitCode := c.state.regs 1 }
    haltedMask := c.haltedMask ||| (1 <<< exitingPid.toNat) }
  let c := c.unsuspendVforkParent
  if 1 < c.state.numProcesses.toNat then
    let c := c.schedulerContextSwitch
    if c.state.currentPid = exitingPid then
      .err .halted { c with state := { c.state with halted := 1 } }
    else .ok c
  else .err .halted { c with state := { c.state with halted := 1 } }

/-- `SYS_WRITE`: at most 256 bytes to the terminal. -/
def sysWrite : Cpu :=
  let fd := c.state.regs 1
  let bufAddr := c.state.regs 2
  let len := c.state.regs 3
  if fd = 1 ∨ fd = 2 then
    let maxWrite := if len < 256 then len.toNat else 256
    let bytes := (List.range maxWrite).map fun b =>
      c.memReadByte (bufAddr + ofNat 32 b).toNat
    { c with ttyOutput := c.ttyOutput ++ bytes }.setReg 0 (ofNat 32 maxWrite)
  else c.setReg 0 (negErrno 9)

def sysBrk : Cpu :=
  let newBrk := c.state.regs 1
  if newBrk = 0 then c.setReg 0 c.state.programBreak
  else { c with state := { c.state with programBreak := newBrk } }.setReg 0 newBrk

/-- `SYS_READ_BLOCK` and `SYS_WRITE_BLOCK`: one 512-byte block between the
ramdisk and the buffer in `r2`. -/
def sysBlock (toDisk : Bool) : Cpu :=
  let blockNum := (c.state.regs 1).toNat
  let buf := (c.state.regs 2 >>> 2).toNat
  let disk := Block.RAMDISK_BASE_WORD + blockNum * Block.WORDS_PER_BLOCK
  if blockNum < Block.TOTAL_BLOCKS then
    let ram := if toDisk then copyWords c.ram buf disk 128 else copyWords c.ram disk buf 128
    (c.withRam ram).setReg 0 Block.BLOCK_SIZE
  else c.setReg 0 (negErrno Lsys.EIO)

/-- `SYS_FORK` and `SYS_VFORK`; the latter suspends the parent. -/
def sysFork (vfork : Bool) : Cpu :=
  if MAX_PROCESSES ≤ c.state.numProcesses.toNat then c.setReg 0 (negErrno 11)
  else
    let parentPid := c.state.currentPid.toNat
    let childPid := c.state.numProcesses
    let child : ProcSlot := { c.saveSlot with
      regs := update c.state.regs 0 0
      pageDirBase := 0x00F00000 + childPid.setWidth 32 * 0x1000 }
    let c := { c with
      procTable := update c.procTable childPid child
      state := { c.state with numProcesses := c.state.numProcesses + 1 }
      suspendedMask := if vfork then c.suspendedMask ||| (1 <<< parentPid) else c.suspendedMask }
    c.setReg 0 (childPid.setWidth 32)

/-- `SYS_READ` of the keyboard register, at most one character. -/
def sysRead : Cpu :=
  let fd := c.state.regs 1
  let bufAddr := (c.state.regs 2).toNat
  if fd = 0 then
    if c.kbd ≠ 0 then
      if c.kbd &&& 1 = 1 then
        let ch := (c.kbd >>> 1) &&& 0xFF
        let dstWord := bufAddr >>> 2
        let new := insertField (c.ram.getD dstWord 0) 0xFF ch ((bufAddr &&& 3) * 8)
        { c with ram := c.ram.set dstWord new, kbd := 0 }.setReg 0 1
      else { c with kbd := 0 }.setReg 0 0
    else c.setReg 0 0
  else c.setReg 0 (negErrno 9)

/-- `SYS_WAITPID`: answer for an exited child, else yield and run again. -/
def sysWaitpid : Cpu :=
  let targetPid := c.state.regs 1
  if targetPid < c.state.numProcesses.setWidth 32 then
    if (c.haltedMask >>> targetPid.toNat) &&& 1 ≠ 0 then c.setReg 0 targetPid
    else
      let c := if 1 < c.state.numProcesses.toNat then c.schedulerContextSwitch else c
      c.withPc (c.state.pc - 1)
  else c.setReg 0 (negErrno 10)

def sysExecve : Cpu :=
  let entryPoint := c.state.regs 1
  let c := { c with state := { c.state with
    regs := update (fun _ => 0) REG_SP 0xFFFF0000
    pc := entryPoint
    flags := 0
    interruptsEnabled := 0
    interruptPending := 0
    programBreak := DEFAULT_PROGRAM_BREAK } }
  c.unsuspendVforkParent

def sysSignal : Cpu :=
  let signum := c.state.regs 1
  let handler := c.state.regs 2
  if signum < Lsys.SIGNAL_MAX_SLOTS then
    let slotWord := ((Lsys.SIGNAL_TABLE_BASE >>> 2) + signum).toNat
    let oldHandler := c.memReadWord slotWord
    (c.memWriteWord slotWord handler).setReg 0 oldHandler
  else c.setReg 0 0

def sysClockGettime : Cpu :=
  let tpAddr := (c.state.regs 1).toNat
  let secs := c.ticksMs / 1000
  let nsecs := (c.ticksMs % 1000) * 1000000
  ((c.memWriteWord (tpAddr >>> 2) secs).memWriteWord ((tpAddr + 4) >>> 2) nsecs).setReg 0 0

def sysNanosleep : Cpu :=
  let reqAddr := (c.state.regs 1).toNat
  let secs := c.memReadWord (reqAddr >>> 2)
  let nsecs := c.memReadWord ((reqAddr + 4) >>> 2)
  { c with ticksMs := c.ticksMs + (secs * 1000 + nsecs / 1000000) }.setReg 0 0

def sysStat : Cpu :=
  let bufWord := (c.state.regs 2 >>> 2).toNat
  (((c.memWriteWord bufWord 0o100644).memWriteWord (bufWord + 1) 4096).memWriteWord
    (bufWord + 2) 512).setReg 0 0

def sysIoctl : Cpu :=
  let c := if c.state.regs 2 = 0x5413 then
    c.memWriteWord (c.state.regs 3 >>> 2).toNat (24 ||| (80 <<< 16)) else c
  c.setReg 0 0

def sysPipe : Cpu :=
  let pipefd := (c.state.regs 1 >>> 2).toNat
  ((c.memWriteWord pipefd 10).memWriteWord (pipefd + 1) 11).setReg 0 0

/-- The `INT 0x80` dispatch on `r0`, in the order of the source. -/
def linuxSyscall : ExecResult :=
  let nr := c.state.regs 0
  if !c.fuzixPermissive && Lsys.isPermissive nr then .ok (c.setReg 0 (negErrno Lsys.ENOSYS))
  else if nr = Lsys.SYS_EXIT then c.sysExit
  else if nr = Lsys.SYS_WRITE then .ok c.sysWrite
  else if nr = Lsys.SYS_BRK then .ok c.sysBrk
  else if nr = Lsys.SYS_GETPID then .ok (c.setReg 0 c.instanceId)
  else if nr = Lsys.SYS_CLOCK_GETTIME then .ok c.sysClockGettime
  else if nr = Lsys.SYS_NANOSLEEP then .ok c.sysNanosleep
  else if nr = Lsys.SYS_READ_BLOCK then .ok (c.sysBlock false)
  else if nr = Lsys.SYS_WRITE_BLOCK then .ok (c.sysBlock true)
  else if nr = Lsys.SYS_FORK then .ok (c.sysFork false)
  else if nr = Lsys.SYS_VFORK then .ok (c.sysFork true)
  else if nr = Lsys.SYS_SCHED_YIELD then
    let c := if 1 < c.state.numProcesses.toNat then c.schedulerContextSwitch else c
    .ok (c.setReg 0 0)
  else if nr = Lsys.SYS_READ then .ok c.sysRead
  else if nr = Lsys.SYS_OPEN then .ok (c.setReg 0 3)
  else if nr = Lsys.SYS_CLOSE then .ok (c.setReg 0 0)
  else if nr = Lsys.SYS_WAITPID then .ok c.sysWaitpid
  else if nr = Lsys.SYS_SET_PAGE_DIR then
    .ok ({ c with state := { c.state with pageDirBase := c.state.regs 1 } }.setReg 0 0)
  else if nr = Lsys.SYS_ENABLE_MMU then
    .ok ({ c with state := { c.state with mmuEnabled := 1 } }.setReg 0 0)
  else if nr = Lsys.SYS_FLUSH_TLB then .ok (c.flushTlb.setReg 0 0)
  else if nr = Lsys.SYS_EXECVE then .ok c.sysExecve
  else if nr = Lsys.SYS_GETUID ∨ nr = Lsys.SYS_GETGID ∨ nr = Lsys.SYS_GETEUID ∨
      nr = Lsys.SYS_GETEGID ∨ nr = Lsys.SYS_SETUID ∨ nr = Lsys.SYS_SETGID then
    .ok (c.setReg 0 0)
  else if nr = Lsys.SYS_DUP then .ok (c.setReg 0 (c.state.regs 1))
  else if nr = Lsys.SYS_DUP2 then .ok (c.setReg 0 (c.state.regs 2))
  else if nr = Lsys.SYS_SIGNAL then .ok c.sysSignal
  else if nr = Lsys.SYS_KILL then .ok (c.setReg 0 0)
  else if nr = Lsys.SYS_STAT ∨ nr = Lsys.SYS_FSTAT then .ok c.sysStat
  else if nr = Lsys.SYS_LSEEK then .ok (c.setReg 0 0)
  else if nr = Lsys.SYS_GETPPID then .ok (c.setReg 0 0)
  else if nr = Lsys.SYS_UMASK then .ok (c.setReg 0 0o22)
  else if nr = Lsys.SYS_SYNC then .ok (c.setReg 0 0)
  else if nr = Lsys.SYS_TIMES then .ok (c.setReg 0 0)
  else if nr = Lsys.SYS_IOCTL then .ok c.sysIoctl
  else if nr = Lsys.SYS_PIPE then .ok c.sysPipe
  else if nr = Lsys.SYS_FCNTL then .ok (c.setReg 0 0)
  else if nr = Lsys.SYS_ACCESS then .ok (c.setReg 0 0)
  else if nr = Lsys.SYS_CHDIR then .ok (c.setReg 0 0)
  else if nr = Lsys.SYS_TIME then .ok (c.setReg 0 (c.ticksMs / 1000))
  else .ok (c.setReg 0 (negErrno Lsys.ENOSYS))

/-- Push `value` on the byte-addressed interrupt stack. -/
def pushInterrupt (value : Word) : Cpu :=
  let sp := c.state.regs REG_SP - 4
  let c := c.setReg REG_SP sp
  c.withRam (c.ram.set (sp >>> 2).toNat value)

/-- Push flags and pc, disable interrupts and jump through the vector table. -/
def enterVector (vector : Byte) : Cpu :=
  let c := c.pushInterrupt (c.state.flags.setWidth 32)
  let c := c.pushInterrupt c.state.pc
  let c := { c with state := { c.state with interruptsEnabled := 0 } }
  let ivtAddr := (vector.setWidth 32 * 4 : Word) >>> 2
  c.withPc (c.memReadWord ivtAddr.toNat)

/-- `INT imm8`. -/
def intInsn (imm : Word) : ExecResult :=
  let vector : Byte := (imm &&& 0xFF).setWidth 8
  if vector = 0x80 then c.linuxSyscall else .ok (c.enterVector vector)

/-- `IRET`: pop pc and flags, enable interrupts. -/
def iret : Cpu :=
  let spPc := (c.state.regs REG_SP >>> 2).toNat
  let c := if spPc < c.ram.len then c.withPc (c.ram.cell spPc) else c
  let c := c.setReg REG_SP (c.state.regs REG_SP + 4)
  let spFlags := (c.state.regs REG_SP >>> 2).toNat
  let c := if spFlags < c.ram.len then c.withFlags ((c.ram.cell spFlags).setWidth 8) else c
  let c := c.setReg REG_SP (c.state.regs REG_SP + 4)
  { c with state := { c.state with interruptsEnabled := 1 } }

end Cpu

end Unheaded.Mbc
