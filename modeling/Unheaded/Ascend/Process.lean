import Unheaded.Ascend.Fork

/-!
# Scheduler, exit and wait

A slot leaves the CPU in one place, the switch after the execute loop: the arms ask for it.
-/

namespace Unheaded.Ascend

open Lib Mbc Phase12 Function
open BitVec (ofNat)

namespace Machine

variable (m : Machine)

/-- The row the running slot is saved in. -/
def saveRow : ProcRow where
  regs := m.cpu.state.regs
  pc := m.cpu.state.pc
  flags := m.cpu.state.flags.setWidth 32
  spCopy := m.cpu.state.regs REG_SP
  programBreak := m.cpu.state.programBreak
  pageDirBase := m.cpu.state.pageDirBase
  rv2mbcBase := m.cpu.state.rv2mbcBase

def flushedTlb (tlb : BitVec 6 → TlbEntry) : BitVec 6 → TlbEntry :=
  fun i => ⟨0xFFFFFFFF, (tlb i).pfn, 0⟩

/-- Load a saved row.  The TLB knows no process, so it is flushed. -/
def loadRow (nextPid : Nat) (row : ProcRow) : Machine := { m with
    cpu := { m.cpu with
      state := { m.cpu.state with
        regs := row.regs
        pc := row.pc
        flags := row.flags.setWidth 8
        programBreak := row.programBreak
        pageDirBase := row.pageDirBase
        rv2mbcBase := row.rv2mbcBase
        currentPid := ofNat 8 nextPid }
      tlb := flushedTlb m.cpu.tlb }
    sched := { m.sched with currentPid := ofNat 32 nextPid } }

def clearReservation : Machine := m.withCpu (m.cpu.setReservation 0xFFFFFFFF)

def nextSlot : Option Nat :=
  let num := m.cpu.state.numProcesses.toNat
  Cpu.nextRunnable (m.sched.haltedMask ||| m.sched.suspendedMask) num 8 ((m.pid.toNat + 1) % num)

/-- `scheduler_context_switch`; never while the kernel is running. -/
def schedulerContextSwitch : Machine :=
  if m.cpu.state.privLevel ≠ 3 then m
  else if m.cpu.state.numProcesses.toNat ≤ 1 then m
  else
    let saved := { m with procTable := m.procTable.set m.pid.toNat m.saveRow }
    match m.nextSlot with
    | none => saved
    | some nextPid =>
      if nextPid = m.pid.toNat then saved
      else
        match saved.procTable.get? nextPid with
        | none => saved.clearReservation
        | some row => saved.clearReservation.loadRow nextPid row

/-- The children of `slot` get slot 0 as their parent. -/
def reparent (parentOf : Store Word) (slot : Word) : Store Word := (List.range MAX_PROCESSES).foldl
    (fun s q => if s.get? q = some slot then s.set q 0 else s) parentOf

def slotExited (slot : Word) : Machine := { m with
    parentOf := reparent m.parentOf slot
    sched := { m.sched with haltedMask := m.sched.haltedMask ||| (1 <<< slot.toNat) } }

def setHalted : Machine := m.withCpu m.cpu.setHalted

def setExitCode (code : Word) : Machine :=
  m.withCpu { m.cpu with state := { m.cpu.state with exitCode := code } }

def pidWord : Word := m.pid.setWidth 32

/-- `SYS_exit` (2). -/
def sysExit : Arm :=
  let m := m.setExitCode m.a0
  if 1 < m.cpu.state.numProcesses.toNat then
    .leave m { switch := .exit, exitSlot := some m.pidWord }
  else .leave m.setHalted { exitSlot := some m.pidWord }

/-- `SYS_yield` (23). -/
def sysYield : Arm :=
  let m := m.setReg 8 0
  if 1 < m.cpu.state.numProcesses.toNat then .leave m { switch := .yield } else .next m

def isHalted (p : Nat) : Bool := (m.sched.haltedMask >>> p) &&& 1 != 0

def isReaped (p : Nat) : Bool := (m.sched.reapedMask >>> p) &&& 1 != 0

/-- `p` is a child of the running slot. -/
def isChild (p : Nat) : Bool := p != m.pid.toNat && m.parentOf.getD p 0 == m.pidWord

/-- The scan of `wait`: the first exited child, and the children passed. -/
def waitScan (m : Machine) : List Nat → Word → Option Nat × Word
  | [], childMask => (none, childMask)
  | p :: ps, childMask =>
    if m.isChild p then
      if m.isHalted p && !m.isReaped p then (some p, childMask ||| (1 <<< p))
      else m.waitScan ps (childMask ||| (1 <<< p))
    else m.waitScan ps childMask

variable (b : Bpf)

def freePgd (child : Byte) : Bpf :=
  let pgd := pgdBaseForPid child >>> 2
  b.memWriteWord pgd (b.memReadWord pgd &&& ~~~Mmu.PTE_PRESENT)

def writeStatus (statusPtr : Word) : Bpf :=
  if statusPtr ≠ 0 then
    let (addr, b) := b.translateAddress statusPtr
    b.memWriteWord (addr >>> 2) 0
  else b

/-- The reaped child is recorded and its address space freed. -/
def reap (child : Nat) : Machine :=
  let b := freePgd m.cpu (ofNat 8 child)
  { m with
    cpu := writeStatus b (b.state.regs 8)
    sched := { m.sched with reapedMask := m.sched.reapedMask ||| (1 <<< child) } }

/-- `SYS_wait` (3). -/
def sysWait : Arm :=
  match m.waitScan (List.range (min m.cpu.state.numProcesses.toNat MAX_PROCESSES)) 0 with
  | (some child, _) => (m.reap child).answer (ofNat 32 child + 1)
  | (none, childMask) =>
    if childMask &&& ~~~m.sched.reapedMask ≠ 0 then
      .leave (m.withPc (m.cpu.state.pc - 1)) { switch := .yield }
    else m.answer FAILED

/-- `b'S'` to the terminal, and the tracer armed. -/
def armTracer : Machine :=
  m.withCpu { m.cpu.memWriteByte 0xC001 0x53 with traceLeft := 100 }

def replyArg (base : Word) : Word := b.memReadWord ((base + UPC_ST_REPLY_ARG_OFF) >>> 2)

def replyBrk (base r : Word) : Machine :=
  if r &&& UPC_REPLY_SET_BRK ≠ 0 then
    m.withCpu { m.cpu with state := { m.cpu.state with programBreak := replyArg m.cpu base } }
  else m

def replyYield (req : Requests) (r : Word) : Requests :=
  if r &&& UPC_REPLY_YIELD ≠ 0 ∧ 1 < m.cpu.state.numProcesses.toNat then
    { req with switch := .yield }
  else req

/-- The kernel asks to end a slot; one that is not alive gets -1. -/
def replyKill (req : Requests) (base r : Word) : Machine × Requests :=
  if r &&& UPC_REPLY_KILL ≠ 0 then
    let t := replyArg m.cpu base &&& 7
    if t ≠ 0 ∧ t.toNat < m.cpu.state.numProcesses.toNat ∧ m.isHalted t.toNat = false then
      let req := { req with exitSlot := some t }
      (m, if t = m.pidWord then { req with switch := .exit } else req)
    else (m.setReg 8 FAILED, req)
  else (m, req)

/-- The kernel closed the files of the running slot: end it. -/
def replyExit (req : Requests) (r : Word) : Machine × Requests :=
  if r &&& UPC_REPLY_EXIT ≠ 0 then
    let m := m.setExitCode m.a0
    let req := { req with exitSlot := some m.pidWord }
    if 1 < m.cpu.state.numProcesses.toNat then (m, { req with switch := .exit })
    else (m.setHalted, req)
  else (m, req)

/-- A tagged reply is cleared and acted on. -/
def actReply (req : Requests) (base r : Word) : Machine × Requests :=
  let m := m.withCpu (m.cpu.memWriteWord ((base + UPC_ST_REPLY_OFF) >>> 2) 0)
  let m := m.replyBrk base r
  let req := m.replyYield req r
  let (m, req) := m.replyKill req base r
  m.replyExit req r

/-- The reply word, when it carries the tag. -/
def taggedReply : Option Word :=
  let base := slotTables b
  if base = 0 then none
  else
    let r := b.memReadWord ((base + UPC_ST_REPLY_OFF) >>> 2)
    if r &&& UPC_TAG_MASK = UPC_TAG_REPLY then some r else none

def readReply (req : Requests) : Machine × Requests :=
  match taggedReply m.cpu with
  | some r => m.actReply req (slotTables m.cpu) r
  | none => (if m.cpu.state.halted = 0 then m.armTracer else m, req)

/-- The one switch; an exit that finds nothing else to run halts the CPU. -/
def deferredSwitch (req : SwitchReq) : Machine :=
  match req with
  | .none => m
  | .yield => m.schedulerContextSwitch
  | .exit =>
    let m' := m.schedulerContextSwitch
    if m'.pid = m.pid then m'.setHalted else m'

def endSlot (slot : Option Word) : Machine :=
  match slot with
  | some s => m.slotExited s
  | none => m

/-- What `try_monad_cpu` does when the execute loop is left. -/
def afterLoop (req : Requests) : Machine :=
  let (m, req) := if req.reply then m.readReply req else (m, req)
  (m.endSlot req.exitSlot).deferredSwitch req.switch

/-! ## exec

`SYS_exec` finds a resident program by the hash of its basename, collects the
arguments into a fixed frame of the slice, one in a tick, copies the program's
data, sixteen words in a tick, and starts it.  The two phases are told apart by
a marker in a3; a2 holds their cursors.
-/

def FNV_OFFSET : Word := 0x811c9dc5
def FNV_PRIME : Word := 0x01000193

/-- The hash of the basename of a path, over at most `left` bytes. -/
def basenameHash (b : Bpf) (pathPhys : Word) : Nat → Nat → Word → Word
  | 0, _, h => h
  | left + 1, j, h =>
    let c := b.memReadByte (pathPhys + ofNat 32 j)
    if c = 0 then h
    else if c = 0x2F then basenameHash b pathPhys left (j + 1) FNV_OFFSET
    else basenameHash b pathPhys left (j + 1) ((h ^^^ c.setWidth 32) * FNV_PRIME)

def findProgram (h : Word) : Option ProgramRow :=
  (List.range PROGRAM_SLOTS).findSome? fun s =>
    (m.programTable.get? s).filter fun row => row.valid = 1 && row.nameHash = h

def EXEC_MAGIC : Word := 0xE0ECB10C
def EXEC_ARGV_MAGIC : Word := 0xE0ECA26F
def ARGV_MAX : Word := 8
def ARG_CAP : Word := 16
def ARGV_STR_VA : Word := 0x00600000
def ARGV_ARR_VA : Word := 0x00600080

/-- Argument `i`, 0 when the table is null or leaves the slice. -/
def argPointer (i : Word) : Word :=
  let pva := m.a1 + i * 4
  if m.a1 = 0 ∨ USER_VA_CEILING - 4 ≤ pva then 0
  else m.cpu.ramWord ((pidPhysOffset m.pid + pva) >>> 2)

/-- One argument in a tick; the last tick ends the array. -/
def execArgs : Arm :=
  let i := if ARGV_MAX < m.a2 then ARGV_MAX else m.a2
  let base := pidPhysOffset m.pid
  let ptr := m.argPointer i
  if ARGV_MAX ≤ i ∨ ptr = 0 ∨ USER_VA_CEILING - ARG_CAP ≤ ptr then
    let b := m.cpu.ramWriteWord ((base + (ARGV_ARR_VA + i * 4)) >>> 2) 0
    (((m.withCpu b).setReg 10 (i <<< 16)).setReg 11 EXEC_MAGIC).again
  else
    let dst := base + (ARGV_STR_VA + i * ARG_CAP)
    let b := (List.range 15).foldl (fun b k =>
      b.ramWriteByte (dst + ofNat 32 k) (b.ramByte (base + ptr + ofNat 32 k))) m.cpu
    let b := b.ramWriteByte (dst + (ARG_CAP - 1)) 0
    let b := b.ramWriteWord ((base + (ARGV_ARR_VA + i * 4)) >>> 2) (ARGV_STR_VA + i * ARG_CAP)
    ((m.withCpu b).setReg 10 (i + 1)).again

/-- One chunk of the program's data. -/
def copyDataChunk (pid : Byte) (row : ProgramRow) (cursor : Word) : Bpf :=
  let srcWord := (row.dataSrcVa >>> 2) + cursor
  let dstWord := ((pidPhysOffset pid + row.dataDstVa) >>> 2) + cursor
  (List.range 16).foldl (fun b w =>
    if cursor + ofNat 32 w < row.dataLenWords then
      b.ramWriteWord (dstWord + ofNat 32 w) (b.ramWord (srcWord + ofNat 32 w))
    else b) b

/-- The program starts with its arguments, a fresh stack and no flags. -/
def startProgram (row : ProgramRow) (argc : Word) : Machine :=
  m.withCpu { m.cpu with state := { m.cpu.state with
    rv2mbcBase := row.rv2mbcBase
    regs := update (update (update (fun _ => 0) 8 argc) 9 ARGV_ARR_VA)
      REG_SP 0x00500000
    pc := row.entryMbc
    flags := 0
    programBreak := DEFAULT_PROGRAM_BREAK
    reservationAddress := 0xFFFFFFFF } }

def execData (row : ProgramRow) : Arm :=
  let argc := m.a2 >>> 16
  let cursor := m.a2 &&& 0xFFFF
  let m := m.withCpu (copyDataChunk m.cpu m.pid row cursor)
  if cursor + 16 < row.dataLenWords then
    (m.setReg 10 ((cursor + 16) ||| (argc <<< 16))).again
  else .next (m.startProgram row argc)

/-- `SYS_exec` (7). -/
def sysExec : Arm :=
  let pathPhys := pidPhysOffset m.pid + m.a0
  match m.findProgram (basenameHash m.cpu pathPhys 16 0 FNV_OFFSET) with
  | none => m.answer FAILED
  | some row =>
    let m :=
      if m.a3 ≠ EXEC_MAGIC ∧ m.a3 ≠ EXEC_ARGV_MAGIC then
        (m.setReg 10 0).setReg 11 EXEC_ARGV_MAGIC
      else m
    if m.a3 = EXEC_ARGV_MAGIC then m.execArgs else m.execData row

end Machine

end Unheaded.Ascend
