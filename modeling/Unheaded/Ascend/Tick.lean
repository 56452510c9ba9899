import Unheaded.Ascend.Open
import Unheaded.Ascend.Trap
import Unheaded.Lib.Resume

/-!
# One tick

A tick packet runs at most sixteen instructions and then the code after the loop. The system
calls are dispatched in the order of the source.
-/

namespace Unheaded.Ascend

open Lib Mbc Phase12 MbcInsn

def Arm.count : Arm → Arm
  | .next m => .next (m.withCpu m.cpu.countInsn)
  | .leave m req => .leave m req

namespace Machine

variable (m : Machine)

/-- One tick of `SYS_READ_BLOCK` and `SYS_WRITE_BLOCK`: sixteen words of the
block, with the progress in a2. -/
def sysBlock (toDisk : Bool) : Arm :=
  let progress := m.a2
  let disk := FsWalk.RAMDISK_BASE_WORD + m.a0 * BitVec.ofNat 32 Block.WORDS_PER_BLOCK + progress
  let buf := (m.a1 >>> 2) + progress
  if m.a0.toNat < Block.TOTAL_BLOCKS then
    let copy (src dst : Word) : Bpf := (List.range 16).foldl (fun b w =>
      b.ramWriteWord (dst + BitVec.ofNat 32 w) (b.ramWord (src + BitVec.ofNat 32 w))) m.cpu
    let m := m.withCpu (if toDisk then copy buf disk else copy disk buf)
    if 128 ≤ (progress + 16).toNat then .next ((m.setReg 8 Block.BLOCK_SIZE).setReg 10 0)
    else (m.setReg 10 (progress + 16)).again
  else m.answer (negErrno Lsys.EIO)

def WRITE_TAG : Word := 0xD0C00000

variable (b : Bpf)

def putUserByte (va : Word) : Bpf :=
  let (addr, b) := b.translateAddress va
  b.memWriteByte 0xC001 (b.memReadByte addr)

/-- `SYS_write` (16): one byte in a tick, with the cursor under a tag in a3. -/
def sysWrite : Arm :=
  let n := if 4096 < m.a2.toNat then 4096 else m.a2
  if n = 0 then m.answer 0
  else if n = 1 then (m.withCpu (putUserByte m.cpu m.a1)).answer 1
  else
    let stored := m.a3 &&& 0xFFFF
    let cursor := if m.a3 &&& 0xFFFF0000 = WRITE_TAG then (if n ≤ stored then 0 else stored) else 0
    let m := m.withCpu (putUserByte m.cpu (m.a1 + cursor))
    if cursor + 1 < n then (m.setReg 11 (WRITE_TAG ||| (cursor + 1))).again
    else (m.setReg 11 0).answer n

def OPEN_KERNEL_FLAGS : Word := 0x001 ||| 0x200 ||| 0x400

def cwdOffRoot : Bool :=
  let base := slotTables b
  let slot := b.state.currentPid.setWidth 32 &&& (UPC_SLOTS - 1)
  base != 0 && (b.memReadWord ((base + UPC_ST_CWD_MASK_OFF) >>> 2) >>> slot.toNat) &&& 1 != 0

/-- The call goes to the owned kernel. -/
def kernelRouted (n : Nat) : Bool :=
  match n with
  | 2 | 4 | 6 | 9 | 12 | 13 | 14 | 18 | 19 | 20 | 24 => true
  | 5 | 8 | 10 | 16 | 21 => decide (16 ≤ (b.state.regs 8).toNat)
  | 15 => b.state.regs 9 &&& OPEN_KERNEL_FLAGS != 0 || cwdOffRoot b
  | _ => false

/-- `kernel_routed_alias`: the kernel's calls share the arm of number 11. -/
def kernelRoutedAlias (n : Word) : Word := if kernelRouted b n.toNat then 11 else n

/-- `SYSCALL`, in the order of the source. -/
def ecall (imm : Word) : Arm :=
  match (kernelRoutedAlias m.cpu m.a7).toNat with
  | 200 => m.sysBlock false
  | 16 => m.sysWrite
  | 1 => m.sysFork
  | 2 => m.sysExit
  | 3 => m.sysWait
  | 11 => m.inject imm
  | 24 => .next m
  | 13 | 23 => m.sysYield
  | 15 => m.sysOpen
  | 8 => m.sysFstat
  | 17 => m.answer 0
  | 10 => m.sysDup
  | 21 => m.sysClose
  | 5 => m.sysRead
  | 7 => m.sysExec
  | 201 => m.sysBlock true
  | _ => m.answer (negErrno Lsys.ENOSYS)

/-- The arms that `Bpf.executeInsn` leaves out. -/
def system (w : Word) : Arm :=
  let imm : Word := (imm16 w).setWidth 32
  match opcode? w with
  | some .int => m.intInsn imm
  | some .iret => m.iret
  | some .mret => m.mret
  | some .sret => m.sret
  | some .syscall => m.ecall imm
  | _ => .next m

def execute (w : Word) : Arm :=
  match m.cpu.executeInsn w with
  | .next b => .next (m.withCpu b)
  | .stop b => .leave (m.withCpu b) {}
  | .system b => (m.withCpu b).system w

/-- One iteration of the execute loop. -/
def iterate : Arm :=
  let b := m.cpu.dispatchInterrupt.tracePc
  match b.fetch with
  | none => .leave (m.withCpu b.setHalted) {}
  | some w => ((m.withCpu (b.withPc (b.state.pc + 1))).execute w).count

def MAX_INSN_PER_TICK : Nat := 16

/-- At most `n` iterations; a halted CPU leaves the loop. -/
def loop : Nat → Machine → Machine × Requests
  | 0, m => (m, {})
  | n + 1, m =>
    if m.cpu.state.halted ≠ 0 then (m, {})
    else
      match m.iterate with
      | .next m => loop n m
      | .leave m req => (m, req)

def wake : Machine := m.withCpu { m.cpu with state := { m.cpu.state with
    sleepUntilNs := 0
    tickCounter := m.cpu.state.tickCounter + 1 } }

/-- `try_monad_cpu` for one tick packet of the instance, at time `now`. -/
def tick (now : BitVec 64) : Machine :=
  if m.cpu.state.halted ≠ 0 then m
  else if 0 < m.cpu.state.sleepUntilNs ∧ now < m.cpu.state.sleepUntilNs then m
  else
    let (m, req) := loop MAX_INSN_PER_TICK m.wake
    m.afterLoop req

/-! ## Arms that span ticks -/

def atEcall (m : Machine) : Machine := m.wake.withPc (m.cpu.state.pc + 1)

def enter (arm : Machine → Arm) (m : Machine) : Machine ⊕ Machine :=
  match arm m with
  | .next m' => .inr m'
  | .leave m' _ => .inl m'.atEcall

theorem enter_again {arm : Machine → Arm} {m m' : Machine} (left : arm m = m'.again) :
    enter arm m = .inl (m'.withPc (m'.cpu.state.pc - 1)).atEcall := by
  rw [enter, left]
  rfl

theorem atEcall_back (m : Machine) : (m.withPc (m.cpu.state.pc - 1)).atEcall = m.wake := by
  have pc : m.cpu.state.pc - 1 + 1 = m.cpu.state.pc := BitVec.sub_add_cancel _ _
  unfold atEcall wake withPc Bpf.withPc withCpu
  rw [pc]

/-- A tick will fetch an ecall first. -/
structure AtSyscall (m : Machine) (w : Word) : Prop where
  running : m.cpu.state.halted = 0
  awake : m.cpu.state.sleepUntilNs = 0
  quiet : m.cpu.state.interruptPending = 0
  untraced : m.cpu.traceLeft = 0
  fetched : m.cpu.fetch = some w
  ecall : opcode? w = some .syscall

theorem AtSyscall.congr {m m' : Machine} {w : Word} (ready : m.AtSyscall w)
    (setting : m'.cpu.setting = m.cpu.setting) (pc : m'.cpu.state.pc = m.cpu.state.pc)
    (insnCount : m'.cpu.state.insnCount = m.cpu.state.insnCount)
    (awake : m'.cpu.state.sleepUntilNs = 0) : m'.AtSyscall w where
  running := (congrArg Bpf.Setting.halted setting).trans ready.running
  awake := awake
  quiet := (congrArg Bpf.Setting.interruptPending setting).trans ready.quiet
  untraced := (congrArg Bpf.Setting.traceLeft setting).trans ready.untraced
  fetched := by
    have rom : m'.cpu.rom = m.cpu.rom := congrArg Bpf.Setting.rom setting
    rw [← ready.fetched, Bpf.fetch, Bpf.fetch, pc, insnCount, rom]
  ecall := ready.ecall

theorem execute_syscall {w : Word} (ecall : opcode? w = some .syscall) (m : Machine) :
    m.execute w = m.ecall ((imm16 w).setWidth 32) := by
  have insn : m.cpu.executeInsn w = .system m.cpu := by
    rw [Bpf.executeInsn, ecall]
  rw [execute, insn]
  dsimp only [withCpu]
  rw [system, ecall]

theorem iterate_ecall {m : Machine} {w : Word} (ready : m.AtSyscall w) :
    m.wake.iterate = (m.atEcall.ecall ((imm16 w).setWidth 32)).count := by
  have quiet : m.wake.cpu.dispatchInterrupt = m.wake.cpu := if_neg (not_and_of_not_left _
    (not_not.mpr ready.quiet))
  have untraced : m.wake.cpu.tracePc = m.wake.cpu := by
    refine if_neg ?_
    change ¬ 0 < m.cpu.traceLeft.toNat
    rw [ready.untraced]
    decide
  have fetched : m.wake.cpu.fetch = some w := ready.fetched
  unfold iterate
  dsimp only
  rw [quiet, untraced, fetched]
  dsimp only
  rw [execute_syscall ready.ecall]
  rfl

theorem iterate_entered {m done : Machine} {w : Word} {arm : Machine → Arm} (ready : m.AtSyscall w)
    (routed : m.atEcall.ecall ((imm16 w).setWidth 32) = arm m.atEcall)
    (finished : enter arm m.atEcall = .inr done) : m.wake.iterate = (Arm.next done).count := by
  rw [iterate_ecall ready, routed]
  unfold enter at finished
  split at finished <;> cases finished
  next entered =>
    rw [entered]

theorem tick_leaves {m m' : Machine} {w : Word} (ready : m.AtSyscall w)
    (left : m.atEcall.ecall ((imm16 w).setWidth 32) = .leave m' {}) (now : BitVec 64) :
    m.tick now = m' := by
  have running : ¬ m.cpu.state.halted ≠ 0 := not_not.mpr ready.running
  have awake : ¬ (0 < m.cpu.state.sleepUntilNs ∧ now < m.cpu.state.sleepUntilNs) := by
    rw [ready.awake]
    rintro ⟨asleep, -⟩
    exact absurd asleep (BitVec.lt_irrefl _)
  have running' : ¬ m.wake.cpu.state.halted ≠ 0 := running
  unfold tick
  rw [if_neg running, if_neg awake, MAX_INSN_PER_TICK, loop, if_neg running', iterate_ecall ready,
    left]
  rfl

theorem ticks_enter {arm : Machine → Arm} {Ready : Machine → Prop} {w : Word}
    (routed : ∀ m, Ready m → m.AtSyscall w ∧
      m.atEcall.ecall ((imm16 w).setWidth 32) = arm m.atEcall)
    (kept : ∀ m m' req, Ready m → arm m.atEcall = .leave m' req → req = {} ∧ Ready m')
    {m s : Machine} (start : Ready m) {nows : List (BitVec 64)}
    (run : after (enter arm) nows.length m.atEcall = .inl s) :
    (nows.foldl tick m).atEcall = s ∧ Ready (nows.foldl tick m) := by
  induction nows generalizing m with
  | nil =>
    cases run
    exact ⟨rfl, start⟩
  | cons now nows ih =>
    obtain ⟨ready, entered⟩ := routed m start
    cases result : arm m.atEcall with
    | next m' =>
      have stop : enter arm m.atEcall = .inr m' := by rw [enter, result]
      simp [List.length_cons, after_succ_of_stop stop] at run
    | leave m' req =>
      obtain ⟨rfl, still⟩ := kept m m' req start result
      have next : enter arm m.atEcall = .inl m'.atEcall := by rw [enter, result]
      rw [List.length_cons, after_succ_of_next next] at run
      rw [List.foldl_cons, tick_leaves ready (entered.trans result)]
      exact ih still run

end Machine

end Unheaded.Ascend
