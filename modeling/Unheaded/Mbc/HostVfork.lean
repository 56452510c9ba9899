import Unheaded.Mbc.HostProcesses

/-!
# The suspension of a vfork parent

`SYS_VFORK` sets the bit of its caller in the suspended mask and returns to it: only the next
context switch looks at the mask.
-/

namespace Unheaded.Mbc

open Lib Function ExecResult MbcInsn Opcode Cpu

namespace Cpu

variable (c : Cpu)

theorem suspended_of_shelf {c c' : Cpu} (same : c'.shelf = c.shelf) :
    c'.suspendedMask = c.suspendedMask := congrArg (fun s => s.suspendedMask) same

theorem schedulerContextSwitch_suspended :
    c.schedulerContextSwitch.suspendedMask = c.suspendedMask := by
  unfold schedulerContextSwitch
  dsimp only
  split
  · rfl
  · split
    · rfl
    · split <;> rfl

theorem relinquish_suspended : c.relinquish.suspendedMask = c.suspendedMask := by
  unfold relinquish
  split
  · exact schedulerContextSwitch_suspended c
  · rfl

theorem unsuspendVforkParent_suspended : c.unsuspendVforkParent.suspendedMask = 0 := by
  unfold unsuspendVforkParent
  split
  · rfl
  · next clear => exact not_not.mp clear

variable {c k : Cpu} {a b : ExecResult}

def Vforks (k : Cpu) : Prop :=
  k.state.regs 0 = Lsys.SYS_VFORK ∧ k.state.numProcesses.toNat < MAX_PROCESSES

def Departs (k : Cpu) : Prop := k.state.regs 0 = Lsys.SYS_EXIT ∨ k.state.regs 0 = Lsys.SYS_EXECVE

instance (k : Cpu) : Decidable k.Vforks := inferInstanceAs (Decidable (_ ∧ _))

instance (k : Cpu) : Decidable k.Departs := inferInstanceAs (Decidable (_ ∨ _))

theorem linuxSyscall_vfork (h : k.state.regs 0 = Lsys.SYS_VFORK) :
    k.linuxSyscall = .ok (k.sysFork true) := by
  rw [linuxSyscall, h]
  cases k.fuzixPermissive <;> rfl

theorem exiting_suspended (c : Cpu) : c.exiting.suspendedMask = 0 :=
  unsuspendVforkParent_suspended _

theorem sysExit_suspended (c : Cpu) : c.sysExit.cpu.suspendedMask = 0 := by
  rw [sysExit_eq]
  split
  · split
    · exact (schedulerContextSwitch_suspended _).trans (exiting_suspended c)
    · exact (schedulerContextSwitch_suspended _).trans (exiting_suspended c)
  · exact exiting_suspended c

theorem sysWaitpid_suspended (c : Cpu) : c.sysWaitpid.suspendedMask = c.suspendedMask := by
  unfold sysWaitpid
  dsimp only
  split
  · split
    · rfl
    · exact relinquish_suspended c
  · rfl

theorem sysFork_suspended {vfork : Bool}
    (h : MAX_PROCESSES ≤ c.state.numProcesses.toNat ∨ vfork = false) :
    (c.sysFork vfork).suspendedMask = c.suspendedMask := by
  unfold sysFork
  split
  · rfl
  · next room =>
      rcases h with full | rfl
      · exact absurd full room
      · rfl

theorem calm_ite {p : Prop} [Decidable p]
    (yes : p → a.cpu.suspendedMask = c.suspendedMask ∨ a.cpu.suspendedMask = 0)
    (no : ¬ p → b.cpu.suspendedMask = c.suspendedMask ∨ b.cpu.suspendedMask = 0) :
    (if p then a else b).cpu.suspendedMask = c.suspendedMask ∨
      (if p then a else b).cpu.suspendedMask = 0 := by
  split
  · next h => exact yes h
  · next h => exact no h

theorem linuxSyscall_suspended (h : ¬ k.Vforks) :
    k.linuxSyscall.cpu.suspendedMask = k.suspendedMask ∨ k.linuxSyscall.cpu.suspendedMask = 0 := by
  unfold linuxSyscall
  repeat' with_reducible refine calm_ite (fun _ => ?_) (fun _ => ?_)
  all_goals first
    | exact .inl rfl
    | skip
  · exact .inr (sysExit_suspended k)
  · exact .inl (suspended_of_shelf (sysWrite_shelf k))
  · exact .inl (suspended_of_shelf (sysBrk_shelf k))
  · exact .inl (suspended_of_shelf (sysClockGettime_shelf k))
  · exact .inl (suspended_of_shelf (sysBlock_shelf k false))
  · exact .inl (suspended_of_shelf (sysBlock_shelf k true))
  · exact .inl (sysFork_suspended (.inr rfl))
  · next nr => exact .inl (sysFork_suspended (.inl (Nat.not_lt.mp fun room => h ⟨nr, room⟩)))
  · exact .inl (relinquish_suspended k)
  · exact .inl (suspended_of_shelf (sysRead_shelf k))
  · exact .inl (sysWaitpid_suspended k)
  · exact .inr (unsuspendVforkParent_suspended _)
  · exact .inl (suspended_of_shelf (sysSignal_shelf k))
  · exact .inl (suspended_of_shelf (sysStat_shelf k))
  · exact .inl (suspended_of_shelf (sysIoctl_shelf k))
  · exact .inl (suspended_of_shelf (sysPipe_shelf k))

theorem sysFork_vfork (room : k.state.numProcesses.toNat < MAX_PROCESSES) :
    (k.sysFork true).suspendedMask = k.suspendedMask ||| (1 <<< k.state.currentPid.toNat) ∧
      (k.sysFork true).state.currentPid = k.state.currentPid := by
  rw [sysFork, if_neg (Nat.not_le.mpr room)]
  exact ⟨rfl, rfl⟩

def Executes (c : Cpu) : Prop :=
  c.state.halted = 0 ∧ c.dispatchInterrupt.state.pc.toNat < c.dispatchInterrupt.rom.length

instance (c : Cpu) : Decidable c.Executes := inferInstanceAs (Decidable (_ ∧ _))

theorem called_of_executes (h : c.called = some k) : c.Executes := by
  unfold called at h
  split at h
  · cases h
  · next awake =>
      dsimp only at h
      split at h
      · cases h
      · next w fetched =>
          obtain ⟨inside, -⟩ := List.getElem?_eq_some_iff.mp fetched
          exact ⟨not_not.mp awake, inside⟩

end Cpu

/-- The machine and, for every process in a vfork, the child it waits for. -/
structure VforkWatch where
  cpu : Cpu
  waits : Byte → Option Byte

def Cpu.watchVforks (c : Cpu) : VforkWatch := ⟨c, fun _ => none⟩

namespace VforkWatch

variable (w : VforkWatch)

/-- A vfork makes its caller wait for the child; an exit or an exec of the child
ends that. -/
def waitsAfter (k : Cpu) : Byte → Option Byte :=
  if k.Vforks then update w.waits k.state.currentPid (some k.state.numProcesses)
  else if k.Departs then fun p =>
    if w.waits p = some k.state.currentPid then none else w.waits p
  else w.waits

def after (i : Input) : VforkWatch := ⟨w.cpu.after i.event,
    match i, w.cpu.called with
    | .step, some k => w.waitsAfter k
    | _, _ => w.waits⟩

def Suspended (c : Cpu) (p : Byte) : Prop := c.suspendedMask &&& (1 <<< p.toNat) ≠ 0

instance (c : Cpu) (p : Byte) : Decidable (Suspended c p) := inferInstanceAs (Decidable (_ ≠ _))

/-- A process in a vfork executes nothing, and an exit or an exec resumes nobody
but the vfork parent of the process that makes it. -/
structure Right (w : VforkWatch) (i : Input) : Prop where
  idle : i = .step → w.cpu.Executes → w.waits w.cpu.state.currentPid = none
  own : ∀ k, i = .step → w.cpu.called = some k → k.Departs → ∀ p, Suspended w.cpu p →
    ¬ Suspended (w.after i).cpu p → w.waits p = some k.state.currentPid

def Unsuspended (i : Input) : Prop :=
  i = .step → w.cpu.Executes → w.cpu.suspendedMask = 0

/-- As long as nothing went wrong: nobody is in a vfork, or the process that
runs is. -/
structure Fresh (w : VforkWatch) : Prop where
  started : w.cpu.Started
  mask : (w.cpu.suspendedMask = 0 ∧ ∀ p, w.waits p = none) ∨
    (w.cpu.suspendedMask ≠ 0 ∧ w.waits w.cpu.state.currentPid ≠ none)

variable {w : VforkWatch}

theorem Fresh.right_iff (fresh : w.Fresh) (i : Input) : w.Right i ↔ w.Unsuspended i := by
  rcases fresh.mask with ⟨clear, nobody⟩ | ⟨set, waiting⟩
  · refine iff_of_true ⟨fun _ _ => nobody _, ?_⟩ (fun _ _ => clear)
    intro k _ _ _ p suspended _
    rw [Suspended, clear] at suspended
    exact absurd BitVec.zero_and suspended
  · constructor
    · intro right step executes
      exact absurd (right.idle step executes) waiting
    · intro unsuspended
      refine ⟨fun step executes => absurd (unsuspended step executes) set, ?_⟩
      intro k step called
      exact absurd (unsuspended step (called_of_executes called)) set

theorem after_idle {i : Input} (idle : i = .step → ¬ w.cpu.Executes) :
    (w.after i).cpu.suspendedMask = w.cpu.suspendedMask ∧
      (w.after i).cpu.state.currentPid = w.cpu.state.currentPid ∧ (w.after i).waits = w.waits := by
  cases i with
  | key value => exact ⟨rfl, rfl, rfl⟩
  | interrupt vector => exact ⟨rfl, rfl, rfl⟩
  | step =>
    have silent : w.cpu.called = none := by
      cases called : w.cpu.called with
      | none => rfl
      | some k => exact absurd (called_of_executes called) (idle rfl)
    refine ⟨congrArg Cpu.Aside.suspendedMask (step_aside silent), (step_stays silent).pid, ?_⟩
    unfold after
    rw [silent]

theorem Fresh.of_clear (fresh : w.Fresh) (clear : w.cpu.suspendedMask = 0)
    (nobody : ∀ p, w.waits p = none) (i : Input) : (w.after i).Fresh := by
  refine ⟨fresh.started.after i, ?_⟩
  by_cases other : i ≠ .step
  · obtain ⟨mask, -, waits⟩ := after_idle fun step => absurd step other
    rw [mask, waits]
    exact .inl ⟨clear, nobody⟩
  · obtain rfl := not_not.mp other
    cases called : w.cpu.called with
    | none =>
      refine .inl ⟨(congrArg Cpu.Aside.suspendedMask (step_aside called)).trans clear, ?_⟩
      unfold after
      rw [called]
      exact nobody
    | some k =>
      obtain ⟨aside, executed, -⟩ := step_called called
      have stepped : w.cpu.step.cpu.suspendedMask = k.linuxSyscall.cpu.suspendedMask :=
        congrArg Cpu.Aside.suspendedMask executed
      have waits : (w.after .step).waits = w.waitsAfter k := by
        unfold after
        rw [called]
      have cpu : (w.after .step).cpu = w.cpu.step.cpu := rfl
      rw [waits, cpu]
      by_cases vforks : k.Vforks
      · right
        obtain ⟨mask, stays⟩ := sysFork_vfork vforks.2
        have pid : k.state.currentPid = w.cpu.state.currentPid :=
          congrArg (fun a => a.desk.currentPid) aside
        have next : w.cpu.step.cpu.state.currentPid = k.state.currentPid := by
          have same := congrArg (fun a => a.desk.currentPid) executed
          rw [linuxSyscall_vfork vforks.1] at same
          exact same.trans stays
        have small : k.state.currentPid.toNat < 32 := by
          have few : w.cpu.state.numProcesses.toNat ≤ 8 := fresh.started.few
          have running := fresh.started.running
          rw [pid]
          omega
        rw [stepped, linuxSyscall_vfork vforks.1, next]
        constructor
        · intro none
          have zero : (k.sysFork true).suspendedMask = 0 := none
          rw [mask] at zero
          have bit := (BitVec.or_eq_zero_iff.mp zero).2
          exact bit_ne_zero small (by rw [bit]; rfl)
        · rw [waitsAfter, if_pos vforks, update_self]
          exact Option.some_ne_none _
      · left
        constructor
        · rcases linuxSyscall_suspended vforks with same | zero
          · exact stepped.trans (same.trans ((congrArg Cpu.Aside.suspendedMask aside).trans clear))
          · exact stepped.trans zero
        · intro p
          rw [waitsAfter, if_neg vforks]
          split
          · dsimp only
            split
            · rfl
            · exact nobody p
          · exact nobody p

theorem Fresh.after (fresh : w.Fresh) (i : Input) (right : w.Right i) : (w.after i).Fresh := by
  rcases fresh.mask with ⟨clear, nobody⟩ | ⟨set, waiting⟩
  · exact fresh.of_clear clear nobody i
  · have idle : i = .step → ¬ w.cpu.Executes := fun step executes =>
      waiting (right.idle step executes)
    obtain ⟨mask, pid, waits⟩ := after_idle idle
    refine ⟨fresh.started.after i, .inr ?_⟩
    rw [mask, pid, waits]
    exact ⟨set, waiting⟩

end VforkWatch

/-- In a run from reset, every vfork parent stays suspended and is resumed by its
own child, if and only if nothing is executed while the suspended mask has a
bit: a vfork that succeeds is the last instruction of the run. -/
theorem vfork_suspends_iff (rom : List Word) (ram : Store Word) (fuzixPermissive : Bool)
    (inputs : List Input) :
    Along VforkWatch.after VforkWatch.Right (reset rom ram fuzixPermissive).watchVforks inputs ↔
      Along VforkWatch.after VforkWatch.Unsuspended
        (reset rom ram fuzixPermissive).watchVforks inputs := by
  have fresh : (reset rom ram fuzixPermissive).watchVforks.Fresh :=
    ⟨reset_started rom ram fuzixPermissive, .inl ⟨rfl, fun _ => rfl⟩⟩
  exact along_congr_while (fun _ i h right => h.after i right) (fun _ i h => h.right_iff i) fresh inputs

/-- A fork, and in the parent a vfork and a yield; the first child exits. -/
def forkThenVfork : List Word :=
  [encode movi.toByte 0 0 2, encode int.toByte 0 0 0x80,
    encode cmp.toByte 0 1 0, encode jz.toByte 0 0 4,
    encode movi.toByte 0 0 190, encode int.toByte 0 0 0x80,
    encode movi.toByte 0 0 158, encode int.toByte 0 0 0x80,
    encode movi.toByte 0 0 1, encode int.toByte 0 0 0x80]

/-- The parent goes on after its vfork, and the exit of the other child resumes
it. -/
theorem vfork_parent_goes_on : ¬ Along VforkWatch.after VforkWatch.Right
        (reset forkThenVfork new.ram false).watchVforks (List.replicate 6 Input.step ++
          [Input.step]) ∧ ¬ VforkWatch.Right (afterAll VforkWatch.after
        (reset forkThenVfork new.ram false).watchVforks (List.replicate 11 .step)) .step := by
  constructor
  · intro run
    have idle := (along_append.mp run).2.1.idle rfl (by decide +kernel)
    exact absurd idle (by decide +kernel)
  · intro right
    have own := right.own _ rfl rfl (by decide +kernel) 0 (by decide +kernel) (by decide +kernel)
    exact absurd own (by decide +kernel)

end Unheaded.Mbc
