import Unheaded.Mbc.HostTlb

/-!
# Context switches of the host emulator

A process gives up the CPU inside a call: by yielding, by waiting for a live process or by
exiting.
-/

namespace Unheaded.Mbc

open Lib Function

/-- What a process owns of the CPU. -/
structure Context where
  regs : Reg → Word
  pc : Word
  flags : Byte
  programBreak : Word
  pageDirBase : Word

def ProcSlot.context (slot : ProcSlot) : Context :=
  ⟨slot.regs, slot.pc, slot.flags.setWidth 8, slot.programBreak, slot.pageDirBase⟩

/-- The effect of the call `nr` on the process that made it, apart from the
time it spends waiting. -/
def Context.settle (nr : Word) (x : Context) : Context :=
  if nr = Lsys.SYS_SCHED_YIELD then { x with regs := update x.regs 0 0 }
  else if nr = Lsys.SYS_WAITPID then { x with pc := x.pc - 1 }
  else x

/-- `INT 0x80`. -/
def MbcInsn.CallsKernel (w : Word) : Prop := MbcInsn.opcode? w = some .int ∧
    ((MbcInsn.imm16 w).setWidth 32 &&& 0xFF : Word).setWidth 8 = (0x80 : Byte)

instance (w : Word) : Decidable (MbcInsn.CallsKernel w) := inferInstanceAs (Decidable (_ ∧ _))

namespace Cpu

variable (c : Cpu)

def context : Context :=
  ⟨c.state.regs, c.state.pc, c.state.flags, c.state.programBreak, c.state.pageDirBase⟩

/-- The machine as the call made by the next step finds it. -/
def called : Option Cpu :=
  if c.state.halted ≠ 0 then none
  else
    let c := c.dispatchInterrupt
    match c.rom[c.state.pc.toNat]? with
    | none => none
    | some w => if MbcInsn.CallsKernel w then some (c.withPc (c.state.pc + 1)) else none

/-- The process that a context switch goes to. -/
def successor : Option Byte :=
  let oldPid := c.state.currentPid.toNat
  let num := c.state.numProcesses.toNat
  if num ≤ 1 then none
  else
    match nextRunnable (c.haltedMask ||| c.suspendedMask) num 8 ((oldPid + 1) % num) with
    | none => none
    | some nextPid => if nextPid = oldPid then none else some (BitVec.ofNat 8 nextPid)

/-- `SYS_EXIT` up to its context switch. -/
def exiting : Cpu := unsuspendVforkParent { c with
    state := { c.state with exitCode := c.state.regs 1 }
    haltedMask := c.haltedMask ||| (1 <<< c.state.currentPid.toNat) }

/-- `SYS_WAITPID` finds its target still running. -/
def Waits : Prop := c.state.regs 1 < c.state.numProcesses.setWidth 32 ∧
    (c.haltedMask >>> (c.state.regs 1).toNat) &&& 1 = 0

instance (c : Cpu) : Decidable c.Waits := inferInstanceAs (Decidable (_ ∧ _))

/-- The machine on which a call runs the context switch. -/
def givesUp : Option Cpu :=
  if c.state.regs 0 = Lsys.SYS_EXIT then some c.exiting
  else if c.state.regs 0 = Lsys.SYS_SCHED_YIELD then some c
  else if c.state.regs 0 = Lsys.SYS_WAITPID ∧ c.Waits then some c
  else none

def heir : Option Byte := c.givesUp.bind successor

theorem translateAddress_aside (v : Word) : (c.translateAddress v).2.aside = c.aside := by
  rcases translateAddress_snd c v with same | ⟨-, -, filled⟩
  · rw [same]
  · rw [filled]
    rfl

@[simp] theorem unsuspendVforkParent_desk : c.unsuspendVforkParent.desk = c.desk := by
  unfold unsuspendVforkParent
  split <;> rfl

variable {c c' k : Cpu} {a b : ExecResult}

theorem ite_aside {p : Prop} [Decidable p] (yes : a.cpu.aside = c.aside)
    (no : b.cpu.aside = c.aside) : (if p then a else b).cpu.aside = c.aside := by
  split
  next => exact yes
  next => exact no

theorem aside_of_shelf (same : c'.shelf = c.shelf) : c'.aside = c.aside :=
  congrArg Shelf.toAside same

theorem executeInsn_aside (c : Cpu) {w : Word} (h : ¬ MbcInsn.CallsKernel w) :
    (c.executeInsn w).cpu.aside = c.aside := by
  unfold executeInsn
  dsimp only
  split
  all_goals first
    | rfl
    | exact aside_of_shelf (branchIf_shelf c w _)
    | exact aside_of_shelf (pushWord_shelf c _)
    | exact ite_aside rfl rfl
    | skip
  case h_39 | h_41 | h_43 => exact translateAddress_aside c _
  case h_40 => exact (aside_of_shelf (memWriteWord_shelf _ _ _)).trans (translateAddress_aside c _)
  case h_42 => exact (aside_of_shelf (memWriteByte_shelf _ _ _)).trans (translateAddress_aside c _)
  case h_44 => exact (aside_of_shelf (memWriteHalf_shelf _ _ _)).trans (translateAddress_aside c _)
  case h_47 => exact aside_of_shelf (exchange_shelf c _ _ _)
  case h_48 => exact aside_of_shelf (compareAndSwap_shelf c)
  case h_53 => exact aside_of_shelf (storeConditional_shelf c _ _ _)
  case h_54 => exact aside_of_shelf (monadSyscall_shelf c)
  case h_55 op =>
      have other : ¬ ((MbcInsn.imm16 w).setWidth 32 &&& 0xFF : Word).setWidth 8 = (0x80 : Byte) :=
        fun vector => h ⟨op, vector⟩
      unfold intInsn
      dsimp only
      rw [if_neg other]
      rfl
  case h_56 => exact aside_of_shelf (iret_shelf c)

def Zombie (c : Cpu) (p : Byte) : Prop := c.haltedMask &&& (1 <<< p.toNat) ≠ 0

instance (c : Cpu) (p : Byte) : Decidable (c.Zombie p) := inferInstanceAs (Decidable (_ ≠ _))

/-- The same process goes on: the rows of the others, which are in use, are
left alone. -/
structure Stays (c c' : Cpu) : Prop where
  pid : c'.state.currentPid = c.state.currentPid
  grows : c.state.numProcesses.toNat ≤ c'.state.numProcesses.toNat
  bounded : c.state.numProcesses.toNat ≤ MAX_PROCESSES → c'.state.numProcesses.toNat ≤ MAX_PROCESSES
  rows : ∀ p, p ≠ c.state.currentPid → p.toNat < c.state.numProcesses.toNat →
    c'.procTable p = c.procTable p
  dead : ∀ p, c.Zombie p → c'.Zombie p

/-- The call of `k` hands the CPU to `next`: the caller is saved as it stands,
and what its call has left to do is done to `next`. -/
structure Switches (k c' : Cpu) (next : Byte) : Prop where
  pid : c'.state.currentPid = next
  other : next ≠ k.state.currentPid
  known : next.toNat < k.state.numProcesses.toNat
  count : c'.state.numProcesses = k.state.numProcesses
  awake : ¬ k.Zombie next
  exited : k.state.regs 0 = Lsys.SYS_EXIT → c'.Zombie k.state.currentPid
  dead : ∀ p, k.Zombie p → c'.Zombie p
  rows : c'.procTable = update k.procTable k.state.currentPid k.saveSlot
  context : c'.context = (k.procTable next).context.settle (k.state.regs 0)

theorem stays_of_desk (h : c'.desk = c.desk) : Stays c c' := by
  have table := congrArg Desk.procTable h
  have count : c'.state.numProcesses = c.state.numProcesses := congrArg Desk.numProcesses h
  have mask : c'.haltedMask = c.haltedMask := congrArg Desk.haltedMask h
  refine ⟨congrArg Desk.currentPid h, ?_, ?_, fun p _ _ => congrFun table p, fun p zombie => ?_⟩
  · rw [count]
  · rw [count]
    exact id
  · rwa [Zombie, mask]

theorem desk_of_shelf (same : c'.shelf = c.shelf) : c'.desk = c.desk :=
  congrArg Aside.desk (aside_of_shelf same)

theorem stays_of_shelf (same : c'.shelf = c.shelf) : Stays c c' := stays_of_desk (desk_of_shelf same)

theorem Stays.trans (first : Stays c k) (second : Stays k c') : Stays c c' where
  pid := second.pid.trans first.pid
  grows := first.grows.trans second.grows
  bounded few := second.bounded (first.bounded few)
  rows p other known := by
    rw [second.rows p (by rwa [first.pid]) (known.trans_le first.grows), first.rows p other known]
  dead p zombie := second.dead p (first.dead p zombie)

theorem nextRunnable_spec {skipMask : Word} {num tries pid next : Nat}
    (h : nextRunnable skipMask num tries pid = some next) :
    next < num ∧ skipMask &&& (1 <<< next) = 0 := by
  induction tries generalizing pid with
  | zero => cases h
  | succ tries ih =>
    rw [nextRunnable] at h
    split at h
    next found =>
      cases h
      exact found
    next => exact ih h

variable {next : Byte}

theorem successor_spec (h : c.successor = some next) :
    next ≠ c.state.currentPid ∧ next.toNat < c.state.numProcesses.toNat ∧ ¬ c.Zombie next := by
  simp only [successor] at h
  split at h
  next => cases h
  next several =>
    split at h
    next => cases h
    next nextPid found =>
      split at h
      next => cases h
      next other =>
        obtain ⟨known, awake⟩ := nextRunnable_spec found
        have small : nextPid < 2 ^ 8 := known.trans c.state.numProcesses.isLt
        have value : (BitVec.ofNat 8 nextPid).toNat = nextPid := by
          rw [BitVec.toNat_ofNat, Nat.mod_eq_of_lt small]
        cases h
        refine ⟨fun same => other ?_, ?_, ?_⟩
        · rw [← same, value]
        · rwa [value]
        · rw [BitVec.and_or_distrib_right] at awake
          rw [Zombie, value, not_not]
          exact (BitVec.or_eq_zero_iff.mp awake).1

theorem schedulerContextSwitch_stays (h : c.successor = none) :
    Stays c c.schedulerContextSwitch := by
  have saved (c' : Cpu) (table : c'.procTable =
      update c.procTable c.state.currentPid c.saveSlot)
      (state : c'.state = c.state) (mask : c'.haltedMask = c.haltedMask) : Stays c c' := by
    refine ⟨by rw [state], by rw [state], by rw [state]; exact id, fun p other _ => ?_,
      fun p zombie => by rwa [Zombie, mask]⟩
    rw [table, update_of_ne other]
  simp only [successor] at h
  unfold schedulerContextSwitch
  dsimp only
  split at h
  next alone =>
    rw [if_pos alone]
    exact stays_of_desk rfl
  next several =>
    rw [if_neg several]
    generalize nextRunnable _ _ _ _ = picked at h ⊢
    cases picked with
    | none => exact saved _ rfl rfl rfl
    | some nextPid =>
      dsimp only at h ⊢
      split at h
      next same =>
        rw [if_pos same]
        exact saved _ rfl rfl rfl
      next => cases h

theorem schedulerContextSwitch_switches (h : c.successor = some next) :
    c.schedulerContextSwitch = { c with
        procTable := update c.procTable c.state.currentPid c.saveSlot
        state := { c.state with
          reservationAddress := 0xFFFFFFFF
          regs := (c.procTable next).regs
          pc := (c.procTable next).pc
          flags := (c.procTable next).flags.setWidth 8
          programBreak := (c.procTable next).programBreak
          pageDirBase := (c.procTable next).pageDirBase
          currentPid := next } } := by
  have other := (successor_spec h).1
  simp only [successor] at h
  unfold schedulerContextSwitch
  dsimp only
  split at h
  next => cases h
  next several =>
    rw [if_neg several]
    generalize nextRunnable _ _ _ _ = picked at h ⊢
    cases picked with
    | none => cases h
    | some nextPid =>
      dsimp only at h ⊢
      split at h <;> cases h
      next differs =>
        rw [if_neg differs, update_of_ne other]

theorem successor_alone (h : ¬ 1 < c.state.numProcesses.toNat) : c.successor = none :=
  if_pos (Nat.not_lt.mp h)

theorem switches_of_successor {h : Cpu} (found : h.successor = some next)
    (table : h.procTable = k.procTable) (saved : h.saveSlot = k.saveSlot)
    (pid : h.state.currentPid = k.state.currentPid)
    (count : h.state.numProcesses = k.state.numProcesses) (dead : ∀ p, k.Zombie p → h.Zombie p)
    (exited : k.state.regs 0 = Lsys.SYS_EXIT → h.Zombie k.state.currentPid)
    (desk : c'.desk = h.schedulerContextSwitch.desk)
    (context : c'.context = h.schedulerContextSwitch.context.settle (k.state.regs 0)) :
    Switches k c' next := by
  obtain ⟨other, known, awake⟩ := successor_spec found
  rw [schedulerContextSwitch_switches found] at desk context
  have mask : c'.haltedMask = h.haltedMask := congrArg Desk.haltedMask desk
  have stillDead (p : Byte) (zombie : h.Zombie p) : c'.Zombie p := by rwa [Zombie, mask]
  refine ⟨congrArg Desk.currentPid desk, pid ▸ other, count ▸ known,
    (congrArg Desk.numProcesses desk).trans count, fun zombie => awake (dead next zombie),
    fun exits => stillDead _ (exited exits), fun p zombie => stillDead p (dead p zombie), ?_, ?_⟩
  · rw [← table, ← saved, ← pid]
    exact congrArg Desk.procTable desk
  · rw [context, ← table]
    rfl

theorem exiting_desk (c : Cpu) : c.exiting.desk =
      { c.desk with haltedMask := c.haltedMask ||| (1 <<< c.state.currentPid.toNat) } :=
  unsuspendVforkParent_desk _

theorem exiting_saveSlot (c : Cpu) : c.exiting.saveSlot = c.saveSlot := by
  unfold exiting unsuspendVforkParent
  split <;> rfl

theorem exiting_dead {p : Byte} (h : c.Zombie p) : c.exiting.Zombie p := by
  have mask : c.exiting.haltedMask = c.haltedMask ||| (1 <<< c.state.currentPid.toNat) :=
    congrArg Desk.haltedMask (exiting_desk c)
  rw [Zombie, mask, BitVec.and_or_distrib_right]
  exact fun none => h (BitVec.or_eq_zero_iff.mp none).1

theorem bit_ne_zero {n : Nat} (h : n < 32) : (1 <<< n : Word) &&& (1 <<< n) ≠ 0 := by
  have own (n : Fin 32) : (1 <<< n.val : Word) &&& (1 <<< n.val) ≠ 0 := by
    revert n
    decide
  exact own ⟨n, h⟩

theorem exiting_zombie (h : c.state.currentPid.toNat < 32) :
    c.exiting.Zombie c.state.currentPid := by
  have mask : c.exiting.haltedMask = c.haltedMask ||| (1 <<< c.state.currentPid.toNat) :=
    congrArg Desk.haltedMask (exiting_desk c)
  rw [Zombie, mask, BitVec.and_or_distrib_right]
  exact fun none => bit_ne_zero h (BitVec.or_eq_zero_iff.mp none).2

theorem exiting_stays (c : Cpu) : Stays c c.exiting := by
  have desk := exiting_desk c
  have count : c.exiting.state.numProcesses = c.state.numProcesses :=
    congrArg Desk.numProcesses desk
  refine ⟨congrArg Desk.currentPid desk, ?_, ?_,
    fun p _ _ => congrFun (congrArg Desk.procTable desk) p, fun p => exiting_dead⟩
  · rw [count]
  · rw [count]
    exact id

theorem sysExit_eq (c : Cpu) : c.sysExit =
      if 1 < c.exiting.state.numProcesses.toNat then
        if c.exiting.schedulerContextSwitch.state.currentPid = c.state.currentPid then
          .err .halted { c.exiting.schedulerContextSwitch with
            state := { c.exiting.schedulerContextSwitch.state with halted := 1 } }
        else .ok c.exiting.schedulerContextSwitch
      else .err .halted { c.exiting with state := { c.exiting.state with halted := 1 } } := rfl

theorem sysExit_stays (h : c.exiting.successor = none) : Stays c c.sysExit.cpu := by
  have switched := (exiting_stays c).trans (schedulerContextSwitch_stays h)
  rw [sysExit_eq]
  split
  next =>
    rw [if_pos switched.pid]
    exact switched.trans (stays_of_desk rfl)
  next => exact (exiting_stays c).trans (stays_of_desk rfl)

theorem sysExit_switches (small : c.state.currentPid.toNat < 32)
    (nr : c.state.regs 0 = Lsys.SYS_EXIT) (h : c.exiting.successor = some next) :
    Switches c c.sysExit.cpu next := by
  have desk := exiting_desk c
  have pid : c.exiting.state.currentPid = c.state.currentPid := congrArg Desk.currentPid desk
  have gone : c.sysExit = .ok c.exiting.schedulerContextSwitch := by
    have several : 1 < c.exiting.state.numProcesses.toNat := by
      by_contra alone
      simp [successor_alone alone] at h
    have other : c.exiting.schedulerContextSwitch.state.currentPid ≠ c.state.currentPid := by
      rw [schedulerContextSwitch_switches h, ← pid]
      exact (successor_spec h).1
    rw [sysExit_eq, if_pos several, if_neg other]
  rw [gone]
  refine switches_of_successor h (congrArg Desk.procTable desk) (exiting_saveSlot c) pid
    (congrArg Desk.numProcesses desk) (fun p => exiting_dead) (fun _ => exiting_zombie small) rfl ?_
  rw [nr]
  rfl

def relinquish (c : Cpu) : Cpu :=
  if 1 < c.state.numProcesses.toNat then c.schedulerContextSwitch else c

theorem relinquish_stays (h : c.successor = none) : Stays c c.relinquish := by
  unfold relinquish
  split
  next => exact schedulerContextSwitch_stays h
  next => exact stays_of_desk rfl

theorem relinquish_switches (h : c.successor = some next) :
    c.relinquish = c.schedulerContextSwitch := by
  have several : 1 < c.state.numProcesses.toNat := by
    by_contra alone
    simp [successor_alone alone] at h
  exact if_pos several

theorem yield_switches (nr : c.state.regs 0 = Lsys.SYS_SCHED_YIELD) (h : c.successor = some next) :
    Switches c (c.relinquish.setReg 0 0) next := by
  rw [relinquish_switches h]
  refine switches_of_successor h rfl rfl rfl rfl (fun p => id) (fun exits => ?_) rfl ?_
  · rw [nr] at exits
    exact absurd exits (by decide)
  · rw [nr]
    rfl

theorem sysWaitpid_of_waits (h : c.Waits) :
    c.sysWaitpid = c.relinquish.withPc (c.relinquish.state.pc - 1) := by
  have live := not_not.mpr h.2
  rw [sysWaitpid, if_pos h.1, if_neg live]
  rfl

theorem sysWaitpid_of_not (h : ¬ c.Waits) : c.sysWaitpid.desk = c.desk := by
  unfold sysWaitpid
  dsimp only
  split
  next known =>
    split
    next => rfl
    next live => exact absurd ⟨known, not_not.mp live⟩ h
  next => rfl

theorem wait_switches (nr : c.state.regs 0 = Lsys.SYS_WAITPID) (waits : c.Waits)
    (h : c.successor = some next) : Switches c c.sysWaitpid next := by
  rw [sysWaitpid_of_waits waits, relinquish_switches h]
  refine switches_of_successor h rfl rfl rfl rfl (fun p => id) (fun exits => ?_) rfl ?_
  · rw [nr] at exits
    exact absurd exits (by decide)
  · rw [nr]
    rfl

theorem sysFork_stays (c : Cpu) (vfork : Bool) : Stays c (c.sysFork vfork) := by
  unfold sysFork
  split
  next => exact stays_of_desk rfl
  next room =>
    have few : c.state.numProcesses.toNat < 8 := Nat.not_le.mp room
    have more : (c.state.numProcesses + 1).toNat = c.state.numProcesses.toNat + 1 := by
      exact Nat.mod_eq_of_lt (show c.state.numProcesses.toNat + 1 < 2 ^ 8 by omega)
    refine ⟨rfl, ?_, fun _ => ?_, fun p _ known => ?_, fun p => id⟩
    · exact (Nat.le_succ _).trans more.ge
    · exact more.trans_le few
    · have older : p ≠ c.state.numProcesses := by
        rintro rfl
        exact Nat.lt_irrefl _ known
      exact update_of_ne older _ _

theorem sysExecve_desk (c : Cpu) : c.sysExecve.desk = c.desk := unsuspendVforkParent_desk _

theorem stays_ite {p : Prop} [Decidable p] (yes : p → Stays c a.cpu) (no : ¬ p → Stays c b.cpu) :
    Stays c (if p then a else b).cpu := by
  split
  next h => exact yes h
  next h => exact no h

theorem linuxSyscall_stays (exit : c.state.regs 0 ≠ Lsys.SYS_EXIT)
    (yield : c.state.regs 0 ≠ Lsys.SYS_SCHED_YIELD) (wait : c.state.regs 0 ≠ Lsys.SYS_WAITPID) :
    Stays c c.linuxSyscall.cpu := by
  unfold linuxSyscall
  repeat' with_reducible refine stays_ite (fun _ => ?_) (fun _ => ?_)
  all_goals first
    | exact stays_of_desk rfl
    | contradiction
    | skip
  · exact stays_of_shelf (sysWrite_shelf c)
  · exact stays_of_shelf (sysBrk_shelf c)
  · exact stays_of_shelf (sysClockGettime_shelf c)
  · exact stays_of_shelf (sysBlock_shelf c false)
  · exact stays_of_shelf (sysBlock_shelf c true)
  · exact sysFork_stays c false
  · exact sysFork_stays c true
  · exact stays_of_shelf (sysRead_shelf c)
  · exact stays_of_desk (sysExecve_desk c)
  · exact stays_of_shelf (sysSignal_shelf c)
  · exact stays_of_shelf (sysStat_shelf c)
  · exact stays_of_shelf (sysIoctl_shelf c)
  · exact stays_of_shelf (sysPipe_shelf c)

theorem linuxSyscall_exit (h : c.state.regs 0 = Lsys.SYS_EXIT) : c.linuxSyscall = c.sysExit := by
  rw [linuxSyscall, h]
  cases c.fuzixPermissive <;> rfl

theorem linuxSyscall_yield (h : c.state.regs 0 = Lsys.SYS_SCHED_YIELD) :
    c.linuxSyscall = .ok (c.relinquish.setReg 0 0) := by
  rw [linuxSyscall, h]
  cases c.fuzixPermissive <;> rfl

theorem linuxSyscall_wait (h : c.state.regs 0 = Lsys.SYS_WAITPID) :
    c.linuxSyscall = .ok c.sysWaitpid := by
  rw [linuxSyscall, h]
  cases c.fuzixPermissive <;> rfl

theorem linuxSyscall_keeps (h : c.heir = none) : Stays c c.linuxSyscall.cpu := by
  unfold heir givesUp at h
  split at h
  next exit =>
    rw [linuxSyscall_exit exit]
    exact sysExit_stays h
  next exit =>
    split at h
    next yield =>
      rw [linuxSyscall_yield yield]
      exact (relinquish_stays h).trans (stays_of_desk rfl)
    next yield =>
      split at h
      next wait =>
        rw [linuxSyscall_wait wait.1, sysWaitpid_of_waits wait.2]
        exact (relinquish_stays h).trans (stays_of_desk rfl)
      next idle =>
        by_cases wait : c.state.regs 0 = Lsys.SYS_WAITPID
        · rw [linuxSyscall_wait wait]
          exact stays_of_desk (sysWaitpid_of_not fun waits => idle ⟨wait, waits⟩)
        · exact linuxSyscall_stays exit yield wait

theorem linuxSyscall_switches (small : c.state.currentPid.toNat < 32) (h : c.heir = some next) :
    Switches c c.linuxSyscall.cpu next := by
  unfold heir givesUp at h
  split at h
  next exit =>
    rw [linuxSyscall_exit exit]
    exact sysExit_switches small exit h
  next exit =>
    split at h
    next yield =>
      rw [linuxSyscall_yield yield]
      exact yield_switches yield h
    next yield =>
      split at h
      next wait =>
        rw [linuxSyscall_wait wait.1]
        exact wait_switches wait.1 wait.2 h
      next => cases h

end Cpu

end Unheaded.Mbc
