import Unheaded.Mbc.HostSwitch

/-!
# Processes of the host emulator across context switches

A run is watched together with what every process had when it gave up the CPU.
-/

namespace Unheaded.Mbc

open Lib Option Function Cpu.Desk

namespace Cpu

variable {c k : Cpu}

theorem Switches.of_desk {c' c'' : Cpu} {next : Byte} (h : Switches k c' next)
    (desk : c''.desk = c'.desk) (context : c''.context = c'.context) : Switches k c'' next := by
  have mask : c''.haltedMask = c'.haltedMask := congrArg Desk.haltedMask desk
  have stillDead (p : Byte) (zombie : c'.Zombie p) : c''.Zombie p := by rwa [Zombie, mask]
  exact ⟨(congrArg Desk.currentPid desk).trans h.pid, h.other, h.known,
    (congrArg Desk.numProcesses desk).trans h.count, h.awake, fun exits => stillDead _ (h.exited exits),
    fun p zombie => stillDead p (h.dead p zombie), (congrArg Desk.procTable desk).trans h.rows,
    context.trans h.context⟩

theorem step_aside (h : c.called = none) : c.step.cpu.aside = c.aside := by
  unfold step
  unfold called at h
  split at h
  next halted =>
    rw [if_pos halted]
    rfl
  next awake =>
    rw [if_neg awake]
    dsimp only at h ⊢
    generalize c.dispatchInterrupt.rom[c.dispatchInterrupt.state.pc.toNat]? = fetched at h ⊢
    cases fetched with
    | none => exact aside_of_shelf (dispatchInterrupt_shelf c)
    | some w =>
      dsimp only at h ⊢
      split at h
      next => cases h
      next other =>
        have same := executeInsn_aside
          (c.dispatchInterrupt.withPc (c.dispatchInterrupt.state.pc + 1)) other
        refine Eq.trans ?_ (same.trans (aside_of_shelf (dispatchInterrupt_shelf c)))
        cases (c.dispatchInterrupt.withPc (c.dispatchInterrupt.state.pc + 1)).executeInsn w <;> rfl

theorem step_stays (h : c.called = none) : Stays c c.step.cpu :=
  stays_of_desk (congrArg Aside.desk (step_aside h))

def counted : ExecResult → ExecResult
  | .ok c => .ok c.countInsn
  | .err e c => .err e c

theorem step_of_called (h : c.called = some k) :
    k = c.dispatchInterrupt.withPc (c.dispatchInterrupt.state.pc + 1) ∧
      c.step = counted k.linuxSyscall := by
  unfold called at h
  split at h
  next => cases h
  next awake =>
    dsimp only at h
    split at h
    next => cases h
    next w fetched =>
      split at h <;> cases h
      next kernel =>
        have call : (c.dispatchInterrupt.withPc (c.dispatchInterrupt.state.pc + 1)).executeInsn w =
            (c.dispatchInterrupt.withPc (c.dispatchInterrupt.state.pc + 1)).linuxSyscall := by
          rw [executeInsn, kernel.1]
          exact if_pos kernel.2
        refine ⟨rfl, ?_⟩
        rw [step, if_neg awake]
        dsimp only
        rw [fetched]
        dsimp only
        rw [call]
        rfl

theorem step_called (h : c.called = some k) :
    k.aside = c.aside ∧ c.step.cpu.aside = k.linuxSyscall.cpu.aside ∧
      c.step.cpu.context = k.linuxSyscall.cpu.context := by
  obtain ⟨rfl, step⟩ := step_of_called h
  rw [step]
  refine ⟨aside_of_shelf (dispatchInterrupt_shelf c), ?_⟩
  cases (c.dispatchInterrupt.withPc (c.dispatchInterrupt.state.pc + 1)).linuxSyscall with
  | ok c' => exact ⟨rfl, rfl⟩
  | err e c' => exact ⟨rfl, rfl⟩

/-- Somebody runs, and there are at most eight processes. -/
structure Started (c : Cpu) : Prop where
  running : c.state.currentPid.toNat < c.state.numProcesses.toNat
  few : c.state.numProcesses.toNat ≤ MAX_PROCESSES

def handover (c : Cpu) : Option (Cpu × Byte) :=
  c.called.bind fun k => k.heir.map fun next => (k, next)

theorem step_keeps (h : c.handover = none) : Stays c c.step.cpu := by
  unfold handover at h
  cases call : c.called with
  | none => exact step_stays call
  | some k =>
    rw [call] at h
    obtain ⟨before, after, -⟩ := step_called call
    have heir : k.heir = none := map_eq_none_iff.mp h
    exact (stays_of_desk (congrArg Aside.desk before)).trans
      ((linuxSyscall_keeps heir).trans (stays_of_desk (congrArg Aside.desk after)))

theorem step_switches {next : Byte} (started : c.Started) (h : c.handover = some (k, next)) :
    c.called = some k ∧ k.desk = c.desk ∧ k.givesUp ≠ none ∧ Switches k c.step.cpu next := by
  unfold handover at h
  cases call : c.called with
  | none =>
    simp [call] at h
  | some k' =>
    rw [call] at h
    obtain ⟨heir', heir, same⟩ := map_eq_some_iff.mp h
    cases same
    obtain ⟨same, after, context⟩ := step_called call
    have before := congrArg Aside.desk same
    have pid : k.state.currentPid = c.state.currentPid := congrArg Desk.currentPid before
    have small : k.state.currentPid.toNat < 32 := by
      have few : c.state.numProcesses.toNat ≤ 8 := started.few
      have running := started.running
      rw [pid]
      omega
    refine ⟨rfl, before, fun none => ?_,
      (linuxSyscall_switches small heir).of_desk (congrArg Aside.desk after) context⟩
    simp [Cpu.heir, none] at heir

end Cpu

def GivesUp (nr : Word) : Prop :=
  nr = Lsys.SYS_EXIT ∨ nr = Lsys.SYS_SCHED_YIELD ∨ nr = Lsys.SYS_WAITPID

theorem Cpu.givesUp_of_some {c : Cpu} (h : c.givesUp ≠ none) : GivesUp (c.state.regs 0) := by
  unfold Cpu.givesUp at h
  split at h
  next exit => exact .inl exit
  next =>
    split at h
    next yield => exact .inr (.inl yield)
    next =>
      split at h
      next wait => exact .inr (.inr wait.1)
      next => exact absurd rfl h

theorem Context.settle_eq_iff {x : Context} {nr running : Word} (saved : x.regs 0 = nr)
    (alive : nr ≠ Lsys.SYS_EXIT) (gave : GivesUp nr) (gives : GivesUp running) :
    x.settle running = x.settle nr ↔ nr = running := by
  constructor
  · intro same
    have regs := congrFun (congrArg Context.regs same) 0
    have pc := congrArg Context.pc same
    have moved : x.pc ≠ x.pc - 1 := by
      intro stuck
      rw [BitVec.eq_sub_iff_add_eq] at stuck
      simp at stuck
    rcases gave with exit | rfl | rfl
    · exact absurd exit alive
    · have cleared : (x.settle Lsys.SYS_SCHED_YIELD).regs 0 = 0 := rfl
      rcases gives with rfl | rfl | rfl
      · have kept : (x.settle Lsys.SYS_EXIT).regs 0 = x.regs 0 := rfl
        rw [cleared, kept, saved] at regs
        exact absurd regs (by decide)
      · rfl
      · have kept : (x.settle Lsys.SYS_WAITPID).regs 0 = x.regs 0 := rfl
        rw [cleared, kept, saved] at regs
        exact absurd regs (by decide)
    · rcases gives with rfl | rfl | rfl
      · exact absurd pc moved
      · exact absurd pc moved
      · rfl
  · rintro rfl
    rfl

/-- What can happen to the machine while its processes make the switches. -/
inductive Input where
  | step
  | key (value : Word)
  | interrupt (vector : Byte)
  deriving DecidableEq

def Input.event : Input → Event
  | .step => .step
  | .key value => .key value
  | .interrupt vector => .interrupt vector

/-- The machine together with what every process had when it gave up the CPU,
and the call by which it did. -/
structure Watched where
  cpu : Cpu
  parked : Byte → Option (Word × Context)

def Cpu.watch (c : Cpu) : Watched := ⟨c, fun _ => none⟩

namespace Watched

variable (w : Watched)

def after (i : Input) : Watched :=
  let c := w.cpu.after i.event
  if c.state.currentPid = w.cpu.state.currentPid then ⟨c, w.parked⟩
  else
    let left := w.cpu.called.map fun k => (k.state.regs 0, k.context)
    ⟨c, update (update w.parked w.cpu.state.currentPid left)
      c.state.currentPid none⟩

/-- A process that runs again has what it had when it gave up the CPU, but for
the effect of its own call. -/
def Preserves (i : Input) : Prop :=
  ∀ nr x, (w.after i).cpu.state.currentPid ≠ w.cpu.state.currentPid →
    w.parked (w.after i).cpu.state.currentPid = some (nr, x) →
    (w.after i).cpu.context = x.settle nr

/-- The CPU is handed back to a process only by the call with which that
process gave it up: its number is in the saved `r0`. -/
def Matches (i : Input) : Prop :=
  i = .step → ∀ h ∈ w.cpu.handover, w.parked h.2 ≠ none →
    (h.1.procTable h.2).regs 0 = h.1.state.regs 0

/-- The rows of the waiting processes are what they gave up. -/
structure Faithful (w : Watched) : Prop where
  started : w.cpu.Started
  others : ∀ p nr x, w.parked p = some (nr, x) →
    p ≠ w.cpu.state.currentPid ∧ p.toNat < w.cpu.state.numProcesses.toNat
  rows : ∀ p nr x, w.parked p = some (nr, x) → (w.cpu.procTable p).context = x ∧ x.regs 0 = nr
  calls : ∀ p nr x, w.parked p = some (nr, x) → GivesUp nr
  exits : ∀ p nr x, w.parked p = some (nr, x) → nr = Lsys.SYS_EXIT → w.cpu.Zombie p

theorem watch_faithful {c : Cpu} (h : c.Started) : c.watch.Faithful where
  started := h
  others _ _ _ none := nomatch none
  rows _ _ _ none := nomatch none
  calls _ _ _ none := nomatch none
  exits _ _ _ none := nomatch none

theorem after_cases (i : Input) :
    (Cpu.Stays w.cpu (w.cpu.after i.event) ∧ (i = .step → w.cpu.handover = none)) ∨
      (i = .step ∧ ∃ k next, w.cpu.handover = some (k, next)) := by
  cases i with
  | key value => exact .inl ⟨Cpu.stays_of_desk rfl, nofun⟩
  | interrupt vector => exact .inl ⟨Cpu.stays_of_desk rfl, nofun⟩
  | step =>
    cases h : w.cpu.handover with
    | none => exact .inl ⟨Cpu.step_keeps h, fun _ => rfl⟩
    | some given => exact .inr ⟨rfl, given.1, given.2, rfl⟩

variable {w : Watched}

theorem after_stays {i : Input} (h : Cpu.Stays w.cpu (w.cpu.after i.event)) :
    w.after i = ⟨w.cpu.after i.event, w.parked⟩ :=
  if_pos h.pid

theorem after_switches {k : Cpu} {next : Byte} (call : w.cpu.called = some k)
    (desk : k.desk = w.cpu.desk) (h : Cpu.Switches k w.cpu.step.cpu next) :
    w.after .step = ⟨w.cpu.step.cpu, update (update w.parked w.cpu.state.currentPid
        (some (k.state.regs 0, k.context))) next none⟩ := by
  have pid : k.state.currentPid = w.cpu.state.currentPid := congrArg currentPid desk
  have other : w.cpu.step.cpu.state.currentPid ≠ w.cpu.state.currentPid := by
    rw [h.pid, ← pid]
    exact h.other
  have moved : w.after .step = ⟨w.cpu.step.cpu,
      update (update w.parked w.cpu.state.currentPid
        (w.cpu.called.map fun k => (k.state.regs 0, k.context)))
        w.cpu.step.cpu.state.currentPid none⟩ := if_neg other
  rw [moved, call, h.pid]
  rfl

theorem Faithful.stays {i : Input} (h : w.Faithful) (stays : Cpu.Stays w.cpu (w.cpu.after i.event)) :
    (w.after i).Faithful := by
  rw [after_stays stays]
  constructor
  · constructor
    · exact (stays.pid ▸ h.started.running).trans_le stays.grows
    · exact stays.bounded h.started.few
  · intro p nr x parked
    obtain ⟨other, known⟩ := h.others p nr x parked
    exact ⟨stays.pid ▸ other, known.trans_le stays.grows⟩
  · intro p nr x parked
    obtain ⟨other, known⟩ := h.others p nr x parked
    have row := stays.rows p other known
    exact ⟨row ▸ (h.rows p nr x parked).1, (h.rows p nr x parked).2⟩
  · exact h.calls
  · intro p nr x parked exit
    exact stays.dead p (h.exits p nr x parked exit)

theorem saveSlot_context (c : Cpu) : c.saveSlot.context = c.context := by
  have flags : (c.state.flags.setWidth 32).setWidth 8 = c.state.flags := by
    rw [BitVec.setWidth_setWidth_of_le _ (by decide), BitVec.setWidth_eq]
  rw [Cpu.saveSlot, ProcSlot.context, Cpu.context, flags]

theorem Faithful.switches {k : Cpu} {next : Byte} (h : w.Faithful)
    (given : w.cpu.handover = some (k, next)) : (w.after .step).Faithful := by
  obtain ⟨call, desk, gives, switch⟩ := Cpu.step_switches h.started given
  have pid : k.state.currentPid = w.cpu.state.currentPid := congrArg currentPid desk
  have count : k.state.numProcesses = w.cpu.state.numProcesses :=
    congrArg numProcesses desk
  have table : k.procTable = w.cpu.procTable := congrArg procTable desk
  have mask : k.haltedMask = w.cpu.haltedMask := congrArg haltedMask desk
  have rows := switch.rows
  have total := switch.count.trans count
  rw [pid, table] at rows
  -- Whoever is parked afterwards is the caller or was parked before.
  have parked (p : Byte) (nr : Word) (x : Context)
      (found : (w.after .step).parked p = some (nr, x)) :
      p ≠ next ∧ ((p = w.cpu.state.currentPid ∧ nr = k.state.regs 0 ∧ x = k.context) ∨
        (p ≠ w.cpu.state.currentPid ∧ w.parked p = some (nr, x))) := by
    rw [after_switches call desk switch] at found
    dsimp only at found
    have other : p ≠ next := by
      rintro rfl
      simp [update_self] at found
    rw [update_of_ne other] at found
    refine ⟨other, ?_⟩
    by_cases own : p = w.cpu.state.currentPid
    · rw [own, update_self] at found
      cases found
      exact .inl ⟨own, rfl, rfl⟩
    · rw [update_of_ne own] at found
      exact .inr ⟨own, found⟩
  have cpu : (w.after .step).cpu = w.cpu.step.cpu :=
    congrArg Watched.cpu (after_switches call desk switch)
  constructor
  · rw [cpu]
    constructor
    · rw [switch.pid, switch.count]
      exact switch.known
    · rw [total]
      exact h.started.few
  · intro p nr x found
    rw [cpu, switch.pid, total]
    obtain ⟨other, ⟨rfl, -⟩ | ⟨-, before⟩⟩ := parked p nr x found
    · exact ⟨other, h.started.running⟩
    · exact ⟨other, (h.others p nr x before).2⟩
  · intro p nr x found
    rw [cpu, rows]
    obtain ⟨-, ⟨rfl, rfl, rfl⟩ | ⟨own, before⟩⟩ := parked p nr x found
    · rw [update_self]
      exact ⟨saveSlot_context k, rfl⟩
    · rw [update_of_ne own]
      exact h.rows p nr x before
  · intro p nr x found
    obtain ⟨-, ⟨-, rfl, -⟩ | ⟨-, before⟩⟩ := parked p nr x found
    · exact Cpu.givesUp_of_some gives
    · exact h.calls p nr x before
  · intro p nr x found exit
    rw [cpu]
    obtain ⟨-, ⟨rfl, rfl, -⟩ | ⟨-, before⟩⟩ := parked p nr x found
    · exact pid ▸ switch.exited exit
    · have zombie := h.exits p nr x before exit
      exact switch.dead p (by rwa [Cpu.Zombie, mask])

theorem Faithful.after (h : w.Faithful) (i : Input) : (w.after i).Faithful := by
  rcases after_cases w i with ⟨stays, -⟩ | ⟨rfl, k, next, given⟩
  · exact h.stays stays
  · exact h.switches given

theorem Faithful.preserves_iff (h : w.Faithful) (i : Input) : w.Preserves i ↔ w.Matches i := by
  rcases after_cases w i with ⟨stays, idle⟩ | ⟨rfl, k, next, given⟩
  · have pid : (w.after i).cpu.state.currentPid = w.cpu.state.currentPid := by
      rw [after_stays stays]
      exact stays.pid
    constructor
    · intro _ step given some
      simp [idle step] at some
    · intro _ nr x moved
      exact absurd pid moved
  · obtain ⟨call, desk, gives, switch⟩ := Cpu.step_switches h.started given
    have cpu : (w.after .step).cpu = w.cpu.step.cpu :=
      congrArg Watched.cpu (after_switches call desk switch)
    have table : k.procTable = w.cpu.procTable := congrArg procTable desk
    have mask : k.haltedMask = w.cpu.haltedMask := congrArg haltedMask desk
    have pid : k.state.currentPid = w.cpu.state.currentPid := congrArg currentPid desk
    have alive : ¬ w.cpu.Zombie next := by
      have awake := switch.awake
      rwa [Cpu.Zombie, mask] at awake
    have resumed (nr : Word) (x : Context) (parked : w.parked next = some (nr, x)) :
        w.cpu.step.cpu.context = x.settle nr ↔ (k.procTable next).regs 0 = k.state.regs 0 := by
      obtain ⟨row, saved⟩ := h.rows next nr x parked
      have number : (k.procTable next).regs 0 = nr := by
        rw [table, ← saved, ← row]
        rfl
      have exit : nr ≠ Lsys.SYS_EXIT := fun exit => alive (h.exits next nr x parked exit)
      rw [switch.context, table, row, ← table, number]
      exact Context.settle_eq_iff saved exit (h.calls next nr x parked) (Cpu.givesUp_of_some gives)
    constructor
    · intro preserves _ handed some waits
      rw [given] at some
      cases some
      cases parked : w.parked next with
      | none => exact absurd parked waits
      | some saved =>
        refine (resumed saved.1 saved.2 parked).mp ?_
        rw [← cpu]
        refine preserves saved.1 saved.2 ?_ ?_
        · rw [cpu, switch.pid, ← pid]
          exact switch.other
        · rw [cpu, switch.pid, parked]
    · intro same nr x _ parked
      rw [cpu, switch.pid] at parked
      rw [cpu]
      refine (resumed nr x parked).mpr (same rfl (k, next) given ?_)
      rw [parked]
      exact some_ne_none _

end Watched

theorem Watched.after_cpu (w : Watched) (i : Input) : (w.after i).cpu = w.cpu.after i.event := by
  unfold Watched.after
  dsimp only
  split
  next => rfl
  next => rfl

theorem Cpu.Started.after {c : Cpu} (h : c.Started) (i : Input) : (c.after i.event).Started := by
  have started := ((Watched.watch_faithful h).after i).started
  rwa [Watched.after_cpu] at started

def Cpu.reset (rom : List Word) (ram : Store Word) (fuzixPermissive : Bool) : Cpu :=
  { Cpu.new.loadRom rom with ram := ram, fuzixPermissive := fuzixPermissive }

theorem Cpu.reset_started (rom : List Word) (ram : Store Word) (fuzixPermissive : Bool) :
    (Cpu.reset rom ram fuzixPermissive).Started := by
  have new : Cpu.new.Started := ⟨by decide, by decide⟩
  exact ⟨new.running, new.few⟩

/-- In a run of up to eight processes, every process that runs again has what
it had when it gave up the CPU, with its own call carried out, if and only if
every handover to such a process is made by the call it gave up the CPU with. -/
theorem context_switches_preserve {c : Cpu} (started : c.Started) (inputs : List Input) :
    Along Watched.after Watched.Preserves c.watch inputs ↔
      Along Watched.after Watched.Matches c.watch inputs :=
  along_congr (fun (w : Watched) i (h : w.Faithful) => h.after i) (fun _ i h => h.preserves_iff i)
    (Watched.watch_faithful started) inputs

instance (w : Watched) (i : Input) : Decidable (w.Matches i) :=
  inferInstanceAs (Decidable (_ → ∀ h ∈ w.cpu.handover, _ → _))

/-- Fork, let both processes yield, and let the parent exit. -/
def yieldThenExit : Cpu := Cpu.new.loadRom
    [MbcInsn.encode Opcode.movi.toByte 0 0 2, MbcInsn.encode Opcode.int.toByte 0 0 0x80,
     MbcInsn.encode Opcode.movi.toByte 0 0 158, MbcInsn.encode Opcode.int.toByte 0 0 0x80,
     MbcInsn.encode Opcode.movi.toByte 0 0 1, MbcInsn.encode Opcode.int.toByte 0 0 0x80]

/-- The parent yields to its child and the child yields back. -/
theorem yield_resumed_by_yield :
    (afterAll Watched.after yieldThenExit.watch (List.replicate 6 .step)).cpu.state.currentPid = 0 ∧
      Along Watched.after Watched.Preserves yieldThenExit.watch (List.replicate 6 .step) := by
  have started : yieldThenExit.Started := ⟨by decide, by decide⟩
  have matching : Along Watched.after Watched.Matches yieldThenExit.watch
      (List.replicate 6 .step) :=
    along_of_check (fun w i => of_decide_eq_true) (by decide +kernel)
  exact ⟨by decide +kernel, (context_switches_preserve started _).mpr matching⟩

/-- The parent exits, and the child that had yielded goes on with the number of
its call in `r0`. -/
theorem yield_resumed_by_exit : ¬ ∀ (c : Cpu) (inputs : List Input), c.Started →
      Along Watched.after Watched.Preserves c.watch inputs := by
  intro all
  have run := all yieldThenExit (List.replicate 7 Input.step ++ [Input.step]) ⟨by decide, by decide⟩
  have last := (along_append.mp run).2.1
  have expected : ((afterAll Watched.after yieldThenExit.watch (List.replicate 7 .step)).parked
      1).map (fun saved => (saved.2.settle saved.1).regs 0) = some 0 := by decide +kernel
  have resumed : (((afterAll Watched.after yieldThenExit.watch
      (List.replicate 7 .step)).after .step).cpu.context.regs 0) = 158 := by decide +kernel
  have pid : ((afterAll Watched.after yieldThenExit.watch
      (List.replicate 7 .step)).after .step).cpu.state.currentPid = 1 := by decide +kernel
  obtain ⟨⟨nr, x⟩, parked, settled⟩ := map_eq_some_iff.mp expected
  have right := last nr x (by decide +kernel) (by rw [pid]; exact parked)
  rw [right] at resumed
  exact absurd (resumed.symm.trans settled) (by decide)

end Unheaded.Mbc
