import Unheaded.Ascend.ArmFrames
import Unheaded.Ascend.SlotTable

/-!
# The slots of the machine

The masks, the parent table and the two process fields of the CPU state are the slot table of
`Unheaded.Ascend.SlotTable`.
-/

namespace Unheaded.Ascend

open Lib Mbc Fdtable Phase12 List BitVec Store Machine
open BitVec (ofNat)

/-! ## Bits of a mask -/

theorem shift_and_one (x : Word) (p : Nat) : ((x >>> p) &&& 1 != 0) = x.getLsbD p := by
  have low : (x >>> p) &&& 1 = BitVec.setWidth 32 (BitVec.ofBool ((x >>> p).getLsbD 0)) :=
    and_one_eq_setWidth_ofBool_getLsbD
  rw [low, getLsbD_ushiftRight]
  cases x.getLsbD p <;> rfl

theorem natCast_one_shift (s : Nat) : ((1 <<< s : Nat) : Word) = (1 : Word) <<< s := by
  apply eq_of_toNat_eq
  rfl

theorem getLsbD_one_shift (s p : Nat) : ((1 : Word) <<< s).getLsbD p = decide (p < 32 ∧ p = s) := by
  have one (k : Nat) : (1 : Word).getLsbD k = decide (k = 0) := by
    simp [getLsbD_one]
  by_cases inside : p < 32
  · by_cases same : p = s
    · simp [same]
    · by_cases below : p < s
      · simp [inside, same, below]
      · have pos : p - s ≠ 0 := by omega
        simp [inside, same, pos]
  · simp [inside]

theorem getLsbD_set {s : Nat} (small : s < 32) (mask : Word) :
    (fun p => (mask ||| ((1 <<< s : Nat) : Word)).getLsbD p) = Function.update mask.getLsbD s true := by
  funext p
  rw [getLsbD_or, natCast_one_shift, getLsbD_one_shift]
  by_cases same : p = s
  · subst same
    simp [small]
  · simp [same]

theorem getLsbD_clear {s : Nat} (mask : Word) :
    (fun p => (mask &&& ~~~((1 : Word) <<< s)).getLsbD p) = Function.update mask.getLsbD s false := by
  funext p
  rw [getLsbD_and, getLsbD_not, getLsbD_one_shift, Function.update_apply]
  by_cases inside : p < 32
  · by_cases same : p = s
    · simp [same]
    · simp [same, inside]
  · have beyond := getLsbD_of_ge mask p (Nat.not_lt.mp inside)
    simp [beyond]

theorem getLsbD_of_and {mask : Word} {n : Nat} (clear : mask &&& ((1 <<< n : Nat) : Word) = 0) :
    mask.getLsbD n = false := by
  by_cases inside : n < 32
  · have bit : (mask &&& ((1 <<< n : Nat) : Word)).getLsbD n = (0 : Word).getLsbD n := by rw [clear]
    rw [natCast_one_shift, getLsbD_and, getLsbD_one_shift, decide_eq_true ⟨inside, rfl⟩,
      Bool.and_true] at bit
    exact bit.trans getLsbD_zero
  · exact getLsbD_of_ge mask n (Nat.not_lt.mp inside)

namespace Machine

/-- The slot table as the machine keeps it. -/
def slots (m : Machine) : SlotTable where
  running := m.pid.toNat
  stopped := m.cpu.state.halted != 0
  count := m.cpu.state.numProcesses.toNat
  halted := m.isHalted
  reaped := m.isReaped
  parent p := (m.parentOf.getD p 0).toNat

/-! ## Steps that leave the slots alone -/

/-- Nothing that the slots are read from has changed, but for a halt. -/
structure Rests (m m' : Machine) : Prop where
  sched : m'.sched = m.sched
  parentOf : m'.parentOf = m.parentOf
  pid : m'.pid = m.pid
  processes : m'.cpu.state.numProcesses = m.cpu.state.numProcesses
  halted : m'.cpu.state.halted = m.cpu.state.halted ∨ m'.cpu.state.halted ≠ 0

namespace Rests

variable {m m' m'' : Machine}

theorem refl (m : Machine) : m.Rests m := ⟨rfl, rfl, rfl, rfl, Or.inl rfl⟩

theorem trans (first : m.Rests m') (second : m'.Rests m'') : m.Rests m'' where
  sched := second.sched.trans first.sched
  parentOf := second.parentOf.trans first.parentOf
  pid := second.pid.trans first.pid
  processes := second.processes.trans first.processes
  halted := by
    rcases second.halted with same | stopped
    · rw [same]
      exact first.halted
    · exact Or.inr stopped

theorem of_station {b : Bpf} (kept : b.station = m.cpu.station) : m.Rests (m.withCpu b) :=
  ⟨rfl, rfl, congrArg Station.currentPid kept, congrArg Station.numProcesses kept,
    Or.inl (congrArg Station.halted kept)⟩

theorem of_state {b : Bpf} (kept : b.state = m.cpu.state) : m.Rests (m.withCpu b) :=
  .of_station (congrArg MbcCpuState.station kept)

variable (rests : m.Rests m')
include rests

theorem setReg (r : Reg) (v : Word) : m.Rests (m'.setReg r v) :=
  rests.trans (.of_station rfl)

theorem withPc (pc : Word) : m.Rests (m'.withPc pc) :=
  rests.trans (.of_station rfl)

theorem setExitCode (code : Word) : m.Rests (m'.setExitCode code) :=
  rests.trans ⟨rfl, rfl, rfl, rfl, Or.inl rfl⟩

theorem clearReservation : m.Rests m'.clearReservation :=
  rests.trans ⟨rfl, rfl, rfl, rfl, Or.inl rfl⟩

theorem setHalted : m.Rests m'.setHalted :=
  rests.trans ⟨rfl, rfl, rfl, rfl, Or.inr (show (1 : Byte) ≠ 0 by decide)⟩

theorem fdSetKind (p : Byte) (f k : Word) : m.Rests (m'.fdSetKind p f k) := by
  refine rests.trans ?_
  unfold Machine.fdSetKind
  split <;> exact ⟨rfl, rfl, rfl, rfl, Or.inl rfl⟩

theorem inheritFds (child : Byte) : m.Rests (m'.inheritFds child) := by
  unfold Machine.inheritFds
  induction range NOFILE generalizing m' with
  | nil => exact rests
  | cons fd fds ih => exact ih (rests.fdSetKind _ _ _)

theorem slots_eq (same : m'.cpu.state.halted = m.cpu.state.halted) : m'.slots = m.slots := by
  have halted : m'.isHalted = m.isHalted := by
    funext p
    rw [isHalted, isHalted, rests.sched]
  have reaped : m'.isReaped = m.isReaped := by
    funext p
    rw [isReaped, isReaped, rests.sched]
  unfold slots
  rw [halted, reaped, rests.parentOf, rests.pid, rests.processes, same]

theorem slots : m'.slots = m.slots ∨ m'.slots = m.slots.stop := by
  rcases rests.halted with same | stopped
  · exact Or.inl (rests.slots_eq same)
  · refine Or.inr ?_
    have halted : m'.isHalted = m.isHalted := by
      funext p
      rw [isHalted, isHalted, rests.sched]
    have reaped : m'.isReaped = m.isReaped := by
      funext p
      rw [isReaped, isReaped, rests.sched]
    unfold Machine.slots SlotTable.stop
    rw [halted, reaped, rests.parentOf, rests.pid, rests.processes, bne_iff_ne.mpr stopped]

end Rests

theorem rests_allows : Allows Rests (fun _ => True) where
  refl := .refl
  trans := .trans
  cpu owner _ _ := ⟨rfl, rfl, congrArg Owner.currentPid owner, congrArg Owner.numProcesses owner,
    Or.inl (congrArg Owner.halted owner)⟩
  translate m va := .of_state (Bpf.state_translateAddress m.cpu va)
  halt m := (Rests.refl m).setHalted
  kinds _ _ _ := ⟨rfl, rfl, rfl, rfl, Or.inl rfl⟩
  inodes _ _ _ := ⟨rfl, rfl, rfl, rfl, Or.inl rfl⟩
  keys _ _ := ⟨rfl, rfl, rfl, rfl, Or.inl rfl⟩

/-! ## fork and wait -/

variable {m m' : Machine} {c child : Nat}

theorem forkChild_free (free : m.forkChild = some child) (counted : 0 < m.slots.count) :
    child ≤ m.slots.count ∧ m.slots.Free child := by
  have slot := forkChild_lt free
  unfold forkChild at free
  dsimp only at free
  split at free <;> cases free
  next fits =>
    unfold freeSlot at slot ⊢
    cases found : (List.range' 1 (MAX_PROCESSES - 1)).find? fun cand => !m.usedLive cand with
    | none =>
      rw [found] at slot
      exact absurd slot (Nat.lt_irrefl _)
    | some cand =>
      obtain ⟨unused, mem, below⟩ := List.find?_range'_eq_some.mp found
      constructor
      · by_contra beyond
        have used := below m.slots.count counted (Nat.not_le.mp beyond)
        have uncounted : decide (m.slots.count < m.cpu.state.numProcesses.toNat) = false :=
          decide_eq_false (Nat.lt_irrefl _)
        simp [usedLive, uncounted] at used
      · by_cases inside : cand < m.slots.count
        · refine Or.inr ?_
          have live : decide (cand < m.cpu.state.numProcesses.toNat) = true := decide_eq_true inside
          rw [usedLive, live, Bool.true_and, Bool.not_not] at unused
          exact Bool.and_eq_true_iff.mp unused
        · exact Or.inl (Nat.not_lt.mp inside)

theorem slots_enrol (slot : child < MAX_PROCESSES) (table : m.parentOf.len = MAX_PROCESSES) :
    (m.enrol child).slots = m.slots.born child := by
  have small : child < 8 := slot
  have count : (m.enrol child).slots.count = max m.slots.count (child + 1) := by
    change BitVec.toNat (if m.cpu.state.numProcesses.toNat < child + 1 then _ else _) = max _ _
    change _ = max m.cpu.state.numProcesses.toNat (child + 1)
    split
    · rw [toNat_ofNat]
      omega
    · omega
  have halted : (m.enrol child).isHalted = Function.update m.isHalted child false := by
    have before : m.isHalted = m.sched.haltedMask.getLsbD := funext (shift_and_one _)
    rw [before, ← getLsbD_clear]
    exact funext (shift_and_one _)
  have reaped : (m.enrol child).isReaped = Function.update m.isReaped child false := by
    have before : m.isReaped = m.sched.reapedMask.getLsbD := funext (shift_and_one _)
    rw [before, ← getLsbD_clear]
    exact funext (shift_and_one _)
  have parent : (fun p => ((m.enrol child).parentOf.getD p 0).toNat) =
      Function.update m.slots.parent child m.pid.toNat := by
    funext p
    change ((m.parentOf.set child (m.pid.setWidth 32)).getD p 0).toNat = _
    rw [Function.update_apply]
    by_cases same : p = child
    · subst same
      rw [if_pos rfl, getD_set_self _ (by rw [table]; exact slot), toNat_setWidth]
      exact Nat.mod_eq_of_lt (Nat.lt_trans m.pid.isLt (by decide))
    · rw [if_neg same, getD_set_of_ne _ same]
      rfl
  unfold slots at count ⊢
  dsimp only at count
  rw [halted, reaped, parent, count]
  rfl

theorem copyTick_rests (m : Machine) (child : Byte) : m.Rests (m.copyTick child) := by
  have begun : m.Rests (m.beginFork child) := by
    unfold beginFork
    split
    · have built : (buildPgd m.cpu child).state = m.cpu.state := by
        rw [buildPgd, Bpf.state_memWriteWord, Bpf.state_memWriteWord]
      exact (Rests.of_state built).setReg _ _
    · exact .refl m
  exact begun.trans (.of_state (state_copyForkChunk _ _ _))

theorem state_markFresh (b : Bpf) (child : Nat) : (markFresh b child).state = b.state := by
  unfold markFresh
  split
  · exact Bpf.state_memWriteWord _ _ _
  · rfl

theorem finishFork_slots (slot : child < MAX_PROCESSES) (table : m.parentOf.len = MAX_PROCESSES) :
    (m.finishFork child).slots = m.slots.born child ∧
      (m.finishFork child).parentOf.len = m.parentOf.len := by
  have inherited : m.Rests (inheritFds { m with
      procTable := m.procTable.set child (m.childRow (ofNat 8 child)) }
      (ofNat 8 child)) := by
    refine Rests.inheritFds ?_ _
    exact ⟨rfl, rfl, rfl, rfl, Or.inl rfl⟩
  obtain ⟨cpu, -⟩ := inheritFds_keeps
    { m with procTable := m.procTable.set child (m.childRow (ofNat 8 child)) }
    (ofNat 8 child)
  unfold finishFork
  dsimp only at cpu ⊢
  generalize inheritFds _ _ = t at inherited cpu ⊢
  have marked : m.Rests (t.withCpu (markFresh t.cpu child)) :=
    inherited.trans (.of_state (state_markFresh _ _))
  have same : (t.withCpu (markFresh t.cpu child)).cpu.state.halted = m.cpu.state.halted := by
    rw [withCpu, state_markFresh, cpu]
  have slots := slots_enrol slot ((congrArg len marked.parentOf).trans table)
  have parents : ((t.withCpu (markFresh t.cpu child)).enrol child).parentOf.len = m.parentOf.len :=
    (len_set _ _ _).trans (congrArg len marked.parentOf)
  rw [marked.slots_eq same] at slots
  generalize enrol _ child = u at slots parents ⊢
  split
  · exact ⟨slots, parents⟩
  · exact ⟨slots, parents⟩

theorem waitScan_fst (m : Machine) (ps : List Nat) (childMask : Word) :
    (m.waitScan ps childMask).1 =
      ps.find? fun p => m.isChild p && m.isHalted p && !m.isReaped p := by
  induction ps generalizing childMask with
  | nil => rfl
  | cons p ps ih =>
    rw [waitScan, List.find?_cons]
    cases child : m.isChild p with
    | false => simpa using ih childMask
    | true =>
      cases exited : m.isHalted p && !m.isReaped p with
      | false => simpa [exited] using ih _
      | true => simp [exited]

/-- The child that `wait` returns in this state, if any. -/
def waited (m : Machine) : Option Nat :=
  (m.waitScan (range (min m.cpu.state.numProcesses.toNat MAX_PROCESSES)) 0).1

theorem sysWait_waited (found : m.waited = some c) :
    m.sysWait = (m.reap c).answer (ofNat 32 c + 1) := by
  unfold sysWait
  split
  · next child mask scan =>
    rw [waited, scan] at found
    cases found
    rfl
  · next mask scan =>
    rw [waited, scan] at found
    cases found

theorem isChild_iff (m : Machine) (p : Nat) :
    m.isChild p = true ↔ p ≠ m.slots.running ∧ m.slots.parent p = m.slots.running := by
  have parent : m.parentOf.getD p 0 = m.pidWord ↔ (m.parentOf.getD p 0).toNat = m.pid.toNat := by
    exact toNat_inj.symm
  rw [isChild, slots, Bool.and_eq_true_iff, bne_iff_ne, beq_iff_eq, parent]

theorem waited_zombie (found : m.waited = some c) :
    m.slots.Zombie c ∧ m.slots.parent c = m.slots.running := by
  rw [waited, waitScan_fst] at found
  have mem := mem_range.mp (List.mem_of_find?_eq_some found)
  have check := List.find?_some found
  rw [Bool.and_eq_true_iff, Bool.and_eq_true_iff, isChild_iff, Bool.not_eq_true'] at check
  obtain ⟨⟨⟨-, parent⟩, exited⟩, unreaped⟩ := check
  exact ⟨⟨Nat.lt_of_lt_of_le mem (Nat.min_le_left _ _), exited, unreaped⟩, parent⟩

theorem waited_of_zombie (formed : m.slots.WellFormed) {p : Nat} (zombie : m.slots.Zombie p)
    (other : p ≠ m.slots.running) (parent : m.slots.parent p = m.slots.running) :
    ∃ c, m.waited = some c ∧ c ≤ p := by
  have check : (m.isChild p && m.isHalted p && !m.isReaped p) = true := by
    rw [Bool.and_eq_true_iff, Bool.and_eq_true_iff, isChild_iff, Bool.not_eq_true']
    exact ⟨⟨⟨other, parent⟩, zombie.2.1⟩, zombie.2.2⟩
  have inside := Nat.lt_min.mpr ⟨zombie.1, Nat.lt_of_lt_of_le zombie.1 formed.fits⟩
  rw [waited, waitScan_fst]
  cases found : (range (min m.cpu.state.numProcesses.toNat MAX_PROCESSES)).find?
      fun p => m.isChild p && m.isHalted p && !m.isReaped p with
  | none => exact absurd check (List.find?_eq_none.mp found p (mem_range.mpr inside))
  | some c =>
    refine ⟨c, rfl, ?_⟩
    by_contra passed
    have skipped := (List.find?_range_eq_some.mp found).2.2 p (Nat.not_le.mp passed)
    simp [check] at skipped

theorem reap_slots (small : c < MAX_PROCESSES) :
    (m.reap c).slots = m.slots.collected c ∧ (m.reap c).parentOf = m.parentOf := by
  have freed (b : Bpf) (child : Byte) : (freePgd b child).state = b.state :=
    Bpf.state_memWriteWord _ _ _
  have written (b : Bpf) (ptr : Word) : (writeStatus b ptr).state = b.state := by
    unfold writeStatus
    split
    · exact (Bpf.state_memWriteWord _ _ _).trans (Bpf.state_translateAddress b ptr)
    · rfl
  have state : (m.reap c).cpu.state = m.cpu.state := (written _ _).trans (freed _ _)
  have reaped : (m.reap c).isReaped = Function.update m.isReaped c true := by
    have before : m.isReaped = m.sched.reapedMask.getLsbD := funext (shift_and_one _)
    rw [before, ← getLsbD_set (Nat.lt_trans small (by decide))]
    exact funext (shift_and_one _)
  refine ⟨?_, rfl⟩
  rw [slots, pid, reaped, state]
  rfl

/-! ## One iteration -/

/-- What the running slot's call does to the slots, as `ecall` dispatches it. -/
def ecallEvent (m : Machine) : Option SlotEvent :=
  match (kernelRoutedAlias m.cpu m.a7).toNat with
  | 1 => m.finishedChild.map .born
  | 3 => m.waited.map fun c => .returned c m.pid.toNat
  | _ => none

/-- What an iteration of the loop is observed to do. -/
def event (m : Machine) : Option SlotEvent :=
  let b := m.cpu.dispatchInterrupt.tracePc
  match b.fetch with
  | none => none
  | some w =>
    if MbcInsn.opcode? w = some .syscall then (m.withCpu (b.withPc (b.state.pc + 1))).ecallEvent
    else none

/-- The slots exist, and they are well formed. -/
structure Slotted (m : Machine) : Prop where
  table : m.parentOf.len = MAX_PROCESSES
  formed : m.slots.WellFormed

/-- An arm is one step of the slots. -/
structure Steps (m : Machine) (event : Option SlotEvent) (arm : Arm) : Prop where
  step : SlotTable.Step m.slots event arm.machine.slots
  parents : arm.machine.parentOf.len = m.parentOf.len
  mild : ∀ m' req, arm = .leave m' req → Mild req

theorem Rests.step (rests : m.Rests m') : SlotTable.Step m.slots none m'.slots := by
  rcases rests.slots with same | stopped
  · rw [same]
    exact .stay
  · rw [stopped]
    exact .stop

variable {arm : Arm}

theorem steps_of_rests (resting : ArmIn Rests m arm) : m.Steps none arm := by
  cases arm with
  | next m' =>
    have rests : m.Rests m' := resting
    exact ⟨rests.step, congrArg len rests.parentOf, fun _ _ left => by cases left⟩
  | leave m' req =>
    obtain ⟨rests, mild⟩ : m.Rests m' ∧ Mild req := resting
    refine ⟨rests.step, congrArg len rests.parentOf, fun _ _ left => ?_⟩
    cases left
    exact mild

theorem sysFork_steps (slotted : m.Slotted) (on : m.slots.stopped = false) :
    m.Steps (m.finishedChild.map .born) m.sysFork := by
  cases finished : m.finishedChild with
  | none =>
    refine steps_of_rests ?_
    unfold sysFork
    split
    · exact rests_allows.answer (.refl m) _
    · next child free =>
      have more : (m.copyTick (ofNat 8 child)).a2 + 16 < TOTAL_COPY := by
        rw [finishedChild, free, Option.filter_some] at finished
        by_contra done
        rw [if_pos (by rw [decide_eq_false done]; rfl)] at finished
        cases finished
      rw [if_pos more]
      exact rests_allows.again ((copyTick_rests m _).setReg _ _)
  | some child =>
    obtain ⟨slot, arm⟩ := sysFork_finished finished
    obtain ⟨free, -⟩ := Option.filter_eq_some_iff.mp finished
    obtain ⟨next, unused⟩ := forkChild_free free (Nat.zero_lt_of_lt slotted.formed.counted)
    have rests := copyTick_rests m (ofNat 8 child)
    have same := rests.slots_eq (by rw [(copyTick_keeps m _).2.1])
    obtain ⟨slots, parents⟩ := finishFork_slots slot
      ((congrArg len rests.parentOf).trans slotted.table)
    rw [same] at slots
    rw [arm]
    generalize finishFork _ child = m' at slots parents ⊢
    refine ⟨?_, parents.trans (congrArg len rests.parentOf), fun _ _ left => by cases left⟩
    rw [Arm.machine, slots]
    exact .born slot next unused on

theorem sysWait_steps (slotted : m.Slotted) :
    m.Steps (m.waited.map fun c => .returned c m.pid.toNat) m.sysWait := by
  cases found : m.waited with
  | none =>
    refine steps_of_rests ?_
    unfold sysWait
    split
    · next child mask scan =>
      rw [waited, scan] at found
      cases found
    · split
      · exact ⟨(Rests.refl m).withPc _, rfl, by decide⟩
      · exact rests_allows.answer (.refl m) _
  | some c =>
    obtain ⟨zombie, mine⟩ := waited_zombie found
    obtain ⟨slots, parentOf⟩ := @reap_slots m c (Nat.lt_of_lt_of_le zombie.1 slotted.formed.fits)
    rw [sysWait_waited found]
    refine ⟨?_, congrArg len parentOf, fun _ _ left => by cases left⟩
    change SlotTable.Step _ _ (m.reap c).slots
    rw [slots]
    exact .collect zombie mine

theorem ecall_steps (slotted : m.Slotted) (on : m.slots.stopped = false) (imm : Word) :
    m.Steps m.ecallEvent (m.ecall imm) := by
  by_cases fork : (kernelRoutedAlias m.cpu m.a7).toNat = 1
  · rw [ecall, ecallEvent, fork]
    exact sysFork_steps slotted on
  · by_cases wait : (kernelRoutedAlias m.cpu m.a7).toNat = 3
    · rw [ecall, ecallEvent, wait]
      exact sysWait_steps slotted
    · have quiet : m.ecallEvent = none := by
        unfold ecallEvent
        split
        · next number => exact absurd number fork
        · next number => exact absurd number wait
        · rfl
      have inside : CallIn (fun _ => True) m := by
        unfold CallIn TablesIn
        split <;> simp
      rw [quiet]
      exact steps_of_rests (rests_allows.ecall (fun _ _ => trivial) (fun _ _ => trivial) inside
        fork wait)

variable {event : Option SlotEvent}

theorem Steps.count (steps : m.Steps event arm) : m.Steps event arm.count := by
  cases arm with
  | next m' => exact ⟨steps.step, steps.parents, fun _ _ left => by cases left⟩
  | leave m' req => exact steps

theorem iterate_steps (slotted : m.Slotted) (on : m.slots.stopped = false) :
    m.Steps m.event m.iterate := by
  have kept : m.cpu.dispatchInterrupt.tracePc.station = m.cpu.station :=
    (Bpf.station_tracePc _).trans (Bpf.station_dispatchInterrupt _)
  unfold iterate event
  dsimp only
  generalize m.cpu.dispatchInterrupt.tracePc = b at kept
  cases b.fetch with
  | none => exact steps_of_rests ⟨(Rests.of_station kept).setHalted, mild_default⟩
  | some w =>
    have advanced : m.Rests (m.withCpu (b.withPc (b.state.pc + 1))) := .of_station kept
    have same := advanced.slots_eq (congrArg Station.halted kept)
    have table : (m.withCpu (b.withPc (b.state.pc + 1))).parentOf = m.parentOf := rfl
    generalize m.withCpu (b.withPc (b.state.pc + 1)) = t at same table
    refine Steps.count ?_
    have slotted' : t.Slotted := ⟨by rw [table]; exact slotted.table, by
      rw [same]; exact slotted.formed⟩
    have steps : t.Steps (if MbcInsn.opcode? w = some .syscall then t.ecallEvent else none)
        (t.execute w) := by
      by_cases ecall : MbcInsn.opcode? w = some .syscall
      · rw [if_pos ecall, execute_syscall ecall]
        exact ecall_steps slotted' (by rw [same]; exact on) _
      · rw [if_neg ecall]
        exact steps_of_rests (rests_allows.execute (fun _ _ => trivial) ecall (fun _ _ => trivial))
    refine ⟨?_, ?_, steps.mild⟩
    · rw [← same]
      exact steps.step
    · rw [← table]
      exact steps.parents

theorem Steps.slotted (steps : m.Steps event arm) (slotted : m.Slotted) : arm.machine.Slotted :=
  ⟨steps.parents.trans slotted.table, steps.step.wellFormed slotted.formed⟩

/-! ## The code after the loop -/

theorem getD_sweep (s : Store Word) (slot : Word) (qs : List Nat) (p : Nat) :
    (qs.foldl (fun s q => if s.get? q = some slot then s.set q 0 else s) s).getD p 0 =
      if p ∈ qs ∧ s.getD p 0 = slot then 0 else s.getD p 0 := by
  induction qs generalizing s with
  | nil => simp
  | cons q qs ih =>
    rw [foldl_cons, ih]
    by_cases child : s.get? q = some slot
    · rw [if_pos child]
      have inside : q < s.len := by
        by_contra outside
        simp [get?_of_not_lt _ outside] at child
      have here : s.getD q 0 = slot := by
        rw [get?_of_lt _ inside] at child
        rw [getD_of_lt _ inside]
        exact Option.some.inj child
      by_cases same : p = q
      · subst same
        have moved : p ∈ p :: qs ∧ s.getD p 0 = slot := ⟨mem_cons_self, here⟩
        rw [getD_set_self _ inside]
        split <;> rfl
      · simp [getD_set_of_ne _ same, same]
    · rw [if_neg child]
      by_cases same : p = q
      · subst same
        by_cases inside : p < s.len
        · have other : s.getD p 0 ≠ slot := by
            intro equal
            rw [getD_of_lt _ inside] at equal
            rw [get?_of_lt _ inside, equal] at child
            exact child rfl
          rw [if_neg (fun both => other both.2), if_neg (fun both => other both.2)]
        · have zero : s.getD p 0 = 0 := if_neg inside
          rw [zero]
          split <;> split <;> rfl
      · simp [same]

theorem getD_reparent {s : Store Word} (table : s.len = MAX_PROCESSES) (slot : Word) (p : Nat) :
    (reparent s slot).getD p 0 = if s.getD p 0 = slot then 0 else s.getD p 0 := by
  rw [reparent, getD_sweep]
  by_cases inside : p < MAX_PROCESSES
  · simp only [mem_range, inside, true_and]
  · have zero : s.getD p 0 = 0 := if_neg (by rw [table]; exact inside)
    rw [zero]
    simp

theorem len_reparent (s : Store Word) (slot : Word) : (reparent s slot).len = s.len := by
  unfold reparent
  induction range MAX_PROCESSES generalizing s with
  | nil => rfl
  | cons q qs ih =>
    rw [foldl_cons, ih]
    split
    · exact len_set _ _ _
    · rfl

theorem parentOf_slotExited (m : Machine) (slot : Word) :
    (m.slotExited slot).parentOf = reparent m.parentOf slot := by
  unfold slotExited
  dsimp only

theorem slotExited_slots {slot : Word} (table : m.parentOf.len = MAX_PROCESSES)
    (small : slot.toNat < 32) : (m.slotExited slot).slots = m.slots.ended slot.toNat ∧
      (m.slotExited slot).parentOf.len = m.parentOf.len := by
  have halted : (m.slotExited slot).isHalted = Function.update m.isHalted slot.toNat true := by
    have before : m.isHalted = m.sched.haltedMask.getLsbD := funext (shift_and_one _)
    rw [before, ← getLsbD_set small]
    exact funext (shift_and_one _)
  have parent : (fun p => ((m.slotExited slot).parentOf.getD p 0).toNat) =
      fun p => if m.slots.parent p = slot.toNat then 0 else m.slots.parent p := by
    funext p
    have equal : (m.parentOf.getD p 0 = slot) = (m.slots.parent p = slot.toNat) :=
      propext toNat_inj.symm
    rw [parentOf_slotExited, getD_reparent table]
    simp only [equal]
    split
    · rfl
    · rfl
  refine ⟨?_, by rw [parentOf_slotExited, len_reparent]⟩
  rw [slots, halted, parent]
  rfl

theorem nextRunnable_spec {mask : Word} {num tries pid n : Nat}
    (found : Cpu.nextRunnable mask num tries pid = some n) : n < num ∧ mask.getLsbD n = false := by
  induction tries generalizing pid with
  | zero => cases found
  | succ tries ih =>
    rw [Cpu.nextRunnable] at found
    split at found
    · next runnable =>
      cases found
      exact ⟨runnable.1, getLsbD_of_and runnable.2⟩
    · exact ih found

theorem schedulerContextSwitch_slots (m : Machine) :
    m.schedulerContextSwitch.parentOf = m.parentOf ∧ (m.Rests m.schedulerContextSwitch ∧
          m.schedulerContextSwitch.cpu.state.halted = m.cpu.state.halted ∨
        ∃ next, m.slots.Live next ∧ m.schedulerContextSwitch.slots = m.slots.run next ∧
          m.schedulerContextSwitch.pid ≠ m.pid) := by
  have saved (table : Store ProcRow) : m.Rests { m with procTable := table } :=
    ⟨rfl, rfl, rfl, rfl, Or.inl rfl⟩
  unfold schedulerContextSwitch
  dsimp only
  split
  · exact ⟨rfl, Or.inl ⟨.refl m, rfl⟩⟩
  · split
    · exact ⟨rfl, Or.inl ⟨.refl m, rfl⟩⟩
    · split
      · exact ⟨rfl, Or.inl ⟨saved _, rfl⟩⟩
      · next next found =>
        split
        · exact ⟨rfl, Or.inl ⟨saved _, rfl⟩⟩
        · next other =>
          split
          · exact ⟨rfl, Or.inl ⟨(saved _).clearReservation, rfl⟩⟩
          · next row _ =>
            obtain ⟨counted, clear⟩ := nextRunnable_spec found
            have small : (ofNat 8 next).toNat = next := by
              rw [toNat_ofNat]
              omega
            have alive : m.isHalted next = false := by
              rw [getLsbD_or, Bool.or_eq_false_iff] at clear
              exact (shift_and_one _ _).trans clear.1
            refine ⟨rfl, Or.inr ⟨next, ⟨counted, alive⟩, ?_, ?_⟩⟩
            · change SlotTable.mk (ofNat 8 next).toNat _ _ _ _ _ = _
              rw [small]
              rfl
            · intro same
              exact other (small.symm.trans (congrArg BitVec.toNat same))

theorem toNat_pidWord (m : Machine) : m.pidWord.toNat = m.slots.running := by
  rw [pidWord, toNat_setWidth]
  exact Nat.mod_eq_of_lt (Nat.lt_trans m.pid.isLt (by decide))

/-- What the code after the loop may be asked for: nothing ends, another slot
ends, or the running one does, and then it leaves the CPU or the CPU has halted. -/
def Asked (m : Machine) (req : Requests) : Prop := Mild req ∨
    (∃ t : Word, req.exitSlot = some t ∧ t.toNat < 8 ∧ t ≠ m.pidWord ∧ req.switch ≠ .exit) ∨
    req.exitSlot = some m.pidWord ∧ (req.switch = .exit ∨ m.cpu.state.halted ≠ 0)

variable {req : Requests}

theorem mild_replyYield (mild : Mild req) (m : Machine) (r : Word) : Mild (m.replyYield req r) := by
  unfold replyYield
  split
  · exact ⟨mild.1, fun exit => by cases exit⟩
  · exact mild

theorem replyKill_asked (mild : Mild req) (base r : Word) :
    m.Rests (m.replyKill req base r).1 ∧ (m.replyKill req base r).1.Asked (m.replyKill req base r).2 := by
  unfold replyKill
  dsimp only
  split
  · split
    · refine ⟨.refl m, ?_⟩
      have low : (replyArg m.cpu base &&& 7).toNat < 8 := by
        exact Nat.lt_of_le_of_lt Nat.and_le_right (by decide)
      split
      · next self => exact Or.inr (Or.inr ⟨congrArg some self, Or.inl rfl⟩)
      · next other => exact Or.inr (Or.inl ⟨_, rfl, low, other, mild.2⟩)
    · exact ⟨(Rests.refl m).setReg _ _, Or.inl mild⟩
  · exact ⟨.refl m, Or.inl mild⟩

theorem replyExit_asked (asked : m.Asked req) (r : Word) :
    m.Rests (m.replyExit req r).1 ∧ (m.replyExit req r).1.Asked (m.replyExit req r).2 := by
  unfold replyExit
  dsimp only
  split
  · split
    · exact ⟨(Rests.refl m).setExitCode _, Or.inr (Or.inr ⟨rfl, Or.inl rfl⟩)⟩
    · refine ⟨((Rests.refl m).setExitCode _).setHalted, Or.inr (Or.inr ⟨rfl, Or.inr ?_⟩)⟩
      exact show (1 : Byte) ≠ 0 by decide
  · exact ⟨.refl m, asked⟩

theorem replyBrk_rests (m : Machine) (base r : Word) : m.Rests (m.replyBrk base r) := by
  unfold replyBrk
  split
  · exact ⟨rfl, rfl, rfl, rfl, Or.inl rfl⟩
  · exact .refl m

theorem readReply_asked (mild : Mild req) :
    m.Rests (m.readReply req).1 ∧ (m.readReply req).1.Asked (m.readReply req).2 := by
  unfold readReply
  split
  · next r _ =>
    unfold actReply
    dsimp only
    have cleared := (Rests.of_state (Bpf.state_memWriteWord m.cpu
      ((slotTables m.cpu + UPC_ST_REPLY_OFF) >>> 2) 0)).trans
      (replyBrk_rests _ (slotTables m.cpu) r)
    generalize replyBrk _ _ r = t at cleared ⊢
    obtain ⟨killed, asked⟩ := replyKill_asked (mild_replyYield mild t r) (slotTables m.cpu) r
    obtain ⟨ended, asked'⟩ := replyExit_asked asked r
    exact ⟨(cleared.trans killed).trans ended, asked'⟩
  · refine ⟨?_, Or.inl mild⟩
    split
    · exact rests_allows.armTracer (fun _ _ => trivial) (.refl m)
    · exact .refl m

theorem deferredSwitch_steps (m : Machine) {req : SwitchReq} (mild : req ≠ .exit) :
    SlotTable.Step m.slots none (m.deferredSwitch req).slots ∧
      (m.deferredSwitch req).parentOf = m.parentOf := by
  cases req with
  | none => exact ⟨.stay, rfl⟩
  | yield =>
    obtain ⟨parentOf, same | ⟨next, live, slots, -⟩⟩ := schedulerContextSwitch_slots m
    · exact ⟨same.1.step, parentOf⟩
    · refine ⟨?_, parentOf⟩
      rw [deferredSwitch, slots]
      exact .switch live
  | exit => exact absurd rfl mild

theorem exit_steps (slotted : m.Slotted) :
    SlotTable.Step m.slots none ((m.slotExited m.pidWord).deferredSwitch .exit).slots ∧
      ((m.slotExited m.pidWord).deferredSwitch .exit).parentOf.len = m.parentOf.len := by
  have small : m.pidWord.toNat < 32 := by
    exact Nat.lt_trans (Nat.lt_of_lt_of_le slotted.formed.counted slotted.formed.fits) (by decide)
  obtain ⟨ended, parents⟩ := slotExited_slots slotted.table small
  obtain ⟨parentOf, switched⟩ := schedulerContextSwitch_slots (m.slotExited m.pidWord)
  unfold deferredSwitch
  generalize (m.slotExited m.pidWord).schedulerContextSwitch = t at parentOf switched ⊢
  rcases switched with ⟨rests, halted⟩ | ⟨next, live, slots, left⟩
  · rw [if_pos rests.pid]
    refine ⟨?_, (congrArg len parentOf).trans parents⟩
    have stopped : t.setHalted.slots = t.slots.stop := rfl
    rw [stopped, rests.slots_eq halted, ended]
    exact .last
  · rw [if_neg left]
    refine ⟨?_, (congrArg len parentOf).trans parents⟩
    rw [ended] at live slots
    rw [slots]
    exact .exit live

theorem settle_runs (slotted : m.Slotted) (asked : m.Asked req) :
    SlotTable.Run m.slots [] ((m.endSlot req.exitSlot).deferredSwitch req.switch).slots ∧
      ((m.endSlot req.exitSlot).deferredSwitch req.switch).parentOf.len = m.parentOf.len := by
  rcases asked with ⟨unended, mild⟩ | ⟨t, ends, low, other, mild⟩ | ⟨ends, leaves⟩
  · rw [unended]
    obtain ⟨step, parentOf⟩ := deferredSwitch_steps m mild
    exact ⟨.single step, congrArg len parentOf⟩
  · rw [ends]
    obtain ⟨ended, parents⟩ := slotExited_slots slotted.table (Nat.lt_trans low (by decide))
    obtain ⟨step, parentOf⟩ := deferredSwitch_steps (m.slotExited t) mild
    refine ⟨?_, (congrArg len parentOf).trans parents⟩
    have apart : t.toNat ≠ m.slots.running := by
      exact fun equal => other (eq_of_toNat_eq equal)
    have killed : SlotTable.Step m.slots none (m.slotExited t).slots := by
      rw [ended]
      exact .kill apart
    exact .step killed (.single step)
  · rw [ends]
    by_cases exits : req.switch = .exit
    · rw [exits]
      obtain ⟨step, parents⟩ := exit_steps slotted
      exact ⟨.single step, parents⟩
    · -- the last process has halted the CPU itself
      have halted := leaves.resolve_left exits
      have running := toNat_pidWord m
      have small : m.pidWord.toNat < 32 := by
        exact Nat.lt_trans (Nat.lt_of_lt_of_le slotted.formed.counted slotted.formed.fits)
          (by decide)
      obtain ⟨ended, parents⟩ := slotExited_slots slotted.table small
      obtain ⟨step, parentOf⟩ := deferredSwitch_steps (m.slotExited m.pidWord) exits
      refine ⟨?_, (congrArg len parentOf).trans parents⟩
      have stopped : m.slots.stopped = true := bne_iff_ne.mpr halted
      have ending : SlotTable.Step m.slots none (m.slotExited m.pidWord).slots := by
        have same : m.slots.ended m.slots.running = (m.slots.ended m.slots.running).stop := by
          rw [SlotTable.stop, SlotTable.ended, stopped]
        rw [ended, running, same]
        exact .last
      exact .step ending (.single step)

/-- A run of the slots that the machine makes, from `m` to `m'`. -/
structure Lives (m : Machine) (log : List SlotEvent) (m' : Machine) : Prop where
  run : SlotTable.Run m.slots log m'.slots
  parents : m'.parentOf.len = m.parentOf.len

variable {log : List SlotEvent}

theorem Lives.slotted (lives : m.Lives log m') (slotted : m.Slotted) : m'.Slotted :=
  ⟨lives.parents.trans slotted.table, lives.run.wellFormed slotted.formed⟩

theorem Lives.trans {m'' : Machine} {first rest : List SlotEvent} (begun : m.Lives first m')
    (more : m'.Lives rest m'') : m.Lives (first ++ rest) m'' :=
  ⟨begun.run.append more.run, more.parents.trans begun.parents⟩

theorem Rests.lives (rests : m.Rests m') : m.Lives [] m' :=
  ⟨.single rests.step, congrArg len rests.parentOf⟩

theorem afterLoop_lives (slotted : m.Slotted) (mild : Mild req) : m.Lives [] (m.afterLoop req) := by
  unfold afterLoop
  cases req.reply with
  | false =>
    obtain ⟨run, parents⟩ := settle_runs slotted (Or.inl mild)
    exact ⟨run, parents⟩
  | true =>
    obtain ⟨rests, asked⟩ := @readReply_asked m req mild
    obtain ⟨run, parents⟩ := settle_runs (rests.lives.slotted slotted) asked
    exact rests.lives.trans ⟨run, parents⟩

/-! ## Ticks and runs -/

/-- The events of at most `n` iterations. -/
def loopLog : Nat → Machine → List SlotEvent
  | 0, _ => []
  | n + 1, m =>
    if m.cpu.state.halted ≠ 0 then []
    else
      m.event.toList ++
        match m.iterate with
        | .next m => loopLog n m
        | .leave _ _ => []

theorem loop_lives (slotted : m.Slotted) (n : Nat) :
    m.Lives (loopLog n m) (loop n m).1 ∧ Mild (loop n m).2 := by
  induction n generalizing m with
  | zero => exact ⟨(Rests.refl m).lives, mild_default⟩
  | succ n ih =>
    rw [loop, loopLog]
    by_cases halted : m.cpu.state.halted ≠ 0
    · rw [if_pos halted, if_pos halted]
      exact ⟨(Rests.refl m).lives, mild_default⟩
    · rw [if_neg halted, if_neg halted]
      have on : m.slots.stopped = false := by
        change (m.cpu.state.halted != 0) = false
        rw [not_not.mp halted]
        rfl
      have steps := iterate_steps slotted on
      have slotted' := steps.slotted slotted
      cases arm : m.iterate with
      | next m' =>
        rw [arm] at steps slotted'
        obtain ⟨rest, mild⟩ := ih slotted'
        exact ⟨Lives.trans ⟨.single steps.step, steps.parents⟩ rest, mild⟩
      | leave m' req =>
        rw [arm] at steps
        refine ⟨⟨?_, steps.parents⟩, steps.mild m' req rfl⟩
        rw [append_nil]
        exact .single steps.step

/-- The tick at `now` runs instructions. -/
def Awake (m : Machine) (now : BitVec 64) : Prop :=
  m.cpu.state.halted = 0 ∧ ¬ (0 < m.cpu.state.sleepUntilNs ∧ now < m.cpu.state.sleepUntilNs)

instance (m : Machine) (now : BitVec 64) : Decidable (m.Awake now) :=
  inferInstanceAs (Decidable (_ ∧ _))

def tickLog (m : Machine) (now : BitVec 64) : List SlotEvent :=
  if m.Awake now then loopLog MAX_INSN_PER_TICK m.wake else []

variable {now : BitVec 64}

theorem tick_awake (awake : m.Awake now) :
    m.tick now = (loop MAX_INSN_PER_TICK m.wake).1.afterLoop (loop MAX_INSN_PER_TICK m.wake).2 := by
  rw [tick, if_neg (not_not.mpr awake.1), if_neg awake.2]

theorem tick_asleep (asleep : ¬ m.Awake now) : m.tick now = m := by
  unfold tick
  split
  · rfl
  · next on =>
    split
    · rfl
    · next due => exact absurd ⟨not_not.mp on, due⟩ asleep

theorem wake_rests (m : Machine) : m.Rests m.wake := ⟨rfl, rfl, rfl, rfl, Or.inl rfl⟩

theorem tick_lives (slotted : m.Slotted) (now : BitVec 64) :
    m.Lives (m.tickLog now) (m.tick now) := by
  unfold tickLog
  by_cases awake : m.Awake now
  · rw [if_pos awake, tick_awake awake]
    have woken := (wake_rests m).lives
    obtain ⟨looped, mild⟩ := loop_lives (woken.slotted slotted) MAX_INSN_PER_TICK
    have settled := afterLoop_lives ((woken.trans looped).slotted slotted) mild
    have lives := (woken.trans looped).trans settled
    rwa [nil_append, append_nil] at lives
  · rw [if_neg awake, tick_asleep awake]
    exact (Rests.refl m).lives

def runLog : Machine → List (BitVec 64) → List SlotEvent
  | _, [] => []
  | m, now :: nows => m.tickLog now ++ runLog (m.tick now) nows

theorem ticks_live (slotted : m.Slotted) (nows : List (BitVec 64)) :
    m.Lives (m.runLog nows) (nows.foldl tick m) := by
  induction nows generalizing m with
  | nil => exact (Rests.refl m).lives
  | cons now nows ih =>
    have first := tick_lives slotted now
    exact first.trans (ih (first.slotted slotted))

/-- The states of a run, with the events so far: between two ticks, and after
each iteration of a tick. -/
inductive Reached (start : Machine) : List SlotEvent → Machine → Prop where
  | between (nows : List (BitVec 64)) : Reached start (start.runLog nows) (nows.foldl tick start)
  | during (nows : List (BitVec 64)) (now : BitVec 64) (n : Nat)
      (awake : (nows.foldl tick start).Awake now) (within : n ≤ MAX_INSN_PER_TICK) :
      Reached start (start.runLog nows ++ loopLog n (nows.foldl tick start).wake)
        (loop n (nows.foldl tick start).wake).1

theorem Reached.lives {start : Machine} (reached : Reached start log m) (slotted : start.Slotted) :
    start.Lives log m := by
  cases reached with
  | between nows => exact ticks_live slotted nows
  | during nows now n awake within =>
    have before := ticks_live slotted nows
    have woken := before.trans (wake_rests _).lives
    rw [append_nil] at woken
    exact woken.trans (loop_lives (woken.slotted slotted) n).1

/-- One process, no zombies: the scheduler as it starts. -/
structure Fresh (m : Machine) : Prop where
  pid : m.pid = 0
  processes : m.cpu.state.numProcesses = 1
  haltedMask : m.sched.haltedMask = 0
  reapedMask : m.sched.reapedMask = 0
  parents : m.parentOf.len = MAX_PROCESSES

theorem Fresh.slotted (fresh : m.Fresh) : m.Slotted := by
  have unhalted (p : Nat) : m.isHalted p = false := by
    rw [isHalted, shift_and_one, fresh.haltedMask]
    exact getLsbD_zero
  have unreaped (p : Nat) : m.isReaped p = false := by
    rw [isReaped, shift_and_one, fresh.reapedMask]
    exact getLsbD_zero
  have count : m.slots.count = 1 := congrArg BitVec.toNat fresh.processes
  have running : m.slots.running = 0 := congrArg BitVec.toNat fresh.pid
  refine ⟨fresh.parents, ?_, ?_, ?_, fun _ => unhalted _, ?_⟩
  · rw [count]
    decide
  · intro p reaped
    exact Bool.noConfusion ((unreaped p).symm.trans reaped)
  · rw [count, running]
    decide
  · intro p pos counted
    rw [count] at counted
    exact absurd (Nat.lt_one_iff.mp counted) pos

/-- Slots are handed out and collected as their lives allow, in every state of
every run. -/
theorem slots_follow_lifecycle {start m : Machine} {log : List SlotEvent} (fresh : start.Fresh)
    (reached : Reached start log m) : (∀ p, m.isReaped p = true → m.isHalted p = true) ∧
    (∀ child, m.forkChild = some child → ¬ m.slots.Live child ∧ ¬ m.slots.Zombie child) ∧
    (∀ p, p ≠ 0 → p < m.slots.count → m.isReaped p = false →
      m.slots.parent p = 0 ∨ m.slots.Live (m.slots.parent p)) ∧
    (m.isHalted 0 = false → ∀ p, m.slots.Zombie p → m.slots.Live (m.slots.parent p) ∧
      (m.slots.running = m.slots.parent p → ∃ c, m.waited = some c ∧ c ≤ p)) ∧
    (∀ c, m.waited = some c → m.sysWait = (m.reap c).answer (ofNat 32 c + 1) ∧
      m.slots.Zombie c ∧ m.slots.parent c = m.slots.running) ∧
    (∀ c p q pre mid post, log = pre ++ SlotEvent.returned c p :: mid ++ SlotEvent.returned c q :: post →
      .born c ∈ mid) ∧ (m.cpu.state.halted = 0 → m.isHalted m.pid.toNat = false) := by
  have lives := reached.lives fresh.slotted
  have formed := (lives.slotted fresh.slotted).formed
  refine ⟨formed.ended, ?_, formed.parents, ?_, fun c found => ⟨sysWait_waited found,
    waited_zombie found⟩, ?_, ?_⟩
  · intro child free
    obtain ⟨-, unused⟩ := forkChild_free free (Nat.zero_lt_of_lt formed.counted)
    exact ⟨unused.not_live, unused.not_zombie⟩
  · intro alive p zombie
    have positive : p ≠ 0 := by
      rintro rfl
      exact Bool.noConfusion (alive.symm.trans zombie.2.1)
    have live : m.slots.Live (m.slots.parent p) := by
      rcases formed.parents p positive zombie.1 zombie.2.2 with zero | live
      · rw [zero]
        exact ⟨Nat.zero_lt_of_lt formed.counted, alive⟩
      · exact live
    refine ⟨live, fun runs => waited_of_zombie formed zombie ?_ runs.symm⟩
    rintro rfl
    rw [← runs] at live
    exact Bool.noConfusion (live.2.symm.trans zombie.2.1)
  · intro c p q pre mid post split
    exact lives.run.returned_once split
  · intro on
    exact formed.alive (bne_eq_false_iff_eq.mpr on)

def childless : Machine := .boot
  (Bpf.boot { MbcCpuState.default with privLevel := 3, regs := fun _ => 3 } 0
    [Opcode.syscall.toByte.setWidth 32] [])

theorem childless_follows : (∀ p, ([1, 2].foldl tick childless).isReaped p = true →
      ([1, 2].foldl tick childless).isHalted p = true) ∧
    (([1, 2].foldl tick childless).cpu.state.halted = 0 →
      ([1, 2].foldl tick childless).isHalted ([1, 2].foldl tick childless).pid.toNat = false) := by
  have fresh : childless.Fresh := ⟨rfl, rfl, rfl, rfl, rfl⟩
  obtain ⟨reaped, -, -, -, -, -, running⟩ := slots_follow_lifecycle fresh (.between [1, 2])
  exact ⟨reaped, running⟩

end Machine

end Unheaded.Ascend
