import Unheaded.Cart.Tick
import Unheaded.Lib.Resume

/-!
# Tick jobs: yields are invisible

A step reads neither the instruction count nor the status, and only appends to its log.
-/

namespace Unheaded.Cart

open Lib Mbc Cartridge CartIo CartState

/-- The part of the state that the job itself consists of. -/
structure Job where
  regs : Reg → Word
  mem : BitVec 6 → Word
  pc : Half
  flags : Byte
  backEdges : Word

def CartState.job (st : CartState) : Job := ⟨st.regs, st.mem, st.pc, st.flags, st.backEdges⟩

/-- What the calls of a job have written so far. -/
structure Log where
  emits : List (Word × Word × Word)
  queued : List Features

namespace Log

def append (first second : Log) : Log := ⟨first.emits ++ second.emits, first.queued ++ second.queued⟩

def empty : Log := ⟨[], []⟩

@[simp] theorem append_empty (log : Log) : log.append empty = log := by
  simp [append, empty]

@[simp] theorem empty_append (log : Log) : empty.append log = log := by
  simp [append, empty]

theorem append_assoc (a b c : Log) : (a.append b).append c = a.append (b.append c) := by
  simp [append]

end Log

def Outcome.log (o : Outcome) : Log := ⟨o.emits, o.queued⟩

/-- The same input, with `before` already in the log. -/
structure Continues (before : Log) (io io' : LogIo) : Prop where
  input : io'.input = io.input
  log : io'.out.log = before.append io.out.log

/-- The same result and job; the logs differ by what was there before. -/
structure Agrees (before : Log) (r r' : Ran LogIo) : Prop where
  result : r'.result = r.result
  job : r'.st.job = r.st.job
  io : Continues before r.io r'.io

theorem job_settle (r : Ran LogIo) : (settle r).st.job = r.st.job := by
  unfold settle
  split <;> rfl

section Words

variable {before : Log} {io io' : LogIo} (p : Cartridge)

section

variable (later : Continues before io io')
include later

theorem Continues.emit (kind a b : Word) :
    Continues before (CartIo.emit io kind a b) (CartIo.emit io' kind a b) := by
  refine ⟨later.input, ?_⟩
  have logs := later.log
  simp only [Outcome.log, Log.append, Log.mk.injEq] at logs
  simp [CartIo.emit, Outcome.log, Log.append, logs]

theorem Continues.queue (feat : Features) :
    Continues before (CartIo.queue io feat) (CartIo.queue io' feat) := by
  refine ⟨later.input, ?_⟩
  have logs := later.log
  simp only [Outcome.log, Log.append, Log.mk.injEq] at logs
  simp [CartIo.queue, Outcome.log, Log.append, logs]

theorem Continues.field (id : Word) :
    ∃ value, CartIo.field io id = (value, io) ∧ CartIo.field io' id = (value, io') := by
  refine ⟨_, rfl, ?_⟩
  simp only [CartIo.field, later.input]

theorem Continues.now : (CartIo.nowNsLo io').1 = (CartIo.nowNsLo io).1 := by
  simp only [nowNsLo, later.input]

end

def CartState.stamp (st : CartState) (status : Byte) (insns gen : Word) : CartState :=
  { st with status := status, insns := insns, gen := gen }

theorem CartState.eq_stamp {st st' : CartState} (same : st'.job = st.job) :
    st' = st.stamp st'.status st'.insns st'.gen := by
  cases st
  cases st'
  cases same
  rfl

variable (st : CartState) (status : Byte) (insns gen : Word) (later : Continues before io io')

include later

theorem branchIf_agrees (pc w : Word) (taken : Bool) : Agrees before (p.branchIf st io pc w taken)
      (p.branchIf (st.stamp status insns gen) io' pc w taken) := by
  unfold branchIf branchTo stamp
  dsimp only
  repeat' split
  all_goals exact ⟨rfl, rfl, later⟩

theorem load_agrees (d : Reg) (addr : Word) :
    Agrees before (p.load st io d addr) (p.load (st.stamp status insns gen) io' d addr) := by
  have word : p.loadWord (st.stamp status insns gen) addr = p.loadWord st addr := rfl
  unfold load
  rw [word]
  cases p.loadWord st addr with
  | none => exact ⟨rfl, rfl, later⟩
  | some v =>
    dsimp only
    split <;> exact ⟨rfl, rfl, later⟩

theorem loadByte_agrees (d : Reg) (addr : Word) :
    Agrees before (p.loadByte st io d addr) (p.loadByte (st.stamp status insns gen) io' d addr) := by
  have word : p.loadWord (st.stamp status insns gen) addr = p.loadWord st addr := rfl
  unfold loadByte
  rw [word]
  cases p.loadWord st addr <;> exact ⟨rfl, rfl, later⟩

theorem store_agrees (addr v : Word) : Agrees before (store st io addr v)
      (store (st.stamp status insns gen) io' addr v) := by
  unfold store
  split <;> exact ⟨rfl, rfl, later⟩

theorem syscall_agrees (n : Half) :
    Agrees before (p.syscall st io n) (p.syscall (st.stamp status insns gen) io' n) := by
  unfold syscall
  split
  · obtain ⟨value, here, there⟩ := later.field (st.regs 1)
    have there' : field io' ((st.stamp status insns gen).regs 1) = (value, io') := there
    rw [here, there']
    cases value <;> exact ⟨rfl, rfl, later⟩
  split
  · exact ⟨rfl, congrArg (fun v => (st.setReg 0 v).job) later.now, later⟩
  split
  · change Agrees before _ (if st.regs 1 = 0 ∨ st.regs 1 = 1 then _ else _)
    split <;> exact ⟨rfl, rfl, later⟩
  split
  · exact ⟨rfl, rfl, later.emit _ _ _⟩
  split
  · change Agrees before _ (if st.regs 1 &&& 3 ≠ 0 ∨ 224 < st.regs 1 then _ else _)
    dsimp only
    split
    · exact ⟨rfl, rfl, later⟩
    · exact ⟨rfl, rfl, later.queue _⟩
  split <;> exact ⟨rfl, rfl, later⟩

theorem execute_agrees (pc w : Word) :
    Agrees before (p.execute st io pc w) (p.execute (st.stamp status insns gen) io' pc w) := by
  unfold execute
  cases MbcInsn.opcode? w with
  | none => exact ⟨rfl, rfl, later⟩
  | some o =>
    cases o with
    | jmp | jz | jnz | jn | jp | jc | jnc => exact branchIf_agrees p st status insns gen later pc w _
    | ld => exact load_agrees p st status insns gen later _ _
    | ldb => exact loadByte_agrees p st status insns gen later _ _
    | st => exact store_agrees st status insns gen later _ _
    | syscall => exact syscall_agrees p st status insns gen later _
    | _ => exact ⟨rfl, rfl, later⟩

end Words

variable (p : Cartridge)

theorem step_agrees {before : Log} {st st' : CartState} {io io' : LogIo} (same : st'.job = st.job)
    (later : Continues before io io') : Agrees before (p.step st io) (p.step st' io') := by
  rw [eq_stamp same]
  have pc : (st.stamp st'.status st'.insns st'.gen).pc = st.pc := rfl
  unfold step
  rw [pc]
  dsimp only
  split
  · exact ⟨rfl, rfl, later⟩
  · cases p.rom (st.pc.setWidth 32) with
    | none => exact ⟨rfl, rfl, later⟩
    | some w =>
      obtain ⟨result, job, io⟩ := execute_agrees p (advance st) st'.status
        (st'.insns + 1) st'.gen later (st.pc.setWidth 32) w
      constructor
      · rw [result_settle, result_settle]
        exact result
      · rw [job_settle, job_settle]
        exact job
      · rw [io_settle, io_settle]
        exact io

def Job.state (job : Job) : CartState := { zeroed with
    regs := job.regs
    mem := job.mem
    pc := job.pc
    flags := job.flags
    backEdges := job.backEdges }

/-- A job with its log. -/
structure Progress where
  job : Job
  log : Log

def tickInput (nowNs : BitVec 64) : PacketInput := { PacketInput.default with nowNs := nowNs }

/-- What a call makes of a job: it goes on, or it ends in a result. -/
def Ran.report (before : Log) (r : Ran LogIo) : Progress ⊕ Step × Progress :=
  let progress : Progress := ⟨r.st.job, before.append r.io.out.log⟩
  if r.result = .cont ∨ r.result = .yield then .inl progress else .inr (r.result, progress)

theorem Agrees.report {before : Log} {r r' : Ran LogIo} (agrees : Agrees before r r') :
    r'.report Log.empty = r.report before := by
  unfold Ran.report
  rw [agrees.result, agrees.job, agrees.io.log, Log.empty_append]

def jobStep (input : PacketInput) (s : Progress) : Progress ⊕ Step × Progress :=
  (p.step s.job.state ⟨input, none, s.log.emits, s.log.queued⟩).report Log.empty

theorem jobStep_eq {input : PacketInput} (before : Log) (st : CartState) {io : LogIo}
    (same : io.input = input) :
    jobStep p input ⟨st.job, before.append io.out.log⟩ = (p.step st io).report before := by
  have later : Continues before io
      ⟨input, none, before.emits ++ io.out.emits, before.queued ++ io.out.queued⟩ :=
    ⟨same.symm, rfl⟩
  have agrees : Agrees before (p.step st io) (p.step st.job.state _) := step_agrees p rfl later
  exact agrees.report

theorem syscall_input (st : CartState) (io : LogIo) (n : Half) :
    (p.syscall st io n).io.input = io.input := by
  unfold syscall
  split
  · split
    next asked => exact congrArg (fun answer => answer.2.input) asked.symm
    next asked => exact congrArg (fun answer => answer.2.input) asked.symm
  · dsimp only
    repeat' split
    all_goals rfl

theorem step_input (st : CartState) (io : LogIo) : (p.step st io).io.input = io.input := by
  have execute (st : CartState) (pc w : Word) : (p.execute st io pc w).io.input = io.input := by
    by_cases call : MbcInsn.opcode? w = some .syscall
    · rw [Cartridge.execute, call]
      exact syscall_input p st io _
    · rw [(execute_plain call).io]
  unfold step
  dsimp only
  split
  · rfl
  · split
    · rfl
    · rw [io_settle]
      exact execute _ _ _

section Calls

variable {p : Cartridge} {nowNs : BitVec 64}

theorem runLoop_burst (tick : p.cfg.stage = STAGE_TICK) (n : Nat) (before : Log) (st : CartState)
    (io : LogIo) (clock : io.input = tickInput nowNs) :
    ∃ k, after (jobStep p (tickInput nowNs)) k ⟨st.job, before.append io.out.log⟩ =
      (p.runLoop n st io).report before := by
  have spent (st : CartState) (io : LogIo) :
      (p.runOut st io).report before = .inl ⟨st.job, before.append io.out.log⟩ := by
    rw [runOut_tick tick]
    rfl
  induction n generalizing st io with
  | zero => exact ⟨0, (spent st io).symm⟩
  | succ n ih =>
    unfold runLoop
    dsimp only
    unfold runOne
    split
    · refine ⟨0, ?_⟩
      have stopped : (p.runOut st io).result ≠ .cont := by
        rw [runOut_tick tick]
        intro same
        cases same
      rw [if_neg stopped, spent]
      rfl
    · have step := jobStep_eq p before st clock
      split
      next continues =>
        obtain ⟨k, rest⟩ := ih _ (p.step st io).io ((step_input p st io).trans clock)
        have next : jobStep p (tickInput nowNs) ⟨st.job, before.append io.out.log⟩ =
            .inl ⟨(p.step st io).st.job, before.append (p.step st io).io.out.log⟩ := by
          rw [step, Ran.report, if_pos (Or.inl continues)]
        exact ⟨k + 1, by rw [after_succ_of_next next, rest]⟩
      next => exact ⟨1, by rw [after_one, step]⟩

theorem run_burst (tick : p.cfg.stage = STAGE_TICK) (pos : 0 < p.cfg.maxInsn.toNat) (n : Nat)
    (before : Log) (st : CartState) (io : LogIo) (clock : io.input = tickInput nowNs) :
    ∃ k, after (jobStep p (tickInput nowNs)) (k + 1) ⟨st.job, before.append io.out.log⟩ =
      (p.run (n + 1) st io).report before := by
  have step := jobStep_eq p before st.resetInsns clock
  rw [run_succ pos]
  split
  next continues =>
    obtain ⟨k, rest⟩ := runLoop_burst tick n before _ (p.step st.resetInsns io).io
      ((step_input p st.resetInsns io).trans clock)
    have next : jobStep p (tickInput nowNs) ⟨st.job, before.append io.out.log⟩ =
        .inl ⟨(p.step st.resetInsns io).st.job,
          before.append (p.step st.resetInsns io).io.out.log⟩ := by
      refine step.trans ?_
      rw [Ran.report, if_pos (Or.inl continues)]
    exact ⟨k, by rw [after_succ_of_next next, rest]⟩
  next =>
    refine ⟨0, ?_⟩
    rw [after_one]
    exact step

end Calls

def Log.ofCalls (calls : List Outcome) : Log :=
  ⟨calls.flatMap Outcome.emits, calls.flatMap Outcome.queued⟩

theorem Log.ofCalls_cons (o : Outcome) (calls : List Outcome) :
    Log.ofCalls (o :: calls) = o.log.append (Log.ofCalls calls) := rfl

/-- A job that ended: every call but the last yielded. -/
structure Completed (before : Log) (result : Step) (final : Progress)
    (ran : CartState × List Outcome) : Prop where
  job : ran.1.job = final.job
  log : before.append (Log.ofCalls ran.2) = final.log
  result : ran.2.getLast?.bind Outcome.step = some result
  yields : ∀ o ∈ ran.2.dropLast, o.step = some .yield

section Completion

variable {img : Image} {nowNs : BitVec 64}

/-- One call of `run_tick_job`. -/
def tickRan (img : Image) (nowNs : BitVec 64) (st : CartState) : Ran LogIo :=
  img.cartridge.run N_TICK st ⟨tickInput nowNs, Outcome.default⟩

variable {st : CartState}

theorem tickCalls_yield (yields : (tickRan img nowNs st).result = .yield) (maxCalls : Nat) :
    tickCalls img nowNs (maxCalls + 1) st =
      ((tickCalls img nowNs maxCalls (tickRan img nowNs st).st).1, (tickRan img nowNs st).outcome ::
          (tickCalls img nowNs maxCalls (tickRan img nowNs st).st).2) :=
  if_pos (congrArg some yields)

theorem tickCalls_stop (stops : (tickRan img nowNs st).result ≠ .yield) (maxCalls : Nat) :
    tickCalls img nowNs (maxCalls + 1) st =
      ((tickRan img nowNs st).st, [(tickRan img nowNs st).outcome]) :=
  if_neg (fun yields => stops (Option.some.inj yields))

variable {final : Progress}

theorem Completed.cons {before : Log} {result : Step} {o : Outcome} {ran : CartState × List Outcome}
    (yields : o.step = some .yield) (rest : Completed (before.append o.log) result final ran) :
    Completed before result final (ran.1, o :: ran.2) := by
  obtain ⟨job, log, last, all⟩ := rest
  obtain ⟨st, calls⟩ := ran
  cases calls with
  | nil => cases last
  | cons o' calls =>
    constructor
    · exact job
    · rw [Log.ofCalls_cons, ← Log.append_assoc]
      exact log
    · exact last
    · intro q member
      rcases List.mem_cons.mp member with rfl | member
      · exact yields
      · exact all q member

theorem tickCalls_complete (tick : img.stage = STAGE_TICK) (pos : 0 < img.maxInsn.toNat)
    {n : Nat} {before : Log} {result : Step}
    (ends : after (jobStep img.cartridge (tickInput nowNs)) n ⟨st.job, before⟩ = .inr (result, final)) :
    ∃ needed, ∀ maxCalls, needed ≤ maxCalls →
      Completed before result final (tickCalls img nowNs maxCalls st) := by
  -- Induction on the instructions that remain: every call executes at least one.
  induction n using Nat.strong_induction_on generalizing before st with
  | _ n ih =>
    obtain ⟨k, burst⟩ : ∃ k, after (jobStep img.cartridge (tickInput nowNs)) (k + 1)
        ⟨st.job, before.append Outcome.default.log⟩ = (tickRan img nowNs st).report before :=
      run_burst tick pos 255 before st ⟨tickInput nowNs, Outcome.default⟩ rfl
    have fresh : before.append Outcome.default.log = before := Log.append_empty before
    rw [fresh] at burst
    by_cases yields : (tickRan img nowNs st).result = .yield
    · rw [Ran.report, if_pos (Or.inr yields)] at burst
      have rest := after_resume burst ends
      have smaller : n - (k + 1) < n := by
        cases n with
        | zero => cases ends
        | succ n => omega
      obtain ⟨needed, complete⟩ := ih _ smaller rest
      refine ⟨needed + 1, ?_⟩
      intro maxCalls enough
      cases maxCalls with
      | zero => cases enough
      | succ maxCalls =>
        rw [tickCalls_yield yields]
        exact .cons (congrArg some yields) (complete maxCalls (Nat.le_of_succ_le_succ enough))
    · have stops : ¬ ((tickRan img nowNs st).result = .cont ∨
          (tickRan img nowNs st).result = .yield) :=
        not_or.mpr ⟨runLoop_ended _ _ _, yields⟩
      rw [Ran.report, if_neg stops] at burst
      have same := after_unique ends burst
      cases same
      refine ⟨1, ?_⟩
      intro maxCalls enough
      cases maxCalls with
      | zero => cases enough
      | succ maxCalls =>
        rw [tickCalls_stop yields]
        constructor
        · rfl
        · rw [Log.ofCalls_cons]
          exact congrArg before.append (Log.append_empty _)
        · rfl
        · intro o member
          cases member

end Completion

theorem jobStep_result {p : Cartridge} {nowNs : BitVec 64} (s : Progress) (r : Step × Progress)
    (stops : jobStep p (tickInput nowNs) s = .inr r) : r.1 ≠ .cont ∧ r.1 ≠ .yield := by
  unfold jobStep Ran.report at stops
  split at stops <;> cases stops
  next ended =>
    exact not_or.mp ended

theorem Sound.jobStep_stops {img : Image} (sound : Sound img) (nowNs : BitVec 64) (s : Progress) :
    ∃ n result final, after (jobStep img.cartridge (tickInput nowNs)) n s = .inr (result, final) := by
  obtain ⟨⟨result, final⟩, stops⟩ := after_stops (m := jobStep img.cartridge (tickInput nowNs))
    (fun s => insnsLeft img s.job.state) (fun s s' next => by
      unfold jobStep Ran.report at next
      split at next
      next goes =>
        cases next
        have budget : s.job.state.insns.toNat < img.maxInsn.toNat := sound.maxInsnPos
        exact ((sound.step_spends s.job.state _ budget).1 goes).2
      next => cases next) s
  exact ⟨_, result, final, stops⟩

/-- Whatever the budget of its calls, a tick job ends in the same registers,
window, pc, flags and back-edge count, with the same result, having emitted the
same records. -/
theorem tick_job_budget_invisible {sha256 : List Byte → List Byte} {bytes : List Byte}
    {img : Image} {report : Report} (decoded : Image.decode sha256 bytes = .ok img)
    (validated : validate img = .ok report) (tick : img.stage = STAGE_TICK) (nowNs : BitVec 64)
    (st : CartState) :
    ∃ (result : Step) (job : Job) (emits : List (Word × Word × Word)),
      result ≠ .yield ∧ result ≠ .cont ∧
      ∀ budget : Half, 1 ≤ budget.toNat → budget.toNat ≤ 256 →
        ∃ needed, ∀ maxCalls, needed ≤ maxCalls →
          (tickCalls { img with maxInsn := budget } nowNs maxCalls st).1.job = job ∧
          ((tickCalls { img with maxInsn := budget } nowNs maxCalls st).2.getLast?.bind
            Outcome.step) = some result ∧
          (tickCalls { img with maxInsn := budget } nowNs maxCalls st).2.flatMap Outcome.emits =
            emits ∧
          ∀ o ∈ (tickCalls { img with maxInsn := budget } nowNs maxCalls st).2.dropLast,
            o.step = some .yield := by
  have sound := accepted_sound decoded validated
  obtain ⟨n, result, final, ends⟩ := sound.jobStep_stops nowNs ⟨st.job, Log.empty⟩
  have stopped := after_result jobStep_result ends
  refine ⟨result, final.job, final.log.emits, stopped.2, stopped.1, ?_⟩
  intro budget positive _
  have budgeted : ({ img with maxInsn := budget } : Image).stage = STAGE_TICK := tick
  obtain ⟨needed, complete⟩ : ∃ needed, ∀ maxCalls, needed ≤ maxCalls →
      Completed Log.empty result final
        (tickCalls { img with maxInsn := budget } nowNs maxCalls st) :=
    tickCalls_complete budgeted positive ends
  refine ⟨needed, ?_⟩
  intro maxCalls enough
  obtain ⟨job, log, last, all⟩ := complete maxCalls enough
  exact ⟨job, last, congrArg Log.emits log, all⟩

/-- One instruction a call and the whole budget in one call. -/
theorem countdownImage_budget_invisible : ∃ few many, ∀ maxCalls, few ≤ maxCalls → many ≤ maxCalls →
      (tickCalls { countdownImage with maxInsn := 1 } 0 maxCalls
          (beginTickJob countdownImage zeroed (fun _ => 0))).1.job =
        (tickCalls { countdownImage with maxInsn := 256 } 0 maxCalls
          (beginTickJob countdownImage zeroed (fun _ => 0))).1.job := by
  obtain ⟨_, _, _, -, -, same⟩ := tick_job_budget_invisible countdownImage_decoded
    countdownImage_validated rfl 0 (beginTickJob countdownImage zeroed (fun _ => 0))
  obtain ⟨few, atOne⟩ := same 1 (by decide) (by decide)
  obtain ⟨many, atAll⟩ := same 256 (by decide) (by decide)
  refine ⟨few, many, ?_⟩
  intro maxCalls enough enough'
  rw [(atOne maxCalls enough).1, (atAll maxCalls enough').1]

end Unheaded.Cart
