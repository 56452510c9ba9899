import Unheaded.Cart.Trace

/-!
# Recording and replay

`upc_cartridge::replay`: a recorded run is executed again from its head, and every instruction is
compared with the recording by pc, word, result code and state hash.
-/

namespace Unheaded.Cart

open Lib Mbc List Option Cartridge TraceStep
open BitVec (ofNat)

/-- One FNV-1a round on the low byte of `b`. -/
def eat (h b : Word) : Word := (h ^^^ (b &&& 0xFF)) * 0x01000193

def eat32 (h w : Word) : Word := eat (eat (eat (eat h w) (w >>> 8)) (w >>> 16)) (w >>> 24)

/-- `state_hash`: registers, pc, flags and window. -/
def stateHash (st : CartState) : Word :=
  let h := (range 16).foldl (fun h i => eat32 h (st.regs (ofNat 4 i))) 0x811c9dc5
  let h := eat h (st.pc.setWidth 32)
  let h := eat h ((st.pc >>> 8).setWidth 32)
  let h := eat h (st.flags.setWidth 32)
  (range 64).foldl (fun h i => eat32 h (st.mem (ofNat 6 i))) h

theorem stateHash_withStatus (st : CartState) (status : Byte) :
    stateHash (st.withStatus status) = stateHash st := rfl

/-- `HeadIo`: the inputs of a head, the outputs of the run. -/
structure HeadIo where
  head : TraceHead
  emits : List (Word × Word × Word)
  queued : List Features

instance : CartIo HeadIo where
  field io id := (if io.head.stage = STAGE_XDP then
      if known : id.toNat < 13 then some (io.head.fields ⟨id.toNat, known⟩) else none
    else none, io)
  nowNsLo io := (io.head.now.setWidth 32, io)
  emit io kind a b := { io with emits := io.emits ++ [(kind, a, b)] }
  queue io feat := { io with queued := io.queued ++ [feat] }

/-- One re-executed instruction. -/
structure ReplayedStep where
  pc : Word
  insn : Word
  code : Word
  hash : Word
  deriving DecidableEq

/-- Where replay first disagreed with the recording. -/
structure Replay.Divergence where
  idx : Nat
  what : String
  recorded : Word
  replayed : Word
  deriving DecidableEq

/-- The variables of the loop in `replay`. -/
structure Replaying where
  st : CartState
  io : HeadIo
  states : List CartState
  steps : List ReplayedStep
  div : Option Replay.Divergence

structure Replayer where
  run : Run
  states : List CartState
  steps : List ReplayedStep
  outcome : Step
  emits : List (Word × Word × Word)
  queued : List Features
  divergence : Option Replay.Divergence
  cursor : Nat

def firstDifference (idx : Nat) (pairs : List (String × Word × Word)) : Option Replay.Divergence :=
  (pairs.find? fun x => decide (x.2.1 ≠ x.2.2)).map fun x => ⟨idx, x.1, x.2.1, x.2.2⟩

/-- Compare instruction `i` with the recording. -/
def Run.compare (run : Run) (i : Nat) (s : ReplayedStep) : Option Replay.Divergence :=
  match run.steps[i]? with
  | none => some ⟨i, "steps", ofNat 32 run.steps.length, ofNat 32 i + 1⟩
  | some r =>
    firstDifference i [("pc", r.pc, s.pc), ("insn", r.insn, s.insn), ("hash", r.hash, s.hash),
      ("code", r.code, s.code)]

variable (img : Image)

/-- The loop variables after `run_one` returned `r`: an instruction that was
executed is compared and kept. -/
def Replaying.next (run : Run) (v : Replaying) (r : Ran HeadIo) : Replaying :=
  if r.st.insns ≠ v.st.insns then
    let pc : Word := v.st.pc.setWidth 32
    let s : ReplayedStep := ⟨pc, (img.rom[pc.toNat]?).getD 0, stepCode r.result, stateHash r.st⟩
    { st := r.st
      io := r.io
      states := v.states ++ [r.st]
      steps := v.steps ++ [s]
      div := if v.div = none then run.compare v.steps.length s else v.div }
  else { v with st := r.st, io := r.io }

/-- The loop of `replay`, with `n` passes left, and how the run ended in it. -/
def replayLoop (img : Image) (run : Run) : Nat → Replaying → Replaying × Option Step
  | 0, v => (v, none)
  | n + 1, v =>
    let r := img.cartridge.runOne v.st v.io
    if r.result = .cont then replayLoop img run n (v.next img run r)
    else (v.next img run r, some r.result)

def Replaying.finish (v : Replaying) (ended : Option Step) : Ran HeadIo :=
  match ended with
  | some r => ⟨r, v.st, v.io⟩
  | none => img.cartridge.runOut v.st v.io

/-- The checks after the loop: the number of steps and the end record. -/
def Run.conclude (run : Run) (v : Replaying) (last : Ran HeadIo) : Option Replay.Divergence :=
  let div :=
    if v.div = none ∧ run.steps.length ≠ v.steps.length then
      some ⟨v.steps.length, "steps", ofNat 32 run.steps.length,
        ofNat 32 v.steps.length⟩
    else v.div
  match div, run.fin with
  | none, some e =>
    firstDifference v.steps.length [("end", e.code, stepCode last.result),
      ("end", e.hash, stateHash last.st), ("end", e.insns, last.st.insns)]
  | div, _ => div

def stageCap (stage : Byte) : Nat := if stage = STAGE_XDP then N_PKT else N_TICK

def replay (run : Run) : Replayer :=
  let st := run.head.state.resetInsns
  let div :=
    if img.stage ≠ run.head.stage then
      some ⟨0, "stage", run.head.stage.setWidth 32, img.stage.setWidth 32⟩
    else none
  let (v, ended) := replayLoop img run (stageCap run.head.stage)
    ⟨st, ⟨run.head, [], []⟩, [st], [], div⟩
  let last := v.finish img ended
  { run := run
    states := v.states
    steps := v.steps
    outcome := last.result
    emits := last.io.emits
    queued := last.io.queued
    divergence := run.conclude v last
    cursor := 0 }

/-- The step record `record` writes for instruction `i`. -/
def ReplayedStep.record (runId : BitVec 64) (i : Nat) (s : ReplayedStep) : TraceStep where
  event := TraceRec.EVENT_COMPUTED
  subkind := TraceRec.SUBKIND
  recKind := TraceRec.REC_STEP
  rsv := 0
  idx := ofNat 32 i
  runId := runId
  pc := s.pc
  insn := s.insn
  code := s.code
  hash := s.hash

def record (head : TraceHead) : Run :=
  let r := replay img ⟨head, [], none⟩
  let steps := r.steps.mapIdx (ReplayedStep.record head.runId)
  { head := head
    steps := steps
    fin := some {
      event := TraceRec.EVENT_COMPUTED
      subkind := TraceRec.SUBKIND
      recKind := TraceRec.REC_END
      rsv := 0
      insns := ofNat 32 steps.length
      runId := head.runId
      code := stepCode r.outcome
      hash := stateHash (r.states.getLast?.getD head.state)
      rsv2 := 0 } }

namespace Cartridge

variable {ι : Type} [CartIo ι] (p : Cartridge)

/-- The instructions a call executes, in order: the pc of each and what
`run_one` returned for it. -/
def executed : Nat → CartState → ι → List (Word × Ran ι)
  | 0, _, _ => []
  | n + 1, st, io =>
    let r := p.runOne st io
    let here := if r.st.insns ≠ st.insns then [(st.pc.setWidth 32, r)] else []
    if r.result = .cont then here ++ executed n r.st r.io else here

theorem runOne_cases (st : CartState) (io : ι) : (p.runOne st io).st.insns = st.insns + 1 ∨
      ((p.runOne st io).result ≠ .cont ∧ ∃ status, (p.runOne st io).st = st.withStatus status) := by
  rw [runOne]
  split
  next =>
    right
    rw [runOut]
    split
    next => exact ⟨Step.noConfusion, _, rfl⟩
    next => exact ⟨Step.noConfusion, _, rfl⟩
  next =>
    rw [step]
    split
    next => exact .inr ⟨Step.noConfusion, _, rfl⟩
    next =>
      split
      next => exact .inr ⟨Step.noConfusion, _, rfl⟩
      next w fetched =>
        left
        rw [insns_settle, execute_insns]
        rfl

theorem insns_succ_ne (n : Word) : n + 1 ≠ n := by
  intro same
  have one : (1 : Word) = 0 := by
    rwa [BitVec.add_right_eq_self] at same
  exact absurd one (by decide)

theorem insns_withStatus (st : CartState) (status : Byte) :
    (st.withStatus status).insns = st.insns := rfl

theorem runLoop_executed (n : Nat) (st : CartState) (io : ι) :
    (p.runLoop n st io).st.insns = st.insns + ofNat 32 (p.executed n st io).length ∧
      ∃ status, (p.runLoop n st io).st =
        (((p.executed n st io).map fun x => x.2.st).getLast?.getD st).withStatus status := by
  induction n generalizing st io with
  | zero =>
    rw [runLoop, runOut]
    split
    next => exact ⟨(BitVec.add_zero _).symm, _, rfl⟩
    next => exact ⟨(BitVec.add_zero _).symm, _, rfl⟩
  | succ n ih =>
    rw [runLoop, executed]
    rcases p.runOne_cases st io with counted | ⟨stops, status, kept⟩
    · have new : (p.runOne st io).st.insns ≠ st.insns := by
        rw [counted]
        exact insns_succ_ne _
      split
      next goes =>
        obtain ⟨count, status, final⟩ := ih (p.runOne st io).st (p.runOne st io).io
        refine ⟨?_, status, ?_⟩
        · rw [count, counted, length_append, BitVec.ofNat_add, BitVec.add_assoc]
          rfl
        · rw [final, map_append, map_singleton, singleton_append, List.getLast?_cons, getD_some]
      next stops =>
        refine ⟨counted, (p.runOne st io).st.status, rfl⟩
    · have same : ¬ (p.runOne st io).st.insns ≠ st.insns := by
        rw [kept, insns_withStatus, not_not]
      rw [if_neg same, if_neg stops, if_neg stops]
      rw [kept]
      exact ⟨(BitVec.add_zero _).symm, status, rfl⟩

end Cartridge

def TraceStep.view (s : TraceStep) : ReplayedStep := ⟨s.pc, s.insn, s.code, s.hash⟩

def ReplayedStep.ofRan (img : Image) (x : Word × Ran HeadIo) : ReplayedStep :=
  ⟨x.1, (img.rom[x.1.toNat]?).getD 0, stepCode x.2.result, stateHash x.2.st⟩

theorem firstDifference_eq_none {idx : Nat} {pairs : List (String × Word × Word)} :
    firstDifference idx pairs = none ↔ ∀ x ∈ pairs, x.2.1 = x.2.2 := by
  rw [firstDifference, map_eq_none_iff, List.find?_eq_none]
  constructor
  · intro all x mem
    have same := all x mem
    simpa using same
  · intro all x mem
    simp [all x mem]

theorem Run.compare_eq_none {run : Run} {i : Nat} {s : ReplayedStep} :
    run.compare i s = none ↔ (run.steps.map view)[i]? = some s := by
  rw [compare, List.getElem?_map]
  cases run.steps[i]? with
  | none => simp
  | some r =>
    rw [firstDifference_eq_none, map_some, some.injEq]
    obtain ⟨pc, insn, code, hash⟩ := s
    simp only [mem_cons, not_mem_nil, or_false, forall_eq_or_imp, forall_eq,
      view, ReplayedStep.mk.injEq]
    constructor
    · rintro ⟨pc, insn, hash, code⟩
      exact ⟨pc, insn, code, hash⟩
    · rintro ⟨pc, insn, code, hash⟩
      exact ⟨pc, insn, hash, code⟩

theorem Run.conclude_eq_none {run : Run} {v : Replaying} {last : Ran HeadIo} :
    run.conclude v last = none ↔ v.div = none ∧ run.steps.length = v.steps.length ∧
      ∀ e, run.fin = some e → e.code = stepCode last.result ∧ e.hash = stateHash last.st ∧
        e.insns = last.st.insns := by
  have checked : ∀ e : TraceEnd, firstDifference v.steps.length
      [("end", e.code, stepCode last.result), ("end", e.hash, stateHash last.st),
        ("end", e.insns, last.st.insns)] = none ↔
      e.code = stepCode last.result ∧ e.hash = stateHash last.st ∧ e.insns = last.st.insns := by
    intro e
    rw [firstDifference_eq_none]
    simp
  unfold conclude
  by_cases clean : v.div = none
  · by_cases same : run.steps.length = v.steps.length
    · rw [if_neg (fun both => both.2 same), clean]
      cases found : run.fin with
      | none => simp [same]
      | some e =>
        rw [checked e]
        simp [same]
    · rw [if_pos ⟨clean, same⟩]
      simp [same]
  · obtain ⟨d, diverged⟩ := ne_none_iff_exists'.mp clean
    rw [diverged]
    simp

section Loop

variable (img : Image) (run : Run)

/-- What the loop leaves, in terms of the instructions that the call executes. -/
structure Replayed (n : Nat) (v : Replaying) (out : Replaying × Option Step) : Prop where
  ran : out.1.finish img out.2 = img.cartridge.runLoop n v.st v.io
  steps : out.1.steps = v.steps ++ (img.cartridge.executed n v.st v.io).map (ReplayedStep.ofRan img)
  states : out.1.states = v.states ++ (img.cartridge.executed n v.st v.io).map fun x => x.2.st
  div : out.1.div = none ↔ v.div = none ∧
    ((img.cartridge.executed n v.st v.io).map (ReplayedStep.ofRan img)) <+:
      (run.steps.map view).drop v.steps.length

variable {img run}

theorem prefix_drop_cons {α : Type} {x : α} {xs l : List α} {k : Nat} :
    (x :: xs) <+: l.drop k ↔ l[k]? = some x ∧ xs <+: l.drop (k + 1) := by
  have first : l[k]? = (l.drop k)[0]? := by rw [List.getElem?_drop, Nat.add_zero]
  rw [← drop_drop, first]
  cases l.drop k with
  | nil => simp
  | cons y m =>
    rw [cons_prefix_cons, List.getElem?_cons_zero, some.injEq, eq_comm]
    rfl

theorem next_of_executed {v : Replaying} {r : Ran HeadIo} (new : r.st.insns ≠ v.st.insns) :
    (v.next img run r).st = r.st ∧ (v.next img run r).io = r.io ∧
      (v.next img run r).states = v.states ++ [r.st] ∧
      (v.next img run r).steps = v.steps ++ [ReplayedStep.ofRan img (v.st.pc.setWidth 32, r)] ∧
      ((v.next img run r).div = none ↔ v.div = none ∧
        (run.steps.map view)[v.steps.length]? =
          some (ReplayedStep.ofRan img (v.st.pc.setWidth 32, r))) := by
  rw [Replaying.next, if_pos new]
  refine ⟨rfl, rfl, rfl, rfl, ?_⟩
  split
  next clean =>
    rw [Run.compare_eq_none]
    exact ⟨fun same => ⟨clean, same⟩, And.right⟩
  next diverged => exact ⟨fun clean => absurd clean diverged, fun both => absurd both.1 diverged⟩

theorem replayLoop_replayed (n : Nat) (v : Replaying) :
    Replayed img run n v (replayLoop img run n v) := by
  induction n generalizing v with
  | zero =>
    refine ⟨rfl, (append_nil _).symm, (append_nil _).symm, ?_⟩
    rw [executed]
    simp [replayLoop]
  | succ n ih =>
    rcases img.cartridge.runOne_cases v.st v.io with counted | ⟨stops, status, kept⟩
    · have new : (img.cartridge.runOne v.st v.io).st.insns ≠ v.st.insns := by
        rw [counted]
        exact insns_succ_ne _
      obtain ⟨st, io, states, steps, div⟩ := @next_of_executed img run v _ new
      by_cases goes : (img.cartridge.runOne v.st v.io).result = .cont
      · have rest := ih (v.next img run (img.cartridge.runOne v.st v.io))
        have done : img.cartridge.executed (n + 1) v.st v.io =
            (v.st.pc.setWidth 32, img.cartridge.runOne v.st v.io) ::
              img.cartridge.executed n (img.cartridge.runOne v.st v.io).st
                (img.cartridge.runOne v.st v.io).io := by
          rw [executed, if_pos new, if_pos goes, singleton_append]
        have ran := rest.ran
        have restSteps := rest.steps
        have restStates := rest.states
        have restDiv := rest.div
        rw [st, io] at ran restSteps restStates restDiv
        rw [replayLoop, if_pos goes]
        refine ⟨?_, ?_, ?_, ?_⟩
        · rw [ran, runLoop, if_pos goes]
        · rw [restSteps, steps, done, map_cons, List.append_assoc, singleton_append]
        · rw [restStates, states, done, map_cons, List.append_assoc, singleton_append]
        · rw [restDiv, div, done, map_cons, prefix_drop_cons, steps, length_append,
            length_singleton, and_assoc]
      · have done : img.cartridge.executed (n + 1) v.st v.io =
            [(v.st.pc.setWidth 32, img.cartridge.runOne v.st v.io)] := by
          rw [executed, if_pos new, if_neg goes]
        rw [replayLoop, if_neg goes]
        refine ⟨?_, ?_, ?_, ?_⟩
        · rw [runLoop, if_neg goes, Replaying.finish, st, io]
        · rw [steps, done, map_singleton]
        · rw [states, done, map_singleton]
        · rw [div, done, map_singleton, prefix_drop_cons]
          exact ⟨fun both => ⟨both.1, both.2, nil_prefix⟩, fun both => ⟨both.1, both.2.1⟩⟩
    · have same : ¬ (img.cartridge.runOne v.st v.io).st.insns ≠ v.st.insns := by
        rw [kept, insns_withStatus, not_not]
      have done : img.cartridge.executed (n + 1) v.st v.io = [] := by
        rw [executed, if_neg same, if_neg stops]
      rw [replayLoop, if_neg stops, Replaying.next, if_neg same]
      refine ⟨?_, ?_, ?_, ?_⟩
      · rw [runLoop, if_neg stops, Replaying.finish]
      · rw [done, map_nil, append_nil]
      · rw [done, map_nil, append_nil]
      · rw [done]
        exact ⟨fun clean => ⟨clean, nil_prefix⟩, And.left⟩

end Loop

def reexecute (img : Image) (head : TraceHead) : Ran HeadIo :=
  img.cartridge.run (stageCap head.stage) head.state ⟨head, [], []⟩

def reexecuted (img : Image) (head : TraceHead) : List (Word × Ran HeadIo) :=
  img.cartridge.executed (stageCap head.stage) head.state.resetInsns ⟨head, [], []⟩

/-- A recording is that of the execution: every step by pc, word, code and
hash, and the end if it was recorded. -/
structure Run.Exact (img : Image) (run : Run) : Prop where
  stage : img.stage = run.head.stage
  steps : run.steps.map view = (reexecuted img run.head).map (ReplayedStep.ofRan img)
  fin : ∀ e, run.fin = some e → e.code = stepCode (reexecute img run.head).result ∧
    e.hash = stateHash (reexecute img run.head).st ∧
    e.insns = (reexecute img run.head).st.insns

variable (img : Image) (run : Run)

theorem replay_executes : (replay img run).outcome = (reexecute img run.head).result ∧
      (replay img run).emits = (reexecute img run.head).io.emits ∧
      (replay img run).queued = (reexecute img run.head).io.queued ∧
      (replay img run).steps = (reexecuted img run.head).map (ReplayedStep.ofRan img) ∧
      (replay img run).states = run.head.state.resetInsns ::
        (reexecuted img run.head).map fun x => x.2.st := by
  have spec := @replayLoop_replayed img run (stageCap run.head.stage)
    ⟨run.head.state.resetInsns, ⟨run.head, [], []⟩, [run.head.state.resetInsns], [],
      if img.stage ≠ run.head.stage then
        some ⟨0, "stage", run.head.stage.setWidth 32, img.stage.setWidth 32⟩
      else none⟩
  refine ⟨?_, ?_, ?_, ?_, ?_⟩
  · exact congrArg Ran.result spec.ran
  · exact congrArg (fun r => r.io.emits) spec.ran
  · exact congrArg (fun r => r.io.queued) spec.ran
  · exact spec.steps
  · exact spec.states

theorem replay_divergence_iff : (replay img run).divergence = none ↔ run.Exact img := by
  have spec := @replayLoop_replayed img run (stageCap run.head.stage)
    ⟨run.head.state.resetInsns, ⟨run.head, [], []⟩, [run.head.state.resetInsns], [],
      if img.stage ≠ run.head.stage then
        some ⟨0, "stage", run.head.stage.setWidth 32, img.stage.setWidth 32⟩
      else none⟩
  have concluded : (replay img run).divergence = none ↔ _ := Run.conclude_eq_none
  rw [concluded, spec.div, spec.ran, spec.steps]
  rw [nil_append, length_nil, drop_zero, length_map]
  constructor
  · rintro ⟨⟨stage, recorded⟩, length, fin⟩
    refine ⟨?_, ?_, fin⟩
    · by_contra other
      rw [if_pos other] at stage
      exact absurd stage (some_ne_none _)
    · refine (recorded.eq_of_length ?_).symm
      rw [length_map, length_map]
      exact length.symm
  · intro exact'
    refine ⟨⟨if_neg (not_not.mpr exact'.stage), ?_⟩, ?_, exact'.fin⟩
    · rw [exact'.steps]
      exact prefix_refl _
    · have lengths := congrArg List.length exact'.steps
      rwa [length_map, length_map] at lengths

variable {img}

theorem map_mapIdx_view (runId : BitVec 64) (steps : List ReplayedStep) :
    (steps.mapIdx (ReplayedStep.record runId)).map view = steps := by
  apply ext_getElem?
  intro i
  rw [List.getElem?_map, List.getElem?_mapIdx]
  cases steps[i]? with
  | none => rfl
  | some s => rfl

theorem record_exact {head : TraceHead} (stage : img.stage = head.stage) :
    (record img head).Exact img := by
  obtain ⟨outcome, -, -, steps, states⟩ := replay_executes img ⟨head, [], none⟩
  obtain ⟨count, status, final⟩ := img.cartridge.runLoop_executed (stageCap head.stage)
    head.state.resetInsns (HeadIo.mk head [] [])
  refine ⟨stage, ?_, ?_⟩
  · exact (map_mapIdx_view head.runId _).trans steps
  · intro e found
    rw [record, some.injEq] at found
    subst found
    refine ⟨congrArg stepCode outcome, ?_, ?_⟩
    · have last : ((replay img ⟨head, [], none⟩).states.getLast?.getD head.state) =
          (((reexecuted img head).map fun x => x.2.st).getLast?.getD head.state.resetInsns) := by
        rw [states, List.getLast?_cons, getD_some]
      rw [last]
      exact ((congrArg stateHash final).trans (stateHash_withStatus _ status)).symm
    · rw [length_mapIdx, steps, length_map]
      exact (count.trans (BitVec.zero_add _)).symm

theorem record_canonical {head : TraceHead} (canonical : (Record.head head).Canonical) :
    (record img head).Canonical := by
  refine ⟨canonical, ?_, ?_⟩
  · intro s recorded
    obtain ⟨i, inside, rfl⟩ := mem_mapIdx.mp recorded
    exact ⟨⟨rfl, rfl, rfl, rfl⟩, rfl⟩
  · intro e found
    rw [record, some.injEq] at found
    subst found
    exact ⟨⟨rfl, rfl, rfl, rfl, rfl⟩, rfl⟩

/-- The trace of one run of `img` for each head. -/
def recordAll (img : Image) (slotSha : Fin 4 → Fin 32 → Byte) (heads : List TraceHead) : Trace :=
  ⟨slotSha, heads.map (record img), 0⟩

/-- Traces of an image's own stage that fit in a file are parsed as they were
recorded and replayed without divergence, several runs with one id and the
calls of one job included.  Conversely a run of any parsed file that is
replayed without divergence was recorded from the execution that replay makes:
its steps by pc, word, code and state hash, its end by code, hash and count. -/
theorem replay_bit_exact (img : Image) :
    (∀ (slotSha : Fin 4 → Fin 32 → Byte) (heads : List TraceHead),
      (∀ head ∈ heads, (Record.head head).Canonical ∧ img.stage = head.stage) →
      (recordAll img slotSha heads).encode.length ≤ MAX_TRACE →
        Trace.parse (recordAll img slotSha heads).encode = .ok (recordAll img slotSha heads) ∧
          ∀ run ∈ (recordAll img slotSha heads).runs, (replay img run).divergence = none) ∧
    (∀ (bytes : List Byte) (t : Trace), Trace.parse bytes = .ok t → ∀ run ∈ t.runs,
      (replay img run).divergence = none → run.Exact img ∧
          (replay img run).outcome = (reexecute img run.head).result ∧
          (replay img run).emits = (reexecute img run.head).io.emits ∧
          (replay img run).queued = (reexecute img run.head).io.queued ∧
          (replay img run).steps = run.steps.map view ∧
          (replay img run).states = run.head.state.resetInsns ::
            (reexecuted img run.head).map fun x => x.2.st) := by
  constructor
  · intro slotSha heads given small
    refine ⟨Trace.parse_encode ?_ rfl small, ?_⟩
    · intro run recorded
      obtain ⟨head, mem, rfl⟩ := List.mem_map.mp recorded
      exact record_canonical (given head mem).1
    · intro run recorded
      obtain ⟨head, mem, rfl⟩ := List.mem_map.mp recorded
      exact (replay_divergence_iff img _).mpr (record_exact (given head mem).2)
  · intro bytes t parsed run mem clean
    have same := (replay_divergence_iff img run).mp clean
    obtain ⟨outcome, emits, queued, steps, states⟩ := replay_executes img run
    exact ⟨same, outcome, emits, queued, steps.trans same.steps.symm, states⟩

/-- A head of a packet run, with nothing set. -/
def blankHead : TraceHead where
  event := TraceRec.EVENT_COMPUTED
  subkind := TraceRec.SUBKIND
  recKind := TraceRec.REC_HEAD
  stage := STAGE_XDP
  slot := 0
  rsv := fun _ => 0
  gen := 0
  rsv2 := 0
  runId := 7
  now := 0
  flow := FlowKey.default
  fields := fun _ => 0
  pad := 0
  state := CartState.zeroed

/-- Two runs with one id. -/
theorem passImage_replays :
    let t := recordAll passImage (fun _ _ => 0) [blankHead, blankHead]
    Trace.parse t.encode = .ok t ∧ ∀ run ∈ t.runs, (replay passImage run).divergence = none := by
  refine (replay_bit_exact passImage).1 _ _ ?_ (by decide +kernel)
  intro head mem
  have blank : head = blankHead := by
    rcases mem_cons.mp mem with same | mem
    · exact same
    · exact mem_singleton.mp mem
  rw [blank]
  exact ⟨⟨rfl, rfl, rfl, rfl, rfl, rfl, rfl⟩, rfl⟩

/-- A head of the other stage is recorded but does not replay, and a reserved
field that is not zero does not survive the file. -/
theorem other_heads_do_not_replay :
    (replay passImage (record passImage { blankHead with stage := STAGE_TICK })).divergence ≠ none ∧
      Trace.parse (recordAll passImage (fun _ _ => 0) [{ blankHead with pad := 1 }]).encode ≠
        .ok (recordAll passImage (fun _ _ => 0) [{ blankHead with pad := 1 }]) := by
  refine ⟨by decide +kernel, ?_⟩
  have bytes : (recordAll passImage (fun _ _ => 0) [{ blankHead with pad := 1 }]).encode =
      (recordAll passImage (fun _ _ => 0) [blankHead]).encode := by decide +kernel
  have parsed : Trace.parse (recordAll passImage (fun _ _ => 0) [blankHead]).encode =
      .ok (recordAll passImage (fun _ _ => 0) [blankHead]) := by
    refine Trace.parse_encode ?_ rfl (by decide +kernel)
    intro run mem
    rw [mem_singleton.mp mem]
    exact record_canonical ⟨rfl, rfl, rfl, rfl, rfl, rfl, rfl⟩
  rw [bytes, parsed]
  intro same
  have runs := congrArg (fun t => t.runs.map fun run => run.head.pad) (Except.ok.inj same)
  revert runs
  decide +kernel

end Unheaded.Cart
