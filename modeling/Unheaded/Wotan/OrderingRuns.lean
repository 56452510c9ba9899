import Unheaded.Lib.Traces
import Unheaded.Wotan.Ordering

/-!
# Ordered publishing, run by run

A run of the callers, the workers and `Close` has no end. It is fair when no goroutine that can
go on stands still for ever.
-/

namespace Unheaded.Wotan.OrderedPublisher

open Lib List Option Function Publisher DestinationQueue

/-! ## Who takes a step -/

/-- The goroutines: a call of `Publish`, the worker of a destination, and `Close`. -/
inductive Agent (δ κ : Type) where
  | caller (c : κ)
  | worker (d : δ)
  | closer

/-- The goroutine that a step is of. -/
def agent {δ κ : Type} : Event δ κ → Option (Agent δ κ)
  | .publish _ _ => none
  | .getQueue c => some (.caller c)
  | .send c => some (.caller c)
  | .line c => some (.caller c)
  | .refuse c => some (.caller c)
  | .receive c => some (.caller c)
  | .take d => some (.worker d)
  | .notice d => some (.worker d)
  | .finish d _ => some (.worker d)
  | .drain d => some (.worker d)
  | .leave d => some (.worker d)
  | .close => none
  | .closeDone _ => some .closer
  | .closeEnd => some .closer

/-- The queue is one that the message of this call can be sent to: its worker has not exited, and where
the call began after `Close` had returned it drains already. -/
def Open {δ κ : Type} (s : Publisher δ κ) (c : κ) (q : DestinationQueue κ) : Prop :=
  q.worker ≠ .returned ∧ (s.late c = true → q.worker = .draining)

instance {δ κ : Type} [DecidableEq κ] (s : Publisher δ κ) (c : κ) (q : DestinationQueue κ) :
    Decidable (Open s c q) :=
  inferInstanceAs (Decidable (_ ∧ (_ → _)))

def Admits {δ κ : Type} (s : Publisher δ κ) (c : κ) : Option (Caller δ) → Prop
  | some (.selecting d) => ∀ q ∈ s.queues d, Open s c q
  | _ => True

instance {δ κ : Type} [DecidableEq κ] (s : Publisher δ κ) (c : κ) :
    (caller : Option (Caller δ)) → Decidable (Admits s c caller)
  | some (.selecting d) => inferInstanceAs (Decidable (∀ q ∈ s.queues d, Open s c q))
  | none | some (.started _) | some (.inLine _) | some (.waiting _) | some (.answered _) |
    some (.returned _) => isTrue trivial

def Proper {δ κ : Type} (s : Publisher δ κ) : Event δ κ → Prop
  | .send c => Admits s c (s.callers c)
  | .line c => Admits s c (s.callers c)
  | _ => True

instance {δ κ : Type} [DecidableEq κ] (s : Publisher δ κ) : (e : Event δ κ) → Decidable (Proper s e)
  | .send c | .line c => inferInstanceAs (Decidable (Admits s c (s.callers c)))
  | .publish _ _ | .getQueue _ | .refuse _ | .receive _ | .take _ | .notice _ | .finish _ _ |
    .drain _ | .leave _ | .close | .closeDone _ | .closeEnd => isTrue trivial

variable {δ κ : Type}

/-! ## What proper steps preserve -/

/-- No one waits for a worker that has exited, and no message of a late call reaches the client. -/
structure Quiet (s : Publisher δ κ) : Prop where
  empty : ∀ d q, s.queues d = some q → q.worker = .returned → q.ch = []
  early : ∀ d q, s.queues d = some q → ∀ c, c ∈ q.ch ∨ c ∈ q.sendq → s.late c = true →
    q.worker = .draining
  silent : ∀ d q, s.queues d = some q → ∀ c ∈ q.published, s.late c = false
  begun : ∀ d q, s.queues d = some q → ∀ c ∈ q.published, s.callers c ≠ none

theorem quiet_new : Quiet (new δ κ) where
  empty d q here := by cases here
  early d q here := by cases here
  silent d q here := by cases here
  begun d q here := by cases here

theorem Sound.begun {s : Publisher δ κ} (sound : Sound s) (d : δ) (q : DestinationQueue κ)
    (here : s.queues d = some q) (c : κ) (mem : c ∈ q.ch ∨ c ∈ q.sendq) : s.callers c ≠ none := by
  intro absent
  rcases mem with inside | line
  · have waits := (sound.waiting c d).mpr ⟨q, here, mem_append_right _ inside⟩
    simp [absent] at waits
  · have stands := (sound.inLine c d).mpr ⟨q, here, line⟩
    simp [absent] at stands

variable [DecidableEq δ] [DecidableEq κ] {s s' : Publisher δ κ} {e : Event δ κ}

section Parts

variable {t : Publisher δ κ} {d : δ} {q : DestinationQueue κ} {c : κ} {rest : List κ}

/-- The callers of `s` have not been forgotten in `t`. -/
def Recalls (s t : Publisher δ κ) : Prop := ∀ c, s.callers c ≠ none → t.callers c ≠ none

omit [DecidableEq δ] in
theorem recalls_setCaller (s : Publisher δ κ) (c : κ) (caller : Caller δ) :
    Recalls s (s.setCaller c caller) := by
  intro x known
  unfold setCaller
  dsimp only
  rw [update_apply]
  split
  · exact some_ne_none caller
  · exact known

omit [DecidableEq δ] in
theorem recalls_letIn (s : Publisher δ κ) (d : δ) (q : DestinationQueue κ) :
    Recalls s (s.letIn d q) ∧ (s.letIn d q).late = s.late := by
  unfold letIn
  split
  · exact ⟨fun _ known => known, rfl⟩
  · exact ⟨recalls_setCaller s _ _, rfl⟩

omit [DecidableEq δ] in
theorem recalls_dismiss (s : Publisher δ κ) (line : List κ) : Recalls s (s.dismiss line) := by
  intro x known
  unfold dismiss
  dsimp only
  split
  · exact some_ne_none _
  · exact known

omit [DecidableEq δ] [DecidableEq κ] in
theorem Quiet.keep (quiet : Quiet s) (queues : t.queues = s.queues) (late : t.late = s.late)
    (recalls : Recalls s t) : Quiet t where
  empty := by
    rw [queues]
    exact quiet.empty
  early := by
    rw [queues, late]
    exact quiet.early
  silent := by
    rw [queues, late]
    exact quiet.silent
  begun d q here c mem := recalls c (quiet.begun d q (queues ▸ here) c mem)

omit [DecidableEq κ] in
theorem Quiet.put (quiet : Quiet s) (queues : t.queues = update s.queues d (some q))
    (late : t.late = s.late) (recalls : Recalls s t) (empty : q.worker = .returned → q.ch = [])
    (early : ∀ c, c ∈ q.ch ∨ c ∈ q.sendq → s.late c = true → q.worker = .draining)
    (published : ∀ c ∈ q.published, s.late c = false ∧ s.callers c ≠ none) : Quiet t := by
  have found : ∀ d' q', t.queues d' = some q' → q' = q ∨ s.queues d' = some q' := by
    intro d' q' here
    rw [queues, update_apply] at here
    split at here
    · exact .inl (some.inj here).symm
    · exact .inr here
  constructor
  · intro d' q' here
    rcases found d' q' here with rfl | there
    · exact empty
    · exact quiet.empty d' q' there
  · intro d' q' here
    rw [late]
    rcases found d' q' here with rfl | there
    · exact early
    · exact quiet.early d' q' there
  · intro d' q' here x mem
    rw [late]
    rcases found d' q' here with rfl | there
    · exact (published x mem).1
    · exact quiet.silent d' q' there x mem
  · intro d' q' here x mem
    rcases found d' q' here with rfl | there
    · exact recalls x (published x mem).2
    · exact recalls x (quiet.begun d' q' there x mem)

omit [DecidableEq δ] [DecidableEq κ] in
theorem Quiet.published (quiet : Quiet s) (here : s.queues d = some q) :
    ∀ c ∈ q.published, s.late c = false ∧ s.callers c ≠ none :=
  fun c mem => ⟨quiet.silent d q here c mem, quiet.begun d q here c mem⟩

omit [DecidableEq κ] in
theorem mem_receive (mem : c ∈ q.receive.ch ∨ c ∈ q.receive.sendq) : c ∈ q.ch ∨ c ∈ q.sendq := by
  rcases mem with inside | line
  · rcases mem_append.mp inside with old | entered
    · exact .inl (mem_of_mem_tail old)
    · exact .inr (mem_of_mem_take entered)
  · exact .inr (mem_of_mem_drop line)

end Parts

theorem Quiet.move (quiet : Quiet s) (sound : Sound s) (move : Move s e s') (proper : Proper s e) :
    Quiet s' := by
  cases move with
  | @publish c d fresh =>
    -- a new call is in no queue
    have other {x : κ} (known : s.callers x ≠ none) :
        update s.late c (decide (s.closer = .returned)) x = s.late x := by
      refine update_of_ne ?_ _ _
      rintro rfl
      exact known fresh
    refine ⟨quiet.empty, fun d q here x mem => ?_, fun d q here x mem => ?_, fun d q here x mem =>
      recalls_setCaller s c _ x (quiet.begun d q here x mem)⟩
    · change update s.late c _ x = true → _
      rw [other (sound.begun d q here x mem)]
      exact quiet.early d q here x mem
    · exact (other (quiet.begun d q here x mem)).trans (quiet.silent d q here x mem)
  | @found c d q started free here => exact quiet.keep rfl rfl (recalls_setCaller s c _)
  | @created c d started free absent =>
    exact quiet.put rfl rfl (recalls_setCaller s c _) (fun _ => rfl)
      (fun x mem => by rcases mem with mem | mem <;> cases mem) (fun x mem => by cases mem)
  | @send c d q isSelecting here room =>
    obtain ⟨works, drains⟩ : Open s c q := by
      rw [Proper, isSelecting] at proper
      exact proper q here
    refine quiet.put rfl rfl (recalls_setCaller s c _) (fun exited => absurd exited works) ?_
      (quiet.published (q := q) here)
    rintro x (inside | line)
    · rcases mem_append.mp inside with old | new
      · exact quiet.early d q here x (.inl old)
      · rw [mem_singleton.mp new]
        exact drains
    · exact quiet.early d q here x (.inr line)
  | @line c d q isSelecting here full running =>
    obtain ⟨works, drains⟩ : Open s c q := by
      rw [Proper, isSelecting] at proper
      exact proper q here
    refine quiet.put rfl rfl (recalls_setCaller s c _) (fun exited => absurd exited works) ?_
      (quiet.published (q := q) here)
    rintro x (inside | line)
    · exact quiet.early d q here x (.inl inside)
    · rcases mem_append.mp line with old | new
      · exact quiet.early d q here x (.inr old)
      · rw [mem_singleton.mp new]
        exact drains
  | @refuse c d q isSelecting here done => exact quiet.keep rfl rfl (recalls_setCaller s c _)
  | @receive c outcome answered => exact quiet.keep rfl rfl (recalls_setCaller s c _)
  | @take d q c rest here isSelecting first =>
    have idle {x : κ} (mem : x ∈ q.ch ∨ x ∈ q.sendq) : s.late x ≠ true := by
      intro late
      have drains := quiet.early d q here x mem late
      simp [isSelecting] at drains
    have head : c ∈ q.ch ∨ c ∈ q.sendq := .inl (by rw [first]; exact mem_cons_self)
    obtain ⟨recalls, late⟩ := recalls_letIn (s.setQueue d { q.receive with
      worker := .publishing c, published := q.published ++ [c] }) d q
    refine quiet.put (funext fun _ => letIn_queues _ _ _ _) late recalls (fun exited => by cases exited)
      (fun x mem late => absurd late (idle (mem_receive mem))) ?_
    intro x mem
    rcases mem_append.mp mem with old | new
    · exact quiet.published here x old
    · rw [mem_singleton.mp new]
      exact ⟨Bool.eq_false_iff.mpr (idle head), sound.begun d q here c head⟩
  | @notice d q here isSelecting done =>
    exact quiet.put rfl rfl (fun _ known => known) (fun exited => by cases exited)
      (fun _ _ _ => rfl) (quiet.published (q := q) here)
  | @finish d q c acknowledged here publishing =>
    refine quiet.put rfl rfl (recalls_setCaller (s.setQueue d { q with worker := .selecting }) c _)
      (fun exited => by cases exited) ?_ (quiet.published (q := q) here)
    intro x mem late
    have drains := quiet.early d q here x mem late
    simp [publishing] at drains
  | @drain d q c rest here draining first =>
    obtain ⟨recalls, late⟩ := recalls_letIn (s.setQueue d q.receive) d q
    refine quiet.put (funext fun _ => letIn_queues _ _ _ _) late
      (fun x known => recalls_setCaller _ c _ x (recalls x known))
      (fun exited => by rw [receive, draining] at exited; cases exited) (fun _ _ _ => draining)
      (quiet.published (q := q) here)
  | @leave d q here draining nothing =>
    have noLine : q.sendq = [] := by
      refine (sound.queues d q here).sendq_eq_nil ?_
      rw [nothing]
      exact Nat.zero_lt_succ 1023
    refine quiet.put rfl rfl (fun _ known => known) (fun _ => nothing) ?_ (quiet.published (q := q) here)
    rintro x (inside | line)
    · simp [nothing] at inside
    · simp [noLine] at line
  | close idle => exact ⟨quiet.empty, quiet.early, quiet.silent, quiet.begun⟩
  | @closeDone d l q closing mem here =>
    refine quiet.put rfl rfl (recalls_dismiss (s.setQueue d { q with done := true, sendq := [] }) _)
      (quiet.empty d q here) ?_ (quiet.published (q := q) here)
    rintro x (inside | line)
    · exact quiet.early d q here x (.inl inside)
    · cases line
  | closeEnd closing => exact ⟨quiet.empty, quiet.early, quiet.silent, quiet.begun⟩

/-! ## How a call goes on -/

variable {c : κ}

theorem caller_stays (sound : Sound s) (move : Move s e s') {caller : Caller δ}
    (still : agent e ≠ some (.caller c)) (stands : s.callers c = some caller)
    (elsewhere : ∀ d, caller ≠ .inLine d ∧ caller ≠ .waiting d) : s'.callers c = some caller := by
  have waiting := sound.waiting
  have inLine := sound.inLine
  cases move with
  | publish | found | created | send | line | refuse | receive =>
    simp only [setCaller, setQueue]
    grind [agent]
  | notice | leave | close | closeEnd => exact stands
  | @take d q x rest here isSelecting first =>
    unfold letIn
    cases standing : q.sendq with
    | nil => exact stands
    | cons y more =>
      have waits := (inLine y d).mpr ⟨q, here, by rw [standing]; exact mem_cons_self⟩
      simp only [setCaller, setQueue]
      grind
  | @finish d q x acknowledged here publishing =>
    have waits := (waiting x d).mpr ⟨q, here, by
      rw [pending, inHand, publishing]
      exact mem_cons_self⟩
    simp only [setCaller, setQueue]
    grind
  | @drain d q x rest here draining first =>
    have waits := (waiting x d).mpr ⟨q, here, by
      rw [pending_eq (.inr (.inl draining)), first]
      exact mem_cons_self⟩
    unfold letIn
    cases standing : q.sendq with
    | nil =>
      simp only [setCaller, setQueue]
      grind
    | cons y more =>
      have waits := (inLine y d).mpr ⟨q, here, by rw [standing]; exact mem_cons_self⟩
      simp only [setCaller, setQueue]
      grind
  | @closeDone d l q closing mem here =>
    have outside : c ∉ q.sendq := by
      intro inside
      have waits := (inLine c d).mpr ⟨q, here, inside⟩
      rw [stands] at waits
      exact (elsewhere d).1 (some.inj waits)
    exact (if_neg outside).trans stands

def Held (s : Publisher δ κ) (c : κ) : Prop := ∃ d q, s.queues d = some q ∧ c ∈ q.held

theorem caller_acts (sound : Sound s) (move : Move s e s') (acts : agent e = some (.caller c)) :
    match s.callers c with
    | some (.started d) => s'.callers c = some (.selecting d)
    | some (.selecting _) => Held s' c ∨ ∃ outcome, s'.callers c = some (.returned outcome)
    | some (.answered outcome) => s'.callers c = some (.returned outcome)
    | _ => False := by
  cases move with
  | found started | created started =>
    cases acts
    rw [started]
    exact update_self _ _ _
  | @send x d q selecting here room =>
    cases acts
    rw [selecting]
    refine .inl ⟨d, q.push c, update_self _ _ _, ?_⟩
    rw [(sound.queues d q here).held_push room]
    exact mem_concat_self
  | @line x d q selecting =>
    cases acts
    rw [selecting]
    refine .inl ⟨d, { q with sendq := q.sendq ++ [c] }, update_self _ _ _, ?_⟩
    exact mem_append_right _ mem_concat_self
  | refuse selecting =>
    cases acts
    rw [selecting]
    exact .inr ⟨.notConnected, update_self _ _ _⟩
  | receive answered =>
    cases acts
    rw [answered]
    exact update_self _ _ _
  | publish | take | notice | finish | drain | leave | close | closeDone | closeEnd => cases acts

def DestinationQueue.distance (q : DestinationQueue κ) (c : κ) : Nat :=
  2 * q.held.idxOf c + if q.worker = .selecting then 1 else 0

/-- The call is over, or about to be. -/
def Over (s : Publisher δ κ) (c : κ) : Prop :=
  ∃ outcome, s.callers c = some (.answered outcome) ∨ s.callers c = some (.returned outcome)

variable {d : δ} {q : DestinationQueue κ}

/-- The message is over, or in the queue `q'` and not behind where it was in `q`, and nearer if
`acts`. -/
def Nears (s' : Publisher δ κ) (c : κ) (q q' : DestinationQueue κ) (acts : Prop) : Prop :=
  Over s' c ∨ c ∈ q'.held ∧ q'.distance c ≤ q.distance c ∧ (acts → q'.distance c < q.distance c)

theorem distance_append {c : κ} {q q' : DestinationQueue κ} {more : List κ} (mem : c ∈ q.held)
    (worker : q'.worker = q.worker) (behind : q'.held = q.held ++ more) :
    q'.distance c = q.distance c := by
  unfold distance
  rw [behind, idxOf_append_of_mem mem, worker]

section Nears

variable {q₁ q₂ : DestinationQueue κ} {x : κ} {acts : Prop}

section

omit [DecidableEq δ]

theorem nears_behind (worker : q₂.worker = q₁.worker) (behind : q₂.held = q₁.held ++ [x])
    (other : ¬ acts) (mem : c ∈ q₁.held) : Nears s' c q₁ q₂ acts := by
  refine .inr ⟨?_, Nat.le_of_eq (distance_append mem worker behind), fun so => absurd so other⟩
  rw [behind]
  exact mem_append_left _ mem

theorem nears_unchanged (same : q₂.held = q₁.held) (selecting : q₁.worker = .selecting)
    (busy : q₂.worker ≠ .selecting) (mem : c ∈ q₁.held) : Nears s' c q₁ q₂ acts := by
  have nearer : q₂.distance c < q₁.distance c := by
    unfold distance
    rw [same, if_pos selecting, if_neg busy]
    exact Nat.lt_succ_self _
  rw [← same] at mem
  exact .inr ⟨mem, Nat.le_of_lt nearer, fun _ => nearer⟩

theorem nears_first (first : q₁.held = x :: q₂.held) (busy : q₁.worker ≠ .selecting) (done : Over s' x)
    (mem : c ∈ q₁.held) : Nears s' c q₁ q₂ acts := by
  by_cases now : c = x
  · subst now
    exact .inl done
  · have nearer : q₂.distance c < q₁.distance c := by
      unfold distance
      rw [first, idxOf_cons_ne _ (Ne.symm now)]
      split <;> omega
    rw [first] at mem
    exact .inr ⟨mem_of_ne_of_mem now mem, Nat.le_of_lt nearer, fun _ => nearer⟩

theorem unmoved (here : s.queues d = some q) (mem : c ∈ q.held) (same : s'.queues d = s.queues d)
    (other : ¬ acts) : ∃ q', s'.queues d = some q' ∧ Nears s' c q q' acts :=
  ⟨q, same.trans here, .inr ⟨mem, Nat.le_refl _, fun so => absurd so other⟩⟩

end

theorem moved (here : s.queues d = some q) (mem : c ∈ q.held) {d' : δ} (there : s.queues d' = some q₁)
    (queues : s'.queues d = update s.queues d' (some q₂) d) (own : acts → d = d')
    (nears : c ∈ q₁.held → Nears s' c q₁ q₂ acts) :
    ∃ q', s'.queues d = some q' ∧ Nears s' c q q' acts := by
  by_cases same : d = d'
  · subst same
    obtain rfl := some.inj (here.symm.trans there)
    exact ⟨q₂, queues.trans (update_self _ _ _), nears mem⟩
  · exact unmoved here mem (queues.trans (update_of_ne same _ _)) fun so => same (own so)

end Nears

/-- Every step leaves a message where it is in its queue, moves it up, or ends its wait; a step of the
worker moves it up. -/
theorem held_goes (sound : Sound s) (move : Move s e s') {c : κ} {d : δ} {q : DestinationQueue κ}
    (here : s.queues d = some q) (mem : c ∈ q.held) :
    ∃ q', s'.queues d = some q' ∧
      Nears s' c q q' (agent e = some (.worker d)) := by
  cases move with
  | publish | found | refuse | receive | close | closeEnd =>
    exact unmoved here mem rfl (by rintro ⟨⟩)
  | @created x d' started free absent =>
    have other : d ≠ d' := by
      rintro rfl
      simp [absent] at here
    exact unmoved here mem (update_of_ne other _ _) (by rintro ⟨⟩)
  | @send x d' q' isSelecting there room =>
    exact moved here mem there rfl (by rintro ⟨⟩)
      (nears_behind rfl ((sound.queues d' q' there).held_push room x) (by rintro ⟨⟩))
  | @line x d' q' isSelecting there full running =>
    exact moved here mem there rfl (by rintro ⟨⟩)
      (nears_behind rfl (List.append_assoc _ _ _).symm (by rintro ⟨⟩))
  | @take d' q' x rest there isSelecting first =>
    exact moved here mem there (letIn_queues _ _ _ _) (by rintro ⟨⟩; rfl)
      (nears_unchanged (QueueOk.held_take isSelecting first) isSelecting (by rintro ⟨⟩))
  | @notice d' q' there isSelecting done =>
    have held : held { q' with worker := .draining } = q'.held := by
      rw [held, held, pending_eq (.inl isSelecting)]
      rfl
    exact moved here mem there rfl (by rintro ⟨⟩; rfl)
      (nears_unchanged held isSelecting (by rintro ⟨⟩))
  | @finish d' q' x acknowledged there publishing =>
    exact moved here mem there rfl (by rintro ⟨⟩; rfl)
      (nears_first (QueueOk.held_finish publishing) (by rw [publishing]; rintro ⟨⟩)
        ⟨_, .inl (update_self _ _ _)⟩)
  | @drain d' q' x rest there draining first =>
    exact moved here mem there (letIn_queues _ _ _ _) (by rintro ⟨⟩; rfl)
      (nears_first (QueueOk.held_drain draining first) (by rw [draining]; rintro ⟨⟩)
        ⟨_, .inl (update_self _ _ _)⟩)
  | @leave d' q' there draining nothing =>
    refine moved here mem there rfl (by rintro ⟨⟩; rfl) fun mem => ?_
    rw [(sound.queues d' q' there).held_eq_nil (.inr (.inl draining)) nothing] at mem
    cases mem
  | @closeDone d' l q' closing inside there =>
    refine moved here mem there rfl (by rintro ⟨⟩) fun mem => ?_
    by_cases line : c ∈ q'.sendq
    · exact .inl ⟨_, .inr (if_pos line)⟩
    · have held : q'.held = held { q' with done := true, sendq := [] } ++ q'.sendq := by
        show q'.pending ++ q'.sendq = q'.pending ++ [] ++ q'.sendq
        rw [append_nil]
      have still : c ∈ DestinationQueue.held { q' with done := true, sendq := [] } :=
        mem_append_left _ ((mem_append.mp mem).resolve_right line)
      refine .inr ⟨still, ?_, by rintro ⟨⟩⟩
      exact Nat.le_of_eq (distance_append still rfl held : q'.distance c = _).symm

theorem worker_able (sound : Sound s) (quiet : Quiet s) (here : s.queues d = some q)
    (mem : c ∈ q.held) : ∃ e, agent e = some (.worker d) ∧ step s e ≠ none := by
  have ok := sound.queues d q here
  have full : ∀ idle : q.worker = .selecting ∨ q.worker = .draining ∨ q.worker = .returned,
      ∃ x rest, q.ch = x :: rest := by
    intro idle
    refine exists_cons_of_ne_nil fun empty => ?_
    simp [ok.held_eq_nil idle empty] at mem
  cases worker : q.worker with
  | selecting =>
    obtain ⟨x, rest, first⟩ := full (.inl worker)
    refine ⟨.take d, rfl, ?_⟩
    simp only [step, here, bind_some, worker, first]
    exact nofun
  | publishing x =>
    refine ⟨.finish d true, rfl, ?_⟩
    simp only [step, here, bind_some, worker]
    exact nofun
  | draining =>
    obtain ⟨x, rest, first⟩ := full (.inr (.inl worker))
    refine ⟨.drain d, rfl, ?_⟩
    simp only [step, here, bind_some, worker, first]
    exact nofun
  | returned =>
    obtain ⟨x, rest, first⟩ := full (.inr (.inr worker))
    simp [quiet.empty d q here worker] at first

theorem selecting_able (sound : Sound s) (selecting : s.callers c = some (.selecting d)) :
    ∃ e, agent e = some (.caller c) ∧ step s e ≠ none := by
  obtain ⟨q, here⟩ := sound.selecting c d selecting
  by_cases room : q.ch.length < capacity
  · refine ⟨.send c, rfl, ?_⟩
    simp only [step, selecting, here, bind_some, if_pos room]
    exact nofun
  · by_cases done : q.done = true
    · refine ⟨.refuse c, rfl, ?_⟩
      simp only [step, selecting, here, bind_some, if_pos done]
      exact nofun
    · refine ⟨.line c, rfl, ?_⟩
      simp only [step, selecting, here, bind_some, if_neg (not_or.mpr ⟨room, done⟩)]
      exact nofun

variable {remaining : List δ}

theorem closing_goes (move : Move s e s') (closing : s.closer = .closing remaining) :
    s'.closer = .returned ∨ ∃ remaining', s'.closer = .closing remaining' ∧
      remaining'.length ≤ remaining.length ∧
      (agent e = some .closer → remaining'.length < remaining.length) := by
  have same : s'.closer = s.closer → agent e ≠ some .closer → s'.closer = .returned ∨
      ∃ remaining', s'.closer = .closing remaining' ∧ remaining'.length ≤ remaining.length ∧
        (agent e = some .closer → remaining'.length < remaining.length) :=
    fun same other => .inr ⟨remaining, same.trans closing, Nat.le_refl _, fun acts => absurd acts other⟩
  cases move with
  | publish | found | created | send | line | refuse | receive | notice | finish | leave =>
    exact same rfl nofun
  | take => exact same (letIn_closer _ _ _) nofun
  | drain => exact same (letIn_closer _ _ _) nofun
  | close idle =>
    rw [closing] at idle
    cases idle
  | @closeDone d l q isClosing mem here =>
    rw [closing] at isClosing
    cases isClosing
    have shorter := length_erase_of_mem mem
    have pos := length_pos_of_mem mem
    exact .inr ⟨remaining.erase d, rfl, by omega, fun _ => by omega⟩
  | closeEnd => exact .inl rfl

theorem closed_stays (move : Move s e s') (closed : s.closer = .returned) : s'.closer = .returned := by
  cases move with
  | publish | found | created | send | line | refuse | receive | notice | finish | leave =>
    exact closed
  | take => exact (letIn_closer _ _ _).trans closed
  | drain => exact (letIn_closer _ _ _).trans closed
  | close idle =>
    rw [closed] at idle
    cases idle
  | closeDone closing =>
    rw [closed] at closing
    cases closing
  | closeEnd => rfl

theorem closer_able (sound : Sound s) (closing : s.closer = .closing remaining) :
    ∃ e : Event δ κ, agent e = some .closer ∧ step s e ≠ none := by
  cases remaining with
  | nil =>
    refine ⟨.closeEnd, rfl, ?_⟩
    simp [step, closing]
  | cons d remaining =>
    obtain ⟨q, here⟩ := sound.remaining _ closing d mem_cons_self
    refine ⟨.closeDone d, rfl, ?_⟩
    simp only [step, closing, if_pos mem_cons_self, here]
    exact nofun

/-! ## Along a run -/

section Runs

variable {trace : Trace (@step δ κ _ _) (new δ κ)}

theorem move_at (trace : Trace (@step δ κ _ _) (new δ κ)) (n : Nat) :
    (trace.events n = none ∧ trace.states (n + 1) = trace.states n) ∨
      ∃ e, trace.events n = some e ∧ Move (trace.states n) e (trace.states (n + 1)) := by
  have taken := trace.steps n
  cases happens : trace.events n with
  | none =>
    rw [happens] at taken
    exact .inl ⟨rfl, taken⟩
  | some e =>
    rw [happens] at taken
    exact .inr ⟨e, rfl, move_of_step taken⟩

theorem sound_at (trace : Trace (@step δ κ _ _) (new δ κ)) (n : Nat) : Sound (trace.states n) :=
  trace.invariant (C := fun _ _ => True)
    (fun _ _ _ sound _ taken => sound.move (move_of_step taken)) sound_new (fun _ _ _ => trivial) n

theorem quiet_at (proper : ∀ n e, trace.events n = some e → Proper (trace.states n) e) (n : Nat) :
    Sound (trace.states n) ∧ Quiet (trace.states n) := by
  refine trace.invariant (I := fun s => Sound s ∧ Quiet s) (C := Proper)
    (fun s e s' held meets taken => ?_) ⟨sound_new, quiet_new⟩ proper n
  have move := move_of_step taken
  exact ⟨held.1.move move, held.2.move held.1 move meets⟩

variable {c : κ}

theorem stage_leadsTo (fair : trace.Fair agent) {caller : Caller δ} {Q : Nat → Prop} (m : Nat)
    (elsewhere : ∀ d, caller ≠ .inLine d ∧ caller ≠ .waiting d)
    (able : ∀ n, m ≤ n → (trace.states n).callers c = some caller → trace.Able agent (.caller c) n)
    (acts : ∀ n e, (trace.states n).callers c = some caller → agent e = some (.caller c) →
      Move (trace.states n) e (trace.states (n + 1)) → Q (n + 1)) :
    LeadsTo (fun n => m ≤ n ∧ (trace.states n).callers c = some caller) Q := by
  refine fair.leadsTo (a := .caller c) (fun _ => 0) (fun n stands => able n stands.1 stands.2) ?_
  rintro n ⟨later, stands⟩
  rcases move_at trace n with ⟨nothing, same⟩ | ⟨e, happens, move⟩
  · refine .inr ⟨⟨Nat.le_succ_of_le later, ?_⟩, Nat.le_refl _, fun ⟨e, happens, _⟩ => ?_⟩
    · rw [same]
      exact stands
    · simp [nothing] at happens
  · by_cases own : agent e = some (.caller c)
    · exact .inl (acts n e stands own move)
    · refine .inr ⟨⟨Nat.le_succ_of_le later, ?_⟩, Nat.le_refl _, fun ⟨e', happens', acts'⟩ => ?_⟩
      · exact caller_stays (sound_at trace n) move own stands elsewhere
      · rw [happens] at happens'
        cases happens'
        exact absurd acts' own

/-- How many queues `Close` has still to end. -/
def Closer.left : Closer δ → Nat
  | .closing remaining => remaining.length
  | _ => 0

theorem closing_leadsTo (fair : trace.Fair agent) :
    LeadsTo (fun n => ∃ remaining, (trace.states n).closer = .closing remaining)
      fun n => (trace.states n).closer = .returned := by
  refine fair.leadsTo (a := .closer) (fun n => (trace.states n).closer.left) ?_ ?_
  · rintro n ⟨remaining, closing⟩
    exact closer_able (sound_at trace n) closing
  · rintro n ⟨remaining, closing⟩
    rcases move_at trace n with ⟨nothing, same⟩ | ⟨e, happens, move⟩
    · rw [same]
      refine .inr ⟨⟨remaining, closing⟩, Nat.le_refl _, ?_⟩
      rintro ⟨e, happens, -⟩
      simp [nothing] at happens
    · refine (closing_goes move closing).imp_right ?_
      rintro ⟨remaining', closing', le, lt⟩
      rw [closing, closing']
      refine ⟨⟨remaining', rfl⟩, le, ?_⟩
      rintro ⟨e', happens', acts⟩
      rw [happens] at happens'
      cases happens'
      exact lt acts

variable {m n : Nat}

theorem closed_later (later : n ≤ m) (closed : (trace.states n).closer = .returned) :
    (trace.states m).closer = .returned := by
  induction m, later using Nat.le_induction with
  | base => exact closed
  | succ m later ih =>
    rcases move_at trace m with ⟨-, same⟩ | ⟨e, -, move⟩
    · rw [same]
      exact ih
    · exact closed_stays move ih

theorem lock_free (fair : trace.Fair agent) (n : Nat) :
    ∃ m, n ≤ m ∧ ∀ k, m ≤ k → ∀ remaining, (trace.states k).closer ≠ .closing remaining := by
  by_cases held : ∃ m, n ≤ m ∧ ∃ remaining, (trace.states m).closer = .closing remaining
  · obtain ⟨m, later, closing⟩ := held
    obtain ⟨k, last, closed⟩ := closing_leadsTo fair m closing
    refine ⟨k, Nat.le_trans later last, fun i after remaining isClosing => ?_⟩
    simp [closed_later after closed] at isClosing
  · exact ⟨n, Nat.le_refl n, fun k after remaining closing => held ⟨k, after, remaining, closing⟩⟩

def Returned (s : Publisher δ κ) (c : κ) : Prop := ∃ outcome, s.callers c = some (.returned outcome)

theorem answered_returns (fair : trace.Fair agent) (past : Over (trace.states n) c) :
    ∃ m, n ≤ m ∧ Returned (trace.states m) c := by
  obtain ⟨outcome, answered | returned⟩ := past
  · have goesOn : LeadsTo (fun m => 0 ≤ m ∧ (trace.states m).callers c = some (.answered outcome))
        fun m => Returned (trace.states m) c := by
      refine stage_leadsTo fair 0 (fun d => ⟨nofun, nofun⟩) (fun m _ stands => ?_)
        (fun m e stands acts move => ?_)
      · refine ⟨.receive c, rfl, ?_⟩
        simp [step, stands]
      · have goes := caller_acts (sound_at trace m) move acts
        rw [stands] at goes
        exact ⟨outcome, goes⟩
    exact goesOn n ⟨Nat.zero_le n, answered⟩
  · exact ⟨n, Nat.le_refl n, outcome, returned⟩

variable {d : δ}

theorem started_later (later : n ≤ m) (started : (trace.states n).callers c = some (.started d)) :
    (trace.states m).callers c = some (.started d) ∨
      ∃ k, n ≤ k ∧ (trace.states k).callers c = some (.selecting d) := by
  induction m, later using Nat.le_induction with
  | base => exact .inl started
  | succ m later ih =>
    rcases ih with still | found
    · rcases move_at trace m with ⟨-, same⟩ | ⟨e, -, move⟩
      · rw [same]
        exact .inl still
      · by_cases own : agent e = some (.caller c)
        · have goes := caller_acts (sound_at trace m) move own
          rw [still] at goes
          exact .inr ⟨m + 1, Nat.le_succ_of_le later, goes⟩
        · exact .inl (caller_stays (sound_at trace m) move own still fun d => ⟨nofun, nofun⟩)
    · exact .inr found

theorem started_able {s : Publisher δ κ} (started : s.callers c = some (.started d))
    (free : ∀ remaining, s.closer ≠ .closing remaining) : step s (.getQueue c) ≠ none := by
  dsimp only [step]
  rw [started]
  cases closer : s.closer with
  | idle | returned =>
    dsimp only
    split
    · exact nofun
    · exact nofun
  | closing remaining => exact absurd closer (free remaining)

section

variable (fair : trace.Fair agent)
  (proper : ∀ n e, trace.events n = some e → Proper (trace.states n) e)
include fair proper

theorem held_leadsTo (c : κ) (d : δ) :
    LeadsTo (fun n => ∃ q, (trace.states n).queues d = some q ∧ c ∈ q.held)
      fun n => Over (trace.states n) c := by
  refine fair.leadsTo (a := .worker d)
    (fun n => ((trace.states n).queues d).elim 0 fun q => q.distance c) ?_ ?_
  · rintro n ⟨q, here, mem⟩
    obtain ⟨sound, quiet⟩ := quiet_at proper n
    exact worker_able sound quiet here mem
  · rintro n ⟨q, here, mem⟩
    rcases move_at trace n with ⟨nothing, same⟩ | ⟨e, happens, move⟩
    · rw [same]
      refine .inr ⟨⟨q, here, mem⟩, Nat.le_refl _, fun ⟨e, happens, _⟩ => ?_⟩
      simp [nothing] at happens
    · obtain ⟨q', here', nears⟩ := held_goes (sound_at trace n) move here mem
      refine nears.imp_right ?_
      rintro ⟨member', le, lt⟩
      rw [here, here']
      refine ⟨⟨q', rfl, member'⟩, le, fun ⟨e', happens', acts⟩ => lt ?_⟩
      rw [happens] at happens'
      cases happens'
      exact acts

theorem held_returns (held : Held (trace.states n) c) : ∃ m, n ≤ m ∧ Returned (trace.states m) c := by
  obtain ⟨d, q, here, mem⟩ := held
  obtain ⟨m, later, past⟩ := held_leadsTo fair proper c d n ⟨q, here, mem⟩
  obtain ⟨k, last, returned⟩ := answered_returns fair past
  exact ⟨k, Nat.le_trans later last, returned⟩

theorem selecting_returns (selecting : (trace.states n).callers c = some (.selecting d)) :
    ∃ m, n ≤ m ∧ Returned (trace.states m) c := by
  have goesOn : LeadsTo (fun m => 0 ≤ m ∧ (trace.states m).callers c = some (.selecting d))
      fun m => Held (trace.states m) c ∨ Returned (trace.states m) c := by
    refine stage_leadsTo fair 0 (fun d => ⟨nofun, nofun⟩)
      (fun m _ stands => selecting_able (sound_at trace m) stands) (fun m e stands acts move => ?_)
    have goes := caller_acts (sound_at trace m) move acts
    rwa [stands] at goes
  obtain ⟨m, later, held | returned⟩ := goesOn n ⟨Nat.zero_le n, selecting⟩
  · obtain ⟨k, last, returned⟩ := held_returns fair proper held
    exact ⟨k, Nat.le_trans later last, returned⟩
  · exact ⟨m, later, returned⟩

theorem started_returns (started : (trace.states n).callers c = some (.started d)) :
    ∃ m, n ≤ m ∧ Returned (trace.states m) c := by
  obtain ⟨free, later, isFree⟩ := lock_free fair n
  have first : LeadsTo (fun m => free ≤ m ∧ (trace.states m).callers c = some (.started d))
      fun m => (trace.states m).callers c = some (.selecting d) := by
    refine stage_leadsTo fair free (fun d => ⟨nofun, nofun⟩) (fun m after stands => ?_)
      (fun m e stands acts move => ?_)
    · refine ⟨.getQueue c, rfl, ?_⟩
      exact started_able stands (isFree m after)
    · have goes := caller_acts (sound_at trace m) move acts
      rwa [stands] at goes
  have found : ∃ m, n ≤ m ∧ (trace.states m).callers c = some (.selecting d) := by
    rcases started_later later started with still | found
    · obtain ⟨m, after, found⟩ := first free ⟨Nat.le_refl free, still⟩
      exact ⟨m, Nat.le_trans later after, found⟩
    · exact found
  obtain ⟨m, after, selecting⟩ := found
  obtain ⟨k, last, returned⟩ := selecting_returns fair proper selecting
  exact ⟨k, Nat.le_trans after last, returned⟩

theorem call_returns (begun : (trace.states n).callers c ≠ none) : ∃ m, n ≤ m ∧ Returned (trace.states m) c := by
  obtain ⟨caller, stands⟩ := ne_none_iff_exists'.mp begun
  cases caller with
  | started d => exact started_returns fair proper stands
  | selecting d => exact selecting_returns fair proper stands
  | inLine d =>
    obtain ⟨q, here, mem⟩ := ((sound_at trace n).inLine c d).mp stands
    exact held_returns fair proper ⟨d, q, here, mem_append_right _ mem⟩
  | waiting d =>
    obtain ⟨q, here, mem⟩ := ((sound_at trace n).waiting c d).mp stands
    exact held_returns fair proper ⟨d, q, here, mem_append_left _ mem⟩
  | answered outcome => exact answered_returns fair ⟨outcome, .inl stands⟩
  | returned outcome => exact ⟨n, Nat.le_refl n, outcome, stands⟩

end

/-- What is asked of a run: every call returns, the messages of a destination reach the client in the
order in which they entered its queue, and those of calls that began after `Close` had returned
do not reach it. -/
structure Orderly (trace : Trace (@step δ κ _ _) (new δ κ)) : Prop where
  returns : ∀ n c, (trace.states n).callers c ≠ none → ∃ m, n ≤ m ∧ Returned (trace.states m) c
  ordered : ∀ n d q, (trace.states n).queues d = some q → q.published <+: q.entered
  silent : ∀ n d q, (trace.states n).queues d = some q →
    ∀ c ∈ q.published, (trace.states n).late c = false

/-- Fair runs are orderly when no caller sends to a queue whose worker has exited, and none that began
after `Close` to one whose worker does not drain. -/
theorem orderly_of_proper (trace : Trace (@step δ κ _ _) (new δ κ)) (fair : trace.Fair agent)
    (proper : ∀ n e, trace.events n = some e → Proper (trace.states n) e) : Orderly trace where
  returns _ _ begun := call_returns fair proper begun
  ordered n d q here := ((sound_at trace n).queues d q here).published_begins
  silent n := (quiet_at proper n).2.silent

end Runs

/-! ## Two runs -/

/-- A message is published, then the publisher is closed, then a second message is refused. -/
def refusedAfterClose : List (Event Nat Nat) :=
  [.publish 0 0, .getQueue 0, .send 0, .take 0, .finish 0 true, .receive 0, .close, .closeDone 0,
    .closeEnd, .notice 0, .leave 0, .publish 1 0, .getQueue 1, .refuse 1]

theorem refusedAfterClose_runs : ∃ final, runAll step (new Nat Nat) refusedAfterClose = some final ∧
    (∀ e, agent e ≠ none → step final e = none) ∧ final.callers 0 = some (.returned .acknowledged) := by
  refine ⟨_, rfl, fun e acts => ?_, rfl⟩
  cases e with
  | publish => exact absurd rfl acts
  | close => exact absurd rfl acts
  | getQueue c | send c | line c | refuse c | receive c =>
    match c with
    | 0 => rfl
    | 1 => rfl
    | _ + 2 => rfl
  | take d | notice d | finish d | drain d | leave d =>
    match d with
    | 0 => rfl
    | _ + 1 => rfl
  | closeDone => rfl
  | closeEnd => rfl

theorem orderly_of_proper_refused : ∃ trace : Trace (@step Nat Nat _ _) (new Nat Nat),
    trace.Fair agent ∧ (∀ n e, trace.events n = some e → Proper (trace.states n) e) ∧
      (trace.states 14).callers 0 = some (.returned .acknowledged) ∧ Orderly trace := by
  obtain ⟨final, run, still, acknowledged⟩ := refusedAfterClose_runs
  have fair := Trace.stopped_fair run still
  have proper := Trace.stopped_meets run (C := Proper) (by decide)
  refine ⟨_, fair, proper, ?_, orderly_of_proper _ fair proper⟩
  rw [Trace.stopped_states run (Nat.le_refl 14)]
  exact acknowledged

/-- `Close` ends the worker of destination 0 before the first caller sends to it. -/
def sentAfterClose : List (Event Nat Nat) :=
  [.publish 0 0, .getQueue 0, .close, .closeDone 0, .closeEnd, .notice 0, .leave 0, .send 0,
    .publish 1 1, .getQueue 1, .send 1, .take 1, .finish 1 true, .receive 1]

theorem sentAfterClose_runs : ∃ final, runAll step (new Nat Nat) sentAfterClose = some final ∧
    (∀ e, agent e ≠ none → step final e = none) ∧ final.callers 0 = some (.waiting 0) ∧
      final.late 1 = true ∧ ∃ q, final.queues 1 = some q ∧ 1 ∈ q.published := by
  refine ⟨_, rfl, fun e acts => ?_, rfl, rfl, _, rfl, mem_cons_self⟩
  cases e with
  | publish => exact absurd rfl acts
  | close => exact absurd rfl acts
  | getQueue c | send c | line c | refuse c | receive c =>
    match c with
    | 0 => rfl
    | 1 => rfl
    | _ + 2 => rfl
  | take d | notice d | finish d | drain d | leave d =>
    match d with
    | 0 => rfl
    | 1 => rfl
    | _ + 2 => rfl
  | closeDone => rfl
  | closeEnd => rfl

/-- The first call never returns, and the message of the second is published. -/
theorem sent_after_close_waits : ∃ trace : Trace (@step Nat Nat _ _) (new Nat Nat),
    trace.Fair agent ∧
      ((trace.states 14).callers 0 ≠ none ∧ ¬ ∃ m, 14 ≤ m ∧ Returned (trace.states m) 0) ∧
      ((trace.states 14).late 1 = true ∧
        ∃ q, (trace.states 14).queues 1 = some q ∧ 1 ∈ q.published) ∧ ¬ Orderly trace := by
  obtain ⟨final, run, still, waits, late, published⟩ := sentAfterClose_runs
  have ended : ∀ m, 14 ≤ m → (Trace.stopped _ _ _ run).states m = final :=
    fun m past => Trace.stopped_states run past
  have begun : ((Trace.stopped _ _ _ run).states 14).callers 0 ≠ none := by
    exact nofun
  have hangs : ¬ ∃ m, 14 ≤ m ∧ Returned ((Trace.stopped _ _ _ run).states m) 0 := by
    rintro ⟨m, past, outcome, returned⟩
    simp [ended m past, waits] at returned
  refine ⟨_, Trace.stopped_fair run still, ⟨begun, hangs⟩, ?_, fun orderly => ?_⟩
  · rw [ended 14 (Nat.le_refl 14)]
    exact ⟨late, published⟩
  · exact hangs (orderly.returns 14 0 begun)

end Unheaded.Wotan.OrderedPublisher
