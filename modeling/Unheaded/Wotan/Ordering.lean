import Mathlib.Data.List.Nodup

/-!
# Ordered publishing

`OrderedPublisher` of `wotan-client/ordering.go`: one queue and one worker for each destination.
-/

namespace Unheaded.Wotan.OrderedPublisher

open List Option Function

/-! ## State -/

/-- What `Publish` returns: the result of the client, or `ErrNotConnected`. -/
inductive Outcome where
  | acknowledged | failed | notConnected
  deriving DecidableEq

/-- Where `processQueue` stands. -/
inductive Worker (κ : Type) where
  | selecting
  | publishing (c : κ)
  | draining
  | returned
  deriving DecidableEq

/-- `destinationQueue`, with the callers that wait for room in `ch`, the messages that have entered
`ch` and those that have been handed to the client. -/
structure DestinationQueue (κ : Type) where
  ch : List κ
  sendq : List κ
  done : Bool
  worker : Worker κ
  entered : List κ
  published : List κ

/-- The capacity of `ch`. -/
def capacity : Nat := 1024

/-- Where a call of `Publish` stands. -/
inductive Caller (δ : Type) where
  | started (d : δ)
  | selecting (d : δ)
  | inLine (d : δ)
  | waiting (d : δ)
  | answered (outcome : Outcome)
  | returned (outcome : Outcome)
  deriving DecidableEq

/-- Where `Close` stands; it holds the lock until it returns. -/
inductive Closer (δ : Type) where
  | idle
  | closing (remaining : List δ)
  | returned
  deriving DecidableEq

/-- `OrderedPublisher` with its callers. -/
structure Publisher (δ κ : Type) where
  queues : δ → Option (DestinationQueue κ)
  destinations : List δ
  callers : κ → Option (Caller δ)
  late : κ → Bool
  closer : Closer δ

/-- `NewOrderedPublisher`. -/
def new (δ κ : Type) : Publisher δ κ where
  queues _ := none
  destinations := []
  callers _ := none
  late _ := false
  closer := .idle

/-- A queue that `getOrCreateQueue` makes. -/
def newQueue (κ : Type) : DestinationQueue κ where
  ch := []
  sendq := []
  done := false
  worker := .selecting
  entered := []
  published := []

/-! ## Queues -/

open DestinationQueue

section Queues

variable {κ : Type}

variable (q : DestinationQueue κ)

def DestinationQueue.push (c : κ) : DestinationQueue κ :=
  { q with ch := q.ch ++ [c], entered := q.entered ++ [c] }

def DestinationQueue.receive : DestinationQueue κ := { q with
    ch := q.ch.tail ++ q.sendq.take 1
    sendq := q.sendq.drop 1
    entered := q.entered ++ q.sendq.take 1 }

def DestinationQueue.inHand : List κ :=
  match q.worker with
  | .publishing c => [c]
  | _ => []

def DestinationQueue.pending : List κ := q.inHand ++ q.ch

def DestinationQueue.held : List κ := q.pending ++ q.sendq

/-- What holds of a queue by itself. -/
structure QueueOk (q : DestinationQueue κ) : Prop where
  distinct : q.held.Nodup
  full : q.sendq ≠ [] → capacity ≤ q.ch.length ∧ q.done = false
  ended : q.worker = .draining ∨ q.worker = .returned → q.done = true
  order : ∃ drained, q.entered = q.published ++ drained ++ q.ch ∧
    (q.worker = .draining ∨ q.worker = .returned ∨ drained = [])

theorem queueOk_new : QueueOk (newQueue κ) where
  distinct := nodup_nil
  full here := absurd rfl here
  ended := by rintro (draining | returned) <;> contradiction
  order := ⟨[], rfl, .inr (.inr rfl)⟩

variable {q : DestinationQueue κ} {c : κ} {rest : List κ}

theorem pending_eq (idle : q.worker = .selecting ∨ q.worker = .draining ∨ q.worker = .returned) :
    q.pending = q.ch := by
  unfold pending inHand
  rcases idle with held | held | held
  all_goals
    rw [held]
    rfl

theorem held_receive (first : q.ch = c :: rest) :
    q.receive.ch ++ q.receive.sendq = rest ++ q.sendq := by
  rw [receive, first, tail_cons, List.append_assoc, take_append_drop]

namespace QueueOk

section

variable (ok : QueueOk q)
include ok

theorem sendq_eq_nil (room : q.ch.length < capacity) : q.sendq = [] := by
  by_contra line
  exact absurd (ok.full line).1 (Nat.not_le.mpr room)

theorem held_eq_nil (idle : q.worker = .selecting ∨ q.worker = .draining ∨ q.worker = .returned) (empty : q.ch = []) :
    q.held = [] := by
  have noLine : q.sendq = [] := by
    refine ok.sendq_eq_nil ?_
    rw [empty]
    exact Nat.zero_lt_succ 1023
  rw [held, pending_eq idle, empty, noLine]
  rfl

theorem held_push (room : q.ch.length < capacity) (c : κ) : (q.push c).held = q.held ++ [c] := by
  have noLine := ok.sendq_eq_nil room
  unfold held pending push
  rw [noLine, append_nil, append_nil, List.append_assoc]
  rfl

theorem push (room : q.ch.length < capacity) (fresh : c ∉ q.held) :
    QueueOk (q.push c) where
  distinct := by
    rw [ok.held_push room]
    rw [← concat_eq_append]
    exact List.Nodup.concat fresh ok.distinct
  full line := absurd (ok.sendq_eq_nil room) line
  ended := ok.ended
  order := by
    obtain ⟨drained, entered, ends⟩ := ok.order
    refine ⟨drained, ?_, ends⟩
    rw [DestinationQueue.push, entered, List.append_assoc]

theorem line (full : capacity ≤ q.ch.length) (running : q.done = false)
    (fresh : c ∉ q.held) : QueueOk { q with sendq := q.sendq ++ [c] } where
  distinct := by
    have more : held { q with sendq := q.sendq ++ [c] } = q.held ++ [c] :=
      (List.append_assoc _ _ _).symm
    rw [more]
    rw [← concat_eq_append]
    exact List.Nodup.concat fresh ok.distinct
  full _ := ⟨full, running⟩
  ended := ok.ended
  order := ok.order

theorem full_receive (first : q.ch = c :: rest) (more : q.receive.sendq ≠ []) :
    capacity ≤ q.receive.ch.length ∧ q.done = false := by
  unfold receive at more ⊢
  cases line : q.sendq with
  | nil =>
    rw [line] at more
    exact absurd rfl more
  | cons x sendq =>
    obtain ⟨full, running⟩ := ok.full (by rw [line]; exact cons_ne_nil x sendq)
    refine ⟨?_, running⟩
    rw [first] at full ⊢
    rw [length_append]
    exact full

end

theorem held_take (selecting : q.worker = .selecting) (first : q.ch = c :: rest) :
    held { q.receive with worker := .publishing c, published := q.published ++ [c] } = q.held := by
  have line := held_receive first
  have before : q.held = c :: (rest ++ q.sendq) := by
    rw [held, pending_eq (.inl selecting), first, List.cons_append]
  rw [before, ← line]
  rfl

theorem take (ok : QueueOk q) (selecting : q.worker = .selecting) (first : q.ch = c :: rest) :
    QueueOk { q.receive with worker := .publishing c, published := q.published ++ [c] } where
  distinct := by
    rw [held_take selecting first]
    exact ok.distinct
  full := ok.full_receive first
  ended := by rintro (draining | returned) <;> contradiction
  order := by
    obtain ⟨drained, entered, ends⟩ := ok.order
    rw [selecting] at ends
    have nothing : drained = [] := by
      rcases ends with draining | returned | nothing
      · cases draining
      · cases returned
      · exact nothing
    refine ⟨[], ?_, .inr (.inr rfl)⟩
    rw [receive, entered, nothing, first]
    simp

theorem notice (ok : QueueOk q) (selecting : q.worker = .selecting) (done : q.done = true) :
    QueueOk { q with worker := .draining } where
  distinct := by
    have distinct := ok.distinct
    rwa [held, pending_eq (.inl selecting)] at distinct
  full := ok.full
  ended _ := done
  order := by
    obtain ⟨drained, entered, -⟩ := ok.order
    exact ⟨drained, entered, .inl rfl⟩

theorem held_finish (publishing : q.worker = .publishing c) :
    q.held = c :: held { q with worker := .selecting } := by
  rw [held, pending, inHand, publishing]
  rfl

theorem finish (ok : QueueOk q) (publishing : q.worker = .publishing c) :
    QueueOk { q with worker := .selecting } where
  distinct := by
    have distinct := ok.distinct
    rw [held_finish publishing] at distinct
    exact (nodup_cons.mp distinct).2
  full := ok.full
  ended := by rintro (draining | returned) <;> contradiction
  order := by
    obtain ⟨drained, entered, ends⟩ := ok.order
    rw [publishing] at ends
    refine ⟨drained, entered, .inr (.inr ?_)⟩
    rcases ends with draining | returned | nothing
    · cases draining
    · cases returned
    · exact nothing

theorem held_drain (draining : q.worker = .draining) (first : q.ch = c :: rest) :
    q.held = c :: q.receive.held := by
  have line := held_receive first
  have still : q.receive.worker = .draining := draining
  rw [held, pending_eq (.inr (.inl draining)), first, List.cons_append, ← line,
    held, pending_eq (.inr (.inl still))]

theorem drain (ok : QueueOk q) (draining : q.worker = .draining) (first : q.ch = c :: rest) :
    QueueOk q.receive where
  distinct := by
    have distinct := ok.distinct
    rw [held_drain draining first] at distinct
    exact (nodup_cons.mp distinct).2
  full := ok.full_receive first
  ended := ok.ended
  order := by
    obtain ⟨drained, entered, -⟩ := ok.order
    refine ⟨drained ++ [c], ?_, .inl draining⟩
    rw [receive, entered, first]
    simp

theorem leave (ok : QueueOk q) (draining : q.worker = .draining) :
    QueueOk { q with worker := .returned } where
  distinct := by
    have distinct := ok.distinct
    rwa [held, pending_eq (.inr (.inl draining))] at distinct
  full := ok.full
  ended _ := ok.ended (.inl draining)
  order := by
    obtain ⟨drained, entered, -⟩ := ok.order
    exact ⟨drained, entered, .inr (.inl rfl)⟩

theorem closeDone (ok : QueueOk q) : QueueOk { q with done := true, sendq := [] } where
  distinct := by
    have distinct := ok.distinct
    have shorter : held { q with done := true, sendq := [] } = q.pending :=
      append_nil _
    rw [shorter]
    exact (nodup_append.mp distinct).1
  full line := absurd rfl line
  ended _ := rfl
  order := ok.order

theorem published_begins (ok : QueueOk q) : q.published <+: q.entered := by
  obtain ⟨drained, entered, -⟩ := ok.order
  rw [entered, List.append_assoc]
  exact prefix_append _ _

end QueueOk

end Queues

/-! ## Steps -/

inductive Event (δ κ : Type) where
  /-- A call of `Publish` begins. -/
  | publish (c : κ) (d : δ)
  /-- `getOrCreateQueue`. -/
  | getQueue (c : κ)
  /-- The first `select` of `Publish`: its three outcomes. -/
  | send (c : κ)
  | line (c : κ)
  | refuse (c : κ)
  /-- The second `select`: the result is there. -/
  | receive (c : κ)
  /-- The outer `select` of `processQueue`: a message, or the end. -/
  | take (d : δ)
  | notice (d : δ)
  /-- The client has returned. -/
  | finish (d : δ) (acknowledged : Bool)
  /-- The inner `select`: a message, or nothing. -/
  | drain (d : δ)
  | leave (d : δ)
  /-- `Close` takes the lock, closes one `done` channel, and returns. -/
  | close
  | closeDone (d : δ)
  | closeEnd

variable {δ κ : Type} [DecidableEq δ] [DecidableEq κ]

variable (s : Publisher δ κ)

def Publisher.setQueue (d : δ) (q : DestinationQueue κ) : Publisher δ κ :=
  { s with queues := update s.queues d (some q) }

def Publisher.setCaller (c : κ) (caller : Caller δ) : Publisher δ κ :=
  { s with callers := update s.callers c (some caller) }

def Publisher.letIn (d : δ) (q : DestinationQueue κ) : Publisher δ κ :=
  match q.sendq with
  | [] => s
  | c :: _ => s.setCaller c (.waiting d)

omit [DecidableEq δ] in
theorem letIn_queues (d d' : δ) (q : DestinationQueue κ) :
    (s.letIn d q).queues d' = s.queues d' := by
  unfold Publisher.letIn
  split
  · rfl
  · rfl

omit [DecidableEq δ] in
theorem letIn_closer (d : δ) (q : DestinationQueue κ) : (s.letIn d q).closer = s.closer := by
  unfold Publisher.letIn
  split
  · rfl
  · rfl

def clientOutcome (acknowledged : Bool) : Outcome :=
  if acknowledged then .acknowledged else .failed

/-- The callers in line find `done` closed. -/
def Publisher.dismiss (line : List κ) : Publisher δ κ := { s with
    callers := fun c => if c ∈ line then some (.returned .notConnected) else s.callers c }

/-- What a step does; `none` where it cannot be taken. -/
def step : Event δ κ → Option (Publisher δ κ)
  | .publish c d =>
    match s.callers c with
    | some _ => none
    | none =>
      some { s.setCaller c (.started d) with
        late := update s.late c (decide (s.closer = .returned)) }
  | .getQueue c =>
    match s.callers c, s.closer with
    | some (.started _), .closing _ => none
    | some (.started d), _ =>
      match s.queues d with
      | some _ => some (s.setCaller c (.selecting d))
      | none =>
        some { (s.setQueue d (newQueue κ)).setCaller c (.selecting d) with
          destinations := d :: s.destinations }
    | _, _ => none
  | .send c =>
    match s.callers c with
    | some (.selecting d) =>
      (s.queues d).bind fun q =>
        if q.ch.length < capacity then some ((s.setQueue d (q.push c)).setCaller c (.waiting d))
        else none
    | _ => none
  | .line c =>
    match s.callers c with
    | some (.selecting d) =>
      (s.queues d).bind fun q =>
        if q.ch.length < capacity ∨ q.done = true then none
        else some ((s.setQueue d { q with sendq := q.sendq ++ [c] }).setCaller c (.inLine d))
    | _ => none
  | .refuse c =>
    match s.callers c with
    | some (.selecting d) =>
      (s.queues d).bind fun q =>
        if q.done then some (s.setCaller c (.returned .notConnected)) else none
    | _ => none
  | .receive c =>
    match s.callers c with
    | some (.answered outcome) => some (s.setCaller c (.returned outcome))
    | _ => none
  | .take d =>
    (s.queues d).bind fun q =>
      match q.worker, q.ch with
      | .selecting, c :: _ =>
        some ((s.setQueue d { q.receive with
          worker := .publishing c, published := q.published ++ [c] }).letIn d q)
      | _, _ => none
  | .notice d =>
    (s.queues d).bind fun q =>
      if q.worker = .selecting ∧ q.done = true then
        some (s.setQueue d { q with worker := .draining })
      else none
  | .finish d acknowledged =>
    (s.queues d).bind fun q =>
      match q.worker with
      | .publishing c =>
        some ((s.setQueue d { q with worker := .selecting }).setCaller c
          (.answered (clientOutcome acknowledged)))
      | _ => none
  | .drain d =>
    (s.queues d).bind fun q =>
      match q.worker, q.ch with
      | .draining, c :: _ =>
        some (((s.setQueue d q.receive).letIn d q).setCaller c (.answered .notConnected))
      | _, _ => none
  | .leave d =>
    (s.queues d).bind fun q =>
      match q.worker, q.ch with
      | .draining, [] => some (s.setQueue d { q with worker := .returned })
      | _, _ => none
  | .close =>
    match s.closer with
    | .idle => some { s with closer := .closing s.destinations }
    | _ => none
  | .closeDone d =>
    match s.closer with
    | .closing remaining =>
      if d ∈ remaining then
        (s.queues d).bind fun q =>
          some { (s.setQueue d { q with done := true, sendq := [] }).dismiss q.sendq with
            closer := .closing (remaining.erase d) }
      else none
    | _ => none
  | .closeEnd =>
    match s.closer with
    | .closing [] => some { s with closer := .returned }
    | _ => none

/-- What a step can do, and when. -/
inductive Move (s : Publisher δ κ) : Event δ κ → Publisher δ κ → Prop where
  | publish {c : κ} {d : δ} (fresh : s.callers c = none) :
      Move s (.publish c d) { s.setCaller c (.started d) with
        late := update s.late c (decide (s.closer = .returned)) }
  | found {c : κ} {d : δ} {q : DestinationQueue κ} (started : s.callers c = some (.started d))
      (free : ∀ remaining, s.closer ≠ .closing remaining) (here : s.queues d = some q) :
      Move s (.getQueue c) (s.setCaller c (.selecting d))
  | created {c : κ} {d : δ} (started : s.callers c = some (.started d))
      (free : ∀ remaining, s.closer ≠ .closing remaining) (absent : s.queues d = none) :
      Move s (.getQueue c) { (s.setQueue d (newQueue κ)).setCaller c (.selecting d) with
        destinations := d :: s.destinations }
  | send {c : κ} {d : δ} {q : DestinationQueue κ} (selecting : s.callers c = some (.selecting d))
      (here : s.queues d = some q) (room : q.ch.length < capacity) :
      Move s (.send c) ((s.setQueue d (q.push c)).setCaller c (.waiting d))
  | line {c : κ} {d : δ} {q : DestinationQueue κ} (selecting : s.callers c = some (.selecting d))
      (here : s.queues d = some q) (full : capacity ≤ q.ch.length) (running : q.done = false) :
      Move s (.line c) ((s.setQueue d { q with sendq := q.sendq ++ [c] }).setCaller c (.inLine d))
  | refuse {c : κ} {d : δ} {q : DestinationQueue κ} (selecting : s.callers c = some (.selecting d))
      (here : s.queues d = some q) (done : q.done = true) :
      Move s (.refuse c) (s.setCaller c (.returned .notConnected))
  | receive {c : κ} {outcome : Outcome} (answered : s.callers c = some (.answered outcome)) :
      Move s (.receive c) (s.setCaller c (.returned outcome))
  | take {d : δ} {q : DestinationQueue κ} {c : κ} {rest : List κ} (here : s.queues d = some q)
      (selecting : q.worker = .selecting) (first : q.ch = c :: rest) :
      Move s (.take d) ((s.setQueue d { q.receive with
        worker := .publishing c, published := q.published ++ [c] }).letIn d q)
  | notice {d : δ} {q : DestinationQueue κ} (here : s.queues d = some q)
      (selecting : q.worker = .selecting) (done : q.done = true) :
      Move s (.notice d) (s.setQueue d { q with worker := .draining })
  | finish {d : δ} {q : DestinationQueue κ} {c : κ} (acknowledged : Bool) (here : s.queues d = some q)
      (publishing : q.worker = .publishing c) :
      Move s (.finish d acknowledged) ((s.setQueue d { q with worker := .selecting }).setCaller c
        (.answered (clientOutcome acknowledged)))
  | drain {d : δ} {q : DestinationQueue κ} {c : κ} {rest : List κ} (here : s.queues d = some q)
      (draining : q.worker = .draining) (first : q.ch = c :: rest) :
      Move s (.drain d) (((s.setQueue d q.receive).letIn d q).setCaller c (.answered .notConnected))
  | leave {d : δ} {q : DestinationQueue κ} (here : s.queues d = some q)
      (draining : q.worker = .draining) (empty : q.ch = []) :
      Move s (.leave d) (s.setQueue d { q with worker := .returned })
  | close (idle : s.closer = .idle) : Move s .close { s with closer := .closing s.destinations }
  | closeDone {d : δ} {remaining : List δ} {q : DestinationQueue κ}
      (closing : s.closer = .closing remaining) (mem : d ∈ remaining) (here : s.queues d = some q) :
      Move s (.closeDone d)
        { (s.setQueue d { q with done := true, sendq := [] }).dismiss q.sendq with
          closer := .closing (remaining.erase d) }
  | closeEnd (closing : s.closer = .closing []) : Move s .closeEnd { s with closer := .returned }

theorem move_of_step {s s' : Publisher δ κ} {e : Event δ κ} (taken : step s e = some s') :
    Move s e s' := by
  cases e with
  | publish c d =>
    dsimp only [step] at taken
    split at taken <;> cases taken
    next fresh =>
      exact .publish fresh
  | getQueue c =>
    dsimp only [step] at taken
    split at taken
    · cases taken
    next d started free =>
      split at taken <;> cases taken
      next q here =>
        exact .found started free here
      next absent =>
        exact .created started free absent
    · cases taken
  | send c =>
    dsimp only [step] at taken
    split at taken
    next d selecting =>
      obtain ⟨q, here, taken⟩ := bind_eq_some_iff.mp taken
      split at taken <;> cases taken
      next room =>
        exact .send selecting here room
    · cases taken
  | line c =>
    dsimp only [step] at taken
    split at taken
    next d selecting =>
      obtain ⟨q, here, taken⟩ := bind_eq_some_iff.mp taken
      split at taken
      · cases taken
      next full =>
        obtain ⟨full, running⟩ := not_or.mp full
        cases taken
        exact .line selecting here (Nat.not_lt.mp full) (Bool.eq_false_iff.mpr running)
    · cases taken
  | refuse c =>
    dsimp only [step] at taken
    split at taken
    next d selecting =>
      obtain ⟨q, here, taken⟩ := bind_eq_some_iff.mp taken
      split at taken <;> cases taken
      next done =>
        exact .refuse selecting here done
    · cases taken
  | receive c =>
    dsimp only [step] at taken
    split at taken <;> cases taken
    next outcome answered =>
      exact .receive answered
  | take d =>
    obtain ⟨q, here, taken⟩ := bind_eq_some_iff.mp taken
    split at taken <;> cases taken
    next c rest selecting first =>
      exact .take here selecting first
  | notice d =>
    obtain ⟨q, here, taken⟩ := bind_eq_some_iff.mp taken
    split at taken <;> cases taken
    next ends =>
      exact .notice here ends.1 ends.2
  | finish d acknowledged =>
    obtain ⟨q, here, taken⟩ := bind_eq_some_iff.mp taken
    split at taken <;> cases taken
    next c publishing =>
      exact .finish acknowledged here publishing
  | drain d =>
    obtain ⟨q, here, taken⟩ := bind_eq_some_iff.mp taken
    split at taken <;> cases taken
    next c rest draining first =>
      exact .drain here draining first
  | leave d =>
    obtain ⟨q, here, taken⟩ := bind_eq_some_iff.mp taken
    split at taken <;> cases taken
    next draining empty =>
      exact .leave here draining empty
  | close =>
    dsimp only [step] at taken
    split at taken <;> cases taken
    next idle =>
      exact .close idle
  | closeDone d =>
    dsimp only [step] at taken
    split at taken
    next remaining closing =>
      split at taken
      next mem =>
        obtain ⟨q, here, taken⟩ := bind_eq_some_iff.mp taken
        cases taken
        exact .closeDone closing mem here
      · cases taken
    · cases taken
  | closeEnd =>
    dsimp only [step] at taken
    split at taken <;> cases taken
    next closing =>
      exact .closeEnd closing

/-! ## What stands where -/

/-- The callers and the queues agree. -/
structure Sound (s : Publisher δ κ) : Prop where
  queues : ∀ d q, s.queues d = some q → QueueOk q
  inLine : ∀ c d, s.callers c = some (.inLine d) ↔ ∃ q, s.queues d = some q ∧ c ∈ q.sendq
  waiting : ∀ c d, s.callers c = some (.waiting d) ↔ ∃ q, s.queues d = some q ∧ c ∈ q.pending
  selecting : ∀ c d, s.callers c = some (.selecting d) → ∃ q, s.queues d = some q
  destinations : ∀ d ∈ s.destinations, ∃ q, s.queues d = some q
  remaining : ∀ l, s.closer = .closing l → ∀ d ∈ l, ∃ q, s.queues d = some q

omit [DecidableEq δ] [DecidableEq κ] in
theorem sound_new : Sound (new δ κ) where
  queues d q held := by cases held
  inLine c d := by
    constructor
    · intro held
      cases held
    · rintro ⟨q, held, -⟩
      cases held
  waiting c d := by
    constructor
    · intro held
      cases held
    · rintro ⟨q, held, -⟩
      cases held
  selecting c d held := by cases held
  destinations d mem := by cases mem
  remaining l held := by cases held

variable {s s' : Publisher δ κ} {e : Event δ κ}

omit [DecidableEq δ] [DecidableEq κ] in
theorem Sound.fresh (sound : Sound s) {c : κ} {d : δ} {q : DestinationQueue κ}
    (selecting : s.callers c = some (.selecting d)) (here : s.queues d = some q) : c ∉ q.held := by
  intro mem
  rcases mem_append.mp mem with pending | line
  · have waits := (sound.waiting c d).mpr ⟨q, here, pending⟩
    simp [selecting] at waits
  · have stands := (sound.inLine c d).mpr ⟨q, here, line⟩
    simp [selecting] at stands

theorem Sound.move (sound : Sound s) (move : Move s e s') : Sound s' := by
  have queues := sound.queues
  have inLine := sound.inLine
  have waiting := sound.waiting
  have selecting := sound.selecting
  have destinations := sound.destinations
  have remaining := sound.remaining
  -- what becomes of the queue that a step works on
  cases move
  case' created =>
    have ok := @queueOk_new κ
    have nothing : (newQueue κ).pending = [] ∧ (newQueue κ).sendq = [] := ⟨rfl, rfl⟩
  case' send c d q isSelecting here room =>
    have ok := (queues d q here).push room (sound.fresh isSelecting here)
    have pending : (q.push c).pending = q.pending ++ [c] := by
      unfold pending push
      rw [List.append_assoc]
      rfl
    have line : (q.push c).sendq = q.sendq := rfl
  case' line c d q isSelecting here full running =>
    have ok := (queues d q here).line full running (sound.fresh isSelecting here)
    have pending : pending { q with sendq := q.sendq ++ [c] } = q.pending := rfl
  case' take d q c rest here isSelecting first =>
    have ok := (queues d q here).take isSelecting first
    have distinct := (queues d q here).distinct
    have before : q.pending = c :: rest := (pending_eq (.inl isSelecting)).trans first
    have after : pending { q.receive with
        worker := .publishing c, published := q.published ++ [c] } =
        c :: (rest ++ q.sendq.take 1) := by
      rw [pending, receive, first]
      rfl
    have line : q.receive.sendq = q.sendq.drop 1 := rfl
    have stands : ∀ x ∈ q.sendq, s.callers x = some (.inLine d) :=
      fun x mem => (inLine x d).mpr ⟨q, here, mem⟩
    rw [held, before] at distinct
    unfold Publisher.letIn
    cases standing : q.sendq
  case' notice d q here isSelecting done =>
    have ok := (queues d q here).notice isSelecting done
    have pending : pending { q with worker := .draining } = q.pending := by
      rw [pending_eq (.inl isSelecting)]
      rfl
  case' finish d q c acknowledged here publishing =>
    have ok := (queues d q here).finish publishing
    have distinct := (queues d q here).distinct
    have before : q.pending = c :: pending { q with worker := .selecting } := by
      rw [pending, inHand, publishing]
      rfl
    have waits := (waiting c d).mpr ⟨q, here, by rw [before]; exact mem_cons_self⟩
    rw [held, before] at distinct
  case' drain d q c rest here draining first =>
    have ok := (queues d q here).drain draining first
    have distinct := (queues d q here).distinct
    have before : q.pending = c :: rest := (pending_eq (.inr (.inl draining))).trans first
    have after : q.receive.pending = rest ++ q.sendq.take 1 := by
      have still : q.receive.worker = .draining := draining
      rw [pending_eq (.inr (.inl still)), receive, first]
      rfl
    have line : q.receive.sendq = q.sendq.drop 1 := rfl
    have stands : ∀ x ∈ q.sendq, s.callers x = some (.inLine d) :=
      fun x mem => (inLine x d).mpr ⟨q, here, mem⟩
    have waits := (waiting c d).mpr ⟨q, here, by rw [before]; exact mem_cons_self⟩
    rw [held, before] at distinct
    unfold Publisher.letIn
    cases standing : q.sendq
  case' leave d q here draining empty =>
    have ok := (queues d q here).leave draining
    have pending : pending { q with worker := .returned } = q.pending := by
      rw [pending_eq (.inr (.inl draining))]
      rfl
  case' closeDone d l q closing mem here =>
    have ok := (queues d q here).closeDone
    have pending : pending { q with done := true, sendq := [] } = q.pending := rfl
    have stands : ∀ x ∈ q.sendq, s.callers x = some (.inLine d) :=
      fun x mem => (inLine x d).mpr ⟨q, here, mem⟩
  all_goals constructor
  all_goals
    simp only [Publisher.setQueue, Publisher.setCaller, Publisher.dismiss, update_apply]
    grind

end Unheaded.Wotan.OrderedPublisher
