import Unheaded.Lib.Schedules
import Unheaded.Storage.Segment

/-!
# Replication of the write-ahead log

The standby's `ReplicationClient` against the primary's `CatchUp`.
-/

namespace Unheaded.Wotan

open Lib List Option
open Storage (Entry Seq)

def Ascending (entries : List Entry) : Prop :=
  entries.Pairwise fun a b => a.sequence.toNat < b.sequence.toNat

instance (entries : List Entry) : Decidable (Ascending entries) :=
  inferInstanceAs (Decidable (entries.Pairwise _))

/-- An open `CatchUp` stream. -/
structure CatchUpStream where
  sinceSeq : Seq
  position : Nat
  queue : List Entry
  failed : Bool
  deriving DecidableEq

/-- The client, with the log of the primary. -/
structure ReplicationClient where
  log : List Entry
  lastAppliedSeq : Seq
  haltedAtSeq : Seq
  stream : Option CatchUpStream
  sent : List Entry
  applied : List Entry
  deriving DecidableEq

/-- The primary writes an entry, or its scan takes one more entry; the standby
opens a stream, receives an entry and applies it with or without success, or the
stream is lost or ends. -/
inductive ReplicationStep where
  | write (data : List Storage.Byte)
  | catchUp
  | scan
  | receive (ok : Bool)
  | lose

namespace ReplicationClient

def new : ReplicationClient := ⟨[], 0, 0, none, [], []⟩

def lastSequence (s : ReplicationClient) : Seq := (s.log.getLast?.map Entry.sequence).getD 0

variable (verify : Entry → Bool)

/-- `handleEntry` for the first entry of a stream; `verify` is `VerifyEntry` and
`ok` the success of `ApplyFunc`. -/
def handleEntry (ok : Bool) (entry : Entry) (stream : CatchUpStream) (s : ReplicationClient) :
    ReplicationClient :=
  if entry.sequence.toNat ≤ s.lastAppliedSeq.toNat then { s with stream := some stream }
  else if verify entry = false then { s with stream := none, haltedAtSeq := entry.sequence }
  else if ok = false then { s with stream := some { stream with failed := true } }
  else
    { s with
      stream := some stream
      lastAppliedSeq := entry.sequence
      applied := s.applied ++ [entry] }

/-- `Scan` hands an entry from `sinceSeq` on to `stream.Send`. -/
def scan (entry : Entry) (stream : CatchUpStream) (s : ReplicationClient) : ReplicationClient :=
  let next := { stream with position := stream.position + 1 }
  if entry.sequence.toNat < stream.sinceSeq.toNat then { s with stream := some next }
  else
    { s with
      stream := some { next with queue := stream.queue ++ [entry] }
      sent := s.sent ++ [entry] }

/-- One step; `none` if there is nothing to do for it. -/
def step (s : ReplicationClient) : ReplicationStep → Option ReplicationClient
  | .write data => some { s with log := s.log ++ [⟨s.lastSequence + 1, data⟩] }
  | .catchUp =>
    match s.stream with
    | some _ => none
    | none => some { s with stream := some ⟨s.lastAppliedSeq + 1, 0, [], false⟩ }
  | .scan => do
    let stream ← s.stream
    let entry ← s.log[stream.position]?
    some (s.scan entry stream)
  | .receive ok => do
    let stream ← s.stream
    let entry ← stream.queue.head?
    some (s.handleEntry verify ok entry { stream with queue := stream.queue.tail })
  | .lose => some { s with stream := none }

/-- The standby holds a front part of the log. -/
structure Gapless (s : ReplicationClient) : Prop where
  complete : ∀ e ∈ s.sent, e.sequence.toNat ≤ s.lastAppliedSeq.toNat → e ∈ s.applied
  increasing : Ascending s.applied
  standby : s.applied <+: s.log

def Numbered (s : ReplicationClient) : ReplicationStep → Prop
  | .write _ => s.lastSequence.toNat + 1 < 2 ^ 64
  | _ => True

/-- No entry is applied after an apply has failed in the same stream. -/
def NoneAfterFailure (s : ReplicationClient) : ReplicationStep → Prop
  | .receive ok => ∀ stream ∈ s.stream, ∀ e ∈ stream.queue.head?,
      s.lastAppliedSeq.toNat < e.sequence.toNat → verify e = true → ok = true → stream.failed = false
  | _ => True

instance (s : ReplicationClient) : (event : ReplicationStep) → Decidable (s.Numbered event)
  | .write _ => inferInstanceAs (Decidable (_ < _))
  | .catchUp | .scan | .receive _ | .lose => isTrue trivial

instance (verify : Entry → Bool) (s : ReplicationClient) :
    (event : ReplicationStep) → Decidable (s.NoneAfterFailure verify event)
  | .receive ok => inferInstanceAs (Decidable (∀ stream ∈ s.stream, ∀ e ∈ stream.queue.head?,
      s.lastAppliedSeq.toNat < e.sequence.toNat → verify e = true → ok = true →
        stream.failed = false))
  | .write _ | .catchUp | .scan | .lose => isTrue trivial

/-- An open stream has gone through a front part of the log. -/
structure Streams (s : ReplicationClient) (stream : CatchUpStream) : Prop where
  since : stream.sinceSeq.toNat ≤ s.lastAppliedSeq.toNat + 1
  inside : stream.position ≤ s.log.length
  ordered : Ascending stream.queue
  queued : ∀ e ∈ stream.queue, e ∈ s.log.take stream.position ∧ e ∈ s.sent
  waiting : stream.failed = false → ∀ e ∈ s.log.take stream.position,
    s.lastAppliedSeq.toNat < e.sequence.toNat → e ∈ stream.queue
  missed : stream.failed = true → ∃ f ∈ s.log.take stream.position, f ∈ s.sent ∧
    s.lastAppliedSeq.toNat < f.sequence.toNat ∧ ∀ e ∈ stream.queue, f.sequence.toNat < e.sequence.toNat

structure Following (s : ReplicationClient) : Prop where
  ascending : Ascending s.log
  numbered : ∀ e ∈ s.log, 0 < e.sequence.toNat ∧ e.sequence.toNat ≤ s.lastSequence.toNat
  behind : s.lastAppliedSeq.toNat ≤ s.lastSequence.toNat
  sent : ∀ e ∈ s.sent, e ∈ s.log
  handled : ∀ e ∈ s.applied, e.sequence.toNat ≤ s.lastAppliedSeq.toNat
  reached : ∀ e ∈ s.log, e.sequence.toNat ≤ s.lastAppliedSeq.toNat → e ∈ s.applied
  standby : s.applied <+: s.log
  streams : ∀ stream ∈ s.stream, s.Streams stream

theorem new_following : new.Following where
  ascending := .nil
  numbered := fun _ mem => absurd mem not_mem_nil
  behind := Nat.zero_le _
  sent := fun _ mem => absurd mem not_mem_nil
  handled := fun _ mem => absurd mem not_mem_nil
  reached := fun _ mem => absurd mem not_mem_nil
  standby := prefix_rfl
  streams := fun _ mem => nomatch mem

section Steps

variable {s : ReplicationClient} {verify : Entry → Bool} {stream : CatchUpStream} {e : Entry}

theorem Following.gapless (following : s.Following) : s.Gapless where
  complete := fun e sent low => following.reached e (following.sent e sent) low
  increasing := following.ascending.sublist following.standby.sublist
  standby := following.standby

variable {x : Entry}

theorem Following.before_of_take (following : s.Following) {n : Nat} (front : x ∈ s.log.take n)
    (here : s.log[n]? = some e) : x.sequence.toNat < e.sequence.toNat := by
  have split := take_append_drop n s.log
  have later : e ∈ s.log.drop n := by
    refine mem_iff_getElem?.mpr ⟨0, ?_⟩
    rw [List.getElem?_drop]
    exact here
  have ascending := following.ascending
  rw [← split, Ascending, pairwise_append] at ascending
  exact ascending.2.2 x front e later

theorem Following.take_of_before (following : s.Following) {n : Nat} (mem : x ∈ s.log)
    (front : e ∈ s.log.take n) (before : x.sequence.toNat ≤ e.sequence.toNat) :
    x ∈ s.log.take n := by
  have split := take_append_drop n s.log
  rw [← split, mem_append] at mem
  refine mem.resolve_right fun later => ?_
  have ascending := following.ascending
  rw [← split, Ascending, pairwise_append] at ascending
  exact absurd (ascending.2.2 e front x later) (Nat.not_lt.mpr before)

theorem lastSequence_append (log : List Entry) (e : Entry) (c : ReplicationClient) :
    lastSequence { c with log := log ++ [e] } = e.sequence := by
  rw [lastSequence, List.getLast?_concat]
  rfl

theorem Following.write (following : s.Following) (data : List Storage.Byte)
    (numbered : s.lastSequence.toNat + 1 < 2 ^ 64) :
    ({ s with log := s.log ++ [⟨s.lastSequence + 1, data⟩] } : ReplicationClient).Following := by
  have next : (s.lastSequence + 1).toNat = s.lastSequence.toNat + 1 := by
    exact Nat.mod_eq_of_lt numbered
  have last := lastSequence_append s.log ⟨s.lastSequence + 1, data⟩ s
  refine ⟨?_, ?_, ?_, ?_, following.handled, ?_, ?_, ?_⟩
  · refine pairwise_append.mpr ⟨following.ascending, pairwise_singleton _ _, ?_⟩
    intro a old b new
    rw [mem_singleton.mp new, next]
    exact Nat.lt_succ_of_le (following.numbered a old).2
  · intro e mem
    rw [last, next]
    rcases mem_append.mp mem with old | new
    · obtain ⟨pos, bounded⟩ := following.numbered e old
      exact ⟨pos, Nat.le_succ_of_le bounded⟩
    · rw [mem_singleton.mp new, next]
      exact ⟨Nat.succ_pos _, Nat.le_refl _⟩
  · rw [last, next]
    exact Nat.le_succ_of_le following.behind
  · exact fun e sent => mem_append_left _ (following.sent e sent)
  · intro e mem low
    rcases mem_append.mp mem with old | new
    · exact following.reached e old low
    · rw [mem_singleton.mp new, next] at low
      exact absurd low (Nat.not_le.mpr (Nat.lt_succ_of_le following.behind))
  · exact following.standby.trans (prefix_append _ _)
  · intro stream opened
    have streams := following.streams stream opened
    have same : (s.log ++ [Entry.mk (s.lastSequence + 1) data]).take stream.position =
        s.log.take stream.position := take_append_of_le_length streams.inside
    refine ⟨streams.since, ?_, streams.ordered, ?_, ?_, ?_⟩
    · rw [length_append]
      exact Nat.le_add_right_of_le streams.inside
    · rw [same]
      exact streams.queued
    · rw [same]
      exact streams.waiting
    · rw [same]
      exact streams.missed

theorem Following.catchUp (following : s.Following) :
    ({ s with stream := some ⟨s.lastAppliedSeq + 1, 0, [], false⟩ } : ReplicationClient).Following := by
  refine { following with streams := fun stream opened => ?_ }
  obtain rfl := mem_some_iff.mp opened
  refine ⟨?_, Nat.zero_le _, .nil, ?_, ?_, fun failed => nomatch failed⟩
  · exact Nat.mod_le _ _
  · exact fun e mem => absurd mem not_mem_nil
  · exact fun _ e mem => absurd mem not_mem_nil

theorem Following.scan (following : s.Following) (opened : s.stream = some stream)
    (here : s.log[stream.position]? = some e) : (s.scan e stream).Following := by
  have streams := following.streams stream opened
  have inside := (List.getElem?_eq_some_iff.mp here).1
  have front : s.log.take (stream.position + 1) = s.log.take stream.position ++ [e] := by
    rw [take_add_one, here]
    rfl
  have earlier {x : Entry} (mem : x ∈ s.log.take stream.position) :
      x ∈ s.log.take (stream.position + 1) := by
    rw [front]
    exact mem_append_left _ mem
  rw [ReplicationClient.scan]
  split
  case isTrue below =>
    -- a number below the start of the stream is not above the last applied one
    have low := Nat.le_of_lt_succ (Nat.lt_of_lt_of_le below streams.since)
    refine { following with streams := fun stream' opened' => ?_ }
    obtain rfl := mem_some_iff.mp opened'
    refine ⟨streams.since, inside, streams.ordered, ?_, ?_, ?_⟩
    · exact fun x mem => ⟨earlier (streams.queued x mem).1, (streams.queued x mem).2⟩
    · intro working x mem above
      rw [front] at mem
      rcases mem_append.mp mem with old | new
      · exact streams.waiting working x old above
      · rw [mem_singleton.mp new] at above
        exact absurd low (Nat.not_le.mpr above)
    · intro failed
      obtain ⟨f, mem, missing⟩ := streams.missed failed
      exact ⟨f, earlier mem, missing⟩
  case isFalse =>
    have known : e ∈ s.log := mem_of_getElem? here
    refine { following with sent := ?_, streams := fun stream' opened' => ?_ }
    · intro x mem
      rcases mem_append.mp mem with old | new
      · exact following.sent x old
      · exact mem_singleton.mp new ▸ known
    obtain rfl := mem_some_iff.mp opened'
    refine ⟨streams.since, inside, ?_, ?_, ?_, ?_⟩
    · refine pairwise_append.mpr ⟨streams.ordered, pairwise_singleton _ _, ?_⟩
      intro a old b new
      rw [mem_singleton.mp new]
      exact following.before_of_take (streams.queued a old).1 here
    · intro x mem
      rcases mem_append.mp mem with old | new
      · exact ⟨earlier (streams.queued x old).1, mem_append_left _ (streams.queued x old).2⟩
      · rw [mem_singleton.mp new, front]
        exact ⟨mem_append_right _ (mem_singleton_self e), mem_append_right _ (mem_singleton_self e)⟩
    · intro working x mem above
      rw [front] at mem
      rcases mem_append.mp mem with old | new
      · exact mem_append_left _ (streams.waiting working x old above)
      · exact mem_append_right _ new
    · intro failed
      obtain ⟨f, mem, sent, above, before⟩ := streams.missed failed
      refine ⟨f, earlier mem, mem_append_left _ sent, above, fun x queued => ?_⟩
      rcases mem_append.mp queued with old | new
      · exact before x old
      · rw [mem_singleton.mp new]
        exact following.before_of_take mem here

variable {rest : List Entry}

theorem Streams.received (streams : s.Streams stream) (first : stream.queue = e :: rest) :
    e ∈ s.log.take stream.position ∧ e ∈ s.sent ∧ (∀ x ∈ rest, e.sequence.toNat < x.sequence.toNat) ∧
      Ascending rest ∧ ∀ x ∈ rest, x ∈ s.log.take stream.position ∧ x ∈ s.sent := by
  obtain ⟨-, -, ordered, queued, -, -⟩ := streams
  rw [first] at ordered queued
  obtain ⟨here, later⟩ := forall_mem_cons.mp queued
  obtain ⟨before, ordered⟩ := pairwise_cons.mp ordered
  exact ⟨here.1, here.2, before, ordered, later⟩

section

variable (following : s.Following) (opened : s.stream = some stream)
  (first : stream.queue = e :: rest)
include following opened first

theorem Following.skip (low : e.sequence.toNat ≤ s.lastAppliedSeq.toNat) :
    ({ s with stream := some { stream with queue := rest } } : ReplicationClient).Following := by
  have streams := following.streams stream opened
  obtain ⟨-, -, -, ordered, queued⟩ := streams.received first
  refine { following with streams := fun stream' opened' => ?_ }
  obtain rfl := mem_some_iff.mp opened'
  refine ⟨streams.since, streams.inside, ordered, queued, ?_, ?_⟩
  · intro working x mem above
    have waiting := streams.waiting working x mem above
    rw [first] at waiting
    rcases mem_cons.mp waiting with rfl | later
    · exact absurd low (Nat.not_le.mpr above)
    · exact later
  · intro failed
    obtain ⟨f, mem, sent, above, before⟩ := streams.missed failed
    rw [first] at before
    exact ⟨f, mem, sent, above, (forall_mem_cons.mp before).2⟩

theorem Following.fail (above : s.lastAppliedSeq.toNat < e.sequence.toNat) :
    ({ s with stream := some { stream with queue := rest, failed := true } } :
      ReplicationClient).Following := by
  have streams := following.streams stream opened
  obtain ⟨mem, sent, before, ordered, queued⟩ := streams.received first
  refine { following with streams := fun stream' opened' => ?_ }
  obtain rfl := mem_some_iff.mp opened'
  refine ⟨streams.since, streams.inside, ordered, queued, ?_, ?_⟩
  · exact fun working => nomatch working
  · exact fun _ => ⟨e, mem, sent, above, before⟩

theorem Following.next (working : stream.failed = false) (mem : x ∈ s.log)
    (low : x.sequence.toNat ≤ e.sequence.toNat) : x ∈ s.applied ∨ x = e := by
  have streams := following.streams stream opened
  obtain ⟨here, -, before, -, -⟩ := streams.received first
  by_cases above : s.lastAppliedSeq.toNat < x.sequence.toNat
  · have waiting := streams.waiting working x (following.take_of_before mem here low) above
    rw [first] at waiting
    rcases mem_cons.mp waiting with same | later
    · exact .inr same
    · exact absurd (before x later) (Nat.not_lt.mpr low)
  · exact .inl (following.reached x mem (Nat.not_lt.mp above))

theorem Following.apply (above : s.lastAppliedSeq.toNat < e.sequence.toNat)
    (working : stream.failed = false) : ({ s with
        stream := some { stream with queue := rest }
        lastAppliedSeq := e.sequence
        applied := s.applied ++ [e] } : ReplicationClient).Following := by
  have streams := following.streams stream opened
  obtain ⟨here, -, before, ordered, queued⟩ := streams.received first
  have known : e ∈ s.log := mem_of_mem_take here
  refine { following with
    behind := (following.numbered e known).2, handled := ?_, reached := ?_, standby := ?_,
    streams := fun stream' opened' => ?_ }
  · intro x mem
    rcases mem_append.mp mem with old | new
    · exact Nat.le_of_lt (Nat.lt_of_le_of_lt (following.handled x old) above)
    · exact Nat.le_of_eq (congrArg (fun y => y.sequence.toNat) (mem_singleton.mp new))
  · intro x mem low
    rcases following.next opened first working mem low with old | rfl
    · exact mem_append_left _ old
    · exact mem_append_right _ (mem_singleton_self x)
  · obtain ⟨later, split⟩ := following.standby
    have ascending := following.ascending
    rw [← split, Ascending, pairwise_append] at ascending
    obtain ⟨-, ascending, across⟩ := ascending
    have waits : e ∈ later := by
      rw [← split, mem_append] at known
      refine known.resolve_left fun old => ?_
      exact absurd (following.handled e old) (Nat.not_le.mpr above)
    cases later with
    | nil => exact absurd waits not_mem_nil
    | cons y later =>
      have low : y.sequence.toNat ≤ e.sequence.toNat := by
        rcases mem_cons.mp waits with rfl | after
        · exact Nat.le_refl _
        · exact Nat.le_of_lt ((pairwise_cons.mp ascending).1 e after)
      have mem : y ∈ s.log := by
        rw [← split]
        exact mem_append_right _ mem_cons_self
      rcases following.next opened first working mem low with old | rfl
      · exact absurd (across y old y mem_cons_self) (Nat.lt_irrefl _)
      · exact ⟨later, by rw [← split, List.append_assoc]; rfl⟩
  · obtain rfl := mem_some_iff.mp opened'
    refine ⟨?_, streams.inside, ordered, queued, ?_, ?_⟩
    · exact Nat.le_trans streams.since (Nat.succ_le_succ (Nat.le_of_lt above))
    · intro working x mem later
      have waiting := streams.waiting working x mem (Nat.lt_trans above later)
      rw [first] at waiting
      rcases mem_cons.mp waiting with rfl | after
      · exact absurd later (Nat.lt_irrefl _)
      · exact after
    · intro failed
      rw [working] at failed
      exact nomatch failed

end

theorem Following.hole {rest : List Entry} (following : s.Following) (opened : s.stream = some stream)
    (first : stream.queue = e :: rest) (failed : stream.failed = true)
    (gapless : ({ s with
        stream := some { stream with queue := rest }
        lastAppliedSeq := e.sequence
        applied := s.applied ++ [e] } : ReplicationClient).Gapless) : False := by
  obtain ⟨f, -, sent, above, before⟩ := (following.streams stream opened).missed failed
  rw [first] at before
  have before := before e mem_cons_self
  rcases mem_append.mp (gapless.complete f sent (Nat.le_of_lt before)) with old | new
  · exact absurd (following.handled f old) (Nat.not_le.mpr above)
  · rw [mem_singleton.mp new] at before
    exact Nat.lt_irrefl _ before

theorem Following.lose (following : s.Following) :
    ({ s with stream := none } : ReplicationClient).Following :=
  { following with streams := fun _ opened => nomatch opened }

theorem Following.handleEntry (following : s.Following) (opened : s.stream = some stream)
    (first : stream.queue = e :: rest) (ok : Bool)
    (working : s.lastAppliedSeq.toNat < e.sequence.toNat → verify e = true → ok = true →
      stream.failed = false) :
    (s.handleEntry verify ok e { stream with queue := rest }).Following := by
  rw [ReplicationClient.handleEntry]
  split
  case isTrue low => exact following.skip opened first low
  case isFalse above =>
    have above := Nat.not_le.mp above
    cases verified : verify e with
    | false => exact { following with streams := fun _ opened => nomatch opened }
    | true =>
      cases ok with
      | false =>
        have failed := following.fail opened first above
        exact failed
      | true => exact following.apply opened first above (working above verified rfl)

theorem handleEntry_apply (s : ReplicationClient) (stream : CatchUpStream)
    (above : s.lastAppliedSeq.toNat < e.sequence.toNat) (verified : verify e = true) :
    s.handleEntry verify true e stream = { s with
        stream := some stream
        lastAppliedSeq := e.sequence
        applied := s.applied ++ [e] } := by
  rw [ReplicationClient.handleEntry, if_neg (Nat.not_le.mpr above), verified]
  rfl

end Steps

section Runs

variable {verify : Entry → Bool} {s s' : ReplicationClient} {event : ReplicationStep}

theorem step_receive {ok : Bool} (next : step verify s (.receive ok) = some s') :
    ∃ stream e rest, s.stream = some stream ∧ stream.queue = e :: rest ∧
      s' = s.handleEntry verify ok e { stream with queue := rest } := by
  obtain ⟨stream, opened, next⟩ := bind_eq_some_iff.mp next
  obtain ⟨e, head, next⟩ := bind_eq_some_iff.mp next
  obtain ⟨rest, first⟩ := List.head?_eq_some_iff.mp head
  refine ⟨stream, e, rest, opened, first, ?_⟩
  rw [first] at next
  exact (some.inj next).symm

theorem Following.step (following : s.Following) (numbered : s.Numbered event)
    (good : s.NoneAfterFailure verify event) (next : step verify s event = some s') :
    s'.Following := by
  cases event with
  | write data =>
    cases next
    exact following.write data numbered
  | catchUp =>
    rw [ReplicationClient.step] at next
    cases opened : s.stream with
    | some stream =>
      simp [opened] at next
    | none =>
      rw [opened] at next
      cases next
      exact following.catchUp
  | scan =>
    obtain ⟨stream, opened, next⟩ := bind_eq_some_iff.mp next
    obtain ⟨e, here, next⟩ := bind_eq_some_iff.mp next
    cases next
    exact following.scan opened here
  | receive ok =>
    obtain ⟨stream, e, rest, opened, first, rfl⟩ := step_receive next
    refine following.handleEntry opened first ok fun above verified applies => ?_
    exact good stream opened e (by rw [first]; rfl) above verified applies
  | lose =>
    cases next
    exact following.lose

theorem Following.noneAfterFailure (following : s.Following)
    (next : ReplicationClient.step verify s event = some s')
    (gapless : s'.Gapless) : s.NoneAfterFailure verify event := by
  cases event with
  | receive ok =>
    rintro stream' opened' e' head above verified rfl
    obtain ⟨stream, e, rest, opened, first, rfl⟩ := step_receive next
    obtain rfl : stream' = stream := some.inj (opened'.symm.trans opened)
    obtain rfl : e' = e := by
      rw [first] at head
      exact (some.inj head).symm
    rw [handleEntry_apply s _ above verified] at gapless
    cases failed : stream'.failed with
    | false => rfl
    | true => exact (following.hole opened first failed gapless).elim
  | _ => trivial

/-- The standby holds a front part of the log in every state of a run exactly when
no entry of the run is applied after an apply that failed in the same stream. -/
theorem standby_gapless_iff (verify : Entry → Bool) (events : List ReplicationStep)
    (s : ReplicationClient) (run : runAll (step verify) new events = some s)
    (numbered : Throughout (step verify) Numbered new events) :
    (∀ front rest t, events = front ++ rest → runAll (step verify) new front = some t → t.Gapless) ↔
      Throughout (step verify) (NoneAfterFailure verify) new events := by
  refine holds_along_iff (fun s e s' following _ numbered next => ?_)
    (fun s e s' following _ numbered good next => following.step numbered good next) run numbered
    new_following new_following.gapless
  constructor
  · exact following.noneAfterFailure next
  · exact fun good => (following.step numbered good next).gapless

end Runs

def failedRound : List ReplicationStep :=
  [.write [], .write [], .catchUp, .scan, .scan, .receive false]

def lostRound : List ReplicationStep :=
  failedRound ++ [ReplicationStep.lose, .catchUp, .scan, .scan, .receive true, .receive true]

/-- When the stream is lost there, the entry comes again. -/
theorem lost_round_gapless : ∃ s, runAll (step fun _ => true) new lostRound = some s ∧
      s.applied.map Entry.sequence = [1, 2] ∧
      ∀ front rest t, lostRound = front ++ rest → runAll (step fun _ => true) new front = some t →
        t.Gapless := by
  refine ⟨_, rfl, rfl, ?_⟩
  exact (standby_gapless_iff (fun _ => true) lostRound _ rfl (by decide)).mpr (by decide)

/-- When the stream goes on, the second entry is applied and the first never is:
the next round asks for the third. -/
theorem failed_entry_not_retried : ∃ s, runAll (step fun _ => true) new (failedRound ++
      [ReplicationStep.receive true, .lose, .catchUp]) = some s ∧
      s.sent.map Entry.sequence = [1, 2] ∧ s.lastAppliedSeq = 2 ∧
      s.applied.map Entry.sequence = [2] ∧ s.stream.map CatchUpStream.sinceSeq = some 3 ∧
      ¬ s.Gapless := by
  refine ⟨_, rfl, rfl, rfl, rfl, rfl, fun gapless => ?_⟩
  have applied := gapless.complete ⟨1, []⟩ (by decide) (by decide)
  exact absurd applied (by decide)

end ReplicationClient

end Unheaded.Wotan
