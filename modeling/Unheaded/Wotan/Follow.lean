import Unheaded.Wotan.PatternPoll
import Unheaded.Wotan.Published

/-!
# Following one topic across restarts

The client polls a topic with the number of the last message it has delivered.
-/

namespace Unheaded.Wotan

open Lib Option

def pollPageSize : Int := 100

/-- `nextCursor` of the client. -/
def nextCursor (cursor serverLast : Int) : Int := if serverLast < cursor then 0 else cursor

/-- The loop of `pollMessagesFrom` over a page: the cursor afterwards and the
messages that were sent on. -/
def deliver (cursor : Int) : List Message → Int × List Message
  | [] => (cursor, [])
  | m :: msgs =>
    if m.seq ≤ cursor then deliver cursor msgs
    else
      let (last, sent) := deliver m.seq msgs
      (last, m :: sent)

/-- A poll under way: after the last number was read, and with the reply of the
server of this epoch on its way. -/
inductive Poll where
  | idle
  | lastRead (last : Int)
  | replied (epoch : Nat) (msgs : List Message) (last : Int)
  deriving DecidableEq

def Poll.survives : Poll → Poll
  | .replied epoch msgs last => .replied epoch msgs last
  | _ => .idle

/-- The server, which has been restarted `epoch` times, and a client of one topic.
`delivered` has for every message the epoch of its server.  `fresh` tells whether
the client has had a reply from this epoch: the program does not know. -/
structure Follower where
  server : Server
  epoch : Nat
  cursor : Int
  poll : Poll
  fresh : Bool
  delivered : List (Nat × Message)
  deriving DecidableEq

inductive FollowEvent where
  | act (a : Action)
  | restart
  | readLast
  | fetch
  | receive
  | fail
  deriving DecidableEq

namespace Follower

def new (bufferSize : Int64) (bufferBytes maxRooms cursor : Int) : Follower :=
  { server := .new bufferSize bufferBytes maxRooms, epoch := 0, cursor, poll := .idle, fresh := false,
    delivered := [] }

variable (topic : Topic)

def step (s : Follower) : FollowEvent → Option Follower
  | .act a => do
    let server ← s.server.act a
    some { s with server := server }
  | .restart => some { s with
      server := .new s.server.bufferSize s.server.bufferBytes s.server.maxRooms
      epoch := s.epoch + 1
      poll := s.poll.survives
      fresh := false }
  | .readLast =>
    -- the room is looked up first; without one the reply is empty
    match s.poll, pageBounds (some s.cursor) (some pollPageSize), s.server.find topic with
    | .idle, some _, none => some { s with poll := .replied s.epoch [] 0 }
    | .idle, some _, some r =>
      if r.pending = none then some { s with poll := .lastRead r.ring.lastSeq } else none
    | _, _, _ => none
  | .fetch =>
    match s.poll with
    | .lastRead last => do
      let r ← s.server.unlocked topic
      let (after, limit) ← pageBounds (some s.cursor) (some pollPageSize)
      let msgs ← r.ring.getAfter after limit
      some { s with poll := .replied s.epoch msgs last }
    | _ => none
  | .receive =>
    match s.poll with
    | .replied epoch msgs last =>
      let (cursor, sent) := deliver (nextCursor s.cursor last) msgs
      some { s with
        cursor := cursor
        poll := .idle
        fresh := s.fresh || epoch = s.epoch
        delivered := s.delivered ++ sent.map fun m => (epoch, m) }
    | _ => none
  | .fail => some { s with poll := .idle }

def run (s : Follower) (events : List FollowEvent) : Option Follower :=
  runAll (step topic) s events

def current (s : Follower) : List Message :=
  (s.delivered.filter fun d => decide (d.1 = s.epoch)).map Prod.snd

/-- Nothing that the client has not passed has left the ring when it is read. -/
def KeptAt (s : Follower) : FollowEvent → Prop
  | .fetch => ∀ r ∈ s.server.find topic, ∀ m ∈ s.server.published topic, s.cursor < m.seq →
      ∃ held ∈ r.ring.get, some m ∈ held
  | _ => True

end Follower

def Poll.last? : Poll → Option Int
  | .lastRead last => some last
  | _ => none

namespace Follower

/-- The first page that the client asks of a restarted server finds the messages
of the topic all above the old cursor, or none above it and the last number read
below it. -/
def Telling (topic : Topic) (s : Follower) : FollowEvent → Prop
  | .fetch => s.fresh = false → ∀ last ∈ s.poll.last?,
      (∀ m ∈ s.server.published topic, s.cursor < m.seq) ∨
        (last < s.cursor ∧ ∀ m ∈ s.server.published topic, m.seq ≤ s.cursor)
  | _ => True

instance decidableKeptAt (topic : Topic) (s : Follower) :
    (e : FollowEvent) → Decidable (KeptAt topic s e)
  | .fetch => inferInstanceAs (Decidable (∀ r ∈ s.server.find topic, ∀ m ∈ s.server.published topic,
      s.cursor < m.seq → ∃ held ∈ r.ring.get, some m ∈ held))
  | .act _ => isTrue trivial
  | .restart => isTrue trivial
  | .readLast => isTrue trivial
  | .receive => isTrue trivial
  | .fail => isTrue trivial

instance decidableTelling (topic : Topic) (s : Follower) :
    (e : FollowEvent) → Decidable (Telling topic s e)
  | .fetch => inferInstanceAs (Decidable (s.fresh = false → ∀ last ∈ s.poll.last?,
      (∀ m ∈ s.server.published topic, s.cursor < m.seq) ∨
        (last < s.cursor ∧ ∀ m ∈ s.server.published topic, m.seq ≤ s.cursor)))
  | .act _ => isTrue trivial
  | .restart => isTrue trivial
  | .readLast => isTrue trivial
  | .receive => isTrue trivial
  | .fail => isTrue trivial

variable {topic : Topic} {s s' : Follower} {e : FollowEvent}

theorem pageBounds_poll {cursor : Int} {bounds : Int × Int}
    (h : pageBounds (some cursor) (some pollPageSize) = some bounds) :
    0 ≤ cursor ∧ bounds = (cursor, pollPageSize) := by
  simp only [pageBounds, bind_eq_bind, bind_eq_some_iff, some.injEq] at h
  obtain ⟨after, hafter, limit, hlimit, rfl⟩ := h
  have hpage : limit = pollPageSize := by
    rw [show limitParam (some pollPageSize) = some pollPageSize from rfl, some.injEq] at hlimit
    exact hlimit.symm
  rw [afterParam] at hafter
  split at hafter
  · cases hafter
  · rename_i hneg
    rw [hpage, some.inj hafter]
    exact ⟨not_lt.mp (some.inj hafter ▸ hneg), rfl⟩

/-- Everything that a step can do. -/
inductive Steps (topic : Topic) (s : Follower) : FollowEvent → Follower → Prop where
  | act {a : Action} {server : Server} (acted : s.server.act a = some server) :
      Steps topic s (.act a) { s with server := server }
  | restart : Steps topic s .restart { s with
        server := .new s.server.bufferSize s.server.bufferBytes s.server.maxRooms
        epoch := s.epoch + 1
        poll := s.poll.survives
        fresh := false }
  | absent (nonneg : 0 ≤ s.cursor) (missing : s.server.find topic = none) :
      Steps topic s .readLast { s with poll := .replied s.epoch [] 0 }
  | readLast {r : Room} (room : s.server.find topic = some r) :
      Steps topic s .readLast { s with poll := .lastRead r.ring.lastSeq }
  | fetch {last : Int} {r : Room} {msgs : List Message} (read : s.poll = .lastRead last)
      (room : s.server.find topic = some r) (free : r.pending = none) (nonneg : 0 ≤ s.cursor)
      (page : r.ring.getAfter s.cursor pollPageSize = some msgs) :
      Steps topic s .fetch { s with poll := .replied s.epoch msgs last }
  | receive {epoch : Nat} {msgs : List Message} {last : Int}
      (replied : s.poll = .replied epoch msgs last) :
      Steps topic s .receive { s with
          cursor := (deliver (nextCursor s.cursor last) msgs).1
          poll := .idle
          fresh := s.fresh || epoch = s.epoch
          delivered := s.delivered ++
            (deliver (nextCursor s.cursor last) msgs).2.map fun m => (epoch, m) }
  | fail : Steps topic s .fail { s with poll := .idle }

theorem step_cases (h : step topic s e = some s') : Steps topic s e s' := by
  cases e with
  | act a =>
    simp only [step, bind_eq_bind, bind_eq_some_iff, some.injEq] at h
    obtain ⟨server, hact, rfl⟩ := h
    exact .act hact
  | restart =>
    rw [step, some.injEq] at h
    subst h
    exact .restart
  | readLast =>
    simp only [step] at h
    split at h
    · rename_i bounds hidle hbounds hmissing
      cases h
      exact .absent (pageBounds_poll hbounds).1 hmissing
    · rename_i bounds r hidle hbounds hroom
      split at h <;> cases h
      exact .readLast hroom
    · cases h
  | fetch =>
    simp only [step] at h
    split at h
    · rename_i last hread
      simp only [bind_eq_bind, bind_eq_some_iff, some.injEq] at h
      obtain ⟨r, hr, bounds, hbounds, msgs, hpage, rfl⟩ := h
      obtain ⟨hroom, hfree⟩ := Server.unlocked_some hr
      obtain ⟨hnonneg, rfl⟩ := pageBounds_poll hbounds
      exact .fetch hread hroom hfree hnonneg hpage
    · cases h
  | receive =>
    simp only [step] at h
    split at h <;> cases h
    rename_i epoch msgs last hreplied
    exact .receive hreplied
  | fail =>
    rw [step, some.injEq] at h
    subst h
    exact .fail

end Follower

theorem deliver_all {cursor : Int} {msgs : List Message}
    (hincr : msgs.Pairwise fun a b => a.seq < b.seq) (habove : ∀ m ∈ msgs, cursor < m.seq) :
    deliver cursor msgs = (msgs.getLast?.elim cursor Message.seq, msgs) := by
  induction msgs generalizing cursor with
  | nil => rfl
  | cons m msgs ih =>
    rw [List.pairwise_cons] at hincr
    have hm := habove m List.mem_cons_self
    rw [deliver, if_neg (by omega), ih hincr.2 hincr.1]
    cases msgs with
    | nil => rfl
    | cons m' msgs => rfl

namespace Follower

variable {topic : Topic} {s s' : Follower} {e : FollowEvent}

/-- What is known of a reply of the server that runs now: it goes on where the
client stopped, above the cursor that the client will have. -/
structure Continues (topic : Topic) (s : Follower) (msgs : List Message) (last : Int) : Prop where
  next : s.current ++ msgs <+: s.server.published topic
  above : ∀ m ∈ msgs, nextCursor s.cursor last < m.seq
  empty : msgs = [] → nextCursor s.cursor last = lastSeqOf s.current

def PollSound (topic : Topic) (s : Follower) : Poll → Prop
  | .idle => True
  | .lastRead last =>
    last ≤ lastSeqOf (s.server.published topic) ∧ (s.fresh = true → s.cursor ≤ last)
  | .replied epoch msgs last => epoch ≤ s.epoch ∧ (epoch < s.epoch → s.fresh = false) ∧
      (epoch = s.epoch → Continues topic s msgs last)

/-- What holds in every state. -/
structure Sound (topic : Topic) (s : Follower) : Prop where
  server : s.server.Sound
  tracks : s.server.Tracks topic
  epochs : ∀ d ∈ s.delivered, d.1 ≤ s.epoch
  stale : s.fresh = false → s.current = []
  fresh : s.fresh = true → s.current <+: s.server.published topic ∧ s.cursor = lastSeqOf s.current
  poll : PollSound topic s s.poll

end Follower

end Unheaded.Wotan
