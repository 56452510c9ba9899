import Unheaded.Wotan.Stream

/-!
# The way of the messages through a stream

For every topic, what was sent and what is under way, in the order of the places it passes, make
up the messages published.
-/

namespace Unheaded.Wotan

open Lib List Option Server Queue Streaming

namespace Streaming

variable {pattern : List Byte} {since : Int} {t : Topic} {s s' : Streaming} {e : StreamStep}

/-! ## Steps -/

/-- Everything that a step can do. -/
inductive Steps (pattern : List Byte) (since : Int) (s : Streaming) : StreamStep → Streaming → Prop where
  | create (id : Topic) : Steps pattern since s (.create id) { s with server := s.server.create id }
  | take {id : Topic} {msg : Message} {server : Server}
      (taken : s.server.act (.take id msg) = some server) :
      Steps pattern since s (.take id msg) { s with server := server }
  | store {id : Topic} {msg : Message} {server : Server} (held : s.server.pendingOf id = some msg)
      (stored : s.server.act (.store id) = some server) :
      Steps pattern since s (.store id) { s with server := server, unsent := s.unsent ++ [msg] }
  | emit {msg : Message} (mem : msg ∈ s.unsent) :
      Steps pattern since s (.emit msg) { s with unsent := s.unsent.erase msg, subs := s.publish msg }
  | start (idle : s.handler = .idle) :
      Steps pattern since s .start { s with startSeq := s.server.seq, handler := .called }
  | list {rooms : List Topic} (called : s.handler = .called)
      (all : rooms.Perm (s.server.rooms.map Room.id)) :
      Steps pattern since s (.list rooms)
        { s with
          topics := rooms.filter (matchTopic pattern)
          handler := .subscribing (rooms.filter (matchTopic pattern)) }
  | subscribe {topic : Topic} {left : List Topic} (phase : s.handler = .subscribing (topic :: left)) :
      Steps pattern since s .subscribe
        { s with subs := s.setSub topic ⟨[], 0, false⟩, handler := .subscribing left }
  | spawn (phase : s.handler = .subscribing []) :
      Steps pattern since s .spawn
        { s with
          subs := fun t => (s.subs t).map fun sub => { sub with running := true }
          watcher := .waiting
          handler := .spawned }
  | load (phase : s.handler = .spawned) :
      Steps pattern since s .load
        { s with handler := if 0 ≤ since then .replaying s.server.seq s.topics [] else .live }
  | missing {upper : Int} {topic : Topic} {left : List Topic} {replay : List TopicMessage}
      (phase : s.handler = .replaying upper (topic :: left) replay)
      (absent : s.server.find topic = none) :
      Steps pattern since s .replay { s with handler := .replaying upper left replay }
  | replay {upper : Int} {r : Room} {left : List Topic} {replay found : List TopicMessage}
      (phase : s.handler = .replaying upper (r.id :: left) replay)
      (room : s.server.find r.id = some r) (free : r.pending = none)
      (read : Polling.readRing (replayAfter since upper) 0 upper r = some found) :
      Steps pattern since s .replay { s with handler := .replaying upper left (replay ++ found) }
  | sort {upper : Int} {replay : List TopicMessage} (phase : s.handler = .replaying upper [] replay) :
      Steps pattern since s .sort
        { s with handler := .sending (replay.insertionSort fun x y => x.seq ≤ y.seq) }
  | send {x : TopicMessage} {left : List TopicMessage} (phase : s.handler = .sending (x :: left)) :
      Steps pattern since s .send
        { s with handler := .sending left, sent := s.sent ++ [StreamEvent.message x] }
  | done (phase : s.handler = .sending []) :
      Steps pattern since s .send { s with handler := .live }
  | receive {ev : StreamEvent} {events : List StreamEvent} (phase : s.handler = .live)
      (head : s.events = ev :: events) :
      Steps pattern since s .receive { s with events := events, sent := s.sent ++ [ev] }
  | forward {topic : Topic} {m : Message} {channel : List Message} {skip : Int}
      (sub : s.subs topic = some ⟨m :: channel, skip, true⟩) :
      Steps pattern since s (.forward topic)
        { s with
          subs := s.setSub topic ⟨channel, skip, true⟩
          events := s.events ++ forwarded topic skip m }
  | tick {rooms : List Topic} (phase : s.watcher = .waiting) :
      Steps pattern since s (.tick rooms) { s with watcher := .scanning rooms }
  | discover {topic : Topic} {left : List Topic} (phase : s.watcher = .scanning (topic :: left))
      (found : matchTopic pattern topic = true) (unknown : s.subs topic = none) :
      Steps pattern since s .scan
        { s with
          subs := s.setSub topic ⟨[], 0, false⟩
          events := s.events ++ [StreamEvent.added topic]
          watcher := .subscribed topic left }
  | known {topic : Topic} {left : List Topic} (phase : s.watcher = .scanning (topic :: left)) :
      Steps pattern since s .scan { s with watcher := .scanning left }
  | scanned (phase : s.watcher = .scanning []) :
      Steps pattern since s .scan { s with watcher := .waiting }
  | fetch {r : Room} {left : List Topic} {msgs : List Message}
      (phase : s.watcher = .subscribed r.id left) (room : s.server.find r.id = some r)
      (free : r.pending = none) (read : r.ring.getAfter s.startSeq 0 = some msgs) :
      Steps pattern since s .fetch { s with watcher := .pushing r.id msgs (lastSeqOf msgs) left }
  | push {topic : Topic} {m : Message} {msgs : List Message} {through : Int} {left : List Topic}
      (phase : s.watcher = .pushing topic (m :: msgs) through left) :
      Steps pattern since s .push
        { s with
          events := s.events ++ [StreamEvent.message ⟨topic, m⟩]
          watcher := .pushing topic msgs through left }
  | follow {topic : Topic} {sub : Subscription} {through : Int} {left : List Topic}
      (phase : s.watcher = .pushing topic [] through left) (known : s.subs topic = some sub) :
      Steps pattern since s .follow
        { s with
          subs := s.setSub topic { sub with skip := through, running := true }
          watcher := .scanning left }

theorem step_cases (h : step pattern since s e = some s') : Steps pattern since s e s' := by
  cases e with
  | create id =>
    rw [step, some.injEq] at h
    subst h
    exact .create id
  | take id msg =>
    simp only [step, bind_eq_bind, bind_eq_some_iff, some.injEq] at h
    obtain ⟨server, htaken, rfl⟩ := h
    exact .take htaken
  | store id =>
    simp only [step, bind_eq_bind, bind_eq_some_iff, some.injEq] at h
    obtain ⟨msg, hheld, server, hstored, rfl⟩ := h
    exact .store hheld hstored
  | emit msg =>
    simp only [step] at h
    split at h <;> cases h
    rename_i hmem
    exact .emit hmem
  | start =>
    simp only [step] at h
    split at h <;> cases h
    rename_i hidle
    exact .start hidle
  | list rooms =>
    simp only [step] at h
    split at h
    · rename_i hcalled
      split at h <;> cases h
      rename_i hall
      exact .list hcalled hall
    · cases h
  | subscribe =>
    simp only [step] at h
    split at h <;> cases h
    rename_i topic left hphase
    exact .subscribe hphase
  | spawn =>
    simp only [step] at h
    split at h <;> cases h
    rename_i hphase
    exact .spawn hphase
  | load =>
    simp only [step] at h
    split at h <;> cases h
    rename_i hphase
    exact .load hphase
  | replay =>
    simp only [step] at h
    split at h
    · rename_i upper topic left replay hphase
      split at h
      · rename_i habsent
        cases h
        exact .missing hphase habsent
      · simp only [bind_eq_bind, bind_eq_some_iff, some.injEq] at h
        obtain ⟨r, hr, found, hread, rfl⟩ := h
        obtain ⟨hroom, hfree⟩ := unlocked_some hr
        obtain ⟨-, rfl⟩ := find_some hroom
        exact .replay hphase hroom hfree hread
    · cases h
  | sort =>
    simp only [step] at h
    split at h <;> cases h
    rename_i upper replay hphase
    exact .sort hphase
  | send =>
    simp only [step] at h
    split at h <;> cases h
    next x left hphase =>
      exact .send hphase
    next hphase =>
      exact .done hphase
  | receive =>
    simp only [step] at h
    split at h <;> cases h
    rename_i ev events hphase hhead
    exact .receive hphase hhead
  | forward topic =>
    simp only [step] at h
    split at h <;> cases h
    rename_i m channel skip hsub
    exact .forward hsub
  | tick rooms =>
    simp only [step] at h
    split at h
    · rename_i hphase
      split at h <;> cases h
      exact .tick hphase
    · cases h
  | scan =>
    simp only [step] at h
    split at h
    · rename_i topic left hphase
      split at h <;> cases h
      next hnew =>
        exact .discover hphase hnew.1 hnew.2
      · exact .known hphase
    · rename_i hphase
      cases h
      exact .scanned hphase
    · cases h
  | fetch =>
    simp only [step] at h
    split at h
    · rename_i topic left hphase
      simp only [bind_eq_bind, bind_eq_some_iff, some.injEq] at h
      obtain ⟨r, hr, msgs, hread, rfl⟩ := h
      obtain ⟨hroom, hfree⟩ := unlocked_some hr
      obtain ⟨-, rfl⟩ := find_some hroom
      exact .fetch hphase hroom hfree hread
    · cases h
  | push =>
    simp only [step] at h
    split at h <;> cases h
    rename_i topic m msgs through left hphase
    exact .push hphase
  | follow =>
    simp only [step] at h
    split at h
    · rename_i topic through left hphase
      simp only [bind_eq_bind, bind_eq_some_iff, some.injEq] at h
      obtain ⟨sub, hsub, rfl⟩ := h
      exact .follow hphase hsub
    · cases h

/-! ## The places that a message passes -/

@[simp] theorem messagesOf_nil (t : Topic) : messagesOf t [] = [] := rfl

@[simp] theorem messagesOf_append (t : Topic) (left right : List StreamEvent) :
    messagesOf t (left ++ right) = messagesOf t left ++ messagesOf t right :=
  flatMap_append

@[simp] theorem messagesOf_added (t topic : Topic) : messagesOf t [.added topic] = [] := rfl

@[simp] theorem messagesOf_message (t : Topic) (x : TopicMessage) :
    messagesOf t [.message x] = if x.topic = t then [x.msg] else [] := by
  simp [messagesOf]

theorem messagesOf_cons (t : Topic) (ev : StreamEvent) (events : List StreamEvent) :
    messagesOf t (ev :: events) = messagesOf t [ev] ++ messagesOf t events :=
  messagesOf_append t [ev] events

@[simp] theorem ofTopic_nil (t : Topic) : ofTopic t [] = [] := rfl

@[simp] theorem ofTopic_append (t : Topic) (left right : List TopicMessage) :
    ofTopic t (left ++ right) = ofTopic t left ++ ofTopic t right := by
  simp [ofTopic]

theorem ofTopic_cons (t : Topic) (x : TopicMessage) (left : List TopicMessage) :
    ofTopic t (x :: left) = messagesOf t [.message x] ++ ofTopic t left := by
  by_cases hid : x.topic = t <;> simp [ofTopic, hid]

@[simp] theorem above_nil (after : Int) : above after [] = [] := rfl

@[simp] theorem above_append (after : Int) (left right : List Message) :
    above after (left ++ right) = above after left ++ above after right :=
  filter_append _ _

variable {msgs : List Message}

theorem above_eq_nil {after : Int} (h : ∀ m ∈ msgs, m.seq ≤ after) : above after msgs = [] := by
  rw [above, filter_eq_nil_iff]
  intro m hm
  simpa using h m hm

theorem above_eq_self {after : Int} (h : ∀ m ∈ msgs, after < m.seq) : above after msgs = msgs := by
  rw [above, filter_eq_self]
  intro m hm
  simpa using h m hm

/-- All messages of the topic that were sent or are under way, with a number above
`since`, in the order in which they will have been sent. -/
def flow (since : Int) (t : Topic) (s : Streaming) : List Message :=
  above since (messagesOf t s.sent ++ replayOf since t s ++ messagesOf t s.events ++
    pushOf t s ++ above (skipOf t s) (channelOf t s ++ unsentOf t s))

end Streaming

namespace Handler

def listed : Handler → Bool
  | .idle => false
  | .called => false
  | _ => true

def started : Handler → Bool
  | .spawned => true
  | .replaying _ _ _ => true
  | .sending _ => true
  | .live => true
  | _ => false

/-- The counter for the replay is read. -/
def past : Handler → Bool
  | .replaying _ _ _ => true
  | .sending _ => true
  | .live => true
  | _ => false

end Handler

namespace Streaming

variable {pattern : List Byte} {since : Int} {t : Topic} {s s' : Streaming} {e : StreamStep}

def Joined (t : Topic) (s : Streaming) : Prop :=
  if t ∈ s.topics then s.handler.past = true
  else s.subs t ≠ none ∧ s.watcher.attention t ≠ .subscribed

/-- The publishers' side of a topic. -/
structure Fed (t : Topic) (s : Streaming) : Prop where
  server : s.server.Sound
  tracks : s.server.Tracks t
  unsent_published : ∀ m ∈ unsentOf t s, m ∈ s.server.published t
  unsent_increasing : (unsentOf t s).Pairwise fun a b => a.seq < b.seq
  channel_published : ∀ m ∈ channelOf t s, m ∈ s.server.published t
  skip_le : skipOf t s ≤ lastSeqOf (s.server.published t)

/-- The replay under way: rings of the first topics, up to a number below which
nothing more will come. -/
structure Replaying (since : Int) (t : Topic) (server : Server) (topics : List Topic) (upper : Int)
    (left : List Topic) (replay : List TopicMessage) : Prop where
  since_le : since ≤ upper
  upper_le : upper ≤ server.seq
  nodup : left.Nodup
  left_topics : t ∈ left → t ∈ topics
  unread : t ∈ left → ofTopic t replay = []
  others : t ∉ topics → ofTopic t replay = []
  pending : t ∈ topics → ∀ p ∈ server.pendingOf t, upper < p.seq ∨ p.seq ≤ since

/-- The handler's side of a topic. -/
structure Led (since : Int) (t : Topic) (s : Streaming) : Prop where
  asked : s.handler ≠ .idle → since ≤ s.startSeq ∧ s.startSeq ≤ s.server.seq
  unlisted : s.handler.listed = false → s.topics = []
  nodup : s.topics.Nodup
  late : s.handler.listed = true → t ∉ s.topics → ∀ m ∈ s.server.taken t, s.startSeq < m.seq
  quiet : s.handler.started = false → messagesOf t s.events = [] ∧ s.watcher = .off ∧
    ∀ sub, s.subs t = some sub → t ∈ s.topics ∧ sub.running = false
  early : s.handler.past = false → s.sent = []
  subscribing : ∀ left, s.handler = .subscribing left → t ∈ left → t ∈ s.topics
  subscribed : t ∈ s.topics → s.subs t ≠ none ∨ ∃ left, s.handler = .subscribing left ∧ t ∈ left
  replaying : ∀ upper left replay, s.handler = .replaying upper left replay →
    Replaying since t s.server s.topics upper left replay
  sending : ∀ left, s.handler = .sending left → t ∉ s.topics → ofTopic t left = []

/-- The watcher's side of a topic. -/
structure Watched (t : Topic) (s : Streaming) : Prop where
  attended : s.watcher.attention t ≠ .away →
    t ∉ s.topics ∧ ∃ sub, s.subs t = some sub ∧ sub.running = false
  apart : t ∉ s.topics → ¬ Joined t s → messagesOf t s.sent = [] ∧ messagesOf t s.events = []

/-- What holds in every state. -/
structure Sound (since : Int) (t : Topic) (s : Streaming) : Prop where
  fed : Fed t s
  led : Led since t s
  watched : Watched t s
  flows : Joined t s → flow since t s = above since (s.server.published t)

theorem Sound.new (bufferSize : Int64) (bufferBytes maxRooms since : Int) (t : Topic) :
    Sound since t (new bufferSize bufferBytes maxRooms) where
  fed :=
    { server := Server.Sound.new _ _ _
      tracks := Server.Tracks.new _ _ _ t
      unsent_published := fun m hm => absurd hm not_mem_nil
      unsent_increasing := List.Pairwise.nil
      channel_published := fun m hm => absurd hm not_mem_nil
      skip_le := le_refl _ }
  led :=
    { asked := fun h => absurd rfl h
      unlisted := fun _ => rfl
      nodup := nodup_nil
      late := fun h => absurd h (by simp [Streaming.new, Handler.listed])
      quiet := fun _ => ⟨rfl, rfl, fun _ h => absurd h (by simp [Streaming.new])⟩
      early := fun _ => rfl
      subscribing := fun _ h => absurd h (by simp [Streaming.new])
      subscribed := fun h => absurd h not_mem_nil
      replaying := fun _ _ _ h => absurd h (by simp [Streaming.new])
      sending := fun _ h => absurd h (by simp [Streaming.new]) }
  watched :=
    { attended := fun h => absurd rfl h
      apart := fun _ _ => ⟨rfl, rfl⟩ }
  flows h := by simp [Joined, Streaming.new] at h

/-! ## Publishers -/

variable {server : Server}

theorem Sound.server_step (h : Sound since t s) (hserver : server.Sound) (htracks : server.Tracks t)
    (hpub : server.published t = s.server.published t) (hseq : s.server.seq ≤ server.seq)
    (htaken : ∀ m ∈ server.taken t, m ∈ s.server.taken t ∨ s.server.seq < m.seq)
    (hpending : ∀ p ∈ server.pendingOf t, p ∈ s.server.pendingOf t ∨ s.server.seq < p.seq) :
    Sound since t { s with server := server } where
  fed :=
    { server := hserver
      tracks := htracks
      unsent_published := fun m hm => hpub ▸ h.fed.unsent_published m hm
      unsent_increasing := h.fed.unsent_increasing
      channel_published := fun m hm => hpub ▸ h.fed.channel_published m hm
      skip_le := hpub ▸ h.fed.skip_le }
  led :=
    { h.led with
      asked := fun hidle => ⟨(h.led.asked hidle).1, (h.led.asked hidle).2.trans hseq⟩
      late := fun hlisted hother m hm => by
        rcases htaken m hm with hold | hnew
        · exact h.led.late hlisted hother m hold
        · have hidle : s.handler ≠ .idle := by
            intro heq
            simp [heq, Handler.listed] at hlisted
          exact (h.led.asked hidle).2.trans_lt hnew
      replaying := fun upper left replay hphase => by
        have hreplay := h.led.replaying upper left replay hphase
        exact
          { hreplay with
            upper_le := hreplay.upper_le.trans hseq
            pending := fun hin p hp => by
              rcases hpending p hp with hold | hnew
              · exact hreplay.pending hin p hold
              · exact Or.inl (hreplay.upper_le.trans_lt hnew) } }
  watched := { h.watched with }
  flows hjoined := by
    have hflow := h.flows hjoined
    rw [flow, replayOf] at hflow ⊢
    simp only [hpub]
    exact hflow

section

variable (h : Sound since t s) (hserver : s'.server = s.server) (hstart : s'.startSeq = s.startSeq)
  (htopics : s'.topics = s.topics) (hhandler : s'.handler = s.handler)
include h hserver hstart htopics hhandler

/-- A step in which the topic's messages move at most from the publishers to the
subscription. -/
theorem Sound.frame (hnone : s'.subs t = none ↔ s.subs t = none)
    (hstill : ∀ sub, s.subs t = some sub → sub.running = false →
      ∃ sub', s'.subs t = some sub' ∧ sub'.running = false) (hskip : skipOf t s' = skipOf t s)
    (hmoved : channelOf t s' ++ unsentOf t s' = channelOf t s ++ unsentOf t s)
    (hfewer : List.Sublist (unsentOf t s') (unsentOf t s))
    (hsent : messagesOf t s'.sent = messagesOf t s.sent)
    (hearly : s.handler.past = false → s'.sent = s.sent)
    (hevents : messagesOf t s'.events = messagesOf t s.events)
    (hquiet : s.handler.started = false → s'.watcher = s.watcher)
    (hwatcher : s'.watcher.attention t = s.watcher.attention t) : Sound since t s' := by
  have hpush : pushOf t s' = pushOf t s := by rw [pushOf, pushOf, hwatcher]
  have hjoined : Joined t s' ↔ Joined t s := by
    rw [Joined, Joined, htopics, hhandler, hwatcher, ne_eq, hnone]
  have hpublished : ∀ m ∈ channelOf t s' ++ unsentOf t s', m ∈ s.server.published t := by
    intro m hm
    rw [hmoved] at hm
    rcases mem_append.mp hm with hchannel | hunsent
    · exact h.fed.channel_published m hchannel
    · exact h.fed.unsent_published m hunsent
  have hled := h.led
  refine ⟨?_, ?_, ?_, ?_⟩
  · refine ⟨hserver ▸ h.fed.server, hserver ▸ h.fed.tracks, ?_, ?_, ?_, ?_⟩
    · intro m hm
      rw [hserver]
      exact hpublished m (mem_append_right _ hm)
    · exact h.fed.unsent_increasing.sublist hfewer
    · intro m hm
      rw [hserver]
      exact hpublished m (mem_append_left _ hm)
    · rw [hskip, hserver]
      exact h.fed.skip_le
  · constructor
    · rw [hhandler, hstart, hserver]
      exact hled.asked
    · rw [hhandler, htopics]
      exact hled.unlisted
    · rw [htopics]
      exact hled.nodup
    · rw [hhandler, htopics, hserver, hstart]
      exact hled.late
    · intro hnot
      rw [hhandler] at hnot
      obtain ⟨hev, hw, hsubs⟩ := hled.quiet hnot
      refine ⟨hevents.trans hev, (hquiet hnot).trans hw, fun sub' hsub' => ?_⟩
      cases hsub : s.subs t with
      | none =>
        rw [hnone.mpr hsub] at hsub'
        exact absurd hsub' (by simp)
      | some sub =>
        obtain ⟨hin, hrun⟩ := hsubs sub hsub
        obtain ⟨sub'', hsub'', hrun'⟩ := hstill sub hsub hrun
        obtain rfl : sub'' = sub' := by simpa [hsub''] using hsub'
        exact ⟨htopics ▸ hin, hrun'⟩
    · intro hnot
      rw [hhandler] at hnot
      rw [hearly hnot]
      exact hled.early hnot
    · rw [hhandler, htopics]
      exact hled.subscribing
    · rw [hhandler, htopics, ne_eq, hnone]
      exact hled.subscribed
    · rw [hhandler, htopics, hserver]
      exact hled.replaying
    · rw [hhandler, htopics]
      exact hled.sending
  · constructor
    · rw [hwatcher, htopics]
      intro hattended
      obtain ⟨hnot, sub, hsub, hrun⟩ := h.watched.attended hattended
      exact ⟨hnot, hstill sub hsub hrun⟩
    · rw [htopics, hjoined, hsent, hevents]
      exact h.watched.apart
  · intro hnow
    have hflow := h.flows (hjoined.mp hnow)
    rw [flow, replayOf] at hflow ⊢
    rw [hsent, hserver, hhandler, hevents, hpush, hskip, hmoved]
    exact hflow

theorem Sound.unseen (hsubs : s'.subs t = s.subs t)
    (hunsent : unsentOf t s' = unsentOf t s) (hsent : messagesOf t s'.sent = messagesOf t s.sent)
    (hearly : s.handler.past = false → s'.sent = s.sent)
    (hevents : messagesOf t s'.events = messagesOf t s.events)
    (hquiet : s.handler.started = false → s'.watcher = s.watcher)
    (hwatcher : s'.watcher.attention t = s.watcher.attention t) : Sound since t s' := by
  have hchannel : channelOf t s' = channelOf t s := by rw [channelOf, channelOf, hsubs]
  refine h.frame hserver hstart htopics hhandler (by rw [hsubs]) ?_ ?_ ?_ ?_ hsent hearly hevents
    hquiet hwatcher
  · intro sub hsub hrun
    exact ⟨sub, hsubs.trans hsub, hrun⟩
  · rw [skipOf, skipOf, hwatcher, hsubs]
  · rw [hchannel, hunsent]
  · rw [hunsent]

end

variable {msgs : List Message} {m msg : Message}

theorem lastSeqOf_lt (hincr : (msgs ++ [m]).Pairwise fun a b => a.seq < b.seq) (hpos : 0 < m.seq) :
    lastSeqOf msgs < m.seq := by
  rcases lastSeqOf_cases msgs with ⟨-, hzero⟩ | ⟨last, hlast, heq⟩
  · rw [hzero]
    exact hpos
  · rw [heq]
    exact (pairwise_append.mp hincr).2.2 last hlast m (by simp)

/-- A message is stored in the topic: it is the newest, and its event is still to
be published. -/
theorem Sound.store_here (h : Sound since t s) (hserver : server.Sound) (htracks : server.Tracks t)
    (hpub : server.published t = s.server.published t ++ [m]) (hm : m.roomId = t)
    (hheld : m ∈ s.server.pendingOf t) (hseq : server.seq = s.server.seq)
    (htaken : server.taken t = s.server.taken t) (hfree : server.pendingOf t = none) :
    Sound since t { s with server := server, unsent := s.unsent ++ [m] } := by
  have hincr := hserver.published_increasing t
  rw [hpub] at hincr
  have hpos : 0 < m.seq := hserver.published_pos (m := m) (by
    rw [hpub]
    exact mem_append_right _ (mem_singleton_self m))
  have hskip : skipOf t s < m.seq := h.fed.skip_le.trans_lt (lastSeqOf_lt hincr hpos)
  have hunsent : unsentOf t { s with server := server, unsent := s.unsent ++ [m] } =
      unsentOf t s ++ [m] := by
    simp [unsentOf, hm]
  have hold : ∀ x ∈ s.server.published t, x ∈ server.published t := by
    intro x hx
    rw [hpub]
    exact mem_append_left _ hx
  refine ⟨?_, ?_, { h.watched with }, ?_⟩
  · refine ⟨hserver, htracks, ?_, ?_, ?_, ?_⟩
    · intro x hx
      rw [hunsent] at hx
      rcases mem_append.mp hx with hbefore | hnew
      · exact hold x (h.fed.unsent_published x hbefore)
      · obtain rfl : x = m := by simpa using hnew
        simp only [hpub]
        simp
    · rw [hunsent]
      refine pairwise_append.mpr ⟨h.fed.unsent_increasing, pairwise_singleton _ _, ?_⟩
      intro x hx y hy
      obtain rfl : y = m := by simpa using hy
      exact (pairwise_append.mp hincr).2.2 x (h.fed.unsent_published x hx) y (by simp)
    · intro x hx
      exact hold x (h.fed.channel_published x hx)
    · simp only [hpub, lastSeqOf_concat]
      exact hskip.le
  · exact
      { h.led with
        asked := fun hidle => ⟨(h.led.asked hidle).1, hseq ▸ (h.led.asked hidle).2⟩
        late := fun hlisted hother x hx => h.led.late hlisted hother x (htaken ▸ hx)
        replaying := fun upper left replay hphase => by
          have hreplay := h.led.replaying upper left replay hphase
          exact
            { hreplay with
              upper_le := hseq ▸ hreplay.upper_le
              pending := fun _ p hp => by simp [hfree] at hp } }
  · intro hjoined
    have hflow := h.flows hjoined
    have hreplay : replayOf since t { s with server := server, unsent := s.unsent ++ [m] } =
        replayOf since t s := by
      simp only [replayOf, hpub]
      cases hphase : s.handler with
      | replaying upper left replay =>
        have hreplaying := h.led.replaying upper left replay hphase
        by_cases hin : t ∈ left
        · -- the number of the message is beyond the replay
          have hbeyond := hreplaying.pending (hreplaying.left_topics hin) m hheld
          have hnone : ¬ (since < m.seq ∧ m.seq ≤ upper) := by omega
          simp [replayPart, hnone]
        · simp only [replayPart, hin, if_false]
      | idle => rfl
      | called => rfl
      | subscribing left => rfl
      | spawned => rfl
      | sending left => rfl
      | live => rfl
    rw [flow] at hflow ⊢
    have hnew : above (skipOf t s) [m] = [m] := above_eq_self (by simpa using hskip)
    have hsame : skipOf t { s with server := server, unsent := s.unsent ++ [m] } = skipOf t s := rfl
    have hchannel : channelOf t { s with server := server, unsent := s.unsent ++ [m] } =
        channelOf t s := rfl
    have hpush : pushOf t { s with server := server, unsent := s.unsent ++ [m] } = pushOf t s := rfl
    rw [hreplay, hunsent, hsame, hchannel, hpush]
    simp only [hpub, above_append, hnew] at hflow ⊢
    rw [← hflow]
    simp only [List.append_assoc]

theorem Sound.create (h : Sound since t s) (id : Topic) :
    Sound since t { s with server := s.server.create id } := by
  have hsame := create_sameTopic s.server id t
  have hacts : s.server.Acts (s.server.create id) := .create id
  refine h.server_step (h.fed.server.create id) (h.fed.tracks.create h.fed.server id)
    hsame.published_eq hacts.seq_le ?_ fun p hp => hacts.new_pending hp
  intro m hm
  rw [hsame.taken_eq] at hm
  exact Or.inl hm

theorem mem_taken : m ∈ server.taken t ↔ m ∈ server.history ∧ m.roomId = t := by
  simp [taken]

theorem Sound.take {id : Topic} (h : Sound since t s)
    (hact : s.server.act (.take id msg) = some server) :
    Sound since t { s with server := server } := by
  have hacts := h.fed.server.acts hact
  have hserver := h.fed.server.step hact
  obtain ⟨r, hfound, hfree, rfl⟩ := h.fed.server.act_take hact
  obtain ⟨-, rfl⟩ := find_some hfound
  obtain ⟨htracks, hpub⟩ := h.fed.tracks.take
    (m := { msg with roomId := r.id, seq := s.server.seq + 1 }) hfound hfree rfl (s.server.seq + 1)
  refine h.server_step hserver htracks hpub hacts.seq_le ?_ fun p hp => hacts.new_pending hp
  intro m hm
  rw [mem_taken] at hm ⊢
  rcases hacts.new_message hm.1 with hold | hnew
  · exact Or.inl ⟨hold, hm.2⟩
  · exact Or.inr hnew

theorem Sound.store {id : Topic} (h : Sound since t s) (hheld : s.server.pendingOf id = some msg)
    (hact : s.server.act (.store id) = some server) :
    Sound since t { s with server := server, unsent := s.unsent ++ [msg] } := by
  have hacts := h.fed.server.acts hact
  have hserver := h.fed.server.step hact
  obtain ⟨r, q, msg', ring, hfound, hq, hpending, hrefines, rfl⟩ := h.fed.server.act_store hact
  obtain ⟨-, rfl⟩ := find_some hfound
  obtain rfl : msg' = msg := by
    rwa [pendingOf_of_find hfound, hpending, some.injEq] at hheld
  have hroom : msg'.roomId = r.id := (hq.pending_taken msg' hpending).2
  obtain ⟨htracks, hpub⟩ := h.fed.tracks.store hfound hpending hrefines.lastSeq_eq
  by_cases hid : t = r.id
  · subst hid
    rw [if_pos rfl] at hpub
    exact h.store_here hserver htracks hpub hroom hheld rfl rfl
      (pendingOf_put { r with ring := ring, pending := none } hfound)
  · rw [if_neg hid, append_nil] at hpub
    have hmoved := h.server_step hserver htracks hpub hacts.seq_le (fun m hm => Or.inl hm)
      fun p hp => hacts.new_pending hp
    refine hmoved.unseen rfl rfl rfl rfl rfl ?_ rfl (fun _ => rfl) rfl (fun _ => rfl) rfl
    have hother : ¬ msg'.roomId = t := fun heq => hid (heq.symm.trans hroom)
    simp [unsentOf, hother]

/-! ## Events -/

theorem least_first (hincr : msgs.Pairwise fun a b => a.seq < b.seq) (hm : m ∈ msgs)
    (hleast : ∀ x ∈ msgs, m.seq ≤ x.seq) : ∃ rest, msgs = m :: rest := by
  cases msgs with
  | nil => exact absurd hm not_mem_nil
  | cons x rest =>
    rcases mem_cons.mp hm with rfl | hrest
    · exact ⟨rest, rfl⟩
    · have hlt := (pairwise_cons.mp hincr).1 m hrest
      have hle := hleast x mem_cons_self
      omega

theorem unsentOf_erase (t : Topic) (s : Streaming) (msg : Message)
    (subs : Topic → Option Subscription) :
    unsentOf t { s with unsent := s.unsent.erase msg, subs := subs } = (unsentOf t s).erase msg :=
  erase_filter.symm

theorem publish_apply (s : Streaming) (msg : Message) (t : Topic) :
    s.publish msg t = if t = msg.roomId then
      (s.subs t).map fun sub => { sub with channel := sub.channel ++ [msg] } else s.subs t := by
  rw [publish]
  cases hsub : s.subs msg.roomId with
  | none =>
    by_cases hid : t = msg.roomId
    · simp [hid, hsub]
    · simp [hid]
  | some sub =>
    by_cases hid : t = msg.roomId
    · simp [hid, hsub, setSub]
    · simp [hid, setSub]

variable (h : Sound since t s)
include h

theorem Sound.joined_subs (hjoined : Joined t s) : s.subs t ≠ none := by
  rw [Joined] at hjoined
  split at hjoined
  · rename_i hin
    rcases h.led.subscribed hin with hsub | ⟨left, hphase, -⟩
    · exact hsub
    · simp [hphase, Handler.past] at hjoined
  · exact hjoined.1

theorem Sound.emit_other (hid : t ≠ msg.roomId) :
    Sound since t { s with unsent := s.unsent.erase msg, subs := s.publish msg } := by
  have hother : msg ∉ unsentOf t s := by
    intro hin
    exact hid (of_decide_eq_true (mem_filter.mp hin).2).symm
  refine h.unseen rfl rfl rfl rfl ?_ ?_ rfl (fun _ => rfl) rfl (fun _ => rfl) rfl
  · exact (publish_apply s msg t).trans (if_neg hid)
  · rw [unsentOf_erase, erase_of_not_mem hother]

theorem Sound.emit_unheard (hsub : s.subs t = none) :
    Sound since t { s with unsent := s.unsent.erase msg, subs := s.publish msg } := by
  have hfewer : List.Sublist ((unsentOf t s).erase msg) (unsentOf t s) := erase_sublist
  have hsub' : s.publish msg t = none := by
    rw [publish_apply, hsub]
    split <;> rfl
  have hapart : ¬ Joined t s := fun hjoined => h.joined_subs hjoined hsub
  have hjoined : Joined t { s with unsent := s.unsent.erase msg, subs := s.publish msg } ↔ Joined t s := by
    simp only [Joined, hsub, hsub']
  have hchannel : channelOf t { s with unsent := s.unsent.erase msg, subs := s.publish msg } = [] := by
    simp only [channelOf, hsub']
    rfl
  have hskip : skipOf t { s with unsent := s.unsent.erase msg, subs := s.publish msg } =
      skipOf t s := by
    simp only [skipOf, hsub, hsub']
  refine ⟨⟨h.fed.server, h.fed.tracks, ?_, ?_, ?_, ?_⟩, ?_, ⟨?_, ?_⟩, ?_⟩
  · intro m hm
    rw [unsentOf_erase] at hm
    exact h.fed.unsent_published m (hfewer.mem hm)
  · rw [unsentOf_erase]
    exact h.fed.unsent_increasing.sublist hfewer
  · intro m hm
    rw [hchannel] at hm
    exact absurd hm not_mem_nil
  · rw [hskip]
    exact h.fed.skip_le
  · refine { h.led with quiet := fun hnot => ?_, subscribed := fun hin => ?_ }
    · obtain ⟨hev, hw, -⟩ := h.led.quiet hnot
      refine ⟨hev, hw, fun sub hsome => ?_⟩
      exact absurd (hsub'.symm.trans hsome) (by simp)
    · rcases h.led.subscribed hin with hne | hleft
      · exact absurd hsub hne
      · exact Or.inr hleft
  · intro hattended
    obtain ⟨-, sub, hsome, -⟩ := h.watched.attended hattended
    simp [hsub] at hsome
  · intro hnot _
    exact h.watched.apart hnot hapart
  · intro hnow
    exact absurd (hjoined.mp hnow) hapart

theorem Sound.emit (hmem : msg ∈ s.unsent) (horderly : Orderly since s (.emit msg)) :
    Sound since t { s with unsent := s.unsent.erase msg, subs := s.publish msg } := by
  by_cases hid : t = msg.roomId
  · cases hsub : s.subs t with
    | none => exact h.emit_unheard hsub
    | some sub =>
      have hmine : msg ∈ unsentOf t s := mem_filter.mpr ⟨hmem, by simpa using hid.symm⟩
      have hleast := horderly (by rw [← hid, hsub]; simp)
      rw [← hid] at hleast
      obtain ⟨rest, hrest⟩ := least_first h.fed.unsent_increasing hmine hleast
      have hsub' : s.publish msg t = some { sub with channel := sub.channel ++ [msg] } := by
        rw [publish_apply, if_pos hid, hsub]
        rfl
      refine h.frame rfl rfl rfl rfl ?_ ?_ ?_ ?_ ?_ rfl (fun _ => rfl) rfl
        (fun _ => rfl) rfl
      · simp [hsub, hsub']
      · intro sub₀ hsub₀ hrun
        rw [hsub, some.injEq] at hsub₀
        exact ⟨_, hsub', by rw [← hsub₀] at hrun; exact hrun⟩
      · simp only [skipOf, hsub', hsub]
        rfl
      · rw [unsentOf_erase, hrest]
        simp only [channelOf, hsub', hsub]
        simp
      · rw [unsentOf_erase]
        exact erase_sublist
  · exact h.emit_other hid

end Streaming

end Unheaded.Wotan
