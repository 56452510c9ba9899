import Unheaded.Wotan.PatternPoll
import Unheaded.Wotan.Published

/-!
# Streams of topics

`StreamTopics` subscribes to the rooms of a pattern, replays what their rings hold after a number,
and then sends what comes in live.
-/

namespace Unheaded.Wotan

open Lib

/-- An event of the stream: a new room, or a message. -/
inductive StreamEvent where
  | added (topic : Topic)
  | message (x : TopicMessage)
  deriving DecidableEq

/-- A subscription of the stream. -/
structure Subscription where
  channel : List Message
  skip : Int
  running : Bool
  deriving DecidableEq

/-- Where the handler is. -/
inductive Handler where
  | idle
  | called
  | subscribing (left : List Topic)
  | spawned
  | replaying (upper : Int) (left : List Topic) (replay : List TopicMessage)
  | sending (left : List TopicMessage)
  | live
  deriving DecidableEq

/-- Where `watchTopicsForPattern` is, with the rooms that are left of this tick. -/
inductive Watcher where
  | off
  | waiting
  | scanning (left : List Topic)
  | subscribed (topic : Topic) (left : List Topic)
  | pushing (topic : Topic) (msgs : List Message) (through : Int) (left : List Topic)
  deriving DecidableEq

/-- What the watcher is doing about one topic. -/
inductive Attention where
  | away
  | subscribed
  | pushing (msgs : List Message) (through : Int)

def Watcher.attention (topic : Topic) : Watcher → Attention
  | .subscribed t _ => if t = topic then .subscribed else .away
  | .pushing t msgs through _ => if t = topic then .pushing msgs through else .away
  | _ => .away

def Watcher.next : Watcher → Option Topic
  | .subscribed topic _ => some topic
  | _ => none

/-- The server and one stream.  `unsent` are the messages that are stored and
whose event is still to be published; `events` is the channel of the handler. -/
structure Streaming where
  server : Server
  unsent : List Message
  subs : Topic → Option Subscription
  events : List StreamEvent
  sent : List StreamEvent
  startSeq : Int
  topics : List Topic
  handler : Handler
  watcher : Watcher

inductive StreamStep where
  | create (id : Topic)
  | take (id : Topic) (msg : Message)
  | store (id : Topic)
  | emit (msg : Message)
  | start
  | list (rooms : List Topic)
  | subscribe
  | spawn
  | load
  | replay
  | sort
  | send
  | receive
  | forward (topic : Topic)
  | tick (rooms : List Topic)
  | scan
  | fetch
  | push
  | follow

namespace Streaming

def new (bufferSize : Int64) (bufferBytes maxRooms : Int) : Streaming where
  server := .new bufferSize bufferBytes maxRooms
  unsent := []
  subs := fun _ => none
  events := []
  sent := []
  startSeq := 0
  topics := []
  handler := .idle
  watcher := .off

variable (s : Streaming)

def setSub (topic : Topic) (sub : Subscription) : Topic → Option Subscription :=
  fun t => if t = topic then some sub else s.subs t

/-- `Publish` of a message event, for the subscriptions of this stream. -/
def publish (msg : Message) : Topic → Option Subscription :=
  match s.subs msg.roomId with
  | none => s.subs
  | some sub => s.setSub msg.roomId { sub with channel := sub.channel ++ [msg] }

def replayAfter (since upper : Int) : Int := if upper < since then 0 else since

variable (topic : Topic)

def forwarded (skip : Int) (m : Message) : List StreamEvent :=
  if 0 < skip ∧ m.seq ≤ skip then [] else [.message ⟨topic, m⟩]

def step (pattern : List Byte) (since : Int) (s : Streaming) : StreamStep → Option Streaming
  | .create id => some { s with server := s.server.create id }
  | .take id msg => do
    let server ← s.server.act (.take id msg)
    some { s with server := server }
  | .store id => do
    let msg ← s.server.pendingOf id
    let server ← s.server.act (.store id)
    some { s with server := server, unsent := s.unsent ++ [msg] }
  | .emit msg =>
    if msg ∈ s.unsent then some { s with unsent := s.unsent.erase msg, subs := s.publish msg }
    else none
  | .start =>
    match s.handler with
    | .idle => some { s with startSeq := s.server.seq, handler := .called }
    | _ => none
  | .list rooms =>
    match s.handler with
    | .called =>
      if rooms.Perm (s.server.rooms.map Room.id) then
        let topics := rooms.filter (matchTopic pattern)
        some { s with topics := topics, handler := .subscribing topics }
      else none
    | _ => none
  | .subscribe =>
    match s.handler with
    | .subscribing (topic :: left) =>
      some { s with subs := s.setSub topic ⟨[], 0, false⟩, handler := .subscribing left }
    | _ => none
  | .spawn =>
    match s.handler with
    | .subscribing [] =>
      some { s with
        subs := fun t => (s.subs t).map fun sub => { sub with running := true }
        watcher := .waiting
        handler := .spawned }
    | _ => none
  | .load =>
    match s.handler with
    | .spawned => some { s with
        handler := if 0 ≤ since then .replaying s.server.seq s.topics [] else .live }
    | _ => none
  | .replay =>
    match s.handler with
    | .replaying upper (topic :: left) replay =>
      match s.server.find topic with
      | none => some { s with handler := .replaying upper left replay }
      | some _ => do
        let r ← s.server.unlocked topic
        let found ← Polling.readRing (replayAfter since upper) 0 upper r
        some { s with handler := .replaying upper left (replay ++ found) }
    | _ => none
  | .sort =>
    match s.handler with
    | .replaying _ [] replay => some { s with
        handler := .sending (replay.insertionSort fun x y => x.seq ≤ y.seq) }
    | _ => none
  | .send =>
    match s.handler with
    | .sending (x :: left) => some { s with
        handler := .sending left, sent := s.sent ++ [StreamEvent.message x] }
    | .sending [] => some { s with handler := .live }
    | _ => none
  | .receive =>
    match s.handler, s.events with
    | .live, e :: events => some { s with events := events, sent := s.sent ++ [e] }
    | _, _ => none
  | .forward topic =>
    match s.subs topic with
    | some ⟨m :: channel, skip, true⟩ => some { s with
        subs := s.setSub topic ⟨channel, skip, true⟩
        events := s.events ++ forwarded topic skip m }
    | _ => none
  | .tick rooms =>
    match s.watcher with
    | .waiting =>
      if rooms.Perm (s.server.rooms.map Room.id) then some { s with watcher := .scanning rooms }
      else none
    | _ => none
  | .scan =>
    match s.watcher with
    | .scanning (topic :: left) =>
      if matchTopic pattern topic = true ∧ s.subs topic = none then
        some { s with
          subs := s.setSub topic ⟨[], 0, false⟩
          events := s.events ++ [StreamEvent.added topic]
          watcher := .subscribed topic left }
      else some { s with watcher := .scanning left }
    | .scanning [] => some { s with watcher := .waiting }
    | _ => none
  | .fetch =>
    match s.watcher with
    | .subscribed topic left => do
      let r ← s.server.unlocked topic
      let msgs ← r.ring.getAfter s.startSeq 0
      some { s with watcher := .pushing topic msgs (lastSeqOf msgs) left }
    | _ => none
  | .push =>
    match s.watcher with
    | .pushing topic (m :: msgs) through left => some { s with
        events := s.events ++ [StreamEvent.message ⟨topic, m⟩]
        watcher := .pushing topic msgs through left }
    | _ => none
  | .follow =>
    match s.watcher with
    | .pushing topic [] through left => do
      let sub ← s.subs topic
      some { s with
        subs := s.setSub topic { sub with skip := through, running := true }
        watcher := .scanning left }
    | _ => none

def run (pattern : List Byte) (since : Int) (s : Streaming) (steps : List StreamStep) :
    Option Streaming := runAll (step pattern since) s steps

def messagesOf (events : List StreamEvent) : List Message := events.flatMap fun
    | .added _ => []
    | .message x => if x.topic = topic then [x.msg] else []

def ofTopic (replay : List TopicMessage) : List Message :=
  (replay.filter fun x => decide (x.topic = topic)).map TopicMessage.msg

def channelOf (s : Streaming) : List Message :=
  (s.subs topic).elim [] Subscription.channel

def unsentOf (s : Streaming) : List Message :=
  s.unsent.filter fun m => decide (m.roomId = topic)

variable (since : Int)

/-- What the handler still has to send of its replay; of a ring that it has not
read yet, what it will find there. -/
def replayPart (topic : Topic) (published : List Message) : Handler → List Message
  | .replaying upper left replay =>
    if topic ∈ left then published.filter fun m => decide (since < m.seq ∧ m.seq ≤ upper)
    else ofTopic topic replay
  | .sending left => ofTopic topic left
  | _ => []

def replayOf (topic : Topic) (s : Streaming) : List Message :=
  replayPart since topic (s.server.published topic) s.handler

def pushOf (s : Streaming) : List Message :=
  match s.watcher.attention topic with
  | .pushing msgs _ => msgs
  | _ => []

def skipOf (s : Streaming) : Int :=
  match s.watcher.attention topic with
  | .pushing _ through => through
  | _ => (s.subs topic).elim 0 Subscription.skip

def Keeps (topic : Topic) (after : Int) : Prop :=
  ∀ r ∈ s.server.find topic, ∀ m ∈ s.server.published topic, after < m.seq →
    ∃ held ∈ r.ring.get, some m ∈ held

/-- The call asks for a number that was taken, and no ring has dropped what is
replayed from it. -/
def InScope (s : Streaming) : StreamStep → Prop
  | .start => since ≤ s.server.seq
  | .replay => ∀ topic ∈ s.topics, Keeps s topic since
  | .fetch => ∀ topic ∈ s.watcher.next, Keeps s topic since
  | _ => True

/-- When the handler reads the counter for its replay, no message that it asks
for is under way to it already; and the events of a topic are published in the
order of their numbers. -/
def Orderly (s : Streaming) : StreamStep → Prop
  | .load => ∀ topic ∈ s.topics, ∀ m ∈ messagesOf topic s.events ++ channelOf topic s ++
      unsentOf topic s ++ (s.server.pendingOf topic).toList, m.seq ≤ since
  | .emit msg => s.subs msg.roomId ≠ none → ∀ m ∈ unsentOf msg.roomId s, msg.seq ≤ m.seq
  | _ => True

instance decidableKeeps (s : Streaming) (topic : Topic) (after : Int) :
    Decidable (Keeps s topic after) :=
  inferInstanceAs (Decidable (∀ r ∈ s.server.find topic, ∀ m ∈ s.server.published topic,
    after < m.seq → ∃ held ∈ r.ring.get, some m ∈ held))

instance decidableInScope (since : Int) (s : Streaming) :
    (e : StreamStep) → Decidable (InScope since s e)
  | .start => inferInstanceAs (Decidable (since ≤ s.server.seq))
  | .replay => inferInstanceAs (Decidable (∀ topic ∈ s.topics, Keeps s topic since))
  | .fetch => inferInstanceAs (Decidable (∀ topic ∈ s.watcher.next, Keeps s topic since))
  | .create _ | .take _ _ | .store _ | .emit _ | .list _ | .subscribe | .spawn | .load | .sort
  | .send | .receive | .forward _ | .tick _ | .scan | .push | .follow => isTrue trivial

instance decidableOrderly (since : Int) (s : Streaming) :
    (e : StreamStep) → Decidable (Orderly since s e)
  | .load => inferInstanceAs (Decidable (∀ topic ∈ s.topics, ∀ m ∈ messagesOf topic s.events ++
      channelOf topic s ++ unsentOf topic s ++ (s.server.pendingOf topic).toList, m.seq ≤ since))
  | .emit msg => inferInstanceAs (Decidable (s.subs msg.roomId ≠ none →
      ∀ m ∈ unsentOf msg.roomId s, msg.seq ≤ m.seq))
  | .create _ | .take _ _ | .store _ | .start | .list _ | .subscribe | .spawn | .replay | .sort
  | .send | .receive | .forward _ | .tick _ | .scan | .fetch | .push | .follow => isTrue trivial

end Streaming

end Unheaded.Wotan
