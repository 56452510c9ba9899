import Mathlib.Data.List.Nodup
import Unheaded.Wotan.QueueRuns

/-!
# The rooms of a server

Every topic has a room with a ring buffer, and all rings take their numbers from one counter.
-/

namespace Unheaded.Wotan

open List Option

abbrev Topic := List Byte

def DOT : Byte := 0x2E

def STAR : List Byte := [0x2A]

def HASH : List Byte := [0x23]

/-- The loop of `Match` over the segments of the pattern. -/
def matchSegments : List (List Byte) → List (List Byte) → Bool
  | [], topic => topic.isEmpty
  | seg :: pattern, topic =>
    if seg = HASH then pattern.isEmpty && !topic.isEmpty
    else
      match topic with
      | [] => false
      | name :: topic => (seg = STAR || seg = name) && matchSegments pattern topic

/-- `topicpattern.Match`. -/
def matchTopic (pattern topic : List Byte) : Bool :=
  if pattern = [] ∨ topic = [] then false
  else if pattern = STAR ∨ pattern = HASH then true
  else matchSegments (pattern.splitOn DOT) (topic.splitOn DOT)

/-- `pending` is the message of a push that holds the lock and has its number. -/
structure Room where
  id : Topic
  ring : RingBuffer
  pending : Option Message
  deriving DecidableEq

/-- `seq` is the shared counter. -/
structure Server where
  bufferSize : Int64
  bufferBytes : Int
  maxRooms : Int
  seq : Int
  rooms : List Room
  history : List Message
  deriving DecidableEq

/-- What others do to the rooms. -/
inductive Action where
  | create (id : Topic)
  | take (id : Topic) (msg : Message)
  | store (id : Topic)
  | delete (id : Topic) (msgId creatorId : Uuid) (content : List Byte)
  | evictOldest (id : Topic)
  deriving DecidableEq

namespace Server

/-- `NewManager`, after a start of the process. -/
def new (bufferSize : Int64) (bufferBytes maxRooms : Int) : Server :=
  { bufferSize, bufferBytes, maxRooms, seq := 0, rooms := [], history := [] }

variable (s : Server)

def find (id : Topic) : Option Room := s.rooms.find? fun r => r.id = id

def put (room : Room) : Server :=
  { s with rooms := s.rooms.map fun r => if r.id = room.id then room else r }

def unlocked (id : Topic) : Option Room := do
  let r ← s.find id
  if r.pending = none then some r else none

/-- `GetOrCreate` of a room, within the limit on rooms. -/
def create (id : Topic) : Server :=
  if (s.find id).isSome ∨ (0 < s.maxRooms ∧ s.maxRooms ≤ s.rooms.length) then s
  else
    { s with rooms := s.rooms ++
        [⟨id, (RingBuffer.new s.bufferSize.toInt true).setMaxBytes s.bufferBytes, none⟩] }

/-- One atomic step; `none` if it has to wait for a lock, there is no such room or a call of the
ring panics. -/
def act : Action → Option Server
  | .create id => some (s.create id)
  | .take id msg => do
    let r ← s.unlocked id
    let (seq, counter) := r.ring.nextSeq s.seq
    let msg := { msg with roomId := id, seq := seq }
    some { s.put { r with pending := some msg } with seq := counter, history := s.history ++ [msg] }
  | .store id => do
    let r ← s.find id
    let msg ← r.pending
    let (_, _, ring) ← r.ring.pushSeq msg.seq msg
    some (s.put { r with ring := ring, pending := none })
  | .delete id msgId creatorId content => do
    let r ← s.unlocked id
    -- in a larger ring it can move the wrong messages, so there it is left out
    if r.ring.size ≤ 2 ^ 62 then
      let (_, ring) ← r.ring.delete msgId creatorId content
      some (s.put { r with ring := ring })
    else none
  | .evictOldest id => do
    let r ← s.unlocked id
    let (_, ring) ← r.ring.evictOldest
    some (s.put { r with ring := ring })

end Server

/-- A room is a queue of messages that took their numbers here; a message that
is still to be stored is newer than all of them. -/
structure Room.Sound (history : List Message) (r : Room) (q : Queue) : Prop where
  refines : r.ring.Refines q
  shared : q.shared = true
  increasing : q.items.Pairwise (·.seq < ·.seq)
  taken : ∀ m ∈ q.items, m ∈ history ∧ m.roomId = r.id
  pending_taken : ∀ m ∈ r.pending, m ∈ history ∧ m.roomId = r.id
  pending_newest : ∀ m ∈ r.pending, ∀ x ∈ q.items, x.seq < m.seq

namespace Server

structure Sound (s : Server) : Prop where
  ids : (s.rooms.map Room.id).Nodup
  rooms : ∀ r ∈ s.rooms, ∃ q, r.Sound s.history q
  increasing : s.history.Pairwise (·.seq < ·.seq)
  positive : ∀ m ∈ s.history, 0 < m.seq
  bounded : ∀ m ∈ s.history, m.seq ≤ s.seq
  nonneg : 0 ≤ s.seq
  housed : ∀ m ∈ s.history, ∃ r ∈ s.rooms, r.id = m.roomId

variable {s s' : Server} {id : Topic} {r room : Room}

theorem find_some (h : s.find id = some r) : r ∈ s.rooms ∧ r.id = id := by
  refine ⟨List.mem_of_find?_eq_some h, ?_⟩
  simpa using List.find?_some h

theorem find_of_mem (hids : (s.rooms.map Room.id).Nodup) (hr : r ∈ s.rooms) :
    s.find r.id = some r := by
  obtain ⟨found, hfound⟩ : ∃ found, s.find r.id = some found := by
    rw [← isSome_iff_exists, find, List.find?_isSome]
    exact ⟨r, hr, by simp⟩
  obtain ⟨hmem, hid⟩ := find_some hfound
  rw [hfound, inj_on_of_nodup_map hids hmem hr hid]

theorem unlocked_some (h : s.unlocked id = some r) : s.find id = some r ∧ r.pending = none := by
  simp only [unlocked, bind_eq_bind, bind_eq_some_iff] at h
  obtain ⟨found, hfound, hfree⟩ := h
  split at hfree <;> cases hfree
  rename_i hnone
  exact ⟨hfound, hnone⟩

@[simp] theorem ids_put (s : Server) (room : Room) :
    (s.put room).rooms.map Room.id = s.rooms.map Room.id := by
  rw [put, List.map_map]
  refine map_congr_left fun r _ => ?_
  simp only [Function.comp]
  split
  · rename_i hid
    exact hid.symm
  · rfl

theorem mem_put (h : r ∈ (s.put room).rooms) : r = room ∨ r ∈ s.rooms := by
  obtain ⟨old, hold, rfl⟩ := List.mem_map.mp h
  by_cases hid : old.id = room.id
  · rw [if_pos hid]
    exact Or.inl rfl
  · rw [if_neg hid]
    exact Or.inr hold

theorem exists_put (hr : r ∈ s.rooms) (room : Room) : ∃ r' ∈ (s.put room).rooms, r'.id = r.id := by
  have hids : r.id ∈ (s.put room).rooms.map Room.id := by
    rw [ids_put]
    exact List.mem_map_of_mem hr
  exact List.mem_map.mp hids

theorem find_put (s : Server) (room : Room) (id : Topic) :
    (s.put room).find id = (s.find id).map fun r => if r.id = room.id then room else r := by
  rw [find, put, List.find?_map]
  congr 2
  funext r
  simp only [Function.comp]
  split
  · rename_i hid
    rw [hid]
  · rfl

theorem find_put_of_ne (room : Room) (hid : id ≠ room.id) : (s.put room).find id = s.find id := by
  rw [find_put]
  cases hfound : s.find id with
  | none => rfl
  | some r =>
    have hrid := (find_some hfound).2
    rw [map_some, if_neg (by rwa [hrid])]

theorem find_put_self (room : Room) (hfound : s.find room.id = some r) :
    (s.put room).find room.id = some room := by
  rw [find_put, hfound, map_some, if_pos (find_some hfound).2]

namespace Sound

theorem new (bufferSize : Int64) (bufferBytes maxRooms : Int) :
    (new bufferSize bufferBytes maxRooms).Sound where
  ids := nodup_nil
  rooms _ hr := absurd hr not_mem_nil
  increasing := List.Pairwise.nil
  positive _ hm := absurd hm not_mem_nil
  bounded _ hm := absurd hm not_mem_nil
  nonneg := le_refl _
  housed _ hm := absurd hm not_mem_nil

theorem put (h : s.Sound) {q : Queue} (hroom : room.Sound s.history q) : (s.put room).Sound where
  ids := by rw [ids_put]; exact h.ids
  rooms r hr := by
    rcases mem_put hr with rfl | hold
    · exact ⟨q, hroom⟩
    · exact h.rooms r hold
  increasing := h.increasing
  positive := h.positive
  bounded := h.bounded
  nonneg := h.nonneg
  housed m hm := by
    obtain ⟨r, hr, hid⟩ := h.housed m hm
    obtain ⟨r', hr', hid'⟩ := exists_put hr room
    exact ⟨r', hr', hid'.trans hid⟩

theorem create (h : s.Sound) (id : Topic) : (s.create id).Sound := by
  rw [Server.create]
  split
  · exact h
  · rename_i hnew
    have habsent : ∀ r ∈ s.rooms, r.id ≠ id := by
      intro r hr hid
      apply hnew
      left
      rw [find, List.find?_isSome]
      exact ⟨r, hr, by simpa using hid⟩
    constructor
    · rw [map_append, nodup_append]
      refine ⟨h.ids, nodup_singleton _, ?_⟩
      intro x hx y hy heq
      obtain ⟨r, hr, rfl⟩ := List.mem_map.mp hx
      rw [map_singleton, mem_singleton] at hy
      exact habsent r hr (heq.trans hy)
    · intro r hr
      rcases mem_append.mp hr with hold | hlast
      · exact h.rooms r hold
      · rw [mem_singleton] at hlast
        subst hlast
        exact ⟨_, RingBuffer.new_refines s.bufferSize.toInt_lt s.bufferBytes true, rfl, List.Pairwise.nil,
          fun m hm => absurd hm not_mem_nil, fun m hm => by simp at hm,
          fun m hm => by simp at hm⟩
    · exact h.increasing
    · exact h.positive
    · exact h.bounded
    · exact h.nonneg
    · intro m hm
      obtain ⟨r, hr, hid⟩ := h.housed m hm
      exact ⟨r, mem_append_left _ hr, hid⟩

theorem take (h : s.Sound) (msg : Message) (hfound : s.find r.id = some r) :
    Sound { s.put { r with pending := some { msg with roomId := r.id, seq := s.seq + 1 } } with
      seq := s.seq + 1
      history := s.history ++ [{ msg with roomId := r.id, seq := s.seq + 1 }] } := by
  generalize hm : ({ msg with roomId := r.id, seq := s.seq + 1 } : Message) = m
  have hseq : m.seq = s.seq + 1 := by rw [← hm]
  have hid : m.roomId = r.id := by rw [← hm]
  have hnonneg := h.nonneg
  obtain ⟨hr, -⟩ := find_some hfound
  have hgrow : ∀ {room : Room} {q : Queue}, room.Sound s.history q →
      room.Sound (s.history ++ [m]) q := fun hroom =>
    { hroom with
      taken := fun x hx => ⟨mem_append_left _ (hroom.taken x hx).1, (hroom.taken x hx).2⟩
      pending_taken := fun x hx =>
        ⟨mem_append_left _ (hroom.pending_taken x hx).1, (hroom.pending_taken x hx).2⟩ }
  constructor
  · rw [ids_put]
    exact h.ids
  · intro room hroom
    rcases mem_put hroom with rfl | hold
    · obtain ⟨q, hq⟩ := h.rooms r hr
      refine ⟨q, { hgrow hq with pending_taken := ?_, pending_newest := ?_ }⟩
      · intro x hx
        obtain rfl : m = x := by simpa using hx
        exact ⟨by simp, hid⟩
      · intro x hx y hy
        obtain rfl : m = x := by simpa using hx
        have := h.bounded y (hq.taken y hy).1
        omega
    · obtain ⟨q, hq⟩ := h.rooms room hold
      exact ⟨q, hgrow hq⟩
  · refine pairwise_append.mpr ⟨h.increasing, pairwise_singleton _ _, ?_⟩
    intro x hx y hy
    obtain rfl : y = m := by simpa using hy
    have := h.bounded x hx
    omega
  · intro x hx
    rcases mem_append.mp hx with hold | hlast
    · exact h.positive x hold
    · obtain rfl : x = m := by simpa using hlast
      omega
  · intro x hx
    simp only
    rcases mem_append.mp hx with hold | hlast
    · have := h.bounded x hold
      omega
    · obtain rfl : x = m := by simpa using hlast
      omega
  · simp only
    omega
  · intro x hx
    rcases mem_append.mp hx with hold | hlast
    · obtain ⟨room, hroom, hroomId⟩ := h.housed x hold
      obtain ⟨room', hroom', hid'⟩ := exists_put hroom { r with pending := some m }
      exact ⟨room', hroom', hid'.trans hroomId⟩
    · obtain rfl : x = m := by simpa using hlast
      obtain ⟨room', hroom', hid'⟩ := exists_put hr { r with pending := some x }
      exact ⟨room', hroom', hid'.trans hid.symm⟩

end Sound

/-- What an action does to a sound server. -/
inductive Acts (s : Server) : Server → Prop where
  | create (id : Topic) : s.Acts (s.create id)
  | take {r : Room} (msg : Message) (found : s.find r.id = some r) (free : r.pending = none) :
      s.Acts { s.put { r with pending := some { msg with roomId := r.id, seq := s.seq + 1 } } with
        seq := s.seq + 1
        history := s.history ++ [{ msg with roomId := r.id, seq := s.seq + 1 }] }
  | store {r : Room} {q : Queue} {msg : Message} {ring : RingBuffer}
      (found : s.find r.id = some r) (sound : r.Sound s.history q) (held : r.pending = some msg)
      (pushed : ring.Refines (q.pushSeq msg.seq msg).2.2) :
      s.Acts (s.put { r with ring := ring, pending := none })
  | shrink {r : Room} {q q' : Queue} {ring : RingBuffer}
      (found : s.find r.id = some r) (sound : r.Sound s.history q) (free : r.pending = none)
      (refines : ring.Refines q') (fewer : List.Sublist q'.items q.items)
      (shared : q'.shared = q.shared) (lastSeq : q'.lastSeq = q.lastSeq) :
      s.Acts (s.put { r with ring := ring })

variable {m msg : Message}

theorem Sound.act_take (h : s.Sound) (hact : s.act (.take id msg) = some s') :
    ∃ r, s.find id = some r ∧ r.pending = none ∧
      s' = { s.put { r with pending := some { msg with roomId := id, seq := s.seq + 1 } } with
        seq := s.seq + 1
        history := s.history ++ [{ msg with roomId := id, seq := s.seq + 1 }] } := by
  simp only [act, bind_eq_bind, bind_eq_some_iff] at hact
  obtain ⟨r, hr, hact⟩ := hact
  obtain ⟨hfound, hfree⟩ := unlocked_some hr
  obtain ⟨q, hq⟩ := h.rooms r (find_some hfound).1
  have hshared : r.ring.shared = true := hq.refines.shared_eq.trans hq.shared
  rw [RingBuffer.nextSeq, if_pos hshared, some.injEq] at hact
  exact ⟨r, hfound, hfree, hact.symm⟩

theorem Sound.act_store (h : s.Sound) (hact : s.act (.store id) = some s') :
    ∃ r q msg ring, s.find id = some r ∧ r.Sound s.history q ∧ r.pending = some msg ∧
      ring.Refines (q.pushSeq msg.seq msg).2.2 ∧
      s' = s.put { r with ring := ring, pending := none } := by
  simp only [act, bind_eq_bind, bind_eq_some_iff] at hact
  obtain ⟨r, hfound, msg, hheld, pushed, hpush, hact⟩ := hact
  obtain ⟨hmem, rfl⟩ := find_some hfound
  obtain ⟨q, hq⟩ := h.rooms r hmem
  rcases hq.refines.pushSeq msg.seq msg with ⟨hpanic, -⟩ | ⟨ring, hring, hrefines⟩
  · cases hpanic.symm.trans hpush
  · rw [hring, some.injEq] at hpush
    subst hpush
    rw [some.injEq] at hact
    exact ⟨r, q, msg, ring, hfound, hq, hheld, hrefines, hact.symm⟩

theorem Sound.acts {a : Action} (h : s.Sound) (hact : s.act a = some s') : s.Acts s' := by
  cases a with
  | create id =>
    rw [act, some.injEq] at hact
    subst hact
    exact .create id
  | take id msg =>
    obtain ⟨r, hfound, hfree, rfl⟩ := h.act_take hact
    obtain ⟨-, rfl⟩ := find_some hfound
    exact .take msg hfound hfree
  | store id =>
    obtain ⟨r, q, msg, ring, hfound, hq, hheld, hrefines, rfl⟩ := h.act_store hact
    obtain ⟨-, rfl⟩ := find_some hfound
    exact .store hfound hq hheld hrefines
  | delete id msgId creatorId content =>
    simp only [act, bind_eq_bind, bind_eq_some_iff] at hact
    obtain ⟨r, hr, hact⟩ := hact
    obtain ⟨hfound, hfree⟩ := unlocked_some hr
    obtain ⟨hmem, rfl⟩ := find_some hfound
    obtain ⟨q, hq⟩ := h.rooms r hmem
    split at hact
    · rename_i small
      obtain ⟨ring, hring, hrefines⟩ := hq.refines.delete small msgId creatorId content
      rw [hring, bind_some, some.injEq] at hact
      subst hact
      exact .shrink hfound hq hfree hrefines eraseP_sublist rfl rfl
    · cases hact
  | evictOldest id =>
    simp only [act, bind_eq_bind, bind_eq_some_iff] at hact
    obtain ⟨r, hr, evicted, hevict, hact⟩ := hact
    obtain ⟨hfound, hfree⟩ := unlocked_some hr
    obtain ⟨hmem, rfl⟩ := find_some hfound
    obtain ⟨q, hq⟩ := h.rooms r hmem
    rcases hq.refines.evictOldest with ⟨hpanic, -⟩ | ⟨ring, hring, hrefines⟩
    · cases hpanic.symm.trans hevict
    · rw [hring, some.injEq] at hevict
      subst hevict
      cases hact
      exact .shrink hfound hq hfree hrefines (tail_sublist _) rfl rfl

theorem Acts.history (h : s.Acts s') : (s'.seq = s.seq ∧ s'.history = s.history) ∨
      ∃ m, s'.seq = s.seq + 1 ∧ m.seq = s.seq + 1 ∧ s'.history = s.history ++ [m] := by
  cases h with
  | create id =>
    left
    rw [Server.create]
    split <;> exact ⟨rfl, rfl⟩
  | take msg found free => exact Or.inr ⟨_, rfl, rfl, rfl⟩
  | store found sound held pushed => exact Or.inl ⟨rfl, rfl⟩
  | shrink found sound free refines fewer shared lastSeq => exact Or.inl ⟨rfl, rfl⟩

theorem Acts.seq_le (h : s.Acts s') : s.seq ≤ s'.seq := by
  rcases h.history with ⟨hseq, -⟩ | ⟨m, hseq, -, -⟩ <;> omega

theorem Acts.mem_history (h : s.Acts s') (hm : m ∈ s.history) : m ∈ s'.history := by
  rcases h.history with ⟨-, heq⟩ | ⟨m', -, -, heq⟩
  · rwa [heq]
  · rw [heq]
    exact mem_append_left _ hm

theorem Acts.new_message (h : s.Acts s') (hm : m ∈ s'.history) : m ∈ s.history ∨ s.seq < m.seq := by
  rcases h.history with ⟨-, heq⟩ | ⟨m', -, hseq, heq⟩
  · rw [heq] at hm
    exact Or.inl hm
  · rw [heq] at hm
    rcases mem_append.mp hm with hold | hlast
    · exact Or.inl hold
    · obtain rfl : m = m' := by simpa using hlast
      right
      omega

theorem Sound.eq_of_seq (h : s.Sound) {m' : Message} (hm : m ∈ s.history) (hm' : m' ∈ s.history)
    (heq : m.seq = m'.seq) : m = m' := by
  have hnodup : (s.history.map Message.seq).Nodup :=
    (pairwise_map.mpr h.increasing).imp fun hlt => ne_of_lt hlt
  exact inj_on_of_nodup_map hnodup hm hm' heq

variable {ring : RingBuffer}

theorem Sound.store {q : Queue} (h : s.Sound) (hq : r.Sound s.history q)
    (hheld : r.pending = some msg) (hpushed : ring.Refines (q.pushSeq msg.seq msg).2.2) :
    (s.put { r with ring := ring, pending := none }).Sound := by
  have hsuffix := (Queue.pushSeq_suffix msg.seq msg q).sublist
  refine h.put
    { refines := hpushed
      shared := hq.shared
      increasing := ?_
      taken := ?_
      pending_taken := ?_
      pending_newest := ?_ }
  · refine List.Pairwise.sublist hsuffix (pairwise_append.mpr
      ⟨hq.increasing, pairwise_singleton _ _, ?_⟩)
    intro x hx y hy
    obtain rfl : y = msg := by simpa using hy
    exact hq.pending_newest y (by simp [hheld]) x hx
  · intro x hx
    rcases mem_append.mp (hsuffix.mem hx) with hold | hlast
    · exact hq.taken x hold
    · obtain rfl : x = msg := by simpa using hlast
      exact hq.pending_taken x (by simp [hheld])
  · intro x hx
    simp at hx
  · intro x hx
    simp at hx

theorem Sound.shrink {q q' : Queue} (h : s.Sound) (hq : r.Sound s.history q)
    (hrefines : ring.Refines q') (hfewer : List.Sublist q'.items q.items)
    (hshared : q'.shared = q.shared) : (s.put { r with ring := ring }).Sound :=
  h.put
    { refines := hrefines
      shared := hshared.trans hq.shared
      increasing := hq.increasing.sublist hfewer
      taken := fun x hx => hq.taken x (hfewer.mem hx)
      pending_taken := hq.pending_taken
      pending_newest := fun x hx y hy => hq.pending_newest x hx y (hfewer.mem hy) }

theorem Sound.step {a : Action} (h : s.Sound) (hact : s.act a = some s') : s'.Sound := by
  cases h.acts hact with
  | create id => exact h.create id
  | take msg found free => exact h.take msg found
  | store found sound held pushed => exact h.store sound held pushed
  | shrink found sound free refines fewer shared lastSeq => exact h.shrink sound refines fewer shared

end Server

end Unheaded.Wotan
