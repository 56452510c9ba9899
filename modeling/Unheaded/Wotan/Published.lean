import Unheaded.Wotan.Server

/-!
# The messages of one topic

The messages whose push has come to its end, in the order of their numbers.
-/

namespace Unheaded.Wotan

open List Option Queue

variable (msgs : List Message)

def lastSeqOf : Int := msgs.getLast?.elim 0 Message.seq

@[simp] theorem lastSeqOf_nil : lastSeqOf [] = 0 := rfl

@[simp] theorem lastSeqOf_concat (m : Message) : lastSeqOf (msgs ++ [m]) = m.seq := by
  simp [lastSeqOf]

theorem lastSeqOf_cases :
    (msgs = [] ∧ lastSeqOf msgs = 0) ∨ ∃ m ∈ msgs, lastSeqOf msgs = m.seq := by
  cases hlast : msgs.getLast? with
  | none => exact Or.inl ⟨List.getLast?_eq_none_iff.mp hlast, by rw [lastSeqOf, hlast]; rfl⟩
  | some m => exact Or.inr ⟨m, List.mem_of_getLast? hlast, by rw [lastSeqOf, hlast]; rfl⟩

theorem le_lastSeqOf {msgs : List Message} (hincr : msgs.Pairwise fun a b => a.seq < b.seq)
    {m : Message} (hm : m ∈ msgs) : m.seq ≤ lastSeqOf msgs := by
  induction msgs using List.reverseRecOn with
  | nil => exact absurd hm not_mem_nil
  | append_singleton msgs last _ =>
    rw [lastSeqOf_concat]
    rcases mem_append.mp hm with hold | hlast
    · exact ((pairwise_append.mp hincr).2.2 m hold last (by simp)).le
    · obtain rfl : m = last := by simpa using hlast
      exact le_refl _

theorem lastSeqOf_mono {msgs more : List Message} (hfirst : msgs <+: more)
    (hincr : more.Pairwise fun a b => a.seq < b.seq) (hpos : ∀ m ∈ more, 0 < m.seq) :
    lastSeqOf msgs ≤ lastSeqOf more := by
  rcases lastSeqOf_cases msgs with ⟨-, hzero⟩ | ⟨m, hm, heq⟩
  · rw [hzero]
    rcases lastSeqOf_cases more with ⟨-, hzero'⟩ | ⟨m, hm, heq⟩
    · exact hzero'.ge
    · rw [heq]
      exact (hpos m hm).le
  · rw [heq]
    exact le_lastSeqOf hincr (hfirst.subset hm)

theorem above_lastSeqOf {msgs rest : List Message}
    (hincr : (msgs ++ rest).Pairwise fun a b => a.seq < b.seq)
    (hpos : ∀ m ∈ msgs ++ rest, 0 < m.seq) :
    above (lastSeqOf msgs) (msgs ++ rest) = rest := by
  obtain ⟨hfirst, -, hacross⟩ := pairwise_append.mp hincr
  have hold : msgs.filter (fun m => decide (lastSeqOf msgs < m.seq)) = [] := by
    rw [filter_eq_nil_iff]
    intro m hm
    have := le_lastSeqOf hfirst hm
    simpa using this
  have hnew : rest.filter (fun m => decide (lastSeqOf msgs < m.seq)) = rest := by
    rw [filter_eq_self]
    intro m hm
    rw [decide_eq_true_eq]
    rcases lastSeqOf_cases msgs with ⟨-, hzero⟩ | ⟨last, hlast, heq⟩
    · rw [hzero]
      exact hpos m (mem_append_right _ hm)
    · rw [heq]
      exact hacross last hlast m hm
  rw [above, filter_append, hold, hnew, nil_append]

namespace Server

variable {s s' : Server} {topic : Topic} {r room : Room} {m : Message}

def taken (s : Server) (topic : Topic) : List Message :=
  s.history.filter fun m => decide (m.roomId = topic)

def pendingOf (s : Server) (topic : Topic) : Option Message := (s.find topic).bind Room.pending

def published (s : Server) (topic : Topic) : List Message :=
  match s.pendingOf topic with
  | none => s.taken topic
  | some _ => (s.taken topic).dropLast

theorem published_of_free (h : s.pendingOf topic = none) : s.published topic = s.taken topic := by
  rw [published, h]

theorem published_of_held (h : s.pendingOf topic = some m) :
    s.published topic = (s.taken topic).dropLast := by
  rw [published, h]

theorem published_sublist (s : Server) (topic : Topic) :
    List.Sublist (s.published topic) s.history := by
  rw [published]
  split
  · exact filter_sublist
  · exact (dropLast_sublist _).trans filter_sublist

theorem Sound.published_increasing (h : s.Sound) (topic : Topic) :
    (s.published topic).Pairwise fun a b => a.seq < b.seq :=
  h.increasing.sublist (s.published_sublist topic)

theorem Sound.published_pos (h : s.Sound) (hm : m ∈ s.published topic) : 0 < m.seq :=
  h.positive m ((s.published_sublist topic).mem hm)

theorem Sound.taken_of_absent (h : s.Sound) (habsent : s.find topic = none) :
    s.taken topic = [] := by
  rw [taken, filter_eq_nil_iff]
  intro m hm hid
  obtain ⟨r, hr, hrid⟩ := h.housed m hm
  have hfound := find_of_mem h.ids hr
  simp [hrid, of_decide_eq_true hid, habsent] at hfound

/-- The pending message is the last that took a number, and the ring knows the
number of the last one stored. -/
structure Tracks (topic : Topic) (s : Server) : Prop where
  pending_last : ∀ p ∈ s.pendingOf topic, (s.taken topic).getLast? = some p
  last_eq : ∀ r ∈ s.find topic, r.ring.lastSeq = lastSeqOf (s.published topic)

theorem Tracks.new (bufferSize : Int64) (bufferBytes maxRooms : Int) (topic : Topic) :
    Tracks topic (Server.new bufferSize bufferBytes maxRooms) where
  pending_last p hp := by simp [pendingOf, find, Server.new] at hp
  last_eq r hr := by simp [find, Server.new] at hr

/-- Nothing about the topic has changed. -/
structure SameTopic (topic : Topic) (s s' : Server) : Prop where
  taken_eq : s'.taken topic = s.taken topic
  pending_eq : s'.pendingOf topic = s.pendingOf topic

theorem SameTopic.published_eq (h : SameTopic topic s s') :
    s'.published topic = s.published topic := by
  rw [published, published, h.pending_eq, h.taken_eq]

theorem find_create (s : Server) (id topic : Topic) : (s.create id).find topic = s.find topic ∨
      (s.find topic = none ∧ (s.create id).find topic =
        some ⟨topic, (RingBuffer.new s.bufferSize.toInt true).setMaxBytes s.bufferBytes, none⟩) := by
  rw [create]
  split
  · exact Or.inl rfl
  · simp only [find, List.find?_append]
    cases hold : s.rooms.find? fun r => decide (r.id = topic) with
    | some r => exact Or.inl rfl
    | none =>
      by_cases hid : id = topic
      · subst hid
        exact Or.inr ⟨rfl, by simp⟩
      · exact Or.inl (by simp [hid])

theorem create_sameTopic (s : Server) (id topic : Topic) : SameTopic topic s (s.create id) := by
  constructor
  · rw [create]
    split <;> rfl
  · rcases find_create s id topic with heq | ⟨hnone, hnew⟩
    · rw [pendingOf, pendingOf, heq]
    · rw [pendingOf, pendingOf, hnone, hnew]
      rfl

theorem put_sameTopic (room : Room) (hid : topic ≠ room.id) : SameTopic topic s (s.put room) where
  taken_eq := rfl
  pending_eq := by rw [pendingOf, pendingOf, find_put_of_ne room hid]

theorem pendingOf_put (room : Room) (hfound : s.find room.id = some r) :
    (s.put room).pendingOf room.id = room.pending := by
  rw [pendingOf, find_put_self room hfound]
  rfl

theorem pendingOf_of_find (hfound : s.find topic = some r) : s.pendingOf topic = r.pending := by
  rw [pendingOf, hfound]
  rfl

theorem Tracks.of_same (h : Tracks topic s) (hsame : SameTopic topic s s')
    (hroom : ∀ r' ∈ s'.find topic, ∃ r ∈ s.find topic, r'.ring.lastSeq = r.ring.lastSeq) :
    Tracks topic s' where
  pending_last p hp := by
    rw [hsame.pending_eq] at hp
    rw [hsame.taken_eq]
    exact h.pending_last p hp
  last_eq r' hr' := by
    obtain ⟨r, hr, heq⟩ := hroom r' hr'
    rw [heq, hsame.published_eq]
    exact h.last_eq r hr

theorem Tracks.create (hs : s.Sound) (h : Tracks topic s) (id : Topic) :
    Tracks topic (s.create id) := by
  have hsame := create_sameTopic s id topic
  rcases find_create s id topic with heq | ⟨hnone, hnew⟩
  · exact h.of_same hsame fun r hr => ⟨r, heq ▸ hr, rfl⟩
  · -- a new room has stored nothing
    have hempty : s.published topic = [] := by
      rw [published_of_free (by rw [pendingOf, hnone]; rfl), hs.taken_of_absent hnone]
    constructor
    · intro p hp
      rw [hsame.pending_eq, pendingOf, hnone] at hp
      simp at hp
    · intro r hr
      rw [hnew, mem_some_iff] at hr
      rw [hsame.published_eq, hempty, ← hr]
      rfl

theorem Tracks.take (h : Tracks topic s) (hfound : s.find r.id = some r) (hfree : r.pending = none)
    (hm : m.roomId = r.id) (seq : Int) :
    Tracks topic { s.put { r with pending := some m } with seq := seq, history := s.history ++ [m] } ∧
      published { s.put { r with pending := some m } with seq := seq, history := s.history ++ [m] }
        topic = s.published topic := by
  generalize hs' : ({ s.put { r with pending := some m } with
    seq := seq, history := s.history ++ [m] } : Server) = s'
  have hfind : ∀ id, s'.find id = (s.put { r with pending := some m }).find id := by
    intro id
    rw [← hs']
    rfl
  have htaken : s'.taken topic = s.taken topic ++ [m].filter fun m => decide (m.roomId = topic) := by
    rw [← hs']
    exact filter_append _ _
  by_cases hid : topic = r.id
  · subst hid
    have hpending : s'.pendingOf r.id = some m := by
      rw [pendingOf, hfind]
      exact pendingOf_put { r with pending := some m } hfound
    have hnew : s'.taken r.id = s.taken r.id ++ [m] := by
      rw [htaken, filter_cons_of_pos (by simpa using hm)]
      rfl
    have hpublished : s'.published r.id = s.published r.id := by
      rw [published_of_held hpending, hnew, dropLast_concat,
        published_of_free (by rw [pendingOf_of_find hfound, hfree])]
    refine ⟨⟨?_, ?_⟩, hpublished⟩
    · intro p hp
      rw [hpending, mem_some_iff] at hp
      rw [hnew, hp, List.getLast?_concat]
    · intro r' hr'
      have hself := find_put_self { r with pending := some m } hfound
      rw [hfind, hself, mem_some_iff] at hr'
      rw [hpublished, ← hr']
      exact h.last_eq r hfound
  · have hsame : SameTopic topic s s' := by
      constructor
      · rw [htaken, filter_cons_of_neg (by simpa [hm] using fun heq : r.id = topic => hid heq.symm)]
        simp
      · rw [pendingOf, hfind]
        exact (put_sameTopic { r with pending := some m } hid).pending_eq
    refine ⟨h.of_same hsame fun r' hr' => ⟨r', ?_, rfl⟩, hsame.published_eq⟩
    rw [hfind, find_put_of_ne { r with pending := some m } hid] at hr'
    exact hr'

theorem Tracks.store {ring : RingBuffer} (h : Tracks topic s) (hfound : s.find r.id = some r)
    (hheld : r.pending = some m) (hlast : ring.lastSeq = m.seq) :
    Tracks topic (s.put { r with ring := ring, pending := none }) ∧
      (s.put { r with ring := ring, pending := none }).published topic =
        s.published topic ++ if topic = r.id then [m] else [] := by
  by_cases hid : topic = r.id
  · subst hid
    have hpending : (s.put { r with ring := ring, pending := none }).pendingOf r.id = none :=
      pendingOf_put { r with ring := ring, pending := none } hfound
    have hheld' : s.pendingOf r.id = some m := by rw [pendingOf_of_find hfound, hheld]
    have hpublished : (s.put { r with ring := ring, pending := none }).published r.id =
        s.published r.id ++ [m] := by
      rw [published_of_free hpending, published_of_held hheld']
      exact (dropLast_append_getLast? m (h.pending_last m hheld')).symm
    rw [if_pos rfl]
    refine ⟨⟨?_, ?_⟩, hpublished⟩
    · intro p hp
      rw [hpending] at hp
      simp at hp
    · intro r' hr'
      have hself := find_put_self { r with ring := ring, pending := none } hfound
      rw [hself, mem_some_iff] at hr'
      rw [hpublished, lastSeqOf_concat, ← hr']
      exact hlast
  · rw [if_neg hid, append_nil]
    have hsame := put_sameTopic (s := s) { r with ring := ring, pending := none } hid
    refine ⟨h.of_same hsame fun r' hr' => ⟨r', ?_, rfl⟩, hsame.published_eq⟩
    rw [find_put_of_ne { r with ring := ring, pending := none } hid] at hr'
    exact hr'

theorem Tracks.shrink {ring : RingBuffer} (h : Tracks topic s) (hfound : s.find r.id = some r)
    (hlast : ring.lastSeq = r.ring.lastSeq) :
    Tracks topic (s.put { r with ring := ring }) ∧
      (s.put { r with ring := ring }).published topic = s.published topic := by
  have hsame : SameTopic topic s (s.put { r with ring := ring }) := by
    refine ⟨rfl, ?_⟩
    by_cases hid : topic = r.id
    · subst hid
      rw [pendingOf_put { r with ring := ring } hfound, pendingOf_of_find hfound]
    · exact (put_sameTopic { r with ring := ring } hid).pending_eq
  refine ⟨h.of_same hsame fun r' hr' => ?_, hsame.published_eq⟩
  by_cases hid : topic = r.id
  · subst hid
    have hself := find_put_self { r with ring := ring } hfound
    rw [hself, mem_some_iff] at hr'
    exact ⟨r, hfound, by rw [← hr']; exact hlast⟩
  · rw [find_put_of_ne { r with ring := ring } hid] at hr'
    exact ⟨r', hr', rfl⟩

theorem Acts.new_pending (h : s.Acts s') {p : Message} (hp : p ∈ s'.pendingOf topic) :
    p ∈ s.pendingOf topic ∨ s.seq < p.seq := by
  cases h with
  | create id =>
    rw [(create_sameTopic s id topic).pending_eq] at hp
    exact Or.inl hp
  | @take r msg found free =>
    generalize hm : ({ msg with roomId := r.id, seq := s.seq + 1 } : Message) = m at hp
    have hput : p ∈ (s.put { r with pending := some m }).pendingOf topic := hp
    by_cases hid : topic = r.id
    · subst hid
      rw [pendingOf_put { r with pending := some m } found, mem_some_iff] at hput
      right
      rw [← hput, ← hm]
      exact lt_add_one s.seq
    · rw [(put_sameTopic { r with pending := some m } hid).pending_eq] at hput
      exact Or.inl hput
  | @store r q msg ring found sound held pushed =>
    by_cases hid : topic = r.id
    · subst hid
      rw [pendingOf_put { r with ring := ring, pending := none } found] at hp
      simp at hp
    · rw [(put_sameTopic { r with ring := ring, pending := none } hid).pending_eq] at hp
      exact Or.inl hp
  | @shrink r q q' ring found sound free refines fewer shared lastSeq =>
    by_cases hid : topic = r.id
    · subst hid
      rw [pendingOf_put { r with ring := ring } found] at hp
      rw [pendingOf_of_find found]
      exact Or.inl hp
    · rw [(put_sameTopic { r with ring := ring } hid).pending_eq] at hp
      exact Or.inl hp

theorem Tracks.acts (hs : s.Sound) (h : Tracks topic s) (hacts : s.Acts s') :
    Tracks topic s' ∧ ∃ new, s'.published topic = s.published topic ++ new ∧ new.length ≤ 1 := by
  cases hacts with
  | create id =>
    exact ⟨h.create hs id, [], by rw [(create_sameTopic s id topic).published_eq]; simp, by simp⟩
  | @take r msg found free =>
    obtain ⟨htracks, heq⟩ := h.take (m := { msg with roomId := r.id, seq := s.seq + 1 }) found free
      rfl (s.seq + 1)
    exact ⟨htracks, [], by rw [append_nil]; exact heq, by simp⟩
  | store found sound held pushed =>
    obtain ⟨htracks, heq⟩ := h.store found held pushed.lastSeq_eq
    refine ⟨htracks, _, heq, ?_⟩
    split <;> simp
  | shrink found sound free refines fewer shared lastSeq =>
    obtain ⟨htracks, heq⟩ := h.shrink found
      (refines.lastSeq_eq.trans (lastSeq.trans sound.refines.lastSeq_eq.symm))
    exact ⟨htracks, [], by rw [append_nil]; exact heq, by simp⟩

theorem above_items {q : Queue} (hs : s.Sound) (hroom : s.find topic = some r)
    (hfree : r.pending = none) (hq : r.Sound s.history q) (after : Int)
    (hkept : ∀ m ∈ s.published topic, after < m.seq → ∃ held ∈ r.ring.get, some m ∈ held) :
    above after q.items = above after (s.published topic) := by
  have hpublished := published_of_free (pendingOf_of_find hroom ▸ hfree)
  have hid := (find_some hroom).2
  have hincr : (above after (s.published topic)).Pairwise fun a b => a.seq < b.seq :=
    (hs.published_increasing topic).sublist filter_sublist
  have hincr' : (above after q.items).Pairwise fun a b => a.seq < b.seq :=
    hq.increasing.sublist filter_sublist
  have hnodup : ∀ {msgs : List Message}, (msgs.Pairwise fun a b => a.seq < b.seq) → msgs.Nodup :=
    fun h => h.imp fun hlt heq => by rw [heq] at hlt; exact lt_irrefl _ hlt
  have hperm : (above after q.items).Perm (above after (s.published topic)) := by
    rw [perm_ext_iff_of_nodup (hnodup hincr') (hnodup hincr)]
    intro m
    rw [above, above, mem_filter, mem_filter]
    constructor
    · rintro ⟨hm, habove⟩
      obtain ⟨hmem, hmid⟩ := hq.taken m hm
      rw [hpublished, taken, mem_filter]
      exact ⟨⟨hmem, by simpa using hmid.trans hid⟩, habove⟩
    · rintro ⟨hm, habove⟩
      obtain ⟨held, hget, hheld⟩ := hkept m hm (of_decide_eq_true habove)
      rw [hq.refines.get_eq hget] at hheld
      exact ⟨by simpa using hheld, habove⟩
  exact hperm.eq_of_pairwise (fun a b _ _ hab hba => absurd hab (lt_asymm hba)) hincr' hincr

end Server

end Unheaded.Wotan
