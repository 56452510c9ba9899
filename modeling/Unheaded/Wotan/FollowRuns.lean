import Unheaded.Wotan.Follow

/-!
# Runs of a follower

As long as the first page after every restart lets the client tell, what it
delivers of the running server is a first part of what was published, each
message once and in order, and every poll brings it further.
-/

namespace Unheaded.Wotan

open Lib List Polling Follower Queue

namespace Follower

variable {topic : Topic} {s s' : Follower} {e : FollowEvent}

theorem Sound.published_pos (h : Sound topic s) :
    ∀ m ∈ s.server.published topic, 0 < m.seq := fun _ hm => h.server.published_pos hm

theorem Sound.current_first (h : Sound topic s) : s.current <+: s.server.published topic := by
  cases hfresh : s.fresh with
  | true => exact (h.fresh hfresh).1
  | false =>
    rw [h.stale hfresh]
    exact nil_prefix

theorem Sound.new (bufferSize : Int64) (bufferBytes maxRooms cursor : Int) (topic : Topic) :
    Sound topic (new bufferSize bufferBytes maxRooms cursor) where
  server := Server.Sound.new bufferSize bufferBytes maxRooms
  tracks := Server.Tracks.new bufferSize bufferBytes maxRooms topic
  epochs _ hd := absurd hd not_mem_nil
  stale _ := rfl
  fresh h := absurd h (by simp [Follower.new])
  poll := trivial

theorem Sound.act {server : Server} (h : Sound topic s) (hserver : server.Sound)
    (htracks : server.Tracks topic) (hgrow : s.server.published topic <+: server.published topic) :
    Sound topic { s with server := server } where
  server := hserver
  tracks := htracks
  epochs := h.epochs
  stale := h.stale
  fresh hfresh := ⟨(h.fresh hfresh).1.trans hgrow, (h.fresh hfresh).2⟩
  poll := by
    have hpoll := h.poll
    cases hcase : s.poll with
    | idle => trivial
    | lastRead last =>
      rw [hcase] at hpoll
      exact ⟨hpoll.1.trans (lastSeqOf_mono hgrow (hserver.published_increasing topic)
        fun m hm => hserver.published_pos hm), hpoll.2⟩
    | replied epoch msgs last =>
      rw [hcase] at hpoll
      refine ⟨hpoll.1, hpoll.2.1, fun hnow => ?_⟩
      have hreply := hpoll.2.2 hnow
      exact ⟨hreply.next.trans hgrow, hreply.above, hreply.empty⟩

theorem Sound.restart (h : Sound topic s) : Sound topic { s with
      server := .new s.server.bufferSize s.server.bufferBytes s.server.maxRooms
      epoch := s.epoch + 1
      poll := s.poll.survives
      fresh := false } where
  server := Server.Sound.new _ _ _
  tracks := Server.Tracks.new _ _ _ topic
  epochs d hd := Nat.le_succ_of_le (h.epochs d hd)
  stale _ := by
    rw [current, map_eq_nil_iff, filter_eq_nil_iff]
    intro d hd
    have := h.epochs d hd
    simp only [decide_eq_true_eq]
    omega
  fresh hfresh := absurd hfresh (by simp)
  poll := by
    have hpoll := h.poll
    cases hcase : s.poll with
    | idle => trivial
    | lastRead last => trivial
    | replied epoch msgs last =>
      rw [hcase] at hpoll
      exact ⟨Nat.le_succ_of_le hpoll.1, fun _ => rfl, fun hnow => absurd hnow (by
        have := hpoll.1
        simp only
        omega)⟩

theorem Sound.absent (h : Sound topic s) (hnonneg : 0 ≤ s.cursor)
    (hmissing : s.server.find topic = none) :
    Sound topic { s with poll := .replied s.epoch [] 0 } := by
  have hnone : s.server.published topic = [] := by
    rw [Server.published_of_free (by rw [Server.pendingOf, hmissing]; rfl),
      h.server.taken_of_absent hmissing]
  have hcurrent : s.current = [] := prefix_nil.mp (hnone ▸ h.current_first)
  refine { h with poll := ⟨le_refl _, fun hlt => absurd hlt (lt_irrefl _), fun _ => ⟨?_, ?_, ?_⟩⟩ }
  · rw [append_nil]
    exact h.current_first
  · intro m hm
    exact absurd hm not_mem_nil
  · intro _
    have hzero : lastSeqOf (current { s with poll := .replied s.epoch [] 0 }) = 0 := by
      rw [show current { s with poll := .replied s.epoch [] 0 } = s.current from rfl, hcurrent]
      rfl
    rw [hzero, nextCursor]
    split
    · rfl
    · simp only at *
      omega

variable {r : Room}

theorem Sound.readLast (h : Sound topic s) (hroom : s.server.find topic = some r) :
    Sound topic { s with poll := .lastRead r.ring.lastSeq } := by
  have hlast := h.tracks.last_eq r hroom
  refine { h with poll := ⟨hlast.le, fun hfresh => ?_⟩ }
  obtain ⟨hfirst, hcursor⟩ := h.fresh hfresh
  rw [hcursor, hlast]
  exact lastSeqOf_mono hfirst (h.server.published_increasing topic) h.published_pos

variable {last : Int}

theorem continues_of_fresh (h : Sound topic s) (hfresh : s.fresh = true) (hlast : s.cursor ≤ last)
    (limit : Nat) :
    Continues topic s ((above s.cursor (s.server.published topic)).take limit) last := by
  obtain ⟨⟨rest, hrest⟩, hcursor⟩ := h.fresh hfresh
  have hincr := h.server.published_increasing topic
  have hpos := h.published_pos
  rw [← hrest] at hincr hpos
  have habove : above s.cursor (s.server.published topic) = rest := by
    rw [← hrest, hcursor]
    exact above_lastSeqOf hincr hpos
  have hsame : nextCursor s.cursor last = s.cursor := by rw [nextCursor, if_neg (not_lt.mpr hlast)]
  refine ⟨?_, ?_, ?_⟩
  · rw [habove, ← hrest]
    exact (prefix_append_right_inj _).mpr <| take_prefix _ _
  · intro m hm
    rw [hsame]
    have hmem := mem_of_mem_take hm
    exact of_decide_eq_true (mem_filter.mp hmem).2
  · intro _
    rw [hsame, hcursor]

theorem continues_of_stale (h : Sound topic s) (hstale : s.fresh = false) (hnonneg : 0 ≤ s.cursor)
    (hlast : last ≤ lastSeqOf (s.server.published topic))
    (htelling : (∀ m ∈ s.server.published topic, s.cursor < m.seq) ∨
      (last < s.cursor ∧ ∀ m ∈ s.server.published topic, m.seq ≤ s.cursor))
    {limit : Nat} (hlimit : 0 < limit) :
    Continues topic s ((above s.cursor (s.server.published topic)).take limit) last := by
  have hcurrent := h.stale hstale
  rcases htelling with hall | ⟨hrewind, hnone⟩
  · -- all are above the cursor: whether it goes to 0 or not, all are delivered
    have habove : above s.cursor (s.server.published topic) = s.server.published topic := by
      rw [above, filter_eq_self]
      intro m hm
      simpa using hall m hm
    rw [habove]
    refine ⟨?_, ?_, ?_⟩
    · rw [hcurrent]
      exact take_prefix _ _
    · intro m hm
      have hmem := mem_of_mem_take hm
      rw [nextCursor]
      split
      · exact h.published_pos m hmem
      · exact hall m hmem
    · intro hempty
      have hnil : s.server.published topic = [] := by
        rcases take_eq_nil_iff.mp hempty with hzero | hnil
        · omega
        · exact hnil
      rw [hnil, lastSeqOf_nil] at hlast
      rw [hcurrent, lastSeqOf_nil, nextCursor]
      split <;> omega
  · -- none is above it: the page is empty and the cursor goes to 0
    have habove : above s.cursor (s.server.published topic) = [] := by
      rw [above, filter_eq_nil_iff]
      intro m hm
      simpa using hnone m hm
    have hzero : nextCursor s.cursor last = 0 := by rw [nextCursor, if_pos hrewind]
    rw [habove, take_nil]
    refine ⟨?_, ?_, ?_⟩
    · rw [hcurrent]
      exact nil_prefix
    · intro m hm
      exact absurd hm not_mem_nil
    · intro _
      rw [hcurrent, hzero]
      rfl

variable {msgs : List Message}

theorem page_eq (h : Sound topic s) (hroom : s.server.find topic = some r)
    (hfree : r.pending = none) (hkept : KeptAt topic s .fetch)
    (hpage : r.ring.getAfter s.cursor pollPageSize = some msgs) :
    msgs = (above s.cursor (s.server.published topic)).take 100 := by
  obtain ⟨q, hq⟩ := h.server.rooms r (Server.find_some hroom).1
  have hitems := Server.above_items h.server hroom hfree hq s.cursor (hkept r hroom)
  rw [hq.refines.getAfter_eq hpage, getAfter, hitems]
  rfl

theorem Sound.fetch (h : Sound topic s) (hread : s.poll = .lastRead last)
    (hroom : s.server.find topic = some r) (hfree : r.pending = none) (hnonneg : 0 ≤ s.cursor)
    (hpage : r.ring.getAfter s.cursor pollPageSize = some msgs) (hkept : KeptAt topic s .fetch)
    (htelling : Telling topic s .fetch) :
    Sound topic { s with poll := .replied s.epoch msgs last } := by
  have hpoll := h.poll
  rw [hread] at hpoll
  have hreply : Continues topic s msgs last := by
    rw [page_eq h hroom hfree hkept hpage]
    cases hfresh : s.fresh with
    | true => exact continues_of_fresh h hfresh (hpoll.2 hfresh) 100
    | false =>
      have hmem : last ∈ s.poll.last? := by rw [hread]; rfl
      exact continues_of_stale h hfresh hnonneg hpoll.1 (htelling hfresh last hmem) (by omega)
  exact { h with poll := ⟨le_refl _, fun hlt => absurd hlt (lt_irrefl _), fun _ =>
    ⟨hreply.next, hreply.above, hreply.empty⟩⟩ }

theorem current_receive (s : Follower) (cursor : Int) (fresh : Bool) (epoch : Nat)
    (sent : List Message) :
    current { s with
      cursor := cursor
      poll := .idle
      fresh := fresh
      delivered := s.delivered ++ sent.map fun m => (epoch, m) } =
    s.current ++ if epoch = s.epoch then sent else [] := by
  rw [current, filter_append, map_append]
  congr 1
  split
  · rename_i heq
    rw [filter_eq_self.mpr, List.map_map]
    · exact List.map_id _
    · intro d hd
      obtain ⟨m, -, rfl⟩ := List.mem_map.mp hd
      simpa using heq
  · rename_i hne
    rw [filter_eq_nil_iff.mpr]
    · rfl
    · intro d hd
      obtain ⟨m, -, rfl⟩ := List.mem_map.mp hd
      simpa using hne

theorem Continues.cursor_eq (h : Continues topic s msgs last) :
    msgs.getLast?.elim (nextCursor s.cursor last) Message.seq = lastSeqOf (s.current ++ msgs) := by
  cases hlast : msgs.getLast? with
  | none =>
    have hnil := List.getLast?_eq_none_iff.mp hlast
    subst hnil
    rw [append_nil]
    exact h.empty rfl
  | some m =>
    obtain ⟨front, rfl⟩ := List.getLast?_eq_some_iff.mp hlast
    rw [← List.append_assoc, lastSeqOf_concat]
    rfl

variable {epoch n : Nat}

theorem Sound.receive (h : Sound topic s) (hreplied : s.poll = .replied epoch msgs last) :
    Sound topic { s with
      cursor := (deliver (nextCursor s.cursor last) msgs).1
      poll := .idle
      fresh := s.fresh || epoch = s.epoch
      delivered := s.delivered ++
        (deliver (nextCursor s.cursor last) msgs).2.map fun m => (epoch, m) } := by
  have hpoll := h.poll
  rw [hreplied] at hpoll
  obtain ⟨hle, hold, hreply⟩ := hpoll
  have hepochs : ∀ d ∈ s.delivered ++
      (deliver (nextCursor s.cursor last) msgs).2.map (fun m => (epoch, m)), d.1 ≤ s.epoch := by
    intro d hd
    rcases mem_append.mp hd with hbefore | hnew
    · exact h.epochs d hbefore
    · obtain ⟨m, -, rfl⟩ := List.mem_map.mp hnew
      exact hle
  by_cases hnow : epoch = s.epoch
  · have hcont := hreply hnow
    have hincr : msgs.Pairwise fun a b => a.seq < b.seq := by
      have hall := (h.server.published_increasing topic).sublist hcont.next.sublist
      exact (pairwise_append.mp hall).2.1
    have hdeliver := deliver_all hincr hcont.above
    refine ⟨h.server, h.tracks, hepochs, ?_, ?_, trivial⟩
    · intro hstale
      simp [hnow] at hstale
    · intro _
      rw [current_receive, if_pos hnow, hdeliver]
      exact ⟨hcont.next, hcont.cursor_eq⟩
  · have hstale : s.fresh = false := hold (by omega)
    refine ⟨h.server, h.tracks, hepochs, ?_, ?_, trivial⟩
    · intro _
      rw [current_receive, if_neg hnow, append_nil]
      exact h.stale hstale
    · intro hfresh
      simp [hstale, hnow] at hfresh

theorem Sound.step (h : Sound topic s) (hkept : KeptAt topic s e) (htelling : Telling topic s e)
    (hstep : step topic s e = some s') : Sound topic s' := by
  cases step_cases hstep with
  | act acted =>
    have hacts := h.server.acts acted
    obtain ⟨htracks, new, hgrow, -⟩ := h.tracks.acts h.server hacts
    exact h.act (h.server.step acted) htracks ⟨new, hgrow.symm⟩
  | restart => exact h.restart
  | absent nonneg missing => exact h.absent nonneg missing
  | readLast room => exact h.readLast room
  | fetch read room free nonneg page => exact h.fetch read room free nonneg page hkept htelling
  | receive replied => exact h.receive replied
  | fail => exact { h with poll := trivial }

/-- Whether the reply on its way will bring nothing towards the first `n`
messages. -/
def wasted (n : Nat) (s : Follower) : Bool :=
  match s.poll with
  | .replied epoch msgs _ =>
    !(epoch = s.epoch && (!s.fresh || !msgs.isEmpty || decide (n ≤ s.current.length)))
  | _ => false

/-- How many more pages the client needs for the first `n` messages. -/
def need (n : Nat) (s : Follower) : Nat :=
  (n - s.current.length) + (if s.fresh then 0 else 1) + if wasted n s then 1 else 0

theorem need_le (n : Nat) (s : Follower) : need n s ≤ n + 2 := by
  rw [need]
  split <;> split <;> omega

theorem delivered_of_need (h : need n s = 0) : n ≤ s.current.length := by
  rw [need] at h
  omega

def received : FollowEvent → Nat
  | .receive => 1
  | _ => 0

theorem wasted_replied (n : Nat) (s : Follower) (msgs : List Message) (last : Int) :
    wasted n { s with poll := .replied s.epoch msgs last } =
      !(!s.fresh || !msgs.isEmpty || decide (n ≤ s.current.length)) := by
  have heq : wasted n { s with poll := .replied s.epoch msgs last } =
      !(decide (s.epoch = s.epoch) &&
        (!s.fresh || !msgs.isEmpty || decide (n ≤ s.current.length))) := rfl
  rw [heq, decide_eq_true rfl, Bool.true_and]

theorem need_poll {poll : Poll} (hwaste : wasted n { s with poll := poll } = false) :
    need n { s with poll := poll } ≤ need n s := by
  rw [need, hwaste]
  exact Nat.add_le_add_left (Nat.zero_le _) _

theorem need_receive (h : Sound topic s) (hreplied : s.poll = .replied epoch msgs last) :
    need n { s with
      cursor := (deliver (nextCursor s.cursor last) msgs).1
      poll := .idle
      fresh := s.fresh || epoch = s.epoch
      delivered := s.delivered ++
        (deliver (nextCursor s.cursor last) msgs).2.map fun m => (epoch, m) } ≤ need n s - 1 := by
  have hpoll := h.poll
  rw [hreplied] at hpoll
  have hidle : ∀ s' : Follower, s'.poll = .idle → wasted n s' = false := by
    intro s' hs'
    rw [wasted, hs']
  rw [need, hidle _ rfl, current_receive, need, wasted, hreplied]
  by_cases hnow : epoch = s.epoch
  · have hcont := hpoll.2.2 hnow
    have hincr : msgs.Pairwise fun a b => a.seq < b.seq := by
      have hall := (h.server.published_increasing topic).sublist hcont.next.sublist
      exact (pairwise_append.mp hall).2.1
    rw [deliver_all hincr hcont.above]
    cases hfresh : s.fresh with
    | false =>
      simp [hnow]
      omega
    | true =>
      cases msgs with
      | nil =>
        simp [hnow]
        split <;> omega
      | cons m msgs =>
        simp [hnow]
        omega
  · have hstale : s.fresh = false := hpoll.2.1 (lt_of_le_of_ne hpoll.1 hnow)
    simp [hnow]

theorem need_step (h : Sound topic s) (hn : n ≤ (s.server.published topic).length)
    (hkept : KeptAt topic s e) (hrestart : e ≠ .restart) (hstep : step topic s e = some s') :
    need n s' ≤ need n s - received e := by
  cases step_cases hstep with
  | act acted => exact le_refl _
  | restart => exact absurd rfl hrestart
  | absent nonneg missing =>
    have hnone : s.server.published topic = [] := by
      rw [Server.published_of_free (by rw [Server.pendingOf, missing]; rfl),
        h.server.taken_of_absent missing]
    have hzero : n = 0 := by
      rw [hnone] at hn
      exact Nat.le_zero.mp hn
    exact need_poll (by rw [wasted_replied]; simp [hzero])
  | readLast room => exact need_poll rfl
  | @fetch last r msgs read room free nonneg page =>
    apply need_poll
    rw [wasted_replied]
    cases hfresh : s.fresh with
    | false => rfl
    | true =>
      -- the page starts with the first message that is not delivered
      have hpage := page_eq h room free hkept page
      obtain ⟨⟨rest, hrest⟩, hcursor⟩ := h.fresh hfresh
      have hincr := h.server.published_increasing topic
      have hpos := h.published_pos
      rw [← hrest] at hincr hpos
      rw [← hrest, hcursor, above_lastSeqOf hincr hpos] at hpage
      have hlength : (s.server.published topic).length = s.current.length + rest.length := by
        rw [← hrest, length_append]
      by_cases hdone : n ≤ s.current.length
      · simp [hdone]
      · have hmore : msgs ≠ [] := by
          rw [hpage]
          intro hnil
          rcases take_eq_nil_iff.mp hnil with habsurd | hnil
          · omega
          · rw [hnil, length_nil] at hlength
            omega
        simp [hmore]
  | receive replied => exact need_receive h replied
  | fail => exact need_poll rfl

theorem published_step (h : Sound topic s) (hrestart : e ≠ .restart)
    (hstep : step topic s e = some s') :
    s.server.published topic <+: s'.server.published topic := by
  cases step_cases hstep with
  | act acted =>
    obtain ⟨-, new, hgrow, -⟩ := h.tracks.acts h.server (h.server.acts acted)
    exact ⟨new, hgrow.symm⟩
  | restart => exact absurd rfl hrestart
  | absent nonneg missing => exact prefix_refl _
  | readLast room => exact prefix_refl _
  | fetch read room free nonneg page => exact prefix_refl _
  | receive replied => exact prefix_refl _
  | fail => exact prefix_refl _

def pages (events : List FollowEvent) : Nat := (events.map received).sum

variable {events : List FollowEvent}

theorem Sound.run (h : Sound topic s)
    (hmeets : Throughout (Follower.step topic) (fun s e => KeptAt topic s e ∧ Telling topic s e) s events)
    (hrun : Follower.run topic s events = some s') : Sound topic s' :=
  hmeets.invariant (fun _ _ _ hs hmeet hstep => hs.step hmeet.1 hmeet.2 hstep) hrun h

theorem need_run (h : Sound topic s) (hn : n ≤ (s.server.published topic).length)
    (hrestart : .restart ∉ events)
    (hmeets : Throughout (step topic) (fun s e => KeptAt topic s e ∧ Telling topic s e) s events)
    (hrun : run topic s events = some s') : need n s' ≤ need n s - pages events ∧
      s.server.published topic <+: s'.server.published topic := by
  induction events generalizing s with
  | nil =>
    rw [run, runAll, Option.some.injEq] at hrun
    subst hrun
    exact ⟨Nat.le_of_eq rfl, prefix_refl _⟩
  | cons e events ih =>
    obtain ⟨s₁, hstep, hrest⟩ := runAll_cons hrun
    obtain ⟨hmeet, hlater⟩ := hmeets
    have he : e ≠ .restart := fun heq => hrestart (heq ▸ mem_cons_self)
    have hgrow := published_step h he hstep
    have hfirst := need_step h hn hmeet.1 he hstep
    obtain ⟨hneed, hgrow'⟩ := ih (h.step hmeet.1 hmeet.2 hstep) (hn.trans hgrow.length_le)
      (fun hin => hrestart (mem_cons_of_mem e hin)) (hlater s₁ hstep) hrest
    refine ⟨?_, hgrow.trans hgrow'⟩
    rw [pages] at hneed ⊢
    rw [map_cons, sum_cons]
    omega

/-- In every run with restarts, in which no message that the client has not
passed is dropped from the ring of the topic and in which the first page after
each restart finds the topic's messages all above the old cursor, or none above
it and the last number read below it: what the client delivers of the messages
since the last restart is a first part of what was published, each once and in
order; and once no restart follows, everything published so far is delivered
within as many pages, and two more. -/
theorem follower_catches_up (topic : Topic) (bufferSize : Int64) (bufferBytes maxRooms cursor : Int)
    (events more : List FollowEvent) (s s' : Follower)
    (hrun : run topic (new bufferSize bufferBytes maxRooms cursor) events = some s)
    (hmore : run topic s more = some s') (hrestart : .restart ∉ more)
    (hkept : Throughout (step topic) (KeptAt topic) (new bufferSize bufferBytes maxRooms cursor)
      (events ++ more)) (htelling : Throughout (step topic) (Telling topic)
      (new bufferSize bufferBytes maxRooms cursor) (events ++ more)) :
    s'.current <+: s'.server.published topic ∧ (s'.current.Pairwise fun a b => a.seq < b.seq) ∧
      ((s.server.published topic).length + 2 ≤ pages more →
        s.server.published topic <+: s'.current) := by
  have hmeets := hkept.and htelling
  have hs : Sound topic s := (Sound.new bufferSize bufferBytes maxRooms cursor topic).run hmeets.left hrun
  have hlater := hmeets.right hrun
  have hs' : Sound topic s' := hs.run hlater hmore
  refine ⟨hs'.current_first,
    (hs'.server.published_increasing topic).sublist hs'.current_first.sublist, fun hpages => ?_⟩
  obtain ⟨hneed, hgrow⟩ := need_run hs (le_refl _) hrestart hlater hmore
  have hbound := need_le (s.server.published topic).length s
  have hdone := delivered_of_need (n := (s.server.published topic).length) (s := s') (by omega)
  exact prefix_of_prefix_length_le hgrow hs'.current_first hdone

section Witness

def pollOnce : List FollowEvent := [.readLast, .fetch, .receive]

def publishA : List FollowEvent :=
  [.act (.create topicA), .act (.take topicA hello),
    .act (.store topicA)]

def noticed : List FollowEvent :=
  publishA ++ pollOnce ++ [FollowEvent.restart, .readLast, .receive] ++ publishA

def reached (events : List FollowEvent) : Follower :=
  (run topicA (new 10 0 0 0) events).getD (new 10 0 0 0)

theorem noticed_catches_up : (reached noticed).server.published topicA ≠ [] ∧
      (reached noticed).server.published topicA <+:
        (reached (noticed ++ (pollOnce ++ pollOnce ++ pollOnce))).current :=
  ⟨by decide +kernel,
    (follower_catches_up topicA 10 0 0 0 noticed (pollOnce ++ pollOnce ++ pollOnce) _ _
      (by decide +kernel) (by decide +kernel) (by decide) (by decide +kernel)
      (by decide +kernel)).2.2 (by decide +kernel)⟩

def overtaken : List FollowEvent := publishA ++ pollOnce ++ [FollowEvent.restart] ++ publishA ++ publishA

theorem polls_overtaken (k : Nat) :
    run topicA (reached (overtaken ++ pollOnce)) (replicate k pollOnce).flatten =
        some (reached (overtaken ++ pollOnce)) ∧
      Throughout (step topicA) (KeptAt topicA) (reached (overtaken ++ pollOnce))
        (replicate k pollOnce).flatten := by
  have hpoll : run topicA (reached (overtaken ++ pollOnce)) pollOnce =
      some (reached (overtaken ++ pollOnce)) := by decide +kernel
  induction k with
  | zero => exact ⟨rfl, trivial⟩
  | succ k ih =>
    rw [List.replicate_succ, flatten_cons]
    constructor
    · rw [run, runAll_append, ← run, hpoll]
      exact ih.1
    · exact throughout_append (by decide +kernel) hpoll ih.2

theorem overtaken_passed (k : Nat) : ∃ s, run topicA (new 10 0 0 0)
          (overtaken ++ pollOnce ++ (replicate k pollOnce).flatten) = some s ∧
      Throughout (step topicA) (KeptAt topicA) (new 10 0 0 0)
        (overtaken ++ pollOnce ++ (replicate k pollOnce).flatten) ∧
      .restart ∉ pollOnce ++ (replicate k pollOnce).flatten ∧
      ∃ m ∈ s.server.published topicA, m ∉ s.current := by
  have hfirst : run topicA (new 10 0 0 0) (overtaken ++ pollOnce) =
      some (reached (overtaken ++ pollOnce)) := by decide +kernel
  obtain ⟨hrest, hkept⟩ := polls_overtaken k
  refine ⟨reached (overtaken ++ pollOnce), ?_, ?_, ?_, ?_⟩
  · rw [run, runAll_append]
    exact hrest
  · exact throughout_append (by decide +kernel) hfirst hkept
  · intro hin
    rcases mem_append.mp hin with hnow | hlater
    · exact absurd hnow (by decide)
    · obtain ⟨poll, hpoll, hin⟩ := mem_flatten.mp hlater
      rw [eq_of_mem_replicate hpoll] at hin
      exact absurd hin (by decide)
  · exact ⟨{ hello with roomId := topicA, seq := 1 }, by decide +kernel,
      by decide +kernel⟩

/-- No number of polls after the restart, which nothing interrupts and during
which the ring keeps what it has, delivers all that was published. -/
theorem overtaken_never_delivered : ¬ ∃ k, ∀ s, run topicA (new 10 0 0 0)
          (overtaken ++ pollOnce ++ (replicate k pollOnce).flatten) = some s →
      Throughout (step topicA) (KeptAt topicA) (new 10 0 0 0)
        (overtaken ++ pollOnce ++ (replicate k pollOnce).flatten) →
      .restart ∉ pollOnce ++ (replicate k pollOnce).flatten →
      ∀ m ∈ s.server.published topicA, m ∈ s.current := by
  rintro ⟨k, hdelivers⟩
  obtain ⟨s, hrun, hkept, hcalm, m, hpublished, hmissing⟩ := overtaken_passed k
  exact hmissing (hdelivers s hrun hkept hcalm m hpublished)

end Witness

end Follower

end Unheaded.Wotan
