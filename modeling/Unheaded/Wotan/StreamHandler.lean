import Unheaded.Wotan.StreamFlow

/-!
# The handler of a stream

The handler keeps the invariant: while it subscribes nothing has been taken
over, its replay begins where nothing is under way, and what it sends moves from
one place to the next.
-/

namespace Unheaded.Wotan

open Lib List Option Handler Queue

namespace Streaming

variable {pattern : List Byte} {since : Int} {t : Topic} {s s' : Streaming} {e : StreamStep}

theorem started_of_past {handler : Handler} (h : handler.past = true) : handler.started = true := by
  cases handler with
  | replaying upper left replay => rfl
  | sending left => rfl
  | live => rfl
  | idle => exact absurd h (by simp [past])
  | called => exact absurd h (by simp [past])
  | subscribing left => exact absurd h (by simp [past])
  | spawned => exact absurd h (by simp [past])

theorem Sound.lastSeq_nonneg (h : Sound since t s) : 0 ≤ lastSeqOf (s.server.published t) := by
  rcases lastSeqOf_cases (s.server.published t) with ⟨-, hzero⟩ | ⟨m, hm, heq⟩
  · exact hzero.ge
  · rw [heq]
    exact (h.fed.server.published_pos hm).le

theorem Led.unjoined (h : Led since t s) (hearly : s.handler.started = false) : ¬ Joined t s := by
  intro hjoined
  rw [Joined] at hjoined
  split at hjoined
  · simp [started_of_past hjoined] at hearly
  · rename_i hnot
    obtain ⟨sub, hsub⟩ := ne_none_iff_exists'.mp hjoined.1
    exact hnot ((h.quiet hearly).2.2 sub hsub).1

theorem Sound.of_early (hfed : Fed t s) (hled : Led since t s) (hearly : s.handler.started = false) :
    Sound since t s where
  fed := hfed
  led := hled
  watched :=
    { attended := fun hattended => by
        rw [(hled.quiet hearly).2.1] at hattended
        exact absurd rfl hattended
      apart := fun _ _ => by
        have hpast : s.handler.past = false := by
          cases hp : s.handler.past with
          | false => rfl
          | true => exact absurd (started_of_past hp) (by simp [hearly])
        rw [hled.early hpast]
        exact ⟨rfl, (hled.quiet hearly).1⟩ }
  flows hjoined := absurd hjoined (hled.unjoined hearly)

theorem Sound.start (h : Sound since t s) (hidle : s.handler = .idle) (hasked : since ≤ s.server.seq) :
    Sound since t { s with startSeq := s.server.seq, handler := .called } := by
  have hnone : s.topics = [] := h.led.unlisted (by rw [hidle]; rfl)
  refine .of_early { h.fed with } ?_ rfl
  constructor
  · exact fun _ => ⟨hasked, le_refl _⟩
  · exact fun _ => hnone
  · exact h.led.nodup
  · simp [listed]
  · exact fun _ => h.led.quiet (by rw [hidle]; rfl)
  · exact fun _ => h.led.early (by rw [hidle]; rfl)
  · simp
  · intro hin
    simp only [hnone] at hin
    exact absurd hin not_mem_nil
  · simp
  · simp

theorem Sound.list {rooms : List Topic} (h : Sound since t s) (hmatch : matchTopic pattern t = true)
    (hcalled : s.handler = .called) (hall : rooms.Perm (s.server.rooms.map Room.id)) :
    Sound since t
      { s with
        topics := rooms.filter (matchTopic pattern)
        handler := .subscribing (rooms.filter (matchTopic pattern)) } := by
  have hnone : s.topics = [] := h.led.unlisted (by rw [hcalled]; rfl)
  obtain ⟨hevents, hwatcher, hsubs⟩ := h.led.quiet (by rw [hcalled]; rfl)
  refine .of_early { h.fed with } ?_ rfl
  constructor
  · exact fun _ => h.led.asked (by rw [hcalled]; simp)
  · simp [listed]
  · exact (hall.nodup_iff.mpr h.fed.server.ids).filter _
  · intro _ hnot m hm
    have habsent : s.server.find t = none := by
      cases hfound : s.server.find t with
      | none => rfl
      | some r =>
        obtain ⟨hr, hid⟩ := Server.find_some hfound
        have hin : t ∈ rooms := hall.mem_iff.mpr (List.mem_map.mpr ⟨r, hr, hid⟩)
        exact absurd (mem_filter.mpr ⟨hin, hmatch⟩) hnot
    have hempty := h.fed.server.taken_of_absent habsent
    rw [hempty] at hm
    exact absurd hm not_mem_nil
  · intro _
    refine ⟨hevents, hwatcher, fun sub hsub => ?_⟩
    have hin := (hsubs sub hsub).1
    rw [hnone] at hin
    exact absurd hin not_mem_nil
  · exact fun _ => h.led.early (by rw [hcalled]; rfl)
  · intro left hphase hin
    rw [subscribing.injEq] at hphase
    rwa [← hphase] at hin
  · intro hin
    exact Or.inr ⟨_, rfl, hin⟩
  · simp
  · simp

theorem setSub_self (s : Streaming) (topic : Topic) (sub : Subscription) :
    s.setSub topic sub topic = some sub := if_pos rfl

theorem setSub_of_ne {topic : Topic} (s : Streaming) (sub : Subscription) (hid : t ≠ topic) :
    s.setSub topic sub t = s.subs t := if_neg hid

theorem Sound.subscribe {topic : Topic} {left : List Topic} (h : Sound since t s)
    (hphase : s.handler = .subscribing (topic :: left)) :
    Sound since t { s with subs := s.setSub topic ⟨[], 0, false⟩, handler := .subscribing left } := by
  obtain ⟨hevents, hwatcher, hsubs⟩ := h.led.quiet (by rw [hphase]; rfl)
  have hmember := h.led.subscribing _ hphase
  refine .of_early ?_ ?_ rfl
  · by_cases hid : t = topic
    · subst hid
      refine ⟨h.fed.server, h.fed.tracks, h.fed.unsent_published, h.fed.unsent_increasing, ?_, ?_⟩
      · intro m hm
        simp [channelOf, setSub_self] at hm
      · simp only [skipOf, hwatcher, setSub_self]
        exact h.lastSeq_nonneg
    · refine ⟨h.fed.server, h.fed.tracks, h.fed.unsent_published, h.fed.unsent_increasing, ?_, ?_⟩
      · intro m hm
        simp only [channelOf, setSub_of_ne s _ hid] at hm
        exact h.fed.channel_published m hm
      · simp only [skipOf, setSub_of_ne s _ hid]
        exact h.fed.skip_le
  · constructor
    · exact fun _ => h.led.asked (by rw [hphase]; simp)
    · simp [listed]
    · exact h.led.nodup
    · exact fun _ => h.led.late (by rw [hphase]; rfl)
    · intro _
      refine ⟨hevents, hwatcher, fun sub hsub => ?_⟩
      by_cases hid : t = topic
      · subst hid
        simp only [setSub_self, some.injEq] at hsub
        rw [← hsub]
        exact ⟨hmember mem_cons_self, rfl⟩
      · simp only [setSub_of_ne s _ hid] at hsub
        exact hsubs sub hsub
    · exact fun _ => h.led.early (by rw [hphase]; rfl)
    · intro left' hleft hin
      rw [subscribing.injEq] at hleft
      rw [← hleft] at hin
      exact hmember (mem_cons_of_mem _ hin)
    · intro hin
      by_cases hid : t = topic
      · subst hid
        left
        simp [setSub_self]
      · simp only [setSub_of_ne s _ hid]
        rcases h.led.subscribed hin with hsub | ⟨left', hleft, hmem⟩
        · exact Or.inl hsub
        · rw [hphase, subscribing.injEq] at hleft
          rw [← hleft] at hmem
          exact Or.inr ⟨left, rfl, (mem_cons.mp hmem).resolve_left hid⟩
    · intro upper left' replay hleft
      cases hleft
    · intro left' hleft
      cases hleft

theorem Sound.spawn (h : Sound since t s) (hphase : s.handler = .subscribing []) :
    Sound since t
      { s with
        subs := fun t => (s.subs t).map fun sub => { sub with running := true }
        watcher := .waiting
        handler := .spawned } := by
  obtain ⟨hevents, hwatcher, hsubs⟩ := h.led.quiet (by rw [hphase]; rfl)
  have hsent := h.led.early (by rw [hphase]; rfl)
  constructor
  · refine ⟨h.fed.server, h.fed.tracks, h.fed.unsent_published, h.fed.unsent_increasing, ?_, ?_⟩
    · intro m hm
      refine h.fed.channel_published m ?_
      simp only [channelOf] at hm ⊢
      cases hsub : s.subs t with
      | none => simp [hsub] at hm
      | some sub => simpa [hsub] using hm
    · have hskip := h.fed.skip_le
      simp only [skipOf, hwatcher] at hskip
      simp only [skipOf]
      cases hsub : s.subs t with
      | none => exact h.lastSeq_nonneg
      | some sub =>
        rwa [hsub] at hskip
  · constructor
    · exact fun _ => h.led.asked (by rw [hphase]; simp)
    · simp [listed]
    · exact h.led.nodup
    · exact fun _ => h.led.late (by rw [hphase]; rfl)
    · simp [started]
    · exact fun _ => hsent
    · simp
    · intro hin
      rcases h.led.subscribed hin with hsub | ⟨left, hleft, hmem⟩
      · left
        simpa using hsub
      · rw [hphase, subscribing.injEq] at hleft
        rw [← hleft] at hmem
        exact absurd hmem not_mem_nil
    · simp
    · simp
  · constructor
    · intro hattended
      exact absurd rfl hattended
    · intro _ _
      refine ⟨?_, hevents⟩
      simp only [hsent, messagesOf_nil]
  · intro hjoined
    rw [Joined] at hjoined
    split at hjoined
    · exact absurd hjoined (by simp [past])
    · rename_i hnot
      obtain ⟨sub, hsub⟩ := ne_none_iff_exists'.mp hjoined.1
      obtain ⟨sub₀, hsub₀, -⟩ := map_eq_some_iff.mp hsub
      exact absurd (hsubs sub₀ hsub₀).1 hnot

theorem Led.advance (handler : Handler) (sent : List StreamEvent) (h : Led since t s)
    (hstarted : s.handler.started = true) (hpast : handler.past = true)
    (hreplaying : ∀ upper left replay, handler = .replaying upper left replay →
      Replaying since t s.server s.topics upper left replay)
    (hsending : ∀ left, handler = .sending left → t ∉ s.topics → ofTopic t left = []) :
    Led since t { s with handler := handler, sent := sent } := by
  have hlisted : s.handler.listed = true := by
    cases hphase : s.handler with
    | idle => rw [hphase] at hstarted; exact absurd hstarted (by simp [started])
    | called => rw [hphase] at hstarted; exact absurd hstarted (by simp [started])
    | subscribing left => rfl
    | spawned => rfl
    | replaying upper left replay => rfl
    | sending left => rfl
    | live => rfl
  have hidle : s.handler ≠ .idle := by
    intro heq
    simp [heq, listed] at hlisted
  constructor
  · exact fun _ => h.asked hidle
  · intro hnot
    cases handler <;> simp [past, listed] at hpast hnot
  · exact h.nodup
  · exact fun _ => h.late hlisted
  · simp [started_of_past hpast]
  · simp [hpast]
  · intro left hleft
    simp [show handler = .subscribing left from hleft, past] at hpast
  · intro hin
    rcases h.subscribed hin with hsub | ⟨left, hleft, -⟩
    · exact Or.inl hsub
    · simp [hleft, started] at hstarted
  · exact hreplaying
  · exact hsending

theorem joined_advance {handler : Handler} {events sent : List StreamEvent}
    (hpast : s.handler.past = true) (hpast' : handler.past = true) :
    Joined t { s with handler := handler, events := events, sent := sent } ↔ Joined t s := by
  simp only [Joined, hpast, hpast']

theorem Sound.replayOf_late (h : Sound since t s) (hnot : t ∉ s.topics) : replayOf since t s = [] := by
  rw [replayOf]
  cases hphase : s.handler with
  | replaying upper left replay =>
    have hreplay := h.led.replaying upper left replay hphase
    have hout : t ∉ left := fun hin => hnot (hreplay.left_topics hin)
    rw [replayPart, if_neg hout]
    exact hreplay.others hnot
  | sending left => exact h.led.sending left hphase hnot
  | idle => rfl
  | called => rfl
  | subscribing left => rfl
  | spawned => rfl
  | live => rfl

theorem Sound.attention_away (h : Sound since t s) (hin : t ∈ s.topics) :
    s.watcher.attention t = .away := by
  by_contra haway
  exact (h.watched.attended haway).1 hin

/-- The counter is read.  All that was published up to now is in the rings, and
nothing of it is under way. -/
theorem Sound.load (h : Sound since t s) (hsince : 0 ≤ since) (hphase : s.handler = .spawned)
    (horderly : Orderly since s .load) :
    Sound since t
      { s with handler := if 0 ≤ since then .replaying s.server.seq s.topics [] else .live } := by
  rw [if_pos hsince]
  have hsent := h.led.early (by rw [hphase]; rfl)
  obtain ⟨hasked, hseq⟩ := h.led.asked (by rw [hphase]; simp)
  have hpending : t ∈ s.topics → ∀ p ∈ s.server.pendingOf t, p.seq ≤ since := by
    intro hin p hp
    exact horderly t hin p (mem_append_right _ (mem_toList.mpr hp))
  refine ⟨{ h.fed with }, ?_, ⟨h.watched.attended, ?_⟩, ?_⟩
  · refine h.led.advance (.replaying s.server.seq s.topics []) s.sent
      (by rw [hphase]; rfl) rfl ?_ ?_
    · intro upper left replay hnow
      obtain ⟨rfl, rfl, rfl⟩ := replaying.inj hnow
      exact
        { since_le := hasked.trans hseq
          upper_le := le_refl _
          nodup := h.led.nodup
          left_topics := id
          unread := fun _ => rfl
          others := fun _ => rfl
          pending := fun hin p hp => Or.inr (hpending hin p hp) }
    · simp
  · intro hnot hapart
    refine h.watched.apart hnot fun hjoined => hapart ?_
    simp only [Joined, if_neg hnot] at hjoined ⊢
    exact hjoined
  · intro hjoined
    by_cases hin : t ∈ s.topics
    · have haway := h.attention_away hin
      have hpush : pushOf t { s with handler := .replaying s.server.seq s.topics [] } = [] := by
        simp only [pushOf, haway]
      have hreplay : replayOf since t { s with handler := .replaying s.server.seq s.topics [] } =
          above since (s.server.published t) := by
        simp only [replayOf, replayPart, if_pos hin]
        refine filter_congr fun m hm => ?_
        have hbound := h.fed.server.bounded m ((s.server.published_sublist t).mem hm)
        simp [hbound]
      have hunder := horderly t hin
      simp only [mem_append] at hunder
      have hevents := above_eq_nil fun m hm => hunder m (Or.inl (Or.inl (Or.inl hm)))
      have hlive : above since (above (skipOf t s) (channelOf t s ++ unsentOf t s)) =
          [] := by
        refine above_eq_nil fun m hm => ?_
        rcases mem_append.mp (mem_filter.mp hm).1 with hchannel | hunsent
        · exact hunder m (Or.inl (Or.inl (Or.inr hchannel)))
        · exact hunder m (Or.inl (Or.inr hunsent))
      have htwice : above since (above since (s.server.published t)) =
          above since (s.server.published t) :=
        above_eq_self fun m hm => of_decide_eq_true (mem_filter.mp hm).2
      have hchannel : channelOf t { s with handler := .replaying s.server.seq s.topics [] } =
          channelOf t s := rfl
      have hunsent : unsentOf t { s with handler := .replaying s.server.seq s.topics [] } =
          unsentOf t s := rfl
      have hskip : skipOf t { s with handler := .replaying s.server.seq s.topics [] } = skipOf t s := rfl
      rw [flow, hreplay, hpush, hchannel, hunsent, hskip, append_nil, above_append, hlive,
        append_nil, above_append, hevents, append_nil, above_append, htwice]
      simp only [hsent, messagesOf_nil, above_nil, nil_append]
    · have hbefore : Joined t s := by
        simp only [Joined, if_neg hin] at hjoined ⊢
        exact hjoined
      have hflow := h.flows hbefore
      have hreplay := h.replayOf_late hin
      have hreplay' : replayOf since t { s with handler := .replaying s.server.seq s.topics [] } = [] := by
        simp only [replayOf, replayPart, if_neg hin, ofTopic_nil]
      rw [flow, hreplay] at hflow
      rw [flow, hreplay']
      exact hflow

theorem Sound.read {upper : Int} {topic : Topic} {left : List Topic}
    {replay : List TopicMessage} (found : List TopicMessage) (h : Sound since t s)
    (hphase : s.handler = .replaying upper (topic :: left) replay)
    (hfound : ofTopic t found = if t = topic then
      (s.server.published t).filter fun m => decide (since < m.seq ∧ m.seq ≤ upper) else []) :
    Sound since t { s with handler := .replaying upper left (replay ++ found) } := by
  have hpast : s.handler.past = true := by rw [hphase]; rfl
  have hreplay := h.led.replaying _ _ _ hphase
  obtain ⟨hout, hnodup⟩ := nodup_cons.mp hreplay.nodup
  have hjoined : Joined t { s with handler := .replaying upper left (replay ++ found) } ↔ Joined t s :=
    joined_advance hpast rfl
  refine ⟨{ h.fed with }, ?_, ⟨h.watched.attended, ?_⟩, ?_⟩
  · refine h.led.advance (.replaying upper left (replay ++ found)) s.sent
      (started_of_past hpast) rfl ?_ ?_
    · intro upper' left' replay' hnow
      obtain ⟨rfl, rfl, rfl⟩ := replaying.inj hnow
      refine { hreplay with nodup := hnodup, left_topics := ?_, unread := ?_, others := ?_ }
      · exact fun hin => hreplay.left_topics (mem_cons_of_mem _ hin)
      · intro hin
        have hne : t ≠ topic := fun heq => hout (heq ▸ hin)
        rw [ofTopic_append, hreplay.unread (mem_cons_of_mem _ hin), hfound, if_neg hne]
        rfl
      · intro hnot
        have hne : t ≠ topic := fun heq => hnot (hreplay.left_topics (heq ▸ mem_cons_self))
        rw [ofTopic_append, hreplay.others hnot, hfound, if_neg hne]
        rfl
    · intro left' hnow
      cases hnow
  · rw [hjoined]
    exact h.watched.apart
  · intro hnow
    have hflow := h.flows (hjoined.mp hnow)
    have hsame : replayOf since t { s with handler := .replaying upper left (replay ++ found) } =
        replayOf since t s := by
      simp only [replayOf, hphase, replayPart, mem_cons, ofTopic_append, hfound]
      by_cases hid : t = topic
      · subst hid
        rw [if_neg hout, if_pos rfl, if_pos (Or.inl rfl), hreplay.unread mem_cons_self]
        rfl
      · simp [hid]
    rw [flow] at hflow ⊢
    rw [hsame]
    exact hflow

theorem ofTopic_map (r : Room) (msgs : List Message) :
    ofTopic t (msgs.map fun m => (⟨r.id, m⟩ : TopicMessage)) = if t = r.id then msgs else [] := by
  by_cases hid : t = r.id
  · simp [ofTopic, hid, List.filter_map, Function.comp_def]
  · have hne : ¬ r.id = t := fun heq => hid heq.symm
    simp [ofTopic, hid, hne, List.filter_map]

theorem Sound.missing {upper : Int} {topic : Topic} {left : List Topic} {replay : List TopicMessage}
    (h : Sound since t s) (hphase : s.handler = .replaying upper (topic :: left) replay)
    (habsent : s.server.find topic = none) :
    Sound since t { s with handler := .replaying upper left replay } := by
  have hread := h.read [] hphase ?_
  · rwa [append_nil] at hread
  · split
    · rename_i hid
      subst hid
      have hempty : s.server.published t = [] := by
        rw [Server.published_of_free (by rw [Server.pendingOf, habsent]; rfl),
          h.fed.server.taken_of_absent habsent]
      rw [hempty]
      rfl
    · rfl

theorem takeWhile_eq_filter {msgs : List Message} (upper : Int)
    (hincr : msgs.Pairwise fun a b => a.seq < b.seq) :
    (msgs.takeWhile fun m => decide (m.seq ≤ upper)) = msgs.filter fun m => decide (m.seq ≤ upper) := by
  induction msgs with
  | nil => rfl
  | cons m msgs ih =>
    obtain ⟨hfirst, hrest⟩ := pairwise_cons.mp hincr
    by_cases hle : m.seq ≤ upper
    · rw [takeWhile_cons_of_pos (by simpa using hle),
        filter_cons_of_pos (by simpa using hle), ih hrest]
    · rw [takeWhile_cons_of_neg (by simpa using hle),
        filter_cons_of_neg (by simpa using hle), eq_comm, filter_eq_nil_iff]
      intro x hx
      have := hfirst x hx
      simp only [decide_eq_true_eq]
      omega

theorem Sound.replay {upper : Int} {r : Room} {left : List Topic} {replay found : List TopicMessage}
    (h : Sound since t s) (hphase : s.handler = .replaying upper (r.id :: left) replay)
    (hroom : s.server.find r.id = some r) (hfree : r.pending = none)
    (hread : Polling.readRing (replayAfter since upper) 0 upper r = some found)
    (hscope : InScope since s .replay) :
    Sound since t { s with handler := .replaying upper left (replay ++ found) } := by
  have hreplay := h.led.replaying _ _ _ hphase
  obtain ⟨q, hq⟩ := h.fed.server.rooms r (Server.find_some hroom).1
  have hafter : replayAfter since upper = since := if_neg (not_lt.mpr hreplay.since_le)
  simp only [hafter, Polling.readRing, bind_eq_bind, bind_eq_some_iff, some.injEq] at hread
  obtain ⟨page, hpage, rfl⟩ := hread
  refine h.read _ hphase ?_
  rw [hq.refines.getAfter_eq hpage, getAfter, firstOf, if_pos (le_refl 0), ofTopic_map]
  split
  · rename_i hid
    have hin : t ∈ s.topics := hreplay.left_topics (hid ▸ mem_cons_self)
    have hitems := Server.above_items h.fed.server hroom hfree hq since
      (hid ▸ hscope t hin r (hid ▸ hroom))
    have hincr : (above since (s.server.published t)).Pairwise fun a b => a.seq < b.seq :=
      (h.fed.server.published_increasing t).sublist filter_sublist
    rw [hitems, ← hid, takeWhile_eq_filter upper hincr, above, List.filter_filter]
    exact filter_congr fun m _ => by rw [Bool.decide_and, Bool.and_comm]
  · rfl

theorem ofTopic_perm {replay replay' : List TopicMessage} (h : replay.Perm replay') :
    (ofTopic t replay).Perm (ofTopic t replay') := (h.filter _).map _

theorem Sound.sort {upper : Int} {replay : List TopicMessage} (h : Sound since t s)
    (hphase : s.handler = .replaying upper [] replay) : Sound since t
      { s with handler := .sending (replay.insertionSort fun x y => x.seq ≤ y.seq) } := by
  have hpast : s.handler.past = true := by rw [hphase]; rfl
  have hperm := perm_sorted TopicMessage.seq replay
  have horder := sorted_insertionSort TopicMessage.seq replay
  generalize (replay.insertionSort fun x y => x.seq ≤ y.seq) = sorted at hperm horder ⊢
  have hjoined : Joined t { s with handler := .sending sorted } ↔ Joined t s :=
    joined_advance hpast rfl
  refine ⟨{ h.fed with }, ?_, ⟨h.watched.attended, ?_⟩, ?_⟩
  · refine h.led.advance (.sending sorted) s.sent (started_of_past hpast) rfl ?_ ?_
    · intro upper' left' replay' hnow
      cases hnow
    · intro left hnow hnot
      rw [sending.injEq] at hnow
      subst hnow
      have hnone := (h.led.replaying _ _ _ hphase).others hnot
      exact (hnone ▸ ofTopic_perm hperm).eq_nil
  · rw [hjoined]
    exact h.watched.apart
  · intro hnow
    have hflow := h.flows (hjoined.mp hnow)
    have hbefore : replayOf since t s = ofTopic t replay := by
      rw [replayOf, hphase, replayPart, if_neg not_mem_nil]
    have hafter : replayOf since t { s with handler := .sending sorted } = ofTopic t sorted := rfl
    rw [flow, hbefore] at hflow
    rw [flow, hafter]
    -- the part of the replay is increasing, being part of what was published
    have hpart : List.Sublist (above since (ofTopic t replay))
        (above since (s.server.published t)) := by
      rw [← hflow]
      simp only [above_append, List.append_assoc]
      exact (sublist_append_left _ _).trans (sublist_append_right _ _)
    have hincr := (h.fed.server.published_increasing t).sublist (hpart.trans filter_sublist)
    have hsorted : (ofTopic t sorted).Pairwise fun a b => a.seq ≤ b.seq := by
      rw [ofTopic, pairwise_map]
      exact horder.sublist filter_sublist
    have hsame : above since (ofTopic t sorted) = above since (ofTopic t replay) :=
      eq_of_perm_increasing ((ofTopic_perm hperm).filter _) (hsorted.sublist filter_sublist) hincr
    simp only [above_append, hsame] at hflow ⊢
    exact hflow

theorem Sound.send {x : TopicMessage} {left : List TopicMessage} (h : Sound since t s)
    (hphase : s.handler = .sending (x :: left)) :
    Sound since t { s with handler := .sending left, sent := s.sent ++ [StreamEvent.message x] } := by
  have hpast : s.handler.past = true := by rw [hphase]; rfl
  have hjoined : Joined t { s with handler := .sending left, sent := s.sent ++ [StreamEvent.message x] } ↔
      Joined t s := joined_advance hpast rfl
  have hothers : t ∉ s.topics → messagesOf t [.message x] = [] ∧ ofTopic t left = [] := by
    intro hnot
    have hnone := h.led.sending _ hphase hnot
    rwa [ofTopic_cons, append_eq_nil_iff] at hnone
  refine ⟨{ h.fed with }, ?_, ⟨h.watched.attended, ?_⟩, ?_⟩
  · refine h.led.advance (.sending left) (s.sent ++ [StreamEvent.message x]) (started_of_past hpast)
      rfl ?_ ?_
    · intro upper' left' replay' hnow
      cases hnow
    · intro left' hnow hnot
      rw [sending.injEq] at hnow
      subst hnow
      exact (hothers hnot).2
  · intro hnot hapart
    obtain ⟨hsent, hevents⟩ := h.watched.apart hnot (fun hbefore => hapart (hjoined.mpr hbefore))
    rw [messagesOf_append, hsent, (hothers hnot).1]
    exact ⟨rfl, hevents⟩
  · intro hnow
    have hflow := h.flows (hjoined.mp hnow)
    have hbefore : replayOf since t s = messagesOf t [.message x] ++ ofTopic t left := by
      rw [replayOf, hphase, replayPart, ofTopic_cons]
    have hafter : replayOf since t
        { s with handler := .sending left, sent := s.sent ++ [StreamEvent.message x] } =
        ofTopic t left := rfl
    rw [flow, hbefore] at hflow
    rw [flow, messagesOf_append]
    rw [← hflow]
    simp only [List.append_assoc]
    rfl

theorem Sound.done (h : Sound since t s) (hphase : s.handler = .sending []) :
    Sound since t { s with handler := .live } := by
  have hpast : s.handler.past = true := by rw [hphase]; rfl
  have hjoined : Joined t { s with handler := .live } ↔ Joined t s := joined_advance hpast rfl
  refine ⟨{ h.fed with }, ?_, ⟨h.watched.attended, ?_⟩, ?_⟩
  · refine h.led.advance .live s.sent (started_of_past hpast) rfl ?_ ?_
    · intro upper' left' replay' hnow
      cases hnow
    · intro left' hnow
      cases hnow
  · rw [hjoined]
    exact h.watched.apart
  · intro hnow
    have hflow := h.flows (hjoined.mp hnow)
    have hbefore : replayOf since t s = replayOf since t { s with handler := .live } := by
      rw [replayOf, hphase]
      rfl
    rwa [flow, hbefore] at hflow

theorem Sound.receive {ev : StreamEvent} {events : List StreamEvent} (h : Sound since t s)
    (hphase : s.handler = .live) (hhead : s.events = ev :: events) :
    Sound since t { s with events := events, sent := s.sent ++ [ev] } := by
  have hpast : s.handler.past = true := by rw [hphase]; rfl
  have hjoined : Joined t { s with events := events, sent := s.sent ++ [ev] } ↔ Joined t s := Iff.rfl
  have hmoved : messagesOf t (s.sent ++ [ev]) ++ messagesOf t events =
      messagesOf t s.sent ++ messagesOf t s.events := by
    rw [hhead, messagesOf_cons t ev events, messagesOf_append, List.append_assoc]
  refine ⟨{ h.fed with }, ?_, ⟨h.watched.attended, ?_⟩, ?_⟩
  · refine { h.led with quiet := fun hnot => ?_, early := fun hnot => ?_ }
    · simp [started_of_past hpast] at hnot
    · simp [hpast] at hnot
  · intro hnot hapart
    obtain ⟨hsent, hevents⟩ := h.watched.apart hnot (fun hbefore => hapart (hjoined.mpr hbefore))
    rwa [hsent, hevents, append_nil, append_eq_nil_iff] at hmoved
  · intro hnow
    have hflow := h.flows (hjoined.mp hnow)
    have hbefore : replayOf since t s = [] := by
      rw [replayOf, hphase]
      rfl
    have hafter : replayOf since t { s with events := events, sent := s.sent ++ [ev] } = [] := hbefore
    rw [flow, hbefore, append_nil, ← hmoved] at hflow
    rw [flow, hafter, append_nil]
    exact hflow

end Streaming

end Unheaded.Wotan
