import Unheaded.Wotan.StreamHandler

/-!
# Runs of a stream

The forwarders and the watcher keep the invariant too, so that no step of an
orderly run loses, repeats or overtakes a message.
-/

namespace Unheaded.Wotan

open Lib List Queue Polling Streaming

namespace Streaming

variable {pattern : List Byte} {since : Int} {t : Topic} {s s' : Streaming} {e : StreamStep}

variable {topic : Topic}

theorem messagesOf_forwarded_ne (skip : Int) (m : Message) (hid : t ≠ topic) :
    messagesOf t (forwarded topic skip m) = [] := by
  rw [forwarded]
  split
  · rfl
  · rw [messagesOf_message]
    exact if_neg fun heq => hid heq.symm

variable {m : Message}

theorem messagesOf_forwarded_self (t : Topic) (skip : Int) (hpos : 0 < m.seq) :
    messagesOf t (forwarded t skip m) = above skip [m] := by
  rw [forwarded]
  split
  · rename_i hskip
    exact (above_eq_nil (by simpa using hskip.2)).symm
  · rename_i hskip
    have habove : skip < m.seq := by omega
    rw [messagesOf_message, if_pos rfl, above_eq_self (by simpa using habove)]

variable {sub : Subscription}

theorem Sound.forwarding (h : Sound since t s) (hsub : s.subs t = some sub)
    (hrun : sub.running = true) : s.handler.started = true ∧ s.watcher.attention t = .away := by
  constructor
  · by_contra hnot
    obtain ⟨-, -, hsubs⟩ := h.led.quiet (by simpa using hnot)
    simp [(hsubs sub hsub).2] at hrun
  · by_contra haway
    obtain ⟨-, sub', hsub', hstill⟩ := h.watched.attended haway
    rw [hsub, Option.some.injEq] at hsub'
    simp [← hsub', hrun] at hstill

variable {subs : Topic → Option Subscription} {events : List StreamEvent} {watcher : Watcher}

theorem Led.working (h : Led since t s) (hstarted : s.handler.started = true)
    (hsubs : t ∈ s.topics → subs t ≠ none) :
    Led since t { s with subs := subs, events := events, watcher := watcher } := by
  refine { h with quiet := fun hnot => ?_, subscribed := fun hin => Or.inl (hsubs hin) }
  simp [hstarted] at hnot

theorem Sound.working (sub : Subscription) (h : Sound since t s)
    (hstarted : s.handler.started = true) (hsub : s.subs t ≠ none) (hsub' : subs t = some sub)
    (hchannel : ∀ m ∈ sub.channel, m ∈ channelOf t s) (hbusy : s.watcher.attention t ≠ .subscribed)
    (hbusy' : watcher.attention t ≠ .subscribed)
    (hskip : skipOf t { s with subs := subs, events := events, watcher := watcher } = skipOf t s)
    (hattended : watcher.attention t ≠ .away → s.watcher.attention t ≠ .away ∧ sub.running = false)
    (hmoved : messagesOf t events ++
        (pushOf t { s with subs := subs, events := events, watcher := watcher } ++
          above (skipOf t s) (sub.channel ++ unsentOf t s)) =
      messagesOf t s.events ++
        (pushOf t s ++ above (skipOf t s) (channelOf t s ++ unsentOf t s))) :
    Sound since t { s with subs := subs, events := events, watcher := watcher } := by
  have hnow : channelOf t { s with subs := subs, events := events, watcher := watcher } =
      sub.channel := by
    simp only [channelOf, hsub']
    rfl
  have hjoined : t ∉ s.topics → Joined t s := by
    intro hnot
    rw [Joined, if_neg hnot]
    exact ⟨hsub, hbusy⟩
  refine ⟨⟨h.fed.server, h.fed.tracks, h.fed.unsent_published, h.fed.unsent_increasing, ?_, ?_⟩,
    h.led.working hstarted fun _ => by simp [hsub'], ⟨?_, ?_⟩, ?_⟩
  · intro m hm
    rw [hnow] at hm
    exact h.fed.channel_published m (hchannel m hm)
  · rw [hskip]
    exact h.fed.skip_le
  · intro haway
    obtain ⟨hwas, hrun⟩ := hattended haway
    exact ⟨(h.watched.attended hwas).1, sub, hsub', hrun⟩
  · intro hnot hapart
    refine absurd ?_ hapart
    simp only [Joined, if_neg hnot, hsub']
    exact ⟨by simp, hbusy'⟩
  · intro hjoins
    have hbefore : Joined t s := by
      by_cases hin : t ∈ s.topics
      · simp only [Joined, if_pos hin] at hjoins ⊢
        exact hjoins
      · exact hjoined hin
    have hflow := h.flows hbefore
    have hunsent : unsentOf t { s with subs := subs, events := events, watcher := watcher } =
        unsentOf t s := rfl
    have hreplay : replayOf since t { s with subs := subs, events := events, watcher := watcher } =
        replayOf since t s := rfl
    rw [flow, List.append_assoc, List.append_assoc, ← hmoved] at hflow
    rw [flow, hskip, hnow, List.append_assoc, List.append_assoc]
    exact hflow

theorem Sound.forward {channel : List Message} {skip : Int} (h : Sound since t s)
    (hsub : s.subs topic = some ⟨m :: channel, skip, true⟩) : Sound since t { s with
        subs := s.setSub topic ⟨channel, skip, true⟩
        events := s.events ++ forwarded topic skip m } := by
  by_cases hid : t = topic
  · subst hid
    obtain ⟨hstarted, haway⟩ := h.forwarding hsub rfl
    have hchannel : channelOf t s = m :: channel := by rw [channelOf, hsub]; rfl
    have hskip : skipOf t s = skip := by
      rw [skipOf, haway, hsub]
      rfl
    have hpush : pushOf t s = [] := by rw [pushOf, haway]
    have hpos : 0 < m.seq :=
      h.fed.server.published_pos (h.fed.channel_published m (by rw [hchannel]; exact mem_cons_self))
    refine h.working ⟨channel, skip, true⟩ hstarted (by simp [hsub]) (setSub_self s t _)
      ?_ (by simp [haway]) (by simp [haway]) ?_ ?_ ?_
    · intro x hx
      rw [hchannel]
      exact mem_cons_of_mem _ hx
    · rw [hskip]
      simp only [skipOf, haway, setSub_self]
      rfl
    · intro hnot
      exact absurd haway hnot
    · have hpush' : pushOf t { s with
          subs := s.setSub t ⟨channel, skip, true⟩
          events := s.events ++ forwarded t skip m } = [] := hpush
      rw [hpush, hpush', hskip, hchannel, messagesOf_append, messagesOf_forwarded_self t skip hpos,
        List.append_assoc, nil_append, ← above_append]
      rfl
  · refine h.unseen rfl rfl rfl rfl ?_ rfl rfl (fun _ => rfl) ?_ (fun _ => rfl) rfl
    · exact setSub_of_ne s _ hid
    · rw [messagesOf_append, messagesOf_forwarded_ne skip m hid, append_nil]

theorem Sound.watching (h : Sound since t s) (hwatcher : s.watcher ≠ .off) :
    s.handler.started = true := by
  by_contra hnot
  exact hwatcher (h.led.quiet (by simpa using hnot)).2.1

theorem Sound.look (h : Sound since t s) (hwatcher : s.watcher ≠ .off)
    (hsame : watcher.attention t = s.watcher.attention t) :
    Sound since t { s with watcher := watcher } := by
  refine h.unseen rfl rfl rfl rfl rfl rfl rfl (fun _ => rfl) rfl (fun hnot => ?_) hsame
  simp [h.watching hwatcher] at hnot

theorem attention_subscribed_ne (left : List Topic) (hid : t ≠ topic) :
    (Watcher.subscribed topic left).attention t = .away := if_neg fun heq => hid heq.symm

theorem attention_pushing_ne (msgs : List Message) (through : Int) (left : List Topic)
    (hid : t ≠ topic) :
    (Watcher.pushing topic msgs through left).attention t = .away := if_neg fun heq => hid heq.symm

variable {left : List Topic}

theorem Sound.discover (h : Sound since t s) (hphase : s.watcher = .scanning (topic :: left))
    (hunknown : s.subs topic = none) : Sound since t { s with
        subs := s.setSub topic ⟨[], 0, false⟩
        events := s.events ++ [StreamEvent.added topic]
        watcher := .subscribed topic left } := by
  have hstarted := h.watching (by rw [hphase]; simp)
  by_cases hid : t = topic
  · subst hid
    have hnot : t ∉ s.topics := by
      intro hin
      rcases h.led.subscribed hin with hsub | ⟨left', hleft, -⟩
      · exact hsub hunknown
      · simp [hleft, Handler.started] at hstarted
    have hapart : ¬ Joined t s := fun hjoined => h.joined_subs hjoined hunknown
    have hattention : (Watcher.subscribed t left).attention t = .subscribed := if_pos rfl
    refine ⟨⟨h.fed.server, h.fed.tracks, h.fed.unsent_published, h.fed.unsent_increasing, ?_, ?_⟩,
      h.led.working hstarted fun hin => absurd hin hnot, ⟨?_, ?_⟩, ?_⟩
    · intro m hm
      simp [channelOf, setSub_self] at hm
    · simp only [skipOf, hattention, setSub_self]
      exact h.lastSeq_nonneg
    · exact fun _ => ⟨hnot, _, setSub_self s t _, rfl⟩
    · intro _ _
      obtain ⟨hsent, hevents⟩ := h.watched.apart hnot hapart
      rw [messagesOf_append, hevents]
      exact ⟨hsent, rfl⟩
    · intro hjoined
      simp only [Joined, if_neg hnot, hattention] at hjoined
      exact absurd rfl hjoined.2
  · refine h.unseen rfl rfl rfl rfl (setSub_of_ne s _ hid) rfl rfl (fun _ => rfl) ?_ ?_ ?_
    · rw [messagesOf_append, messagesOf_added, append_nil]
    · simp [hstarted]
    · rw [hphase]
      exact attention_subscribed_ne left hid

variable {msgs : List Message}

/-- The watcher reads the ring: it holds all that was ever published in the topic,
and what is under way of it will be left out. -/
theorem Sound.fetch {r : Room} (h : Sound since t s) (hphase : s.watcher = .subscribed r.id left)
    (hroom : s.server.find r.id = some r) (hfree : r.pending = none)
    (hread : r.ring.getAfter s.startSeq 0 = some msgs) (hscope : InScope since s .fetch) :
    Sound since t { s with watcher := .pushing r.id msgs (lastSeqOf msgs) left } := by
  have hstarted := h.watching (by rw [hphase]; simp)
  by_cases hid : t = r.id
  · subst hid
    have hattention : s.watcher.attention r.id = .subscribed := by
      rw [hphase]
      exact if_pos rfl
    have hattention' : (Watcher.pushing r.id msgs (lastSeqOf msgs) left).attention r.id =
        .pushing msgs (lastSeqOf msgs) := if_pos rfl
    obtain ⟨hnot, sub, hsub, hrun⟩ := h.watched.attended (by rw [hattention]; simp)
    have hapart : ¬ Joined r.id s := by
      rw [Joined, if_neg hnot]
      exact fun hjoined => hjoined.2 hattention
    obtain ⟨hsent, hevents⟩ := h.watched.apart hnot hapart
    have hlisted : s.handler.listed = true := by
      cases hhandler : s.handler <;> simp [hhandler, Handler.started, Handler.listed] at hstarted ⊢
    have hasked := (h.led.asked (by
      intro hidle
      rw [hidle] at hlisted
      simp [Handler.listed] at hlisted)).1
    have hall : msgs = s.server.published r.id := by
      obtain ⟨q, hq⟩ := h.fed.server.rooms r (Server.find_some hroom).1
      have hitems := Server.above_items h.fed.server hroom hfree hq s.startSeq fun m hm hafter =>
        hscope r.id (by rw [hphase]; rfl) r hroom m hm (hasked.trans_lt hafter)
      have hpublished := Server.published_of_free (Server.pendingOf_of_find hroom ▸ hfree)
      rw [hq.refines.getAfter_eq hread, getAfter, hitems, hpublished,
        above_eq_self (h.led.late hlisted hnot)]
      rfl
    subst hall
    refine ⟨⟨h.fed.server, h.fed.tracks, h.fed.unsent_published, h.fed.unsent_increasing,
      h.fed.channel_published, ?_⟩, h.led.working hstarted fun _ => by simp [hsub],
      ⟨?_, ?_⟩, ?_⟩
    · simp only [skipOf, hattention']
      exact le_refl _
    · exact fun _ => ⟨hnot, sub, hsub, hrun⟩
    · exact fun _ _ => ⟨hsent, hevents⟩
    · intro _
      have hlive : above (lastSeqOf (s.server.published r.id))
          (channelOf r.id s ++ unsentOf r.id s) = [] := by
        refine above_eq_nil fun m hm => ?_
        refine le_lastSeqOf (h.fed.server.published_increasing r.id) ?_
        rcases mem_append.mp hm with hchannel | hunsent
        · exact h.fed.channel_published m hchannel
        · exact h.fed.unsent_published m hunsent
      generalize hs' : ({ s with
        watcher := .pushing r.id (s.server.published r.id) (lastSeqOf (s.server.published r.id)) left } :
          Streaming) = s'
      have hpush : pushOf r.id s' = s.server.published r.id := by
        rw [← hs', pushOf, hattention']
      have hskip : skipOf r.id s' = lastSeqOf (s.server.published r.id) := by
        rw [← hs', skipOf, hattention']
      have hreplay : replayOf since r.id s' = [] := by
        rw [← hs']
        exact h.replayOf_late hnot
      have hchannel : channelOf r.id s' = channelOf r.id s := by rw [← hs']; rfl
      have hunsent : unsentOf r.id s' = unsentOf r.id s := by rw [← hs']; rfl
      rw [flow, hpush, hskip, hreplay, hchannel, hunsent, hlive, ← hs', hsent, hevents]
      simp only [nil_append, append_nil]
  · refine h.look (by rw [hphase]; simp) ?_
    rw [hphase, attention_subscribed_ne left hid, attention_pushing_ne msgs _ left hid]

theorem Sound.push {through : Int} (h : Sound since t s)
    (hphase : s.watcher = .pushing topic (m :: msgs) through left) : Sound since t { s with
        events := s.events ++ [StreamEvent.message ⟨topic, m⟩]
        watcher := .pushing topic msgs through left } := by
  have hstarted := h.watching (by rw [hphase]; simp)
  by_cases hid : t = topic
  · subst hid
    have hattention : s.watcher.attention t = .pushing (m :: msgs) through := by
      rw [hphase]
      exact if_pos rfl
    have hattention' : (Watcher.pushing t msgs through left).attention t = .pushing msgs through :=
      if_pos rfl
    obtain ⟨-, sub, hsub, hrun⟩ := h.watched.attended (by rw [hattention]; simp)
    have hchannel : channelOf t s = sub.channel := by rw [channelOf, hsub]; rfl
    refine h.working sub hstarted (by simp [hsub]) hsub ?_ (by simp [hattention])
      (by simp [hattention']) ?_ ?_ ?_
    · intro x hx
      rw [hchannel]
      exact hx
    · simp only [skipOf, hattention, hattention']
    · exact fun _ => ⟨by simp [hattention], hrun⟩
    · simp only [pushOf, hattention, hattention', hchannel, messagesOf_append, messagesOf_message,
        if_true, List.append_assoc, List.cons_append, nil_append]
  · refine h.unseen rfl rfl rfl rfl rfl rfl rfl (fun _ => rfl) ?_ ?_ ?_
    · have hother : ¬ topic = t := fun heq => hid heq.symm
      rw [messagesOf_append, messagesOf_message, if_neg hother, append_nil]
    · simp [hstarted]
    · rw [hphase, attention_pushing_ne msgs through left hid,
        attention_pushing_ne (m :: msgs) through left hid]

theorem Sound.follow {through : Int} (h : Sound since t s)
    (hphase : s.watcher = .pushing topic [] through left) (hsub : s.subs topic = some sub) :
    Sound since t { s with
        subs := s.setSub topic { sub with skip := through, running := true }
        watcher := .scanning left } := by
  have hstarted := h.watching (by rw [hphase]; simp)
  by_cases hid : t = topic
  · subst hid
    have hattention : s.watcher.attention t = .pushing [] through := by
      rw [hphase]
      exact if_pos rfl
    have hattention' : (Watcher.scanning left).attention t = .away := rfl
    have hchannel : channelOf t s = sub.channel := by rw [channelOf, hsub]; rfl
    refine h.working { sub with skip := through, running := true } hstarted (by simp [hsub])
      (setSub_self s t _) ?_ (by simp [hattention]) (by simp [hattention']) ?_ ?_ ?_
    · intro x hx
      rw [hchannel]
      exact hx
    · simp only [skipOf, hattention, setSub_self]
      rfl
    · intro haway
      exact absurd hattention' haway
    · simp only [pushOf, hattention, hattention', hchannel]
  · refine h.unseen rfl rfl rfl rfl (setSub_of_ne s _ hid) rfl rfl (fun _ => rfl) rfl ?_ ?_
    · simp [hstarted]
    · rw [hphase, attention_pushing_ne [] through left hid]
      rfl

theorem Sound.step (h : Sound since t s) (hsince : 0 ≤ since) (hmatch : matchTopic pattern t = true)
    (hscope : InScope since s e) (horderly : Orderly since s e)
    (hstep : step pattern since s e = some s') : Sound since t s' := by
  cases step_cases hstep with
  | create id => exact h.create id
  | take taken => exact h.take taken
  | store held stored => exact h.store held stored
  | emit mem => exact h.emit mem horderly
  | start idle => exact h.start idle hscope
  | list called all => exact h.list hmatch called all
  | subscribe phase => exact h.subscribe phase
  | spawn phase => exact h.spawn phase
  | load phase => exact h.load hsince phase horderly
  | missing phase absent => exact h.missing phase absent
  | replay phase room free read => exact h.replay phase room free read hscope
  | sort phase => exact h.sort phase
  | send phase => exact h.send phase
  | done phase => exact h.done phase
  | receive phase head => exact h.receive phase head
  | forward sub => exact h.forward sub
  | tick phase => exact h.look (by rw [phase]; simp) (by rw [phase]; rfl)
  | discover phase found unknown => exact h.discover phase unknown
  | known phase => exact h.look (by rw [phase]; simp) (by rw [phase]; rfl)
  | scanned phase => exact h.look (by rw [phase]; simp) (by rw [phase]; rfl)
  | fetch phase room free read => exact h.fetch phase room free read hscope
  | push phase => exact h.push phase
  | follow phase known => exact h.follow phase known

theorem Sound.run {steps : List StreamStep} (h : Sound since t s) (hsince : 0 ≤ since)
    (hmatch : matchTopic pattern t = true) (hmeets : Throughout (Streaming.step pattern since)
      (fun s e => InScope since s e ∧ Orderly since s e) s steps)
    (hrun : Streaming.run pattern since s steps = some s') : Sound since t s' :=
  hmeets.invariant (fun _ _ _ hs hmeet hstep => hs.step hsince hmatch hmeet.1 hmeet.2 hstep) hrun h

theorem Sound.sent_first (h : Sound since t s) :
    above since (messagesOf t s.sent) <+: above since (s.server.published t) := by
  by_cases hjoined : Joined t s
  · rw [← h.flows hjoined, flow]
    simp only [above_append, List.append_assoc]
    exact prefix_append _ _
  · have hnone : messagesOf t s.sent = [] := by
      by_cases hin : t ∈ s.topics
      · rw [Joined, if_pos hin] at hjoined
        rw [h.led.early (by simpa using hjoined)]
        rfl
      · exact (h.watched.apart hin hjoined).1
    rw [hnone]
    exact nil_prefix

def Following (t : Topic) (s : Streaming) : Prop :=
  s.handler = .live ∧ ∃ sub ∈ s.subs t, sub.running = true

def distance (t : Topic) (s : Streaming) : Nat :=
  3 * (unsentOf t s).length + 2 * (channelOf t s).length + s.events.length

theorem Sound.sent_all (h : Sound since t s) (hfollowing : Following t s) (hnear : distance t s = 0) :
    above since (messagesOf t s.sent) = above since (s.server.published t) := by
  obtain ⟨hlive, sub, hsub, hrun⟩ := hfollowing
  obtain ⟨-, haway⟩ := h.forwarding hsub hrun
  have hjoined : Joined t s := by
    rw [Joined]
    split
    · rw [hlive]
      rfl
    · exact ⟨by simp [show s.subs t = some sub from hsub], by simp [haway]⟩
  rw [distance] at hnear
  have hunsent : unsentOf t s = [] := length_eq_zero_iff.mp (by omega)
  have hchannel : channelOf t s = [] := length_eq_zero_iff.mp (by omega)
  have hevents : s.events = [] := length_eq_zero_iff.mp (by omega)
  have hflow := h.flows hjoined
  have hreplay : replayOf since t s = [] := by rw [replayOf, hlive]; rfl
  have hpush : pushOf t s = [] := by rw [pushOf, haway]
  rw [flow, hreplay, hevents, hpush, hunsent, hchannel] at hflow
  simpa using hflow

/-- A message under way can go on: its event is published, forwarded or sent. -/
theorem Sound.advances (pattern : List Byte) (h : Sound since t s) (hfollowing : Following t s)
    (hfar : 0 < distance t s) :
    ∃ e s', Streaming.step pattern since s e = some s' ∧ InScope since s e ∧ Orderly since s e ∧
      s'.server = s.server ∧ Following t s' ∧ distance t s' < distance t s := by
  obtain ⟨hlive, sub, hsub, hrun⟩ := hfollowing
  have hsome : s.subs t = some sub := hsub
  cases hunsent : unsentOf t s with
  | cons m rest =>
    have hmine : m ∈ unsentOf t s := by rw [hunsent]; exact mem_cons_self
    obtain ⟨hmem, hid⟩ := mem_filter.mp hmine
    have hroom : m.roomId = t := of_decide_eq_true hid
    have hsub' : s.publish m t = some { sub with channel := sub.channel ++ [m] } := by
      rw [publish_apply, if_pos hroom.symm, hsome]
      rfl
    refine ⟨.emit m, { s with unsent := s.unsent.erase m, subs := s.publish m }, if_pos hmem,
      trivial, ?_, rfl, ⟨hlive, _, hsub', hrun⟩, ?_⟩
    · intro _ x hx
      rw [hroom, hunsent] at hx
      have hincr := h.fed.unsent_increasing
      rw [hunsent] at hincr
      rcases mem_cons.mp hx with rfl | hrest
      · exact le_refl _
      · exact ((pairwise_cons.mp hincr).1 x hrest).le
    · have hchannel : (channelOf t { s with unsent := s.unsent.erase m, subs := s.publish m }).length =
          (channelOf t s).length + 1 := by
        simp [channelOf, hsub', hsome]
      rw [distance, distance, unsentOf_erase, hunsent, erase_cons_head, length_cons]
      simp only
      omega
  | nil =>
    cases hchannel : sub.channel with
    | cons m channel =>
      have hform : s.subs t = some ⟨m :: channel, sub.skip, true⟩ := by
        rw [hsome, ← hchannel, ← hrun]
      generalize hs' : ({ s with
        subs := s.setSub t ⟨channel, sub.skip, true⟩
        events := s.events ++ forwarded t sub.skip m } : Streaming) = s'
      have hstep : Streaming.step pattern since s (.forward t) = some s' := by
        rw [Streaming.step, hform]
        exact congrArg some hs'
      have hsub' : s'.subs t = some ⟨channel, sub.skip, true⟩ := by
        rw [← hs']
        exact setSub_self s t _
      refine ⟨.forward t, s', hstep, trivial, trivial, by rw [← hs'],
        ⟨by rw [← hs']; exact hlive, _, hsub', rfl⟩, ?_⟩
      have hunsent' : unsentOf t s' = unsentOf t s := by rw [← hs']; rfl
      have hevents : s'.events.length ≤ s.events.length + 1 := by
        rw [← hs', length_append, forwarded]
        split
        · exact Nat.le_succ _
        · exact Nat.le_refl _
      rw [distance, distance, hunsent', channelOf, channelOf, hsub', hform]
      simp only [Option.elim_some, length_cons]
      omega
    | nil =>
      have hempty : channelOf t s = [] := by rw [channelOf, hsome]; exact hchannel
      cases hevents : s.events with
      | nil => simp [distance, hunsent, hempty, hevents] at hfar
      | cons ev events =>
        refine ⟨.receive, { s with events := events, sent := s.sent ++ [ev] }, ?_, trivial,
          trivial, rfl, ⟨hlive, sub, hsub, hrun⟩, ?_⟩
        · rw [Streaming.step, hlive, hevents]
        · rw [distance, distance, hevents]
          exact Nat.lt_succ_self _

theorem Sound.drains (h : Sound since t s) (hsince : 0 ≤ since) (hmatch : matchTopic pattern t = true)
    (hfollowing : Following t s) : ∃ more s', Streaming.run pattern since s more = some s' ∧
      Throughout (Streaming.step pattern since)
        (fun s e => InScope since s e ∧ Orderly since s e) s more ∧ s'.server = s.server ∧
      above since (messagesOf t s'.sent) = above since (s.server.published t) := by
  induction hn : distance t s using Nat.strong_induction_on generalizing s with
  | _ n ih =>
    rcases Nat.eq_zero_or_pos n with hzero | hpos
    · exact ⟨[], s, rfl, trivial, rfl, h.sent_all hfollowing (hn.trans hzero)⟩
    · obtain ⟨e, s₁, hstep, hscope, horderly, hserver, hfollowing₁, hless⟩ :=
        h.advances pattern hfollowing (hn ▸ hpos)
      have h₁ := h.step hsince hmatch hscope horderly hstep
      obtain ⟨more, s', hrun, hmeets, hserver', hsent⟩ :=
        ih (distance t s₁) (hn ▸ hless) h₁ hfollowing₁ rfl
      refine ⟨e :: more, s', ?_, ⟨⟨hscope, horderly⟩, ?_⟩, hserver'.trans hserver, ?_⟩
      · rw [Streaming.run, runAll, hstep]
        exact hrun
      · intro s₂ hs₂
        obtain rfl : s₁ = s₂ := Option.some.inj (hstep.symm.trans hs₂)
        exact hmeets
      · rw [hsent, hserver]

/-- In every run from the start of the server on, of a call with a number between 0
and the newest one, in which no ring drops what is replayed: if no message that
the call asks for is under way when it reads the counter for its replay, and
events of a topic are published in the order of their numbers, then of every
matching topic the messages sent above that number are the first of those
published, each once and in order; and when the forwarder of the topic runs, all
the others follow without further events. -/
theorem stream_delivers (pattern : List Byte) (since : Int) (bufferSize : Int64)
    (bufferBytes maxRooms : Int) (t : Topic) (steps : List StreamStep) (s : Streaming) (hsince : 0 ≤ since)
    (hmatch : matchTopic pattern t = true)
    (hrun : run pattern since (new bufferSize bufferBytes maxRooms) steps = some s)
    (hscope : Throughout (step pattern since) (InScope since) (new bufferSize bufferBytes maxRooms) steps)
    (horderly : Throughout (step pattern since) (Orderly since) (new bufferSize bufferBytes maxRooms)
      steps) : above since (messagesOf t s.sent) <+: above since (s.server.published t) ∧
      ((above since (messagesOf t s.sent)).Pairwise fun a b => a.seq < b.seq) ∧
      (Following t s → ∃ more s', run pattern since s more = some s' ∧
        Throughout (step pattern since) (fun s e => InScope since s e ∧ Orderly since s e) s more ∧
        s'.server = s.server ∧
        above since (messagesOf t s'.sent) = above since (s.server.published t)) := by
  have hs : Sound since t s := (Sound.new bufferSize bufferBytes maxRooms since t).run hsince hmatch
    (hscope.and horderly) hrun
  have hfirst := hs.sent_first
  refine ⟨hfirst, ?_, hs.drains hsince hmatch⟩
  exact (hs.fed.server.published_increasing t).sublist (hfirst.sublist.trans filter_sublist)

section Witness

def firstMessage : Message := { hello with roomId := topicA, seq := 1 }

/-- A room that is found by the watcher, and its first message. -/
def discovered : List StreamStep :=
  [.start, .list [], .spawn, .load, .sort, .send, .create topicA,
    .take topicA hello, .store topicA, .tick [topicA], .scan,
    .emit firstMessage, .fetch, .push, .follow, .forward topicA, .receive, .receive]

theorem discovered_sent : ∃ s, run STAR 0 (new 4 0 0) discovered = some s ∧
      messagesOf topicA s.sent = [firstMessage] ∧ above 0 (messagesOf topicA s.sent) <+:
        above 0 (s.server.published topicA) := by
  refine ⟨_, rfl, by decide +kernel, (stream_delivers STAR 0 4 0 0 topicA discovered _ ?_ ?_
    rfl ?_ ?_).1⟩
  · decide
  · decide
  · decide +kernel
  · decide +kernel

/-- A message is published after the handler has subscribed to its room and before
it reads the counter. -/
def overlapping : List StreamStep :=
  [.create topicA, .start, .list [topicA], .subscribe,
    .take topicA hello, .store topicA, .emit firstMessage, .spawn, .load,
    .replay, .sort, .send, .send, .forward topicA, .receive]

/-- The ring is replayed up to the counter and the subscription delivers the same
message: it is sent twice. -/
theorem overlapping_sent_twice : ∃ s, run STAR 0 (new 4 0 0) overlapping = some s ∧
      Throughout (step STAR 0) (InScope 0) (new 4 0 0) overlapping ∧
      matchTopic STAR topicA = true ∧ s.server.published topicA = [firstMessage] ∧
      messagesOf topicA s.sent = [firstMessage, firstMessage] :=
  ⟨_, rfl, by decide +kernel, by decide, by decide +kernel, by decide +kernel⟩

end Witness

end Streaming

end Unheaded.Wotan
