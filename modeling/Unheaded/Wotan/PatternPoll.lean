import Mathlib.Data.List.TakeWhile
import Unheaded.Lib.Pages
import Unheaded.Lib.Schedules
import Unheaded.Wotan.Server

/-!
# Polling the topics of a pattern

A query for a pattern reads the shared counter, lists the rooms and then reads one ring after the
other, while messages go on arriving everywhere.
-/

namespace Unheaded.Wotan

open Lib Option Queue
open List hiding after

def maxTopicMessagesPage : Int := 1000

/-- The `after_seq` parameter of `GetTopicMessages`; `none` when it is refused. -/
def afterParam : Option Int → Option Int
  | none => some 0
  | some n => if n < 0 then none else some n

/-- The `limit` parameter. -/
def limitParam : Option Int → Option Int
  | none => some maxTopicMessagesPage
  | some n => if n ≤ 0 then none else some (min n maxTopicMessagesPage)

def pageBounds (afterSeq limit : Option Int) : Option (Int × Int) := do
  let after ← afterParam afterSeq
  let limit ← limitParam limit
  some (after, limit)

structure TopicMessage where
  topic : Topic
  msg : Message
  deriving DecidableEq

namespace TopicMessage

def seq (x : TopicMessage) : Int := x.msg.seq

end TopicMessage

/-- `getPatternMessages` under way: after the counter was read, and with the
rooms that are still to be read. -/
inductive Query where
  | idle
  | loaded (after limit upper : Int)
  | reading (after limit upper : Int) (rooms : List Topic) (msgs : List TopicMessage)

/-- A server with one client of a pattern. -/
structure Polling where
  server : Server
  cursor : Int
  query : Query
  delivered : List TopicMessage

inductive PollEvent where
  | act (a : Action)
  | load (limit : Option Int)
  | list (rooms : List Topic)
  | read
  | page

namespace Polling

def new (bufferSize : Int64) (bufferBytes maxRooms cursor : Int) : Polling :=
  { server := .new bufferSize bufferBytes maxRooms, cursor, query := .idle, delivered := [] }

def next (s : Polling) : Option Topic :=
  match s.query with
  | .reading _ _ _ (id :: _) _ => some id
  | _ => none

/-- What a page takes from one ring: the loop stops at the first number that is
too new. -/
def readRing (after limit upper : Int) (r : Room) : Option (List TopicMessage) := do
  let msgs ← r.ring.getAfter after limit
  some ((msgs.takeWhile fun m => decide (m.seq ≤ upper)).map fun m => ⟨r.id, m⟩)

def pageOf (limit : Int) (msgs : List TopicMessage) : List TopicMessage :=
  firstPage TopicMessage.seq limit.toNat msgs

def cursorAfter (cursor : Int) (page : List TopicMessage) : Int :=
  page.getLast?.elim cursor TopicMessage.seq

def step (pattern : List Byte) (s : Polling) : PollEvent → Option Polling
  | .act a => do
    let server ← s.server.act a
    some { s with server := server }
  | .load limit =>
    match s.query, pageBounds (some s.cursor) limit with
    | .idle, some (after, limit) => some { s with query := .loaded after limit s.server.seq }
    | .idle, none => some s
    | _, _ => none
  | .list rooms =>
    match s.query with
    | .loaded after limit upper =>
      -- the rooms of a map, in any order
      if rooms.Perm (s.server.rooms.map Room.id) then
        some { s with query := .reading after limit upper rooms [] }
      else none
    | _ => none
  | .read =>
    match s.query with
    | .reading after limit upper (id :: rooms) msgs =>
      if matchTopic pattern id then do
        let r ← s.server.unlocked id
        let found ← readRing after limit upper r
        some { s with query := .reading after limit upper rooms (msgs ++ found) }
      else some { s with query := .reading after limit upper rooms msgs }
    | _ => none
  | .page =>
    match s.query with
    | .reading _ limit _ [] msgs =>
      some { s with
        query := .idle
        cursor := cursorAfter s.cursor (pageOf limit msgs)
        delivered := s.delivered ++ pageOf limit msgs }
    | _ => none

def run (pattern : List Byte) (s : Polling) (events : List PollEvent) : Option Polling :=
  runAll (step pattern) s events

/-- When its topic is read after the message was stored, the message is in the
ring. -/
def RetainedAt (x : TopicMessage) (s : Polling) : PollEvent → Prop
  | .read => ∀ r ∈ s.server.find x.topic, s.next = some x.topic → x.msg ∈ s.server.history →
      r.pending ≠ some x.msg → ∃ held ∈ r.ring.get, some x.msg ∈ held
  | _ => True

abbrev Retained (pattern : List Byte) (x : TopicMessage) (s : Polling) (events : List PollEvent) :
    Prop := Throughout (step pattern) (RetainedAt x) s events

instance decidableRetainedAt (x : TopicMessage) (s : Polling) :
    (e : PollEvent) → Decidable (RetainedAt x s e)
  | .read => inferInstanceAs (Decidable (∀ r ∈ s.server.find x.topic, s.next = some x.topic →
      x.msg ∈ s.server.history → r.pending ≠ some x.msg → ∃ held ∈ r.ring.get, some x.msg ∈ held))
  | .act _ => isTrue trivial
  | .load _ => isTrue trivial
  | .list _ => isTrue trivial
  | .page => isTrue trivial

/-! ## Steps -/

variable {pattern : List Byte} {s s' : Polling} {e : PollEvent} {x : TopicMessage}

variable {limit : Option Int}

theorem limitParam_pos {n : Int} (h : limitParam limit = some n) : 0 < n := by
  cases limit with
  | none =>
    rw [limitParam, some.injEq, maxTopicMessagesPage] at h
    omega
  | some m =>
    rw [limitParam] at h
    split at h
    · cases h
    · rw [some.injEq, maxTopicMessagesPage] at h
      omega

theorem pageBounds_cursor {cursor after n : Int}
    (h : pageBounds (some cursor) limit = some (after, n)) : after = cursor ∧ 0 < n := by
  simp only [pageBounds, bind_eq_bind, bind_eq_some_iff] at h
  obtain ⟨after', hafter, n', hn, rfl, rfl⟩ := h
  refine ⟨?_, limitParam_pos hn⟩
  rw [afterParam] at hafter
  split at hafter
  · cases hafter
  · exact (some.inj hafter).symm

/-- Everything that a step can do. -/
inductive Steps (pattern : List Byte) (s : Polling) : PollEvent → Polling → Prop where
  | act {a : Action} {server : Server} (acted : s.server.act a = some server) :
      Steps pattern s (.act a) { s with server := server }
  | refused (limit : Option Int) : Steps pattern s (.load limit) s
  | load {limit : Option Int} {n : Int} (positive : 0 < n) :
      Steps pattern s (.load limit) { s with query := .loaded s.cursor n s.server.seq }
  | list {after limit upper : Int} {rooms : List Topic} (loaded : s.query = .loaded after limit upper)
      (all : rooms.Perm (s.server.rooms.map Room.id)) :
      Steps pattern s (.list rooms) { s with query := .reading after limit upper rooms [] }
  | skip {after limit upper : Int} {id : Topic} {rooms : List Topic} {msgs : List TopicMessage}
      (reading : s.query = .reading after limit upper (id :: rooms) msgs)
      (other : matchTopic pattern id = false) :
      Steps pattern s .read { s with query := .reading after limit upper rooms msgs }
  | read {after limit upper : Int} {r : Room} {rooms : List Topic} {msgs found : List TopicMessage}
      (reading : s.query = .reading after limit upper (r.id :: rooms) msgs)
      (room : s.server.find r.id = some r) (free : r.pending = none)
      (taken : readRing after limit upper r = some found) :
      Steps pattern s .read { s with query := .reading after limit upper rooms (msgs ++ found) }
  | page {after limit upper : Int} {msgs : List TopicMessage}
      (reading : s.query = .reading after limit upper [] msgs) :
      Steps pattern s .page
        { s with
          query := .idle
          cursor := cursorAfter s.cursor (pageOf limit msgs)
          delivered := s.delivered ++ pageOf limit msgs }

theorem step_cases (h : step pattern s e = some s') : Steps pattern s e s' := by
  cases e with
  | act a =>
    simp only [step, bind_eq_bind, bind_eq_some_iff, some.injEq] at h
    obtain ⟨server, hact, rfl⟩ := h
    exact .act hact
  | load limit =>
    simp only [step] at h
    split at h
    · rename_i after n hidle hbounds
      obtain ⟨rfl, hpos⟩ := pageBounds_cursor hbounds
      cases h
      exact .load hpos
    · cases h
      exact .refused limit
    · cases h
  | list rooms =>
    simp only [step] at h
    split at h
    · rename_i after limit upper hloaded
      split at h <;> cases h
      rename_i hall
      exact .list hloaded hall
    · cases h
  | read =>
    simp only [step] at h
    split at h
    · rename_i after limit upper id rooms msgs hreading
      split at h
      · simp only [bind_eq_bind, bind_eq_some_iff, some.injEq] at h
        obtain ⟨r, hr, found, htaken, rfl⟩ := h
        obtain ⟨hfound, hfree⟩ := Server.unlocked_some hr
        obtain ⟨-, rfl⟩ := Server.find_some hfound
        exact .read hreading hfound hfree htaken
      · rename_i hother
        cases h
        exact .skip hreading (by simpa using hother)
    · cases h
  | page =>
    simp only [step] at h
    split at h <;> cases h
    rename_i after limit upper msgs hreading
    exact .page hreading

/-! ## What a query has found -/

/-- The cursor and the counter that a query works with. -/
structure Loaded (s : Polling) (after limit upper : Int) : Prop where
  after_eq : after = s.cursor
  positive : 0 < limit
  upper_le : upper ≤ s.server.seq

/-- What a query has found lies between its cursor and its counter, comes from
rooms that it has read, and has no number twice. -/
structure Reading (s : Polling) (after limit upper : Int) (rooms : List Topic)
    (msgs : List TopicMessage) : Prop extends Loaded s after limit upper where
  rooms_nodup : rooms.Nodup
  within : ∀ x ∈ msgs, after < x.seq ∧ x.seq ≤ upper
  taken : ∀ x ∈ msgs, x.msg ∈ s.server.history ∧ x.msg.roomId = x.topic ∧ x.topic ∉ rooms
  distinct : (msgs.map TopicMessage.seq).Nodup

def QuerySound (s : Polling) : Query → Prop
  | .idle => True
  | .loaded after limit upper => Loaded s after limit upper
  | .reading after limit upper rooms msgs => Reading s after limit upper rooms msgs

/-- What holds in every state, for a client that started at `first`. -/
structure Sound (first : Int) (s : Polling) : Prop where
  server : s.server.Sound
  first_le : first ≤ s.cursor
  cursor_le : s.cursor = first ∨ s.cursor ≤ s.server.seq
  increasing : s.delivered.Pairwise fun x y => x.seq < y.seq
  delivered_le : ∀ x ∈ s.delivered, x.seq ≤ s.cursor
  query : QuerySound s s.query

/-! ## One ring -/

section Ring

variable {history : List Message} {q : Queue} {r : Room} {after limit upper : Int}
  {found : List TopicMessage} {m : Message}

variable (hq : r.Sound history q)
include hq

theorem above_increasing (after : Int) :
    (above after q.items).Pairwise fun a b => a.seq < b.seq :=
  hq.increasing.sublist filter_sublist

variable (hlimit : 0 < limit) (hfound : readRing after limit upper r = some found)
include hlimit hfound

theorem readRing_eq : found = (((above after q.items).take limit.toNat).takeWhile
        fun m => decide (m.seq ≤ upper)).map fun m => ⟨r.id, m⟩ := by
  have hpos : ¬ limit ≤ 0 := by omega
  simp only [readRing, bind_eq_bind, bind_eq_some_iff, some.injEq] at hfound
  obtain ⟨page, hpage, rfl⟩ := hfound
  rw [hq.refines.getAfter_eq hpage, getAfter, firstOf, if_neg hpos]

theorem mem_readRing (hx : x ∈ found) :
    x.topic = r.id ∧ x.msg ∈ q.items ∧ after < x.seq ∧ x.seq ≤ upper := by
  obtain rfl := readRing_eq hq hlimit hfound
  obtain ⟨m, hm, rfl⟩ := List.mem_map.mp hx
  have hupper := mem_takeWhile_imp hm
  have htaken := mem_of_mem_take ((takeWhile_sublist _).mem hm)
  rw [above, mem_filter] at htaken
  exact ⟨rfl, htaken.1, of_decide_eq_true htaken.2, of_decide_eq_true hupper⟩

theorem readRing_increasing : found.Pairwise fun x y => x.seq < y.seq := by
  obtain rfl := readRing_eq hq hlimit hfound
  rw [pairwise_map]
  exact (above_increasing hq after).sublist
    ((takeWhile_sublist _).trans (take_sublist _ _))

theorem readRing_covers (hm : m ∈ q.items)
    (hafter : after < m.seq) (hupper : m.seq ≤ upper) : (⟨r.id, m⟩ : TopicMessage) ∈ found ∨
      limit.toNat ≤ (found.filter fun x => decide (x.seq < m.seq)).length := by
  obtain rfl := readRing_eq hq hlimit hfound
  have habove : m ∈ above after q.items := mem_filter.mpr ⟨hm, by simpa using hafter⟩
  have hincr := above_increasing hq after
  rcases mem_take_or_after hincr habove limit.toNat with hfirst | ⟨hfull, hbefore⟩
  · left
    refine List.mem_map_of_mem ?_
    exact mem_takeWhile_le (hincr.sublist (take_sublist _ _)) hfirst hupper
  · right
    have hall : ((above after q.items).take limit.toNat).takeWhile
        (fun m => decide (m.seq ≤ upper)) = (above after q.items).take limit.toNat := by
      rw [takeWhile_eq_self_iff]
      intro y hy
      have := hbefore y hy
      rw [decide_eq_true_eq]
      omega
    rw [hall, List.filter_map, length_map]
    have hkept : ((above after q.items).take limit.toNat).filter
        ((fun x : TopicMessage => decide (x.seq < m.seq)) ∘ fun m => ⟨r.id, m⟩) =
          (above after q.items).take limit.toNat := by
      rw [filter_eq_self]
      intro y hy
      rw [Function.comp_apply, decide_eq_true_eq]
      exact hbefore y hy
    rw [hkept]
    exact hfull

end Ring

/-! ## The page -/

theorem cursorAfter_cases (cursor : Int) (page : List TopicMessage) :
    (page = [] ∧ cursorAfter cursor page = cursor) ∨ ∃ x ∈ page, cursorAfter cursor page = x.seq := by
  cases hlast : page.getLast? with
  | none => exact Or.inl ⟨List.getLast?_eq_none_iff.mp hlast, by rw [cursorAfter, hlast]; rfl⟩
  | some x => exact Or.inr ⟨x, List.mem_of_getLast? hlast, by rw [cursorAfter, hlast]; rfl⟩

theorem le_cursorAfter {cursor : Int} {page : List TopicMessage}
    (hpage : page.Pairwise fun x y => x.seq < y.seq) (hx : x ∈ page) :
    x.seq ≤ cursorAfter cursor page := by
  cases hlast : page.getLast? with
  | none =>
    rw [List.getLast?_eq_none_iff.mp hlast] at hx
    exact absurd hx not_mem_nil
  | some y =>
    rw [cursorAfter, hlast]
    obtain ⟨front, rfl⟩ := List.getLast?_eq_some_iff.mp hlast
    rcases mem_append.mp hx with hfront | hback
    · exact ((pairwise_append.mp hpage).2.2 x hfront y (by simp)).le
    · obtain rfl : x = y := by simpa using hback
      exact le_refl _

/-! ## Every state -/

variable {first : Int}

theorem QuerySound.of_server {server : Server} {query : Query} (h : QuerySound s query)
    (hseq : s.server.seq ≤ server.seq) (hhistory : ∀ m ∈ s.server.history, m ∈ server.history) :
    QuerySound { s with server := server } query := by
  cases query with
  | idle => trivial
  | loaded after limit upper => exact ⟨h.after_eq, h.positive, h.upper_le.trans hseq⟩
  | reading after limit upper rooms msgs =>
    exact
      { after_eq := h.after_eq
        positive := h.positive
        upper_le := h.upper_le.trans hseq
        rooms_nodup := h.rooms_nodup
        within := h.within
        taken := fun x hx => ⟨hhistory _ (h.taken x hx).1, (h.taken x hx).2⟩
        distinct := h.distinct }

variable {after limit upper : Int} {rooms : List Topic} {msgs : List TopicMessage}

theorem Reading.read {r : Room} {found : List TopicMessage} (hs : s.server.Sound)
    (h : Reading s after limit upper (r.id :: rooms) msgs) (hroom : s.server.find r.id = some r)
    (hfound : readRing after limit upper r = some found) :
    Reading s after limit upper rooms (msgs ++ found) := by
  obtain ⟨hr, -⟩ := Server.find_some hroom
  obtain ⟨q, hq⟩ := hs.rooms r hr
  have hmem := fun x (hx : x ∈ found) => mem_readRing hq h.positive hfound hx
  obtain ⟨hfresh, hnodup⟩ := nodup_cons.mp h.rooms_nodup
  refine { h.toLoaded with rooms_nodup := hnodup, within := ?_, taken := ?_, distinct := ?_ }
  · intro x hx
    rcases mem_append.mp hx with hold | hnew
    · exact h.within x hold
    · exact (hmem x hnew).2.2
  · intro x hx
    rcases mem_append.mp hx with hold | hnew
    · obtain ⟨htaken, hid, hnot⟩ := h.taken x hold
      exact ⟨htaken, hid, fun hin => hnot (mem_cons_of_mem _ hin)⟩
    · obtain ⟨htopic, hitem, -⟩ := hmem x hnew
      obtain ⟨htaken, hid⟩ := hq.taken x.msg hitem
      exact ⟨htaken, hid.trans htopic.symm, htopic ▸ hfresh⟩
  · -- a number of another room belongs to another message
    rw [map_append, nodup_append]
    refine ⟨h.distinct, ?_, ?_⟩
    · exact (pairwise_map.mpr (readRing_increasing hq h.positive hfound)).imp
        fun hlt => ne_of_lt hlt
    · intro n hn n' hn' heq
      obtain ⟨x, hx, rfl⟩ := List.mem_map.mp hn
      obtain ⟨y, hy, rfl⟩ := List.mem_map.mp hn'
      obtain ⟨htaken, hid, hnot⟩ := h.taken x hx
      obtain ⟨-, hitem, -⟩ := hmem y hy
      obtain ⟨htaken', hid'⟩ := hq.taken y.msg hitem
      have hsame : x.msg = y.msg := hs.eq_of_seq htaken htaken' heq
      apply hnot
      rw [← hid, hsame, hid']
      exact mem_cons_self

theorem Reading.page_increasing (h : Reading s after limit upper rooms msgs) :
    (pageOf limit msgs).Pairwise fun x y => x.seq < y.seq := increasing_firstPage h.distinct

theorem Reading.page_within (h : Reading s after limit upper rooms msgs)
    (hx : x ∈ pageOf limit msgs) : s.cursor < x.seq ∧ x.seq ≤ upper :=
  h.after_eq ▸ h.within x (mem_of_mem_firstPage hx)

theorem Sound.new (bufferSize : Int64) (bufferBytes maxRooms first : Int) :
    Sound first (new bufferSize bufferBytes maxRooms first) where
  server := Server.Sound.new bufferSize bufferBytes maxRooms
  first_le := le_refl _
  cursor_le := Or.inl rfl
  increasing := List.Pairwise.nil
  delivered_le _ hx := absurd hx not_mem_nil
  query := trivial

theorem Sound.page (h : Sound first s) (hreading : Reading s after limit upper [] msgs) :
    Sound first { s with
      query := .idle
      cursor := cursorAfter s.cursor (pageOf limit msgs)
      delivered := s.delivered ++ pageOf limit msgs } := by
  have hpage := hreading.page_increasing
  have hforward : s.cursor ≤ cursorAfter s.cursor (pageOf limit msgs) := by
    rcases cursorAfter_cases s.cursor (pageOf limit msgs) with ⟨-, heq⟩ | ⟨x, hx, heq⟩
    · exact heq.ge
    · rw [heq]
      exact (hreading.page_within hx).1.le
  refine ⟨h.server, h.first_le.trans hforward, ?_, ?_, ?_, trivial⟩
  · rcases cursorAfter_cases s.cursor (pageOf limit msgs) with ⟨-, heq⟩ | ⟨x, hx, heq⟩
    · rw [heq]
      exact h.cursor_le
    · right
      rw [heq]
      exact (hreading.page_within hx).2.trans hreading.upper_le
  · refine pairwise_append.mpr ⟨h.increasing, hpage, ?_⟩
    intro x hx y hy
    exact (h.delivered_le x hx).trans_lt (hreading.page_within hy).1
  · intro x hx
    rcases mem_append.mp hx with hold | hnew
    · exact (h.delivered_le x hold).trans hforward
    · exact le_cursorAfter hpage hnew

theorem Sound.step (h : Sound first s) (hstep : Polling.step pattern s e = some s') :
    Sound first s' := by
  cases step_cases hstep with
  | act acted =>
    have hacts := h.server.acts acted
    refine ⟨h.server.step acted, h.first_le, ?_, h.increasing, h.delivered_le,
      h.query.of_server hacts.seq_le fun m hm => hacts.mem_history hm⟩
    exact h.cursor_le.imp_right fun hle => hle.trans hacts.seq_le
  | refused limit => exact h
  | load positive =>
    exact ⟨h.server, h.first_le, h.cursor_le, h.increasing, h.delivered_le,
      rfl, positive, le_refl _⟩
  | list loaded all =>
    have hloaded := h.query
    rw [loaded] at hloaded
    refine ⟨h.server, h.first_le, h.cursor_le, h.increasing, h.delivered_le, ?_⟩
    exact
      { after_eq := hloaded.after_eq
        positive := hloaded.positive
        upper_le := hloaded.upper_le
        rooms_nodup := all.nodup_iff.mpr h.server.ids
        within := fun x hx => absurd hx not_mem_nil
        taken := fun x hx => absurd hx not_mem_nil
        distinct := nodup_nil }
  | skip reading other =>
    have hreading := h.query
    rw [reading] at hreading
    refine ⟨h.server, h.first_le, h.cursor_le, h.increasing, h.delivered_le, ?_⟩
    exact
      { after_eq := hreading.after_eq
        positive := hreading.positive
        upper_le := hreading.upper_le
        rooms_nodup := (nodup_cons.mp hreading.rooms_nodup).2
        within := hreading.within
        taken := fun x hx => ⟨(hreading.taken x hx).1, (hreading.taken x hx).2.1,
          fun hin => (hreading.taken x hx).2.2 (mem_cons_of_mem _ hin)⟩
        distinct := hreading.distinct }
  | read reading room free taken =>
    have hreading := h.query
    rw [reading] at hreading
    have hread := Reading.read h.server hreading room taken
    exact ⟨h.server, h.first_le, h.cursor_le, h.increasing, h.delivered_le,
      { hread with }⟩
  | page reading =>
    have hreading := h.query
    rw [reading] at hreading
    exact h.page hreading

/-! ## Nothing is passed over -/

/-- A message of the pattern that the cursor has passed was delivered; and once
its ring was read it is found, or a whole page of older ones is. -/
structure Served (first : Int) (x : TopicMessage) (s : Polling) : Prop where
  passed : x.msg ∈ s.server.history → first < x.seq → x.seq ≤ s.cursor → x ∈ s.delivered
  found : ∀ after limit upper rooms msgs, s.query = .reading after limit upper rooms msgs →
    x.msg ∈ s.server.history → after < x.seq → x.seq ≤ upper → x.topic ∉ rooms →
    x ∈ msgs ∨ limit.toNat ≤ (msgs.filter fun y => decide (y.seq < x.seq)).length

theorem mem_items_of_retained {r : Room} {q : Queue}
    (hq : r.Sound s.server.history q) (hretained : RetainedAt x s .read)
    (hnext : s.next = some x.topic) (hroom : s.server.find x.topic = some r)
    (hfree : r.pending = none) (htaken : x.msg ∈ s.server.history) : x.msg ∈ q.items := by
  obtain ⟨held, hget, hmem⟩ := hretained r hroom hnext htaken (by simp [hfree])
  rw [hq.refines.get_eq hget] at hmem
  simpa using hmem

theorem Served.page_covers (h : Served first x s) (hreading : Reading s after limit upper [] msgs)
    (hquery : s.query = .reading after limit upper [] msgs) (htaken : x.msg ∈ s.server.history)
    (hafter : after < x.seq) (hupper : x.seq ≤ upper) : x ∈ pageOf limit msgs ∨
      (limit.toNat ≤ (pageOf limit msgs).length ∧ ∀ y ∈ pageOf limit msgs, y.seq < x.seq) := by
  rcases h.found _ _ _ _ _ hquery htaken hafter hupper not_mem_nil with hfound | hfull
  · exact mem_firstPage_or_after hreading.distinct hfound
  · exact Or.inr (firstPage_below hfull)

theorem Served.page (h : Served first x s) (hs : Sound first s)
    (hquery : s.query = .reading after limit upper [] msgs) : Served first x { s with
      query := .idle
      cursor := cursorAfter s.cursor (pageOf limit msgs)
      delivered := s.delivered ++ pageOf limit msgs } := by
  have hreading : Reading s after limit upper [] msgs := by
    have hsound := hs.query
    rwa [hquery] at hsound
  refine ⟨fun htaken hfirst hpassed => ?_, fun _ _ _ _ _ hidle => absurd hidle (by simp)⟩
  by_cases hold : x.seq ≤ s.cursor
  · exact mem_append_left _ (h.passed htaken hfirst hold)
  · -- the cursor is now the last number of the page
    rcases cursorAfter_cases s.cursor (pageOf limit msgs) with ⟨-, heq⟩ | ⟨y, hy, heq⟩
    · simp only [heq] at hpassed
      exact absurd hpassed hold
    · have hlast := hreading.page_within hy
      simp only [heq] at hpassed
      have hafter : after < x.seq := by
        rw [hreading.after_eq]
        omega
      rcases h.page_covers hreading hquery htaken hafter (hpassed.trans hlast.2) with hin | ⟨-, hbefore⟩
      · exact mem_append_right _ hin
      · have := hbefore y hy
        omega

theorem Served.step (h : Served first x s) (hs : Sound first s) (hid : x.msg.roomId = x.topic)
    (hmatch : matchTopic pattern x.topic = true) (hretained : RetainedAt x s e)
    (hstep : Polling.step pattern s e = some s') : Served first x s' := by
  cases step_cases hstep with
  | act acted =>
    -- a new number is above the cursor and above the counter of the query
    have hacts := hs.server.acts acted
    constructor
    · intro htaken hfirst hpassed
      rcases hacts.new_message htaken with hold | hnew
      · exact h.passed hold hfirst hpassed
      · rcases hs.cursor_le with heq | hle
        · simp only at hpassed
          omega
        · have := hpassed.trans hle
          exact absurd hnew (not_lt.mpr this)
    · intro after limit upper rooms msgs hquery htaken hafter hupper hread
      have hsound := hs.query
      rw [hquery] at hsound
      rcases hacts.new_message htaken with hold | hnew
      · exact h.found _ _ _ _ _ hquery hold hafter hupper hread
      · exact absurd hnew (not_lt.mpr (hupper.trans hsound.upper_le))
  | refused limit => exact h
  | load positive => exact ⟨h.passed, fun _ _ _ _ _ hquery => absurd hquery (by simp)⟩
  | list loaded all =>
    refine ⟨h.passed, fun after limit upper rooms msgs hquery htaken _ _ hread => ?_⟩
    obtain ⟨-, -, -, rfl, -⟩ := hquery
    obtain ⟨r, hr, hrid⟩ := hs.server.housed x.msg htaken
    refine absurd (all.mem_iff.mpr ?_) hread
    rw [← hid, ← hrid]
    exact List.mem_map_of_mem hr
  | skip reading other =>
    refine ⟨h.passed, fun after limit upper rooms msgs hquery htaken hafter hupper hread => ?_⟩
    obtain ⟨rfl, rfl, rfl, rfl, rfl⟩ := hquery
    refine h.found _ _ _ _ _ reading htaken hafter hupper ?_
    intro hin
    rcases mem_cons.mp hin with heq | hrest
    · simp [heq, other] at hmatch
    · exact hread hrest
  | read reading room free taken =>
    rename_i after limit upper r rooms msgs found
    refine ⟨h.passed, fun after limit upper rooms msgs hquery htaken hafter hupper hread => ?_⟩
    obtain ⟨rfl, rfl, rfl, rfl, rfl⟩ := hquery
    have hsound := hs.query
    rw [reading] at hsound
    have hgrow : ∀ left right : List TopicMessage, limit.toNat ≤ left.length ∨
        limit.toNat ≤ right.length → limit.toNat ≤ (left ++ right).length := by
      intro left right hlen
      rw [length_append]
      omega
    by_cases htopic : x.topic = r.id
    · obtain ⟨hr, -⟩ := Server.find_some room
      obtain ⟨q, hq⟩ := hs.server.rooms r hr
      have hnext : s.next = some x.topic := by rw [next, reading, htopic]
      have hitem := mem_items_of_retained hq hretained hnext (htopic ▸ room) free htaken
      rcases readRing_covers hq hsound.positive taken hitem hafter hupper with hin | hfull
      · left
        refine mem_append_right _ ?_
        rwa [← htopic] at hin
      · right
        rw [filter_append]
        exact hgrow _ _ (Or.inr hfull)
    · have hold : x.topic ∉ r.id :: rooms := by
        intro hin
        rcases mem_cons.mp hin with heq | hrest
        · exact htopic heq
        · exact hread hrest
      rcases h.found _ _ _ _ _ reading htaken hafter hupper hold with hin | hfull
      · exact Or.inl (mem_append_left _ hin)
      · right
        rw [filter_append]
        exact hgrow _ _ (Or.inl hfull)
  | page reading => exact h.page hs reading

theorem Served.new (bufferSize : Int64) (bufferBytes maxRooms first : Int) (x : TopicMessage) :
    Served first x (new bufferSize bufferBytes maxRooms first) where
  passed htaken := absurd htaken not_mem_nil
  found _ _ _ _ _ hquery := absurd hquery (by simp [Polling.new])

/-! ## Runs -/

variable {events : List PollEvent}

theorem Sound.run (h : Sound first s) (hrun : Polling.run pattern s events = some s') :
    Sound first s' :=
  runAll_invariant (fun _ _ _ hs hstep => hs.step hstep) hrun h

theorem Served.run (h : Served first x s) (hs : Sound first s) (hid : x.msg.roomId = x.topic)
    (hmatch : matchTopic pattern x.topic = true) (hretained : Retained pattern x s events)
    (hrun : Polling.run pattern s events = some s') : Served first x s' := by
  have preserved : ∀ s e s', Sound first s ∧ Served first x s → RetainedAt x s e →
      Polling.step pattern s e = some s' → Sound first s' ∧ Served first x s' := by
    intro s e s' hinv hret hstep
    exact ⟨hinv.1.step hstep, hinv.2.step hinv.1 hid hmatch hret hstep⟩
  exact (hretained.invariant preserved hrun ⟨hs, h⟩).2

/-- However publishes and reads are interleaved: the pages never repeat a
message, since their numbers increase throughout, and never pass one over.  A
message of a matching topic with a number above the client's first cursor, still
in its ring whenever the topic is read, is delivered by the time the cursor has
reached its number; and a page that is not full delivers all such messages up to
the counter that the query read first. -/
theorem pages_gapless (pattern : List Byte) (bufferSize : Int64) (bufferBytes maxRooms first : Int)
    (events : List PollEvent) (s : Polling)
    (hrun : run pattern (new bufferSize bufferBytes maxRooms first) events = some s) :
    (s.delivered.Pairwise fun x y => x.seq < y.seq) ∧
      ∀ x : TopicMessage, matchTopic pattern x.topic = true → x.msg.roomId = x.topic →
        x.msg ∈ s.server.history → first < x.seq →
        Retained pattern x (new bufferSize bufferBytes maxRooms first) events →
        (x.seq ≤ s.cursor → x ∈ s.delivered) ∧
        ∀ before s₀ after limit upper msgs, events = before ++ [PollEvent.page] →
          run pattern (new bufferSize bufferBytes maxRooms first) before = some s₀ →
          s₀.query = .reading after limit upper [] msgs →
          ((pageOf limit msgs).length : Int) < limit → x.seq ≤ upper → x ∈ s.delivered := by
  have hstart := Sound.new bufferSize bufferBytes maxRooms first
  refine ⟨(hstart.run hrun).increasing, ?_⟩
  intro x hmatch hid htaken hfirst hretained
  have hserved := Served.new bufferSize bufferBytes maxRooms first x
  refine ⟨(hserved.run hstart hid hmatch hretained hrun).passed htaken hfirst, ?_⟩
  rintro before s₀ after limit upper msgs rfl hbefore hquery hshort hupper
  have hs₀ := hstart.run hbefore
  have hserved₀ := hserved.run hstart hid hmatch hretained.left hbefore
  have hreading : Reading s₀ after limit upper [] msgs := by
    have hsound := hs₀.query
    rwa [hquery] at hsound
  rw [run, runAll_append, ← run, hbefore] at hrun
  simp only [bind_some, runAll, step, hquery, some.injEq] at hrun
  subst hrun
  by_cases hold : x.seq ≤ s₀.cursor
  · exact mem_append_left _ (hserved₀.passed htaken hfirst hold)
  · have hafter : after < x.seq := by
      rw [hreading.after_eq]
      omega
    rcases hserved₀.page_covers hreading hquery htaken hafter hupper with hin | ⟨hfull, -⟩
    · exact mem_append_right _ hin
    · omega

section Witness

def topicA : Topic := [0x61]

def topicB : Topic := [0x62]

def hello : Message := ⟨1, 2, [], [0x68, 0x69], none, 0⟩

/-- A message arrives in one room while the query has the counter already, and is
left to the next page. -/
def lateMessage : List PollEvent :=
  [.act (.create topicA), .act (.create topicB), .act (.take topicA hello), .act (.store topicA),
    .load none, .act (.take topicB hello), .list [topicB, topicA], .act (.store topicB),
    .read, .read, .page, .load (some 5), .list [topicA, topicB], .read, .read, .page]

theorem late_message_delivered : ∃ s, run STAR (new 4 0 0 0) lateMessage = some s ∧
      (s.delivered.Pairwise fun x y => x.seq < y.seq) ∧
      ⟨topicB, { hello with roomId := topicB, seq := 2 }⟩ ∈ s.delivered := by
  refine ⟨_, rfl, (pages_gapless STAR 4 0 0 0 lateMessage _ rfl).1, ?_⟩
  refine ((pages_gapless STAR 4 0 0 0 lateMessage _ rfl).2 _ rfl rfl ?_ ?_ ?_).1 ?_
  · decide
  · decide
  · decide +kernel
  · decide

end Witness

end Polling

end Unheaded.Wotan
