import Unheaded.Wotan.Queue

/-!
# Runs of the ring buffer

A sequence of calls on one buffer, with the numbers that other buffers take
from a shared counter in between, has the replies of the same calls on the
bounded queue.
-/

namespace Unheaded.Wotan

open List Option RingBuffer

/-- A call on the buffer, or `n` numbers taken from the shared counter by other
buffers. -/
inductive Op where
  | push (msg : Message)
  | get
  | getAfter (after limit : Int)
  | delete (id creatorId : Uuid) (content : List Byte)
  | evictOldest
  | setMaxBytes (n : Int)
  | elsewhere (n : Nat)

inductive Reply where
  | pushed (msg : Message) (overwritten : Bool)
  | pointers (msgs : List (Option Message))
  | messages (msgs : List Message)
  | deleted (found : Bool)
  | freed (footprint : Nat)
  | done

namespace RingBuffer

def apply (counter : Int) (rb : RingBuffer) : Op → Option (Reply × Int × RingBuffer)
  | .push msg => (rb.push counter msg).map fun (msg, overwritten, counter, rb) =>
    (.pushed msg overwritten, counter, rb)
  | .get => rb.get.map fun msgs => (.pointers msgs, counter, rb)
  | .getAfter after limit => (rb.getAfter after limit).map fun msgs => (.messages msgs, counter, rb)
  | .delete id creatorId content => (rb.delete id creatorId content).map fun (found, rb) =>
    (.deleted found, counter, rb)
  | .evictOldest => rb.evictOldest.map fun (n, rb) => (.freed n, counter, rb)
  | .setMaxBytes n => some (.done, counter, rb.setMaxBytes n)
  | .elsewhere n => some (.done, counter + n, rb)

def run : List Op → Int → RingBuffer → Option (List Reply × Int × RingBuffer)
  | [], counter, rb => some ([], counter, rb)
  | op :: ops, counter, rb => do
    let (reply, counter, rb) ← rb.apply counter op
    let (replies, counter, rb) ← run ops counter rb
    some (reply :: replies, counter, rb)

end RingBuffer

namespace Queue

def new (size budget : Int) (shared : Bool) : Queue where
  capacity := if size ≤ 0 then 1000 else size.toNat
  budget := budget.toNat
  items := []
  lastSeq := 0
  shared := shared

def apply (counter : Int) (q : Queue) : Op → Reply × Int × Queue
  | .push msg =>
    let (msg, dropped, counter, q) := q.push counter msg
    (.pushed msg dropped, counter, q)
  | .get => (.pointers (q.items.map some), counter, q)
  | .getAfter after limit => (.messages (q.getAfter after limit), counter, q)
  | .delete id creatorId content =>
    let (found, q) := q.delete id creatorId content
    (.deleted found, counter, q)
  | .evictOldest =>
    let (n, q) := q.evictOldest
    (.freed n, counter, q)
  | .setMaxBytes n => (.done, counter, { q with budget := n.toNat })
  | .elsewhere n => (.done, counter + n, q)

def run : List Op → Int → Queue → List Reply × Int × Queue
  | [], counter, q => ([], counter, q)
  | op :: ops, counter, q =>
    let (reply, counter, q) := q.apply counter op
    let (replies, counter, q) := run ops counter q
    (reply :: replies, counter, q)

def frontier (counter : Int) (q : Queue) : Int := if q.shared then counter else q.lastSeq

/-- Numbers increase from the oldest message to the newest, and none is above the
last one taken. -/
structure Ordered (counter : Int) (q : Queue) : Prop where
  increasing : q.items.Pairwise (·.seq < ·.seq)
  bounded : ∀ m ∈ q.items, m.seq ≤ q.frontier counter

theorem lastOf_suffix (capacity : Nat) (items : List Message) : lastOf capacity items <:+ items :=
  drop_suffix _ _

theorem pushSeq_suffix (seq : Int) (msg : Message) (q : Queue) :
    (q.pushSeq seq msg).2.2.items <:+ q.items ++ [{ msg with seq := seq }] :=
  (trimTo_suffix _ _).trans (lastOf_suffix _ _)

variable {counter : Int} {q q' : Queue}

theorem Ordered.of_sublist {counter' : Int} (h : Ordered counter q)
    (hitems : List.Sublist q'.items q.items) (hfrontier : q.frontier counter ≤ q'.frontier counter') :
    Ordered counter' q' where
  increasing := h.increasing.sublist hitems
  bounded m hm := (h.bounded m (hitems.mem hm)).trans hfrontier

theorem Ordered.push (h : Ordered counter q) (msg : Message) :
    Ordered (q.push counter msg).2.2.1 (q.push counter msg).2.2.2 := by
  have hnew : ∀ m ∈ q.items, m.seq < (q.nextSeq counter).1 := by
    intro m hm
    have hbound := h.bounded m hm
    rw [frontier] at hbound
    rw [nextSeq]
    cases hshared : q.shared with
    | true =>
      rw [hshared] at hbound
      exact Int.lt_add_one_of_le hbound
    | false =>
      rw [hshared] at hbound
      exact Int.lt_add_one_of_le hbound
  have hfrontier : (q.push counter msg).2.2.2.frontier (q.push counter msg).2.2.1 =
      (q.nextSeq counter).1 := by
    cases hshared : q.shared <;> simp [Queue.push, pushSeq, frontier, nextSeq, hshared]
  have hsuffix := (pushSeq_suffix (q.nextSeq counter).1 msg q).sublist
  constructor
  · refine List.Pairwise.sublist hsuffix (pairwise_append.mpr ⟨h.increasing, by simp, ?_⟩)
    intro m hm m' hm'
    rw [mem_singleton] at hm'
    subst hm'
    exact hnew m hm
  · intro m hm
    rw [hfrontier]
    rcases mem_append.mp (hsuffix.mem hm) with hold | hlast
    · exact (hnew m hold).le
    · rw [mem_singleton] at hlast
      rw [hlast]

theorem Ordered.apply (h : Ordered counter q) (op : Op) :
    Ordered (q.apply counter op).2.1 (q.apply counter op).2.2 := by
  cases op with
  | push msg => exact h.push msg
  | get => exact h
  | getAfter after limit => exact h
  | delete id creatorId content => exact h.of_sublist eraseP_sublist (le_refl _)
  | evictOldest => exact h.of_sublist (tail_sublist _) (le_refl _)
  | setMaxBytes n => exact h.of_sublist (List.Sublist.refl _) (le_refl _)
  | elsewhere n =>
    refine h.of_sublist (List.Sublist.refl _) ?_
    cases hshared : q.shared <;> simp [Queue.apply, frontier, hshared]

theorem run_capacity (ops : List Op) (counter : Int) (q : Queue) :
    (q.run ops counter).2.2.capacity = q.capacity := by
  induction ops generalizing counter q with
  | nil => rfl
  | cons op ops ih =>
    refine (ih _ _).trans ?_
    cases op <;> rfl

theorem Ordered.run (ops : List Op) (h : Ordered counter q) :
    Ordered (q.run ops counter).2.1 (q.run ops counter).2.2 := by
  induction ops generalizing counter q with
  | nil => exact h
  | cons op ops ih => exact ih (h.apply op)

end Queue

namespace RingBuffer

variable {rb : RingBuffer} {q : Queue}

theorem new_refines {size : Int} (fits : size < 2 ^ 63) (budget : Int) (shared : Bool) :
    ((new size shared).setMaxBytes budget).Refines (Queue.new size budget shared) := by
  have hpos : 0 < (if size ≤ 0 then 1000 else size.toNat) := by
    split <;> omega
  have hfits : (if size ≤ 0 then 1000 else size.toNat) < 2 ^ 63 := by
    split <;> omega
  have hnear : (0 : Int) - (0 : Nat) + (if size ≤ 0 then 1000 else size.toNat : Nat) ≤ 2 ^ 63 := by
    omega
  refine @Refines.setMaxBytes _ { Queue.new size budget shared with budget := 0 } ?_ budget
  exact ⟨⟨hpos, hfits, rfl, Nat.zero_le _, le_refl 0, Int.natCast_pos.mpr hpos, le_refl 0, hnear,
    Nat.zero_le _, Nat.min_le_left _ _, Or.inr (le_refl 0), Lib.Window.nil _ _ _, rfl⟩, rfl, rfl,
    rfl, rfl⟩

/-- With at most `2 ^ 62` slots no call panics. -/
theorem Refines.apply (h : rb.Refines q) (small : q.capacity ≤ 2 ^ 62) (counter : Int) (op : Op) :
    ∃ rb', rb.apply counter op = some ((q.apply counter op).1, (q.apply counter op).2.1, rb') ∧
      rb'.Refines (q.apply counter op).2.2 := by
  have hsmall : rb.size ≤ 2 ^ 62 := h.size_eq ▸ small
  cases op with
  | push msg =>
    rcases h.push counter msg with panics | ⟨rb', hpush, hrefines⟩
    · exact panics.elim hsmall
    · exact ⟨rb', by rw [RingBuffer.apply, hpush]; rfl, hrefines⟩
  | get =>
    rcases h.represents.get_cases with panics | hget
    · exact panics.elim hsmall
    · exact ⟨rb, by rw [RingBuffer.apply, hget]; rfl, h⟩
  | getAfter after limit =>
    rcases h.represents.getAfter_cases after limit with panics | hget
    · exact panics.elim hsmall
    · exact ⟨rb, by rw [RingBuffer.apply, hget]; rfl, h⟩
  | delete id creatorId content =>
    obtain ⟨rb', hdelete, hrefines⟩ := h.delete hsmall id creatorId content
    exact ⟨rb', by rw [RingBuffer.apply, hdelete]; rfl, hrefines⟩
  | evictOldest =>
    rcases h.evictOldest with panics | ⟨rb', hevict, hrefines⟩
    · exact panics.elim hsmall
    · exact ⟨rb', by rw [RingBuffer.apply, hevict]; rfl, hrefines⟩
  | setMaxBytes n => exact ⟨rb.setMaxBytes n, rfl, h.setMaxBytes n⟩
  | elsewhere n => exact ⟨rb, rfl, h⟩

theorem Refines.run (h : rb.Refines q) (small : q.capacity ≤ 2 ^ 62) (counter : Int)
    (ops : List Op) : ∃ rb', rb.run ops counter =
        some ((q.run ops counter).1, (q.run ops counter).2.1, rb') ∧
      rb'.Refines (q.run ops counter).2.2 := by
  induction ops generalizing counter rb q with
  | nil => exact ⟨rb, rfl, h⟩
  | cons op ops ih =>
    obtain ⟨rb₁, happly, h₁⟩ := h.apply small counter op
    have small₁ : (q.apply counter op).2.2.capacity ≤ 2 ^ 62 := by
      cases op <;> exact small
    obtain ⟨rb₂, hrun, h₂⟩ := ih h₁ small₁ (q.apply counter op).2.1
    refine ⟨rb₂, ?_, h₂⟩
    simp only [run, happly, Option.bind_eq_bind, Option.bind_some, hrun]
    rfl

theorem run_append (ops more : List Op) (counter : Int) (rb : RingBuffer) {replies : List Reply}
    {counter' : Int} {rb' : RingBuffer} (ran : rb.run ops counter = some (replies, counter', rb')) :
    rb.run (ops ++ more) counter =
      (rb'.run more counter').map fun r => (replies ++ r.1, r.2.1, r.2.2) := by
  induction ops generalizing counter rb replies with
  | nil =>
    cases ran
    rw [nil_append]
    cases rb'.run more counter' <;> rfl
  | cons op ops ih =>
    simp only [run, bind_eq_bind, bind_eq_some_iff, Option.some.injEq, Prod.mk.injEq] at ran
    obtain ⟨⟨reply, c₁, rb₁⟩, first, ⟨rs, c₂, rb₂⟩, rest, rfl, rfl, rfl⟩ := ran
    rw [cons_append, run, first, bind_eq_bind, bind_some]
    dsimp only
    rw [ih _ _ rest]
    cases rb₂.run more c₂ <;> rfl

/-! ## Sizes above `2 ^ 62`

The sum that gives the place of the oldest message comes to `2 ^ 63` once enough messages have come
and gone.
-/

/-- An empty buffer of `n` slots of which the first `k` have been used. -/
structure Cleared (rb : RingBuffer) (n k : Nat) : Prop where
  size : rb.size = n
  head : rb.head = k
  count : rb.count = 0
  slots : rb.buffer.length = k
  cap_ge : k ≤ rb.cap
  cap_le : rb.cap ≤ n
  budget : rb.maxBytes = 0
  bytes : rb.bytes = 0

/-- One message behind `k` used slots. -/
structure Single (rb : RingBuffer) (n k : Nat) (m : Message) : Prop where
  size : rb.size = n
  head : rb.head = k + 1
  count : rb.count = 1
  slots : rb.buffer.length = k + 1
  stored : rb.buffer[k]? = some (some m)
  cap_ge : k + 1 ≤ rb.cap
  cap_le : rb.cap ≤ n
  budget : rb.maxBytes = 0
  bytes : rb.bytes = msgBytes m

variable {n k : Nat} {m : Message}

theorem Cleared.push (cleared : rb.Cleared n k) (room : k + 1 < n) (fits : n < 2 ^ 63)
    (counter : Int) (msg : Message) : ∃ stored dropped counter' rb',
      rb.push counter msg = some (stored, dropped, counter', rb') ∧ rb'.Single n k stored ∧
      msgBytes stored = msgBytes msg := by
  obtain ⟨slots, cap, n, head, count, wrapping, lastSeq, maxBytes, bytes, shared⟩ := rb
  obtain ⟨rfl, rfl, rfl, length, capGe, capLe, rfl, rfl⟩ := cleared
  dsimp only at length capGe capLe room fits ⊢
  generalize hcap : (if cap = k then min n (max initialSlots (2 * cap)) else cap) = cap'
  have capacity : k + 1 ≤ cap' ∧ cap' ≤ n := by
    rw [← hcap, initialSlots]
    split <;> omega
  have next (rb : RingBuffer) (size : rb.size = n) : rb.wrapped (k + 1) = k + 1 := by
    rw [show (k + 1 : Int) = (k + 1 : Nat) from rfl, wrapped_eq (by omega), size,
      Nat.mod_eq_of_lt room]
  have apart : 0 ≠ n := by omega
  have filled (msg : Message) : (slots ++ [none]).set k (some msg) = slots ++ [some msg] := by
    rw [← length, set_append_right _ _ (Nat.le_refl _), Nat.sub_self]
    rfl
  have inside : (0 : Int) ≤ k ∧ (k : Int) < (slots ++ [none]).length := by
    rw [length_append, length, length_singleton]
    omega
  rw [push]
  generalize nextSeq counter _ = number
  simp only [pushSeq, discount, place, extend, grow, hcap, capacity.1, store, inside, apart, filled,
    length, and_self, if_true, if_false, bind_eq_bind, bind_some, Int.toNat_natCast]
  rw [next _ rfl, if_pos (by omega), trim, if_neg (by simp)]
  exact ⟨_, _, _, _, rfl, ⟨rfl, rfl, rfl, by simp [length], length ▸ getElem?_concat_length,
    capacity.1, capacity.2, rfl, Int.zero_add _⟩, rfl⟩

theorem Single.oldest_eq (single : rb.Single n k m) : rb.oldest = rb.wrapped (k + n : Nat) := by
  rw [oldest, single.head, single.count, single.size]
  congr 1
  omega

theorem Single.evict (single : rb.Single n k m) (room : k < n) (fits : k + n < 2 ^ 63) :
    ∃ rb', rb.evictOldest = some (msgBytes m + messageOverhead, rb') ∧ rb'.Cleared n (k + 1) := by
  have oldest : rb.oldest = k := by
    rw [single.oldest_eq, wrapped_eq fits, single.size, Nat.add_mod_right, Nat.mod_eq_of_lt room]
  have deref : rb.deref k = some m := by
    rw [deref, slot_natCast, single.stored]
    rfl
  have inside : k < rb.buffer.length := by
    rw [single.slots]
    exact Nat.lt_succ_self k
  refine ⟨{ rb with
    buffer := rb.buffer.set k none
    bytes := rb.bytes - msgBytes m
    count := rb.count - 1 }, ?_, ?_⟩
  · rw [evictOldest, if_neg (by rw [single.count]; decide)]
    simp [dropOldest, deref, oldest, store, inside]
  · refine ⟨single.size, single.head, ?_, ?_, single.cap_ge, single.cap_le, single.budget, ?_⟩
    · exact congrArg (· - 1) single.count
    · exact length_set.trans single.slots
    · exact Int.sub_eq_zero.mpr single.bytes

/-- The sum for the place of the oldest message wraps to a negative index. -/
theorem Single.stuck (single : rb.Single n k m) (sum : k + n = 2 ^ 63) (large : 2 ^ 62 < n)
    (fits : n < 2 ^ 63) : rb.evictOldest = none ∧ rb.get = none := by
  have size : rb.size = n := single.size
  have oldest : rb.oldest = -(2 ^ 63 - rb.size : Nat) := by
    rw [single.oldest_eq, sum]
    exact wrapped_top (size ▸ large) (size ▸ fits)
  constructor
  · rw [evictOldest, if_neg (by rw [single.count]; decide), dropOldest, deref, oldest,
      slot_neg (by omega)]
    rfl
  · refine Lib.mapM_none (mem_range.mpr (single.count ▸ Nat.one_pos)) ?_
    rw [oldest, Int.natCast_zero, Int.add_zero, wrapped_neg (by omega) (size ▸ fits),
      slot_neg (by omega)]

/-- `msg` comes and goes `k` times. -/
def rounds (msg : Message) : Nat → List Op
  | 0 => []
  | k + 1 => .push msg :: .evictOldest :: rounds msg k

theorem Cleared.rounds (cleared : rb.Cleared n k) (msg : Message) (fits : n < 2 ^ 63)
    (large : 2 ^ 62 < n) (j : Nat) (sum : k + j + n ≤ 2 ^ 63) (counter : Int) :
    ∃ replies counter' rb', rb.run (rounds msg j) counter = some (replies, counter', rb') ∧
      rb'.Cleared n (k + j) := by
  induction j generalizing rb k counter with
  | zero => exact ⟨[], counter, rb, rfl, cleared⟩
  | succ j ih =>
    obtain ⟨stored, dropped, counter₁, rb₁, pushed, single, -⟩ :=
      cleared.push (by omega) fits counter msg
    obtain ⟨rb₂, evicted, cleared'⟩ := single.evict (by omega) (by omega)
    obtain ⟨replies, counter₂, rb₃, ran, last⟩ := ih cleared' (by omega) counter₁
    refine ⟨.pushed stored dropped :: .freed (msgBytes stored + messageOverhead) :: replies,
      counter₂, rb₃, ?_, ?_⟩
    · simp only [rounds, run, apply, pushed, evicted, ran, map_some, bind_eq_bind,
        bind_some]
    · rwa [Nat.add_assoc, Nat.add_comm 1 j] at last

/-- Some calls leave a buffer of such a size with one message that cannot be read. -/
theorem reaches_stuck {size : Int64} (large : 2 ^ 62 < size.toInt) (shared : Bool)
    (msg : Message) : ∃ ops replies counter rb m k,
      ((new size.toInt shared).setMaxBytes 0).run ops 0 = some (replies, counter, rb) ∧
      rb.Single size.toInt.toNat k m ∧ k + size.toInt.toNat = 2 ^ 63 ∧
      msgBytes m = msgBytes msg := by
  have fits : size.toInt.toNat < 2 ^ 63 := by
    have := size.toInt_lt
    omega
  have cleared : ((new size.toInt shared).setMaxBytes 0).Cleared size.toInt.toNat 0 :=
    ⟨if_neg (by omega), rfl, rfl, rfl, Nat.zero_le _,
      (Nat.min_le_left _ _).trans (if_neg (by omega)).le, rfl, rfl⟩
  obtain ⟨replies, counter, rb, ran, last⟩ :=
    cleared.rounds msg fits (by omega) (2 ^ 63 - size.toInt.toNat) (by omega) 0
  obtain ⟨stored, dropped, counter', rb', pushed, single, bytes⟩ :=
    last.push (by omega) fits counter msg
  refine ⟨rounds msg (2 ^ 63 - size.toInt.toNat) ++ [.push msg],
    replies ++ [.pushed stored dropped], counter', rb', stored, _, ?_, single, by omega, bytes⟩
  rw [run_append _ _ _ _ ran, run, apply, pushed]
  rfl

/-- What is asked of a buffer: no call panics, the replies and the content are those of the queue,
the stored numbers increase, the byte counter is the sum over the messages, no slot index leaves the
slice, and `GetAfter` finds the first messages above the number it is given. -/
def RefinesQueue (size budget counter : Int) (shared : Bool) (ops : List Op) : Prop :=
  ∃ replies counter' rb q,
    ((new size shared).setMaxBytes budget).run ops counter = some (replies, counter', rb) ∧
    (Queue.new size budget shared).run ops counter = (replies, counter', q) ∧
    rb.get = some (q.items.map some) ∧ q.items.Pairwise (·.seq < ·.seq) ∧
    rb.bytes = totalBytes q.items ∧ rb.buffer.length ≤ rb.cap ∧ rb.cap ≤ rb.size ∧
    ∀ after limit, rb.getAfter after limit =
      some (Queue.firstOf limit (q.items.filter fun m => decide (after < m.seq)))

/-- Whatever is called, with any budget and any use of the counter elsewhere, a buffer refines its
queue, exactly for the sizes up to `2 ^ 62`. -/
theorem run_refines_queue (size : Int64) :
    (∀ budget counter shared ops, RefinesQueue size.toInt budget counter shared ops) ↔
      size.toInt ≤ 2 ^ 62 := by
  constructor
  · intro all
    by_contra large
    obtain ⟨ops, replies, counter, rb, m, k, ran, single, sum, -⟩ :=
      reaches_stuck (Int.not_le.mp large) false ⟨0, 0, [], [], none, 0⟩
    obtain ⟨replies', counter', rb', q, ran', -, read, -⟩ := all 0 0 false ops
    cases ran.symm.trans ran'
    have := size.toInt_lt
    simp [(single.stuck sum (by omega) (by omega)).2] at read
  · intro small budget counter shared ops
    have capacity : (if size.toInt ≤ 0 then 1000 else size.toInt.toNat) ≤ 2 ^ 62 := by
      split <;> omega
    obtain ⟨rb, hrun, h⟩ := (new_refines size.toInt_lt budget shared).run capacity counter ops
    have hstart : Queue.Ordered counter (Queue.new size.toInt budget shared) :=
      ⟨List.Pairwise.nil, fun m hm => absurd hm not_mem_nil⟩
    have hordered := hstart.run ops
    have hsmall : rb.size ≤ 2 ^ 62 := by
      rw [h.size_eq, Queue.run_capacity]
      exact capacity
    rcases h.represents.get_cases with panics | hget
    · exact panics.elim hsmall
    · refine ⟨_, _, rb, _, hrun, rfl, hget, hordered.increasing, h.represents.bytes_eq,
        h.represents.length_le, h.represents.cap_le, fun after limit => ?_⟩
      rcases h.represents.getAfter_cases after limit with panics | hfound
      · exact panics.elim hsmall
      · exact hfound

/-- With the largest size, one message of two evicted and the other read. -/
theorem largest_size_panics : ¬ RefinesQueue Int64.maxValue.toInt 0 0 false
      [.push ⟨0, 0, [], [], none, 0⟩, .push ⟨0, 0, [], [], none, 0⟩, .evictOldest, .get] := by
  rintro ⟨replies, counter, rb, q, ran, -⟩
  cases ran

end RingBuffer

end Unheaded.Wotan
