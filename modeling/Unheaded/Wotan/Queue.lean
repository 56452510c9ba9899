import Unheaded.Wotan.RingBuffer

/-!
# Bounded queues, and the ring buffer as one of them

A bounded queue is a list of messages, oldest first.
-/

namespace Unheaded.Wotan

open Lib List Option RingBuffer

def totalBytes (items : List Message) : Nat := (items.map msgBytes).sum

def trimTo (budget : Nat) : List Message → List Message
  | [] => []
  | m :: items =>
    if 0 < budget ∧ budget < totalBytes (m :: items) ∧ items ≠ [] then trimTo budget items
    else m :: items

structure Queue where
  capacity : Nat
  budget : Nat
  items : List Message
  lastSeq : Int
  shared : Bool

namespace Queue

/-- The newest `capacity` messages. -/
def lastOf (capacity : Nat) (items : List Message) : List Message :=
  items.drop (items.length - capacity)

/-- A push of a message that has its number; whether it dropped one. -/
def pushSeq (seq : Int) (msg : Message) (q : Queue) : Message × Bool × Queue :=
  let msg := { msg with seq := seq }
  let kept := trimTo q.budget (lastOf q.capacity (q.items ++ [msg]))
  (msg, decide (kept.length < q.items.length + 1), { q with items := kept, lastSeq := seq })

def nextSeq (counter : Int) (q : Queue) : Int × Int :=
  if q.shared then (counter + 1, counter + 1) else (q.lastSeq + 1, counter)

def push (counter : Int) (msg : Message) (q : Queue) : Message × Bool × Int × Queue :=
  let (seq, counter) := q.nextSeq counter
  let (msg, dropped, q) := q.pushSeq seq msg
  (msg, dropped, counter, q)

/-- The first `limit` of them; all when the limit is not positive. -/
def firstOf (limit : Int) (found : List Message) : List Message :=
  if limit ≤ 0 then found else found.take limit.toNat

/-- The messages with a number above `after`. -/
def above (after : Int) (items : List Message) : List Message :=
  items.filter fun m => decide (after < m.seq)

def getAfter (after limit : Int) (q : Queue) : List Message := firstOf limit (above after q.items)

def delete (id creatorId : Uuid) (content : List Byte) (q : Queue) : Bool × Queue :=
  (q.items.any (RingBuffer.Matches id creatorId content),
    { q with items := q.items.eraseP (RingBuffer.Matches id creatorId content) })

def evictOldest (q : Queue) : Nat × Queue :=
  (q.items.head?.elim 0 fun m => msgBytes m + messageOverhead, { q with items := q.items.tail })

end Queue

@[simp] theorem totalBytes_nil : totalBytes [] = 0 := rfl

@[simp] theorem totalBytes_cons (m : Message) (items : List Message) :
    totalBytes (m :: items) = msgBytes m + totalBytes items := by
  simp [totalBytes]

@[simp] theorem totalBytes_append (left right : List Message) :
    totalBytes (left ++ right) = totalBytes left + totalBytes right := by
  simp [totalBytes]

theorem trimTo_suffix (budget : Nat) (items : List Message) : trimTo budget items <:+ items := by
  induction items with
  | nil => simp [trimTo]
  | cons m items ih =>
    rw [trimTo]
    split
    · exact ih.trans (suffix_cons m items)
    · exact suffix_refl _

theorem getLast?_trimTo (budget : Nat) (items : List Message) :
    (trimTo budget items).getLast? = items.getLast? := by
  induction items with
  | nil => simp [trimTo]
  | cons m items ih =>
    rw [trimTo]
    split
    · rename_i hdrop
      obtain ⟨-, -, hmore⟩ := hdrop
      rw [ih, List.getLast?_cons_of_ne_nil hmore]
    · rfl

namespace RingBuffer

variable {rb : RingBuffer} {items front back : List Message} {m : Message}

/-- The place of the oldest message, as long as no sum wraps. -/
def start (rb : RingBuffer) : Nat := (rb.head.toNat + rb.size - rb.count) % rb.size

/-- The buffer holds these messages; the sum for the place of the oldest is at most one too
large. -/
structure Represents (rb : RingBuffer) (items : List Message) : Prop where
  size_pos : 0 < rb.size
  fits : rb.size < 2 ^ 63
  count_eq : rb.count = items.length
  count_le : items.length ≤ rb.size
  head_nonneg : 0 ≤ rb.head
  head_lt : rb.head < rb.size
  head_le : rb.head ≤ rb.buffer.length
  near : rb.head - rb.count + rb.size ≤ 2 ^ 63
  length_le : rb.buffer.length ≤ rb.cap
  cap_le : rb.cap ≤ rb.size
  straight : rb.buffer.length = rb.size ∨ items.length ≤ rb.head
  window : Window rb.buffer rb.size rb.start items
  bytes_eq : rb.bytes = totalBytes items

theorem start_mod {place : Nat} (hcount : rb.count ≤ rb.size)
    (hstop : (place + rb.count) % rb.size = rb.head.toNat) :
    rb.start % rb.size = place % rb.size := by
  rw [start, Nat.mod_mod, start_of_stop hcount hstop]

theorem wrapped_eq {sum : Nat} (fits : sum < 2 ^ 63) : rb.wrapped sum = (sum % rb.size : Nat) := by
  rw [wrapped, Int.bmod_eq_of_le (by omega) (by omega)]
  rfl

theorem slot_natCast (i : Nat) : rb.slot i = rb.buffer[i]? := by simp [slot]

theorem slot_neg {i : Int} (below : i < 0) : rb.slot i = none := if_neg (Int.not_le.mpr below)

/-- The first sum that wraps leads to a negative place. -/
theorem wrapped_top (large : 2 ^ 62 < rb.size) (fits : rb.size < 2 ^ 63) :
    rb.wrapped (2 ^ 63) = -(2 ^ 63 - rb.size : Nat) := by
  have rest : 2 ^ 63 % rb.size = 2 ^ 63 - rb.size := by
    rw [Nat.mod_eq_sub_mod fits.le, Nat.mod_eq_of_lt (by omega)]
  rw [wrapped, ← rest]
  exact Int.neg_tmod (2 ^ 63) rb.size

theorem wrapped_neg {v : Nat} (small : v < rb.size) (fits : rb.size < 2 ^ 63) :
    rb.wrapped (-v) = -v := by
  rw [wrapped, Int.bmod_eq_of_le (by omega) (by omega), Int.neg_tmod]
  exact congrArg (fun i : Nat => -(i : Int)) (Nat.mod_eq_of_lt small)

/-- The settings that the operations on the messages leave alone. -/
structure SameSetup (rb rb' : RingBuffer) : Prop where
  size_eq : rb'.size = rb.size
  maxBytes_eq : rb'.maxBytes = rb.maxBytes
  lastSeq_eq : rb'.lastSeq = rb.lastSeq
  shared_eq : rb'.shared = rb.shared

/-- A panic; only a buffer of so many slots can wrap a sum. -/
def Panics {α : Type} (rb : RingBuffer) (r : Option α) : Prop := r = none ∧ 2 ^ 62 < rb.size

theorem Panics.elim {α : Type} {r : Option α} {P : Prop} (panics : rb.Panics r)
    (small : rb.size ≤ 2 ^ 62) : P := absurd panics.2 (Nat.not_lt.mpr small)

theorem store_natCast {i : Nat} (inside : i < rb.buffer.length) (p : Option Message) :
    rb.store i p = some { rb with buffer := rb.buffer.set i p } := by
  rw [store, if_pos ⟨Int.natCast_nonneg i, Int.ofNat_lt.mpr inside⟩]
  rfl

namespace Represents

section

variable (h : rb.Represents items)
include h

theorem start_add_count : (rb.start + items.length) % rb.size = rb.head.toNat := by
  have hcount := h.count_le
  have hhead := h.head_lt
  have hnonneg := h.head_nonneg
  have hback : rb.head.toNat + rb.size - items.length + items.length = rb.head.toNat + rb.size := by
    omega
  rw [start, h.count_eq, Nat.mod_add_mod, hback, Nat.add_mod_right]
  exact Nat.mod_eq_of_lt (by omega)

theorem start_lt : rb.start < rb.size := Nat.mod_lt _ h.size_pos

/-- The place of the oldest message, unless the sum has come to `2 ^ 63`. -/
theorem oldest_cases : rb.head - rb.count + rb.size < 2 ^ 63 ∧ rb.oldest = rb.start ∨
      2 ^ 62 < rb.size ∧ rb.oldest = -(2 ^ 63 - rb.size : Nat) := by
  have hcount := h.count_eq
  have hle := h.count_le
  have hhead := h.head_lt
  have hnonneg := h.head_nonneg
  have hnear := h.near
  by_cases hsum : rb.head - rb.count + rb.size < 2 ^ 63
  · left
    have hback : rb.head - rb.count + rb.size = (rb.head.toNat + rb.size - rb.count : Nat) := by
      omega
    refine ⟨hsum, ?_⟩
    rw [oldest, hback, wrapped_eq (by omega), start]
  · right
    have hlarge : 2 ^ 62 < rb.size := by omega
    have htop : rb.head - rb.count + rb.size = 2 ^ 63 := by omega
    refine ⟨hlarge, ?_⟩
    rw [oldest, htop, wrapped_top hlarge h.fits]

theorem oldest_eq (small : rb.size ≤ 2 ^ 62) : rb.oldest = rb.start := by
  rcases h.oldest_cases with ⟨-, oldest⟩ | ⟨large, -⟩
  · exact oldest
  · omega

theorem place_eq (small : rb.size ≤ 2 ^ 62) {i : Nat} (hi : i ≤ rb.size) :
    rb.wrapped (rb.oldest + i) = ((rb.start + i) % rb.size : Nat) := by
  have hstart := h.start_lt
  rw [h.oldest_eq small, ← Int.natCast_add, wrapped_eq (by omega)]

end

variable (h : rb.Represents (m :: items))
include h

theorem slot_oldest : rb.buffer[rb.start]? = some (some m) := by
  have hslot := h.window.at_start
  rwa [Nat.mod_eq_of_lt h.start_lt] at hslot

theorem dropOldest_eq (hold : rb.oldest = rb.start) :
    rb.dropOldest = some (msgBytes m,
      { rb with
        buffer := rb.buffer.set rb.start none
        bytes := rb.bytes - msgBytes m
        count := rb.count - 1 }) := by
  obtain ⟨hlt, -⟩ := List.getElem?_eq_some_iff.mp h.slot_oldest
  have hderef : rb.deref rb.start = some m := by
    rw [deref, slot_natCast, h.slot_oldest, join_some]
  simp [dropOldest, hderef, hold, store, hlt]

theorem dropOldest (hsum : rb.head - rb.count + rb.size < 2 ^ 63) :
    Represents { rb with
      buffer := rb.buffer.set rb.start none
      bytes := rb.bytes - msgBytes m
      count := rb.count - 1 } items where
  size_pos := h.size_pos
  fits := h.fits
  near := by
    simp only
    omega
  count_eq := by simp [h.count_eq]
  count_le := Nat.le_of_succ_le h.count_le
  head_nonneg := h.head_nonneg
  head_lt := h.head_lt
  head_le := by simpa using h.head_le
  length_le := by simpa using h.length_le
  cap_le := h.cap_le
  straight := by
    have hstraight := h.straight
    simp only [length_set, length_cons] at hstraight ⊢
    omega
  window := by
    -- the emptied slot is the one before the new start, a whole circle after it
    have hcount : items.length < rb.size := h.count_le
    have hslot : (rb.start + 1 + (rb.size - 1)) % rb.size = rb.start := by
      have hround : rb.start + 1 + (rb.size - 1) = rb.start + rb.size := by omega
      rw [hround, Nat.add_mod_right, Nat.mod_eq_of_lt h.start_lt]
    have hrest := h.window.tail.set_beyond (k := rb.size - 1) (by omega) (by omega) none
    rw [hslot] at hrest
    refine hrest.of_mod (start_mod ?_ ?_)
    · simpa [h.count_eq] using Nat.le_of_succ_le h.count_le
    · have hstop := h.start_add_count
      rw [length_cons, Nat.add_comm items.length, ← Nat.add_assoc] at hstop
      simpa [h.count_eq] using hstop
  bytes_eq := by
    have hbytes := h.bytes_eq
    simp only [totalBytes_cons] at hbytes
    simp only
    omega

theorem dropOldest_cases : rb.Panics rb.dropOldest ∨ ∃ rb', rb.dropOldest = some (msgBytes m, rb') ∧
      rb'.Represents items ∧ SameSetup rb rb' := by
  rcases h.oldest_cases with ⟨hsum, hold⟩ | ⟨large, hold⟩
  · exact .inr ⟨_, h.dropOldest_eq hold, h.dropOldest hsum, rfl, rfl, rfl, rfl⟩
  · left
    have hderef : rb.deref rb.oldest = none := by
      have hfits := h.fits
      rw [deref, hold, slot_neg (by omega)]
      rfl
    rw [RingBuffer.dropOldest, hderef]
    exact ⟨rfl, large⟩

end Represents

theorem trim_represents (turns : Nat) (overwritten : Bool) {rb : RingBuffer} {items : List Message}
    (h : rb.Represents items) (hturns : items.length ≤ turns) :
    rb.Panics (rb.trim turns overwritten) ∨ ∃ rb', rb.trim turns overwritten =
        some (overwritten || decide ((trimTo rb.maxBytes items).length < items.length), rb') ∧
      rb'.Represents (trimTo rb.maxBytes items) ∧ SameSetup rb rb' := by
  induction turns generalizing rb items overwritten with
  | zero =>
    have hnil : items = [] := eq_nil_of_length_eq_zero (by omega)
    subst hnil
    exact .inr ⟨rb, by simp [trim], by simpa [trimTo] using h, rfl, rfl, rfl, rfl⟩
  | succ turns ih =>
    cases items with
    | nil =>
      have hstop : ¬ 1 < rb.count := by simp [h.count_eq]
      exact .inr ⟨rb, by simp [trim, hstop], by simpa [trimTo] using h, rfl, rfl, rfl, rfl⟩
    | cons m items =>
      have hbytes : (rb.maxBytes : Int) < rb.bytes ↔ rb.maxBytes < totalBytes (m :: items) := by
        rw [h.bytes_eq]
        exact Nat.cast_lt
      have hmore : 1 < rb.count ↔ items ≠ [] := by
        rw [h.count_eq, ← length_pos_iff_ne_nil, length_cons]
        omega
      have hsame : (0 < rb.maxBytes ∧ (rb.maxBytes : Int) < rb.bytes ∧ 1 < rb.count) ↔
          (0 < rb.maxBytes ∧ rb.maxBytes < totalBytes (m :: items) ∧ items ≠ []) := by
        rw [hbytes, hmore]
      by_cases hdrop : 0 < rb.maxBytes ∧ rb.maxBytes < totalBytes (m :: items) ∧ items ≠ []
      · -- one message goes, and the rest of the loop drops from what remains
        rw [trim, if_pos (hsame.mpr hdrop), trimTo, if_pos hdrop]
        rcases h.dropOldest_cases with ⟨hpanic, hlarge⟩ | ⟨rb₁, hdropped, h₁, hsame₁⟩
        · exact .inl ⟨by rw [hpanic]; rfl, hlarge⟩
        · rw [hdropped, bind_eq_bind, bind_some]
          rcases ih true h₁ (by simpa using hturns) with
            ⟨hpanic, hlarge⟩ | ⟨rb', htrim, hrep, hsetup⟩
          · exact .inl ⟨hpanic, hsame₁.size_eq ▸ hlarge⟩
          · right
            have hfewer := (trimTo_suffix rb.maxBytes items).length_le
            have hless : (trimTo rb.maxBytes items).length < (m :: items).length := by
              rw [length_cons]
              omega
            rw [hsame₁.maxBytes_eq] at htrim hrep
            refine ⟨rb', ?_, hrep, hsetup.size_eq.trans hsame₁.size_eq,
              hsetup.maxBytes_eq.trans hsame₁.maxBytes_eq,
              hsetup.lastSeq_eq.trans hsame₁.lastSeq_eq, hsetup.shared_eq.trans hsame₁.shared_eq⟩
            dsimp only
            rw [htrim, decide_eq_true hless, Bool.true_or, Bool.or_true]
      · rw [trim, if_neg (fun hcond => hdrop (hsame.mp hcond)), trimTo, if_neg hdrop]
        exact .inr ⟨rb, by simp, h, rfl, rfl, rfl, rfl⟩

/-- There is room at `head` for one message after these. -/
structure Ready (rb : RingBuffer) (items : List Message) (start : Nat) : Prop where
  room : items.length < rb.size
  fits : rb.size < 2 ^ 63
  head_nonneg : 0 ≤ rb.head
  head_lt : rb.head < rb.size
  head_le : rb.head ≤ rb.buffer.length
  near : rb.head - items.length + rb.size ≤ 2 ^ 63
  length_le : rb.buffer.length ≤ rb.cap
  cap_le : rb.cap ≤ rb.size
  straight : rb.buffer.length = rb.size ∨ items.length ≤ rb.head
  stop : (start + items.length) % rb.size = rb.head.toNat
  window : Window rb.buffer rb.size start items
  bytes_eq : rb.bytes = totalBytes items
  count_eq : (if rb.count < rb.size then rb.count + 1 else rb.count) = items.length + 1

namespace Ready

variable {start : Nat}

theorem extend (h : rb.Ready items start) :
    ∃ rb', rb.extend = some rb' ∧ rb'.Ready items start ∧ rb'.head < rb'.buffer.length ∧
      SameSetup rb rb' := by
  by_cases hend : rb.head = rb.buffer.length
  · have hlt := h.head_lt
    have hcap := h.length_le
    have hsize := h.cap_le
    generalize hc : (if rb.cap = rb.buffer.length then
      min rb.size (max initialSlots (2 * rb.cap)) else rb.cap) = cap
    have hfits : rb.buffer.length + 1 ≤ cap ∧ cap ≤ rb.size := by
      rw [← hc]
      simp only [initialSlots]
      split <;> omega
    refine ⟨{ rb with buffer := rb.buffer ++ [none], cap }, ?_, ?_, ?_, rfl, rfl, rfl, rfl⟩
    · simp [RingBuffer.extend, hend, grow, hc, hfits.1]
    · exact
        { h with
          head_le := by simp [hend]
          length_le := by simpa using hfits.1
          cap_le := hfits.2
          straight := by
            have hstraight := h.straight
            simp only
            omega
          window := h.window.append [none] }
    · simp [hend]
  · have hle := h.head_le
    exact ⟨rb, by simp [RingBuffer.extend, hend], h, by omega, rfl, rfl, rfl, rfl⟩

theorem place (h : rb.Ready items start) (msg : Message) :
    ∃ rb', rb.place msg = some rb' ∧ rb'.Represents (items ++ [msg]) ∧ SameSetup rb rb' := by
  obtain ⟨rb₁, hextend, h₁, hslot, hsame⟩ := h.extend
  refine ⟨{ rb₁ with
    buffer := rb₁.buffer.set rb₁.head.toNat (some msg)
    bytes := rb₁.bytes + msgBytes msg
    head := rb₁.wrapped (rb₁.head + 1)
    count := if rb₁.count < rb₁.size then rb₁.count + 1 else rb₁.count }, ?_, ?_, ?_⟩
  · simp [RingBuffer.place, hextend, store, hslot, h₁.head_nonneg]
    rfl
  · have hroom := h₁.room
    have hpos : 0 < rb₁.size := by omega
    have hnonneg := h₁.head_nonneg
    have hlt := h₁.head_lt
    have hnext : rb₁.wrapped (rb₁.head + 1) = ((rb₁.head.toNat + 1) % rb₁.size : Nat) := by
      have hfits := h₁.fits
      rw [← wrapped_eq (by omega)]
      congr 1
      omega
    have hround : (rb₁.head.toNat + 1) % rb₁.size =
        if rb₁.head.toNat + 1 = rb₁.size then 0 else rb₁.head.toNat + 1 := by
      split
      · rename_i heq
        rw [heq, Nat.mod_self]
      · exact Nat.mod_eq_of_lt (by omega)
    have hcap := h₁.length_le
    have hsize := h₁.cap_le
    have hcount := h₁.count_eq
    refine
      { size_pos := hpos
        fits := h₁.fits
        count_eq := by simpa using hcount
        count_le := by rw [length_append]; exact hroom
        head_nonneg := by simp only [hnext]; exact Int.natCast_nonneg _
        head_lt := by simp only [hnext]; exact Int.ofNat_lt.mpr (Nat.mod_lt _ hpos)
        head_le := ?_
        near := ?_
        length_le := by simpa using hcap
        cap_le := hsize
        straight := ?_
        window := ?_
        bytes_eq := by simp [h₁.bytes_eq] }
    · simp only [length_set, hnext, hround]
      split <;> omega
    · have hfits := h₁.fits
      have hnear := h₁.near
      simp only [hnext, hround, hcount]
      split <;> omega
    · have hstraight := h₁.straight
      simp only [length_set, length_append, length_singleton, hnext, hround]
      split <;> omega
    · have hwin := h₁.window.concat hroom (by rw [h₁.stop]; omega) msg
      rw [h₁.stop] at hwin
      refine hwin.of_mod (start_mod ?_ ?_)
      · simp only [hcount]
        omega
      · simp only [hcount, hnext, Int.toNat_natCast]
        rw [← h₁.stop, Nat.mod_add_mod, Nat.add_assoc]
  · exact ⟨hsame.size_eq, hsame.maxBytes_eq, hsame.lastSeq_eq, hsame.shared_eq⟩

end Ready

namespace Represents

theorem ready (h : rb.Represents items) (hroom : items.length < rb.size) (seq : Int) :
    Ready { rb with lastSeq := seq } items rb.start :=
  { h with
    room := hroom
    near := by
      rw [← h.count_eq]
      exact h.near
    stop := h.start_add_count
    count_eq := by rw [if_pos (by simpa [h.count_eq] using hroom), h.count_eq] }

theorem ready_full (h : rb.Represents (m :: items)) (hfull : rb.count = rb.size) (seq : Int) :
    Ready { rb with wrapping := true, bytes := rb.bytes - msgBytes m, lastSeq := seq } items
      (rb.start + 1) :=
  { h with
    room := h.count_le
    near := by
      have hfits := h.fits
      have hlt := h.head_lt
      have hcount := h.count_eq
      simp only [length_cons] at hcount ⊢
      omega
    straight := by
      have hstraight := h.straight
      have hlt := h.head_lt
      have hcount := h.count_eq
      simp only
      omega
    stop := by
      have hstop := h.start_add_count
      rwa [length_cons, Nat.add_comm items.length, ← Nat.add_assoc] at hstop
    window := h.window.tail
    bytes_eq := by
      have hbytes := h.bytes_eq
      simp only [totalBytes_cons] at hbytes
      simp only
      omega
    count_eq := by
      have hcount := h.count_eq
      rw [if_neg (by simp only; omega)]
      exact hcount }

theorem start_of_full (h : rb.Represents items) (hfull : rb.count = rb.size) :
    rb.head = rb.start := by
  have hnonneg := h.head_nonneg
  have hlt := h.head_lt
  rw [start, hfull, Nat.add_sub_cancel, Nat.mod_eq_of_lt (by omega)]
  omega

theorem discount_place (h : rb.Represents items) (seq : Int) (msg : Message) :
    ∃ rb₁ rb₂, rb.discount = some rb₁ ∧ { rb₁ with lastSeq := seq }.place msg = some rb₂ ∧
      rb₂.Represents (Queue.lastOf rb.size (items ++ [msg])) ∧
      SameSetup { rb with lastSeq := seq } rb₂ := by
  have hcount := h.count_eq
  have hle := h.count_le
  by_cases hfull : rb.count = rb.size
  · cases items with
    | nil =>
      have hpos := h.size_pos
      rw [length_nil] at hcount
      omega
    | cons m items =>
      obtain ⟨rb₂, hplace, hrep, hsame⟩ := (h.ready_full hfull seq).place msg
      have hderef : rb.deref rb.head = some m := by
        rw [deref, h.start_of_full hfull, slot_natCast, h.slot_oldest, join_some]
      have hkept : Queue.lastOf rb.size (m :: items ++ [msg]) = items ++ [msg] := by
        have hdrop : (m :: items ++ [msg]).length - rb.size = 1 := by
          rw [← hfull, hcount]
          simp
        rw [Queue.lastOf, hdrop]
        rfl
      rw [hkept]
      refine ⟨{ rb with wrapping := true, bytes := rb.bytes - msgBytes m }, rb₂, ?_, hplace, hrep,
        hsame.size_eq, hsame.maxBytes_eq, hsame.lastSeq_eq, hsame.shared_eq⟩
      rw [discount, if_pos hfull, hderef]
      rfl
  · obtain ⟨rb₂, hplace, hrep, hsame⟩ := (h.ready (by omega) seq).place msg
    have hkept : Queue.lastOf rb.size (items ++ [msg]) = items ++ [msg] := by
      have hdrop : (items ++ [msg]).length - rb.size = 0 := by
        rw [length_append, length_singleton]
        omega
      rw [Queue.lastOf, hdrop, drop_zero]
    rw [hkept]
    exact ⟨rb, rb₂, by simp [discount, hfull], hplace, hrep, hsame⟩

theorem front_le (h : rb.Represents (front ++ back)) : front.length ≤ rb.size := by
  have hle := h.count_le
  rw [length_append] at hle
  omega

/-- The slot of one turn, after those of the turns before. -/
theorem slot_cases (h : rb.Represents (front ++ m :: back)) (hold : rb.oldest = rb.start)
    (hreach : rb.start + front.length ≤ 2 ^ 63) :
    rb.Panics (rb.slot (rb.wrapped (rb.oldest + front.length))) ∨ rb.start + front.length < 2 ^ 63 ∧
        rb.slot (rb.wrapped (rb.oldest + front.length)) = some (some m) := by
  have hstart := h.start_lt
  have hfits := h.fits
  have hle := h.front_le
  rw [hold]
  by_cases hsum : rb.start + front.length < 2 ^ 63
  · right
    rw [← Int.natCast_add, wrapped_eq hsum, slot_natCast]
    exact ⟨hsum, h.window.at_front⟩
  · left
    have hlarge : 2 ^ 62 < rb.size := by omega
    have htop : (rb.start + front.length : Int) = 2 ^ 63 := by omega
    rw [htop, wrapped_top hlarge hfits]
    exact ⟨slot_neg (by omega), hlarge⟩

theorem first_panics (h : rb.Represents items) (hlarge : 2 ^ 62 < rb.size)
    (hold : rb.oldest = -(2 ^ 63 - rb.size : Nat)) :
    rb.Panics (rb.slot (rb.wrapped (rb.oldest + (0 : Nat)))) := by
  have hfits := h.fits
  rw [hold, Int.natCast_zero, Int.add_zero, wrapped_neg (by omega) hfits]
  exact ⟨slot_neg (by omega), hlarge⟩

theorem get_cases (h : rb.Represents items) :
    rb.Panics rb.get ∨ rb.get = some (items.map some) := by
  rw [get, h.count_eq]
  rcases h.oldest_cases with ⟨-, hold⟩ | ⟨hlarge, hold⟩
  · by_cases hround : rb.start + items.length ≤ 2 ^ 63
    · right
      refine h.window.mapM_range fun i hi => ?_
      rw [hold, ← Int.natCast_add, wrapped_eq (by omega), slot_natCast]
    · have hstart := h.start_lt
      have hle := h.count_le
      have hfits := h.fits
      have hlarge : 2 ^ 62 < rb.size := by omega
      have hpanic : rb.slot (rb.wrapped (rb.oldest + (2 ^ 63 - rb.start : Nat))) = none := by
        have htop : (rb.start + (2 ^ 63 - rb.start : Nat) : Int) = 2 ^ 63 := by omega
        rw [hold, htop, wrapped_top hlarge hfits, slot_neg (by omega)]
      exact .inl ⟨mapM_none (mem_range.mpr (by omega)) hpanic, hlarge⟩
  · cases items with
    | nil => exact .inr rfl
    | cons m items =>
      exact .inl ⟨mapM_none (mem_range.mpr (Nat.succ_pos _))
        (h.first_panics hlarge hold).1, hlarge⟩

theorem getAfterLoop_cases (h : rb.Represents (front ++ back)) (hold : rb.oldest = rb.start)
    (hreach : rb.start + front.length ≤ 2 ^ 63) (after limit : Int) (result : List Message)
    (hlimit : 0 < limit → (result.length : Int) < limit) :
    rb.Panics (rb.getAfterLoop after limit back.length front.length result) ∨
      rb.getAfterLoop after limit back.length front.length result =
        some (Queue.firstOf limit (result ++ Queue.above after back)) := by
  induction back generalizing front result with
  | nil =>
    right
    rw [length_nil, getAfterLoop, Queue.above, filter_nil, append_nil, Queue.firstOf]
    split
    · rfl
    · rw [take_of_length_le (by omega)]
  | cons m back ih =>
    rw [length_cons, getAfterLoop, deref]
    rcases h.slot_cases hold hreach with ⟨hpanic, hlarge⟩ | ⟨hsum, hslot⟩
    · exact .inl ⟨by rw [hpanic]; rfl, hlarge⟩
    · have hnext : rb.Represents ((front ++ [m]) ++ back) := by simpa using h
      have hrest := ih hnext (by rw [length_append, length_singleton]; exact hsum)
      rw [length_append, length_singleton] at hrest
      rw [hslot, join_some, bind_eq_bind, bind_some]
      by_cases hskip : m.seq ≤ after
      · have habove : Queue.above after (m :: back) = Queue.above after back :=
          filter_cons_of_neg (by simpa using hskip)
        rw [if_pos hskip, habove]
        exact hrest result hlimit
      · have habove : result ++ Queue.above after (m :: back) =
            result ++ [m] ++ Queue.above after back := by
          rw [Queue.above, filter_cons_of_pos (by simpa using hskip), List.append_assoc]
          rfl
        rw [if_neg hskip, habove]
        by_cases hfull : 0 < limit ∧ ((result ++ [m]).length : Int) = limit
        · -- the limit is reached: what is left is not read
          right
          rw [if_pos hfull, Queue.firstOf, if_neg (by omega)]
          rw [take_append_of_le_length (by omega), take_of_length_le (by omega)]
        · rw [if_neg hfull]
          refine hrest (result ++ [m]) fun hpos => ?_
          rw [length_append, length_singleton] at hfull ⊢
          omega

theorem getAfter_cases (h : rb.Represents items) (after limit : Int) :
    rb.Panics (rb.getAfter after limit) ∨
      rb.getAfter after limit = some (Queue.firstOf limit (Queue.above after items)) := by
  rw [getAfter, h.count_eq]
  rcases h.oldest_cases with ⟨-, hold⟩ | ⟨hlarge, hold⟩
  · have hall : rb.Represents ([] ++ items) := h
    have hstart := h.start_lt
    have hfits := h.fits
    exact hall.getAfterLoop_cases hold (by rw [length_nil]; omega) after limit [] (by simp)
  · cases items with
    | nil =>
      right
      rw [Queue.firstOf, Queue.above, filter_nil, take_nil, ite_self]
      rfl
    | cons m items =>
      rw [length_cons, getAfterLoop, deref, (h.first_panics hlarge hold).1]
      exact .inl ⟨rfl, hlarge⟩

end Represents

theorem shift_window {start : Nat} {rb : RingBuffer} {front back : List Message} {m : Message}
    (hsmall : rb.size ≤ 2 ^ 62) (hstart : start < rb.size)
    (hwin : Window rb.buffer rb.size start (front ++ m :: back))
    (hle : (front ++ m :: back).length ≤ rb.size) :
    ∃ slots, rb.shift start back.length front.length = some { rb with buffer := slots } ∧
      slots.length = rb.buffer.length ∧ Window slots rb.size start (front ++ back) := by
  induction back generalizing front m rb with
  | nil =>
    refine ⟨rb.buffer, rfl, rfl, ?_⟩
    intro i a hi
    apply hwin i a
    rw [append_nil] at hi
    obtain ⟨hlt, -⟩ := List.getElem?_eq_some_iff.mp hi
    rw [List.getElem?_append_left hlt]
    exact hi
  | cons b back ih =>
    have hnext : Window rb.buffer rb.size start ((front ++ [m]) ++ b :: back) := by simpa using hwin
    have hfits : front.length + 1 < rb.size := by
      simp only [length_append, length_cons] at hle
      omega
    have hread : rb.slot (rb.wrapped (start + front.length + 1)) = some (some b) := by
      rw [show (start + front.length + 1 : Int) = (start + front.length + 1 : Nat) from rfl,
        wrapped_eq (by omega), slot_natCast]
      simpa [Nat.add_assoc] using hnext.at_front
    have hplace : rb.wrapped (start + front.length) = ((start + front.length) % rb.size : Nat) :=
      wrapped_eq (by omega)
    -- after the move the place holds `b`, and so does the next one
    have hmoved := hwin.set_item hle b
    generalize hset : rb.buffer.set ((start + front.length) % rb.size) (some b) = slots at hmoved
    have hlength : slots.length = rb.buffer.length := by rw [← hset, length_set]
    have htwice : Window ({ rb with buffer := slots } : RingBuffer).buffer rb.size start
        ((front ++ [b]) ++ b :: back) := by simpa using hmoved
    obtain ⟨slots', hshift, hlen, hwin'⟩ := @ih { rb with buffer := slots } (front ++ [b]) b hsmall
      hstart htwice (by simpa using hle)
    refine ⟨slots', ?_, hlen.trans hlength, by simpa using hwin'⟩
    rw [length_append] at hshift
    rw [length_cons, shift, hread, bind_eq_bind, bind_some, hplace, store_natCast hwin.lt_length,
      hset]
    exact hshift

namespace Represents

/-- The message leaves and the newer ones move back. -/
theorem removeAt (h : rb.Represents (front ++ m :: back)) (small : rb.size ≤ 2 ^ 62) :
    ∃ rb', rb.removeAt front.length m = some rb' ∧ rb'.Represents (front ++ back) ∧
      SameSetup rb rb' := by
  obtain ⟨slots, hshift, hlength, hwin⟩ := shift_window small h.start_lt h.window h.count_le
  have hcount : rb.count = front.length + back.length + 1 := by simp [h.count_eq, Nat.add_assoc]
  have hle : front.length + back.length + 1 ≤ rb.size := by
    rw [← hcount, h.count_eq]
    exact h.count_le
  have hnonneg := h.head_nonneg
  have hlt := h.head_lt
  have hstart := h.start_lt
  have hlast : rb.wrapped (rb.start + rb.count - 1) =
      ((rb.start + (front ++ back).length) % rb.size : Nat) := by
    rw [← wrapped_eq (by rw [length_append]; omega), length_append]
    congr 1
    omega
  have hhead : rb.wrapped (rb.head - 1 + rb.size) =
      ((rb.start + (front ++ back).length) % rb.size : Nat) := by
    have hback : (rb.head.toNat + rb.size - 1) % rb.size =
        (rb.start + (front ++ back).length) % rb.size := by
      apply start_of_stop h.size_pos
      have hend := h.start_add_count
      simpa [Nat.add_assoc] using hend
    rw [← hback, ← wrapped_eq (by omega)]
    congr 1
    omega
  have hslot : (rb.start + (front ++ back).length) % rb.size < slots.length := by
    rw [hlength]
    exact h.window.slot_lt (by simp)
  refine ⟨{ rb with
    buffer := slots.set ((rb.start + (front ++ back).length) % rb.size) none
    bytes := rb.bytes - msgBytes m
    count := rb.count - 1
    head := rb.wrapped (rb.head - 1 + rb.size)
    wrapping := if rb.count - 1 < rb.size then false else rb.wrapping }, ?_, ?_, rfl, rfl, rfl, rfl⟩
  · have hleft : rb.count - 1 - front.length = back.length := by omega
    have hstore := @store_natCast { rb with buffer := slots } _ hslot none
    rw [RingBuffer.removeAt, hleft, h.oldest_eq small, hshift, bind_eq_bind, bind_some,
      show ({ rb with buffer := slots } : RingBuffer).wrapped _ = _ from hlast, hstore]
    rfl
  · exact
      { size_pos := h.size_pos
        fits := h.fits
        count_eq := by simp [hcount]
        count_le := by rw [length_append]; exact Nat.le_of_succ_le hle
        head_nonneg := by simp only [hhead]; exact Int.natCast_nonneg _
        head_lt := by simp only [hhead]; exact Int.ofNat_lt.mpr (Nat.mod_lt _ h.size_pos)
        head_le := by
          simp only [length_set, hhead]
          exact Int.ofNat_le.mpr hslot.le
        near := by
          have hmod := Nat.mod_lt (rb.start + (front ++ back).length) h.size_pos
          simp only [hhead]
          omega
        length_le := by simpa [hlength] using h.length_le
        cap_le := h.cap_le
        straight := by
          have hstraight := h.straight
          simp only [length_set, hlength, length_append, length_cons] at hstraight ⊢
          rcases hstraight with hall | hbefore
          · exact Or.inl hall
          · right
            have hback : rb.head - 1 + rb.size = (rb.head.toNat - 1 + rb.size : Nat) := by omega
            rw [hback, wrapped_eq (by omega), Nat.add_mod_right, Nat.mod_eq_of_lt (by omega)]
            omega
        window := by
          have hlen : (front ++ back).length < rb.size := by rw [length_append]; exact hle
          refine (hwin.set_beyond (Nat.le_refl _) hlen none).of_mod (start_mod ?_ ?_)
          · simp only [hcount]
            omega
          · simp only [hcount, hhead, length_append, Int.toNat_natCast]
            rfl
        bytes_eq := by
          have hbytes := h.bytes_eq
          simp only [totalBytes_append, totalBytes_cons] at hbytes ⊢
          omega }

theorem deleteLoop_eq (h : rb.Represents (front ++ back)) (small : rb.size ≤ 2 ^ 62)
    (id creatorId : Uuid) (content : List Byte) : ∃ rb',
      rb.deleteLoop id creatorId content back.length front.length =
        some (back.any (Matches id creatorId content), rb') ∧
      rb'.Represents (front ++ back.eraseP (Matches id creatorId content)) ∧ SameSetup rb rb' := by
  induction back generalizing front with
  | nil => exact ⟨rb, by simp [deleteLoop], by simpa using h, rfl, rfl, rfl, rfl⟩
  | cons m back ih =>
    rw [length_cons, deleteLoop, h.place_eq small h.front_le, slot_natCast, h.window.at_front]
    by_cases hmatch : Matches id creatorId content m
    · obtain ⟨rb', hremove, hrep, hsame⟩ := h.removeAt small
      refine ⟨rb', ?_, by rwa [eraseP_cons_of_pos hmatch], hsame⟩
      simp [hmatch, hremove]
    · have hnext : rb.Represents ((front ++ [m]) ++ back) := by simpa using h
      obtain ⟨rb', hloop, hrep, hsame⟩ := ih hnext
      rw [length_append, length_singleton] at hloop
      refine ⟨rb', ?_, ?_, hsame⟩
      · simp [hmatch, hloop]
      · rw [eraseP_cons_of_neg hmatch]
        simpa using hrep

end Represents

/-- The buffer is this queue. -/
structure Refines (rb : RingBuffer) (q : Queue) : Prop where
  represents : rb.Represents q.items
  size_eq : rb.size = q.capacity
  maxBytes_eq : rb.maxBytes = q.budget
  lastSeq_eq : rb.lastSeq = q.lastSeq
  shared_eq : rb.shared = q.shared

namespace Refines

variable {q : Queue}

variable (h : rb.Refines q)
include h

theorem dropped_iff (budget : Nat) (msg : Message) : (decide (rb.count = rb.size) ||
        decide ((trimTo budget (Queue.lastOf q.capacity (q.items ++ [msg]))).length <
          (Queue.lastOf q.capacity (q.items ++ [msg])).length)) =
      decide ((trimTo budget (Queue.lastOf q.capacity (q.items ++ [msg]))).length <
        q.items.length + 1) := by
  have hcount := h.represents.count_eq
  have hle := h.represents.count_le
  have hsize := h.size_eq
  have hlast : (Queue.lastOf q.capacity (q.items ++ [msg])).length =
      min q.capacity (q.items.length + 1) := by
    rw [Queue.lastOf, length_drop, length_append, length_singleton]
    omega
  have hkept := (trimTo_suffix budget (Queue.lastOf q.capacity (q.items ++ [msg]))).length_le
  rw [Bool.eq_iff_iff]
  simp only [Bool.or_eq_true, decide_eq_true_eq]
  omega

theorem pushSeq (seq : Int) (msg : Message) : rb.Panics (rb.pushSeq seq msg) ∨
      ∃ rb', rb.pushSeq seq msg = some ((q.pushSeq seq msg).1, (q.pushSeq seq msg).2.1, rb') ∧
        rb'.Refines (q.pushSeq seq msg).2.2 := by
  obtain ⟨rb₁, rb₂, hdiscount, hplace, hrep, hsame⟩ :=
    h.represents.discount_place seq { msg with seq := seq }
  simp only [RingBuffer.pushSeq, hdiscount, bind_eq_bind, bind_some, hplace, Queue.pushSeq]
  rcases trim_represents rb₂.count (decide (rb.count = rb.size)) hrep hrep.count_eq.ge with
    ⟨hpanic, hlarge⟩ | ⟨rb', htrim, hrep', hsame'⟩
  · exact .inl ⟨by rw [hpanic]; rfl, hsame.size_eq ▸ hlarge⟩
  · right
    have hbudget := hsame.maxBytes_eq.trans h.maxBytes_eq
    have hsize : rb.size = q.capacity := h.size_eq
    rw [hbudget, hsize] at htrim hrep'
    refine ⟨rb', ?_, hrep', hsame'.size_eq.trans (hsame.size_eq.trans hsize),
      hsame'.maxBytes_eq.trans hbudget, hsame'.lastSeq_eq.trans hsame.lastSeq_eq,
      hsame'.shared_eq.trans (hsame.shared_eq.trans h.shared_eq)⟩
    rw [← h.dropped_iff, hsize, htrim]
    rfl

theorem push (counter : Int) (msg : Message) :
    rb.Panics (rb.push counter msg) ∨ ∃ rb', rb.push counter msg =
        some ((q.push counter msg).1, (q.push counter msg).2.1, (q.push counter msg).2.2.1, rb') ∧
      rb'.Refines (q.push counter msg).2.2.2 := by
  have hnext : rb.nextSeq counter = q.nextSeq counter := by
    rw [RingBuffer.nextSeq, Queue.nextSeq, h.shared_eq, h.lastSeq_eq]
  simp only [RingBuffer.push, hnext]
  rcases h.pushSeq (q.nextSeq counter).1 msg with ⟨hpanic, hlarge⟩ | ⟨rb', hpush, hrefines⟩
  · exact .inl ⟨by rw [hpanic]; rfl, hlarge⟩
  · exact .inr ⟨rb', by rw [hpush]; rfl, hrefines⟩

theorem delete (small : rb.size ≤ 2 ^ 62) (id creatorId : Uuid) (content : List Byte) :
    ∃ rb', rb.delete id creatorId content = some ((q.delete id creatorId content).1, rb') ∧
      rb'.Refines (q.delete id creatorId content).2 := by
  have hall : rb.Represents ([] ++ q.items) := h.represents
  obtain ⟨rb', hloop, hrep, hsame⟩ := hall.deleteLoop_eq small id creatorId content
  by_cases hempty : rb.count = 0
  · have hnil : q.items = [] := by
      rw [h.represents.count_eq] at hempty
      exact eq_nil_of_length_eq_zero hempty
    refine ⟨rb, by simp [RingBuffer.delete, hempty, Queue.delete, hnil], ?_⟩
    have hsameItems : (q.delete id creatorId content).2 = q := by
      cases q
      simp_all [Queue.delete]
    rwa [hsameItems]
  · refine ⟨rb', ?_, hrep, hsame.size_eq.trans h.size_eq, hsame.maxBytes_eq.trans h.maxBytes_eq,
      hsame.lastSeq_eq.trans h.lastSeq_eq, hsame.shared_eq.trans h.shared_eq⟩
    rw [RingBuffer.delete, if_neg hempty, h.represents.count_eq]
    exact hloop

theorem evictOldest : rb.Panics rb.evictOldest ∨
      ∃ rb', rb.evictOldest = some (q.evictOldest.1, rb') ∧ rb'.Refines q.evictOldest.2 := by
  obtain ⟨capacity, budget, items, lastSeq, shared⟩ := q
  obtain ⟨hrep, hsize, hbudget, hlast, hshared⟩ := h
  have hcount := hrep.count_eq
  cases items with
  | nil =>
    refine .inr ⟨rb, ?_, hrep, hsize, hbudget, hlast, hshared⟩
    have hzero : rb.count = 0 := hcount
    rw [evictOldest, if_pos hzero]
    rfl
  | cons m items =>
    have hne : rb.count ≠ 0 := by
      rw [hcount]
      exact Nat.succ_ne_zero _
    rw [evictOldest, if_neg hne]
    rcases hrep.dropOldest_cases with ⟨hpanic, hlarge⟩ | ⟨rb', hdropped, hrep', hsame⟩
    · exact .inl ⟨by rw [hpanic]; rfl, hlarge⟩
    · exact .inr ⟨rb', by rw [hdropped]; rfl, hrep', hsame.size_eq.trans hsize,
        hsame.maxBytes_eq.trans hbudget, hsame.lastSeq_eq.trans hlast,
        hsame.shared_eq.trans hshared⟩

theorem setMaxBytes (n : Int) : (rb.setMaxBytes n).Refines { q with budget := n.toNat } :=
  ⟨{ h.represents with }, h.size_eq, rfl, h.lastSeq_eq, h.shared_eq⟩

/-- A read that returns finds the messages. -/
theorem get_eq {found : List (Option Message)} (got : rb.get = some found) :
    found = q.items.map some := by
  rcases h.represents.get_cases with ⟨panics, -⟩ | read
  · cases panics.symm.trans got
  · exact some.inj (got.symm.trans read)

theorem getAfter_eq {after limit : Int} {found : List Message}
    (got : rb.getAfter after limit = some found) : found = q.getAfter after limit := by
  rcases h.represents.getAfter_cases after limit with ⟨panics, -⟩ | read
  · cases panics.symm.trans got
  · exact some.inj (got.symm.trans read)

end Refines

end RingBuffer

end Unheaded.Wotan
