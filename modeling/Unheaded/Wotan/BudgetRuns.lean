import Mathlib.Algebra.Order.BigOperators.Group.List
import Unheaded.Wotan.Budget

/-!
# Runs of the budget

Without other traffic the records are the footprints, so `EnforceTotal` ends
within the budget or with nothing left to evict.
-/

namespace Unheaded.Wotan

open Lib List

section Change

variable {rooms : List Held} {b : Nat} {r a : Held}

theorem forall_set {P : Nat → Held → Prop}
    (others : ∀ (i : Nat) (o : Held), i ≠ b → rooms[i]? = some o → P i o) (new : P b a) :
    ∀ (i : Nat) (o : Held), (rooms.set b a)[i]? = some o → P i o := by
  intro i o found
  by_cases here : b = i
  · subst here
    rw [List.getElem?_set_self'] at found
    cases room : rooms[b]? with
    | none =>
      simp [room] at found
    | some r =>
      rw [room] at found
      cases found
      exact new
  · rw [List.getElem?_set_ne here] at found
    exact others i o (Ne.symm here) found

theorem getElem?_set_of_room (room : rooms[b]? = some r) : (rooms.set b a)[b]? = some a :=
  List.getElem?_set_self (List.getElem?_eq_some_iff.mp room).1

theorem sum_map_set {M : Type} [AddCommMonoid M] (f : Held → M) (room : rooms[b]? = some r) :
    ((rooms.set b a).map f).sum + f r = (rooms.map f).sum + f a := by
  induction rooms generalizing b with
  | nil => cases room
  | cons o rooms ih =>
    cases b with
    | zero =>
      cases room
      rw [set_cons_zero, map_cons, map_cons, sum_cons, sum_cons,
        add_right_comm, add_comm (f a), add_right_comm]
    | succ b =>
      have rest := ih (b := b) room
      rw [set_cons_succ, map_cons, map_cons, sum_cons, sum_cons, add_assoc, rest, add_assoc]

end Change

def Place.isDone : Place → Bool
  | .done => true
  | _ => false

/-- The call has looked at room `i`. -/
def Place.Past : Place → Nat → Prop
  | .measuring j, i => i < j
  | _, _ => True

namespace Enforcing

/-- The total is the sum of the records, and the flags say what `keep` says. -/
structure Balanced (s : Enforcing) : Prop extends Sound s where
  total : s.total = (s.rooms.map Held.size).sum
  flags : ∀ (i : Nat) (r : Held), s.rooms[i]? = some r → s.place.Past i →
    r.evictable = mayEvict s.keep r.id
  unmeasured : ∀ (i : Nat) (r : Held), s.rooms[i]? = some r → ¬ s.place.Past i → r.size = 0

theorem start_balanced (budget : Nat) (keep : Option (Topic → Bool)) {rooms : List (Topic × RingBuffer)}
    (valid : ∀ r ∈ rooms, r.2.Valid) (seq : Int) : (start budget keep rooms seq).Balanced := by
  have held (i : Nat) (r : Held) (room : (start budget keep rooms seq).rooms[i]? = some r) :
      ∃ o ∈ rooms, r = ⟨o.1, o.2, 0, false⟩ := by
    obtain ⟨o, mem, rfl⟩ := List.mem_map.mp (mem_of_getElem? room)
    exact ⟨o, mem, rfl⟩
  refine ⟨⟨fun i r room => ?_, fun b next here => nomatch here⟩, ?_, ?_, ?_⟩
  · obtain ⟨o, mem, rfl⟩ := held i r room
    exact valid o mem
  · rw [start, List.map_map]
    exact (sum_eq_zero fun n mem => by
      obtain ⟨o, -, rfl⟩ := List.mem_map.mp mem
      rfl).symm
  · exact fun i r room past => absurd past (Nat.not_lt_zero i)
  · intro i r room _
    obtain ⟨o, -, rfl⟩ := held i r room
    rfl

variable {s s' : Enforcing}

theorem Moves.balanced (moves : Moves s s') (balanced : s.Balanced) : s'.Balanced := by
  obtain ⟨⟨valid, inside⟩, total, flags, unmeasured⟩ := balanced
  cases moves with
  | @measure i r here room =>
    rw [here] at flags unmeasured
    have zero : r.size = 0 := unmeasured i r room (Nat.lt_irrefl i)
    refine ⟨⟨forall_set (fun j o _ => valid j o) (valid i r room), fun b next this => nomatch this⟩,
      ?_, ?_, ?_⟩
    · have sum := sum_map_set Held.size room
        (a := { r with size := r.buffer.footprint, evictable := mayEvict s.keep r.id })
      dsimp only at sum ⊢
      omega
    · refine forall_set (fun j o other found past => flags j o found ?_) fun _ => rfl
      exact Nat.lt_of_le_of_ne (Nat.le_of_lt_succ past) other
    · refine forall_set (fun j o other found past => unmeasured j o found ?_) fun past => ?_
      · exact fun before => past (Nat.lt_succ_of_lt before)
      · exact absurd (Nat.lt_succ_self i) past
  | @measured i here all =>
    rw [here] at flags unmeasured
    have past (j : Nat) (o : Held) (found : s.rooms[j]? = some o) : j < i :=
      (List.getElem?_eq_some_iff.mp found).1.trans_le all
    exact ⟨⟨valid, fun b next this => nomatch this⟩, total,
      fun j o found _ => flags j o found (past j o found), fun j o _ not => absurd trivial not⟩
  | fits here within =>
    rw [here] at flags
    exact ⟨⟨valid, fun b next this => nomatch this⟩, total, flags, fun j o _ not => absurd trivial not⟩
  | exhausted here exceeds idle =>
    rw [here] at flags
    exact ⟨⟨valid, fun b next this => nomatch this⟩, total, flags, fun j o _ not => absurd trivial not⟩
  | @chosen b r next here exceeds room eligible largest second =>
    rw [here] at flags
    refine ⟨⟨valid, fun c n this => ?_⟩, total, flags, fun j o _ not => absurd trivial not⟩
    cases this
    exact ⟨r, room, eligible.1⟩
  | @evict b next r m rb here room goes held valid' size =>
    rw [here] at flags
    refine ⟨⟨forall_set (fun j o _ => valid j o) valid', fun c n this => ?_⟩, ?_, ?_, ?_⟩
    · cases here.symm.trans this
      obtain ⟨o, found, able⟩ := inside b next here
      cases room.symm.trans found
      exact ⟨_, getElem?_set_of_room room, able⟩
    · have sum := sum_map_set Held.size room
        (a := { r with buffer := rb, size := r.size - msgFootprint m })
      dsimp only at sum ⊢
      omega
    · exact forall_set (fun j o _ found _ => flags j o found trivial) fun _ => flags b r room trivial
    · intro j o _ not
      exact absurd (by rw [here]; trivial) not
  | @emptied b next r rb here room goes empty left valid' size =>
    rw [here] at flags
    refine ⟨⟨forall_set (fun j o _ => valid j o) valid', fun c n this => nomatch this⟩, ?_, ?_,
      fun j o _ not => absurd trivial not⟩
    · have sum := sum_map_set Held.size room (a := { r with buffer := rb, size := 0 })
      dsimp only at sum ⊢
      omega
    · exact forall_set (fun j o _ found _ => flags j o found trivial) fun _ => flags b r room trivial
  | leave here room stops =>
    rw [here] at flags
    exact ⟨⟨valid, fun b next this => nomatch this⟩, total, flags, fun j o _ not => absurd trivial not⟩
  | returned here => exact ⟨⟨valid, inside⟩, total, flags, unmeasured⟩

def weight (r : Held) : Nat := r.buffer.items.length + if 0 < r.size then 1 else 0

def Goes (s : Enforcing) (b : Nat) (next : Int) : Prop :=
  ∃ r ∈ s.rooms[b]?, (s.budget : Int) < s.total ∧ 0 < r.size ∧ next ≤ r.size

instance (s : Enforcing) (b : Nat) (next : Int) : Decidable (s.Goes b next) :=
  inferInstanceAs (Decidable (∃ r ∈ s.rooms[b]?, _))

/-- The steps that are left are bounded by this number. -/
def variant (s : Enforcing) : Nat :=
  match s.place with
  | .measuring i =>
    3 * (s.rooms.map fun r => r.buffer.items.length + 1).sum + 2 + (s.rooms.length - i)
  | .scanning => 3 * (s.rooms.map weight).sum + 1
  | .evicting b next => 3 * (s.rooms.map weight).sum + if s.Goes b next then 0 else 2
  | .done => 0

theorem sum_weight_le (rooms : List Held) :
    (rooms.map weight).sum ≤ (rooms.map fun r => r.buffer.items.length + 1).sum := by
  refine sum_le_sum fun r _ => ?_
  rw [weight]
  split <;> omega

theorem sum_weight_lt {b : Nat} {r a : Held} (room : s.rooms[b]? = some r)
    (less : weight a < weight r) : ((s.rooms.set b a).map weight).sum < (s.rooms.map weight).sum := by
  have sum := sum_map_set weight room (a := a)
  omega

theorem Moves.variant_lt (moves : Moves s s') (running : s.place ≠ .done)
    (progress : ∀ r, s.place = .scanning → 0 < s.budget → (s.budget : Int) < s.total →
      r ∈ s.rooms → r.Eligible → (∀ o ∈ s.rooms, o.Eligible → o.size ≤ r.size) → 0 < r.size) :
    s'.variant < s.variant := by
  cases moves with
  | @measure i r here room =>
    have inside := (List.getElem?_eq_some_iff.mp room).1
    have same : ((s.rooms.set i { r with
        size := r.buffer.footprint, evictable := mayEvict s.keep r.id }).map
          fun r => r.buffer.items.length + 1).sum =
        (s.rooms.map fun r => r.buffer.items.length + 1).sum := by
      have sum := sum_map_set (fun r => r.buffer.items.length + 1) room
        (a := { r with size := r.buffer.footprint, evictable := mayEvict s.keep r.id })
      exact Nat.add_right_cancel sum
    rw [variant, variant, here]
    dsimp only
    rw [length_set]
    omega
  | @measured i here all =>
    have bound := sum_weight_le s.rooms
    rw [variant, variant, here]
    dsimp only
    omega
  | fits here within =>
    rw [variant, variant, here]
    exact Nat.succ_pos _
  | exhausted here exceeds idle =>
    rw [variant, variant, here]
    exact Nat.succ_pos _
  | @chosen b r next here exceeds room eligible largest second =>
    have pos := progress r here exceeds.1 exceeds.2 (mem_of_getElem? room) eligible largest
    have goes : Goes { s with place := .evicting b next } b next :=
      ⟨r, room, exceeds.2, pos, by omega⟩
    rw [variant, variant, here]
    dsimp only
    rw [if_pos goes]
    exact Nat.lt_succ_self _
  | @evict b next r m rb here room goes held valid size =>
    have less : weight { r with buffer := rb, size := r.size - msgFootprint m } < weight r := by
      rw [weight, weight, if_pos goes.2.1, held, length_cons]
      dsimp only
      split <;> omega
    have falls := sum_weight_lt room less
    rw [variant, variant, here]
    dsimp only
    split <;> omega
  | @emptied b next r rb here room goes empty left valid size =>
    have less : weight { r with buffer := rb, size := 0 } < weight r := by
      rw [weight, weight, if_pos goes.2.1, empty, left]
      exact Nat.lt_succ_self _
    have falls := sum_weight_lt room less
    rw [variant, variant, here]
    dsimp only
    omega
  | @leave b next r here room stops =>
    have ended : ¬ s.Goes b next := by
      rintro ⟨o, found, goes⟩
      cases room.symm.trans found
      exact stops goes
    rw [variant, variant, here]
    dsimp only
    rw [if_neg ended]
    omega
  | returned here => exact absurd here running

theorem ends_of_invariant {I : Enforcing → Prop} (sound : ∀ s, I s → s.Sound)
    (preserved : ∀ s s', I s → Moves s s' → I s')
    (progress : ∀ s, I s → ∀ r, s.place = .scanning → 0 < s.budget → (s.budget : Int) < s.total →
      r ∈ s.rooms → r.Eligible → (∀ o ∈ s.rooms, o.Eligible → o.size ≤ r.size) → 0 < r.size)
    (begins : I s) : ∃ s', Reaches step s s' ∧ I s' ∧ s'.place = .done := by
  refine Reaches.of_variant variant (fun s holds running => ?_) begins
  obtain ⟨s', next, moves⟩ := step_moves (sound s holds)
  exact ⟨s', next, preserved s s' holds moves, moves.variant_lt running (progress s holds)⟩

/-- A room after the call: a protected one is as it was, another has its newest messages. -/
structure Kept (keep : Option (Topic → Bool)) (before : Topic × RingBuffer) (r : Held) : Prop where
  id : r.id = before.1
  protected_eq : mayEvict keep before.1 = false → r.buffer = before.2
  suffix : r.buffer.items <:+ before.2.items

def countOf (rb : RingBuffer) : Int := rb.items.length

/-- The records of the rooms that were measured are their footprints, and nothing but
evictions has happened to the rooms. -/
structure Exact (rooms : List (Topic × RingBuffer)) (s : Enforcing) : Prop extends Balanced s where
  sizes : ∀ (i : Nat) (r : Held), s.rooms[i]? = some r → s.place.Past i → r.size = r.buffer.footprint
  length : s.rooms.length = rooms.length
  kept : ∀ (i : Nat) (r : Held), s.rooms[i]? = some r → ∀ before ∈ rooms[i]?, Kept s.keep before r
  count : s.dropped + (s.rooms.map fun r => countOf r.buffer).sum =
    (rooms.map fun r => countOf r.2).sum

variable {rooms : List (Topic × RingBuffer)}

theorem start_exact {budget : Nat} {keep : Option (Topic → Bool)} (valid : ∀ r ∈ rooms, r.2.Valid)
    (seq : Int) : Exact rooms (start budget keep rooms seq) := by
  refine ⟨start_balanced _ _ valid seq, ?_, length_map _, ?_, ?_⟩
  · exact fun i r _ past => absurd past (Nat.not_lt_zero i)
  · intro i r room before found
    rw [start, List.getElem?_map, found] at room
    cases room
    exact ⟨rfl, fun _ => rfl, suffix_refl _⟩
  · rw [start, List.map_map]
    exact Int.zero_add _

theorem footprint_evict {rb left : RingBuffer} {m : Message} (valid : rb.Valid) (valid' : left.Valid)
    (held : rb.items = m :: left.items) : left.footprint = rb.footprint - msgFootprint m := by
  rw [valid.footprint_eq, valid'.footprint_eq, held, map_cons, sum_cons]
  omega

theorem footprint_nil {rb : RingBuffer} (valid : rb.Valid) (empty : rb.items = []) :
    rb.footprint = 0 := by
  rw [valid.footprint_eq, empty]
  rfl

theorem Moves.exact (moves : Moves s s') (exact : Exact rooms s) : Exact rooms s' := by
  have balanced := moves.balanced exact.toBalanced
  obtain ⟨⟨⟨valid, inside⟩, total, flags, unmeasured⟩, sizes, length, kept, count⟩ := exact
  cases moves with
  | @measure i r here room =>
    rw [here] at sizes
    refine ⟨balanced, ?_, (length_set ..).trans length, ?_, ?_⟩
    · refine forall_set (fun j o other found past => sizes j o found ?_) fun _ => rfl
      exact Nat.lt_of_le_of_ne (Nat.le_of_lt_succ past) other
    · refine forall_set (fun j o _ found => kept j o found) fun before found => ?_
      obtain ⟨id, same, suffix⟩ := kept i r room before found
      exact ⟨id, same, suffix⟩
    · have sum := sum_map_set (fun r => countOf r.buffer) room
        (a := { r with size := r.buffer.footprint, evictable := mayEvict s.keep r.id })
      dsimp only at sum ⊢
      omega
  | @measured i here all =>
    rw [here] at sizes
    exact ⟨balanced, fun j o found _ =>
      sizes j o found ((List.getElem?_eq_some_iff.mp found).1.trans_le all), length, kept, count⟩
  | fits here within =>
    rw [here] at sizes
    exact ⟨balanced, sizes, length, kept, count⟩
  | exhausted here exceeds idle =>
    rw [here] at sizes
    exact ⟨balanced, sizes, length, kept, count⟩
  | chosen here exceeds room eligible largest second =>
    rw [here] at sizes
    exact ⟨balanced, sizes, length, kept, count⟩
  | @evict b next r m rb here room goes held valid' size =>
    rw [here] at sizes flags
    obtain ⟨o, found, able⟩ := inside b next here
    cases room.symm.trans found
    refine ⟨balanced, ?_, (length_set ..).trans length, ?_, ?_⟩
    · refine forall_set (fun j o _ found _ => sizes j o found trivial) fun _ => ?_
      rw [footprint_evict (valid b r room) valid' held, ← sizes b r room trivial]
    · refine forall_set (fun j o _ found => kept j o found) fun before found => ?_
      obtain ⟨id, same, suffix⟩ := kept b r room before found
      refine ⟨id, fun safe => ?_, ?_⟩
      · simp [← id, ← flags b r room trivial, able] at safe
      · rw [held] at suffix
        exact (suffix_cons m rb.items).trans suffix
    · have sum := sum_map_set (fun r => countOf r.buffer) room
        (a := { r with buffer := rb, size := r.size - msgFootprint m })
      have less : countOf r.buffer = countOf rb + 1 := by
        rw [countOf, held]
        rfl
      dsimp only at sum ⊢
      omega
  | @emptied b next r rb here room goes empty left valid' size =>
    -- a room without messages has the record 0 here
    rw [here] at sizes
    have zero := sizes b r room trivial
    rw [footprint_nil (valid b r room) empty] at zero
    omega
  | leave here room stops =>
    rw [here] at sizes
    exact ⟨balanced, sizes, length, kept, count⟩
  | returned here => exact ⟨balanced, sizes, length, kept, count⟩

def Ended (s : Enforcing) : Prop :=
  s.place = .done → ¬ (0 < s.budget ∧ (s.budget : Int) < s.total) ∨ ∀ r ∈ s.rooms, ¬ r.Eligible

theorem Moves.ended (moves : Moves s s') (ended : s.Ended) : s'.Ended := by
  cases moves with
  | fits here within => exact fun _ => .inl within
  | exhausted here exceeds idle => exact fun _ => .inr idle
  | returned here => exact ended
  | evict here room goes held valid size => exact fun done => nomatch here.symm.trans done
  | _ => exact fun done => nomatch done

theorem Moves.settings (moves : Moves s s') : s'.budget = s.budget ∧ s'.keep = s.keep := by
  cases moves <;> exact ⟨rfl, rfl⟩

theorem Exact.forall₂ (exact : Exact rooms s) : List.Forall₂ (Kept s.keep) rooms s.rooms := by
  refine forall₂_iff_get.mpr ⟨exact.length.symm, fun i before after => ?_⟩
  exact exact.kept i _ (List.getElem?_eq_getElem after) _ (List.getElem?_eq_getElem before)

theorem Exact.total_eq (exact : Exact rooms s) (done : s.place = .done) :
    s.total = (s.rooms.map fun r => r.buffer.footprint).sum := by
  rw [exact.total]
  congr 1
  refine map_congr_left fun r mem => ?_
  obtain ⟨i, room⟩ := List.getElem?_of_mem mem
  exact exact.sizes i r room (by rw [done]; trivial)

theorem Exact.empty_of_idle (exact : Exact rooms s) (done : s.place = .done) {r : Held}
    (mem : r ∈ s.rooms) (idle : ¬ r.Eligible) (able : mayEvict s.keep r.id = true) :
    r.buffer.items = [] := by
  obtain ⟨i, room⟩ := List.getElem?_of_mem mem
  have past : s.place.Past i := by rw [done]; trivial
  have size := exact.sizes i r room past
  rcases (Held.not_eligible_iff r).mp idle with safe | zero
  · simp [exact.flags i r room past, able] at safe
  · rw [(exact.valid i r room).footprint_eq] at size
    cases held : r.buffer.items with
    | nil => rfl
    | cons m items =>
      rw [held, map_cons, sum_cons, msgFootprint, messageOverhead] at size
      omega

/-- `EnforceTotal` returns.  Then all rooms together are within the budget or no room is left that
it could evict from; protected rooms are as they were and the others have their newest messages;
the total that is returned is the footprint of all rooms and the count the number of messages
dropped. -/
def Enforced (budget : Nat) (keep : Option (Topic → Bool)) (rooms : List (Topic × RingBuffer))
    (seq : Int) : Prop :=
  ∃ s, Reaches step (start budget keep rooms seq) s ∧ s.place = .done ∧
    ((s.rooms.map fun r => r.buffer.footprint).sum ≤ budget ∨
      ∀ r ∈ s.rooms, mayEvict keep r.id = true → r.buffer.items = []) ∧
    List.Forall₂ (Kept keep) rooms s.rooms ∧
    s.total = (s.rooms.map fun r => r.buffer.footprint).sum ∧
    s.dropped + (s.rooms.map fun r => countOf r.buffer).sum =
      (rooms.map fun r => countOf r.2).sum

theorem enforced {budget : Nat} (positive : 0 < budget) (keep : Option (Topic → Bool))
    {rooms : List (Topic × RingBuffer)} (valid : ∀ r ∈ rooms, r.2.Valid) (seq : Int) :
    Enforced budget keep rooms seq := by
  obtain ⟨s, reached, ⟨exact, ended, settings⟩, done⟩ := ends_of_invariant
    (I := fun s => Exact rooms s ∧ s.Ended ∧ s.budget = budget ∧ s.keep = keep)
    (s := start budget keep rooms seq)
    (fun s holds => holds.1.toSound)
    (fun s s' holds moves => ⟨moves.exact holds.1, moves.ended holds.2.1,
      moves.settings.1.trans holds.2.2.1, moves.settings.2.trans holds.2.2.2⟩)
    (fun s holds r scanning _ _ member eligible _ => by
      obtain ⟨i, room⟩ := List.getElem?_of_mem member
      have size := holds.1.sizes i r room (by rw [scanning]; trivial)
      rw [(holds.1.valid i r room).footprint_eq] at size
      have nonzero := eligible.2
      omega)
    ⟨start_exact valid seq, (fun done => nomatch done), rfl, rfl⟩
  obtain ⟨rfl, rfl⟩ := settings
  refine ⟨s, reached, done, ?_, exact.forall₂, exact.total_eq done, exact.count⟩
  rcases ended done with within | idle
  · rw [← exact.total_eq done]
    exact .inl (Int.not_lt.mp fun exceeds => within ⟨positive, exceeds⟩)
  · exact .inr fun r member able => exact.empty_of_idle done member (idle r member) able

/-- A call that panics within `n + 1` steps, before it has returned. -/
theorem not_enforced_of_panic {budget : Nat} {keep : Option (Topic → Bool)}
    {rooms : List (Topic × RingBuffer)} {seq : Int} (n : Nat)
    (stops : (stepN step (n + 1) (start budget keep rooms seq)).isNone = true)
    (runs : ∀ m ≤ n, (stepN step m (start budget keep rooms seq)).all (!·.place.isDone) = true) :
    ¬ Enforced budget keep rooms seq := by
  rintro ⟨s, reached, done, -⟩
  have running := reached.check n (!·.place.isDone) stops runs
  rw [done] at running
  cases running

/-- The call has looked at its one room. -/
def lone (rb : RingBuffer) (seq : Int) (place : Place) : Enforcing where
  budget := 1
  keep := none
  rooms := [⟨[], rb, 193, true⟩]
  total := 193
  dropped := 0
  seq := seq
  place := place

theorem not_enforced_of_stuck {rb : RingBuffer} (footprint : rb.footprint = 193)
    (stuck : rb.evictOldest = none) (seq : Int) : ¬ Enforced 1 none [([], rb)] seq := by
  have measured : step (start 1 none [([], rb)] seq) = some (lone rb seq (.measuring 1)) := by
    simp [step, start, lone, footprint, mayEvict]
  have stops : step (lone rb seq (.evicting 0 0)) = none := by
    simp [step, lone, stuck]
  have looked : step (lone rb seq (.measuring 1)) = some (lone rb seq .scanning) := rfl
  have scanned : step (lone rb seq .scanning) = some (lone rb seq (.evicting 0 0)) := by
    simp [step, lone, scan, compare]
  have chosen : stepN step 3 (start 1 none [([], rb)] seq) = some (lone rb seq (.evicting 0 0)) := by
    rw [stepN_succ, measured, Option.bind_some, stepN_succ, looked, Option.bind_some, stepN_one,
      scanned]
  refine not_enforced_of_panic 3 ?_ fun m bound => ?_
  · rw [stepN_succ_last, chosen, Option.bind_some, stops]
    rfl
  · obtain rfl | rfl | rfl | rfl : m = 0 ∨ m = 1 ∨ m = 2 ∨ m = 3 := by omega
    · rfl
    · rw [stepN_one, measured]
      rfl
    · rw [stepN_succ, measured, Option.bind_some, stepN_one, looked]
      rfl
    · rw [chosen]
      rfl

/-- Without other traffic every call keeps these promises, for every budget, protected set and
state of the rooms, exactly when the buffers have at most `2 ^ 62` slots. -/
theorem enforceTotal_within_budget (size : Int64) :
    (∀ budget keep rooms, 0 < budget → (∀ r ∈ rooms, r.2.Built size.toInt) →
      ∀ seq, Enforced budget keep rooms seq) ↔ size.toInt ≤ 2 ^ 62 := by
  constructor
  · intro all
    by_contra large
    obtain ⟨ops, replies, counter, rb, m, k, ran, single, sum, bytes⟩ :=
      RingBuffer.reaches_stuck (Int.not_le.mp large) true (blank 1)
    have built : rb.Built size.toInt := ⟨0, true, 0, ops, replies, counter, ran⟩
    have footprint : rb.footprint = 193 := by
      rw [RingBuffer.footprint, single.bytes, single.count, bytes]
      rfl
    have fits := size.toInt_lt
    refine not_enforced_of_stuck footprint (single.stuck sum (by omega) (by omega)).1 0
      (all 1 none [([], rb)] Nat.one_pos (fun r member => ?_) 0)
    rwa [mem_singleton.mp member]
  · intro small budget keep rooms positive built seq
    exact enforced positive keep (fun r member => (built r member).valid small) seq

def filled : RingBuffer :=
  ((((RingBuffer.new Int64.maxValue.toInt true).setMaxBytes 0).run
    [.push (blank 0), .push (blank 0)] 0).map fun result => result.2.2).getD (RingBuffer.new 2 true)

/-- The largest buffer, with two messages to evict. -/
theorem second_eviction_panics :
    filled.Built Int64.maxValue.toInt ∧ ¬ Enforced 1 none [([], filled)] 2 := by
  refine ⟨⟨0, true, 0, [.push (blank 0), .push (blank 0)], _, _, rfl⟩, ?_⟩
  exact not_enforced_of_panic 4 rfl (by decide)

end Enforcing

end Unheaded.Wotan
