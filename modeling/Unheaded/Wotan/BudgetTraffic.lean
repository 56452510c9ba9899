import Unheaded.Lib.Schedules
import Unheaded.Wotan.BudgetRuns

/-!
# The budget under traffic

Pushes come between the steps of `EnforceTotal`. An eviction can then free more than the record
of its room, and the record goes below zero.
-/

namespace Unheaded.Wotan

open Lib List Option Held

/-- A push by someone else, or a step of the call. -/
inductive Traffic where
  | push (i : Nat) (msg : Message)
  | step

namespace Enforcing

def traffic (s : Enforcing) : Traffic → Option Enforcing
  | .push i msg => s.push i msg
  | .step => s.step

def Returns (s : Enforcing) : Prop := ∃ s', Reaches step s s' ∧ s'.place = .done

section Push

variable {s s' : Enforcing} {i : Nat} {r : Held} {msg : Message}

theorem push_eq (msg : Message) (valid : r.buffer.Valid) (room : s.rooms[i]? = some r) :
    ∃ stored rb seq, s.push i msg =
        some { s with rooms := s.rooms.set i { r with buffer := rb }, seq := seq } ∧
      rb.Valid ∧ rb.items <:+ r.buffer.items ++ [stored] ∧ rb.items ≠ [] ∧
      rb.size = r.buffer.size ∧ msgFootprint stored = msgFootprint msg := by
  obtain ⟨stored, dropped, seq, rb, pushed, rest⟩ := valid.push s.seq msg
  refine ⟨stored, rb, seq, ?_, rest⟩
  rw [push, room, bind_eq_bind, bind_some, pushed]
  rfl

theorem push_cases (sound : s.Sound) (pushed : s.push i msg = some s') :
    ∃ r rb seq, s.rooms[i]? = some r ∧ rb.Valid ∧
      s' = { s with rooms := s.rooms.set i { r with buffer := rb }, seq := seq } := by
  cases room : s.rooms[i]? with
  | none =>
    simp [push, room] at pushed
  | some r =>
    obtain ⟨stored, rb, seq, pushed', valid, -⟩ := push_eq msg (sound.valid i r room) room
    rw [pushed] at pushed'
    cases pushed'
    exact ⟨r, rb, seq, rfl, valid, rfl⟩

theorem push_balanced (balanced : s.Balanced) (pushed : s.push i msg = some s') : s'.Balanced := by
  obtain ⟨r, rb, seq, room, valid', rfl⟩ := push_cases balanced.toSound pushed
  obtain ⟨⟨valid, inside⟩, total, flags, unmeasured⟩ := balanced
  refine ⟨⟨forall_set (fun j o _ => valid j o) valid', ?_⟩, ?_, ?_, ?_⟩
  · intro b next here
    obtain ⟨o, found, able⟩ := inside b next here
    by_cases same : i = b
    · subst same
      cases room.symm.trans found
      exact ⟨_, getElem?_set_of_room room, able⟩
    · exact ⟨o, (getElem?_set_ne same).trans found, able⟩
  · have sum := sum_map_set size room (a := { r with buffer := rb })
    exact total.trans (add_right_cancel sum).symm
  · exact forall_set (fun j o _ => flags j o) (flags i r room)
  · exact forall_set (fun j o _ => unmeasured j o) (unmeasured i r room)

end Push

def Uniform (s : Enforcing) : Prop :=
  s.budget = 0 ∨ (∀ id ∈ s.rooms.map Held.id, mayEvict s.keep id = true) ∨
    ∀ id ∈ s.rooms.map Held.id, mayEvict s.keep id = false

theorem map_id_set {rooms : List Held} {b : Nat} {r a : Held} (room : rooms[b]? = some r)
    (same : a.id = r.id) : (rooms.set b a).map Held.id = rooms.map Held.id := by
  refine ext_getElem? fun i => ?_
  rw [getElem?_map, getElem?_map]
  by_cases here : b = i
  · subst here
    rw [getElem?_set_of_room room, room, map_some, map_some, same]
  · rw [getElem?_set_ne here]

variable {s s' : Enforcing}

theorem Moves.ids (moves : Moves s s') : s'.rooms.map Held.id = s.rooms.map Held.id := by
  cases moves with
  | measure here room => exact map_id_set room rfl
  | evict here room goes held valid size => exact map_id_set room rfl
  | emptied here room goes empty left valid size => exact map_id_set room rfl
  | _ => rfl

theorem Uniform.congr (uniform : s.Uniform) (budget : s'.budget = s.budget) (keep : s'.keep = s.keep)
    (ids : s'.rooms.map Held.id = s.rooms.map Held.id) : s'.Uniform := by
  rwa [Uniform, budget, keep, ids]

theorem Uniform.progress (uniform : s.Uniform) (balanced : s.Balanced) {r : Held}
    (scanning : s.place = .scanning) (positive : 0 < s.budget) (exceeds : (s.budget : Int) < s.total)
    (mem : r ∈ s.rooms) (eligible : r.Eligible)
    (largest : ∀ o ∈ s.rooms, o.Eligible → o.size ≤ r.size) : 0 < r.size := by
  have flag (o : Held) (here : o ∈ s.rooms) : o.evictable = mayEvict s.keep o.id := by
    obtain ⟨i, room⟩ := getElem?_of_mem here
    exact balanced.flags i o room (by rw [scanning]; trivial)
  rcases uniform with none | all | safe
  · omega
  · by_contra low
    have nonpositive : s.total ≤ 0 := by
      rw [balanced.total]
      refine (sum_le_card_nsmul _ 0 fun n found => ?_).trans_eq (nsmul_zero _)
      obtain ⟨o, here, rfl⟩ := mem_map.mp found
      by_cases zero : o.size = 0
      · exact zero.le
      · have able : o.evictable = true := (flag o here).trans (all _ (mem_map_of_mem here))
        exact (largest o here ⟨able, zero⟩).trans (not_lt.mp low)
    omega
  · have kept := safe _ (mem_map_of_mem mem)
    simp [← flag r mem, eligible.1] at kept

theorem Uniform.returns (uniform : s.Uniform) (balanced : s.Balanced) : s.Returns := by
  obtain ⟨s', reached, -, done⟩ := ends_of_invariant (I := fun s => s.Balanced ∧ s.Uniform)
    (fun s holds => holds.1.toSound)
    (fun s s' holds moves => ⟨moves.balanced holds.1,
      holds.2.congr moves.settings.1 moves.settings.2 moves.ids⟩)
    (fun s holds r => holds.2.progress holds.1) ⟨balanced, uniform⟩
  exact ⟨s', reached, done⟩

/-- The record of a room is too low for every message that is left in it, or has
gone below zero with one of them. -/
inductive Owes (F : Nat) (r : Held) : Prop
  | short (positive : 0 < r.size) (low : r.size < F) (some : r.buffer.items ≠ [])
      (all : ∀ m ∈ r.buffer.items, msgFootprint m = F) : Owes F r
  | negative (low : -(F : Int) < r.size) (below : r.size < 0) : Owes F r

def Fair (r : Held) : Prop := 0 ≤ r.size ∧ (r.evictable = true → r.size = r.buffer.footprint)

/-- Room `e` owes, room `p` is protected and by itself exceeds the budget by what can be
owed, and the other records are right. -/
structure Spins (F e p : Nat) (s : Enforcing) : Prop extends Balanced s where
  measured : ∀ i, s.place ≠ .measuring i
  running : s.place ≠ .done
  positive : 0 < s.budget
  owes : ∃ r : Held, s.rooms[e]? = some r ∧ r.evictable = true ∧ Owes F r
  large : ∃ r : Held, s.rooms[p]? = some r ∧ r.evictable = false ∧ (s.budget : Int) + F ≤ r.size
  others : ∀ (i : Nat) (r : Held), i ≠ e → s.rooms[i]? = some r → Fair r

namespace Spins

variable {F e p : Nat}

variable (spins : Spins F e p s)
include spins

theorem exceeds : (s.budget : Int) < s.total := by
  obtain ⟨r, room, able, owes⟩ := spins.owes
  obtain ⟨o, other, safe, large⟩ := spins.large
  have apart : p ≠ e := by
    rintro rfl
    cases room.symm.trans other
    simp [able] at safe
  have sum := sum_map_set size room (a := { r with size := 0 })
  have found : (s.rooms.set e { r with size := 0 })[p]? = some o :=
    (getElem?_set_ne apart.symm).trans other
  have low : o.size ≤ ((s.rooms.set e { r with size := 0 }).map size).sum := by
    refine single_le_sum (fun n mem => ?_) _ (mem_map_of_mem (mem_of_getElem? found))
    obtain ⟨q, inside, rfl⟩ := mem_map.mp mem
    obtain ⟨i, here⟩ := getElem?_of_mem inside
    exact forall_set (P := fun _ q => 0 ≤ q.size) (fun j q apart room => (spins.others j q apart room).1)
      (le_refl 0) i q here
  have owed : -(F : Int) < r.size := by
    cases owes with
    | short positive low some all => omega
    | negative low below => exact low
  rw [spins.total]
  dsimp only at sum
  omega

theorem eligible : ∃ r ∈ s.rooms, r.Eligible := by
  obtain ⟨r, room, able, owes⟩ := spins.owes
  refine ⟨r, mem_of_getElem? room, able, ?_⟩
  cases owes with
  | short positive low some all => omega
  | negative low below => omega

theorem moves (moves : Moves s s') : Spins F e p s' := by
  have balanced := moves.balanced spins.toBalanced
  have exceeds := spins.exceeds
  obtain ⟨able, mem, eligible⟩ := spins.eligible
  obtain ⟨kept, measured, running, positive, owes, large, others⟩ := spins
  cases moves with
  | measure here room => exact absurd here (measured _)
  | measured here all => exact absurd here (measured _)
  | fits here within => exact absurd ⟨positive, exceeds⟩ within
  | exhausted here exceeded idle => exact absurd eligible (idle able mem)
  | returned here => exact absurd here running
  | chosen here exceeded room eligible largest second =>
    exact ⟨balanced, (fun i this => nomatch this), (fun this => nomatch this), positive, owes, large,
      others⟩
  | leave here room stops =>
    exact ⟨balanced, (fun i this => nomatch this), (fun this => nomatch this), positive, owes, large,
      others⟩
  | @evict b next r m rb here room goes held valid size =>
    obtain ⟨o, found, able⟩ := kept.inside b next here
    cases room.symm.trans found
    obtain ⟨big, bigRoom, safe, bigSize⟩ := large
    have apart : b ≠ p := by
      rintro rfl
      cases room.symm.trans bigRoom
      simp [able] at safe
    have stays : ∃ q : Held,
        (s.rooms.set b { r with buffer := rb, size := r.size - msgFootprint m })[p]? = some q ∧
          q.evictable = false ∧ (s.budget : Int) + F ≤ q.size :=
      ⟨big, (getElem?_set_ne apart).trans bigRoom, safe, bigSize⟩
    obtain ⟨owing, owingRoom, owingAble, debt⟩ := owes
    by_cases same : b = e
    · subst same
      cases room.symm.trans owingRoom
      have size : msgFootprint m = F ∧ r.size < F := by
        cases debt with
        | short positive low some all => exact ⟨all m (held ▸ mem_cons_self), low⟩
        | negative low below => exact absurd goes.2.1 (by omega)
      refine ⟨balanced, fun i this => measured i this, fun this => running this, positive,
        ⟨_, getElem?_set_of_room room, able, .negative ?_ ?_⟩, stays, ?_⟩
      · dsimp only
        omega
      · dsimp only
        omega
      · intro i q apart found
        rw [getElem?_set_ne (Ne.symm apart)] at found
        exact others i q apart found
    · have fair := others b r same room
      have right := footprint_evict (kept.valid b r room) valid held
      refine ⟨balanced, fun i this => measured i this, fun this => running this, positive,
        ⟨owing, (getElem?_set_ne same).trans owingRoom, owingAble, debt⟩, stays, ?_⟩
      intro i q apart found
      refine forall_set (P := fun i q => i ≠ e → Fair q)
        (fun j o _ found apart => others j o apart found)
        (fun _ => ?_) i q found apart
      have exact : r.size - msgFootprint m = rb.footprint := by rw [right, fair.2 able]
      refine ⟨?_, fun _ => exact⟩
      rw [exact, valid.footprint_eq]
      exact Int.natCast_nonneg _
  | @emptied b next r rb here room goes empty left valid size =>
    obtain ⟨o, found, able⟩ := kept.inside b next here
    cases room.symm.trans found
    by_cases same : b = e
    · subst same
      obtain ⟨owing, owingRoom, owingAble, debt⟩ := owes
      cases room.symm.trans owingRoom
      cases debt with
      | short positive low some all => exact absurd empty some
      | negative low below => omega
    · have size := (others b r same room).2 able
      rw [footprint_nil (kept.valid b r room) empty] at size
      omega

theorem never_returns : ¬ s.Returns := by
  rintro ⟨s', ⟨n, run⟩, done⟩
  have later : Spins F e p s' := by
    refine stepN_invariant (fun s s' spins next => ?_) n spins run
    obtain ⟨t, next', moves⟩ := step_moves spins.toSound
    cases next.symm.trans next'
    exact spins.moves moves
  exact later.running done

end Spins

variable {e : Traffic}

theorem traffic_balanced (balanced : s.Balanced) (next : s.traffic e = some s') : s'.Balanced := by
  cases e with
  | push i msg => exact push_balanced balanced next
  | step =>
    obtain ⟨t, next', moves⟩ := step_moves balanced.toSound
    cases next.symm.trans next'
    exact moves.balanced balanced

def measure (keep : Option (Topic → Bool)) (r : Held) : Held :=
  { r with size := r.buffer.footprint, evictable := mayEvict keep r.id }

theorem measure_rooms (here : s.place = .measuring 0) {j : Nat} (enough : j ≤ s.rooms.length) :
    ∃ s', runAll traffic s (replicate j .step) = some s' ∧ s'.place = .measuring j ∧
      s'.budget = s.budget ∧ s'.keep = s.keep ∧ s'.rooms.length = s.rooms.length ∧
      ∀ (i : Nat) (r : Held), s.rooms[i]? = some r →
        s'.rooms[i]? = some (if i < j then measure s.keep r else r) := by
  induction j with
  | zero => exact ⟨s, rfl, here, rfl, rfl, rfl, fun i r room => room⟩
  | succ j ih =>
    obtain ⟨t, run, place, budget, keep, length, rooms⟩ := ih (by omega)
    obtain ⟨r, room⟩ : ∃ r, s.rooms[j]? = some r := ⟨_, getElem?_eq_getElem enough⟩
    have found : t.rooms[j]? = some r := by
      rw [rooms j r room, if_neg (Nat.lt_irrefl j)]
    have next : t.step = some { t with
        rooms := t.rooms.set j (measure t.keep r)
        total := t.total + r.buffer.footprint
        place := .measuring (j + 1) } := by
      simp only [step, place, found]
      rfl
    refine ⟨{ t with
        rooms := t.rooms.set j (measure t.keep r)
        total := t.total + r.buffer.footprint
        place := .measuring (j + 1) }, ?_, rfl, budget, keep, (length_set ..).trans length, ?_⟩
    · rw [replicate_succ', runAll_append, run]
      change (t.step).bind _ = _
      rw [next]
      rfl
    · intro i o old
      by_cases same : j = i
      · subst same
        cases room.symm.trans old
        rw [if_pos (Nat.lt_succ_self j), keep]
        exact getElem?_set_of_room found
      · refine (getElem?_set_ne same).trans ((rooms i o old).trans ?_)
        congr 1
        exact if_congr (by omega) rfl rfl

theorem push_many {i : Nat} (msg : Message) {k : Nat} {r : Held} (room : s.rooms[i]? = some r)
    (valid : r.buffer.Valid) :
    ∃ rb seq new, runAll traffic s (replicate k (.push i msg)) =
        some { s with rooms := s.rooms.set i { r with buffer := rb }, seq := seq } ∧
      rb.Valid ∧ rb.size = r.buffer.size ∧ new.length = k ∧
      (∀ m ∈ new, msgFootprint m = msgFootprint msg) ∧ rb.items <:+ r.buffer.items ++ new ∧
      (r.buffer.items ≠ [] → rb.items ≠ []) := by
  induction k generalizing s r with
  | zero =>
    refine ⟨r.buffer, s.seq, [], ?_, valid, rfl, rfl, ?_, ?_, id⟩
    · obtain ⟨inside, rfl⟩ := List.getElem?_eq_some_iff.mp room
      rw [set_getElem_self]
      rfl
    · exact fun m mem => absurd mem not_mem_nil
    · exact ⟨[], (append_nil _).symm⟩
  | succ k ih =>
    obtain ⟨stored, rb, seq, pushed, valid₁, suffix₁, some₁, size₁, footprint₁⟩ :=
      push_eq msg valid room
    obtain ⟨rb', seq', new, run, valid', size', length, all, suffix, some'⟩ :=
      ih (s := { s with rooms := s.rooms.set i { r with buffer := rb }, seq := seq })
        (getElem?_set_of_room room) valid₁
    refine ⟨rb', seq', stored :: new, ?_, valid', size'.trans size₁, congrArg (· + 1) length, ?_, ?_, ?_⟩
    · change (s.push i msg).bind _ = _
      rw [pushed, bind_some, run, set_set]
    · exact forall_mem_cons.mpr ⟨footprint₁, all⟩
    · obtain ⟨front, split⟩ := suffix₁
      refine suffix.trans ⟨front, ?_⟩
      rw [← append_assoc, split, append_assoc]
      rfl
    · exact fun _ => some' some₁

theorem footprint_ge {rb : RingBuffer} (valid : rb.Valid) {old : List Message} {stored : Message}
    (suffix : rb.items <:+ old ++ [stored]) (some : rb.items ≠ []) :
    (msgFootprint stored : Int) ≤ rb.footprint := by
  have last : stored ∈ rb.items := by
    obtain ⟨front, split⟩ := suffix
    have same := congrArg getLast? split
    rw [getLast?_append_of_ne_nil _ some, getLast?_concat] at same
    exact mem_of_getLast? same
  rw [valid.footprint_eq]
  exact_mod_cast single_le_sum (fun n _ => Nat.zero_le n) _ (mem_map_of_mem last)

def Leads (s s' : Enforcing) : Prop := ∃ events, runAll traffic s events = some s'

theorem Leads.trans {t : Enforcing} (first : Leads s t) (second : Leads t s') : Leads s s' := by
  obtain ⟨before, run⟩ := first
  obtain ⟨rest, run'⟩ := second
  exact ⟨before ++ rest, by rw [runAll_append, run, bind_some, run']⟩

theorem Leads.single (next : s.traffic e = some s') : Leads s s' :=
  ⟨[e], by rw [runAll, next]; rfl⟩

theorem Leads.balanced (leads : Leads s s') (balanced : s.Balanced) : s'.Balanced := by
  obtain ⟨events, run⟩ := leads
  exact runAll_invariant (fun s e s' => traffic_balanced) run balanced

theorem leads_measured (here : s.place = .measuring 0) :
    ∃ t, Leads s t ∧ t.place = .scanning ∧ t.budget = s.budget ∧
      (∀ (i : Nat) (r : Held), s.rooms[i]? = some r → t.rooms[i]? = some (measure s.keep r)) ∧
      ∀ (i : Nat) (r : Held), t.rooms[i]? = some r → ∃ o, r = measure s.keep o := by
  obtain ⟨t, run, place, budget, keep, length, rooms⟩ := measure_rooms here le_rfl
  have all (i : Nat) (r : Held) (room : s.rooms[i]? = some r) :
      t.rooms[i]? = some (measure s.keep r) := by
    rw [rooms i r room, if_pos (List.getElem?_eq_some_iff.mp room).1]
  have next : t.step = some { t with place := .scanning } := by
    have none := List.getElem?_eq_none_iff.mpr length.le
    simp only [step, place, none]
  refine ⟨{ t with place := .scanning }, Leads.trans ⟨_, run⟩ (.single (e := .step) next), rfl, budget,
    all, fun i r room => ?_⟩
  have inside : i < s.rooms.length := length ▸ (List.getElem?_eq_some_iff.mp room).1
  have same := all i _ (List.getElem?_eq_getElem inside)
  exact ⟨_, some.inj (room.symm.trans same)⟩

/-- The call has looked at all rooms. -/
structure Loaded (S e p : Nat) (s : Enforcing) : Prop extends Balanced s where
  scanning : s.place = .scanning
  positive : 0 < s.budget
  small : ∃ r : Held, s.rooms[e]? = some r ∧ r.evictable = true ∧ 0 < S ∧ r.size = S ∧
    r.buffer.items ≠ []
  large : ∃ r : Held, s.rooms[p]? = some r ∧ r.evictable = false ∧
    (s.budget : Int) + (S + messageOverhead : Nat) ≤ r.size
  fair : ∀ (i : Nat) (r : Held), s.rooms[i]? = some r → Fair r

theorem leads_loaded (balanced : s.Balanced) (here : s.place = .measuring 0)
    (positive : 0 < s.budget) {e p : Nat} {re rp : Held} (roomE : s.rooms[e]? = some re)
    (roomP : s.rooms[p]? = some rp) (able : mayEvict s.keep re.id = true)
    (safe : mayEvict s.keep rp.id = false) : ∃ S t, Leads s t ∧ Loaded S e p t := by
  have apart : e ≠ p := by
    rintro rfl
    cases roomE.symm.trans roomP
    simp [able] at safe
  obtain ⟨stored, rbE, seq, push₁, validE, suffixE, someE, -, -⟩ :=
    push_eq (blank 0) (balanced.valid e re roomE) roomE
  obtain ⟨S, record⟩ : ∃ S : Nat, rbE.footprint = S := ⟨_, validE.footprint_eq⟩
  have nonzero : 0 < S := by
    have least := footprint_ge validE suffixE someE
    rw [msgFootprint, messageOverhead] at least
    omega
  have roomP₁ : (s.rooms.set e { re with buffer := rbE })[p]? = some rp :=
    (getElem?_set_ne apart).trans roomP
  obtain ⟨stored, rbP, seq', push₂, validP, suffixP, someP, -, footprintP⟩ :=
    push_eq (s := { s with rooms := s.rooms.set e { re with buffer := rbE }, seq := seq })
      (blank (s.budget + S)) (balanced.valid p rp roomP) roomP₁
  have recordP := footprint_ge validP suffixP someP
  rw [footprintP, msgFootprint_blank] at recordP
  obtain ⟨t, measured, scanning, budget, rooms, back⟩ := leads_measured (s := { s with
      rooms := (s.rooms.set e { re with buffer := rbE }).set p { rp with buffer := rbP }
      seq := seq' }) here
  have leads : Leads s t :=
    (Leads.single (e := .push e _) push₁).trans ((Leads.single (e := .push p _) push₂).trans measured)
  have budget : t.budget = s.budget := budget
  have foundE := rooms e { re with buffer := rbE }
    ((getElem?_set_ne apart.symm).trans (getElem?_set_of_room roomE))
  have foundP := rooms p { rp with buffer := rbP } (getElem?_set_of_room roomP₁)
  have valid := (leads.balanced balanced).valid
  refine ⟨S, t, leads, leads.balanced balanced, scanning, budget ▸ positive,
    ⟨_, foundE, able, nonzero, record, someE⟩, ⟨_, foundP, safe, ?_⟩, fun i r room => ?_⟩
  · change _ ≤ rbP.footprint
    omega
  · have nonneg : 0 ≤ r.buffer.footprint := by
      rw [(valid i r room).footprint_eq]
      exact Int.natCast_nonneg _
    obtain ⟨o, rfl⟩ := back i r room
    exact ⟨nonneg, fun _ => rfl⟩

theorem Loaded.leads_spins {S e p : Nat} (loaded : Loaded S e p s) :
    ∃ t, Leads s t ∧ Spins (S + messageOverhead) e p t := by
  obtain ⟨r, room, able, nonzero, record, held⟩ := loaded.small
  obtain ⟨rb, seq, new, pushed, valid, size, count, all, suffix, left⟩ :=
    push_many (blank S) (k := r.buffer.size) room (loaded.valid e r room)
  have replaced : rb.items <:+ new := by
    refine suffix_of_suffix_length_le suffix (suffix_append _ _) ?_
    rw [count, ← size]
    exact valid.length_le
  have leads : Leads s { s with rooms := s.rooms.set e { r with buffer := rb }, seq := seq } :=
    ⟨_, pushed⟩
  obtain ⟨big, bigRoom, safe, bigSize⟩ := loaded.large
  have apart : e ≠ p := by
    rintro rfl
    cases room.symm.trans bigRoom
    simp [able] at safe
  refine ⟨_, leads, leads.balanced loaded.toBalanced, fun i this => ?_, fun this => ?_, loaded.positive,
    ⟨_, getElem?_set_of_room room, able, .short ?_ ?_ (left held) fun m mem => ?_⟩,
    ⟨big, (getElem?_set_ne apart).trans bigRoom, safe, bigSize⟩, fun i o other found => ?_⟩
  · cases loaded.scanning.symm.trans this
  · cases loaded.scanning.symm.trans this
  · change 0 < r.size
    omega
  · change r.size < _
    rw [messageOverhead]
    omega
  · rw [all m (replaced.subset mem), msgFootprint_blank]
  · exact loaded.fair i o ((getElem?_set_ne (Ne.symm other)).symm.trans found)

theorem traffic_settings (sound : s.Sound) (next : s.traffic e = some s') :
    s'.budget = s.budget ∧ s'.keep = s.keep ∧ s'.rooms.map Held.id = s.rooms.map Held.id := by
  cases e with
  | push i msg =>
    obtain ⟨r, rb, seq, room, -, rfl⟩ := push_cases sound next
    exact ⟨rfl, rfl, map_id_set room rfl⟩
  | step =>
    obtain ⟨t, next', moves⟩ := step_moves sound
    cases next.symm.trans next'
    exact ⟨moves.settings.1, moves.settings.2, moves.ids⟩

/-- For any rooms, protected set and budget: the call returns under every finite traffic
if and only if there is no budget, or no room is protected, or all are. -/
theorem enforceTotal_returns_iff (budget : Nat) (keep : Option (Topic → Bool))
    (rooms : List (Topic × RingBuffer)) (built : ∀ r ∈ rooms, ∃ size ≤ 2 ^ 62, r.2.Built size)
    (seq : Int) :
    (∀ events s, runAll traffic (start budget keep rooms seq) events = some s → s.Returns) ↔
      budget = 0 ∨ (∀ r ∈ rooms, mayEvict keep r.1 = true) ∨ ∀ r ∈ rooms, mayEvict keep r.1 = false := by
  have valid (r : Topic × RingBuffer) (member : r ∈ rooms) : r.2.Valid := by
    obtain ⟨size, small, calls⟩ := built r member
    exact calls.valid small
  have begins := start_balanced budget keep valid seq
  have held (i : Nat) (r : Topic × RingBuffer) (room : rooms[i]? = some r) :
      (start budget keep rooms seq).rooms[i]? = some ⟨r.1, r.2, 0, false⟩ := by
    rw [start, getElem?_map, room]
    rfl
  constructor
  · intro returns
    by_contra mixed
    obtain ⟨positive, mixed⟩ := not_or.mp mixed
    obtain ⟨someSafe, someAble⟩ := not_or.mp mixed
    push Not at someSafe someAble
    obtain ⟨rp, memberP, safe⟩ := someSafe
    obtain ⟨re, memberE, able⟩ := someAble
    obtain ⟨p, roomP⟩ := getElem?_of_mem memberP
    obtain ⟨e, roomE⟩ := getElem?_of_mem memberE
    obtain ⟨S, t, first, loaded⟩ := leads_loaded begins rfl (Nat.pos_of_ne_zero positive)
      (held e re roomE) (held p rp roomP) (Bool.not_eq_false _ ▸ able) (Bool.not_eq_true _ ▸ safe)
    obtain ⟨s, second, spins⟩ := loaded.leads_spins
    obtain ⟨events, run⟩ := first.trans second
    exact spins.never_returns (returns events s run)
  · intro condition events s run
    have ids : (start budget keep rooms seq).rooms.map Held.id = rooms.map Prod.fst := by
      rw [start, List.map_map]
      rfl
    have uniform : (start budget keep rooms seq).Uniform := by
      rw [Uniform, ids]
      simp only [List.forall_mem_map]
      exact condition
    have preserved (s : Enforcing) (e : Traffic) (s' : Enforcing) (holds : s.Balanced ∧ s.Uniform)
        (next : s.traffic e = some s') : s'.Balanced ∧ s'.Uniform := by
      obtain ⟨same, kept, names⟩ := traffic_settings holds.1.toSound next
      exact ⟨traffic_balanced holds.1 next, holds.2.congr same kept names⟩
    have final := runAll_invariant preserved run ⟨begins, uniform⟩
    exact final.2.returns final.1

/-- Without protected rooms the call always returns. -/
theorem unprotected_returns : (RingBuffer.new 1 true).Built 1 ∧
      ∀ events s, runAll traffic (start 1 none [([1], RingBuffer.new 1 true)] 0) events = some s →
        s.Returns := by
  have built : (RingBuffer.new 1 true).Built 1 := ⟨0, true, 0, [], [], 0, rfl⟩
  refine ⟨built, (enforceTotal_returns_iff 1 none _ ?_ 0).mpr (.inr (.inl fun r _ => rfl))⟩
  intro r member
  rw [mem_singleton.mp member]
  exact ⟨1, by decide, built⟩

theorem not_returns_of_cycle {t : Enforcing} (there : s.step = some t) (back : t.step = some s)
    (running : s.place ≠ .done) (running' : t.place ≠ .done) : ¬ s.Returns := by
  rintro ⟨s', ⟨n, run⟩, done⟩
  have stays : s' = s ∨ s' = t := by
    refine stepN_invariant (I := fun x => x = s ∨ x = t) (fun x y either next => ?_) n (.inl rfl) run
    rcases either with rfl | rfl
    · exact .inr (some.inj (next.symm.trans there))
    · exact .inl (some.inj (next.symm.trans back))
  rcases stays with rfl | rfl
  · exact running done
  · exact running' done

/-- A protected room, and one with a single slot whose message is replaced by a larger one
after the call has looked: the record is one byte short for ever. -/
theorem enforceTotal_spins : ∃ s, runAll traffic (start 1 (some fun id => id = [1])
          [([1], RingBuffer.new 1 true), ([2], RingBuffer.new 1 true)] 0)
        [.push 0 (blank 0), .push 1 (blank 0), .step, .step, .step, .push 1 (blank 1),
          .step, .step, .step] = some s ∧ ¬ s.Returns := by
  refine ⟨_, rfl, not_returns_of_cycle rfl rfl ?_ ?_⟩
  · exact fun done => nomatch done
  · exact fun done => nomatch done

end Enforcing

end Unheaded.Wotan
