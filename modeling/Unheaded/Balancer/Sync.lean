import Unheaded.Balancer.MaglevTable
import Unheaded.Lib.Events

/-!
# The pinned map

Calls that change the backends rebuild the table under the lock of the service, and write it to
the pinned map slot by slot when they have left the lock.
-/

namespace Unheaded.Balancer

open Lib List

/-- `DefaultMaglevTableSize`. -/
def defaultTableSize : Nat := 65537

def healthHealthy : String := "HEALTHY"

def healthyOf (backends : List Backend) : List Backend :=
  backends.filter fun b => b.health = healthHealthy

variable (crc32 : Bytes → BitVec 32)

/-- `BuildTable` of the healthy backends. -/
def tableOf (backends : List Backend) : List Nat :=
  (buildTable crc32 (2 * defaultTableSize + 1) (healthyOf backends) defaultTableSize).getD []

/-- The calls that change the backends. -/
inductive Change where
  | addBackend (b : Backend)
  | removeBackend (id : Bytes)
  | setBackendHealth (id : Bytes) (health : String)

/-- How far a call has come: before its change, before the rebuild, before the write of a slot of
the table that a rebuild gave, or at its end. -/
inductive Stage where
  | change (c : Change)
  | rebuild
  | writing (rebuild : Nat) (table : List Nat) (slot : Nat)
  | returned

/-- The service, the pinned map and the calls made so far.  The backends have distinct ids.  The
rebuilds are numbered, and `writer` is the number of the one whose table a slot was last written
from; the code keeps neither. -/
structure XDPSync where
  backends : List Backend
  table : List Nat
  map : Nat → Option Nat
  calls : List Stage
  rebuilds : Nat
  writer : Nat → Nat

def XDPSync.empty : XDPSync := ⟨[], [], fun _ => none, [], 0, fun _ => 0⟩

/-- The backends after a change, and whether the table is rebuilt. -/
def applyChange (backends : List Backend) : Change → List Backend × Bool
  | .addBackend b =>
    if b.id = [] then (backends, false) else (b :: backends.filter (fun a => a.id ≠ b.id), true)
  | .removeBackend id =>
    if backends.any fun b => b.id = id then (backends.filter (fun b => b.id ≠ id), true)
    else (backends, false)
  | .setBackendHealth id health =>
    match backends.find? fun b => b.id = id with
    | none => (backends, false)
    | some b =>
      (backends.map fun a => if a.id = id then { a with health } else a, b.health ≠ health)

/-- A call is made, or one of those made goes on: to the end of a section under the lock, or by one
write to the map. -/
inductive Event where
  | call (c : Change)
  | step (k : Nat)

def writeFrom (rebuild : Nat) (table : List Nat) (slot : Nat) : Stage :=
  if slot < table.length then .writing rebuild table slot else .returned

variable (s : XDPSync)

/-- One step of the call `k`. -/
def stepCall (k : Nat) : Stage → XDPSync
  | .change c =>
    let (backends, changed) := applyChange s.backends c
    { s with backends, calls := s.calls.set k (if changed then .rebuild else .returned) }
  | .rebuild =>
    let table := tableOf crc32 s.backends
    { s with
      table
      calls := s.calls.set k (writeFrom (s.rebuilds + 1) table 0)
      rebuilds := s.rebuilds + 1 }
  | .writing rebuild table slot =>
    { s with
      map := fun i => if i = slot then table[slot]? else s.map i
      calls := s.calls.set k (writeFrom rebuild table (slot + 1))
      writer := fun i => if i = slot then rebuild else s.writer i }
  | .returned => s

def after : Event → XDPSync
  | .call c => { s with calls := s.calls ++ [Stage.change c] }
  | .step k =>
    match s.calls[k]? with
    | none => s
    | some stage => stepCall crc32 s k stage

/-- The map holds the table, which is that of the healthy backends in whatever order they are read,
and every slot refers to one of them. -/
structure Follows (s : XDPSync) : Prop where
  map : ∀ i, s.map i = s.table[i]?
  table : ∀ order : List Backend, order.Perm (healthyOf s.backends) →
    ∃ fuel, buildTable crc32 fuel order defaultTableSize = some s.table
  refers : ∀ i idx, s.map i = some idx → ∃ b ∈ s.backends, b.health = healthHealthy ∧
    (sortBackends (healthyOf s.backends))[idx]? = some b

def AllReturned : Prop := ∀ stage ∈ s.calls, stage = .returned

def Stage.Writes : Stage → Prop
  | .writing _ _ _ => True
  | _ => False

/-- A rebuild finds a healthy backend, or a map that was never written and that no call is about to
write; a slot that was written from a later table is not written again. -/
def OrderlyStage : Stage → Prop
  | .rebuild => healthyOf s.backends ≠ [] ∨
      (∀ i, s.map i = none) ∧ ∀ stage ∈ s.calls, ¬ stage.Writes
  | .writing rebuild _ slot => s.writer slot ≤ rebuild
  | _ => True

def Orderly : Event → Prop
  | .call _ => True
  | .step k => ∀ stage, s.calls[k]? = some stage → OrderlyStage s stage

/-! ## The table of the healthy backends -/

theorem prime_defaultTableSize : defaultTableSize.Prime := by
  unfold defaultTableSize
  norm_num

theorem tableOf_nil {backends : List Backend} (none : healthyOf backends = []) :
    tableOf crc32 backends = [] := by
  rw [tableOf, none]
  rfl

theorem tableOf_spec {backends : List Backend} (some : healthyOf backends ≠ []) :
    ∃ s, buildFilling crc32 (2 * defaultTableSize + 1) (healthyOf backends) defaultTableSize = .some s ∧
      tableOf crc32 backends = s.table ∧ Maglev defaultTableSize (healthyOf backends) s := by
  obtain ⟨s, built, table⟩ := buildFilling_spec crc32 some (show 1 ≤ defaultTableSize by decide)
    prime_defaultTableSize (Nat.le_refl _) (by decide) (Nat.lt_succ_self _)
  refine ⟨s, built, ?_, table⟩
  rw [tableOf, buildTable, built]
  rfl

theorem length_tableOf {backends : List Backend} (some : healthyOf backends ≠ []) :
    (tableOf crc32 backends).length = defaultTableSize := by
  obtain ⟨s, -, equal, table⟩ := tableOf_spec crc32 some
  have own : LeastPrime defaultTableSize defaultTableSize :=
    ⟨⟨prime_defaultTableSize, Nat.le_refl _⟩, fun q candidate => candidate.2⟩
  rw [equal]
  exact table.size.unique own

theorem tableOf_order {backends order : List Backend} (distinct : (backends.map Backend.id).Nodup)
    (perm : order.Perm (healthyOf backends)) :
    buildTable crc32 (2 * defaultTableSize + 1) order defaultTableSize =
      some (tableOf crc32 backends) := by
  have distinct' : ((healthyOf backends).map Backend.id).Nodup :=
    distinct.sublist (filter_sublist.map _)
  have same : buildTable crc32 (2 * defaultTableSize + 1) order defaultTableSize =
      buildTable crc32 (2 * defaultTableSize + 1) (healthyOf backends) defaultTableSize := by
    unfold buildTable buildFilling
    rw [sortBackends_eq perm distinct', perm.length_eq]
  rw [same]
  by_cases none : healthyOf backends = []
  · rw [tableOf_nil crc32 none, none]
    rfl
  · obtain ⟨s, built, equal, -⟩ := tableOf_spec crc32 none
    rw [buildTable, built, equal]
    rfl

theorem tableOf_refers {backends : List Backend} {i idx : Nat}
    (slot : (tableOf crc32 backends)[i]? = some idx) : ∃ b ∈ backends, b.health = healthHealthy ∧
      (sortBackends (healthyOf backends))[idx]? = some b := by
  by_cases none : healthyOf backends = []
  · simp [tableOf_nil crc32 none] at slot
  · obtain ⟨s, -, equal, table⟩ := tableOf_spec crc32 none
    rw [equal] at slot
    have inside := table.valid idx (mem_of_getElem? slot)
    rw [← (perm_sortBackends _).length_eq] at inside
    have here := getElem?_eq_getElem inside
    have mem := (perm_sortBackends _).mem_iff.mp (mem_of_getElem? here)
    obtain ⟨inBackends, healthy⟩ := mem_filter.mp mem
    exact ⟨_, inBackends, of_decide_eq_true healthy, here⟩

/-! ## What every step keeps -/

theorem distinct_applyChange {backends : List Backend} (distinct : (backends.map Backend.id).Nodup)
    (c : Change) : ((applyChange backends c).1.map Backend.id).Nodup := by
  cases c with
  | addBackend b =>
    dsimp only [applyChange]
    split
    · exact distinct
    · rw [map_cons, nodup_cons]
      refine ⟨fun mem => ?_, distinct.sublist (filter_sublist.map _)⟩
      obtain ⟨a, inside, same⟩ := mem_map.mp mem
      exact of_decide_eq_true (mem_filter.mp inside).2 same
  | removeBackend id =>
    dsimp only [applyChange]
    split
    · exact distinct.sublist (filter_sublist.map _)
    · exact distinct
  | setBackendHealth id health =>
    dsimp only [applyChange]
    split
    · exact distinct
    · have same : ∀ a : Backend, (if a.id = id then { a with health } else a).id = a.id := by
        intro a
        split <;> rfl
      rw [map_map]
      have ids : (Backend.id ∘ fun a : Backend => if a.id = id then { a with health } else a) =
          Backend.id := funext same
      rw [ids]
      exact distinct

theorem applyChange_unchanged {backends : List Backend} (distinct : (backends.map Backend.id).Nodup)
    {c : Change} (unchanged : (applyChange backends c).2 = false) :
    (applyChange backends c).1 = backends := by
  cases c with
  | addBackend b =>
    dsimp only [applyChange] at unchanged ⊢
    split
    · rfl
    next some =>
      simp [if_neg some] at unchanged
  | removeBackend id =>
    dsimp only [applyChange] at unchanged ⊢
    split
    next found =>
      rw [if_pos found] at unchanged
      cases unchanged
    · rfl
  | setBackendHealth id health =>
    dsimp only [applyChange] at unchanged ⊢
    cases found : backends.find? fun b => b.id = id with
    | none => rfl
    | some b =>
      rw [found] at unchanged
      have same : b.health = health := by simpa using unchanged
      refine (map_congr_left fun a mem => ?_).trans (map_id _)
      split
      next here =>
        have decided := find?_some found
        have foundId : b.id = id := of_decide_eq_true decided
        have equal : a = b := inj_on_of_nodup_map distinct mem
          (mem_of_find?_eq_some found) (here.trans foundId.symm)
        rw [equal, ← same]
        rfl
      · rfl

/-- The table is that of the backends or will be rebuilt. -/
structure Coherent (s : XDPSync) : Prop where
  distinct : (s.backends.map Backend.id).Nodup
  current : .rebuild ∈ s.calls ∨ s.table = tableOf crc32 s.backends
  empty : s.table = [] → (∀ i, s.map i = none) ∧ ∀ stage ∈ s.calls, ¬ stage.Writes
  latest : ∀ i, s.writer i ≤ s.rebuilds
  writing : ∀ rebuild table slot, .writing rebuild table slot ∈ s.calls →
    slot < table.length ∧ table.length = defaultTableSize ∧ rebuild ≤ s.rebuilds ∧
      (rebuild = s.rebuilds → table = s.table)
  slots : ∀ i < s.table.length, s.writer i = s.rebuilds ∧ s.map i = s.table[i]? ∨
    ∃ slot ≤ i, .writing s.rebuilds s.table slot ∈ s.calls
  size : s.table ≠ [] → s.table.length = defaultTableSize
  beyond : ∀ i, defaultTableSize ≤ i → s.map i = none

theorem coherent_empty : Coherent crc32 .empty where
  distinct := nodup_nil
  current := .inr (tableOf_nil crc32 rfl).symm
  empty _ := ⟨fun _ => rfl, fun _ mem => nomatch mem⟩
  latest _ := Nat.le_refl 0
  writing _ _ _ mem := nomatch mem
  slots i inside := absurd inside (Nat.not_lt_zero i)
  size some := absurd rfl some
  beyond _ _ := rfl

section Steps

variable {crc32} {s : XDPSync}

theorem after_step {k : Nat} {stage : Stage} (here : s.calls[k]? = some stage) :
    after crc32 s (.step k) = stepCall crc32 s k stage := by
  dsimp only [after]
  rw [here]

theorem mem_set_of_ne {calls : List Stage} {k : Nat} {old new stage : Stage}
    (here : calls[k]? = some old) (mem : stage ∈ calls) (other : stage ≠ old) :
    stage ∈ calls.set k new := by
  obtain ⟨j, there⟩ := mem_iff_getElem?.mp mem
  have different : k ≠ j := by
    rintro rfl
    exact other (Option.some.inj (there.symm.trans here))
  refine mem_of_getElem? (i := j) ?_
  rw [getElem?_set_ne different]
  exact there

variable (coherent : Coherent crc32 s)
include coherent

theorem Coherent.set_quiet {k : Nat} {old new : Stage}
    (here : s.calls[k]? = some old) (before : ¬ old.Writes) (after : ¬ new.Writes)
    {backends : List Backend} (distinct : (backends.map Backend.id).Nodup)
    (current : .rebuild ∈ s.calls.set k new ∨ s.table = tableOf crc32 backends) :
    Coherent crc32 { s with backends, calls := s.calls.set k new } where
  distinct := distinct
  current := current
  empty none := by
    obtain ⟨unwritten, silent⟩ := coherent.empty none
    refine ⟨unwritten, fun stage mem => ?_⟩
    rcases mem_or_eq_of_mem_set mem with kept | rfl
    · exact silent stage kept
    · exact after
  latest := coherent.latest
  writing rebuild table slot mem := by
    rcases mem_or_eq_of_mem_set mem with kept | rfl
    · exact coherent.writing rebuild table slot kept
    · exact absurd trivial after
  slots i inside := by
    refine (coherent.slots i inside).imp_right fun ⟨slot, early, mem⟩ => ⟨slot, early, ?_⟩
    refine mem_set_of_ne here mem ?_
    rintro rfl
    exact before trivial
  size := coherent.size
  beyond := coherent.beyond

theorem Coherent.change {k : Nat} {c : Change}
    (here : s.calls[k]? = some (.change c)) : Coherent crc32 (stepCall crc32 s k (.change c)) := by
  have distinct := distinct_applyChange coherent.distinct c
  have inside : k < s.calls.length := (List.getElem?_eq_some_iff.mp here).1
  cases changed : (applyChange s.backends c).2 with
  | true =>
    have whole : stepCall crc32 s k (.change c) =
        { s with backends := (applyChange s.backends c).1, calls := s.calls.set k .rebuild } := by
      dsimp only [stepCall]
      rw [changed]
      rfl
    rw [whole]
    exact coherent.set_quiet here id id distinct (.inl (mem_set inside _))
  | false =>
    have same := applyChange_unchanged coherent.distinct changed
    have whole : stepCall crc32 s k (.change c) = { s with calls := s.calls.set k .returned } := by
      dsimp only [stepCall]
      rw [changed, same]
      rfl
    rw [whole]
    refine coherent.set_quiet here id id coherent.distinct ?_
    exact coherent.current.imp_left fun waiting => mem_set_of_ne here waiting nofun

theorem Coherent.rebuild {k : Nat}
    (here : s.calls[k]? = some .rebuild) (orderly : OrderlyStage s .rebuild) :
    Coherent crc32 (stepCall crc32 s k .rebuild) := by
  have inside : k < s.calls.length := (List.getElem?_eq_some_iff.mp here).1
  by_cases none : healthyOf s.backends = []
  · obtain ⟨unwritten, silent⟩ := orderly.resolve_left fun some => some none
    have whole : stepCall crc32 s k .rebuild =
        { s with table := [], calls := s.calls.set k .returned, rebuilds := s.rebuilds + 1 } := by
      dsimp only [stepCall]
      rw [tableOf_nil crc32 none]
      rfl
    have silent' : ∀ stage ∈ s.calls.set k .returned, ¬ stage.Writes := by
      intro stage mem
      rcases mem_or_eq_of_mem_set mem with kept | rfl
      · exact silent stage kept
      · exact id
    rw [whole]
    exact {
      distinct := coherent.distinct
      current := .inr (tableOf_nil crc32 none).symm
      empty := fun _ => ⟨unwritten, silent'⟩
      latest := fun i => Nat.le_succ_of_le (coherent.latest i)
      writing := fun rebuild table slot mem => absurd trivial (silent' _ mem)
      slots := fun i inside => absurd inside (Nat.not_lt_zero i)
      size := fun some => absurd rfl some
      beyond := coherent.beyond }
  · have length := length_tableOf crc32 none
    have pos : 0 < (tableOf crc32 s.backends).length := by
      rw [length]
      decide
    have whole : stepCall crc32 s k .rebuild = { s with
          table := tableOf crc32 s.backends
          calls := s.calls.set k (.writing (s.rebuilds + 1) (tableOf crc32 s.backends) 0)
          rebuilds := s.rebuilds + 1 } := by
      dsimp only [stepCall, writeFrom]
      rw [if_pos pos]
    rw [whole]
    exact {
      distinct := coherent.distinct
      current := .inr rfl
      empty := fun empty => absurd (length_eq_zero_iff.mpr empty) (Nat.ne_of_gt pos)
      latest := fun i => Nat.le_succ_of_le (coherent.latest i)
      writing := fun rebuild table slot mem => by
        rcases mem_or_eq_of_mem_set mem with kept | new
        · obtain ⟨more, whole, old, -⟩ := coherent.writing rebuild table slot kept
          refine ⟨more, whole, Nat.le_succ_of_le old, fun latest => ?_⟩
          exact absurd (latest ▸ old) (Nat.not_succ_le_self _)
        · cases new
          exact ⟨pos, length, Nat.le_refl _, fun _ => rfl⟩
      slots := fun i _ => .inr ⟨0, Nat.zero_le i, mem_set inside _⟩
      size := fun _ => length
      beyond := coherent.beyond }

theorem Coherent.write {k rebuild slot : Nat} {table : List Nat}
    (here : s.calls[k]? = some (.writing rebuild table slot)) (orderly : s.writer slot ≤ rebuild) :
    Coherent crc32 (stepCall crc32 s k (.writing rebuild table slot)) := by
  have inside : k < s.calls.length := (List.getElem?_eq_some_iff.mp here).1
  obtain ⟨below, length, old, latest⟩ := coherent.writing rebuild table slot (mem_of_getElem? here)
  refine {
    distinct := coherent.distinct
    current := coherent.current.imp_left fun waiting => mem_set_of_ne here waiting nofun
    empty := fun none => absurd trivial ((coherent.empty none).2 _ (mem_of_getElem? here))
    latest := ?_
    writing := ?_
    slots := ?_
    size := coherent.size
    beyond := ?_ }
  · intro i
    dsimp only [stepCall]
    split
    · exact old
    · exact coherent.latest i
  · intro rebuild' table' slot' mem
    rcases mem_or_eq_of_mem_set mem with kept | new
    · exact coherent.writing rebuild' table' slot' kept
    · unfold writeFrom at new
      split at new <;> cases new
      next more =>
        exact ⟨more, length, old, latest⟩
  · intro i small
    dsimp only [stepCall] at small ⊢
    by_cases equal : i = slot
    · rw [if_pos equal, if_pos equal]
      by_cases now : rebuild = s.rebuilds
      · exact .inl ⟨now, by rw [latest now, equal]⟩
      · rcases coherent.slots i small with ⟨written, -⟩ | ⟨slot', early, mem⟩
        · rw [equal] at written
          omega
        · refine .inr ⟨slot', early, mem_set_of_ne here mem ?_⟩
          intro same
          exact now (Stage.writing.inj same).1.symm
    · rw [if_neg equal, if_neg equal]
      refine (coherent.slots i small).imp_right fun ⟨slot', early, mem⟩ => ?_
      by_cases same : Stage.writing s.rebuilds s.table slot' = .writing rebuild table slot
      · -- the call that was to write this slot has only moved on
        cases same
        refine ⟨slot + 1, by omega, ?_⟩
        rw [writeFrom, if_pos (by omega)]
        exact mem_set inside _
      · exact ⟨slot', early, mem_set_of_ne here mem same⟩
  · intro i high
    dsimp only [stepCall]
    rw [if_neg (by omega)]
    exact coherent.beyond i high

theorem Coherent.call (c : Change) : Coherent crc32 (after crc32 s (.call c)) := by
  have old : ∀ {stage : Stage}, stage ∈ s.calls ++ [Stage.change c] → stage.Writes → stage ∈ s.calls := by
    intro stage mem writes
    rcases mem_append.mp mem with kept | new
    · exact kept
    · cases mem_singleton.mp new
      exact writes.elim
  exact {
    distinct := coherent.distinct
    current := coherent.current.imp_left fun waiting => mem_append_left _ waiting
    empty := fun none => ⟨(coherent.empty none).1, fun stage mem writes =>
      (coherent.empty none).2 stage (old mem writes) writes⟩
    latest := coherent.latest
    writing := fun rebuild table slot mem =>
      coherent.writing rebuild table slot (old mem trivial)
    slots := fun i inside => (coherent.slots i inside).imp_right fun ⟨slot, early, mem⟩ =>
      ⟨slot, early, mem_append_left _ mem⟩
    size := coherent.size
    beyond := coherent.beyond }

theorem Coherent.after {e : Event} (orderly : Orderly s e) : Coherent crc32 (after crc32 s e) := by
  cases e with
  | call c => exact coherent.call c
  | step k =>
    cases here : s.calls[k]? with
    | none =>
      dsimp only [Balancer.after]
      rw [here]
      exact coherent
    | some stage =>
      have allowed := orderly stage here
      rw [after_step here]
      cases stage with
      | change c => exact coherent.change here
      | rebuild => exact coherent.rebuild here allowed
      | writing rebuild table slot => exact coherent.write here allowed
      | returned => exact coherent

theorem Coherent.follows (returned : AllReturned s) : Follows crc32 s := by
  have current : s.table = tableOf crc32 s.backends := by
    refine coherent.current.resolve_left fun waiting => ?_
    cases returned _ waiting
  have map : ∀ i, s.map i = s.table[i]? := by
    intro i
    by_cases none : s.table = []
    · rw [(coherent.empty none).1 i, none]
      rfl
    by_cases inside : i < s.table.length
    · rcases coherent.slots i inside with ⟨-, written⟩ | ⟨slot, -, mem⟩
      · exact written
      · cases returned _ mem
    · have length := coherent.size none
      rw [coherent.beyond i (by omega), getElem?_eq_none (by omega)]
  refine ⟨map, fun order perm => ?_, fun i idx slot => ?_⟩
  · rw [current]
    exact ⟨_, tableOf_order crc32 coherent.distinct perm⟩
  · rw [map, current] at slot
    exact tableOf_refers crc32 slot

end Steps

/-- Where no write from an older table comes after one from a newer, and rebuilds find a healthy
backend, the map follows the backends. -/
theorem map_follows_backends (events : List Event)
    (orderly : Along (after crc32) Orderly .empty events)
    (returned : AllReturned (afterAll (after crc32) .empty events)) :
    Follows crc32 (afterAll (after crc32) .empty events) := by
  have coherent := orderly.invariant (fun s e before allowed => Coherent.after before allowed)
    (coherent_empty crc32)
  exact coherent.follows returned

/-! ## A run that writes a table and loses the backend -/

section Writes

variable {crc32} {s : XDPSync}

def written {α : Type} (slot length : Nat) (new old : Nat → α) : Nat → α :=
  fun i => if slot ≤ i ∧ i < length then new i else old i

theorem written_cons {α : Type} {slot length : Nat} (below : slot < length) (new old : Nat → α) :
    written (slot + 1) length new (fun i => if i = slot then new slot else old i) =
      written slot length new old := by
  funext i
  dsimp only [written]
  by_cases equal : i = slot
  · rw [if_neg (by omega), if_pos equal, if_pos (by omega), equal]
  · rw [if_neg equal]
    by_cases early : slot ≤ i ∧ i < length
    · rw [if_pos (by omega), if_pos early]
    · rw [if_neg (by omega), if_neg early]

theorem written_self {α : Type} (length : Nat) (new old : Nat → α) :
    written length length new old = old := by
  funext i
  exact if_neg (by omega)

theorem afterAll_writes {k rebuild slot n : Nat} {table : List Nat}
    (here : s.calls[k]? = some (.writing rebuild table slot)) (rest : slot + (n + 1) = table.length) :
    afterAll (after crc32) s (replicate (n + 1) (.step k)) = { s with
        map := written slot table.length (fun i => table[i]?) s.map
        calls := s.calls.set k .returned
        writer := written slot table.length (fun _ => rebuild) s.writer } := by
  have inside : k < s.calls.length := (List.getElem?_eq_some_iff.mp here).1
  have below : slot < table.length := by omega
  rw [List.replicate_succ, afterAll_cons, after_step here, ← written_cons below (fun i => table[i]?),
    ← written_cons below (fun _ => rebuild)]
  induction n generalizing s slot with
  | zero =>
    rw [replicate_zero, afterAll_nil, rest, written_self, written_self]
    dsimp only [stepCall, writeFrom]
    rw [if_neg (by omega)]
  | succ n ih =>
    have more : slot + 1 < table.length := by omega
    rw [replicate_succ, afterAll_cons]
    dsimp only [stepCall, writeFrom]
    rw [if_pos more, after_step (getElem?_set_self inside),
      ih (getElem?_set_self inside) (by omega) (by rw [length_set]; exact inside) more,
      written_cons more, written_cons more]
    rw [set_set]

theorem along_writes {k rebuild : Nat} {table : List Nat} (n : Nat)
    (here : ∃ slot, s.calls[k]? = some (writeFrom rebuild table slot))
    (earlier : ∀ i, s.writer i ≤ rebuild) :
    Along (after crc32) Orderly s (replicate n (.step k)) := by
  induction n generalizing s with
  | zero => trivial
  | succ n ih =>
    obtain ⟨slot, here⟩ := here
    have inside : k < s.calls.length := (List.getElem?_eq_some_iff.mp here).1
    by_cases more : slot < table.length
    · have writing : s.calls[k]? = some (.writing rebuild table slot) := by
        rw [here, writeFrom, if_pos more]
      refine ⟨fun stage there => ?_, ih ?_ ?_⟩
      · cases writing.symm.trans there
        exact earlier slot
      · rw [after_step writing]
        exact ⟨slot + 1, getElem?_set_self inside⟩
      · rw [after_step writing]
        intro i
        dsimp only [stepCall]
        split
        · exact Nat.le_refl _
        · exact earlier i
    · have returned : s.calls[k]? = some .returned := by
        rw [here, writeFrom, if_neg more]
      refine ⟨fun stage there => ?_, ih ?_ ?_⟩
      · cases returned.symm.trans there
        trivial
      · rw [after_step returned]
        exact ⟨slot, here⟩
      · rw [after_step returned]
        exact earlier

end Writes

def addLone : List Event :=
  [Event.call (.addBackend lone), .step 0, .step 0] ++ replicate defaultTableSize (.step 0)

def loneBuilt : XDPSync where
  backends := [lone]
  table := tableOf crc32 [lone]
  map := fun _ => none
  calls := [.writing 1 (tableOf crc32 [lone]) 0]
  rebuilds := 1
  writer := fun _ => 0

/-- The service when it is written. -/
def loneServed : XDPSync where
  backends := [lone]
  table := tableOf crc32 [lone]
  map := fun i => (tableOf crc32 [lone])[i]?
  calls := [.returned]
  rebuilds := 1
  writer := written 0 (tableOf crc32 [lone]).length (fun _ => 1) fun _ => 0

theorem length_tableOf_lone : (tableOf crc32 [lone]).length = defaultTableSize :=
  length_tableOf crc32 (cons_ne_nil lone [])

theorem writeFrom_lone :
    writeFrom 1 (tableOf crc32 [lone]) 0 = .writing 1 (tableOf crc32 [lone]) 0 := by
  rw [writeFrom, if_pos (by rw [length_tableOf_lone]; decide)]

theorem afterAll_loneBuilt :
    afterAll (after crc32) .empty [.call (.addBackend lone), .step 0, .step 0] = loneBuilt crc32 := by
  have whole : afterAll (after crc32) .empty [.call (.addBackend lone), .step 0, .step 0] =
      { loneBuilt crc32 with calls := [writeFrom 1 (tableOf crc32 [lone]) 0] } := rfl
  rw [whole, writeFrom_lone]
  rfl

theorem afterAll_addLone : afterAll (after crc32) .empty addLone = loneServed crc32 := by
  have length := length_tableOf_lone crc32
  have map : written 0 (tableOf crc32 [lone]).length (fun i => (tableOf crc32 [lone])[i]?)
      (fun _ => none) = fun i => (tableOf crc32 [lone])[i]? := by
    funext i
    dsimp only [written]
    split
    · rfl
    next beyond => exact (getElem?_eq_none (by omega)).symm
  have writes := @afterAll_writes crc32 (loneBuilt crc32) 0 1 0 (defaultTableSize - 1)
    (tableOf crc32 [lone]) rfl (by rw [length]; rfl)
  rw [show defaultTableSize - 1 + 1 = defaultTableSize from rfl] at writes
  rw [addLone, afterAll_append, afterAll_loneBuilt, writes]
  dsimp only [loneBuilt]
  rw [map]
  rfl

theorem along_addLone : Along (after crc32) Orderly .empty addLone := by
  have first : Along (after crc32) Orderly .empty [.call (.addBackend lone), .step 0, .step 0] := by
    refine ⟨trivial, fun stage there => ?_, fun stage there => ?_, trivial⟩
    · cases Option.some.inj there
      trivial
    · cases Option.some.inj there
      exact .inl (cons_ne_nil lone [])
  rw [addLone, along_append, afterAll_loneBuilt]
  refine And.intro first ?_
  exact along_writes _ ⟨0, congrArg some (writeFrom_lone crc32).symm⟩ fun _ => Nat.zero_le 1

theorem map_follows_backends_lone : Follows (fun _ => 0) (loneServed fun _ => 0) := by
  have returned : AllReturned (afterAll (after fun _ => 0) .empty addLone) := by
    rw [afterAll_addLone]
    exact fun stage member => mem_singleton.mp member
  have follows := map_follows_backends (fun _ => 0) addLone (along_addLone _) returned
  rwa [afterAll_addLone] at follows

def loseLone : List Event :=
  addLone ++ [Event.call (.setBackendHealth lone.id "UNHEALTHY"), .step 1, .step 1]

/-- The table is empty when no healthy backend is left, but the map keeps the one written before. -/
theorem lost_backend_stays_in_map :
    ¬ ∃ crc32 : Bytes → BitVec 32, AllReturned (afterAll (after crc32) .empty loseLone) →
      Follows crc32 (afterAll (after crc32) .empty loseLone) := by
  rintro ⟨crc32, claimed⟩
  have whole : afterAll (after crc32) .empty loseLone = { loneServed crc32 with
        backends := [{ lone with health := "UNHEALTHY" }]
        table := []
        calls := [.returned, .returned]
        rebuilds := 2 } := by
    rw [loseLone, afterAll_append, afterAll_addLone]
    rfl
  rw [whole] at claimed
  have follows := claimed fun stage member => by
    rcases mem_cons.mp member with first | second
    · exact first
    · exact mem_singleton.mp second
  have slot := follows.map 0
  have length := length_tableOf_lone crc32
  have short := getElem?_eq_none_iff.mp slot
  rw [length] at short
  exact absurd short (by decide)

end Unheaded.Balancer
