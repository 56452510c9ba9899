import Unheaded.Balancer.Sync

/-!
# The distribution report

`handleDistribution` counts the slots of each index and reads the index as a place in the
sorted list of all backends, while the table refers to the sorted list of the healthy ones.
-/

namespace Unheaded.Balancer

open Lib List

/-- `Distribution`, without the percentage. -/
structure Distribution where
  backendID : Bytes
  slots : Nat

variable (backends : List Backend)

def handleDistribution (table : List Nat) : List Distribution :=
  if table.length = 0 then []
  else
    let backendIDs := (backends.map Backend.id).mergeSort fun a b => decide (a ≤ b)
    backendIDs.zipIdx.map fun (id, i) => ⟨id, table.count (i % 2 ^ 32)⟩

def reportedSlots (report : List Distribution) (id : Bytes) : Nat :=
  ((report.find? fun d => d.backendID = id).map Distribution.slots).getD 0

/-- The slots of a table that `BuildTable` has given a backend. -/
def assignedSlots (table : List Nat) (b : Backend) : Nat :=
  table.countP fun idx => (sortBackends (healthyOf backends))[idx]? = some b

/-- After a rebuild the report gives every backend its slots, and none to one that is not healthy. -/
def ReportsTable (crc32 : Bytes → BitVec 32) (backends : List Backend) : Prop := ∀ b ∈ backends,
    let slots := reportedSlots (handleDistribution backends (tableOf crc32 backends)) b.id
    slots = assignedSlots backends (tableOf crc32 backends) b ∧
      (b.health ≠ healthHealthy → slots = 0)

def leadingHealthy : List Backend :=
  (sortBackends backends).takeWhile fun b => b.health = healthHealthy

/-- No backend is healthy, or the indexes fit a word and either the healthy backends come first or
those before the first other one have entries for all slots. -/
def Aligned : Prop := healthyOf backends = [] ∨ backends.length ≤ 2 ^ 32 ∧
    (sortBackends (healthyOf backends) = leadingHealthy backends ∨
      defaultTableSize ≤ ((leadingHealthy backends).map Backend.entryCount).sum)

def entriesBefore (j : Nat) : Nat :=
  ((backends.take j).map Backend.entryCount).sum

variable {idx j : Nat}

theorem entriesBefore_mono (backends : List Backend) {i : Nat} (le : i ≤ j) :
    entriesBefore backends i ≤ entriesBefore backends j := by
  obtain ⟨d, rfl⟩ := Nat.exists_eq_add_of_le le
  unfold entriesBefore
  rw [take_add, map_append, sum_append]
  exact Nat.le_add_right _ _

variable {backends : List Backend}

theorem le_entriesBefore (inside : j ≤ backends.length) : j ≤ entriesBefore backends j := by
  have each : ∀ l : List Backend, l.length ≤ (l.map Backend.entryCount).sum := by
    intro l
    induction l with
    | nil => exact Nat.le_refl 0
    | cons b l ih =>
      have pos := b.entryCount_pos
      rw [length_cons, map_cons, sum_cons]
      omega
  have bound := each (backends.take j)
  rwa [length_take_of_le inside] at bound

theorem owner_entriesBefore (inside : j < backends.length) :
    (ownersFrom idx backends)[entriesBefore backends j]? = some (idx + j) := by
  induction backends generalizing idx j with
  | nil => exact absurd inside (Nat.not_lt_zero j)
  | cons b rest ih =>
    unfold ownersFrom
    cases j with
    | zero =>
      have pos := b.entryCount_pos
      rw [getElem?_append_left (by rw [length_replicate]; exact pos)]
      exact getElem?_replicate_of_lt pos
    | succ j =>
      have before : entriesBefore (b :: rest) (j + 1) = b.entryCount + entriesBefore rest j := rfl
      rw [before, getElem?_append_right (by rw [length_replicate]; omega),
        length_replicate, Nat.add_sub_cancel_left, ih (Nat.lt_of_succ_lt_succ inside)]
      congr 1
      omega

theorem entriesBefore_le {k : Nat} (owner : (ownersFrom idx backends)[k]? = some (idx + j)) :
    entriesBefore backends j ≤ k := by
  induction backends generalizing idx j k with
  | nil => cases owner
  | cons b rest ih =>
    unfold ownersFrom at owner
    cases j with
    | zero => exact Nat.zero_le k
    | succ j =>
      have before : entriesBefore (b :: rest) (j + 1) = b.entryCount + entriesBefore rest j := rfl
      by_cases own : k < b.entryCount
      · rw [getElem?_append_left (by rw [length_replicate]; exact own),
          getElem?_replicate_of_lt own] at owner
        have := Option.some.inj owner
        omega
      · rw [getElem?_append_right (by rw [length_replicate]; omega),
          length_replicate, show idx + (j + 1) = idx + 1 + j by omega] at owner
        have := ih owner
        omega

variable (crc32 : Bytes → BitVec 32)

variable {backends : List Backend}

theorem mem_tableOf (some : healthyOf backends ≠ []) (j : Nat) :
    j ∈ tableOf crc32 backends ↔ j < (healthyOf backends).length ∧
      entriesBefore (sortBackends (healthyOf backends)) j < defaultTableSize := by
  obtain ⟨size, s, least, fits, built, filled, full⟩ := buildFilling_filled crc32 some
    (show 1 ≤ defaultTableSize by decide) prime_defaultTableSize (Nat.le_refl _) (by decide)
    (Nat.lt_succ_self _)
  have own : LeastPrime defaultTableSize defaultTableSize :=
    ⟨⟨prime_defaultTableSize, Nat.le_refl _⟩, fun q candidate => candidate.2⟩
  obtain rfl : size = defaultTableSize := least.unique own
  have table : tableOf crc32 backends = s.table := by
    rw [tableOf, buildTable, built]
    rfl
  have length := (perm_sortBackends (healthyOf backends)).length_eq
  have turns : j ∈ s.table ↔ ∃ k < defaultTableSize,
      (ownersFrom 0 (sortBackends (healthyOf backends)))[
        k % (ownersFrom 0 (sortBackends (healthyOf backends))).length]? = .some j := by
    rw [← count_pos_iff, filled.count_table full, countP_pos_iff]
    constructor
    · rintro ⟨k, mem, turn⟩
      have inside := mem_range.mp mem
      refine ⟨k, inside, ?_⟩
      rw [← turnIndex_eq crc32 fits _ inside]
      exact eq_of_beq turn
    · rintro ⟨k, inside, turn⟩
      refine ⟨k, mem_range.mpr inside, ?_⟩
      rw [turnIndex_eq crc32 fits _ inside, turn]
      exact beq_self_eq_true _
  rw [table, turns]
  constructor
  · rintro ⟨k, inside, turn⟩
    have below := owner_lt_length (mem_of_getElem? turn)
    have early := @entriesBefore_le 0 j _ _ (by rw [turn, Nat.zero_add])
    have turned := Nat.mod_le k (ownersFrom 0 (sortBackends (healthyOf backends))).length
    omega
  · rintro ⟨below, early⟩
    have owner := @owner_entriesBefore 0 j _ (length ▸ below)
    rw [Nat.zero_add] at owner
    refine ⟨_, early, ?_⟩
    rw [Nat.mod_eq_of_lt (List.getElem?_eq_some_iff.mp owner).1]
    exact owner

theorem notMem_tableOf_of_le {i j : Nat} (le : i ≤ j) (none : i ∉ tableOf crc32 backends) :
    j ∉ tableOf crc32 backends := by
  by_cases some : healthyOf backends = []
  · rw [tableOf_nil crc32 some]
    exact not_mem_nil
  · rw [mem_tableOf crc32 some] at none ⊢
    have more := entriesBefore_mono (sortBackends (healthyOf backends)) le
    omega

theorem sortBackends_of_sorted (sorted : backends.Pairwise fun a b => a.id ≤ b.id) :
    sortBackends backends = backends :=
  mergeSort_of_pairwise (sorted.imp decide_eq_true)

section Lists

variable {crc32} {backends : List Backend} (distinct : (backends.map Backend.id).Nodup)

include distinct

theorem sortBackends_healthyOf : sortBackends (healthyOf backends) =
    (sortBackends backends).filter fun b => b.health = healthHealthy := by
  have perm : ((sortBackends backends).filter fun b => b.health = healthHealthy).Perm
      (healthyOf backends) := (perm_sortBackends backends).filter _
  have sorted : sortBackends ((sortBackends backends).filter fun b => b.health = healthHealthy) =
      (sortBackends backends).filter fun b => b.health = healthHealthy :=
    sortBackends_of_sorted ((pairwise_sortBackends backends).sublist filter_sublist)
  rw [← sorted]
  exact (sortBackends_eq perm (distinct.sublist (filter_sublist.map _))).symm

theorem nodup_sortBackends : (sortBackends backends).Nodup :=
  ((perm_sortBackends backends).nodup_iff).mpr distinct.of_map

variable {table : List Nat} {i : Nat} {b : Backend}

theorem reportedSlots_eq (some : table ≠ []) (here : (sortBackends backends)[i]? = .some b) :
    reportedSlots (handleDistribution backends table) b.id = table.count (i % 2 ^ 32) := by
  have ids : (backends.map Backend.id).mergeSort (fun a b => decide (a ≤ b)) =
      (sortBackends backends).map Backend.id := by
    refine (map_mergeSort (f := Backend.id) fun _ _ _ _ => ?_).symm
    rfl
  have nodup := (((perm_sortBackends backends).map _).nodup_iff).mpr distinct
  have own : ((sortBackends backends).map Backend.id)[i]? = .some b.id := by
    rw [getElem?_map, here, Option.map_some]
  unfold reportedSlots handleDistribution
  rw [if_neg (fun empty => some (eq_nil_of_length_eq_zero empty))]
  rw [ids]
  cases found : (((sortBackends backends).map Backend.id).zipIdx.map
      fun x : Bytes × Nat => (⟨x.1, table.count (x.2 % 2 ^ 32)⟩ : Distribution)).find?
        fun d => d.backendID = b.id with
  | none =>
    have absent := find?_eq_none.mp found ⟨b.id, table.count (i % 2 ^ 32)⟩
      (mem_map.mpr ⟨(b.id, i), mem_zipIdx_iff_getElem?.mpr own, rfl⟩)
    exact absurd (decide_eq_true rfl) absent
  | some d =>
    obtain ⟨⟨id, k⟩, mem, rfl⟩ := mem_map.mp (mem_of_find?_eq_some found)
    have decided := find?_some found
    have same : id = b.id := of_decide_eq_true decided
    have there := mem_zipIdx_iff_getElem?.mp mem
    rw [same] at there
    have inside := (List.getElem?_eq_some_iff.mp own).1
    have place : i = k := (List.getElem?_inj inside nodup).mp (own.trans there.symm)
    rw [place]
    rfl

omit distinct in
theorem getElem?_filter_countP {α : Type} {p : α → Bool} {l : List α} {a : α}
    (here : l[i]? = some a) (kept : p a = true) : (l.filter p)[(l.take i).countP p]? = some a := by
  induction l generalizing i with
  | nil => cases here
  | cons x l ih =>
    cases i with
    | zero =>
      cases here
      rw [filter_cons_of_pos kept]
      rfl
    | succ i =>
      have rest := ih here
      rw [take_succ_cons]
      by_cases first : p x = true
      · rw [filter_cons_of_pos first, countP_cons_of_pos first]
        exact rest
      · rw [filter_cons_of_neg first, countP_cons_of_neg first]
        exact rest

theorem assignedSlots_eq (here : (sortBackends backends)[i]? = some b)
    (healthy : b.health = healthHealthy) : assignedSlots backends table b =
      table.count (((sortBackends backends).take i).countP fun b => b.health = healthHealthy) := by
  have own := getElem?_filter_countP (p := fun b => b.health = healthHealthy) here
    (decide_eq_true healthy)
  rw [← sortBackends_healthyOf distinct] at own
  have nodup : (sortBackends (healthyOf backends)).Nodup :=
    nodup_sortBackends (distinct.sublist (filter_sublist.map _))
  have inside := (List.getElem?_eq_some_iff.mp own).1
  refine countP_congr fun idx _ => ?_
  rw [decide_eq_true_iff, beq_iff_eq]
  constructor
  · intro there
    exact ((getElem?_inj inside nodup).mp (own.trans there.symm)).symm
  · rintro rfl
    exact own

omit distinct in
theorem assignedSlots_of_unhealthy (other : b.health ≠ healthHealthy) :
    assignedSlots backends table b = 0 := by
  refine countP_eq_zero.mpr fun idx _ there => ?_
  have mem := mem_of_getElem? (of_decide_eq_true there)
  have healthy := (mem_filter.mp ((perm_sortBackends _).mem_iff.mp mem)).2
  exact other (of_decide_eq_true healthy)

omit distinct in
theorem healthy_of_mem_leading (mem : b ∈ leadingHealthy backends) :
    decide (b.health = healthHealthy) = true := by
  have kept := mem_takeWhile_imp mem
  exact kept

theorem sortBackends_split : ∃ rest, sortBackends backends = leadingHealthy backends ++ rest ∧
    sortBackends (healthyOf backends) =
      leadingHealthy backends ++ rest.filter (fun b => b.health = healthHealthy) ∧
    ∀ b ∈ rest.head?, b.health ≠ healthHealthy := by
  refine ⟨(sortBackends backends).dropWhile fun b => b.health = healthHealthy,
    takeWhile_append_dropWhile.symm, ?_, ?_⟩
  · have leading : (leadingHealthy backends).filter (fun b => b.health = healthHealthy) =
        leadingHealthy backends :=
      filter_eq_self.mpr fun b mem => healthy_of_mem_leading mem
    rw [sortBackends_healthyOf distinct]
    conv_lhs => rw [← @takeWhile_append_dropWhile _ (fun b => b.health = healthHealthy)
      (sortBackends backends)]
    rw [filter_append]
    exact congrArg (· ++ _) leading
  · intro b head
    have stops := head?_dropWhile_not (fun b : Backend => b.health = healthHealthy)
      (sortBackends backends)
    rw [Option.mem_def.mp head] at stops
    exact of_decide_eq_false stops

theorem entriesBefore_leading :
    entriesBefore (sortBackends (healthyOf backends)) (leadingHealthy backends).length =
      ((leadingHealthy backends).map Backend.entryCount).sum := by
  obtain ⟨rest, -, healthy, -⟩ := sortBackends_split distinct
  rw [entriesBefore, healthy, take_left]

theorem leading_le_countP (behind : (leadingHealthy backends).length ≤ i) :
    (leadingHealthy backends).length ≤
      ((sortBackends backends).take i).countP fun b => b.health = healthHealthy := by
  obtain ⟨rest, sorted, -⟩ := sortBackends_split distinct
  have all : (leadingHealthy backends).countP (fun b => b.health = healthHealthy) =
      (leadingHealthy backends).length :=
    countP_eq_length.mpr fun b mem => healthy_of_mem_leading mem
  rw [sorted, take_append, take_of_length_le behind, countP_append, all]
  exact Nat.le_add_right _ _

theorem countP_of_leading (front : i ≤ (leadingHealthy backends).length) :
    (((sortBackends backends).take i).countP fun b => b.health = healthHealthy) = i := by
  obtain ⟨rest, sorted, -⟩ := sortBackends_split distinct
  have all : ((leadingHealthy backends).take i).countP (fun b => b.health = healthHealthy) =
      ((leadingHealthy backends).take i).length :=
    countP_eq_length.mpr fun b mem => healthy_of_mem_leading (mem_of_mem_take mem)
  rw [sorted, take_append_of_le_length front, all, length_take_of_le front]

theorem leading_notMem_tableOf (some : healthyOf backends ≠ []) :
    (leadingHealthy backends).length ∉ tableOf crc32 backends ↔
      sortBackends (healthyOf backends) = leadingHealthy backends ∨
        defaultTableSize ≤ ((leadingHealthy backends).map Backend.entryCount).sum := by
  obtain ⟨rest, -, healthy, -⟩ := sortBackends_split distinct
  have length := (perm_sortBackends (healthyOf backends)).length_eq
  have first : sortBackends (healthyOf backends) = leadingHealthy backends ↔
      (healthyOf backends).length ≤ (leadingHealthy backends).length := by
    rw [← length, healthy, length_append, append_right_eq_self, ← length_eq_zero_iff]
    omega
  rw [mem_tableOf crc32 some, entriesBefore_leading distinct, first]
  omega

omit distinct in
theorem exists_place (mem : b ∈ backends) :
    ∃ i, (sortBackends backends)[i]? = some b ∧ i < backends.length := by
  obtain ⟨i, here⟩ := mem_iff_getElem?.mp ((perm_sortBackends backends).mem_iff.mpr mem)
  have inside := (List.getElem?_eq_some_iff.mp here).1
  rw [(perm_sortBackends backends).length_eq] at inside
  exact ⟨i, here, inside⟩

theorem reports_of_silent (some : healthyOf backends ≠ []) (few : backends.length ≤ 2 ^ 32)
    (silent : (leadingHealthy backends).length ∉ tableOf crc32 backends) :
    ReportsTable crc32 backends := by
  intro b mem
  have table : tableOf crc32 backends ≠ [] := by
    rw [← length_pos_iff, length_tableOf crc32 some]
    decide
  obtain ⟨i, here, inside⟩ := exists_place mem
  rw [reportedSlots_eq distinct table here, Nat.mod_eq_of_lt (show i < 2 ^ 32 by omega)]
  by_cases front : i < (leadingHealthy backends).length
  · have healthy : b.health = healthHealthy := by
      obtain ⟨rest, sorted, -⟩ := sortBackends_split distinct
      rw [sorted, getElem?_append_left front] at here
      exact of_decide_eq_true (healthy_of_mem_leading (mem_of_getElem? here))
    rw [assignedSlots_eq distinct here healthy, countP_of_leading distinct (Nat.le_of_lt front)]
    exact ⟨rfl, fun other => absurd healthy other⟩
  · have behind := Nat.not_lt.mp front
    have none := count_eq_zero.mpr (notMem_tableOf_of_le crc32 behind silent)
    refine ⟨?_, fun _ => none⟩
    rw [none]
    by_cases healthy : b.health = healthHealthy
    · rw [assignedSlots_eq distinct here healthy]
      exact (count_eq_zero.mpr
        (notMem_tableOf_of_le crc32 (leading_le_countP distinct behind) silent)).symm
    · exact (assignedSlots_of_unhealthy healthy).symm

variable (reports : ReportsTable crc32 backends) (some : healthyOf backends ≠ [])
include reports some

theorem silent_of_reports (behind : (leadingHealthy backends).length < backends.length)
    (small : (leadingHealthy backends).length < 2 ^ 32) :
    (leadingHealthy backends).length ∉ tableOf crc32 backends := by
  have table : tableOf crc32 backends ≠ [] := by
    rw [← length_pos_iff, length_tableOf crc32 some]
    decide
  obtain ⟨rest, sorted, -, other⟩ := sortBackends_split distinct
  have length := (perm_sortBackends backends).length_eq
  rw [sorted, length_append] at length
  obtain ⟨b, rest', rfl⟩ := exists_cons_of_length_pos (show 0 < rest.length by omega)
  have here : (sortBackends backends)[(leadingHealthy backends).length]? = .some b := by
    rw [sorted, getElem?_append_right (Nat.le_refl _), Nat.sub_self]
    rfl
  have mem := (perm_sortBackends backends).mem_iff.mp (mem_of_getElem? here)
  have none := (reports b mem).2 (other b rfl)
  rw [reportedSlots_eq distinct table here, Nat.mod_eq_of_lt small] at none
  exact count_eq_zero.mp none

theorem few_of_reports : backends.length ≤ 2 ^ 32 := by
  by_contra many
  have table : tableOf crc32 backends ≠ [] := by
    rw [← length_pos_iff, length_tableOf crc32 some]
    decide
  have length := (perm_sortBackends backends).length_eq
  have inside : 2 ^ 32 < (sortBackends backends).length := by omega
  have here := getElem?_eq_getElem inside
  have mem := (perm_sortBackends backends).mem_iff.mp (mem_of_getElem? here)
  have right := (reports _ mem).1
  have zero := (mem_tableOf crc32 some 0).mpr ⟨length_pos_iff.mpr some, Nat.zero_lt_succ _⟩
  have pos := count_pos_iff.mpr zero
  rw [reportedSlots_eq distinct table here, Nat.mod_self] at right
  -- The index is counted as that of the first backend, which has a slot.
  by_cases healthy : (sortBackends backends)[2 ^ 32].health = healthHealthy
  · rw [assignedSlots_eq distinct here healthy] at right
    rw [right, count_pos_iff] at pos
    by_cases front : (leadingHealthy backends).length < 2 ^ 32
    · have silent := silent_of_reports distinct reports some (by omega) front
      exact notMem_tableOf_of_le crc32 (leading_le_countP distinct (Nat.le_of_lt front)) silent pos
    · rw [countP_of_leading distinct (Nat.not_lt.mp front), mem_tableOf crc32 some] at pos
      have entries : 2 ^ 32 ≤ entriesBefore (sortBackends (healthyOf backends)) (2 ^ 32) :=
        le_entriesBefore (by rw [(perm_sortBackends (healthyOf backends)).length_eq]; omega)
      have size : defaultTableSize = 65537 := rfl
      omega
  · rw [assignedSlots_of_unhealthy healthy] at right
    omega

end Lists

/-- The report matches the table exactly if the two lists of backends agree as far as there are slots. -/
theorem reportsTable_iff (crc32 : Bytes → BitVec 32) {backends : List Backend}
    (distinct : (backends.map Backend.id).Nodup) :
    ReportsTable crc32 backends ↔ Aligned backends := by
  by_cases none : healthyOf backends = []
  · refine iff_of_true (fun b member => ?_) (.inl none)
    rw [tableOf_nil crc32 none]
    exact ⟨rfl, fun _ => rfl⟩
  · constructor
    · intro reports
      have few := few_of_reports distinct reports none
      refine .inr ⟨few, ?_⟩
      by_cases behind : (leadingHealthy backends).length < backends.length
      · exact (leading_notMem_tableOf distinct none).mp
          (silent_of_reports distinct reports none behind (by omega))
      · left
        obtain ⟨rest, sorted, healthy, -⟩ := sortBackends_split distinct
        have length := (perm_sortBackends backends).length_eq
        rw [sorted, length_append] at length
        obtain rfl : rest = [] := eq_nil_of_length_eq_zero (by omega)
        rw [healthy]
        exact append_nil _
    · rintro (healthy | ⟨few, cases⟩)
      · exact absurd healthy none
      · exact reports_of_silent distinct none few ((leading_notMem_tableOf distinct none).mpr cases)

def checksumIEEE (data : Bytes) : BitVec 32 :=
  let shift (crc : BitVec 32) := if crc.getLsbD 0 then (crc >>> 1) ^^^ 0xEDB88320 else crc >>> 1
  ~~~ data.foldl (fun crc b => Nat.repeat shift 8 (crc ^^^ b.setWidth 32)) 0xFFFFFFFF

example : checksumIEEE (utf8 "123456789".toList) = 0xCBF43926 := by decide +kernel

/-- The backend behind `lone`, drained. -/
def drained : Backend := ⟨utf8 "b".toList, 3, "UNHEALTHY"⟩

theorem reportsTable_iff_drained : ReportsTable checksumIEEE [lone, drained] := by
  have sorted : sortBackends [lone, drained] = [lone, drained] :=
    sortBackends_of_sorted (by decide +kernel)
  have front : sortBackends (healthyOf [lone, drained]) = leadingHealthy [lone, drained] := by
    rw [leadingHealthy, sorted]
    decide +kernel
  exact (reportsTable_iff checksumIEEE (by decide +kernel)).mpr (.inr ⟨by decide, .inl front⟩)

/-- A backend before `lone`, drained. -/
def drainedFirst : Backend := ⟨utf8 "A".toList, 1, "UNHEALTHY"⟩

/-- The slots of `lone` are reported for the drained backend before it. -/
theorem drained_backend_has_slots :
    ¬ ∃ crc32 : Bytes → BitVec 32, ReportsTable crc32 [drainedFirst, lone] := by
  rintro ⟨crc32, reports⟩
  have distinct : ([drainedFirst, lone].map Backend.id).Nodup := by decide +kernel
  have some : healthyOf [drainedFirst, lone] ≠ [] := by decide +kernel
  have front : leadingHealthy [drainedFirst, lone] = [] := by
    rw [leadingHealthy, sortBackends_of_sorted (show [drainedFirst, lone].Pairwise _ by decide +kernel)]
    decide +kernel
  have silent := silent_of_reports distinct reports some (by rw [front]; decide)
    (by rw [front]; decide)
  rw [front] at silent
  exact silent ((mem_tableOf crc32 some 0).mpr ⟨length_pos_iff.mpr some, Nat.zero_lt_succ _⟩)

end Unheaded.Balancer
