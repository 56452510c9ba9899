import Mathlib.Data.Int.CardIntervalMod
import Mathlib.NumberTheory.LucasLehmer
import Mathlib.Tactic.NormNum.Prime
import Mathlib.Tactic.ReduceModChar
import Unheaded.Balancer.Maglev

/-!
# Shares of a Maglev table

The entries take their slots in turn, so that no entry has two more than another.
-/

namespace Unheaded.Balancer

open Lib List Option Function

variable {j n size : Nat}

theorem count_turns (small : j < n) :
    ((range size).map (· % n)).count j = size / n + if j < size % n then 1 else 0 := by
  have counted := Nat.count_modEq_card size (Nat.lt_of_le_of_lt (Nat.zero_le j) small) j
  rw [Nat.mod_eq_of_lt small] at counted
  rw [← counted, List.count, countP_map, Nat.count]
  refine countP_congr fun k _ => ?_
  rw [comp_apply, beq_iff_eq, decide_eq_true_iff, Nat.ModEq, Nat.mod_eq_of_lt small]

theorem count_turns_bounds (small : j < n) : size / n ≤ ((range size).map (· % n)).count j ∧
      ((range size).map (· % n)).count j ≤ (size + n - 1) / n := by
  rw [count_turns small]
  have parts := Nat.div_add_mod size n
  constructor
  · exact Nat.le_add_right ..
  · split
    next below =>
      have more : n * (size / n + 1) ≤ size + n - 1 := by
        rw [Nat.mul_add]
        omega
      exact (Nat.le_div_iff_mul_le (by omega)).mpr (by rw [Nat.mul_comm]; exact more)
    next => exact Nat.div_le_div_right (by omega)

theorem countP_turns (n size : Nat) (pos : 0 < n) (mine : Nat → Bool) :
    (range size).countP (fun k => mine (k % n)) =
      ∑ j ∈ (Finset.range n).filter (fun j => mine j = true),
        ((range size).map (· % n)).count j := by
  have whole := Nat.count_eq_card_filter_range (fun k => mine (k % n) = true) size
  have parts : ((Finset.range size).filter fun k => mine (k % n) = true).card =
      ∑ j ∈ (Finset.range n).filter (fun j => mine j = true),
        (((Finset.range size).filter fun k => mine (k % n) = true).filter fun k => k % n = j).card := by
    refine Finset.card_eq_sum_card_fiberwise fun k mem => ?_
    have own : mine (k % n) = true := (Finset.mem_filter.mp mem).2
    exact Finset.mem_coe.mpr (Finset.mem_filter.mpr ⟨Finset.mem_range.mpr (Nat.mod_lt k pos), own⟩)
  have listed : (range size).countP (fun k => mine (k % n)) =
      Nat.count (fun k => mine (k % n) = true) size := by
    refine countP_congr fun k _ => ?_
    rw [decide_eq_true_iff]
  rw [listed, whole, parts]
  refine Finset.sum_congr rfl fun j mem => ?_
  have own : mine j = true := (Finset.mem_filter.mp mem).2
  have counted := Nat.count_eq_card_filter_range (fun k => k % n = j) size
  rw [List.count, countP_map, Finset.filter_filter]
  have same : ((Finset.range size).filter fun k => mine (k % n) = true ∧ k % n = j) =
      (Finset.range size).filter fun k => k % n = j := by
    refine Finset.filter_congr fun k _ => ⟨fun both => both.2, fun here => ⟨?_, here⟩⟩
    rw [here]
    exact own
  rw [same, ← counted]
  refine countP_congr fun k _ => ?_
  rw [comp_apply, beq_iff_eq, decide_eq_true_iff]

theorem share_turns (n size : Nat) (pos : 0 < n) (mine : Nat → Bool) :
    (range n).countP mine * (size / n) ≤ (range size).countP (fun k => mine (k % n)) ∧
      (range size).countP (fun k => mine (k % n)) ≤
        (range n).countP mine * ((size + n - 1) / n) := by
  have weight : (range n).countP mine =
      ((Finset.range n).filter fun j => mine j = true).card := by
    rw [← Nat.count_eq_card_filter_range (fun j => mine j = true) n]
    refine countP_congr fun k _ => ?_
    rw [decide_eq_true_iff]
  have bounds : ∀ j ∈ (Finset.range n).filter (fun j => mine j = true),
      size / n ≤ ((range size).map (· % n)).count j ∧
        ((range size).map (· % n)).count j ≤ (size + n - 1) / n := fun j mem =>
    count_turns_bounds (Finset.mem_range.mp (Finset.mem_filter.mp mem).1)
  rw [countP_turns n size pos mine, weight]
  constructor
  · exact Finset.card_nsmul_le_sum _ _ _ fun j mem => (bounds j mem).1
  · exact Finset.sum_le_card_nsmul _ _ _ fun j mem => (bounds j mem).2

theorem count_eq_countP_range (l : List Nat) (i : Nat) :
    l.count i = (range l.length).countP fun c => l[c]? == some i := by
  induction l with
  | nil => rfl
  | cons a l ih =>
    rw [length_cons, range_succ_eq_map, countP_cons, countP_map, count_cons]
    congr 1

section Full

variable {size : Nat} {entries : List Entry} {s : Filling}

def turnIndex (entries : List Entry) (k : Nat) : Option Nat :=
  (entries[k % entries.length]?).map Entry.backendIdx

variable (filled : Filled size entries s) (full : s.filled = size)
include filled full

theorem Filled.perm_slots : (s.taken.map Prod.snd).Perm (range size) := by
  have inside : s.taken.map Prod.snd ⊆ range size := by
    intro c mem
    obtain ⟨t, taken, rfl⟩ := List.mem_map.mp mem
    exact mem_range.mpr (filled.inside t taken)
  refine (filled.distinct.subperm inside).perm_of_length_le ?_
  rw [length_range, length_map, filled.count, full]

theorem Filled.count_table (i : Nat) :
    s.table.count i = (range size).countP fun k => turnIndex entries k == some i := by
  have owned : ∀ t ∈ s.taken, (s.table[t.2]? == some i) = true ↔
      ((entries[t.1]?).map Entry.backendIdx == some i) = true := by
    intro t mem
    obtain ⟨e, which, value⟩ := filled.owned t mem
    rw [which, value, map_some]
  calc s.table.count i = (range size).countP (fun c => s.table[c]? == some i) := by
        rw [count_eq_countP_range, filled.length]
    _ = (s.taken.map Prod.snd).countP (fun c => s.table[c]? == some i) :=
        ((filled.perm_slots full).countP_eq _).symm
    _ = s.taken.countP (fun t => s.table[t.2]? == some i) := countP_map
    _ = s.taken.countP (fun t => (entries[t.1]?).map Entry.backendIdx == some i) :=
        countP_congr owned
    _ = (s.taken.map Prod.fst).countP (fun j => (entries[j]?).map Entry.backendIdx == some i) :=
        by rw [countP_map]; rfl
    _ = (range size).countP (fun k => turnIndex entries k == some i) := by
        rw [filled.order, full, countP_reverse, countP_map]
        rfl

theorem Filled.slot_turn {i : Nat}
    (mem : i ∈ s.table) : ∃ k < size, turnIndex entries k = some i := by
  have pos := count_pos_iff.mpr mem
  rw [filled.count_table full, countP_pos_iff] at pos
  obtain ⟨k, inside, turn⟩ := pos
  exact ⟨k, mem_range.mp inside, eq_of_beq turn⟩

end Full

variable {backends : List Backend}

theorem notMem_ownersFrom {idx j : Nat} (before : j < idx) : j ∉ ownersFrom idx backends := by
  induction backends generalizing idx with
  | nil => exact not_mem_nil
  | cons b rest ih =>
    intro mem
    rcases mem_append.mp mem with own | later
    · have := (mem_replicate.mp own).2
      omega
    · exact ih (Nat.lt_succ_of_lt before) later

theorem count_ownersFrom {idx i : Nat} {backends : List Backend} {b : Backend}
    (here : backends[i]? = some b) : (ownersFrom idx backends).count (idx + i) = b.entryCount := by
  induction backends generalizing idx i with
  | nil => cases here
  | cons a rest ih =>
    rw [ownersFrom, count_append]
    cases i with
    | zero =>
      cases here
      rw [Nat.add_zero, count_replicate_self,
        count_eq_zero.mpr (notMem_ownersFrom (Nat.lt_succ_self idx)), Nat.add_zero]
    | succ i =>
      have next := @ih (idx + 1) i here
      have other : (replicate a.entryCount idx).count (idx + (i + 1)) = 0 := by
        refine count_eq_zero.mpr fun mem => ?_
        have := (mem_replicate.mp mem).2
        omega
      rw [other, Nat.zero_add, show idx + (i + 1) = idx + 1 + i by omega]
      exact next

theorem owner_lt_length {idx i : Nat} (mem : i ∈ ownersFrom idx backends) :
    i < idx + backends.length := by
  induction backends generalizing idx with
  | nil => cases mem
  | cons b rest ih =>
    rw [length_cons]
    rcases mem_append.mp mem with own | later
    · have := (mem_replicate.mp own).2
      omega
    · have := ih later
      omega

section Shares

variable (crc32 : Bytes → BitVec 32) {size : Nat} (fits : WalkSize size) (backends : List Backend)

theorem length_entriesFrom (idx : Nat) :
    (entriesFrom crc32 size idx backends).length = (ownersFrom idx backends).length := by
  have lengths := congrArg List.length (map_backendIdx crc32 size idx backends)
  rwa [length_map, length_map] at lengths

include fits in
theorem turnIndex_eq {k : Nat} (small : k < size) :
    turnIndex (entriesFrom crc32 size 0 backends) k =
      (ownersFrom 0 backends)[k % (ownersFrom 0 backends).length]? := by
  rw [turnIndex, length_entriesFrom, ← List.getElem?_map, map_backendIdx, List.getElem?_map]
  cases which : (ownersFrom 0 backends)[k % (ownersFrom 0 backends).length]? with
  | none => rfl
  | some owner =>
    have below := owner_le which
    have turn := Nat.mod_le k (ownersFrom 0 backends).length
    have bound := fits.small
    unfold unassigned at bound
    rw [map_some, Nat.mod_eq_of_lt (show owner < 2 ^ 32 by omega)]

end Shares

theorem perm_sortBackends (backends : List Backend) : (sortBackends backends).Perm backends :=
  mergeSort_perm backends _

variable {backends : List Backend}

theorem sortBackends_ne_nil (some : backends ≠ []) : sortBackends backends ≠ [] := by
  intro empty
  have perm := perm_sortBackends backends
  rw [empty] at perm
  exact some perm.symm.eq_nil

theorem pairwise_sortBackends (backends : List Backend) :
    (sortBackends backends).Pairwise fun a b => a.id ≤ b.id := by
  have sorted := @pairwise_mergeSort Backend (fun a b => decide (a.id ≤ b.id))
    (fun a b c first second =>
      decide_eq_true (List.le_trans (of_decide_eq_true first) (of_decide_eq_true second)))
    (fun a b => by
      rcases List.le_total a.id b.id with first | second
      · rw [decide_eq_true first, Bool.true_or]
      · rw [decide_eq_true second, Bool.or_true]) backends
  exact sorted.imp fun held => of_decide_eq_true held

theorem sortBackends_eq {other : List Backend} (perm : other.Perm backends)
    (distinct : (backends.map Backend.id).Nodup) : sortBackends other = sortBackends backends := by
  have perm' := (perm_sortBackends other).trans (perm.trans (perm_sortBackends backends).symm)
  refine perm'.eq_of_pairwise (fun a b inOther inBackends first second => ?_)
    (pairwise_sortBackends other) (pairwise_sortBackends backends)
  have a_mem : a ∈ backends := perm.mem_iff.mp ((perm_sortBackends other).mem_iff.mp inOther)
  have b_mem : b ∈ backends := (perm_sortBackends backends).mem_iff.mp inBackends
  exact inj_on_of_nodup_map distinct a_mem b_mem (List.le_antisymm first second)

def slotsOf (s : Filling) (j : Nat) : Nat := (s.taken.map Prod.fst).count j

/-- A table for some backends: its size is the least prime from `n` on, every slot holds an index of a
backend, no entry has two slots more than another, and every backend has its share. -/
structure Maglev (n : Nat) (backends : List Backend) (s : Filling) : Prop where
  size : LeastPrime n s.table.length
  valid : ∀ slot ∈ s.table, slot < backends.length
  fair : ∀ j k, j < s.entries.length → k < s.entries.length → slotsOf s j ≤ slotsOf s k + 1
  share : ∀ (i : Nat) (b : Backend), (sortBackends backends)[i]? = some b →
    b.entryCount * (s.table.length / s.entries.length) ≤ s.table.count i ∧ s.table.count i ≤
        b.entryCount * ((s.table.length + s.entries.length - 1) / s.entries.length)

theorem Filled.maglev {crc32 : Bytes → BitVec 32} {n size : Nat} {backends : List Backend}
    {s : Filling} (fits : WalkSize size) (least : LeastPrime n size) (some : backends ≠ [])
    (filled : Filled size (entriesFrom crc32 size 0 (sortBackends backends)) s)
    (full : s.filled = size) : Maglev n backends s := by
  have entryCount : s.entries.length = (ownersFrom 0 (sortBackends backends)).length := by
    rw [filled.entryCount, length_entriesFrom]
  have pos : 0 < (ownersFrom 0 (sortBackends backends)).length := by
    rw [← @length_entriesFrom crc32 size]
    exact (wellFormed_entries crc32 fits (sortBackends_ne_nil some)).nonempty
  have slots : ∀ j, slotsOf s j =
      ((range size).map (· % (ownersFrom 0 (sortBackends backends)).length)).count j := by
    intro j
    rw [slotsOf, filled.order, full, count_reverse, length_entriesFrom]
  refine ⟨?_, ?_, ?_, ?_⟩
  · rw [filled.length]
    exact least
  · intro slot mem
    obtain ⟨k, small, turn⟩ := filled.slot_turn full mem
    rw [turnIndex_eq crc32 fits _ small] at turn
    have inside := owner_lt_length (mem_of_getElem? turn)
    rw [(perm_sortBackends backends).length_eq] at inside
    omega
  · intro j k inside inside'
    rw [entryCount] at inside inside'
    rw [slots, slots, count_turns inside, count_turns inside']
    split <;> split <;> omega
  · intro i b here
    have counted : s.table.count i = (range size).countP fun k =>
        (ownersFrom 0 (sortBackends backends))[k % (ownersFrom 0 (sortBackends backends)).length]? ==
          Option.some i := by
      rw [filled.count_table full]
      refine countP_congr fun k mem => ?_
      rw [turnIndex_eq crc32 fits _ (mem_range.mp mem)]
    have weight : (range (ownersFrom 0 (sortBackends backends)).length).countP
        (fun j => (ownersFrom 0 (sortBackends backends))[j]? == Option.some i) = b.entryCount := by
      rw [← count_eq_countP_range, ← @count_ownersFrom 0 i _ b here, Nat.zero_add]
    rw [filled.length, entryCount, counted, ← weight]
    exact share_turns _ size pos
      fun j => (ownersFrom 0 (sortBackends backends))[j]? == Option.some i

variable {c fuel n p size : Nat}

theorem buildFilling_filled (crc32 : Bytes → BitVec 32) (some : backends ≠ []) (low : 1 ≤ n)
    (prime : p.Prime) (bound : n ≤ p) (small : p ≤ 2 ^ 31) (enough : 2 * p < fuel) :
    ∃ size s, LeastPrime n size ∧ WalkSize size ∧ buildFilling crc32 fuel backends n = .some s ∧
      Filled size (entriesFrom crc32 size 0 (sortBackends backends)) s ∧ s.filled = size := by
  obtain ⟨size, found, least⟩ := nextPrime_spec prime bound enough
  have narrow : size ≤ p := least.2 ⟨prime, bound⟩
  have fits : WalkSize size := ⟨least.1.1, Nat.lt_of_le_of_lt (narrow.trans small) (by decide)⟩
  obtain ⟨s, built, filled, full⟩ := fillTable_filled fits (narrow.trans small)
    (wellFormed_entries crc32 fits (sortBackends_ne_nil some)) (show size < fuel by omega)
  refine ⟨size, s, least, fits, ?_, filled, full⟩
  have proper : ¬ (backends.length = 0 ∨ (n : Int) ≤ 0) := by
    have := length_pos_iff.mpr some
    omega
  rw [buildFilling, if_neg proper, Int.toNat_natCast, found]
  exact built

theorem buildFilling_spec (crc32 : Bytes → BitVec 32) (some : backends ≠ []) (low : 1 ≤ n)
    (prime : p.Prime) (bound : n ≤ p) (small : p ≤ 2 ^ 31) (enough : 2 * p < fuel) :
    ∃ s, buildFilling crc32 fuel backends n = .some s ∧ Maglev n backends s := by
  obtain ⟨size, s, least, fits, built, filled, full⟩ :=
    buildFilling_filled crc32 some low prime bound small enough
  exact ⟨s, built, filled.maglev fits least some full⟩

def OnRound (size c : Nat) : Prop := c + 2 ^ 32 + 2 ≤ 2 * size ∨ c + 1 = size

theorem onRound_advance (large : 2 ^ 31 < size) (small : 3 * size ≤ 2 ^ 33) (here : OnRound size c) :
    OnRound size (advance size (size - 1) c) := by
  have whole : word size = size := Nat.mod_eq_of_lt (by omega)
  rw [advance, whole]
  rcases here with first | last
  · have fits : (c + (size - 1)) % 2 ^ 32 = c + (size - 1) := Nat.mod_eq_of_lt (by omega)
    rw [fits]
    cases c with
    | zero =>
      rw [Nat.zero_add, Nat.mod_eq_of_lt (show size - 1 < size by omega)]
      exact .inr (by omega)
    | succ c =>
      have back : (c + 1 + (size - 1)) % size = c := by
        rw [show c + 1 + (size - 1) = c + size by omega, Nat.add_mod_right]
        exact Nat.mod_eq_of_lt (by omega)
      exact .inl (by omega)
  · have wraps : (c + (size - 1)) % 2 ^ 32 = 2 * size - 2 - 2 ^ 32 := by
      rw [show c + (size - 1) = 2 * size - 2 - 2 ^ 32 + 2 ^ 32 by omega, Nat.add_mod_right]
      exact Nat.mod_eq_of_lt (by omega)
    rw [wraps, Nat.mod_eq_of_lt (show 2 * size - 2 - 2 ^ 32 < size by omega)]
    exact .inl (by omega)

theorem onRound_probe {slot : Nat} {table : List Nat} (large : 2 ^ 31 < size)
    (small : 3 * size ≤ 2 ^ 33) (here : OnRound size c)
    (found : probe table size (size - 1) fuel c = some slot) :
    OnRound size slot ∧ table[slot]? = some unassigned := by
  induction fuel generalizing c with
  | zero => cases found
  | succ fuel ih =>
    unfold probe at found
    split at found
    next free =>
      cases found
      exact ⟨here, free⟩
    next => exact ih (onRound_advance large small here) found

/-- Every entry goes round, and only the slots of the round are taken. -/
structure Circling (size : Nat) (entries : List Entry) (s : Filling) : Prop where
  filled : Filled size entries s
  walks : ∀ e ∈ s.entries, e.skip = size - 1 ∧ OnRound size e.cur
  slots : ∀ t ∈ s.taken, OnRound size t.2

section Overflow

variable {size : Nat} {entries : List Entry} (large : 2 ^ 31 < size) (small : 3 * size ≤ 2 ^ 33)
  (fits : WalkSize size) (wf : WellFormed size entries)

include large small fits wf

variable {s s' : Filling}

theorem place_circling {fuel : Nat} (circling : Circling size entries s) (more : s.filled < size)
    (placed : place fuel size s (s.filled % entries.length) = some s') :
    Circling size entries s' ∧ s'.filled = s.filled + 1 := by
  obtain ⟨e, here, placed⟩ := bind_eq_some_iff.mp placed
  obtain ⟨slot, found, placed⟩ := bind_eq_some_iff.mp placed
  cases placed
  obtain ⟨skip, round⟩ := circling.walks e (mem_of_getElem? here)
  rw [skip] at found
  obtain ⟨onRound, free⟩ := onRound_probe large small round found
  have inTable : slot < size := by
    obtain ⟨inside, -⟩ := List.getElem?_eq_some_iff.mp free
    rwa [circling.filled.length] at inside
  refine ⟨⟨circling.filled.placed fits wf more here inTable free, fun f mem => ?_, fun t mem => ?_⟩,
    rfl⟩
  · rcases mem_or_eq_of_mem_set mem with before | rfl
    · exact circling.walks f before
    · refine ⟨skip, ?_⟩
      rw [skip]
      exact onRound_advance large small onRound
  · rcases mem_cons.mp mem with rfl | before
    · exact onRound
    · exact circling.slots t before

theorem fillRound_circling {fuel left : Nat} (circling : Circling size entries s)
    (few : left ≤ entries.length) (turn : (s.filled + left) % entries.length = 0)
    (filled : fillRound fuel size entries.length left s = some s') :
    Circling size entries s' ∧ (s'.filled = size ∨ s'.filled % entries.length = 0) := by
  induction left generalizing s with
  | zero =>
    cases filled
    exact ⟨circling, .inr turn⟩
  | succ left ih =>
    unfold fillRound at filled
    split at filled
    next more =>
      obtain ⟨t, placed, rest⟩ := bind_eq_some_iff.mp filled
      rw [turn_index few turn] at placed
      obtain ⟨circling', grown⟩ := place_circling large small fits wf circling more placed
      have turn' : (t.filled + left) % entries.length = 0 := by
        rw [grown, Nat.add_assoc, Nat.add_comm 1]
        exact turn
      exact ih circling' (Nat.le_of_lt few) turn' rest
    next full =>
      cases filled
      have := circling.filled.most
      exact ⟨circling, .inl (by omega)⟩

theorem fillRounds_circling {inner fuel : Nat} (circling : Circling size entries s)
    (turn : s.filled = size ∨ s.filled % entries.length = 0) :
    fillRounds inner size entries.length fuel s = none := by
  induction fuel generalizing s with
  | zero => rfl
  | succ fuel ih =>
    unfold fillRounds
    by_cases more : s.filled < size
    · rw [if_pos more]
      cases round : fillRound inner size entries.length entries.length s with
      | none => rfl
      | some s' =>
        have start : (s.filled + entries.length) % entries.length = 0 := by
          rw [Nat.add_mod_right]
          exact turn.resolve_left (by omega)
        obtain ⟨circling', turn'⟩ :=
          fillRound_circling large small fits wf circling (Nat.le_refl _) start round
        exact ih circling' turn'
    · -- the slot behind the first ones of the round would have to be taken
      exfalso
      have most := circling.filled.most
      have behind : 2 * size - 1 - 2 ^ 32 ∈ range size := mem_range.mpr (by omega)
      rw [← (circling.filled.perm_slots (by omega)).mem_iff] at behind
      obtain ⟨t, mem, slot⟩ := List.mem_map.mp behind
      rcases circling.slots t mem with first | last <;> omega

end Overflow

def roundCrc (size : Nat) (b : Bytes) : BitVec 32 :=
  if b.getLast? = some 0x70 then BitVec.ofNat 32 (size - 2) else 0

theorem getLast_entryKey (id : Bytes) (rep : Nat) : (entryKey id rep).getLast? ≠ some 0x70 := by
  intro last
  have tail : utf8 (':' :: showNat 10 rep) ≠ [] := by
    exact fun empty => nomatch empty
  unfold entryKey at last
  rw [List.getLast?_append_of_ne_nil _ tail] at last
  obtain ⟨byte, inside, isP⟩ := List.mem_map.mp (List.mem_of_getLast? last)
  obtain ⟨c, char, encoded⟩ := mem_flatMap.mp inside
  have colon : ∀ b ∈ String.utf8EncodeChar ':', b.toBitVec ≠ 0x70 := by decide +kernel
  have digit : ∀ k < 10, ∀ b ∈ String.utf8EncodeChar (Nat.digitChar k), b.toBitVec ≠ 0x70 := by
    decide +kernel
  rcases mem_cons.mp char with rfl | later
  · exact colon byte encoded isP
  · obtain ⟨k, small, rfl⟩ := mem_showNat (by decide) later
    exact digit k small byte encoded isP

variable {fuel more n size : Nat}

theorem entryOf_roundCrc (large : 2 ^ 31 < size) (small : 3 * size ≤ 2 ^ 33) (idx : Nat)
    (id : Bytes) (rep : Nat) : (entryOf (roundCrc size) size idx id rep).skip = size - 1 ∧
      (entryOf (roundCrc size) size idx id rep).cur = 0 := by
  have whole : word size = size := Nat.mod_eq_of_lt (by omega)
  have last : (entryKey id rep ++ utf8 ":skip".toList).getLast? = some 0x70 := by
    rw [List.getLast?_append_of_ne_nil _ (by decide)]
    decide
  dsimp only [entryOf]
  unfold roundCrc
  rw [if_pos last, if_neg (getLast_entryKey id rep), whole, BitVec.toNat_ofNat,
    Nat.mod_eq_of_lt (show size - 2 < 2 ^ 32 by omega),
    Nat.mod_eq_of_lt (show size - 2 < size - 1 by omega)]
  exact ⟨by omega, Nat.zero_mod size⟩

theorem entriesFrom_roundCrc (large : 2 ^ 31 < size) (small : 3 * size ≤ 2 ^ 33) (idx : Nat)
    (backends : List Backend) :
    ∀ e ∈ entriesFrom (roundCrc size) size idx backends, e.skip = size - 1 ∧ OnRound size e.cur := by
  induction backends generalizing idx with
  | nil => exact fun e mem => nomatch mem
  | cons b rest ih =>
    intro e mem
    rcases mem_append.mp mem with own | later
    · obtain ⟨rep, -, rfl⟩ := List.mem_map.mp own
      obtain ⟨skip, cur⟩ := entryOf_roundCrc large small idx b.id rep
      refine ⟨skip, ?_⟩
      exact .inl (by omega)
    · exact ih (idx + 1) e later

theorem trialDivision_mono {i : Nat} {answer : Bool} (tested : trialDivision n fuel i = some answer) :
    trialDivision n (fuel + more) i = some answer := by
  induction fuel generalizing i with
  | zero => cases tested
  | succ fuel ih =>
    rw [Nat.succ_add]
    unfold trialDivision at tested ⊢
    split at tested
    next small =>
      rw [if_pos small]
      split at tested
      next found =>
        rw [if_pos found]
        exact tested
      next missed =>
        rw [if_neg missed]
        exact ih tested
    next large =>
      rw [if_neg large]
      exact tested

theorem isPrime_mono {answer : Bool} (tested : isPrime fuel n = some answer) :
    isPrime (fuel + more) n = some answer := by
  unfold isPrime at tested ⊢
  split at tested
  next below =>
    rw [if_pos below]
    exact tested
  next two =>
    rw [if_neg two]
    split at tested
    next below =>
      rw [if_pos below]
      exact tested
    next four =>
      rw [if_neg four]
      split at tested
      next found =>
        rw [if_pos found]
        exact tested
      next missed =>
        rw [if_neg missed]
        exact trialDivision_mono tested

theorem primeFrom_mono (found : primeFrom fuel n = some size) :
    primeFrom (fuel + more) n = some size := by
  induction fuel generalizing n with
  | zero => cases found
  | succ fuel ih =>
    rw [Nat.succ_add]
    unfold primeFrom at found ⊢
    cases tested : isPrime fuel n with
    | none =>
      simp [tested] at found
    | some answer =>
      rw [tested] at found
      rw [isPrime_mono tested]
      cases answer with
      | true => exact found
      | false => exact ih found

theorem nextPrime_mono (found : nextPrime fuel n = some size) :
    nextPrime (fuel + more) n = some size := by
  unfold nextPrime at found ⊢
  split at found
  next small =>
    rw [if_pos small]
    exact found
  next large =>
    rw [if_neg large]
    exact primeFrom_mono found

theorem leastPrime_of_nextPrime {p : Nat} (prime : p.Prime) (bound : n ≤ p)
    (found : nextPrime fuel n = some size) : LeastPrime n size := by
  obtain ⟨size', found', least⟩ := nextPrime_spec prime bound (show 2 * p < fuel + (2 * p + 1) by omega)
  rw [nextPrime_mono found] at found'
  cases found'
  exact least

theorem prime_below : (2 ^ 31 - 1).Prime := lucas_lehmer_sufficiency 31 (by decide) (by norm_num)

theorem prime_above : Nat.Prime 2281701377 := by
  apply lucas_primality 2281701377 3
  · reduce_mod_char
  · intro q prime divides
    have parts : q ∣ 17 * 2 ^ 27 := divides
    have options : q = 17 ∨ q = 2 := by
      rcases prime.dvd_mul.mp parts with seventeen | power
      · exact .inl ((Nat.prime_dvd_prime_iff_eq prime (by norm_num)).mp seventeen)
      · exact .inr ((Nat.prime_dvd_prime_iff_eq prime Nat.prime_two).mp (prime.dvd_of_dvd_pow power))
    rcases options with rfl | rfl
    · norm_num
      reduce_mod_char
      decide
    · norm_num
      reduce_mod_char
      decide

theorem buildFilling_circling (least : LeastPrime (2 ^ 31) size) (fuel : Nat)
    {backends : List Backend} (some : backends ≠ []) :
    buildFilling (roundCrc size) fuel backends (2 ^ 31 : Nat) = none := by
  have above : size ≤ 2281701377 := least.2 ⟨prime_above, by norm_num⟩
  have large : 2 ^ 31 < size := by
    refine Nat.lt_of_le_of_ne least.1.2 fun same => ?_
    have prime := least.1.1
    rw [← same] at prime
    exact Nat.Prime.not_prime_pow (by norm_num) prime
  have small : 3 * size ≤ 2 ^ 33 := by omega
  have fits : WalkSize size := ⟨least.1.1, by unfold unassigned; omega⟩
  have proper : ¬ (backends.length = 0 ∨ ((2 ^ 31 : Nat) : Int) ≤ 0) := by
    have := length_pos_iff.mpr some
    omega
  rw [buildFilling, if_neg proper, Int.toNat_natCast]
  cases found : nextPrime fuel (2 ^ 31) with
  | none => rfl
  | some size' =>
    have same : size' = size :=
      (leastPrime_of_nextPrime prime_above (by norm_num) found).unique least
    subst same
    have wf := wellFormed_entries (roundCrc size') fits (sortBackends_ne_nil some)
    refine fillRounds_circling large small fits wf ⟨filled_start wf, ?_, fun t mem => nomatch mem⟩
      (.inr (Nat.zero_mod _))
    exact entriesFrom_roundCrc large small 0 (sortBackends backends)

/-- Whatever the hash is, the loops end with a table for the backends, the same one for every order
of them. -/
def Builds (backends : List Backend) (n : Nat) : Prop :=
  ∀ crc32 : Bytes → BitVec 32, ∃ fuel s, buildFilling crc32 fuel backends n = some s ∧
    Maglev n backends s ∧
    ∀ other : List Backend, other.Perm backends → buildTable crc32 fuel other n = some s.table

/-- Of the sizes up to half a word, tables of all but the last are built under every hash. -/
theorem builds_iff {backends : List Backend} (some : backends ≠ [])
    (distinct : (backends.map Backend.id).Nodup) {n : Nat} (low : 1 ≤ n) (high : n ≤ 2 ^ 31) :
    Builds backends n ↔ n < 2 ^ 31 := by
  constructor
  · intro builds
    refine Nat.lt_of_le_of_ne high fun same => ?_
    subst same
    obtain ⟨size, -, least⟩ :=
      nextPrime_spec prime_above (show 2 ^ 31 ≤ 2281701377 by norm_num) (Nat.lt_succ_self _)
    obtain ⟨fuel, s, built, -⟩ := builds (roundCrc size)
    rw [buildFilling_circling least fuel some] at built
    cases built
  · intro below crc32
    obtain ⟨s, built, table⟩ := buildFilling_spec crc32 some low prime_below (by omega)
      (Nat.sub_le _ _) (Nat.lt_succ_self _)
    refine ⟨_, s, built, table, fun other perm => ?_⟩
    have same : buildFilling crc32 (2 * (2 ^ 31 - 1) + 1) other n =
        buildFilling crc32 (2 * (2 ^ 31 - 1) + 1) backends n := by
      unfold buildFilling
      rw [sortBackends_eq perm distinct, perm.length_eq]
    rw [buildTable, same, built]
    rfl

def lone : Backend := ⟨utf8 "a".toList, 1, "HEALTHY"⟩

theorem builds_iff_default :
    Builds [lone, ⟨utf8 "b".toList, 2, "DEGRADED"⟩] 65537 ↔ 65537 < 2 ^ 31 :=
  @builds_iff [lone, ⟨utf8 "b".toList, 2, "DEGRADED"⟩] (cons_ne_nil _ _) (by decide) 65537
    (by decide) (by decide)

/-- One backend, a table of half a word, and a hash under which its walk goes round. -/
theorem half_word_never_built :
    ∃ crc32 : Bytes → BitVec 32, ∀ fuel, buildTable crc32 fuel [lone] (2 ^ 31 : Nat) = none := by
  obtain ⟨size, -, least⟩ :=
    nextPrime_spec prime_above (show 2 ^ 31 ≤ 2281701377 by norm_num) (Nat.lt_succ_self _)
  refine ⟨roundCrc size, fun fuel => ?_⟩
  rw [buildTable, buildFilling_circling least fuel (cons_ne_nil _ _)]
  rfl

end Unheaded.Balancer
