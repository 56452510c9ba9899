import Mathlib.Data.List.Sort

/-!
# Pages of a sorted list

A reader that takes a list in pages of at most `k`, in the order of a key, goes on after the last
key it has seen.
-/

namespace Unheaded.Lib

open List

variable {α κ : Type} [LinearOrder κ] {key : α → κ} {l : List α} {x : α} {k : Nat}

/-- The `k` elements with the least keys. -/
def firstPage (key : α → κ) (k : Nat) (l : List α) : List α :=
  (l.insertionSort fun a b => key a ≤ key b).take k

theorem mem_take_or_after (hl : l.Pairwise fun a b => key a < key b) (hx : x ∈ l) (k : Nat) :
    x ∈ l.take k ∨ (k ≤ (l.take k).length ∧ ∀ y ∈ l.take k, key y < key x) := by
  by_cases hin : x ∈ l.take k
  · exact Or.inl hin
  · right
    have hsplit : l = l.take k ++ l.drop k := (take_append_drop k l).symm
    have hrest : x ∈ l.drop k := by
      rw [hsplit] at hx
      exact (mem_append.mp hx).resolve_left hin
    rw [hsplit] at hl
    refine ⟨?_, fun y hy => (pairwise_append.mp hl).2.2 y hy x hrest⟩
    have hlong : 0 < (l.drop k).length := length_pos_of_mem hrest
    rw [length_drop] at hlong
    rw [length_take]
    omega

theorem mem_takeWhile_le {b : κ} (hl : l.Pairwise fun a b => key a < key b) (hx : x ∈ l)
    (hb : key x ≤ b) : x ∈ l.takeWhile fun a => decide (key a ≤ b) := by
  induction l with
  | nil => exact absurd hx not_mem_nil
  | cons a l ih =>
    rw [pairwise_cons] at hl
    rcases mem_cons.mp hx with rfl | hrest
    · rw [takeWhile_cons_of_pos (by simpa using hb)]
      exact mem_cons_self
    · have ha : key a ≤ b := (hl.1 x hrest).le.trans hb
      rw [takeWhile_cons_of_pos (by simpa using ha)]
      exact mem_cons_of_mem a (ih hl.2 hrest)

theorem sorted_insertionSort (key : α → κ) (l : List α) :
    (l.insertionSort fun a b => key a ≤ key b).Pairwise fun a b => key a ≤ key b := by
  exact pairwise_insertionSort _ l

theorem perm_sorted (key : α → κ) (l : List α) :
    (l.insertionSort fun a b => key a ≤ key b).Perm l := perm_insertionSort _ l

theorem increasing_insertionSort (hl : (l.map key).Nodup) :
    (l.insertionSort fun a b => key a ≤ key b).Pairwise fun a b => key a < key b := by
  have hne : (l.insertionSort fun a b => key a ≤ key b).Pairwise fun a b => key a ≠ key b := by
    rw [← pairwise_map (R := fun a b => a ≠ b)]
    exact ((perm_sorted key l).map key).nodup_iff.mpr hl
  exact ((sorted_insertionSort key l).and hne).imp fun h => lt_of_le_of_ne h.1 h.2

theorem eq_of_perm_increasing {l' : List α} (hperm : l.Perm l')
    (hl : l.Pairwise fun a b => key a ≤ key b) (hl' : l'.Pairwise fun a b => key a < key b) :
    l = l' := by
  have hne : (l.map key).Nodup :=
    (hperm.map key).nodup_iff.mpr (pairwise_map.mpr (hl'.imp fun h => ne_of_lt h))
  have hincr : l.Pairwise fun a b => key a < key b :=
    (hl.and (pairwise_map.mp hne)).imp fun h => lt_of_le_of_ne h.1 h.2
  exact hperm.eq_of_pairwise (fun a b _ _ hab hba => absurd hab (lt_asymm hba)) hincr hl'

theorem mem_of_mem_firstPage (hx : x ∈ firstPage key k l) : x ∈ l :=
  (perm_sorted key l).mem_iff.mp (mem_of_mem_take hx)

theorem increasing_firstPage (hl : (l.map key).Nodup) :
    (firstPage key k l).Pairwise fun a b => key a < key b :=
  (increasing_insertionSort hl).sublist (take_sublist _ _)

theorem mem_firstPage_or_after (hl : (l.map key).Nodup) (hx : x ∈ l) : x ∈ firstPage key k l ∨
      (k ≤ (firstPage key k l).length ∧ ∀ y ∈ firstPage key k l, key y < key x) :=
  mem_take_or_after (increasing_insertionSort hl) ((perm_sorted key l).mem_iff.mpr hx) k

theorem firstPage_below {b : κ} (hk : k ≤ (l.filter fun a => key a < b).length) :
    k ≤ (firstPage key k l).length ∧ ∀ y ∈ firstPage key k l, key y < b := by
  generalize hsorted : (l.insertionSort fun a b => key a ≤ key b) = sorted
  have hperm : sorted.Perm l := hsorted ▸ perm_sorted key l
  have horder : sorted.Pairwise fun a b => key a ≤ key b := hsorted ▸ sorted_insertionSort key l
  have hcount : k ≤ (sorted.filter fun a => key a < b).length := by
    rw [(hperm.filter _).length_eq]
    exact hk
  have hlong : k ≤ sorted.length := hcount.trans (length_filter_le _ _)
  rw [firstPage, hsorted]
  refine ⟨by rw [length_take]; omega, ?_⟩
  intro y hy
  by_contra hge
  -- everything after `y` is at least its key, so the ones below lie before the cut
  rw [← take_append_drop k sorted] at horder
  have hrest : (sorted.drop k).filter (fun a => key a < b) = [] := by
    rw [filter_eq_nil_iff]
    intro z hz
    have := (pairwise_append.mp horder).2.2 y hy z hz
    simpa using (not_lt.mp hge).trans this
  have hfewer : ((sorted.take k).filter fun a => key a < b).length < (sorted.take k).length := by
    rw [length_filter_lt_length_iff_exists]
    exact ⟨y, hy, by simpa using hge⟩
  rw [← take_append_drop k sorted, filter_append, hrest, append_nil] at hcount
  rw [length_take] at hfewer
  omega

end Unheaded.Lib
