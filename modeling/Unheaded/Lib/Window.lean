import Mathlib.Data.List.Basic
import Mathlib.Data.List.Induction
import Mathlib.Data.Nat.ModEq
import Mathlib.Tactic.Ring

/-!
# Windows of a circle of slots

`Window slots n start items` says that the slots from `start` on, counted modulo `n`, hold `items`
in order.
-/

namespace Unheaded.Lib

open List

variable {α : Type} {slots : List (Option α)} {n start : Nat} {items front back : List α} {a b : α}

/-- Slot `(start + i) % n` holds item `i`. -/
def Window (slots : List (Option α)) (n start : Nat) (items : List α) : Prop :=
  ∀ i a, items[i]? = some a → slots[(start + i) % n]? = some (some a)

theorem add_mod_inj {i j : Nat} (hi : i < n) (hj : j < n)
    (heq : (start + i) % n = (start + j) % n) : i = j := by
  have hmod : i ≡ j [MOD n] := Nat.ModEq.add_left_cancel' start heq
  exact Nat.ModEq.eq_of_lt_of_lt hmod hi hj

theorem start_of_stop {k stop : Nat} (hk : k ≤ n) (hstop : (start + k) % n = stop) :
    (stop + n - k) % n = start % n := by
  have hle : k ≤ stop + n := by omega
  have hback : stop + n - k + k ≡ start + k [MOD n] := by
    rw [Nat.sub_add_cancel hle, ← hstop]
    exact (Nat.add_mod_right _ _).trans (Nat.mod_mod _ _)
  exact Nat.ModEq.add_right_cancel' k hback

theorem mapM_none {β γ : Type} {l : List β} {read : β → Option γ} {b : β} (mem : b ∈ l)
    (fails : read b = none) : l.mapM read = none := by
  induction l with
  | nil => cases mem
  | cons c l ih =>
    rw [mapM_cons]
    rcases mem_cons.mp mem with rfl | later
    · rw [fails]
      rfl
    · rw [ih later]
      cases read c <;> rfl

namespace Window

theorem nil (slots : List (Option α)) (n start : Nat) : Window slots n start [] := by
  intro i a hi
  simp at hi

theorem of_mod {start' : Nat} (h : Window slots n start items) (heq : start' % n = start % n) :
    Window slots n start' items := by
  intro i a hi
  have hslot := h i a hi
  rwa [← Nat.mod_add_mod, ← heq, Nat.mod_add_mod] at hslot

theorem at_front (h : Window slots n start (front ++ a :: back)) :
    slots[(start + front.length) % n]? = some (some a) :=
  h front.length a (by simp)

theorem lt_length (h : Window slots n start (front ++ a :: back)) :
    (start + front.length) % n < slots.length := by
  obtain ⟨hlt, -⟩ := List.getElem?_eq_some_iff.mp h.at_front
  exact hlt

theorem at_start (h : Window slots n start (a :: items)) : slots[start % n]? = some (some a) :=
  h 0 a rfl

theorem slot_lt {i : Nat} (h : Window slots n start items) (hi : i < items.length) :
    (start + i) % n < slots.length := by
  have hslot := h i items[i] (List.getElem?_eq_getElem hi)
  obtain ⟨hlt, -⟩ := List.getElem?_eq_some_iff.mp hslot
  exact hlt

theorem tail (h : Window slots n start (a :: items)) : Window slots n (start + 1) items := by
  intro i b hi
  have hslot := h (i + 1) b (by simpa using hi)
  rwa [← Nat.add_assoc, Nat.add_right_comm] at hslot

theorem append (h : Window slots n start items) (more : List (Option α)) :
    Window (slots ++ more) n start items := by
  intro i a hi
  have hslot := h i a hi
  obtain ⟨hlt, -⟩ := List.getElem?_eq_some_iff.mp hslot
  rw [List.getElem?_append_left hlt]
  exact hslot

theorem set_beyond {k : Nat} (h : Window slots n start items) (hk : items.length ≤ k) (hn : k < n)
    (x : Option α) : Window (slots.set ((start + k) % n) x) n start items := by
  intro i a hi
  obtain ⟨hlt, -⟩ := List.getElem?_eq_some_iff.mp hi
  have hne : (start + k) % n ≠ (start + i) % n := by
    intro heq
    have := add_mod_inj hn (by omega) heq
    omega
  rw [List.getElem?_set_ne hne]
  exact h i a hi

theorem concat (h : Window slots n start items) (hn : items.length < n)
    (hlt : (start + items.length) % n < slots.length) (a : α) :
    Window (slots.set ((start + items.length) % n) (some a)) n start (items ++ [a]) := by
  intro i b hi
  by_cases hold : i < items.length
  · rw [List.getElem?_append_left hold] at hi
    exact h.set_beyond (Nat.le_refl _) hn (some a) i b hi
  · obtain ⟨hle, -⟩ := List.getElem?_eq_some_iff.mp hi
    have hlast : i = items.length := by
      simp only [length_append, length_singleton] at hle
      omega
    subst hlast
    rw [List.getElem?_concat_length] at hi
    rw [List.getElem?_set_self hlt, hi]

theorem set_item (h : Window slots n start (front ++ a :: back))
    (hn : (front ++ a :: back).length ≤ n) (b : α) :
    Window (slots.set ((start + front.length) % n) (some b)) n start (front ++ b :: back) := by
  intro i c hi
  by_cases hat : i = front.length
  · subst hat
    have hc : b = c := by simpa using hi
    rw [List.getElem?_set_self h.lt_length, hc]
  · obtain ⟨hlt, -⟩ := List.getElem?_eq_some_iff.mp hi
    have hlen : (front ++ b :: back).length = (front ++ a :: back).length := by simp
    have hmid : front.length < (front ++ a :: back).length := by simp
    have hne : (start + front.length) % n ≠ (start + i) % n := by
      intro heq
      exact hat (add_mod_inj (by omega) (by omega) heq).symm
    rw [List.getElem?_set_ne hne]
    apply h i c
    rcases Nat.lt_or_gt_of_ne hat with hbefore | hafter
    · rwa [List.getElem?_append_left hbefore] at hi ⊢
    · obtain ⟨d, rfl⟩ : ∃ d, i = front.length + (d + 1) := ⟨i - front.length - 1, by omega⟩
      rw [List.getElem?_append_right (by omega)] at hi ⊢
      simpa using hi

theorem mapM_range (h : Window slots n start items) {read : Nat → Option (Option α)}
    (reads : ∀ i < items.length, read i = slots[(start + i) % n]?) :
    (range items.length).mapM read = some (items.map some) := by
  induction items using List.reverseRecOn with
  | nil => simp
  | append_singleton items a ih =>
    have hinit : Window slots n start items := by
      intro i b hi
      obtain ⟨hlt, -⟩ := List.getElem?_eq_some_iff.mp hi
      exact h i b (by rw [List.getElem?_append_left hlt]; exact hi)
    rw [length_append, length_singleton] at reads ⊢
    rw [range_succ, mapM_append, ih hinit fun i hi => reads i (by omega)]
    simp [reads items.length (by omega), h.at_front]

end Window

/-! ## Windows of a history

A history is cut into windows of `n` entries, one after the other.
`sinceLast n l` is the window that is still open.
-/

section History

variable {α : Type _}

/-- The entries of `l` after its last whole window of `n`. -/
def sinceLast (n : Nat) (l : List α) : List α := l.drop (l.length / n * n)

@[simp] theorem sinceLast_nil (n : Nat) : sinceLast n ([] : List α) = [] := by
  simp [sinceLast]

theorem length_sinceLast (n : Nat) (l : List α) : (sinceLast n l).length = l.length % n := by
  have split := Nat.div_add_mod l.length n
  rw [Nat.mul_comm] at split
  rw [sinceLast, length_drop]
  omega

theorem sinceLast_open {n : Nat} {l : List α} (x : α) (more : l.length % n + 1 < n) :
    ¬ n ∣ l.length + 1 ∧ sinceLast n (l ++ [x]) = sinceLast n l ++ [x] := by
  have unfinished : ¬ n ∣ l.length + 1 := by
    intro whole
    have zero := Nat.mod_eq_zero_of_dvd whole
    rw [Nat.add_mod, Nat.mod_eq_of_lt (by omega : 1 < n), Nat.mod_eq_of_lt more] at zero
    omega
  have same : (l.length + 1) / n = l.length / n := by
    rw [Nat.succ_div, if_neg unfinished, Nat.add_zero]
  have inside := Nat.div_mul_le_self l.length n
  refine ⟨unfinished, ?_⟩
  rw [sinceLast, sinceLast, length_append, length_singleton, same, drop_append_of_le_length inside]

theorem sinceLast_full {n : Nat} {l : List α} (x : α) (full : l.length % n + 1 = n) :
    n ∣ l.length + 1 ∧ sinceLast n (l ++ [x]) = [] ∧
      (l ++ [x]).drop (l.length + 1 - n) = sinceLast n l ++ [x] := by
  have split := Nat.div_add_mod l.length n
  rw [Nat.mul_comm] at split
  have start : l.length + 1 - n = l.length / n * n := by omega
  have inside := Nat.div_mul_le_self l.length n
  have whole : n ∣ l.length + 1 := by
    refine ⟨l.length / n + 1, ?_⟩
    rw [Nat.mul_succ, Nat.mul_comm]
    omega
  refine ⟨whole, ?_, ?_⟩
  · have closed := length_sinceLast n (l ++ [x])
    rw [length_append, length_singleton, Nat.mod_eq_zero_of_dvd whole] at closed
    exact length_eq_zero_iff.mp closed
  · rw [start, sinceLast, drop_append_of_le_length inside]

end History

end Unheaded.Lib
