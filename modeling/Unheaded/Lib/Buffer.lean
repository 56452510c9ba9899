import Mathlib.Data.List.Basic

/-!
# Writing into a buffer

Cell-by-cell writes and forward copies inside a list of fixed length.
-/

namespace Unheaded.Lib

open List

variable {α : Type _}

/-- Write `xs` from cell `off` on, one cell after the other. -/
def writeFrom (b : List α) (off : Nat) : List α → List α
  | [] => b
  | x :: xs => writeFrom (b.set off x) (off + 1) xs

/-- Copy `n` cells from `src` to `dst`, the first cell first. -/
def copyForward (b : List α) (dst src : Nat) : Nat → List α
  | 0 => b
  | n + 1 =>
    let front := copyForward b dst src n
    match front[src + n]? with
    | some x => front.set (dst + n) x
    | none => front

@[simp] theorem length_writeFrom (b : List α) (off : Nat) (xs : List α) :
    (writeFrom b off xs).length = b.length := by
  induction xs generalizing b off with
  | nil => rfl
  | cons x xs ih => rw [writeFrom, ih, length_set]

variable {dst i k n off src : Nat} {back front xs : List α}

variable (b : List α)

theorem getElem?_writeFrom_of_outside (outside : i < off ∨ off + xs.length ≤ i) :
    (writeFrom b off xs)[i]? = b[i]? := by
  induction xs generalizing b off with
  | nil => rfl
  | cons x xs ih =>
    rw [length_cons] at outside
    have other : off ≠ i := by omega
    have later : i < off + 1 ∨ off + 1 + xs.length ≤ i := by omega
    rw [writeFrom, ih (b.set off x) later, getElem?_set_ne other]

theorem getElem?_writeFrom (inside : k < xs.length) (fits : off + xs.length ≤ b.length) :
    (writeFrom b off xs)[off + k]? = xs[k]? := by
  induction xs generalizing b off k with
  | nil => cases inside
  | cons x xs ih =>
    rw [length_cons] at inside fits
    cases k with
    | zero =>
      have before : off + 0 < off + 1 ∨ off + 1 + xs.length ≤ off + 0 := by omega
      have here : off < b.length := by omega
      rw [writeFrom, getElem?_writeFrom_of_outside (b.set off x) before, Nat.add_zero,
        getElem?_set_self here, getElem?_cons_zero]
    | succ k =>
      have room : off + 1 + xs.length ≤ (b.set off x).length := by
        rw [length_set]
        omega
      have place : off + (k + 1) = off + 1 + k := by omega
      rw [writeFrom, place, ih (b.set off x) (by omega) room, getElem?_cons_succ]

theorem writeFrom_eq (fits : off + xs.length ≤ b.length) :
    writeFrom b off xs = b.take off ++ xs ++ b.drop (off + xs.length) := by
  have front : (b.take off).length = off := length_take_of_le (by omega)
  apply ext_getElem?
  intro i
  by_cases before : i < off
  · rw [getElem?_writeFrom_of_outside b (.inl before), append_assoc,
      getElem?_append_left (by omega), getElem?_take_of_lt before]
  · by_cases inside : i < off + xs.length
    · obtain ⟨k, rfl⟩ := Nat.exists_eq_add_of_le (Nat.le_of_not_lt before)
      have short : k < xs.length := by omega
      rw [getElem?_writeFrom b short fits, append_assoc,
        getElem?_append_right (by omega), front, Nat.add_sub_cancel_left,
        getElem?_append_left short]
    · have reaches : (b.take off ++ xs).length ≤ i := by
        rw [length_append]
        omega
      rw [getElem?_writeFrom_of_outside b (.inr (Nat.le_of_not_lt inside)),
        getElem?_append_right reaches, length_append, getElem?_drop]
      congr 1
      omega

theorem writeFrom_append_left (fits : off + xs.length ≤ front.length) :
    writeFrom (front ++ back) off xs = writeFrom front off xs ++ back := by
  have whole : off + xs.length ≤ (front ++ back).length := by
    rw [length_append]
    omega
  rw [writeFrom_eq _ whole, writeFrom_eq _ fits, take_append_of_le_length (by omega),
    drop_append_of_le_length fits, append_assoc _ _ back]

theorem writeFrom_append_right (place : front.length = off) (fits : xs.length ≤ back.length) :
    writeFrom (front ++ back) off xs = front ++ xs ++ back.drop xs.length := by
  subst place
  have whole : front.length + xs.length ≤ (front ++ back).length := by
    rw [length_append]
    omega
  rw [writeFrom_eq _ whole, take_left, drop_append, drop_eq_nil_of_le (by omega),
    nil_append, Nat.add_sub_cancel_left]

theorem writeFrom_front {b : List α} (fits : xs.length ≤ b.length) :
    writeFrom b 0 xs = xs ++ b.drop xs.length := by
  rw [writeFrom_eq b (by omega), take_zero, nil_append, Nat.zero_add]

@[simp] theorem length_copyForward (dst src n : Nat) :
    (copyForward b dst src n).length = b.length := by
  induction n with
  | zero => rfl
  | succ n ih =>
    rw [copyForward]
    split
    · rw [length_set, ih]
    · exact ih

theorem getElem?_copyForward_of_outside (outside : i < dst ∨ dst + n ≤ i) :
    (copyForward b dst src n)[i]? = b[i]? := by
  induction n with
  | zero => rfl
  | succ n ih =>
    have earlier : (copyForward b dst src n)[i]? = b[i]? := ih (by omega)
    have other : dst + n ≠ i := by omega
    rw [copyForward]
    split
    · rw [getElem?_set_ne other, earlier]
    · exact earlier

theorem getElem?_copyForward (forward : dst ≤ src) (fits : src + n ≤ b.length) (inside : k < n) :
    (copyForward b dst src n)[dst + k]? = b[src + k]? := by
  induction n with
  | zero => cases inside
  | succ n ih =>
    have fresh : (copyForward b dst src n)[src + n]? = b[src + n]? :=
      getElem?_copyForward_of_outside b (.inr (by omega))
    have here : src + n < b.length := by omega
    rw [copyForward]
    rw [fresh, getElem?_eq_getElem here]
    rcases Nat.lt_or_eq_of_le (Nat.le_of_lt_succ inside) with before | rfl
    · have other : dst + n ≠ dst + k := by omega
      rw [getElem?_set_ne other, ih (by omega) before]
    · have room : dst + k < (copyForward b dst src k).length := by
        rw [length_copyForward]
        omega
      rw [getElem?_set_self room, getElem?_eq_getElem here]

theorem copyForward_eq (forward : dst ≤ src) (fits : src + n ≤ b.length) :
    copyForward b dst src n = writeFrom b dst ((b.drop src).take n) := by
  have size : ((b.drop src).take n).length = n := by
    rw [length_take, length_drop]
    omega
  apply ext_getElem?
  intro i
  by_cases outside : i < dst ∨ dst + n ≤ i
  · rw [getElem?_copyForward_of_outside b outside,
      getElem?_writeFrom_of_outside b (by rw [size]; exact outside)]
  · obtain ⟨k, rfl⟩ := Nat.exists_eq_add_of_le (Nat.le_of_not_lt (not_or.mp outside).1)
    have inside : k < n := by omega
    rw [getElem?_copyForward b forward fits inside,
      getElem?_writeFrom b (by rw [size]; exact inside) (by rw [size]; omega),
      getElem?_take_of_lt inside, getElem?_drop]

end Unheaded.Lib
