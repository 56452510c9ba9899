import Mathlib.Data.List.Basic

/-!
# Layouts of byte strings

`Holds b off x` says that `x` stands in `b` at offset `off`. A record written as a concatenation
is taken apart by `left` and `right`, field by field.
-/

namespace Unheaded.Lib

open List

variable {α : Type _}

/-- The list `x` stands in `b` at offset `off`. -/
def Holds (b : List α) (off : Nat) (x : List α) : Prop := x <+: b.drop off

namespace Holds

variable {b x y : List α} {off : Nat}

theorem self (b : List α) : Holds b 0 b := prefix_refl b

theorem left (whole : Holds b off (x ++ y)) : Holds b off x := (prefix_append x y).trans whole

theorem right (whole : Holds b off (x ++ y)) : Holds b (off + x.length) y := by
  obtain ⟨rest, eq⟩ := whole
  refine ⟨rest, ?_⟩
  rw [← drop_drop, ← eq, List.append_assoc, drop_left]

theorem right_at (whole : Holds b off (x ++ y)) {k : Nat} (next : off + x.length = k) :
    Holds b k y := by
  rw [← next]
  exact whole.right

theorem head {a : α} (whole : Holds b off (a :: x)) : b[off]? = some a := by
  obtain ⟨rest, eq⟩ := whole
  have first := congrArg (fun l => l[0]?) eq
  simp only [List.getElem?_drop] at first
  exact first.symm

theorem tail {a : α} (whole : Holds b off (a :: x)) : Holds b (off + 1) x :=
  right (x := [a]) whole

theorem getD (holds : Holds b off x) {i : Nat} (inside : i < x.length) (d : α) :
    b.getD (off + i) d = x.getD i d := by
  obtain ⟨rest, eq⟩ := holds
  rw [getD_eq_getElem?_getD, ← List.getElem?_drop, ← eq, List.getElem?_append_left inside,
    ← getD_eq_getElem?_getD]

theorem take (holds : Holds b off x) : (b.drop off).take x.length = x :=
  (prefix_iff_eq_take.mp holds).symm

theorem field {β : Type _} {f : β → List α} {l : List β} {w : Nat}
    (width : ∀ x ∈ l, (f x).length = w) (holds : Holds b off (l.flatMap f)) {i : Nat}
    (inside : i < l.length) : Holds b (off + w * i) (f (l.get ⟨i, inside⟩)) := by
  induction l generalizing off i with
  | nil => exact absurd inside (Nat.not_lt_zero i)
  | cons x l ih =>
    cases i with
    | zero => exact holds.left
    | succ i =>
      have rest := ih (fun y mem => width y (mem_cons_of_mem x mem))
        (holds.right_at (by rw [width x mem_cons_self])) (Nat.lt_of_succ_lt_succ inside)
      rw [Nat.mul_succ, Nat.add_comm (w * i), ← Nat.add_assoc]
      exact rest

end Holds

/-- `b` with `x` copied over it at offset `off`; `none` where it does not fit. -/
def copyInto (b : List α) (off : Nat) (x : List α) : Option (List α) :=
  if off + x.length ≤ b.length then some (b.take off ++ x ++ b.drop (off + x.length)) else none

/-- `front`, then `z` up to length `n`. -/
def filled (n : Nat) (z : α) (front : List α) : List α :=
  front ++ replicate (n - front.length) z

section Filled

variable {n off gap : Nat} {z : α} {front x : List α}

theorem filled_of_length (full : front.length = n) : filled n z front = front := by
  rw [filled, full, Nat.sub_self, List.replicate_zero, append_nil]

theorem filled_append_replicate (fits : front.length + gap ≤ n) :
    filled n z (front ++ replicate gap z) = filled n z front := by
  have rest : gap + (n - (front.length + gap)) = n - front.length := by omega
  rw [filled, length_append, length_replicate, List.append_assoc, ← replicate_add, rest, filled]

theorem copyInto_filled (next : front.length = off) (fits : off + x.length ≤ n) :
    copyInto (filled n z front) off x = some (filled n z (front ++ x)) := by
  have inside : off + x.length ≤ (filled n z front).length := by
    rw [filled, length_append, length_replicate]
    omega
  have before : (filled n z front).take off = front := by
    rw [filled, ← next, take_left]
  have behind : (filled n z front).drop (off + x.length) =
      replicate (n - (front ++ x).length) z := by
    rw [filled, drop_append, drop_of_length_le (by omega), nil_append,
      drop_replicate, length_append]
    congr 1
    omega
  rw [copyInto, if_pos inside, before, behind, filled]

theorem foldlM_copyInto {β : Type _} {f : β → α} {place : β → Nat} {l : List β}
    (next : l.map place = List.range' front.length l.length) (fits : front.length + l.length ≤ n) :
    l.foldlM (fun b i => copyInto b (place i) [f i]) (filled n z front) =
      some (filled n z (front ++ l.map f)) := by
  induction l generalizing front with
  | nil =>
    rw [map_nil, append_nil]
    rfl
  | cons i l ih =>
    rw [map_cons, length_cons, range'_succ, cons_eq_cons] at next
    rw [length_cons] at fits
    have longer : (front ++ [f i]).length = front.length + 1 := length_append
    have one : copyInto (filled n z front) (place i) [f i] = some (filled n z (front ++ [f i])) :=
      copyInto_filled next.1.symm (by rw [length_singleton]; omega)
    rw [map_cons, append_cons, foldlM_cons, one]
    apply ih
    · rw [longer]
      exact next.2
    · omega

end Filled

theorem take_eq_map_getD {b : List α} {n : Nat} (long : n ≤ b.length) (d : α) :
    b.take n = (range n).map (fun i => b.getD i d) := by
  apply ext_getElem?
  intro i
  by_cases inside : i < n
  · have here : i < b.length := Nat.lt_of_lt_of_le inside long
    rw [List.getElem?_take_of_lt inside, List.getElem?_map, List.getElem?_range inside]
    simp [List.getElem?_eq_getElem here]
  · rw [List.getElem?_take_eq_none (Nat.le_of_not_lt inside)]
    symm
    rw [List.getElem?_eq_none_iff, length_map, length_range]
    exact Nat.le_of_not_lt inside

/-! ## Code segments

`Seg code pos seg` says that the list `seg` stands in `code` at position `pos`.
-/

variable {α : Type _}

def Seg (code : List α) : Nat → List α → Prop
  | _, [] => True
  | pos, w :: ws => code[pos]? = some w ∧ Seg code (pos + 1) ws

theorem seg_append (code : List α) (pos : Nat) (ws vs : List α) :
    Seg code pos (ws ++ vs) ↔ Seg code pos ws ∧ Seg code (pos + ws.length) vs := by
  induction ws generalizing pos with
  | nil => simp [Seg]
  | cons w ws ih =>
    rw [List.cons_append, Seg, Seg, ih, and_assoc, length_cons, Nat.add_assoc, Nat.add_comm 1]

def starts : Nat → List (List α) → List Nat
  | n, [] => [n]
  | n, b :: bs => n :: starts (n + b.length) bs

theorem length_starts (n : Nat) (bs : List (List α)) : (starts n bs).length = bs.length + 1 := by
  induction bs generalizing n with
  | nil => rfl
  | cons b bs ih => rw [starts, length_cons, ih, length_cons]

variable {j n p : Nat} {bs : List (List α)}

theorem starts_succ {b : List α} (here : (starts n bs)[j]? = some p) (block : bs[j]? = some b) :
    (starts n bs)[j + 1]? = some (p + b.length) := by
  induction bs generalizing n j with
  | nil => cases block
  | cons c bs ih =>
    cases j with
    | zero =>
      cases here
      cases block
      cases bs <;> rfl
    | succ j => exact ih here block

theorem starts_le (here : (starts n bs)[j]? = some p) : p ≤ n + bs.flatten.length := by
  induction bs generalizing n j with
  | nil =>
    cases j with
    | zero =>
      cases here
      exact Nat.le_add_right p _
    | succ j => cases here
  | cons b bs ih =>
    cases j with
    | zero =>
      cases here
      exact Nat.le_add_right p _
    | succ j =>
      have later := ih here
      rw [flatten_cons, length_append]
      omega

theorem block_of_flatten {P : Nat → List α → Prop}
    (split : ∀ n as bs, P n (as ++ bs) → P n as ∧ P (n + as.length) bs) {b : List α}
    (whole : P n bs.flatten) (here : (starts n bs)[j]? = some p) (block : bs[j]? = some b) :
    P p b := by
  induction bs generalizing n j with
  | nil => cases block
  | cons c bs ih =>
    obtain ⟨first, rest⟩ := split n c bs.flatten whole
    cases j with
    | zero =>
      cases here
      cases block
      exact first
    | succ j => exact ih rest here block

end Unheaded.Lib
