import Mathlib.Data.List.Induction

/-!
# Bounded stores

A store has `len` cells of one type, addressed from zero.
-/

namespace Unheaded.Lib

open List Function

structure Store (α : Type _) [Inhabited α] where
  len : Nat
  cell : Nat → α
  beyond : ∀ i, len ≤ i → cell i = default

namespace Store

variable {α : Type _} [Inhabited α]

@[ext]
theorem ext {s t : Store α} (lens : s.len = t.len) (cells : ∀ i < s.len, s.cell i = t.cell i) :
    s = t := by
  obtain ⟨n, f, hf⟩ := s
  obtain ⟨m, g, hg⟩ := t
  cases lens
  have same : f = g := by
    funext i
    by_cases inside : i < n
    · exact cells i inside
    · rw [hf i (Nat.not_lt.mp inside), hg i (Nat.not_lt.mp inside)]
  cases same
  rfl

/-- The store of length `n` whose cells are given by a function. -/
def ofFn (n : Nat) (f : Nat → α) : Store α where
  len := n
  cell i := if i < n then f i else default
  beyond _ h := if_neg (Nat.not_lt.mpr h)

variable (s : Store α)

def get? (i : Nat) : Option α :=
  if i < s.len then some (s.cell i) else none

def getD (i : Nat) (d : α) : α :=
  if i < s.len then s.cell i else d

def set (i : Nat) (v : α) : Store α :=
  if h : i < s.len then
    { len := s.len
      cell := update s.cell i v
      beyond := fun j hj => by
        rw [update_of_ne (Nat.ne_of_gt (Nat.lt_of_lt_of_le h hj)), s.beyond j hj] }
  else s

@[simp] theorem len_ofFn (n : Nat) (f : Nat → α) : (ofFn n f).len = n := rfl

variable {base i j : Nat}

theorem cell_ofFn (n : Nat) (f : Nat → α) (h : i < n) : (ofFn n f).cell i = f i :=
  if_pos h

variable (s : Store α)

@[simp] theorem len_set (i : Nat) (v : α) : (s.set i v).len = s.len := by
  unfold set
  split <;> rfl

theorem cell_set_self (h : i < s.len) (v : α) : (s.set i v).cell i = v := by
  rw [set, dif_pos h]
  exact update_self i v s.cell

theorem cell_set_of_ne (h : j ≠ i) (v : α) : (s.set i v).cell j = s.cell j := by
  unfold set
  split
  · exact update_of_ne h v s.cell
  · rfl

theorem set_of_not_lt (h : ¬ i < s.len) (v : α) : s.set i v = s := dif_neg h

theorem getD_of_lt (h : i < s.len) (d : α) : s.getD i d = s.cell i :=
  if_pos h

theorem get?_of_lt (h : i < s.len) : s.get? i = some (s.cell i) := if_pos h

theorem get?_of_not_lt (h : ¬ i < s.len) : s.get? i = none := if_neg h

theorem get?_eq_some {s : Store α} {v : α} : s.get? i = some v ↔ i < s.len ∧ s.cell i = v := by
  rw [get?]
  split
  next inside => simp [inside]
  next outside => simp [outside]

theorem cell_set (h : i < s.len) (j : Nat) (v : α) :
    (s.set i v).cell j = if j = i then v else s.cell j := by
  by_cases same : j = i
  · subst same
    rw [cell_set_self s h, if_pos rfl]
  · rw [cell_set_of_ne s same, if_neg same]

theorem getD_set_of_ne (other : j ≠ i) (v d : α) : (s.set i v).getD j d = s.getD j d := by
  rw [getD, getD, len_set, cell_set_of_ne s other]

theorem getD_set_self (inside : i < s.len) (v d : α) : (s.set i v).getD i d = v := by
  rw [getD_of_lt _ (by rwa [len_set]), cell_set_self s inside]

def blit (s : Store α) (base : Nat) : List α → Store α
  | [] => s
  | v :: vs => (s.set base v).blit (base + 1) vs

@[simp] theorem len_blit (base : Nat) (vs : List α) : (s.blit base vs).len = s.len := by
  induction vs generalizing s base with
  | nil => rfl
  | cons v vs ih => rw [blit, ih, len_set]

theorem cell_blit_of_lt (vs : List α) (h : i < base) : (s.blit base vs).cell i = s.cell i := by
  induction vs generalizing s base with
  | nil => rfl
  | cons v vs ih =>
    rw [blit, ih _ (Nat.lt_succ_of_lt h), cell_set_of_ne s (Nat.ne_of_lt h)]

theorem cell_blit (s : Store α) {vs : List α} {v : α} (fits : base + vs.length ≤ s.len)
    (get : vs[i]? = some v) : (s.blit base vs).cell (base + i) = v := by
  induction vs generalizing s base i with
  | nil => cases get
  | cons u vs ih =>
    rw [length_cons] at fits
    cases i with
    | zero =>
      cases get
      rw [Nat.add_zero, blit, cell_blit_of_lt _ _ (Nat.lt_succ_self base),
        cell_set_self s (by omega)]
    | succ i =>
      have there : base + (i + 1) = base + 1 + i := by omega
      rw [there]
      exact ih (s.set base u) (by rw [len_set]; omega) get

theorem cell_blit_of_ge (s : Store α) (vs : List α) (h : base + vs.length ≤ i) :
    (s.blit base vs).cell i = s.cell i := by
  induction vs generalizing s base with
  | nil => rfl
  | cons v vs ih =>
    rw [length_cons] at h
    rw [blit, ih _ (by omega), cell_set_of_ne s (by omega)]

theorem cell_blit_of_outside {vs : List α} (h : i < base ∨ base + vs.length ≤ i) :
    (s.blit base vs).cell i = s.cell i :=
  h.elim (cell_blit_of_lt s vs) (cell_blit_of_ge s vs)

section Copy

variable {ι : Type _} (src dst : ι → Nat) (d : α)

variable (s : Store α)

def copyCells (cells : List ι) : Store α :=
  cells.foldl (fun s c => s.set (dst c) (s.getD (src c) d)) s

theorem copyCells_append (first rest : List ι) :
    s.copyCells src dst d (first ++ rest) = (s.copyCells src dst d first).copyCells src dst d rest :=
  foldl_append

@[simp] theorem len_copyCells (cells : List ι) : (s.copyCells src dst d cells).len = s.len := by
  induction cells generalizing s with
  | nil => rfl
  | cons c cells ih => exact (ih _).trans (len_set s _ _)

variable {src dst d}

variable {cells : List ι}

variable (s : Store α)

theorem getD_copyCells_of_ne {i : Nat} (outside : ∀ c ∈ cells, i ≠ dst c) :
    (s.copyCells src dst d cells).getD i d = s.getD i d := by
  induction cells generalizing s with
  | nil => rfl
  | cons c cells ih =>
    have rest := ih (s.set (dst c) (s.getD (src c) d)) fun e mem =>
      outside e (mem_cons_of_mem c mem)
    exact rest.trans (getD_set_of_ne s (outside c mem_cons_self) _ _)

theorem copyCells_of_outside (outside : ∀ c ∈ cells, ¬ dst c < s.len) :
    s.copyCells src dst d cells = s := by
  induction cells with
  | nil => rfl
  | cons c cells ih =>
    change (s.set (dst c) (s.getD (src c) d)).copyCells src dst d cells = s
    rw [set_of_not_lt s (outside c mem_cons_self)]
    exact ih fun e mem => outside e (mem_cons_of_mem c mem)

theorem getD_copyCells (one : ∀ a ∈ cells, ∀ b ∈ cells, dst a = dst b → src a = src b)
    (kept : ∀ a ∈ cells, ∀ b ∈ cells, src a = dst b → src b = src a) {c : ι} (copied : c ∈ cells)
    (inside : dst c < s.len) : (s.copyCells src dst d cells).getD (dst c) d = s.getD (src c) d := by
  induction cells using List.reverseRecOn generalizing c with
  | nil => cases copied
  | append_singleton cells e ih =>
    have before {c : ι} (copied : c ∈ cells) (inside : dst c < s.len) :
        (s.copyCells src dst d cells).getD (dst c) d = s.getD (src c) d :=
      ih (fun a ha b hb => one a (mem_append_left _ ha) b (mem_append_left _ hb))
        (fun a ha b hb => kept a (mem_append_left _ ha) b (mem_append_left _ hb))
        copied inside
    have last : e ∈ cells ++ [e] := mem_append_right _ mem_cons_self
    rw [copyCells_append]
    change ((s.copyCells src dst d cells).set (dst e) _).getD (dst c) d = _
    by_cases same : dst c = dst e
    · rw [same, getD_set_self _ (by rw [len_copyCells, ← same]; exact inside),
        one c copied e last same]
      -- the source of the last copy, written before or not
      by_cases written : ∃ a ∈ cells, src e = dst a
      · obtain ⟨a, mem, source⟩ := written
        have origin := kept e last a (mem_append_left _ mem) source
        by_cases there : dst a < s.len
        · rw [source, before mem there, origin, source]
        · rw [source, getD, getD, len_copyCells, if_neg there, if_neg there]
      · exact getD_copyCells_of_ne s fun a mem source => written ⟨a, mem, source⟩
    · rw [getD_set_of_ne _ same]
      rcases mem_append.mp copied with earlier | now
      · exact before earlier inside
      · rw [mem_singleton.mp now] at same
        exact absurd rfl same

end Copy

/-! ## What a run leaves alone

Two stores of one length that differ on the cells of a set only.  The relation
composes along a run, so a bound on the writes of each step bounds the writes
of them all.
-/

/-- `t` is `s` outside of `P`. -/
structure Within (P : Nat → Prop) (s t : Store α) : Prop where
  len : t.len = s.len
  cells : ∀ i, ¬ P i → t.cell i = s.cell i

namespace Within

variable {P Q : Nat → Prop} {s t u : Store α}

theorem refl (P : Nat → Prop) (s : Store α) : Within P s s := ⟨rfl, fun _ _ => rfl⟩

theorem trans (first : Within P s t) (second : Within P t u) : Within P s u :=
  ⟨second.len.trans first.len, fun i outside =>
    (second.cells i outside).trans (first.cells i outside)⟩

theorem mono (within : Within P s t) (wider : ∀ i, P i → Q i) : Within Q s t :=
  ⟨within.len, fun i outside => within.cells i (fun inside => outside (wider i inside))⟩

theorem set (within : Within P s t) {i : Nat} (inside : P i) (v : α) : Within P s (t.set i v) := by
  refine ⟨(len_set t i v).trans within.len, fun j outside => ?_⟩
  have other : j ≠ i := by
    rintro rfl
    exact outside inside
  rw [cell_set_of_ne t other]
  exact within.cells j outside

theorem getD (within : Within P s t) {i : Nat} (outside : ¬ P i) (d : α) :
    t.getD i d = s.getD i d := by
  rw [Store.getD, Store.getD, within.len, within.cells i outside]

end Within

end Store

end Unheaded.Lib
