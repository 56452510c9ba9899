import Mathlib.Data.List.Basic

/-!
# Maps with a capacity

A finite map that refuses a new key once it is full. An update of a key that is already there
always succeeds.
-/

namespace Unheaded.Lib

open List Option

/-- A map of at most `capacity` entries. -/
structure BoundedMap (κ ν : Type) (capacity : Nat) where
  entries : List (κ × ν)
  bounded : entries.length ≤ capacity

namespace BoundedMap

variable {κ ν : Type} [DecidableEq κ] {capacity : Nat}

def empty : BoundedMap κ ν capacity where
  entries := []
  bounded := Nat.zero_le capacity

variable (m : BoundedMap κ ν capacity)

def get (k : κ) : Option ν := m.entries.lookup k

def replace (entries : List (κ × ν)) (k : κ) (v : ν) : List (κ × ν) :=
  entries.map fun e => if e.1 = k then (k, v) else e

/-- Insert or replace; `none` where the map is full and the key is not in it. -/
def update (k : κ) (v : ν) : Option (BoundedMap κ ν capacity) :=
  if (m.entries.lookup k).isSome then
    some ⟨replace m.entries k v, by rw [replace, length_map]; exact m.bounded⟩
  else if room : m.entries.length < capacity then
    some ⟨(k, v) :: m.entries, room⟩
  else none

theorem lookup_replace (entries : List (κ × ν)) (k : κ) (v : ν) (j : κ) :
    (replace entries k v).lookup j =
      if j = k then (entries.lookup k).map (fun _ => v) else entries.lookup j := by
  induction entries with
  | nil =>
    split
    · rfl
    · rfl
  | cons e rest ih =>
    obtain ⟨i, x⟩ := e
    rw [replace, map_cons]
    by_cases same : i = k
    · subst same
      rw [if_pos rfl, lookup_cons, lookup_cons, lookup_cons]
      by_cases here : j = i
      · subst here
        simp
      · have other : (j == i) = false := beq_eq_false_iff_ne.mpr here
        rw [other]
        rw [replace] at ih
        simp [ih, here]
    · rw [if_neg same, lookup_cons, lookup_cons, lookup_cons]
      by_cases here : j = i
      · subst here
        simp [same]
      · have other : (j == i) = false := beq_eq_false_iff_ne.mpr here
        have apart : (k == i) = false := beq_eq_false_iff_ne.mpr (Ne.symm same)
        rw [other, apart]
        exact ih

variable {m : BoundedMap κ ν capacity} {k : κ} {v x : ν}

theorem get_of_update {m' : BoundedMap κ ν capacity} (updated : m.update k v = some m') (j : κ) :
    m'.get j = if j = k then some v else m.get j := by
  unfold update at updated
  split at updated
  next present =>
    cases updated
    obtain ⟨x, held⟩ := isSome_iff_exists.mp present
    unfold get
    rw [lookup_replace, held, map_some]
  next absent =>
    split at updated <;> cases updated
    next room =>
      unfold get
      rw [lookup_cons]
      by_cases here : j = k
      · rw [if_pos here, beq_iff_eq.mpr here]
      · rw [if_neg here, beq_eq_false_iff_ne.mpr here]

theorem get_getD_update_of_ne (m : BoundedMap κ ν capacity) {j : κ} (other : j ≠ k) (v : ν) :
    ((m.update k v).getD m).get j = m.get j := by
  cases updated : m.update k v with
  | none => rfl
  | some m' =>
    rw [getD_some, get_of_update updated, if_neg other]

theorem update_of_held (held : m.get k = some x) (v : ν) : ∃ m', m.update k v = some m' := by
  unfold get at held
  unfold update
  rw [if_pos (isSome_of_eq_some held)]
  exact ⟨_, rfl⟩

theorem get_update_of_held (held : m.get k = some x) (v : ν) :
    ((m.update k v).getD m).get k = some v := by
  obtain ⟨m', updated⟩ := update_of_held held v
  rw [updated, getD_some, get_of_update updated, if_pos rfl]

theorem eq_of_get_update (found : ((m.update k v).getD m).get k = some x) : x = v := by
  cases updated : m.update k v with
  | none =>
    rw [updated, getD_none] at found
    obtain ⟨m', taken⟩ := update_of_held found v
    simp [updated] at taken
  | some m' =>
    rw [updated, getD_some, get_of_update updated, if_pos rfl] at found
    exact (some.inj found).symm

end BoundedMap

end Unheaded.Lib
