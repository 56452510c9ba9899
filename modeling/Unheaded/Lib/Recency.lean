import Mathlib.Data.List.Nodup

/-!
# Least recently used

The keys of a bounded cache in the order of their last use, the latest at the end.
-/

namespace Unheaded.Lib

open List

variable {α : Type _} [DecidableEq α] {cap : Nat} {order : List α} {a p v : α}

/-- The key that gives way when `p` is used. -/
def evicted (cap : Nat) (order : List α) (p : α) : Option α :=
  if p ∉ order ∧ cap ≤ order.length then order.head? else none

def use (cap : Nat) (order : List α) (p : α) : List α :=
  (if p ∉ order ∧ cap ≤ order.length then order.tail else order).erase p ++ [p]

theorem use_of_mem (mem : p ∈ order) : use cap order p = order.erase p ++ [p] := by
  rw [use, if_neg fun new => new.1 mem]

theorem use_of_room (new : p ∉ order) (room : order.length < cap) : use cap order p = order ++ [p] := by
  rw [use, if_neg fun full => Nat.not_le.mpr room full.2, erase_of_not_mem new]

theorem use_of_full (new : p ∉ order) (full : cap ≤ order.length) :
    use cap order p = order.tail ++ [p] := by
  rw [use, if_pos ⟨new, full⟩, erase_of_not_mem fun mem => new (mem_of_mem_tail mem)]

theorem mem_use : a ∈ use cap order p → a = p ∨ a ∈ order := by
  intro mem
  rcases mem_append.mp mem with kept | last
  · refine .inr ?_
    have kept := mem_of_mem_erase kept
    split at kept
    · exact mem_of_mem_tail kept
    · exact kept
  · exact .inl (mem_singleton.mp last)

theorem nodup_use (distinct : order.Nodup) : (use cap order p).Nodup := by
  have rest : (if p ∉ order ∧ cap ≤ order.length then order.tail else order).Nodup := by
    split
    · exact distinct.tail
    · exact distinct
  rw [use, nodup_append]
  refine ⟨rest.erase p, nodup_singleton p, fun a kept b last same => ?_⟩
  rw [same, mem_singleton.mp last] at kept
  exact rest.not_mem_erase kept

theorem length_use (bounded : order.length ≤ cap) (pos : 0 < cap) (p : α) :
    (use cap order p).length ≤ cap := by
  by_cases mem : p ∈ order
  · rw [use_of_mem mem, length_append, length_erase_of_mem mem]
    have := length_pos_of_mem mem
    exact Nat.le_trans (Nat.le_of_eq (Nat.sub_add_cancel this)) bounded
  · by_cases full : cap ≤ order.length
    · rw [use_of_full mem full, length_append, length_tail, length_singleton]
      omega
    · rw [use_of_room mem (Nat.not_le.mp full), length_append]
      exact Nat.not_le.mp full

variable {after before ps : List α}

theorem evicted_ne (distinct : (before ++ a :: after).Nodup) (recent : after.length + 1 < cap)
    (gone : evicted cap (before ++ a :: after) p = some v) : v ≠ a := by
  rw [evicted] at gone
  split at gone
  case isTrue full =>
    rw [length_append, length_cons] at full
    cases before with
    | nil =>
      rw [length_nil] at full
      omega
    | cons b before =>
      cases gone
      rw [List.cons_append, nodup_cons] at distinct
      rintro rfl
      exact distinct.1 (mem_append_right _ mem_cons_self)
  case isFalse => cases gone

theorem recent_use (distinct : (before ++ a :: after).Nodup) (recent : after.length + 1 < cap)
    (p : α) : ∃ before' after', use cap (before ++ a :: after) p = before' ++ a :: after' ∧
      after'.length ≤ after.length + 1 := by
  by_cases mem : p ∈ before ++ a :: after
  · rw [use_of_mem mem]
    by_cases same : p = a
    · exact ⟨(before ++ a :: after).erase p, [], by rw [same], Nat.zero_le _⟩
    · by_cases early : p ∈ before
      · refine ⟨before.erase p, after ++ [p], ?_, by rw [length_append]; exact Nat.le_refl _⟩
        rw [erase_append_left _ early, List.append_assoc, List.cons_append]
      · refine ⟨before, after.erase p ++ [p], ?_, ?_⟩
        · rw [erase_append_right _ early, erase_cons_tail, List.append_assoc, List.cons_append]
          exact fun e => same (eq_of_beq e).symm
        · rw [length_append]
          exact Nat.succ_le_succ (length_erase_le)
  · by_cases full : cap ≤ (before ++ a :: after).length
    · rw [use_of_full mem full]
      rw [length_append, length_cons] at full
      cases before with
      | nil =>
        rw [length_nil] at full
        omega
      | cons b before =>
        refine ⟨before, after ++ [p], ?_, by rw [length_append]; exact Nat.le_refl _⟩
        rw [List.cons_append, tail_cons, List.append_assoc, List.cons_append]
    · rw [use_of_room mem (Nat.not_le.mp full)]
      refine ⟨before, after ++ [p], ?_, by rw [length_append]; exact Nat.le_refl _⟩
      rw [List.append_assoc, List.cons_append]

theorem not_mem_uses (absent : a ∉ order) (other : a ∉ ps) : a ∉ ps.foldl (use cap) order := by
  induction ps generalizing order with
  | nil => exact absent
  | cons p ps ih =>
    refine ih (fun mem => ?_) fun mem => other (mem_cons_of_mem p mem)
    rcases mem_use mem with same | kept
    · exact other (same ▸ mem_cons_self)
    · exact absent kept

theorem use_after (cap : Nat) (before : List α) (new : p ∉ a :: after) :
    (∃ before', use cap (before ++ a :: after) p = before' ++ a :: (after ++ [p])) ∨
      use cap (before ++ a :: after) p = after ++ [p] := by
  by_cases early : p ∈ before
  · refine .inl ⟨before.erase p, ?_⟩
    rw [use_of_mem (mem_append_left _ early), erase_append_left _ early, List.append_assoc,
      List.cons_append]
  · have absent : p ∉ before ++ a :: after := fun mem =>
      (mem_append.mp mem).elim early new
    by_cases full : cap ≤ (before ++ a :: after).length
    · rw [use_of_full absent full]
      cases before with
      | nil => exact .inr rfl
      | cons b before =>
        refine .inl ⟨before, ?_⟩
        rw [List.cons_append, tail_cons, List.append_assoc, List.cons_append]
    · refine .inl ⟨before, ?_⟩
      rw [use_of_room absent (Nat.not_le.mp full), List.append_assoc, List.cons_append]

theorem gone_of_uses (before after : List α) (distinct : (a :: (after ++ ps)).Nodup)
    (bounded : (before ++ a :: after).length ≤ cap) (many : cap ≤ after.length + ps.length) :
    a ∉ ps.foldl (use cap) (before ++ a :: after) := by
  induction ps generalizing before after with
  | nil =>
    rw [length_append, length_cons] at bounded
    rw [length_nil] at many
    omega
  | cons p ps ih =>
    have shift : after ++ p :: ps = (after ++ [p]) ++ ps := append_cons _ _ _
    rw [shift] at distinct
    obtain ⟨others, distinct'⟩ := nodup_cons.mp distinct
    have new : p ∉ a :: after := by
      intro mem
      rcases mem_cons.mp mem with rfl | old
      · exact others (mem_append_left _ (mem_append_right _ (mem_singleton_self p)))
      · have apart := (nodup_append.mp (nodup_append.mp distinct').1).2.2
        exact apart p old p (mem_singleton_self p) rfl
    have pos : 0 < cap := by
      rw [length_append, length_cons] at bounded
      omega
    have bounded' := length_use bounded pos p
    rw [foldl_cons]
    rcases use_after cap before new with ⟨before', later⟩ | gone
    · rw [later] at bounded' ⊢
      refine ih before' (after ++ [p]) distinct bounded' ?_
      rw [length_cons] at many
      rw [length_append, length_singleton]
      omega
    · rw [gone]
      refine not_mem_uses (fun mem => ?_) fun mem => ?_
      · exact others (mem_append_left _ mem)
      · exact others (mem_append_right _ mem)

end Unheaded.Lib
