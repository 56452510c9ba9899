import Mathlib.Logic.Basic

/-!
# Runs cut into calls

A machine step goes on to a state or stops with a result. `Goes m n s Q`: within `n` steps, none of
them its last, a state of `Q` is reached.
-/

namespace Unheaded.Lib

variable {σ ρ : Type _}

/-- `n` steps, fewer when the machine stops. -/
def after (m : σ → σ ⊕ ρ) : Nat → σ → σ ⊕ ρ
  | 0, s => .inl s
  | n + 1, s => (m s).elim (after m n) .inr

variable {m : σ → σ ⊕ ρ} {s s' : σ}

theorem after_succ_of_next (next : m s = .inl s') (n : Nat) : after m (n + 1) s = after m n s' := by
  rw [after, next]
  rfl

variable {r : ρ}

theorem after_succ_of_stop (stop : m s = .inr r) (n : Nat) : after m (n + 1) s = .inr r := by
  rw [after, stop]
  rfl

theorem after_succ_congr {t : σ} (same : m s = m t) (n : Nat) :
    after m (n + 1) s = after m (n + 1) t := by
  rw [after, after, same]

theorem after_one (m : σ → σ ⊕ ρ) (s : σ) : after m 1 s = m s := by
  rw [after]
  cases m s <;> rfl

theorem after_add (m : σ → σ ⊕ ρ) (a b : Nat) (s : σ) :
    after m (a + b) s = (after m a s).elim (after m b) .inr := by
  induction a generalizing s with
  | zero =>
    rw [Nat.zero_add]
    rfl
  | succ a ih =>
    rw [Nat.succ_add]
    cases next : m s with
    | inl s' => rw [after_succ_of_next next, after_succ_of_next next, ih]
    | inr r =>
      rw [after_succ_of_stop next, after_succ_of_stop next]
      rfl

variable {a n : Nat}

theorem after_stopped (stop : after m a s = .inr r) (later : a ≤ n) : after m n s = .inr r := by
  obtain ⟨b, rfl⟩ := Nat.exists_eq_add_of_le later
  rw [after_add, stop]
  rfl

theorem after_resume (first : after m a s = .inl s') (stop : after m n s = .inr r) :
    after m (n - a) s' = .inr r := by
  by_cases order : a ≤ n
  · obtain ⟨b, rfl⟩ := Nat.exists_eq_add_of_le order
    rw [after_add, first] at stop
    rw [Nat.add_sub_cancel_left]
    exact stop
  · have stopped := after_stopped stop (Nat.le_of_not_le order)
    simp [first] at stopped

theorem after_unique {b : Nat} {r' : ρ} (first : after m a s = .inr r)
    (second : after m b s = .inr r') : r = r' := by
  have early := after_stopped first (Nat.le_max_left a b)
  have late := after_stopped second (Nat.le_max_right a b)
  rw [early] at late
  cases late
  rfl

theorem after_result {P : ρ → Prop} (stops : ∀ s r, m s = .inr r → P r)
    (stop : after m n s = .inr r) : P r := by
  induction n generalizing s with
  | zero => cases stop
  | succ n ih =>
    cases next : m s with
    | inl s' =>
      rw [after_succ_of_next next] at stop
      exact ih stop
    | inr r' =>
      rw [after_succ_of_stop next] at stop
      cases stop
      exact stops s r next

theorem after_stops (measure : σ → Nat) (decreases : ∀ s s', m s = .inl s' → measure s' < measure s)
    (s : σ) : ∃ r, after m (measure s + 1) s = .inr r := by
  induction bound : measure s using Nat.strongRecOn generalizing s with
  | ind k ih =>
    cases next : m s with
    | inr r => exact ⟨r, after_succ_of_stop next _⟩
    | inl s' =>
      have smaller := decreases s s' next
      rw [bound] at smaller
      obtain ⟨r, stop⟩ := ih _ smaller s' rfl
      refine ⟨r, ?_⟩
      rw [after_succ_of_next next]
      exact after_stopped stop smaller

def Goes (m : σ → σ ⊕ ρ) (n : Nat) (s : σ) (Q : σ → Prop) : Prop :=
  ∃ k, k ≤ n ∧ ∃ s', after m k s = .inl s' ∧ Q s'

def Ends (m : σ → σ ⊕ ρ) (n : Nat) (s : σ) (Q : ρ → Prop) : Prop := ∃ r, after m n s = .inr r ∧ Q r

namespace Goes

variable {a b n : Nat} {s s' : σ} {P Q : σ → Prop}

theorem here (post : Q s) : Goes m n s Q := ⟨0, Nat.zero_le n, s, rfl, post⟩

theorem step (next : m s = .inl s') (rest : Goes m n s' Q) : Goes m (n + 1) s Q := by
  obtain ⟨k, within, last, run, post⟩ := rest
  refine ⟨k + 1, Nat.succ_le_succ within, last, ?_, post⟩
  rw [after_succ_of_next next]
  exact run

theorem trans (first : Goes m a s P) (second : ∀ t, P t → Goes m b t Q) : Goes m (a + b) s Q := by
  obtain ⟨k, within, t, run, mid⟩ := first
  obtain ⟨l, within', last, run', post⟩ := second t mid
  refine ⟨k + l, Nat.add_le_add within within', last, ?_, post⟩
  rw [after_add, run]
  exact run'

theorem weaken (run : Goes m a s P) (longer : a ≤ b) (imp : ∀ t, P t → Q t) : Goes m b s Q := by
  obtain ⟨k, within, t, reached, post⟩ := run
  exact ⟨k, Nat.le_trans within longer, t, reached, imp t post⟩

theorem loop {I : Nat → σ → Prop} {cost : Nat} (rounds : Nat)
    (round : ∀ i, i < rounds → ∀ t, I i t → Goes m cost t (I (i + 1))) (start : I 0 s) :
    Goes m (rounds * cost) s (I rounds) := by
  induction rounds with
  | zero => exact here start
  | succ rounds ih =>
    have before : Goes m (rounds * cost) s (I rounds) :=
      ih (fun i inside => round i (Nat.lt_succ_of_lt inside))
    rw [Nat.succ_mul]
    exact before.trans (round rounds (Nat.lt_succ_self rounds))

end Goes

namespace Ends

variable {a b : Nat} {s : σ} {r : ρ} {P : σ → Prop} {Q R : ρ → Prop}

theorem stop (last : m s = .inr r) (post : Q r) : Ends m 1 s Q := by
  refine ⟨r, ?_, post⟩
  rw [after_one]
  exact last

theorem after_goes (first : Goes m a s P) (second : ∀ t, P t → Ends m b t Q) :
    Ends m (a + b) s Q := by
  obtain ⟨k, within, t, run, mid⟩ := first
  obtain ⟨r, stopped, post⟩ := second t mid
  have exact_run : after m (k + b) s = .inr r := by
    rw [after_add, run]
    exact stopped
  exact ⟨r, after_stopped exact_run (Nat.add_le_add_right within b), post⟩

theorem weaken (run : Ends m a s Q) (longer : a ≤ b) (imp : ∀ r, Q r → R r) : Ends m b s R := by
  obtain ⟨r, stopped, post⟩ := run
  exact ⟨r, after_stopped stopped longer, imp r post⟩

end Ends

end Unheaded.Lib
