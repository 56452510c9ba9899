import Mathlib.Logic.Basic

/-!
# Runs of partial deterministic machines

A machine is a partial step function: `none` means that it stops. `stepN` counts steps, `Reaches`
forgets the count.
-/

namespace Unheaded.Lib

open Option

variable {σ τ : Type _}

/-- Exactly `n` steps. -/
def stepN (step : σ → Option σ) : Nat → σ → Option σ
  | 0, s => some s
  | n + 1, s => (step s).bind (stepN step n)

variable (step : σ → Option σ)

def Reaches (s s' : σ) : Prop := ∃ n, stepN step n s = some s'

@[simp] theorem stepN_zero (s : σ) : stepN step 0 s = some s := rfl

theorem stepN_succ (n : Nat) (s : σ) : stepN step (n + 1) s = (step s).bind (stepN step n) := rfl

theorem stepN_one (s : σ) : stepN step 1 s = step s := by
  rw [stepN_succ]
  cases step s <;> rfl

theorem stepN_add (m n : Nat) (s : σ) :
    stepN step (m + n) s = (stepN step m s).bind (stepN step n) := by
  induction m generalizing s with
  | zero => simp
  | succ m ih =>
    rw [Nat.succ_add, stepN_succ, stepN_succ]
    cases step s with
    | none => rfl
    | some s' => exact ih s'

theorem stepN_succ_last (n : Nat) (s : σ) : stepN step (n + 1) s = (stepN step n s).bind step := by
  rw [stepN_add]
  congr 1
  funext s'
  exact stepN_one step s'

theorem stepN_succ_eq_some {step : σ → Option σ} {n : Nat} {s s'' : σ}
    (h : stepN step (n + 1) s = some s'') : ∃ s', step s = some s' ∧ stepN step n s' = some s'' :=
  bind_eq_some_iff.mp h

namespace Reaches

theorem refl (step : σ → Option σ) (s : σ) : Reaches step s s := ⟨0, rfl⟩

variable {step : σ → Option σ} {s s' s'' : σ}

theorem single (h : step s = some s') : Reaches step s s' :=
  ⟨1, by rw [stepN_one, h]⟩

theorem trans (first : Reaches step s s') (second : Reaches step s' s'') : Reaches step s s'' := by
  obtain ⟨m, hm⟩ := first
  obtain ⟨n, hn⟩ := second
  exact ⟨m + n, by rw [stepN_add, hm, bind_some, hn]⟩

theorem head (h : step s = some s') (rest : Reaches step s' s'') : Reaches step s s'' :=
  (single h).trans rest

end Reaches

variable {f step : σ → Option σ} {s s' : σ}

theorem Reaches.check (n : Nat) (check : σ → Bool) (stops : (stepN step (n + 1) s).isNone = true)
    (checked : ∀ m ≤ n, (stepN step m s).all check = true) (reached : Reaches step s s') :
    check s' = true := by
  obtain ⟨m, run⟩ := reached
  have bound : m ≤ n := by
    apply Nat.not_lt.mp
    intro beyond
    have cut : n + 1 + (m - (n + 1)) = m := by omega
    have ended := stepN_add step (n + 1) (m - (n + 1)) s
    simp [cut, run, isNone_iff_eq_none.mp stops] at ended
  have here := checked m bound
  rwa [run] at here

theorem stepN_invariant {I : σ → Prop} (preserved : ∀ s s', I s → step s = some s' → I s') (n : Nat)
    (start : I s) (run : stepN step n s = some s') : I s' := by
  induction n generalizing s with
  | zero =>
    cases run
    exact start
  | succ n ih =>
    obtain ⟨middle, hstep, hrest⟩ := stepN_succ_eq_some run
    exact ih (preserved s middle start hstep) hrest

theorem Reaches.of_variant {I final : σ → Prop} (variant : σ → Nat)
    (falls : ∀ s, I s → ¬ final s → ∃ s', step s = some s' ∧ I s' ∧ variant s' < variant s)
    (start : I s) : ∃ s', Reaches step s s' ∧ I s' ∧ final s' := by
  induction bound : variant s using Nat.strongRecOn generalizing s with
  | ind n ih =>
    by_cases ended : final s
    · exact ⟨s, .refl step s, start, ended⟩
    · obtain ⟨next, here, kept, less⟩ := falls s start ended
      obtain ⟨last, rest, holds, finished⟩ := ih _ (bound ▸ less) kept rfl
      exact ⟨last, .head here rest, holds, finished⟩

variable {g : τ → Option τ}

theorem forward_simulation {R : σ → τ → Prop}
    (matched : ∀ s s' t, R s t → f s = some s' → ∃ t', Reaches g t t' ∧ R s' t') (n : Nat) {t : τ}
    (start : R s t) (run : stepN f n s = some s') : ∃ t', Reaches g t t' ∧ R s' t' := by
  induction n generalizing s t with
  | zero =>
    cases run
    exact ⟨t, Reaches.refl g t, start⟩
  | succ n ih =>
    obtain ⟨middle, hstep, hrest⟩ := stepN_succ_eq_some run
    obtain ⟨tMiddle, firstRun, related⟩ := matched s middle t start hstep
    obtain ⟨t', secondRun, final⟩ := ih related hrest
    exact ⟨t', firstRun.trans secondRun, final⟩

theorem lockstep {R : σ → τ → Prop} {A : σ → τ → Prop}
    (matched : ∀ s t, R s t → A s t → ∃ s' t', f s = some s' ∧ g t = some t' ∧ R s' t') (n : Nat)
    {t : τ} (start : R s t)
    (admitted : ∀ m < n, ∀ s' t', stepN f m s = some s' → stepN g m t = some t' → A s' t') :
    ∃ s' t', stepN f n s = some s' ∧ stepN g n t = some t' ∧ R s' t' := by
  induction n with
  | zero => exact ⟨s, t, rfl, rfl, start⟩
  | succ n ih =>
    obtain ⟨s', t', hs, ht, related⟩ := ih (fun m hm => admitted m (Nat.lt_succ_of_lt hm))
    obtain ⟨s'', t'', hs', ht', related'⟩ :=
      matched s' t' related (admitted n (Nat.lt_succ_self n) s' t' hs ht)
    refine ⟨s'', t'', ?_, ?_, related'⟩
    · rw [stepN_succ_last, hs, bind_some, hs']
    · rw [stepN_succ_last, ht, bind_some, ht']

/-- At least one step, up to the first state that is not inside. -/
inductive Leaves (step : σ → Option σ) (inside : σ → Prop) : σ → σ → Prop
  | last {s s' : σ} (here : step s = some s') (out : ¬ inside s') : Leaves step inside s s'
  | more {s t s' : σ} (here : step s = some t) (stays : inside t)
      (rest : Leaves step inside t s') : Leaves step inside s s'

namespace Leaves

variable {step : σ → Option σ} {inside : σ → Prop}

theorem unique {s t t' : σ} (first : Leaves step inside s t) (second : Leaves step inside s t') :
    t = t' := by
  induction first with
  | last here out =>
    cases second with
    | last here' out' => exact some.inj (here.symm.trans here')
    | more here' stays' rest' =>
      cases some.inj (here.symm.trans here')
      exact absurd stays' out
  | more here stays rest ih =>
    cases second with
    | last here' out' =>
      cases some.inj (here.symm.trans here')
      exact absurd stays out'
    | more here' stays' rest' =>
      cases some.inj (here.symm.trans here')
      exact ih rest'

theorem reaches {s s' : σ} (leaves : Leaves step inside s s') : Reaches step s s' := by
  induction leaves with
  | last here out => exact .single here
  | more here stays rest ih => exact .head here ih

theorem of_stuck {s s' : σ} (stuck : step s = none) : ¬ Leaves step inside s s' := by
  intro leaves
  cases leaves with
  | last here out =>
    simp [stuck] at here
  | more here stays rest =>
    simp [stuck] at here

end Leaves

end Unheaded.Lib
