import Mathlib.Data.Nat.Init
import Mathlib.Order.Basic
import Unheaded.Lib.Schedules

/-!
# What comes about along an endless run

Conditions on the times of a run.
-/

namespace Unheaded.Lib

open List Option

variable {P Q R E : Nat → Prop}

/-- From every time of `P` there comes a time of `Q`. -/
def LeadsTo (P Q : Nat → Prop) : Prop := ∀ n, P n → ∃ m, n ≤ m ∧ Q m

theorem LeadsTo.trans (first : LeadsTo P Q) (second : LeadsTo Q R) : LeadsTo P R := by
  intro n here
  obtain ⟨m, later, there⟩ := first n here
  obtain ⟨k, last, end_⟩ := second m there
  exact ⟨k, Nat.le_trans later last, end_⟩

theorem leadsTo_of_awaited (stays : ∀ n, P n → ¬ E n → P (n + 1))
    (comes : ∀ n, P n → ∃ m, n ≤ m ∧ E m) : LeadsTo P fun m => P m ∧ E m := by
  intro n here
  obtain ⟨m, later, event⟩ := comes n here
  obtain ⟨d, rfl⟩ := Nat.exists_eq_add_of_le later
  clear later comes
  induction d generalizing n with
  | zero => exact ⟨n, Nat.le_refl n, here, event⟩
  | succ d ih =>
    by_cases now : E n
    · exact ⟨n, Nat.le_refl n, here, now⟩
    · have event : E (n + 1 + d) := by
        rw [Nat.add_assoc, Nat.add_comm 1]
        exact event
      obtain ⟨m, later, found⟩ := ih (n + 1) (stays n here now) event
      exact ⟨m, Nat.le_of_succ_le later, found⟩

theorem leadsTo_of_rank (rank : Nat → Nat)
    (falls : ∀ n, P n → ∃ m, n ≤ m ∧ (Q m ∨ (P m ∧ rank m < rank n))) : LeadsTo P Q := by
  intro n here
  induction bound : rank n using Nat.strongRecOn generalizing n with
  | ind r ih =>
    obtain ⟨m, later, there | ⟨again, lower⟩⟩ := falls n here
    · exact ⟨m, later, there⟩
    · obtain ⟨k, last, end_⟩ := ih (rank m) (bound ▸ lower) m again rfl
      exact ⟨k, Nat.le_trans later last, end_⟩

variable {σ ε α : Type _} {step : σ → ε → Option σ} {start : σ}

/-- A run without end. -/
structure Trace (step : σ → ε → Option σ) (start : σ) where
  states : Nat → σ
  events : Nat → Option ε
  begins : states 0 = start
  steps : ∀ n, match events n with
    | none => states (n + 1) = states n
    | some e => step (states n) e = some (states (n + 1))

namespace Trace

variable (trace : Trace step start) (agent : ε → Option α)

def Able (a : α) (n : Nat) : Prop := ∃ e, agent e = some a ∧ step (trace.states n) e ≠ none

def Acts (a : α) (n : Nat) : Prop := ∃ e, trace.events n = some e ∧ agent e = some a

def Fair : Prop := ∀ a n, (∀ m, n ≤ m → trace.Able agent a m) → ∃ m, n ≤ m ∧ trace.Acts agent a m

variable {trace agent}

theorem invariant {I : σ → Prop} {C : σ → ε → Prop}
    (preserved : ∀ s e s', I s → C s e → step s e = some s' → I s') (initial : I start)
    (meets : ∀ n e, trace.events n = some e → C (trace.states n) e) (n : Nat) :
    I (trace.states n) := by
  induction n with
  | zero =>
    rw [trace.begins]
    exact initial
  | succ n ih =>
    have taken := trace.steps n
    cases happens : trace.events n with
    | none =>
      rw [happens] at taken
      exact taken ▸ ih
    | some e =>
      rw [happens] at taken
      exact preserved _ e _ ih (meets n e happens) taken

theorem Fair.leadsTo (fair : trace.Fair agent) {a : α} (rank : Nat → Nat)
    (able : ∀ n, P n → trace.Able agent a n)
    (goes : ∀ n, P n → Q (n + 1) ∨ P (n + 1) ∧ rank (n + 1) ≤ rank n ∧
      (trace.Acts agent a n → rank (n + 1) < rank n)) : LeadsTo P Q := by
  refine leadsTo_of_rank rank fun n here => ?_
  apply Classical.byContradiction
  intro never
  have stays : ∀ m, n ≤ m → P m ∧ rank m ≤ rank n := by
    intro m later
    induction m, later using Nat.le_induction with
    | base => exact ⟨here, Nat.le_refl _⟩
    | succ m later ih =>
      rcases goes m ih.1 with there | ⟨again, lower, -⟩
      · exact absurd ⟨m + 1, Nat.le_succ_of_le later, .inl there⟩ never
      · exact ⟨again, Nat.le_trans lower ih.2⟩
  obtain ⟨m, later, acts⟩ := fair a n fun m later => able m (stays m later).1
  have bound := (stays m later).2
  rcases goes m (stays m later).1 with there | ⟨again, -, lower⟩
  · exact never ⟨m + 1, Nat.le_succ_of_le later, .inl there⟩
  · exact never ⟨m + 1, Nat.le_succ_of_le later, .inr ⟨again, Nat.lt_of_lt_of_le (lower acts) bound⟩⟩

/-- The run that takes the events of a schedule and then stands still. -/
def stopped (start : σ) (events : List ε) (final : σ) (run : runAll step start events = some final) :
    Trace step start where
  states n := (runAll step start (events.take n)).getD final
  events n := events[n]?
  begins := rfl
  steps n := by
    split
    next here =>
      have past := List.getElem?_eq_none_iff.mp here
      rw [take_of_length_le past, take_of_length_le (Nat.le_succ_of_le past)]
    next e here =>
      obtain ⟨inside, this⟩ := List.getElem?_eq_some_iff.mp here
      have split : events = events.take n ++ (e :: events.drop (n + 1)) := by
        rw [← this, getElem_cons_drop, take_append_drop]
      rw [split, runAll_append] at run
      obtain ⟨s, before, rest⟩ := bind_eq_some_iff.mp run
      obtain ⟨s', taken, -⟩ := runAll_cons rest
      have after : runAll step start (events.take (n + 1)) = some s' := by
        rw [take_succ_eq_append_getElem inside, this, runAll_append, before, bind_some,
          runAll, taken]
        rfl
      rw [before, after]
      exact taken

variable {events : List ε} {final : σ}

theorem stopped_meets {C : σ → ε → Prop} (run : runAll step start events = some final)
    (meets : Throughout step C start events) (n : Nat) (e : ε)
    (happens : (stopped start events final run).events n = some e) :
    C ((stopped start events final run).states n) e := by
  obtain ⟨inside, this⟩ := List.getElem?_eq_some_iff.mp happens
  have split : events = events.take n ++ (e :: events.drop (n + 1)) := by
    rw [← this, getElem_cons_drop, take_append_drop]
  have before : ∃ s, runAll step start (events.take n) = some s := by
    rw [split, runAll_append] at run
    obtain ⟨s, before, -⟩ := bind_eq_some_iff.mp run
    exact ⟨s, before⟩
  obtain ⟨s, before⟩ := before
  rw [split] at meets
  have now : (stopped start events final run).states n = s := by
    dsimp only [stopped]
    rw [before]
    rfl
  rw [now]
  exact (meets.right before).1

theorem stopped_states (run : runAll step start events = some final) {n : Nat}
    (past : events.length ≤ n) : (stopped start events final run).states n = final := by
  dsimp only [stopped]
  rw [take_of_length_le past, run]
  rfl

theorem stopped_fair (run : runAll step start events = some final)
    (still : ∀ e, agent e ≠ none → step final e = none) :
    (stopped start events final run).Fair agent := by
  intro a n able
  obtain ⟨e, acts, enabled⟩ := able (n + events.length) (Nat.le_add_right _ _)
  rw [stopped_states run (Nat.le_add_left _ _)] at enabled
  exact absurd (still e (by rw [acts]; exact some_ne_none a)) enabled

end Trace

end Unheaded.Lib
