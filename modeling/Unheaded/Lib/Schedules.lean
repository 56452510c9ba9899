import Mathlib.Init

/-!
# Schedules

A schedule is a list of events for a machine that may refuse an event, for instance because a lock
is held.
-/

namespace Unheaded.Lib

variable {σ ε : Type _} (step : σ → ε → Option σ)

def runAll : σ → List ε → Option σ
  | s, [] => some s
  | s, e :: events => (step s e).bind fun s' => runAll s' events

def Throughout (P : σ → ε → Prop) : σ → List ε → Prop
  | _, [] => True
  | s, e :: events => P s e ∧ ∀ s' ∈ step s e, Throughout P s' events

instance decidableThroughout (P : σ → ε → Prop) [∀ s e, Decidable (P s e)] :
    (s : σ) → (events : List ε) → Decidable (Throughout step P s events)
  | _, [] => isTrue trivial
  | s, e :: events =>
    have := fun s' => decidableThroughout P s' events
    inferInstanceAs (Decidable (P s e ∧ ∀ s' ∈ step s e, Throughout step P s' events))

variable {step}

theorem runAll_append (s : σ) (first rest : List ε) :
    runAll step s (first ++ rest) = (runAll step s first).bind fun s' => runAll step s' rest := by
  induction first generalizing s with
  | nil => rfl
  | cons e first ih =>
    rw [List.cons_append, runAll, runAll]
    cases step s e with
    | none => rfl
    | some s' => exact ih s'

variable {s s' : σ} {events first rest : List ε}

theorem runAll_cons {e : ε} (h : runAll step s (e :: events) = some s') :
    ∃ s₁, step s e = some s₁ ∧ runAll step s₁ events = some s' :=
  Option.bind_eq_some_iff.mp h

theorem Throughout.left {P : σ → ε → Prop} (h : Throughout step P s (first ++ rest)) :
    Throughout step P s first := by
  induction first generalizing s with
  | nil => trivial
  | cons e first ih => exact ⟨h.1, fun s' hstep => ih (h.2 s' hstep)⟩

theorem Throughout.right {P : σ → ε → Prop} (h : Throughout step P s (first ++ rest))
    (hrun : runAll step s first = some s') : Throughout step P s' rest := by
  induction first generalizing s with
  | nil =>
    rw [runAll, Option.some.injEq] at hrun
    exact hrun ▸ h
  | cons e first ih =>
    obtain ⟨s₁, hstep, hrest⟩ := runAll_cons hrun
    exact ih (h.2 s₁ hstep) hrest

theorem Throughout.and {P Q : σ → ε → Prop} (hP : Throughout step P s events)
    (hQ : Throughout step Q s events) : Throughout step (fun s e => P s e ∧ Q s e) s events := by
  induction events generalizing s with
  | nil => trivial
  | cons e events ih =>
    exact ⟨⟨hP.1, hQ.1⟩, fun s' hstep => ih (hP.2 s' hstep) (hQ.2 s' hstep)⟩

theorem throughout_append {P : σ → ε → Prop} (hfirst : Throughout step P s first)
    (hrun : runAll step s first = some s') (hrest : Throughout step P s' rest) :
    Throughout step P s (first ++ rest) := by
  induction first generalizing s with
  | nil =>
    rw [runAll, Option.some.injEq] at hrun
    exact hrun ▸ hrest
  | cons e first ih =>
    obtain ⟨s₁, hstep, hlater⟩ := runAll_cons hrun
    refine ⟨hfirst.1, fun s₂ hstep₂ => ?_⟩
    obtain rfl : s₁ = s₂ := Option.some.inj (hstep.symm.trans hstep₂)
    exact ih (hfirst.2 s₁ hstep) hlater

theorem Throughout.invariant {P : σ → ε → Prop} {Inv : σ → Prop}
    (preserved : ∀ s e s', Inv s → P s e → step s e = some s' → Inv s')
    (h : Throughout step P s events) (hrun : runAll step s events = some s') (start : Inv s) :
    Inv s' := by
  induction events generalizing s with
  | nil =>
    rw [runAll, Option.some.injEq] at hrun
    exact hrun ▸ start
  | cons e events ih =>
    obtain ⟨s₁, hstep, hrest⟩ := runAll_cons hrun
    exact ih (h.2 s₁ hstep) hrest (preserved s e s₁ start h.1 hstep)

theorem throughout_true (s : σ) (events : List ε) : Throughout step (fun _ _ => True) s events := by
  induction events generalizing s with
  | nil => trivial
  | cons e events ih => exact ⟨trivial, fun s' _ => ih s'⟩

theorem runAll_invariant {Inv : σ → Prop}
    (preserved : ∀ s e s', Inv s → step s e = some s' → Inv s')
    (hrun : runAll step s events = some s') (start : Inv s) : Inv s' :=
  (throughout_true s events).invariant (fun s e s' hs _ hstep => preserved s e s' hs hstep) hrun start

theorem holds_along_iff {Inv Good : σ → Prop} {R P : σ → ε → Prop}
    (exactly : ∀ s e s', Inv s → Good s → R s e → step s e = some s' → (Good s' ↔ P s e))
    (keeps : ∀ s e s', Inv s → Good s → R s e → P s e → step s e = some s' → Inv s')
    (hrun : runAll step s events = some s') (known : Throughout step R s events) (inv : Inv s)
    (good : Good s) :
    (∀ front rest t, events = front ++ rest → runAll step s front = some t → Good t) ↔
      Throughout step P s events := by
  induction events generalizing s with
  | nil =>
    refine ⟨fun _ => trivial, fun _ front rest t hsplit hfront => ?_⟩
    rw [(List.append_eq_nil_iff.mp hsplit.symm).1] at hfront
    exact Option.some.inj hfront ▸ good
  | cons e events ih =>
    obtain ⟨s₁, hstep, hrest⟩ := runAll_cons hrun
    constructor
    · intro all
      have good₁ : Good s₁ := all [e] events s₁ rfl (by rw [runAll, hstep]; rfl)
      have here := (exactly s e s₁ inv good known.1 hstep).mp good₁
      refine ⟨here, fun s₂ hstep₂ => ?_⟩
      obtain rfl : s₁ = s₂ := Option.some.inj (hstep.symm.trans hstep₂)
      refine (ih hrest (known.2 _ hstep) (keeps s e _ inv good known.1 here hstep) good₁).mp ?_
      intro front rest t hsplit hfront
      refine all (e :: front) rest t (congrArg (e :: ·) hsplit) ?_
      rw [runAll, hstep]
      exact hfront
    · rintro ⟨here, later⟩ front rest t hsplit hfront
      cases front with
      | nil => exact Option.some.inj hfront ▸ good
      | cons e' front =>
        obtain ⟨rfl, hlater⟩ := List.cons.inj hsplit
        have good₁ := (exactly s e s₁ inv good known.1 hstep).mpr here
        rw [runAll, hstep] at hfront
        exact (ih hrest (known.2 _ hstep) (keeps s e s₁ inv good known.1 here hstep) good₁).mpr
          (later s₁ hstep) front rest t hlater hfront

end Unheaded.Lib
