import Mathlib.Init

/-!
# Runs driven by events

A total machine is moved by events from outside.
-/

namespace Unheaded.Lib

variable {σ ε : Type _} (after : σ → ε → σ)

def afterAll (s : σ) (events : List ε) : σ := events.foldl after s

def Along (P : σ → ε → Prop) : σ → List ε → Prop
  | _, [] => True
  | s, e :: events => P s e ∧ Along P (after s e) events

/-- The executable form of `Along`. -/
def checkAlong (check : σ → ε → Bool) : σ → List ε → Bool
  | _, [] => true
  | s, e :: events => check s e && checkAlong check (after s e) events

@[simp] theorem afterAll_nil (s : σ) : afterAll after s [] = s := rfl

@[simp] theorem afterAll_cons (s : σ) (e : ε) (events : List ε) :
    afterAll after s (e :: events) = afterAll after (after s e) events := rfl

theorem afterAll_append (s : σ) (first rest : List ε) :
    afterAll after s (first ++ rest) = afterAll after (afterAll after s first) rest :=
  List.foldl_append

variable {after}

theorem along_append {P : σ → ε → Prop} {s : σ} {first rest : List ε} :
    Along after P s (first ++ rest) ↔
      Along after P s first ∧ Along after P (afterAll after s first) rest := by
  induction first generalizing s with
  | nil => exact (iff_of_eq (true_and _)).symm
  | cons e first ih =>
    constructor
    · rintro ⟨now, later⟩
      obtain ⟨before, afterwards⟩ := ih.mp later
      exact ⟨⟨now, before⟩, afterwards⟩
    · rintro ⟨⟨now, before⟩, afterwards⟩
      exact ⟨now, ih.mpr ⟨before, afterwards⟩⟩

theorem Along.invariant {P : σ → ε → Prop} {Inv : σ → Prop}
    (step : ∀ s e, Inv s → P s e → Inv (after s e)) {s : σ} {events : List ε}
    (along : Along after P s events) (start : Inv s) : Inv (afterAll after s events) := by
  induction events generalizing s with
  | nil => exact start
  | cons e events ih => exact ih along.2 (step s e start along.1)

section

variable {P Q : σ → ε → Prop} {Inv : σ → Prop}

theorem Along.ensures (step : ∀ s e, Inv s → P s e → Q s e ∧ Inv (after s e)) {s : σ} {events : List ε}
    (along : Along after P s events) (start : Inv s) : Along after Q s events := by
  induction events generalizing s with
  | nil => trivial
  | cons e events ih =>
    obtain ⟨now, kept⟩ := step s e start along.1
    exact ⟨now, ih along.2 kept⟩

theorem along_congr_while (step : ∀ s e, Inv s → P s e → Inv (after s e)) (agree : ∀ s e, Inv s → (P s e ↔ Q s e))
    {s : σ} (start : Inv s) (events : List ε) :
    Along after P s events ↔ Along after Q s events := by
  induction events generalizing s with
  | nil => exact Iff.rfl
  | cons e events ih =>
    constructor
    · rintro ⟨now, later⟩
      exact ⟨(agree s e start).mp now, (ih (step s e start now)).mp later⟩
    · rintro ⟨now, later⟩
      have here := (agree s e start).mpr now
      exact ⟨here, (ih (step s e start here)).mpr later⟩

theorem along_congr (step : ∀ s e, Inv s → Inv (after s e)) (agree : ∀ s e, Inv s → (P s e ↔ Q s e))
    {s : σ} (start : Inv s) (events : List ε) : Along after P s events ↔ Along after Q s events :=
  along_congr_while (fun s e inv _ => step s e inv) agree start events

end

theorem along_iff_states {P : σ → ε → Prop} {Inv Good : σ → Prop} (good : ∀ s, Inv s → Good s)
    (step : ∀ s e, Inv s → P s e → Inv (after s e))
    (spoils : ∀ s e, Inv s → ¬ P s e → ¬ Good (after s e)) {s : σ} (start : Inv s)
    (events : List ε) : Along after P s events ↔ ∀ n, Good (afterAll after s (events.take n)) := by
  induction events generalizing s with
  | nil =>
    refine iff_of_true trivial fun n => ?_
    rw [List.take_nil]
    exact good s start
  | cons e events ih =>
    constructor
    · rintro ⟨allowed, rest⟩ n
      cases n with
      | zero => exact good s start
      | succ n => exact (ih (step s e start allowed)).mp rest n
    · intro states
      have allowed : P s e :=
        Classical.byContradiction fun refused => spoils s e start refused (states 1)
      exact ⟨allowed, (ih (step s e start allowed)).mpr fun n => states (n + 1)⟩

theorem along_of_check {P : σ → ε → Prop} {check : σ → ε → Bool}
    (ensured : ∀ s e, check s e = true → P s e) {s : σ} {events : List ε}
    (passed : checkAlong after check s events = true) : Along after P s events := by
  induction events generalizing s with
  | nil => trivial
  | cons e events ih =>
    obtain ⟨first, rest⟩ := (Bool.and_eq_true _ _).mp passed
    exact ⟨ensured s e first, ih rest⟩

end Unheaded.Lib
