import Mathlib.Init

/-!
# Programs that ask questions

A program asks its surroundings questions and goes on with the answers. An exchange is a question
with its answer.
-/

namespace Unheaded.Lib

open List

inductive Asking (Q : Type) (A : Q → Type) (α : Type) where
  | done (result : α)
  | ask (question : Q) (next : A question → Asking Q A α)

/-- A question with its answer. -/
structure Exchange (Q : Type) (A : Q → Type) where
  question : Q
  answer : A question

namespace Asking

variable {Q : Type} {A : Q → Type} {α β : Type}

protected def bind : Asking Q A α → (α → Asking Q A β) → Asking Q A β
  | .done result, f => f result
  | .ask question next, f => .ask question fun answer => (next answer).bind f

instance : Monad (Asking Q A) where
  pure := .done
  bind := Asking.bind

def call (question : Q) : Asking Q A (A question) := .ask question .done

/-- The program has gone on to another one after some exchanges. -/
inductive Run : Asking Q A α → List (Exchange Q A) → Asking Q A α → Prop
  | here (m : Asking Q A α) : Run m [] m
  | more {question : Q} {next : A question → Asking Q A α} {history : List (Exchange Q A)}
      {m : Asking Q A α} (answer : A question) (rest : Run (next answer) history m) :
      Run (.ask question next) (⟨question, answer⟩ :: history) m

/-- All exchanges of a run, and its result, where the answers are a function of the past. -/
def follow (answers : List (Exchange Q A) → (q : Q) → A q) (past : List (Exchange Q A)) :
    Asking Q A α → List (Exchange Q A) × α
  | .done result => (past, result)
  | .ask question next =>
    follow answers (past ++ [⟨question, answers past question⟩]) (next (answers past question))

/-- The first exchanges of such a run, and what is left of the program. -/
def goOn (answers : List (Exchange Q A) → (q : Q) → A q) :
    Nat → List (Exchange Q A) → Asking Q A α → List (Exchange Q A) × Asking Q A α
  | n + 1, past, .ask question next =>
    goOn answers n (past ++ [⟨question, answers past question⟩]) (next (answers past question))
  | _, past, m => (past, m)

def asks : Asking Q A α → Bool
  | .done _ => false
  | .ask _ _ => true

theorem exists_of_asks {m : Asking Q A α} (asking : m.asks = true) :
    ∃ question next, m = .ask question next := by
  cases m with
  | done result => cases asking
  | ask question next => exact ⟨question, next, rfl⟩

variable (answers : List (Exchange Q A) → (q : Q) → A q)

theorem goOn_eq (n : Nat) (past : List (Exchange Q A)) (m : Asking Q A α) :
    ∃ history, (goOn answers n past m).1 = past ++ history ∧
      Run m history (goOn answers n past m).2 := by
  induction n generalizing past m with
  | zero => exact ⟨[], (append_nil _).symm, .here m⟩
  | succ n ih =>
    cases m with
    | done result => exact ⟨[], (append_nil _).symm, .here _⟩
    | ask question next =>
      obtain ⟨history, whole, run⟩ :=
        ih (past ++ [⟨question, answers past question⟩]) (next (answers past question))
      refine ⟨⟨question, answers past question⟩ :: history, ?_, .more _ run⟩
      rw [goOn, whole, List.append_assoc]
      rfl

theorem run_goOn (n : Nat) (m : Asking Q A α) :
    Run m (goOn answers n [] m).1 (goOn answers n [] m).2 := by
  obtain ⟨history, whole, run⟩ := goOn_eq answers n [] m
  rw [whole]
  exact run

/-- Whatever fitting answers are given, `pre` holds at every question and `post` at the end. -/
def Holds (fits : (q : Q) → A q → Prop) (pre : List (Exchange Q A) → Q → Prop)
    (post : List (Exchange Q A) → α → Prop) (past : List (Exchange Q A)) : Asking Q A α → Prop
  | .done result => post past result
  | .ask question next =>
    pre past question ∧
      ∀ answer, fits question answer → Holds fits pre post (past ++ [⟨question, answer⟩]) (next answer)

namespace Holds

variable {fits : (q : Q) → A q → Prop} {pre : List (Exchange Q A) → Q → Prop}
  {post post' : List (Exchange Q A) → α → Prop} {past : List (Exchange Q A)}

theorem pure {result : α} (holds : post past result) :
    Holds fits pre post past (Pure.pure result : Asking Q A α) := holds

variable {m : Asking Q A α}

theorem imp (holds : Holds fits pre post past m)
    (weaker : ∀ past result, post past result → post' past result) :
    Holds fits pre post' past m := by
  induction m generalizing past with
  | done result => exact weaker past result holds
  | ask question next ih =>
    exact ⟨holds.1, fun answer fit => ih answer (holds.2 answer fit)⟩

theorem forget (holds : Holds fits pre post past m) : Holds fits (fun _ _ => True) post past m := by
  induction m generalizing past with
  | done result => exact holds
  | ask question next ih =>
    exact ⟨trivial, fun answer fit => ih answer (holds.2 answer fit)⟩

theorem bind {f : α → Asking Q A β} {final : List (Exchange Q A) → β → Prop}
    (first : Holds fits pre post past m)
    (second : ∀ past result, post past result → Holds fits pre final past (f result)) :
    Holds fits pre final past (m >>= f) := by
  induction m generalizing past with
  | done result => exact second past result first
  | ask question next ih =>
    exact ⟨first.1, fun answer fit => ih answer (first.2 answer fit)⟩

theorem call {question : Q} {f : A question → Asking Q A α} (before : pre past question)
    (rest : ∀ answer, fits question answer →
      Holds fits pre post (past ++ [⟨question, answer⟩]) (f answer)) :
    Holds fits pre post past (Asking.call question >>= f) := ⟨before, rest⟩

theorem of_run {m' : Asking Q A α} {history : List (Exchange Q A)}
    (holds : Holds fits pre post past m) (run : Run m history m')
    (fit : ∀ e ∈ history, fits e.question e.answer) : Holds fits pre post (past ++ history) m' := by
  induction run generalizing past with
  | here m =>
    rw [append_nil]
    exact holds
  | @more question next history m answer rest ih =>
    have later := ih (holds.2 answer (fit _ (mem_cons_self ..)))
      fun e mem => fit e (mem_cons_of_mem _ mem)
    rwa [List.append_assoc] at later

theorem of_follow {answers : List (Exchange Q A) → (q : Q) → A q}
    (fit : ∀ past q, fits q (answers past q)) (holds : Holds fits pre post past m) :
    post (follow answers past m).1 (follow answers past m).2 := by
  induction m generalizing past with
  | done result => exact holds
  | ask question next ih => exact ih _ (holds.2 _ (fit past question))

end Holds

end Asking

end Unheaded.Lib
