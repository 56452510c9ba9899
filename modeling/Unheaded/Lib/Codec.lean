import Unheaded.Lib.Endian

/-!
# Readers and the encodings they read

A reader takes a value from the front of its input, or fails.
-/

namespace Unheaded.Lib

open List

section Reads

variable {α β γ ε : Type}

def Reads (read : List β → Except ε (α × List β)) (encode : α → List β) (valid : α → Prop) : Prop :=
  ∀ input a rest, read input = .ok (a, rest) ↔ valid a ∧ input = encode a ++ rest

theorem bind_eq_ok {x : Except ε α} {f : α → Except ε γ} {c : γ} :
    (x >>= f) = .ok c ↔ ∃ a, x = .ok a ∧ f a = .ok c := by
  cases x with
  | error e =>
    constructor
    · intro h
      cases h
    · rintro ⟨a, h, -⟩
      cases h
  | ok a =>
    refine ⟨fun h => ⟨a, rfl, h⟩, ?_⟩
    rintro ⟨b, same, h⟩
    cases same
    exact h

namespace Reads

variable {read : List β → Except ε (α × List β)} {encode : α → List β} {valid : α → Prop}

theorem bind_iff (reads : Reads read encode valid) {input : List β}
    {next : α × List β → Except ε γ} {c : γ} : (read input >>= next) = .ok c ↔
      ∃ a rest, valid a ∧ input = encode a ++ rest ∧ next (a, rest) = .ok c := by
  rw [bind_eq_ok]
  constructor
  · rintro ⟨⟨a, rest⟩, first, second⟩
    obtain ⟨ok, split⟩ := (reads input a rest).mp first
    exact ⟨a, rest, ok, split, second⟩
  · rintro ⟨a, rest, ok, split, second⟩
    exact ⟨(a, rest), (reads input a rest).mpr ⟨ok, split⟩, second⟩

theorem cancel (reads : Reads read encode valid) {a b : α} {rest other : List β} (left : valid a)
    (right : valid b) (same : encode a ++ rest = encode b ++ other) : a = b ∧ rest = other := by
  have first := (reads (encode a ++ rest) a rest).mpr ⟨left, rfl⟩
  have second := (reads (encode a ++ rest) b other).mpr ⟨right, same⟩
  rw [first] at second
  cases second
  exact ⟨rfl, rfl⟩

end Reads

/-- `n` values, one after the other. -/
def readMany (read : List β → Except ε (α × List β)) : Nat → List β → Except ε (List α × List β)
  | 0, input => .ok ([], input)
  | n + 1, input => do
    let (a, input) ← read input
    let (others, input) ← readMany read n input
    .ok (a :: others, input)

theorem Reads.many {read : List β → Except ε (α × List β)} {encode : α → List β}
    {valid : α → Prop} (reads : Reads read encode valid) (n : Nat) :
    Reads (readMany read n) (List.flatMap encode) fun l => l.length = n ∧ ∀ a ∈ l, valid a := by
  induction n with
  | zero =>
    intro input l rest
    constructor
    · intro h
      cases h
      exact ⟨⟨rfl, fun a mem => absurd mem not_mem_nil⟩, rfl⟩
    · rintro ⟨⟨empty, -⟩, rfl⟩
      rw [eq_nil_of_length_eq_zero empty]
      rfl
  | succ n ih =>
    intro input l rest
    rw [readMany, reads.bind_iff]
    constructor
    · rintro ⟨a, middle, ok, rfl, h⟩
      obtain ⟨others, after, ⟨count, all⟩, rfl, last⟩ := ih.bind_iff.mp h
      cases last
      refine ⟨⟨congrArg (· + 1) count, forall_mem_cons.mpr ⟨ok, all⟩⟩, ?_⟩
      rw [flatMap_cons, List.append_assoc]
    · rintro ⟨⟨count, all⟩, rfl⟩
      cases l with
      | nil => cases count
      | cons a others =>
        obtain ⟨ok, rest_ok⟩ := forall_mem_cons.mp all
        refine ⟨a, others.flatMap encode ++ rest, ok, ?_, ?_⟩
        · rw [flatMap_cons, List.append_assoc]
        · exact ih.bind_iff.mpr ⟨others, rest, ⟨Nat.succ.inj count, rest_ok⟩, rfl, rfl⟩

theorem le_length_flatMap {encode : α → List β} {k : Nat} (l : List α)
    (long : ∀ a ∈ l, k ≤ (encode a).length) : l.length * k ≤ (l.flatMap encode).length := by
  induction l with
  | nil => simp
  | cons a l ih =>
    obtain ⟨first, others⟩ := forall_mem_cons.mp long
    have rest := ih others
    rw [flatMap_cons, length_append, length_cons, Nat.add_mul]
    omega

end Reads

end Unheaded.Lib
