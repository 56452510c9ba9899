import Mathlib.Data.Int.ModEq
import Mathlib.Data.List.MinMax

/-!
# Sliding windows over wrapped numbers

Numbers come wrapped modulo `N` and each is read next to the largest number taken so far.
-/

namespace Unheaded.Lib.SlidingWindow

variable (N w : Nat)

variable (taken : List ℤ)

def reading (wrapped : ℤ) : ℤ :=
  match taken.max? with
  | none => wrapped
  | some largest => largest + Int.bmod (wrapped - largest) N

def Admits (n : ℤ) : Prop :=
  ∀ largest ∈ taken.max?, largest < n ∨ (largest - n < w ∧ n ∉ taken)

instance (taken : List ℤ) (n : ℤ) : Decidable (Admits w taken n) :=
  inferInstanceAs (Decidable (∀ largest ∈ taken.max?, largest < n ∨ (largest - n < w ∧ n ∉ taken)))

def offer (wrapped : ℤ) : Bool × List ℤ :=
  if Admits w taken (reading N taken wrapped) then (true, reading N taken wrapped :: taken)
  else (false, taken)

/-- Numbers are offered one after the other. -/
def offerAll (taken : List ℤ) : List ℤ → List Bool × List ℤ
  | [] => ([], taken)
  | wrapped :: rest =>
    let first := offer N w taken wrapped
    let others := offerAll first.2 rest
    (first.1 :: others.1, others.2)

variable {N w} {taken : List ℤ} {largest n : ℤ}

theorem admits_iff (top : taken.max? = some largest) :
    Admits w taken n ↔ largest < n ∨ (largest - n < w ∧ n ∉ taken) := by
  simp [Admits, top]

theorem reading_eq (top : taken.max? = some largest) (wrapped : ℤ) :
    reading N taken wrapped = largest + Int.bmod (wrapped - largest) N := by
  simp only [reading, top]

theorem le_largest (top : taken.max? = some largest) (mem : n ∈ taken) : n ≤ largest :=
  (List.max?_eq_some_iff.mp top).2 n mem

theorem Admits.fresh (admits : Admits w taken n) : n ∉ taken := by
  cases top : taken.max? with
  | none =>
    rw [List.max?_eq_none_iff.mp top]
    exact List.not_mem_nil
  | some largest =>
    rcases (admits_iff top).mp admits with above | ⟨-, fresh⟩
    · intro mem
      exact absurd (le_largest top mem) (not_le.mpr above)
    · exact fresh

theorem nodup_offer (distinct : taken.Nodup) (wrapped : ℤ) : (offer N w taken wrapped).2.Nodup := by
  rw [offer]
  split
  case isTrue admits => exact List.nodup_cons.mpr ⟨admits.fresh, distinct⟩
  case isFalse => exact distinct

theorem nodup_offerAll (distinct : taken.Nodup) (offered : List ℤ) :
    (offerAll N w taken offered).2.Nodup := by
  induction offered generalizing taken with
  | nil => exact distinct
  | cons wrapped rest ih => exact ih (nodup_offer distinct wrapped)

theorem reading_unique (even : N % 2 = 0) (pos : 0 < N) (top : taken.max? = some largest)
    (wrapped : ℤ) : n = reading N taken wrapped ↔
      n % N = wrapped % N ∧ -(N / 2 : ℕ) ≤ n - largest ∧ n - largest < (N / 2 : ℕ) := by
  rw [reading_eq top]
  constructor
  · rintro rfl
    have lower := Int.le_bmod (x := wrapped - largest) pos
    have upper := Int.bmod_lt (x := wrapped - largest) pos
    refine ⟨?_, by omega, by omega⟩
    rw [Int.add_emod, Int.bmod_emod, ← Int.add_emod]
    congr 1
    omega
  · rintro ⟨same, lower, upper⟩
    have near : Int.bmod (n - largest) N = n - largest := Int.bmod_eq_of_le (by omega) (by omega)
    have congruent : (n - largest) % N = (wrapped - largest) % N := Int.ModEq.sub_right largest same
    have : Int.bmod (n - largest) N = Int.bmod (wrapped - largest) N := by
      rw [Int.bmod_def, Int.bmod_def, congruent]
    omega

end Unheaded.Lib.SlidingWindow
