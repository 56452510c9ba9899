import Mathlib.Algebra.Group.Int.Defs
import Mathlib.Algebra.Group.Nat.Defs
import Unheaded.Lib.Events
import Unheaded.Lib.Store

/-!
# Operations that can stop a program

In a build with overflow checks an operation whose result does not fit stops the program, and so
does a division by 0, a shift by the width or more, and an index out of range.
-/

namespace Unheaded.Lib

namespace Usize

variable (a b : Nat)

def checkedAdd : Option Nat := if a + b < 2 ^ 64 then some (a + b) else none

def checkedSub : Option Nat := if b ≤ a then some (a - b) else none

def checkedMul : Option Nat := if a * b < 2 ^ 64 then some (a * b) else none

def checkedRem : Option Nat := if b = 0 then none else some (a % b)

variable {a b : Nat}

theorem checkedAdd_of_fits (fits : a + b < 2 ^ 64) : checkedAdd a b = some (a + b) := if_pos fits

theorem checkedSub_of_le (fits : b ≤ a) : checkedSub a b = some (a - b) := if_pos fits

theorem checkedMul_of_fits (fits : a * b < 2 ^ 64) : checkedMul a b = some (a * b) := if_pos fits

theorem checkedRem_of_pos (pos : 0 < b) : checkedRem a b = some (a % b) :=
  if_neg (Nat.ne_of_gt pos)

end Usize

section Words

variable {w : Nat}

variable (a b : BitVec w)

def checkedAdd : Option (BitVec w) :=
  if a.toNat + b.toNat < 2 ^ w then some (a + b) else none

def checkedMul : Option (BitVec w) :=
  if a.toNat * b.toNat < 2 ^ w then some (a * b) else none

def checkedMulSigned : Option (BitVec w) :=
  if -2 ^ (w - 1) ≤ a.toInt * b.toInt ∧ a.toInt * b.toInt < 2 ^ (w - 1) then some (a * b) else none

def checkedDiv : Option (BitVec w) := if b = 0 then none else some (a / b)

def checkedRem : Option (BitVec w) := if b = 0 then none else some (a % b)

def checkedShl (a : BitVec w) (n : Nat) : Option (BitVec w) := if n < w then some (a <<< n) else none

def checkedShr (a : BitVec w) (n : Nat) : Option (BitVec w) := if n < w then some (a >>> n) else none

def checkedSar (a : BitVec w) (n : Nat) : Option (BitVec w) :=
  if n < w then some (a.sshiftRight n) else none

variable {a b : BitVec w} {n : Nat}

theorem checkedAdd_of_fits (fits : a.toNat + b.toNat < 2 ^ w) : checkedAdd a b = some (a + b) :=
  if_pos fits

theorem checkedMul_of_fits (fits : a.toNat * b.toNat < 2 ^ w) : checkedMul a b = some (a * b) :=
  if_pos fits

theorem checkedDiv_of_ne (nonzero : b ≠ 0) : checkedDiv a b = some (a / b) := if_neg nonzero

theorem checkedRem_of_ne (nonzero : b ≠ 0) : checkedRem a b = some (a % b) := if_neg nonzero

theorem checkedShl_of_lt (small : n < w) : checkedShl a n = some (a <<< n) := if_pos small

theorem checkedShr_of_lt (small : n < w) : checkedShr a n = some (a >>> n) := if_pos small

theorem checkedSar_of_lt (small : n < w) : checkedSar a n = some (a.sshiftRight n) := if_pos small

end Words

/-- A place in an array of `bound` entries that are numbered by `w` bits. -/
def checkedIndex (bound w n : Nat) : Option (BitVec w) :=
  if n < bound then some (BitVec.ofNat w n) else none

theorem checkedIndex_toNat {bound w : Nat} {x : BitVec w} (inside : x.toNat < bound) :
    checkedIndex bound w x.toNat = some x := by
  rw [checkedIndex, if_pos inside, BitVec.ofNat_toNat, BitVec.setWidth_eq]

namespace Store

variable {α : Type _} [Inhabited α]

variable (s : Store α)

def set? (i : Nat) (v : α) : Option (Store α) :=
  if i < s.len then some (s.set i v) else none

/-- `if i < s.len() { s[i] = v }`. -/
def writeGuarded (i : Nat) (v : α) : Option (Store α) :=
  if i < s.len then s.set? i v else some s

/-- `if i < s.len() { s[i] } else { d }`. -/
def readGuarded (i : Nat) (d : α) : Option α :=
  if i < s.len then s.get? i else some d

theorem writeGuarded_eq (i : Nat) (v : α) : s.writeGuarded i v = some (s.set i v) := by
  unfold writeGuarded set?
  split
  next => rfl
  next outside => rw [set_of_not_lt s outside]

theorem readGuarded_eq (i : Nat) (d : α) : s.readGuarded i d = some (s.getD i d) := by
  unfold readGuarded get? getD
  split
  next => rfl
  next => rfl

def readThen {β : Type _} (i : Nat) (f : α → β) (b : β) : Option β :=
  if i < s.len then (s.get? i).map f else some b

theorem readThen_eq {β : Type _} (i : Nat) (f : α → β) (b : β) :
    s.readThen i f b = some (if i < s.len then f (s.cell i) else b) := by
  unfold readThen
  split
  next inside =>
    rw [get?_of_lt s inside]
    rfl
  next => rfl

end Store

theorem bind_of_some {α β : Type _} {x : Option α} {a : α} {f : α → Option β} (goes : x = some a) :
    (x >>= f) = f a := by
  rw [goes]
  rfl

theorem foldlM_eq_some {σ ι : Type _} {f : σ → ι → Option σ} {g : σ → ι → σ} {items : List ι}
    (rounds : ∀ s, ∀ i ∈ items, f s i = some (g s i)) (s : σ) :
    items.foldlM f s = some (items.foldl g s) := by
  induction items generalizing s with
  | nil => rfl
  | cons i items ih =>
    rw [List.foldlM_cons, rounds s i List.mem_cons_self]
    exact ih (fun s j mem => rounds s j (List.mem_cons_of_mem i mem)) (g s i)

theorem foldlM_isSome_iff {σ ε : Type _} {after : σ → ε → σ} {f : σ → ε → Option σ}
    {P : σ → ε → Prop} {Inv : σ → Prop} (step : ∀ s e, Inv s → P s e → Inv (after s e))
    (goes : ∀ s e, Inv s → P s e → f s e = some (after s e))
    (stops : ∀ s e, Inv s → ¬ P s e → f s e = none) {s : σ} (start : Inv s) (events : List ε) :
    (events.foldlM f s).isSome ↔ Along after P s events := by
  induction events generalizing s with
  | nil => exact iff_of_true rfl trivial
  | cons e events ih =>
    rw [List.foldlM_cons]
    by_cases allowed : P s e
    · rw [bind_of_some (goes s e start allowed), ih (step s e start allowed)]
      exact ⟨fun rest => ⟨allowed, rest⟩, And.right⟩
    · rw [stops s e start allowed]
      exact iff_of_false (fun none => nomatch none) fun run => allowed run.1

end Unheaded.Lib
