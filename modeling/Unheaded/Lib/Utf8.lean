import Mathlib.Data.Nat.Notation

/-!
# Runes of a byte string

A byte string is read as UTF-8. Bytes that begin no valid sequence stand for themselves, each as
one invalid rune.
-/

namespace Unheaded.Lib

open List

def isContinuation (b : BitVec 8) : Bool := 0x80 ≤ b.toNat && b.toNat ≤ 0xBF

def isSecond (x : Nat) (b : BitVec 8) : Bool :=
  isContinuation b && (x ≠ 0xE0 || 0xA0 ≤ b.toNat) && (x ≠ 0xED || b.toNat ≤ 0x9F) &&
    (x ≠ 0xF0 || 0x90 ≤ b.toNat) && (x ≠ 0xF4 || b.toNat ≤ 0x8F)

/-- The first rune and the number of its bytes, if the string begins with a valid
sequence. -/
def decodeRune : List (BitVec 8) → Option (Nat × Nat)
  | [] => none
  | b :: rest =>
    let x := b.toNat
    if x < 0x80 then some (x, 1)
    else if 0xC2 ≤ x ∧ x ≤ 0xDF then
      match rest with
      | c :: _ => if isSecond x c then some (x % 32 * 64 + c.toNat % 64, 2) else none
      | [] => none
    else if 0xE0 ≤ x ∧ x ≤ 0xEF then
      match rest with
      | c :: d :: _ =>
        if isSecond x c && isContinuation d then
          some (x % 16 * 4096 + c.toNat % 64 * 64 + d.toNat % 64, 3)
        else none
      | _ => none
    else if 0xF0 ≤ x ∧ x ≤ 0xF4 then
      match rest with
      | c :: d :: e :: _ =>
        if isSecond x c && isContinuation d && isContinuation e then
          some (x % 8 * 262144 + c.toNat % 64 * 4096 + d.toNat % 64 * 64 + e.toNat % 64, 4)
        else none
      | _ => none
    else none

/-- The runes of the first `n` positions. -/
def runesWithin : Nat → List (BitVec 8) → List (Option Nat)
  | 0, _ => []
  | _ + 1, [] => []
  | n + 1, b :: rest =>
    match decodeRune (b :: rest) with
    | none => none :: runesWithin n rest
    | some (rune, width) => some rune :: runesWithin n ((b :: rest).drop width)

variable (s : List (BitVec 8))

def runes : List (Option Nat) := runesWithin s.length s

/-- In the first `n` positions, every byte that begins no valid sequence is replaced
by U+FFFD. -/
def toValidUtf8Within : Nat → List (BitVec 8) → List (BitVec 8)
  | 0, _ => []
  | _ + 1, [] => []
  | n + 1, b :: rest =>
    match decodeRune (b :: rest) with
    | none => [0xEF, 0xBF, 0xBD] ++ toValidUtf8Within n rest
    | some (_, width) => (b :: rest).take width ++ toValidUtf8Within n ((b :: rest).drop width)

def toValidUtf8 : List (BitVec 8) := toValidUtf8Within s.length s

def validUtf8 : Bool := (runes s).all Option.isSome

theorem isSecond_low {x : Nat} {c : BitVec 8} (h : isSecond x c = true) :
    c.toNat ≤ 0xBF ∧ (x = 0xE0 → 0xA0 ≤ c.toNat) ∧ (x = 0xF0 → 0x90 ≤ c.toNat) := by
  simp only [isSecond, isContinuation, Bool.and_eq_true, Bool.or_eq_true, decide_eq_true_eq] at h
  omega

theorem decodeRune_ascii {b : BitVec 8} {rest : List (BitVec 8)} {rune width : Nat}
    (h : decodeRune (b :: rest) = some (rune, width)) (hascii : rune < 0x80) :
    rune = b.toNat ∧ width = 1 := by
  simp only [decodeRune] at h
  split at h
  · rw [Option.some.injEq, Prod.mk.injEq] at h
    exact ⟨h.1.symm, h.2.symm⟩
  · -- a longer sequence has a rune of more bits
    exfalso
    split at h
    · split at h
      · split at h
        · rw [Option.some.injEq, Prod.mk.injEq] at h
          omega
        · cases h
      · cases h
    · split at h
      · split at h
        · split at h
          · rename_i hsecond
            rw [Bool.and_eq_true] at hsecond
            have hlow := isSecond_low hsecond.1
            rw [Option.some.injEq, Prod.mk.injEq] at h
            omega
          · cases h
        · cases h
      · split at h
        · split at h
          · split at h
            · rename_i hsecond
              rw [Bool.and_eq_true, Bool.and_eq_true] at hsecond
              have hlow := isSecond_low hsecond.1.1
              rw [Option.some.injEq, Prod.mk.injEq] at h
              omega
            · cases h
          · cases h
        · cases h

theorem mem_runes_of_ascii {s : List (BitVec 8)}
    (hascii : ∀ rune ∈ runes s, ∃ x, rune = some x ∧ x < 0x80) {b : BitVec 8} (hb : b ∈ s) :
    some b.toNat ∈ runes s := by
  have main : ∀ (n : Nat) (s : List (BitVec 8)), s.length ≤ n →
      (∀ rune ∈ runesWithin n s, ∃ x, rune = some x ∧ x < 0x80) →
      b ∈ s → some b.toNat ∈ runesWithin n s := by
    intro n
    induction n with
    | zero =>
      intro s hlen _ hb
      rw [length_eq_zero_iff.mp (Nat.le_zero.mp hlen)] at hb
      exact absurd hb not_mem_nil
    | succ n ih =>
      intro s hlen hascii hb
      cases s with
      | nil => exact absurd hb not_mem_nil
      | cons c rest =>
        rw [runesWithin] at hascii ⊢
        cases hrune : decodeRune (c :: rest) with
        | none =>
          rw [hrune] at hascii
          obtain ⟨x, hx, -⟩ := hascii none mem_cons_self
          cases hx
        | some found =>
          obtain ⟨rune, width⟩ := found
          rw [hrune] at hascii
          obtain ⟨x, hx, hlow⟩ := hascii (some rune) mem_cons_self
          cases hx
          obtain ⟨rfl, rfl⟩ := decodeRune_ascii hrune hlow
          rcases mem_cons.mp hb with rfl | hrest
          · exact mem_cons_self
          · refine mem_cons_of_mem _ (ih rest (Nat.le_of_succ_le_succ hlen) ?_ hrest)
            exact fun rune hmem => hascii rune (mem_cons_of_mem _ hmem)
  exact main s.length s (Nat.le_refl _) hascii hb

end Unheaded.Lib
