import Mathlib.Data.Fintype.Card
import Unheaded.Net.Packet

/-!
# The entropy feature of the anomaly detector

`extract_entropy_feature` of `anomaly-ebpf` counts the first occurrences in a
window of 16 bytes without a branch on the data.
-/

namespace Unheaded.Net

open List Mbc Finset
open BitVec (ofNat)

/-- `((j as u32).wrapping_sub(i as u32) >> 31) & 1`. -/
def earlier (j i : Fin 16) : Word := ((ofNat 32 j - ofNat 32 i) >>> 31) &&& 1

/-- The borrow of `x - 1` past bit 8, for `x` the two bytes xored. -/
def eqBit (a b : Byte) : Word := (((a ^^^ b).setWidth 32 - 1) >>> 8) &&& 1

variable (bytes : Fin 16 → Byte)

def dupBit (i : Fin 16) : Word :=
  (finRange 16).foldl (fun dup j => dup ||| (eqBit (bytes i) (bytes j) &&& earlier j i)) 0

def uniqueCount : Word :=
  (finRange 16).foldl (fun count i => count + (1 - dupBit bytes i)) 0

/-- The offsets are distances from `data`; the result is an `i16`. -/
def extractEntropyFeature (f : Frame) (payloadStart : Nat) : BitVec 16 :=
  if payloadStart + 16 > f.length then 0
  else (uniqueCount fun i => f.byteAt (payloadStart + i)).setWidth 16 * 62

theorem earlier_eq : ∀ j i, earlier j i = if j < i then 1 else 0 := by
  decide

theorem eqBit_eq (a b : Byte) : eqBit a b = if a = b then 1 else 0 := by
  have borrow : ∀ x : Byte, ((x.setWidth 32 - 1) >>> 8) &&& 1 = if x = 0 then (1 : Word) else 0 := by
    decide
  rw [eqBit, borrow]
  exact if_congr BitVec.xor_eq_zero_iff rfl rfl

theorem foldl_or_bit {α : Type} (p : α → Prop) [DecidablePred p] (l : List α) (c : Prop) [Decidable c] :
    l.foldl (fun d a => d ||| if p a then (1 : Word) else 0) (if c then 1 else 0) =
      if c ∨ ∃ a ∈ l, p a then 1 else 0 := by
  induction l generalizing c with
  | nil => simp
  | cons a l ih =>
    have joined : (if c then (1 : Word) else 0) ||| (if p a then 1 else 0) =
        if c ∨ p a then 1 else 0 := by
      by_cases hc : c <;> by_cases ha : p a <;> simp [hc, ha]
    rw [foldl_cons, joined, ih]
    simp only [exists_mem_cons_iff, or_assoc]

theorem dupBit_eq (i : Fin 16) : dupBit bytes i = if ∃ j < i, bytes i = bytes j then 1 else 0 := by
  have bit : ∀ j, eqBit (bytes i) (bytes j) &&& earlier j i =
      if j < i ∧ bytes i = bytes j then 1 else 0 := by
    intro j
    rw [eqBit_eq, earlier_eq]
    by_cases same : bytes i = bytes j <;> by_cases before : j < i <;> simp [same, before]
  have folded := foldl_or_bit (fun j => j < i ∧ bytes i = bytes j) (finRange 16) False
  rw [if_neg not_false] at folded
  simp only [dupBit, bit, folded, false_or, mem_finRange, true_and]

theorem foldl_count {α : Type} (p : α → Prop) [DecidablePred p] (l : List α) (n : Nat) :
    l.foldl (fun c a => c + (1 - if p a then (1 : Word) else 0)) (ofNat 32 n) =
      ofNat 32 (n + l.countP fun a => ¬ p a) := by
  induction l generalizing n with
  | nil => rfl
  | cons a l ih =>
    rw [foldl_cons]
    by_cases dup : p a
    · rw [if_pos dup, countP_cons_of_neg (by simpa using dup)]
      exact (congrArg (List.foldl _ · l) (BitVec.add_zero _)).trans (ih n)
    · rw [if_neg dup, countP_cons_of_pos (by simpa using dup), Nat.add_comm _ 1, ← Nat.add_assoc,
        ← ih, BitVec.ofNat_add]
      rfl

theorem card_first_occurrences {α β : Type} [Fintype α] [LinearOrder α] [WellFoundedLT α]
    [DecidableEq β] (g : α → β) [DecidablePred fun i => ∃ j < i, g i = g j] :
    (univ.filter fun i => ¬ ∃ j < i, g i = g j).card = (univ.image g).card := by
  rw [← Finset.card_image_of_injOn (f := g)]
  · congr 1
    ext b
    simp only [Finset.mem_image, Finset.mem_filter, Finset.mem_univ, true_and]
    refine ⟨fun ⟨i, _, here⟩ => ⟨i, here⟩, fun ⟨i, here⟩ => ?_⟩
    obtain ⟨k, found, least⟩ := WellFounded.has_min (wellFounded_lt (α := α)) {k | g k = b} ⟨i, here⟩
    exact ⟨k, fun ⟨j, before, same⟩ => least j (same.symm.trans found) before, found⟩
  · intro i first j second same
    simp only [Finset.coe_filter, Finset.mem_univ, true_and, Set.mem_ofPred_eq] at first second
    rcases lt_trichotomy i j with before | equal | after
    · exact absurd ⟨i, before, same.symm⟩ second
    · exact equal
    · exact absurd ⟨j, after, same⟩ first

theorem uniqueCount_eq : uniqueCount bytes = ofNat 32 (Finset.univ.image bytes).card := by
  have counted := foldl_count (fun i => ∃ j < i, bytes i = bytes j) (finRange 16) 0
  simp only [uniqueCount, dupBit_eq]
  refine counted.trans ?_
  rw [Nat.zero_add, ← card_first_occurrences bytes, countP_eq_length_filter]
  rfl

/-- The feature is 62 times the number of distinct values of the window. -/
theorem entropy_counts_distinct {f : Frame} {payloadStart : Nat}
    (inside : payloadStart + 16 ≤ f.length) : (extractEntropyFeature f payloadStart).toInt =
      62 * (univ.image fun i : Fin 16 => f.byteAt (payloadStart + i)).card := by
  have scaled : ∀ n : Fin 17, ((ofNat 32 n).setWidth 16 * 62#16).toInt = 62 * (n : Nat) := by
    decide
  generalize window : (fun i : Fin 16 => f.byteAt (payloadStart + i)) = bytes
  have few : (univ.image bytes).card < 17 := Nat.lt_succ_of_le card_image_le
  rw [extractEntropyFeature, if_neg (by omega), window, uniqueCount_eq]
  generalize (univ.image bytes).card = n at few
  exact scaled ⟨n, few⟩

theorem entropy_of_two_values : (extractEntropyFeature (replicate 15 0 ++ [1]) 0).toInt = 124 :=
  (entropy_counts_distinct (by decide)).trans (by decide)

end Unheaded.Net
