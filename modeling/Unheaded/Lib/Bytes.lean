import Mathlib.Data.Nat.Bitwise
import Mathlib.Tactic.IntervalCases

/-!
# Little-endian bytes of a 32-bit word

Byte `k` of a word is its bits `8k` to `8k+7`.
-/

namespace Unheaded.Lib

open BitVec

/-- Byte `k` of a word. -/
def byteOf (w : BitVec 32) (k : Nat) : BitVec 8 := w.extractLsb' (8 * k) 8

/-- Halfword `k` of a word. -/
def halfOf (w : BitVec 32) (k : Nat) : BitVec 16 := w.extractLsb' (16 * k) 16

/-- Insert `value` at bit `shift`, clearing `mask << shift` first. -/
def insertField (old mask value : BitVec 32) (shift : Nat) : BitVec 32 :=
  (old &&& ~~~(mask <<< shift)) ||| (value <<< shift)

def wordOfBytes (b3 b2 b1 b0 : BitVec 8) : BitVec 32 :=
  (b3.setWidth 32 <<< 24) ||| (b2.setWidth 32 <<< 16) ||| (b1.setWidth 32 <<< 8) ||| b0.setWidth 32

def halfOfBytes (b1 b0 : BitVec 8) : BitVec 16 := (b1.setWidth 16 <<< 8) ||| b0.setWidth 16

variable {i j : Nat}

variable (w : BitVec 32)

theorem getElem_byteOf (k : Nat) (hi : i < 8) : (byteOf w k)[i] = w.getLsbD (8 * k + i) := by
  simp [byteOf]

theorem getElem_halfOf (k : Nat) (hi : i < 16) : (halfOf w k)[i] = w.getLsbD (16 * k + i) := by
  simp [halfOf]

theorem masked_eq_extract (start n : Nat) (mask : BitVec 32)
    (ones : ∀ k (_ : k < 32), mask[k] = decide (k < n)) :
    (w >>> start) &&& mask = (w.extractLsb' start n).setWidth 32 := by
  ext k hk
  rw [getElem_and, getElem_ushiftRight, ones k hk, getElem_setWidth,
    getLsbD_extractLsb', Bool.and_comm]

theorem shift_and_byte (k : Nat) : (w >>> (k * 8)) &&& 0xFF = (byteOf w k).setWidth 32 := by
  rw [Nat.mul_comm]
  exact masked_eq_extract w (8 * k) 8 0xFF (by decide)

theorem shift_and_half (k : Nat) : (w >>> (2 * k * 8)) &&& 0xFFFF = (halfOf w k).setWidth 32 := by
  rw [Nat.mul_right_comm]
  exact masked_eq_extract w (16 * k) 16 0xFFFF (by decide)

theorem shift_mask_byte (k : Nat) : ((w >>> (k * 8)) &&& 0xFF).setWidth 8 = byteOf w k := by
  rw [shift_and_byte w k]
  simp

theorem shift_mask_half (k : Nat) : ((w >>> (2 * k * 8)) &&& 0xFFFF).setWidth 16 = halfOf w k := by
  rw [shift_and_half w k]
  simp

theorem halfOf_eq (k : Nat) :
    halfOf w k = halfOfBytes (byteOf w (2 * k + 1)) (byteOf w (2 * k)) := by
  ext i hi
  rw [getElem_halfOf w k hi]
  by_cases low : i < 8
  · have place : 8 * (2 * k) + i = 16 * k + i := by omega
    simp [halfOfBytes, byteOf, low, place]
  · have place : 8 * (2 * k + 1) + (i - 8) = 16 * k + i := by omega
    have high : i - 8 < 8 := by omega
    simp [halfOfBytes, byteOf, low, high, place]

theorem word_eq : w = wordOfBytes (byteOf w 3) (byteOf w 2) (byteOf w 1) (byteOf w 0) := by
  ext i hi
  interval_cases i <;> simp [wordOfBytes, byteOf]

theorem byteOf_wordOfBytes (b3 b2 b1 b0 : BitVec 8) :
    byteOf (wordOfBytes b3 b2 b1 b0) 0 = b0 ∧ byteOf (wordOfBytes b3 b2 b1 b0) 1 = b1 ∧
      byteOf (wordOfBytes b3 b2 b1 b0) 2 = b2 ∧ byteOf (wordOfBytes b3 b2 b1 b0) 3 = b3 := by
  refine ⟨?_, ?_, ?_, ?_⟩ <;>
  · ext i hi
    interval_cases i <;> simp [wordOfBytes, byteOf]

variable {v : BitVec 32}

theorem eq_of_bytes {w : BitVec 32} (h : ∀ k < 4, byteOf v k = byteOf w k) : v = w := by
  rw [word_eq v, word_eq w, h 0 (by decide), h 1 (by decide), h 2 (by decide), h 3 (by decide)]

variable (w : BitVec 32)

theorem getLsbD_insertField {n : Nat} (v : BitVec n) (shift : Nat) {mask : BitVec 32}
    (ones : ∀ k (_ : k < 32), mask[k] = decide (k < n)) (hi : i < 32) :
    (insertField w mask (v.setWidth 32) shift).getLsbD i =
      if shift ≤ i ∧ i < shift + n then v.getLsbD (i - shift) else w.getLsbD i := by
  have set : (mask <<< shift).getLsbD i = decide (shift ≤ i ∧ i < shift + n) := by
    rw [getLsbD_shiftLeft]
    by_cases below : i < shift
    · have outside : ¬ (shift ≤ i ∧ i < shift + n) := by omega
      simp [below]
    · have bit := ones (i - shift) (by omega)
      rw [← getLsbD_eq_getElem] at bit
      rw [bit]
      have same : i - shift < n ↔ shift ≤ i ∧ i < shift + n := by omega
      simp [hi, below, same]
  rw [insertField, getLsbD_or, getLsbD_and, getLsbD_not, set, getLsbD_shiftLeft, getLsbD_setWidth]
  by_cases inside : shift ≤ i ∧ i < shift + n
  · have above : ¬ i < shift := by omega
    have small : i - shift < 32 := by omega
    simp [hi, inside, small]
  · by_cases below : i < shift
    · simp [hi, inside, below]
    · rw [getLsbD_of_ge v (i - shift) (by omega)]
      simp [hi, inside]

theorem byteOf_insertByte (v : BitVec 8) (k : Nat) (hj : j < 4) :
    byteOf (insertField w 0xFF (v.setWidth 32) (k * 8)) j = if j = k then v else byteOf w j := by
  ext i hi
  rw [getElem_byteOf _ j hi, getLsbD_insertField w v (k * 8) (by decide) (by omega)]
  by_cases same : j = k
  · have place : 8 * j + i - k * 8 = i := by omega
    rw [if_pos (by omega), place, if_pos same, getLsbD_eq_getElem hi]
  · rw [if_neg (by omega), if_neg same, getElem_byteOf w j hi]

theorem byteOf_insertHalf (v : BitVec 16) (k : Nat) (hj : j < 4) :
    byteOf (insertField w 0xFFFF (v.setWidth 32) (2 * k * 8)) j =
      if j / 2 = k then v.extractLsb' (8 * (j % 2)) 8 else byteOf w j := by
  ext i hi
  rw [getElem_byteOf _ j hi, getLsbD_insertField w v (2 * k * 8) (by decide) (by omega)]
  by_cases same : j / 2 = k
  · have place : 8 * j + i - 2 * k * 8 = 8 * (j % 2) + i := by omega
    rw [if_pos (by omega), place]
    simp [same]
  · rw [if_neg (by omega)]
    simp [same, getElem_byteOf w j hi]

theorem high_or_low (v : BitVec 32) :
    ((v >>> 16).setWidth 16).setWidth 32 <<< 16 ||| (v.setWidth 16).setWidth 32 = v := by
  apply eq_of_getLsbD_eq
  intro k hk
  by_cases low : k < 16
  · simp [low, hk]
  · have back : 16 + (k - 16) = k := by omega
    have inside : k - 16 < 16 := by omega
    simp [low, hk, back, inside]

theorem setWidth_mask_half (v : BitVec 32) :
    ((v &&& (0xFFFF : BitVec 32)).setWidth 16 : BitVec 16) = v.setWidth 16 := by
  ext k hk
  interval_cases k <;> simp

theorem half_and_mask (v : BitVec 16) : v.setWidth 32 &&& (0xFFFF : BitVec 32) = v.setWidth 32 := by
  ext k hk
  interval_cases k <;> simp

theorem setWidth_half_of_le (small : v.toNat ≤ 0xFFFF) : (v.setWidth 16).setWidth 32 = v := by
  apply eq_of_toNat_eq
  simp only [toNat_setWidth]
  omega

theorem sshiftRight_half (v : BitVec 16) :
    (v.setWidth 32 <<< 16).sshiftRight 16 = v.signExtend 32 := by
  ext k hk
  rw [getElem_sshiftRight, getElem_signExtend]
  interval_cases k <;> simp [msb_eq_getLsbD_last]

theorem sshiftRight_byte (v : BitVec 8) :
    (v.setWidth 32 <<< 24).sshiftRight 24 = v.signExtend 32 := by
  ext k hk
  rw [getElem_sshiftRight, getElem_signExtend]
  interval_cases k <;> simp [msb_eq_getLsbD_last]

theorem signExtend_through_half (i : BitVec 12) :
    ((i.signExtend 32).setWidth 16).signExtend 32 = i.signExtend 32 := by
  ext k hk
  interval_cases k <;> simp [msb_eq_getLsbD_last, getElem_signExtend]

theorem toNat_le_of_toInt (nonneg : 0 ≤ v.toInt) (small : v.toInt ≤ 0xFFFF) : v.toNat ≤ 0xFFFF := by
  have value := toInt_eq_toNat_cond v
  split at value <;> omega

theorem signExtend12_range (i : BitVec 12) :
    -32768 ≤ (i.signExtend 32).toInt ∧ (i.signExtend 32).toInt ≤ 32767 := by
  rw [toInt_signExtend_of_le (by decide)]
  have low := le_toInt i
  have high := toInt_lt (x := i)
  omega

/-! ## Masks

A mask splits a word into two parts that add up to it.  A mask of ones at the low
end gives the quotient and the remainder by a power of two.
-/

section Masks

variable {w : Nat} (x m : BitVec w)

theorem toNat_mask_add : (x &&& ~~~m).toNat + (x &&& m).toNat = x.toNat := by
  have apart : (x &&& ~~~m) &&& (x &&& m) = 0#w := by
    ext i hi
    simp only [getElem_and, getElem_not, BitVec.getElem_zero]
    cases x[i] <;> cases m[i] <;> rfl
  have joined : (x &&& ~~~m) ||| (x &&& m) = x := by
    ext i hi
    simp only [getElem_and, getElem_not, getElem_or]
    cases x[i] <;> cases m[i] <;> rfl
  rw [← toNat_add_of_and_eq_zero apart, add_eq_or_of_and_eq_zero _ _ apart, joined]

theorem toNat_mask_le : (x &&& m).toNat ≤ m.toNat := by
  exact Nat.and_le_right

variable {x m}

theorem toNat_mask_mod_four (ones : m.toNat % 4 = 3) : (x &&& ~~~m).toNat % 4 = 0 := by
  have split := toNat_mask_add x m
  have low : (x &&& m).toNat % 4 = x.toNat % 4 := by
    have four : (4 : Nat) = 2 ^ 2 := rfl
    rw [toNat_and, four, Nat.and_mod_two_pow, ones]
    exact (Nat.and_two_pow_sub_one_eq_mod (x.toNat % 4) 2).trans (Nat.mod_mod x.toNat 4)
  omega

theorem toNat_mask_two_pow {n : Nat} (ones : m.toNat = 2 ^ n - 1) :
    (x &&& ~~~m).toNat = x.toNat / 2 ^ n * 2 ^ n := by
  have split := toNat_mask_add x m
  have low : (x &&& m).toNat = x.toNat % 2 ^ n := by
    rw [toNat_and, ones, Nat.and_two_pow_sub_one_eq_mod]
  have whole := Nat.div_add_mod x.toNat (2 ^ n)
  rw [Nat.mul_comm] at whole
  omega

end Masks

end Unheaded.Lib
