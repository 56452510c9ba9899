import Unheaded.Mbc.Rv32
import Unheaded.Mbc.Translator

/-!
# The translator decodes RV32

The translator's shift-and-mask fields are the fields of the RISC-V formats,
and its sign extensions are the formats' signed immediates.
-/

namespace Unheaded.Mbc.Translator

open Lib BitVec Rv32

variable (w : Word)

theorem rvRd_eq : rvRd w = rd w := by
  ext k hk
  interval_cases k <;> simp [rvRd, rd]

theorem rvRs1_eq : rvRs1 w = rs1 w := by
  ext k hk
  interval_cases k <;> simp [rvRs1, rs1]

theorem rvRs2_eq : rvRs2 w = rs2 w := by
  ext k hk
  interval_cases k <;> simp [rvRs2, rs2]

theorem rvOpcode_eq : rvOpcode w = (opcode w).setWidth 32 := by
  ext k hk
  interval_cases k <;> simp [rvOpcode, opcode]

theorem rvFunct3_eq : rvFunct3 w = (funct3 w).setWidth 8 := by
  ext k hk
  interval_cases k <;> simp [rvFunct3, funct3]

theorem rvFunct7_eq : rvFunct7 w = (funct7 w).setWidth 8 := by
  ext k hk
  interval_cases k <;> simp [rvFunct7, funct7]

theorem upperImm_eq : upperImm w = (immU w).setWidth 32 <<< 12 := by
  ext k hk
  interval_cases k <;> simp [upperImm, immU]

theorem mask_ne_zero (raw : Word) {b : Nat} (hb : b < 32) :
    raw &&& BitVec.twoPow 32 b ≠ 0 ↔ raw.getLsbD b = true := by
  rw [and_twoPow]
  by_cases bit : raw.getLsbD b = true
  · rw [if_pos bit]
    refine iff_of_true (fun zero => ?_) bit
    have at_b := congrArg (fun v : Word => v.getLsbD b) zero
    simp [hb] at at_b
  · rw [if_neg bit]
    exact iff_of_false (fun h => h rfl) bit

theorem ite_eq_signExtend {n : Nat} (v : BitVec n) {raw mask high : Word} (hn : n - 1 < 32)
    (field : raw = v.setWidth 32) (bit : mask = BitVec.twoPow 32 (n - 1))
    (above : ∀ k (_ : k < 32), high[k] = decide (n ≤ k)) :
    (if raw &&& mask ≠ 0 then raw ||| high else raw) = v.signExtend 32 := by
  have sign : raw.getLsbD (n - 1) = v.msb := by
    rw [field, msb_eq_getLsbD_last]
    simp [hn]
  rw [bit, ite_cond_congr (propext (mask_ne_zero raw hn)), sign, field]
  ext k hk
  rw [getElem_signExtend]
  by_cases inside : k < n
  · cases v.msb <;> simp [inside, above k hk]
  · cases v.msb <;> simp [inside, above k hk, Nat.not_lt.mp inside]

theorem setWidth_shiftLeft_field {m n : Nat} (x : BitVec m) {s : Nat} (fits : m + s ≤ n) :
    (x.setWidth n <<< s).setWidth 32 = x.setWidth 32 <<< s := by
  ext k hk
  rw [getElem_setWidth, getLsbD_shiftLeft, getElem_shiftLeft, getLsbD_setWidth]
  by_cases below : k < s
  · simp [below]
  · rw [getElem_setWidth]
    by_cases inside : k - s < m
    · have wide : k < n := by omega
      have wide' : k - s < n := by omega
      simp [wide, wide']
    · rw [getLsbD_of_ge x _ (Nat.not_lt.mp inside)]
      simp

theorem signExtend12_eq : signExtend12 (w >>> 20) = (immI w).signExtend 32 := by
  have field : w >>> 20 = (immI w).setWidth 32 := by
    ext k hk
    rw [getElem_ushiftRight, getElem_setWidth, immI, getLsbD_extractLsb']
    by_cases inside : k < 12
    · simp [inside]
    · rw [getLsbD_of_ge w (20 + k) (by omega), Bool.and_false]
  have low : (w >>> 20) &&& (0xFFF : Word) = w >>> 20 :=
    (masked_eq_extract w 20 12 0xFFF (by decide)).trans field.symm
  rw [signExtend12, low]
  exact ite_eq_signExtend (immI w) (by decide) field rfl (by decide)

theorem decodeSImm_eq : decodeSImm w = (immS w).signExtend 32 := by
  apply ite_eq_signExtend (immS w) (by decide) _ rfl (by decide)
  rw [immS, setWidth_or, setWidth_shiftLeft_field _ (by decide),
    setWidth_setWidth (by decide), masked_eq_extract w 25 7 0x7F (by decide),
    masked_eq_extract w 7 5 0x1F (by decide)]

theorem decodeBImm_eq : decodeBImm w = (immB w).signExtend 32 := by
  apply ite_eq_signExtend (immB w) (by decide) _ rfl (by decide)
  rw [immB, setWidth_or, setWidth_or, setWidth_or,
    setWidth_shiftLeft_field _ (by decide), setWidth_shiftLeft_field _ (by decide),
    setWidth_shiftLeft_field _ (by decide), setWidth_shiftLeft_field _ (by decide),
    masked_eq_extract w 31 1 1 (by decide), masked_eq_extract w 7 1 1 (by decide),
    masked_eq_extract w 25 6 0x3F (by decide), masked_eq_extract w 8 4 0xF (by decide)]

theorem decodeJImm_eq : decodeJImm w = (immJ w).signExtend 32 := by
  apply ite_eq_signExtend (immJ w) (by decide) _ rfl (by decide)
  rw [immJ, setWidth_or, setWidth_or, setWidth_or,
    setWidth_shiftLeft_field _ (by decide), setWidth_shiftLeft_field _ (by decide),
    setWidth_shiftLeft_field _ (by decide), setWidth_shiftLeft_field _ (by decide),
    masked_eq_extract w 31 1 1 (by decide), masked_eq_extract w 12 8 0xFF (by decide),
    masked_eq_extract w 20 1 1 (by decide), masked_eq_extract w 21 10 0x3FF (by decide)]

end Unheaded.Mbc.Translator
