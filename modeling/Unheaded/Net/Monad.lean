import Unheaded.Mbc.Isa

/-!
# The Monad register

The 20-byte register file carried in an IPv6 Hop-by-Hop option
(`monad_common`): its layout, the header around it and what its checksum detects.
-/

namespace Unheaded.Net

open Mbc BitVec

def MONAD_OPT_TYPE : Byte := 0x3E
def MONAD_OPT_DATA_LEN : Byte := 20
def MONAD_SIZE : Nat := 20
def HBH_HDR_EXT_LEN : Byte := 2

structure Monad where
  version : Byte
  srcServiceId : Byte
  dstServiceId : Byte
  hopCount : Byte
  qosClass : Byte
  flowAction : Byte
  circuitState : Byte
  flags : Byte
  latencyHint : Byte × Byte
  deployRing : Byte
  meshFlags : Byte
  srcPrefixLo : Byte
  dstPrefixLo : Byte
  scratch : Byte × Byte × Byte × Byte
  checksum : Byte × Byte
  deriving DecidableEq

namespace Monad

def toBytes (m : Monad) : List Byte :=
  [m.version, m.srcServiceId, m.dstServiceId, m.hopCount, m.qosClass, m.flowAction,
   m.circuitState, m.flags, m.latencyHint.1, m.latencyHint.2, m.deployRing, m.meshFlags,
   m.srcPrefixLo, m.dstPrefixLo, m.scratch.1, m.scratch.2.1, m.scratch.2.2.1, m.scratch.2.2.2,
   m.checksum.1, m.checksum.2]

/-- `Monad::from_bytes`, over the 20 bytes of the option data. -/
def fromBytes (b : List Byte) : Monad where
  version := b.getD 0 0
  srcServiceId := b.getD 1 0
  dstServiceId := b.getD 2 0
  hopCount := b.getD 3 0
  qosClass := b.getD 4 0
  flowAction := b.getD 5 0
  circuitState := b.getD 6 0
  flags := b.getD 7 0
  latencyHint := (b.getD 8 0, b.getD 9 0)
  deployRing := b.getD 10 0
  meshFlags := b.getD 11 0
  srcPrefixLo := b.getD 12 0
  dstPrefixLo := b.getD 13 0
  scratch := (b.getD 14 0, b.getD 15 0, b.getD 16 0, b.getD 17 0)
  checksum := (b.getD 18 0, b.getD 19 0)

@[simp] theorem length_toBytes (m : Monad) : m.toBytes.length = MONAD_SIZE := rfl

@[simp] theorem fromBytes_toBytes (m : Monad) : fromBytes m.toBytes = m := rfl

end Monad

structure HopByHopHeader where
  nextHeader : Byte
  hdrExtLen : Byte
  optType : Byte
  optDataLen : Byte
  monad : Monad

def HopByHopHeader.toBytes (h : HopByHopHeader) : List Byte :=
  [h.nextHeader, h.hdrExtLen, h.optType, h.optDataLen] ++ h.monad.toBytes

/-! ## Operations of the Monad register

The checksum over the first 18 octets, the flag bits and the header that carries
the register (`monad_common`).
-/

def MONAD_VERSION : Byte := 0x01
def MONAD_CRC_DATA_LEN : Nat := 18
def HBH_TOTAL_LEN : Nat := 24
def IPV6_FIXED_HDR_LEN : Nat := 40
def IPV6_NEXTHDR_HBH : Byte := 0

namespace Flags

def CHAOS : Byte := 0x80
def CANARY : Byte := 0x40
def TRACED : Byte := 0x20
def SAMPLED : Byte := 0x08
def MIRROR : Byte := 0x04
def CUSTOM : Byte := 0x02

end Flags

namespace CircuitState

def CLOSED : Byte := 0x01
def OPEN : Byte := 0x02
def HALF_OPEN : Byte := 0x03

end CircuitState

namespace FlowAction

def FORWARD : Byte := 0x00
def TRACE : Byte := 0x01
def SAMPLE : Byte := 0x02
def DROP : Byte := 0x03
def MIRROR : Byte := 0x04

end FlowAction

namespace DeployRing

def PRODUCTION : Byte := 0x01

end DeployRing

/-- `u16::from_be_bytes`. -/
def be16 (b : Byte × Byte) : BitVec 16 := b.1 ++ b.2

/-- `u16::to_be_bytes`. -/
def toBe16 (v : BitVec 16) : Byte × Byte := (v.extractLsb' 8 8, v.extractLsb' 0 8)

@[simp] theorem be16_toBe16 (v : BitVec 16) : be16 (toBe16 v) = v := by
  unfold be16 toBe16
  ext i hi
  rw [BitVec.getElem_append, ← getLsbD_eq_getElem]
  split
  · simp
  · have high : 8 + (i - 8) = i := by omega
    simp [high]

@[simp] theorem toBe16_be16 (b : Byte × Byte) : toBe16 (be16 b) = b := by
  unfold be16 toBe16
  apply Prod.ext
  · exact extractLsb'_append_eq_left
  · exact extractLsb'_append_eq_right

namespace CrcCcitt

def POLY : BitVec 16 := 0x1021
def INIT : BitVec 16 := 0xFFFF

def bitStep (crc : BitVec 16) : BitVec 16 :=
  if crc &&& 0x8000 ≠ 0 then (crc <<< 1) ^^^ POLY else crc <<< 1

def byteStep (crc : BitVec 16) (b : Byte) : BitVec 16 := bitStep^[8] (crc ^^^ (b.setWidth 16 <<< 8))

@[irreducible] def compute (data : List Byte) : BitVec 16 := data.foldl byteStep INIT

end CrcCcitt

namespace Monad

def new : Monad where
  version := MONAD_VERSION
  srcServiceId := 0
  dstServiceId := 0
  hopCount := 0
  qosClass := 0
  flowAction := FlowAction.FORWARD
  circuitState := CircuitState.CLOSED
  flags := 0
  latencyHint := (0, 0)
  deployRing := DeployRing.PRODUCTION
  meshFlags := 0
  srcPrefixLo := 0
  dstPrefixLo := 0
  scratch := (0, 0, 0, 0)
  checksum := (0, 0)

variable (m : Monad)

def crcRegion : List Byte := m.toBytes.take MONAD_CRC_DATA_LEN

def recomputeChecksum : Monad :=
  { m with checksum := toBe16 (CrcCcitt.compute m.crcRegion) }

def verifyChecksum : Bool := CrcCcitt.compute m.crcRegion == be16 m.checksum

def latencyHintU16 : BitVec 16 := be16 m.latencyHint

def hasFlag (bit : Byte) : Bool := m.flags &&& bit != 0

def setFlag (bit : Byte) : Monad := { m with flags := m.flags ||| bit }

def incrementHop : Monad :=
  { m with hopCount := if m.hopCount = 0xFF then 0xFF else m.hopCount + 1 }

@[simp] theorem crcRegion_recomputeChecksum : m.recomputeChecksum.crcRegion = m.crcRegion := rfl

@[simp] theorem verifyChecksum_recomputeChecksum : m.recomputeChecksum.verifyChecksum = true := by
  have stored : be16 m.recomputeChecksum.checksum = CrcCcitt.compute m.crcRegion := be16_toBe16 _
  rw [verifyChecksum, crcRegion_recomputeChecksum, stored, beq_self_eq_true]

theorem hasFlag_setFlag_of_disjoint {bit other : Byte} (apart : bit &&& other = 0) :
    (m.setFlag bit).hasFlag other = m.hasFlag other := by
  have flags : (m.flags ||| bit) &&& other = m.flags &&& other := by
    rw [and_or_distrib_right, apart]
    exact or_zero
  unfold hasFlag setFlag
  rw [flags]

end Monad

def HopByHopHeader.new (nextHeader : Byte) : HopByHopHeader where
  nextHeader := nextHeader
  hdrExtLen := HBH_HDR_EXT_LEN
  optType := MONAD_OPT_TYPE
  optDataLen := MONAD_OPT_DATA_LEN
  monad := Monad.new

@[simp] theorem HopByHopHeader.length_toBytes (h : HopByHopHeader) :
    h.toBytes.length = HBH_TOTAL_LEN := rfl

/-! ## Bursts of errors

The checksum is the state of a shift register that the bits of the register file go through.  The
shift register is linear and loses nothing, so sixteen wrong bits next to each other always show.
-/

open List

def crcByte (crc : BitVec 16) (b : Byte) : BitVec 16 :=
  (range 8).foldl
    (fun (crc : BitVec 16) _ => if crc &&& 0x8000 ≠ 0 then (crc <<< 1) ^^^ 0x1021 else crc <<< 1)
    (crc ^^^ (b.setWidth 16 <<< 8))

/-- `CRC16CCITT` of `pkg/protocol/encoding`. -/
def crc16CCITT (data : List Byte) : BitVec 16 := data.foldl crcByte 0xFFFF

namespace CrcCcitt

theorem compute_eq_crc16CCITT (data : List Byte) : compute data = crc16CCITT data := by
  unfold compute crc16CCITT
  rfl

variable (c : BitVec 16)

theorem bitStep_eq : bitStep c = (c <<< 1) ^^^ if c.msb then POLY else 0#16 := by
  have top : c &&& 0x8000 ≠ 0 ↔ c.msb = true := by
    rw [show (0x8000 : BitVec 16) = twoPow 16 15 from rfl, and_twoPow, msb_eq_getLsbD_last]
    cases c.getLsbD 15 <;> decide
  unfold bitStep
  by_cases high : c.msb = true
  · rw [if_pos (top.mpr high), if_pos high]
  · rw [if_neg (mt top.mp high), if_neg high, xor_zero]

theorem bitStep_xor (c d : BitVec 16) : bitStep (c ^^^ d) = bitStep c ^^^ bitStep d := by
  have poly : (if c.msb ^^ d.msb then POLY else 0#16) =
      (if c.msb then POLY else 0#16) ^^^ if d.msb then POLY else 0#16 := by
    cases c.msb <;> cases d.msb <;> decide
  rw [bitStep_eq, bitStep_eq, bitStep_eq, shiftLeft_xor_distrib, msb_xor, poly]
  ac_rfl

theorem bitStep_ushiftRight {t : BitVec 16} (even : t.getLsbD 0 = false) : bitStep (t >>> 1) = t := by
  rw [bitStep_eq, msb_eq_getLsbD_last, getLsbD_ushiftRight, getLsbD_of_ge t _ (by decide),
    if_neg Bool.false_ne_true, xor_zero]
  ext i inside
  rw [getElem_shiftLeft, getElem_ushiftRight]
  rcases i with _ | i
  · simpa using even.symm
  · simp [getLsbD_eq_getElem inside, Nat.add_comm 1 i]

theorem bitStep_eq_zero {c : BitVec 16} (zero : bitStep c = 0#16) : c = 0#16 := by
  have low : (bitStep c).getLsbD 0 = c.msb := by
    rw [bitStep_eq, getLsbD_xor, getLsbD_shiftLeft]
    cases c.msb <;> rfl
  have clear : c.msb = false := by rw [← low, zero, getLsbD_zero]
  rw [bitStep_eq, clear, if_neg Bool.false_ne_true, xor_zero] at zero
  refine eq_of_getLsbD_eq fun i inside => ?_
  rw [getLsbD_zero]
  by_cases top : i = 15
  · rw [top]
    exact (msb_eq_getLsbD_last c).symm.trans clear
  · have up := congrArg (getLsbD · (i + 1)) zero
    simpa [getLsbD_shiftLeft, show i + 1 < 16 by omega, getLsbD_eq_getElem inside] using up

theorem iterate_bitStep_eq_zero {c : BitVec 16} {n : Nat} (zero : bitStep^[n] c = 0#16) : c = 0#16 := by
  induction n generalizing c with
  | zero => exact zero
  | succ n ih => exact bitStep_eq_zero (ih zero)

def bitIn (b : Bool) : BitVec 16 := bitStep (c ^^^ if b then 0x8000#16 else 0#16)

def topWord : List Bool → BitVec 16
  | [] => 0#16
  | b :: w => (if b then 0x8000#16 else 0#16) ^^^ (topWord w >>> 1)

theorem getLsbD_topWord (w : List Bool) {i : Nat} (inside : i < 16) :
    (topWord w).getLsbD i = w.getD (15 - i) false := by
  induction w generalizing i with
  | nil => simp [topWord]
  | cons b w ih =>
    have top : (if b then 0x8000#16 else 0#16).getLsbD i = (b && decide (i = 15)) := by
      cases b
      · simp
      · simp only [if_true, Bool.true_and]
        interval_cases i <;> rfl
    rw [topWord, getLsbD_xor, getLsbD_ushiftRight, top]
    by_cases last : i = 15
    · rw [last, getLsbD_of_ge _ _ (by decide)]
      simp
    · have next : 15 - i = 15 - (1 + i) + 1 := by omega
      rw [ih (by omega), next, getD_cons_succ]
      simp [last]

theorem foldl_bitIn {w : List Bool} (short : w.length ≤ 16) :
    w.foldl bitIn c = bitStep^[w.length] (c ^^^ topWord w) := by
  induction w generalizing c with
  | nil => exact (xor_zero).symm
  | cons b w ih =>
    rw [length_cons] at short
    have even : (topWord w).getLsbD 0 = false := by
      rw [getLsbD_topWord w (by decide), List.getD_eq_getElem?_getD,
        List.getElem?_eq_none (by omega), Option.getD_none]
    rw [List.foldl_cons, ih _ (by omega), List.length_cons, Function.iterate_succ_apply, topWord,
      ← BitVec.xor_assoc, bitStep_xor _ (topWord w >>> 1), bitStep_ushiftRight even]
    rfl

theorem foldl_bitIn_zipWith (c d : BitVec 16) {u v : List Bool} (same : u.length = v.length) :
    (zipWith xor u v).foldl bitIn (c ^^^ d) = u.foldl bitIn c ^^^ v.foldl bitIn d := by
  induction u generalizing c d v with
  | nil =>
    obtain rfl := eq_nil_of_length_eq_zero same.symm
    rfl
  | cons b u ih =>
    obtain _ | ⟨e, v⟩ := v
    · cases same
    have bits : (if b ^^ e then 0x8000#16 else 0#16) =
        (if b then 0x8000#16 else 0#16) ^^^ if e then 0x8000#16 else 0#16 := by
      cases b <;> cases e <;> decide
    have split : bitIn (c ^^^ d) (b ^^ e) = bitIn c b ^^^ bitIn d e := by
      rw [bitIn, bitIn, bitIn, bits, ← bitStep_xor]
      ac_rfl
    rw [zipWith_cons_cons, foldl_cons, split, ih _ _ (Nat.succ.inj same)]
    rfl

theorem topWord_append (u v : List Bool) : topWord (u ++ v) = topWord u ^^^ topWord v >>> u.length := by
  induction u with
  | nil => simp [topWord]
  | cons b u ih =>
    rw [List.cons_append, topWord, ih, topWord, List.length_cons, ushiftRight_xor_distrib, shiftRight_add,
      BitVec.xor_assoc]

def bitsOf (b : Byte) : List Bool := (range 8).map b.getMsbD

theorem topWord_bitsOf : ∀ b, topWord (bitsOf b) = b.setWidth 16 <<< 8 := by
  decide +kernel

theorem byteStep_eq (b : Byte) : byteStep c b = (bitsOf b).foldl bitIn c := by
  rw [foldl_bitIn c (by simp [bitsOf]), topWord_bitsOf]
  rfl

theorem foldl_byteStep (data : List Byte) :
    data.foldl byteStep c = (data.flatMap bitsOf).foldl bitIn c := by
  rw [foldl_flatMap]
  exact congrArg (foldl · c data) (funext fun c => funext (byteStep_eq c))

end CrcCcitt

namespace Monad

open CrcCcitt

def bits (m : Monad) : List Bool := m.toBytes.flatMap bitsOf

theorem verifyChecksum_iff (m : Monad) :
    m.verifyChecksum = true ↔ m.bits.foldl bitIn INIT = 0#16 := by
  have word : topWord (bitsOf m.checksum.1 ++ bitsOf m.checksum.2) = be16 m.checksum := by
    rw [topWord_append, topWord_bitsOf, topWord_bitsOf, be16]
    ext i inside
    rw [BitVec.getElem_append]
    by_cases low : i < 8
    · simp [bitsOf, low, show 8 + i < 16 by omega]
    · simp [bitsOf, low, show ¬ 8 + i < 16 by omega, getLsbD_eq_getElem (show i - 8 < 8 by omega)]
  have bytes : m.toBytes = m.crcRegion ++ [m.checksum.1, m.checksum.2] := rfl
  rw [bits, bytes, flatMap_append, foldl_append, ← foldl_byteStep INIT, verifyChecksum,
    beq_iff_eq, compute, flatMap_cons, flatMap_singleton, foldl_bitIn _ (by simp [bitsOf]), word]
  refine ⟨fun same => ?_, fun zero => BitVec.xor_eq_zero_iff.mp (iterate_bitStep_eq_zero zero)⟩
  rw [same, BitVec.xor_self]
  rfl

end Monad

/-- Wrong bits lie within sixteen next to each other. -/
inductive Burst : List Bool → Prop
  | mk (before after : Nat) {w : List Bool} (short : w.length ≤ 16) (some : true ∈ w) :
    Burst (replicate before false ++ w ++ replicate after false)

open CrcCcitt in
theorem Burst.shows {e : List Bool} (burst : Burst e) : e.foldl bitIn 0#16 ≠ 0#16 := by
  obtain @⟨before, after, w, short, some⟩ := burst
  have quiet : ∀ n c, (List.replicate n false).foldl bitIn c = bitStep^[n] c := by
    intro n
    induction n with
    | zero => exact fun _ => rfl
    | succ n ih =>
      intro c
      rw [List.replicate_succ, List.foldl_cons, ih, bitIn, if_neg Bool.false_ne_true, xor_zero]
      rfl
  rw [List.foldl_append, List.foldl_append, quiet, quiet,
    Function.iterate_fixed (x := 0#16) rfl, foldl_bitIn _ short, zero_xor]
  intro zero
  have none := iterate_bitStep_eq_zero (iterate_bitStep_eq_zero zero)
  obtain ⟨i, inside, here⟩ := getElem_of_mem some
  have bit := getLsbD_topWord w (i := 15 - i) (by omega)
  rw [none, getLsbD_zero, show 15 - (15 - i) = i by omega, List.getD_eq_getElem?_getD,
    List.getElem?_eq_getElem inside, here] at bit
  cases bit

/-- A checksum just computed verifies, both languages compute the same one, and a burst of up to
sixteen wrong bits anywhere in a register that verifies shows. -/
theorem checksum_detects : (∀ m : Monad, m.recomputeChecksum.verifyChecksum = true) ∧
      (∀ data, CrcCcitt.compute data = crc16CCITT data) ∧
      ∀ (m m' : Monad) (e : List Bool), m.verifyChecksum = true → Burst e →
        e.length = m.bits.length → m'.bits = zipWith xor m.bits e → m'.verifyChecksum = false := by
  refine ⟨Monad.verifyChecksum_recomputeChecksum, CrcCcitt.compute_eq_crc16CCITT, ?_⟩
  intro m m' e good burst length damaged
  rw [Bool.eq_false_iff, ne_eq, Monad.verifyChecksum_iff, damaged]
  have split := CrcCcitt.foldl_bitIn_zipWith CrcCcitt.INIT 0#16 length.symm
  rw [m.verifyChecksum_iff.mp good, zero_xor, xor_zero] at split
  rw [split]
  exact burst.shows

end Unheaded.Net
