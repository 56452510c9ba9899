import Unheaded.Cart.SlotUpdate
import Unheaded.Cart.Replay

/-!
# The records of the Go loader

`pkg/cartridge` reads and writes the values of the cartridge maps: slot configurations, machine
states and score jobs, at the offsets that the kernel's structs have.
-/

namespace Unheaded.Cart.Loader

open Lib Mbc List
open BitVec (ofNat)

def SlotCfgSize : Nat := 20
def CartStateSize : Nat := 336
def ScoreJobSize : Nat := 80

/-- `SlotCfg.MarshalBinary`: what is not written stays zero. -/
def marshalSlotCfg (c : SlotCfg) : List Byte :=
  [c.active, c.stage, c.flags, 0] ++ (halfBytes c.maxInsn ++ (halfBytes c.romWords ++
    (halfBytes c.dataWords ++ (halfBytes c.entry ++ (halfBytes c.loopBound ++
      ([0, 0] ++ wordBytes c.gen))))))

def unmarshalSlotCfg (b : List Byte) : Except String SlotCfg :=
  if b.length ≠ SlotCfgSize then .error ("cartridge: slot cfg " ++ toString b.length ++ " bytes")
  else .ok {
    active := b.getD 0 0
    stage := b.getD 1 0
    flags := b.getD 2 0
    maxInsn := le16 b 4
    romWords := le16 b 6
    dataWords := le16 b 8
    entry := le16 b 10
    loopBound := le16 b 12
    gen := le32 b 16 }

/-- The loader's `FlowKey` has no reserved byte: that of the kernel's key is zero. -/
abbrev Key : Type := { k : FlowKey // k.rsv = 0 }

/-- `FlowKey.MarshalBinary`. -/
def marshalKey (k : FlowKey) : List Byte :=
  ofFn k.src ++ (ofFn k.dst ++ (halfBytes k.sport ++ (halfBytes k.dport ++
    [k.proto, k.l3, k.slot, 0])))

def decodeFlowKey (b : List Byte) : Key where
  val := {
    src := fun i => b.getD i 0
    dst := fun i => b.getD (16 + i) 0
    sport := le16 b 32
    dport := le16 b 34
    proto := b.getD 36 0
    l3 := b.getD 37 0
    slot := b.getD 38 0
    rsv := 0 }
  property := rfl

/-- `DecodeState`. -/
def decodeCartState (b : List Byte) : Except String CartState :=
  if b.length ≠ CartStateSize then
    .error ("cartridge: state " ++ toString b.length ++ " bytes, want " ++ toString CartStateSize)
  else .ok {
    regs := fun r => le32 b (4 * r.toNat)
    mem := fun i => le32 b (64 + 4 * i.toNat)
    pc := le16 b 320
    flags := b.getD 322 0
    status := b.getD 323 0
    insns := le32 b 324
    backEdges := le32 b 328
    gen := le32 b 332 }

/-- One byte of the hash. -/
def eatByte (h : Word) (b : Byte) : Word := (h ^^^ b.setWidth 32) * 0x01000193

/-- `CartState.Hash`. -/
def hash (s : CartState) : Word :=
  let h := (range 16).foldl (fun h i => (wordBytes (s.regs (ofNat 4 i))).foldl eatByte h)
    0x811c9dc5
  let h := eatByte ((halfBytes s.pc).foldl eatByte h) s.flags
  (range 64).foldl (fun h i => (wordBytes (s.mem (ofNat 6 i))).foldl eatByte h) h

structure ScoreJob where
  flow : Key
  feat : Features
  srcSlot : Byte
  enqNSLo : Word

def decodeScoreJob (b : List Byte) : Except String ScoreJob :=
  if b.length ≠ ScoreJobSize then
    .error ("cartridge: score job " ++ toString b.length ++ " bytes, want " ++
      toString ScoreJobSize)
  else .ok {
    flow := decodeFlowKey (b.take 40)
    srcSlot := b.getD 72 0
    enqNSLo := le32 b 76
    feat := fun i => le32 b (40 + 4 * i.toNat) }

/-- `ScoreJob.MarshalBinary`. -/
def ScoreJob.marshal (j : ScoreJob) : List Byte :=
  marshalKey j.flow ++ (((range 8).map fun i => j.feat (ofNat 3 i)).flatMap wordBytes ++
    ([j.srcSlot, 0, 0, 0] ++ wordBytes j.enqNSLo))

/-- The bytes of the kernel's `SlotCfg`, its reserved fields included. -/
def slotCfgBytes (c : SlotCfg) (rsv : Byte) (rsv2 : Half) : List Byte :=
  [c.active, c.stage, c.flags, rsv] ++
    ([c.maxInsn, c.romWords, c.dataWords, c.entry, c.loopBound, rsv2].flatMap halfBytes ++
      wordBytes c.gen)

/-- The bytes of the kernel's `FlowKey`. -/
def flowKeyBytes (k : FlowKey) (rsv : Byte) : List Byte :=
  ofFn k.src ++ (ofFn k.dst ++ (halfBytes k.sport ++ (halfBytes k.dport ++
    [k.proto, k.l3, k.slot, rsv])))

/-- The bytes of the kernel's `ScoreJob`. -/
def scoreJobBytes (j : ScoreJob) (flowRsv rsv : Byte) (rsv2 : Half) : List Byte :=
  flowKeyBytes j.flow flowRsv ++
    (((range 8).map fun i => j.feat (ofNat 3 i)).flatMap wordBytes ++
      ([j.srcSlot, rsv] ++ (halfBytes rsv2 ++ wordBytes j.enqNSLo)))

theorem marshalSlotCfg_eq (c : SlotCfg) : marshalSlotCfg c = slotCfgBytes c 0 0 := rfl

theorem length_flowKeyBytes (k : FlowKey) (rsv : Byte) : (flowKeyBytes k rsv).length = 40 := by
  simp [flowKeyBytes]

theorem marshalJob_eq (j : ScoreJob) : j.marshal = scoreJobBytes j 0 0 0 := rfl

variable {b : List Byte} {off k : Nat}

theorem getD_cons_drop (inside : off < b.length) : b.getD off 0 :: b.drop (off + 1) = b.drop off := by
  rw [drop_eq_getElem_cons inside, getD_eq_getElem]

theorem halfBytes_append_drop (next : off + 2 = k) (inside : k ≤ b.length) :
    halfBytes (le16 b off) ++ b.drop k = b.drop off := by
  rw [← next, halfBytes_le16, cons_append, singleton_append, getD_cons_drop (by omega),
    getD_cons_drop (by omega)]

theorem ofFn_append_drop {n : Nat} (next : off + n = k) (inside : k ≤ b.length) :
    (ofFn fun i : Fin n => b.getD (off + i) 0) ++ b.drop k = b.drop off := by
  subst next
  induction n generalizing off with
  | zero => rfl
  | succ n ih =>
    have rest := @ih (off + 1) (by omega)
    rw [ofFn_succ, cons_append, ← @getD_cons_drop b off (by omega), ← rest]
    simp [Nat.add_assoc, Nat.add_comm 1]

theorem words_append_drop {n : Nat} (next : off + 4 * n = k) (inside : k ≤ b.length) :
    (words b off n).flatMap wordBytes ++ b.drop k = b.drop off := by
  induction n generalizing off with
  | zero =>
    rw [← next]
    rfl
  | succ n ih =>
    rw [words_succ, flatMap_cons, List.append_assoc, ih (by omega), wordBytes_le32 (by omega)]

theorem map_range_eq_words {w n : Nat} (fits : ∀ i < n, (ofNat w i).toNat = i) :
    ((range n).map fun i => le32 b (off + 4 * (ofNat w i).toNat)) = words b off n := by
  apply map_congr_left
  intro i mem
  rw [fits i (mem_range.mp mem)]

theorem wordBytes_last (full : b.length = off + 4) : wordBytes (le32 b off) = b.drop off := by
  rw [← wordBytes_le32 (by omega), drop_eq_nil_of_le (by omega), append_nil]

theorem slotCfgBytes_unmarshal {c : SlotCfg} (decoded : unmarshalSlotCfg b = .ok c) :
    slotCfgBytes c (b.getD 3 0) (le16 b 14) = b := by
  unfold unmarshalSlotCfg at decoded
  split at decoded
  next => cases decoded
  next length =>
    have full : b.length = 20 := not_not.mp length
    cases decoded
    simp only [slotCfgBytes, flatMap_cons, flatMap_nil, append_nil, List.append_assoc, cons_append,
      nil_append]
    rw [wordBytes_last full]
    iterate 6 rw [halfBytes_append_drop (by rfl) (by omega)]
    iterate 4 rw [getD_cons_drop (by omega)]
    rfl

theorem flowKeyBytes_decode (full : b.length = 40) :
    flowKeyBytes (decodeFlowKey b) (b.getD 39 0) = b := by
  have last : [b.getD 36 0, b.getD 37 0, b.getD 38 0, b.getD 39 0] = b.drop 36 := by
    rw [← @getD_cons_drop b 36 (by omega), ← @getD_cons_drop b 37 (by omega),
      ← @getD_cons_drop b 38 (by omega), ← @getD_cons_drop b 39 (by omega),
      drop_eq_nil_of_le (Nat.le_of_eq full)]
  have src : (ofFn fun i : Fin 16 => b.getD i 0) ++ b.drop 16 = b.drop 0 := by
    rw [← ofFn_append_drop (n := 16) (Nat.zero_add 16) (by omega)]
    simp only [Nat.zero_add]
  rw [flowKeyBytes, decodeFlowKey]
  rw [last]
  iterate 2 rw [halfBytes_append_drop (by rfl) (by omega)]
  rw [ofFn_append_drop (by rfl) (by omega), src]
  rfl

theorem scoreJobBytes_decode {j : ScoreJob} (decoded : decodeScoreJob b = .ok j) :
    scoreJobBytes j (b.getD 39 0) (b.getD 73 0) (le16 b 74) = b := by
  unfold decodeScoreJob at decoded
  split at decoded
  next => cases decoded
  next length =>
    have full : b.length = 80 := not_not.mp length
    cases decoded
    have key := flowKeyBytes_decode (b := b.take 40) (by rw [length_take]; omega)
    have rsv : (b.take 40).getD 39 0 = b.getD 39 0 := by
      simp [getD_eq_getElem?_getD]
    rw [scoreJobBytes, map_range_eq_words (by decide), wordBytes_last full,
      halfBytes_append_drop (by rfl) (by omega)]
    simp only [cons_append, nil_append]
    iterate 2 rw [getD_cons_drop (by omega)]
    rw [words_append_drop (by rfl) (by omega), ← rsv, key]
    exact take_append_drop 40 b

theorem unmarshal_slotCfgBytes (c : SlotCfg) (rsv : Byte) (rsv2 : Half) :
    unmarshalSlotCfg (slotCfgBytes c rsv rsv2) = .ok c := by
  have maxInsn : le16 (slotCfgBytes c rsv rsv2) 4 = c.maxInsn := le16_of_holds ⟨_, rfl⟩
  have romWords : le16 (slotCfgBytes c rsv rsv2) 6 = c.romWords := le16_of_holds ⟨_, rfl⟩
  have dataWords : le16 (slotCfgBytes c rsv rsv2) 8 = c.dataWords := le16_of_holds ⟨_, rfl⟩
  have entry : le16 (slotCfgBytes c rsv rsv2) 10 = c.entry := le16_of_holds ⟨_, rfl⟩
  have loopBound : le16 (slotCfgBytes c rsv rsv2) 12 = c.loopBound := le16_of_holds ⟨_, rfl⟩
  have gen : le32 (slotCfgBytes c rsv rsv2) 16 = c.gen := le32_of_holds ⟨_, rfl⟩
  have full : (slotCfgBytes c rsv rsv2).length = SlotCfgSize := rfl
  rw [unmarshalSlotCfg, if_neg (not_not.mpr full), maxInsn, romWords, dataWords, entry, loopBound,
    gen]
  rfl

theorem decode_scoreJobBytes (j : ScoreJob) (flowRsv rsv : Byte) (rsv2 : Half) :
    decodeScoreJob (scoreJobBytes j flowRsv rsv rsv2) = .ok j := by
  have length := length_flowKeyBytes j.flow flowRsv
  have whole := Holds.self (scoreJobBytes j flowRsv rsv rsv2)
  have afterFlow := whole.right_at (k := 40) (by rw [length])
  have afterFeat := afterFlow.right_at (k := 72) (by
    rw [length_flatMap_wordBytes, length_map, length_range])
  have afterSlot := afterFeat.right_at (k := 74) rfl
  have key : decodeFlowKey ((scoreJobBytes j flowRsv rsv rsv2).take 40) = j.flow := by
    rw [scoreJobBytes, take_left' length]
    exact Subtype.ext (decodeFlow_of_holds (Holds.self _) j.flow.property)
  have feat : (fun i : BitVec 3 => le32 (scoreJobBytes j flowRsv rsv rsv2) (40 + 4 * i.toNat)) =
      j.feat := by
    funext i
    rw [le32_of_words afterFlow.left (i := i.toNat) (by simp [i.isLt])]
    simp
  have srcSlot : (scoreJobBytes j flowRsv rsv rsv2).getD 72 0 = j.srcSlot :=
    byte_of_holds afterFeat.left
  have enqNSLo : le32 (scoreJobBytes j flowRsv rsv rsv2) 76 = j.enqNSLo :=
    le32_of_holds (afterSlot.right_at (k := 76) rfl)
  have full : (scoreJobBytes j flowRsv rsv rsv2).length = ScoreJobSize := by
    simp only [scoreJobBytes, length_append, length, length_flatMap_wordBytes, length_map, length_range]
    rfl
  rw [decodeScoreJob, if_neg (not_not.mpr full), key, feat, srcSlot, enqNSLo]

theorem decode_encodeState (st : CartState) : decodeCartState (encodeState st) = .ok st := by
  have full : (encodeState st).length = CartStateSize := length_encodeState st
  rw [decodeCartState, if_neg (not_not.mpr full)]
  exact congrArg _ (decodeState_of_holds (Holds.self _))

theorem eat_shift (h w : Word) {k n : Nat} (shift : k * 8 = n) :
    eat h (w >>> n) = eatByte h (byteOf w k) := by
  rw [← shift, eat, eatByte, shift_and_byte]

theorem eat_eq (h w : Word) : eat h w = eatByte h (byteOf w 0) := by
  rw [← eat_shift h w (Nat.zero_mul 8), BitVec.ushiftRight_zero]

theorem eat32_eq (h w : Word) : eat32 h w = (wordBytes w).foldl eatByte h := by
  rw [eat32, eat_shift (k := 1) _ w rfl, eat_shift (k := 2) _ w rfl, eat_shift (k := 3) _ w rfl,
    eat_eq]
  rfl

theorem hash_eq_stateHash (st : CartState) : hash st = stateHash st := by
  have low : byteOf (st.pc.setWidth 32) 0 = st.pc.extractLsb' 0 8 := by
    ext i hi
    interval_cases i <;> simp [byteOf]
  have high : byteOf ((st.pc >>> 8).setWidth 32) 0 = st.pc.extractLsb' 8 8 := by
    ext i hi
    interval_cases i <;> simp [byteOf]
  have flags : byteOf (st.flags.setWidth 32) 0 = st.flags := by
    ext i hi
    interval_cases i <;> simp [byteOf]
  have pc (h : Word) : (halfBytes st.pc).foldl eatByte h =
      eatByte (eatByte h (st.pc.extractLsb' 0 8)) (st.pc.extractLsb' 8 8) := rfl
  simp only [hash, stateHash, eat32_eq, eat_eq, low, high, flags, pc]

/-- The loader's decoders invert the layouts of the state codec and of the kernel's structs, whatever
the reserved fields hold, and accept nothing else of the two that it also marshals; what it marshals
has zeros there; and its hash of a decoded state is the kernel's of the state that was encoded. -/
theorem loader_codecs_agree :
    (∀ st, decodeCartState (encodeState st) = .ok st ∧ hash st = stateHash st) ∧
      (∀ b c, unmarshalSlotCfg b = .ok c ↔ ∃ rsv rsv2, b = slotCfgBytes c rsv rsv2) ∧
      (∀ b j, decodeScoreJob b = .ok j ↔ ∃ flowRsv rsv rsv2, b = scoreJobBytes j flowRsv rsv rsv2) ∧
      (∀ c, marshalSlotCfg c = slotCfgBytes c 0 0 ∧ unmarshalSlotCfg (marshalSlotCfg c) = .ok c) ∧
      ∀ j, j.marshal = scoreJobBytes j 0 0 0 ∧ decodeScoreJob j.marshal = .ok j := by
  refine ⟨fun st => ⟨decode_encodeState st, hash_eq_stateHash st⟩, ?_, ?_, ?_, ?_⟩
  · intro b c
    constructor
    · intro decoded
      exact ⟨_, _, (slotCfgBytes_unmarshal decoded).symm⟩
    · rintro ⟨rsv, rsv2, rfl⟩
      exact unmarshal_slotCfgBytes c rsv rsv2
  · intro b j
    constructor
    · intro decoded
      exact ⟨_, _, _, (scoreJobBytes_decode decoded).symm⟩
    · rintro ⟨flowRsv, rsv, rsv2, rfl⟩
      exact decode_scoreJobBytes j flowRsv rsv rsv2
  · intro c
    refine ⟨marshalSlotCfg_eq c, ?_⟩
    rw [marshalSlotCfg_eq]
    exact unmarshal_slotCfgBytes c 0 0
  · intro j
    refine ⟨marshalJob_eq j, ?_⟩
    rw [marshalJob_eq]
    exact decode_scoreJobBytes j 0 0 0

end Unheaded.Cart.Loader
