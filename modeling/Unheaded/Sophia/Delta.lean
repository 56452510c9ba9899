import Mathlib.Algebra.Order.BigOperators.Group.List
import Unheaded.Lib.Codec

/-!
# Dictionary deltas on the wire

`encodeDelta` and `DecodeDelta` of `pkg/protocol/sophiasync`. All numbers are big-endian and
every variable part has its length or count in front.
-/

namespace Unheaded.Sophia

open Lib List BitVec
open BitVec (ofNat)

abbrev Byte := BitVec 8

structure DictEntry where
  index : BitVec 32
  value : List Byte
  deriving DecidableEq

structure DictionaryDelta where
  version : BitVec 64
  additions : List DictEntry
  removals : List (BitVec 32)
  signature : List Byte
  publicKey : List Byte
  algorithm : List Byte
  signedAtUnixMs : Int64
  deriving DecidableEq

inductive DeltaError where
  | algorithmName
  | truncated
  | lengthOverLimit (n limit : Nat)
  | deltaOverLimit (n : Nat)
  | trailing (n : Nat)
  deriving DecidableEq

def maxDeltaBytes : Nat := 16 * 2 ^ 20
def maxSignatureLen : Nat := 8192
def maxPublicKeyLen : Nat := 4096

/-- `binary.BigEndian.AppendUint32`, `AppendUint64` and a single byte. -/
def appendUint32 (v : BitVec 32) : List Byte := beBytes 4 v.toNat

def appendUint64 (v : BitVec 64) : List Byte := beBytes 8 v.toNat

def appendEntry (entry : DictEntry) : List Byte :=
  appendUint32 entry.index ++ (appendUint32 (ofNat 32 entry.value.length) ++ entry.value)

def appendCounted {α : Type} (append : α → List Byte) (l : List α) : List Byte :=
  appendUint32 (ofNat 32 l.length) ++ l.flatMap append

def appendPrefixed (bytes : List Byte) : List Byte :=
  appendUint32 (ofNat 32 bytes.length) ++ bytes

variable (delta : DictionaryDelta)

/-- `appendBody`: the part that signatures cover. -/
def appendBody : List Byte :=
  appendUint64 delta.version ++ (appendCounted appendEntry delta.additions ++
    appendCounted appendUint32 delta.removals)

/-- The encoding, for an algorithm name that is short enough. -/
def appendDelta : List Byte :=
  appendBody delta ++ (appendPrefixed delta.signature ++ (appendPrefixed delta.publicKey ++
    (ofNat 8 delta.algorithm.length :: (delta.algorithm ++
      appendUint64 delta.signedAtUnixMs.toBitVec))))

def encodeDelta : Except DeltaError (List Byte) :=
  if 255 < delta.algorithm.length then .error .algorithmName else .ok (appendDelta delta)

/-- `reader`: a cursor, as the bytes that remain. -/
abbrev Reader (α : Type) := List Byte → Except DeltaError (α × List Byte)

def take (n : Nat) : Reader (List Byte) := fun r =>
  if r.length < n then .error .truncated else .ok (r.take n, r.drop n)

def u8 : Reader (BitVec 8) := fun r => do
  let (b, r) ← take 1 r
  .ok (ofNat 8 (beValue b), r)

def u32 : Reader (BitVec 32) := fun r => do
  let (b, r) ← take 4 r
  .ok (ofNat 32 (beValue b), r)

def u64 : Reader (BitVec 64) := fun r => do
  let (b, r) ← take 8 r
  .ok (ofNat 64 (beValue b), r)

def lenPrefixed (limit : Nat) : Reader (List Byte) := fun r => do
  let (n, r) ← u32 r
  if limit < n.toNat then .error (.lengthOverLimit n.toNat limit) else take n.toNat r

def readEntry : Reader DictEntry := fun r => do
  let (idx, r) ← u32 r
  let (val, r) ← lenPrefixed r.length r
  .ok (⟨idx, val⟩, r)

def readCounted {α : Type} (least : Nat) (read : Reader α) : Reader (List α) := fun r => do
  let (n, r) ← u32 r
  if r.length < n.toNat * least then .error .truncated else readMany read n.toNat r

def DecodeDelta (b : List Byte) : Except DeltaError DictionaryDelta := do
  if maxDeltaBytes < b.length then .error (.deltaOverLimit b.length) else
  let (version, r) ← u64 b
  let (additions, r) ← readCounted 8 readEntry r
  let (removals, r) ← readCounted 4 u32 r
  let (sig, r) ← lenPrefixed maxSignatureLen r
  let (key, r) ← lenPrefixed maxPublicKeyLen r
  let (algLen, r) ← u8 r
  let (alg, r) ← take algLen.toNat r
  let (signedAt, r) ← u64 r
  if r.length ≠ 0 then .error (.trailing r.length) else
  .ok ⟨version, additions, removals, sig, key, alg, Int64.ofBitVec signedAt⟩

theorem take_reads (n : Nat) : Reads (take n) id fun b => b.length = n := by
  intro input b rest
  rw [take, id_eq]
  split
  case isTrue short =>
    constructor
    · intro h
      cases h
    · rintro ⟨count, rfl⟩
      rw [length_append] at short
      omega
  case isFalse enough =>
    constructor
    · intro h
      cases h
      have count : (input.take n).length = n := by
        rw [length_take]
        omega
      exact ⟨count, (take_append_drop n input).symm⟩
    · rintro ⟨rfl, rfl⟩
      rw [take_left', drop_left']
      all_goals rfl

theorem number_reads (w : Nat) : Reads (fun r => do
        let (b, r) ← take w r
        (.ok (ofNat (8 * w) (beValue b), r) : Except DeltaError (BitVec (8 * w) × List Byte)))
      (fun v => beBytes w v.toNat) fun _ => True := by
  have power : 256 ^ w = 2 ^ (8 * w) := by rw [Nat.pow_mul]
  intro input v rest
  rw [(take_reads w).bind_iff]
  constructor
  · rintro ⟨b, r, rfl, rfl, h⟩
    cases h
    have small : beValue b < 2 ^ (8 * b.length) := power ▸ beValue_lt b
    have same : beBytes b.length (ofNat (8 * b.length) (beValue b)).toNat = b := by
      rw [toNat_ofNat, Nat.mod_eq_of_lt small, beBytes_beValue]
    exact ⟨trivial, congrArg (· ++ rest) same.symm⟩
  · rintro ⟨-, rfl⟩
    refine ⟨beBytes w v.toNat, rest, length_beBytes w _, rfl, ?_⟩
    dsimp only
    rw [beValue_beBytes, power, Nat.mod_eq_of_lt v.isLt, ofNat_toNat, setWidth_eq]

theorem u8_reads : Reads u8 (fun v => beBytes 1 v.toNat) fun _ => True := number_reads 1

theorem u32_reads : Reads u32 appendUint32 fun _ => True := number_reads 4

theorem u64_reads : Reads u64 appendUint64 fun _ => True := number_reads 8

theorem toNat_count {α : Type} {l : List α} (short : l.length < 2 ^ 32) :
    (ofNat 32 l.length).toNat = l.length := by
  rw [toNat_ofNat, Nat.mod_eq_of_lt short]

theorem lenPrefixed_reads (limit : Nat) :
    Reads (lenPrefixed limit) appendPrefixed fun b => b.length ≤ limit ∧ b.length < 2 ^ 32 := by
  intro input b rest
  rw [lenPrefixed, u32_reads.bind_iff]
  constructor
  · rintro ⟨n, r, -, rfl, h⟩
    dsimp only at h
    split at h
    case isTrue => cases h
    case isFalse within =>
      obtain ⟨count, rfl⟩ := (take_reads n.toNat r b rest).mp h
      have short : b.length < 2 ^ 32 := count ▸ n.isLt
      have same : n = ofNat 32 b.length := by
        rw [count, ofNat_toNat, setWidth_eq]
      refine ⟨⟨by omega, short⟩, ?_⟩
      rw [same, appendPrefixed, List.append_assoc, id_eq]
  · rintro ⟨⟨within, short⟩, rfl⟩
    refine ⟨ofNat 32 b.length, b ++ rest, trivial, List.append_assoc _ _ _, ?_⟩
    dsimp only
    rw [toNat_count short, if_neg (Nat.not_lt.mpr within)]
    exact (take_reads b.length _ b rest).mpr ⟨rfl, rfl⟩

theorem readEntry_reads : Reads readEntry appendEntry fun e => e.value.length < 2 ^ 32 := by
  intro input e rest
  rw [readEntry, u32_reads.bind_iff]
  constructor
  · rintro ⟨idx, r, -, rfl, h⟩
    obtain ⟨val, r', ⟨-, short⟩, split, last⟩ := (lenPrefixed_reads r.length).bind_iff.mp h
    cases last
    refine ⟨short, ?_⟩
    rw [split]
    exact (List.append_assoc _ _ _).symm
  · rintro ⟨short, rfl⟩
    refine ⟨e.index, appendPrefixed e.value ++ rest, trivial, List.append_assoc _ _ _, ?_⟩
    refine (lenPrefixed_reads _).bind_iff.mpr ⟨e.value, rest, ⟨?_, short⟩, rfl, rfl⟩
    rw [appendPrefixed, length_append, length_append]
    omega

theorem readCounted_reads {α : Type} {read : Reader α} {append : α → List Byte}
    {valid : α → Prop} {least : Nat} (reads : Reads read append valid)
    (long : ∀ a, least ≤ (append a).length) : Reads (readCounted least read) (appendCounted append)
      fun l => l.length < 2 ^ 32 ∧ ∀ a ∈ l, valid a := by
  intro input l rest
  rw [readCounted, u32_reads.bind_iff]
  constructor
  · rintro ⟨n, r, -, rfl, h⟩
    dsimp only at h
    split at h
    case isTrue => cases h
    case isFalse =>
      obtain ⟨⟨count, all⟩, rfl⟩ := (reads.many n.toNat r l rest).mp h
      have same : n = ofNat 32 l.length := by
        rw [count, ofNat_toNat, setWidth_eq]
      refine ⟨⟨count ▸ n.isLt, all⟩, ?_⟩
      rw [same, appendCounted, List.append_assoc]
  · rintro ⟨⟨short, all⟩, rfl⟩
    refine ⟨ofNat 32 l.length, l.flatMap append ++ rest, trivial,
      List.append_assoc _ _ _, ?_⟩
    have room := le_length_flatMap l fun a _ => long a
    dsimp only
    rw [toNat_count short, if_neg (by rw [length_append]; omega)]
    exact (reads.many l.length _ l rest).mpr ⟨⟨rfl, all⟩, rfl⟩

@[simp] theorem length_appendUint32 (v : BitVec 32) : (appendUint32 v).length = 4 :=
  length_beBytes 4 _

@[simp] theorem length_appendUint64 (v : BitVec 64) : (appendUint64 v).length = 8 :=
  length_beBytes 8 _

theorem additions_reads : Reads (readCounted 8 readEntry) (appendCounted appendEntry)
    fun l => l.length < 2 ^ 32 ∧ ∀ e ∈ l, e.value.length < 2 ^ 32 := by
  refine readCounted_reads readEntry_reads fun e => ?_
  rw [appendEntry, length_append, length_append, length_appendUint32, length_appendUint32]
  omega

theorem removals_reads : Reads (readCounted 4 u32) (appendCounted appendUint32)
    fun l => l.length < 2 ^ 32 ∧ ∀ a ∈ l, True :=
  readCounted_reads u32_reads fun v => Nat.le_of_eq (length_appendUint32 v).symm

/-- The bytes that a delta takes. -/
def DictionaryDelta.size (d : DictionaryDelta) : Nat :=
  8 + (4 + (d.additions.map fun e => 8 + e.value.length).sum) + (4 + 4 * d.removals.length) +
    (4 + d.signature.length) + (4 + d.publicKey.length) + (1 + d.algorithm.length) + 8

/-- The limits of the format. -/
structure DictionaryDelta.WithinLimits (d : DictionaryDelta) : Prop where
  size : d.size ≤ maxDeltaBytes
  signature : d.signature.length ≤ maxSignatureLen
  publicKey : d.publicKey.length ≤ maxPublicKeyLen
  algorithm : d.algorithm.length ≤ 255

theorem length_appendCounted {α : Type} (append : α → List Byte) (l : List α) :
    (appendCounted append l).length = 4 + (l.map fun a => (append a).length).sum := by
  rw [appendCounted, length_append, length_appendUint32, length_flatMap]

theorem length_appendDelta (d : DictionaryDelta) : (appendDelta d).length = d.size := by
  have entries : (d.additions.map fun e => (appendEntry e).length) =
      d.additions.map fun e => 8 + e.value.length := by
    refine map_congr_left fun e _ => ?_
    rw [appendEntry, length_append, length_append, length_appendUint32, length_appendUint32]
    omega
  simp only [appendDelta, appendBody, appendPrefixed, length_append, length_cons,
    length_appendCounted, length_appendUint32, length_appendUint64, entries, map_const',
    sum_replicate_nat, DictionaryDelta.size]
  omega

variable {d : DictionaryDelta}

theorem DictionaryDelta.counts (small : d.size ≤ maxDeltaBytes) :
    (d.additions.length < 2 ^ 32 ∧ ∀ e ∈ d.additions, e.value.length < 2 ^ 32) ∧
      d.removals.length < 2 ^ 32 := by
  have limit : maxDeltaBytes = 16777216 := rfl
  rw [DictionaryDelta.size] at small
  have single (e : DictEntry) (mem : e ∈ d.additions) :
      8 + e.value.length ≤ (d.additions.map fun e => 8 + e.value.length).sum :=
    le_sum_of_mem (List.mem_map_of_mem mem)
  have many : d.additions.length * 8 ≤ (d.additions.map fun e => 8 + e.value.length).sum := by
    simp [sum_map_add]
  refine ⟨⟨by omega, fun e mem => ?_⟩, by omega⟩
  have := single e mem
  omega

theorem decodeDelta_sound {b : List Byte} (h : DecodeDelta b = .ok d) :
    d.WithinLimits ∧ b = appendDelta d := by
  rw [DecodeDelta] at h
  split at h
  case isTrue => cases h
  case isFalse small =>
    rw [u64_reads.bind_iff] at h
    obtain ⟨version, r, -, rfl, h⟩ := h
    dsimp only at h
    rw [additions_reads.bind_iff] at h
    obtain ⟨additions, r, -, rfl, h⟩ := h
    rw [removals_reads.bind_iff] at h
    obtain ⟨removals, r, -, rfl, h⟩ := h
    rw [(lenPrefixed_reads _).bind_iff] at h
    obtain ⟨sig, r, ⟨sigShort, -⟩, rfl, h⟩ := h
    rw [(lenPrefixed_reads _).bind_iff] at h
    obtain ⟨key, r, ⟨keyShort, -⟩, rfl, h⟩ := h
    rw [u8_reads.bind_iff] at h
    obtain ⟨algLen, r, -, rfl, h⟩ := h
    rw [(take_reads _).bind_iff] at h
    obtain ⟨alg, r, algCount, rfl, h⟩ := h
    rw [u64_reads.bind_iff] at h
    obtain ⟨signedAt, r, -, rfl, h⟩ := h
    split at h
    case isTrue => cases h
    case isFalse finished =>
      cases h
      have empty : r = [] := eq_nil_of_length_eq_zero (not_not.mp finished)
      have name : beBytes 1 algLen.toNat = [ofNat 8 alg.length] := by
        rw [algCount]
        rfl
      have bytes : appendUint64 version ++ (appendCounted appendEntry additions ++
          (appendCounted appendUint32 removals ++ (appendPrefixed sig ++ (appendPrefixed key ++
            (beBytes 1 algLen.toNat ++ (id alg ++ (appendUint64 signedAt ++ r))))))) =
          appendDelta ⟨version, additions, removals, sig, key, alg, Int64.ofBitVec signedAt⟩ := by
        simp only [appendDelta, appendBody, name, empty, List.append_assoc, append_nil, id_eq,
          singleton_append, Int64.toBitVec_ofBitVec]
      refine ⟨⟨?_, sigShort, keyShort, ?_⟩, bytes⟩
      · rw [bytes, length_appendDelta] at small
        exact Nat.not_lt.mp small
      · change alg.length ≤ 255
        omega

theorem decodeDelta_appendDelta (limits : d.WithinLimits) :
    DecodeDelta (appendDelta d) = .ok d := by
  obtain ⟨⟨additions, values⟩, removals⟩ := DictionaryDelta.counts limits.size
  have name : d.algorithm.length ≤ 255 := limits.algorithm
  have sig : d.signature.length ≤ 8192 := limits.signature
  have key : d.publicKey.length ≤ 4096 := limits.publicKey
  have nameLen : (ofNat 8 d.algorithm.length).toNat = d.algorithm.length := by
    rw [toNat_ofNat]
    omega
  have nameByte : [ofNat 8 d.algorithm.length] =
      beBytes 1 (ofNat 8 d.algorithm.length).toNat := by
    rw [nameLen]
    rfl
  rw [DecodeDelta, length_appendDelta, if_neg (Nat.not_lt.mpr limits.size), appendDelta, appendBody,
    List.append_assoc, List.append_assoc, u64_reads.bind_iff]
  refine ⟨d.version, _, trivial, rfl, ?_⟩
  rw [additions_reads.bind_iff]
  refine ⟨d.additions, _, ⟨additions, values⟩, rfl, ?_⟩
  rw [removals_reads.bind_iff]
  refine ⟨d.removals, _, ⟨removals, fun _ _ => trivial⟩, rfl, ?_⟩
  rw [(lenPrefixed_reads _).bind_iff]
  refine ⟨d.signature, _, ⟨sig, by omega⟩, rfl, ?_⟩
  rw [(lenPrefixed_reads _).bind_iff]
  refine ⟨d.publicKey, _, ⟨key, by omega⟩, rfl, ?_⟩
  rw [u8_reads.bind_iff]
  refine ⟨_, _, trivial, congrArg (· ++ (d.algorithm ++ _)) nameByte, ?_⟩
  rw [(take_reads _).bind_iff]
  refine ⟨d.algorithm, _, nameLen.symm, rfl, ?_⟩
  rw [u64_reads.bind_iff]
  refine ⟨d.signedAtUnixMs.toBitVec, [], trivial, (append_nil _).symm, ?_⟩
  rfl

theorem encodeDelta_eq (limits : d.WithinLimits) : encodeDelta d = .ok (appendDelta d) :=
  if_neg (Nat.not_lt.mpr limits.algorithm)

/-- Decoding inverts encoding, and encoding inverts decoding: a delta has one encoding. -/
theorem delta_codec_canonical : (∀ d : DictionaryDelta, d.WithinLimits →
      ∃ b, encodeDelta d = .ok b ∧ DecodeDelta b = .ok d) ∧
    (∀ b d, DecodeDelta b = .ok d → encodeDelta d = .ok b) ∧
    ∀ b b' d, DecodeDelta b = .ok d → DecodeDelta b' = .ok d → b = b' := by
  refine ⟨fun d limits => ⟨_, encodeDelta_eq limits, decodeDelta_appendDelta limits⟩, ?_, ?_⟩
  · intro b d h
    obtain ⟨limits, rfl⟩ := decodeDelta_sound h
    exact encodeDelta_eq limits
  · intro b b' d h h'
    rw [(decodeDelta_sound h).2, (decodeDelta_sound h').2]

/-- A delta with an addition and a removal, and the empty delta. -/
theorem delta_codec_small : (∃ b, encodeDelta ⟨1, [⟨7, [0x61]⟩], [9], [], [], [], 0⟩ = .ok b ∧
      DecodeDelta b = .ok ⟨1, [⟨7, [0x61]⟩], [9], [], [], [], 0⟩) ∧
    encodeDelta ⟨0, [], [], [], [], [], 0⟩ = .ok (replicate 33 0) := by
  have limits : DictionaryDelta.WithinLimits ⟨1, [⟨7, [0x61]⟩], [9], [], [], [], 0⟩ :=
    ⟨by decide, by decide, by decide, by decide⟩
  have decoded : DecodeDelta (replicate 33 0) = .ok ⟨0, [], [], [], [], [], 0⟩ := rfl
  exact ⟨delta_codec_canonical.1 _ limits, delta_codec_canonical.2.1 _ _ decoded⟩

end Unheaded.Sophia
