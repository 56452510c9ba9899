import Unheaded.Lib.Endian
import Unheaded.Mbc.Isa

/-!
# Keys of the shared maps

The `u64` keys that `hop-ebpf` and `shield-ebpf` look up, and the key structs of
`pkg/protocol/bpfschema` as `encoding/binary` writes them, little-endian with zeros in the blank
fields.
-/

namespace Unheaded.Net

open Mbc Lib BitVec

/-- `make_namespace_key`, of `SEQ_COUNTERS` and `DOS_STATE`. -/
def makeNamespaceKey (ns : Word) : BitVec 64 := ns.setWidth 64 <<< 32

def makeSettingsKey (connId : Word) (settingId : BitVec 16) : BitVec 64 :=
  (connId.setWidth 64 <<< 32) ||| (settingId.setWidth 64 <<< 16)

def makeValidatorKey (hopId : Word) (ns : Byte) : BitVec 64 :=
  hopId.setWidth 64 ||| (ns.setWidth 64 <<< 32)

def makeHmacKey (flowId : BitVec 16) (ns : Byte) : BitVec 64 :=
  flowId.setWidth 64 ||| (ns.setWidth 64 <<< 16)

/-- `src_low48`: the last six bytes of an address, read big-endian. -/
def srcLow48 (src : List Byte) : BitVec 64 :=
  BitVec.ofNat 64 (beValue [0, 0, src.getD 10 0, src.getD 11 0, src.getD 12 0, src.getD 13 0,
    src.getD 14 0, src.getD 15 0])

def makeRetryKey (flowId : BitVec 16) (src : List Byte) : BitVec 64 :=
  flowId.setWidth 64 ||| (srcLow48 src <<< 16)

/-- `make_error_key` of `shield-ebpf`. -/
def makeErrorKey (code : BitVec 16) : BitVec 64 := code.setWidth 64 <<< 48

def keyBytes (key : BitVec 64) : List Byte := leBytes 8 key.toNat

namespace Schema

/-- A namespace and four reserved bytes. -/
structure NamespaceKey where
  ns : Word

abbrev SeqCounterKey := NamespaceKey

abbrev DoSStateKey := NamespaceKey

structure SettingsKey where
  connId : Word
  settingId : BitVec 16

structure ErrorCounterKey where
  code : BitVec 16

structure HMACKeyKey where
  flowId : BitVec 16
  ns : BitVec 16
  deriving DecidableEq

structure RetryTokenKey where
  flowId : BitVec 16
  srcLow48 : List Byte
  deriving DecidableEq

structure HopValidatorKey where
  hopId : Word
  ns : Word
  deriving DecidableEq

def NamespaceKey.bytes (k : NamespaceKey) : List Byte := leBytes 4 k.ns.toNat ++ leBytes 4 0

def SettingsKey.bytes (k : SettingsKey) : List Byte :=
  leBytes 4 k.connId.toNat ++ leBytes 2 k.settingId.toNat ++ leBytes 2 0

def ErrorCounterKey.bytes (k : ErrorCounterKey) : List Byte := leBytes 2 k.code.toNat ++ leBytes 6 0

def HMACKeyKey.bytes (k : HMACKeyKey) : List Byte :=
  leBytes 2 k.flowId.toNat ++ leBytes 2 k.ns.toNat ++ leBytes 4 0

def RetryTokenKey.bytes (k : RetryTokenKey) : List Byte := leBytes 2 k.flowId.toNat ++ k.srcLow48

def HopValidatorKey.bytes (k : HopValidatorKey) : List Byte :=
  leBytes 4 k.hopId.toNat ++ leBytes 4 k.ns.toNat

def low48Bytes (src : List Byte) : List Byte :=
  [src.getD 15 0, src.getD 14 0, src.getD 13 0, src.getD 12 0, src.getD 11 0, src.getD 10 0]

theorem HMACKeyKey.bytes_inj {a b : HMACKeyKey} (same : a.bytes = b.bytes) : a = b := by
  obtain ⟨flow, ns⟩ := a
  unfold HMACKeyKey.bytes at same
  rw [List.append_assoc] at same
  obtain ⟨rfl, rest⟩ := leBytes_append_inj (by decide) same
  obtain ⟨rfl, -⟩ := leBytes_append_inj (by decide) rest
  rfl

theorem RetryTokenKey.bytes_inj {a b : RetryTokenKey} (same : a.bytes = b.bytes) : a = b := by
  obtain ⟨flow, low⟩ := a
  obtain ⟨rfl, rfl⟩ := leBytes_append_inj (by decide) same
  rfl

theorem HopValidatorKey.bytes_inj {a b : HopValidatorKey} (same : a.bytes = b.bytes) : a = b := by
  obtain ⟨hop, ns⟩ := a
  unfold HopValidatorKey.bytes at same
  rw [← List.append_nil (leBytes 4 ns.toNat)] at same
  obtain ⟨rfl, rest⟩ := leBytes_append_inj (by decide) same
  obtain ⟨rfl, -⟩ := leBytes_append_inj (by decide) rest
  rfl

end Schema

open Schema

theorem keyBytes_makeValidatorKey (hopId : Word) (ns : Byte) :
    keyBytes (makeValidatorKey hopId ns) = HopValidatorKey.bytes ⟨hopId, ns.setWidth 32⟩ := by
  have hop := hopId.isLt
  have value : (makeValidatorKey hopId ns).toNat = hopId.toNat + ns.toNat * 256 ^ 4 :=
    toNat_fields hopId ns (by decide) (by decide)
  have wide : (ns.setWidth 32).toNat = ns.toNat := toNat_setWidth_of_le (by decide)
  rw [keyBytes, value, leBytes_add_mul hop 4, HopValidatorKey.bytes, wide]

theorem keyBytes_makeHmacKey (flowId : BitVec 16) (ns : Byte) :
    keyBytes (makeHmacKey flowId ns) = HMACKeyKey.bytes ⟨flowId, ns.setWidth 16⟩ := by
  have flow := flowId.isLt
  have value : (makeHmacKey flowId ns).toNat =
      flowId.toNat + (ns.toNat + 0 * 256 ^ 2) * 256 ^ 2 := by
    exact toNat_fields flowId ns (by decide) (by decide)
  have small : ns.toNat < 256 ^ 2 := by omega
  have wide : (ns.setWidth 16).toNat = ns.toNat := toNat_setWidth_of_le (by decide)
  rw [keyBytes, value, leBytes_add_mul flow 6, leBytes_add_mul small 4, HMACKeyKey.bytes, wide,
    List.append_assoc]

theorem srcLow48_toNat (src : List Byte) : (srcLow48 src).toNat = beValue (low48Bytes src).reverse ∧
      beValue (low48Bytes src).reverse < 256 ^ 6 := by
  have bound : beValue (low48Bytes src).reverse < 256 ^ 6 := beValue_lt (low48Bytes src).reverse
  refine ⟨?_, bound⟩
  rw [srcLow48, beValue_zero_cons, beValue_zero_cons]
  exact Nat.mod_eq_of_lt (Nat.lt_trans bound (by decide))

theorem keyBytes_makeRetryKey (flowId : BitVec 16) (src : List Byte) :
    keyBytes (makeRetryKey flowId src) = RetryTokenKey.bytes ⟨flowId, low48Bytes src⟩ := by
  have flow := flowId.isLt
  obtain ⟨low, bound⟩ := srcLow48_toNat src
  have value : (makeRetryKey flowId src).toNat =
      flowId.toNat + beValue (low48Bytes src).reverse * 256 ^ 2 := by
    have wide : (flowId.setWidth 64).toNat = flowId.toNat := toNat_setWidth_of_le (by decide)
    have below : (flowId.setWidth 64).toNat < 2 ^ 16 := by
      exact flow
    have fits : (srcLow48 src).toNat * 2 ^ 16 < 2 ^ 64 := by
      omega
    have power : (2 : Nat) ^ 16 = 256 ^ 2 := by decide
    rw [makeRetryKey, toNat_or_shiftLeft below fits, wide, low, power]
  have back : leBytes 6 (beValue (low48Bytes src).reverse) = low48Bytes src :=
    (leBytes_beValue (low48Bytes src).reverse).trans (List.reverse_reverse _)
  rw [keyBytes, value, leBytes_add_mul flow 6, back, RetryTokenKey.bytes]

theorem namespaceKey_matches_iff (ns : Word) :
    NamespaceKey.bytes ⟨ns⟩ = keyBytes (makeNamespaceKey ns) ↔ ns = 0 := by
  have small := ns.isLt
  have value : (makeNamespaceKey ns).toNat = ns.toNat * 2 ^ 32 := toNat_field ns (by decide)
  have bytes : NamespaceKey.bytes ⟨ns⟩ = leBytes 8 (ns.toNat + 0 * 256 ^ 4) :=
    (leBytes_add_mul small 4 0).symm
  rw [bytes, keyBytes, leBytes_inj (by omega) (by omega), ← toNat_inj,
    show (0 : Word).toNat = 0 from rfl]
  omega

theorem settingsKey_matches_iff (connId : Word) (settingId : BitVec 16) :
    SettingsKey.bytes ⟨connId, settingId⟩ = keyBytes (makeSettingsKey connId settingId) ↔
      connId = 0 ∧ settingId = 0 := by
  have conn := connId.isLt
  have setting := settingId.isLt
  have value : (makeSettingsKey connId settingId).toNat =
      settingId.toNat * 2 ^ 16 + connId.toNat * 2 ^ 32 := by
    have low : (settingId.setWidth 64 <<< 16).toNat = settingId.toNat * 2 ^ 16 :=
      toNat_field settingId (by decide)
    have high : (connId.setWidth 64).toNat = connId.toNat := toNat_setWidth_of_le (by decide)
    rw [makeSettingsKey, BitVec.or_comm, toNat_or_shiftLeft, low, high]
    · omega
    · omega
  have bytes : SettingsKey.bytes ⟨connId, settingId⟩ =
      leBytes 8 (connId.toNat + (settingId.toNat + 0 * 256 ^ 2) * 256 ^ 4) := by
    rw [leBytes_add_mul conn 4, leBytes_add_mul setting 2]
    rfl
  rw [bytes, keyBytes, leBytes_inj (by omega) (by omega), ← toNat_inj,
    ← toNat_inj, show (0 : Word).toNat = 0 from rfl, show (0 : BitVec 16).toNat = 0 from rfl]
  omega

theorem errorCounterKey_matches_iff (code : BitVec 16) :
    ErrorCounterKey.bytes ⟨code⟩ = keyBytes (makeErrorKey code) ↔ code = 0 := by
  have small := code.isLt
  have value : (makeErrorKey code).toNat = code.toNat * 2 ^ 48 := toNat_field code (by decide)
  have bytes : ErrorCounterKey.bytes ⟨code⟩ = leBytes 8 (code.toNat + 0 * 256 ^ 2) :=
    (leBytes_add_mul small 6 0).symm
  rw [bytes, keyBytes, leBytes_inj (by omega) (by omega), ← toNat_inj,
    show (0 : BitVec 16).toNat = 0 from rfl]
  omega

/-- The seven keys of `bpfschema` for these fields are the keys the programs compute from them. -/
structure KeysMatch (ns : Word) (ring : Byte) (connId : Word) (settingId code flowId : BitVec 16)
    (hopId : Word) (src : List Byte) : Prop where
  seqCounter : NamespaceKey.bytes (⟨ns⟩ : SeqCounterKey) = keyBytes (makeNamespaceKey ns)
  dosState : NamespaceKey.bytes (⟨ns⟩ : DoSStateKey) = keyBytes (makeNamespaceKey ns)
  settings : SettingsKey.bytes ⟨connId, settingId⟩ = keyBytes (makeSettingsKey connId settingId)
  errorCounter : ErrorCounterKey.bytes ⟨code⟩ = keyBytes (makeErrorKey code)
  hmacKey : HMACKeyKey.bytes ⟨flowId, ring.setWidth 16⟩ = keyBytes (makeHmacKey flowId ring)
  retryToken : RetryTokenKey.bytes ⟨flowId, low48Bytes src⟩ = keyBytes (makeRetryKey flowId src)
  hopValidator : HopValidatorKey.bytes ⟨hopId, ring.setWidth 32⟩ =
    keyBytes (makeValidatorKey hopId ring)

/-- The keys agree exactly for namespace, connection, setting and error code zero: the programs
shift those fields into the upper half of the key, the structs have them in the lower half. -/
theorem schema_keys_match_iff (ns : Word) (ring : Byte) (connId : Word)
    (settingId code flowId : BitVec 16) (hopId : Word) (src : List Byte) :
    KeysMatch ns ring connId settingId code flowId hopId src ↔
      ns = 0 ∧ connId = 0 ∧ settingId = 0 ∧ code = 0 := by
  constructor
  · intro keys
    obtain ⟨conn, setting⟩ := (settingsKey_matches_iff connId settingId).mp keys.settings
    exact ⟨(namespaceKey_matches_iff ns).mp keys.seqCounter, conn, setting,
      (errorCounterKey_matches_iff code).mp keys.errorCounter⟩
  · rintro ⟨zeroNs, zeroConn, zeroSetting, zeroCode⟩
    have namespaces := (namespaceKey_matches_iff ns).mpr zeroNs
    exact {
      seqCounter := namespaces
      dosState := namespaces
      settings := (settingsKey_matches_iff connId settingId).mpr ⟨zeroConn, zeroSetting⟩
      errorCounter := (errorCounterKey_matches_iff code).mpr zeroCode
      hmacKey := (keyBytes_makeHmacKey flowId ring).symm
      retryToken := (keyBytes_makeRetryKey flowId src).symm
      hopValidator := (keyBytes_makeValidatorKey hopId ring).symm }

/-- Namespace 1 is at bytes 0 to 3 of the struct and at bytes 4 to 7 of the program's key. -/
theorem namespace_one_mismatch : NamespaceKey.bytes ⟨1⟩ = [1, 0, 0, 0, 0, 0, 0, 0] ∧
      keyBytes (makeNamespaceKey 1) = [0, 0, 0, 0, 1, 0, 0, 0] ∧ ¬ KeysMatch 1 1 0 0 0 0 0 [] := by
  refine ⟨by decide, by decide, ?_⟩
  intro keys
  exact absurd keys.seqCounter (by decide)

end Unheaded.Net
