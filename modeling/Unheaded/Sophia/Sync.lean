import Unheaded.Sophia.Delta
import Unheaded.Wotan.Signing

/-!
# Signed dictionary updates

`SyncManager` of `pkg/protocol/sophiasync` with its signature policy.
-/

namespace Unheaded.Sophia

open Lib List Function
open Wotan (Crypto ascii mldsaVerify)

def DeltaAlgorithm : List Byte := ascii ['m', 'l', '-', 'd', 's', 'a', '-', '6', '5']

def deltaDomain : List Byte :=
  ascii ['s', 'o', 'p', 'h', 'i', 'a', '/', 'd', 'e', 'l', 't', 'a', '-', 's', 'i', 'g', '/', 'v',
    '1']

def signingBytes (d : DictionaryDelta) : List Byte :=
  deltaDomain ++ 0 :: (d.algorithm ++ 0 :: (appendUint64 d.signedAtUnixMs.toBitVec ++ appendBody d))

def signingDigest (crypto : Crypto) (d : DictionaryDelta) : List Byte :=
  crypto.sum256 (signingBytes d)

inductive SyncError where
  | invalidDeltaVersion (expected got : BitVec 64)
  | unsigned
  | wrongAlgorithm
  | noTrustedKeys
  | untrustedKey
  | invalidSignature
  deriving DecidableEq

def Verify (crypto : Crypto) (d : DictionaryDelta) (trusted : List (List Byte)) :
    Except SyncError Unit :=
  if d.algorithm ≠ DeltaAlgorithm then .error .wrongAlgorithm
  else if trusted = [] then .error .noTrustedKeys
  else if d.publicKey = [] ∨ d.publicKey ∉ trusted then .error .untrustedKey
  else if mldsaVerify crypto (signingDigest crypto d) d.signature d.publicKey = true then .ok ()
  else .error .invalidSignature

/-- `expiredVersions` is a map from versions to the times they were replaced. -/
structure SyncManager where
  currentVersion : BitVec 64
  expiredVersions : BitVec 64 → Option Int
  trustedKeys : List (List Byte)
  requireSignature : Bool

namespace SyncManager

def SetSignaturePolicy (sm : SyncManager) (trusted : List (List Byte)) (require : Bool) : SyncManager :=
  { sm with trustedKeys := trusted, requireSignature := require }

def checkSignature (crypto : Crypto) (sm : SyncManager) (d : DictionaryDelta) : Except SyncError Unit :=
  if d.signature = [] then
    if sm.requireSignature = true then .error .unsigned else .ok ()
  else Verify crypto d sm.trustedKeys

/-- `ApplyDelta` at the time `now`: its error if the delta is refused, and the manager
after the call. -/
def ApplyDelta (crypto : Crypto) (sm : SyncManager) (d : DictionaryDelta) (now : Int) :
    Option SyncError × SyncManager :=
  if d.version ≠ sm.currentVersion + 1 then
    (some (.invalidDeltaVersion (sm.currentVersion + 1) d.version), sm)
  else
    match sm.checkSignature crypto d with
    | .error e => (some e, sm)
    | .ok () =>
      let sm := { sm with currentVersion := d.version }
      (none, { sm with
        expiredVersions := fun v => if v = d.version - 1 then some now else sm.expiredVersions v })

end SyncManager

/-- A call of a manager that requires signatures. -/
inductive SyncCall where
  | applyDelta (d : DictionaryDelta) (now : Int)
  | setTrusted (trusted : List (List Byte))

/-- A delta that was applied, and the keys that were trusted then. -/
structure Applied where
  delta : DictionaryDelta
  trusted : List (List Byte)

namespace SyncManager

variable (crypto : Crypto)

variable (sm : SyncManager)

def after : SyncCall → SyncManager
  | .applyDelta d now => (sm.ApplyDelta crypto d now).2
  | .setTrusted trusted => sm.SetSignaturePolicy trusted true

def applies : SyncCall → List Applied
  | .applyDelta d now =>
    if (sm.ApplyDelta crypto d now).1 = none then [⟨d, sm.trustedKeys⟩] else []
  | .setTrusted _ => []

def applied (sm : SyncManager) : List SyncCall → List Applied
  | [] => []
  | call :: calls => sm.applies crypto call ++ (sm.after crypto call).applied calls

def afterAll (calls : List SyncCall) : SyncManager :=
  calls.foldl (after crypto) sm

end SyncManager

variable {d d' : DictionaryDelta}

theorem appendBody_inj (small : d.size ≤ maxDeltaBytes) (small' : d'.size ≤ maxDeltaBytes)
    (same : appendBody d = appendBody d') :
    d.version = d'.version ∧ d.additions = d'.additions ∧ d.removals = d'.removals := by
  obtain ⟨additions, removals⟩ := DictionaryDelta.counts small
  obtain ⟨additions', removals'⟩ := DictionaryDelta.counts small'
  obtain ⟨version, rest⟩ := u64_reads.cancel trivial trivial same
  obtain ⟨added, rest⟩ := additions_reads.cancel additions additions' rest
  have ended : appendCounted appendUint32 d.removals ++ [] =
      appendCounted appendUint32 d'.removals ++ [] := congrArg (· ++ []) rest
  obtain ⟨removed, -⟩ := removals_reads.cancel ⟨removals, fun _ _ => trivial⟩
    ⟨removals', fun _ _ => trivial⟩ ended
  exact ⟨version, added, removed⟩

theorem signingBytes_inj (small : d.size ≤ maxDeltaBytes) (small' : d'.size ≤ maxDeltaBytes)
    (algorithm : d.algorithm = d'.algorithm) (same : signingBytes d = signingBytes d') :
    d.version = d'.version ∧ d.additions = d'.additions ∧ d.removals = d'.removals ∧
      d.signedAtUnixMs = d'.signedAtUnixMs := by
  have named := tail_eq_of_cons_eq (append_cancel_left same)
  rw [algorithm] at named
  have covered := tail_eq_of_cons_eq (append_cancel_left named)
  obtain ⟨signedAt, body⟩ := u64_reads.cancel trivial trivial covered
  obtain ⟨version, additions, removals⟩ := appendBody_inj small small' body
  exact ⟨version, additions, removals, Int64.toBitVec_inj.mp signedAt⟩

/-- Signatures that verify were made by the holder of the key, for the hash of some bytes. -/
def Unforgeable (crypto : Crypto) (signs : List Byte → List Byte → Prop) : Prop :=
  ∀ key digest signature, mldsaVerify crypto digest signature key = true →
    ∃ bytes, signs key bytes ∧ crypto.sum256 bytes = digest

theorem verify_ok {crypto : Crypto} {trusted : List (List Byte)}
    (h : Verify crypto d trusted = .ok ()) : d.algorithm = DeltaAlgorithm ∧ d.publicKey ∈ trusted ∧
      mldsaVerify crypto (signingDigest crypto d) d.signature d.publicKey = true := by
  rw [Verify] at h
  split_ifs at h with other none untrusted verified
  obtain ⟨-, mem⟩ := not_or.mp untrusted
  exact ⟨not_not.mp other, not_not.mp mem, verified⟩

namespace SyncManager

variable {crypto : Crypto}

/-- A delta is refused and nothing changes, or it is the next version, has passed the
policy, and the version before it is marked. -/
inductive Outcome (crypto : Crypto) (sm : SyncManager) (d : DictionaryDelta) (now : Int) :
    Option SyncError × SyncManager → Prop
  | refused (e : SyncError) : Outcome crypto sm d now (some e, sm)
  | applied (next : d.version = sm.currentVersion + 1) (passed : sm.checkSignature crypto d = .ok ()) :
      Outcome crypto sm d now (none, { sm with
          currentVersion := d.version
          expiredVersions := fun v => if v = d.version - 1 then some now else sm.expiredVersions v })

theorem applyDelta_outcome (crypto : Crypto) (sm : SyncManager) (d : DictionaryDelta) (now : Int) :
    Outcome crypto sm d now (sm.ApplyDelta crypto d now) := by
  rw [ApplyDelta]
  split
  case isTrue => exact .refused _
  case isFalse next =>
    cases passed : sm.checkSignature crypto d with
    | error e => exact .refused e
    | ok _ => exact .applied (not_not.mp next) passed

variable {d : DictionaryDelta}

theorem applyDelta_passed {s : SyncManager} (now : Int) (next : d.version = s.currentVersion + 1)
    (passed : s.checkSignature crypto d = .ok ()) : s.ApplyDelta crypto d now = (none, { s with
      currentVersion := d.version
      expiredVersions := fun v => if v = d.version - 1 then some now else s.expiredVersions v }) := by
  rw [ApplyDelta, if_neg (not_not.mpr next), passed]

theorem checkSignature_ok {sm : SyncManager} (required : sm.requireSignature = true)
    (h : sm.checkSignature crypto d = .ok ()) : Verify crypto d sm.trustedKeys = .ok () := by
  rw [checkSignature] at h
  split_ifs at h
  exact h

/-- A delta with a signature by a trusted key, over what the delta says. -/
def Authorised (signs : List Byte → List Byte → Prop) (a : Applied) : Prop :=
  a.delta.publicKey ∈ a.trusted ∧ signs a.delta.publicKey (signingBytes a.delta)

section Steps

variable {sm : SyncManager} (required : sm.requireSignature = true) (call : SyncCall)
include required

theorem after_requires : (sm.after crypto call).requireSignature = true := by
  cases call with
  | setTrusted trusted => rfl
  | applyDelta d now =>
    have outcome := applyDelta_outcome crypto sm d now
    rw [after]
    generalize sm.ApplyDelta crypto d now = result at outcome ⊢
    cases outcome with
    | refused e => exact required
    | applied next passed => exact required

theorem applies_authorised {signs : List Byte → List Byte → Prop}
    (injective : Injective crypto.sum256) (unforgeable : Unforgeable crypto signs) :
    ∀ a ∈ sm.applies crypto call, Authorised signs a := by
  intro a mem
  cases call with
  | setTrusted trusted => cases mem
  | applyDelta d now =>
    have outcome := applyDelta_outcome crypto sm d now
    rw [applies] at mem
    generalize sm.ApplyDelta crypto d now = result at mem outcome
    cases outcome with
    | refused e => cases mem
    | applied next passed =>
      cases mem_singleton.mp mem
      obtain ⟨-, trusted, verified⟩ := verify_ok (checkSignature_ok required passed)
      obtain ⟨bytes, made, hashed⟩ := unforgeable _ _ _ verified
      cases injective hashed
      exact ⟨trusted, made⟩

end Steps

theorem after_versions (crypto : Crypto) (sm : SyncManager) (call : SyncCall) :
    (∃ a, sm.applies crypto call = [a] ∧ a.delta.version = sm.currentVersion + 1 ∧
      (sm.after crypto call).currentVersion = sm.currentVersion + 1) ∨
    (sm.applies crypto call = [] ∧ (sm.after crypto call).currentVersion = sm.currentVersion) := by
  cases call with
  | setTrusted trusted => exact .inr ⟨rfl, rfl⟩
  | applyDelta d now =>
    have outcome := applyDelta_outcome crypto sm d now
    rw [applies, after]
    generalize sm.ApplyDelta crypto d now = result at outcome ⊢
    cases outcome with
    | refused e => exact .inr ⟨rfl, rfl⟩
    | applied next passed => exact .inl ⟨_, rfl, next, next⟩

def versionsFrom (start : BitVec 64) (n : Nat) : List (BitVec 64) :=
  (range n).map fun k => start + BitVec.ofNat 64 (k + 1)

theorem versionsFrom_succ (start : BitVec 64) (n : Nat) :
    versionsFrom start (n + 1) = (start + 1) :: versionsFrom (start + 1) n := by
  rw [versionsFrom, range_succ_eq_map, map_cons, List.map_map]
  congr 1
  refine map_congr_left fun k _ => ?_
  have one : (1 : BitVec 64) = BitVec.ofNat 64 1 := rfl
  rw [comp_apply, one, BitVec.add_assoc, ← BitVec.ofNat_add, Nat.add_comm 1]

theorem applied_versions (sm : SyncManager) (calls : List SyncCall) :
    (sm.applied crypto calls).map (fun a => a.delta.version) =
      versionsFrom sm.currentVersion (sm.applied crypto calls).length := by
  induction calls generalizing sm with
  | nil => rfl
  | cons call calls ih =>
    rw [applied]
    rcases after_versions crypto sm call with ⟨a, one, version, moved⟩ | ⟨none, stayed⟩
    · rw [one, singleton_append, map_cons, length_cons, versionsFrom_succ, version, ih, moved]
    · rw [none, nil_append, ih, stayed]

theorem applied_authorised {signs : List Byte → List Byte → Prop}
    (injective : Injective crypto.sum256) (unforgeable : Unforgeable crypto signs)
    {sm : SyncManager} (required : sm.requireSignature = true) (calls : List SyncCall) :
    ∀ a ∈ sm.applied crypto calls, Authorised signs a := by
  induction calls generalizing sm with
  | nil => exact fun a mem => absurd mem not_mem_nil
  | cons call calls ih =>
    intro a mem
    rcases mem_append.mp mem with now | later
    · exact applies_authorised required call injective unforgeable a now
    · exact ih (after_requires required call) a later

/-- In every history of a manager that requires signatures: the deltas that are applied
form a chain of versions, each is signed by a key that was trusted then for what the delta
says, decoded deltas that differ there have different digests, and a delta that is refused
changes nothing. -/
theorem applied_chain_authorised (signs : List Byte → List Byte → Prop)
    (injective : Injective crypto.sum256) (unforgeable : Unforgeable crypto signs)
    (sm : SyncManager) (required : sm.requireSignature = true) (calls : List SyncCall) :
    (sm.applied crypto calls).map (fun a => a.delta.version) =
      versionsFrom sm.currentVersion (sm.applied crypto calls).length ∧
    (∀ a ∈ sm.applied crypto calls, Authorised signs a) ∧
    (∀ b b' d d', DecodeDelta b = .ok d → DecodeDelta b' = .ok d' →
      d.algorithm = DeltaAlgorithm → d'.algorithm = DeltaAlgorithm →
      signingDigest crypto d = signingDigest crypto d' →
      d.version = d'.version ∧ d.additions = d'.additions ∧ d.removals = d'.removals ∧
        d.signedAtUnixMs = d'.signedAtUnixMs) ∧
    ∀ d now, ((sm.afterAll crypto calls).ApplyDelta crypto d now).1 ≠ none →
      ((sm.afterAll crypto calls).ApplyDelta crypto d now).2 = sm.afterAll crypto calls := by
  refine ⟨applied_versions sm calls, applied_authorised injective unforgeable required calls, ?_, ?_⟩
  · intro b b' d d' decoded decoded' algorithm algorithm' digest
    exact signingBytes_inj (decodeDelta_sound decoded).1.size (decodeDelta_sound decoded').1.size
      (algorithm.trans algorithm'.symm) (injective digest)
  · intro d now refused
    have outcome := applyDelta_outcome crypto (sm.afterAll crypto calls) d now
    generalize (sm.afterAll crypto calls).ApplyDelta crypto d now = result at outcome refused ⊢
    cases outcome with
    | refused e => rfl
    | applied next passed => exact absurd rfl refused

section Witness

def trustedKey : List Byte := replicate 1952 1

def firstDelta : DictionaryDelta :=
  ⟨1, [⟨7, [0x61]⟩], [], replicate 3309 2, trustedKey, DeltaAlgorithm, 0⟩

def signedOnce : Crypto :=
  ⟨id, fun message signature key => decide (message = signingBytes firstDelta ∧
    signature = firstDelta.signature ∧ key = trustedKey)⟩

theorem verify_firstDelta : Verify signedOnce firstDelta [trustedKey] = .ok () := by
  have key : firstDelta.publicKey.length = Wotan.PublicKeySize := length_replicate
  have present : firstDelta.publicKey ≠ [] := ne_nil_of_length_pos (by rw [key]; decide)
  have trusted : ¬ (firstDelta.publicKey = [] ∨ firstDelta.publicKey ∉ [trustedKey]) :=
    not_or.mpr ⟨present, not_not.mpr (mem_singleton.mpr rfl)⟩
  have signature : firstDelta.signature.length = Wotan.SignatureSize := length_replicate
  have verified : signedOnce.mldsa65 (signingBytes firstDelta) firstDelta.signature trustedKey =
      true := by simp only [signedOnce, and_self, decide_true]
  have accepted : mldsaVerify signedOnce (signingDigest signedOnce firstDelta) firstDelta.signature
      firstDelta.publicKey = true := by
    rw [mldsaVerify, decide_eq_true key, decide_eq_true signature]
    exact verified
  have algorithm : ¬ firstDelta.algorithm ≠ DeltaAlgorithm := not_not.mpr rfl
  rw [Verify, if_neg algorithm, if_neg (cons_ne_nil _ _), if_neg trusted, if_pos accepted]

theorem unforgeable_signedOnce :
    Unforgeable signedOnce fun key bytes => key = trustedKey ∧ bytes = signingBytes firstDelta := by
  intro key digest signature verified
  rw [mldsaVerify, Bool.and_eq_true] at verified
  obtain ⟨message, -, signer⟩ := of_decide_eq_true verified.2
  exact ⟨digest, ⟨signer, message⟩, rfl⟩

def twiceSent : List Applied := applied signedOnce ⟨0, fun _ => none, [], true⟩
    [.setTrusted [trustedKey], .applyDelta firstDelta 5, .applyDelta firstDelta 6]

theorem twiceSent_eq : twiceSent = [⟨firstDelta, [trustedKey]⟩] := by
  have signed : firstDelta.signature ≠ [] :=
    ne_nil_of_length_pos (length_replicate.trans_gt (Nat.succ_pos _))
  have passed : checkSignature signedOnce ⟨0, fun _ => none, [trustedKey], true⟩ firstDelta = .ok () := by
    rw [checkSignature, if_neg signed]
    exact verify_firstDelta
  have first := applyDelta_passed (s := ⟨0, fun _ => none, [trustedKey], true⟩) 5 rfl passed
  rw [twiceSent, applied, applied]
  simp only [applies, after, SetSignaturePolicy, first]
  rfl

/-- The delta is applied once, with the signature of the key that was trusted. -/
theorem first_delta_applied : twiceSent.map (fun a => a.delta.version) = [1] ∧ ∀ a ∈ twiceSent,
      Authorised (fun key bytes => key = trustedKey ∧ bytes = signingBytes firstDelta) a := by
  obtain ⟨versions, authorised, -⟩ := applied_chain_authorised _ injective_id
    unforgeable_signedOnce ⟨0, fun _ => none, [], true⟩ rfl
    [.setTrusted [trustedKey], .applyDelta firstDelta 5, .applyDelta firstDelta 6]
  have count : twiceSent.length = 1 := congrArg List.length twiceSent_eq
  refine ⟨versions.trans ?_, authorised⟩
  change versionsFrom 0 twiceSent.length = _
  rw [count]
  rfl

end Witness

/-- A decoded delta and the same delta under another signature have one digest. -/
theorem signature_not_covered : ¬ ∀ (crypto : Crypto), Injective crypto.sum256 → ∀ b b' d d',
      DecodeDelta b = .ok d → DecodeDelta b' = .ok d' →
      d.algorithm = DeltaAlgorithm → d'.algorithm = DeltaAlgorithm →
      signingDigest crypto d = signingDigest crypto d' → d = d' := by
  intro distinct
  have limits (signature : Byte) :
      DictionaryDelta.WithinLimits ⟨1, [], [], [signature], [], DeltaAlgorithm, 0⟩ :=
    ⟨Nat.le_of_ble_eq_true rfl, Nat.le_of_ble_eq_true rfl, Nat.le_of_ble_eq_true rfl,
      Nat.le_of_ble_eq_true rfl⟩
  have same := distinct ⟨id, fun _ _ _ => true⟩ injective_id _ _ _ _
    (decodeDelta_appendDelta (limits 1)) (decodeDelta_appendDelta (limits 2)) rfl rfl rfl
  exact absurd same (by decide)

end SyncManager

end Unheaded.Sophia
