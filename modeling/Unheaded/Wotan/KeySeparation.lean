import Unheaded.Wotan.Replays

/-!
# Keys of signed prefixes

A message on a signed topic is taken only with a signature of exactly this message, by a key that
is configured for the longest prefix of the topic.
-/

namespace Unheaded.Wotan

open Lib List PrefixKeys Policy

def signedPrefixes (entries : List PrefixKeys) : List (List Byte) :=
  BuiltinPrefixes ++ entries.map pfx

/-- The keys that the configuration names for a prefix. -/
def keysFor (configKeys : List (List Byte)) (entries : List PrefixKeys) (pfx : List Byte) :
    List (List Byte) :=
  if pfx = CONFIG then configKeys
  else (entries.find? fun e => decide (e.pfx = pfx)).elim [] keys

/-- No other signed prefix that covers the topic is as long. -/
def Longest (entries : List PrefixKeys) (pfx topic : List Byte) : Prop :=
  pfx ∈ signedPrefixes entries ∧ covers pfx topic = true ∧
    ∀ q ∈ signedPrefixes entries, covers q topic = true → q ≠ pfx → q.length < pfx.length

theorem stringLess_asymm (s t : List Byte) : stringLess s t = false ∨ stringLess t s = false := by
  induction s generalizing t with
  | nil =>
    right
    cases t <;> rfl
  | cons a s ih =>
    cases t with
    | nil => exact Or.inl rfl
    | cons b t =>
      simp only [stringLess, Bool.or_eq_false_iff, decide_eq_false_iff_not]
      rcases lt_trichotomy a.toNat b.toNat with hlt | heq | hgt
      · right
        have hne : ¬ b = a := fun h => by rw [h] at hlt; exact lt_irrefl _ hlt
        exact ⟨by omega, by simp [hne]⟩
      · rcases ih t with h | h
        · exact Or.inl ⟨by omega, by simp [h]⟩
        · exact Or.inr ⟨by omega, by simp [h]⟩
      · left
        have hne : ¬ a = b := fun h => by rw [h] at hgt; exact lt_irrefl _ hgt
        exact ⟨by omega, by simp [hne]⟩

theorem stringLess_trans {s t u : List Byte} (hts : stringLess t s = false)
    (hut : stringLess u t = false) : stringLess u s = false := by
  induction s generalizing t u with
  | nil => cases u <;> rfl
  | cons a s ih =>
    cases t with
    | nil => exact absurd hts (by simp [stringLess])
    | cons b t =>
      cases u with
      | nil => exact absurd hut (by simp [stringLess])
      | cons c u =>
        simp only [stringLess, Bool.or_eq_false_iff, decide_eq_false_iff_not] at hts hut ⊢
        obtain ⟨hba, hts⟩ := hts
        obtain ⟨hcb, hut⟩ := hut
        refine ⟨by omega, ?_⟩
        by_cases hca : c = a
        · subst hca
          obtain rfl : b = c := BitVec.eq_of_toNat_eq (by omega)
          simp only at hts hut ⊢
          exact ih hts hut
        · simp [hca]

theorem comesFirst_length {a b : List Byte} (h : comesFirst a b) : b.length ≤ a.length := by
  rw [comesFirst] at h
  split at h
  · exact h.le
  · rename_i heq
    exact (not_not.mp heq).ge

theorem comesFirst_total (a b : List Byte) : comesFirst a b ∨ comesFirst b a := by
  simp only [comesFirst]
  by_cases heq : a.length = b.length
  · rw [if_neg (not_not.mpr heq), if_neg (not_not.mpr heq.symm)]
    exact (stringLess_asymm a b).symm
  · rw [if_pos heq, if_pos (fun h => heq h.symm)]
    omega

theorem comesFirst_trans {a b c : List Byte} (hab : comesFirst a b) (hbc : comesFirst b c) :
    comesFirst a c := by
  have hab' := comesFirst_length hab
  have hbc' := comesFirst_length hbc
  simp only [comesFirst] at hab hbc ⊢
  split
  · rename_i hne
    omega
  · rename_i heq
    rw [if_neg (by omega)] at hab
    rw [if_neg (by omega)] at hbc
    exact stringLess_trans hab hbc

theorem sorted_prefixes (keys : List PrefixKeys) :
    (of keys).prefixes.Pairwise fun a b => b.length ≤ a.length := by
  have : Std.Total comesFirst := ⟨comesFirst_total⟩
  have : IsTrans (List Byte) comesFirst := ⟨fun _ _ _ => comesFirst_trans⟩
  exact (pairwise_insertionSort comesFirst (keys.map pfx)).imp comesFirst_length

theorem covers_unique {p q topic : List Byte} (hp : covers p topic = true) (hq : covers q topic = true)
    (hlen : p.length = q.length) : p = q := by
  have hcases : ∀ {r : List Byte}, covers r topic = true →
      2 ≤ r.length ∧ r.getLast? = some DOT ∧ (r <+: topic ∨ topic = r.dropLast) := by
    intro r hr
    rw [covers] at hr
    split at hr
    · cases hr
    · rename_i hshape
      rw [not_or, not_lt, not_not] at hshape
      simp only [Bool.or_eq_true, isPrefixOf_iff_prefix, decide_eq_true_eq] at hr
      exact ⟨hshape.1, hshape.2, hr⟩
  obtain ⟨hp2, hpdot, hptopic⟩ := hcases hp
  obtain ⟨hq2, hqdot, hqtopic⟩ := hcases hq
  have hstem : ∀ {r : List Byte}, r.getLast? = some DOT → r = r.dropLast ++ [DOT] := by
    intro r hr
    exact (dropLast_append_getLast? DOT hr).symm
  rcases hptopic with hpunder | hpstem
  · rcases hqtopic with hqunder | hqstem
    · exact (prefix_of_prefix_length_le hpunder hqunder hlen.le).eq_of_length hlen
    · have hlong := hpunder.length_le
      rw [hqstem, length_dropLast] at hlong
      omega
  · rcases hqtopic with hqunder | hqstem
    · have hlong := hqunder.length_le
      rw [hpstem, length_dropLast] at hlong
      omega
    · rw [hstem hpdot, hstem hqdot, ← hpstem, ← hqstem]

variable {configKeys : List (List Byte)} {entries : List PrefixKeys} {policy : Policy}
  {pfx topic : List Byte}

def policyKeys (configKeys : List (List Byte)) (entries : List PrefixKeys) : List PrefixKeys :=
  BuiltinPrefixes.foldl addBuiltin (⟨CONFIG, configKeys⟩ :: entries)

theorem foldlM_addPrefix {keys keys' : List PrefixKeys}
    (h : entries.foldlM addPrefix keys = .ok keys') : keys' = keys ++ entries := by
  induction entries generalizing keys with
  | nil =>
    rw [append_nil]
    exact (Except.ok.inj h).symm
  | cons e entries ih =>
    rw [foldlM_cons] at h
    cases hadd : addPrefix keys e with
    | error error =>
      simp [hadd, bind, Except.bind] at h
    | ok more =>
      rw [hadd] at h
      have hmore : more = keys ++ [e] := by
        rw [addPrefix] at hadd
        cases hvalid : validatePrefix e.pfx with
        | error error =>
          simp [hvalid, bind, Except.bind] at hadd
        | ok =>
          rw [hvalid] at hadd
          simp only [bind, Except.bind] at hadd
          split at hadd
          · cases hadd
          · exact (Except.ok.inj hadd).symm
      rw [ih h, hmore, List.append_assoc]
      rfl

theorem newPolicy_ok (h : newPolicy configKeys entries = .ok policy) :
    policy = .of (policyKeys configKeys entries) := by
  rw [newPolicy] at h
  cases hkeys : entries.foldlM addPrefix [⟨CONFIG, configKeys⟩] with
  | error error =>
    simp [hkeys] at h
  | ok keys =>
    rw [hkeys] at h
    rw [policyKeys, ← singleton_append, ← foldlM_addPrefix hkeys]
    exact (Except.ok.inj h).symm

theorem policyKeys_eq (configKeys : List (List Byte)) (entries : List PrefixKeys) :
    policyKeys configKeys entries = ⟨CONFIG, configKeys⟩ :: entries ++
      if DRIFT ∈ entries.map PrefixKeys.pfx then [] else [⟨DRIFT, []⟩] := by
  have hne : DRIFT ≠ CONFIG := by decide
  rw [policyKeys, BuiltinPrefixes, foldl_cons, foldl_cons, foldl_nil]
  have hfirst : addBuiltin (⟨CONFIG, configKeys⟩ :: entries) CONFIG = ⟨CONFIG, configKeys⟩ :: entries :=
    if_pos mem_cons_self
  rw [hfirst, addBuiltin, map_cons]
  by_cases hin : DRIFT ∈ entries.map pfx
  · rw [if_pos (mem_cons_of_mem _ hin), if_pos hin, append_nil]
  · rw [if_neg (by simpa [hne] using hin), if_neg hin]

theorem mem_policyKeys (configKeys : List (List Byte)) (entries : List PrefixKeys) (pfx : List Byte) :
    pfx ∈ (policyKeys configKeys entries).map PrefixKeys.pfx ↔ pfx ∈ signedPrefixes entries := by
  rw [policyKeys_eq, signedPrefixes, BuiltinPrefixes]
  by_cases hin : DRIFT ∈ entries.map PrefixKeys.pfx
  · rw [if_pos hin, append_nil]
    constructor
    · intro h
      rcases mem_cons.mp h with rfl | hentry
      · simp
      · exact mem_append_right _ hentry
    · intro h
      rcases mem_append.mp h with hbuiltin | hentry
      · rcases mem_cons.mp hbuiltin with rfl | hdrift
        · exact mem_cons_self
        · obtain rfl : pfx = DRIFT := by simpa using hdrift
          exact mem_cons_of_mem _ hin
      · exact mem_cons_of_mem _ hentry
  · rw [if_neg hin]
    simp only [map_append, map_cons, mem_append, mem_cons]
    tauto

theorem trusted_of {tv : TopicVerifier}
    (h : (of (policyKeys configKeys entries)).verifiers pfx = some tv) :
    tv.trusted = keysFor configKeys entries pfx := by
  simp only [of, Option.map_eq_some_iff] at h
  obtain ⟨e, hfound, rfl⟩ := h
  rw [policyKeys_eq, List.cons_append] at hfound
  rw [keysFor]
  by_cases hconfig : pfx = CONFIG
  · rw [if_pos hconfig]
    rw [List.find?_cons_of_pos (by simpa using hconfig.symm), Option.some.injEq] at hfound
    rw [← hfound]
    rfl
  · rw [if_neg hconfig]
    have hother : ¬ CONFIG = pfx := fun heq => hconfig heq.symm
    rw [List.find?_cons_of_neg (by simpa using hother), List.find?_append] at hfound
    cases hentry : entries.find? fun e => decide (e.pfx = pfx) with
    | some e' =>
      rw [hentry, Option.some_or, Option.some.injEq] at hfound
      rw [← hfound]
      rfl
    | none =>
      rw [hentry] at hfound
      split at hfound
      · cases hfound
      · have he := List.mem_of_find?_eq_some hfound
        rw [mem_singleton.mp he]
        rfl

theorem prefixFor_longest (h : newPolicy configKeys entries = .ok policy)
    (hfound : policy.prefixFor topic ≠ []) : Longest entries (policy.prefixFor topic) topic := by
  have hpolicy := newPolicy_ok h
  have hmem : ∀ q, q ∈ policy.prefixes ↔ q ∈ signedPrefixes entries := by
    intro q
    rw [hpolicy, ← mem_policyKeys configKeys]
    exact (perm_insertionSort comesFirst _).mem_iff
  cases hfind : policy.prefixes.find? fun pfx => covers pfx topic with
  | none =>
    rw [prefixFor, hfind] at hfound
    exact absurd rfl hfound
  | some found =>
    have heq : policy.prefixFor topic = found := by rw [prefixFor, hfind]; rfl
    rw [heq]
    obtain ⟨hcovers, before, after, hsplit, hskipped⟩ := List.find?_eq_some_iff_append.mp hfind
    refine ⟨(hmem found).mp (by rw [hsplit]; simp), hcovers, fun q hq hqcovers hne => ?_⟩
    have hsorted : policy.prefixes.Pairwise fun a b => b.length ≤ a.length := by
      rw [hpolicy]
      exact sorted_prefixes _
    rw [hsplit] at hsorted
    have hlater : q ∈ after := by
      have hin := (hmem q).mpr hq
      rw [hsplit] at hin
      rcases mem_append.mp hin with hbefore | hrest
      · have hnot := hskipped q hbefore
        simp [hqcovers] at hnot
      · exact (mem_cons.mp hrest).resolve_left hne
    have hle := (pairwise_cons.mp (pairwise_append.mp hsorted).2.1).1 q hlater
    exact lt_of_le_of_ne hle fun hlen => hne (covers_unique hqcovers hcovers hlen)

theorem prefixFor_ne_nil (h : newPolicy configKeys entries = .ok policy)
    (hpfx : pfx ∈ signedPrefixes entries) (hcovers : covers pfx topic = true) :
    policy.prefixFor topic ≠ [] := by
  have hin : pfx ∈ policy.prefixes := by
    rw [newPolicy_ok h]
    exact (perm_insertionSort comesFirst _).mem_iff.mpr ((mem_policyKeys _ _ _).mpr hpfx)
  cases hfind : policy.prefixes.find? fun pfx => covers pfx topic with
  | none => exact absurd hcovers (List.find?_eq_none.mp hfind pfx hin)
  | some found =>
    have hfound := List.find?_some hfind
    rw [prefixFor, hfind]
    rintro rfl
    exact absurd hfound (by simp [covers])

/-- The message of a signature. -/
structure Content where
  topic : List Byte
  sender : List Byte
  signedAt : Int64
  payload : List Byte
  deriving DecidableEq

def Content.preimage (c : Content) : List Byte := Wotan.preimage c.topic c.sender c.signedAt c.payload

theorem zero_notMem_of_validTopic (h : validTopic topic = true) : (0 : Byte) ∉ topic := by
  simp only [validTopic, validPattern, Bool.and_eq_true, List.all_eq_true] at h
  have hrunes : ∀ rune ∈ runes topic, ∃ x, rune = some x ∧ patternRune x = true := by
    intro rune hrune
    cases rune with
    | none => exact absurd (h.1.2 none hrune) (by simp)
    | some x => exact ⟨x, rfl, h.1.2 (some x) hrune⟩
  intro hzero
  have hmem := mem_runes_of_ascii (s := topic) (fun rune hrune => by
    obtain ⟨x, rfl, hx⟩ := hrunes rune hrune
    refine ⟨x, rfl, ?_⟩
    simp only [patternRune, Bool.or_eq_true, Bool.and_eq_true, decide_eq_true_eq] at hx
    omega) hzero
  obtain ⟨x, hx, hpattern⟩ := hrunes _ hmem
  obtain rfl : 0 = x := Option.some.inj hx
  exact absurd hpattern (by decide)

theorem preimage_inj {c c' : Content} (htopic : (0 : Byte) ∉ c.topic) (hsender : (0 : Byte) ∉ c.sender)
    (htopic' : (0 : Byte) ∉ c'.topic) (hsender' : (0 : Byte) ∉ c'.sender)
    (heq : c.preimage = c'.preimage) : c = c' := by
  obtain ⟨topic, sender, signedAt, payload⟩ := c
  obtain ⟨topic', sender', signedAt', payload'⟩ := c'
  have hbody := tail_eq_of_cons_eq (append_cancel_left heq)
  obtain ⟨rfl, hrest⟩ := append_separator_inj htopic htopic' hbody
  obtain ⟨rfl, htail⟩ := append_separator_inj hsender hsender' hrest
  obtain ⟨htime, rfl⟩ := append_inj htail (by rw [length_beBytes, length_beBytes])
  have hbits := beBytes_inj htime
  obtain rfl : signedAt = signedAt' := Int64.toBitVec_inj.mp hbits
  rfl

namespace Publishing

variable {crypto : Crypto} {s s' : Publishing} {e : PublishStep}

def Keyed (policy : Policy) (req : PublishRequest) : Prop :=
  ∃ tv, policy.verifiers (policy.prefixFor req.topic) = some tv ∧ req.signed.publicKey ∈ tv.trusted

/-- What is known of a call that has passed `Verify`, or is on an unsigned
topic. -/
def Passed (crypto : Crypto) (policy : Policy) (req : PublishRequest) (sender : List Byte) :
    Option Ticket → Prop
  | none => policy.prefixFor req.topic = []
  | some _ => Keyed policy req ∧ verifySignature crypto req.topic sender req.payload req.signed = .ok ()

/-- What is known of a call. -/
def Guarded (crypto : Crypto) (policy : Policy) (req : PublishRequest) : Stage → Prop
  | .authorized _ => validTopic req.topic = true
  | .timed _ _ => validTopic req.topic = true ∧ Keyed policy req
  | .swept _ _ => validTopic req.topic = true ∧ Keyed policy req
  | .passed caller ticket => validTopic req.topic = true ∧ Passed crypto policy req caller.sender ticket
  | .ready caller ticket => validTopic req.topic = true ∧ Passed crypto policy req caller.sender ticket
  | _ => True

/-- What holds in every state of a server that began with a policy. -/
structure Guards (crypto : Crypto) (policy : Policy) (s : Publishing) : Prop where
  prefixes : s.policy.prefixes = policy.prefixes
  verifiers : ∀ pfx tv, s.policy.verifiers pfx = some tv →
    ∃ tv', policy.verifiers pfx = some tv' ∧ tv'.trusted = tv.trusted
  calls : ∀ call ∈ s.calls, Guarded crypto policy call.req call.stage
  accepted : ∀ a ∈ s.accepted, validTopic a.req.topic = true ∧
    Passed crypto policy a.req a.sender a.ticket

theorem Guards.new (crypto : Crypto) (policy : Policy) (clock : Int) :
    Guards crypto policy (new clock policy) where
  prefixes := rfl
  verifiers _ tv h := ⟨tv, h, rfl⟩
  calls _ h := absurd h not_mem_nil
  accepted _ h := absurd h not_mem_nil

theorem Guards.prefixFor_eq (h : Guards crypto policy s) (topic : List Byte) :
    s.policy.prefixFor topic = policy.prefixFor topic := by
  rw [prefixFor, h.prefixes]
  rfl

theorem Guards.restage {i : Nat} {call : Call} {stage : Stage} (h : Guards crypto policy s)
    (hstage : Guarded crypto policy call.req stage) :
    Guards crypto policy { s with calls := s.setStage i call stage } :=
  { h with
    calls := fun call' hcall' => by
      rcases mem_setStage hcall' with hold | rfl
      · exact h.calls call' hold
      · exact hstage }

theorem Guards.put {pfx : List Byte} {tv : TopicVerifier} (tv' : TopicVerifier)
    (h : Guards crypto policy s)
    (hverifier : s.policy.verifiers pfx = some tv) (hkeys : tv'.trusted = tv.trusted) :
    Guards crypto policy { s with policy := s.policy.put pfx tv' } :=
  { h with
    verifiers := fun q found hfound => by
      by_cases hq : q = pfx
      · subst hq
        obtain ⟨tv₀, htv₀, htrusted⟩ := h.verifiers q tv hverifier
        obtain rfl : tv' = found := Option.some.inj ((put_self s.policy q tv').symm.trans hfound)
        exact ⟨tv₀, htv₀, htrusted.trans hkeys.symm⟩
      · exact h.verifiers q found ((put_of_ne s.policy tv' hq).symm.trans hfound) }

theorem Guards.take {a : Taken} (h : Guards crypto policy s) (htopic : validTopic a.req.topic = true)
    (ha : Passed crypto policy a.req a.sender a.ticket) :
    Guards crypto policy { s with accepted := s.accepted ++ [a] } :=
  { h with
    accepted := fun b hb => by
      rcases mem_append.mp hb with hold | hnew
      · exact h.accepted b hold
      · obtain rfl : b = a := by simpa using hnew
        exact ⟨htopic, ha⟩ }

variable {req : PublishRequest}

theorem authorize_validTopic {members : Members} {caller : Caller}
    (h : Wotan.authorize members req = .ok caller) : validTopic req.topic = true := by
  rw [Wotan.authorize] at h
  split at h
  · cases h
  · split at h
    · cases h
    · rename_i hvalid
      simpa using hvalid

theorem checkKey_ok {sg : Signed} {trusted : List (List Byte)} (h : checkKey sg trusted = .ok ()) :
    sg.algorithm = Algorithm ∧ sg.publicKey ∈ trusted := by
  rw [checkKey] at h
  split at h
  · cases h
  · rename_i halgorithm
    split at h
    · cases h
    · split at h
      · cases h
      · rename_i hkey
        rw [not_or, not_not] at hkey
        exact ⟨not_not.mp halgorithm, hkey.2⟩

theorem examine_ok {now : Int} {ticket : Option Ticket}
    (h : Wotan.examine policy now req = .ok ticket) :
    (ticket = none ∧ policy.prefixFor req.topic = []) ∨ (ticket ≠ none ∧ Keyed policy req) := by
  simp only [Wotan.examine] at h
  split at h
  · rename_i hnone
    exact Or.inl ⟨(Except.ok.inj h).symm, hnone⟩
  · rename_i hsome
    right
    split at h
    · cases h
    · split at h
      · cases h
      · rename_i tv hverifier
        rw [verifierFor, if_neg hsome] at hverifier
        split at h
        · cases h
        · split at h
          · cases h
          · rename_i hkey
            rw [← Except.ok.inj h]
            exact ⟨by simp, tv, hverifier, (checkKey_ok hkey).2⟩

theorem Guards.keyed (h : Guards crypto policy s) (hkeyed : Keyed s.policy req) :
    Keyed policy req := by
  obtain ⟨tv, hverifier, hkey⟩ := hkeyed
  rw [h.prefixFor_eq] at hverifier
  obtain ⟨tv', hverifier', htrusted⟩ := h.verifiers _ tv hverifier
  exact ⟨tv', hverifier', htrusted ▸ hkey⟩

theorem Guards.step (h : Guards crypto policy s) (hstep : Publishing.step crypto s e = some s') :
    Guards crypto policy s' := by
  cases step_cases hstep with
  | pass later => exact { h with }
  | arrive req =>
    refine { h with calls := fun call hcall => ?_ }
    rcases mem_append.mp hcall with hold | hnew
    · exact h.calls call hold
    · obtain rfl : call = ⟨req, .arrived⟩ := by simpa using hnew
      trivial
  | refuse error found => exact h.restage trivial
  | authorize found stage allowed => exact h.restage (authorize_validTopic allowed)
  | @unsigned i call caller found stage free =>
    have hguarded := h.calls call (mem_of_getElem? found)
    rw [stage] at hguarded
    rcases examine_ok free with ⟨-, hnone⟩ | ⟨hticket, -⟩
    · exact h.restage ⟨hguarded, (h.prefixFor_eq _).symm.trans hnone⟩
    · exact absurd rfl hticket
  | @time i call caller ticket found stage bound =>
    have hguarded := h.calls call (mem_of_getElem? found)
    rw [stage] at hguarded
    rcases examine_ok bound with ⟨hnone, -⟩ | ⟨-, hkeyed⟩
    · cases hnone
    · exact h.restage ⟨hguarded, h.keyed hkeyed⟩
  | @forget i call caller ticket tv found stage verifier =>
    have hguarded := h.calls call (mem_of_getElem? found)
    rw [stage] at hguarded
    exact (h.put (tv.forget ticket.now) verifier rfl).restage hguarded
  | @verify i call caller ticket tv found stage verifier checked =>
    have hguarded := h.calls call (mem_of_getElem? found)
    rw [stage] at hguarded
    exact h.restage ⟨hguarded.1, hguarded.2, (check_ok checked).2⟩
  | @ensure i call caller ticket allowed found stage =>
    have hguarded := h.calls call (mem_of_getElem? found)
    rw [stage] at hguarded
    exact h.restage hguarded
  | @takeUnsigned i call caller found stage =>
    have hguarded := h.calls call (mem_of_getElem? found)
    rw [stage] at hguarded
    exact (h.take (a := ⟨call.req, caller.sender, none⟩) hguarded.1 hguarded.2).restage trivial
  | @takeSigned i call caller ticket tv found stage verifier unused =>
    have hguarded := h.calls call (mem_of_getElem? found)
    rw [stage] at hguarded
    have htaken := (h.put (tv.remember (crypto.sum256 call.req.signed.signature)
      call.req.signed.signedAt) verifier rfl).take
        (a := ⟨call.req, caller.sender, some ticket⟩) hguarded.1 hguarded.2
    exact htaken.restage trivial
  | store found stage => exact h.restage trivial

theorem Guards.run {steps : List PublishStep} (h : Guards crypto policy s)
    (hrun : Publishing.run crypto s steps = some s') : Guards crypto policy s' :=
  runAll_invariant (fun _ _ _ hs hstep => hs.step hstep) hrun h

theorem verifySignature_ok {topic sender payload : List Byte} {sg : Signed}
    (h : verifySignature crypto topic sender payload sg = .ok ()) :
    mldsaVerify crypto (canonicalize crypto topic sender sg.signedAt payload) sg.signature
      sg.publicKey = true := by
  rw [verifySignature] at h
  split at h
  · assumption
  · cases h

/-- Signatures that verify were made by the holder of the key, for some message. -/
def Unforgeable (crypto : Crypto) (signs : List Byte → Content → Prop) : Prop :=
  ∀ key digest signature, mldsaVerify crypto digest signature key = true →
    ∃ c, signs key c ∧ crypto.sum256 c.preimage = digest

def contentOf (a : Taken) : Content := ⟨a.req.topic, a.sender, a.req.signed.signedAt, a.req.payload⟩

theorem requiresSignature_of_covers (hpfx : pfx ∈ signedPrefixes entries)
    (hcovers : covers pfx topic = true) : requiresSignature entries topic = true := by
  rw [requiresSignature, Bool.or_eq_true, List.any_eq_true, List.any_eq_true]
  rcases mem_append.mp hpfx with hbuiltin | hentry
  · exact Or.inl ⟨pfx, hbuiltin, hcovers⟩
  · obtain ⟨entry, hin, rfl⟩ := List.mem_map.mp hentry
    exact Or.inr ⟨entry, hin, hcovers⟩

theorem httpPublishTopic_refuses (members : Members) (identity : Option (List Byte))
    (payload subscriberId : List Byte) (id : Nat) (h : requiresSignature entries topic = true) :
    httpPublishTopic entries members identity topic payload subscriberId ≠ .ok id := by
  rw [httpPublishTopic, if_pos h]
  split
  · simp
  · split <;> simp

theorem httpSendMessage_refuses (members : Members) (identity : Option (List Byte))
    (content : List Byte) (memberId id : Nat) (h : requiresSignature entries topic = true) :
    httpSendMessage entries members identity topic content memberId ≠ .ok id := by
  rw [httpSendMessage]
  split
  · simp
  · split
    · simp
    · split <;> simp

/-- For every policy that `NewPolicy` accepts and every topic under a signed
prefix.  A message that any run of calls takes on the topic carries a key that is
configured for the longest prefix of the topic, and a signature that verifies with
this key for the topic, the sender, the time and the payload of the message; over
HTTP none is taken.  If signatures cannot be forged and hashes do not collide, the
holder of the key has signed the same bytes, and the same message when sender and
topic have no NUL, since then different messages have different bytes. -/
theorem keys_separated (crypto : Crypto) (configKeys : List (List Byte)) (entries : List PrefixKeys)
    (policy : Policy) (hpolicy : newPolicy configKeys entries = .ok policy) (topic pfx : List Byte)
    (hpfx : pfx ∈ signedPrefixes entries) (hcovers : covers pfx topic = true) :
    (∀ (clock : Int) (steps : List PublishStep) (s : Publishing),
      run crypto (new clock policy) steps = some s → ∀ a ∈ s.accepted, a.req.topic = topic →
        ∃ longest, Longest entries longest topic ∧
          a.req.signed.publicKey ∈ keysFor configKeys entries longest ∧
          verifySignature crypto topic a.sender a.req.payload a.req.signed = .ok () ∧
          ∀ signs, Function.Injective crypto.sum256 → Unforgeable crypto signs →
            ∃ c, signs a.req.signed.publicKey c ∧ c.preimage = (contentOf a).preimage ∧
              ((0 : Byte) ∉ c.topic → (0 : Byte) ∉ c.sender → (0 : Byte) ∉ a.sender →
                c = contentOf a)) ∧ (∀ members identity payload subscriberId id,
      httpPublishTopic entries members identity topic payload subscriberId ≠ .ok id) ∧
    (∀ members identity content memberId id,
      httpSendMessage entries members identity topic content memberId ≠ .ok id) ∧
    (∀ c c' : Content, validTopic c.topic = true → validTopic c'.topic = true →
      (0 : Byte) ∉ c.sender → (0 : Byte) ∉ c'.sender → c.preimage = c'.preimage → c = c') := by
  have hrequires := requiresSignature_of_covers hpfx hcovers
  refine ⟨?_, fun members identity payload subscriberId id =>
    httpPublishTopic_refuses members identity payload subscriberId id hrequires,
    fun members identity content memberId id =>
      httpSendMessage_refuses members identity content memberId id hrequires, ?_⟩
  · intro clock steps s hrun a ha htopic
    obtain ⟨hvalid, hpassed⟩ := ((Guards.new crypto policy clock).run hrun).accepted a ha
    have hsigned := prefixFor_ne_nil hpolicy hpfx hcovers
    cases hticket : a.ticket with
    | none =>
      rw [hticket, Passed, htopic] at hpassed
      exact absurd hpassed hsigned
    | some ticket =>
      rw [hticket, Passed, Keyed, htopic] at hpassed
      obtain ⟨⟨tv, hverifier, hkey⟩, hverify⟩ := hpassed
      refine ⟨policy.prefixFor topic, prefixFor_longest hpolicy hsigned, ?_, hverify, ?_⟩
      · rw [newPolicy_ok hpolicy] at hverifier
        rw [newPolicy_ok hpolicy, ← trusted_of hverifier]
        exact hkey
      · intro signs hhash hunforgeable
        obtain ⟨c, hsigns, hdigest⟩ := hunforgeable _ _ _ (verifySignature_ok hverify)
        have hsame : c.preimage = (contentOf a).preimage := by
          rw [contentOf, htopic]
          exact hhash hdigest
        refine ⟨c, hsigns, hsame, fun hctopic hcsender hsender => ?_⟩
        exact preimage_inj hctopic hcsender (zero_notMem_of_validTopic hvalid) hsender hsame
  · intro c c' hc hc' hsender hsender' heq
    exact preimage_inj (zero_notMem_of_validTopic hc) hsender (zero_notMem_of_validTopic hc') hsender' heq

section Witness

/-- A message under `config.` is taken with the key of this prefix. -/
theorem config_message_signed : (reached bothVerified).accepted ≠ [] ∧
      ∀ a ∈ (reached bothVerified).accepted, a.req.topic = plainTopic →
        ∃ longest, Longest [] longest plainTopic ∧
          a.req.signed.publicKey ∈ keysFor [plainKey] [] longest := by
  refine ⟨by decide +kernel, fun a ha htopic => ?_⟩
  obtain ⟨longest, hlongest, hkey, -⟩ := (keys_separated plainCrypto [plainKey] [] plainPolicy rfl
    plainTopic CONFIG (by decide) (by decide)).1 1000000 bothVerified _
      (run_reached bothVerified (by decide +kernel)) a ha htopic
  exact ⟨longest, hlongest, hkey⟩

end Witness

end Publishing

end Unheaded.Wotan
