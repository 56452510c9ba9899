import Unheaded.Lib.Events
import Unheaded.Qos.TokenBucket

/-!
# CoDel in the QoS limiter

The stages of `try_qos_xdp` behind the parse: the token bucket of the flow, the CoDel state of the
service, the counters.
-/

namespace Unheaded.Qos

open Lib List Function

structure QueueStats where
  packets : U64
  passed : U64
  droppedRate : U64
  droppedCodel : U64
  tokensConsumed : U64
  codelFirstAboveNs : U64
  codelDropNextNs : U64
  codelCount : BitVec 32
  codelDropping : BitVec 8

/-- A packet with what the program reads for it: the clock, the policy and the configuration. -/
structure QosPacket where
  now : U64
  pktBytes : U64
  flowLabel : BitVec 32
  dstSvcId : BitVec 32
  latencyHint : BitVec 16
  rateLimitMbps : U64
  burstBytes : U64
  targetLatencyUs : U64
  intervalNs : U64
  bucketRoom : Bool
  queueRoom : Bool

structure QosMaps where
  tokenBuckets : BitVec 32 → Option TokenBucket
  queueStats : BitVec 32 → Option QueueStats

def QosMaps.empty : QosMaps := ⟨fun _ => none, fun _ => none⟩

/-- `saturating_add(1)`. -/
def bump {w : Nat} (n : BitVec w) : BitVec w := if n = BitVec.allOnes w then n else n + 1

def isqrtLoop (n : BitVec 32) : Nat → BitVec 32 → BitVec 32 → BitVec 32
  | 0, x, _ => x
  | turns + 1, x, y =>
    if x ≤ y then x else if 0 < y then isqrtLoop n turns y ((y + n / y) / 2) else y

def isqrt (n : BitVec 32) : BitVec 32 :=
  if n ≤ 1 then n else isqrtLoop n 16 n (n / 2 + n % 2)

namespace QosPacket

variable (p : QosPacket)

def bucketCapacity : U64 :=
  if 0 < p.burstBytes then p.burstBytes else p.rateLimitMbps * 1000000 / (8 * 1000)

def codelInterval : U64 := if p.intervalNs = 0 then 100000000 else p.intervalNs

/-- The rate limiter: whether the packet goes on, and the buckets. -/
def rateStage (buckets : BitVec 32 → Option TokenBucket) : Bool × (BitVec 32 → Option TokenBucket) :=
  if p.rateLimitMbps = 0 then (true, buckets)
  else
    match buckets p.flowLabel with
    | some b =>
      let (fits, b) := b.packet p.rateLimitMbps p.bucketCapacity p.now p.pktBytes
      (fits, update buckets p.flowLabel (some b))
    | none => (true, if p.bucketRoom then update buckets p.flowLabel
        (some (TokenBucket.created p.bucketCapacity p.now p.pktBytes)) else buckets)

def Above : Prop := p.targetLatencyUs < p.latencyHint.setWidth 64 ∧ 0 < p.targetLatencyUs

instance : Decidable p.Above := inferInstanceAs (Decidable (_ ∧ _))

/-- A packet above the target, with an entry: whether it is dropped, and the entry. -/
def codel (qs : QueueStats) : Bool × QueueStats :=
  if qs.codelFirstAboveNs = 0 then (false, { qs with codelFirstAboveNs := p.now })
  else if p.codelInterval < saturatingSub p.now qs.codelFirstAboveNs then
    let qs := if qs.codelDropping = 0 then
      { qs with codelDropping := 1, codelCount := 1, codelDropNextNs := p.now } else qs
    if qs.codelDropNextNs ≤ p.now then
      let count := bump qs.codelCount
      let root := isqrt count
      let next := if 0 < root then p.codelInterval / root.setWidth 64 else p.codelInterval
      (true, { qs with
        codelCount := count
        droppedCodel := bump qs.droppedCodel
        codelDropNextNs := p.now + next })
    else (false, qs)
  else (false, qs)

def newStats : QueueStats := ⟨1, 0, 0, 0, 0, p.now, 0, 0, 0⟩

/-- The CoDel stage. -/
def codelStage : Option QueueStats → Bool × Option QueueStats
  | some qs =>
    if p.Above then ((p.codel qs).1, some (p.codel qs).2)
    else (false, some { qs with codelFirstAboveNs := 0, codelDropping := 0, codelCount := 0 })
  | none => (false, if p.Above ∧ p.queueRoom = true then some p.newStats else none)

def counted (qs : QueueStats) : QueueStats :=
  { qs with
    packets := bump qs.packets
    passed := bump qs.passed
    tokensConsumed := if qs.tokensConsumed.toNat + p.pktBytes.toNat < 2 ^ 64 then
      qs.tokensConsumed + p.pktBytes else BitVec.allOnes 64 }

end QosPacket

def rateDropped (qs : QueueStats) : QueueStats :=
  { qs with packets := bump qs.packets, droppedRate := bump qs.droppedRate }

inductive QosVerdict where
  | pass | dropRate | dropCodel
  deriving DecidableEq

namespace QosMaps

variable (s : QosMaps) (p : QosPacket)

/-- The packet gets past the rate limiter. -/
def reaches : Bool := (p.rateStage s.tokenBuckets).1

/-- The verdict, and the entry of the packet's service afterwards. -/
def outcome : QosVerdict × Option QueueStats :=
  let qs := s.queueStats p.dstSvcId
  if s.reaches p = false then (.dropRate, qs.map rateDropped)
  else if (p.codelStage qs).1 then (.dropCodel, (p.codelStage qs).2)
  else (.pass, (p.codelStage qs).2.map p.counted)

def tryQosXdp : QosMaps where
  tokenBuckets := (p.rateStage s.tokenBuckets).2
  queueStats := update s.queueStats p.dstSvcId (s.outcome p).2

/-- The counters of every service add up. -/
def Balanced : Prop := ∀ k qs, s.queueStats k = some qs →
  qs.packets.toNat = qs.passed.toNat + qs.droppedRate.toNat + qs.droppedCodel.toNat

/-- A service that has none gets an entry. -/
def Enters : Prop := s.reaches p = true ∧ p.Above ∧ p.queueRoom = true

variable {s p}

theorem codel_firstAbove {qs : QueueStats} : (p.codel qs).2.codelFirstAboveNs =
    if qs.codelFirstAboveNs = 0 then p.now else qs.codelFirstAboveNs := by
  unfold QosPacket.codel
  dsimp only
  split
  · rfl
  · split
    · split
      · split <;> rfl
      · split <;> rfl
    · rfl

theorem codel_drops {qs : QueueStats} (drops : (p.codel qs).1 = true) : qs.codelFirstAboveNs ≠ 0 ∧
    qs.codelFirstAboveNs.toNat + p.codelInterval.toNat < p.now.toNat := by
  unfold QosPacket.codel at drops
  split at drops
  · cases drops
  · next since =>
    split at drops
    · next long =>
      rw [BitVec.lt_def, toNat_saturatingSub] at long
      exact ⟨since, by omega⟩
    · cases drops

theorem codelStage_drops {qs : Option QueueStats} (drops : (p.codelStage qs).1 = true) :
    ∃ old, qs = some old ∧ p.Above ∧ (p.codel old).1 = true := by
  unfold QosPacket.codelStage at drops
  split at drops
  · next old =>
    split at drops
    · next above => exact ⟨old, rfl, above, drops⟩
    · cases drops
  · cases drops

theorem firstAbove_outcome {qs : QueueStats} (entry : (s.outcome p).2 = some qs)
    (since : qs.codelFirstAboveNs ≠ 0) : (s.reaches p = true → p.Above) ∧
      (p.Above ∧ qs.codelFirstAboveNs = p.now ∨
        ∃ old, s.queueStats p.dstSvcId = some old ∧ old.codelFirstAboveNs = qs.codelFirstAboveNs) := by
  simp only [outcome] at entry
  split at entry
  · next stopped =>
    obtain ⟨old, found, rfl⟩ := Option.map_eq_some_iff.mp entry
    exact ⟨fun goes => absurd (goes.symm.trans stopped) (by decide), .inr ⟨old, found, rfl⟩⟩
  -- what counts a packet that passes leaves the CoDel fields alone
  obtain ⟨qs', stage, same⟩ : ∃ qs', (p.codelStage (s.queueStats p.dstSvcId)).2 = some qs' ∧
      qs'.codelFirstAboveNs = qs.codelFirstAboveNs := by
    split at entry
    · exact ⟨qs, entry, rfl⟩
    · obtain ⟨qs', stage, rfl⟩ := Option.map_eq_some_iff.mp entry
      exact ⟨qs', stage, rfl⟩
  rw [← same] at since ⊢
  unfold QosPacket.codelStage at stage
  split at stage
  · next old found =>
    rw [found]
    split at stage
    · next above =>
      cases stage
      rw [codel_firstAbove]
      refine ⟨fun _ => above, ?_⟩
      split
      · exact .inl ⟨above, rfl⟩
      · exact .inr ⟨old, rfl, rfl⟩
    · cases stage
      exact absurd rfl since
  · dsimp only at stage
    split at stage
    · next enters =>
      cases stage
      exact ⟨fun _ => enters.1, .inl ⟨enters.1, rfl⟩⟩
    · cases stage

variable {ps : List QosPacket}

/-- The maps before packet `n`. -/
def before (ps : List QosPacket) (n : Nat) : QosMaps := afterAll tryQosXdp empty (ps.take n)

theorem before_succ {n : Nat} (here : ps[n]? = some p) :
    before ps (n + 1) = (before ps n).tryQosXdp p := by
  rw [before, take_add_one, here, afterAll_append]
  rfl

/-- From packet `i` on, up to `n`, all packets of the service that reach the stage are above their
target. -/
def AboveSince (ps : List QosPacket) (k : BitVec 32) (i n : Nat) : Prop :=
  ∀ j r, i ≤ j → j < n → ps[j]? = some r → r.dstSvcId = k → (before ps j).reaches r = true → r.Above

theorem AboveSince.succ {k : BitVec 32} {i n : Nat} (above : AboveSince ps k i n)
    (last : ∀ r, ps[n]? = some r → r.dstSvcId = k → (before ps n).reaches r = true → r.Above) :
    AboveSince ps k i (n + 1) := by
  intro j r begun below
  rcases Nat.lt_succ_iff_lt_or_eq.mp below with earlier | rfl
  · exact above j r begun earlier
  · exact last r

theorem aboveSince_of_entry {n : Nat} {k : BitVec 32} {qs : QueueStats}
    (entry : (before ps n).queueStats k = some qs) (since : qs.codelFirstAboveNs ≠ 0) :
    ∃ i q, ps[i]? = some q ∧ q.now = qs.codelFirstAboveNs ∧ AboveSince ps k i n := by
  induction n generalizing qs with
  | zero => cases entry
  | succ n ih =>
    cases here : ps[n]? with
    | none =>
      have past := getElem?_eq_none_iff.mp here
      rw [before, take_of_length_le (by omega), ← take_of_length_le past] at entry
      obtain ⟨i, q, found, same, above⟩ := ih entry since
      exact ⟨i, q, found, same, above.succ fun r other => absurd (here.symm.trans other) nofun⟩
    | some p =>
      rw [before_succ here] at entry
      by_cases own : p.dstSvcId = k
      · subst own
        simp only [tryQosXdp, update_self] at entry
        obtain ⟨keeps, ⟨above, now⟩ | ⟨old, found, same⟩⟩ := firstAbove_outcome entry since
        · refine ⟨n, p, here, now.symm, AboveSince.succ (fun j r begun below => by omega) ?_⟩
          exact fun r other _ _ => Option.some.inj (here.symm.trans other) ▸ above
        · obtain ⟨i, q, found, time, above⟩ := ih found (same ▸ since)
          refine ⟨i, q, found, time.trans same, above.succ fun r other _ => ?_⟩
          exact Option.some.inj (here.symm.trans other) ▸ keeps
      · simp only [tryQosXdp, update_of_ne (Ne.symm own)] at entry
        obtain ⟨i, q, found, same, above⟩ := ih entry since
        refine ⟨i, q, found, same, above.succ fun r other self => absurd self ?_⟩
        exact Option.some.inj (here.symm.trans other) ▸ own

/-- Every CoDel drop is of a packet above its target, and a packet more than an interval earlier began
a time in which all packets of the service that reached the stage were above theirs. -/
def PersistentDrops (ps : List QosPacket) : Prop :=
  ∀ n p, ps[n]? = some p → ((before ps n).outcome p).1 = .dropCodel → p.Above ∧
    ∃ i q, ps[i]? = some q ∧ q.now.toNat + p.codelInterval.toNat < p.now.toNat ∧
      AboveSince ps p.dstSvcId i (n + 1)

theorem persistentDrops (ps : List QosPacket) : PersistentDrops ps := by
  intro n p here drop
  simp only [outcome] at drop
  split at drop
  · cases drop
  split at drop
  · next dropped =>
    obtain ⟨old, found, above, codel⟩ := codelStage_drops dropped
    obtain ⟨since, long⟩ := codel_drops codel
    obtain ⟨i, q, there, same, earlier⟩ := aboveSince_of_entry found since
    refine ⟨above, i, q, there, same ▸ long, earlier.succ fun r other _ _ => ?_⟩
    exact Option.some.inj (here.symm.trans other) ▸ above
  · cases drop

/-- Drops are for persistent delay in every run, and the counters add up in every state of it, exactly
when no packet makes an entry. -/
theorem codel_counts_iff (ps : List QosPacket) :
    (PersistentDrops ps ∧ ∀ n, Balanced (before ps n)) ↔
      Along tryQosXdp (fun s p => ¬ Enters s p) empty ps := by
  have unused : ∀ s p, (∀ k, queueStats s k = none) → ¬ Enters s p →
      ∀ k, (tryQosXdp s p).queueStats k = none := by
    intro s p none enters k
    simp only [tryQosXdp, update_apply, none, ite_eq_right_iff]
    rintro -
    by_cases goes : s.reaches p = true
    · simp only [outcome, none, QosPacket.codelStage, goes, Bool.true_eq_false, if_false,
        Bool.false_eq_true, if_neg fun both => enters ⟨goes, both⟩]
      rfl
    · simp only [outcome, none, Bool.eq_false_iff.mpr goes, if_true]
      rfl
  refine (and_iff_right (persistentDrops ps)).trans (Iff.symm (along_iff_states ?_ unused ?_ ?_ ps))
  · intro s none k qs entry
    cases (none k).symm.trans entry
  · intro s p none enters balanced
    obtain ⟨goes, both⟩ := not_not.mp enters
    have entry : (tryQosXdp s p).queueStats p.dstSvcId = some (p.counted p.newStats) := by
      simp only [tryQosXdp, update_self, outcome, none, QosPacket.codelStage, goes,
        Bool.true_eq_false, if_false, Bool.false_eq_true, if_pos both]
      rfl
    cases balanced _ _ entry
  · exact fun _ => rfl

/-- The first packet above a target. -/
def slowPacket : QosPacket := ⟨1, 100, 0, 7, 6000, 0, 0, 5000, 0, true, true⟩

theorem slow_packet_miscounted : ¬ ∀ n, Balanced (before [slowPacket] n) := by
  intro balanced
  exact absurd (balanced 1 7 _ rfl) (by decide)

end QosMaps

end Unheaded.Qos
