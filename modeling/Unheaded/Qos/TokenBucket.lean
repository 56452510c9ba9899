import Unheaded.Lib.TokenBucket

/-!
# The token bucket of the QoS limiter

`monad_common::token_bucket` and the per-flow use `qos-ebpf` makes of it, in the 64-bit arithmetic
of the source.
-/

namespace Unheaded.Qos

open Lib List BitVec Option BitVec Bucket

abbrev U64 := BitVec 64

def NS_PER_QUANTUM : U64 := 8000

/-- Result of one `refill` step. -/
structure Refill where
  tokens : U64
  lastRefillNs : U64
  refilled : Bool
  deriving DecidableEq

def saturatingSub (a b : U64) : U64 := if a < b then 0 else a - b

def refill (tokens lastRefillNs now rateMbps capacity : U64) : Refill :=
  let unchanged : Refill := ⟨tokens, lastRefillNs, false⟩
  if rateMbps = 0 then unchanged
  else
    let q := saturatingSub now lastRefillNs / NS_PER_QUANTUM
    if q = 0 then unchanged
    else
      let full : Refill := ⟨capacity, now, true⟩
      if capacity / rateMbps < q then full
      else
        let add := q * rateMbps
        if capacity ≤ tokens ∨ capacity - tokens ≤ add then full
        else ⟨tokens + add, lastRefillNs + q * NS_PER_QUANTUM, true⟩

/-- The value of the map `TOKEN_BUCKETS`. -/
structure TokenBucket where
  tokens : U64
  lastRefillNs : U64
  deriving DecidableEq

namespace TokenBucket

variable (rateMbps capacity : U64)

variable (b : TokenBucket)

/-- The stored bucket after the refill for a packet at `now`. -/
def refilled (now : U64) : TokenBucket :=
  let r := refill b.tokens b.lastRefillNs now rateMbps capacity
  if r.refilled then ⟨r.tokens, r.lastRefillNs⟩ else b

def packet (now pktBytes : U64) : Bool × TokenBucket :=
  let b := b.refilled rateMbps capacity now
  if b.tokens < pktBytes then (false, b) else (true, { b with tokens := b.tokens - pktBytes })

def created (now pktBytes : U64) : TokenBucket := ⟨saturatingSub capacity pktBytes, now⟩

/-- The bucket after a sequence of packets `(now, pktBytes)`. -/
def after : TokenBucket → List (U64 × U64) → TokenBucket
  | b, [] => b
  | b, (now, pktBytes) :: rest => after (b.packet rateMbps capacity now pktBytes).2 rest

/-- The bytes admitted of a sequence of packets. -/
def admitted : TokenBucket → List (U64 × U64) → Nat
  | _, [] => 0
  | b, (now, pktBytes) :: rest =>
    let r := b.packet rateMbps capacity now pktBytes
    (if r.1 then pktBytes.toNat else 0) + admitted r.2 rest

def exact : Bucket := ⟨b.tokens.toNat, b.lastRefillNs.toNat⟩

end TokenBucket

variable (a b : U64)

def checkedAdd : Option U64 := if a.toNat + b.toNat < 2 ^ 64 then some (a + b) else none
def checkedSub : Option U64 := if b.toNat ≤ a.toNat then some (a - b) else none
def checkedMul : Option U64 := if a.toNat * b.toNat < 2 ^ 64 then some (a * b) else none

/-- `refill` with every operation checked: `none` if one of them leaves the 64-bit range. -/
def refillChecked (tokens lastRefillNs now rateMbps capacity : U64) : Option Refill :=
  let unchanged : Refill := ⟨tokens, lastRefillNs, false⟩
  if rateMbps = 0 then some unchanged
  else
    let q := saturatingSub now lastRefillNs / NS_PER_QUANTUM
    if q = 0 then some unchanged
    else
      let full : Refill := ⟨capacity, now, true⟩
      if capacity / rateMbps < q then some full
      else do
        let add ← checkedMul q rateMbps
        if capacity ≤ tokens then some full
        else
          let room ← checkedSub capacity tokens
          if room ≤ add then some full
          else
            let credited ← checkedAdd tokens add
            let paid ← checkedMul q NS_PER_QUANTUM
            let stamp ← checkedAdd lastRefillNs paid
            some ⟨credited, stamp, true⟩

/-- `packet` with every operation checked. -/
def TokenBucket.packetChecked (rateMbps capacity : U64) (b : TokenBucket) (now pktBytes : U64) :
    Option (Bool × TokenBucket) := do
  let r ← refillChecked b.tokens b.lastRefillNs now rateMbps capacity
  let b := if r.refilled then ⟨r.tokens, r.lastRefillNs⟩ else b
  if b.tokens < pktBytes then some (false, b)
  else
    let left ← checkedSub b.tokens pktBytes
    some (true, { b with tokens := left })

theorem toNat_saturatingSub : (saturatingSub a b).toNat = a.toNat - b.toNat := by
  unfold saturatingSub
  split
  · next less =>
      have order := lt_def.mp less
      rw [Nat.sub_eq_zero_of_le (Nat.le_of_lt order)]
      rfl
  · next less =>
      have order := le_def.mp (BitVec.not_lt.mp less)
      exact toNat_sub_of_le (le_def.mpr order)

theorem toNat_quanta (now last : U64) :
    (saturatingSub now last / NS_PER_QUANTUM).toNat = (now.toNat - last.toNat) / 8000 := by
  rw [toNat_udiv, toNat_saturatingSub]
  rfl

variable {cap q rate : U64}

theorem quanta_exceed (pos : 0 < rate.toNat) (beyond : cap / rate < q) :
    cap.toNat < q.toNat * rate.toNat := by
  have quotient := lt_def.mp beyond
  exact (Nat.div_lt_iff_lt_mul pos).mp quotient

theorem toNat_quanta_mul (within : ¬ cap / rate < q) :
    (q * rate).toNat = q.toNat * rate.toNat ∧ q.toNat * rate.toNat ≤ cap.toNat := by
  have quotient := le_def.mp (BitVec.not_lt.mp within)
  have bound : q.toNat * rate.toNat ≤ cap.toNat :=
    Nat.le_trans (Nat.mul_le_mul_right _ quotient) (Nat.div_mul_le_self _ _)
  refine ⟨?_, bound⟩
  exact Nat.mod_eq_of_lt (Nat.lt_of_le_of_lt bound cap.isLt)

/-- The three outcomes of a refill, in exact arithmetic and with every operation in range. -/
theorem refill_outcomes (tokens last now cap : U64) (pos : 0 < rate.toNat) :
    ((now.toNat - last.toNat) / 8000 = 0 ∧ refill tokens last now rate cap = ⟨tokens, last, false⟩ ∧
        refillChecked tokens last now rate cap = some ⟨tokens, last, false⟩) ∨
      ((now.toNat - last.toNat) / 8000 ≠ 0 ∧
        cap.toNat ≤ tokens.toNat + (now.toNat - last.toNat) / 8000 * rate.toNat ∧
        refill tokens last now rate cap = ⟨cap, now, true⟩ ∧
        refillChecked tokens last now rate cap = some ⟨cap, now, true⟩) ∨
      ((now.toNat - last.toNat) / 8000 ≠ 0 ∧
        tokens.toNat + (now.toNat - last.toNat) / 8000 * rate.toNat < cap.toNat ∧
        ∃ credited stamp : U64,
          credited.toNat = tokens.toNat + (now.toNat - last.toNat) / 8000 * rate.toNat ∧
          stamp.toNat = last.toNat + (now.toNat - last.toNat) / 8000 * 8000 ∧
          refill tokens last now rate cap = ⟨credited, stamp, true⟩ ∧
          refillChecked tokens last now rate cap = some ⟨credited, stamp, true⟩) := by
  have nonzero : rate ≠ 0 := by
    rintro rfl
    exact absurd pos (Nat.lt_irrefl 0)
  rw [refill, refillChecked, if_neg nonzero, if_neg nonzero, ← toNat_quanta]
  generalize counted : saturatingSub now last / NS_PER_QUANTUM = q
  have value : q.toNat = (now.toNat - last.toNat) / 8000 := by
    rw [← counted, toNat_quanta]
  by_cases none : q = 0
  · left
    rw [none]
    exact ⟨rfl, rfl, rfl⟩
  · right
    have some : q.toNat ≠ 0 := fun zero => none (eq_of_toNat_eq zero)
    rw [if_neg none, if_neg none]
    by_cases beyond : cap / rate < q
    · left
      have exceeds := quanta_exceed pos beyond
      rw [if_pos beyond, if_pos beyond]
      exact ⟨some, by omega, rfl, rfl⟩
    · obtain ⟨product, bound⟩ := toNat_quanta_mul beyond
      have inRange : q.toNat * rate.toNat < 2 ^ 64 := Nat.lt_of_le_of_lt bound cap.isLt
      rw [if_neg beyond, if_neg beyond, checkedMul, if_pos inRange]
      by_cases above : cap ≤ tokens
      · left
        have reached := le_def.mp above
        rw [if_pos (Or.inl above)]
        refine ⟨some, by omega, rfl, ?_⟩
        exact if_pos above
      · have short : tokens.toNat < cap.toNat := lt_def.mp (BitVec.not_le.mp above)
        have room : (cap - tokens).toNat = cap.toNat - tokens.toNat :=
          toNat_sub_of_le (le_def.mpr (Nat.le_of_lt short))
        by_cases covered : cap - tokens ≤ q * rate
        · left
          have reached := le_def.mp covered
          rw [if_pos (Or.inr covered)]
          refine ⟨some, by omega, rfl, ?_⟩
          simp only [bind_eq_bind, bind_some, if_neg above, checkedSub,
            if_pos (Nat.le_of_lt short), if_pos covered]
        · right
          have below := lt_def.mp (BitVec.not_le.mp covered)
          have quanta : q.toNat * NS_PER_QUANTUM.toNat = q.toNat * 8000 := rfl
          have sum : tokens.toNat + (q * rate).toNat < 2 ^ 64 := by omega
          have span : q.toNat * NS_PER_QUANTUM.toNat < 2 ^ 64 := by omega
          have spanValue : (q * NS_PER_QUANTUM).toNat = q.toNat * 8000 := by
            rw [toNat_mul, Nat.mod_eq_of_lt span, quanta]
          have stamp : last.toNat + (q * NS_PER_QUANTUM).toNat < 2 ^ 64 := by omega
          rw [if_neg (not_or.mpr ⟨above, covered⟩)]
          refine ⟨some, by omega, tokens + q * rate, last + q * NS_PER_QUANTUM, ?_, ?_, rfl, ?_⟩
          · rw [toNat_add_of_lt sum, product]
          · rw [toNat_add_of_lt stamp, spanValue]
          · simp only [bind_eq_bind, bind_some, if_neg above, checkedSub, checkedAdd,
              checkedMul, if_pos (Nat.le_of_lt short), if_neg covered, if_pos sum, if_pos span,
              if_pos stamp]

theorem refillChecked_eq (tokens last now rate cap : U64) :
    refillChecked tokens last now rate cap = some (refill tokens last now rate cap) := by
  by_cases zero : rate = 0
  · rw [refillChecked, refill, if_pos zero, if_pos zero]
  · have pos : 0 < rate.toNat := Nat.pos_of_ne_zero (fun value => zero (eq_of_toNat_eq value))
    rcases refill_outcomes tokens last now cap pos with
      ⟨-, plain, checked⟩ | ⟨-, -, plain, checked⟩ | ⟨-, -, _, _, -, -, plain, checked⟩
    · rw [plain, checked]
    · rw [plain, checked]
    · rw [plain, checked]

namespace TokenBucket

variable {rate : U64} (cap : U64)

theorem refilled_exact (pos : 0 < rate.toNat) (b : TokenBucket) (now : U64) :
    (b.refilled rate cap now).exact = b.exact.refill 8000 rate.toNat cap.toNat now.toNat := by
  unfold refilled Bucket.refill exact
  rcases refill_outcomes b.tokens b.lastRefillNs now cap pos with
    ⟨none, plain, -⟩ | ⟨some, reached, plain, -⟩ | ⟨some, below, _, _, credited, stamp, plain, -⟩
  · rw [plain, if_pos none]
    rfl
  · rw [plain, if_neg some, if_pos reached]
    rfl
  · rw [plain, if_neg some, if_neg (Nat.not_le.mpr below), ← credited, ← stamp]
    rfl

theorem packet_exact (pos : 0 < rate.toNat) (b : TokenBucket) (now pktBytes : U64) :
    (b.packet rate cap now pktBytes).1 =
        (b.exact.take 8000 rate.toNat cap.toNat now.toNat pktBytes.toNat).1 ∧
      (b.packet rate cap now pktBytes).2.exact =
        (b.exact.take 8000 rate.toNat cap.toNat now.toNat pktBytes.toNat).2 := by
  unfold packet Bucket.take
  rw [← refilled_exact cap pos]
  by_cases short : (b.refilled rate cap now).tokens < pktBytes
  · have less : (b.refilled rate cap now).exact.tokens < pktBytes.toNat := lt_def.mp short
    rw [if_pos short, if_pos less]
    exact ⟨rfl, rfl⟩
  · have fits : pktBytes.toNat ≤ (b.refilled rate cap now).tokens.toNat :=
      le_def.mp (BitVec.not_lt.mp short)
    have enough : ¬ (b.refilled rate cap now).exact.tokens < pktBytes.toNat := Nat.not_lt.mpr fits
    rw [if_neg short, if_neg enough]
    refine ⟨rfl, ?_⟩
    unfold exact
    rw [toNat_sub_of_le (le_def.mpr fits)]

theorem packetChecked_eq (b : TokenBucket) (now pktBytes : U64) :
    b.packetChecked rate cap now pktBytes = some (b.packet rate cap now pktBytes) := by
  unfold packetChecked packet refilled
  rw [refillChecked_eq]
  dsimp only [bind_eq_bind, bind_some]
  generalize (if (refill b.tokens b.lastRefillNs now rate cap).refilled then
    (⟨(refill b.tokens b.lastRefillNs now rate cap).tokens,
      (refill b.tokens b.lastRefillNs now rate cap).lastRefillNs⟩ : TokenBucket) else b) = stored
  by_cases short : stored.tokens < pktBytes
  · rw [if_pos short, if_pos short]
  · have fits := le_def.mp (BitVec.not_lt.mp short)
    rw [if_neg short, if_neg short, checkedSub, if_pos fits]
    rfl

def requests (packets : List (U64 × U64)) : List (Nat × Nat) :=
  packets.map (fun packet => (packet.1.toNat, packet.2.toNat))

theorem after_exact (pos : 0 < rate.toNat) (b : TokenBucket) (packets : List (U64 × U64)) :
    (b.after rate cap packets).exact =
      b.exact.after 8000 rate.toNat cap.toNat (requests packets) := by
  induction packets generalizing b with
  | nil => rfl
  | cons packet rest ih =>
    obtain ⟨-, bucket⟩ := packet_exact cap pos b packet.1 packet.2
    rw [after, ih, bucket]
    rfl

theorem admitted_exact (pos : 0 < rate.toNat) (b : TokenBucket) (packets : List (U64 × U64)) :
    b.admitted rate cap packets = b.exact.given 8000 rate.toNat cap.toNat (requests packets) := by
  induction packets generalizing b with
  | nil => rfl
  | cons packet rest ih =>
    obtain ⟨fits, bucket⟩ := packet_exact cap pos b packet.1 packet.2
    unfold admitted
    dsimp only
    rw [ih, bucket, fits]
    rfl

/-- Times in order, none before `start`. -/
def Ordered (start : U64) : List (U64 × U64) → Prop
  | [] => True
  | (now, _) :: rest => start ≤ now ∧ Ordered now rest

variable {start : U64} {first packets second : List (U64 × U64)}

theorem Ordered.requests (ordered : Ordered start packets) :
    Bucket.Ordered start.toNat (requests packets) := by
  induction packets generalizing start with
  | nil => trivial
  | cons packet rest ih => exact ⟨le_def.mp ordered.1, ih ordered.2⟩

theorem exact_injective {b b' : TokenBucket} (same : b.exact = b'.exact) : b = b' := by
  obtain ⟨tokens, last⟩ := b
  obtain ⟨sameTokens, sameLast⟩ := Bucket.mk.inj same
  cases eq_of_toNat_eq sameTokens
  cases eq_of_toNat_eq sameLast
  rfl

theorem Ordered.le_getLast (ordered : Ordered start packets) (some : packets ≠ []) :
    ∀ packet ∈ packets, packet.1 ≤ (packets.getLast some).1 := by
  induction packets generalizing start with
  | nil => exact absurd rfl some
  | cons first rest ih =>
    intro packet mem
    cases rest with
    | nil =>
      rw [mem_singleton.mp mem]
      exact BitVec.le_refl _
    | cons second rest =>
      have later := ih ordered.2 (cons_ne_nil second rest)
      rcases mem_cons.mp mem with rfl | deeper
      · exact BitVec.le_trans ordered.2.1 (later second mem_cons_self)
      · exact later packet deeper

theorem Ordered.append_right (ordered : Ordered start (first ++ second)) :
    ∃ start', Ordered start' second := by
  induction first generalizing start with
  | nil => exact ⟨start, ordered⟩
  | cons packet rest ih => exact ih ordered.2

theorem Ordered.append_left (ordered : Ordered start (first ++ second)) : Ordered start first := by
  induction first generalizing start with
  | nil => trivial
  | cons packet rest ih => exact ⟨ordered.1, ih ordered.2⟩

theorem requests_append (first second : List (U64 × U64)) :
    requests (first ++ second) = requests first ++ requests second := map_append

section Bound

variable {cap} {b : TokenBucket}

variable (pos : 0 < rate.toNat)
include pos

theorem after_tokens_le (fits : b.tokens ≤ cap) (packets : List (U64 × U64)) :
    (b.after rate cap packets).tokens ≤ cap := by
  have exactly : (b.exact.after 8000 rate.toNat cap.toNat (requests packets)).tokens ≤ cap.toNat :=
    Bucket.after_tokens_le (le_def.mp fits) _
  rw [← after_exact cap pos] at exactly
  exact le_def.mpr exactly

theorem window_bound (fits : b.tokens ≤ cap) {before window : List (U64 × U64)}
    (ordered : Ordered b.lastRefillNs (before ++ window)) (some : window ≠ []) :
    8000 * (b.after rate cap before).admitted rate cap window ≤ 8000 * cap.toNat + rate.toNat *
        ((window.getLast some).1.toNat - (b.after rate cap before).lastRefillNs.toNat) := by
  have start := after_exact cap pos b before
  have times : Bucket.Ordered (b.after rate cap before).exact.last (requests window) := by
    rw [start]
    apply after_ordered
    rw [← requests_append]
    exact ordered.requests
  have later : ∀ request ∈ requests window, request.1 ≤ (window.getLast some).1.toNat := by
    intro request mem
    obtain ⟨packet, inside, rfl⟩ := List.mem_map.mp mem
    obtain ⟨start', ordered'⟩ := ordered.append_right
    exact le_def.mp (ordered'.le_getLast some packet inside)
  have credit : 8000 * (b.after rate cap before).exact.given 8000 rate.toNat cap.toNat
        (requests window) ≤
      (b.after rate cap before).exact.credit 8000 rate.toNat (window.getLast some).1.toNat :=
    Nat.le_trans (Nat.le_add_right _ _) (given_credit_le times later)
  rw [← admitted_exact cap pos] at credit
  have full := le_def.mp (after_tokens_le pos fits before)
  have scaled := Nat.mul_le_mul_left 8000 full
  exact Nat.le_trans credit (Nat.add_le_add_right scaled _)

theorem foldl_exact (instants : List U64) (b : TokenBucket) :
    (instants.foldl (refilled rate cap) b).exact =
      (instants.map BitVec.toNat).foldl (Bucket.refill 8000 rate.toNat cap.toNat) b.exact := by
  induction instants generalizing b with
  | nil => rfl
  | cons now rest ih => rw [foldl_cons, ih, refilled_exact cap pos, map_cons, foldl_cons]

theorem extra_refills (fits : b.tokens ≤ cap) {instants : List U64}
    {later : U64} (before : ∀ now ∈ instants, now ≤ later) :
    ((instants.foldl (refilled rate cap) b).refilled rate cap later).tokens =
        (b.refilled rate cap later).tokens ∧ ((b.refilled rate cap later).tokens < cap →
        (instants.foldl (refilled rate cap) b).refilled rate cap later =
          b.refilled rate cap later) := by
  have early : ∀ now ∈ instants.map BitVec.toNat, now ≤ later.toNat := by
    intro now mem
    obtain ⟨instant, inside, rfl⟩ := List.mem_map.mp mem
    exact le_def.mp (before instant inside)
  have direct := refilled_exact cap pos b later
  have extra : ((instants.foldl (refilled rate cap) b).refilled rate cap later).exact =
      ((instants.map BitVec.toNat).foldl (Bucket.refill 8000 rate.toNat cap.toNat)
        b.exact).refill 8000 rate.toNat cap.toNat later.toNat := by
    rw [refilled_exact cap pos, foldl_exact pos]
  constructor
  · have room : b.exact.tokens ≤ cap.toNat := le_def.mp fits
    apply eq_of_toNat_eq
    have same : ((instants.foldl (refilled rate cap) b).refilled rate cap later).exact.tokens =
        (b.refilled rate cap later).exact.tokens := by
      rw [extra, direct]
      exact refill_foldl_tokens room _ early
    exact same
  · intro below
    have short : (b.exact.refill 8000 rate.toNat cap.toNat later.toNat).tokens < cap.toNat := by
      rw [← direct]
      exact lt_def.mp below
    apply exact_injective
    rw [extra, direct]
    exact refill_foldl _ early short

end Bound

/-- The token bucket stays within its capacity and its range, admits at most its capacity plus
what the elapsed time earns in every window, and does not notice extra refills. -/
theorem token_bucket_rate_bound {rate cap : U64} (positive : 1 ≤ rate) {b : TokenBucket}
    (fits : b.tokens ≤ cap) {packets : List (U64 × U64)}
    (ordered : Ordered b.lastRefillNs packets) :
    (∀ before, before <+: packets → (b.after rate cap before).tokens ≤ cap) ∧
    (∀ before now pktBytes, before ++ [(now, pktBytes)] <+: packets →
      (b.after rate cap before).packetChecked rate cap now pktBytes =
        some ((b.after rate cap before).packet rate cap now pktBytes)) ∧
    (∀ before window, before ++ window <+: packets → ∀ some : window ≠ [],
      8000 * (b.after rate cap before).admitted rate cap window ≤ 8000 * cap.toNat + rate.toNat *
          ((window.getLast some).1.toNat - (b.after rate cap before).lastRefillNs.toNat)) ∧
    (∀ before, before <+: packets → ∀ (instants : List U64) (later : U64),
      (∀ now ∈ instants, now ≤ later) →
        let bucket := b.after rate cap before
        let extra := instants.foldl (refilled rate cap) bucket
        (extra.refilled rate cap later).tokens = (bucket.refilled rate cap later).tokens ∧
          ((bucket.refilled rate cap later).tokens < cap →
            extra.refilled rate cap later = bucket.refilled rate cap later)) := by
  have earns : 0 < rate.toNat := le_def.mp positive
  refine ⟨?_, ?_, ?_, ?_⟩
  · intro before _
    exact after_tokens_le earns fits before
  · intro before now pktBytes _
    exact packetChecked_eq cap (b.after rate cap before) now pktBytes
  · intro before window inside some
    obtain ⟨rest, rfl⟩ := inside
    exact window_bound earns fits ordered.append_left some
  · intro before _ instants later early
    exact extra_refills earns (after_tokens_le earns fits before) early

/-- A burst, a drop and a later packet that the earned tokens admit. -/
theorem token_bucket_rate_bound_burst :
    (1 : U64) ≤ 100 ∧ Ordered 0 [(0, 1500), (8000, 12000), (20000, 150)] ∧
    8000 * ((⟨1500, 0⟩ : TokenBucket).after 100 12500 [(0, 1500)]).admitted 100 12500
        [(8000, 12000), (20000, 150)] ≤ 8000 * 12500 + 100 * 20000 := by
  have ordered : Ordered 0 [(0, 1500), (8000, 12000), (20000, 150)] :=
    ⟨by decide, by decide, by decide, trivial⟩
  refine ⟨by decide, ordered, ?_⟩
  obtain ⟨-, -, window, -⟩ := @token_bucket_rate_bound 100 12500 (by decide) ⟨1500, 0⟩
    (by decide) _ ordered
  exact window [(0, 1500)] [(8000, 12000), (20000, 150)] (prefix_refl _) (cons_ne_nil _ _)

end TokenBucket

end Unheaded.Qos
