import Mathlib.Tactic.Ring

/-!
# Token buckets in exact arithmetic

A bucket earns `rate` tokens in every whole `quantum` of time, up to `cap`.
-/

namespace Unheaded.Lib

open List

/-- Tokens and the instant up to which time has been paid for. -/
structure Bucket where
  tokens : Nat
  last : Nat
  deriving DecidableEq

namespace Bucket

variable (quantum rate cap : Nat)

variable (b : Bucket)

/-- The refill at instant `now`. -/
def refill (now : Nat) : Bucket :=
  if (now - b.last) / quantum = 0 then b
  else if cap ≤ b.tokens + (now - b.last) / quantum * rate then ⟨cap, now⟩
  else ⟨b.tokens + (now - b.last) / quantum * rate, b.last + (now - b.last) / quantum * quantum⟩

/-- What the bucket is worth at instant `now`, in `quantum`-ths of a token. -/
def credit (now : Nat) : Nat := quantum * b.tokens + rate * (now - b.last)

/-- A request of `cost` tokens at instant `now`: whether it fits, and the bucket after it. -/
def take (now cost : Nat) : Bool × Bucket :=
  let b := b.refill quantum rate cap now
  if b.tokens < cost then (false, b) else (true, { b with tokens := b.tokens - cost })

/-- The bucket after a list of requests `(now, cost)`. -/
def after : Bucket → List (Nat × Nat) → Bucket
  | b, [] => b
  | b, (now, cost) :: rest => after (b.take quantum rate cap now cost).2 rest

def given : Bucket → List (Nat × Nat) → Nat
  | _, [] => 0
  | b, (now, cost) :: rest =>
    let r := b.take quantum rate cap now cost
    (if r.1 then cost else 0) + given r.2 rest

theorem refill_cases (now : Nat) :
    ((now - b.last) / quantum = 0 ∧ b.refill quantum rate cap now = b) ∨
      (cap ≤ b.tokens + (now - b.last) / quantum * rate ∧
        b.refill quantum rate cap now = ⟨cap, now⟩) ∨
      (b.tokens + (now - b.last) / quantum * rate < cap ∧
        b.refill quantum rate cap now = ⟨b.tokens + (now - b.last) / quantum * rate,
          b.last + (now - b.last) / quantum * quantum⟩) := by
  unfold refill
  by_cases none : (now - b.last) / quantum = 0
  · left
    exact ⟨none, if_pos none⟩
  · right
    rw [if_neg none]
    by_cases full : cap ≤ b.tokens + (now - b.last) / quantum * rate
    · left
      exact ⟨full, if_pos full⟩
    · right
      exact ⟨Nat.lt_of_not_le full, if_neg full⟩

variable {quantum rate cap}

variable {b : Bucket}

theorem refill_tokens_le (fits : b.tokens ≤ cap) (now : Nat) :
    (b.refill quantum rate cap now).tokens ≤ cap := by
  rcases b.refill_cases quantum rate cap now with
    ⟨-, same⟩ | ⟨-, full⟩ | ⟨below, some⟩
  · rw [same]
    exact fits
  · rw [full]
  · rw [some]
    exact Nat.le_of_lt below

variable {later now : Nat}

theorem paid_le (quantum : Nat) (b : Bucket) (order : b.last ≤ now) :
    b.last + (now - b.last) / quantum * quantum ≤ now := by
  have paid := Nat.div_mul_le_self (now - b.last) quantum
  omega

theorem refill_last_le (order : b.last ≤ now) : (b.refill quantum rate cap now).last ≤ now := by
  rcases b.refill_cases quantum rate cap now with
    ⟨-, same⟩ | ⟨-, full⟩ | ⟨-, some⟩
  · rw [same]
    exact order
  · rw [full]
  · rw [some]
    exact b.paid_le quantum order

theorem refill_credit_le (order : b.last ≤ now) (after : now ≤ later) :
    (b.refill quantum rate cap now).credit quantum rate later ≤ b.credit quantum rate later := by
  have paid := b.paid_le quantum order
  unfold credit
  rcases b.refill_cases quantum rate cap now with ⟨-, same⟩ | ⟨reached, full⟩ | ⟨-, some⟩
  · rw [same]
  · rw [full]
    have worth : quantum * cap ≤
        quantum * b.tokens + rate * ((now - b.last) / quantum * quantum) := by
      have scaled := Nat.mul_le_mul_left quantum reached
      calc quantum * cap ≤ quantum * (b.tokens + (now - b.last) / quantum * rate) := scaled
        _ = quantum * b.tokens + rate * ((now - b.last) / quantum * quantum) := by ring
    have split : later - b.last = (now - b.last) + (later - now) := by omega
    have whole := Nat.mul_le_mul_left rate (Nat.div_mul_le_self (now - b.last) quantum)
    rw [split, Nat.mul_add]
    dsimp only
    omega
  · rw [some]
    have split : later - b.last =
        (now - b.last) / quantum * quantum + (later - (b.last + (now - b.last) / quantum * quantum)) := by
      omega
    rw [split, Nat.mul_add, Nat.mul_add]
    have same : quantum * ((now - b.last) / quantum * rate) =
        rate * ((now - b.last) / quantum * quantum) := by ring
    dsimp only
    omega

theorem quanta_after (quantum last now n : Nat) :
    (now - (last + n * quantum)) / quantum = (now - last) / quantum - n := by
  rw [← Nat.sub_sub, Nat.mul_comm n quantum, Nat.sub_mul_div]

theorem refill_refill (after : now ≤ later) (below : (b.refill quantum rate cap later).tokens < cap) :
    (b.refill quantum rate cap now).refill quantum rate cap later =
      b.refill quantum rate cap later := by
  have fewer : (now - b.last) / quantum ≤ (later - b.last) / quantum :=
    Nat.div_le_div_right (Nat.sub_le_sub_right after b.last)
  have earns := Nat.mul_le_mul_right rate fewer
  rcases b.refill_cases quantum rate cap now with ⟨-, same⟩ | ⟨reached, -⟩ | ⟨-, some⟩
  · rw [same]
  · rcases b.refill_cases quantum rate cap later with ⟨none, same⟩ | ⟨-, full⟩ | ⟨short, -⟩
    · rw [none] at fewer earns
      rw [same] at below
      omega
    · rw [full] at below
      exact absurd below (Nat.lt_irrefl cap)
    · omega
  · rw [some]
    have rest := quanta_after quantum b.last later ((now - b.last) / quantum)
    rcases b.refill_cases quantum rate cap later with ⟨none, same⟩ | ⟨-, full⟩ | ⟨short, whole⟩
    · have first : (now - b.last) / quantum = 0 := Nat.le_zero.mp (none ▸ fewer)
      rw [first, Nat.zero_mul, Nat.zero_mul]
      rfl
    · rw [full] at below
      exact absurd below (Nat.lt_irrefl cap)
    · rw [whole]
      have tokens : b.tokens + (now - b.last) / quantum * rate +
          ((later - b.last) / quantum - (now - b.last) / quantum) * rate =
            b.tokens + (later - b.last) / quantum * rate := by
        rw [Nat.sub_mul]
        omega
      have stamp : b.last + (now - b.last) / quantum * quantum +
          ((later - b.last) / quantum - (now - b.last) / quantum) * quantum =
            b.last + (later - b.last) / quantum * quantum := by
        have covers := Nat.mul_le_mul_right quantum fewer
        rw [Nat.sub_mul]
        omega
      rw [refill, rest, tokens, stamp, if_neg (Nat.not_le.mpr short)]
      split
      · next none =>
          have every : (later - b.last) / quantum = (now - b.last) / quantum := by omega
          rw [every]
      · rfl

theorem refill_full (last now : Nat) :
    ((⟨cap, last⟩ : Bucket).refill quantum rate cap now).tokens = cap := by
  rcases refill_cases quantum rate cap ⟨cap, last⟩ now with ⟨-, same⟩ | ⟨-, full⟩ | ⟨below, -⟩
  · rw [same]
  · rw [full]
  · have grown : cap ≤ cap + (now - last) / quantum * rate := Nat.le_add_right _ _
    exact absurd below (Nat.not_lt.mpr grown)

theorem refill_refill_tokens (fits : b.tokens ≤ cap) (after : now ≤ later) :
    ((b.refill quantum rate cap now).refill quantum rate cap later).tokens =
      (b.refill quantum rate cap later).tokens := by
  by_cases below : (b.refill quantum rate cap later).tokens < cap
  · rw [refill_refill after below]
  · have full : (b.refill quantum rate cap later).tokens = cap :=
      Nat.le_antisymm (refill_tokens_le fits later) (Nat.le_of_not_lt below)
    rw [full]
    rcases b.refill_cases quantum rate cap now with ⟨-, same⟩ | ⟨-, filled⟩ | ⟨short, some⟩
    · rw [same, full]
    · rw [filled]
      exact refill_full now later
    · -- The quanta still unpaid bring the tokens to what the one refill reaches.
      rw [some]
      have reached : cap ≤ b.tokens + (later - b.last) / quantum * rate := by
        rcases b.refill_cases quantum rate cap later with ⟨-, same⟩ | ⟨reached, -⟩ | ⟨-, credited⟩
        · rw [same] at full
          omega
        · exact reached
        · rw [credited] at full
          exact Nat.le_of_eq full.symm
      have total : b.tokens + (now - b.last) / quantum * rate +
          ((later - b.last) / quantum - (now - b.last) / quantum) * rate =
            b.tokens + (later - b.last) / quantum * rate := by
        rw [Nat.sub_mul]
        omega
      rw [refill, quanta_after, total]
      split
      · next none =>
          rw [none] at total
          omega
      · rfl

theorem refill_foldl (instants : List Nat) (before : ∀ now ∈ instants, now ≤ later)
    (below : (b.refill quantum rate cap later).tokens < cap) :
    (instants.foldl (refill quantum rate cap) b).refill quantum rate cap later =
      b.refill quantum rate cap later := by
  induction instants generalizing b with
  | nil => rfl
  | cons now rest ih =>
    have first := refill_refill (before now mem_cons_self) below
    rw [foldl_cons, ih, first]
    · intro instant mem
      exact before instant (mem_cons_of_mem now mem)
    · rw [first]
      exact below

theorem refill_foldl_tokens (fits : b.tokens ≤ cap) (instants : List Nat)
    (before : ∀ now ∈ instants, now ≤ later) :
    ((instants.foldl (refill quantum rate cap) b).refill quantum rate cap later).tokens =
      (b.refill quantum rate cap later).tokens := by
  induction instants generalizing b with
  | nil => rfl
  | cons now rest ih =>
    rw [foldl_cons, ih (refill_tokens_le fits now)]
    · exact refill_refill_tokens fits (before now mem_cons_self)
    · intro instant mem
      exact before instant (mem_cons_of_mem now mem)

theorem take_cases (b : Bucket) (now cost : Nat) :
    (b.take quantum rate cap now cost = (false, b.refill quantum rate cap now)) ∨
      (cost ≤ (b.refill quantum rate cap now).tokens ∧
        b.take quantum rate cap now cost = (true, { b.refill quantum rate cap now with
          tokens := (b.refill quantum rate cap now).tokens - cost })) := by
  by_cases short : (b.refill quantum rate cap now).tokens < cost
  · left
    exact if_pos short
  · right
    exact ⟨Nat.le_of_not_lt short, if_neg short⟩

theorem take_tokens_le (fits : b.tokens ≤ cap) (now cost : Nat) :
    (b.take quantum rate cap now cost).2.tokens ≤ cap := by
  have refilled : (b.refill quantum rate cap now).tokens ≤ cap := refill_tokens_le fits now
  rcases b.take_cases now cost with dropped | ⟨-, passed⟩
  · rw [dropped]
    exact refilled
  · rw [passed]
    exact Nat.le_trans (Nat.sub_le _ cost) refilled

theorem take_last_le (order : b.last ≤ now) (cost : Nat) :
    (b.take quantum rate cap now cost).2.last ≤ now := by
  have refilled : (b.refill quantum rate cap now).last ≤ now := refill_last_le order
  rcases b.take_cases now cost with dropped | ⟨-, passed⟩
  · rw [dropped]
    exact refilled
  · rw [passed]
    exact refilled

/-- The instants of a list of requests are in order and not before `start`. -/
def Ordered (start : Nat) : List (Nat × Nat) → Prop
  | [] => True
  | (now, _) :: rest => start ≤ now ∧ Ordered now rest

variable {requests : List (Nat × Nat)}

theorem Ordered.mono {start start' : Nat} (earlier : start' ≤ start)
    (ordered : Ordered start requests) : Ordered start' requests := by
  cases requests with
  | nil => exact ordered
  | cons request rest => exact ⟨Nat.le_trans earlier ordered.1, ordered.2⟩

theorem after_tokens_le (fits : b.tokens ≤ cap) (requests : List (Nat × Nat)) :
    (b.after quantum rate cap requests).tokens ≤ cap := by
  induction requests generalizing b with
  | nil => exact fits
  | cons request rest ih => exact ih (take_tokens_le fits request.1 request.2)

theorem after_ordered {first second : List (Nat × Nat)} (ordered : Ordered b.last (first ++ second)) :
    Ordered (b.after quantum rate cap first).last second := by
  induction first generalizing b with
  | nil => exact ordered
  | cons request rest ih =>
    apply ih
    exact ordered.2.mono (take_last_le ordered.1 request.2)

theorem given_credit_le (ordered : Ordered b.last requests)
    (horizon : ∀ request ∈ requests, request.1 ≤ later) :
    quantum * b.given quantum rate cap requests +
        (b.after quantum rate cap requests).credit quantum rate later ≤
      b.credit quantum rate later := by
  induction requests generalizing b with
  | nil => exact Nat.le_of_eq (Nat.zero_add _)
  | cons request rest ih =>
    obtain ⟨now, cost⟩ := request
    have soon : now ≤ later := horizon (now, cost) mem_cons_self
    have paid : (b.refill quantum rate cap now).credit quantum rate later ≤
        b.credit quantum rate later := refill_credit_le ordered.1 soon
    have stamped : (b.take quantum rate cap now cost).2.last ≤ now := take_last_le ordered.1 cost
    have next := ih (ordered.2.mono stamped)
      (fun request mem => horizon request (mem_cons_of_mem _ mem))
    unfold given after
    rcases b.take_cases now cost with dropped | ⟨fits, passed⟩
    · rw [dropped] at next ⊢
      simp only [Bool.false_eq_true, if_false, Nat.zero_add]
      exact Nat.le_trans next paid
    · rw [passed] at next ⊢
      simp only [if_true, Nat.mul_add]
      have spent := Nat.mul_le_mul_left quantum fits
      simp only [credit, Nat.mul_sub] at next paid ⊢
      omega

end Bucket

end Unheaded.Lib
