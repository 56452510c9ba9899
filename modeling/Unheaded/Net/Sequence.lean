import Mathlib.Tactic.Ring
import Unheaded.Lib.SlidingWindow

/-!
# Replay protection

`SeqTracker` of `pkg/monad`: one bit for each of the last 16384 sequence numbers of a flow, in a
circle.
-/

namespace Unheaded.Net

open Lib BitVec Function SlidingWindow

def SeqWindowSize : Nat := 16384

def seqBitmapBytes : Nat := SeqWindowSize / 8

variable (seqNum : BitVec 16)

def seqIdx : Nat := seqNum.toNat % SeqWindowSize

theorem seqIdx_lt : seqIdx seqNum < SeqWindowSize := Nat.mod_lt _ (by decide)

def seqByteIdx : Fin seqBitmapBytes :=
  ⟨seqIdx seqNum / 8, Nat.div_lt_div_of_lt_of_dvd (by decide) (seqIdx_lt seqNum)⟩

structure SeqTracker where
  maxSeq : BitVec 16
  bitmap : Fin seqBitmapBytes → BitVec 8

namespace SeqTracker

/-- `NewSeqTracker`. -/
def new : SeqTracker := ⟨0, fun _ => 0⟩

variable (t : SeqTracker)

def setBit (seqNum : BitVec 16) : SeqTracker := { t with
    bitmap := update t.bitmap (seqByteIdx seqNum)
      (t.bitmap (seqByteIdx seqNum) ||| 1#8 <<< (seqIdx seqNum % 8)) }

def getBit (seqNum : BitVec 16) : Bool :=
  t.bitmap (seqByteIdx seqNum) &&& 1#8 <<< (seqIdx seqNum % 8) ≠ 0

def clearBit (seqNum : BitVec 16) : SeqTracker := { t with
    bitmap := update t.bitmap (seqByteIdx seqNum)
      (t.bitmap (seqByteIdx seqNum) &&& ~~~(1#8 <<< (seqIdx seqNum % 8))) }

/-- The loop of `advanceWindow`, `i` from 1 up to `distance`. -/
def clearAhead (t : SeqTracker) : Nat → SeqTracker
  | 0 => t
  | i + 1 => (t.clearAhead i).clearBit (t.maxSeq + BitVec.ofNat 16 (i + 1))

def advanceWindow (distance : BitVec 16) : SeqTracker :=
  if SeqWindowSize ≤ distance.toNat then { t with bitmap := fun _ => 0 }
  else t.clearAhead distance.toNat

/-- `Check`: whether the number is accepted, and the tracker after it. -/
def check (seqNum : BitVec 16) : Bool × SeqTracker :=
  if t.maxSeq = 0 ∧ t.getBit 0 = false then
    (true, { t with maxSeq := seqNum }.setBit seqNum)
  else if seqNum = t.maxSeq then (false, t)
  else
    let diff := seqNum - t.maxSeq
    if 0 < diff.toNat ∧ diff.toNat ≤ 32767 then
      let slid :=
        if SeqWindowSize ≤ diff.toNat then { t with bitmap := fun _ => 0 }
        else t.advanceWindow diff
      (true, { slid with maxSeq := seqNum }.setBit seqNum)
    else
      let back := t.maxSeq - seqNum
      if SeqWindowSize ≤ back.toNat then (false, t)
      else if t.getBit seqNum then (false, t)
      else (true, t.setBit seqNum)

/-- The verdicts on a sequence of numbers, and the tracker after them. -/
def checkAll (t : SeqTracker) : List (BitVec 16) → List Bool × SeqTracker
  | [] => ([], t)
  | seqNum :: rest =>
    let first := t.check seqNum
    let others := first.2.checkAll rest
    (first.1 :: others.1, others.2)

def byteOfPlace (i : Fin SeqWindowSize) : Fin seqBitmapBytes :=
  ⟨i / 8, Nat.div_lt_div_of_lt_of_dvd (by decide) i.isLt⟩

def bit (i : Fin SeqWindowSize) : Bool :=
  (t.bitmap (byteOfPlace i)).getLsbD (i % 8)

def place (n : ℤ) : Fin SeqWindowSize := ⟨(n % 16384).toNat, by unfold SeqWindowSize; omega⟩

theorem place_inj {m n : ℤ} (near : m - n < 16384) (near' : n - m < 16384) :
    place m = place n ↔ m = n := by
  rw [place, place, Fin.mk.injEq]
  omega

theorem seqIdx_eq {seqNum : BitVec 16} {n : ℤ} (same : (seqNum.toNat : ℤ) = n % 65536) :
    seqIdx seqNum = (place n).val := by
  change seqNum.toNat % 16384 = (n % 16384).toNat
  omega

theorem getLsbD_of_and (x : BitVec 8) (k : Nat) : decide (x &&& 1#8 <<< k ≠ 0) = x.getLsbD k := by
  rw [← twoPow_eq, and_twoPow]
  cases found : x.getLsbD k with
  | false => simp
  | true =>
    have inside : k < 8 := lt_of_getLsbD found
    have : (BitVec.twoPow 8 k).getLsbD k = true := by
      simp [inside]
    have nonzero : BitVec.twoPow 8 k ≠ 0 := by
      intro zero
      rw [zero] at this
      simp at this
    simpa using nonzero

theorem getLsbD_mask {i p : Fin SeqWindowSize} (byte : byteOfPlace i = byteOfPlace p) :
    (1#8 <<< (p.val % 8)).getLsbD (i % 8) = decide (i = p) := by
  have quotient : i.val / 8 = p.val / 8 := congrArg Fin.val byte
  have inside : p.val % 8 < 8 := Nat.mod_lt _ (by decide)
  rw [← twoPow_eq, getLsbD_twoPow, decide_eq_true inside, Bool.true_and, decide_eq_decide]
  omega

section Bits

variable {t : SeqTracker} {seqNum : BitVec 16} {n : ℤ} (same : (seqNum.toNat : ℤ) = n % 65536)
include same

theorem seqByteIdx_eq : seqByteIdx seqNum = byteOfPlace (place n) :=
  Fin.ext (congrArg (· / 8) (seqIdx_eq same))

theorem getBit_eq : t.getBit seqNum = t.bit (place n) := by
  rw [getBit, getLsbD_of_and, seqByteIdx_eq same, seqIdx_eq same, bit]

theorem bit_update (value : BitVec 8) (i : Fin SeqWindowSize) :
    bit { t with bitmap := update t.bitmap (seqByteIdx seqNum) value } i =
      if byteOfPlace i = byteOfPlace (place n) then value.getLsbD (i % 8) else t.bit i := by
  rw [seqByteIdx_eq same]
  change (update t.bitmap (byteOfPlace (place n)) value (byteOfPlace i)).getLsbD _ = _
  rw [update_apply]
  split <;> rfl

theorem bit_setBit (i : Fin SeqWindowSize) :
    (t.setBit seqNum).bit i = (decide (i = place n) || t.bit i) := by
  rw [setBit, bit_update same]
  split
  case isTrue byte =>
    rw [getLsbD_or, seqIdx_eq same, getLsbD_mask byte, Bool.or_comm,
      seqByteIdx_eq same, ← byte, bit]
  case isFalse other =>
    have apart : i ≠ place n := fun h => other (congrArg byteOfPlace h)
    rw [decide_eq_false apart, Bool.false_or]

theorem bit_clearBit (i : Fin SeqWindowSize) :
    (t.clearBit seqNum).bit i = (!decide (i = place n) && t.bit i) := by
  rw [clearBit, bit_update same]
  split
  case isTrue byte =>
    have inside : i.val % 8 < 8 := Nat.mod_lt _ (by decide)
    rw [getLsbD_and, getLsbD_not, seqIdx_eq same, getLsbD_mask byte,
      Bool.and_comm, decide_eq_true inside, Bool.true_and, seqByteIdx_eq same, ← byte, bit]
  case isFalse other =>
    have apart : i ≠ place n := fun h => other (congrArg byteOfPlace h)
    rw [decide_eq_false apart, Bool.not_false, Bool.true_and]

end Bits

theorem bit_new (i : Fin SeqWindowSize) (top : BitVec 16) : bit ⟨top, fun _ => 0⟩ i = false :=
  getLsbD_zero

variable {t : SeqTracker} {largest m n : ℤ}

theorem bit_clearAhead (top : (t.maxSeq.toNat : ℤ) = largest % 65536) (distance : Nat)
    (i : Fin SeqWindowSize) : (t.clearAhead distance).bit i = true ↔
      t.bit i = true ∧ ∀ k : Nat, 0 < k → k ≤ distance → i ≠ place (largest + k) := by
  induction distance with
  | zero =>
    refine ⟨fun set => ⟨set, fun k above below => absurd above (by omega)⟩, And.left⟩
  | succ j ih =>
    have same : ((t.maxSeq + BitVec.ofNat 16 (j + 1)).toNat : ℤ) =
        (largest + (j + 1 : Nat)) % 65536 := by
      rw [toNat_add, toNat_ofNat]
      omega
    rw [clearAhead, bit_clearBit same, Bool.and_eq_true, ih, Bool.not_eq_true',
      decide_eq_false_iff_not]
    constructor
    · rintro ⟨last, set, before⟩
      refine ⟨set, fun k above below => ?_⟩
      rcases Nat.lt_or_eq_of_le below with early | rfl
      · exact before k above (by omega)
      · exact last
    · rintro ⟨set, all⟩
      exact ⟨all (j + 1) (by omega) (by omega), set, fun k above below => all k above (by omega)⟩

/-- A tracker that has accepted the integers of a list: it is new, or it knows the
largest of them and which of the last ones are among them. -/
inductive Tracks : SeqTracker → List ℤ → Prop
  | fresh : Tracks new []
  | sliding {t : SeqTracker} {taken : List ℤ} {largest : ℤ} (top : taken.max? = some largest)
      (maxSeq : (t.maxSeq.toNat : ℤ) = largest % 65536)
      (bits : ∀ n, largest - 16384 < n → n ≤ largest → (t.bit (place n) = true ↔ n ∈ taken)) :
      Tracks t taken

variable {a b : BitVec 16}

theorem toNat_sub_eq (left : (a.toNat : ℤ) = m % 65536) (right : (b.toNat : ℤ) = n % 65536)
    (lower : n ≤ m) (upper : m - n < 65536) : ((a - b).toNat : ℤ) = m - n := by
  rw [toNat_sub]
  omega

theorem eq_iff_of_near (left : (a.toNat : ℤ) = m % 65536) (right : (b.toNat : ℤ) = n % 65536)
    (near : m - n < 65536) (near' : n - m < 65536) : a = b ↔ m = n := by
  rw [← toNat_inj]
  omega

variable {taken : List ℤ}

theorem Tracks.accept {seqNum : BitVec 16} (top : (n :: taken).max? = some largest)
    (same : (seqNum.toNat : ℤ) = n % 65536) (maxSeq : (t.maxSeq.toNat : ℤ) = largest % 65536)
    (near : largest - 16384 < n) (below : n ≤ largest)
    (bits : ∀ k, largest - 16384 < k → k ≤ largest → k ≠ n → (t.bit (place k) = true ↔ k ∈ taken)) :
    Tracks (t.setBit seqNum) (n :: taken) := by
  refine .sliding top maxSeq fun k lower upper => ?_
  rw [bit_setBit same, Bool.or_eq_true, decide_eq_true_eq,
    place_inj (by omega) (by omega), List.mem_cons]
  constructor
  · rintro (rfl | set)
    · exact .inl rfl
    · by_cases here : k = n
      · exact .inl here
      · exact .inr ((bits k lower upper here).mp set)
  · rintro (rfl | mem)
    · exact .inl rfl
    · by_cases here : k = n
      · exact .inl here
      · exact .inr ((bits k lower upper here).mpr mem)

theorem max?_cons_of_max (top : taken.max? = some largest) :
    (n :: taken).max? = some (max n largest) := by
  rw [List.max?_cons, top, Option.elim_some]

theorem check_new (seqNum : BitVec 16) :
    new.check seqNum = (true, SeqTracker.setBit ⟨seqNum, fun _ => 0⟩ seqNum) := by
  have unset : new.getBit 0 = false := by
    rw [getBit_eq (n := 0) rfl]
    exact bit_new _ 0
  rw [check, if_pos ⟨rfl, unset⟩, new]

section Sliding

variable {t : SeqTracker} {taken : List ℤ} {largest n : ℤ} {seqNum : BitVec 16}
  (top : taken.max? = some largest) (maxSeq : (t.maxSeq.toNat : ℤ) = largest % 65536)
  (bits : ∀ n, largest - 16384 < n → n ≤ largest → (t.bit (place n) = true ↔ n ∈ taken))
  (same : (seqNum.toNat : ℤ) = n % 65536)
include top maxSeq bits

theorem not_empty : ¬ (t.maxSeq = 0 ∧ t.getBit 0 = false) := by
  rintro ⟨zero, unset⟩
  have set : t.bit (place largest) = true :=
    (bits largest (by omega) (by omega)).mpr (List.max?_mem top)
  rw [← getBit_eq maxSeq, zero, unset] at set
  cases set

include same

theorem bits_moved (ahead : largest < n) (near : n - largest ≤ 32767) {slid : SeqTracker}
    (moved : slid = if SeqWindowSize ≤ (seqNum - t.maxSeq).toNat then { t with bitmap := fun _ => 0 }
      else t.advanceWindow (seqNum - t.maxSeq))
    {k : ℤ} (lower : n - 16384 < k) (upper : k < n) : slid.bit (place k) = true ↔ k ∈ taken := by
  have distance := toNat_sub_eq same maxSeq ahead.le (by omega)
  subst moved
  split
  case isTrue jump =>
    have far : 16384 ≤ (seqNum - t.maxSeq).toNat := jump
    refine ⟨fun set => absurd set (by rw [bit_new]; decide), fun mem => ?_⟩
    have := le_largest top mem
    omega
  case isFalse slide =>
    rw [advanceWindow, if_neg slide, bit_clearAhead maxSeq]
    by_cases old : k ≤ largest
    · rw [bits k (by omega) old]
      refine ⟨And.left, fun mem => ⟨mem, fun j above below => ?_⟩⟩
      rw [Ne, place_inj (by omega) (by omega)]
      omega
    · constructor
      · rintro ⟨-, cleared⟩
        refine absurd ?_ (cleared (k - largest).toNat (by omega) (by omega))
        congr 1
        omega
      · intro mem
        exact absurd (le_largest top mem) old

theorem check_ahead (ahead : largest < n) (near : n - largest ≤ 32767) :
    (t.check seqNum).1 = true ∧ Tracks (t.check seqNum).2 (n :: taken) := by
  have distance := toNat_sub_eq same maxSeq ahead.le (by omega)
  have other : seqNum ≠ t.maxSeq := by
    rw [Ne, eq_iff_of_near same maxSeq (by omega) (by omega)]
    omega
  rw [check, if_neg (not_empty top maxSeq bits), if_neg other]
  rw [if_pos (by omega)]
  refine ⟨rfl, ?_⟩
  have largest' : (n :: taken).max? = some n := by
    rw [max?_cons_of_max top, max_eq_left ahead.le]
  refine Tracks.accept largest' same same (by omega) le_rfl fun k lower upper before => ?_
  exact bits_moved top maxSeq bits same ahead near rfl lower (by omega)

theorem check_behind (behind : n ≤ largest) (near : largest - n ≤ 32768) :
    ((t.check seqNum).1 = true ↔ largest - n < 16384 ∧ n ∉ taken) ∧
      Tracks (t.check seqNum).2 (if largest - n < 16384 ∧ n ∉ taken then n :: taken else taken) := by
  have back := toNat_sub_eq maxSeq same behind (by omega)
  rw [check, if_neg (not_empty top maxSeq bits)]
  split
  case isTrue duplicate =>
    rw [eq_iff_of_near same maxSeq (by omega) (by omega)] at duplicate
    have mem : n ∈ taken := duplicate ▸ List.max?_mem top
    rw [if_neg fun h => h.2 mem]
    exact ⟨⟨fun h => absurd h Bool.false_ne_true, fun h => absurd mem h.2⟩, .sliding top maxSeq bits⟩
  case isFalse other =>
    rw [eq_iff_of_near same maxSeq (by omega) (by omega)] at other
    have wraps : ((n + 65536) % 65536 : ℤ) = n % 65536 := by omega
    have diff := toNat_sub_eq (same.trans wraps.symm) maxSeq (by omega) (by omega)
    dsimp only
    rw [if_neg (by omega)]
    split
    case isTrue old =>
      have far : 16384 ≤ (t.maxSeq - seqNum).toNat := old
      rw [if_neg fun h => absurd h.1 (by omega)]
      exact ⟨⟨fun h => absurd h Bool.false_ne_true, fun h => absurd h.1 (by omega)⟩,
        .sliding top maxSeq bits⟩
    case isFalse inside =>
      have inWindow : ¬ 16384 ≤ (t.maxSeq - seqNum).toNat := inside
      have here := bits n (by omega) behind
      rw [getBit_eq same]
      split
      case isTrue seen =>
        have mem := here.mp seen
        rw [if_neg fun h => h.2 mem]
        exact ⟨⟨fun h => absurd h Bool.false_ne_true, fun h => absurd mem h.2⟩,
          .sliding top maxSeq bits⟩
      case isFalse unseen =>
        have new : n ∉ taken := fun mem => unseen (here.mpr mem)
        have short : largest - n < 16384 := by omega
        rw [if_pos ⟨short, new⟩]
        refine ⟨⟨fun _ => ⟨short, new⟩, fun _ => rfl⟩, ?_⟩
        have largest' : (n :: taken).max? = some largest := by
          rw [max?_cons_of_max top, max_eq_right behind]
        exact Tracks.accept largest' same maxSeq (by omega) behind
          fun k lower upper _ => bits k lower upper

end Sliding

variable {t : SeqTracker} {taken : List ℤ}

theorem Tracks.check (tracks : Tracks t taken) (seqNum : BitVec 16) :
    (t.check seqNum).1 = (offer 65536 SeqWindowSize taken seqNum.toNat).1 ∧
      Tracks (t.check seqNum).2 (offer 65536 SeqWindowSize taken seqNum.toNat).2 := by
  cases tracks with
  | fresh =>
    rw [check_new]
    refine ⟨rfl, ?_⟩
    change Tracks _ [(seqNum.toNat : ℤ)]
    have same : (seqNum.toNat : ℤ) = seqNum.toNat % 65536 := by omega
    have top : [(seqNum.toNat : ℤ)].max? = some (seqNum.toNat : ℤ) := rfl
    refine Tracks.accept top same same (by omega) le_rfl fun k lower upper other => ?_
    rw [bit_new]
    simp
  | sliding top maxSeq bits =>
    rename_i largest
    obtain ⟨congruent, lower, upper⟩ := (reading_unique (N := 65536)
      (by decide) (by decide) top seqNum.toNat).mp rfl
    generalize read : reading 65536 taken seqNum.toNat = n at congruent lower upper
    have same : (seqNum.toNat : ℤ) = n % 65536 := by omega
    rw [offer, read]
    rcases lt_or_ge largest n with ahead | behind
    · have admits : SlidingWindow.Admits SeqWindowSize taken n :=
        (admits_iff top).mpr (.inl ahead)
      rw [if_pos admits]
      exact check_ahead top maxSeq bits same ahead (by omega)
    · obtain ⟨verdict, next⟩ := check_behind top maxSeq bits same behind (by omega)
      have admits : SlidingWindow.Admits SeqWindowSize taken n ↔
          largest - n < 16384 ∧ n ∉ taken := by
        rw [admits_iff top]
        exact or_iff_right (not_lt.mpr behind)
      split at next
      case isTrue accepted =>
        rw [if_pos (admits.mpr accepted)]
        exact ⟨verdict.mpr accepted, next⟩
      case isFalse refused =>
        rw [if_neg (mt admits.mp refused)]
        exact ⟨Bool.eq_false_iff.mpr (mt verdict.mp refused), next⟩

theorem Tracks.checkAll (tracks : Tracks t taken) (seqs : List (BitVec 16)) :
    (t.checkAll seqs).1 = (offerAll 65536 SeqWindowSize taken
      (seqs.map fun seqNum => (seqNum.toNat : ℤ))).1 := by
  induction seqs generalizing t taken with
  | nil => rfl
  | cons seqNum rest ih =>
    obtain ⟨verdict, next⟩ := tracks.check seqNum
    exact congr (congrArg List.cons verdict) (ih next)

/-- Whatever numbers come, the tracker accepts those that the ideal window takes, where
each number is read as the one integer around the largest accepted so far, and no
integer is ever accepted twice. -/
theorem check_refines_sliding_window (seqs : List (BitVec 16)) :
    (new.checkAll seqs).1 = (offerAll 65536 SeqWindowSize []
        (seqs.map fun seqNum => (seqNum.toNat : ℤ))).1 ∧ (offerAll 65536 SeqWindowSize []
        (seqs.map fun seqNum => (seqNum.toNat : ℤ))).2.Nodup ∧
      ∀ (taken : List ℤ) (largest n : ℤ) (seqNum : BitVec 16), taken.max? = some largest →
        (n = reading 65536 taken seqNum.toNat ↔
          n % 65536 = seqNum.toNat ∧ -32768 ≤ n - largest ∧ n - largest ≤ 32767) := by
  refine ⟨Tracks.fresh.checkAll seqs, nodup_offerAll List.nodup_nil _, ?_⟩
  intro taken largest n seqNum top
  rw [reading_unique (by decide) (by decide) top]
  omega

theorem wraparound_accepted_once :
    (new.checkAll [65535, 0, 65535, 0]).1 = [true, true, false, false] ∧
      (65536 : ℤ) = reading 65536 [65535] (0 : BitVec 16).toNat :=
  ⟨(check_refines_sliding_window [65535, 0, 65535, 0]).1.trans (by decide),
    ((check_refines_sliding_window []).2.2 [65535] 65535 65536 0 rfl).mpr (by decide)⟩

end SeqTracker

end Unheaded.Net
