import Mathlib.Data.List.Induction
import Mathlib.Tactic.Ring

/-!
# Numbers as bytes

`k` bytes hold a number below `256 ^ k`, the most significant byte first.
-/

namespace Unheaded.Lib

open List BitVec
open BitVec (ofNat)

/-- The lowest `k` bytes of a number. -/
def beBytes : Nat → Nat → List (BitVec 8)
  | 0, _ => []
  | k + 1, v => beBytes k (v / 256) ++ [ofNat 8 v]

variable (bytes : List (BitVec 8))

def beValue : Nat := bytes.foldl (fun n b => n * 256 + b.toNat) 0

@[simp] theorem length_beBytes (k v : Nat) : (beBytes k v).length = k := by
  induction k generalizing v with
  | zero => rfl
  | succ k ih => rw [beBytes, length_append, ih, length_singleton]

theorem beValue_beBytes (k v : Nat) : beValue (beBytes k v) = v % 256 ^ k := by
  induction k generalizing v with
  | zero => rw [Nat.pow_zero, Nat.mod_one]; rfl
  | succ k ih =>
    have front : (beBytes k (v / 256)).foldl (fun n b => n * 256 + b.toNat) 0 =
        v / 256 % 256 ^ k := ih (v / 256)
    have split := Nat.mod_mul (x := v) (a := 256) (b := 256 ^ k)
    have power : 256 ^ (k + 1) = 256 * 256 ^ k := by rw [Nat.pow_succ, Nat.mul_comm]
    rw [beValue, beBytes, foldl_append, foldl_cons, foldl_nil, toNat_ofNat, power]
    omega

theorem beValue_concat (b : BitVec 8) : beValue (bytes ++ [b]) = beValue bytes * 256 + b.toNat := by
  rw [beValue, foldl_append, foldl_cons, foldl_nil, beValue]

theorem beValue_lt : beValue bytes < 256 ^ bytes.length := by
  induction bytes using List.reverseRecOn with
  | nil => exact Nat.one_pos
  | append_singleton bytes b ih =>
    rw [beValue_concat, length_append, length_singleton]
    omega

theorem beBytes_beValue : beBytes bytes.length (beValue bytes) = bytes := by
  induction bytes using List.reverseRecOn with
  | nil => rfl
  | append_singleton bytes b ih =>
    have front : (beValue bytes * 256 + b.toNat) / 256 = beValue bytes := by omega
    have last : ofNat 8 (beValue bytes * 256 + b.toNat) = b := by
      apply eq_of_toNat_eq
      rw [toNat_ofNat]
      omega
    rw [beValue_concat, length_append, length_singleton, beBytes, front, last, ih]

theorem beBytes_inj {w : Nat} {x y : BitVec (8 * w)}
    (h : beBytes w x.toNat = beBytes w y.toNat) : x = y := by
  have hvalue := congrArg beValue h
  have hpow : 256 ^ w = 2 ^ (8 * w) := by rw [Nat.pow_mul]
  rw [beValue_beBytes, beValue_beBytes, hpow, Nat.mod_eq_of_lt x.isLt, Nat.mod_eq_of_lt y.isLt] at hvalue
  exact eq_of_toNat_eq hvalue

variable {α : Type}

theorem append_separator_inj {sep : α} {field field' rest rest' : List α} (h : sep ∉ field)
    (h' : sep ∉ field') (heq : field ++ sep :: rest = field' ++ sep :: rest') :
    field = field' ∧ rest = rest' := by
  induction field generalizing field' with
  | nil =>
    cases field' with
    | nil => exact ⟨rfl, tail_eq_of_cons_eq heq⟩
    | cons x field' =>
      have hhead : sep = x := head_eq_of_cons_eq heq
      exact absurd (hhead ▸ mem_cons_self) h'
  | cons x field ih =>
    cases field' with
    | nil =>
      have hhead : x = sep := head_eq_of_cons_eq heq
      exact absurd (hhead ▸ mem_cons_self) h
    | cons y field' =>
      have hhead : x = y := head_eq_of_cons_eq heq
      obtain ⟨hfield, hrest⟩ := ih (fun hin => h (mem_cons_of_mem _ hin))
        (fun hin => h' (mem_cons_of_mem _ hin)) (tail_eq_of_cons_eq heq)
      exact ⟨by rw [hhead, hfield], hrest⟩

/-! ## Little-endian numbers

The bytes of a number put together from fields, lowest field first, are the
bytes of the fields one after the other.
-/

variable (k v : Nat)

def leBytes : List (BitVec 8) := (beBytes k v).reverse

variable (bytes : List (BitVec 8))

def leValue : Nat := beValue bytes.reverse

@[simp] theorem length_leBytes : (leBytes k v).length = k := by
  rw [leBytes, length_reverse, length_beBytes]

theorem leValue_leBytes : leValue (leBytes k v) = v % 256 ^ k := by
  rw [leValue, leBytes, reverse_reverse, beValue_beBytes]

theorem leBytes_succ : leBytes (k + 1) v = ofNat 8 v :: leBytes k (v / 256) := by
  rw [leBytes, beBytes, List.reverse_append, reverse_singleton, singleton_append, leBytes]

theorem leBytes_add_mul {j a : Nat} (small : a < 256 ^ j) (k b : Nat) :
    leBytes (j + k) (a + b * 256 ^ j) = leBytes j a ++ leBytes k b := by
  induction j generalizing a with
  | zero =>
    have none : a = 0 := by
      omega
    rw [none, Nat.pow_zero, Nat.mul_one, Nat.zero_add, Nat.zero_add]
    rfl
  | succ j ih =>
    have power : b * 256 ^ (j + 1) = b * 256 ^ j * 256 := by ring
    have high : (a + b * 256 ^ (j + 1)) / 256 = a / 256 + b * 256 ^ j := by
      rw [power, Nat.add_mul_div_right _ _ (by decide)]
    have low : ofNat 8 (a + b * 256 ^ (j + 1)) = ofNat 8 a := by
      apply eq_of_toNat_eq
      rw [toNat_ofNat, toNat_ofNat]
      omega
    have below : a / 256 < 256 ^ j := by
      omega
    have index : j + 1 + k = j + k + 1 := by omega
    rw [index, leBytes_succ, leBytes_succ, high, low, ih below, List.cons_append]

theorem leBytes_inj {k a b : Nat} (smallA : a < 256 ^ k) (smallB : b < 256 ^ k) :
    leBytes k a = leBytes k b ↔ a = b := by
  constructor
  · intro same
    have values := congrArg leValue same
    rwa [leValue_leBytes, leValue_leBytes, Nat.mod_eq_of_lt smallA, Nat.mod_eq_of_lt smallB] at values
  · intro same
    rw [same]

theorem leBytes_append_inj {k w : Nat} {x y : BitVec w} (fits : 2 ^ w ≤ 256 ^ k)
    {xs ys : List (BitVec 8)} (same : leBytes k x.toNat ++ xs = leBytes k y.toNat ++ ys) :
    x = y ∧ xs = ys := by
  have size : (leBytes k x.toNat).length = (leBytes k y.toNat).length := by
    rw [length_leBytes, length_leBytes]
  obtain ⟨front, rest⟩ := append_inj same size
  have value := (leBytes_inj (Nat.lt_of_lt_of_le x.isLt fits)
    (Nat.lt_of_lt_of_le y.isLt fits)).mp front
  exact ⟨eq_of_toNat_eq value, rest⟩

theorem leBytes_beValue : leBytes bytes.length (beValue bytes) = bytes.reverse := by
  rw [leBytes, beBytes_beValue]

theorem beValue_zero_cons : beValue (0 :: bytes) = beValue bytes := by
  simp [beValue]

theorem toNat_or_shiftLeft {w s : Nat} {low high : BitVec w} (below : low.toNat < 2 ^ s)
    (fits : high.toNat * 2 ^ s < 2 ^ w) :
    (low ||| (high <<< s)).toNat = low.toNat + high.toNat * 2 ^ s := by
  have shifted : (high <<< s).toNat = high.toNat <<< s := by
    rw [toNat_shiftLeft, Nat.shiftLeft_eq, Nat.mod_eq_of_lt fits]
  rw [toNat_or, shifted, Nat.or_comm, ← Nat.shiftLeft_add_eq_or_of_lt below,
    Nat.shiftLeft_eq, Nat.add_comm]

section Fields

variable {u v w s : Nat} (x : BitVec u) (y : BitVec v)

theorem field_lt (fits : v + s ≤ w) : y.toNat * 2 ^ s < 2 ^ w := by
  have below : y.toNat * 2 ^ s < 2 ^ v * 2 ^ s := Nat.mul_lt_mul_of_pos_right y.isLt (Nat.two_pow_pos s)
  rw [← Nat.pow_add] at below
  exact Nat.lt_of_lt_of_le below (Nat.pow_le_pow_right (by decide) fits)

theorem toNat_field (fits : v + s ≤ w) : (y.setWidth w <<< s).toNat = y.toNat * 2 ^ s := by
  have wide : (y.setWidth w).toNat = y.toNat := toNat_setWidth_of_le (by omega)
  rw [toNat_shiftLeft, Nat.shiftLeft_eq, wide, Nat.mod_eq_of_lt (field_lt y fits)]

theorem toNat_fields (below : u ≤ s) (fits : v + s ≤ w) :
    (x.setWidth w ||| (y.setWidth w <<< s)).toNat = x.toNat + y.toNat * 2 ^ s := by
  have wideX : (x.setWidth w).toNat = x.toNat := toNat_setWidth_of_le (by omega)
  have wideY : (y.setWidth w).toNat = y.toNat := toNat_setWidth_of_le (by omega)
  have low : (x.setWidth w).toNat < 2 ^ s := by
    rw [wideX]
    exact Nat.lt_of_lt_of_le x.isLt (Nat.pow_le_pow_right (by decide) below)
  have high : (y.setWidth w).toNat * 2 ^ s < 2 ^ w := by
    rw [wideY]
    exact field_lt y fits
  rw [toNat_or_shiftLeft low high, wideX, wideY]

end Fields

end Unheaded.Lib
