import Mathlib.Data.List.DropRight
import Mathlib.Tactic.IntervalCases

/-!
# Text

Lists of characters with the string operations that parsers of assembly text use: whitespace,
lines and tokens, and numbers in a radix with a sign and a bound.
-/

namespace Unheaded.Lib

open List Option

abbrev Text := List Char

abbrev Bytes := List (BitVec 8)

/-- The code points with the Unicode property `White_Space`. -/
def isWhite (c : Char) : Bool :=
  let n := c.toNat
  decide (9 ≤ n ∧ n ≤ 13) || n == 0x20 || n == 0x85 || n == 0xA0 || n == 0x1680 ||
    decide (0x2000 ≤ n ∧ n ≤ 0x200A) || n == 0x2028 || n == 0x2029 || n == 0x202F || n == 0x205F ||
    n == 0x3000

variable (s : Text)

def trim : Text := (s.dropWhile isWhite).rdropWhile isWhite

/-- `str::trim_end_matches` with a character. -/
def trimEndMatches (c : Char) (s : Text) : Text := s.rdropWhile (· == c)

def splitWhitespace : List Text := (s.splitOnP isWhite).filter fun t => !t.isEmpty

def stripCr : Text := if s.getLast? = some '\r' then s.dropLast else s

def endings : List Text → List Text
  | [] => []
  | [last] => if last.isEmpty then [] else [last]
  | line :: rest => stripCr line :: endings rest

def lines : List Text := endings (s.splitOnP (· == '\n'))

/-- A token that is not empty and has no whitespace. -/
structure IsToken (t : Text) : Prop where
  nonempty : t ≠ []
  solid : ∀ c ∈ t, isWhite c = false

/-- Tokens with blanks between them; every gap has one blank more than its number. -/
def spaced (first : Text) : List (Nat × Text) → Text
  | [] => first
  | (gap, token) :: rest => first ++ replicate (gap + 1) ' ' ++ spaced token rest

variable {first s : Text} {rest : List (Nat × Text)}

theorem mem_spaced {c : Char} (mem : c ∈ spaced first rest) :
    c = ' ' ∨ ∃ t ∈ first :: rest.map Prod.snd, c ∈ t := by
  induction rest generalizing first with
  | nil => exact .inr ⟨first, mem_cons_self, mem⟩
  | cons head rest ih =>
    rw [spaced, List.append_assoc] at mem
    rcases mem_append.mp mem with here | later
    · exact .inr ⟨first, mem_cons_self, here⟩
    · rcases mem_append.mp later with blank | further
      · exact .inl (eq_of_mem_replicate blank)
      · rcases ih further with blank | ⟨t, found, inside⟩
        · exact .inl blank
        · exact .inr ⟨t, mem_cons_of_mem _ found, inside⟩

theorem IsToken.kept {t : Text} (token : IsToken t) : (!t.isEmpty) = true := by
  rw [Bool.not_eq_true', isEmpty_eq_false_iff]
  exact token.nonempty

theorem splitWhitespace_blanks (n : Nat) (s : Text) :
    splitWhitespace (replicate n ' ' ++ s) = splitWhitespace s := by
  induction n with
  | zero => rfl
  | succ n ih =>
    rw [← ih]
    rfl

theorem splitWhitespace_spaced (tokens : ∀ t ∈ first :: rest.map Prod.snd, IsToken t) :
    splitWhitespace (spaced first rest) = first :: rest.map Prod.snd := by
  have here := tokens first mem_cons_self
  induction rest generalizing first with
  | nil =>
    rw [splitWhitespace, spaced, splitOnP_eq_singleton here.solid, filter_cons, if_pos here.kept]
    rfl
  | cons head rest ih =>
    obtain ⟨gap, token⟩ := head
    have later : ∀ t ∈ token :: rest.map Prod.snd, IsToken t := fun t mem =>
      tokens t (mem_cons_of_mem _ mem)
    have blank : isWhite ' ' = true := by decide
    have split : splitWhitespace (spaced first ((gap, token) :: rest)) =
        first :: splitWhitespace (replicate gap ' ' ++ spaced token rest) := by
      unfold splitWhitespace
      rw [spaced, List.append_assoc, List.replicate_succ, List.cons_append,
        splitOnP_append_cons_of_forall_mem here.solid ' ' blank, filter_cons,
        if_pos here.kept]
    rw [split, splitWhitespace_blanks, ih later (later token mem_cons_self)]
    rfl

theorem trim_eq_self (front : ∀ c, s.head? = some c → isWhite c = false)
    (back : ∀ c, s.getLast? = some c → isWhite c = false) : trim s = s := by
  have kept : s.dropWhile isWhite = s := by
    cases s with
    | nil => rfl
    | cons c s =>
      have solid : ¬ isWhite c = true := Bool.eq_false_iff.mp (front c rfl)
      exact dropWhile_cons_of_neg solid
  rw [trim, kept, rdropWhile_eq_self_iff]
  intro some
  have solid := back _ (List.getLast?_eq_some_getLast some)
  exact Bool.eq_false_iff.mp solid

theorem head?_spaced (nonempty : first ≠ []) (rest : List (Nat × Text)) :
    (spaced first rest).head? = first.head? := by
  cases rest with
  | nil => rfl
  | cons head rest =>
    rw [spaced, List.append_assoc, List.head?_append_of_ne_nil _ nonempty]

theorem spaced_ne_nil (nonempty : first ≠ []) (rest : List (Nat × Text)) :
    spaced first rest ≠ [] := by
  intro none
  have head := head?_spaced nonempty rest
  rw [none] at head
  exact nonempty (List.head?_eq_none_iff.mp head.symm)

theorem getLast?_spaced (tokens : ∀ t ∈ first :: rest.map Prod.snd, IsToken t) {c : Char}
    (last : (spaced first rest).getLast? = some c) : ∃ t ∈ first :: rest.map Prod.snd, c ∈ t := by
  induction rest generalizing first with
  | nil => exact ⟨first, mem_cons_self, List.mem_of_getLast? last⟩
  | cons head rest ih =>
    obtain ⟨gap, token⟩ := head
    have later : ∀ t ∈ token :: rest.map Prod.snd, IsToken t := fun t mem =>
      tokens t (mem_cons_of_mem _ mem)
    have some := spaced_ne_nil (later token mem_cons_self).nonempty rest
    rw [spaced, List.getLast?_append_of_ne_nil _ some] at last
    obtain ⟨t, found, inside⟩ := ih later last
    exact ⟨t, mem_cons_of_mem _ found, inside⟩

theorem trim_spaced (tokens : ∀ t ∈ first :: rest.map Prod.snd, IsToken t) :
    trim (spaced first rest) = spaced first rest := by
  have here := tokens first mem_cons_self
  apply trim_eq_self
  · intro c head
    rw [head?_spaced here.nonempty] at head
    exact here.solid c (List.mem_of_head? head)
  · intro c last
    obtain ⟨t, found, inside⟩ := getLast?_spaced tokens last
    exact (tokens t found).solid c inside

theorem lines_eq_singleton (nonempty : s ≠ []) (one : ∀ c ∈ s, c ≠ '\n') : lines s = [s] := by
  have whole : s.splitOnP (· == '\n') = [s] :=
    splitOnP_eq_singleton fun c mem => beq_eq_false_iff_ne.mpr (one c mem)
  have some : ¬ s.isEmpty = true := by
    rw [List.isEmpty_iff]
    exact nonempty
  rw [lines, whole, endings, if_neg some]

/-- `char::to_digit`. -/
def digitValue (radix : Nat) (c : Char) : Option Nat :=
  let n := c.toNat
  let v :=
    if 48 ≤ n ∧ n ≤ 57 then n - 48
    else if 97 ≤ n ∧ n ≤ 122 then n - 87
    else if 65 ≤ n ∧ n ≤ 90 then n - 55
    else radix
  if v < radix then some v else none

/-- The value of digits behind those that make up `acc`. -/
def digitsValue (radix : Nat) : Text → Nat → Option Nat
  | [], acc => some acc
  | c :: cs, acc => (digitValue radix c).bind fun v => digitsValue radix cs (acc * radix + v)

def magnitude (radix : Nat) (s : Text) : Option Nat :=
  if s.isEmpty then none else digitsValue radix s 0

/-- `from_str_radix` of an unsigned type with the numbers below `bound`. -/
def parseUnsigned (radix bound : Nat) (s : Text) : Option Nat :=
  match s with
  | '+' :: digits => (magnitude radix digits).filter fun n => decide (n < bound)
  | digits => (magnitude radix digits).filter fun n => decide (n < bound)

/-- `from_str_radix` of a signed type with the numbers from `-bound` to below `bound`. -/
def parseSigned (radix bound : Nat) (s : Text) : Option Int :=
  match s with
  | '-' :: digits =>
    ((magnitude radix digits).filter fun n => decide (n ≤ bound)).map fun n : Nat => -(n : Int)
  | '+' :: digits => ((magnitude radix digits).filter fun n => decide (n < bound)).map Int.ofNat
  | digits => ((magnitude radix digits).filter fun n => decide (n < bound)).map Int.ofNat

/-- A number in the radix, as `Display` and `LowerHex` print it. -/
def showNat (radix n : Nat) : Text := Nat.toDigits radix n

def showInt (i : Int) : Text := if i < 0 then '-' :: showNat 10 i.natAbs else showNat 10 i.natAbs

section Printed

variable {radix : Nat} (two : 1 < radix) (sixteen : radix ≤ 16)

include sixteen in
theorem digitValue_digitChar {k : Nat} (digit : k < radix) :
    digitValue radix (Nat.digitChar k) = some k := by
  have small : k < 16 := by omega
  have value : ∀ k < 16, (if 48 ≤ (Nat.digitChar k).toNat ∧ (Nat.digitChar k).toNat ≤ 57 then
      (Nat.digitChar k).toNat - 48
    else if 97 ≤ (Nat.digitChar k).toNat ∧ (Nat.digitChar k).toNat ≤ 122 then
      (Nat.digitChar k).toNat - 87
    else if 65 ≤ (Nat.digitChar k).toNat ∧ (Nat.digitChar k).toNat ≤ 90 then
      (Nat.digitChar k).toNat - 55
    else radix) = k := by
    intro k small
    interval_cases k <;> rfl
  unfold digitValue
  dsimp only
  rw [value k small, if_pos digit]

theorem digitsValue_append (xs ys : Text) (acc : Nat) :
    digitsValue radix (xs ++ ys) acc = (digitsValue radix xs acc).bind (digitsValue radix ys) := by
  induction xs generalizing acc with
  | nil => rfl
  | cons c xs ih =>
    rw [List.cons_append, digitsValue, digitsValue]
    cases digitValue radix c with
    | none => rfl
    | some v => exact ih _

theorem showNat_ne_nil (n : Nat) : showNat radix n ≠ [] := Nat.toDigits_ne_nil

include two

variable {bound n : Nat}

theorem mem_showNat {c : Char} (mem : c ∈ showNat radix n) : ∃ k < radix, c = Nat.digitChar k := by
  induction n using Nat.strongRecOn with
  | ind n ih =>
    unfold showNat at mem ih
    rw [Nat.toDigits_eq_if two] at mem
    split at mem
    · next small => exact ⟨n, small, mem_singleton.mp mem⟩
    · next large =>
        rcases mem_append.mp mem with high | low
        · exact ih (n / radix) (Nat.div_lt_self (by omega) two) high
        · exact ⟨n % radix, Nat.mod_lt n (by omega), mem_singleton.mp low⟩

include sixteen

theorem digitsValue_showNat (n : Nat) : digitsValue radix (showNat radix n) 0 = some n := by
  induction n using Nat.strongRecOn with
  | ind n ih =>
    unfold showNat at ih ⊢
    rw [Nat.toDigits_eq_if two]
    split
    · next small =>
        rw [digitsValue, digitValue_digitChar sixteen small, bind_some, digitsValue,
          Nat.zero_mul, Nat.zero_add]
    · next large =>
        have digit : n % radix < radix := Nat.mod_lt n (by omega)
        have sum : n / radix * radix + n % radix = n := Nat.div_add_mod' n radix
        rw [digitsValue_append, ih (n / radix) (Nat.div_lt_self (by omega) two), bind_some,
          digitsValue, digitValue_digitChar sixteen digit, bind_some, digitsValue, sum]

theorem magnitude_showNat (n : Nat) : magnitude radix (showNat radix n) = some n := by
  have some : ¬ (showNat radix n).isEmpty = true := by
    rw [List.isEmpty_iff]
    exact showNat_ne_nil n
  rw [magnitude, if_neg some, digitsValue_showNat two sixteen]

theorem showNat_unsigned (n : Nat) {c : Char} {rest : Text} (begins : showNat radix n = c :: rest) :
    c ≠ '+' ∧ c ≠ '-' := by
  have mem : c ∈ showNat radix n := by
    rw [begins]
    exact mem_cons_self
  obtain ⟨k, digit, rfl⟩ := mem_showNat two mem
  have small : k < 16 := by omega
  have signs : ∀ k < 16, Nat.digitChar k ≠ '+' ∧ Nat.digitChar k ≠ '-' := by decide
  exact signs k small

theorem parseUnsigned_showNat (inside : n < bound) :
    parseUnsigned radix bound (showNat radix n) = some n := by
  have value := magnitude_showNat two sixteen n
  cases begins : showNat radix n with
  | nil => exact absurd begins (showNat_ne_nil n)
  | cons c rest =>
    obtain ⟨plus, -⟩ := showNat_unsigned two sixteen n begins
    rw [begins] at value
    unfold parseUnsigned
    split
    · next digits same => exact absurd (List.cons.inj same).1 plus
    · rw [value, filter_some, if_pos (decide_eq_true inside)]

theorem parseSigned_showNat (inside : n < bound) :
    parseSigned radix bound (showNat radix n) = some (n : Int) := by
  have value := magnitude_showNat two sixteen n
  cases begins : showNat radix n with
  | nil => exact absurd begins (showNat_ne_nil n)
  | cons c rest =>
    obtain ⟨plus, minus⟩ := showNat_unsigned two sixteen n begins
    rw [begins] at value
    unfold parseSigned
    split
    · next digits same => exact absurd (List.cons.inj same).1 minus
    · next digits same => exact absurd (List.cons.inj same).1 plus
    · rw [value, filter_some, if_pos (decide_eq_true inside)]
      rfl

end Printed

theorem parseSigned_showInt {i : Int} {bound : Nat} (low : -bound ≤ i) (high : i < bound) :
    parseSigned 10 bound (showInt i) = some i := by
  have two : 1 < 10 := by decide
  unfold showInt
  split
  · next negative =>
      have inside : i.natAbs ≤ bound := by omega
      have back : -(i.natAbs : Int) = i := by omega
      have signed : parseSigned 10 bound ('-' :: showNat 10 i.natAbs) =
          ((magnitude 10 (showNat 10 i.natAbs)).filter fun n => decide (n ≤ bound)).map
            fun n : Nat => -(n : Int) := rfl
      rw [signed, magnitude_showNat two (by decide), filter_some,
        if_pos (decide_eq_true inside), map_some, back]
  · next natural =>
      have back : (i.natAbs : Int) = i := by omega
      rw [parseSigned_showNat two (by decide) (by omega), back]

end Unheaded.Lib
