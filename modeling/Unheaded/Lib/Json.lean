import Unheaded.Lib.Endian
import Unheaded.Lib.Text

/-!
# Strings as JSON and bytes as hexadecimal

A string is written between quotes with its quotes, backslashes, control characters, angle
brackets and ampersands and the two line separators of Unicode escaped.
-/

namespace Unheaded.Lib

open List

def utf8 (t : Text) : List (BitVec 8) := (t.flatMap String.utf8EncodeChar).map UInt8.toBitVec

theorem utf8_inj {s t : Text} (same : utf8 s = utf8 t) : s = t := by
  have bytes : s.flatMap String.utf8EncodeChar = t.flatMap String.utf8EncodeChar := by
    refine map_injective_iff.mpr ?_ same
    intro a b equal
    exact UInt8.toBitVec_inj.mp equal
  have encoded : s.utf8Encode = t.utf8Encode := congrArg List.toByteArray bytes
  exact String.ofList_injective (String.toByteArray_inj.mp encoded)

/-- `hex.EncodeToString`. -/
def hexEncode (bytes : List (BitVec 8)) : Text :=
  bytes.flatMap fun b => [Nat.digitChar (b.toNat / 16), Nat.digitChar (b.toNat % 16)]

theorem hexEncode_inj {a b : List (BitVec 8)} (same : hexEncode a = hexEncode b) : a = b := by
  have digit : ∀ i < 16, ∀ j < 16, Nat.digitChar i = Nat.digitChar j → i = j := by decide
  induction a generalizing b with
  | nil =>
    cases b with
    | nil => rfl
    | cons y b => cases same
  | cons x a ih =>
    cases b with
    | nil => cases same
    | cons y b =>
      have tails := tail_eq_of_cons_eq same
      have highs := digit _ (by omega) _ (by omega) (head_eq_of_cons_eq same)
      have lows := digit _ (by omega) _ (by omega) (head_eq_of_cons_eq tails)
      have rest := tail_eq_of_cons_eq tails
      have value : x = y := BitVec.eq_of_toNat_eq (by omega)
      rw [value, ih rest]

/-! ## Texts that are read again -/

/-- A text without what stands in its strings. -/
def outsideStrings : Bool → List (BitVec 8) → List (BitVec 8)
  | _, [] => []
  | true, 0x5C :: _ :: rest => outsideStrings true rest
  | true, b :: rest => if b = 0x22 then b :: outsideStrings false rest else outsideStrings true rest
  | false, b :: rest => b :: outsideStrings (b = 0x22) rest

/-- How deep objects and arrays are nested. -/
def nesting : Nat → List (BitVec 8) → Nat
  | depth, [] => depth
  | depth, b :: rest =>
    if b = 0x7B ∨ b = 0x5B then nesting (depth + 1) rest
    else if b = 0x7D ∨ b = 0x5D then max depth (nesting (depth - 1) rest)
    else nesting depth rest

def isDigit (b : BitVec 8) : Bool := 0x30 ≤ b ∧ b ≤ 0x39

def inNumeral (b : BitVec 8) : Bool := isDigit b || b ∈ [0x2B, 0x2D, 0x2E, 0x45, 0x65]

/-- The digits before and behind the point as one number. -/
def decimal (digits : List (BitVec 8)) : Nat := digits.foldl (fun n b => n * 10 + (b.toNat - 0x30)) 0

/-- The exponent as `strconv.ParseFloat` reads it, which stops at the first value from 10000 on. -/
def exponent (digits : List (BitVec 8)) : Nat :=
  digits.foldl (fun n b => if n < 10000 then n * 10 + (b.toNat - 0x30) else n) 0

/-- Whether a number rounds to one below `2 ^ 1024`. -/
def inFloat64 (number : List (BitVec 8)) : Bool :=
  let mantissa := number.takeWhile fun b => b ∉ [0x45, 0x65]
  let power := number.dropWhile fun b => b ∉ [0x45, 0x65]
  let fraction : Int := ((mantissa.dropWhile (· ≠ 0x2E)).filter isDigit).length
  let magnitude : Int := exponent (power.filter isDigit)
  let scale := (if 0x2D ∈ power then -magnitude else magnitude) - fraction
  decimal (mantissa.filter isDigit) * 10 ^ scale.toNat < (2 ^ 1024 - 2 ^ 970) * 10 ^ (-scale).toNat

def maxNestingDepth : Nat := 10000

/-- Whether `json.Unmarshal` takes a text that `json.Marshal` made: it is not nested too deep, and its
numbers are in the range of `float64`. -/
def readable (data : List (BitVec 8)) : Bool :=
  let outside := outsideStrings false data
  nesting 0 outside ≤ maxNestingDepth && (outside.splitOnP fun b => !inNumeral b).all inFloat64

/-! ## Strings -/

/-- `\u` and four hexadecimal digits. -/
def unicodeEscape (n : Nat) : Text :=
  ['\\', 'u', Nat.digitChar (n / 4096), Nat.digitChar (n / 256 % 16), Nat.digitChar (n / 16 % 16),
    Nat.digitChar (n % 16)]

/-- A character as it stands in a JSON string. -/
def escapeChar (c : Char) : Text :=
  if c = '"' ∨ c = '\\' then ['\\', c]
  else if c.toNat = 8 then ['\\', 'b']
  else if c.toNat = 12 then ['\\', 'f']
  else if c = '\n' then ['\\', 'n']
  else if c = '\r' then ['\\', 'r']
  else if c = '\t' then ['\\', 't']
  else if c.toNat < 0x20 ∨ c = '<' ∨ c = '>' ∨ c = '&' ∨ c.toNat = 0x2028 ∨ c.toNat = 0x2029 then
    unicodeEscape c.toNat
  else [c]

def jsonString (s : Text) : Text := '"' :: (s.flatMap escapeChar ++ ['"'])

/-- The character that is written behind a backslash, and what comes after it. -/
def readEscape : Text → Option (Char × Text)
  | 'u' :: a :: b :: c :: d :: rest =>
    (digitsValue 16 [a, b, c, d] 0).map fun n => (Char.ofNat n, rest)
  | 'b' :: rest => some (Char.ofNat 8, rest)
  | 'f' :: rest => some (Char.ofNat 12, rest)
  | 'n' :: rest => some ('\n', rest)
  | 'r' :: rest => some ('\r', rest)
  | 't' :: rest => some ('\t', rest)
  | c :: rest => some (c, rest)
  | [] => none

def readChar : Text → Option (Char × Text)
  | [] => none
  | c :: rest => if c = '"' then none else if c = '\\' then readEscape rest else some (c, rest)

theorem readChar_unicodeEscape {c : Char} (small : c.toNat < 2 ^ 16) (rest : Text) :
    readChar (unicodeEscape c.toNat ++ rest) = some (c, rest) := by
  have digit : ∀ k < 16, digitValue 16 (Nat.digitChar k) = some k :=
    fun k inside => digitValue_digitChar (by decide) inside
  have sum : (((0 * 16 + c.toNat / 4096) * 16 + c.toNat / 256 % 16) * 16 + c.toNat / 16 % 16) * 16 +
      c.toNat % 16 = c.toNat := by omega
  have value : digitsValue 16 [Nat.digitChar (c.toNat / 4096), Nat.digitChar (c.toNat / 256 % 16),
      Nat.digitChar (c.toNat / 16 % 16), Nat.digitChar (c.toNat % 16)] 0 = some c.toNat := by
    simp only [digitsValue]
    rw [digit _ (by omega), digit _ (by omega), digit _ (by omega), digit _ (by omega)]
    simp only [Option.bind_some]
    rw [sum]
  have read : readChar (unicodeEscape c.toNat ++ rest) =
      (digitsValue 16 [Nat.digitChar (c.toNat / 4096), Nat.digitChar (c.toNat / 256 % 16),
        Nat.digitChar (c.toNat / 16 % 16), Nat.digitChar (c.toNat % 16)] 0).map
          fun n => (Char.ofNat n, rest) := rfl
  rw [read, value, Option.map_some, Char.ofNat_toNat]

theorem readChar_escapeChar (c : Char) (rest : Text) :
    readChar (escapeChar c ++ rest) = some (c, rest) := by
  have named : ∀ {n : Nat}, c.toNat = n → c = Char.ofNat n := by
    rintro n rfl
    exact (Char.ofNat_toNat c).symm
  unfold escapeChar
  split
  next quoted =>
    rcases quoted with rfl | rfl
    · rfl
    · rfl
  next unquoted =>
    obtain ⟨quote, slash⟩ := not_or.mp unquoted
    split
    next b => rw [named b]; rfl
    next =>
    split
    next f => rw [named f]; rfl
    next =>
    split
    next n => rw [n]; rfl
    next =>
    split
    next r => rw [r]; rfl
    next =>
    split
    next t => rw [t]; rfl
    next =>
    split
    next special =>
      refine readChar_unicodeEscape ?_ rest
      rcases special with low | rfl | rfl | rfl | line | paragraph
      · omega
      · decide
      · decide
      · decide
      · omega
      · omega
    next =>
      rw [singleton_append, readChar, if_neg quote, if_neg slash]

theorem jsonString_append_inj {s t rest rest' : Text}
    (same : jsonString s ++ rest = jsonString t ++ rest') : s = t ∧ rest = rest' := by
  have body : s.flatMap escapeChar ++ ['"'] ++ rest = t.flatMap escapeChar ++ ['"'] ++ rest' :=
    tail_eq_of_cons_eq same
  rw [List.append_assoc, List.append_assoc] at body
  clear same
  induction s generalizing t with
  | nil =>
    cases t with
    | nil => exact ⟨rfl, tail_eq_of_cons_eq body⟩
    | cons d t =>
      have read := congrArg readChar body
      rw [flatMap_cons, List.append_assoc, readChar_escapeChar] at read
      cases read
  | cons c s ih =>
    cases t with
    | nil =>
      have read := congrArg readChar body
      rw [flatMap_cons, List.append_assoc, readChar_escapeChar] at read
      cases read
    | cons d t =>
      have read := congrArg readChar body
      rw [flatMap_cons, List.append_assoc, readChar_escapeChar, flatMap_cons,
        List.append_assoc, readChar_escapeChar, Option.some.injEq, Prod.mk.injEq] at read
      obtain ⟨same, later⟩ := read
      obtain ⟨strings, rests⟩ := ih later
      exact ⟨by rw [same, strings], rests⟩

end Unheaded.Lib
