import Unheaded.Lib.Endian
import Unheaded.Lib.Text

/-!
# Instants and their text

An instant is given by its date and time of day in UTC.
-/

namespace Unheaded.Lib

open List

/-- The last `k` decimal digits of a number. -/
def digits : Nat → Nat → Text
  | 0, _ => []
  | k + 1, n => digits k (n / 10) ++ [Nat.digitChar (n % 10)]

@[simp] theorem length_digits (k n : Nat) : (digits k n).length = k := by
  induction k generalizing n with
  | zero => rfl
  | succ k ih => rw [digits, length_append, ih, length_singleton]

variable {k m n : Nat}

theorem mem_digits {c : Char} (mem : c ∈ digits k n) : ∃ d < 10, c = Nat.digitChar d := by
  induction k generalizing n with
  | zero => cases mem
  | succ k ih =>
    rcases mem_append.mp mem with front | last
    · exact ih front
    · exact ⟨n % 10, Nat.mod_lt n (by decide), mem_singleton.mp last⟩

theorem digitsValue_digits (fits : n < 10 ^ k) : digitsValue 10 (digits k n) 0 = some n := by
  induction k generalizing n with
  | zero =>
    have zero : n = 0 := by rw [Nat.pow_zero] at fits; omega
    rw [zero]
    rfl
  | succ k ih =>
    have front : n / 10 < 10 ^ k := by rw [Nat.pow_succ] at fits; omega
    have last : n % 10 < 10 := Nat.mod_lt n (by decide)
    have sum : n / 10 * 10 + n % 10 = n := Nat.div_add_mod' n 10
    rw [digits, digitsValue_append, ih front, Option.bind_some, digitsValue,
      digitValue_digitChar (by decide) last, Option.bind_some, digitsValue, sum]

theorem digits_inj (fits : m < 10 ^ k) (fits' : n < 10 ^ k) (same : digits k m = digits k n) :
    m = n := by
  have value := digitsValue_digits fits
  rw [same, digitsValue_digits fits'] at value
  exact (Option.some.inj value).symm

def fourDigits (n : Nat) : Text := if n < 10 ^ 4 then digits 4 n else showNat 10 n

theorem digitsValue_fourDigits (n : Nat) : digitsValue 10 (fourDigits n) 0 = some n := by
  unfold fourDigits
  split
  · next small => exact digitsValue_digits small
  · exact digitsValue_showNat (by decide) (by decide) n

def isLeap (year : Int) : Bool := year % 4 = 0 && (year % 100 ≠ 0 || year % 400 = 0)

def daysInMonth (year : Int) (month : Nat) : Nat :=
  if month = 2 then (if isLeap year then 29 else 28)
  else if month = 4 ∨ month = 6 ∨ month = 9 ∨ month = 11 then 30 else 31

/-- A day of the Gregorian calendar. -/
@[ext] structure Date where
  year : Int
  month : Nat
  day : Nat
  isMonth : 1 ≤ month ∧ month ≤ 12
  isDay : 1 ≤ day ∧ day ≤ daysInMonth year month
  deriving DecidableEq

theorem Date.day_lt (d : Date) : d.day < 10 ^ 2 := by
  have bound := d.isDay.2
  unfold daysInMonth at bound
  split at bound
  · split at bound <;> omega
  · split at bound <;> omega

theorem le_daysInMonth (year : Int) (month : Nat) : 28 ≤ daysInMonth year month := by
  unfold daysInMonth
  split <;> split <;> omega

/-- A point in time, by its date and time of day in UTC. -/
@[ext] structure Instant extends Date where
  hour : Nat
  minute : Nat
  second : Nat
  nanos : Nat
  isHour : hour < 24
  isMinute : minute < 60
  isSecond : second < 60
  isNanos : nanos < 10 ^ 9
  deriving DecidableEq

/-- An instant on one of the first 28 days of a month; the months and days are counted from 0, and
each number wraps at the end of its range. -/
def instantOf (year : Int) (month day hour minute second nanos : Nat) : Instant where
  year
  month := month % 12 + 1
  day := day % 28 + 1
  hour := hour % 24
  minute := minute % 60
  second := second % 60
  nanos := nanos % 10 ^ 9
  isMonth := ⟨Nat.le_add_left 1 _, Nat.mod_lt month (by decide)⟩
  isDay := ⟨Nat.le_add_left 1 _,
    Nat.le_trans (Nat.mod_lt day (by decide)) (le_daysInMonth year (month % 12 + 1))⟩
  isHour := Nat.mod_lt hour (by decide)
  isMinute := Nat.mod_lt minute (by decide)
  isSecond := Nat.mod_lt second (by decide)
  isNanos := Nat.mod_lt nanos (by decide)

variable (t : Instant)

/-- `time.Time.IsZero`: the first second of year 1. -/
def Instant.isZero : Bool :=
  t.year = 1 && t.month = 1 && t.day = 1 && t.hour = 0 && t.minute = 0 && t.second = 0 && t.nanos = 0

def Instant.rank : Int :=
  ((((((t.year * 13 + t.month) * 32 + t.day) * 24 + t.hour) * 60 + t.minute) * 60 + t.second) *
    1000000000 + t.nanos)

/-- `time.Time.Before`; `t.After(u)` is `u.Before(t)`. -/
def Instant.before (t u : Instant) : Bool := t.rank < u.rank

def yearText (year : Int) : Text :=
  if year < 0 then '-' :: fourDigits year.natAbs else fourDigits year.natAbs

/-- `2006-01-02`. -/
def dateText (d : Date) : Text :=
  yearText d.year ++ ('-' :: digits 2 d.month ++ '-' :: digits 2 d.day)

def fractionText (nanos : Nat) : Text :=
  if nanos = 0 then [] else '.' :: (digits 9 nanos).rdropWhile (· == '0')

/-- `15:04:05`. -/
def clockText : Text :=
  digits 2 t.hour ++ ':' :: digits 2 t.minute ++ ':' :: digits 2 t.second

/-- The text of an instant in the format `RFC3339Nano`, in UTC. -/
def rfc3339Nano : Text :=
  dateText t.toDate ++ 'T' :: (clockText t ++ fractionText t.nanos ++ ['Z'])

theorem yearText_inj {y y' : Int} (same : yearText y = yearText y') : y = y' := by
  have signed : ∀ n, digitsValue 10 ('-' :: fourDigits n) 0 = none := fun _ => rfl
  unfold yearText at same
  split at same
  next negative =>
    split at same
    next negative' =>
      have value := congrArg (fun t => digitsValue 10 t 0) (tail_eq_of_cons_eq same)
      simp only [digitsValue_fourDigits, Option.some.injEq] at value
      omega
    next pos =>
      have value := congrArg (fun t => digitsValue 10 t 0) same
      rw [digitsValue_fourDigits] at value
      cases value
  next pos =>
    split at same
    next negative =>
      have value := congrArg (fun t => digitsValue 10 t 0) same
      rw [digitsValue_fourDigits] at value
      cases value
    next positive' =>
      have value := congrArg (fun t => digitsValue 10 t 0) same
      simp only [digitsValue_fourDigits, Option.some.injEq] at value
      omega

theorem dateText_inj {d d' : Date} (same : dateText d = dateText d') : d = d' := by
  have month := d.isMonth.2
  have month' := d'.isMonth.2
  have tails : ('-' :: digits 2 d.month ++ '-' :: digits 2 d.day).length =
      ('-' :: digits 2 d'.month ++ '-' :: digits 2 d'.day).length := by
    simp only [length_append, length_cons, length_digits]
  obtain ⟨years, rest⟩ := append_inj' same tails
  obtain ⟨months, days⟩ := append_inj (tail_eq_of_cons_eq rest) (by
    rw [length_digits, length_digits])
  refine Date.ext (yearText_inj years) (digits_inj (by omega) (by omega) months) ?_
  exact digits_inj d.day_lt d'.day_lt (tail_eq_of_cons_eq days)

theorem fractionText_inj (fits : m < 10 ^ 9) (fits' : n < 10 ^ 9)
    (same : fractionText m = fractionText n) : m = n := by
  have restored : ∀ n, digits 9 n = (digits 9 n).rdropWhile (· == '0') ++
      replicate (9 - ((digits 9 n).rdropWhile (· == '0')).length) '0' := by
    intro n
    have parts : (digits 9 n).rdropWhile (· == '0') ++ (digits 9 n).rtakeWhile (· == '0') =
        digits 9 n := rdropWhile_append_rtakeWhile
    have zeros : (digits 9 n).rtakeWhile (· == '0') =
        replicate ((digits 9 n).rtakeWhile (· == '0')).length '0' := by
      apply eq_replicate_of_mem
      intro c mem
      have zero := mem_rtakeWhile_imp mem
      exact eq_of_beq zero
    have total := congrArg List.length parts
    rw [length_append, length_digits] at total
    have count : 9 - ((digits 9 n).rdropWhile (· == '0')).length =
        ((digits 9 n).rtakeWhile (· == '0')).length := by omega
    rw [count, ← zeros, parts]
  unfold fractionText at same
  split at same
  next zero =>
    split at same
    next zero' => rw [zero, zero']
    next => cases same
  next =>
    split at same
    next => cases same
    next =>
      have front := tail_eq_of_cons_eq same
      refine digits_inj fits fits' ?_
      rw [restored m, restored n, front]

variable {t t' : Instant}

theorem clockText_inj (same : clockText t = clockText t') :
    t.hour = t'.hour ∧ t.minute = t'.minute ∧ t.second = t'.second := by
  have hour := t.isHour
  have hour' := t'.isHour
  have minute := t.isMinute
  have minute' := t'.isMinute
  have second := t.isSecond
  have second' := t'.isSecond
  have lengths : ∀ m n : Nat, (digits 2 m).length = (digits 2 n).length := fun m n => by
    rw [length_digits, length_digits]
  obtain ⟨front, seconds⟩ := append_inj same (by
    rw [length_append, length_append, length_cons, length_cons, length_digits,
      length_digits, length_digits, length_digits])
  obtain ⟨hours, minutes⟩ := append_inj front (lengths _ _)
  exact ⟨digits_inj (by omega) (by omega) hours,
    digits_inj (by omega) (by omega) (tail_eq_of_cons_eq minutes),
    digits_inj (by omega) (by omega) (tail_eq_of_cons_eq seconds)⟩

theorem mem_dateText {d : Date} {c : Char} (mem : c ∈ dateText d) :
    c = '-' ∨ ∃ k < 10, c = Nat.digitChar k := by
  have year : ∀ {n : Nat}, c ∈ fourDigits n → ∃ k < 10, c = Nat.digitChar k := by
    intro n inside
    unfold fourDigits at inside
    split at inside
    · exact mem_digits inside
    · exact mem_showNat (by decide) inside
  unfold dateText yearText at mem
  rcases mem_append.mp mem with front | back
  · split at front
    · rcases mem_cons.mp front with dash | inside
      · exact .inl dash
      · exact .inr (year inside)
    · exact .inr (year front)
  · rcases mem_append.mp back with month | day
    · rcases mem_cons.mp month with dash | inside
      · exact .inl dash
      · exact .inr (mem_digits inside)
    · rcases mem_cons.mp day with dash | inside
      · exact .inl dash
      · exact .inr (mem_digits inside)

theorem rfc3339Nano_inj (same : rfc3339Nano t = rfc3339Nano t') : t = t' := by
  have noT : ∀ d : Date, 'T' ∉ dateText d := by
    intro d mem
    have digit : ∀ k < 10, 'T' ≠ Nat.digitChar k := by decide
    rcases mem_dateText mem with dash | ⟨k, small, equal⟩
    · cases dash
    · exact digit k small equal
  obtain ⟨dates, times⟩ := append_separator_inj (noT _) (noT _) same
  obtain ⟨body, -⟩ := append_inj' times rfl
  obtain ⟨clocks, fractions⟩ := append_inj body (by
    simp only [clockText, length_append, length_cons, length_digits])
  obtain ⟨hours, minutes, seconds⟩ := clockText_inj clocks
  have date := dateText_inj dates
  exact Instant.ext (congrArg Date.year date) (congrArg Date.month date) (congrArg Date.day date) hours
    minutes seconds (fractionText_inj t.isNanos t'.isNanos fractions)

end Unheaded.Lib
