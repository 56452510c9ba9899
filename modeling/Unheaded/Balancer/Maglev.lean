import Mathlib.Data.List.Nodup
import Mathlib.Data.Nat.ModEq
import Mathlib.Data.Nat.Prime.Basic
import Unheaded.Lib.Json

/-!
# Maglev tables

Every backend has as many entries as its weight.
-/

namespace Unheaded.Balancer

open Lib List

structure Backend where
  id : Bytes
  weight : Int
  health : String
  deriving DecidableEq

/-- The loop of `isPrime`; nothing when the fuel is spent. -/
def trialDivision (n : Nat) : Nat → Nat → Option Bool
  | 0, _ => none
  | fuel + 1, i =>
    if i * i ≤ n then
      if n % i = 0 ∨ n % (i + 2) = 0 then some false else trialDivision n fuel (i + 6)
    else some true

def isPrime (fuel n : Nat) : Option Bool :=
  if n < 2 then some false
  else if n < 4 then some true
  else if n % 2 = 0 ∨ n % 3 = 0 then some false
  else trialDivision n fuel 5

/-- The loop of `nextPrime`. -/
def primeFrom : Nat → Nat → Option Nat
  | 0, _ => none
  | fuel + 1, n =>
    match isPrime fuel n with
    | none => none
    | some true => some n
    | some false => primeFrom fuel (n + 2)

def nextPrime (fuel n : Nat) : Option Nat :=
  if n ≤ 2 then some 2 else primeFrom fuel (if n % 2 = 0 then n + 1 else n)

/-- `uint32(tableSize)`. -/
def word (size : Nat) : Nat := size % 2 ^ 32

structure Entry where
  backendIdx : Nat
  offset : Nat
  skip : Nat
  cur : Nat

def Backend.entryCount (b : Backend) : Nat := if b.weight ≤ 0 then 1 else b.weight.toNat

def entryKey (id : Bytes) (rep : Nat) : Bytes := id ++ utf8 (':' :: showNat 10 rep)

variable (crc32 : Bytes → BitVec 32)

def entryOf (size idx : Nat) (id : Bytes) (rep : Nat) : Entry :=
  let h1 := (crc32 (entryKey id rep)).toNat
  let h2 := (crc32 (entryKey id rep ++ utf8 ":skip".toList)).toNat
  ⟨idx % 2 ^ 32, h1 % word size, h2 % (word size - 1) + 1, h1 % word size⟩

def sortBackends (backends : List Backend) : List Backend :=
  backends.mergeSort fun a b => decide (a.id ≤ b.id)

def entriesFrom (size : Nat) : Nat → List Backend → List Entry
  | _, [] => []
  | idx, b :: rest =>
    (range b.entryCount).map (entryOf crc32 size idx b.id) ++ entriesFrom size (idx + 1) rest

/-- `math.MaxUint32`: the slot is free. -/
def unassigned : Nat := 2 ^ 32 - 1

def advance (size skip c : Nat) : Nat := (c + skip) % 2 ^ 32 % word size

/-- The table, the entries and the number of slots taken; and, for the proofs alone, which entry
took which slot, the last first. -/
structure Filling where
  table : List Nat
  entries : List Entry
  filled : Nat
  taken : List (Nat × Nat)

/-- The next free slot of a walk; nothing when the fuel is spent. -/
def probe (table : List Nat) (size skip : Nat) : Nat → Nat → Option Nat
  | 0, _ => none
  | fuel + 1, c =>
    if table[c]? = some unassigned then some c else probe table size skip fuel (advance size skip c)

/-- The entry `j` takes its next slot. -/
def place (fuel size : Nat) (s : Filling) (j : Nat) : Option Filling := do
  let e ← s.entries[j]?
  let c ← probe s.table size e.skip fuel e.cur
  return ⟨s.table.set c e.backendIdx, s.entries.set j { e with cur := advance size e.skip c },
    s.filled + 1, (j, c) :: s.taken⟩

/-- The inner loop, for the last entries of `n`. -/
def fillRound (fuel size n : Nat) : Nat → Filling → Option Filling
  | 0, s => some s
  | left + 1, s =>
    if s.filled < size then (place fuel size s (n - (left + 1))).bind (fillRound fuel size n left)
    else some s

/-- The outer loop; nothing when the fuel is spent. -/
def fillRounds (inner size n : Nat) : Nat → Filling → Option Filling
  | 0, _ => none
  | fuel + 1, s =>
    if s.filled < size then (fillRound inner size n n s).bind (fillRounds inner size n fuel)
    else some s

/-- The loops of `BuildTable`, for a table size that is known. -/
def fillTable (fuel size : Nat) (entries : List Entry) : Option Filling :=
  fillRounds fuel size entries.length fuel ⟨replicate size unassigned, entries, 0, []⟩

/-- `BuildTable`, with what took which slot; nothing when the fuel is spent. -/
def buildFilling (fuel : Nat) (backends : List Backend) (tableSize : Int) : Option Filling :=
  if backends.length = 0 ∨ tableSize ≤ 0 then some ⟨[], [], 0, []⟩
  else
    match nextPrime fuel tableSize.toNat with
    | none => none
    | some size => fillTable fuel size (entriesFrom crc32 size 0 (sortBackends backends))

def buildTable (fuel : Nat) (backends : List Backend) (tableSize : Int) : Option (List Nat) :=
  (buildFilling crc32 fuel backends tableSize).map (·.table)

theorem trialDivision_spec {n fuel i : Nat} (residue : i % 6 = 5) (even : n % 2 ≠ 0)
    (three : n % 3 ≠ 0) (none : ∀ q, q.Prime → q ∣ n → i ≤ q) (two : 2 ≤ n) (positive : 0 < fuel)
    (enough : n < i + fuel) :
    ∃ answer, trialDivision n fuel i = some answer ∧ (answer = true ↔ n.Prime) := by
  induction fuel generalizing i with
  | zero => exact absurd positive (Nat.lt_irrefl 0)
  | succ fuel ih =>
    have five : 5 ≤ i := by omega
    unfold trialDivision
    by_cases small : i * i ≤ n
    · have large : i + 20 ≤ n := by
        have : i * 5 ≤ i * i := Nat.mul_le_mul_left i five
        omega
      rw [if_pos small]
      by_cases found : n % i = 0 ∨ n % (i + 2) = 0
      · refine ⟨false, if_pos found, iff_of_false Bool.false_ne_true fun prime => ?_⟩
        rcases found with divides | divides
        · rcases (Nat.dvd_prime prime).mp (Nat.dvd_of_mod_eq_zero divides) with one | self <;> omega
        · rcases (Nat.dvd_prime prime).mp (Nat.dvd_of_mod_eq_zero divides) with one | self <;> omega
      · rw [if_neg found]
        refine ih (by omega) (fun q prime divides => ?_) (by omega) (by omega)
        -- of the six numbers that follow only two are divisible by neither two nor three
        have least := none q prime divides
        by_contra below
        have notTwo : q % 2 ≠ 0 := fun divisible =>
          even (Nat.mod_eq_zero_of_dvd ((Nat.dvd_of_mod_eq_zero divisible).trans divides))
        have notThree : q % 3 ≠ 0 := fun divisible =>
          three (Nat.mod_eq_zero_of_dvd ((Nat.dvd_of_mod_eq_zero divisible).trans divides))
        have either : q = i ∨ q = i + 2 := by omega
        rcases either with rfl | rfl
        · exact found (.inl (Nat.mod_eq_zero_of_dvd divides))
        · exact found (.inr (Nat.mod_eq_zero_of_dvd divides))
    · refine ⟨true, if_neg small, iff_of_true rfl ?_⟩
      by_contra composite
      have square := Nat.minFac_sq_le_self (by omega) composite
      have least := none n.minFac (Nat.minFac_prime (by omega)) (Nat.minFac_dvd n)
      have := Nat.mul_le_mul least least
      rw [pow_two] at square
      omega

theorem isPrime_spec {fuel n : Nat} (positive : 0 < fuel) (enough : n ≤ fuel) :
    ∃ answer, isPrime fuel n = some answer ∧ (answer = true ↔ n.Prime) := by
  unfold isPrime
  by_cases small : n < 2
  · exact ⟨false, if_pos small, iff_of_false Bool.false_ne_true fun prime => by
      have := prime.two_le
      omega⟩
  rw [if_neg small]
  by_cases four : n < 4
  · refine ⟨true, if_pos four, iff_of_true rfl ?_⟩
    have either : n = 2 ∨ n = 3 := by omega
    rcases either with rfl | rfl
    · exact Nat.prime_two
    · exact Nat.prime_three
  rw [if_neg four]
  by_cases found : n % 2 = 0 ∨ n % 3 = 0
  · refine ⟨false, if_pos found, iff_of_false Bool.false_ne_true fun prime => ?_⟩
    rcases found with divides | divides
    · rcases (Nat.dvd_prime prime).mp (Nat.dvd_of_mod_eq_zero divides) with one | self <;> omega
    · rcases (Nat.dvd_prime prime).mp (Nat.dvd_of_mod_eq_zero divides) with one | self <;> omega
  rw [if_neg found]
  obtain ⟨even, three⟩ := not_or.mp found
  refine trialDivision_spec (by decide) even three (fun q prime divides => ?_) (by omega) positive
    (by omega)
  have two := prime.two_le
  by_contra below
  have options : q = 2 ∨ q = 3 ∨ q = 4 := by omega
  rcases options with rfl | rfl | rfl
  · exact even (Nat.mod_eq_zero_of_dvd divides)
  · exact three (Nat.mod_eq_zero_of_dvd divides)
  · exact absurd prime (by decide)

def LeastPrime (n size : Nat) : Prop := IsLeast { q | q.Prime ∧ n ≤ q } size

theorem primeFrom_spec {p fuel n : Nat} (prime : p.Prime) (bound : n ≤ p) (odd : n % 2 = 1)
    (three : 3 ≤ n) (enough : 2 * p < fuel + n) :
    ∃ size, primeFrom fuel n = some size ∧ LeastPrime n size := by
  induction fuel generalizing n with
  | zero => omega
  | succ fuel ih =>
    obtain ⟨answer, tested, correct⟩ := @isPrime_spec fuel n (by omega) (by omega)
    rw [primeFrom, tested]
    cases answer with
    | true => exact ⟨n, rfl, ⟨correct.mp rfl, Nat.le_refl n⟩, fun q candidate => candidate.2⟩
    | false =>
      have composite : ¬ n.Prime := fun isPrime => Bool.false_ne_true (correct.mpr isPrime)
      have step : ∀ q, q.Prime → n ≤ q → n + 2 ≤ q := by
        intro q primeQ above
        have notSame : q ≠ n := fun same => composite (same ▸ primeQ)
        have odd' := primeQ.eq_two_or_odd
        omega
      obtain ⟨size, found, ⟨primeSize, above⟩, least⟩ :=
        ih (step p prime bound) (by omega) (by omega) (by omega)
      refine ⟨size, found, ⟨primeSize, by omega⟩, fun q candidate => ?_⟩
      exact least ⟨candidate.1, step q candidate.1 candidate.2⟩

theorem nextPrime_spec {p fuel n : Nat} (prime : p.Prime) (bound : n ≤ p) (enough : 2 * p < fuel) :
    ∃ size, nextPrime fuel n = some size ∧ LeastPrime n size := by
  unfold nextPrime
  by_cases small : n ≤ 2
  · rw [if_pos small]
    exact ⟨2, rfl, ⟨Nat.prime_two, small⟩, fun q candidate => candidate.1.two_le⟩
  rw [if_neg small]
  have odd : ∀ q, q.Prime → n ≤ q → q % 2 = 1 := fun q primeQ above =>
    primeQ.eq_two_or_odd.resolve_left (by omega)
  have oddP := odd p prime bound
  by_cases even : n % 2 = 0
  · rw [if_pos even]
    obtain ⟨size, found, ⟨primeSize, above⟩, least⟩ :=
      @primeFrom_spec p fuel (n + 1) prime (by omega) (by omega) (by omega) (by omega)
    refine ⟨size, found, ⟨primeSize, by omega⟩, fun q candidate => ?_⟩
    have oddQ := odd q candidate.1 candidate.2
    have next : n + 1 ≤ q := by
      have := candidate.2
      omega
    exact least ⟨candidate.1, next⟩
  · rw [if_neg even]
    exact primeFrom_spec prime bound (by omega) (by omega) (by omega)

/-- The size of a table whose slots and indexes fit a word. -/
structure WalkSize (size : Nat) : Prop where
  prime : size.Prime
  small : size < unassigned

theorem WalkSize.word {size : Nat} (fits : WalkSize size) : word size = size :=
  Nat.mod_eq_of_lt (Nat.lt_of_lt_of_le fits.small (by decide))

theorem WalkSize.advance {size skip c : Nat} (fits : WalkSize size) (narrow : size ≤ 2 ^ 31)
    (skips : skip ≤ size) (inside : c < size) : advance size skip c = (c + skip) % size := by
  rw [Balancer.advance, fits.word, Nat.mod_eq_of_lt (show c + skip < 2 ^ 32 by omega)]

theorem exists_walk {size skip : Nat} (prime : size.Prime) (positive : 0 < skip)
    (short : skip < size) (c target : Nat) (inside : target < size) :
    ∃ k < size, (c + k * skip) % size = target := by
  have coprime := (Nat.coprime_of_lt_prime positive.ne' short prime).symm
  obtain ⟨inverse, -, unit⟩ := Nat.exists_mul_mod_eq_one_of_coprime coprime prime.one_lt
  refine ⟨(target + (size - c % size)) * inverse % size, Nat.mod_lt _ prime.pos, ?_⟩
  have back : c % size + (target + (size - c % size)) = target + size := by
    have := Nat.mod_lt c prime.pos
    omega
  have unit' : skip * inverse ≡ 1 [MOD size] := by
    rw [Nat.ModEq, unit, Nat.mod_eq_of_lt prime.one_lt]
  have rounds : (target + (size - c % size)) * inverse % size * skip ≡
      target + (size - c % size) [MOD size] := by
    calc (target + (size - c % size)) * inverse % size * skip
        ≡ (target + (size - c % size)) * inverse * skip [MOD size] :=
          (Nat.mod_modEq _ _).mul_right _
      _ = (target + (size - c % size)) * (skip * inverse) := by
          rw [Nat.mul_assoc, Nat.mul_comm inverse skip]
      _ ≡ (target + (size - c % size)) * 1 [MOD size] := unit'.mul_left _
      _ = target + (size - c % size) := Nat.mul_one _
  have whole : c + (target + (size - c % size)) * inverse % size * skip ≡ target [MOD size] := by
    calc c + (target + (size - c % size)) * inverse % size * skip
        ≡ c % size + (target + (size - c % size)) [MOD size] :=
          (Nat.mod_modEq c size).symm.add rounds
      _ = target + size := back
      _ ≡ target [MOD size] := Nat.add_mod_right target size
  exact Eq.trans whole (Nat.mod_eq_of_lt inside)

theorem probe_spec {size skip : Nat} {table : List Nat} (fits : WalkSize size)
    (narrow : size ≤ 2 ^ 31) (skips : skip ≤ size) {k fuel c : Nat} (inside : c < size)
    (free : table[(c + k * skip) % size]? = some unassigned) (enough : k < fuel) :
    ∃ slot, probe table size skip fuel c = some slot ∧ slot < size ∧
      table[slot]? = some unassigned := by
  induction fuel generalizing k c with
  | zero => exact absurd enough (Nat.not_lt_zero k)
  | succ fuel ih =>
    unfold probe
    by_cases here : table[c]? = some unassigned
    · exact ⟨c, if_pos here, inside, here⟩
    · rw [if_neg here, fits.advance narrow skips inside]
      cases k with
      | zero =>
        rw [Nat.zero_mul, Nat.add_zero, Nat.mod_eq_of_lt inside] at free
        exact absurd free here
      | succ k =>
        refine ih (Nat.mod_lt _ fits.prime.pos) ?_ (Nat.lt_of_succ_lt_succ enough)
        rw [Nat.mod_add_mod, Nat.add_assoc, Nat.add_comm skip, ← Nat.succ_mul]
        exact free

/-- What the loops ask of the entries: walks within the table, and indexes that are no greater than
the entries' own. -/
structure WellFormed (size : Nat) (entries : List Entry) : Prop where
  nonempty : 0 < entries.length
  skips : ∀ e ∈ entries, 0 < e.skip ∧ e.skip < size
  inside : ∀ e ∈ entries, e.cur < size
  indexes : ∀ (j : Nat) (e : Entry), entries[j]? = some e → e.backendIdx ≤ j

/-- What every placement keeps. -/
structure Filled (size : Nat) (entries : List Entry) (s : Filling) : Prop where
  length : s.table.length = size
  count : s.taken.length = s.filled
  most : s.filled ≤ size
  distinct : (s.taken.map Prod.snd).Nodup
  inside : ∀ t ∈ s.taken, t.2 < size
  free : ∀ c < size, c ∉ s.taken.map Prod.snd → s.table[c]? = some unassigned
  owned : ∀ t ∈ s.taken, ∃ e, entries[t.1]? = some e ∧ s.table[t.2]? = some e.backendIdx
  order : s.taken.map Prod.fst = ((range s.filled).map (· % entries.length)).reverse
  entryCount : s.entries.length = entries.length
  entry : ∀ (j : Nat) (e : Entry), s.entries[j]? = some e → ∃ e', entries[j]? = some e' ∧
    e.backendIdx = e'.backendIdx ∧ e.skip = e'.skip ∧ e.cur < size

section

variable {size : Nat} {entries : List Entry}

theorem filled_start (wf : WellFormed size entries) :
    Filled size entries ⟨replicate size unassigned, entries, 0, []⟩ where
  length := length_replicate
  count := rfl
  most := Nat.zero_le _
  distinct := nodup_nil
  inside _ mem := nomatch mem
  free _ small _ := getElem?_replicate_of_lt small
  owned _ mem := nomatch mem
  order := rfl
  entryCount := rfl
  entry _ e here := ⟨e, here, rfl, rfl, wf.inside e (mem_of_getElem? here)⟩

theorem Filled.exists_free {s : Filling} (filled : Filled size entries s) (more : s.filled < size) :
    ∃ c < size, c ∉ s.taken.map Prod.snd := by
  by_contra none
  have all : range size ⊆ s.taken.map Prod.snd := by
    intro c mem
    by_contra missing
    exact none ⟨c, mem_range.mp mem, missing⟩
  have fits := List.Nodup.length_le_of_subset nodup_range all
  rw [length_range, length_map, filled.count] at fits
  omega

theorem Filled.owner_lt {s : Filling}
    (filled : Filled size entries s) {t : Nat × Nat} (mem : t ∈ s.taken) : t.1 < size := by
  have known := mem_map_of_mem (f := Prod.fst) mem
  rw [filled.order, mem_reverse] at known
  obtain ⟨k, before, turn⟩ := mem_map.mp known
  have := mem_range.mp before
  have := Nat.mod_le k entries.length
  have := filled.most
  omega

end

theorem WellFormed.assigned {size j : Nat} {entries : List Entry} {e : Entry}
    (wf : WellFormed size entries) (fits : WalkSize size) (here : entries[j]? = some e)
    (small : j < size) : e.backendIdx ≠ unassigned := by
  have := wf.indexes j e here
  have := fits.small
  omega

theorem Filled.placed {size slot : Nat} {entries : List Entry} {s : Filling} {e : Entry}
    (fits : WalkSize size) (wf : WellFormed size entries) (filled : Filled size entries s)
    (more : s.filled < size) (here : s.entries[s.filled % entries.length]? = some e)
    (inTable : slot < size) (isFree : s.table[slot]? = some unassigned) :
    Filled size entries ⟨s.table.set slot e.backendIdx,
      s.entries.set (s.filled % entries.length) { e with cur := advance size e.skip slot },
      s.filled + 1, (s.filled % entries.length, slot) :: s.taken⟩ := by
  obtain ⟨e', original, sameIdx, sameSkip, inside⟩ := filled.entry _ e here
  have unowned : slot ∉ s.taken.map Prod.snd := by
    intro mem
    obtain ⟨t, taken, rfl⟩ := mem_map.mp mem
    obtain ⟨owner, which, value⟩ := filled.owned t taken
    rw [isFree] at value
    exact wf.assigned fits which (filled.owner_lt taken) (Option.some.inj value).symm
  have slotLength : slot < s.table.length := by
    rw [filled.length]
    exact inTable
  refine ⟨?_, ?_, more, ?_, ?_, ?_, ?_, ?_, ?_, ?_⟩
  · rw [length_set]
    exact filled.length
  · exact congrArg Nat.succ filled.count
  · exact nodup_cons.mpr ⟨unowned, filled.distinct⟩
  · intro t mem
    rcases mem_cons.mp mem with rfl | before
    · exact inTable
    · exact filled.inside t before
  · intro c small notTaken
    obtain ⟨other, before⟩ := not_or.mp fun either => notTaken (mem_cons.mpr either)
    rw [getElem?_set_ne (Ne.symm other)]
    exact filled.free c small before
  · intro t mem
    rcases mem_cons.mp mem with rfl | before
    · refine ⟨e', original, ?_⟩
      rw [getElem?_set_self slotLength, sameIdx]
    · obtain ⟨owner, which, value⟩ := filled.owned t before
      have other : slot ≠ t.2 := fun same => unowned (same ▸ mem_map_of_mem before)
      refine ⟨owner, which, ?_⟩
      rw [getElem?_set_ne other]
      exact value
  · rw [range_succ, map_append, reverse_append, map_cons, filled.order]
    rfl
  · rw [length_set]
    exact filled.entryCount
  · intro j f there
    by_cases same : s.filled % entries.length = j
    · subst same
      obtain ⟨bound, -⟩ := List.getElem?_eq_some_iff.mp here
      rw [List.getElem?_set_self bound] at there
      cases there
      refine ⟨e', original, sameIdx, sameSkip, ?_⟩
      rw [advance, fits.word]
      exact Nat.mod_lt _ fits.prime.pos
    · rw [getElem?_set_ne same] at there
      exact filled.entry j f there

theorem place_filled {size fuel : Nat} {entries : List Entry} {s : Filling} (fits : WalkSize size)
    (narrow : size ≤ 2 ^ 31) (wf : WellFormed size entries) (enough : size ≤ fuel)
    (filled : Filled size entries s) (more : s.filled < size) :
    ∃ s', place fuel size s (s.filled % entries.length) = some s' ∧ Filled size entries s' ∧
      s'.filled = s.filled + 1 := by
  have turn : s.filled % entries.length < s.entries.length := by
    rw [filled.entryCount]
    exact Nat.mod_lt _ wf.nonempty
  obtain ⟨e, here⟩ : ∃ e, s.entries[s.filled % entries.length]? = some e :=
    ⟨_, getElem?_eq_getElem turn⟩
  obtain ⟨e', original, -, sameSkip, inside⟩ := filled.entry _ e here
  obtain ⟨positive, short⟩ := wf.skips e' (mem_of_getElem? original)
  obtain ⟨c, small, free⟩ := filled.exists_free more
  obtain ⟨k, rounds, walk⟩ := exists_walk fits.prime (show 0 < e.skip by omega)
    (show e.skip < size by omega) e.cur c small
  have reaches : s.table[(e.cur + k * e.skip) % size]? = some unassigned := by
    rw [walk]
    exact filled.free c small free
  obtain ⟨slot, found, inTable, isFree⟩ :=
    probe_spec fits narrow (show e.skip ≤ size by omega) inside reaches (show k < fuel by omega)
  refine ⟨_, ?_, filled.placed fits wf more here inTable isFree, rfl⟩
  rw [place, here]
  dsimp only [Option.bind_eq_bind, Option.bind_some]
  rw [found]
  rfl

theorem turn_index {filled left n : Nat} (few : left < n) (turn : (filled + (left + 1)) % n = 0) :
    n - (left + 1) = filled % n := by
  have parts := Nat.div_add_mod filled n
  have small := Nat.mod_lt filled (show 0 < n by omega)
  rw [← parts, Nat.add_assoc, Nat.mul_add_mod] at turn
  obtain ⟨q, equal⟩ := Nat.dvd_of_mod_eq_zero turn
  have some : n * 0 < n * q := by omega
  have below : n * q < n * 2 := by omega
  have one : q = 1 := by
    have := Nat.lt_of_mul_lt_mul_left some
    have := Nat.lt_of_mul_lt_mul_left below
    omega
  rw [one] at equal
  omega

theorem fillRound_filled {size fuel left : Nat} {entries : List Entry} {s : Filling}
    (fits : WalkSize size) (narrow : size ≤ 2 ^ 31) (wf : WellFormed size entries)
    (enough : size ≤ fuel) (filled : Filled size entries s) (few : left ≤ entries.length)
    (turn : (s.filled + left) % entries.length = 0) :
    ∃ s', fillRound fuel size entries.length left s = some s' ∧ Filled size entries s' ∧
      (s'.filled = size ∨ s'.filled = s.filled + left) := by
  induction left generalizing s with
  | zero => exact ⟨s, rfl, filled, .inr rfl⟩
  | succ left ih =>
    unfold fillRound
    by_cases more : s.filled < size
    · obtain ⟨s', placed, filled', grown⟩ := place_filled fits narrow wf enough filled more
      rw [if_pos more, turn_index few turn, placed]
      have turn' : (s'.filled + left) % entries.length = 0 := by
        rw [grown, Nat.add_assoc, Nat.add_comm 1]
        exact turn
      obtain ⟨s'', rest, filled'', ends⟩ := ih filled' (Nat.le_of_lt few) turn'
      exact ⟨s'', rest, filled'', by omega⟩
    · rw [if_neg more]
      have := filled.most
      exact ⟨s, rfl, filled, .inl (by omega)⟩

theorem fillRounds_filled {size inner fuel : Nat} {entries : List Entry} {s : Filling}
    (fits : WalkSize size) (narrow : size ≤ 2 ^ 31) (wf : WellFormed size entries)
    (enough : size ≤ inner) (filled : Filled size entries s)
    (turn : s.filled = size ∨ s.filled % entries.length = 0) (rounds : size < fuel + s.filled) :
    ∃ s', fillRounds inner size entries.length fuel s = some s' ∧ Filled size entries s' ∧
      s'.filled = size := by
  induction fuel generalizing s with
  | zero =>
    have := filled.most
    omega
  | succ fuel ih =>
    unfold fillRounds
    by_cases more : s.filled < size
    · have start : (s.filled + entries.length) % entries.length = 0 := by
        rw [Nat.add_mod_right]
        exact turn.resolve_left (by omega)
      obtain ⟨s', round, filled', ends⟩ :=
        fillRound_filled fits narrow wf enough filled (Nat.le_refl _) start
      rw [if_pos more, round]
      have nonempty := wf.nonempty
      refine ih filled' ?_ (by omega)
      rcases ends with full | grown
      · exact .inl full
      · rw [grown]
        exact .inr start
    · rw [if_neg more]
      have := filled.most
      exact ⟨s, rfl, filled, by omega⟩

theorem fillTable_filled {size fuel : Nat} {entries : List Entry} (fits : WalkSize size)
    (narrow : size ≤ 2 ^ 31) (wf : WellFormed size entries) (enough : size < fuel) :
    ∃ s, fillTable fuel size entries = some s ∧ Filled size entries s ∧ s.filled = size :=
  fillRounds_filled fits narrow wf (Nat.le_of_lt enough) (filled_start wf)
    (.inr (Nat.zero_mod _)) enough

theorem Backend.entryCount_pos (b : Backend) : 0 < b.entryCount := by
  unfold Backend.entryCount
  split <;> omega

def ownersFrom : Nat → List Backend → List Nat
  | _, [] => []
  | idx, b :: rest => replicate b.entryCount idx ++ ownersFrom (idx + 1) rest

theorem map_backendIdx (size idx : Nat) (backends : List Backend) :
    (entriesFrom crc32 size idx backends).map Entry.backendIdx =
      (ownersFrom idx backends).map (· % 2 ^ 32) := by
  induction backends generalizing idx with
  | nil => rfl
  | cons b rest ih =>
    rw [entriesFrom, ownersFrom, map_append, map_append, ih, map_map, map_replicate]
    congr 1
    exact eq_replicate_iff.mpr ⟨by rw [length_map, length_range], by
      intro value mem
      obtain ⟨rep, -, rfl⟩ := mem_map.mp mem
      rfl⟩

theorem owner_le {idx j i : Nat} {backends : List Backend}
    (here : (ownersFrom idx backends)[j]? = some i) : i ≤ idx + j := by
  induction backends generalizing idx j with
  | nil => cases here
  | cons b rest ih =>
    have positive := b.entryCount_pos
    unfold ownersFrom at here
    by_cases own : j < b.entryCount
    · rw [getElem?_append_left (by rw [length_replicate]; exact own),
        getElem?_replicate_of_lt own] at here
      cases here
      omega
    · rw [getElem?_append_right (by rw [length_replicate]; omega), length_replicate] at here
      have := ih here
      omega

theorem entriesFrom_walks {size : Nat} (fits : WalkSize size) (idx : Nat) (backends : List Backend) :
    ∀ e ∈ entriesFrom crc32 size idx backends, (0 < e.skip ∧ e.skip < size) ∧ e.cur < size := by
  induction backends generalizing idx with
  | nil => exact fun e mem => nomatch mem
  | cons b rest ih =>
    intro e mem
    rcases mem_append.mp mem with own | later
    · obtain ⟨rep, -, rfl⟩ := mem_map.mp own
      have two := fits.prime.two_le
      dsimp only [entryOf]
      rw [fits.word]
      refine ⟨⟨Nat.succ_pos _, ?_⟩, Nat.mod_lt _ fits.prime.pos⟩
      have := Nat.mod_lt (crc32 (entryKey b.id rep ++ utf8 ":skip".toList)).toNat
        (show 0 < size - 1 by omega)
      omega
    · exact ih (idx + 1) e later

theorem wellFormed_entries {size : Nat} (fits : WalkSize size) {backends : List Backend}
    (some : backends ≠ []) : WellFormed size (entriesFrom crc32 size 0 backends) where
  nonempty := by
    cases backends with
    | nil => exact absurd rfl some
    | cons b rest =>
      have positive := b.entryCount_pos
      rw [entriesFrom, length_append, length_map, length_range]
      omega
  skips e mem := (entriesFrom_walks crc32 fits 0 backends e mem).1
  inside e mem := (entriesFrom_walks crc32 fits 0 backends e mem).2
  indexes j e here := by
    have mapped := congrArg (·[j]?) (map_backendIdx crc32 size 0 backends)
    rw [getElem?_map, getElem?_map, here] at mapped
    obtain ⟨owner, which, value⟩ := Option.map_eq_some_iff.mp mapped.symm
    have small := owner_le which
    rw [← value]
    exact Nat.le_trans (Nat.mod_le _ _) (by omega)

end Unheaded.Balancer
