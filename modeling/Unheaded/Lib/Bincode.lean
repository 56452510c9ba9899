import Unheaded.Lib.Endian

/-!
# Variable-length integers and length-prefixed bytes

The binary encoding of serialised records with the standard configuration of
bincode: an integer below 251 is one byte, a larger one a marker and its
little-endian bytes; a sequence is its length and its elements; an option is a
tag and its value.
-/

namespace Unheaded.Lib

open List Option

/-- The first `n` elements and the rest, or nothing where there are fewer. -/
def readExact {α : Type} (n : Nat) (input : List α) : Option (List α × List α) :=
  if n ≤ input.length then some (input.take n, input.drop n) else none

theorem readExact_append {α : Type} {n : Nat} (front rest : List α) (size : front.length = n) :
    readExact n (front ++ rest) = some (front, rest) := by
  rw [readExact, if_pos (by rw [length_append]; omega), take_left' size, drop_left' size]

theorem readExact_eq_some {α : Type} {n : Nat} {input front rest : List α}
    (read : readExact n input = some (front, rest)) : input = front ++ rest ∧ front.length = n := by
  unfold readExact at read
  split at read
  · next inside =>
      cases read
      exact ⟨(take_append_drop n input).symm, length_take_of_le inside⟩
  · cases read

theorem readExact_eq_none {α : Type} {n : Nat} {input : List α} (short : input.length < n) :
    readExact n input = none := by
  rw [readExact, if_neg (by omega)]

/-- How values are written, and a reader that takes them off the front again. -/
structure Format (α : Type) where
  encode : α → List (BitVec 8)
  read : List (BitVec 8) → Option (α × List (BitVec 8))
  back : ∀ a rest, read (encode a ++ rest) = some (a, rest)

namespace Format

/-- One value after another. -/
def pair {α β : Type} (f : Format α) (g : Format β) : Format (α × β) where
  encode p := f.encode p.1 ++ g.encode p.2
  read input := (f.read input).bind fun p => (g.read p.2).map fun q => ((p.1, q.1), q.2)
  back := by
    rintro ⟨a, b⟩ rest
    rw [List.append_assoc, f.back, bind_some, g.back, map_some]

/-- A value that is written as another one. -/
def iso {α β : Type} (f : Format α) (out : β → α) (back : α → β)
    (inverse : ∀ b, back (out b) = b) : Format β where
  encode b := f.encode (out b)
  read input := (f.read input).map fun p => (back p.1, p.2)
  back b rest := by rw [f.back, map_some, inverse]

/-- A tag byte, and the value where there is one. -/
def option {α : Type} (f : Format α) : Format (Option α) where
  encode
    | none => [0]
    | some a => 1 :: f.encode a
  read
    | [] => none
    | b :: input =>
      if b = 0 then some (none, input)
      else if b = 1 then (f.read input).map fun p => (some p.1, p.2)
      else none
  back
    | none, rest => rfl
    | some a, rest => by
      change (f.read (f.encode a ++ rest)).map (fun p => (some p.1, p.2)) = some (some a, rest)
      rw [f.back, map_some]

/-- A fixed number of bytes. -/
def fixed (n : Nat) : Format { l : List (BitVec 8) // l.length = n } where
  encode l := l.1
  read input :=
    if size : (input.take n).length = n then some (⟨input.take n, size⟩, input.drop n) else none
  back l rest := by
    have front : (l.1 ++ rest).take n = l.1 := take_left' l.2
    rw [dif_pos (by rw [front]; exact l.2), drop_left' l.2]
    simp only [front]

theorem read_encode {α : Type} (f : Format α) (a : α) :
    (f.read (f.encode a)).map Prod.fst = some a := by
  have whole := f.back a []
  rw [append_nil] at whole
  rw [whole, map_some]

end Format

def readUnary : List (BitVec 8) → Option (Nat × List (BitVec 8))
  | [] => none
  | b :: input => if b = 0 then some (0, input) else (readUnary input).map fun p => (p.1 + 1, p.2)

theorem readUnary_replicate (n : Nat) (rest : List (BitVec 8)) :
    readUnary (replicate n 1 ++ 0 :: rest) = some (n, rest) := by
  induction n with
  | zero => rfl
  | succ n ih =>
    rw [List.replicate_succ, List.cons_append, readUnary, if_neg (by decide), ih, map_some]

namespace Bincode

/-- A number of at most 64 bits.  Larger ones do not occur; they are written in
unary, so that every number has an encoding. -/
def varint (n : Nat) : List (BitVec 8) :=
  if n < 251 then [BitVec.ofNat 8 n]
  else if n < 2 ^ 16 then 251 :: leBytes 2 n
  else if n < 2 ^ 32 then 252 :: leBytes 4 n
  else if n < 2 ^ 64 then 253 :: leBytes 8 n
  else 255 :: (replicate n 1 ++ [0])

def readFixed (k : Nat) (input : List (BitVec 8)) : Option (Nat × List (BitVec 8)) :=
  (readExact k input).map fun p => (leValue p.1, p.2)

def readVarint : List (BitVec 8) → Option (Nat × List (BitVec 8))
  | [] => none
  | b :: input =>
    if b.toNat < 251 then some (b.toNat, input)
    else if b = 251 then readFixed 2 input
    else if b = 252 then readFixed 4 input
    else if b = 253 then readFixed 8 input
    else if b = 255 then readUnary input
    else none

theorem readFixed_leBytes {k n : Nat} (small : n < 256 ^ k) (rest : List (BitVec 8)) :
    readFixed k (leBytes k n ++ rest) = some (n, rest) := by
  rw [readFixed, readExact_append _ _ (length_leBytes k n), map_some, leValue_leBytes,
    Nat.mod_eq_of_lt small]

theorem readVarint_varint (n : Nat) (rest : List (BitVec 8)) :
    readVarint (varint n ++ rest) = some (n, rest) := by
  unfold varint
  split
  · next one =>
      have byte : (BitVec.ofNat 8 n).toNat = n := by
        exact Nat.mod_eq_of_lt (by omega)
      rw [singleton_append, readVarint, byte, if_pos one]
  · split
    · next two => exact readFixed_leBytes (k := 2) two rest
    · split
      · next four => exact readFixed_leBytes (k := 4) four rest
      · split
        · next eight => exact readFixed_leBytes (k := 8) eight rest
        · have unary := readUnary_replicate n rest
          rw [List.cons_append, List.append_assoc]
          exact unary

def nat : Format Nat := ⟨varint, readVarint, readVarint_varint⟩

def word (w : Nat) : Format (BitVec w) :=
  nat.iso BitVec.toNat (BitVec.ofNat w) fun x => by rw [BitVec.ofNat_toNat, BitVec.setWidth_eq]

/-- The elements of a sequence, one after the other. -/
def readElements {α : Type} (f : Format α) : Nat → List (BitVec 8) → Option (List α × List (BitVec 8))
  | 0, input => some ([], input)
  | n + 1, input =>
    (f.read input).bind fun p => (readElements f n p.2).map fun q => (p.1 :: q.1, q.2)

theorem readElements_flatMap {α : Type} (f : Format α) (l : List α) (rest : List (BitVec 8)) :
    readElements f l.length (l.flatMap f.encode ++ rest) = some (l, rest) := by
  induction l with
  | nil => rfl
  | cons a l ih =>
    rw [length_cons, readElements, flatMap_cons, List.append_assoc, f.back, bind_some, ih, map_some]

/-- A sequence: its length and its elements. -/
def list {α : Type} (f : Format α) : Format (List α) where
  encode l := varint l.length ++ l.flatMap f.encode
  read input := (readVarint input).bind fun p => readElements f p.1 p.2
  back l rest := by
    rw [List.append_assoc, readVarint_varint, bind_some, readElements_flatMap]

def byte : Format (BitVec 8) where
  encode b := [b]
  read
    | [] => none
    | b :: input => some (b, input)
  back _ _ := rfl

def bytes : Format (List (BitVec 8)) := list byte

theorem length_encode_bytes (l : List (BitVec 8)) :
    (bytes.encode l).length = (varint l.length).length + l.length := by
  have same : l.flatMap byte.encode = l := by
    induction l with
    | nil => rfl
    | cons b l ih =>
      rw [flatMap_cons, ih]
      rfl
  change (varint l.length ++ l.flatMap byte.encode).length = _
  rw [length_append, same]

end Bincode

end Unheaded.Lib
