import Mathlib.Data.List.Basic
import Mathlib.Data.List.TakeDrop

/-!
# Files with one offset, and buffers over them

A file has one offset, which its reads and its writes share.
-/

namespace Unheaded.Lib

open List

/-- An open file. -/
structure File (α : Type _) where
  content : List α
  offset : Nat
  within : offset ≤ content.length

namespace File

variable {α : Type _}

def empty : File α := ⟨[], 0, Nat.le_refl 0⟩

def start (content : List α) : File α := ⟨content, 0, Nat.zero_le _⟩

variable (f : File α)

def seekEnd : File α := ⟨f.content, f.content.length, Nat.le_refl _⟩

def AtEnd : Prop := f.offset = f.content.length

instance (f : File α) : Decidable f.AtEnd := inferInstanceAs (Decidable (_ = _))

def rest : List α := f.content.drop f.offset

/-- Read at most `n` elements. -/
def read (n : Nat) : List α × File α :=
  (f.rest.take n, ⟨f.content, min (f.offset + n) f.content.length, Nat.min_le_right _ _⟩)

/-- Write over what stands at the offset. -/
def write (data : List α) : File α where
  content := f.content.take f.offset ++ data ++ f.content.drop (f.offset + data.length)
  offset := f.offset + data.length
  within := by
    have inside := f.within
    simp only [length_append, length_take, length_drop]
    omega

theorem rest_start (content : List α) : (start content).rest = content := drop_zero

theorem atEnd_iff_rest : f.AtEnd ↔ f.rest = [] := by
  have inside := f.within
  rw [rest, drop_eq_nil_iff]
  constructor
  · intro same
    exact Nat.le_of_eq same.symm
  · intro reached
    exact Nat.le_antisymm inside reached

theorem rest_read (n : Nat) : (f.read n).2.rest = f.rest.drop n := by
  change f.content.drop (min (f.offset + n) f.content.length) = (f.content.drop f.offset).drop n
  rw [drop_drop]
  by_cases short : f.offset + n ≤ f.content.length
  · rw [Nat.min_eq_left short]
  · have long : f.content.length ≤ f.offset + n := Nat.le_of_lt (Nat.not_le.mp short)
    rw [Nat.min_eq_right long, drop_length, drop_of_length_le long]

theorem length_write (data : List α) :
    (f.write data).content.length = max f.content.length (f.offset + data.length) := by
  have inside := f.within
  unfold write
  simp only [length_append, length_take, length_drop]
  omega

theorem ext_of {f g : File α} (content : f.content = g.content) (offset : f.offset = g.offset) :
    f = g := by
  cases f
  cases g
  cases content
  cases offset
  rfl

@[simp] theorem write_nil : f.write [] = f := by
  refine ext_of ?_ rfl
  change f.content.take f.offset ++ [] ++ f.content.drop (f.offset + 0) = f.content
  rw [append_nil, Nat.add_zero, take_append_drop]

theorem write_append (first second : List α) :
    f.write (first ++ second) = (f.write first).write second := by
  have inside := f.within
  have head : (f.content.take f.offset ++ first).length = f.offset + first.length := by
    rw [length_append, length_take, Nat.min_eq_left inside]
  have beyond : (f.content.take f.offset ++ first ++ f.content.drop (f.offset + first.length)).drop
      (f.offset + first.length + second.length) =
        f.content.drop (f.offset + (first ++ second).length) := by
    rw [drop_append, drop_of_length_le (by rw [head]; exact Nat.le_add_right _ _),
      nil_append, drop_drop, head, length_append]
    congr 1
    omega
  refine ext_of ?_ ?_
  · change f.content.take f.offset ++ (first ++ second) ++ _ =
      ((f.content.take f.offset ++ first ++ f.content.drop (f.offset + first.length)).take
        (f.offset + first.length)) ++ second ++ _
    rw [take_left' head, List.append_assoc _ first second]
    exact congrArg (_ ++ ·) beyond.symm
  · change f.offset + (first ++ second).length = f.offset + first.length + second.length
    rw [length_append, Nat.add_assoc]

theorem write_atEnd {f : File α} (atEnd : f.AtEnd) (data : List α) :
    (f.write data).content = f.content ++ data ∧ (f.write data).AtEnd := by
  have here : f.offset = f.content.length := atEnd
  have all : (f.write data).content = f.content ++ data := by
    change f.content.take f.offset ++ data ++ f.content.drop (f.offset + data.length) = _
    rw [here, take_length, drop_of_length_le (Nat.le_add_right _ _), append_nil]
  refine ⟨all, ?_⟩
  change f.offset + data.length = (f.write data).content.length
  rw [all, length_append, here]

theorem atEnd_of_write {f : File α} {data : List α} (some : data ≠ [])
    (appended : (f.write data).content = f.content ++ data) : f.AtEnd := by
  have lengths := congrArg List.length appended
  have pos := length_pos_iff.mpr some
  rw [length_write, length_append] at lengths
  change f.offset = f.content.length
  omega

end File

/-- A buffered reader: the file, and what has been read and not handed out. -/
structure Reader (α : Type _) where
  file : File α
  buffered : List α

namespace Reader

variable {α : Type _}

def pending (r : Reader α) : List α := r.buffered ++ r.file.rest

theorem pending_start (content : List α) : (⟨.start content, []⟩ : Reader α).pending = content :=
  File.rest_start content

def content (r : Reader α) : List α := r.file.content

/-- Read a block of `size`, when nothing is buffered. -/
def fill (size : Nat) (r : Reader α) : Reader α :=
  match r.buffered with
  | [] => ⟨(r.file.read size).2, (r.file.read size).1⟩
  | _ :: _ => r

variable (size n : Nat)

/-- One call: a part of what is buffered, or, for a large read, what the file
gives directly. -/
def read (r : Reader α) : List α × Reader α :=
  if r.buffered.isEmpty ∧ size ≤ n then ((r.file.read n).1, ⟨(r.file.read n).2, []⟩)
  else ((r.fill size).buffered.take n, ⟨(r.fill size).file, (r.fill size).buffered.drop n⟩)

/-- Calls of `read` until `n` elements are there or the file ends. -/
def readCalls (size : Nat) : Nat → Nat → Reader α → List α × Reader α
  | 0, _, r => ([], r)
  | calls + 1, n, r =>
    if n = 0 then ([], r)
    else
      match r.read size n with
      | ([], r) => ([], r)
      | (x :: xs, r) =>
        let (more, r) := readCalls size calls (n - (x :: xs).length) r
        (x :: xs ++ more, r)

/-- Read `n` elements, or fewer at the end of the file. -/
def readFull (r : Reader α) : List α × Reader α := r.readCalls size n n

/-- Blocks are read and dropped until `n` elements are gone or the file ends. -/
def discardBlocks (size : Nat) : Nat → Nat → Reader α → Nat × Reader α
  | 0, _, r => (0, r)
  | blocks + 1, n, r =>
    if n = 0 then (0, r)
    else
      let r := r.fill size
      let skip := min r.buffered.length n
      if skip = 0 then (0, r)
      else
        let (more, r) := discardBlocks size blocks (n - skip) ⟨r.file, r.buffered.drop skip⟩
        (skip + more, r)

/-- Drop `n` elements, or fewer at the end of the file; the count is returned. -/
def discard (r : Reader α) : Nat × Reader α := r.discardBlocks size n n

variable {n size : Nat}

section

variable (pos : 0 < size)
include pos

theorem fill_spec (r : Reader α) :
    (r.fill size).pending = r.pending ∧ (r.fill size).content = r.content ∧
      ((r.fill size).buffered = [] → r.pending = []) := by
  obtain ⟨file, buffered⟩ := r
  cases buffered with
  | nil =>
    refine ⟨?_, rfl, ?_⟩
    · change file.rest.take size ++ (file.read size).2.rest = file.rest
      rw [File.rest_read, take_append_drop]
    · intro none
      have nothing : file.rest.take size = [] := none
      rcases take_eq_nil_iff.mp nothing with zero | ended
      · exact absurd zero (Nat.pos_iff_ne_zero.mp pos)
      · exact ended
  | cons x xs => exact ⟨rfl, rfl, fun none => by cases none⟩

theorem read_spec (wanted : 0 < n) (r : Reader α) :
    r.pending = (r.read size n).1 ++ (r.read size n).2.pending ∧ (r.read size n).1.length ≤ n ∧
      (r.read size n).2.content = r.content ∧ ((r.read size n).1 = [] → r.pending = []) := by
  unfold read
  split
  · next direct =>
    obtain ⟨file, buffered⟩ := r
    have none : buffered = [] := List.isEmpty_iff.mp direct.1
    subst none
    refine ⟨?_, length_take_le _ _, rfl, ?_⟩
    · change file.rest = file.rest.take n ++ (file.read n).2.rest
      rw [File.rest_read, take_append_drop]
    · intro nothing
      rcases take_eq_nil_iff.mp nothing with zero | ended
      · exact absurd zero (Nat.pos_iff_ne_zero.mp wanted)
      · exact ended
  · obtain ⟨pending, content, ended⟩ := fill_spec pos r
    refine ⟨?_, length_take_le _ _, content, ?_⟩
    · rw [← pending]
      change (r.fill size).buffered ++ _ = _ ++ ((r.fill size).buffered.drop n ++ _)
      rw [← List.append_assoc, take_append_drop]
    · intro nothing
      rcases take_eq_nil_iff.mp nothing with zero | none
      · exact absurd zero (Nat.pos_iff_ne_zero.mp wanted)
      · exact ended none

theorem readCalls_spec {calls : Nat} (enough : n ≤ calls) (r : Reader α) :
    (r.readCalls size calls n).1 = r.pending.take n ∧
      (r.readCalls size calls n).2.pending = r.pending.drop n ∧
      (r.readCalls size calls n).2.content = r.content := by
  induction calls generalizing n r with
  | zero =>
    have none : n = 0 := Nat.le_zero.mp enough
    subst none
    exact ⟨rfl, rfl, rfl⟩
  | succ calls ih =>
    rw [readCalls]
    split
    · next none =>
      subst none
      exact ⟨rfl, rfl, rfl⟩
    · next some =>
      obtain ⟨split, length, content, ended⟩ := read_spec pos (Nat.pos_of_ne_zero some) r
      generalize r.read size n = result at split length content ended
      obtain ⟨chunk, r'⟩ := result
      cases chunk with
      | nil =>
        have reached := ended rfl
        rw [reached] at split ⊢
        exact ⟨take_nil.symm, by rw [drop_nil]; exact split.symm, content⟩
      | cons x xs =>
        have fewer : n - (x :: xs).length ≤ calls := by
          rw [length_cons]
          omega
        obtain ⟨got, left, same⟩ := ih fewer r'
        refine ⟨?_, ?_, same.trans content⟩
        · rw [split, take_append, take_of_length_le length, ← got]
        · rw [split, drop_append, drop_of_length_le length]
          exact left

theorem readFull_spec (n : Nat) (r : Reader α) :
    (r.readFull size n).1 = r.pending.take n ∧ (r.readFull size n).2.pending = r.pending.drop n ∧
      (r.readFull size n).2.content = r.content :=
  readCalls_spec pos (Nat.le_refl n) r

theorem discardBlocks_spec {blocks : Nat} (enough : n ≤ blocks) (r : Reader α) :
    (r.discardBlocks size blocks n).1 = min n r.pending.length ∧
      (r.discardBlocks size blocks n).2.pending = r.pending.drop n ∧
      (r.discardBlocks size blocks n).2.content = r.content := by
  induction blocks generalizing n r with
  | zero =>
    have none : n = 0 := Nat.le_zero.mp enough
    subst none
    exact ⟨(Nat.zero_min _).symm, rfl, rfl⟩
  | succ blocks ih =>
    rw [discardBlocks]
    split
    · next none =>
      subst none
      exact ⟨(Nat.zero_min _).symm, rfl, rfl⟩
    · next some =>
      obtain ⟨pending, content, ended⟩ := fill_spec pos r
      dsimp only
      generalize r.fill size = t at pending content ended ⊢
      split
      · next nothing =>
        have none : t.buffered = [] := by
          have zero : t.buffered.length = 0 := by omega
          exact length_eq_zero_iff.mp zero
        rw [ended none] at pending ⊢
        exact ⟨(Nat.min_zero _).symm, by rw [drop_nil]; exact pending, content⟩
      · next skipped =>
        have length : t.pending.length = t.buffered.length + t.file.rest.length := length_append
        have head : min t.buffered.length n ≤ t.buffered.length := Nat.min_le_left _ _
        have later : (⟨t.file, t.buffered.drop (min t.buffered.length n)⟩ : Reader α).pending =
            t.pending.drop (min t.buffered.length n) := by
          change _ ++ t.file.rest = (t.buffered ++ t.file.rest).drop _
          rw [drop_append_of_le_length head]
        obtain ⟨count, left, same⟩ := ih (n := n - min t.buffered.length n) (by omega)
          ⟨t.file, t.buffered.drop (min t.buffered.length n)⟩
        rw [later] at count left
        rw [← pending]
        refine ⟨?_, ?_, same.trans content⟩
        · rw [count, length_drop]
          omega
        · rw [left, drop_drop]
          congr 1
          omega

theorem discard_spec (n : Nat) (r : Reader α) : (r.discard size n).1 = min n r.pending.length ∧
      (r.discard size n).2.pending = r.pending.drop n ∧ (r.discard size n).2.content = r.content :=
  discardBlocks_spec pos (Nat.le_refl n) r

end

theorem atEnd_of_pending {r : Reader α} (none : r.pending = []) : r.file.AtEnd :=
  r.file.atEnd_iff_rest.mpr (append_eq_nil_iff.mp none).2

end Reader

/-- A buffered writer: the file, and what has not been written to it. -/
structure Writer (α : Type _) where
  file : File α
  buffered : List α

namespace Writer

variable {α : Type _}

variable (w : Writer α)

def flushed : File α := w.file.write w.buffered

/-- Write through a buffer of `size`: what does not fit fills the buffer, which
is flushed, and a rest that is larger than the buffer goes to the file. -/
def write (size : Nat) (w : Writer α) (data : List α) : Writer α :=
  let room := size - w.buffered.length
  if data.length ≤ room then ⟨w.file, w.buffered ++ data⟩
  else if w.buffered.isEmpty then ⟨w.file.write data, []⟩
  else
    let file := w.file.write (w.buffered ++ data.take room)
    if (data.drop room).length ≤ size then ⟨file, data.drop room⟩
    else ⟨file.write (data.drop room), []⟩

theorem flushed_write (size : Nat) (w : Writer α) (data : List α) :
    (w.write size data).flushed = w.flushed.write data := by
  obtain ⟨file, buffered⟩ := w
  unfold write
  dsimp only
  split
  · exact File.write_append file buffered data
  · split
    · next empty =>
      have none : buffered = [] := List.isEmpty_iff.mp empty
      subst none
      change (file.write data).write [] = (file.write []).write data
      rw [File.write_nil, File.write_nil]
    · have parts : (file.write buffered).write data = (file.write (buffered ++
          data.take (size - buffered.length))).write (data.drop (size - buffered.length)) := by
        rw [← File.write_append, ← File.write_append, List.append_assoc, take_append_drop]
      change _ = (file.write buffered).write data
      rw [parts]
      split
      · rfl
      · exact File.write_nil _

end Writer

end Unheaded.Lib
