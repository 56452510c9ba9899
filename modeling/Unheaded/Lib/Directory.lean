import Mathlib.Data.List.Nodup
import Unheaded.Lib.Text

/-!
# Files in the order of their names

A directory is a list of names with what stands under them. A path is cleaned as `path.Clean` does.
-/

namespace Unheaded.Lib

open List

section Sorted

variable {α κ : Type} [LE κ] [DecidableLE κ]

variable (key : α → κ)

def sortBy (l : List α) : List α := l.mergeSort fun a b => decide (key a ≤ key b)

theorem perm_sortBy (l : List α) : (sortBy key l).Perm l := mergeSort_perm l _

theorem pairwise_sortBy [Std.IsLinearOrder κ] (l : List α) :
    (sortBy key l).Pairwise fun a b => key a ≤ key b := by
  have sorted := @pairwise_mergeSort α (fun a b => decide (key a ≤ key b))
    (fun a b c first second =>
      decide_eq_true (Std.le_trans (of_decide_eq_true first) (of_decide_eq_true second)))
    (fun a b => by
      rcases Std.le_total (a := key a) (b := key b) with first | second
      · rw [decide_eq_true first, Bool.true_or]
      · rw [decide_eq_true second, Bool.or_true]) l
  exact sorted.imp fun held => of_decide_eq_true held

theorem sortBy_eq_of_perm [Std.IsLinearOrder κ] {key : α → κ} {l other : List α}
    (perm : other.Perm l) (distinct : (l.map key).Nodup) : sortBy key other = sortBy key l := by
  have perm' : (sortBy key other).Perm (sortBy key l) :=
    (perm_sortBy key other).trans (perm.trans (perm_sortBy key l).symm)
  refine perm'.eq_of_pairwise (fun a b inOther inList first second => ?_)
    (pairwise_sortBy key other) (pairwise_sortBy key l)
  have a_mem : a ∈ l := perm.mem_iff.mp ((perm_sortBy key other).mem_iff.mp inOther)
  have b_mem : b ∈ l := (perm_sortBy key l).mem_iff.mp inList
  exact inj_on_of_nodup_map distinct a_mem b_mem (Std.le_antisymm first second)

end Sorted

/-- The files of a directory by their names, which are distinct. -/
structure Listed {κ β : Type} [LT κ] (dir files : List (κ × β)) : Prop where
  perm : dir.Perm files
  sorted : files.Pairwise fun a b => a.1 < b.1

section Names

variable {κ β : Type} [LT κ] [LE κ] [Std.LawfulOrderLT κ] {dir files : List (κ × β)}

theorem Listed.distinct (listed : Listed dir files) : (files.map Prod.fst).Nodup := by
  refine pairwise_map.mpr (listed.sorted.imp ?_)
  intro a b below same
  rw [same] at below
  exact Std.lt_irrefl below

theorem Listed.sortBy_eq [DecidableLE κ] [Std.IsLinearOrder κ] (listed : Listed dir files) :
    sortBy Prod.fst dir = files := by
  rw [sortBy_eq_of_perm listed.perm listed.distinct]
  refine (perm_sortBy Prod.fst files).eq_of_pairwise (fun a b inSorted inFiles first second => ?_)
    (pairwise_sortBy Prod.fst files) (listed.sorted.imp fun below => Std.le_of_lt below)
  exact inj_on_of_nodup_map listed.distinct ((perm_sortBy _ _).mem_iff.mp inSorted) inFiles
    (Std.le_antisymm first second)

end Names

section Files

variable {κ β : Type} [DecidableEq κ]

variable (dir : List (κ × β))

def readFile (name : κ) : Option β := dir.lookup name

def writeFile (name : κ) (content : β) : List (κ × β) :=
  (name, content) :: dir.filter fun f => f.1 ≠ name

/-- A file gets another name, in place of one that had it. -/
def renameFile (old new : κ) : List (κ × β) :=
  match readFile dir old with
  | none => dir
  | some content => writeFile (dir.filter fun f => f.1 ≠ old) new content

variable [LT κ] [LE κ] [Std.LawfulOrderLT κ] {dir files older : List (κ × β)} {name new : κ}
  {content other : β}

omit [LT κ] [LE κ] [Std.LawfulOrderLT κ] in
@[simp] theorem readFile_cons_self : readFile ((name, content) :: dir) name = some content := by
  simp [readFile]

omit [LT κ] [LE κ] [Std.LawfulOrderLT κ] in
theorem readFile_cons_ne (differ : new ≠ name) :
    readFile ((new, content) :: dir) name = readFile dir name := by
  have unequal : (name == new) = false := beq_eq_false_iff_ne.mpr (Ne.symm differ)
  rw [readFile, lookup_cons, unequal]
  rfl

omit [LT κ] [LE κ] [Std.LawfulOrderLT κ] in
theorem mem_of_readFile (found : readFile dir name = some content) : (name, content) ∈ dir := by
  obtain ⟨front, back, whole, -⟩ := lookup_eq_some_iff.mp found
  rw [whole]
  exact mem_append_right _ mem_cons_self

omit [LT κ] [LE κ] [Std.LawfulOrderLT κ] in
theorem ne_of_readFile_none (absent : readFile dir name = none) {f : κ × β} (mem : f ∈ dir) :
    f.1 ≠ name := fun same => bne_iff_ne.mp (lookup_eq_none_iff.mp absent f mem) same.symm

theorem Listed.readFile_eq (listed : Listed dir files) (mem : (name, content) ∈ files) :
    readFile dir name = some content := by
  have inside := listed.perm.mem_iff.mpr mem
  have distinct : (dir.map Prod.fst).Nodup := (listed.perm.map _).nodup_iff.mpr listed.distinct
  cases found : readFile dir name with
  | none => exact absurd rfl (ne_of_readFile_none found inside)
  | some value =>
    have same := inj_on_of_nodup_map distinct (mem_of_readFile found) inside rfl
    exact congrArg (fun f : κ × β => some f.2) same

theorem Listed.filter_perm (listed : Listed dir (older ++ [(name, content)])) :
    (dir.filter fun f => f.1 ≠ name).Perm older := by
  have before : ∀ f ∈ older, f.1 ≠ name := fun f mem same =>
    Std.lt_irrefl (same ▸ (pairwise_append.mp listed.sorted).2.2 f mem _ mem_cons_self)
  have kept : older.filter (fun f => decide (f.1 ≠ name)) = older :=
    filter_eq_self.mpr fun f mem => decide_eq_true (before f mem)
  have last : [(name, content)].filter (fun f => decide (f.1 ≠ name)) = [] := by
    rw [filter_eq_nil_iff]
    intro f mem
    rw [mem_singleton.mp mem]
    simp
  have filtered := listed.perm.filter fun f => decide (f.1 ≠ name)
  rwa [filter_append, kept, last, append_nil] at filtered

theorem Listed.write_last (listed : Listed dir files) (last : ∀ f ∈ files, f.1 < name) :
    Listed (writeFile dir name content) (files ++ [(name, content)]) where
  perm := by
    have absent : dir.filter (fun f => decide (f.1 ≠ name)) = dir :=
      filter_eq_self.mpr fun f mem => decide_eq_true fun same =>
        Std.lt_irrefl (same ▸ last f (listed.perm.mem_iff.mp mem))
    rw [writeFile, absent]
    exact (List.Perm.cons _ listed.perm).trans (perm_append_singleton _ _).symm
  sorted := by
    refine pairwise_append.mpr ⟨listed.sorted, pairwise_singleton _ _, ?_⟩
    intro f mem g equal
    rw [mem_singleton.mp equal]
    exact last f mem

theorem Listed.rewrite_last (listed : Listed dir (older ++ [(name, content)])) :
    Listed (writeFile dir name other) (older ++ [(name, other)]) where
  perm := (List.Perm.cons _ listed.filter_perm).trans (perm_append_singleton _ _).symm
  sorted := by
    obtain ⟨before, -, last⟩ := pairwise_append.mp listed.sorted
    refine pairwise_append.mpr ⟨before, pairwise_singleton _ _, fun f mem g equal => ?_⟩
    rw [mem_singleton.mp equal]
    exact last f mem (name, content) mem_cons_self

theorem Listed.rename_last (listed : Listed dir (older ++ [(name, content)]))
    (last : ∀ f ∈ dir, f.1 ≠ name → f.1 < new) :
    Listed (renameFile dir name new) (older ++ [(new, content)]) := by
  have found := listed.readFile_eq (mem_append_right older mem_cons_self)
  have others : Listed (dir.filter fun f => f.1 ≠ name) older :=
    ⟨listed.filter_perm, (pairwise_append.mp listed.sorted).1⟩
  rw [renameFile, found]
  refine others.write_last fun f mem => ?_
  obtain ⟨inside, different⟩ := mem_filter.mp (listed.filter_perm.mem_iff.mpr mem)
  exact last f inside (of_decide_eq_true different)

end Files

/-! ## Lines of a file

A scanner reads a file line by line through a buffer of a fixed size.  It stops for good at
a line that fills the buffer before its end is seen.
-/

def newline : BitVec 8 := 0x0A

def carriageReturn : BitVec 8 := 0x0D

/-- `dropCR`: a line without the carriage return at its end. -/
def dropCR (line : List (BitVec 8)) : List (BitVec 8) :=
  if line.getLast? = some carriageReturn then line.dropLast else line

/-- The lines that a scanner with a buffer of `limit` bytes returns, when `line` has been read of the
first one. -/
def scanFrom (limit : Nat) (line : List (BitVec 8)) : List (BitVec 8) → List (List (BitVec 8))
  | [] => if line = [] then [] else [dropCR line]
  | b :: rest =>
    if b = newline then dropCR line :: scanFrom limit [] rest
    else if limit ≤ line.length + 1 then []
    else scanFrom limit (line ++ [b]) rest

/-- `bufio.Scanner` with the split function `ScanLines`. -/
def scanLines (limit : Nat) (file : List (BitVec 8)) : List (List (BitVec 8)) := scanFrom limit [] file

/-- Whether the scanner stops at a line that fills its buffer. -/
def scanErrFrom (limit : Nat) (line : List (BitVec 8)) : List (BitVec 8) → Bool
  | [] => false
  | b :: rest =>
    if b = newline then scanErrFrom limit [] rest
    else if limit ≤ line.length + 1 then true
    else scanErrFrom limit (line ++ [b]) rest

/-- `bufio.Scanner.Err`, when the lines have been read. -/
def scanErr (limit : Nat) (file : List (BitVec 8)) : Bool := scanErrFrom limit [] file

variable {limit : Nat} {line rest : List (BitVec 8)}

theorem scanFrom_of_noErr {larger : Nat} (noErr : scanErrFrom limit line rest = false)
    (fits : line.length + rest.length < larger) :
    scanFrom limit line rest = scanFrom larger line rest := by
  induction rest generalizing line with
  | nil => rfl
  | cons b rest ih =>
    rw [length_cons] at fits
    unfold scanErrFrom at noErr
    rw [scanFrom, scanFrom]
    by_cases ends : b = newline
    · rw [if_pos ends] at noErr
      rw [if_pos ends, if_pos ends, ih noErr (by rw [length_nil]; omega)]
    · rw [if_neg ends] at noErr
      by_cases full : limit ≤ line.length + 1
      · simp [if_pos full] at noErr
      · rw [if_neg full] at noErr
        rw [if_neg ends, if_neg ends, if_neg full, if_neg (by omega), ih noErr (by
          rw [length_append, length_singleton]; omega)]

def ofLines (lines : List (List (BitVec 8))) : List (BitVec 8) := lines.flatMap fun l => l ++ [newline]

theorem ofLines_cons (line : List (BitVec 8)) (lines : List (List (BitVec 8))) :
    ofLines (line :: lines) = line ++ newline :: ofLines lines := by
  rw [ofLines, flatMap_cons, List.append_assoc]
  rfl

theorem ofLines_append (front back : List (List (BitVec 8))) :
    ofLines (front ++ back) = ofLines front ++ ofLines back := flatMap_append

variable {lines : List (List (BitVec 8))}

theorem ofLines_eq_nil (empty : ofLines lines = []) : lines = [] := by
  cases lines with
  | nil => rfl
  | cons l lines => simp [ofLines] at empty

/-- A text on one line. -/
structure OneLine (line : List (BitVec 8)) : Prop where
  newline : newline ∉ line
  carriageReturn : line.getLast? ≠ some carriageReturn

section

variable (noEnd : newline ∉ rest) (short : line.length + rest.length < limit)
  (more : List (BitVec 8))
include noEnd short more

theorem scanFrom_line :
    scanFrom limit line (rest ++ newline :: more) = dropCR (line ++ rest) :: scanFrom limit [] more := by
  induction rest generalizing line with
  | nil => rw [nil_append, scanFrom, if_pos rfl, append_nil]
  | cons b rest ih =>
    obtain ⟨other, later⟩ := ne_and_not_mem_of_not_mem_cons noEnd
    rw [length_cons] at short
    rw [List.cons_append, scanFrom, if_neg (Ne.symm other), if_neg (by omega), ih later (by
      rw [length_append, length_singleton]; omega), List.append_assoc]
    rfl

theorem scanErrFrom_line :
    scanErrFrom limit line (rest ++ newline :: more) = scanErrFrom limit [] more := by
  induction rest generalizing line with
  | nil => rw [nil_append, scanErrFrom, if_pos rfl]
  | cons b rest ih =>
    obtain ⟨other, later⟩ := ne_and_not_mem_of_not_mem_cons noEnd
    rw [length_cons] at short
    rw [List.cons_append, scanErrFrom, if_neg (Ne.symm other), if_neg (by omega), ih later (by
      rw [length_append, length_singleton]; omega)]

end

section

variable (plain : ∀ l ∈ lines, OneLine l) (short : ∀ l ∈ lines, l.length < limit)
include plain short

theorem scanErr_ofLines : scanErr limit (ofLines lines) = false := by
  induction lines with
  | nil => rfl
  | cons l lines ih =>
    rw [ofLines_cons, scanErr, scanErrFrom_line (plain l mem_cons_self).newline (by
      rw [length_nil, Nat.zero_add]; exact short l mem_cons_self)]
    exact ih (fun l' mem => plain l' (mem_cons_of_mem l mem))
      fun l' mem => short l' (mem_cons_of_mem l mem)

theorem scanLines_ofLines : scanLines limit (ofLines lines) = lines := by
  induction lines with
  | nil => rfl
  | cons l lines ih =>
    have first := plain l mem_cons_self
    have kept : dropCR l = l := if_neg first.carriageReturn
    rw [ofLines_cons, scanLines, scanFrom_line first.newline (by
      rw [length_nil, Nat.zero_add]; exact short l mem_cons_self)]
    congr 1
    exact ih (fun l' mem => plain l' (mem_cons_of_mem l mem))
      fun l' mem => short l' (mem_cons_of_mem l mem)

end

/-! ## Paths -/

namespace Path

scoped instance : LawfulBEq Bytes := inferInstanceAs (LawfulBEq (List (BitVec 8)))

def ascii (text : List Char) : Bytes := text.map fun c => BitVec.ofNat 8 c.toNat

def slash : BitVec 8 := 0x2F

def dot : Bytes := [0x2E]

def dotDot : Bytes := [0x2E, 0x2E]

variable (name : Bytes)

def components : List Bytes := name.splitOn slash

def join (names : List Bytes) : Bytes := [slash].intercalate names

def isAbs : Bool := name.head? = some slash

/-- The components that `path.Clean` keeps, behind those of `out`. -/
def cleanFrom (rooted : Bool) (out : List Bytes) : List Bytes → List Bytes
  | [] => out.reverse
  | c :: rest =>
    if c = [] ∨ c = dot then cleanFrom rooted out rest
    else if c = dotDot then
      match out with
      | [] => cleanFrom rooted (if rooted then [] else [dotDot]) rest
      | last :: front =>
        if last = dotDot then cleanFrom rooted (dotDot :: out) rest else cleanFrom rooted front rest
    else cleanFrom rooted (c :: out) rest

def clean : Bytes :=
  let body := join (cleanFrom (isAbs name) [] (components name))
  if isAbs name then slash :: body else if body = [] then dot else body

theorem slash_notMem_components {name c : Bytes} (mem : c ∈ components name) : slash ∉ c := by
  induction name generalizing c with
  | nil =>
    rw [mem_singleton.mp mem]
    exact not_mem_nil
  | cons b name ih =>
    unfold components at mem ih
    rw [splitOn_cons_eq_if_modifyHead] at mem
    split at mem
    · rcases mem_cons.mp mem with rfl | later
      · exact not_mem_nil
      · exact ih later
    next other =>
      cases parts : name.splitOn slash with
      | nil => exact absurd parts (splitOn_ne_nil _ _)
      | cons first rest =>
        rw [parts] at mem ih
        rcases mem_cons.mp mem with rfl | later
        · refine not_mem_cons_of_ne_of_not_mem ?_ (ih mem_cons_self)
          exact fun same => other (beq_iff_eq.mpr same.symm)
        · exact ih (mem_cons_of_mem _ later)

theorem components_join {names : List Bytes} (plain : ∀ c ∈ names, slash ∉ c) (some : names ≠ []) :
    components (join names) = names := splitOn_intercalate slash plain some

theorem join_components : join (components name) = name := intercalate_splitOn slash

theorem cleanFrom_eq {names : List Bytes} (noDotDot : dotDot ∉ names) (rooted : Bool) (out : List Bytes) :
    cleanFrom rooted out names = out.reverse ++ names.filter fun c => c ≠ [] ∧ c ≠ dot := by
  induction names generalizing out with
  | nil =>
    rw [cleanFrom, filter_nil, append_nil]
  | cons c names ih =>
    obtain ⟨other, later⟩ := ne_and_not_mem_of_not_mem_cons noDotDot
    unfold cleanFrom
    split
    next left =>
      rw [ih later, filter_cons_of_neg]
      simp only [decide_eq_true_eq]
      rintro ⟨notEmpty, notDot⟩
      exact left.elim notEmpty notDot
    next kept =>
      obtain ⟨notEmpty, notDot⟩ := not_or.mp kept
      have passes : decide (c ≠ [] ∧ c ≠ dot) = true := decide_eq_true ⟨notEmpty, notDot⟩
      rw [if_neg (Ne.symm other), ih later, filter_cons, passes, reverse_cons, List.append_assoc]
      rfl

end Path

end Unheaded.Lib
