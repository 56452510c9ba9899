import Unheaded.Lib.Directory
import Unheaded.Lib.Json

/-!
# The Binding Rune

A manifest has one line for each file: its SHA-256 in hexadecimal and its name behind `./`.
-/

namespace Unheaded.Cask

open Lib Lib.Path List

variable (name : Bytes)

inductive NameError where
  | empty
  | backslashOrNul
  | controlCharacter
  | absolute
  | dotDotComponent
  | notClean
  deriving DecidableEq

def checkRelName : Option NameError :=
  if name = [] ∨ name = dot then some .empty
  else if name.any fun b => b = 0x5C ∨ b = 0 then some .backslashOrNul
  else if name.any fun b => b.toNat < 0x20 ∨ b = 0x7F then some .controlCharacter
  else if isAbs name then some .absolute
  else if dotDot ∈ components name then some .dotDotComponent
  else if clean name ≠ name then some .notClean
  else none

/-- The directories above a clean name: `path.Dir` again and again, the outermost first. -/
def parents : List Bytes := (components name).dropLast.inits.tail.map join

def Inside : Prop := ∀ c ∈ components name, c ≠ [] ∧ c ≠ dot ∧ c ≠ dotDot

theorem checkRelName_inside {name : Bytes} (accepted : checkRelName name = none) : Inside name := by
  unfold checkRelName at accepted
  split at accepted
  · cases accepted
  next some =>
  split at accepted
  · cases accepted
  split at accepted
  · cases accepted
  split at accepted
  · cases accepted
  next relative =>
  split at accepted
  · cases accepted
  next noDotDot =>
  split at accepted
  · cases accepted
  next isClean =>
  obtain ⟨notEmpty, notDot⟩ := not_or.mp some
  have same : clean name = name := not_not.mp isClean
  have kept := cleanFrom_eq noDotDot false []
  unfold clean at same
  rw [Bool.eq_false_iff.mpr relative, kept, reverse_nil, nil_append] at same
  rw [if_neg Bool.false_ne_true] at same
  split at same
  · exact absurd same.symm notDot
  next body =>
    have nonempty : ((components name).filter fun c => c ≠ [] ∧ c ≠ dot) ≠ [] := by
      intro none
      rw [none] at body
      exact body rfl
    have plain : ∀ c ∈ (components name).filter (fun c => c ≠ [] ∧ c ≠ dot), slash ∉ c :=
      fun c mem => slash_notMem_components (mem_filter.mp mem).1
    have whole := components_join plain nonempty
    rw [same] at whole
    intro c mem
    have filtered := mem
    rw [whole] at filtered
    obtain ⟨notEmpty, notDot⟩ := of_decide_eq_true (mem_filter.mp filtered).2
    exact ⟨notEmpty, notDot, fun up => noDotDot (up ▸ mem)⟩

def manifestName : Bytes := ascii ['B', 'I', 'N', 'D', 'I', 'N', 'G', '_', 'R', 'U', 'N', 'E', '.',
    's', 'h', 'a', '2', '5', '6']

def sigName : Bytes := ascii ['B', 'I', 'N', 'D', 'I', 'N', 'G', '_', 'R', 'U', 'N', 'E', '.', 's',
    'i', 'g']

def isHexDigit (b : BitVec 8) : Bool :=
  (0x30 ≤ b.toNat && b.toNat ≤ 0x39) || (0x61 ≤ b.toNat && b.toNat ≤ 0x66)

def hexValue (b : BitVec 8) : Nat := if b.toNat ≤ 0x39 then b.toNat - 0x30 else b.toNat - 0x61 + 10

/-- `hex.Decode`. -/
def hexDecode : Bytes → Bytes
  | high :: low :: rest => BitVec.ofNat 8 (hexValue high * 16 + hexValue low) :: hexDecode rest
  | _ => []

/-- `manifestLine`: the digits and what stands behind `./`. -/
def manifestLine (line : Bytes) : Option (Bytes × Bytes) :=
  let digits := line.take 64
  if digits.length = 64 ∧ digits.all isHexDigit then
    match line.drop 64 with
    | blank :: mark :: point :: bar :: name =>
      if blank = 0x20 ∧ (mark = 0x20 ∨ mark = 0x2A) ∧ point = 0x2E ∧ bar = slash ∧ name ≠ [] then
        some (digits, name)
      else none
    | _ => none
  else none

abbrev Manifest := List (Bytes × Bytes)

/-- `ErrManifest`, with the number of the line. -/
inductive ManifestError where
  | empty
  | noNewline
  | notALine (line : Nat)
  | name (line : Nat) (e : NameError)
  | lists (line : Nat) (name : Bytes)
  | twice (line : Nat) (name : Bytes)
  | fileAndParent (parent name : Bytes)

/-- The lines from number `i` on, behind the files found so far. -/
def parseLines (i : Nat) (files : Manifest) : List Bytes → Except ManifestError Manifest
  | [] => .ok files
  | line :: rest =>
    match manifestLine line with
    | none => .error (.notALine i)
    | some (digits, name) =>
      match checkRelName name with
      | some e => .error (.name i e)
      | none =>
        if name = manifestName ∨ name = sigName then .error (.lists i name)
        else if name ∈ files.map Prod.fst then .error (.twice i name)
        else parseLines (i + 1) (files ++ [(name, hexDecode digits)]) rest

def fileAndParent (files : Manifest) : Option (Bytes × Bytes) := files.findSome? fun f =>
    ((parents f.1).find? fun d => d ∈ files.map Prod.fst).map fun d => (d, f.1)

def parseManifest (b : Bytes) : Except ManifestError Manifest :=
  if b = [] then .error .empty
  else if b.getLast? ≠ some newline then .error .noNewline
  else
    match parseLines 1 [] (b.dropLast.splitOn newline) with
    | .error e => .error e
    | .ok files =>
      match fileAndParent files with
      | some (parent, name) => .error (.fileAndParent parent name)
      | none => .ok files

end Unheaded.Cask
