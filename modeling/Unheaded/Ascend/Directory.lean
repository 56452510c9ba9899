import Unheaded.Ascend.Open

/-!
# Paths and directories

A path names an inode: each component is looked up in the directory that the components before it
lead to.
-/

namespace Unheaded.Mbc.Bpf

open Lib Ascend Ascend.FsWalk List BitVec BitVec

variable (b : Bpf)

def directory (dir : Word) : Option Word :=
  (b.dinodeBase dir).filter fun db => (b.ramWord db).setWidth 16 = T_DIR

def entries (db : Word) : Nat := (b.ramWord (db + 2)).toNat / 16

/-- The RAM byte at which an entry begins, when its direct block is allocated
in the ramdisk. -/
def entryAddr (db : Word) (idx : Nat) : Option Nat :=
  let blk := b.ramWord (db + 3 + BitVec.ofNat 32 (idx / 64))
  if idx / 64 < NDIRECT ∧ blk ≠ 0 ∧ blk.toNat < 4096 then
    some (0x800000 + blk.toNat * 1024 + idx % 64 * 16)
  else none

def entryInum (a : Nat) : Word := b.ram.getD (a / 4) 0 &&& 0xFFFF

def bytesAt (a n : Nat) : List Byte := (range n).map fun k => b.ram.byteAt (a + k)

def entryName (a : Nat) : List Byte := (b.bytesAt (a + 2) DIRSIZ).takeWhile (· != 0)

def ninodes : Word := (b.superblock.map Superblock.ninodes).getD 0

/-- The inode that an entry names, when the entry is in use and has the name. -/
def entryMatch (db : Word) (comp : List Byte) (idx : Nat) : Option Word :=
  (b.entryAddr db idx).bind fun a =>
    if b.entryInum a ≠ 0 ∧ b.entryInum a < b.ninodes ∧ b.entryName a = comp then
      some (b.entryInum a)
    else none

def lookupName (db : Word) (comp : List Byte) : Option Word :=
  (range (b.entries db)).findSome? (b.entryMatch db comp)

/-- The inode that a list of components leads to. -/
def resolve (b : Bpf) : Word → List (List Byte) → Option Word
  | dir, [] => some dir
  | dir, comp :: comps =>
    (b.directory dir).bind fun db => (b.lookupName db comp).bind fun inum => b.resolve inum comps

/-- No directory has more entries than `open` looks at. -/
def SmallDirectories : Prop := ∀ dir db, b.directory dir = some db → b.entries db ≤ 256

end Unheaded.Mbc.Bpf

namespace Unheaded.Ascend

open Lib Mbc Fdtable FsWalk
open BitVec (ofNat)

/-- A component of a path: some bytes, neither `.` nor with a separator. -/
structure Component (c : List Byte) : Prop where
  nonempty : c ≠ []
  notDot : c ≠ [Bpf.DOT]
  plain : ∀ v ∈ c, v ≠ Bpf.SLASH ∧ v ≠ 0

def pathText (absolute : Bool) (comps : List (List Byte)) : List Byte :=
  (if absolute then [Bpf.SLASH] else []) ++ List.intercalate [Bpf.SLASH] comps ++ [0]

def terminator (comps : List (List Byte)) : Byte := if comps = [] then 0 else Bpf.SLASH

def PathAt (b : Bpf) : Nat → List (List Byte) → Prop
  | _, [] => True
  | a, c :: comps =>
    b.bytesAt a (c.length + 1) = c ++ [terminator comps] ∧ PathAt b (a + c.length + 1) comps

theorem bytesAt_add (b : Bpf) (a n k : Nat) :
    b.bytesAt a (n + k) = b.bytesAt a n ++ b.bytesAt (a + n) k := by
  rw [Bpf.bytesAt, List.range_add, List.map_append, List.map_map]
  congr 1
  refine List.map_congr_left fun i _ => ?_
  rw [Function.comp_apply, Nat.add_assoc]

theorem length_bytesAt (b : Bpf) (a n : Nat) : (b.bytesAt a n).length = n := by
  simp [Bpf.bytesAt]

theorem bytesAt_append_iff {b : Bpf} {a : Nat} {first rest : List Byte} :
    b.bytesAt a (first.length + rest.length) = first ++ rest ↔
      b.bytesAt a first.length = first ∧ b.bytesAt (a + first.length) rest.length = rest := by
  rw [bytesAt_add]
  constructor
  · intro text
    exact List.append_inj text (length_bytesAt b a _)
  · rintro ⟨front, back⟩
    rw [front, back]

theorem pathAt_of_text {b : Bpf} {comps : List (List Byte)} (given : comps ≠ []) {a : Nat}
    (text : b.bytesAt a (List.intercalate [Bpf.SLASH] comps ++ [0]).length =
      List.intercalate [Bpf.SLASH] comps ++ [0]) : PathAt b a comps := by
  induction comps generalizing a with
  | nil => exact absurd rfl given
  | cons c comps ih =>
    cases comps with
    | nil =>
      refine ⟨?_, trivial⟩
      simpa [List.intercalate, terminator] using text
    | cons d comps =>
      have split : List.intercalate [Bpf.SLASH] (c :: d :: comps) ++ [0] =
          (c ++ [Bpf.SLASH]) ++ (List.intercalate [Bpf.SLASH] (d :: comps) ++ [0]) := by
        simp [List.intercalate]
      rw [split, List.length_append, bytesAt_append_iff] at text
      obtain ⟨front, back⟩ := text
      rw [List.length_append] at front back
      exact ⟨front, ih (by simp) back⟩

section Names

variable {b : Bpf}

theorem ramByte_add {base : Word} {k : Nat} (fits : base.toNat + k < 2 ^ 32) :
    b.ramByte (base + ofNat 32 k) = b.ram.byteAt (base.toNat + k) := by
  rw [Bpf.ramByte_eq, BitVec.toNat_add, BitVec.toNat_ofNat]
  congr 1
  omega

theorem bytesAt_succ (b : Bpf) (a n : Nat) :
    b.bytesAt a (n + 1) = b.ram.byteAt a :: b.bytesAt (a + 1) n := by
  rw [Nat.add_comm n 1, bytesAt_add]
  rfl

def matchWord (comps : List (List Byte)) (length : Nat) : Word :=
  if comps = [] then ofNat 32 length else Bpf.COMPONENT_HAS_MORE ||| ofNat 32 length

/-- The compare loop from byte `k` on: it matches when what is left of the name
is what is left of the component. -/
theorem nameMatchFrom_eq {dname comp : Word} {comps : List (List Byte)} {left k : Nat}
    {rest : List Byte} (bound : k + left = DIRSIZ) (name : dname.toNat + 16 < 2 ^ 32)
    (text : b.bytesAt (comp.toNat + k) (rest.length + 1) = rest ++ [terminator comps])
    (fits : comp.toNat + k + rest.length < 2 ^ 32)
    (plain : ∀ v ∈ rest, v ≠ Bpf.SLASH ∧ v ≠ 0) :
    b.nameMatchFrom dname comp left k =
      if (b.bytesAt (dname.toNat + k) left).takeWhile (· != 0) = rest then
        matchWord comps (k + rest.length)
      else Bpf.NO_COMPONENT_MATCH := by
  have size : DIRSIZ = 14 := rfl
  have slash : Bpf.SLASH ≠ 0 := by decide
  induction left generalizing k rest with
  | zero =>
    rw [Bpf.nameMatchFrom, ramByte_add (by omega)]
    cases rest with
    | nil =>
      have ends : b.ram.byteAt (comp.toNat + k) = terminator comps := by
        simpa [Bpf.bytesAt] using text
      have ended : (b.bytesAt (dname.toNat + k) 0).takeWhile (· != 0) = [] := rfl
      rw [ends]
      unfold terminator matchWord
      by_cases last : comps = []
      · rw [if_pos last, if_pos last]
        rfl
      · rw [if_neg last, if_neg last]
        rfl
    | cons v rest =>
      rw [bytesAt_succ] at text
      obtain ⟨first, -⟩ := List.cons_eq_cons.mp text
      obtain ⟨noSlash, noZero⟩ := plain v List.mem_cons_self
      rw [first, if_neg noSlash, if_neg noZero]
      exact (if_neg (by simp [Bpf.bytesAt])).symm
  | succ left ih =>
    rw [Bpf.nameMatchFrom, ramByte_add (by omega), ramByte_add (by omega), bytesAt_succ]
    generalize b.ram.byteAt (dname.toNat + k) = dn
    cases rest with
    | nil =>
      have ends : b.ram.byteAt (comp.toNat + k) = terminator comps := by
        simpa [Bpf.bytesAt] using text
      have raw : (if terminator comps = Bpf.SLASH then 0 else terminator comps) = (0 : Byte) := by
        unfold terminator
        split <;> simp_all
      rw [ends, raw]
      by_cases zero : dn = 0
      · subst zero
        unfold terminator matchWord
        by_cases last : comps = []
        · rw [if_pos last, if_pos last]
          rfl
        · rw [if_neg last, if_neg last]
          rfl
      · rw [if_pos zero, List.takeWhile_cons_of_pos (by simpa using zero)]
        exact (if_neg (List.cons_ne_nil _ _)).symm
    | cons v rest =>
      rw [bytesAt_succ] at text
      obtain ⟨first, following⟩ := List.cons_eq_cons.mp text
      obtain ⟨noSlash, noZero⟩ := plain v List.mem_cons_self
      rw [first, if_neg noSlash]
      by_cases same : dn = v
      · subst same
        have next := @ih (k + 1) rest (by omega) following (by rw [List.length_cons] at fits; omega)
          fun u mem => plain u (List.mem_cons_of_mem _ mem)
        have length : k + 1 + rest.length = k + (dn :: rest).length := by
          rw [List.length_cons]
          omega
        rw [if_neg (not_not.mpr rfl), if_neg noZero, next,
          List.takeWhile_cons_of_pos (by simpa using noZero), length]
        simp only [List.cons.injEq, true_and]
        rfl
      · rw [if_pos same]
        refine (if_neg ?_).symm
        rw [List.takeWhile_cons]
        split
        · intro equal
          exact same (List.cons_eq_cons.mp equal).1
        · exact fun equal => List.cons_ne_nil _ _ equal.symm

theorem nameMatchPhys_eq {dname comp : Word} {c : List Byte} {comps : List (List Byte)}
    (name : dname.toNat + 16 < 2 ^ 32) (path : PathAt b comp.toNat (c :: comps))
    (fits : comp.toNat + c.length < 2 ^ 32) (component : Component c) :
    b.nameMatchPhys dname comp =
      if (b.bytesAt dname.toNat DIRSIZ).takeWhile (· != 0) = c then matchWord comps c.length
      else Bpf.NO_COMPONENT_MATCH := by
  have found := @nameMatchFrom_eq b dname comp comps DIRSIZ 0 c rfl name path.1 fits component.plain
  rwa [Nat.zero_add] at found

theorem matchWord_ne {comps : List (List Byte)} {length : Nat} (short : length ≤ 14) :
    matchWord comps length ≠ Bpf.NO_COMPONENT_MATCH := by
  unfold matchWord
  split
  · interval_cases length <;> decide
  · interval_cases length <;> decide

theorem length_entryName (b : Bpf) (a : Nat) : (b.entryName a).length ≤ 14 := by
  have length := (List.takeWhile_prefix (l := b.bytesAt (a + 2) DIRSIZ) (· != 0)).length_le
  exact length

/-- What the handler finds at an index is what the directory has there. -/
theorem direntMatch_eq {db comp ndir : Word} {c : List Byte} {comps : List (List Byte)} {idx : Nat}
    (few : idx < 256) (inside : idx < ndir.toNat) (path : PathAt b comp.toNat (c :: comps))
    (fits : comp.toNat + c.length < 2 ^ 32) (component : Component c) :
    b.direntMatch db b.ninodes ndir (ofNat 32 idx) comp =
      (b.entryMatch db c idx).map fun inum => (inum, matchWord comps c.length) := by
  have value : (ofNat 32 idx : Word).toNat = idx := by
    rw [BitVec.toNat_ofNat]
    omega
  have sixtyFour : DIRENTS_PER_BLOCK.toNat = 64 := rfl
  have fbn : ofNat 32 idx / DIRENTS_PER_BLOCK = ofNat 32 (idx / 64) := by
    apply BitVec.eq_of_toNat_eq
    rw [BitVec.toNat_udiv, value, sixtyFour, BitVec.toNat_ofNat]
    omega
  have direct : (ofNat 32 (idx / 64) : Word).toNat < NDIRECT := by
    rw [BitVec.toNat_ofNat]
    unfold NDIRECT
    omega
  have direct' : idx / 64 < NDIRECT := by
    unfold NDIRECT
    omega
  unfold Bpf.direntMatch Bpf.entryMatch Bpf.entryAddr
  rw [if_pos (by rw [BitVec.lt_def, value]; exact inside)]
  rw [fbn, if_pos direct]
  by_cases hole : b.ramWord (db + 3 + ofNat 32 (idx / 64)) = 0
  · rw [if_neg (not_not.mpr hole), if_neg fun named => named.2.1 hole]
    rfl
  · rw [if_pos hole]
    cases block : wordOfBlock (b.ramWord (db + 3 + ofNat 32 (idx / 64))) with
    | none =>
      have outside : ¬ (b.ramWord (db + 3 + ofNat 32 (idx / 64))).toNat < 4096 := by
        intro small
        unfold wordOfBlock at block
        rw [if_neg (BitVec.not_le.mpr small)] at block
        cases block
      rw [if_neg fun named => outside named.2.2]
      rfl
    | some dbw =>
      obtain ⟨region, base⟩ := wordOfBlock_eq_some.mp block
      rw [if_pos ⟨direct', hole, region⟩, Option.bind_some]
      generalize b.ramWord (db + 3 + ofNat 32 (idx / 64)) = blk at region base
      have four : (4 : Word).toNat = 4 := rfl
      have two : (2 : Word).toNat = 2 := rfl
      have dword : (dbw + ofNat 32 idx % DIRENTS_PER_BLOCK * 4).toNat =
          (0x800000 + blk.toNat * 1024 + idx % 64 * 16) / 4 := by
        rw [BitVec.toNat_add, BitVec.toNat_mul, BitVec.toNat_umod, sixtyFour, four]
        omega
      have name : ((dbw + ofNat 32 idx % DIRENTS_PER_BLOCK * 4) * 4 + 2).toNat =
          0x800000 + blk.toNat * 1024 + idx % 64 * 16 + 2 := by
        rw [BitVec.toNat_add, BitVec.toNat_mul, four]
        omega
      have inum : b.ramWord (dbw + ofNat 32 idx % DIRENTS_PER_BLOCK * 4) &&& 0xFFFF =
          b.entryInum (0x800000 + blk.toNat * 1024 + idx % 64 * 16) := by
        rw [Bpf.ramWord, dword]
        rfl
      dsimp only
      rw [inum, nameMatchPhys_eq (by omega) path fits component, name]
      rw [show (b.bytesAt (0x800000 + blk.toNat * 1024 + idx % 64 * 16 + 2) DIRSIZ).takeWhile
        (· != 0) = b.entryName (0x800000 + blk.toNat * 1024 + idx % 64 * 16) from rfl]
      have length := length_entryName b (0x800000 + blk.toNat * 1024 + idx % 64 * 16)
      generalize 0x800000 + blk.toNat * 1024 + idx % 64 * 16 = a at length
      by_cases used : b.entryInum a ≠ 0 ∧ b.entryInum a < b.ninodes
      · rw [if_pos used]
        by_cases same : b.entryName a = c
        · rw [if_pos same, if_pos (matchWord_ne (same ▸ length)), if_pos ⟨used.1, used.2, same⟩]
          rfl
        · rw [if_neg same, if_neg (not_not.mpr rfl), if_neg fun all => same all.2.2]
          rfl
      · rw [if_neg used, if_neg fun all => used ⟨all.1, all.2.1⟩]
        rfl

end Names

def textLength (comps : List (List Byte)) : Nat := (comps.map fun c => c.length + 1).sum

theorem pathAt_state (b : Bpf) (st : MbcCpuState) (a : Nat) (comps : List (List Byte)) :
    PathAt { b with state := st } a comps ↔ PathAt b a comps := by
  induction comps generalizing a with
  | nil => exact Iff.rfl
  | cons c comps ih => exact and_congr Iff.rfl (ih _)

section State

variable (b : Bpf) (st : MbcCpuState)

theorem entries_state (db : Word) : ({ b with state := st } : Bpf).entries db = b.entries db := rfl

end State

theorem resolve_state (b : Bpf) (st : MbcCpuState) (dir : Word) (comps : List (List Byte)) :
    ({ b with state := st } : Bpf).resolve dir comps = b.resolve dir comps := by
  induction comps generalizing dir with
  | nil => rfl
  | cons c comps ih =>
    refine congrArg _ (funext fun db => ?_)
    exact congrArg _ (funext fun inum => ih inum)

end Unheaded.Ascend
