import Mathlib.Data.List.Find
import Mathlib.Data.List.TakeWhile
import Unheaded.Lib.Events
import Unheaded.Upc.Unfs

/-!
# Files added one after the other

The inodes of an image are those of the files added, in order, and then free ones.
-/

namespace Unheaded.Upc

open Lib List Option
open BitVec (ofNat)

/-- A file in the image, with where its blocks start. -/
structure StoredFile where
  call : AddCall
  start : Word

namespace StoredFile

def inode (f : StoredFile) : Inode := newInode f.call f.start (blocksNeeded f.call.data)

def blocks (f : StoredFile) : Nat := (blocksNeeded f.call.data).toNat

/-- A file that the image can represent. -/
structure Good (f : StoredFile) : Prop where
  named : 0 < f.call.name.length
  short : f.call.name.length < UNFSNameLen
  zeroless : 0 ∉ f.call.name
  small : f.call.data.length ≤ 2 ^ 32 - 512
  placed : f.call.data.length = 0 ∨
    UNFSFirstDataBlock ≤ f.start.toNat ∧ f.start.toNat + f.blocks ≤ UNFSTotalBlocks

def Apart (f g : StoredFile) : Prop :=
  f.start.toNat + f.blocks ≤ g.start.toNat ∨ g.start.toNat + g.blocks ≤ f.start.toNat ∨
    f.call.data.length = 0 ∨ g.call.data.length = 0

end StoredFile

theorem toNat_blocksNeeded {data : List Byte} (small : data.length ≤ 2 ^ 32 - 512) :
    (blocksNeeded data).toNat = (data.length + 511) / 512 := by
  unfold blocksNeeded
  split
  · next none => rw [none]; rfl
  · have sum : (ofNat 32 data.length + 511).toNat = data.length + 511 := by
      rw [BitVec.toNat_add, BitVec.toNat_ofNat, Nat.mod_eq_of_lt (by omega : data.length < 2 ^ 32)]
      exact Nat.mod_eq_of_lt (by omega : data.length + 511 < 2 ^ 32)
    rw [BitVec.toNat_udiv, sum]
    rfl

section Name

variable {f : StoredFile}

theorem length_name_inode (short : f.call.name.length < UNFSNameLen) :
    f.inode.name.length = UNFSNameLen := by
  rw [StoredFile.inode, newInode, length_append, length_replicate]
  omega

theorem StoredFile.Good.isFree_inode (good : f.Good) : f.inode.isFree = false := by
  have named := good.named
  have zeroless := good.zeroless
  unfold Inode.isFree StoredFile.inode newInode
  cases name : f.call.name with
  | nil => rw [name] at named; cases named
  | cons b rest =>
    rw [name, mem_cons, not_or] at zeroless
    simpa using Ne.symm zeroless.1

theorem StoredFile.Good.nameString_inode (good : f.Good) : inodeNameString f.inode = f.call.name := by
  have keep : ∀ b ∈ f.call.name, decide (b ≠ 0) = true := by
    intro b mem
    exact decide_eq_true fun zero => good.zeroless (zero ▸ mem)
  have short := good.short
  obtain ⟨k, more⟩ : ∃ k, UNFSNameLen - f.call.name.length = k + 1 :=
    ⟨UNFSNameLen - f.call.name.length - 1, by omega⟩
  rw [inodeNameString, StoredFile.inode, newInode, takeWhile_append_of_pos keep, more,
    replicate_succ, takeWhile_cons_of_neg (by decide), append_nil]

theorem zeroless_nameString (inode : Inode) : 0 ∉ inodeNameString inode := by
  intro mem
  have kept := mem_takeWhile_imp mem
  simp at kept

end Name

/-! ## Images that hold files -/

/-- The inodes of an image are those of the files, in order. -/
structure HoldsFiles (fs : Image) (files : List StoredFile) : Prop where
  magic : (readSuperblock fs).magic = UNFSMagic
  firstData : (readSuperblock fs).firstData = ofNat 32 UNFSFirstDataBlock
  balance : (readSuperblock fs).freeBlks.toNat + (files.map StoredFile.blocks).sum = 8128
  room : files.length ≤ UNFSMaxInodes
  live : ∀ k f, files[k]? = some f → readInode fs k = f.inode
  rest : ∀ k, files.length ≤ k → k < UNFSMaxInodes → (readInode fs k).isFree = true
  good : ∀ f ∈ files, f.Good
  apart : files.Pairwise StoredFile.Apart
  data : ∀ f ∈ files, readData fs f.start (ofNat 32 f.call.data.length) = f.call.data

theorem holdsFiles_format : HoldsFiles formatFilesystem [] where
  magic := congrArg Superblock.magic (readSuperblock_writeSuperblock _)
  firstData := congrArg Superblock.firstData (readSuperblock_writeSuperblock _)
  balance := congrArg (fun sb => sb.freeBlks.toNat + 0) (readSuperblock_writeSuperblock _)
  room := Nat.zero_le _
  live _ _ none := nomatch none
  rest _ _ slot := readInode_formatFilesystem slot
  good _ none := nomatch none
  apart := List.Pairwise.nil
  data _ none := nomatch none

/-- What a read of a name should return: the data of the first file added under it. -/
def firstAdded (added : List AddCall) (name : List Byte) : Except UnfsError (List Byte) :=
  match added.find? fun c => c.name = name with
  | some c => .ok c.data
  | none => .error (.fileNotFound name)

namespace HoldsFiles

variable {fs : Image} {files : List StoredFile}

variable (holds : HoldsFiles fs files)
include holds

theorem map_readInode : (range UNFSMaxInodes).map (readInode fs) = files.map StoredFile.inode ++
        (range (UNFSMaxInodes - files.length)).map fun i => readInode fs (files.length + i) := by
  have split : UNFSMaxInodes = files.length + (UNFSMaxInodes - files.length) := by
    have := holds.room
    omega
  rw [split, range_add, map_append, List.map_map]
  congr 1
  · apply ext_getElem?
    intro k
    by_cases inside : k < files.length
    · have found := getElem?_eq_getElem inside
      rw [getElem?_map, getElem?_map, getElem?_range inside, found, map_some,
        map_some, holds.live k _ found]
    · rw [getElem?_eq_none (by rw [length_map, length_range]; omega),
        getElem?_eq_none (by rw [length_map]; omega)]
  · rw [← split]
    rfl

theorem rest_free {inode : Inode}
    (mem : inode ∈ (range (UNFSMaxInodes - files.length)).map fun i =>
      readInode fs (files.length + i)) : inode.isFree = true := by
  obtain ⟨i, small, rfl⟩ := mem_map.mp mem
  have below := mem_range.mp small
  exact holds.rest _ (by omega) (by omega)

theorem liveInodes_eq : liveInodes fs = files.map StoredFile.inode := by
  rw [liveInodes, holds.map_readInode, filter_append, filter_eq_self.mpr,
    filter_eq_nil_iff.mpr, append_nil]
  · intro inode mem
    rw [holds.rest_free mem]
    decide
  · intro inode mem
    obtain ⟨f, stored, rfl⟩ := mem_map.mp mem
    rw [(holds.good f stored).isFree_inode]
    rfl

theorem listFiles_eq : listFiles fs = files.map fun f => f.call.name := by
  rw [listFiles, holds.liveInodes_eq, List.map_map]
  apply map_congr_left
  intro f stored
  exact (holds.good f stored).nameString_inode

theorem lookupInode_eq (name : List Byte) :
    lookupInode fs name = (files.find? fun f => f.call.name = name).map StoredFile.inode := by
  rw [lookupInode, holds.map_readInode, find?_append, find?_map]
  have later : ((range (UNFSMaxInodes - files.length)).map fun i =>
      readInode fs (files.length + i)).find?
        (fun inode => !inode.isFree && inodeNameString inode = name) = none := by
    rw [find?_eq_none]
    intro inode mem
    rw [holds.rest_free mem]
    simp
  rw [later, or_none]
  congr 1
  apply find?_congr
  intro f stored
  have good := holds.good f stored
  simp only [Function.comp_apply, good.isFree_inode, good.nameString_inode, Bool.not_false,
    Bool.true_and]

theorem readFile_eq (name : List Byte) :
    readFile fs name = firstAdded (files.map StoredFile.call) name := by
  unfold readFile firstAdded
  rw [holds.lookupInode_eq, find?_map]
  have same : ((fun c : AddCall => decide (c.name = name)) ∘ StoredFile.call) =
      fun f => decide (f.call.name = name) := rfl
  rw [same]
  cases found : files.find? fun f => f.call.name = name with
  | none => rfl
  | some f =>
    have data := holds.data f (mem_of_find?_eq_some found)
    simp only [map_some, StoredFile.inode, newInode, data]

theorem freeInode_some {n : Nat} (found : freeInode fs = some n) :
    n = files.length ∧ n < UNFSMaxInodes := by
  obtain ⟨free, inside, before⟩ := find?_range_eq_some.mp found
  have slot := mem_range.mp inside
  refine ⟨?_, slot⟩
  rcases Nat.lt_trichotomy n files.length with low | same | high
  · have stored := getElem?_eq_getElem low
    simp [holds.live n _ stored, (holds.good _ (mem_of_getElem? stored)).isFree_inode] at free
  · exact same
  · have earlier := before files.length high
    simp [holds.rest files.length (Nat.le_refl _) (by omega)] at earlier

theorem usedBlock_stored {f : StoredFile} (stored : f ∈ files) {b : Nat}
    (low : f.start.toNat ≤ b) (high : b < f.start.toNat + f.blocks)
    (inside : b < UNFSTotalBlocks) (fits : f.start.toNat + f.blocks ≤ UNFSTotalBlocks) :
    usedBlock fs (ofNat 32 b) = true := by
  obtain ⟨k, at_k⟩ := mem_iff_getElem?.mp stored
  have slot := (List.getElem?_eq_some_iff.mp at_k).1
  have room := holds.room
  unfold UNFSTotalBlocks at inside fits
  have value : (ofNat 32 b).toNat = b := by
    exact Nat.mod_eq_of_lt (by omega)
  have last : (f.start + blocksNeeded f.call.data).toNat = f.start.toNat + f.blocks := by
    exact Nat.mod_eq_of_lt (by unfold StoredFile.blocks at fits; omega)
  rw [usedBlock, List.any_eq_true]
  refine ⟨k, mem_range.mpr (by omega), ?_⟩
  simp only [holds.live k f at_k, (holds.good f stored).isFree_inode, Bool.not_false, Bool.true_and,
    Bool.and_eq_true, decide_eq_true_eq]
  constructor
  · rw [BitVec.le_def, value]
    exact low
  · rw [BitVec.lt_def, value]
    exact last ▸ high

/-- Blocks that the scan returns are data blocks of no file. -/
theorem findFreeBlocks_apart {call : AddCall}
    (small : call.data.length ≤ 2 ^ 32 - 512) {start : Word}
    (found : findFreeBlocks fs (readSuperblock fs).firstData (blocksNeeded call.data) = start)
    (passed : ¬ (start = 0 ∧ 0 < blocksNeeded call.data)) (some : call.data.length ≠ 0) :
    (UNFSFirstDataBlock ≤ start.toNat ∧
        start.toNat + (blocksNeeded call.data).toNat ≤ UNFSTotalBlocks) ∧
      ∀ f ∈ files, f.Apart ⟨call, start⟩ := by
  have size := toNat_blocksNeeded small
  have pos : blocksNeeded call.data ≠ 0 := by
    intro zero
    rw [zero] at size
    simp at size
    omega
  have count : 0 < (blocksNeeded call.data).toNat := by omega
  have more : 0 < blocksNeeded call.data := BitVec.lt_def.mpr count
  rw [findFreeBlocks, if_neg pos, holds.firstData] at found
  cases scan : scanBlocks (usedBlock fs) (blocksNeeded call.data).toNat
      (UNFSTotalBlocks - (ofNat 32 UNFSFirstDataBlock).toNat)
      (ofNat 32 UNFSFirstDataBlock).toNat 0 (ofNat 32 UNFSFirstDataBlock).toNat with
  | none =>
    rw [scan] at found
    exact absurd ⟨found.symm, more⟩ passed
  | some s =>
    obtain ⟨low, high, free⟩ := scanBlocks_free (Nat.add_zero _) count (fun b _ _ => by omega) scan
    have value : start.toNat = s := by
      rw [← found, scan, getD_some, BitVec.toNat_ofNat]
      unfold UNFSTotalBlocks at high
      omega
    have base : (ofNat 32 UNFSFirstDataBlock).toNat = UNFSFirstDataBlock := rfl
    refine ⟨⟨by omega, by omega⟩, ?_⟩
    intro f stored
    unfold StoredFile.Apart
    by_contra shared
    simp only [not_or, Nat.not_le] at shared
    obtain ⟨left, right, full, _⟩ := shared
    have placed := (holds.good f stored).placed.resolve_left full
    -- the later of the two starts is a block of both
    have new : (⟨call, start⟩ : StoredFile).blocks = (blocksNeeded call.data).toNat := rfl
    have taken : f.blocks = (f.call.data.length + 511) / 512 :=
      toNat_blocksNeeded (holds.good f stored).small
    have clash (b : Nat) (l : f.start.toNat ≤ b) (h : b < f.start.toNat + f.blocks)
        (sl : s ≤ b) (sh : b < s + (blocksNeeded call.data).toNat) : False := by
      have used := holds.usedBlock_stored stored l h (by omega) placed.2
      simp [free b sl sh] at used
    by_cases order : f.start.toNat ≤ start.toNat
    · exact clash start.toNat order left (by omega) (by omega)
    · exact clash f.start.toNat (Nat.le_refl _) (by omega) (by omega) (by omega)

end HoldsFiles

/-- What the three writes of an accepted call change. -/
structure Written (fs : Image) (call : AddCall) (n : Nat) (start : Word) (fs' : Image) : Prop where
  super : readSuperblock fs' =
    { readSuperblock fs with freeBlks := (readSuperblock fs).freeBlks - blocksNeeded call.data }
  inode : readInode fs' n = newInode call start (blocksNeeded call.data)
  others : ∀ k < UNFSMaxInodes, k ≠ n → readInode fs' k = readInode fs k
  data : readData fs' start (ofNat 32 call.data.length) = call.data
  files : ∀ f : StoredFile, f.Good → f.Apart ⟨call, start⟩ →
    readData fs' f.start (ofNat 32 f.call.data.length) =
      readData fs f.start (ofNat 32 f.call.data.length)

variable {fs fs' : Image} {call : AddCall} {start : Word}

theorem storeFile_eq {n : Nat} {sb : Superblock} (stored : storeFile fs call sb n start = some fs') :
    fs' = writeSuperblock ((writeInode fs n (newInode call start (blocksNeeded call.data))).putAll
        (start.toNat * UNFSBlockWords) (wordsOf (padded call.data)))
      { sb with freeBlks := sb.freeBlks - blocksNeeded call.data } := by
  obtain ⟨fs2, written, rfl⟩ := map_eq_some_iff.mp stored
  congr 1
  split at written
  · next none =>
      obtain rfl := some.inj written
      rw [eq_nil_of_length_eq_zero none]
      rfl
  · unfold writeData at written
    dsimp only at written
    split at written
    · exact (some.inj written).symm
    · cases written

variable {f : StoredFile}

theorem StoredFile.Good.words (good : f.Good) (some : f.call.data.length ≠ 0) :
    8192 ≤ f.start.toNat * UNFSBlockWords ∧
      f.start.toNat * UNFSBlockWords + ((ofNat 32 f.call.data.length).toNat + 3) / 4 ≤
        (f.start.toNat + f.blocks) * UNFSBlockWords := by
  have fits := good.small
  have blocks : f.blocks = (f.call.data.length + 511) / 512 := toNat_blocksNeeded fits
  obtain ⟨low, _⟩ := good.placed.resolve_left some
  unfold UNFSFirstDataBlock at low
  rw [BitVec.toNat_ofNat]
  unfold UNFSBlockWords
  omega

theorem StoredFile.Good.readData_below (good : f.Good) {off : Nat} {ws : List Word}
    (below : off + ws.length ≤ 8192) :
    readData (fs.putAll off ws) f.start (ofNat 32 f.call.data.length) =
      readData fs f.start (ofNat 32 f.call.data.length) := by
  apply readData_putAll
  by_cases some : f.call.data.length = 0
  · exact Or.inl (by rw [some]; rfl)
  · exact Or.inr (Or.inl (Nat.le_trans below (good.words some).1))

theorem storeFile_written {n : Nat} (slot : n < UNFSMaxInodes)
    (good : (⟨call, start⟩ : StoredFile).Good)
    (stored : storeFile fs call (readSuperblock fs) n start = some fs') :
    Written fs call n start fs' := by
  have bounds := inodeWordOffset_bounds slot
  have small : call.data.length ≤ 2 ^ 32 - 512 := good.small
  have size := toNat_blocksNeeded small
  have name : (newInode call start (blocksNeeded call.data)).name.length = UNFSNameLen :=
    length_name_inode good.short
  have words := length_wordsOf_padded call.data
  have fits : start.toNat * UNFSBlockWords + (wordsOf (padded call.data)).length ≤
      (start.toNat + (blocksNeeded call.data).toNat) * UNFSBlockWords := by
    unfold UNFSBlockWords
    omega
  have inodes (fs1 : Image) (k : Nat) (inside : k < UNFSMaxInodes) :
      readInode (fs1.putAll (start.toNat * UNFSBlockWords) (wordsOf (padded call.data))) k =
        readInode fs1 k := by
    by_cases none : call.data.length = 0
    · rw [eq_nil_of_length_eq_zero none]
      rfl
    · have here := inodeWordOffset_bounds inside
      have past : 8192 ≤ start.toNat * UNFSBlockWords := (good.words none).1
      exact readInode_putAll (Or.inr (by omega))
  rw [storeFile_eq stored]
  refine ⟨?_, ?_, ?_, ?_, ?_⟩
  · rw [readSuperblock_writeSuperblock]
  · rw [readInode_writeSuperblock slot, inodes _ n slot, readInode_writeInode_self slot name]
  · intro k inside other
    rw [readInode_writeSuperblock inside, inodes _ k inside, readInode_writeInode_of_ne other name]
  · rw [writeSuperblock, good.readData_below (show 6 ≤ 8192 by decide)]
    refine readData_putAll_self (by omega) ?_
    rcases good.placed with none | ⟨_, high⟩
    · exact Or.inl none
    · exact Or.inr (Nat.le_trans fits (Nat.mul_le_mul_right _ high))
  · intro f fine separate
    have data : readData ((writeInode fs n (newInode call start (blocksNeeded call.data))).putAll
          (start.toNat * UNFSBlockWords) (wordsOf (padded call.data))) f.start
          (ofNat 32 f.call.data.length) =
        readData (writeInode fs n (newInode call start (blocksNeeded call.data))) f.start
          (ofNat 32 f.call.data.length) := by
      by_cases none : call.data.length = 0
      · rw [eq_nil_of_length_eq_zero none]
        rfl
      · apply readData_putAll
        by_cases empty : f.call.data.length = 0
        · exact Or.inl (by rw [empty]; rfl)
        · have inside := (fine.words empty).2
          rcases separate with before | behind | zero | zero
          · exact Or.inr (Or.inr (Nat.le_trans inside (Nat.mul_le_mul_right _ before)))
          · exact Or.inr (Or.inl (Nat.le_trans fits (Nat.mul_le_mul_right _ behind)))
          · exact absurd zero empty
          · exact absurd zero none
    rw [writeSuperblock, fine.readData_below (show 6 ≤ 8192 by decide), data, writeInode,
      fine.readData_below (by rw [length_inodeWords name]; exact bounds.2)]

theorem HoldsFiles.add {files : List StoredFile} (holds : HoldsFiles fs files)
    (slot : files.length < UNFSMaxInodes) (good : (⟨call, start⟩ : StoredFile).Good)
    (apart : ∀ f ∈ files, f.Apart ⟨call, start⟩)
    (enough : blocksNeeded call.data ≤ (readSuperblock fs).freeBlks)
    (stored : storeFile fs call (readSuperblock fs) files.length start = some fs') :
    HoldsFiles fs' (files ++ [⟨call, start⟩]) := by
  have written := storeFile_written slot good stored
  have balance := holds.balance
  refine ⟨?_, ?_, ?_, ?_, ?_, ?_, ?_, ?_, ?_⟩
  · rw [written.super]
    exact holds.magic
  · rw [written.super]
    exact holds.firstData
  · rw [written.super, map_append, sum_append]
    rw [BitVec.toNat_sub_of_le enough]
    have le := BitVec.le_def.mp enough
    change _ + (_ + (blocksNeeded call.data).toNat) = _
    omega
  · rw [length_append, length_singleton]
    omega
  · intro k f found
    rcases Nat.lt_trichotomy k files.length with low | same | high
    · rw [getElem?_append_left low] at found
      rw [written.others k (by omega) (by omega), holds.live k f found]
    · subst same
      rw [getElem?_append_right (Nat.le_refl _), Nat.sub_self] at found
      cases found
      exact written.inode
    · rw [getElem?_eq_none (by rw [length_append, length_singleton]; omega)] at found
      cases found
  · intro k above inside
    rw [length_append, length_singleton] at above
    rw [written.others k inside (by omega), holds.rest k (by omega) inside]
  · intro f mem
    rcases mem_append.mp mem with old | new
    · exact holds.good f old
    · rw [mem_singleton.mp new]
      exact good
  · refine pairwise_append.mpr ⟨holds.apart, pairwise_singleton _ _, ?_⟩
    intro f mem g new
    rw [mem_singleton.mp new]
    exact apart f mem
  · intro f mem
    rcases mem_append.mp mem with old | new
    · rw [written.files f (holds.good f old) (apart f old), holds.data f old]
    · rw [mem_singleton.mp new]
      exact written.data

/-! ## Calls -/

/-- The checks refuse a call. -/
def RefusedCall (fs : Image) (call : AddCall) : Prop :=
  call.name.length = 0 ∨ UNFSNameLen ≤ call.name.length ∨ freeInode fs = none ∨
    (readSuperblock fs).freeBlks < blocksNeeded call.data ∨
      findFreeBlocks fs (readSuperblock fs).firstData (blocksNeeded call.data) = 0 ∧
        0 < blocksNeeded call.data

def Storable (call : AddCall) : Prop := 0 ∉ call.name ∧ call.data.length ≤ 2 ^ 32 - 512

theorem addFileWithType_refused (refused : RefusedCall fs call) :
    ∃ e, addFileWithType fs call = some (.error e, fs) := by
  unfold addFileWithType
  split
  · exact ⟨_, rfl⟩
  · next named =>
      split
      · exact ⟨_, rfl⟩
      · next short =>
          dsimp only
          split
          · exact ⟨_, rfl⟩
          · split
            · exact ⟨_, rfl⟩
            · next n found =>
                split
                · exact ⟨_, rfl⟩
                · next enough =>
                    split
                    · exact ⟨_, rfl⟩
                    · next passed =>
                        rcases refused with empty | long | none | less | noRun
                        · exact absurd empty named
                        · exact absurd long short
                        · simp [found] at none
                        · exact absurd less enough
                        · exact absurd noRun passed

theorem addFileWithType_accepted (magic : (readSuperblock fs).magic = UNFSMagic)
    (accepted : ¬ RefusedCall fs call) :
    ∃ n, freeInode fs = some n ∧ addFileWithType fs call = (storeFile fs call (readSuperblock fs) n
          (findFreeBlocks fs (readSuperblock fs).firstData (blocksNeeded call.data))).map
            fun fs => (.ok n, fs) := by
  unfold RefusedCall at accepted
  simp only [not_or] at accepted
  obtain ⟨named, short, inode, enough, passed⟩ := accepted
  obtain ⟨n, found⟩ := ne_none_iff_exists'.mp inode
  refine ⟨n, found, ?_⟩
  rw [addFileWithType, if_neg named, if_neg short]
  rw [if_neg (not_not.mpr magic), found]
  dsimp only
  rw [if_neg enough, if_neg passed]

theorem addFileWithType_error {e : UnfsError}
    (failed : addFileWithType fs call = some (.error e, fs')) : fs' = fs := by
  unfold addFileWithType at failed
  split at failed
  · cases failed
    rfl
  · split at failed
    · cases failed
      rfl
    · dsimp only at failed
      split at failed
      · cases failed
        rfl
      · split at failed
        · cases failed
          rfl
        · split at failed
          · cases failed
            rfl
          · split at failed
            · cases failed
              rfl
            · obtain ⟨_, _, done⟩ := map_eq_some_iff.mp failed
              cases done

/-! ## Histories -/

/-- An image under a sequence of calls, with those that succeeded. -/
structure Session where
  image : Image
  added : List AddCall
  panicked : Bool

namespace Session

def fresh : Session := ⟨formatFilesystem, [], false⟩

def after (s : Session) (call : AddCall) : Session :=
  match addFileWithType s.image call with
  | none => { s with panicked := true }
  | some (.ok _, fs) => { s with image := fs, added := s.added ++ [call] }
  | some (.error _, fs) => { s with image := fs }

variable {call : AddCall}

theorem after_ok {s : Session} {n : Nat} {fs : Image}
    (done : addFileWithType s.image call = some (.ok n, fs)) :
    s.after call = { s with image := fs, added := s.added ++ [call] } := by
  rw [after, done]

theorem after_panic {s : Session} (panics : addFileWithType s.image call = none) :
    s.after call = { s with panicked := true } := by
  rw [after, panics]

end Session

def Inode.hasBlock (inode : Inode) (b : Nat) : Prop :=
  inode.blockStart.toNat ≤ b ∧ b < inode.blockStart.toNat + inode.blockCount.toNat

/-- An image agrees with the calls that succeeded on it. -/
structure Consistent (fs : Image) (added : List AddCall) : Prop where
  disjoint : ∀ i < UNFSMaxInodes, ∀ j < UNFSMaxInodes, i ≠ j →
    (readInode fs i).isFree = false → (readInode fs j).isFree = false →
      ∀ b, (readInode fs i).hasBlock b → ¬ (readInode fs j).hasBlock b
  inside : ∀ i < UNFSMaxInodes, (readInode fs i).isFree = false → ∀ b,
    (readInode fs i).hasBlock b → 64 ≤ b ∧ b < 8192
  balance : (readSuperblock fs).freeBlks.toNat +
    ((liveInodes fs).map fun inode => inode.blockCount.toNat).sum = 8128
  listed : listFiles fs = added.map AddCall.name
  read : ∀ name, readFile fs name = firstAdded added name

/-- No call panicked, the image is consistent and a failed call would change nothing. -/
structure Kept (s : Session) : Prop where
  returned : s.panicked = false
  consistent : Consistent s.image s.added
  failed : ∀ call e fs, addFileWithType s.image call = some (.error e, fs) → fs = s.image

def Session.Sound (s : Session) (call : AddCall) : Prop := RefusedCall s.image call ∨ Storable call

namespace HoldsFiles

variable {fs : Image} {files : List StoredFile}

theorem stored_of_live (holds : HoldsFiles fs files) {i : Nat} (slot : i < UNFSMaxInodes)
    (live : (readInode fs i).isFree = false) :
    ∃ f, files[i]? = some f ∧ readInode fs i = f.inode := by
  by_cases inside : i < files.length
  · have found := getElem?_eq_getElem inside
    exact ⟨_, found, holds.live i _ found⟩
  · simp [holds.rest i (by omega) slot] at live

theorem apart_of_ne (holds : HoldsFiles fs files) {i j : Nat} {f g : StoredFile} (other : i ≠ j)
    (first : files[i]? = some f) (second : files[j]? = some g) : f.Apart g ∨ g.Apart f := by
  obtain ⟨hi, rfl⟩ := List.getElem?_eq_some_iff.mp first
  obtain ⟨hj, rfl⟩ := List.getElem?_eq_some_iff.mp second
  rcases Nat.lt_or_gt_of_ne other with before | behind
  · exact Or.inl (pairwise_iff_getElem.mp holds.apart i j hi hj before)
  · exact Or.inr (pairwise_iff_getElem.mp holds.apart j i hj hi behind)

theorem hasBlock_inode {f : StoredFile} (good : f.Good) {b : Nat} (block : f.inode.hasBlock b) :
    f.call.data.length ≠ 0 ∧ f.start.toNat ≤ b ∧ b < f.start.toNat + f.blocks := by
  obtain ⟨low, high⟩ := block
  have size : f.blocks = (f.call.data.length + 511) / 512 := toNat_blocksNeeded good.small
  change b < f.start.toNat + f.blocks at high
  change f.start.toNat ≤ b at low
  exact ⟨by omega, low, high⟩

theorem consistent (holds : HoldsFiles fs files) : Consistent fs (files.map StoredFile.call) := by
  refine ⟨?_, ?_, ?_, ?_, holds.readFile_eq⟩
  · intro i hi j hj other livei livej b first second
    obtain ⟨f, atf, inodef⟩ := holds.stored_of_live hi livei
    obtain ⟨g, atg, inodeg⟩ := holds.stored_of_live hj livej
    rw [inodef] at first
    rw [inodeg] at second
    obtain ⟨fsome, flow, fhigh⟩ := hasBlock_inode (holds.good f (mem_of_getElem? atf)) first
    obtain ⟨gsome, glow, ghigh⟩ := hasBlock_inode (holds.good g (mem_of_getElem? atg)) second
    have apart := holds.apart_of_ne other atf atg
    unfold StoredFile.Apart at apart
    omega
  · intro i hi live b block
    obtain ⟨f, atf, inodef⟩ := holds.stored_of_live hi live
    rw [inodef] at block
    have good := holds.good f (mem_of_getElem? atf)
    obtain ⟨some, low, high⟩ := hasBlock_inode good block
    obtain ⟨start, stop⟩ := good.placed.resolve_left some
    unfold UNFSFirstDataBlock at start
    unfold UNFSTotalBlocks at stop
    omega
  · rw [holds.liveInodes_eq, List.map_map]
    exact holds.balance
  · rw [holds.listFiles_eq, List.map_map]
    rfl

end HoldsFiles

def Session.Ready (s : Session) : Prop :=
  s.panicked = false ∧ ∃ files, HoldsFiles s.image files ∧ s.added = files.map StoredFile.call

theorem Session.ready_fresh : Session.fresh.Ready := ⟨rfl, [], holdsFiles_format, rfl⟩

variable {s : Session}

theorem Session.Ready.kept (ready : s.Ready) : Kept s := by
  obtain ⟨returned, files, holds, added⟩ := ready
  refine ⟨returned, ?_, fun _ _ _ => addFileWithType_error⟩
  rw [added]
  exact holds.consistent

variable {fs : Image} {call : AddCall} {sb : Superblock}

theorem storeFile_some {n : Nat} {start : Word} (good : (⟨call, start⟩ : StoredFile).Good) :
    ∃ fs', storeFile fs call sb n start = some fs' := by
  have small : call.data.length ≤ 2 ^ 32 - 512 := good.small
  unfold storeFile
  dsimp only
  split
  · exact ⟨_, rfl⟩
  · next some =>
      obtain ⟨_, high⟩ := good.placed.resolve_left some
      change start.toNat + (blocksNeeded call.data).toNat ≤ UNFSTotalBlocks at high
      rw [toNat_blocksNeeded small] at high
      rw [writeData, if_pos]
      · exact ⟨_, rfl⟩
      · rw [Image.size, length_wordsOf_padded]
        unfold UNFSBlockWords
        omega

theorem HoldsFiles.accepted_good {files : List StoredFile} (holds : HoldsFiles fs files)
    (accepted : ¬ RefusedCall fs call) (storable : Storable call) :
    (⟨call, findFreeBlocks fs (readSuperblock fs).firstData (blocksNeeded call.data)⟩ :
        StoredFile).Good ∧ (∀ f ∈ files, f.Apart
        ⟨call, findFreeBlocks fs (readSuperblock fs).firstData (blocksNeeded call.data)⟩) ∧
      blocksNeeded call.data ≤ (readSuperblock fs).freeBlks := by
  obtain ⟨zeroless, small⟩ := storable
  unfold RefusedCall at accepted
  simp only [not_or] at accepted
  obtain ⟨named, short, inode, enough, passed⟩ := accepted
  have free := BitVec.not_lt.mp enough
  by_cases none : call.data.length = 0
  · exact ⟨⟨Nat.pos_of_ne_zero named, Nat.not_le.mp short, zeroless, small, Or.inl none⟩,
      fun f _ => Or.inr (Or.inr (Or.inr none)), free⟩
  · obtain ⟨placed, apart⟩ := holds.findFreeBlocks_apart small rfl passed none
    exact ⟨⟨Nat.pos_of_ne_zero named, Nat.not_le.mp short, zeroless, small, Or.inr placed⟩, apart, free⟩

theorem Session.Ready.step (ready : s.Ready) (sound : s.Sound call) : (s.after call).Ready := by
  obtain ⟨returned, files, holds, added⟩ := ready
  by_cases refused : RefusedCall s.image call
  · obtain ⟨e, failed⟩ := addFileWithType_refused refused
    rw [Session.after, failed]
    exact ⟨returned, files, holds, added⟩
  · obtain ⟨good, apart, enough⟩ := holds.accepted_good refused (sound.resolve_left refused)
    obtain ⟨n, found, result⟩ := addFileWithType_accepted holds.magic refused
    obtain ⟨rfl, slot⟩ := holds.freeInode_some found
    obtain ⟨fs', stored⟩ := @storeFile_some s.image call (readSuperblock s.image) files.length _ good
    rw [Session.after_ok (by rw [result, stored, map_some])]
    refine ⟨returned, files ++ [⟨call, _⟩], holds.add slot good apart enough stored, ?_⟩
    rw [map_append, ← added]
    rfl

theorem storeFile_none {n : Nat} {start : Word} (long : 2 ^ 32 - 512 < call.data.length) :
    storeFile fs call sb n start = none := by
  unfold storeFile
  dsimp only
  rw [if_neg (by omega), writeData, if_neg, map_none]
  rw [Image.size, length_wordsOf_padded]
  unfold UNFSTotalBlocks UNFSBlockWords
  omega

theorem Session.Ready.spoils (ready : s.Ready) (unsound : ¬ s.Sound call) :
    ¬ Kept (s.after call) := by
  obtain ⟨returned, files, holds, added⟩ := ready
  unfold Session.Sound Storable at unsound
  rw [not_or, not_and_or, not_not, Nat.not_le] at unsound
  obtain ⟨accepted, zero | long⟩ := unsound
  · obtain ⟨n, found, result⟩ := addFileWithType_accepted holds.magic accepted
    intro kept
    cases stored : storeFile s.image call (readSuperblock s.image) n
        (findFreeBlocks s.image (readSuperblock s.image).firstData (blocksNeeded call.data)) with
    | none =>
      rw [Session.after_panic (by rw [result, stored, map_none])] at kept
      cases kept.returned
    | some fs' =>
      rw [Session.after_ok (by rw [result, stored, map_some])] at kept
      have listed : call.name ∈ listFiles fs' := by
        rw [kept.consistent.listed]
        exact List.mem_map_of_mem (mem_append_right _ mem_cons_self)
      obtain ⟨inode, _, name⟩ := List.mem_map.mp listed
      exact zeroless_nameString inode (name ▸ zero)
  · obtain ⟨n, found, result⟩ := addFileWithType_accepted holds.magic accepted
    intro kept
    rw [Session.after_panic (by rw [result, storeFile_none long, map_none])] at kept
    cases kept.returned

/-- Every state of a history is consistent exactly when every call of it is
refused by the checks or can be stored. -/
theorem unfs_consistent_iff (calls : List AddCall) :
    (∀ n, Kept (afterAll Session.after Session.fresh (calls.take n))) ↔
      Along Session.after Session.Sound Session.fresh calls := by
  have states := @along_iff_states _ _ Session.after Session.Sound Session.Ready Kept
    (fun _ => Session.Ready.kept) (fun _ _ => Session.Ready.step)
    (fun _ _ => Session.Ready.spoils) Session.fresh Session.ready_fresh calls
  exact states.symm

/-- A file named by one zero byte is stored and never listed. -/
theorem unfs_zero_name_not_listed :
    ¬ ∀ n, Kept (afterAll Session.after Session.fresh ([AddCall.file [0] [] 0].take n)) := by
  have unsound : ¬ Session.fresh.Sound (AddCall.file [0] [] 0) := by
    rintro ((empty | long | full | less | noRun) | ⟨zeroless, _⟩)
    · cases empty
    · exact absurd long (by decide)
    · have taken := find?_eq_none.mp full 0 (mem_range.mpr (by decide))
      exact taken (readInode_formatFilesystem (by decide))
    · exact Nat.not_lt_zero _ less
    · exact absurd noRun.2 (by decide)
    · exact zeroless mem_cons_self
  intro kept
  have first := kept 1
  rw [take_succ_cons, take_zero, afterAll_cons, afterAll_nil] at first
  exact Session.ready_fresh.spoils unsound first

end Unheaded.Upc
