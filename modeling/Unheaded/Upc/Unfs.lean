import Mathlib.Data.List.Basic
import Unheaded.Upc.Boot

/-!
# The nano filesystem of the ramdisk

An image is 8192 blocks of 128 words: a superblock, 504 inodes in blocks 1 to 63, and data blocks.
-/

namespace Unheaded.Upc

open Lib List Store
open BitVec (ofNat)

def UNFSMagic : Word := 0x554E4653

def UNFSVersion : Word := 1

def UNFSBlockWords : Nat := 128

def UNFSTotalBlocks : Nat := 8192

def UNFSInodesPerBlock : Nat := 8

def UNFSMaxInodes : Nat := 504

def UNFSFirstDataBlock : Nat := 64

def UNFSInodeWords : Nat := 16

def UNFSNameLen : Nat := 28

def UNFSTypeFile : Word := 1

/-- An image has all its words, so that the superblock and the inodes are in range. -/
structure Image where
  words : Store Word
  size : words.len = UNFSTotalBlocks * UNFSBlockWords

variable (fs : Image)

def Image.word (i : Nat) : Word := fs.words.getD i 0

def Image.putAll (off : Nat) (ws : List Word) : Image where
  words := fs.words.blit off ws
  size := by rw [len_blit, fs.size]

structure Superblock where
  magic : Word
  version : Word
  totalBlks : Word
  freeBlks : Word
  rootInode : Word
  firstData : Word
  deriving DecidableEq

/-- The name has 28 bytes. -/
structure Inode where
  name : List Byte
  size : Word
  mode : Word
  blockStart : Word
  blockCount : Word
  created : Word
  modified : Word
  fileType : Word
  deriving DecidableEq

def writeSuperblock (sb : Superblock) : Image :=
  fs.putAll 0 [sb.magic, sb.version, sb.totalBlks, sb.freeBlks, sb.rootInode, sb.firstData]

def readSuperblock : Superblock where
  magic := fs.word 0
  version := fs.word 1
  totalBlks := fs.word 2
  freeBlks := fs.word 3
  rootInode := fs.word 4
  firstData := fs.word 5

def formatFilesystem : Image :=
  writeSuperblock ⟨ofFn (UNFSTotalBlocks * UNFSBlockWords) fun _ => 0, rfl⟩
    { magic := UNFSMagic
      version := UNFSVersion
      totalBlks := ofNat 32 UNFSTotalBlocks
      freeBlks := ofNat 32 (UNFSTotalBlocks - UNFSFirstDataBlock)
      rootInode := 1
      firstData := ofNat 32 UNFSFirstDataBlock }

def inodeWordOffset (inodeNum : Nat) : Nat := (1 + inodeNum / UNFSInodesPerBlock) * UNFSBlockWords +
    inodeNum % UNFSInodesPerBlock * UNFSInodeWords

variable (inode : Inode)

def inodeWords : List Word := wordsOf inode.name ++
    [inode.size, inode.mode, inode.blockStart, inode.blockCount, inode.created, inode.modified,
      inode.fileType, 0, 0]

def writeInode (inodeNum : Nat) (inode : Inode) : Image :=
  fs.putAll (inodeWordOffset inodeNum) (inodeWords inode)

def putUint32 (w : Word) : List Byte := [byteOf w 0, byteOf w 1, byteOf w 2, byteOf w 3]

def readInode (inodeNum : Nat) : Inode :=
  let off := inodeWordOffset inodeNum
  { name := (range 7).flatMap fun i => putUint32 (fs.word (off + i))
    size := fs.word (off + 7)
    mode := fs.word (off + 8)
    blockStart := fs.word (off + 9)
    blockCount := fs.word (off + 10)
    created := fs.word (off + 11)
    modified := fs.word (off + 12)
    fileType := fs.word (off + 13) }

def inodeNameString : List Byte := inode.name.takeWhile (· ≠ 0)

def Inode.isFree : Bool := inode.name.headD 0 = 0

def usedBlock (b : Word) : Bool := (range UNFSMaxInodes).any fun i =>
    let inode := readInode fs i
    !inode.isFree && inode.blockStart ≤ b && b < inode.blockStart + inode.blockCount

/-- The scan for a run of `count` free blocks: `n` blocks are left to look at. -/
def scanBlocks (used : Word → Bool) (count : Nat) : Nat → Nat → Nat → Nat → Option Nat
  | 0, _, _, _ => none
  | n + 1, blk, run, runStart =>
    if used (ofNat 32 blk) then scanBlocks used count n (blk + 1) 0 (blk + 1)
    else if count ≤ run + 1 then some runStart
    else scanBlocks used count n (blk + 1) (run + 1) runStart

/-- The first run of free blocks, or zero. -/
def findFreeBlocks (firstData count : Word) : Word :=
  if count = 0 then 0
  else
    ofNat 32 ((scanBlocks (usedBlock fs) count.toNat (UNFSTotalBlocks - firstData.toNat)
      firstData.toNat 0 firstData.toNat).getD 0)

/-- The words of the data in place, or nothing where a word is out of range. -/
def writeData (blockStart : Word) (data : List Byte) : Option Image :=
  let ws := wordsOf (padded data)
  if blockStart.toNat * UNFSBlockWords + ws.length ≤ fs.words.len then
    some (fs.putAll (blockStart.toNat * UNFSBlockWords) ws)
  else none

def readData (blockStart size : Word) : List Byte :=
  if size = 0 then []
  else
    ((range ((size.toNat + 3) / 4)).flatMap fun i =>
      putUint32 (fs.word (blockStart.toNat * UNFSBlockWords + i))).take size.toNat

/-- The errors, with what their texts name. -/
inductive UnfsError where
  | filenameEmpty
  | filenameTooLong (bytes : Nat)
  | invalidMagic (magic : Word)
  | noFreeInodes
  | notEnoughBlocks (need free : Word)
  | noContiguousBlocks (need : Word)
  | fileNotFound (name : List Byte)
  deriving DecidableEq

/-- The arguments of a call that adds a file. -/
structure AddCall where
  name : List Byte
  data : List Byte
  mode : Word
  fileType : Word
  deriving DecidableEq

/-- `AddFile` is `AddFileWithType` for plain files. -/
def AddCall.file (name data : List Byte) (mode : Word) : AddCall := ⟨name, data, mode, UNFSTypeFile⟩

def freeInode : Option Nat :=
  (range UNFSMaxInodes).find? fun i => (readInode fs i).isFree

def blocksNeeded (data : List Byte) : Word :=
  if data.length = 0 then 0 else (ofNat 32 data.length + 511) / 512

def unfsTime : Word := 1710460800

/-- The inode of a new file. -/
def newInode (call : AddCall) (blockStart blockCount : Word) : Inode where
  name := call.name ++ replicate (UNFSNameLen - call.name.length) 0
  size := ofNat 32 call.data.length
  mode := call.mode
  blockStart := blockStart
  blockCount := blockCount
  created := unfsTime
  modified := unfsTime
  fileType := call.fileType

/-- The writes of a call that passed the checks; nothing where one panics. -/
def storeFile (call : AddCall) (sb : Superblock) (inodeNum : Nat) (blockStart : Word) :
    Option Image :=
  let fs := writeInode fs inodeNum (newInode call blockStart (blocksNeeded call.data))
  let stored := if call.data.length = 0 then some fs else writeData fs blockStart call.data
  stored.map fun fs =>
    writeSuperblock fs { sb with freeBlks := sb.freeBlks - blocksNeeded call.data }

/-- Nothing where the call panics, else its result and the image it leaves. -/
def addFileWithType (call : AddCall) : Option (Except UnfsError Nat × Image) :=
  if call.name.length = 0 then some (.error .filenameEmpty, fs)
  else if UNFSNameLen ≤ call.name.length then
    some (.error (.filenameTooLong call.name.length), fs)
  else
    let sb := readSuperblock fs
    if sb.magic ≠ UNFSMagic then some (.error (.invalidMagic sb.magic), fs)
    else
      match freeInode fs with
      | none => some (.error .noFreeInodes, fs)
      | some inodeNum =>
        let need := blocksNeeded call.data
        if sb.freeBlks < need then some (.error (.notEnoughBlocks need sb.freeBlks), fs)
        else
          let blockStart := findFreeBlocks fs sb.firstData need
          if blockStart = 0 ∧ 0 < need then some (.error (.noContiguousBlocks need), fs)
          else (storeFile fs call sb inodeNum blockStart).map fun fs => (.ok inodeNum, fs)

def lookupInode (name : List Byte) : Option Inode :=
  ((range UNFSMaxInodes).map (readInode fs)).find? fun inode =>
    !inode.isFree && inodeNameString inode = name

def readFile (name : List Byte) : Except UnfsError (List Byte) :=
  match lookupInode fs name with
  | some inode => .ok (readData fs inode.blockStart inode.size)
  | none => .error (.fileNotFound name)

def liveInodes : List Inode :=
  ((range UNFSMaxInodes).map (readInode fs)).filter fun inode => !inode.isFree

def listFiles : List (List Byte) := (liveInodes fs).map inodeNameString

/-! ## Reading back what an image was written with

Each write touches the words of one superblock, inode or run of data blocks;
what is read elsewhere stays, and what was written reads back.
-/

variable {fs : Image}

theorem Image.word_putAll_of_outside {off i : Nat} {ws : List Word}
    (outside : i < off ∨ off + ws.length ≤ i) : (fs.putAll off ws).word i = fs.word i := by
  rw [Image.word, Image.word, Image.putAll, Store.getD, Store.getD, Store.len_blit,
    Store.cell_blit_of_outside _ outside]

theorem Image.word_putAll {off k : Nat} {ws : List Word} {w : Word}
    (fits : off + ws.length ≤ UNFSTotalBlocks * UNFSBlockWords) (found : ws[k]? = some w) :
    (fs.putAll off ws).word (off + k) = w := by
  have below := (List.getElem?_eq_some_iff.mp found).1
  have size := fs.size
  rw [Image.word, Image.putAll, getD_of_lt _ (by rw [len_blit]; omega),
    cell_blit _ (by omega) found]

theorem putUint32_wordAt {b : List Byte} {off : Nat} (inside : off + 4 ≤ b.length) :
    putUint32 (wordAt b off) = (b.drop off).take 4 := by
  have size : (b.drop off).length = b.length - off := length_drop
  unfold wordAt uint32
  match parts : b.drop off with
  | [] | [_] | [_, _] | [_, _, _] => rw [parts] at size; simp at size; omega
  | b0 :: b1 :: b2 :: b3 :: rest =>
    obtain ⟨e0, e1, e2, e3⟩ := byteOf_wordOfBytes b3 b2 b1 b0
    simp only [putUint32, Option.getD_some, e0, e1, e2, e3, take_succ_cons, take_zero]

theorem flatMap_putUint32 {b : List Byte} {n : Nat} (inside : 4 * n ≤ b.length) :
    ((range n).flatMap fun i => putUint32 (wordAt b (i * 4))) = b.take (4 * n) := by
  induction n with
  | zero => rfl
  | succ n ih =>
    rw [range_succ, flatMap_append, ih (by omega), flatMap_cons, flatMap_nil,
      append_nil, putUint32_wordAt (by omega), Nat.mul_comm n 4, ← take_add]
    rfl

theorem getElem?_wordsOf {b : List Byte} {i : Nat} (below : i < b.length / 4) :
    (wordsOf b)[i]? = some (wordAt b (i * 4)) := by
  simp [wordsOf, below]

theorem inodeWordOffset_bounds {n : Nat} (slot : n < UNFSMaxInodes) :
    128 ≤ inodeWordOffset n ∧ inodeWordOffset n + 16 ≤ 8192 := by
  unfold UNFSMaxInodes at slot
  unfold inodeWordOffset UNFSInodesPerBlock UNFSBlockWords UNFSInodeWords
  omega

theorem inodeWordOffset_apart {m n : Nat} (other : m ≠ n) :
    inodeWordOffset m + 16 ≤ inodeWordOffset n ∨ inodeWordOffset n + 16 ≤ inodeWordOffset m := by
  unfold inodeWordOffset UNFSInodesPerBlock UNFSBlockWords UNFSInodeWords
  omega

theorem length_inodeWords {inode : Inode} (name : inode.name.length = UNFSNameLen) :
    (inodeWords inode).length = 16 := by
  simp [inodeWords, wordsOf, name, UNFSNameLen]

theorem readInode_putAll {n off : Nat} {ws : List Word}
    (apart : off + ws.length ≤ inodeWordOffset n ∨ inodeWordOffset n + 16 ≤ off) :
    readInode (fs.putAll off ws) n = readInode fs n := by
  have same {k : Nat} (inside : k < 16) :
      (fs.putAll off ws).word (inodeWordOffset n + k) = fs.word (inodeWordOffset n + k) :=
    Image.word_putAll_of_outside (by omega)
  have name : ((range 7).flatMap fun i =>
        putUint32 ((fs.putAll off ws).word (inodeWordOffset n + i))) =
      (range 7).flatMap fun i => putUint32 (fs.word (inodeWordOffset n + i)) := by
    apply flatMap_congr
    intro i small
    rw [same (by have := mem_range.mp small; omega)]
  unfold readInode
  simp only [name, same (show 7 < 16 by decide), same (show 8 < 16 by decide),
    same (show 9 < 16 by decide), same (show 10 < 16 by decide), same (show 11 < 16 by decide),
    same (show 12 < 16 by decide), same (show 13 < 16 by decide)]

theorem readInode_writeInode_self {n : Nat} (slot : n < UNFSMaxInodes) {inode : Inode}
    (name : inode.name.length = UNFSNameLen) : readInode (writeInode fs n inode) n = inode := by
  have bounds := inodeWordOffset_bounds slot
  have fits : inodeWordOffset n + (inodeWords inode).length ≤ UNFSTotalBlocks * UNFSBlockWords := by
    rw [length_inodeWords name]
    unfold UNFSTotalBlocks UNFSBlockWords
    omega
  have held {k : Nat} {w : Word} (found : (inodeWords inode)[k]? = some w) :
      (writeInode fs n inode).word (inodeWordOffset n + k) = w := Image.word_putAll fits found
  have words : (wordsOf inode.name).length = 7 := by simp [wordsOf, name, UNFSNameLen]
  have field (k : Nat) : (inodeWords inode)[7 + k]? =
      [inode.size, inode.mode, inode.blockStart, inode.blockCount, inode.created, inode.modified,
        inode.fileType, 0, 0][k]? := by
    rw [inodeWords, List.getElem?_append_right (by omega), words, Nat.add_sub_cancel_left]
  have bytes : ((range 7).flatMap fun i =>
      putUint32 ((writeInode fs n inode).word (inodeWordOffset n + i))) = inode.name := by
    have whole := @flatMap_putUint32 inode.name 7 (by rw [name]; decide)
    rw [take_of_length_le (by rw [name]; decide)] at whole
    rw [← whole]
    apply flatMap_congr
    intro i small
    have inside := mem_range.mp small
    have found : (inodeWords inode)[i]? = some (wordAt inode.name (i * 4)) := by
      rw [inodeWords, List.getElem?_append_left (by omega)]
      exact getElem?_wordsOf (by rw [name]; exact inside)
    rw [held found]
  unfold readInode
  simp only [bytes, held (field 0), held (field 1), held (field 2), held (field 3), held (field 4),
    held (field 5), held (field 6)]

theorem readInode_writeInode_of_ne {m n : Nat} (other : m ≠ n) {inode : Inode}
    (name : inode.name.length = UNFSNameLen) :
    readInode (writeInode fs n inode) m = readInode fs m := by
  apply readInode_putAll
  rw [length_inodeWords name]
  exact (inodeWordOffset_apart other).symm

theorem readSuperblock_writeSuperblock (sb : Superblock) :
    readSuperblock (writeSuperblock fs sb) = sb := by
  have held {k : Nat} {w : Word}
      (found : [sb.magic, sb.version, sb.totalBlks, sb.freeBlks, sb.rootInode, sb.firstData][k]? =
        some w) : (writeSuperblock fs sb).word k = w := by
    have word := @Image.word_putAll fs 0 k _ w (show 6 ≤ _ by decide) found
    rwa [Nat.zero_add] at word
  unfold readSuperblock
  rw [@held 0 _ rfl, @held 1 _ rfl, @held 2 _ rfl, @held 3 _ rfl, @held 4 _ rfl, @held 5 _ rfl]

theorem readInode_writeSuperblock {n : Nat} (slot : n < UNFSMaxInodes) (sb : Superblock) :
    readInode (writeSuperblock fs sb) n = readInode fs n := by
  have bounds := inodeWordOffset_bounds slot
  exact readInode_putAll (Or.inl (Nat.le_trans (show 6 ≤ 128 by decide) bounds.1))

theorem readInode_formatFilesystem {n : Nat} (slot : n < UNFSMaxInodes) :
    (readInode formatFilesystem n).isFree = true := by
  rw [formatFilesystem, readInode_writeSuperblock slot]
  have zero (i : Nat) :
      Image.word ⟨Store.ofFn (UNFSTotalBlocks * UNFSBlockWords) fun _ => 0, rfl⟩ i = 0 := by
    rw [Image.word, Store.getD]
    split
    · next inside => exact Store.cell_ofFn _ _ inside
    · rfl
  simp only [readInode, zero]
  decide

theorem readData_putAll {off : Nat} {ws : List Word} {start size : Word}
    (apart : size = 0 ∨ off + ws.length ≤ start.toNat * UNFSBlockWords ∨
      start.toNat * UNFSBlockWords + (size.toNat + 3) / 4 ≤ off) :
    readData (fs.putAll off ws) start size = readData fs start size := by
  unfold readData
  split
  · rfl
  · next some =>
      congr 1
      apply flatMap_congr
      intro i small
      have inside := mem_range.mp small
      rw [Image.word_putAll_of_outside]
      rcases apart with none | before | behind
      · exact absurd none some
      · omega
      · omega

theorem length_padded (data : List Byte) : (padded data).length = 4 * ((data.length + 3) / 4) := by
  rw [padded, length_append, length_replicate]
  omega

theorem readData_putAll_self {start : Word} {data : List Byte} (small : data.length < 2 ^ 32)
    (fits : data.length = 0 ∨ start.toNat * UNFSBlockWords + (wordsOf (padded data)).length ≤
      UNFSTotalBlocks * UNFSBlockWords) :
    readData (fs.putAll (start.toNat * UNFSBlockWords) (wordsOf (padded data))) start
      (ofNat 32 data.length) = data := by
  have size : (ofNat 32 data.length).toNat = data.length := by
    rw [BitVec.toNat_ofNat, Nat.mod_eq_of_lt small]
  unfold readData
  split
  · next none =>
      rw [none] at size
      exact (eq_nil_of_length_eq_zero size.symm).symm
  · next some =>
      have room := fits.resolve_left fun none => some (by rw [none]; rfl)
      have whole := @flatMap_putUint32 (padded data) ((data.length + 3) / 4) (by rw [length_padded])
      have held : ((range ((data.length + 3) / 4)).flatMap fun i =>
            putUint32 ((fs.putAll (start.toNat * UNFSBlockWords) (wordsOf (padded data))).word
              (start.toNat * UNFSBlockWords + i))) =
          (range ((data.length + 3) / 4)).flatMap fun i =>
            putUint32 (wordAt (padded data) (i * 4)) := by
        apply flatMap_congr
        intro i small
        have inside := mem_range.mp small
        rw [Image.word_putAll room (getElem?_wordsOf (by rw [length_padded]; omega))]
      rw [size, held, whole, take_of_length_le (Nat.le_of_eq (length_padded data)), padded,
        take_left' rfl]

theorem scanBlocks_free {used : Word → Bool} {count n blk run runStart s : Nat}
    (here : runStart + run = blk) (short : run < count)
    (free : ∀ b, runStart ≤ b → b < blk → used (ofNat 32 b) = false)
    (found : scanBlocks used count n blk run runStart = some s) :
    runStart ≤ s ∧ s + count ≤ blk + n ∧
      ∀ b, s ≤ b → b < s + count → used (ofNat 32 b) = false := by
  induction n generalizing blk run runStart with
  | zero => cases found
  | succ n ih =>
    rw [scanBlocks] at found
    split at found
    · obtain ⟨start, stop, rest⟩ := ih (Nat.add_zero _) (by omega) (fun b _ _ => by omega) found
      exact ⟨by omega, by omega, rest⟩
    · next unused =>
        have ahead (b : Nat) (low : runStart ≤ b) (high : b < blk + 1) :
            used (ofNat 32 b) = false := by
          by_cases last : b = blk
          · rw [last]
            exact Bool.not_eq_true _ ▸ unused
          · exact free b low (by omega)
        split at found
        · cases found
          exact ⟨Nat.le_refl _, by omega, fun b low high => ahead b low (by omega)⟩
        · obtain ⟨start, stop, rest⟩ := ih (by omega) (by omega) ahead found
          exact ⟨start, by omega, rest⟩

end Unheaded.Upc
