import Unheaded.Ascend.Files

/-!
# The file system image

The image lies in RAM from word `RAMDISK_BASE_WORD` on, in blocks of 1024 bytes.
-/

namespace Unheaded.Ascend

open Lib Mbc Fdtable BitVec

namespace FsWalk

def BSIZE : Word := 1024
def FS_WORDS_PER_BLOCK : Word := 256
def DINODE_WORDS : Word := 16
def IPB : Word := 16
def NDIRECT : Nat := 12
def NINDIRECT : Word := 256
def ROOTINO : Word := 1
def FSMAGIC : Word := 0x10203040
def DIRSIZ : Nat := 14
def DIRENT_BYTES : Word := 16
def DIRENTS_PER_BLOCK : Word := 64
def SUPERBLOCK_BLOCK : Word := 1
def FS_TOTAL_BLOCKS : Word := 4096
def T_DIR : Half := 1
def T_FILE : Half := 2

/-- `mbc_block::RAMDISK_BASE_WORD` as the handlers use it. -/
def RAMDISK_BASE_WORD : Word := 0x200000

/-- `word_of_block`: nothing past the ramdisk. -/
def wordOfBlock (b : Word) : Option Word :=
  if FS_TOTAL_BLOCKS ≤ b then none else some (RAMDISK_BASE_WORD + b * FS_WORDS_PER_BLOCK)

def inumValid (inum ninodes : Word) : Bool := decide (ROOTINO ≤ inum) && decide (inum < ninodes)

def inodeBlock (inum inodestart : Word) : Word := inum / IPB + inodestart

def dinodeWordOffset (inum : Word) : Word := inum % IPB * DINODE_WORDS

theorem wordOfBlock_eq_some {b w : Word} :
    wordOfBlock b = some w ↔ b.toNat < 4096 ∧ w.toNat = 0x200000 + b.toNat * 256 := by
  have region : FS_TOTAL_BLOCKS ≤ b ↔ 4096 ≤ b.toNat := by
    rfl
  unfold wordOfBlock
  by_cases inside : b.toNat < 4096
  · have value : (RAMDISK_BASE_WORD + b * FS_WORDS_PER_BLOCK).toNat = 0x200000 + b.toNat * 256 := by
      have start : RAMDISK_BASE_WORD.toNat = 0x200000 := rfl
      have words : FS_WORDS_PER_BLOCK.toNat = 256 := rfl
      rw [toNat_add, toNat_mul, words]
      omega
    rw [if_neg (by rw [region]; omega)]
    constructor
    · rintro ⟨rfl⟩
      exact ⟨inside, value⟩
    · rintro ⟨-, word⟩
      exact congrArg some (eq_of_toNat_eq (value.trans word.symm))
  · rw [if_pos (by rw [region]; omega)]
    constructor
    · intro found
      cases found
    · rintro ⟨found, -⟩
      exact absurd found inside

end FsWalk

open FsWalk

/-- What the handlers read of the superblock. -/
structure Superblock where
  magic : Word
  ninodes : Word
  inodestart : Word

end Unheaded.Ascend

namespace Unheaded.Mbc.Bpf

open Lib Ascend Ascend.FsWalk
open BitVec (ofNat)

variable (b : Bpf)

def superblock : Option Superblock := (wordOfBlock SUPERBLOCK_BLOCK).map fun sw =>
    ⟨b.ramWord sw, b.ramWord (sw + 3), b.ramWord (sw + 6)⟩

/-- The word address of the dinode of `inum`, behind the checks that `fstat`
and `read` make. -/
def dinodeBase (inum : Word) : Option Word := do
  let sb ← b.superblock
  if sb.magic = FSMAGIC ∧ inumValid inum sb.ninodes then
    let ib ← wordOfBlock (inodeBlock inum sb.inodestart)
    pure (ib + dinodeWordOffset inum)
  else none

/-- The data block of file block `fbn`; 0 when there is none. -/
def dataBlock (db fbn : Word) : Word :=
  if fbn.toNat < NDIRECT then b.ramWord (db + 3 + fbn)
  else
    let idx := fbn - ofNat 32 NDIRECT
    if NINDIRECT ≤ idx then 0
    else
      let indBlk := b.ramWord (db + 3 + ofNat 32 NDIRECT)
      match wordOfBlock indBlk with
      | some indw => if indBlk ≠ 0 then b.ramWord (indw + idx) else 0
      | none => 0

def copyBytes (src dst : Word) (n : Nat) : Bpf := (List.range n).foldl (fun b c =>
    b.ramWriteByte (dst + ofNat 32 c) (b.ramByte (src + ofNat 32 c))) b

@[simp] theorem state_copyBytes (src dst : Word) (n : Nat) :
    (b.copyBytes src dst n).state = b.state := by
  unfold copyBytes
  induction List.range n generalizing b with
  | nil => rfl
  | cons c cs ih => exact ih _

theorem copyBytes_succ (src dst : Word) (n : Nat) : b.copyBytes src dst (n + 1) =
      (b.copyBytes src dst n).ramWriteByte (dst + ofNat 32 n)
        ((b.copyBytes src dst n).ramByte (src + ofNat 32 n)) := by
  rw [copyBytes, List.range_succ, List.foldl_append]
  rfl

theorem ram_copyBytes {src dst : Word} {n : Nat} (reads : src.toNat + n ≤ 2 ^ 32)
    (writes : dst.toNat + n ≤ 2 ^ 32) :
    (b.copyBytes src dst n).ram = b.ram.copyBytesAt src.toNat dst.toNat n := by
  induction n with
  | zero => rfl
  | succ n ih =>
    have step (a : Word) (fits : a.toNat + (n + 1) ≤ 2 ^ 32) :
        (a + ofNat 32 n).toNat = a.toNat + n := by
      rw [BitVec.toNat_add, BitVec.toNat_ofNat]
      omega
    rw [copyBytes_succ, ram_ramWriteByte, ramByte_eq, step src reads, step dst writes,
      ih (by omega) (by omega), Store.copyBytesAt]

end Unheaded.Mbc.Bpf

namespace Unheaded.Ascend

open Lib Mbc Fdtable FsWalk

namespace Machine

/-- What `fstat` finds out about a descriptor, in the words of `struct stat`. -/
structure Stat where
  dev : Word
  ino : Word
  typeNlink : Word
  size : Word

variable (m : Machine)

/-- The dinode behind a file descriptor. -/
def statOf : Option Stat :=
  if m.fdKind m.pid m.a0 = FD_INODE then
    let inum := (m.fdInode m.pid m.a0).inum
    (m.cpu.dinodeBase inum).map fun db =>
      let type := m.cpu.ramWord db &&& 0xFFFF
      let nlink := m.cpu.ramWord (db + 1) >>> 16
      ⟨1, inum, type ||| (nlink <<< 16), m.cpu.ramWord (db + 2)⟩
  else none

/-- `SYS_fstat` (8). -/
def sysFstat : Arm :=
  match m.statOf, userPhys m.pid m.a1 16 with
  | some st, some phys =>
    let w := phys >>> 2
    let b := (((m.cpu.ramWriteWord w st.dev).ramWriteWord (w + 1) st.ino).ramWriteWord (w + 2)
      st.typeNlink).ramWriteWord (w + 3) st.size
    (m.withCpu b).answer 0
  | _, _ => m.answer FAILED

/-- Bytes a `read` of a file copies. -/
def READ_CHUNK : Word := 16

/-- The count of one `read`: the request, cut to the rest of the file, to the
chunk and to the rest of the block. -/
def readCap (n size offset : Word) : Word :=
  let avail := size - offset
  let cap := if n < avail then n else avail
  let cap := if READ_CHUNK < cap then READ_CHUNK else cap
  let blockLeft := BSIZE - offset % BSIZE
  if blockLeft < cap then blockLeft else cap

/-- `SYS_read` (5) of a file: `none` is the answer -1. -/
def readInode : Option (Machine × Word) := do
  let n := m.a2
  let ⟨inum, offset⟩ := m.fdInode m.pid m.a0
  let db ← m.cpu.dinodeBase inum
  let size := m.cpu.ramWord (db + 2)
  if size ≤ offset then pure (m, 0)
  else
    let cap := readCap n size offset
    let within := offset % BSIZE
    let dblk := m.cpu.dataBlock db (offset / BSIZE)
    if dblk = 0 then none
    else
      let dbw ← wordOfBlock dblk
      let src := dbw * 4 + within
      let dst ← userPhys m.pid m.a1 READ_CHUNK
      let copied := m.withCpu (m.cpu.copyBytes src dst READ_CHUNK.toNat)
      pure (copied.fdSetOffset m.pid m.a0 (offset + cap), cap)

/-- Entry `i` of `KBD_MAP`. -/
def kbdSlot (i : Word) : Word :=
  if i = 0 then m.cpu.kbd else m.kbdMap.getD i.toNat 0

/-- `SYS_read` of the console: one byte of the ring; an empty ring blocks. -/
def readConsole : Arm :=
  if m.kbdTail < m.kbdHead then
    let ch : Byte := ((m.kbdSlot (m.kbdTail &&& 63) >>> 1) &&& 0xFF).setWidth 8
    match userPhys m.pid m.a1 1 with
    | some phys =>
      ({ m.withCpu (m.cpu.memWriteByte phys ch) with kbdTail := m.kbdTail + 1 }).answer 1
    | none => m.answer FAILED
  else m.again

/-- `SYS_read` (5). -/
def sysRead : Arm :=
  let kind := m.fdKind m.pid m.a0
  if kind = FD_INODE then
    match m.readInode with
    | some (m', ret) => m'.answer ret
    | none => m.answer FAILED
  else if kind = FD_CONSOLE then m.readConsole
  else m.answer FAILED

end Machine

end Unheaded.Ascend
