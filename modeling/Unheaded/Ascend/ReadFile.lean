import Unheaded.Ascend.FsWalk
import Unheaded.Lib.Events

/-!
# Reading a file

A `read` of a file copies one chunk from one data block, whatever count it answers.
-/

namespace Unheaded.Ascend

open Lib Mbc Fdtable FsWalk List BitVec Option BitVec Bpf

/-! ## The count -/

theorem toNat_readCap {n size offset : Word} (more : offset < size) :
    (Machine.readCap n size offset).toNat =
      min (min (min n.toNat (size.toNat - offset.toNat)) 16) (1024 - offset.toNat % 1024) := by
  have before : offset.toNat < size.toNat := more
  have avail : (size - offset).toNat = size.toNat - offset.toNat := by
    rw [toNat_sub]
    omega
  have left : (BSIZE - offset % BSIZE).toNat = 1024 - offset.toNat % 1024 := by
    have size : BSIZE.toNat = 1024 := rfl
    rw [toNat_sub, toNat_umod, size]
    omega
  have chunk : Machine.READ_CHUNK.toNat = 16 := rfl
  unfold Machine.readCap
  simp only [lt_def]
  split <;> split <;> split <;> simp only [chunk] at * <;> omega

namespace Machine

/-! ## One call -/

theorem toNat_source {dblk dbw : Word} (block : wordOfBlock dblk = some dbw) (offset : Word) :
    (dbw * 4 + offset % BSIZE).toNat = 0x800000 + dblk.toNat * 1024 + offset.toNat % 1024 := by
  obtain ⟨inside, word⟩ := wordOfBlock_eq_some.mp block
  have size : BSIZE.toNat = 1024 := rfl
  have four : (4 : Word).toNat = 4 := rfl
  rw [toNat_add, toNat_mul, toNat_umod, size, four]
  omega

variable {m : Machine}

theorem readInode_cases {m' : Machine} {ret : Word} (read : m.readInode = some (m', ret)) :
    ∃ db, m.cpu.dinodeBase (m.fdInode m.pid m.a0).inum = some db ∧
      ((m.cpu.ramWord (db + 2) ≤ (m.fdInode m.pid m.a0).offset ∧ m' = m ∧ ret = 0) ∨
        ∃ dbw dst, (m.fdInode m.pid m.a0).offset < m.cpu.ramWord (db + 2) ∧
          wordOfBlock (m.cpu.dataBlock db ((m.fdInode m.pid m.a0).offset / BSIZE)) = some dbw ∧
          userPhys m.pid m.a1 READ_CHUNK = some dst ∧
          ret = readCap m.a2 (m.cpu.ramWord (db + 2)) (m.fdInode m.pid m.a0).offset ∧
          m' = (m.withCpu (m.cpu.copyBytes
              (dbw * 4 + (m.fdInode m.pid m.a0).offset % BSIZE) dst 16)).fdSetOffset
            m.pid m.a0 ((m.fdInode m.pid m.a0).offset + ret)) := by
  obtain ⟨db, base, read⟩ := bind_eq_some_iff.mp read
  refine ⟨db, base, ?_⟩
  dsimp only at read
  split at read
  next ended =>
    cases read
    exact Or.inl ⟨ended, rfl, rfl⟩
  next more =>
    split at read
    · cases read
    · obtain ⟨dbw, block, read⟩ := bind_eq_some_iff.mp read
      obtain ⟨dst, buffer, read⟩ := bind_eq_some_iff.mp read
      cases read
      exact Or.inr ⟨dbw, dst, BitVec.not_le.mp more, block, buffer, rfl, rfl⟩

def bufferByte (m : Machine) : Nat := sliceBase m.pid.toNat + m.a1.toNat

theorem bufferByte_off_disk (fits : m.a1.toNat + 16 ≤ 0x800000) :
    m.bufferByte + 16 ≤ 0x800000 ∨ 0x1000000 ≤ m.bufferByte := by
  unfold bufferByte sliceBase
  split <;> omega

theorem sysRead_inode (file : m.fdKind m.pid m.a0 = FD_INODE) : m.sysRead = match m.readInode with
      | some (m', ret) => m'.answer ret
      | none => m.answer FAILED := by
  exact if_pos file

theorem ram_fdSetOffset (m : Machine) (pid : Byte) (fd off : Word) :
    (m.fdSetOffset pid fd off).cpu = m.cpu := by
  unfold fdSetOffset putInode
  split <;> rfl

theorem ram_chunk {dblk dbw dst offset : Word} (block : wordOfBlock dblk = some dbw)
    (buffer : userPhys m.pid m.a1 READ_CHUNK = some dst) :
    (m.cpu.copyBytes (dbw * 4 + offset % BSIZE) dst 16).ram =
      m.cpu.ram.copyBytesAt (0x800000 + dblk.toNat * 1024 + offset.toNat % 1024)
        m.bufferByte 16 := by
  obtain ⟨fits, rfl⟩ := userPhys_eq_some.mp buffer
  have chunk : READ_CHUNK.toNat = 16 := rfl
  have bound := sliceBase_lt m.pid
  obtain ⟨inside, -⟩ := wordOfBlock_eq_some.mp block
  have source := toNat_source block offset
  have dest := @toNat_pidPhysOffset_add m.pid m.a1 (by omega)
  rw [ram_copyBytes _ (by rw [source]; omega) (by rw [dest]; omega), source, dest]
  rfl

end Machine

open Machine

/-- A `read` on a file changes no byte outside the chunk at its buffer, and
none when it fails.  The bytes it returns come from one data block inside the
ramdisk. -/
theorem read_touches_chunk (m : Machine) (file : m.fdKind m.pid m.a0 = FD_INODE) :
    (∀ a, ¬ (m.bufferByte ≤ a ∧ a < m.bufferByte + 16) →
      m.sysRead.machine.cpu.ram.byteAt a = m.cpu.ram.byteAt a) ∧
    (m.sysRead.machine.a0 = FAILED → m.sysRead.machine.cpu.ram = m.cpu.ram) ∧
    (m.sysRead.machine.a0 ≠ FAILED → ∃ src, ∀ c < m.sysRead.machine.a0.toNat,
      0x800000 ≤ src + c ∧ src + c < 0xC00000 ∧ ((m.bufferByte + c) / 4 < m.cpu.ram.len →
        m.sysRead.machine.cpu.ram.byteAt (m.bufferByte + c) = m.cpu.ram.byteAt (src + c))) := by
  rw [sysRead_inode file]
  cases read : m.readInode with
  | none =>
    refine ⟨fun _ _ => rfl, fun _ => rfl, fun answered => ?_⟩
    exact absurd rfl answered
  | some result =>
    obtain ⟨m', ret⟩ := result
    have answer : (m'.answer ret).machine.a0 = ret := rfl
    have ram : (m'.answer ret).machine.cpu.ram = m'.cpu.ram := rfl
    rw [answer, ram]
    obtain ⟨db, -, ended | ⟨dbw, dst, more, block, buffer, count, machine⟩⟩ := readInode_cases read
    · obtain ⟨-, rfl, rfl⟩ := ended
      exact ⟨fun _ _ => rfl, fun _ => rfl, fun _ => ⟨0, fun c nothing => absurd nothing (by simp)⟩⟩
    · have copied : m'.cpu.ram = m.cpu.ram.copyBytesAt (0x800000 +
          (m.cpu.dataBlock db ((m.fdInode m.pid m.a0).offset / BSIZE)).toNat * 1024 +
          (m.fdInode m.pid m.a0).offset.toNat % 1024) m.bufferByte 16 := by
        rw [machine, ram_fdSetOffset]
        exact ram_chunk block buffer
      have small : ret.toNat ≤ 16 ∧
          ret.toNat ≤ 1024 - (m.fdInode m.pid m.a0).offset.toNat % 1024 := by
        rw [count, toNat_readCap more]
        omega
      obtain ⟨inside, -⟩ := wordOfBlock_eq_some.mp block
      obtain ⟨fits, -⟩ := userPhys_eq_some.mp buffer
      rw [copied]
      refine ⟨fun a outside => ?_, fun failed => ?_, fun _ => ⟨0x800000 +
        (m.cpu.dataBlock db ((m.fdInode m.pid m.a0).offset / BSIZE)).toNat * 1024 +
        (m.fdInode m.pid m.a0).offset.toNat % 1024, fun c returned => ⟨?_, ?_, ?_⟩⟩⟩
      · exact Store.byteAt_copyBytesAt_of_outside _ (by omega)
      · have value : ret.toNat = 0xFFFFFFFF := by rw [failed]; rfl
        omega
      · omega
      · omega
      · intro mapped
        have off := bufferByte_off_disk fits
        exact Store.byteAt_copyBytesAt _ (by omega) mapped (by omega)

/-! ## The bytes of a file -/

namespace FsWalk

/-- `Dinode`: what `decode_dinode` keeps. -/
structure Dinode where
  type : Half
  nlink : Half
  size : Word
  addrs : List Word
  deriving DecidableEq

def decodeDinode (words : List Word) : Option Dinode :=
  if words.length < DINODE_WORDS.toNat then none
  else some {
    type := (words.getD 0 0 &&& 0xFFFF).setWidth 16
    nlink := (words.getD 1 0 >>> 16).setWidth 16
    size := words.getD 2 0
    addrs := (List.range (NDIRECT + 1)).map fun i => words.getD (3 + i) 0 }

def fileBlockIndex (off : Word) : Word := off / BSIZE

/-- `block_for_fbn`: nothing for a hole, and nothing past the indirect block. -/
def blockForFbn (addrs indirect : List Word) (fbn : Word) : Option Word :=
  if fbn.toNat < NDIRECT then
    let b := addrs.getD fbn.toNat 0
    if b = 0 then none else some b
  else
    let idx := fbn - BitVec.ofNat 32 NDIRECT
    if NINDIRECT ≤ idx then none
    else indirect[idx.toNat]?.bind fun b => if b = 0 then none else some b

def indirectBlock (addrs : List Word) : Word := addrs.getD NDIRECT 0

end FsWalk

end Unheaded.Ascend

namespace Unheaded.Mbc.Bpf

open Lib Ascend Ascend.FsWalk
open BitVec (ofNat)

variable (b : Bpf)

def wordsAt (w : Word) (n : Nat) : List Word :=
  (List.range n).map fun i => b.ramWord (w + ofNat 32 i)

theorem getD_wordsAt (w : Word) {n i : Nat} (inside : i < n) :
    (b.wordsAt w n).getD i 0 = b.ramWord (w + ofNat 32 i) := by
  rw [wordsAt, List.getD_eq_getElem?_getD, List.getElem?_map, List.getElem?_range inside]
  rfl

def dinode (inum : Word) : Option Dinode :=
  (b.dinodeBase inum).bind fun db => decodeDinode (b.wordsAt db 16)

def indirectWords (d : Dinode) : List Word :=
  match wordOfBlock (indirectBlock d.addrs) with
  | some w => if indirectBlock d.addrs = 0 then [] else b.wordsAt w 256
  | none => []

/-- The address of the byte of a file at an offset. -/
def fileByteAddr (d : Dinode) (k : Nat) : Option Nat :=
  (blockForFbn d.addrs (b.indirectWords d) (fileBlockIndex (ofNat 32 k))).bind fun blk =>
    if blk.toNat < 4096 then some (0x800000 + blk.toNat * 1024 + k % 1024) else none

/-- The image has a regular file under an inode number, with every block
allocated in the ramdisk. -/
def HoldsFile (inum : Word) (file : List Byte) : Prop :=
  ∃ d, b.dinode inum = some d ∧ d.type = T_FILE ∧ d.size.toNat = file.length ∧
    file.length ≤ (12 + 256) * 1024 ∧
    ∀ k (inside : k < file.length), ∃ a, b.fileByteAddr d k = some a ∧ file[k] = b.ram.byteAt a

def SameDisk (b b' : Bpf) : Prop :=
  ∀ a, 0x800000 ≤ a → a < 0xC00000 → b'.ram.byteAt a = b.ram.byteAt a

/-! ### The disk decides the file -/

section Disk

variable {b b' : Bpf}

theorem SameDisk.ramWord (same : SameDisk b b') {w : Word} (low : 0x200000 ≤ w.toNat)
    (high : w.toNat < 0x300000) : b'.ramWord w = b.ramWord w := by
  apply eq_of_bytes
  intro k small
  have word : (4 * w.toNat + k) / 4 = w.toNat := by omega
  have index : (4 * w.toNat + k) % 4 = k := by omega
  have byte := same (4 * w.toNat + k) (by omega) (by omega)
  rwa [Store.byteAt, Store.byteAt, word, index] at byte

variable {base blk db inum : Word}

theorem toNat_blockWord (block : wordOfBlock blk = some base) {k : Nat} (inside : k < 256) :
    (base + ofNat 32 k).toNat = 0x200000 + blk.toNat * 256 + k := by
  obtain ⟨region, word⟩ := wordOfBlock_eq_some.mp block
  rw [BitVec.toNat_add, BitVec.toNat_ofNat]
  omega

theorem SameDisk.blockWord (same : SameDisk b b') (block : wordOfBlock blk = some base) {k : Nat}
    (inside : k < 256) : b'.ramWord (base + ofNat 32 k) = b.ramWord (base + ofNat 32 k) := by
  obtain ⟨region, -⟩ := wordOfBlock_eq_some.mp block
  have place := toNat_blockWord block inside
  exact same.ramWord (by omega) (by omega)

theorem SameDisk.superblock (same : SameDisk b b') : b'.superblock = b.superblock := by
  have block : wordOfBlock SUPERBLOCK_BLOCK = some 0x200100 := rfl
  have magic := same.blockWord block (k := 0) (by decide)
  have ninodes := same.blockWord block (k := 3) (by decide)
  have inodestart := same.blockWord block (k := 6) (by decide)
  exact congrArg some (Superblock.mk.injEq .. ▸ ⟨magic, ninodes, inodestart⟩)

theorem SameDisk.dinodeBase (same : SameDisk b b') (inum : Word) :
    b'.dinodeBase inum = b.dinodeBase inum := by
  unfold Bpf.dinodeBase
  rw [same.superblock]

theorem dinodeBase_eq_some (base : b.dinodeBase inum = some db) :
    ∃ blk ib, wordOfBlock blk = some ib ∧ ∃ k, k + 16 ≤ 256 ∧ db = ib + ofNat 32 k := by
  unfold dinodeBase at base
  obtain ⟨sb, -, base⟩ := Option.bind_eq_some_iff.mp base
  split at base
  · obtain ⟨ib, block, base⟩ := Option.bind_eq_some_iff.mp base
    cases base
    refine ⟨_, ib, block, inum.toNat % 16 * 16, by omega, ?_⟩
    have slots : IPB.toNat = 16 := rfl
    have words : DINODE_WORDS.toNat = 16 := rfl
    refine congrArg (ib + ·) (BitVec.eq_of_toNat_eq ?_)
    rw [dinodeWordOffset, BitVec.toNat_mul, BitVec.toNat_umod, slots, words, BitVec.toNat_ofNat]
  · cases base

theorem SameDisk.dinode (same : SameDisk b b') (inum : Word) : b'.dinode inum = b.dinode inum := by
  unfold Bpf.dinode
  rw [same.dinodeBase]
  cases base : b.dinodeBase inum with
  | none => rfl
  | some db =>
    obtain ⟨blk, ib, block, k, inside, rfl⟩ := dinodeBase_eq_some base
    refine congrArg decodeDinode (List.map_congr_left fun i small => ?_)
    rw [List.mem_range] at small
    rw [BitVec.add_assoc, ← BitVec.ofNat_add]
    exact same.blockWord block (by omega)

theorem SameDisk.indirectWords (same : SameDisk b b') (d : Dinode) :
    b'.indirectWords d = b.indirectWords d := by
  unfold Bpf.indirectWords
  split
  next w block =>
    refine congrArg (ite _ []) (List.map_congr_left fun i small => ?_)
    exact same.blockWord block (List.mem_range.mp small)
  next => rfl

variable {d : Dinode}

theorem fileByteAddr_bounds {k a : Nat} (found : b.fileByteAddr d k = some a) :
    0x800000 ≤ a ∧ a < 0xC00000 := by
  obtain ⟨blk, -, found⟩ := Option.bind_eq_some_iff.mp found
  split at found <;> cases found
  omega

theorem SameDisk.holdsFile (same : SameDisk b b') {file : List Byte} (holds : b.HoldsFile inum file) :
    b'.HoldsFile inum file := by
  obtain ⟨d, dinode, type, size, bound, bytes⟩ := holds
  refine ⟨d, (same.dinode inum).trans dinode, type, size, bound, fun k inside => ?_⟩
  obtain ⟨a, place, byte⟩ := bytes k inside
  obtain ⟨low, high⟩ := fileByteAddr_bounds place
  refine ⟨a, ?_, byte.trans (same a low high).symm⟩
  unfold fileByteAddr at place ⊢
  rw [same.indirectWords]
  exact place

theorem decoded (dinode : decodeDinode (b.wordsAt db 16) = some d) : d.size = b.ramWord (db + 2) ∧
      ∀ i, i < 13 → d.addrs.getD i 0 = b.ramWord (db + 3 + ofNat 32 i) := by
  cases dinode
  refine ⟨getD_wordsAt b db (show 2 < 16 by decide), fun i small => ?_⟩
  have slot : i < NDIRECT + 1 := small
  have word := getD_wordsAt b db (show 3 + i < 16 by omega)
  rw [List.getD_eq_getElem?_getD, List.getElem?_map, List.getElem?_range slot]
  rwa [BitVec.ofNat_add, ← BitVec.add_assoc] at word

theorem dataBlock_eq (dinode : decodeDinode (b.wordsAt db 16) = some d) (fbn : Word) :
    b.dataBlock db fbn = (blockForFbn d.addrs (b.indirectWords d) fbn).getD 0 := by
  obtain ⟨-, addrs⟩ := decoded dinode
  have hole (v : Word) : v = (if v = 0 then none else some v : Option Word).getD 0 := by
    split
    · assumption
    · rfl
  have number (v : Word) : ofNat 32 v.toNat = v :=
    (BitVec.ofNat_toNat 32 v).trans (BitVec.setWidth_eq v)
  unfold dataBlock blockForFbn
  dsimp only
  split
  next direct =>
    rw [addrs fbn.toNat (by unfold NDIRECT at direct; omega), number]
    exact hole _
  next =>
    split
    · rfl
    next inside =>
      have small : (fbn - ofNat 32 NDIRECT).toNat < 256 :=
        BitVec.lt_def.mp (BitVec.not_le.mp inside)
      have indirect : indirectBlock d.addrs = b.ramWord (db + 3 + ofNat 32 NDIRECT) :=
        addrs NDIRECT (by decide)
      rw [indirectWords, indirect]
      cases wordOfBlock (b.ramWord (db + 3 + ofNat 32 NDIRECT)) with
      | none => rfl
      | some indw =>
        dsimp only
        by_cases named : b.ramWord (db + 3 + ofNat 32 NDIRECT) = 0
        · rw [if_neg (not_not.mpr named), if_pos named]
          rfl
        · rw [if_pos named, if_neg named, wordsAt, List.getElem?_map, List.getElem?_range small]
          dsimp only [Option.map_some]
          rw [number]
          exact hole _

end Disk

end Unheaded.Mbc.Bpf

namespace Unheaded.Ascend

open Lib Mbc Fdtable FsWalk
open BitVec (ofNat)

namespace Machine

/-! ## Reading on -/

/-- A descriptor stands at offset `k` of a file. -/
structure Reading (m : Machine) (pid : Byte) (fd inum : Word) (file : List Byte) (k : Nat) :
    Prop where
  sized : m.Sized
  kind : m.fdKind pid fd = FD_INODE
  entry : m.fdInode pid fd = ⟨inum, ofNat 32 k⟩
  within : k ≤ file.length
  holds : m.cpu.HoldsFile inum file

variable {m : Machine} {inum : Word} {file : List Byte} {k : Nat}

theorem Reading.slot {pid : Byte} {fd : Word} (reading : m.Reading pid fd inum file k) :
    pid.toNat < MAX_PROCESSES ∧ fd.toNat < NOFILE := by
  have used : m.fdKind pid fd ≠ FD_FREE := by
    rw [reading.kind]
    decide
  constructor
  · by_contra outside
    exact used (fdKind_of_slot_ge reading.sized (Nat.not_lt.mp outside))
  · by_contra outside
    exact used (if_pos (Nat.not_lt.mp outside))

/-- A `read` of at least one byte, with room for a chunk in the slice. -/
structure Asks (m : Machine) : Prop where
  wants : 1 ≤ m.a2.toNat
  fits : m.a1.toNat + 16 ≤ 0x800000
  mapped : m.bufferByte + 16 ≤ 4 * m.cpu.ram.len

def returnedBytes (m m' : Machine) : List Byte :=
  (List.range m'.a0.toNat).map fun c => m'.cpu.ram.byteAt (m.bufferByte + c)

theorem fileByteAddr_add {b : Bpf} {d : Dinode} {a c : Nat} (small : k + c < 2 ^ 32)
    (place : b.fileByteAddr d k = some a) (same : k % 1024 + c < 1024) :
    b.fileByteAddr d (k + c) = some (a + c) := by
  have size : BSIZE.toNat = 1024 := rfl
  have block : fileBlockIndex (ofNat 32 (k + c)) = fileBlockIndex (ofNat 32 k) := by
    apply BitVec.eq_of_toNat_eq
    rw [fileBlockIndex, fileBlockIndex, BitVec.toNat_udiv, BitVec.toNat_udiv, size,
      BitVec.toNat_ofNat, BitVec.toNat_ofNat]
    omega
  unfold Bpf.fileByteAddr at place ⊢
  rw [block]
  obtain ⟨blk, found, place⟩ := Option.bind_eq_some_iff.mp place
  refine Option.bind_eq_some_iff.mpr ⟨blk, found, ?_⟩
  split at place <;> cases place
  next inside =>
    rw [if_pos inside, Option.some.injEq]
    omega

theorem blockForFbn_ne_zero {addrs indirect : List Word} {fbn blk : Word}
    (found : blockForFbn addrs indirect fbn = some blk) : blk ≠ 0 := by
  unfold blockForFbn at found
  dsimp only at found
  split at found
  · split at found <;> cases found
    next named =>
      exact named
  · split at found
    · cases found
    · obtain ⟨entry, -, found⟩ := Option.bind_eq_some_iff.mp found
      split at found <;> cases found
      next named =>
        exact named

theorem fdSetOffset_withCpu (m : Machine) (b : Bpf) (pid : Byte) (fd off : Word) :
    (m.withCpu b).fdSetOffset pid fd off =
      (m.withCpu b).putInode pid fd ⟨(m.fdInode pid fd).inum, off⟩ := rfl

theorem readInode_eq {offset db dbw dst : Word} (entry : m.fdInode m.pid m.a0 = ⟨inum, offset⟩)
    (base : m.cpu.dinodeBase inum = some db) (more : offset < m.cpu.ramWord (db + 2))
    (named : m.cpu.dataBlock db (offset / BSIZE) ≠ 0)
    (block : wordOfBlock (m.cpu.dataBlock db (offset / BSIZE)) = some dbw)
    (buffer : userPhys m.pid m.a1 READ_CHUNK = some dst) : m.readInode = some
      ((m.withCpu (m.cpu.copyBytes (dbw * 4 + offset % BSIZE) dst 16)).putInode m.pid m.a0
        ⟨inum, offset + readCap m.a2 (m.cpu.ramWord (db + 2)) offset⟩,
        readCap m.a2 (m.cpu.ramWord (db + 2)) offset) := by
  have chunk : READ_CHUNK.toNat = 16 := rfl
  rw [readInode, entry]
  dsimp only
  rw [base]
  dsimp only [Bind.bind, Option.bind]
  rw [if_neg (BitVec.not_le.mpr more), if_neg named, block, buffer]
  dsimp only
  rw [fdSetOffset_withCpu, entry]
  rfl

/-- What a call copies before the end of the file. -/
theorem readInode_file (reading : m.Reading m.pid m.a0 inum file k) (asks : m.Asks)
    (more : k < file.length) :
    ∃ src count : Nat, 1 ≤ count ∧ count ≤ m.a2.toNat ∧ count ≤ 16 ∧ k + count ≤ file.length ∧
      0x800000 ≤ src ∧ src < 0xC00000 ∧
      (∀ c < count, file[k + c]? = some (m.cpu.ram.byteAt (src + c))) ∧
      ∃ b : Bpf, b.ram = m.cpu.ram.copyBytesAt src m.bufferByte 16 ∧ b.state = m.cpu.state ∧
        m.readInode = some ((m.withCpu b).putInode m.pid m.a0 ⟨inum, ofNat 32 (k + count)⟩,
          ofNat 32 count) := by
  obtain ⟨d, dinode, -, size, bound, bytes⟩ := reading.holds
  obtain ⟨db, base, decode⟩ := Option.bind_eq_some_iff.mp dinode
  obtain ⟨sizeWord, -⟩ := Bpf.decoded decode
  obtain ⟨a, place, -⟩ := bytes k more
  have offset : (ofNat 32 k : Word).toNat = k := by
    rw [BitVec.toNat_ofNat]
    omega
  obtain ⟨low, high⟩ := Bpf.fileByteAddr_bounds place
  obtain ⟨blk, found, address⟩ := Option.bind_eq_some_iff.mp place
  have named := blockForFbn_ne_zero found
  split at address
  swap
  · cases address
  next inside =>
    cases address
    obtain ⟨dbw, block⟩ : ∃ dbw, wordOfBlock blk = some dbw := by
      rw [wordOfBlock, if_neg (BitVec.not_le.mpr inside)]
      exact ⟨_, rfl⟩
    have buffer : userPhys m.pid m.a1 READ_CHUNK = some (Phase12.pidPhysOffset m.pid + m.a1) :=
      userPhys_eq_some.mpr ⟨asks.fits, rfl⟩
    have before : (ofNat 32 k : Word) < d.size := by
      rw [BitVec.lt_def, offset, size]
      exact more
    have cap := toNat_readCap (n := m.a2) before
    have wants := asks.wants
    have data : m.cpu.dataBlock db (ofNat 32 k / BSIZE) = blk := by
      rw [Bpf.dataBlock_eq decode]
      exact congrArg (fun o : Option Word => o.getD 0) found
    have chunk := @ram_chunk m blk dbw _ (ofNat 32 k) block buffer
    rw [offset] at chunk
    refine ⟨_, (readCap m.a2 d.size (ofNat 32 k)).toNat, by omega, by omega, by omega,
      by omega, low, high, fun c returned => ?_, _, chunk, ?_, ?_⟩
    · obtain ⟨a, next, byte⟩ := bytes (k + c) (by omega)
      have following := fileByteAddr_add (c := c) (by omega) place (by omega)
      rw [following] at next
      cases next
      rw [List.getElem?_eq_getElem (by omega), byte]
    · exact Bpf.state_copyBytes _ _ _ _
    · have next : ofNat 32 k + readCap m.a2 d.size (ofNat 32 k) =
          ofNat 32 (k + (readCap m.a2 d.size (ofNat 32 k)).toNat) := by
        apply BitVec.eq_of_toNat_eq
        rw [BitVec.toNat_add, offset, BitVec.toNat_ofNat]
      have count : ofNat 32 (readCap m.a2 d.size (ofNat 32 k)).toNat =
          readCap m.a2 d.size (ofNat 32 k) := by
        rw [BitVec.ofNat_toNat, BitVec.setWidth_eq]
      rw [← next, count, sizeWord]
      exact readInode_eq reading.entry base (sizeWord ▸ before) (data ▸ named) (data ▸ block) buffer

theorem readInode_ended (reading : m.Reading m.pid m.a0 inum file file.length) :
    m.readInode = some (m, 0) := by
  obtain ⟨d, dinode, -, size, bound, -⟩ := reading.holds
  obtain ⟨db, base, decode⟩ := Option.bind_eq_some_iff.mp dinode
  obtain ⟨sizeWord, -⟩ := Bpf.decoded decode
  have ended : m.cpu.ramWord (db + 2) ≤ ofNat 32 file.length := by
    rw [← sizeWord, BitVec.le_def, BitVec.toNat_ofNat]
    omega
  rw [readInode, reading.entry]
  dsimp only
  rw [base]
  dsimp only [Bind.bind, Option.bind]
  rw [if_pos ended]
  rfl

/-- What one call does to a descriptor in a file: its count, the bytes it
returns and the descriptor after it. -/
structure ReadsOn (m m' : Machine) (inum : Word) (file : List Byte) (k : Nat) : Prop where
  atMost : m'.a0.toNat ≤ m.a2.toNat
  ended : m'.a0.toNat = 0 ↔ k = file.length
  bytes : m.returnedBytes m' = (file.drop k).take m'.a0.toNat
  reading : m'.Reading m.pid m.a0 inum file (k + m'.a0.toNat)

theorem sysRead_file (reading : m.Reading m.pid m.a0 inum file k) (asks : m.Asks) :
    m.ReadsOn m.sysRead.machine inum file k := by
  rw [sysRead_inode reading.kind]
  rcases Nat.lt_or_eq_of_le reading.within with more | rfl
  · obtain ⟨src, count, pos, atMost, chunk, within, low, high, bytes, b, ram, state, read⟩ :=
      readInode_file reading asks more
    have value : (ofNat 32 count : Word).toNat = count := by
      rw [BitVec.toNat_ofNat]
      omega
    have off := bufferByte_off_disk asks.fits
    have mapped := asks.mapped
    rw [read]
    generalize after : (m.withCpu b).putInode m.pid m.a0 ⟨inum, ofNat 32 (k + count)⟩ = m'
    have cpu : m'.cpu = b := by rw [← after, cpu_putInode]; rfl
    have returned : (m'.answer (ofNat 32 count)).machine.a0 = ofNat 32 count := rfl
    have memory : (m'.answer (ofNat 32 count)).machine.cpu.ram =
        m.cpu.ram.copyBytesAt src m.bufferByte 16 := by rw [← ram, ← cpu]; rfl
    have kept : Bpf.SameDisk m.cpu (m'.answer (ofNat 32 count)).machine.cpu := by
      intro a first last
      rw [memory]
      exact Store.byteAt_copyBytesAt_of_outside _ (by omega)
    have slot := reading.slot
    refine ⟨?_, ?_, ?_, ?_⟩
    · rw [returned, value]
      exact atMost
    · rw [returned]
      omega
    · rw [returnedBytes, returned, value, memory]
      apply List.ext_getElem?
      intro c
      by_cases inside : c < count
      · rw [List.getElem?_map, List.getElem?_range inside, List.getElem?_take_of_lt inside,
          List.getElem?_drop, bytes c inside]
        exact congrArg some (Store.byteAt_copyBytesAt _ (by omega) (by omega) (by omega))
      · rw [List.getElem?_eq_none (by simpa using inside), List.getElem?_eq_none (by simp; omega)]
    · rw [returned, value]
      refine ⟨?_, ?_, ?_, within, kept.holdsFile reading.holds⟩
      · rw [← after]
        exact ((reading.sized.withCpu b).putInode _ _ _).withCpu _
      · have kind := fdKind_putInode (m := m.withCpu b) m.pid m.pid m.a0 m.a0
          ⟨inum, ofNat 32 (k + count)⟩
        rw [after] at kind
        exact kind.trans reading.kind
      · rw [← after]
        exact fdInode_putInode (reading.sized.withCpu b) slot.1 slot.2 _
  · rw [readInode_ended reading]
    refine ⟨Nat.zero_le _, iff_of_true rfl rfl, (List.take_zero).symm, ?_⟩
    have same : Bpf.SameDisk m.cpu (m.setReg 8 0).cpu := fun _ _ _ => rfl
    exact ⟨reading.sized.withCpu _, reading.kind, reading.entry, Nat.le_refl _,
      same.holdsFile reading.holds⟩

end Machine

open Machine

/-! ## Runs of calls -/

/-- A call of `read` on the machine, from the CPU state the program brought. -/
def afterRead (m : Machine) (cpu : Bpf) : Machine := (m.withCpu cpu).sysRead.machine

/-- A program calls `read` on a descriptor. -/
structure CallsRead (pid : Byte) (fd : Word) (m : Machine) (cpu : Bpf) : Prop where
  pid : cpu.state.currentPid = pid
  fd : cpu.state.regs 8 = fd
  disk : m.cpu.SameDisk cpu
  asks : (m.withCpu cpu).Asks

/-- The bytes that a run of calls has returned. -/
def delivered : Machine → List Bpf → List Byte
  | _, [] => []
  | m, cpu :: calls =>
    (m.withCpu cpu).returnedBytes (afterRead m cpu) ++ delivered (afterRead m cpu) calls

section Runs

variable {m : Machine} {pid : Byte} {fd inum : Word} {file : List Byte} {k : Nat}

theorem readsOn_afterRead {cpu : Bpf} (reading : m.Reading pid fd inum file k)
    (call : CallsRead pid fd m cpu) : (m.withCpu cpu).ReadsOn (afterRead m cpu) inum file k := by
  obtain ⟨rfl, rfl, disk, asks⟩ := call
  refine sysRead_file ?_ asks
  exact ⟨reading.sized.withCpu cpu, reading.kind, reading.entry, reading.within,
    disk.holdsFile reading.holds⟩

theorem reading_afterAll {calls : List Bpf} (reading : m.Reading pid fd inum file k)
    (called : Along afterRead (CallsRead pid fd) m calls) :
    delivered m calls = (file.drop k).take (delivered m calls).length ∧
      (afterAll afterRead m calls).Reading pid fd inum file (k + (delivered m calls).length) := by
  induction calls generalizing m k with
  | nil => exact ⟨rfl, reading⟩
  | cons cpu calls ih =>
    obtain ⟨call, called⟩ := called
    have step := readsOn_afterRead reading call
    have next : (afterRead m cpu).Reading pid fd inum file (k + (afterRead m cpu).a0.toNat) := by
      have reads := step.reading
      rw [show (m.withCpu cpu).pid = pid from call.pid,
        show (m.withCpu cpu).a0 = fd from call.fd] at reads
      exact reads
    obtain ⟨bytes, rest⟩ := ih next called
    have length : ((m.withCpu cpu).returnedBytes (afterRead m cpu)).length =
        (afterRead m cpu).a0.toNat := by simp [returnedBytes]
    have total : (delivered m (cpu :: calls)).length =
        (afterRead m cpu).a0.toNat + (delivered (afterRead m cpu) calls).length := by
      rw [delivered, List.length_append, length]
    rw [total, ← Nat.add_assoc]
    refine ⟨?_, rest⟩
    rw [delivered, List.take_add, ← step.bytes, List.drop_drop, ← bytes]

end Runs

/-- Calls of `read` on a fresh descriptor deliver the file in order.  Before
its end every call returns between one byte and the count it asked for; a call
returns nothing exactly when the file has been delivered. -/
theorem reads_return_file {m : Machine} {pid : Byte} {fd inum : Word} {file : List Byte}
    (fresh : m.Reading pid fd inum file 0) (calls : List Bpf) (cpu : Bpf)
    (called : Along afterRead (CallsRead pid fd) m (calls ++ [cpu])) :
    delivered m (calls ++ [cpu]) <+: file ∧ (delivered m calls ≠ file →
        1 ≤ (afterAll afterRead m (calls ++ [cpu])).a0.toNat ∧
          (afterAll afterRead m (calls ++ [cpu])).a0.toNat ≤ (cpu.state.regs 10).toNat) ∧
      ((afterAll afterRead m (calls ++ [cpu])).a0 = 0 ↔ delivered m calls = file) := by
  obtain ⟨before, last⟩ := along_append.mp called
  obtain ⟨bytes, reading⟩ := reading_afterAll fresh before
  obtain ⟨all, -⟩ := reading_afterAll fresh called
  rw [List.drop_zero] at bytes all
  rw [Nat.zero_add] at reading
  have step := readsOn_afterRead reading last.1
  have complete : delivered m calls = file ↔ (delivered m calls).length = file.length := by
    constructor
    · exact congrArg List.length
    · intro length
      rw [bytes, length, List.take_length]
  have result : afterAll afterRead m (calls ++ [cpu]) =
      afterRead (afterAll afterRead m calls) cpu := afterAll_append afterRead m calls [cpu]
  have zero : (afterRead (afterAll afterRead m calls) cpu).a0 = 0 ↔
      (afterRead (afterAll afterRead m calls) cpu).a0.toNat = 0 := BitVec.toNat_inj.symm
  rw [result]
  refine ⟨?_, fun more => ⟨?_, step.atMost⟩, ?_⟩
  · rw [all]
    exact List.take_prefix _ _
  · have left := mt step.ended.mp (mt complete.mpr more)
    omega
  · rw [zero, complete]
    exact step.ended

/-- An image whose inode 2 is the file `abc`. -/
def abcDisk : Nat → Word
  | 0x200100 => FSMAGIC
  | 0x200103 => 5
  | 0x200106 => 2
  | 0x200220 => 2
  | 0x200222 => 3
  | 0x200223 => 4
  | 0x200400 => 0x00636261
  | _ => 0

/-- Process 0 about to read `n` bytes from descriptor 0. -/
def readerCpu (n : Word) : Bpf := { Bpf.boot { MbcCpuState.default with
      privLevel := 3
      regs := Function.update (Function.update (fun _ => 0) 9 0x1000) 10 n } 0 [] [] with
    ram := Store.ofFn RAM_MAP_WORDS abcDisk
    ascendLinux := true }

def reader (n : Word) : Machine := (Machine.boot (readerCpu n)).fdSetInode 0 0 2

theorem holdsFile_reader : (reader 2).cpu.HoldsFile 2 [0x61, 0x62, 0x63] := by
  refine ⟨⟨2, 0, 3, [4, 0, 0, 0, 0, 0, 0, 0, 0, 0, 0, 0, 0]⟩, by decide, rfl, rfl, by decide, ?_⟩
  intro k inside
  have small : k < 3 := inside
  interval_cases k
  · exact ⟨0x801000, rfl, by decide +revert⟩
  · exact ⟨0x801001, rfl, by decide +revert⟩
  · exact ⟨0x801002, rfl, by decide +revert⟩

theorem reader_delivers : delivered (reader 2) [readerCpu 2] <+: [0x61, 0x62, 0x63] := by
  refine (@reads_return_file (reader 2) 0 0 2 _ ?_ [] (readerCpu 2) ?_).1
  · exact ⟨⟨rfl, rfl⟩, rfl, rfl, by decide, holdsFile_reader⟩
  · refine ⟨⟨rfl, rfl, fun _ _ _ => rfl, ⟨by decide, by decide, by decide⟩⟩, trivial⟩

theorem reader_keeps_next :
    (reader 1).sysRead.machine.cpu.ram.byteAt 0x1010 = (reader 1).cpu.ram.byteAt 0x1010 :=
  (read_touches_chunk (reader 1) rfl).1 0x1010 (by decide)

/-- A read of one byte changes the byte after it. -/
theorem one_byte_read_changes_two : (reader 1).fdKind (reader 1).pid (reader 1).a0 = FD_INODE ∧
      ¬ ∀ a, ¬ ((reader 1).bufferByte ≤ a ∧ a < (reader 1).bufferByte + (reader 1).a2.toNat) →
        (reader 1).sysRead.machine.cpu.ram.byteAt a = (reader 1).cpu.ram.byteAt a := by
  refine ⟨rfl, fun frame => ?_⟩
  have byte := frame 0x1001 (by decide)
  revert byte
  decide

end Unheaded.Ascend
