import Mathlib.Data.List.Basic
import Unheaded.Mbc.Bpf
import Unheaded.Mbc.Host

/-!
# Block input and output of the BPF interpreter

The BPF interpreter copies a block in chunks of sixteen words, one in a tick: it counts the words
in `r3`, backs up its pc and executes the call again.
-/

namespace Unheaded.Mbc

open Lib List BitVec Function Store
open BitVec (ofNat)

/-- The size of `RAM_MAP`. -/
def RAM_MAP_WORDS : Nat := 16777216

namespace Bpf

/-- Sixteen words; the addresses wrap, and those outside of the map are skipped. -/
def copyChunk (ram : Store Word) (srcBase dstBase : Word) : Store Word :=
  (range 16).foldl (fun ram w =>
    ram.set (dstBase + ofNat 32 w).toNat
      (ram.getD (srcBase + ofNat 32 w).toNat 0)) ram

def diskWord (blockNum : Word) : Word :=
  ofNat 32 Block.RAMDISK_BASE_WORD + blockNum * ofNat 32 Block.WORDS_PER_BLOCK

/-- `SYS_READ_BLOCK` and `SYS_WRITE_BLOCK`, one chunk: the end of the call, or
the end of the tick with the call to be made again. -/
def sysBlock (b : Bpf) (toDisk : Bool) : Iteration :=
  let blockNum := b.state.regs 1
  let bufAddr := b.state.regs 2
  let progress := b.state.regs 3
  if blockNum.toNat < Block.TOTAL_BLOCKS then
    let disk := diskWord blockNum + progress
    let buf := (bufAddr >>> 2) + progress
    let b := b.withRam (if toDisk then copyChunk b.ram buf disk else copyChunk b.ram disk buf)
    let nextProgress := progress + 16
    if 128 ≤ nextProgress then .next ((b.setReg 0 Block.BLOCK_SIZE).setReg 3 0)
    else .stop ((b.setReg 3 nextProgress).withPc (b.state.pc - 1))
  else .next (b.setReg 0 (negErrno Lsys.EIO))

/-- The call in as many ticks as it needs: the next tick fetches the same
instruction again. -/
def runBlock (toDisk : Bool) : Nat → Bpf → Option Bpf
  | 0, _ => none
  | ticks + 1, b =>
    match b.sysBlock toDisk with
    | .next b => some b
    | .stop b => runBlock toDisk ticks (b.withPc (b.state.pc + 1))
    | .system _ => none

end Bpf

variable (ram : Store Word)

theorem copyWords_add (src dst n m : Nat) :
    copyWords ram src dst (n + m) = copyWords (copyWords ram src dst n) (src + n) (dst + n) m := by
  unfold copyWords
  rw [range_add, foldl_append, foldl_map]
  simp only [Nat.add_assoc]

theorem getD_copyWords_of_outside {src dst n i : Nat} (outside : i < dst ∨ dst + n ≤ i) :
    (copyWords ram src dst n).getD i 0 = ram.getD i 0 := by
  refine getD_copyCells_of_ne ram fun w mem => ?_
  have bound := mem_range.mp mem
  omega

theorem getD_copyWords {src dst n w : Nat} (apart : src + n ≤ dst ∨ dst + n ≤ src) (copied : w < n)
    (inside : dst + w < ram.len) :
    (copyWords ram src dst n).getD (dst + w) 0 = ram.getD (src + w) 0 := by
  refine getD_copyCells ram ?_ ?_ (mem_range.mpr copied) inside
  · intro a _ b _ same
    omega
  · intro a first b second same
    have left := mem_range.mp first
    have right := mem_range.mp second
    omega

namespace Bpf

theorem copyChunk_eq {ram : Store Word} {src dst : Word} (source : src.toNat + 16 ≤ 2 ^ 32)
    (target : dst.toNat + 16 ≤ 2 ^ 32) :
    copyChunk ram src dst = copyWords ram src.toNat dst.toNat 16 := by
  refine foldl_ext _ _ ram fun ram w mem => ?_
  have bound := mem_range.mp mem
  have plain {base : Word} (fits : base.toNat + 16 ≤ 2 ^ 32) :
      (base + ofNat 32 w).toNat = base.toNat + w := by
    rw [toNat_add, toNat_ofNat]
    omega
  rw [plain source, plain target]

/-- A block on the ramdisk and a buffer in memory beside it. -/
structure BlockRequest (blockNum bufAddr : Word) : Prop where
  block : blockNum.toNat < Block.TOTAL_BLOCKS
  buffer : (bufAddr >>> 2).toNat + 128 ≤ RAM_MAP_WORDS
  apart : (bufAddr >>> 2).toNat + 128 ≤ Block.RAMDISK_BASE_WORD ∨
    Block.RAMDISK_BASE_WORD + Block.TOTAL_BLOCKS * Block.WORDS_PER_BLOCK ≤ (bufAddr >>> 2).toNat

def sourceWord (toDisk : Bool) (blockNum bufAddr : Word) : Word :=
  if toDisk then bufAddr >>> 2 else diskWord blockNum

def targetWord (toDisk : Bool) (blockNum bufAddr : Word) : Word :=
  if toDisk then diskWord blockNum else bufAddr >>> 2

theorem toNat_diskWord {blockNum : Word} (block : blockNum.toNat < Block.TOTAL_BLOCKS) :
    (diskWord blockNum).toNat = Block.RAMDISK_BASE_WORD + blockNum.toNat * Block.WORDS_PER_BLOCK := by
  unfold Block.TOTAL_BLOCKS at block
  unfold diskWord Block.RAMDISK_BASE_WORD Block.WORDS_PER_BLOCK
  rw [toNat_add, toNat_mul, toNat_ofNat, toNat_ofNat]
  omega

/-- Source and target are blocks of memory beside each other, and one of them is
on the ramdisk. -/
structure Placed (src dst : Word) : Prop where
  source : src.toNat + 128 ≤ RAM_MAP_WORDS
  target : dst.toNat + 128 ≤ RAM_MAP_WORDS
  apart : src.toNat + 128 ≤ dst.toNat ∨ dst.toNat + 128 ≤ src.toNat

theorem BlockRequest.placed {blockNum bufAddr : Word} (request : BlockRequest blockNum bufAddr)
    (toDisk : Bool) :
    Placed (sourceWord toDisk blockNum bufAddr) (targetWord toDisk blockNum bufAddr) := by
  have disk := toNat_diskWord request.block
  have block := request.block
  have buffer := request.buffer
  have apart := request.apart
  unfold Block.RAMDISK_BASE_WORD Block.TOTAL_BLOCKS Block.WORDS_PER_BLOCK at *
  cases toDisk with
  | true =>
    refine ⟨buffer, ?_, ?_⟩
    · change (diskWord blockNum).toNat + 128 ≤ RAM_MAP_WORDS
      unfold RAM_MAP_WORDS
      omega
    · change (bufAddr >>> 2).toNat + 128 ≤ (diskWord blockNum).toNat ∨
        (diskWord blockNum).toNat + 128 ≤ (bufAddr >>> 2).toNat
      omega
  | false =>
    refine ⟨?_, buffer, ?_⟩
    · change (diskWord blockNum).toNat + 128 ≤ RAM_MAP_WORDS
      unfold RAM_MAP_WORDS
      omega
    · change (diskWord blockNum).toNat + 128 ≤ (bufAddr >>> 2).toNat ∨
        (bufAddr >>> 2).toNat + 128 ≤ (diskWord blockNum).toNat
      omega

/-- The machine after a chunk. -/
def chunked (b : Bpf) (toDisk : Bool) : Bpf := b.withRam (copyChunk b.ram
    (sourceWord toDisk (b.state.regs 1) (b.state.regs 2) + b.state.regs 3)
    (targetWord toDisk (b.state.regs 1) (b.state.regs 2) + b.state.regs 3))

def finished (b : Bpf) (toDisk : Bool) : Bpf :=
  ((b.chunked toDisk).setReg 0 Block.BLOCK_SIZE).setReg 3 0

variable {b : Bpf}

theorem sysBlock_eq (toDisk : Bool) (block : (b.state.regs 1).toNat < Block.TOTAL_BLOCKS) :
    b.sysBlock toDisk =
      if 128 ≤ b.state.regs 3 + 16 then
        .next (b.finished toDisk)
      else
        .stop (((b.chunked toDisk).setReg 3 (b.state.regs 3 + 16)).withPc (b.state.pc - 1)) := by
  rw [sysBlock, if_pos block]
  cases toDisk <;> rfl

def reentered (b : Bpf) (toDisk : Bool) : Bpf := (b.chunked toDisk).setReg 3 (b.state.regs 3 + 16)

section

variable {toDisk : Bool} (ticks : Nat) (block : (b.state.regs 1).toNat < Block.TOTAL_BLOCKS)
include ticks block

theorem runBlock_next (last : 128 ≤ b.state.regs 3 + 16) :
    runBlock toDisk (ticks + 1) b = some (b.finished toDisk) := by
  rw [runBlock, sysBlock_eq toDisk block, if_pos last]

theorem runBlock_again (more : ¬ 128 ≤ b.state.regs 3 + 16) :
    runBlock toDisk (ticks + 1) b = runBlock toDisk ticks (b.reentered toDisk) := by
  have restore (x : Bpf) (pc : Word) : (x.withPc pc).withPc x.state.pc = x := rfl
  have pc : (b.reentered toDisk).state.pc = b.state.pc - 1 + 1 :=
    (BitVec.sub_add_cancel b.state.pc 1).symm
  have again := restore (b.reentered toDisk) (b.state.pc - 1)
  rw [pc] at again
  rw [runBlock, sysBlock_eq toDisk block, if_neg more]
  exact congrArg (runBlock toDisk ticks) again

end

theorem last_iff (progress : Word) : 128 ≤ progress + 16 ↔ 128 ≤ (progress.toNat + 16) % 2 ^ 32 := by
  rfl

section Runs

variable {b : Bpf} {toDisk : Bool}

def sourceBase (b : Bpf) (toDisk : Bool) : Word := sourceWord toDisk (b.state.regs 1) (b.state.regs 2)

def targetBase (b : Bpf) (toDisk : Bool) : Word := targetWord toDisk (b.state.regs 1) (b.state.regs 2)

theorem ram_chunked (b : Bpf) (toDisk : Bool) : (b.chunked toDisk).ram =
      copyChunk b.ram (b.sourceBase toDisk + b.state.regs 3) (b.targetBase toDisk + b.state.regs 3) := by
  unfold chunked sourceBase targetBase withRam
  dsimp only

theorem state_reentered (b : Bpf) (toDisk : Bool) :
    (b.reentered toDisk).state.regs = update b.state.regs 3 (b.state.regs 3 + 16) ∧
      (b.reentered toDisk).ram = (b.chunked toDisk).ram := by
  unfold reentered chunked setReg
  dsimp only
  exact ⟨rfl, rfl⟩

theorem state_finished (b : Bpf) (toDisk : Bool) :
    (b.finished toDisk).state.regs 0 = Block.BLOCK_SIZE ∧
      (b.finished toDisk).ram = (b.chunked toDisk).ram := by
  unfold finished chunked setReg
  dsimp only
  refine ⟨?_, rfl⟩
  rw [update_of_ne (by decide), update_self]

theorem chunked_ram {p : Nat} (placed : Placed (b.sourceBase toDisk) (b.targetBase toDisk))
    (progress : (b.state.regs 3).toNat = p) (small : p ≤ 128) : (b.chunked toDisk).ram =
      copyWords b.ram ((b.sourceBase toDisk).toNat + p) ((b.targetBase toDisk).toNat + p) 16 := by
  have source := placed.source
  have target := placed.target
  unfold RAM_MAP_WORDS at source target
  have shifted {base : Word} (fits : base.toNat + 128 ≤ 16777216) :
      (base + b.state.regs 3).toNat = base.toNat + p := by
    rw [toNat_add]
    omega
  have read := shifted source
  have written := shifted target
  rw [ram_chunked, copyChunk_eq (by omega) (by omega), read, written]

theorem regs_reentered {r : Reg} (other : r ≠ 3) :
    (b.reentered toDisk).state.regs r = b.state.regs r := by
  rw [(state_reentered b toDisk).1, update_of_ne other]

theorem progress_reentered : (b.reentered toDisk).state.regs 3 = b.state.regs 3 + 16 := by
  rw [(state_reentered b toDisk).1, update_self]

theorem sourceBase_reentered : (b.reentered toDisk).sourceBase toDisk = b.sourceBase toDisk := by
  unfold sourceBase
  rw [regs_reentered (r := 1) (by decide), regs_reentered (r := 2) (by decide)]

theorem targetBase_reentered : (b.reentered toDisk).targetBase toDisk = b.targetBase toDisk := by
  unfold targetBase
  rw [regs_reentered (r := 1) (by decide), regs_reentered (r := 2) (by decide)]

theorem block_reentered (block : (b.state.regs 1).toNat < Block.TOTAL_BLOCKS) :
    ((b.reentered toDisk).state.regs 1).toNat < Block.TOTAL_BLOCKS := by
  exact block

theorem placed_reentered (placed : Placed (b.sourceBase toDisk) (b.targetBase toDisk)) :
    Placed ((b.reentered toDisk).sourceBase toDisk) ((b.reentered toDisk).targetBase toDisk) := by
  exact placed

theorem runBlock_inside {p m : Nat} (block : (b.state.regs 1).toNat < Block.TOTAL_BLOCKS)
    (placed : Placed (b.sourceBase toDisk) (b.targetBase toDisk))
    (progress : (b.state.regs 3).toNat = p) (more : p + 16 * m < 128)
    (last : 128 ≤ p + 16 * (m + 1)) : ∃ b', runBlock toDisk (m + 1) b = some b' ∧
      b'.ram = copyWords b.ram ((b.sourceBase toDisk).toNat + p) ((b.targetBase toDisk).toNat + p)
        (16 * (m + 1)) ∧ b'.state.regs 0 = Block.BLOCK_SIZE := by
  have here := chunked_ram placed progress (by omega)
  induction m generalizing b p with
  | zero =>
    have done : 128 ≤ b.state.regs 3 + 16 := by
      rw [last_iff]
      omega
    refine ⟨_, runBlock_next 0 block done, ?_, (state_finished b toDisk).1⟩
    rw [(state_finished b toDisk).2, here]
  | succ m ih =>
    have again : ¬ 128 ≤ b.state.regs 3 + 16 := by
      rw [last_iff]
      omega
    have next : ((b.reentered toDisk).state.regs 3).toNat = p + 16 := by
      rw [progress_reentered, toNat_add, progress]
      change (p + 16) % 2 ^ 32 = p + 16
      omega
    have there := placed_reentered placed
    obtain ⟨b', run, ram, result⟩ := ih (block_reentered block) there next (by omega) (by omega)
      (chunked_ram there next (by omega))
    refine ⟨b', (runBlock_again (m + 1) block again).trans run, ?_, result⟩
    rw [ram, sourceBase_reentered, targetBase_reentered, (state_reentered b toDisk).2, here,
      show 16 * (m + 1 + 1) = 16 + 16 * (m + 1) by omega, copyWords_add]
    simp only [Nat.add_assoc]

theorem runBlock_mono {b' : Bpf} {ticks : Nat} (more : Nat)
    (run : runBlock toDisk ticks b = some b') : runBlock toDisk (ticks + more) b = some b' := by
  induction ticks generalizing b with
  | zero => cases run
  | succ ticks ih =>
    rw [Nat.succ_add]
    rw [runBlock] at run ⊢
    split at run
    · exact run
    · exact ih run
    · cases run

theorem runBlock_unique {b₁ b₂ : Bpf} {n m : Nat} (first : runBlock toDisk n b = some b₁)
    (second : runBlock toDisk m b = some b₂) : b₁ = b₂ := by
  have left := runBlock_mono m first
  have right := runBlock_mono n second
  rw [Nat.add_comm] at right
  exact Option.some.inj (left.symm.trans right)

end Runs

def host (b : Bpf) : Cpu := { Cpu.new with state := b.state, ram := b.ram }

/-- Exactly the words of the target have changed, to those of the source. -/
structure Copied (before after : Store Word) (src dst : Nat) : Prop where
  words : ∀ w < 128, after.getD (dst + w) 0 = before.getD (src + w) 0
  others : ∀ i, i < dst ∨ dst + 128 ≤ i → after.getD i 0 = before.getD i 0

/-- The call ends, having copied the block, with the memory and the result of
the host emulator. -/
def CopiesBlock (toDisk : Bool) (b : Bpf) : Prop := ∃ ticks b', runBlock toDisk ticks b = some b' ∧
    Copied b.ram b'.ram (b.sourceBase toDisk).toNat (b.targetBase toDisk).toNat ∧
    b'.ram = (b.host.sysBlock toDisk).ram ∧
    b'.state.regs 0 = (b.host.sysBlock toDisk).state.regs 0

section Copy

variable {b : Bpf} {toDisk : Bool}

theorem host_sysBlock (toDisk : Bool) (block : (b.state.regs 1).toNat < Block.TOTAL_BLOCKS) :
    (b.host.sysBlock toDisk).ram =
        copyWords b.ram (b.sourceBase toDisk).toNat (b.targetBase toDisk).toNat 128 ∧
      (b.host.sysBlock toDisk).state.regs 0 = Block.BLOCK_SIZE := by
  have disk := toNat_diskWord block
  unfold Cpu.sysBlock sourceBase targetBase sourceWord targetWord host Cpu.withRam Cpu.setReg
  rw [if_pos block]
  dsimp only
  refine ⟨?_, update_self ..⟩
  cases toDisk with
  | true => rw [if_pos rfl, if_pos rfl, if_pos rfl, disk]
  | false => rw [if_neg (by decide), if_neg (by decide), if_neg (by decide), disk]

theorem copied_copyWords {ram : Store Word} {src dst : Word} (placed : Placed src dst)
    (size : ram.len = RAM_MAP_WORDS) :
    Copied ram (copyWords ram src.toNat dst.toNat 128) src.toNat dst.toNat := by
  constructor
  · intro w copied
    have target := placed.target
    exact getD_copyWords ram placed.apart copied (by omega)
  · intro i outside
    exact getD_copyWords_of_outside ram outside

theorem copiesBlock_of_ram {b' : Bpf} {ticks : Nat}
    (block : (b.state.regs 1).toNat < Block.TOTAL_BLOCKS)
    (placed : Placed (b.sourceBase toDisk) (b.targetBase toDisk)) (size : b.ram.len = RAM_MAP_WORDS)
    (run : runBlock toDisk ticks b = some b')
    (ram : b'.ram = copyWords b.ram (b.sourceBase toDisk).toNat (b.targetBase toDisk).toNat 128)
    (result : b'.state.regs 0 = Block.BLOCK_SIZE) : CopiesBlock toDisk b := by
  obtain ⟨memory, returned⟩ := host_sysBlock toDisk block
  refine ⟨ticks, b', run, ?_, ram.trans memory.symm, result.trans returned.symm⟩
  rw [ram]
  exact copied_copyWords placed size

theorem copiesBlock_of_zero (block : (b.state.regs 1).toNat < Block.TOTAL_BLOCKS)
    (placed : Placed (b.sourceBase toDisk) (b.targetBase toDisk)) (size : b.ram.len = RAM_MAP_WORDS)
    (start : b.state.regs 3 = 0) : CopiesBlock toDisk b := by
  have progress : (b.state.regs 3).toNat = 0 := by rw [start]; rfl
  obtain ⟨b', run, ram, result⟩ :=
    runBlock_inside (m := 7) block placed progress (by omega) (by omega)
  exact copiesBlock_of_ram block placed size run ram result

/-- Where a chunk touches the word `w` after its start. -/
def chunkWord (base progress : Word) (w : Nat) : Nat := (base + progress + ofNat 32 w).toNat

theorem chunkWord_eq (base progress : Word) (w : Nat) :
    chunkWord base progress w = (base.toNat + progress.toNat + w) % 2 ^ 32 := by
  rw [chunkWord, toNat_add, toNat_add, toNat_ofNat]
  omega

theorem chunked_cells (b : Bpf) (toDisk : Bool) : (b.chunked toDisk).ram =
      b.ram.copyCells (chunkWord (b.sourceBase toDisk) (b.state.regs 3))
        (chunkWord (b.targetBase toDisk) (b.state.regs 3)) 0 (range 16) := by
  rw [ram_chunked]
  rfl

theorem wrapped_lt {j : Nat} (progress : (b.state.regs 3).toNat = 2 ^ 32 - 16 + j) : j < 16 := by
  omega

variable (block : (b.state.regs 1).toNat < Block.TOTAL_BLOCKS)
  (placed : Placed (b.sourceBase toDisk) (b.targetBase toDisk))

include block placed

theorem first_word_kept {p : Nat} (progress : (b.state.regs 3).toNat = p) (some : 1 ≤ p)
    (plain : p + 16 < 2 ^ 32) : ∃ ticks b', runBlock toDisk ticks b = .some b' ∧
      b'.ram.getD (b.targetBase toDisk).toNat 0 = b.ram.getD (b.targetBase toDisk).toNat 0 := by
  by_cases inside : p < 128
  · obtain ⟨b', run, ram, -⟩ := runBlock_inside (m := (127 - p) / 16) block placed progress
      (by omega) (by omega)
    refine ⟨_, b', run, ?_⟩
    rw [ram]
    exact getD_copyWords_of_outside _ (.inl (by omega))
  · have last : 128 ≤ b.state.regs 3 + 16 := by
      rw [last_iff]
      omega
    refine ⟨1, _, runBlock_next 0 block last, ?_⟩
    rw [(state_finished b toDisk).2, chunked_cells]
    refine getD_copyCells_of_ne _ fun w mem => ?_
    have bound := mem_range.mp mem
    rw [chunkWord_eq, progress]
    omega

variable {j : Nat}

theorem runBlock_wrapped (progress : (b.state.regs 3).toNat = 2 ^ 32 - 16 + j) :
    ∃ b', runBlock toDisk 9 b = some b' ∧
      b'.ram = copyWords (b.chunked toDisk).ram ((b.sourceBase toDisk).toNat + j)
        ((b.targetBase toDisk).toNat + j) 128 ∧ b'.state.regs 0 = Block.BLOCK_SIZE := by
  have again : ¬ 128 ≤ b.state.regs 3 + 16 := by
    rw [last_iff]
    omega
  have next : ((b.reentered toDisk).state.regs 3).toNat = j := by
    rw [progress_reentered, toNat_add, progress]
    change (2 ^ 32 - 16 + j + 16) % 2 ^ 32 = j
    omega
  obtain ⟨b', run, ram, result⟩ := runBlock_inside (m := 7) (block_reentered block)
    (placed_reentered placed) next (by omega) (by omega)
  rw [(state_reentered b toDisk).2] at ram
  exact ⟨b', (runBlock_again 8 block again).trans run, ram, result⟩

variable (size : b.ram.len = RAM_MAP_WORDS)
include size

theorem word_before_written (progress : (b.state.regs 3).toNat = 2 ^ 32 - 16 + j)
    (pos : 1 ≤ (b.targetBase toDisk).toNat) : ∃ ticks b', runBlock toDisk ticks b = some b' ∧
      b'.ram.getD ((b.targetBase toDisk).toNat - 1) 0 =
        b.ram.getD (((b.sourceBase toDisk).toNat + (2 ^ 32 - 1)) % 2 ^ 32) 0 := by
  have small := wrapped_lt progress
  have source := placed.source
  have target := placed.target
  have apart := placed.apart
  have read := chunkWord_eq (b.sourceBase toDisk) (b.state.regs 3)
  have written := chunkWord_eq (b.targetBase toDisk) (b.state.regs 3)
  rw [progress] at read written
  unfold RAM_MAP_WORDS at source target size
  have cell : chunkWord (b.targetBase toDisk) (b.state.regs 3) (15 - j) =
      (b.targetBase toDisk).toNat - 1 := by
    rw [written]
    omega
  have origin : chunkWord (b.sourceBase toDisk) (b.state.regs 3) (15 - j) =
      ((b.sourceBase toDisk).toNat + (2 ^ 32 - 1)) % 2 ^ 32 := by
    rw [read]
    omega
  obtain ⟨b', run, ram, -⟩ := runBlock_wrapped block placed progress
  refine ⟨9, b', run, ?_⟩
  rw [ram, getD_copyWords_of_outside _ (.inl (by omega)), chunked_cells, ← cell, ← origin]
  refine getD_copyCells _ ?_ ?_ (mem_range.mpr (by omega)) (by omega)
  · intro w first v second same
    have left := mem_range.mp first
    rw [written, written] at same
    rw [read, read]
    omega
  · intro w first v second same
    have left := mem_range.mp first
    have right := mem_range.mp second
    rw [read, written] at same
    omega

theorem word_after_written (progress : (b.state.regs 3).toNat = 2 ^ 32 - 16 + j) (bottom : (b.targetBase toDisk).toNat = 0)
    (late : 1 ≤ j) : ∃ ticks b', runBlock toDisk ticks b = some b' ∧
      b'.ram.getD 128 0 = b.ram.getD ((b.sourceBase toDisk).toNat + 128) 0 := by
  have source := placed.source
  have apart := placed.apart
  have written := chunkWord_eq (b.targetBase toDisk) (b.state.regs 3)
  unfold RAM_MAP_WORDS at source size
  have length : (b.chunked toDisk).ram.len = 16777216 := by
    rw [chunked_cells, len_copyCells, size]
  obtain ⟨b', run, ram, -⟩ := runBlock_wrapped block placed progress
  refine ⟨9, b', run, ?_⟩
  have copied :
      (copyWords (b.chunked toDisk).ram ((b.sourceBase toDisk).toNat + j) (0 + j) 128).getD
          (0 + j + (128 - j)) 0 =
        (b.chunked toDisk).ram.getD ((b.sourceBase toDisk).toNat + j + (128 - j)) 0 :=
    getD_copyWords _ (by omega) (by omega) (by omega)
  rw [show 0 + j + (128 - j) = 128 by omega,
    show (b.sourceBase toDisk).toNat + j + (128 - j) = (b.sourceBase toDisk).toNat + 128 by omega] at copied
  rw [ram, bottom, copied, chunked_cells]
  refine getD_copyCells_of_ne _ fun w mem => ?_
  have bound := mem_range.mp mem
  rw [written]
  omega

theorem copiesBlock_of_dropped (progress : (b.state.regs 3).toNat = 2 ^ 32 - 16) (bottom : (b.targetBase toDisk).toNat = 0) :
    CopiesBlock toDisk b := by
  have written := chunkWord_eq (b.targetBase toDisk) (b.state.regs 3)
  have dropped : (b.chunked toDisk).ram = b.ram := by
    rw [chunked_cells]
    refine copyCells_of_outside _ fun w mem => ?_
    have bound := mem_range.mp mem
    rw [written, size]
    unfold RAM_MAP_WORDS
    omega
  obtain ⟨b', run, ram, result⟩ := runBlock_wrapped (j := 0) block placed progress
  rw [dropped] at ram
  exact copiesBlock_of_ram block placed size run ram result

end Copy

def numbered : Store Word := ofFn RAM_MAP_WORDS (ofNat 32)

theorem len_numbered : numbered.len = RAM_MAP_WORDS := len_ofFn _ _

theorem toNat_numbered {i : Nat} (inside : i < RAM_MAP_WORDS) : (numbered.getD i 0).toNat = i := by
  have cell := getD_of_lt numbered (i := i) (by rw [len_numbered]; exact inside) 0
  rw [cell, numbered, cell_ofFn _ _ inside, toNat_ofNat]
  unfold RAM_MAP_WORDS at inside
  omega

theorem toNat_numbered_of_outside {i : Nat} (outside : RAM_MAP_WORDS ≤ i) :
    (numbered.getD i 0).toNat = 0 := by
  rw [Store.getD, if_neg (by rw [len_numbered]; exact Nat.not_lt.mpr outside)]
  rfl

section Exact

variable {b : Bpf} {toDisk : Bool}

theorem not_copiesBlock {i : Nat} {value : Word}
    (found : ∃ ticks b', runBlock toDisk ticks b = some b' ∧ b'.ram.getD i 0 = value)
    (wrong : ∀ after, Copied b.ram after (b.sourceBase toDisk).toNat (b.targetBase toDisk).toNat →
      after.getD i 0 ≠ value) : ¬ CopiesBlock toDisk b := by
  rintro ⟨ticks, b', run, copied, -, -⟩
  obtain ⟨m, b'', ended, cell⟩ := found
  rw [← runBlock_unique run ended] at cell
  exact wrong _ copied cell

def GoodCount (toDisk : Bool) (bufAddr progress : Word) : Prop :=
  progress = 0 ∨ (toDisk = false ∧ bufAddr >>> 2 = 0 ∧ progress = 0xFFFFFFF0)

theorem goodCount_iff (request : BlockRequest (b.state.regs 1) (b.state.regs 2)) :
    GoodCount toDisk (b.state.regs 2) (b.state.regs 3) ↔ (b.state.regs 3).toNat = 0 ∨
        ((b.targetBase toDisk).toNat = 0 ∧ (b.state.regs 3).toNat = 2 ^ 32 - 16) := by
  have disk := toNat_diskWord request.block
  unfold Block.RAMDISK_BASE_WORD at disk
  unfold GoodCount targetBase targetWord
  simp only [← toNat_inj]
  cases toDisk with
  | true =>
    rw [if_pos rfl]
    constructor
    · rintro (zero | ⟨absurd, -⟩)
      · exact .inl zero
      · cases absurd
    · rintro (zero | ⟨bottom, -⟩)
      · exact .inl zero
      · omega
  | false =>
    exact or_congr Iff.rfl ⟨And.right, fun found => ⟨rfl, found⟩⟩

theorem not_copiesBlock_numbered (request : BlockRequest (b.state.regs 1) (b.state.regs 2))
    (memory : b.ram = numbered) (bad : ¬ GoodCount toDisk (b.state.regs 2) (b.state.regs 3)) :
    ¬ CopiesBlock toDisk b := by
  have placed : Placed (b.sourceBase toDisk) (b.targetBase toDisk) := request.placed toDisk
  have size := memory ▸ len_numbered
  have source := placed.source
  have target := placed.target
  have apart := placed.apart
  rw [goodCount_iff request] at bad
  by_cases plain : (b.state.regs 3).toNat + 16 < 2 ^ 32
  · refine not_copiesBlock (first_word_kept request.block placed rfl (by omega) plain) ?_
    intro after copied same
    have first := (copied.words 0 (by decide)).symm.trans same
    rw [memory] at first
    have numbers := congrArg BitVec.toNat first
    rw [toNat_numbered (by omega), toNat_numbered (by omega)] at numbers
    omega
  · have progress : (b.state.regs 3).toNat =
        2 ^ 32 - 16 + ((b.state.regs 3).toNat - (2 ^ 32 - 16)) := by omega
    by_cases pos : 1 ≤ (b.targetBase toDisk).toNat
    · refine not_copiesBlock (word_before_written request.block placed size progress pos) ?_
      intro after copied same
      have kept := (copied.others _ (.inl (by omega))).symm.trans same
      rw [memory] at kept
      have numbers := congrArg BitVec.toNat kept
      rw [toNat_numbered (by omega)] at numbers
      unfold RAM_MAP_WORDS at source
      by_cases bottom : (b.sourceBase toDisk).toNat = 0
      · rw [bottom, toNat_numbered_of_outside (by decide)] at numbers
        omega
      · rw [toNat_numbered (by unfold RAM_MAP_WORDS; omega)] at numbers
        omega
    · have bottom : (b.targetBase toDisk).toNat = 0 := by omega
      refine not_copiesBlock (i := 128)
        (word_after_written request.block placed size progress bottom (by omega)) ?_
      intro after copied same
      have kept := (copied.others 128 (.inr (by omega))).symm.trans same
      rw [memory] at kept
      have numbers := congrArg BitVec.toNat kept
      rw [toNat_numbered (by decide)] at numbers
      by_cases inside : (b.sourceBase toDisk).toNat + 128 < RAM_MAP_WORDS
      · rw [toNat_numbered inside] at numbers
        omega
      · rw [toNat_numbered_of_outside (Nat.not_lt.mp inside)] at numbers
        cases numbers

/-- A block call copies the block as the host emulator does, on every memory,
exactly when it is entered with a count that starts it at the first word. -/
theorem block_call_copies_iff (request : BlockRequest (b.state.regs 1) (b.state.regs 2)) :
    (∀ ram : Store Word, ram.len = RAM_MAP_WORDS → CopiesBlock toDisk (b.withRam ram)) ↔
      GoodCount toDisk (b.state.regs 2) (b.state.regs 3) := by
  constructor
  · intro copies
    by_contra bad
    exact not_copiesBlock_numbered (b := b.withRam numbered) request rfl bad
      (copies numbered len_numbered)
  · intro good ram size
    have placed := request.placed toDisk
    rcases good with zero | dropped
    · exact copiesBlock_of_zero (b := b.withRam ram) request.block placed size zero
    · obtain ⟨reads, buffer, wrapped⟩ := dropped
      subst reads
      refine copiesBlock_of_dropped (b := b.withRam ram) request.block placed size ?_ ?_
      · change (b.state.regs 3).toNat = 2 ^ 32 - 16
        rw [wrapped]
        rfl
      · change (b.state.regs 2 >>> 2).toNat = 0
        rw [buffer]
        rfl

def readRequest (progress : Word) : Bpf :=
  (boot { MbcCpuState.default with regs := fun r => if r = 3 then progress else 0 } 0 [] []).withRam
    numbered

theorem readRequest_request (progress : Word) :
    BlockRequest ((readRequest progress).state.regs 1) ((readRequest progress).state.regs 2) := by
  change BlockRequest 0 0
  exact ⟨by decide, by decide, .inl (by decide)⟩

theorem block_call_copies_zero :
    BlockRequest ((readRequest 0).state.regs 1) ((readRequest 0).state.regs 2) ∧
      ∀ ram : Store Word, ram.len = RAM_MAP_WORDS →
        CopiesBlock false ((readRequest 0).withRam ram) :=
  ⟨readRequest_request 0, (block_call_copies_iff (readRequest_request 0)).mpr (.inl rfl)⟩

/-- A guest that has 16 in `r3` gets the block without its first words. -/
theorem block_call_trusts_count :
    BlockRequest ((readRequest 16).state.regs 1) ((readRequest 16).state.regs 2) ∧
      (readRequest 16).ram.len = RAM_MAP_WORDS ∧ ¬ CopiesBlock false (readRequest 16) := by
  refine ⟨readRequest_request 16, len_numbered, ?_⟩
  refine not_copiesBlock_numbered (readRequest_request 16) rfl ?_
  rintro (zero | ⟨-, -, wrapped⟩)
  · cases zero
  · cases wrapped

end Exact

end Bpf

end Unheaded.Mbc
