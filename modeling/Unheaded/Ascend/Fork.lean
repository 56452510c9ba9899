import Unheaded.Ascend.Files

/-!
# fork

`SYS_fork` takes a free slot, gives the child a page directory over its own slice and copies the
parent's working set, sixteen words in a tick.
-/

namespace Unheaded.Ascend

open Lib Mbc Fdtable Phase12 Function
open BitVec (ofNat)

namespace Machine

variable (m : Machine)

/-- A slot that `fork` must not take: counted, and not yet collected. -/
def usedLive (cand : Nat) : Bool :=
  decide (cand < m.cpu.state.numProcesses.toNat) &&
    !((m.sched.haltedMask >>> cand) &&& 1 != 0 && (m.sched.reapedMask >>> cand) &&& 1 != 0)

/-- The lowest free slot from 1 on, or `MAX_PROCESSES`. -/
def freeSlot : Nat :=
  ((List.range' 1 (MAX_PROCESSES - 1)).find? fun cand => !m.usedLive cand).getD MAX_PROCESSES

def LEAF_FLAGS : Word := Mmu.PTE_PRESENT ||| Bpf.PTE_LEAF ||| 1 <<< 10 ||| 1 <<< 9

variable (b : Bpf)

/-- Map the first 8 MiB onto the slice of the slot. -/
def buildPgd (child : Byte) : Bpf :=
  let pgd := pgdBaseForPid child >>> 2
  let off := pidPhysOffset child
  (b.memWriteWord pgd ((off &&& Bpf.SUPERPAGE_MASK) ||| LEAF_FLAGS)).memWriteWord (pgd + 1)
    (((off + 0x00400000) &&& Bpf.SUPERPAGE_MASK) ||| LEAF_FLAGS)

def LOW_WORDS : Word := FORK_COPY_LOW_BYTES >>> 2
def STACK_WORDS : Word := FORK_COPY_STACK_BYTES >>> 2
def TOTAL_COPY : Word := LOW_WORDS + STACK_WORDS

/-- The word of the slice that the cursor `c` stands for: the low band, then
the window above the page of the stack pointer. -/
def sliceWord (sp c : Word) : Word :=
  if c < LOW_WORDS then c else ((sp &&& ~~~0xFFF) >>> 2) + (c - LOW_WORDS)

/-- Copy the word that the cursor stands for. -/
def copyForkWord (child : Byte) (c : Word) : Bpf :=
  if c < TOTAL_COPY then
    let word := sliceWord (b.state.regs REG_SP) c
    if word < USER_SLICE_BYTES >>> 2 then
      b.ramWriteWord ((pidPhysOffset child >>> 2) + word)
        (b.ramWord ((pidPhysOffset b.state.currentPid >>> 2) + word))
    else b
  else b

def copyForkChunk (child : Byte) (cursor : Word) : Bpf :=
  (List.range 16).foldl (fun b w => copyForkWord b child (cursor + ofNat 32 w)) b

theorem copyForkWord_ram (child : Byte) (c : Word) :
    ∃ ram, copyForkWord b child c = { b with ram := ram } := by
  unfold copyForkWord
  dsimp only
  split
  · split
    · exact ⟨_, rfl⟩
    · exact ⟨b.ram, rfl⟩
  · exact ⟨b.ram, rfl⟩

theorem copyForkChunk_ram (child : Byte) (cursor : Word) :
    ∃ ram, copyForkChunk b child cursor = { b with ram := ram } := by
  unfold copyForkChunk
  induction List.range 16 generalizing b with
  | nil => exact ⟨b.ram, rfl⟩
  | cons w ws ih =>
    obtain ⟨ram, word⟩ := copyForkWord_ram b child (cursor + ofNat 32 w)
    rw [List.foldl_cons, word]
    exact ih { b with ram := ram }

theorem state_copyForkChunk (child : Byte) (cursor : Word) :
    (copyForkChunk b child cursor).state = b.state := by
  obtain ⟨ram, copied⟩ := copyForkChunk_ram b child cursor
  rw [copied]

/-- The row the child starts from: a copy of the parent that returns 0. -/
def childRow (child : Byte) : ProcRow where
  regs := update (update m.cpu.state.regs 8 0) 10 0
  pc := m.cpu.state.pc
  flags := m.cpu.state.flags.setWidth 32
  spCopy := m.cpu.state.regs REG_SP
  programBreak := m.cpu.state.programBreak
  pageDirBase := pgdBaseForPid child
  rv2mbcBase := m.cpu.state.rv2mbcBase

def slotTables : Word := b.memReadWord (UPC_SLOT_TABLES_BP_BYTE >>> 2)

def freshMaskWord : Word := (slotTables b + UPC_ST_FRESH_MASK_OFF) >>> 2

def markFresh (child : Nat) : Bpf :=
  if slotTables b ≠ 0 then
    let w := freshMaskWord b
    b.memWriteWord w (b.memReadWord w ||| (1 <<< (child % 8)))
  else b

def SYS_UPC_FORKNOTE : Word := 24

/-- The scheduler's side of a new child: the slot lives, counts and has a parent. -/
def enrol (child : Nat) : Machine :=
  let num := if m.cpu.state.numProcesses.toNat < child + 1 then ofNat 8 (child + 1)
    else m.cpu.state.numProcesses
  { m with
    cpu := { m.cpu with state := { m.cpu.state with numProcesses := num } }
    sched := { m.sched with
      haltedMask := m.sched.haltedMask &&& ~~~((1 : Word) <<< child)
      reapedMask := m.sched.reapedMask &&& ~~~((1 : Word) <<< child)
      numProcesses := num.setWidth 32 }
    parentOf := m.parentOf.set child (m.pid.setWidth 32) }

/-- The copy is complete: the child is entered in every table. -/
def finishFork (child : Nat) : Machine :=
  let m := { m with procTable := m.procTable.set child (m.childRow (ofNat 8 child)) }
  let m := m.inheritFds (ofNat 8 child)
  let noteDue := slotTables m.cpu ≠ 0
  let m := (m.withCpu (markFresh m.cpu child)).enrol child
  if noteDue then
    let m := (m.setReg 1 SYS_UPC_FORKNOTE).setReg 8 (ofNat 32 child)
    m.withPc (m.cpu.state.pc - 1)
  else m.setReg 8 (ofNat 32 child + 1)

def beginFork (child : Byte) : Machine :=
  if m.cpu.memReadWord (pgdBaseForPid child >>> 2) &&& Mmu.PTE_PRESENT = 0 then
    (m.withCpu (buildPgd m.cpu child)).setReg 10 0
  else m

def copyTick (child : Byte) : Machine :=
  let m := m.beginFork child
  m.withCpu (copyForkChunk m.cpu child m.a2)

/-- The slot that `fork` works on; none is left, or its slice would not fit. -/
def forkChild : Option Nat :=
  let child := m.freeSlot
  if MAX_PROCESSES ≤ child ∨
      RAM_ISOLATION_CEILING < pidPhysOffset (ofNat 8 child) + SLICE_STRIDE then none
  else some child

theorem forkChild_lt {m : Machine} {child : Nat} (free : m.forkChild = some child) :
    child < MAX_PROCESSES := by
  unfold forkChild at free
  dsimp only at free
  split at free <;> cases free
  rename_i fits
  omega

/-- `SYS_fork` (1). -/
def sysFork : Arm :=
  match m.forkChild with
  | none => m.answer FAILED
  | some child =>
    let m := m.copyTick (ofNat 8 child)
    if m.a2 + 16 < TOTAL_COPY then (m.setReg 10 (m.a2 + 16)).again
    else .next (m.finishFork child)

/-- The child that this tick of `fork` finishes. -/
def finishedChild : Option Nat := m.forkChild.filter fun child =>
    !decide ((m.copyTick (ofNat 8 child)).a2 + 16 < TOTAL_COPY)

theorem sysFork_finished {m : Machine} {child : Nat} (finished : m.finishedChild = some child) :
    child < MAX_PROCESSES ∧ m.sysFork = .next ((m.copyTick (ofNat 8 child)).finishFork child) := by
  obtain ⟨free, last⟩ := Option.filter_eq_some_iff.mp finished
  have done : ¬ (m.copyTick (ofNat 8 child)).a2 + 16 < TOTAL_COPY := by simpa using last
  refine ⟨forkChild_lt free, ?_⟩
  rw [sysFork, free]
  exact if_neg done

end Machine

end Unheaded.Ascend
