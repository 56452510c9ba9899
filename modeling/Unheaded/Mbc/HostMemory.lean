import Unheaded.Lib.Bytes
import Unheaded.Mbc.Isa

/-!
# Host emulator: machine state and memory

The userspace emulator `monad_mbc::execute::Cpu` with its memory helpers. Word addresses are
`usize` values, so they are natural numbers here.
-/

namespace Unheaded.Mbc

open Lib Function

/-- One row of the emulator's process table. -/
structure ProcSlot where
  regs : Reg → Word
  pc : Word
  flags : Word
  spCopy : Word
  programBreak : Word
  pageDirBase : Word

def ProcSlot.zero : ProcSlot := ⟨fun _ => 0, 0, 0, 0, 0, 0⟩

/-- A software TLB entry `[vpn, pfn, flags]`. -/
structure TlbEntry where
  vpn : Word
  pfn : Word
  flags : Word

/-- `monad_mbc::execute::Cpu`.  `fuzixPermissive` is the build feature. -/
structure Cpu where
  state : MbcCpuState
  ram : Store Word
  rom : List Word
  screen : Store Byte
  kbd : Word
  ticksMs : Word
  ttyOutput : List Byte
  instanceId : Word
  procTable : Byte → ProcSlot
  haltedMask : Word
  suspendedMask : Word
  tlb : BitVec 6 → TlbEntry
  fuzixPermissive : Bool

inductive ExecError where
  | halted
  | romFault
  | invalidSyscall (id : Word)
  | divisionByZero
  | cycleBudgetExhausted
  deriving DecidableEq, Repr

/-- The result of one emulator call: the machine is changed in place, also
when the call returns an error. -/
inductive ExecResult where
  | ok (cpu : Cpu)
  | err (error : ExecError) (cpu : Cpu)

namespace Cpu

def new : Cpu where
  state := { MbcCpuState.default with regs := update (fun _ => 0) REG_SP 0xFFFF0000 }
  ram := Store.ofFn 0x300000 (fun _ => 0)
  rom := []
  screen := Store.ofFn 64000 (fun _ => 0)
  kbd := 0
  ticksMs := 0
  ttyOutput := []
  instanceId := 0
  procTable _ := ProcSlot.zero
  haltedMask := 0
  suspendedMask := 0
  tlb _ := ⟨0, 0, 0⟩
  fuzixPermissive := false

variable (c : Cpu)

def loadRom (rom : List Word) : Cpu := { c with rom := rom }

def setReg (r : Reg) (v : Word) : Cpu :=
  { c with state := { c.state with regs := update c.state.regs r v } }

def withFlags (f : Byte) : Cpu := { c with state := { c.state with flags := f } }

def withPc (pc : Word) : Cpu := { c with state := { c.state with pc := pc } }

def withRam (ram : Store Word) : Cpu := { c with ram := ram }

end Cpu

namespace Cpu

variable (c : Cpu)

def memReadWord (wordAddr : Nat) : Word :=
  if wordAddr = kbdWord then c.kbd
  else if screenWordStart ≤ wordAddr ∧ wordAddr < screenWordEnd then
    let pixelBase := (wordAddr - screenWordStart) * 4
    (List.range 4).foldl (fun val i =>
      if pixelBase + i < c.screen.len then
        val ||| ((c.screen.cell (pixelBase + i)).setWidth 32 <<< (i * 8))
      else val) 0
  else c.ram.getD wordAddr 0

def memReadByte (byteAddr : Nat) : Byte :=
  if Mmap.SCREEN_BASE ≤ byteAddr ∧ byteAddr < Mmap.SCREEN_BASE + Mmap.SCREEN_SIZE then
    c.screen.getD (byteAddr - Mmap.SCREEN_BASE) 0
  else
    let word := c.memReadWord (byteAddr >>> 2)
    ((word >>> ((byteAddr &&& 3) * 8)) &&& 0xFF).setWidth 8

def memReadHalf (byteAddr : Nat) : Half :=
  let word := c.memReadWord (byteAddr >>> 2)
  ((word >>> ((byteAddr &&& 2) * 8)) &&& 0xFFFF).setWidth 16

def memWriteWord (wordAddr : Nat) (value : Word) : Cpu :=
  if screenWordStart ≤ wordAddr ∧ wordAddr < screenWordEnd then
    let pixelBase := (wordAddr - screenWordStart) * 4
    { c with screen := (List.range 4).foldl (fun screen i =>
        screen.set (pixelBase + i) ((value >>> (i * 8)).setWidth 8)) c.screen }
  else c.withRam (c.ram.set wordAddr value)

def memWriteByte (byteAddr : Nat) (value : Byte) : Cpu :=
  if Mmap.SCREEN_BASE ≤ byteAddr ∧ byteAddr < Mmap.SCREEN_BASE + Mmap.SCREEN_SIZE then
    { c with screen := c.screen.set (byteAddr - Mmap.SCREEN_BASE) value }
  else
    let wordAddr := byteAddr >>> 2
    let old := c.memReadWord wordAddr
    let new := insertField old 0xFF (value.setWidth 32) ((byteAddr &&& 3) * 8)
    c.withRam (c.ram.set wordAddr new)

def memWriteHalf (byteAddr : Nat) (value : Half) : Cpu :=
  let wordAddr := byteAddr >>> 2
  let old := c.memReadWord wordAddr
  c.memWriteWord wordAddr (insertField old 0xFFFF (value.setWidth 32) ((byteAddr &&& 2) * 8))

end Cpu

namespace Mmu

def PTE_PRESENT : Word := 1 <<< 11
def PTE_PFN_MASK : Word := 0xFFFFF000

end Mmu

namespace Cpu

/-- `translate_address`: the physical address and the machine with its TLB. -/
def translateAddress (c : Cpu) (vaddr : Word) : Word × Cpu :=
  if c.state.mmuEnabled = 0 then (vaddr, c)
  else
    let vpn := vaddr >>> 12
    let offset := vaddr &&& 0xFFF
    let tlbIdx : BitVec 6 := vpn.setWidth 6
    let entry := c.tlb tlbIdx
    if entry.vpn = vpn ∧ entry.flags &&& Mmu.PTE_PRESENT ≠ 0 then
      ((entry.pfn <<< 12) ||| offset, c)
    else
      let pdeIdx := (vaddr >>> 22).toNat
      let pteIdx := ((vaddr >>> 12) &&& 0x3FF).toNat
      let pde := c.memReadWord ((c.state.pageDirBase >>> 2).toNat + pdeIdx)
      if pde &&& Mmu.PTE_PRESENT = 0 then (vaddr, c)
      else
        let ptBase := pde &&& Mmu.PTE_PFN_MASK
        let pte := c.memReadWord ((ptBase >>> 2).toNat + pteIdx)
        if pte &&& Mmu.PTE_PRESENT = 0 then (vaddr, c)
        else
          let pfn := (pte &&& Mmu.PTE_PFN_MASK) >>> 12
          ((pfn <<< 12) ||| offset,
            { c with tlb := update c.tlb tlbIdx ⟨vpn, pfn, pte⟩ })

def flushTlb (c : Cpu) : Cpu := { c with tlb := fun _ => ⟨0, 0, 0⟩ }

theorem translateAddress_flat {c : Cpu} (h : c.state.mmuEnabled = 0) (vaddr : Word) :
    c.translateAddress vaddr = (vaddr, c) :=
  if_pos h

end Cpu

namespace Cpu

variable {a : Nat}

variable (c : Cpu)

theorem memReadWord_plain (h : PlainWord a) : c.memReadWord a = c.ram.getD a 0 := by
  rw [memReadWord, if_neg h.1, if_neg h.2]

theorem memWriteWord_plain (h : PlainWord a) (v : Word) :
    c.memWriteWord a v = c.withRam (c.ram.set a v) :=
  if_neg h.2

variable (h : PlainWord (a >>> 2))
include h

theorem memReadByte_plain : c.memReadByte a =
      (((c.ram.getD (a >>> 2) 0) >>> ((a &&& 3) * 8)) &&& 0xFF).setWidth 8 := by
  rw [memReadByte, if_neg (not_screen_byte h), c.memReadWord_plain h]

theorem memReadHalf_plain : c.memReadHalf a =
      (((c.ram.getD (a >>> 2) 0) >>> ((a &&& 2) * 8)) &&& 0xFFFF).setWidth 16 := by
  rw [memReadHalf, c.memReadWord_plain h]

theorem memWriteByte_plain (v : Byte) : c.memWriteByte a v = c.withRam (c.ram.set (a >>> 2)
      (insertField (c.ram.getD (a >>> 2) 0) 0xFF (v.setWidth 32) ((a &&& 3) * 8))) := by
  rw [memWriteByte, if_neg (not_screen_byte h)]
  dsimp only
  rw [c.memReadWord_plain h]

theorem memWriteHalf_plain (v : Half) : c.memWriteHalf a v = c.withRam (c.ram.set (a >>> 2)
      (insertField (c.ram.getD (a >>> 2) 0) 0xFFFF (v.setWidth 32) ((a &&& 2) * 8))) := by
  rw [memWriteHalf, c.memReadWord_plain h, c.memWriteWord_plain h]

end Cpu

end Unheaded.Mbc
