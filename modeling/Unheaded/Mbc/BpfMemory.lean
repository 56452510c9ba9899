import Unheaded.Mbc.HostMemory

/-!
# BPF interpreter: maps and memory

The kernel interpreter `try_monad_cpu` keeps its memory in BPF array maps: an array has a fixed
number of entries, reads past the end find nothing and writes past the end are dropped.
-/

namespace Unheaded.Mbc

open Lib Function

/-- The CPU state of one instance with the maps its execute loop reads and
writes.  `kbd` is `KBD_MAP[0]`, `traceLeft` is `TRACE_HEAD[0]`, and
`ascendLinux` is the build feature. -/
structure Bpf where
  state : MbcCpuState
  ram : Store Word
  rom : Store Word
  rv2mbc : Store Word
  screen : Store Byte
  kbd : Word
  tty : Store Byte
  ttyHead : Word
  traceLeft : Word
  tlb : BitVec 6 → TlbEntry
  ascendLinux : Bool

namespace Bpf

/-- `RET_MBC_TAG`: marks a link register that holds an MBC pc. -/
def RET_MBC_TAG : Word := 0x80000000

/-- `ROM_MAP_WORDS_DEFAULT`, also the bound of the fetch. -/
def ROM_MAP_WORDS_DEFAULT : Nat := 262144

/-- The sizes of `RV2MBC_MAP` in the default and the large build. -/
def RV2MBC_ENTRIES_DEFAULT : Nat := 65536
def RV2MBC_ENTRIES_LARGE : Nat := 524288

/-- An array map of `entries` zeroed slots with the given words loaded. -/
def fillMap (entries : Nat) (words : List Word) : Store Word :=
  Store.ofFn entries (fun i => words.getD i 0)

theorem get?_fillMap {entries i : Nat} {words : List Word} {w : Word}
    (fits : words.length ≤ entries) (here : words[i]? = some w) :
    (fillMap entries words).get? i = some w := by
  have inside := (List.getElem?_eq_some_iff.mp here).1
  rw [fillMap, Store.get?_of_lt _ (by simpa using Nat.lt_of_lt_of_le inside fits),
    Store.cell_ofFn _ _ (Nat.lt_of_lt_of_le inside fits), List.getD_eq_getElem?_getD, here]
  rfl

/-- A machine at boot: zeroed maps with a program loaded. -/
def boot (state : MbcCpuState) (ramWords : Nat) (rom rv2mbc : List Word) : Bpf where
  state := state
  ram := Store.ofFn ramWords (fun _ => 0)
  rom := fillMap ROM_MAP_WORDS_DEFAULT rom
  rv2mbc := fillMap RV2MBC_ENTRIES_DEFAULT rv2mbc
  screen := Store.ofFn Mmap.SCREEN_SIZE (fun _ => 0)
  kbd := 0
  tty := Store.ofFn 4096 (fun _ => 0)
  ttyHead := 0
  traceLeft := 0
  tlb _ := ⟨0, 0, 0⟩
  ascendLinux := false

variable (b : Bpf)

def setReg (r : Reg) (v : Word) : Bpf :=
  { b with state := { b.state with regs := update b.state.regs r v } }

def withFlags (f : Byte) : Bpf := { b with state := { b.state with flags := f } }

def withPc (pc : Word) : Bpf := { b with state := { b.state with pc := pc } }

def withRam (ram : Store Word) : Bpf := { b with ram := ram }

def setHalted : Bpf := { b with state := { b.state with halted := 1 } }

def ttyPushByte (v : Byte) : Bpf :=
  let head := b.ttyHead &&& 0xFFF
  { b with tty := b.tty.set head.toNat v, ttyHead := (head + 1) &&& 0xFFF }

def ramWord (wordAddr : Word) : Word := b.ram.getD wordAddr.toNat 0

def memReadWord (wordAddr : Word) : Word :=
  if wordAddr.toNat = kbdWord then b.kbd else b.ramWord wordAddr

def memWriteWord (wordAddr value : Word) : Bpf :=
  let b := if wordAddr = 0x3000 then b.ttyPushByte (value.setWidth 8) else b
  b.withRam (b.ram.set wordAddr.toNat value)

/-- A byte store to the screen writes the pixel and the enclosing RAM word. -/
def memWriteByte (byteAddr : Word) (value : Byte) : Bpf :=
  let b := if 0xC000 ≤ byteAddr ∧ byteAddr ≤ 0xC003 then b.ttyPushByte value else b
  let b :=
    if Mmap.SCREEN_BASE ≤ byteAddr.toNat ∧ byteAddr.toNat < Mmap.SCREEN_BASE + Mmap.SCREEN_SIZE
    then { b with screen := b.screen.set (byteAddr.toNat - Mmap.SCREEN_BASE) value }
    else b
  let wordAddr := byteAddr >>> 2
  let old := b.memReadWord wordAddr
  b.withRam (b.ram.set wordAddr.toNat
    (insertField old 0xFF (value.setWidth 32) ((byteAddr &&& 3).toNat * 8)))

def memWriteHalf (byteAddr : Word) (value : Half) : Bpf :=
  let wordAddr := byteAddr >>> 2
  let old := b.memReadWord wordAddr
  b.memWriteWord wordAddr (insertField old 0xFFFF (value.setWidth 32) ((byteAddr &&& 2).toNat * 8))

def record (b : Bpf) : Word → List Word → Bpf
  | _, [] => b
  | wordAddr, v :: vs => (b.memWriteWord wordAddr v).record (wordAddr + 1) vs

def PTE_LEAF : Word := 1 <<< 6
def SUPERPAGE_MASK : Word := 0xFFC00000
def SUPERPAGE_OFFSET_MASK : Word := 0x003FFFFF
def UPC_D6_MISS_FAULT : Bool := false
def D6_MISS_ADDR : Word := 0xFFFFFFFC

def d6UserMiss : Bool :=
  b.ascendLinux && UPC_D6_MISS_FAULT && b.state.privLevel == 3 && b.state.pageDirBase != 0

def walkMiss (vaddr : Word) : Word := if b.d6UserMiss then D6_MISS_ADDR else vaddr

def setTlb (idx : BitVec 6) (entry : TlbEntry) : Bpf :=
  { b with tlb := update b.tlb idx entry }

/-- `translate_address`: the physical address and the machine with its TLB. -/
def translateAddress (vaddr : Word) : Word × Bpf :=
  if b.state.mmuEnabled = 0 ∨ b.state.privLevel ≠ 3 then (vaddr, b)
  else
    let vpn := vaddr >>> 12
    let offset := vaddr &&& 0xFFF
    let tlbIdx : BitVec 6 := vpn.setWidth 6
    let entry := b.tlb tlbIdx
    if entry.vpn = vpn ∧ entry.flags &&& Mmu.PTE_PRESENT ≠ 0 then
      ((entry.pfn <<< 12) ||| offset, b)
    else
      let pdeIdx := vaddr >>> 22
      let pteIdx := (vaddr >>> 12) &&& 0x3FF
      let pde := b.memReadWord ((b.state.pageDirBase >>> 2) + pdeIdx)
      if pde &&& Mmu.PTE_PRESENT = 0 then (b.walkMiss vaddr, b)
      else if pde &&& PTE_LEAF ≠ 0 then
        let paddr := (pde &&& SUPERPAGE_MASK) ||| (vaddr &&& SUPERPAGE_OFFSET_MASK)
        (paddr, b.setTlb tlbIdx ⟨vpn, paddr >>> 12, Mmu.PTE_PRESENT⟩)
      else
        let ptBase := pde &&& Mmu.PTE_PFN_MASK
        let pte := b.memReadWord ((ptBase >>> 2) + pteIdx)
        if pte &&& Mmu.PTE_PRESENT = 0 then (b.walkMiss vaddr, b)
        else
          let pfn := (pte &&& Mmu.PTE_PFN_MASK) >>> 12
          ((pfn <<< 12) ||| offset, b.setTlb tlbIdx ⟨vpn, pfn, pte⟩)

theorem translateAddress_flat {b : Bpf} (h : b.state.mmuEnabled = 0) (vaddr : Word) :
    b.translateAddress vaddr = (vaddr, b) :=
  if_pos (Or.inl h)

/-- The maps and modes that the instructions outside the system arms keep,
`CLI` and `STI` apart. -/
structure Setting where
  rom : Store Word
  rv2mbc : Store Word
  traceLeft : Word
  ascendLinux : Bool
  halted : Byte
  mmuEnabled : Byte
  privLevel : Byte
  interruptPending : Byte
  interruptsEnabled : Byte
  rv2mbcBase : Word

def setting : Setting where
  rom := b.rom
  rv2mbc := b.rv2mbc
  traceLeft := b.traceLeft
  ascendLinux := b.ascendLinux
  halted := b.state.halted
  mmuEnabled := b.state.mmuEnabled
  privLevel := b.state.privLevel
  interruptPending := b.state.interruptPending
  interruptsEnabled := b.state.interruptsEnabled
  rv2mbcBase := b.state.rv2mbcBase

section Frame

variable (b : Bpf) (a v : Word)

@[simp] theorem setting_withPc : (b.withPc v).setting = b.setting := rfl

@[simp] theorem setting_memWriteWord : (b.memWriteWord a v).setting = b.setting := by
  unfold memWriteWord
  split <;> rfl

@[simp] theorem state_memWriteWord : (b.memWriteWord a v).state = b.state := by
  unfold memWriteWord
  split <;> rfl

@[simp] theorem ram_memWriteWord : (b.memWriteWord a v).ram = b.ram.set a.toNat v := by
  unfold memWriteWord
  split <;> rfl

@[simp] theorem tlb_memWriteWord : (b.memWriteWord a v).tlb = b.tlb := by
  unfold memWriteWord
  split <;> rfl

variable (y : Byte)

@[simp] theorem setting_memWriteByte : (b.memWriteByte a y).setting = b.setting := by
  unfold memWriteByte
  split <;> split <;> rfl

@[simp] theorem state_memWriteByte : (b.memWriteByte a y).state = b.state := by
  unfold memWriteByte
  split <;> split <;> rfl

@[simp] theorem tlb_memWriteByte : (b.memWriteByte a y).tlb = b.tlb := by
  unfold memWriteByte
  split <;> split <;> rfl

theorem ram_memWriteByte : (b.memWriteByte a y).ram = b.ram.set (a >>> 2).toNat
      (insertField (b.memReadWord (a >>> 2)) 0xFF (y.setWidth 32) ((a &&& 3).toNat * 8)) := by
  unfold memWriteByte memReadWord ramWord withRam
  split <;> split <;> rfl

variable (vs : List Word)

@[simp] theorem setting_record : (b.record a vs).setting = b.setting := by
  induction vs generalizing b a with
  | nil => rfl
  | cons v vs ih => rw [record, ih, setting_memWriteWord]

@[simp] theorem state_record : (b.record a vs).state = b.state := by
  induction vs generalizing b a with
  | nil => rfl
  | cons v vs ih => rw [record, ih, state_memWriteWord]

@[simp] theorem tlb_record : (b.record a vs).tlb = b.tlb := by
  induction vs generalizing b a with
  | nil => rfl
  | cons v vs ih => rw [record, ih, tlb_memWriteWord]

theorem memReadWord_plain {b : Bpf} {a : Word} (h : PlainWord a.toNat) :
    b.memReadWord a = b.ram.getD a.toNat 0 :=
  if_neg h.1

end Frame

end Bpf

end Unheaded.Mbc
