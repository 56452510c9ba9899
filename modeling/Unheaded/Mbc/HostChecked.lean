import Unheaded.Lib.Checked
import Unheaded.Mbc.Host

/-!
# Host emulator with its run-time checks

The functions of the emulator once more, with every index and every operation that a build with
overflow checks looks at: `none` is a panic.
-/

namespace Unheaded.Mbc

open Lib List BitVec Option Function Store Cpu
open BitVec (ofNat)

namespace Cpu.Checked

/-! ## Memory -/

variable (c : Cpu)

def memReadWord (wordAddr : Nat) : Option Word :=
  if wordAddr = kbdWord then some c.kbd
  else if screenWordStart ≤ wordAddr ∧ wordAddr < screenWordEnd then do
    let pixelBase ← Usize.checkedMul (← Usize.checkedSub wordAddr screenWordStart) 4
    (range 4).foldlM (fun val i => do
      let pixel ← Usize.checkedAdd pixelBase i
      if pixel < c.screen.len then
        let part ← checkedShl ((← c.screen.get? pixel).setWidth 32) (← Usize.checkedMul i 8)
        some (val ||| part)
      else some val) 0
  else c.ram.readGuarded wordAddr 0

def memReadByte (byteAddr : Nat) : Option Byte :=
  if Mmap.SCREEN_BASE ≤ byteAddr ∧ byteAddr < Mmap.SCREEN_BASE + Mmap.SCREEN_SIZE then do
    let px ← Usize.checkedSub byteAddr Mmap.SCREEN_BASE
    c.screen.readGuarded px 0
  else do
    let byteShift ← Usize.checkedMul (byteAddr &&& 3) 8
    let word ← memReadWord c (byteAddr >>> 2)
    let shifted ← checkedShr word byteShift
    some ((shifted &&& 0xFF).setWidth 8)

def memReadHalf (byteAddr : Nat) : Option Half := do
  let halfShift ← Usize.checkedMul (byteAddr &&& 2) 8
  let word ← memReadWord c (byteAddr >>> 2)
  let shifted ← checkedShr word halfShift
  some ((shifted &&& 0xFFFF).setWidth 16)

/-- The bytes of a word, written to the screen. -/
def writePixels (screen : Store Byte) (pixelBase : Nat) (value : Word) : Option (Store Byte) :=
  (range 4).foldlM (fun screen i => do
    let pixel ← Usize.checkedAdd pixelBase i
    screen.writeGuarded pixel ((value >>> (i * 8)).setWidth 8)) screen

def memWriteWord (wordAddr : Nat) (value : Word) : Option Cpu :=
  if screenWordStart ≤ wordAddr ∧ wordAddr < screenWordEnd then do
    let pixelBase ← Usize.checkedMul (← Usize.checkedSub wordAddr screenWordStart) 4
    let screen ← writePixels c.screen pixelBase value
    some { c with screen := screen }
  else do
    let ram ← c.ram.writeGuarded wordAddr value
    some (c.withRam ram)

def insertField (old mask value : Word) (shift : Nat) : Option Word := do
  let hole ← checkedShl mask shift
  let field ← checkedShl value shift
  some ((old &&& ~~~hole) ||| field)

def memWriteByte (byteAddr : Nat) (value : Byte) : Option Cpu :=
  if Mmap.SCREEN_BASE ≤ byteAddr ∧ byteAddr < Mmap.SCREEN_BASE + Mmap.SCREEN_SIZE then do
    let px ← Usize.checkedSub byteAddr Mmap.SCREEN_BASE
    let screen ← c.screen.writeGuarded px value
    some { c with screen := screen }
  else do
    let wordAddr := byteAddr >>> 2
    let byteShift ← Usize.checkedMul (byteAddr &&& 3) 8
    let old ← memReadWord c wordAddr
    let new ← insertField old 0xFF (value.setWidth 32) byteShift
    let ram ← c.ram.writeGuarded wordAddr new
    some (c.withRam ram)

def memWriteHalf (byteAddr : Nat) (value : Half) : Option Cpu := do
  let wordAddr := byteAddr >>> 2
  let halfShift ← Usize.checkedMul (byteAddr &&& 2) 8
  let old ← memReadWord c wordAddr
  let new ← insertField old 0xFFFF (value.setWidth 32) halfShift
  memWriteWord c wordAddr new

section Memory

variable (c : Cpu)

theorem pixelBase_eq {wordAddr : Nat}
    (screen : screenWordStart ≤ wordAddr ∧ wordAddr < screenWordEnd) :
    Usize.checkedSub wordAddr screenWordStart = some (wordAddr - screenWordStart) ∧
      Usize.checkedMul (wordAddr - screenWordStart) 4 = some ((wordAddr - screenWordStart) * 4) ∧
      (wordAddr - screenWordStart) * 4 + 4 < 2 ^ 64 := by
  obtain ⟨low, high⟩ := screen
  have bound : screenWordEnd < 2 ^ 20 := by decide
  refine ⟨Usize.checkedSub_of_le low, Usize.checkedMul_of_fits ?_, ?_⟩
  · omega
  · omega

theorem memReadWord_eq (wordAddr : Nat) :
    memReadWord c wordAddr = some (c.memReadWord wordAddr) := by
  unfold memReadWord Cpu.memReadWord
  split
  next => rfl
  next =>
    split
    next screen =>
      obtain ⟨offset, base, small⟩ := pixelBase_eq screen
      rw [offset, bind_eq_bind, bind_some, base, bind_eq_bind, bind_some]
      refine foldlM_eq_some (fun val i mem => ?_) 0
      have bound := mem_range.mp mem
      have pixel : Usize.checkedAdd ((wordAddr - screenWordStart) * 4) i =
          some ((wordAddr - screenWordStart) * 4 + i) := Usize.checkedAdd_of_fits (by omega)
      rw [pixel, bind_eq_bind, bind_some]
      split
      next inside =>
        have amount : Usize.checkedMul i 8 = some (i * 8) := Usize.checkedMul_of_fits (by omega)
        rw [get?_of_lt _ inside, amount]
        have part := checkedShl_of_lt (w := 32) (n := i * 8)
          (a := (c.screen.cell ((wordAddr - screenWordStart) * 4 + i)).setWidth 32) (by omega)
        simp only [bind_some, part]
      next => rfl
    next => exact readGuarded_eq c.ram wordAddr 0

variable (byteAddr : Nat)

theorem fieldShift_eq {mask : Nat} (small : mask ≤ 3) :
    Usize.checkedMul (byteAddr &&& mask) 8 = some ((byteAddr &&& mask) * 8) ∧
      (byteAddr &&& mask) * 8 < 32 := by
  have low : byteAddr &&& mask ≤ mask := Nat.and_le_right
  exact ⟨Usize.checkedMul_of_fits (by omega), by omega⟩

theorem memReadByte_eq : memReadByte c byteAddr = some (c.memReadByte byteAddr) := by
  unfold memReadByte Cpu.memReadByte
  split
  next screen =>
    rw [Usize.checkedSub_of_le screen.1, bind_eq_bind, bind_some]
    exact readGuarded_eq c.screen _ 0
  next =>
    obtain ⟨amount, small⟩ := fieldShift_eq byteAddr (show 3 ≤ 3 by decide)
    simp only [amount, memReadWord_eq, checkedShr_of_lt small, bind_eq_bind, bind_some]

theorem memReadHalf_eq : memReadHalf c byteAddr = some (c.memReadHalf byteAddr) := by
  unfold memReadHalf Cpu.memReadHalf
  obtain ⟨amount, small⟩ := fieldShift_eq byteAddr (show 2 ≤ 3 by decide)
  simp only [amount, memReadWord_eq, checkedShr_of_lt small, bind_eq_bind, bind_some]

theorem writePixels_eq (screen : Store Byte) {pixelBase : Nat} (value : Word)
    (small : pixelBase + 4 < 2 ^ 64) :
    writePixels screen pixelBase value = some ((range 4).foldl (fun screen i =>
        screen.set (pixelBase + i) ((value >>> (i * 8)).setWidth 8)) screen) := by
  refine foldlM_eq_some (fun screen i mem => ?_) screen
  have bound := mem_range.mp mem
  have pixel : Usize.checkedAdd pixelBase i = some (pixelBase + i) :=
    Usize.checkedAdd_of_fits (by omega)
  rw [pixel]
  exact writeGuarded_eq screen _ _

theorem memWriteWord_eq (wordAddr : Nat) (value : Word) :
    memWriteWord c wordAddr value = some (c.memWriteWord wordAddr value) := by
  unfold memWriteWord Cpu.memWriteWord
  split
  next screen =>
    obtain ⟨offset, base, small⟩ := pixelBase_eq screen
    rw [offset, bind_eq_bind, bind_some, base, bind_eq_bind,
      bind_some, writePixels_eq c.screen value small, bind_some]
  next =>
    rw [writeGuarded_eq, bind_eq_bind, bind_some]

theorem insertField_eq (old mask value : Word) {shift : Nat} (small : shift < 32) :
    insertField old mask value shift = some (Lib.insertField old mask value shift) := by
  unfold insertField Lib.insertField
  simp only [checkedShl_of_lt small, bind_eq_bind, bind_some]

theorem memWriteByte_eq (value : Byte) :
    memWriteByte c byteAddr value = some (c.memWriteByte byteAddr value) := by
  unfold memWriteByte Cpu.memWriteByte
  split
  next screen =>
    rw [Usize.checkedSub_of_le screen.1, bind_eq_bind, bind_some,
      writeGuarded_eq, bind_eq_bind, bind_some]
  next =>
    obtain ⟨amount, small⟩ := fieldShift_eq byteAddr (show 3 ≤ 3 by decide)
    simp only [amount, memReadWord_eq, insertField_eq _ _ _ small, writeGuarded_eq,
      bind_eq_bind, bind_some]

theorem memWriteHalf_eq (value : Half) :
    memWriteHalf c byteAddr value = some (c.memWriteHalf byteAddr value) := by
  unfold memWriteHalf Cpu.memWriteHalf
  obtain ⟨amount, small⟩ := fieldShift_eq byteAddr (show 2 ≤ 3 by decide)
  simp only [amount, memReadWord_eq, memWriteWord_eq, insertField_eq _ _ _ small,
    bind_eq_bind, bind_some]

end Memory

/-! ## Address translation -/

/-- `translate_address`: the TLB is an array of 64 entries. -/
def translateAddress (c : Cpu) (vaddr : Word) : Option (Word × Cpu) :=
  if c.state.mmuEnabled = 0 then some (vaddr, c)
  else do
    let vpn := vaddr >>> 12
    let offset := vaddr &&& 0xFFF
    let tlbIdx ← checkedIndex 64 6 (vpn &&& 63).toNat
    let entry := c.tlb tlbIdx
    if entry.vpn = vpn ∧ entry.flags &&& Mmu.PTE_PRESENT ≠ 0 then
      some ((entry.pfn <<< 12) ||| offset, c)
    else
      let pdeIdx := (vaddr >>> 22).toNat
      let pteIdx := ((vaddr >>> 12) &&& 0x3FF).toNat
      let pde ← memReadWord c (← Usize.checkedAdd (c.state.pageDirBase >>> 2).toNat pdeIdx)
      if pde &&& Mmu.PTE_PRESENT = 0 then some (vaddr, c)
      else
        let ptBase := pde &&& Mmu.PTE_PFN_MASK
        let pte ← memReadWord c (← Usize.checkedAdd (ptBase >>> 2).toNat pteIdx)
        if pte &&& Mmu.PTE_PRESENT = 0 then some (vaddr, c)
        else
          let pfn := (pte &&& Mmu.PTE_PFN_MASK) >>> 12
          some ((pfn <<< 12) ||| offset,
            { c with tlb := update c.tlb tlbIdx ⟨vpn, pfn, pte⟩ })

theorem tlbIdx_eq (vpn : Word) : checkedIndex 64 6 (vpn &&& 63).toNat = some (vpn.setWidth 6) := by
  have low : (vpn &&& 63).toNat = vpn.toNat % 2 ^ 6 := by
    exact Nat.and_two_pow_sub_one_eq_mod vpn.toNat 6
  rw [low]
  exact checkedIndex_toNat (vpn.setWidth 6).isLt

theorem wordAddr_add_eq (base index : Word) :
    Usize.checkedAdd base.toNat index.toNat = some (base.toNat + index.toNat) := by
  exact Usize.checkedAdd_of_fits (by omega)

theorem translateAddress_eq (c : Cpu) (vaddr : Word) :
    translateAddress c vaddr = some (c.translateAddress vaddr) := by
  unfold translateAddress Cpu.translateAddress
  simp only [tlbIdx_eq, wordAddr_add_eq, memReadWord_eq, bind_eq_bind, bind_some]
  split
  next => rfl
  next =>
    split
    next => rfl
    next =>
      split
      next => rfl
      next =>
        split
        next => rfl
        next => rfl

/-! ## Scheduler -/

def row (pid : Nat) : Option Byte := checkedIndex 8 8 pid

/-- The search loop; the bit of a pid is formed only for a pid below `num`. -/
def nextRunnable (skipMask : Word) (num : Nat) : Nat → Nat → Option (Option Nat)
  | 0, _ => some none
  | tries + 1, pid => do
    let bit ← if pid < num then checkedShl (1 : Word) pid else some 0
    if pid < num ∧ skipMask &&& bit = 0 then some (some pid)
    else
      let next ← Usize.checkedRem (← Usize.checkedAdd pid 1) num
      nextRunnable skipMask num tries next

def schedulerContextSwitch (c : Cpu) : Option Cpu :=
  let oldPid := c.state.currentPid.toNat
  let num := c.state.numProcesses.toNat
  if num ≤ 1 then some c
  else do
    let slot ← row oldPid
    let c := { c with procTable := update c.procTable slot c.saveSlot }
    let skipMask := c.haltedMask ||| c.suspendedMask
    let first ← Usize.checkedRem (← Usize.checkedAdd oldPid 1) num
    match ← nextRunnable skipMask num 8 first with
    | none => some c
    | some nextPid =>
      if nextPid = oldPid then some c
      else
        let next ← row nextPid
        let load := c.procTable next
        some { c with state := { c.state with
            reservationAddress := 0xFFFFFFFF
            regs := load.regs
            pc := load.pc
            flags := load.flags.setWidth 8
            programBreak := load.programBreak
            pageDirBase := load.pageDirBase
            currentPid := ofNat 8 nextPid } }

section Scheduler

theorem pidBit_eq (pid : Nat) (small : pid < 32) :
    checkedShl (1 : Word) pid = some ((1 <<< pid : Nat) : Word) := by
  rw [checkedShl_of_lt small]
  refine congrArg some (eq_of_toNat_eq ?_)
  rfl

theorem nextRunnable_eq (skipMask : Word) {num : Nat} (positive : 0 < num) (few : num ≤ 8)
    (tries : Nat) {pid : Nat} (inside : pid < num) :
    nextRunnable skipMask num tries pid = some (Cpu.nextRunnable skipMask num tries pid) ∧
      ∀ next, Cpu.nextRunnable skipMask num tries pid = some next → next < num := by
  induction tries generalizing pid with
  | zero => exact ⟨rfl, fun _ found => nomatch found⟩
  | succ tries ih =>
    have bit := pidBit_eq pid (by omega)
    have add : Usize.checkedAdd pid 1 = some (pid + 1) := Usize.checkedAdd_of_fits (by omega)
    obtain ⟨rest, bound⟩ := ih (Nat.mod_lt (pid + 1) positive)
    unfold nextRunnable Cpu.nextRunnable
    simp only [if_pos inside, bit, add, Usize.checkedRem_of_pos positive, rest, bind_eq_bind,
      bind_some]
    split
    next =>
      refine ⟨rfl, fun next found => ?_⟩
      cases found
      exact inside
    next => exact ⟨rfl, bound⟩

theorem row_eq {pid : Byte} (inside : pid.toNat < 8) : row pid.toNat = some pid :=
  checkedIndex_toNat inside

/-- The running process and the others have rows of the table. -/
structure Seated (c : Cpu) : Prop where
  running : c.state.currentPid.toNat < 8
  few : c.state.numProcesses.toNat ≤ 8

theorem schedulerContextSwitch_eq {c : Cpu} (seated : Seated c) :
    schedulerContextSwitch c = some c.schedulerContextSwitch := by
  have running := seated.running
  have few := seated.few
  unfold schedulerContextSwitch Cpu.schedulerContextSwitch
  dsimp only
  split
  next => rfl
  next several =>
    have slot := row_eq running
    have add : Usize.checkedAdd c.state.currentPid.toNat 1 =
        some (c.state.currentPid.toNat + 1) := Usize.checkedAdd_of_fits (by omega)
    have pos : 0 < c.state.numProcesses.toNat := by omega
    obtain ⟨search, bound⟩ := nextRunnable_eq (c.haltedMask ||| c.suspendedMask) pos few 8
      (Nat.mod_lt (c.state.currentPid.toNat + 1) pos)
    simp only [slot, add, Usize.checkedRem_of_pos pos, search, bind_eq_bind, bind_some]
    cases found : Cpu.nextRunnable (c.haltedMask ||| c.suspendedMask) c.state.numProcesses.toNat 8
        ((c.state.currentPid.toNat + 1) % c.state.numProcesses.toNat) with
    | none => rfl
    | some nextPid =>
      have inside : nextPid < 8 := Nat.lt_of_lt_of_le (bound nextPid found) few
      have next : row nextPid = some (ofNat 8 nextPid) := if_pos inside
      dsimp only
      split
      next => rfl
      next =>
        rw [next]
        rfl

end Scheduler

/-! ## System calls -/

variable (c : Cpu)

def sysExit : Option ExecResult := do
  let exitingPid := c.state.currentPid
  let bit ← checkedShl (1 : Word) exitingPid.toNat
  let c := { c with
    state := { c.state with exitCode := c.state.regs 1 }
    haltedMask := c.haltedMask ||| bit }
  let c := c.unsuspendVforkParent
  if 1 < c.state.numProcesses.toNat then
    let c ← schedulerContextSwitch c
    if c.state.currentPid = exitingPid then
      some (.err .halted { c with state := { c.state with halted := 1 } })
    else some (.ok c)
  else some (.err .halted { c with state := { c.state with halted := 1 } })

/-- The loop of `SYS_WRITE`; `b` counts along with `written`. -/
def writeBytes (bufAddr : Word) (maxWrite : Nat) : Option (Word × List Byte) :=
  (range maxWrite).foldlM (fun done b => do
    let byteVal ← memReadByte c (bufAddr + ofNat 32 b).toNat
    let written ← checkedAdd done.1 1
    some (written, done.2 ++ [byteVal])) (0, [])

def sysWrite : Option Cpu :=
  let fd := c.state.regs 1
  let bufAddr := c.state.regs 2
  let len := c.state.regs 3
  if fd = 1 ∨ fd = 2 then do
    let maxWrite := if len < 256 then len.toNat else 256
    let (written, bytes) ← writeBytes c bufAddr maxWrite
    some ({ c with ttyOutput := c.ttyOutput ++ bytes }.setReg 0 written)
  else some (c.setReg 0 (negErrno 9))

/-- The word loop of the block calls. -/
def copyWords (ram : Store Word) (srcBase dstBase n : Nat) : Option (Store Word) :=
  (range n).foldlM (fun ram w => do
    let val ← ram.readGuarded (← Usize.checkedAdd srcBase w) 0
    ram.writeGuarded (← Usize.checkedAdd dstBase w) val) ram

def sysBlock (toDisk : Bool) : Option Cpu :=
  let blockNum := c.state.regs 1
  let buf := (c.state.regs 2 >>> 2).toNat
  if blockNum.toNat < Block.TOTAL_BLOCKS then do
    let offset ← checkedMul blockNum (ofNat 32 Block.WORDS_PER_BLOCK)
    let disk ← checkedAdd (ofNat 32 Block.RAMDISK_BASE_WORD) offset
    let ram ← if toDisk then copyWords c.ram buf disk.toNat 128
      else copyWords c.ram disk.toNat buf 128
    some ((c.withRam ram).setReg 0 Block.BLOCK_SIZE)
  else some (c.setReg 0 (negErrno Lsys.EIO))

def sysFork (vfork : Bool) : Option Cpu :=
  if MAX_PROCESSES ≤ c.state.numProcesses.toNat then some (c.setReg 0 (negErrno 11))
  else do
    let parentPid := c.state.currentPid.toNat
    let childPid := c.state.numProcesses
    let offset ← checkedMul (childPid.setWidth 32) (0x1000 : Word)
    let pageDirBase ← checkedAdd (0x00F00000 : Word) offset
    let child : ProcSlot := { c.saveSlot with
      regs := update c.state.regs 0 0
      pageDirBase := pageDirBase }
    let slot ← row childPid.toNat
    let numProcesses ← checkedAdd c.state.numProcesses 1
    let suspendedMask ←
      if vfork then (checkedShl (1 : Word) parentPid).map (c.suspendedMask ||| ·)
      else some c.suspendedMask
    let c := { c with
      procTable := update c.procTable slot child
      state := { c.state with numProcesses := numProcesses }
      suspendedMask := suspendedMask }
    some (c.setReg 0 (childPid.setWidth 32))

/-- The character of `SYS_READ`, stored into its word. -/
def storeKey (ram : Store Word) (bufAddr : Nat) (ch : Word) : Option (Store Word) :=
  let dstWord := bufAddr >>> 2
  if dstWord < ram.len then do
    let existing ← ram.get? dstWord
    let new ← insertField existing 0xFF ch (← Usize.checkedMul (bufAddr &&& 3) 8)
    ram.set? dstWord new
  else some ram

def sysRead : Option Cpu :=
  let fd := c.state.regs 1
  let bufAddr := (c.state.regs 2).toNat
  if fd = 0 then
    if c.kbd ≠ 0 then
      if c.kbd &&& 1 = 1 then do
        let ch := (c.kbd >>> 1) &&& 0xFF
        let ram ← storeKey c.ram bufAddr ch
        some ({ c with ram := ram, kbd := 0 }.setReg 0 1)
      else some ({ c with kbd := 0 }.setReg 0 0)
    else some (c.setReg 0 0)
  else some (c.setReg 0 (negErrno 9))

def sysWaitpid : Option Cpu :=
  let targetPid := c.state.regs 1
  if targetPid < c.state.numProcesses.setWidth 32 then do
    let bits ← checkedShr c.haltedMask targetPid.toNat
    if bits &&& 1 ≠ 0 then some (c.setReg 0 targetPid)
    else
      let c ← if 1 < c.state.numProcesses.toNat then schedulerContextSwitch c else some c
      some (c.withPc (c.state.pc - 1))
  else some (c.setReg 0 (negErrno 10))

def sysSignal : Option Cpu :=
  let signum := c.state.regs 1
  let handler := c.state.regs 2
  if signum < Lsys.SIGNAL_MAX_SLOTS then do
    let slotWord ← checkedAdd (Lsys.SIGNAL_TABLE_BASE >>> 2) signum
    let oldHandler ← memReadWord c slotWord.toNat
    let c ← memWriteWord c slotWord.toNat handler
    some (c.setReg 0 oldHandler)
  else some (c.setReg 0 0)

def sysClockGettime : Option Cpu := do
  let tpAddr := (c.state.regs 1).toNat
  let secs ← checkedDiv c.ticksMs 1000
  let nsecs ← checkedMul (← checkedRem c.ticksMs 1000) 1000000
  let c ← memWriteWord c (tpAddr >>> 2) secs
  let c ← memWriteWord c ((← Usize.checkedAdd tpAddr 4) >>> 2) nsecs
  some (c.setReg 0 0)

/-- `secs * 1000 + nsecs / 1_000_000`. -/
def sleepSum (secs nsecs : Word) : Option Word := do
  checkedAdd (← checkedMul secs 1000) (← checkedDiv nsecs 1000000)

def sysNanosleep : Option Cpu := do
  let reqAddr := (c.state.regs 1).toNat
  let secs ← memReadWord c (reqAddr >>> 2)
  let nsecs ← memReadWord c ((← Usize.checkedAdd reqAddr 4) >>> 2)
  let sleepMs ← sleepSum secs nsecs
  some ({ c with ticksMs := c.ticksMs + sleepMs }.setReg 0 0)

def sysStat : Option Cpu := do
  let bufWord := (c.state.regs 2 >>> 2).toNat
  let c ← memWriteWord c bufWord 0o100644
  let c ← memWriteWord c (← Usize.checkedAdd bufWord 1) 4096
  let c ← memWriteWord c (← Usize.checkedAdd bufWord 2) 512
  some (c.setReg 0 0)

def sysIoctl : Option Cpu := do
  let c ← if c.state.regs 2 = 0x5413 then
      memWriteWord c (c.state.regs 3 >>> 2).toNat (24 ||| (80 <<< 16))
    else some c
  some (c.setReg 0 0)

def sysPipe : Option Cpu := do
  let pipefd := c.state.regs 1 >>> 2
  let c ← memWriteWord c pipefd.toNat 10
  let c ← memWriteWord c (← checkedAdd pipefd 1).toNat 11
  some (c.setReg 0 0)

section Calls

variable {c : Cpu}

theorem Seated.exiting (seated : Seated c) : Seated (unsuspendVforkParent { c with
      state := { c.state with exitCode := c.state.regs 1 }
      haltedMask := c.haltedMask ||| (1 <<< c.state.currentPid.toNat) }) := by
  unfold unsuspendVforkParent
  split
  next => exact ⟨seated.running, seated.few⟩
  next => exact ⟨seated.running, seated.few⟩

theorem sysExit_eq (seated : Seated c) : sysExit c = some c.sysExit := by
  have running := seated.running
  have bit := pidBit_eq c.state.currentPid.toNat (by omega)
  unfold sysExit Cpu.sysExit
  simp only [bit, schedulerContextSwitch_eq seated.exiting, bind_eq_bind, bind_some]
  split
  next =>
    split
    next => rfl
    next => rfl
  next => rfl

theorem writeBytes_eq (c : Cpu) (bufAddr : Word) {n : Nat} (few : n ≤ 256) :
    writeBytes c bufAddr n = some (ofNat 32 n,
        (range n).map fun b => c.memReadByte (bufAddr + ofNat 32 b).toNat) := by
  induction n with
  | zero => rfl
  | succ n ih =>
    have count : checkedAdd (ofNat 32 n) 1 = some (ofNat 32 (n + 1)) := by
      rw [ofNat_add]
      refine checkedAdd_of_fits ?_
      change n % 2 ^ 32 + 1 < 2 ^ 32
      omega
    have before := ih (by omega)
    unfold writeBytes at before ⊢
    rw [range_succ, foldlM_append, before]
    simp only [foldlM_cons, memReadByte_eq, count, bind_eq_bind, bind_some, map_append]
    rfl

theorem sysWrite_eq : sysWrite c = some c.sysWrite := by
  unfold sysWrite Cpu.sysWrite
  dsimp only
  split
  next =>
    have few : (if c.state.regs 3 < 256 then (c.state.regs 3).toNat else 256) ≤ 256 := by
      split
      next small => exact Nat.le_of_lt small
      next => exact Nat.le_refl 256
    rw [writeBytes_eq c (c.state.regs 2) few]
    rfl
  next => rfl

theorem copyWords_eq (ram : Store Word) {src dst n : Nat} (source : src + n < 2 ^ 64)
    (target : dst + n < 2 ^ 64) : copyWords ram src dst n = some (Mbc.copyWords ram src dst n) := by
  refine foldlM_eq_some (fun ram w mem => ?_) ram
  have bound := mem_range.mp mem
  have read : Usize.checkedAdd src w = some (src + w) := Usize.checkedAdd_of_fits (by omega)
  have written : Usize.checkedAdd dst w = some (dst + w) := Usize.checkedAdd_of_fits (by omega)
  simp only [read, written, readGuarded_eq, writeGuarded_eq, bind_eq_bind, bind_some]

theorem diskBase_eq {blockNum : Word} (block : blockNum.toNat < Block.TOTAL_BLOCKS) :
    ∃ offset disk : Word, checkedMul blockNum (ofNat 32 Block.WORDS_PER_BLOCK) = some offset ∧
        checkedAdd (ofNat 32 Block.RAMDISK_BASE_WORD) offset = some disk ∧
        disk.toNat = Block.RAMDISK_BASE_WORD + blockNum.toNat * Block.WORDS_PER_BLOCK := by
  unfold Block.TOTAL_BLOCKS at block
  have words : (ofNat 32 Block.WORDS_PER_BLOCK).toNat = 128 := rfl
  have base : (ofNat 32 Block.RAMDISK_BASE_WORD).toNat = Block.RAMDISK_BASE_WORD := rfl
  have offset : (blockNum * ofNat 32 Block.WORDS_PER_BLOCK).toNat =
      blockNum.toNat * Block.WORDS_PER_BLOCK := by
    rw [toNat_mul, words, Block.WORDS_PER_BLOCK]
    omega
  have fits : Block.RAMDISK_BASE_WORD + blockNum.toNat * Block.WORDS_PER_BLOCK < 2 ^ 32 := by
    unfold Block.RAMDISK_BASE_WORD Block.WORDS_PER_BLOCK
    omega
  refine ⟨_, _, checkedMul_of_fits ?_, checkedAdd_of_fits ?_, ?_⟩
  · rw [words]
    omega
  · rw [offset]
    exact fits
  · rw [toNat_add, offset]
    exact Nat.mod_eq_of_lt fits

theorem sysBlock_eq (toDisk : Bool) : sysBlock c toDisk = some (c.sysBlock toDisk) := by
  unfold sysBlock Cpu.sysBlock
  dsimp only
  split
  next block =>
    obtain ⟨offset, disk, product, sum, first⟩ := diskBase_eq block
    have near : (c.state.regs 2 >>> 2).toNat + 128 < 2 ^ 64 := by
      omega
    have small : disk.toNat + 128 < 2 ^ 64 := by
      omega
    rw [bind_of_some product, bind_of_some sum, ← first]
    cases toDisk with
    | true => rw [if_pos rfl, if_pos rfl, bind_of_some (copyWords_eq c.ram near small)]
    | false =>
      rw [if_neg (by decide), if_neg (by decide), bind_of_some (copyWords_eq c.ram small near)]
  next => rfl

theorem sysFork_eq (seated : Seated c) (vfork : Bool) :
    sysFork c vfork = some (c.sysFork vfork) := by
  have running := seated.running
  unfold sysFork Cpu.sysFork
  split
  next => rfl
  next room =>
    have few : c.state.numProcesses.toNat < 8 := Nat.not_le.mp room
    have offset : checkedMul (c.state.numProcesses.setWidth 32) (0x1000 : Word) =
        some (c.state.numProcesses.setWidth 32 * 0x1000) := by
      refine checkedMul_of_fits ?_
      change c.state.numProcesses.toNat * 4096 < 2 ^ 32
      omega
    have directory : checkedAdd (0x00F00000 : Word) (c.state.numProcesses.setWidth 32 * 0x1000) =
        some (0x00F00000 + c.state.numProcesses.setWidth 32 * 0x1000) := by
      refine checkedAdd_of_fits ?_
      change 15728640 + c.state.numProcesses.toNat * 4096 % 2 ^ 32 < 2 ^ 32
      omega
    have count : checkedAdd c.state.numProcesses 1 = some (c.state.numProcesses + 1) := by
      refine checkedAdd_of_fits ?_
      change c.state.numProcesses.toNat + 1 < 2 ^ 8
      omega
    have bit := pidBit_eq c.state.currentPid.toNat (by omega)
    simp only [offset, directory, count, bit, row_eq few, bind_eq_bind, bind_some]
    cases vfork with
    | true => rfl
    | false => rfl

theorem storeKey_eq (ram : Store Word) (bufAddr : Nat) (ch : Word) : storeKey ram bufAddr ch =
      some (ram.set (bufAddr >>> 2)
        (Lib.insertField (ram.getD (bufAddr >>> 2) 0) 0xFF ch ((bufAddr &&& 3) * 8))) := by
  obtain ⟨amount, small⟩ := fieldShift_eq bufAddr (show 3 ≤ 3 by decide)
  unfold storeKey
  dsimp only
  split
  next inside =>
    simp only [get?_of_lt _ inside, getD_of_lt _ inside, amount,
      insertField_eq _ _ _ small, bind_eq_bind, bind_some]
    exact if_pos inside
  next outside => rw [set_of_not_lt _ outside]

theorem sysRead_eq : sysRead c = some c.sysRead := by
  unfold sysRead Cpu.sysRead
  simp only [storeKey_eq]
  split
  next =>
    split
    next =>
      split
      next => rfl
      next => rfl
    next => rfl
  next => rfl

theorem sysWaitpid_eq (seated : Seated c) : sysWaitpid c = some c.sysWaitpid := by
  unfold sysWaitpid Cpu.sysWaitpid
  dsimp only
  split
  next known =>
    have few := seated.few
    have small : (c.state.regs 1).toNat < 32 := by
      have below : (c.state.regs 1).toNat < (c.state.numProcesses.setWidth 32).toNat := known
      rw [toNat_setWidth] at below
      omega
    rw [checkedShr_of_lt small, bind_eq_bind, bind_some]
    split
    next => rfl
    next =>
      split
      next =>
        rw [schedulerContextSwitch_eq seated]
        rfl
      next => rfl
  next => rfl

theorem sysSignal_eq : sysSignal c = some c.sysSignal := by
  unfold sysSignal Cpu.sysSignal
  dsimp only
  split
  next known =>
    have slot : checkedAdd (Lsys.SIGNAL_TABLE_BASE >>> 2) (c.state.regs 1) =
        some (Lsys.SIGNAL_TABLE_BASE >>> 2 + c.state.regs 1) := by
      refine checkedAdd_of_fits ?_
      have below : (c.state.regs 1).toNat < 64 := known
      change 245760 + (c.state.regs 1).toNat < 2 ^ 32
      omega
    simp only [slot, memReadWord_eq, memWriteWord_eq, bind_eq_bind, bind_some]
  next => rfl

theorem addr_add_eq (address : Word) {n : Nat} (small : n ≤ 4) :
    Usize.checkedAdd address.toNat n = some (address.toNat + n) := by
  exact Usize.checkedAdd_of_fits (by omega)

theorem sysClockGettime_eq : sysClockGettime c = some c.sysClockGettime := by
  have part : checkedMul (c.ticksMs % 1000) (1000000 : Word) =
      some (c.ticksMs % 1000 * 1000000) := by
    refine checkedMul_of_fits ?_
    rw [toNat_umod, show (1000 : Word).toNat = 1000 from rfl,
      show (1000000 : Word).toNat = 1000000 from rfl]
    omega
  have thousand : (1000 : Word) ≠ 0 := by decide
  unfold sysClockGettime Cpu.sysClockGettime
  rw [bind_of_some (checkedDiv_of_ne thousand), bind_of_some (checkedRem_of_ne thousand),
    bind_of_some part, bind_of_some (memWriteWord_eq _ _ _),
    bind_of_some (addr_add_eq _ (Nat.le_refl 4)), bind_of_some (memWriteWord_eq _ _ _)]

theorem sysStat_eq : sysStat c = some c.sysStat := by
  unfold sysStat Cpu.sysStat
  simp only [memWriteWord_eq, addr_add_eq _ (show 1 ≤ 4 by decide),
    addr_add_eq _ (show 2 ≤ 4 by decide), bind_eq_bind, bind_some]

theorem sysIoctl_eq : sysIoctl c = some c.sysIoctl := by
  unfold sysIoctl Cpu.sysIoctl
  simp only [memWriteWord_eq]
  split
  next => rfl
  next => rfl

theorem sysPipe_eq : sysPipe c = some c.sysPipe := by
  have bound : (c.state.regs 1 >>> 2).toNat < 2 ^ 30 := by
    rw [toNat_ushiftRight]
    omega
  have next : checkedAdd (c.state.regs 1 >>> 2) 1 = some (c.state.regs 1 >>> 2 + 1) := by
    refine checkedAdd_of_fits ?_
    change (c.state.regs 1 >>> 2).toNat + 1 < 2 ^ 32
    omega
  have nextNat : (c.state.regs 1 >>> 2 + 1).toNat = (c.state.regs 1 >>> 2).toNat + 1 := by
    change ((c.state.regs 1 >>> 2).toNat + 1) % 2 ^ 32 = (c.state.regs 1 >>> 2).toNat + 1
    omega
  unfold sysPipe Cpu.sysPipe
  simp only [next, nextNat, memWriteWord_eq, bind_eq_bind, bind_some]

/-- The time that the request of `SYS_NANOSLEEP` asks for. -/
def sleepMs (c : Cpu) : Nat :=
  let reqAddr := (c.state.regs 1).toNat
  let secs := c.memReadWord (reqAddr >>> 2)
  let nsecs := c.memReadWord ((reqAddr + 4) >>> 2)
  secs.toNat * 1000 + nsecs.toNat / 1000000

theorem sleepSum_eq (secs nsecs : Word) : sleepSum secs nsecs =
      if secs.toNat * 1000 + nsecs.toNat / 1000000 < 2 ^ 32 then
        some (secs * 1000 + nsecs / 1000000)
      else none := by
  have million : checkedDiv nsecs (1000000 : Word) = some (nsecs / 1000000) :=
    checkedDiv_of_ne (by decide)
  have divided : (nsecs / 1000000).toNat = nsecs.toNat / 1000000 := toNat_udiv
  have product : (secs * 1000).toNat = secs.toNat * 1000 % 2 ^ 32 := toNat_mul secs 1000
  by_cases seconds : secs.toNat * 1000 < 2 ^ 32
  · have plain := product.trans (Nat.mod_eq_of_lt seconds)
    rw [sleepSum, bind_of_some (checkedMul_of_fits seconds), bind_of_some million, checkedAdd,
      plain, divided]
  · have long : ¬ secs.toNat * 1000 + nsecs.toNat / 1000000 < 2 ^ 32 := fun fits =>
      seconds (Nat.lt_of_le_of_lt (Nat.le_add_right _ _) fits)
    have stops : checkedMul secs 1000 = none := if_neg seconds
    rw [sleepSum, stops, if_neg long]
    rfl

theorem sysNanosleep_eq :
    sysNanosleep c = if sleepMs c < 2 ^ 32 then some c.sysNanosleep else none := by
  unfold sysNanosleep sleepMs
  rw [bind_of_some (memReadWord_eq _ _), bind_of_some (addr_add_eq _ (Nat.le_refl 4)),
    bind_of_some (memReadWord_eq _ _), sleepSum_eq]
  split
  next => rfl
  next => rfl

end Calls

end Cpu.Checked

end Unheaded.Mbc
