import Unheaded.Lib.Events
import Unheaded.Mbc.Host

/-!
# Coherence of the host emulator's TLB

The software TLB is looked up by page number alone: an entry does not say which page directory it
was filled from.
-/

namespace Unheaded.Mbc

open Lib Function MbcInsn Opcode ExecResult

def ExecResult.cpu : ExecResult → Cpu
  | .ok c => c
  | .err _ c => c

namespace Cpu

/-! ## The walk -/

variable (c : Cpu)

/-- The directory entry for `v` in the directory at `dir`. -/
def pdeOf (dir v : Word) : Word := c.memReadWord ((dir >>> 2).toNat + (v >>> 22).toNat)

/-- The table entry for `v`, in the table its directory entry names. -/
def pteOf (dir v : Word) : Word :=
  c.memReadWord (((c.pdeOf dir v &&& Mmu.PTE_PFN_MASK) >>> 2).toNat + ((v >>> 12) &&& 0x3FF).toNat)

/-- The two-level walk for `v` from the directory at `dir`. -/
def walkIn (dir v : Word) : Word :=
  if c.pdeOf dir v &&& Mmu.PTE_PRESENT = 0 then v
  else if c.pteOf dir v &&& Mmu.PTE_PRESENT = 0 then v
  else (((c.pteOf dir v &&& Mmu.PTE_PFN_MASK) >>> 12) <<< 12) ||| (v &&& 0xFFF)

/-- What `v` means to the running process. -/
def walk (v : Word) : Word :=
  if c.state.mmuEnabled = 0 then v else c.walkIn c.state.pageDirBase v

/-- The entry a lookup of `v` compares with. -/
def entryOf (v : Word) : TlbEntry := c.tlb ((v >>> 12).setWidth 6)

/-- The TLB answers for `v`. -/
def Hits (v : Word) : Prop :=
  (c.entryOf v).vpn = v >>> 12 ∧ (c.entryOf v).flags &&& Mmu.PTE_PRESENT ≠ 0

instance (c : Cpu) (v : Word) : Decidable (c.Hits v) := inferInstanceAs (Decidable (_ ∧ _))

def cached (v : Word) : Word := ((c.entryOf v).pfn <<< 12) ||| (v &&& 0xFFF)

def NoEntries : Prop := ∀ i, (c.tlb i).flags &&& Mmu.PTE_PRESENT = 0

instance (c : Cpu) : Decidable c.NoEntries := inferInstanceAs (Decidable (∀ _, _))

def Coherent : Prop := ∀ v, c.Hits v → c.cached v = c.walkIn c.state.pageDirBase v

variable {c : Cpu}

theorem NoEntries.not_hits (h : c.NoEntries) (v : Word) : ¬ c.Hits v :=
  fun hit => hit.2 (h _)

theorem NoEntries.coherent (h : c.NoEntries) : c.Coherent :=
  fun v hit => absurd hit (h.not_hits v)

theorem noEntries_of_tlb (h : c.tlb = Cpu.new.tlb) : c.NoEntries := fun i => by
  rw [h]
  simp [Cpu.new]

theorem flushTlb_noEntries (c : Cpu) : c.flushTlb.NoEntries := fun _ => by
  simp [flushTlb]

/-- The entry a walk of `v` leaves behind. -/
def fill (c : Cpu) (v : Word) : Cpu :=
  let pte := c.pteOf c.state.pageDirBase v
  let entry : TlbEntry := ⟨v >>> 12, (pte &&& Mmu.PTE_PFN_MASK) >>> 12, pte⟩
  { c with tlb := update c.tlb ((v >>> 12).setWidth 6) entry }

theorem translateAddress_eq (c : Cpu) (v : Word) : c.translateAddress v =
      if c.state.mmuEnabled = 0 then (v, c)
      else if c.Hits v then (c.cached v, c)
      else if c.pdeOf c.state.pageDirBase v &&& Mmu.PTE_PRESENT = 0 then (v, c)
      else if c.pteOf c.state.pageDirBase v &&& Mmu.PTE_PRESENT = 0 then (v, c)
      else ((((c.pteOf c.state.pageDirBase v &&& Mmu.PTE_PFN_MASK) >>> 12) <<< 12) |||
        (v &&& 0xFFF), c.fill v) := rfl

theorem translateAddress_fst (c : Cpu) (v : Word) : (c.translateAddress v).1 =
      if c.state.mmuEnabled = 0 then v
      else if c.Hits v then c.cached v else c.walkIn c.state.pageDirBase v := by
  rw [translateAddress_eq, walkIn]
  split_ifs <;> rfl

theorem translateAddress_eq_walk (h : c.Coherent) (v : Word) :
    (c.translateAddress v).1 = c.walk v := by
  rw [translateAddress_fst, walk]
  split
  next => rfl
  next =>
    split
    next hit => exact h v hit
    next => rfl

/-- From `c` to `c'` no page that the TLB then holds is mapped anew. -/
def TablesKept (c c' : Cpu) : Prop :=
  ∀ v, c'.Hits v → c'.walkIn c.state.pageDirBase v = c.walkIn c.state.pageDirBase v

theorem Coherent.of_tablesKept {c' : Cpu} (h : c.Coherent) (tlb : c'.tlb = c.tlb)
    (dir : c'.state.pageDirBase = c.state.pageDirBase) (kept : TablesKept c c') : c'.Coherent := by
  intro v hit
  have entry : c'.entryOf v = c.entryOf v := by rw [entryOf, entryOf, tlb]
  have old : c.Hits v := by rwa [Hits, ← entry]
  rw [dir, kept v hit, ← h v old, cached, cached, entry]

/-! ## Filling an entry -/

theorem translateAddress_snd (c : Cpu) (v : Word) : (c.translateAddress v).2 = c ∨
      (c.pdeOf c.state.pageDirBase v &&& Mmu.PTE_PRESENT ≠ 0 ∧
        c.pteOf c.state.pageDirBase v &&& Mmu.PTE_PRESENT ≠ 0 ∧
        (c.translateAddress v).2 = c.fill v) := by
  rw [translateAddress_eq]
  split_ifs with off hit pde pte
  · exact .inl rfl
  · exact .inl rfl
  · exact .inl rfl
  · exact .inl rfl
  · exact .inr ⟨pde, pte, rfl⟩

theorem walkIn_of_page {dir u v : Word} (page : u >>> 12 = v >>> 12)
    (pde : c.pdeOf dir v &&& Mmu.PTE_PRESENT ≠ 0) (pte : c.pteOf dir v &&& Mmu.PTE_PRESENT ≠ 0) :
    c.walkIn dir u = (((c.pteOf dir v &&& Mmu.PTE_PFN_MASK) >>> 12) <<< 12) ||| (u &&& 0xFFF) := by
  have table : u >>> 22 = v >>> 22 := by
    have hu := BitVec.shiftRight_add u 12 10
    have hv := BitVec.shiftRight_add v 12 10
    rw [hu, hv, page]
  have samePde : c.pdeOf dir u = c.pdeOf dir v := by rw [pdeOf, pdeOf, table]
  have samePte : c.pteOf dir u = c.pteOf dir v := by rw [pteOf, pteOf, samePde, page]
  rw [walkIn, samePde, samePte, if_neg pde, if_neg pte]

theorem fill_coherent (h : c.Coherent) {v : Word}
    (pde : c.pdeOf c.state.pageDirBase v &&& Mmu.PTE_PRESENT ≠ 0)
    (pte : c.pteOf c.state.pageDirBase v &&& Mmu.PTE_PRESENT ≠ 0) : (c.fill v).Coherent := by
  intro u hit
  by_cases same : (u >>> 12).setWidth 6 = (v >>> 12).setWidth 6
  · have entry : (c.fill v).entryOf u = (c.fill v).entryOf v := by rw [entryOf, entryOf, same]
    have filled : (c.fill v).entryOf v =
        ⟨v >>> 12, (c.pteOf c.state.pageDirBase v &&& Mmu.PTE_PFN_MASK) >>> 12,
          c.pteOf c.state.pageDirBase v⟩ := update_self _ _ _
    have page : u >>> 12 = v >>> 12 := by
      have vpn := hit.1
      rw [entry, filled] at vpn
      exact vpn.symm
    rw [cached, entry, filled]
    exact (walkIn_of_page page pde pte).symm
  · have entry : (c.fill v).entryOf u = c.entryOf u := update_of_ne same _ _
    rw [Hits, entry] at hit
    rw [cached, entry]
    exact h u hit

theorem translateAddress_coherent (h : c.Coherent) (v : Word) :
    (c.translateAddress v).2.Coherent := by
  rcases translateAddress_snd c v with same | ⟨pde, pte, filled⟩
  · rw [same]
    exact h
  · rw [filled]
    exact fill_coherent h pde pte

theorem translateAddress_tlb (c : Cpu) (v : Word) : (c.translateAddress v).2.tlb =
      if c.state.mmuEnabled = 0 then c.tlb
      else if c.Hits v then c.tlb
      else if c.pdeOf c.state.pageDirBase v &&& Mmu.PTE_PRESENT = 0 then c.tlb
      else if c.pteOf c.state.pageDirBase v &&& Mmu.PTE_PRESENT = 0 then c.tlb
      else (c.fill v).tlb := by
  rw [translateAddress_eq]
  split_ifs <;> rfl

theorem translateAddress_pageDirBase (c : Cpu) (v : Word) :
    (c.translateAddress v).2.state.pageDirBase = c.state.pageDirBase := by
  rcases translateAddress_snd c v with same | ⟨-, -, filled⟩
  · rw [same]
  · rw [filled]
    rfl

theorem translateAddress_walkIn (c : Cpu) (v dir u : Word) :
    (c.translateAddress v).2.walkIn dir u = c.walkIn dir u := by
  rcases translateAddress_snd c v with same | ⟨-, -, filled⟩
  · rw [same]
  · rw [filled]
    rfl

/-! ## One call -/

/-- What a call may do to the TLB: nothing, empty it, or one translation
under the directory that stays current. -/
inductive TlbStep (c c' : Cpu) : Prop
  | kept (tlb : c'.tlb = c.tlb)
  | flushed (tlb : c'.tlb = c.flushTlb.tlb)
  | translated (v : Word) (tlb : c'.tlb = (c.translateAddress v).2.tlb)
      (dir : c'.state.pageDirBase = c.state.pageDirBase)

theorem TlbStep.of_pc {r r' : Cpu} {pc : Word} (h : TlbStep (c.withPc pc) r) (tlb : r'.tlb = r.tlb)
    (dir : r'.state.pageDirBase = r.state.pageDirBase) : TlbStep c r' := by
  cases h with
  | kept same => exact .kept (tlb.trans same)
  | flushed same => exact .flushed (tlb.trans same)
  | translated v same sameDir =>
    refine .translated v (tlb.trans (same.trans ?_)) (dir.trans sameDir)
    rw [translateAddress_tlb, translateAddress_tlb]
    rfl

/-- The part of the machine that decides who runs. -/
structure Desk where
  procTable : Byte → ProcSlot
  haltedMask : Word
  currentPid : Byte
  numProcesses : Byte

/-- What instructions leave alone unless they call the kernel. -/
structure Aside where
  desk : Desk
  suspendedMask : Word

/-- What they leave alone where they do not translate an address either. -/
structure Shelf extends Aside where
  tlb : BitVec 6 → TlbEntry

def desk (c : Cpu) : Desk := ⟨c.procTable, c.haltedMask, c.state.currentPid, c.state.numProcesses⟩

def aside (c : Cpu) : Aside := ⟨c.desk, c.suspendedMask⟩

def shelf (c : Cpu) : Shelf := ⟨c.aside, c.tlb⟩

theorem TlbStep.of_shelf {c c' : Cpu} (same : c'.shelf = c.shelf) : TlbStep c c' :=
  .kept (congrArg Shelf.tlb same)

@[simp] theorem setReg_shelf (c : Cpu) (r : Reg) (v : Word) : (c.setReg r v).shelf = c.shelf := rfl

@[simp] theorem withFlags_shelf (c : Cpu) (f : Byte) : (c.withFlags f).shelf = c.shelf := rfl

@[simp] theorem withPc_shelf (c : Cpu) (pc : Word) : (c.withPc pc).shelf = c.shelf := rfl

@[simp] theorem withRam_shelf (c : Cpu) (ram : Store Word) : (c.withRam ram).shelf = c.shelf := rfl

@[simp] theorem setResult_shelf (c : Cpu) (d : Reg) (v : Word) (carry : Bool) :
    (c.setResult d v carry).shelf = c.shelf := rfl

@[simp] theorem memWriteWord_shelf (c : Cpu) (a : Nat) (v : Word) :
    (c.memWriteWord a v).shelf = c.shelf := by
  unfold memWriteWord shelf aside desk
  split <;> rfl

@[simp] theorem memWriteByte_shelf (c : Cpu) (a : Nat) (v : Byte) :
    (c.memWriteByte a v).shelf = c.shelf := by
  unfold memWriteByte shelf aside desk
  split <;> rfl

@[simp] theorem memWriteHalf_shelf (c : Cpu) (a : Nat) (v : Half) :
    (c.memWriteHalf a v).shelf = c.shelf :=
  memWriteWord_shelf c _ _

theorem memWriteWord_pageDirBase (c : Cpu) (a : Nat) (v : Word) :
    (c.memWriteWord a v).state.pageDirBase = c.state.pageDirBase := by
  unfold memWriteWord
  split <;> rfl

theorem memWriteByte_pageDirBase (c : Cpu) (a : Nat) (v : Byte) :
    (c.memWriteByte a v).state.pageDirBase = c.state.pageDirBase := by
  unfold memWriteByte
  split <;> rfl

@[simp] theorem pushWord_shelf (c : Cpu) (v : Word) : (c.pushWord v).shelf = c.shelf := by
  unfold pushWord
  dsimp only
  split <;> rfl

@[simp] theorem branchIf_shelf (c : Cpu) (w : Word) (taken : Bool) :
    (c.branchIf w taken).shelf = c.shelf := by
  cases taken <;> rfl

@[simp] theorem unsuspendVforkParent_tlb (c : Cpu) : c.unsuspendVforkParent.tlb = c.tlb := by
  unfold unsuspendVforkParent
  split <;> rfl

@[simp] theorem schedulerContextSwitch_tlb (c : Cpu) : c.schedulerContextSwitch.tlb = c.tlb := by
  unfold schedulerContextSwitch
  dsimp only
  split
  next => rfl
  next =>
    split
    next => rfl
    next =>
      split <;> rfl

@[simp] theorem enterVector_shelf (c : Cpu) (vector : Byte) :
    (c.enterVector vector).shelf = c.shelf := rfl

@[simp] theorem dispatchInterrupt_shelf (c : Cpu) : c.dispatchInterrupt.shelf = c.shelf := by
  unfold dispatchInterrupt
  split <;> rfl

@[simp] theorem dispatchInterrupt_pageDirBase (c : Cpu) :
    c.dispatchInterrupt.state.pageDirBase = c.state.pageDirBase := by
  unfold dispatchInterrupt
  split <;> rfl

theorem sysExit_tlb (c : Cpu) : c.sysExit.cpu.tlb = c.tlb := by
  unfold sysExit
  dsimp only
  split
  next =>
    split <;> simp [cpu]
  next => simp [cpu]

theorem sysWaitpid_tlb (c : Cpu) : c.sysWaitpid.tlb = c.tlb := by
  unfold sysWaitpid
  dsimp only
  split_ifs
  all_goals first
    | rfl
    | exact schedulerContextSwitch_tlb c

theorem sysFork_tlb (c : Cpu) (vfork : Bool) : (c.sysFork vfork).tlb = c.tlb := by
  unfold sysFork
  split <;> rfl

theorem sysWrite_shelf (c : Cpu) : c.sysWrite.shelf = c.shelf := by
  unfold sysWrite
  dsimp only
  split <;> rfl

theorem sysBrk_shelf (c : Cpu) : c.sysBrk.shelf = c.shelf := by
  unfold sysBrk
  dsimp only
  split <;> rfl

theorem sysBlock_shelf (c : Cpu) (toDisk : Bool) : (c.sysBlock toDisk).shelf = c.shelf := by
  unfold sysBlock
  dsimp only
  split <;> rfl

theorem sysRead_shelf (c : Cpu) : c.sysRead.shelf = c.shelf := by
  unfold sysRead
  dsimp only
  split_ifs <;> rfl

theorem sysSignal_shelf (c : Cpu) : c.sysSignal.shelf = c.shelf := by
  unfold sysSignal
  dsimp only
  split <;> simp

theorem sysIoctl_shelf (c : Cpu) : c.sysIoctl.shelf = c.shelf := by
  unfold sysIoctl
  split <;> simp

theorem sysClockGettime_shelf (c : Cpu) : c.sysClockGettime.shelf = c.shelf := by
  simp [sysClockGettime]

theorem sysStat_shelf (c : Cpu) : c.sysStat.shelf = c.shelf := by
  simp [sysStat]

theorem sysPipe_shelf (c : Cpu) : c.sysPipe.shelf = c.shelf := by
  simp [sysPipe]

theorem tlbStep_ite {p : Prop} [Decidable p] {a b : ExecResult} (yes : TlbStep c a.cpu)
    (no : TlbStep c b.cpu) : TlbStep c (if p then a else b).cpu := by
  split
  next => exact yes
  next => exact no

theorem linuxSyscall_tlbStep (c : Cpu) : TlbStep c c.linuxSyscall.cpu := by
  unfold linuxSyscall
  repeat' with_reducible refine tlbStep_ite ?_ ?_
  all_goals first
    | exact .kept rfl
    | exact .flushed rfl
    | refine .kept ?_
  · exact sysExit_tlb c
  · exact congrArg Shelf.tlb (sysWrite_shelf c)
  · exact congrArg Shelf.tlb (sysBrk_shelf c)
  · exact congrArg Shelf.tlb (sysClockGettime_shelf c)
  · exact congrArg Shelf.tlb (sysBlock_shelf c false)
  · exact congrArg Shelf.tlb (sysBlock_shelf c true)
  · exact sysFork_tlb c false
  · exact sysFork_tlb c true
  · split
    next => exact schedulerContextSwitch_tlb c
    next => rfl
  · exact congrArg Shelf.tlb (sysRead_shelf c)
  · exact sysWaitpid_tlb c
  · simp [cpu, sysExecve]
  · exact congrArg Shelf.tlb (sysSignal_shelf c)
  · exact congrArg Shelf.tlb (sysStat_shelf c)
  · exact congrArg Shelf.tlb (sysIoctl_shelf c)
  · exact congrArg Shelf.tlb (sysPipe_shelf c)

theorem intInsn_tlbStep (c : Cpu) (imm : Word) : TlbStep c (c.intInsn imm).cpu := by
  unfold intInsn
  dsimp only
  split
  next => exact linuxSyscall_tlbStep c
  next => exact .kept rfl

theorem exchange_shelf (c : Cpu) (d s : Reg) (simm : Word) : (c.exchange d s simm).shelf = c.shelf := by
  simp [exchange]

theorem compareAndSwap_shelf (c : Cpu) : c.compareAndSwap.shelf = c.shelf := by
  unfold compareAndSwap
  dsimp only
  split <;> simp

theorem storeConditional_shelf (c : Cpu) (d s : Reg) (imm : Half) :
    (c.storeConditional d s imm).shelf = c.shelf := by
  unfold storeConditional
  dsimp only
  split
  next => exact memWriteWord_shelf c _ _
  next => rfl

theorem iret_shelf (c : Cpu) : c.iret.shelf = c.shelf := by
  unfold iret
  dsimp only
  split <;> split <;> rfl

theorem monadSyscall_shelf (c : Cpu) : c.monadSyscall.cpu.shelf = c.shelf := by
  unfold monadSyscall
  dsimp only
  split_ifs <;> rfl

theorem executeInsn_tlbStep (c : Cpu) (w : Word) : TlbStep c (c.executeInsn w).cpu := by
  unfold executeInsn
  split
  all_goals first
    | exact .kept rfl
    | exact .of_shelf (branchIf_shelf c w _)
    | exact .of_shelf (pushWord_shelf c _)
    | exact tlbStep_ite (.kept rfl) (.kept rfl)
    | skip
  case h_39 | h_41 | h_43 => exact .translated _ rfl (translateAddress_pageDirBase c _)
  case h_40 =>
      exact .translated _ (congrArg Shelf.tlb (memWriteWord_shelf _ _ _))
        ((memWriteWord_pageDirBase _ _ _).trans (translateAddress_pageDirBase c _))
  case h_42 =>
      exact .translated _ (congrArg Shelf.tlb (memWriteByte_shelf _ _ _))
        ((memWriteByte_pageDirBase _ _ _).trans (translateAddress_pageDirBase c _))
  case h_44 =>
      exact .translated _ (congrArg Shelf.tlb (memWriteHalf_shelf _ _ _))
        ((memWriteWord_pageDirBase _ _ _).trans (translateAddress_pageDirBase c _))
  case h_47 => exact .of_shelf (exchange_shelf c _ _ _)
  case h_48 => exact .of_shelf (compareAndSwap_shelf c)
  case h_53 => exact .of_shelf (storeConditional_shelf c _ _ _)
  case h_54 => exact .of_shelf (monadSyscall_shelf c)
  case h_55 => exact intInsn_tlbStep c _
  case h_56 => exact .of_shelf (iret_shelf c)

end Cpu

/-! ## Runs -/

/-- What can happen to the machine: an instruction, a context switch made by
the host, or an input the host sets. -/
inductive Event where
  | step
  | schedule
  | key (value : Word)
  | interrupt (vector : Byte)
  deriving DecidableEq

namespace Cpu

variable (c : Cpu)

/-- The machine after an event. -/
def after : Event → Cpu
  | .step => c.step.cpu
  | .schedule => c.schedulerContextSwitch
  | .key value => { c with kbd := value }
  | .interrupt vector =>
    { c with state := { c.state with interruptPending := 1, interruptVector := vector } }

def begun : Event → Cpu
  | .step => if c.state.halted ≠ 0 then c else c.dispatchInterrupt
  | _ => c

def KeepsTables (e : Event) : Prop :=
  TablesKept c (c.begun e) ∧ TablesKept (c.begun e) (c.after e)

def KeepsDirectory (e : Event) : Prop :=
  (c.after e).state.pageDirBase = c.state.pageDirBase ∨ c.NoEntries

instance (c : Cpu) (e : Event) : Decidable (c.KeepsDirectory e) :=
  inferInstanceAs (Decidable (_ ∨ _))

/-- The emulator as `Cpu::new` leaves it, with any program and memory. -/
def Reset : Prop := c.state = Cpu.new.state ∧ c.tlb = Cpu.new.tlb

@[simp] theorem begun_tlb (e : Event) : (c.begun e).tlb = c.tlb := by
  cases e with
  | step =>
    simp only [begun]
    split
    next => rfl
    next => exact congrArg Shelf.tlb (dispatchInterrupt_shelf c)
  | schedule => rfl
  | key value => rfl
  | interrupt vector => rfl

@[simp] theorem begun_pageDirBase (e : Event) :
    (c.begun e).state.pageDirBase = c.state.pageDirBase := by
  cases e with
  | step =>
    simp only [begun]
    split
    next => rfl
    next => exact dispatchInterrupt_pageDirBase c
  | schedule => rfl
  | key value => rfl
  | interrupt vector => rfl

theorem after_tlbStep (e : Event) : TlbStep (c.begun e) (c.after e) := by
  cases e with
  | schedule => exact .kept (schedulerContextSwitch_tlb c)
  | key value => exact .kept rfl
  | interrupt vector => exact .kept rfl
  | step =>
    simp only [begun, after, step]
    split
    next => exact .kept rfl
    next =>
      split
      next => exact .kept rfl
      next w fetched =>
        have executed := executeInsn_tlbStep
          (c.dispatchInterrupt.withPc (c.dispatchInterrupt.state.pc + 1)) w
        cases outcome : (c.dispatchInterrupt.withPc
            (c.dispatchInterrupt.state.pc + 1)).executeInsn w with
        | ok c' =>
          rw [outcome] at executed
          exact executed.of_pc rfl rfl
        | err error c' =>
          rw [outcome] at executed
          exact executed.of_pc rfl rfl

variable {c c' : Cpu} {e : Event}

theorem after_coherent (h : c.Coherent) (tables : c.KeepsTables e) (directory : c.KeepsDirectory e) :
    (c.after e).Coherent := by
  have begun := Coherent.of_tablesKept h (begun_tlb c e) (begun_pageDirBase c e) tables.1
  cases after_tlbStep c e with
  | flushed tlb => exact NoEntries.coherent (fun i => by rw [tlb]; exact flushTlb_noEntries _ i)
  | kept tlb =>
    rcases directory with same | none
    · exact begun.of_tablesKept tlb (same.trans (begun_pageDirBase c e).symm) tables.2
    · refine NoEntries.coherent (fun i => ?_)
      rw [tlb, begun_tlb]
      exact none i
  | translated v tlb dir =>
    refine (translateAddress_coherent begun v).of_tablesKept tlb
      (dir.trans (translateAddress_pageDirBase _ v).symm) (fun u hit => ?_)
    rw [translateAddress_pageDirBase, translateAddress_walkIn]
    exact tables.2 u hit

theorem Reset.coherent (h : c.Reset) : c.Coherent :=
  NoEntries.coherent (noEntries_of_tlb h.2)

/-- Memory as a walk reads it is the same. -/
structure SameMemory (c c' : Cpu) : Prop where
  ram : c'.ram = c.ram
  screen : c'.screen = c.screen
  kbd : c'.kbd = c.kbd

theorem SameMemory.memReadWord (h : SameMemory c c') (a : Nat) :
    c'.memReadWord a = c.memReadWord a := by
  unfold Cpu.memReadWord
  rw [h.ram, h.screen, h.kbd]

theorem SameMemory.tablesKept (h : SameMemory c c') : TablesKept c c' := by
  intro v _
  have pde : c'.pdeOf c.state.pageDirBase v = c.pdeOf c.state.pageDirBase v := h.memReadWord _
  have pte : c'.pteOf c.state.pageDirBase v = c.pteOf c.state.pageDirBase v := by
    rw [pteOf, pde]
    exact h.memReadWord _
  rw [walkIn, walkIn, pde, pte]

/-! ## Steps that store nothing -/

theorem schedulerContextSwitch_memory (c : Cpu) : SameMemory c c.schedulerContextSwitch := by
  unfold schedulerContextSwitch
  dsimp only
  split
  next => exact ⟨rfl, rfl, rfl⟩
  next =>
    split
    next => exact ⟨rfl, rfl, rfl⟩
    next =>
      split <;> exact ⟨rfl, rfl, rfl⟩

theorem sysFork_memory (c : Cpu) (vfork : Bool) : SameMemory c (c.sysFork vfork) := by
  unfold sysFork
  split <;> exact ⟨rfl, rfl, rfl⟩

theorem translateAddress_memory (c : Cpu) (v : Word) : SameMemory c (c.translateAddress v).2 := by
  rcases translateAddress_snd c v with same | ⟨-, -, filled⟩
  · rw [same]
    exact ⟨rfl, rfl, rfl⟩
  · rw [filled]
    exact ⟨rfl, rfl, rfl⟩

def managing : List Word :=
  [Lsys.SYS_FORK, Lsys.SYS_SCHED_YIELD, Lsys.SYS_SET_PAGE_DIR, Lsys.SYS_ENABLE_MMU,
    Lsys.SYS_FLUSH_TLB]

theorem linuxSyscall_memory (h : c.state.regs 0 ∈ managing) : SameMemory c c.linuxSyscall.cpu := by
  simp only [managing, List.mem_cons, List.not_mem_nil, or_false] at h
  have yielded : SameMemory c
      ((if 1 < c.state.numProcesses.toNat then c.schedulerContextSwitch else c).setReg 0 0) := by
    have switched := schedulerContextSwitch_memory c
    split
    next => exact ⟨switched.ram, switched.screen, switched.kbd⟩
    next => exact ⟨rfl, rfl, rfl⟩
  unfold linuxSyscall
  rcases h with nr | nr | nr | nr | nr <;> rw [nr] <;> cases c.fuzixPermissive
  · exact sysFork_memory c false
  · exact sysFork_memory c false
  · exact yielded
  · exact yielded
  all_goals exact ⟨rfl, rfl, rfl⟩

/-- An event known to store nothing: a move, a load or a call that manages
processes or translation. -/
def storesNothing (c : Cpu) (e : Event) : Bool := e == .step && c.state.interruptPending == 0 &&
    match c.rom[c.state.pc.toNat]? with
    | none => true
    | some w =>
      match opcode? w with
      | some .movi => true
      | some .ld => true
      | some .int => imm16 w == 0x80 && managing.contains (c.state.regs 0)
      | _ => false

theorem executeInsn_memory {w : Word}
    (h : (match opcode? w with
      | some .movi => true
      | some .ld => true
      | some .int => imm16 w == 0x80 && managing.contains (c.state.regs 0)
      | _ => false) = true) :
    SameMemory c (c.executeInsn w).cpu := by
  unfold executeInsn
  split at h
  next op =>
    rw [op]
    exact ⟨rfl, rfl, rfl⟩
  next op =>
    rw [op]
    have translated := translateAddress_memory c
      (c.state.regs (src w) + imm16Signed w)
    exact ⟨translated.ram, translated.screen, translated.kbd⟩
  next op =>
    rw [op]
    simp only [Bool.and_eq_true, beq_iff_eq, List.contains_iff_mem] at h
    rw [h.1]
    exact linuxSyscall_memory h.2
  next => exact absurd h Bool.false_ne_true

theorem dispatchInterrupt_of_none (h : c.state.interruptPending = 0) : c.dispatchInterrupt = c :=
  if_neg fun pending => pending.1 h

theorem after_memory (h : c.storesNothing e = true) : SameMemory c (c.after e) := by
  simp only [storesNothing, Bool.and_eq_true, beq_iff_eq] at h
  obtain ⟨⟨rfl, quiet⟩, fetched⟩ := h
  rw [after, step]
  split
  next => exact ⟨rfl, rfl, rfl⟩
  next =>
    rw [dispatchInterrupt_of_none quiet]
    dsimp only
    cases word : c.rom[c.state.pc.toNat]? with
    | none => exact ⟨rfl, rfl, rfl⟩
    | some w =>
      rw [word] at fetched
      have executed := @executeInsn_memory (c.withPc (c.state.pc + 1)) w fetched
      dsimp only
      cases outcome : (c.withPc (c.state.pc + 1)).executeInsn w with
      | ok c' =>
        rw [outcome] at executed
        exact ⟨executed.ram, executed.screen, executed.kbd⟩
      | err error c' =>
        rw [outcome] at executed
        exact ⟨executed.ram, executed.screen, executed.kbd⟩

theorem keepsTables_of_storesNothing (h : c.storesNothing e = true) : c.KeepsTables e := by
  have same := after_memory h
  simp only [storesNothing, Bool.and_eq_true, beq_iff_eq] at h
  obtain ⟨⟨rfl, quiet⟩, -⟩ := h
  have begun : c.begun .step = c := by
    rw [begun, dispatchInterrupt_of_none quiet, ite_self]
  rw [KeepsTables, begun]
  exact ⟨SameMemory.tablesKept ⟨rfl, rfl, rfl⟩, same.tablesKept⟩

/-- Switch to the directory at `0x1000`, turn translation on, load from
page 0 and fork. -/
def mapAndFork : List Word := [encode movi.toByte 0 0 250,
   encode movi.toByte 1 0 0x1000,
   encode int.toByte 0 0 0x80,
   encode movi.toByte 0 0 251,
   encode int.toByte 0 0 0x80,
   encode ld.toByte 4 5 0,
   encode movi.toByte 0 0 2,
   encode int.toByte 0 0 0x80]

def yieldInsns : List Word :=
  [encode movi.toByte 0 0 158, encode int.toByte 0 0 0x80]

def flushInsns : List Word :=
  [encode movi.toByte 0 0 252, encode int.toByte 0 0 0x80]

/-- A reset machine whose memory maps page 0 to frame 5 in the directory at
`0x1000`. -/
def mapped (rom : List Word) : Cpu :=
  (Cpu.new.loadRom rom).withRam (((Store.ofFn 0x300000 fun _ => 0).set 0x400 0x3800).set 0xC00 0x5800)

/-- In a run that changes the directory only while the TLB is empty, every
translation is the walk of the running process's own directory. -/
theorem translate_address_walks {c : Cpu} (reset : c.Reset) {events : List Event}
    (along : Along after (fun c e => c.KeepsTables e ∧ c.KeepsDirectory e) c events) (v : Word) :
    ((afterAll after c events).translateAddress v).1 = (afterAll after c events).walk v := by
  have coherent := along.invariant (fun c e h kept => after_coherent h kept.1 kept.2) reset.coherent
  exact translateAddress_eq_walk coherent v

/-- A parent that flushes before it yields. -/
theorem flushed_yield_walks :
    let c := afterAll after (mapped (mapAndFork ++ flushInsns ++ yieldInsns))
      (List.replicate 12 .step)
    c.state.currentPid = 1 ∧ (c.translateAddress 0).1 = c.walk 0 := by
  have reset : (mapped (mapAndFork ++ flushInsns ++ yieldInsns)).Reset := ⟨rfl, rfl⟩
  have along : Along after (fun c e => c.KeepsTables e ∧ c.KeepsDirectory e)
      (mapped (mapAndFork ++ flushInsns ++ yieldInsns)) (List.replicate 12 .step) := by
    refine @along_of_check _ _ _ _
      (fun c e => c.storesNothing e && decide (c.KeepsDirectory e)) ?_ _ _ (by decide +kernel)
    intro c e h
    simp only [Bool.and_eq_true, decide_eq_true_eq] at h
    exact ⟨keepsTables_of_storesNothing h.1, h.2⟩
  exact ⟨by decide +kernel, translate_address_walks reset along 0⟩

def Frozen (c : Cpu) (e : Event) : Prop := SameMemory c (c.after e)

/-- The child of a fork that is switched to still sees its parent's page. -/
theorem switch_keeps_stale_entry :
    ¬ ∀ (c : Cpu) (events : List Event), c.Reset → Along after Frozen c events →
      ∀ v, ((afterAll after c events).translateAddress v).1 = (afterAll after c events).walk v := by
  intro all
  have frozen : Along after Frozen (mapped (mapAndFork ++ yieldInsns)) (List.replicate 10 .step) :=
    along_of_check (fun c e => after_memory) (by decide +kernel)
  have wrong := all (mapped (mapAndFork ++ yieldInsns)) _ ⟨rfl, rfl⟩ frozen 0
  revert wrong
  decide +kernel

end Cpu

end Unheaded.Mbc
