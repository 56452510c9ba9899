import Unheaded.Ascend.Lifecycle

/-!
# What the calls write for a user

`fstat`, `read` and `exec` stay in the slice of the caller. `wait` sends the status word through
the page table of the caller.
-/

namespace Unheaded.Ascend

open Lib Mbc Fdtable FsWalk Phase12
open BitVec (ofNat)

namespace Machine

theorem within_allows (P : Nat → Prop) : Allows (fun m m' => m.cpu.ram.Within P m'.cpu.ram) P where
  refl _ := .refl P _
  trans first second := first.trans second
  cpu _ _ ram := ram
  translate m va := by
    change m.cpu.ram.Within P (m.cpu.translateAddress va).2.ram
    rw [Bpf.ram_translateAddress]
    exact .refl P _
  halt _ := .refl P _
  kinds _ _ _ := .refl P _
  inodes _ _ _ := .refl P _
  keys _ _ := .refl P _

theorem sysFstat_within (m : Machine) :
    m.cpu.ram.Within (InSlice m.pid) m.sysFstat.machine.cpu.ram :=
  ((within_allows _).sysFstat fun _ inside => inside).machine

variable {m : Machine}

theorem sysFstat_refused (leaves : userPhys m.pid m.a1 16 = none) :
    m.sysFstat = m.answer FAILED := by
  rw [sysFstat, leaves]
  cases m.statOf <;> rfl

theorem sysRead_within (m : Machine) : m.cpu.ram.Within (InSlice m.pid) m.sysRead.machine.cpu.ram :=
  ((within_allows _).sysRead fun _ inside => inside).machine

def AtEnd (m : Machine) : Prop := ∃ db, m.cpu.dinodeBase (m.fdInode m.pid m.a0).inum = some db ∧
    m.cpu.ramWord (db + 2) ≤ (m.fdInode m.pid m.a0).offset

/-- The bytes that a call of `read` may write. -/
def readSpan (m : Machine) : Word :=
  if m.fdKind m.pid m.a0 = FD_INODE then READ_CHUNK else 1

theorem readInode_refused (leaves : userPhys m.pid m.a1 READ_CHUNK = none) :
    m.readInode = none ∨ m.AtEnd ∧ m.readInode = some (m, 0) := by
  unfold readInode
  dsimp only
  cases base : m.cpu.dinodeBase (m.fdInode m.pid m.a0).inum with
  | none => exact Or.inl rfl
  | some db =>
    rw [Option.bind_eq_bind, Option.bind_some]
    split
    · next ended => exact Or.inr ⟨⟨db, base, ended⟩, rfl⟩
    · split
      · exact Or.inl rfl
      · refine Or.inl ?_
        rw [leaves]
        cases wordOfBlock _ <;> rfl

theorem sysRead_refused (leaves : userPhys m.pid m.a1 m.readSpan = none) :
    m.sysRead = m.answer FAILED ∨ m.AtEnd ∧ m.sysRead = m.answer 0 ∨
      ¬ m.kbdTail < m.kbdHead ∧ m.sysRead = m.again := by
  unfold readSpan at leaves
  unfold sysRead
  dsimp only
  split
  · next inode =>
    rw [if_pos inode] at leaves
    rcases readInode_refused leaves with none | ⟨ended, zero⟩
    · rw [none]
      exact Or.inl rfl
    · rw [zero]
      exact Or.inr (Or.inl ⟨ended, rfl⟩)
  · next other =>
    rw [if_neg other] at leaves
    split
    · rw [readConsole, leaves]
      split
      · exact Or.inl rfl
      · next empty => exact Or.inr (Or.inr ⟨empty, rfl⟩)
    · exact Or.inl rfl

theorem sysExec_within (m : Machine) : m.cpu.ram.Within (fun i => InArgFrame m.pid i ∨
      ∃ row, m.execProgram = some row ∧ InProgramData m.pid row i) m.sysExec.machine.cpu.ram :=
  ((within_allows _).sysExec (fun _ frame => Or.inl frame)
    (fun row found _ data => Or.inr ⟨row, found, data⟩)).machine

theorem waited_ne {c : Nat} (found : m.waited = some c) : c ≠ m.pid.toNat ∧ c < MAX_PROCESSES := by
  rw [waited, waitScan_fst] at found
  have mem := List.mem_range.mp (List.mem_of_find?_eq_some found)
  have check := List.find?_some found
  rw [Bool.and_eq_true_iff, Bool.and_eq_true_iff, isChild_iff] at check
  exact ⟨check.1.1.1, Nat.lt_of_lt_of_le mem (Nat.min_le_right _ _)⟩

theorem sysWait_unfound (unfound : m.waited = none) : m.sysWait.machine.cpu.ram = m.cpu.ram := by
  unfold sysWait
  split
  · next scan =>
    rw [waited, scan] at unfound
    cases unfound
  · split <;> rfl

theorem sysWait_within {c : Nat} (found : m.waited = some c) (housed : Housed m.cpu)
    (mmu : m.cpu.state.mmuEnabled ≠ 0) (user : m.cpu.state.privLevel = 3)
    (inside : m.a0.toNat < 0x800000) :
    m.cpu.ram.Within (fun i => InSlice m.pid i ∨ i = pgdCell c) m.sysWait.machine.cpu.ram := by
  obtain ⟨other, counted⟩ := waited_ne found
  have freed : m.cpu.ram.Within (fun i => InSlice m.pid i ∨ i = pgdCell c)
      (freePgd m.cpu (ofNat 8 c)).ram := by
    rw [ram_freePgd m.cpu counted]
    exact (Store.Within.refl _ _).set (Or.inr rfl) _
  have state : (freePgd m.cpu (ofNat 8 c)).state = m.cpu.state :=
    Bpf.state_memWriteWord _ _ _
  have housed' := housed.freePgd counted other
  rw [sysWait_waited found]
  change m.cpu.ram.Within _ (writeStatus (freePgd m.cpu (ofNat 8 c))
    ((freePgd m.cpu (ofNat 8 c)).state.regs 8)).ram
  rw [state]
  generalize freePgd m.cpu (ofNat 8 c) = b at freed state housed' ⊢
  unfold writeStatus
  split
  · have address := (housed'.translate m.a0).1 (by rw [state]; exact mmu) (by rw [state]; exact user)
    have slice : InSlice m.pid ((b.translateAddress m.a0).1 >>> 2).toNat := by
      rw [address, inSlice_word, state]
      exact inSliceByte_physical.mpr (Or.inl inside)
    have target : InSlice m.pid ((b.translateAddress (m.cpu.state.regs 8)).1 >>> 2).toNat := slice
    rw [Bpf.ram_memWriteWord, Bpf.ram_translateAddress]
    exact freed.set (Or.inl target) _
  · exact freed

/-- The writes of the four calls stay in the caller's slice.  `fstat` and `read`
refuse a buffer that leaves it; `exec` writes a frame of the slice and the data
of its program; the status word of `wait` is in the slice of a user process
that points below the ceiling. -/
theorem calls_write_in_slice (m : Machine) :
    (m.cpu.ram.Within (InSlice m.pid) m.sysFstat.machine.cpu.ram ∧
      (userPhys m.pid m.a1 16 = none → m.sysFstat = m.answer FAILED)) ∧
    (m.cpu.ram.Within (InSlice m.pid) m.sysRead.machine.cpu.ram ∧
      (userPhys m.pid m.a1 m.readSpan = none → m.sysRead = m.answer FAILED ∨
        m.AtEnd ∧ m.sysRead = m.answer 0 ∨ ¬ m.kbdTail < m.kbdHead ∧ m.sysRead = m.again)) ∧
    (m.cpu.ram.Within (fun i => InArgFrame m.pid i ∨
        ∃ row, m.execProgram = some row ∧ InProgramData m.pid row i) m.sysExec.machine.cpu.ram ∧
      ∀ i, InArgFrame m.pid i → InSlice m.pid i) ∧
    ((m.waited = none → m.sysWait.machine.cpu.ram = m.cpu.ram) ∧
      ∀ c, m.waited = some c → Housed m.cpu → m.cpu.state.mmuEnabled ≠ 0 →
        m.cpu.state.privLevel = 3 → m.a0.toNat < 0x800000 →
        m.cpu.ram.Within (fun i => InSlice m.pid i ∨ i = pgdCell c) m.sysWait.machine.cpu.ram) :=
  ⟨⟨sysFstat_within m, sysFstat_refused⟩, ⟨sysRead_within m, sysRead_refused⟩,
    ⟨sysExec_within m, fun _ => InArgFrame.inSlice⟩, sysWait_unfound,
    fun _ found housed mmu user inside => sysWait_within found housed mmu user inside⟩

/-- Process 1 in user mode, with a program for the empty path, an exited child
in slot 2, an argument table above the ceiling and a status pointer into the
slice of the child. -/
def straying : Machine :=
  let booted := Machine.boot { Bpf.boot { MbcCpuState.default with
        privLevel := 3
        mmuEnabled := 1
        currentPid := 1
        numProcesses := 3
        pageDirBase := pgdBaseForPid 1
        regs := fun
          | 8 => 0x1800000
          | 9 => 0x800000
          | _ => 0 } 0 [] [] with
      ram := Store.ofFn RAM_MAP_WORDS fun
        | 0x3C0400 => leaf 1 0
        | 0x3C0401 => leaf 1 1
        | 0x600000 => 7
        | 0x580020 => 7
        | _ => 0
      ascendLinux := true }
  { booted with
    sched := { booted.sched with haltedMask := 4 }
    parentOf := booted.parentOf.set 2 1
    programTable := booted.programTable.set 0
      { (default : ProgramRow) with nameHash := FNV_OFFSET, valid := 1 } }

/-- `wait` writes the slice of the child and returns it; `exec` of a path in the
slice does not fail either, and ends the arguments. -/
theorem straying_pointers_written :
    ¬ InSlice straying.pid 0x600000 ∧ straying.cpu.ram.getD 0x600000 0 = 7 ∧
      straying.sysWait.machine.cpu.ram.getD 0x600000 0 = 0 ∧ straying.sysWait.machine.a0 = 3 ∧
      userPhys straying.pid straying.a1 4 = none ∧
      (straying.setReg 8 0).sysExec.machine.cpu.ram.getD 0x580020 0 ≠
        straying.cpu.ram.getD 0x580020 0 ∧ (straying.setReg 8 0).sysExec.machine.a0 ≠ FAILED := by
  decide +kernel

end Machine

end Unheaded.Ascend
