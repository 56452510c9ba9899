import Unheaded.Mbc.BpfRun

/-!
# BPF interpreter: what an instruction keeps

The instructions outside the system arms work on the registers, the flags, the pc and the memory.
-/

namespace Unheaded.Mbc

open Lib MbcCpuState

/-- The fields that say which process runs, where, and in which mode. -/
structure Station where
  halted : Byte
  currentPid : Byte
  numProcesses : Byte
  mmuEnabled : Byte
  privLevel : Byte
  pageDirBase : Word
  programBreak : Word
  rv2mbcBase : Word

def MbcCpuState.station (s : MbcCpuState) : Station where
  halted := s.halted
  currentPid := s.currentPid
  numProcesses := s.numProcesses
  mmuEnabled := s.mmuEnabled
  privLevel := s.privLevel
  pageDirBase := s.pageDirBase
  programBreak := s.programBreak
  rv2mbcBase := s.rv2mbcBase

/-- The fields that say whose address space is in use, and whether at all. -/
structure Owner where
  halted : Byte
  currentPid : Byte
  numProcesses : Byte
  mmuEnabled : Byte
  pageDirBase : Word

def MbcCpuState.owner (s : MbcCpuState) : Owner where
  halted := s.halted
  currentPid := s.currentPid
  numProcesses := s.numProcesses
  mmuEnabled := s.mmuEnabled
  pageDirBase := s.pageDirBase

theorem MbcCpuState.owner_of_station {s t : MbcCpuState} (same : s.station = t.station) :
    s.owner = t.owner :=
  congrArg (fun x : Station => (⟨x.halted, x.currentPid, x.numProcesses, x.mmuEnabled,
    x.pageDirBase⟩ : Owner)) same

namespace Bpf

def station (b : Bpf) : Station := b.state.station

section Frame

variable (b : Bpf) (a v : Word)

@[simp] theorem station_setReg (r : Reg) : (b.setReg r v).station = b.station := rfl

@[simp] theorem station_withPc : (b.withPc v).station = b.station := rfl

@[simp] theorem station_memWriteWord : (b.memWriteWord a v).station = b.station :=
  congrArg MbcCpuState.station (state_memWriteWord b a v)

@[simp] theorem station_memWriteByte (y : Byte) : (b.memWriteByte a y).station = b.station :=
  congrArg MbcCpuState.station (state_memWriteByte b a y)

@[simp] theorem station_memWriteHalf (y : Half) : (b.memWriteHalf a y).station = b.station :=
  station_memWriteWord b _ _

@[simp] theorem station_record (vs : List Word) : (b.record a vs).station = b.station :=
  congrArg MbcCpuState.station (state_record b a vs)

@[simp] theorem station_tracePc : b.tracePc.station = b.station :=
  congrArg MbcCpuState.station (state_tracePc b)

@[simp] theorem state_translateAddress : (b.translateAddress a).2.state = b.state := by
  unfold translateAddress
  dsimp only
  repeat' split
  all_goals rfl

@[simp] theorem ram_translateAddress : (b.translateAddress a).2.ram = b.ram := by
  unfold translateAddress
  dsimp only
  repeat' split
  all_goals rfl

@[simp] theorem station_branchIf (taken : Bool) : (b.branchIf v taken).station = b.station := by
  cases taken <;> rfl

@[simp] theorem station_dispatchInterrupt : b.dispatchInterrupt.station = b.station := by
  unfold dispatchInterrupt
  dsimp only
  split
  · change (Bpf.memWriteWord _ _ _).station = b.station
    rw [station_memWriteWord, station_setReg, station_memWriteWord, station_setReg]
  · rfl

end Frame

end Bpf

end Unheaded.Mbc
