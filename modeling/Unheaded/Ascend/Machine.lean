import Unheaded.Lib.ByteStore
import Unheaded.Mbc.Bpf
import Unheaded.Mbc.Core
import Unheaded.Mbc.HostSyscall

/-!
# The ascend build: machine

The `ascend-linux` build of `try_monad_cpu` runs xv6.
-/

namespace Unheaded.Ascend

open Lib Mbc BitVec

/-- A row of `PROC_TABLE`. -/
structure ProcRow where
  regs : Reg → Word
  pc : Word
  flags : Word
  spCopy : Word
  programBreak : Word
  pageDirBase : Word
  rv2mbcBase : Word

instance : Inhabited ProcRow := ⟨⟨fun _ => 0, 0, 0, 0, 0, 0, 0⟩⟩

/-- `SCHED_STATE`.  A halted slot has exited, a reaped one has been waited for. -/
structure Sched where
  currentPid : Word
  numProcesses : Word
  suspendedMask : Word
  haltedMask : Word
  reapedMask : Word

/-- An entry `[inum, offset]` of `FD_INODE_MAP`. -/
structure FdInode where
  inum : Word
  offset : Word
  deriving DecidableEq

instance : Inhabited FdInode := ⟨⟨0, 0⟩⟩

/-- A row of `PROGRAM_TABLE`. -/
structure ProgramRow where
  nameHash : Word
  entryMbc : Word
  rv2mbcBase : Word
  dataDstVa : Word
  dataSrcVa : Word
  dataLenWords : Word
  valid : Word

instance : Inhabited ProgramRow := ⟨⟨0, 0, 0, 0, 0, 0, 0⟩⟩

/-- The interpreter with the maps of the ascend build. -/
structure Machine where
  cpu : Bpf
  procTable : Store ProcRow
  sched : Sched
  parentOf : Store Word
  fdTable : Store Word
  fdInodeMap : Store FdInode
  programTable : Store ProgramRow
  kbdMap : Store Word
  kbdHead : Word
  kbdTail : Word

namespace Fdtable

def NOFILE : Nat := 16
def FD_TABLE_LEN : Nat := NOFILE * MAX_PROCESSES
def FD_FREE : Word := 0
def FD_CONSOLE : Word := 1
def FD_INODE : Word := 2

end Fdtable

namespace Phase12

def PER_PID_PGD_BASE : Word := 0x00F00000
def PGD_SIZE_BYTES : Word := 4096
def USER_SLICE_BYTES : Word := 0x00600000
def FORK_COPY_LOW_BYTES : Word := 0x00040000
def FORK_COPY_STACK_BYTES : Word := 0x00010000
def USER_CHILD_SLICE : Word := 0x01000000
def SLICE_STRIDE : Word := 0x00800000
def RAM_ISOLATION_CEILING : Word := 0x03800000
def UPC_SLOT_TABLES_BP_BYTE : Word := 0x160
def UPC_SLOTS : Word := 8
def UPC_TF_STRIDE : Word := 0x100
def UPC_ST_CUR_SLOT_OFF : Word := 0x800
def UPC_ST_TRAP_A7_OFF : Word := 0x804
def UPC_ST_FRESH_MASK_OFF : Word := 0x808
def UPC_ST_TICKS_OFF : Word := 0x80C
def UPC_ST_BRK_IN_OFF : Word := 0x810
def UPC_ST_REPLY_OFF : Word := 0x814
def UPC_ST_REPLY_ARG_OFF : Word := 0x818
def UPC_ST_CWD_MASK_OFF : Word := 0x81C
def UPC_TAG_SLOT : Word := 0x51070000
def UPC_TAG_A7 : Word := 0xA7000000
def UPC_TAG_REPLY : Word := 0x52500000
def UPC_TAG_MASK : Word := 0xFFFF0000
def UPC_REPLY_SET_BRK : Word := 1
def UPC_REPLY_YIELD : Word := 2
def UPC_REPLY_KILL : Word := 4
def UPC_REPLY_EXIT : Word := 8

def pgdBaseForPid (pid : Byte) : Word := PER_PID_PGD_BASE + pid.setWidth 32 * PGD_SIZE_BYTES

/-- `pid_phys_offset`: slot 0 keeps its addresses, every child has a slice of
its own. -/
def pidPhysOffset (pid : Byte) : Word :=
  if pid = 0 then 0 else USER_CHILD_SLICE + (pid.setWidth 32 - 1) * SLICE_STRIDE

end Phase12

def USER_VA_CEILING : Word := 0x00800000

/-- `user_phys`: the physical address of a user buffer of `len` bytes, unless
it wraps or leaves the slice. -/
def userPhys (pid : Byte) (va len : Word) : Option Word :=
  if 2 ^ 32 ≤ va.toNat + len.toNat then none
  else if USER_VA_CEILING < va + len then none
  else some (Phase12.pidPhysOffset pid + va)

def sliceBase (pid : Nat) : Nat := if pid = 0 then 0 else 0x1000000 + (pid - 1) * 0x800000

theorem toNat_pidPhysOffset (pid : Byte) : (Phase12.pidPhysOffset pid).toNat = sliceBase pid.toNat := by
  unfold Phase12.pidPhysOffset sliceBase
  by_cases zero : pid = 0
  · subst zero
    rfl
  · have pos : pid.toNat ≠ 0 := by
      intro equal
      exact zero (eq_of_toNat_eq equal)
    have start : (Phase12.USER_CHILD_SLICE).toNat = 0x1000000 := rfl
    have stride : (Phase12.SLICE_STRIDE).toNat = 0x800000 := rfl
    have index : (pid.setWidth 32 - 1 : Word).toNat = pid.toNat - 1 := by
      have one : (1 : Word).toNat = 1 := rfl
      rw [toNat_sub, toNat_setWidth]
      omega
    rw [if_neg zero, if_neg pos, toNat_add, toNat_mul, index, stride]
    omega

theorem sliceBase_apart {p q : Nat} (other : p ≠ q) :
    sliceBase p + 0x800000 ≤ sliceBase q ∨ sliceBase q + 0x800000 ≤ sliceBase p := by
  unfold sliceBase
  split <;> split <;> omega

theorem sliceBase_lt (pid : Byte) : sliceBase pid.toNat + 0x800000 < 2 ^ 32 := by
  unfold sliceBase
  split <;> omega

theorem userPhys_eq_some {pid : Byte} {va len phys : Word} : userPhys pid va len = some phys ↔
      va.toNat + len.toNat ≤ 0x800000 ∧ phys = Phase12.pidPhysOffset pid + va := by
  have ceiling : USER_VA_CEILING < va + len ↔ 0x800000 < (va.toNat + len.toNat) % 2 ^ 32 := by
    rfl
  unfold userPhys
  constructor
  · intro found
    split at found
    · cases found
    · split at found <;> cases found
      rename_i wraps leaves
      rw [ceiling] at leaves
      exact ⟨by omega, rfl⟩
  · rintro ⟨fits, rfl⟩
    rw [if_neg (by omega), if_neg (by rw [ceiling]; omega)]

theorem toNat_pidPhysOffset_add {pid : Byte} {va : Word} (inside : va.toNat ≤ 0x800000) :
    (Phase12.pidPhysOffset pid + va).toNat = sliceBase pid.toNat + va.toNat := by
  have bound := sliceBase_lt pid
  rw [toNat_add, toNat_pidPhysOffset]
  omega

/-- The number of entries of `RAM_MAP` and of `PROGRAM_TABLE`. -/
def RAM_MAP_WORDS : Nat := 0x1000000
def PROGRAM_SLOTS : Nat := 16

end Unheaded.Ascend

namespace Unheaded.Mbc.Bpf

open Lib

variable (b : Bpf)

/-- `ram_byte`: no keyboard and no screen is seen. -/
def ramByte (byteAddr : Word) : Byte :=
  ((b.ramWord (byteAddr >>> 2) >>> ((byteAddr &&& 3).toNat * 8)) &&& 0xFF).setWidth 8

/-- `mem_read_byte`: a byte of the screen is a pixel. -/
def memReadByte (byteAddr : Word) : Byte :=
  if Mmap.SCREEN_BASE ≤ byteAddr.toNat ∧ byteAddr.toNat < Mmap.SCREEN_BASE + Mmap.SCREEN_SIZE then
    b.screen.getD (byteAddr.toNat - Mmap.SCREEN_BASE) 0
  else
    ((b.memReadWord (byteAddr >>> 2) >>> ((byteAddr &&& 3).toNat * 8)) &&& 0xFF).setWidth 8

def ramWriteWord (wordAddr value : Word) : Bpf :=
  b.withRam (b.ram.set wordAddr.toNat value)

def ramWriteByte (byteAddr : Word) (value : Byte) : Bpf :=
  b.withRam (b.ram.set (byteAddr >>> 2).toNat
    (insertField (b.ramWord (byteAddr >>> 2)) 0xFF (value.setWidth 32)
      ((byteAddr &&& 3).toNat * 8)))

theorem ramByte_eq (a : Word) : b.ramByte a = b.ram.byteAt a.toNat := by
  have low : (a &&& 3).toNat = a.toNat % 4 := toNat_and_three a
  have word : (a >>> 2).toNat = a.toNat / 4 := by
    rw [BitVec.toNat_ushiftRight, Nat.shiftRight_eq_div_pow]
  rw [ramByte, low, shift_mask_byte, ramWord, word, Store.byteAt]

theorem ram_ramWriteByte (a : Word) (v : Byte) :
    (b.ramWriteByte a v).ram = b.ram.putByteAt a.toNat v := by
  have low : (a &&& 3).toNat = a.toNat % 4 := toNat_and_three a
  have word : (a >>> 2).toNat = a.toNat / 4 := by
    rw [BitVec.toNat_ushiftRight, Nat.shiftRight_eq_div_pow]
  rw [ramWriteByte, withRam, low, ramWord, word, Store.putByteAt]

section Frame

variable (b : Bpf) (a v : Word)

@[simp] theorem rv2mbc_memWriteWord : (b.memWriteWord a v).rv2mbc = b.rv2mbc :=
  congrArg Setting.rv2mbc (setting_memWriteWord b a v)

@[simp] theorem ascendLinux_memWriteWord : (b.memWriteWord a v).ascendLinux = b.ascendLinux :=
  congrArg Setting.ascendLinux (setting_memWriteWord b a v)

@[simp] theorem kbd_memWriteWord : (b.memWriteWord a v).kbd = b.kbd := by
  unfold memWriteWord
  split <;> rfl

end Frame

end Unheaded.Mbc.Bpf

namespace Unheaded.Ascend

open Lib Mbc

/-- `switch_req`: what the code after the loop is asked to switch for. -/
inductive SwitchReq where
  | none
  | yield
  | exit
  deriving DecidableEq

/-- What an arm leaves for the code after the loop. -/
structure Requests where
  switch : SwitchReq := .none
  reply : Bool := false
  exitSlot : Option Word := none
  deriving DecidableEq

/-- The end of an arm: the loop goes on, or it is left. -/
inductive Arm where
  | next (m : Machine)
  | leave (m : Machine) (req : Requests)

def Arm.machine : Arm → Machine
  | .next m => m
  | .leave m _ => m

namespace Machine

/-- A machine at boot: one process and zeroed maps. -/
def boot (b : Bpf) : Machine where
  cpu := b
  procTable := Store.ofFn MAX_PROCESSES (fun _ => default)
  sched := ⟨0, 1, 0, 0, 0⟩
  parentOf := Store.ofFn MAX_PROCESSES (fun _ => 0)
  fdTable := Store.ofFn Fdtable.FD_TABLE_LEN (fun _ => 0)
  fdInodeMap := Store.ofFn Fdtable.FD_TABLE_LEN (fun _ => default)
  programTable := Store.ofFn PROGRAM_SLOTS (fun _ => default)
  kbdMap := Store.ofFn 64 (fun _ => 0)
  kbdHead := 0
  kbdTail := 0

variable (m : Machine)

def withCpu (b : Bpf) : Machine := { m with cpu := b }

def pid : Byte := m.cpu.state.currentPid

def a0 : Word := m.cpu.state.regs 8
def a1 : Word := m.cpu.state.regs 9
def a2 : Word := m.cpu.state.regs 10
def a3 : Word := m.cpu.state.regs 11
def a7 : Word := m.cpu.state.regs 1

def setReg (r : Reg) (v : Word) : Machine := m.withCpu (m.cpu.setReg r v)

def withPc (pc : Word) : Machine := m.withCpu (m.cpu.withPc pc)

/-- `-1` as a register holds it. -/
def FAILED : Word := 0xFFFFFFFF

/-- The call returns `v` in a0. -/
def answer (v : Word) : Arm := .next (m.setReg 8 v)

def again : Arm := .leave (m.withPc (m.cpu.state.pc - 1)) {}

end Machine

end Unheaded.Ascend
