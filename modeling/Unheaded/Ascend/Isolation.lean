import Unheaded.Ascend.Shelter
import Unheaded.Lib.Schedules

/-!
# Isolation of user processes

A load or store of a child goes through its page directory, which maps the first 8 MiB onto its
slice and lets every other address through unchanged.
-/

namespace Unheaded.Ascend

open Lib Mbc Phase12 Machine
open BitVec (ofNat)

def Reaches (pid : Byte) : Access → Prop
  | .virtual va => va.toNat < 0x800000 ∨ InSliceByte pid va.toNat
  | .flat addr => InSliceByte pid addr.toNat

namespace Machine

/-- An instruction keeps to its process: its data are in the slice, and it
changes no word of another child. -/
structure Isolated (m : Machine) (w : Word) : Prop where
  data : ∀ a ∈ m.cpu.accesses w, InSlice m.pid (a.word m.cpu).toNat
  others : MbcInsn.opcode? w ≠ some .syscall → ∀ q, q ≠ 0 → q ≠ m.pid → ∀ i, InSlice q i →
    (m.execute w).machine.cpu.ram.getD i 0 = m.cpu.ram.getD i 0

end Machine

/-- What `try_monad_cpu` does in turn: a tick is counted, one iteration of the
loop, the code after the loop. -/
inductive Turn where
  | wake
  | iterate
  | settle
  deriving DecidableEq

def Arm.left : Arm → Option Requests
  | .next _ => none
  | .leave _ req => some req

/-- The machine, with what the arm that left the loop asks for. -/
structure Stage where
  machine : Machine
  left : Option Requests

namespace Stage

def step (s : Stage) : Turn → Option Stage
  | .wake => if s.left = none then some ⟨s.machine.wake, none⟩ else none
  | .iterate =>
    if s.left = none ∧ s.machine.cpu.state.halted = 0 then
      some ⟨s.machine.iterate.machine, s.machine.iterate.left⟩
    else none
  | .settle => some ⟨s.machine.afterLoop (s.left.getD {}), none⟩

/-- The stores of a turn miss the page directories, but for those that `fork`
and `wait` make to build and to free one. -/
def Orderly (s : Stage) : Turn → Prop
  | .wake => True
  | .iterate => s.machine.IterationKeeps Outside
  | .settle => (s.left.getD {}).reply = true → TablesIn Outside s.machine.cpu

/-- The processes are sheltered, and no exit is asked for by an arm. -/
structure Safe (s : Stage) : Prop where
  sheltered : s.machine.Sheltered
  mild : Mild (s.left.getD {})

theorem Safe.step {s s' : Stage} {turn : Turn} (safe : s.Safe) (orderly : s.Orderly turn)
    (moved : s.step turn = some s') : s'.Safe := by
  cases turn with
  | wake =>
    simp only [Stage.step] at moved
    split at moved <;> cases moved
    exact ⟨safe.sheltered.lodges (lodges_allows.state rfl rfl rfl), mild_default⟩
  | iterate =>
    simp only [Stage.step] at moved
    split at moved
    · next ready =>
      cases moved
      have running : s.machine.slots.stopped = false := bne_eq_false_iff_eq.mpr ready.2
      have steps := iterate_steps safe.sheltered.slotted running
      refine ⟨iterate_sheltered safe.sheltered ready.2 orderly, ?_⟩
      cases arm : s.machine.iterate with
      | next m => exact mild_default
      | leave m req => exact steps.mild m req arm
    · cases moved
  | settle =>
    cases moved
    exact ⟨afterLoop_sheltered safe.sheltered safe.mild orderly, mild_default⟩

end Stage

theorem loop_turns (n : Nat) (m : Machine) :
    ∃ turns left, runAll Stage.step ⟨m, none⟩ turns = some ⟨(loop n m).1, left⟩ ∧
      left.getD {} = (loop n m).2 := by
  induction n generalizing m with
  | zero => exact ⟨[], none, rfl, rfl⟩
  | succ n ih =>
    rw [loop]
    by_cases halted : m.cpu.state.halted ≠ 0
    · rw [if_pos halted]
      exact ⟨[], none, rfl, rfl⟩
    · rw [if_neg halted]
      have stepped : Stage.step ⟨m, none⟩ .iterate = some ⟨m.iterate.machine, m.iterate.left⟩ :=
        if_pos ⟨rfl, not_not.mp halted⟩
      cases arm : m.iterate with
      | next m' =>
        rw [arm] at stepped
        obtain ⟨turns, left, run, asked⟩ := ih m'
        refine ⟨.iterate :: turns, left, ?_, asked⟩
        rw [runAll, stepped]
        exact run
      | leave m' req =>
        rw [arm] at stepped
        refine ⟨[.iterate], some req, ?_, rfl⟩
        rw [runAll, stepped]
        rfl

theorem tick_turns (m : Machine) (now : BitVec 64) :
    ∃ turns, runAll Stage.step ⟨m, none⟩ turns = some ⟨m.tick now, none⟩ := by
  by_cases awake : m.Awake now
  · obtain ⟨turns, left, run, asked⟩ := loop_turns MAX_INSN_PER_TICK m.wake
    refine ⟨.wake :: turns ++ [Turn.settle], ?_⟩
    rw [tick_awake awake, ← asked, runAll_append]
    have woken : runAll Stage.step ⟨m, none⟩ (.wake :: turns) =
        some ⟨(loop MAX_INSN_PER_TICK m.wake).1, left⟩ := run
    rw [woken]
    rfl
  · exact ⟨[], by rw [tick_asleep awake]; rfl⟩

/-- A child that starts with a store to `address`. -/
def storing (pid : Byte) (address : Word) : ProcRow := { (default : ProcRow) with
    regs := fun
      | 2 => address
      | 3 => 9
      | _ => 0
    pc := 1
    pageDirBase := pgdBaseForPid pid }

/-- Slot 0 in user mode, about to yield, before its directory is built. -/
def unmapped : Bpf := { Bpf.boot { MbcCpuState.default with
      privLevel := 3
      mmuEnabled := 1
      numProcesses := 3
      pageDirBase := PER_PID_PGD_BASE
      regs := fun
        | 1 => 23
        | _ => 0 } RAM_MAP_WORDS
      [MbcInsn.encode Opcode.syscall.toByte 0 0 0, MbcInsn.encode Opcode.st.toByte 2 3 0] [] with
    ascendLinux := true }

def yielding : Bpf := unmapped.withRam (populateIdentityPgd unmapped.ram 16)

variable (address : Word)

/-- Slot 0 with two children that have not run. -/
def crowded : Machine :=
  { Machine.boot (buildPgd (buildPgd yielding (ofNat 8 1)) (ofNat 8 2)) with
    sched := ⟨0, 3, 0, 0, 0⟩
    procTable := ((Store.ofFn MAX_PROCESSES fun _ => default).set 1 (storing 1 address)).set 2
      (storing 2 address) }

def yielded : Machine :=
  (crowded address).iterate.machine.afterLoop ((crowded address).iterate.left.getD {})

end Unheaded.Ascend
