import Unheaded.Mbc.Bpf
import Unheaded.Mbc.Core

/-!
# The BPF interpreter follows the core machine

With the MMU off, no interrupt to dispatch and the tracer idle, a core step is
an iteration of the execute loop, except where the two engines differ: a
division by zero leaves the flags alone, `NEG` clears the carry, and the fetch
refuses a pc past the default ROM or a late return to pc 0.
-/

namespace Unheaded.Mbc

open Lib MbcInsn

/-- The words this engine executes like the core machine. -/
def Data.Portable (x : Data) (w : Word) : Prop :=
  match opcode? w with
  | some .div => x.regs (src w) ≠ 0 ∨ x.flags = Flag.C
  | some .neg => x.regs (dst w) = 0
  | _ => True

namespace Bpf

theorem bpfFlags_eq (result : Word) (carry : Bool) :
    bpfFlags result carry = resultFlags result carry := by
  rw [bpfFlags, sign_bit, resultFlags]

def data (b : Bpf) : Data := ⟨b.state.regs, b.state.flags, b.ram⟩

def core (b : Bpf) : Core := ⟨b.data, b.state.pc⟩

def withCore (b : Bpf) (k : Core) : Bpf := { b with
    ram := k.data.ram
    state := { b.state with regs := k.data.regs, flags := k.data.flags, pc := k.pc } }

theorem setResult_eq (b : Bpf) (d : Reg) (result : Word) (carry : Bool) :
    b.setResult d result carry = b.withCore { b.core with
        data := { b.data.setReg d result with flags := resultFlags result carry } } := by
  rw [setResult, bpfFlags_eq]
  rfl

variable {b b' : Bpf} {a v w : Word} {o : Opcode}

theorem executeInsn_alu {f : Byte} (op : opcode? w = some o) (portable : b.data.Portable w)
    (result : alu o (b.state.regs (dst w)) (b.state.regs (src w)) (imm16 w) b.state.flags = some (v, f)) :
    b.executeInsn w = .next (b.withCore { b.core with
      data := { b.data.setReg (dst w) v with flags := f } }) := by
  rw [Data.Portable, op] at portable
  rw [executeInsn, op]
  cases o with
  | div =>
    simp only [alu] at result ⊢
    split at result <;> cases result
    next zero =>
      rw [if_pos zero]
      obtain nonzero | carry := portable
      · exact absurd zero nonzero
      · rw [← carry]
        rfl
    next nonzero =>
      rw [if_neg nonzero, setResult_eq]
  | mod =>
    simp only [alu] at result ⊢
    split at result <;> cases result
    next zero =>
      rw [if_pos zero]
      rfl
    next nonzero =>
      rw [if_neg nonzero, setResult_eq]
  | neg =>
    have zero : b.state.regs (dst w) = 0 := portable
    have noBorrow : subBorrow 0 (b.state.regs (dst w)) = false := by
      rw [zero]
      rfl
    simp only [alu, noBorrow] at result
    cases result
    exact congrArg Iteration.next (setResult_eq b _ _ _)
  | nop | fence =>
    cases result
    simp [withCore, core, data, Data.setReg]
  | cmp =>
    cases result
    simp [withCore, core, data, Data.setReg, withFlags, bpfFlags_eq]
  | mov | movi | loadImm32 =>
    cases result
    rfl
  | add | sub | mul | and | or | xor | not | shl | shr | sar | shlr | shrr | sarr
  | mulh | mulhu | addi =>
    cases result
    exact congrArg Iteration.next (setResult_eq b _ _ _)
  | _ => cases result

/-- The core is now `k` and everything the loop relies on is as before. -/
structure Becomes (b : Bpf) (k : Core) (b' : Bpf) : Prop where
  core : b'.core = k
  setting : b'.setting = b.setting
  insnCount : b'.state.insnCount = b.state.insnCount

theorem becomes_withCore (b : Bpf) (k : Core) : b.Becomes k (b.withCore k) := ⟨rfl, rfl, rfl⟩

theorem load_becomes (mmu : b.state.mmuEnabled = 0) (d : Reg) (vaddr : Word)
    {extract : Word → Word → Word} (value : extract vaddr (b.data.word vaddr.toNat) = v) :
    b.Becomes { b.core with data := b.data.setReg d v } (b.load d vaddr extract) := by
  rw [load, translateAddress_flat mmu]
  dsimp only
  rw [← value]
  exact ⟨rfl, rfl, rfl⟩

theorem memWriteWord_becomes (b : Bpf) (a v : Word) :
    b.Becomes { b.core with data := b.data.putWord a.toNat v } (b.memWriteWord (a >>> 2) v) := by
  refine ⟨?_, by simp, by simp⟩
  rw [core, data, ram_memWriteWord, state_memWriteWord]
  rfl

theorem memReadWord_data (plain : PlainWord (a.toNat >>> 2)) :
    b.memReadWord (a >>> 2) = b.data.word a.toNat := by
  rw [memReadWord_plain (by rw [shiftRight_toNat_two]; exact plain)]
  rfl

theorem memWriteByte_becomes (plain : PlainWord (a.toNat >>> 2)) (v : Byte) :
    b.Becomes { b.core with data := b.data.putByte a.toNat v } (b.memWriteByte a v) := by
  refine ⟨?_, by simp, by simp⟩
  rw [core, data, ram_memWriteByte, state_memWriteByte, memReadWord_data plain, toNat_and_three]
  rfl

theorem memWriteHalf_becomes (plain : PlainWord (a.toNat >>> 2)) (v : Half) :
    b.Becomes { b.core with data := b.data.putHalf a.toNat v } (b.memWriteHalf a v) := by
  rw [memWriteHalf, memReadWord_data plain, toNat_and_two]
  exact memWriteWord_becomes b a _

theorem Becomes.countStore {k : Core} (becomes : b.Becomes k b') : b.Becomes k b'.countStore :=
  ⟨becomes.core, becomes.setting, becomes.insnCount⟩

theorem exchange_becomes {d s : Reg} {simm : Word}
    (plain : PlainWord ((b.state.regs s + simm).toNat >>> 2)) : b.Becomes { b.core with
      data := (b.data.putWord (b.state.regs s + simm).toNat (b.data.regs d)).setReg d
        (b.data.word (b.state.regs s + simm).toNat) } (b.exchange d s simm) := by
  have wrote := memWriteWord_becomes b (b.state.regs s + simm) (b.state.regs d)
  rw [exchange]
  rw [memReadWord_data plain]
  refine ⟨?_, wrote.setting, wrote.insnCount⟩
  have core := wrote.core
  injection core with data pc
  injection data with regs flags ram
  simp only [setReg] at *
  rw [flags, pc, ram, regs]
  rfl

theorem compareAndSwap_becomes (plain : PlainWord ((b.state.regs 1).toNat >>> 2)) :
    b.Becomes { b.core with data := b.data.access .cas w (b.state.regs 1).toNat }
      b.compareAndSwap := by
  have wrote := memWriteWord_becomes b (b.state.regs 1) (b.state.regs 2)
  rw [compareAndSwap, memReadWord_data plain]
  dsimp only [Data.access]
  by_cases same : b.data.word (b.state.regs 1).toNat = b.data.regs 0
  · have same' : b.data.word (b.state.regs 1).toNat = b.state.regs 0 := same
    rw [if_pos same, if_pos same']
    refine ⟨?_, wrote.setting, wrote.insnCount⟩
    have core := wrote.core
    injection core with data pc
    injection data with regs flags ram
    simp only [withFlags] at *
    rw [flags, pc, ram, regs]
    rfl
  · have same' : ¬ b.data.word (b.state.regs 1).toNat = b.state.regs 0 := same
    rw [if_neg same, if_neg same']
    exact ⟨rfl, rfl, rfl⟩

theorem executeInsn_access {a : Nat} (mmu : b.state.mmuEnabled = 0)
    (op : opcode? w = some o) (address : b.data.touched o w = some a)
    (plain : PlainWord (a >>> 2)) : ∃ b', b.executeInsn w = .next b' ∧
      b.Becomes { b.core with data := b.data.access o w a } b' := by
  rw [executeInsn, op]
  cases o with
  | ld =>
    cases address
    exact ⟨_, rfl, load_becomes mmu _ _ rfl⟩
  | ldb =>
    cases address
    refine ⟨_, rfl, load_becomes mmu _ _ ?_⟩
    rw [toNat_and_three, shift_and_byte]
    rfl
  | ldh =>
    cases address
    refine ⟨_, rfl, load_becomes mmu _ _ ?_⟩
    rw [toNat_and_two, shift_and_half]
    rfl
  | st =>
    cases address
    simp only [translateAddress_flat mmu]
    exact ⟨_, rfl, (memWriteWord_becomes b _ _).countStore⟩
  | stb =>
    cases address
    simp only [translateAddress_flat mmu]
    exact ⟨_, rfl, (memWriteByte_becomes plain _).countStore⟩
  | sth =>
    cases address
    simp only [translateAddress_flat mmu]
    exact ⟨_, rfl, (memWriteHalf_becomes plain _).countStore⟩
  | xchg =>
    cases address
    exact ⟨_, rfl, exchange_becomes plain⟩
  | cas =>
    cases address
    exact ⟨_, rfl, compareAndSwap_becomes plain⟩
  | _ => cases address

theorem executeInsn_branch {taken : Bool} (op : opcode? w = some o)
    (branch : branchTaken o b.state.flags = some taken) :
    b.executeInsn w = .next (b.branchIf w taken) := by
  rw [executeInsn, op]
  cases o <;> cases branch <;> rfl

theorem executeInsn_core {k : Core} (mmu : b.state.mmuEnabled = 0) (portable : b.data.Portable w)
    (follows : b.core.exec w = some k) : ∃ b', b.executeInsn w = .next b' ∧ b.Becomes k b' := by
  obtain ⟨x, straight, rfl⟩ | ⟨o, taken, op, branch, rfl⟩ := Core.exec_cases follows
  · obtain ⟨unknown, rfl⟩ | ⟨o, v, f, op, result, rfl⟩ | ⟨o, a, op, address, plain, rfl⟩ :=
      Data.exec_cases straight
    · rw [executeInsn, unknown]
      exact ⟨b, rfl, becomes_withCore b b.core⟩
    · exact ⟨_, executeInsn_alu op portable result, becomes_withCore b _⟩
    · exact executeInsn_access mmu op address plain
  · refine ⟨_, executeInsn_branch op branch, ?_⟩
    cases taken <;> exact ⟨rfl, rfl, rfl⟩

/-- Running, untranslated, undisturbed and untraced. -/
structure Quiet (b : Bpf) : Prop where
  halted : b.state.halted = 0
  mmu : b.state.mmuEnabled = 0
  interrupts : b.state.interruptPending = 0
  tracer : b.traceLeft = 0

theorem Quiet.dispatchInterrupt (quiet : b.Quiet) : b.dispatchInterrupt = b :=
  if_neg (fun both => both.1 quiet.interrupts)

theorem Quiet.tracePc (quiet : b.Quiet) : b.tracePc = b := by
  rw [Bpf.tracePc, quiet.tracer]
  rfl

theorem iterate_of_executeInsn (quiet : b.Quiet) (fetched : b.fetch = some w)
    (executed : (b.withPc (b.state.pc + 1)).executeInsn w = .next b') :
    b.iterate = .next b'.countInsn := by
  rw [iterate, if_neg (not_not.mpr quiet.halted), quiet.dispatchInterrupt, quiet.tracePc]
  dsimp only
  rw [fetched]
  dsimp only
  rw [executed]

theorem executeInsn_of_iterate (quiet : b.Quiet) (iterated : b.iterate = .next b') :
    ∃ w b'', b.fetch = some w ∧ (b.withPc (b.state.pc + 1)).executeInsn w = .next b'' ∧
      b' = b''.countInsn := by
  rw [iterate, if_neg (not_not.mpr quiet.halted), quiet.dispatchInterrupt,
    quiet.tracePc] at iterated
  dsimp only at iterated
  cases fetched : b.fetch with
  | none =>
    simp [fetched] at iterated
  | some w =>
    rw [fetched] at iterated
    dsimp only at iterated
    cases executed : (b.withPc (b.state.pc + 1)).executeInsn w with
    | next b'' =>
      rw [executed] at iterated
      cases iterated
      exact ⟨w, b'', rfl, executed, rfl⟩
    | stop b'' =>
      rw [executed] at iterated
      cases iterated
    | system b'' =>
      rw [executed] at iterated
      cases iterated

theorem fetch_eq_some (fetched : b.fetch = some w) : b.state.pc.toNat < ROM_MAP_WORDS_DEFAULT ∧
      ¬ (b.state.pc = 0 ∧ RESTART_INSNS < b.state.insnCount.toNat) ∧
      b.rom.get? b.state.pc.toNat = some w := by
  rw [fetch] at fetched
  split at fetched
  next => cases fetched
  next inRom =>
    split at fetched
    next => cases fetched
    next noRestart => exact ⟨Nat.not_le.mp inRom, noRestart, fetched⟩

end Bpf

end Unheaded.Mbc
