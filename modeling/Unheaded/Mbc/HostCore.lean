import Unheaded.Mbc.Core
import Unheaded.Mbc.Host

/-!
# The host emulator follows the core machine

With the MMU off and no interrupt to dispatch, a core step is a host step that
changes nothing else but the instruction count.
-/

namespace Unheaded.Mbc

open Lib MbcInsn ExecResult

theorem hostFlags_eq (result : Word) (carry : Bool) :
    hostFlags result carry = resultFlags result carry := by
  rw [hostFlags, resultFlags, BitVec.msb_eq_toInt]

namespace Cpu

variable (c : Cpu)

def data : Data := ⟨c.state.regs, c.state.flags, c.ram⟩

def core : Core := ⟨c.data, c.state.pc⟩

def withCore (k : Core) : Cpu := { c with
    ram := k.data.ram
    state := { c.state with regs := k.data.regs, flags := k.data.flags, pc := k.pc } }

@[simp] theorem core_withCore (k : Core) : (c.withCore k).core = k := rfl

/-- Running, untranslated and undisturbed. -/
structure Quiet (c : Cpu) : Prop where
  halted : c.state.halted = 0
  mmu : c.state.mmuEnabled = 0
  interrupts : ¬ (c.state.interruptPending ≠ 0 ∧ c.state.interruptsEnabled ≠ 0)

theorem setResult_eq (d : Reg) (result : Word) (carry : Bool) :
    c.setResult d result carry = c.withCore { c.core with
        data := { c.data.setReg d result with flags := resultFlags result carry } } := by
  rw [setResult, hostFlags_eq]
  rfl

variable {c c' : Cpu} {w : Word} {o : Opcode}

theorem executeInsn_alu {v : Word} {f : Byte} (op : opcode? w = some o)
    (result : alu o (c.state.regs (dst w)) (c.state.regs (src w)) (imm16 w) c.state.flags = some (v, f)) :
    c.executeInsn w = .ok (c.withCore { c.core with
      data := { c.data.setReg (dst w) v with flags := f } }) := by
  rw [executeInsn, op]
  cases o with
  | div =>
    simp only [alu] at result ⊢
    split at result <;> cases result
    next zero =>
      rw [if_pos zero]
      rfl
    next nonzero =>
      rw [if_neg nonzero, setResult_eq]
  | mod =>
    simp only [alu] at result ⊢
    split at result <;> cases result
    next zero =>
      rw [if_pos zero]
      rfl
    next nonzero =>
      rw [if_neg nonzero, setResult_eq]
  | nop | fence =>
    cases result
    simp [withCore, core, data, Data.setReg]
  | cmp =>
    cases result
    simp [withCore, core, data, Data.setReg, withFlags, hostFlags_eq]
  | mov | movi | loadImm32 =>
    cases result
    rfl
  | add | sub | mul | neg | and | or | xor | not | shl | shr | sar | shlr | shrr | sarr
  | mulh | mulhu | addi =>
    cases result
    exact congrArg ok (setResult_eq c _ _ _)
  | _ => cases result

variable {a : Nat}

section

variable (plain : PlainWord (a >>> 2))
include plain

theorem memReadByte_data : c.memReadByte a = c.data.byte a := by
  rw [c.memReadByte_plain plain, and_three, shift_mask_byte]
  rfl

theorem memReadHalf_data : c.memReadHalf a = c.data.half a := by
  rw [c.memReadHalf_plain plain, and_two, shift_mask_half]
  rfl

theorem memWriteByte_data (v : Byte) :
    c.memWriteByte a v = c.withCore { c.core with data := c.data.putByte a v } := by
  rw [c.memWriteByte_plain plain, and_three]
  rfl

theorem memWriteHalf_data (v : Half) :
    c.memWriteHalf a v = c.withCore { c.core with data := c.data.putHalf a v } := by
  rw [c.memWriteHalf_plain plain, and_two]
  rfl

end

theorem exchange_data {d s : Reg} {simm : Word} (address : (c.state.regs s + simm).toNat = a)
    (plain : PlainWord (a >>> 2)) : c.exchange d s simm = c.withCore { c.core with
      data := (c.data.putWord a (c.data.regs d)).setReg d (c.data.word a) } := by
  rw [exchange, shiftRight_toNat_two, address, c.memReadWord_plain plain,
    c.memWriteWord_plain plain]
  rfl

theorem compareAndSwap_data (address : (c.state.regs 1).toNat = a) (plain : PlainWord (a >>> 2)) :
    c.compareAndSwap = c.withCore { c.core with data := c.data.access .cas w a } := by
  rw [compareAndSwap, shiftRight_toNat_two, address, c.memReadWord_plain plain,
    c.memWriteWord_plain plain]
  dsimp only [Data.access]
  by_cases same : c.data.word a = c.data.regs 0
  · have same' : c.ram.getD (a >>> 2) 0 = c.state.regs 0 := same
    rw [if_pos same, if_pos same']
    rfl
  · have same' : ¬ c.ram.getD (a >>> 2) 0 = c.state.regs 0 := same
    rw [if_neg same, if_neg same']
    rfl

theorem executeInsn_access (mmu : c.state.mmuEnabled = 0) (op : opcode? w = some o)
    (address : c.data.touched o w = some a) (plain : PlainWord (a >>> 2)) :
    c.executeInsn w = .ok (c.withCore { c.core with data := c.data.access o w a }) := by
  rw [executeInsn, op]
  cases o with
  | ld =>
    cases address
    simp only [translateAddress_flat mmu]
    exact congrArg (fun v => ok (c.setReg (dst w) v)) (c.memReadWord_plain plain)
  | ldb =>
    cases address
    simp only [translateAddress_flat mmu]
    exact congrArg (fun v : Byte => ok (c.setReg (dst w) (v.setWidth 32)))
      (memReadByte_data plain)
  | ldh =>
    cases address
    simp only [translateAddress_flat mmu]
    exact congrArg (fun v : Half => ok (c.setReg (dst w) (v.setWidth 32)))
      (memReadHalf_data plain)
  | st =>
    cases address
    simp only [translateAddress_flat mmu]
    exact congrArg ok (c.memWriteWord_plain plain _)
  | stb =>
    cases address
    simp only [translateAddress_flat mmu]
    exact congrArg ok (memWriteByte_data plain _)
  | sth =>
    cases address
    simp only [translateAddress_flat mmu]
    exact congrArg ok (memWriteHalf_data plain _)
  | xchg =>
    cases address
    exact congrArg ok (exchange_data rfl plain)
  | cas =>
    cases address
    exact congrArg ok (compareAndSwap_data rfl plain)
  | _ => cases address

theorem executeInsn_branch {taken : Bool} (op : opcode? w = some o)
    (branch : branchTaken o c.state.flags = some taken) :
    c.executeInsn w = .ok (c.branchIf w taken) := by
  rw [executeInsn, op]
  cases o <;> cases branch <;> rfl

variable {k : Core}

theorem executeInsn_core (mmu : c.state.mmuEnabled = 0) (follows : c.core.exec w = some k) :
    c.executeInsn w = .ok (c.withCore k) := by
  obtain ⟨x, straight, rfl⟩ | ⟨o, taken, op, branch, rfl⟩ := Core.exec_cases follows
  · obtain ⟨unknown, rfl⟩ | ⟨o, v, f, op, result, rfl⟩ | ⟨o, a, op, address, plain, rfl⟩ :=
      Data.exec_cases straight
    · rw [executeInsn, unknown]
      rfl
    · exact executeInsn_alu op result
    · exact executeInsn_access mmu op address plain
  · rw [executeInsn_branch op branch]
    cases taken <;> rfl

section

variable (quiet : c.Quiet)
include quiet

theorem Quiet.dispatchInterrupt : c.dispatchInterrupt = c :=
  if_neg quiet.interrupts

theorem step_of_fetch (fetch : c.rom[c.state.pc.toNat]? = some w)
    (execute : (c.withPc (c.state.pc + 1)).executeInsn w = .ok c') : c.step = .ok c'.countInsn := by
  rw [step, if_neg (not_not.mpr quiet.halted), quiet.dispatchInterrupt]
  dsimp only
  rw [fetch]
  dsimp only
  rw [execute]

theorem executeInsn_of_step (fetch : c.rom[c.state.pc.toNat]? = some w)
    (stepped : c.step = .ok c') :
    ∃ c'', (c.withPc (c.state.pc + 1)).executeInsn w = .ok c'' ∧ c' = c''.countInsn := by
  rw [step, if_neg (not_not.mpr quiet.halted), quiet.dispatchInterrupt] at stepped
  dsimp only at stepped
  rw [fetch] at stepped
  dsimp only at stepped
  cases executed : (c.withPc (c.state.pc + 1)).executeInsn w with
  | ok c'' =>
    rw [executed] at stepped
    cases stepped
    exact ⟨c'', rfl, rfl⟩
  | err e c'' =>
    rw [executed] at stepped
    cases stepped

theorem step_core (follows : Core.step c.rom c.core = some k) :
    c.step = .ok (c.withCore k).countInsn := by
  have pc : c.core.pc = c.state.pc := rfl
  rw [Core.step, pc] at follows
  cases fetch : c.rom[c.state.pc.toNat]? with
  | none =>
    simp [fetch] at follows
  | some w =>
    rw [fetch] at follows
    have execute := executeInsn_core (c := c.withPc (c.state.pc + 1)) quiet.mmu follows
    exact step_of_fetch quiet fetch execute

theorem Quiet.withCore (k : Core) : (c.withCore k).countInsn.Quiet :=
  ⟨quiet.halted, quiet.mmu, quiet.interrupts⟩

theorem reaches_core (run : Reaches (Core.step c.rom) c.core k) :
    ∃ c', Reaches step? c c' ∧ c'.core = k ∧ c'.Quiet ∧ c'.rom = c.rom := by
  obtain ⟨n, steps⟩ := run
  obtain ⟨c', reached, same, quiet', rom⟩ := forward_simulation
    (R := fun k d => d.core = k ∧ d.Quiet ∧ d.rom = c.rom) (g := step?)
    (fun k k' d related follows => by
      obtain ⟨rfl, quietD, rom⟩ := related
      rw [← rom] at follows
      have here := step_core quietD follows
      refine ⟨(d.withCore k').countInsn, Reaches.single ?_, rfl, quietD.withCore k', rom⟩
      rw [step?, here])
    n (t := c) ⟨rfl, quiet, rfl⟩ steps
  exact ⟨c', reached, same, quiet', rom⟩

end

theorem leaves_core {rom : List Word} {inside : Core → Prop} {k k' : Core}
    (run : Leaves (Core.step rom) inside k k') {c : Cpu} (quiet : c.Quiet) (loaded : c.rom = rom)
    (here : c.core = k) : ∃ c', Leaves step? (fun d => inside d.core) c c' ∧ c'.core = k' := by
  have steps : ∀ {k k' : Core} {d : Cpu}, d.Quiet → d.rom = rom → d.core = k →
      Core.step rom k = some k' → step? d = some (d.withCore k').countInsn := by
    intro k k' d quietD romD coreD follows
    subst coreD romD
    rw [step?, step_core quietD follows]
  induction run generalizing c with
  | @last k k' one out => exact ⟨_, .last (steps quiet loaded here one) out, rfl⟩
  | @more k t k' one stays rest ih =>
    obtain ⟨c', leaves, same⟩ := @ih (c.withCore t).countInsn (quiet.withCore t) loaded rfl
    exact ⟨c', .more (steps quiet loaded here one) stays leaves, same⟩

end Cpu

end Unheaded.Mbc
