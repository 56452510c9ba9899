import Unheaded.Mbc.Agreement

/-!
# Indirect branches in the two engines

`JMPR` and `CALLR` in the host emulator and in the BPF interpreter.
-/

namespace Unheaded.Mbc

open Lib Function MbcInsn

/-- The field the host's `JMPR` and `CALLR` read: `self.state.regs[s]`. -/
def Cpu.targetReg (w : Word) : Reg := src w

/-- The field the interpreter's `JMPR` and `CALLR` read: `cpu.regs[d]`. -/
def Bpf.targetReg (w : Word) : Reg := dst w

/-- What the host reads there; `CALLR` has pushed the return pc by then. -/
def Cpu.target (c : Cpu) (o : Opcode) (w : Word) : Word :=
  match o with
  | .callr => (c.pushWord c.state.pc).state.regs (Cpu.targetReg w)
  | _ => c.state.regs (Cpu.targetReg w)

/-- What the interpreter reads there; `CALLR` has written the link by then. -/
def Bpf.target (b : Bpf) (o : Opcode) (w : Word) : Word :=
  match o with
  | .callr => b.linked (Bpf.targetReg w)
  | _ => b.state.regs (Bpf.targetReg w)

/-- Both engines read the target from the same register and reach the same pc. -/
structure BranchAgrees (c : Cpu) (b : Bpf) (w : Word) : Prop where
  register : Cpu.targetReg w = Bpf.targetReg w
  pc : ∃ c' b', c.executeInsn w = .ok c' ∧ b.executeInsn w = .next b' ∧ b'.state.pc = c'.state.pc

section Branch

variable {c : Cpu} {b : Bpf} {w : Word} {o : Opcode}

section

variable (op : opcode? w = some o) (indirect : o = .jmpr ∨ o = .callr)
include op indirect

theorem Cpu.executeInsn_indirect : ∃ c', c.executeInsn w = .ok c' ∧ c'.state.pc = c.target o w := by
  rw [executeInsn, op]
  obtain rfl | rfl := indirect
  · exact ⟨_, rfl, rfl⟩
  · exact ⟨_, rfl, rfl⟩

theorem Bpf.executeInsn_indirect :
    ∃ b', b.executeInsn w = .next b' ∧ b'.state.pc = b.landing (b.target o w) := by
  rw [executeInsn, op]
  obtain rfl | rfl := indirect
  · exact ⟨_, rfl, (b.jmpr_jumps _).pc⟩
  · exact ⟨_, rfl, (b.callr_jumps _).pc⟩

theorem branchAgrees_iff : BranchAgrees c b w ↔
      dst w = src w ∧ b.landing (b.target o w) = c.target o w := by
  obtain ⟨c', host, hostPc⟩ := Cpu.executeInsn_indirect (c := c) op indirect
  obtain ⟨b', bpf, bpfPc⟩ := Bpf.executeInsn_indirect (b := b) op indirect
  rw [← hostPc, ← bpfPc]
  constructor
  · rintro ⟨register, c'', b'', host', bpf', pc⟩
    rw [host] at host'
    rw [bpf] at bpf'
    cases host'
    cases bpf'
    exact ⟨register.symm, pc⟩
  · rintro ⟨register, pc⟩
    exact ⟨register.symm, c', b', host, bpf, pc⟩

end

theorem Bpf.target_callr (b : Bpf) (w : Word) : b.target .callr w =
      if dst w = 14 then b.state.pc ||| RET_MBC_TAG else b.state.regs (dst w) := by
  by_cases link : dst w = 14
  · rw [if_pos link, target, linked, targetReg, link, update_self]
  · rw [if_neg link, target, linked, targetReg, update_of_ne link]

theorem Cpu.target_callr (c : Cpu) (w : Word) : c.target .callr w =
      if src w = REG_SP ∧ (c.state.regs REG_SP).toNat < c.ram.len
      then c.state.regs REG_SP - 1 else c.state.regs (src w) := by
  rw [target, targetReg, pushWord]
  by_cases room : (c.state.regs REG_SP).toNat < c.ram.len
  · rw [if_pos room]
    by_cases sp : src w = REG_SP
    · simp [setReg, sp, room]
    · simp [setReg, withRam, sp]
  · rw [if_neg room, if_neg (fun both => room both.2)]

/-- `CALLR` keeps its target when the register is neither the link nor a
stack pointer that the host moves. -/
def CallrKeeps (b : Bpf) (r : Reg) : Prop :=
  (r = 14 → b.landing (b.state.pc ||| Bpf.RET_MBC_TAG) = b.state.regs 14) ∧
    (r = REG_SP → b.ram.len ≤ (b.state.regs REG_SP).toNat)

theorem callr_lands_iff (same : b.core = c.core) {r : Reg} (dst : dst w = r)
    (src : src w = r) (mapped : b.lookup (b.state.regs r) = some (b.state.regs r)) :
    b.landing (b.target .callr w) = c.target .callr w ↔ CallrKeeps b r := by
  have regs : c.state.regs = b.state.regs := congrArg (fun k : Core => k.data.regs) same.symm
  have ram : c.ram = b.ram := congrArg (fun k : Core => k.data.ram) same.symm
  have lands : b.landing (b.state.regs r) = b.state.regs r := by
    rw [Bpf.landing, mapped]
    rfl
  rw [Bpf.target_callr, Cpu.target_callr, dst, src, regs, ram]
  by_cases link : r = 14
  · subst link
    have notSp : ¬ (14 : Reg) = REG_SP := by decide
    exact ⟨fun lands => ⟨fun _ => lands, fun sp => absurd sp notSp⟩, fun keeps => keeps.1 rfl⟩
  · rw [if_neg link, lands]
    by_cases sp : r = REG_SP
    · subst sp
      by_cases room : (b.state.regs REG_SP).toNat < b.ram.len
      · rw [if_pos ⟨rfl, room⟩]
        constructor
        · intro unmoved
          exfalso
          bv_omega
        · intro keeps
          exact absurd (keeps.2 rfl) (Nat.not_le.mpr room)
      · rw [if_neg (fun both => room both.2)]
        exact ⟨fun _ => ⟨fun h => absurd h link, fun _ => Nat.not_lt.mp room⟩, fun _ => rfl⟩
    · rw [if_neg (fun both => sp both.1)]
      exact ⟨fun _ => ⟨fun h => absurd h link, fun h => absurd h sp⟩, fun _ => rfl⟩

/-- The engines agree on an indirect branch exactly when the word names one
register and its value lands on itself.  Where the map takes the register's
value to itself, that is when the two fields are equal and `CALLR` does not
overwrite the register first. -/
theorem indirect_branch_agrees (same : b.core = c.core) (op : opcode? w = some o)
    (indirect : o = .jmpr ∨ o = .callr) :
    (BranchAgrees c b w ↔ dst w = src w ∧ b.landing (b.target o w) = c.target o w) ∧
    (b.lookup (b.state.regs (dst w)) = some (b.state.regs (dst w)) → (BranchAgrees c b w ↔
        dst w = src w ∧ (o = .callr → CallrKeeps b (dst w)))) := by
  have exact_iff := branchAgrees_iff (c := c) (b := b) op indirect
  refine ⟨exact_iff, fun mapped => exact_iff.trans (and_congr_right fun fields => ?_)⟩
  obtain rfl | rfl := indirect
  · have lands : b.landing (b.target .jmpr w) = c.target .jmpr w := by
      have regs : c.state.regs = b.state.regs := congrArg (fun k : Core => k.data.regs) same.symm
      change b.landing (b.state.regs (dst w)) = c.state.regs (src w)
      rw [Bpf.landing, mapped, regs, ← fields]
      rfl
    exact iff_of_true lands (fun isCall => absurd isCall (by decide))
  · rw [callr_lands_iff same rfl fields.symm mapped]
    exact ⟨fun keeps _ => keeps, fun keeps => keeps rfl⟩

end Branch

/-- Registers `r1 = 8` and `r2 = 12`, and a map that takes 8 and 12 to
themselves, as byte addresses and as indices. -/
def selfMap : List Word := [0, 0, 8, 12, 0, 0, 0, 0, 8, 0, 0, 0, 12]

def branchState : MbcCpuState :=
  { MbcCpuState.default with regs := update (update (fun _ => 0) 1 8) 2 12 }

def branchHost : Cpu := { smallHost [] with state := branchState }

def branchBpf : Bpf := Bpf.boot branchState 64 [] selfMap

/-- `JMPR` with `dst = 1` and `src = 2`. -/
def jmprWord : Word := encode Opcode.jmpr.toByte 1 2 0

/-- `JMPR` with both fields 1. -/
def jmprSameWord : Word := encode Opcode.jmpr.toByte 1 1 0

theorem jmpr_fields_differ : branchBpf.core = branchHost.core ∧ opcode? jmprWord = some .jmpr ∧
      (∀ r ∈ [dst jmprWord, src jmprWord],
        branchBpf.lookup (branchBpf.state.regs r) = some (branchBpf.state.regs r) ∧
        branchBpf.lookup (4 * branchBpf.state.regs r) = some (branchBpf.state.regs r)) ∧
      ¬ BranchAgrees branchHost branchBpf jmprWord := by
  refine ⟨rfl, by decide, by decide, ?_⟩
  exact fun both => absurd both.1 (by decide)

theorem jmpr_fields_equal : BranchAgrees branchHost branchBpf jmprSameWord := by
  have agrees := indirect_branch_agrees (c := branchHost) (b := branchBpf) (w := jmprSameWord)
    (o := .jmpr) rfl (by decide) (Or.inl rfl)
  exact (agrees.2 (by decide)).mpr ⟨by decide, fun isCall => absurd isCall (by decide)⟩

end Unheaded.Mbc
