import Unheaded.Mbc.HostCore
import Unheaded.Mbc.TranslatorLayout
import Unheaded.Mbc.TranslatorRel

/-!
# Forward simulation of translated programs

Every run of a supported RV32 program is followed by the host emulator on the
translated words: one RV32 step is some host steps, from the start of one
expansion to the start of another.
-/

namespace Unheaded.Mbc.Translator

open Lib Rv32 List BitVec Function Insn Translator Cpu OpFn
open BitVec (ofNat)

/-! ## Memory accesses -/

def SafeAccess (ramLen : Nat) (a : Word) (size : Nat) : Prop :=
  a.toNat % size = 0 ∧ a.toNat >>> 2 < ramLen ∧ PlainWord (a.toNat >>> 2) ∧
    a.toNat >>> 2 ≠ SPILL_X16 ∧ a.toNat >>> 2 ≠ SPILL_X17

instance (ramLen : Nat) (a : Word) (size : Nat) : Decidable (SafeAccess ramLen a size) :=
  inferInstanceAs (Decidable (_ ∧ _ ∧ _ ∧ _ ∧ _))

/-- A step of the RV32 program, if its memory access is safe. -/
def safeStep (program : List Word) (ramLen : Nat) (s : State) : Option State :=
  match fetch program s with
  | none => none
  | some i =>
    match i.access s with
    | none => some (i.exec s)
    | some (a, size) => if SafeAccess ramLen a size then some (i.exec s) else none

section Memory

variable {exempt : XReg → Prop} {s : State} {x : Data} {a : Word}

theorem toNat_add_of_aligned {a : Word} {k size : Nat} (aligned : a.toNat % size = 0)
    (hk : k < size) (kind : size = 1 ∨ size = 2 ∨ size = 4) :
    (a + ofNat 32 k).toNat = a.toNat + k := by
  have room : a.toNat + k < 2 ^ 32 := by
    rcases kind with rfl | rfl | rfl <;> omega
  rw [toNat_add, toNat_ofNat, Nat.mod_eq_of_lt (show k < 2 ^ 32 by omega), Nat.mod_eq_of_lt room]

variable (holds : Holds exempt s x)
include holds

theorem Holds.mem_add {size k : Nat}
    (safe : SafeAccess x.ram.len a size) (hk : k < size) (kind : size = 1 ∨ size = 2 ∨ size = 4) :
    s.mem (a + ofNat 32 k) = byteOf (x.word a.toNat) (a.toNat % 4 + k) := by
  obtain ⟨aligned, inside, -, not16, not17⟩ := safe
  have place := toNat_add_of_aligned aligned hk kind
  have word : (a.toNat + k) >>> 2 = a.toNat >>> 2 := by
    rcases kind with rfl | rfl | rfl <;> omega
  have offset : (a.toNat + k) % 4 = a.toNat % 4 + k := by
    rcases kind with rfl | rfl | rfl <;> omega
  rw [holds.mem _ (by rw [place, word]; exact inside) (by rw [place, word]; exact not16)
    (by rw [place, word]; exact not17), Data.byte, place, Data.word, word, offset]
  rfl

theorem Holds.loaded {f : LoadFn}
    (safe : SafeAccess x.ram.len a f.size) : loaded f x a.toNat = f.eval s a := by
  have first : ∀ {size}, SafeAccess x.ram.len a size → 0 < size →
      size = 1 ∨ size = 2 ∨ size = 4 → s.mem a = byteOf (x.word a.toNat) (a.toNat % 4) := by
    intro size safe pos kind
    have value := holds.mem_add safe pos kind
    simpa using value
  cases f with
  | lb =>
    rw [LoadFn.eval, first safe (by decide) (.inl rfl)]
    rfl
  | lbu =>
    rw [LoadFn.eval, first safe (by decide) (.inl rfl)]
    rfl
  | lh =>
    rw [LoadFn.eval, State.half, first safe (by decide) (.inr (.inl rfl)),
      show s.mem (a + 1) = _ from holds.mem_add safe (k := 1) (by decide) (.inr (.inl rfl))]
    have even : a.toNat % 2 = 0 := safe.1
    have index : a.toNat % 4 = 2 * (a.toNat / 2 % 2) := by omega
    rw [index, ← halfOf_eq]
    rfl
  | lhu =>
    rw [LoadFn.eval, State.half, first safe (by decide) (.inr (.inl rfl)),
      show s.mem (a + 1) = _ from holds.mem_add safe (k := 1) (by decide) (.inr (.inl rfl))]
    have even : a.toNat % 2 = 0 := safe.1
    have index : a.toNat % 4 = 2 * (a.toNat / 2 % 2) := by omega
    rw [index, ← halfOf_eq]
    rfl
  | lw =>
    have zero : a.toNat % 4 = 0 := safe.1
    rw [LoadFn.eval, State.word, first safe (by decide) (.inr (.inr rfl)),
      show s.mem (a + 1) = _ from holds.mem_add safe (k := 1) (by decide) (.inr (.inr rfl)),
      show s.mem (a + 2) = _ from holds.mem_add safe (k := 2) (by decide) (.inr (.inr rfl)),
      show s.mem (a + 3) = _ from holds.mem_add safe (k := 3) (by decide) (.inr (.inr rfl)),
      zero]
    exact word_eq _

theorem Holds.setRam {i : Nat} (not16 : i ≠ SPILL_X16)
    (not17 : i ≠ SPILL_X17) {u : Word} {s' : State} (sameRegs : s'.x = s.x)
    (mem : ∀ b : Word, s.mem b = x.byte b.toNat →
      s'.mem b = ({ x with ram := x.ram.set i u } : Data).byte b.toNat) :
    Holds exempt s' { x with ram := x.ram.set i u } := by
  refine ⟨holds.zero, fun r small visible => ?_, ?_, ?_, ?_, fun b inside b16 b17 => ?_⟩
  · rw [sameRegs]
    exact holds.regs r small visible
  · rw [Store.len_set]
    exact holds.room
  · rw [sameRegs, Store.cell_set_of_ne _ (Ne.symm not16)]
    exact holds.x16
  · rw [sameRegs, Store.cell_set_of_ne _ (Ne.symm not17)]
    exact holds.x17
  · rw [Store.len_set] at inside
    exact mem b (holds.mem b inside b16 b17)

theorem Holds.stored {f : StoreFn} (safe : SafeAccess x.ram.len a f.size) (v : Word) :
    Holds exempt (f.eval s a v) (stored f x a.toNat v) := by
  obtain ⟨aligned, inside, -, not16, not17⟩ := safe
  cases f with
  | sb =>
    refine holds.setRam not16 not17 rfl (fun b before => ?_)
    change update s.mem a (v.setWidth 8) b = (x.putByte a.toNat (v.setWidth 8)).byte b.toNat
    rw [Data.byte_putByte x inside, update_apply, ← before]
    simp only [toNat_eq]
  | sh =>
    have next : (a + 1).toNat = a.toNat + 1 :=
      toNat_add_of_aligned aligned (k := 1) (by decide) (.inr (.inl rfl))
    refine holds.setRam not16 not17 rfl (fun b before => ?_)
    change update (update s.mem a _) (a + 1) _ b =
      (x.putHalf a.toNat (v.setWidth 16)).byte b.toNat
    rw [Data.byte_putHalf x inside aligned, update_apply, update_apply, ← before]
    simp only [toNat_eq, next]
    split <;> split <;> first | rfl | omega
  | sw =>
    have places : ∀ k < 4, (a + ofNat 32 k).toNat = a.toNat + k :=
      fun k hk => toNat_add_of_aligned aligned hk (.inr (.inr rfl))
    have p1 : (a + 1).toNat = a.toNat + 1 := places 1 (by decide)
    have p2 : (a + 2).toNat = a.toNat + 2 := places 2 (by decide)
    have p3 : (a + 3).toNat = a.toNat + 3 := places 3 (by decide)
    have zero : a.toNat % 4 = 0 := aligned
    refine holds.setRam not16 not17 rfl (fun b before => ?_)
    change update (update (update (update s.mem a _)
      (a + 1) _) (a + 2) _) (a + 3) _ b = (x.putWord a.toNat v).byte b.toNat
    rw [Data.byte_putWord x inside]
    simp only [update_apply, ← before, toNat_eq, p1, p2, p3, Data.shiftRight_two]
    by_cases word : b.toNat / 4 = a.toNat / 4
    · rw [if_pos word]
      have offset : b.toNat = a.toNat ∨ b.toNat = a.toNat + 1 ∨ b.toNat = a.toNat + 2 ∨
          b.toNat = a.toNat + 3 := by omega
      rcases offset with at0 | at1 | at2 | at3
      · simp [at0, zero]
      · rw [at1, show (a.toNat + 1) % 4 = 1 by omega]
        simp
      · rw [at2, show (a.toNat + 2) % 4 = 2 by omega]
        simp
      · rw [at3, show (a.toNat + 3) % 4 = 3 by omega]
        simp
    · rw [if_neg word, if_neg (by omega), if_neg (by omega), if_neg (by omega), if_neg (by omega)]

end Memory

/-! ## Sources and destinations -/

theorem isSrc_of_encodes {w : Word} {i : Insn} (encodes : Encodes w i) (r : XReg) :
    isSrc w r = true ↔ r ∈ i.sources := by
  rw [isSrc, hasRs1Reg, hasRs2Reg, rvOpcode_eq, rvRs1_eq, rvRs2_eq]
  cases encodes with
  | op major | store major | branch major =>
    rw [major]
    change ((rs1 w == r) || (rs2 w == r)) = true ↔ r ∈ [rs1 w, rs2 w]
    simp [eq_comm (a := r)]
  | opImm major | shiftImm major | load major | jalr major =>
    rw [major]
    change ((rs1 w == r) || false) = true ↔ r ∈ [rs1 w]
    simp [eq_comm (a := r)]
  | lui major | auipc major | jal major =>
    rw [major]
    exact iff_of_false Bool.false_ne_true not_mem_nil

theorem isDst_of_encodes {w : Word} {i : Insn} (encodes : Encodes w i) (r : XReg) :
    isDst w r = (i.dest == some r) := by
  rw [isDst, hasRdReg, rvOpcode_eq, rvRd_eq]
  cases encodes with
  | op major | opImm major | shiftImm major | load major | store major | branch major
  | lui major | auipc major | jal major | jalr major =>
    rw [major]
    rfl

/-! ## The simulated subset -/

/-- The instructions the simulation covers. -/
def Simulated : Insn → Prop
  | .op f _ _ _ => f ∈ [add, .sub, .and, .or, .xor, .sll, .srl, .sra, .sltu, .mul, .mulh,
      .mulhu, .divu]
  | .opImm f _ rs1 _ => f ∈ [ImmFn.addi, .andi, .ori, .xori] ∨ f = .sltiu ∧ rs1 ≠ 0
  | .shiftImm .. | .load .. | .store .. | .lui .. | .auipc .. => True
  | .branch f _ _ _ => f ∈ [BranchFn.beq, .bne, .bltu, .bgeu]
  | .jal rd _ => rd = 0
  | .jalr .. => False

theorem branchTaken_pack (z n c : Bool) :
    branchTaken .jz (Flag.pack z n c) = some z ∧ branchTaken .jnz (Flag.pack z n c) = some (!z) ∧
    branchTaken .jn (Flag.pack z n c) = some n ∧ branchTaken .jp (Flag.pack z n c) = some (!n) ∧
    branchTaken .jc (Flag.pack z n c) = some c ∧
    branchTaken .jnc (Flag.pack z n c) = some (!c) := by
  cases z <;> cases n <;> cases c <;> decide

theorem computes_div : Computes .div divu.eval := by
  intro a b i f
  by_cases zero : b = 0
  · exact ⟨Flag.C, by rw [alu, if_pos zero, OpFn.eval, if_pos zero]; rfl⟩
  · exact ⟨_, by rw [alu, if_neg zero, OpFn.eval, if_neg zero]; rfl⟩

theorem opRow_simulated {f : OpFn}
    (simulated : f ∈ [add, .sub, .and, .or, .xor, .sll, .srl, .sra, .sltu, .mul, .mulh,
      .mulhu, .divu]) (arithmetic : f ≠ .sltu) :
    ∃ o commutative, opRow (f.code.1.setWidth 8) (f.code.2.setWidth 8) = some (o, commutative) ∧
      Computes o f.eval ∧ (commutative = true → ∀ a b, f.eval a b = f.eval b a) := by
  cases f with
  | add => exact ⟨.add, true, rfl, fun _ _ _ _ => ⟨_, rfl⟩, fun _ => BitVec.add_comm⟩
  | sub => exact ⟨.sub, false, rfl, fun _ _ _ _ => ⟨_, rfl⟩, fun h => by cases h⟩
  | and => exact ⟨.and, true, rfl, fun _ _ _ _ => ⟨_, rfl⟩, fun _ => BitVec.and_comm⟩
  | or => exact ⟨.or, true, rfl, fun _ _ _ _ => ⟨_, rfl⟩, fun _ => BitVec.or_comm⟩
  | xor => exact ⟨.xor, true, rfl, fun _ _ _ _ => ⟨_, rfl⟩, fun _ => BitVec.xor_comm⟩
  | sll => exact ⟨.shlr, false, rfl, fun _ _ _ _ => ⟨_, rfl⟩, fun h => by cases h⟩
  | srl => exact ⟨.shrr, false, rfl, fun _ _ _ _ => ⟨_, rfl⟩, fun h => by cases h⟩
  | sra => exact ⟨.sarr, false, rfl, fun _ _ _ _ => ⟨_, rfl⟩, fun h => by cases h⟩
  | mul => exact ⟨.mul, true, rfl, fun _ _ _ _ => ⟨_, rfl⟩, fun _ => BitVec.mul_comm⟩
  | mulh =>
    refine ⟨.mulh, true, rfl, fun a b _ _ => ⟨_, by rw [alu, mulHighSigned_eq]; rfl⟩, ?_⟩
    intro _ a b
    rw [OpFn.eval, OpFn.eval, Int.mul_comm]
  | mulhu =>
    refine ⟨.mulhu, true, rfl, fun a b _ _ => ⟨_, by rw [alu, mulHighUnsigned_eq]; rfl⟩, ?_⟩
    intro _ a b
    rw [OpFn.eval, OpFn.eval, Nat.mul_comm]
  | divu => exact ⟨.div, false, rfl, computes_div, fun h => by cases h⟩
  | sltu => exact absurd rfl arithmetic
  | slt | mulhsu | div | rem | remu => exact absurd simulated (by decide)

section Writes

variable {exempt : XReg → Prop} {s : State} {x : Data} {w pc : Word}

theorem expands_simulated_op {f : OpFn} (zero : x.regs 0 = 0) (major : opcode w = 0x33)
    (minor : f.code = (funct3 w, funct7 w)) (simulated : Simulated (.op f (rd w) (rs1 w) (rs2 w))) :
    Expands w pc x (f.eval (mapped x (rs1 w)) (mapped x (rs2 w))) := by
  by_cases compare : f = .sltu
  · subst compare
    have value : Expands w pc x _ := expands_compare zero major minor rfl rfl
      (branchTaken_pack _ _ _).2.2.2.2.2
    have less : subBorrow (mapped x (rs1 w)) (mapped x (rs2 w)) =
        (mapped x (rs1 w)).ult (mapped x (rs2 w)) := rfl
    rw [less] at value
    rw [OpFn.eval]
    cases hlt : (mapped x (rs1 w)).ult (mapped x (rs2 w)) <;> simpa [hlt] using value
  · obtain ⟨o, commutative, row, computes, comm⟩ := opRow_simulated simulated compare
    exact expands_op zero major minor row computes comm

theorem expands_simulated_opImm {f : ImmFn} (zero : x.regs 0 = 0) (major : opcode w = 0x13)
    (minor : f.code = funct3 w) (simulated : Simulated (.opImm f (rd w) (rs1 w) (immI w))) :
    Expands w pc x (f.eval (mapped x (rs1 w)) ((immI w).signExtend 32)) := by
  cases f with
  | addi => exact expands_addi zero major minor
  | andi =>
    exact expands_logicImm zero major minor (.inl ⟨rfl, rfl⟩) (fun _ _ _ _ => ⟨_, rfl⟩)
  | ori =>
    exact expands_logicImm zero major minor (.inr (.inl ⟨rfl, rfl⟩)) (fun _ _ _ _ => ⟨_, rfl⟩)
  | xori =>
    exact expands_logicImm zero major minor (.inr (.inr ⟨rfl, rfl⟩)) (fun _ _ _ _ => ⟨_, rfl⟩)
  | sltiu =>
    have nonzero : mapRegister (rs1 w) ≠ 0 := by
      rcases simulated with listed | ⟨-, nonzero⟩
      · exact absurd listed (by decide)
      · exact fun h => nonzero ((mapRegister_eq_zero _).mp h)
    have operand : mapped (x.setReg 0 ((immI w).signExtend 32)) (rs1 w) = mapped x (rs1 w) :=
      Data.regs_setReg_of_ne x nonzero _
    have value : Expands w pc x _ := expands_compareImm zero major minor (.inr ⟨rfl, rfl⟩)
      (branchTaken_pack _ _ _).2.2.2.2.2
    rw [operand] at value
    have less : subBorrow (mapped x (rs1 w)) ((immI w).signExtend 32) =
        (mapped x (rs1 w)).ult ((immI w).signExtend 32) := rfl
    rw [less] at value
    rw [ImmFn.eval]
    cases hlt : (mapped x (rs1 w)).ult ((immI w).signExtend 32) <;> simpa [hlt] using value
  | slti =>
    rcases simulated with listed | ⟨same, -⟩
    · exact absurd listed (by decide)
    · exact absurd same (by decide)

theorem expands_simulated {i : Insn} {r : XReg} (holds : Holds exempt s x) (encodes : Encodes w i)
    (simulated : Simulated i) (sources : ∀ q ∈ i.sources, mapped x q = s.x q)
    (safe : ∀ a size, i.access s = some (a, size) → SafeAccess x.ram.len a size)
    (dest : i.dest = some r) (noJump : ∀ r offset, i ≠ .jal r offset) :
    ∃ v, Expands w s.pc x v ∧ i.exec s = (s.set r v).next ∧ r = rd w := by
  cases encodes with
  | op major minor =>
    cases dest
    rw [Insn.exec, ← sources (rs1 w) (by simp [Insn.sources]),
      ← sources (rs2 w) (by simp [Insn.sources])]
    exact ⟨_, expands_simulated_op holds.zero major minor simulated, rfl, rfl⟩
  | opImm major minor =>
    cases dest
    rw [Insn.exec, ← sources (rs1 w) (by simp [Insn.sources])]
    exact ⟨_, expands_simulated_opImm holds.zero major minor simulated, rfl, rfl⟩
  | shiftImm major minor =>
    cases dest
    rw [Insn.exec, ← sources (rs1 w) (by simp [Insn.sources])]
    exact ⟨_, expands_shiftImm holds.zero major minor, rfl, rfl⟩
  | load major minor =>
    cases dest
    have access := safe _ _ rfl
    rw [exec, ← holds.loaded access]
    refine ⟨_, expands_load holds.zero major minor ?_ access.2.2.1, rfl, rfl⟩
    rw [sources (rs1 w) (by simp [Insn.sources])]
  | lui major =>
    cases dest
    exact ⟨_, expands_lui holds.zero major, rfl, rfl⟩
  | auipc major =>
    cases dest
    exact ⟨_, expands_auipc holds.zero major, rfl, rfl⟩
  | store => cases dest
  | branch => cases dest
  | jal => exact absurd rfl (noJump _ _)
  | jalr => exact simulated.elim

end Writes

/-! ## Supported programs -/

def Names (program : List Word) (r : XReg) : Prop :=
  ∃ w ∈ program, ∃ i, decode w = some i ∧ i.Names r

/-- The registers that a program using `x17` or `x16` loses to their shadows. -/
def Shadowed (program : List Word) (r : XReg) : Prop :=
  r = 3 ∧ Names program 17 ∨ r = 4 ∧ Names program 16

/-- The target of a direct branch or jump at address `pc`. -/
def directTarget (pc : Word) : Insn → Option Word
  | .branch _ _ _ offset => some (pc + offset.signExtend 32)
  | .jal _ offset => some (pc + offset.signExtend 32)
  | _ => none

/-- Only simulated instructions over `x0` to `x17`, with aligned targets in
the program, and neither shadow clash. -/
structure Supported (program : List Word) : Prop where
  insn : ∀ w ∈ program, ∃ i, decode w = some i ∧ Simulated i ∧ ∀ r, i.Names r → r.toNat < 18
  target : ∀ n w i t, program[n]? = some w → decode w = some i →
    directTarget (ofNat 32 (n * 4)) i = some t →
      t.toNat % 4 = 0 ∧ t.toNat / 4 < program.length
  apart3 : ¬ (Names program 3 ∧ Names program 17)
  apart4 : ¬ (Names program 4 ∧ Names program 16)

section Step

variable {program rom : List Word} {pcMap : List Nat} {s : State} {x : Data} {w : Word} {i : Insn}

variable {r r1 r2 : XReg}

theorem Supported.not_shadowed (supported : Supported program) (named : Names program r) :
    ¬ Shadowed program r := by
  rintro (⟨rfl, other⟩ | ⟨rfl, other⟩)
  · exact supported.apart3 ⟨named, other⟩
  · exact supported.apart4 ⟨named, other⟩

section

variable (holds : Holds (Shadowed program) s x) (supported : Supported program) (word : w ∈ program)
  (decoded : decode w = some i)
include holds supported word decoded

theorem Holds.sources :
    ∃ x', Core.Block (Translator.spillLoads w) x x' ∧ Holds (Shadowed program) s x' ∧
      x'.ram = x.ram ∧ ∀ r ∈ i.sources, mapped x' r = s.x r := by
  have encodes := encodes_of_decode decoded
  obtain ⟨j, decoded', -, small⟩ := supported.insn w word
  cases decoded.symm.trans decoded'
  have named : ∀ r ∈ i.sources, Names program r :=
    fun r source => ⟨w, word, i, decoded, .inl source⟩
  obtain ⟨x', run, holds', ram, loaded⟩ := holds.spillLoads (w := w)
    (fun source => .inr ⟨rfl, named 16 ((isSrc_of_encodes encodes 16).mp source)⟩)
    (fun source => .inl ⟨rfl, named 17 ((isSrc_of_encodes encodes 17).mp source)⟩)
  refine ⟨x', Core.Block.ofLine run, holds', ram, fun r source => ?_⟩
  exact loaded r (small r (.inl source)) ((isSrc_of_encodes encodes r).mpr source)
    (fun _ => supported.not_shadowed (named r source))

theorem Holds.finish (dest : i.dest = some r) (v : Word)
    (f : Byte) : ∃ x', Core.Block (Translator.spillStores w) (written x (mapRegister r) v f) x' ∧
      Holds (Shadowed program) (s.set r v) x' ∧ x'.ram.len = x.ram.len := by
  have encodes := encodes_of_decode decoded
  obtain ⟨j, decoded', -, small⟩ := supported.insn w word
  cases decoded.symm.trans decoded'
  have named : Names program r := ⟨w, word, i, decoded, .inr dest⟩
  have destination : ∀ q, isDst w q = (r == q) := fun q => by
    rw [isDst_of_encodes encodes, dest]
    rfl
  obtain ⟨x', run, rest⟩ := holds.spillStores (small r (.inr dest)) destination
    (fun same => .inr ⟨rfl, same ▸ named⟩) (fun same => .inl ⟨rfl, same ▸ named⟩) v f
  exact ⟨x', Core.Block.ofLine run, rest⟩

end

theorem spillStores_eq_nil (encodes : Encodes w i) (noDest : i.dest = none) :
    spillStores w = [] := by
  rw [spillStores, isDst_of_encodes encodes, isDst_of_encodes encodes, noDest]
  rfl

theorem blockOf_concrete (w : Word) (ws : List Word) : blockOf w (ws.map .concrete) =
      (spillLoads w ++ ws ++ spillStores w).map .concrete := by
  simp [blockOf]

variable {n p q ramLen : Nat} {x' : Data}

theorem reaches_block {ws : List Word} (placed : Placed pcMap rom p (ws.map .concrete))
    (fits : p + ws.length ≤ 2 ^ 32) (block : Core.Block ws x x') :
    Reaches (Core.step rom) (Core.atPos x p) (Core.atPos x' (p + ws.length)) :=
  (block rom p ((placed_concrete p ws).mp placed) fits).reaches

/-- The core machine stands at the expansion of the RV32 state's instruction
and holds the state. -/
def Related (program : List Word) (pcMap : List Nat) (ramLen : Nat) (s : State) (k : Core) :
    Prop :=
  ∃ p, pcMap[s.pc.toNat / 4]? = some p ∧ k.pc = ofNat 32 p ∧ s.pc.toNat % 4 = 0 ∧
    Holds (Shadowed program) s k.data ∧ k.data.ram.len = ramLen

theorem Related.next (pc : s.pc.toNat = 4 * n) (short : n + 1 < 2 ^ 30)
    (map : pcMap[n + 1]? = some q) (holds : Holds (Shadowed program) s x')
    (size : x'.ram.len = ramLen) : Related program pcMap ramLen s.next (Core.atPos x' q) := by
  have value : (s.pc + 4).toNat = 4 * (n + 1) := by
    rw [toNat_add, show (4 : Word).toNat = 4 from rfl]
    omega
  have index : s.next.pc.toNat / 4 = n + 1 := by
    rw [State.next, value]
    omega
  refine ⟨q, by rw [index]; exact map, rfl, ?_, holds.withPc _, size⟩
  rw [State.next, value]
  omega

variable {body : List MbcEmit}

theorem step_placed_branch {o : Opcode} {target : Word} {taken : Bool}
    (placed : Placed pcMap rom q [.branch o target]) (fits : q < 2 ^ 32)
    (branch : branchTaken o x.flags = some taken) : ∃ t, pcMap[target.toNat / 4]? = some t ∧
      Core.step rom (Core.atPos x q) = some (Core.atPos x (if taken then t else q + 1)) := by
  obtain ⟨⟨word, resolved, fetch⟩, -⟩ := placed
  obtain ⟨t, lookup, op, lands⟩ := resolve_branch resolved
  refine ⟨t, lookup, ?_⟩
  have jump := Core.step_branch fetch fits op branch
  rw [lands] at jump
  cases taken <;> exact jump

theorem branchRow_simulated {f : BranchFn} (simulated : f ∈ [BranchFn.beq, .bne, .bltu, .bgeu])
    (a b : Word) : ∃ o, branchRow (f.code.setWidth 8) = some o ∧
      branchTaken o (compared x a b).flags = some (f.holds a b) := by
  have equal : decide (a - b = 0) = (a == b) := by
    rw [Bool.eq_iff_iff, decide_eq_true_iff, BitVec.sub_eq_iff_eq_add]
    simp
  have packed := branchTaken_pack (decide (a - b = 0)) (a - b).msb (subBorrow a b)
  rw [equal] at packed
  have flags : (compared x a b).flags = Flag.pack (a == b) (a - b).msb (subBorrow a b) := by
    rw [compared, resultFlags, equal]
  rw [flags]
  cases f with
  | beq => exact ⟨.jz, rfl, packed.1⟩
  | bne => exact ⟨.jnz, rfl, packed.2.1⟩
  | bltu => exact ⟨.jc, rfl, packed.2.2.2.2.1⟩
  | bgeu => exact ⟨.jnc, rfl, packed.2.2.2.2.2⟩
  | blt | bge => exact absurd simulated (by decide)

theorem Related.jump {t : Nat} {offset : Word} (aligned : (s.pc + offset).toNat % 4 = 0)
    (map : pcMap[(s.pc + offset).toNat / 4]? = some t) (holds : Holds (Shadowed program) s x')
    (size : x'.ram.len = ramLen) : Related program pcMap ramLen (s.jump offset) (Core.atPos x' t) :=
  ⟨t, map, rfl, aligned, holds.withPc _, size⟩

section Simulate

variable (supported : Supported program) (small : rom.length ≤ 2 ^ 32)
  (holds : Holds (Shadowed program) s x) (size : x.ram.len = ramLen) (word : w ∈ program)
  (expansion : translateInsn? w s.pc = some body) (placed : Placed pcMap rom p (blockOf w body))
  (fits : p + (blockOf w body).length ≤ rom.length)
include supported small holds size word expansion placed fits

theorem simulate_jal {offset : BitVec 21} (decoded : decode w = some (.jal r offset))
    (aligned : (s.pc + offset.signExtend 32).toNat % 4 = 0) :
    ∃ k', Reaches (Core.step rom) (Core.atPos x p) k' ∧
      Related program pcMap ramLen ((jal r offset).exec s) k' := by
  have encodes := encodes_of_decode decoded
  obtain ⟨j, decoded', simulated, -⟩ := supported.insn w word
  cases decoded.symm.trans decoded'
  obtain ⟨x₁, loads, holds₁, ram₁, -⟩ := holds.sources supported word decoded
  have size₁ : x₁.ram.len = ramLen := by rw [ram₁, size]
  cases encodes with
  | jal major =>
    have noLink : rd w = 0 := simulated
    cases expansion.symm.trans (expands_jal major noLink)
    rw [blockOf, List.append_assoc] at placed
    obtain ⟨straight, rest⟩ := (placed_append _ _ _).mp placed
    obtain ⟨jump, -⟩ := (placed_append _ _ _).mp rest
    rw [length_map] at jump
    have room : p + (spillLoads w).length < 2 ^ 32 := by
      simp only [blockOf, length_append, length_map, length_singleton] at fits
      omega
    have run := reaches_block straight (by omega) loads
    obtain ⟨t, lookup, jumped⟩ := step_placed_branch (x := x₁) jump room rfl
    refine ⟨_, run.trans (.single jumped), ?_⟩
    have target : (jal (rd w) (immJ w)).exec s = s.jump ((immJ w).signExtend 32) := by
      rw [noLink]
      rfl
    rw [target]
    exact Related.jump aligned lookup holds₁ size₁

variable (short : n + 1 < 2 ^ 30) (pc : s.pc.toNat = 4 * n)
  (map : pcMap[n + 1]? = some (p + (blockOf w body).length))
include short pc map

theorem simulate_write (decoded : decode w = some i) (dest : i.dest = some r)
    (noJump : ∀ r offset, i ≠ .jal r offset)
    (safe : ∀ a size, i.access s = some (a, size) → SafeAccess ramLen a size) :
    ∃ k', Reaches (Core.step rom) (Core.atPos x p) k' ∧
      Related program pcMap ramLen (i.exec s) k' := by
  have encodes := encodes_of_decode decoded
  obtain ⟨j, decoded', simulated, -⟩ := supported.insn w word
  cases decoded.symm.trans decoded'
  obtain ⟨x₁, loads, holds₁, ram₁, sources⟩ := holds.sources supported word decoded
  have size₁ : x₁.ram.len = ramLen := by rw [ram₁, size]
  obtain ⟨v, ⟨ws, f, expansion', block⟩, result, rfl⟩ := expands_simulated holds₁ encodes simulated
    sources (by rw [size₁]; exact safe) dest noJump
  cases expansion.symm.trans expansion'
  obtain ⟨x₂, stores, holds₂, size₂⟩ := holds₁.finish supported word decoded dest v f
  rw [blockOf_concrete] at placed map fits
  rw [length_map] at map fits
  have run := reaches_block placed (by omega) ((loads.append block).append stores)
  refine ⟨_, run, ?_⟩
  rw [result]
  refine Related.next (n := n) ?_ short map holds₂ (size₂.trans size₁)
  rw [State.set_pc, pc]

theorem simulate_store {f : StoreFn} {imm : BitVec 12}
    (decoded : decode w = some (.store f r1 r2 imm))
    (safe : SafeAccess ramLen (s.x r1 + imm.signExtend 32) f.size) :
    ∃ k', Reaches (Core.step rom) (Core.atPos x p) k' ∧
      Related program pcMap ramLen ((store f r1 r2 imm).exec s) k' := by
  have encodes := encodes_of_decode decoded
  have noStores := spillStores_eq_nil encodes rfl
  obtain ⟨x₁, loads, holds₁, ram₁, sources⟩ := holds.sources supported word decoded
  have size₁ : x₁.ram.len = ramLen := by rw [ram₁, size]
  cases encodes with
  | store major minor =>
    have first := sources (rs1 w) (by simp [Insn.sources])
    have second := sources (rs2 w) (by simp [Insn.sources])
    obtain ⟨ws, expansion', block⟩ : ∃ ws, translateInsn? w s.pc = some (ws.map .concrete) ∧
        Core.Block ws x₁ _ := expands_store holds₁.zero major minor
      (congrArg (fun a : Word => (a + (immS w).signExtend 32).toNat) first) safe.2.2.1
    cases expansion.symm.trans expansion'
    rw [second] at block
    rw [blockOf_concrete, noStores, append_nil] at placed map fits
    rw [length_map] at map fits
    have run := reaches_block placed (by omega) (loads.append block)
    refine ⟨_, run, ?_⟩
    have safe₁ : SafeAccess x₁.ram.len (s.x (rs1 w) + (immS w).signExtend 32) f.size := by
      rw [size₁]
      exact safe
    have holds₂ := holds₁.stored safe₁ (s.x (rs2 w))
    refine Related.next (n := n) ?_ short map holds₂ ?_
    · rw [← pc]
      cases f <;> rfl
    · rw [← size₁]
      cases f <;> exact Store.len_set _ _ _

theorem simulate_branch {f : BranchFn} {offset : BitVec 13}
    (decoded : decode w = some (.branch f r1 r2 offset))
    (aligned : (s.pc + offset.signExtend 32).toNat % 4 = 0) :
    ∃ k', Reaches (Core.step rom) (Core.atPos x p) k' ∧
      Related program pcMap ramLen ((branch f r1 r2 offset).exec s) k' := by
  have encodes := encodes_of_decode decoded
  have noStores := spillStores_eq_nil encodes rfl
  obtain ⟨j, decoded', simulated, -⟩ := supported.insn w word
  cases decoded.symm.trans decoded'
  obtain ⟨x₁, loads, holds₁, ram₁, sources⟩ := holds.sources supported word decoded
  have size₁ : x₁.ram.len = ramLen := by rw [ram₁, size]
  cases encodes with
  | branch major minor =>
    have first := sources (rs1 w) (by simp [Insn.sources])
    have second := sources (rs2 w) (by simp [Insn.sources])
    obtain ⟨o, row, branch⟩ := branchRow_simulated (x := x₁) simulated (s.x (rs1 w)) (s.x (rs2 w))
    obtain ⟨ws, expansion', block⟩ : ∃ ws, translateInsn? w s.pc = some (ws.map MbcEmit.concrete ++
        [MbcEmit.branch o (s.pc + (immB w).signExtend 32)]) ∧ Core.Block ws x₁ _ :=
      expands_branch holds₁.zero major minor row
    cases expansion.symm.trans expansion'
    rw [first, second] at block
    have shape : blockOf w (ws.map MbcEmit.concrete ++ [MbcEmit.branch o (s.pc + (immB w).signExtend 32)]) =
          (spillLoads w ++ ws).map MbcEmit.concrete ++
            [MbcEmit.branch o (s.pc + (immB w).signExtend 32)] := by
      simp [blockOf, noStores]
    rw [shape] at placed map fits
    rw [length_append, length_map, length_singleton] at map fits
    obtain ⟨straight, jump⟩ := (placed_append _ _ _).mp placed
    rw [length_map] at jump
    have run := reaches_block straight (by omega) (loads.append block)
    obtain ⟨t, lookup, jumped⟩ := step_placed_branch jump (by omega) branch
    refine ⟨_, run.trans (.single jumped), ?_⟩
    rw [exec]
    cases f.holds (s.x (rs1 w)) (s.x (rs2 w)) with
    | true => exact Related.jump aligned lookup (holds₁.withFlags _) size₁
    | false => exact Related.next pc short map (holds₁.withFlags _) size₁

end Simulate

end Step

/-! ## Steps and runs -/

section Run

variable {program rom rv2mbc : List Word} {pcMap : List Nat}

theorem safeStep_cases {ramLen : Nat} {s s' : State} (step : safeStep program ramLen s = some s') :
    ∃ w i, program[s.pc.toNat / 4]? = some w ∧ decode w = some i ∧ s.pc.toNat % 4 = 0 ∧
      s' = i.exec s ∧ ∀ a size, i.access s = some (a, size) → SafeAccess ramLen a size := by
  rw [safeStep] at step
  split at step
  next => cases step
  next i fetched =>
    rw [fetch] at fetched
    split at fetched
    next aligned =>
      obtain ⟨w, word, decoded⟩ := Option.bind_eq_some_iff.mp fetched
      split at step
      next none_ =>
        cases step
        exact ⟨w, i, word, decoded, aligned, rfl, fun a size h => by rw [none_] at h; cases h⟩
      next a size access =>
        split at step <;> cases step
        next safe =>
          refine ⟨w, i, word, decoded, aligned, rfl, fun a' size' h => ?_⟩
          rw [access] at h
          cases h
          exact safe
    next => cases fetched

theorem simulate_step (layout : Layout program rom pcMap) (supported : Supported program)
    (small : rom.length ≤ 2 ^ 32) (short : program.length < 2 ^ 30) {ramLen : Nat}
    {s s' : State} {k : Core} (related : Related program pcMap ramLen s k)
    (step : safeStep program ramLen s = some s') :
    ∃ k', Reaches (Core.step rom) k k' ∧ Related program pcMap ramLen s' k' := by
  obtain ⟨p, here, atP, aligned, holds, size⟩ := related
  obtain ⟨w, i, fetched, decoded, -, rfl, safe⟩ := safeStep_cases step
  have start : k = Core.atPos k.data p := by rw [Core.atPos, ← atP]
  have word : w ∈ program := mem_of_getElem? fetched
  have inside := (List.getElem?_eq_some_iff.mp fetched).1
  have pc : s.pc.toNat = 4 * (s.pc.toNat / 4) := by omega
  have address : ofNat 32 (s.pc.toNat / 4 * 4) = s.pc := by
    rw [Nat.mul_comm, ← pc]
    exact ofNat_toNat 32 s.pc
  obtain ⟨p', body, expansion, here', map, placed⟩ := layout.block fetched
  cases here.symm.trans here'
  have fits := layout.fits map
  rw [address] at expansion
  have targets := supported.target (s.pc.toNat / 4) w i
  rw [address] at targets
  rw [start]
  cases i with
  | op | opImm | shiftImm | load | lui | auipc =>
    exact simulate_write supported small holds size word expansion placed fits (by omega) pc map
      decoded rfl (fun _ _ h => by cases h) safe
  | store =>
    exact simulate_store supported small holds size word expansion placed fits (by omega) pc map
      decoded (safe _ _ rfl)
  | branch =>
    exact simulate_branch supported small holds size word expansion placed fits (by omega) pc map
      decoded (targets _ fetched decoded rfl).1
  | jal =>
    exact simulate_jal supported small holds size word expansion placed fits decoded
      (targets _ fetched decoded rfl).1
  | jalr =>
    obtain ⟨j, decoded', simulated, -⟩ := supported.insn w word
    cases decoded.symm.trans decoded'
    exact simulated.elim

/-- Forward simulation: every safe run of a supported program, from any
instruction and any state, is followed by the host emulator on the translated
words up to the expansion of the instruction the run stops at. -/
theorem translated_program_simulates
    (accepted : translateProgramWithMap program = .ok (rom, rv2mbc))
    (supported : Supported program) (short : program.length < 2 ^ 30)
    (small : rom.length ≤ 2 ^ 32) {c : Cpu} {s s' : State} (quiet : c.Quiet) (loaded : c.rom = rom)
    (aligned : s.pc.toNat % 4 = 0) (start : rv2mbc[s.pc.toNat / 4]? = some c.state.pc)
    (holds : Holds (Shadowed program) s c.data) (n : Nat)
    (run : stepN (safeStep program c.ram.len) n s = some s') :
    ∃ c', Reaches step? c c' ∧ rv2mbc[s'.pc.toNat / 4]? = some c'.state.pc ∧
      Holds (Shadowed program) s' c'.data ∧ c'.ram.len = c.ram.len := by
  obtain ⟨pcMap, layout, rfl⟩ := layout_of_map accepted
  subst loaded
  obtain ⟨p, here, atP⟩ := Option.map_eq_some_iff.mp ((List.getElem?_map ..).symm.trans start)
  have related : Related program pcMap c.ram.len s c.core :=
    ⟨p, here, atP.symm, aligned, holds, rfl⟩
  obtain ⟨k, reached, q, there, atQ, -, holds', size⟩ := forward_simulation
    (fun s s' k related step => simulate_step layout supported small short related step)
    n related run
  obtain ⟨c', hostRun, rfl, -, -⟩ := reaches_core quiet reached
  refine ⟨c', hostRun, ?_, holds', size⟩
  rw [List.getElem?_map, there]
  exact congrArg some atQ.symm

end Run

/-! ## A program that uses `x17` -/

/-- The RV32 state of a machine fresh from `Cpu::new`. -/
def freshState : State where
  x r := if r = 2 then 0xFFFF0000 else 0
  zero := rfl
  pc := 0
  mem _ := 0

theorem holds_fresh (exempt : XReg → Prop) (rom : List Word) :
    Holds exempt freshState (Cpu.new.loadRom rom).data := by
  have regs : ∀ r : XReg, r.toNat < 16 → mapped Cpu.new.data r = freshState.x r := by decide
  have room : SPILL_X17 < Cpu.new.ram.len := by decide
  refine ⟨rfl, fun r small _ => regs r small, room, rfl, rfl, fun a inside _ _ => ?_⟩
  have word : Cpu.new.data.word a.toNat = 0 :=
    (Store.getD_of_lt _ inside 0).trans (Store.cell_ofFn _ _ inside)
  change _ = Cpu.new.data.byte a.toNat
  rw [Data.byte, word]
  simp [byteOf, freshState]

/-- `ADDI x17, x0, 5`. -/
def shadowProgram : List Word := [0x00500893]

def shadowRom : List Word :=
  [0x0F000000, 0x0E100000, 0x1D100005, 0x0F004004, 0x1C000006, 0x31010000, 0x0F000000]

theorem decode_shadowProgram {w : Word} {i : Insn} (word : w ∈ shadowProgram)
    (decoded : decode w = some i) : i = .opImm .addi 17 0 5 := by
  rw [mem_singleton.mp word] at decoded
  have value : decode 0x00500893 = some (.opImm .addi 17 0 5) := by decide
  exact Option.some.inj (decoded.symm.trans value)

theorem supported_shadowProgram : Supported shadowProgram := by
  refine ⟨fun w word => ?_, fun n w i t fetched decoded target => ?_, ?_, ?_⟩
  · rw [mem_singleton.mp word]
    refine ⟨.opImm .addi 17 0 5, by decide, .inl (by decide), fun r named => ?_⟩
    revert named
    revert r
    decide
  · rw [decode_shadowProgram (mem_of_getElem? fetched) decoded] at target
    cases target
  · rintro ⟨⟨w, word, i, decoded, named⟩, -⟩
    rw [decode_shadowProgram word decoded] at named
    exact absurd named (by decide)
  · rintro ⟨⟨w, word, i, decoded, named⟩, -⟩
    rw [decode_shadowProgram word decoded] at named
    exact absurd named (by decide)

theorem quiet_fresh (rom : List Word) : (Cpu.new.loadRom rom).Quiet := ⟨rfl, rfl, fun h => h.1 rfl⟩

/-- The simulation at work on a program that spills `x17`. -/
theorem shadowProgram_simulates :
    ∃ c', Reaches Cpu.step? (Cpu.new.loadRom shadowRom) c' ∧ c'.state.pc = 7 ∧
      c'.ram.cell SPILL_X17 = 5 := by
  have run : stepN (safeStep shadowProgram (Cpu.new.loadRom shadowRom).ram.len) 1 freshState =
      some ((opImm .addi 17 0 5).exec freshState) := rfl
  have accepted : translateProgramWithMap shadowProgram = .ok (shadowRom, [0, 7]) := rfl
  obtain ⟨c', reached, pc, holds, -⟩ := translated_program_simulates accepted
    supported_shadowProgram (by decide) (by decide) (quiet_fresh shadowRom) rfl rfl rfl
    (holds_fresh _ shadowRom) 1 run
  exact ⟨c', reached, (Option.some.inj pc).symm, holds.x17⟩

/-- The shadow of `x17` is the register of `x3`: the same run does not keep
every mapped register equal to its RV32 value. -/
theorem shadowed_register_lost :
    ∃ (program rom rv2mbc : List Word) (c : Cpu) (s s' : State) (n : Nat),
      translateProgramWithMap program = .ok (rom, rv2mbc) ∧ Supported program ∧ c.Quiet ∧
      c.rom = rom ∧ s.pc.toNat % 4 = 0 ∧ rv2mbc[s.pc.toNat / 4]? = some c.state.pc ∧
      Holds (fun _ => False) s c.data ∧ stepN (safeStep program c.ram.len) n s = some s' ∧
      ¬ ∃ c', Reaches step? c c' ∧ rv2mbc[s'.pc.toNat / 4]? = some c'.state.pc ∧
        Holds (fun _ => False) s' c'.data := by
  refine ⟨shadowProgram, shadowRom, [0, 7], Cpu.new.loadRom shadowRom, freshState,
    (opImm .addi 17 0 5).exec freshState, 1, rfl, supported_shadowProgram,
    quiet_fresh shadowRom, rfl, rfl, rfl, holds_fresh _ shadowRom, rfl, ?_⟩
  rintro ⟨c', reached, pc, holds⟩
  have atEnd : c'.state.pc = 7 := (Option.some.inj pc).symm
  have x3 : c'.state.regs 1 = 0 := holds.regs 3 (by decide) (fun h => h)
  have checked := Reaches.check 7 (fun c => !(c.state.pc == 7) || c.state.regs 1 == 5)
    (by decide) (by decide) reached
  rw [atEnd, x3] at checked
  exact absurd checked (by decide)

end Unheaded.Mbc.Translator
