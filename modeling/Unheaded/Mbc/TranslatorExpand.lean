import Mathlib.Tactic.Linarith
import Unheaded.Mbc.TranslatorBlocks

/-!
# What the expansion of an RV32 instruction computes

One lemma per instruction format, for any operand aliasing.
-/

namespace Unheaded.Mbc.Translator

open Lib Rv32 BitVec Option Data Core.Block MbcEmit

theorem setWidth_eq_ofInt (y : BitVec 64) : y.setWidth 32 = BitVec.ofInt 32 y.toInt := by
  apply eq_of_toNat_eq
  rw [toNat_setWidth, toNat_ofInt, toInt_eq_toNat_cond]
  split <;> omega

theorem mulHighSigned_eq (a b : Word) :
    mulHighSigned a b = BitVec.ofInt 32 (a.toInt * b.toInt / 2 ^ 32) := by
  have product : (a.signExtend 64 * b.signExtend 64).toInt = a.toInt * b.toInt := by
    rw [toInt_mul, toInt_signExtend_of_le (by decide), toInt_signExtend_of_le (by decide)]
    have aLow := le_toInt a
    have aHigh := toInt_lt (x := a)
    have bLow := le_toInt b
    have bHigh := toInt_lt (x := b)
    norm_num at aLow aHigh bLow bHigh
    apply Int.bmod_eq_of_le
    · norm_num
      nlinarith
    · norm_num
      nlinarith
  rw [mulHighSigned, setWidth_eq_ofInt, toInt_sshiftRight, product, Int.shiftRight_eq_div_pow]
  rfl

theorem mulHighUnsigned_eq (a b : Word) :
    mulHighUnsigned a b = BitVec.ofNat 32 (a.toNat * b.toNat / 2 ^ 32) := by
  have bound : a.toNat * b.toNat < 2 ^ 64 := by
    calc a.toNat * b.toNat < 2 ^ 32 * 2 ^ 32 := Nat.mul_lt_mul'' a.isLt b.isLt
      _ = 2 ^ 64 := by decide
  have aFits : a.toNat < 2 ^ 64 := Nat.lt_trans a.isLt (by decide)
  have bFits : b.toNat < 2 ^ 64 := Nat.lt_trans b.isLt (by decide)
  apply eq_of_toNat_eq
  rw [mulHighUnsigned, toNat_setWidth, toNat_ushiftRight, toNat_mul,
    toNat_setWidth, toNat_setWidth, toNat_ofNat, Nat.shiftRight_eq_div_pow,
    Nat.mod_eq_of_lt aFits, Nat.mod_eq_of_lt bFits, Nat.mod_eq_of_lt bound]

/-- The expansion of `w` computes `v` into the destination of `w`. -/
def Expands (w pc : Word) (x : Data) (v : Word) : Prop :=
  ∃ ws f, translateInsn? w pc = some (ws.map .concrete) ∧
    Core.Block ws x (written x (mapRegister (rd w)) v f)

def mapped (x : Data) (r : XReg) : Word := x.regs (mapRegister r)

section

variable {w pc : Word} {x : Data} (zero : x.regs 0 = 0)
include zero

theorem block_guards (rs1 rs2 : XReg) :
    Core.Block (guardZeroSrc rs1 (mapRegister rs1) ++ guardZeroSrc rs2 (mapRegister rs2)) x x :=
  (ofLine (line_guardZeroSrc zero rs1)).append
    (ofLine (line_guardZeroSrc zero rs2))

variable {o skip : Opcode} {fn : Word → Word → Word}

theorem expands_op {f : OpFn} {commutative : Bool} (major : opcode w = 0x33)
    (minor : f.code = (funct3 w, funct7 w))
    (row : opRow (f.code.1.setWidth 8) (f.code.2.setWidth 8) = some (o, commutative))
    (computes : Computes o fn) (comm : commutative = true → ∀ a b, fn a b = fn b a) :
    Expands w pc x (fn (mapped x (rs1 w)) (mapped x (rs2 w))) := by
  rw [minor] at row
  obtain ⟨f', run⟩ := block_rTypeOp computes comm zero (rd w)
    (mapRegister (rs1 w)) (mapRegister (rs2 w))
  refine ⟨_, f', ?_, (block_guards zero (rs1 w) (rs2 w)).append (ofLine run)⟩
  have expansion : translateOp w = some (guardZeroSrc (rs1 w) (mapRegister (rs1 w)) ++
        guardZeroSrc (rs2 w) (mapRegister (rs2 w)) ++
        (emitRTypeOp o (mapRegister (rd w)) (mapRegister (rs1 w)) (mapRegister (rs2 w))
          commutative ++ guardZeroDst (rd w))) := by
    rw [translateOp, rvFunct3_eq, rvFunct7_eq, row, rvRd_eq, rvRs1_eq, rvRs2_eq]
    dsimp only
    rw [List.append_assoc]
  rw [translateInsn?, rvOpcode_eq, major]
  exact congrArg (Option.map (List.map concrete)) expansion

theorem expands_compare {f : OpFn} {taken : Bool} (major : opcode w = 0x33)
    (minor : f.code = (funct3 w, funct7 w))
    (noRow : opRow (f.code.1.setWidth 8) (f.code.2.setWidth 8) = none)
    (row : opCompareRow (f.code.1.setWidth 8) (f.code.2.setWidth 8) = some skip)
    (branch : branchTaken skip (compared x (mapped x (rs1 w)) (mapped x (rs2 w))).flags = some taken) :
    Expands w pc x (if taken then 0 else 1) := by
  rw [minor] at row noRow
  obtain ⟨f', run⟩ := block_compare zero (rd w) (mapRegister (rs1 w)) (mapRegister (rs2 w)) branch
  refine ⟨_, f', ?_, (block_guards zero (rs1 w) (rs2 w)).append run⟩
  have expansion : translateOp w = some (guardZeroSrc (rs1 w) (mapRegister (rs1 w)) ++
        guardZeroSrc (rs2 w) (mapRegister (rs2 w)) ++
        ([emit .cmp (mapRegister (rs1 w)) (mapRegister (rs2 w)) 0] ++
          emitSetLess skip (mapRegister (rd w)) ++ guardZeroDst (rd w))) := by
    rw [translateOp, rvFunct3_eq, rvFunct7_eq, noRow, row, rvRd_eq, rvRs1_eq, rvRs2_eq]
    simp only [List.append_assoc]
  rw [translateInsn?, rvOpcode_eq, major]
  exact congrArg (Option.map (List.map concrete)) expansion

variable {words : List Word}

theorem expands_of_opImm {v : Word} {f' : Byte} (major : opcode w = 0x13)
    (row : opImmRow ((funct3 w).setWidth 8) ((funct7 w).setWidth 8) (mapRegister (rd w))
      (mapRegister (rs1 w)) ((immI w).signExtend 32) = some words)
    (run : Core.Block (words ++ guardZeroDst (rd w)) x (written x (mapRegister (rd w)) v f')) :
    Expands w pc x v := by
  refine ⟨_, f', ?_, (ofLine (line_guardZeroSrc zero (rs1 w))).append run⟩
  have expansion : translateOpImm w = some (guardZeroSrc (rs1 w) (mapRegister (rs1 w)) ++
      (words ++ guardZeroDst (rd w))) := by
    rw [translateOpImm, rvRd_eq, rvRs1_eq, rvFunct3_eq, rvFunct7_eq, signExtend12_eq, row,
      map_some, List.append_assoc]
  rw [translateInsn?, rvOpcode_eq, major]
  exact congrArg (Option.map (List.map concrete)) expansion

theorem expands_logicImm {f : ImmFn} (major : opcode w = 0x13) (minor : f.code = funct3 w)
    (row : f = .andi ∧ o = .and ∨ f = .ori ∧ o = .or ∨ f = .xori ∧ o = .xor)
    (computes : Computes o fn) :
    Expands w pc x (fn (mapped x (rs1 w)) ((immI w).signExtend 32)) := by
  obtain ⟨f', run⟩ := line_logicImm (x := x) computes (rd w) (mapRegister (rs1 w)) (immI w)
  refine expands_of_opImm zero major ?_ (ofLine run)
  rw [← minor]
  rcases row with ⟨rfl, rfl⟩ | ⟨rfl, rfl⟩ | ⟨rfl, rfl⟩ <;> rfl

theorem expands_addi (major : opcode w = 0x13) (minor : ImmFn.addi.code = funct3 w) :
    Expands w pc x (mapped x (rs1 w) + (immI w).signExtend 32) := by
  obtain ⟨f', run⟩ := line_addImm zero (rd w) (mapRegister (rs1 w)) (immI w)
  refine expands_of_opImm zero major ?_ (ofLine run)
  rw [← minor]
  rfl

theorem expands_compareImm {f : ImmFn} {taken : Bool} (major : opcode w = 0x13)
    (minor : f.code = funct3 w) (row : f = .slti ∧ skip = .jp ∨ f = .sltiu ∧ skip = .jnc)
    (branch : branchTaken skip
      (compared x (mapped (x.setReg 0 ((immI w).signExtend 32)) (rs1 w))
        ((immI w).signExtend 32)).flags = some taken) :
    Expands w pc x (if taken then 0 else 1) := by
  obtain ⟨f', run⟩ := block_compareImm zero (rd w) (mapRegister (rs1 w))
    ((immI w).signExtend 32) branch
  refine expands_of_opImm zero major ?_ run
  rw [← minor]
  rcases row with ⟨rfl, rfl⟩ | ⟨rfl, rfl⟩ <;> rfl

omit zero in
theorem shamt_immI (w : Word) :
    shamt ((((immI w).signExtend 32 &&& (0x1F : Word)).setWidth 16).setWidth 32) =
      (rs2 w).toNat := by
  have field : ((((immI w).signExtend 32 &&& (0x1F : Word)).setWidth 16).setWidth 32) &&&
      (0x1F : Word) = (rs2 w).setWidth 32 := by
    ext k hk
    interval_cases k <;> simp [immI, rs2, getElem_signExtend]
  rw [shamt, field, toNat_setWidth]
  omega

theorem expands_shiftImm {f : ShiftFn} (major : opcode w = 0x13)
    (minor : f.code = (funct3 w, funct7 w)) :
    Expands w pc x (f.eval (mapped x (rs1 w)) (rs2 w).toNat) := by
  have amount := shamt_immI w
  have fields : funct3 w = f.code.1 ∧ funct7 w = f.code.2 := by
    rw [minor]
    exact ⟨rfl, rfl⟩
  cases f with
  | slli =>
    obtain ⟨f', run⟩ := line_shiftImm (x := x) (o := .shl) (g := fun a => a <<< (rs2 w).toNat)
      (m := (immI w).signExtend 32)
      (fun a b f => ⟨_, by rw [alu, amount]; rfl⟩) zero (rd w) (mapRegister (rs1 w))
    refine expands_of_opImm zero major ?_ (ofLine run)
    rw [fields.1]
    rfl
  | srli =>
    obtain ⟨f', run⟩ := line_shiftImm (x := x) (o := .shr) (g := fun a => a >>> (rs2 w).toNat)
      (m := (immI w).signExtend 32)
      (fun a b f => ⟨_, by rw [alu, amount]; rfl⟩) zero (rd w) (mapRegister (rs1 w))
    refine expands_of_opImm zero major ?_ (ofLine run)
    rw [fields.1, fields.2]
    rfl
  | srai =>
    obtain ⟨f', run⟩ := line_shiftImm (x := x) (o := .sar)
      (g := fun a => a.sshiftRight (rs2 w).toNat) (m := (immI w).signExtend 32)
      (fun a b f => ⟨_, by rw [alu, amount]; rfl⟩) zero (rd w) (mapRegister (rs1 w))
    refine expands_of_opImm zero major ?_ (ofLine run)
    rw [fields.1, fields.2]
    rfl

theorem expands_upper {value : Word} (expansion : translateInsn? w pc =
      some ((translateUpper w value).map .concrete)) : Expands w pc x value := by
  obtain ⟨f, loaded⟩ := line_load32 x (mapRegister (rd w)) value
  have run : line (translateUpper w value) x =
      some (written x (mapRegister (rd w)) value f) := by
    rw [translateUpper, rvRd_eq, line_append, loaded]
    exact line_guardZeroDst zero (rd w) value f
  exact ⟨_, f, expansion, ofLine run⟩

theorem expands_lui (major : opcode w = 0x37) : Expands w pc x ((immU w).setWidth 32 <<< 12) := by
  rw [← upperImm_eq]
  apply expands_upper zero
  rw [translateInsn?, rvOpcode_eq, major]
  rfl

theorem expands_auipc (major : opcode w = 0x17) :
    Expands w pc x (pc + ((immU w).setWidth 32 <<< 12)) := by
  rw [← upperImm_eq]
  apply expands_upper zero
  rw [translateInsn?, rvOpcode_eq, major]
  rfl

omit zero in
theorem line_extend (x : Data) (d : Reg) (i : Half) (v r : Word)
    (result : (v <<< shamt (i.setWidth 32)).sshiftRight (shamt (i.setWidth 32)) = r) :
    line [emit .shl d 0 i, emit .sar d 0 i] (x.setReg d v) =
      some { x.setReg d r with flags := resultFlags r false } := by
  rw [line, exec_emit_alu rfl, bind_some, line, exec_emit_alu rfl, bind_some, line]
  simp [setReg, result]

/-- What a load finds at byte address `a`. -/
def loaded (f : LoadFn) (x : Data) (a : Nat) : Word :=
  match f with
  | .lb => (x.byte a).signExtend 32
  | .lbu => (x.byte a).setWidth 32
  | .lh => (x.half a).signExtend 32
  | .lhu => (x.half a).setWidth 32
  | .lw => x.word a

omit zero in
theorem line_loadRow {f : LoadFn} {d s1 : Reg} {i : Half} {a : Nat}
    (row : loadRow (f.code.setWidth 8) d s1 i = some words)
    (address : (x.regs s1 + i.signExtend 32).toNat = a) (plain : PlainWord (a >>> 2)) :
    ∃ f', line words x = some { x.setReg d (loaded f x a) with flags := f' } := by
  cases f with
  | lb =>
    cases row
    refine ⟨resultFlags ((x.byte a).signExtend 32) false, ?_⟩
    rw [line, exec_ldb plain address]
    exact line_extend x d 24 _ _ (sshiftRight_byte (x.byte a))
  | lh =>
    cases row
    refine ⟨resultFlags ((x.half a).signExtend 32) false, ?_⟩
    rw [line, exec_ldh plain address, bind_some]
    exact line_extend x d 16 _ _ (sshiftRight_half (x.half a))
  | lw =>
    cases row
    refine ⟨x.flags, ?_⟩
    rw [line, exec_ld plain address]
    rfl
  | lbu =>
    cases row
    refine ⟨x.flags, ?_⟩
    rw [line, exec_ldb plain address]
    rfl
  | lhu =>
    cases row
    refine ⟨x.flags, ?_⟩
    rw [line, exec_ldh plain address]
    rfl

theorem expands_load {f : LoadFn} {a : Nat} (major : opcode w = 0x03) (minor : f.code = funct3 w)
    (address : (mapped x (rs1 w) + (immI w).signExtend 32).toNat = a)
    (plain : PlainWord (a >>> 2)) : Expands w pc x (loaded f x a) := by
  have offset : (((immI w).signExtend 32).setWidth 16).signExtend 32 = (immI w).signExtend 32 :=
    signExtend_through_half (immI w)
  obtain ⟨words, row⟩ : ∃ words, loadRow (f.code.setWidth 8) (mapRegister (rd w))
      (mapRegister (rs1 w)) (((immI w).signExtend 32).setWidth 16) = some words := by
    cases f <;> exact ⟨_, rfl⟩
  obtain ⟨f', run⟩ := line_loadRow (x := x) row (by rw [offset]; exact address) plain
  have whole : line (words ++ guardZeroDst (rd w)) x =
      some (written x (mapRegister (rd w)) (loaded f x a) f') := by
    rw [line_append, run]
    exact line_guardZeroDst zero (rd w) _ f'
  refine ⟨_, f', ?_, (ofLine (line_guardZeroSrc zero (rs1 w))).append
    (ofLine whole)⟩
  have expansion : translateLoad w = some (guardZeroSrc (rs1 w) (mapRegister (rs1 w)) ++
      (words ++ guardZeroDst (rd w))) := by
    rw [translateLoad, rvRd_eq, rvRs1_eq, rvFunct3_eq, signExtend12_eq, ← minor, row,
      map_some, List.append_assoc]
  rw [translateInsn?, rvOpcode_eq, major]
  exact congrArg (Option.map (List.map concrete)) expansion

/-- The state after a store of `v` at byte address `a`. -/
def stored (f : StoreFn) (x : Data) (a : Nat) (v : Word) : Data :=
  match f with
  | .sb => x.putByte a (v.setWidth 8)
  | .sh => x.putHalf a (v.setWidth 16)
  | .sw => x.putWord a v

theorem expands_store {f : StoreFn} {a : Nat} (major : opcode w = 0x23) (minor : f.code = funct3 w)
    (address : (mapped x (rs1 w) + (immS w).signExtend 32).toNat = a)
    (plain : PlainWord (a >>> 2)) : ∃ ws, translateInsn? w pc = some (ws.map .concrete) ∧
      Core.Block ws x (stored f x a (mapped x (rs2 w))) := by
  have offset : (((immS w).signExtend 32).setWidth 16).signExtend 32 = (immS w).signExtend 32 :=
    signExtend_through_half (immS w)
  have place : (x.regs (mapRegister (rs1 w)) +
      (((immS w).signExtend 32).setWidth 16).signExtend 32).toNat = a := by
    rw [offset]
    exact address
  obtain ⟨o, row, run⟩ : ∃ o, storeRow (f.code.setWidth 8) = some o ∧
      x.exec (emit o (mapRegister (rs1 w)) (mapRegister (rs2 w))
        (((immS w).signExtend 32).setWidth 16)) = some (stored f x a (mapped x (rs2 w))) := by
    cases f with
    | sb => exact ⟨.stb, rfl, exec_stb plain place⟩
    | sh => exact ⟨.sth, rfl, exec_sth plain place⟩
    | sw => exact ⟨.st, rfl, exec_st plain place⟩
  have store : Core.Block [emit o (mapRegister (rs1 w)) (mapRegister (rs2 w))
      (((immS w).signExtend 32).setWidth 16)] x (stored f x a (mapped x (rs2 w))) := by
    apply ofLine
    rw [line, run]
    rfl
  refine ⟨_, ?_, (block_guards zero (rs1 w) (rs2 w)).append store⟩
  have expansion : translateStore w = some (guardZeroSrc (rs1 w) (mapRegister (rs1 w)) ++
      guardZeroSrc (rs2 w) (mapRegister (rs2 w)) ++
      [emit o (mapRegister (rs1 w)) (mapRegister (rs2 w))
        (((immS w).signExtend 32).setWidth 16)]) := by
    rw [translateStore, rvRs1_eq, rvRs2_eq, rvFunct3_eq, decodeSImm_eq, ← minor, row, map_some]
  rw [translateInsn?, rvOpcode_eq, major]
  exact congrArg (Option.map (List.map concrete)) expansion

theorem expands_branch {f : BranchFn} (major : opcode w = 0x63) (minor : f.code = funct3 w)
    (row : branchRow (f.code.setWidth 8) = some o) : ∃ ws, translateInsn? w pc =
        some (ws.map concrete ++ [branch o (pc + (immB w).signExtend 32)]) ∧
      Core.Block ws x (compared x (mapped x (rs1 w)) (mapped x (rs2 w))) := by
  have compare : Core.Block [emit .cmp (mapRegister (rs1 w)) (mapRegister (rs2 w)) 0] x
      (compared x (mapped x (rs1 w)) (mapped x (rs2 w))) := by
    apply ofLine
    rw [line, exec_cmp]
    rfl
  refine ⟨_, ?_, (block_guards zero (rs1 w) (rs2 w)).append compare⟩
  have expansion : translateBranch w pc = some ((guardZeroSrc (rs1 w) (mapRegister (rs1 w)) ++
      guardZeroSrc (rs2 w) (mapRegister (rs2 w)) ++
      [emit .cmp (mapRegister (rs1 w)) (mapRegister (rs2 w)) 0]).map concrete ++
      [branch o (pc + (immB w).signExtend 32)]) := by
    rw [translateBranch, rvRs1_eq, rvRs2_eq, rvFunct3_eq, decodeBImm_eq, ← minor, row, map_some]
  rw [translateInsn?, rvOpcode_eq, major]
  exact expansion

end

theorem expands_jal {w pc : Word} (major : opcode w = 0x6F) (noLink : rd w = 0) :
    translateInsn? w pc = some [.branch .jmp (pc + (immJ w).signExtend 32)] := by
  have expansion : translateJal w pc = [.branch .jmp (pc + (immJ w).signExtend 32)] := by
    rw [translateJal, rvRd_eq, decodeJImm_eq]
    exact if_pos noLink
  rw [translateInsn?, rvOpcode_eq, major]
  exact congrArg some expansion

end Unheaded.Mbc.Translator
