import Unheaded.Mbc.Core
import Unheaded.Mbc.TranslatorFields

/-!
# What the emitted words compute

One lemma per emitter.
-/

namespace Unheaded.Mbc.Translator

open Lib Option Function Data MbcInsn

/-- The state after an expansion that computes `v` into `rd`. -/
def written (x : Data) (rd : Reg) (v : Word) (f : Byte) : Data where
  regs := update (update x.regs rd v) 0 0
  flags := f
  ram := x.ram

variable {x : Data} {o skip : Opcode}

theorem exec_emit_alu {d s : Reg} {i : Half} {v : Word} {f : Byte}
    (result : alu o (x.regs d) (x.regs s) i x.flags = some (v, f)) :
    x.exec (emit o d s i) = some { x.setReg d v with flags := f } := by
  rw [exec, emit, opcode?_encode]
  dsimp only
  rw [dst_encode, src_encode, imm16_encode, result]

theorem exec_movi (x : Data) (d s : Reg) (i : Half) :
    x.exec (emit .movi d s i) = some (x.setReg d (i.setWidth 32)) :=
  exec_emit_alu rfl

theorem exec_mov (x : Data) (d s : Reg) (i : Half) :
    x.exec (emit .mov d s i) = some (x.setReg d (x.regs s)) :=
  exec_emit_alu rfl

theorem exec_loadImm32 (x : Data) (d s : Reg) (i : Half) : x.exec (emit .loadImm32 d s i) =
      some (x.setReg d ((i.setWidth 32 <<< 16) ||| (x.regs d &&& 0xFFFF))) :=
  exec_emit_alu rfl

theorem exec_cmp (x : Data) (d s : Reg) (i : Half) : x.exec (emit .cmp d s i) = some { x with
      flags := resultFlags (x.regs d - x.regs s) (subBorrow (x.regs d) (x.regs s)) } := by
  rw [exec_emit_alu rfl]
  simp [setReg]

theorem mapRegister_eq_zero : ∀ r : BitVec 5, mapRegister r = 0 ↔ r = 0 := by decide

theorem setReg_zero (zero : x.regs 0 = 0) : x.setReg 0 0 = x := by
  rw [setReg, ← zero, update_eq_self]

theorem line_guardZeroSrc (zero : x.regs 0 = 0) (rs : BitVec 5) :
    line (guardZeroSrc rs (mapRegister rs)) x = some x := by
  rw [guardZeroSrc]
  split
  next isZero =>
    rw [(mapRegister_eq_zero rs).mpr isZero, line, exec_movi]
    exact congrArg some (setReg_zero zero)
  next => rfl

theorem line_guardZeroDst (zero : x.regs 0 = 0) (rd : BitVec 5) (v : Word) (f : Byte) :
    line (guardZeroDst rd) { x.setReg (mapRegister rd) v with flags := f } =
      some (written x (mapRegister rd) v f) := by
  rw [guardZeroDst]
  split
  next =>
    rw [line]
    rfl
  next nonzero =>
    have other : mapRegister rd ≠ 0 := fun h => nonzero ((mapRegister_eq_zero rd).mp h)
    have same : update (update x.regs (mapRegister rd) v) 0 0 =
        update x.regs (mapRegister rd) v := by
      rw [update_eq_self_iff, update_of_ne (Ne.symm other), zero]
    rw [written, same]
    rfl

theorem line_guardZeroDst_written (x : Data) (rd : BitVec 5) (d : Reg) (v : Word) (f : Byte) :
    line (guardZeroDst rd) (written x d v f) = some (written x d v f) := by
  rw [guardZeroDst]
  split
  next =>
    rw [line, exec_movi]
    have zero : (written x d v f).regs 0 = 0 := by simp [written]
    exact congrArg some (setReg_zero zero)
  next => rfl

/-- An ALU opcode that computes `fn`, whatever the immediate and the flags. -/
def Computes (o : Opcode) (fn : Word → Word → Word) : Prop :=
  ∀ a b i f, ∃ f', alu o a b i f = some (fn a b, f')

variable {fn : Word → Word → Word}

theorem Computes.exec (computes : Computes o fn) (x : Data) (d s : Reg) (i : Half) :
    ∃ f, x.exec (emit o d s i) =
      some { x.setReg d (fn (x.regs d) (x.regs s)) with flags := f } := by
  obtain ⟨f, result⟩ := computes (x.regs d) (x.regs s) i x.flags
  exact ⟨f, exec_emit_alu result⟩

theorem line_scratch (computes : Computes o fn) (d s1 : Reg) :
    ∃ f, line [emit .mov 0 s1 0, emit o 0 d 0, emit .mov d 0 0, emit .movi 0 0 0] x =
      some (written x d (fn (x.regs s1) (x.regs d)) f) := by
  obtain ⟨f, second⟩ := computes.exec (x.setReg 0 (x.regs s1)) 0 d 0
  refine ⟨f, ?_⟩
  rw [line, exec_mov, bind_some, line, second, bind_some, line,
    exec_mov, bind_some, line, exec_movi, bind_some, line, written]
  by_cases zero : d = 0
  · subst zero
    simp [setReg]
  · simp only [setReg, update_of_ne zero, update_idem]
    rw [update_comm (Ne.symm zero), update_idem]
    rfl

theorem block_rTypeOp {commutative : Bool} (computes : Computes o fn)
    (comm : commutative = true → ∀ a b, fn a b = fn b a) (zero : x.regs 0 = 0) (rd : BitVec 5)
    (s1 s2 : Reg) :
    ∃ f, line (emitRTypeOp o (mapRegister rd) s1 s2 commutative ++ guardZeroDst rd) x =
      some (written x (mapRegister rd) (fn (x.regs s1) (x.regs s2)) f) := by
  rw [emitRTypeOp, line_append]
  split
  next alias_ =>
    obtain ⟨same, -⟩ := alias_
    split
    next isComm =>
      obtain ⟨f, run⟩ := computes.exec x (mapRegister rd) s1 0
      refine ⟨f, ?_⟩
      rw [line, run, comm isComm]
      rw [← same]
      exact line_guardZeroDst zero rd _ f
    next =>
      obtain ⟨f, run⟩ := line_scratch (x := x) computes (mapRegister rd) s1
      refine ⟨f, ?_⟩
      rw [run, bind_some, line_guardZeroDst_written, same]
  next apart =>
    obtain ⟨f, run⟩ := computes.exec (x.setReg (mapRegister rd) (x.regs s1)) (mapRegister rd) s2 0
    refine ⟨f, ?_⟩
    have second : (x.setReg (mapRegister rd) (x.regs s1)).regs s2 = x.regs s2 := by
      by_cases same : s2 = mapRegister rd
      · subst same
        have first : mapRegister rd = s1 := by
          by_contra other
          exact apart ⟨rfl, other⟩
        rw [regs_setReg_self, first]
      · exact regs_setReg_of_ne x same _
    rw [line, exec_mov, bind_some, line, run, bind_some, line, second]
    have merged := line_guardZeroDst zero rd (fn (x.regs s1) (x.regs s2)) f
    simpa [setReg] using merged

theorem line_load32 (x : Data) (d : Reg) (v : Word) :
    ∃ f, line (emitLoad32 d v) x = some { x.setReg d v with flags := f } := by
  rw [emitLoad32]
  rw [setWidth_mask_half, setWidth_mask_half]
  split
  next small =>
    refine ⟨x.flags, ?_⟩
    rw [line, exec_movi, setWidth_half_of_le small]
    rfl
  next =>
    split
    next low =>
      have value : ((v >>> 16).setWidth 16).setWidth 32 <<< 16 = v := by
        have parts := high_or_low v
        rw [low] at parts
        simpa using parts
      refine ⟨resultFlags v false, ?_⟩
      rw [line, exec_movi, bind_some, line, exec_emit_alu (v := v)
        (f := resultFlags v false)]
      · simp [setReg, line]
      · rw [regs_setReg_self]
        change some (flagged (((v >>> 16).setWidth 16).setWidth 32 <<< 16) false) = _
        rw [value]
        rfl
    next =>
      refine ⟨x.flags, ?_⟩
      rw [line, exec_movi, bind_some, line, exec_loadImm32, regs_setReg_self]
      have low := half_and_mask (v.setWidth 16)
      simp only [setReg, update_idem, bind_some, line]
      rw [low, high_or_low]

theorem line_immediate (x : Data) (i : BitVec 12) : ∃ f, line (emitImmediate (i.signExtend 32)) x =
      some { x.setReg 0 (i.signExtend 32) with flags := f } := by
  rw [emitImmediate]
  split
  next small =>
    refine ⟨x.flags, ?_⟩
    rw [line, exec_movi, setWidth_half_of_le (toNat_le_of_toInt small.1 small.2)]
    rfl
  next => exact line_load32 x 0 _

theorem line_logicImm (computes : Computes o fn) (rd : BitVec 5) (s1 : Reg) (i : BitVec 12) :
    ∃ f, line (emitLogicImm o (mapRegister rd) s1 (i.signExtend 32) ++ guardZeroDst rd) x =
      some (written x (mapRegister rd) (fn (x.regs s1) (i.signExtend 32)) f) := by
  obtain ⟨f₁, loaded⟩ := line_immediate (x.setReg (mapRegister rd) (x.regs s1)) i
  obtain ⟨f₂, computed⟩ := computes.exec
    { (x.setReg (mapRegister rd) (x.regs s1)).setReg 0 (i.signExtend 32) with flags := f₁ }
    (mapRegister rd) 0 0
  refine ⟨f₂, ?_⟩
  rw [line_append, emitLogicImm, line_append, line_append, line, exec_mov,
    bind_some, line, bind_some, loaded, bind_some, line, computed,
    bind_some, line, exec_movi, bind_some, line]
  have final := line_guardZeroDst_written x rd (mapRegister rd)
    (fn (x.regs s1) (i.signExtend 32)) f₂
  convert final using 2
  by_cases zero : mapRegister rd = 0
  · simp [written, setReg, zero]
  · simp only [setReg, update_self, update_of_ne zero]
    rw [update_comm (Ne.symm zero), update_idem, update_idem]
    rfl

theorem line_addImm (zero : x.regs 0 = 0) (rd : BitVec 5) (s1 : Reg) (i : BitVec 12) :
    ∃ f, line (emitAddImm (mapRegister rd) s1 (i.signExtend 32) ++ guardZeroDst rd) x =
      some (written x (mapRegister rd) (x.regs s1 + i.signExtend 32) f) := by
  rw [line_append, emitAddImm, line_append, line, exec_mov, bind_some,
    line, bind_some]
  split
  next =>
    refine ⟨resultFlags (x.regs s1 + i.signExtend 32) (addCarry (x.regs s1) (i.signExtend 32)), ?_⟩
    rw [if_pos (signExtend12_range i), line, exec_emit_alu rfl, bind_some, line, signExtend_through_half]
    have final := line_guardZeroDst zero rd (x.regs s1 + i.signExtend 32)
      (resultFlags (x.regs s1 + i.signExtend 32) (addCarry (x.regs s1) (i.signExtend 32)))
    simpa [setReg] using final
  next none_ =>
    rw [not_not] at none_
    refine ⟨x.flags, ?_⟩
    have same : x.regs s1 + 0 = x.regs s1 := BitVec.add_zero _
    rw [none_, same]
    exact line_guardZeroDst zero rd _ x.flags

theorem line_shiftImm {g : Word → Word} {m : Word}
    (computes : ∀ a b f, ∃ f', alu o a b ((m &&& 0x1F).setWidth 16) f = some (g a, f'))
    (zero : x.regs 0 = 0) (rd : BitVec 5) (s1 : Reg) :
    ∃ f, line (emitShiftImm o (mapRegister rd) s1 m ++ guardZeroDst rd) x =
      some (written x (mapRegister rd) (g (x.regs s1)) f) := by
  obtain ⟨f, result⟩ := computes (x.regs s1)
    ((x.setReg (mapRegister rd) (x.regs s1)).regs 0) x.flags
  refine ⟨f, ?_⟩
  have second : (x.setReg (mapRegister rd) (x.regs s1)).exec
      (emit o (mapRegister rd) 0 ((m &&& 0x1F).setWidth 16)) =
        some { x.setReg (mapRegister rd) (g (x.regs s1)) with flags := f } := by
    rw [exec_emit_alu (v := g (x.regs s1)) (f := f)]
    · simp [setReg]
    · rw [regs_setReg_self]
      exact result
  rw [line_append, emitShiftImm, line, exec_mov, bind_some, line, second]
  exact line_guardZeroDst zero rd _ f

theorem branchOffset_one (o : Opcode) : branchOffset (emit o 0 0 1) = 1 := by
  rw [emit, branchOffset, encode_eq_encodeBranch, branchRaw_encodeBranch]
  decide

variable {taken : Bool}

theorem block_setLess (zero : x.regs 0 = 0) (branch : branchTaken skip x.flags = some taken)
    (rd : BitVec 5) : Core.Block (emitSetLess skip (mapRegister rd) ++ guardZeroDst rd) x
      (written x (mapRegister rd) (if taken then 0 else 1) x.flags) := by
  have cleared : Core.Block [emit .movi (mapRegister rd) 0 0] x (x.setReg (mapRegister rd) 0) :=
    Core.Block.ofLine (by rw [line, exec_movi]; rfl)
  have skipped := Core.Block.skipOne (x := x.setReg (mapRegister rd) 0)
    (w := emit skip 0 0 1) (opcode?_encode 0 0 1 skip) (branchOffset_one skip) branch
    (exec_movi _ (mapRegister rd) 0 1)
  have chosen : (if taken then x.setReg (mapRegister rd) 0
      else (x.setReg (mapRegister rd) 0).setReg (mapRegister rd) ((1 : Half).setWidth 32)) =
        { x.setReg (mapRegister rd) (if taken then 0 else 1) with flags := x.flags } := by
    cases taken <;> simp [setReg]
  rw [chosen] at skipped
  have guarded := Core.Block.ofLine (line_guardZeroDst zero rd (if taken then 0 else 1) x.flags)
  exact (cleared.append skipped).append guarded

def compared (x : Data) (a b : Word) : Data :=
  { x with flags := resultFlags (a - b) (subBorrow a b) }

theorem block_compare (zero : x.regs 0 = 0) (rd : BitVec 5) (s1 s2 : Reg)
    (branch : branchTaken skip (compared x (x.regs s1) (x.regs s2)).flags = some taken) :
    ∃ f, Core.Block ([emit .cmp s1 s2 0] ++ emitSetLess skip (mapRegister rd) ++ guardZeroDst rd)
      x (written x (mapRegister rd) (if taken then 0 else 1) f) := by
  refine ⟨(compared x (x.regs s1) (x.regs s2)).flags, ?_⟩
  have compare : Core.Block [emit .cmp s1 s2 0] x (compared x (x.regs s1) (x.regs s2)) :=
    Core.Block.ofLine (by rw [line, exec_cmp]; rfl)
  have set := block_setLess (x := compared x (x.regs s1) (x.regs s2)) zero branch rd
  exact compare.append set

theorem block_compareImm (zero : x.regs 0 = 0) (rd : BitVec 5) (s1 : Reg) (imm : Word)
    (branch : branchTaken skip (compared x ((x.setReg 0 imm).regs s1) imm).flags = some taken) :
    ∃ f, Core.Block (emitSetLessImm skip (mapRegister rd) s1 imm ++ guardZeroDst rd)
      x (written x (mapRegister rd) (if taken then 0 else 1) f) := by
  refine ⟨(compared x ((x.setReg 0 imm).regs s1) imm).flags, ?_⟩
  obtain ⟨f, loaded⟩ := line_load32 x 0 imm
  have compare : Core.Block (emitLoad32 0 imm ++ [emit .cmp s1 0 0, emit .movi 0 0 0]) x
      (compared x ((x.setReg 0 imm).regs s1) imm) := by
    apply Core.Block.ofLine
    rw [line_append, loaded, bind_some, line, exec_cmp, bind_some,
      line, exec_movi, bind_some, line]
    have restored : 0#32 = x.regs 0#4 := zero.symm
    simp [setReg, compared, restored]
  have set := block_setLess (x := compared x ((x.setReg 0 imm).regs s1) imm) zero branch rd
  rw [emitSetLessImm, List.append_assoc]
  exact compare.append set

theorem imm16Signed_emit (o : Opcode) (d s : Reg) (i : Half) :
    imm16Signed (emit o d s i) = i.signExtend 32 := by
  rw [imm16Signed, emit, imm16_encode]

theorem exec_emit_access {d s : Reg} {i : Half} {a : Nat} (noAlu : ∀ b c f, alu o b c i f = none)
    (address : x.touched o (emit o d s i) = some a) (plain : PlainWord (a >>> 2)) :
    x.exec (emit o d s i) = some (x.access o (emit o d s i) a) := by
  rw [exec]
  have op : opcode? (emit o d s i) = some o := opcode?_encode d s i o
  have imm : imm16 (emit o d s i) = i := imm16_encode o.toByte d s i
  rw [op]
  dsimp only
  rw [imm, noAlu, address]
  exact if_pos plain

section Access

variable {x : Data} {d s : Reg} {i : Half} {a : Nat}

theorem touched_load (o : Opcode) (kind : o = .ld ∨ o = .ldb ∨ o = .ldh)
    (address : (x.regs s + i.signExtend 32).toNat = a) : x.touched o (emit o d s i) = some a := by
  have src : src (emit o d s i) = s := src_encode o.toByte d s i
  rcases kind with rfl | rfl | rfl <;>
    · rw [touched, src, imm16Signed_emit, address]

theorem touched_store (o : Opcode) (kind : o = .st ∨ o = .stb ∨ o = .sth)
    (address : (x.regs d + i.signExtend 32).toNat = a) : x.touched o (emit o d s i) = some a := by
  have dst : dst (emit o d s i) = d := dst_encode o.toByte d s i
  rcases kind with rfl | rfl | rfl <;>
    · rw [touched, dst, imm16Signed_emit, address]

variable (plain : PlainWord (a >>> 2))
include plain

section

variable (address : (x.regs s + i.signExtend 32).toNat = a)
include address

theorem exec_ld : x.exec (emit .ld d s i) = some (x.setReg d (x.word a)) := by
  rw [exec_emit_access (fun _ _ _ => rfl) (touched_load .ld (.inl rfl) address) plain, access]
  simp [emit]

theorem exec_ldb : x.exec (emit .ldb d s i) = some (x.setReg d ((x.byte a).setWidth 32)) := by
  rw [exec_emit_access (fun _ _ _ => rfl) (touched_load .ldb (.inr (.inl rfl)) address) plain,
    access]
  simp [emit]

theorem exec_ldh : x.exec (emit .ldh d s i) = some (x.setReg d ((x.half a).setWidth 32)) := by
  rw [exec_emit_access (fun _ _ _ => rfl) (touched_load .ldh (.inr (.inr rfl)) address) plain,
    access]
  simp [emit]

end

variable (address : (x.regs d + i.signExtend 32).toNat = a)
include address

theorem exec_st : x.exec (emit .st d s i) = some (x.putWord a (x.regs s)) := by
  rw [exec_emit_access (fun _ _ _ => rfl) (touched_store .st (.inl rfl) address) plain, access]
  simp [emit]

theorem exec_stb : x.exec (emit .stb d s i) = some (x.putByte a ((x.regs s).setWidth 8)) := by
  rw [exec_emit_access (fun _ _ _ => rfl) (touched_store .stb (.inr (.inl rfl)) address) plain,
    access]
  simp [emit]

theorem exec_sth : x.exec (emit .sth d s i) = some (x.putHalf a ((x.regs s).setWidth 16)) := by
  rw [exec_emit_access (fun _ _ _ => rfl) (touched_store .sth (.inr (.inr rfl)) address) plain,
    access]
  simp [emit]

end Access

end Unheaded.Mbc.Translator
