import Unheaded.Mbc.TranslatorExpand

/-!
# The relation between RV32 states and translated states

`x1` to `x15` live in their mapped registers, `x16` and `x17` in two spill words, and every other
byte of RAM is RV32 memory.
-/

namespace Unheaded.Mbc.Translator

open Lib Rv32 Option Function Data Store

/-- The RAM word that holds `x16`. -/
def SPILL_X16 : Nat := 0x64000 >>> 2
/-- The RAM word that holds `x17`. -/
def SPILL_X17 : Nat := 0x64004 >>> 2

/-- The RV32 state `s` is held by `x`; the registers in `exempt` are not. -/
structure Holds (exempt : XReg → Prop) (s : State) (x : Data) : Prop where
  zero : x.regs 0 = 0
  regs : ∀ r : XReg, r.toNat < 16 → ¬ exempt r → mapped x r = s.x r
  room : SPILL_X17 < x.ram.len
  x16 : x.ram.cell SPILL_X16 = s.x 16
  x17 : x.ram.cell SPILL_X17 = s.x 17
  mem : ∀ a : Word, a.toNat >>> 2 < x.ram.len → a.toNat >>> 2 ≠ SPILL_X16 →
    a.toNat >>> 2 ≠ SPILL_X17 → s.mem a = x.byte a.toNat

variable {x : Data}

theorem Holds.withPc {exempt : XReg → Prop} {s : State} (holds : Holds exempt s x) (pc : Word) :
    Holds exempt { s with pc := pc } x :=
  ⟨holds.zero, holds.regs, holds.room, holds.x16, holds.x17, holds.mem⟩

theorem Holds.withFlags {exempt : XReg → Prop} {s : State} (holds : Holds exempt s x) (f : Byte) :
    Holds exempt s { x with flags := f } :=
  ⟨holds.zero, holds.regs, holds.room, holds.x16, holds.x17, holds.mem⟩

theorem mapRegister_injective : ∀ r q : XReg, r.toNat < 16 → q.toNat < 16 →
    mapRegister r = mapRegister q → r = q := by
  decide

theorem mapRegister_eq_two : ∀ r : XReg, r.toNat < 16 → mapRegister r = 2 → r = 4 := by decide

theorem mapRegister_eq_one : ∀ r : XReg, r.toNat < 16 → mapRegister r = 1 → r = 3 := by decide

theorem lt_sixteen_or : ∀ r : XReg, r.toNat < 18 → r.toNat < 16 ∨ r = 16 ∨ r = 17 := by decide

theorem line_spillAddress (x : Data) (low : Half) :
    line [emit .movi 0 0 low, emit .loadImm32 0 0 0x0006] x =
      some (x.setReg 0 (0x60000 ||| low.setWidth 32)) := by
  have mask := half_and_mask low
  rw [line, exec_movi, bind_some, line, exec_loadImm32, regs_setReg_self, mask]
  simp only [setReg, update_idem]
  rfl

theorem toNat_spillAddress (x : Data) (low : Half) :
    ((x.setReg 0 (0x60000 ||| low.setWidth 32)).regs 0 + (0 : Half).signExtend 32).toNat =
      (0x60000 ||| low.setWidth 32 : Word).toNat := by
  simp

section

variable {shadow : Reg} {low : Half} {a : Nat} (zero : x.regs 0 = 0) (other : shadow ≠ 0)
  (address : (0x60000 ||| low.setWidth 32 : Word).toNat >>> 2 = a) (plain : PlainWord a)
include zero other address plain

theorem line_spillLoad (room : a < x.ram.len) :
    line (spillLoad shadow low) x = some (x.setReg shadow (x.ram.cell a)) := by
  change line ([emit .movi 0 0 low, emit .loadImm32 0 0 0x0006] ++
    [emit .ld shadow 0 0, emit .movi 0 0 0]) x = _
  rw [line_append, line_spillAddress, bind_some, line,
    exec_ld (by rw [address]; exact plain) (toNat_spillAddress x low), bind_some, line,
    exec_movi, bind_some, line, word, address, ram_setReg,
    getD_of_lt _ room]
  simp only [setReg]
  rw [update_comm (Ne.symm other), update_idem]
  have restored : update (update x.regs shadow (x.ram.cell a)) 0
      ((0 : Half).setWidth 32) = update x.regs shadow (x.ram.cell a) := by
    rw [update_eq_self_iff, update_of_ne (Ne.symm other), zero]
    rfl
  rw [restored]

theorem line_spillStore :
    line (spillStore shadow low) x = some { x with ram := x.ram.set a (x.regs shadow) } := by
  change line ([emit .movi 0 0 low, emit .loadImm32 0 0 0x0006] ++
    [emit .st 0 shadow 0, emit .movi 0 0 0]) x = _
  rw [line_append, line_spillAddress, bind_some, line,
    exec_st (by rw [address]; exact plain) (toNat_spillAddress x low), bind_some, line,
    exec_movi, bind_some, line, regs_setReg_of_ne _ other]
  have restored : update (update x.regs 0 (0x60000 ||| low.setWidth 32)) 0
      ((0 : Half).setWidth 32) = x.regs := by
    rw [update_idem, update_eq_self_iff, zero]
    rfl
  simp only [putWord, setReg, restored, address]

end

section

variable {exempt : XReg → Prop} {s : State} {x : Data} {w : Word}

variable {q r rd : XReg}

section

variable (holds : Holds exempt s x)
include holds

theorem Holds.setShadow {shadow : Reg} (isExempt : exempt q)
    (other : shadow ≠ 0) (only : ∀ r : XReg, r.toNat < 16 → mapRegister r = shadow → r = q)
    (v : Word) : Holds exempt s (x.setReg shadow v) := by
  refine ⟨?_, fun r small visible => ?_, holds.room, holds.x16, holds.x17, holds.mem⟩
  · rw [regs_setReg_of_ne _ (Ne.symm other), holds.zero]
  · have apart : mapRegister r ≠ shadow := fun same =>
      visible (only r small same ▸ isExempt)
    rw [mapped, regs_setReg_of_ne _ apart]
    exact holds.regs r small visible

theorem Holds.spillLoad16 : line (spillLoad 2 0x4000) x = some (x.setReg 2 (s.x 16)) := by
  rw [← holds.x16]
  exact line_spillLoad holds.zero (by decide) rfl (by decide) (Nat.lt_trans (by decide) holds.room)

theorem Holds.spillLoad17 : line (spillLoad 1 0x4004) x = some (x.setReg 1 (s.x 17)) := by
  rw [← holds.x17]
  exact line_spillLoad holds.zero (by decide) rfl (by decide) holds.room

theorem Holds.spillLoads (exempt4 : isSrc w 16 = true → exempt 4) (exempt3 : isSrc w 17 = true → exempt 3) :
    ∃ x', line (spillLoads w) x = some x' ∧ Holds exempt s x' ∧ x'.ram = x.ram ∧
      ∀ r : XReg, r.toNat < 18 → isSrc w r = true → (r.toNat < 16 → ¬ exempt r) →
        mapped x' r = s.x r := by
  obtain ⟨y, first, holdsY, ramY, loaded16⟩ :
      ∃ y, line (if isSrc w 16 then spillLoad 2 0x4000 else []) x = some y ∧
        Holds exempt s y ∧ y.ram = x.ram ∧ (isSrc w 16 = true → y.regs 2 = s.x 16) := by
    by_cases source : isSrc w 16 = true
    · rw [if_pos source]
      exact ⟨_, holds.spillLoad16, holds.setShadow (exempt4 source) (by decide)
        mapRegister_eq_two _, rfl, fun _ => regs_setReg_self _ _ _⟩
    · rw [if_neg source]
      exact ⟨x, rfl, holds, rfl, fun h => absurd h source⟩
  obtain ⟨z, second, holdsZ, ramZ, loaded17, kept⟩ :
      ∃ z, line (if isSrc w 17 then spillLoad 1 0x4004 else []) y = some z ∧
        Holds exempt s z ∧ z.ram = y.ram ∧ (isSrc w 17 = true → z.regs 1 = s.x 17) ∧
        z.regs 2 = y.regs 2 := by
    by_cases source : isSrc w 17 = true
    · rw [if_pos source]
      exact ⟨_, holdsY.spillLoad17, holdsY.setShadow (exempt3 source) (by decide)
        mapRegister_eq_one _, rfl, fun _ => regs_setReg_self _ _ _,
        regs_setReg_of_ne _ (by decide) _⟩
    · rw [if_neg source]
      exact ⟨y, rfl, holdsY, rfl, fun h => absurd h source, rfl⟩
  refine ⟨z, ?_, holdsZ, ramZ.trans ramY, fun r small source visible => ?_⟩
  · rw [Translator.spillLoads, line_append, first]
    exact second
  · rcases lt_sixteen_or r small with low | rfl | rfl
    · exact holdsZ.regs r low (visible low)
    · exact kept.trans (loaded16 source)
    · exact loaded17 source

end

theorem State.set_x (s : State) (r q : XReg) (v : Word) :
    (s.set r v).x q = if q = r ∧ r ≠ 0 then v else s.x q := by
  unfold State.set
  by_cases zero : r = 0
  · rw [dif_pos zero, if_neg (fun h => h.2 zero)]
  · rw [dif_neg zero]
    by_cases same : q = r
    · subst same
      rw [if_pos ⟨rfl, zero⟩]
      exact update_self q v s.x
    · rw [if_neg (fun h => same h.1)]
      exact update_of_ne same v s.x

theorem State.set_mem (s : State) (r : XReg) (v : Word) : (s.set r v).mem = s.mem := by
  unfold State.set
  split <;> rfl

theorem State.set_pc (s : State) (r : XReg) (v : Word) : (s.set r v).pc = s.pc := by
  unfold State.set
  split <;> rfl

theorem mapped_written (x : Data) (rd r : XReg) (v : Word) (f : Byte) (r0 : x.regs 0 = 0) :
    mapped (written x (mapRegister rd) v f) r =
      if mapRegister r = mapRegister rd ∧ rd ≠ 0 then v else mapped x r := by
  rw [mapped, mapped, written]
  dsimp only
  by_cases isZero : mapRegister r = 0
  · rw [isZero]
    split
    next both =>
      exact absurd ((mapRegister_eq_zero rd).mp both.1.symm) both.2
    next => exact r0.symm
  · rw [update_of_ne isZero]
    by_cases same : mapRegister r = mapRegister rd
    · have nonzero : rd ≠ 0 := by
        rintro rfl
        exact isZero same
      rw [if_pos ⟨same, nonzero⟩, same, update_self]
    · rw [if_neg (fun h => same h.1), update_of_ne same]

theorem mapped_written_low (small : r.toNat < 16) (low : rd.toNat < 16) (v : Word) (f : Byte)
    (r0 : x.regs 0 = 0) (before : mapped x r = s.x r) :
    mapped (written x (mapRegister rd) v f) r = (s.set rd v).x r := by
  rw [mapped_written x rd r v f r0, State.set_x, before]
  by_cases same : r = rd
  · rw [same]
    simp
  · rw [if_neg (fun h => same (mapRegister_injective r rd small low h.1)),
      if_neg (fun h => same h.1)]

theorem Holds.written_low (holds : Holds exempt s x) (low : rd.toNat < 16) (v : Word) (f : Byte) :
    Holds exempt (s.set rd v) (written x (mapRegister rd) v f) := by
  have not16 : (16 : XReg) ≠ rd := by
    rintro rfl
    exact absurd low (by decide)
  have not17 : (17 : XReg) ≠ rd := by
    rintro rfl
    exact absurd low (by decide)
  refine ⟨?_, fun r small visible => ?_, holds.room, ?_, ?_, fun a => ?_⟩
  · simp [written]
  · exact mapped_written_low small low v f holds.zero (holds.regs r small visible)
  · rw [State.set_x, if_neg (fun h => not16 h.1)]
    exact holds.x16
  · rw [State.set_x, if_neg (fun h => not17 h.1)]
    exact holds.x17
  · rw [State.set_mem]
    exact holds.mem a

theorem Holds.setSpill (holds : Holds exempt s x) {a : Nat} (spill : a = SPILL_X16 ∨ a = SPILL_X17)
    (v : Word) : ∀ b : Word, b.toNat >>> 2 < x.ram.len → b.toNat >>> 2 ≠ SPILL_X16 →
      b.toNat >>> 2 ≠ SPILL_X17 → s.mem b = ({ x with ram := x.ram.set a v } : Data).byte b.toNat := by
  intro b inside not16 not17
  have other : b.toNat >>> 2 ≠ a := by
    rcases spill with rfl | rfl
    · exact not16
    · exact not17
  rw [holds.mem b inside not16 not17, byte, byte, word, word, Store.getD,
    Store.getD, Store.len_set, Store.cell_set_of_ne _ other]

theorem shadow_written (x : Data) (high : ¬ rd.toNat < 16) (v : Word) (f : Byte) (r0 : x.regs 0 = 0) :
    (written x (mapRegister rd) v f).regs (mapRegister rd) = v := by
  have nonzero : rd ≠ 0 := by
    rintro rfl
    exact high (by decide)
  exact (mapped_written x rd rd v f r0).trans (if_pos ⟨rfl, nonzero⟩)

variable (holds : Holds exempt s x)
include holds

theorem Holds.mapped_written_high (rd : XReg) (high : ¬ rd.toNat < 16)
    (isExempt : exempt q) (only : ∀ r : XReg, r.toNat < 16 → mapRegister r = mapRegister rd → r = q)
    (v : Word) (f : Byte) (small : r.toNat < 16) (visible : ¬ exempt r) :
    mapped (written x (mapRegister rd) v f) r = (s.set rd v).x r := by
  have apart : mapRegister r ≠ mapRegister rd := fun same =>
    visible (only r small same ▸ isExempt)
  have other : r ≠ rd := by
    rintro rfl
    exact high small
  rw [mapped_written x rd r v f holds.zero, if_neg (fun h => apart h.1), State.set_x,
    if_neg (fun h => other h.1)]
  exact holds.regs r small visible

theorem Holds.written_16 (exempt4 : exempt 4) (v : Word) (f : Byte) :
    ∃ x', line (spillStore 2 0x4000) (written x (mapRegister 16) v f) = some x' ∧
      Holds exempt (s.set 16 v) x' ∧ x'.ram.len = x.ram.len := by
  have r0 : (written x (mapRegister 16) v f).regs 0 = 0 := by simp [written]
  have room : SPILL_X16 < x.ram.len := Nat.lt_trans (by decide) holds.room
  refine ⟨_, line_spillStore r0 (by decide) rfl (by decide), ?_, len_set _ _ _⟩
  refine ⟨r0, fun r small visible => ?_, ?_, ?_, ?_, fun b inside => ?_⟩
  · exact holds.mapped_written_high 16 (by decide) exempt4 mapRegister_eq_two v f small visible
  · rw [len_set]
    exact holds.room
  · exact cell_set_self _ room v
  · rw [State.set_x, ← holds.x17]
    exact cell_set_of_ne _ (by decide) v
  · rw [len_set] at inside
    exact holds.setSpill (.inl rfl) v b inside

theorem Holds.written_17 (exempt3 : exempt 3) (v : Word) (f : Byte) :
    ∃ x', line (spillStore 1 0x4004) (written x (mapRegister 17) v f) = some x' ∧
      Holds exempt (s.set 17 v) x' ∧ x'.ram.len = x.ram.len := by
  have r1 : (written x (mapRegister 17) v f).regs 1 = v :=
    shadow_written x (by decide) v f holds.zero
  have r0 : (written x (mapRegister 17) v f).regs 0 = 0 := by simp [written]
  refine ⟨_, line_spillStore r0 (by decide) rfl (by decide), ?_, len_set _ _ _⟩
  rw [r1]
  refine ⟨r0, fun r small visible => ?_, ?_, ?_, ?_, fun b inside => ?_⟩
  · exact holds.mapped_written_high 17 (by decide) exempt3 mapRegister_eq_one v f small visible
  · rw [len_set]
    exact holds.room
  · rw [State.set_x, if_neg (by decide), ← holds.x16]
    exact cell_set_of_ne _ (by decide) v
  · exact cell_set_self _ holds.room v
  · rw [len_set] at inside
    exact holds.setSpill (.inr rfl) v b inside

theorem Holds.spillStores (small : rd.toNat < 18)
    (destination : ∀ r, isDst w r = (rd == r)) (exempt4 : rd = 16 → exempt 4)
    (exempt3 : rd = 17 → exempt 3) (v : Word) (f : Byte) :
    ∃ x', line (spillStores w) (written x (mapRegister rd) v f) = some x' ∧
      Holds exempt (s.set rd v) x' ∧ x'.ram.len = x.ram.len := by
  rw [Translator.spillStores, destination, destination]
  rcases lt_sixteen_or rd small with low | rfl | rfl
  · have not16 : (rd == 16) = false := by
      rw [beq_eq_false_iff_ne]
      rintro rfl
      exact absurd low (by decide)
    have not17 : (rd == 17) = false := by
      rw [beq_eq_false_iff_ne]
      rintro rfl
      exact absurd low (by decide)
    rw [not16, not17]
    exact ⟨_, rfl, holds.written_low low v f, rfl⟩
  · exact holds.written_16 (exempt4 rfl) v f
  · exact holds.written_17 (exempt3 rfl) v f

end

end Unheaded.Mbc.Translator
