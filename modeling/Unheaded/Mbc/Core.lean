import Unheaded.Lib.Bytes
import Unheaded.Lib.Runs
import Unheaded.Lib.Layout
import Unheaded.Mbc.Isa

/-!
# The MBC core machine

What every MBC engine is supposed to compute on the non-privileged subset: registers, flags, pc
and plain RAM, and nothing else.
-/

namespace Unheaded.Mbc

open Lib MbcInsn
open BitVec (ofNat)

def resultFlags (result : Word) (carry : Bool) : Byte :=
  Flag.pack (decide (result = 0)) result.msb carry

def flagged (result : Word) (carry : Bool) : Word × Byte := (result, resultFlags result carry)

/-- The register-only instructions: the new destination register and flags
from the old ones, the source register and the immediate. -/
def alu (o : Opcode) (a b : Word) (imm : Half) (flags : Byte) : Option (Word × Byte) :=
  match o with
  | .nop | .fence => some (a, flags)
  | .add => some (flagged (a + b) (addCarry a b))
  | .sub => some (flagged (a - b) (subBorrow a b))
  | .mul => some (flagged (a * b) false)
  | .div => some (if b = 0 then (0xFFFFFFFF, Flag.C) else flagged (a / b) false)
  | .mod => some (if b = 0 then (0, flags) else flagged (a % b) false)
  | .neg => some (flagged (0 - a) (subBorrow 0 a))
  | .and => some (flagged (a &&& b) false)
  | .or => some (flagged (a ||| b) false)
  | .xor => some (flagged (a ^^^ b) false)
  | .not => some (flagged (~~~a) false)
  | .shl => some (flagged (a <<< shamt (imm.setWidth 32)) false)
  | .shr => some (flagged (a >>> shamt (imm.setWidth 32)) false)
  | .sar => some (flagged (a.sshiftRight (shamt (imm.setWidth 32))) false)
  | .shlr => some (flagged (a <<< shamt b) false)
  | .shrr => some (flagged (a >>> shamt b) false)
  | .sarr => some (flagged (a.sshiftRight (shamt b)) false)
  | .mulh => some (flagged (mulHighSigned a b) false)
  | .mulhu => some (flagged (mulHighUnsigned a b) false)
  | .loadImm32 => some ((imm.setWidth 32 <<< 16) ||| (a &&& 0xFFFF), flags)
  | .addi => some (flagged (a + imm.signExtend 32) (addCarry a (imm.signExtend 32)))
  | .mov => some (b, flags)
  | .movi => some (imm.setWidth 32, flags)
  | .cmp => some (a, resultFlags (a - b) (subBorrow a b))
  | _ => none

/-- Whether a relative branch is taken; `none` when the opcode is no branch. -/
def branchTaken (o : Opcode) (flags : Byte) : Option Bool :=
  match o with
  | .jmp => some true
  | .jz => some (flags &&& Flag.Z != 0)
  | .jnz => some (flags &&& Flag.Z == 0)
  | .jn => some (flags &&& Flag.N != 0)
  | .jp => some (flags &&& Flag.N == 0)
  | .jc => some (flags &&& Flag.C != 0)
  | .jnc => some (flags &&& Flag.C == 0)
  | _ => none

theorem sign_bit (v : Word) : decide (v &&& 0x80000000 ≠ 0) = v.msb := by
  have top : v.msb = v[31] := by simp [BitVec.msb_eq_getLsbD_last]
  rw [top]
  cases sign : v[31] with
  | true =>
    apply decide_eq_true
    intro zero
    have bit := congrArg (fun u : Word => u[31]) zero
    simp [sign] at bit
  | false =>
    apply decide_eq_false
    rw [not_not]
    ext k hk
    interval_cases k <;> simp [sign]

theorem and_three (a : Nat) : a &&& 3 = a % 4 := Nat.and_two_pow_sub_one_eq_mod a 2

theorem and_two (a : Nat) : a &&& 2 = 2 * (a / 2 % 2) := by
  apply Nat.eq_of_testBit_eq
  intro i
  rw [Nat.testBit_and]
  match i with
  | 0 => simp
  | 1 => simp [Nat.testBit_succ]
  | i + 2 => simp [Nat.testBit_succ]

theorem toNat_and_three (a : Word) : (a &&& 3).toNat = a.toNat % 4 := by
  exact and_three a.toNat

theorem toNat_and_two (a : Word) : (a &&& 2).toNat = 2 * (a.toNat / 2 % 2) := by
  exact and_two a.toNat

theorem shiftRight_toNat_two (a : Word) : (a >>> 2).toNat = a.toNat >>> 2 := by
  rw [BitVec.toNat_ushiftRight]

/-- The state without the pc. -/
structure Data where
  regs : Reg → Word
  flags : Byte
  ram : Store Word

namespace Data

variable (x : Data)

def setReg (r : Reg) (v : Word) : Data := { x with regs := Function.update x.regs r v }

@[simp] theorem regs_setReg_self (r : Reg) (v : Word) : (x.setReg r v).regs r = v := by
  simp [setReg]

theorem regs_setReg_of_ne {r q : Reg} (h : q ≠ r) (v : Word) :
    (x.setReg r v).regs q = x.regs q := by
  simp [setReg, h]

@[simp] theorem ram_setReg (r : Reg) (v : Word) : (x.setReg r v).ram = x.ram := rfl

/-- The word that holds byte address `a`. -/
def word (a : Nat) : Word := x.ram.getD (a >>> 2) 0

def byte (a : Nat) : Byte := byteOf (x.word a) (a % 4)

def half (a : Nat) : Half := halfOf (x.word a) (a / 2 % 2)

def putWord (a : Nat) (v : Word) : Data := { x with ram := x.ram.set (a >>> 2) v }

def putByte (a : Nat) (v : Byte) : Data :=
  x.putWord a (insertField (x.word a) 0xFF (v.setWidth 32) (a % 4 * 8))

def putHalf (a : Nat) (v : Half) : Data :=
  x.putWord a (insertField (x.word a) 0xFFFF (v.setWidth 32) (2 * (a / 2 % 2) * 8))

theorem shiftRight_two (a : Nat) : a >>> 2 = a / 4 := Nat.shiftRight_eq_div_pow a 2

variable {a : Nat}

variable (x : Data)

theorem byte_putWord (inside : a >>> 2 < x.ram.len) (v : Word) (b : Nat) :
    (x.putWord a v).byte b = if b >>> 2 = a >>> 2 then byteOf v (b % 4) else x.byte b := by
  unfold byte word putWord
  by_cases same : b >>> 2 = a >>> 2
  · rw [if_pos same, same, Store.getD_of_lt _ (by simpa using inside), Store.cell_set_self _ inside]
  · rw [if_neg same, Store.getD, Store.getD, Store.len_set, Store.cell_set_of_ne _ same]

theorem byte_putByte (inside : a >>> 2 < x.ram.len) (v : Byte) (b : Nat) :
    (x.putByte a v).byte b = if b = a then v else x.byte b := by
  rw [putByte, byte_putWord x inside, byteOf_insertByte _ _ _ (Nat.mod_lt b (by decide))]
  rw [shiftRight_two, shiftRight_two]
  by_cases same : b = a
  · rw [if_pos same, if_pos (by rw [same]), if_pos (by rw [same])]
  · split
    next word =>
      have other : ¬ b % 4 = a % 4 := by omega
      rw [if_neg other, byte, Data.word, Data.word, shiftRight_two, shiftRight_two, word]
    next => rfl

theorem byte_putHalf (inside : a >>> 2 < x.ram.len) (even : a % 2 = 0) (v : Half) (b : Nat) :
    (x.putHalf a v).byte b =
      if b = a then v.extractLsb' 0 8
      else if b = a + 1 then v.extractLsb' 8 8 else x.byte b := by
  rw [putHalf, byte_putWord x inside, byteOf_insertHalf _ _ _ (Nat.mod_lt b (by decide))]
  rw [shiftRight_two, shiftRight_two]
  by_cases first : b = a
  · have low : b % 4 % 2 = 0 := by omega
    rw [if_pos first, if_pos (by rw [first]), if_pos (by omega), low]
  · rw [if_neg first]
    by_cases second : b = a + 1
    · have high : b % 4 % 2 = 1 := by omega
      rw [if_pos second, if_pos (by omega), if_pos (by omega), high]
    · split
      next word =>
        have other : ¬ b % 4 / 2 = a / 2 % 2 := by omega
        rw [if_neg other, byte, Data.word, Data.word, shiftRight_two, shiftRight_two, word]
      next => rfl

/-- The byte address a memory instruction touches. -/
def touched (o : Opcode) (w : Word) : Option Nat :=
  match o with
  | .ld | .ldb | .ldh | .xchg => some (x.regs (src w) + imm16Signed w).toNat
  | .st | .stb | .sth => some (x.regs (dst w) + imm16Signed w).toNat
  | .cas => some (x.regs 1).toNat
  | _ => none

/-- The memory instruction `o` at address `a`. -/
def access (o : Opcode) (w : Word) (a : Nat) : Data :=
  let d := dst w
  let value := x.regs (src w)
  match o with
  | .ld => x.setReg d (x.word a)
  | .ldb => x.setReg d ((x.byte a).setWidth 32)
  | .ldh => x.setReg d ((x.half a).setWidth 32)
  | .st => x.putWord a value
  | .stb => x.putByte a (value.setWidth 8)
  | .sth => x.putHalf a (value.setWidth 16)
  | .xchg => (x.putWord a (x.regs d)).setReg d (x.word a)
  | .cas =>
    if x.word a = x.regs 0 then
      { x.putWord a (x.regs 2) with flags := x.flags ||| Flag.Z }.setReg 0 (x.word a)
    else { x with flags := x.flags &&& ~~~Flag.Z }.setReg 0 (x.word a)
  | _ => x

/-- A straight-line instruction: register-only, or a memory access to plain
RAM. -/
def exec (w : Word) : Option Data :=
  match opcode? w with
  | none => some x
  | some o =>
    match alu o (x.regs (dst w)) (x.regs (src w)) (imm16 w) x.flags with
    | some (v, f) => some { x.setReg (dst w) v with flags := f }
    | none =>
      match x.touched o w with
      | some a => if PlainWord (a >>> 2) then some (x.access o w a) else none
      | none => none

variable {w : Word}

theorem exec_alu {x : Data} {o : Opcode} {v : Word} {f : Byte} (op : opcode? w = some o)
    (result : alu o (x.regs (dst w)) (x.regs (src w)) (imm16 w) x.flags = some (v, f)) :
    x.exec w = some { x.setReg (dst w) v with flags := f } := by
  rw [exec, op]
  dsimp only
  rw [result]

theorem exec_access {x : Data} {o : Opcode} (op : opcode? w = some o)
    (address : x.touched o w = some a) (plain : PlainWord (a >>> 2)) :
    x.exec w = some (x.access o w a) := by
  have memory : alu o (x.regs (dst w)) (x.regs (src w)) (imm16 w)
      x.flags = none := by
    cases o <;> first | rfl | cases address
  rw [exec, op]
  dsimp only
  rw [memory, address]
  exact if_pos plain

theorem exec_cases {x x' : Data} (h : x.exec w = some x') : (opcode? w = none ∧ x' = x) ∨
    (∃ o v f, opcode? w = some o ∧
      alu o (x.regs (dst w)) (x.regs (src w)) (imm16 w) x.flags =
        some (v, f) ∧
      x' = { x.setReg (dst w) v with flags := f }) ∨
    (∃ o a, opcode? w = some o ∧ x.touched o w = some a ∧ PlainWord (a >>> 2) ∧
      x' = x.access o w a) := by
  rw [exec] at h
  cases op : opcode? w with
  | none =>
    rw [op] at h
    exact Or.inl ⟨rfl, (Option.some.inj h).symm⟩
  | some o =>
    rw [op] at h
    dsimp only at h
    split at h
    next v f result => exact Or.inr (Or.inl ⟨o, v, f, rfl, result, (Option.some.inj h).symm⟩)
    next =>
      split at h
      next a address =>
        split at h
        next plain =>
          exact Or.inr (Or.inr ⟨o, a, rfl, address, plain, (Option.some.inj h).symm⟩)
        next => cases h
      next => cases h

def line : List Word → Data → Option Data
  | [], x => some x
  | w :: ws, x => (x.exec w).bind (line ws)

theorem line_append (ws vs : List Word) (x : Data) :
    line (ws ++ vs) x = (line ws x).bind (line vs) := by
  induction ws generalizing x with
  | nil => rfl
  | cons w ws ih =>
    rw [List.cons_append, line, line]
    cases x.exec w with
    | none => rfl
    | some y => exact ih y

end Data

/-- The core machine state. -/
structure Core where
  data : Data
  pc : Word

namespace Core

/-- One word, with the pc already past it. -/
def exec (k : Core) (w : Word) : Option Core :=
  match k.data.exec w with
  | some x => some { k with data := x }
  | none =>
    match (opcode? w).bind (branchTaken · k.data.flags) with
    | some true => some { k with pc := k.pc + branchOffset w }
    | some false => some k
    | none => none

variable {k : Core} {w : Word}

theorem exec_cases {k' : Core} (h : k.exec w = some k') :
    (∃ x, k.data.exec w = some x ∧ k' = { k with data := x }) ∨
    (∃ o taken, opcode? w = some o ∧ branchTaken o k.data.flags = some taken ∧
      k' = { k with pc := if taken then k.pc + branchOffset w else k.pc }) := by
  rw [exec] at h
  cases straight : k.data.exec w with
  | some x =>
    rw [straight] at h
    exact Or.inl ⟨x, rfl, (Option.some.inj h).symm⟩
  | none =>
    rw [straight] at h
    cases op : opcode? w with
    | none =>
      simp [op] at h
    | some o =>
      rw [op, Option.bind_some] at h
      cases branch : branchTaken o k.data.flags with
      | none =>
        simp [branch] at h
      | some taken =>
        rw [branch] at h
        refine Or.inr ⟨o, taken, rfl, branch, ?_⟩
        cases taken <;> exact (Option.some.inj h).symm

def step (rom : List Word) (k : Core) : Option Core :=
  match rom[k.pc.toNat]? with
  | none => none
  | some w => ({ k with pc := k.pc + 1 } : Core).exec w

variable {rom : List Word}

theorem step_of_fetch (h : rom[k.pc.toNat]? = some w) :
    step rom k = ({ k with pc := k.pc + 1 } : Core).exec w := by
  rw [step, h]

/-- The core machine at ROM position `p`. -/
def atPos (x : Data) (p : Nat) : Core := ⟨x, ofNat 32 p⟩

variable {x : Data} {p : Nat}

theorem step_atPos (fetch : rom[p]? = some w) (fits : p < 2 ^ 32) :
    step rom (atPos x p) = (atPos x (p + 1)).exec w := by
  have index : (atPos x p).pc.toNat = p := by
    rw [atPos, BitVec.toNat_ofNat, Nat.mod_eq_of_lt fits]
  rw [step_of_fetch (by rw [index]; exact fetch)]
  rw [atPos, atPos, BitVec.ofNat_add]
  rfl

theorem exec_straight (straight : k.data.exec w = some x) :
    k.exec w = some { k with data := x } := by
  rw [exec, straight]

/-- Steps at rising positions, from `p` to `q`. -/
inductive Climbs (rom : List Word) : Data → Nat → Data → Nat → Prop
  | here (x : Data) (p : Nat) : Climbs rom x p x p
  | up {x y z : Data} {p m q : Nat} (one : step rom (atPos x p) = some (atPos y m)) (rises : p < m)
      (rest : Climbs rom y m z q) : Climbs rom x p z q

/-- A pc strictly between two positions. -/
def Between (p q : Nat) (k : Core) : Prop := p < k.pc.toNat ∧ k.pc.toNat < q

namespace Climbs

variable {y z : Data} {m q : Nat}

theorem le (path : Climbs rom x p z q) : p ≤ q := by
  induction path with
  | here => exact Nat.le_refl _
  | up one rises rest ih => exact Nat.le_trans (Nat.le_of_lt rises) ih

theorem trans (first : Climbs rom x p y m) (second : Climbs rom y m z q) : Climbs rom x p z q := by
  induction first with
  | here => exact second
  | up one rises rest ih => exact .up one rises (ih second)

theorem reaches (path : Climbs rom x p z q) : Reaches (step rom) (atPos x p) (atPos z q) := by
  induction path with
  | here => exact Reaches.refl _ _
  | up one rises rest ih => exact Reaches.head one ih

theorem last (path : Climbs rom x p z q) (nonempty : p < q) : ∃ y m, Climbs rom x p y m ∧ m < q ∧
    step rom (atPos y m) = some (atPos z q) := by
  induction path with
  | here => exact absurd nonempty (Nat.lt_irrefl _)
  | @up x y z p m q one rises rest ih =>
    by_cases more : m < q
    · obtain ⟨v, k, path, below, final⟩ := ih more
      exact ⟨v, k, .up one rises path, below, final⟩
    · cases rest with
      | here => exact ⟨x, p, .here x p, rises, one⟩
      | up _ rises' rest' => exact absurd (Nat.lt_of_lt_of_le rises' rest'.le) more

/-- A climb that a last step ends outside leaves the words between. -/
theorem leaves {low : Nat} (path : Climbs rom x p y m) (above : low ≤ p) (below : m < q)
    (fits : q ≤ 2 ^ 32) (final : step rom (atPos y m) = some k) (out : ¬ Between low q k) :
    Leaves (step rom) (Between low q) (atPos x p) k := by
  induction path with
  | here => exact .last final out
  | @up x y z p m m' one rises rest ih =>
    have inside := rest.le
    refine .more one ?_ (ih (by omega) below final)
    rw [Between, atPos, BitVec.toNat_ofNat, Nat.mod_eq_of_lt (by omega)]
    omega

end Climbs

theorem climbs_line {ws : List Word} {x' : Data} (code : Seg rom p ws)
    (fits : p + ws.length ≤ 2 ^ 32) (run : Data.line ws x = some x') :
    Climbs rom x p x' (p + ws.length) := by
  induction ws generalizing p x with
  | nil =>
    cases run
    exact .here _ p
  | cons w ws ih =>
    obtain ⟨fetch, rest⟩ := code
    obtain ⟨y, first, later⟩ := Option.bind_eq_some_iff.mp run
    rw [List.length_cons] at fits
    have here : step rom (atPos x p) = some (atPos y (p + 1)) := by
      rw [step_atPos fetch (by omega), exec_straight first]
      rfl
    have there := ih rest (by omega) later
    rw [List.length_cons, Nat.add_comm ws.length, ← Nat.add_assoc]
    exact .up here (Nat.lt_succ_self p) there

variable {o : Opcode} {taken : Bool}

theorem exec_eq_none_of_branch {f : Byte} (op : opcode? w = some o)
    (branch : branchTaken o f = some taken) : x.exec w = none := by
  rw [Data.exec, op]
  cases o <;> first | rfl | cases branch

theorem exec_branch (op : opcode? w = some o)
    (branch : branchTaken o k.data.flags = some taken) :
    k.exec w = some { k with pc := if taken then k.pc + branchOffset w else k.pc } := by
  rw [exec, exec_eq_none_of_branch op branch]
  rw [op, Option.bind_some, branch]
  cases taken <;> rfl

theorem step_branch (fetch : rom[p]? = some w) (fits : p < 2 ^ 32)
    (op : opcode? w = some o) (branch : branchTaken o x.flags = some taken) :
    step rom (atPos x p) = some ⟨x, if taken then ofNat 32 (p + 1) + branchOffset w
        else ofNat 32 (p + 1)⟩ := by
  rw [step_atPos fetch fits, exec_branch op branch]
  rfl

/-- Wherever the words stand, running them from their start to their end
turns `x` into `x'`. -/
def Block (ws : List Word) (x x' : Data) : Prop :=
  ∀ (rom : List Word) (p : Nat), Seg rom p ws → p + ws.length ≤ 2 ^ 32 →
    Climbs rom x p x' (p + ws.length)

namespace Block

theorem ofLine {ws : List Word} {x x' : Data} (run : Data.line ws x = some x') : Block ws x x' :=
  fun _ _ code fits => climbs_line code fits run

theorem append {ws vs : List Word} {x y z : Data} (first : Block ws x y) (second : Block vs y z) :
    Block (ws ++ vs) x z := by
  intro rom p code fits
  obtain ⟨here, there⟩ := (seg_append rom p ws vs).mp code
  rw [List.length_append, ← Nat.add_assoc] at fits ⊢
  exact (first rom p here (by omega)).trans (second rom (p + ws.length) there fits)

theorem skipOne {w v : Word} {o : Opcode} {taken : Bool} {x x' : Data}
    (op : opcode? w = some o) (offset : branchOffset w = 1)
    (branch : branchTaken o x.flags = some taken) (straight : x.exec v = some x') :
    Block [w, v] x (if taken then x else x') := by
  intro rom p code fits
  obtain ⟨fetch, fetchNext, -⟩ := code
  have fits' : p + 2 ≤ 2 ^ 32 := fits
  have jump := step_branch fetch (by omega) op branch
  rw [offset] at jump
  cases taken with
  | true =>
    have target : (⟨x, ofNat 32 (p + 1) + 1⟩ : Core) = atPos x (p + 2) := by
      rw [atPos, BitVec.ofNat_add p 2, BitVec.ofNat_add p 1, BitVec.add_assoc]
      rfl
    simp only [if_true] at jump ⊢
    rw [target] at jump
    exact .up jump (by omega) (.here x (p + 2))
  | false =>
    have word : Seg rom (p + 1) [v] := ⟨fetchNext, trivial⟩
    refine .up jump (by omega) (climbs_line word fits' ?_)
    rw [Data.line, straight]
    rfl

end Block

end Core

end Unheaded.Mbc
