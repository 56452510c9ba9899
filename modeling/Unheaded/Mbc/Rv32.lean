import Unheaded.Lib.Bytes
import Unheaded.Lib.Runs
import Unheaded.Mbc.Isa

/-!
# RV32IM as the translator's source language

The unprivileged RISC-V semantics the translated programs are written against: instruction
formats, the M extension's division rules and a little-endian byte memory.
-/

namespace Unheaded.Mbc.Rv32

open Lib Option Function

abbrev XReg := BitVec 5

variable (w : Word)

def opcode : BitVec 7 := w.extractLsb' 0 7
def rd : XReg := w.extractLsb' 7 5
def funct3 : BitVec 3 := w.extractLsb' 12 3
def rs1 : XReg := w.extractLsb' 15 5
def rs2 : XReg := w.extractLsb' 20 5
def funct7 : BitVec 7 := w.extractLsb' 25 7

def immI : BitVec 12 := w.extractLsb' 20 12
def immS : BitVec 12 :=
  ((w.extractLsb' 25 7).setWidth 12 <<< 5) ||| (w.extractLsb' 7 5).setWidth 12
def immB : BitVec 13 :=
  ((w.extractLsb' 31 1).setWidth 13 <<< 12) ||| ((w.extractLsb' 7 1).setWidth 13 <<< 11) |||
    ((w.extractLsb' 25 6).setWidth 13 <<< 5) ||| ((w.extractLsb' 8 4).setWidth 13 <<< 1)
def immU : BitVec 20 := w.extractLsb' 12 20
def immJ : BitVec 21 :=
  ((w.extractLsb' 31 1).setWidth 21 <<< 20) ||| ((w.extractLsb' 12 8).setWidth 21 <<< 12) |||
    ((w.extractLsb' 20 1).setWidth 21 <<< 11) ||| ((w.extractLsb' 21 10).setWidth 21 <<< 1)

inductive OpFn where
  | add | sub | sll | slt | sltu | xor | srl | sra | or | and
  | mul | mulh | mulhsu | mulhu | div | divu | rem | remu
  deriving DecidableEq, Repr

inductive ImmFn where
  | addi | slti | sltiu | xori | ori | andi
  deriving DecidableEq, Repr

inductive ShiftFn where
  | slli | srli | srai
  deriving DecidableEq, Repr

inductive LoadFn where
  | lb | lh | lw | lbu | lhu
  deriving DecidableEq, Repr

inductive StoreFn where
  | sb | sh | sw
  deriving DecidableEq, Repr

inductive BranchFn where
  | beq | bne | blt | bge | bltu | bgeu
  deriving DecidableEq, Repr

inductive Insn where
  | op (f : OpFn) (rd rs1 rs2 : XReg)
  | opImm (f : ImmFn) (rd rs1 : XReg) (imm : BitVec 12)
  | shiftImm (f : ShiftFn) (rd rs1 : XReg) (amount : BitVec 5)
  | load (f : LoadFn) (rd rs1 : XReg) (imm : BitVec 12)
  | store (f : StoreFn) (rs1 rs2 : XReg) (imm : BitVec 12)
  | branch (f : BranchFn) (rs1 rs2 : XReg) (offset : BitVec 13)
  | lui (rd : XReg) (imm : BitVec 20)
  | auipc (rd : XReg) (imm : BitVec 20)
  | jal (rd : XReg) (offset : BitVec 21)
  | jalr (rd rs1 : XReg) (imm : BitVec 12)
  deriving DecidableEq, Repr

/-- The `funct3` and `funct7` fields of an `OP` instruction. -/
def OpFn.code : OpFn → BitVec 3 × BitVec 7
  | .add => (0, 0x00) | .sub => (0, 0x20) | .sll => (1, 0x00) | .slt => (2, 0x00)
  | .sltu => (3, 0x00) | .xor => (4, 0x00) | .srl => (5, 0x00) | .sra => (5, 0x20)
  | .or => (6, 0x00) | .and => (7, 0x00)
  | .mul => (0, 0x01) | .mulh => (1, 0x01) | .mulhsu => (2, 0x01) | .mulhu => (3, 0x01)
  | .div => (4, 0x01) | .divu => (5, 0x01) | .rem => (6, 0x01) | .remu => (7, 0x01)

def OpFn.all : List OpFn := [.add, .sub, .sll, .slt, .sltu, .xor, .srl, .sra, .or, .and,
   .mul, .mulh, .mulhsu, .mulhu, .div, .divu, .rem, .remu]

def ImmFn.code : ImmFn → BitVec 3
  | .addi => 0 | .slti => 2 | .sltiu => 3 | .xori => 4 | .ori => 6 | .andi => 7

def ImmFn.all : List ImmFn := [.addi, .slti, .sltiu, .xori, .ori, .andi]

def ShiftFn.code : ShiftFn → BitVec 3 × BitVec 7
  | .slli => (1, 0x00) | .srli => (5, 0x00) | .srai => (5, 0x20)

def ShiftFn.all : List ShiftFn := [.slli, .srli, .srai]

def LoadFn.code : LoadFn → BitVec 3
  | .lb => 0 | .lh => 1 | .lw => 2 | .lbu => 4 | .lhu => 5

def LoadFn.all : List LoadFn := [.lb, .lh, .lw, .lbu, .lhu]

def StoreFn.code : StoreFn → BitVec 3
  | .sb => 0 | .sh => 1 | .sw => 2

def StoreFn.all : List StoreFn := [.sb, .sh, .sw]

def BranchFn.code : BranchFn → BitVec 3
  | .beq => 0 | .bne => 1 | .blt => 4 | .bge => 5 | .bltu => 6 | .bgeu => 7

def BranchFn.all : List BranchFn := [.beq, .bne, .blt, .bge, .bltu, .bgeu]

/-- The instruction a word encodes. -/
def decode : Option Insn :=
  if opcode w = 0x33 then
    (OpFn.all.find? (·.code == (funct3 w, funct7 w))).map (.op · (rd w) (rs1 w) (rs2 w))
  else if opcode w = 0x13 then
    match ShiftFn.all.find? (·.code == (funct3 w, funct7 w)) with
    | some f => some (.shiftImm f (rd w) (rs1 w) (rs2 w))
    | none => (ImmFn.all.find? (·.code == funct3 w)).map (.opImm · (rd w) (rs1 w) (immI w))
  else if opcode w = 0x03 then
    (LoadFn.all.find? (·.code == funct3 w)).map (.load · (rd w) (rs1 w) (immI w))
  else if opcode w = 0x23 then
    (StoreFn.all.find? (·.code == funct3 w)).map (.store · (rs1 w) (rs2 w) (immS w))
  else if opcode w = 0x63 then
    (BranchFn.all.find? (·.code == funct3 w)).map (.branch · (rs1 w) (rs2 w) (immB w))
  else if opcode w = 0x37 then some (.lui (rd w) (immU w))
  else if opcode w = 0x17 then some (.auipc (rd w) (immU w))
  else if opcode w = 0x6F then some (.jal (rd w) (immJ w))
  else if opcode w = 0x67 ∧ funct3 w = 0 then some (.jalr (rd w) (rs1 w) (immI w))
  else none

/-- What the fields of a word that encodes an instruction are. -/
inductive Encodes (w : Word) : Insn → Prop
  | op {f : OpFn} (major : opcode w = 0x33) (minor : f.code = (funct3 w, funct7 w)) :
      Encodes w (.op f (rd w) (rs1 w) (rs2 w))
  | opImm {f : ImmFn} (major : opcode w = 0x13) (minor : f.code = funct3 w) :
      Encodes w (.opImm f (rd w) (rs1 w) (immI w))
  | shiftImm {f : ShiftFn} (major : opcode w = 0x13) (minor : f.code = (funct3 w, funct7 w)) :
      Encodes w (.shiftImm f (rd w) (rs1 w) (rs2 w))
  | load {f : LoadFn} (major : opcode w = 0x03) (minor : f.code = funct3 w) :
      Encodes w (.load f (rd w) (rs1 w) (immI w))
  | store {f : StoreFn} (major : opcode w = 0x23) (minor : f.code = funct3 w) :
      Encodes w (.store f (rs1 w) (rs2 w) (immS w))
  | branch {f : BranchFn} (major : opcode w = 0x63) (minor : f.code = funct3 w) :
      Encodes w (.branch f (rs1 w) (rs2 w) (immB w))
  | lui (major : opcode w = 0x37) : Encodes w (.lui (rd w) (immU w))
  | auipc (major : opcode w = 0x17) : Encodes w (.auipc (rd w) (immU w))
  | jal (major : opcode w = 0x6F) : Encodes w (.jal (rd w) (immJ w))
  | jalr (major : opcode w = 0x67) (minor : funct3 w = 0) :
      Encodes w (.jalr (rd w) (rs1 w) (immI w))

theorem find?_code {α β : Type} [BEq β] [LawfulBEq β] {all : List α} {code : α → β} {b : β} {a : α}
    (h : all.find? (code · == b) = some a) : code a = b := by
  have matches_ := List.find?_some h
  exact eq_of_beq matches_

theorem encodes_of_decode {w : Word} {i : Insn} (h : decode w = some i) : Encodes w i := by
  rcases ite_eq_iff.mp h with ⟨major, h⟩ | ⟨-, h⟩
  · obtain ⟨f, found, rfl⟩ := map_eq_some_iff.mp h
    exact .op major (find?_code found)
  rcases ite_eq_iff.mp h with ⟨major, h⟩ | ⟨-, h⟩
  · split at h
    next f found =>
      cases h
      exact .shiftImm major (find?_code found)
    next =>
      obtain ⟨f, found, rfl⟩ := map_eq_some_iff.mp h
      exact .opImm major (find?_code found)
  rcases ite_eq_iff.mp h with ⟨major, h⟩ | ⟨-, h⟩
  · obtain ⟨f, found, rfl⟩ := map_eq_some_iff.mp h
    exact .load major (find?_code found)
  rcases ite_eq_iff.mp h with ⟨major, h⟩ | ⟨-, h⟩
  · obtain ⟨f, found, rfl⟩ := map_eq_some_iff.mp h
    exact .store major (find?_code found)
  rcases ite_eq_iff.mp h with ⟨major, h⟩ | ⟨-, h⟩
  · obtain ⟨f, found, rfl⟩ := map_eq_some_iff.mp h
    exact .branch major (find?_code found)
  rcases ite_eq_iff.mp h with ⟨major, h⟩ | ⟨-, h⟩
  · cases h
    exact .lui major
  rcases ite_eq_iff.mp h with ⟨major, h⟩ | ⟨-, h⟩
  · cases h
    exact .auipc major
  rcases ite_eq_iff.mp h with ⟨major, h⟩ | ⟨-, h⟩
  · cases h
    exact .jal major
  rcases ite_eq_iff.mp h with ⟨major, h⟩ | ⟨-, h⟩
  · cases h
    exact .jalr major.1 major.2
  · cases h

/-- The registers an instruction reads. -/
def Insn.sources : Insn → List XReg
  | .op _ _ rs1 rs2 | .store _ rs1 rs2 _ | .branch _ rs1 rs2 _ => [rs1, rs2]
  | .opImm _ _ rs1 _ | .shiftImm _ _ rs1 _ | .load _ _ rs1 _ | .jalr _ rs1 _ => [rs1]
  | .lui .. | .auipc .. | .jal .. => []

/-- The register field an instruction writes. -/
def Insn.dest : Insn → Option XReg
  | .op _ rd _ _ | .opImm _ rd _ _ | .shiftImm _ rd _ _ | .load _ rd _ _ => some rd
  | .lui rd _ | .auipc rd _ | .jal rd _ | .jalr rd _ _ => some rd
  | .store .. | .branch .. => none

def Insn.Names (i : Insn) (r : XReg) : Prop := r ∈ i.sources ∨ i.dest = some r

instance (i : Insn) (r : XReg) : Decidable (i.Names r) :=
  inferInstanceAs (Decidable (r ∈ i.sources ∨ i.dest = some r))

/-- Signed division rounds toward zero; dividing by zero gives all ones, and
the one overflowing quotient wraps. -/
def OpFn.eval : OpFn → Word → Word → Word
  | .add, a, b => a + b
  | .sub, a, b => a - b
  | .sll, a, b => a <<< shamt b
  | .slt, a, b => if a.slt b then 1 else 0
  | .sltu, a, b => if a.ult b then 1 else 0
  | .xor, a, b => a ^^^ b
  | .srl, a, b => a >>> shamt b
  | .sra, a, b => a.sshiftRight (shamt b)
  | .or, a, b => a ||| b
  | .and, a, b => a &&& b
  | .mul, a, b => a * b
  | .mulh, a, b => BitVec.ofInt 32 ((a.toInt * b.toInt) / 2 ^ 32)
  | .mulhsu, a, b => BitVec.ofInt 32 ((a.toInt * b.toNat) / 2 ^ 32)
  | .mulhu, a, b => BitVec.ofNat 32 ((a.toNat * b.toNat) / 2 ^ 32)
  | .div, a, b => if b = 0 then -1 else BitVec.ofInt 32 (a.toInt.tdiv b.toInt)
  | .divu, a, b => if b = 0 then -1 else a / b
  | .rem, a, b => if b = 0 then a else BitVec.ofInt 32 (a.toInt.tmod b.toInt)
  | .remu, a, b => if b = 0 then a else a % b

def ImmFn.eval : ImmFn → Word → Word → Word
  | .addi, a, b => a + b
  | .slti, a, b => if a.slt b then 1 else 0
  | .sltiu, a, b => if a.ult b then 1 else 0
  | .xori, a, b => a ^^^ b
  | .ori, a, b => a ||| b
  | .andi, a, b => a &&& b

def ShiftFn.eval : ShiftFn → Word → Nat → Word
  | .slli, a, n => a <<< n
  | .srli, a, n => a >>> n
  | .srai, a, n => a.sshiftRight n

def BranchFn.holds : BranchFn → Word → Word → Bool
  | .beq, a, b => a == b
  | .bne, a, b => a != b
  | .blt, a, b => a.slt b
  | .bge, a, b => !a.slt b
  | .bltu, a, b => a.ult b
  | .bgeu, a, b => !a.ult b

/-- Integer registers, pc and memory. -/
structure State where
  x : XReg → Word
  zero : x 0 = 0
  pc : Word
  mem : Word → Byte

namespace State

variable (s : State)

/-- Write a register; a write to `x0` is discarded. -/
def set (r : XReg) (v : Word) : State :=
  if h : r = 0 then s
  else { s with
    x := update s.x r v
    zero := by rw [update_of_ne (Ne.symm h), s.zero] }

def next : State := { s with pc := s.pc + 4 }

def jump (offset : Word) : State := { s with pc := s.pc + offset }

def half (a : Word) : Half := halfOfBytes (s.mem (a + 1)) (s.mem a)

def word (a : Word) : Word :=
  wordOfBytes (s.mem (a + 3)) (s.mem (a + 2)) (s.mem (a + 1)) (s.mem a)

def putByte (a : Word) (v : Byte) : State := { s with mem := update s.mem a v }

def putHalf (a : Word) (v : Half) : State :=
  (s.putByte a (v.extractLsb' 0 8)).putByte (a + 1) (v.extractLsb' 8 8)

def putWord (a : Word) (v : Word) : State :=
  (((s.putByte a (byteOf v 0)).putByte (a + 1) (byteOf v 1)).putByte (a + 2)
    (byteOf v 2)).putByte (a + 3) (byteOf v 3)

end State

def LoadFn.size : LoadFn → Nat
  | .lb | .lbu => 1
  | .lh | .lhu => 2
  | .lw => 4

def StoreFn.size : StoreFn → Nat
  | .sb => 1
  | .sh => 2
  | .sw => 4

def LoadFn.eval (f : LoadFn) (s : State) (a : Word) : Word :=
  match f with
  | .lb => (s.mem a).signExtend 32
  | .lbu => (s.mem a).setWidth 32
  | .lh => (s.half a).signExtend 32
  | .lhu => (s.half a).setWidth 32
  | .lw => s.word a

def StoreFn.eval (f : StoreFn) (s : State) (a v : Word) : State :=
  match f with
  | .sb => s.putByte a (v.setWidth 8)
  | .sh => s.putHalf a (v.setWidth 16)
  | .sw => s.putWord a v

/-- The address and size of the memory access an instruction makes. -/
def Insn.access (s : State) : Insn → Option (Word × Nat)
  | .load f _ rs1 imm => some (s.x rs1 + imm.signExtend 32, f.size)
  | .store f rs1 _ imm => some (s.x rs1 + imm.signExtend 32, f.size)
  | _ => none

def Insn.exec (s : State) : Insn → State
  | .op f rd rs1 rs2 => (s.set rd (f.eval (s.x rs1) (s.x rs2))).next
  | .opImm f rd rs1 imm => (s.set rd (f.eval (s.x rs1) (imm.signExtend 32))).next
  | .shiftImm f rd rs1 amount => (s.set rd (f.eval (s.x rs1) amount.toNat)).next
  | .load f rd rs1 imm => (s.set rd (f.eval s (s.x rs1 + imm.signExtend 32))).next
  | .store f rs1 rs2 imm => (f.eval s (s.x rs1 + imm.signExtend 32) (s.x rs2)).next
  | .branch f rs1 rs2 offset =>
    if f.holds (s.x rs1) (s.x rs2) then s.jump (offset.signExtend 32) else s.next
  | .lui rd imm => (s.set rd (imm.setWidth 32 <<< 12)).next
  | .auipc rd imm => (s.set rd (s.pc + (imm.setWidth 32 <<< 12))).next
  | .jal rd offset => { s.set rd (s.pc + 4) with pc := s.pc + offset.signExtend 32 }
  | .jalr rd rs1 imm =>
    { s.set rd (s.pc + 4) with pc := (s.x rs1 + imm.signExtend 32) &&& ~~~1 }

def fetch (program : List Word) (s : State) : Option Insn :=
  if s.pc.toNat % 4 = 0 then (program[s.pc.toNat / 4]?).bind decode else none

def step (program : List Word) (s : State) : Option State := (fetch program s).map (Insn.exec s)

end Unheaded.Mbc.Rv32
