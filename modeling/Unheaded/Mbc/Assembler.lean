import Unheaded.Mbc.Isa

/-!
# The MBC assembler

`monad_mbc::assembler` on source lines whose text is already taken apart: the label table of the
first pass, the words of the second, and the mnemonics that the cartridges are written in.
-/

namespace Unheaded.Mbc

/-- `AsmInsn`; the immediate is its `u16` bit pattern. -/
structure AsmInsn (Label : Type) where
  opcode : Opcode
  dst : Reg
  src : Reg
  imm : Half
  labelRef : Option Label

inductive AsmItem (Label : Type) where
  | insn (insn : AsmInsn Label)
  | rawWord (word : Word)

/-- A source line that is not blank: a label definition or an item. -/
inductive AsmLine (Label : Type) where
  | label (name : Label)
  | item (item : AsmItem Label)

inductive AssembleError (Label : Type) where
  | undefinedLabel (label : Label)
  | immediateOutOfRange (value : Int)

namespace Asm

variable {Label : Type}

def items : List (AsmLine Label) → List (AsmItem Label)
  | [] => []
  | .label _ :: rest => items rest
  | .item item :: rest => item :: items rest

/-- The label table, from position `pc` on; a later definition replaces an
earlier one. -/
def labelsFrom [DecidableEq Label] (pc : Nat) (table : Label → Option Nat) :
    List (AsmLine Label) → Label → Option Nat
  | [] => table
  | .label name :: rest => labelsFrom pc (Function.update table name (some pc)) rest
  | .item _ :: rest => labelsFrom (pc + 1) table rest

variable (source : List (AsmLine Label))

def labels [DecidableEq Label] : Label → Option Nat :=
  labelsFrom 0 (fun _ => none) source

def isBranch (o : Opcode) : Bool := o ∈ [Opcode.jmp, .jz, .jnz, .jn, .jp, .jc, .jnc]

variable (table : Label → Option Nat)

/-- The word of an instruction at position `index`. -/
def encodeInsn (index : Nat) (insn : AsmInsn Label) : Except (AssembleError Label) Word :=
  match insn.labelRef with
  | none => .ok (MbcInsn.encode insn.opcode.toByte insn.dst insn.src insn.imm)
  | some label =>
    match table label with
    | none => .error (.undefinedLabel label)
    | some target =>
      let relative : Int := target - (index + 1)
      if insn.opcode = .call then
        if 0x00FFFFFF < target then .error (.immediateOutOfRange target)
        else .ok (MbcInsn.encodeBranch Opcode.call.toByte (BitVec.ofNat 32 target))
      else if isBranch insn.opcode then
        if relative < -8388608 ∨ 8388607 < relative then
          .error (.immediateOutOfRange relative)
        else .ok (MbcInsn.encodeBranch insn.opcode.toByte (BitVec.ofInt 32 relative))
      else if relative < -32768 ∨ 32767 < relative then .error (.immediateOutOfRange relative)
      else .ok (MbcInsn.encode insn.opcode.toByte insn.dst insn.src (BitVec.ofInt 16 relative))

def encodeItem (index : Nat) : AsmItem Label → Except (AssembleError Label) Word
  | .rawWord word => .ok word
  | .insn insn => encodeInsn table index insn

def encodeFrom (table : Label → Option Nat) :
    Nat → List (AsmItem Label) → Except (AssembleError Label) (List Word)
  | _, [] => .ok []
  | index, item :: rest => do
    let word ← encodeItem table index item
    let words ← encodeFrom table (index + 1) rest
    .ok (word :: words)

def assemble [DecidableEq Label] : Except (AssembleError Label) (List Word) :=
  encodeFrom (labels source) 0 (items source)

variable {table : Label → Option Nat}

theorem encodeFrom_ok {index : Nat} {found : List (AsmItem Label)} {ws : List Word}
    (ok : encodeFrom table index found = .ok ws) :
    ws.length = found.length ∧ ∀ i item, found[i]? = some item →
        ∃ w, encodeItem table (index + i) item = .ok w ∧ ws[i]? = some w := by
  induction found generalizing index ws with
  | nil =>
    cases ok
    refine ⟨rfl, ?_⟩
    intro i item get
    simp at get
  | cons first rest ih =>
    unfold encodeFrom at ok
    cases encoded : encodeItem table index first with
    | error e =>
      rw [encoded] at ok
      cases ok
    | ok word =>
      rw [encoded] at ok
      cases others : encodeFrom table (index + 1) rest with
      | error e =>
        simp only [others] at ok
        cases ok
      | ok words =>
        simp only [others] at ok
        cases ok
        obtain ⟨length, entries⟩ := ih others
        refine ⟨congrArg Nat.succ length, ?_⟩
        intro i item get
        cases i with
        | zero =>
          cases get
          exact ⟨word, encoded, rfl⟩
        | succ i =>
          obtain ⟨w, here, at_w⟩ := entries i item get
          refine ⟨w, ?_, at_w⟩
          rw [← Nat.add_assoc, Nat.add_right_comm]
          exact here

theorem encodeInsn_branch {index target : Nat} {label : Label} {insn : AsmInsn Label} {w : Word}
    (ref : insn.labelRef = some label) (known : table label = some target)
    (branches : isBranch insn.opcode = true) (ok : encodeInsn table index insn = .ok w) :
    -8388608 ≤ (target : Int) - (index + 1) ∧ (target : Int) - (index + 1) ≤ 8388607 ∧
      w = MbcInsn.encodeBranch insn.opcode.toByte (BitVec.ofInt 32 (target - (index + 1))) := by
  have notCall : insn.opcode ≠ .call := by
    intro call
    rw [call] at branches
    exact absurd branches (by decide)
  unfold encodeInsn at ok
  simp only [ref, known] at ok
  rw [if_neg notCall, if_pos branches] at ok
  split at ok <;> cases ok
  next range =>
    rw [not_or, Int.not_lt, Int.not_lt] at range
    exact ⟨range.1, range.2, rfl⟩

section Mnemonics

def registers (o : Opcode) (d s : Reg) : AsmInsn Label := ⟨o, d, s, 0, none⟩

def immediate (o : Opcode) (d : Reg) (imm : Half) : AsmInsn Label := ⟨o, d, 0, imm, none⟩

def branch (o : Opcode) (label : Label) : AsmInsn Label := ⟨o, 0, 0, 0, some label⟩

variable (d s : Reg)

def ADD : AsmInsn Label := registers .add d s
def SUB : AsmInsn Label := registers .sub d s
def MUL : AsmInsn Label := registers .mul d s
def OR : AsmInsn Label := registers .or d s
def MOV : AsmInsn Label := registers .mov d s
def CMP : AsmInsn Label := registers .cmp d s
def SHRR : AsmInsn Label := registers .shrr d s
def SARR : AsmInsn Label := registers .sarr d s
def MULH : AsmInsn Label := registers .mulh d s

def MOVI (d : Reg) (imm : Half) : AsmInsn Label := immediate .movi d imm
def ADDI (d : Reg) (imm : Half) : AsmInsn Label := immediate .addi d imm
def SHL (d : Reg) (imm : Half) : AsmInsn Label := immediate .shl d imm
def SHR (d : Reg) (imm : Half) : AsmInsn Label := immediate .shr d imm
def SAR (d : Reg) (imm : Half) : AsmInsn Label := immediate .sar d imm

variable (label : Label)

def JMP : AsmInsn Label := branch .jmp label
def JZ : AsmInsn Label := branch .jz label
def JNZ : AsmInsn Label := branch .jnz label
def JP : AsmInsn Label := branch .jp label
def JC : AsmInsn Label := branch .jc label
def JNC : AsmInsn Label := branch .jnc label

/-- `LD val, [base+offset]`. -/
def LD (val base : Reg) (offset : Half) : AsmInsn Label := ⟨.ld, val, base, offset, none⟩
/-- `LDB val, [base+offset]`. -/
def LDB (val base : Reg) (offset : Half) : AsmInsn Label := ⟨.ldb, val, base, offset, none⟩
/-- `ST [base+offset], val`. -/
def ST (base : Reg) (offset : Half) (val : Reg) : AsmInsn Label := ⟨.st, base, val, offset, none⟩

def SYSCALL (n : Half) : AsmInsn Label := immediate .syscall 0 n
def HALT : AsmInsn Label := ⟨.halt, 0, 0, 0, none⟩

end Mnemonics

end Asm

end Unheaded.Mbc
