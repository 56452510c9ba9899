import Unheaded.Lib.Bytes
import Unheaded.Lib.Text
import Unheaded.Mbc.Assembler

/-!
# Assembly text

`monad_mbc::assembler` from the source text on: comments, tokens, mnemonics and operands,
directives and labels.
-/

namespace Unheaded.Mbc

open Lib
open BitVec (ofNat)

/-- `AssembleError`. -/
inductive SourceError where
  | line (line : Nat) (message : Text)
  | undefinedLabel (label : Text)
  | invalidInstruction (message : Text)
  | registerOutOfRange (register : Text)
  | immediateOutOfRange (value : Int)
  | invalidLabel
  | invalidDirective (line : Nat) (message : Text)
  | orgBehindPC (address currentPc : Nat)

/-- The Unicode tables that the source text is read with.  ASCII letters are as they are. -/
structure Unicode where
  toUppercase : Char → Text
  isAlphanumeric : Char → Bool
  ascii : ∀ c : Char, c.toNat < 128 → toUppercase c = [c.toUpper]

/-- The letters of ASCII, and no others. -/
def asciiUnicode : Unicode where
  toUppercase c := [c.toUpper]
  isAlphanumeric := Char.isAlphanum
  ascii _ _ := rfl

/-- `str::to_uppercase`. -/
def Unicode.uppercase (u : Unicode) (s : Text) : Text := s.flatMap u.toUppercase

namespace Asm

def quoting (message : String) (piece : Text) : Text := message.toList ++ ['\''] ++ piece ++ ['\'']

def parseRegister (s : Text) : Except SourceError Reg :=
  match s with
  | 'r' :: num =>
    match parseUnsigned 10 256 num with
    | none => .error (.invalidInstruction (quoting "Invalid register: " s))
    | some n => if 15 < n then .error (.registerOutOfRange s) else .ok (ofNat 4 n)
  | _ => .error (.invalidInstruction (quoting "Expected register name, got " s))

def hexDigits? (s : Text) : Option Text :=
  match s with
  | '0' :: 'x' :: digits => some digits
  | '0' :: 'X' :: digits => some digits
  | _ => none

/-- `parse_immediate`; the result is the `u16` bit pattern. -/
def parseImmediate (s : Text) : Except SourceError Half :=
  let s := trim s
  let parsed : Except SourceError Int :=
    match hexDigits? s with
    | some digits =>
      match parseSigned 16 (2 ^ 63) digits with
      | none => .error (.invalidInstruction (quoting "Invalid hex immediate: " s))
      | some val => .ok val
    | none =>
      match parseSigned 10 (2 ^ 63) s with
      | none => .error (.invalidInstruction (quoting "Invalid immediate: " s))
      | some val => .ok val
  match parsed with
  | .error e => .error e
  | .ok val =>
    if val < -32768 ∨ 65535 < val then .error (.immediateOutOfRange (BitVec.ofInt 32 val).toInt)
    else .ok (BitVec.ofInt 16 val)

def stripComment (line : Text) : Text :=
  if ';' ∈ line then line.takeWhile (· ≠ ';')
  else if '#' ∈ line then line.takeWhile (· ≠ '#')
  else line

def onLine {α : Type} (lineNum : Nat) (message : Text) : Except SourceError α → Except SourceError α
  | .ok a => .ok a
  | .error _ => .error (.line lineNum message)

/-- What the operands of a mnemonic look like. -/
inductive Form where
  | registers (opcode : Opcode)
  | register (opcode : Opcode)
  | bare (opcode : Opcode) (imm : Half)
  | syscall
  | immediate (opcode : Opcode)
  | branch (opcode : Opcode)
  | load (opcode : Opcode)
  | store (opcode : Opcode)

/-- The mnemonics of `parse_instruction`. -/
def forms : List (Text × Form) :=
  [("ADD".toList, .registers .add), ("SUB".toList, .registers .sub), ("MUL".toList, .registers .mul),
   ("DIV".toList, .registers .div), ("MOD".toList, .registers .mod), ("AND".toList, .registers .and),
   ("OR".toList, .registers .or), ("XOR".toList, .registers .xor), ("MOV".toList, .registers .mov),
   ("CMP".toList, .registers .cmp), ("SHLR".toList, .registers .shlr),
   ("SHRR".toList, .registers .shrr), ("SARR".toList, .registers .sarr),
   ("MULH".toList, .registers .mulh), ("MULHU".toList, .registers .mulhu),
   ("NEG".toList, .register .neg), ("NOT".toList, .register .not), ("PUSH".toList, .register .push),
   ("POP".toList, .register .pop),
   ("RET".toList, .bare .ret 0), ("NOP".toList, .bare .nop 0), ("HALT".toList, .bare .halt 0),
   ("SYSCALL".toList, .syscall),
   ("DRAW_FRAME".toList, .bare .syscall 0x01), ("GET_KEY".toList, .bare .syscall 0x02),
   ("GET_TICKS".toList, .bare .syscall 0x03), ("SLEEP".toList, .bare .syscall 0x04),
   ("SHL".toList, .immediate .shl), ("SHR".toList, .immediate .shr), ("SAR".toList, .immediate .sar),
   ("ADDI".toList, .immediate .addi), ("LOAD_IMM32".toList, .immediate .loadImm32),
   ("MOVI".toList, .immediate .movi),
   ("JMP".toList, .branch .jmp), ("JZ".toList, .branch .jz), ("JNZ".toList, .branch .jnz),
   ("JN".toList, .branch .jn), ("JP".toList, .branch .jp), ("JC".toList, .branch .jc),
   ("JNC".toList, .branch .jnc), ("CALL".toList, .branch .call),
   ("LD".toList, .load .ld), ("ST".toList, .store .st), ("LDB".toList, .load .ldb),
   ("STB".toList, .store .stb), ("LDH".toList, .load .ldh), ("STH".toList, .store .sth)]

section Operands

variable (lineNum : Nat) (mnemonic : Text)

/-- `require_tokens!` failed. -/
def missing {α : Type} (count : Nat) (operands : List Text) : Except SourceError α :=
  .error (.line lineNum (mnemonic ++ " requires ".toList ++ showNat 10 count ++
    " operands, got ".toList ++ showNat 10 operands.length))

def registerOperand (token : Text) : Except SourceError Reg :=
  onLine lineNum (quoting "Invalid register: " token) (parseRegister (trimEndMatches ',' token))

/-- `[rN+M]` or `[rN-M]`: the base and the offset. -/
def memoryOperand (memStr : Text) : Except SourceError (Reg × Half) :=
  if memStr.head? ≠ some '[' ∨ memStr.getLast? ≠ some ']' then
    .error (.line lineNum (quoting "Invalid memory operand: " memStr))
  else
    let inner := memStr.tail.dropLast
    let parts : Option (Text × Text) :=
      if '+' ∈ inner then
        some (trim (inner.takeWhile (· ≠ '+')), trim (inner.dropWhile (· ≠ '+')).tail)
      else if '-' ∈ inner then
        some (trim (inner.takeWhile (· ≠ '-')), '-' :: trim (inner.dropWhile (· ≠ '-')).tail)
      else none
    match parts with
    | none => .error (.line lineNum (quoting "Memory operand must have offset: " memStr))
    | some (regStr, offsetStr) => do
      let reg ← onLine lineNum (quoting "Invalid register in memory operand: " regStr)
        (parseRegister regStr)
      let offset ← onLine lineNum (quoting "Invalid offset: " offsetStr) (parseImmediate offsetStr)
      .ok (reg, offset)

/-- The operands of an instruction. -/
def Form.parse (form : Form) (operands : List Text) : Except SourceError (AsmInsn Text) :=
  match form with
  | .registers opcode =>
    match operands with
    | first :: second :: _ => do
      let dst ← parseRegister (trimEndMatches ',' first)
      let src ← parseRegister (trimEndMatches ',' second)
      .ok ⟨opcode, dst, src, 0, none⟩
    | _ => missing lineNum mnemonic 2 operands
  | .register opcode =>
    match operands with
    | first :: _ => do
      let dst ← onLine lineNum (quoting "Invalid register: " first) (parseRegister first)
      .ok ⟨opcode, dst, 0, 0, none⟩
    | _ => missing lineNum mnemonic 1 operands
  | .bare opcode imm => .ok ⟨opcode, 0, 0, imm, none⟩
  | .syscall =>
    match operands with
    | first :: _ => do
      let imm ← onLine lineNum (quoting "Invalid syscall number: " first)
        (parseImmediate (trimEndMatches ',' first))
      .ok ⟨.syscall, 0, 0, imm, none⟩
    | _ => missing lineNum mnemonic 1 operands
  | .immediate opcode =>
    match operands with
    | first :: second :: _ => do
      let dst ← registerOperand lineNum first
      let imm ← onLine lineNum (quoting "Invalid immediate: " second)
        (parseImmediate (trimEndMatches ',' second))
      .ok ⟨opcode, dst, 0, imm, none⟩
    | _ => missing lineNum mnemonic 2 operands
  | .branch opcode =>
    match operands with
    | first :: _ => .ok ⟨opcode, 0, 0, 0, some first⟩
    | _ => missing lineNum mnemonic 1 operands
  | .load opcode =>
    match operands with
    | first :: second :: _ => do
      let (base, offset) ← memoryOperand lineNum (trimEndMatches ',' second)
      let val ← registerOperand lineNum first
      .ok ⟨opcode, val, base, offset, none⟩
    | _ => missing lineNum mnemonic 2 operands
  | .store opcode =>
    match operands with
    | first :: second :: _ => do
      let (base, offset) ← memoryOperand lineNum (trimEndMatches ',' first)
      let val ← registerOperand lineNum second
      .ok ⟨opcode, base, val, offset, none⟩
    | _ => missing lineNum mnemonic 2 operands

end Operands

def parseInstruction (u : Unicode) (line : Text) (lineNum : Nat) :
    Except SourceError (Option (AsmInsn Text)) :=
  let line := trim (stripComment line)
  if line.isEmpty then .ok none
  else
    match splitWhitespace line with
    | [] => .ok none
    | first :: operands =>
      let mnemonic := u.uppercase first
      match forms.lookup mnemonic with
      | none => .error (.line lineNum (quoting "Unknown mnemonic: " mnemonic))
      | some form => (form.parse lineNum mnemonic operands).map some

/-- `parse_byte_value`, `parse_half_value` and `parse_word_value`: a value up to `max`. -/
def parseValue (max : Nat) (s : Text) : Option Nat :=
  let s := trimEndMatches ',' (trim s)
  let val :=
    match hexDigits? s with
    | some digits => parseUnsigned 16 (2 ^ 64) digits
    | none => parseUnsigned 10 (2 ^ 64) s
  val.filter fun n => decide (n ≤ max)

def parseByteValue (s : Text) : Option Nat := parseValue 255 s
def parseHalfValue (s : Text) : Option Nat := parseValue 0xFFFF s
def parseWordValue (s : Text) : Option Nat := parseValue 0xFFFFFFFF s

def bytesToWords : List Byte → List Word
  | b0 :: b1 :: b2 :: b3 :: rest => wordOfBytes b3 b2 b1 b0 :: bytesToWords rest
  | [b0, b1, b2] => [wordOfBytes 0 b2 b1 b0]
  | [b0, b1] => [wordOfBytes 0 0 b1 b0]
  | [b0] => [wordOfBytes 0 0 0 b0]
  | [] => []

/-- The values behind a directive. -/
def directiveValues (lineNum : Nat) (name : String) (parse : Text → Option Nat) (tokens : List Text)
    (trimmed : Text) : Except SourceError (List Nat) :=
  if tokens.length < 2 then
    .error (.invalidDirective lineNum (name.toList ++ " requires at least one value".toList))
  else
    let valuesStr := trimmed.drop (tokens.headD []).length
    let parts := (valuesStr.splitOnP fun c => c == ',' || isWhite c).filter fun t => !t.isEmpty
    parts.mapM fun part =>
      match parse part with
      | none => .error (.invalidDirective lineNum (quoting ("Invalid " ++ name ++ " value: ") part))
      | some n => .ok n

/-- The state of the first pass. -/
structure Pass where
  lines : List (AsmLine Text)
  pc : Nat
  inData : Bool

def Pass.emit (s : Pass) (words : List Word) : Pass := { s with
    lines := s.lines ++ words.map fun w => .item (.rawWord w)
    pc := s.pc + words.length }

/-- A line that starts with a point. -/
def directive (u : Unicode) (s : Pass) (lineNum : Nat) (trimmed : Text) : Except SourceError Pass :=
  let tokens := splitWhitespace trimmed
  let name := u.uppercase (tokens.headD [])
  if name = ".DATA".toList then .ok { s with inData := true }
  else if name = ".TEXT".toList then .ok { s with inData := false }
  else if name = ".ORG".toList then
    match tokens with
    | _ :: address :: _ =>
      match parseWordValue address with
      | none => .error (.invalidDirective lineNum (quoting "Invalid .org address: " address))
      | some addr =>
        if addr < s.pc then .error (.orgBehindPC addr s.pc)
        else .ok (s.emit (List.replicate (addr - s.pc) 0))
    | _ => .error (.invalidDirective lineNum ".org requires an address argument".toList)
  else if name = ".BYTE".toList then do
    let values ← directiveValues lineNum ".byte" parseByteValue tokens trimmed
    .ok (s.emit (bytesToWords (values.map (ofNat 8))))
  else if name = ".HALF".toList then do
    let values ← directiveValues lineNum ".half" parseHalfValue tokens trimmed
    .ok (s.emit (bytesToWords (values.flatMap fun h =>
      [ofNat 8 h, ofNat 8 (h / 256)])))
  else if name = ".WORD".toList then do
    let values ← directiveValues lineNum ".word" parseWordValue tokens trimmed
    .ok (s.emit (values.map (ofNat 32)))
  else
    .error (.invalidDirective lineNum (quoting "Unknown directive: " (tokens.headD [])))

/-- One line of the source in the first pass. -/
def sourceLine (u : Unicode) (s : Pass) (lineNum : Nat) (line : Text) : Except SourceError Pass :=
  let trimmed := trim (stripComment line)
  if trimmed.isEmpty then .ok s
  else if trimmed.head? = some '.' then directive u s lineNum trimmed
  else if trimmed.getLast? = some ':' ∧ trimmed.head? ≠ some ';' ∧ trimmed.head? ≠ some '#' then
    let labelName := trim (trimEndMatches ':' trimmed)
    if labelName.isEmpty then .error .invalidLabel
    else if !labelName.all fun c => u.isAlphanumeric c || c == '_' then .error .invalidLabel
    else .ok { s with lines := s.lines ++ [AsmLine.label labelName] }
  else if s.inData then
    .error (.line lineNum (quoting "Instructions not allowed in .data section: " trimmed))
  else
    match parseInstruction u trimmed lineNum with
    | .error e => .error e
    | .ok none => .ok s
    | .ok (some insn) =>
      .ok { s with lines := s.lines ++ [AsmLine.item (.insn insn)], pc := s.pc + 1 }

/-- The first pass, from a line on. -/
def sourceLines (u : Unicode) : Pass → Nat → List Text → Except SourceError Pass
  | s, _, [] => .ok s
  | s, lineNum, line :: rest =>
    match sourceLine u s lineNum line with
    | .error e => .error e
    | .ok s => sourceLines u s (lineNum + 1) rest

def encodeError : AssembleError Text → SourceError
  | .undefinedLabel label => .undefinedLabel label
  | .immediateOutOfRange value => .immediateOutOfRange value

/-- `assemble`. -/
def assembleSource (u : Unicode) (source : Text) : Except SourceError (List Word) :=
  match sourceLines u ⟨[], 0, false⟩ 1 (lines source) with
  | .error e => .error e
  | .ok s =>
    match assemble s.lines with
    | .error e => .error (encodeError e)
    | .ok words => .ok words

/-- A token of an instruction: no comment, label or directive begins or ends in it. -/
structure IsWord (t : Text) : Prop extends IsToken t where
  plain : ∀ c ∈ t, c ≠ ';' ∧ c ≠ '#' ∧ c ≠ ':' ∧ c ≠ '.'

section Line

variable {first : Text} {rest : List (Nat × Text)}
  (words : ∀ t ∈ first :: rest.map Prod.snd, IsWord t)

include words

theorem plain_spaced {c : Char} (mem : c ∈ spaced first rest) : c ≠ ';' ∧ c ≠ '#' ∧ c ≠ '\n' := by
  rcases mem_spaced mem with rfl | ⟨t, found, inside⟩
  · decide
  · obtain ⟨semicolon, hash, -, -⟩ := (words t found).plain c inside
    refine ⟨semicolon, hash, ?_⟩
    rintro rfl
    exact absurd ((words t found).solid '\n' inside) (by decide)

theorem stripComment_spaced : stripComment (spaced first rest) = spaced first rest := by
  have noSemicolon : ¬ ';' ∈ spaced first rest := fun mem => (plain_spaced words mem).1 rfl
  have noHash : ¬ '#' ∈ spaced first rest := fun mem => (plain_spaced words mem).2.1 rfl
  rw [stripComment, if_neg noSemicolon, if_neg noHash]

theorem parseInstruction_spaced (u : Unicode) (lineNum : Nat) {form : Form}
    (known : forms.lookup (u.uppercase first) = some form) :
    parseInstruction u (spaced first rest) lineNum =
      (form.parse lineNum (u.uppercase first) (rest.map Prod.snd)).map some := by
  have tokens : ∀ t ∈ first :: rest.map Prod.snd, IsToken t := fun t mem => (words t mem).toIsToken
  have some : ¬ (spaced first rest).isEmpty = true := by
    rw [List.isEmpty_iff]
    exact spaced_ne_nil (tokens first List.mem_cons_self).nonempty rest
  unfold parseInstruction
  rw [stripComment_spaced words, trim_spaced tokens, if_neg some, splitWhitespace_spaced tokens]
  dsimp only
  rw [known]

theorem assembleSource_spaced (u : Unicode) {form : Form} {insn : AsmInsn Text}
    (known : forms.lookup (u.uppercase first) = some form)
    (parsed : form.parse 1 (u.uppercase first) (rest.map Prod.snd) = .ok insn) :
    assembleSource u (spaced first rest) =
      match encodeInsn (fun _ => none) 0 insn with
      | .error e => .error (encodeError e)
      | .ok word => .ok [word] := by
  have tokens : ∀ t ∈ first :: rest.map Prod.snd, IsToken t := fun t mem => (words t mem).toIsToken
  have here := words first List.mem_cons_self
  have some := spaced_ne_nil here.nonempty rest
  have filled : ¬ (spaced first rest).isEmpty = true := by
    rw [List.isEmpty_iff]
    exact some
  have noDirective : ¬ (spaced first rest).head? = Option.some '.' := by
    intro head
    rw [head?_spaced here.nonempty] at head
    exact (here.plain '.' (List.mem_of_head? head)).2.2.2 rfl
  have noLabel : ¬ ((spaced first rest).getLast? = Option.some ':' ∧
      (spaced first rest).head? ≠ Option.some ';' ∧ (spaced first rest).head? ≠ Option.some '#') := by
    rintro ⟨last, -⟩
    obtain ⟨t, found, inside⟩ := getLast?_spaced tokens last
    exact ((words t found).plain ':' inside).2.2.1 rfl
  have one : lines (spaced first rest) = [spaced first rest] :=
    lines_eq_singleton some fun c mem => (plain_spaced words mem).2.2
  have line : sourceLine u ⟨[], 0, false⟩ 1 (spaced first rest) =
      .ok ⟨[.item (.insn insn)], 1, false⟩ := by
    unfold sourceLine
    rw [stripComment_spaced words, trim_spaced tokens, if_neg filled, if_neg noDirective,
      if_neg noLabel, parseInstruction_spaced words u 1 known, parsed]
    rfl
  rw [assembleSource, one, sourceLines, line]
  dsimp only
  rw [sourceLines]
  have encoded : assemble [AsmLine.item (.insn insn)] =
      (encodeInsn (fun _ => none) 0 insn).map fun word => [word] := by
    rw [assemble, items, encodeFrom]
    have table : labels [AsmLine.item (AsmItem.insn insn)] = fun _ => none := rfl
    rw [table, encodeItem]
    cases encodeInsn (fun _ => none) 0 insn with
    | error e => rfl
    | ok word => rfl
  dsimp only
  rw [encoded]
  cases encodeInsn (fun _ => none) 0 insn with
  | error e => rfl
  | ok word => rfl

end Line

end Asm

end Unheaded.Mbc
