import Unheaded.Mbc.AsmText
import Unheaded.Mbc.Host

/-!
# The disassembler

`monad_mbc::disasm`: the text of an instruction word.
-/

namespace Unheaded.Mbc

open Lib List MbcInsn Asm Asm.Form

namespace Disasm

/-! ## Texts -/

/-- `r{}`. -/
def regText (r : Reg) : Text := 'r' :: showNat 10 r.toNat

/-- `0x{:x}`. -/
def hexText (n : Nat) : Text := '0' :: 'x' :: showNat 16 n

variable (mnemonic : String)

def registersText (dst src : Reg) : Text :=
  mnemonic.toList ++ (regText dst ++ [',']) ++ [' '] ++ regText src

def registerText (dst : Reg) : Text := mnemonic.toList ++ regText dst

def immediateText (dst : Reg) (imm : Text) : Text :=
  mnemonic.toList ++ (regText dst ++ [',']) ++ [' '] ++ imm

/-- `[r{}+{}]`. -/
def memoryText (base : Reg) (offset : Text) : Text := '[' :: (regText base ++ '+' :: (offset ++ [']']))

def loadText (dst src : Reg) (offset : Text) : Text :=
  mnemonic.toList ++ (regText dst ++ [',']) ++ [' '] ++ memoryText src offset

def storeText (dst src : Reg) (offset : Text) : Text :=
  mnemonic.toList ++ (memoryText dst offset ++ [',']) ++ [' '] ++ regText src

def targetText (target : Nat) : Text := mnemonic.toList ++ hexText target

/-- The text of a `SYSCALL`. -/
def syscallText (imm : Half) : Text :=
  if imm = 0x01 then "DRAW_FRAME".toList
  else if imm = 0x02 then "GET_KEY".toList
  else if imm = 0x03 then "GET_TICKS".toList
  else if imm = 0x04 then "SLEEP".toList
  else if imm = 0xFF then "HALT_SYSCALL".toList
  else targetText "SYSCALL " imm.toNat

/-- `UNKNOWN 0x{:02x}`. -/
def unknownText (opcode : Byte) : Text :=
  let digits := showNat 16 opcode.toNat
  "UNKNOWN 0x".toList ++ replicate (2 - digits.length) '0' ++ digits

def disasmInsn (word addr : Word) : Text :=
  let dst := dst word
  let src := src word
  let imm := showInt (imm16 word).toInt
  let immU := (imm16 word).toNat
  let target := (addr + 1 + branchOffset word).toNat
  match opcode? word with
  | some .nop => "NOP".toList
  | some .add => registersText "ADD  " dst src
  | some .sub => registersText "SUB  " dst src
  | some .mul => registersText "MUL  " dst src
  | some .div => registersText "DIV  " dst src
  | some .mod => registersText "MOD  " dst src
  | some .neg => registerText "NEG  " dst
  | some .and => registersText "AND  " dst src
  | some .or => registersText "OR   " dst src
  | some .xor => registersText "XOR  " dst src
  | some .not => registerText "NOT  " dst
  | some .shl => immediateText "SHL  " dst (showNat 10 immU)
  | some .shr => immediateText "SHR  " dst (showNat 10 immU)
  | some .sar => immediateText "SAR  " dst (showNat 10 immU)
  | some .shlr => registersText "SHLR " dst src
  | some .shrr => registersText "SHRR " dst src
  | some .sarr => registersText "SARR " dst src
  | some .mulh => registersText "MULH " dst src
  | some .push => registerText "PUSH " dst
  | some .pop => registerText "POP  " dst
  | some .loadImm32 => immediateText "LOAD_IMM32 " dst (hexText immU)
  | some .addi => immediateText "ADDI " dst imm
  | some .mov => registersText "MOV  " dst src
  | some .movi => immediateText "MOVI " dst imm
  | some .cmp => registersText "CMP  " dst src
  | some .jmp => targetText "JMP  " target
  | some .jz => targetText "JZ   " target
  | some .jnz => targetText "JNZ  " target
  | some .jn => targetText "JN   " target
  | some .jp => targetText "JP   " target
  | some .jc => targetText "JC   " target
  | some .jnc => targetText "JNC  " target
  | some .call => targetText "CALL " (branchRaw word).toNat
  | some .ret => "RET".toList
  | some .jmpr => registerText "JMPR " dst
  | some .callr => registerText "CALLR " dst
  | some .ld => loadText "LD   " dst src imm
  | some .st => storeText "ST   " dst src imm
  | some .ldb => loadText "LDB  " dst src imm
  | some .stb => storeText "STB  " dst src imm
  | some .ldh => loadText "LDH  " dst src imm
  | some .sth => storeText "STH  " dst src imm
  | some .cli => "CLI".toList
  | some .sti => "STI".toList
  | some .xchg => loadText "XCHG " dst src imm
  | some .cas => "CAS  r0, [r1], r2".toList
  | some .syscall => syscallText (imm16 word)
  | some .halt => "HALT".toList
  | _ => unknownText (opcode word)

/-! ## Words of the texts -/

def wordChar (c : Char) : Bool := !isWhite c && c != ';' && c != '#' && c != ':' && c != '.'

theorem isWord_of_chars {t : Text} (nonempty : t ≠ []) (chars : ∀ c ∈ t, wordChar c = true) :
    Asm.IsWord t := by
  refine ⟨⟨nonempty, ?_⟩, ?_⟩
  · intro c mem
    have all := chars c mem
    simp only [wordChar, Bool.and_eq_true, Bool.not_eq_true'] at all
    exact all.1.1.1.1
  · intro c mem
    have all := chars c mem
    simp only [wordChar, Bool.and_eq_true, bne_iff_ne] at all
    exact ⟨all.1.1.1.2, all.1.1.2, all.1.2, all.2⟩

section

variable {P : Char → Prop}

theorem forall_showNat (digits : ∀ k < 16, P (Nat.digitChar k)) {radix : Nat}
    (two : 1 < radix) (sixteen : radix ≤ 16) (n : Nat) : ∀ c ∈ showNat radix n, P c := by
  intro c mem
  obtain ⟨k, digit, rfl⟩ := mem_showNat two mem
  exact digits k (by omega)

theorem chars_append {s t : Text} (left : ∀ c ∈ s, P c) (right : ∀ c ∈ t, P c) :
    ∀ c ∈ s ++ t, P c := by
  intro c mem
  rcases mem_append.mp mem with here | there
  · exact left c here
  · exact right c there

theorem chars_cons {a : Char} {t : Text} (head : P a) (tail : ∀ c ∈ t, P c) :
    ∀ c ∈ a :: t, P c := by
  intro c mem
  rcases mem_cons.mp mem with rfl | there
  · exact head
  · exact tail c there

theorem chars_nil : ∀ c ∈ ([] : Text), P c := fun _ mem => by cases mem

end

section Chars

variable {P : Char → Prop} (digits : ∀ k < 16, P (Nat.digitChar k))

include digits

theorem chars_regText (letter : P 'r') (r : Reg) : ∀ c ∈ regText r, P c :=
  chars_cons letter (forall_showNat digits (by decide) (by decide) _)

theorem chars_hexText (zero : P '0') (x : P 'x') (n : Nat) : ∀ c ∈ hexText n, P c :=
  chars_cons zero (chars_cons x (forall_showNat digits (by decide) (by decide) _))

theorem chars_showInt (minus : P '-') (i : Int) : ∀ c ∈ showInt i, P c := by
  unfold showInt
  split
  · exact chars_cons minus (forall_showNat digits (by decide) (by decide) _)
  · exact forall_showNat digits (by decide) (by decide) _

end Chars

def Operand (t : Text) : Prop := t ≠ [] ∧ ∀ c ∈ t, wordChar c = true ∧ c ≠ ','

theorem operand_regText (r : Reg) : Operand (regText r) :=
  ⟨cons_ne_nil _ _, chars_regText (by decide) (by decide) r⟩

theorem operand_hexText (n : Nat) : Operand (hexText n) :=
  ⟨cons_ne_nil _ _, chars_hexText (by decide) (by decide) (by decide) n⟩

theorem operand_showNat (n : Nat) : Operand (showNat 10 n) :=
  ⟨showNat_ne_nil n, forall_showNat (by decide) (by decide) (by decide) n⟩

theorem operand_showInt (i : Int) : Operand (showInt i) := by
  refine ⟨?_, chars_showInt (by decide) (by decide) i⟩
  unfold showInt
  split
  · exact cons_ne_nil _ _
  · exact showNat_ne_nil _

theorem operand_memoryText (base : Reg) {t : Text} (operand : Operand t) :
    Operand (memoryText base t) :=
  ⟨cons_ne_nil _ _, chars_cons (by decide) (chars_append (operand_regText base).2
    (chars_cons (by decide) (chars_append operand.2 (chars_cons (by decide) chars_nil))))⟩

section Operands

variable {t : Text} (operand : Operand t)

include operand

theorem Operand.isWord : Asm.IsWord t :=
  isWord_of_chars operand.1 fun c mem => (operand.2 c mem).1

theorem Operand.isWord_comma : Asm.IsWord (t ++ [',']) :=
  isWord_of_chars (append_ne_nil_of_right_ne_nil _ (cons_ne_nil _ _))
    (chars_append (fun c mem => (operand.2 c mem).1) (chars_cons (by decide) chars_nil))

theorem Operand.trimmed : trim t = t :=
  trim_eq_self (fun c head => operand.isWord.solid c (List.mem_of_head? head))
    fun c last => operand.isWord.solid c (List.mem_of_getLast? last)

theorem Operand.uncut : trimEndMatches ',' t = t := by
  rw [trimEndMatches, rdropWhile_eq_self_iff]
  intro some
  rw [beq_iff_eq]
  exact (operand.2 _ (getLast_mem some)).2

theorem Operand.cut : trimEndMatches ',' (t ++ [',']) = t := by
  have one : trimEndMatches ',' (t ++ [',']) = trimEndMatches ',' t :=
    rdropWhile_concat_pos _ _ _ (beq_self_eq_true ',')
  rw [one, operand.uncut]

end Operands

/-! ## Reading operands back -/

theorem parseRegister_regText (r : Reg) : parseRegister (regText r) = .ok r := by
  have read : parseUnsigned 10 256 (showNat 10 r.toNat) = some r.toNat :=
    parseUnsigned_showNat (by decide) (by decide) (by omega)
  have inside : ¬ 15 < r.toNat := by omega
  simp only [parseRegister, regText, read]
  rw [if_neg inside, BitVec.ofNat_toNat, BitVec.setWidth_eq]

variable {t : Text}

theorem parseImmediate_of_value (operand : Operand t) (val : Int) (low : -32768 ≤ val)
    (high : val ≤ 65535)
    (read : (match hexDigits? t with
      | some digits => parseSigned 16 (2 ^ 63) digits
      | none => parseSigned 10 (2 ^ 63) t) = some val) :
    parseImmediate t = .ok (BitVec.ofInt 16 val) := by
  have inside : ¬ (val < -32768 ∨ 65535 < val) := by omega
  unfold parseImmediate
  dsimp only
  rw [operand.trimmed]
  cases hex : hexDigits? t with
  | some digits =>
    rw [hex] at read
    dsimp only at read ⊢
    rw [read]
    dsimp only
    rw [if_neg inside]
  | none =>
    rw [hex] at read
    dsimp only at read ⊢
    rw [read]
    dsimp only
    rw [if_neg inside]

theorem hexDigits?_of_decimal (decimal : ∀ c ∈ t, c ≠ 'x' ∧ c ≠ 'X') : hexDigits? t = none := by
  unfold hexDigits?
  split
  · exact absurd rfl (decimal 'x' (mem_cons_of_mem _ mem_cons_self)).1
  · exact absurd rfl (decimal 'X' (mem_cons_of_mem _ mem_cons_self)).2
  · rfl

theorem parseImmediate_showNat (imm : Half) : parseImmediate (showNat 10 imm.toNat) = .ok imm := by
  have decimal := hexDigits?_of_decimal (t := showNat 10 imm.toNat)
    (forall_showNat (by decide) (by decide) (by decide) _)
  rw [parseImmediate_of_value (operand_showNat _) imm.toNat (by omega) (by omega) (by
    rw [decimal]
    exact parseSigned_showNat (by decide) (by decide) (by omega))]
  rw [BitVec.ofInt_natCast, BitVec.ofNat_toNat, BitVec.setWidth_eq]

theorem parseImmediate_hexText (imm : Half) : parseImmediate (hexText imm.toNat) = .ok imm := by
  rw [parseImmediate_of_value (operand_hexText _) imm.toNat (by omega) (by omega)
    (parseSigned_showNat (by decide) (by decide) (by omega))]
  rw [BitVec.ofInt_natCast, BitVec.ofNat_toNat, BitVec.setWidth_eq]

theorem parseImmediate_showInt (imm : Half) : parseImmediate (showInt imm.toInt) = .ok imm := by
  have low := BitVec.le_toInt imm
  have high := BitVec.toInt_lt (x := imm)
  have decimal := hexDigits?_of_decimal (t := showInt imm.toInt)
    (chars_showInt (by decide) (by decide) _)
  rw [parseImmediate_of_value (operand_showInt _) imm.toInt (by omega) (by omega) (by
    rw [decimal]
    exact parseSigned_showInt (by omega) (by omega))]
  rw [BitVec.ofInt_toInt]

theorem memoryOperand_memoryText {offset : Text} (operand : Operand offset) {imm : Half}
    (read : parseImmediate offset = .ok imm) (lineNum : Nat) (base : Reg) :
    memoryOperand lineNum (memoryText base offset) = .ok (base, imm) := by
  have noPlus : ∀ c ∈ regText base, (decide (c ≠ '+')) = true :=
    chars_regText (by decide) (by decide) base
  have brackets : ¬ ((memoryText base offset).head? ≠ some '[' ∨
      (memoryText base offset).getLast? ≠ some ']') := by
    have last : (memoryText base offset).getLast? = some ']' := by
      unfold memoryText
      rw [← List.cons_append, ← List.cons_append, ← List.append_assoc, List.getLast?_concat]
    rw [not_or, not_not, not_not]
    exact ⟨rfl, last⟩
  have inner : (memoryText base offset).tail.dropLast = regText base ++ '+' :: offset := by
    rw [memoryText, tail_cons, ← List.cons_append, ← List.append_assoc, dropLast_concat]
  have plus : '+' ∈ regText base ++ '+' :: offset := mem_append_right _ mem_cons_self
  have front : (regText base ++ '+' :: offset).takeWhile (· ≠ '+') = regText base := by
    rw [takeWhile_append_of_pos noPlus, takeWhile_cons_of_neg (by decide), append_nil]
  have back : ((regText base ++ '+' :: offset).dropWhile (· ≠ '+')).tail = offset := by
    rw [dropWhile_append_of_pos noPlus, dropWhile_cons_of_neg (by decide), tail_cons]
  rw [memoryOperand, if_neg brackets]
  dsimp only
  rw [inner, if_pos plus, front, back, (operand_regText base).trimmed, operand.trimmed]
  dsimp only
  rw [parseRegister_regText, read]
  rfl

/-! ## Reading instructions back -/

def mnemonicChar (c : Char) : Bool := wordChar c && decide (c.toNat < 128) && c.toUpper == c

/-- A mnemonic in capitals. -/
structure Capitals (t : Text) : Prop where
  nonempty : t ≠ []
  chars : t.all mnemonicChar = true

def mnemonicOf (padded : String) : Text := padded.toList.takeWhile (· != ' ')

/-- The blanks behind the mnemonic, less one. -/
def gapOf (padded : String) : Nat := (padded.toList.dropWhile (· != ' ')).length - 1

/-- The text before the operands is a mnemonic of the assembler, with blanks behind it. -/
structure Spells (padded : String) (form : Asm.Form) : Prop where
  blanks : padded.toList = mnemonicOf padded ++ replicate (gapOf padded + 1) ' '
  capitals : Capitals (mnemonicOf padded)
  known : forms.lookup (mnemonicOf padded) = some form

theorem Capitals.isWord (capitals : Capitals t) : Asm.IsWord t := by
  refine isWord_of_chars capitals.nonempty fun c mem => ?_
  have char := List.all_eq_true.mp capitals.chars c mem
  rw [mnemonicChar, Bool.and_eq_true, Bool.and_eq_true] at char
  exact char.1.1

theorem Capitals.uppercase_eq (u : Unicode) (capitals : Capitals t) : u.uppercase t = t := by
  have each : ∀ c ∈ t, u.toUppercase c = [c] := by
    intro c mem
    have char := List.all_eq_true.mp capitals.chars c mem
    rw [mnemonicChar, Bool.and_eq_true, Bool.and_eq_true, decide_eq_true_iff, beq_iff_eq] at char
    rw [u.ascii c char.1.2, char.2]
  rw [Unicode.uppercase, flatMap_congr each, flatMap_singleton']

theorem assemble_bare (u : Unicode) {mnemonic : Text} {o : Opcode} {imm : Half}
    (capitals : Capitals mnemonic) (known : forms.lookup mnemonic = some (.bare o imm)) :
    assembleSource u mnemonic = .ok [encode o.toByte 0 0 imm] := by
  have words : ∀ t ∈ mnemonic :: ([] : List (Nat × Text)).map Prod.snd, Asm.IsWord t :=
    forall_mem_singleton.mpr capitals.isWord
  have found : forms.lookup (u.uppercase mnemonic) = some (.bare o imm) := by
    rw [capitals.uppercase_eq, known]
  have parsed : (bare o imm).parse 1 (u.uppercase mnemonic) [] =
      .ok ⟨o, 0, 0, imm, none⟩ := rfl
  exact assembleSource_spaced words u found parsed

section Forms

variable (u : Unicode) {padded : String} {form : Asm.Form} (spells : Spells padded form)

include spells

variable {insn : AsmInsn Text}

theorem Spells.assemble_one {first : Text} (word : Asm.IsWord first)
    (parsed : form.parse 1 (mnemonicOf padded) [first] = .ok insn) :
    assembleSource u (padded.toList ++ first) =
      match encodeInsn (fun _ => none) 0 insn with
      | .error e => .error (encodeError e)
      | .ok word => .ok [word] := by
  have upper := spells.capitals.uppercase_eq u
  have text : padded.toList ++ first = spaced (mnemonicOf padded) [(gapOf padded, first)] := by
    rw [spells.blanks]
    rfl
  have words := forall_mem_cons.mpr ⟨spells.capitals.isWord, forall_mem_singleton.mpr word⟩
  rw [text]
  exact assembleSource_spaced words u (by rw [upper]; exact spells.known)
    (by rw [upper]; exact parsed)

theorem Spells.assemble_two {first second : Text} (word : Asm.IsWord first)
    (word' : Asm.IsWord second)
    (parsed : form.parse 1 (mnemonicOf padded) [first, second] = .ok insn)
    (bare : insn.labelRef = none) : assembleSource u (padded.toList ++ first ++ [' '] ++ second) =
      .ok [encode insn.opcode.toByte insn.dst insn.src insn.imm] := by
  have upper := spells.capitals.uppercase_eq u
  have text : padded.toList ++ first ++ [' '] ++ second =
      spaced (mnemonicOf padded) [(gapOf padded, first), (0, second)] := by
    rw [spells.blanks, spaced, spaced, List.append_assoc, List.append_assoc, List.append_assoc,
      List.append_assoc, List.append_assoc]
    rfl
  have words := forall_mem_cons.mpr ⟨spells.capitals.isWord,
      forall_mem_cons.mpr ⟨word, forall_mem_singleton.mpr word'⟩⟩
  have plain : encodeInsn (fun _ => none) 0 insn =
      .ok (encode insn.opcode.toByte insn.dst insn.src insn.imm) := by
    rw [encodeInsn, bare]
  rw [text, assembleSource_spaced words u (by rw [upper]; exact spells.known)
    (by rw [upper]; exact parsed), plain]

end Forms

section Classes

variable (u : Unicode) {padded : String} {o : Opcode}

theorem assemble_registers (spells : Spells padded (.registers o)) (dst src : Reg) :
    assembleSource u (registersText padded dst src) = .ok [encode o.toByte dst src 0] := by
  have parsed : (Asm.Form.registers o).parse 1 (mnemonicOf padded) [regText dst ++ [','], regText src] =
      .ok ⟨o, dst, src, 0, none⟩ := by
    unfold Asm.Form.parse
    dsimp only
    rw [(operand_regText dst).cut, (operand_regText src).uncut, parseRegister_regText,
      parseRegister_regText]
    rfl
  have assembled := spells.assemble_two u (operand_regText dst).isWord_comma
    (operand_regText src).isWord parsed rfl
  exact assembled

theorem assemble_register (spells : Spells padded (.register o)) (dst : Reg) :
    assembleSource u (registerText padded dst) = .ok [encode o.toByte dst 0 0] := by
  have parsed : (register o).parse 1 (mnemonicOf padded) [regText dst] = .ok ⟨o, dst, 0, 0, none⟩ := by
    unfold parse
    dsimp only
    rw [parseRegister_regText]
    rfl
  exact spells.assemble_one u (operand_regText dst).isWord parsed

theorem assemble_immediate (spells : Spells padded (.immediate o)) (dst : Reg) {t : Text}
    (operand : Operand t) {imm : Half} (read : parseImmediate t = .ok imm) :
    assembleSource u (immediateText padded dst t) = .ok [encode o.toByte dst 0 imm] := by
  have parsed : (Asm.Form.immediate o).parse 1 (mnemonicOf padded) [regText dst ++ [','], t] =
      .ok ⟨o, dst, 0, imm, none⟩ := by
    unfold Asm.Form.parse registerOperand
    dsimp only
    rw [(operand_regText dst).cut, operand.uncut, parseRegister_regText, read]
    rfl
  have assembled := spells.assemble_two u (operand_regText dst).isWord_comma operand.isWord parsed rfl
  exact assembled

theorem assemble_load (spells : Spells padded (.load o)) (dst src : Reg) (imm : Half) :
    assembleSource u (loadText padded dst src (showInt imm.toInt)) =
      .ok [encode o.toByte dst src imm] := by
  have memory := operand_memoryText src (operand_showInt imm.toInt)
  have read := memoryOperand_memoryText (operand_showInt imm.toInt) (parseImmediate_showInt imm) 1 src
  have parsed : (load o).parse 1 (mnemonicOf padded)
      [regText dst ++ [','], memoryText src (showInt imm.toInt)] = .ok ⟨o, dst, src, imm, none⟩ := by
    unfold parse registerOperand
    dsimp only
    rw [memory.uncut, read, (operand_regText dst).cut, parseRegister_regText]
    rfl
  have assembled := spells.assemble_two u (operand_regText dst).isWord_comma memory.isWord parsed rfl
  exact assembled

theorem assemble_store (spells : Spells padded (.store o)) (dst src : Reg) (imm : Half) :
    assembleSource u (storeText padded dst src (showInt imm.toInt)) =
      .ok [encode o.toByte dst src imm] := by
  have memory := operand_memoryText dst (operand_showInt imm.toInt)
  have read := memoryOperand_memoryText (operand_showInt imm.toInt) (parseImmediate_showInt imm) 1 dst
  have parsed : (store o).parse 1 (mnemonicOf padded)
      [memoryText dst (showInt imm.toInt) ++ [','], regText src] = .ok ⟨o, dst, src, imm, none⟩ := by
    unfold parse registerOperand
    dsimp only
    rw [memory.cut, read, (operand_regText src).uncut, parseRegister_regText]
    rfl
  have assembled := spells.assemble_two u memory.isWord_comma (operand_regText src).isWord parsed rfl
  exact assembled

theorem assemble_branch (spells : Spells padded (.branch o)) (target : Nat) :
    assembleSource u (targetText padded target) = .error (.undefinedLabel (hexText target)) := by
  have parsed : (Asm.Form.branch o).parse 1 (mnemonicOf padded) [hexText target] =
      .ok ⟨o, 0, 0, 0, some (hexText target)⟩ := rfl
  exact spells.assemble_one u (operand_hexText target).isWord parsed

theorem assemble_syscall (imm : Half) (named : imm ≠ 0xFF) :
    assembleSource u (syscallText imm) = .ok [encode Opcode.syscall.toByte 0 0 imm] := by
  unfold syscallText
  split
  · next same =>
      rw [same]
      exact assemble_bare u ⟨by decide, by decide⟩ rfl
  · split
    · next same =>
        rw [same]
        exact assemble_bare u ⟨by decide, by decide⟩ rfl
    · split
      · next same =>
          rw [same]
          exact assemble_bare u ⟨by decide, by decide⟩ rfl
      · split
        · next same =>
            rw [same]
            exact assemble_bare u ⟨by decide, by decide⟩ rfl
        · have spells : Spells "SYSCALL " .syscall := ⟨rfl, ⟨by decide, by decide⟩, rfl⟩
          have parsed : syscall.parse 1 (mnemonicOf "SYSCALL ") [hexText imm.toNat] =
              .ok ⟨.syscall, 0, 0, imm, none⟩ := by
            unfold parse
            dsimp only
            rw [(operand_hexText _).uncut, parseImmediate_hexText]
            rfl
          exact spells.assemble_one u (operand_hexText _).isWord parsed

end Classes

end Disasm

/-! ## What an instruction depends on -/

namespace Opcode

def readsDst : Opcode → Bool
  | nop | ret | halt | syscall | cli | sti | cas | fence | mret | sret | int | iret => false
  | _ => true

/-- The instruction depends on its second register field. -/
def readsSrc : Opcode → Bool
  | nop | ret | halt | syscall | cli | sti | cas | fence | mret | sret | int | iret => false
  | neg | not | shl | shr | sar | push | pop | loadImm32 | addi | movi => false
  | _ => true

def readsImm : Opcode → Bool
  | shl | shr | sar | loadImm32 | addi | movi => true
  | ld | st | ldb | stb | ldh | sth | int | xchg | scW => true
  | _ => false

def readsTarget : Opcode → Bool
  | jmp | jz | jnz | jn | jp | jc | jnc | call => true
  | _ => false

/-- The disassembler prints the instruction under a mnemonic that the assembler reads with the same
operands. -/
def spelled : Opcode → Bool
  -- printed as unknown
  | mulhu | int | iret | fence | mret | sret | lrW | scW => false
  -- printed with a number, read with a label
  | jmp | jz | jnz | jn | jp | jc | jnc | call => false
  -- no mnemonic of the assembler
  | jmpr | callr | cli | sti | xchg | cas => false
  | _ => true

end Opcode

theorem Cpu.executeInsn_congr (c : Cpu) {o : Opcode} {w w' : Word}
    (known : opcode? w = some o) (known' : opcode? w' = some o)
    (dst : o.readsDst = true → dst w = dst w') (src : o.readsSrc = true → src w = src w')
    (imm : o.readsImm = true → imm16 w = imm16 w')
    (straight : o.readsTarget = false) : c.executeInsn w = c.executeInsn w' := by
  unfold Cpu.executeInsn imm16Signed
  rw [known, known']
  cases o
  case jmp | jz | jnz | jn | jp | jc | jnc | call => cases straight
  all_goals
    simp only [Opcode.readsDst, Opcode.readsSrc, Opcode.readsImm, forall_const, Bool.false_eq_true,
      false_implies] at dst src imm
    first
    | rfl
    | simp only [dst, src, imm]

namespace Disasm

/-- The text is read as one instruction, which is executed like the original in every state. -/
def Reassembles (u : Unicode) (word addr : Word) : Prop :=
  ∃ word', assembleSource u (disasmInsn word addr) = .ok [word'] ∧
    ∀ c : Cpu, c.executeInsn word = c.executeInsn word'

section Classes

variable {u : Unicode} {word addr : Word} {o : Opcode} (known : opcode? word = some o)
  (straight : o.readsTarget = false)

include known straight

theorem reassembles_of {d s : Reg} {i : Half}
    (assembled : assembleSource u (disasmInsn word addr) = .ok [encode o.toByte d s i])
    (dst : o.readsDst = true → dst word = d) (src : o.readsSrc = true → src word = s)
    (imm : o.readsImm = true → imm16 word = i) : Reassembles u word addr := by
  refine ⟨_, assembled, fun c => c.executeInsn_congr known (opcode?_encode d s i o) ?_ ?_ ?_
    straight⟩
  · rw [dst_encode]
    exact dst
  · rw [src_encode]
    exact src
  · rw [imm16_encode]
    exact imm

variable {padded : String} {mnemonic : Text}

theorem reassembles_registers (imm : o.readsImm = false)
    (text : disasmInsn word addr = registersText padded (dst word) (src word))
    (spells : Spells padded (.registers o)) : Reassembles u word addr :=
  reassembles_of known straight (by rw [text]; exact assemble_registers u spells _ _)
    (fun _ => rfl) (fun _ => rfl) fun reads => absurd (reads.symm.trans imm) (by decide)

theorem reassembles_register (src : o.readsSrc = false) (imm : o.readsImm = false)
    (text : disasmInsn word addr = registerText padded (dst word))
    (spells : Spells padded (.register o)) : Reassembles u word addr :=
  reassembles_of known straight (by rw [text]; exact assemble_register u spells _) (fun _ => rfl)
    (fun reads => absurd (reads.symm.trans src) (by decide))
    fun reads => absurd (reads.symm.trans imm) (by decide)

theorem reassembles_immediate (src : o.readsSrc = false) {t : Text} (operand : Operand t)
    (read : parseImmediate t = .ok (imm16 word))
    (text : disasmInsn word addr = immediateText padded (dst word) t)
    (spells : Spells padded (.immediate o)) : Reassembles u word addr :=
  reassembles_of known straight (by rw [text]; exact assemble_immediate u spells _ operand read)
    (fun _ => rfl) (fun reads => absurd (reads.symm.trans src) (by decide)) fun _ => rfl

theorem reassembles_bare (capitals : Capitals mnemonic)
    (lookup : forms.lookup mnemonic = some (.bare o 0)) (dst : o.readsDst = false)
    (src : o.readsSrc = false) (imm : o.readsImm = false) (text : disasmInsn word addr = mnemonic) :
    Reassembles u word addr :=
  reassembles_of known straight (by rw [text]; exact assemble_bare u capitals lookup)
    (fun reads => absurd (reads.symm.trans dst) (by decide))
    (fun reads => absurd (reads.symm.trans src) (by decide))
    fun reads => absurd (reads.symm.trans imm) (by decide)

theorem reassembles_load (text : disasmInsn word addr = loadText padded (dst word) (src word)
      (showInt (imm16 word).toInt)) (spells : Spells padded (.load o)) : Reassembles u word addr :=
  reassembles_of known straight (by rw [text]; exact assemble_load u spells _ _ _) (fun _ => rfl)
    (fun _ => rfl) fun _ => rfl

theorem reassembles_store (text : disasmInsn word addr = storeText padded (dst word) (src word)
      (showInt (imm16 word).toInt)) (spells : Spells padded (.store o)) : Reassembles u word addr :=
  reassembles_of known straight (by rw [text]; exact assemble_store u spells _ _ _) (fun _ => rfl)
    (fun _ => rfl) fun _ => rfl

end Classes

/-- The text of every spelled instruction is read back. -/
theorem reassembles_spelled (u : Unicode) {word : Word} (addr : Word) {o : Opcode}
    (known : opcode? word = some o) (spelled : o.spelled = true)
    (named : o = .syscall → imm16 word ≠ 0xFF) : Reassembles u word addr := by
  have text := disasmInsn.eq_def word addr
  dsimp only at text
  rw [known] at text
  cases o
  case add | sub | mul | div | mod | and | or | xor | mov | cmp | shlr | shrr | sarr | mulh =>
    exact reassembles_registers known rfl rfl text ⟨rfl, ⟨by decide, by decide⟩, rfl⟩
  case neg | not | push | pop =>
    exact reassembles_register known rfl rfl rfl text ⟨rfl, ⟨by decide, by decide⟩, rfl⟩
  case shl | shr | sar =>
    exact reassembles_immediate known rfl rfl (operand_showNat _) (parseImmediate_showNat _) text
      ⟨rfl, ⟨by decide, by decide⟩, rfl⟩
  case addi | movi =>
    exact reassembles_immediate known rfl rfl (operand_showInt _) (parseImmediate_showInt _) text
      ⟨rfl, ⟨by decide, by decide⟩, rfl⟩
  case loadImm32 =>
    exact reassembles_immediate known rfl rfl (operand_hexText _) (parseImmediate_hexText _) text
      ⟨rfl, ⟨by decide, by decide⟩, rfl⟩
  case ld | ldb | ldh => exact reassembles_load known rfl text ⟨rfl, ⟨by decide, by decide⟩, rfl⟩
  case st | stb | sth => exact reassembles_store known rfl text ⟨rfl, ⟨by decide, by decide⟩, rfl⟩
  case nop | ret | halt =>
    dsimp only at text
    exact reassembles_bare known rfl ⟨by decide, by decide⟩ rfl rfl rfl rfl text
  case syscall =>
    refine reassembles_of known rfl (d := 0) (s := 0) (i := imm16 word) ?_
      (fun reads => nomatch reads) (fun reads => nomatch reads) (fun _ => rfl)
    rw [text]
    exact assemble_syscall u _ (named rfl)
  all_goals cases spelled

theorem target_refused (u : Unicode) {word : Word} (addr : Word) {o : Opcode}
    (known : opcode? word = some o) (jumps : o.readsTarget = true) :
    ∃ target, assembleSource u (disasmInsn word addr) =
      .error (.undefinedLabel (hexText target)) := by
  have text := disasmInsn.eq_def word addr
  rw [known] at text
  rw [text]
  cases o
  case jmp | jz | jnz | jn | jp | jc | jnc | call =>
    exact ⟨_, assemble_branch u ⟨rfl, ⟨by decide, by decide⟩, rfl⟩ _⟩
  all_goals cases jumps

/-- Disassembled code is assembled again: the text of an instruction that both sides spell is one
instruction, executed alike in every state; a jump or call is printed with its target, which the
assembler refuses as a label that is not defined. -/
theorem disassembly_reassembles (u : Unicode) (word addr : Word) {o : Opcode}
    (known : opcode? word = some o) :
    (o.spelled = true → (o = .syscall → imm16 word ≠ 0xFF) → Reassembles u word addr) ∧
      (o.readsTarget = true → ∃ target, assembleSource u (disasmInsn word addr) =
        .error (.undefinedLabel (hexText target))) :=
  ⟨reassembles_spelled u addr known, target_refused u addr known⟩

/-- `LD   r1, [r2+-5]`. -/
theorem disassembly_reassembles_load :
    disasmInsn 0x3012FFFB 0 = "LD   r1, [r2+-5]".toList ∧ Reassembles asciiUnicode 0x3012FFFB 0 :=
  ⟨by decide, (disassembly_reassembles asciiUnicode 0x3012FFFB 0 (o := .ld) (by decide)).1 rfl
    fun call => nomatch call⟩

/-- The jump of three at address 5 is printed as `JMP  0x9`, and `0x9` is no label. -/
theorem jump_not_reassembled :
    disasmInsn 0x20000003 5 = "JMP  0x9".toList ∧ opcode? 0x20000003 = some .jmp ∧
      ¬ Reassembles asciiUnicode 0x20000003 5 := by
  have known : opcode? 0x20000003 = some .jmp := by decide
  refine ⟨by decide, known, ?_⟩
  rintro ⟨word', assembled, -⟩
  obtain ⟨target, refused⟩ := target_refused asciiUnicode 5 known rfl
  rw [refused] at assembled
  cases assembled

end Disasm

end Unheaded.Mbc
