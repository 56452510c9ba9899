import Unheaded.Mbc.AsmText
import Unheaded.Mbc.HostCore

/-!
# Labels

Where the branches, jumps and calls of an assembled source land on the host emulator.
-/

namespace Unheaded.Mbc.Asm

open Lib BitVec AsmLine
open BitVec (ofNat)

variable {Label : Type}

theorem items_append (before after : List (AsmLine Label)) :
    items (before ++ after) = items before ++ items after := by
  induction before with
  | nil => rfl
  | cons line before ih =>
    cases line with
    | label name => exact ih
    | item item => exact congrArg (item :: ·) ih

/-- A label has the position of its last definition. -/
theorem labelsFrom_eq_some [DecidableEq Label] {table : Label → Option Nat} {pc t : Nat} {name : Label}
    {source : List (AsmLine Label)} (found : labelsFrom pc table source name = some t) :
    (table name = some t ∧ label name ∉ source) ∨
      ∃ before after, source = before ++ label name :: after ∧ label name ∉ after ∧
        t = pc + (items before).length := by
  induction source generalizing pc table with
  | nil => exact .inl ⟨found, List.not_mem_nil⟩
  | cons line source ih =>
    cases line with
    | label other =>
      rcases ih found with ⟨known, absent⟩ | ⟨before, after, rfl, last, place⟩
      · by_cases same : other = name
        · subst same
          rw [Function.update_self] at known
          exact .inr ⟨[], source, rfl, absent, (Option.some.inj known).symm⟩
        · rw [Function.update_of_ne (Ne.symm same)] at known
          refine .inl ⟨known, ?_⟩
          simpa [Ne.symm same] using absent
      · exact .inr ⟨.label other :: before, after, rfl, last, place⟩
    | item item =>
      rcases ih found with ⟨known, absent⟩ | ⟨before, after, rfl, last, place⟩
      · exact .inl ⟨known, by simpa using absent⟩
      · refine .inr ⟨.item item :: before, after, rfl, last, ?_⟩
        rw [place, items, List.length_cons]
        omega

/-- An instruction that jumps in a state with these flags. -/
def Jumps (o : Opcode) (flags : Byte) : Prop := o = .call ∨ branchTaken o flags = some true

theorem isBranch_of_branchTaken {o : Opcode} {flags : Byte} {taken : Bool}
    (branch : branchTaken o flags = some taken) : isBranch o = true := by
  cases o <;> first | rfl | cases branch

/-- The word of a jump takes the machine behind it to its target. -/
theorem encodeInsn_lands {table : Label → Option Nat} {index target : Nat} {label : Label}
    {insn : AsmInsn Label} {w : Word} (ref : insn.labelRef = some label)
    (known : table label = some target) (ok : encodeInsn table index insn = .ok w) {c : Cpu}
    (here : c.state.pc = ofNat 32 (index + 1)) (jumps : Jumps insn.opcode c.state.flags) :
    ∃ c', c.executeInsn w = .ok c' ∧ c'.state.pc = ofNat 32 target := by
  rcases jumps with call | branch
  · unfold encodeInsn at ok
    simp only [ref, known, if_pos call] at ok
    split at ok <;> cases ok
    next small =>
      refine ⟨_, by rw [Cpu.executeInsn, MbcInsn.opcode?_encodeBranch], eq_of_toNat_eq ?_⟩
      have raw := MbcInsn.branchRaw_encodeBranch Opcode.call.toByte (ofNat 32 target)
      refine (congrArg BitVec.toNat raw).trans ?_
      rw [BitVec.toNat_and, BitVec.toNat_ofNat]
      exact (Nat.and_two_pow_sub_one_eq_mod _ 24).trans (by omega)
  · obtain ⟨low, high, rfl⟩ := encodeInsn_branch ref known (isBranch_of_branchTaken branch) ok
    refine ⟨_, Cpu.executeInsn_branch (MbcInsn.opcode?_encodeBranch insn.opcode _) branch, ?_⟩
    have lands : c.state.pc + BitVec.ofInt 32 (target - (index + 1)) = ofNat 32 target := by
      rw [here, ← BitVec.ofInt_natCast, ← BitVec.ofInt_natCast, ← BitVec.ofInt_add]
      congr 1
      omega
    rwa [← MbcInsn.branchOffset_encodeBranch insn.opcode.toByte low high] at lands

/-- The host executes word `i` of its ROM. -/
structure Executing (words : List Word) (i : Nat) (c : Cpu) : Prop where
  rom : c.rom = words
  pc : c.state.pc.toNat = i
  running : c.state.halted = 0
  calm : ¬ (c.state.interruptPending ≠ 0 ∧ c.state.interruptsEnabled ≠ 0)

theorem Executing.step_of_ok {words : List Word} {i : Nat} {c c' : Cpu} {w : Word}
    (at_i : Executing words i c)
    (word : words[i]? = some w) (ok : (c.withPc (c.state.pc + 1)).executeInsn w = .ok c') :
    c.step = .ok c'.countInsn := by
  have fetch : c.rom[c.state.pc.toNat]? = some w := by rw [at_i.rom, at_i.pc, word]
  rw [Cpu.step, if_neg (not_not.mpr at_i.running), Cpu.dispatchInterrupt, if_neg at_i.calm]
  simp only [fetch, ok]

/-- In an accepted source each branch, jump or call that names a label has a definition of it, and
taken by the host emulator it sets pc to the index of the words that follow the label's last
definition, wherever both stand. -/
theorem labels_resolve (u : Unicode) {source : Text} {words : List Word}
    (accepted : assembleSource u source = .ok words) :
    ∃ pass, sourceLines u ⟨[], 0, false⟩ 1 (lines source) = .ok pass ∧
      ∀ i insn label, (items pass.lines)[i]? = some (.insn insn) → insn.labelRef = some label →
        ∃ before after, pass.lines = before ++ AsmLine.label label :: after ∧
          AsmLine.label label ∉ after ∧ items pass.lines = items before ++ items after ∧
          words.length = (items pass.lines).length ∧
          ∀ c : Cpu, Executing words i c → Jumps insn.opcode c.state.flags →
            ∃ c', c.step = .ok c' ∧ c'.state.pc = ofNat 32 (items before).length := by
  unfold assembleSource at accepted
  split at accepted
  next => cases accepted
  next pass read =>
    refine ⟨pass, read, ?_⟩
    split at accepted <;> cases accepted
    next ws assembled =>
      intro i insn label item ref
      obtain ⟨length, entries⟩ := encodeFrom_ok assembled
      obtain ⟨w, encoded, word⟩ := entries i _ item
      rw [Nat.zero_add] at encoded
      have known : ∃ target, labels pass.lines label = some target := by
        cases found : labels pass.lines label with
        | some target => exact ⟨target, rfl⟩
        | none =>
          simp only [encodeItem, encodeInsn, ref, found] at encoded
          cases encoded
      obtain ⟨target, known⟩ := known
      rcases labelsFrom_eq_some known with ⟨none, -⟩ | ⟨before, after, split, last, place⟩
      · cases none
      · refine ⟨before, after, split, last, by rw [split, items_append]; rfl, length, ?_⟩
        intro c at_i jumps
        have next : c.state.pc + 1 = ofNat 32 (i + 1) := by
          rw [← at_i.pc, ofNat_add, ofNat_toNat, setWidth_eq]
          rfl
        obtain ⟨c', ok, pc⟩ := encodeInsn_lands ref known encoded (c := c.withPc (c.state.pc + 1))
          next jumps
        refine ⟨_, at_i.step_of_ok word ok, pc.trans ?_⟩
        rw [place, Nat.zero_add]

/-- `A:`, `JMP A`, `A:`. -/
def twice : Text := ['A', ':', '\n', 'J', 'M', 'P', ' ', 'A', '\n', 'A', ':']

theorem eq_ok_of_toOption {ε α : Type} {e : Except ε α} {a : α} (found : e.toOption = some a) :
    e = .ok a := by
  cases e with
  | error => cases found
  | ok => exact congrArg _ (Option.some.inj found)

theorem twice_accepted : assembleSource asciiUnicode twice =
    .ok [MbcInsn.encodeBranch Opcode.jmp.toByte 0] :=
  eq_ok_of_toOption (by decide +kernel)

theorem labels_resolve_twice : ∃ words, assembleSource asciiUnicode twice = .ok words ∧
    ∃ pass, sourceLines asciiUnicode ⟨[], 0, false⟩ 1 (lines twice) = .ok pass := by
  obtain ⟨pass, read, -⟩ := labels_resolve asciiUnicode twice_accepted
  exact ⟨_, twice_accepted, pass, read⟩

/-- A label defined twice is accepted. -/
theorem label_defined_twice : ¬ ∀ (u : Unicode) source words pass,
    assembleSource u source = .ok words → sourceLines u ⟨[], 0, false⟩ 1 (lines source) = .ok pass →
      ∀ before after label, pass.lines = before ++ AsmLine.label label :: after →
        AsmLine.label label ∉ before ∧ AsmLine.label label ∉ after := by
  intro all
  have read : sourceLines asciiUnicode ⟨[], 0, false⟩ 1 (lines twice) =
    .ok ⟨[.label ['A'], .item (.insn (JMP ['A'])), .label ['A']], 1, false⟩ := by
      rfl
  have once := all asciiUnicode twice _ _ twice_accepted read [] _ _ rfl
  simp at once

end Unheaded.Mbc.Asm
