import Mathlib.Tactic.IntervalCases
import Unheaded.Lib.Store

/-!
# The MBC instruction set

Opcode bytes, the 32-bit instruction word, the status flags and the CPU state shared by the host
emulator and the BPF interpreter (`monad_common`).
-/

namespace Unheaded.Mbc

abbrev Word := BitVec 32
abbrev Half := BitVec 16
abbrev Byte := BitVec 8
abbrev Reg := BitVec 4

/-- `mbc_opcodes`. -/
inductive Opcode where
  | nop | add | sub | mul | div | mod | neg | and | or | xor | not | shl | shr | sar
  | mov | movi | cmp | int | iret | push | pop | loadImm32 | addi
  | jmp | jz | jnz | jn | jp | jc | jnc | call | ret | jmpr | callr
  | ld | st | ldb | stb | ldh | sth | shlr | shrr | sarr | mulh | mulhu
  | cli | sti | xchg | cas | fence | syscall | mret | sret | lrW | scW | halt
  deriving DecidableEq, Repr

namespace Opcode

def toByte : Opcode → Byte
  | nop => 0x00 | add => 0x01 | sub => 0x02 | mul => 0x03 | div => 0x04 | mod => 0x05
  | neg => 0x06 | and => 0x07 | or => 0x08 | xor => 0x09 | not => 0x0A | shl => 0x0B
  | shr => 0x0C | sar => 0x0D | mov => 0x0E | movi => 0x0F | cmp => 0x10
  | int => 0x17 | iret => 0x18 | push => 0x1A | pop => 0x1B | loadImm32 => 0x1C
  | addi => 0x1D | jmp => 0x20 | jz => 0x21 | jnz => 0x22 | jn => 0x23 | jp => 0x24
  | jc => 0x25 | jnc => 0x26 | call => 0x27 | ret => 0x28 | jmpr => 0x29 | callr => 0x2A
  | ld => 0x30 | st => 0x31 | ldb => 0x32 | stb => 0x33 | ldh => 0x34 | sth => 0x35
  | shlr => 0x36 | shrr => 0x37 | sarr => 0x38 | mulh => 0x39 | mulhu => 0x3A
  | cli => 0x3B | sti => 0x3C | xchg => 0x3D | cas => 0x3E | fence => 0x3F
  | syscall => 0x40 | mret => 0x47 | sret => 0x48 | lrW => 0x49 | scW => 0x4A
  | halt => 0xFF

def all : List Opcode := [nop, add, sub, mul, div, mod, neg, and, or, xor, not, shl, shr, sar,
   mov, movi, cmp, int, iret, push, pop, loadImm32, addi,
   jmp, jz, jnz, jn, jp, jc, jnc, call, ret, jmpr, callr,
   ld, st, ldb, stb, ldh, sth, shlr, shrr, sarr, mulh, mulhu,
   cli, sti, xchg, cas, fence, syscall, mret, sret, lrW, scW, halt]

def ofByte (b : Byte) : Option Opcode := all.find? (fun o => o.toByte == b)

@[simp] theorem ofByte_toByte (o : Opcode) : ofByte o.toByte = some o := by
  cases o <;> decide

theorem toByte_of_ofByte {b : Byte} {o : Opcode} (h : ofByte b = some o) : o.toByte = b := by
  have found := List.find?_some h
  exact eq_of_beq found

theorem ofByte_eq_some {b : Byte} {o : Opcode} : ofByte b = some o ↔ b = o.toByte := by
  constructor
  · intro h
    exact (toByte_of_ofByte h).symm
  · rintro rfl
    exact ofByte_toByte o

end Opcode

namespace MbcInsn

variable (w : Word)

def opcode : Byte := ((w >>> 24) &&& 0xFF).setWidth 8
def dst : Reg := ((w >>> 20) &&& 0x0F).setWidth 4
def src : Reg := ((w >>> 16) &&& 0x0F).setWidth 4
def imm16 : Half := (w &&& 0xFFFF).setWidth 16
/-- `imm16_signed() as i32`. -/
def imm16Signed : Word := (imm16 w).signExtend 32

def encode (opcode : Byte) (dst src : Reg) (imm : Half) : Word :=
  (opcode.setWidth 32 <<< 24) ||| (dst.setWidth 32 <<< 20) ||| (src.setWidth 32 <<< 16) |||
    imm.setWidth 32

/-- The opcode of a word, `none` when the byte names no opcode. -/
def opcode? : Option Opcode := Opcode.ofByte (opcode w)

def branchRaw : Word := w &&& 0x00FFFFFF

def branchOffset : Word :=
  if branchRaw w &&& 0x00800000 ≠ 0 then branchRaw w ||| 0xFF000000 else branchRaw w

/-- `[opcode:8][offset:24]`. -/
def encodeBranch (opcode : Byte) (offset : Word) : Word :=
  (opcode.setWidth 32 <<< 24) ||| (offset &&& 0x00FFFFFF)

section Fields

variable (op : Byte) (d s : Reg) (i : Half)

@[simp] theorem opcode_encode : opcode (encode op d s i) = op := by
  ext k hk
  interval_cases k <;> simp [opcode, encode]

@[simp] theorem dst_encode : dst (encode op d s i) = d := by
  ext k hk
  interval_cases k <;> simp [dst, encode]

@[simp] theorem src_encode : src (encode op d s i) = s := by
  ext k hk
  interval_cases k <;> simp [src, encode]

@[simp] theorem imm16_encode : imm16 (encode op d s i) = i := by
  ext k hk
  interval_cases k <;> simp [imm16, encode]

@[simp] theorem opcode?_encode (o : Opcode) : opcode? (encode o.toByte d s i) = some o := by
  rw [opcode?, opcode_encode, Opcode.ofByte_toByte]

@[simp] theorem opcode_encodeBranch (offset : Word) : opcode (encodeBranch op offset) = op := by
  ext k hk
  interval_cases k <;> simp [opcode, encodeBranch]

@[simp] theorem opcode?_encodeBranch (o : Opcode) (offset : Word) :
    opcode? (encodeBranch o.toByte offset) = some o := by
  rw [opcode?, opcode_encodeBranch, Opcode.ofByte_toByte]

theorem branchRaw_encodeBranch (offset : Word) :
    branchRaw (encodeBranch op offset) = offset &&& 0x00FFFFFF := by
  ext k hk
  interval_cases k <;> simp [branchRaw, encodeBranch]

theorem encode_eq_encodeBranch : encode op 0 0 i = encodeBranch op (i.setWidth 32) := by
  have low : i.setWidth 32 &&& 0x00FFFFFF = i.setWidth 32 := by
    ext k hk
    by_cases small : k < 16
    · interval_cases k <;> simp
    · simp [BitVec.getLsbD_of_ge i k (Nat.not_lt.mp small)]
  rw [encode, encodeBranch, low]
  simp

end Fields

theorem branchOffset_eq (w : Word) : branchOffset w = (w.setWidth 24).signExtend 32 := by
  have sign : (w.setWidth 24).msb = w[23] := by
    simp [BitVec.msb_eq_getLsbD_last]
  by_cases neg : w[23] = true
  · have bit : branchRaw w &&& 0x00800000 ≠ 0 := by
      intro zero
      have at23 := congrArg (fun v : Word => v[23]) zero
      simp [branchRaw, neg] at at23
    rw [branchOffset, if_pos bit]
    ext k hk
    rw [BitVec.getElem_signExtend, sign, neg]
    interval_cases k <;> simp [branchRaw]
  · have bit : ¬ branchRaw w &&& 0x00800000 ≠ 0 := by
      rw [not_not]
      ext k hk
      interval_cases k <;> simp [branchRaw, neg]
    rw [branchOffset, if_neg bit]
    ext k hk
    rw [BitVec.getElem_signExtend, sign, Bool.eq_false_iff.mpr neg]
    interval_cases k <;> simp [branchRaw]

theorem setWidth_encodeBranch (op : Byte) (offset : Word) :
    (encodeBranch op offset).setWidth 24 = offset.setWidth 24 := by
  ext k hk
  interval_cases k <;> simp [encodeBranch]

theorem signExtend_setWidth {v : Word} (low : -8388608 ≤ v.toInt) (high : v.toInt ≤ 8388607) :
    (v.setWidth 24).signExtend 32 = v := by
  apply BitVec.eq_of_toInt_eq
  rw [BitVec.toInt_signExtend_of_le (by decide), BitVec.toInt_setWidth]
  have value := BitVec.toInt_eq_toNat_cond v
  rw [Int.bmod_def]
  split at value <;> split <;> omega

theorem branchOffset_encodeBranch (op : Byte) {offset : Int} (low : -8388608 ≤ offset)
    (high : offset ≤ 8388607) :
    branchOffset (encodeBranch op (BitVec.ofInt 32 offset)) = BitVec.ofInt 32 offset := by
  have value : (BitVec.ofInt 32 offset).toInt = offset := by
    rw [BitVec.toInt_ofInt]
    apply Int.bmod_eq_of_le <;> omega
  rw [branchOffset_eq, setWidth_encodeBranch]
  apply signExtend_setWidth <;> omega

end MbcInsn

namespace Flag

def Z : Byte := 0x01
def N : Byte := 0x02
def C : Byte := 0x04

def pack (z n c : Bool) : Byte :=
  (if z then Z else 0) ||| (if n then N else 0) ||| (if c then C else 0)

theorem pack_inj {z n c z' n' c' : Bool} (h : pack z n c = pack z' n' c') :
    z = z' ∧ n = n' ∧ c = c' := by
  revert h
  cases z <;> cases n <;> cases c <;> cases z' <;> cases n' <;> cases c' <;> decide

theorem pack_and_seven (z n c : Bool) : pack z n c &&& 0x07 = pack z n c := by
  cases z <;> cases n <;> cases c <;> decide

end Flag

variable (a b : Word)

/-- `overflowing_add` reports a carry. -/
def addCarry : Bool := decide (2 ^ 32 ≤ a.toNat + b.toNat)

/-- `overflowing_sub` reports a borrow. -/
def subBorrow : Bool := decide (a.toNat < b.toNat)

/-- `((a as i32 as i64 * b as i32 as i64) >> 32) as u32`. -/
def mulHighSigned : Word :=
  ((a.signExtend 64 * b.signExtend 64).sshiftRight 32).setWidth 32

/-- `((a as u64 * b as u64) >> 32) as u32`. -/
def mulHighUnsigned : Word := ((a.setWidth 64 * b.setWidth 64) >>> 32).setWidth 32

def shamt (w : Word) : Nat := (w &&& 0x1F).toNat

namespace Mmap

def SCREEN_BASE : Nat := 0x70000
def SCREEN_SIZE : Nat := 64000
def KBD_ADDR : Nat := 0x68000

end Mmap

def kbdWord : Nat := Mmap.KBD_ADDR >>> 2
def screenWordStart : Nat := Mmap.SCREEN_BASE >>> 2
def screenWordEnd : Nat := (Mmap.SCREEN_BASE + Mmap.SCREEN_SIZE + 3) >>> 2

def PlainWord (wordAddr : Nat) : Prop :=
  wordAddr ≠ kbdWord ∧ ¬ (screenWordStart ≤ wordAddr ∧ wordAddr < screenWordEnd)

instance (wordAddr : Nat) : Decidable (PlainWord wordAddr) :=
  inferInstanceAs (Decidable (wordAddr ≠ kbdWord ∧
    ¬ (screenWordStart ≤ wordAddr ∧ wordAddr < screenWordEnd)))

theorem not_screen_byte {a : Nat} (h : PlainWord (a >>> 2)) :
    ¬ (Mmap.SCREEN_BASE ≤ a ∧ a < Mmap.SCREEN_BASE + Mmap.SCREEN_SIZE) := by
  rintro ⟨low, high⟩
  apply h.2
  simp only [screenWordStart, screenWordEnd] at *
  omega

def REG_SP : Reg := 15

def DEFAULT_PROGRAM_BREAK : Word := 0x00400000

/-- `MbcCpuState`.  `rv2mbcBase` exists in the `ascend-linux` build only. -/
structure MbcCpuState where
  regs : Reg → Word
  pc : Word
  flags : Byte
  halted : Byte
  stalled : Byte
  sleepUntilNs : BitVec 64
  insnCount : BitVec 64
  cacheHits : BitVec 64
  cacheMisses : BitVec 64
  interruptPending : Byte
  interruptVector : Byte
  interruptsEnabled : Byte
  tickCounter : Word
  programBreak : Word
  exitCode : Word
  currentPid : Byte
  numProcesses : Byte
  mmuEnabled : Byte
  pageDirBase : Word
  privLevel : Byte
  reservationAddress : Word
  rv2mbcBase : Word

def MbcCpuState.default : MbcCpuState where
  regs _ := 0
  pc := 0
  flags := 0
  halted := 0
  stalled := 0
  sleepUntilNs := 0
  insnCount := 0
  cacheHits := 0
  cacheMisses := 0
  interruptPending := 0
  interruptVector := 0
  interruptsEnabled := 0
  tickCounter := 0
  programBreak := DEFAULT_PROGRAM_BREAK
  exitCode := 0
  currentPid := 0
  numProcesses := 1
  mmuEnabled := 0
  pageDirBase := 0
  privLevel := 0
  reservationAddress := 0xFFFFFFFF
  rv2mbcBase := 0

end Unheaded.Mbc
