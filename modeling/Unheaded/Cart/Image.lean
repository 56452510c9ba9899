import Mathlib.Data.List.Sort
import Unheaded.Cart.Vm
import Unheaded.Lib.Bytes

/-!
# Cartridge images

The `.cart` file format (`Image::decode`, `Image::encode`) and the loader's static checks
(`validate`).
-/

namespace Unheaded.Cart

open Lib Mbc MbcInsn
open BitVec (ofNat)

/-- The bytes `MBCC`. -/
def MAGIC : List Byte := [0x4D, 0x42, 0x43, 0x43]
def VERSION : Byte := 0
def HEADER_LEN : Nat := 52
def FLAG_FAIL_CLOSED : Half := 1

structure Image where
  stage : Byte
  maxInsn : Half
  entry : Half
  loopBound : Half
  flags : Half
  rom : List Word
  data : List Word
  deriving DecidableEq

inductive ImageError where
  | truncated
  | badMagic
  | badVersion (version : Byte)
  | badStage (stage : Byte)
  | romSize (words : Half)
  | dataSize (words : Half)
  | length (want got : Nat)
  | reserved
  | entry (pc : Half)
  | sha
  deriving DecidableEq

variable (b : List Byte)

def le16 (off : Nat) : Half := halfOfBytes (b.getD (off + 1) 0) (b.getD off 0)

def le32 (off : Nat) : Word :=
  wordOfBytes (b.getD (off + 3) 0) (b.getD (off + 2) 0) (b.getD (off + 1) 0) (b.getD off 0)

def halfBytes (v : Half) : List Byte := [v.extractLsb' 0 8, v.extractLsb' 8 8]

def wordBytes (v : Word) : List Byte := [byteOf v 0, byteOf v 1, byteOf v 2, byteOf v 3]

/-- `n` little-endian words from `off` on. -/
def words (off n : Nat) : List Word :=
  (List.range n).map (fun i => le32 b (off + 4 * i))

namespace Image

variable (sha256 : List Byte → List Byte)

def encode (img : Image) : List Byte :=
  let head := MAGIC ++ [VERSION, img.stage] ++ halfBytes img.maxInsn ++
    halfBytes (ofNat 16 img.rom.length) ++ halfBytes (ofNat 16 img.data.length) ++
    halfBytes img.entry ++ halfBytes img.loopBound ++ halfBytes img.flags ++ halfBytes 0
  let body := (img.rom ++ img.data).flatMap wordBytes
  head ++ sha256 (head ++ body) ++ body

def decode (b : List Byte) : Except ImageError Image :=
  if b.length < HEADER_LEN then .error .truncated
  else if b.take 4 ≠ MAGIC then .error .badMagic
  else if b.getD 4 0 ≠ VERSION then .error (.badVersion (b.getD 4 0))
  else
    let stage := b.getD 5 0
    if stage ≠ STAGE_XDP ∧ stage ≠ STAGE_TICK then .error (.badStage stage)
    else
      let romWords := le16 b 8
      let dataWords := le16 b 10
      let entry := le16 b 12
      let flags := le16 b 16
      let want := HEADER_LEN + 4 * (romWords.toNat + dataWords.toNat)
      if romWords = 0 ∨ ROM_WORDS_MAX < romWords then .error (.romSize romWords)
      else if DATA_WORDS_MAX < dataWords then .error (.dataSize dataWords)
      else if b.length ≠ want then .error (.length want b.length)
      else if le16 b 18 ≠ 0 ∨ flags &&& ~~~FLAG_FAIL_CLOSED ≠ 0 then .error .reserved
      else if romWords ≤ entry then .error (.entry entry)
      else if sha256 (b.take 20 ++ b.drop HEADER_LEN) ≠ (b.drop 20).take 32 then .error .sha
      else .ok {
        stage := stage
        maxInsn := le16 b 6
        entry := entry
        loopBound := le16 b 14
        flags := flags
        rom := words b HEADER_LEN romWords.toNat
        data := words b (HEADER_LEN + 4 * romWords.toNat) dataWords.toNat }

def cfg (img : Image) : CartCfg where
  stage := img.stage
  maxInsn := img.maxInsn
  romWords := ofNat 16 img.rom.length
  dataWords := ofNat 16 img.data.length
  entry := img.entry
  loopBound := img.loopBound

def cartridge (img : Image) : Cartridge where
  cfg := img.cfg
  rom pc := img.rom[pc.toNat]?
  data i := img.data[i.toNat]?

end Image

def ALLOWED_OPCODES : List Opcode :=
  [.nop, .add, .sub, .mul, .and, .or, .xor, .not, .shl, .shr, .sar, .mov, .movi, .cmp,
   .loadImm32, .addi, .jmp, .jz, .jnz, .jn, .jp, .jc, .jnc, .ld, .st, .ldb,
   .shlr, .shrr, .sarr, .mulh, .syscall, .halt]

def allowedSyscalls (stage : Byte) : List Half :=
  if stage = STAGE_XDP then [Sys.FIELD, Sys.NOW_NS_LO, Sys.VERDICT, Sys.EMIT, Sys.QUEUE]
  else [Sys.NOW_NS_LO, Sys.EMIT, Sys.YIELD]

inductive ValidateError where
  | opcode (pc : Half) (opcode : Byte)
  | branchTarget (pc : Half) (target : Int)
  | backEdge (pc target : Half)
  | syscall (pc number : Half)
  | maxInsn (stage : Byte) (maxInsn : Half)
  | loopBound
  deriving DecidableEq

structure Report where
  maxInsn : Half
  hasBackEdges : Bool
  syscalls : List Half
  deriving DecidableEq

def isBranch (o : Byte) : Bool := Opcode.jmp.toByte ≤ o && o ≤ Opcode.jnc.toByte

/-- The target of the branch word at index `i`. -/
def branchTarget (i : Nat) (w : Word) : Int := i + 1 + (branchOffset w).toInt

/-- The branch checks on word `i`: whether it is a back-edge. -/
def checkBranch (img : Image) (i : Nat) (w : Word) : Except ValidateError Bool :=
  if isBranch (opcode w) then
    let target := branchTarget i w
    if target < 0 ∨ (img.rom.length : Int) ≤ target then
      .error (.branchTarget (ofNat 16 i) target)
    else if target ≤ i then
      if img.stage = STAGE_XDP then .error (.backEdge (ofNat 16 i) (BitVec.ofInt 16 target))
      else .ok true
    else .ok false
  else .ok false

/-- The syscall check on word `i`: the numbers used so far. -/
def checkSyscall (img : Image) (i : Nat) (w : Word) (used : List Half) :
    Except ValidateError (List Half) :=
  if opcode w = Opcode.syscall.toByte then
    let number := imm16 w
    if number ∉ allowedSyscalls img.stage then .error (.syscall (ofNat 16 i) number)
    else .ok (if number ∈ used then used else used ++ [number])
  else .ok used

/-- The loop of `validate` from word `i` on. -/
def validateFrom (img : Image) : Nat → List Word → Bool → List Half →
    Except ValidateError (Bool × List Half)
  | _, [], back, used => .ok (back, used)
  | i, w :: ws, back, used =>
    if opcode w ∉ ALLOWED_OPCODES.map Opcode.toByte then
      .error (.opcode (ofNat 16 i) (opcode w))
    else do
      let edge ← checkBranch img i w
      let used ← checkSyscall img i w used
      validateFrom img (i + 1) ws (back || edge) used

def insnCap (stage : Byte) : Half :=
  if stage = STAGE_XDP then ofNat 16 N_PKT else ofNat 16 N_TICK

def validate (img : Image) : Except ValidateError Report :=
  if img.maxInsn = 0 ∨ insnCap img.stage < img.maxInsn then .error (.maxInsn img.stage img.maxInsn)
  else if img.stage = STAGE_XDP ∧ img.loopBound ≠ 0 then .error .loopBound
  else do
    let (back, used) ← validateFrom img 0 img.rom false []
    .ok ⟨img.maxInsn, back, used.insertionSort (· ≤ ·)⟩

/-- The checks one ROM word has passed. -/
structure WordOk (img : Image) (i : Nat) (w : Word) : Prop where
  opcode : ∃ o ∈ ALLOWED_OPCODES, MbcInsn.opcode? w = some o
  inside : isBranch (MbcInsn.opcode w) → 0 ≤ branchTarget i w ∧ branchTarget i w < img.rom.length
  forward : isBranch (MbcInsn.opcode w) → img.stage = STAGE_XDP → (i : Int) < branchTarget i w
  syscall : MbcInsn.opcode? w = some .syscall → MbcInsn.imm16 w ∈ allowedSyscalls img.stage

variable {img : Image} {i : Nat}

theorem checkBranch_ok {w : Word} {back : Bool} (ok : checkBranch img i w = .ok back)
    (branch : isBranch (opcode w)) :
    (0 ≤ branchTarget i w ∧ branchTarget i w < img.rom.length) ∧
      (img.stage = STAGE_XDP → (i : Int) < branchTarget i w) := by
  unfold checkBranch at ok
  rw [if_pos branch] at ok
  dsimp only at ok
  split at ok
  · cases ok
  next within =>
    rw [not_or, Int.not_lt, Int.not_le] at within
    refine ⟨within, ?_⟩
    intro xdp
    apply Int.not_le.mp
    intro behind
    simp [if_pos behind, if_pos xdp] at ok

theorem checkSyscall_ok {w : Word} {used used' : List Half}
    (ok : checkSyscall img i w used = .ok used') (call : opcode w = Opcode.syscall.toByte) :
    imm16 w ∈ allowedSyscalls img.stage := by
  unfold checkSyscall at ok
  rw [if_pos call] at ok
  by_contra forbidden
  simp [if_pos forbidden] at ok

theorem validateFrom_ok {ws : List Word} {back : Bool} {used : List Half} {found : Bool × List Half}
    (ok : validateFrom img i ws back used = .ok found) :
    ∀ j w, ws[j]? = some w → WordOk img (i + j) w := by
  induction ws generalizing i back used with
  | nil =>
    intro j w get
    cases get
  | cons v ws ih =>
    unfold validateFrom at ok
    split at ok
    · cases ok
    next allowed =>
      rw [not_not] at allowed
      cases edge : checkBranch img i v with
      | error e =>
        rw [edge] at ok
        cases ok
      | ok hasEdge =>
        cases calls : checkSyscall img i v used with
        | error e =>
          rw [edge, calls] at ok
          cases ok
        | ok used' =>
          rw [edge, calls] at ok
          have rest := ih ok
          intro j w get
          cases j with
          | zero =>
            cases get
            obtain ⟨o, mem, byte⟩ := List.mem_map.mp allowed
            have named : opcode? v = some o := Opcode.ofByte_eq_some.mpr byte.symm
            constructor
            · exact ⟨o, mem, named⟩
            · exact fun branch => (checkBranch_ok edge branch).1
            · exact fun branch => (checkBranch_ok edge branch).2
            · intro call
              exact checkSyscall_ok calls (Opcode.ofByte_eq_some.mp call)
          | succ j =>
            have there := rest j w get
            rwa [Nat.add_right_comm] at there

/-- An image that decoding and validation accept. -/
structure Sound (img : Image) : Prop where
  stage : img.stage = STAGE_XDP ∨ img.stage = STAGE_TICK
  romPos : 0 < img.rom.length
  romMax : img.rom.length ≤ 1024
  dataMax : img.data.length ≤ 1024
  entry : img.entry.toNat < img.rom.length
  maxInsnPos : 0 < img.maxInsn.toNat
  loopBound : img.stage = STAGE_XDP → img.loopBound = 0
  words : ∀ i w, img.rom[i]? = some w → WordOk img i w

theorem length_words (b : List Byte) (off n : Nat) : (words b off n).length = n := by
  simp [words]

theorem of_guard {ε α : Type} {c : Prop} [Decidable c] {e : ε} {x : Except ε α} {a : α}
    (ok : (if c then .error e else x) = .ok a) : ¬ c ∧ x = .ok a := by
  by_cases holds : c
  · simp [if_pos holds] at ok
  · rw [if_neg holds] at ok
    exact ⟨holds, ok⟩

variable {sha256 : List Byte → List Byte}

theorem decode_ok {b : List Byte} (ok : Image.decode sha256 b = .ok img) :
    (img.stage = STAGE_XDP ∨ img.stage = STAGE_TICK) ∧ 0 < img.rom.length ∧
      img.rom.length ≤ 1024 ∧ img.data.length ≤ 1024 ∧ img.entry.toNat < img.rom.length := by
  obtain ⟨-, ok⟩ := of_guard ok
  obtain ⟨-, ok⟩ := of_guard ok
  obtain ⟨-, ok⟩ := of_guard ok
  obtain ⟨stage, ok⟩ := of_guard ok
  obtain ⟨rom, ok⟩ := of_guard ok
  obtain ⟨data, ok⟩ := of_guard ok
  obtain ⟨-, ok⟩ := of_guard ok
  obtain ⟨-, ok⟩ := of_guard ok
  obtain ⟨entry, ok⟩ := of_guard ok
  obtain ⟨-, ok⟩ := of_guard ok
  cases ok
  simp only [length_words]
  rw [not_or] at rom
  refine ⟨?_, ?_, ?_, ?_, ?_⟩
  · by_contra other
    exact stage (not_or.mp other)
  · have nonzero : (le16 b 8).toNat ≠ 0 := fun zero => rom.1 (BitVec.eq_of_toNat_eq zero)
    omega
  · exact BitVec.not_lt.mp rom.2
  · exact BitVec.not_lt.mp data
  · exact BitVec.not_le.mp entry

variable {report : Report}

theorem validate_ok (ok : validate img = .ok report) :
    0 < img.maxInsn.toNat ∧ (img.stage = STAGE_XDP → img.loopBound = 0) ∧
      ∀ i w, img.rom[i]? = some w → WordOk img i w := by
  unfold validate at ok
  split at ok
  · cases ok
  next budget =>
    split at ok
    · cases ok
    next bound =>
      cases checked : validateFrom img 0 img.rom false [] with
      | error e =>
        rw [checked] at ok
        cases ok
      | ok found =>
        have wordsOk := validateFrom_ok checked
        refine ⟨?_, ?_, ?_⟩
        · have nonzero : img.maxInsn.toNat ≠ 0 :=
            fun zero => budget (Or.inl (BitVec.eq_of_toNat_eq zero))
          omega
        · intro xdp
          by_contra nonzero
          exact bound ⟨xdp, nonzero⟩
        · intro i w get
          simpa using wordsOk i w get

theorem accepted_sound {b : List Byte} (decoded : Image.decode sha256 b = .ok img)
    (validated : validate img = .ok report) : Sound img := by
  obtain ⟨stage, romPos, romMax, dataMax, entry⟩ := decode_ok decoded
  obtain ⟨budget, bound, wordsOk⟩ := validate_ok validated
  exact ⟨stage, romPos, romMax, dataMax, entry, budget, bound, wordsOk⟩

end Unheaded.Cart
