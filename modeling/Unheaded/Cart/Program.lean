import Unheaded.Cart.Mirror
import Unheaded.Cart.Yield
import Unheaded.Mbc.Assembler

/-!
# Assembled cartridges

`build_image`, and what the machine does on the words of an assembled program, instruction by
instruction.
-/

namespace Unheaded.Cart

open Lib Mbc Mbc.Asm Function Cartridge MbcInsn
open BitVec (ofNat)

namespace Verdict

def PASS : Byte := 0
def DROP : Byte := 1

end Verdict

inductive BuildError (Label : Type) where
  | assemble (e : AssembleError Label)
  | size (romWords dataWords : Nat)
  | validate (e : ValidateError)

section Build

variable {Label : Type} [DecidableEq Label]

def buildImage (stage : Byte) (source : List (AsmLine Label)) (data : List Word)
    (maxInsn : Option Half) (loopBound : Half) : Except (BuildError Label) Image :=
  match assemble source with
  | .error e => .error (.assemble e)
  | .ok rom =>
    if rom.length = 0 ∨ ROM_WORDS_MAX.toNat < rom.length ∨
        DATA_WORDS_MAX.toNat < data.length then
      .error (.size rom.length data.length)
    else
      let img : Image :=
        { stage := stage
          maxInsn := maxInsn.getD (insnCap stage)
          entry := 0
          loopBound := loopBound
          flags := 0
          rom := rom
          data := data }
      match validate img with
      | .error e => .error (.validate e)
      | .ok _ => .ok img

def code (block : List (AsmInsn Label)) : List (AsmLine Label) :=
  block.map (fun insn => .item (.insn insn))

/-- The ROM of `p` is the assembled `source`. -/
structure Loaded (source : List (AsmLine Label)) (p : Cartridge) : Prop where
  size : p.cfg.romWords.toNat = (items source).length
  small : (items source).length ≤ 1024
  fetch : ∀ i insn, (items source)[i]? = some (.insn insn) →
    ∃ w, encodeInsn (labels source) i insn = .ok w ∧ p.rom (ofNat 32 i) = some w

variable {source : List (AsmLine Label)}

theorem loaded_of_assemble {img : Image} (assembled : assemble source = .ok img.rom)
    (small : img.rom.length ≤ 1024) : Loaded source img.cartridge := by
  obtain ⟨length, entries⟩ := encodeFrom_ok assembled
  constructor
  · rw [← length]
    exact Nat.mod_eq_of_lt (by omega)
  · omega
  · intro i insn get
    obtain ⟨w, encoded, at_i⟩ := entries i (.insn insn) get
    obtain ⟨inside, -⟩ := List.getElem?_eq_some_iff.mp get
    have index : (ofNat 32 i).toNat = i := Nat.mod_eq_of_lt (by omega)
    refine ⟨w, ?_, ?_⟩
    · rwa [Nat.zero_add] at encoded
    · change img.rom[(ofNat 32 i).toNat]? = some w
      rw [index]
      exact at_i

/-- What a built image is. -/
structure Built (stage : Byte) (source : List (AsmLine Label)) (data : List Word)
    (maxInsn loopBound : Half) (img : Image) : Prop where
  stage : img.stage = stage
  maxInsn : img.maxInsn = maxInsn
  entry : img.entry = 0
  loopBound : img.loopBound = loopBound
  data : img.data = data
  loaded : Loaded source img.cartridge

theorem built_of_ok {stage : Byte} {data : List Word} {maxInsn : Option Half} {loopBound : Half}
    {img : Image} (ok : buildImage stage source data maxInsn loopBound = .ok img) :
    Built stage source data (maxInsn.getD (insnCap stage)) loopBound img := by
  unfold buildImage at ok
  split at ok
  next => cases ok
  next rom assembled =>
    obtain ⟨sizes, ok⟩ := of_guard ok
    dsimp only at ok
    split at ok <;> cases ok
    next =>
      rw [not_or, not_or, Nat.not_lt] at sizes
      exact ⟨rfl, rfl, rfl, rfl, rfl, loaded_of_assemble assembled sizes.2.1⟩

end Build

/-! ## One instruction -/

namespace Progress

variable (s : Progress)

def next : Progress := { s with job := { s.job with pc := s.job.pc + 1 } }

def write (d : Reg) (v : Word) (f : Byte) : Progress :=
  { s with job := { s.job with
      regs := update s.job.regs d v
      flags := f
      pc := s.job.pc + 1 } }

def store (i : BitVec 6) (v : Word) : Progress :=
  { s with job := { s.job with
      mem := update s.job.mem i v
      pc := s.job.pc + 1 } }

def jump (pc : Half) : Progress := { s with job := { s.job with pc := pc } }

def jumpBack (pc : Half) : Progress :=
  { s with job := { s.job with pc := pc, backEdges := s.job.backEdges + 1 } }

def io (input : PacketInput) : LogIo := ⟨input, none, s.log.emits, s.log.queued⟩

end Progress

section Exec

variable {Label : Type} (p : Cartridge) (input : PacketInput) (table : Label → Option Nat)

/-- A syscall that does not end the run. -/
def execSyscall (n : Half) (s : Progress) : Option Progress :=
  if n = Sys.FIELD ∧ p.cfg.stage = STAGE_XDP then
    (input.field (s.job.regs 1)).map (fun v => s.write 0 v s.job.flags)
  else if n = Sys.NOW_NS_LO then some (s.write 0 (input.nowNs.setWidth 32) s.job.flags)
  else if n = Sys.EMIT then
    some { s.next with log :=
      ⟨s.log.emits ++ [(s.job.regs 1, s.job.regs 2, s.job.regs 3)], s.log.queued⟩ }
  else if n = Sys.QUEUE ∧ p.cfg.stage = STAGE_XDP then
    if s.job.regs 1 &&& 3 ≠ 0 ∨ 224 < s.job.regs 1 then none
    else
      let feat : Features :=
        fun i => s.job.mem ((s.job.regs 1 >>> 2).setWidth 6 + i.setWidth 6)
      some { s.next with log := ⟨s.log.emits, s.log.queued ++ [feat]⟩ }
  else none

/-- A branch inside the ROM; a back-edge within the loop bound. -/
def execBranch (o : Opcode) (label : Label) (s : Progress) : Option Progress :=
  match table label, branchTaken o s.job.flags with
  | some target, some taken =>
    if p.cfg.romWords.toNat ≤ target then none
    else if taken = false then some s.next
    else if s.job.pc.toNat < target then some (s.jump (ofNat 16 target))
    else if s.job.backEdges + 1 ≤ p.cfg.loopBound.setWidth 32 ∧ p.cfg.stage ≠ STAGE_XDP then
      some (s.jumpBack (ofNat 16 target))
    else none
  | _, _ => none

def execLoad (d : Reg) (addr : Word) (s : Progress) : Option Progress :=
  match p.loadWord s.job.state addr with
  | some v => if addr &&& 3 = 0 then some (s.write d v s.job.flags) else none
  | none => none

def execLoadByte (d : Reg) (addr : Word) (s : Progress) : Option Progress :=
  match p.loadWord s.job.state addr with
  | some v => some (s.write d ((v >>> ((addr &&& 3) * 8).toNat) &&& 0xFF) s.job.flags)
  | none => none

def execStore (addr v : Word) (s : Progress) : Option Progress :=
  if addr < 0x100 ∧ addr &&& 3 = 0 then some (s.store (memIndex addr) v) else none

/-- What an instruction makes of a run that it does not end. -/
def exec (insn : AsmInsn Label) (s : Progress) : Option Progress :=
  match insn.labelRef with
  | some label => execBranch p table insn.opcode label s
  | none =>
    match insn.opcode with
    | .ld => execLoad p insn.dst (s.job.regs insn.src + insn.imm.signExtend 32) s
    | .ldb => execLoadByte p insn.dst (s.job.regs insn.src + insn.imm.signExtend 32) s
    | .st =>
      execStore (s.job.regs insn.dst + insn.imm.signExtend 32) (s.job.regs insn.src) s
    | .syscall => execSyscall p input insn.imm s
    | o =>
      if o ∈ ALLOWED_OPCODES then
        (alu o (s.job.regs insn.dst) (s.job.regs insn.src) insn.imm s.job.flags).map
          (fun result => s.write insn.dst result.1 result.2)
      else none

/-- The instructions from position `pc` on, in order. -/
def line : Nat → List (AsmInsn Label) → Progress → Option Progress
  | _, [], s => some s
  | pc, insn :: rest, s =>
    if s.job.pc.toNat = pc then
      match exec p input table insn s with
      | some s' => line (pc + 1) rest s'
      | none => none
    else none

theorem line_singleton (insn : AsmInsn Label) (s : Progress) :
    line p input table s.job.pc.toNat [insn] s = exec p input table insn s := by
  rw [line, if_pos rfl]
  cases exec p input table insn s <;> rfl

end Exec

/-! ## Evaluation

The equations by which `simp` executes a block on symbolic registers. -/

attribute [simp] line execSyscall execBranch memIndex Progress.write Progress.store Progress.next
  Progress.jump Progress.jumpBack Sys.FIELD Sys.NOW_NS_LO Sys.EMIT Sys.QUEUE

section Evaluation

variable {Label : Type} {p : Cartridge} {input : PacketInput} {table : Label → Option Nat}
  (s : Progress)

section Registers

variable (d r : Reg)

@[simp] theorem exec_ADD :
    exec p input table (ADD d r) s = some (s.write d (s.job.regs d + s.job.regs r)
      (resultFlags (s.job.regs d + s.job.regs r) (addCarry (s.job.regs d) (s.job.regs r)))) := rfl

@[simp] theorem exec_SUB :
    exec p input table (SUB d r) s = some (s.write d (s.job.regs d - s.job.regs r)
      (resultFlags (s.job.regs d - s.job.regs r) (subBorrow (s.job.regs d) (s.job.regs r)))) := rfl

@[simp] theorem exec_MUL :
    exec p input table (MUL d r) s = some (s.write d (s.job.regs d * s.job.regs r)
      (resultFlags (s.job.regs d * s.job.regs r) false)) := rfl

@[simp] theorem exec_OR :
    exec p input table (OR d r) s = some (s.write d (s.job.regs d ||| s.job.regs r)
      (resultFlags (s.job.regs d ||| s.job.regs r) false)) := rfl

@[simp] theorem exec_MOV :
    exec p input table (MOV d r) s = some (s.write d (s.job.regs r) s.job.flags) := rfl

@[simp] theorem exec_CMP :
    exec p input table (CMP d r) s = some (s.write d (s.job.regs d)
      (resultFlags (s.job.regs d - s.job.regs r) (subBorrow (s.job.regs d) (s.job.regs r)))) := rfl

@[simp] theorem exec_SHRR :
    exec p input table (SHRR d r) s = some (s.write d (s.job.regs d >>> shamt (s.job.regs r))
      (resultFlags (s.job.regs d >>> shamt (s.job.regs r)) false)) := rfl

@[simp] theorem exec_SARR :
    exec p input table (SARR d r) s =
      some (s.write d ((s.job.regs d).sshiftRight (shamt (s.job.regs r)))
        (resultFlags ((s.job.regs d).sshiftRight (shamt (s.job.regs r))) false)) := rfl

@[simp] theorem exec_MULH :
    exec p input table (MULH d r) s =
      some (s.write d (mulHighSigned (s.job.regs d) (s.job.regs r))
        (resultFlags (mulHighSigned (s.job.regs d) (s.job.regs r)) false)) := rfl

end Registers

section Immediates

variable (d : Reg) (imm : Half)

@[simp] theorem exec_MOVI :
    exec p input table (MOVI d imm) s = some (s.write d (imm.setWidth 32) s.job.flags) := rfl

@[simp] theorem exec_ADDI :
    exec p input table (ADDI d imm) s = some (s.write d (s.job.regs d + imm.signExtend 32)
      (resultFlags (s.job.regs d + imm.signExtend 32)
        (addCarry (s.job.regs d) (imm.signExtend 32)))) := rfl

@[simp] theorem exec_SHL :
    exec p input table (SHL d imm) s =
      some (s.write d (s.job.regs d <<< shamt (imm.setWidth 32))
        (resultFlags (s.job.regs d <<< shamt (imm.setWidth 32)) false)) := rfl

@[simp] theorem exec_SHR :
    exec p input table (SHR d imm) s =
      some (s.write d (s.job.regs d >>> shamt (imm.setWidth 32))
        (resultFlags (s.job.regs d >>> shamt (imm.setWidth 32)) false)) := rfl

@[simp] theorem exec_SAR :
    exec p input table (SAR d imm) s =
      some (s.write d ((s.job.regs d).sshiftRight (shamt (imm.setWidth 32)))
        (resultFlags ((s.job.regs d).sshiftRight (shamt (imm.setWidth 32))) false)) := rfl

@[simp] theorem exec_SYSCALL :
    exec p input table (SYSCALL imm) s = execSyscall p input imm s := rfl

end Immediates

section Memory

variable (d b : Reg) (off : Half)

@[simp] theorem exec_LD :
    exec p input table (LD d b off) s = execLoad p d (s.job.regs b + off.signExtend 32) s := rfl

@[simp] theorem exec_LDB :
    exec p input table (LDB d b off) s =
      execLoadByte p d (s.job.regs b + off.signExtend 32) s := rfl

@[simp] theorem exec_ST (r : Reg) :
    exec p input table (ST b off r) s =
      execStore (s.job.regs b + off.signExtend 32) (s.job.regs r) s := rfl

variable {addr v : Word}

@[simp] theorem execLoad_window (low : addr < 0x100) (aligned : addr &&& 3 = 0) :
    execLoad p d addr s = some (s.write d (s.job.mem (memIndex addr)) s.job.flags) := by
  rw [execLoad, loadWord, if_pos low]
  exact if_pos aligned

theorem execLoad_of_word (word : p.loadWord s.job.state addr = some v) (aligned : addr &&& 3 = 0) :
    execLoad p d addr s = some (s.write d v s.job.flags) := by
  rw [execLoad, word]
  exact if_pos aligned

@[simp] theorem execStore_window (low : addr < 0x100) (aligned : addr &&& 3 = 0) :
    execStore addr v s = some (s.store (memIndex addr) v) :=
  if_pos ⟨low, aligned⟩

end Memory

section Branches

variable (label : Label)

@[simp] theorem exec_JMP : exec p input table (JMP label) s = execBranch p table .jmp label s := rfl
@[simp] theorem exec_JZ : exec p input table (JZ label) s = execBranch p table .jz label s := rfl
@[simp] theorem exec_JNZ : exec p input table (JNZ label) s = execBranch p table .jnz label s := rfl
@[simp] theorem exec_JP : exec p input table (JP label) s = execBranch p table .jp label s := rfl
@[simp] theorem exec_JC : exec p input table (JC label) s = execBranch p table .jc label s := rfl
@[simp] theorem exec_JNC : exec p input table (JNC label) s = execBranch p table .jnc label s := rfl

end Branches

@[simp] theorem field_ofNat (input : PacketInput) {id : Nat} (known : id < 13) :
    input.field (ofNat 32 id) = some (input.fields ⟨id, known⟩) := by
  have low : (ofNat 32 id).toNat = id := by
    rw [BitVec.toNat_ofNat]
    omega
  unfold PacketInput.field
  simp only [low, known, dif_pos]

/-- Whether a branch is taken after a result. -/
@[simp] def takenAfter (o : Opcode) (result : Word) (carry : Bool) : Option Bool :=
  match o with
  | .jmp => some true
  | .jz => some (decide (result = 0))
  | .jnz => some (!decide (result = 0))
  | .jn => some result.msb
  | .jp => some (!result.msb)
  | .jc => some carry
  | .jnc => some (!carry)
  | _ => none

@[simp] theorem branchTaken_resultFlags (o : Opcode) (result : Word) (carry : Bool) :
    branchTaken o (resultFlags result carry) = takenAfter o result carry := by
  unfold resultFlags
  cases o <;> simp only [branchTaken, takenAfter] <;>
    generalize decide (result = 0) = z <;> generalize result.msb = n <;>
    cases z <;> cases n <;> cases carry <;> rfl

end Evaluation

/-! ## The machine follows -/

theorem pc_advance (pc : Half) : (pc.setWidth 32 + 1 : Word).setWidth 16 = pc + 1 := by
  rw [BitVec.setWidth_add _ _ (by decide), BitVec.setWidth_setWidth_of_le _ (by decide)]
  rfl

/-- The machine went on to `s'`. -/
def Ran.GoesTo (r : Ran LogIo) (s' : Progress) : Prop :=
  r.result = .cont ∧ ⟨r.st.job, r.io.out.log⟩ = s'

theorem Ran.GoesTo.report {r : Ran LogIo} {s' : Progress} (goes : r.GoesTo s') :
    (settle r).report Log.empty = .inl s' := by
  obtain ⟨result, same⟩ := goes
  have settled : settle r = r := if_neg (fun stops => stops.1 result)
  rw [settled, Ran.report, if_pos (Or.inl result), Log.empty_append, same]

section Words

variable {Label : Type} {p : Cartridge} {input : PacketInput} {s s' : Progress}

/-- The state in which the word at `pc` executes. -/
def Progress.fetched (s : Progress) : CartState := advance s.job.state

theorem job_fetched (s : Progress) : s.fetched.job = s.next.job := by
  have pc := pc_advance s.job.pc
  simp only [Progress.fetched, advance, CartState.job, Job.state, Progress.next, pc]

theorem job_write (s : Progress) (d : Reg) (v : Word) (f : Byte) :
    ({ s.fetched.setReg d v with flags := f } : CartState).job = (s.write d v f).job := by
  have pc := pc_advance s.job.pc
  simp only [Progress.fetched, advance, CartState.setReg, CartState.job, Job.state,
    Progress.write, pc]

variable {d : Reg} {addr v : Word}

theorem goes_write {r : Ran LogIo} {f : Byte}
    (ran : r = ⟨.cont, { s.fetched.setReg d v with flags := f }, s.io input⟩) :
    r.GoesTo (s.write d v f) := by
  subst ran
  exact ⟨rfl, congrArg (fun job => Progress.mk job s.log) (job_write s d v f)⟩

theorem goes_log {r : Ran LogIo} {out : Outcome} (ran : r = ⟨.cont, s.fetched, ⟨input, out⟩⟩) :
    r.GoesTo { s.next with log := out.log } := by
  subst ran
  exact ⟨rfl, congrArg (fun job => Progress.mk job out.log) (job_fetched s)⟩

theorem syscall_goes {n : Half} (ran : execSyscall p input n s = some s') :
    (p.syscall s.fetched (s.io input) n).GoesTo s' := by
  unfold execSyscall at ran
  unfold syscall
  split at ran
  next field =>
    rw [if_pos field]
    have read : CartIo.field (s.io input) (s.fetched.regs 1) =
        (input.field (s.job.regs 1), s.io input) := rfl
    rw [read]
    cases asked : input.field (s.job.regs 1) with
    | none =>
      rw [asked] at ran
      cases ran
    | some v =>
      rw [asked] at ran
      cases ran
      exact goes_write rfl
  next other =>
    rw [if_neg other]
    split at ran
    next now =>
      cases ran
      rw [if_pos now]
      exact goes_write rfl
    next other =>
      rw [if_neg other]
      split at ran
      next emits =>
        cases ran
        have live : ¬ (n = Sys.VERDICT ∧ p.cfg.stage = STAGE_XDP) := by
          rw [emits]
          exact fun verdict => absurd verdict.1 (by decide)
        rw [if_neg live, if_pos emits]
        exact goes_log rfl
      next other =>
        split at ran
        next queues =>
          have live : ¬ (n = Sys.VERDICT ∧ p.cfg.stage = STAGE_XDP) := by
            rw [queues.1]
            exact fun verdict => absurd verdict.1 (by decide)
          rw [if_neg live, if_neg other, if_pos queues]
          split at ran <;> cases ran
          next aligned =>
            refine goes_log (if_neg ?_)
            exact aligned
        next => cases ran

theorem load_goes (ran : execLoad p d addr s = some s') :
    (p.load s.fetched (s.io input) d addr).GoesTo s' := by
  unfold execLoad at ran
  unfold load
  split at ran
  next v loaded =>
    have word : p.loadWord s.fetched addr = some v := loaded
    rw [word]
    split at ran <;> cases ran
    next aligned =>
      exact goes_write (if_pos aligned)
  next => cases ran

theorem loadByte_goes (ran : execLoadByte p d addr s = some s') :
    (p.loadByte s.fetched (s.io input) d addr).GoesTo s' := by
  unfold execLoadByte at ran
  unfold loadByte
  split at ran
  next v loaded =>
    have word : p.loadWord s.fetched addr = some v := loaded
    rw [word]
    cases ran
    exact goes_write rfl
  next => cases ran

theorem store_goes (ran : execStore addr v s = some s') :
    (store s.fetched (s.io input) addr v).GoesTo s' := by
  unfold execStore at ran
  split at ran <;> cases ran
  next inside =>
    rw [store, if_pos inside]
    have pc := pc_advance s.job.pc
    refine ⟨rfl, congrArg (fun job => Progress.mk job s.log) ?_⟩
    simp only [Progress.fetched, advance, CartState.job, Job.state, pc]

variable {table : Label → Option Nat} {insn : AsmInsn Label}

theorem execute_goes {pc : Word} (plain : insn.labelRef = none)
    (ran : exec p input table insn s = some s') : (p.execute s.fetched (s.io input) pc
      (encode insn.opcode.toByte insn.dst insn.src insn.imm)).GoesTo s' := by
  obtain ⟨o, d, r, imm, labelRef⟩ := insn
  cases plain
  unfold exec at ran
  dsimp only at ran ⊢
  split at ran
  next =>
    simp only [execute, opcode?_encode, dst_encode, src_encode,
      imm16Signed, imm16_encode]
    exact load_goes ran
  next =>
    simp only [execute, opcode?_encode, dst_encode, src_encode,
      imm16Signed, imm16_encode]
    exact loadByte_goes ran
  next =>
    simp only [execute, opcode?_encode, dst_encode, src_encode,
      imm16Signed, imm16_encode]
    exact store_goes ran
  next =>
    simp only [execute, opcode?_encode, imm16_encode]
    exact syscall_goes ran
  next =>
    split at ran
    next listed =>
      rw [Option.map_eq_some_iff] at ran
      obtain ⟨⟨v, f⟩, result, rfl⟩ := ran
      have word : p.execute s.fetched (s.io input) pc (encode o.toByte d r imm) =
          ⟨.cont, { s.fetched.setReg (dst (encode o.toByte d r imm)) v with
            flags := f }, s.io input⟩ := by
        refine execute_alu (opcode?_encode d r imm o) listed ?_
        rw [dst_encode, src_encode, imm16_encode]
        exact result
      rw [dst_encode] at word
      exact goes_write word
    next => cases ran

variable {target : Nat}

theorem branch_lands (op : Byte) {i : Nat} (low : -8388608 ≤ (target : Int) - (i + 1))
    (high : (target : Int) - (i + 1) ≤ 8388607) : ofNat 32 i + 1 +
        branchOffset (encodeBranch op (BitVec.ofInt 32 (target - (i + 1)))) = ofNat 32 target := by
  rw [branchOffset_encodeBranch op low high]
  have one : (1 : Word) = BitVec.ofInt 32 1 := rfl
  rw [← BitVec.ofInt_natCast, ← BitVec.ofInt_natCast, one, ← BitVec.ofInt_add, ← BitVec.ofInt_add]
  congr 1
  omega

section

variable (inside : target < p.cfg.romWords.toNat)
include inside

theorem toNat_target : (ofNat 32 target).toNat = target ∧
      (ofNat 32 target).setWidth 16 = ofNat 16 target := by
  constructor
  · rw [BitVec.toNat_ofNat]
    omega
  · exact BitVec.setWidth_ofNat_of_le (by decide) target

theorem branchTo_goes (forward : s.job.pc.toNat < target) :
    (p.branchTo s.fetched (s.io input) (s.job.pc.setWidth 32) (ofNat 32 target)).GoesTo
      (s.jump (ofNat 16 target)) := by
  obtain ⟨value, low⟩ := toNat_target inside
  have within : ¬ p.cfg.romWords.setWidth 32 ≤ ofNat 32 target := by
    rw [BitVec.le_def, BitVec.toNat_setWidth]
    omega
  have later : ¬ ofNat 32 target ≤ (s.job.pc.setWidth 32 : Word) := by
    rw [BitVec.le_def, BitVec.toNat_setWidth]
    omega
  rw [branchTo, if_neg within, if_neg later, low]
  exact ⟨rfl, rfl⟩

theorem branchTo_goes_back (back : target ≤ s.job.pc.toNat)
    (left : s.job.backEdges + 1 ≤ p.cfg.loopBound.setWidth 32) (tick : p.cfg.stage ≠ STAGE_XDP) :
    (p.branchTo s.fetched (s.io input) (s.job.pc.setWidth 32) (ofNat 32 target)).GoesTo
      (s.jumpBack (ofNat 16 target)) := by
  obtain ⟨value, low⟩ := toNat_target inside
  have within : ¬ p.cfg.romWords.setWidth 32 ≤ ofNat 32 target := by
    rw [BitVec.le_def, BitVec.toNat_setWidth]
    omega
  have earlier : ofNat 32 target ≤ (s.job.pc.setWidth 32 : Word) := by
    rw [BitVec.le_def, BitVec.toNat_setWidth]
    omega
  have bounded : ¬ (p.cfg.loopBound.setWidth 32 < s.fetched.backEdges + 1 ∨
      p.cfg.stage = STAGE_XDP) :=
    not_or.mpr ⟨BitVec.not_lt.mpr left, tick⟩
  rw [branchTo, if_neg within, if_pos earlier]
  rw [if_neg bounded, low]
  exact ⟨rfl, rfl⟩

end

theorem branch_goes {label : Label} {w : Word} (ref : insn.labelRef = some label)
    (encoded : encodeInsn table s.job.pc.toNat insn = .ok w)
    (ran : execBranch p table insn.opcode label s = some s') :
    (p.execute s.fetched (s.io input) (s.job.pc.setWidth 32) w).GoesTo s' := by
  unfold execBranch at ran
  split at ran
  next target taken known branches =>
    have kind : Asm.isBranch insn.opcode = true := by
      revert branches
      cases insn.opcode <;> first | exact fun _ => rfl | exact fun other => by cases other
    obtain ⟨low, high, rfl⟩ := encodeInsn_branch ref known kind encoded
    have lands := branch_lands insn.opcode.toByte low high
    rw [execute_branch (opcode?_encodeBranch insn.opcode _) branches,
      branchIf]
    split at ran
    next => cases ran
    next inside =>
      rw [Nat.not_le] at inside
      split at ran
      next skipped =>
        cases ran
        rw [skipped]
        exact goes_log rfl
      next jumps =>
        rw [Bool.not_eq_false] at jumps
        rw [if_pos jumps]
        rw [BitVec.ofNat_toNat] at lands
        rw [lands]
        split at ran
        next forward =>
          cases ran
          exact branchTo_goes inside forward
        next back =>
          split at ran <;> cases ran
          next bounded =>
            exact branchTo_goes_back inside (Nat.not_lt.mp back) bounded.1 bounded.2
  next => cases ran

end Words

/-! ## Blocks -/

/-- The machine stands before the word at `pc`, with these registers, window,
back-edges and log. -/
@[mk_iff]
structure At (pc : Half) (known : List (Reg × Word)) (mem : BitVec 6 → Word) (edges : Word)
    (log : Log) (s : Progress) : Prop where
  pc : s.job.pc = pc
  known : ∀ x ∈ known, s.job.regs x.1 = x.2
  mem : s.job.mem = mem
  edges : s.job.backEdges = edges
  log : s.log = log

attribute [simp] at_iff

theorem At.forget {pc : Half} {known fewer : List (Reg × Word)} {mem : BitVec 6 → Word}
    {edges : Word} {log : Log} {s : Progress} (here : At pc known mem edges log s)
    (among : ∀ x ∈ fewer, x ∈ known) : At pc fewer mem edges log s :=
  ⟨here.pc, fun x member => here.known x (among x member), here.mem, here.edges, here.log⟩

namespace Loaded

variable {Label : Type} [DecidableEq Label] {source : List (AsmLine Label)} {p : Cartridge}
  {input : PacketInput} {s s' : Progress}

variable {insn : AsmInsn Label}

variable (loaded : Loaded source p)
include loaded

theorem jobStep_eq (get : (items source)[s.job.pc.toNat]? = some (.insn insn)) :
    ∃ w, encodeInsn (labels source) s.job.pc.toNat insn = .ok w ∧ jobStep p input s = (settle
        (p.execute s.fetched (s.io input) (s.job.pc.setWidth 32) w)).report Log.empty := by
  obtain ⟨w, encoded, fetched⟩ := loaded.fetch _ _ get
  refine ⟨w, encoded, ?_⟩
  obtain ⟨inside, -⟩ := List.getElem?_eq_some_iff.mp get
  rw [← loaded.size] at inside
  rw [BitVec.ofNat_toNat] at fetched
  rw [jobStep, step_of_fetch inside fetched]
  rfl

theorem jobStep_of_exec (get : (items source)[s.job.pc.toNat]? = some (.insn insn))
    (ran : exec p input (labels source) insn s = some s') : jobStep p input s = .inl s' := by
  obtain ⟨w, encoded, step⟩ := loaded.jobStep_eq get
  rw [step]
  apply Ran.GoesTo.report
  cases ref : insn.labelRef with
  | none =>
    simp only [encodeInsn, ref] at encoded
    cases encoded
    exact execute_goes ref ran
  | some label =>
    simp only [exec, ref] at ran
    exact branch_goes ref encoded ran

theorem goes_line (pc : Nat) (block : List (AsmInsn Label))
    {Q : Progress → Prop} (stands : Holds (items source) pc (block.map .insn))
    (ran : ∃ s', line p input (labels source) pc block s = some s' ∧ Q s') :
    Goes (jobStep p input) block.length s Q := by
  obtain ⟨s', ran, post⟩ := ran
  induction block generalizing pc s with
  | nil =>
    cases ran
    exact .here post
  | cons insn rest ih =>
    unfold line at ran
    split at ran
    next here =>
      have get : (items source)[s.job.pc.toNat]? = some (.insn insn) := by
        rw [here]
        exact stands.head
      split at ran
      next t first => exact .step (loaded.jobStep_of_exec get first) (ih (pc + 1) stands.tail ran)
      next => cases ran
    next => cases ran

theorem goes_block (pc : Half) (block : List (AsmInsn Label))
    {known : List (Reg × Word)} {mem : BitVec 6 → Word} {edges : Word} {log : Log}
    {Q : Progress → Prop} (stands : Holds (items source) pc.toNat (block.map .insn))
    (here : At pc known mem edges log s) (ran : ∀ regs flags, (∀ x ∈ known, regs x.1 = x.2) →
      ∃ s', line p input (labels source) pc.toNat block ⟨⟨regs, mem, pc, flags, edges⟩, log⟩ =
        some s' ∧ Q s') : Goes (jobStep p input) block.length s Q := by
  obtain ⟨⟨regs, mem, pc, flags, edges⟩, log⟩ := s
  obtain ⟨rfl, known, rfl, rfl, rfl⟩ := here
  exact loaded.goes_line pc.toNat block stands (ran regs flags known)

theorem verdict_ends (xdp : p.cfg.stage = STAGE_XDP)
    {Q : Step × Progress → Prop} (get : (items source)[s.job.pc.toNat]? = some (.insn (SYSCALL 2)))
    (code : s.job.regs 1 = 0 ∨ s.job.regs 1 = 1)
    (post : Q (.verdict ((s.job.regs 1).setWidth 8), s.next)) : Ends (jobStep p input) 1 s Q := by
  refine .stop ?_ post
  obtain ⟨w, encoded, step⟩ := loaded.jobStep_eq get
  cases encoded
  have ran : p.execute s.fetched (s.io input) (s.job.pc.setWidth 32)
      (encode Opcode.syscall.toByte 0 0 2) =
        ⟨.verdict ((s.job.regs 1).setWidth 8), s.fetched, s.io input⟩ := by
    simp only [execute, opcode?_encode]
    rw [syscall, if_neg (fun field => absurd field.1 (by decide)), if_neg (by decide),
      if_pos ⟨rfl, xdp⟩]
    exact if_pos code
  rw [step]
  simp only [SYSCALL, immediate, ran]
  exact congrArg (fun job => Sum.inr (_, Progress.mk job s.log)) (job_fetched s)

theorem halt_ends {Q : Step × Progress → Prop}
    (get : (items source)[s.job.pc.toNat]? = some (.insn HALT)) (post : Q (.halt, s.next)) :
    Ends (jobStep p input) 1 s Q := by
  refine .stop ?_ post
  obtain ⟨w, encoded, step⟩ := loaded.jobStep_eq get
  cases encoded
  have ran : p.execute s.fetched (s.io input) (s.job.pc.setWidth 32)
      (encode Opcode.halt.toByte 0 0 0) = ⟨.halt, s.fetched, s.io input⟩ := by
    simp only [execute, opcode?_encode]
  rw [step]
  simp only [HALT, ran]
  exact congrArg (fun job => Sum.inr (_, Progress.mk job s.log)) (job_fetched s)

end Loaded

/-! ## Packet runs -/

section PacketRuns

variable {p : Cartridge} {input : PacketInput}

theorem syscall_ne_yield (xdp : p.cfg.stage = STAGE_XDP) (st : CartState) (io : LogIo) (n : Half) :
    (p.syscall st io n).result ≠ .yield := by
  have refused : ¬ (n = Sys.YIELD ∧ p.cfg.stage ≠ STAGE_XDP) := fun yields => yields.2 xdp
  rw [syscall, if_neg refused]
  split
  · split <;> nofun
  · dsimp only
    repeat' split
    all_goals nofun

theorem step_ne_yield (xdp : p.cfg.stage = STAGE_XDP) (st : CartState) (io : LogIo) :
    (p.step st io).result ≠ .yield := by
  have execute (st : CartState) (pc w : Word) : (p.execute st io pc w).result ≠ .yield := by
    by_cases call : opcode? w = some .syscall
    · rw [Cartridge.execute, call]
      exact syscall_ne_yield xdp st io _
    · have plain : Plain st io _ (p.execute st io pc w) := execute_plain call
      intro yields
      rcases plain.result with same | ⟨k, same⟩ | ⟨same, -⟩ <;> cases same.symm.trans yields
  unfold step
  dsimp only
  split
  · rintro ⟨⟩
  · split
    · rintro ⟨⟩
    · rw [result_settle]
      exact execute _ _ _

theorem step_insns (st : CartState) (io : LogIo) (continues : (p.step st io).result = .cont) :
    (p.step st io).st.insns = st.insns + 1 := by
  unfold step at continues ⊢
  dsimp only at continues ⊢
  split at continues
  next => cases continues
  next inside =>
    rw [if_neg inside]
    cases fetched : p.rom (st.pc.setWidth 32) with
    | none =>
      simp [fetched] at continues
    | some w =>
      rw [insns_settle, execute_insns]
      rfl

variable {st : CartState}

theorem runLoop_of_ends (xdp : p.cfg.stage = STAGE_XDP) {n k : Nat} {io : LogIo}
    {r : Step × Progress} (same : io.input = input)
    (ends : after (jobStep p input) n ⟨st.job, io.out.log⟩ = .inr r) (fuel : n ≤ k)
    (budget : st.insns.toNat + n ≤ p.cfg.maxInsn.toNat) :
    (p.runLoop k st io).report Log.empty = .inr r := by
  induction n generalizing k st io with
  | zero => cases ends
  | succ n ih =>
    obtain ⟨k, rfl⟩ := Nat.exists_eq_add_of_lt fuel
    have left : ¬ p.cfg.maxInsn.setWidth 32 ≤ st.insns := by
      rw [BitVec.le_def, BitVec.toNat_setWidth]
      omega
    have step := jobStep_eq p Log.empty st same
    rw [Log.empty_append] at step
    unfold runLoop
    dsimp only
    rw [runOne, if_neg left]
    split
    next continues =>
      have next : jobStep p input ⟨st.job, io.out.log⟩ =
          .inl ⟨(p.step st io).st.job, (p.step st io).io.out.log⟩ := by
        rw [step, Ran.report, if_pos (Or.inl continues), Log.empty_append]
      rw [after_succ_of_next next] at ends
      have counted : (p.step st io).st.insns.toNat = st.insns.toNat + 1 := by
        have one : (1 : Word).toNat = 1 := rfl
        rw [step_insns st io continues, BitVec.toNat_add]
        omega
      apply ih ((step_input p st io).trans same) ends
      · omega
      · omega
    next stops =>
      have last := not_or.mpr ⟨stops, step_ne_yield xdp st io⟩
      have next := step
      rw [Ran.report, if_neg last] at next
      rw [after_succ_of_stop next] at ends
      rw [Ran.report, if_neg last, ends]

theorem report_eq_inr {r : Ran LogIo} {result : Step} {final : Progress}
    (stopped : r.report Log.empty = .inr (result, final)) :
    r.result = result ∧ r.st.job = final.job ∧ r.io.out.log = final.log := by
  unfold Ran.report at stopped
  split at stopped <;> cases stopped
  next =>
    exact ⟨rfl, rfl, (Log.empty_append _).symm⟩

theorem runPacket_of_ends {img : Image} (xdp : img.stage = STAGE_XDP) {n : Nat} (short : n ≤ N_PKT)
    (budget : n ≤ img.maxInsn.toNat) {Q : Step × Progress → Prop}
    (ends : Ends (jobStep img.cartridge input) n ⟨(beginRun st img.entry).job, Log.empty⟩ Q) :
    ∃ result final, Q (result, final) ∧
      (runPacket img st input).1 = ⟨some result, final.log.emits, final.log.queued⟩ ∧
      (runPacket img st input).2.job = final.job := by
  obtain ⟨⟨result, final⟩, stopped, post⟩ := ends
  refine ⟨result, final, post, ?_⟩
  have ran : (img.cartridge.run N_PKT (beginRun st img.entry)
      ⟨input, Outcome.default⟩).report Log.empty = .inr (result, final) := by
    refine runLoop_of_ends xdp rfl stopped short ?_
    rw [show (beginRun st img.entry).resetInsns.insns.toNat = 0 from rfl, Nat.zero_add]
    exact budget
  obtain ⟨same, job, log⟩ := report_eq_inr ran
  refine ⟨?_, job⟩
  unfold runPacket Ran.outcome
  dsimp only
  rw [same, ← log]
  rfl

/-- `run_packet` on the packets of a flow in order: the outcome and the state
after each. -/
def runFlow (img : Image) : CartState → List PacketInput → List (Outcome × CartState)
  | _, [] => []
  | st, input :: rest =>
    let ran := runPacket img st input
    ran :: runFlow img ran.2 rest

theorem runFlow_induct {img : Image} (Inv : List PacketInput → CartState → Prop)
    (Post : List PacketInput → PacketInput → Outcome × CartState → Prop)
    (step : ∀ seen st input, Inv seen st → Post seen input (runPacket img st input) ∧
      Inv (seen ++ [input]) (runPacket img st input).2)
    {seen packets : List PacketInput} (start : Inv seen st) {i : Nat} {input : PacketInput}
    (get : packets[i]? = some input) :
    ∃ ran, (runFlow img st packets)[i]? = some ran ∧ Post (seen ++ packets.take i) input ran := by
  induction packets generalizing seen st i with
  | nil => cases get
  | cons first rest ih =>
    obtain ⟨post, next⟩ := step seen st first start
    cases i with
    | zero =>
      cases get
      refine ⟨_, rfl, ?_⟩
      rw [List.take_zero, List.append_nil]
      exact post
    | succ i =>
      obtain ⟨ran, found, post⟩ := ih next get
      refine ⟨ran, found, ?_⟩
      rw [List.take_succ_cons, List.append_cons]
      exact post

end PacketRuns

end Unheaded.Cart
