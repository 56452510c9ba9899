import Unheaded.Cart.Image

/-!
# What a cartridge step does to the pc

`Effect` lists everything a word can do to the pc, the back-edge count and the result of the step.
-/

namespace Unheaded.Cart

open Lib Mbc MbcInsn Cartridge

/-- Results that no branch and no unlisted word produces. -/
def Step.ordinary : Step → Bool
  | .fault .badOpcode | .fault .syscall | .fault .pc | .fault .budget | .fault .loopBound => false
  | _ => true

namespace Cartridge

variable {ι : Type} (p : Cartridge)

/-- The target of the branch `w` fetched at `pc`. -/
def target (pc w : Word) : Word := pc + 1 + branchOffset w

/-- What the word `w` at `pc` makes of a state already advanced past it. -/
inductive Effect (pc w : Word) (st : CartState) : Step → CartState → Prop
  | badOpcode (unlisted : ∀ o ∈ ALLOWED_OPCODES, opcode? w ≠ some o) (st' : CartState) :
      Effect pc w st (.fault .badOpcode) st'
  | badSyscall (call : opcode? w = some .syscall)
      (forbidden : imm16 w ∉ allowedSyscalls p.cfg.stage) (st' : CartState) :
      Effect pc w st (.fault .syscall) st'
  | onward {r : Step} {st' : CartState} (ordinary : r.ordinary = true) (pcs : st'.pc = st.pc)
      (edges : st'.backEdges = st.backEdges) : Effect pc w st r st'
  | outside (branch : isBranch (opcode w))
      (beyond : p.cfg.romWords.setWidth 32 ≤ target pc w) (st' : CartState) :
      Effect pc w st (.fault .pc) st'
  | looped (branch : isBranch (opcode w))
      (within : target pc w < p.cfg.romWords.setWidth 32) (behind : target pc w ≤ pc)
      (spent : p.cfg.loopBound.setWidth 32 < st.backEdges + 1 ∨ p.cfg.stage = STAGE_XDP)
      (st' : CartState) : Effect pc w st (.fault .loopBound) st'
  | back (branch : isBranch (opcode w))
      (within : target pc w < p.cfg.romWords.setWidth 32) (behind : target pc w ≤ pc)
      (left : st.backEdges + 1 ≤ p.cfg.loopBound.setWidth 32)
      {st' : CartState} (pcs : st'.pc = (target pc w).setWidth 16)
      (edges : st'.backEdges = st.backEdges + 1) : Effect pc w st .cont st'
  | forward (branch : isBranch (opcode w))
      (within : target pc w < p.cfg.romWords.setWidth 32) (ahead : pc < target pc w)
      {st' : CartState} (pcs : st'.pc = (target pc w).setWidth 16)
      (edges : st'.backEdges = st.backEdges) : Effect pc w st .cont st'

section Words

variable {p} {st : CartState} {io : ι} {pc w : Word}

theorem branchIf_effect (branch : isBranch (opcode w)) (taken : Bool) :
    Effect p pc w st (p.branchIf st io pc w taken).result (p.branchIf st io pc w taken).st := by
  cases taken with
  | false => exact .onward rfl rfl rfl
  | true =>
    change Effect p pc w st (p.branchTo st io pc (target pc w)).result
      (p.branchTo st io pc (target pc w)).st
    unfold branchTo
    split
    next beyond => exact .outside branch beyond _
    next within =>
      rw [BitVec.not_le] at within
      split
      next behind =>
        dsimp only
        split
        next spent => exact .looped branch within behind spent _
        next left =>
          rw [not_or, BitVec.not_lt] at left
          exact .back branch within behind left.1 rfl rfl
      next ahead => exact .forward branch within (BitVec.not_le.mp ahead) rfl rfl

theorem load_effect (d : Reg) (addr : Word) :
    Effect p pc w st (p.load st io d addr).result (p.load st io d addr).st := by
  unfold load
  split
  · split <;> exact .onward rfl rfl rfl
  · exact .onward rfl rfl rfl

theorem loadByte_effect (d : Reg) (addr : Word) :
    Effect p pc w st (p.loadByte st io d addr).result (p.loadByte st io d addr).st := by
  unfold loadByte
  split <;> exact .onward rfl rfl rfl

theorem store_effect (addr v : Word) :
    Effect p pc w st (store st io addr v).result (store st io addr v).st := by
  unfold store
  split <;> exact .onward rfl rfl rfl

variable [CartIo ι]

theorem syscall_effect (call : opcode? w = some .syscall) :
    Effect p pc w st (p.syscall st io (imm16 w)).result (p.syscall st io (imm16 w)).st := by
  unfold syscall
  split
  · split <;> exact .onward rfl rfl rfl
  split
  · exact .onward rfl rfl rfl
  split
  · split <;> exact .onward rfl rfl rfl
  split
  · exact .onward rfl rfl rfl
  split
  · dsimp only
    split <;> exact .onward rfl rfl rfl
  split
  · exact .onward rfl rfl rfl
  next field now verdict emit queue yield =>
    refine .badSyscall call ?_ _
    unfold allowedSyscalls
    split
    next xdp =>
      simp only [xdp, and_true] at field verdict queue
      simp [field, now, verdict, emit, queue]
    next other =>
      simp only [ne_eq, other, not_false_eq_true, and_true] at yield
      simp [now, emit, yield]

theorem execute_effect :
    Effect p pc w st (p.execute st io pc w).result (p.execute st io pc w).st := by
  have branches (o : Opcode) (op : opcode? w = some o)
      (range : isBranch o.toByte = true) : isBranch (opcode w) := by
    rw [Opcode.ofByte_eq_some.mp op]
    exact range
  have unlisted (h : ∀ o ∈ ALLOWED_OPCODES, opcode? w ≠ some o) :
      Effect p pc w st (.fault .badOpcode) st := .badOpcode h st
  unfold execute
  cases op : opcode? w with
  | none =>
    apply unlisted
    intro o _ named
    simp [op] at named
  | some o =>
    cases o with
    | jmp | jz | jnz | jn | jp | jc | jnc => exact branchIf_effect (branches _ op rfl) _
    | ld => exact load_effect _ _
    | ldb => exact loadByte_effect _ _
    | st => exact store_effect _ _
    | syscall => exact syscall_effect op
    | nop | add | sub | mul | and | or | xor | not | shl | shr | sar | shlr | shrr | sarr
    | mulh | mov | movi | loadImm32 | addi | cmp | halt => exact .onward rfl rfl rfl
    | _ =>
      apply unlisted
      intro o mem named
      rw [op] at named
      cases named
      revert mem
      decide

/-- What an instruction other than a call does: it goes on, faults or halts, and neither counts nor
asks anything. -/
structure Plain (st : CartState) (io : ι) (halts : Prop) (r : Ran ι) : Prop where
  insns : r.st.insns = st.insns
  io : r.io = io
  result : r.result = .cont ∨ (∃ k, r.result = .fault k) ∨ r.result = .halt ∧ halts

theorem execute_plain (call : opcode? w ≠ some .syscall) :
    Plain st io (opcode? w = some .halt) (p.execute st io pc w) := by
  have goes {halts : Prop} (st' : CartState) (same : st'.insns = st.insns) :
      Plain st io halts ⟨.cont, st', io⟩ := ⟨same, rfl, .inl rfl⟩
  have faults {halts : Prop} (k : FaultKind) (st' : CartState) (same : st'.insns = st.insns) :
      Plain st io halts ⟨.fault k, st', io⟩ := ⟨same, rfl, .inr (.inl ⟨k, rfl⟩)⟩
  have branch {halts : Prop} (taken : Bool) : Plain st io halts (p.branchIf st io pc w taken) := by
    unfold branchIf branchTo
    dsimp only
    repeat' split
    all_goals first | exact goes _ rfl | exact faults _ _ rfl
  unfold execute
  cases op : opcode? w with
  | none => exact faults _ _ rfl
  | some o =>
    cases o with
    | jmp | jz | jnz | jn | jp | jc | jnc => exact branch _
    | ld | ldb | st =>
      unfold load loadByte store
      dsimp only
      repeat' split
      all_goals first | exact goes _ rfl | exact faults _ _ rfl
    | syscall => exact absurd op call
    | halt => exact ⟨rfl, rfl, .inr (.inr ⟨rfl, rfl⟩)⟩
    | _ => first | exact goes _ rfl | exact faults _ _ rfl

theorem execute_insns : (p.execute st io pc w).st.insns = st.insns := by
  by_cases call : opcode? w = some .syscall
  · rw [execute, call]
    dsimp only [syscall]
    repeat' split
    all_goals rfl
  · exact (execute_plain call).insns

end Words

section Steps

variable {p}

variable (r : Ran ι)

@[simp] theorem result_settle : (settle r).result = r.result := by
  unfold settle
  split <;> rfl

@[simp] theorem pc_settle : (settle r).st.pc = r.st.pc := by
  unfold settle
  split <;> rfl

@[simp] theorem backEdges_settle : (settle r).st.backEdges = r.st.backEdges := by
  unfold settle
  split <;> rfl

@[simp] theorem insns_settle : (settle r).st.insns = r.st.insns := by
  unfold settle
  split <;> rfl

@[simp] theorem io_settle : (settle r).io = r.io := by
  unfold settle
  split <;> rfl

theorem runOut_tick (tick : p.cfg.stage = STAGE_TICK) (st : CartState) (io : ι) :
    p.runOut st io = ⟨.yield, st.withStatus Status.YIELDED, io⟩ :=
  if_pos tick

variable [CartIo ι]

variable {st : CartState} {io : ι}

theorem step_of_outside (outside : p.cfg.romWords.toNat ≤ st.pc.toNat) :
    p.step st io = ⟨.fault .pc, st.withStatus Status.DONE, io⟩ := by
  have beyond : p.cfg.romWords.setWidth 32 ≤ (st.pc.setWidth 32 : Word) := by
    rw [BitVec.le_def, BitVec.toNat_setWidth, BitVec.toNat_setWidth]
    omega
  exact if_pos beyond

theorem step_of_fetch {w : Word} (inside : st.pc.toNat < p.cfg.romWords.toNat)
    (fetch : p.rom (st.pc.setWidth 32) = some w) :
    p.step st io = settle (p.execute (advance st) io (st.pc.setWidth 32) w) := by
  have within : ¬ p.cfg.romWords.setWidth 32 ≤ (st.pc.setWidth 32 : Word) := by
    rw [BitVec.le_def, BitVec.toNat_setWidth, BitVec.toNat_setWidth]
    omega
  rw [step, if_neg within, fetch]

theorem runLoop_induct {I : CartState → ι → Prop} {P : Ran ι → Prop}
    (out : ∀ st io, I st io → P (p.runOut st io))
    (goes : ∀ st io, I st io → st.insns.toNat < p.cfg.maxInsn.toNat →
      (p.step st io).result = .cont → I (p.step st io).st (p.step st io).io)
    (stops : ∀ st io, I st io → st.insns.toNat < p.cfg.maxInsn.toNat →
      (p.step st io).result ≠ .cont → P (p.step st io))
    (n : Nat) (start : I st io) : P (p.runLoop n st io) := by
  induction n generalizing st io with
  | zero => exact out st io start
  | succ n ih =>
    unfold runLoop
    dsimp only
    unfold runOne
    split
    next spent =>
      have stopped : (p.runOut st io).result ≠ .cont := by
        unfold runOut
        split <;> intro h <;> cases h
      rw [if_neg stopped]
      exact out st io start
    next left =>
      have budget : st.insns.toNat < p.cfg.maxInsn.toNat := by
        rw [BitVec.not_le, BitVec.lt_def, BitVec.toNat_setWidth] at left
        omega
      split
      next continues => exact ih (goes st io start budget continues)
      next stopped => exact stops st io start budget stopped

theorem runLoop_ended (n : Nat) (st : CartState) (io : ι) : (p.runLoop n st io).result ≠ .cont := by
  refine runLoop_induct (I := fun _ _ => True) (P := fun r => r.result ≠ .cont) ?_ ?_ ?_ n trivial
  · intro st io _
    unfold runOut
    split <;> nofun
  · intro _ _ _ _ _
    trivial
  · intro st io _ _ stops
    exact stops

theorem run_succ (pos : 0 < p.cfg.maxInsn.toNat) (n : Nat) (st : CartState) (io : ι) :
    p.run (n + 1) st io =
      if (p.step st.resetInsns io).result = .cont then
        p.runLoop n (p.step st.resetInsns io).st (p.step st.resetInsns io).io
      else p.step st.resetInsns io := by
  have left : ¬ p.cfg.maxInsn.setWidth 32 ≤ st.resetInsns.insns := by
    rw [BitVec.le_def, BitVec.toNat_setWidth]
    change ¬ p.cfg.maxInsn.toNat % 2 ^ 32 ≤ 0
    omega
  rw [run, runLoop, runOne, if_neg left]

end Steps

end Cartridge

theorem target_toNat {i : Nat} {w : Word} {n : Nat} (small : n ≤ 1024)
    (low : 0 ≤ branchTarget i w) (high : branchTarget i w < n) :
    ((target (BitVec.ofNat 32 i) w).toNat : Int) = branchTarget i w := by
  have offset := BitVec.toInt_eq_toNat_cond (branchOffset w)
  have one : (1 : Word).toNat = 1 := rfl
  simp only [target, branchTarget, BitVec.toNat_add, BitVec.toNat_ofNat] at *
  split at offset <;> omega

/-- Everything a step from inside the ROM of a sound image can do. -/
inductive Turn (img : Image) (st : CartState) : Step → CartState → Prop
  | onward {r : Step} {st' : CartState} (ordinary : r.ordinary = true)
      (pcs : st'.pc.toNat = st.pc.toNat + 1) (edges : st'.backEdges = st.backEdges) :
      Turn img st r st'
  | forward {st' : CartState} (ahead : st.pc.toNat < st'.pc.toNat)
      (within : st'.pc.toNat < img.rom.length) (edges : st'.backEdges = st.backEdges) :
      Turn img st .cont st'
  | back {st' : CartState} (tick : img.stage ≠ STAGE_XDP) (behind : st'.pc.toNat ≤ st.pc.toNat)
      (left : st.backEdges + 1 ≤ img.loopBound.setWidth 32)
      (edges : st'.backEdges = st.backEdges + 1) : Turn img st .cont st'
  | looped (tick : img.stage ≠ STAGE_XDP)
      (spent : img.loopBound.setWidth 32 < st.backEdges + 1) (st' : CartState) :
      Turn img st (.fault .loopBound) st'

theorem Turn.congr {img : Image} {st st' st'' : CartState} {r : Step} (turn : Turn img st r st')
    (pcs : st''.pc = st'.pc) (edges : st''.backEdges = st'.backEdges) : Turn img st r st'' := by
  cases turn with
  | onward ordinary next same =>
    exact .onward ordinary (by rw [pcs, next]) (by rw [edges, same])
  | forward ahead within same =>
    exact .forward (by rw [pcs]; exact ahead) (by rw [pcs]; exact within) (by rw [edges, same])
  | back tick behind left counted =>
    exact .back tick (by rw [pcs]; exact behind) left (by rw [edges, counted])
  | looped tick spent => exact .looped tick spent st''

namespace Sound

variable {ι : Type} [CartIo ι] {img : Image}

theorem romWords (sound : Sound img) : img.cartridge.cfg.romWords.toNat = img.rom.length := by
  have small := sound.romMax
  change (BitVec.ofNat 16 img.rom.length).toNat = _
  rw [BitVec.toNat_ofNat]
  omega

variable {st : CartState}

variable (sound : Sound img)
include sound

theorem fetch (inside : st.pc.toNat < img.rom.length) :
    ∃ w, img.cartridge.rom (st.pc.setWidth 32) = some w ∧ WordOk img st.pc.toNat w := by
  have index : (st.pc.setWidth 32 : Word).toNat = st.pc.toNat := by
    rw [BitVec.toNat_setWidth]
    omega
  have get : img.cartridge.rom (st.pc.setWidth 32) = some (img.rom.get ⟨st.pc.toNat, inside⟩) := by
    change img.rom[(st.pc.setWidth 32 : Word).toNat]? = _
    rw [index, List.getElem?_eq_getElem inside]
    rfl
  exact ⟨_, get, sound.words _ _ (List.getElem?_eq_getElem inside)⟩

theorem pc_advance (inside : st.pc.toNat < img.rom.length) :
    (advance st).pc.toNat = st.pc.toNat + 1 := by
  have small := sound.romMax
  change ((st.pc.setWidth 32 + 1 : Word).setWidth 16 : Half).toNat = _
  rw [BitVec.toNat_setWidth, BitVec.toNat_add, BitVec.toNat_setWidth]
  have one : (1 : Word).toNat = 1 := rfl
  omega

theorem branch_target {w : Word} (ok : WordOk img st.pc.toNat w) (branch : isBranch (opcode w)) :
    (target (st.pc.setWidth 32) w).toNat < img.rom.length ∧ (img.stage = STAGE_XDP →
        st.pc.toNat < (target (st.pc.setWidth 32) w).toNat) := by
  have index : (st.pc.setWidth 32 : Word) = BitVec.ofNat 32 st.pc.toNat :=
    (BitVec.ofNat_toNat 32 st.pc).symm
  obtain ⟨low, high⟩ := ok.inside branch
  have value := target_toNat sound.romMax low high
  rw [index]
  constructor
  · omega
  · intro xdp
    have ahead := ok.forward branch xdp
    omega

theorem turn_of_effect {w : Word} {r : Step} {st' : CartState}
    (inside : st.pc.toNat < img.rom.length) (ok : WordOk img st.pc.toNat w)
    (effect : img.cartridge.Effect (st.pc.setWidth 32) w (advance st) r st') :
    Turn img st r st' := by
  have small := sound.romMax
  have pcs : (st.pc.setWidth 32 : Word).toNat = st.pc.toNat := by
    rw [BitVec.toNat_setWidth]
    omega
  have landing (branch : isBranch (opcode w))
      (at' : st'.pc = (target (st.pc.setWidth 32) w).setWidth 16) :
      st'.pc.toNat = (target (st.pc.setWidth 32) w).toNat := by
    have within := (sound.branch_target ok branch).1
    rw [at', BitVec.toNat_setWidth]
    omega
  cases effect with
  | badOpcode unlisted =>
    obtain ⟨o, mem, named⟩ := ok.opcode
    exact absurd named (unlisted o mem)
  | badSyscall call forbidden => exact absurd (ok.syscall call) forbidden
  | onward ordinary same edges =>
    refine .onward ordinary ?_ edges
    rw [same, sound.pc_advance inside]
  | outside branch beyond =>
    have within := (sound.branch_target ok branch).1
    have words : img.cartridge.cfg.romWords.toNat = img.rom.length := sound.romWords
    rw [BitVec.le_def, BitVec.toNat_setWidth] at beyond
    omega
  | looped branch within behind spent =>
    have forward := (sound.branch_target ok branch).2
    rw [BitVec.le_def] at behind
    have tick : img.stage ≠ STAGE_XDP := by
      intro xdp
      have ahead := forward xdp
      omega
    rcases spent with spent | xdp
    · exact Turn.looped tick (show _ < st.backEdges + 1 from spent) st'
    · exact absurd xdp tick
  | back branch within behind left at' edges =>
    have forward := (sound.branch_target ok branch).2
    rw [BitVec.le_def] at behind
    have tick : img.stage ≠ STAGE_XDP := by
      intro xdp
      have ahead := forward xdp
      omega
    refine .back tick ?_ left edges
    rw [landing branch at']
    exact behind
  | forward branch within ahead at' edges =>
    have inRom := (sound.branch_target ok branch).1
    refine .forward ?_ ?_ edges
    · rw [landing branch at']
      exact ahead
    · rw [landing branch at']
      exact inRom

theorem step_turn (st : CartState) (io : ι) (inside : st.pc.toNat < img.rom.length) :
    Turn img st (img.cartridge.step st io).result (img.cartridge.step st io).st ∧
      (img.cartridge.step st io).st.insns = st.insns + 1 := by
  obtain ⟨w, get, ok⟩ := sound.fetch inside
  have here : st.pc.toNat < img.cartridge.cfg.romWords.toNat := by
    rw [sound.romWords]
    exact inside
  rw [step_of_fetch here get]
  constructor
  · have turn : Turn img st
        (img.cartridge.execute (advance st) io (st.pc.setWidth 32) w).result _ :=
      sound.turn_of_effect inside ok execute_effect
    rw [result_settle]
    exact turn.congr (pc_settle _) (backEdges_settle _)
  · rw [insns_settle, execute_insns]
    rfl

end Sound

end Unheaded.Cart
