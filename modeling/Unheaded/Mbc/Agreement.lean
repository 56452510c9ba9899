import Unheaded.Mbc.BpfCore
import Unheaded.Mbc.HostCore

/-!
# The host emulator against the BPF interpreter

Both engines run the non-privileged subset from states with the same registers, flags, pc and RAM.
-/

namespace Unheaded.Mbc

open Lib List Function MbcInsn Bpf Bpf.Setting Data

def Opcode.compared : Opcode → Bool
  | nop | int | iret | call | ret | jmpr | callr | fence | syscall | mret | sret | lrW | scW
  | halt => false
  | _ => true

/-- The two machines hold the same program and core, and nothing interferes:
no MMU, no pending interrupt, no tracer writing to the terminal. -/
structure Matches (c : Cpu) (b : Bpf) : Prop where
  core : b.core = c.core
  rom : ∀ {i : Nat} {w : Word}, c.rom[i]? = some w → b.rom.get? i = some w
  halted : c.state.halted = 0
  mmu : c.state.mmuEnabled = 0
  interrupts : c.state.interruptPending = 0
  bpf : b.Quiet

/-- The RAM words an instruction touches in either engine. -/
def Data.wordsTouched (x : Data) (o : Opcode) (w : Word) : List Nat :=
  let sp := x.regs REG_SP
  match o with
  | .push => [sp.toNat, ((sp - 4) >>> 2).toNat]
  | .pop => [(sp + 1).toNat, (sp >>> 2).toNat]
  | _ => (x.touched o w).toList.map (· >>> 2)

/-- `0xC000 >> 2`: a store to this word goes to the terminal. -/
def ttyWord : Nat := 0x3000

/-- The next word is in the compared subset and touches RAM only. -/
structure Admissible (c : Cpu) (w : Word) (o : Opcode) : Prop where
  fetch : c.rom[c.state.pc.toNat]? = some w
  op : opcode? w = some o
  compared : o.compared = true
  touched : ∀ a ∈ c.data.wordsTouched o w, a < c.ram.len ∧ PlainWord a ∧ a ≠ ttyWord

def StepAgrees (c : Cpu) (b : Bpf) : Prop :=
  ∃ c' b', c.step = .ok c' ∧ b.iterate = .next b' ∧ b'.core = c'.core

/-- The opcodes with two meanings, where they have the same effect. -/
def Data.SameEffect (x : Data) (o : Opcode) (w : Word) : Prop :=
  match o with
  | .div => x.regs (src w) ≠ 0 ∨ x.flags = Flag.C
  | .neg => x.regs (dst w) = 0
  | .push => False
  | .pop =>
    dst w = REG_SP ∧ x.word (x.regs REG_SP).toNat = x.regs REG_SP - 3
  | _ => True

/-- The interpreter fetches the word and the word has one meaning. -/
structure Agreeable (b : Bpf) (w : Word) (o : Opcode) : Prop where
  inRom : b.state.pc.toNat < Bpf.ROM_MAP_WORDS_DEFAULT
  noRestart : ¬ (b.state.pc = 0 ∧ Bpf.RESTART_INSNS < b.state.insnCount.toNat)
  effect : b.data.SameEffect o w

theorem Core.exec_of_compared {k : Core} {w : Word} {o : Opcode}
    (op : opcode? w = some o) (compared : o.compared = true)
    (other : o ∉ [Opcode.push, .pop, .cli, .sti])
    (plain : ∀ a, k.data.touched o w = some a → PlainWord (a >>> 2)) :
    ∃ k', k.exec w = some k' := by
  have kinds : (∃ v f, alu o (k.data.regs (dst w)) (k.data.regs (src w))
        (imm16 w) k.data.flags = some (v, f)) ∨
      (∃ a, k.data.touched o w = some a) ∨
      (∃ taken, branchTaken o k.data.flags = some taken) := by
    cases o <;>
      first
      | exact Or.inl ⟨_, _, rfl⟩
      | exact Or.inr (Or.inl ⟨_, rfl⟩)
      | exact Or.inr (Or.inr ⟨_, rfl⟩)
      | exact absurd (by decide) other
      | cases compared
  obtain ⟨v, f, result⟩ | ⟨a, address⟩ | ⟨taken, branch⟩ := kinds
  · exact ⟨_, exec_straight (exec_alu op result)⟩
  · exact ⟨_, exec_straight (exec_access op address (plain a address))⟩
  · exact ⟨_, exec_branch op branch⟩

namespace Matches

variable {c : Cpu} {b : Bpf} {w : Word} {o : Opcode}

section

variable (same : Matches c b)
include same

theorem quiet : c.Quiet :=
  ⟨same.halted, same.mmu, fun both => both.1 same.interrupts⟩

theorem data : b.data = c.data := congrArg Core.data same.core

theorem pc : b.state.pc = c.state.pc := congrArg Core.pc same.core

theorem advance :
    Matches (c.withPc (c.state.pc + 1)) (b.withPc (b.state.pc + 1)) where
  core := by
    change (⟨b.data, b.state.pc + 1⟩ : Core) = ⟨c.data, c.state.pc + 1⟩
    rw [same.data, same.pc]
  rom := same.rom
  halted := same.halted
  mmu := same.mmu
  interrupts := same.interrupts
  bpf := ⟨same.bpf.halted, same.bpf.mmu, same.bpf.interrupts, same.bpf.tracer⟩

theorem countInsn : Matches c.countInsn b.countInsn where
  core := same.core
  rom := same.rom
  halted := same.halted
  mmu := same.mmu
  interrupts := same.interrupts
  bpf := ⟨same.bpf.halted, same.bpf.mmu, same.bpf.interrupts, same.bpf.tracer⟩

end

variable {b' : Bpf}

theorem withCore {k : Core} (same : Matches c b) (becomes : b.Becomes k b') :
    Matches (c.withCore k) b' where
  core := becomes.core
  rom := by
    have maps : b'.rom = b.rom := congrArg Bpf.Setting.rom becomes.setting
    intro i w here
    rw [maps]
    exact same.rom here
  halted := same.halted
  mmu := same.mmu
  interrupts := same.interrupts
  bpf := ⟨(congrArg Bpf.Setting.halted becomes.setting).trans same.bpf.halted,
      (congrArg Bpf.Setting.mmuEnabled becomes.setting).trans same.bpf.mmu,
      (congrArg Bpf.Setting.interruptPending becomes.setting).trans same.bpf.interrupts,
      (congrArg Bpf.Setting.traceLeft becomes.setting).trans same.bpf.tracer⟩

theorem setInterruptsEnabled (same : Matches c b) (v : Byte) :
    Matches { c with state := { c.state with interruptsEnabled := v } }
      { b with state := { b.state with interruptsEnabled := v } } where
  core := same.core
  rom := same.rom
  halted := same.halted
  mmu := same.mmu
  interrupts := same.interrupts
  bpf := ⟨same.bpf.halted, same.bpf.mmu, same.bpf.interrupts, same.bpf.tracer⟩

theorem host_pop (inside : (c.state.regs REG_SP + 1).toNat < c.ram.len)
    (op : opcode? w = some .pop) :
    c.executeInsn w = .ok (c.withCore { c.core with
        data := (c.data.setReg (dst w)
          (c.ram.cell (c.state.regs REG_SP + 1).toNat)).setReg REG_SP
            (c.state.regs REG_SP + 1) }) := by
  rw [Cpu.executeInsn, op]
  rw [if_pos inside]
  rfl

theorem bpf_pop (plain : PlainWord (b.state.regs REG_SP >>> 2).toNat)
    (op : opcode? w = some .pop) :
    b.executeInsn w = .next (b.pop (dst w)) ∧ b.Becomes { b.core with
        data := (b.data.setReg (dst w) (b.data.word (b.state.regs REG_SP).toNat)).setReg
          REG_SP ((update b.state.regs (dst w)
            (b.data.word (b.state.regs REG_SP).toNat)) REG_SP + 4) }
        (b.pop (dst w)) := by
  rw [executeInsn, op, pop, memReadWord_data (by
    exact plain)]
  exact ⟨rfl, rfl, rfl, rfl⟩

theorem pop_same (same : Matches c b) (op : opcode? w = some .pop)
    (inside : (c.state.regs REG_SP + 1).toNat < c.ram.len)
    (plain : PlainWord (c.state.regs REG_SP >>> 2).toNat) (effect : b.data.SameEffect .pop w) :
    ∃ c' b', c.executeInsn w = .ok c' ∧ b.executeInsn w = .next b' ∧ Matches c' b' := by
  obtain ⟨intoSp, coincide⟩ := effect
  have regs : b.state.regs = c.state.regs := congrArg regs same.data
  obtain ⟨executed, becomes⟩ := bpf_pop (b := b) (by rw [regs]; exact plain) op
  refine ⟨_, _, host_pop inside op, executed, ?_⟩
  have reached : { b.core with
        data := (b.data.setReg (dst w) (b.data.word (b.state.regs REG_SP).toNat)).setReg
          REG_SP ((update b.state.regs (dst w)
            (b.data.word (b.state.regs REG_SP).toNat)) REG_SP + 4) } =
      { c.core with
        data := (c.data.setReg (dst w)
          (c.ram.cell (c.state.regs REG_SP + 1).toNat)).setReg REG_SP
            (c.state.regs REG_SP + 1) } := by
    have value : b.data.word (b.state.regs REG_SP).toNat = b.state.regs REG_SP - 3 := coincide
    have moved : b.state.regs REG_SP - 3 + 4 = b.state.regs REG_SP + 1 := by
      bv_omega
    rw [value, intoSp, update_self, moved, same.core, same.data, regs]
    simp [Data.setReg]
  rw [reached] at becomes
  exact same.withCore becomes

theorem executeInsn_same (same : Matches c b) (op : opcode? w = some o)
    (compared : o.compared = true)
    (touched : ∀ a ∈ c.data.wordsTouched o w, a < c.ram.len ∧ PlainWord a ∧ a ≠ ttyWord)
    (effect : b.data.SameEffect o w) :
    ∃ c' b', c.executeInsn w = .ok c' ∧ b.executeInsn w = .next b' ∧ Matches c' b' := by
  by_cases other : o ∉ [Opcode.push, .pop, .cli, .sti]
  · have plain : ∀ a, c.core.data.touched o w = some a → PlainWord (a >>> 2) := by
      intro a address
      have mem : a >>> 2 ∈ c.data.wordsTouched o w := by
        have address' : c.data.touched o w = some a := address
        cases o <;> first | (cases address; done) | (simp [wordsTouched, address'])
      exact (touched _ mem).2.1
    obtain ⟨k, follows⟩ := Core.exec_of_compared op compared other plain
    have portable : b.data.Portable w := by
      rw [Data.Portable, op]
      cases o <;> first | exact effect | trivial
    have followsB : b.core.exec w = some k := by
      rw [same.core]
      exact follows
    obtain ⟨b', executed, becomes⟩ := executeInsn_core same.bpf.mmu portable followsB
    exact ⟨_, b', Cpu.executeInsn_core same.mmu follows, executed, same.withCore becomes⟩
  · rw [not_not] at other
    simp only [mem_cons, not_mem_nil, or_false] at other
    obtain rfl | rfl | rfl | rfl := other
    · exact absurd effect id
    · have first := touched _ (mem_cons_self ..)
      have second := touched _ (mem_cons_of_mem _ (mem_cons_self ..))
      exact same.pop_same op first.1 second.2.1 effect
    · rw [Cpu.executeInsn, executeInsn, op]
      exact ⟨_, _, rfl, rfl, same.setInterruptsEnabled 0⟩
    · rw [Cpu.executeInsn, executeInsn, op]
      exact ⟨_, _, rfl, rfl, same.setInterruptsEnabled 1⟩

theorem fetch (same : Matches c b) (admissible : Admissible c w o) (agreeable : Agreeable b w o) :
    b.fetch = some w := by
  rw [Bpf.fetch, if_neg (Nat.not_le.mpr agreeable.inRom), if_neg agreeable.noRestart]
  apply same.rom
  rw [same.pc]
  exact admissible.fetch

theorem step (same : Matches c b) (admissible : Admissible c w o) (agreeable : Agreeable b w o) :
    ∃ c' b', c.step = .ok c' ∧ b.iterate = .next b' ∧ Matches c' b' := by
  obtain ⟨c', b', host, bpf, matched⟩ := same.advance.executeInsn_same admissible.op
    admissible.compared admissible.touched agreeable.effect
  exact ⟨_, _, Cpu.step_of_fetch same.quiet admissible.fetch host,
    iterate_of_executeInsn same.bpf (same.fetch admissible agreeable) bpf, matched.countInsn⟩

variable {c' : Cpu}

variable (same : Matches c b)
include same

theorem div_effect (op : opcode? w = some .div)
    (host : c.executeInsn w = .ok c') (bpf : b.executeInsn w = .next b') (core : b'.core = c'.core) :
    b.data.SameEffect .div w := by
  by_cases zero : b.state.regs (src w) = 0
  · right
    have zero' : c.state.regs (src w) = 0 := by
      rw [← zero]
      exact (congrFun (congrArg regs same.data) _).symm
    rw [Cpu.executeInsn, op] at host
    rw [executeInsn, op] at bpf
    rw [if_pos zero'] at host
    rw [if_pos zero] at bpf
    cases host
    cases bpf
    exact congrArg (fun k : Core => k.data.flags) core
  · exact Or.inl zero

theorem neg_effect (op : opcode? w = some .neg)
    (host : c.executeInsn w = .ok c') (bpf : b.executeInsn w = .next b') (core : b'.core = c'.core) :
    b.data.SameEffect .neg w := by
  have value : b.state.regs (dst w) = c.state.regs (dst w) :=
    congrFun (congrArg regs same.data) _
  rw [Cpu.executeInsn, op] at host
  rw [executeInsn, op] at bpf
  cases host
  cases bpf
  rw [setResult_eq, Cpu.setResult_eq] at core
  have flags : resultFlags _ false = resultFlags _ (subBorrow 0 _) :=
    congrArg (fun k : Core => k.data.flags) core
  have noBorrow := (Flag.pack_inj flags).2.2
  change b.state.regs (dst w) = 0
  rw [value]
  apply BitVec.eq_of_toNat_eq
  have notBelow := of_decide_eq_false noBorrow.symm
  exact Nat.le_zero.mp (Nat.not_lt.mp notBelow)

theorem push_differs (op : opcode? w = some .push)
    (inside : (c.state.regs REG_SP).toNat < c.ram.len) (host : c.executeInsn w = .ok c')
    (bpf : b.executeInsn w = .next b') : b'.core ≠ c'.core := by
  intro core
  have sp : b.state.regs REG_SP = c.state.regs REG_SP := congrFun (congrArg regs same.data) _
  rw [Cpu.executeInsn, op] at host
  rw [executeInsn, op] at bpf
  cases host
  cases bpf
  have pointers := congrArg (fun k : Core => k.data.regs REG_SP) core
  dsimp only [Bpf.core, Bpf.data, Cpu.core, Cpu.data] at pointers
  rw [Bpf.push, Bpf.state_memWriteWord, Cpu.pushWord, if_pos inside] at pointers
  simp only [Bpf.setReg, Cpu.setReg, update_self] at pointers
  bv_omega

theorem pop_effect (op : opcode? w = some .pop)
    (inside : (c.state.regs REG_SP + 1).toNat < c.ram.len)
    (plain : PlainWord (c.state.regs REG_SP >>> 2).toNat) (host : c.executeInsn w = .ok c')
    (bpf : b.executeInsn w = .next b') (core : b'.core = c'.core) : b.data.SameEffect .pop w := by
  have regs : b.state.regs = c.state.regs := congrArg regs same.data
  obtain ⟨executed, becomes⟩ := bpf_pop (b := b) (by rw [regs]; exact plain) op
  rw [executed] at bpf
  cases bpf
  rw [host_pop inside op] at host
  cases host
  rw [becomes.core] at core
  have pointers := congrArg (fun k : Core => k.data.regs REG_SP) core
  simp only [Data.setReg, Cpu.core_withCore, update_self] at pointers
  by_cases intoSp : dst w = REG_SP
  · rw [intoSp, update_self, ← regs] at pointers
    refine ⟨intoSp, ?_⟩
    change b.data.word (b.state.regs REG_SP).toNat = b.state.regs REG_SP - 3
    bv_omega
  · rw [update_of_ne (Ne.symm intoSp), regs] at pointers
    exfalso
    bv_omega

theorem executeInsn_effect (op : opcode? w = some o)
    (touched : ∀ a ∈ c.data.wordsTouched o w, a < c.ram.len ∧ PlainWord a ∧ a ≠ ttyWord)
    (host : c.executeInsn w = .ok c') (bpf : b.executeInsn w = .next b') (core : b'.core = c'.core) :
    b.data.SameEffect o w := by
  cases o with
  | div => exact same.div_effect op host bpf core
  | neg => exact same.neg_effect op host bpf core
  | push =>
    have first := touched _ (mem_cons_self ..)
    exact absurd core (same.push_differs op first.1 host bpf)
  | pop =>
    have first := touched _ (mem_cons_self ..)
    have second := touched _ (mem_cons_of_mem _ (mem_cons_self ..))
    exact same.pop_effect op first.1 second.2.1 host bpf core
  | _ => trivial

theorem stepAgrees_iff (admissible : Admissible c w o) : StepAgrees c b ↔ Agreeable b w o := by
  constructor
  · rintro ⟨c', b', hostStep, bpfStep, core⟩
    obtain ⟨v, b'', fetched, bpf, rfl⟩ := executeInsn_of_iterate same.bpf bpfStep
    obtain ⟨inRom, noRestart, stored⟩ := fetch_eq_some fetched
    have word := same.rom admissible.fetch
    rw [← same.pc, stored] at word
    cases word
    obtain ⟨c'', host, rfl⟩ := Cpu.executeInsn_of_step same.quiet admissible.fetch hostStep
    exact ⟨inRom, noRestart,
      same.advance.executeInsn_effect admissible.op admissible.touched host bpf core⟩
  · intro agreeable
    obtain ⟨c', b', host, bpf, matched⟩ := same.step admissible agreeable
    exact ⟨c', b', host, bpf, matched.core⟩

theorem run (n : Nat) (admitted : ∀ m < n, ∀ c' b', stepN Cpu.step? m c = some c' →
      stepN iterate? m b = some b' → ∃ w o, Admissible c' w o ∧ Agreeable b' w o) :
    ∃ c' b', stepN Cpu.step? n c = some c' ∧ stepN iterate? n b = some b' ∧ Matches c' b' := by
  apply lockstep (A := fun c' b' => ∃ w o, Admissible c' w o ∧ Agreeable b' w o) _ n same admitted
  rintro c' b' matched ⟨w, o, admissible, agreeable⟩
  obtain ⟨c'', b'', host, bpf, matched'⟩ := matched.step admissible agreeable
  refine ⟨c'', b'', ?_, ?_, matched'⟩
  · rw [Cpu.step?, host]
  · rw [iterate?, bpf]

end Matches

/-- From machines with the same core, a step agrees exactly where its word has
one meaning, and a run of such steps agrees at every step. -/
theorem host_agrees_with_bpf {c : Cpu} {b : Bpf} (same : Matches c b) :
    (∀ w o, Admissible c w o → (StepAgrees c b ↔ Agreeable b w o)) ∧
    (∀ n, (∀ m < n, ∀ c' b', stepN Cpu.step? m c = some c' →
        stepN iterate? m b = some b' → ∃ w o, Admissible c' w o ∧ Agreeable b' w o) →
      ∀ m ≤ n, ∃ c' b', stepN Cpu.step? m c = some c' ∧ stepN iterate? m b = some b' ∧
        b'.core = c'.core) := by
  constructor
  · intro w o admissible
    exact same.stepAgrees_iff admissible
  · intro n admitted m bound
    obtain ⟨c', b', host, bpf, matched⟩ :=
      same.run m (fun j below => admitted j (Nat.lt_of_lt_of_le below bound))
    exact ⟨c', b', host, bpf, matched.core⟩

/-- Both engines with the same program, 64 words of RAM and `r15` at 16. -/
def smallState : MbcCpuState :=
  { MbcCpuState.default with regs := update (fun _ => 0) REG_SP 16 }

variable (rom : List Word)

def smallHost : Cpu :=
  { Cpu.new with state := smallState, ram := Store.ofFn 64 (fun _ => 0), rom := rom }

def smallBpf : Bpf := boot smallState 64 rom []

theorem small_matches (fits : rom.length ≤ Bpf.ROM_MAP_WORDS_DEFAULT) :
    Matches (smallHost rom) (smallBpf rom) where
  core := rfl
  rom := get?_fillMap fits
  halted := rfl
  mmu := rfl
  interrupts := rfl
  bpf := ⟨rfl, rfl, rfl, rfl⟩

/-- `PUSH r1`. -/
def pushWord : Word := encode Opcode.push.toByte 1 0 0

/-- `MOVI r1, 5`. -/
def moviWord : Word := encode Opcode.movi.toByte 1 0 5

theorem push_admissible : Admissible (smallHost [pushWord]) pushWord .push where
  fetch := rfl
  op := by decide
  compared := rfl
  touched := by decide

/-- The step that pushes `r1` parts the engines. -/
theorem push_parts_engines : Matches (smallHost [pushWord]) (smallBpf [pushWord]) ∧
      Admissible (smallHost [pushWord]) pushWord .push ∧
      ¬ StepAgrees (smallHost [pushWord]) (smallBpf [pushWord]) := by
  have same := small_matches [pushWord] (by decide)
  refine ⟨same, push_admissible, ?_⟩
  intro agrees
  exact ((same.stepAgrees_iff push_admissible).mp agrees).effect

theorem movi_admissible : Admissible (smallHost [moviWord]) moviWord .movi where
  fetch := rfl
  op := by decide
  compared := rfl
  touched := by decide

theorem movi_agreeable : Agreeable (smallBpf [moviWord]) moviWord .movi :=
  ⟨by decide, by decide, trivial⟩

theorem movi_agrees : StepAgrees (smallHost [moviWord]) (smallBpf [moviWord]) ∧
      ∃ c' b', stepN Cpu.step? 1 (smallHost [moviWord]) = some c' ∧
        stepN iterate? 1 (smallBpf [moviWord]) = some b' ∧ b'.core = c'.core := by
  have agrees := host_agrees_with_bpf (small_matches [moviWord] (by decide))
  refine ⟨(agrees.1 _ _ movi_admissible).mpr movi_agreeable, ?_⟩
  refine agrees.2 1 ?_ 1 (Nat.le_refl 1)
  intro m below c' b' host bpf
  obtain rfl : m = 0 := by omega
  cases host
  cases bpf
  exact ⟨moviWord, .movi, movi_admissible, movi_agreeable⟩

end Unheaded.Mbc
