import Unheaded.Mbc.Host

/-!
# Interrupts of the host emulator

Taking an interrupt pushes flags and pc on the stack and `IRET` pops them. The states that open
interrupts have interrupted are kept beside the machine, the innermost first.
-/

namespace Unheaded.Mbc

open Lib Relation MbcInsn Store Cpu

namespace Cpu

section Frames

variable (f c : Cpu)

/-- Where an interrupt of this state saves the flags. -/
def flagsWord : Nat := ((f.state.regs REG_SP - 4) >>> 2).toNat

/-- Where an interrupt of this state saves the pc. -/
def pcWord : Nat := ((f.state.regs REG_SP - 4 - 4) >>> 2).toNat

def StackInRam : Prop := f.flagsWord < f.ram.len ∧ f.pcWord < f.ram.len

/-- The state with flags and pc pushed. -/
def saved : Cpu := (f.pushInterrupt (f.state.flags.setWidth 32)).pushInterrupt f.state.pc

/-- A handler that interrupted `f` has kept the registers and the two saved words up to `c`. -/
structure Kept : Prop where
  regs : c.state.regs = f.saved.state.regs
  flags : c.ram.get? f.flagsWord = f.saved.ram.get? f.flagsWord
  pc : c.ram.get? f.pcWord = f.saved.ram.get? f.pcWord

/-- The interrupted code goes on in `c` as in `f`. -/
structure Resumes : Prop where
  pc : c.state.pc = f.state.pc
  regs : c.state.regs = f.state.regs
  flags : c.state.flags = f.state.flags
  enabled : c.state.interruptsEnabled = 1

end Frames

variable {f c : Cpu}

theorem flagsWord_ne_pcWord : f.flagsWord ≠ f.pcWord := by
  rw [flagsWord, pcWord]
  generalize f.state.regs REG_SP - 4 = sp
  have bound := sp.isLt
  rw [BitVec.toNat_ushiftRight, BitVec.toNat_ushiftRight, BitVec.toNat_sub,
    Nat.shiftRight_eq_div_pow, Nat.shiftRight_eq_div_pow]
  have four : (4 : Word).toNat = 4 := rfl
  rw [four]
  omega

theorem saved_ram : f.saved.ram =
    (f.ram.set f.flagsWord (f.state.flags.setWidth 32)).set f.pcWord f.state.pc := rfl

theorem saved_words (inside : f.StackInRam) : f.saved.ram.get? f.pcWord = some f.state.pc ∧
    f.saved.ram.get? f.flagsWord = some (f.state.flags.setWidth 32) := by
  rw [saved_ram]
  constructor
  · rw [get?_of_lt _ (by rw [len_set, len_set]; exact inside.2),
      cell_set_self _ (by rw [len_set]; exact inside.2)]
  · rw [get?_of_lt _ (by rw [len_set, len_set]; exact inside.1),
      cell_set_of_ne _ flagsWord_ne_pcWord, cell_set_self _ inside.1]

theorem iret_resumes (inside : f.StackInRam) (kept : f.Kept c) : f.Resumes c.iret := by
  obtain ⟨pcSaved, flagsSaved⟩ := saved_words inside
  have sp : c.state.regs REG_SP = f.state.regs REG_SP - 4 - 4 := congrFun kept.regs REG_SP
  have up : f.state.regs REG_SP - 4 - 4 + 4 = f.state.regs REG_SP - 4 := BitVec.sub_add_cancel _ _
  have pcAt : (c.state.regs REG_SP >>> 2).toNat = f.pcWord := by rw [sp, pcWord]
  have flagsAt : ((c.state.regs REG_SP + 4) >>> 2).toNat = f.flagsWord := by rw [sp, up, flagsWord]
  obtain ⟨pcIn, pc⟩ := get?_eq_some.mp (kept.pc.trans pcSaved)
  obtain ⟨flagsIn, flags⟩ := get?_eq_some.mp (kept.flags.trans flagsSaved)
  have popped : c.iret = { c with state := { c.state with
      pc := c.ram.cell f.pcWord
      flags := (c.ram.cell f.flagsWord).setWidth 8
      regs := Function.update (Function.update c.state.regs REG_SP (c.state.regs REG_SP + 4)) REG_SP
        (c.state.regs REG_SP + 4 + 4)
      interruptsEnabled := 1 } } := by
    unfold iret
    dsimp only
    rw [pcAt, if_pos pcIn]
    have next : ((c.withPc (c.ram.cell f.pcWord)).setReg REG_SP
        ((c.withPc (c.ram.cell f.pcWord)).state.regs REG_SP + 4)).state.regs REG_SP =
        c.state.regs REG_SP + 4 := rfl
    have ram : ((c.withPc (c.ram.cell f.pcWord)).setReg REG_SP
        ((c.withPc (c.ram.cell f.pcWord)).state.regs REG_SP + 4)).ram = c.ram := rfl
    rw [next, flagsAt, ram, if_pos flagsIn]
    rfl
  rw [popped]
  refine ⟨pc, ?_, ?_, rfl⟩
  · funext r
    dsimp only
    by_cases stack : r = REG_SP
    · rw [stack, Function.update_self, sp, up]
      exact BitVec.sub_add_cancel _ _
    · rw [Function.update_of_ne stack, Function.update_of_ne stack, kept.regs]
      exact (Function.update_of_ne stack _ _).trans (Function.update_of_ne stack _ _)
  · dsimp only
    rw [flags, BitVec.setWidth_setWidth_of_le _ (by decide), BitVec.setWidth_eq]

section Moves

variable (c : Cpu)

/-- An interrupt is pending and enabled. -/
def Due : Prop := c.state.interruptPending ≠ 0 ∧ c.state.interruptsEnabled ≠ 0

/-- The state behind the word at pc. -/
def next : Cpu := c.withPc (c.state.pc + 1)

/-- The word that is executed next. -/
structure Fetches (w : Word) : Prop where
  running : c.state.halted = 0
  calm : ¬ c.Due
  word : c.rom[c.state.pc.toNat]? = some w

def vectorOf (w : Word) : Byte := ((imm16 w).setWidth 32 &&& 0xFF : Word).setWidth 8

def raise (vector : Byte) : Cpu :=
  { c with state := { c.state with interruptPending := 1, interruptVector := vector } }

end Moves

/-- An interrupt is taken in a state: what it interrupts, with pc at the instruction to be resumed,
and where its handler begins. -/
inductive Takes : Cpu → Cpu → Cpu → Prop
  | pending {c : Cpu} (running : c.state.halted = 0) (due : c.Due) : Takes c c c.dispatchInterrupt
  | software {c : Cpu} {w : Word} (fetches : c.Fetches w) (op : opcode? w = some .int)
      (vector : vectorOf w ≠ 0x80) : Takes c c.next (c.next.enterVector (vectorOf w)).countInsn

end Cpu

/-- The machine and the states that its open interrupts have interrupted. -/
structure Nested where
  cpu : Cpu
  frames : List Cpu

/-- What can happen: a device raises an interrupt, one is taken, `IRET` ends the innermost one, or
another instruction is executed. -/
inductive Move : Nested → Nested → Prop
  | arrive (c : Cpu) (fs : List Cpu) (vector : Byte) : Move ⟨c, fs⟩ ⟨c.raise vector, fs⟩
  | take {c f e : Cpu} {fs : List Cpu} (taken : Cpu.Takes c f e) : Move ⟨c, fs⟩ ⟨e, f :: fs⟩
  | back {c f : Cpu} {fs : List Cpu} {w : Word} (fetches : c.Fetches w)
      (op : opcode? w = some .iret) : Move ⟨c, f :: fs⟩ ⟨c.next.iret.countInsn, fs⟩
  | other {c c' : Cpu} {fs : List Cpu} {w : Word} (fetches : c.Fetches w)
      (noTake : opcode? w = some .int → vectorOf w = 0x80)
      (noBack : opcode? w = some .iret → fs = [])
      (ok : c.next.executeInsn w = .ok c') : Move ⟨c, fs⟩ ⟨c'.countInsn, fs⟩

/-- A run of the machine. -/
abbrev Moves : Nested → Nested → Prop := ReflTransGen Move

/-- A run in which the interrupts of `base` stay open. -/
abbrev MovesAbove (base : List Cpu) : Nested → Nested → Prop :=
  ReflTransGen fun n n' => Move n n' ∧ base <:+ n'.frames

theorem Cpu.Fetches.step_eq {c : Cpu} {w : Word} (fetches : c.Fetches w) : c.step =
    match c.next.executeInsn w with
    | .ok c' => .ok c'.countInsn
    | .err e c' => .err e c' := by
  have calm : c.dispatchInterrupt = c := if_neg fetches.calm
  rw [step, if_neg (not_not.mpr fetches.running), calm]
  simp only [fetches.word]
  rfl

theorem Cpu.Fetches.moves {c c' : Cpu} {w : Word} (fetches : c.Fetches w)
    (ok : c.next.executeInsn w = .ok c') (fs : List Cpu) :
    ∃ fs', Move ⟨c, fs⟩ ⟨c'.countInsn, fs'⟩ := by
  by_cases takes : opcode? w = some .int ∧ vectorOf w ≠ 0x80
  · obtain ⟨op, vector⟩ := takes
    rw [executeInsn, op] at ok
    cases (if_neg vector).symm.trans ok
    exact ⟨_, .take (.software fetches op vector)⟩
  · have noTake : opcode? w = some .int → vectorOf w = 0x80 := by
      intro op
      by_contra vector
      exact takes ⟨op, vector⟩
    by_cases op : opcode? w = some .iret
    · cases fs with
      | nil => exact ⟨_, .other fetches noTake (fun _ => rfl) ok⟩
      | cons f fs =>
        rw [executeInsn, op] at ok
        cases ok
        exact ⟨fs, .back fetches op⟩
    · exact ⟨_, .other fetches noTake (fun back => absurd back op) ok⟩

/-- A step of the emulator takes a due interrupt and executes one instruction. -/
theorem step_moves {c c' : Cpu} (ok : c.step = .ok c') (fs : List Cpu) :
    ∃ fs', Moves ⟨c, fs⟩ ⟨c', fs'⟩ := by
  have running : c.state.halted = 0 := by
    by_contra halted
    rw [step, if_pos halted] at ok
    cases ok
  have executes {d : Cpu} (same : c.dispatchInterrupt = d) (on : d.state.halted = 0)
      (calm : ¬ d.Due) (fs : List Cpu) : ∃ fs', Move ⟨d, fs⟩ ⟨c', fs'⟩ := by
    rw [step, if_neg (not_not.mpr running), same] at ok
    cases word : d.rom[d.state.pc.toNat]? with
    | none =>
      simp only [word] at ok
      cases ok
    | some w =>
      simp only [word] at ok
      cases done : (d.withPc (d.state.pc + 1)).executeInsn w with
      | err e t =>
        simp only [done] at ok
        cases ok
      | ok t =>
        simp only [done] at ok
        cases ok
        exact Cpu.Fetches.moves ⟨on, calm, word⟩ done fs
  by_cases due : c.Due
  · have entered : c.dispatchInterrupt.state.halted = 0 ∧ ¬ c.dispatchInterrupt.Due := by
      have pending : c.state.interruptPending ≠ 0 ∧ c.state.interruptsEnabled ≠ 0 := due
      rw [dispatchInterrupt, if_pos pending]
      exact ⟨running, fun again => again.1 rfl⟩
    obtain ⟨fs', move⟩ := executes rfl entered.1 entered.2 (c :: fs)
    exact ⟨fs', .head (.take (.pending running due)) (.single move)⟩
  · obtain ⟨fs', move⟩ := executes (if_neg due) running due fs
    exact ⟨fs', .single move⟩

/-- An open interrupt was taken at some point of the run, and nothing that was open then has been
ended since. -/
theorem opened {start n : Nested} (empty : start.frames = []) (run : Moves start n) {f : Cpu}
    {fs : List Cpu} (isOpen : (f :: fs) <:+ n.frames) :
    ∃ before entered, Moves start ⟨before, fs⟩ ∧ before.Takes f entered ∧
      MovesAbove (f :: fs) ⟨entered, f :: fs⟩ n := by
  induction run with
  | refl =>
    simp [empty, List.suffix_nil] at isOpen
  | tail run move ih =>
    -- Whatever was open before the move and is open after it stays open in between.
    have stays {g : Cpu} {gs : List Cpu} {a b : Nested} (move : Move a b)
        (found : ∃ before entered, Moves start ⟨before, gs⟩ ∧ before.Takes g entered ∧
          MovesAbove (g :: gs) ⟨entered, g :: gs⟩ a) (still : (g :: gs) <:+ b.frames) :
        ∃ before entered, Moves start ⟨before, gs⟩ ∧ before.Takes g entered ∧
          MovesAbove (g :: gs) ⟨entered, g :: gs⟩ b := by
      obtain ⟨before, entered, first, taken, above⟩ := found
      exact ⟨before, entered, first, taken, above.tail ⟨move, still⟩⟩
    cases move with
    | arrive c gs vector => exact stays (.arrive c gs vector) (ih isOpen) isOpen
    | @take c g e gs taken =>
      rcases List.suffix_cons_iff.mp isOpen with same | older
      · cases same
        exact ⟨c, e, run, taken, .refl⟩
      · exact stays (.take taken) (ih older) isOpen
    | @back c g gs w fetches op =>
      exact stays (.back fetches op) (ih (isOpen.trans (List.suffix_cons g gs))) isOpen
    | other fetches noTake noBack ok =>
      exact stays (.other fetches noTake noBack ok) (ih isOpen) isOpen

/-- In every run, with interrupts at any time and nested to any depth: when an `IRET` ends the
innermost open interrupt, whose handler has kept the registers and the two saved stack words, the
code that it interrupted resumes with its pc, registers, stack pointer and flags; and the interrupts
taken since then have all ended before. -/
theorem interrupts_transparent :
    (∀ {c c' : Cpu}, c.step = .ok c' → ∀ fs, ∃ fs', Moves ⟨c, fs⟩ ⟨c', fs'⟩) ∧
      ∀ {start c f : Cpu} {fs : List Cpu} {w : Word}, Moves ⟨start, []⟩ ⟨c, f :: fs⟩ →
        c.Fetches w → opcode? w = some .iret → f.StackInRam → f.Kept c →
        (∃ c', c.step = .ok c' ∧ f.Resumes c' ∧ Move ⟨c, f :: fs⟩ ⟨c', fs⟩) ∧
          ∃ before entered, Moves ⟨start, []⟩ ⟨before, fs⟩ ∧ before.Takes f entered ∧
            MovesAbove (f :: fs) ⟨entered, f :: fs⟩ ⟨c, f :: fs⟩ := by
  refine ⟨step_moves, ?_⟩
  intro start c f fs w run fetches op inside kept
  refine ⟨⟨c.next.iret.countInsn, ?_, ?_, .back fetches op⟩, opened rfl run List.suffix_rfl⟩
  · rw [fetches.step_eq, executeInsn, op]
  · obtain ⟨pc, regs, flags, enabled⟩ := iret_resumes (c := c.next) inside ⟨kept.1, kept.2, kept.3⟩
    exact ⟨pc, regs, flags, enabled⟩

/-- A machine of sixteen words whose ROM is one `IRET`, before a pending interrupt. -/
def aboutToReturn : Cpu := { new with
  ram := ofFn 16 fun _ => 0
  rom := [encode Opcode.iret.toByte 0 0 0]
  state := { new.state with
    regs := fun _ => 16
    flags := 3
    interruptPending := 1
    interruptsEnabled := 1 } }

theorem interrupts_transparent_once :
    ∃ c', aboutToReturn.dispatchInterrupt.step = .ok c' ∧ aboutToReturn.Resumes c' := by
  have taken : Moves ⟨aboutToReturn, []⟩ ⟨aboutToReturn.dispatchInterrupt, [aboutToReturn]⟩ :=
    .single (.take (.pending rfl ⟨by decide, by decide⟩))
  have fetches : aboutToReturn.dispatchInterrupt.Fetches (encode Opcode.iret.toByte 0 0 0) :=
    ⟨rfl, fun due => due.1 rfl, rfl⟩
  obtain ⟨⟨c', stepped, resumes, -⟩, -⟩ := interrupts_transparent.2 taken fetches rfl
    ⟨by decide, by decide⟩ ⟨rfl, rfl, rfl⟩
  exact ⟨c', stepped, resumes⟩

end Unheaded.Mbc
