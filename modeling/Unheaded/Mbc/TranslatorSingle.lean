import Unheaded.Mbc.TranslatorSim

/-!
# Signed comparisons and divisions

The instructions outside the simulated subset whose expansion approximates RV32: signed
comparisons test the sign of a wrapped difference, and signed divisions are computed unsigned.
-/

namespace Unheaded.Mbc.Translator

open Lib Rv32 List BitVec Function Mbc.Core Insn
open BitVec (ofNat)

theorem no_spills {w : Word} {i : Insn} (encodes : Encodes w i)
    (low : ∀ r, i.Names r → r.toNat < 16) : spillLoads w = [] ∧ spillStores w = [] := by
  have noSource : ∀ r : XReg, ¬ r.toNat < 16 → isSrc w r = false := by
    intro r high
    rw [Bool.eq_false_iff, ne_eq, isSrc_of_encodes encodes]
    exact fun source => high (low r (.inl source))
  have noDest : ∀ r : XReg, ¬ r.toNat < 16 → isDst w r = false := by
    intro r high
    rw [isDst_of_encodes encodes, beq_eq_false_iff_ne]
    exact fun dest => high (low r (.inr dest))
  constructor
  · rw [spillLoads, noSource 16 (by decide), noSource 17 (by decide)]
    rfl
  · rw [spillStores, noDest 16 (by decide), noDest 17 (by decide)]
    rfl

section Host

variable {program rom rv2mbc : List Word} {n : Nat} {w : Word} {i : Insn} {c : Cpu}

theorem core_atPos {pcMap : List Nat} {p : Nat} (here : pcMap[n]? = some p)
    (start : (pcMap.map (ofNat 32))[n]? = some c.state.pc) : c.core = atPos c.data p := by
  rw [List.getElem?_map, here] at start
  rw [atPos, Option.some.inj start]
  rfl

variable {ws : List Word}

section

variable (accepted : translateProgramWithMap program = .ok (rom, rv2mbc))
  (small : rom.length ≤ 2 ^ 32) (word : program[n]? = some w)
  (noSpills : spillLoads w = [] ∧ spillStores w = [])
include accepted small word noSpills

/-- The expansion of an instruction runs from its first word to that of the next instruction. -/
theorem climbs_expansion (start : rv2mbc[n]? = some c.state.pc)
    {x' : Data} (expansion : translateInsn? w (ofNat 32 (n * 4)) = some (ws.map .concrete))
    (block : Core.Block ws c.data x') : ∃ p, c.core = atPos c.data p ∧
      rv2mbc[n + 1]? = some (ofNat 32 (p + ws.length)) ∧ p + ws.length ≤ rom.length ∧
      Core.Climbs rom c.data p x' (p + ws.length) := by
  obtain ⟨pcMap, layout, rfl⟩ := layout_of_map accepted
  obtain ⟨p, body, expansion', here, map, placed⟩ := layout.block word
  cases expansion.symm.trans expansion'
  have fits := layout.fits map
  rw [blockOf_concrete, noSpills.1, noSpills.2, nil_append, append_nil] at placed map fits
  rw [length_map] at map fits
  refine ⟨p, core_atPos here start, ?_, fits,
    block rom p ((placed_concrete p ws).mp placed) (by omega)⟩
  rw [List.getElem?_map, map]
  rfl

theorem host_runs_expansion (quiet : c.Quiet) (loaded : c.rom = rom)
    (start : rv2mbc[n]? = some c.state.pc) {x' : Data}
    (expansion : translateInsn? w (ofNat 32 (n * 4)) = some (ws.map .concrete))
    (block : Core.Block ws c.data x') :
    ∃ c', Reaches Cpu.step? c c' ∧ rv2mbc[n + 1]? = some c'.state.pc ∧ c'.data = x' := by
  obtain ⟨p, core, next, -, path⟩ :=
    climbs_expansion accepted small word noSpills start expansion block
  subst loaded
  have run := path.reaches
  rw [← core] at run
  obtain ⟨c', reached, same, -, -⟩ := Cpu.reaches_core quiet run
  refine ⟨c', reached, ?_, congrArg data same⟩
  rw [next]
  exact congrArg some (congrArg pc same).symm

end

/-- The host runs the words that start at `here` up to the first pc that is not strictly between
`here` and `next`. -/
def Executes (here next : Word) (c c' : Cpu) : Prop :=
  Leaves Cpu.step? (fun d => Core.Between here.toNat next.toNat d.core) c c'

variable {next : Word}

variable (accepted : translateProgramWithMap program = .ok (rom, rv2mbc))
  (small : rom.length < 2 ^ 32) (word : program[n]? = some w)
  (noSpills : spillLoads w = [] ∧ spillStores w = []) (quiet : c.Quiet) (loaded : c.rom = rom)
  (start : rv2mbc[n]? = some c.state.pc) (nextAt : rv2mbc[n + 1]? = some next) {x' : Data}
include accepted small word noSpills quiet loaded start nextAt

theorem executes_expansion (expansion : translateInsn? w (ofNat 32 (n * 4)) = some (ws.map .concrete))
    (nonempty : ws ≠ []) (block : Core.Block ws c.data x') :
    ∃ c', Executes c.state.pc next c c' ∧ c'.state.pc = next ∧ c'.data = x' := by
  obtain ⟨p, core, nextAt', fits, path⟩ :=
    climbs_expansion accepted (by omega) word noSpills start expansion block
  cases nextAt.symm.trans nextAt'
  have some_ := length_pos_of_ne_nil nonempty
  obtain ⟨y, m, climbed, below, final⟩ := path.last (by omega)
  have pc : c.state.pc = ofNat 32 p := congrArg pc core
  have leaves := climbed.leaves (Nat.le_refl p) below (by omega) final (by
    rw [Core.Between, atPos, toNat_ofNat, Nat.mod_eq_of_lt (by omega)]
    omega)
  obtain ⟨c', left, same⟩ := Cpu.leaves_core leaves quiet loaded core
  refine ⟨c', ?_, congrArg Core.pc same, congrArg Core.data same⟩
  rw [Executes, pc, toNat_ofNat, toNat_ofNat, Nat.mod_eq_of_lt (by omega),
    Nat.mod_eq_of_lt (by omega)]
  exact left

theorem executes_branch {o : Opcode} {target : Word} {taken : Bool}
    (expansion : translateInsn? w (ofNat 32 (n * 4)) =
      some (ws.map MbcEmit.concrete ++ [MbcEmit.branch o target]))
    (block : Core.Block ws c.data x') (branch : branchTaken o x'.flags = some taken) :
    ∃ c', Executes c.state.pc next c c' ∧
      rv2mbc[if taken then target.toNat / 4 else n + 1]? = some c'.state.pc ∧ c'.data = x' := by
  obtain ⟨pcMap, layout, rfl⟩ := layout_of_map accepted
  obtain ⟨p, body, expansion', here, map, placed⟩ := layout.block word
  cases expansion.symm.trans expansion'
  have fits := layout.fits map
  rw [blockOf, noSpills.1, noSpills.2, map_nil, nil_append, append_nil] at placed map fits
  rw [length_append, length_map, length_singleton] at map fits
  obtain ⟨straight, jump⟩ := (placed_append _ _ _).mp placed
  rw [length_map] at jump
  have core := core_atPos here start
  have path := block rom p ((placed_concrete p ws).mp straight) (by omega)
  obtain ⟨t, lookup, jumped⟩ := step_placed_branch jump (by omega) branch
  have nextPc : next = ofNat 32 (p + (ws.length + 1)) := by
    rw [List.getElem?_map, map] at nextAt
    exact (Option.some.inj nextAt).symm
  have landing : pcMap[if taken then target.toNat / 4 else n + 1]? =
      some (if taken then t else p + ws.length + 1) := by
    cases taken
    · exact map
    · exact lookup
  -- the branch goes to the start of an instruction, never into the expansion
  have outside := layout.start_outside here map landing
  have bound := layout.fits landing
  have leaves := path.leaves (Nat.le_refl p) (Nat.lt_succ_self _) (by omega) jumped (by
    rw [Core.Between, atPos, toNat_ofNat, Nat.mod_eq_of_lt (by omega)]
    exact outside)
  obtain ⟨c', left, same⟩ := Cpu.leaves_core leaves quiet loaded core
  refine ⟨c', ?_, ?_, congrArg data same⟩
  · rw [Executes, nextPc, show c.state.pc = ofNat 32 p from congrArg pc core, toNat_ofNat,
      toNat_ofNat, Nat.mod_eq_of_lt (by omega), Nat.mod_eq_of_lt (by omega)]
    exact left
  · rw [List.getElem?_map, landing]
    exact congrArg some (congrArg pc same).symm

end Host

def SubFits (a b : Word) : Prop := -2 ^ 31 ≤ a.toInt - b.toInt ∧ a.toInt - b.toInt < 2 ^ 31

theorem toInt_sub_cases (a b : Word) : SubFits a b ∧ (a - b).toInt = a.toInt - b.toInt ∨
    2 ^ 31 ≤ a.toInt - b.toInt ∧ (a - b).toInt < 0 ∨
    a.toInt - b.toInt < -2 ^ 31 ∧ 0 ≤ (a - b).toInt := by
  have aLow := le_toInt a
  have aHigh := toInt_lt (x := a)
  have bLow := le_toInt b
  have bHigh := toInt_lt (x := b)
  rw [SubFits, toInt_sub, Int.bmod_def]
  split <;> omega

theorem msb_sub_eq_slt_iff (a b : Word) : (a - b).msb = a.slt b ↔ SubFits a b := by
  rw [msb_eq_toInt, BitVec.slt]
  rcases toInt_sub_cases a b with ⟨fits, value⟩ | ⟨high, value⟩ | ⟨low, value⟩
  · refine iff_of_true ?_ fits
    rw [Bool.eq_iff_iff, decide_eq_true_iff, decide_eq_true_iff]
    omega
  · refine iff_of_false (fun same => ?_) (fun fits => ?_)
    · rw [Bool.eq_iff_iff, decide_eq_true_iff, decide_eq_true_iff] at same
      omega
    · exact absurd fits.2 (by omega)
  · refine iff_of_false (fun same => ?_) (fun fits => ?_)
    · rw [Bool.eq_iff_iff, decide_eq_true_iff, decide_eq_true_iff] at same
      omega
    · exact absurd fits.1 (by omega)

/-- The instructions whose comparison is at issue. -/
def Comparing : Insn → Prop
  | .op f .. => f = .slt
  | .opImm f .. => f = .slti ∨ f = .sltiu
  | .branch f .. => f = .blt ∨ f = .bge
  | _ => False

/-- When the emitted test is the RV32 comparison, or nothing depends on it. -/
def ComparesExactly (rv2mbc : List Word) (next : Word) (s : State) : Insn → Prop
  | .op _ rd rs1 rs2 => rd = 0 ∨ SubFits (s.x rs1) (s.x rs2)
  | .opImm f rd rs1 imm => rd = 0 ∨
      if f = .sltiu then rs1 = 0 → imm = 0
      else if rs1 = 0 then imm.toInt ≤ 0
      else SubFits (s.x rs1) (imm.signExtend 32)
  | .branch _ rs1 rs2 offset => SubFits (s.x rs1) (s.x rs2) ∨
      rv2mbc[(s.pc + offset.signExtend 32).toNat / 4]? = some next
  | _ => True

/-- The registers `x0` to `x15` of the RV32 state are in their mapped registers. -/
def MatchesLow (s : State) (x : Data) : Prop := ∀ r : XReg, r.toNat < 16 → mapped x r = s.x r

/-- Executing the emitted words from `c` writes and jumps as RV32 does from `s`. -/
def Decides (rv2mbc : List Word) (next : Word) (i : Insn) (s : State) (c : Cpu) : Prop :=
  ∃ c', Executes c.state.pc next c c' ∧
    rv2mbc[(i.exec s).pc.toNat / 4]? = some c'.state.pc ∧ MatchesLow (i.exec s) c'.data

variable {s : State} {x : Data}

theorem MatchesLow.zero (matching : MatchesLow s x) : x.regs 0 = 0 :=
  (matching 0 (by decide)).trans s.zero

theorem MatchesLow.written_iff (matching : MatchesLow s x) {r : XReg} (low : r.toNat < 16)
    (v v' : Word) (f : Byte) :
    MatchesLow (s.set r v) (written x (mapRegister r) v' f) ↔ r = 0 ∨ v' = v := by
  have value : ∀ q : XReg, q.toNat < 16 →
      mapped (written x (mapRegister r) v' f) q = (s.set r v').x q :=
    fun q small => mapped_written_low small low v' f matching.zero (matching q small)
  constructor
  · intro same
    by_cases zero : r = 0
    · exact .inl zero
    · have here := (value r low).symm.trans (same r low)
      rw [State.set_x, State.set_x, if_pos ⟨rfl, zero⟩, if_pos ⟨rfl, zero⟩] at here
      exact .inr here
  · rintro (rfl | rfl) q small
    · rw [value q small]
      rfl
    · exact value q small

/-- What a set-less instruction compares: the host's verdict and the one of RV32. -/
theorem expands_setLess {w pc : Word} {i : Insn} (encodes : Encodes w i) (matching : MatchesLow s x)
    (low : ∀ r, i.Names r → r.toNat < 16) (comparing : Comparing i) {r : XReg}
    (dest : i.dest = some r) : ∃ host right : Bool, Expands w pc x (if host then 1 else 0) ∧
      (opcode w = 0x33 ∨ opcode w = 0x13) ∧ r = rd w ∧
      i.exec s = (s.set r (if right then 1 else 0)).next ∧
      ∀ map next, ComparesExactly map next s i ↔ r = 0 ∨ host = right := by
  cases encodes with
  | @op f major minor =>
    cases dest
    cases comparing
    have first := matching (rs1 w) (low _ (.inl (by simp [sources])))
    have second := matching (rs2 w) (low _ (.inl (by simp [sources])))
    have value : Expands w pc x _ := expands_compare matching.zero major minor rfl rfl
      (branchTaken_pack _ _ _).2.2.2.1
    rw [first, second] at value
    refine ⟨(s.x (rs1 w) - s.x (rs2 w)).msb, (s.x (rs1 w)).slt (s.x (rs2 w)), ?_, .inl major, rfl,
      rfl, fun map next => ?_⟩
    · cases msb : (s.x (rs1 w) - s.x (rs2 w)).msb <;> rw [msb] at value <;> exact value
    · exact or_congr_right (msb_sub_eq_slt_iff _ _).symm
  | @opImm f major minor =>
    cases dest
    have first := matching (rs1 w) (low _ (.inl (by simp [sources])))
    generalize operand : (if rs1 w = 0 then (immI w).signExtend 32 else s.x (rs1 w)) = a
    have left : mapped (x.setReg 0 ((immI w).signExtend 32)) (rs1 w) = a := by
      rw [← operand]
      split
      next zero =>
        rw [zero]
        exact Data.regs_setReg_self x 0 _
      next nonzero =>
        exact (Data.regs_setReg_of_ne x (fun h => nonzero ((mapRegister_eq_zero _).mp h)) _).trans
          first
    rcases comparing with rfl | rfl
    · have value : Expands w pc x _ := expands_compareImm matching.zero major minor
        (.inl ⟨rfl, rfl⟩) (branchTaken_pack _ _ _).2.2.2.1
      rw [left] at value
      refine ⟨(a - (immI w).signExtend 32).msb, (s.x (rs1 w)).slt ((immI w).signExtend 32), ?_,
        .inr major, rfl, rfl, fun map next => or_congr_right ?_⟩
      · cases msb : (a - (immI w).signExtend 32).msb <;> rw [msb] at value <;> exact value
      · rw [if_neg (by decide), ← operand]
        split
        next zero =>
          rw [zero, s.zero, BitVec.sub_self, BitVec.slt, toInt_signExtend_of_le (by decide)]
          simp
        next => exact (msb_sub_eq_slt_iff _ _).symm
    · have value : Expands w pc x _ := expands_compareImm matching.zero major minor
        (.inr ⟨rfl, rfl⟩) (branchTaken_pack _ _ _).2.2.2.2.2
      rw [left, show subBorrow a ((immI w).signExtend 32) = a.ult ((immI w).signExtend 32) from rfl]
        at value
      refine ⟨a.ult ((immI w).signExtend 32), (s.x (rs1 w)).ult ((immI w).signExtend 32), ?_,
        .inr major, rfl, rfl, fun map next => or_congr_right ?_⟩
      · cases ult : a.ult ((immI w).signExtend 32) <;> rw [ult] at value <;> exact value
      · rw [if_pos rfl, ← operand]
        split
        next zero =>
          have unsigned : ((immI w).signExtend 32 = 0) ↔ immI w = 0 := by
            rw [← toInt_inj, toInt_signExtend_of_le (by decide), ← toInt_inj]
            rfl
          rw [zero, s.zero, Bool.eq_iff_iff, ult_iff_lt, ult_iff_lt, ← unsigned]
          simp [BitVec.pos_iff_ne_zero]
        next nonzero => exact iff_of_true (fun zero => absurd zero nonzero) rfl
  | shiftImm | load | lui | auipc | jal | jalr => exact comparing.elim
  | store | branch => cases dest

theorem translateInsn?_ne_nil {w pc : Word} (major : opcode w = 0x33 ∨ opcode w = 0x13) :
    translateInsn? w pc ≠ some [] := by
  have nonempty : ∀ o d s1 s2 c, emitRTypeOp o d s1 s2 c ≠ [] := by
    intro o d s1 s2 c
    unfold emitRTypeOp
    split
    · split <;> simp
    · simp
  rcases major with major | major
  · rw [translateInsn?, rvOpcode_eq, major]
    change (translateOp w).map (List.map MbcEmit.concrete) ≠ some []
    unfold translateOp emitSetLess
    split
    · simp [nonempty]
    · split <;> simp
  · rw [translateInsn?, rvOpcode_eq, major]
    change (translateOpImm w).map (List.map MbcEmit.concrete) ≠ some []
    unfold translateOpImm opImmRow emitAddImm emitLogicImm emitShiftImm emitSetLessImm
    split <;> first
      | simp; done
      | split <;> simp

section Compare

variable {program rom rv2mbc : List Word} {n : Nat} {w next : Word} {i : Insn} {c : Cpu} {s : State}

theorem next_index (pc : s.pc.toNat = 4 * n) (short : n + 1 < 2 ^ 30) :
    s.next.pc.toNat / 4 = n + 1 := by
  rw [State.next, toNat_add, show (4 : Word).toNat = 4 from rfl]
  omega

/-- A translated comparison decides as RV32 does exactly where the difference that is tested does
not overflow the signed range (for the immediate forms of `x0`, where the right answer is 0), unless
nothing depends on the verdict. -/
theorem signed_comparison_exact (accepted : translateProgramWithMap program = .ok (rom, rv2mbc))
    (short : program.length < 2 ^ 30) (small : rom.length < 2 ^ 32)
    (word : program[n]? = some w) (decoded : decode w = some i) (comparing : Comparing i)
    (low : ∀ r, i.Names r → r.toNat < 16) (quiet : c.Quiet) (loaded : c.rom = rom)
    (pc : s.pc = ofNat 32 (n * 4)) (start : rv2mbc[n]? = some c.state.pc)
    (nextAt : rv2mbc[n + 1]? = some next) (matching : MatchesLow s c.data) :
    Decides rv2mbc next i s c ↔ ComparesExactly rv2mbc next s i := by
  have encodes := encodes_of_decode decoded
  have noSpills := no_spills encodes low
  have inside : n < program.length := (List.getElem?_eq_some_iff.mp word).1
  have address : s.pc.toNat = 4 * n := by
    rw [pc, toNat_ofNat, Nat.mod_eq_of_lt (by omega), Nat.mul_comm]
  cases dest : i.dest with
  | some r =>
    obtain ⟨host, right, ⟨ws, f, expansion, block⟩, major, rfl, result, condition⟩ :=
      expands_setLess encodes matching low comparing dest
    have nonempty : ws ≠ [] := by
      rintro rfl
      exact translateInsn?_ne_nil major expansion
    obtain ⟨c', executed, lands, data⟩ := executes_expansion accepted small word noSpills quiet
      loaded start nextAt expansion nonempty block
    have written := matching.written_iff (low _ (.inr dest)) (if right then 1 else 0)
      (if host then 1 else 0) f
    have values : (if host then 1 else 0 : Word) = (if right then 1 else 0) ↔ host = right := by
      cases host <;> cases right <;> decide
    rw [condition, ← values, ← written]
    constructor
    · rintro ⟨c'', executed', -, same⟩
      cases executed.unique executed'
      rwa [result, data] at same
    · intro same
      refine ⟨c', executed, ?_, ?_⟩
      · rw [result, next_index (by rw [State.set_pc, address]) (by omega), nextAt, lands]
      · rw [result, data]
        exact same
  | none =>
    cases encodes with
    | @branch f major minor =>
      have first := matching (rs1 w) (low _ (.inl (by simp [sources])))
      have second := matching (rs2 w) (low _ (.inl (by simp [sources])))
      have packed := branchTaken_pack (decide (s.x (rs1 w) - s.x (rs2 w) = 0))
        (s.x (rs1 w) - s.x (rs2 w)).msb (subBorrow (s.x (rs1 w)) (s.x (rs2 w)))
      obtain ⟨o, host, row, branch, verdict⟩ : ∃ o host,
          branchRow (f.code.setWidth 8) = some o ∧
          branchTaken o (compared c.data (s.x (rs1 w)) (s.x (rs2 w))).flags = some host ∧
          (host = f.holds (s.x (rs1 w)) (s.x (rs2 w)) ↔ SubFits (s.x (rs1 w)) (s.x (rs2 w))) := by
        rw [← msb_sub_eq_slt_iff, compared, resultFlags]
        rcases comparing with rfl | rfl
        · exact ⟨.jn, _, rfl, packed.2.2.1, Iff.rfl⟩
        · exact ⟨.jp, _, rfl, packed.2.2.2.1, Bool.not_inj_iff⟩
      obtain ⟨ws, expansion, block⟩ : ∃ ws, translateInsn? w (ofNat 32 (n * 4)) =
          some (ws.map MbcEmit.concrete ++
            [MbcEmit.branch o (ofNat 32 (n * 4) + (immB w).signExtend 32)]) ∧
          Core.Block ws c.data _ := expands_branch matching.zero major minor row
      rw [first, second] at block
      obtain ⟨c', executed, lands, data⟩ := executes_branch accepted small word noSpills quiet
        loaded start nextAt expansion block branch
      rw [← pc] at lands
      have index : ((Insn.branch f (rs1 w) (rs2 w) (immB w)).exec s).pc.toNat / 4 =
          if f.holds (s.x (rs1 w)) (s.x (rs2 w)) then
            (s.pc + (immB w).signExtend 32).toNat / 4 else n + 1 := by
        rw [Insn.exec]
        split
        · rfl
        · exact next_index address (by omega)
      have same : MatchesLow ((Insn.branch f (rs1 w) (rs2 w) (immB w)).exec s) c'.data := by
        rw [Insn.exec, data]
        split <;> exact matching
      have decides : Decides rv2mbc next (.branch f (rs1 w) (rs2 w) (immB w)) s c ↔
          rv2mbc[if f.holds (s.x (rs1 w)) (s.x (rs2 w)) then
            (s.pc + (immB w).signExtend 32).toNat / 4 else n + 1]? = some c'.state.pc := by
        rw [← index]
        constructor
        · rintro ⟨c'', executed', there, -⟩
          cases executed.unique executed'
          exact there
        · exact fun there => ⟨c', executed, there, same⟩
      rw [decides, ComparesExactly, ← verdict]
      -- with the other verdict it lands there only where both ways meet
      cases host <;> cases f.holds (s.x (rs1 w)) (s.x (rs2 w))
      · exact iff_of_true lands (.inl rfl)
      · cases nextAt.symm.trans lands
        exact (or_iff_right Bool.false_ne_true).symm
      · rw [if_pos rfl] at lands
        rw [if_neg Bool.false_ne_true, nextAt, lands]
        simp [eq_comm]
      · exact iff_of_true lands (.inl rfl)
    | store => exact comparing.elim
    | _ => cases dest

end Compare

variable (rom : List Word)

/-- A machine fresh from `Cpu::new` with `x6` and `x7` set. -/
def operandCpu (x6 x7 : Word) : Cpu :=
  ((Cpu.new.loadRom rom).setReg 4 x6).setReg 5 x7

def operandState (x6 x7 : Word) : State := (freshState.set 6 x6).set 7 x7

theorem quiet_operandCpu (x6 x7 : Word) : (operandCpu rom x6 x7).Quiet :=
  ⟨rfl, rfl, fun h => h.1 rfl⟩

theorem matchesLow_operands (x6 x7 : Word) :
    MatchesLow (operandState x6 x7) (operandCpu rom x6 x7).data := by
  have fresh : MatchesLow freshState (Cpu.new.loadRom rom).data :=
    fun r small => (holds_fresh (fun _ => False) rom).regs r small (fun h => h)
  have first : MatchesLow (freshState.set 6 x6) ((Cpu.new.loadRom rom).setReg 4 x6).data := by
    have value := (fresh.written_iff (r := 6) (by decide) x6 x6 0).mpr (.inr rfl)
    intro r small
    rw [← value r small, mapped]
    exact (congrFun (update_eq_self_iff.mpr rfl) _).symm
  have value := (first.written_iff (r := 7) (by decide) x7 x7 0).mpr (.inr rfl)
  intro r small
  rw [operandState, ← value r small, mapped]
  exact (congrFun (update_eq_self_iff.mpr rfl) _).symm

/-- `SLT x5, x6, x7`. -/
def sltProgram : List Word := [0x007322B3]

def sltRom : List Word := [0x10450000, 0x0F300000, 0x24000001, 0x0F300001]

/-- `SLT` of 3 and 7. -/
theorem slt_three_seven : ∃ c', Executes 0 4 (operandCpu sltRom 3 7) c' ∧ c'.state.pc = 4 ∧
      c'.state.regs 3 = 1 := by
  have accepted : translateProgramWithMap sltProgram = .ok (sltRom, [0, 4]) := rfl
  have decoded : decode 0x007322B3 = some (.op .slt 5 6 7) := by decide
  obtain ⟨c', executed, lands, matching⟩ := (signed_comparison_exact (n := 0) accepted
    (by decide) (by decide) rfl decoded rfl (by decide) (quiet_operandCpu sltRom 3 7) rfl
    (s := operandState 3 7) rfl rfl rfl (matchesLow_operands sltRom 3 7)).mpr
    (.inr (show SubFits 3 7 by unfold SubFits; decide))
  exact ⟨c', executed, (Option.some.inj lands).symm, matching 5 (by decide)⟩

/-- `SLTIU x5, x0, 1`. -/
def sltiuProgram : List Word := [0x00103293]

def sltiuRom : List Word :=
  [0x0F000000, 0x0F000001, 0x10000000, 0x0F000000, 0x0F300000, 0x26000001, 0x0F300001]

/-- The first instruction of an accepted program, run from matching states, whose words do not do
what RV32 does. -/
def ComparisonFails (program rom rv2mbc : List Word) (next w : Word) (i : Insn) (c : Cpu)
    (s : State) : Prop :=
  translateProgramWithMap program = .ok (rom, rv2mbc) ∧ program[0]? = some w ∧
    decode w = some i ∧ (∀ r, i.Names r → r.toNat < 16) ∧ c.Quiet ∧ c.rom = rom ∧
    s.pc = ofNat 32 (0 * 4) ∧ rv2mbc[0]? = some c.state.pc ∧ rv2mbc[1]? = some next ∧
    MatchesLow s c.data ∧ ¬ Decides rv2mbc next i s c

/-- `SLT` of the least integer and 1 overflows and answers 0; `SLTIU` of `x0`
and 1 compares the immediate with itself and answers 0. -/
theorem signed_comparison_fails :
    ComparisonFails sltProgram sltRom [0, 4] 4 0x007322B3 (.op .slt 5 6 7)
      (operandCpu sltRom 0x80000000 1) (operandState 0x80000000 1) ∧
    ComparisonFails sltiuProgram sltiuRom [0, 7] 7 0x00103293 (.opImm .sltiu 5 0 1)
      (operandCpu sltiuRom 0 0) (operandState 0 0) := by
  refine ⟨⟨rfl, rfl, by decide, by decide, quiet_operandCpu _ _ _, rfl, rfl, rfl, rfl,
    matchesLow_operands _ _ _, ?_⟩, ⟨rfl, rfl, by decide, by decide, quiet_operandCpu _ _ _, rfl,
    rfl, rfl, rfl, matchesLow_operands _ _ _, ?_⟩⟩
  · rintro ⟨c', executed, lands, matching⟩
    have atEnd : c'.state.pc = 4 := (Option.some.inj lands).symm
    have x5 : c'.state.regs 3 = 1 := matching 5 (by decide)
    have checked := Reaches.check 4 (fun c => !(c.state.pc == 4) || c.state.regs 3 == 0)
      (by decide) (by decide) executed.reaches
    rw [atEnd, x5] at checked
    exact absurd checked (by decide)
  · rintro ⟨c', executed, lands, matching⟩
    have atEnd : c'.state.pc = 7 := (Option.some.inj lands).symm
    have x5 : c'.state.regs 3 = 1 := matching 5 (by decide)
    have checked := Reaches.check 7 (fun c => !(c.state.pc == 7) || c.state.regs 3 == 0)
      (by decide) (by decide) executed.reaches
    rw [atEnd, x5] at checked
    exact absurd checked (by decide)

def unsignedForm : OpFn → OpFn
  | .div => .divu
  | .rem => .remu
  | f => f

/-- `MOD` on the host: the unsigned remainder, and 0 for a zero divisor. -/
def hostMod (a b : Word) : Word := if b = 0 then 0 else a % b

theorem computes_mod : Computes .mod hostMod := by
  intro a b i f
  by_cases zero : b = 0
  · exact ⟨f, by rw [alu, hostMod, if_pos zero, if_pos zero]⟩
  · exact ⟨_, by rw [alu, hostMod, if_neg zero, if_neg zero]; rfl⟩

/-- What a translated division computes. -/
def hostDivision : OpFn → Word → Word → Word
  | .rem | .remu => hostMod
  | _ => OpFn.divu.eval

theorem hostDivision_eq {f : OpFn} (kind : f = .div ∨ f = .divu ∨ f = .rem ∨ f = .remu) {a b : Word}
    (divisor : f = .rem ∨ f = .remu → b ≠ 0) : hostDivision f a b = (unsignedForm f).eval a b := by
  have rest (nonzero : b ≠ 0) : hostMod a b = OpFn.remu.eval a b := by
    rw [hostMod, OpFn.eval, if_neg nonzero, if_neg nonzero]
  rcases kind with rfl | rfl | rfl | rfl
  · rfl
  · rfl
  · exact rest (divisor (.inl rfl))
  · exact rest (divisor (.inr rfl))

theorem expands_division {x : Data} {w pc : Word} {f : OpFn} (zero : x.regs 0 = 0)
    (major : opcode w = 0x33) (minor : f.code = (funct3 w, funct7 w))
    (kind : f = .div ∨ f = .divu ∨ f = .rem ∨ f = .remu) :
    Expands w pc x (hostDivision f (mapped x (rs1 w)) (mapped x (rs2 w))) := by
  rcases kind with rfl | rfl | rfl | rfl
  · exact expands_op zero major minor rfl computes_div (fun h => by cases h)
  · exact expands_op zero major minor rfl computes_div (fun h => by cases h)
  · exact expands_op zero major minor rfl computes_mod (fun h => by cases h)
  · exact expands_op zero major minor rfl computes_mod (fun h => by cases h)

/-- A translated division leaves every mapped register but `rd` unchanged, and in `rd` the RISC-V
unsigned quotient (`DIV`, `DIVU`) or, for a non-zero divisor, the unsigned remainder
(`REM`, `REMU`). -/
theorem division_translated {program rom rv2mbc : List Word} {n : Nat} {w : Word} {f : OpFn}
    {rd rs1 rs2 : XReg} {c : Cpu} (accepted : translateProgramWithMap program = .ok (rom, rv2mbc))
    (small : rom.length ≤ 2 ^ 32) (word : program[n]? = some w)
    (decoded : decode w = some (.op f rd rs1 rs2))
    (kind : f = .div ∨ f = .divu ∨ f = .rem ∨ f = .remu)
    (low : ∀ r, (op f rd rs1 rs2).Names r → r.toNat < 16) (quiet : c.Quiet)
    (loaded : c.rom = rom) (start : rv2mbc[n]? = some c.state.pc) (zero : c.state.regs 0 = 0) :
    ∃ c', Reaches Cpu.step? c c' ∧ rv2mbc[n + 1]? = some c'.state.pc ∧
      (∀ r : XReg, r.toNat < 16 → r ≠ rd ∨ rd = 0 → mapped c'.data r = mapped c.data r) ∧
      (rd ≠ 0 → (f = .rem ∨ f = .remu → mapped c.data rs2 ≠ 0) →
        mapped c'.data rd = (unsignedForm f).eval (mapped c.data rs1) (mapped c.data rs2)) := by
  have encodes := encodes_of_decode decoded
  have noSpills := no_spills encodes low
  have lowDest := low rd (.inr rfl)
  cases encodes with
  | op major minor =>
    obtain ⟨ws, f', expansion, block⟩ : Expands w (ofNat 32 (n * 4)) c.data _ :=
      expands_division zero major minor kind
    obtain ⟨c', reached, lands, data⟩ := host_runs_expansion accepted small word noSpills quiet
      loaded start expansion block
    refine ⟨c', reached, lands, fun r small other => ?_, fun nonzero divisor => ?_⟩
    · rw [data, mapped_written c.data _ r _ f' zero, if_neg]
      rintro ⟨same, nonzero⟩
      exact other.elim (fun h => h (mapRegister_injective r _ small lowDest same)) nonzero
    · rw [data, mapped_written c.data _ _ _ f' zero, if_pos ⟨rfl, nonzero⟩,
        hostDivision_eq kind divisor]

/-- `DIV x5, x6, x7` and `REMU x5, x6, x7`. -/
def divProgram : List Word := [0x027342B3]
def remuProgram : List Word := [0x027372B3]

def divRom : List Word := [0x0E340000, 0x04350000]
def remuRom : List Word := [0x0E340000, 0x05350000]

theorem div_twenty_six : ∃ c', Reaches Cpu.step? (operandCpu divRom 20 6) c' ∧ c'.state.pc = 2 ∧
      c'.state.regs 3 = 3 := by
  have accepted : translateProgramWithMap divProgram = .ok (divRom, [0, 2]) := rfl
  have decoded : decode 0x027342B3 = some (.op .div 5 6 7) := by decide
  obtain ⟨c', reached, lands, -, value⟩ := division_translated (n := 0) accepted (by decide) rfl
    decoded (.inl rfl) (by decide) (quiet_operandCpu divRom 20 6) rfl rfl rfl
  exact ⟨c', reached, (Option.some.inj lands).symm,
    value (by decide) (fun h => by rcases h with h | h <;> cases h)⟩

/-- `DIV` of -7 by 2 is an unsigned quotient, and `REMU` of 5 by 0 is 0 where
RISC-V keeps the dividend. -/
theorem division_fails : (translateProgramWithMap divProgram = .ok (divRom, [0, 2]) ∧
      decode 0x027342B3 = some (.op .div 5 6 7) ∧ (operandCpu divRom (-7) 2).Quiet ∧
      (operandCpu divRom (-7) 2).state.regs 0 = 0 ∧
      ¬ ∃ c', Reaches Cpu.step? (operandCpu divRom (-7) 2) c' ∧ c'.state.pc = 2 ∧
        mapped c'.data 5 = OpFn.div.eval (-7) 2) ∧
    (translateProgramWithMap remuProgram = .ok (remuRom, [0, 2]) ∧
      decode 0x027372B3 = some (.op .remu 5 6 7) ∧ (operandCpu remuRom 5 0).Quiet ∧
      (operandCpu remuRom 5 0).state.regs 0 = 0 ∧
      ¬ ∃ c', Reaches Cpu.step? (operandCpu remuRom 5 0) c' ∧ c'.state.pc = 2 ∧
        mapped c'.data 5 = OpFn.remu.eval 5 0) := by
  refine ⟨⟨rfl, by decide, quiet_operandCpu _ _ _, rfl, ?_⟩,
    ⟨rfl, by decide, quiet_operandCpu _ _ _, rfl, ?_⟩⟩
  · rintro ⟨c', reached, atEnd, value⟩
    have x5 : c'.state.regs 3 = OpFn.div.eval (-7) 2 := value
    have checked := Reaches.check 2 (fun c => !(c.state.pc == 2) || c.state.regs 3 == 0x7FFFFFFC)
      (by decide) (by decide) reached
    rw [atEnd, x5] at checked
    exact absurd checked (by decide)
  · rintro ⟨c', reached, atEnd, value⟩
    have x5 : c'.state.regs 3 = OpFn.remu.eval 5 0 := value
    have checked := Reaches.check 2 (fun c => !(c.state.pc == 2) || c.state.regs 3 == 0)
      (by decide) (by decide) reached
    rw [atEnd, x5] at checked
    exact absurd checked (by decide)

/-! ## Branches and `JAL`

Their targets are resolved through the map of the first pass.
-/

/-- The byte target of a branch or of a `JAL` at `pc`. -/
def jumpTarget (pc insn : Word) : Option Word :=
  match (rvOpcode insn).toNat with
  | 0x63 => some (pc + decodeBImm insn)
  | 0x6F => some (pc + decodeJImm insn)
  | _ => none

/-- The MBC opcode of the branch or `JAL`. -/
def jumpOpcode (insn : Word) : Option Opcode :=
  match (rvOpcode insn).toNat with
  | 0x63 => branchRow (rvFunct3 insn)
  | 0x6F => some (if rvRd insn = 0 then .jmp else .call)
  | _ => none

/-- The MBC word jumps from this state. -/
def Taken (word : Word) (c : Cpu) : Prop :=
  ∃ o, MbcInsn.opcode? word = some o ∧ (o = .call ∨ branchTaken o c.state.flags = some true)

theorem resolve_call {pcMap : List Nat} {p : Nat} {target word : Word}
    (resolved : resolve pcMap p (.call target) = .ok word) :
    ∃ t, pcMap[target.toNat / 4]? = some t ∧ MbcInsn.opcode? word = some .call ∧
      MbcInsn.branchRaw word = ofNat 32 t := by
  rw [resolve] at resolved
  split at resolved
  next => cases resolved
  next t lookup =>
    split at resolved <;> cases resolved
    next small =>
      refine ⟨t, lookup, MbcInsn.opcode?_encodeBranch .call _, eq_of_toNat_eq ?_⟩
      rw [MbcInsn.branchRaw_encodeBranch, toNat_and, toNat_ofNat]
      exact (Nat.and_two_pow_sub_one_eq_mod _ 24).trans (by omega)

/-- The item that jumps, at `q`, goes to where the map has its target. -/
def Jumps (pcMap : List Nat) (rom : List Word) (q : Nat) (o : Opcode) (target : Word) : Prop :=
  ∃ word t, rom[q]? = some word ∧ MbcInsn.opcode? word = some o ∧
    pcMap[target.toNat / 4]? = some t ∧
    ∀ c : Cpu, c.state.pc = ofNat 32 (q + 1) → Taken word c →
      ∃ c', c.executeInsn word = .ok c' ∧ c'.state.pc = ofNat 32 t

variable {pcMap : List Nat} {program rom : List Word}

theorem jumps_branch {o : Opcode} {q : Nat} {target : Word} (other : o ≠ .call)
    (placed : Placed pcMap rom q [.branch o target]) : Jumps pcMap rom q o target := by
  obtain ⟨⟨word, resolved, fetch⟩, -⟩ := placed
  obtain ⟨t, lookup, op, lands⟩ := resolve_branch resolved
  refine ⟨word, t, fetch, op, lookup, fun c here ⟨o', op', jumps⟩ => ?_⟩
  cases op.symm.trans op'
  rcases jumps with rfl | jumps
  · exact absurd rfl other
  · refine ⟨_, Cpu.executeInsn_branch op jumps, ?_⟩
    rw [← lands, ← here]
    rfl

theorem jumps_call {q : Nat} {target : Word} (placed : Placed pcMap rom q [.call target]) :
    Jumps pcMap rom q .call target := by
  obtain ⟨⟨word, resolved, fetch⟩, -⟩ := placed
  obtain ⟨t, lookup, op, lands⟩ := resolve_call resolved
  refine ⟨word, t, fetch, op, lookup, fun c here _ => ⟨_, by rw [Cpu.executeInsn, op], ?_⟩⟩
  exact lands

theorem branchRow_ne_call {funct3 : Byte} {o : Opcode} (row : branchRow funct3 = some o) : o ≠ .call := by
  unfold branchRow at row
  split at row <;> cases row <;> decide

theorem jumps_of_block {insn pc target : Word} {body : List MbcEmit} {p : Nat}
    (expansion : translateInsn? insn pc = some body) (jump : jumpTarget pc insn = some target)
    (placed : Placed pcMap rom p (blockOf insn body)) :
    ∃ q o, p ≤ q ∧ q < p + (blockOf insn body).length ∧ jumpOpcode insn = some o ∧
      Jumps pcMap rom q o target := by
  rw [blockOf, length_append, length_append, length_map, length_map]
  rw [blockOf, placed_append, placed_append] at placed
  have body' := placed.1.2
  unfold jumpTarget at jump
  unfold translateInsn? at expansion
  unfold jumpOpcode
  split at jump
  · next major =>
    cases jump
    rw [major] at expansion
    obtain ⟨o, row, rfl⟩ := Option.map_eq_some_iff.mp expansion
    rw [placed_append] at body'
    refine ⟨_, o, ?_, ?_, ?_, jumps_branch (branchRow_ne_call row) body'.2⟩
    · omega
    · simp only [length_append, length_map, length_cons, length_nil]
      omega
    · exact row
  · next major =>
    cases jump
    rw [major] at expansion
    cases expansion
    refine ⟨p + (spillLoads insn).length, if rvRd insn = 0 then .jmp else .call, by omega, ?_, ?_, ?_⟩
    · unfold translateJal
      split <;> simp <;> omega
    · rfl
    · rw [length_map] at body'
      unfold translateJal at body'
      split at body'
      next noLink =>
        rw [if_pos noLink]
        exact jumps_branch (by decide) body'
      next link =>
        rw [if_neg link]
        exact jumps_call body'
  · cases jump

/-- A branch or `JAL` of an accepted program with an aligned target goes to an instruction of the
program or directly behind the last one, and the branch or call emitted for it jumps to the first
word emitted there. -/
theorem jumps_land (accepted : translateProgramInternal program = .ok (rom, pcMap)) {i : Nat}
    {insn target : Word} (word : program[i]? = some insn)
    (jump : jumpTarget (ofNat 32 (i * 4)) insn = some target) (aligned : target.toNat % 4 = 0) :
    ∃ j p e q t word o, target.toNat = 4 * j ∧ j ≤ program.length ∧ pcMap[j]? = some t ∧
      pcMap[i]? = some p ∧ pcMap[i + 1]? = some e ∧ p ≤ q ∧ q < e ∧ rom[q]? = some word ∧
      jumpOpcode insn = some o ∧ MbcInsn.opcode? word = some o ∧
      ∀ c : Cpu, c.state.pc = ofNat 32 (q + 1) → Taken word c →
        ∃ c', c.executeInsn word = .ok c' ∧ c'.state.pc = ofNat 32 t := by
  have layout := layout_of_internal accepted
  obtain ⟨p, body, expansion, here, next, placed⟩ := layout.block word
  obtain ⟨q, o, above, below, named, word, t, fetch, op, lookup, lands⟩ :=
    jumps_of_block expansion jump placed
  have inside := (List.getElem?_eq_some_iff.mp lookup).1
  rw [layout.length] at inside
  exact ⟨target.toNat / 4, p, _, q, t, word, o, by omega, by omega, lookup, here, next, above,
    below, fetch, named, op, lands⟩

/-- `JAL x0, 4`. -/
def jumpOver : Word := 0x0040006F

theorem jumps_land_over : ∃ rom pcMap, translateProgramInternal [jumpOver, 0] = .ok (rom, pcMap) ∧
    ∃ (q t : Nat) (word : Word), pcMap[1]? = some t ∧ rom[q]? = some word ∧
      MbcInsn.opcode? word = some .jmp :=
  ⟨_, _, rfl, by
    obtain ⟨j, p, e, q, t, word, o, same, -, found, -, -, -, -, fetch, named, op, -⟩ :=
      @jumps_land _ [jumpOver, 0] _ rfl 0 jumpOver 4 rfl rfl rfl
    cases (show some Opcode.jmp = some o from named)
    exact ⟨q, t, word, (show j = 1 by simpa using same.symm) ▸ found, fetch, op⟩⟩

/-- The program ends with the jump, whose target is accepted all the same. -/
theorem jump_leaves_program : ¬ ∀ program rom pcMap, translateProgramInternal program = .ok (rom, pcMap) →
    ∀ i insn target, program[i]? = some insn → jumpTarget (ofNat 32 (i * 4)) insn = some target →
      target.toNat % 4 = 0 ∧ target.toNat < 4 * program.length := by
  intro all
  have outside := (all [jumpOver] _ _ rfl 0 jumpOver 4 rfl rfl).2
  exact absurd outside (by decide)

end Unheaded.Mbc.Translator
