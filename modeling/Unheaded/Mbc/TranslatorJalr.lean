import Unheaded.Mbc.BpfRun
import Unheaded.Mbc.TranslatorFields
import Unheaded.Mbc.TranslatorLayout

/-!
# `JALR` on the BPF interpreter

What the expansion of `JALR rd, imm(rs1)` with `rd` in `x0, x1` does when the interpreter runs it.
-/

namespace Unheaded.Mbc.Translator

open Lib Bpf List BitVec Function StraightLine
open BitVec (ofNat)

/-! ## The property and its condition -/

def jalrImm (insn : Word) : Word := signExtend12 (insn >>> 20)

/-- What `rs` holds: `x0` is zero, whatever `r0` holds. -/
def sourceValue (regs : Reg → Word) (rs : BitVec 5) : Word :=
  if rs = 0 then 0 else regs (mapRegister rs)

/-- The registers and the pc a `JALR` to `landing` should leave: all mapped
registers but `rd` are kept, and a return through the link of a call resumes
at `next`. -/
structure Landed (before : Reg → Word) (rd : BitVec 5) (next landing : Word)
    (regs : Reg → Word) (pc : Word) : Prop where
  pc : pc = landing
  kept : ∀ x : BitVec 5, x.toNat < 16 → x ≠ rd → regs (mapRegister x) = before (mapRegister x)
  returns : rd = 1 → ∀ (d : Bpf) (w : Word), MbcInsn.opcode? w = some .ret →
    d.state.regs 14 = regs 14 → ∃ d', d.executeInsn w = .next d' ∧ d'.state.pc = next

/-- The emitted words, run from `here` until they are left, land. -/
def JalrLands (b : Bpf) (rd : BitVec 5) (here next landing : Word) : Prop :=
  ∃ b', Leaves iterate? (Inside here.toNat next.toNat) b b' ∧
    Landed b.state.regs rd next landing b'.state.regs b'.state.pc

/-- When they do. -/
def JalrCondition (rv2mbc : List Word) (b : Bpf) (insn here next landing : Word) : Prop :=
  let rd := rvRd insn
  let rs1 := rvRs1 insn
  let imm := jalrImm insn
  ¬ (here = 0 ∧ RESTART_INSNS < b.state.insnCount.toNat) ∧
    if imm = 0 then rd = 0 ∨ rs1 ≠ 1 ∨ landing = next
    else rd = 0 ∧
      if 0 < imm.toInt then rs1 = 0 ∧ (mapEntry rv2mbc (imm + imm)).getD next = landing
      else (mapEntry rv2mbc (sourceValue b.state.regs rs1)).getD next = landing

/-! ## Links -/

theorem untag {v : Word} (small : v.toNat < 2 ^ 31) :
    (v ||| RET_MBC_TAG) &&& RET_MBC_TAG ≠ 0 ∧ (v ||| RET_MBC_TAG) &&& ~~~RET_MBC_TAG = v := by
  have top : v.getLsbD 31 = false := by
    rw [BitVec.getLsbD, Nat.testBit_lt_two_pow small]
  constructor
  · intro zero
    have bit := congrArg (fun u : Word => u.getLsbD 31) zero
    simp [RET_MBC_TAG] at bit
  · apply eq_of_getLsbD_eq
    intro i hi
    interval_cases i <;> simp_all [RET_MBC_TAG]

theorem and_tag_eq_zero {v : Word} (small : v.toNat < 2 ^ 31) : v &&& RET_MBC_TAG = 0 := by
  have top : v.getLsbD 31 = false := by
    rw [BitVec.getLsbD, Nat.testBit_lt_two_pow small]
  apply eq_of_getLsbD_eq
  intro i hi
  interval_cases i <;> simp_all [RET_MBC_TAG]

theorem ret_of_link {d : Bpf} {w v : Word} (op : MbcInsn.opcode? w = some .ret)
    (small : v.toNat < 2 ^ 31) (link : d.state.regs 14 = v ||| RET_MBC_TAG) :
    d.executeInsn w = .next d.ret ∧ d.ret.state.pc = v := by
  obtain ⟨tagged, cleared⟩ := untag small
  refine ⟨by rw [executeInsn, op], ?_⟩
  rw [(ret_jumps d).pc, returnPc, link, if_pos tagged, cleared]

/-! ## Straight-line parts -/

variable (rs : BitVec 5)

def guarded (regs : Reg → Word) : Reg → Word :=
  if rs = 0 then update regs 0 0 else regs

theorem line_guard : StraightLine (guardZeroSrc rs (mapRegister rs)) (guarded rs) := by
  by_cases zero : rs = 0
  · subst zero
    exact single (straight_movi 0 0 0)
  · have same : guarded rs = id := by
      funext regs
      rw [guarded, if_neg zero]
      rfl
    rw [guardZeroSrc, if_neg zero, same]
    exact nil

theorem mapRegister_ne_zero : ∀ x : BitVec 5, x ≠ 0 → mapRegister x ≠ 0 := by decide

theorem mapRegister_ne_link : ∀ x : BitVec 5, x.toNat < 16 → x ≠ 1 → mapRegister x ≠ 14 := by
  decide

theorem guarded_source (regs : Reg → Word) :
    guarded rs regs (mapRegister rs) = sourceValue regs rs := by
  by_cases zero : rs = 0
  · subst zero
    rfl
  · rw [guarded, sourceValue, if_neg zero, if_neg zero]

theorem guarded_of_ne_zero (regs : Reg → Word) {r : Reg} (other : r ≠ 0) :
    guarded rs regs r = regs r := by
  rw [guarded]
  split
  · exact update_of_ne other _ _
  · rfl

theorem guarded_of_source (regs : Reg → Word) {rs : BitVec 5} (nonzero : rs ≠ 0) :
    guarded rs regs = regs :=
  if_neg nonzero

/-! ## The site of a `JALR` -/

/-- The expansion of `insn` stands in the ROM from `p` to `q`, and no map
entry points strictly inside it. -/
structure JalrSite (rom rv2mbc : List Word) (insn : Word) (p q : Nat) : Prop where
  code : Seg rom p (translateJalr insn)
  size : q = p + (translateJalr insn).length
  ends : q ≤ rom.length
  fits : rom.length ≤ ROM_MAP_WORDS_DEFAULT
  entries : rv2mbc.length ≤ RV2MBC_ENTRIES_LARGE
  first : mapEntry rv2mbc 0 = none
  outside : ∀ {a m : Word}, mapEntry rv2mbc a = some m → ¬ (p < m.toNat ∧ m.toNat < q)

section Site

variable {rom rv2mbc : List Word} {insn : Word} {p q : Nat} {b : Bpf} {regs : Reg → Word}

namespace JalrSite

section

variable (site : JalrSite rom rv2mbc insn p q)
include site

theorem toNat_ofNat {n : Nat} (below : n ≤ q) : (ofNat 32 n).toNat = n := by
  apply Nat.mod_eq_of_lt
  have ends := site.ends
  have fits := site.fits
  have bound : ROM_MAP_WORDS_DEFAULT < 2 ^ 32 := by decide
  omega

theorem getD_outside (a : Word) {n : Nat} (ends : n = q) :
    ¬ (p < ((mapEntry rv2mbc a).getD (ofNat 32 n)).toNat ∧
      ((mapEntry rv2mbc a).getD (ofNat 32 n)).toNat < q) := by
  subst ends
  cases entry : mapEntry rv2mbc a with
  | some m => exact site.outside entry
  | none =>
    rw [Option.getD_none, site.toNat_ofNat (Nat.le_refl n)]
    omega

theorem mapEntry_link (n : Nat) : mapEntry rv2mbc (ofNat 32 n ||| RET_MBC_TAG) = none := by
  have high : 2 ^ 29 ≤ ((ofNat 32 n ||| RET_MBC_TAG) >>> 2).toNat := by
    rw [toNat_ushiftRight, toNat_or]
    have tag : RET_MBC_TAG.toNat = 2 ^ 31 := rfl
    have bound := Nat.right_le_or (n := (ofNat 32 n).toNat) (m := RET_MBC_TAG.toNat)
    omega
  have entries := site.entries
  have size : RV2MBC_ENTRIES_LARGE < 2 ^ 29 := by decide
  rw [mapEntry, List.getElem?_eq_none_iff.mpr (by omega)]

end

variable {ws : List Word} {a jump : Word} {f : (Reg → Word) → Reg → Word} {out : Reg → Word}

theorem exits_of_jump (site : JalrSite rom rv2mbc insn p q)
    (words : translateJalr insn = ws ++ [jump]) (line : StraightLine ws f)
    (start : At rom rv2mbc regs p b) (effect : ∀ {b'}, At rom rv2mbc (f regs) (p + ws.length) b' →
      Effect jump b'.fetched out ((mapEntry rv2mbc a).getD (ofNat 32 (p + ws.length + 1)))) :
    Exits p q b out ((mapEntry rv2mbc a).getD (ofNat 32 q)) := by
  have code := site.code
  have size := site.size
  rw [words, seg_append] at code
  rw [words, length_append, length_singleton] at size
  refine start.exits_line code.1 site.fits line (Nat.le_refl p) (by omega) (fun b' there => ?_)
  have jumps := effect there
  have ends : p + ws.length + 1 = q := by omega
  rw [ends] at jumps
  exact there.exits_jump code.2.1 site.fits jumps (site.getD_outside a rfl)

theorem exits_of_scratch (site : JalrSite rom rv2mbc insn p q)
    (words : translateJalr insn = ws ++ [jump, emit .movi 0 0 0]) (line : StraightLine ws f)
    (start : At rom rv2mbc regs p b) (effect : ∀ {b'}, At rom rv2mbc (f regs) (p + ws.length) b' →
      Effect jump b'.fetched out ((mapEntry rv2mbc a).getD (ofNat 32 (p + ws.length + 1)))) :
    ∃ final, Exits p q b final ((mapEntry rv2mbc a).getD (ofNat 32 q)) ∧
      ∀ r, r ≠ 0 → final r = out r := by
  have code := site.code
  have size := site.size
  rw [words, seg_append] at code
  rw [words, length_append, length_cons, length_singleton] at size
  obtain ⟨before, jumpCode, restore, -⟩ := code
  cases entry : mapEntry rv2mbc a with
  | some m =>
    refine ⟨out, ?_, fun r _ => rfl⟩
    refine start.exits_line before site.fits line (Nat.le_refl p) (by omega) (fun b' there => ?_)
    have jumps := effect there
    rw [entry] at jumps
    exact there.exits_jump jumpCode site.fits jumps (site.outside entry)
  | none =>
    refine ⟨update out 0 0, ?_, fun r other => update_of_ne other _ _⟩
    refine start.exits_line before site.fits line (Nat.le_refl p) (by omega) (fun b' there => ?_)
    have jumps := effect there
    rw [entry] at jumps
    refine there.exits_more jumpCode site.fits jumps (by omega) (by omega) (fun b'' last => ?_)
    have zeroed := straight_movi 0 0 0 b''.fetched
    rw [last.fetched.2.1, last.fetched.2.2] at zeroed
    have ends : p + ws.length + 1 + 1 = q := by omega
    rw [ends] at zeroed
    refine last.exits_jump restore site.fits zeroed ?_
    rw [Option.getD_none, site.toNat_ofNat (Nat.le_refl q)]
    omega

end JalrSite

/-! ## A zero offset -/

theorem words_ret (rd : rvRd insn = 0) (rs1 : rvRs1 insn = 1) (imm : jalrImm insn = 0) :
    translateJalr insn = [] ++ [emit .ret 0 0 0] := by
  rw [jalrImm] at imm
  simp [translateJalr, rd, rs1, imm]

theorem words_jmpr (rd : rvRd insn = 0) (rs1 : rvRs1 insn ≠ 1) (imm : jalrImm insn = 0) :
    translateJalr insn = guardZeroSrc (rvRs1 insn) (mapRegister (rvRs1 insn)) ++
      [emit .jmpr (mapRegister (rvRs1 insn)) 0 0] := by
  rw [translateJalr, if_neg (fun all => rs1 all.2.1), if_pos ⟨rd, imm⟩, if_neg rs1]

theorem words_callr (rd : rvRd insn = 1) (imm : jalrImm insn = 0) :
    translateJalr insn = guardZeroSrc (rvRs1 insn) (mapRegister (rvRs1 insn)) ++
      [emit .callr (mapRegister (rvRs1 insn)) 0 0] := by
  rw [jalrImm] at imm
  simp [translateJalr, rd, imm]

theorem exits_jump_zero (site : JalrSite rom rv2mbc insn p q) (start : At rom rv2mbc regs p b)
    (rd : rvRd insn = 0) (imm : jalrImm insn = 0) {landing : Word}
    (entry : mapEntry rv2mbc (sourceValue regs (rvRs1 insn)) = some landing)
    (small : (sourceValue regs (rvRs1 insn)).toNat < 2 ^ 31) :
    ∃ out, Exits p q b out landing ∧ ∀ r, r ≠ 0 → out r = regs r := by
  by_cases link : rvRs1 insn = 1
  · rw [link] at entry small
    have value : sourceValue regs 1 = regs 14 := rfl
    rw [value] at entry small
    have exits := site.exits_of_jump (words_ret rd link imm) nil start
      (a := regs 14) (fun here => by
        have effect := here.ret (and_tag_eq_zero small) 0 0 0
        rw [id, entry] at effect
        rw [entry]
        exact effect)
    rw [entry] at exits
    exact ⟨regs, exits, fun r _ => rfl⟩
  · have exits := site.exits_of_jump (words_jmpr rd link imm) (line_guard (rvRs1 insn)) start
      (a := sourceValue regs (rvRs1 insn)) (fun here => by
        have effect := here.jmpr (mapRegister (rvRs1 insn)) 0 0
        rw [guarded_source] at effect
        exact effect)
    rw [entry] at exits
    exact ⟨_, exits, fun r other => guarded_of_ne_zero _ _ other⟩

theorem exits_call_zero (site : JalrSite rom rv2mbc insn p q) (start : At rom rv2mbc regs p b)
    (low : (rvRs1 insn).toNat < 16) (rd : rvRd insn = 1) (imm : jalrImm insn = 0) :
    Exits p q b (update (guarded (rvRs1 insn) regs) 14 (ofNat 32 q ||| RET_MBC_TAG))
      (if rvRs1 insn = 1 then ofNat 32 q
        else (mapEntry rv2mbc (sourceValue regs (rvRs1 insn))).getD (ofNat 32 q)) := by
  have size := site.size
  have words := words_callr rd imm
  have ends : p + (guardZeroSrc (rvRs1 insn) (mapRegister (rvRs1 insn))).length + 1 = q := by
    rw [size, words, length_append, length_singleton, Nat.add_assoc]
  have link : linkAt (p + (guardZeroSrc (rvRs1 insn) (mapRegister (rvRs1 insn))).length) =
      ofNat 32 q ||| RET_MBC_TAG := by
    rw [linkAt, ends]
  have exits : Exits p q b
      (update (guarded (rvRs1 insn) regs) 14 (ofNat 32 q ||| RET_MBC_TAG))
      ((mapEntry rv2mbc (update (guarded (rvRs1 insn) regs) 14
        (ofNat 32 q ||| RET_MBC_TAG) (mapRegister (rvRs1 insn)))).getD
          (ofNat 32 q)) := by
    apply site.exits_of_jump words (line_guard (rvRs1 insn)) start
    intro b' here
    have effect := here.callr (mapRegister (rvRs1 insn)) 0 0
    rwa [link] at effect
  by_cases self : rvRs1 insn = 1
  · have register : mapRegister (rvRs1 insn) = 14 := by
      rw [self]
      rfl
    rw [register, update_self, site.mapEntry_link q] at exits
    rw [if_pos self]
    exact exits
  · rw [update_of_ne (mapRegister_ne_link _ low self), guarded_source] at exits
    rw [if_neg self]
    exact exits

/-! ## A non-zero offset -/

/-- The scratch words before the jump. -/
def scratchWords (insn : Word) : List Word :=
  guardZeroSrc (rvRs1 insn) (mapRegister (rvRs1 insn)) ++
    [emit .mov 0 (mapRegister (rvRs1 insn)) 0] ++
    if 0 < (jalrImm insn).toInt then
      [emit .movi (mapRegister (rvRs1 insn)) 0 ((jalrImm insn).setWidth 16),
        emit .add 0 (mapRegister (rvRs1 insn)) 0, emit .mov (mapRegister (rvRs1 insn)) 0 0]
    else []

/-- The registers after them: a positive offset overwrites `rs1`. -/
def scratched (insn : Word) (regs : Reg → Word) : Reg → Word :=
  let d := mapRegister (rvRs1 insn)
  let g := guarded (rvRs1 insn) regs
  let moved := update g 0 (g d)
  if 0 < (jalrImm insn).toInt then
    let loaded := update moved d (jalrImm insn)
    let added := update loaded 0 (loaded 0 + loaded d)
    update added d (added 0)
  else moved

theorem jalrImm_le (insn : Word) : (jalrImm insn).toInt ≤ 0xFFFF := by
  rw [jalrImm, signExtend12_eq]
  exact Int.le_trans (signExtend12_range (Rv32.immI insn)).2 (by decide)

theorem words_scratch (imm : jalrImm insn ≠ 0) : translateJalr insn = scratchWords insn ++
      [if rvRd insn = 0 then emit .jmpr 0 0 0 else emit .callr 0 0 0, emit .movi 0 0 0] := by
  have range := jalrImm_le insn
  rw [jalrImm] at imm range
  have bounds : ((0 : Int) < (signExtend12 (insn >>> 20)).toInt ∧
      (signExtend12 (insn >>> 20)).toInt ≤ 0xFFFF) ↔
      (0 : Int) < (signExtend12 (insn >>> 20)).toInt :=
    and_iff_left range
  rw [translateJalr, if_neg (fun all => imm all.2.2), if_neg (fun all => imm all.2),
    if_neg (fun all => imm all.2), if_neg imm, scratchWords, jalrImm]
  simp only [bounds]

theorem line_scratchWords (insn : Word) : StraightLine (scratchWords insn) (scratched insn) := by
  have start := (line_guard (rvRs1 insn)).append
    (single (straight_mov 0 (mapRegister (rvRs1 insn)) 0))
  by_cases pos : 0 < (jalrImm insn).toInt
  · have whole := setWidth_half_of_le (toNat_le_of_toInt (Int.le_of_lt pos) (jalrImm_le insn))
    have load := straight_movi (mapRegister (rvRs1 insn)) 0 ((jalrImm insn).setWidth 16)
    rw [whole] at load
    have line := start.append (cons load (cons
      (straight_add 0 (mapRegister (rvRs1 insn)) 0)
      (single (straight_mov (mapRegister (rvRs1 insn)) 0 0))))
    have same : scratched insn = fun regs =>
        (fun regs => update regs (mapRegister (rvRs1 insn)) (regs 0))
          ((fun regs => update regs 0 (regs 0 + regs (mapRegister (rvRs1 insn))))
            ((fun regs => update regs (mapRegister (rvRs1 insn)) (jalrImm insn))
              ((fun regs => update regs 0 (regs (mapRegister (rvRs1 insn))))
                (guarded (rvRs1 insn) regs)))) := by
      funext regs
      rw [scratched, if_pos pos]
    rw [scratchWords, if_pos pos, same]
    exact line
  · have same : scratched insn = fun regs =>
        (fun regs => update regs 0 (regs (mapRegister (rvRs1 insn))))
          (guarded (rvRs1 insn) regs) := by
      funext regs
      rw [scratched, if_neg pos]
    rw [scratchWords, if_neg pos, same, append_nil]
    exact start

theorem scratched_negative (negative : ¬ 0 < (jalrImm insn).toInt) (regs : Reg → Word) :
    scratched insn regs 0 = sourceValue regs (rvRs1 insn) ∧
      ∀ r, r ≠ 0 → scratched insn regs r = regs r := by
  rw [scratched, if_neg negative]
  constructor
  · rw [update_self, guarded_source]
  · intro r other
    rw [update_of_ne other, guarded_of_ne_zero _ _ other]

theorem scratched_zero (pos : 0 < (jalrImm insn).toInt) (rs1 : rvRs1 insn = 0) (regs : Reg → Word) :
    scratched insn regs 0 = jalrImm insn + jalrImm insn ∧
      ∀ r, r ≠ 0 → scratched insn regs r = regs r := by
  have register : mapRegister (rvRs1 insn) = 0 := by
    rw [rs1]
    rfl
  rw [scratched, if_pos pos, register]
  constructor
  · simp only [update_self]
  · intro r other
    simp only [update_of_ne other, guarded_of_ne_zero _ _ other]

theorem scratched_positive (pos : 0 < (jalrImm insn).toInt) (rs1 : rvRs1 insn ≠ 0)
    (regs : Reg → Word) : scratched insn regs (mapRegister (rvRs1 insn)) =
      sourceValue regs (rvRs1 insn) + jalrImm insn := by
  have other := mapRegister_ne_zero _ rs1
  rw [scratched, if_pos pos, ← guarded_source]
  simp only [update_self, update_of_ne other.symm]

theorem exits_scratch_jump (site : JalrSite rom rv2mbc insn p q) (start : At rom rv2mbc regs p b)
    (rd : rvRd insn = 0) (imm : jalrImm insn ≠ 0) :
    ∃ out, Exits p q b out ((mapEntry rv2mbc (scratched insn regs 0)).getD (ofNat 32 q)) ∧
      ∀ r, r ≠ 0 → out r = scratched insn regs r := by
  have words := words_scratch imm
  rw [if_pos rd] at words
  exact site.exits_of_scratch words (line_scratchWords insn) start (fun here => here.jmpr 0 0 0)

theorem exits_scratch_call (site : JalrSite rom rv2mbc insn p q) (start : At rom rv2mbc regs p b)
    (rd : rvRd insn = 1) (imm : jalrImm insn ≠ 0) :
    ∃ out pc, Exits p q b out pc ∧ out 14 = ofNat 32 (q - 1) ||| RET_MBC_TAG := by
  have notJump : ¬ rvRd insn = 0 := by
    rw [rd]
    decide
  have words := words_scratch imm
  rw [if_neg notJump] at words
  have size := site.size
  rw [words, length_append] at size
  have ends : p + (scratchWords insn).length + 1 = q - 1 := by
    change q = p + ((scratchWords insn).length + 2) at size
    omega
  obtain ⟨out, exits, kept⟩ := site.exits_of_scratch words (line_scratchWords insn) start
    (fun here => here.callr 0 0 0)
  refine ⟨out, _, exits, ?_⟩
  rw [kept 14 (by decide), update_self, linkAt, ends]

/-! ## All cases -/

variable {here next landing : Word} {out : Reg → Word} {pc : Word}

theorem jalrLands_iff {rd : BitVec 5} (exits : Exits here.toNat next.toNat b out pc) :
    JalrLands b rd here next landing ↔ Landed b.state.regs rd next landing out pc := by
  constructor
  · rintro ⟨b', leaves, landed⟩
    obtain ⟨rfl, rfl⟩ := Exits.unique exits ⟨b', leaves, rfl, rfl⟩
    exact landed
  · intro landed
    obtain ⟨b', leaves, rfl, rfl⟩ := exits
    exact ⟨b', leaves, landed⟩

theorem landed_of_jump (kept : ∀ r, r ≠ 0 → out r = regs r) :
    Landed regs 0 next landing out pc ↔ pc = landing := by
  constructor
  · exact fun landed => landed.pc
  · intro same
    refine ⟨same, fun x _ other => kept _ (mapRegister_ne_zero x other), ?_⟩
    exact fun isCall => absurd isCall (by decide)

theorem landed_of_call (small : next.toNat < 2 ^ 31)
    (link : out 14 = next ||| RET_MBC_TAG) (kept : ∀ r, r ≠ 14 → out r = regs r) :
    Landed regs 1 next landing out pc ↔ pc = landing := by
  constructor
  · exact fun landed => landed.pc
  · intro same
    refine ⟨same, fun x low other => kept _ (mapRegister_ne_link x low other), ?_⟩
    intro _ d w op held
    obtain ⟨executed, returned⟩ := ret_of_link op small (held.trans link)
    exact ⟨_, executed, returned⟩

theorem not_landed_of_link (b : Bpf) {v : Word} (small : v.toNat < 2 ^ 31) (other : v ≠ next)
    (link : out 14 = v ||| RET_MBC_TAG) : ¬ Landed regs 1 next landing out pc := by
  intro landed
  have op := MbcInsn.opcode?_encode 0 0 0 .ret
  obtain ⟨d', executed, resumed⟩ := landed.returns rfl (b.setReg 14 (out 14)) _ op rfl
  obtain ⟨executed', returned⟩ := ret_of_link (d := b.setReg 14 (out 14)) op small link
  cases executed
  exact other (returned.symm.trans resumed)

namespace JalrSite

variable {addr : Word}

variable (site : JalrSite rom rv2mbc insn p q)
include site

theorem start (loaded : Loaded rom rv2mbc b) (here : b.state.pc = ofNat 32 p)
    (noRestart : ¬ (ofNat 32 p = 0 ∧ RESTART_INSNS < b.state.insnCount.toNat)) :
    At rom rv2mbc b.state.regs p b := by
  refine ⟨loaded, rfl, here, ?_⟩
  rintro ⟨rfl, late⟩
  exact noRestart ⟨rfl, late⟩

theorem exits_iff {rd : BitVec 5}
    (exits : Exits p q b out pc) : JalrLands b rd (ofNat 32 p) (ofNat 32 q) landing ↔
      Landed b.state.regs rd (ofNat 32 q) landing out pc := by
  have order : p ≤ q := by
    have size := site.size
    omega
  apply jalrLands_iff
  rw [site.toNat_ofNat order, site.toNat_ofNat (Nat.le_refl q)]
  exact exits

theorem small {n : Nat} (below : n ≤ q) : (ofNat 32 n).toNat < 2 ^ 31 := by
  rw [site.toNat_ofNat below]
  have ends := site.ends
  have fits := site.fits
  have bound : ROM_MAP_WORDS_DEFAULT < 2 ^ 31 := by decide
  omega

theorem lands_zero (start : At rom rv2mbc b.state.regs p b)
    (low : (rvRs1 insn).toNat < 16) (kind : rvRd insn = 0 ∨ rvRd insn = 1) (imm : jalrImm insn = 0)
    (entry : mapEntry rv2mbc (sourceValue b.state.regs (rvRs1 insn)) = some landing)
    (small : (sourceValue b.state.regs (rvRs1 insn)).toNat < 2 ^ 31) :
    JalrLands b (rvRd insn) (ofNat 32 p) (ofNat 32 q) landing ↔
      rvRd insn = 0 ∨ rvRs1 insn ≠ 1 ∨ landing = ofNat 32 q := by
  obtain rd | rd := kind
  · obtain ⟨out, exits, kept⟩ := exits_jump_zero site start rd imm entry small
    rw [site.exits_iff exits, rd, landed_of_jump kept]
    exact iff_of_true rfl (Or.inl rfl)
  · -- a call through `x0` would go to address 0, which has no entry
    have source : rvRs1 insn ≠ 0 := by
      intro zero
      rw [zero] at entry
      have none := site.first
      change mapEntry rv2mbc 0 = some landing at entry
      rw [none] at entry
      cases entry
    have exits := exits_call_zero site start low rd imm
    rw [guarded_of_source _ source, entry] at exits
    rw [site.exits_iff exits, rd, landed_of_call (site.small (Nat.le_refl q))
      (update_self ..) (fun r other => update_of_ne other _ _)]
    by_cases self : rvRs1 insn = 1
    · rw [if_pos self]
      constructor
      · exact fun same => Or.inr (Or.inr same.symm)
      · rintro (isJump | notSelf | same)
        · exact absurd isJump (by decide)
        · exact absurd self notSelf
        · exact same.symm
    · rw [if_neg self]
      exact iff_of_true rfl (Or.inr (Or.inl self))

theorem lands_scratch (start : At rom rv2mbc b.state.regs p b) (low : (rvRs1 insn).toNat < 16)
    (rd : rvRd insn = 0) (imm : jalrImm insn ≠ 0) :
    JalrLands b (rvRd insn) (ofNat 32 p) (ofNat 32 q) landing ↔
      if 0 < (jalrImm insn).toInt then
        rvRs1 insn = 0 ∧
          (mapEntry rv2mbc (jalrImm insn + jalrImm insn)).getD (ofNat 32 q) = landing
      else (mapEntry rv2mbc (sourceValue b.state.regs (rvRs1 insn))).getD (ofNat 32 q) =
        landing := by
  obtain ⟨out, exits, kept⟩ := exits_scratch_jump site start rd imm
  rw [site.exits_iff exits, rd]
  by_cases pos : 0 < (jalrImm insn).toInt
  · rw [if_pos pos]
    by_cases source : rvRs1 insn = 0
    · obtain ⟨target, others⟩ := scratched_zero pos source b.state.regs
      rw [target, landed_of_jump (fun r other => (kept r other).trans (others r other)),
        and_iff_right source]
    · -- the offset stays behind in `rs1`
      refine iff_of_false (fun landed => ?_) (fun both => source both.1)
      have same := landed.kept (rvRs1 insn) low source
      rw [kept _ (mapRegister_ne_zero _ source), scratched_positive pos source, sourceValue,
        if_neg source] at same
      apply imm
      bv_omega
  · rw [if_neg pos]
    obtain ⟨target, others⟩ := scratched_negative pos b.state.regs
    rw [target, landed_of_jump (fun r other => (kept r other).trans (others r other))]

theorem lands_iff (loaded : Loaded rom rv2mbc b)
    (here : b.state.pc = ofNat 32 p) (low : (rvRs1 insn).toNat < 16)
    (kind : rvRd insn = 0 ∨ rvRd insn = 1)
    (target : sourceValue b.state.regs (rvRs1 insn) + jalrImm insn = addr)
    (entry : mapEntry rv2mbc addr = some landing) (small : addr.toNat < 2 ^ 31) :
    JalrLands b (rvRd insn) (ofNat 32 p) (ofNat 32 q) landing ↔
      JalrCondition rv2mbc b insn (ofNat 32 p) (ofNat 32 q) landing := by
  rw [JalrCondition]
  by_cases restart : ofNat 32 p = 0 ∧ RESTART_INSNS < b.state.insnCount.toNat
  · have stuck := loaded.iterate?_restart (here.trans restart.1) restart.2
    refine iff_of_false ?_ (fun both => both.1 restart)
    rintro ⟨b', leaves, -⟩
    exact Leaves.of_stuck stuck leaves
  · have start := site.start loaded here restart
    rw [and_iff_right restart]
    by_cases imm : jalrImm insn = 0
    · have value : sourceValue b.state.regs (rvRs1 insn) = addr := by
        rw [← target, imm]
        exact (BitVec.add_zero _).symm
      rw [if_pos imm]
      exact site.lands_zero start low kind imm (by rw [value]; exact entry)
        (by rw [value]; exact small)
    · rw [if_neg imm]
      obtain rd | rd := kind
      · rw [and_iff_right rd]
        exact site.lands_scratch start low rd imm
      · obtain ⟨out, pc, exits, link⟩ := exits_scratch_call site start rd imm
        rw [site.exits_iff exits, rd]
        have size := site.size
        have length : 0 < (translateJalr insn).length := by
          rw [words_scratch imm]
          simp
        have other : ofNat 32 (q - 1) ≠ ofNat 32 q := by
          intro same
          have numbers := congrArg BitVec.toNat same
          rw [site.toNat_ofNat (Nat.sub_le q 1), site.toNat_ofNat (Nat.le_refl q)] at numbers
          omega
        refine iff_of_false ?_ (fun both => absurd both.1 (by decide))
        exact not_landed_of_link b (site.small (Nat.sub_le q 1)) other link

end JalrSite

end Site

/-! ## Accepted programs -/

variable {insn : Word}

theorem translateInsn?_jalr {pc : Word} (jalr : rvOpcode insn = 0x67) :
    translateInsn? insn pc = some ((translateJalr insn).map .concrete) := by
  rw [translateInsn?, jalr]
  rfl

theorem blockOf_jalr (jalr : rvOpcode insn = 0x67) (kind : rvRd insn = 0 ∨ rvRd insn = 1)
    (low : (rvRs1 insn).toNat < 16) (body : List MbcEmit) : blockOf insn body = body := by
  have source : ∀ x : BitVec 5, 16 ≤ x.toNat → isSrc insn x = false := by
    intro x high
    have other : (rvRs1 insn == x) = false := by
      rw [beq_eq_false_iff_ne]
      rintro rfl
      omega
    rw [isSrc, other, hasRs2Reg, jalr]
    simp
  have target : ∀ x : BitVec 5, 16 ≤ x.toNat → isDst insn x = false := by
    intro x high
    have other : (rvRd insn == x) = false := by
      rw [beq_eq_false_iff_ne]
      rintro rfl
      obtain rd | rd := kind <;> rw [rd] at high <;> exact absurd high (by decide)
    rw [isDst, other, Bool.and_false]
  rw [blockOf, spillLoads, spillStores, source 16 (by decide), source 17 (by decide),
    target 16 (by decide), target 17 (by decide)]
  simp

variable {program rom rv2mbc : List Word}

theorem mapEntry_of_index {k : Nat} {landing : Word} (small : 4 * k < 2 ^ 32)
    (entry : rv2mbc[k]? = some landing) (mapped : landing ≠ 0) :
    mapEntry rv2mbc (ofNat 32 (4 * k)) = some landing := by
  have index : (ofNat 32 (4 * k) >>> 2).toNat = k := by
    rw [toNat_ushiftRight, toNat_ofNat]
    omega
  rw [mapEntry, index, entry]
  exact if_pos mapped

theorem jalrSite_of_layout {pcMap : List Nat} (layout : Layout program rom pcMap)
    (fits : rom.length ≤ ROM_MAP_WORDS_DEFAULT) (entries : program.length < RV2MBC_ENTRIES_LARGE)
    {i : Nat} (word : program[i]? = some insn) (jalr : rvOpcode insn = 0x67)
    (kind : rvRd insn = 0 ∨ rvRd insn = 1) (low : (rvRs1 insn).toNat < 16) :
    ∃ p q, pcMap[i]? = some p ∧ pcMap[i + 1]? = some q ∧
      JalrSite rom (pcMap.map (ofNat 32)) insn p q := by
  obtain ⟨p, body, expansion, here, next, placed⟩ := layout.block word
  rw [translateInsn?_jalr jalr] at expansion
  cases expansion
  rw [blockOf_jalr jalr kind low] at next placed
  rw [length_map] at next
  refine ⟨p, _, here, next, ?_⟩
  refine ⟨(placed_concrete p _).mp placed, rfl, layout.fits next, fits, ?_, ?_, ?_⟩
  · rw [length_map, layout.length]
    exact entries
  · have zero : (pcMap.map (ofNat 32))[((0 : Word) >>> 2).toNat]? = some 0 := by
      rw [List.getElem?_map]
      exact congrArg (Option.map (ofNat 32)) layout.first
    rw [mapEntry, zero]
    rfl
  · intro a m entry
    rw [mapEntry] at entry
    split at entry
    next mbcIdx slot =>
      split at entry <;> cases entry
      next nonzero =>
        rw [List.getElem?_map, Option.map_eq_some_iff] at slot
        obtain ⟨t, start, rfl⟩ := slot
        have bound := layout.fits start
        have size : ROM_MAP_WORDS_DEFAULT < 2 ^ 32 := by decide
        rw [toNat_ofNat, Nat.mod_eq_of_lt (by omega)]
        exact layout.start_outside here next start
    next => cases entry

theorem jalrSite_of_accepted (accepted : translateProgramWithMap program = .ok (rom, rv2mbc))
    (fits : rom.length ≤ ROM_MAP_WORDS_DEFAULT) (entries : rv2mbc.length ≤ RV2MBC_ENTRIES_LARGE)
    {i : Nat} {here next : Word} (word : program[i]? = some insn) (jalr : rvOpcode insn = 0x67)
    (kind : rvRd insn = 0 ∨ rvRd insn = 1) (low : (rvRs1 insn).toNat < 16)
    (hereAt : rv2mbc[i]? = some here) (nextAt : rv2mbc[i + 1]? = some next) :
    ∃ p q, here = ofNat 32 p ∧ next = ofNat 32 q ∧ JalrSite rom rv2mbc insn p q := by
  obtain ⟨pcMap, layout, rfl⟩ := layout_of_map accepted
  rw [length_map, layout.length] at entries
  obtain ⟨p, q, pAt, qAt, site⟩ := jalrSite_of_layout layout fits entries word jalr kind low
  rw [List.getElem?_map, pAt] at hereAt
  rw [List.getElem?_map, qAt] at nextAt
  exact ⟨p, q, (Option.some.inj hereAt).symm, (Option.some.inj nextAt).symm, site⟩

/-- The expansion of an accepted `JALR rd, imm(rs1)` with `rd` in `x0, x1`
lands exactly under `JalrCondition`. -/
theorem jalr_lands_exactly {program rom rv2mbc : List Word}
    (accepted : translateProgramWithMap program = .ok (rom, rv2mbc))
    (fits : rom.length ≤ ROM_MAP_WORDS_DEFAULT) {i k : Nat} {insn here next landing : Word}
    (word : program[i]? = some insn) (jalr : rvOpcode insn = 0x67)
    (kind : rvRd insn = 0 ∨ rvRd insn = 1) (low : (rvRs1 insn).toNat < 16)
    (hereAt : rv2mbc[i]? = some here) (nextAt : rv2mbc[i + 1]? = some next)
    (landingAt : rv2mbc[k]? = some landing) (mapped : landing ≠ 0)
    {b : Bpf} (loaded : Loaded rom rv2mbc b) (start : b.state.pc = here)
    (target : sourceValue b.state.regs (rvRs1 insn) + jalrImm insn = ofNat 32 (4 * k)) :
    JalrLands b (rvRd insn) here next landing ↔ JalrCondition rv2mbc b insn here next landing := by
  obtain ⟨entries, filled, large, -⟩ := loaded.addressMap
  have inside := (List.getElem?_eq_some_iff.mp landingAt).1
  have size : RV2MBC_ENTRIES_LARGE < 2 ^ 29 := by decide
  obtain ⟨p, q, rfl, rfl, site⟩ :=
    jalrSite_of_accepted accepted fits (by omega) word jalr kind low hereAt nextAt
  have entry := mapEntry_of_index (by omega) landingAt mapped
  refine site.lands_iff loaded start low kind target entry ?_
  rw [toNat_ofNat]
  omega

/-! ## Two jumps through `x5` -/

/-- `JALR x0, 4(x5)`, then `ADDI x0, x0, 0`. -/
def offsetProgram : List Word := [0x00428067, 0x00000013]

/-- `JALR x0, 0(x5)`, then twice `ADDI x0, x0, 0`. -/
def plainProgram : List Word := [0x00028067, 0x00000013, 0x00000013]

def offsetRom : List Word :=
  [emit .mov 0 3 0, emit .movi 3 0 4, emit .add 0 3 0, emit .mov 3 0 0, emit .jmpr 0 0 0,
    emit .movi 0 0 0, emit .movi 0 0 0, emit .mov 0 0 0, emit .movi 0 0 0]

def plainRom : List Word := [emit .jmpr 3 0 0, emit .movi 0 0 0, emit .mov 0 0 0, emit .movi 0 0 0,
    emit .movi 0 0 0, emit .mov 0 0 0, emit .movi 0 0 0]

/-- The booted machine with `x5` set. -/
def jalrBpf (rom rv2mbc : List Word) (x5 : Word) : Bpf :=
  boot { MbcCpuState.default with regs := update (fun _ => 0) 3 x5 } 64 rom rv2mbc

theorem jalrBpf_loaded (x5 : Word) (romFits : rom.length ≤ ROM_MAP_WORDS_DEFAULT)
    (mapFits : rv2mbc.length ≤ RV2MBC_ENTRIES_DEFAULT) :
    Loaded rom rv2mbc (jalrBpf rom rv2mbc x5) where
  romMap := ⟨_, romFits, rfl⟩
  addressMap := ⟨_, mapFits, by decide, rfl⟩
  base := rfl
  halted := rfl
  interrupts := fun both => both.1 rfl

theorem offsetProgram_accepted :
    translateProgramWithMap offsetProgram = .ok (offsetRom, [0, 6, 9]) := by
  decide

theorem plainProgram_accepted :
    translateProgramWithMap plainProgram = .ok (plainRom, [0, 1, 4, 7]) := by
  decide

theorem offset_source : sourceValue (jalrBpf offsetRom [0, 6, 9] 0).state.regs (rvRs1 0x00428067) +
      jalrImm 0x00428067 = ofNat 32 (4 * 1) := by
  decide

/-- The offset jump goes to the right word but leaves its target in `x5`. -/
theorem offset_jump_fails : translateProgramWithMap offsetProgram = .ok (offsetRom, [0, 6, 9]) ∧
      Loaded offsetRom [0, 6, 9] (jalrBpf offsetRom [0, 6, 9] 0) ∧
      sourceValue (jalrBpf offsetRom [0, 6, 9] 0).state.regs (rvRs1 0x00428067) +
        jalrImm 0x00428067 = ofNat 32 (4 * 1) ∧
      ¬ JalrLands (jalrBpf offsetRom [0, 6, 9] 0) (rvRd 0x00428067) 0 6 6 := by
  have loaded : Loaded offsetRom [0, 6, 9] (jalrBpf offsetRom [0, 6, 9] 0) :=
    jalrBpf_loaded 0 (by decide) (by decide)
  refine ⟨offsetProgram_accepted, loaded, offset_source, ?_⟩
  have kind : rvRd 0x00428067 = 0 ∨ rvRd 0x00428067 = 1 := by decide
  have entry : mapEntry [0, 6, 9] (ofNat 32 (4 * 1)) = some 6 := by decide
  obtain ⟨p, q, here, next, site⟩ := jalrSite_of_accepted offsetProgram_accepted (by decide)
    (by decide) (i := 0) rfl (by decide) kind (by decide) rfl rfl
  have iff := site.lands_iff loaded here (by decide) kind offset_source entry (by decide)
  rw [← here, ← next] at iff
  rw [iff, JalrCondition]
  decide

theorem plain_jump_lands : JalrLands (jalrBpf plainRom [0, 1, 4, 7] 8) (rvRd 0x00028067) 0 1 4 := by
  have loaded : Loaded plainRom [0, 1, 4, 7] (jalrBpf plainRom [0, 1, 4, 7] 8) :=
    jalrBpf_loaded 8 (by decide) (by decide)
  refine (jalr_lands_exactly plainProgram_accepted (by decide) (i := 0) (k := 2) rfl (by decide)
    (Or.inl (by decide)) (by decide) rfl rfl rfl (by decide) loaded rfl (by decide)).mpr ?_
  rw [JalrCondition]
  decide

end Unheaded.Mbc.Translator
