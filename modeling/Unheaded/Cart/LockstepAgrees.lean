import Unheaded.Cart.Mirror

/-!
# The two engines agree

From the same window, an accepted XDP image takes the shared step and the host
emulator through the same states, until the cartridge halts or faults.
-/

namespace Unheaded.Cart

open Lib Mbc BitVec Cartridge MbcInsn Options
open BitVec (ofNat)

/-- What the oracle compares, with the records emitted so far. -/
structure Agree (x : Pair) : Prop where
  regs : x.host.state.regs = x.st.regs
  flags : x.host.state.flags &&& 0x07 = x.st.flags
  pc : x.host.state.pc = x.st.pc.setWidth 32
  window : ∀ i : BitVec 6, x.host.ram.getD i.toNat 0 = x.st.mem i
  emits : x.hostEmits = x.io.emits

/-- The engines agree, and in more than the oracle looks at. -/
structure Matched (img : Image) (input : PacketInput) (x : Pair) : Prop where
  mirrors : Mirrors img x.st x.host.core
  emits : x.hostEmits = x.io.emits
  input : x.io.input = input
  rom : x.host.rom = img.rom

namespace Matched

variable {img : Image} {input : PacketInput} {x : Pair}

theorem agree (same : Matched img input x) : Agree x where
  regs := same.mirrors.regs
  flags := by
    have flags : x.host.state.flags = x.st.flags := same.mirrors.flags
    rw [flags, same.mirrors.known]
  pc := same.mirrors.pc
  window i := by
    have room : 0x800 ≤ x.host.ram.len := same.mirrors.room
    rw [Store.getD_of_lt _ (by omega)]
    exact same.mirrors.window i
  emits := same.emits

end Matched

theorem Agree.compare {x : Pair} (agree : Agree x) : compare x.st x.host = none := by
  have regs : (List.range 16).find? (fun i =>
      x.host.state.regs (ofNat 4 i) != x.st.regs (ofNat 4 i)) = none := by
    rw [List.find?_eq_none]
    intro i _
    simp [agree.regs]
  have window : (List.range 64).find? (fun i =>
      x.host.ram.getD i 0 != x.st.mem (ofNat 6 i)) = none := by
    rw [List.find?_eq_none]
    intro i inside
    have index : (ofNat 6 i).toNat = i := by
      exact Nat.mod_eq_of_lt (List.mem_range.mp inside)
    have cell := agree.window (ofNat 6 i)
    rw [index] at cell
    simpa using cell
  unfold Cart.compare
  rw [regs]
  rw [if_neg (not_not.mpr agree.flags), if_neg (not_not.mpr agree.pc), window]

section Instruction

variable {img : Image} {input : PacketInput} {x : Pair} {w : Word}

theorem faultKind_eq_none {r : Step} (fine : r.faultKind = none) (k : FaultKind) :
    r ≠ .fault k := by
  rintro rfl
  cases fine

variable {st : CartState}

theorem Mirrors.advance {k : Core} (mirrors : Mirrors img st k) (small : st.pc.toNat < 1024) :
    (advance st).pc.setWidth 32 = st.pc.setWidth 32 + (1 : Word) ∧
      Mirrors img (advance st) { k with pc := k.pc + 1 } := by
  have next : ((st.pc.setWidth 32 + (1 : Word)).setWidth 16 : Half).setWidth 32 =
      st.pc.setWidth 32 + (1 : Word) := by
    apply setWidth_half_of_le
    rw [toNat_add, toNat_setWidth]
    have one : (1 : Word).toNat = 1 := rfl
    omega
  refine ⟨next, { mirrors with pc := ?_ }⟩
  change k.pc + 1 = ((st.pc.setWidth 32 + (1 : Word)).setWidth 16 : Half).setWidth 32
  rw [next, mirrors.pc]

theorem Sound.runOne_executes (sound : Sound img) (xdp : img.stage = STAGE_XDP) {ι : Type}
    [CartIo ι] {io : ι} (fine : (img.cartridge.runOne st io).result.faultKind = none) :
    st.pc.toNat < img.rom.length ∧ ∃ w o, img.rom[st.pc.toNat]? = some w ∧
      opcode? w = some o ∧ o ∈ ALLOWED_OPCODES ∧ img.cartridge.runOne st io =
        settle (img.cartridge.execute (advance st) io (st.pc.setWidth 32) w) := by
  unfold runOne at fine ⊢
  split at fine
  next =>
    have other : img.cartridge.cfg.stage ≠ STAGE_TICK := by
      change img.stage ≠ STAGE_TICK
      rw [xdp]
      decide
    rw [runOut, if_neg other] at fine
    cases fine
  next left =>
    rw [if_neg left]
    by_cases inside : st.pc.toNat < img.rom.length
    · obtain ⟨w, get, ok⟩ := sound.fetch inside
      obtain ⟨o, listed, op⟩ := ok.opcode
      have here : img.rom[st.pc.toNat]? = some w := by
        exact get
      refine ⟨inside, w, o, here, op, listed, ?_⟩
      exact step_of_fetch (by rw [sound.romWords]; exact inside) get
    · rw [sound.step_outside io (Nat.not_lt.mp inside)] at fine
      cases fine

section

variable (same : Matched img input x) (small : x.st.pc.toNat < 1024)
include same small

theorem Matched.serviced {io : RecIo}
    {emits : List (Word × Word × Word)} (records : emits = io.emits) (inputs : io.input = input) :
    Matched img input ⟨advance x.st, io, x.host.withPc (x.host.state.pc + 1), emits⟩ :=
  ⟨(same.mirrors.advance small).2, records, inputs, same.rom⟩

theorem Matched.answered (v : Word) : Matched img input ⟨(advance x.st).setReg 0 v, x.io,
      (x.host.setReg 0 v).withPc ((x.host.setReg 0 v).state.pc + 1), x.hostEmits⟩ :=
  ⟨(same.mirrors.advance small).2.setReg_only 0 v, same.emits, same.input, same.rom⟩

/-- The harness answers a syscall as the shared step did. -/
theorem Matched.syscall (n : Half) (xdp : img.stage = STAGE_XDP)
    (fine : (img.cartridge.syscall (advance x.st) x.io n).result.faultKind = none) :
    Matched img input (serviceSyscall input n { x with
        st := (img.cartridge.syscall (advance x.st) x.io n).st
        io := (img.cartridge.syscall (advance x.st) x.io n).io }) := by
  have regs : x.host.state.regs = x.st.regs := same.mirrors.regs
  have stage : img.cartridge.cfg.stage = STAGE_XDP := xdp
  unfold Cartridge.syscall at fine ⊢
  simp only [stage, and_true, ne_eq, not_true_eq_false, and_false] at fine ⊢
  by_cases field : n = Sys.FIELD
  · subst field
    have asked : CartIo.field x.io ((advance x.st).regs 1) =
        (input.field (x.st.regs 1), x.io) := by
      rw [← same.input]
      rfl
    rw [asked] at fine ⊢
    cases value : input.field (x.st.regs 1) with
    | none =>
      rw [value] at fine
      cases fine
    | some v =>
      have host : (input.field (x.host.state.regs 1)).getD 0 = v := by
        rw [regs, value]
        rfl
      change Matched img input ⟨(advance x.st).setReg 0 v, x.io,
        (x.host.setReg 0 ((input.field (x.host.state.regs 1)).getD 0)).withPc _, x.hostEmits⟩
      rw [host]
      exact same.answered small v
  rw [if_neg field] at fine ⊢
  by_cases now : n = Sys.NOW_NS_LO
  · subst now
    have clock : CartIo.nowNsLo x.io = (input.nowNs.setWidth 32, x.io) := by
      rw [← same.input]
      rfl
    rw [clock]
    exact same.answered small (input.nowNs.setWidth 32)
  rw [if_neg now] at fine ⊢
  by_cases verdict : n = Sys.VERDICT
  · subst verdict
    rw [if_pos rfl] at fine ⊢
    split at fine
    next known =>
      rw [if_pos known]
      exact same.serviced small same.emits same.input
    next => cases fine
  rw [if_neg verdict] at fine ⊢
  by_cases emit : n = Sys.EMIT
  · subst emit
    have records : x.hostEmits ++ [(x.host.state.regs 1, x.host.state.regs 2, x.host.state.regs 3)] =
        x.io.emits ++ [(x.st.regs 1, x.st.regs 2, x.st.regs 3)] := by
      rw [same.emits, regs]
    exact same.serviced small records same.input
  rw [if_neg emit] at fine ⊢
  by_cases queue : n = Sys.QUEUE
  · subst queue
    rw [if_pos rfl] at fine ⊢
    split at fine
    next => cases fine
    next inside =>
      rw [if_neg inside]
      exact same.serviced small same.emits same.input
  · rw [if_neg queue] at fine
    cases fine

end

theorem serviceSyscall_st (input : PacketInput) (n : Half) (x : Pair) :
    (serviceSyscall input n x).st = x.st := by
  unfold serviceSyscall
  repeat' split
  all_goals rfl

theorem serviceSyscall_withSt (input : PacketInput) (n : Half) (st : CartState) (x : Pair) :
    serviceSyscall input n { x with st := st } = { serviceSyscall input n x with st := st } := by
  unfold serviceSyscall
  repeat' split
  all_goals rfl

theorem serviceSyscall_quiet {n : Half} (quiet : x.host.Quiet) :
    (serviceSyscall input n x).host.Quiet := by
  unfold serviceSyscall
  repeat' split
  all_goals exact ⟨quiet.halted, quiet.mmu, quiet.interrupts⟩

theorem Mirrors.settle {ι : Type} {r : Ran ι} {k : Core} (mirrors : Mirrors img r.st k) :
    Mirrors img (Cartridge.settle r).st k := by
  unfold Cartridge.settle
  split
  · exact { mirrors with }
  · exact mirrors

/-- The state an instruction that does not fault leaves, and the host arm beside it. -/
theorem Matched.instruction (same : Matched img input x) (quiet : x.host.Quiet)
    (sound : Sound img) (xdp : img.stage = STAGE_XDP)
    (fine : (img.cartridge.runOne x.st x.io).result.faultKind = none) :
    ∃ x', hostArm input ((img.rom[x.st.pc.toNat]?).getD 0) (img.cartridge.runOne x.st x.io).result
        { x with
          st := (img.cartridge.runOne x.st x.io).st
          io := (img.cartridge.runOne x.st x.io).io } = .ok x' ∧
      Matched img input x' ∧
      ((img.cartridge.runOne x.st x.io).result = .cont → x'.host.Quiet) := by
  obtain ⟨inside, w, o, fetch, op, listed, runs⟩ := sound.runOne_executes xdp fine
  have small : x.st.pc.toNat < 1024 := Nat.lt_of_lt_of_le inside sound.romMax
  obtain ⟨next, ahead⟩ := same.mirrors.advance small
  have word : x.host.rom[x.host.state.pc.toNat]? = some w := by
    have pcs : x.host.state.pc = x.st.pc.setWidth 32 := same.mirrors.pc
    rw [same.rom, pcs, toNat_setWidth, Nat.mod_eq_of_lt (by omega)]
    exact fetch
  rw [runs] at fine ⊢
  rw [fetch, Option.getD_some]
  rw [result_settle] at fine ⊢
  rw [io_settle]
  by_cases call : o = .syscall
  · subst call
    have serves : img.cartridge.execute (advance x.st) x.io (x.st.pc.setWidth 32) w =
        img.cartridge.syscall (advance x.st) x.io (imm16 w) := by
      unfold execute
      rw [op]
    rw [serves] at fine ⊢
    have serviced := same.syscall small (imm16 w) xdp fine
    generalize img.cartridge.syscall (advance x.st) x.io (imm16 w) = r at *
    refine ⟨_, if_pos (Opcode.ofByte_eq_some.mp op), ?_, fun _ => serviceSyscall_quiet quiet⟩
    have mirrors := serviced.mirrors
    rw [serviceSyscall_st] at mirrors
    rw [serviceSyscall_withSt input _ (settle r).st { x with st := r.st, io := r.io }]
    exact ⟨mirrors.settle, serviced.emits, serviced.input, serviced.rom⟩
  have notCall : ¬ opcode w = Opcode.syscall.toByte := by
    intro byte
    have named : opcode? w = some .syscall := Opcode.ofByte_eq_some.mpr byte
    rw [op] at named
    exact call (Option.some.inj named)
  unfold hostArm
  rw [if_neg notCall]
  by_cases stop : o = .halt
  · subst stop
    have halts : img.cartridge.execute (advance x.st) x.io (x.st.pc.setWidth 32) w =
        ⟨.halt, advance x.st, x.io⟩ := by
      unfold execute
      rw [op]
    have host : x.host.step = .err .halted { x.host.withPc (x.host.state.pc + 1) with
          state := { (x.host.withPc (x.host.state.pc + 1)).state with halted := 1 } } := by
      rw [Cpu.step, if_neg (not_not.mpr quiet.halted), quiet.dispatchInterrupt]
      dsimp only
      rw [word]
      dsimp only
      rw [Cpu.executeInsn, op]
    rw [halts, host]
    have stopped : Mirrors img
        (settle (Ran.mk .halt (advance x.st) x.io)).st _ := Mirrors.settle ahead
    refine ⟨_, rfl, ⟨stopped, same.emits, same.input, same.rom⟩, ?_⟩
    intro continues
    cases continues
  · have plain : Plain (advance x.st) x.io _
        (img.cartridge.execute (advance x.st) x.io (x.st.pc.setWidth 32) w) :=
      execute_plain fun asks => call (Option.some.inj (op.symm.trans asks))
    have continues : (img.cartridge.execute (advance x.st) x.io
        (x.st.pc.setWidth 32) w).result = .cont := by
      rcases plain.result with continues | ⟨k, faults⟩ | ⟨-, halts⟩
      · exact continues
      · exact absurd faults (faultKind_eq_none fine k)
      · exact absurd (Option.some.inj (op.symm.trans halts)) stop
    obtain ⟨k, follows, mirrors⟩ := ahead.execute sound.dataMax op listed next call continues
    have host : x.host.step = .ok (x.host.withCore k).countInsn := by
      apply Cpu.step_core quiet
      rw [Core.step_of_fetch word]
      exact follows
    rw [continues, host, plain.io]
    exact ⟨_, rfl, ⟨mirrors.settle, same.emits, same.input, same.rom⟩, fun _ => quiet.withCore k⟩

end Instruction

section Run

variable {img : Image} {input : PacketInput}

def Ready (img : Image) (input : PacketInput) (last : Step × Pair) : Prop :=
  Matched img input last.2 ∧ (last.1 = .cont → last.2.host.Quiet)

theorem start_ready (sound : Sound img) (input : PacketInput) (mem : BitVec 6 → Word) :
    Matched img input (startPair img input mem) ∧ (startPair img input mem).host.Quiet := by
  have flags : (0 : Byte) &&& 0x07 = 0 := by decide
  refine ⟨⟨⟨rfl, rfl, flags, rfl, ?_, ?_, ?_⟩, rfl, rfl, rfl⟩, ⟨rfl, rfl, fun both => both.1 rfl⟩⟩
  · change 0x800 ≤ ((_ : Store Word).blit _ _).len
    rw [Store.len_blit, Store.len_blit]
    change 0x800 ≤ 0x300000
    decide
  · intro i
    change (((Cpu.new.ram.blit 0 _)).blit 0x400 img.data).cell i.toNat = mem i
    have window : ((List.range 64).map (fun i => mem (ofNat 6 i)))[i.toNat]? =
        some (mem i) := by
      rw [List.getElem?_map, List.getElem?_range i.isLt, Option.map_some, ofNat_toNat, setWidth_eq]
    rw [Store.cell_blit_of_lt _ _ (Nat.lt_of_lt_of_le i.isLt (by decide))]
    have copied : (Cpu.new.ram.blit 0 _).cell (0 + i.toNat) = mem i :=
      Store.cell_blit Cpu.new.ram (by simp [Cpu.new]) window
    rwa [Nat.zero_add] at copied
  · intro j v get
    apply Store.cell_blit _ _ get
    rw [Store.len_blit]
    have small := sound.dataMax
    change 0x400 + img.data.length ≤ 0x300000
    omega

theorem jointStep_ready (sound : Sound img) (xdp : img.stage = STAGE_XDP)
    (last next : Step × Pair) (ready : Ready img input last)
    (step : jointStep img input last = some next) : Ready img input next := by
  unfold jointStep at step
  split at step
  next continues =>
    dsimp only at step
    split at step
    next => cases step
    next fine =>
      obtain ⟨x', arm, same, quiet⟩ := ready.1.instruction (ready.2 continues) sound xdp fine
      rw [arm] at step
      cases step
      exact ⟨same, quiet⟩
  next => cases step

theorem jointStep_stops (sound : Sound img) (xdp : img.stage = STAGE_XDP) {last : Step × Pair}
    (ready : Ready img input last) (stops : jointStep img input last = none) :
    last.1 ≠ .cont ∨ ∃ k, (img.cartridge.runOne last.2.st last.2.io).result = .fault k := by
  by_cases continues : last.1 = .cont
  · right
    unfold jointStep at stops
    rw [if_pos continues] at stops
    dsimp only at stops
    cases kind : (img.cartridge.runOne last.2.st last.2.io).result.faultKind with
    | some k =>
      refine ⟨k, ?_⟩
      generalize (img.cartridge.runOne last.2.st last.2.io).result = r at kind
      cases r <;> cases kind
      rfl
    | none =>
      obtain ⟨x', arm, -, -⟩ := ready.1.instruction (ready.2 continues) sound xdp kind
      rw [kind] at stops
      rw [arm] at stops
      cases stops
  · exact Or.inl continues

theorem execute_io_or (p : Cartridge) (st : CartState) (io : RecIo) (pc w : Word) :
    (p.execute st io pc w).io = io ∨ (p.execute st io pc w).result = .cont := by
  cases op : opcode? w with
  | none =>
    unfold execute
    rw [op]
    exact Or.inl rfl
  | some o =>
    by_cases call : o = .syscall
    · subst call
      unfold execute
      rw [op]
      dsimp only [syscall]
      repeat' split
      all_goals first | exact Or.inl rfl | exact Or.inr rfl | skip
      next asked => exact Or.inl (congrArg Prod.snd asked).symm
    · exact Or.inl (execute_plain fun asks => call (Option.some.inj (op.symm.trans asks))).io

theorem runOne_fault_io {st : CartState} {io : RecIo} {k : FaultKind}
    (faults : (img.cartridge.runOne st io).result.faultKind = some k) :
    (img.cartridge.runOne st io).io = io := by
  unfold runOne at faults ⊢
  split at faults
  next spent =>
    rw [if_pos spent]
    unfold runOut
    split <;> rfl
  next left =>
    rw [if_neg left]
    unfold step at faults ⊢
    dsimp only at faults ⊢
    split at faults
    next beyond => rw [if_pos beyond]
    next within =>
      rw [if_neg within]
      cases fetch : img.cartridge.rom (st.pc.setWidth 32) with
      | none => rfl
      | some w =>
        rw [fetch] at faults
        rw [result_settle] at faults
        rw [io_settle]
        rcases execute_io_or img.cartridge (advance st) io (st.pc.setWidth 32) w with
          same | continues
        · exact same
        · rw [continues] at faults
          cases faults

theorem lockstepLoop_ok (sound : Sound img) (xdp : img.stage = STAGE_XDP) (fuel : Nat) (t : Tally)
    (same : Matched img input t.pair) (quiet : t.pair.host.Quiet) :
    ∃ t' ending, lockstepLoop img input default fuel t = .ok (t', ending) ∧
      t'.pair.hostEmits = t'.pair.io.emits := by
  induction fuel generalizing t with
  | zero => exact ⟨_, _, rfl, same.emits⟩
  | succ fuel ih =>
    unfold lockstepLoop
    dsimp only
    cases kind : (img.cartridge.runOne t.pair.st t.pair.io).result.faultKind with
    | some k =>
      refine ⟨_, _, rfl, ?_⟩
      rw [runOne_fault_io kind]
      exact same.emits
    | none =>
      obtain ⟨x', arm, same', quiet'⟩ := same.instruction quiet sound xdp kind
      rw [arm]
      have hook : default.flip t.steps x'.host = x'.host := rfl
      dsimp only
      rw [hook, same'.agree.compare]
      dsimp only
      split
      next continues => exact ih _ same' (quiet' continues)
      next => exact ⟨_, _, rfl, same'.emits⟩

theorem lockstepLoop_steps {fuel : Nat} {t t' : Tally} {ending : End}
    (ok : lockstepLoop img input default fuel t = .ok (t', ending)) :
    t.steps ≤ t'.steps := by
  induction fuel generalizing t with
  | zero =>
    cases ok
    exact Nat.le_refl _
  | succ fuel ih =>
    unfold lockstepLoop at ok
    dsimp only at ok
    split at ok
    next =>
      cases ok
      exact Nat.le_refl _
    next =>
      split at ok
      next => cases ok
      next =>
        split at ok
        next => cases ok
        next =>
          split at ok
          next => exact Nat.le_of_succ_le (ih ok)
          next =>
            cases ok
            exact Nat.le_succ _

theorem lockstepLoop_hook {opt : Options} {fuel : Nat} {t t' : Tally} {ending : End}
    (ok : lockstepLoop img input default fuel t = .ok (t', ending))
    (late : ∀ k, opt.flipHostBitAfter = some k → t'.steps ≤ k) :
    lockstepLoop img input opt fuel t = .ok (t', ending) := by
  have flip (host : Cpu) {steps : Nat} (before : steps < t'.steps) : opt.flip steps host = host := by
    apply if_neg
    intro fires
    have := late steps fires
    omega
  have idle (steps : Nat) (host : Cpu) : default.flip steps host = host := rfl
  induction fuel generalizing t with
  | zero => exact ok
  | succ fuel ih =>
    unfold lockstepLoop at ok ⊢
    dsimp only at ok ⊢
    cases kind : (img.cartridge.runOne t.pair.st t.pair.io).result.faultKind with
    | some k =>
      rwa [kind] at ok
    | none =>
      rw [kind] at ok
      dsimp only at ok ⊢
      split at ok
      next => cases ok
      next x _ =>
        rw [idle] at ok
        split at ok
        next => cases ok
        next equal =>
          by_cases continues : (img.cartridge.runOne t.pair.st t.pair.io).result = .cont
          · rw [if_pos continues] at ok
            have before : t.steps < t'.steps := lockstepLoop_steps ok
            rw [flip _ before, equal]
            rw [if_pos continues]
            exact ih ok
          · rw [if_neg continues] at ok
            have before : t.steps < t'.steps := by
              cases ok
              exact Nat.lt_succ_self _
            rw [flip _ before, equal]
            rw [if_neg continues]
            exact ok

theorem compare_flipped {st : CartState} {host : Cpu} (equal : compare st host = none) :
    ∃ d, compare st (host.setReg 1 (host.state.regs 1 ^^^ 1)) = some d := by
  have same : host.state.regs 1 = st.regs 1 := by
    unfold compare at equal
    split at equal
    next => cases equal
    next none => simpa using List.find?_eq_none.mp none 1 (by decide)
  unfold compare
  split
  next => exact ⟨_, rfl⟩
  next none =>
    have kept : host.state.regs 1 ^^^ 1 = st.regs 1 := by
      simpa [Cpu.setReg] using List.find?_eq_none.mp none 1 (by decide)
    rw [same] at kept
    have bit : st.regs 1 ^^^ st.regs 1 ^^^ 1 = st.regs 1 ^^^ st.regs 1 := by
      rw [BitVec.xor_assoc, kept]
    rw [BitVec.xor_self, BitVec.zero_xor] at bit
    exact absurd bit (by decide)

/-- A bit flipped at an instruction that is compared is reported there. -/
theorem lockstepLoop_flipped {k fuel : Nat} {t t' : Tally} {ending : End}
    (ok : lockstepLoop img input default fuel t = .ok (t', ending)) (first : t.steps ≤ k)
    (before : k < t'.steps) : ∃ d, lockstepLoop img input ⟨some k⟩ fuel t = .error d := by
  have idle (steps : Nat) (host : Cpu) : default.flip steps host = host := rfl
  induction fuel generalizing t with
  | zero =>
    cases ok
    exact absurd before (Nat.not_lt.mpr first)
  | succ fuel ih =>
    unfold lockstepLoop at ok ⊢
    dsimp only at ok ⊢
    split at ok
    next =>
      cases ok
      exact absurd before (Nat.not_lt.mpr first)
    next =>
      split at ok
      next => cases ok
      next x _ =>
        rw [idle] at ok
        split at ok
        next => cases ok
        next equal =>
          by_cases now : t.steps = k
          · obtain ⟨d, differs⟩ := compare_flipped equal
            rw [Options.flip, if_pos (congrArg some now.symm), differs]
            exact ⟨_, rfl⟩
          · rw [Options.flip, if_neg (fun h => now (Option.some.inj h).symm), equal]
            split at ok
            next continues =>
              rw [if_pos continues]
              exact ih ok (Nat.lt_of_le_of_ne first now)
            next =>
              cases ok
              exact absurd (Nat.le_antisymm first (Nat.le_of_lt_succ before)) now

end Run

/-- From any window, an accepted XDP image keeps the two engines in step until
the cartridge halts or faults, and the oracle reports a divergence exactly if its
self-test hook flips a host bit at an instruction that the run compares. -/
theorem accepted_image_keeps_lockstep {sha256 : List Byte → List Byte} {bytes : List Byte}
    {img : Image} {report : Report} (decoded : Image.decode sha256 bytes = .ok img)
    (validated : validate img = .ok report) (xdp : img.stage = STAGE_XDP) (input : PacketInput)
    (mem : BitVec 6 → Word) :
    (∀ n r x, stepN (jointStep img input) n (.cont, startPair img input mem) = some (r, x) →
      Agree x ∧ (jointStep img input (r, x) = none →
        r ≠ .cont ∨ ∃ k, (img.cartridge.runOne x.st x.io).result = .fault k)) ∧
    ∃ agreement : Agreement, ∀ opt : Options,
      ((∀ k, opt.flipHostBitAfter = some k → agreement.steps ≤ k) →
        lockstepFrom img mem input opt = .ok agreement) ∧
      ∀ k < agreement.steps, opt.flipHostBitAfter = some k →
        ∃ divergence, lockstepFrom img mem input opt = .error divergence := by
  have sound := accepted_sound decoded validated
  obtain ⟨same, quiet⟩ := start_ready sound input mem
  constructor
  · intro n r x run
    have ready := stepN_invariant (I := Ready img input) (jointStep_ready sound xdp) n
      ⟨same, fun _ => quiet⟩ run
    exact ⟨ready.1.agree, jointStep_stops sound xdp ready⟩
  · obtain ⟨t, ending, ok, emits⟩ := lockstepLoop_ok sound xdp (N_PKT + 1)
      ⟨startPair img input mem, 0, 0, 0⟩ same quiet
    refine ⟨⟨t.steps, ending, t.pair.st, t.pair.io.emits, t.memOps, t.syscalls⟩, ?_⟩
    refine fun opt => ⟨fun late => ?_, fun k before fires => ?_⟩
    · unfold lockstepFrom
      rw [lockstepLoop_hook ok late]
      exact if_neg (not_not.mpr emits)
    · obtain ⟨d, differs⟩ := lockstepLoop_flipped ok (Nat.zero_le k) before
      cases opt
      cases fires
      unfold lockstepFrom
      rw [differs]
      exact ⟨d, rfl⟩

theorem passImage_keeps_lockstep :
    ∃ agreement, lockstepWith passImage PacketInput.default default = .ok agreement := by
  obtain ⟨-, agreement, ok⟩ := accepted_image_keeps_lockstep passImage_decoded passImage_validated
    rfl PacketInput.default (fun _ => 0)
  exact ⟨agreement, (ok default).1 nofun⟩

/-- The self-test hook makes the oracle report a divergence on an accepted image. -/
theorem hooked_lockstep_diverges :
    Image.decode (fun _ => passDigest) (passImage.encode (fun _ => passDigest)) = .ok passImage ∧
      (∃ report, validate passImage = .ok report) ∧ passImage.stage = STAGE_XDP ∧
      ∃ divergence, lockstepWith passImage PacketInput.default ⟨some 0⟩ = .error divergence :=
  ⟨passImage_decoded, ⟨_, passImage_validated⟩, rfl, _, rfl⟩

end Unheaded.Cart
