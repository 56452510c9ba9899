import Unheaded.Lib.Runs
import Unheaded.Lib.Layout
import Unheaded.Mbc.Bpf

/-!
# Running code on the BPF interpreter

A program loaded into `ROM_MAP` and `RV2MBC_MAP` with the address base 0.
-/

namespace Unheaded.Mbc.Bpf

open Lib Function MbcInsn Setting
open BitVec (ofNat)

theorem trace_keeps (b : Bpf) (vs : List Byte) :
    (vs.foldl (fun b v => b.memWriteByte 0xC001 v) b).setting = b.setting ∧
      (vs.foldl (fun b v => b.memWriteByte 0xC001 v) b).state = b.state := by
  induction vs generalizing b with
  | nil => exact ⟨rfl, rfl⟩
  | cons v vs ih =>
    rw [List.foldl_cons, (ih _).1, (ih _).2]
    exact ⟨setting_memWriteByte b _ v, state_memWriteByte b _ v⟩

theorem state_tracePc (b : Bpf) : b.tracePc.state = b.state := by
  unfold tracePc
  split
  · exact (trace_keeps b _).2
  · rfl

theorem setting_tracePc (b : Bpf) :
    ∃ left, b.tracePc.setting = { b.setting with traceLeft := left } := by
  unfold tracePc
  split
  · refine ⟨b.traceLeft - 1, ?_⟩
    have kept := (trace_keeps b (traceBytes b.state.pc)).1
    rw [← kept]
    rfl
  · exact ⟨b.traceLeft, rfl⟩

def mapEntry (rv2mbc : List Word) (rvAddr : Word) : Option Word :=
  match rv2mbc[(rvAddr >>> 2).toNat]? with
  | some mbcIdx => if mbcIdx ≠ 0 then some mbcIdx else none
  | none => none

/-- The machine runs, undisturbed, with the program and its map loaded. -/
structure Loaded (rom rv2mbc : List Word) (b : Bpf) : Prop where
  romMap : ∃ entries, rom.length ≤ entries ∧ b.rom = fillMap entries rom
  addressMap : ∃ entries, rv2mbc.length ≤ entries ∧ entries ≤ RV2MBC_ENTRIES_LARGE ∧
    b.rv2mbc = fillMap entries rv2mbc
  base : b.rv2mbcBranchBase = 0
  halted : b.state.halted = 0
  interrupts : ¬ (b.state.interruptPending ≠ 0 ∧ b.state.interruptsEnabled ≠ 0)

theorem lookup_of_fillMap {b : Bpf} {entries : Nat} {rv2mbc : List Word}
    (filled : b.rv2mbc = fillMap entries rv2mbc) (fits : rv2mbc.length ≤ entries)
    (base : b.rv2mbcBranchBase = 0) (rvAddr : Word) : b.lookup rvAddr = mapEntry rv2mbc rvAddr := by
  have index : (rvAddr >>> 2) + (0 : Word) = rvAddr >>> 2 := BitVec.add_zero _
  rw [lookup, base, filled, index, mapEntry]
  cases slot : rv2mbc[(rvAddr >>> 2).toNat]? with
  | some mbcIdx => rw [get?_fillMap fits slot]
  | none =>
    -- past the program the array holds zeroes, or nothing
    by_cases inside : (rvAddr >>> 2).toNat < entries
    · rw [Store.get?_of_lt _ (by rw [fillMap]; exact inside), fillMap,
        Store.cell_ofFn _ _ inside, List.getD_eq_getElem?_getD, slot]
      rfl
    · rw [Store.get?_of_not_lt _ (by rw [fillMap]; exact inside)]

namespace Loaded

variable {rom rv2mbc : List Word} {b b' : Bpf}

theorem lookup (loaded : Loaded rom rv2mbc b) (rvAddr : Word) :
    b.lookup rvAddr = mapEntry rv2mbc rvAddr := by
  obtain ⟨entries, fits, -, filled⟩ := loaded.addressMap
  exact lookup_of_fillMap filled fits loaded.base rvAddr

theorem of_setting {left : Word} (loaded : Loaded rom rv2mbc b)
    (setting : b'.setting = { b.setting with traceLeft := left }) : Loaded rom rv2mbc b' := by
  have code : b'.rom = b.rom := congrArg Setting.rom setting
  have maps : b'.rv2mbc = b.rv2mbc := congrArg Setting.rv2mbc setting
  have feature : b'.ascendLinux = b.ascendLinux := congrArg Setting.ascendLinux setting
  have level : b'.state.privLevel = b.state.privLevel := congrArg privLevel setting
  have slice : b'.state.rv2mbcBase = b.state.rv2mbcBase := congrArg rv2mbcBase setting
  have pending : b'.state.interruptPending = b.state.interruptPending :=
    congrArg interruptPending setting
  have enabled : b'.state.interruptsEnabled = b.state.interruptsEnabled :=
    congrArg Setting.interruptsEnabled setting
  refine ⟨?_, ?_, ?_, (congrArg Setting.halted setting).trans loaded.halted, ?_⟩
  · rw [code]
    exact loaded.romMap
  · rw [maps]
    exact loaded.addressMap
  · rw [rv2mbcBranchBase, feature, level, slice]
    exact loaded.base
  · rw [pending, enabled]
    exact loaded.interrupts

theorem of_kept (loaded : Loaded rom rv2mbc b) (setting : b'.setting = b.setting) :
    Loaded rom rv2mbc b' := by
  have kept : b'.setting = { b.setting with traceLeft := b.traceLeft } := setting
  exact loaded.of_setting kept

theorem iterate?_restart (loaded : Loaded rom rv2mbc b) (zero : b.state.pc = 0)
    (late : RESTART_INSNS < b.state.insnCount.toNat) : b.iterate? = none := by
  have fetch : b.tracePc.fetch = none := by
    rw [Bpf.fetch, state_tracePc, zero, if_neg (by decide), if_pos ⟨rfl, late⟩]
  rw [iterate?, iterate, if_neg (not_not.mpr loaded.halted), dispatchInterrupt,
    if_neg loaded.interrupts]
  dsimp only
  rw [fetch]

end Loaded

/-- The machine stands at position `pos` and will not take it for a restart. -/
structure At (rom rv2mbc : List Word) (regs : Reg → Word) (pos : Nat) (b : Bpf) : Prop where
  loaded : Loaded rom rv2mbc b
  regs : b.state.regs = regs
  pc : b.state.pc = ofNat 32 pos
  noRestart : ¬ (pos = 0 ∧ RESTART_INSNS < b.state.insnCount.toNat)

/-- The registers and the pc a word leaves, whatever else the machine holds. -/
def Effect (w : Word) (b : Bpf) (regs : Reg → Word) (pc : Word) : Prop :=
  ∃ b', b.executeInsn w = .next b' ∧ b.Jumps regs pc b'

section Steps

variable {rom rv2mbc : List Word} {regs regs' : Reg → Word} {pos : Nat} {b : Bpf} {w pc : Word}

def fetched (b : Bpf) : Bpf := b.tracePc.withPc (b.state.pc + 1)

theorem At.fetched (here : At rom rv2mbc regs pos b) :
    Loaded rom rv2mbc b.fetched ∧ b.fetched.state.regs = regs ∧
      b.fetched.state.pc = ofNat 32 (pos + 1) := by
  obtain ⟨left, traced⟩ := setting_tracePc b
  refine ⟨here.loaded.of_setting traced, ?_, ?_⟩
  · change b.tracePc.state.regs = regs
    rw [state_tracePc, here.regs]
  · change b.state.pc + 1 = _
    rw [here.pc, BitVec.ofNat_add]
    rfl

theorem At.iterate (here : At rom rv2mbc regs pos b) (code : rom[pos]? = some w)
    (fits : rom.length ≤ ROM_MAP_WORDS_DEFAULT) (effect : Effect w b.fetched regs' pc) :
    ∃ b', b.iterate? = some b' ∧ Loaded rom rv2mbc b' ∧ b'.state.regs = regs' ∧
      b'.state.pc = pc := by
  obtain ⟨b', executed, jumps⟩ := effect
  have inside := (List.getElem?_eq_some_iff.mp code).1
  have index : b.state.pc.toNat = pos := by
    rw [here.pc, BitVec.toNat_ofNat, Nat.mod_eq_of_lt]
    exact Nat.lt_of_lt_of_le inside (Nat.le_trans fits (by decide))
  have fetch : b.tracePc.fetch = some w := by
    obtain ⟨left, traced⟩ := setting_tracePc b
    obtain ⟨entries, room, filled⟩ := here.loaded.romMap
    have romKept : b.tracePc.rom = b.rom := congrArg Setting.rom traced
    have zero : b.state.pc = 0 → pos = 0 := by
      intro h
      rw [← index, h]
      rfl
    rw [Bpf.fetch, state_tracePc, romKept, index, if_neg (Nat.not_le.mpr (by omega)),
      if_neg (fun both => here.noRestart ⟨zero both.1, both.2⟩), filled]
    exact get?_fillMap room code
  have executed' : (b.tracePc.withPc (b.tracePc.state.pc + 1)).executeInsn w = .next b' := by
    rw [state_tracePc]
    exact executed
  refine ⟨b'.countInsn, ?_, (here.fetched.1.of_kept jumps.setting), jumps.regs, jumps.pc⟩
  rw [iterate?, Bpf.iterate, if_neg (not_not.mpr here.loaded.halted), dispatchInterrupt,
    if_neg here.loaded.interrupts]
  dsimp only
  rw [fetch]
  dsimp only
  rw [executed']

def Straight (w : Word) (f : (Reg → Word) → Reg → Word) : Prop :=
  ∀ b : Bpf, Effect w b (f b.state.regs) b.state.pc

/-- A list of such words. -/
inductive StraightLine : List Word → ((Reg → Word) → Reg → Word) → Prop
  | nil : StraightLine [] id
  | cons {w : Word} {ws : List Word} {f g : (Reg → Word) → Reg → Word} (first : Straight w f)
      (rest : StraightLine ws g) : StraightLine (w :: ws) (fun regs => g (f regs))

theorem StraightLine.single {w : Word} {f : (Reg → Word) → Reg → Word} (word : Straight w f) :
    StraightLine [w] f := by
  have line := StraightLine.cons word StraightLine.nil
  exact line

theorem StraightLine.append {ws vs : List Word} {f g : (Reg → Word) → Reg → Word}
    (first : StraightLine ws f) (second : StraightLine vs g) :
    StraightLine (ws ++ vs) (fun regs => g (f regs)) := by
  induction first with
  | nil => exact second
  | cons word _ ih =>
    have joined := StraightLine.cons word ih
    exact joined

theorem straight_movi (d s : Reg) (i : Half) : Straight (encode Opcode.movi.toByte d s i)
      (fun regs => update regs d (i.setWidth 32)) := by
  intro b
  refine ⟨b.setReg d (i.setWidth 32), ?_, rfl, rfl, rfl⟩
  rw [executeInsn, opcode?_encode, dst_encode, imm16_encode]

theorem straight_mov (d s : Reg) (i : Half) : Straight (encode Opcode.mov.toByte d s i)
      (fun regs => update regs d (regs s)) := by
  intro b
  refine ⟨b.setReg d (b.state.regs s), ?_, rfl, rfl, rfl⟩
  rw [executeInsn, opcode?_encode, dst_encode, src_encode]

theorem straight_add (d s : Reg) (i : Half) : Straight (encode Opcode.add.toByte d s i)
      (fun regs => update regs d (regs d + regs s)) := by
  intro b
  refine ⟨b.setResult d (b.state.regs d + b.state.regs s) (addCarry (b.state.regs d)
    (b.state.regs s)), ?_, rfl, rfl, rfl⟩
  rw [executeInsn, opcode?_encode, dst_encode, src_encode]

/-- The link `CALLR` writes at position `pos`. -/
def linkAt (pos : Nat) : Word := ofNat 32 (pos + 1) ||| RET_MBC_TAG

theorem At.jmpr (here : At rom rv2mbc regs pos b) (d s : Reg) (i : Half) :
    Effect (encode Opcode.jmpr.toByte d s i) b.fetched regs
      ((mapEntry rv2mbc (regs d)).getD (ofNat 32 (pos + 1))) := by
  obtain ⟨loaded, sameRegs, samePc⟩ := here.fetched
  refine ⟨b.fetched.jmpr d, ?_, ?_⟩
  · rw [executeInsn, opcode?_encode, dst_encode]
  · have jumps := jmpr_jumps b.fetched d
    rwa [landing, loaded.lookup, sameRegs, samePc] at jumps

theorem At.callr (here : At rom rv2mbc regs pos b) (d s : Reg) (i : Half) :
    Effect (encode Opcode.callr.toByte d s i) b.fetched (update regs 14 (linkAt pos))
      ((mapEntry rv2mbc (update regs 14 (linkAt pos) d)).getD (ofNat 32 (pos + 1))) := by
  obtain ⟨loaded, sameRegs, samePc⟩ := here.fetched
  refine ⟨b.fetched.callr d, ?_, ?_⟩
  · rw [executeInsn, opcode?_encode, dst_encode]
  · have jumps := callr_jumps b.fetched d
    rwa [landing, loaded.lookup, linked, sameRegs, samePc] at jumps

theorem At.ret (here : At rom rv2mbc regs pos b) (untagged : regs 14 &&& RET_MBC_TAG = 0)
    (d s : Reg) (i : Half) : Effect (encode Opcode.ret.toByte d s i) b.fetched regs
      ((mapEntry rv2mbc (regs 14)).getD (regs 14)) := by
  obtain ⟨loaded, sameRegs, -⟩ := here.fetched
  refine ⟨b.fetched.ret, ?_, ?_⟩
  · rw [executeInsn, opcode?_encode]
  · have jumps := ret_jumps b.fetched
    rwa [returnPc, sameRegs, if_neg (not_not.mpr untagged), loaded.lookup] at jumps

def Inside (p q : Nat) (b : Bpf) : Prop := p < b.state.pc.toNat ∧ b.state.pc.toNat < q

/-- The machine runs through the block and leaves it with these registers. -/
def Exits (p q : Nat) (b : Bpf) (regs : Reg → Word) (pc : Word) : Prop :=
  ∃ b', Leaves iterate? (Inside p q) b b' ∧ b'.state.regs = regs ∧ b'.state.pc = pc

variable {p q : Nat} {f : (Reg → Word) → Reg → Word} {ws : List Word}

section

variable (here : At rom rv2mbc regs pos b) (code : rom[pos]? = some w)
  (fits : rom.length ≤ ROM_MAP_WORDS_DEFAULT)
include here code fits

theorem At.exits_jump (effect : Effect w b.fetched regs' pc)
    (outside : ¬ (p < pc.toNat ∧ pc.toNat < q)) : Exits p q b regs' pc := by
  obtain ⟨b', iterated, -, sameRegs, samePc⟩ := here.iterate code fits effect
  refine ⟨b', Leaves.last iterated ?_, sameRegs, samePc⟩
  rw [Inside, samePc]
  exact outside

theorem At.exits_more (effect : Effect w b.fetched regs' (ofNat 32 (pos + 1))) (after : p ≤ pos)
    (before : pos + 1 < q) {out : Reg → Word}
    (rest : ∀ b', At rom rv2mbc regs' (pos + 1) b' → Exits p q b' out pc) : Exits p q b out pc := by
  obtain ⟨b', iterated, loaded, sameRegs, samePc⟩ := here.iterate code fits effect
  have inside := (List.getElem?_eq_some_iff.mp code).1
  have next : b'.state.pc.toNat = pos + 1 := by
    rw [samePc]
    apply Nat.mod_eq_of_lt
    have bound : ROM_MAP_WORDS_DEFAULT < 2 ^ 32 - 1 := by decide
    omega
  obtain ⟨b'', leaves, out⟩ := rest b' ⟨loaded, sameRegs, samePc, by omega⟩
  refine ⟨b'', Leaves.more iterated ?_ leaves, out⟩
  rw [Inside]
  omega

end

theorem At.exits_line (here : At rom rv2mbc regs pos b) (code : Seg rom pos ws)
    (fits : rom.length ≤ ROM_MAP_WORDS_DEFAULT) (line : StraightLine ws f) (after : p ≤ pos)
    (before : pos + ws.length < q) {out : Reg → Word}
    (rest : ∀ b', At rom rv2mbc (f regs) (pos + ws.length) b' → Exits p q b' out pc) :
    Exits p q b out pc := by
  induction line generalizing regs pos b with
  | nil => exact rest b here
  | cons first _ ih =>
    obtain ⟨head, tail⟩ := code
    rw [List.length_cons] at before rest
    have effect := first b.fetched
    rw [here.fetched.2.1, here.fetched.2.2] at effect
    refine here.exits_more head fits effect after (by omega) (fun b' there => ?_)
    refine ih there tail (by omega) (by omega) (fun b'' last => ?_)
    rw [Nat.add_assoc, Nat.add_comm 1] at last
    exact rest b'' last

theorem Exits.unique {regs regs' : Reg → Word} {pc pc' : Word} (first : Exits p q b regs pc)
    (second : Exits p q b regs' pc') : regs = regs' ∧ pc = pc' := by
  obtain ⟨b₁, leaves₁, rfl, rfl⟩ := first
  obtain ⟨b₂, leaves₂, rfl, rfl⟩ := second
  cases leaves₁.unique leaves₂
  exact ⟨rfl, rfl⟩

end Steps

end Unheaded.Mbc.Bpf
