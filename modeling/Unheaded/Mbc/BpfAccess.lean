import Unheaded.Mbc.BpfFrame

/-!
# BPF interpreter: data accesses

The loads and stores translate their address; the stack, the atomic and the interrupt instructions
use theirs as it is.
-/

namespace Unheaded.Mbc

open Lib List BitVec Function Store.Within
open BitVec (ofNat)

/-- The address of a data access: a virtual one is translated, a flat one is
used as it is. -/
inductive Access where
  | virtual (va : Word)
  | flat (addr : Word)
  deriving DecidableEq

namespace Access

def word (b : Bpf) : Access → Word
  | .virtual va => (b.translateAddress va).1 >>> 2
  | .flat addr => addr >>> 2

end Access

namespace Bpf

/-- The data accesses of one instruction. -/
def accesses (b : Bpf) (w : Word) : List Access :=
  let sp := b.state.regs REG_SP
  let rd := b.state.regs (MbcInsn.dst w)
  let rs := b.state.regs (MbcInsn.src w)
  let simm := MbcInsn.imm16Signed w
  match MbcInsn.opcode? w with
  | some .ld | some .ldb | some .ldh => [.virtual (rs + simm)]
  | some .st | some .stb | some .sth => [.virtual (rd + simm)]
  | some .push => [.flat (sp - 4)]
  | some .pop => [.flat sp]
  | some .xchg => [.flat (rs + simm)]
  | some .cas => [.flat (b.state.regs 1)]
  | some .lrW => if b.ascendLinux then [.flat rs] else []
  | some .scW => if b.ascendLinux ∧ b.state.reservationAddress = rs then [.flat rs] else []
  | some .int =>
    if (((MbcInsn.imm16 w).setWidth 32 : Word).setWidth 8 : Byte) = 0x80 then []
    else [.flat (sp - 4), .flat (sp - 4 - 4)]
  | some .iret => [.flat sp, .flat (sp + 4)]
  | _ => []

def InDiagnostics (i : Nat) : Prop := 0x38000 ≤ i ∧ i < 0x38010 ∨ 0x38400 ≤ i ∧ i < 0x38410

def MayWrite (b : Bpf) (w : Word) (i : Nat) : Prop :=
  (∃ a ∈ b.accesses w, i = (a.word b).toNat) ∨ InDiagnostics i

/-- `b'` is `b` after writes to the words of `P`. -/
structure Writes (P : Nat → Prop) (b b' : Bpf) : Prop where
  state : b'.state = b.state
  tlb : b'.tlb = b.tlb
  ram : b.ram.Within P b'.ram

namespace Writes

variable {P : Nat → Prop} {b b' b'' : Bpf}

theorem refl (P : Nat → Prop) (b : Bpf) : Writes P b b := ⟨rfl, rfl, .refl P b.ram⟩

theorem trans (first : Writes P b b') (second : Writes P b' b'') : Writes P b b'' :=
  ⟨second.state.trans first.state, second.tlb.trans first.tlb, first.ram.trans second.ram⟩

theorem memWriteWord (writes : Writes P b b') {a : Word} (inside : P a.toNat) (v : Word) :
    Writes P b (b'.memWriteWord a v) := by
  refine writes.trans ⟨state_memWriteWord b' a v, tlb_memWriteWord b' a v, ?_⟩
  rw [ram_memWriteWord]
  exact (Store.Within.refl P _).set inside v

theorem memWriteByte (writes : Writes P b b') {a : Word} (inside : P (a >>> 2).toNat) (v : Byte) :
    Writes P b (b'.memWriteByte a v) := by
  refine writes.trans ⟨state_memWriteByte b' a v, tlb_memWriteByte b' a v, ?_⟩
  rw [ram_memWriteByte]
  exact (Store.Within.refl P _).set inside _

theorem set (writes : Writes P b b') {i : Nat} (inside : P i) (v : Word) :
    Writes P b (b'.withRam (b'.ram.set i v)) :=
  writes.trans ⟨rfl, rfl, (Store.Within.refl P _).set inside v⟩

theorem foldl {ι : Type} {f : Bpf → ι → Bpf} {xs : List ι}
    (step : ∀ b, ∀ x ∈ xs, Writes P b (f b x)) (b : Bpf) : Writes P b (xs.foldl f b) := by
  induction xs generalizing b with
  | nil => exact refl P b
  | cons x xs ih =>
    have first := step b x mem_cons_self
    exact first.trans (ih (fun b y mem => step b y (mem_cons_of_mem x mem)) (f b x))

end Writes

/-- `b'` is `b`, up to a translated address and writes to the words of `P`. -/
def Touches (P : Nat → Prop) (b b' : Bpf) : Prop :=
  ∃ c : Bpf, (c = b ∨ ∃ va, c = (b.translateAddress va).2) ∧ b'.station = c.station ∧
    b'.tlb = c.tlb ∧ c.ram.Within P b'.ram

theorem Touches.same {P : Nat → Prop} {b b' : Bpf} (station : b'.station = b.station)
    (tlb : b'.tlb = b.tlb) (ram : b.ram.Within P b'.ram) : Touches P b b' :=
  ⟨b, Or.inl rfl, station, tlb, ram⟩

theorem Touches.quiet {P : Nat → Prop} {b b' : Bpf} (station : b'.station = b.station)
    (tlb : b'.tlb = b.tlb) (ram : b'.ram = b.ram) : Touches P b b' :=
  .same station tlb (by rw [ram]; exact .refl P b.ram)

section Frame

variable (b : Bpf) (a v : Word)

theorem record_within {P : Nat → Prop} {vs : List Word}
    (inside : ∀ k < vs.length, P (a + ofNat 32 k).toNat) : b.ram.Within P (b.record a vs).ram := by
  induction vs generalizing b a with
  | nil => exact .refl P b.ram
  | cons v vs ih =>
    have first : P a.toNat := by
      have zero := inside 0 (Nat.succ_pos _)
      rwa [BitVec.add_zero] at zero
    have written : b.ram.Within P (b.memWriteWord a v).ram := by
      rw [ram_memWriteWord]
      exact (refl P b.ram).set first v
    refine written.trans (ih _ _ ?_)
    intro k small
    have next := inside (k + 1) (Nat.succ_lt_succ small)
    have shift : a + ofNat 32 (k + 1) = a + 1 + ofNat 32 k := by
      rw [BitVec.add_assoc]
      congr 1
      apply eq_of_toNat_eq
      have one : (1 : Word).toNat = 1 := rfl
      rw [toNat_add, toNat_ofNat, toNat_ofNat]
      omega
    rwa [shift] at next

end Frame

section Instructions

variable (b : Bpf) {P : Nat → Prop}

theorem Touches.refl (P : Nat → Prop) (b : Bpf) : Touches P b b := .quiet rfl rfl rfl

theorem Touches.withPc {b c : Bpf} (touches : Touches P c b) (pc : Word) :
    Touches P c (b.withPc pc) := by
  obtain ⟨t, origin, station, tlb, ram⟩ := touches
  exact ⟨t, origin, (station_withPc b pc).trans station, tlb, ram⟩

theorem Touches.setReg {b c : Bpf} (touches : Touches P c b) (d : Reg) (v : Word) :
    Touches P c (b.setReg d v) := by
  obtain ⟨t, origin, station, tlb, ram⟩ := touches
  exact ⟨t, origin, (station_setReg b v d).trans station, tlb, ram⟩

variable {start v : Word} {vs : List Word}

theorem Touches.record {b c : Bpf} (touches : Touches P c b)
    (inside : ∀ k < vs.length, P (start + ofNat 32 k).toNat) : Touches P c (b.record start vs) := by
  obtain ⟨t, origin, station, tlb, ram⟩ := touches
  exact ⟨t, origin, (station_record b start vs).trans station, (tlb_record b start vs).trans tlb,
    ram.trans (record_within b start inside)⟩

theorem Touches.diag {b c : Bpf} (diagnostics : ∀ i, InDiagnostics i → P i)
    (touches : Touches P c b) (short : vs.length ≤ 16) : Touches P c (b.record DIAG_BASE vs) := by
  refine touches.record fun k small => diagnostics _ (Or.inl ?_)
  have base : DIAG_BASE.toNat = 0x38000 := rfl
  rw [toNat_add, toNat_ofNat]
  omega

theorem Touches.callLog {b c : Bpf} (diagnostics : ∀ i, InDiagnostics i → P i)
    (touches : Touches P c b) (place : start = CALLR_LOG_BASE ∨ start = CALLR_LOG_BASE + 4)
    (short : vs.length ≤ 4) : Touches P c (b.record start vs) := by
  refine touches.record fun k small => diagnostics _ (Or.inr ?_)
  have first : CALLR_LOG_BASE.toNat = 0x38400 := rfl
  have second : (CALLR_LOG_BASE + 4).toNat = 0x38404 := rfl
  rcases place with rfl | rfl
  · rw [toNat_add, toNat_ofNat]
    omega
  · rw [toNat_add, toNat_ofNat]
    omega

theorem reportRestart_touches {b c : Bpf} (diagnostics : ∀ i, InDiagnostics i → P i)
    (touches : Touches P c b) (opc : Opcode) (oldPc rvAddr : Word) :
    Touches P c (b.reportRestart opc oldPc rvAddr) := by
  unfold reportRestart
  split
  · exact touches.diag diagnostics (by simp)
  · exact touches

section

variable (diagnostics : ∀ i, InDiagnostics i → P i)
include diagnostics

theorem call_touches (w : Word) : Touches P b (b.call w) := by
  refine reportRestart_touches diagnostics ?_ _ _ _
  exact ((Touches.refl P b).setReg _ _).withPc _

theorem jmpr_touches (d : Reg) : Touches P b (b.jmpr d) := by
  refine reportRestart_touches diagnostics ?_ _ _ _
  split
  · exact (Touches.refl P b).withPc _
  · exact (Touches.refl P b).diag diagnostics (by simp)

theorem callr_touches (d : Reg) : Touches P b (b.callr d) := by
  refine reportRestart_touches diagnostics ?_ _ _ _
  have linked := (Touches.refl P b).setReg 14 (b.state.pc ||| RET_MBC_TAG)
  generalize b.setReg 14 (b.state.pc ||| RET_MBC_TAG) = l at linked ⊢
  split
  · refine Touches.withPc ?_ _
    exact (linked.callLog diagnostics (Or.inl rfl) (by simp)).callLog diagnostics (Or.inr rfl)
      (by simp)
  · refine Touches.diag diagnostics ?_ (by simp)
    exact (linked.callLog diagnostics (Or.inl rfl) (by simp)).callLog diagnostics (Or.inr rfl)
      (by simp)

theorem ret_touches : Touches P b b.ret := by
  unfold ret
  dsimp only
  split
  · exact (Touches.refl P b).withPc _
  · refine Touches.withPc ?_ _
    split
    · exact (Touches.refl P b).diag diagnostics (by simp)
    · exact .refl P b

end

theorem interruptFrame_writes (first : P ((b.state.regs REG_SP - 4) >>> 2).toNat)
    (second : P ((b.state.regs REG_SP - 4 - 4) >>> 2).toNat) :
    let b₁ := b.setReg REG_SP (b.state.regs REG_SP - 4)
    let b₂ := b₁.memWriteWord (b₁.state.regs REG_SP >>> 2) (b₁.state.flags.setWidth 32)
    let b₃ := b₂.setReg REG_SP (b₂.state.regs REG_SP - 4)
    let b₄ := b₃.memWriteWord (b₃.state.regs REG_SP >>> 2) b₃.state.pc
    b₄.station = b.station ∧ b₄.tlb = b.tlb ∧ b.ram.Within P b₄.ram := by
  intro b₁ b₂ b₃ b₄
  have top : b₁.state.regs REG_SP = b.state.regs REG_SP - 4 :=
    update_self REG_SP _ b.state.regs
  have same : b₂.state.regs REG_SP = b.state.regs REG_SP - 4 :=
    (congrArg (fun s : MbcCpuState => s.regs REG_SP) (state_memWriteWord b₁ _ _)).trans top
  have bottom : b₃.state.regs REG_SP = b.state.regs REG_SP - 4 - 4 := by
    rw [← same]
    exact update_self REG_SP _ b₂.state.regs
  refine ⟨?_, ?_, ?_⟩
  · rw [station_memWriteWord, station_setReg, station_memWriteWord, station_setReg]
  · exact (tlb_memWriteWord b₃ _ _).trans (tlb_memWriteWord b₁ _ _)
  · have one : b.ram.Within P b₂.ram := by
      rw [ram_memWriteWord]
      exact (refl P b.ram).set first _
    rw [ram_memWriteWord, bottom]
    exact one.set second _

/-- The end of an iteration that started at `b` and wrote `P` only. -/
def Iteration.Touches (P : Nat → Prop) (b : Bpf) : Iteration → Prop
  | .next b' => Bpf.Touches P b b'
  | .stop b' => b' = b.setHalted
  | .system b' => b' = b

theorem store_touches {va : Word} {b' : Bpf} (inside : P ((b.translateAddress va).1 >>> 2).toNat)
    (station : b'.station = (b.translateAddress va).2.station)
    (tlb : b'.tlb = (b.translateAddress va).2.tlb)
    (ram : b'.ram = (b.translateAddress va).2.ram.set ((b.translateAddress va).1 >>> 2).toNat v) :
    Touches P b b' := by
  refine ⟨_, Or.inr ⟨va, rfl⟩, station, tlb, ?_⟩
  rw [ram]
  exact (refl P _).set inside v

theorem write_touches {b c : Bpf} {a : Word} (inside : P a.toNat) (station : c.station = b.station)
    (tlb : c.tlb = b.tlb) (ram : c.ram = b.ram.set a.toNat v) : Touches P b c := by
  refine .same station tlb ?_
  rw [ram]
  exact (refl P _).set inside v

theorem push_touches (d : Reg) (inside : P ((b.state.regs REG_SP - 4) >>> 2).toNat) :
    Touches P b (b.push d) := by
  unfold push
  exact write_touches inside (by rw [station_memWriteWord, station_setReg])
    (tlb_memWriteWord _ _ _) (ram_memWriteWord _ _ _)

theorem exchange_touches (d s : Reg) (simm : Word)
    (inside : P ((b.state.regs s + simm) >>> 2).toNat) : Touches P b (b.exchange d s simm) :=
  (write_touches inside (station_memWriteWord b _ _) (tlb_memWriteWord b _ _)
    (ram_memWriteWord b _ _)).setReg _ _

theorem compareAndSwap_touches (inside : P (b.state.regs 1 >>> 2).toNat) :
    Touches P b b.compareAndSwap := by
  unfold compareAndSwap
  dsimp only
  split
  · exact write_touches inside (station_memWriteWord b _ _) (tlb_memWriteWord b _ _)
      (ram_memWriteWord b _ _)
  · exact .quiet rfl rfl rfl

theorem storeConditional_touches (d s : Reg) (imm : Word)
    (inside : b.state.reservationAddress = b.state.regs s → P (b.state.regs s >>> 2).toNat) :
    Touches P b (b.storeConditional d s imm) := by
  unfold storeConditional
  dsimp only
  split
  · next reserved =>
    exact write_touches (inside reserved) (station_memWriteWord b _ _) (tlb_memWriteWord b _ _)
      (ram_memWriteWord b _ _)
  · exact .quiet rfl rfl rfl

theorem executeInsn_touches (w : Word) : (b.executeInsn w).Touches (b.MayWrite w) b := by
  have diagnostics : ∀ i, InDiagnostics i → b.MayWrite w i := fun _ => Or.inr
  have accessed {a : Access} (mem : a ∈ b.accesses w) : b.MayWrite w (a.word b).toNat :=
    Or.inl ⟨a, mem, rfl⟩
  unfold accesses at accessed
  unfold executeInsn
  dsimp only at accessed ⊢
  cases op : MbcInsn.opcode? w with
  | none => exact .quiet rfl rfl rfl
  | some o =>
    rw [op] at accessed
    cases o
    case div | mod =>
      dsimp only
      split <;> exact .quiet rfl rfl rfl
    case mret | sret =>
      dsimp only
      split
      · rfl
      · exact .quiet rfl rfl rfl
    case int | iret | syscall | halt => rfl
    case push => exact push_touches b _ (accessed (mem_singleton.mpr rfl))
    case call => exact call_touches b diagnostics w
    case jmpr => exact jmpr_touches b diagnostics _
    case callr => exact callr_touches b diagnostics _
    case ret => exact ret_touches b diagnostics
    case ld | ldb | ldh => exact ⟨_, Or.inr ⟨_, rfl⟩, rfl, rfl, .refl _ _⟩
    case st =>
      exact store_touches b (accessed (mem_singleton.mpr rfl)) (station_memWriteWord _ _ _)
        (tlb_memWriteWord _ _ _) (ram_memWriteWord _ _ _)
    case stb =>
      exact store_touches b (accessed (mem_singleton.mpr rfl)) (station_memWriteByte _ _ _)
        (tlb_memWriteByte _ _ _) (ram_memWriteByte _ _ _)
    case sth =>
      exact store_touches b (accessed (mem_singleton.mpr rfl)) (station_memWriteHalf _ _ _)
        (tlb_memWriteWord _ _ _) (ram_memWriteWord _ _ _)
    case xchg => exact exchange_touches b _ _ _ (accessed (mem_singleton.mpr rfl))
    case cas => exact compareAndSwap_touches b (accessed (mem_singleton.mpr rfl))
    case lrW =>
      dsimp only
      split <;> exact .quiet rfl rfl rfl
    case scW =>
      dsimp only at accessed ⊢
      split
      · next linux =>
        refine storeConditional_touches b _ _ _ (fun reserved => ?_)
        refine @accessed (.flat _) ?_
        rw [if_pos ⟨linux, reserved⟩]
        exact mem_singleton.mpr rfl
      · exact .quiet rfl rfl rfl
    case jz | jnz | jn | jp | jc | jnc =>
      dsimp only
      refine .quiet (station_branchIf b _ _) ?_ ?_
      all_goals
        unfold branchIf
        split <;> rfl
    all_goals exact .quiet rfl rfl rfl

end Instructions

end Bpf

end Unheaded.Mbc
