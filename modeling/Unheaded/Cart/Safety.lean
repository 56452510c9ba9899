import Unheaded.Cart.Control
import Unheaded.Cart.Reference

/-!
# Validator soundness

No run of an accepted image ends in a fault that the validator is there to
exclude.
-/

namespace Unheaded.Cart

open Lib Mbc Cartridge

section

variable {ι : Type} [CartIo ι]

/-- What the validator promises of a single step. -/
structure SafeStep (img : Image) (st : CartState) (io : ι) : Prop where
  opcode : (img.cartridge.step st io).result ≠ .fault .badOpcode
  syscall : (img.cartridge.step st io).result ≠ .fault .syscall
  /-- The pc fault is a fetch past the ROM, never a branch out of it. -/
  pcFault : (img.cartridge.step st io).result = .fault .pc → img.rom.length ≤ st.pc.toNat
  /-- The next pc is the next word or a branch target inside the ROM. -/
  lands : (img.cartridge.step st io).result = .cont →
    (img.cartridge.step st io).st.pc.toNat = st.pc.toNat + 1 ∨
      (img.cartridge.step st io).st.pc.toNat < img.rom.length
  rises : img.stage = STAGE_XDP → (img.cartridge.step st io).result = .cont →
    st.pc.toNat < (img.cartridge.step st io).st.pc.toNat
  loopBound : img.stage = STAGE_XDP → (img.cartridge.step st io).result ≠ .fault .loopBound

namespace Turn

variable {img : Image} {st st' : CartState} {r : Step}

omit [CartIo ι]

theorem kind (turn : Turn img st r st') :
    r.ordinary = true ∨ r = .fault .loopBound ∧ img.stage ≠ STAGE_XDP := by
  cases turn with
  | onward ordinary => exact Or.inl ordinary
  | forward => exact Or.inl rfl
  | back => exact Or.inl rfl
  | looped tick => exact Or.inr ⟨rfl, tick⟩

theorem lands (turn : Turn img st r st') (inside : st.pc.toNat < img.rom.length)
    (continues : r = .cont) : st'.pc.toNat = st.pc.toNat + 1 ∨ st'.pc.toNat < img.rom.length := by
  cases turn with
  | onward _ next => exact Or.inl next
  | forward _ within => exact Or.inr within
  | back _ behind => exact Or.inr (Nat.lt_of_le_of_lt behind inside)
  | looped => cases continues

theorem rises (turn : Turn img st r st') (xdp : img.stage = STAGE_XDP) (continues : r = .cont) :
    st.pc.toNat < st'.pc.toNat := by
  cases turn with
  | onward _ next =>
    rw [next]
    exact Nat.lt_succ_self _
  | forward ahead => exact ahead
  | back tick => exact absurd xdp tick
  | looped => cases continues

end Turn

namespace Sound

variable {img : Image}

variable (sound : Sound img)
include sound

theorem step_outside {st : CartState} (io : ι) (outside : img.rom.length ≤ st.pc.toNat) :
    img.cartridge.step st io = ⟨.fault .pc, st.withStatus Status.DONE, io⟩ := by
  apply step_of_outside
  rw [sound.romWords]
  exact outside

theorem step_safe (st : CartState) (io : ι) : SafeStep img st io := by
  by_cases outside : img.rom.length ≤ st.pc.toNat
  · have faults : (img.cartridge.step st io).result = .fault .pc := by
      rw [sound.step_outside io outside]
    constructor
    · rw [faults]
      decide
    · rw [faults]
      decide
    · exact fun _ => outside
    · intro continues
      simp [faults] at continues
    · intro _ continues
      simp [faults] at continues
    · intro _ looped
      simp [faults] at looped
  · have inside := Nat.not_le.mp outside
    obtain ⟨turn, -⟩ := sound.step_turn st io inside
    -- A result that is not ordinary is the loop-bound fault of a tick image.
    have excluded {k : FaultKind} (extra : Step.ordinary (.fault k) = false)
        (other : k ≠ .loopBound) : (img.cartridge.step st io).result ≠ .fault k := by
      intro faults
      rcases turn.kind with ordinary | ⟨looped, -⟩
      · simp [faults, extra] at ordinary
      · rw [faults] at looped
        cases looped
        exact other rfl
    constructor
    · exact excluded rfl (by decide)
    · exact excluded rfl (by decide)
    · intro faults
      exact absurd faults (excluded rfl (by decide))
    · exact turn.lands inside
    · exact turn.rises
    · intro xdp looped
      rcases turn.kind with ordinary | ⟨-, tick⟩
      · rw [looped] at ordinary
        cases ordinary
      · exact tick xdp

theorem run_result (n : Nat) (st : CartState) (io : ι) :
    (img.cartridge.run n st io).result ≠ .fault .badOpcode ∧
      (img.cartridge.run n st io).result ≠ .fault .syscall ∧
      (img.stage = STAGE_XDP → (img.cartridge.run n st io).result ≠ .fault .loopBound) := by
  have out (st : CartState) (io : ι) : (img.cartridge.runOut st io).result = .yield ∨
        (img.cartridge.runOut st io).result = .fault .budget := by
    unfold runOut
    split
    · exact Or.inl rfl
    · exact Or.inr rfl
  refine runLoop_induct (I := fun _ _ => True) (P := fun r =>
    r.result ≠ .fault .badOpcode ∧ r.result ≠ .fault .syscall ∧
      (img.stage = STAGE_XDP → r.result ≠ .fault .loopBound)) ?_ ?_ ?_ n trivial
  · intro st io _
    rcases out st io with h | h <;> simp [h]
  · intro _ _ _ _ _
    trivial
  · intro st io _ _ _
    have safe := sound.step_safe st io
    exact ⟨safe.opcode, safe.syscall, safe.loopBound⟩

theorem run_pcFault (n : Nat) (st : CartState) (io : ι) (start : st.pc.toNat ≤ img.rom.length)
    (faults : (img.cartridge.run n st io).result = .fault .pc) :
    (img.cartridge.run n st io).st.pc.toNat = img.rom.length := by
  refine runLoop_induct (I := fun st _ => st.pc.toNat ≤ img.rom.length) (P := fun r =>
    r.result = .fault .pc → r.st.pc.toNat = img.rom.length) ?_ ?_ ?_ n start faults
  · intro st io _ h
    unfold runOut at h
    split at h <;> cases h
  · intro st io here _ continues
    rcases (sound.step_safe st io).lands continues with next | within
    · rw [next]
      apply Nat.lt_of_not_le
      intro outside
      simp [sound.step_outside io outside] at continues
    · exact Nat.le_of_lt within
  · intro st io here _ _ h
    have outside := (sound.step_safe st io).pcFault h
    rw [sound.step_outside io outside]
    exact Nat.le_antisymm here outside

theorem run_outside (n : Nat) (st : CartState) (io : ι) (outside : img.rom.length < st.pc.toNat)
    (faults : (img.cartridge.run n st io).result = .fault .pc) :
    (img.cartridge.run n st io).st.insns = 0 := by
  refine runLoop_induct
    (I := fun st _ => img.rom.length < st.pc.toNat ∧ st.insns = 0) (P := fun r =>
    r.result = .fault .pc → r.st.insns = 0) ?_ ?_ ?_ n ⟨outside, rfl⟩ faults
  · intro st io here _
    unfold runOut
    split <;> exact here.2
  · intro st io here _ continues
    simp [sound.step_outside io (Nat.le_of_lt here.1)] at continues
  · intro st io here _ _ _
    rw [sound.step_outside io (Nat.le_of_lt here.1)]
    exact here.2

theorem insns_step {st : CartState} (io : ι)
    (budget : st.insns.toNat < img.maxInsn.toNat) :
    (img.cartridge.step st io).st.insns.toNat =
      if st.pc.toNat < img.rom.length then st.insns.toNat + 1 else st.insns.toNat := by
  split
  next inside =>
    obtain ⟨-, counted⟩ := sound.step_turn st io inside
    rw [counted]
    change (st.insns.toNat + 1) % 2 ^ 32 = _
    omega
  next outside =>
    rw [sound.step_outside io (Nat.not_lt.mp outside)]
    rfl

theorem run_insns (xdp : img.stage = STAGE_XDP) (n : Nat) (st : CartState)
    (io : ι) : (img.cartridge.run n st io).st.insns.toNat ≤ img.rom.length := by
  refine runLoop_induct
    (I := fun st _ => st.insns.toNat + (img.rom.length - st.pc.toNat) ≤ img.rom.length)
    (P := fun r => r.st.insns.toNat ≤ img.rom.length) ?_ ?_ ?_ n ?_
  · intro st io here
    unfold runOut
    split <;> exact Nat.le_of_add_right_le here
  · intro st io here budget continues
    have rises := (sound.step_safe st io).rises xdp continues
    rw [sound.insns_step io budget]
    split <;> omega
  · intro st io here budget _
    rw [sound.insns_step io budget]
    split <;> omega
  · change 0 + (img.rom.length - st.pc.toNat) ≤ img.rom.length
    omega

end Sound

/-- Every step of an accepted image is safe, from any state; a run never ends
in an opcode or syscall fault, a pc fault is a fall off the end of the ROM (or
a start beyond it, where nothing runs), and a packet run executes at most
`rom_words` instructions without a loop-bound fault. -/
theorem accepted_image_runs_safely {sha256 : List Byte → List Byte} {bytes : List Byte}
    {img : Image} {report : Report} (decoded : Image.decode sha256 bytes = .ok img)
    (validated : validate img = .ok report) (n : Nat) (st : CartState) (io : ι) :
    (∀ (st : CartState) (io : ι), SafeStep img st io) ∧
      (img.cartridge.run n st io).result ≠ .fault .badOpcode ∧
      (img.cartridge.run n st io).result ≠ .fault .syscall ∧
      ((img.cartridge.run n st io).result = .fault .pc →
        st.pc.toNat ≤ img.rom.length ∧ (img.cartridge.run n st io).st.pc.toNat = img.rom.length ∨
          img.rom.length < st.pc.toNat ∧ (img.cartridge.run n st io).st.insns = 0) ∧
      (img.stage = STAGE_XDP → (img.cartridge.run n st io).st.insns.toNat ≤ img.rom.length ∧
          (img.cartridge.run n st io).result ≠ .fault .loopBound) := by
  have sound := accepted_sound decoded validated
  obtain ⟨opcode, syscall, loopBound⟩ := sound.run_result n st io
  refine ⟨sound.step_safe, opcode, syscall, ?_, ?_⟩
  · intro faults
    by_cases start : st.pc.toNat ≤ img.rom.length
    · exact Or.inl ⟨start, sound.run_pcFault n st io start faults⟩
    · have outside := Nat.not_le.mp start
      exact Or.inr ⟨outside, sound.run_outside n st io outside faults⟩
  · intro xdp
    exact ⟨sound.run_insns xdp n st io, loopBound xdp⟩

end

def passImage : Image where
  stage := STAGE_XDP
  maxInsn := 64
  entry := 0
  loopBound := 0
  flags := 0
  rom := [0x0F100004, 0x40000000, 0x0F100000, 0x40000002]
  data := []

/-- The SHA-256 of its header and ROM. -/
def passDigest : List Byte :=
  [0x32, 0x9D, 0xFB, 0xE7, 0xC3, 0xA0, 0x76, 0xC5, 0x63, 0x98, 0x7E, 0xB3, 0x96, 0x10, 0x2C, 0x53,
   0x99, 0xC8, 0x67, 0xF3, 0x50, 0x23, 0x69, 0xC1, 0x01, 0x89, 0x42, 0xBF, 0x31, 0x60, 0x36, 0xDF]

theorem passImage_decoded :
    Image.decode (fun _ => passDigest) (passImage.encode (fun _ => passDigest)) = .ok passImage := by
  rfl

theorem passImage_validated : validate passImage = .ok ⟨64, false, [Sys.FIELD, Sys.VERDICT]⟩ := by
  rfl

theorem passImage_runs_safely : (passImage.cartridge.run N_PKT CartState.zeroed
      (LogIo.mk PacketInput.default Outcome.default)).st.insns.toNat ≤ 4 :=
  ((accepted_image_runs_safely passImage_decoded passImage_validated N_PKT CartState.zeroed
    (LogIo.mk PacketInput.default Outcome.default)).2.2.2.2 rfl).1

end Unheaded.Cart
