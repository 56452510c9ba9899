import Mathlib.Algebra.BigOperators.Intervals
import Unheaded.Cart.Safety

/-!
# Tick jobs: termination

Back-edges are bounded by the image and between two of them the pc only grows,
so a job spends a finite number of instructions however it is cut into calls.
-/

namespace Unheaded.Cart

open Lib Mbc BitVec

def roundsLeft (img : Image) (st : CartState) : Nat :=
  if st.backEdges.toNat ≤ img.loopBound.toNat then img.loopBound.toNat - st.backEdges.toNat
  else img.loopBound.toNat + 1

def insnsLeft (img : Image) (st : CartState) : Nat :=
  roundsLeft img st * img.rom.length + (img.rom.length - st.pc.toNat)

def Step.goesOn (r : Step) : Prop := r = .cont ∨ r = .yield

theorem roundsLeft_back {img : Image} {st st' : CartState}
    (left : st.backEdges + 1 ≤ img.loopBound.setWidth 32)
    (edges : st'.backEdges = st.backEdges + 1) : roundsLeft img st' + 1 = roundsLeft img st := by
  have one : (1 : Word).toNat = 1 := rfl
  rw [le_def, toNat_add, toNat_setWidth] at left
  unfold roundsLeft
  rw [edges, toNat_add, one]
  split <;> split <;> omega

theorem Turn.spends {img : Image} {st st' : CartState} {r : Step} (turn : Turn img st r st')
    (inside : st.pc.toNat < img.rom.length) (goes : r.goesOn) :
    insnsLeft img st' < insnsLeft img st := by
  unfold insnsLeft
  cases turn with
  | onward _ next edges =>
    have rounds : roundsLeft img st' = roundsLeft img st := by rw [roundsLeft, edges]; rfl
    rw [rounds]
    omega
  | forward ahead within edges =>
    have rounds : roundsLeft img st' = roundsLeft img st := by rw [roundsLeft, edges]; rfl
    rw [rounds]
    omega
  | back _ behind left edges =>
    have rounds := roundsLeft_back left edges
    rw [← rounds, Nat.add_mul]
    omega
  | looped => rcases goes with h | h <;> cases h

namespace Sound

variable {ι : Type} [CartIo ι] {img : Image}

theorem step_spends (sound : Sound img) (st : CartState) (io : ι)
    (budget : st.insns.toNat < img.maxInsn.toNat) : ((img.cartridge.step st io).result.goesOn →
      (img.cartridge.step st io).st.insns.toNat = st.insns.toNat + 1 ∧
        insnsLeft img (img.cartridge.step st io).st < insnsLeft img st) ∧
      (img.cartridge.step st io).st.insns.toNat ≤ st.insns.toNat + insnsLeft img st := by
  have counted := sound.insns_step io budget
  by_cases inside : st.pc.toNat < img.rom.length
  · rw [if_pos inside] at counted
    obtain ⟨turn, -⟩ := sound.step_turn st io inside
    constructor
    · intro goes
      exact ⟨counted, turn.spends inside goes⟩
    · rw [insnsLeft]
      omega
  · rw [if_neg inside] at counted
    constructor
    · intro goes
      rw [sound.step_outside io (Nat.not_lt.mp inside)] at goes
      rcases goes with h | h <;> cases h
    · omega

/-- What a call that started with `left` instructions to go may leave. -/
structure Spent (img : Image) (left : Nat) (r : Ran ι) : Prop where
  ended : r.result ≠ .cont
  progress : r.result = .yield → 1 ≤ r.st.insns.toNat
  resumed : r.result = .yield → r.st.insns.toNat + insnsLeft img r.st ≤ left
  total : r.st.insns.toNat ≤ left

theorem spent_of_step (sound : Sound img) {left : Nat} (st : CartState) (io : ι)
    (budget : st.insns.toNat < img.maxInsn.toNat) (here : st.insns.toNat + insnsLeft img st ≤ left)
    (stops : (img.cartridge.step st io).result ≠ .cont) :
    Spent img left (img.cartridge.step st io) := by
  obtain ⟨spends, total⟩ := sound.step_spends st io budget
  constructor
  · exact stops
  · intro yields
    have := (spends (Or.inr yields)).1
    omega
  · intro yields
    have := spends (Or.inr yields)
    omega
  · omega

theorem run_spent (sound : Sound img) (tick : img.stage = STAGE_TICK) (n : Nat) (st : CartState)
    (io : ι) : Spent img (insnsLeft img st) (img.cartridge.run (n + 1) st io) := by
  have start : st.resetInsns.insns.toNat + insnsLeft img st.resetInsns ≤ insnsLeft img st :=
    Nat.le_of_eq (Nat.zero_add _)
  obtain ⟨spends, -⟩ := sound.step_spends st.resetInsns io sound.maxInsnPos
  rw [Cartridge.run_succ sound.maxInsnPos]
  split
  next continues =>
    obtain ⟨counted, spent⟩ := spends (Or.inl continues)
    refine Cartridge.runLoop_induct
      (I := fun s _ => 1 ≤ s.insns.toNat ∧ s.insns.toNat + insnsLeft img s ≤ insnsLeft img st)
      ?_ ?_ ?_ n ?_
    · intro s i here
      rw [Cartridge.runOut_tick tick]
      exact ⟨nofun, fun _ => here.1, fun _ => here.2, Nat.le_of_add_right_le here.2⟩
    · intro s i here budget continues
      have := (sound.step_spends s i budget).1 (Or.inl continues)
      omega
    · intro s i here budget stops
      exact sound.spent_of_step s i budget here.2 stops
    · omega
  next stops => exact sound.spent_of_step st.resetInsns io sound.maxInsnPos start stops

theorem withMaxInsn (sound : Sound img) {budget : Half} (pos : 0 < budget.toNat) :
    Sound { img with maxInsn := budget } where
  stage := sound.stage
  romPos := sound.romPos
  romMax := sound.romMax
  dataMax := sound.dataMax
  entry := sound.entry
  maxInsnPos := pos
  loopBound := sound.loopBound
  words i w get :=
    have ok := sound.words i w get
    ⟨ok.opcode, ok.inside, ok.forward, ok.syscall⟩

end Sound

section Jobs

variable {ι : Type} [CartIo ι] (img : Image)

def jobCall (budget : Half) (st : CartState) (io : ι) : Ran ι :=
  ({ img with maxInsn := budget } : Image).cartridge.run N_TICK st io

/-- The state before call `i` of a job with the given budgets and I/O. -/
def jobState (budgets : Nat → Half) (io : Nat → ι) (st : CartState) : Nat → CartState
  | 0 => st
  | i + 1 => (jobCall img (budgets i) (jobState budgets io st i) (io i)).st

/-- Call `i` of the job. -/
def jobRan (budgets : Nat → Half) (io : Nat → ι) (st : CartState) (i : Nat) : Ran ι :=
  jobCall img (budgets i) (jobState img budgets io st i) (io i)

variable {img}

theorem jobRan_succ (budgets : Nat → Half) (io : Nat → ι) (st : CartState) (i : Nat) :
    jobRan img budgets io st (i + 1) = jobRan img (fun i => budgets (i + 1)) (fun i => io (i + 1))
        (jobRan img budgets io st 0).st i := by
  have states (i : Nat) : jobState img budgets io st (i + 1) =
      jobState img (fun i => budgets (i + 1)) (fun i => io (i + 1))
        (jobRan img budgets io st 0).st i := by
    induction i with
    | zero => rfl
    | succ i ih =>
      rw [jobState, ih]
      rfl
  rw [jobRan, states]
  rfl

theorem Sound.job_ends (sound : Sound img) (tick : img.stage = STAGE_TICK)
    (budgets : Nat → Half) (pos : ∀ i, 1 ≤ (budgets i).toNat) (io : Nat → ι) (st : CartState) :
    ∃ j, (∀ i < j, (jobRan img budgets io st i).result = .yield) ∧
      (jobRan img budgets io st j).result ≠ .yield ∧ (jobRan img budgets io st j).result ≠ .cont ∧
      ∑ i ∈ Finset.range (j + 1), (jobRan img budgets io st i).st.insns.toNat ≤
        insnsLeft img st := by
  induction bound : insnsLeft img st using Nat.strong_induction_on
    generalizing st budgets io with
  | _ left ih =>
    have spent : Sound.Spent img left (jobRan img budgets io st 0) := by
      have spent' := (sound.withMaxInsn (pos 0)).run_spent tick 255 st (io 0)
      rw [← bound]
      exact ⟨spent'.ended, spent'.progress, spent'.resumed, spent'.total⟩
    by_cases yields : (jobRan img budgets io st 0).result = .yield
    · have progress := spent.progress yields
      have resumed := spent.resumed yields
      obtain ⟨j, before, stops, ended, total⟩ := ih _ (by omega) (fun i => budgets (i + 1))
        (fun i => pos (i + 1)) (fun i => io (i + 1)) (jobRan img budgets io st 0).st rfl
      refine ⟨j + 1, ?_, ?_, ?_, ?_⟩
      · intro i small
        cases i with
        | zero => exact yields
        | succ i =>
          rw [jobRan_succ]
          exact before i (Nat.lt_of_succ_lt_succ small)
      · rw [jobRan_succ]
        exact stops
      · rw [jobRan_succ]
        exact ended
      · rw [Finset.sum_range_succ']
        simp only [jobRan_succ]
        omega
    · refine ⟨0, ?_, yields, spent.ended, ?_⟩
      · intro i small
        cases small
      · exact spent.total

end Jobs

/-- A tick job reaches an outcome other than a yield within `(L + 1) * R`
instructions, for any budgets, clocks and other inputs of its calls. -/
theorem tick_job_terminates {sha256 : List Byte → List Byte} {bytes : List Byte} {img : Image}
    {report : Report} (decoded : Image.decode sha256 bytes = .ok img)
    (validated : validate img = .ok report) (tick : img.stage = STAGE_TICK)
    {ι : Type} [CartIo ι] (budgets : Nat → Half) (positive : ∀ i, 1 ≤ (budgets i).toNat)
    (io : Nat → ι) (st : CartState) (feat : Features) :
    ∃ j, (∀ i < j, (jobRan img budgets io (beginTickJob img st feat) i).result = .yield) ∧
      (jobRan img budgets io (beginTickJob img st feat) j).result ≠ .yield ∧
      (jobRan img budgets io (beginTickJob img st feat) j).result ≠ .cont ∧
      ∑ i ∈ Finset.range (j + 1),
          (jobRan img budgets io (beginTickJob img st feat) i).st.insns.toNat ≤
        (img.loopBound.toNat + 1) * img.rom.length := by
  have sound := accepted_sound decoded validated
  obtain ⟨j, before, stops, ended, total⟩ :=
    sound.job_ends tick budgets positive io (beginTickJob img st feat)
  refine ⟨j, before, stops, ended, Nat.le_trans total ?_⟩
  -- A fresh job has taken no back-edge yet.
  have rounds : roundsLeft img (beginTickJob img st feat) = img.loopBound.toNat := by
    have fresh : (beginTickJob img st feat).backEdges.toNat = 0 := rfl
    rw [roundsLeft, fresh, if_pos (Nat.zero_le _), Nat.sub_zero]
  rw [insnsLeft, rounds, Nat.add_mul]
  omega

def countdownImage : Image where
  stage := STAGE_TICK
  maxInsn := 8
  entry := 0
  loopBound := 4
  flags := 0
  rom := [0x0F400003, 0x40000003, 0x1D40FFFF, 0x22FFFFFD, 0xFF000000]
  data := []

/-- The SHA-256 of its header and ROM. -/
def countdownDigest : List Byte :=
  [0x0D, 0x97, 0xA0, 0x7F, 0x3E, 0x58, 0x49, 0xC5, 0x76, 0x3A, 0x60, 0xA7, 0x98, 0xEF, 0xA4, 0x08,
   0x42, 0x10, 0x22, 0x2C, 0xA6, 0xE2, 0xDC, 0x68, 0xB9, 0xF4, 0xBE, 0x5D, 0xD9, 0x53, 0x6E, 0xD8]

theorem countdownImage_decoded :
    Image.decode (fun _ => countdownDigest) (countdownImage.encode (fun _ => countdownDigest)) =
      .ok countdownImage := by
  rfl

theorem countdownImage_validated : validate countdownImage = .ok ⟨8, true, [Sys.EMIT]⟩ := by
  rfl

theorem countdownImage_terminates : ∃ j, (jobRan countdownImage (fun _ => 2)
        (fun _ => LogIo.mk PacketInput.default Outcome.default)
        (beginTickJob countdownImage CartState.zeroed (fun _ => 0)) j).result ≠ .yield := by
  obtain ⟨j, -, stops, -⟩ := tick_job_terminates countdownImage_decoded countdownImage_validated
    rfl (fun _ => 2) (fun _ => by decide)
    (fun _ => LogIo.mk PacketInput.default Outcome.default) CartState.zeroed (fun _ => 0)
  exact ⟨j, stops⟩

end Unheaded.Cart
