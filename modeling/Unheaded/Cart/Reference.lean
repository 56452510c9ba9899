import Unheaded.Cart.Image

/-!
# The reference runner

`upc_cartridge::reference`: packet runs and tick jobs over an explicit input
log instead of a packet.
-/

namespace Unheaded.Cart

open Mbc Function

namespace Field

def L3_PROTO : Fin 13 := 0
def L4_PROTO : Fin 13 := 1
def SRC_PORT : Fin 13 := 2
def DST_PORT : Fin 13 := 3
def PKT_LEN : Fin 13 := 4
def IP_TTL : Fin 13 := 5
def TCP_FLAGS : Fin 13 := 6
def IAT_BUCKET : Fin 13 := 7
def FLOW_PKT_COUNT : Fin 13 := 8
def FLOW_BYTE_COUNT : Fin 13 := 9
def MONAD_PRESENT : Fin 13 := 10
def MONAD_QOS : Fin 13 := 11
def MONAD_FLAGS : Fin 13 := 12

end Field

abbrev Fields := Fin 13 → Word

/-- Everything an XDP-stage run may read. -/
structure PacketInput where
  fields : Fin 13 → Word
  nowNs : BitVec 64

def PacketInput.default : PacketInput := ⟨fun _ => 0, 0⟩

def PacketInput.len (packet : PacketInput) : Word := packet.fields Field.PKT_LEN

/-- Side effects of one run or call. -/
structure Outcome where
  step : Option Step
  emits : List (Word × Word × Word)
  queued : List Features

def Outcome.default : Outcome := ⟨none, [], []⟩

/-- `LogIo`: reads the input, appends to the outcome. -/
structure LogIo where
  input : PacketInput
  out : Outcome

instance : CartIo LogIo where
  field io id :=
    (if known : id.toNat < 13 then some (io.input.fields ⟨id.toNat, known⟩) else none, io)
  nowNsLo io := (io.input.nowNs.setWidth 32, io)
  emit io kind a b := { io with out := { io.out with emits := io.out.emits ++ [(kind, a, b)] } }
  queue io feat := { io with out := { io.out with queued := io.out.queued ++ [feat] } }

def Ran.outcome (r : Ran LogIo) : Outcome := { r.io.out with step := some r.result }

def runPacket (img : Image) (st : CartState) (input : PacketInput) : Outcome × CartState :=
  let r := img.cartridge.run N_PKT (beginRun st img.entry) (LogIo.mk input Outcome.default)
  (r.outcome, r.st)

/-- One of the conditional shifts of `iat_bucket`. -/
def iatShift (k : Nat) (v r : Nat) : Nat × Nat := if 2 ^ k ≤ v then (v >>> k, r + k) else (v, r)

/-- `iat_bucket`: the logarithm of the inter-arrival time in microseconds. -/
def iatBucket (iatNs : BitVec 64) : Word :=
  let v := iatNs.toNat / 1000 + 1
  if 2 ^ 32 ≤ v then 31
  else
    let (v, r) := iatShift 16 v 0
    let (v, r) := iatShift 8 v r
    let (v, r) := iatShift 4 v r
    let (v, r) := iatShift 2 v r
    let r := if 2 ^ 1 ≤ v then r + 1 else r
    if 31 < r then 31 else BitVec.ofNat 32 r

/-- `v` is what is left of `whole` after a shift by `r`, in `k` bits. -/
structure Shifted (whole k v r : Nat) : Prop where
  left : whole / 2 ^ r = v
  positive : 1 ≤ v
  small : v < 2 ^ k

theorem Shifted.shift {whole k v r : Nat} (shifted : Shifted whole (k + k) v r) :
    Shifted whole k (iatShift k v r).1 (iatShift k v r).2 := by
  obtain ⟨left, positive, small⟩ := shifted
  unfold iatShift
  split
  next large =>
    have width : 0 < 2 ^ k := Nat.two_pow_pos k
    constructor
    · rw [Nat.shiftRight_eq_div_pow, ← left, Nat.div_div_eq_div_mul, ← Nat.pow_add]
    · rw [Nat.shiftRight_eq_div_pow]
      exact (Nat.one_le_div_iff width).mpr large
    · rw [Nat.shiftRight_eq_div_pow]
      rw [Nat.pow_add] at small
      exact Nat.div_lt_of_lt_mul small
  next less => exact ⟨left, positive, Nat.lt_of_not_le less⟩

theorem toNat_iatBucket (iatNs : BitVec 64) :
    (iatBucket iatNs).toNat = min 31 (Nat.log2 (iatNs.toNat / 1000 + 1)) := by
  unfold iatBucket
  generalize counted : iatNs.toNat / 1000 + 1 = whole
  have nonzero : whole ≠ 0 := by omega
  dsimp only
  split
  next large =>
    have long : 32 ≤ whole.log2 := (Nat.le_log2 nonzero).mpr large
    rw [Nat.min_eq_left (by omega)]
    rfl
  next less =>
    have start : Shifted whole (16 + 16) whole 0 :=
      ⟨by rw [Nat.pow_zero, Nat.div_one], Nat.one_le_iff_ne_zero.mpr nonzero, Nat.lt_of_not_le less⟩
    have shifts := start.shift
    have shifts := shifts.shift (k := 8)
    have shifts := shifts.shift (k := 4)
    obtain ⟨left, positive, small⟩ := shifts.shift (k := 2)
    generalize iatShift 2 _ _ = last at left positive small ⊢
    have value : whole.log2 = if 2 ^ 1 ≤ last.1 then last.2 + 1 else last.2 := by
      have whole_eq := Nat.div_add_mod whole (2 ^ last.2)
      rw [left] at whole_eq
      rw [Nat.log2_eq_iff nonzero]
      have few : last.1 = 1 ∨ last.1 = 2 ∨ last.1 = 3 := by omega
      rcases few with v | v | v
      · rw [v] at whole_eq ⊢
        rw [if_neg (by decide), Nat.pow_succ]
        omega
      · rw [v] at whole_eq ⊢
        rw [if_pos (by decide)]
        omega
      · rw [v] at whole_eq ⊢
        rw [if_pos (by decide)]
        omega
    have short : whole.log2 < 32 := (Nat.log2_lt nonzero).mpr (Nat.lt_of_not_le less)
    rw [if_neg (by omega), BitVec.toNat_ofNat]
    omega
def saturatingAdd (a b : Word) : Word := if 2 ^ 32 ≤ a.toNat + b.toNat then 0xFFFFFFFF else a + b

/-- `FlowMetaSim`: the FLOW_META of one flow. -/
structure FlowMetaSim where
  lastNs : BitVec 64
  pkts : Word
  bytes : Word

namespace FlowMetaSim

def default : FlowMetaSim := ⟨0, 0, 0⟩

/-- `FlowMetaSim::packet`: the run input for the next packet of the flow. -/
def packet (sim : FlowMetaSim) (nowNs : BitVec 64) (base : Fields) : PacketInput × FlowMetaSim :=
  let len := base Field.PKT_LEN
  let (iat, sim) :=
    if sim.pkts = 0 then (0, { sim with pkts := 1, bytes := len })
    else (iatBucket (nowNs - sim.lastNs),
      { sim with pkts := saturatingAdd sim.pkts 1, bytes := saturatingAdd sim.bytes len })
  let fields := update base Field.IAT_BUCKET iat
  let fields := update fields Field.FLOW_PKT_COUNT sim.pkts
  let fields := update fields Field.FLOW_BYTE_COUNT sim.bytes
  (⟨fields, nowNs⟩, { sim with lastNs := nowNs })

/-- The inputs of the packets of a flow in order. -/
def inputs : FlowMetaSim → List (BitVec 64 × Fields) → List PacketInput
  | _, [] => []
  | sim, (nowNs, base) :: rest =>
    let (input, sim) := sim.packet nowNs base
    input :: inputs sim rest

end FlowMetaSim

def beginTickJob (img : Image) (st : CartState) (feat : Features) : CartState :=
  beginJob st img.entry feat

def runTickCall (img : Image) (st : CartState) (nowNs : BitVec 64) : Outcome × CartState :=
  let input := { PacketInput.default with nowNs := nowNs }
  let r := img.cartridge.run N_TICK st (LogIo.mk input Outcome.default)
  (r.outcome, r.st)

/-- The loop of `run_tick_job`: calls until one does not yield, at most `maxCalls`. -/
def tickCalls (img : Image) (nowNs : BitVec 64) : Nat → CartState → CartState × List Outcome
  | 0, st => (st, [])
  | maxCalls + 1, st =>
    let (o, st) := runTickCall img st nowNs
    if o.step = some .yield then
      let (st, calls) := tickCalls img nowNs maxCalls st
      (st, o :: calls)
    else (st, [o])

def runTickJob (img : Image) (feat : Features) (nowNs : BitVec 64) (maxCalls : Nat) :
    CartState × List Outcome :=
  tickCalls img nowNs maxCalls (beginTickJob img CartState.zeroed feat)

/-! ## The kernel engine -/

/-- `FaultKind as u32`. -/
def FaultKind.toCode : FaultKind → Word
  | badOpcode => 1 | mem => 2 | pc => 3 | syscall => 4 | field => 5 | verdict => 6
  | budget => 7 | loopBound => 8

def stepCode : Step → Word
  | .cont => 0
  | .verdict v => 0x100 ||| v.setWidth 32
  | .yield => 0x200
  | .halt => 0x300
  | .fault k => 0x400 ||| k.toCode

def codeStep (c : Word) : Step :=
  match (c >>> 8).toNat with
  | 1 => .verdict (c.setWidth 8)
  | 2 => .yield
  | 3 => .halt
  | 4 =>
    .fault (match (c &&& 0xFF).toNat with
      | 1 => .badOpcode
      | 2 => .mem
      | 3 => .pc
      | 4 => .syscall
      | 5 => .field
      | 6 => .verdict
      | 7 => .budget
      | _ => .loopBound)
  | _ => .cont

theorem codeStep_stepCode (s : Step) : codeStep (stepCode s) = s := by
  cases s with
  | cont | yield | halt => rfl
  | fault k => cases k <;> rfl
  | verdict v =>
    have high : ((0x100 : Word) ||| v.setWidth 32) >>> 8 = 1 := by
      ext i hi
      interval_cases i <;> simp
    have low : ((0x100 : Word) ||| v.setWidth 32).setWidth 8 = v := by
      ext i hi
      interval_cases i <;> simp
    rw [stepCode, codeStep, high, low]
    rfl

/-- `LoopCtx` without the constant parts. -/
structure LoopCtx (ι : Type) where
  st : CartState
  io : ι
  result : Word

def STEPS_PER_CB : Nat := 4

/-- `BPF_MAX_LOOPS`: the kernel refuses more iterations. -/
def BPF_MAX_LOOPS : Nat := 1 <<< 23

/-- `bpf_loop`: the callback until it returns 1, at most `n` times. -/
def bpfLoop {σ : Type} (callback : σ → σ × Bool) : Nat → σ → σ
  | 0, c => c
  | n + 1, c =>
    let (c, stop) := callback c
    if stop then c else bpfLoop callback n c

namespace Cartridge

variable {ι : Type} [CartIo ι] (p : Cartridge)

/-- `cart_loop_cb` with `k` steps left. -/
def cartLoopCb : Nat → LoopCtx ι → LoopCtx ι × Bool
  | 0, c => (c, false)
  | k + 1, c =>
    let r := p.runOne c.st c.io
    if r.result = .cont then cartLoopCb k { c with st := r.st, io := r.io }
    else (⟨r.st, r.io, stepCode r.result⟩, true)

def driveLoop (n : Nat) (st : CartState) (io : ι) : Ran ι :=
  if BPF_MAX_LOOPS < n / STEPS_PER_CB then ⟨.fault .budget, st, io⟩
  else
    let c := bpfLoop (p.cartLoopCb STEPS_PER_CB) (n / STEPS_PER_CB) ⟨st, io, 0⟩
    if codeStep c.result = .cont then p.runOut c.st c.io else ⟨codeStep c.result, c.st, c.io⟩

def drive (n : Nat) (st : CartState) (io : ι) : Ran ι := p.driveLoop n st.resetInsns io

/-- What the loop of `drive_loop` makes of a finished context. -/
def LoopCtx.ended (c : LoopCtx ι) : Ran ι := ⟨codeStep c.result, c.st, c.io⟩

theorem cartLoopCb_spec (k m : Nat) (c : LoopCtx ι) :
    (p.cartLoopCb k c).1.result = c.result ∧ (p.cartLoopCb k c).2 = false ∧
        p.runLoop (k + m) c.st c.io = p.runLoop m (p.cartLoopCb k c).1.st (p.cartLoopCb k c).1.io ∨
      (p.cartLoopCb k c).2 = true ∧ codeStep (p.cartLoopCb k c).1.result ≠ .cont ∧
        p.runLoop (k + m) c.st c.io = LoopCtx.ended (p.cartLoopCb k c).1 := by
  induction k generalizing c with
  | zero =>
    left
    rw [Nat.zero_add]
    exact ⟨rfl, rfl, rfl⟩
  | succ k ih =>
    rw [Nat.succ_add, runLoop, cartLoopCb]
    by_cases continues : (p.runOne c.st c.io).result = .cont
    · rw [if_pos continues, if_pos continues]
      exact ih { c with st := (p.runOne c.st c.io).st, io := (p.runOne c.st c.io).io }
    · rw [if_neg continues, if_neg continues]
      right
      refine ⟨rfl, ?_, ?_⟩
      · rw [codeStep_stepCode]
        exact continues
      · rw [LoopCtx.ended, codeStep_stepCode]

theorem bpfLoop_eq_runLoop (k n : Nat) (c : LoopCtx ι) (running : codeStep c.result = .cont) :
    (let last := bpfLoop (p.cartLoopCb k) n c
      if codeStep last.result = .cont then p.runOut last.st last.io else LoopCtx.ended last) =
      p.runLoop (k * n) c.st c.io := by
  induction n generalizing c with
  | zero =>
    exact if_pos running
  | succ n ih =>
    have sum : k * (n + 1) = k + k * n := by
      rw [Nat.mul_succ, Nat.add_comm]
    rw [sum]
    unfold bpfLoop
    obtain ⟨kept, goes, rest⟩ | ⟨stops, ended, rest⟩ := p.cartLoopCb_spec k (k * n) c
    · dsimp only
      rw [goes, rest]
      exact ih _ (by rw [kept]; exact running)
    · dsimp only
      rw [stops, rest, if_pos rfl, if_neg ended]

theorem drive_eq_run {n : Nat} (whole : STEPS_PER_CB ∣ n) (small : n / STEPS_PER_CB ≤ BPF_MAX_LOOPS)
    (st : CartState) (io : ι) : p.drive n st io = p.run n st io := by
  have looped := p.bpfLoop_eq_runLoop STEPS_PER_CB (n / STEPS_PER_CB) ⟨st.resetInsns, io, 0⟩
    (codeStep_stepCode .cont)
  rw [Nat.mul_div_cancel' whole] at looped
  rw [drive, run, driveLoop, if_neg (Nat.not_lt.mpr small), ← looped]
  rfl

end Cartridge

end Unheaded.Cart
