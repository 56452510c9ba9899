import Unheaded.Net.Hop

/-!
# What a hop does to a packet

The effect that is stated of a hop on a packet past its guards, and when the program has it.
-/

namespace Unheaded.Net

open Mbc Lib

def circuitTrips (threshold : Nat) (errors : Option Word) : Bool :=
  decide (0 < threshold) && errors.any fun count => decide (threshold ≤ count.toNat)

def sampleSelects (divisor : Nat) (flowLabel : Word) : Bool :=
  decide (divisor = 0) || decide (flowLabel.toNat % divisor = 0)

/-- The flags after the flow action. -/
def actedFlags (divisor : Nat) (flowLabel : Word) (m : Monad) : Byte :=
  if m.flowAction = FlowAction.TRACE then m.flags ||| Flags.TRACED
  else if m.flowAction = FlowAction.SAMPLE then
    if sampleSelects divisor flowLabel then m.flags ||| Flags.SAMPLED else m.flags
  else if m.flowAction = FlowAction.MIRROR then m.flags ||| Flags.MIRROR
  else m.flags

/-- The received Monad with the fields a hop changes, but for the checksum. -/
def statedFields (threshold divisor : Nat) (errors : Option Word) (flowLabel : Word) (m : Monad) :
    Monad :=
  { m with
    hopCount := BitVec.ofNat 8 (min (m.hopCount.toNat + 1) 255)
    circuitState := if circuitTrips threshold errors then CircuitState.OPEN else m.circuitState
    flags := actedFlags divisor flowLabel m }

/-- The Monad a packet is to leave with. -/
structure StatedMonad (threshold divisor : Nat) (errors : Option Word) (flowLabel : Word)
    (m m' : Monad) : Prop where
  fields : { m' with checksum := m.checksum } = statedFields threshold divisor errors flowLabel m
  custom : m.hasFlag Flags.CUSTOM = true → m'.checksum = m.checksum
  plain : m.hasFlag Flags.CUSTOM = false → m'.verifyChecksum = true

/-- A frame with Monad `m` at `off` that passes all guards of the program. -/
structure PassesGuards (maps : HopMaps) (bootNs : BitVec 64) (f : Frame) (off : Nat) (m : Monad) :
    Prop extends ReachesChecks maps f off m where
  checks : runChecks maps bootNs m f.src = false

/-- The effect stated of a hop. -/
structure StatedEffect (maps : HopMaps) (bootNs : BitVec 64) (f : Frame) (off : Nat) (m : Monad) :
    Prop where
  dropped : (hopXdp maps bootNs f).1 = .drop ↔
    m.flowAction = FlowAction.DROP ∨ settingRejected maps (f.flowLabel >>> 8) m = true ∨
      inShutdown maps (f.flowLabel >>> 8) = true
  leaves : (hopXdp maps bootNs f).1 ≠ .drop → ∃ m', monadOf (hopXdp maps bootNs f).2.1 = some m' ∧
      StatedMonad (maps.cfg CFG_CIRCUIT_THRESHOLD).toNat (maps.cfg CFG_SAMPLE_DIVISOR).toNat
        (maps.circuitErrors (flowId m)) f.flowLabel m m'
  length : (hopXdp maps bootNs f).2.1.length = f.length
  others : ∀ i, i < off ∨ off + MONAD_SIZE ≤ i → (hopXdp maps bootNs f).2.1[i]? = f[i]?

section Computed

variable (maps : HopMaps) (m : Monad) (flowLabel : Word)

theorem enforceCircuit_eq : enforceCircuit maps m = { m with
        circuitState := if circuitTrips ((maps.cfg CFG_CIRCUIT_THRESHOLD).toNat % 2 ^ 32)
            (maps.circuitErrors (flowId m)) then CircuitState.OPEN else m.circuitState } := by
  unfold enforceCircuit circuitTrips
  dsimp only
  rw [BitVec.toNat_setWidth]
  split
  next pos =>
    rw [decide_eq_true pos, Bool.true_and]
    cases maps.circuitErrors (flowId m) with
    | none => rfl
    | some errors =>
      dsimp only
      rw [Option.any_some]
      by_cases reached : (maps.cfg CFG_CIRCUIT_THRESHOLD).toNat % 2 ^ 32 ≤ errors.toNat
      · rw [if_pos reached, decide_eq_true reached, if_pos rfl]
      · rw [if_neg reached, decide_eq_false reached, if_neg Bool.false_ne_true]
  next off => rw [decide_eq_false off, Bool.false_and, if_neg Bool.false_ne_true]

theorem applyFlowAction_eq : applyFlowAction maps m flowLabel =
      ({ m with flags := actedFlags ((maps.cfg CFG_SAMPLE_DIVISOR).toNat % 2 ^ 32) flowLabel m },
        false) := by
  unfold applyFlowAction actedFlags sampleSelects
  dsimp only
  rw [BitVec.toNat_setWidth]
  split
  · rfl
  · split
    · by_cases selected : (maps.cfg CFG_SAMPLE_DIVISOR).toNat % 2 ^ 32 = 0 ∨
          flowLabel.toNat % ((maps.cfg CFG_SAMPLE_DIVISOR).toNat % 2 ^ 32) = 0
      · have chosen : (decide ((maps.cfg CFG_SAMPLE_DIVISOR).toNat % 2 ^ 32 = 0) ||
            decide (flowLabel.toNat % ((maps.cfg CFG_SAMPLE_DIVISOR).toNat % 2 ^ 32) = 0)) = true := by
          simpa using selected
        rw [if_pos selected, chosen]
        rfl
      · have skipped : (decide ((maps.cfg CFG_SAMPLE_DIVISOR).toNat % 2 ^ 32 = 0) ||
            decide (flowLabel.toNat % ((maps.cfg CFG_SAMPLE_DIVISOR).toNat % 2 ^ 32) = 0)) = false := by
          simpa using selected
        rw [if_neg selected, skipped, if_neg Bool.false_ne_true]
    · split
      · rfl
      · split
        · rfl
        · rfl

theorem incrementHop_eq :
    m.incrementHop = { m with hopCount := BitVec.ofNat 8 (min (m.hopCount.toNat + 1) 255) } := by
  have count : ∀ b : Byte,
      (if b = 0xFF then (0xFF : Byte) else b + 1) = BitVec.ofNat 8 (min (b.toNat + 1) 255) := by
    decide
  rw [Monad.incrementHop, count]

theorem actedFlags_custom (divisor : Nat) :
    actedFlags divisor flowLabel m &&& Flags.CUSTOM = m.flags &&& Flags.CUSTOM := by
  have kept : ∀ b : Byte, (b ||| Flags.TRACED) &&& Flags.CUSTOM = b &&& Flags.CUSTOM ∧
      (b ||| Flags.SAMPLED) &&& Flags.CUSTOM = b &&& Flags.CUSTOM ∧
      (b ||| Flags.MIRROR) &&& Flags.CUSTOM = b &&& Flags.CUSTOM := by decide
  obtain ⟨traced, sampled, mirror⟩ := kept m.flags
  unfold actedFlags
  split
  · exact traced
  · split
    · split
      · exact sampled
      · rfl
    · split
      · exact mirror
      · rfl

theorem processMonad_stated : StatedMonad ((maps.cfg CFG_CIRCUIT_THRESHOLD).toNat % 2 ^ 32)
        ((maps.cfg CFG_SAMPLE_DIVISOR).toNat % 2 ^ 32) (maps.circuitErrors (flowId m)) flowLabel m
        (processMonad maps m flowLabel).1 ∧ (processMonad maps m flowLabel).2 = false := by
  have acted : applyFlowAction maps (enforceCircuit maps m).incrementHop flowLabel =
      (statedFields ((maps.cfg CFG_CIRCUIT_THRESHOLD).toNat % 2 ^ 32)
        ((maps.cfg CFG_SAMPLE_DIVISOR).toNat % 2 ^ 32) (maps.circuitErrors (flowId m)) flowLabel m,
        false) := by
    rw [enforceCircuit_eq, incrementHop_eq, applyFlowAction_eq]
    rfl
  have flag : (statedFields ((maps.cfg CFG_CIRCUIT_THRESHOLD).toNat % 2 ^ 32)
      ((maps.cfg CFG_SAMPLE_DIVISOR).toNat % 2 ^ 32) (maps.circuitErrors (flowId m)) flowLabel
      m).hasFlag Flags.CUSTOM = m.hasFlag Flags.CUSTOM :=
    congrArg (fun b => b != 0) (actedFlags_custom m flowLabel _)
  unfold processMonad
  dsimp only
  rw [acted]
  rw [flag]
  refine ⟨?_, rfl⟩
  cases custom : m.hasFlag Flags.CUSTOM with
  | true => exact ⟨rfl, fun _ => rfl, fun plain => absurd (custom.symm.trans plain) (by decide)⟩
  | false =>
    exact ⟨rfl, fun set => absurd (custom.symm.trans set) (by decide),
      fun _ => Monad.verifyChecksum_recomputeChecksum _⟩

end Computed

/-- The halves of the configured values decide as the whole values do, or it does not show. -/
structure HalvesSuffice (maps : HopMaps) (flowLabel : Word) (m : Monad) : Prop where
  circuit : circuitTrips ((maps.cfg CFG_CIRCUIT_THRESHOLD).toNat % 2 ^ 32)
      (maps.circuitErrors (flowId m)) =
    circuitTrips (maps.cfg CFG_CIRCUIT_THRESHOLD).toNat (maps.circuitErrors (flowId m)) ∨
      m.circuitState = CircuitState.OPEN
  sample : m.flowAction = FlowAction.SAMPLE →
    sampleSelects ((maps.cfg CFG_SAMPLE_DIVISOR).toNat % 2 ^ 32) flowLabel =
      sampleSelects (maps.cfg CFG_SAMPLE_DIVISOR).toNat flowLabel ∨
      m.hasFlag Flags.SAMPLED = true

theorem opened_inj {state : Byte} {a b : Bool} :
    (if a then CircuitState.OPEN else state) = (if b then CircuitState.OPEN else state) ↔
      a = b ∨ state = CircuitState.OPEN := by
  cases a with
  | true =>
    cases b with
    | true => simp
    | false => simp [eq_comm]
  | false =>
    cases b with
    | true => simp
    | false => simp

theorem sampled_inj {flags : Byte} {a b : Bool} :
    (if a then flags ||| Flags.SAMPLED else flags) = (if b then flags ||| Flags.SAMPLED else flags) ↔
      a = b ∨ (flags &&& Flags.SAMPLED != 0) = true := by
  have absorbed : ∀ x : Byte, x ||| Flags.SAMPLED = x ↔ (x &&& Flags.SAMPLED != 0) = true := by
    decide
  cases a with
  | true =>
    cases b with
    | true => simp
    | false =>
      rw [if_pos rfl, if_neg Bool.false_ne_true, absorbed]
      simp
  | false =>
    cases b with
    | true =>
      rw [if_pos rfl, if_neg Bool.false_ne_true, eq_comm, absorbed]
      simp
    | false => simp

variable {m : Monad}

theorem actedFlags_inj {flowLabel : Word} {d e : Nat} :
    actedFlags d flowLabel m = actedFlags e flowLabel m ↔ (m.flowAction = FlowAction.SAMPLE →
        sampleSelects d flowLabel = sampleSelects e flowLabel ∨ m.hasFlag Flags.SAMPLED = true) := by
  unfold actedFlags
  by_cases sample : m.flowAction = FlowAction.SAMPLE
  · have notTrace : m.flowAction ≠ FlowAction.TRACE := by
      rw [sample]
      decide
    rw [if_neg notTrace, if_neg notTrace, if_pos sample, if_pos sample, sampled_inj]
    exact ⟨fun same _ => same, fun same => same sample⟩
  · rw [if_neg sample, if_neg sample]
    exact ⟨fun _ chosen => absurd chosen sample, fun _ => rfl⟩

theorem statedMonad_iff_halvesSuffice (maps : HopMaps) (m : Monad) (flowLabel : Word) :
    StatedMonad (maps.cfg CFG_CIRCUIT_THRESHOLD).toNat (maps.cfg CFG_SAMPLE_DIVISOR).toNat
        (maps.circuitErrors (flowId m)) flowLabel m (processMonad maps m flowLabel).1 ↔
      HalvesSuffice maps flowLabel m := by
  obtain ⟨computed, -⟩ := processMonad_stated maps m flowLabel
  constructor
  · intro stated
    have same := computed.fields.symm.trans stated.fields
    exact ⟨opened_inj.mp (congrArg Monad.circuitState same),
      actedFlags_inj.mp (congrArg Monad.flags same)⟩
  · rintro ⟨circuit, sample⟩
    refine ⟨?_, computed.custom, computed.plain⟩
    rw [computed.fields]
    unfold statedFields
    rw [opened_inj.mpr circuit, actedFlags_inj.mpr sample]

variable {maps : HopMaps}

theorem hopXdp_of_passesGuards {bootNs : BitVec 64} {f : Frame} {off : Nat}
    (guards : PassesGuards maps bootNs f off m) :
    hopXdp maps bootNs f = processPacket maps f off m := by
  rw [hopXdp_of_reachesChecks guards.toReachesChecks, guards.checks, if_neg Bool.false_ne_true]

theorem processPacket_cases {f : Frame} {off : Nat} (fits : off + MONAD_SIZE ≤ f.length) :
    ((settingRejected maps (f.flowLabel >>> 8) m = true ∨
        inShutdown maps (f.flowLabel >>> 8) = true) ∧
      (processPacket maps f off m).1 = .drop ∧ (processPacket maps f off m).2.1 = f) ∨
    ((settingRejected maps (f.flowLabel >>> 8) m = false ∧
        inShutdown maps (f.flowLabel >>> 8) = false) ∧ (processPacket maps f off m).1 = .pass ∧
      (processPacket maps f off m).2.1 =
        writeFrom f off (processMonad maps m f.flowLabel).1.toBytes) := by
  unfold processPacket
  dsimp only
  cases rejected : settingRejected maps (f.flowLabel >>> 8) m with
  | true =>
    exact .inl ⟨.inl rfl, rfl, rfl⟩
  | false =>
    rw [if_neg Bool.false_ne_true]
    cases shutdown : inShutdown maps (f.flowLabel >>> 8) with
    | true =>
      exact .inl ⟨.inr rfl, rfl, rfl⟩
    | false =>
      rw [if_neg Bool.false_ne_true, writeMonadToPkt_of_fits fits]
      dsimp only
      rw [(processMonad_stated maps m f.flowLabel).2]
      exact .inr ⟨⟨rfl, rfl⟩, rfl, rfl⟩

/-- A hop has the stated effect on a packet past its guards exactly where it drops the packet for
its setting or its namespace, or where the flow action is not `DROP` and the halves of the
configured threshold and divisor suffice. -/
theorem hop_effect_iff {maps : HopMaps} {bootNs : BitVec 64} {f : Frame} {off : Nat} {m : Monad}
    (guards : PassesGuards maps bootNs f off m) :
    StatedEffect maps bootNs f off m ↔ (settingRejected maps (f.flowLabel >>> 8) m = true ∨
        inShutdown maps (f.flowLabel >>> 8) = true) ∨
      (m.flowAction ≠ FlowAction.DROP ∧ HalvesSuffice maps f.flowLabel m) := by
  have whole := hopXdp_of_passesGuards guards
  have fits := guards.carries.fits
  rcases processPacket_cases fits with ⟨stops, drop, same⟩ | ⟨⟨open_, up⟩, pass, written⟩
  · refine ⟨fun _ => .inl stops, fun _ => ?_⟩
    rw [← whole] at drop same
    exact {
      dropped := ⟨fun _ => .inr stops, fun _ => drop⟩
      leaves := fun left => absurd drop left
      length := congrArg List.length same
      others := fun i _ => congrArg (fun g : Frame => g[i]?) same }
  · rw [← whole] at pass written
    have sent : (hopXdp maps bootNs f).1 ≠ .drop := by
      rw [pass]
      decide
    obtain ⟨-, carried⟩ := guards.carries.write (processMonad maps m f.flowLabel).1
    rw [← written] at carried
    constructor
    · intro effect
      refine .inr ⟨fun action => sent (effect.dropped.mpr (.inl action)), ?_⟩
      obtain ⟨m', found, stated⟩ := effect.leaves sent
      cases carried.symm.trans found
      exact (statedMonad_iff_halvesSuffice maps m f.flowLabel).mp stated
    · rintro ((rejected | shutdown) | ⟨action, halves⟩)
      · exact absurd (rejected.symm.trans open_) (by decide)
      · exact absurd (shutdown.symm.trans up) (by decide)
      · exact {
          dropped := by
            refine ⟨fun drop => absurd drop sent, ?_⟩
            rintro (drop | rejected | shutdown)
            · exact absurd drop action
            · exact absurd (rejected.symm.trans open_) (by decide)
            · exact absurd (shutdown.symm.trans up) (by decide)
          leaves := fun _ =>
            ⟨_, carried, (statedMonad_iff_halvesSuffice maps m f.flowLabel).mpr halves⟩
          length := by rw [written, length_writeFrom]
          others := fun i outside => by
            rw [written]
            exact getElem?_writeFrom_of_outside f outside }

/-- A hop with nothing configured. -/
def bareMaps : HopMaps where
  config _ := none
  circuitErrors _ := none
  seqCounters _ := none
  settings _ := none
  dosState _ := none
  hopValidators _ := none
  hmacKeys _ := none
  retryTokens _ := none

def dropMonad : Monad := { Monad.new with flowAction := FlowAction.DROP }.recomputeChecksum

theorem passesGuards_dropMonad : PassesGuards bareMaps 0 (frameOf dropMonad) 58 dropMonad where
  carries := carries_frameOf dropMonad
  monad := monadOf_frameOf dropMonad
  checksum := by decide +kernel
  chaos := by decide
  hopLimit := by decide
  checks := rfl

theorem hop_effect_iff_drop : StatedEffect bareMaps 0 (frameOf dropMonad) 58 dropMonad ↔
      (settingRejected bareMaps ((frameOf dropMonad).flowLabel >>> 8) dropMonad = true ∨
        inShutdown bareMaps ((frameOf dropMonad).flowLabel >>> 8) = true) ∨
      (dropMonad.flowAction ≠ FlowAction.DROP ∧
        HalvesSuffice bareMaps (frameOf dropMonad).flowLabel dropMonad) :=
  hop_effect_iff passesGuards_dropMonad

/-- The packet is passed although its flow action is `DROP`. -/
theorem drop_action_passed : PassesGuards bareMaps 0 (frameOf dropMonad) 58 dropMonad ∧
      dropMonad.flowAction = FlowAction.DROP ∧ (hopXdp bareMaps 0 (frameOf dropMonad)).1 = .pass ∧
      ¬ StatedEffect bareMaps 0 (frameOf dropMonad) 58 dropMonad := by
  have passed : (hopXdp bareMaps 0 (frameOf dropMonad)).1 = .pass := by decide +kernel
  refine ⟨passesGuards_dropMonad, rfl, passed, ?_⟩
  intro effect
  exact absurd (passed.symm.trans (effect.dropped.mpr (.inl rfl))) (by decide)

end Unheaded.Net
