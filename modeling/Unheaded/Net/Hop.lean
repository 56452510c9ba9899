import Unheaded.Net.MapKeys
import Unheaded.Net.Packet

/-!
# The hop program

`hop_xdp` of `hop-ebpf`: the guards in front of the Monad, the hop checks of ADR-125 and the
processing of a packet that passes them.
-/

namespace Unheaded.Net

open Mbc Lib

/-- `HopValidator`; `allowed_dict_ids` is not evaluated. -/
structure HopValidator where
  allowedVersionMin : Byte
  allowedVersionMax : Byte
  requireCrc : Byte
  requireHmac : Byte
  maxHopCount : Byte
  flags : Word
  deriving DecidableEq

/-- `HmacKeyEntry`; the key itself is not read. -/
structure HmacKeyEntry where
  createdAt : Word
  expiresAt : Word
  deriving DecidableEq

/-- `RetryEntry`; the token is not read. -/
structure RetryEntry where
  issuedAt : Word
  expiresAt : Word
  deriving DecidableEq

/-- A value of `SEQ_COUNTERS`. -/
structure SeqCounter where
  current : Word
  highest : Word
  gaps : Word
  reordered : Word

/-- A value of `SETTINGS`. -/
structure Setting where
  value : BitVec 64
  negotiatedAt : Word
  flags : Word

/-- A value of `DOS_STATE`. -/
structure DosState where
  dropCount : Word
  totalCount : Word
  backpressureLvl : Byte

structure HopMaps where
  config : Word → Option (BitVec 64)
  circuitErrors : BitVec 16 → Option Word
  seqCounters : BitVec 64 → Option SeqCounter
  settings : BitVec 64 → Option Setting
  dosState : BitVec 64 → Option DosState
  hopValidators : BitVec 64 → Option HopValidator
  hmacKeys : BitVec 64 → Option HmacKeyEntry
  retryTokens : BitVec 64 → Option RetryEntry

def CFG_HOP_ID : Word := 0
def CFG_SAMPLE_DIVISOR : Word := 1
def CFG_CIRCUIT_THRESHOLD : Word := 2
def CFG_MAX_HOPS : Word := 3
def CFG_CHECK_MODE : Word := 4

def CHECK_MODE_OBSERVE : BitVec 64 := 1
def CHECK_MODE_ENFORCE : BitVec 64 := 2
def VALIDATOR_FLAG_RETRY : Word := 0x01

variable (maps : HopMaps)

def HopMaps.cfg (key : Word) : BitVec 64 := (maps.config key).getD 0

/-- `is_live`, at `bootNs` nanoseconds of `CLOCK_BOOTTIME`. -/
def isLive (bootNs : BitVec 64) (expiresAt : Word) : Bool :=
  expiresAt == 0 || decide (bootNs.toNat / 1000000000 < expiresAt.toNat)

/-- The `CIRCUIT_ERRORS` pair. -/
def flowId (m : Monad) : BitVec 16 :=
  m.srcServiceId.setWidth 16 ||| (m.dstServiceId.setWidth 16 <<< 8)

def checksPass (bootNs : BitVec 64) (v : HopValidator) (m : Monad) (src : List Byte) : Bool :=
  if (v.allowedVersionMin ≠ 0 ∨ v.allowedVersionMax ≠ 0) ∧
      (m.version < v.allowedVersionMin ∨ v.allowedVersionMax < m.version) then false
  else if v.maxHopCount ≠ 0 ∧ v.maxHopCount < m.hopCount then false
  else if v.requireCrc ≠ 0 ∧ m.hasFlag Flags.CUSTOM then false
  else if v.requireHmac ≠ 0 ∧
      ((maps.hmacKeys (makeHmacKey (flowId m) m.deployRing)).any
        fun entry => isLive bootNs entry.expiresAt) = false then false
  else if v.flags &&& VALIDATOR_FLAG_RETRY ≠ 0 ∧
      ((maps.retryTokens (makeRetryKey (flowId m) src)).any
        fun entry => isLive bootNs entry.expiresAt) = false then false
  else true

/-- `run_checks`: `true` drops the packet. -/
def runChecks (bootNs : BitVec 64) (m : Monad) (src : List Byte) : Bool :=
  let mode := maps.cfg CFG_CHECK_MODE
  if mode ≠ CHECK_MODE_OBSERVE ∧ mode ≠ CHECK_MODE_ENFORCE then false
  else
    let hopId := maps.cfg CFG_HOP_ID
    match maps.hopValidators (makeValidatorKey (hopId.setWidth 32) m.deployRing) with
    | none => false
    | some validator =>
      if checksPass maps bootNs validator m src then false
      else mode == CHECK_MODE_ENFORCE

/-- The circuit breaker: the threshold is the low half of the configured value. -/
def enforceCircuit (m : Monad) : Monad :=
  let threshold := (maps.cfg CFG_CIRCUIT_THRESHOLD).setWidth 32
  if 0 < threshold.toNat then
    match maps.circuitErrors (flowId m) with
    | some errors =>
      if threshold.toNat ≤ errors.toNat then { m with circuitState := CircuitState.OPEN } else m
    | none => m
  else m

/-- The sequence counter of a namespace. -/
def countSequence (ns : Word) : HopMaps :=
  { maps with seqCounters := fun key =>
      if key = makeNamespaceKey ns then
        (maps.seqCounters key).map fun entry =>
          let newVal := satAdd32 entry.current 1
          if entry.highest.toNat < newVal.toNat then
            { entry with current := newVal, highest := newVal }
          else { entry with current := newVal, gaps := satAdd32 entry.gaps 1 }
      else maps.seqCounters key }

def settingRejected (connId : Word) (m : Monad) : Bool :=
  (maps.settings (makeSettingsKey connId (m.qosClass.setWidth 16))).any
    fun entry => entry.flags &&& 0x01 == 0

/-- The back-pressure entry of a namespace counts the packet, and its drop where the level is
`2` or more. -/
def countDos (ns : Word) : HopMaps :=
  { maps with dosState := fun key =>
      if key = makeNamespaceKey ns then
        (maps.dosState key).map fun entry =>
          { entry with
            totalCount := satAdd32 entry.totalCount 1
            dropCount := if 2 ≤ entry.backpressureLvl.toNat then satAdd32 entry.dropCount 1
              else entry.dropCount }
      else maps.dosState key }

def inShutdown (ns : Word) : Bool :=
  (maps.dosState (makeNamespaceKey ns)).any fun entry => 2 ≤ entry.backpressureLvl.toNat

/-- `apply_flow_action`: the packet, and whether to drop it. -/
def applyFlowAction (m : Monad) (flowLabel : Word) : Monad × Bool :=
  if m.flowAction = FlowAction.TRACE then (m.setFlag Flags.TRACED, false)
  else if m.flowAction = FlowAction.SAMPLE then
    let divisor := (maps.cfg CFG_SAMPLE_DIVISOR).setWidth 32
    if divisor.toNat = 0 ∨ flowLabel.toNat % divisor.toNat = 0 then
      (m.setFlag Flags.SAMPLED, false)
    else (m, false)
  else if m.flowAction = FlowAction.MIRROR then (m.setFlag Flags.MIRROR, false)
  else if m.flowAction = FlowAction.DROP then (m, false)
  else (m, false)

/-- The Monad that is written back, and whether the packet is dropped after that. -/
def processMonad (m : Monad) (flowLabel : Word) : Monad × Bool :=
  let acted := applyFlowAction maps (enforceCircuit maps m).incrementHop flowLabel
  (if acted.1.hasFlag Flags.CUSTOM then acted.1 else acted.1.recomputeChecksum, acted.2)

/-- `try_hop_xdp` from the clone of the Monad on. -/
def processPacket (f : Frame) (off : Nat) (m : Monad) : XdpAction × Frame × HopMaps :=
  let ns := f.flowLabel >>> 8
  let counted := countSequence maps ns
  if settingRejected maps ns m then (.drop, f, counted)
  else
    let seen := countDos counted ns
    if inShutdown maps ns then (.drop, f, seen)
    else
      let out := processMonad maps m f.flowLabel
      match writeMonadToPkt f off out.1 with
      | none => (.pass, f, seen)
      | some f' => (if out.2 then .drop else .pass, f', seen)

/-- `max_hops` reached. -/
def overHopLimit (m : Monad) : Bool :=
  let maxHops := (maps.cfg CFG_MAX_HOPS).setWidth 8
  decide (0 < maxHops.toNat) && decide (maxHops.toNat ≤ m.hopCount.toNat)

def hopXdp (bootNs : BitVec 64) (f : Frame) : XdpAction × Frame × HopMaps :=
  match locateMonad f with
  | none => (.pass, f, maps)
  | some off =>
    match readMonadFromPkt f off with
    | none => (.pass, f, maps)
    | some m =>
      if !m.hasFlag Flags.CUSTOM && !m.verifyChecksum then (.pass, f, maps)
      else if m.hasFlag Flags.CHAOS then (.pass, f, maps)
      else if overHopLimit maps m then (.pass, f, maps)
      else if runChecks maps bootNs m f.src then (.drop, f, maps)
      else processPacket maps f off m

/-- Every rule of a validator holds for a packet. -/
structure RulesHold (maps : HopMaps) (bootNs : BitVec 64) (v : HopValidator) (m : Monad)
    (src : List Byte) : Prop where
  version : (v.allowedVersionMin = 0 ∧ v.allowedVersionMax = 0) ∨
    (v.allowedVersionMin ≤ m.version ∧ m.version ≤ v.allowedVersionMax)
  hopCount : v.maxHopCount = 0 ∨ m.hopCount ≤ v.maxHopCount
  crc : v.requireCrc ≠ 0 → m.hasFlag Flags.CUSTOM = false
  hmac : v.requireHmac ≠ 0 → ∃ entry, maps.hmacKeys (makeHmacKey (flowId m) m.deployRing) =
    some entry ∧ isLive bootNs entry.expiresAt = true
  retry : v.flags &&& VALIDATOR_FLAG_RETRY ≠ 0 →
    ∃ entry, maps.retryTokens (makeRetryKey (flowId m) src) = some entry ∧
      isLive bootNs entry.expiresAt = true

variable {maps : HopMaps} {bootNs : BitVec 64} {v : HopValidator} {m : Monad} {src : List Byte}

theorem rulesHold_of_checksPass (passes : checksPass maps bootNs v m src = true) :
    RulesHold maps bootNs v m src := by
  unfold checksPass at passes
  split at passes
  next => cases passes
  next version =>
  split at passes
  next => cases passes
  next hopCount =>
  split at passes
  next => cases passes
  next crc =>
  split at passes
  next => cases passes
  next hmac =>
  split at passes
  next => cases passes
  next retry =>
  constructor
  · rcases not_and_or.mp version with off | range
    · obtain ⟨min, max⟩ := not_or.mp off
      exact .inl ⟨not_not.mp min, not_not.mp max⟩
    · obtain ⟨low, high⟩ := not_or.mp range
      exact .inr ⟨BitVec.not_lt.mp low, BitVec.not_lt.mp high⟩
  · rcases not_and_or.mp hopCount with off | range
    · exact .inl (not_not.mp off)
    · exact .inr (BitVec.not_lt.mp range)
  · intro required
    exact Bool.eq_false_iff.mpr (not_and.mp crc required)
  · intro required
    have live := Bool.eq_true_of_not_eq_false (not_and.mp hmac required)
    exact (Option.any_eq_true _ _).mp live
  · intro required
    have live := Bool.eq_true_of_not_eq_false (not_and.mp retry required)
    exact (Option.any_eq_true _ _).mp live

theorem checksPass_of_rulesHold (rules : RulesHold maps bootNs v m src) :
    checksPass maps bootNs v m src = true := by
  have version : ¬ ((v.allowedVersionMin ≠ 0 ∨ v.allowedVersionMax ≠ 0) ∧
      (m.version < v.allowedVersionMin ∨ v.allowedVersionMax < m.version)) := by
    rintro ⟨on, outside⟩
    rcases rules.version with ⟨min, max⟩ | ⟨low, high⟩
    · exact on.elim (fun h => h min) (fun h => h max)
    · exact outside.elim (BitVec.not_lt.mpr low) (BitVec.not_lt.mpr high)
  have hopCount : ¬ (v.maxHopCount ≠ 0 ∧ v.maxHopCount < m.hopCount) := by
    rintro ⟨on, above⟩
    exact rules.hopCount.elim on (fun below => BitVec.not_lt.mpr below above)
  have crc : ¬ (v.requireCrc ≠ 0 ∧ m.hasFlag Flags.CUSTOM = true) := by
    rintro ⟨required, custom⟩
    exact Bool.eq_false_iff.mp (rules.crc required) custom
  have hmac : ¬ (v.requireHmac ≠ 0 ∧
      ((maps.hmacKeys (makeHmacKey (flowId m) m.deployRing)).any
        fun entry => isLive bootNs entry.expiresAt) = false) := by
    rintro ⟨required, dead⟩
    exact Bool.eq_false_iff.mp dead ((Option.any_eq_true _ _).mpr (rules.hmac required))
  have retry : ¬ (v.flags &&& VALIDATOR_FLAG_RETRY ≠ 0 ∧
      ((maps.retryTokens (makeRetryKey (flowId m) src)).any
        fun entry => isLive bootNs entry.expiresAt) = false) := by
    rintro ⟨required, dead⟩
    exact Bool.eq_false_iff.mp dead ((Option.any_eq_true _ _).mpr (rules.retry required))
  rw [checksPass, if_neg version, if_neg hopCount, if_neg crc, if_neg hmac, if_neg retry]

theorem checksPass_iff : checksPass maps bootNs v m src = true ↔ RulesHold maps bootNs v m src :=
  ⟨rulesHold_of_checksPass, checksPass_of_rulesHold⟩

/-- The fail-open exits in front of the checks: a checksum that is there and does not verify, a
packet under chaos injection, and the hop limit. -/
inductive FailsOpen (maps : HopMaps) (m : Monad) : Prop
  | checksum (plain : m.hasFlag Flags.CUSTOM = false) (bad : m.verifyChecksum = false)
  | chaos (flag : m.hasFlag Flags.CHAOS = true)
  | hopLimit (reached : overHopLimit maps m = true)

/-- A frame with Monad `m` at `off` that takes none of the exits in front of the checks. -/
structure ReachesChecks (maps : HopMaps) (f : Frame) (off : Nat) (m : Monad) : Prop where
  carries : Carries f off
  monad : monadOf f = some m
  checksum : (!m.hasFlag Flags.CUSTOM && !m.verifyChecksum) = false
  chaos : m.hasFlag Flags.CHAOS = false
  hopLimit : overHopLimit maps m = false

variable {f : Frame}

theorem hopXdp_of_reachesChecks {off : Nat} (reaches : ReachesChecks maps f off m)
    (bootNs : BitVec 64) : hopXdp maps bootNs f =
      if runChecks maps bootNs m f.src then (.drop, f, maps) else processPacket maps f off m := by
  rw [hopXdp, locateMonad_eq_some.mpr reaches.carries]
  dsimp only
  rw [reaches.carries.reads reaches.monad]
  dsimp only
  rw [reaches.checksum, if_neg Bool.false_ne_true, reaches.chaos, if_neg Bool.false_ne_true,
    reaches.hopLimit, if_neg Bool.false_ne_true]

theorem failsOpen_or_reachesChecks (maps : HopMaps) (monad : monadOf f = some m) :
    FailsOpen maps m ∨ ∃ off, ReachesChecks maps f off m := by
  obtain ⟨off, carries, -, -⟩ := monadOf_eq_some monad
  cases checksum : !m.hasFlag Flags.CUSTOM && !m.verifyChecksum with
  | true =>
    obtain ⟨plain, bad⟩ := Bool.and_eq_true_iff.mp checksum
    exact .inl (.checksum (Bool.not_eq_true' _ |>.mp plain) (Bool.not_eq_true' _ |>.mp bad))
  | false =>
    cases chaos : m.hasFlag Flags.CHAOS with
    | true => exact .inl (.chaos chaos)
    | false =>
      cases hopLimit : overHopLimit maps m with
      | true => exact .inl (.hopLimit hopLimit)
      | false => exact .inr ⟨off, carries, monad, checksum, chaos, hopLimit⟩

theorem hopXdp_of_failsOpen (monad : monadOf f = some m) (bootNs : BitVec 64)
    (exit : FailsOpen maps m) : hopXdp maps bootNs f = (.pass, f, maps) := by
  obtain ⟨off, -, located, read⟩ := monadOf_eq_some monad
  rw [hopXdp, located]
  dsimp only
  rw [read]
  dsimp only
  cases exit with
  | checksum plain bad => rw [plain, bad]; rfl
  | chaos flag =>
    split
    · rfl
    · rfl
  | hopLimit reached =>
    split
    · rfl
    · split
      · rfl
      · rfl

theorem runChecks_of_enforced (enforced : maps.cfg CFG_CHECK_MODE = CHECK_MODE_ENFORCE)
    (validator : maps.hopValidators
      (makeValidatorKey ((maps.cfg CFG_HOP_ID).setWidth 32) m.deployRing) = some v) :
    runChecks maps bootNs m src = !checksPass maps bootNs v m src := by
  unfold runChecks
  dsimp only
  rw [enforced, validator]
  dsimp only
  cases checksPass maps bootNs v m src with
  | true => rfl
  | false => rfl

/-- A hop in enforce mode passes a packet only through one of the exits in front of the checks or
with every rule of the validator holding, the checksum among them where one is required. -/
theorem enforced_checks_hold {maps : HopMaps} {bootNs : BitVec 64} {f : Frame} {m : Monad}
    {v : HopValidator} (enforced : maps.cfg CFG_CHECK_MODE = CHECK_MODE_ENFORCE)
    (monad : monadOf f = some m) (validator : maps.hopValidators
      (makeValidatorKey ((maps.cfg CFG_HOP_ID).setWidth 32) m.deployRing) = some v)
    (passed : (hopXdp maps bootNs f).1 = .pass) :
    FailsOpen maps m ∨ (RulesHold maps bootNs v m f.src ∧
      (v.requireCrc ≠ 0 → m.hasFlag Flags.CUSTOM = false ∧ m.verifyChecksum = true)) := by
  rcases failsOpen_or_reachesChecks maps monad with exit | ⟨off, reaches⟩
  · exact .inl exit
  · right
    rw [hopXdp_of_reachesChecks reaches, runChecks_of_enforced enforced validator] at passed
    cases checks : checksPass maps bootNs v m f.src with
    | false =>
      simp [checks] at passed
    | true =>
      have rules := rulesHold_of_checksPass checks
      refine ⟨rules, ?_⟩
      intro required
      have plain := rules.crc required
      have checksum := reaches.checksum
      rw [plain] at checksum
      exact ⟨plain, by simpa using checksum⟩

/-- A hop in enforce mode with one validator, of hop 0 and namespace 1. -/
def enforcingMaps (v : HopValidator) : HopMaps where
  config key := if key = CFG_CHECK_MODE then some CHECK_MODE_ENFORCE else none
  circuitErrors _ := none
  seqCounters _ := none
  settings _ := none
  dosState _ := none
  hopValidators key := if key = makeValidatorKey 0 DeployRing.PRODUCTION then some v else none
  hmacKeys _ := none
  retryTokens _ := none

def versionTwoOnly : HopValidator := ⟨2, 2, 1, 0, 0, 0⟩

def versionTwo : Monad := { Monad.new with version := 2 }.recomputeChecksum

def chaosInjected : Monad := { Monad.new with flags := Flags.CHAOS }.recomputeChecksum

theorem enforced_checks_hold_version_two : FailsOpen (enforcingMaps versionTwoOnly) versionTwo ∨
      (RulesHold (enforcingMaps versionTwoOnly) 0 versionTwoOnly versionTwo (frameOf versionTwo).src ∧
        (versionTwoOnly.requireCrc ≠ 0 →
          versionTwo.hasFlag Flags.CUSTOM = false ∧ versionTwo.verifyChecksum = true)) :=
  enforced_checks_hold rfl (monadOf_frameOf versionTwo) rfl (by decide +kernel)

/-- The packet under chaos injection passes a hop that enforces version 2. -/
theorem chaos_bypasses_enforced_checks :
    (enforcingMaps versionTwoOnly).cfg CFG_CHECK_MODE = CHECK_MODE_ENFORCE ∧
      monadOf (frameOf chaosInjected) = some chaosInjected ∧
      (enforcingMaps versionTwoOnly).hopValidators (makeValidatorKey
        (((enforcingMaps versionTwoOnly).cfg CFG_HOP_ID).setWidth 32) chaosInjected.deployRing) =
          some versionTwoOnly ∧
      (hopXdp (enforcingMaps versionTwoOnly) 0 (frameOf chaosInjected)).1 = .pass ∧
      ¬ RulesHold (enforcingMaps versionTwoOnly) 0 versionTwoOnly chaosInjected
        (frameOf chaosInjected).src := by
  refine ⟨rfl, monadOf_frameOf chaosInjected, rfl, by decide +kernel, ?_⟩
  intro rules
  exact absurd rules.version (by decide)

end Unheaded.Net
