import Unheaded.Net.Packet

/-!
# The canary program

`canary_xdp` of `canary-ebpf`: a packet is routed to the canary or the stable version of its
service, the version's metrics are counted and a breached error budget rolls the canary back.
-/

namespace Unheaded.Net

open Mbc Lib

def CANARY_ROLLBACK : Byte := 0x04

/-- A value of `CANARY_STATE`. -/
structure CanaryState where
  canaryVersion : Byte
  stableVersion : Byte
  trafficSplitPct : Byte
  state : Byte
  probeStartMs : Word

/-- A value of `CANARY_METRICS`. -/
structure CanaryMetrics where
  errors : Word
  reqCount : Word
  latencySum : BitVec 64
  latP99 : Word
  lastUpdate : Word

/-- A value of `SLO_THRESHOLDS`. -/
structure SloThresholds where
  maxErrorRatePpm : Word
  maxLatencyP99Ms : Word
  minThroughputPps : Word

/-- The maps; a value of `VERSION_ENDPOINTS` is its 24 bytes. -/
structure CanaryMaps where
  canaryState : Word → Option CanaryState
  canaryMetrics : Word → Option CanaryMetrics
  versionEndpoints : Word → Option (List Byte)
  sloThresholds : Word → Option SloThresholds

def versionKey (serviceId : Word) (version : Byte) : Word :=
  (serviceId &&& 0xFFFF) ||| (version.setWidth 32 <<< 16)

variable (maps : CanaryMaps)

/-- `route_to_version`: the destination MAC is that of the endpoint. -/
def routeToVersion (f : Frame) (serviceId : Word) (version : Byte) : Frame :=
  match maps.versionEndpoints (versionKey serviceId version) with
  | none => f
  | some endpoint =>
    if 6 ≤ f.length then writeFrom f 0 ((List.range 6).map fun i => endpoint.getD (18 + i) 0) else f

/-- `update_metrics`, at `now` nanoseconds. -/
def updateMetrics (now : BitVec 64) (serviceId : Word) (version : Byte) (m : Monad) : CanaryMaps :=
  { maps with canaryMetrics := fun key =>
      if key = versionKey serviceId version then
        (maps.canaryMetrics key).map fun entry =>
          { entry with
            reqCount := satAdd32 entry.reqCount 1
            latencySum := satAdd64 entry.latencySum (m.latencyHintU16.setWidth 64)
            lastUpdate := (now / 1000000).setWidth 32 }
      else maps.canaryMetrics key }

/-- The error rate of a version is over the budget of its service. -/
def sloBreached (serviceId : Word) (canaryVersion : Byte) : Bool :=
  match maps.canaryMetrics (versionKey serviceId canaryVersion) with
  | none => false
  | some metrics =>
    if metrics.reqCount = 0 then false
    else
      let errorRatePpm := metrics.errors.toNat * 1000000 / metrics.reqCount.toNat
      match maps.sloThresholds serviceId with
      | none => false
      | some thresholds => decide (thresholds.maxErrorRatePpm.toNat < errorRatePpm)

def checkSloBreach (serviceId : Word) (canaryVersion : Byte) : CanaryMaps :=
  if sloBreached maps serviceId canaryVersion then
    { maps with canaryState := fun key =>
        if key = serviceId then
          (maps.canaryState key).map fun entry => { entry with state := CANARY_ROLLBACK }
        else maps.canaryState key }
  else maps

/-- The routing decision: the Monad, the frame and the maps after it. -/
def routeCanary (rand : Word) (now : BitVec 64) (f : Frame) (m : Monad) :
    Monad × Frame × CanaryMaps :=
  let serviceId := m.dstServiceId.setWidth 32
  match maps.canaryState serviceId with
  | none => (m, f, maps)
  | some state =>
    if state.state = CANARY_ROLLBACK then
      (m, routeToVersion maps f serviceId state.stableVersion, maps)
    else if rand.toNat % 100 < state.trafficSplitPct.toNat then
      let marked := m.setFlag Flags.CANARY
      (marked, routeToVersion maps f serviceId state.canaryVersion,
        checkSloBreach (updateMetrics maps now serviceId state.canaryVersion marked) serviceId
          state.canaryVersion)
    else
      (m, routeToVersion maps f serviceId state.stableVersion,
        updateMetrics maps now serviceId state.stableVersion m)

/-- `canary_xdp`, with the drawn number and the clock. -/
def canaryXdp (rand : Word) (now : BitVec 64) (f : Frame) : XdpAction × Frame × CanaryMaps :=
  match locateMonad f with
  | none => (.pass, f, maps)
  | some off =>
    match readMonadFromPkt f off with
    | none => (.pass, f, maps)
    | some monad =>
      let routed := routeCanary maps rand now f monad
      let m := if routed.1.hasFlag Flags.CUSTOM then routed.1 else routed.1.recomputeChecksum
      match writeMonadToPkt routed.2.1 off m with
      | none => (.pass, routed.2.1, routed.2.2)
      | some f' => (.tx, f', routed.2.2)

theorem routeToVersion_spec (f : Frame) (serviceId : Word) (version : Byte) (off : Nat) :
    SameUpTo off f (routeToVersion maps f serviceId version) := by
  unfold routeToVersion
  split
  · exact ⟨rfl, fun _ _ _ => rfl⟩
  · split
    · refine ⟨length_writeFrom f 0 _, ?_⟩
      intro i low _
      exact byteAt_writeFrom_of_outside f (.inr (by
        rw [List.length_map, List.length_range]
        omega))
    · exact ⟨rfl, fun _ _ _ => rfl⟩

theorem routeCanary_spec (rand : Word) (now : BitVec 64) (f : Frame) (m : Monad) (off : Nat) :
    SameUpTo off f (routeCanary maps rand now f m).2.1 ∧
      (routeCanary maps rand now f m).1.hasFlag Flags.CUSTOM = m.hasFlag Flags.CUSTOM := by
  unfold routeCanary
  dsimp only
  split
  · exact ⟨⟨rfl, fun _ _ _ => rfl⟩, rfl⟩
  · split
    · exact ⟨routeToVersion_spec maps f _ _ off, rfl⟩
    · split
      · exact ⟨routeToVersion_spec maps f _ _ off, Monad.hasFlag_setFlag_of_disjoint m (by decide)⟩
      · exact ⟨routeToVersion_spec maps f _ _ off, rfl⟩

theorem canaryXdp_frame {maps : CanaryMaps} {rand : Word} {now : BitVec 64} {f : Frame} {off : Nat}
    {m : Monad} (carries : Carries f off) (monad : monadOf f = some m)
    (plain : m.hasFlag Flags.CUSTOM = false) :
    (canaryXdp maps rand now f).2.1 = writeFrom (routeCanary maps rand now f m).2.1 off
        (routeCanary maps rand now f m).1.recomputeChecksum.toBytes := by
  obtain ⟨same, custom⟩ := routeCanary_spec maps rand now f m off
  have kept := carries.of_same same
  rw [plain] at custom
  rw [canaryXdp, locateMonad_eq_some.mpr carries]
  dsimp only
  rw [carries.reads monad]
  dsimp only
  rw [custom, if_neg Bool.false_ne_true, writeMonadToPkt_of_fits kept.fits]

theorem canaryXdp_verifies (rand : Word) (now : BitVec 64) {f : Frame} {m : Monad}
    (monad : monadOf f = some m) (plain : m.hasFlag Flags.CUSTOM = false) :
    ∃ m', monadOf (canaryXdp maps rand now f).2.1 = some m' ∧ m'.verifyChecksum = true := by
  obtain ⟨off, carries, -, -⟩ := monadOf_eq_some monad
  have kept := carries.of_same (routeCanary_spec maps rand now f m off).1
  have written := (kept.write (routeCanary maps rand now f m).1.recomputeChecksum).2
  rw [← canaryXdp_frame carries monad plain] at written
  exact ⟨_, written, Monad.verifyChecksum_recomputeChecksum _⟩

end Unheaded.Net
