import Unheaded.Deploy.Strategy

/-!
# Canary deployments

A canary deployment makes a few instances of the new version, walks the steps of its traffic with
an analysis where a step asks for one, makes the missing instances, puts all traffic on the new
version and deletes the stable instances.
-/

namespace Unheaded.Deploy

open Lib List Asking Instance

/-- Why a deployment ended: the first part of its message. -/
inductive CanaryReason where
  | creationFailed (err : Option String)
  | neverHealthy (err : StrategyError)
  | cancelled
  | shiftFailed (err : String)
  | analysisFailed (step : Nat) (err : StrategyError)
  | analysisRefused (step : Nat) (message : AnalysisMessage)
  | cancelledDuringPause
  | cancelledDuringPromotion
  | promotionFailed (failures : Nat) (last : Option String)
  | promotedNotHealthy (err : StrategyError)
  | fullShiftFailed (err : String)
  | completed (deployed steps : Nat)

/-- `Message`: the reason, the error of a shift back that failed, and the number of instances that
could not be deleted. -/
structure CanaryMessage where
  reason : CanaryReason
  shiftBack : Option String
  undeleted : Nat

structure CanaryResult where
  success : Bool
  message : CanaryMessage
  instances : List Instance
  metrics : ResultMetrics
  rolledBack : Bool
  analysis : Option AnalysisResult

/-- What `Execute` returns: an error, a result with an error, or a result. -/
inductive CanaryOutcome where
  | refused (err : StrategyError)
  | rolledBack (result : CanaryResult) (err : StrategyError)
  | finished (result : CanaryResult)

/-- The variables of a deployment. -/
structure Canary where
  canary : List Instance
  metrics : ResultMetrics
  analysis : Option AnalysisResult
  progress : Progress

namespace Canary

/-- The weights of the steps are percentages, they increase, and the last is all. -/
def checkSteps (last : Int64) : List CanaryStep → Option StrategyError
  | [] => none
  | step :: rest =>
    if step.weight < 0 ∨ 100 < step.weight then some (.weightOutside step.weight)
    else if step.weight ≤ last then some .weightsNotIncreasing
    else if rest.isEmpty ∧ step.weight ≠ 100 then some .finalWeight
    else checkSteps step.weight rest

def validate : Option Config → Option StrategyError
  | none => some .invalidConfig
  | some config =>
    if config.type ≠ .canary then some (.expected .canary config.type)
    else if config.steps.isEmpty then some .noSteps
    else
      match checkSteps (-1) config.steps with
      | some err => some err
      | none =>
        match config.analysis with
        | none => none
        | some analysis =>
          if analysis.errorRateThreshold < 0 ∨ 1 < analysis.errorRateThreshold then
            some (.threshold "error_rate_threshold")
          else if analysis.successRateThreshold < 0 ∨ 1 < analysis.successRateThreshold then
            some (.threshold "success_rate_threshold")
          else if analysis.interval < 0 then some (.negative "analysis interval")
          else none

variable (p : ExecuteParams)

def back : TrafficShiftParams := ⟨p.targetVersion, p.currentVersion, 100⟩

def forth (weight : Int64) : TrafficShiftParams :=
  ⟨p.currentVersion, p.targetVersion, weight⟩

def instanceParams (role : String) : InstanceParams where
  serviceName := p.serviceName
  version := p.targetVersion
  labels := [("deployment", p.deploymentID), ("version", p.targetVersion), ("role", role)]

/-- `progress`: `OnProgress`, if it is set. -/
def tell (s : Canary) (phase message : String) (percentage : Int) : Driven Canary := do
  let s := { s with progress := { s.progress with phase, message, percentage } }
  if (p.callbacks.map (·.onProgress)).getD false then
    let _ ← perform (.report s.progress)
    return s
  else return s

def rollBack (s : Canary) (reason : CanaryReason) (err : StrategyError) : Driven CanaryOutcome := do
  let shift ← perform (.shift (back p))
  let metrics := match shift with
    | some _ => s.metrics
    | none => { s.metrics with trafficShifts := s.metrics.trafficShifts + 1 }
  let (failed, metrics) ← deleteAll s.canary metrics
  return .rolledBack ⟨false, ⟨reason, shift, failed⟩, p.instances, metrics, true, s.analysis⟩ err

/-- A creation succeeded; the health of the instance is not taken from the driver's answer. -/
def created (s : Canary) (inst : Instance) : Canary := { s with
    canary := s.canary ++ [{ inst with healthy := false }]
    metrics := { s.metrics with instancesCreated := s.metrics.instancesCreated + 1 } }

def creationFailed (s : Canary) : Canary :=
  { s with metrics := { s.metrics with instancesFailed := s.metrics.instancesFailed + 1 } }

/-- The first instances of the canary. -/
def deployCanary (p : ExecuteParams) : Nat → Canary → Driven (Canary ⊕ CanaryOutcome)
  | 0, s => return .inl s
  | missing + 1, s => do
    match ← perform (.create (instanceParams p "canary")) with
    | .ok (some inst) => deployCanary p missing (s.created inst.1)
    | .ok none =>
      return .inr (← rollBack p s.creationFailed (.creationFailed none) .instanceUpdateFailed)
    | .error err =>
      return .inr (← rollBack p s.creationFailed (.creationFailed (some err)) .instanceUpdateFailed)

/-- `waitHealthy` on the canary. -/
def awaitCanary (config : Config) (fuel : Nat) (s : Canary) (reason : StrategyError → CanaryReason) :
    Driven (Option (Canary ⊕ CanaryOutcome)) := do
  match ← waitHealthy (pollInterval config) fuel s.canary s.metrics.healthChecks with
  | none => return none
  | some waited =>
    let s := { s with
      canary := waited.instances
      metrics := { s.metrics with healthChecks := waited.checks } }
    match waited.timeout with
    | none => return some (.inl s)
    | some healthy =>
      let err := StrategyError.healthCheckTimeout (some healthy) (some s.canary.length)
      return some (.inr (← rollBack p s (reason err) err))

/-- The thresholds of the configuration are applied to what was measured. -/
def judge (config : Option AnalysisConfig) (result : AnalysisResult) : AnalysisResult :=
  match config, result.metrics with
  | some c, some m =>
    let result :=
      if 0 < c.errorRateThreshold ∧ c.errorRateThreshold < m.errorRate then
        { result with
          pass := false
          shouldRollback := true
          message := .errorRateExceeds m.errorRate c.errorRateThreshold }
      else result
    let result :=
      if 0 < c.successRateThreshold ∧ m.successRate < c.successRateThreshold then
        { result with
          pass := false
          shouldRollback := true
          message := .successRateBelow m.successRate c.successRateThreshold }
      else result
    if 0 < c.latencyP99Threshold ∧ c.latencyP99Threshold < m.latencyP99 then
      { result with
        pass := false
        shouldRollback := true
        message := .latencyExceeds m.latencyP99 c.latencyP99Threshold }
    else result
  | _, _ => result

def analysisRequest (config : Config) (s : Canary) (index : Nat) (step : CanaryStep) :
    AnalysisRequest where
  deploymentID := p.deploymentID
  serviceName := p.serviceName
  stableVersion := p.currentVersion
  canaryVersion := p.targetVersion
  step := index + 1
  weight := step.weight
  canary := s.canary
  stable := p.instances
  config := config.analysis

variable (config : Config)

/-- The wait for samples, if the configuration has an interval. -/
def awaitSamples : Driven (Option ContextError) :=
  match config.analysis with
  | some analysis => if 0 < analysis.interval then perform (.sleep analysis.interval) else return none
  | none => return none

def runAnalysis (config : Config) (s : Canary) (index : Nat) (step : CanaryStep) :
    Driven (Except StrategyError AnalysisResult) := do
  match ← awaitSamples config with
  | some err => return .error (.context err)
  | none =>
    match ← perform (.analyse (analysisRequest p config s index step)) with
    | .error err => return .error (.analysisCallback err)
    | .ok none => return .error .noAnalysisResult
    | .ok (some result) => return .ok (judge config.analysis result)

/-- The analysis of a step, if it asks for one. -/
def analyseStep (config : Config) (s : Canary) (index : Nat) (step : CanaryStep) :
    Driven (Canary ⊕ CanaryOutcome) :=
  if step.analysis then do
    let answer ← runAnalysis p config s index step
    let s := { s with metrics := { s.metrics with analysisRuns := s.metrics.analysisRuns + 1 } }
    match answer with
    | .error err =>
      return .inr (← rollBack p s (.analysisFailed (index + 1) err) (.rollbackRequired (some err)))
    | .ok result =>
      let s := { s with analysis := some result }
      if !result.pass || result.shouldRollback then
        return .inr (← rollBack p s (.analysisRefused (index + 1) result.message)
          (.rollbackRequired none))
      else return .inl s
  else return .inl s

def pauseAfter (step : CanaryStep) : Driven (Option ContextError) :=
  if 0 < step.pause ∧ step.weight < 100 then perform (.sleep step.pause) else return none

/-- The steps from an index on. -/
def runSteps (p : ExecuteParams) (config : Config) :
    Nat → List CanaryStep → Canary → Driven (Canary ⊕ CanaryOutcome)
  | _, [], s => return .inl s
  | index, step :: rest, s => do
    match ← perform .contextErr with
    | some err => return .inr (← rollBack p s .cancelled (.context err))
    | none =>
      if ← perform .promoted then return .inl s
      else
        let s := { s with progress := { s.progress with currentWeight := step.weight } }
        let s ← tell p s s!"canary_step_{index + 1}"
          s!"Canary step {index + 1}: shifting {step.weight.toInt}% traffic"
          ((index * 100 / config.steps.length : Nat) : Int)
        match ← perform (.shift (forth p step.weight)) with
        | some err => return .inr (← rollBack p s (.shiftFailed err) .trafficShiftFailed)
        | none =>
          let s :=
            { s with metrics := { s.metrics with trafficShifts := s.metrics.trafficShifts + 1 } }
          match ← analyseStep p config s index step with
          | .inr outcome => return .inr outcome
          | .inl s =>
            match ← pauseAfter step with
            | some err => return .inr (← rollBack p s .cancelledDuringPause (.context err))
            | none => runSteps p config (index + 1) rest s

/-- After a failed creation of the promotion: an end, or another try after a wait. -/
def afterFailure (config : Config) (s : Canary) (failures : Nat) (last : Option String) :
    Driven (Option CanaryOutcome) := do
  if p.replicas.toInt < failures then
    return some (← rollBack p s (.promotionFailed failures last) .instanceUpdateFailed)
  else
    match ← perform (.sleep (pollInterval config)) with
    | some err => return some (← rollBack p s .cancelledDuringPromotion (.context err))
    | none => return none

/-- The instances missing for the promotion; nothing when the fuel is spent. -/
def scaleUp (p : ExecuteParams) (config : Config) :
    Nat → Nat → Canary → Driven (Option (Canary ⊕ CanaryOutcome))
  | 0, _, _ => return none
  | fuel + 1, failures, s =>
    if (s.canary.length : Int) < p.replicas.toInt then do
      match ← perform .contextErr with
      | some err => return some (.inr (← rollBack p s .cancelledDuringPromotion (.context err)))
      | none =>
        match ← perform (.create (instanceParams p "stable")) with
        | .ok (some inst) => scaleUp p config fuel failures (s.created inst.1)
        | .ok none =>
          match ← afterFailure p config s.creationFailed (failures + 1) none with
          | some outcome => return some (.inr outcome)
          | none => scaleUp p config fuel (failures + 1) s.creationFailed
        | .error err =>
          match ← afterFailure p config s.creationFailed (failures + 1) (some err) with
          | some outcome => return some (.inr outcome)
          | none => scaleUp p config fuel (failures + 1) s.creationFailed
    else return some (.inl s)

/-- All traffic goes to the new version, and the stable instances are deleted. -/
def takeOver (config : Config) (s : Canary) : Driven CanaryOutcome := do
  match ← perform (.shift (forth p 100)) with
  | some err => rollBack p s (.fullShiftFailed err) .trafficShiftFailed
  | none =>
    let (failed, metrics) ←
      deleteAll p.instances { s.metrics with trafficShifts := s.metrics.trafficShifts + 1 }
    let s := { s with metrics, progress := { s.progress with currentWeight := 100 } }
    let s ← tell p s "completed" "Deployment completed successfully" 100
    return .finished ⟨true, ⟨.completed s.canary.length config.steps.length, none, failed⟩, s.canary,
      s.metrics, false, s.analysis⟩

/-- The third phase: the promotion. -/
def promotion (config : Config) (fuel : Nat) (s : Canary) : Driven (Option CanaryOutcome) := do
  let s ← tell p s "promoting" "Promoting canary to production" 90
  match ← scaleUp p config fuel 0 s with
  | none => return none
  | some (.inr outcome) => return some outcome
  | some (.inl s) =>
    match ← awaitCanary p config fuel s .promotedNotHealthy with
    | none => return none
    | some (.inr outcome) => return some outcome
    | some (.inl s) => return some (← takeOver p config s)

def canaryCount (config : Config) : Int :=
  max ((p.replicas * (config.steps.head?.map (·.weight)).getD 0) / 100).toInt 1

/-- The three phases. -/
def phases (config : Config) (fuel : Nat) : Driven (Option CanaryOutcome) := do
  let s ← tell p ⟨[], {}, none, ⟨"initializing", "Starting canary deployment", 0, 0, p.replicas.toInt, 0⟩⟩
    "deploying_canary" "Deploying canary instances" 0
  match ← deployCanary p (canaryCount p config).toNat s with
  | .inr outcome => return some outcome
  | .inl s =>
    match ← awaitCanary p config fuel s .neverHealthy with
    | none => return none
    | some (.inr outcome) => return some outcome
    | some (.inl s) =>
      match ← runSteps p config 0 config.steps s with
      | .inr outcome => return some outcome
      | .inl s => promotion p config fuel s

/-- `Execute`; nothing when the fuel is spent. -/
def execute (params : Option ExecuteParams) (fuel : Nat) : Driven (Option CanaryOutcome) :=
  match params with
  | none => return some (.refused .invalidConfig)
  | some p =>
    match validate p.config, p.config with
    | some err, _ => return some (.refused err)
    | none, none => return some (.refused .invalidConfig)
    | none, some config =>
      match requireDriver .canary p.callbacks true true with
      | some err => return some (.refused err)
      | none =>
        if p.replicas < 1 then return some (.refused .replicas)
        else phases p config fuel

/-! ## What a history shows -/

variable (past : History)

def made : List Instance := past.filterMap fun
    | ⟨.create _, .ok (some inst)⟩ => some inst.1
    | _ => none

def deletions : List Instance := past.filterMap fun
    | ⟨.delete inst, _⟩ => some inst
    | _ => none

theorem made_append (past later : History) : made (past ++ later) = made past ++ made later :=
  filterMap_append

theorem deletions_append (past later : History) :
    deletions (past ++ later) = deletions past ++ deletions later :=
  filterMap_append

def Own (inst : Instance) : Prop :=
  inst.unflagged ∈ (made past).map unflagged

/-- All traffic was put on the new version when it had enough instances, each found healthy. -/
def FullyShifted (past : History) : Prop :=
  ∃ before after, past = before ++ ⟨.shift (forth p 100), none⟩ :: after ∧
    p.replicas.toInt ≤ (made before).length ∧ ∀ inst ∈ made before, FoundHealthy before inst

/-- The last thing asked for was all traffic back on the stable version and the deletion of every
instance made; nothing else was ever deleted. -/
def RolledBack (past : History) : Prop :=
  ∃ before answer after, past = before ++ ⟨.shift (back p), answer⟩ :: after ∧
    deletions before = [] ∧ (∀ e ∈ after, ∃ inst, e.question = .delete inst) ∧
    (deletions after).map unflagged = (made past).map unflagged

def Unpromoted : Prop := ⟨.promoted, true⟩ ∉ past

/-- The analysis of a step was made and passed. -/
def StepPassed (past : History) (index : Nat) : Prop :=
  ∃ request result, ⟨.analyse request, .ok (some result)⟩ ∈ past ∧ request.step = index + 1 ∧
    (judge config.analysis result).pass = true ∧
    (judge config.analysis result).shouldRollback = false

def StepsPassed (count : Nat) (past : History) : Prop :=
  ∀ index < count, ∀ step, config.steps[index]? = some step → step.analysis = true →
    StepPassed config past index

theorem Own.later {past later : History} {inst : Instance} (own : Own past inst) :
    Own (past ++ later) inst := by
  rw [Own, made_append, map_append]
  exact mem_append_left _ own

theorem FullyShifted.later {p : ExecuteParams} {past later : History}
    (shifted : FullyShifted p past) : FullyShifted p (past ++ later) := by
  obtain ⟨before, after, rfl, enough, found⟩ := shifted
  refine ⟨before, after ++ later, ?_, enough, found⟩
  rw [List.append_assoc, List.cons_append]

theorem StepsPassed.later {config : Config} {count : Nat} {past later : History}
    (passed : Unpromoted past → StepsPassed config count past) (unpromoted : Unpromoted (past ++ later)) :
    StepsPassed config count (past ++ later) := by
  intro index small step here analysed
  have before : Unpromoted past := fun mem => unpromoted (mem_append_left _ mem)
  obtain ⟨request, result, mem, rest⟩ := passed before index small step here analysed
  exact ⟨request, result, mem_append_left _ mem, rest⟩

/-! ## What every step keeps -/

/-- The canary is what was made, those marked were found healthy, nothing was deleted, and without a
promotion the first steps have passed. -/
structure Running (config : Config) (count : Nat) (past : History) (s : Canary) : Prop where
  canaries : s.canary.map unflagged = (made past).map unflagged
  found : ∀ inst ∈ s.canary, inst.healthy = true → FoundHealthy past inst
  kept : deletions past = []
  passed : Unpromoted past → StepsPassed config count past

def Permitted (past : History) (call : Call) : Prop :=
  ∀ inst, call = .delete inst → Own past inst ∨ FullyShifted p past

def Failed (past : History) (outcome : CanaryOutcome) : Prop :=
  (∃ result err, outcome = .rolledBack result err) ∧ RolledBack p past

/-- A part of the deployment ends in `J`, or the deployment is rolled back. -/
def EndsIn (J : History → Canary → Prop) (past : History) : Canary ⊕ CanaryOutcome → Prop
  | .inl s => J past s
  | .inr outcome => Failed p past outcome

/-- Over all answers, only what is permitted is asked. -/
abbrev Careful {α : Type} (p : ExecuteParams) (post : History → α → Prop) (past : History)
    (m : Driven α) : Prop :=
  Holds anyAnswer (Permitted p) post past m

section Steps

variable {p : ExecuteParams} {config : Config} {count : Nat} {past : History} {s : Canary}

theorem permitted {call : Call} (other : call.isDelete = false) : Permitted p past call := by
  intro inst same
  rw [same] at other
  cases other

theorem Running.later {s' : Canary} {e : Exchange Call Answer} (running : Running config count past s)
    (nothing : made [e] = []) (keeps : deletions [e] = []) (same : s'.canary = s.canary) :
    Running config count (past ++ [e]) s' where
  canaries := by
    rw [same, made_append, nothing, append_nil]
    exact running.canaries
  found inst mem healthy := by
    rw [same] at mem
    exact mem_append_left _ (running.found inst mem healthy)
  kept := by
    rw [deletions_append, keeps, append_nil]
    exact running.kept
  passed unpromoted := StepsPassed.later running.passed unpromoted

theorem Running.same {s' : Canary} (running : Running config count past s)
    (same : s'.canary = s.canary) : Running config count past s' where
  canaries := by
    rw [same]
    exact running.canaries
  found := by
    rw [same]
    exact running.found
  kept := running.kept
  passed := running.passed

theorem Running.created {params : InstanceParams} (running : Running config count past s)
    (inst : Created params) :
    Running config count (past ++ [⟨.create params, .ok (some inst)⟩]) (s.created inst.1) where
  canaries := by
    rw [made_append, map_append, ← running.canaries]
    exact map_append
  found other mem healthy := by
    rcases mem_append.mp mem with before | last
    · exact mem_append_left _ (running.found other before healthy)
    · simp [mem_singleton.mp last] at healthy
  kept := by
    rw [deletions_append, running.kept]
    rfl
  passed unpromoted := StepsPassed.later running.passed unpromoted

theorem Running.refused {params : InstanceParams} (running : Running config count past s)
    (answer : Answer (.create params)) (nothing : noInstance answer) :
    Running config count (past ++ [⟨.create params, answer⟩]) s.creationFailed := by
  match answer with
  | .ok none => exact running.later rfl rfl rfl
  | .error err => exact running.later rfl rfl rfl

theorem tell_running (running : Running config count past s) (phase message : String)
    (percentage : Int) :
    Careful p (fun past s' => Running config count past s' ∧ s'.canary = s.canary) past
      (tell p s phase message percentage) := by
  unfold tell
  split
  · refine Holds.call (permitted rfl) fun answer _ => ?_
    exact Holds.pure ⟨running.later rfl rfl rfl, rfl⟩
  · exact Holds.pure ⟨running.same rfl, rfl⟩

theorem rollBack_failed {s' : Canary} (before : Running config count past s')
    (same : s.canary = s'.canary) (reason : CanaryReason) (err : StrategyError) :
    Careful p (Failed p) past (rollBack p s reason err) := by
  have running := before.same same
  refine Holds.call (permitted rfl) fun answer _ => ?_
  -- the deletions asked for and those still to come are together the canary
  have deleted : ∀ metrics, Careful p (fun now _ => ∃ after,
      now = past ++ ⟨.shift (back p), answer⟩ :: after ∧
      (∀ e ∈ after, ∃ inst, e.question = .delete inst) ∧ made after = [] ∧
      deletions after ++ [] = s.canary) (past ++ [⟨.shift (back p), answer⟩])
      (deleteAll s.canary metrics) := by
    intro metrics
    apply deleteAll_holds (I := fun now rest => ∃ after,
      now = past ++ ⟨.shift (back p), answer⟩ :: after ∧
      (∀ e ∈ after, ∃ inst, e.question = .delete inst) ∧ made after = [] ∧
      deletions after ++ rest = s.canary)
    case allowed =>
      rintro now inst rest ⟨after, rfl, -, -, all⟩ other same
      cases same
      refine .inl (Own.later ?_)
      rw [Own, ← running.canaries, ← all]
      exact List.mem_map_of_mem (mem_append_right _ (mem_cons_self ..))
    case asked =>
      rintro now inst rest answer' ⟨after, rfl, only, nothing, all⟩
      refine ⟨after ++ [⟨.delete inst, answer'⟩], ?_, fun e mem => ?_, ?_, ?_⟩
      · rw [List.append_assoc, List.cons_append]
      · rcases mem_append.mp mem with before | last
        · exact only e before
        · rw [mem_singleton.mp last]
          exact ⟨inst, rfl⟩
      · rw [made_append, nothing]
        rfl
      · rw [deletions_append, ← all, List.append_assoc]
        rfl
    case start => exact ⟨[], rfl, fun e mem => absurd mem not_mem_nil, rfl, rfl⟩
  refine (deleted _).bind fun now r asked => ?_
  obtain ⟨after, rfl, only, nothing, all⟩ := asked
  refine Holds.pure ⟨⟨_, _, rfl⟩, past, answer, after, rfl, running.kept, only, ?_⟩
  rw [append_nil] at all
  rw [all, running.canaries, made_append]
  change _ = (made past ++ made after).map _
  rw [nothing, append_nil]

theorem rollBack_ends {J : History → Canary → Prop} {s' : Canary}
    (running : Running config count past s') (same : s.canary = s'.canary) (reason : CanaryReason)
    (err : StrategyError) :
    Careful p (EndsIn p J) past (do return .inr (← rollBack p s reason err)) :=
  (rollBack_failed running same reason err).bind fun _ _ failed => Holds.pure failed

theorem deployCanary_running (missing : Nat) (running : Running config count past s) :
    Careful p (EndsIn p (Running config count)) past (deployCanary p missing s) := by
  induction missing generalizing past s with
  | zero => exact Holds.pure running
  | succ missing ih =>
    refine Holds.call (permitted rfl) fun answer _ => ?_
    match answer with
    | .ok (some inst) => exact ih (running.created inst)
    | .ok none => exact rollBack_ends (running.refused (.ok none) trivial) rfl _ _
    | .error err => exact rollBack_ends (running.refused (.error err) trivial) rfl _ _

theorem Running.checked {before rest : List Instance} {inst : Instance}
    {answer : Except String Bool} (unhealthy : inst.healthy = false)
    (running : Running config count past { s with canary := before ++ inst :: rest }) :
    Running config count (past ++ [⟨.check inst, answer⟩])
      { s with canary := before ++ { inst with healthy := reportedHealthy answer } :: rest } := by
  obtain ⟨canaries, found, kept, passed⟩ := running
  refine ⟨?_, found_checked found unhealthy answer, ?_,
    fun unpromoted => StepsPassed.later passed unpromoted⟩
  · rw [made_append]
    change _ = (made past ++ []).map _
    rw [append_nil, ← canaries, map_append, map_append]
    rfl
  · rw [deletions_append, kept]
    rfl

theorem awaitCanary_running (fuel : Nat) (reason : StrategyError → CanaryReason)
    (running : Running config count past s) :
    Careful p (fun now ended => ∀ e, ended = some e → EndsIn p (fun now s' =>
      Running config count now s' ∧ s'.canary.length = s.canary.length ∧
        ∀ inst ∈ s'.canary, inst.healthy = true) now e) past
      (awaitCanary p config fuel s reason) := by
  have waited : Careful p (fun now waited => ∀ w, waited = some w →
      (Running config count now { s with canary := w.instances } ∧
        w.instances.length = s.canary.length) ∧
      (w.timeout = none → ∀ inst ∈ w.instances, inst.healthy = true)) past
      (waitHealthy (pollInterval config) fuel s.canary s.metrics.healthChecks) := by
    apply waitHealthy_holds (I := fun now insts => Running config count now { s with canary := insts } ∧
      insts.length = s.canary.length)
    case allowed => exact fun _ _ _ _ _ _ => permitted rfl
    case answered =>
      rintro now before inst rest answer unhealthy - ⟨running, length⟩
      refine ⟨running.checked unhealthy, ?_⟩
      rwa [length_append] at length ⊢
    case sleeps => exact fun _ _ _ _ => permitted rfl
    case slept => exact fun now insts interval answer _ kept => ⟨kept.1.later rfl rfl rfl, kept.2⟩
    case start => exact ⟨running, rfl⟩
  refine waited.bind fun now waited ended => ?_
  cases waited with
  | none =>
    refine Holds.pure fun e spent => ?_
    cases spent
  | some w =>
    obtain ⟨⟨running, length⟩, healthy⟩ := ended w rfl
    dsimp only
    split
    next inTime =>
      refine Holds.pure fun e here => ?_
      cases here
      exact ⟨running.same rfl, length, healthy inTime⟩
    next late =>
      refine Holds.bind (rollBack_failed running (by rfl) _ _) fun now outcome failed => ?_
      refine Holds.pure fun e here => ?_
      cases here
      exact failed

/-- The analysis of a step; if the deployment goes on, it has passed. -/
theorem analyseStep_running {step : CanaryStep} (here : config.steps[count]? = some step)
    (running : Running config count past s) :
    Careful p (EndsIn p (Running config (count + 1))) past (analyseStep p config s count step) := by
  have waits : Careful p (fun now _ => Running config count now s) past (awaitSamples config) := by
    unfold awaitSamples
    split
    · split
      · exact ⟨permitted rfl, fun answer _ => running.later rfl rfl rfl⟩
      · exact Holds.pure running
    · exact Holds.pure running
  have analysed : Careful p (fun now answer => Running config count now s ∧ ∀ result,
      answer = .ok result → result.pass = true → result.shouldRollback = false →
      StepPassed config now count) past (runAnalysis p config s count step) := by
    refine waits.bind fun now ended running => ?_
    cases ended with
    | some err => exact Holds.pure ⟨running, fun result never => nomatch never⟩
    | none =>
      refine Holds.call (permitted rfl) fun answer _ => ?_
      have later : Running config count
          (now ++ [⟨.analyse (analysisRequest p config s count step), answer⟩]) s :=
        running.later rfl rfl rfl
      match answer with
      | .error err => exact Holds.pure ⟨later, fun result never => nomatch never⟩
      | .ok none => exact Holds.pure ⟨later, fun result never => nomatch never⟩
      | .ok (some result) =>
        refine Holds.pure ⟨later, fun judged same passes stays => ?_⟩
        cases same
        exact ⟨_, result, mem_append_right _ (mem_singleton.mpr rfl), rfl, passes, stays⟩
  have next : ∀ {now : History} {s' : Canary}, Running config count now s' →
      (step.analysis = true → StepPassed config now count) → Running config (count + 1) now s' := by
    intro now s' running passed
    refine ⟨running.canaries, running.found, running.kept, fun unpromoted index small other at' asks => ?_⟩
    rcases Nat.lt_succ_iff_lt_or_eq.mp small with before | rfl
    · exact running.passed unpromoted index before other at' asks
    · cases here.symm.trans at'
      exact passed asks
  unfold analyseStep
  split
  next asks =>
    refine analysed.bind fun now answer after => ?_
    obtain ⟨running, passed⟩ := after
    cases answer with
    | error err => exact rollBack_ends running (by rfl) _ _
    | ok result =>
      dsimp only
      split
      next refused => exact rollBack_ends running (by rfl) _ _
      next accepted =>
        obtain ⟨passes, stays⟩ : result.pass = true ∧ result.shouldRollback = false := by
          simpa using accepted
        exact Holds.pure (next (running.same rfl) fun _ => passed result rfl passes stays)
  next silent => exact Holds.pure (next running fun asks => absurd asks silent)

theorem pauseAfter_running (running : Running config count past s) (step : CanaryStep) :
    Careful p (fun now _ => Running config count now s) past (pauseAfter step) := by
  unfold pauseAfter
  split
  · exact ⟨permitted rfl, fun answer _ => running.later rfl rfl rfl⟩
  · exact Holds.pure running

theorem Running.promoted (running : Running config count past s) (total : Nat) :
    Running config total (past ++ [⟨.promoted, true⟩]) s := by
  have later : Running config count (past ++ [⟨.promoted, true⟩]) s := running.later rfl rfl rfl
  refine ⟨later.canaries, later.found, later.kept, fun unpromoted => ?_⟩
  exact absurd (mem_append_right _ (mem_singleton.mpr rfl)) unpromoted

theorem runSteps_running (steps : List CanaryStep) (split : config.steps.drop count = steps)
    (running : Running config count past s) :
    Careful p (EndsIn p (Running config config.steps.length)) past
      (runSteps p config count steps s) := by
  induction steps generalizing count past s with
  | nil =>
    refine Holds.pure (show Running config config.steps.length past s from ?_)
    refine ⟨running.canaries, running.found, running.kept, fun unpromoted index small step => ?_⟩
    exact running.passed unpromoted index (Nat.lt_of_lt_of_le small (drop_eq_nil_iff.mp split)) step
  | cons step rest ih =>
    have here : config.steps[count]? = some step := by
      rw [← List.head?_drop, split]
      rfl
    have next : config.steps.drop (count + 1) = rest := by
      rw [← tail_drop, split]
      rfl
    refine Holds.call (permitted rfl) fun ended _ => ?_
    have asked : Running config count (past ++ [⟨.contextErr, ended⟩]) s := running.later rfl rfl rfl
    cases ended with
    | some err => exact rollBack_ends asked rfl _ _
    | none =>
      refine Holds.call (permitted rfl) fun promoted _ => ?_
      cases promoted with
      | true => exact Holds.pure (asked.promoted _)
      | false =>
        have unpromoted : Running config count _
            { s with progress := { s.progress with currentWeight := step.weight } } :=
          asked.later (e := ⟨.promoted, false⟩) rfl rfl rfl
        refine (tell_running unpromoted _ _ _).bind fun now s' told => ?_
        refine Holds.call (permitted rfl) fun shifted _ => ?_
        have later : Running config count (now ++ [⟨.shift (forth p step.weight), shifted⟩]) s' :=
          told.1.later rfl rfl rfl
        cases shifted with
        | some err => exact rollBack_ends later rfl _ _
        | none =>
          have counted : Running config count _ { s' with metrics :=
              { s'.metrics with trafficShifts := s'.metrics.trafficShifts + 1 } } :=
            later.same rfl
          refine (analyseStep_running here counted).bind fun now ended after => ?_
          cases ended with
          | inr outcome => exact Holds.pure after
          | inl s'' =>
            refine (pauseAfter_running after step).bind fun now paused after => ?_
            cases paused with
            | some err => exact rollBack_ends after rfl _ _
            | none => exact ih next after

/-- After a failed creation the deployment is rolled back or goes on as it is. -/
def GoesOn (p : ExecuteParams) (config : Config) (count : Nat) (s : Canary) (past : History) :
    Option CanaryOutcome → Prop
  | some outcome => Failed p past outcome
  | none => Running config count past s

theorem afterFailure_running (failures : Nat) (last : Option String)
    (running : Running config count past s) :
    Careful p (GoesOn p config count s) past (afterFailure p config s failures last) := by
  have ends : ∀ {now : History} reason err, Running config count now s →
      Careful p (GoesOn p config count s) now (do return some (← rollBack p s reason err)) := by
    intro now reason err running
    exact (rollBack_failed running rfl reason err).bind fun now outcome failed =>
      Holds.pure failed
  unfold afterFailure
  split
  · exact ends _ _ running
  · refine Holds.call (permitted rfl) fun answer _ => ?_
    have later : Running config count (past ++ [⟨.sleep (pollInterval config), answer⟩]) s :=
      running.later rfl rfl rfl
    cases answer with
    | some err => exact ends _ _ later
    | none => exact Holds.pure later

/-- The promotion goes on only with enough instances. -/
def Scaled (p : ExecuteParams) (config : Config) (count : Nat) (past : History)
    (ended : Option (Canary ⊕ CanaryOutcome)) : Prop :=
  ∀ e, ended = some e → EndsIn p (fun now s =>
    Running config count now s ∧ p.replicas.toInt ≤ s.canary.length) past e

theorem scaleUp_running (fuel failures : Nat) (running : Running config count past s) :
    Careful p (Scaled p config count) past (scaleUp p config fuel failures s) := by
  induction fuel generalizing past s failures with
  | zero =>
    refine Holds.pure fun e spent => ?_
    cases spent
  | succ fuel ih =>
    unfold scaleUp
    split
    next missing =>
      refine Holds.call (permitted rfl) fun ended _ => ?_
      have asked : Running config count (past ++ [⟨.contextErr, ended⟩]) s :=
        running.later rfl rfl rfl
      cases ended with
      | some err =>
        refine (rollBack_failed asked rfl _ _).bind fun now outcome failed => ?_
        refine Holds.pure fun e here => ?_
        cases here
        exact failed
      | none =>
        refine Holds.call (permitted rfl) fun answer _ => ?_
        -- a creation that failed is tried again, unless the deployment ends
        have again : ∀ answer last, noInstance answer → Careful p (Scaled p config count)
            (past ++ [⟨.contextErr, none⟩] ++ [⟨.create (instanceParams p "stable"), answer⟩])
            (do
              match ← afterFailure p config s.creationFailed (failures + 1) last with
              | some outcome => return some (.inr outcome)
              | none => scaleUp p config fuel (failures + 1) s.creationFailed) := by
          intro answer last nothing
          refine (afterFailure_running _ last (asked.refused answer nothing)).bind
            fun now ended after => ?_
          cases ended with
          | none => exact ih (failures + 1) after
          | some outcome =>
            refine Holds.pure fun e here => ?_
            cases here
            exact after
        match answer with
        | .ok (some inst) => exact ih failures (asked.created inst)
        | .ok none => exact again (.ok none) none trivial
        | .error err => exact again (.error err) (some err) trivial
    next enough =>
      refine Holds.pure fun e here => ?_
      cases here
      exact ⟨running, Int.not_lt.mp enough⟩

def Succeeded (p : ExecuteParams) (config : Config) (past : History) : Prop :=
  FullyShifted p past ∧ (Unpromoted past → StepsPassed config config.steps.length past)

theorem Succeeded.later {past later : History} (succeeded : Succeeded p config past) :
    Succeeded p config (past ++ later) :=
  ⟨succeeded.1.later, fun unpromoted => StepsPassed.later succeeded.2 unpromoted⟩

def Ended (p : ExecuteParams) (config : Config) (past : History) (outcome : CanaryOutcome) : Prop :=
  (∃ result, outcome = .finished result) ∧ Succeeded p config past ∨ Failed p past outcome

theorem takeOver_ended (running : Running config config.steps.length past s)
    (enough : p.replicas.toInt ≤ s.canary.length) (healthy : ∀ inst ∈ s.canary, inst.healthy = true) :
    Careful p (Ended p config) past (takeOver p config s) := by
  refine Holds.call (permitted rfl) fun answer _ => ?_
  have later : Running config config.steps.length (past ++ [⟨.shift (forth p 100), answer⟩]) s :=
    running.later rfl rfl rfl
  cases answer with
  | some err => exact (rollBack_failed later rfl _ _).imp fun now outcome failed => .inr failed
  | none =>
    have sizes := congrArg List.length running.canaries
    rw [length_map, length_map] at sizes
    have shifted : FullyShifted p (past ++ [⟨.shift (forth p 100), none⟩]) := by
      refine ⟨past, [], rfl, ?_, fun inst mem => ?_⟩
      · rw [← sizes]
        exact enough
      · have known := List.mem_map_of_mem (f := unflagged) mem
        rw [← running.canaries] at known
        obtain ⟨other, inside, same⟩ := List.mem_map.mp known
        have found := running.found other inside (healthy other inside)
        unfold FoundHealthy at found ⊢
        rw [← same]
        exact found
    have succeeded : Succeeded p config (past ++ [⟨.shift (forth p 100), none⟩]) :=
      ⟨shifted, later.passed⟩
    have deleted : ∀ metrics, Careful p (fun now _ => Succeeded p config now)
        (past ++ [⟨.shift (forth p 100), none⟩]) (deleteAll p.instances metrics) := by
      intro metrics
      apply deleteAll_holds (I := fun now _ => Succeeded p config now)
      case allowed => exact fun now inst rest succeeded other _ => .inr succeeded.1
      case asked => exact fun now inst rest answer succeeded => succeeded.later
      case start => exact succeeded
    refine (deleted _).bind fun now r succeeded => ?_
    unfold tell
    dsimp only
    split
    · refine Holds.call (permitted rfl) fun answer _ => ?_
      exact Holds.pure (.inl ⟨⟨_, rfl⟩, succeeded.later⟩)
    · exact Holds.pure (.inl ⟨⟨_, rfl⟩, succeeded⟩)

abbrev Ends (p : ExecuteParams) (config : Config) (past : History) (ended : Option CanaryOutcome) :
    Prop :=
  ∀ outcome, ended = some outcome → Ended p config past outcome

theorem ends_of_spent : Careful p (Ends p config) past (pure none) := by
  refine Holds.pure fun outcome spent => ?_
  cases spent

theorem ends_of_failed {outcome : CanaryOutcome} (failed : Failed p past outcome) :
    Careful p (Ends p config) past (pure (some outcome)) := by
  refine Holds.pure fun other same => ?_
  cases same
  exact .inr failed

theorem promotion_ended (fuel : Nat) (running : Running config config.steps.length past s) :
    Careful p (Ends p config) past (promotion p config fuel s) := by
  refine (tell_running running _ _ _).bind fun now s told => ?_
  refine (scaleUp_running fuel 0 told.1).bind fun now ended after => ?_
  match ended with
  | none => exact ends_of_spent
  | some (.inr outcome) => exact ends_of_failed (after _ rfl)
  | some (.inl s) =>
    obtain ⟨running, enough⟩ := after _ rfl
    refine (awaitCanary_running fuel _ running).bind fun now ended after => ?_
    match ended with
    | none => exact ends_of_spent
    | some (.inr outcome) => exact ends_of_failed (after _ rfl)
    | some (.inl s) =>
      obtain ⟨running, length, healthy⟩ := after _ rfl
      refine (takeOver_ended running (by omega) healthy).bind fun now outcome ended => ?_
      refine Holds.pure fun other same => ?_
      cases same
      exact ended

theorem phases_ended (p : ExecuteParams) (config : Config) (fuel : Nat) :
    Careful p (Ends p config) [] (phases p config fuel) := by
  have start : Running config 0 [] ⟨[], {}, none,
      ⟨"initializing", "Starting canary deployment", 0, 0, p.replicas.toInt, 0⟩⟩ :=
    ⟨rfl, fun inst mem => absurd mem not_mem_nil, rfl,
      fun _ index small => absurd small (Nat.not_lt_zero _)⟩
  refine (tell_running start _ _ _).bind fun now s told => ?_
  refine (deployCanary_running _ told.1).bind fun now ended after => ?_
  cases ended with
  | inr outcome => exact ends_of_failed after
  | inl s =>
    refine (awaitCanary_running fuel _ after).bind fun now ended after => ?_
    match ended with
    | none => exact ends_of_spent
    | some (.inr outcome) => exact ends_of_failed (after _ rfl)
    | some (.inl s) =>
      refine (runSteps_running config.steps rfl (after _ rfl).1).bind fun now ended after => ?_
      cases ended with
      | inr outcome => exact ends_of_failed after
      | inl s => exact promotion_ended fuel after

end Steps

/-! ## Whole deployments -/

/-- The configuration and the driver pass the checks, and there is at least one replica. -/
structure Accepted (p : ExecuteParams) (config : Config) : Prop where
  configured : p.config = some config
  valid : validate (some config) = none
  driver : requireDriver .canary p.callbacks true true = none
  replicas : ¬ p.replicas < 1

variable {p : ExecuteParams}

theorem execute_accepted {config : Config} (accepted : Accepted p config) (fuel : Nat) :
    execute (some p) fuel = phases p config fuel := by
  unfold execute
  dsimp only
  rw [accepted.configured, accepted.valid, accepted.driver]
  exact if_neg accepted.replicas

def Distinct (p : ExecuteParams) (past : History) : Prop :=
  ∀ inst ∈ made past, ∀ stable ∈ p.instances, inst.id ≠ stable.id

variable {past : History} {inst : Instance}

theorem Own.not_stable (own : Own past inst) (distinct : Distinct p past) :
    ∀ stable ∈ p.instances, inst.id ≠ stable.id := by
  obtain ⟨other, mem, same⟩ := List.mem_map.mp own
  intro stable inside equal
  exact distinct other mem stable inside ((congrArg Instance.id same).trans equal)

theorem RolledBack.own (back : RolledBack p past) : ∀ inst ∈ deletions past, Own past inst := by
  obtain ⟨before, answer, after, rfl, none, -, all⟩ := back
  intro inst mem
  have later : inst ∈ deletions after := by
    rwa [deletions_append, none] at mem
  rw [Own, ← all]
  exact List.mem_map_of_mem later

/-- Whatever the driver answers, and whenever the context ends or the deployment is promoted: what is
deleted before the new version has taken over is an instance the deployment made itself, no stable one;
a deployment that does not report success has been rolled back, with no stable instance deleted; and
success without a promotion means that every analysis has passed. -/
theorem canary_fails_back {p : ExecuteParams} {config : Config} (accepted : Accepted p config)
    (fuel : Nat) :
    (∀ history inst next, (execute (some p) fuel).Run history (.ask (.delete inst) next) →
      (Own history inst ∨ FullyShifted p history) ∧
      (Distinct p history → ∀ stable ∈ p.instances, inst.id = stable.id → FullyShifted p history)) ∧
    (∀ history outcome, (execute (some p) fuel).Run history (.done (some outcome)) →
      (∃ result, outcome = .finished result) ∧ FullyShifted p history ∧
        (Unpromoted history → ∀ index step, config.steps[index]? = some step →
          step.analysis = true → StepPassed config history index) ∨
      (∃ result err, outcome = .rolledBack result err) ∧ RolledBack p history ∧
        (Distinct p history →
          ∀ inst ∈ deletions history, ∀ stable ∈ p.instances, inst.id ≠ stable.id)) := by
  have careful := phases_ended p config fuel
  rw [← execute_accepted accepted] at careful
  constructor
  · intro history inst next run
    have reached := (careful.of_run run fun _ _ => trivial).1 inst rfl
    refine ⟨reached, fun distinct stable inside equal => ?_⟩
    rcases reached with own | shifted
    · exact absurd equal (own.not_stable distinct stable inside)
    · exact shifted
  · intro history outcome run
    have ended := careful.of_run run (fun _ _ => trivial) outcome rfl
    rcases ended with ⟨finished, shifted, passed⟩ | ⟨failed, back⟩
    · refine .inl ⟨finished, shifted, fun unpromoted index step here => ?_⟩
      obtain ⟨small, -⟩ := List.getElem?_eq_some_iff.mp here
      exact passed unpromoted index small step here
    · exact .inr ⟨failed, back, fun distinct inst member => (back.own inst member).not_stable distinct⟩

def twoSteps : Config where
  type := .canary
  maxSurge := 0
  maxUnavailable := 0
  steps := [⟨10, 0, true⟩, ⟨100, 0, false⟩]
  analysis := none
  healthCheck := none

/-- Two stable instances. -/
def twoReplicas : ExecuteParams where
  deploymentID := "d1"
  serviceName := "web"
  currentVersion := "v1"
  targetVersion := "v2"
  replicas := 2
  config := some twoSteps
  instances := [⟨"a", "v1", true⟩, ⟨"b", "v1", true⟩]
  callbacks := some ⟨true, true, true, true, true, false⟩

def nextDeletion {α : Type} : Driven α → Option Instance
  | .ask (.delete inst) _ => some inst
  | _ => none

theorem ask_of_nextDeletion {α : Type} {m : Driven α} (next : nextDeletion m = some inst) :
    ∃ rest, m = .ask (.delete inst) rest := by
  unfold nextDeletion at next
  split at next <;> cases next
  exact ⟨_, rfl⟩

/-- On a smooth driver the fourteenth question is the deletion of a stable instance. -/
theorem canary_fails_back_smooth :
    let run := (execute (some twoReplicas) 5).goOn (smoothly "c") 13 []
    nextDeletion run.2 = some ⟨"a", "v1", true⟩ ∧ FullyShifted twoReplicas run.1 := by
  intro run
  have deletes : nextDeletion run.2 = some ⟨"a", "v1", true⟩ := by decide +kernel
  have distinct : Distinct twoReplicas run.1 := by
    unfold Distinct
    decide +kernel
  have reached : (execute (some twoReplicas) 5).Run run.1 run.2 := run_goOn (smoothly "c") 13 _
  obtain ⟨rest, here⟩ := ask_of_nextDeletion deletes
  rw [here] at reached
  have accepted : Accepted twoReplicas twoSteps := ⟨rfl, by decide +kernel, rfl, by decide⟩
  exact ⟨deletes, ((canary_fails_back accepted 5).1 run.1 _ rest reached).2 distinct
    ⟨"a", "v1", true⟩ (mem_cons_self ..) rfl⟩

end Canary

end Unheaded.Deploy
