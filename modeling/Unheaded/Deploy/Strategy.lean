import Mathlib.Algebra.Group.Int.Defs
import Mathlib.Algebra.Group.Nat.Defs
import Mathlib.Data.Multiset.MapFold
import Unheaded.Lib.Asking

/-!
# Deployment strategies and their driver

A strategy acts on instances only through the callbacks of its driver.
-/

namespace Unheaded.Deploy

open Lib List Asking

abbrev Duration := Int

/-- `Type`. -/
inductive StrategyType where
  | rolling
  | blueGreen
  | canary
  | recreate
  | other (name : String)
  deriving DecidableEq

structure Instance where
  id : String
  version : String
  healthy : Bool
  deriving DecidableEq

structure CanaryStep where
  weight : Int64
  pause : Duration
  analysis : Bool

structure AnalysisConfig where
  errorRateThreshold : Float
  latencyP99Threshold : Duration
  successRateThreshold : Float
  interval : Duration

structure HealthCheckConfig where
  interval : Duration

structure Config where
  type : StrategyType
  maxSurge : Int64
  maxUnavailable : Int64
  steps : List CanaryStep
  analysis : Option AnalysisConfig
  healthCheck : Option HealthCheckConfig

structure InstanceParams where
  serviceName : String
  version : String
  labels : List (String × String)

structure TrafficShiftParams where
  oldVersion : String
  newVersion : String
  weight : Int64
  deriving DecidableEq

structure Progress where
  phase : String
  message : String
  percentage : Int
  updatedInstances : Nat
  totalInstances : Int
  currentWeight : Int64

structure AnalysisMetrics where
  errorRate : Float
  latencyP99 : Duration
  successRate : Float

/-- What an analysis says: the driver's own words, or the threshold that was missed. -/
inductive AnalysisMessage where
  | driver (text : String)
  | errorRateExceeds (rate threshold : Float)
  | successRateBelow (rate threshold : Float)
  | latencyExceeds (latency threshold : Duration)

structure AnalysisResult where
  pass : Bool
  message : AnalysisMessage
  metrics : Option AnalysisMetrics
  shouldRollback : Bool

structure AnalysisRequest where
  deploymentID : String
  serviceName : String
  stableVersion : String
  canaryVersion : String
  step : Nat
  weight : Int64
  canary : List Instance
  stable : List Instance
  config : Option AnalysisConfig

inductive ContextError where
  | canceled
  | deadlineExceeded
  deriving DecidableEq

/-- What a strategy asks. -/
inductive Call where
  | create (params : InstanceParams)
  | delete (inst : Instance)
  | check (inst : Instance)
  | shift (params : TrafficShiftParams)
  | analyse (request : AnalysisRequest)
  | report (progress : Progress)
  | contextErr
  | sleep (wait : Duration)
  | promoted

def Call.isDelete : Call → Bool
  | .delete _ => true
  | _ => false

abbrev Created (params : InstanceParams) := { inst : Instance // inst.version = params.version }

/-- A callback that fails gives the text of its error. -/
abbrev Answer : Call → Type
  | .create params => Except String (Option (Created params))
  | .delete _ => Option String
  | .check _ => Except String Bool
  | .shift _ => Option String
  | .analyse _ => Except String (Option AnalysisResult)
  | .report _ => Unit
  | .contextErr => Option ContextError
  | .sleep _ => Option ContextError
  | .promoted => Bool

abbrev Driven := Asking Call Answer

abbrev perform (c : Call) : Driven (Answer c) := call c

abbrev History := List (Exchange Call Answer)

/-- A driver on which every callback succeeds, with instances of one id, and a context that does not
end. -/
def smoothly (id : String) (_ : History) : (c : Call) → Answer c
  | .create params => .ok (some ⟨⟨id, params.version, false⟩, rfl⟩)
  | .delete _ => none
  | .check _ => .ok true
  | .shift _ => none
  | .analyse _ => .ok (some ⟨true, .driver "pass", none, false⟩)
  | .report _ => ()
  | .contextErr => none
  | .sleep _ => none
  | .promoted => false

/-- Which callbacks are set. -/
structure Callbacks where
  onInstanceCreate : Bool
  onInstanceDelete : Bool
  onHealthCheck : Bool
  onTrafficShift : Bool
  onAnalysis : Bool
  onProgress : Bool

structure ExecuteParams where
  deploymentID : String
  serviceName : String
  currentVersion : String
  targetVersion : String
  replicas : Int64
  config : Option Config
  instances : List Instance
  callbacks : Option Callbacks

structure ResultMetrics where
  instancesCreated : Nat := 0
  instancesDeleted : Nat := 0
  instancesFailed : Nat := 0
  healthChecks : Nat := 0
  trafficShifts : Nat := 0
  analysisRuns : Nat := 0

inductive StrategyError where
  | invalidConfig
  | replicas
  | expected (wanted got : StrategyType)
  | negative (field : String)
  | bothZero
  | noSteps
  | weightOutside (weight : Int64)
  | weightsNotIncreasing
  | finalWeight
  | threshold (field : String)
  | noDriver (type : StrategyType) (missing : List String)
  | instanceUpdateFailed
  | trafficShiftFailed
  | rollbackRequired (cause : Option StrategyError)
  | healthCheckTimeout (healthy total : Option Nat)
  | context (err : ContextError)
  | analysisCallback (err : String)
  | noAnalysisResult

def requireDriver (type : StrategyType) (cb : Option Callbacks) (traffic analysis : Bool) :
    Option StrategyError :=
  let cb := cb.getD ⟨false, false, false, false, false, false⟩
  let missing := (if cb.onInstanceCreate then [] else ["OnInstanceCreate"]) ++
    (if cb.onInstanceDelete then [] else ["OnInstanceDelete"]) ++
    (if cb.onHealthCheck then [] else ["OnHealthCheck"]) ++
    (if traffic && !cb.onTrafficShift then ["OnTrafficShift"] else []) ++
    (if analysis && !cb.onAnalysis then ["OnAnalysis"] else [])
  if missing = [] then none else some (.noDriver type missing)

def defaultPollInterval : Duration := 10 ^ 9

def maxPollInterval : Duration := 10 * 10 ^ 9

def pollInterval (config : Config) : Duration :=
  match config.healthCheck with
  | some health =>
    if 0 < health.interval then min health.interval maxPollInterval else defaultPollInterval
  | none => defaultPollInterval

def countHealthy (insts : List Instance) : Nat := insts.countP (·.healthy)

def reportedHealthy : Except String Bool → Bool
  | .ok healthy => healthy
  | .error _ => false

/-- Asks once about each instance that is not yet healthy. -/
def askUnhealthy : List Instance → Nat → Driven (List Instance × Nat × Bool)
  | [], checks => return ([], checks, false)
  | inst :: rest, checks =>
    if inst.healthy then do
      let (rest, checks, found) ← askUnhealthy rest checks
      return (inst :: rest, checks, found)
    else do
      let answer ← perform (.check inst)
      let (rest, checks, found) ← askUnhealthy rest (checks + 1)
      return ({ inst with healthy := reportedHealthy answer } :: rest, checks,
        reportedHealthy answer || found)

/-- The instances a wait ends with, the number of checks so far, and how many were healthy if the
context ended first. -/
structure Waited where
  instances : List Instance
  checks : Nat
  timeout : Option Nat

/-- `waitHealthy`; nothing when the fuel is spent. -/
def waitHealthy (interval : Duration) : Nat → List Instance → Nat → Driven (Option Waited)
  | 0, _, _ => return none
  | fuel + 1, insts, checks => do
    let (insts, checks, _) ← askUnhealthy insts checks
    if countHealthy insts = insts.length then return some ⟨insts, checks, none⟩
    else
      match ← perform (.sleep interval) with
      | some _ => return some ⟨insts, checks, some (countHealthy insts)⟩
      | none => waitHealthy interval fuel insts checks

/-- `deleteAll`: the number of deletions that failed, and the metrics. -/
def deleteAll : List Instance → ResultMetrics → Driven (Nat × ResultMetrics)
  | [], metrics => return (0, metrics)
  | inst :: rest, metrics => do
    match ← perform (.delete inst) with
    | some _ =>
      let (failed, metrics) ←
        deleteAll rest { metrics with instancesFailed := metrics.instancesFailed + 1 }
      return (failed + 1, metrics)
    | none => deleteAll rest { metrics with instancesDeleted := metrics.instancesDeleted + 1 }

/-- The instances that exist, each as it was last reported, after one more answer. -/
def fleetAfter (fleet : Multiset Instance) : Exchange Call Answer → Multiset Instance
  | ⟨.create _, .ok (some inst)⟩ => inst.1 ::ₘ fleet
  | ⟨.delete inst, none⟩ => fleet.erase inst
  | ⟨.check inst, answer⟩ =>
    if inst ∈ fleet then { inst with healthy := reportedHealthy answer } ::ₘ fleet.erase inst
    else fleet
  | _ => fleet

variable (start : List Instance)

def fleet (history : History) : Multiset Instance :=
  history.foldl fleetAfter start

@[simp] theorem fleet_nil : fleet start [] = start := rfl

@[simp] theorem fleet_append (past : History) (e : Exchange Call Answer) :
    fleet start (past ++ [e]) = fleetAfter (fleet start past) e := by
  rw [fleet, foldl_append]
  rfl

theorem fleetAfter_create (before : Multiset Instance) {params : InstanceParams}
    (inst : Created params) :
    fleetAfter before ⟨.create params, .ok (some inst)⟩ = inst.1 ::ₘ before := rfl

variable {before rest : List Instance} {inst : Instance}

theorem fleetAfter_delete (perm : before.Perm (inst :: rest)) :
    fleetAfter before ⟨.delete inst, none⟩ = rest := by
  change Multiset.erase before inst = rest
  rw [Multiset.coe_eq_coe.mpr perm, ← Multiset.cons_coe, Multiset.erase_cons_head]

theorem fleetAfter_check (before rest : List Instance) (inst : Instance)
    (answer : Except String Bool) :
    fleetAfter ((before ++ inst :: rest : List Instance) : Multiset Instance) ⟨.check inst, answer⟩ =
      ((before ++ { inst with healthy := reportedHealthy answer } :: rest : List Instance) :
        Multiset Instance) := by
  have mem : inst ∈ ((before ++ inst :: rest : List Instance) : Multiset Instance) :=
    Multiset.mem_coe.mpr (mem_append_right _ (mem_cons_self ..))
  change (if _ then _ else _) = _
  rw [if_pos mem, Multiset.coe_eq_coe.mpr perm_middle, ← Multiset.cons_coe,
    Multiset.erase_cons_head, Multiset.cons_coe, Multiset.coe_eq_coe]
  exact perm_middle.symm

def healthyIn (fleet : Multiset Instance) : Nat := fleet.countP fun inst => inst.healthy = true

theorem healthyIn_coe (insts : List Instance) : healthyIn insts = countHealthy insts := by
  rw [healthyIn, Multiset.coe_countP]
  congr 1
  funext inst
  exact Bool.decide_coe inst.healthy

def Instance.unflagged (inst : Instance) : Instance := { inst with healthy := false }

theorem fleetAfter_check_unflagged (fleet : Multiset Instance) (inst : Instance)
    (answer : Except String Bool) :
    (fleetAfter fleet ⟨.check inst, answer⟩).map Instance.unflagged =
      fleet.map Instance.unflagged := by
  change (if _ then _ else _ : Multiset Instance).map _ = _
  split
  next mem =>
    nth_rewrite 2 [← Multiset.cons_erase mem]
    rw [Multiset.map_cons, Multiset.map_cons]
    rfl
  next => rfl

def FoundHealthy (past : History) (inst : Instance) : Prop :=
  ⟨.check inst.unflagged, .ok true⟩ ∈ past

theorem mem_reflagged {other : Instance} {healthy : Bool}
    (mem : other ∈ before ++ { inst with healthy } :: rest) :
    other ∈ before ++ inst :: rest ∨ other = { inst with healthy } := by
  rcases mem_append.mp mem with first | later
  · exact .inl (mem_append_left _ first)
  · rcases mem_cons.mp later with equal | later
    · exact .inr equal
    · exact .inl (mem_append_right _ (mem_cons_of_mem _ later))

theorem found_checked {past : History}
    (found : ∀ other ∈ before ++ inst :: rest, other.healthy = true → FoundHealthy past other)
    (unhealthy : inst.healthy = false) (answer : Except String Bool) :
    ∀ other ∈ before ++ { inst with healthy := reportedHealthy answer } :: rest,
      other.healthy = true → FoundHealthy (past ++ [⟨.check inst, answer⟩]) other := by
  intro other inside healthy
  rcases mem_reflagged inside with old | rfl
  · exact mem_append_left _ (found other old healthy)
  · -- the answer just given is the report that is looked for
    have pos : answer = .ok true := by
      match answer, healthy with
      | .ok true, _ => rfl
    have same : Instance.unflagged { inst with healthy := reportedHealthy answer } = inst := by
      rw [Instance.unflagged, ← unhealthy]
    refine mem_append_right _ (mem_singleton.mpr ?_)
    rw [same, pos]

def noInstance {params : InstanceParams} : Answer (.create params) → Prop
  | .ok (some _) => False
  | .ok none => True
  | .error _ => True

def anyAnswer (c : Call) (_ : Answer c) : Prop := True

section Rules

variable {fits : (c : Call) → Answer c → Prop} {pre : History → Call → Prop} {past : History}

variable {insts : List Instance}

theorem askUnhealthy_holds {I : History → List Instance → List Instance → Prop}
    (healthy : ∀ past asked inst rest, inst.healthy = true → I past asked (inst :: rest) →
      I past (asked ++ [inst]) rest)
    (allowed : ∀ past asked inst rest, inst.healthy = false → I past asked (inst :: rest) →
      pre past (.check inst))
    (answered : ∀ past asked inst rest answer, inst.healthy = false → fits (.check inst) answer →
      I past asked (inst :: rest) →
      I (past ++ [⟨.check inst, answer⟩])
        (asked ++ [{ inst with healthy := reportedHealthy answer }]) rest)
    {asked : List Instance} {checks : Nat} (start : I past asked insts) :
    Holds fits pre (fun past r => I past (asked ++ r.1) []) past
      (askUnhealthy insts checks) := by
  induction insts generalizing past asked checks with
  | nil =>
    refine Holds.pure ?_
    rw [append_nil]
    exact start
  | cons inst rest ih =>
    unfold askUnhealthy
    split
    next isHealthy =>
      refine (ih (healthy past asked inst rest isHealthy start)).bind fun past r kept => ?_
      refine Holds.pure ?_
      rw [append_cons]
      exact kept
    next notHealthy =>
      rw [Bool.not_eq_true] at notHealthy
      refine Holds.call (allowed past asked inst rest notHealthy start) fun answer fit => ?_
      refine (ih (answered past asked inst rest answer notHealthy fit start)).bind
        fun past r kept => ?_
      refine Holds.pure ?_
      rw [append_cons]
      exact kept

theorem waitHealthy_holds {I : History → List Instance → Prop}
    (allowed : ∀ past insts inst, inst ∈ insts → inst.healthy = false → I past insts →
      pre past (.check inst))
    (answered : ∀ past before inst rest answer, inst.healthy = false → fits (.check inst) answer →
      I past (before ++ inst :: rest) →
      I (past ++ [⟨.check inst, answer⟩])
        (before ++ { inst with healthy := reportedHealthy answer } :: rest))
    (sleeps : ∀ past insts interval, I past insts → pre past (.sleep interval))
    (slept : ∀ past insts interval answer, fits (.sleep interval) answer → I past insts →
      I (past ++ [⟨.sleep interval, answer⟩]) insts)
    {interval : Duration} {fuel checks : Nat} (start : I past insts) :
    Holds fits pre (fun past waited => ∀ w, waited = some w → I past w.instances ∧
      (w.timeout = none → ∀ inst ∈ w.instances, inst.healthy = true)) past
      (waitHealthy interval fuel insts checks) := by
  induction fuel generalizing past insts checks with
  | zero =>
    refine Holds.pure fun w gone => ?_
    cases gone
  | succ fuel ih =>
    have asked : Holds fits pre (fun past r => I past ([] ++ r.1 ++ [])) past
        (askUnhealthy insts checks) := by
      apply askUnhealthy_holds (I := fun past before rest => I past (before ++ rest))
      · intro past before inst rest _ kept
        rw [← append_cons]
        exact kept
      · intro past before inst rest notHealthy kept
        exact allowed past _ inst (mem_append_right _ (mem_cons_self ..)) notHealthy kept
      · intro past before inst rest answer notHealthy fit kept
        rw [← append_cons]
        exact answered past before inst rest answer notHealthy fit kept
      · exact start
    refine asked.bind fun past ⟨insts, checks, found⟩ kept => ?_
    rw [append_nil] at kept
    dsimp only
    split
    next all =>
      refine Holds.pure fun w ended => ?_
      cases ended
      exact ⟨kept, fun _ => countP_eq_length.mp all⟩
    next =>
      refine Holds.call (sleeps past insts interval kept) fun answer fit => ?_
      have later := slept past insts interval answer fit kept
      cases answer with
      | some err =>
        refine Holds.pure fun w ended => ?_
        cases ended
        exact ⟨later, fun never => nomatch never⟩
      | none => exact ih later

theorem deleteAll_holds {I : History → List Instance → Prop}
    (allowed : ∀ past inst rest, I past (inst :: rest) → pre past (.delete inst))
    (asked : ∀ past inst rest answer, I past (inst :: rest) → I (past ++ [⟨.delete inst, answer⟩]) rest)
    {metrics : ResultMetrics} (start : I past insts) :
    Holds fits pre (fun past _ => I past []) past (deleteAll insts metrics) := by
  induction insts generalizing past metrics with
  | nil => exact Holds.pure start
  | cons inst rest ih =>
    refine Holds.call (allowed past inst rest start) fun answer _ => ?_
    have later := asked past inst rest answer start
    cases answer with
    | some err => exact (ih later).bind fun past r kept => Holds.pure kept
    | none => exact ih later

end Rules

end Unheaded.Deploy
