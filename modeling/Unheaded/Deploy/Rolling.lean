import Unheaded.Deploy.Strategy

/-!
# Rolling updates

Each pass of the loop creates new instances while there is room for them, asks about the new ones
that are not yet healthy, and deletes old ones while enough stay healthy.
-/

namespace Unheaded.Deploy

open Lib Asking

/-- `Message` of the result of a rolling update. -/
inductive RollingMessage where
  | stopped (err : ContextError)
  | creationsFailed (failures : Nat) (last : Option String)
  | didNotFinish (healthy : Nat) (replicas : Int) (old : Nat)
  | unhealthyAtEnd
  | completed (updated : Nat)

structure RollingResult where
  success : Bool
  message : RollingMessage
  instances : List Instance
  metrics : ResultMetrics

/-- What `Execute` returns: an error, a result with an error, or a result. -/
inductive RollingOutcome where
  | refused (err : StrategyError)
  | failed (result : RollingResult) (err : StrategyError)
  | finished (result : RollingResult)

/-- The variables of the loop. -/
structure Rolling where
  old : List Instance
  new : List Instance
  createFailures : Nat
  metrics : ResultMetrics
  progressed : Bool
  progress : Progress

namespace Rolling

def validate : Option Config → Option StrategyError
  | none => some .invalidConfig
  | some config =>
    if config.type ≠ .rolling then some (.expected .rolling config.type)
    else if config.maxSurge < 0 then some (.negative "max_surge")
    else if config.maxUnavailable < 0 then some (.negative "max_unavailable")
    else if config.maxSurge = 0 ∧ config.maxUnavailable = 0 then some .bothZero
    else none

variable (p : ExecuteParams)

/-- `params.Replicas + maxSurge`. -/
def limit (config : Config) : Int := (p.replicas + config.maxSurge).toInt

def minAvailable (config : Config) : Int :=
  max (p.replicas - config.maxUnavailable).toInt 0

variable (s : Rolling)

def fail (message : RollingMessage) (err : StrategyError) : RollingOutcome :=
  .failed ⟨false, message, s.new, s.metrics⟩ err

def instanceParams : InstanceParams where
  serviceName := p.serviceName
  version := p.targetVersion
  labels := [("deployment", p.deploymentID), ("version", p.targetVersion)]

def created (inst : Instance) : Rolling := { s with
    new := s.new ++ [inst]
    metrics := { s.metrics with instancesCreated := s.metrics.instancesCreated + 1 }
    progressed := true }

def creationFailed : Rolling := { s with
    createFailures := s.createFailures + 1
    metrics := { s.metrics with instancesFailed := s.metrics.instancesFailed + 1 } }

/-- After a failed creation the surge is over, and the update too after too many of them. -/
def afterFailure (s : Rolling) (last : Option String) : Rolling ⊕ RollingOutcome :=
  if p.replicas.toInt < s.creationFailed.createFailures then
    .inr (s.creationFailed.fail (.creationsFailed s.creationFailed.createFailures last)
      .instanceUpdateFailed)
  else .inl s.creationFailed

def wantsMore (config : Config) (s : Rolling) : Prop :=
  (s.new.length : Int) < p.replicas.toInt ∧ (s.new.length + s.old.length : Int) < limit p config

instance (p : ExecuteParams) (config : Config) (s : Rolling) : Decidable (wantsMore p config s) :=
  inferInstanceAs (Decidable (_ ∧ _))

/-- The first loop of a pass; the number is that of the replicas still missing. -/
def surge (p : ExecuteParams) (config : Config) : Nat → Rolling → Driven (Rolling ⊕ RollingOutcome)
  | 0, s => return .inl s
  | missing + 1, s =>
    if wantsMore p config s then do
      match ← perform (.create (instanceParams p)) with
      | .ok (some inst) => surge p config missing (s.created inst.1)
      | .ok none => return afterFailure p s none
      | .error err => return afterFailure p s (some err)
    else return .inl s

/-- The second loop of a pass. -/
def checkNew : Driven Rolling := do
  let (new, checks, found) ← askUnhealthy s.new s.metrics.healthChecks
  return { s with
    new
    metrics := { s.metrics with healthChecks := checks }
    progressed := s.progressed || found }

def victimIndex (old : List Instance) : Nat := (old.findIdx? fun inst => !inst.healthy).getD 0

def healthyWithout (victim : Instance) : Int :=
  countHealthy s.new + countHealthy s.old - if victim.healthy then 1 else 0

def blocked (config : Config) (s : Rolling) (victim : Instance) : Prop :=
  s.healthyWithout victim < minAvailable p config ∧
    (s.new.length + s.old.length : Int) ≤ limit p config

instance (p : ExecuteParams) (config : Config) (s : Rolling) (victim : Instance) :
    Decidable (s.blocked p config victim) :=
  inferInstanceAs (Decidable (_ ∧ _))

def deleted : Rolling := { s with
    old := s.old.eraseIdx (victimIndex s.old)
    metrics := { s.metrics with instancesDeleted := s.metrics.instancesDeleted + 1 }
    progressed := true }

def deletionFailed : Rolling :=
  { s with metrics := { s.metrics with instancesFailed := s.metrics.instancesFailed + 1 } }

/-- The third loop of a pass; the number is that of the old instances. -/
def deleteOld (p : ExecuteParams) (config : Config) : Nat → Rolling → Driven Rolling
  | 0, s => return s
  | left + 1, s =>
    match s.old[victimIndex s.old]? with
    | none => return s
    | some victim =>
      if s.blocked p config victim then return s
      else do
        match ← perform (.delete victim) with
        | some _ => return s.deletionFailed
        | none => deleteOld p config left s.deleted

/-- What a pass reports. -/
def progressOf (s : Rolling) : Progress where
  phase := "rolling"
  message := s!"Rolling update: {countHealthy s.new}/{p.replicas.toInt} new healthy, {s.old.length} old left"
  percentage := min ((countHealthy s.new : Int) * 100 / p.replicas.toInt) 100
  updatedInstances := countHealthy s.new
  totalInstances := p.replicas.toInt
  currentWeight := 0

/-- `OnProgress`, if it is set. -/
def report (progress : Progress) : Driven Unit :=
  if (p.callbacks.map (·.onProgress)).getD false then perform (.report progress) else return

def sleepError : ContextError → StrategyError
  | .deadlineExceeded => .healthCheckTimeout none none
  | .canceled => .context .canceled

/-- One pass of the loop. -/
def pass (config : Config) (s : Rolling) : Driven (Rolling ⊕ RollingOutcome) := do
  match ← surge p config (p.replicas.toInt - s.new.length).toNat { s with progressed := false } with
  | .inr outcome => return .inr outcome
  | .inl s =>
    let s ← checkNew s
    let s ← deleteOld p config s.old.length s
    let s := { s with progress := progressOf p s }
    report p s.progress
    if s.progressed then return .inl s
    else
      match ← perform (.sleep (pollInterval config)) with
      | none => return .inl s
      | some err =>
        return .inr (s.fail (.didNotFinish (countHealthy s.new) p.replicas.toInt s.old.length)
          (sleepError err))

def unfinished (s : Rolling) : Prop :=
  (s.new.length : Int) < p.replicas.toInt ∨ 0 < s.old.length

instance (p : ExecuteParams) (s : Rolling) : Decidable (s.unfinished p) :=
  inferInstanceAs (Decidable (_ ∨ _))

/-- The rolling phase; nothing when the fuel is spent. -/
def loop (p : ExecuteParams) (config : Config) :
    Nat → Rolling → Driven (Option (Rolling ⊕ RollingOutcome))
  | 0, _ => return none
  | fuel + 1, s =>
    if s.unfinished p then do
      match ← perform .contextErr with
      | some err => return some (.inr (s.fail (.stopped err) (.context err)))
      | none =>
        match ← pass p config s with
        | .inr outcome => return some (.inr outcome)
        | .inl s => loop p config fuel s
    else return some (.inl s)

def start : Rolling where
  old := p.instances.filter fun inst => inst.version ≠ p.targetVersion
  new := p.instances.filter fun inst => inst.version = p.targetVersion
  createFailures := 0
  metrics := {}
  progressed := false
  progress := ⟨"rolling", "Starting rolling update", 0, 0, p.replicas.toInt, 0⟩

/-- The final verification: every new instance is healthy now. -/
def verify (config : Config) (fuel : Nat) (s : Rolling) : Driven (Option RollingOutcome) := do
  let new := s.new.map fun inst => { inst with healthy := false }
  match ← waitHealthy (pollInterval config) fuel new s.metrics.healthChecks with
  | none => return none
  | some waited =>
    let s := { s with
      new := waited.instances
      metrics := { s.metrics with healthChecks := waited.checks } }
    match waited.timeout with
    | some healthy =>
      return some (s.fail .unhealthyAtEnd (.healthCheckTimeout (some healthy) (some s.new.length)))
    | none =>
      report p { s.progress with phase := "completed", percentage := 100 }
      return some (.finished ⟨true, .completed s.new.length, s.new, s.metrics⟩)

/-- `Execute`; nothing when the fuel is spent. -/
def execute (params : Option ExecuteParams) (fuel : Nat) : Driven (Option RollingOutcome) :=
  match params with
  | none => return some (.refused .invalidConfig)
  | some p =>
    match validate p.config, p.config with
    | some err, _ => return some (.refused err)
    | none, none => return some (.refused .invalidConfig)
    | none, some config =>
      match requireDriver .rolling p.callbacks false false with
      | some err => return some (.refused err)
      | none =>
        if p.replicas < 1 then return some (.refused .replicas)
        else do
          match ← loop p config fuel (start p) with
          | none => return none
          | some (.inr outcome) => return some outcome
          | some (.inl s) => verify p config fuel s

/-- The configuration and the driver pass the checks, and there is at least one replica. -/
structure Accepted (p : ExecuteParams) (config : Config) : Prop where
  configured : p.config = some config
  valid : validate (some config) = none
  driver : requireDriver .rolling p.callbacks false false = none
  replicas : 1 ≤ p.replicas.toInt

variable {p : ExecuteParams} {config : Config}

theorem execute_accepted (accepted : Accepted p config) (fuel : Nat) : execute (some p) fuel = (do
      match ← loop p config fuel (start p) with
      | none => return none
      | some (.inr outcome) => return some outcome
      | some (.inl s) => verify p config fuel s) := by
  have pos : ¬ p.replicas < 1 := by
    have := accepted.replicas
    rw [Int64.lt_iff_toInt_lt, show (1 : Int64).toInt = 1 from rfl]
    omega
  unfold execute
  dsimp only
  rw [accepted.configured, accepted.valid, accepted.driver]
  exact if_neg pos

theorem Accepted.ranges (accepted : Accepted p config) :
    0 ≤ config.maxSurge.toInt ∧ 0 ≤ config.maxUnavailable.toInt ∧
      ¬ (config.maxSurge.toInt = 0 ∧ config.maxUnavailable.toInt = 0) := by
  have valid := accepted.valid
  dsimp only [validate] at valid
  split at valid
  · cases valid
  split at valid
  · cases valid
  split at valid
  · cases valid
  split at valid
  · cases valid
  next surge unavailable zero =>
    rw [Int64.lt_iff_toInt_lt, show (0 : Int64).toInt = 0 from rfl] at surge unavailable
    rw [← Int64.toInt_inj, ← Int64.toInt_inj, show (0 : Int64).toInt = 0 from rfl] at zero
    omega

variable {p : ExecuteParams} {config : Config}

theorem limit_of_fits (accepted : Accepted p config)
    (fit : p.replicas.toInt + config.maxSurge.toInt < 2 ^ 63) :
    limit p config = p.replicas.toInt + config.maxSurge.toInt := by
  have ranges := accepted.ranges
  have replicas := accepted.replicas
  rw [limit, Int64.toInt_add]
  apply Int.bmod_eq_of_le <;> omega

theorem limit_of_overflow (fit : 2 ^ 63 ≤ p.replicas.toInt + config.maxSurge.toInt) :
    limit p config < 0 := by
  have replicas := p.replicas.toInt_lt
  have surge := config.maxSurge.toInt_lt
  rw [limit, Int64.toInt_add, Int.bmod_def]
  omega

theorem minAvailable_eq (accepted : Accepted p config) :
    minAvailable p config = max (p.replicas.toInt - config.maxUnavailable.toInt) 0 := by
  have ranges := accepted.ranges
  have replicas := accepted.replicas
  have small := p.replicas.toInt_lt
  have unavailable := config.maxUnavailable.toInt_lt
  rw [minAvailable, Int64.toInt_sub]
  congr 1
  apply Int.bmod_eq_of_le <;> omega

/-- A part of a pass ends in `J`, or with an outcome of `E`. -/
def EndsIn (J : History → Rolling → Prop) (E : RollingOutcome → Prop) (past : History) :
    Rolling ⊕ RollingOutcome → Prop
  | .inl s => J past s
  | .inr outcome => E outcome

section Rules

variable {fits : (c : Call) → Answer c → Prop} {pre : History → Call → Prop} {past : History}
  {I J : History → Rolling → Prop} {E : RollingOutcome → Prop} {s : Rolling}

theorem surge_holds
    (asks : ∀ past s, I past s → wantsMore p config s → pre past (.create (instanceParams p)))
    (made : ∀ past s inst, I past s → wantsMore p config s →
      I (past ++ [⟨.create (instanceParams p), .ok (some inst)⟩]) (s.created inst.1))
    (failed : ∀ past s answer, fits (.create (instanceParams p)) answer → noInstance answer →
      I past s → J (past ++ [⟨.create (instanceParams p), answer⟩]) s.creationFailed)
    (gaveUp : ∀ answer result err, fits (.create (instanceParams p)) answer → noInstance answer →
      E (.failed result err)) (stop : ∀ past s, I past s → ¬ wantsMore p config s → J past s)
    {missing : Nat} (enough : p.replicas.toInt - s.new.length ≤ missing) (start : I past s) :
    Holds fits pre (EndsIn J E) past (surge p config missing s) := by
  induction missing generalizing past s with
  | zero =>
    refine Holds.pure (stop past s start fun more => ?_)
    have := more.1
    omega
  | succ missing ih =>
    have refused : ∀ answer last, fits (.create (instanceParams p)) answer → noInstance answer →
        Holds fits pre (EndsIn J E) (past ++ [⟨.create (instanceParams p), answer⟩])
          (pure (afterFailure p s last) : Driven _) := by
      intro answer last fit nothing
      refine Holds.pure ?_
      unfold afterFailure
      split
      · exact gaveUp answer _ _ fit nothing
      · exact failed past s answer fit nothing start
    unfold surge
    split
    next more =>
      refine Holds.call (asks past s start more) fun answer fit => ?_
      match answer with
      | .ok (some inst) =>
        refine ih ?_ (made past s inst start more)
        have grown : (s.created inst.1).new.length = s.new.length + 1 := List.length_append
        omega
      | .ok none => exact refused _ _ fit trivial
      | .error err => exact refused _ _ fit trivial
    next full => exact Holds.pure (stop past s start full)

variable {old : List Instance}

theorem victim_of_ne_nil (some : old ≠ []) : ∃ victim, old[victimIndex old]? = .some victim := by
  have inside : victimIndex old < old.length := by
    unfold victimIndex
    cases found : old.findIdx? fun inst => !inst.healthy with
    | none => exact List.length_pos_iff.mpr some
    | some i => exact (List.findIdx?_eq_some_iff_findIdx_eq.mp found).1
  exact ⟨old[victimIndex old], List.getElem?_eq_getElem inside⟩

variable {victim : Instance}

theorem all_healthy_of_victim (chosen : old[victimIndex old]? = some victim)
    (healthy : victim.healthy = true) : ∀ inst ∈ old, inst.healthy = true := by
  unfold victimIndex at chosen
  cases found : old.findIdx? fun inst => !inst.healthy with
  | none =>
    intro inst mem
    have := List.findIdx?_eq_none_iff.mp found inst mem
    simpa using this
  | some i =>
    obtain ⟨inside, unhealthy, -⟩ := List.findIdx?_eq_some_iff_getElem.mp found
    rw [found, Option.getD_some, List.getElem?_eq_getElem inside] at chosen
    cases chosen
    rw [healthy] at unhealthy
    cases unhealthy

theorem perm_deleted (chosen : old[victimIndex old]? = some victim) :
    old.Perm (victim :: old.eraseIdx (victimIndex old)) := by
  obtain ⟨inside, rfl⟩ := List.getElem?_eq_some_iff.mp chosen
  exact (List.getElem_cons_eraseIdx_perm inside).symm

theorem length_deleted (chosen : s.old[victimIndex s.old]? = some victim) :
    s.old.length = s.deleted.old.length + 1 := (perm_deleted chosen).length_eq

theorem countHealthy_deleted (chosen : s.old[victimIndex s.old]? = some victim) :
    countHealthy s.old = countHealthy s.deleted.old + if victim.healthy then 1 else 0 := by
  rw [countHealthy, (perm_deleted chosen).countP_eq, List.countP_cons]
  rfl

theorem deleteOld_holds (asks : ∀ past s victim, s.old[victimIndex s.old]? = some victim →
      ¬ s.blocked p config victim → I past s → pre past (.delete victim))
    (gone : ∀ past s victim, s.old[victimIndex s.old]? = some victim →
      ¬ s.blocked p config victim → I past s → I (past ++ [⟨.delete victim, none⟩]) s.deleted)
    (failed : ∀ past s victim err, fits (.delete victim) (some err) → I past s →
      J (past ++ [⟨.delete victim, some err⟩]) s.deletionFailed)
    (stop : ∀ past s, (∀ victim, s.old[victimIndex s.old]? = some victim →
      s.blocked p config victim) → I past s → J past s)
    {left : Nat} (enough : s.old.length ≤ left) (start : I past s) :
    Holds fits pre J past (deleteOld p config left s) := by
  induction left generalizing past s with
  | zero =>
    refine Holds.pure (stop past s (fun victim chosen => ?_) start)
    obtain ⟨inside, -⟩ := List.getElem?_eq_some_iff.mp chosen
    omega
  | succ left ih =>
    unfold deleteOld
    split
    next none =>
      refine Holds.pure (stop past s (fun victim chosen => ?_) start)
      simp [none] at chosen
    next victim chosen =>
      split
      next blocked =>
        refine Holds.pure (stop past s (fun other chosen' => ?_) start)
        cases chosen.symm.trans chosen'
        exact blocked
      next free =>
        refine Holds.call (asks past s victim chosen free start) fun answer fit => ?_
        cases answer with
        | some err => exact Holds.pure (failed past s victim err fit start)
        | none =>
          refine ih ?_ (gone past s victim chosen free start)
          have shorter := length_deleted chosen
          omega

end Rules

end Rolling

end Unheaded.Deploy
