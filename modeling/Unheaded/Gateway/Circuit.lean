import Unheaded.Lib.Traces

/-!
# The gateway's circuit breaker

`proxy/circuit.go`.
-/

namespace Unheaded.Gateway

open Lib

/-! ## The breaker -/

structure CircuitConfig where
  enabled : Bool
  failureThreshold : Int
  successThreshold : Int
  timeout : Int
  halfOpenRequests : Int

inductive CircuitState where
  | circuitClosed | circuitOpen | circuitHalfOpen
  deriving DecidableEq, Repr

/-- `CircuitBreaker`; times are in nanoseconds. -/
structure CircuitBreaker where
  state : CircuitState
  failures : Int
  successes : Int
  lastStateChange : Int
  halfOpenRequests : Int

/-- The largest `time.Duration`. -/
def maxDuration : Int := 9223372036854775807

/-- `Time.Sub`: a difference that no `time.Duration` holds is cut off. -/
def timeSub (t u : Int) : Int := max (-maxDuration - 1) (min (t - u) maxDuration)

namespace CircuitBreaker

/-- `NewCircuitBreaker`. -/
def new (now : Int) : CircuitBreaker where
  state := .circuitClosed
  failures := 0
  successes := 0
  lastStateChange := now
  halfOpenRequests := 0

/-- `transitionTo`, at the time `stamp`. -/
def transitionTo (cb : CircuitBreaker) (state : CircuitState) (stamp : Int) : CircuitBreaker :=
  if cb.state = state then cb
  else { state, failures := 0, successes := 0, lastStateChange := stamp, halfOpenRequests := 0 }

variable (cfg : CircuitConfig)

/-- `Allow`: the clock is read for the age of the state, and again for a transition. -/
def allow (cb : CircuitBreaker) (now stamp : Int) : Bool × CircuitBreaker :=
  if !cfg.enabled then (true, cb)
  else
    match cb.state with
    | .circuitClosed => (true, cb)
    | .circuitOpen =>
      if cfg.timeout < timeSub now cb.lastStateChange then
        (true, { cb.transitionTo .circuitHalfOpen stamp with halfOpenRequests := 1 })
      else (false, cb)
    | .circuitHalfOpen =>
      if cb.halfOpenRequests < cfg.halfOpenRequests then
        (true, { cb with halfOpenRequests := cb.halfOpenRequests + 1 })
      else (false, cb)

def recordSuccess (cb : CircuitBreaker) (stamp : Int) : CircuitBreaker :=
  if !cfg.enabled then cb
  else
    match cb.state with
    | .circuitClosed => { cb with failures := 0 }
    | .circuitOpen => cb
    | .circuitHalfOpen =>
      let counted := { cb with successes := cb.successes + 1 }
      if cfg.successThreshold ≤ counted.successes then counted.transitionTo .circuitClosed stamp
      else counted

def recordFailure (cb : CircuitBreaker) (stamp : Int) : CircuitBreaker :=
  if !cfg.enabled then cb
  else
    match cb.state with
    | .circuitClosed =>
      let counted := { cb with failures := cb.failures + 1 }
      if cfg.failureThreshold ≤ counted.failures then counted.transitionTo .circuitOpen stamp
      else counted
    | .circuitOpen => cb
    | .circuitHalfOpen => cb.transitionTo .circuitOpen stamp

def reset (cb : CircuitBreaker) (stamp : Int) : CircuitBreaker := cb.transitionTo .circuitClosed stamp

end CircuitBreaker

/-! ## The breaker behind the proxy -/

/-- The breaker with the requests that it let through and that are not over: those that have not
failed, and those that have and are tried again. -/
structure Proxied where
  breaker : CircuitBreaker
  fresh : Nat
  failed : Nat

/-- A call of the breaker by `ServeHTTP`, or the end of a request without one: all retries have failed,
or `proxyRequest` panics. -/
inductive Call where
  | allow (now stamp : Int)
  | recordSuccess (retried : Bool) (stamp : Int)
  | recordFailure (retried : Bool) (stamp : Int)
  | giveUp
  | panics (retried : Bool)
  | reset (stamp : Int)

variable (cfg : CircuitConfig)

/-- What a call does; `none` where there is no request that makes it. -/
def step (s : Proxied) : Call → Option Proxied
  | .allow now stamp =>
    let asked := s.breaker.allow cfg now stamp
    some { s with breaker := asked.2, fresh := if asked.1 then s.fresh + 1 else s.fresh }
  | .recordSuccess retried stamp =>
    let breaker := s.breaker.recordSuccess cfg stamp
    if retried then
      if s.failed = 0 then none else some { s with breaker, failed := s.failed - 1 }
    else if s.fresh = 0 then none
    else some { s with breaker, fresh := s.fresh - 1 }
  | .recordFailure retried stamp =>
    let breaker := s.breaker.recordFailure cfg stamp
    if retried then if s.failed = 0 then none else some { s with breaker }
    else if s.fresh = 0 then none
    else some { breaker, fresh := s.fresh - 1, failed := s.failed + 1 }
  | .giveUp => if s.failed = 0 then none else some { s with failed := s.failed - 1 }
  | .panics retried =>
    if retried then if s.failed = 0 then none else some { s with failed := s.failed - 1 }
    else if s.fresh = 0 then none
    else some { s with fresh := s.fresh - 1 }
  | .reset stamp => some { s with breaker := s.breaker.reset stamp }

def Reachable (s : Proxied) : Prop :=
  ∃ created calls, runAll (step cfg) ⟨.new created, 0, 0⟩ calls = some s

/-- A call after which `rest` of the requests that were let through since some point are not over,
when `later` of them were not: these only succeed. Those from before also end unrecorded. -/
inductive Answers (cfg : CircuitConfig) (s : Proxied) (later : Nat) : Call → Nat → Prop where
  | allow (now stamp : Int) : Answers cfg s later (.allow now stamp)
      (if (s.breaker.allow cfg now stamp).1 then later + 1 else later)
  | success (stamp : Int) {rest : Nat} (one : later = rest + 1) :
      Answers cfg s later (.recordSuccess false stamp) rest
  | earlierSuccess (retried : Bool) (stamp : Int) (earlier : retried = false → later < s.fresh) :
      Answers cfg s later (.recordSuccess retried stamp) later
  | giveUp : Answers cfg s later .giveUp later
  | panics (retried : Bool) (earlier : retried = false → later < s.fresh) :
      Answers cfg s later (.panics retried) later

/-- An endless run in which requests keep arriving, at times without a bound, and every request that
is let through from its start on succeeds. -/
structure Recovering (cfg : CircuitConfig) (states : Nat → Proxied) (calls : Nat → Call)
    (later : Nat → Nat) : Prop where
  steps : ∀ n, step cfg (states n) (calls n) = some (states (n + 1))
  begins : later 0 = 0
  answers : ∀ n, Answers cfg (states n) (later n) (calls n) (later (n + 1))
  arrive : ∀ n t, ∃ m, n ≤ m ∧ ∃ now stamp, calls m = .allow now stamp ∧ t < now
  answered : ∀ n, 0 < later n → ∃ m, n ≤ m ∧ later (m + 1) < later m

def ClosedFrom (states : Nat → Proxied) (n : Nat) : Prop :=
  ∀ m, n ≤ m → (states m).breaker.state = .circuitClosed ∧
    ∀ now stamp, ((states m).breaker.allow cfg now stamp).1 = true

def Recovers (s : Proxied) : Prop :=
  ∀ states calls later, states 0 = s → Recovering cfg states calls later →
    ∃ n, ClosedFrom cfg states n

/-- The breaker is closed; or it is open, its limit of half-open requests is not below the threshold
of successes and its timeout is not the largest duration, which no elapsed time exceeds; or it is
half-open and the requests that it may still let through make up for the successes that it lacks. -/
def MayClose (s : Proxied) : Prop :=
  match s.breaker.state with
  | .circuitClosed => True
  | .circuitOpen => cfg.successThreshold ≤ cfg.halfOpenRequests ∧ cfg.timeout < maxDuration
  | .circuitHalfOpen => cfg.successThreshold ≤
      s.breaker.successes + (cfg.halfOpenRequests - s.breaker.halfOpenRequests)

/-- An enabled configuration with positive thresholds, limit and timeout. -/
structure CircuitConfig.Positive (cfg : CircuitConfig) : Prop where
  enabled : cfg.enabled = true
  failureThreshold : 0 < cfg.failureThreshold
  successThreshold : 0 < cfg.successThreshold
  timeout : 0 < cfg.timeout
  halfOpenRequests : 0 < cfg.halfOpenRequests

variable {cfg : CircuitConfig} {s s' : Proxied} {states : Nat → Proxied} {calls : Nat → Call}
  {later : Nat → Nat}

/-! ## Half-open breakers -/

/-- A half-open breaker has counted too few successes. -/
def CircuitBreaker.Waits (cfg : CircuitConfig) (cb : CircuitBreaker) : Prop :=
  cb.state = .circuitHalfOpen → cb.successes < cfg.successThreshold

theorem CircuitBreaker.state_transitionTo (cb : CircuitBreaker) (state : CircuitState) (stamp : Int) :
    (cb.transitionTo state stamp).state = state := by
  unfold transitionTo
  split
  next same => exact same
  next => rfl

/-! What the breaker does in each state. -/

section States

variable {cb : CircuitBreaker} (positive : cfg.Positive) {now stamp : Int}

theorem CircuitBreaker.allow_closed (state : cb.state = .circuitClosed) :
    cb.allow cfg now stamp = (true, cb) := by
  rw [allow, state]
  split <;> rfl

theorem CircuitBreaker.recordSuccess_closed (state : cb.state = .circuitClosed) :
    (cb.recordSuccess cfg stamp).state = .circuitClosed := by
  rw [recordSuccess, state]
  split
  · exact state
  · rfl

theorem CircuitBreaker.recordSuccess_open (state : cb.state = .circuitOpen) :
    cb.recordSuccess cfg stamp = cb := by
  rw [recordSuccess, state]
  split <;> rfl

include positive

theorem CircuitBreaker.allow_open (state : cb.state = .circuitOpen) :
    cb.allow cfg now stamp = if cfg.timeout < timeSub now cb.lastStateChange then
      (true, ⟨.circuitHalfOpen, 0, 0, stamp, 1⟩) else (false, cb) := by
  rw [allow, transitionTo, positive.enabled, state]
  rfl

theorem CircuitBreaker.allow_halfOpen (state : cb.state = .circuitHalfOpen) :
    cb.allow cfg now stamp = if cb.halfOpenRequests < cfg.halfOpenRequests then
      (true, { cb with halfOpenRequests := cb.halfOpenRequests + 1 }) else (false, cb) := by
  rw [allow, positive.enabled, state]
  rfl

theorem CircuitBreaker.recordSuccess_halfOpen (state : cb.state = .circuitHalfOpen) :
    cb.recordSuccess cfg stamp = if cfg.successThreshold ≤ cb.successes + 1 then
      ⟨.circuitClosed, 0, 0, stamp, 0⟩ else { cb with successes := cb.successes + 1 } := by
  unfold recordSuccess transitionTo
  rw [positive.enabled, state]
  rfl

theorem CircuitBreaker.recordFailure_ne (cb : CircuitBreaker) (stamp : Int) :
    (cb.recordFailure cfg stamp).state ≠ .circuitHalfOpen := by
  rw [recordFailure, positive.enabled, Bool.not_true, if_neg Bool.false_ne_true]
  obtain ⟨state, failures, successes, lastStateChange, halfOpenRequests⟩ := cb
  cases state with
  | circuitClosed =>
    dsimp only
    split <;> exact CircuitState.noConfusion
  | circuitOpen | circuitHalfOpen => exact CircuitState.noConfusion

theorem CircuitBreaker.Waits.allow (waits : cb.Waits cfg) (now stamp : Int) :
    (cb.allow cfg now stamp).2.Waits cfg := by
  cases state : cb.state with
  | circuitClosed =>
    rw [allow_closed state]
    exact waits
  | circuitOpen =>
    rw [allow_open positive state]
    split
    · exact fun _ => positive.successThreshold
    · exact waits
  | circuitHalfOpen =>
    rw [allow_halfOpen positive state]
    split <;> exact waits

theorem CircuitBreaker.waits_recordSuccess (cb : CircuitBreaker) (stamp : Int) :
    (cb.recordSuccess cfg stamp).Waits cfg := by
  intro half
  cases state : cb.state with
  | circuitClosed =>
    simp [recordSuccess_closed state] at half
  | circuitOpen =>
    simp [recordSuccess_open state, state] at half
  | circuitHalfOpen =>
    rw [recordSuccess_halfOpen positive state] at half ⊢
    split at half
    next => cases half
    next fewer =>
      rw [if_neg fewer]
      exact Int.not_le.mp fewer

end States

/-- What a call makes of the breaker. -/
def Call.turned (cfg : CircuitConfig) (cb : CircuitBreaker) : Call → CircuitBreaker
  | .allow now stamp => (cb.allow cfg now stamp).2
  | .recordSuccess _ stamp => cb.recordSuccess cfg stamp
  | .recordFailure _ stamp => cb.recordFailure cfg stamp
  | .giveUp | .panics _ => cb
  | .reset stamp => cb.reset stamp

theorem step_breaker {call : Call} (taken : step cfg s call = some s') :
    s'.breaker = call.turned cfg s.breaker := by
  unfold step at taken
  split at taken
  case h_1 | h_6 =>
    cases taken
    rfl
  case h_4 =>
    split at taken <;> cases taken
    rfl
  all_goals
    split at taken <;> split at taken <;> cases taken <;> rfl

theorem step_waits (positive : cfg.Positive) {call : Call} (waits : s.breaker.Waits cfg)
    (taken : step cfg s call = some s') : s'.breaker.Waits cfg := by
  rw [step_breaker taken]
  cases call with
  | allow now stamp => exact waits.allow positive now stamp
  | recordSuccess retried stamp => exact s.breaker.waits_recordSuccess positive stamp
  | recordFailure retried stamp => exact fun half => absurd half (s.breaker.recordFailure_ne positive stamp)
  | giveUp | panics retried => exact waits
  | reset stamp =>
    intro half
    cases half.symm.trans (s.breaker.state_transitionTo .circuitClosed stamp)

theorem waits_of_reachable (positive : cfg.Positive) (reachable : Reachable cfg s) :
    s.breaker.Waits cfg := by
  obtain ⟨created, calls, run⟩ := reachable
  refine @runAll_invariant _ _ (step cfg) ⟨.new created, 0, 0⟩ s calls (fun s => s.breaker.Waits cfg)
    (fun s call s' waits taken => step_waits positive waits taken) run ?_
  intro half
  cases half

/-! ## Runs that recover -/

theorem Answers.breaker {call : Call} {before after : Nat}
    (answers : Answers cfg s before call after) (taken : step cfg s call = some s') :
    (∃ now stamp, call = .allow now stamp ∧ s'.breaker = (s.breaker.allow cfg now stamp).2 ∧
      after = if (s.breaker.allow cfg now stamp).1 then before + 1 else before) ∨
    (∃ stamp, s'.breaker = s.breaker.recordSuccess cfg stamp ∧ before ≤ after + 1) ∨
    (s'.breaker = s.breaker ∧ after = before) := by
  have turned := step_breaker taken
  cases answers with
  | allow now stamp => exact .inl ⟨now, stamp, rfl, turned, rfl⟩
  | success stamp one => exact .inr (.inl ⟨stamp, turned, Nat.le_of_eq one⟩)
  | earlierSuccess retried stamp => exact .inr (.inl ⟨stamp, turned, Nat.le_succ _⟩)
  | giveUp | panics => exact .inr (.inr ⟨turned, rfl⟩)

/-- The successes of a half-open breaker, those of the requests that it let through and the requests
that it may still let through are enough. -/
def Promised (cfg : CircuitConfig) (cb : CircuitBreaker) (later : Nat) : Prop :=
  cb.state = .circuitHalfOpen → cb.successes < cfg.successThreshold ∧
    cfg.successThreshold ≤ cb.successes + later + (cfg.halfOpenRequests - cb.halfOpenRequests)

section Promised

variable {cb : CircuitBreaker} {before : Nat}

theorem Promised.allow (positive : cfg.Positive) (promised : Promised cfg cb before)
    (enough : cb.state = .circuitOpen → cfg.successThreshold ≤ cfg.halfOpenRequests)
    (now stamp : Int) : Promised cfg (cb.allow cfg now stamp).2
      (if (cb.allow cfg now stamp).1 then before + 1 else before) := by
  cases state : cb.state with
  | circuitClosed =>
    rw [cb.allow_closed state]
    intro half
    cases state.symm.trans half
  | circuitOpen =>
    rw [cb.allow_open positive state]
    split
    · have limit := enough state
      have threshold := positive.successThreshold
      intro half
      rw [if_pos rfl]
      dsimp only
      omega
    · exact promised
  | circuitHalfOpen =>
    rw [cb.allow_halfOpen positive state]
    split
    · obtain ⟨fewer, total⟩ := promised state
      intro half
      rw [if_pos rfl]
      dsimp only
      omega
    · exact promised

theorem Promised.success (positive : cfg.Positive) (promised : Promised cfg cb before) {after : Nat}
    (counts : before ≤ after + 1) (stamp : Int) :
    Promised cfg (cb.recordSuccess cfg stamp) after := by
  intro half
  have fewer := cb.waits_recordSuccess positive stamp half
  cases state : cb.state with
  | circuitClosed =>
    simp [cb.recordSuccess_closed state] at half
  | circuitOpen =>
    simp [cb.recordSuccess_open state, state] at half
  | circuitHalfOpen =>
    obtain ⟨-, total⟩ := promised state
    rw [cb.recordSuccess_halfOpen positive state] at half fewer ⊢
    split at half
    next => cases half
    next few =>
      rw [if_neg few] at fewer ⊢
      dsimp only at fewer ⊢
      omega

end Promised

namespace Recovering

variable {n : Nat}

/-- A closed breaker stays closed, one that is open or half-open keeps what it needs to close. -/
theorem mayClose_next (positive : cfg.Positive) (run : Recovering cfg states calls later)
    (promised : Promised cfg (states n).breaker (later n))
    (may : (states n).breaker.state = .circuitOpen →
      cfg.successThreshold ≤ cfg.halfOpenRequests ∧ cfg.timeout < maxDuration) :
    Promised cfg (states (n + 1)).breaker (later (n + 1)) ∧
      ((states (n + 1)).breaker.state = .circuitOpen → (states n).breaker.state = .circuitOpen) := by
  rcases (run.answers n).breaker (run.steps n) with
    ⟨now, stamp, -, same, count⟩ | ⟨stamp, same, counts⟩ | ⟨same, count⟩
  · rw [same, count]
    refine ⟨promised.allow positive (fun opened => (may opened).1) now stamp, fun opened => ?_⟩
    cases state : (states n).breaker.state with
    | circuitClosed => rwa [CircuitBreaker.allow_closed state, state] at opened
    | circuitOpen => rfl
    | circuitHalfOpen =>
      rw [CircuitBreaker.allow_halfOpen positive state] at opened
      split at opened <;> rwa [state] at opened
  · rw [same]
    refine ⟨promised.success positive counts stamp, fun opened => ?_⟩
    cases state : (states n).breaker.state with
    | circuitClosed => rwa [CircuitBreaker.recordSuccess_closed state] at opened
    | circuitOpen => rfl
    | circuitHalfOpen =>
      rw [CircuitBreaker.recordSuccess_halfOpen positive state] at opened
      split at opened
      · cases opened
      · rwa [state] at opened
  · rw [same, count]
    exact ⟨promised, fun opened => opened⟩

theorem promised (positive : cfg.Positive) (reachable : Reachable cfg (states 0))
    (run : Recovering cfg states calls later) (may : MayClose cfg (states 0)) (n : Nat) :
    Promised cfg (states n).breaker (later n) ∧ ((states n).breaker.state = .circuitOpen →
      cfg.successThreshold ≤ cfg.halfOpenRequests ∧ cfg.timeout < maxDuration) := by
  induction n with
  | zero =>
    unfold MayClose at may
    refine ⟨fun half => ?_, fun opened => ?_⟩
    · rw [half] at may
      refine ⟨waits_of_reachable positive reachable half, ?_⟩
      rw [run.begins]
      dsimp only at may
      omega
    · rwa [opened] at may
  | succ n ih =>
    obtain ⟨next, stays⟩ := run.mayClose_next positive ih.1 ih.2
    exact ⟨next, fun opened => ih.2 (stays opened)⟩

theorem closedFrom (run : Recovering cfg states calls later)
    (closed : (states n).breaker.state = .circuitClosed) : ClosedFrom cfg states n := by
  intro m onward
  have stays : (states m).breaker.state = .circuitClosed := by
    induction m, onward using Nat.le_induction with
    | base => exact closed
    | succ m _ ih =>
      rcases (run.answers m).breaker (run.steps m) with
        ⟨now, stamp, -, same, -⟩ | ⟨stamp, same, -⟩ | ⟨same, -⟩
      · rw [same, CircuitBreaker.allow_closed ih]
        exact ih
      · rw [same]
        exact CircuitBreaker.recordSuccess_closed ih
      · rw [same]
        exact ih
  exact ⟨stays, fun now stamp => by rw [CircuitBreaker.allow_closed stays]⟩

theorem open_leadsTo (positive : cfg.Positive) (short : cfg.timeout < maxDuration)
    (run : Recovering cfg states calls later) :
    LeadsTo (fun n => (states n).breaker.state = .circuitOpen)
      fun n => (states n).breaker.state = .circuitHalfOpen := by
  intro n opened
  -- Until such a request the breaker does not change.
  have awaited := leadsTo_of_awaited (P := fun m => (states m).breaker = (states n).breaker)
    (E := fun m => ∃ now stamp, calls m = .allow now stamp ∧
      cfg.timeout < timeSub now (states n).breaker.lastStateChange) ?_ ?_ n rfl
  · obtain ⟨m, onward, same, now, stamp, call, older⟩ := awaited
    refine ⟨m + 1, Nat.le_succ_of_le onward, ?_⟩
    have turned := step_breaker (run.steps m)
    dsimp only
    rw [turned, call, Call.turned, same, CircuitBreaker.allow_open positive opened, if_pos older]
  · intro m same waits
    rcases (run.answers m).breaker (run.steps m) with
      ⟨now, stamp, call, next, -⟩ | ⟨stamp, next, -⟩ | ⟨next, -⟩
    · rw [next, same, CircuitBreaker.allow_open positive opened]
      split
      next older => exact absurd ⟨now, stamp, call, older⟩ waits
      next => rfl
    · rw [next, same, CircuitBreaker.recordSuccess_open opened]
    · rw [next, same]
  · intro m _
    obtain ⟨k, onward, now, stamp, call, after⟩ :=
      run.arrive m ((states n).breaker.lastStateChange + cfg.timeout)
    refine ⟨k, onward, now, stamp, call, ?_⟩
    unfold timeSub
    omega

/-- While a half-open breaker waits for a request that it let through, a success comes. -/
theorem awaits_success (positive : cfg.Positive) (run : Recovering cfg states calls later)
    (half : (states n).breaker.state = .circuitHalfOpen) (waiting : 0 < later n) :
    ∃ m, n ≤ m ∧ (states m).breaker.state = .circuitHalfOpen ∧
      (states m).breaker.successes = (states n).breaker.successes ∧
      ∃ stamp, (states (m + 1)).breaker = (states m).breaker.recordSuccess cfg stamp := by
  have awaited := leadsTo_of_awaited (P := fun m => (states m).breaker.state = .circuitHalfOpen ∧
      (states m).breaker.successes = (states n).breaker.successes ∧ 0 < later m)
    (E := fun m => ∃ stamp, (states (m + 1)).breaker = (states m).breaker.recordSuccess cfg stamp)
    ?_ ?_ n ⟨half, rfl, waiting⟩
  · obtain ⟨m, onward, ⟨half, count, -⟩, success⟩ := awaited
    exact ⟨m, onward, half, count, success⟩
  · rintro m ⟨half, count, waiting⟩ noSuccess
    rcases (run.answers m).breaker (run.steps m) with
      ⟨now, stamp, -, next, counted⟩ | ⟨stamp, next, -⟩ | ⟨next, counted⟩
    · rw [next, counted, CircuitBreaker.allow_halfOpen positive half]
      split
      · exact ⟨half, count, Nat.succ_pos _⟩
      · exact ⟨half, count, waiting⟩
    · exact absurd ⟨stamp, next⟩ noSuccess
    · rw [next, counted]
      exact ⟨half, count, waiting⟩
  · rintro m ⟨-, -, waiting⟩
    obtain ⟨k, onward, fewer⟩ := run.answered m waiting
    refine ⟨k, onward, ?_⟩
    rcases (run.answers k).breaker (run.steps k) with
      ⟨now, stamp, -, -, counted⟩ | ⟨stamp, next, -⟩ | ⟨-, counted⟩
    · split at counted <;> omega
    · exact ⟨stamp, next⟩
    · omega

/-- A half-open breaker lets a request through, if it does not wait for one, or counts a success. -/
theorem lets_through (positive : cfg.Positive) (run : Recovering cfg states calls later)
    (promised : ∀ n, Promised cfg (states n).breaker (later n))
    (half : (states n).breaker.state = .circuitHalfOpen) :
    ∃ m, n ≤ m ∧ (states m).breaker.state = .circuitHalfOpen ∧
      (states m).breaker.successes = (states n).breaker.successes ∧ (0 < later m ∨
        ∃ stamp, (states (m + 1)).breaker = (states m).breaker.recordSuccess cfg stamp) := by
  have awaited := leadsTo_of_awaited (P := fun m => (states m).breaker.state = .circuitHalfOpen ∧
      (states m).breaker.successes = (states n).breaker.successes)
    (E := fun m => (∃ now stamp, calls m = .allow now stamp) ∨
      ∃ stamp, (states (m + 1)).breaker = (states m).breaker.recordSuccess cfg stamp)
    ?_ ?_ n ⟨half, rfl⟩
  · obtain ⟨m, onward, ⟨half, count⟩, ⟨now, stamp, call⟩ | success⟩ := awaited
    · by_cases waiting : 0 < later m
      · exact ⟨m, onward, half, count, .inl waiting⟩
      · obtain ⟨fewer, total⟩ := promised m half
        refine ⟨m + 1, Nat.le_succ_of_le onward, ?_⟩
        have turned := step_breaker (run.steps m)
        have answers := run.answers m
        rw [call] at turned answers
        generalize later (m + 1) = after at answers
        cases answers
        rw [turned, Call.turned, CircuitBreaker.allow_halfOpen positive half, if_pos (by omega)]
        exact ⟨half, count, .inl (Nat.succ_pos _)⟩
    · exact ⟨m, onward, half, count, .inr success⟩
  · rintro m ⟨half, count⟩ noCall
    rcases (run.answers m).breaker (run.steps m) with
      ⟨now, stamp, call, -⟩ | ⟨stamp, next, -⟩ | ⟨next, -⟩
    · exact absurd (.inl ⟨now, stamp, call⟩) noCall
    · exact absurd (.inr ⟨stamp, next⟩) noCall
    · rw [next]
      exact ⟨half, count⟩
  · rintro m -
    obtain ⟨k, onward, now, stamp, call, -⟩ := run.arrive m 0
    exact ⟨k, onward, .inl ⟨now, stamp, call⟩⟩

theorem half_leadsTo (positive : cfg.Positive) (run : Recovering cfg states calls later)
    (promised : ∀ n, Promised cfg (states n).breaker (later n)) :
    LeadsTo (fun n => (states n).breaker.state = .circuitHalfOpen)
      fun n => (states n).breaker.state = .circuitClosed := by
  refine leadsTo_of_rank
    (fun n => (cfg.successThreshold - (states n).breaker.successes).toNat) fun n half => ?_
  obtain ⟨fewer, -⟩ := promised n half
  have success : ∃ m, n ≤ m ∧ (states m).breaker.state = .circuitHalfOpen ∧
      (states m).breaker.successes = (states n).breaker.successes ∧
      ∃ stamp, (states (m + 1)).breaker = (states m).breaker.recordSuccess cfg stamp := by
    obtain ⟨m, onward, half, count, waiting | success⟩ := run.lets_through positive promised half
    · obtain ⟨k, last, again, same, success⟩ := run.awaits_success positive half waiting
      exact ⟨k, Nat.le_trans onward last, again, same.trans count, success⟩
    · exact ⟨m, onward, half, count, success⟩
  obtain ⟨m, onward, half, count, stamp, success⟩ := success
  refine ⟨m + 1, Nat.le_succ_of_le onward, ?_⟩
  rw [success, CircuitBreaker.recordSuccess_halfOpen positive half]
  split
  · exact .inl rfl
  · refine .inr ⟨half, ?_⟩
    dsimp only
    omega

end Recovering

/-! ## Breakers that do not close -/

/-- A breaker that opened too early or for ever, or one whose successes and requests cannot add up. -/
def Stuck (cfg : CircuitConfig) (s : Proxied) (later : Nat) : Prop := later ≤ s.fresh ∧ later ≤ 1 ∧
    ((s.breaker.state = .circuitOpen ∧ later = 0 ∧
        ¬ (cfg.successThreshold ≤ cfg.halfOpenRequests ∧ cfg.timeout < maxDuration)) ∨
      (s.breaker.state = .circuitHalfOpen ∧ s.breaker.successes + later < cfg.successThreshold ∧
        s.breaker.successes + later + (cfg.halfOpenRequests - s.breaker.halfOpenRequests) <
          cfg.successThreshold))

def promptCall (later n : Nat) : Call :=
  if later = 0 then .allow n n else .recordSuccess false n

/-- Requests come one at a time and succeed at once, and those from before stay where they are. -/
def promptRun (cfg : CircuitConfig) (s : Proxied) : Nat → Proxied × Nat
  | 0 => (s, 0)
  | n + 1 =>
    ((step cfg (promptRun cfg s n).1 (promptCall (promptRun cfg s n).2 n)).getD s,
      if (promptRun cfg s n).2 = 0 then
        if ((promptRun cfg s n).1.breaker.allow cfg n n).1 then 1 else 0
      else 0)

theorem Stuck.prompt (positive : cfg.Positive) {before : Nat} (stuck : Stuck cfg s before) (n : Nat) :
    ∃ s' after, step cfg s (promptCall before n) = some s' ∧
      after = (if before = 0 then if (s.breaker.allow cfg n n).1 then 1 else 0 else 0) ∧
      Answers cfg s before (promptCall before n) after ∧ Stuck cfg s' after := by
  obtain ⟨held, single, state⟩ := stuck
  unfold promptCall
  by_cases idle : before = 0
  · subst idle
    rw [if_pos rfl, if_pos rfl]
    refine ⟨_, _, rfl, rfl, .allow n n, ?_⟩
    rcases state with ⟨opened, -, never⟩ | ⟨half, fewer, total⟩
    · rw [CircuitBreaker.allow_open positive opened]
      split
      next older =>
        -- The timeout has passed, so it is not the largest one.
        have limit := positive.halfOpenRequests
        have below : cfg.halfOpenRequests < cfg.successThreshold := by
          unfold timeSub at older
          unfold maxDuration at older never
          omega
        rw [if_pos rfl, if_pos rfl]
        refine ⟨Nat.le_add_left _ _, Nat.le_refl 1, .inr ⟨rfl, ?_, ?_⟩⟩ <;> dsimp only <;> omega
      next => exact ⟨held, single, .inl ⟨opened, rfl, never⟩⟩
    · rw [CircuitBreaker.allow_halfOpen positive half]
      split
      · rw [if_pos rfl, if_pos rfl]
        refine ⟨Nat.le_add_left _ _, Nat.le_refl 1, .inr ⟨half, ?_, ?_⟩⟩ <;> dsimp only <;> omega
      · exact ⟨held, single, .inr ⟨half, fewer, total⟩⟩
  · have one : before = 1 := by omega
    subst one
    rw [if_neg idle, if_neg idle]
    have taken : step cfg s (.recordSuccess false n) =
        some { s with breaker := s.breaker.recordSuccess cfg n, fresh := s.fresh - 1 } := by
      dsimp only [step]
      rw [if_neg Bool.false_ne_true, if_neg (by omega)]
    refine ⟨_, _, taken, rfl, .success n rfl, ?_⟩
    rcases state with ⟨-, none, -⟩ | ⟨half, fewer, total⟩
    · exact absurd none idle
    · rw [CircuitBreaker.recordSuccess_halfOpen positive half, if_neg (by omega)]
      refine ⟨Nat.zero_le _, Nat.zero_le 1, .inr ⟨half, ?_, ?_⟩⟩ <;> dsimp only <;> omega

section Prompt

variable (positive : cfg.Positive) (stuck : Stuck cfg s 0)
include positive stuck

theorem stuck_promptRun (n : Nat) : Stuck cfg (promptRun cfg s n).1 (promptRun cfg s n).2 := by
  induction n with
  | zero => exact stuck
  | succ n ih =>
    obtain ⟨s', after, taken, count, -, again⟩ := ih.prompt positive n
    rw [promptRun, taken, ← count]
    exact again

theorem promptRun_steps (n : Nat) :
    step cfg (promptRun cfg s n).1 (promptCall (promptRun cfg s n).2 n) =
        some (promptRun cfg s (n + 1)).1 ∧
      Answers cfg (promptRun cfg s n).1 (promptRun cfg s n).2 (promptCall (promptRun cfg s n).2 n)
        (promptRun cfg s (n + 1)).2 ∧
      (0 < (promptRun cfg s n).2 → (promptRun cfg s (n + 1)).2 = 0) := by
  obtain ⟨s', after, taken, count, answers, -⟩ := (stuck_promptRun positive stuck n).prompt positive n
  rw [promptRun, taken, ← count]
  refine ⟨rfl, answers, fun busy => ?_⟩
  rw [count, if_neg (Nat.pos_iff_ne_zero.mp busy)]

theorem recovering_promptRun : Recovering cfg (fun n => (promptRun cfg s n).1)
    (fun n => promptCall (promptRun cfg s n).2 n) fun n => (promptRun cfg s n).2 where
  steps n := (promptRun_steps positive stuck n).1
  begins := rfl
  answers n := (promptRun_steps positive stuck n).2.1
  arrive n t := by
    -- The run is idle at one of two times in a row.
    have idle : ∃ m, n ≤ m ∧ t < m ∧ (promptRun cfg s m).2 = 0 := by
      by_cases now : (promptRun cfg s (max n (t.toNat + 1))).2 = 0
      · exact ⟨_, Nat.le_max_left _ _, by omega, now⟩
      · refine ⟨max n (t.toNat + 1) + 1, by omega, by omega, ?_⟩
        exact (promptRun_steps positive stuck _).2.2 (Nat.pos_of_ne_zero now)
    obtain ⟨m, onward, after, none⟩ := idle
    refine ⟨m, onward, m, m, ?_, after⟩
    rw [promptCall, if_pos none]
  answered n waiting := by
    refine ⟨n, Nat.le_refl n, ?_⟩
    rw [(promptRun_steps positive stuck n).2.2 waiting]
    exact waiting

theorem not_recovers : ¬ Recovers cfg s := by
  intro recovers
  obtain ⟨n, closed⟩ := recovers _ _ _ rfl (recovering_promptRun positive stuck)
  obtain ⟨state, -⟩ := closed n (Nat.le_refl n)
  obtain ⟨-, -, ⟨opened, -⟩ | ⟨half, -⟩⟩ := stuck_promptRun positive stuck n
  · simp [state] at opened
  · simp [state] at half

end Prompt

/-! ## Recovery -/

theorem Reachable.step {call : Call} (reachable : Reachable cfg s)
    (taken : step cfg s call = some s') : Reachable cfg s' := by
  obtain ⟨created, calls, run⟩ := reachable
  refine ⟨created, calls ++ [call], ?_⟩
  rw [runAll_append, run, Option.bind_some, runAll, taken]
  rfl

/-- A closed breaker that has counted `k` failures of one request. -/
def failing (k : Nat) : Proxied where
  breaker := ⟨.circuitClosed, k, 0, 0, 0⟩
  fresh := if k = 0 then 1 else 0
  failed := if k = 0 then 0 else 1

theorem step_failing (positive : cfg.Positive) (k : Nat) :
    step cfg (failing k) (.recordFailure (decide (k ≠ 0)) 0) =
      some ⟨if cfg.failureThreshold ≤ k + 1 then ⟨.circuitOpen, 0, 0, 0, 0⟩
        else ⟨.circuitClosed, k + 1, 0, 0, 0⟩, 0, 1⟩ := by
  have counted : (failing k).breaker.recordFailure cfg 0 =
      if cfg.failureThreshold ≤ k + 1 then ⟨.circuitOpen, 0, 0, 0, 0⟩
        else ⟨.circuitClosed, k + 1, 0, 0, 0⟩ := by
    rw [CircuitBreaker.recordFailure, positive.enabled]
    rfl
  dsimp only [step]
  rw [counted]
  cases k with
  | zero => rfl
  | succ k => rfl

theorem reachable_failing (positive : cfg.Positive) {k : Nat} (below : (k : Int) < cfg.failureThreshold) :
    Reachable cfg (failing k) := by
  induction k with
  | zero =>
    refine ⟨0, [.allow 0 0], ?_⟩
    dsimp only [runAll, step]
    rw [CircuitBreaker.allow_closed rfl]
    rfl
  | succ k ih =>
    have taken := step_failing positive k
    rw [if_neg (by omega)] at taken
    exact (ih (by omega)).step taken

def justOpened : Proxied := ⟨⟨.circuitOpen, 0, 0, 0, 0⟩, 0, 0⟩

theorem reachable_justOpened (positive : cfg.Positive) : Reachable cfg justOpened := by
  have threshold := positive.failureThreshold
  obtain ⟨k, last⟩ : ∃ k : Nat, cfg.failureThreshold = k + 1 :=
    ⟨(cfg.failureThreshold - 1).toNat, by omega⟩
  have taken := step_failing positive k
  rw [if_pos (Int.le_of_eq last)] at taken
  have opened := (reachable_failing positive (k := k) (by omega)).step taken
  have givenUp : step cfg ⟨⟨.circuitOpen, 0, 0, 0, 0⟩, 0, 1⟩ .giveUp = some justOpened := rfl
  exact opened.step givenUp

/-- From a reachable state, and however the requests come from then on, the breaker closes and lets
every request through after finitely many of them, exactly if it may close. -/
theorem recovers_iff (positive : cfg.Positive) (reachable : Reachable cfg s) :
    Recovers cfg s ↔ MayClose cfg s := by
  constructor
  · intro recovers
    apply Classical.byContradiction
    intro never
    refine not_recovers positive ⟨Nat.zero_le _, Nat.zero_le 1, ?_⟩ recovers
    unfold MayClose at never
    split at never
    next => exact absurd trivial never
    next opened => exact .inl ⟨opened, rfl, never⟩
    next half =>
      have fewer := waits_of_reachable positive reachable half
      exact .inr ⟨half, by omega, by omega⟩
  · rintro may states calls later rfl run
    have kept := run.promised positive reachable may
    have closes := run.half_leadsTo positive fun n => (kept n).1
    cases state : (states 0).breaker.state with
    | circuitClosed => exact ⟨0, run.closedFrom state⟩
    | circuitOpen =>
      obtain ⟨-, short⟩ := (kept 0).2 state
      obtain ⟨n, -, closed⟩ := (run.open_leadsTo positive short).trans closes 0 state
      exact ⟨n, run.closedFrom closed⟩
    | circuitHalfOpen =>
      obtain ⟨n, -, closed⟩ := closes 0 state
      exact ⟨n, run.closedFrom closed⟩

def defaultCircuit : CircuitConfig where
  enabled := true
  failureThreshold := 5
  successThreshold := 2
  timeout := 30000000000
  halfOpenRequests := 3

theorem defaultCircuit_positive : defaultCircuit.Positive :=
  ⟨rfl, by decide, by decide, by decide, by decide⟩

theorem recovers_iff_default : Recovers defaultCircuit justOpened :=
  (recovers_iff defaultCircuit_positive (reachable_justOpened defaultCircuit_positive)).mpr
    ⟨by decide, by decide⟩

def lowLimit : CircuitConfig := { defaultCircuit with halfOpenRequests := 1 }

theorem low_limit_never_recovers :
    lowLimit.Positive ∧ Reachable lowLimit justOpened ∧ ¬ Recovers lowLimit justOpened := by
  have positive : lowLimit.Positive := ⟨rfl, by decide, by decide, by decide, by decide⟩
  refine ⟨positive, reachable_justOpened positive, not_recovers positive ?_⟩
  exact ⟨Nat.zero_le _, Nat.zero_le 1, .inl ⟨rfl, rfl, by decide⟩⟩

end Unheaded.Gateway
