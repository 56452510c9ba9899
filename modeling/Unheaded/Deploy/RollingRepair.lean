import Unheaded.Deploy.RollingRuns

/-!
# Rolling updates of a broken service

On a driver on which everything succeeds, a rolling update comes to its end unless the
old instances that are not healthy take the room that new ones would need, and are kept
because too few instances are healthy: their health is never asked for again.
-/

namespace Unheaded.Deploy.Rolling

open Lib List Asking

variable {p : ExecuteParams} {config : Config}

/-- Every creation and deletion succeeds, every check reports a healthy instance, and the context
does not end. -/
def Smooth : (c : Call) → Answer c → Prop
  | .create _, answer => ∃ inst, answer = .ok (some inst)
  | .delete _, answer => answer = none
  | .check _, answer => answer = .ok true
  | .contextErr, answer => answer = none
  | .sleep _, answer => answer = none
  | _, _ => True

abbrev Smoothly {α : Type} (post : History → α → Prop) (past : History) (m : Driven α) : Prop :=
  Holds Smooth (fun _ _ => True) post past m

def countUnhealthy (insts : List Instance) : Nat := insts.countP fun inst => !inst.healthy

theorem length_eq_counts (insts : List Instance) :
    insts.length = countHealthy insts + countUnhealthy insts := by
  rw [length_eq_countP_add_countP fun inst => inst.healthy]
  congr 2
  funext inst
  cases inst.healthy <;> rfl

/-- The update has enough new instances, or replicas and surge fit a word, and either enough
instances are healthy or few enough of the old ones are not. -/
def Ready (p : ExecuteParams) (config : Config) (new old : List Instance) : Prop :=
  p.replicas.toInt ≤ new.length ∨ p.replicas.toInt + config.maxSurge.toInt < 2 ^ 63 ∧
      (p.replicas.toInt - config.maxUnavailable.toInt ≤ new.length + countHealthy old ∨
        countUnhealthy old ≤ config.maxSurge.toInt + min config.maxUnavailable.toInt p.replicas.toInt)

/-- What the surge of a pass does where every creation succeeds. -/
structure Surged (p : ExecuteParams) (config : Config) (s s' : Rolling) : Prop where
  old : s'.old = s.old
  grown : s.new.length ≤ s'.new.length
  fits : s.new.length < s'.new.length →
    (s'.new.length : Int) ≤ p.replicas.toInt ∧ (s'.new.length + s'.old.length : Int) ≤ limit p config

/-- What the deletions of a pass do, from where all new instances are healthy. -/
structure Cleared (p : ExecuteParams) (config : Config) (s s' : Rolling) : Prop where
  new : s'.new = s.new
  healthy : countHealthy s'.old ≤ countHealthy s.old
  unhealthy : countUnhealthy s'.old ≤ countUnhealthy s.old
  available : minAvailable p config ≤ limit p config →
    minAvailable p config ≤ s.new.length + countHealthy s.old →
    minAvailable p config ≤ s.new.length + countHealthy s'.old
  unavailable : minAvailable p config ≤ limit p config →
    (s.new.length + countHealthy s.old : Int) < minAvailable p config →
    countHealthy s'.old = countHealthy s.old ∧ (countUnhealthy s'.old = countUnhealthy s.old ∨
      limit p config ≤ s.new.length + countHealthy s.old + countUnhealthy s'.old)

variable {s s' : Rolling}

theorem Cleared.deleted {t : Rolling} {victim : Instance}
    (allNew : countHealthy s.new = s.new.length) (cleared : Cleared p config s t)
    (chosen : t.old[victimIndex t.old]? = some victim) (free : ¬ t.blocked p config victim) :
    Cleared p config s t.deleted := by
  obtain ⟨new, healthy, unhealthy, available, unavailable⟩ := cleared
  have fewer := countHealthy_deleted chosen
  have shorter := length_deleted chosen
  have before := length_eq_counts t.old
  have after := length_eq_counts t.deleted.old
  have free' : minAvailable p config ≤ s.new.length + countHealthy t.deleted.old ∨
      limit p config < s.new.length + t.old.length := by
    by_contra stuck
    refine free ⟨?_, ?_⟩
    · rw [healthyWithout, fewer, new, allNew]
      split <;> omega
    · rw [new]
      omega
  have choice : victim.healthy = true → countUnhealthy t.old = 0 := by
    intro well
    refine countP_eq_zero.mpr fun inst mem => ?_
    rw [all_healthy_of_victim chosen well inst mem]
    exact Bool.false_ne_true
  cases well : victim.healthy with
  | true =>
    have none := choice well
    rw [well, if_pos rfl] at fewer
    refine ⟨new, by omega, by omega, fun least enough => ?_, fun least few => ?_⟩
    · omega
    · omega
  | false =>
    rw [well, if_neg Bool.false_ne_true] at fewer
    refine ⟨new, by omega, by omega, fun least enough => ?_, fun least few => ?_⟩
    · omega
    · omega

/-- No old instance is left, or the next one is kept. -/
def Stopped (p : ExecuteParams) (config : Config) (s : Rolling) : Prop :=
  s.old.length = 0 ∨ (s.new.length + s.old.length : Int) ≤ limit p config ∧
    ((s.new.length + countHealthy s.old : Int) < minAvailable p config ∨
      countUnhealthy s.old = 0 ∧ (s.new.length + countHealthy s.old : Int) ≤ minAvailable p config)

theorem stopped_of_blocked (allNew : countHealthy s.new = s.new.length)
    (blocked : ∀ victim, s.old[victimIndex s.old]? = some victim → s.blocked p config victim) :
    Stopped p config s := by
  by_cases cleared : s.old = []
  · exact .inl (by rw [cleared]; rfl)
  · obtain ⟨victim, chosen⟩ := victim_of_ne_nil cleared
    obtain ⟨few, room⟩ := blocked victim chosen
    unfold healthyWithout at few
    refine .inr ⟨room, ?_⟩
    cases well : victim.healthy with
    | false =>
      rw [well, if_neg Bool.false_ne_true] at few
      exact .inl (by omega)
    | true =>
      have all : countUnhealthy s.old = 0 := by
        refine countP_eq_zero.mpr fun inst mem => ?_
        rw [all_healthy_of_victim chosen well inst mem]
        exact Bool.false_ne_true
      exact .inr ⟨all, by omega⟩

theorem surge_smooth (s : Rolling) (past : History) :
    Smoothly (EndsIn (fun _ s' => Surged p config s s' ∧ ¬ wantsMore p config s') fun _ => False)
      past (surge p config (p.replicas.toInt - s.new.length).toNat s) := by
  have refused : ∀ answer : Answer (.create (instanceParams p)),
      Smooth (.create (instanceParams p)) answer → ¬ noInstance answer := by
    rintro answer ⟨inst, rfl⟩ nothing
    exact nothing
  apply surge_holds (I := fun _ s' => Surged p config s s')
  case asks => exact fun _ _ _ _ => trivial
  case made =>
    intro past t inst surged more
    have longer : (t.created inst.1).new.length = t.new.length + 1 := length_append
    have room := more.2
    have wanted := more.1
    obtain ⟨old, grown, fits⟩ := surged
    refine ⟨old, by omega, fun _ => ?_⟩
    rw [longer]
    change _ ∧ ((t.new.length + 1 : Nat) + t.old.length : Int) ≤ _
    omega
  case failed => exact fun _ _ answer fit nothing _ => absurd nothing (refused answer fit)
  case gaveUp => exact fun answer _ _ fit nothing => absurd nothing (refused answer fit)
  case stop => exact fun _ _ surged full => ⟨surged, full⟩
  case enough => exact Int.self_le_toNat _
  case start => exact ⟨rfl, Nat.le_refl _, fun more => absurd more (Nat.lt_irrefl _)⟩

theorem askUnhealthy_smooth (insts : List Instance) (checks : Nat) (past : History) :
    Smoothly (fun _ r => r.1.length = insts.length ∧ ∀ inst ∈ r.1, inst.healthy = true) past
      (askUnhealthy insts checks) := by
  have asked : Smoothly (fun _ r => ([] ++ r.1).length + 0 = insts.length ∧
      ∀ inst ∈ [] ++ r.1, inst.healthy = true) past (askUnhealthy insts checks) := by
    apply askUnhealthy_holds (I := fun _ asked rest => asked.length + rest.length = insts.length ∧
      ∀ inst ∈ asked, inst.healthy = true)
    case healthy =>
      rintro past asked inst rest well ⟨length, all⟩
      refine ⟨?_, fun other mem => ?_⟩
      · rw [length_append, length_singleton, ← length, length_cons]
        omega
      · rcases mem_append.mp mem with before | last
        · exact all other before
        · rw [mem_singleton.mp last]
          exact well
    case allowed => exact fun _ _ _ _ _ _ => trivial
    case answered =>
      rintro past asked inst rest answer - fit ⟨length, all⟩
      refine ⟨?_, fun other mem => ?_⟩
      · rw [length_append, length_singleton, ← length, length_cons]
        omega
      · rcases mem_append.mp mem with before | last
        · exact all other before
        · rw [mem_singleton.mp last, show answer = .ok true from fit]
          rfl
    case start => exact ⟨Nat.zero_add _, fun inst mem => nomatch mem⟩
  exact asked

theorem checkNew_smooth (s : Rolling) (past : History) :
    Smoothly (fun _ s' => s'.old = s.old ∧ s'.new.length = s.new.length ∧
      countHealthy s'.new = s'.new.length) past (checkNew s) := by
  refine (askUnhealthy_smooth s.new s.metrics.healthChecks past).bind fun past r asked => ?_
  exact Holds.pure ⟨rfl, asked.1, countP_eq_length.mpr asked.2⟩

theorem deleteOld_smooth (allNew : countHealthy s.new = s.new.length) (past : History) :
    Smoothly (fun _ s' => Cleared p config s s' ∧ Stopped p config s') past
      (deleteOld p config s.old.length s) := by
  apply deleteOld_holds (I := fun _ s' => Cleared p config s s')
  case asks => exact fun _ _ _ _ _ _ => trivial
  case gone => exact fun past t victim chosen free cleared => cleared.deleted allNew chosen free
  case failed =>
    intro past t victim err fit _
    cases fit
  case stop =>
    intro past t blocked cleared
    refine ⟨cleared, stopped_of_blocked ?_ blocked⟩
    rw [cleared.new]
    exact allNew
  case enough => exact Nat.le_refl _
  case start =>
    exact ⟨rfl, Nat.le_refl _, Nat.le_refl _, fun _ enough => enough, fun _ _ => ⟨rfl, .inl rfl⟩⟩

/-- One pass, as numbers. -/
structure Passed (p : ExecuteParams) (config : Config) (s s' : Rolling) : Prop where
  grown : s.new.length ≤ s'.new.length
  fits : s.new.length < s'.new.length →
    (s'.new.length : Int) ≤ p.replicas.toInt ∧ (s'.new.length + s.old.length : Int) ≤ limit p config
  full : ¬ ((s'.new.length : Int) < p.replicas.toInt ∧
    (s'.new.length + s.old.length : Int) < limit p config)
  healthy : countHealthy s'.old ≤ countHealthy s.old
  unhealthy : countUnhealthy s'.old ≤ countUnhealthy s.old
  available : minAvailable p config ≤ limit p config →
    minAvailable p config ≤ s'.new.length + countHealthy s.old →
    minAvailable p config ≤ s'.new.length + countHealthy s'.old
  unavailable : minAvailable p config ≤ limit p config →
    (s'.new.length + countHealthy s.old : Int) < minAvailable p config →
    countHealthy s'.old = countHealthy s.old ∧ (countUnhealthy s'.old = countUnhealthy s.old ∨
      limit p config ≤ s'.new.length + countHealthy s.old + countUnhealthy s'.old)
  stopped : Stopped p config s'

theorem report_smooth (progress : Progress) (past : History) :
    Smoothly (fun _ _ => True) past (report p progress) := by
  unfold report
  split
  · exact ⟨trivial, fun _ _ => trivial⟩
  · trivial

theorem pass_smooth (s : Rolling) (past : History) :
    Smoothly (EndsIn (fun _ s' => Passed p config s s') fun _ => False) past (pass p config s) := by
  refine (surge_smooth { s with progressed := false } past).bind fun past ended after => ?_
  cases ended with
  | inr outcome => exact after.elim
  | inl t =>
    obtain ⟨⟨sameOld, grown, fits⟩, full⟩ := after
    refine (checkNew_smooth t past).bind fun past u checked => ?_
    obtain ⟨sameOld', sameLength, allNew⟩ := checked
    refine (deleteOld_smooth allNew past).bind fun past v deleted => ?_
    obtain ⟨cleared, stopped⟩ := deleted
    have passed : Passed p config s { v with progress := progressOf p v } := by
      obtain ⟨new, healthy, unhealthy, available, unavailable⟩ := cleared
      rw [sameOld', sameOld] at healthy unhealthy available unavailable
      have size : v.new.length = t.new.length := by rw [new, sameLength]
      rw [sameLength, ← size] at available unavailable
      rw [← size, sameOld] at fits
      unfold wantsMore at full
      rw [← size, sameOld] at full
      exact ⟨by dsimp only at grown ⊢; omega, fits, full, healthy, unhealthy, available, unavailable,
        stopped⟩
    refine (report_smooth _ past).bind fun past _ _ => ?_
    split
    · exact Holds.pure passed
    · refine Holds.call trivial fun answer fit => ?_
      cases show answer = none from fit
      exact Holds.pure passed

def remaining (p : ExecuteParams) (s : Rolling) : Nat :=
  (p.replicas.toInt - s.new.length).toNat + s.old.length

section

variable (accepted : Accepted p config)
include accepted

theorem Passed.ready (passed : Passed p config s s')
    (ready : Ready p config s.new s.old) (more : s.unfinished p) :
    Ready p config s'.new s'.old ∧ remaining p s' < remaining p s := by
  obtain ⟨grown, fits, full, healthy, unhealthy, available, -, stopped⟩ := passed
  have before := length_eq_counts s.old
  have after := length_eq_counts s'.old
  have ranges := accepted.ranges
  have least := minAvailable_eq accepted
  unfold Ready remaining Stopped unfinished at *
  by_cases fit : p.replicas.toInt + config.maxSurge.toInt < 2 ^ 63
  · rw [limit_of_fits accepted fit] at fits full available stopped
    rw [least] at available stopped
    by_cases enough : p.replicas.toInt ≤ s'.new.length
    · clear available ready fits full
      omega
    · have healthyNow : p.replicas.toInt - config.maxUnavailable.toInt ≤
          s'.new.length + countHealthy s.old := by
        clear available more stopped
        omega
      -- the instances left are those that must stay, and the new ones
      refine ⟨.inr ⟨fit, .inl (by omega)⟩, ?_⟩
      omega
  · have negative := limit_of_overflow (Int.not_lt.mp fit)
    omega

theorem Passed.stuck (passed : Passed p config s s')
    (stuck : ¬ Ready p config s.new s.old) : ¬ Ready p config s'.new s'.old := by
  obtain ⟨grown, fits, full, healthy, unhealthy, -, unavailable, stopped⟩ := passed
  have before := length_eq_counts s.old
  have ranges := accepted.ranges
  have least := minAvailable_eq accepted
  unfold Ready at *
  by_cases fit : p.replicas.toInt + config.maxSurge.toInt < 2 ^ 63
  · rw [limit_of_fits accepted fit] at fits full unavailable
    rw [least] at unavailable
    obtain ⟨missing, none⟩ := not_or.mp stuck
    obtain ⟨few, many⟩ := not_or.mp fun either => none ⟨fit, either⟩
    -- the old instances leave too little room for new ones
    have short : (s'.new.length : Int) < p.replicas.toInt := by
      clear unavailable stuck none
      omega
    omega
  · have negative := limit_of_overflow (Int.not_lt.mp fit)
    omega

theorem loop_ready {fuel : Nat} (past : History)
    (ready : Ready p config s.new s.old) (enough : remaining p s < fuel) :
    Smoothly (fun _ ended => ∃ s', ended = some (.inl s')) past (loop p config fuel s) := by
  induction fuel generalizing s past with
  | zero => exact absurd enough (Nat.not_lt_zero _)
  | succ fuel ih =>
    unfold loop
    split
    next more =>
      refine Holds.call trivial fun answer fit => ?_
      cases show answer = none from fit
      refine (pass_smooth s _).bind fun past ended after => ?_
      cases ended with
      | inr outcome => exact after.elim
      | inl s' =>
        obtain ⟨ready', less⟩ := Passed.ready accepted after ready more
        exact ih past ready' (by omega)
    next => exact Holds.pure ⟨s, rfl⟩

theorem loop_stuck (fuel : Nat) (past : History) (stuck : ¬ Ready p config s.new s.old) :
    Smoothly (fun _ ended => ended = none) past (loop p config fuel s) := by
  induction fuel generalizing s past with
  | zero => exact Holds.pure rfl
  | succ fuel ih =>
    have more : s.unfinished p := .inl (Int.not_le.mp fun enough => stuck (.inl enough))
    rw [loop, if_pos more]
    refine Holds.call trivial fun answer fit => ?_
    cases show answer = none from fit
    refine (pass_smooth s _).bind fun past ended after => ?_
    cases ended with
    | inr outcome => exact after.elim
    | inl s' => exact ih past (Passed.stuck accepted after stuck)

end

theorem verify_smooth (fuel : Nat) (s : Rolling) (past : History) :
    Smoothly (fun _ outcome => ∃ result, outcome = some (.finished result)) past
      (verify p config (fuel + 1) s) := by
  have waited : ∀ insts checks, Smoothly (fun _ waited => ∃ w, waited = some w ∧ w.timeout = none)
      past (waitHealthy (pollInterval config) (fuel + 1) insts checks) := by
    intro insts checks
    refine (askUnhealthy_smooth insts checks past).bind fun past ⟨insts, checks, found⟩ asked => ?_
    have all : countHealthy insts = insts.length := countP_eq_length.mpr asked.2
    dsimp only
    rw [if_pos all]
    exact Holds.pure ⟨_, rfl, rfl⟩
  refine (waited _ _).bind fun past waited ended => ?_
  obtain ⟨w, rfl, inTime⟩ := ended
  dsimp only
  rw [inTime]
  refine (report_smooth _ past).bind fun past _ _ => ?_
  exact Holds.pure ⟨_, rfl⟩

theorem execute_stuck (accepted : Accepted p config)
    (stuck : ¬ Ready p config (start p).new (start p).old) {fuel : Nat}
    {answers : History → (c : Call) → Answer c} (smooth : ∀ past c, Smooth c (answers past c)) :
    ((execute (some p) fuel).follow answers []).2 = none := by
  have spent : Smoothly (fun _ outcome => outcome = none) [] (execute (some p) fuel) := by
    rw [execute_accepted accepted]
    refine (loop_stuck accepted fuel [] stuck).bind fun past ended after => ?_
    rw [after]
    exact Holds.pure rfl
  exact spent.of_follow smooth

/-- The update comes to its end by itself, with success and no instance of another version left. -/
def Finishes (p : ExecuteParams) (answers : History → (c : Call) → Answer c) : Prop :=
  ∃ fuel result, ((execute (some p) fuel).follow answers []).2 = some (.finished result) ∧
    ∀ inst ∈ fleet p.instances ((execute (some p) fuel).follow answers []).1,
      inst.version = p.targetVersion

/-- On a driver on which everything succeeds, a rolling update comes to its end exactly if it has
enough instances of the target version, or if its replicas and surge fit a word and either enough
instances are healthy or few enough of the old ones are not. -/
theorem finishes_iff_ready (accepted : Accepted p config)
    (answers : History → (c : Call) → Answer c) (smooth : ∀ past c, Smooth c (answers past c)) :
    Finishes p answers ↔
      Ready p config (p.instances.filter fun inst => inst.version = p.targetVersion)
        (p.instances.filter fun inst => inst.version ≠ p.targetVersion) := by
  constructor
  · rintro ⟨fuel, result, finished, -⟩
    by_contra stuck
    simp [execute_stuck accepted stuck smooth] at finished
  · intro ready
    have succeeds : Smoothly (fun _ outcome => ∃ result, outcome = some (.finished result)) []
        (execute (some p) (remaining p (start p) + 1)) := by
      rw [execute_accepted accepted]
      refine (loop_ready accepted [] ready (Nat.lt_succ_self _)).bind fun past ended after => ?_
      obtain ⟨s, rfl⟩ := after
      exact verify_smooth _ s past
    obtain ⟨result, finished⟩ := succeeds.of_follow smooth
    have updated := (execute_updated accepted (remaining p (start p) + 1)).of_follow
      (fun _ _ => trivial) result finished
    exact ⟨_, result, finished, updated.version⟩

def brokenService : List Instance := [⟨"a", "v1", false⟩, ⟨"b", "v1", false⟩, ⟨"c", "v1", false⟩]

theorem smoothly_smooth (id : String) (past : History) (c : Call) : Smooth c (smoothly id past c) := by
  cases c with
  | create params => exact ⟨_, rfl⟩
  | _ => trivial

theorem finishes_iff_ready_surge :
    let p := updateOf (surging 1 2) 3 brokenService
    Finishes p (smoothly "n") ↔ Ready p (surging 1 2) [] brokenService :=
  finishes_iff_ready ⟨rfl, rfl, rfl, by decide⟩ (smoothly "n") (smoothly_smooth "n")

/-- Three replicas, none healthy, of which one may be unavailable and without a surge: no old
instance is deleted and no new one is made, though the driver would do both. -/
theorem broken_service_stays_broken :
    Accepted (updateOf (surging 0 1) 3 brokenService) (surging 0 1) ∧
      (∀ past c, Smooth c (smoothly "n" past c)) ∧
      ¬ Finishes (updateOf (surging 0 1) 3 brokenService) (smoothly "n") := by
  have accepted : Accepted (updateOf (surging 0 1) 3 brokenService) (surging 0 1) :=
    ⟨rfl, rfl, rfl, by decide⟩
  refine ⟨accepted, smoothly_smooth "n", ?_⟩
  rintro ⟨fuel, result, finished, -⟩
  have stuck : ¬ Ready (updateOf (surging 0 1) 3 brokenService) (surging 0 1) [] brokenService := by
    unfold Ready
    decide
  simp [execute_stuck accepted stuck (smoothly_smooth "n")] at finished

end Unheaded.Deploy.Rolling
