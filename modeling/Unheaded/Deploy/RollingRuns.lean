import Unheaded.Deploy.Rolling

/-!
# Runs of rolling updates

Whatever the driver answers, a rolling update keeps to its surge and to its
availability, as long as the sum of its replicas and its surge fits a word.
-/

namespace Unheaded.Deploy.Rolling

open Lib List Asking

variable {p : ExecuteParams} {config : Config}

/-- There are not too many instances, and enough of them were last reported healthy. -/
def Bounded (p : ExecuteParams) (config : Config) (past : History) : Prop :=
  ((fleet p.instances past).card : Int) ≤ p.replicas.toInt + config.maxSurge.toInt ∧
    p.replicas.toInt - config.maxUnavailable.toInt ≤ healthyIn (fleet p.instances past)

/-- The sum of replicas and surge fits a word, or the new version has enough healthy instances. -/
def Roomy (p : ExecuteParams) (config : Config) (new : List Instance) : Prop :=
  p.replicas.toInt + config.maxSurge.toInt < 2 ^ 63 ∨
    p.replicas.toInt - config.maxUnavailable.toInt ≤ countHealthy new

/-- There are not too many instances, enough are healthy, and this will stay so. -/
structure Sized (p : ExecuteParams) (config : Config) (s : Rolling) : Prop where
  few : (s.new.length + s.old.length : Int) ≤ p.replicas.toInt + config.maxSurge.toInt
  enough : p.replicas.toInt - config.maxUnavailable.toInt ≤ countHealthy s.new + countHealthy s.old
  roomy : Roomy p config s.new

namespace Sized

variable {s : Rolling}

theorem created (accepted : Accepted p config) (inst : Instance) (sized : Sized p config s)
    (more : wantsMore p config s) : Sized p config (s.created inst) := by
  have room := more.2
  have length : (s.created inst).new.length = s.new.length + 1 := length_append
  have healthy : countHealthy s.new ≤ countHealthy (s.created inst).new := by
    unfold countHealthy Rolling.created
    rw [countP_append]
    exact Nat.le_add_right ..
  have fits : p.replicas.toInt + config.maxSurge.toInt < 2 ^ 63 := by
    by_contra overflow
    have negative := limit_of_overflow (Int.not_lt.mp overflow)
    omega
  rw [limit_of_fits accepted fits] at room
  constructor
  · rw [length]
    change ((s.new.length + 1 : Nat) + s.old.length : Int) ≤ _
    omega
  · have enough := sized.enough
    change _ ≤ ((countHealthy (s.created inst).new : Int) + countHealthy s.old)
    omega
  · exact .inl fits

theorem checked {asked rest : List Instance} {inst : Instance} {answer : Except String Bool}
    (unhealthy : inst.healthy = false)
    (sized : Sized p config { s with new := asked ++ inst :: rest }) :
    Sized p config
      { s with new := asked ++ { inst with healthy := reportedHealthy answer } :: rest } := by
  have healthy : countHealthy (asked ++ inst :: rest) ≤
      countHealthy (asked ++ { inst with healthy := reportedHealthy answer } :: rest) := by
    unfold countHealthy
    rw [countP_append, countP_append, countP_cons_of_neg (Bool.eq_false_iff.mp unhealthy)]
    exact Nat.add_le_add_left (List.Sublist.countP_le (sublist_cons_self ..)) _
  have length : (asked ++ { inst with healthy := reportedHealthy answer } :: rest).length =
      (asked ++ inst :: rest).length := by
    rw [length_append, length_append]
    rfl
  constructor
  · have few := sized.few
    rw [length]
    exact few
  · have enough := sized.enough
    dsimp only at enough ⊢
    omega
  · refine sized.roomy.imp_right fun few => ?_
    dsimp only at few ⊢
    omega

theorem deleted (accepted : Accepted p config) {victim : Instance}
    (chosen : s.old[victimIndex s.old]? = some victim) (free : ¬ s.blocked p config victim)
    (sized : Sized p config s) : Sized p config s.deleted := by
  have length := length_deleted chosen
  have healthy := countHealthy_deleted chosen
  have few := sized.few
  have least := minAvailable_eq accepted
  constructor
  · change ((s.new.length : Int) + s.deleted.old.length : Int) ≤ _
    omega
  · change _ ≤ ((countHealthy s.new : Int) + countHealthy s.deleted.old)
    rcases sized.roomy with fits | already
    · have total := limit_of_fits accepted fits
      have stays : minAvailable p config ≤ s.healthyWithout victim := by
        by_contra low
        exact free ⟨Int.not_le.mp low, by omega⟩
      unfold healthyWithout at stays
      rw [healthy] at stays
      split at stays <;> omega
    · omega
  · exact sized.roomy

end Sized

/-- What every step of the rolling phase keeps: the two lists are the instances that exist, and, if
`c` holds, their numbers are within the bounds. -/
structure Within (p : ExecuteParams) (config : Config) (c : Prop) (past : History) (s : Rolling) :
    Prop where
  exist : fleet p.instances past = ((s.old ++ s.new : List Instance) : Multiset Instance)
  versions : ∀ inst ∈ s.new, inst.version = p.targetVersion
  sized : c → Sized p config s

namespace Within

variable {c : Prop} {past : History} {s : Rolling}

theorem bounded (within : Within p config c past s) (holds : c) : Bounded p config past := by
  have few := (within.sized holds).few
  have enough := (within.sized holds).enough
  unfold Bounded
  rw [within.exist, Multiset.coe_card, healthyIn_coe, countHealthy, countP_append, length_append]
  unfold countHealthy at enough
  omega

theorem same {s' : Rolling} {past' : History} (within : Within p config c past s)
    (fleets : fleet p.instances past' = fleet p.instances past) (old : s'.old = s.old)
    (new : s'.new = s.new) : Within p config c past' s' where
  exist := by rw [fleets, within.exist, old, new]
  versions := by
    rw [new]
    exact within.versions
  sized holds := by
    obtain ⟨few, enough, roomy⟩ := within.sized holds
    constructor
    · rw [old, new]
      exact few
    · rw [old, new]
      exact enough
    · rw [new]
      exact roomy

theorem created (accepted : Accepted p config) (inst : Created (instanceParams p))
    (within : Within p config c past s) (more : wantsMore p config s) :
    Within p config c (past ++ [⟨.create (instanceParams p), .ok (some inst)⟩])
      (s.created inst.1) where
  exist := by
    rw [fleet_append, within.exist, fleetAfter_create, Multiset.cons_coe,
      Multiset.coe_eq_coe, Rolling.created, ← List.append_assoc]
    exact (perm_append_singleton ..).symm
  versions other mem := by
    rcases mem_append.mp mem with before | last
    · exact within.versions other before
    · rw [mem_singleton.mp last]
      exact inst.2
  sized holds := (within.sized holds).created accepted inst.1 more

theorem checked {asked rest : List Instance} {inst : Instance} {answer : Except String Bool}
    (unhealthy : inst.healthy = false)
    (within : Within p config c past { s with new := asked ++ inst :: rest }) :
    Within p config c (past ++ [⟨.check inst, answer⟩])
      { s with new := asked ++ { inst with healthy := reportedHealthy answer } :: rest } where
  exist := by
    rw [fleet_append, within.exist, ← List.append_assoc, fleetAfter_check, List.append_assoc]
  versions other mem := by
    rcases mem_reflagged mem with old | rfl
    · exact within.versions other old
    · exact within.versions inst (mem_append_right _ (mem_cons_self ..))
  sized holds := (within.sized holds).checked unhealthy

theorem deleted (accepted : Accepted p config) {victim : Instance}
    (chosen : s.old[victimIndex s.old]? = some victim) (free : ¬ s.blocked p config victim)
    (within : Within p config c past s) :
    Within p config c (past ++ [⟨.delete victim, none⟩]) s.deleted where
  exist := by
    rw [fleet_append, within.exist]
    exact fleetAfter_delete ((perm_deleted chosen).append_right s.new)
  versions := within.versions
  sized holds := (within.sized holds).deleted accepted chosen free

end Within

def Fails (outcome : RollingOutcome) : Prop := ∃ result err, outcome = .failed result err

section Phases

variable {c : Prop} {past : History} {s : Rolling} (accepted : Accepted p config)

/-- Over all answers, the bounds hold at every question, if `c` holds. -/
abbrev Keeps {α : Type} (p : ExecuteParams) (config : Config) (c : Prop)
    (post : History → α → Prop) (past : History) (m : Driven α) : Prop :=
  Holds anyAnswer (fun past _ => c → Bounded p config past) post past m

include accepted in
theorem surge_within (within : Within p config c past s) {missing : Nat}
    (enough : p.replicas.toInt - s.new.length ≤ missing) :
    Keeps p config c (EndsIn (Within p config c) Fails) past (surge p config missing s) := by
  apply surge_holds (I := Within p config c)
  case asks => exact fun past s within _ => within.bounded
  case made => exact fun past s inst within more => within.created accepted inst more
  case failed =>
    intro past s answer _ nothing within
    match answer with
    | .ok none => exact within.same (fleet_append ..) rfl rfl
    | .error err => exact within.same (fleet_append ..) rfl rfl
  case gaveUp => exact fun answer result err _ _ => ⟨result, err, rfl⟩
  case stop => exact fun past s within _ => within
  case enough => exact enough
  case start => exact within

theorem checkNew_within (within : Within p config c past s) :
    Keeps p config c (Within p config c) past (checkNew s) := by
  have asked : Keeps p config c (fun past r => Within p config c past { s with new := [] ++ r.1 ++ [] })
      past (askUnhealthy s.new s.metrics.healthChecks) := by
    apply askUnhealthy_holds
      (I := fun past asked rest => Within p config c past { s with new := asked ++ rest })
    case healthy =>
      intro past asked inst rest _ within
      rw [← append_cons]
      exact within
    case allowed => exact fun past asked inst rest _ within => within.bounded
    case answered =>
      intro past asked inst rest answer unhealthy _ within
      rw [← append_cons]
      exact within.checked unhealthy
    case start => exact within
  refine asked.bind fun past ⟨new, checks, found⟩ kept => ?_
  rw [append_nil] at kept
  exact kept.same rfl rfl rfl

include accepted in
theorem deleteOld_within (within : Within p config c past s) :
    Keeps p config c (Within p config c) past (deleteOld p config s.old.length s) := by
  apply deleteOld_holds (I := Within p config c)
  case asks => exact fun past s victim _ _ within => within.bounded
  case gone => exact fun past s victim chosen free within => within.deleted accepted chosen free
  case failed => exact fun past s victim err _ within => within.same (fleet_append ..) rfl rfl
  case stop => exact fun past s _ within => within
  case enough => exact Nat.le_refl _
  case start => exact within

theorem report_within (within : Within p config c past s) (progress : Progress) :
    Keeps p config c (fun past _ => Within p config c past s) past (report p progress) := by
  unfold report
  split
  · exact ⟨within.bounded, fun answer _ => within.same (fleet_append ..) rfl rfl⟩
  · exact Holds.pure within

include accepted in
theorem pass_within (within : Within p config c past s) :
    Keeps p config c (EndsIn (Within p config c) Fails) past (pass p config s) := by
  have start : Within p config c past { s with progressed := false } := within.same rfl rfl rfl
  refine (surge_within accepted start (Int.self_le_toNat _)).bind fun past ended after => ?_
  cases ended with
  | inr outcome => exact Holds.pure after
  | inl s =>
    refine (checkNew_within after).bind fun past s checked => ?_
    refine (deleteOld_within accepted checked).bind fun past s deleted => ?_
    have reported : Within p config c past { s with progress := progressOf p s } :=
      deleted.same rfl rfl rfl
    refine (report_within reported _).bind fun past _ reported => ?_
    split
    · exact Holds.pure reported
    · refine Holds.call reported.bounded fun answer _ => ?_
      cases answer with
      | none => exact Holds.pure (reported.same (fleet_append ..) rfl rfl)
      | some err => exact Holds.pure ⟨_, _, rfl⟩

include accepted in
theorem loop_within (fuel : Nat) (within : Within p config c past s) :
    Keeps p config c (fun past ended => ∀ e, ended = some e →
      EndsIn (fun past s => Within p config c past s ∧ ¬ s.unfinished p) Fails past e) past
      (loop p config fuel s) := by
  induction fuel generalizing past s with
  | zero =>
    refine Holds.pure fun e spent => ?_
    cases spent
  | succ fuel ih =>
    unfold loop
    split
    next more =>
      refine Holds.call within.bounded fun answer _ => ?_
      have asked : Within p config c (past ++ [⟨.contextErr, answer⟩]) s :=
        within.same (fleet_append ..) rfl rfl
      cases answer with
      | some err =>
        refine Holds.pure fun e ended => ?_
        cases ended
        exact ⟨_, _, rfl⟩
      | none =>
        refine (pass_within accepted asked).bind fun past ended after => ?_
        cases ended with
        | inl s => exact ih after
        | inr outcome =>
          refine Holds.pure fun e ended => ?_
          cases ended
          exact after
    next finished =>
      refine Holds.pure fun e ended => ?_
      cases ended
      exact ⟨within, finished⟩

end Phases

theorem start_perm (p : ExecuteParams) : ((start p).old ++ (start p).new).Perm p.instances := by
  have parts := filter_append_perm (fun inst => inst.version ≠ p.targetVersion) p.instances
  have others : (start p).new =
      p.instances.filter fun inst => !decide (inst.version ≠ p.targetVersion) := by
    refine filter_congr fun inst _ => ?_
    simp
  rw [others]
  exact parts

theorem start_sized (few : (p.instances.length : Int) ≤ p.replicas.toInt + config.maxSurge.toInt)
    (enough : p.replicas.toInt - config.maxUnavailable.toInt ≤ countHealthy p.instances)
    (roomy : Roomy p config (p.instances.filter fun inst => inst.version = p.targetVersion)) :
    Sized p config (start p) := by
  have length := (start_perm p).length_eq
  have healthy := (start_perm p).countP_eq fun inst => inst.healthy
  rw [length_append] at length
  rw [countP_append] at healthy
  constructor
  · omega
  · unfold countHealthy at enough ⊢
    omega
  · exact roomy

theorem start_within {c : Prop} (sized : c → Sized p config (start p)) :
    Within p config c [] (start p) where
  exist := by
    rw [fleet_nil, Multiset.coe_eq_coe]
    exact (start_perm p).symm
  versions inst mem := of_decide_eq_true (mem_filter.mp mem).2
  sized := sized

/-- Every instance left runs the target version, there are enough of them, and each was found
healthy. -/
structure Updated (p : ExecuteParams) (past : History) : Prop where
  version : ∀ inst ∈ fleet p.instances past, inst.version = p.targetVersion
  enough : p.replicas.toInt ≤ (fleet p.instances past).card
  healthy : ∀ inst ∈ fleet p.instances past, FoundHealthy past inst

/-- The instances under verification are those that exist, and those marked were found healthy. -/
structure Verifying (p : ExecuteParams) (past : History) (insts : List Instance) : Prop where
  exist : (fleet p.instances past).map Instance.unflagged =
    ((insts.map Instance.unflagged : List Instance) : Multiset Instance)
  enough : p.replicas.toInt ≤ insts.length
  versions : ∀ inst ∈ insts, inst.version = p.targetVersion
  found : ∀ inst ∈ insts, inst.healthy = true → FoundHealthy past inst

variable {past : History}

theorem Verifying.checked {before rest : List Instance} {inst : Instance}
    {answer : Except String Bool} (unhealthy : inst.healthy = false)
    (verifying : Verifying p past (before ++ inst :: rest)) :
    Verifying p (past ++ [⟨.check inst, answer⟩])
      (before ++ { inst with healthy := reportedHealthy answer } :: rest) := by
  have mem : inst ∈ before ++ inst :: rest := mem_append_right _ (mem_cons_self ..)
  constructor
  · rw [fleet_append, fleetAfter_check_unflagged, verifying.exist, map_append, map_append]
    rfl
  · have enough := verifying.enough
    rwa [length_append] at enough ⊢
  · intro other inside
    rcases mem_reflagged inside with old | rfl
    · exact verifying.versions other old
    · exact verifying.versions inst mem
  · exact found_checked verifying.found unhealthy answer

variable {insts : List Instance}

theorem Verifying.later {e : Exchange Call Answer} (verifying : Verifying p past insts)
    (unchanged : fleetAfter (fleet p.instances past) e = fleet p.instances past) :
    Verifying p (past ++ [e]) insts where
  exist := by rw [fleet_append, unchanged, verifying.exist]
  enough := verifying.enough
  versions := verifying.versions
  found inst mem healthy := mem_append_left _ (verifying.found inst mem healthy)

theorem Verifying.updated (verifying : Verifying p past insts)
    (healthy : ∀ inst ∈ insts, inst.healthy = true) : Updated p past := by
  have known : ∀ inst ∈ fleet p.instances past,
      ∃ other ∈ insts, other.unflagged = inst.unflagged := by
    intro inst mem
    have inside := Multiset.mem_map_of_mem Instance.unflagged mem
    rw [verifying.exist] at inside
    exact List.mem_map.mp inside
  constructor
  · intro inst mem
    obtain ⟨other, inside, same⟩ := known inst mem
    exact (congrArg Instance.version same).symm.trans (verifying.versions other inside)
  · have sizes := congrArg Multiset.card verifying.exist
    rw [Multiset.card_map, Multiset.coe_card, length_map] at sizes
    rw [sizes]
    exact verifying.enough
  · intro inst mem
    obtain ⟨other, inside, same⟩ := known inst mem
    have found := verifying.found other inside (healthy other inside)
    unfold FoundHealthy at found ⊢
    rw [← same]
    exact found

theorem verify_updated {c : Prop} {s : Rolling} (fuel : Nat) (within : Within p config c past s)
    (finished : ¬ s.unfinished p) : Holds anyAnswer (fun _ _ => True)
      (fun past outcome => ∀ result, outcome = some (.finished result) → Updated p past) past
      (verify p config fuel s) := by
  obtain ⟨full, cleared⟩ := not_or.mp finished
  have noOld : s.old = [] := length_eq_zero_iff.mp (Nat.eq_zero_of_not_pos cleared)
  have start : Verifying p past (s.new.map fun inst => { inst with healthy := false }) := by
    constructor
    · rw [within.exist, noOld, List.map_map]
      rfl
    · rw [length_map]
      exact Int.not_lt.mp full
    · intro inst mem
      obtain ⟨other, inside, rfl⟩ := List.mem_map.mp mem
      exact within.versions other inside
    · intro inst mem healthy
      obtain ⟨other, inside, rfl⟩ := List.mem_map.mp mem
      cases healthy
  have waited : Holds anyAnswer (fun _ _ => True) (fun past waited => ∀ w, waited = some w →
      Verifying p past w.instances ∧
        (w.timeout = none → ∀ inst ∈ w.instances, inst.healthy = true)) past
      (waitHealthy (pollInterval config) fuel (s.new.map fun inst => { inst with healthy := false })
        s.metrics.healthChecks) := by
    apply waitHealthy_holds (I := Verifying p)
    case allowed => exact fun _ _ _ _ _ _ => trivial
    case answered =>
      exact fun past before inst rest answer unhealthy _ verifying => verifying.checked unhealthy
    case sleeps => exact fun _ _ _ _ => trivial
    case slept => exact fun past insts interval answer _ verifying => verifying.later rfl
    case start => exact start
  refine waited.bind fun past waited ended => ?_
  cases waited with
  | none =>
    refine Holds.pure fun result spent => ?_
    cases spent
  | some w =>
    obtain ⟨verifying, healthy⟩ := ended w rfl
    dsimp only
    split
    next late =>
      refine Holds.pure fun result failed => ?_
      cases failed
    next inTime =>
      unfold report
      split
      · refine Holds.call trivial fun answer _ => ?_
        exact Holds.pure fun result _ => (verifying.later rfl).updated (healthy inTime)
      · exact Holds.pure fun result _ => verifying.updated (healthy inTime)

theorem execute_updated (accepted : Accepted p config) (fuel : Nat) :
    Holds anyAnswer (fun _ _ => True)
      (fun past outcome => ∀ result, outcome = some (.finished result) → Updated p past) []
      (execute (some p) fuel) := by
  have started : Within p config False [] (start p) := start_within False.elim
  rw [execute_accepted accepted]
  refine (loop_within accepted fuel started).forget.bind fun past ended after => ?_
  match ended with
  | none =>
    refine Holds.pure fun result spent => ?_
    cases spent
  | some (.inr outcome) =>
    obtain ⟨failure, err, rfl⟩ := after _ rfl
    refine Holds.pure fun result finished => ?_
    cases finished
  | some (.inl s) =>
    obtain ⟨within, finished⟩ := after _ rfl
    exact verify_updated fuel within finished

/-- Every rolling update that starts within its bounds, and whose replicas and surge fit a word or
whose new version is already available, keeps to its surge and its availability whatever the driver
answers; where it reports success, the service is updated. -/
theorem rolling_keeps_bounds (accepted : Accepted p config)
    (few : (p.instances.length : Int) ≤ p.replicas.toInt + config.maxSurge.toInt)
    (enough : p.replicas.toInt - config.maxUnavailable.toInt ≤ countHealthy p.instances)
    (roomy : Roomy p config (p.instances.filter fun inst => inst.version = p.targetVersion))
    (fuel : Nat) :
    (∀ history call next, (loop p config fuel (start p)).Run history (.ask call next) →
      Bounded p config history) ∧
    (∀ history result, (execute (some p) fuel).Run history (.done (some (.finished result))) →
      Updated p history) := by
  constructor
  · intro history call next run
    have started : Within p config True [] (start p) :=
      start_within fun _ => start_sized few enough roomy
    have reached := (loop_within accepted fuel started).of_run run fun _ _ => trivial
    exact reached.1 trivial
  · intro history result run
    exact (execute_updated accepted fuel).of_run run (fun _ _ => trivial) result rfl

def surging (maxSurge maxUnavailable : Int64) : Config where
  type := .rolling
  maxSurge := maxSurge
  maxUnavailable := maxUnavailable
  steps := []
  analysis := none
  healthCheck := none

/-- A service of version 1 that is updated to version 2. -/
def updateOf (config : Config) (replicas : Int64) (instances : List Instance) : ExecuteParams where
  deploymentID := "d1"
  serviceName := "web"
  currentVersion := "v1"
  targetVersion := "v2"
  replicas := replicas
  config := some config
  instances := instances
  callbacks := some ⟨true, true, true, false, false, false⟩

theorem rolling_keeps_bounds_single :
    let config := surging 1 0
    let p := updateOf config 1 [⟨"a", "v1", true⟩]
    let run := (loop p config 1 (start p)).goOn (smoothly "b") 2 []
    run.2.asks = true ∧ Bounded p config run.1 := by
  intro config p run
  have asking : run.2.asks = true := by decide +kernel
  obtain ⟨call, next, here⟩ := exists_of_asks asking
  have reached : (loop p config 1 (start p)).Run run.1 run.2 := run_goOn (smoothly "b") 2 _
  rw [here] at reached
  exact ⟨asking, (rolling_keeps_bounds ⟨rfl, rfl, rfl, by decide⟩ (by decide) (by decide)
    (.inl (by decide)) 1).1 run.1 call next reached⟩

/-- With two replicas, all of which must stay available, and the largest surge, the first old
instance is deleted at once, and only one is left when the next callback is made. -/
theorem largest_surge_unavailable :
    let config := surging Int64.maxValue 0
    let p := updateOf config 2 [⟨"a", "v1", true⟩, ⟨"b", "v1", true⟩]
    Accepted p config ∧ (p.instances.length : Int) ≤ p.replicas.toInt + config.maxSurge.toInt ∧
      p.replicas.toInt - config.maxUnavailable.toInt ≤ countHealthy p.instances ∧
      ∃ history call next, (loop p config 1 (start p)).Run history (.ask call next) ∧
        ¬ Bounded p config history := by
  intro config p
  have reached := run_goOn (smoothly "c") 2 (loop p config 1 (start p))
  have asking : ((loop p config 1 (start p)).goOn (smoothly "c") 2 []).2.asks = true := by
    decide +kernel
  have low : ¬ Bounded p config ((loop p config 1 (start p)).goOn (smoothly "c") 2 []).1 := by
    rintro ⟨-, available⟩
    exact absurd available (by decide +kernel)
  obtain ⟨call, next, here⟩ := exists_of_asks asking
  rw [here] at reached
  exact ⟨⟨rfl, rfl, rfl, by decide⟩, by decide, by decide, _, call, next, reached, low⟩

end Unheaded.Deploy.Rolling
