import Unheaded.Lib.Events
import Unheaded.Net.Packet

/-!
# The failover program

`failover_xdp` of `failover-ebpf`: a circuit breaker for each pair of services, driven by the
health scores that userspace writes, and the rewrite of a packet to the healthiest backup while
the circuit is open.
-/

namespace Unheaded.Net

open Mbc Lib List BitVec

def HEALTH_OPEN_THRESHOLD : Byte := 50
def HEALTH_CLOSE_THRESHOLD : Byte := 75
def FAIL_COUNT_THRESHOLD : Word := 3
def CONSECUTIVE_SUCCESS_REQUIRED : Byte := 5

/-- A value of `ENDPOINT_HEALTH`. -/
def HealthState : Type := Fin 32 → Byte

variable (h : HealthState)

def HealthState.score : Byte := h 0

def HealthState.failCount : Byte := h 1

def HealthState.mac : List Byte := [h 8, h 9, h 10, h 11, h 12, h 13]

/-- A value of `CIRCUIT_STATE`. -/
structure CircuitEntry where
  state : Byte
  successCount : Byte
  lastTransitionNs : BitVec 64
  deriving DecidableEq

/-- A value of `BACKUP_MAP`. -/
def BackupList : Type := Fin 16 → Byte

variable (l : BackupList)

def BackupList.backups : List Word :=
  [wordOfBytes (l 3) (l 2) (l 1) (l 0), wordOfBytes (l 7) (l 6) (l 5) (l 4),
    wordOfBytes (l 11) (l 10) (l 9) (l 8)]

def BackupList.count : Byte := l 12

def BackupList.listed : List Word := l.backups.take l.count.toNat

/-- The maps of the program. -/
structure FailoverMaps where
  endpointHealth : Word → Option HealthState
  circuitState : Word → Option CircuitEntry
  backupMap : Word → Option BackupList

/-- `u8::saturating_add`. -/
def satAdd8 (a b : Byte) : Byte := if a.toNat + b.toNat < 2 ^ 8 then a + b else 0xFF

variable (endpointHealth : Word → Option HealthState)

def calculateHealthScore (key : Word) : Byte :=
  match endpointHealth key with
  | some health => health.score
  | none => 100

variable (circuit : Option CircuitEntry)

/-- `update_circuit_state`, with the endpoint's entries of `CIRCUIT_STATE` and `ENDPOINT_HEALTH`. -/
def updateCircuitState (health : Option HealthState) (healthScore : Byte) (now : BitVec 64) :
    Byte × Option CircuitEntry :=
  match circuit with
  | none => (CircuitState.CLOSED, none)
  | some entry =>
    if entry.state = CircuitState.CLOSED then
      if healthScore < HEALTH_OPEN_THRESHOLD then
        match health with
        | some h =>
          if FAIL_COUNT_THRESHOLD < h.failCount.setWidth 32 then
            (CircuitState.OPEN, some ⟨CircuitState.OPEN, 0, now⟩)
          else (CircuitState.CLOSED, some entry)
        | none => (CircuitState.CLOSED, some entry)
      else (CircuitState.CLOSED, some entry)
    else if entry.state = CircuitState.OPEN then
      if HEALTH_OPEN_THRESHOLD ≤ healthScore then
        (CircuitState.HALF_OPEN, some ⟨CircuitState.HALF_OPEN, 1, now⟩)
      else (CircuitState.OPEN, some entry)
    else if entry.state = CircuitState.HALF_OPEN then
      if HEALTH_CLOSE_THRESHOLD < healthScore then
        let newCount := satAdd8 entry.successCount 1
        if CONSECUTIVE_SUCCESS_REQUIRED ≤ newCount then
          (CircuitState.CLOSED, some ⟨CircuitState.CLOSED, 0, now⟩)
        else (CircuitState.HALF_OPEN, some { entry with successCount := newCount })
      else (CircuitState.OPEN, some ⟨CircuitState.OPEN, 0, now⟩)
    else (CircuitState.CLOSED, some entry)

/-- The scan for the healthiest backup: the best key so far and its score. -/
def scanBackups (best : Word × Byte) (keys : List Word) : Word × Byte :=
  keys.foldl (fun best key =>
    if best.2 < calculateHealthScore endpointHealth key then
      (key, calculateHealthScore endpointHealth key)
    else best) best

/-- `redirect_to_backup`: whether it redirects, and the frame. -/
def redirectToBackup (backupMap : Word → Option BackupList) (f : Frame) (primaryKey : Word) :
    Bool × Frame :=
  match backupMap primaryKey with
  | none => (false, f)
  | some backupList =>
    if backupList.count = 0 then (false, f)
    else
      let best := scanBackups endpointHealth (0, 0) backupList.listed
      if best.1 = 0 ∨ best.2 = 0 then (false, f)
      else
        match endpointHealth best.1 with
        | none => (false, f)
        | some health => if 6 ≤ f.length then (true, writeFrom f 0 health.mac) else (false, f)

/-- `failover_xdp`: the verdict, the frame and the circuits. -/
def failoverXdp (maps : FailoverMaps) (now : BitVec 64) (f : Frame) :
    XdpAction × Frame × (Word → Option CircuitEntry) :=
  match monadOf f with
  | none => (.pass, f, maps.circuitState)
  | some m =>
    let endpointKey := m.dstServiceId.setWidth 32 ||| (m.srcServiceId.setWidth 32 <<< 8)
    let healthScore := calculateHealthScore maps.endpointHealth endpointKey
    let circuit := updateCircuitState (maps.circuitState endpointKey)
      (maps.endpointHealth endpointKey) healthScore now
    let circuits := Function.update maps.circuitState endpointKey circuit.2
    if circuit.1 = CircuitState.OPEN then
      let redirected := redirectToBackup maps.endpointHealth maps.backupMap f endpointKey
      (if redirected.1 then .tx else .pass, redirected.2, circuits)
    else (.pass, f, circuits)

/-- One call of `update_circuit_state` for an endpoint. -/
structure HealthCheck where
  score : Byte
  health : Option HealthState
  now : BitVec 64

def nextCircuit (check : HealthCheck) : Option CircuitEntry :=
  (updateCircuitState circuit check.health check.score check.now).2

/-- The state that a circuit is taken to be in; a missing entry and an unknown state are closed. -/
def circuitStatus : Option CircuitEntry → Byte
  | none => CircuitState.CLOSED
  | some entry =>
    if entry.state = CircuitState.OPEN ∨ entry.state = CircuitState.HALF_OPEN then entry.state
    else CircuitState.CLOSED

variable {circuit : Option CircuitEntry}

theorem circuitStatus_halfOpen (half : circuitStatus circuit = CircuitState.HALF_OPEN) :
    ∃ entry, circuit = some entry ∧ entry.state = CircuitState.HALF_OPEN := by
  unfold circuitStatus at half
  split at half
  · cases half
  next entry =>
    split at half
    · exact ⟨entry, rfl, half⟩
    · cases half

theorem circuitStatus_open (opened : circuitStatus circuit = CircuitState.OPEN) :
    ∃ entry, circuit = some entry ∧ entry.state = CircuitState.OPEN := by
  unfold circuitStatus at opened
  split at opened
  · cases opened
  next entry =>
    split at opened
    · exact ⟨entry, rfl, opened⟩
    · cases opened

theorem circuitStatus_cases (circuit : Option CircuitEntry) :
    circuitStatus circuit = CircuitState.CLOSED ∨ circuitStatus circuit = CircuitState.OPEN ∨
      circuitStatus circuit = CircuitState.HALF_OPEN := by
  unfold circuitStatus
  split
  · exact .inl rfl
  · split
    next known => exact .inr known
    next => exact .inl rfl

theorem nextCircuit_of_closed (closed : circuitStatus circuit = CircuitState.CLOSED)
    (check : HealthCheck) : circuitStatus (nextCircuit circuit check) = CircuitState.CLOSED ∨
      (circuitStatus (nextCircuit circuit check) = CircuitState.OPEN ∧
        check.score < HEALTH_OPEN_THRESHOLD ∧
        ∃ h, check.health = some h ∧ FAIL_COUNT_THRESHOLD < h.failCount.setWidth 32) := by
  cases circuit with
  | none => exact .inl rfl
  | some entry =>
    have notOpen : entry.state ≠ CircuitState.OPEN := by
      intro opened
      rw [circuitStatus, opened] at closed
      cases closed
    have notHalf : entry.state ≠ CircuitState.HALF_OPEN := by
      intro half
      rw [circuitStatus, half] at closed
      cases closed
    unfold nextCircuit updateCircuitState
    dsimp only
    split
    · split
      next low =>
        cases check.health with
        | none => exact .inl closed
        | some h =>
          dsimp only
          split
          next failures => exact .inr ⟨rfl, low, h, rfl, failures⟩
          next => exact .inl closed
      next => exact .inl closed
    · exact .inl closed

variable {entry : CircuitEntry}

theorem nextCircuit_of_open (opened : entry.state = CircuitState.OPEN) (check : HealthCheck) :
    (check.score < HEALTH_OPEN_THRESHOLD ∧ nextCircuit (some entry) check = some entry) ∨
      (HEALTH_OPEN_THRESHOLD ≤ check.score ∧
        nextCircuit (some entry) check = some ⟨CircuitState.HALF_OPEN, 1, check.now⟩) := by
  have notClosed : entry.state ≠ CircuitState.CLOSED := by
    rw [opened]
    decide
  unfold nextCircuit updateCircuitState
  dsimp only
  rw [if_neg notClosed, if_pos opened]
  split
  next high => exact .inr ⟨high, rfl⟩
  next low => exact .inl ⟨BitVec.not_le.mp low, rfl⟩

theorem nextCircuit_of_halfOpen (half : entry.state = CircuitState.HALF_OPEN) (check : HealthCheck) :
    (HEALTH_CLOSE_THRESHOLD < check.score ∧
        CONSECUTIVE_SUCCESS_REQUIRED ≤ satAdd8 entry.successCount 1 ∧
        nextCircuit (some entry) check = some ⟨CircuitState.CLOSED, 0, check.now⟩) ∨
      (HEALTH_CLOSE_THRESHOLD < check.score ∧
        satAdd8 entry.successCount 1 < CONSECUTIVE_SUCCESS_REQUIRED ∧
        nextCircuit (some entry) check =
          some { entry with successCount := satAdd8 entry.successCount 1 }) ∨
      nextCircuit (some entry) check = some ⟨CircuitState.OPEN, 0, check.now⟩ := by
  have notClosed : entry.state ≠ CircuitState.CLOSED := by
    rw [half]
    decide
  have notOpen : entry.state ≠ CircuitState.OPEN := by
    rw [half]
    decide
  unfold nextCircuit updateCircuitState
  dsimp only
  rw [if_neg notClosed, if_neg notOpen, if_pos half]
  split
  next good =>
    split
    next enough => exact .inl ⟨good, enough, rfl⟩
    next fewer => exact .inr (.inl ⟨good, BitVec.not_le.mp fewer, rfl⟩)
  next => exact .inr (.inr rfl)

variable (start : Option CircuitEntry)

def circuitAfter (checks : List HealthCheck) : Option CircuitEntry :=
  afterAll nextCircuit start checks

/-- A score that finds the circuit open is below the one threshold or above the other. -/
def Decided (circuit : Option CircuitEntry) (check : HealthCheck) : Prop :=
  circuitStatus circuit = CircuitState.OPEN →
    check.score < HEALTH_OPEN_THRESHOLD ∨ HEALTH_CLOSE_THRESHOLD < check.score

instance (circuit : Option CircuitEntry) (check : HealthCheck) : Decidable (Decided circuit check) :=
  inferInstanceAs (Decidable (_ → _))

/-- The last `n` checks of a run were all good, and the circuit was not closed before any of them
nor, if `n` is less than five, after the last. -/
def GoodStreak (checks : List HealthCheck) (n : Nat) : Prop :=
  ∃ older streak, checks = older ++ streak ∧ streak.length = n ∧
    (∀ check ∈ streak, HEALTH_CLOSE_THRESHOLD < check.score) ∧
    ∀ k < n, circuitStatus (circuitAfter start (older ++ streak.take k)) ≠ CircuitState.CLOSED

variable {start : Option CircuitEntry}

theorem circuitAfter_concat (checks : List HealthCheck) (check : HealthCheck) :
    circuitAfter start (checks ++ [check]) = nextCircuit (circuitAfter start checks) check :=
  afterAll_append nextCircuit start checks [check]

variable {checks : List HealthCheck} {check : HealthCheck}

theorem GoodStreak.concat {n : Nat} (streak : GoodStreak start checks n)
    (good : HEALTH_CLOSE_THRESHOLD < check.score)
    (notClosed : circuitStatus (circuitAfter start checks) ≠ CircuitState.CLOSED) :
    GoodStreak start (checks ++ [check]) (n + 1) := by
  obtain ⟨older, streak, rfl, rfl, all, kept⟩ := streak
  refine ⟨older, streak ++ [check], by rw [List.append_assoc], by rw [length_append]; rfl, ?_, ?_⟩
  · intro c mem
    rcases mem_append.mp mem with before | last
    · exact all c before
    · rw [mem_singleton.mp last]
      exact good
  · intro k below
    rcases Nat.lt_succ_iff_lt_or_eq.mp below with inside | rfl
    · rw [take_append_of_le_length (Nat.le_of_lt inside)]
      exact kept k inside
    · rw [take_left]
      exact notClosed

/-- A half-open circuit has counted a streak of good checks. -/
def Streak (start : Option CircuitEntry) (checks : List HealthCheck) : Prop :=
  ∀ entry, circuitAfter start checks = some entry → entry.state = CircuitState.HALF_OPEN →
    entry.successCount.toNat < 5 ∧ GoodStreak start checks entry.successCount.toNat

theorem satAdd8_one {count : Byte} (small : count.toNat < 5) :
    (satAdd8 count 1).toNat = count.toNat + 1 := by
  rw [satAdd8, if_pos (show count.toNat + (1 : Byte).toNat < 2 ^ 8 from Nat.lt_of_lt_of_le
    (Nat.add_lt_add_right small 1) (by decide))]
  rw [toNat_add, Nat.mod_eq_of_lt]
  · rfl
  · exact Nat.lt_of_lt_of_le (Nat.add_lt_add_right small 1) (by decide)

theorem Streak.concat (streak : Streak start checks)
    (decided : Decided (circuitAfter start checks) check) : Streak start (checks ++ [check]) := by
  intro entry after half
  rw [circuitAfter_concat] at after
  rcases circuitStatus_cases (circuitAfter start checks) with closed | opened | halfOpen
  · -- A closed circuit does not become half-open.
    have status : circuitStatus (some entry) = CircuitState.HALF_OPEN := by
      rw [circuitStatus, if_pos (.inr half), half]
    rw [← after] at status
    rcases nextCircuit_of_closed closed check with stays | ⟨opens, -⟩
    · rw [stays] at status
      cases status
    · rw [opens] at status
      cases status
  · obtain ⟨before, found, isOpen⟩ := circuitStatus_open opened
    rw [found] at after
    rcases nextCircuit_of_open isOpen check with ⟨-, stays⟩ | ⟨high, becomes⟩
    · rw [stays] at after
      cases after
      rw [isOpen] at half
      cases half
    · rw [becomes] at after
      cases after
      have good := (decided opened).resolve_left (BitVec.not_lt.mpr high)
      refine ⟨(by decide : (1 : Byte).toNat < 5), checks, [check], rfl, rfl, ?_, ?_⟩
      · intro c mem
        rw [mem_singleton.mp mem]
        exact good
      · intro k below
        have zero : k = 0 := Nat.lt_one_iff.mp below
        rw [zero, take_zero, append_nil, opened]
        decide
  · obtain ⟨before, found, isHalf⟩ := circuitStatus_halfOpen halfOpen
    obtain ⟨small, counted⟩ := streak before found isHalf
    rw [found] at after
    rcases nextCircuit_of_halfOpen isHalf check with ⟨-, -, closes⟩ | ⟨good, fewer, counts⟩ | opens
    · rw [closes] at after
      cases after
      cases half
    · rw [counts] at after
      cases after
      have fewer : (satAdd8 before.successCount 1).toNat < 5 := fewer
      rw [satAdd8_one small] at fewer ⊢
      refine ⟨fewer, counted.concat good ?_⟩
      rw [halfOpen]
      decide
    · rw [opens] at after
      cases after
      cases half

theorem streak_of_decided (begins : circuitStatus start ≠ CircuitState.HALF_OPEN)
    (decided : Along nextCircuit Decided start checks) : Streak start checks := by
  induction checks using List.reverseRecOn with
  | nil =>
    intro entry after half
    refine absurd ?_ begins
    rw [show start = some entry from after, circuitStatus, if_pos (.inr half), half]
  | append_singleton checks check ih =>
    obtain ⟨earlier, last, -⟩ := along_append.mp decided
    exact (ih earlier).concat last

/-- In every run of checks in which no score from 50 to 75 finds the circuit open, the circuit opens
from closed only at a score below 50 with more than 3 failures, and when it becomes closed, the last
five scores were above 75 and it was not closed before any of them. -/
theorem circuit_closes_after_five (begins : circuitStatus start ≠ CircuitState.HALF_OPEN)
    (checks : List HealthCheck) (check : HealthCheck)
    (decided : Along nextCircuit Decided start (checks ++ [check])) :
    (circuitStatus (circuitAfter start checks) = CircuitState.CLOSED →
      circuitStatus (circuitAfter start (checks ++ [check])) = CircuitState.OPEN →
        check.score < HEALTH_OPEN_THRESHOLD ∧
          ∃ h, check.health = some h ∧ FAIL_COUNT_THRESHOLD < h.failCount.setWidth 32) ∧
    (circuitStatus (circuitAfter start checks) ≠ CircuitState.CLOSED →
      circuitStatus (circuitAfter start (checks ++ [check])) = CircuitState.CLOSED →
        GoodStreak start (checks ++ [check]) 5) := by
  obtain ⟨earlier, -, -⟩ := along_append.mp decided
  have streak := streak_of_decided begins earlier
  rw [circuitAfter_concat]
  constructor
  · intro closed opens
    rcases nextCircuit_of_closed closed check with stays | ⟨-, low, failures⟩
    · rw [stays] at opens
      cases opens
    · exact ⟨low, failures⟩
  · intro notClosed closes
    rcases circuitStatus_cases (circuitAfter start checks) with closed | opened | halfOpen
    · exact absurd closed notClosed
    · obtain ⟨before, found, isOpen⟩ := circuitStatus_open opened
      rw [found] at closes
      rcases nextCircuit_of_open isOpen check with ⟨-, stays⟩ | ⟨-, becomes⟩
      · rw [stays, circuitStatus, isOpen] at closes
        cases closes
      · rw [becomes] at closes
        cases closes
    · obtain ⟨before, found, isHalf⟩ := circuitStatus_halfOpen halfOpen
      obtain ⟨small, counted⟩ := streak before found isHalf
      rw [found] at closes
      rcases nextCircuit_of_halfOpen isHalf check with ⟨good, enough, -⟩ | ⟨-, -, counts⟩ | opens
      · have enough : 5 ≤ (satAdd8 before.successCount 1).toNat := enough
        rw [satAdd8_one small] at enough
        have four : before.successCount.toNat = 4 := by omega
        rw [four] at counted
        exact counted.concat good notClosed
      · rw [counts, circuitStatus, if_pos (.inr isHalf)] at closes
        rw [show before.state = CircuitState.CLOSED from closes] at isHalf
        cases isHalf
      · rw [opens] at closes
        cases closes

def failedCheck : HealthCheck := ⟨10, some fun i => if i = 1 then 4 else 0, 0⟩

def scored (score : Byte) : HealthCheck := ⟨score, none, 0⟩

def closedCircuit : Option CircuitEntry := some ⟨CircuitState.CLOSED, 0, 0⟩

/-- The circuit opens and closes after five scores of 80. -/
theorem circuit_closes_after_five_good : circuitStatus (circuitAfter closedCircuit
        ([failedCheck, scored 80, scored 80, scored 80, scored 80] ++ [scored 80])) =
      CircuitState.CLOSED ∧ GoodStreak closedCircuit
      ([failedCheck, scored 80, scored 80, scored 80, scored 80] ++ [scored 80]) 5 := by
  have closes : circuitStatus (circuitAfter closedCircuit
      ([failedCheck, scored 80, scored 80, scored 80, scored 80] ++ [scored 80])) =
        CircuitState.CLOSED := by
    decide
  refine ⟨closes, (circuit_closes_after_five (by decide) _ _ ?_).2 (by decide) closes⟩
  exact @along_of_check _ _ nextCircuit Decided (fun c h => decide (Decided c h))
    (fun _ _ => of_decide_eq_true) _ _ (by decide)

/-- A score of 60 and four of 80 close the circuit. -/
theorem circuit_closes_after_four : circuitStatus (circuitAfter closedCircuit
        [failedCheck, scored 60, scored 80, scored 80, scored 80]) = CircuitState.HALF_OPEN ∧
      circuitStatus (circuitAfter closedCircuit
        ([failedCheck, scored 60, scored 80, scored 80, scored 80] ++ [scored 80])) =
          CircuitState.CLOSED ∧ ¬ GoodStreak closedCircuit
        ([failedCheck, scored 60, scored 80, scored 80, scored 80] ++ [scored 80]) 5 := by
  refine ⟨by decide, by decide, ?_⟩
  rintro ⟨older, streak, split, five, good, -⟩
  have single : older.length = 1 := by
    have total := congrArg List.length split
    simp only [length_append, length_cons, length_nil] at total
    omega
  obtain ⟨first, rfl⟩ := length_eq_one_iff.mp single
  have member : scored 60 ∈ streak := by
    have tail := congrArg List.tail split
    rw [singleton_append, tail_cons] at tail
    rw [← tail]
    exact mem_cons_self
  exact absurd (good _ member) (by decide)

variable {endpointHealth : Word → Option HealthState}

/-- A listed backup with the greatest score of those that have a health entry. -/
def BestKnown (endpointHealth : Word → Option HealthState) (keys : List Word) (health : HealthState) :
    Prop :=
  ∃ key ∈ keys, endpointHealth key = some health ∧
    ∀ other ∈ keys, ∀ h, endpointHealth other = some h → h.score ≤ health.score

/-- The packet goes to a listed backup with the greatest score. -/
def RedirectsToBest (endpointHealth : Word → Option HealthState)
    (backupMap : Word → Option BackupList) (f : Frame) (primaryKey : Word) (keys : List Word) : Prop :=
  ∃ health, BestKnown endpointHealth keys health ∧
    redirectToBackup endpointHealth backupMap f primaryKey = (true, writeFrom f 0 health.mac)

/-- The first listed backup with the greatest score, where one without a health entry has 100, is
not the key 0 and has a health entry. -/
def FirstBestKnown (endpointHealth : Word → Option HealthState) (keys : List Word) : Prop :=
  ∃ before key rest, keys = before ++ key :: rest ∧ key ≠ 0 ∧ (endpointHealth key).isSome ∧
    (∀ other ∈ before,
      calculateHealthScore endpointHealth other < calculateHealthScore endpointHealth key) ∧
    ∀ other ∈ rest,
      calculateHealthScore endpointHealth other ≤ calculateHealthScore endpointHealth key

theorem calculateHealthScore_of_entry {key : Word} {health : HealthState}
    (entry : endpointHealth key = some health) :
    calculateHealthScore endpointHealth key = health.score := by
  rw [calculateHealthScore, entry]

theorem scanBackups_spec (best : Word × Byte) (keys : List Word) :
    (scanBackups endpointHealth best keys = best ∧
      ∀ key ∈ keys, calculateHealthScore endpointHealth key ≤ best.2) ∨
    ∃ before key rest, keys = before ++ key :: rest ∧
      scanBackups endpointHealth best keys = (key, calculateHealthScore endpointHealth key) ∧
      best.2 < calculateHealthScore endpointHealth key ∧ (∀ other ∈ before,
        calculateHealthScore endpointHealth other < calculateHealthScore endpointHealth key) ∧
      ∀ other ∈ rest,
        calculateHealthScore endpointHealth other ≤ calculateHealthScore endpointHealth key := by
  induction keys generalizing best with
  | nil => exact .inl ⟨rfl, fun _ mem => absurd mem not_mem_nil⟩
  | cons first keys ih =>
    have goes : scanBackups endpointHealth best (first :: keys) = scanBackups endpointHealth
          (if best.2 < calculateHealthScore endpointHealth first then
            (first, calculateHealthScore endpointHealth first) else best) keys := rfl
    rw [goes]
    split
    next better =>
      rcases ih (first, calculateHealthScore endpointHealth first) with
        ⟨kept, below⟩ | ⟨before, key, rest, rfl, found, above, lower, last⟩
      · exact .inr ⟨[], first, keys, rfl, kept, better, fun _ mem => absurd mem not_mem_nil,
          below⟩
      · refine .inr ⟨first :: before, key, rest, rfl, found, BitVec.lt_trans better above, ?_, last⟩
        intro other mem
        rcases mem_cons.mp mem with rfl | earlier
        · exact above
        · exact lower other earlier
    next worse =>
      have worse := BitVec.not_lt.mp worse
      rcases ih best with ⟨kept, below⟩ | ⟨before, key, rest, rfl, found, above, lower, last⟩
      · refine .inl ⟨kept, ?_⟩
        intro key mem
        rcases mem_cons.mp mem with rfl | later
        · exact worse
        · exact below key later
      · refine .inr ⟨first :: before, key, rest, rfl, found, above, ?_, last⟩
        intro other mem
        rcases mem_cons.mp mem with rfl | earlier
        · exact Nat.lt_of_le_of_lt worse above
        · exact lower other earlier

theorem scanBackups_of_firstBest {before : List Word} {key : Word} {rest : List Word}
    (pos : 0 < calculateHealthScore endpointHealth key) (lower : ∀ other ∈ before,
      calculateHealthScore endpointHealth other < calculateHealthScore endpointHealth key)
    (last : ∀ other ∈ rest,
      calculateHealthScore endpointHealth other ≤ calculateHealthScore endpointHealth key) :
    scanBackups endpointHealth (0, 0) (before ++ key :: rest) =
      (key, calculateHealthScore endpointHealth key) := by
  have front : (scanBackups endpointHealth (0, 0) before).2 <
      calculateHealthScore endpointHealth key := by
    rcases scanBackups_spec (0, 0) before with ⟨kept, -⟩ | ⟨b, k, r, rfl, found, -⟩
    · rw [kept]
      exact pos
    · rw [found]
      exact lower k (mem_append_right b mem_cons_self)
  have goes : scanBackups endpointHealth (0, 0) (before ++ key :: rest) =
      scanBackups endpointHealth (key, calculateHealthScore endpointHealth key) rest := by
    unfold scanBackups at front ⊢
    rw [foldl_append, foldl_cons, if_pos front]
  rw [goes]
  rcases scanBackups_spec (key, calculateHealthScore endpointHealth key) rest with
    ⟨kept, -⟩ | ⟨b, k, r, rfl, -, above, -⟩
  · exact kept
  · exact absurd (last k (mem_append_right b mem_cons_self)) (BitVec.not_le.mpr above)

/-- With a list of one to three backups, one of which has an entry with a positive score, the packet
goes to the best backup that has an entry exactly if the first of the greatest scores, an unknown
backup counting as 100, belongs to a backup with an entry and a key other than 0. -/
theorem redirects_to_best_iff {backupMap : Word → Option BackupList} {primaryKey : Word}
    {backupList : BackupList} (listed : backupMap primaryKey = some backupList)
    (few : 1 ≤ backupList.count.toNat ∧ backupList.count.toNat ≤ 3) {f : Frame}
    (frame : ETH_HLEN ≤ f.length)
    (usable : ∃ key ∈ backupList.listed, ∃ h, endpointHealth key = some h ∧ 0 < h.score) :
    RedirectsToBest endpointHealth backupMap f primaryKey backupList.listed ↔
      FirstBestKnown endpointHealth backupList.listed := by
  have some_count : backupList.count ≠ 0 := by
    intro zero
    rw [zero] at few
    exact absurd few.1 (by decide)
  have room : 6 ≤ f.length := Nat.le_trans (by decide) frame
  obtain ⟨known, member, entry, has, positive⟩ := usable
  have goes : redirectToBackup endpointHealth backupMap f primaryKey =
      (let best := scanBackups endpointHealth (0, 0) backupList.listed
       if best.1 = 0 ∨ best.2 = 0 then (false, f)
       else
         match endpointHealth best.1 with
         | none => (false, f)
         | some health => if 6 ≤ f.length then (true, writeFrom f 0 health.mac) else (false, f)) := by
    rw [redirectToBackup, listed]
    dsimp only
    rw [if_neg some_count]
  rcases scanBackups_spec (0, 0) backupList.listed with
    ⟨-, below⟩ | ⟨before, key, rest, split, found, above, lower, last⟩
  · -- Some score is positive.
    have low := below known member
    rw [calculateHealthScore_of_entry has] at low
    exact absurd positive (BitVec.not_lt.mpr low)
  · have notZero : calculateHealthScore endpointHealth key ≠ 0 := fun zero => by
      rw [zero] at above
      exact absurd above (by decide)
    have top : ∀ other ∈ backupList.listed,
        calculateHealthScore endpointHealth other ≤ calculateHealthScore endpointHealth key := by
      intro other inside
      rw [split] at inside
      rcases mem_append.mp inside with earlier | here
      · exact BitVec.le_of_lt (lower other earlier)
      · rcases mem_cons.mp here with rfl | later
        · exact BitVec.le_refl _
        · exact last other later
    rw [RedirectsToBest, goes, found]
    dsimp only
    constructor
    · rintro ⟨health, -, redirected⟩
      refine ⟨before, key, rest, split, ?_, ?_, lower, last⟩
      · rintro rfl
        cases redirected
      · split at redirected
        · cases redirected
        · cases held : endpointHealth key with
          | none =>
            simp [held] at redirected
          | some h => rfl
    · rintro ⟨before', key', rest', split', nonzero, isSome, lower', last'⟩
      have same : key = key' := by
        have positive' : 0 < calculateHealthScore endpointHealth key' := by
          have inside : key ∈ before' ++ key' :: rest' := by
            rw [← split', split]
            exact mem_append_right before mem_cons_self
          rcases mem_append.mp inside with earlier | here
          · exact BitVec.lt_trans above (lower' key earlier)
          · rcases mem_cons.mp here with rfl | later
            · exact above
            · exact Nat.lt_of_lt_of_le above (last' key later)
        have again := scanBackups_of_firstBest positive' lower' last'
        rw [← split', found] at again
        exact congrArg Prod.fst again
      subst same
      obtain ⟨health, held⟩ := Option.isSome_iff_exists.mp isSome
      refine ⟨health, ⟨key, ?_, held, ?_⟩, ?_⟩
      · rw [split]
        exact mem_append_right before mem_cons_self
      · intro other inside h found
        have bound := top other inside
        rwa [calculateHealthScore_of_entry found, calculateHealthScore_of_entry held] at bound
      · rw [if_neg (not_or.mpr ⟨nonzero, notZero⟩), held]
        dsimp only
        rw [if_pos room]

def twoBackups : BackupList := fun i => if i = 0 then 7 else if i = 4 then 8 else if i = 12 then 2 else 0

def healthyEndpoint (score : Byte) : HealthState := fun i => if i = 0 then score else 2

def knownBackups (first : Bool) (key : Word) : Option HealthState :=
  if key = 8 then some (healthyEndpoint 90)
  else if key = 7 ∧ first = true then some (healthyEndpoint 80)
  else none

def shortFrame : Frame := replicate 14 0

theorem redirects_to_best_iff_known :
    RedirectsToBest (knownBackups true) (fun _ => some twoBackups) shortFrame 1 twoBackups.listed := by
  have few : 1 ≤ twoBackups.count.toNat ∧ twoBackups.count.toNat ≤ 3 := by decide
  have usable : ∃ key ∈ twoBackups.listed, ∃ h, knownBackups true key = some h ∧ 0 < h.score := by
    exact ⟨8, by decide, healthyEndpoint 90, rfl, by decide⟩
  refine (@redirects_to_best_iff _ (fun _ => some twoBackups) 1 twoBackups rfl few shortFrame
    (by decide) usable).mpr ?_
  refine ⟨[7], 8, [], rfl, by decide, by decide, ?_, fun _ member => absurd member not_mem_nil⟩
  intro other member
  rw [mem_singleton.mp member]
  decide

/-- A backup without an entry hides the one that could be used. -/
theorem unknown_backup_hides_best :
    (∃ key ∈ twoBackups.listed, ∃ h, knownBackups false key = some h ∧ 0 < h.score) ∧
      redirectToBackup (knownBackups false) (fun _ => some twoBackups) shortFrame 1 =
        (false, shortFrame) ∧
      ¬ RedirectsToBest (knownBackups false) (fun _ => some twoBackups) shortFrame 1
        twoBackups.listed := by
  have stays : redirectToBackup (knownBackups false) (fun _ => some twoBackups) shortFrame 1 =
      (false, shortFrame) := by
    decide +kernel
  refine ⟨⟨8, ?_, healthyEndpoint 90, rfl, by decide⟩, stays, ?_⟩
  · decide
  rintro ⟨health, -, redirected⟩
  cases redirected

end Unheaded.Net
