import Mathlib.Data.Finmap
import Unheaded.Lib.Calendar
import Unheaded.Lib.Json

/-!
# Audit events and their hashes

The hash of an event covers its id, time, type, action, outcome, the hash before it and its
details, joined by bars.
-/

namespace Unheaded.Audit

open Lib List Function

structure Actor where
  id : Bytes
  type : Bytes
  name : Bytes
  roles : List Bytes
  session : Bytes
  deriving DecidableEq

structure Resource where
  id : Bytes
  type : Bytes
  name : Bytes
  path : Bytes
  deriving DecidableEq

structure Source where
  ip : Bytes
  userAgent : Bytes
  service : Bytes
  requestID : Bytes
  deriving DecidableEq

/-- The details of an event: values of any type under their names. -/
abbrev Details (τ : Type) := Finmap fun _ : Bytes => τ

/-- The fields of an event but for its hash and signature. -/
@[ext] structure Content (τ : Type) where
  id : Bytes
  timestamp : Instant
  type : Bytes
  severity : Bytes
  action : Bytes
  outcome : Bytes
  actor : Option Actor
  resource : Option Resource
  details : Details τ
  source : Option Source
  previousHash : Bytes
  deriving DecidableEq

structure AuditEvent (τ : Type) extends Content τ where
  hash : Text
  signature : Bytes
  deriving DecidableEq

def bar : BitVec 8 := 0x7C

section Hash

variable {τ : Type} (marshal : Details τ → Option Bytes) (sha256 : Bytes → Bytes)

/-- `json.Marshal` makes the text; details that it refuses are written as none are. -/
def serializeDetails (details : Details τ) : Bytes :=
  if details.entries.card = 0 then [] else (marshal details).getD []

namespace AuditEvent

/-- The text that is hashed. -/
def hashed (e : AuditEvent τ) : Bytes :=
  e.id ++ bar :: (utf8 (rfc3339Nano e.timestamp) ++ bar :: (e.type ++ bar :: (e.action ++ bar ::
    (e.outcome ++ bar :: (e.previousHash ++ bar :: serializeDetails marshal e.details)))))

def computeHash (e : AuditEvent τ) : Text := hexEncode (sha256 (e.hashed marshal))

def verifyHash (e : AuditEvent τ) : Bool := e.hash == e.computeHash marshal sha256

/-- `Validate`: the first field that is missing. -/
def validate (e : AuditEvent τ) : Option String :=
  if e.id = [] then some "event ID is required"
  else if e.timestamp.isZero then some "timestamp is required"
  else if e.type = [] then some "event type is required"
  else if e.action = [] then some "action is required"
  else
    match e.actor with
    | none => some "actor with ID is required"
    | some actor => if actor.id = [] then some "actor with ID is required" else none

end AuditEvent

end Hash

theorem mem_rfc3339Nano {t : Instant} {c : Char} (mem : c ∈ rfc3339Nano t) :
    c ∈ ['-', 'T', ':', '.', 'Z'] ∨ ∃ k < 10, c = Nat.digitChar k := by
  have clock : ∀ {n : Nat}, c ∈ ':' :: digits 2 n →
      c ∈ ['-', 'T', ':', '.', 'Z'] ∨ ∃ k < 10, c = Nat.digitChar k := by
    intro n inside
    rcases mem_cons.mp inside with rfl | digit
    · exact .inl (by decide)
    · exact .inr (mem_digits digit)
  rcases mem_append.mp mem with date | rest
  · rcases mem_dateText date with rfl | digit
    · exact .inl (by decide)
    · exact .inr digit
  rcases mem_cons.mp rest with rfl | rest
  · exact .inl (by decide)
  rcases mem_append.mp rest with front | zone
  · rcases mem_append.mp front with time | fraction
    · rcases mem_append.mp time with hours | seconds
      · rcases mem_append.mp hours with hour | minutes
        · exact .inr (mem_digits hour)
        · exact clock minutes
      · exact clock seconds
    · unfold fractionText at fraction
      split at fraction
      · cases fraction
      · rcases mem_cons.mp fraction with rfl | digit
        · exact .inl (by decide)
        · have kept := rdropWhile_prefix _ _ |>.subset digit
          exact .inr (mem_digits kept)
  · rw [mem_singleton.mp zone]
    exact .inl (by decide)

theorem bar_notMem_timestamp (t : Instant) : bar ∉ utf8 (rfc3339Nano t) := by
  intro mem
  obtain ⟨byte, inside, isBar⟩ := List.mem_map.mp mem
  obtain ⟨c, char, encoded⟩ := mem_flatMap.mp inside
  have plain : ∀ c ∈ ['-', 'T', ':', '.', 'Z'], ∀ b ∈ String.utf8EncodeChar c, b.toBitVec ≠ bar := by
    intro c listed
    simp only [mem_cons, not_mem_nil, or_false] at listed
    rcases listed with rfl | rfl | rfl | rfl | rfl
    all_goals decide +kernel
  have digit : ∀ k < 10, ∀ b ∈ String.utf8EncodeChar (Nat.digitChar k), b.toBitVec ≠ bar := by
    decide +kernel
  rcases mem_rfc3339Nano char with listed | ⟨k, small, rfl⟩
  · exact plain c listed byte encoded isBar
  · exact digit k small byte encoded isBar

section Binding

variable {τ : Type} {marshal : Details τ → Option Bytes}

variable (marshal) in
/-- The two events differ in nothing that the hash passes over: not in the fields that are not
hashed, not in where the fields end, and not in details that are written alike. -/
structure HashTells (e e' : Content τ) : Prop where
  severity : e.severity = e'.severity
  actor : e.actor = e'.actor
  resource : e.resource = e'.resource
  source : e.source = e'.source
  idLength : e.id.length = e'.id.length
  typeLength : e.type.length = e'.type.length
  actionLength : e.action.length = e'.action.length
  outcomeLength : e.outcome.length = e'.outcome.length
  previousLength : e.previousHash.length = e'.previousHash.length
  details : serializeDetails marshal e.details = serializeDetails marshal e'.details →
    e.details = e'.details

theorem hashed_inj {e e' : AuditEvent τ} (same : e.hashed marshal = e'.hashed marshal)
    (tells : HashTells marshal e.toContent e'.toContent) : e.toContent = e'.toContent := by
  obtain ⟨ids, s1⟩ := append_inj same tells.idLength
  obtain ⟨times, s2⟩ := append_separator_inj (bar_notMem_timestamp _) (bar_notMem_timestamp _)
    (tail_eq_of_cons_eq s1)
  obtain ⟨types, s3⟩ := append_inj s2 tells.typeLength
  obtain ⟨acts, s4⟩ := append_inj (tail_eq_of_cons_eq s3) tells.actionLength
  obtain ⟨outcomes, s5⟩ := append_inj (tail_eq_of_cons_eq s4) tells.outcomeLength
  obtain ⟨previous, s6⟩ := append_inj (tail_eq_of_cons_eq s5) tells.previousLength
  exact Content.ext ids (rfc3339Nano_inj (utf8_inj times)) types tells.severity acts outcomes
    tells.actor tells.resource (tells.details (tail_eq_of_cons_eq s6)) tells.source previous

/-- Events with the same hash have the same content exactly where they do not differ in what the hash
passes over; so `VerifyHash` notices a change of a stored event but for such a change. -/
theorem hash_binds_iff (marshal : Details τ → Option Bytes) {sha256 : Bytes → Bytes}
    (injective : Injective sha256) (e e' : AuditEvent τ) :
    (e.computeHash marshal sha256 = e'.computeHash marshal sha256 →
      (e.toContent = e'.toContent ↔ HashTells marshal e.toContent e'.toContent)) ∧
    (e.verifyHash marshal sha256 = true → e'.hash = e.hash → e'.verifyHash marshal sha256 = true →
      (e.toContent = e'.toContent ↔ HashTells marshal e.toContent e'.toContent)) := by
  have binds : e.computeHash marshal sha256 = e'.computeHash marshal sha256 →
      (e.toContent = e'.toContent ↔ HashTells marshal e.toContent e'.toContent) := by
    intro same
    constructor
    · intro equal
      rw [equal]
      exact ⟨rfl, rfl, rfl, rfl, rfl, rfl, rfl, rfl, rfl, fun _ => rfl⟩
    · exact hashed_inj (injective (hexEncode_inj same))
  refine ⟨binds, fun verified kept verified' => binds ?_⟩
  have stored : e.hash = e.computeHash marshal sha256 := eq_of_beq verified
  have changed : e'.hash = e'.computeHash marshal sha256 := eq_of_beq verified'
  rw [← stored, ← changed, kept]

end Binding

def actorNamed (name : String) : Actor := ⟨utf8 name.toList, utf8 "user".toList, [], [], []⟩

/-- The text of a start of the system is `e1|2026-01-02T03:04:05Z|system|boot|success||`. -/
def bootContent (actor : Actor) : Content Bytes where
  id := utf8 "e1".toList
  timestamp := instantOf 2026 0 1 3 4 5 0
  type := utf8 "system".toList
  severity := utf8 "info".toList
  action := utf8 "boot".toList
  outcome := utf8 "success".toList
  actor := some actor
  resource := none
  details := ∅
  source := none
  previousHash := []

/-- Its SHA-256. -/
def bootDigest : Bytes := [0xe7, 0x6a, 0xf9, 0xda, 0xae, 0xd4, 0x41, 0x82, 0x65, 0x8d, 0xf5, 0x27,
    0xb8, 0xe5, 0x80, 0xdd, 0xf1, 0xd7, 0x21, 0x0d, 0x18, 0xa2, 0x60, 0x08,
    0x4b, 0xde, 0xc4, 0xae, 0x1a, 0x9e, 0xb1, 0x79]

def bootEvent (actor : Actor) : AuditEvent Bytes := ⟨bootContent actor, hexEncode bootDigest, []⟩

/-- `json.Marshal` on details with no entries. -/
def bootMarshal (_ : Details Bytes) : Option Bytes := some (utf8 "\x7b\x7d".toList)

def bootSha256 (b : Bytes) : Bytes :=
  if b = (bootEvent (actorNamed "alice")).hashed bootMarshal then bootDigest else 1 :: b

theorem bootSha256_injective : Injective bootSha256 := by
  intro a b same
  unfold bootSha256 at same
  split at same
  next first =>
    split at same
    next second => rw [first, second]
    next => cases same
  next =>
    split at same
    next => cases same
    next => exact tail_eq_of_cons_eq same

theorem hash_binds_iff_boot :
    (bootContent (actorNamed "alice") = bootContent (actorNamed "mallory") ↔
      HashTells bootMarshal (bootContent (actorNamed "alice"))
        (bootContent (actorNamed "mallory"))) :=
  (hash_binds_iff bootMarshal bootSha256_injective (bootEvent (actorNamed "alice"))
    (bootEvent (actorNamed "mallory"))).1 rfl

/-- Another actor is put into a valid stored event, and its hash still verifies. -/
theorem actor_changed_unnoticed : ((bootEvent (actorNamed "alice")).validate = none ∧
      (bootEvent (actorNamed "mallory")).validate = none) ∧
    (∀ sha256 : Bytes → Bytes, (bootEvent (actorNamed "alice")).computeHash bootMarshal sha256 =
      (bootEvent (actorNamed "mallory")).computeHash bootMarshal sha256) ∧
    ((bootEvent (actorNamed "alice")).verifyHash bootMarshal bootSha256 = true ∧
      (bootEvent (actorNamed "mallory")).verifyHash bootMarshal bootSha256 = true) ∧
    bootContent (actorNamed "alice") ≠ bootContent (actorNamed "mallory") := by
  have hashed : bootSha256 ((bootEvent (actorNamed "alice")).hashed bootMarshal) = bootDigest :=
    if_pos rfl
  have verifies : (bootEvent (actorNamed "alice")).verifyHash bootMarshal bootSha256 = true := by
    rw [AuditEvent.verifyHash, AuditEvent.computeHash, hashed]
    exact beq_self_eq_true _
  refine ⟨⟨rfl, rfl⟩, fun _ => rfl, ⟨verifies, verifies⟩, ?_⟩
  intro equal
  have actors := congrArg Content.actor equal
  exact absurd actors (by decide)

end Unheaded.Audit
