import Unheaded.Lib.Calendar
import Unheaded.Lib.Json

/-!
# The apply journal of remediations

Every entry of a host's journal carries the hash of the entry before it, and its own hash covers
that one and the JSON of all its other fields.
-/

namespace Unheaded.Compliance

open Lib List Function

/-- A time with the offset of its zone. -/
structure Timestamp where
  instant : Instant
  offset : Int

def Timestamp.utc (t : Timestamp) : Timestamp := { t with offset := 0 }

/-- One line of the journal. -/
@[ext] structure JournalEntry where
  host : Text
  seq : BitVec 64
  fixID : Text
  fixSHA256 : Text
  modelCommit : Text
  action : Text
  outcome : Text
  backupDir : Text
  operator : Text
  backfilled : Bool
  atTime : Timestamp
  previousHash : Text
  hash : Text

def GenesisHash : Text := replicate 64 '0'

def KnownHosts : List Text := ["west".toList, "east".toList]

def actions : List Text := ["plan".toList, "apply".toList, "undo".toList]

def outcomes : List Text := ["success".toList, "failure".toList, "refused".toList, "restored".toList]

def isLowerAlnum (c : Char) : Bool := ('a' ≤ c && c ≤ 'z') || ('0' ≤ c && c ≤ '9')

/-- `^[a-z0-9][a-z0-9-]{0,39}$`. -/
def matchesId : Text → Bool
  | [] => false
  | c :: rest => isLowerAlnum c && decide (rest.length ≤ 39) && rest.all fun d => isLowerAlnum d || d == '-'

/-- `^[0-9a-f]{64}$`. -/
def matchesHash (s : Text) : Bool :=
  decide (s.length = 64) && s.all fun c => ('0' ≤ c && c ≤ '9') || ('a' ≤ c && c ≤ 'f')

def printable (s : Text) : Bool := s.all fun c => decide (0x20 ≤ c.toNat) && c.toNat != 0x7f

/-- What is wrong with an entry. -/
inductive Invalid where
  | host (host : Text)
  | seq (seq : BitVec 64)
  | fix (id : Text)
  | fixSHA256 (hash : Text)
  | modelCommit
  | action (action : Text)
  | outcome (outcome : Text)
  | backupDir
  | operator
  | noTime
  | previousHash (hash : Text)

namespace JournalEntry

variable (e : JournalEntry)

def validate : Option Invalid :=
  if !KnownHosts.contains e.host then some (.host e.host)
  else if e.seq.toInt < 1 then some (.seq e.seq)
  else if !matchesId e.fixID then some (.fix e.fixID)
  else if !matchesHash e.fixSHA256 then some (.fixSHA256 e.fixSHA256)
  else if 64 < (utf8 e.modelCommit).length ∨ !printable e.modelCommit then some .modelCommit
  else if !actions.contains e.action then some (.action e.action)
  else if !outcomes.contains e.outcome then some (.outcome e.outcome)
  else if 512 < (utf8 e.backupDir).length ∨ !printable e.backupDir then some .backupDir
  else if (trim e.operator).isEmpty ∨ 100 < (utf8 e.operator).length ∨ !printable e.operator then
    some .operator
  else if e.atTime.instant.isZero then some .noTime
  else if !matchesHash e.previousHash then some (.previousHash e.previousHash)
  else none

def key (name : String) : Text := jsonString name.toList ++ [':']

/-- The JSON of the entry. -/
def json : Text :=
  '\x7b' :: (key "host" ++ (jsonString e.host ++ (',' :: (key "seq" ++ (showInt e.seq.toInt ++
    (',' :: (key "fix_id" ++ (jsonString e.fixID ++ (',' :: (key "fix_sha256" ++
    (jsonString e.fixSHA256 ++ (',' :: (key "model_commit" ++ (jsonString e.modelCommit ++
    (',' :: (key "action" ++ (jsonString e.action ++ (',' :: (key "outcome" ++
    (jsonString e.outcome ++ (',' :: (key "backup_dir" ++ (jsonString e.backupDir ++
    (',' :: (key "operator" ++ (jsonString e.operator ++ (',' :: (key "backfilled" ++
    ((if e.backfilled then "true".toList else "false".toList) ++ (',' :: (key "at" ++
    (jsonString (rfc3339Nano e.atTime.instant) ++ (',' :: (key "previous_hash" ++
    (jsonString e.previousHash ++ (',' :: (key "hash" ++ (jsonString e.hash ++
    ['\x7d']))))))))))))))))))))))))))))))))))))))

/-- `json.Marshal` of an entry in UTC: the year has to have four digits. -/
def marshal : Option Text :=
  if 0 ≤ e.atTime.instant.year ∧ e.atTime.instant.year ≤ 9999 then some e.json else none

def canonical : JournalEntry := { e with hash := [], atTime := e.atTime.utc }

def digest (sha256 : Bytes → Bytes) (e : JournalEntry) : Option Text :=
  e.canonical.marshal.map fun body => hexEncode (sha256 (utf8 (e.previousHash ++ '\n' :: body)))

def utc : JournalEntry := { e with atTime := e.atTime.utc }

end JournalEntry

/-- Why a chain is refused, with the number of the entry. -/
inductive ChainError where
  | invalid (entry : Nat) (e : Invalid)
  | host (entry : Nat) (host chain : Text)
  | seq (entry : Nat) (seq want : BitVec 64)
  | follows (seq : BitVec 64)
  | marshal
  | content (seq : BitVec 64)

/-- The loop of `VerifyChain`, from entry number `i` on. -/
def verifyFrom (sha256 : Bytes → Bytes) (host : Text) (seq : BitVec 64) :
    Nat → Text → List JournalEntry → Except ChainError Unit
  | _, _, [] => .ok ()
  | i, prev, e :: entries =>
    match e.validate with
    | some bad => .error (.invalid (i + 1) bad)
    | none =>
      if e.host ≠ host then .error (.host (i + 1) e.host host)
      else if e.seq ≠ seq + BitVec.ofNat 64 i then
        .error (.seq (i + 1) e.seq (seq + BitVec.ofNat 64 i))
      else if e.previousHash ≠ prev then .error (.follows e.seq)
      else
        match e.digest sha256 with
        | none => .error .marshal
        | some d =>
          if d ≠ e.hash then .error (.content e.seq)
          else verifyFrom sha256 host seq (i + 1) e.hash entries

def verifyChain (sha256 : Bytes → Bytes) (entries : List JournalEntry) (prev : Text) :
    Except ChainError Unit :=
  match entries with
  | [] => .ok ()
  | first :: _ => verifyFrom sha256 first.host first.seq 0 prev entries

def endHash (prev : Text) (entries : List JournalEntry) : Text :=
  match entries.getLast? with
  | none => prev
  | some e => e.hash

variable {rest rest' : Text}

theorem showInt_comma_inj {i j : Int} (same : showInt i ++ ',' :: rest = showInt j ++ ',' :: rest') :
    i = j ∧ rest = rest' := by
  have noComma : ∀ i : Int, ',' ∉ showInt i := by
    intro i mem
    have digit : ∀ k < 10, ',' ≠ Nat.digitChar k := by decide
    have magnitude : ',' ∉ showNat 10 i.natAbs := by
      intro inside
      obtain ⟨k, small, equal⟩ := mem_showNat (by decide) inside
      exact digit k small equal
    unfold showInt at mem
    split at mem
    · rcases mem_cons.mp mem with sign | inside
      · cases sign
      · exact magnitude inside
    · exact magnitude mem
  obtain ⟨numbers, rests⟩ := append_separator_inj (noComma i) (noComma j) same
  refine ⟨?_, rests⟩
  have range : ∀ k : Int, ∀ bound : Nat, k.natAbs < bound → parseSigned 10 bound (showInt k) = some k :=
    fun k bound small => parseSigned_showInt (by omega) (by omega)
  have read := range i (i.natAbs + j.natAbs + 1) (by omega)
  rw [numbers, range j _ (by omega)] at read
  exact (Option.some.inj read).symm

theorem bool_comma_inj {a b : Bool}
    (same : (if a then "true".toList else "false".toList) ++ ',' :: rest =
      (if b then "true".toList else "false".toList) ++ ',' :: rest') :
    a = b ∧ rest = rest' := by
  cases a with
  | true =>
    cases b with
    | true => exact ⟨rfl, tail_eq_of_cons_eq (append_cancel_left same)⟩
    | false => cases same
  | false =>
    cases b with
    | true => cases same
    | false => exact ⟨rfl, tail_eq_of_cons_eq (append_cancel_left same)⟩

theorem key_inj {name : String}
    (same : ',' :: (JournalEntry.key name ++ rest) = ',' :: (JournalEntry.key name ++ rest')) :
    rest = rest' := append_cancel_left (tail_eq_of_cons_eq same)

theorem JournalEntry.json_inj {e e' : JournalEntry} (same : e.json = e'.json) : e.utc = e'.utc := by
  have s0 := append_cancel_left (tail_eq_of_cons_eq same)
  obtain ⟨host, s1⟩ := jsonString_append_inj s0
  obtain ⟨seq, s2⟩ := showInt_comma_inj (key_inj s1)
  obtain ⟨fixID, s3⟩ := jsonString_append_inj (append_cancel_left s2)
  obtain ⟨fixSHA256, s4⟩ := jsonString_append_inj (key_inj s3)
  obtain ⟨modelCommit, s5⟩ := jsonString_append_inj (key_inj s4)
  obtain ⟨action, s6⟩ := jsonString_append_inj (key_inj s5)
  obtain ⟨outcome, s7⟩ := jsonString_append_inj (key_inj s6)
  obtain ⟨backupDir, s8⟩ := jsonString_append_inj (key_inj s7)
  obtain ⟨operator, s9⟩ := jsonString_append_inj (key_inj s8)
  obtain ⟨backfilled, s10⟩ := bool_comma_inj (key_inj s9)
  obtain ⟨time, s11⟩ := jsonString_append_inj (append_cancel_left s10)
  obtain ⟨previousHash, s12⟩ := jsonString_append_inj (key_inj s11)
  obtain ⟨hash, -⟩ := jsonString_append_inj (key_inj s12)
  have instants := rfc3339Nano_inj time
  refine JournalEntry.ext host (BitVec.eq_of_toInt_eq seq) fixID fixSHA256 modelCommit action outcome
    backupDir operator backfilled ?_ previousHash hash
  unfold utc Timestamp.utc
  rw [instants]

theorem newline_notMem {s : Text} (hash : matchesHash s = true) : '\n' ∉ s := by
  intro mem
  unfold matchesHash at hash
  rw [Bool.and_eq_true] at hash
  have digit := List.all_eq_true.mp hash.2 '\n' mem
  exact absurd digit (by decide)

theorem passed_of_none {c : Prop} [Decidable c] {bad : Invalid} {rest : Option Invalid}
    (valid : (if c then some bad else rest) = none) : ¬ c ∧ rest = none := by
  split at valid
  · cases valid
  · next passed => exact ⟨passed, valid⟩

theorem JournalEntry.matchesHash_previousHash {e : JournalEntry} (valid : e.validate = none) :
    matchesHash e.previousHash = true := by
  obtain ⟨-, seq⟩ := passed_of_none valid
  obtain ⟨-, fix⟩ := passed_of_none seq
  obtain ⟨-, fixSHA256⟩ := passed_of_none fix
  obtain ⟨-, modelCommit⟩ := passed_of_none fixSHA256
  obtain ⟨-, action⟩ := passed_of_none modelCommit
  obtain ⟨-, outcome⟩ := passed_of_none action
  obtain ⟨-, backupDir⟩ := passed_of_none outcome
  obtain ⟨-, operator⟩ := passed_of_none backupDir
  obtain ⟨-, time⟩ := passed_of_none operator
  obtain ⟨-, previous⟩ := passed_of_none time
  obtain ⟨matched, -⟩ := passed_of_none previous
  rwa [Bool.not_eq_true', Bool.not_eq_false] at matched

/-- An entry stands behind the hash `prev`. -/
structure Linked (sha256 : Bytes → Bytes) (prev : Text) (e : JournalEntry) : Prop where
  valid : e.validate = none
  follows : e.previousHash = prev
  digest : e.digest sha256 = some e.hash

/-- Entries stand behind each other, the first behind `prev`. -/
def Links (sha256 : Bytes → Bytes) : Text → List JournalEntry → Prop
  | _, [] => True
  | prev, e :: entries => Linked sha256 prev e ∧ Links sha256 e.hash entries

section Chain

variable {sha256 : Bytes → Bytes}

variable {prev : Text} {entries : List JournalEntry}

theorem links_of_verifyFrom {host : Text} {seq : BitVec 64} {i : Nat}
    (verified : verifyFrom sha256 host seq i prev entries = .ok ()) :
    Links sha256 prev entries := by
  induction entries generalizing i prev with
  | nil => exact True.intro
  | cons e entries ih =>
    unfold verifyFrom at verified
    cases valid : e.validate with
    | some bad =>
      simp [valid] at verified
    | none =>
      rw [valid] at verified
      dsimp only at verified
      split at verified
      next => cases verified
      next =>
      split at verified
      next => cases verified
      next =>
      split at verified
      next => cases verified
      next follows =>
      cases digest : e.digest sha256 with
      | none =>
        simp [digest] at verified
      | some d =>
        rw [digest] at verified
        dsimp only at verified
        split at verified
        next => cases verified
        next content =>
        rw [not_not.mp content] at digest
        exact ⟨⟨valid, not_not.mp follows, digest⟩, ih verified⟩

theorem links_of_verifyChain (verified : verifyChain sha256 entries prev = .ok ()) :
    Links sha256 prev entries := by
  cases entries with
  | nil => exact True.intro
  | cons e entries => exact links_of_verifyFrom verified

theorem endHash_concat (prev : Text) (entries : List JournalEntry) (e : JournalEntry) :
    endHash prev (entries ++ [e]) = e.hash := by
  rw [endHash, List.getLast?_concat]

theorem endHash_cons (prev : Text) (e : JournalEntry) (entries : List JournalEntry) :
    endHash prev (e :: entries) = endHash e.hash entries := by
  cases entries with
  | nil => rfl
  | cons d entries =>
    rfl

theorem links_append {front back : List JournalEntry} : Links sha256 prev (front ++ back) ↔
      Links sha256 prev front ∧ Links sha256 (endHash prev front) back := by
  induction front generalizing prev with
  | nil => exact ⟨fun links => ⟨True.intro, links⟩, fun links => links.2⟩
  | cons e front ih =>
    rw [List.cons_append, Links, Links, ih, endHash_cons, and_assoc]

theorem Links.take (links : Links sha256 prev entries) (n : Nat) :
    Links sha256 prev (entries.take n) := by
  rw [← take_append_drop n entries] at links
  exact (links_append.mp links).1

variable (injective : Injective sha256)

include injective in
theorem Linked.eq_of_hash {prev prev' : Text} {e e' : JournalEntry} (linked : Linked sha256 prev e)
    (linked' : Linked sha256 prev' e') (same : e.hash = e'.hash) : e.utc = e'.utc ∧ prev = prev' := by
  obtain ⟨body, marshal, hashed⟩ := Option.map_eq_some_iff.mp linked.digest
  obtain ⟨body', marshal', hashed'⟩ := Option.map_eq_some_iff.mp linked'.digest
  have texts := utf8_inj (injective (hexEncode_inj (hashed.trans (same.trans hashed'.symm))))
  obtain ⟨-, bodies⟩ := append_separator_inj
    (newline_notMem (JournalEntry.matchesHash_previousHash linked.valid))
    (newline_notMem (JournalEntry.matchesHash_previousHash linked'.valid)) texts
  have json : ∀ {c : JournalEntry} {b : Text}, c.marshal = some b → c.json = b := by
    intro c b written
    unfold JournalEntry.marshal at written
    split at written
    · exact Option.some.inj written
    · cases written
  have fields := JournalEntry.json_inj ((json marshal).trans (bodies.trans (json marshal').symm))
  have hashes := congrArg JournalEntry.previousHash fields
  have previous : e.previousHash = e'.previousHash := hashes
  constructor
  · have whole := congrArg (fun c : JournalEntry => { c with hash := e.hash }) fields
    refine Eq.trans whole ?_
    rw [same]
    rfl
  · rw [← linked.follows, previous, linked'.follows]

theorem Linked.hash_ne_genesis (nonzero : ∀ b, sha256 b ≠ replicate 32 0) {prev : Text}
    {e : JournalEntry} (linked : Linked sha256 prev e) : e.hash ≠ GenesisHash := by
  intro genesis
  obtain ⟨body, -, hashed⟩ := Option.map_eq_some_iff.mp linked.digest
  have zeros : hexEncode (replicate 32 0) = GenesisHash := by decide
  exact nonzero _ (hexEncode_inj (hashed.trans (genesis.trans zeros.symm)))

include injective in
theorem Links.eq_of_endHash (nonzero : ∀ b, sha256 b ≠ replicate 32 0)
    {a b : List JournalEntry} (links : Links sha256 GenesisHash a) (links' : Links sha256 GenesisHash b)
    (same : endHash GenesisHash a = endHash GenesisHash b) :
    a.map JournalEntry.utc = b.map JournalEntry.utc := by
  induction a using List.reverseRecOn generalizing b with
  | nil =>
    rcases eq_nil_or_concat b with rfl | ⟨b, y, rfl⟩
    · rfl
    · rw [concat_eq_append] at links' same
      obtain ⟨-, last, -⟩ := links_append.mp links'
      rw [endHash_concat] at same
      exact absurd same.symm (last.hash_ne_genesis nonzero)
  | append_singleton a x ih =>
    obtain ⟨before, last, -⟩ := links_append.mp links
    rcases eq_nil_or_concat b with rfl | ⟨b, y, rfl⟩
    · rw [endHash_concat] at same
      exact absurd same (last.hash_ne_genesis nonzero)
    · rw [concat_eq_append] at links' same ⊢
      obtain ⟨before', last', -⟩ := links_append.mp links'
      rw [endHash_concat, endHash_concat] at same
      obtain ⟨entries, previous⟩ := last.eq_of_hash injective last' same
      rw [map_append, map_append, ih before before' previous, map_singleton, map_singleton, entries]

end Chain

/-- Two verified journals that end in the same hash are the same, up to zones; so are the parts of
them before any two places with the same hash. -/
theorem journals_binding {sha256 : Bytes → Bytes} (injective : Injective sha256)
    (nonzero : ∀ b, sha256 b ≠ replicate 32 0) {a b : List JournalEntry}
    (verified : verifyChain sha256 a GenesisHash = .ok ())
    (verified' : verifyChain sha256 b GenesisHash = .ok ()) :
    (endHash GenesisHash a = endHash GenesisHash b →
      a.map JournalEntry.utc = b.map JournalEntry.utc) ∧
    ∀ i j, endHash GenesisHash (a.take i) = endHash GenesisHash (b.take j) →
      (a.take i).map JournalEntry.utc = (b.take j).map JournalEntry.utc := by
  have links := links_of_verifyChain verified
  have links' := links_of_verifyChain verified'
  exact ⟨links.eq_of_endHash injective nonzero links',
    fun i j => (links.take i).eq_of_endHash injective nonzero (links'.take j)⟩

/-- The SHA-256 of the text that is hashed for `planned`. -/
def plannedDigest : Bytes :=
  [0x97, 0x9a, 0x2e, 0x4c, 0x3c, 0xd7, 0xe8, 0x1a, 0xb2, 0x12, 0xab, 0x34,
    0x46, 0x7e, 0xd7, 0xa0, 0x56, 0xff, 0xb7, 0x68, 0x8d, 0xf7, 0x6e, 0x96,
    0x18, 0xd7, 0x79, 0xc9, 0x11, 0x36, 0x05, 0x33]

/-- The plan of a fix on the first host, as the first entry of its journal. -/
def planned : JournalEntry where
  host := "west".toList
  seq := 1
  fixID := "ssh".toList
  fixSHA256 := replicate 64 'a'
  modelCommit := []
  action := "plan".toList
  outcome := "success".toList
  backupDir := []
  operator := "op".toList
  backfilled := false
  atTime := ⟨instantOf 2026 0 1 3 4 5 0, 3600⟩
  previousHash := GenesisHash
  hash := hexEncode plannedDigest

/-- SHA-256 on the text of `planned`, and elsewhere some function without a collision. -/
def plannedSha256 (b : Bytes) : Bytes :=
  if b = utf8 (GenesisHash ++ '\n' :: planned.canonical.json) then plannedDigest else 1 :: b

theorem plannedSha256_injective : Injective plannedSha256 := by
  intro a b same
  unfold plannedSha256 at same
  split at same
  next first =>
    split at same
    next second => rw [first, second]
    next => cases same
  next =>
    split at same
    next => cases same
    next => exact tail_eq_of_cons_eq same

theorem plannedSha256_ne_zero (b : Bytes) : plannedSha256 b ≠ replicate 32 0 := by
  unfold plannedSha256
  split
  · decide
  · intro zero
    exact absurd (head_eq_of_cons_eq zero) (by decide)

theorem verifyChain_planned (offset : Int) :
    verifyChain plannedSha256 [{ planned with atTime := ⟨planned.atTime.instant, offset⟩ }] GenesisHash =
      .ok () := by
  have hashed : plannedSha256 (utf8 (GenesisHash ++ '\n' :: planned.canonical.json)) =
      plannedDigest := if_pos rfl
  have digest : JournalEntry.digest plannedSha256
      { planned with atTime := ⟨planned.atTime.instant, offset⟩ } = some planned.hash :=
    congrArg (fun d => some (hexEncode d)) hashed
  have valid : JournalEntry.validate
      { planned with atTime := ⟨planned.atTime.instant, offset⟩ } = none := rfl
  unfold verifyChain verifyFrom
  rw [digest]
  rfl

/-- The entry read in two zones. -/
theorem journals_binding_planned : [planned].map JournalEntry.utc =
      [{ planned with atTime := ⟨planned.atTime.instant, -7200⟩ }].map JournalEntry.utc :=
  (journals_binding plannedSha256_injective plannedSha256_ne_zero (verifyChain_planned 3600)
    (verifyChain_planned (-7200))).1 rfl

end Unheaded.Compliance
