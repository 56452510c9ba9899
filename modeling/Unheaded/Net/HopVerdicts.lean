import Unheaded.Net.HopRules

/-!
# Rules files and hop checks

A rules file says which packets a hop lets through; `checks_pass` says it of the maps that `Apply`
has written.
-/

namespace Unheaded.Net

open Mbc Lib Schema List BitVec Option HopValidatorKey RetryTokenKey
open BitVec (ofNat)

namespace HopRules

/-! ## The written maps as the program reads them -/

variable (b : List Byte)

def valueWord (i : Nat) : Word := ofNat 32 (leValue ((b.drop i).take 4))

/-- A value of `HOP_VALIDATORS`. -/
def readValidator : HopValidator :=
  ⟨b.getD 0 0, b.getD 1 0, b.getD 2 0, b.getD 3 0, b.getD 20 0, valueWord b 24⟩

/-- A value of `HMAC_KEYS`. -/
def readHmacKey : HmacKeyEntry := ⟨valueWord b 32, valueWord b 36⟩

/-- A value of `RETRY_TOKENS`. -/
def readRetry : RetryEntry := ⟨valueWord b 32, valueWord b 36⟩

/-- The hop's maps, with what `Apply` writes in place of its own. -/
def view (raw : RuleMaps) (base : HopMaps) : HopMaps := { base with
    hopValidators := fun key => (raw.get .hopValidators (keyBytes key)).map readValidator
    hmacKeys := fun key => (raw.get .hmacKeys (keyBytes key)).map readHmacKey
    retryTokens := fun key => (raw.get .retryTokens (keyBytes key)).map readRetry }

theorem valueWord_append {front back : List Byte} {i : Nat} (place : front.length = i) (n : Nat) :
    valueWord (front ++ leBytes 4 n ++ back) i = ofNat 32 n := by
  have window : ((front ++ leBytes 4 n ++ back).drop i).take 4 = leBytes 4 n := by
    rw [List.append_assoc, drop_left' place, take_left' (length_leBytes 4 n)]
  rw [valueWord, window, leValue_leBytes]
  apply eq_of_toNat_eq
  exact Nat.mod_mod n (2 ^ 32)

theorem readHmacKey_hmacValue {key : List Byte} (size : key.length = KeySize) (now expires : Nat) :
    readHmacKey (hmacValue key now expires) = ⟨ofNat 32 now, ofNat 32 expires⟩ := by
  have created : valueWord (hmacValue key now expires) 32 = ofNat 32 now :=
    valueWord_append size now
  have ends : valueWord (hmacValue key now expires ++ []) 36 = ofNat 32 expires := by
    refine valueWord_append ?_ expires
    rw [length_append, size]
    rfl
  rw [append_nil] at ends
  rw [readHmacKey, created, ends]

theorem readRetry_retryValue (now expires : Nat) :
    readRetry (retryValue now expires) = ⟨ofNat 32 now, ofNat 32 expires⟩ := by
  have issued : valueWord (retryValue now expires) 32 = ofNat 32 now := by
    have shape : retryValue now expires = List.replicate 32 0 ++ leBytes 4 now ++
        (leBytes 4 expires ++ List.replicate 8 0) := by
      rw [retryValue, List.append_assoc (List.replicate 32 0 ++ leBytes 4 now)]
    rw [shape]
    exact valueWord_append rfl now
  have ends : valueWord (retryValue now expires) 36 = ofNat 32 expires := by
    refine valueWord_append ?_ expires
    rfl
  rw [readRetry, issued, ends]

theorem readValidator_validatorValue (v : Validator) : readValidator (validatorValue v) =
      ⟨v.versionMin, v.versionMax, flag v.requireCRC, flag v.requireHMAC, v.maxHopCount,
        ofNat 32 (flag v.requireRetry).toNat⟩ := by
  have flags : valueWord (validatorValue v) 24 = ofNat 32 (flag v.requireRetry).toNat :=
    valueWord_append rfl _
  rw [readValidator, flags]
  rfl

/-! ## What `Apply` leaves in the maps -/

theorem RuleMaps.get_of_update {maps maps' : RuleMaps} {e : Entry}
    (updated : maps.update e = some maps') (name : MapName) (key : List Byte) :
    maps'.get name key =
      if name = e.mapName ∧ key = e.key then some e.value else maps.get name key := by
  obtain ⟨mapName, k, v⟩ := e
  -- The map that is written and the one that is read, for each pair of them.
  cases mapName <;> obtain ⟨m, done, rfl⟩ := map_eq_some_iff.mp updated <;> cases name <;>
    simp [RuleMaps.get, BoundedMap.get_of_update done key]

section Written

variable {refuses : Nat → Bool}

variable {i : Nat} {maps : RuleMaps} {done : Applied}

theorem writeAll_cons {e : Entry} {rest : List Entry}
    (written : (writeAll refuses i maps done (e :: rest)).error = none) :
    ∃ maps', maps.update e = some maps' ∧ writeAll refuses i maps done (e :: rest) =
      writeAll refuses (i + 1) maps' (done.count e.mapName) rest := by
  rw [writeAll] at written ⊢
  split at written
  next => cases written
  next accepted =>
  rw [if_neg accepted]
  split at written
  next => cases written
  next maps' updated => exact ⟨maps', updated, rfl⟩

variable {entries : List Entry} {name : MapName}

theorem writeAll_get_of_absent (written : (writeAll refuses i maps done entries).error = none)
    {key : List Byte} (absent : ∀ e ∈ entries, ¬ (name = e.mapName ∧ key = e.key)) :
    (writeAll refuses i maps done entries).maps.get name key = maps.get name key := by
  induction entries generalizing i maps done with
  | nil => rfl
  | cons e rest ih =>
    obtain ⟨maps', updated, goes⟩ := writeAll_cons written
    rw [goes] at written ⊢
    rw [ih written (fun e' mem => absent e' (mem_cons_of_mem e mem)),
      RuleMaps.get_of_update updated, if_neg (absent e mem_cons_self)]

theorem writeAll_get (written : (writeAll refuses i maps done entries).error = none)
    {key value : List Byte}
    (agree : ∀ e ∈ entries, name = e.mapName → key = e.key → e.value = value)
    (named : maps.get name key = some value ∨ ∃ e ∈ entries, name = e.mapName ∧ key = e.key) :
    (writeAll refuses i maps done entries).maps.get name key = some value := by
  induction entries generalizing i maps done with
  | nil =>
    rcases named with held | ⟨e, mem, -⟩
    · exact held
    · cases mem
  | cons e rest ih =>
    obtain ⟨maps', updated, goes⟩ := writeAll_cons written
    rw [goes] at written ⊢
    have later := fun e' mem => agree e' (mem_cons_of_mem e mem)
    refine ih written later ?_
    rw [RuleMaps.get_of_update updated]
    by_cases here : name = e.mapName ∧ key = e.key
    · rw [if_pos here, agree e mem_cons_self here.1 here.2]
      exact .inl rfl
    · rw [if_neg here]
      rcases named with held | ⟨e', mem, names⟩
      · exact .inl held
      · rcases mem_cons.mp mem with rfl | tail
        · exact absurd names here
        · exact .inr ⟨e', tail, names⟩

def Applied.total (done : Applied) : Nat := done.validators + done.hmacKeys + done.retry

theorem Applied.total_count (done : Applied) (name : MapName) :
    (done.count name).total = done.total + 1 := by
  unfold Applied.total
  cases name <;> simp only [Applied.count] <;> omega

theorem writeAll_total_le (refuses : Nat → Bool) (i : Nat) (maps : RuleMaps) (done : Applied)
    (entries : List Entry) : done.total ≤ (writeAll refuses i maps done entries).done.total := by
  induction entries generalizing i maps done with
  | nil => exact Nat.le_refl _
  | cons e rest ih =>
    rw [writeAll]
    split
    · exact Nat.le_refl _
    · split
      · exact Nat.le_refl _
      · next maps' _ =>
          have counted := Applied.total_count done e.mapName
          have later := ih (i + 1) maps' (done.count e.mapName)
          omega

theorem writeAll_of_none_written
    (nothing : (writeAll refuses i maps done entries).done.total = done.total) :
    (writeAll refuses i maps done entries).maps = maps := by
  cases entries with
  | nil => rfl
  | cons e rest =>
    rw [writeAll] at nothing ⊢
    split
    · rfl
    · next accepted =>
      rw [if_neg accepted] at nothing
      cases updated : maps.update e with
      | none => rfl
      | some maps' =>
        rw [updated] at nothing
        dsimp only at nothing
        have counted := Applied.total_count done e.mapName
        have more := writeAll_total_le refuses (i + 1) maps' (done.count e.mapName) rest
        omega

end Written

variable {refuses : Nat → Bool} {maps : RuleMaps} {f : File}

theorem apply_of_none_written {boottime : Option Int}
    (nothing : (apply refuses maps f boottime).done = ⟨0, 0, 0⟩) :
    (apply refuses maps f boottime).maps = maps := by
  unfold apply at nothing ⊢
  split
  next => rfl
  next accepted =>
  rw [accepted] at nothing
  dsimp only at nothing
  split
  next => rfl
  next d =>
  dsimp only at nothing
  split
  next => rfl
  next now booted =>
  rw [booted] at nothing
  dsimp only at nothing
  split
  next => rfl
  next entries encoded =>
  rw [encoded] at nothing
  exact writeAll_of_none_written (congrArg Applied.total nothing)

variable {d ttl : Int}

theorem apply_success (applied : (apply refuses maps f (some d)).error = none) :
    ∃ now entries, f.validate = none ∧ bootSeconds d = .ok now ∧ encode f now = .ok entries ∧
      apply refuses maps f (some d) = writeAll refuses 0 maps ⟨0, 0, 0⟩ entries := by
  unfold apply at applied ⊢
  split at applied
  next => cases applied
  next accepted =>
  dsimp only at applied
  split at applied
  next => cases applied
  next now booted =>
  split at applied
  next => cases applied
  next entries encoded =>
  refine ⟨now, entries, accepted, booted, encoded, ?_⟩
  dsimp only
  rw [booted]
  dsimp only
  rw [encoded]

/-! ## What an accepted file is like -/

variable {i j now : Nat}

theorem scanDistinct_none {α κ : Type} [DecidableEq κ] {check : Nat → α → Option Refusal}
    {key : α → κ} {same : Nat → Refusal} {seen : List κ} {items : List α}
    (accepted : scanDistinct check key same i seen items = none) :
    (∀ a ∈ items, (∃ j, check j a = none) ∧ key a ∉ seen) ∧
      ∀ a ∈ items, ∀ b ∈ items, key a = key b → a = b := by
  induction items generalizing i seen with
  | nil => exact ⟨fun a mem => absurd mem not_mem_nil, fun a mem => absurd mem not_mem_nil⟩
  | cons a rest ih =>
    rw [scanDistinct] at accepted
    split at accepted
    next => cases accepted
    next checked =>
    split at accepted
    next => cases accepted
    next fresh =>
    obtain ⟨each, alone⟩ := ih accepted
    constructor
    · intro b mem
      rcases mem_cons.mp mem with rfl | later
      · exact ⟨⟨i, checked⟩, fresh⟩
      · obtain ⟨passes, other⟩ := each b later
        exact ⟨passes, fun known => other (mem_cons_of_mem _ known)⟩
    · intro b memberB c memberC equal
      rcases mem_cons.mp memberB with rfl | laterB
      · rcases mem_cons.mp memberC with rfl | laterC
        · rfl
        · exact absurd (equal ▸ mem_cons_self) (each c laterC).2
      · rcases mem_cons.mp memberC with rfl | laterC
        · exact absurd (equal ▸ mem_cons_self) (each b laterB).2
        · exact alone b laterB c laterC equal

variable {entries : List Entry}

theorem mem_of_encodeEach {α : Type} {entry : Nat → α → Except Refusal Entry} {items : List α}
    (encoded : encodeEach entry i items = .ok entries) :
    (∀ e ∈ entries, ∃ a ∈ items, ∃ j, entry j a = .ok e) ∧
      ∀ a ∈ items, ∃ j, ∃ e ∈ entries, entry j a = .ok e := by
  induction items generalizing i entries with
  | nil =>
    cases encoded
    exact ⟨fun e mem => absurd mem not_mem_nil, fun a mem => absurd mem not_mem_nil⟩
  | cons a rest ih =>
    rw [encodeEach] at encoded
    split at encoded
    next => cases encoded
    next head first =>
    split at encoded
    next => cases encoded
    next others tail =>
    cases encoded
    obtain ⟨sound, complete⟩ := ih tail
    constructor
    · intro e mem
      rcases mem_cons.mp mem with rfl | later
      · exact ⟨a, mem_cons_self, i, first⟩
      · obtain ⟨b, inside, j, made⟩ := sound e later
        exact ⟨b, mem_cons_of_mem a inside, j, made⟩
    · intro b mem
      rcases mem_cons.mp mem with rfl | later
      · exact ⟨i, head, mem_cons_self, first⟩
      · obtain ⟨j, e, inside, made⟩ := complete b later
        exact ⟨j, e, mem_cons_of_mem head inside, made⟩

/-! ## The entries of a file -/

variable {e : Entry}

theorem keyEntry_ok {h : HMACKey} (made : keyEntry now j h = .ok e) :
    ∃ key expires, h.key = some key ∧ expiry now h.ttl = some expires ∧
      e = ⟨.hmacKeys, HMACKeyKey.bytes ⟨h.flow, h.ns.setWidth 16⟩, hmacValue key.1 now expires⟩ := by
  unfold keyEntry at made
  split at made
  next => cases made
  next key loaded =>
  split at made
  next => cases made
  next expires ends =>
  cases made
  exact ⟨key, expires, loaded, ends, rfl⟩

theorem retryEntry_ok {r : Retry} (made : retryEntry now j r = .ok e) :
    ∃ expires, expiry now r.ttl = some expires ∧
      e = ⟨.retryTokens, (retryKey r).bytes, retryValue now expires⟩ := by
  unfold retryEntry at made
  split at made
  next => cases made
  next expires ends =>
  cases made
  exact ⟨expires, ends, rfl⟩

/-- An entry is that of a key, of a source or of a validator of the file. -/
inductive EntryOf (f : File) (now : Nat) : Entry → Prop
  | key (h : HMACKey) (listed : h ∈ f.hmacKeys) (key : { k : List Byte // k.length = KeySize })
      (expires : Nat) (loaded : h.key = some key) (ends : expiry now h.ttl = some expires) :
      EntryOf f now
        ⟨.hmacKeys, HMACKeyKey.bytes ⟨h.flow, h.ns.setWidth 16⟩, hmacValue key.1 now expires⟩
  | retry (r : Retry) (listed : r ∈ f.retry) (expires : Nat)
      (ends : expiry now r.ttl = some expires) :
      EntryOf f now ⟨.retryTokens, (retryKey r).bytes, retryValue now expires⟩
  | validator (v : Validator) (listed : v ∈ f.validators) : EntryOf f now (validatorEntry v)

/-- What encoding a file gives: the entries are those of its items, and every item has one. -/
structure Encodes (f : File) (now : Nat) (entries : List Entry) : Prop where
  sound : ∀ e ∈ entries, EntryOf f now e
  key : ∀ h ∈ f.hmacKeys, ∃ key expires, h.key = some key ∧ expiry now h.ttl = some expires ∧
    ⟨.hmacKeys, HMACKeyKey.bytes ⟨h.flow, h.ns.setWidth 16⟩, hmacValue key.1 now expires⟩ ∈ entries
  retry : ∀ r ∈ f.retry, ∃ expires, expiry now r.ttl = some expires ∧
    ⟨.retryTokens, (retryKey r).bytes, retryValue now expires⟩ ∈ entries
  validator : ∀ v ∈ f.validators, validatorEntry v ∈ entries

theorem encodes_of_encode (encoded : encode f now = .ok entries) : Encodes f now entries := by
  unfold encode at encoded
  split at encoded
  next => cases encoded
  next keyEntries keys =>
  split at encoded
  next => cases encoded
  next retryEntries retries =>
  cases encoded
  obtain ⟨keySound, keyComplete⟩ := mem_of_encodeEach keys
  obtain ⟨retrySound, retryComplete⟩ := mem_of_encodeEach retries
  constructor
  · intro e mem
    rcases mem_append.mp mem with front | last
    · rcases mem_append.mp front with first | second
      · obtain ⟨h, listed, j, made⟩ := keySound e first
        obtain ⟨key, expires, loaded, ends, rfl⟩ := keyEntry_ok made
        exact .key h listed key expires loaded ends
      · obtain ⟨r, listed, j, made⟩ := retrySound e second
        obtain ⟨expires, ends, rfl⟩ := retryEntry_ok made
        exact .retry r listed expires ends
    · obtain ⟨v, listed, rfl⟩ := List.mem_map.mp last
      exact .validator v listed
  · intro h listed
    obtain ⟨j, e, mem, made⟩ := keyComplete h listed
    obtain ⟨key, expires, loaded, ends, rfl⟩ := keyEntry_ok made
    exact ⟨key, expires, loaded, ends, mem_append_left _ (mem_append_left _ mem)⟩
  · intro r listed
    obtain ⟨j, e, mem, made⟩ := retryComplete r listed
    obtain ⟨expires, ends, rfl⟩ := retryEntry_ok made
    exact ⟨expires, ends, mem_append_left _ (mem_append_right _ mem)⟩
  · intro v listed
    exact mem_append_right _ (List.mem_map.mpr ⟨v, listed, rfl⟩)

def WholeSeconds (ttl : Int) : Prop := 0 ≤ ttl ∧ ttl.tmod second = 0

theorem wholeSeconds_of_checkTTL (accepted : checkTTL ttl = none) : WholeSeconds ttl := by
  unfold checkTTL at accepted
  split at accepted
  next => cases accepted
  next pos =>
  split at accepted
  next => cases accepted
  next whole => exact ⟨Int.not_lt.mp pos, not_not.mp whole⟩

/-- What `validate` makes sure of. -/
structure Accepted (f : File) : Prop where
  validatorAlone : ∀ v ∈ f.validators, ∀ v' ∈ f.validators, (v.hop, v.ns) = (v'.hop, v'.ns) → v = v'
  keyAlone : ∀ h ∈ f.hmacKeys, ∀ h' ∈ f.hmacKeys, (h.flow, h.ns) = (h'.flow, h'.ns) → h = h'
  retryAlone : ∀ r ∈ f.retry, ∀ r' ∈ f.retry, retryKey r = retryKey r' → r = r'
  keyTTL : ∀ h ∈ f.hmacKeys, WholeSeconds h.ttl
  retryTTL : ∀ r ∈ f.retry, WholeSeconds r.ttl

theorem accepted_of_validate (validated : f.validate = none) : Accepted f := by
  obtain ⟨validators, rest⟩ := or_eq_none_iff.mp validated
  obtain ⟨keys, retries⟩ := or_eq_none_iff.mp rest
  obtain ⟨-, validatorAlone⟩ := scanDistinct_none validators
  obtain ⟨keyChecks, keyAlone⟩ := scanDistinct_none keys
  obtain ⟨retryChecks, retryAlone⟩ := scanDistinct_none retries
  refine ⟨validatorAlone, keyAlone, retryAlone, ?_, ?_⟩
  · intro h listed
    obtain ⟨⟨j, checked⟩, -⟩ := keyChecks h listed
    unfold checkKey at checked
    split at checked
    next => cases checked
    next => exact wholeSeconds_of_checkTTL (map_eq_none_iff.mp checked)
  · intro r listed
    obtain ⟨⟨j, checked⟩, -⟩ := retryChecks r listed
    unfold checkRetry at checked
    split at checked
    next => cases checked
    next =>
    split at checked
    next => cases checked
    next => exact wholeSeconds_of_checkTTL (map_eq_none_iff.mp checked)

theorem setWidth_inj {w : Nat} (wide : 8 ≤ w) {a b : Byte} (same : a.setWidth w = b.setWidth w) :
    a = b := by
  have values := congrArg BitVec.toNat same
  rw [toNat_setWidth_of_le wide, toNat_setWidth_of_le wide] at values
  exact eq_of_toNat_eq values

theorem entryOf_functional (accepted : Accepted f) {e' : Entry} (first : EntryOf f now e)
    (second : EntryOf f now e') (name : e.mapName = e'.mapName) (key : e.key = e'.key) :
    e.value = e'.value := by
  cases first with
  | key h listed k expires loaded ends =>
    cases second with
    | key h' listed' k' expires' loaded' ends' =>
      have fields := HMACKeyKey.bytes_inj key
      have flow : h.flow = h'.flow := congrArg HMACKeyKey.flowId fields
      have ns : h.ns = h'.ns := setWidth_inj (by decide) (congrArg HMACKeyKey.ns fields)
      cases accepted.keyAlone h listed h' listed' (by rw [flow, ns])
      cases loaded.symm.trans loaded'
      cases ends.symm.trans ends'
      rfl
    | retry | validator => cases name
  | retry r listed expires ends =>
    cases second with
    | key | validator => cases name
    | retry r' listed' expires' ends' =>
      cases accepted.retryAlone r listed r' listed' (bytes_inj key)
      cases ends.symm.trans ends'
      rfl
  | validator v listed =>
    cases second with
    | key | retry => cases name
    | validator v' listed' =>
      have fields := bytes_inj key
      have hop : v.hop = v'.hop := congrArg hopId fields
      have ns : v.ns = v'.ns := setWidth_inj (by decide) (congrArg ns fields)
      cases accepted.validatorAlone v listed v' listed' (by rw [hop, ns])
      rfl

theorem Encodes.complete (encodes : Encodes f now entries) (entry : EntryOf f now e) :
    e ∈ entries := by
  cases entry with
  | key h listed key expires loaded ends =>
    obtain ⟨key', expires', loaded', ends', mem⟩ := encodes.key h listed
    cases loaded.symm.trans loaded'
    cases ends.symm.trans ends'
    exact mem
  | retry r listed expires ends =>
    obtain ⟨expires', ends', mem⟩ := encodes.retry r listed
    cases ends.symm.trans ends'
    exact mem
  | validator v listed => exact encodes.validator v listed

/-- The maps hold the entries of a file and nothing else. -/
structure Holds (raw : RuleMaps) (f : File) (now : Nat) : Prop where
  accepted : Accepted f
  keyEnds : ∀ h ∈ f.hmacKeys, ∃ key expires, h.key = some key ∧ expiry now h.ttl = some expires
  retryEnds : ∀ r ∈ f.retry, ∃ expires, expiry now r.ttl = some expires
  get_iff : ∀ name key value, raw.get name key = some value ↔
    ∃ e, EntryOf f now e ∧ name = e.mapName ∧ key = e.key ∧ e.value = value

theorem holds_of_apply (applied : (apply refuses RuleMaps.empty f (some d)).error = none) :
    ∃ now, bootSeconds d = .ok now ∧ Holds (apply refuses RuleMaps.empty f (some d)).maps f now := by
  obtain ⟨now, entries, validated, booted, encoded, goes⟩ := apply_success applied
  have accepted := accepted_of_validate validated
  have encodes := encodes_of_encode encoded
  rw [goes] at applied ⊢
  refine ⟨now, booted, accepted, ?_, ?_, ?_⟩
  · intro h listed
    obtain ⟨key, expires, loaded, ends, -⟩ := encodes.key h listed
    exact ⟨key, expires, loaded, ends⟩
  · intro r listed
    obtain ⟨expires, ends, -⟩ := encodes.retry r listed
    exact ⟨expires, ends⟩
  intro name key value
  have stored : ∀ e ∈ entries, name = e.mapName → key = e.key →
      (writeAll refuses 0 RuleMaps.empty ⟨0, 0, 0⟩ entries).maps.get name key = some e.value := by
    intro e mem sameName sameKey
    refine writeAll_get applied ?_ (.inr ⟨e, mem, sameName, sameKey⟩)
    intro e' member' sameName' sameKey'
    exact entryOf_functional accepted (encodes.sound e' member') (encodes.sound e mem)
      (sameName'.symm.trans sameName) (sameKey'.symm.trans sameKey)
  constructor
  · intro held
    by_cases named : ∃ e ∈ entries, name = e.mapName ∧ key = e.key
    · obtain ⟨e, mem, sameName, sameKey⟩ := named
      cases (stored e mem sameName sameKey).symm.trans held
      exact ⟨e, encodes.sound e mem, sameName, sameKey, rfl⟩
    · have absent : ∀ e ∈ entries, ¬ (name = e.mapName ∧ key = e.key) := by
        intro e mem names
        exact named ⟨e, mem, names⟩
      rw [writeAll_get_of_absent applied absent] at held
      cases name <;> cases held
  · rintro ⟨e, entry, sameName, sameKey, rfl⟩
    exact stored e (encodes.complete entry) sameName sameKey

/-! ## Lifetimes -/

/-- A lifetime that is absent, or not over in whole seconds from the second of `d` on. -/
def SecondsLeft (d : Int) (bootNs : BitVec 64) (ttl : Int) : Prop :=
  ttl = 0 ∨ ((bootNs.toNat / 1000000000 : Nat) : Int) < d.tdiv second + ttl.tdiv second

/-- A lifetime that is absent, or not over in nanoseconds from `d` on. -/
def TimeLeft (d : Int) (bootNs : BitVec 64) (ttl : Int) : Prop :=
  ttl = 0 ∨ (bootNs.toNat : Int) < d + ttl

theorem bootSeconds_ok (booted : bootSeconds d = .ok now) : (now : Int) = d.tdiv second := by
  unfold bootSeconds at booted
  dsimp only at booted
  split at booted
  next => cases booted
  next inside =>
  cases booted
  exact Int.toNat_of_nonneg (by omega)

theorem isLive_iff {expires : Nat} (bootNs : BitVec 64) (booted : bootSeconds d = .ok now)
    (whole : WholeSeconds ttl) (ends : expiry now ttl = some expires) :
    isLive bootNs (ofNat 32 expires) = true ↔ SecondsLeft d bootNs ttl := by
  have start := bootSeconds_ok booted
  unfold SecondsLeft
  unfold expiry at ends
  split at ends
  next never =>
    cases ends
    exact iff_of_true rfl (.inl never)
  next limited =>
    dsimp only at ends
    split at ends
    next => cases ends
    next fits =>
    cases ends
    obtain ⟨pos, exact_⟩ := whole
    have parts := Int.mul_tdiv_add_tmod ttl second
    have unit : second = 1000000000 := rfl
    have atLeast : 1 ≤ ttl.tdiv second := by
      rw [exact_, unit] at parts
      rw [unit]
      omega
    have size : ((now : Int) + ttl.tdiv second).toNat < 2 ^ 32 := by omega
    have value : (ofNat 32 ((now : Int) + ttl.tdiv second).toNat).toNat =
        ((now : Int) + ttl.tdiv second).toNat := by
      rw [toNat_ofNat, Nat.mod_eq_of_lt size]
    have nonzero : (ofNat 32 ((now : Int) + ttl.tdiv second).toNat == 0) = false := by
      apply beq_eq_false_iff_ne.mpr
      intro zero
      rw [zero] at value
      have none : (0 : Word).toNat = 0 := rfl
      omega
    rw [isLive, nonzero, Bool.false_or, decide_eq_true_iff]
    omega

/-! ## Verdicts -/

/-- What a validator of a rules file says of a packet. -/
structure Verdict (left : Int → Prop) (f : File) (v : Validator) (m : Monad) (src : List Byte) :
    Prop where
  version : (v.versionMin = 0 ∧ v.versionMax = 0) ∨
    (v.versionMin ≤ m.version ∧ m.version ≤ v.versionMax)
  hopCount : v.maxHopCount = 0 ∨ m.hopCount ≤ v.maxHopCount
  crc : v.requireCRC = true → m.hasFlag Flags.CUSTOM = false
  hmac : v.requireHMAC = true →
    ∃ h ∈ f.hmacKeys, h.flow = flowId m ∧ h.ns = m.deployRing ∧ left h.ttl
  retry : v.requireRetry = true →
    ∃ r ∈ f.retry, r.flow = flowId m ∧ low48Bytes r.source.as16 = low48Bytes src ∧ left r.ttl

section Verdicts

variable {raw : RuleMaps} {f : File} {d : Int} {now : Nat}

section

variable (holds : Holds raw f now) (booted : bootSeconds d = .ok now) (base : HopMaps)
  (bootNs : BitVec 64) (flow : BitVec 16)
include holds booted base bootNs flow

theorem live_hmac_iff (ns : Byte) :
    (∃ entry, (view raw base).hmacKeys (makeHmacKey flow ns) = some entry ∧
        isLive bootNs entry.expiresAt = true) ↔
      ∃ h ∈ f.hmacKeys, h.flow = flow ∧ h.ns = ns ∧ SecondsLeft d bootNs h.ttl := by
  have lookup : (view raw base).hmacKeys (makeHmacKey flow ns) =
      (raw.get .hmacKeys (HMACKeyKey.bytes ⟨flow, ns.setWidth 16⟩)).map readHmacKey := by
    rw [← keyBytes_makeHmacKey]
    rfl
  rw [lookup]
  constructor
  · rintro ⟨entry, found, live⟩
    obtain ⟨value, held, rfl⟩ := map_eq_some_iff.mp found
    obtain ⟨e, entry, name, key, rfl⟩ := (holds.get_iff _ _ _).mp held
    cases entry with
    | key h listed k expires loaded ends =>
      have fields := HMACKeyKey.bytes_inj key
      refine ⟨h, listed, (congrArg HMACKeyKey.flowId fields).symm,
        (setWidth_inj (by decide) (congrArg HMACKeyKey.ns fields)).symm, ?_⟩
      rw [readHmacKey_hmacValue k.2] at live
      exact (isLive_iff bootNs booted (holds.accepted.keyTTL h listed) ends).mp live
    | retry | validator => cases name
  · rintro ⟨h, listed, rfl, rfl, left⟩
    obtain ⟨k, expires, loaded, ends⟩ := holds.keyEnds h listed
    have held := (holds.get_iff _ _ _).mpr ⟨_, .key h listed k expires loaded ends, rfl, rfl, rfl⟩
    rw [held, map_some, readHmacKey_hmacValue k.2]
    exact ⟨_, rfl, (isLive_iff bootNs booted (holds.accepted.keyTTL h listed) ends).mpr left⟩

theorem live_retry_iff (src : List Byte) :
    (∃ entry, (view raw base).retryTokens (makeRetryKey flow src) = some entry ∧
        isLive bootNs entry.expiresAt = true) ↔
      ∃ r ∈ f.retry, r.flow = flow ∧ low48Bytes r.source.as16 = low48Bytes src ∧
        SecondsLeft d bootNs r.ttl := by
  have lookup : (view raw base).retryTokens (makeRetryKey flow src) =
      (raw.get .retryTokens (bytes ⟨flow, low48Bytes src⟩)).map readRetry := by
    rw [← keyBytes_makeRetryKey]
    rfl
  rw [lookup]
  constructor
  · rintro ⟨entry, found, live⟩
    obtain ⟨value, held, rfl⟩ := map_eq_some_iff.mp found
    obtain ⟨e, entry, name, key, rfl⟩ := (holds.get_iff _ _ _).mp held
    cases entry with
    | key | validator => cases name
    | retry r listed expires ends =>
      have fields := RetryTokenKey.bytes_inj key
      refine ⟨r, listed, (congrArg RetryTokenKey.flowId fields).symm,
        (congrArg RetryTokenKey.srcLow48 fields).symm, ?_⟩
      rw [readRetry_retryValue] at live
      exact (isLive_iff bootNs booted (holds.accepted.retryTTL r listed) ends).mp live
  · rintro ⟨r, listed, rfl, low, left⟩
    obtain ⟨expires, ends⟩ := holds.retryEnds r listed
    have held := (holds.get_iff _ _ _).mpr ⟨_, .retry r listed expires ends, rfl, rfl, rfl⟩
    rw [retryKey, low] at held
    rw [held, map_some, readRetry_retryValue]
    exact ⟨_, rfl, (isLive_iff bootNs booted (holds.accepted.retryTTL r listed) ends).mpr left⟩

end

theorem flag_ne_zero (b : Bool) : flag b ≠ 0 ↔ b = true := by
  cases b <;> decide

theorem retry_flag (b : Bool) :
    ofNat 32 (flag b).toNat &&& VALIDATOR_FLAG_RETRY ≠ 0 ↔ b = true := by
  cases b <;> decide

theorem rulesHold_iff_verdict (holds : Holds raw f now) (booted : bootSeconds d = .ok now)
    (base : HopMaps) (bootNs : BitVec 64) (v : Validator) (m : Monad) (src : List Byte) :
    RulesHold (view raw base) bootNs (readValidator (validatorValue v)) m src ↔
      Verdict (SecondsLeft d bootNs) f v m src := by
  rw [readValidator_validatorValue]
  constructor
  · intro rules
    exact {
      version := rules.version
      hopCount := rules.hopCount
      crc := fun required => rules.crc ((flag_ne_zero _).mpr required)
      hmac := fun required => (live_hmac_iff holds booted base bootNs _ _).mp
        (rules.hmac ((flag_ne_zero _).mpr required))
      retry := fun required => (live_retry_iff holds booted base bootNs _ _).mp
        (rules.retry ((retry_flag _).mpr required)) }
  · intro verdict
    exact {
      version := verdict.version
      hopCount := verdict.hopCount
      crc := fun required => verdict.crc ((flag_ne_zero _).mp required)
      hmac := fun required => (live_hmac_iff holds booted base bootNs _ _).mpr
        (verdict.hmac ((flag_ne_zero _).mp required))
      retry := fun required => (live_retry_iff holds booted base bootNs _ _).mpr
        (verdict.retry ((retry_flag _).mp required)) }

theorem view_validator (raw : RuleMaps) (base : HopMaps) (hopId : Word) (ns : Byte) :
    (view raw base).hopValidators (makeValidatorKey hopId ns) =
      (raw.get .hopValidators (bytes ⟨hopId, ns.setWidth 32⟩)).map readValidator := by
  rw [← keyBytes_makeValidatorKey]
  rfl

theorem view_validator_listed (holds : Holds raw f now) (base : HopMaps) {v : Validator}
    (listed : v ∈ f.validators) : (view raw base).hopValidators (makeValidatorKey v.hop v.ns) =
      some (readValidator (validatorValue v)) := by
  have held := (holds.get_iff _ _ _).mpr ⟨_, .validator v listed, rfl, rfl, rfl⟩
  rw [view_validator]
  exact congrArg (Option.map readValidator) held

theorem view_validator_unlisted (holds : Holds raw f now) (base : HopMaps) {hopId : Word} {ns : Byte}
    (unlisted : ∀ v ∈ f.validators, ¬ (v.hop = hopId ∧ v.ns = ns)) :
    (view raw base).hopValidators (makeValidatorKey hopId ns) = none := by
  rw [view_validator]
  cases held : raw.get .hopValidators (bytes ⟨hopId, ns.setWidth 32⟩) with
  | none => rfl
  | some value =>
    obtain ⟨e, entry, name, key, rfl⟩ := (holds.get_iff _ _ _).mp held
    cases entry with
    | key | retry => cases name
    | validator v listed =>
      have fields := bytes_inj key
      exact absurd ⟨(congrArg HopValidatorKey.hopId fields).symm,
        (setWidth_inj (by decide) (congrArg HopValidatorKey.ns fields)).symm⟩ (unlisted v listed)

end Verdicts

/-- A validator of the rules file is looked up for its hop and namespace and gives the file's
verdict, lifetimes counted in the maps' whole seconds; a hop and namespace the file does not list
has none.  An `Apply` that fails before its first write leaves the maps as they were. -/
theorem hop_rules_agree (refuses : Nat → Bool) (f : File) :
    (∀ d : Int, (apply refuses RuleMaps.empty f (some d)).error = none →
      ∀ (base : HopMaps) (bootNs : BitVec 64) (hopId : Word) (m : Monad) (src : List Byte),
        (∀ v ∈ f.validators, v.hop = hopId → v.ns = m.deployRing →
          ∃ rule, (view (apply refuses RuleMaps.empty f (some d)).maps base).hopValidators
              (makeValidatorKey hopId m.deployRing) = some rule ∧
            (checksPass (view (apply refuses RuleMaps.empty f (some d)).maps base) bootNs rule m src =
              true ↔ Verdict (SecondsLeft d bootNs) f v m src)) ∧
        ((∀ v ∈ f.validators, ¬ (v.hop = hopId ∧ v.ns = m.deployRing)) →
          (view (apply refuses RuleMaps.empty f (some d)).maps base).hopValidators
            (makeValidatorKey hopId m.deployRing) = none)) ∧
    ∀ (maps : RuleMaps) (boottime : Option Int), (apply refuses maps f boottime).error ≠ none →
      (apply refuses maps f boottime).done = ⟨0, 0, 0⟩ →
        (apply refuses maps f boottime).maps = maps := by
  refine ⟨?_, fun maps boottime _ nothing => apply_of_none_written nothing⟩
  intro d applied base bootNs hopId m src
  obtain ⟨now, booted, holds⟩ := holds_of_apply applied
  refine ⟨?_, view_validator_unlisted holds base⟩
  intro v listed hop ns
  refine ⟨readValidator (validatorValue v), ?_, ?_⟩
  · rw [← hop, ← ns]
    exact view_validator_listed holds base listed
  · exact checksPass_iff.trans (rulesHold_iff_verdict holds booted base bootNs v m src)

def keyRequired : Validator := ⟨0, 1, 0, 0, false, true, false, 0⟩

def oneSecondKey : File where
  validators := [keyRequired]
  hmacKeys := [⟨0, 1, "/key", 1000000000, some ⟨List.replicate 32 0, rfl⟩⟩]
  retry := []

theorem hop_rules_agree_one_second :
    ∃ rule, (view (apply (fun _ => false) RuleMaps.empty oneSecondKey (some 900000000)).maps
        (enforcingMaps versionTwoOnly)).hopValidators (makeValidatorKey 0 Monad.new.deployRing) =
          some rule ∧
      (checksPass (view (apply (fun _ => false) RuleMaps.empty oneSecondKey (some 900000000)).maps
          (enforcingMaps versionTwoOnly)) 999999999 rule Monad.new [] = true ↔
        Verdict (SecondsLeft 900000000 999999999) oneSecondKey keyRequired Monad.new []) :=
  ((hop_rules_agree (fun _ => false) oneSecondKey).1 900000000 (by decide +kernel)
    (enforcingMaps versionTwoOnly) 999999999 0 Monad.new []).1 keyRequired mem_cons_self rfl rfl

/-- Applied at 0.9 s, the key is refused at 1 s, a tenth of a second into its lifetime. -/
theorem lifetime_ends_early :
    (apply (fun _ => false) RuleMaps.empty oneSecondKey (some 900000000)).error = none ∧
      (∃ rule, (view (apply (fun _ => false) RuleMaps.empty oneSecondKey (some 900000000)).maps
          (enforcingMaps versionTwoOnly)).hopValidators (makeValidatorKey 0 Monad.new.deployRing) =
            some rule ∧
        checksPass (view (apply (fun _ => false) RuleMaps.empty oneSecondKey (some 900000000)).maps
          (enforcingMaps versionTwoOnly)) 1000000000 rule Monad.new [] = false) ∧
      Verdict (TimeLeft 900000000 1000000000) oneSecondKey keyRequired Monad.new [] := by
  refine ⟨by decide +kernel, ⟨readValidator (validatorValue keyRequired), by decide +kernel,
    by decide +kernel⟩, ?_⟩
  exact {
    version := .inl ⟨rfl, rfl⟩
    hopCount := .inl rfl
    crc := fun required => Bool.noConfusion required
    hmac := fun _ => ⟨_, mem_cons_self, rfl, rfl, .inr (by decide)⟩
    retry := fun required => Bool.noConfusion required }

end HopRules

end Unheaded.Net
