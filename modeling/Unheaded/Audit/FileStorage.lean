import Unheaded.Audit.Event
import Unheaded.Lib.Directory
import Unheaded.Lib.Events

/-!
# Audit files

Events are chained by their hashes and written to a file of the day, one line each.
-/

namespace Unheaded.Audit

open Lib List Option

variable {τ : Type}

/-- `encoding/json` on audit events: what is written stands on one line and, where it can be read, is
read again with the two hashes as they were if they are texts. -/
structure Json (τ : Type) where
  marshalDetails : Details τ → Option Bytes
  marshal : AuditEvent τ → Option Bytes
  unmarshal : Bytes → Option (AuditEvent τ)
  oneLine : ∀ {e data}, marshal e = some data → OneLine data ∧ data ≠ []
  reads : ∀ {e data previous}, marshal e = some data → readable data = true →
    e.previousHash = utf8 previous →
      ∃ read, unmarshal data = some read ∧ read.hash = e.hash ∧ read.previousHash = e.previousHash

def Json.asRead (json : Json τ) (e : AuditEvent τ) : Option (AuditEvent τ) :=
  (json.marshal e).bind json.unmarshal

abbrev Directory := List (Bytes × Bytes)

/-- Whether `filepath.Glob` reads a name as a pattern. -/
def hasMeta (path : Bytes) : Bool := path.any (List.contains [0x2A, 0x3F, 0x5B, 0x5C])

/-- The name of the base directory, and the log files that it finds as a pattern: those of the
directories that it matches. -/
structure BaseDir where
  path : Bytes
  found : Directory → Directory

def listLogFiles (base : BaseDir) (dir : Directory) : Directory :=
  sortBy Prod.fst (if hasMeta base.path then base.found dir else dir)

theorem listLogFiles_plain {base : BaseDir} (plain : hasMeta base.path = false) (dir : Directory) :
    listLogFiles base dir = sortBy Prod.fst dir := by
  rw [listLogFiles, plain, if_neg Bool.false_ne_true]

/-- `audit-<date>.log`. -/
def logName (date : Date) : Bytes := utf8 ("audit-".toList ++ dateText date ++ ".log".toList)

/-- `audit-<date>-<second>.log`. -/
def rotatedName (date : Date) (unix : Int) : Bytes :=
  utf8 ("audit-".toList ++ dateText date ++ '-' :: (showInt unix ++ ".log".toList))

structure FileStorageConfig where
  baseDir : BaseDir
  maxFileSize : Int
  rotateDaily : Bool

def FileStorageConfig.limit (config : FileStorageConfig) : Nat :=
  if config.maxFileSize ≤ 0 then 100 * 1024 * 1024 else config.maxFileSize.toNat

structure FileStorage where
  lastHash : Bytes
  currentDate : Date
  currentSize : Nat

/-- What a call reads from the clock: the date it compares, the second of a rename and the date of
the file it opens. -/
structure Clock where
  today : Date
  unix : Int
  opened : Date

/-- The directory, the storage and the events stored so far. -/
structure Auditing (τ : Type) where
  dir : Directory
  fs : FileStorage
  stored : List (AuditEvent τ)

/-- The longest line of the scanner in `loadLastHash`. -/
def maxScanTokenSize : Nat := 64 * 1024

/-- The longest line of the scanner in `FileReader`. -/
def maxLineSize : Nat := 10 * 1024 * 1024

section Storage

variable (json : Json τ) (sha256 : Bytes → Bytes) (config : FileStorageConfig)

/-- `loadLastHash`; an error leaves the hash empty. -/
def loadLastHash (dir : Directory) : Bytes :=
  match (listLogFiles config.baseDir dir).getLast? with
  | none => []
  | some file =>
    let lastLine := (scanLines maxScanTokenSize file.2).getLast?.getD []
    if lastLine = [] then []
    else
      match json.unmarshal lastLine with
      | none => []
      | some e => utf8 e.hash

/-- The directory when `openCurrentFile` has created the file. -/
def createFile (dir : Directory) (name : Bytes) : Directory :=
  match readFile dir name with
  | none => writeFile dir name []
  | some _ => dir

def openCurrentFile (dir : Directory) (lastHash : Bytes) (date : Date) : Directory × FileStorage :=
  (createFile dir (logName date), ⟨lastHash, date, ((readFile dir (logName date)).getD []).length⟩)

def newFileStorage (dir : Directory) (date : Date) : Directory × FileStorage :=
  openCurrentFile dir (loadLastHash json config dir) date

/-- The directory when a full file has been renamed. -/
def renameFull (dir : Directory) (fs : FileStorage) (unix : Int) : Directory :=
  if config.limit ≤ fs.currentSize then
    renameFile dir (logName fs.currentDate) (rotatedName fs.currentDate unix)
  else dir

def rotate (dir : Directory) (fs : FileStorage) (clock : Clock) : Directory × FileStorage :=
  openCurrentFile (renameFull config dir fs clock.unix) fs.lastHash clock.opened

/-- Whether `checkRotation` rotates. -/
def needRotation (fs : FileStorage) (clock : Clock) : Bool :=
  config.limit ≤ fs.currentSize || config.rotateDaily && clock.today ≠ fs.currentDate

def checkRotation (dir : Directory) (fs : FileStorage) (clock : Clock) : Directory × FileStorage :=
  if needRotation config fs clock then rotate config dir fs clock else (dir, fs)

/-- `FileStorage.Store`, and whether the event was written. -/
def fileStore (dir : Directory) (fs : FileStorage) (clock : Clock) (e : AuditEvent τ) :
    Directory × FileStorage × Bool :=
  let (dir, fs) := checkRotation config dir fs clock
  match json.marshal e with
  | none => (dir, fs, false)
  | some data =>
    let name := logName fs.currentDate
    (writeFile dir name ((readFile dir name).getD [] ++ (data ++ [newline])),
      { fs with lastHash := utf8 e.hash, currentSize := fs.currentSize + (data.length + 1) }, true)

/-- The event that `WellAuditor.store` stores: with an id and a timestamp, behind the last one. -/
def chained (fs : FileStorage) (e : AuditEvent τ) (id : Bytes) (timestamp : Instant) : AuditEvent τ :=
  let e := { e with
    id := if e.id = [] then id else e.id
    timestamp
    previousHash := fs.lastHash }
  { e with hash := e.computeHash json.marshalDetails sha256 }

/-- An event is stored, with the id and the timestamp that it may get; a rotation is forced; or the
program starts again. -/
inductive Event (τ : Type) where
  | store (e : AuditEvent τ) (id : Bytes) (timestamp : Instant) (clock : Clock)
  | rotate (clock : Clock)
  | restart (clock : Clock)

def after (s : Auditing τ) : Event τ → Auditing τ
  | .store e id timestamp clock =>
    let e := chained json sha256 s.fs e id timestamp
    let (dir, fs, written) := fileStore json config s.dir s.fs clock e
    ⟨dir, fs, if written then s.stored ++ [e] else s.stored⟩
  | .rotate clock =>
    let (dir, fs) := rotate config s.dir s.fs clock
    ⟨dir, fs, s.stored⟩
  | .restart clock =>
    let (dir, fs) := newFileStorage json config s.dir clock.opened
    ⟨dir, fs, s.stored⟩

def start (date : Date) : Auditing τ :=
  let (dir, fs) := newFileStorage json config [] date
  ⟨dir, fs, []⟩

/-! ## The reader -/

/-- The contents of the files not yet opened, and the lines left of the open one. -/
structure FileReader where
  files : List Bytes
  lines : List Bytes

def newFileReader (base : BaseDir) (dir : Directory) : FileReader :=
  ⟨(listLogFiles base dir).map Prod.snd, []⟩

def nextLine : List Bytes → Option (AuditEvent τ × List Bytes)
  | [] => none
  | line :: lines =>
    match json.unmarshal line with
    | none => nextLine lines
    | some e => some (e, lines)

/-- `FileReader.Next`; nothing at the end of the last file. -/
def nextEvent (lines : List Bytes) : List Bytes → Option (AuditEvent τ × FileReader)
  | [] => (nextLine json lines).map fun (e, rest) => (e, ⟨[], rest⟩)
  | file :: files =>
    match nextLine json lines with
    | some (e, rest) => some (e, ⟨file :: files, rest⟩)
    | none => nextEvent (scanLines maxLineSize file) files

/-- A reader returns these events, and then the end. -/
inductive Returns : FileReader → List (AuditEvent τ) → Prop where
  | eof {r : FileReader} (ended : nextEvent json r.lines r.files = none) : Returns r []
  | more {r r' : FileReader} {e : AuditEvent τ} {events : List (AuditEvent τ)}
      (next : nextEvent json r.lines r.files = some (e, r')) (later : Returns r' events) :
      Returns r (e :: events)

/-! ## Runs that keep the order -/

/-- Every event follows the one before it, and the first one none. -/
structure Chained (events : List (AuditEvent τ)) : Prop where
  first : ∀ e ∈ events.head?, e.previousHash = []
  next : events.IsChain fun a b => b.previousHash = utf8 a.hash

/-- A rotation at this time gives a full file a name that sorts behind those of all other files, and
then opens a file that no file sorts behind. -/
structure RotatesInOrder (s : Auditing τ) (clock : Clock) : Prop where
  renamed : config.limit ≤ s.fs.currentSize → ∀ f ∈ s.dir, f.1 ≠ logName s.fs.currentDate →
    f.1 < rotatedName s.fs.currentDate clock.unix
  opened : ∀ f ∈ renameFull config s.dir s.fs clock.unix, f.1 ≤ logName clock.opened

/-- A restart at this time opens a file that no file sorts behind, and finds the last line of the last
file: it is not empty where another file is not, and has no line from 64 KiB on. -/
structure RestartsInOrder (s : Auditing τ) (clock : Clock) : Prop where
  opened : ∀ f ∈ s.dir, f.1 ≤ logName clock.opened
  last : ∀ file, (listLogFiles config.baseDir s.dir).getLast? = some file →
    (file.2 = [] → ∀ f ∈ s.dir, f.2 = []) ∧
      ∀ line ∈ scanLines maxLineSize file.2, line.length < maxScanTokenSize

/-- The lines are below 10 MB and can be read, and the order of the files is kept. -/
def InOrder (s : Auditing τ) : Event τ → Prop
  | .store e id timestamp clock =>
    (∀ data, json.marshal (chained json sha256 s.fs e id timestamp) = some data →
      data.length < maxLineSize ∧ readable data = true) ∧
    (needRotation config s.fs clock = true → RotatesInOrder config s clock)
  | .rotate clock => RotatesInOrder config s clock
  | .restart clock => RestartsInOrder config s clock

end Storage

/-! ## What is in the files -/

section Files

variable (json : Json τ)

def lineOf (e : AuditEvent τ) : Bytes := (json.marshal e).getD []

def fileOf (part : Bytes × List (AuditEvent τ)) : Bytes × Bytes :=
  (part.1, ofLines (part.2.map (lineOf json)))

def hashOf (events : List (AuditEvent τ)) : Bytes := (events.getLast?.map fun e => utf8 e.hash).getD []

/-- An event that was written on a line below 10 MB that can be read. -/
structure Written (e : AuditEvent τ) : Prop where
  line : json.marshal e = some (lineOf json e)
  size : (lineOf json e).length < maxLineSize
  readable : readable (lineOf json e) = true
  previous : ∃ t, e.previousHash = utf8 t

/-- The files hold the events in the order of their names, and the last of them is the current one. -/
def Placed (dir : Directory) (name : Bytes) (size : Nat) (stored : List (AuditEvent τ)) : Prop :=
  ∃ (older : List (Bytes × List (AuditEvent τ))) (latest : List (AuditEvent τ)),
    Listed dir ((older ++ [(name, latest)]).map (fileOf json)) ∧
      (older ++ [(name, latest)]).flatMap Prod.snd = stored ∧
      size = (fileOf json (name, latest)).2.length

structure Kept (s : Auditing τ) : Prop where
  placed : Placed json s.dir (logName s.fs.currentDate) s.fs.currentSize s.stored
  lastHash : s.fs.lastHash = hashOf s.stored
  chained : Chained s.stored
  written : ∀ e ∈ s.stored, Written json e

variable {json}

variable {e : AuditEvent τ}

theorem Written.oneLine (written : Written json e) :
    OneLine (lineOf json e) ∧ lineOf json e ≠ [] := json.oneLine written.line

theorem Written.reads (written : Written json e) :
    ∃ read, json.unmarshal (lineOf json e) = some read ∧ json.asRead e = some read ∧
      read.hash = e.hash ∧ read.previousHash = e.previousHash := by
  obtain ⟨t, previous⟩ := written.previous
  obtain ⟨read, unmarshalled, hash, kept⟩ := json.reads written.line written.readable previous
  refine ⟨read, unmarshalled, ?_, hash, kept⟩
  rw [Json.asRead, written.line]
  exact unmarshalled

variable {events : List (AuditEvent τ)}

theorem scanLines_written {limit : Nat} (written : ∀ e ∈ events, Written json e)
    (short : ∀ e ∈ events, (lineOf json e).length < limit) :
    scanLines limit (ofLines (events.map (lineOf json))) = events.map (lineOf json) := by
  refine scanLines_ofLines (fun line mem => ?_) fun line mem => ?_
  · obtain ⟨e, inside, rfl⟩ := mem_map.mp mem
    exact (written e inside).oneLine.1
  · obtain ⟨e, inside, rfl⟩ := mem_map.mp mem
    exact short e inside

theorem placed_open {dir : Directory} {files : List (Bytes × List (AuditEvent τ))} {name : Bytes}
    (listed : Listed dir (files.map (fileOf json))) (last : ∀ f ∈ dir, f.1 ≤ name) :
    Placed json (createFile dir name) name ((readFile dir name).getD []).length
      (files.flatMap Prod.snd) := by
  have before : ∀ f ∈ files.map (fileOf json), f.1 ≤ name := fun f mem =>
    last f (listed.perm.mem_iff.mpr mem)
  unfold createFile
  cases found : readFile dir name with
  | none =>
    refine ⟨files, [], ?_, ?_, rfl⟩
    · rw [map_append]
      refine listed.write_last fun f mem => ?_
      have inside := listed.perm.mem_iff.mpr mem
      exact Std.lt_of_le_of_ne (before f mem) (ne_of_readFile_none found inside)
    · rw [flatMap_append, flatMap_singleton, append_nil]
  | some content =>
    have inside := listed.perm.mem_iff.mp (mem_of_readFile found)
    -- the file is the last one, since none sorts behind it
    rcases eq_nil_or_concat' files with rfl | ⟨older, part, rfl⟩
    · cases inside
    have named : part.1 = name := by
      rw [map_append] at inside listed before
      rcases mem_append.mp inside with early | here
      · have below := (pairwise_append.mp listed.sorted).2.2 _ early _ mem_cons_self
        have above := before _ (mem_append_right _ mem_cons_self)
        exact absurd (Std.lt_of_lt_of_le below above) Std.lt_irrefl
      · exact (congrArg Prod.fst (mem_singleton.mp here)).symm
    obtain ⟨partName, latest⟩ := part
    cases named
    refine ⟨older, latest, listed, rfl, ?_⟩
    have value := listed.readFile_eq (mem_map.mpr ⟨(partName, latest), by simp, rfl⟩)
    rw [found] at value
    exact congrArg length (some.inj value)

variable {config : FileStorageConfig} {s : Auditing τ} {clock : Clock}

theorem Placed.rotate
    (placed : Placed json s.dir (logName s.fs.currentDate) s.fs.currentSize s.stored)
    (inOrder : RotatesInOrder config s clock) :
    Placed json (rotate config s.dir s.fs clock).1 (logName clock.opened)
      (rotate config s.dir s.fs clock).2.currentSize s.stored := by
  obtain ⟨older, latest, listed, whole, -⟩ := placed
  have renamed : ∃ name, Listed (renameFull config s.dir s.fs clock.unix)
      ((older ++ [(name, latest)]).map (fileOf json)) := by
    unfold renameFull
    split
    next full =>
      refine ⟨rotatedName s.fs.currentDate clock.unix, ?_⟩
      rw [map_append] at listed ⊢
      exact listed.rename_last (inOrder.renamed full)
    next => exact ⟨_, listed⟩
  obtain ⟨name, listed⟩ := renamed
  have opened := placed_open listed inOrder.opened
  rw [flatMap_append, flatMap_singleton] at opened whole
  rwa [whole] at opened

section

variable (plain : hasMeta config.baseDir.path = false) (kept : Kept json s)
  (inOrder : RestartsInOrder config s clock)
include plain kept inOrder

theorem loadLastHash_eq : loadLastHash json config s.dir = hashOf s.stored := by
  obtain ⟨older, latest, listed, whole, -⟩ := kept.placed
  have written : ∀ e ∈ latest, Written json e := by
    intro e mem
    refine kept.written e ?_
    rw [← whole, flatMap_append, flatMap_singleton]
    exact mem_append_right _ mem
  have last : (listLogFiles config.baseDir s.dir).getLast? =
      some (fileOf json (logName s.fs.currentDate, latest)) := by
    rw [listLogFiles_plain plain, listed.sortBy_eq, map_append]
    exact getLast?_concat
  obtain ⟨empty, short⟩ := inOrder.last _ last
  have lines := fun limit => @scanLines_written τ json latest limit written
  have fits : ∀ e ∈ latest, (lineOf json e).length < maxScanTokenSize := by
    intro e mem
    refine short _ ?_
    rw [fileOf, lines _ fun e mem => (written e mem).size]
    exact mem_map_of_mem mem
  rw [loadLastHash, last]
  dsimp only [fileOf]
  rw [lines _ fits]
  rcases eq_nil_or_concat' latest with rfl | ⟨front, e, rfl⟩
  · -- an empty last file is the only one with nothing stored
    have none : s.stored = [] := by
      have files := empty rfl
      rw [← whole]
      refine flatMap_eq_nil_iff.mpr fun part mem => ?_
      have inside := listed.perm.mem_iff.mpr (mem_map_of_mem mem)
      exact map_eq_nil_iff.mp (ofLines_eq_nil (files _ inside))
    rw [none]
    rfl
  · have here := written e (mem_append_right _ mem_cons_self)
    obtain ⟨read, unmarshalled, -, hash, -⟩ := here.reads
    rw [map_append, map_singleton, getLast?_concat, getD_some,
      if_neg here.oneLine.2, unmarshalled, ← whole, flatMap_append, flatMap_singleton,
      ← append_assoc, hashOf, getLast?_concat, map_some, getD_some, ← hash]

theorem Kept.restart :
    Kept json ⟨(newFileStorage json config s.dir clock.opened).1,
      (newFileStorage json config s.dir clock.opened).2, s.stored⟩ where
  placed := by
    obtain ⟨older, latest, listed, whole, -⟩ := kept.placed
    rw [← whole]
    exact placed_open listed inOrder.opened
  lastHash := loadLastHash_eq plain kept inOrder
  chained := kept.chained
  written := kept.written

end

theorem Kept.rotate (kept : Kept json s) (inOrder : RotatesInOrder config s clock) :
    Kept json ⟨(Audit.rotate config s.dir s.fs clock).1, (Audit.rotate config s.dir s.fs clock).2,
      s.stored⟩ where
  placed := kept.placed.rotate inOrder
  lastHash := kept.lastHash
  chained := kept.chained
  written := kept.written

theorem Kept.checkRotation (kept : Kept json s)
    (inOrder : needRotation config s.fs clock = true → RotatesInOrder config s clock) :
    Kept json ⟨(Audit.checkRotation config s.dir s.fs clock).1,
      (Audit.checkRotation config s.dir s.fs clock).2, s.stored⟩ := by
  unfold Audit.checkRotation
  split
  next need => exact kept.rotate (inOrder need)
  next => exact kept

theorem hashOf_concat (events : List (AuditEvent τ)) (e : AuditEvent τ) :
    hashOf (events ++ [e]) = utf8 e.hash := by
  rw [hashOf, getLast?_concat]
  rfl

theorem Chained.concat (chained : Chained events) (previous : e.previousHash = hashOf events) :
    Chained (events ++ [e]) := by
  rcases eq_nil_or_concat' events with rfl | ⟨front, last, rfl⟩
  · exact ⟨fun a here => by cases here; exact previous, isChain_singleton _⟩
  · rw [hashOf_concat] at previous
    refine ⟨fun a here => chained.first a ?_, ?_⟩
    · cases front <;> exact here
    · rw [append_assoc]
      exact isChain_append_cons_cons.mpr ⟨chained.next, previous, isChain_singleton _⟩

theorem Kept.write (kept : Kept json s) (written : Written json e)
    (previous : e.previousHash = hashOf s.stored) :
    Kept json ⟨writeFile s.dir (logName s.fs.currentDate)
        ((readFile s.dir (logName s.fs.currentDate)).getD [] ++ (lineOf json e ++ [newline])),
      { s.fs with
        lastHash := utf8 e.hash
        currentSize := s.fs.currentSize + ((lineOf json e).length + 1) },
      s.stored ++ [e]⟩ where
  placed := by
    obtain ⟨older, latest, listed, whole, size⟩ := kept.placed
    have longer : ofLines ((latest ++ [e]).map (lineOf json)) =
        ofLines (latest.map (lineOf json)) ++ (lineOf json e ++ [newline]) := by
      rw [map_append, ofLines_append, map_singleton, ofLines, ofLines, flatMap_singleton]
    rw [map_append] at listed
    have read := listed.readFile_eq (mem_append_right _ mem_cons_self)
    refine ⟨older, latest ++ [e], ?_, ?_, ?_⟩
    · rw [map_append, map_singleton, fileOf, read, longer]
      exact listed.rewrite_last
    · rw [← whole, flatMap_append, flatMap_singleton, flatMap_append,
        flatMap_singleton, append_assoc]
    · dsimp only [fileOf] at size ⊢
      rw [longer, length_append, length_append, length_singleton, size]
  lastHash := (hashOf_concat s.stored e).symm
  chained := kept.chained.concat previous
  written := by
    intro a mem
    rcases mem_append.mp mem with old | new
    · exact kept.written a old
    · rw [mem_singleton.mp new]
      exact written

theorem hashOf_text (events : List (AuditEvent τ)) : ∃ t, hashOf events = utf8 t := by
  rcases eq_nil_or_concat' events with rfl | ⟨front, last, rfl⟩
  · exact ⟨[], rfl⟩
  · exact ⟨last.hash, hashOf_concat front last⟩

section Steps

variable {sha256 : Bytes → Bytes} {config : FileStorageConfig} {s : Auditing τ}

theorem Kept.store {e : AuditEvent τ} {clock : Clock} (kept : Kept json s)
    (previous : e.previousHash = s.fs.lastHash)
    (small : ∀ data, json.marshal e = some data → data.length < maxLineSize ∧ readable data = true)
    (inOrder : needRotation config s.fs clock = true → RotatesInOrder config s clock) :
    Kept json ⟨(fileStore json config s.dir s.fs clock e).1,
      (fileStore json config s.dir s.fs clock e).2.1,
      if (fileStore json config s.dir s.fs clock e).2.2 then s.stored ++ [e] else s.stored⟩ := by
  have rotated := kept.checkRotation inOrder
  have follows := previous.trans kept.lastHash
  unfold fileStore
  cases line : json.marshal e with
  | none => exact rotated
  | some data =>
    have same : lineOf json e = data := by rw [lineOf, line, getD_some]
    have written : Written json e := by
      obtain ⟨size, readable⟩ := small data line
      rw [← same] at size readable
      refine ⟨by rw [same, line], size, readable, ?_⟩
      rw [follows]
      exact hashOf_text s.stored
    have wrote := rotated.write written follows
    rwa [same] at wrote

theorem Kept.after (plain : hasMeta config.baseDir.path = false) (kept : Kept json s) {e : Event τ}
    (inOrder : InOrder json sha256 config s e) : Kept json (after json sha256 config s e) := by
  cases e with
  | store e id timestamp clock => exact kept.store rfl inOrder.1 inOrder.2
  | rotate clock => exact kept.rotate inOrder
  | restart clock => exact kept.restart plain inOrder

theorem loadLastHash_nil (json : Json τ) (plain : hasMeta config.baseDir.path = false) :
    loadLastHash json config [] = [] := by
  have none : listLogFiles config.baseDir [] = [] := by
    rw [listLogFiles_plain plain]
    exact mergeSort_nil
  rw [loadLastHash, none]
  rfl

theorem kept_start (plain : hasMeta config.baseDir.path = false) (date : Date) :
    Kept json (start json config date) where
  placed := @placed_open τ json [] [] (logName date) ⟨.refl _, .nil⟩ fun _ mem => nomatch mem
  lastHash := loadLastHash_nil json plain
  chained := ⟨fun e none => absurd none (not_mem_none e), .nil⟩
  written _ mem := nomatch mem

end Steps

/-! ## What the reader returns -/

theorem returns_lines {files lines : List Bytes} {read later : List (AuditEvent τ)}
    (unmarshalled : lines.map json.unmarshal = read.map some)
    (rest : Returns json ⟨files, []⟩ later) : Returns json ⟨files, lines⟩ (read ++ later) := by
  induction lines generalizing read with
  | nil =>
    cases read with
    | nil => exact rest
    | cons e read => cases unmarshalled
  | cons line lines ih =>
    cases read with
    | nil => cases unmarshalled
    | cons e read =>
      obtain ⟨first, others⟩ := cons.inj unmarshalled
      have next : nextEvent json (line :: lines) files = some (e, ⟨files, lines⟩) := by
        cases files <;> simp [nextEvent, nextLine, first]
      exact .more next (ih others)

theorem nextEvent_opens {file line : Bytes} {files lines : List Bytes} {e : AuditEvent τ}
    (scanned : scanLines maxLineSize file = line :: lines) (read : json.unmarshal line = some e) :
    nextEvent json [] (file :: files) = some (e, ⟨files, lines⟩) := by
  cases files <;> simp [nextEvent, nextLine, scanned, read]

theorem returns_open {file : Bytes} {files : List Bytes} {events : List (AuditEvent τ)}
    (rest : Returns json ⟨files, scanLines maxLineSize file⟩ events) :
    Returns json ⟨file :: files, []⟩ events := by
  cases rest with
  | eof ended => exact .eof ended
  | more next later => exact .more next later

theorem returns_parts {parts : List (Bytes × List (AuditEvent τ))} {read : List (AuditEvent τ)}
    (written : ∀ e ∈ parts.flatMap Prod.snd, Written json e)
    (asRead : (parts.flatMap Prod.snd).map json.asRead = read.map some) :
    Returns json ⟨(parts.map (fileOf json)).map Prod.snd, []⟩ read := by
  induction parts generalizing read with
  | nil =>
    cases read with
    | nil => exact .eof rfl
    | cons e read => cases asRead
  | cons part parts ih =>
    rw [flatMap_cons, map_append] at asRead
    obtain ⟨front, back, rfl, first, others⟩ := map_eq_append_iff.mp asRead.symm
    have here : ∀ e ∈ part.2, Written json e := fun e mem =>
      written e (mem_append_left _ mem)
    refine returns_open (returns_lines ?_ (ih (fun e mem =>
      written e (mem_append_right _ mem)) others.symm))
    dsimp only [fileOf]
    rw [scanLines_written here fun e mem => (here e mem).size, List.map_map, first]
    refine map_congr_left fun e mem => ?_
    obtain ⟨read, unmarshalled, same, -⟩ := (here e mem).reads
    rw [Function.comp_apply, unmarshalled, same]

theorem Kept.returns {base : BaseDir} (plain : hasMeta base.path = false) {s : Auditing τ}
    (kept : Kept json s) : ∃ read : List (AuditEvent τ), read.map some = s.stored.map json.asRead ∧
      Returns json (newFileReader base s.dir) read ∧ Chained read := by
  have reads : ∀ e ∈ s.stored, json.asRead e = some ((json.asRead e).getD e) ∧
      ((json.asRead e).getD e).hash = e.hash ∧
      ((json.asRead e).getD e).previousHash = e.previousHash := by
    intro e mem
    obtain ⟨read, -, same, hash, previous⟩ := (kept.written e mem).reads
    rw [same]
    exact ⟨rfl, hash, previous⟩
  have same : (s.stored.map fun e => (json.asRead e).getD e).map some = s.stored.map json.asRead := by
    rw [List.map_map]
    exact map_congr_left fun e mem => (reads e mem).1.symm
  refine ⟨_, same, ?_, ?_, ?_⟩
  · obtain ⟨older, latest, listed, whole, -⟩ := kept.placed
    rw [newFileReader, listLogFiles_plain plain, listed.sortBy_eq]
    refine returns_parts ?_ ?_
    · rw [whole]
      exact kept.written
    · rw [whole]
      exact same.symm
  · intro e first
    obtain ⟨stored, head, rfl⟩ : ∃ a, s.stored.head? = some a ∧ (json.asRead a).getD a = e := by
      rw [head?_map] at first
      exact map_eq_some_iff.mp first
    rw [(reads stored (mem_of_head? head)).2.2]
    exact kept.chained.first stored head
  · refine (isChain_map _).mpr ?_
    refine List.IsChain.imp_of_mem_imp (fun a b inA inB follows => ?_) kept.chained.next
    rw [(reads a inA).2.1, (reads b inB).2.2]
    exact follows

end Files

/-- Where rotations and restarts keep the order of the files, a reader returns the stored events, each
behind the one whose hash it names. -/
theorem reader_follows_chain (json : Json τ) (sha256 : Bytes → Bytes) (config : FileStorageConfig)
    (plain : hasMeta config.baseDir.path = false) (date : Date) (events : List (Event τ))
    (inOrder : Along (after json sha256 config) (InOrder json sha256 config)
      (start json config date) events) : ∃ read : List (AuditEvent τ),
      read.map some = (afterAll (after json sha256 config) (start json config date) events).stored.map
        json.asRead ∧ Returns json (newFileReader config.baseDir
        (afterAll (after json sha256 config) (start json config date) events).dir) read ∧
      Chained read := by
  have kept := inOrder.invariant (fun s e before allowed => Kept.after plain before allowed)
    (kept_start plain date)
  exact kept.returns plain

/-! ## Two rotations in one second -/

variable {config : FileStorageConfig} {content data lastHash : Bytes} {rotated : Directory}

theorem fileStore_full {json : Json τ} {date : Date} {unix : Int} {size : Nat} {e : AuditEvent τ}
    (full : config.limit ≤ size) (differ : rotatedName date unix ≠ logName date)
    (names : ∀ f ∈ rotated, f.1 = rotatedName date unix) (line : json.marshal e = some data) :
    fileStore json config ((logName date, content) :: rotated) ⟨lastHash, date, size⟩
        ⟨date, unix, date⟩ e =
      ([(logName date, data ++ [newline]), (rotatedName date unix, content)],
        ⟨utf8 e.hash, date, data.length + 1⟩, true) := by
  have kept : ((logName date, content) :: rotated).filter (fun f => decide (f.1 ≠ logName date)) =
      rotated := by
    rw [filter_cons_of_neg (by simp)]
    exact filter_eq_self.mpr fun f mem =>
      decide_eq_true (by rw [names f mem]; exact differ)
  have replaced : rotated.filter (fun f => decide (f.1 ≠ rotatedName date unix)) = [] :=
    filter_eq_nil_iff.mpr fun f mem => by rw [names f mem]; simp
  have renamed : renameFull config ((logName date, content) :: rotated) ⟨lastHash, date, size⟩ unix =
      [(rotatedName date unix, content)] := by
    rw [renameFull, if_pos full, renameFile, readFile_cons_self]
    dsimp only
    rw [kept, writeFile, replaced]
  have absent : readFile [(rotatedName date unix, content)] (logName date) = none :=
    readFile_cons_ne differ
  have behind : [(rotatedName date unix, content)].filter (fun f => decide (f.1 ≠ logName date)) =
      [(rotatedName date unix, content)] := filter_cons_of_pos (decide_eq_true differ)
  have rotates : checkRotation config ((logName date, content) :: rotated) ⟨lastHash, date, size⟩
      ⟨date, unix, date⟩ =
      ([(logName date, []), (rotatedName date unix, content)], ⟨lastHash, date, 0⟩) := by
    have need : needRotation config ⟨lastHash, date, size⟩ ⟨date, unix, date⟩ = true := by
      rw [needRotation, decide_eq_true full, Bool.true_or]
    rw [checkRotation, if_pos need, rotate, renamed, openCurrentFile, createFile, absent]
    rw [writeFile, behind]
    rfl
  have others : ((logName date, []) :: [(rotatedName date unix, content)]).filter
      (fun f => decide (f.1 ≠ logName date)) = [(rotatedName date unix, content)] := by
    rw [filter_cons_of_neg (by simp), behind]
  rw [fileStore, rotates, line]
  dsimp only
  rw [readFile_cons_self, writeFile, others, getD_some, nil_append, Nat.zero_add]

theorem after_store_full {json : Json τ} {sha256 : Bytes → Bytes} {date : Date} {unix : Int}
    {id : Bytes} {size : Nat} {e stored : AuditEvent τ} {timestamp : Instant}
    {before : List (AuditEvent τ)} (full : config.limit ≤ size)
    (differ : rotatedName date unix ≠ logName date)
    (names : ∀ f ∈ rotated, f.1 = rotatedName date unix)
    (event : chained json sha256 ⟨lastHash, date, size⟩ e id timestamp = stored)
    (line : json.marshal stored = some data) :
    after json sha256 config ⟨(logName date, content) :: rotated, ⟨lastHash, date, size⟩, before⟩
        (.store e id timestamp ⟨date, unix, date⟩) =
      ⟨[(logName date, data ++ [newline]), (rotatedName date unix, content)],
        ⟨utf8 stored.hash, date, data.length + 1⟩, before ++ [stored]⟩ := by
  dsimp only [after]
  rw [event, fileStore_full full differ names line]
  rfl

section Boot

def bootDate : Date := (instantOf 2026 0 1 0 0 0 0).toDate

def bootBase : BaseDir := ⟨utf8 "/var/log/audit".toList, fun dir => dir⟩

theorem bootBase_plain : hasMeta bootBase.path = false := by decide +kernel

def bootUnix : Int := 1767323045

def bootClock : Clock := ⟨bootDate, bootUnix, bootDate⟩

/-- The start of the system and two events of the same second, a microsecond behind each other. -/
def bootTime (micros : Fin 3) : Instant := instantOf 2026 0 1 3 4 5 (micros * 1000)

/-- The hashes of the texts that `chained` makes of them. -/
def bootDigests : Fin 3 → Bytes
  | 0 => bootDigest
  | 1 =>
    [0x95, 0x3f, 0x8a, 0x1a, 0x65, 0xe3, 0xaf, 0x15, 0x2e, 0xf4, 0xf9, 0x2c, 0x9d, 0xcc, 0xd4, 0x78,
      0xd8, 0x9a, 0x86, 0xff, 0x38, 0xf9, 0xff, 0xcf, 0x03, 0x63, 0xb4, 0x95, 0x2f, 0x76, 0x5c, 0x18]
  | 2 =>
    [0x25, 0x88, 0x63, 0x9d, 0x3d, 0xf9, 0xae, 0x1d, 0x09, 0xdb, 0x9e, 0x12, 0x54, 0x14, 0x4c, 0xfd,
      0xfc, 0xb8, 0xd3, 0x2a, 0x61, 0xb3, 0x7e, 0x11, 0xd4, 0x2c, 0x61, 0x3f, 0x33, 0x04, 0x64, 0x3d]

def bootPrevious : Fin 3 → Text
  | 0 => []
  | 1 => hexEncode (bootDigests 0)
  | 2 => hexEncode (bootDigests 1)

/-- The events as they are stored. -/
def bootStored (k : Fin 3) : AuditEvent Bytes where
  toContent := { bootContent (actorNamed "alice") with
    timestamp := bootTime k
    previousHash := utf8 (bootPrevious k) }
  hash := hexEncode (bootDigests k)
  signature := []

def indexOf {α : Type} [DecidableEq α] (f : Fin 3 → α) (a : α) : Option (Fin 3) :=
  if a = f 0 then some 0 else if a = f 1 then some 1 else if a = f 2 then some 2 else none

theorem indexOf_spec {α : Type} [DecidableEq α] {f : Fin 3 → α} {a : α} {k : Fin 3}
    (found : indexOf f a = some k) : a = f k := by
  unfold indexOf at found
  split_ifs at found with here there last <;> cases found <;> assumption

theorem indexOf_self {α : Type} [DecidableEq α] {f : Fin 3 → α} (first : f 1 ≠ f 0) (second : f 2 ≠ f 0)
    (third : f 2 ≠ f 1) (k : Fin 3) : indexOf f (f k) = some k := by
  unfold indexOf
  match k with
  | 0 => exact if_pos rfl
  | 1 => rw [if_neg first, if_pos rfl]
  | 2 => rw [if_neg second, if_neg third, if_pos rfl]

def chainSha256 (b : Bytes) : Bytes :=
  ((indexOf (fun k => (bootStored k).hashed bootMarshal) b).map bootDigests).getD []

/-- Their lines. -/
def bootLine (k : Fin 3) : Bytes :=
  utf8 ("\x7b\"id\":\"e1\",\"timestamp\":\"".toList ++ rfc3339Nano (bootTime k) ++
    "\",\"type\":\"system\",\"severity\":\"info\",\"action\":\"boot\",".toList ++
    "\"outcome\":\"success\",\"actor\":\x7b\"id\":\"alice\",\"type\":\"user\"\x7d,".toList ++
    (if bootPrevious k = [] then [] else "\"previous_hash\":\"".toList ++ bootPrevious k ++ "\",".toList) ++
    "\"hash\":\"".toList ++ hexEncode (bootDigests k) ++ "\"\x7d".toList)

theorem indexOf_bootLine (k : Fin 3) : indexOf bootLine (bootLine k) = some k :=
  indexOf_self (by decide) (by decide) (by decide) k

theorem indexOf_bootStored (k : Fin 3) : indexOf bootStored (bootStored k) = some k :=
  indexOf_self (by decide) (by decide) (by decide) k

theorem oneLine_bootLine (k : Fin 3) : OneLine (bootLine k) ∧ bootLine k ≠ [] := by
  have plain : ∀ k, newline ∉ bootLine k ∧ (bootLine k).getLast? ≠ some carriageReturn ∧
      bootLine k ≠ [] := by decide +kernel
  exact ⟨⟨(plain k).1, (plain k).2.1⟩, (plain k).2.2⟩

/-- `encoding/json` on the three events. -/
def bootJson : Json Bytes where
  marshalDetails := bootMarshal
  marshal e := (indexOf bootStored e).map bootLine
  unmarshal data := (indexOf bootLine data).map bootStored
  oneLine := by
    intro e data line
    obtain ⟨k, -, rfl⟩ := map_eq_some_iff.mp line
    exact oneLine_bootLine k
  reads := by
    intro e data previous line _ _
    obtain ⟨k, found, rfl⟩ := map_eq_some_iff.mp line
    refine ⟨bootStored k, ?_, ?_, ?_⟩
    · rw [indexOf_bootLine]
      rfl
    · rw [indexOf_spec found]
    · rw [indexOf_spec found]

theorem marshal_bootStored (k : Fin 3) : bootJson.marshal (bootStored k) = some (bootLine k) :=
  congrArg (Option.map bootLine) (indexOf_bootStored k)

theorem unmarshal_bootLine (k : Fin 3) : bootJson.unmarshal (bootLine k) = some (bootStored k) := by
  dsimp only [bootJson]
  rw [indexOf_bootLine, map_some]

theorem chained_boot {fs : FileStorage} (k : Fin 3) (last : fs.lastHash = utf8 (bootPrevious k)) :
    chained bootJson chainSha256 fs (bootEvent (actorNamed "alice")) [] (bootTime k) = bootStored k := by
  have hash : hexEncode (chainSha256 ((bootStored k).hashed bootMarshal)) = hexEncode (bootDigests k) := by
    have found :=
      @indexOf_self _ _ (fun k => (bootStored k).hashed bootMarshal) (by decide) (by decide) (by decide) k
    rw [chainSha256, found]
    rfl
  have whole : chained bootJson chainSha256 fs (bootEvent (actorNamed "alice")) [] (bootTime k) =
      { bootStored k with
        previousHash := fs.lastHash
        hash := AuditEvent.computeHash bootMarshal chainSha256
          { bootStored k with previousHash := fs.lastHash } } :=
    rfl
  rw [whole, last]
  exact congrArg (fun h => { bootStored k with hash := h }) hash

def storeBoot (k : Fin 3) : Event Bytes := .store (bootEvent (actorNamed "alice")) [] (bootTime k) bootClock

def bootAuditing : Auditing Bytes where
  dir := [(logName bootDate, bootLine 0 ++ [newline])]
  fs := ⟨utf8 (bootPrevious 1), bootDate, (bootLine 0).length + 1⟩
  stored := [bootStored 0]

theorem start_boot (size : Int) (daily : Bool) : start bootJson ⟨bootBase, size, daily⟩ bootDate =
    ⟨[(logName bootDate, [])], ⟨[], bootDate, 0⟩, []⟩ := by
  have hash := @loadLastHash_nil _ ⟨bootBase, size, daily⟩ bootJson bootBase_plain
  rw [start, newFileStorage, hash]
  rfl

theorem after_storeBoot {size : Int} {daily : Bool}
    (larger : 0 < (⟨bootBase, size, daily⟩ : FileStorageConfig).limit) :
    after bootJson chainSha256 ⟨bootBase, size, daily⟩
      (start bootJson ⟨bootBase, size, daily⟩ bootDate) (storeBoot 0) = bootAuditing := by
  have need : needRotation ⟨bootBase, size, daily⟩ ⟨[], bootDate, 0⟩ bootClock = false := by
    have empty : decide ((⟨bootBase, size, daily⟩ : FileStorageConfig).limit ≤ 0) = false :=
      decide_eq_false (by omega)
    have today : decide (bootClock.today ≠ bootDate) = false := by decide
    rw [needRotation, empty, today, Bool.and_false, Bool.or_self]
  rw [start_boot]
  dsimp only [after, storeBoot]
  rw [chained_boot 0 rfl, fileStore, checkRotation, need, marshal_bootStored]
  dsimp only [bootAuditing]
  rw [if_neg Bool.false_ne_true]
  rw [Nat.zero_add]
  rfl

theorem readable_bootLine (k : Fin 3) : readable (bootLine k) = true := by
  have lines : ∀ k, readable (bootLine k) = true := by decide +kernel
  exact lines k

theorem length_bootLine (k : Fin 3) :
    100 ≤ (bootLine k).length ∧ (bootLine k).length < maxScanTokenSize := by
  have sizes : ∀ k, 100 ≤ (bootLine k).length ∧ (bootLine k).length < maxScanTokenSize := by
    decide +kernel
  exact sizes k

theorem scanLines_boot (k : Fin 3) : scanLines maxLineSize (bootLine k ++ [newline]) = [bootLine k] := by
  have lines := @scanLines_ofLines maxLineSize [bootLine k]
    (fun l inside => by rw [mem_singleton.mp inside]; exact (oneLine_bootLine k).1)
    (fun l inside => by
      rw [mem_singleton.mp inside]
      exact Nat.lt_trans (length_bootLine k).2 (by decide))
  rwa [ofLines, flatMap_singleton] at lines

theorem restartsInOrder_boot : RestartsInOrder ⟨bootBase, 0, true⟩ bootAuditing bootClock where
  opened := by
    intro f mem
    rw [mem_singleton.mp mem]
    exact Std.le_refl _
  last := by
    intro file here
    have only : listLogFiles bootBase bootAuditing.dir = bootAuditing.dir := by
      rw [listLogFiles_plain bootBase_plain]
      exact mergeSort_singleton _
    rw [only, bootAuditing, getLast?_singleton] at here
    cases here
    refine ⟨fun none => absurd none (by simp), fun line mem => ?_⟩
    rw [scanLines_boot] at mem
    rw [mem_singleton.mp mem]
    exact (length_bootLine 0).2

/-- An event is stored and the program starts again. -/
theorem reader_follows_chain_boot : ∃ read : List (AuditEvent Bytes),
      read.map some = (afterAll (after bootJson chainSha256 ⟨bootBase, 0, true⟩)
        (start bootJson ⟨bootBase, 0, true⟩ bootDate)
        [storeBoot 0, .restart bootClock]).stored.map bootJson.asRead ∧
      Returns bootJson (newFileReader bootBase
        (afterAll (after bootJson chainSha256 ⟨bootBase, 0, true⟩)
          (start bootJson ⟨bootBase, 0, true⟩ bootDate)
          [storeBoot 0, .restart bootClock]).dir) read ∧ Chained read := by
  refine reader_follows_chain bootJson chainSha256 ⟨bootBase, 0, true⟩ bootBase_plain bootDate
    [storeBoot 0, .restart bootClock] ⟨⟨?_, ?_⟩, ?_, trivial⟩
  · intro data line
    have hash := @loadLastHash_nil _ ⟨bootBase, 0, true⟩ bootJson bootBase_plain
    have same := @chained_boot (start bootJson ⟨bootBase, 0, true⟩ bootDate).fs 0 hash
    rw [same, marshal_bootStored] at line
    cases line
    exact ⟨Nat.lt_trans (length_bootLine 0).2 (by decide), readable_bootLine 0⟩
  · intro need
    exact absurd need (by decide)
  · rw [after_storeBoot (by decide)]
    exact restartsInOrder_boot

/-- Three events of one second in files of 100 bytes: the second rotation takes the place of the
first, and the first event is lost. -/
theorem first_event_lost : hasMeta bootBase.path = false ∧
    (∀ k, (bootLine k).length < maxLineSize ∧ readable (bootLine k) = true) ∧
    ¬ ∃ read : List (AuditEvent Bytes),
      read.map some = (afterAll (after bootJson chainSha256 ⟨bootBase, 100, false⟩)
        (start bootJson ⟨bootBase, 100, false⟩ bootDate)
        [storeBoot 0, storeBoot 1, storeBoot 2]).stored.map bootJson.asRead ∧
      Returns bootJson (newFileReader bootBase
        (afterAll (after bootJson chainSha256 ⟨bootBase, 100, false⟩)
          (start bootJson ⟨bootBase, 100, false⟩ bootDate)
          [storeBoot 0, storeBoot 1, storeBoot 2]).dir) read ∧ Chained read := by
  refine ⟨bootBase_plain, fun k =>
    ⟨Nat.lt_trans (length_bootLine k).2 (by decide), readable_bootLine k⟩, ?_⟩
  have differ : rotatedName bootDate bootUnix ≠ logName bootDate := by decide
  have full : ∀ k, (⟨bootBase, 100, false⟩ : FileStorageConfig).limit ≤ (bootLine k).length + 1 := fun k =>
    Nat.le_succ_of_le (length_bootLine k).1
  have second : after bootJson chainSha256 ⟨bootBase, 100, false⟩ bootAuditing (storeBoot 1) =
      ⟨[(logName bootDate, bootLine 1 ++ [newline]),
          (rotatedName bootDate bootUnix, bootLine 0 ++ [newline])],
        ⟨utf8 (bootPrevious 2), bootDate, (bootLine 1).length + 1⟩, [bootStored 0, bootStored 1]⟩ :=
    after_store_full (full 0) differ (fun f member => absurd member not_mem_nil)
      (chained_boot 1 rfl) (marshal_bootStored 1)
  have names : ∀ f ∈ [(rotatedName bootDate bootUnix, bootLine 0 ++ [newline])],
      f.1 = rotatedName bootDate bootUnix := by
    intro f member
    rw [mem_singleton.mp member]
  have third : afterAll (after bootJson chainSha256 ⟨bootBase, 100, false⟩)
      (start bootJson ⟨bootBase, 100, false⟩ bootDate) [storeBoot 0, storeBoot 1, storeBoot 2] =
      ⟨[(logName bootDate, bootLine 2 ++ [newline]),
          (rotatedName bootDate bootUnix, bootLine 1 ++ [newline])],
        ⟨utf8 (bootStored 2).hash, bootDate, (bootLine 2).length + 1⟩,
        [bootStored 0, bootStored 1, bootStored 2]⟩ := by
    rw [afterAll_cons, after_storeBoot (by decide), afterAll_cons, second, afterAll_cons, afterAll_nil]
    exact after_store_full (full 1) differ names (chained_boot 2 rfl) (marshal_bootStored 2)
  rw [third]
  rintro ⟨read, -, returns, chained⟩
  have files : Listed [(logName bootDate, bootLine 2 ++ [newline]),
      (rotatedName bootDate bootUnix, bootLine 1 ++ [newline])]
      [(rotatedName bootDate bootUnix, bootLine 1 ++ [newline]),
        (logName bootDate, bootLine 2 ++ [newline])] := by
    refine ⟨.swap _ _ _, pairwise_cons.mpr ⟨fun f member => ?_, pairwise_singleton _ _⟩⟩
    rw [mem_singleton.mp member]
    decide
  have next : nextEvent bootJson [] [bootLine 1 ++ [newline], bootLine 2 ++ [newline]] =
      some (bootStored 1, ⟨[bootLine 2 ++ [newline]], []⟩) :=
    nextEvent_opens (scanLines_boot 1) (unmarshal_bootLine 1)
  rw [newFileReader, listLogFiles_plain bootBase_plain, files.sortBy_eq] at returns
  -- the reader begins with the second event, which names the hash of the first
  cases returns with
  | eof ended => exact absurd (next.symm.trans ended) (some_ne_none _)
  | more next' later =>
    cases next.symm.trans next'
    exact absurd (chained.first _ rfl) (by decide)

end Boot

end Unheaded.Audit
