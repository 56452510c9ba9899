import Unheaded.Audit.FileStorage

/-!
# Audit queries

A query reads the events of all files, keeps those that match, sorts them by time and cuts a page
out of them.
-/

namespace Unheaded.Audit

open Lib List

variable {τ : Type}

/-- The fields of a query that file storage reads. -/
structure AuditQuery where
  startTime : Instant
  endTime : Instant
  types : List Bytes
  actorIDs : List Bytes
  limit : Int
  offset : Int
  descending : Bool

/-- `matchesQuery`; an event without an actor matches whatever actors are asked for. -/
def matchesQuery (e : AuditEvent τ) (query : AuditQuery) : Bool :=
  if !query.startTime.isZero && e.timestamp.before query.startTime then false
  else if !query.endTime.isZero && query.endTime.before e.timestamp then false
  else if query.types ≠ [] && !query.types.contains e.type then false
  else
    match e.actor with
    | none => true
    | some actor => query.actorIDs = [] || query.actorIDs.contains actor.id

def sortsBefore (descending : Bool) (a b : AuditEvent τ) : Bool :=
  if descending then b.timestamp.before a.timestamp else a.timestamp.before b.timestamp

/-- What `sort.Slice` asks of a comparison. -/
structure StrictWeak {α : Type} (less : α → α → Bool) : Prop where
  irrefl : ∀ a, less a a = false
  trans : ∀ {a b c}, less a b = true → less b c = true → less a c = true
  negTrans : ∀ {a b c}, less a b = false → less b c = false → less a c = false

/-- `sort.Slice`: the elements in order, and elements that are equal in any order. -/
structure SliceSort (α : Type) where
  slice : (α → α → Bool) → List α → List α
  perm : ∀ less l, (slice less l).Perm l
  sorted : ∀ {less}, StrictWeak less → ∀ l, (slice less l).Pairwise fun a b => less b a = false

section Query

variable (json : Json τ) (sort : SliceSort (AuditEvent τ))

/-- `queryFile` on the content of a file; nothing when it cannot be opened or a line is too long. -/
def queryFile (query : AuditQuery) (content : Option Bytes) : Option (List (AuditEvent τ)) :=
  match content with
  | none => none
  | some file =>
    let results := ((scanLines maxLineSize file).filterMap json.unmarshal).filter
      (matchesQuery · query)
    if scanErr maxLineSize file then none else some results

def skipTo (offset : Int) (results : List (AuditEvent τ)) : List (AuditEvent τ) :=
  if 0 < offset ∧ offset < results.length then results.drop offset.toNat else results

def cutTo (limit : Int) (results : List (AuditEvent τ)) : List (AuditEvent τ) :=
  if 0 < limit ∧ limit < results.length then results.take limit.toNat else results

/-- The pagination of `Query`. -/
def paginate (offset limit : Int) (results : List (AuditEvent τ)) : List (AuditEvent τ) :=
  cutTo limit (skipTo offset results)

variable (base : BaseDir) (opens : Bytes → Bool)

/-- The results of `Query` before they are sorted, when some of the files can be opened; files with an
error are left out. -/
def gathered (dir : Directory) (query : AuditQuery) : List (AuditEvent τ) :=
  (listLogFiles base dir).flatMap fun file =>
    (queryFile json query (if opens file.1 then some file.2 else none)).getD []

/-- `FileStorage.Query`. -/
def fileQuery (dir : Directory) (query : AuditQuery) : List (AuditEvent τ) :=
  paginate query.offset query.limit
    (sort.slice (sortsBefore query.descending) (gathered json base opens dir query))

def eventsOf (file : Bytes) : List (AuditEvent τ) :=
  (scanLines (file.length + 1) file).filterMap json.unmarshal

def storedEvents (dir : Directory) : List (AuditEvent τ) :=
  (listLogFiles base dir).flatMap fun file => eventsOf json file.2

/-- The page with number `k`. -/
def page (dir : Directory) (query : AuditQuery) (limit : Int) (k : Nat) : List (AuditEvent τ) :=
  fileQuery json sort base opens dir { query with offset := k * limit, limit }

def pagesBefore (dir : Directory) (query : AuditQuery) (limit : Int) (n : Nat) : List (AuditEvent τ) :=
  (range n).flatMap (page json sort base opens dir query limit)

/-- There is a first empty page, and the pages before it are the stored events that match, each once,
in the order of their timestamps. -/
def PagesCorrectly (dir : Directory) (query : AuditQuery) (limit : Int) : Prop :=
  ∃ n, page json sort base opens dir query limit n = [] ∧
    (∀ k < n, page json sort base opens dir query limit k ≠ []) ∧
    (pagesBefore json sort base opens dir query limit n).Perm
      ((storedEvents json base dir).filter (matchesQuery · query)) ∧
    (pagesBefore json sort base opens dir query limit n).Pairwise
      fun a b => sortsBefore query.descending b a = false

end Query

section Pages

variable {offset limit : Int} {results : List (AuditEvent τ)}

theorem paginate_ne_nil (found : results ≠ []) : paginate offset limit results ≠ [] := by
  have skipped : skipTo offset results ≠ [] := by
    unfold skipTo
    split
    next within =>
      intro empty
      have behind := drop_eq_nil_iff.mp empty
      omega
    next => exact found
  unfold paginate cutTo
  split
  next within =>
    intro empty
    obtain zero | nothing := take_eq_nil_iff.mp empty
    · omega
    · exact skipped nothing
  next => exact skipped

end Pages

section Pages

variable {json : Json τ} {sort : SliceSort (AuditEvent τ)} {base : BaseDir}
  {opens : Bytes → Bool} {dir : Directory}
  {query : AuditQuery} {limit : Int}

theorem page_eq (k : Nat) : page json sort base opens dir query limit k = paginate (k * limit) limit
      (sort.slice (sortsBefore query.descending) (gathered json base opens dir query)) := rfl

theorem page_eq_nil {k : Nat} : page json sort base opens dir query limit k = [] ↔
    gathered json base opens dir query = [] := by
  have kept := sort.perm (sortsBefore query.descending) (gathered json base opens dir query)
  rw [page_eq]
  constructor
  · intro empty
    by_contra found
    refine paginate_ne_nil (fun nothing => found ?_) empty
    rw [nothing] at kept
    exact kept.symm.eq_nil
  · intro empty
    rw [empty] at kept
    rw [empty, kept.eq_nil]
    unfold paginate skipTo cutTo
    simp

end Pages

section End

variable {json : Json τ} {sort : SliceSort (AuditEvent τ)} {base : BaseDir}
  {opens : Bytes → Bool} {dir : Directory}
  {query : AuditQuery} {limit : Int}

theorem queryFile_eq {content : Option Bytes} {results : List (AuditEvent τ)}
    (read : queryFile json query content = some results) :
    ∃ file, content = some file ∧ results = (eventsOf json file).filter (matchesQuery · query) := by
  cases content with
  | none => cases read
  | some file =>
    unfold queryFile at read
    dsimp only at read
    split at read
    next => cases read
    next noErr =>
      have whole : scanLines maxLineSize file = scanLines (file.length + 1) file :=
        scanFrom_of_noErr (Bool.eq_false_iff.mpr noErr) (by rw [length_nil]; omega)
      refine ⟨file, rfl, ?_⟩
      rw [← Option.some.inj read, whole, eventsOf]

theorem mem_gathered {e : AuditEvent τ} (found : e ∈ gathered json base opens dir query) :
    e ∈ storedEvents json base dir ∧ matchesQuery e query = true := by
  obtain ⟨file, listed, inFile⟩ := mem_flatMap.mp found
  cases read : queryFile json query (if opens file.1 then some file.2 else none) with
  | none =>
    simp [read] at inFile
  | some results =>
    obtain ⟨content, opened, rfl⟩ := queryFile_eq read
    have same : file.2 = content := by
      split at opened
      next => exact Option.some.inj opened
      next => cases opened
    rw [read, ← same] at inFile
    obtain ⟨onLine, matching⟩ := mem_filter.mp inFile
    exact ⟨mem_flatMap.mpr ⟨file, listed, onLine⟩, matching⟩

end End

/-- Pages come to an end, with the stored events that match in their order, where there is none. -/
theorem pagesCorrectly_iff (json : Json τ) (sort : SliceSort (AuditEvent τ)) (base : BaseDir)
    (opens : Bytes → Bool) (dir : Directory) (query : AuditQuery) (limit : Int) :
    PagesCorrectly json sort base opens dir query limit ↔
      ∀ e ∈ storedEvents json base dir, matchesQuery e query = false := by
  constructor
  · rintro ⟨n, empty, before, same, -⟩
    -- an empty page means that no page holds an event, so the first one is empty
    have nothing := page_eq_nil.mp empty
    have first : n = 0 := by
      by_contra later
      exact before 0 (Nat.pos_of_ne_zero later) (page_eq_nil.mpr nothing)
    subst first
    have none' : (storedEvents json base dir).filter (matchesQuery · query) = [] := same.symm.eq_nil
    intro e stored
    exact Bool.eq_false_iff.mpr (filter_eq_nil_iff.mp none' e stored)
  · intro noMatch
    have nothing : gathered json base opens dir query = [] := by
      refine eq_nil_iff_forall_not_mem.mpr fun e found => ?_
      obtain ⟨stored, matching⟩ := mem_gathered found
      simp [noMatch e stored] at matching
    have none' : (storedEvents json base dir).filter (matchesQuery · query) = [] :=
      filter_eq_nil_iff.mpr fun e stored => Bool.eq_false_iff.mp (noMatch e stored)
    refine ⟨0, page_eq_nil.mpr nothing, fun k earlier => absurd earlier (Nat.not_lt_zero k), ?_, ?_⟩
    · rw [none']
      exact List.Perm.refl []
    · exact List.Pairwise.nil

section Boot

/-- Merge sort, as an instance of `sort.Slice`. -/
def mergeSlice (α : Type) : SliceSort α where
  slice less l := l.mergeSort fun a b => !less b a
  perm less l := mergeSort_perm l _
  sorted := by
    intro less weak l
    refine (pairwise_mergeSort (fun a b c => ?_) (fun a b => ?_) l).imp fun first => ?_
    · simp only [Bool.not_eq_true']
      exact fun first second => weak.negTrans second first
    · cases below : less b a with
      | false => rfl
      | true =>
        cases above : less a b with
        | false => rfl
        | true =>
          have same := weak.irrefl a
          simp [weak.trans above below] at same
    · exact Bool.not_eq_true' _ |>.mp first

/-- The first second of year 1, for a bound that is not set. -/
def zeroTime : Instant := instantOf 1 0 0 0 0 0 0

def everyEvent : AuditQuery := ⟨zeroTime, zeroTime, [], [], 0, 0, false⟩

theorem gathered_boot :
    gathered bootJson bootBase (fun _ => true) bootAuditing.dir everyEvent = [bootStored 0] := by
  have only : listLogFiles bootBase bootAuditing.dir = bootAuditing.dir := by
    rw [listLogFiles_plain bootBase_plain]
    exact mergeSort_singleton _
  have noErr : scanErr maxLineSize (bootLine 0 ++ [newline]) = false := by
    have none := @scanErr_ofLines maxLineSize [bootLine 0]
      (forall_mem_singleton.mpr (oneLine_bootLine 0).1)
      (forall_mem_singleton.mpr (Nat.lt_trans (length_bootLine 0).2 (by decide)))
    rwa [ofLines, flatMap_singleton] at none
  unfold gathered queryFile
  rw [only, bootAuditing, flatMap_singleton, if_pos rfl]
  dsimp only
  rw [noErr, scanLines_boot, filterMap_cons_some (unmarshal_bootLine 0)]
  rfl

/-- The one event of the start is on every page, so no page is empty. -/
theorem offset_past_end_never_empty :
    ¬ PagesCorrectly bootJson (mergeSlice (AuditEvent Bytes)) bootBase
      (fun _ => true) bootAuditing.dir everyEvent 1 := by
  rintro ⟨n, empty, -⟩
  have nothing := page_eq_nil.mp empty
  simp [gathered_boot] at nothing

end Boot

end Unheaded.Audit
