import Unheaded.Storage.WalReopen

/-!
# A log whose last file was cut

A crash leaves the beginning of the newest segment file.
-/

namespace Unheaded.Storage

open Lib List Storage.Part SegmentFile

/-! ## Cut files -/

/-- The entries that lie in the first `c` bytes. -/
def complete : Nat → List Entry → List Entry
  | _, [] => []
  | c, e :: es =>
    if (encodeEntry e.sequence e.data).length ≤ c then
      e :: complete (c - (encodeEntry e.sequence e.data).length) es
    else []

def AtBoundary (c : Nat) (es : List Entry) : Prop := (encodeAll (complete c es)).length = c

theorem complete_prefix (c : Nat) (es : List Entry) : complete c es <+: es := by
  induction es generalizing c with
  | nil => exact prefix_rfl
  | cons e es ih =>
    rw [complete]
    split
    · exact (prefix_cons_inj e).mpr (ih _)
    · exact nil_prefix

theorem take_encodeAll {c : Nat} {es : List Entry} (inside : c ≤ (encodeAll es).length) :
    (AtBoundary c es ∧ (encodeAll es).take c = encodeAll (complete c es)) ∨
      (¬ AtBoundary c es ∧ ∃ e ∈ es, ∃ k, 0 < k ∧ k < (encodeEntry e.sequence e.data).length ∧
        (encodeAll es).take c =
          encodeAll (complete c es) ++ (encodeEntry e.sequence e.data).take k) := by
  induction es generalizing c with
  | nil =>
    rw [encodeAll_nil, length_nil, Nat.le_zero] at inside
    subst inside
    exact Or.inl ⟨rfl, rfl⟩
  | cons e es ih =>
    rw [encodeAll_cons, length_append] at inside
    unfold AtBoundary at ih ⊢
    rw [encodeAll_cons, complete]
    by_cases whole : (encodeEntry e.sequence e.data).length ≤ c
    · rw [if_pos whole, encodeAll_cons, length_append, take_append, take_of_length_le whole]
      rcases ih (c := c - (encodeEntry e.sequence e.data).length) (by omega) with
        ⟨boundary, taken⟩ | ⟨middle, f, mem, k, pos, short, taken⟩
      · exact Or.inl ⟨by omega, by rw [taken]⟩
      · refine Or.inr ⟨by omega, f, mem_cons_of_mem e mem, k, pos, short, ?_⟩
        rw [taken, append_assoc]
    · rw [if_neg whole, take_append_of_le_length (Nat.le_of_lt (Nat.not_le.mp whole))]
      by_cases start : c = 0
      · subst start
        exact Or.inl ⟨rfl, rfl⟩
      · exact Or.inr ⟨Ne.symm start, e, mem_cons_self, c, Nat.pos_of_ne_zero start,
          Nat.not_le.mp whole, rfl⟩

theorem forEntries_partial {e : Entry} (small : e.Small) {k : Nat} (pos : 0 < k)
    (short : k < (encodeEntry e.sequence e.data).length) {r : Reader Byte}
    (pending : r.pending = (encodeEntry e.sequence e.data).take k) (turns : Nat) (s : Sequences) :
    ∃ err, (forEntries sequencesStep (.ok : Sequences → Except WalError Sequences)
      (fun _ => .error) (turns + 1) s r).1 = .error err := by
  have length : r.pending.length = k := by
    rw [pending, length_take, Nat.min_eq_left (Nat.le_of_lt short)]
  rw [length_encodeEntry] at short
  by_cases header : k < entryHeaderSize
  · have out := readHeader_fst r
    rw [if_neg (by omega), if_pos (by omega)] at out
    rw [forEntries]
    generalize readHeader r = first at out
    obtain ⟨found, r'⟩ := first
    cases out
    exact ⟨_, rfl⟩
  · rw [encodeEntry_eq, take_append, length_headerBytes,
      take_of_length_le (by rw [length_headerBytes]; omega)] at pending
    obtain ⟨r₁, left, turn⟩ := forEntries_header sequencesStep
      (.ok : Sequences → Except WalError Sequences) (fun _ => .error) pending turns s
    have dropped := discardBody_fst e.data.length r₁
    rw [left.pending, length_take, if_pos (by omega)] at dropped
    rw [turn, small.mod]
    unfold sequencesStep
    generalize discardBody e.data.length r₁ = second at dropped
    obtain ⟨out, r₂⟩ := second
    cases dropped
    exact ⟨_, rfl⟩

theorem broken_cut {es : List Entry} {e : Entry} (smalls : ∀ f ∈ es, f.Small) (small : e.Small)
    {k : Nat} (pos : 0 < k) (short : k < (encodeEntry e.sequence e.data).length)
    (name : List Char) : Broken ⟨name, encodeAll es ++ (encodeEntry e.sequence e.data).take k⟩ := by
  have some : (encodeAll es ++ (encodeEntry e.sequence e.data).take k).length ≠ 0 := by
    rw [length_append, length_take]
    omega
  have turns : (encodeAll es ++ (encodeEntry e.sequence e.data).take k).length + 1 =
      es.length + ((encodeAll es).length - es.length + k + 1) := by
    have bound := length_le_encodeAll es
    rw [length_append, length_take]
    omega
  have whole : (⟨.start (encodeAll es ++ (encodeEntry e.sequence e.data).take k), []⟩ :
      Reader Byte).pending = encodeAll es ++ (encodeEntry e.sequence e.data).take k :=
    Reader.pending_start _
  obtain ⟨r, read, left⟩ := forEntries_entries sequencesStep
    (.ok : Sequences → Except WalError Sequences) (fun _ => .error) smalls
    (fun f _ s => takes_sequencesStep f s) whole ((encodeAll es).length - es.length + k + 1) {}
  obtain ⟨err, failed⟩ := forEntries_partial small pos short left.pending
    ((encodeAll es).length - es.length + k) (es.foldl Sequences.next {})
  intro syncWrites
  refine ⟨err, ?_⟩
  have scanned : scanSequences (encodeAll es ++ (encodeEntry e.sequence e.data).take k) =
      .error err := by
    rw [scanSequences, if_neg some, turns, read]
    exact failed
  rw [openSegment, scanned]

/-! ## What an open log returns -/

namespace Wal

/-- `Read` and `Scan` give all these entries. -/
structure Returns (w : Wal) (es : List Entry) : Prop where
  read : ∀ e ∈ es, (w.read e.sequence).1 = .ok e.data
  scan : (w.scan 0 fun _ => none).1.error = none
  visited : ∀ e ∈ es, e ∈ (w.scan 0 fun _ => none).1.visited

def Open (s : Segment) (p : Part) : Prop := s.closed = false ∧ s.Holds p ∧ p.Small

section

variable {segments : List Segment} {parts : List Part} (held : List.Forall₂ Open segments parts)
include held

theorem scanSegments_parts (visited : List Entry) :
    (scanSegments 0 (fun _ => none) segments visited).1 = ⟨visited ++ entriesOf parts, none⟩ := by
  induction held generalizing visited with
  | nil => exact congrArg (Scanned.mk · none) (append_nil visited).symm
  | cons first rest ih =>
    obtain ⟨opened, holds, small⟩ := first
    have scanned := (Segment.scan_stored opened holds.content small).1
    rw [scanSegments]
    generalize Segment.scan _ _ _ = result at scanned
    obtain ⟨out, s'⟩ := result
    cases scanned
    rw [ih, append_assoc]
    rfl

theorem readSegments_parts {e : Entry} (mem : e ∈ entriesOf parts)
    (unique : ∀ f ∈ entriesOf parts, f.sequence = e.sequence → f = e) :
    (readSegments e.sequence segments).1 = .ok e.data := by
  induction held with
  | nil => cases mem
  | @cons s p segments parts first rest ih =>
    obtain ⟨opened, holds, small⟩ := first
    by_cases here : e ∈ p.entries
    · obtain ⟨before, after, parted, fresh⟩ := eq_append_cons_of_mem here
      have others : ∀ f ∈ before, f.sequence ≠ e.sequence := by
        intro f inside same
        have inPart : f ∈ p.entries := by
          rw [parted]
          exact mem_append_left _ inside
        have equal := unique f (mem_append_left _ inPart) same
        rw [equal] at inside
        exact fresh inside
      have found := Segment.read_stored opened (holds.content.trans (congrArg encodeAll parted))
        (fun f inside => by
          refine small f ?_
          rw [parted]
          rcases mem_append.mp inside with earlier | same
          · exact mem_append_left _ earlier
          · rw [mem_singleton.mp same]
            exact mem_append_right _ mem_cons_self) others
      rw [readSegments_found (by rw [found]; intro same; cases same), found]
    · have missing := @Segment.read_missing s p.entries e.sequence opened holds.content small (by
        intro f inside same
        have equal := unique f (mem_append_left _ inside) same
        rw [equal] at inside
        exact here inside)
      rw [readSegments_missing missing]
      exact ih ((mem_append.mp mem).resolve_left here)
        fun f inside => unique f (mem_append_right _ inside)

end

theorem mem_entriesOf_reverse {parts : List Part} {e : Entry} :
    e ∈ entriesOf parts.reverse ↔ e ∈ entriesOf parts := by
  unfold entriesOf
  rw [mem_flatMap, mem_flatMap]
  simp only [mem_reverse]

theorem Holding.returns {w : Wal} {older : List Part} {last : Part} (holding : w.Holding older last)
    (readable : w.Readable) (small : ∀ p ∈ older ++ [last], p.Small) {es : List Entry}
    (stored : ∀ e ∈ es, e ∈ entriesOf (older ++ [last]))
    (unique : ∀ e ∈ es, ∀ f ∈ entriesOf (older ++ [last]), f.sequence = e.sequence → f = e) :
    w.Returns es ∧ (w.scan 0 fun _ => none).1.visited = entriesOf (older ++ [last]) := by
  have held : List.Forall₂ Open w.segments (older ++ [last]) := by
    refine rel_append ?_ (.cons ⟨holding.current.opened, ⟨holding.path,
      holding.current.content⟩, small last (mem_append_right _ mem_cons_self)⟩ .nil)
    have related := holding.older
    have smalls : ∀ p ∈ older, p.Small := fun p mem => small p (mem_append_left _ mem)
    unfold Readable at readable
    generalize w.older = segments at related readable
    clear holding stored unique small
    induction related with
    | nil => exact .nil
    | cons first rest ih =>
      exact .cons ⟨readable _ mem_cons_self, first, smalls _ mem_cons_self⟩
        (ih (fun p mem => smalls p (mem_cons_of_mem _ mem))
          fun s mem => readable s (mem_cons_of_mem _ mem))
  have scanned : (w.scan 0 fun _ => none).1 = ⟨entriesOf (older ++ [last]), none⟩ := by
    rw [Wal.scan, if_neg (Bool.eq_false_iff.mp holding.opened)]
    exact scanSegments_parts held []
  refine ⟨⟨fun e mem => ?_, by rw [scanned], fun e mem => by rw [scanned]; exact stored e mem⟩,
    by rw [scanned]⟩
  rw [Wal.read, if_neg (Bool.eq_false_iff.mp holding.opened)]
  refine readSegments_parts (rel_reverse held) (mem_entriesOf_reverse.mpr (stored e mem)) ?_
  intro f inside
  exact unique e mem f (mem_entriesOf_reverse.mp inside)

/-! ## Directories with a broken file -/

theorem Laid.names {dir bad : List SegmentFile} {front back : List Part}
    (laid : Laid dir front bad back) :
    ((front.map file ++ bad ++ back.map file).map SegmentFile.name).Pairwise
        (fun a b => nameLe a b = true ∧ a ≠ b) ∧
      ∀ n ∈ (front.map file ++ bad ++ back.map file).map SegmentFile.name,
        SEGMENT_SUFFIX.isSuffixOf n = true := by
  refine ⟨pairwise_map.mpr laid.ascending, fun n mem => ?_⟩
  obtain ⟨f, inside, rfl⟩ := mem_map.mp mem
  exact laid.wal f (laid.perm.mem_iff.mpr inside)

theorem laid_of_names {bad : List SegmentFile} {front back : List Part}
    (ascending : ((front.map file ++ bad ++ back.map file).map SegmentFile.name).Pairwise
      (fun a b => nameLe a b = true ∧ a ≠ b))
    (wal : ∀ n ∈ (front.map file ++ bad ++ back.map file).map SegmentFile.name,
      SEGMENT_SUFFIX.isSuffixOf n = true)
    (small : ∀ p ∈ front ++ back, p.Small) (broken : ∀ f ∈ bad, Broken f) :
    Laid (bad ++ (front ++ back).map file) front bad back := by
  have perm : (bad ++ (front ++ back).map file).Perm
      (front.map file ++ bad ++ back.map file) := by
    rw [map_append, ← append_assoc]
    exact perm_append_comm.append_right _
  have ordered := pairwise_map.mp ascending
  refine ⟨perm, ordered, fun f mem => ?_, small, broken⟩
  exact wal f.name (mem_map_of_mem (perm.mem_iff.mp mem))

theorem Laid.relist {dir bad : List SegmentFile} {front back : List Part}
    (laid : Laid dir front bad back) : Laid (bad ++ (front ++ back).map file) front bad back :=
  laid_of_names laid.names.1 laid.names.2 laid.small laid.broken

theorem Laid.replace {dir bad : List SegmentFile} {front back older : List Part} {last last' : Part}
    (laid : Laid dir front bad back) (parts : front ++ back = older ++ [last])
    (name : last'.name = last.name) (small : last'.Small) :
    ∃ front' back', front' ++ back' = older ++ [last'] ∧
      Laid (bad ++ (older ++ [last']).map file) front' bad back' := by
  obtain ⟨ascending, wal⟩ := laid.names
  have smalls : ∀ p ∈ older ++ [last'], p.Small := by
    intro p mem
    rcases mem_append.mp mem with earlier | same
    · exact laid.small p (by rw [parts]; exact mem_append_left _ earlier)
    · rw [mem_singleton.mp same]
      exact small
  have broken := laid.broken
  cases back using reverseRecOn with
  | nil =>
    rw [append_nil] at parts
    subst parts
    refine ⟨older ++ [last'], [], append_nil _, ?_⟩
    have same : ((older ++ [last']).map file ++ bad ++ ([] : List Part).map file).map
        SegmentFile.name = ((older ++ [last]).map file ++ bad ++
          ([] : List Part).map file).map SegmentFile.name := by
      simp only [map_append, map_cons]
      rw [show last'.file.name = last.file.name from name]
    rw [← same] at ascending wal
    have laid := laid_of_names ascending wal (by rw [append_nil]; exact smalls) broken
    rwa [append_nil] at laid
  | append_singleton back x _ =>
    rw [← append_assoc] at parts
    obtain ⟨rfl, single⟩ := append_inj' parts rfl
    cases single
    refine ⟨front, back ++ [last'], by rw [← append_assoc], ?_⟩
    have same : (front.map file ++ bad ++ (back ++ [last']).map file).map
        SegmentFile.name = (front.map file ++ bad ++ (back ++ [last]).map file).map
          SegmentFile.name := by
      simp only [map_append, map_cons, map_nil]
      rw [show last'.file.name = last.file.name from name]
    rw [← same] at ascending wal
    have laid := laid_of_names ascending wal (by rw [← append_assoc]; exact smalls) broken
    rwa [← append_assoc] at laid

theorem Laid.extend {dir bad : List SegmentFile} {front back : List Part} {p : Part}
    (laid : Laid dir front bad back) (later : ∀ f ∈ dir, f.Before p.file)
    (wal : SEGMENT_SUFFIX.isSuffixOf p.name = true) (small : p.Small) :
    Laid (bad ++ (front ++ back ++ [p]).map file) front bad (back ++ [p]) := by
  obtain ⟨ascending, suffixes⟩ := laid.names
  have names : (front.map file ++ bad ++ (back ++ [p]).map file).map SegmentFile.name =
      (front.map file ++ bad ++ back.map file).map SegmentFile.name ++ [p.name] := by
    simp only [map_append, append_assoc]
    rfl
  rw [append_assoc]
  refine laid_of_names ?_ ?_ ?_ laid.broken
  · rw [names, pairwise_append]
    refine ⟨ascending, pairwise_singleton _ _, fun n mem m last => ?_⟩
    obtain ⟨f, inside, rfl⟩ := mem_map.mp mem
    rw [mem_singleton.mp last]
    exact later f (laid.perm.mem_iff.mpr inside)
  · rw [names]
    intro n mem
    rcases mem_append.mp mem with earlier | last
    · exact suffixes n earlier
    · rw [mem_singleton.mp last]
      exact wal
  · intro q mem
    rw [← append_assoc] at mem
    rcases mem_append.mp mem with earlier | last
    · exact laid.small q earlier
    · rw [mem_singleton.mp last]
      exact small

theorem Holding.written {w : Wal} {older front back : List Part} {last : Part} {bad : List SegmentFile}
    (holding : w.Holding older last) (skipped : w.skipped = bad) (laid : Laid w.files front bad back)
    (parts : front ++ back = older ++ [last]) {data : List Byte} {now : Int}
    (later : w.Full → Later now w.files) (short : data.length < 2 ^ 32) :
    ∃ front' back' older' last', front' ++ back' = older' ++ [last'] ∧
      Laid (w.write data now).2.files front' bad back' ∧
      entriesOf (older' ++ [last']) = entriesOf (older ++ [last]) ++ [w.nextEntry data] ∧
      (last'.entries = last.entries ++ [w.nextEntry data] ∨ last'.entries = [w.nextEntry data]) := by
  have files := holding.files
  by_cases full : w.Full
  · have after := later full
    have skips : Later now w.skipped := by
      intro f mem
      exact after f (by rw [files]; exact mem_append_left _ mem)
    obtain ⟨holding', skipped', -⟩ := holding.rotate full data skips
    have small : (⟨segmentName now, [w.nextEntry data]⟩ : Part).Small := by
      intro e inside
      rw [mem_singleton.mp inside]
      exact short
    have extended := @Laid.extend _ _ _ _ ⟨segmentName now, [w.nextEntry data]⟩ laid
      (fun f mem => after f mem) (suffix_segmentName now) small
    refine ⟨front, back ++ [⟨segmentName now, [w.nextEntry data]⟩], older ++ [last],
      ⟨segmentName now, [w.nextEntry data]⟩, by rw [← append_assoc, parts], ?_, ?_, Or.inr rfl⟩
    · rw [holding'.files, skipped', skipped, ← parts]
      exact extended
    · rw [entriesOf_append _ [_], entriesOf_singleton]
  · obtain ⟨holding', skipped', -⟩ := holding.write full data now
    have smalls : (⟨last.name, last.entries ++ [w.nextEntry data]⟩ : Part).Small := by
      intro e inside
      rcases mem_append.mp inside with old | one
      · exact laid.small last (by rw [parts]; exact mem_append_right _ mem_cons_self) e old
      · rw [mem_singleton.mp one]
        exact short
    obtain ⟨front', back', parts', laid'⟩ := @Laid.replace _ _ _ _ _ _
      ⟨last.name, last.entries ++ [w.nextEntry data]⟩ laid parts rfl smalls
    refine ⟨front', back', older, _, parts', ?_, ?_, Or.inl rfl⟩
    · rw [holding'.files, skipped', skipped]
      exact laid'
    · rw [entriesOf_append, entriesOf_singleton, entriesOf_append, entriesOf_singleton,
        append_assoc]

/-! ## Recovery -/

/-- `New` succeeds and returns the entries, and so does the next `New` after one
more write. -/
def Recovers (cfg : Config) (dir : List SegmentFile) (now : Int) (es : List Entry) : Prop :=
  ∃ w, Wal.new cfg dir now = .ok w ∧ w.Returns es ∧
    ∀ (data : List Byte) (now' : Int), (w.Full → Later now' w.files) → data.length < 2 ^ 32 →
      ∀ (cfg' : Config) (now'' : Int),
        ∃ w', Wal.new cfg' (w.write data now').2.close.files now'' = .ok w' ∧ w'.Returns es

/-- The entries have numbers of their own among `all`. -/
def Unique (es all : List Entry) : Prop := ∀ e ∈ es, ∀ f ∈ all, f.sequence = e.sequence → f = e

theorem Holding.recovers {w : Wal} {older front back : List Part} {last : Part}
    {bad : List SegmentFile} (holding : w.Holding older last) (skipped : w.skipped = bad)
    (laid : Laid w.files front bad back) (parts : front ++ back = older ++ [last]) {es : List Entry}
    (stored : ∀ e ∈ es, e ∈ entriesOf (older ++ [last])) (unique : Unique es (entriesOf (older ++ [last])))
    (fresh : ∀ e ∈ es, w.sequence + 1 ≠ e.sequence) {data : List Byte} {now : Int}
    (later : w.Full → Later now w.files) (short : data.length < 2 ^ 32) (cfg : Config) (now' : Int) :
    ∃ w', Wal.new cfg (w.write data now).2.close.files now' = .ok w' ∧ w'.Returns es := by
  obtain ⟨front', back', older', last', parts', laid', entries, -⟩ :=
    holding.written skipped laid parts later short
  rw [files_close]
  obtain ⟨w', opened, holding', readable, -, -⟩ := new_some laid' parts' cfg now'
  refine ⟨w', opened, (holding'.returns readable (by rw [← parts']; exact laid'.small) ?_ ?_).1⟩
  · intro e mem
    rw [entries]
    exact mem_append_left _ (stored e mem)
  · intro e mem f inside same
    rw [entries] at inside
    rcases mem_append.mp inside with old | new
    · exact unique e mem f old same
    · rw [mem_singleton.mp new] at same
      exact absurd same (fresh e mem)

theorem recovers_of_laid {dir bad : List SegmentFile} {front back older : List Part} {last : Part}
    (laid : Laid dir front bad back) (parts : front ++ back = older ++ [last]) {es : List Entry}
    (stored : ∀ e ∈ es, e ∈ entriesOf (older ++ [last])) (unique : Unique es (entriesOf (older ++ [last])))
    (fresh : ∀ e ∈ es, lastSequence last.entries + 1 ≠ e.sequence) (cfg : Config) (now : Int) :
    Recovers cfg dir now es := by
  obtain ⟨w, opened, holding, readable, skipped, sequence⟩ := new_some laid parts cfg now
  have files : w.files = bad ++ (front ++ back).map file := by
    rw [holding.files, skipped, parts]
  refine ⟨w, opened, (holding.returns readable (by rw [← parts]; exact laid.small) stored unique).1, ?_⟩
  intro data now' later short cfg' now''
  exact holding.recovers skipped (by rw [files]; exact laid.relist) parts stored unique
    (by rw [sequence]; exact fresh) later short cfg' now''

theorem recovers_none {dir bad : List SegmentFile} (laid : Laid dir [] bad []) {now : Int}
    (later : Later now dir) (cfg : Config) : Recovers cfg dir now [] := by
  have same : dir.Perm bad := by
    have perm := laid.perm
    rwa [map_nil, nil_append, append_nil] at perm
  have skipped : (create cfg [] 0 bad now).skipped = bad :=
    create_skipped fun f mem => later f (same.mem_iff.mpr mem)
  have holding : (create cfg [] 0 bad now).Holding [] ⟨segmentName now, []⟩ :=
    ⟨rfl, .nil, Segment.stores_createSegment _ _, rfl⟩
  have small : (⟨segmentName now, []⟩ : Part).Small := fun e mem => by cases mem
  have extended := @Laid.extend _ _ _ _ ⟨segmentName now, []⟩ laid (fun f mem => later f mem)
    (suffix_segmentName now) small
  have files : (create cfg [] 0 bad now).files =
      bad ++ ([] ++ [] ++ [(⟨segmentName now, []⟩ : Part)]).map file := by
    rw [holding.files, skipped]
    rfl
  rw [← files] at extended
  refine ⟨_, new_none laid cfg now, (holding.returns (fun s mem => by cases mem) ?_ ?_ ?_).1, ?_⟩
  · intro p mem
    rw [mem_singleton.mp mem]
    exact small
  · intro e mem
    cases mem
  · intro e mem
    cases mem
  · intro data now' later' short cfg' now''
    exact holding.recovers skipped extended rfl (fun e mem => by cases mem)
      (fun e mem => by cases mem) (fun e mem => by cases mem) later' short cfg' now''

theorem unique_of_ascends {es : List Entry}
    (ascends : es.Pairwise fun e f => e.sequence < f.sequence) : Unique es es := by
  have apart : es.Pairwise fun e f => e.sequence ≠ f.sequence := ascends.imp fun below same => by
      rw [same] at below
      exact BitVec.lt_irrefl _ below
  have : Std.Symm fun e f : Entry => e.sequence ≠ f.sequence :=
    ⟨fun _ _ apart equal => apart equal.symm⟩
  intro e mem f inside same
  by_contra other
  exact apart.forall inside mem other same

theorem next_fresh {es fs : List Entry} (some : fs ≠ [])
    (ascends : (es ++ fs).Pairwise fun e f => e.sequence < f.sequence)
    (pos : ∀ e ∈ es ++ fs, 0 < e.sequence) : ∀ e ∈ es ++ fs, lastSequence fs + 1 ≠ e.sequence := by
  obtain ⟨front, x, joined⟩ := eq_nil_or_concat fs |>.resolve_left some
  rw [concat_eq_append] at joined
  subst joined
  have last : lastSequence (front ++ [x]) = x.sequence := by
    rw [lastSequence, getLast?_concat]
    rfl
  rw [last]
  rw [← append_assoc] at ascends pos ⊢
  have most : ∀ e ∈ es ++ front ++ [x], e.sequence.toNat ≤ x.sequence.toNat := by
    intro e mem
    rcases mem_append.mp mem with earlier | same
    · have below := (pairwise_append.mp ascends).2.2 e earlier x (mem_singleton.mpr rfl)
      exact Nat.le_of_lt below
    · rw [mem_singleton.mp same]
  intro e mem same
  have bound := most e mem
  have least : 0 < e.sequence.toNat := pos e mem
  have one : (1 : Seq).toNat = 1 := rfl
  rw [← same, BitVec.toNat_add] at bound least
  omega

def CutOk (c : Nat) (older newest : List Entry) : Prop :=
  (complete c newest ≠ [] ∧ AtBoundary c newest) ∨ (complete c newest = [] ∧ (0 < c ∨ older = []))

theorem not_recovers_skipped {dir bad : List SegmentFile} {older : List Part}
    (laid : Laid dir older bad []) {es : List Entry} {e : Entry} (mem : e ∈ es)
    (missing : e ∉ entriesOf older) (cfg : Config) (now : Int) : ¬ Recovers cfg dir now es := by
  rintro ⟨w, opened, returns, -⟩
  have seen := returns.visited e mem
  cases older using reverseRecOn with
  | nil =>
    rw [new_none laid cfg now] at opened
    cases opened
    cases seen
  | append_singleton older last _ =>
    obtain ⟨w', found, holding, readable, -⟩ := new_some laid (append_nil _) cfg now
    rw [opened] at found
    cases found
    have visited := (holding.returns readable (by
      have small := laid.small
      rwa [append_nil] at small) (fun e (mem : e ∈ ([] : List Entry)) => by cases mem)
      (fun e mem => by cases mem)).2
    rw [visited] at seen
    exact missing seen

/-- An empty newest file starts the numbers again, and the next write hides the
first entry. -/
theorem not_recovers_emptied {front back older : List Part} {last : Part} {dir : List SegmentFile}
    (laid : Laid dir front [] back) (parts : front ++ back = older ++ [last])
    (emptied : last.entries = []) {es : List Entry} {d : List Byte} (first : ⟨1, d⟩ ∈ es)
    (cfg : Config) {now now' : Int}
    (later : ∀ f ∈ dir, f.Before ⟨segmentName now', []⟩) : ¬ Recovers cfg dir now es := by
  rintro ⟨w, opened, -, again⟩
  obtain ⟨w', found, holding, -, skipped, sequence⟩ := new_some laid parts cfg now
  rw [opened] at found
  cases found
  have files : w.files = (front ++ back).map file := by
    rw [holding.files, skipped, parts]
    rfl
  have perm : dir.Perm w.files := by
    have same := laid.perm
    rwa [append_nil, ← map_append, ← files] at same
  have relaid := laid.relist
  rw [← files] at relaid
  have one : w.sequence + 1 = 1 := by
    rw [sequence, emptied]
    rfl
  have clock : w.Full → Later now' w.files := fun _ f mem => later f (perm.mem_iff.mpr mem)
  -- data that the first entry does not have
  obtain ⟨data, short, other⟩ : ∃ data : List Byte, data.length < 2 ^ 32 ∧ data ≠ d := by
    by_cases none : d = []
    · exact ⟨[0], by decide, by rw [none]; decide⟩
    · exact ⟨[], by decide, Ne.symm none⟩
  obtain ⟨front', back', older', last', parts', laid', -, entries⟩ :=
    holding.written skipped relaid parts clock short
  obtain ⟨w'', opened', returns⟩ := again data now' clock short cfg now
  obtain ⟨w₃, found', holding', -⟩ := new_some laid' parts' cfg now
  rw [files_close, found'] at opened'
  cases opened'
  have read := returns.read ⟨1, d⟩ first
  have only : last'.entries = [] ++ [⟨1, data⟩] := by
    have next : w.nextEntry data = ⟨1, data⟩ := congrArg (Entry.mk · data) one
    rcases entries with appended | alone
    · rw [appended, emptied, next]
    · rw [alone, next]
      rfl
  have small : ∀ f ∈ ([] : List Entry) ++ [⟨1, data⟩], f.Small := by
    intro f mem
    rw [mem_singleton.mp mem]
    exact short
  have found := Segment.read_stored (e := ⟨1, data⟩) holding'.current.opened
    (holding'.current.content.trans (congrArg encodeAll only)) small (fun f mem => by cases mem)
  unfold Wal.read segments at read
  rw [if_neg (Bool.eq_false_iff.mp holding'.opened), reverse_append] at read
  change (readSegments 1 (w''.current :: w''.older.reverse)).1 = _ at read
  rw [readSegments_found (by rw [found]; intro same; cases same), found] at read
  cases read
  exact other rfl

theorem Laid.cut {older : List Part} {last : Part} {content : List Byte}
    (laid : Laid ((older ++ [last]).map file) (older ++ [last]) [] [])
    (broken : Broken ⟨last.name, content⟩) :
    Laid (older.map file ++ [⟨last.name, content⟩]) older [⟨last.name, content⟩] [] := by
  obtain ⟨ascending, wal⟩ := laid.names
  have same : ((older ++ [last]).map file ++ [] ++ ([] : List Part).map file).map
      SegmentFile.name = (older.map file ++ [(⟨last.name, content⟩ : SegmentFile)] ++
        ([] : List Part).map file).map SegmentFile.name := by
    simp only [map_append, append_nil]
    rfl
  rw [same] at ascending wal
  have laid' := laid_of_names ascending wal (fun p mem => laid.small p (by
    rw [append_nil] at mem ⊢
    exact mem_append_left _ mem)) (by
    intro f mem
    rw [mem_singleton.mp mem]
    exact broken)
  refine ⟨?_, laid'.ascending, fun f mem => ?_, laid'.small, laid'.broken⟩
  · rw [map_nil, append_nil]
  · refine laid'.wal f ?_
    rw [append_nil]
    exact perm_append_comm.mem_iff.mp mem

theorem fresh_of_dense {older : List Part} {last : Part}
    (dense : ∀ p ∈ (older ++ [last]).tail, p.entries ≠ [])
    (ascends : (entriesOf (older ++ [last])).Pairwise fun e f => e.sequence < f.sequence)
    (pos : ∀ e ∈ entriesOf (older ++ [last]), 0 < e.sequence) :
    ∀ e ∈ entriesOf (older ++ [last]), lastSequence last.entries + 1 ≠ e.sequence := by
  by_cases none : last.entries = []
  · cases older with
    | nil =>
      intro e mem
      simp [nil_append, entriesOf_singleton, none] at mem
    | cons p older => exact absurd none (dense last (mem_append_right _ mem_cons_self))
  · rw [entriesOf_append, entriesOf_singleton] at ascends pos ⊢
    exact next_fresh none ascends pos

/-! ## A cut newest file -/

section Cut

variable {older : List Part} {last : Part} {seq : Seq} {c : Nat} {now : Int}

section

variable (filed : Filed (older ++ [last]) seq)
include filed

theorem Filed.left_ascends (c : Nat) :
    ((entriesOf older ++ complete c last.entries).Pairwise fun e f => e.sequence < f.sequence) ∧
      ∀ e ∈ entriesOf older ++ complete c last.entries, 0 < e.sequence := by
  obtain ⟨ds, entries, bound, -⟩ := filed.numbers
  rw [entriesOf_append, entriesOf_singleton] at entries
  have zero : (0 : Seq).toNat = 0 := rfl
  obtain ⟨ascends, pos⟩ := @numbered_ascends 0 ds (by omega)
  have initial := complete_prefix c last.entries
  have sublist : (entriesOf older ++ complete c last.entries).Sublist (numbered 0 ds) := by
    rw [← entries]
    exact (List.Sublist.refl _).append initial.sublist
  exact ⟨ascends.sublist sublist, fun e mem => pos e (sublist.subset mem)⟩

theorem Filed.left_small (c : Nat) : ∀ e ∈ complete c last.entries, e.Small := by
  have initial := complete_prefix c last.entries
  intro e mem
  exact filed.small last (mem_append_right _ mem_cons_self) e (initial.subset mem)

theorem Filed.one_mem (some : entriesOf older ≠ []) : ∃ d, ⟨1, d⟩ ∈ entriesOf older := by
  obtain ⟨ds, entries, -, -⟩ := filed.numbers
  obtain ⟨x, xs, shape⟩ := exists_cons_of_ne_nil some
  rw [entriesOf_append, shape] at entries
  cases ds with
  | nil => cases entries
  | cons d ds =>
    refine ⟨d, ?_⟩
    rw [shape, (cons.inj entries).1]
    exact mem_cons_self

end

theorem Later.cut (later : Later now (older.map file ++ [last.file])) (content : List Byte) :
    Later now (older.map file ++ [⟨last.name, content⟩]) := by
  intro g mem
  rcases mem_append.mp mem with earlier | cutFile
  · exact later g (mem_append_left _ earlier)
  · rw [mem_singleton.mp cutFile]
    exact later last.file (mem_append_right _ mem_cons_self)

theorem cutOk_of_boundary {older newest : List Entry} (boundary : AtBoundary c newest) :
    CutOk c older newest ↔ complete c newest ≠ [] ∨ older = [] := by
  by_cases none : complete c newest = []
  · have start : c = 0 := by
      have length : (encodeAll (complete c newest)).length = c := boundary
      rw [none] at length
      exact length.symm
    subst start
    simp [CutOk, none]
  · simp [CutOk, none, boundary]

theorem cutOk_of_middle {older newest : List Entry} (middle : ¬ AtBoundary c newest) :
    CutOk c older newest ↔ complete c newest = [] := by
  by_cases none : complete c newest = []
  · have cut : 0 < c := by
      have length : (encodeAll (complete c newest)).length ≠ c := middle
      rw [none] at length
      exact Nat.pos_of_ne_zero (Ne.symm length)
    simp [CutOk, none, cut]
  · simp [CutOk, none, middle]

theorem Filed.recovers_boundary_iff (filed : Filed (older ++ [last]) seq)
    (later : Later now (older.map file ++ [last.file])) (cfg : Config) :
    Recovers cfg (older.map file ++ [⟨last.name, encodeAll (complete c last.entries)⟩]) now
        (entriesOf older ++ complete c last.entries) ↔
      complete c last.entries ≠ [] ∨ entriesOf older = [] := by
  obtain ⟨ascends, pos⟩ := filed.left_ascends c
  obtain ⟨front, back, parts, laid⟩ := @Laid.replace _ _ _ _ _ _ ⟨last.name, complete c last.entries⟩
    filed.laid (append_nil _) rfl (filed.left_small c)
  rw [map_append] at laid
  have all : entriesOf (older ++ [⟨last.name, complete c last.entries⟩]) =
      entriesOf older ++ complete c last.entries := by
    rw [entriesOf_append, entriesOf_singleton]
  by_cases kept : complete c last.entries = []
  · by_cases empty : entriesOf older = []
    · refine iff_of_true ?_ (Or.inr empty)
      have nothing : entriesOf older ++ complete c last.entries = [] := by rw [empty, kept]; rfl
      rw [nothing]
      exact @recovers_of_laid _ _ _ _ _ _ laid parts [] (fun e mem => by cases mem)
        (fun e mem => by cases mem) (fun e mem => by cases mem) cfg now
    · refine iff_of_false ?_ (fun h => h.elim (fun more => more kept) empty)
      obtain ⟨d, first⟩ := filed.one_mem empty
      exact not_recovers_emptied laid parts kept (mem_append_left _ first) cfg (later.cut _)
  · refine iff_of_true ?_ (Or.inl kept)
    refine recovers_of_laid laid parts (fun e mem => by rw [all]; exact mem) ?_ ?_ cfg now
    · rw [all]
      exact unique_of_ascends ascends
    · exact next_fresh kept ascends pos

theorem Filed.recovers_middle_iff (filed : Filed (older ++ [last]) seq) {content : List Byte}
    (broken : Broken ⟨last.name, content⟩)
    (later : Later now (older.map file ++ [last.file])) (cfg : Config) :
    Recovers cfg (older.map file ++ [⟨last.name, content⟩]) now
        (entriesOf older ++ complete c last.entries) ↔ complete c last.entries = [] := by
  obtain ⟨ascends, pos⟩ := filed.left_ascends c
  have laid := filed.laid.cut broken
  by_cases kept : complete c last.entries = []
  · refine iff_of_true ?_ kept
    rw [kept, append_nil] at ascends pos ⊢
    cases older using reverseRecOn with
    | nil => exact recovers_none laid (later.cut content) cfg
    | append_singleton older previous _ =>
      refine recovers_of_laid laid (append_nil _) (fun e mem => mem)
        (unique_of_ascends ascends) (fresh_of_dense ?_ ascends pos) cfg now
      intro p mem
      refine filed.dense p ?_
      rw [tail_append_of_ne_nil (by simp)]
      exact mem_append_left _ mem
  · refine iff_of_false ?_ kept
    obtain ⟨x, xs, shape⟩ := exists_cons_of_ne_nil kept
    have inside : x ∈ complete c last.entries := by
      rw [shape]
      exact mem_cons_self
    refine not_recovers_skipped laid (mem_append_right _ inside) ?_ cfg now
    intro old
    have below := (pairwise_append.mp ascends).2.2 x old x inside
    exact BitVec.lt_irrefl _ below

end Cut

/-- A log that such a history has left, and whose newest file was then cut,
recovers exactly when the cut is a good one. -/
theorem cut_log_recovers_iff {init : List SegmentFile} {f : SegmentFile}
    (reached : Reached (.shut (init ++ [f]))) {c : Nat} (inside : c ≤ f.content.length) {now : Int}
    (later : Later now (init ++ [f])) (cfg : Config) :
    Recovers cfg (init ++ [⟨f.name, f.content.take c⟩]) now
        (init.flatMap SegmentFile.entries ++ complete c f.entries) ↔
      CutOk c (init.flatMap SegmentFile.entries) f.entries := by
  rcases reached.sound with none | ⟨older, last, seq, same, filed⟩
  · exact absurd none (by simp)
  rw [map_append] at same
  obtain ⟨rfl, single⟩ := append_inj' same rfl
  cases single
  have smallLast := filed.small last (mem_append_right _ mem_cons_self)
  have first : (older.map file).flatMap SegmentFile.entries = entriesOf older := by
    rw [flatMap_map]
    exact flatMap_congr fun p member =>
      entries_file (filed.small p (mem_append_left _ member))
  rw [first, entries_file smallLast]
  change Recovers cfg (older.map file ++ [⟨last.name, (encodeAll last.entries).take c⟩]) now _ ↔ _
  rcases take_encodeAll inside with ⟨boundary, taken⟩ | ⟨middle, e, member, k, some, short, taken⟩
  · rw [taken, cutOk_of_boundary boundary]
    exact filed.recovers_boundary_iff later cfg
  · rw [taken, cutOk_of_middle middle]
    exact filed.recovers_middle_iff
      (broken_cut (filed.left_small c) (smallLast e member) some short last.name) later cfg

def paired : Wal := (((create ⟨64, true⟩ [] 0 [] 1).write [] 2).2.write [7] 3).2

theorem paired_reached : Reached (.shut ([] ++ [paired.current.close.toFile])) := by
  have before := Reached.write [] 2 (.new ⟨64, true⟩ 1 .start (new_nil _ _))
    (fun full => absurd full (by decide)) (by decide) (by decide)
  exact .close (.write [7] 3 before (fun full => absurd full (by decide +kernel)) (by decide)
    (by decide +kernel))

/-- Cut after its first entry, it recovers. -/
theorem paired_recovers : Recovers ⟨64, true⟩ ([] ++ [⟨paired.current.close.toFile.name,
      paired.current.close.toFile.content.take 16⟩]) 4
      ([] ++ complete 16 paired.current.close.toFile.entries) :=
  (cut_log_recovers_iff paired_reached (by decide +kernel) (by
    intro f member
    rw [mem_singleton.mp member]
    exact ⟨by decide +kernel, by decide +kernel⟩) ⟨64, true⟩).mpr
      (Or.inl ⟨by decide +kernel, by unfold AtBoundary; decide +kernel⟩)

/-- Cut in its second entry, it has lost the first. -/
theorem paired_loses_first : complete 20 paired.current.close.toFile.entries = [⟨1, []⟩] ∧
      ¬ Recovers ⟨64, true⟩ ([] ++ [⟨paired.current.close.toFile.name,
        paired.current.close.toFile.content.take 20⟩]) 4 [⟨1, []⟩] := by
  refine ⟨by decide +kernel, ?_⟩
  rintro ⟨w, opened, returns, -⟩
  cases opened
  have read := returns.read ⟨1, []⟩ mem_cons_self
  cases read

end Wal

end Unheaded.Storage
