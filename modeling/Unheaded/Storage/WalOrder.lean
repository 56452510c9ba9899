import Mathlib.Data.List.Flatten
import Unheaded.Storage.WalReopen

/-!
# Logs in order

A log whose numbers grow from segment to segment, and whose segments know their first and last
numbers.
-/

namespace Unheaded.Storage

open Lib List BitVec Segment

def Segment.entries (s : Segment) : List Entry := s.toFile.entries

def firstSequence (es : List Entry) : Seq := (es.head?.map Entry.sequence).getD 0

namespace Segment

/-- The segment holds whole entries and knows their first and last number. -/
structure Tidy (s : Segment) : Prop where
  content : s.flushed.content = encodeAll s.entries
  small : ∀ e ∈ s.entries, e.Small
  first : s.firstSeq = firstSequence s.entries
  last : s.lastSeq = Wal.lastSequence s.entries

variable {s s' : Segment}

theorem entries_of_content {es : List Entry} (content : s.flushed.content = encodeAll es)
    (small : ∀ e ∈ es, e.Small) : s.entries = es := by
  have file : s.toFile = Part.file ⟨s.path, es⟩ := by
    rw [toFile, Part.file, content]
  rw [entries, file]
  exact Part.entries_file small

theorem tidy_of (es : List Entry) (content : s.flushed.content = encodeAll es)
    (small : ∀ e ∈ es, e.Small) (first : s.firstSeq = firstSequence es)
    (last : s.lastSeq = Wal.lastSequence es) : s.Tidy := by
  have same := entries_of_content content small
  rw [← same] at content small first last
  exact ⟨content, small, first, last⟩

/-- The segments have the same path, bytes and numbers. -/
structure Alike (s s' : Segment) : Prop where
  path : s'.path = s.path
  content : s'.flushed.content = s.flushed.content
  firstSeq : s'.firstSeq = s.firstSeq
  lastSeq : s'.lastSeq = s.lastSeq

theorem alike_flush (s : Segment) : Alike s s.flush :=
  ⟨rfl, congrArg File.content (flushed_setFile s s.flushed), rfl, rfl⟩

theorem alike_close (s : Segment) : Alike s s.close := by
  unfold close
  split
  · exact ⟨rfl, rfl, rfl, rfl⟩
  · exact ⟨rfl, (alike_flush s).content, rfl, rfl⟩

theorem alike_sync (s : Segment) : Alike s s.sync := by
  unfold sync
  split
  · exact ⟨rfl, rfl, rfl, rfl⟩
  · exact alike_flush s

theorem Alike.entries_eq (alike : Alike s s') : s'.entries = s.entries := by
  have file : s'.toFile = s.toFile := by
    unfold toFile
    rw [alike.path, alike.content]
  unfold entries
  rw [file]

theorem Alike.tidy (alike : Alike s s') (tidy : s.Tidy) : s'.Tidy := by
  have same := alike.entries_eq
  refine ⟨?_, ?_, ?_, ?_⟩
  · rw [alike.content, same, tidy.content]
  · rw [same]
    exact tidy.small
  · rw [alike.firstSeq, same, tidy.first]
  · rw [alike.lastSeq, same, tidy.last]

theorem tidy_write (tidy : s.Tidy) (stores : s.Stores s.entries)
    (numbers : ∀ e ∈ s.entries, e.sequence ≠ 0) (seq : Seq) {data : List Byte}
    (short : data.length < 2 ^ 32) :
    (s.write seq data).2.Tidy ∧ (s.write seq data).2.entries = s.entries ++ [⟨seq, data⟩] := by
  obtain ⟨-, stored, -⟩ := stores.write seq data
  have small : ∀ e ∈ s.entries ++ [⟨seq, data⟩], e.Small := by
    intro e mem
    rcases mem_append.mp mem with old | new
    · exact tidy.small e old
    · rw [mem_singleton.mp new]
      exact short
  have fields : (s.write seq data).2.firstSeq = (if s.firstSeq = 0 then seq else s.firstSeq) ∧
      (s.write seq data).2.lastSeq = seq := by
    rw [write, if_neg (Bool.eq_false_iff.mp stores.opened)]
    dsimp only
    split <;> exact ⟨rfl, rfl⟩
  have first : (if s.firstSeq = 0 then seq else s.firstSeq) =
      firstSequence (s.entries ++ [⟨seq, data⟩]) := by
    rw [tidy.first]
    cases entries : s.entries with
    | nil => exact if_pos rfl
    | cons e es =>
      have pos : firstSequence (e :: es) ≠ 0 :=
        numbers e (by rw [entries]; exact mem_cons_self)
      rw [if_neg pos]
      rfl
  have last : seq = Wal.lastSequence (s.entries ++ [⟨seq, data⟩]) := by
    rw [Wal.lastSequence_append (cons_ne_nil _ _)]
    rfl
  exact ⟨tidy_of _ stored.content small (fields.1.trans first) (fields.2.trans last),
    entries_of_content stored.content small⟩

end Segment

namespace Wal

def RemovesBelow (w : Wal) (beforeSeq : Seq) : Prop :=
  ∀ s ∈ w.toRemove beforeSeq, ∀ e ∈ s.entries, e.sequence < beforeSeq

def entries (w : Wal) : List Entry := w.segments.flatMap Segment.entries

/-- An open log whose numbers grow from segment to segment. -/
structure InOrder (w : Wal) : Prop where
  opened : w.closed = false
  current : w.current.Stores w.current.entries
  tidy : ∀ s ∈ w.segments, s.Tidy
  ascending : w.entries.Pairwise fun e f => e.sequence < f.sequence
  numbers : ∀ e ∈ w.entries, e.sequence ≠ 0 ∧ e.sequence ≤ w.sequence
  names : (w.segments.map path).Nodup

theorem current_mem (w : Wal) : w.current ∈ w.segments := mem_append_right _ mem_cons_self

variable {w : Wal} {s : Segment} {e : Entry}

theorem mem_entries (mem : s ∈ w.segments) (inside : e ∈ s.entries) :
    e ∈ w.entries := mem_flatMap.mpr ⟨s, mem, inside⟩

theorem InOrder.writable (ordered : w.InOrder) : w.Writable :=
  ⟨ordered.opened, ordered.current.opened⟩

theorem le_lastSequence {es : List Entry}
    (ascending : es.Pairwise fun e f => e.sequence < f.sequence) (mem : e ∈ es) :
    e.sequence ≤ lastSequence es := by
  induction es using List.reverseRecOn with
  | nil => cases mem
  | append_singleton es f _ =>
    have last : lastSequence (es ++ [f]) = f.sequence := by
      rw [lastSequence_append (cons_ne_nil _ _)]
      rfl
    rw [last]
    rcases mem_append.mp mem with old | new
    · exact BitVec.le_of_lt ((pairwise_append.mp ascending).2.2 e old f mem_cons_self)
    · rw [mem_singleton.mp new]
      exact BitVec.le_refl _

theorem InOrder.ascending_segment (ordered : w.InOrder) (mem : s ∈ w.segments) :
    s.entries.Pairwise fun e f => e.sequence < f.sequence :=
  ordered.ascending.sublist (sublist_flatten_of_mem (List.mem_map_of_mem mem))

theorem InOrder.le_lastSeq (ordered : w.InOrder) (mem : s ∈ w.segments) (inside : e ∈ s.entries) :
    e.sequence ≤ s.lastSeq := by
  rw [(ordered.tidy s mem).last]
  exact le_lastSequence (ordered.ascending_segment mem) inside

theorem mem_of_toRemove {beforeSeq : Seq} (mem : s ∈ w.toRemove beforeSeq) :
    s ∈ w.segments ∧ s.lastSeq < beforeSeq := by
  obtain ⟨older, below⟩ := mem_filter.mp mem
  exact ⟨mem_append_left _ older, of_decide_eq_true below⟩

theorem InOrder.removesBelow (ordered : w.InOrder) (beforeSeq : Seq) :
    w.RemovesBelow beforeSeq := by
  intro s mem e inside
  obtain ⟨held, below⟩ := mem_of_toRemove mem
  have upto := ordered.le_lastSeq held inside
  exact Nat.lt_of_le_of_lt upto below

theorem truncate_eq (opened : w.closed = false) (beforeSeq : Seq) :
    (w.truncate beforeSeq).2 = { w with older := w.toKeep beforeSeq } := by
  rw [truncate, if_neg (Bool.eq_false_iff.mp opened)]

theorem segments_truncate (opened : w.closed = false) (beforeSeq : Seq) :
    (w.truncate beforeSeq).2.segments.Sublist w.segments := by
  rw [truncate_eq opened]
  exact filter_sublist.append (List.Sublist.refl _)

theorem InOrder.truncate (ordered : w.InOrder) (beforeSeq : Seq) :
    (w.truncate beforeSeq).2.InOrder := by
  have fewer := segments_truncate ordered.opened beforeSeq
  have sublist : (w.truncate beforeSeq).2.entries.Sublist w.entries := fewer.flatMap _
  have tidy : ∀ s ∈ (w.truncate beforeSeq).2.segments, s.Tidy := fun s mem =>
    ordered.tidy s (fewer.subset mem)
  have ascending := ordered.ascending.sublist sublist
  have names := ordered.names.sublist (fewer.map path)
  have numbers := fun e mem => ordered.numbers e (sublist.subset mem)
  rw [truncate_eq ordered.opened] at *
  exact ⟨ordered.opened, ordered.current, tidy, ascending, numbers, names⟩

theorem sync_eq (opened : w.closed = false) :
    w.sync = (none, { w with current := w.current.sync }) := by
  rw [sync, if_neg (Bool.eq_false_iff.mp opened)]

theorem entries_eq (w : Wal) : w.entries = w.older.flatMap Segment.entries ++ w.current.entries := by
  rw [entries, segments, flatMap_append, flatMap_singleton]

theorem InOrder.sync (ordered : w.InOrder) :
    ({ w with current := w.current.sync } : Wal).InOrder := by
  have alike := w.current.alike_sync
  have same := alike.entries_eq
  have all : ({ w with current := w.current.sync } : Wal).entries = w.entries := by
    rw [entries_eq, entries_eq, same]
  have flushed : w.current.sync = w.current.flush := by
    rw [Segment.sync, if_neg (Bool.eq_false_iff.mp ordered.current.opened)]
  have stores : w.current.sync.Stores w.current.sync.entries := by
    rw [same, flushed]
    refine ⟨ordered.current.opened, ?_, ?_, ordered.current.size⟩
    · exact (w.current.alike_flush).content.trans ordered.current.content
    · rw [flush, flushed_setFile]
      exact ordered.current.atEnd
  have names : ({ w with current := w.current.sync } : Wal).segments.map path =
      w.segments.map path := by
    unfold segments
    rw [map_append, map_append, map_singleton, map_singleton, alike.path]
  refine ⟨ordered.opened, stores, ?_, ?_, ?_, ?_⟩
  · intro s mem
    rcases mem_append.mp mem with older | last
    · exact ordered.tidy s (mem_append_left _ older)
    · rw [mem_singleton.mp last]
      exact alike.tidy (ordered.tidy _ w.current_mem)
  · rw [all]
    exact ordered.ascending
  · rw [all]
    exact ordered.numbers
  · rw [names]
    exact ordered.names

theorem toNat_succ {seq : Seq} (room : seq ≠ BitVec.allOnes 64) : (seq + 1).toNat = seq.toNat + 1 := by
  have one : (1 : Seq).toNat = 1 := rfl
  have below : seq.toNat ≠ 2 ^ 64 - 1 := by
    intro last
    exact room (eq_of_toNat_eq (last.trans toNat_allOnes.symm))
  rw [toNat_add]
  omega

/-- What a write makes of a log in order: one more entry, behind the others. -/
structure Extends (w : Wal) (data : List Byte) (w' : Wal) : Prop where
  sequence : w'.sequence = w.sequence + 1
  entries : w'.entries = w.entries ++ [w.nextEntry data]
  held : ∀ s' ∈ w'.segments, ∀ e ∈ s'.entries,
    e = w.nextEntry data ∨ ∃ s ∈ w.segments, s.path = s'.path ∧ e ∈ s.entries
  opened : w'.closed = false
  current : w'.current.Stores w'.current.entries
  tidy : ∀ s ∈ w'.segments, s.Tidy
  names : (w'.segments.map path).Nodup

variable {data : List Byte}

theorem InOrder.of_extends {w' : Wal} (ordered : w.InOrder) (room : w.sequence ≠ BitVec.allOnes 64)
    (more : Extends w data w') : w'.InOrder := by
  have next := toNat_succ room
  refine ⟨more.opened, more.current, more.tidy, ?_, ?_, more.names⟩
  · rw [more.entries]
    refine pairwise_append.mpr ⟨ordered.ascending, pairwise_singleton _ _, ?_⟩
    intro e old f new
    have upto := (ordered.numbers e old).2
    rw [mem_singleton.mp new]
    rw [le_def] at upto
    rw [lt_def, nextEntry]
    dsimp only
    omega
  · intro e mem
    rw [more.entries] at mem
    rw [more.sequence]
    rcases mem_append.mp mem with old | new
    · obtain ⟨pos, upto⟩ := ordered.numbers e old
      rw [le_def] at upto
      refine ⟨pos, ?_⟩
      rw [le_def]
      omega
    · rw [mem_singleton.mp new]
      refine ⟨?_, BitVec.le_refl _⟩
      intro zero
      have none : (w.sequence + 1).toNat = 0 := congrArg BitVec.toNat zero
      omega

variable {now : Int}

variable (ordered : w.InOrder) (short : data.length < 2 ^ 32)
include ordered short

theorem InOrder.extends_current (room : ¬ w.Full) : Extends w data (w.write data now).2 := by
  have same : w.rotated now = w := if_neg room
  have pos : ∀ e ∈ w.current.entries, e.sequence ≠ 0 := fun e inside =>
    (ordered.numbers e (mem_entries w.current_mem inside)).1
  obtain ⟨tidy, entries⟩ := tidy_write (ordered.tidy _ w.current_mem)
    ordered.current pos (w.sequence + 1) short
  obtain ⟨-, stores, path⟩ := ordered.current.write (w.sequence + 1) data
  rw [write_eq ordered.writable, same]
  refine ⟨rfl, ?_, ?_, ordered.opened, ?_, ?_, ?_⟩
  · rw [entries_eq, entries_eq, List.append_assoc]
    rw [entries]
    rfl
  · intro s' mem e inside
    rcases mem_append.mp mem with older | last
    · exact .inr ⟨s', mem_append_left _ older, rfl, inside⟩
    · rw [mem_singleton.mp last] at inside ⊢
      rw [entries] at inside
      rcases mem_append.mp inside with old | new
      · exact .inr ⟨w.current, w.current_mem, path.symm, old⟩
      · exact .inl (mem_singleton.mp new)
  · rw [entries]
    exact stores
  · intro s mem
    rcases mem_append.mp mem with older | last
    · exact ordered.tidy s (mem_append_left _ older)
    · rw [mem_singleton.mp last]
      exact tidy
  · have names := ordered.names
    unfold segments at names ⊢
    rw [map_append, map_singleton] at names ⊢
    rw [path]
    exact names

/-- A write into the next segment. -/
theorem InOrder.extends_next (full : w.Full)
    (fresh : ∀ s ∈ w.segments, s.path ≠ segmentName now) : Extends w data (w.write data now).2 := by
  have next : w.rotated now = w.rotate now := if_pos full
  have alike := w.current.alike_close
  have stored := stores_createSegment (segmentName now) w.cfg.syncWrites
  have none : (createSegment (segmentName now) w.cfg.syncWrites).entries = [] :=
    entries_of_content stored.content fun e mem => by cases mem
  have empty : (createSegment (segmentName now) w.cfg.syncWrites).Tidy :=
    tidy_of [] stored.content (fun e mem => by cases mem) rfl rfl
  obtain ⟨tidy, entries⟩ := tidy_write empty (by rw [none]; exact stored)
    (by rw [none]; exact fun e mem => by cases mem) (w.sequence + 1) short
  obtain ⟨-, stores, path⟩ := stored.write (w.sequence + 1) data
  rw [write_eq ordered.writable, next]
  refine ⟨rfl, ?_, ?_, rfl, ?_, ?_, ?_⟩
  · have older : (w.older ++ [w.current.close]).flatMap Segment.entries = w.entries := by
      rw [flatMap_append, flatMap_singleton, alike.entries_eq, ← entries_eq]
    rw [entries_eq]
    exact congrArg₂ _ older entries
  · intro s' mem e inside
    rcases mem_append.mp mem with older | last
    · rcases mem_append.mp older with oldest | closed
      · exact .inr ⟨s', mem_append_left _ oldest, rfl, inside⟩
      · rw [mem_singleton.mp closed] at inside ⊢
        rw [alike.entries_eq] at inside
        exact .inr ⟨w.current, w.current_mem, alike.path.symm, inside⟩
    · rw [mem_singleton.mp last] at inside
      have written : e ∈ ((createSegment (segmentName now) w.cfg.syncWrites).write
        (w.sequence + 1) data).2.entries := inside
      rw [entries] at written
      exact .inl (mem_singleton.mp written)
  · have kept : ((createSegment (segmentName now) w.cfg.syncWrites).write
        (w.sequence + 1) data).2.Stores ((createSegment (segmentName now) w.cfg.syncWrites).write
          (w.sequence + 1) data).2.entries := by
      rw [entries]
      exact stores
    exact kept
  · intro s mem
    rcases mem_append.mp mem with older | last
    · rcases mem_append.mp older with oldest | closed
      · exact ordered.tidy s (mem_append_left _ oldest)
      · rw [mem_singleton.mp closed]
        exact alike.tidy (ordered.tidy _ w.current_mem)
    · rw [mem_singleton.mp last]
      exact tidy
  · have older : (w.older ++ [w.current.close]).map Segment.path = w.segments.map Segment.path := by
      rw [segments, map_append, map_append, map_singleton, map_singleton, alike.path]
    have names : ((w.older ++ [w.current.close]).map Segment.path ++ [segmentName now]).Nodup := by
      rw [older]
      refine nodup_append.mpr ⟨ordered.names, nodup_singleton _, ?_⟩
      intro a mem b new same
      obtain ⟨s, held, rfl⟩ := List.mem_map.mp mem
      rw [mem_singleton.mp new] at same
      exact fresh s held same
    have last : ((createSegment (segmentName now) w.cfg.syncWrites).write
        (w.sequence + 1) data).2.path = segmentName now := path
    rw [segments, map_append, map_singleton]
    exact last ▸ names

theorem InOrder.extends_write (fresh : w.Full → ∀ s ∈ w.segments, s.path ≠ segmentName now) :
    Extends w data (w.write data now).2 := by
  by_cases full : w.Full
  · exact ordered.extends_next short full (fresh full)
  · exact ordered.extends_current short full

end Wal

namespace Wal

theorem inOrder_create (cfg : Config) (skipped : List SegmentFile) (now : Int) :
    (create cfg [] 0 skipped now).InOrder := by
  have stored := stores_createSegment (segmentName now) cfg.syncWrites
  have all : (create cfg [] 0 skipped now).entries = [] := by
    rfl
  refine ⟨rfl, ?_, ?_, ?_, ?_, nodup_singleton _⟩
  · exact stored
  · intro s mem
    rw [mem_singleton.mp mem]
    exact Segment.tidy_of [] stored.content (fun e mem => by cases mem) rfl rfl
  · exact .nil
  · rw [all]
    exact fun e mem => by cases mem

end Wal

end Unheaded.Storage
