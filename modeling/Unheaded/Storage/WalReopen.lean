import Mathlib.Data.List.Pairwise
import Unheaded.Storage.WalReads

/-!
# Opening a log again

`New` opens the files of the directory in the order of their names and skips those that do not
consist of whole entries.
-/

namespace Unheaded.Storage

open Lib List BitVec Segment SegmentFile
open BitVec (ofNat)

theorem nameLe_total (a b : List Char) : nameLe a b = true ∨ nameLe b a = true := by
  induction a generalizing b with
  | nil => exact Or.inl rfl
  | cons x xs ih =>
    cases b with
    | nil => exact Or.inr rfl
    | cons y ys =>
      unfold nameLe
      by_cases same : x = y
      · rw [if_pos same, if_pos same.symm]
        exact ih ys
      · have different : x.toNat ≠ y.toNat := fun equal => same (Char.toNat_inj.mp equal)
        rw [if_neg same, if_neg (Ne.symm same), decide_eq_true_iff, decide_eq_true_iff]
        omega

theorem nameLe_trans {a b c : List Char} (first : nameLe a b = true) (second : nameLe b c = true) :
    nameLe a c = true := by
  induction a generalizing b c with
  | nil => rfl
  | cons x xs ih =>
    cases b with
    | nil => cases first
    | cons y ys =>
      cases c with
      | nil => cases second
      | cons z zs =>
        unfold nameLe at first second ⊢
        by_cases left : x = y
        · subst left
          rw [if_pos rfl] at first
          by_cases right : x = z
          · rw [if_pos right] at second ⊢
            exact ih first second
          · rwa [if_neg right] at second ⊢
        · rw [if_neg left, decide_eq_true_iff] at first
          by_cases right : y = z
          · subst right
            rw [if_neg left]
            exact decide_eq_true first
          · rw [if_neg right, decide_eq_true_iff] at second
            have apart : x ≠ z := by
              rintro rfl
              omega
            rw [if_neg apart]
            exact decide_eq_true (Nat.lt_trans first second)

theorem nameLe_antisymm {a b : List Char} (first : nameLe a b = true) (second : nameLe b a = true) :
    a = b := by
  induction a generalizing b with
  | nil =>
    cases b with
    | nil => rfl
    | cons y ys => cases second
  | cons x xs ih =>
    cases b with
    | nil => cases first
    | cons y ys =>
      unfold nameLe at first second
      by_cases same : x = y
      · subst same
        rw [if_pos rfl] at first second
        rw [ih first second]
      · rw [if_neg same, decide_eq_true_iff] at first
        rw [if_neg (Ne.symm same), decide_eq_true_iff] at second
        omega

def SegmentFile.Before (f g : SegmentFile) : Prop := nameLe f.name g.name = true ∧ f.name ≠ g.name

theorem segmentFiles_eq {dir fs : List SegmentFile} (perm : dir.Perm fs)
    (ascending : fs.Pairwise SegmentFile.Before)
    (wal : ∀ f ∈ fs, SEGMENT_SUFFIX.isSuffixOf f.name = true) : Wal.segmentFiles dir = fs := by
  let le (f g : SegmentFile) : Prop := nameLe f.name g.name = true
  have all := filter_eq_self.mpr fun f mem => wal f (perm.mem_iff.mp mem)
  have sorted : (dir.insertionSort le).Pairwise le := by
    have : Std.Total le := ⟨fun f g => nameLe_total f.name g.name⟩
    have : IsTrans SegmentFile le := ⟨fun _ _ _ first second => nameLe_trans first second⟩
    exact pairwise_insertionSort le dir
  have same := (perm_insertionSort le dir).trans perm
  rw [Wal.segmentFiles, all]
  refine List.Perm.eq_of_pairwise (fun f g inside mem first second => ?_) sorted
    (ascending.imp And.left) same
  -- two files of one name are one file
  have equal : f.name = g.name := nameLe_antisymm first second
  by_contra other
  have pairwise := ascending.imp And.right
  have : Std.Symm fun f g : SegmentFile => f.name ≠ g.name :=
    ⟨fun _ _ apart equal => apart equal.symm⟩
  exact pairwise.forall (same.mem_iff.mp inside) mem other equal

/-- A file as it should be: whole entries. -/
structure Part where
  name : List Char
  entries : List Entry

def Part.file (p : Part) : SegmentFile := ⟨p.name, encodeAll p.entries⟩

def Part.Small (p : Part) : Prop := ∀ e ∈ p.entries, e.Small

/-- The segment has the name and the bytes of the part. -/
structure Segment.Holds (s : Segment) (p : Part) : Prop where
  path : s.path = p.name
  content : s.flushed.content = encodeAll p.entries

theorem Segment.Holds.toFile {s : Segment} {p : Part} (holds : s.Holds p) : s.toFile = p.file := by
  rw [Segment.toFile, Part.file, holds.path, holds.content]

theorem scanSequences_ok {es : List Entry} (small : ∀ e ∈ es, e.Small) :
    ∃ s, scanSequences (encodeAll es) = .ok s := by
  have enough := Nat.lt_succ_of_le (length_le_encodeAll es)
  have whole : (⟨.start (encodeAll es), []⟩ : Reader Byte).pending = encodeAll es :=
    Reader.pending_start _
  obtain ⟨r, read, -⟩ := forEntries_all sequencesStep (.ok : Sequences → Except WalError Sequences)
    (fun _ => .error) small (fun e _ s => takes_sequencesStep e s) whole enough {}
  unfold scanSequences
  split
  · exact ⟨_, rfl⟩
  · exact ⟨_, congrArg Prod.fst read⟩

theorem openSegment_part {p : Part} (small : p.Small) (syncWrites : Bool) :
    ∃ s, openSegment p.file syncWrites = .ok s ∧ s.Stores p.entries ∧ s.path = p.name := by
  obtain ⟨sequences, scanned⟩ := scanSequences_ok small
  unfold openSegment
  have content : p.file.content = encodeAll p.entries := rfl
  have unbuffered (f : File Byte) : Writer.flushed ⟨f, []⟩ = f := File.write_nil f
  rw [content, scanned]
  refine ⟨_, rfl, ⟨rfl, ?_, ?_, rfl⟩, rfl⟩
  · rw [flushed, unbuffered]
    rfl
  · rw [flushed, unbuffered]
    rfl

def Broken (f : SegmentFile) : Prop := ∀ syncWrites, ∃ e, openSegment f syncWrites = .error e

namespace Wal

theorem openAll_append (syncWrites : Bool) (fs gs : List SegmentFile) :
    openAll syncWrites (fs ++ gs) = ((openAll syncWrites fs).1 ++ (openAll syncWrites gs).1,
        (openAll syncWrites fs).2 ++ (openAll syncWrites gs).2) := by
  induction fs with
  | nil => rfl
  | cons f fs ih =>
    rw [List.cons_append, openAll, openAll, ih]
    cases openSegment f syncWrites <;> rfl

theorem forall₂_concat {α β : Type} {R : α → β → Prop} {l : List α} {xs : List β} {y : β}
    (related : List.Forall₂ R l (xs ++ [y])) :
    ∃ l' s, l = l' ++ [s] ∧ List.Forall₂ R l' xs ∧ R s y := by
  have front := forall₂_take_append l xs [y] related
  have back := forall₂_drop_append l xs [y] related
  obtain ⟨s, rest, holds, ended, split⟩ := forall₂_cons_right_iff.mp back
  rw [forall₂_nil_right_iff.mp ended] at split
  exact ⟨_, s, by rw [← split, take_append_drop], front, holds⟩

theorem forall₂_left {α β : Type} {R : α → β → Prop} {P : α → Prop} (holds : ∀ a b, R a b → P a)
    {l : List α} {xs : List β} (related : List.Forall₂ R l xs) : ∀ a ∈ l, P a := by
  induction related with
  | nil => intro a mem; cases mem
  | cons first _ ih =>
    intro a mem
    rcases mem_cons.mp mem with rfl | later
    · exact holds _ _ first
    · exact ih a later

variable {back front older parts : List Part}

theorem openAll_parts (syncWrites : Bool) (small : ∀ p ∈ parts, p.Small) :
    ∃ segments, openAll syncWrites (parts.map Part.file) = (segments, []) ∧
      List.Forall₂ (fun s p => s.Stores p.entries ∧ s.path = p.name) segments parts := by
  induction parts with
  | nil => exact ⟨[], rfl, .nil⟩
  | cons p parts ih =>
    obtain ⟨segments, opened, stored⟩ := ih fun q mem => small q (mem_cons_of_mem _ mem)
    obtain ⟨s, found, holds⟩ := openSegment_part (small p mem_cons_self) syncWrites
    refine ⟨s :: segments, ?_, .cons holds stored⟩
    rw [map_cons, openAll, opened, found]

theorem openAll_broken (syncWrites : Bool) {fs : List SegmentFile} (broken : ∀ f ∈ fs, Broken f) :
    openAll syncWrites fs = ([], fs) := by
  induction fs with
  | nil => rfl
  | cons f fs ih =>
    obtain ⟨e, failed⟩ := broken f mem_cons_self syncWrites
    rw [openAll, ih fun g mem => broken g (mem_cons_of_mem _ mem), failed]

/-- The directory has whole files before and after some broken ones. -/
structure Laid (dir : List SegmentFile) (front : List Part) (bad : List SegmentFile)
    (back : List Part) : Prop where
  perm : dir.Perm (front.map Part.file ++ bad ++ back.map Part.file)
  ascending : (front.map Part.file ++ bad ++ back.map Part.file).Pairwise SegmentFile.Before
  wal : ∀ f ∈ dir, SEGMENT_SUFFIX.isSuffixOf f.name = true
  small : ∀ p ∈ front ++ back, p.Small
  broken : ∀ f ∈ bad, Broken f

/-- The log holds the parts; all but the last may be closed. -/
structure Holding (w : Wal) (older : List Part) (last : Part) : Prop where
  opened : w.closed = false
  older : List.Forall₂ Segment.Holds w.older older
  current : w.current.Stores last.entries
  path : w.current.path = last.name

def Readable (w : Wal) : Prop := ∀ s ∈ w.older, s.closed = false

/-- The number that `New` starts from. -/
def lastSequence (es : List Entry) : Seq := (es.getLast?.map Entry.sequence).getD 0

theorem scan_snd {s : Segment} (opened : s.closed = false) (startSeq : Seq)
    (fn : List Entry → Option WalError) : ∃ f, (s.scan startSeq fn).2 = s.setFile f := by
  rw [Segment.scan, if_neg (Bool.eq_false_iff.mp opened)]
  exact ⟨_, rfl⟩

variable {w : Wal}

theorem recoverSequence_ok {es : List Entry} (stores : w.current.Stores es)
    (small : ∀ e ∈ es, e.Small) :
    ∃ current, w.recoverSequence = .ok { w with current := current, sequence := lastSequence es } ∧
      current.Stores es ∧ current.path = w.current.path := by
  obtain ⟨visited, atEnd⟩ := scan_stored stores.opened stores.content small
  have kept := w.current.scan_reread 0 fun _ => none
  obtain ⟨f, moved⟩ := scan_snd stores.opened 0 fun _ => none
  refine ⟨(w.current.scan 0 fun _ => none).2, ?_, ⟨kept.closed.trans stores.opened,
    kept.content.trans stores.content, atEnd, ?_⟩, ?_⟩
  · unfold recoverSequence
    dsimp only
    rw [visited]
    rfl
  · rw [moved]
    exact stores.size
  · rw [moved]
    rfl

variable {bad dir : List SegmentFile}

theorem loaded (laid : Laid dir front bad back) (syncWrites : Bool) :
    ∃ segments, openAll syncWrites (segmentFiles dir) = (segments, bad) ∧
      List.Forall₂ (fun s p => s.Stores p.entries ∧ s.path = p.name) segments (front ++ back) := by
  have sorted :=
    segmentFiles_eq laid.perm laid.ascending fun f mem => laid.wal f (laid.perm.mem_iff.mpr mem)
  obtain ⟨first, opened, stored⟩ := openAll_parts syncWrites fun p mem =>
    laid.small p (mem_append_left back mem)
  obtain ⟨second, opened', stored'⟩ := openAll_parts syncWrites fun p mem =>
    laid.small p (mem_append_right front mem)
  refine ⟨first ++ second, ?_, rel_append stored stored'⟩
  rw [sorted, openAll_append, openAll_append, opened, opened', openAll_broken syncWrites laid.broken]
  rw [append_nil, nil_append, append_nil]

theorem Laid.unfiltered (laid : Laid dir front bad back) :
    dir.filter (fun f => !SEGMENT_SUFFIX.isSuffixOf f.name) = [] := by
  rw [filter_eq_nil_iff]
  intro f mem
  rw [laid.wal f mem]
  decide

theorem new_none (laid : Laid dir [] bad []) (cfg : Config) (now : Int) :
    Wal.new cfg dir now = .ok (create cfg [] 0 bad now) := by
  obtain ⟨segments, opened, stored⟩ := loaded laid cfg.syncWrites
  have none : segments = [] := forall₂_nil_right_iff.mp stored
  subst none
  rw [Wal.new, opened, laid.unfiltered]
  rfl

variable {last : Part}

theorem new_some (laid : Laid dir front bad back) (parts : front ++ back = older ++ [last])
    (cfg : Config) (now : Int) :
    ∃ w, Wal.new cfg dir now = .ok w ∧ w.Holding older last ∧ w.Readable ∧ w.skipped = bad ∧
      w.sequence = lastSequence last.entries := by
  obtain ⟨segments, opened, stored⟩ := loaded laid cfg.syncWrites
  rw [parts] at stored
  obtain ⟨earlier, current, rfl, stored, holds, path⟩ := forall₂_concat stored
  have small := laid.small last (by rw [parts]; exact mem_append_right _ mem_cons_self)
  obtain ⟨current', recovered, stores, same⟩ := @recoverSequence_ok
    ⟨cfg, earlier, current, 0, false, bad⟩ _ holds small
  have held : List.Forall₂ Segment.Holds earlier older :=
    stored.imp fun _ _ both => ⟨both.2, both.1.content⟩
  refine ⟨⟨cfg, earlier, current', lastSequence last.entries, false, bad⟩, ?_,
    ⟨rfl, held, stores, same.trans path⟩, ?_, rfl, rfl⟩
  · rw [Wal.new, opened, laid.unfiltered]
    dsimp only
    rw [List.getLast?_concat, dropLast_concat]
    exact recovered
  · exact forall₂_left (fun s p both => both.1.opened) stored

def nextEntry (w : Wal) (data : List Byte) : Entry := ⟨w.sequence + 1, data⟩

theorem Holding.writable (holding : w.Holding older last) :
    w.Writable := ⟨holding.opened, holding.current.opened⟩

def Later (now : Int) (files : List SegmentFile) : Prop :=
  ∀ f ∈ files, f.Before ⟨segmentName now, []⟩

theorem create_skipped {now : Int} {files : List SegmentFile} (later : Later now files) :
    (files.filter fun f => f.name ≠ segmentName now) = files := by
  rw [filter_eq_self]
  intro f mem
  exact decide_eq_true (later f mem).2

theorem holds_close {s : Segment} {p : Part} (holds : s.Holds p) : s.close.Holds p := by
  unfold Segment.close
  split
  · exact holds
  · exact ⟨holds.path, (congrArg File.content (flushed_setFile s s.flushed)).trans
      holds.content⟩

theorem Holding.write (holding : w.Holding older last) (room : ¬ w.Full) (data : List Byte)
    (now : Int) :
    (w.write data now).2.Holding older ⟨last.name, last.entries ++ [w.nextEntry data]⟩ ∧
      (w.write data now).2.skipped = w.skipped ∧ (w.write data now).2.sequence = w.sequence + 1 := by
  have same : w.rotated now = w := if_neg room
  obtain ⟨-, stores, path⟩ := holding.current.write (w.sequence + 1) data
  rw [write_eq holding.writable, same]
  exact ⟨⟨holding.opened, holding.older, stores, path.trans holding.path⟩, rfl, rfl⟩

theorem Holding.rotate (holding : w.Holding older last) (full : w.Full) (data : List Byte)
    {now : Int} (later : Later now w.skipped) :
    (w.write data now).2.Holding (older ++ [last]) ⟨segmentName now, [w.nextEntry data]⟩ ∧
      (w.write data now).2.skipped = w.skipped ∧ (w.write data now).2.sequence = w.sequence + 1 := by
  have next : w.rotated now = w.rotate now := if_pos full
  obtain ⟨-, stores, path⟩ := (stores_createSegment (segmentName now)
    w.cfg.syncWrites).write (w.sequence + 1) data
  have closed := holds_close ⟨holding.path, holding.current.content⟩
  rw [write_eq holding.writable, next]
  refine ⟨⟨rfl, rel_append holding.older (.cons closed .nil), stores, path⟩, ?_, rfl⟩
  exact create_skipped later

theorem map_toFile {segments : List Segment} (held : List.Forall₂ Segment.Holds segments parts) :
    segments.map toFile = parts.map Part.file := by
  induction held with
  | nil => rfl
  | cons holds _ ih => rw [map_cons, map_cons, ih, holds.toFile]

theorem Holding.files (holding : w.Holding older last) :
    w.files = w.skipped ++ (older ++ [last]).map Part.file := by
  have toFile := map_toFile holding.older
  have current := Segment.Holds.toFile ⟨holding.path, holding.current.content⟩
  rw [Wal.files, segments, map_append, toFile, map_append, map_singleton, map_singleton, current]

theorem files_close (w : Wal) : w.close.files = w.files := by
  have same (s : Segment) : s.close.toFile = s.toFile := by
    unfold Segment.close
    split
    · rfl
    · exact congrArg (SegmentFile.mk s.path) (congrArg File.content (flushed_setFile s s.flushed))
  unfold files segments close
  rw [map_append, map_append, List.map_map, map_singleton, same]
  congr 2
  exact map_congr_left fun s _ => same s

end Wal

def SegmentFile.entries (f : SegmentFile) : List Entry :=
  ((Segment.mk f.name ⟨.start f.content, []⟩ f.content.length false false 0 0).scan 0
    fun _ => none).1.visited

theorem Part.entries_file {p : Part} (small : p.Small) : p.file.entries = p.entries := by
  have content : (Segment.mk p.name ⟨.start (encodeAll p.entries), []⟩ (encodeAll p.entries).length
      false false 0 0).flushed.content = encodeAll p.entries :=
    congrArg File.content (File.write_nil _)
  exact congrArg Scanned.visited (Segment.scan_stored rfl content small).1

namespace Wal

/-- The log is not open, or it is. -/
inductive LogState where
  | shut (dir : List SegmentFile)
  | running (w : Wal)

/-- The states of the histories of `New`, `Write` and `Close` in which every new
segment is named after the others, every entry is below 4 GiB and the sequence
numbers do not wrap. -/
inductive Reached : LogState → Prop where
  | start : Reached (.shut [])
  | new {dir : List SegmentFile} {w : Wal} (cfg : Config) (now : Int) (before : Reached (.shut dir))
      (opened : Wal.new cfg dir now = .ok w) : Reached (.running w)
  | write {w : Wal} (data : List Byte) (now : Int) (before : Reached (.running w))
      (later : w.Full → Later now w.files) (short : data.length < 2 ^ 32)
      (room : w.sequence ≠ BitVec.allOnes 64) : Reached (.running (w.write data now).2)
  | close {w : Wal} (before : Reached (.running w)) : Reached (.shut w.close.files)

def entriesOf (parts : List Part) : List Entry := parts.flatMap Part.entries

/-- The parts hold the entries from 1 to `seq`. -/
structure Filed (parts : List Part) (seq : Seq) : Prop where
  ascending : (parts.map Part.file).Pairwise SegmentFile.Before
  wal : ∀ p ∈ parts, SEGMENT_SUFFIX.isSuffixOf p.name = true
  small : ∀ p ∈ parts, p.Small
  numbers : ∃ ds : List (List Byte), entriesOf parts = numbered 0 ds ∧ ds.length < 2 ^ 64 ∧
    seq = ofNat 64 ds.length
  dense : ∀ p ∈ parts.tail, p.entries ≠ []

theorem suffix_segmentName (now : Int) : SEGMENT_SUFFIX.isSuffixOf (segmentName now) = true := by
  rw [isSuffixOf_iff_suffix]
  exact suffix_append _ _

theorem lastSequence_append {es fs : List Entry} (some : fs ≠ []) :
    lastSequence (es ++ fs) = lastSequence fs := by
  unfold lastSequence
  rw [List.getLast?_append_of_ne_nil _ some]

theorem lastSequence_numbered (ds : List (List Byte)) :
    lastSequence (numbered 0 ds) = ofNat 64 ds.length := by
  induction ds using List.reverseRecOn with
  | nil => rfl
  | append_singleton ds d _ =>
    have one : numbered (0 + ofNat 64 ds.length) [d] =
        [⟨ofNat 64 (ds.length + 1), d⟩] := by
      rw [ofNat_add, show (0 : Seq) + _ = _ from BitVec.zero_add _]
      rfl
    rw [numbered_append, lastSequence_append (by rw [one]; exact cons_ne_nil _ _), one,
      length_append]
    rfl

theorem entriesOf_append (parts more : List Part) :
    entriesOf (parts ++ more) = entriesOf parts ++ entriesOf more := flatMap_append

theorem entriesOf_singleton (p : Part) : entriesOf [p] = p.entries := append_nil _

variable {seq : Seq}

theorem Filed.sequence {older : List Part} {last : Part} (filed : Filed (older ++ [last]) seq) :
    lastSequence last.entries = seq := by
  obtain ⟨ds, entries, -, rfl⟩ := filed.numbers
  rw [entriesOf_append, entriesOf_singleton] at entries
  by_cases none : last.entries = []
  · -- only the first part may be empty
    cases older with
    | nil =>
      rw [none] at entries ⊢
      have zero : ds.length = 0 := by
        rw [← length_numbered 0 ds, ← entries]
        rfl
      rw [zero]
      rfl
    | cons p older =>
      exact absurd none (filed.dense last (mem_append_right _ mem_cons_self))
  · rw [← lastSequence_numbered, ← entries, lastSequence_append none]

theorem Filed.next {parts parts' : List Part} {data : List Byte} (filed : Filed parts seq)
    (room : seq ≠ BitVec.allOnes 64)
    (entries : entriesOf parts' = entriesOf parts ++ [⟨seq + 1, data⟩])
    (ascending : (parts'.map Part.file).Pairwise SegmentFile.Before)
    (wal : ∀ p ∈ parts', SEGMENT_SUFFIX.isSuffixOf p.name = true) (small : ∀ p ∈ parts', p.Small)
    (dense : ∀ p ∈ parts'.tail, p.entries ≠ []) : Filed parts' (seq + 1) := by
  obtain ⟨ds, before, bound, rfl⟩ := filed.numbers
  have fewer : ds.length + 1 < 2 ^ 64 := by
    by_contra full
    have last : ds.length = 2 ^ 64 - 1 := by omega
    rw [last] at room
    exact room rfl
  refine ⟨ascending, wal, small, ⟨ds ++ [data], ?_, ?_, ?_⟩, dense⟩
  · rw [entries, before, numbered_append, show (0 : Seq) + _ = _ from BitVec.zero_add _]
    rfl
  · rw [length_append]
    exact fewer
  · rw [length_append, ofNat_add]
    rfl

/-- The state of a log in such a history. -/
def Sound : LogState → Prop
  | .shut dir => dir = [] ∨ ∃ older last seq, dir = (older ++ [last]).map Part.file ∧
      Filed (older ++ [last]) seq
  | .running w => ∃ older last, w.Holding older last ∧ w.skipped = [] ∧
      Filed (older ++ [last]) w.sequence

theorem Filed.laid {parts : List Part} (filed : Filed parts seq) :
    Laid (parts.map Part.file) parts [] [] := by
  refine ⟨?_, ?_, ?_, ?_, fun f mem => by cases mem⟩
  · rw [map_nil, append_nil, append_nil]
  · rw [map_nil, append_nil, append_nil]
    exact filed.ascending
  · intro f mem
    obtain ⟨p, inside, rfl⟩ := List.mem_map.mp mem
    exact filed.wal p inside
  · rw [append_nil]
    exact filed.small

theorem sound_new {dir : List SegmentFile} {w : Wal} {cfg : Config} {now : Int}
    (sound : Sound (.shut dir)) (opened : Wal.new cfg dir now = .ok w) : Sound (.running w) := by
  rcases sound with rfl | ⟨older, last, seq, rfl, filed⟩
  · cases opened
    refine ⟨[], ⟨segmentName now, []⟩, ⟨rfl, .nil, stores_createSegment _ _, rfl⟩, rfl, ?_⟩
    refine ⟨pairwise_singleton _ _, ?_, ?_, ⟨[], rfl, by decide, rfl⟩,
      fun p mem => by cases mem⟩
    · intro p mem
      rw [mem_singleton.mp mem]
      exact suffix_segmentName now
    · intro p mem e inside
      rw [mem_singleton.mp mem] at inside
      cases inside
  · obtain ⟨w', found, holding, -, skipped, sequence⟩ := new_some filed.laid (append_nil _) cfg now
    rw [opened] at found
    cases found
    refine ⟨older, last, holding, skipped, ?_⟩
    rw [sequence, filed.sequence]
    exact filed

theorem sound_write {w : Wal} {data : List Byte} {now : Int} (sound : Sound (.running w))
    (later : w.Full → Later now w.files) (short : data.length < 2 ^ 32)
    (room : w.sequence ≠ BitVec.allOnes 64) : Sound (.running (w.write data now).2) := by
  obtain ⟨older, last, holding, skipped, filed⟩ := sound
  have files := holding.files
  rw [skipped] at files
  by_cases full : w.Full
  · obtain ⟨holding', skipped', sequence⟩ := @Holding.rotate _ _ _ holding full data now (by
      rw [skipped]
      intro f mem
      cases mem)
    refine ⟨older ++ [last], _, holding', skipped'.trans skipped, ?_⟩
    rw [sequence]
    refine @Filed.next _ _ _ data filed room ?_ ?_ ?_ ?_ ?_
    · rw [entriesOf_append _ [_]]
      rfl
    · rw [map_append, pairwise_append]
      refine ⟨filed.ascending, pairwise_singleton _ _, ?_⟩
      intro f mem g new
      rw [mem_singleton.mp new]
      have before := later full f (by rw [files]; exact mem)
      exact before
    · intro p mem
      rcases mem_append.mp mem with earlier | new
      · exact filed.wal p earlier
      · rw [mem_singleton.mp new]
        exact suffix_segmentName now
    · intro p mem
      rcases mem_append.mp mem with earlier | new
      · exact filed.small p earlier
      · rw [mem_singleton.mp new]
        intro e inside
        rw [mem_singleton.mp inside]
        exact short
    · intro p mem
      rw [tail_append_of_ne_nil (by simp)] at mem
      rcases mem_append.mp mem with earlier | new
      · exact filed.dense p earlier
      · rw [mem_singleton.mp new]
        exact cons_ne_nil _ _
  · obtain ⟨holding', skipped', sequence⟩ := holding.write full data now
    refine ⟨older, _, holding', skipped'.trans skipped, ?_⟩
    rw [sequence]
    refine @Filed.next _ _ _ data filed room ?_ ?_ ?_ ?_ ?_
    · rw [entriesOf_append, entriesOf_singleton, entriesOf_append, entriesOf_singleton,
        List.append_assoc]
      rfl
    · have ascending := filed.ascending
      rw [map_append, pairwise_append] at ascending ⊢
      refine ⟨ascending.1, pairwise_singleton _ _, ?_⟩
      intro f mem g new
      rw [mem_singleton.mp new]
      exact ascending.2.2 f mem last.file (mem_singleton.mpr rfl)
    · intro p mem
      rcases mem_append.mp mem with earlier | new
      · exact filed.wal p (mem_append_left _ earlier)
      · rw [mem_singleton.mp new]
        exact filed.wal last (mem_append_right _ mem_cons_self)
    · intro p mem
      rcases mem_append.mp mem with earlier | new
      · exact filed.small p (mem_append_left _ earlier)
      · rw [mem_singleton.mp new]
        intro e inside
        rcases mem_append.mp inside with old | one
        · exact filed.small last (mem_append_right _ mem_cons_self) e old
        · rw [mem_singleton.mp one]
          exact short
    · intro p mem
      cases older with
      | nil => cases mem
      | cons q older =>
        rcases mem_append.mp mem with earlier | new
        · exact filed.dense p (mem_append_left _ earlier)
        · rw [mem_singleton.mp new]
          exact append_ne_nil_of_right_ne_nil _ (cons_ne_nil _ _)

theorem Reached.sound {state : LogState} (reached : Reached state) : Sound state := by
  induction reached with
  | start => exact Or.inl rfl
  | new cfg now _ opened ih => exact sound_new ih opened
  | write data now _ later short room ih => exact sound_write ih later short room
  | close _ ih =>
    obtain ⟨older, last, holding, skipped, filed⟩ := ih
    refine Or.inr ⟨older, last, _, ?_, filed⟩
    rw [files_close, holding.files, skipped]
    rfl

theorem numbered_le {ds : List (List Byte)} (room : seq.toNat + ds.length < 2 ^ 64) :
    ∀ e ∈ numbered seq ds, e.sequence.toNat ≤ seq.toNat + ds.length := by
  induction ds generalizing seq with
  | nil => intro e mem; cases mem
  | cons d ds ih =>
    rw [length_cons] at room
    have next : (seq + 1).toNat = seq.toNat + 1 := by
      have one : (1 : Seq).toNat = 1 := rfl
      rw [toNat_add]
      omega
    intro e mem
    rw [length_cons]
    rcases mem_cons.mp mem with rfl | later
    · rw [next]
      omega
    · have bound := @ih (seq + 1) (by omega) e later
      omega

/-- No number is given twice: a write gets one above all that the directory
holds, in every such history. -/
theorem write_exceeds_stored {w : Wal} (reached : Reached (.running w))
    (room : w.sequence ≠ BitVec.allOnes 64) (data : List Byte) (now : Int) {seq : Seq}
    (written : (w.write data now).1 = .ok seq) :
    ∀ e ∈ w.files.flatMap entries, e.sequence < seq := by
  obtain ⟨older, last, holding, skipped, filed⟩ := reached.sound
  rw [write_eq holding.writable] at written
  cases written
  have files := holding.files
  rw [skipped, nil_append] at files
  have stored : w.files.flatMap entries = entriesOf (older ++ [last]) := by
    rw [files, flatMap_map]
    exact flatMap_congr fun p member => Part.entries_file (filed.small p member)
  obtain ⟨ds, entries, bound, sequence⟩ := filed.numbers
  have value : w.sequence.toNat = ds.length := by
    rw [sequence]
    exact Nat.mod_eq_of_lt bound
  have fewer : ds.length + 1 < 2 ^ 64 := by
    by_contra full
    have least : ds.length = 2 ^ 64 - 1 := by omega
    rw [sequence, least] at room
    exact room rfl
  have next : (w.sequence + 1).toNat = ds.length + 1 := by
    have one : (1 : Seq).toNat = 1 := rfl
    rw [toNat_add]
    omega
  intro e member
  rw [stored, entries] at member
  have zero : (0 : Seq).toNat = 0 := rfl
  have least := @numbered_le 0 ds (by omega) e member
  rw [lt_def]
  omega

/-- A log with one entry, and the write of the next. -/
theorem second_write_exceeds : (((create ⟨64, true⟩ [] 0 [] 1).write [] 2).2.write [] 3).1 = .ok 2 ∧
      ∀ e ∈ ((create ⟨64, true⟩ [] 0 [] 1).write [] 2).2.files.flatMap entries,
        e.sequence < 2 :=
  ⟨rfl, write_exceeds_stored (.write [] 2 (.new ⟨64, true⟩ 1 .start (new_nil _ _))
    (fun full => absurd full (by decide)) (by decide) (by decide)) (by decide +kernel) [] 3 rfl⟩

/-- Three segments, the second made a nanosecond after the first: its name has a
digit more and sorts before.  The number 2 is given again. -/
theorem longer_name_repeats_sequence : ∃ w₁ w₂, Wal.new ⟨16, true⟩ [] 999999999999999999 = .ok w₁ ∧
      (w₁.writeAll [⟨[], 999999999999999999⟩, ⟨[], 1000000000000000000⟩]).1 = [⟨1, []⟩, ⟨2, []⟩] ∧
      Wal.new ⟨16, true⟩ (w₁.writeAll [⟨[], 999999999999999999⟩,
        ⟨[], 1000000000000000000⟩]).2.close.files 1000000000000000001 = .ok w₂ ∧
      ⟨2, []⟩ ∈ w₂.files.flatMap entries ∧
      (w₂.write [] 1000000000000000002).1 = .ok 2 := by
  refine ⟨_, _, new_nil _ _, by decide +kernel, rfl, by decide +kernel, by rfl⟩

end Wal

end Unheaded.Storage
