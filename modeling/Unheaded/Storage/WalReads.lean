import Unheaded.Storage.SegmentReads
import Unheaded.Storage.Wal

/-!
# Reading a log back

A segment that has only been written to holds the entries in their order, and `Read` and `Scan`
find them.
-/

namespace Unheaded.Storage

open Lib List BitVec Segment
open BitVec (ofNat)

namespace Segment

/-- The open segment holds the entries, with the offset at its end. -/
structure Stores (s : Segment) (es : List Entry) : Prop where
  opened : s.closed = false
  content : s.flushed.content = encodeAll es
  atEnd : s.flushed.AtEnd
  size : s.size = (encodeAll es).length

theorem stores_createSegment (path : List Char) (syncWrites : Bool) :
    (createSegment path syncWrites).Stores [] := ⟨rfl, rfl, rfl, rfl⟩

variable {s : Segment} {after before es : List Entry}

theorem Stores.write (stores : s.Stores es) (seq : Seq) (data : List Byte) :
    (s.write seq data).1 = .ok () ∧
      (s.write seq data).2.Stores (es ++ [⟨seq, data⟩]) ∧ (s.write seq data).2.path = s.path := by
  obtain ⟨ok, flushed, closed, path, size⟩ := write_spec stores.opened seq data
  obtain ⟨content, atEnd⟩ := File.write_atEnd stores.atEnd (encodeEntry seq data)
  have one : encodeAll [⟨seq, data⟩] = encodeEntry seq data := append_nil _
  refine ⟨ok, ⟨closed, ?_, ?_, ?_⟩, path⟩
  · rw [flushed, content, stores.content, encodeAll_append, one]
  · rw [flushed]
    exact atEnd
  · rw [size, stores.size, encodeAll_append, length_append, one]

theorem foldl_visited (visited es : List Entry) :
    es.foldl (fun visited e => visited ++ [e]) visited = visited ++ es := by
  induction es generalizing visited with
  | nil => exact (append_nil visited).symm
  | cons e es ih =>
    rw [foldl_cons, ih, List.append_assoc]
    rfl

theorem scan_stored (opened : s.closed = false) (content : s.flushed.content = encodeAll es)
    (small : ∀ e ∈ es, e.Small) :
    (s.scan 0 fun _ => none).1 = ⟨es, none⟩ ∧ (s.scan 0 fun _ => none).2.flushed.AtEnd := by
  have fits (e : Entry) (mem : e ∈ es) : e.data.length ≤ s.flushed.content.length := by
    rw [content]
    exact length_data_le_encodeAll mem
  have whole : (⟨.start s.flushed.content, []⟩ : Reader Byte).pending = encodeAll es := by
    rw [← content]
    exact Reader.pending_start _
  have enough : es.length < s.flushed.content.length + 1 := by
    rw [content]
    exact Nat.lt_succ_of_le (length_le_encodeAll es)
  obtain ⟨r, read, left⟩ := forEntries_all (scanStep s.flushed.content.length 0 fun _ => none)
    (fun visited => (⟨visited, none⟩ : Scanned)) (fun visited e => ⟨visited, some e⟩) small
    (fun e mem visited => takes_scanStep (fits e mem) visited) whole enough []
  rw [foldl_visited] at read
  rw [scan, if_neg (Bool.eq_false_iff.mp opened)]
  unfold reading
  dsimp only
  rw [read]
  refine ⟨rfl, ?_⟩
  rw [flushed_setFile]
  exact Reader.atEnd_of_pending left.pending

theorem read_reaches {seq : Seq} {rest : List Byte} (opened : s.closed = false)
    (content : s.flushed.content = encodeAll before ++ rest) (small : ∀ e ∈ before, e.Small)
    (others : ∀ e ∈ before, e.sequence ≠ seq) :
    ∃ turns r, r.pending = rest ∧ r.content = s.flushed.content ∧ rest.length < turns ∧
      (s.read seq).1 = (forEntries (readStep s.flushed.content.length seq)
        (fun _ => .error .sequenceNotFound) (fun _ => .error) turns () r).1 := by
  have whole : (⟨.start s.flushed.content, []⟩ : Reader Byte).pending = encodeAll before ++ rest := by
    rw [← content]
    exact Reader.pending_start _
  have length : s.flushed.content.length + 1 =
      before.length + ((encodeAll before).length - before.length + rest.length + 1) := by
    have bound := length_le_encodeAll before
    rw [content, length_append]
    omega
  obtain ⟨r, read, left⟩ := forEntries_entries (readStep s.flushed.content.length seq)
    (fun _ => (.error .sequenceNotFound : Except WalError (List Byte))) (fun _ => .error) small
    (fun e mem s => takes_readStep _ (others e mem) s) whole
    ((encodeAll before).length - before.length + rest.length + 1) ()
  refine ⟨(encodeAll before).length - before.length + rest.length + 1, r, left.pending, left.content,
    ?_, ?_⟩
  · exact Nat.lt_succ_of_le (Nat.le_add_left rest.length ((encodeAll before).length - before.length))
  · rw [Segment.read, if_neg (Bool.eq_false_iff.mp opened)]
    unfold reading
    dsimp only
    rw [length, read]

theorem read_stored {e : Entry} (opened : s.closed = false)
    (content : s.flushed.content = encodeAll (before ++ e :: after))
    (small : ∀ f ∈ before ++ [e], f.Small) (others : ∀ f ∈ before, f.sequence ≠ e.sequence) :
    (s.read e.sequence).1 = .ok e.data := by
  have fits : e.data.length ≤ s.flushed.content.length := by
    rw [content]
    exact length_data_le_encodeAll (mem_append_right _ mem_cons_self)
  rw [encodeAll_append, encodeAll_cons] at content
  obtain ⟨turns, r, pending, same, enough, read⟩ := read_reaches opened content
    (fun f mem => small f (mem_append_left _ mem)) others
  rw [encodeEntry_eq, List.append_assoc] at pending
  obtain ⟨t, rfl⟩ := Nat.exists_eq_add_of_lt enough
  obtain ⟨r₁, left, turn⟩ := forEntries_header (readStep s.flushed.content.length e.sequence)
    (fun _ => (.error .sequenceNotFound : Except WalError (List Byte))) (fun _ => .error) pending
    (List.length (encodeEntry e.sequence e.data ++ encodeAll after) + t) ()
  have header : (⟨e.sequence, e.data.length % 2 ^ 32, checksumIEEE e.data⟩ : Header) = e.header := by
    rw [(small e (mem_append_right _ (mem_singleton.mpr rfl))).mod]
    rfl
  obtain ⟨r₂, found, -⟩ := readStep_found left.pending fits
  rw [read, turn, header, found]
  rfl

theorem read_missing {seq : Seq} (opened : s.closed = false)
    (content : s.flushed.content = encodeAll es) (small : ∀ e ∈ es, e.Small)
    (others : ∀ e ∈ es, e.sequence ≠ seq) : (s.read seq).1 = .error .sequenceNotFound := by
  rw [← append_nil (encodeAll es)] at content
  obtain ⟨turns, r, pending, -, enough, read⟩ := read_reaches opened content small others
  obtain ⟨t, rfl⟩ := Nat.exists_eq_add_of_lt enough
  obtain ⟨r₁, ended, -⟩ := forEntries_ended (readStep s.flushed.content.length seq)
    (fun _ => (.error .sequenceNotFound : Except WalError (List Byte))) (fun _ => .error) pending
    (List.length ([] : List Byte) + t) ()
  rw [read, ended]

theorem length_readBody {fileSize length : Nat} {r r' : Reader Byte} {data : List Byte}
    (read : readBody fileSize length r = (.ok data, r')) : data.length = length := by
  have got := (readFull_leaves length r).1
  unfold readBody at read
  split at read
  · cases read
  · dsimp only at read
    split at read
    · cases read
    · next enough =>
      cases read
      rw [got, length_take] at enough ⊢
      omega

theorem read_cut {e : Entry} (opened : s.closed = false)
    (content : s.flushed.content = encodeAll (before ++ e :: after)) (small : ∀ f ∈ before, f.Small)
    (large : ¬ e.Small) (others : ∀ f ∈ before, f.sequence ≠ e.sequence) :
    (s.read e.sequence).1 ≠ .ok e.data := by
  rw [encodeAll_append, encodeAll_cons] at content
  obtain ⟨turns, r, pending, -, enough, read⟩ := read_reaches opened content small others
  rw [encodeEntry_eq, List.append_assoc] at pending
  obtain ⟨t, rfl⟩ := Nat.exists_eq_add_of_lt enough
  obtain ⟨r₁, -, turn⟩ := forEntries_header (readStep s.flushed.content.length e.sequence)
    (fun _ => (.error .sequenceNotFound : Except WalError (List Byte))) (fun _ => .error) pending
    (List.length (encodeEntry e.sequence e.data ++ encodeAll after) + t) ()
  have shorter : e.data.length % 2 ^ 32 ≠ e.data.length := by
    intro same
    have below := Nat.mod_lt e.data.length (show 0 < 2 ^ 32 by decide)
    rw [same] at below
    exact large below
  rw [read, turn]
  rw [readStep, checkedBody, if_pos rfl]
  cases body : readBody s.flushed.content.length (e.data.length % 2 ^ 32) r₁ with
  | mk out r₂ =>
    cases out with
    | error err =>
      intro found
      cases found
    | ok data =>
      have length := length_readBody body
      dsimp only [Body.proceed]
      split
      · intro found
        cases found
        exact shorter length.symm
      · intro found
        cases found

end Segment

namespace Wal

/-- A call of `Write`: the data and the time. -/
structure WriteCall where
  data : List Byte
  now : Int

/-- Calls of `Write` in order, with the entries that were acknowledged. -/
def writeAll (w : Wal) : List WriteCall → List Entry × Wal
  | [] => ([], w)
  | c :: calls =>
    match w.write c.data c.now with
    | (.ok seq, w) =>
      let (es, w) := writeAll w calls
      (⟨seq, c.data⟩ :: es, w)
    | (.error _, w) => writeAll w calls

/-- The data, numbered from `seq + 1` on. -/
def numbered (seq : Seq) : List (List Byte) → List Entry
  | [] => []
  | data :: rest => ⟨seq + 1, data⟩ :: numbered (seq + 1) rest

/-- An open log accepts writes. -/
structure Writable (w : Wal) : Prop where
  opened : w.closed = false
  current : w.current.closed = false

variable {w : Wal}

section

variable (writable : w.Writable)
include writable

theorem Writable.rotated (now : Int) :
    (w.rotated now).Writable ∧ (w.rotated now).sequence = w.sequence := by
  unfold Wal.rotated
  split
  · exact ⟨⟨rfl, rfl⟩, rfl⟩
  · exact ⟨writable, rfl⟩

theorem write_eq (data : List Byte) (now : Int) :
    w.write data now = (.ok (w.sequence + 1), { w.rotated now with
      sequence := w.sequence + 1
      current := ((w.rotated now).current.write (w.sequence + 1) data).2 }) := by
  obtain ⟨writable', sequence⟩ := writable.rotated now
  have ok := (write_spec writable'.current (w.sequence + 1) data).1
  rw [write, if_neg (Bool.eq_false_iff.mp writable.opened)]
  dsimp only
  rw [sequence]
  generalize (w.rotated now).current.write (w.sequence + 1) data = result at ok
  obtain ⟨out, current⟩ := result
  cases ok
  rfl

theorem Writable.write (data : List Byte) (now : Int) : (w.write data now).2.Writable := by
  obtain ⟨writable', -⟩ := writable.rotated now
  rw [write_eq writable]
  exact ⟨writable'.opened, (write_spec writable'.current _ _).2.2.1⟩

theorem writeAll_cons (c : WriteCall) (calls : List WriteCall) : w.writeAll (c :: calls) =
      (⟨w.sequence + 1, c.data⟩ :: ((w.write c.data c.now).2.writeAll calls).1,
        ((w.write c.data c.now).2.writeAll calls).2) := by
  rw [writeAll, write_eq writable]

theorem writeAll_fst (calls : List WriteCall) :
    (w.writeAll calls).1 = numbered w.sequence (calls.map WriteCall.data) := by
  induction calls generalizing w with
  | nil => rfl
  | cons c calls ih =>
    have sequence : (w.write c.data c.now).2.sequence = w.sequence + 1 := by
      rw [write_eq writable]
    rw [writeAll_cons writable, ih (writable.write c.data c.now), sequence]
    rfl

end

theorem numbered_append (seq : Seq) (ds es : List (List Byte)) :
    numbered seq (ds ++ es) = numbered seq ds ++ numbered (seq + ofNat 64 ds.length) es := by
  induction ds generalizing seq with
  | nil =>
    have same : seq + ofNat 64 ([] : List (List Byte)).length = seq := BitVec.add_zero seq
    rw [same]
    rfl
  | cons d ds ih =>
    have shift : seq + 1 + ofNat 64 ds.length = seq + ofNat 64 (d :: ds).length := by
      rw [BitVec.add_assoc, length_cons, Nat.add_comm ds.length 1, ofNat_add]
      rfl
    rw [List.cons_append, numbered, ih, shift]
    rfl

theorem length_numbered (seq : Seq) (ds : List (List Byte)) :
    (numbered seq ds).length = ds.length := by
  induction ds generalizing seq with
  | nil => rfl
  | cons d ds ih => rw [numbered, length_cons, ih, length_cons]

variable {seq : Seq} {ds : List (List Byte)}

theorem numbered_ascends (room : seq.toNat + ds.length < 2 ^ 64) :
    (numbered seq ds).Pairwise (fun e f => e.sequence < f.sequence) ∧
      ∀ e ∈ numbered seq ds, seq < e.sequence := by
  induction ds generalizing seq with
  | nil => exact ⟨.nil, fun _ mem => by cases mem⟩
  | cons d ds ih =>
    rw [length_cons] at room
    have next : (seq + 1).toNat = seq.toNat + 1 := by
      rw [toNat_add]
      have one : (1 : Seq).toNat = 1 := rfl
      omega
    obtain ⟨ascends, above⟩ := @ih (seq + 1) (by omega)
    have step : seq < seq + 1 := by
      rw [lt_def, next]
      exact Nat.lt_succ_self _
    refine ⟨.cons above ascends, fun e mem => ?_⟩
    rcases mem_cons.mp mem with rfl | later
    · exact step
    · have bound := above e later
      exact Nat.lt_trans step bound

/-- The whole log is in its first segment. -/
structure Single (w : Wal) (es : List Entry) : Prop where
  opened : w.closed = false
  older : w.older = []
  stores : w.current.Stores es

variable {es : List Entry}

theorem Single.writable (single : w.Single es) : w.Writable :=
  ⟨single.opened, single.stores.opened⟩

theorem Single.write (single : w.Single es) {data : List Byte} {now : Int} (room : ¬ w.Full) :
    (w.write data now).2.Single (es ++ [⟨w.sequence + 1, data⟩]) := by
  have same : w.rotated now = w := if_neg room
  obtain ⟨-, stores, -⟩ := single.stores.write (w.sequence + 1) data
  rw [write_eq single.writable, same]
  exact ⟨single.opened, single.older, stores⟩

def Rotated (w : Wal) : Prop := ∃ s rest, w.older = s :: rest ∧ s.closed = true

theorem Rotated.write (rotated : w.Rotated) (writable : w.Writable) (data : List Byte) (now : Int) :
    (w.write data now).2.Rotated := by
  obtain ⟨s, rest, older, closed⟩ := rotated
  rw [write_eq writable]
  by_cases full : w.Full
  · have next : w.rotated now = w.rotate now := if_pos full
    rw [next]
    exact ⟨s, rest ++ [w.current.close], by
      change w.older ++ [w.current.close] = _
      rw [older]
      rfl, closed⟩
  · have same : w.rotated now = w := if_neg full
    rw [same]
    exact ⟨s, rest, older, closed⟩

theorem Rotated.writeAll (rotated : w.Rotated) (writable : w.Writable) (calls : List WriteCall) :
    (w.writeAll calls).2.Rotated := by
  induction calls generalizing w with
  | nil => exact rotated
  | cons c calls ih =>
    rw [writeAll_cons writable]
    exact ih (rotated.write writable _ _) (writable.write _ _)

theorem close_closed (s : Segment) : s.close.closed = true := by
  unfold Segment.close
  split
  · next closed => exact closed
  · rfl

theorem Single.rotated (single : w.Single es) (full : w.Full) (data : List Byte) (now : Int) :
    (w.write data now).2.Rotated := by
  have next : w.rotated now = w.rotate now := if_pos full
  rw [write_eq single.writable, next]
  refine ⟨w.current.close, [], ?_, close_closed w.current⟩
  change w.older ++ [w.current.close] = _
  rw [single.older]
  rfl

def Fits (limit : Int) (before : Nat) : List (List Byte) → Prop
  | [] => True
  | data :: rest => (before : Int) < limit ∧ Fits limit (before + (entryHeaderSize + data.length)) rest

theorem Single.writeAll (single : w.Single es) (calls : List WriteCall) :
    (Fits w.cfg.segmentSize.toInt (encodeAll es).length (calls.map WriteCall.data) →
      (w.writeAll calls).2.Single (es ++ (w.writeAll calls).1)) ∧
    (¬ Fits w.cfg.segmentSize.toInt (encodeAll es).length (calls.map WriteCall.data) →
      (w.writeAll calls).2.Rotated) := by
  induction calls generalizing w es with
  | nil =>
    refine ⟨fun _ => ?_, fun not => absurd trivial not⟩
    rw [Wal.writeAll, append_nil]
    exact single
  | cons c calls ih =>
    have full : w.Full ↔ ¬ ((encodeAll es).length : Int) < w.cfg.segmentSize.toInt := by
      rw [Full, single.stores.size, Int.not_lt]
    have length : (encodeAll (es ++ [⟨w.sequence + 1, c.data⟩])).length =
        (encodeAll es).length + (entryHeaderSize + c.data.length) := by
      rw [encodeAll_append, length_append, encodeAll_cons, encodeAll_nil, append_nil,
        length_encodeEntry]
    rw [writeAll_cons single.writable]
    by_cases room : w.Full
    · have gone := single.rotated room c.data c.now
      have writable := single.writable.write c.data c.now
      exact ⟨fun fits => absurd fits.1 (full.mp room), fun _ => gone.writeAll writable calls⟩
    · have below := not_not.mp (fun not => room (full.mpr not))
      have cfg : (w.write c.data c.now).2.cfg = w.cfg := by
        rw [write_eq single.writable, Wal.rotated, if_neg room]
      obtain ⟨stays, leaves⟩ := ih (@Single.write _ _ single c.data c.now room)
      rw [cfg, length] at stays leaves
      refine ⟨fun fits => ?_, fun not => leaves fun fits => not ⟨below, fits⟩⟩
      have done := stays fits.2
      rwa [List.append_assoc] at done

theorem Fits.le {limit : Int} {before : Nat} (fits : Fits limit before ds) (low : limit < 2 ^ 63) :
    before + 16 * ds.length < 2 ^ 63 + 16 ∨ ds = [] := by
  induction ds generalizing before with
  | nil => exact Or.inr rfl
  | cons d ds ih =>
    obtain ⟨first, rest⟩ := fits
    refine Or.inl ?_
    rw [length_cons]
    unfold entryHeaderSize at rest
    rcases ih rest with bound | rfl
    · omega
    · rw [length_nil]
      omega

/-- The log gives back the entries: `Read` each of them, `Scan` all in order. -/
structure ReadsBack (w : Wal) (es : List Entry) : Prop where
  read : ∀ e ∈ es, (w.read e.sequence).1 = .ok e.data
  scan : (w.scan 0 fun _ => none).1 = ⟨es, none⟩
  ascends : es.Pairwise (fun e f => e.sequence < f.sequence)

theorem readSegments_found {s : Segment} (found : (s.read seq).1 ≠ .error .sequenceNotFound)
    (older : List Segment) : (readSegments seq (s :: older)).1 = (s.read seq).1 := by
  rw [readSegments]
  generalize s.read seq = result at found
  obtain ⟨out, s'⟩ := result
  cases out with
  | ok data => rfl
  | error e =>
    cases e with
    | sequenceNotFound => exact absurd rfl found
    | _ => rfl

theorem readSegments_missing {s : Segment} (missing : (s.read seq).1 = .error .sequenceNotFound)
    (older : List Segment) : (readSegments seq (s :: older)).1 = (readSegments seq older).1 := by
  rw [readSegments]
  generalize s.read seq = result at missing
  obtain ⟨out, s'⟩ := result
  cases missing
  rfl

theorem Single.read (single : w.Single es) (seq : Seq) :
    (w.read seq).1 = (w.current.read seq).1 := by
  rw [Wal.read, segments, if_neg (Bool.eq_false_iff.mp single.opened), single.older]
  rw [nil_append, reverse_singleton]
  by_cases missing : (w.current.read seq).1 = .error .sequenceNotFound
  · rw [readSegments_missing missing, missing]
    rfl
  · exact readSegments_found missing []

theorem Single.scan (single : w.Single es) (small : ∀ e ∈ es, e.Small) :
    (w.scan 0 fun _ => none).1 = ⟨es, none⟩ := by
  have scanned := (scan_stored single.stores.opened single.stores.content small).1
  rw [Wal.scan, segments, if_neg (Bool.eq_false_iff.mp single.opened), single.older]
  dsimp only [nil_append, scanSegments]
  rw [scanned]

theorem Rotated.scan (rotated : w.Rotated) (opened : w.closed = false) :
    (w.scan 0 fun _ => none).1.error = some .corruptedEntry := by
  obtain ⟨s, rest, older, closed⟩ := rotated
  rw [Wal.scan, segments, if_neg (Bool.eq_false_iff.mp opened), older]
  dsimp only [List.cons_append, scanSegments]
  rw [Segment.scan, if_pos closed]

theorem writable_writeAll (writable : w.Writable) (calls : List WriteCall) :
    (w.writeAll calls).2.Writable := by
  induction calls generalizing w with
  | nil => exact writable
  | cons c calls ih =>
    rw [writeAll_cons writable]
    exact ih (writable.write c.data c.now)

theorem exists_first_large (large : ¬ ∀ e ∈ es, e.Small) :
    ∃ before e after, es = before ++ e :: after ∧ (∀ f ∈ before, f.Small) ∧ ¬ e.Small := by
  induction es with
  | nil => exact absurd (fun _ mem => by cases mem) large
  | cons e es ih =>
    by_cases small : e.Small
    · have later : ¬ ∀ f ∈ es, f.Small := by
        intro all
        refine large fun f mem => ?_
        rcases mem_cons.mp mem with rfl | later
        · exact small
        · exact all f later
      obtain ⟨before, f, after, rfl, smaller, first⟩ := ih later
      refine ⟨e :: before, f, after, rfl, fun g mem => ?_, first⟩
      rcases mem_cons.mp mem with rfl | later
      · exact small
      · exact smaller g later
    · exact ⟨[], e, es, rfl, (fun _ mem => by cases mem), small⟩

theorem small_numbered : (∀ e ∈ numbered seq ds, e.Small) ↔ ∀ d ∈ ds, d.length < 2 ^ 32 := by
  induction ds generalizing seq with
  | nil => simp [numbered]
  | cons d ds ih =>
    rw [numbered, forall_mem_cons, forall_mem_cons, ih]
    rfl

theorem others_of_ascends {before after : List Entry} {e : Entry}
    (ascends : (before ++ e :: after).Pairwise (fun e f => e.sequence < f.sequence)) :
    ∀ f ∈ before, f.sequence ≠ e.sequence := by
  intro f mem same
  have below := (pairwise_append.mp ascends).2.2 f mem e mem_cons_self
  rw [same] at below
  exact BitVec.lt_irrefl _ below

theorem Single.readsBack_iff (single : w.Single es)
    (ascends : es.Pairwise (fun e f => e.sequence < f.sequence)) :
    w.ReadsBack es ↔ ∀ e ∈ es, e.Small := by
  constructor
  · intro back
    by_contra large
    obtain ⟨before, e, after, rfl, small, first⟩ := exists_first_large large
    have read := back.read e (mem_append_right _ mem_cons_self)
    rw [single.read] at read
    exact read_cut single.stores.opened single.stores.content small first
      (others_of_ascends ascends) read
  · intro small
    refine ⟨fun e mem => ?_, single.scan small, ascends⟩
    obtain ⟨before, after, rfl⟩ := append_of_mem mem
    rw [single.read]
    refine read_stored single.stores.opened single.stores.content (fun f inside => ?_)
      (others_of_ascends ascends)
    rcases mem_append.mp inside with earlier | here
    · exact small f (mem_append_left _ earlier)
    · rw [mem_singleton.mp here]
      exact small e mem

theorem new_nil (cfg : Config) (now : Int) : Wal.new cfg [] now = .ok (create cfg [] 0 [] now) := rfl

/-- A new log gives back all that was written to it exactly when it has not
rotated and no entry is of 4 GiB or more. -/
theorem writes_read_back_iff (cfg : Config) (now : Int) (calls : List WriteCall) :
    ∃ w, Wal.new cfg [] now = .ok w ∧ ((w.writeAll calls).2.ReadsBack (w.writeAll calls).1 ↔
      Fits cfg.segmentSize.toInt 0 (calls.map WriteCall.data) ∧
        ∀ c ∈ calls, c.data.length < 2 ^ 32) := by
  refine ⟨_, new_nil cfg now, ?_⟩
  have single : (create cfg [] 0 [] now).Single [] := ⟨rfl, rfl, stores_createSegment _ _⟩
  have writable := single.writable
  have logged := writeAll_fst writable calls
  obtain ⟨stays, leaves⟩ := single.writeAll calls
  have start : (encodeAll []).length = 0 := rfl
  have limit : (create cfg [] 0 [] now).cfg = cfg := rfl
  have zero : (create cfg [] 0 [] now).sequence = 0 := rfl
  rw [limit] at stays leaves
  rw [zero] at logged
  generalize create cfg [] 0 [] now = w at *
  by_cases fits : Fits cfg.segmentSize.toInt 0 (calls.map WriteCall.data)
  · have done := stays fits
    rw [nil_append] at done
    have few : (0 : Seq).toNat + (calls.map WriteCall.data).length < 2 ^ 64 := by
      have bound := toInt_lt (x := cfg.segmentSize)
      rcases fits.le (by omega) with below | none
      · have zero : (0 : Seq).toNat = 0 := rfl
        omega
      · rw [none]
        decide
    have back := done.readsBack_iff (by rw [logged]; exact (numbered_ascends few).1)
    rw [back, logged, small_numbered]
    simp only [fits, true_and, List.forall_mem_map]
  · refine iff_of_false (fun back => ?_) (fun both => fits both.1)
    have error := (leaves fits).scan (writable_writeAll writable calls).opened
    rw [back.scan] at error
    cases error

/-- With a limit of 16 bytes the second entry rotates the first away. -/
theorem rotated_entry_not_read : ∃ w, Wal.new ⟨16, true⟩ [] 0 = .ok w ∧
      (w.writeAll [⟨[], 1⟩, ⟨[], 2⟩]).1 = [⟨1, []⟩, ⟨2, []⟩] ∧
      ((w.writeAll [⟨[], 1⟩, ⟨[], 2⟩]).2.read 1).1 = .error .corruptedEntry ∧
      ¬ (w.writeAll [⟨[], 1⟩, ⟨[], 2⟩]).2.ReadsBack (w.writeAll [⟨[], 1⟩, ⟨[], 2⟩]).1 := by
  have refused : ((create ⟨16, true⟩ [] 0 [] 0).writeAll [⟨[], 1⟩, ⟨[], 2⟩]).1 = [⟨1, []⟩, ⟨2, []⟩] ∧
      (((create ⟨16, true⟩ [] 0 [] 0).writeAll [⟨[], 1⟩, ⟨[], 2⟩]).2.read 1).1 =
        .error .corruptedEntry := ⟨by decide +kernel, by rfl⟩
  refine ⟨_, new_nil _ _, refused.1, refused.2, fun back => ?_⟩
  have read := back.read ⟨1, []⟩ (by rw [refused.1]; exact mem_cons_self)
  cases read

end Wal

end Unheaded.Storage
