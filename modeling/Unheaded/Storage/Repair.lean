import Unheaded.Storage.SegmentReads

/-!
# Repair of a segment

`Repair` reads valid entries as long as there are any, cuts the file behind them and looks for the
sequence numbers again.
-/

namespace Unheaded.Storage

open Lib List BitVec

/-- The body of `Repair`, with the size of the valid entries. -/
def repairStep (fileSize validSize : Nat) (h : Header) (r : Reader Byte) :
    Body Nat Nat × Reader Byte :=
  match checkedBody fileSize h r with
  | (.ok data, r) => (.continues (validSize + (entryHeaderSize + data.length)), r)
  | (.error _, r) => (.returns validSize, r)

/-- What `Repair` leaves. -/
structure Repaired where
  content : List Byte
  offset : Nat
  size : Nat
  firstSeq : Seq
  lastSeq : Seq

/-- `Repair`.  Its `scanSequences` of a file of size 0 does nothing. -/
def Segment.repair (s : Segment) : Except WalError Repaired :=
  if s.closed then .error .corruptedEntry
  else
    let content := s.flushed.content
    let (validSize, r) := forEntries (repairStep content.length) id (fun v _ => v)
      (content.length + 1) 0 ⟨.start content, []⟩
    let kept := if validSize < s.size then content.take validSize else content
    let size := if validSize < s.size then validSize else s.size
    if size = 0 then .ok ⟨kept, r.file.offset, size, s.firstSeq, s.lastSeq⟩
    else
      match forEntries sequencesStep .ok (fun _ => .error) (kept.length + 1) {} ⟨.start kept, []⟩ with
      | (.ok q, r) => .ok ⟨kept, r.file.offset, size, q.first.getD s.firstSeq,
          q.first.elim s.lastSeq fun _ => q.last⟩
      | (.error e, _) => .error e

/-- The file with what the next write puts at the offset. -/
def Repaired.written (m : Repaired) (data : List Byte) : List Byte :=
  m.content.take m.offset ++ List.replicate (m.offset - m.content.length) 0 ++ data ++
    m.content.drop (m.offset + data.length)

/-- The bytes start with a whole entry whose checksum matches. -/
def StartsWhole (b : List Byte) : Prop :=
  ∃ e : Entry, e.Small ∧ encodeEntry e.sequence e.data <+: b

theorem exists_valid (b : List Byte) :
    ∃ es tail, (∀ e ∈ es, Entry.Small e) ∧ b = encodeAll es ++ tail ∧ ¬ StartsWhole tail := by
  induction size : b.length using Nat.strong_induction_on generalizing b with
  | _ n ih =>
    by_cases whole : StartsWhole b
    · obtain ⟨e, small, rest, rfl⟩ := whole
      obtain ⟨es, tail, all, rfl, ends⟩ := ih rest.length
        (by rw [← size, length_append, length_encodeEntry, entryHeaderSize]; omega) rest rfl
      refine ⟨e :: es, tail, forall_mem_cons.mpr ⟨small, all⟩, ?_, ends⟩
      rw [encodeAll_cons, List.append_assoc]
    · exact ⟨[], b, fun _ mem => absurd mem not_mem_nil, rfl, whole⟩

theorem encodeEntry_append_inj {e f : Entry} {x y : List Byte} (small : e.Small) (small' : f.Small)
    (same : encodeEntry e.sequence e.data ++ x = encodeEntry f.sequence f.data ++ y) :
    e = f ∧ x = y := by
  rw [encodeEntry_eq, encodeEntry_eq, List.append_assoc, List.append_assoc] at same
  obtain ⟨head, rest⟩ := append_inj same (by simp)
  have decoded := congrArg decodeHeader head
  rw [decodeHeader_headerBytes, decodeHeader_headerBytes, small.mod, small'.mod, Header.mk.injEq] at decoded
  obtain ⟨data, left⟩ := append_inj rest decoded.2.1
  exact ⟨by cases e; cases f; exact congrArg₂ _ decoded.1 data, left⟩

theorem encodeAll_le {es fs : List Entry} {tail : List Byte} (small : ∀ e ∈ es, e.Small)
    (ends : ¬ StartsWhole tail) (small' : ∀ e ∈ fs, e.Small)
    (begins : encodeAll fs <+: encodeAll es ++ tail) :
    (encodeAll fs).length ≤ (encodeAll es).length := by
  induction fs generalizing es with
  | nil => exact Nat.zero_le _
  | cons f fs ih =>
    obtain ⟨left, same⟩ := begins
    rw [encodeAll_cons, List.append_assoc] at same
    cases es with
    | nil => exact absurd ⟨f, small' f mem_cons_self, _, same⟩ ends
    | cons e es =>
      rw [encodeAll_cons, List.append_assoc] at same
      obtain ⟨rfl, rest⟩ := encodeEntry_append_inj (small' f mem_cons_self) (small e mem_cons_self) same
      have shorter := ih (fun e mem => small e (mem_cons_of_mem _ mem))
        (fun e mem => small' e (mem_cons_of_mem _ mem)) ⟨left, rest⟩
      rw [encodeAll_cons, encodeAll_cons, length_append, length_append]
      omega

theorem takes_repairStep {fileSize : Nat} {e : Entry} (fits : e.data.length ≤ fileSize) (v : Nat) :
    Takes (repairStep fileSize) e v (v + (encodeEntry e.sequence e.data).length) := by
  intro r rest pending
  obtain ⟨r', got, left⟩ := readBody_ok pending fits
  have length : e.header.length = e.data.length := rfl
  have crc : e.header.crc = checksumIEEE e.data := rfl
  refine ⟨r', ?_, left⟩
  rw [repairStep, checkedBody, length, got]
  dsimp only
  rw [crc, if_pos rfl, length_encodeEntry]

theorem headerBytes_decodeHeader {h data : List Byte} (full : h.length = 16)
    (length : data.length = (decodeHeader h).length) (crc : checksumIEEE data = (decodeHeader h).crc) :
    headerBytes (decodeHeader h).seq data = h := by
  have field : ∀ {k w : Nat} {b : List Byte}, b.length = k → 2 ^ w = 256 ^ k →
      beBytes k (BitVec.ofNat w (beValue b)).toNat = b := by
    intro k w b size wide
    subst size
    rw [toNat_ofNat, wide, Nat.mod_eq_of_lt (beValue_lt b), beBytes_beValue]
  have four : ((h.drop 8).take 4).length = 4 := by simp [full]
  have middle : beBytes 4 data.length = (h.drop 8).take 4 := by
    have same := beBytes_beValue ((h.drop 8).take 4)
    rwa [four, ← show data.length = beValue ((h.drop 8).take 4) from length] at same
  have last : (h.drop 8).drop 4 = (h.drop 12).take 4 := by
    rw [drop_drop, take_of_length_le (by simp [full])]
  rw [headerBytes, crc, middle]
  unfold decodeHeader
  rw [field (by simp [full]) rfl, field (by simp [full]) rfl, List.append_assoc, ← last,
    take_append_drop, take_append_drop]

theorem startsWhole_of_checked {fileSize : Nat} {b data : List Byte} {r : Reader Byte}
    (long : entryHeaderSize ≤ b.length) (pending : r.pending = b.drop entryHeaderSize)
    (checked : (checkedBody fileSize (decodeHeader (b.take entryHeaderSize)) r).1 = .ok data) :
    StartsWhole b := by
  have full : (b.take entryHeaderSize).length = 16 := length_take_of_le long
  have got := (readFull_leaves (decodeHeader (b.take entryHeaderSize)).length r).1
  rw [pending] at got
  generalize stands : decodeHeader (b.take entryHeaderSize) = h at checked got
  unfold checkedBody readBody at checked
  by_cases refused : fileSize < h.length
  · simp [if_pos refused] at checked
  rw [if_neg refused] at checked
  dsimp only at checked
  by_cases short : (r.readFull READER_SIZE h.length).1.length < h.length
  · simp [if_pos short] at checked
  rw [if_neg short] at checked
  dsimp only at checked
  split at checked
  · next crc =>
    cases checked
    rw [got] at short crc
    have length : (take h.length (drop entryHeaderSize b)).length = h.length :=
      Nat.le_antisymm (length_take_le _ _) (Nat.not_lt.mp short)
    subst stands
    have below := beValue_lt (((b.take entryHeaderSize).drop 8).take 4)
    rw [show (((b.take entryHeaderSize).drop 8).take 4).length = 4 by simp [full]] at below
    refine ⟨⟨(decodeHeader (b.take entryHeaderSize)).seq, _⟩, length.trans_lt below,
      drop (decodeHeader (b.take entryHeaderSize)).length (drop entryHeaderSize b), ?_⟩
    rw [encodeEntry_eq, headerBytes_decodeHeader full length crc, List.append_assoc, take_append_drop,
      take_append_drop]
  · cases checked

theorem pending_checkedBody (fileSize : Nat) (h : Header) (r : Reader Byte) :
    (checkedBody fileSize h r).2.pending.length ≤ r.pending.length := by
  have leaves := (readFull_leaves h.length r).2.pending
  have shorter : (r.readFull READER_SIZE h.length).2.pending.length ≤ r.pending.length := by
    rw [leaves, length_drop]
    exact Nat.sub_le _ _
  unfold checkedBody readBody
  by_cases refused : fileSize < h.length
  · rw [if_pos refused]
  · rw [if_neg refused]
    dsimp only
    by_cases short : (r.readFull READER_SIZE h.length).1.length < h.length
    · rw [if_pos short]
      exact shorter
    · rw [if_neg short]
      exact shorter

theorem forEntries_repairStep_stops {fileSize : Nat} {r : Reader Byte} (ends : ¬ StartsWhole r.pending)
    (turns v : Nat) :
    ∃ r', forEntries (repairStep fileSize) id (fun v _ => v) (turns + 1) v r = (v, r') ∧
      r'.content = r.content ∧ (r.pending ≠ [] → r'.pending.length < r.pending.length) := by
  have out := readHeader_fst r
  have left := readHeader_leaves r
  have pos : entryHeaderSize = 16 := rfl
  have shorter : r.pending ≠ [] → (readHeader r).2.pending.length < r.pending.length := by
    intro some
    have := length_pos_iff.mpr some
    rw [left.pending, length_drop]
    omega
  rw [forEntries]
  generalize readHeader r = first at out left shorter
  obtain ⟨found, r₁⟩ := first
  dsimp only at out left shorter
  by_cases none : r.pending.length = 0
  · rw [if_pos none] at out
    subst out
    exact ⟨r₁, rfl, left.content, shorter⟩
  rw [if_neg none] at out
  by_cases short : r.pending.length < entryHeaderSize
  · rw [if_pos short] at out
    subst out
    exact ⟨r₁, rfl, left.content, shorter⟩
  rw [if_neg short] at out
  subst out
  dsimp only
  have refused : ∀ data,
      (checkedBody fileSize (decodeHeader (r.pending.take entryHeaderSize)) r₁).1 ≠ .ok data :=
    fun data checked => ends (startsWhole_of_checked (Nat.not_lt.mp short) left.pending checked)
  have content := content_checkedBody fileSize (decodeHeader (r.pending.take entryHeaderSize)) r₁
  have pending := pending_checkedBody fileSize (decodeHeader (r.pending.take entryHeaderSize)) r₁
  rw [repairStep]
  generalize checkedBody fileSize (decodeHeader (r.pending.take entryHeaderSize)) r₁ = second
    at refused content pending
  obtain ⟨out, r₂⟩ := second
  cases out with
  | ok data => exact absurd rfl (refused data)
  | error e =>
    exact ⟨r₂, rfl, content.trans left.content, fun some => Nat.lt_of_le_of_lt pending (shorter some)⟩

/-- The file is the longest prefix of whole entries that it held, the fields describe it, and the next
write goes behind it. -/
def Mends (s : Segment) : Prop :=
  ∃ es m, s.repair = .ok m ∧ (∀ e ∈ es, Entry.Small e) ∧ encodeAll es <+: s.flushed.content ∧
    (∀ fs, (∀ e ∈ fs, Entry.Small e) → encodeAll fs <+: s.flushed.content →
      (encodeAll fs).length ≤ (encodeAll es).length) ∧
    m.content = encodeAll es ∧ m.size = (encodeAll es).length ∧
    m.firstSeq = (es.head?.map Entry.sequence).getD 0 ∧
    m.lastSeq = (es.getLast?.map Entry.sequence).getD 0 ∧
    ∀ seq data, m.written (encodeEntry seq data) = m.content ++ encodeEntry seq data

theorem foldl_length (es : List Entry) (v : Nat) :
    es.foldl (fun v e => v + (encodeEntry e.sequence e.data).length) v = v + (encodeAll es).length := by
  induction es generalizing v with
  | nil => rfl
  | cons e es ih => rw [foldl_cons, ih, encodeAll_cons, length_append, Nat.add_assoc]

theorem foldl_next (q : Sequences) (e : Entry) (es : List Entry) :
    (e :: es).foldl Sequences.next q =
      ⟨some (q.first.getD e.sequence), ((e :: es).getLast?.map Entry.sequence).getD 0⟩ := by
  induction es generalizing q e with
  | nil => rfl
  | cons f es ih =>
    rw [foldl_cons, ih, getLast?_cons_cons]
    rfl

theorem repair_loop {content tail : List Byte} {es : List Entry} (small : ∀ e ∈ es, e.Small)
    (held : content = encodeAll es ++ tail) (ends : ¬ StartsWhole tail) :
    ∃ r, forEntries (repairStep content.length) id (fun v _ => v) (content.length + 1) 0
        ⟨.start content, []⟩ = ((encodeAll es).length, r) ∧ r.content = content ∧
      (tail ≠ [] → 0 < r.file.offset) := by
  have size : content.length = (encodeAll es).length + tail.length := by rw [held, length_append]
  have few := length_le_encodeAll es
  have whole : (⟨.start content, []⟩ : Reader Byte).pending = encodeAll es ++ tail :=
    (Reader.pending_start content).trans held
  obtain ⟨r₁, taken, left⟩ := forEntries_entries (repairStep content.length) id (fun v _ => v) small
    (fun e mem v => takes_repairStep ((length_data_le_encodeAll mem).trans (by omega)) v) whole
    (content.length - es.length + 1) 0
  rw [← left.pending] at ends
  obtain ⟨r₂, stops, content₂, shorter⟩ :=
    forEntries_repairStep_stops ends (content.length - es.length) (encodeAll es).length
  have unread : r₂.content = content := content₂.trans left.content
  refine ⟨r₂, ?_, unread, fun some => Nat.pos_of_ne_zero fun zero => ?_⟩
  · rw [foldl_length, Nat.zero_add] at taken
    rw [show content.length + 1 = es.length + (content.length - es.length + 1) by omega, taken, stops]
  · have fewer := shorter (left.pending ▸ some)
    rw [left.pending, Reader.pending, File.rest, zero, drop_zero, length_append,
      show r₂.file.content = content from unread] at fewer
    omega

theorem repair_valid {s : Segment} (opened : s.closed = false) (covered : s.flushed.content.length ≤ s.size)
    {es : List Entry} {tail : List Byte} (small : ∀ e ∈ es, e.Small)
    (held : s.flushed.content = encodeAll es ++ tail) (ends : ¬ StartsWhole tail) :
    ∃ m, s.repair = .ok m ∧ m.content = encodeAll es ∧ m.size = (encodeAll es).length ∧
      (es = [] → m.firstSeq = s.firstSeq ∧ m.lastSeq = s.lastSeq ∧ (m.offset = 0 ↔ tail = [])) ∧
      ∀ e fs, es = e :: fs → m.firstSeq = e.sequence ∧
        m.lastSeq = (es.getLast?.map Entry.sequence).getD 0 ∧ m.offset = m.content.length := by
  obtain ⟨r, loop, content, moved⟩ := repair_loop small held ends
  have size : s.flushed.content.length = (encodeAll es).length + tail.length := by
    rw [held, length_append]
  have kept : (if (encodeAll es).length < s.size then s.flushed.content.take (encodeAll es).length
      else s.flushed.content) = encodeAll es := by
    split
    · rw [held, take_left]
    · have none : tail = [] := eq_nil_of_length_eq_zero (by omega)
      rw [held, none, append_nil]
  have left : (if (encodeAll es).length < s.size then (encodeAll es).length else s.size) =
      (encodeAll es).length := by
    split <;> omega
  rw [Segment.repair, opened, if_neg Bool.false_ne_true]
  dsimp only
  rw [loop]
  dsimp only
  rw [kept, left]
  cases es with
  | nil =>
    refine ⟨_, if_pos rfl, rfl, rfl, fun _ => ⟨rfl, rfl, fun zero => ?_, fun none => ?_⟩, ?_⟩
    · exact Decidable.byContradiction fun some => (moved some).ne' zero
    · have within := r.file.within
      rw [show r.file.content = [] from content.trans (held.trans none)] at within
      exact Nat.le_zero.mp within
    · intro e fs same
      cases same
  | cons e fs =>
    have some : (encodeAll (e :: fs)).length ≠ 0 := by
      rw [encodeAll_cons, length_append, length_encodeEntry, entryHeaderSize]
      omega
    have whole : (⟨.start (encodeAll (e :: fs)), []⟩ : Reader Byte).pending = encodeAll (e :: fs) :=
      Reader.pending_start _
    obtain ⟨r', scanned, last⟩ := forEntries_all sequencesStep
      (.ok : Sequences → Except WalError Sequences) (fun _ => .error) small
      (fun e _ s => takes_sequencesStep e s) whole (Nat.lt_succ_of_le (length_le_encodeAll _)) {}
    rw [if_neg some, scanned, foldl_next]
    generalize encodeAll (e :: fs) = all at last
    refine ⟨_, rfl, rfl, rfl, ?_, fun e' fs' same => ?_⟩
    · intro none
      cases none
    cases same
    refine ⟨rfl, rfl, (Reader.atEnd_of_pending last.pending).trans ?_⟩
    exact congrArg List.length last.content

theorem repair_mends_iff {s : Segment} (opened : s.closed = false)
    (covered : s.flushed.content.length ≤ s.size) : Mends s ↔ StartsWhole s.flushed.content ∨
      s.flushed.content = [] ∧ s.firstSeq = 0 ∧ s.lastSeq = 0 := by
  obtain ⟨es, tail, small, held, ends⟩ := exists_valid s.flushed.content
  obtain ⟨m, repaired, content, size, none, some⟩ := repair_valid opened covered small held ends
  have written : m.offset = m.content.length → ∀ data, m.written data = m.content ++ data := by
    intro atEnd data
    rw [Repaired.written, atEnd, take_length, Nat.sub_self, drop_of_length_le (by omega)]
    simp
  have longest : ∀ fs, (∀ e ∈ fs, Entry.Small e) → encodeAll fs <+: s.flushed.content →
      (encodeAll fs).length ≤ (encodeAll es).length := fun fs small' begins =>
    encodeAll_le small ends small' (held ▸ begins)
  have begins : encodeAll es <+: s.flushed.content := ⟨tail, held.symm⟩
  cases es with
  | nil =>
    obtain ⟨first, last, offset⟩ := none rfl
    have not : ¬ StartsWhole s.flushed.content := held ▸ ends
    rw [show s.flushed.content = tail from held] at not ⊢
    constructor
    · rintro ⟨fs, m', same, -, -, -, content', -, first', last', next⟩
      cases repaired.symm.trans same
      have zero : m.offset = 0 := by
        have length := congrArg List.length (next 0 [])
        rw [Repaired.written, content] at length
        simpa using length
      have empty := offset.mp zero
      have few := length_le_encodeAll fs
      rw [← content', content] at few
      obtain rfl := eq_nil_of_length_eq_zero (Nat.le_zero.mp few)
      exact .inr ⟨empty, first.symm.trans first', last.symm.trans last'⟩
    · rintro (whole | ⟨empty, noFirst, noLast⟩)
      · exact absurd whole not
      · refine ⟨[], m, repaired, small, begins, longest, content, size, first.trans noFirst,
          last.trans noLast, fun seq data => written ?_ _⟩
        rw [content, offset.mpr empty]
        rfl
  | cons e fs =>
    obtain ⟨first, last, atEnd⟩ := some e fs rfl
    refine iff_of_true ⟨e :: fs, m, repaired, small, begins, longest, content, size, first, last,
      fun seq data => written atEnd _⟩ (.inl ⟨e, small e mem_cons_self, encodeAll fs ++ tail, ?_⟩)
    rw [held, encodeAll_cons, List.append_assoc]

/-- One entry without data; the last byte of its checksum is wrong. -/
def damagedFile : SegmentFile := ⟨[], [0, 0, 0, 0, 0, 0, 0, 1, 0, 0, 0, 0, 0, 0, 0, 1]⟩

theorem repair_mends_after_entry :
    ∃ s, openSegment ⟨[], encodeEntry 0 [7] ++ damagedFile.content⟩ true = .ok s ∧ Mends s :=
  ⟨_, rfl, (repair_mends_iff rfl (Nat.le_refl _)).mpr
    (.inl ⟨⟨0, [7]⟩, show 1 < 2 ^ 32 by decide, prefix_append _ _⟩)⟩

/-- The file is emptied, but the next write goes to its old end. -/
theorem repair_leaves_gap : ∃ s, openSegment damagedFile true = .ok s ∧ ¬ Mends s := by
  refine ⟨_, rfl, ?_⟩
  rintro ⟨es, m, same, -, -, -, -, -, -, -, next⟩
  cases same
  exact absurd (next 0 []) (by decide)

end Unheaded.Storage
