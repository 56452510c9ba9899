import Unheaded.Storage.Segment

/-!
# What the readers of a segment see

A read loop takes the entries of the file one by one and changes nothing but the offset.
-/

namespace Unheaded.Storage

open Lib List BitVec

def Entry.header (e : Entry) : Header := ⟨e.sequence, e.data.length, checksumIEEE e.data⟩

def Entry.Small (e : Entry) : Prop := e.data.length < 2 ^ 32

instance (e : Entry) : Decidable e.Small := inferInstanceAs (Decidable (_ < _))

variable (seq : Seq)

def headerBytes (data : List Byte) : List Byte :=
  beBytes 8 seq.toNat ++ beBytes 4 data.length ++ beBytes 4 (checksumIEEE data).toNat

section

variable (data : List Byte)
include data

theorem encodeEntry_eq :
    encodeEntry seq data = headerBytes seq data ++ data := rfl

@[simp] theorem length_headerBytes : (headerBytes seq data).length = entryHeaderSize := by
  simp [headerBytes, entryHeaderSize]

@[simp] theorem length_encodeEntry :
    (encodeEntry seq data).length = entryHeaderSize + data.length := by
  rw [encodeEntry_eq, length_append, length_headerBytes]

theorem encodeEntry_ne_nil : encodeEntry seq data ≠ [] := by
  intro none
  have length := congrArg List.length none
  rw [length_encodeEntry, length_nil, entryHeaderSize] at length
  omega

theorem decodeHeader_headerBytes :
    decodeHeader (headerBytes seq data) = ⟨seq, data.length % 2 ^ 32, checksumIEEE data⟩ := by
  have first : (headerBytes seq data).take 8 = beBytes 8 seq.toNat := by
    rw [headerBytes, List.append_assoc, take_left' (length_beBytes _ _)]
  have rest : (headerBytes seq data).drop 8 =
      beBytes 4 data.length ++ beBytes 4 (checksumIEEE data).toNat := by
    rw [headerBytes, List.append_assoc, drop_left' (length_beBytes _ _)]
  have last : (headerBytes seq data).drop 12 = beBytes 4 (checksumIEEE data).toNat := by
    rw [headerBytes, drop_left' (by rw [length_append, length_beBytes, length_beBytes])]
  have seqBound : seq.toNat % 256 ^ 8 = seq.toNat := Nat.mod_eq_of_lt seq.isLt
  have crcBound : (checksumIEEE data).toNat % 256 ^ 4 = (checksumIEEE data).toNat :=
    Nat.mod_eq_of_lt (checksumIEEE data).isLt
  have lengthBound : data.length % 256 ^ 4 = data.length % 2 ^ 32 := rfl
  rw [decodeHeader, first, rest, last, take_left' (length_beBytes _ _),
    take_of_length_le (Nat.le_of_eq (length_beBytes _ _)), beValue_beBytes, beValue_beBytes,
    beValue_beBytes, seqBound, crcBound, lengthBound, ofNat_toNat, ofNat_toNat,
    setWidth_eq, setWidth_eq]

end

/-- `r'` is `r` after reading as far as `left`. -/
structure Leaves (r r' : Reader Byte) (left : List Byte) : Prop where
  pending : r'.pending = left
  content : r'.content = r.content

theorem readFull_leaves (n : Nat) (r : Reader Byte) :
    (r.readFull READER_SIZE n).1 = r.pending.take n ∧
      Leaves r (r.readFull READER_SIZE n).2 (r.pending.drop n) := by
  obtain ⟨got, left, content⟩ := Reader.readFull_spec (show 0 < READER_SIZE by decide) n r
  exact ⟨got, left, content⟩

theorem discard_leaves (n : Nat) (r : Reader Byte) :
    (r.discard READER_SIZE n).1 = min n r.pending.length ∧
      Leaves r (r.discard READER_SIZE n).2 (r.pending.drop n) := by
  obtain ⟨count, left, content⟩ := Reader.discard_spec (show 0 < READER_SIZE by decide) n r
  exact ⟨count, left, content⟩

theorem readHeader_leaves (r : Reader Byte) :
    Leaves r (readHeader r).2 (r.pending.drop entryHeaderSize) := by
  have leaves := (readFull_leaves entryHeaderSize r).2
  unfold readHeader
  dsimp only
  split
  · exact leaves
  · split <;> exact leaves

theorem readHeader_fst (r : Reader Byte) : (readHeader r).1 =
      if r.pending.length = 0 then .ok none
      else if r.pending.length < entryHeaderSize then .error .unexpectedEof
      else .ok (some (decodeHeader (r.pending.take entryHeaderSize))) := by
  have got := (readFull_leaves entryHeaderSize r).1
  have pos : 0 < entryHeaderSize := by decide
  have length : ((r.readFull READER_SIZE entryHeaderSize).1).length =
      min entryHeaderSize r.pending.length := by
    rw [got, length_take]
  unfold readHeader
  dsimp only
  rw [length, got]
  by_cases none : r.pending.length = 0
  · rw [if_pos none, if_pos (by omega)]
  · rw [if_neg none, if_neg (by omega)]
    by_cases short : r.pending.length < entryHeaderSize
    · rw [if_pos short, if_pos (by omega)]
    · rw [if_neg short, if_neg (by omega)]

theorem readBody_leaves (fileSize length : Nat) (r : Reader Byte) :
    (readBody fileSize length r).2.content = r.content := by
  have leaves := (readFull_leaves length r).2
  unfold readBody
  split
  · rfl
  · dsimp only
    split <;> exact leaves.content

variable {r : Reader Byte} {data rest : List Byte}

theorem readBody_ok {fileSize : Nat} (pending : r.pending = data ++ rest)
    (fits : data.length ≤ fileSize) :
    ∃ r', readBody fileSize data.length r = (.ok data, r') ∧ Leaves r r' rest := by
  obtain ⟨got, leaves⟩ := readFull_leaves data.length r
  rw [pending, take_left] at got
  rw [pending, drop_left] at leaves
  refine ⟨_, ?_, leaves⟩
  rw [readBody, if_neg (Nat.not_lt.mpr fits)]
  dsimp only
  rw [got, if_neg (Nat.lt_irrefl _)]

theorem discardBody_leaves (length : Nat) (r : Reader Byte) :
    Leaves r (discardBody length r).2 (r.pending.drop length) := by
  have leaves := (discard_leaves length r).2
  unfold discardBody
  dsimp only
  split <;> exact leaves

theorem discardBody_fst (length : Nat) (r : Reader Byte) :
    (discardBody length r).1 = if r.pending.length < length then .error .eof else .ok () := by
  have count := (discard_leaves length r).1
  unfold discardBody
  dsimp only
  by_cases short : r.pending.length < length
  · rw [if_pos short, if_pos (by omega)]
  · rw [if_neg short, if_neg (by omega)]

theorem discardBody_ok (pending : r.pending = data ++ rest) :
    ∃ r', discardBody data.length r = (.ok (), r') ∧ Leaves r r' rest := by
  have leaves := discardBody_leaves data.length r
  have out := discardBody_fst data.length r
  rw [pending, drop_left] at leaves
  rw [pending, length_append, if_neg (by omega)] at out
  exact ⟨_, Prod.ext out rfl, leaves⟩

section Loop

variable {σ ρ : Type} (body : σ → Header → Reader Byte → Body σ ρ × Reader Byte)
  (atEnd : σ → ρ) (fail : σ → WalError → ρ)

theorem content_forEntries (keeps : ∀ s h r, (body s h r).2.content = r.content) (turns : Nat)
    (s : σ) (r : Reader Byte) : (forEntries body atEnd fail turns s r).2.content = r.content := by
  induction turns generalizing s r with
  | zero => rfl
  | succ turns ih =>
    have header := (readHeader_leaves r).content
    rw [forEntries]
    generalize readHeader r = first at header
    cases first with
    | mk out r₁ =>
      cases out with
      | error e => exact header
      | ok found =>
        cases found with
        | none => exact header
        | some h =>
          have kept := keeps s h r₁
          dsimp only
          generalize body s h r₁ = second at kept
          cases second with
          | mk next r₂ =>
            cases next with
            | continues s' => exact (ih s' r₂).trans (kept.trans header)
            | returns out => exact kept.trans header

variable {r : Reader Byte}

theorem forEntries_ended (ended : r.pending = []) (turns : Nat) (s : σ) :
    ∃ r', forEntries body atEnd fail (turns + 1) s r = (atEnd s, r') ∧ Leaves r r' [] := by
  have leaves := readHeader_leaves r
  have out := readHeader_fst r
  rw [ended] at leaves
  rw [ended] at out
  refine ⟨(readHeader r).2, ?_, leaves⟩
  have both : readHeader r = (.ok none, (readHeader r).2) := Prod.ext out rfl
  rw [forEntries, both]

theorem forEntries_header {seq : Seq} {data rest : List Byte}
    (pending : r.pending = headerBytes seq data ++ rest) (turns : Nat) (s : σ) :
    ∃ r', Leaves r r' rest ∧ forEntries body atEnd fail (turns + 1) s r =
      Body.proceed (forEntries body atEnd fail turns)
        (body s ⟨seq, data.length % 2 ^ 32, checksumIEEE data⟩ r') := by
  have leaves := readHeader_leaves r
  have out := readHeader_fst r
  have length : r.pending.length = entryHeaderSize + rest.length := by
    rw [pending, length_append, length_headerBytes]
  have pos : 0 < entryHeaderSize := by decide
  rw [if_neg (by omega), if_neg (by omega)] at out
  rw [pending, drop_left' (length_headerBytes _ _)] at leaves
  rw [pending, take_left' (length_headerBytes _ _), decodeHeader_headerBytes] at out
  refine ⟨(readHeader r).2, leaves, ?_⟩
  rw [forEntries]
  generalize readHeader r = first at out
  obtain ⟨found, r'⟩ := first
  cases out
  rfl

/-- The body takes the entry and goes on with `s'`. -/
def Takes (e : Entry) (s s' : σ) : Prop := ∀ r rest, r.pending = e.data ++ rest →
    ∃ r', body s e.header r = (.continues s', r') ∧ Leaves r r' rest

def encodeAll (es : List Entry) : List Byte := es.flatMap fun e => encodeEntry e.sequence e.data

@[simp] theorem encodeAll_nil : encodeAll [] = [] := rfl

theorem encodeAll_append (es fs : List Entry) :
    encodeAll (es ++ fs) = encodeAll es ++ encodeAll fs := flatMap_append

theorem encodeAll_cons (e : Entry) (es : List Entry) :
    encodeAll (e :: es) = encodeEntry e.sequence e.data ++ encodeAll es := rfl

theorem length_le_encodeAll (es : List Entry) : es.length ≤ (encodeAll es).length := by
  induction es with
  | nil => exact Nat.le_refl 0
  | cons e es ih =>
    rw [encodeAll_cons, length_append, length_encodeEntry, length_cons, entryHeaderSize]
    omega

variable {es : List Entry}

theorem length_data_le_encodeAll {e : Entry} (mem : e ∈ es) :
    e.data.length ≤ (encodeAll es).length := by
  induction es with
  | nil => cases mem
  | cons f es ih =>
    rw [encodeAll_cons, length_append, length_encodeEntry]
    rcases mem_cons.mp mem with rfl | later
    · omega
    · have bound := ih later
      omega

theorem Entry.Small.mod {e : Entry} (small : e.Small) : e.data.length % 2 ^ 32 = e.data.length :=
  Nat.mod_eq_of_lt small

variable {f : σ → Entry → σ}

variable (small : ∀ e ∈ es, e.Small) (takes : ∀ e ∈ es, ∀ s, Takes body e s (f s e))
include small takes

theorem forEntries_entries {rest : List Byte}
    (pending : r.pending = encodeAll es ++ rest) (turns : Nat) (s : σ) :
    ∃ r', forEntries body atEnd fail (es.length + turns) s r =
      forEntries body atEnd fail turns (es.foldl f s) r' ∧ Leaves r r' rest := by
  induction es generalizing r s with
  | nil => exact ⟨r, by rw [length_nil, Nat.zero_add]; rfl, pending, rfl⟩
  | cons e es ih =>
    rw [encodeAll_cons, encodeEntry_eq, List.append_assoc, List.append_assoc] at pending
    have count : (e :: es).length + turns = es.length + turns + 1 := by
      rw [length_cons]
      omega
    obtain ⟨r₁, read, turn⟩ := forEntries_header body atEnd fail pending (es.length + turns) s
    obtain ⟨r₂, taken, left⟩ := takes e mem_cons_self s r₁ _ read.pending
    obtain ⟨r₃, done, last⟩ := ih (fun e mem => small e (mem_cons_of_mem _ mem))
      (fun e mem => takes e (mem_cons_of_mem _ mem)) left.pending (f s e)
    refine ⟨r₃, ?_, last.pending, last.content.trans (left.content.trans read.content)⟩
    have header : (⟨e.sequence, e.data.length % 2 ^ 32, checksumIEEE e.data⟩ : Header) = e.header := by
      rw [(small e mem_cons_self).mod]
      rfl
    rw [count, turn, header, taken]
    exact done

theorem forEntries_all (pending : r.pending = encodeAll es) {turns : Nat} (enough : es.length < turns) (s : σ) :
    ∃ r', forEntries body atEnd fail turns s r = (atEnd (es.foldl f s), r') ∧ Leaves r r' [] := by
  rw [← append_nil (encodeAll es)] at pending
  have count : turns = es.length + ((turns - es.length - 1) + 1) := by omega
  obtain ⟨r₁, taken, left⟩ := forEntries_entries body atEnd fail small takes
    pending ((turns - es.length - 1) + 1) s
  obtain ⟨r₂, ended, last⟩ := forEntries_ended body atEnd fail left.pending
    (turns - es.length - 1) (es.foldl f s)
  refine ⟨r₂, ?_, last.pending, last.content.trans left.content⟩
  rw [count, taken, ended]

end Loop

variable (fileSize : Nat)

theorem content_checkedBody (h : Header) (r : Reader Byte) :
    (checkedBody fileSize h r).2.content = r.content := by
  have kept := readBody_leaves fileSize h.length r
  unfold checkedBody
  split
  · next same =>
    rwa [same] at kept
  · next same =>
    rwa [same] at kept

theorem content_readStep (seq : Seq) (s : Unit) (h : Header) (r : Reader Byte) :
    (readStep fileSize seq s h r).2.content = r.content := by
  have kept := (discardBody_leaves h.length r).content
  unfold readStep
  split
  · exact content_checkedBody fileSize h r
  · split
    · next same =>
      rwa [same] at kept
    · next same =>
      rwa [same] at kept

theorem content_scanStep (startSeq : Seq) (fn : List Entry → Option WalError) (visited : List Entry)
    (h : Header) (r : Reader Byte) :
    (scanStep fileSize startSeq fn visited h r).2.content = r.content := by
  have kept := readBody_leaves fileSize h.length r
  unfold scanStep
  split
  · next same =>
    rwa [same] at kept
  · next same =>
    rw [same] at kept
    split
    · exact kept
    · split
      · dsimp only
        split <;> exact kept
      · exact kept

theorem content_countStep (count : Nat) (h : Header) (r : Reader Byte) :
    (countStep count h r).2.content = r.content := by
  have kept := (discardBody_leaves h.length r).content
  unfold countStep
  split
  · next same =>
    rwa [same] at kept
  · next same =>
    rwa [same] at kept

theorem content_readAllStep (entries : List Entry) (h : Header) (r : Reader Byte) :
    (readAllStep fileSize entries h r).2.content = r.content := by
  have kept := content_checkedBody fileSize h r
  unfold readAllStep
  split
  · next same =>
    rwa [same] at kept
  · next same =>
    rwa [same] at kept

variable {e : Entry}

theorem takes_readStep (fileSize : Nat) {seq : Seq} (other : e.sequence ≠ seq) (s : Unit) :
    Takes (readStep fileSize seq) e s () := by
  intro r rest pending
  obtain ⟨r', dropped, left⟩ := discardBody_ok pending
  have length : e.header.length = e.data.length := rfl
  refine ⟨r', ?_, left⟩
  rw [readStep, if_neg (show ¬ e.header.seq = seq from other), length, dropped]

variable {fileSize : Nat}

theorem readStep_found {r : Reader Byte} {rest : List Byte} (pending : r.pending = e.data ++ rest)
    (fits : e.data.length ≤ fileSize) :
    ∃ r', readStep fileSize e.sequence () e.header r = (.returns (.ok e.data), r') ∧
      Leaves r r' rest := by
  obtain ⟨r', got, left⟩ := readBody_ok pending fits
  have length : e.header.length = e.data.length := rfl
  have crc : e.header.crc = checksumIEEE e.data := rfl
  refine ⟨r', ?_, left⟩
  rw [readStep, checkedBody, if_pos (show e.header.seq = e.sequence from rfl), length, got]
  dsimp only
  rw [crc, if_pos rfl]

theorem takes_scanStep (fits : e.data.length ≤ fileSize) (visited : List Entry) :
    Takes (scanStep fileSize 0 fun _ => none) e visited (visited ++ [e]) := by
  intro r rest pending
  obtain ⟨r', got, left⟩ := readBody_ok pending fits
  have length : e.header.length = e.data.length := rfl
  have crc : e.header.crc = checksumIEEE e.data := rfl
  have first : ¬ e.header.seq < 0 := Nat.not_lt_zero _
  refine ⟨r', ?_, left⟩
  rw [scanStep, length, got]
  dsimp only
  rw [crc, if_pos rfl]
  rfl

def Sequences.next (s : Sequences) (e : Entry) : Sequences :=
  ⟨some (s.first.getD e.sequence), e.sequence⟩

theorem takes_sequencesStep (e : Entry) (s : Sequences) : Takes sequencesStep e s (s.next e) := by
  intro r rest pending
  obtain ⟨r', dropped, left⟩ := discardBody_ok pending
  have length : e.header.length = e.data.length := rfl
  refine ⟨r', ?_, left⟩
  rw [sequencesStep, length, dropped]
  rfl

/-- A call on an open segment. -/
inductive SegmentCall where
  | write (seq : Seq) (data : List Byte)
  | read (seq : Seq)
  | scan (startSeq : Seq) (fn : List Entry → Option WalError)
  | entryCount
  | readAll
  | sync

namespace Segment

/-- The segment after a call. -/
def call (s : Segment) : SegmentCall → Segment
  | .write seq data => (s.write seq data).2
  | .read seq => (s.read seq).2
  | .scan startSeq fn => (s.scan startSeq fn).2
  | .entryCount => s.entryCount.2
  | .readAll => s.readAll.2
  | .sync => s.sync

def after (s : Segment) (calls : List SegmentCall) : Segment := calls.foldl call s

end Segment

def SegmentCall.written : SegmentCall → List Byte
  | .write seq data => encodeEntry seq data
  | _ => []

def written (calls : List SegmentCall) : List Byte := calls.flatMap SegmentCall.written

namespace Segment

variable (s : Segment)

@[simp] theorem flushed_setFile (f : File Byte) : (s.setFile f).flushed = f :=
  File.write_nil f

/-- A segment after a read: the file is the flushed one, up to its offset. -/
structure Reread (s s' : Segment) : Prop where
  content : s'.flushed.content = s.flushed.content
  closed : s'.closed = s.closed

theorem Reread.refl : Reread s s := ⟨rfl, rfl⟩

theorem reading_reread {ρ : Type} {loop : Nat → Nat → Reader Byte → ρ × Reader Byte}
    (keeps : ∀ n turns r, (loop n turns r).2.content = r.content) :
    Reread s (s.reading loop).2 := by
  refine ⟨?_, rfl⟩
  rw [reading, flushed_setFile]
  exact keeps _ _ _

theorem read_reread (seq : Seq) : Reread s (s.read seq).2 := by
  unfold read
  split
  · exact .refl s
  · exact s.reading_reread fun _ _ _ => content_forEntries _ _ _ (content_readStep _ _) _ _ _

theorem scan_reread (startSeq : Seq) (fn : List Entry → Option WalError) :
    Reread s (s.scan startSeq fn).2 := by
  unfold scan
  split
  · exact .refl s
  · exact s.reading_reread fun _ _ _ => content_forEntries _ _ _ (content_scanStep _ _ _) _ _ _

theorem entryCount_reread : Reread s s.entryCount.2 := by
  unfold entryCount
  split
  · exact .refl s
  · exact s.reading_reread fun _ _ _ => content_forEntries _ _ _ content_countStep _ _ _

theorem readAll_reread : Reread s s.readAll.2 := by
  unfold readAll
  split
  · exact .refl s
  · exact s.reading_reread fun _ _ _ => content_forEntries _ _ _ (content_readAllStep _) _ _ _

theorem sync_reread : Reread s s.sync := by
  unfold sync
  split
  · exact .refl s
  · exact ⟨congrArg File.content (flushed_setFile s s.flushed), rfl⟩

variable {s : Segment}

section

variable (opened : s.closed = false)
include opened

theorem write_spec (seq : Seq) (data : List Byte) : (s.write seq data).1 = .ok () ∧
      (s.write seq data).2.flushed = s.flushed.write (encodeEntry seq data) ∧
      (s.write seq data).2.closed = false ∧ (s.write seq data).2.path = s.path ∧
      (s.write seq data).2.size = s.size + (encodeEntry seq data).length := by
  have through := Writer.flushed_write WRITER_SIZE s.writer (encodeEntry seq data)
  have open_ : ¬ s.closed = true := Bool.eq_false_iff.mp opened
  rw [write, if_neg open_]
  dsimp only
  generalize s.writer.write WRITER_SIZE (encodeEntry seq data) = w at through
  split
  · exact ⟨rfl, (flushed_setFile _ _).trans through, opened, rfl, rfl⟩
  · exact ⟨rfl, through, opened, rfl, rfl⟩

theorem call_spec (c : SegmentCall) : (s.call c).closed = false ∧
      ((∃ seq data, c = .write seq data ∧ (s.call c).flushed = s.flushed.write (encodeEntry seq data)) ∨
        (∀ seq data, c ≠ .write seq data) ∧ c.written = [] ∧
          (s.call c).flushed.content = s.flushed.content) := by
  cases c with
  | write seq data =>
    obtain ⟨-, flushed, closed, -⟩ := write_spec opened seq data
    exact ⟨closed, Or.inl ⟨seq, data, rfl, flushed⟩⟩
  | read seq =>
    obtain ⟨content, closed⟩ := s.read_reread seq
    exact ⟨closed.trans opened, Or.inr ⟨by simp, rfl, content⟩⟩
  | scan startSeq fn =>
    obtain ⟨content, closed⟩ := s.scan_reread startSeq fn
    exact ⟨closed.trans opened, Or.inr ⟨by simp, rfl, content⟩⟩
  | entryCount =>
    obtain ⟨content, closed⟩ := s.entryCount_reread
    exact ⟨closed.trans opened, Or.inr ⟨by simp, rfl, content⟩⟩
  | readAll =>
    obtain ⟨content, closed⟩ := s.readAll_reread
    exact ⟨closed.trans opened, Or.inr ⟨by simp, rfl, content⟩⟩
  | sync =>
    obtain ⟨content, closed⟩ := s.sync_reread
    exact ⟨closed.trans opened, Or.inr ⟨by simp, rfl, content⟩⟩

theorem call_appends_iff (c : SegmentCall) :
    (s.call c).flushed.content = s.flushed.content ++ c.written ↔
      ∀ seq data, c = .write seq data → s.flushed.AtEnd := by
  obtain ⟨-, ⟨seq, data, rfl, flushed⟩ | ⟨other, nothing, content⟩⟩ := call_spec opened c
  · rw [flushed]
    constructor
    · intro appended _ _ _
      exact File.atEnd_of_write (encodeEntry_ne_nil seq data) appended
    · intro atEnd
      exact (File.write_atEnd (atEnd seq data rfl) _).1
  · rw [content, nothing, append_nil]
    exact iff_of_true rfl fun seq data write => absurd write (other seq data)

theorem after_appends_iff (calls : List SegmentCall) :
    (∀ done, done <+: calls → (s.after done).flushed.content = s.flushed.content ++ written done) ↔
      ∀ done seq data, done ++ [SegmentCall.write seq data] <+: calls → (s.after done).flushed.AtEnd := by
  induction calls generalizing s with
  | nil =>
    refine iff_of_true ?_ ?_
    · intro done initial
      have none := prefix_nil.mp initial
      subst none
      exact (append_nil _).symm
    · intro done seq data initial
      have none := prefix_nil.mp initial
      exact absurd none (by simp)
  | cons c calls ih =>
    have opened' := (call_spec opened c).1
    have first := call_appends_iff opened c
    specialize ih opened'
    have later (done : List SegmentCall) : s.after (c :: done) = (s.call c).after done := rfl
    have joined (done : List SegmentCall) : written (c :: done) = c.written ++ written done := rfl
    constructor
    · intro appends
      have one := appends [c] <| (prefix_cons_inj c).mpr nil_prefix
      have here : (s.call c).flushed.content = s.flushed.content ++ c.written := by
        rw [joined] at one
        rw [show written [] = [] from rfl, append_nil] at one
        exact one
      have rest := ih.mp fun done initial => by
        have both := appends (c :: done) ((prefix_cons_inj c).mpr initial)
        rwa [joined, ← List.append_assoc, ← here] at both
      intro done seq data initial
      cases done with
      | nil =>
        rw [nil_append, cons_prefix_cons] at initial
        exact first.mp here seq data initial.1.symm
      | cons d done =>
        rw [List.cons_append, cons_prefix_cons] at initial
        obtain ⟨rfl, initial⟩ := initial
        exact rest done seq data initial
    · intro atEnd done initial
      have here : (s.call c).flushed.content = s.flushed.content ++ c.written := by
        refine first.mpr fun seq data write => ?_
        subst write
        exact atEnd [] seq data ((prefix_cons_inj _).mpr nil_prefix)
      have rest := ih.mpr fun done seq data initial =>
        atEnd (c :: done) seq data ((prefix_cons_inj c).mpr initial)
      cases done with
      | nil => exact (append_nil _).symm
      | cons d done =>
        rw [cons_prefix_cons] at initial
        obtain ⟨rfl, initial⟩ := initial
        rw [joined, ← List.append_assoc, ← here]
        exact rest done initial

end

/-- A new segment holds what was written to it, in every state of every run of
calls, exactly when every write of the run finds the offset at the end. -/
theorem segment_holds_writes_iff (path : List Char) (syncWrites : Bool) (calls : List SegmentCall) :
    (∀ done, done <+: calls →
        ((createSegment path syncWrites).after done).flushed.content = written done) ↔
      ∀ done seq data, done ++ [SegmentCall.write seq data] <+: calls →
        ((createSegment path syncWrites).after done).flushed.AtEnd :=
  after_appends_iff (s := createSegment path syncWrites) rfl calls

def damaging : List SegmentCall :=
  [.write 1 [], .write 2 (replicate 4096 0), .read 1, .write 3 []]

/-- The read has left the offset after one block, in the second entry. -/
theorem early_read_damages_segment : ¬ ∀ done, done <+: damaging →
      ((createSegment [] true).after done).flushed.content = written done := by
  intro holds
  have lengths := congrArg List.length (holds damaging prefix_rfl)
  exact absurd lengths (by decide +kernel)

end Segment

end Unheaded.Storage
