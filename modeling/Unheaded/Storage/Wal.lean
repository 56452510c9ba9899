import Mathlib.Data.List.Sort
import Unheaded.Storage.Segment

/-!
# The write-ahead log

The log is a directory of segments.
-/

namespace Unheaded.Storage

open Lib

structure Config where
  segmentSize : BitVec 64
  syncWrites : Bool

/-- An open log.  `older` are the segments before the current one; `skipped` are
the files of the directory that could not be opened as segments. -/
structure Wal where
  cfg : Config
  older : List Segment
  current : Segment
  sequence : Seq
  closed : Bool
  skipped : List SegmentFile

def SEGMENT_SUFFIX : List Char := ".wal".toList

/-- `%016d`. -/
def padded (n : Int) : List Char :=
  let digits := Nat.toDigits 10 n.natAbs
  if n < 0 then '-' :: (List.replicate (15 - digits.length) '0' ++ digits)
  else List.replicate (16 - digits.length) '0' ++ digits

def segmentName (now : Int) : List Char := padded now ++ SEGMENT_SUFFIX

/-- Strings are compared byte by byte. -/
def nameLe : List Char → List Char → Bool
  | [], _ => true
  | _ :: _, [] => false
  | a :: as, b :: bs => if a = b then nameLe as bs else decide (a.toNat < b.toNat)

namespace Wal

variable (w : Wal)

def segments : List Segment := w.older ++ [w.current]

def files : List SegmentFile := w.skipped ++ w.segments.map Segment.toFile

def segmentFiles (dir : List SegmentFile) : List SegmentFile :=
  (dir.filter fun f => SEGMENT_SUFFIX.isSuffixOf f.name).insertionSort fun f g => nameLe f.name g.name

/-- The loop of `loadSegments`: a file that cannot be opened is skipped. -/
def openAll (syncWrites : Bool) : List SegmentFile → List Segment × List SegmentFile
  | [] => ([], [])
  | f :: fs =>
    let (opened, skipped) := openAll syncWrites fs
    match openSegment f syncWrites with
    | .ok s => (s :: opened, skipped)
    | .error _ => (opened, f :: skipped)

/-- A new segment in the directory; a file of that name is lost. -/
def create (cfg : Config) (older : List Segment) (sequence : Seq) (skipped : List SegmentFile)
    (now : Int) : Wal where
  cfg := cfg
  older := older
  current := createSegment (segmentName now) cfg.syncWrites
  sequence := sequence
  closed := false
  skipped := skipped.filter fun f => f.name ≠ segmentName now

/-- `recoverSequence`: the last number that a scan of the current segment visits. -/
def recoverSequence : Except WalError Wal :=
  let (scanned, current) := w.current.scan 0 fun _ => none
  match scanned.error with
  | none | some .eof =>
    .ok { w with
      current := current
      sequence := (scanned.visited.getLast?.map Entry.sequence).getD 0 }
  | some e => .error e

def new (cfg : Config) (dir : List SegmentFile) (now : Int) : Except WalError Wal :=
  let (opened, skipped) := openAll cfg.syncWrites (segmentFiles dir)
  let skipped := dir.filter (fun f => !SEGMENT_SUFFIX.isSuffixOf f.name) ++ skipped
  match opened.getLast? with
  | none => .ok (create cfg [] 0 skipped now)
  | some current => recoverSequence ⟨cfg, opened.dropLast, current, 0, false, skipped⟩

def rotate (now : Int) : Wal :=
  create w.cfg (w.older ++ [w.current.close]) w.sequence w.skipped now

def Full : Prop := w.cfg.segmentSize.toInt ≤ w.current.size

instance (w : Wal) : Decidable w.Full := inferInstanceAs (Decidable (_ ≤ _))

def rotated (now : Int) : Wal := if w.Full then w.rotate now else w

/-- `Write`, at the time `now`. -/
def write (data : List Byte) (now : Int) : Except WalError Seq × Wal :=
  if w.closed then (.error .closed, w)
  else
    let w := w.rotated now
    let seq := w.sequence + 1
    match w.current.write seq data with
    | (.ok (), current) => (.ok seq, { w with sequence := seq, current := current })
    | (.error e, current) => (.error e, { w with sequence := seq, current := current })

/-- The search of `Read`, from the newest segment on. -/
def readSegments (seq : Seq) : List Segment → Except WalError (List Byte) × List Segment
  | [] => (.error .sequenceNotFound, [])
  | s :: older =>
    match s.read seq with
    | (.error .sequenceNotFound, s) =>
      let (out, older) := readSegments seq older
      (out, s :: older)
    | (out, s) => (out, s :: older)

def putBack : List Segment → Wal
  | [] => w
  | current :: older => { w with older := older.reverse, current := current }

def read (seq : Seq) : Except WalError (List Byte) × Wal :=
  if w.closed then (.error .closed, w)
  else
    let (out, segments) := readSegments seq w.segments.reverse
    (out, w.putBack segments)

/-- The loop of `Scan`, oldest segment first. -/
def scanSegments (startSeq : Seq) (fn : List Entry → Option WalError) :
    List Segment → List Entry → Scanned × List Segment
  | [], visited => (⟨visited, none⟩, [])
  | s :: newer, visited =>
    let (scanned, s) := s.scan startSeq fun entries => fn (visited ++ entries)
    match scanned.error with
    | none | some .eof =>
      let (out, newer) := scanSegments startSeq fn newer (visited ++ scanned.visited)
      (out, s :: newer)
    | some e => (⟨visited ++ scanned.visited, some e⟩, s :: newer)

/-- `Scan`.  A cancelled context is an error of the function. -/
def scan (startSeq : Seq) (fn : List Entry → Option WalError) : Scanned × Wal :=
  if w.closed then (⟨[], some .closed⟩, w)
  else
    let (out, segments) := scanSegments startSeq fn w.segments []
    (out, w.putBack segments.reverse)

/-- `toRemove`: the current segment is never in it. -/
def toRemove (beforeSeq : Seq) : List Segment :=
  w.older.filter fun s => decide (s.lastSeq < beforeSeq)

/-- `toKeep`, but for the current segment. -/
def toKeep (beforeSeq : Seq) : List Segment :=
  w.older.filter fun s => !decide (s.lastSeq < beforeSeq)

/-- `Truncate`.  The files of `toRemove` are closed and removed. -/
def truncate (beforeSeq : Seq) : Option WalError × Wal :=
  if w.closed then (some .closed, w) else (none, { w with older := w.toKeep beforeSeq })

def sync : Option WalError × Wal :=
  if w.closed then (some .closed, w) else (none, { w with current := w.current.sync })

def close : Wal :=
  { w with closed := true, older := w.older.map Segment.close, current := w.current.close }

end Wal

end Unheaded.Storage
