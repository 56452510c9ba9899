import Unheaded.Lib.BufferedFile
import Unheaded.Lib.Endian

/-!
# Segments of the write-ahead log

A segment is one file of entries, each with a header of its sequence number, its length and its
checksum.
-/

namespace Unheaded.Storage

open Lib

abbrev Byte := BitVec 8

abbrev Seq := BitVec 64

/-- The errors of the log and of the reads under it. -/
inductive WalError where
  | eof
  | unexpectedEof
  | corruptedEntry
  | sequenceNotFound
  | closed
  | callback
  deriving DecidableEq, Repr

structure Entry where
  sequence : Seq
  data : List Byte
  deriving DecidableEq

def crcBit (c : BitVec 32) : BitVec 32 :=
  if c.getLsbD 0 then (c >>> 1) ^^^ 0xEDB88320 else c >>> 1

def crcByte (c : BitVec 32) (b : Byte) : BitVec 32 :=
  (List.range 8).foldl (fun c _ => crcBit c) (c ^^^ b.setWidth 32)

def checksumIEEE (data : List Byte) : BitVec 32 := ~~~(data.foldl crcByte 0xFFFFFFFF)

def entryHeaderSize : Nat := 16

/-- `encodeEntry`: the length is cut to 32 bits. -/
def encodeEntry (seq : Seq) (data : List Byte) : List Byte :=
  beBytes 8 seq.toNat ++ beBytes 4 data.length ++ beBytes 4 (checksumIEEE data).toNat ++ data

structure Header where
  seq : Seq
  length : Nat
  crc : BitVec 32
  deriving DecidableEq

def decodeHeader (h : List Byte) : Header where
  seq := BitVec.ofNat 64 (beValue (h.take 8))
  length := beValue ((h.drop 8).take 4)
  crc := BitVec.ofNat 32 (beValue ((h.drop 12).take 4))

/-- The block size of `bufio.NewReader`. -/
def READER_SIZE : Nat := 4096

/-- A header; `none` at the end of the file. -/
def readHeader (r : Reader Byte) : Except WalError (Option Header) × Reader Byte :=
  let (h, r) := r.readFull READER_SIZE entryHeaderSize
  if h.length = 0 then (.ok none, r)
  else if h.length < entryHeaderSize then (.error .unexpectedEof, r)
  else (.ok (some (decodeHeader h)), r)

/-- `readBody`: a length that the file cannot hold is refused first. -/
def readBody (fileSize length : Nat) (r : Reader Byte) : Except WalError (List Byte) × Reader Byte :=
  if fileSize < length then (.error .corruptedEntry, r)
  else
    let (data, r) := r.readFull READER_SIZE length
    if data.length < length then
      (.error (if data.length = 0 then .eof else .unexpectedEof), r)
    else (.ok data, r)

def discardBody (length : Nat) (r : Reader Byte) : Except WalError Unit × Reader Byte :=
  let (n, r) := r.discard READER_SIZE length
  if n < length then (.error .eof, r) else (.ok (), r)

/-- How the body of a read loop ends: with the next header, or with a return. -/
inductive Body (σ ρ : Type) where
  | continues (s : σ)
  | returns (out : ρ)

section Loop

variable {σ ρ : Type} (body : σ → Header → Reader Byte → Body σ ρ × Reader Byte)
  (atEnd : σ → ρ) (fail : σ → WalError → ρ)

def Body.proceed (turn : σ → Reader Byte → ρ × Reader Byte) : Body σ ρ × Reader Byte → ρ × Reader Byte
  | (.continues s, r) => turn s r
  | (.returns out, r) => (out, r)

/-- The loop that all readers of a segment share. -/
def forEntries : Nat → σ → Reader Byte → ρ × Reader Byte
  | 0, s, r => (atEnd s, r)
  | turns + 1, s, r =>
    match readHeader r with
    | (.error e, r) => (fail s e, r)
    | (.ok none, r) => (atEnd s, r)
    | (.ok (some h), r) => Body.proceed (forEntries turns) (body s h r)

end Loop

variable (fileSize : Nat)

/-- The read of one entry with its checksum. -/
def checkedBody (h : Header) (r : Reader Byte) : Except WalError (List Byte) × Reader Byte :=
  match readBody fileSize h.length r with
  | (.ok data, r) => (if checksumIEEE data = h.crc then .ok data else .error .corruptedEntry, r)
  | (.error e, r) => (.error e, r)

/-- The body of `Read`. -/
def readStep (seq : Seq) (_ : Unit) (h : Header) (r : Reader Byte) :
    Body Unit (Except WalError (List Byte)) × Reader Byte :=
  if h.seq = seq then
    let (out, r) := checkedBody fileSize h r
    (.returns out, r)
  else
    match discardBody h.length r with
    | (.ok (), r) => (.continues (), r)
    | (.error e, r) => (.returns (.error e), r)

/-- The outcome of a scan: the entries that the function was called with, and
the error returned. -/
structure Scanned where
  visited : List Entry
  error : Option WalError
  deriving DecidableEq

/-- The body of `Scan`.  An entry below the start is read and skipped before its
checksum is looked at.  The function is given all entries up to this one, as a
closure may remember them. -/
def scanStep (startSeq : Seq) (fn : List Entry → Option WalError) (visited : List Entry)
    (h : Header) (r : Reader Byte) : Body (List Entry) Scanned × Reader Byte :=
  match readBody fileSize h.length r with
  | (.error e, r) => (.returns ⟨visited, some e⟩, r)
  | (.ok data, r) =>
    if h.seq < startSeq then (.continues visited, r)
    else if checksumIEEE data = h.crc then
      let visited := visited ++ [⟨h.seq, data⟩]
      match fn visited with
      | some e => (.returns ⟨visited, some e⟩, r)
      | none => (.continues visited, r)
    else (.returns ⟨visited, some .corruptedEntry⟩, r)

/-- The body of `EntryCount`. -/
def countStep (count : Nat) (h : Header) (r : Reader Byte) :
    Body Nat (Except WalError Nat) × Reader Byte :=
  match discardBody h.length r with
  | (.ok (), r) => (.continues (count + 1), r)
  | (.error e, r) => (.returns (.error e), r)

/-- The body of `ReadAll`. -/
def readAllStep (entries : List Entry) (h : Header) (r : Reader Byte) :
    Body (List Entry) (Except WalError (List Entry)) × Reader Byte :=
  match checkedBody fileSize h r with
  | (.ok data, r) => (.continues (entries ++ [⟨h.seq, data⟩]), r)
  | (.error e, r) => (.returns (.error e), r)

/-- The first and the last sequence number, as `scanSequences` collects them. -/
structure Sequences where
  first : Option Seq := none
  last : Seq := 0
  deriving DecidableEq

/-- The body of `scanSequences`. -/
def sequencesStep (s : Sequences) (h : Header) (r : Reader Byte) :
    Body Sequences (Except WalError Sequences) × Reader Byte :=
  match discardBody h.length r with
  | (.ok (), r) => (.continues ⟨some (s.first.getD h.seq), h.seq⟩, r)
  | (.error e, r) => (.returns (.error e), r)

structure Segment where
  path : List Char
  writer : Writer Byte
  size : Nat
  syncWrites : Bool
  closed : Bool
  firstSeq : Seq
  lastSeq : Seq

/-- The buffer of `bufio.NewWriterSize`. -/
def WRITER_SIZE : Nat := 64 * 1024

/-- `CreateSegment`: the file is empty, whatever it held. -/
def createSegment (path : List Char) (syncWrites : Bool) : Segment :=
  ⟨path, ⟨.empty, []⟩, 0, syncWrites, false, 0, 0⟩

/-- A file of the log's directory. -/
structure SegmentFile where
  name : List Char
  content : List Byte
  deriving DecidableEq

/-- `scanSequences` of a file. -/
def scanSequences (content : List Byte) : Except WalError Sequences :=
  if content.length = 0 then .ok {}
  else (forEntries sequencesStep .ok (fun _ => .error) (content.length + 1) {}
    ⟨.start content, []⟩).1

def openSegment (f : SegmentFile) (syncWrites : Bool) : Except WalError Segment :=
  match scanSequences f.content with
  | .error e => .error e
  | .ok s => .ok ⟨f.name, ⟨(File.start f.content).seekEnd, []⟩, f.content.length, syncWrites, false,
      s.first.getD 0, s.last⟩

namespace Segment

variable (s : Segment)

def flushed : File Byte := s.writer.flushed

def setFile (f : File Byte) : Segment := { s with writer := ⟨f, []⟩ }

def flush : Segment := s.setFile s.flushed

/-- Flush, seek to the start and run a read loop. -/
def reading {ρ : Type} (loop : Nat → Nat → Reader Byte → ρ × Reader Byte) : ρ × Segment :=
  let content := s.flushed.content
  let (out, r) := loop content.length (content.length + 1) ⟨.start content, []⟩
  (out, s.setFile r.file)

def write (seq : Seq) (data : List Byte) : Except WalError Unit × Segment :=
  if s.closed then (.error .corruptedEntry, s)
  else
    let entry := encodeEntry seq data
    let s := { s with
      writer := s.writer.write WRITER_SIZE entry
      size := s.size + entry.length
      firstSeq := if s.firstSeq = 0 then seq else s.firstSeq
      lastSeq := seq }
    (.ok (), if s.syncWrites then s.flush else s)

def read (seq : Seq) : Except WalError (List Byte) × Segment :=
  if s.closed then (.error .corruptedEntry, s)
  else s.reading fun fileSize turns r =>
    forEntries (readStep fileSize seq) (fun _ => .error .sequenceNotFound) (fun _ => .error) turns () r

def scan (startSeq : Seq) (fn : List Entry → Option WalError) : Scanned × Segment :=
  if s.closed then (⟨[], some .corruptedEntry⟩, s)
  else s.reading fun fileSize turns r =>
    forEntries (scanStep fileSize startSeq fn) (fun visited => ⟨visited, none⟩)
      (fun visited e => ⟨visited, some e⟩) turns [] r

def entryCount : Except WalError Nat × Segment :=
  if s.closed then (.error .corruptedEntry, s)
  else s.reading fun _ turns r => forEntries countStep .ok (fun _ => .error) turns 0 r

def readAll : Except WalError (List Entry) × Segment :=
  if s.closed then (.error .corruptedEntry, s)
  else s.reading fun fileSize turns r =>
    forEntries (readAllStep fileSize) .ok (fun _ => .error) turns [] r

def sync : Segment := if s.closed then s else s.flush

def close : Segment := if s.closed then s else { s.flush with closed := true }

def toFile : SegmentFile := ⟨s.path, s.flushed.content⟩

end Segment

end Unheaded.Storage
