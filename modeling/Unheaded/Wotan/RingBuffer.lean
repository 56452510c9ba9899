import Unheaded.Lib.Window

/-!
# The ring buffer of a room

Messages are kept in a slice of pointers that grows up to `size` slots and is then used in a
circle.
-/

namespace Unheaded.Wotan

abbrev Byte := BitVec 8

/-- Topics and keys are told apart byte by byte. -/
instance : LawfulBEq (List Byte) := inferInstance

abbrev Uuid := BitVec 128

/-- The signature of a signed message and the sender that it covers. -/
structure Signature where
  sender : List Byte
  signature : List Byte
  publicKey : List Byte
  algorithm : List Byte
  signedAtUnixMs : Int
  deriving DecidableEq, Repr

structure Message where
  id : Uuid
  creatorId : Uuid
  roomId : List Byte
  content : List Byte
  signed : Option Signature
  /-- Assigned by `push`. -/
  seq : Int
  deriving DecidableEq, Repr

/-- The variable-length fields of a message, in bytes. -/
def msgBytes (m : Message) : Nat :=
  match m.signed with
  | none => m.content.length
  | some s => m.content.length +
      (s.signature.length + s.publicKey.length + s.sender.length + s.algorithm.length)

def messageOverhead : Nat := 192

def initialSlots : Nat := 16

/-- `buffer` and `cap` are the slice: its elements and its capacity. -/
structure RingBuffer where
  buffer : List (Option Message)
  cap : Nat
  size : Nat
  head : Int
  count : Nat
  wrapping : Bool
  lastSeq : Int
  maxBytes : Nat
  bytes : Int
  shared : Bool
  deriving DecidableEq, Repr

namespace RingBuffer

/-- `New`; `NewShared` when `shared`. -/
def new (size : Int) (shared : Bool) : RingBuffer :=
  let size : Nat := if size ≤ 0 then 1000 else size.toNat
  { buffer := [], cap := min size initialSlots, size, head := 0, count := 0, wrapping := false,
    lastSeq := 0, maxBytes := 0, bytes := 0, shared }

def setMaxBytes (n : Int) (rb : RingBuffer) : RingBuffer := { rb with maxBytes := n.toNat }

variable (rb : RingBuffer)

/-- `sum % rb.size`, the sum in the 64 bits of an `int`. -/
def wrapped (sum : Int) : Int := (sum.bmod (2 ^ 64)).tmod rb.size

/-- The place of the oldest message. -/
def oldest : Int := rb.wrapped (rb.head - rb.count + rb.size)

def slot (i : Int) : Option (Option Message) := if 0 ≤ i then rb.buffer[i.toNat]? else none

def deref (i : Int) : Option Message := (rb.slot i).join

def store (i : Int) (p : Option Message) : Option RingBuffer :=
  if 0 ≤ i ∧ i < rb.buffer.length then some { rb with buffer := rb.buffer.set i.toNat p } else none

/-- One more slot.  The slice is cut at its capacity, so a longer one is a
panic. -/
def grow : Option RingBuffer :=
  let cap := if rb.cap = rb.buffer.length then min rb.size (max initialSlots (2 * rb.cap)) else rb.cap
  if rb.buffer.length + 1 ≤ cap then some { rb with buffer := rb.buffer ++ [none], cap } else none

/-- The oldest message leaves: the last steps of `EvictOldest` and of a turn of
the loop of `Push`. -/
def dropOldest : Option (Nat × RingBuffer) := do
  let msg ← rb.deref rb.oldest
  let rb' ← { rb with bytes := rb.bytes - msgBytes msg }.store rb.oldest none
  some (msgBytes msg, { rb' with count := rb.count - 1 })

/-- The loop of `Push` for the byte budget. -/
def trim : Nat → Bool → RingBuffer → Option (Bool × RingBuffer)
  | 0, overwritten, rb => some (overwritten, rb)
  | turns + 1, overwritten, rb =>
    if 0 < rb.maxBytes ∧ (rb.maxBytes : Int) < rb.bytes ∧ 1 < rb.count then do
      let (_, rb) ← rb.dropOldest
      trim turns true rb
    else some (overwritten, rb)

def discount : Option RingBuffer :=
  if rb.count = rb.size then do
    let old ← rb.deref rb.head
    some { rb with wrapping := true, bytes := rb.bytes - msgBytes old }
  else some rb

def extend : Option RingBuffer :=
  if rb.head = rb.buffer.length then rb.grow else some rb

/-- The message is stored at `head`, in a new slot if there is none. -/
def place (msg : Message) (rb : RingBuffer) : Option RingBuffer := do
  let rb ← rb.extend
  let rb ← rb.store rb.head (some msg)
  some { rb with
    bytes := rb.bytes + msgBytes msg
    head := rb.wrapped (rb.head + 1)
    count := if rb.count < rb.size then rb.count + 1 else rb.count }

/-- `Push` once the message has its number. -/
def pushSeq (seq : Int) (msg : Message) (rb : RingBuffer) : Option (Message × Bool × RingBuffer) := do
  let overwritten : Bool := rb.count = rb.size
  let rb ← rb.discount
  let msg := { msg with seq := seq }
  let rb ← { rb with lastSeq := seq }.place msg
  let (overwritten, rb) ← rb.trim rb.count overwritten
  some (msg, overwritten, rb)

/-- The number that `Push` assigns, with the shared counter afterwards. -/
def nextSeq (counter : Int) (rb : RingBuffer) : Int × Int :=
  if rb.shared then (counter + 1, counter + 1) else (rb.lastSeq + 1, counter)

/-- `Push`: the message as it is stored, whether an old one was overwritten or
dropped, and the counter. -/
def push (counter : Int) (msg : Message) (rb : RingBuffer) :
    Option (Message × Bool × Int × RingBuffer) := do
  let (seq, counter) := rb.nextSeq counter
  let (msg, overwritten, rb) ← rb.pushSeq seq msg
  some (msg, overwritten, counter, rb)

/-- `Get`: the pointers, oldest first. -/
def get : Option (List (Option Message)) :=
  (List.range rb.count).mapM fun i : Nat => rb.slot (rb.wrapped (rb.oldest + i))

/-- The loop of `GetAfter` with `left` turns to go, at turn `i`. -/
def getAfterLoop (after limit : Int) (rb : RingBuffer) :
    Nat → Nat → List Message → Option (List Message)
  | 0, _, result => some result
  | left + 1, i, result => do
    let msg ← rb.deref (rb.wrapped (rb.oldest + i))
    if msg.seq ≤ after then getAfterLoop after limit rb left (i + 1) result
    else
      let result := result ++ [msg]
      if 0 < limit ∧ (result.length : Int) = limit then some result
      else getAfterLoop after limit rb left (i + 1) result

def getAfter (after limit : Int) (rb : RingBuffer) : Option (List Message) :=
  rb.getAfterLoop after limit rb.count 0 []

/-- What `Delete` compares. -/
def Matches (id creatorId : Uuid) (content : List Byte) (m : Message) : Bool :=
  m.id = id ∧ m.creatorId = creatorId ∧ m.content = content

/-- The newer messages move back one place, from turn `j` on. -/
def shift (start : Int) : Nat → Nat → RingBuffer → Option RingBuffer
  | 0, _, rb => some rb
  | left + 1, j, rb => do
    let p ← rb.slot (rb.wrapped (start + j + 1))
    let rb ← rb.store (rb.wrapped (start + j)) p
    shift start left (j + 1) rb

/-- The message of turn `i` leaves. -/
def removeAt (i : Nat) (msg : Message) (rb : RingBuffer) : Option RingBuffer := do
  let start := rb.oldest
  let rb ← rb.shift start (rb.count - 1 - i) i
  let rb ← rb.store (rb.wrapped (start + rb.count - 1)) none
  some { rb with
    bytes := rb.bytes - msgBytes msg
    count := rb.count - 1
    head := rb.wrapped (rb.head - 1 + rb.size)
    wrapping := if rb.count - 1 < rb.size then false else rb.wrapping }

/-- The search loop of `Delete`. -/
def deleteLoop (id creatorId : Uuid) (content : List Byte) (rb : RingBuffer) :
    Nat → Nat → Option (Bool × RingBuffer)
  | 0, _ => some (false, rb)
  | left + 1, i => do
    match ← rb.slot (rb.wrapped (rb.oldest + i)) with
    | none => deleteLoop id creatorId content rb left (i + 1)
    | some msg =>
      if Matches id creatorId content msg then do
        let rb ← rb.removeAt i msg
        some (true, rb)
      else deleteLoop id creatorId content rb left (i + 1)

def delete (id creatorId : Uuid) (content : List Byte) (rb : RingBuffer) :
    Option (Bool × RingBuffer) :=
  if rb.count = 0 then some (false, rb) else rb.deleteLoop id creatorId content rb.count 0

def evictOldest : Option (Nat × RingBuffer) :=
  if rb.count = 0 then some (0, rb)
  else do
    let (n, rb) ← rb.dropOldest
    some (n + messageOverhead, rb)

end RingBuffer

end Unheaded.Wotan
