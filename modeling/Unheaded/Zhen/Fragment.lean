import Mathlib.Data.BitVec
import Unheaded.Lib.Bincode

/-!
# Fragments

A fragment is a payload under the BLAKE3 hash of it, with what the node knows about its accesses.
-/

namespace Unheaded.Zhen

open Lib Bincode

abbrev Byte := BitVec 8

abbrev FragmentId := { l : List Byte // l.length = 32 }

inductive Tier where
  | hot
  | warm
  | cold
  deriving DecidableEq, Repr

structure Fragment (τ : Type) where
  id : FragmentId
  payload : List Byte
  embedding : List Byte
  firstSeen : τ
  lastAccessed : τ
  accessCount : BitVec 64
  tier : Tier
  contentType : Option (List Byte)
  originPeer : Option (List Byte)
  hopCount : BitVec 32
  sealedPayload : Option (List Byte)
  deriving DecidableEq

/-- The errors that the store and the gossip engine return: `attestation` is the
gossip error of an identity that does not prove itself, `unreachable` the
transport error of a socket. -/
inductive ZhenError where
  | integrityFailure (hash : FragmentId)
  | storage
  | serialization
  | gossip (count limit : Nat)
  | attestation
  | transport (size limit : Nat)
  | unreachable
  | io
  deriving DecidableEq

/-- `bincode` for fragments and for lists of them. -/
structure FragmentCodec (τ : Type) where
  encode : Fragment τ → List Byte
  decode : List Byte → Option (Fragment τ)
  roundTrip : ∀ f, decode (encode f) = some f
  encodeAll : List (Fragment τ) → List Byte
  decodeAll : List Byte → Option (List (Fragment τ))
  roundTripAll : ∀ l, decodeAll (encodeAll l) = some l

section Fragment

variable {τ : Type} (blake3 : List Byte → FragmentId)

def Fragment.verify (f : Fragment τ) : Bool := f.id = blake3 f.payload

/-- A new fragment of a payload. -/
def Fragment.new (payload embedding : List Byte) (contentType : Option (List Byte)) (now : τ) :
    Fragment τ where
  id := blake3 payload
  payload := payload
  embedding := embedding
  firstSeen := now
  lastAccessed := now
  accessCount := 0
  tier := .hot
  contentType := contentType
  originPeer := none
  hopCount := 0
  sealedPayload := none

/-- An access: the time, the saturating count and the hot tier. -/
def Fragment.touch (f : Fragment τ) (now : τ) : Fragment τ := { f with
    lastAccessed := now
    accessCount := if f.accessCount = BitVec.allOnes 64 then f.accessCount else f.accessCount + 1
    tier := .hot }

variable (codec : FragmentCodec τ)

/-- `codec::decode`: what is read is verified. -/
def decode (bytes : List Byte) : Except ZhenError (Fragment τ) :=
  match codec.decode bytes with
  | none => .error .serialization
  | some f => if f.verify blake3 then .ok f else .error (.integrityFailure f.id)

variable {blake3 codec}

theorem decode_encode {f : Fragment τ} (verified : f.verify blake3 = true) :
    decode blake3 codec (codec.encode f) = .ok f := by
  rw [decode, codec.roundTrip]
  exact if_pos verified

theorem verify_of_decode {bytes : List Byte} {f : Fragment τ}
    (decoded : decode blake3 codec bytes = .ok f) : f.verify blake3 = true := by
  unfold decode at decoded
  split at decoded
  · cases decoded
  · split at decoded
    · next ok =>
        cases decoded
        exact ok
    · cases decoded

end Fragment

def Tier.index : Tier → Nat
  | .hot => 0
  | .warm => 1
  | .cold => 2

def Tier.ofIndex : Nat → Tier
  | 0 => .hot
  | 1 => .warm
  | _ => .cold

/-- The fields of a fragment, in order. -/
def fragmentFormat {τ : Type} (time : Format τ) : Format (Fragment τ) :=
  let fields := (Format.fixed 32).pair (bytes.pair (bytes.pair (time.pair (time.pair
    ((word 64).pair ((nat.iso Tier.index Tier.ofIndex (by rintro ⟨⟩ <;> rfl)).pair
      ((Format.option bytes).pair ((Format.option bytes).pair
        ((word 32).pair (Format.option bytes))))))))))
  fields.iso
    (fun f => (f.id, f.payload, f.embedding, f.firstSeen, f.lastAccessed, f.accessCount, f.tier,
      f.contentType, f.originPeer, f.hopCount, f.sealedPayload))
    (fun (id, payload, embedding, firstSeen, lastAccessed, accessCount, tier, contentType,
        originPeer, hopCount, sealedPayload) =>
      ⟨id, payload, embedding, firstSeen, lastAccessed, accessCount, tier, contentType, originPeer,
        hopCount, sealedPayload⟩)
    (fun _ => rfl)

/-- The codec of fragments for a serialisation of times. -/
def bincodeCodec {τ : Type} (time : Format τ) : FragmentCodec τ where
  encode := (fragmentFormat time).encode
  decode input := ((fragmentFormat time).read input).map Prod.fst
  roundTrip := Format.read_encode _
  encodeAll := (list (fragmentFormat time)).encode
  decodeAll input := ((list (fragmentFormat time)).read input).map Prod.fst
  roundTripAll := Format.read_encode _

namespace Sample

/-- The hash of the empty payload. -/
def emptyId : FragmentId :=
  ⟨[0xAF, 0x13, 0x49, 0xB9, 0xF5, 0xF9, 0xA1, 0xA6, 0xA0, 0x40, 0x4D, 0xEA, 0x36, 0xDC,
    0xC9, 0x49, 0x9B, 0xCB, 0x25, 0xC9, 0xAD, 0xC1, 0x12, 0xB7, 0xCC, 0x9A, 0x93, 0xCA,
    0xE4, 0x1F, 0x32, 0x62], rfl⟩

/-- The bytes of `ancient wisdom`. -/
def wisdom : List Byte :=
  [0x61, 0x6E, 0x63, 0x69, 0x65, 0x6E, 0x74, 0x20, 0x77, 0x69, 0x73, 0x64, 0x6F, 0x6D]

def wisdomId : FragmentId :=
  ⟨[0x27, 0xCA, 0x73, 0x07, 0x6B, 0x11, 0xF1, 0x76, 0x1E, 0xF4, 0x1C, 0x50, 0xEC, 0xF5,
    0x35, 0x13, 0xB4, 0x95, 0xAC, 0x3D, 0x29, 0x14, 0x02, 0xDA, 0x1D, 0xE8, 0x7D, 0xC5,
    0x2C, 0x38, 0x91, 0x94], rfl⟩

def hash (payload : List Byte) : FragmentId := if payload = wisdom then wisdomId else emptyId

/-- A moment, and one a second later. -/
inductive Moment where
  | first
  | second
  deriving DecidableEq

/-- The texts `2024-03-15T00:00:00Z` and `2024-03-15T00:00:01Z`. -/
def Moment.text : Moment → List Byte
  | .first => [0x32, 0x30, 0x32, 0x34, 0x2D, 0x30, 0x33, 0x2D, 0x31, 0x35, 0x54, 0x30, 0x30, 0x3A,
      0x30, 0x30, 0x3A, 0x30, 0x30, 0x5A]
  | .second => [0x32, 0x30, 0x32, 0x34, 0x2D, 0x30, 0x33, 0x2D, 0x31, 0x35, 0x54, 0x30, 0x30, 0x3A,
      0x30, 0x30, 0x3A, 0x30, 0x31, 0x5A]

def time : Format Moment :=
  bytes.iso Moment.text (fun t => if t = Moment.text .first then .first else .second)
    (by rintro ⟨⟩ <;> rfl)

def codec : FragmentCodec Moment := bincodeCodec time

def silence : Fragment Moment := Fragment.new hash [] [] none .first

def ancient : Fragment Moment := Fragment.new hash wisdom [] none .first

end Sample

end Unheaded.Zhen
