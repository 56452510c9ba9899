import Mathlib.Data.List.Infix
import Mathlib.Data.List.Sort
import Unheaded.Lib.Endian
import Unheaded.Lib.Utf8
import Unheaded.Wotan.Server

/-!
# Signed topics

Topics under some prefixes take only messages with an ML-DSA-65 signature, each prefix from its
own keys.
-/

namespace Unheaded.Wotan

open Lib

def ascii (chars : List Char) : List Byte := chars.map fun c => BitVec.ofNat 8 c.toNat

def MaxTopicLen : Nat := 255

/-- A character of a topic pattern. -/
def patternRune (r : Nat) : Bool :=
  (0x61 ≤ r && r ≤ 0x7A) || (0x41 ≤ r && r ≤ 0x5A) || (0x30 ≤ r && r ≤ 0x39) ||
    r = 0x2E || r = 0x2D || r = 0x5F || r = 0x2A || r = 0x23

variable (s : List Byte)

def validPattern : Bool :=
  s ≠ [] && s.length ≤ MaxTopicLen && (runes s).all fun r => r.elim false patternRune

def isPattern : Bool := s.any fun b => b = 0x2A || b = 0x23

def validTopic : Bool := validPattern s && !isPattern s

def Algorithm : List Byte := ascii ['m', 'l', '-', 'd', 's', 'a', '-', '6', '5']

def Domain : List Byte :=
  ascii ['w', 'o', 't', 'a', 'n', '/', 't', 'o', 'p', 'i', 'c', '-', 's', 'i', 'g', '/', 'v', '2']

/-- `MaxSkew` in milliseconds. -/
def MaxSkew : Int := 5 * 60 * 1000

structure Signed where
  signature : List Byte
  publicKey : List Byte
  algorithm : List Byte
  signedAt : Int64
  deriving DecidableEq

inductive SigningError where
  | wrongAlgorithm
  | noTrustedKeys
  | untrustedKey
  | stale
  | invalidSignature
  | replay
  deriving DecidableEq

/-- `sha256.Sum256`, and the check of a message, a signature and a public key by
the ML-DSA-65 library, false when the key cannot be unpacked. -/
structure Crypto where
  sum256 : List Byte → List Byte
  mldsa65 : List Byte → List Byte → List Byte → Bool

/-- What a signature is made for, before it is hashed. -/
def preimage (topic sender : List Byte) (signedAt : Int64) (payload : List Byte) : List Byte :=
  Domain ++ 0 :: (topic ++ 0 :: (sender ++ 0 :: (beBytes 8 signedAt.toBitVec.toNat ++ payload)))

variable (crypto : Crypto)

def canonicalize (topic sender : List Byte) (signedAt : Int64) (payload : List Byte) :
    List Byte := crypto.sum256 (preimage topic sender signedAt payload)

def PublicKeySize : Nat := 1952

def SignatureSize : Nat := 3309

/-- `MLDSAVerifier.Verify` without an error, and true. -/
def mldsaVerify (message signature publicKey : List Byte) : Bool :=
  publicKey.length = PublicKeySize && signature.length = SignatureSize &&
    crypto.mldsa65 message signature publicKey

def checkKey (sg : Signed) (trusted : List (List Byte)) : Except SigningError Unit :=
  if sg.algorithm ≠ Algorithm then .error .wrongAlgorithm
  else if trusted = [] then .error .noTrustedKeys
  else if sg.publicKey = [] ∨ sg.publicKey ∉ trusted then .error .untrustedKey
  else .ok ()

def verifySignature (topic sender payload : List Byte) (sg : Signed) : Except SigningError Unit :=
  if mldsaVerify crypto (canonicalize crypto topic sender sg.signedAt payload) sg.signature
      sg.publicKey = true then .ok ()
  else .error .invalidSignature

/-- `seen` gives the time until which an accepted signature is remembered. -/
structure TopicVerifier where
  trusted : List (List Byte)
  seen : List Byte → Option Int

namespace TopicVerifier

def new (trusted : List (List Byte)) : TopicVerifier := ⟨trusted, fun _ => none⟩

def forget (now : Int) (tv : TopicVerifier) : TopicVerifier :=
  { tv with seen := fun id => (tv.seen id).filter fun expiry => decide (now ≤ expiry) }

def Fresh (now : Int) (signedAt : Int64) : Prop :=
  now - MaxSkew ≤ signedAt.toInt ∧ signedAt.toInt ≤ now + MaxSkew

instance (now : Int) (signedAt : Int64) : Decidable (Fresh now signedAt) :=
  inferInstanceAs (Decidable (_ ∧ _))

/-- What `Verify` does after it has forgotten: the time, the signature, and whether
it was accepted before. -/
def check (crypto : Crypto) (now : Int) (topic sender payload : List Byte) (sg : Signed)
    (tv : TopicVerifier) : Except SigningError Unit :=
  if ¬ Fresh now sg.signedAt then .error .stale
  else do
    verifySignature crypto topic sender payload sg
    if tv.seen (crypto.sum256 sg.signature) ≠ none then .error .replay else .ok ()

def remember (id : List Byte) (signedAt : Int64) (tv : TopicVerifier) : TopicVerifier :=
  { tv with seen := fun k => if k = id then some (signedAt.toInt + MaxSkew) else tv.seen k }

def accept (crypto : Crypto) (sg : Signed) (tv : TopicVerifier) : Except SigningError TopicVerifier :=
  if tv.seen (crypto.sum256 sg.signature) ≠ none then .error .replay
  else .ok (tv.remember (crypto.sum256 sg.signature) sg.signedAt)

end TopicVerifier

/-- `wotansig.Covers`: the topics under a prefix, and the prefix without its dot. -/
def covers (pfx topic : List Byte) : Bool :=
  if pfx.length < 2 ∨ pfx.getLast? ≠ some DOT then false
  else pfx.isPrefixOf topic || topic = pfx.dropLast

def CONFIG : List Byte := ascii ['c', 'o', 'n', 'f', 'i', 'g', '.']

def DRIFT : List Byte := ascii ['d', 'r', 'i', 'f', 't', '.']

def BuiltinPrefixes : List (List Byte) := [CONFIG, DRIFT]

def maxPrefixLen : Nat := 256

def tooBroad : List (List Byte) := [ascii ['a', 'l', 'e', 'r', 't', 's', '.']]

def isSpace (r : Nat) : Bool :=
  (0x09 ≤ r && r ≤ 0x0D) || r = 0x20 || r = 0x85 || r = 0xA0 || r = 0x1680 ||
    (0x2000 ≤ r && r ≤ 0x200A) || r = 0x2028 || r = 0x2029 || r = 0x202F || r = 0x205F || r = 0x3000

def isControl (r : Nat) : Bool := r ≤ 0x1F || (0x7F ≤ r && r ≤ 0x9F)

inductive PolicyError where
  | emptyPrefix
  | tooLong
  | noDot (pfx : List Byte)
  | emptySegment (pfx : List Byte)
  | wildcard (pfx : List Byte)
  | badCharacter (pfx : List Byte)
  | underConfig (pfx : List Byte)
  | broad (pfx : List Byte)
  | listedTwice (pfx : List Byte)
  deriving DecidableEq

def validatePrefix (pfx : List Byte) : Except PolicyError Unit :=
  if pfx = [] ∨ pfx = [DOT] then .error .emptyPrefix
  else if maxPrefixLen < pfx.length then .error .tooLong
  else if pfx.getLast? ≠ some DOT then .error (.noDot pfx)
  else if [DOT].isPrefixOf pfx ∨ [DOT, DOT] <:+: pfx then .error (.emptySegment pfx)
  else if (pfx.any fun b => b = 0x2A || b = 0x3E) = true then .error (.wildcard pfx)
  else if ((runes pfx).any fun r => r.elim false fun r => isSpace r || isControl r) = true then
    .error (.badCharacter pfx)
  else if CONFIG.isPrefixOf pfx then .error (.underConfig pfx)
  else if pfx ∈ tooBroad then .error (.broad pfx)
  else .ok ()

structure PrefixKeys where
  pfx : List Byte
  keys : List (List Byte)
  deriving DecidableEq

structure Policy where
  prefixes : List (List Byte)
  verifiers : List Byte → Option TopicVerifier

def stringLess : List Byte → List Byte → Bool
  | _, [] => false
  | [], _ :: _ => true
  | a :: s, b :: t => a.toNat < b.toNat || (a = b && stringLess s t)

def comesFirst (a b : List Byte) : Prop :=
  if a.length ≠ b.length then b.length < a.length else stringLess b a = false

instance (a b : List Byte) : Decidable (comesFirst a b) :=
  inferInstanceAs (Decidable
    (if a.length ≠ b.length then b.length < a.length else stringLess b a = false))

variable (keys : List PrefixKeys)

/-- One more entry of `signed_prefixes`. -/
def addPrefix (e : PrefixKeys) : Except PolicyError (List PrefixKeys) := do
  validatePrefix e.pfx
  if e.pfx ∈ keys.map PrefixKeys.pfx then .error (.listedTwice e.pfx) else .ok (keys ++ [e])

def addBuiltin (pfx : List Byte) : List PrefixKeys :=
  if pfx ∈ keys.map PrefixKeys.pfx then keys else keys ++ [⟨pfx, []⟩]

def Policy.of : Policy where
  prefixes := (keys.map PrefixKeys.pfx).insertionSort comesFirst
  verifiers pfx := (keys.find? fun e => decide (e.pfx = pfx)).map fun e => .new e.keys

def newPolicy (configKeys : List (List Byte)) (entries : List PrefixKeys) :
    Except PolicyError Policy := do
  let keys ← entries.foldlM addPrefix [⟨CONFIG, configKeys⟩]
  return .of (BuiltinPrefixes.foldl addBuiltin keys)

namespace Policy

def prefixFor (p : Policy) (topic : List Byte) : List Byte :=
  (p.prefixes.find? fun pfx => covers pfx topic).getD []

def verifierFor (p : Policy) (topic : List Byte) : Option TopicVerifier :=
  if p.prefixFor topic = [] then none else p.verifiers (p.prefixFor topic)

def put (p : Policy) (pfx : List Byte) (tv : TopicVerifier) : Policy :=
  { p with verifiers := fun q => if q = pfx then some tv else p.verifiers q }

end Policy

end Unheaded.Wotan
