import Unheaded.Lib.BoundedMap
import Unheaded.Net.Hop

/-!
# Writing hop rules

`pkg/hoprules`: a rules file is checked, encoded as `bpfschema` values and written to the maps
that `hop-ebpf` looks up.
-/

namespace Unheaded.Net

open Mbc Lib Schema

namespace HopRules

def KeySize : Nat := 32

inductive Addr where
  | invalid
  | v4 (bytes : List Byte)
  | v6 (bytes : List Byte) (zone : String)
  deriving DecidableEq

def Addr.is6 : Addr → Bool
  | v6 _ _ => true
  | _ => false

def Addr.zone : Addr → String
  | v6 _ zone => zone
  | _ => ""

/-- `As16`; an IPv4 address is mapped. -/
def Addr.as16 : Addr → List Byte
  | invalid => List.replicate 16 0
  | v4 bytes => List.replicate 10 0 ++ [0xFF, 0xFF] ++ bytes
  | v6 bytes _ => bytes

structure Validator where
  hop : Word
  ns : Byte
  versionMin : Byte
  versionMax : Byte
  requireCRC : Bool
  requireHMAC : Bool
  requireRetry : Bool
  maxHopCount : Byte

/-- `HMACKey`; the key is there once `Load` has read its file. -/
structure HMACKey where
  flow : BitVec 16
  ns : Byte
  keyFile : String
  ttl : Int
  key : Option { k : List Byte // k.length = KeySize }

structure Retry where
  flow : BitVec 16
  source : Addr
  ttl : Int

structure File where
  validators : List Validator
  hmacKeys : List HMACKey
  retry : List Retry

/-- The maps that are written. -/
inductive MapName where
  | hmacKeys | retryTokens | hopValidators
  deriving DecidableEq

/-- What is wrong with a lifetime. -/
inductive BadTTL where
  | negative | fraction | tooLong
  deriving DecidableEq

/-- The errors of `Apply`. -/
inductive Refusal where
  | versionRange (i : Nat) (min max : Byte)
  | sameValidator (i : Nat)
  | keyFile (i : Nat)
  | keyTTL (i : Nat) (why : BadTTL)
  | sameKey (i : Nat)
  | notIPv6 (i : Nat)
  | zone (i : Nat)
  | retryTTL (i : Nat) (why : BadTTL)
  | sameRetry (i : Nat)
  | noClock
  | boottime (seconds : Int)
  | keyNotLoaded (i : Nat)
  | map (name : MapName)
  deriving DecidableEq

def second : Int := 1000000000

def checkTTL (ttl : Int) : Option BadTTL :=
  if ttl < 0 then some .negative
  else if ttl.tmod second ≠ 0 then some .fraction
  else none

def retryKey (r : Retry) : RetryTokenKey := ⟨r.flow, low48Bytes r.source.as16⟩

/-- One of the loops of `validate`, at index `i` with the keys met so far: every item passes its own
check and has a key of its own. -/
def scanDistinct {α κ : Type} [DecidableEq κ] (check : Nat → α → Option Refusal) (key : α → κ)
    (same : Nat → Refusal) (i : Nat) (seen : List κ) : List α → Option Refusal
  | [] => none
  | a :: rest =>
    match check i a with
    | some e => some e
    | none =>
      if key a ∈ seen then some (same i)
      else scanDistinct check key same (i + 1) (key a :: seen) rest

def checkValidator (i : Nat) (v : Validator) : Option Refusal :=
  if v.versionMax < v.versionMin then some (.versionRange i v.versionMin v.versionMax) else none

def checkKey (i : Nat) (h : HMACKey) : Option Refusal :=
  if h.keyFile = "" ∨ h.keyFile.toList.head? ≠ some '/' then some (.keyFile i)
  else (checkTTL h.ttl).map (.keyTTL i)

def checkRetry (i : Nat) (r : Retry) : Option Refusal :=
  if !r.source.is6 then some (.notIPv6 i)
  else if r.source.zone ≠ "" then some (.zone i)
  else (checkTTL r.ttl).map (.retryTTL i)

/-- `validate`: `none` accepts the file. -/
def File.validate (f : File) : Option Refusal :=
  (scanDistinct checkValidator (fun v => (v.hop, v.ns)) .sameValidator 0 [] f.validators).or
    ((scanDistinct checkKey (fun h => (h.flow, h.ns)) .sameKey 0 [] f.hmacKeys).or
      (scanDistinct checkRetry retryKey .sameRetry 0 [] f.retry))

def bootSeconds (d : Int) : Except Refusal Nat :=
  let s := d.tdiv second
  if s < 0 ∨ 2 ^ 32 - 1 < s then .error (.boottime s) else .ok s.toNat

def expiry (now : Nat) (ttl : Int) : Option Nat :=
  if ttl = 0 then some 0
  else
    let s := (now : Int) + ttl.tdiv second
    if 2 ^ 32 - 1 < s then none else some s.toNat

/-- One encoded map write. -/
structure Entry where
  mapName : MapName
  key : List Byte
  value : List Byte

/-- `HMACKeyValue` as `encoding/binary` writes it. -/
def hmacValue (key : List Byte) (createdAt expiresAt : Nat) : List Byte :=
  key ++ leBytes 4 createdAt ++ leBytes 4 expiresAt

/-- `RetryTokenValue`. -/
def retryValue (issuedAt expiresAt : Nat) : List Byte :=
  List.replicate 32 0 ++ leBytes 4 issuedAt ++ leBytes 4 expiresAt ++ List.replicate 8 0

def flag (b : Bool) : Byte := if b then 1 else 0

def validatorValue (v : Validator) : List Byte :=
  [v.versionMin, v.versionMax, flag v.requireCRC, flag v.requireHMAC] ++ List.replicate 16 0 ++
    [v.maxHopCount] ++ List.replicate 3 0 ++ leBytes 4 (flag v.requireRetry).toNat ++
    List.replicate 4 0

/-- The entry of an HMAC key. -/
def keyEntry (now i : Nat) (h : HMACKey) : Except Refusal Entry :=
  match h.key with
  | none => .error (.keyNotLoaded i)
  | some key =>
    match expiry now h.ttl with
    | none => .error (.keyTTL i .tooLong)
    | some expires =>
      .ok ⟨.hmacKeys, HMACKeyKey.bytes ⟨h.flow, h.ns.setWidth 16⟩, hmacValue key.1 now expires⟩

/-- The entry of a validated source. -/
def retryEntry (now i : Nat) (r : Retry) : Except Refusal Entry :=
  match expiry now r.ttl with
  | none => .error (.retryTTL i .tooLong)
  | some expires => .ok ⟨.retryTokens, (retryKey r).bytes, retryValue now expires⟩

/-- The entries of a list, from index `i` on. -/
def encodeEach {α : Type} (entry : Nat → α → Except Refusal Entry) (i : Nat) :
    List α → Except Refusal (List Entry)
  | [] => .ok []
  | a :: rest =>
    match entry i a with
    | .error e => .error e
    | .ok first =>
      match encodeEach entry (i + 1) rest with
      | .error e => .error e
      | .ok entries => .ok (first :: entries)

def validatorEntry (v : Validator) : Entry :=
  ⟨.hopValidators, HopValidatorKey.bytes ⟨v.hop, v.ns.setWidth 32⟩, validatorValue v⟩

def encode (f : File) (now : Nat) : Except Refusal (List Entry) :=
  match encodeEach (keyEntry now) 0 f.hmacKeys with
  | .error e => .error e
  | .ok keys =>
    match encodeEach (retryEntry now) 0 f.retry with
    | .error e => .error e
    | .ok retry => .ok (keys ++ retry ++ f.validators.map validatorEntry)

/-- The maps, by the bytes of their keys and values. -/
structure RuleMaps where
  hmacKeys : BoundedMap (List Byte) (List Byte) 4096
  retryTokens : BoundedMap (List Byte) (List Byte) 4096
  hopValidators : BoundedMap (List Byte) (List Byte) 256

namespace RuleMaps

def empty : RuleMaps := ⟨BoundedMap.empty, BoundedMap.empty, BoundedMap.empty⟩

def get (maps : RuleMaps) (name : MapName) (key : List Byte) : Option (List Byte) :=
  match name with
  | .hmacKeys => maps.hmacKeys.get key
  | .retryTokens => maps.retryTokens.get key
  | .hopValidators => maps.hopValidators.get key

/-- `Update`, where the system call goes through. -/
def update (maps : RuleMaps) (e : Entry) : Option RuleMaps :=
  match e.mapName with
  | .hmacKeys => (maps.hmacKeys.update e.key e.value).map fun m => { maps with hmacKeys := m }
  | .retryTokens => (maps.retryTokens.update e.key e.value).map fun m => { maps with retryTokens := m }
  | .hopValidators =>
    (maps.hopValidators.update e.key e.value).map fun m => { maps with hopValidators := m }

end RuleMaps

/-- `Applied`: the entries written. -/
structure Applied where
  validators : Nat
  hmacKeys : Nat
  retry : Nat
  deriving DecidableEq

def Applied.count (done : Applied) : MapName → Applied
  | .hmacKeys => { done with hmacKeys := done.hmacKeys + 1 }
  | .retryTokens => { done with retry := done.retry + 1 }
  | .hopValidators => { done with validators := done.validators + 1 }

/-- What `Apply` returns, and the maps it leaves. -/
structure Outcome where
  maps : RuleMaps
  done : Applied
  error : Option Refusal

/-- The write loop; `refuses` names the writes whose system call fails. -/
def writeAll (refuses : Nat → Bool) (i : Nat) (maps : RuleMaps) (done : Applied) :
    List Entry → Outcome
  | [] => ⟨maps, done, none⟩
  | e :: rest =>
    if refuses i then ⟨maps, done, some (.map e.mapName)⟩
    else
      match maps.update e with
      | none => ⟨maps, done, some (.map e.mapName)⟩
      | some maps' => writeAll refuses (i + 1) maps' (done.count e.mapName) rest

/-- `Apply`; `boottime` is the clock's answer, `none` for no clock. -/
def apply (refuses : Nat → Bool) (maps : RuleMaps) (f : File) (boottime : Option Int) : Outcome :=
  match f.validate with
  | some e => ⟨maps, ⟨0, 0, 0⟩, some e⟩
  | none =>
    match boottime with
    | none => ⟨maps, ⟨0, 0, 0⟩, some .noClock⟩
    | some d =>
      match bootSeconds d with
      | .error e => ⟨maps, ⟨0, 0, 0⟩, some e⟩
      | .ok now =>
        match encode f now with
        | .error e => ⟨maps, ⟨0, 0, 0⟩, some e⟩
        | .ok entries => writeAll refuses 0 maps ⟨0, 0, 0⟩ entries

end HopRules

end Unheaded.Net
