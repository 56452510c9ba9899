import Unheaded.Cask.Manifest

/-!
# Sealed casks

A cask is a compressed archive with one root directory: its files, a manifest of them and a seal
of a build key over the manifest.
-/

namespace Unheaded.Cask

open Lib Lib.Path List

def evidenceFormat : Bytes := ascii ['g', 'u', 'n', 'g', 'n', 'i', 'r', '-', 'e', 'v', 'i', 'd',
    'e', 'n', 'c', 'e', '/', 'v', '1']

def evidenceContext : Bytes := ascii ['u', 'n', 'h', 'e', 'a', 'd', 'e', 'd', '/', 'g', 'u', 'n',
    'g', 'n', 'i', 'r', '/', 'e', 'v', 'i', 'd', 'e', 'n', 'c', 'e', '/', 'v', '1']

/-- `Algorithm`. -/
def sealAlgorithm : Bytes := ascii ['m', 'l', '-', 'd', 's', 'a', '-', '6', '5']

/-- `Purpose`. -/
def caskPurpose : Bytes := ascii ['s', 'e', 'a', 'l', 'e', 'd', '-', 'c', 'a', 's', 'k', '-', 'v',
    '1']

def maxEvidenceSealBytes : Nat := 16 * 1024

def signatureSize : Nat := 3309

structure EvidenceSeal where
  format : Bytes
  purpose : Bytes
  payloadSha256 : Bytes
  keyId : Bytes
  issuedAtUnix : BitVec 64
  algorithm : Bytes
  mldsa65Sig : Bytes

/-- SHA-256, the verification of ML-DSA-65 by key, message, context and signature, and the strict
decoding of a seal from JSON. -/
structure Crypto where
  sha256 : Bytes → Bytes
  verify : Bytes → Bytes → Bytes → Bytes → Bool
  decodeSeal : Bytes → Option EvidenceSeal

variable (crypto : Crypto)

def keyID (pub : Bytes) : Bytes := utf8 (hexEncode ((crypto.sha256 pub).take 8))

def field (p : Bytes) : Bytes := beBytes 4 p.length ++ p

def evidenceMessage (e : EvidenceSeal) : Bytes :=
  field e.format ++ (field e.purpose ++ (field e.algorithm ++ (field e.keyId ++
    (beBytes 8 e.issuedAtUnix.toNat ++ field e.payloadSha256))))

def parseEvidenceSeal (b : Bytes) : Option EvidenceSeal :=
  if b = [] ∨ maxEvidenceSealBytes < b.length then none
  else (crypto.decodeSeal b).filter fun e => e.format = evidenceFormat

def verifyEvidence (payload : Bytes) (e : EvidenceSeal) (pub purpose : Bytes) : Bool :=
  e.format = evidenceFormat ∧ e.algorithm = sealAlgorithm ∧ purpose ≠ [] ∧ e.purpose = purpose ∧
    e.keyId = keyID crypto pub ∧ crypto.sha256 payload = e.payloadSha256 ∧
    e.mldsa65Sig.length = signatureSize ∧
    crypto.verify pub (evidenceMessage e) evidenceContext e.mldsa65Sig = true

/-- `purposeRe`. -/
def isPurpose (p : Bytes) : Bool :=
  let token (b : BitVec 8) := (0x61 ≤ b.toNat && b.toNat ≤ 0x7A) || (0x30 ≤ b.toNat && b.toNat ≤ 0x39)
  match p with
  | [] => false
  | b :: rest => token b && rest.length ≤ 63 && rest.all fun b => token b || b = 0x2D

/-- A call of `SignEvidence`. -/
structure Sealing where
  payload : Bytes
  purpose : Bytes
  issuedAtUnix : BitVec 64

/-- What `SignEvidence` signs with the key `pub`. -/
def signEvidence (pub : Bytes) (call : Sealing) : Option Bytes :=
  if isPurpose call.purpose then
    some (evidenceMessage {
      format := evidenceFormat
      purpose := call.purpose
      payloadSha256 := crypto.sha256 call.payload
      keyId := keyID crypto pub
      issuedAtUnix := call.issuedAtUnix
      algorithm := sealAlgorithm
      mldsa65Sig := [] })
  else none

/-- A signature that verifies as evidence was made by a call with the key. -/
def Unforgeable (signs : Bytes → Sealing → Prop) : Prop :=
  ∀ pub message sig, crypto.verify pub message evidenceContext sig = true →
    ∃ call, signs pub call ∧ signEvidence crypto pub call = some message

inductive Typeflag where
  | dir
  | reg
  | symlink
  | link
  | other (flag : BitVec 8)
  deriving DecidableEq

/-- A header of the archive, and what can be read behind it. -/
structure Member where
  name : Bytes
  typeflag : Typeflag
  size : Int
  mode : BitVec 64
  data : Bytes

/-- What follows the last header: an error, or the end of the archive with the bytes that come
behind it and whether reading them fails. -/
inductive Ending where
  | broken
  | eof (padding : Bytes) (fails : Bool)

/-- What the readers of gzip and tar make of a stream. -/
inductive Untarred where
  | noGzip
  | archive (members : List Member) (ending : Ending)

structure Limits where
  maxMember : Int
  maxTotal : Int
  maxEntries : Int
  maxManifest : Int

/-- How the files differ from the manifest. -/
inductive Problem where
  | missing (name : Bytes)
  | modified (name : Bytes)
  | extra (name : Bytes)

inductive CaskError where
  | format
  | entry
  | tooLarge
  | manifest (e : Option ManifestError)
  | unsigned
  | signature
  | mismatch (problems : List Problem)
  | os

structure File where
  name : Bytes
  content : Bytes
  perm : Nat

/-- What is below the destination. -/
structure Tree where
  files : List File
  dirs : List Bytes

inductive Op where
  | openRegular
  | seek
  | mkdir
  | openRoot
  | mkdirAll (name : Bytes)
  | create (name : Bytes)
  | write (name : Bytes)
  | chmod
  | removeAll

/-- Which operations succeed that could, what a failed write leaves in a file and what a failed
removal leaves of a directory. -/
structure Os where
  succeeds : Op → Bool
  torn : Bytes → Bytes
  left : Tree → Tree

inductive Sunk where
  | refused
  | torn
  | written
  deriving DecidableEq

/-- The `sink` of `extractInto`, and what is written to it. -/
def sinkFile (os : Os) (t : Tree) (f : File) : Tree × Sunk :=
  if (parents f.name).any (fun d => d ∈ t.files.map File.name) ∨
      parents f.name ≠ [] ∧ os.succeeds (.mkdirAll f.name) = false then (t, .refused)
  else
    let dirs := t.dirs ++ (parents f.name).filter fun d => d ∉ t.dirs
    if f.name ∈ t.files.map File.name ∨ f.name ∈ dirs ∨ os.succeeds (.create f.name) = false then
      (⟨t.files, dirs⟩, .refused)
    else if os.succeeds (.write f.name) = false then
      (⟨t.files ++ [{ f with content := os.torn f.name }], dirs⟩, .torn)
    else (⟨t.files ++ [f], dirs⟩, .written)

def deliver (sink : Option Os) (t : Tree) (f : File) : Tree × Sunk :=
  match sink with
  | none => (t, .written)
  | some os => sinkFile os t f

/-- `scanned`, with the variables of the loop. -/
structure Scan where
  root : Bytes
  hashes : List (Bytes × Bytes)
  manifest : Option Bytes
  sig : Option Bytes
  seen : List Bytes
  total : Int
  entries : Int

def Scan.start : Scan := ⟨[], [], none, none, [], 0, 0⟩

def isAlphanumeric (b : BitVec 8) : Bool :=
  (0x41 ≤ b.toNat && b.toNat ≤ 0x5A) || (0x61 ≤ b.toNat && b.toNat ≤ 0x7A) ||
    (0x30 ≤ b.toNat && b.toNat ≤ 0x39)

/-- `rootRe`. -/
def isRootName (name : Bytes) : Bool :=
  (ascii ['s', 'e', 'a', 'l', 'e', 'd', '-', 'c', 'a', 's', 'k', '-']).isPrefixOf name &&
    match name.drop 12 with
    | [] => false
    | b :: rest => isAlphanumeric b && rest.length ≤ 63 &&
        rest.all fun b => isAlphanumeric b || b = 0x2E || b = 0x5F || b = 0x2D

def cut (name : Bytes) : Bytes × Bytes :=
  (name.takeWhile (· ≠ slash), (name.dropWhile (· ≠ slash)).tail)

def plainName (m : Member) : Bytes :=
  if m.typeflag = .dir ∧ m.name.getLast? = some slash then m.name.dropLast else m.name

/-- `memberName`: the root and the path below it. -/
def memberName (root : Bytes) (m : Member) : Except CaskError (Bytes × Bytes) :=
  match checkRelName (plainName m) with
  | some _ => .error .entry
  | none =>
    let (top, rest) := cut (plainName m)
    if isRootName top = false then .error .entry
    else if root ≠ [] ∧ top ≠ root then .error .entry
    else .ok (top, rest)

def permOf (mode : BitVec 64) : Nat := if mode &&& 0o111 ≠ 0 then 0o755 else 0o644

def fileOf (m : Member) (rel : Bytes) : File := ⟨rel, m.data.take m.size.toNat, permOf m.mode⟩

variable (lim : Limits)

def memoryCap (rel : Bytes) : Int :=
  if rel = sigName then maxEvidenceSealBytes else lim.maxManifest

def member (sink : Option Os) (s : Scan) (t : Tree) (m : Member) (rel : Bytes) :
    Tree × Except CaskError Scan :=
  let f := fileOf m rel
  if rel = manifestName ∨ rel = sigName then
    if memoryCap lim rel < m.size then (t, .error .tooLarge)
    else if (m.data.length : Int) < m.size then (t, .error .format)
    else
      match deliver sink t f with
      | (t, .written) =>
        (t, .ok (if rel = manifestName then { s with manifest := some f.content }
          else { s with sig := some f.content }))
      | (t, _) => (t, .error .os)
  else
    match deliver sink t f with
    | (t, .refused) => (t, .error .os)
    | (t, .torn) => (t, .error .format)
    | (t, .written) =>
      if (m.data.length : Int) < m.size then (t, .error .format)
      else (t, .ok { s with hashes := s.hashes ++ [(rel, crypto.sha256 f.content)] })

/-- What is remembered of a path; the root is remembered as `.`. -/
def keyOf (rel : Bytes) : Bytes := if rel = [] then dot else rel

/-- One round of the loop of `scan`; sizes are 64-bit integers. -/
def scanMember (sink : Option Os) (s : Scan) (t : Tree) (m : Member) :
    Tree × Except CaskError Scan :=
  if lim.maxEntries < s.entries + 1 then (t, .error .tooLarge)
  else
    match memberName s.root m with
    | .error e => (t, .error e)
    | .ok (root, rel) =>
      if keyOf rel ∈ s.seen then (t, .error .entry)
      else
        let s := { s with root, seen := keyOf rel :: s.seen, entries := s.entries + 1 }
        match m.typeflag with
        | .dir => (t, .ok s)
        | .reg =>
          if rel = [] then (t, .error .entry)
          else if m.size < 0 ∨ lim.maxMember < m.size then (t, .error .tooLarge)
          else if lim.maxTotal < (s.total + m.size).bmod (2 ^ 64) then (t, .error .tooLarge)
          else member crypto lim sink { s with total := (s.total + m.size).bmod (2 ^ 64) } t m rel
        | _ => (t, .error .entry)

/-- The loop of `scan`. -/
def scanMembers (lim : Limits) (sink : Option Os) (s : Scan) (t : Tree) :
    List Member → Tree × Except CaskError Scan
  | [] => (t, .ok s)
  | m :: rest =>
    match scanMember crypto lim sink s t m with
    | (t, .error e) => (t, .error e)
    | (t, .ok s) => scanMembers lim sink s t rest

def maxPadding : Nat := 2 ^ 20

def scan (sink : Option Os) (t : Tree) : Untarred → Tree × Except CaskError Scan
  | .noGzip => (t, .error .format)
  | .archive members ending =>
    match scanMembers crypto lim sink .start t members with
    | (t, .error e) => (t, .error e)
    | (t, .ok s) =>
      match ending with
      | .broken => (t, .error .format)
      | .eof padding fails =>
        if s.root = [] then (t, .error .format)
        else if padding.length ≤ maxPadding ∧ padding.all (· = 0) ∧ fails = false then (t, .ok s)
        else (t, .error .format)

structure CaskResult where
  root : Bytes
  files : Nat
  keyID : Bytes
  runeSha256 : Bytes

variable (trusted : List (Option Bytes))

def trustedKey (keyId : Bytes) : Option Bytes :=
  trusted.findSome? fun k => k.filter fun pub => keyID crypto pub = keyId

/-- The differences between the files and the manifest. -/
def problems (hashes : List (Bytes × Bytes)) (files : Manifest) : List Problem :=
  files.filterMap (fun f =>
    match hashes.find? fun h => h.1 = f.1 with
    | none => some (Problem.missing f.1)
    | some h => if h.2 = f.2 then none else some (Problem.modified f.1)) ++
  hashes.filterMap fun h => if h.1 ∈ files.map Prod.fst then none else some (Problem.extra h.1)

def check (s : Scan) : Except CaskError CaskResult :=
  match s.manifest, s.sig with
  | none, _ => .error (.manifest none)
  | some _, none => .error .unsigned
  | some manifest, some sig =>
    if trusted = [] then .error .signature
    else
      match parseEvidenceSeal crypto sig with
      | none => .error .signature
      | some e =>
        match trustedKey crypto trusted e.keyId with
        | none => .error .signature
        | some pub =>
          if verifyEvidence crypto manifest e pub caskPurpose = false then .error .signature
          else
            match parseManifest manifest with
            | .error err => .error (.manifest (some err))
            | .ok files =>
              match problems s.hashes files with
              | [] => .ok ⟨s.root, files.length, e.keyId, utf8 (hexEncode (crypto.sha256 manifest))⟩
              | found => .error (.mismatch found)

/-- `Verify`, with nothing to write to. -/
def verify (lim : Limits) (cask : Untarred) : Except CaskError CaskResult :=
  match (scan crypto lim none ⟨[], []⟩ cask).2 with
  | .error e => .error e
  | .ok s => check crypto trusted s

def extractInto (os : Os) (trusted : List (Option Bytes)) (lim : Limits) (t : Tree)
    (cask : Untarred) : Tree × Except CaskError CaskResult :=
  if os.succeeds .openRoot = false then (t, .error .os)
  else
    match scan crypto lim (some os) t cask with
    | (t, .error e) => (t, .error e)
    | (t, .ok s) => (t, check crypto trusted s)

/-- `os.RemoveAll`; its error is discarded. -/
def removeAll (os : Os) (t : Tree) : Option Tree :=
  if os.succeeds .removeAll then none else some (os.left t)

/-- `ExtractFile`, on what is at the destination; the file is read twice. -/
def extractFile (os : Os) (trusted : List (Option Bytes)) (lim : Limits) (dest : Option Tree)
    (first second : Untarred) : Option Tree × Except CaskError CaskResult :=
  if os.succeeds .openRegular = false then (dest, .error .os)
  else
    match verify crypto trusted lim first with
    | .error e => (dest, .error e)
    | .ok _ =>
      if os.succeeds .seek = false ∨ dest.isSome ∨ os.succeeds .mkdir = false then (dest, .error .os)
      else
        match extractInto crypto os trusted lim ⟨[], []⟩ second with
        | (t, .error e) => (removeAll os t, .error e)
        | (t, .ok result) =>
          if os.succeeds .chmod then (some t, .ok result) else (removeAll os t, .error .os)

theorem field_inj {p q rest rest' : Bytes} (small : p.length < 2 ^ 32) (small' : q.length < 2 ^ 32)
    (same : field p ++ rest = field q ++ rest') : p = q ∧ rest = rest' := by
  unfold field at same
  rw [List.append_assoc, List.append_assoc] at same
  obtain ⟨lengths, bodies⟩ := append_inj same (by rw [length_beBytes, length_beBytes])
  have value := congrArg beValue lengths
  have power : 256 ^ 4 = 2 ^ 32 := by decide
  rw [beValue_beBytes, beValue_beBytes, power, Nat.mod_eq_of_lt small, Nat.mod_eq_of_lt small'] at value
  exact append_inj bodies value

theorem length_of_isPurpose {p : Bytes} (token : isPurpose p = true) : p.length ≤ 64 := by
  cases p with
  | nil => exact Nat.zero_le _
  | cons b rest =>
    have bound := ((Bool.and_eq_true _ _).mp ((Bool.and_eq_true _ _).mp token).1).2
    exact Nat.succ_le_succ (of_decide_eq_true bound)

variable {crypto}

theorem sealed_of_verifyEvidence {signs : Bytes → Sealing → Prop} {payload pub purpose : Bytes}
    {e : EvidenceSeal} (injective : Function.Injective crypto.sha256)
    (unforgeable : Unforgeable crypto signs) (small : purpose.length < 2 ^ 32)
    (verified : verifyEvidence crypto payload e pub purpose = true) :
    ∃ call, signs pub call ∧ call.payload = payload ∧ call.purpose = purpose := by
  obtain ⟨format, algorithm, -, named, key, hashed, -, signature⟩ := of_decide_eq_true verified
  obtain ⟨call, made, message⟩ := unforgeable _ _ _ signature
  unfold signEvidence at message
  split at message
  next token =>
    have bound := length_of_isPurpose token
    have same := Option.some.inj message
    unfold evidenceMessage at same
    dsimp only at same
    rw [format, algorithm, named, key] at same
    obtain ⟨purposes, behind⟩ := field_inj (by omega) small (append_cancel_left same)
    have times := append_cancel_left (append_cancel_left behind)
    obtain ⟨-, hashes⟩ := append_inj times (by rw [length_beBytes, length_beBytes])
    have digests : crypto.sha256 call.payload = e.payloadSha256 := by
      exact (append_inj hashes (by rw [length_beBytes, length_beBytes])).2
    exact ⟨call, made, injective (digests.trans hashed.symm), purposes⟩
  next => cases message

end Unheaded.Cask
