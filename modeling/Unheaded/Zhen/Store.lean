import Mathlib.Data.List.AList
import Unheaded.Lib.Events
import Unheaded.Zhen.Archive

/-!
# The tiered store

Fragments are hot in memory, warm in an embedded key-value store or cold in the archive.
-/

namespace Unheaded.Zhen

open Lib

structure TieredStore (τ : Type) where
  l1 : AList fun _ : FragmentId => Fragment τ
  l2 : AList fun _ : FragmentId => List Byte
  l3 : List Byte

def TieredStore.empty {τ : Type} : TieredStore τ := ⟨∅, ∅, []⟩

section Operations

variable {τ : Type} (blake3 : List Byte → FragmentId) (codec : FragmentCodec τ)

variable (s : TieredStore τ)

/-- Whether any tier has a fragment. -/
def TieredStore.contains (id : FragmentId) : Except ZhenError Bool :=
  if (s.l1.lookup id).isSome then .ok true
  else if (s.l2.lookup id).isSome then .ok true
  else (pilgrimage blake3 codec s.l3 id).map Option.isSome

/-- Whether the fragment was new. -/
def TieredStore.ingest (f : Fragment τ) : Except ZhenError Bool × TieredStore τ :=
  if f.verify blake3 then
    match s.contains blake3 codec f.id with
    | .error e => (.error e, s)
    | .ok true => (.ok false, s)
    | .ok false => (.ok true, { s with l1 := s.l1.insert f.id f })
  else (.error (.integrityFailure f.id), s)

/-- A fragment from any tier, hot afterwards. -/
def TieredStore.get (id : FragmentId) (now : τ) (removed : Bool) :
    Except ZhenError (Option (Fragment τ)) × TieredStore τ :=
  match s.l1.lookup id with
  | some f => (.ok (some (f.touch now)), { s with l1 := s.l1.insert id (f.touch now) })
  | none =>
    match s.l2.lookup id with
    | some bytes =>
      match decode blake3 codec bytes with
      | .error e => (.error e, s)
      | .ok f =>
        let s := { s with l1 := s.l1.insert id (f.touch now) }
        if removed then (.ok (some (f.touch now)), { s with l2 := s.l2.erase id })
        else (.error .storage, s)
    | none =>
      match pilgrimage blake3 codec s.l3 id with
      | .error e => (.error e, s)
      | .ok none => (.ok none, s)
      | .ok (some f) =>
        (.ok (some (f.touch now)), { s with l1 := s.l1.insert id (f.touch now) })

def isOld (elapsed : τ → τ → Option Nat) (now : τ) (threshold : Nat) (f : Fragment τ) : Bool :=
  match elapsed now f.lastAccessed with
  | some age => threshold < age
  | none => false

def TieredStore.toMigrate (old : Fragment τ → Bool) (order : List FragmentId) : List FragmentId :=
  order.filter fun id => (s.l1.lookup id).any old

/-- The loop of `sediment`, with the number migrated so far: `inserted` says
which inserts succeed. -/
def sedimentLoop (inserted : FragmentId → Bool) :
    List FragmentId → Nat → TieredStore τ → Except ZhenError Nat × TieredStore τ
  | [], migrated, s => (.ok migrated, s)
  | id :: rest, migrated, s =>
    match s.l1.lookup id with
    | none => sedimentLoop inserted rest migrated s
    | some f =>
      let s := { s with l1 := s.l1.erase id }
      if inserted id then
        sedimentLoop inserted rest (migrated + 1)
          { s with l2 := s.l2.insert id (codec.encode { f with tier := .warm }) }
      else (.error .storage, s)

/-- The end of a migration: the warm store is flushed where something moved. -/
def flushMigrated (flushed : Bool) :
    Except ZhenError Nat × TieredStore τ → Except ZhenError Nat × TieredStore τ
  | (.error e, s) => (.error e, s)
  | (.ok migrated, s) => (if 0 < migrated ∧ flushed = false then .error .storage else .ok migrated, s)

/-- Old hot fragments become warm. -/
def TieredStore.sediment (old : Fragment τ → Bool) (order : List FragmentId)
    (inserted : FragmentId → Bool) (flushed : Bool) : Except ZhenError Nat × TieredStore τ :=
  flushMigrated flushed (sedimentLoop codec inserted (s.toMigrate old order) 0 s)

/-- The candidates among the warm fragments; what does not decode is skipped. -/
def TieredStore.toArchive (old : Fragment τ → Bool) (order : List FragmentId) :
    List (FragmentId × Fragment τ) :=
  order.filterMap fun id =>
    match (s.l2.lookup id).map (decode blake3 codec) with
    | some (.ok f) => if old f then some (id, f) else none
    | _ => none

/-- The loop of `deep_sediment`. -/
def deepLoop (fate : FragmentId → WriteFate) (removed : FragmentId → Bool) :
    List (FragmentId × Fragment τ) → Nat → TieredStore τ → Except ZhenError Nat × TieredStore τ
  | [], migrated, s => (.ok migrated, s)
  | (id, f) :: rest, migrated, s =>
    match append blake3 codec f (fate id) s.l3 with
    | (.error e, file) => (.error e, { s with l3 := file })
    | (.ok (), file) =>
      let s := { s with l3 := file }
      if removed id then
        deepLoop fate removed rest (migrated + 1) { s with l2 := s.l2.erase id }
      else (.error .storage, s)

/-- Old warm fragments become cold. -/
def TieredStore.deepSediment (old : Fragment τ → Bool) (order : List FragmentId)
    (fate : FragmentId → WriteFate) (removed : FragmentId → Bool) (flushed : Bool) :
    Except ZhenError Nat × TieredStore τ :=
  flushMigrated flushed
    (deepLoop blake3 codec fate removed (s.toArchive blake3 codec old order) 0 s)

def TieredStore.snapshot : List Byte :=
  codec.encodeAll (s.l1.entries.map Sigma.snd)

/-- Verified fragments of a snapshot into the hot tier. -/
def restoreInto (l1 : AList fun _ : FragmentId => Fragment τ) (fs : List (Fragment τ)) :
    AList fun _ : FragmentId => Fragment τ :=
  fs.foldl (fun l1 f => if f.verify blake3 then l1.insert f.id f else l1) l1

/-- A snapshot and a new start on the same files; a snapshot that does not
decode leaves the hot tier empty. -/
def TieredStore.restart : TieredStore τ :=
  match codec.decodeAll (s.snapshot codec) with
  | none => { s with l1 := ∅ }
  | some fs => { s with l1 := restoreInto blake3 ∅ fs }

end Operations

end Unheaded.Zhen
