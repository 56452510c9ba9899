import Mathlib.Data.List.Find
import Unheaded.Zhen.Store

/-!
# Fragments that stay

A fragment is held while some tier can produce it.
-/

namespace Unheaded.Zhen

open Lib List AList Sample TieredStore

variable {τ : Type} {blake3 : List Byte → FragmentId} {codec : FragmentCodec τ}

/-! ## What a store holds -/

variable (blake3 codec)

def ArchiveHas (file : List Byte) (id : FragmentId) : Prop :=
  ∃ g, pilgrimage blake3 codec file id = .ok (some g)

def TieredStore.Held (s : TieredStore τ) (id : FragmentId) : Prop :=
  (s.l1.lookup id).isSome ∨ (s.l2.lookup id).isSome ∨ ArchiveHas blake3 codec s.l3 id

/-- Every fragment of the two upper tiers is verified and under its own id. -/
structure TieredStore.Sane (s : TieredStore τ) : Prop where
  hot : ∀ id f, s.l1.lookup id = some f → f.id = id ∧ f.verify blake3 = true
  warm : ∀ id bytes, s.l2.lookup id = some bytes →
    ∃ f, bytes = codec.encode f ∧ f.id = id ∧ f.verify blake3 = true

variable {blake3 codec}

theorem TieredStore.sane_empty : (empty : TieredStore τ).Sane blake3 codec where
  hot _ _ none := nomatch none
  warm _ _ none := nomatch none

section Get

variable {s : TieredStore τ} {id : FragmentId}

theorem TieredStore.Sane.get_held (sane : s.Sane blake3 codec) (held : s.Held blake3 codec id)
    (now : τ) :
    ∃ g, (s.get blake3 codec id now true).1 = .ok (some g) ∧ g.id = id ∧ g.verify blake3 = true := by
  unfold get
  cases hot : s.l1.lookup id with
  | some f =>
    obtain ⟨own, verified⟩ := sane.hot id f hot
    exact ⟨f.touch now, rfl, own, verified⟩
  | none =>
    cases warm : s.l2.lookup id with
    | some bytes =>
      obtain ⟨f, rfl, own, verified⟩ := sane.warm id bytes warm
      dsimp only
      rw [decode_encode verified]
      exact ⟨f.touch now, rfl, own, verified⟩
    | none =>
      obtain ⟨g, found⟩ : ArchiveHas blake3 codec s.l3 id := by
        rcases held with first | second | third
        · simp [hot] at first
        · simp [warm] at second
        · exact third
      obtain ⟨own, verified⟩ := pilgrimageFrom_found found
      rw [found]
      exact ⟨g.touch now, rfl, own, verified⟩

end Get

/-! ## Ingest and get -/

section Upper

variable {s : TieredStore τ}

variable {f : Fragment τ}

theorem TieredStore.Sane.insert_hot (sane : s.Sane blake3 codec) (verified : f.verify blake3 = true) :
    ({ s with l1 := s.l1.insert f.id f } : TieredStore τ).Sane blake3 codec := by
  refine ⟨?_, sane.warm⟩
  intro id g found
  by_cases same : id = f.id
  · subst same
    rw [lookup_insert] at found
    cases found
    exact ⟨rfl, verified⟩
  · rw [lookup_insert_ne same] at found
    exact sane.hot id g found

theorem TieredStore.Held.insert_hot {id key : FragmentId} (held : s.Held blake3 codec id)
    (f : Fragment τ) :
    ({ s with l1 := s.l1.insert key f } : TieredStore τ).Held blake3 codec id := by
  by_cases same : id = key
  · subst same
    exact Or.inl (by rw [lookup_insert]; rfl)
  · rcases held with hot | lower
    · exact Or.inl (by rwa [lookup_insert_ne same])
    · exact Or.inr lower

theorem TieredStore.held_of_contains {id : FragmentId}
    (has : s.contains blake3 codec id = .ok true) : s.Held blake3 codec id := by
  unfold contains at has
  split at has
  · next hot => exact Or.inl hot
  · split at has
    · next warm => exact Or.inr (Or.inl warm)
    · cases cold : pilgrimage blake3 codec s.l3 id with
      | error e =>
        rw [cold] at has
        cases has
      | ok result =>
        cases result with
        | none =>
          rw [cold] at has
          cases has
        | some g => exact Or.inr (Or.inr ⟨g, cold⟩)

/-- A state that an operation may leave: sane, with all that was held. -/
structure Keeps (blake3 : List Byte → FragmentId) (codec : FragmentCodec τ) (s s' : TieredStore τ) :
    Prop where
  sane : s.Sane blake3 codec → s'.Sane blake3 codec
  held : ∀ id, s.Held blake3 codec id → s'.Held blake3 codec id

theorem Keeps.refl (s : TieredStore τ) : Keeps blake3 codec s s := ⟨id, fun _ => id⟩

theorem ingest_keeps (s : TieredStore τ) (f : Fragment τ) :
    Keeps blake3 codec s (s.ingest blake3 codec f).2 := by
  unfold ingest
  split
  · next verified =>
      cases has : s.contains blake3 codec f.id with
      | error e => exact Keeps.refl s
      | ok found =>
        cases found with
        | true => exact Keeps.refl s
        | false => exact ⟨fun sane => sane.insert_hot verified, fun id held => held.insert_hot f⟩
  · exact Keeps.refl s

theorem ingest_held {new : Bool} (done : (s.ingest blake3 codec f).1 = .ok new) :
    (s.ingest blake3 codec f).2.Held blake3 codec f.id := by
  unfold ingest at done ⊢
  by_cases verified : f.verify blake3 = true
  · rw [if_pos verified] at done ⊢
    cases has : s.contains blake3 codec f.id with
    | error e =>
      simp [has] at done
    | ok found =>
      cases found with
      | true => exact held_of_contains has
      | false => exact Or.inl (by dsimp only; rw [lookup_insert]; rfl)
  · simp [if_neg verified] at done

theorem verify_of_ingest {new : Bool} (done : (s.ingest blake3 codec f).1 = .ok new) :
    f.verify blake3 = true := by
  unfold ingest at done
  by_cases verified : f.verify blake3 = true
  · exact verified
  · simp [if_neg verified] at done

theorem get_keeps (s : TieredStore τ) (sane : s.Sane blake3 codec) (id : FragmentId) (now : τ)
    (removed : Bool) : Keeps blake3 codec s (s.get blake3 codec id now removed).2 := by
  have promote {f : Fragment τ} (own : f.id = id) (verified : f.verify blake3 = true) :
      Keeps blake3 codec s { s with l1 := s.l1.insert id (f.touch now) } := by
    subst own
    exact ⟨fun sane => sane.insert_hot (f := f.touch now) verified, fun _ held => held.insert_hot _⟩
  unfold TieredStore.get
  cases hot : s.l1.lookup id with
  | some f =>
    obtain ⟨own, verified⟩ := sane.hot id f hot
    exact promote own verified
  | none =>
    cases warm : s.l2.lookup id with
    | some bytes =>
      obtain ⟨f, rfl, own, verified⟩ := sane.warm id bytes warm
      dsimp only
      rw [decode_encode verified]
      dsimp only
      have up := promote own verified
      split
      · -- the removal leaves every other warm fragment, and this one is hot
        refine ⟨fun sane => ⟨(up.sane sane).hot, ?_⟩, ?_⟩
        · intro other b found
          by_cases same : other = id
          · subst same
            simp [lookup_erase] at found
          · rw [lookup_erase_ne same] at found
            exact sane.warm other b found
        · intro other held
          by_cases same : other = id
          · subst same
            exact Or.inl (by dsimp only; rw [lookup_insert]; rfl)
          · rcases up.held other held with first | second | third
            · exact Or.inl first
            · exact Or.inr (Or.inl (by dsimp only at second ⊢; rwa [lookup_erase_ne same]))
            · exact Or.inr (Or.inr third)
      · exact up
    | none =>
      cases cold : pilgrimage blake3 codec s.l3 id with
      | error e => exact Keeps.refl s
      | ok result =>
        cases result with
        | none => exact Keeps.refl s
        | some f =>
          obtain ⟨own, verified⟩ := pilgrimageFrom_found cold
          exact promote own verified

end Upper

/-! ## Migration to the warm store -/

section Sediment

variable {s : TieredStore τ} {inserted : FragmentId → Bool}

def lostBy (s : TieredStore τ) (inserted : FragmentId → Bool) (ids : List FragmentId) :
    Option FragmentId :=
  ids.find? fun id => (s.l1.lookup id).isSome && !inserted id

/-- What the loop of `sediment` leaves. -/
structure Sedimented (blake3 : List Byte → FragmentId) (codec : FragmentCodec τ) (s : TieredStore τ)
    (lost : Option FragmentId) (s' : TieredStore τ) : Prop where
  sane : s.Sane blake3 codec → s'.Sane blake3 codec
  cold : s'.l3 = s.l3
  others : ∀ id, lost ≠ some id → ((s'.l1.lookup id).isSome ∨ (s'.l2.lookup id).isSome ↔
      (s.l1.lookup id).isSome ∨ (s.l2.lookup id).isSome)
  gone : ∀ id, lost = some id → s'.l1.lookup id = none ∧ s'.l2.lookup id = s.l2.lookup id

theorem sane_cool_down (sane : s.Sane blake3 codec) {id : FragmentId} {f : Fragment τ}
    (hot : s.l1.lookup id = some f) :
    ({ s with l1 := s.l1.erase id, l2 := s.l2.insert id (codec.encode { f with tier := .warm }) } :
      TieredStore τ).Sane blake3 codec := by
  refine ⟨?_, ?_⟩
  · intro other g found
    by_cases same : other = id
    · subst same
      rw [lookup_erase] at found
      cases found
    · rw [lookup_erase_ne same] at found
      exact sane.hot other g found
  · intro other bytes found
    by_cases same : other = id
    · subst same
      rw [lookup_insert] at found
      cases found
      obtain ⟨own, verified⟩ := sane.hot other f hot
      exact ⟨_, rfl, own, verified⟩
    · rw [lookup_insert_ne same] at found
      exact sane.warm other bytes found

theorem sedimentLoop_spec (ids : List FragmentId) (migrated : Nat) (s : TieredStore τ) :
    Sedimented blake3 codec s (lostBy s inserted ids)
      (sedimentLoop codec inserted ids migrated s).2 := by
  induction ids generalizing migrated s with
  | nil => exact ⟨id, rfl, fun _ _ => Iff.rfl, fun _ none => nomatch none⟩
  | cons key rest ih =>
    rw [sedimentLoop]
    cases hot : s.l1.lookup key with
    | none =>
      have same : lostBy s inserted (key :: rest) = lostBy s inserted rest := by
        rw [lostBy, List.find?_cons_of_neg (by simp [hot]), lostBy]
      rw [same]
      exact ih migrated s
    | some f =>
      dsimp only
      by_cases ok : inserted key = true
      · rw [if_pos ok]
        have step := ih (migrated + 1) { s with
            l1 := s.l1.erase key
            l2 := s.l2.insert key (codec.encode { f with tier := .warm }) }
        have same : lostBy { s with
            l1 := s.l1.erase key
            l2 := s.l2.insert key (codec.encode { f with tier := .warm }) } inserted rest =
            lostBy s inserted (key :: rest) := by
          rw [lostBy, lostBy, List.find?_cons_of_neg (by simp [ok])]
          apply List.find?_congr
          intro id _
          by_cases here : id = key
          · rw [here, ok]
            simp
          · rw [lookup_erase_ne here]
        rw [same] at step
        refine ⟨fun sane => step.sane (sane_cool_down sane hot), step.cold, ?_, ?_⟩
        · intro id other
          rw [step.others id other]
          by_cases here : id = key
          · subst here
            simp [hot]
          · rw [lookup_erase_ne here, lookup_insert_ne here]
        · intro id lost
          obtain ⟨gone, warm⟩ := step.gone id lost
          refine ⟨gone, ?_⟩
          have here : id ≠ key := by
            rintro rfl
            have failed := List.find?_some lost
            rw [ok] at failed
            simp at failed
          rw [warm]
          rw [lookup_insert_ne here]
      · rw [if_neg ok]
        have lost : lostBy s inserted (key :: rest) = some key := by
          rw [lostBy, List.find?_cons_of_pos (by simp [hot, ok])]
        rw [lost]
        refine ⟨fun sane => ⟨?_, sane.warm⟩, rfl, ?_, ?_⟩
        · intro id g found
          by_cases here : id = key
          · subst here
            simp [lookup_erase] at found
          · rw [lookup_erase_ne here] at found
            exact sane.hot id g found
        · intro id other
          have here : id ≠ key := fun same => other (by rw [same])
          rw [lookup_erase_ne here]
        · intro id same
          cases same
          exact ⟨lookup_erase key s.l1, rfl⟩

end Sediment

/-! ## Migration to the archive -/

section Deep

variable {fate : FragmentId → WriteFate} {removed : FragmentId → Bool}

/-- The fragments that `deep_sediment` takes out of the warm store: those before
the first failure. -/
def movedBy (fate : FragmentId → WriteFate) (removed : FragmentId → Bool)
    (items : List (FragmentId × Fragment τ)) : List (FragmentId × Fragment τ) :=
  items.takeWhile fun p => fate p.1 = .done && removed p.1

variable {key : FragmentId}

theorem movedBy_cons_moved (f : Fragment τ) (rest : List (FragmentId × Fragment τ))
    (moves : (decide (fate key = .done) && removed key) = true) :
    movedBy fate removed ((key, f) :: rest) = (key, f) :: movedBy fate removed rest :=
  takeWhile_cons_of_pos moves

theorem movedBy_cons_kept (f : Fragment τ) (rest : List (FragmentId × Fragment τ))
    (stays : ¬ (decide (fate key = .done) && removed key) = true) :
    movedBy fate removed ((key, f) :: rest) = [] :=
  takeWhile_cons_of_neg stays

/-- The bytes that an append leaves in the file. -/
def appendedBytes (codec : FragmentCodec τ) (f : Fragment τ) : WriteFate → List Byte
  | .done => archiveEntry codec f
  | .fails written =>
    (archiveEntry codec f).take (min written ((archiveEntry codec f).length - 1))

/-- The bytes that `deep_sediment` adds to the archive. -/
def deepBytes (codec : FragmentCodec τ) (fate : FragmentId → WriteFate) (removed : FragmentId → Bool) :
    List (FragmentId × Fragment τ) → List Byte
  | [] => []
  | (id, f) :: rest =>
    appendedBytes codec f (fate id) ++
      if fate id = .done && removed id then deepBytes codec fate removed rest else []

/-- What the loop of `deep_sediment` leaves. -/
structure Archived (s : TieredStore τ) (bytes : List Byte) (moved : List (FragmentId × Fragment τ))
    (s' : TieredStore τ) : Prop where
  hot : s'.l1 = s.l1
  cold : s'.l3 = s.l3 ++ bytes
  gone : ∀ p ∈ moved, s'.l2.lookup p.1 = none
  warm : ∀ id, (∀ p ∈ moved, p.1 ≠ id) → s'.l2.lookup id = s.l2.lookup id

theorem append_eq {f : Fragment τ} (verified : f.verify blake3 = true) (fate : WriteFate)
    (file : List Byte) :
    append blake3 codec f fate file =
      (if fate = .done then .ok () else .error .io, file ++ appendedBytes codec f fate) := by
  unfold Zhen.append
  rw [if_pos verified]
  cases fate with
  | done => rfl
  | fails written => rfl

theorem deepLoop_spec (items : List (FragmentId × Fragment τ))
    (verified : ∀ p ∈ items, p.2.verify blake3 = true) (migrated : Nat) (s : TieredStore τ) :
    Archived s (deepBytes codec fate removed items) (movedBy fate removed items)
      (deepLoop blake3 codec fate removed items migrated s).2 := by
  induction items generalizing migrated s with
  | nil => exact ⟨rfl, (append_nil _).symm, fun _ none => (nomatch none), fun _ _ => rfl⟩
  | cons item rest ih =>
    obtain ⟨key, f⟩ := item
    obtain ⟨first, others⟩ := forall_mem_cons.mp verified
    rw [deepLoop, append_eq first]
    by_cases done : fate key = .done
    · rw [if_pos done]
      dsimp only
      by_cases out : removed key = true
      · have moves : (decide (fate key = .done) && removed key) = true := by simp [done, out]
        have step := ih others (migrated + 1) { s with
            l3 := s.l3 ++ appendedBytes codec f (fate key)
            l2 := s.l2.erase key }
        rw [if_pos out, movedBy_cons_moved f rest moves]
        refine ⟨step.hot, ?_, ?_, ?_⟩
        · rw [step.cold, deepBytes, if_pos moves, List.append_assoc]
        · intro p mem
          by_cases later : ∃ q ∈ movedBy fate removed rest, q.1 = p.1
          · obtain ⟨q, inside, same⟩ := later
            rw [← same]
            exact step.gone q inside
          · rw [step.warm p.1 fun q inside same => later ⟨q, inside, same⟩]
            rcases mem_cons.mp mem with rfl | inside
            · exact lookup_erase key s.l2
            · exact absurd ⟨p, inside, rfl⟩ later
        · intro id apart
          obtain ⟨other, behind⟩ := forall_mem_cons.mp apart
          rw [step.warm id behind]
          exact lookup_erase_ne (Ne.symm other)
      · have stays : ¬ (decide (fate key = .done) && removed key) = true := by simp [out]
        rw [if_neg out, movedBy_cons_kept f rest stays, deepBytes, if_neg stays, append_nil]
        exact ⟨rfl, rfl, fun _ none => (nomatch none), fun _ _ => rfl⟩
    · have stays : ¬ (decide (fate key = .done) && removed key) = true := by simp [done]
      rw [if_neg done, movedBy_cons_kept f rest stays, deepBytes, if_neg stays, append_nil]
      exact ⟨rfl, rfl, fun _ none => (nomatch none), fun _ _ => rfl⟩

variable {s : TieredStore τ} {old : Fragment τ → Bool} {order : List FragmentId}
  {p : FragmentId × Fragment τ}

theorem verify_toArchive (mem : p ∈ s.toArchive blake3 codec old order) :
    p.2.verify blake3 = true := by
  obtain ⟨id, _, chosen⟩ := mem_filterMap.mp mem
  cases warm : s.l2.lookup id with
  | none =>
    simp [warm] at chosen
  | some bytes =>
    rw [warm, Option.map_some] at chosen
    cases decoded : decode blake3 codec bytes with
    | error e =>
      simp [decoded] at chosen
    | ok f =>
      rw [decoded] at chosen
      dsimp only at chosen
      split at chosen <;> cases chosen
      exact verify_of_decode decoded

theorem id_toArchive (sane : s.Sane blake3 codec) (mem : p ∈ s.toArchive blake3 codec old order) :
    p.2.id = p.1 := by
  obtain ⟨id, _, chosen⟩ := mem_filterMap.mp mem
  cases warm : s.l2.lookup id with
  | none =>
    simp [warm] at chosen
  | some bytes =>
    obtain ⟨f, rfl, own, verified⟩ := sane.warm id bytes warm
    rw [warm, Option.map_some, decode_encode verified] at chosen
    dsimp only at chosen
    split at chosen <;> cases chosen
    exact own

theorem deepBytes_eq (items : List (FragmentId × Fragment τ)) :
    ∃ tail, deepBytes codec fate removed items =
      wholeFile codec ((movedBy fate removed items).map Prod.snd) ++ tail := by
  induction items with
  | nil => exact ⟨[], rfl⟩
  | cons item rest ih =>
    obtain ⟨key, f⟩ := item
    rw [deepBytes]
    by_cases moves : (decide (fate key = .done) && removed key) = true
    · have done : fate key = .done := by simp_all
      obtain ⟨tail, eq⟩ := ih
      refine ⟨tail, ?_⟩
      rw [if_pos moves, eq, movedBy_cons_moved f rest moves, map_cons, wholeFile, wholeFile,
        flatMap_cons, List.append_assoc, done]
      rfl
    · refine ⟨appendedBytes codec f (fate key), ?_⟩
      rw [if_neg moves, append_nil, movedBy_cons_kept f rest moves]
      rfl

theorem archiveHas_moved {fs : List (Fragment τ)} (good : ∀ f ∈ fs, Archivable blake3 codec f)
    {items : List (FragmentId × Fragment τ)}
    (moved : ∀ p ∈ movedBy fate removed items, Archivable blake3 codec p.2)
    (mem : p ∈ movedBy fate removed items) :
    ArchiveHas blake3 codec (wholeFile codec fs ++ deepBytes codec fate removed items) p.2.id := by
  obtain ⟨tail, bytes⟩ : ∃ tail, deepBytes codec fate removed items =
      wholeFile codec ((movedBy fate removed items).map Prod.snd) ++ tail := deepBytes_eq items
  have all : ∀ f ∈ fs ++ (movedBy fate removed items).map Prod.snd, Archivable blake3 codec f := by
    intro f inside
    rcases mem_append.mp inside with before | new
    · exact good f before
    · obtain ⟨q, there, rfl⟩ := List.mem_map.mp new
      exact moved q there
  have file : wholeFile codec fs ++ deepBytes codec fate removed items =
      wholeFile codec (fs ++ (movedBy fate removed items).map Prod.snd) ++ tail := by
    rw [bytes, wholeFile, wholeFile, wholeFile, flatMap_append, List.append_assoc]
  rw [file]
  refine pilgrimageFrom_wholeFile all tail (mem_append_right _ (List.mem_map_of_mem mem)) ?_
  exact Nat.le_succ_of_le ((length_le_wholeFile _).trans (sublist_append_left _ tail).length_le)

end Deep

/-! ## Restarts -/

theorem lookup_restoreInto {entries : List (Sigma fun _ : FragmentId => Fragment τ)}
    (nodup : entries.NodupKeys) (own : ∀ e ∈ entries, e.2.id = e.1 ∧ e.2.verify blake3 = true)
    (l1 : AList fun _ : FragmentId => Fragment τ) (id : FragmentId) :
    (restoreInto blake3 l1 (entries.map Sigma.snd)).lookup id =
      ((entries.dlookup id).or (l1.lookup id)) := by
  induction entries generalizing l1 with
  | nil => rfl
  | cons e entries ih =>
    obtain ⟨key, f⟩ := e
    obtain ⟨absent, rest⟩ := nodupKeys_cons.mp nodup
    obtain ⟨⟨same, verified⟩, others⟩ := forall_mem_cons.mp own
    have step : restoreInto blake3 l1 (((⟨key, f⟩ : Sigma _) :: entries).map Sigma.snd) =
        restoreInto blake3 (l1.insert f.id f) (entries.map Sigma.snd) := by
      rw [map_cons, restoreInto, foldl_cons, if_pos verified]
      rfl
    rw [step, ih rest others, same]
    by_cases here : id = key
    · subst here
      rw [lookup_insert, dlookup_cons_eq, dlookup_eq_none.mpr absent]
      rfl
    · rw [lookup_insert_ne here, dlookup_cons_ne _ _ here]

theorem lookup_restart {s : TieredStore τ} (sane : s.Sane blake3 codec) (id : FragmentId) :
    (s.restart blake3 codec).l1.lookup id = s.l1.lookup id ∧
      (s.restart blake3 codec).l2 = s.l2 ∧ (s.restart blake3 codec).l3 = s.l3 := by
  have own : ∀ e ∈ s.l1.entries, e.2.id = e.1 ∧ e.2.verify blake3 = true := by
    intro e mem
    exact sane.hot e.1 e.2 (mem_lookup_iff.mpr mem)
  rw [restart, snapshot, codec.roundTripAll]
  refine ⟨?_, rfl, rfl⟩
  have restored := lookup_restoreInto s.l1.nodupKeys own ∅ id
  rwa [lookup_empty, Option.or_none] at restored

theorem restart_keeps (s : TieredStore τ) (sane : s.Sane blake3 codec) :
    Keeps blake3 codec s (s.restart blake3 codec) := by
  refine ⟨fun _ => ⟨?_, ?_⟩, ?_⟩
  · intro id f found
    rw [(lookup_restart sane id).1] at found
    exact sane.hot id f found
  · intro id bytes found
    rw [(lookup_restart sane id).2.1] at found
    exact sane.warm id bytes found
  · intro id held
    obtain ⟨hot, warm, cold⟩ := lookup_restart sane id
    rw [TieredStore.Held, hot, warm, cold]
    exact held

/-! ## Whole runs -/

/-- What may happen to a store.  Times, thresholds and the orders of the maps
are arbitrary, and so is which of the writes succeed. -/
inductive StoreOp (τ : Type) where
  | ingest (f : Fragment τ)
  | get (id : FragmentId) (now : τ) (removed : Bool)
  | sediment (now : τ) (threshold : Nat) (order : List FragmentId) (inserted : FragmentId → Bool)
      (flushed : Bool)
  | deepSediment (now : τ) (threshold : Nat) (order : List FragmentId)
      (fate : FragmentId → WriteFate) (removed : FragmentId → Bool) (flushed : Bool)
  | restart

/-- A store with the fragments whose ingest returned success. -/
structure StoreRun (τ : Type) where
  store : TieredStore τ
  ingested : List (Fragment τ)

def StoreRun.fresh : StoreRun τ := ⟨empty, []⟩

section Runs

variable (blake3 codec) (elapsed : τ → τ → Option Nat)

variable (r : StoreRun τ)

def StoreRun.after : StoreOp τ → StoreRun τ
  | .ingest f =>
    ⟨(r.store.ingest blake3 codec f).2,
      if (r.store.ingest blake3 codec f).1.isOk then r.ingested ++ [f] else r.ingested⟩
  | .get id now removed => ⟨(r.store.get blake3 codec id now removed).2, r.ingested⟩
  | .sediment now threshold order inserted flushed =>
    ⟨(r.store.sediment codec (isOld elapsed now threshold) order inserted flushed).2, r.ingested⟩
  | .deepSediment now threshold order fate removed flushed =>
    ⟨(r.store.deepSediment blake3 codec (isOld elapsed now threshold) order fate removed
      flushed).2, r.ingested⟩
  | .restart => ⟨r.store.restart blake3 codec, r.ingested⟩

/-- Every ingested fragment is found under its id, and with its payload where
no other payload has that id. -/
def StoreRun.Remembers : Prop :=
  ∀ f ∈ r.ingested, ∀ now, ∃ g, (r.store.get blake3 codec f.id now true).1 = .ok (some g) ∧
    g.id = f.id ∧ ((∀ payload, blake3 payload = f.id → payload = f.payload) → g.payload = f.payload)

def ArchiveWhole (file : List Byte) : Prop :=
  ∃ fs, (∀ f ∈ fs, Archivable blake3 codec f) ∧ file = wholeFile codec fs

/-- A step that loses nothing: a hot fragment whose insert fails is in a lower
tier as well, and a warm fragment that moves is in another tier as well or moves
to a whole archive, with entries that readers accept. -/
def Sound : StoreOp τ → Prop
  | .sediment now threshold order inserted _ =>
    ∀ id, lostBy r.store inserted (r.store.toMigrate (isOld elapsed now threshold) order) = some id →
      (r.store.l2.lookup id).isSome ∨ ArchiveHas blake3 codec r.store.l3 id
  | .deepSediment now threshold order fate removed _ =>
    let moved := movedBy fate removed
      (r.store.toArchive blake3 codec (isOld elapsed now threshold) order)
    ∀ p ∈ moved, (r.store.l1.lookup p.1).isSome ∨ ArchiveHas blake3 codec r.store.l3 p.1 ∨
      ArchiveWhole blake3 codec r.store.l3 ∧
        ∀ q ∈ moved, (codec.encode q.2.cooled).length ≤ maxEntry
  | _ => True

variable {blake3 codec elapsed}

/-- What every step that loses nothing keeps. -/
structure StoreRun.Safe (blake3 : List Byte → FragmentId) (codec : FragmentCodec τ)
    (r : StoreRun τ) : Prop where
  sane : r.store.Sane blake3 codec
  verified : ∀ f ∈ r.ingested, f.verify blake3 = true
  held : ∀ f ∈ r.ingested, r.store.Held blake3 codec f.id

theorem flushMigrated_snd (flushed : Bool) (result : Except ZhenError Nat × TieredStore τ) :
    (flushMigrated flushed result).2 = result.2 := by
  obtain ⟨outcome, s⟩ := result
  cases outcome with
  | error e => rfl
  | ok migrated => rfl

theorem sediment_keeps (s : TieredStore τ) (old : Fragment τ → Bool) (order : List FragmentId)
    (inserted : FragmentId → Bool) (flushed : Bool)
    (covered : ∀ id, lostBy s inserted (s.toMigrate old order) = some id →
      (s.l2.lookup id).isSome ∨ ArchiveHas blake3 codec s.l3 id) :
    Keeps blake3 codec s (s.sediment codec old order inserted flushed).2 := by
  rw [sediment, flushMigrated_snd]
  have spec := @sedimentLoop_spec τ blake3 codec inserted (s.toMigrate old order) 0 s
  refine ⟨spec.sane, ?_⟩
  intro id held
  rw [TieredStore.Held, spec.cold]
  by_cases lost : lostBy s inserted (s.toMigrate old order) = some id
  · rw [(spec.gone id lost).2]
    exact Or.inr (covered id lost)
  · rw [← or_assoc, spec.others id lost, or_assoc]
    exact held

theorem deepSediment_keeps (s : TieredStore τ) (sane : s.Sane blake3 codec) (old : Fragment τ → Bool)
    (order : List FragmentId) (fate : FragmentId → WriteFate) (removed : FragmentId → Bool)
    (flushed : Bool) (covered : ∀ p ∈ movedBy fate removed (s.toArchive blake3 codec old order),
      (s.l1.lookup p.1).isSome ∨ ArchiveHas blake3 codec s.l3 p.1 ∨ ArchiveWhole blake3 codec s.l3 ∧
          ∀ q ∈ movedBy fate removed (s.toArchive blake3 codec old order),
            (codec.encode q.2.cooled).length ≤ maxEntry) :
    Keeps blake3 codec s (s.deepSediment blake3 codec old order fate removed flushed).2 := by
  rw [deepSediment, flushMigrated_snd]
  have candidate {p : FragmentId × Fragment τ}
      (moved : p ∈ movedBy fate removed (s.toArchive blake3 codec old order)) :
      p ∈ s.toArchive blake3 codec old order := takeWhile_sublist _ |>.subset moved
  have spec := @deepLoop_spec τ blake3 codec fate removed (s.toArchive blake3 codec old order)
    (fun p mem => verify_toArchive mem) 0 s
  have archived {id : FragmentId} (has : ArchiveHas blake3 codec s.l3 id) : ArchiveHas blake3 codec
        (s.l3 ++ deepBytes codec fate removed (s.toArchive blake3 codec old order)) id := by
    obtain ⟨g, found⟩ := has
    exact ⟨g, pilgrimage_append found _⟩
  refine ⟨fun _ => ⟨?_, ?_⟩, ?_⟩
  · intro id f found
    rw [spec.hot] at found
    exact sane.hot id f found
  · intro id bytes found
    by_cases moved : ∃ p ∈ movedBy fate removed (s.toArchive blake3 codec old order), p.1 = id
    · obtain ⟨p, mem, rfl⟩ := moved
      simp [spec.gone p mem] at found
    · rw [spec.warm id fun p mem same => moved ⟨p, mem, same⟩] at found
      exact sane.warm id bytes found
  · intro id held
    rw [TieredStore.Held, spec.hot, spec.cold]
    by_cases moved : ∃ p ∈ movedBy fate removed (s.toArchive blake3 codec old order), p.1 = id
    · obtain ⟨p, mem, rfl⟩ := moved
      rcases covered p mem with hot | cold | ⟨⟨fs, good, whole⟩, small⟩
      · exact Or.inl hot
      · exact Or.inr (Or.inr (archived cold))
      · have has : ArchiveHas blake3 codec
            (s.l3 ++ deepBytes codec fate removed (s.toArchive blake3 codec old order)) p.2.id := by
          rw [whole]
          exact archiveHas_moved good
            (fun q inside => ⟨verify_toArchive (candidate inside), small q inside⟩) mem
        rw [id_toArchive sane (candidate mem)] at has
        exact Or.inr (Or.inr has)
    · rw [spec.warm id fun p mem same => moved ⟨p, mem, same⟩]
      rcases held with hot | warm | cold
      · exact Or.inl hot
      · exact Or.inr (Or.inl warm)
      · exact Or.inr (Or.inr (archived cold))

variable {r : StoreRun τ}

section

variable (safe : r.Safe blake3 codec)
include safe

theorem StoreRun.Safe.keeps {s : TieredStore τ}
    (keeps : Keeps blake3 codec r.store s) : StoreRun.Safe blake3 codec ⟨s, r.ingested⟩ :=
  ⟨keeps.sane safe.sane, safe.verified, fun f mem => keeps.held f.id (safe.held f mem)⟩

theorem StoreRun.Safe.ingest (f : Fragment τ) :
    (r.after blake3 codec elapsed (.ingest f)).Safe blake3 codec := by
  have old := safe.keeps (ingest_keeps r.store f)
  rw [StoreRun.after]
  cases done : (r.store.ingest blake3 codec f).1 with
  | error e =>
    exact old
  | ok new =>
    refine ⟨old.sane, ?_, ?_⟩
    · intro g mem
      rcases mem_append.mp mem with before | this
      · exact safe.verified g before
      · rw [mem_singleton.mp this]
        exact verify_of_ingest done
    · intro g mem
      rcases mem_append.mp mem with before | this
      · exact old.held g before
      · rw [mem_singleton.mp this]
        exact ingest_held done

theorem StoreRun.Safe.step (op : StoreOp τ) (sound : Sound blake3 codec elapsed r op) :
    (r.after blake3 codec elapsed op).Safe blake3 codec := by
  cases op with
  | ingest f => exact safe.ingest f
  | get id now removed => exact safe.keeps (get_keeps r.store safe.sane id now removed)
  | sediment now threshold order inserted flushed =>
    exact safe.keeps (sediment_keeps r.store _ order inserted flushed sound)
  | deepSediment now threshold order fate removed flushed =>
    exact safe.keeps (deepSediment_keeps r.store safe.sane _ order fate removed flushed sound)
  | restart => exact safe.keeps (restart_keeps r.store safe.sane)

theorem StoreRun.Safe.remembers : r.Remembers blake3 codec := by
  intro f mem now
  obtain ⟨g, found, own, verified⟩ := safe.sane.get_held (safe.held f mem) now
  refine ⟨g, found, own, fun only => only g.payload ?_⟩
  rw [← own]
  exact (of_decide_eq_true verified).symm

end

/-- Along steps that lose nothing, every fragment whose ingest returned success
stays. -/
theorem fragments_never_die (ops : List (StoreOp τ))
    (sound : Along (StoreRun.after blake3 codec elapsed) (Sound blake3 codec elapsed) .fresh ops) :
    (afterAll (StoreRun.after blake3 codec elapsed) .fresh ops).Remembers blake3 codec := by
  have start : (StoreRun.fresh : StoreRun τ).Safe blake3 codec :=
    ⟨sane_empty, fun _ none => (nomatch none), fun _ none => (nomatch none)⟩
  exact (sound.invariant (fun _ op safe allowed => safe.step op allowed) start).remembers

end Runs

/-! ## A failed insert -/

def Sample.elapsed : Sample.Moment → Sample.Moment → Option Nat
  | .first, .second => none
  | .second, .first => some 1
  | _, _ => some 0

def Sample.cooling (inserted : FragmentId → Bool) : List (StoreOp Sample.Moment) :=
  [.ingest ancient, .sediment .second 0 [wisdomId] inserted true]

theorem fragments_survive_sediment : Along (StoreRun.after Sample.hash Sample.codec Sample.elapsed)
        (Sound Sample.hash Sample.codec Sample.elapsed) .fresh (Sample.cooling fun _ => true) ∧
      (afterAll (StoreRun.after Sample.hash Sample.codec Sample.elapsed) .fresh
        (Sample.cooling fun _ => true)).Remembers Sample.hash Sample.codec := by
  have sound : Along (StoreRun.after Sample.hash Sample.codec Sample.elapsed)
      (Sound Sample.hash Sample.codec Sample.elapsed) .fresh (Sample.cooling fun _ => true) := by
    refine ⟨trivial, ?_, trivial⟩
    intro id lost
    have failed := List.find?_some lost
    simp at failed
  exact ⟨sound, fragments_never_die _ sound⟩

/-- A fragment out of the hot tier that does not get into the warm store is not
found any more. -/
theorem fragment_lost_by_failed_insert :
    ¬ (afterAll (StoreRun.after Sample.hash Sample.codec Sample.elapsed) .fresh
      (Sample.cooling fun _ => false)).Remembers Sample.hash Sample.codec := by
  intro remembers
  obtain ⟨g, found, _⟩ := remembers Sample.ancient (mem_singleton.mpr rfl) .second
  cases found

end Unheaded.Zhen
