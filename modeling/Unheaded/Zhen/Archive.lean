import Unheaded.Zhen.Fragment

/-!
# The cold archive

The archive is one file of entries, each a 32-bit length and an encoded fragment.
-/

namespace Unheaded.Zhen

open Lib List Sample

variable {τ : Type} (blake3 : List Byte → FragmentId) (codec : FragmentCodec τ)

def maxEntry : Nat := 64 * 1024 * 1024

variable (f : Fragment τ)

def Fragment.cooled : Fragment τ := { f with tier := .cold }

def archiveEntry : List Byte :=
  leBytes 4 (codec.encode f.cooled).length ++ codec.encode f.cooled

/-- What becomes of the write of an entry: all of it, or an error after some
bytes, but not all. -/
inductive WriteFate where
  | done
  | fails (written : Nat)
  deriving DecidableEq

/-- `Archive::append`, with the file it leaves. -/
def append (fate : WriteFate) (file : List Byte) : Except ZhenError Unit × List Byte :=
  if f.verify blake3 then
    match fate with
    | .done => (.ok (), file ++ archiveEntry codec f)
    | .fails written =>
      (.error .io, file ++ (archiveEntry codec f).take (min written ((archiveEntry codec f).length - 1)))
  else (.error (.integrityFailure f.id), file)

/-- What a reader finds next in the file. -/
inductive NextEntry where
  | finished
  | oversized
  | cutOff
  | entry (body rest : List Byte)
  deriving DecidableEq

def nextEntry (input : List Byte) : NextEntry :=
  match readExact 4 input with
  | none => .finished
  | some (lenBuf, rest) =>
    if maxEntry < leValue lenBuf then .oversized
    else
      match readExact (leValue lenBuf) rest with
      | none => .cutOff
      | some (body, rest) => .entry body rest

/-- The search from some point of the file on. -/
def pilgrimageFrom (target : FragmentId) : Nat → List Byte → Except ZhenError (Option (Fragment τ))
  | 0, _ => .ok none
  | turns + 1, input =>
    match nextEntry input with
    | .finished => .ok none
    | .oversized => .error .serialization
    | .cutOff => .error .io
    | .entry body rest =>
      match decode blake3 codec body with
      | .ok f => if f.id = target then .ok (some f) else pilgrimageFrom target turns rest
      | .error _ => pilgrimageFrom target turns rest

def pilgrimage (file : List Byte) (target : FragmentId) : Except ZhenError (Option (Fragment τ)) :=
  pilgrimageFrom blake3 codec target (file.length + 1) file

def scanIdsFrom : Nat → List Byte → Except ZhenError (List FragmentId)
  | 0, _ => .ok []
  | turns + 1, input =>
    match nextEntry input with
    | .finished => .ok []
    | .oversized => .ok []
    | .cutOff => .error .io
    | .entry body rest =>
      match decode blake3 codec body with
      | .ok f => (scanIdsFrom turns rest).map (f.id :: ·)
      | .error _ => scanIdsFrom turns rest

def scanIds (file : List Byte) : Except ZhenError (List FragmentId) :=
  scanIdsFrom blake3 codec (file.length + 1) file

/-- An entry that readers accept. -/
structure Archivable (f : Fragment τ) : Prop where
  verified : f.verify blake3 = true
  small : (codec.encode f.cooled).length ≤ maxEntry

def wholeFile (fs : List (Fragment τ)) : List Byte := fs.flatMap (archiveEntry codec)

variable {blake3 codec}

variable {f : Fragment τ}

theorem verify_cooled : f.cooled.verify blake3 = f.verify blake3 := rfl

theorem nextEntry_archiveEntry (small : (codec.encode f.cooled).length ≤ maxEntry)
    (rest : List Byte) :
    nextEntry (archiveEntry codec f ++ rest) = .entry (codec.encode f.cooled) rest := by
  have length : leValue (leBytes 4 (codec.encode f.cooled).length) =
      (codec.encode f.cooled).length := by
    rw [leValue_leBytes]
    unfold maxEntry at small
    exact Nat.mod_eq_of_lt (by omega)
  rw [nextEntry, archiveEntry, List.append_assoc, readExact_append _ _ (length_leBytes 4 _)]
  dsimp only
  rw [length, if_neg (Nat.not_lt.mpr small), readExact_append _ _ rfl]

variable {input : List Byte}

theorem nextEntry_short (short : input.length < 4) : nextEntry input = .finished := by
  rw [nextEntry, readExact_eq_none short]

theorem nextEntry_append {body rest : List Byte} (next : nextEntry input = .entry body rest)
    (more : List Byte) : nextEntry (input ++ more) = .entry body (rest ++ more) := by
  unfold nextEntry at next ⊢
  cases first : readExact 4 input with
  | none =>
    simp [first] at next
  | some parts =>
    obtain ⟨lenBuf, tail⟩ := parts
    obtain ⟨rfl, four⟩ := readExact_eq_some first
    rw [first] at next
    rw [List.append_assoc, readExact_append _ _ four]
    dsimp only at next ⊢
    split at next
    · cases next
    · next small =>
        cases second : readExact (leValue lenBuf) tail with
        | none =>
          rw [second] at next
          cases next
        | some parts =>
          obtain ⟨rfl, size⟩ := readExact_eq_some second
          rw [second] at next
          cases next
          rw [if_neg small, List.append_assoc, readExact_append _ _ size]

variable {target : FragmentId} {turns : Nat}

theorem pilgrimageFrom_append {turns' : Nat}
    (found : pilgrimageFrom blake3 codec target turns input = .ok (some f))
    (enough : turns ≤ turns') (more : List Byte) :
    pilgrimageFrom blake3 codec target turns' (input ++ more) = .ok (some f) := by
  induction turns generalizing input turns' with
  | zero => cases found
  | succ turns ih =>
    obtain ⟨turns', rfl⟩ : ∃ n, turns' = n + 1 := ⟨turns' - 1, by omega⟩
    rw [pilgrimageFrom] at found ⊢
    cases next : nextEntry input with
    | finished | oversized | cutOff =>
      simp [next] at found
    | entry body rest =>
      rw [next] at found
      rw [nextEntry_append next more]
      dsimp only at found ⊢
      cases decoded : decode blake3 codec body with
      | error e =>
        rw [decoded] at found
        exact ih found (by omega)
      | ok g =>
        rw [decoded] at found
        dsimp only at found ⊢
        split at found
        · next same => rw [if_pos same, found]
        · next other => rw [if_neg other, ih found (by omega)]

theorem pilgrimage_append {file : List Byte}
    (found : pilgrimage blake3 codec file target = .ok (some f)) (more : List Byte) :
    pilgrimage blake3 codec (file ++ more) target = .ok (some f) :=
  pilgrimageFrom_append found (by rw [length_append]; omega) more

theorem pilgrimageFrom_found (found : pilgrimageFrom blake3 codec target turns input = .ok (some f)) :
    f.id = target ∧ f.verify blake3 = true := by
  induction turns generalizing input with
  | zero => cases found
  | succ turns ih =>
    rw [pilgrimageFrom] at found
    cases next : nextEntry input with
    | finished | oversized | cutOff =>
      simp [next] at found
    | entry body rest =>
      rw [next] at found
      dsimp only at found
      cases decoded : decode blake3 codec body with
      | error e =>
        rw [decoded] at found
        exact ih found
      | ok g =>
        rw [decoded] at found
        dsimp only at found
        split at found
        · next same =>
            cases found
            exact ⟨same, verify_of_decode decoded⟩
        · exact ih found

section

variable {fs : List (Fragment τ)} (good : ∀ f ∈ fs, Archivable blake3 codec f)
include good

theorem pilgrimageFrom_wholeFile (tail : List Byte) (mem : f ∈ fs) (enough : fs.length ≤ turns) :
    ∃ g, pilgrimageFrom blake3 codec f.id turns (wholeFile codec fs ++ tail) = .ok (some g) := by
  induction fs generalizing turns with
  | nil => cases mem
  | cons e fs ih =>
    rw [length_cons] at enough
    obtain ⟨turns, rfl⟩ : ∃ n, turns = n + 1 := ⟨turns - 1, by omega⟩
    obtain ⟨first, others⟩ := forall_mem_cons.mp good
    rw [wholeFile, flatMap_cons, List.append_assoc, pilgrimageFrom,
      nextEntry_archiveEntry first.small]
    dsimp only
    rw [decode_encode (verify_cooled.trans first.verified)]
    dsimp only
    by_cases same : e.cooled.id = f.id
    · exact ⟨_, if_pos same⟩
    · rw [if_neg same]
      rcases mem_cons.mp mem with rfl | later
      · exact absurd rfl same
      · exact ih others later (by omega)

theorem scanIdsFrom_wholeFile {tail : List Byte} (short : tail.length < 4)
    {turns : Nat} (enough : fs.length < turns) :
    scanIdsFrom blake3 codec turns (wholeFile codec fs ++ tail) = .ok (fs.map Fragment.id) := by
  induction fs generalizing turns with
  | nil =>
    obtain ⟨turns, rfl⟩ : ∃ n, turns = n + 1 := ⟨turns - 1, by omega⟩
    rw [wholeFile, flatMap_nil, nil_append, scanIdsFrom, nextEntry_short short]
    rfl
  | cons e fs ih =>
    rw [length_cons] at enough
    obtain ⟨turns, rfl⟩ : ∃ n, turns = n + 1 := ⟨turns - 1, by omega⟩
    obtain ⟨first, others⟩ := forall_mem_cons.mp good
    rw [wholeFile, flatMap_cons, List.append_assoc, scanIdsFrom, nextEntry_archiveEntry first.small]
    dsimp only
    rw [decode_encode (verify_cooled.trans first.verified)]
    have rest := @ih others turns (by omega)
    rw [wholeFile] at rest
    rw [rest]
    rfl

end

theorem length_le_wholeFile (fs : List (Fragment τ)) : fs.length ≤ (wholeFile codec fs).length := by
  induction fs with
  | nil => exact Nat.zero_le _
  | cons f fs ih =>
    rw [wholeFile, flatMap_cons, length_append, archiveEntry, length_append,
      length_leBytes, length_cons]
    unfold wholeFile at ih
    omega

variable (blake3 codec)

def appendAll (file : List Byte) (fs : List (Fragment τ)) : List Byte :=
  fs.foldl (fun file f => (append blake3 codec f .done file).2) file

/-- The file after appends, a crash that leaves `k` bytes of the next entry,
and further appends. -/
def tornHistory (before : List (Fragment τ)) (next : Fragment τ) (k : Nat)
    (after : List (Fragment τ)) : List Byte :=
  appendAll blake3 codec (appendAll blake3 codec [] before ++ (archiveEntry codec next).take k) after

/-- Every one of the fragments is found by a search and listed by a scan. -/
structure ArchiveKeeps (file : List Byte) (fs : List (Fragment τ)) : Prop where
  found : ∀ f ∈ fs, ∃ g, pilgrimage blake3 codec file f.id = .ok (some g) ∧ g.id = f.id ∧
    g.verify blake3 = true
  listed : ∃ ids, scanIds blake3 codec file = .ok ids ∧ ∀ f ∈ fs, f.id ∈ ids

variable {blake3 codec}

variable {fs : List (Fragment τ)}

theorem appendAll_eq (verified : ∀ f ∈ fs, f.verify blake3 = true) (file : List Byte) :
    appendAll blake3 codec file fs = file ++ wholeFile codec fs := by
  induction fs generalizing file with
  | nil => exact (append_nil file).symm
  | cons f fs ih =>
    obtain ⟨first, others⟩ := forall_mem_cons.mp verified
    have one : (append blake3 codec f .done file).2 = file ++ archiveEntry codec f := by
      rw [append, if_pos first]
    change appendAll blake3 codec (append blake3 codec f .done file).2 fs = _
    rw [one, ih others, wholeFile, wholeFile, flatMap_cons, List.append_assoc]

variable {tail : List Byte}

theorem archiveKeeps_of_whole (good : ∀ f ∈ fs, Archivable blake3 codec f) (short : tail.length < 4) :
    ArchiveKeeps blake3 codec (wholeFile codec fs ++ tail) fs := by
  have count : fs.length ≤ (wholeFile codec fs ++ tail).length := by
    rw [length_append]
    exact Nat.le_trans (length_le_wholeFile fs) (Nat.le_add_right _ _)
  refine ⟨fun f mem => ?_, fs.map Fragment.id, ?_, fun f mem => List.mem_map_of_mem mem⟩
  · have enough : fs.length ≤ (wholeFile codec fs ++ tail).length + 1 := by omega
    obtain ⟨g, found⟩ := pilgrimageFrom_wholeFile good tail mem enough
    exact ⟨g, found, pilgrimageFrom_found found⟩
  · exact scanIdsFrom_wholeFile good short (by omega)

/-- An archive keeps its fragments through a torn append that left nothing, or
fewer than four bytes that nothing was appended to. -/
theorem archive_survives_torn_append (before after : List (Fragment τ)) (next : Fragment τ) (k : Nat)
    (proper : k < (archiveEntry codec next).length)
    (appended : ∀ f ∈ before ++ after, f.verify blake3 = true)
    (small : ∀ f ∈ before ++ after, (codec.encode f.cooled).length ≤ maxEntry)
    (clean : k = 0 ∨ k < 4 ∧ after = []) :
    ArchiveKeeps blake3 codec (tornHistory blake3 codec before next k after) (before ++ after) := by
  have good : ∀ f ∈ before ++ after, Archivable blake3 codec f := fun f member =>
    ⟨appended f member, small f member⟩
  have file : tornHistory blake3 codec before next k after =
      wholeFile codec before ++ (archiveEntry codec next).take k ++ wholeFile codec after := by
    rw [tornHistory, appendAll_eq fun f member => appended f (mem_append_right _ member),
      appendAll_eq fun f member => appended f (mem_append_left _ member), nil_append]
  rw [file]
  rcases clean with rfl | ⟨few, rfl⟩
  · have whole : wholeFile codec before ++ (archiveEntry codec next).take 0 ++ wholeFile codec after =
        wholeFile codec (before ++ after) ++ [] := by
      rw [take_zero, append_nil, append_nil, wholeFile, wholeFile, wholeFile, flatMap_append]
    rw [whole]
    exact archiveKeeps_of_whole good (by decide)
  · rw [append_nil] at good
    rw [wholeFile, wholeFile, flatMap_nil, append_nil, append_nil]
    refine archiveKeeps_of_whole good ?_
    rw [length_take]
    omega

theorem nextEntry_torn {f : Fragment τ} (small : (codec.encode f.cooled).length ≤ maxEntry) {k : Nat}
    (body : 4 ≤ k) (proper : k < (archiveEntry codec f).length) :
    nextEntry ((archiveEntry codec f).take k) = .cutOff := by
  have length : leValue (leBytes 4 (codec.encode f.cooled).length) =
      (codec.encode f.cooled).length := by
    rw [leValue_leBytes]
    unfold maxEntry at small
    exact Nat.mod_eq_of_lt (by omega)
  have split : (archiveEntry codec f).take k =
      leBytes 4 (codec.encode f.cooled).length ++ (codec.encode f.cooled).take (k - 4) := by
    rw [archiveEntry, take_append, length_leBytes,
      take_of_length_le (by rw [length_leBytes]; exact body)]
  rw [archiveEntry, length_append, length_leBytes] at proper
  rw [nextEntry, split, readExact_append _ _ (length_leBytes 4 _)]
  dsimp only
  rw [length, if_neg (Nat.not_lt.mpr small), readExact_eq_none]
  rw [length_take]
  omega

theorem scanIdsFrom_cutOff (good : ∀ f ∈ fs, Archivable blake3 codec f)
    (cut : nextEntry tail = .cutOff) {turns : Nat} (enough : fs.length < turns) :
    scanIdsFrom blake3 codec turns (wholeFile codec fs ++ tail) = .error .io := by
  induction fs generalizing turns with
  | nil =>
    obtain ⟨turns, rfl⟩ : ∃ n, turns = n + 1 := ⟨turns - 1, by omega⟩
    rw [wholeFile, flatMap_nil, nil_append, scanIdsFrom, cut]
  | cons e fs ih =>
    rw [length_cons] at enough
    obtain ⟨turns, rfl⟩ : ∃ n, turns = n + 1 := ⟨turns - 1, by omega⟩
    obtain ⟨first, others⟩ := forall_mem_cons.mp good
    rw [wholeFile, flatMap_cons, List.append_assoc, scanIdsFrom, nextEntry_archiveEntry first.small]
    dsimp only
    rw [decode_encode (verify_cooled.trans first.verified)]
    have rest := @ih others turns (by omega)
    rw [wholeFile] at rest
    rw [rest]
    rfl

theorem scanIds_torn_body {before : List (Fragment τ)} (good : ∀ f ∈ before, Archivable blake3 codec f)
    {next : Fragment τ} (small : (codec.encode next.cooled).length ≤ maxEntry) {k : Nat} (body : 4 ≤ k)
    (proper : k < (archiveEntry codec next).length) :
    scanIds blake3 codec (tornHistory blake3 codec before next k []) = .error .io := by
  have file : tornHistory blake3 codec before next k [] =
      wholeFile codec before ++ (archiveEntry codec next).take k := by
    change appendAll blake3 codec [] before ++ (archiveEntry codec next).take k = _
    rw [appendAll_eq fun f mem => (good f mem).verified, nil_append]
  rw [file]
  refine scanIdsFrom_cutOff good (nextEntry_torn small body proper) ?_
  rw [length_append]
  have count : before.length ≤ (wholeFile codec before).length := length_le_wholeFile before
  omega

theorem archive_survives_three_bytes : 3 < (archiveEntry Sample.codec Sample.silence).length ∧
      ArchiveKeeps Sample.hash Sample.codec
        (tornHistory Sample.hash Sample.codec [Sample.ancient] Sample.silence 3 []) [Sample.ancient] :=
  ⟨by decide, archive_survives_torn_append [Sample.ancient] [] Sample.silence 3 (by decide)
    (by decide) (by decide) (Or.inr ⟨by decide, rfl⟩)⟩

/-- With the length of the next entry at its end, the archive is not scanned
any more. -/
theorem archive_lost_to_torn_length : ¬ ArchiveKeeps Sample.hash Sample.codec
      (tornHistory Sample.hash Sample.codec [Sample.ancient] Sample.silence 4 []) [Sample.ancient] := by
  intro keeps
  obtain ⟨ids, scanned, _⟩ := keeps.listed
  have good : ∀ f ∈ [Sample.ancient], Archivable Sample.hash Sample.codec f := by
    intro f member
    rw [mem_singleton.mp member]
    exact ⟨by decide, by decide⟩
  rw [scanIds_torn_body good (by decide) (by decide) (by decide)] at scanned
  cases scanned

end Unheaded.Zhen
