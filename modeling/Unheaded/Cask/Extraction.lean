import Unheaded.Cask.Sealed

/-!
# Extraction

A scan that ends has noted and written every regular file once, below one root.
-/

namespace Unheaded.Cask

open Lib Lib.Path List Function Scan

variable {crypto : Crypto}

/-! ## What a scan has read -/

def relOf (m : Member) : Bytes := (cut m.name).2

def contents (members : List Member) : List File :=
  members.filterMap fun m => if m.typeflag = .reg then some (fileOf m (relOf m)) else none

def isPayload (f : File) : Bool := f.name ≠ manifestName ∧ f.name ≠ sigName

def contentOf (files : List File) (name : Bytes) : Option Bytes :=
  (files.find? fun f => f.name = name).map File.content

variable (crypto) in
/-- What is noted of a file. -/
def Scan.note (s : Scan) (f : File) : Scan :=
  if f.name = manifestName then { s with manifest := some f.content }
  else if f.name = sigName then { s with sig := some f.content }
  else { s with hashes := s.hashes ++ [(f.name, crypto.sha256 f.content)] }

theorem sigName_ne_manifestName : sigName ≠ manifestName := by decide

section Note

variable (s : Scan) (f : File)

theorem Scan.note_root : (s.note crypto f).root = s.root := by
  unfold note
  split
  · rfl
  · split <;> rfl

theorem Scan.note_seen : (s.note crypto f).seen = s.seen := by
  unfold note
  split
  · rfl
  · split <;> rfl

theorem Scan.note_manifest : (s.note crypto f).manifest =
    if f.name = manifestName then some f.content else s.manifest := by
  unfold note
  split
  · rfl
  · split <;> rfl

theorem Scan.note_sig : (s.note crypto f).sig = if f.name = sigName then some f.content else s.sig := by
  unfold note
  split
  next here => rw [if_neg fun other => sigName_ne_manifestName (other.symm.trans here)]
  · split <;> rfl

theorem Scan.note_hashes : (s.note crypto f).hashes =
    s.hashes ++ if isPayload f then [(f.name, crypto.sha256 f.content)] else [] := by
  unfold note
  split
  next here => simp [isPayload, here]
  next notManifest =>
    split
    next here => simp [isPayload, here]
    next notSig => simp [isPayload, notManifest, notSig]

end Note

theorem member_ok {lim : Limits} {sink : Option Os} {s s' : Scan} {t t' : Tree} {m : Member}
    {rel : Bytes} (read : member crypto lim sink s t m rel = (t', .ok s')) :
    deliver sink t (fileOf m rel) = (t', .written) ∧ s' = s.note crypto (fileOf m rel) := by
  have noSeal := sigName_ne_manifestName
  have name : (fileOf m rel).name = rel := rfl
  unfold member at read
  dsimp only at read
  split at read
  next special =>
    split at read
    · cases read
    split at read
    · cases read
    split at read <;> cases read
    next written =>
      refine ⟨written, ?_⟩
      rw [note, name]
      rcases special with rfl | rfl
      · rw [if_pos rfl, if_pos rfl]
      · rw [if_neg noSeal, if_neg noSeal, if_pos rfl]
  next payload =>
    obtain ⟨notManifest, notSig⟩ := not_or.mp payload
    split at read
    · cases read
    · cases read
    next written =>
      split at read
      · cases read
      cases read
      refine ⟨written, ?_⟩
      rw [note, name, if_neg notManifest, if_neg notSig]

theorem deliver_written {sink : Option Os} {t t' : Tree} {f : File}
    (written : deliver sink t f = (t', .written)) : sink = none ∨
      t'.files = t.files ++ [f] ∧ ∀ d ∈ t'.dirs, d ∈ t.dirs ∨ d ∈ parents f.name := by
  cases sink with
  | none => exact .inl rfl
  | some os =>
    refine .inr ?_
    dsimp only [deliver] at written
    unfold sinkFile at written
    split at written
    · cases written
    dsimp only at written
    split at written
    · cases written
    split at written
    · cases written
    cases written
    refine ⟨rfl, fun d member => ?_⟩
    rcases mem_append.mp member with old | new
    · exact .inl old
    · exact .inr (mem_filter.mp new).1

theorem cut_spec {name : Bytes} (below : (cut name).2 ≠ []) :
    name = (cut name).1 ++ slash :: (cut name).2 ∧ slash ∉ (cut name).1 := by
  have parts := takeWhile_append_dropWhile (p := fun b => decide (b ≠ slash)) (l := name)
  have before : slash ∉ (cut name).1 := by
    intro member
    have kept := mem_takeWhile_imp member
    exact of_decide_eq_true kept rfl
  refine ⟨?_, before⟩
  unfold cut at below ⊢
  cases rest : name.dropWhile (fun b => decide (b ≠ slash)) with
  | nil =>
    rw [rest] at below
    exact absurd rfl below
  | cons b tail =>
    have here : b = slash := by
      have stopped := head?_dropWhile_not (fun b => decide (b ≠ slash)) name
      rw [rest] at stopped
      simpa using stopped
    rw [rest, here] at parts
    exact parts.symm

theorem inside_of_cut {name : Bytes} (inside : Inside name) (below : (cut name).2 ≠ []) :
    Inside (cut name).2 := by
  obtain ⟨whole, before⟩ := cut_spec below
  have split : components name = (cut name).1 :: components (cut name).2 := by
    have spelled := splitOn_append_cons_self_of_not_mem before (cut name).2
    rwa [← whole] at spelled
  intro c member
  refine inside c ?_
  rw [split]
  exact mem_cons_of_mem _ member

theorem memberName_ok {root root' rel : Bytes} {m : Member}
    (named : memberName root m = .ok (root', rel)) : root' ≠ [] ∧ (root = [] ∨ root' = root) ∧
      (m.typeflag = .reg → rel = relOf m ∧ root' = (cut m.name).1 ∧ Inside m.name) := by
  unfold memberName at named
  dsimp only at named
  split at named
  · cases named
  next accepted =>
  split at named
  · cases named
  next isRoot =>
  split at named
  · cases named
  next same =>
  cases named
  refine ⟨fun none => ?_, ?_, fun regular => ?_⟩
  · rw [none] at isRoot
    exact isRoot (by decide)
  · by_cases none : root = []
    · exact .inl none
    · exact .inr (Classical.byContradiction fun other => same ⟨none, other⟩)
  · have plain : plainName m = m.name := if_neg fun both => by rw [regular] at both; cases both.1
    rw [plain] at accepted ⊢
    exact ⟨rfl, rfl, checkRelName_inside accepted⟩

theorem scanMember_ok {lim : Limits} {sink : Option Os} {s s' : Scan} {t t' : Tree} {m : Member}
    (read : scanMember crypto lim sink s t m = (t', .ok s')) :
    ∃ root key total, root ≠ [] ∧ (s.root = [] ∨ root = s.root) ∧ key ∉ s.seen ∧
      (m.typeflag = .dir ∧ t' = t ∧
          s' = { s with root, seen := key :: s.seen, entries := s.entries + 1 } ∨
        m.typeflag = .reg ∧ key = relOf m ∧ relOf m ≠ [] ∧ root = (cut m.name).1 ∧ Inside m.name ∧
          deliver sink t (fileOf m (relOf m)) = (t', .written) ∧
          s' = note crypto { s with root, seen := key :: s.seen, total, entries := s.entries + 1 }
            (fileOf m (relOf m))) := by
  unfold scanMember at read
  split at read
  · cases read
  split at read
  · cases read
  next root rel named =>
  obtain ⟨isRoot, kept, regular⟩ := memberName_ok named
  dsimp only at read
  split at read
  · cases read
  next new =>
  split at read
  next dir =>
    cases read
    exact ⟨root, _, 0, isRoot, kept, new, .inl ⟨dir, rfl, rfl⟩⟩
  next reg =>
    obtain ⟨rfl, top, inside⟩ := regular reg
    split at read
    · cases read
    next below =>
    split at read
    · cases read
    split at read
    · cases read
    obtain ⟨written, noted⟩ := member_ok read
    rw [keyOf, if_neg below] at new noted
    exact ⟨root, relOf m, _, isRoot, kept, new, .inr ⟨reg, rfl, below, top, inside, written, noted⟩⟩
  next => cases read

/-- What a scan of some members has found, and what it has written if it has a sink. -/
structure Scanned (crypto : Crypto) (sink : Option Os) (members : List Member) (s : Scan) (t : Tree) :
    Prop where
  root : ∀ m ∈ members, m.typeflag = .reg → s.root ≠ [] ∧ m.name = s.root ++ slash :: relOf m
  seen : ∀ f ∈ contents members, f.name ∈ s.seen
  distinct : ((contents members).map File.name).Nodup
  inside : ∀ f ∈ contents members, Inside f.name
  hashes : s.hashes = ((contents members).filter isPayload).map fun f =>
    (f.name, crypto.sha256 f.content)
  manifest : s.manifest = contentOf (contents members) manifestName
  sig : s.sig = contentOf (contents members) sigName
  tree : sink = none ∨ t.files = contents members ∧
    ∀ d ∈ t.dirs, ∃ f ∈ contents members, d ∈ parents f.name

theorem contents_concat (members : List Member) (m : Member) : contents (members ++ [m]) =
    contents members ++ if m.typeflag = .reg then [fileOf m (relOf m)] else [] := by
  unfold contents
  split
  next reg => simp [reg]
  next other => simp [other]

theorem contentOf_concat {files : List File} {f : File} {name : Bytes}
    (new : f.name ∉ files.map File.name) : contentOf (files ++ [f]) name =
      if f.name = name then some f.content else contentOf files name := by
  unfold contentOf
  rw [find?_append]
  split
  next here =>
    have absent : files.find? (fun f => decide (f.name = name)) = none := by
      refine find?_eq_none.mpr fun g member same => new ?_
      rw [here, ← of_decide_eq_true same]
      exact mem_map_of_mem member
    rw [absent, find?_singleton, decide_eq_true here]
    rfl
  next other =>
    rw [find?_singleton, decide_eq_false other]
    cases files.find? (fun f => decide (f.name = name)) <;> rfl

/-- A regular file is added to what was scanned. -/
theorem Scanned.note {sink : Option Os} {members : List Member} {s : Scan} {t t' : Tree} {m : Member}
    {root : Bytes} {total : Int} (scanned : Scanned crypto sink members s t) (reg : m.typeflag = .reg)
    (isRoot : root ≠ []) (kept : s.root = [] ∨ root = s.root) (new : relOf m ∉ s.seen)
    (below : relOf m ≠ []) (top : root = (cut m.name).1) (inside : Inside m.name)
    (written : deliver sink t (fileOf m (relOf m)) = (t', .written)) :
    Scanned crypto sink (members ++ [m]) (note crypto
      { s with root, seen := relOf m :: s.seen, total, entries := s.entries + 1 }
      (fileOf m (relOf m))) t' := by
  have all : contents (members ++ [m]) = contents members ++ [fileOf m (relOf m)] := by
    rw [contents_concat, if_pos reg]
  have fresh : (fileOf m (relOf m)).name ∉ (contents members).map File.name := by
    intro member
    obtain ⟨f, inFiles, same⟩ := mem_map.mp member
    have seen := scanned.seen f inFiles
    rw [same] at seen
    exact new seen
  obtain ⟨whole, -⟩ := cut_spec below
  have sameRoot : ∀ old ∈ members, old.typeflag = .reg → s.root = root := by
    intro old member isReg
    exact (kept.resolve_left (scanned.root old member isReg).1).symm
  refine {
    root := ?_
    seen := ?_
    distinct := ?_
    inside := ?_
    hashes := ?_
    manifest := ?_
    sig := ?_
    tree := ?_ }
  · intro old member isReg
    rw [note_root]
    rcases mem_append.mp member with before | here
    · rw [← sameRoot old before isReg]
      exact scanned.root old before isReg
    · rw [mem_singleton.mp here]
      refine ⟨isRoot, ?_⟩
      rw [top]
      exact whole
  · intro f member
    rw [note_seen]
    rw [all] at member
    rcases mem_append.mp member with before | here
    · exact mem_cons_of_mem _ (scanned.seen f before)
    · rw [mem_singleton.mp here]
      exact mem_cons_self
  · rw [all, map_append]
    refine nodup_append.mpr ⟨scanned.distinct, nodup_singleton _, ?_⟩
    intro a member b equal same
    have here := same.trans (mem_singleton.mp equal)
    exact fresh (here ▸ member)
  · intro f member
    rw [all] at member
    rcases mem_append.mp member with before | here
    · exact scanned.inside f before
    · rw [mem_singleton.mp here]
      exact inside_of_cut inside below
  · rw [note_hashes, all, filter_append, map_append, scanned.hashes]
    congr 1
    cases payload : isPayload (fileOf m (relOf m)) with
    | true => rw [filter_cons_of_pos payload]; rfl
    | false => rw [filter_cons_of_neg (Bool.eq_false_iff.mp payload)]; rfl
  · rw [note_manifest, all, contentOf_concat fresh, scanned.manifest]
  · rw [note_sig, all, contentOf_concat fresh, scanned.sig]
  · rcases deliver_written written with none | ⟨files, dirs⟩
    · exact .inl none
    · refine scanned.tree.imp_right fun ⟨before, above⟩ => ?_
      rw [all, files, before]
      refine ⟨rfl, fun d member => ?_⟩
      rcases dirs d member with old | new
      · obtain ⟨f, inFiles, parent⟩ := above d old
        exact ⟨f, mem_append_left _ inFiles, parent⟩
      · exact ⟨_, mem_append_right _ mem_cons_self, new⟩

theorem Scanned.dir {sink : Option Os} {members : List Member} {s : Scan} {t : Tree} {m : Member}
    {root key : Bytes} {entries : Int} (scanned : Scanned crypto sink members s t)
    (isDir : m.typeflag = .dir) (kept : s.root = [] ∨ root = s.root) :
    Scanned crypto sink (members ++ [m]) { s with root, seen := key :: s.seen, entries } t := by
  have all : contents (members ++ [m]) = contents members := by
    rw [contents_concat, isDir, if_neg nofun, append_nil]
  refine {
    root := ?_
    seen := ?_
    distinct := by rw [all]; exact scanned.distinct
    inside := by rw [all]; exact scanned.inside
    hashes := by rw [all]; exact scanned.hashes
    manifest := by rw [all]; exact scanned.manifest
    sig := by rw [all]; exact scanned.sig
    tree := by rw [all]; exact scanned.tree }
  · intro old member isReg
    rcases mem_append.mp member with before | here
    · obtain ⟨isRoot, named⟩ := scanned.root old before isReg
      have same : root = s.root := kept.resolve_left isRoot
      rw [same]
      exact ⟨isRoot, named⟩
    · simp [mem_singleton.mp here, isDir] at isReg
  · rw [all]
    exact fun f member => mem_cons_of_mem _ (scanned.seen f member)

theorem scanned_start (sink : Option Os) : Scanned crypto sink [] .start ⟨[], []⟩ where
  root _ member := nomatch member
  seen _ member := nomatch member
  distinct := nodup_nil
  inside _ member := nomatch member
  hashes := rfl
  manifest := rfl
  sig := rfl
  tree := .inr ⟨rfl, fun _ member => nomatch member⟩

theorem scanMembers_ok {lim : Limits} {sink : Option Os} {members rest : List Member} {s s' : Scan}
    {t t' : Tree} (scanned : Scanned crypto sink members s t)
    (read : scanMembers crypto lim sink s t rest = (t', .ok s')) :
    Scanned crypto sink (members ++ rest) s' t' := by
  induction rest generalizing members s t with
  | nil =>
    cases read
    rw [append_nil]
    exact scanned
  | cons m rest ih =>
    rw [scanMembers] at read
    split at read
    · cases read
    next round =>
      rw [append_cons]
      refine ih ?_ read
      obtain ⟨root, key, total, isRoot, kept, new, ⟨isDir, rfl, rfl⟩ |
        ⟨reg, rfl, below, top, inside, written, rfl⟩⟩ := scanMember_ok round
      · exact scanned.dir isDir kept
      · exact scanned.note reg isRoot kept new below top inside written

theorem scan_ok {lim : Limits} {sink : Option Os} {cask : Untarred} {s : Scan} {t : Tree}
    (read : scan crypto lim sink ⟨[], []⟩ cask = (t, .ok s)) :
    ∃ members ending, cask = .archive members ending ∧ Scanned crypto sink members s t := by
  unfold scan at read
  split at read
  · cases read
  next members ending =>
    split at read
    · cases read
    next found =>
      have scanned := scanMembers_ok (scanned_start sink) found
      refine ⟨members, ending, rfl, ?_⟩
      split at read
      · cases read
      · split at read
        · cases read
        · split at read <;> cases read
          exact scanned

/-! ## What a judgement says -/

theorem mem_trustedKey {trusted : List (Option Bytes)} {keyId pub : Bytes}
    (found : trustedKey crypto trusted keyId = some pub) : some pub ∈ trusted := by
  obtain ⟨k, member, here⟩ := exists_of_findSome?_eq_some found
  have same : k = some pub := (Option.filter_eq_some_iff.mp here).1
  exact same ▸ member

theorem problems_nil {hashes : List (Bytes × Bytes)} {files : Manifest}
    (unique : (hashes.map Prod.fst).Nodup) (none : problems hashes files = []) (f : Bytes × Bytes) :
    f ∈ files ↔ f ∈ hashes := by
  obtain ⟨changed, extra⟩ := append_eq_nil_iff.mp none
  have listed : ∀ f ∈ files, f ∈ hashes := by
    intro f member
    have here := filterMap_eq_nil_iff.mp changed f member
    split at here
    · cases here
    next h found =>
      split at here
      next same =>
        have passed := find?_some found
        have equal : h = f := Prod.ext (of_decide_eq_true passed) same
        exact equal ▸ mem_of_find?_eq_some found
      · cases here
  refine ⟨listed f, fun member => ?_⟩
  have here := filterMap_eq_nil_iff.mp extra f member
  split at here
  next named =>
    obtain ⟨g, inFiles, same⟩ := mem_map.mp named
    have equal := inj_on_of_nodup_map unique (listed g inFiles) member same
    exact equal ▸ inFiles
  · cases here

/-- What `check` establishes. -/
structure Judged (crypto : Crypto) (trusted : List (Option Bytes)) (s : Scan) (manifest sig pub : Bytes)
    (files : Manifest) : Prop where
  isManifest : s.manifest = some manifest
  isSig : s.sig = some sig
  key : some pub ∈ trusted
  verified : ∃ e, verifyEvidence crypto manifest e pub caskPurpose = true
  parsed : parseManifest manifest = .ok files
  same : problems s.hashes files = []

theorem check_ok {trusted : List (Option Bytes)} {s : Scan} {result : CaskResult}
    (accepted : check crypto trusted s = .ok result) :
    ∃ manifest sig pub files, Judged crypto trusted s manifest sig pub files ∧ result.root = s.root := by
  unfold check at accepted
  split at accepted
  · cases accepted
  · cases accepted
  next manifest sig isManifest isSig =>
  split at accepted
  · cases accepted
  split at accepted
  · cases accepted
  next e parsed =>
  split at accepted
  · cases accepted
  next pub key =>
  split at accepted
  · cases accepted
  next verified =>
  split at accepted
  · cases accepted
  next files listed =>
  split at accepted <;> cases accepted
  next same =>
    exact ⟨manifest, sig, pub, files, ⟨isManifest, isSig, mem_trustedKey key,
      ⟨e, by simpa using verified⟩, listed, same⟩, rfl⟩

theorem contentOf_eq {files : List File} (distinct : (files.map File.name).Nodup) {f : File}
    (member : f ∈ files) : contentOf files f.name = some f.content := by
  unfold contentOf
  cases found : files.find? (fun g => decide (g.name = f.name)) with
  | none =>
    have absent := find?_eq_none.mp found f member
    exact absurd (decide_eq_true rfl) absent
  | some g =>
    have passed := find?_some found
    have equal := inj_on_of_nodup_map distinct (mem_of_find?_eq_some found) member
      (of_decide_eq_true passed)
    rw [equal]
    rfl

def payloadOf : Untarred → List File
  | .noGzip => []
  | .archive members _ => (contents members).filter isPayload

def runeOf : Untarred → Option Bytes
  | .noGzip => none
  | .archive members _ => contentOf (contents members) manifestName

def InPayload (cask : Untarred) (name content : Bytes) : Prop :=
  ∃ f ∈ payloadOf cask, f.name = name ∧ f.content = content

/-- A trusted key sealed the manifest for this purpose. -/
def SealedBy (trusted : List (Option Bytes)) (signs : Bytes → Sealing → Prop) (manifest : Bytes) : Prop :=
  ∃ pub call, some pub ∈ trusted ∧ signs pub call ∧ call.payload = manifest ∧ call.purpose = caskPurpose

variable (crypto) in
/-- The files below a destination are those of a manifest, the manifest and the seal, with no path
that leaves it. -/
structure Holds (manifest sig : Bytes) (files : Manifest) (t : Tree) : Prop where
  distinct : (t.files.map File.name).Nodup
  rune : contentOf t.files manifestName = some manifest
  sealed : contentOf t.files sigName = some sig
  listed : ∀ f ∈ files, ∃ content, contentOf t.files f.1 = some content ∧ crypto.sha256 content = f.2
  only : ∀ f ∈ t.files, f.name = manifestName ∨ f.name = sigName ∨
    (f.name, crypto.sha256 f.content) ∈ files
  inside : ∀ f ∈ t.files, Inside f.name
  dirs : ∀ d ∈ t.dirs, ∃ f ∈ t.files, d ∈ parents f.name

section Accepted

variable {sink : Option Os} {members : List Member} {s : Scan} {t : Tree}
  {trusted : List (Option Bytes)} {manifest sig pub : Bytes} {files : Manifest}

theorem Scanned.unique (scanned : Scanned crypto sink members s t) :
    (s.hashes.map Prod.fst).Nodup := by
  rw [scanned.hashes, map_map]
  exact scanned.distinct.sublist (filter_sublist.map _)

theorem Scanned.mem_hashes (scanned : Scanned crypto sink members s t) {name digest : Bytes} :
    (name, digest) ∈ s.hashes ↔
      ∃ f ∈ contents members, isPayload f = true ∧ f.name = name ∧ crypto.sha256 f.content = digest := by
  rw [scanned.hashes, mem_map]
  constructor
  · rintro ⟨f, member, same⟩
    obtain ⟨inFiles, payload⟩ := mem_filter.mp member
    exact ⟨f, inFiles, payload, congrArg Prod.fst same, congrArg Prod.snd same⟩
  · rintro ⟨f, inFiles, payload, name, digest⟩
    exact ⟨f, mem_filter.mpr ⟨inFiles, payload⟩, Prod.ext name digest⟩

theorem Judged.holds {os : Os} (scanned : Scanned crypto (some os) members s t)
    (judged : Judged crypto trusted s manifest sig pub files) : Holds crypto manifest sig files t := by
  have matching := problems_nil scanned.unique judged.same
  obtain ⟨written, dirs⟩ := scanned.tree.resolve_left nofun
  refine {
    distinct := by rw [written]; exact scanned.distinct
    rune := by rw [written, ← scanned.manifest]; exact judged.isManifest
    sealed := by rw [written, ← scanned.sig]; exact judged.isSig
    listed := ?_
    only := ?_
    inside := by rw [written]; exact scanned.inside
    dirs := by rw [written]; exact dirs }
  · intro f listed
    obtain ⟨g, member, -, name, digest⟩ := scanned.mem_hashes.mp ((matching f).mp listed)
    refine ⟨g.content, ?_, digest⟩
    rw [written, ← name]
    exact contentOf_eq scanned.distinct member
  · intro f member
    rw [written] at member
    by_cases payload : isPayload f = true
    · exact .inr (.inr ((matching _).mpr (scanned.mem_hashes.mpr ⟨f, member, payload, rfl, rfl⟩)))
    · have special : ¬ (f.name ≠ manifestName ∧ f.name ≠ sigName) := fun both =>
        payload (decide_eq_true both)
      by_cases isManifest : f.name = manifestName
      · exact .inl isManifest
      · exact .inr (.inl (Classical.byContradiction fun notSig => special ⟨isManifest, notSig⟩))

theorem Judged.sealedBy {signs : Bytes → Sealing → Prop}
    (judged : Judged crypto trusted s manifest sig pub files)
    (injective : Injective crypto.sha256) (unforgeable : Unforgeable crypto signs) :
    SealedBy trusted signs manifest := by
  obtain ⟨e, verified⟩ := judged.verified
  obtain ⟨call, made, payload, purpose⟩ :=
    sealed_of_verifyEvidence injective unforgeable (by decide) verified
  exact ⟨pub, call, judged.key, made, payload, purpose⟩

theorem Judged.inPayload (injective : Injective crypto.sha256) {ending : Ending}
    (scanned : Scanned crypto sink members s t)
    (judged : Judged crypto trusted s manifest sig pub files) (name content : Bytes) :
    InPayload (.archive members ending) name content ↔ (name, crypto.sha256 content) ∈ files := by
  rw [problems_nil scanned.unique judged.same, scanned.mem_hashes]
  constructor
  · rintro ⟨f, member, rfl, rfl⟩
    obtain ⟨inFiles, payload⟩ := mem_filter.mp member
    exact ⟨f, inFiles, payload, rfl, rfl⟩
  · rintro ⟨f, inFiles, payload, named, digest⟩
    exact ⟨f, mem_filter.mpr ⟨inFiles, payload⟩, named, injective digest⟩

end Accepted

theorem verify_ok {trusted : List (Option Bytes)} {lim : Limits} {cask : Untarred} {result : CaskResult}
    (accepted : verify crypto trusted lim cask = .ok result) :
    ∃ members ending s t manifest sig pub files, cask = .archive members ending ∧
      Scanned crypto none members s t ∧ Judged crypto trusted s manifest sig pub files := by
  unfold verify at accepted
  split at accepted
  · cases accepted
  next s read =>
    obtain ⟨members, ending, whole, scanned⟩ :=
      @scan_ok crypto lim none cask s (scan crypto lim none ⟨[], []⟩ cask).1 (Prod.ext rfl read)
    obtain ⟨manifest, sig, pub, files, judged, -⟩ := check_ok accepted
    exact ⟨members, ending, s, _, manifest, sig, pub, files, whole, scanned, judged⟩

section Extracted

variable {os : Os} {trusted : List (Option Bytes)} {lim : Limits} {dest afterwards : Option Tree}
  {first second : Untarred}

theorem extractFile_ok {result : CaskResult}
    (extracted : extractFile crypto os trusted lim dest first second = (afterwards, .ok result)) :
    dest = none ∧ ∃ t s, afterwards = some t ∧
      scan crypto lim (some os) ⟨[], []⟩ second = (t, .ok s) ∧ check crypto trusted s = .ok result := by
  unfold extractFile at extracted
  split at extracted
  · cases extracted
  split at extracted
  · cases extracted
  split at extracted
  · cases extracted
  next fresh =>
  have absent : dest = none := by
    cases dest with
    | none => rfl
    | some t => exact absurd (.inr (.inl rfl)) fresh
  split at extracted
  · cases extracted
  next t into =>
  split at extracted <;> cases extracted
  unfold extractInto at into
  split at into
  · cases into
  split at into
  · cases into
  next s read =>
    obtain ⟨rfl, accepted⟩ := Prod.mk.inj into
    exact ⟨absent, _, s, rfl, read, accepted⟩

variable (crypto os trusted lim dest first) in
/-- The call gets as far as making the destination. -/
def Begins : Prop :=
  os.succeeds .openRegular = true ∧ (verify crypto trusted lim first).isOk = true ∧
    os.succeeds .seek = true ∧ dest = none ∧ os.succeeds .mkdir = true

/-- A call that fails leaves the destination as it was, unless it has made it and cannot remove
it. -/
theorem extractFile_error {e : CaskError}
    (failed : extractFile crypto os trusted lim dest first second = (afterwards, .error e)) :
    afterwards = dest ↔ (Begins crypto os trusted lim dest first → os.succeeds .removeAll = true) := by
  unfold extractFile at failed
  split at failed
  next closed =>
    cases failed
    exact iff_of_true rfl fun begins => absurd (begins.1.symm.trans closed) (by decide)
  next opened =>
  split at failed
  next e refused =>
    cases failed
    refine iff_of_true rfl fun begins => ?_
    have passed := begins.2.1
    rw [refused] at passed
    cases passed
  next accepted =>
  split at failed
  next stopped =>
    cases failed
    refine iff_of_true rfl fun begins => ?_
    obtain ⟨-, -, seek, absent, mkdir⟩ := begins
    rw [seek, absent, mkdir] at stopped
    simp at stopped
  next fresh =>
  rw [not_or, not_or, Bool.not_eq_false, Bool.not_eq_true, Option.isSome_eq_false_iff,
    Option.isNone_iff_eq_none, Bool.not_eq_false] at fresh
  obtain ⟨seek, absent, mkdir⟩ := fresh
  have begins : Begins crypto os trusted lim dest first :=
    ⟨Bool.not_eq_false _ ▸ opened, by rw [accepted]; rfl, seek, absent, mkdir⟩
  have removal (t : Tree) : removeAll os t = dest ↔
      (Begins crypto os trusted lim dest first → os.succeeds .removeAll = true) := by
    rw [removeAll, absent, forall_prop_of_true (absent ▸ begins)]
    cases os.succeeds .removeAll with
    | false => exact iff_of_false (Option.some_ne_none _) Bool.false_ne_true
    | true => exact iff_of_true rfl rfl
  split at failed
  · cases failed
    exact removal _
  split at failed <;> cases failed
  exact removal _

end Extracted

/-- Every file is a regular member of the cask, below the root. -/
def BelowRoot (cask : Untarred) (root : Bytes) (t : Tree) : Prop :=
  ∃ members ending, cask = .archive members ending ∧ ∀ f ∈ t.files, ∃ m ∈ members,
    m.typeflag = .reg ∧ m.name = root ++ slash :: f.name

theorem Scanned.belowRoot {os : Os} {members : List Member} {ending : Ending} {s : Scan} {t : Tree}
    (scanned : Scanned crypto (some os) members s t) :
    BelowRoot (.archive members ending) s.root t := by
  obtain ⟨written, -⟩ := scanned.tree.resolve_left nofun
  refine ⟨members, ending, rfl, fun f member => ?_⟩
  rw [written] at member
  obtain ⟨m, inside, here⟩ := mem_filterMap.mp member
  split at here <;> cases here
  next reg =>
    exact ⟨m, inside, reg, (scanned.root m inside reg).2⟩

/-- An extraction leaves the files of a manifest that a trusted key sealed, or, where the
destination that it has made can be removed, nothing; and a cask that verifies has no other payload
than its manifest says. -/
theorem extracts_what_was_sealed (crypto : Crypto) (signs : Bytes → Sealing → Prop)
    (injective : Injective crypto.sha256) (unforgeable : Unforgeable crypto signs)
    (trusted : List (Option Bytes)) (lim : Limits) : (∀ os dest first second afterwards result,
      extractFile crypto os trusted lim dest first second = (afterwards, .ok result) →
      dest = none ∧ ∃ t manifest sig files, afterwards = some t ∧ SealedBy trusted signs manifest ∧
        parseManifest manifest = .ok files ∧ Holds crypto manifest sig files t ∧
        BelowRoot second result.root t) ∧ (∀ os dest first second afterwards e,
      extractFile crypto os trusted lim dest first second = (afterwards, .error e) →
      (afterwards = dest ↔
        (Begins crypto os trusted lim dest first → os.succeeds .removeAll = true))) ∧
    (∀ cask result, verify crypto trusted lim cask = .ok result →
      (∃ manifest, runeOf cask = some manifest ∧ SealedBy trusted signs manifest) ∧
      ∀ other, runeOf other = runeOf cask →
        ¬ (∀ name content, InPayload cask name content ↔ InPayload other name content) →
        ∃ e, verify crypto trusted lim other = .error e) := by
  refine ⟨fun os dest first second afterwards result extracted => ?_,
    fun os dest first second afterwards e failed => extractFile_error failed,
    fun cask result accepted => ?_⟩
  · obtain ⟨absent, t, s, there, read, judgement⟩ := extractFile_ok extracted
    obtain ⟨members, ending, rfl, scanned⟩ := scan_ok read
    obtain ⟨manifest, sig, pub, files, judged, root⟩ := check_ok judgement
    refine ⟨absent, t, manifest, sig, files, there, judged.sealedBy injective unforgeable,
      judged.parsed, judged.holds scanned, ?_⟩
    rw [root]
    exact scanned.belowRoot
  · obtain ⟨members, ending, s, t, manifest, sig, pub, files, rfl, scanned, judged⟩ := verify_ok accepted
    have rune := scanned.manifest.symm.trans judged.isManifest
    refine ⟨⟨manifest, rune, judged.sealedBy injective unforgeable⟩, fun other same differ => ?_⟩
    cases outcome : verify crypto trusted lim other with
    | error e => exact ⟨e, rfl⟩
    | ok result' =>
      obtain ⟨members', ending', s', t', manifest', sig', pub', files', rfl, scanned', judged'⟩ :=
        verify_ok outcome
      have rune' := scanned'.manifest.symm.trans judged'.isManifest
      have manifests : manifest' = manifest := Option.some.inj (rune'.symm.trans (same.trans rune))
      have lists : files' = files := by
        have parsed := judged'.parsed
        rw [manifests, judged.parsed] at parsed
        exact (Except.ok.inj parsed).symm
      refine absurd (fun name content => ?_) differ
      rw [judged.inPayload injective scanned, judged'.inPayload injective scanned', lists]

/-! ## A cask with one file -/

section Small

def smallContent : Bytes := ascii ['h', 'i', '\n']

/-- Its SHA-256. -/
def contentDigest : Bytes :=
  [0x98, 0xea, 0x6e, 0x4f, 0x21, 0x6f, 0x2f, 0xb4, 0xb6, 0x9f, 0xff, 0x9b, 0x3a, 0x44, 0x84, 0x2c,
    0x38, 0x68, 0x6c, 0xa6, 0x85, 0xf3, 0xf5, 0x5d, 0xc4, 0x8c, 0x5d, 0x3f, 0xb1, 0x10, 0x7b, 0xe4]

def smallManifest : Bytes := ascii (hexEncode contentDigest ++ [' ', ' ', '.', '/', 'a', '\n'])

def buildKey : Bytes := replicate 1952 1

/-- Its SHA-256. -/
def keyDigest : Bytes :=
  [0x59, 0x4b, 0xdc, 0xb0, 0x78, 0xa5, 0xb2, 0x53, 0x4d, 0x67, 0xa0, 0x68, 0x55, 0x57, 0xd7, 0x48,
    0x65, 0x4f, 0xcf, 0xea, 0x8f, 0x3c, 0x36, 0x3f, 0x47, 0x6e, 0x01, 0xc1, 0x0a, 0x8f, 0x95, 0xbb]

def smallDigests : List (Bytes × Bytes) := [(smallContent, contentDigest), (smallManifest,
      [0xe0, 0x7e, 0x37, 0x75, 0xc3, 0xf6, 0xae, 0x22, 0xbb, 0x97, 0xf0, 0x0d, 0x55, 0x7e, 0xe5, 0x9a,
        0xa3, 0xab, 0xb2, 0xef, 0x2c, 0xed, 0x3a, 0x79, 0x9b, 0x98, 0x5c, 0x44, 0x6a, 0x24, 0x05, 0x93]),
    (buildKey, keyDigest)]

def smallSha256 (b : Bytes) : Bytes :=
  ((smallDigests.find? fun d => d.1 = b).map Prod.snd).getD (1 :: b)

def smallSeal : EvidenceSeal where
  format := evidenceFormat
  purpose := caskPurpose
  payloadSha256 := smallSha256 smallManifest
  keyId := ascii (hexEncode (keyDigest.take 8))
  issuedAtUnix := 1767323045
  algorithm := sealAlgorithm
  mldsa65Sig := replicate signatureSize 2

def base64 : Nat → Bytes
  | 0 => []
  | n + 1 => 0x41 :: 0x67 :: 0x49 :: 0x43 :: base64 n

/-- The seal as JSON. -/
def smallSig : Bytes :=
  ascii ['\x7b', '"', 'f', 'o', 'r', 'm', 'a', 't', '"', ':', '"', 'g', 'u', 'n', 'g', 'n', 'i',
      'r', '-', 'e', 'v', 'i', 'd', 'e', 'n', 'c', 'e', '/', 'v', '1', '"', ',', '"', 'p', 'u',
      'r', 'p', 'o', 's', 'e', '"', ':', '"', 's', 'e', 'a', 'l', 'e', 'd', '-', 'c', 'a', 's',
      'k', '-', 'v', '1', '"', ','] ++
  (ascii ['"', 'p', 'a', 'y', 'l', 'o', 'a', 'd', '_', 's', 'h', 'a', '2', '5', '6', '"', ':', '"',
      '4', 'H', '4', '3', 'd', 'c', 'P', '2', 'r', 'i', 'K', '7', 'l', '/', 'A', 'N', 'V', 'X',
      '7', 'l', 'm', 'q', 'O', 'r', 's', 'u', '8', 's', '7', 'T', 'p', '5', 'm', '5', 'h', 'c',
      'R', 'G', 'o', 'k', 'B', 'Z', 'M', '=', '"', ','] ++
  (ascii ['"', 'k', 'e', 'y', '_', 'i', 'd', '"', ':', '"', '5', '9', '4', 'b', 'd', 'c', 'b', '0',
      '7', '8', 'a', '5', 'b', '2', '5', '3', '"', ',', '"', 'i', 's', 's', 'u', 'e', 'd', '_',
      'a', 't', '_', 'u', 'n', 'i', 'x', '"', ':', '1', '7', '6', '7', '3', '2', '3', '0', '4',
      '5', ','] ++
  (ascii ['"', 'a', 'l', 'g', 'o', 'r', 'i', 't', 'h', 'm', '"', ':', '"', 'm', 'l', '-', 'd', 's',
      'a', '-', '6', '5', '"', ',', '"', 'm', 'l', 'd', 's', 'a', '6', '5', '_', 's', 'i', 'g',
      '"', ':', '"'] ++
  (base64 1103 ++ ascii ['"', '\x7d', '\n']))))

/-- The holder of the key has sealed the manifest once. -/
def smallCrypto : Crypto where
  sha256 := smallSha256
  verify pub message context _ :=
    pub = buildKey ∧ message = evidenceMessage smallSeal ∧ context = evidenceContext
  decodeSeal _ := some smallSeal

def smallSealing : Sealing := ⟨smallManifest, caskPurpose, 1767323045⟩

def smallRoot : Bytes := ascii ['s', 'e', 'a', 'l', 'e', 'd', '-', 'c', 'a', 's', 'k', '-', '1']

def smallMember (rel data : Bytes) : Member :=
  ⟨smallRoot ++ slash :: rel, .reg, data.length, 0o644, data⟩

def smallCask : Untarred :=
  .archive [⟨smallRoot ++ [slash], .dir, 0, 0o755, []⟩, smallMember (ascii ['a']) smallContent,
    smallMember manifestName smallManifest, smallMember sigName smallSig] (.eof [] false)

def defaultLimits : Limits := ⟨2 * 2 ^ 30, 8 * 2 ^ 30, 200000, 16 * 2 ^ 20⟩

def quietOs : Os := ⟨fun _ => true, fun _ => [], id⟩

/-- The file system becomes read-only before anything is written to the file of the cask. -/
def readOnlyOs : Os where
  succeeds
    | .write _ | .removeAll => false
    | _ => true
  torn _ := []
  left := id

theorem smallSha256_injective : Injective smallSha256 := by
  have heads : ∀ d ∈ smallDigests, d.2.head? ≠ some 1 := by decide +kernel
  have distinct : (smallDigests.map Prod.snd).Nodup := by decide +kernel
  intro a b same
  unfold smallSha256 at same
  cases first : smallDigests.find? fun d => d.1 = a with
  | none =>
    cases second : smallDigests.find? fun d => d.1 = b with
    | none =>
      rw [first, second] at same
      exact tail_eq_of_cons_eq same
    | some e =>
      rw [first, second] at same
      refine absurd ?_ (heads e (mem_of_find?_eq_some second))
      exact congrArg head? same.symm
  | some d =>
    have here := find?_some first
    cases second : smallDigests.find? fun d => d.1 = b with
    | none =>
      rw [first, second] at same
      refine absurd ?_ (heads d (mem_of_find?_eq_some first))
      exact congrArg head? same
    | some e =>
      have there := find?_some second
      rw [first, second] at same
      have equal := inj_on_of_nodup_map distinct (mem_of_find?_eq_some first)
        (mem_of_find?_eq_some second) same
      rw [← of_decide_eq_true here, ← of_decide_eq_true there, equal]

theorem smallCask_extracted : (extractFile smallCrypto quietOs [some buildKey] defaultLimits none smallCask
    smallCask).2.isOk = true := by decide +kernel

theorem unforgeable_smallCrypto :
    Unforgeable smallCrypto fun pub call => pub = buildKey ∧ call = smallSealing := by
  have key : smallSeal.keyId = keyID smallCrypto buildKey := by decide +kernel
  intro pub message sig verified
  obtain ⟨rfl, message, -⟩ := of_decide_eq_true verified
  refine ⟨smallSealing, ⟨rfl, rfl⟩, ?_⟩
  have token : isPurpose smallSealing.purpose = true := by decide
  rw [signEvidence, message, ← key]
  rfl

/-- The cask is extracted to a destination that was not there, and has what the key sealed. -/
theorem extracts_what_was_sealed_small : ∃ t result manifest sig files,
      extractFile smallCrypto quietOs [some buildKey] defaultLimits none smallCask smallCask =
        (some t, .ok result) ∧
      SealedBy [some buildKey] (fun pub call => pub = buildKey ∧ call = smallSealing) manifest ∧
      parseManifest manifest = .ok files ∧ Holds smallCrypto manifest sig files t := by
  have succeeds := smallCask_extracted
  cases outcome : extractFile smallCrypto quietOs [some buildKey] defaultLimits none smallCask
      smallCask with
  | mk afterwards answer =>
    cases answer with
    | error e =>
      rw [outcome] at succeeds
      cases succeeds
    | ok result =>
      obtain ⟨-, t, manifest, sig, files, rfl, sealed, parsed, holds, -⟩ :=
        (extracts_what_was_sealed smallCrypto _ smallSha256_injective unforgeable_smallCrypto
          [some buildKey] defaultLimits).1 _ _ _ _ _ _ outcome
      exact ⟨t, result, manifest, sig, files, rfl, sealed, parsed, holds⟩

theorem smallCask_stays : (extractFile smallCrypto readOnlyOs [some buildKey] defaultLimits none
      smallCask smallCask).1.isSome = true ∧
    (extractFile smallCrypto readOnlyOs [some buildKey] defaultLimits none smallCask
      smallCask).2.isOk = false := by decide +kernel

/-- The destination was not there, and is there after the call has failed. -/
theorem failed_extraction_stays : ∃ t e,
    extractFile smallCrypto readOnlyOs [some buildKey] defaultLimits none smallCask smallCask =
      (some t, .error e) := by
  obtain ⟨stays, fails⟩ := smallCask_stays
  cases outcome : extractFile smallCrypto readOnlyOs [some buildKey] defaultLimits none smallCask
      smallCask with
  | mk afterwards answer =>
    rw [outcome] at stays fails
    obtain ⟨t, rfl⟩ := Option.isSome_iff_exists.mp stays
    cases answer with
    | error e => exact ⟨t, e, rfl⟩
    | ok result => cases fails

end Small

end Unheaded.Cask
