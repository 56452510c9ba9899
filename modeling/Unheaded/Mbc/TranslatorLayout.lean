import Unheaded.Lib.Layout
import Unheaded.Mbc.Translator

/-!
# Layout of a translated program

What an accepted translation looks like: the expansion of word `i` stands in
the ROM from `pcMap[i]` to `pcMap[i + 1]`, its placeholders resolved through
`pcMap`.
-/

namespace Unheaded.Mbc.Translator

open Lib List
open BitVec (ofNat)

def blockOf (insn : Word) (body : List MbcEmit) : List MbcEmit :=
  (spillLoads insn).map .concrete ++ body ++ (spillStores insn).map .concrete

variable {t : Translator} {idx : Nat}

theorem expand_ok {insn : Word} {body : List MbcEmit}
    (h : translateInsn insn (ofNat 32 (idx * 4)) = .ok body) : t.expand idx insn =
      { items := t.items ++ blockOf insn body
        errors := t.errors
        pcMap := t.pcMap ++ [t.items.length] } := by
  rw [expand, h]
  simp [append, recordPc, blockOf]

theorem expand_errors (t : Translator) (idx : Nat) (insn : Word) : (t.expand idx insn).errors = [] ↔
      t.errors = [] ∧ ∃ body, translateInsn insn (ofNat 32 (idx * 4)) = .ok body := by
  rw [expand]
  cases translateInsn insn (ofNat 32 (idx * 4)) with
  | ok body => simp [append, recordPc]
  | error e => simp [append]

/-- The blocks pass 1 lays out. -/
inductive Blocks : Nat → List Word → List (List MbcEmit) → Prop
  | nil (idx : Nat) : Blocks idx [] []
  | cons {idx : Nat} {insn : Word} {insns : List Word} {body : List MbcEmit}
      {bs : List (List MbcEmit)}
      (expansion : translateInsn insn (ofNat 32 (idx * 4)) = .ok body)
      (rest : Blocks (idx + 1) insns bs) :
      Blocks idx (insn :: insns) (blockOf insn body :: bs)

variable {insns rom : List Word}

theorem expandAll_spec (clean : (expandAll idx insns t).errors = []) :
    t.errors = [] ∧ ∃ bs, Blocks idx insns bs ∧
      (expandAll idx insns t).items = t.items ++ bs.flatten ∧
      (expandAll idx insns t).pcMap = t.pcMap ++ starts t.items.length bs := by
  induction insns generalizing idx t with
  | nil => exact ⟨clean, [], Blocks.nil idx, by simp [expandAll, recordPc], rfl⟩
  | cons insn insns ih =>
    rw [expandAll] at clean ⊢
    obtain ⟨noError, bs, blocks, items, pcMap⟩ := ih clean
    obtain ⟨start, body, expansion⟩ := (expand_errors t idx insn).mp noError
    refine ⟨start, blockOf insn body :: bs, Blocks.cons expansion blocks, ?_, ?_⟩
    · rw [items, expand_ok expansion, flatten_cons, List.append_assoc]
    · rw [pcMap, expand_ok expansion, starts]
      simp

variable {bs : List (List MbcEmit)}

theorem Blocks.length (blocks : Blocks idx insns bs) : bs.length = insns.length := by
  induction blocks with
  | nil => rfl
  | cons _ _ ih => rw [length_cons, length_cons, ih]

theorem Blocks.get (blocks : Blocks idx insns bs) {i : Nat} {insn : Word}
    (word : insns[i]? = some insn) :
    ∃ body, translateInsn insn (ofNat 32 ((idx + i) * 4)) = .ok body ∧
      bs[i]? = some (blockOf insn body) := by
  induction blocks generalizing i with
  | nil => cases word
  | @cons idx _ _ body _ expansion _ ih =>
    cases i with
    | zero =>
      cases word
      exact ⟨body, expansion, rfl⟩
    | succ i =>
      obtain ⟨body, translated, block⟩ := ih word
      refine ⟨body, ?_, block⟩
      rwa [Nat.add_right_comm] at translated

/-- The items stand in the ROM at `p`, resolved. -/
def Placed (pcMap : List Nat) (rom : List Word) : Nat → List MbcEmit → Prop
  | _, [] => True
  | p, item :: items =>
    (∃ word, resolve pcMap p item = .ok word ∧ rom[p]? = some word) ∧
      Placed pcMap rom (p + 1) items

variable {pcMap : List Nat}

theorem placed_append (p : Nat) (as bs : List MbcEmit) : Placed pcMap rom p (as ++ bs) ↔
      Placed pcMap rom p as ∧ Placed pcMap rom (p + as.length) bs := by
  induction as generalizing p with
  | nil => simp [Placed]
  | cons a as ih =>
    rw [List.cons_append, Placed, Placed, ih, and_assoc, length_cons,
      Nat.add_assoc, Nat.add_comm 1]

theorem placed_concrete (p : Nat) (ws : List Word) :
    Placed pcMap rom p (ws.map .concrete) ↔ Seg rom p ws := by
  induction ws generalizing p with
  | nil => rfl
  | cons w ws ih =>
    rw [map_cons, Placed, Seg, ih]
    simp [resolve]

theorem resolveAll_spec {items : List MbcEmit} (before : List Word)
    (clean : (resolveAll pcMap before.length items).2 = []) :
    (resolveAll pcMap before.length items).1.length = items.length ∧
      Placed pcMap (before ++ (resolveAll pcMap before.length items).1) before.length items := by
  induction items generalizing before with
  | nil => exact ⟨rfl, trivial⟩
  | cons item items ih =>
    rw [resolveAll] at clean ⊢
    cases word : resolve pcMap before.length item with
    | error e =>
      simp [word] at clean
    | ok w =>
      rw [word] at clean
      have later := ih (before ++ [w]) (by simpa using clean)
      rw [length_append, List.append_assoc] at later
      refine ⟨by simpa using later.1, ⟨w, word, ?_⟩, later.2⟩
      simp

theorem resolve_branch {p : Nat} {o : Opcode} {target word : Word}
    (resolved : resolve pcMap p (.branch o target) = .ok word) :
    ∃ t, pcMap[target.toNat / 4]? = some t ∧ MbcInsn.opcode? word = some o ∧
      ofNat 32 (p + 1) + MbcInsn.branchOffset word = ofNat 32 t := by
  rw [resolve] at resolved
  split at resolved
  next => cases resolved
  next t lookup =>
    dsimp only at resolved
    split at resolved <;> cases resolved
    next range =>
      refine ⟨t, lookup, MbcInsn.opcode?_encodeBranch o _, ?_⟩
      rw [MbcInsn.branchOffset_encodeBranch _ range.1 range.2, ← BitVec.ofInt_natCast,
        ← BitVec.ofInt_natCast, ← BitVec.ofInt_add]
      congr 1
      omega

structure Layout (program rom : List Word) (pcMap : List Nat) : Prop where
  length : pcMap.length = program.length + 1
  first : pcMap[0]? = some 0
  fits : ∀ {i p : Nat}, pcMap[i]? = some p → p ≤ rom.length
  block : ∀ {i : Nat} {insn : Word}, program[i]? = some insn →
    ∃ p body, translateInsn? insn (ofNat 32 (i * 4)) = some body ∧
      pcMap[i]? = some p ∧ pcMap[i + 1]? = some (p + (blockOf insn body).length) ∧
      Placed pcMap rom p (blockOf insn body)

namespace Layout

variable {program rom : List Word} {pcMap : List Nat}

theorem mono (layout : Layout program rom pcMap) {i j p t : Nat} (order : i ≤ j)
    (first : pcMap[i]? = some p) (second : pcMap[j]? = some t) : p ≤ t := by
  induction j, order using Nat.le_induction generalizing t with
  | base =>
    rw [first] at second
    exact Nat.le_of_eq (Option.some.inj second)
  | succ j order ih =>
    have inside := (List.getElem?_eq_some_iff.mp second).1
    rw [layout.length] at inside
    have word : program[j]? = some program[j] := List.getElem?_eq_getElem (by omega)
    obtain ⟨s, body, -, here, next, -⟩ := layout.block word
    rw [second] at next
    have later := ih here
    have ends := Option.some.inj next
    omega

theorem start_outside (layout : Layout program rom pcMap) {i j p q t : Nat}
    (here : pcMap[i]? = some p) (next : pcMap[i + 1]? = some q) (start : pcMap[j]? = some t) :
    ¬ (p < t ∧ t < q) := by
  rintro ⟨above, below⟩
  by_cases order : j ≤ i
  · have before := layout.mono order start here
    omega
  · have after := layout.mono (by omega) next start
    omega

end Layout

theorem translateInsn_ok {insn pc : Word} {body : List MbcEmit}
    (h : translateInsn insn pc = .ok body) : translateInsn? insn pc = some body := by
  rw [translateInsn] at h
  cases expansion : translateInsn? insn pc with
  | none =>
    simp [expansion] at h
  | some items =>
    rw [expansion] at h
    cases h
    rfl

theorem layout_of_internal {program rom : List Word} {pcMap : List Nat}
    (accepted : translateProgramInternal program = .ok (rom, pcMap)) :
    Layout program rom pcMap := by
  rw [translateProgramInternal] at accepted
  dsimp only at accepted
  split at accepted
  next => cases accepted
  next noErrors =>
    rw [not_not] at noErrors
    split at accepted
    next => cases accepted
    next resolved =>
      rw [not_not] at resolved
      cases accepted
      obtain ⟨-, bs, blocks, items, starts_eq⟩ := expandAll_spec noErrors
      have items' : (expandAll 0 program new).items = bs.flatten := by simpa [new] using items
      have map' : (expandAll 0 program new).pcMap = starts 0 bs := by simpa [new] using starts_eq
      rw [items', map'] at resolved ⊢
      obtain ⟨size, placed⟩ := resolveAll_spec [] resolved
      rw [length_nil] at *
      refine ⟨?_, ?_, fun {i p} here => ?_, fun {i insn} word => ?_⟩
      · rw [length_starts, blocks.length]
      · cases bs <;> rfl
      · rw [size]
        simpa using starts_le here
      · obtain ⟨body, translated, block⟩ := blocks.get word
        rw [Nat.zero_add] at translated
        have inside : i < (starts 0 bs).length := by
          have bound := (List.getElem?_eq_some_iff.mp block).1
          rw [length_starts]
          omega
        have here : (starts 0 bs)[i]? = some (starts 0 bs)[i] := List.getElem?_eq_getElem inside
        refine ⟨_, body, translateInsn_ok translated, here, starts_succ here block, ?_⟩
        exact block_of_flatten (P := Placed _ _)
          (fun n as bs => (placed_append n as bs).mp) placed here block

theorem layout_of_map {program rom rv2mbc : List Word}
    (accepted : translateProgramWithMap program = .ok (rom, rv2mbc)) :
    ∃ pcMap, Layout program rom pcMap ∧ rv2mbc = pcMap.map (ofNat 32) := by
  rw [translateProgramWithMap] at accepted
  split at accepted <;> cases accepted
  next words pcMap internal =>
    exact ⟨pcMap, layout_of_internal internal, rfl⟩

end Unheaded.Mbc.Translator
