import Unheaded.Ascend.ForkCopy
import Unheaded.Mbc.BpfFrame

/-!
# Address spaces

Each slot has a page directory of its own, in a page of the directory region.
-/

namespace Unheaded.Ascend

open Lib Mbc Phase12 Machine BitVec Function
open BitVec (ofNat)

def InSliceByte (pid : Byte) (a : Nat) : Prop :=
  sliceBase pid.toNat ≤ a ∧ a < sliceBase pid.toNat + 0x800000

def InSlice (pid : Byte) (i : Nat) : Prop := InSliceByte pid (4 * i)

instance (pid : Byte) (i : Nat) : Decidable (InSlice pid i) :=
  inferInstanceAs (Decidable (_ ∧ _))

def InDirectories (i : Nat) : Prop := 0x3C0000 ≤ i ∧ i < 0x3C2000

instance (i : Nat) : Decidable (InDirectories i) := inferInstanceAs (Decidable (_ ∧ _))

theorem sliceBase_mod (pid : Nat) : sliceBase pid % 0x800000 = 0 := by
  unfold sliceBase
  split <;> omega

theorem inSlice_word {pid : Byte} (a : Word) :
    InSlice pid (a >>> 2).toNat ↔ InSliceByte pid a.toNat := by
  have aligned := sliceBase_mod pid.toNat
  have word : (a >>> 2).toNat = a.toNat / 4 := by
    rw [toNat_ushiftRight, Nat.shiftRight_eq_div_pow]
  unfold InSlice InSliceByte
  omega

theorem InSlice.apart {p q : Byte} {i : Nat} (mine : InSlice p i) (other : p ≠ q) :
    ¬ InSlice q i := by
  intro yours
  have different : p.toNat ≠ q.toNat := fun equal => other (eq_of_toNat_eq equal)
  have apart := sliceBase_apart different
  unfold InSlice InSliceByte at mine yours
  omega

theorem InSlice.not_directories {pid : Byte} {i : Nat} (inside : InSlice pid i) :
    ¬ InDirectories i := by
  unfold InSlice InSliceByte sliceBase at inside
  unfold InDirectories
  split at inside <;> omega

theorem inSliceByte_pidPhysOffset {pid : Byte} {va : Word} (inside : va.toNat < 0x800000) :
    InSliceByte pid (pidPhysOffset pid + va).toNat := by
  rw [toNat_pidPhysOffset_add (Nat.le_of_lt inside)]
  unfold InSliceByte
  omega

/-- Entry `k` of the page directory of a slot. -/
def pde (b : Bpf) (slot k : Nat) : Word := b.ram.getD (pgdCell slot + k) 0

/-- The leaf that maps the superpage `k` of a slot. -/
def leaf (slot k : Nat) : Word :=
  ((pidPhysOffset (ofNat 8 slot) + ofNat 32 (k * 0x400000)) &&& Bpf.SUPERPAGE_MASK) |||
    LEAF_FLAGS

/-- The address spaces are as `fork` builds them and the switch selects them:
a present directory has its two leaves, nothing else is mapped, the running
slot uses its own directory and the TLB holds nothing else.  The directory of
slot 0 may map the low 64 MiB onto themselves, as the loader has it. -/
structure Housed (b : Bpf) : Prop where
  ram : b.ram.len = RAM_MAP_WORDS
  leaves : ∀ slot, slot < MAX_PROCESSES → pde b slot 0 &&& Mmu.PTE_PRESENT ≠ 0 →
    pde b slot 0 = leaf slot 0 ∧ pde b slot 1 = leaf slot 1
  absent : ∀ slot k, slot < MAX_PROCESSES → k < 0x400 → slot ≠ 0 → 2 ≤ k →
    pde b slot k &&& Mmu.PTE_PRESENT = 0
  flat : ∀ k, k < 0x400 → pde b 0 k &&& Mmu.PTE_PRESENT = 0 ∨ k < 16 ∧ pde b 0 k = leaf 0 k
  slot : b.state.currentPid.toNat < MAX_PROCESSES
  base : b.state.pageDirBase = pgdBaseForPid b.state.currentPid
  here : b.state.currentPid ≠ 0 → pde b b.state.currentPid.toNat 0 &&& Mmu.PTE_PRESENT ≠ 0
  tlb : ∀ i, (b.tlb i).flags &&& Mmu.PTE_PRESENT ≠ 0 →
    (b.state.currentPid ≠ 0 → (b.tlb i).vpn.toNat < 0x800) ∧
    (b.tlb i).pfn = (pidPhysOffset b.state.currentPid >>> 12) + (b.tlb i).vpn

def physical (pid : Byte) (va : Word) : Word :=
  if pid ≠ 0 ∧ va.toNat < 0x800000 then pidPhysOffset pid + va else va

theorem toNat_offset_add {pid : Byte} {va : Word} (inside : pid ≠ 0 → va.toNat < 0x800000) :
    (pidPhysOffset pid + va).toNat = sliceBase pid.toNat + va.toNat := by
  by_cases child : pid = 0
  · subst child
    have start : sliceBase (0 : Byte).toNat = 0 := rfl
    have none : pidPhysOffset 0 = 0#32 := by decide
    rw [none, BitVec.zero_add, start, Nat.zero_add]
  · exact toNat_pidPhysOffset_add (Nat.le_of_lt (inside child))

theorem physical_of {pid : Byte} {va : Word} (inside : pid ≠ 0 → va.toNat < 0x800000) :
    physical pid va = pidPhysOffset pid + va := by
  unfold physical
  by_cases child : pid = 0
  · subst child
    have none : pidPhysOffset 0 = 0#32 := by decide
    rw [if_neg (fun both => both.1 rfl), none, BitVec.zero_add]
  · exact if_pos ⟨child, inside child⟩

theorem inSliceByte_physical {pid : Byte} {va : Word} :
    InSliceByte pid (physical pid va).toNat ↔ va.toNat < 0x800000 ∨ InSliceByte pid va.toNat := by
  unfold physical
  by_cases child : pid = 0
  · subst child
    rw [if_neg (fun both => both.1 rfl)]
    have start : sliceBase (0 : Byte).toNat = 0 := rfl
    unfold InSliceByte
    omega
  · by_cases inside : va.toNat < 0x800000
    · rw [if_pos ⟨child, inside⟩]
      exact iff_of_true (inSliceByte_pidPhysOffset inside) (Or.inl inside)
    · rw [if_neg (fun both => inside both.2)]
      exact (or_iff_right inside).symm

theorem or_eq_add {x y : Word} (n : Nat) (high : x.toNat % 2 ^ n = 0) (low : y.toNat < 2 ^ n) :
    x ||| y = x + y := by
  have parts : x.toNat = 2 ^ n * (x.toNat / 2 ^ n) := by
    have division := Nat.div_add_mod x.toNat (2 ^ n)
    rw [high] at division
    exact division.symm
  have joined : x.toNat ||| y.toNat = x.toNat + y.toNat := by
    rw [parts]
    exact (Nat.two_pow_add_eq_or_of_lt low _).symm
  apply eq_of_toNat_eq
  have bound : x.toNat ||| y.toNat < 2 ^ 32 := by
    exact (x ||| y).isLt
  rw [toNat_or, joined]
  rw [joined] at bound
  exact (Nat.mod_eq_of_lt bound).symm

theorem toNat_and_low (va : Word) {mask : Word} (n : Nat) (ones : mask.toNat = 2 ^ n - 1) :
    (va &&& mask).toNat = va.toNat % 2 ^ n := by
  rw [toNat_and, ones, Nat.and_two_pow_sub_one_eq_mod]

theorem leaf_spec {slot k : Nat} (counted : slot < MAX_PROCESSES)
    (low : k < 2 ∨ slot = 0 ∧ k < 16) :
    leaf slot k &&& Mmu.PTE_PRESENT ≠ 0 ∧ leaf slot k &&& Bpf.PTE_LEAF ≠ 0 ∧
      (leaf slot k &&& Bpf.SUPERPAGE_MASK).toNat = sliceBase slot + k * 0x400000 := by
  rcases low with low | ⟨rfl, low⟩
  · have below : slot < 8 := counted
    interval_cases slot <;> interval_cases k <;> decide
  · interval_cases k <;> decide

theorem superpage_join {pid : Byte} (counted : pid.toNat < MAX_PROCESSES) {va : Word}
    (inside : pid ≠ 0 → va.toNat < 0x800000)
    (low : va.toNat / 0x400000 < 2 ∨ pid.toNat = 0 ∧ va.toNat / 0x400000 < 16) :
    (leaf pid.toNat (va.toNat / 0x400000) &&& Bpf.SUPERPAGE_MASK) |||
      (va &&& Bpf.SUPERPAGE_OFFSET_MASK) = pidPhysOffset pid + va := by
  obtain ⟨-, -, frame⟩ := leaf_spec counted low
  have offset : (va &&& Bpf.SUPERPAGE_OFFSET_MASK).toNat = va.toNat % 0x400000 :=
    toNat_and_low va 22 rfl
  have aligned := sliceBase_mod pid.toNat
  rw [or_eq_add 22 (by rw [frame]; omega) (by rw [offset]; exact Nat.mod_lt _ (by decide))]
  apply eq_of_toNat_eq
  have whole := toNat_offset_add inside
  have fits := (pidPhysOffset pid + va).isLt
  rw [toNat_add, whole]
  omega

theorem page_join {pid : Byte} {va : Word} (inside : pid ≠ 0 → va.toNat < 0x800000) :
    (((pidPhysOffset pid >>> 12) + (va >>> 12)) <<< 12) ||| (va &&& 0xFFF) =
      pidPhysOffset pid + va := by
  have aligned := sliceBase_mod pid.toNat
  have whole := toNat_offset_add inside
  have fits := (pidPhysOffset pid + va).isLt
  have base : (pidPhysOffset pid >>> 12).toNat = sliceBase pid.toNat / 4096 := by
    rw [toNat_ushiftRight, Nat.shiftRight_eq_div_pow, toNat_pidPhysOffset]
  have page : (va >>> 12).toNat = va.toNat / 4096 := by
    rw [toNat_ushiftRight, Nat.shiftRight_eq_div_pow]
  have frame : (((pidPhysOffset pid >>> 12) + (va >>> 12)) <<< 12).toNat =
      sliceBase pid.toNat + va.toNat / 4096 * 4096 := by
    rw [toNat_shiftLeft, toNat_add]
    omega
  have offset : (va &&& 0xFFF).toNat = va.toNat % 4096 := toNat_and_low va 12 rfl
  rw [or_eq_add 12 (by rw [frame]; omega) (by rw [offset]; exact Nat.mod_lt _ (by decide))]
  apply eq_of_toNat_eq
  rw [toNat_add, whole]
  omega

theorem page_of {pid : Byte} {va : Word} (inside : pid ≠ 0 → va.toNat < 0x800000) :
    (pidPhysOffset pid + va) >>> 12 = (pidPhysOffset pid >>> 12) + (va >>> 12) := by
  have aligned := sliceBase_mod pid.toNat
  have whole := toNat_offset_add inside
  have fits := (pidPhysOffset pid + va).isLt
  apply eq_of_toNat_eq
  rw [toNat_ushiftRight, whole, toNat_add, toNat_ushiftRight, toNat_ushiftRight,
    toNat_pidPhysOffset]
  omega

namespace Housed

variable {b b' : Bpf}

variable (housed : Housed b)
include housed

theorem congr (ram : b.ram.Within (fun i => ¬ InDirectories i) b'.ram)
    (tlb : b'.tlb = b.tlb) (pid : b'.state.currentPid = b.state.currentPid)
    (base : b'.state.pageDirBase = b.state.pageDirBase) : Housed b' := by
  have same (slot k : Nat) (counted : slot < MAX_PROCESSES) (inside : k < 0x400) :
      pde b' slot k = pde b slot k := by
    refine ram.getD ?_ 0
    have below : slot < 8 := counted
    unfold InDirectories pgdCell
    omega
  refine ⟨ram.len.trans housed.ram, ?_, ?_, ?_, by rw [pid]; exact housed.slot, ?_, ?_, ?_⟩
  · intro slot counted
    rw [same slot 0 counted (by decide), same slot 1 counted (by decide)]
    exact housed.leaves slot counted
  · intro slot k counted inside
    rw [same slot k counted inside]
    exact housed.absent slot k counted inside
  · intro k inside
    rw [same 0 k (by decide) inside]
    exact housed.flat k inside
  · rw [base, pid]
    exact housed.base
  · rw [pid, same _ 0 housed.slot (by decide)]
    exact housed.here
  · rw [tlb, pid]
    exact housed.tlb

theorem read_pde (va : Word) : b.memReadWord ((b.state.pageDirBase >>> 2) + (va >>> 22)) =
      pde b b.state.currentPid.toNat (va.toNat / 0x400000) := by
  obtain ⟨cell, -⟩ := toNat_pgdCell housed.slot
  rw [ofNat_toNat, setWidth_eq] at cell
  have index : (va >>> 22).toNat = va.toNat / 0x400000 := by
    rw [toNat_ushiftRight, Nat.shiftRight_eq_div_pow]
  have place : ((b.state.pageDirBase >>> 2) + (va >>> 22)).toNat =
      pgdCell b.state.currentPid.toNat + va.toNat / 0x400000 := by
    rw [housed.base, toNat_add, cell]
    unfold pgdCell
    omega
  rw [Bpf.memReadWord, Bpf.ramWord, pde, place, if_neg]
  unfold kbdWord pgdCell
  simp only [Mmap.KBD_ADDR]
  omega

theorem hit {va : Word} {i : BitVec 6} (vpn : (b.tlb i).vpn = va >>> 12)
    (present : (b.tlb i).flags &&& Mmu.PTE_PRESENT ≠ 0) :
    ((b.tlb i).pfn <<< 12) ||| (va &&& 0xFFF) = physical b.state.currentPid va := by
  obtain ⟨low, pfn⟩ := housed.tlb i present
  have page : (va >>> 12).toNat = va.toNat / 4096 := by
    rw [toNat_ushiftRight, Nat.shiftRight_eq_div_pow]
  have inside : b.state.currentPid ≠ 0 → va.toNat < 0x800000 := by
    intro child
    have bound := low child
    rw [vpn] at bound
    omega
  rw [pfn, vpn, page_join inside, physical_of inside]

/-- An address is mapped by a leaf of the running slot, or not at all. -/
theorem entry (va : Word) :
    (pde b b.state.currentPid.toNat (va.toNat / 0x400000) &&& Mmu.PTE_PRESENT = 0 ∧
      physical b.state.currentPid va = va) ∨ ((b.state.currentPid ≠ 0 → va.toNat < 0x800000) ∧
      (va.toNat / 0x400000 < 2 ∨ b.state.currentPid.toNat = 0 ∧ va.toNat / 0x400000 < 16) ∧
      pde b b.state.currentPid.toNat (va.toNat / 0x400000) =
        leaf b.state.currentPid.toNat (va.toNat / 0x400000)) := by
  by_cases child : b.state.currentPid = 0
  · have zero : b.state.currentPid.toNat = 0 := congrArg BitVec.toNat child
    rcases housed.flat (va.toNat / 0x400000) (by omega) with absent | ⟨low, mapped⟩
    · refine Or.inl ⟨by rw [zero]; exact absent, ?_⟩
      exact if_neg fun both => both.1 child
    · exact Or.inr ⟨fun other => absurd child other, Or.inr ⟨zero, low⟩, by rw [zero]; exact mapped⟩
  · by_cases inside : va.toNat < 0x800000
    · refine Or.inr ⟨fun _ => inside, Or.inl (by omega), ?_⟩
      obtain ⟨first, second⟩ := housed.leaves _ housed.slot (housed.here child)
      have low : va.toNat / 0x400000 = 0 ∨ va.toNat / 0x400000 = 1 := by omega
      rcases low with zero | one
      · rw [zero]
        exact first
      · rw [one]
        exact second
    · refine Or.inl ⟨?_, if_neg fun both => inside both.2⟩
      have other : b.state.currentPid.toNat ≠ 0 := fun zero => child (eq_of_toNat_eq zero)
      exact housed.absent _ _ housed.slot (by omega) other (by omega)

theorem setTlb {va : Word} (inside : b.state.currentPid ≠ 0 → va.toNat < 0x800000) (i : BitVec 6) :
    Housed (b.setTlb i ⟨va >>> 12, (pidPhysOffset b.state.currentPid + va) >>> 12,
      Mmu.PTE_PRESENT⟩) := by
  refine ⟨housed.ram, housed.leaves, housed.absent, housed.flat, housed.slot, housed.base,
    housed.here, ?_⟩
  intro j
  change (update b.tlb i _ j).flags &&& Mmu.PTE_PRESENT ≠ 0 →
    (_ → (update b.tlb i _ j).vpn.toNat < 0x800) ∧ (update b.tlb i _ j).pfn =
      (pidPhysOffset b.state.currentPid >>> 12) + (update b.tlb i _ j).vpn
  by_cases same : j = i
  · subst same
    rw [update_self]
    intro _
    have page : (va >>> 12).toNat = va.toNat / 4096 := by
      rw [toNat_ushiftRight, Nat.shiftRight_eq_div_pow]
    refine ⟨fun child => ?_, page_of inside⟩
    have bound := inside child
    change (va >>> 12).toNat < 0x800
    omega
  · rw [update_of_ne same]
    exact housed.tlb j

theorem translate (va : Word) : (b.state.mmuEnabled ≠ 0 → b.state.privLevel = 3 →
      (b.translateAddress va).1 = physical b.state.currentPid va) ∧
      Housed (b.translateAddress va).2 := by
  unfold Bpf.translateAddress
  dsimp only
  rw [housed.read_pde]
  split
  · next flat =>
    refine ⟨fun mmu user => ?_, housed⟩
    rcases flat with off | kernel
    · exact absurd off mmu
    · exact absurd user kernel
  · split
    · next hit => exact ⟨fun _ _ => housed.hit hit.1 hit.2, housed⟩
    · rcases housed.entry va with ⟨absent, through⟩ | ⟨inside, low, mapped⟩
      · rw [if_pos absent]
        refine ⟨fun _ _ => ?_, housed⟩
        rw [through]
        rw [Bpf.walkMiss, Bpf.d6UserMiss, Bpf.UPC_D6_MISS_FAULT, Bool.and_false]
        rfl
      · obtain ⟨present, super, -⟩ := leaf_spec housed.slot low
        rw [mapped, if_neg present, if_pos super, superpage_join housed.slot inside low]
        exact ⟨fun _ _ => (physical_of inside).symm, housed.setTlb inside _⟩

end Housed

theorem pde_set {b b' : Bpf} (ram : b.ram.len = RAM_MAP_WORDS) {c j : Nat} {v : Word}
    (counted : c < MAX_PROCESSES) (inside : j < 0x400) (written : b'.ram = b.ram.set (pgdCell c + j) v)
    {slot k : Nat} (inside' : k < 0x400) :
    pde b' slot k = if slot = c ∧ k = j then v else pde b slot k := by
  have below : c < 8 := counted
  unfold pde
  rw [written]
  by_cases same : slot = c ∧ k = j
  · obtain ⟨rfl, rfl⟩ := same
    rw [if_pos ⟨rfl, rfl⟩, Store.getD_set_self]
    rw [ram]
    unfold pgdCell RAM_MAP_WORDS
    omega
  · rw [if_neg same, Store.getD_set_of_ne]
    unfold pgdCell
    omega

theorem read_pgd (b : Bpf) {c : Nat} (counted : c < MAX_PROCESSES) :
    b.memReadWord (pgdBaseForPid (ofNat 8 c) >>> 2) = pde b c 0 := by
  obtain ⟨cell, -⟩ := toNat_pgdCell counted
  unfold Bpf.memReadWord Bpf.ramWord pde
  rw [cell, if_neg, Nat.add_zero]
  unfold kbdWord pgdCell
  simp only [Mmap.KBD_ADDR]
  omega

theorem ram_freePgd (b : Bpf) {c : Nat} (counted : c < MAX_PROCESSES) :
    (freePgd b (ofNat 8 c)).ram = b.ram.set (pgdCell c + 0) (pde b c 0 &&& ~~~Mmu.PTE_PRESENT) := by
  obtain ⟨cell, -⟩ := toNat_pgdCell counted
  rw [freePgd, Bpf.ram_memWriteWord, read_pgd b counted, cell, Nat.add_zero]

theorem Housed.freePgd {b : Bpf} (housed : Housed b) {c : Nat} (counted : c < MAX_PROCESSES)
    (other : c ≠ b.state.currentPid.toNat) : Housed (freePgd b (ofNat 8 c)) := by
  have written := ram_freePgd b counted
  have entries {slot k : Nat} (inside : k < 0x400) :=
    @pde_set _ _ housed.ram _ _ _ counted (by decide) written slot k inside
  have cleared : pde b c 0 &&& ~~~Mmu.PTE_PRESENT &&& Mmu.PTE_PRESENT = 0 := by
    rw [BitVec.and_assoc]
    exact and_zero
  have state : (Machine.freePgd b (ofNat 8 c)).state = b.state := Bpf.state_memWriteWord _ _ _
  have tlb : (Machine.freePgd b (ofNat 8 c)).tlb = b.tlb := Bpf.tlb_memWriteWord _ _ _
  refine ⟨?_, ?_, ?_, ?_, ?_, ?_, ?_, ?_⟩
  · rw [written, Store.len_set]
    exact housed.ram
  · intro slot counted' present
    have first := @entries slot 0 (by decide)
    have second := @entries slot 1 (by decide)
    by_cases same : slot = c
    · rw [first, if_pos ⟨same, rfl⟩] at present
      exact absurd cleared present
    · have elsewhere (k : Nat) : ¬ (slot = c ∧ k = 0) := fun both => same both.1
      rw [if_neg (elsewhere _)] at first second
      rw [first] at present ⊢
      rw [second]
      exact housed.leaves slot counted' present
  · intro slot k counted' inside child high
    rw [entries inside]
    split
    · exact cleared
    · exact housed.absent slot k counted' inside child high
  · intro k inside
    rw [entries inside]
    split
    · exact Or.inl cleared
    · exact housed.flat k inside
  · rw [state]
    exact housed.slot
  · rw [state]
    exact housed.base
  · rw [state, entries (by decide), if_neg (fun both => other both.1.symm)]
    exact housed.here
  · rw [tlb, state]
    exact housed.tlb

end Unheaded.Ascend
