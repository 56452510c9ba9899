import Unheaded.Ascend.Fork
import Unheaded.Upc.Flat

/-!
# The memory gate of the loader

Before a guest with per-pid slices is loaded, `check_mmu` computes in 64 bits which slices the
interpreter can map and checks them against RAM and the reserved regions.
-/

namespace Unheaded.Upc

open List
open BitVec (ofNat)

/-- The five words of `UPC_MMU_GEOMETRY`. -/
structure SliceGeometry where
  base : Word
  stride : Word
  sliceLen : Word
  ceiling : Word
  maxPids : Word
  deriving DecidableEq

namespace SliceGeometry

variable (g : SliceGeometry)

def start (pid : Nat) : Nat := g.base.toNat + (pid - 1) * g.stride.toNat

def stop (pid : Nat) : Nat := g.start pid + g.sliceLen.toNat

/-- The pids of children, `1..max_pids`. -/
def children : List Nat := List.range' 1 (g.maxPids.toNat - 1)

/-- The loop of `admitted_slices`, which stops at the first slice over the ceiling. -/
def admittedFrom (g : SliceGeometry) : List Nat → List Nat
  | [] => []
  | pid :: pids =>
    if g.ceiling.toNat < g.start pid + g.stride.toNat then [] else pid :: g.admittedFrom pids

/-- `admitted_slices`, by their pids. -/
def admittedSlices : List Nat := g.admittedFrom g.children

/-- `first_wrapping_slice`, by its pid. -/
def firstWrappingSlice : Option Nat := g.children.find? fun pid =>
    decide (2 ^ 32 < g.start pid + g.stride.toNat) || decide (2 ^ 32 < g.stop pid)

end SliceGeometry

/-- A range of RAM that no slice may overlap. -/
structure MemRegion where
  name : String
  start : Word
  len : Word

def MemRegion.stop (r : MemRegion) : Nat := r.start.toNat + r.len.toNat

structure MmuLayout where
  slices : SliceGeometry
  reserved : List MemRegion

inductive MemoryModel where
  | flat
  | perPidMmu
  deriving DecidableEq

/-- The part of `ValidationError` that the gate returns. -/
inductive GateError where
  | mmuLayoutMismatch (memory : MemoryModel) (hasLayout : Bool)
  | emptySlice
  | maxPidsOutOfRange (maxPids : Word)
  | sliceOverlap (pid start stop : Nat) (other : String) (otherStart otherStop : Nat)
  | sliceOutOfRange (pid start stop ramBytes : Nat)
  | objectGeometryMissing
  | sliceGeometryMismatch (declared object : SliceGeometry)

namespace MmuLayout

/-- The region that a slice overlaps, as the gate tests it. -/
def overlapError (g : SliceGeometry) (pid : Nat) (r : MemRegion) : Option GateError :=
  if r.len ≠ 0 ∧ g.start pid < r.stop ∧ r.start.toNat < g.stop pid then
    some (.sliceOverlap pid (g.start pid) (g.stop pid) r.name r.start.toNat r.stop)
  else none

/-- The check of one slice. -/
def sliceError (layout : MmuLayout) (ramBytes pid : Nat) : Option GateError :=
  let g := layout.slices
  if ramBytes < g.stop pid then some (.sliceOutOfRange pid (g.start pid) (g.stop pid) ramBytes)
  else layout.reserved.findSome? (overlapError g pid)

end MmuLayout

/-- The error for slices that run into each other: the first one, or that of pid 1. -/
def strideError (g : SliceGeometry) : GateError :=
  let pid := g.admittedSlices.headD 1
  .sliceOverlap pid (g.start pid) (g.stop pid) s!"slice of pid {pid + 1}"
    (g.start pid + g.stride.toNat) (g.start pid + g.stride.toNat + g.sliceLen.toNat)

/-- `check_mmu`, with RAM of `ramWords` words and the geometry of the object. -/
def checkMmu (memory : MemoryModel) (mmu : Option MmuLayout) (ramWords : Word)
    (object : Option SliceGeometry) : Except GateError Unit :=
  match memory, mmu with
  | .flat, none => .ok ()
  | .perPidMmu, some layout =>
    let g := layout.slices
    let ramBytes := ramWords.toNat * 4
    if g.sliceLen = 0 then .error .emptySlice
    else if g.maxPids = 0 ∨ 256 < g.maxPids then .error (.maxPidsOutOfRange g.maxPids)
    else
      match g.firstWrappingSlice with
      | some pid => .error (.sliceOutOfRange pid (g.start pid) (g.stop pid) ramBytes)
      | none =>
        if g.stride < g.sliceLen then .error (strideError g)
        else
          match g.admittedSlices.findSome? (layout.sliceError ramBytes) with
          | some e => .error e
          | none =>
            match object with
            | none => .error .objectGeometryMissing
            | some shipped =>
              if shipped ≠ g then .error (.sliceGeometryMismatch g shipped) else .ok ()
  | memory, mmu => .error (.mmuLayoutMismatch memory mmu.isSome)

namespace SliceGeometry

variable (g : SliceGeometry)

/-- `pid_phys_offset` of a child, in the interpreter's 32 bits. -/
def physOffset (pid : Byte) : Word :=
  if pid = 0 then 0 else g.base + (pid.setWidth 32 - 1) * g.stride

/-- The guard of `fork`: there is such a child, and its slice is not over the ceiling. -/
def ForkAdmits (pid : Nat) : Prop := (1 ≤ pid ∧ pid < g.maxPids.toNat) ∧
    ¬ g.ceiling < g.physOffset (ofNat 8 pid) + g.stride

def Maps (pid x : Nat) : Prop := (g.physOffset (ofNat 8 pid)).toNat ≤ x ∧
    x < (g.physOffset (ofNat 8 pid)).toNat + g.sliceLen.toNat

end SliceGeometry

/-- The geometry that the interpreter is built with. -/
def UPC_MMU_GEOMETRY : SliceGeometry where
  base := Ascend.Phase12.USER_CHILD_SLICE
  stride := Ascend.Phase12.SLICE_STRIDE
  sliceLen := Ascend.USER_VA_CEILING
  ceiling := Ascend.Phase12.RAM_ISOLATION_CEILING
  maxPids := ofNat 32 Mbc.MAX_PROCESSES

namespace SliceGeometry

variable {g : SliceGeometry}

variable {pid : Nat}

theorem mem_children : pid ∈ g.children ↔ 1 ≤ pid ∧ pid < g.maxPids.toNat := by
  rw [children, mem_range'_1]
  omega

theorem start_mono {p q : Nat} (le : p ≤ q) : g.start p ≤ g.start q :=
  Nat.add_le_add_left (Nat.mul_le_mul_right _ (Nat.sub_le_sub_right le 1)) _

theorem mem_admittedFrom {pids : List Nat} (ordered : pids.Pairwise (· < ·)) (mem : pid ∈ pids)
    (under : g.start pid + g.stride.toNat ≤ g.ceiling.toNat) : pid ∈ g.admittedFrom pids := by
  induction pids with
  | nil => cases mem
  | cons first rest ih =>
    obtain ⟨below, ordered⟩ := pairwise_cons.mp ordered
    have early : first ≤ pid := by
      rcases mem_cons.mp mem with rfl | later
      · exact Nat.le_refl _
      · exact Nat.le_of_lt (below pid later)
    have mono := g.start_mono early
    rw [admittedFrom, if_neg (by omega)]
    rcases mem_cons.mp mem with rfl | later
    · exact mem_cons_self
    · exact mem_cons_of_mem _ (ih ordered later)

theorem mem_admittedSlices (child : pid ∈ g.children)
    (under : g.start pid + g.stride.toNat ≤ g.ceiling.toNat) : pid ∈ g.admittedSlices :=
  mem_admittedFrom pairwise_lt_range' child under

/-- What holds of a geometry that the gate has accepted. -/
structure Accepted (g : SliceGeometry) (reserved : List MemRegion) (ramBytes : Nat) : Prop where
  filled : 0 < g.sliceLen.toNat
  few : g.maxPids.toNat ≤ 256
  exact_ : ∀ pid ∈ g.children, g.start pid + g.stride.toNat ≤ 2 ^ 32 ∧ g.stop pid ≤ 2 ^ 32
  apart : g.sliceLen.toNat ≤ g.stride.toNat
  checked : ∀ pid ∈ g.admittedSlices, (MmuLayout.mk g reserved).sliceError ramBytes pid = none

end SliceGeometry

theorem accepted_of_checkMmu {memory : MemoryModel} {layout : MmuLayout} {ramWords : Word}
    {object : Option SliceGeometry} (accepted : checkMmu memory (some layout) ramWords object = .ok ()) :
    layout.slices.Accepted layout.reserved (ramWords.toNat * 4) := by
  cases memory with
  | flat => cases accepted
  | perPidMmu =>
    unfold checkMmu at accepted
    dsimp only at accepted
    split at accepted
    next => cases accepted
    next filled =>
    split at accepted
    next => cases accepted
    next pids =>
    split at accepted
    next => cases accepted
    next unwrapped =>
    split at accepted
    next => cases accepted
    next apart =>
    split at accepted
    next => cases accepted
    next checked =>
    obtain ⟨-, few⟩ := not_or.mp pids
    constructor
    · exact Nat.pos_of_ne_zero fun zero => filled (BitVec.eq_of_toNat_eq zero)
    · exact Nat.not_lt.mp few
    · intro pid child
      have kept := List.find?_eq_none.mp unwrapped pid child
      rw [Bool.or_eq_true, decide_eq_true_iff, decide_eq_true_iff, not_or] at kept
      exact ⟨Nat.not_lt.mp kept.1, Nat.not_lt.mp kept.2⟩
    · exact Nat.not_lt.mp apart
    · intro pid admitted
      exact List.findSome?_eq_none_iff.mp checked pid admitted

namespace SliceGeometry

/-- The slice of a pid is inside RAM and shares no byte with a reserved region. -/
structure Clear (g : SliceGeometry) (reserved : List MemRegion) (ramBytes pid : Nat) : Prop where
  inside : ∀ x, g.Maps pid x → x < ramBytes
  reserved : ∀ r ∈ reserved, ∀ x, g.Maps pid x → ¬ (r.start.toNat ≤ x ∧ x < r.stop)

/-- Every slice that `fork` admits is clear, and no two of them share a byte. -/
structure Isolated (g : SliceGeometry) (reserved : List MemRegion) (ramBytes : Nat) : Prop where
  clear : ∀ pid, g.ForkAdmits pid → g.Clear reserved ramBytes pid
  apart : ∀ p q, g.ForkAdmits p → g.ForkAdmits q → p ≠ q → ∀ x, g.Maps p x → ¬ g.Maps q x

section Gate

variable {g : SliceGeometry} {reserved : List MemRegion} {ramBytes : Nat}
  (accepted : g.Accepted reserved ramBytes)

include accepted

variable {pid : Nat}

section

variable (child : pid ∈ g.children)
include child

theorem Accepted.toNat_physOffset : (g.physOffset (ofNat 8 pid)).toNat = g.start pid := by
  obtain ⟨low, high⟩ := mem_children.mp child
  have few := accepted.few
  have value : (ofNat 8 pid).toNat = pid := by
    rw [BitVec.toNat_ofNat, Nat.mod_eq_of_lt (by omega)]
  have nonzero : ofNat 8 pid ≠ 0 := by
    intro zero
    rw [zero] at value
    have none : (0 : Byte).toNat = 0 := rfl
    omega
  have before : ((ofNat 8 pid).setWidth 32 - 1 : Word).toNat = pid - 1 := by
    have wide : ((ofNat 8 pid).setWidth 32 : Word).toNat = pid := by
      rw [BitVec.toNat_setWidth_of_le (by decide), value]
    have one : (1 : Word).toNat = 1 := rfl
    rw [BitVec.toNat_sub]
    omega
  obtain ⟨-, short⟩ := accepted.exact_ pid child
  have filled := accepted.filled
  have room : g.base.toNat + (pid - 1) * g.stride.toNat < 2 ^ 32 := by
    unfold stop start at short
    omega
  have product : (pid - 1) * g.stride.toNat < 2 ^ 32 := by omega
  unfold physOffset
  rw [if_neg nonzero, BitVec.toNat_add, BitVec.toNat_mul, before, Nat.mod_eq_of_lt product,
    Nat.mod_eq_of_lt room]
  rfl

theorem Accepted.maps_iff (x : Nat) : g.Maps pid x ↔ g.start pid ≤ x ∧ x < g.stop pid := by
  rw [Maps, accepted.toNat_physOffset child]
  rfl

theorem Accepted.admitted_cases :
    g.ForkAdmits pid ↔ g.start pid + g.stride.toNat ≤ g.ceiling.toNat ∨
      g.start pid + g.stride.toNat = 2 ^ 32 := by
  obtain ⟨fits, -⟩ := accepted.exact_ pid child
  have top : (g.physOffset (ofNat 8 pid) + g.stride).toNat =
      (g.start pid + g.stride.toNat) % 2 ^ 32 := by
    rw [BitVec.toNat_add, accepted.toNat_physOffset child]
  have guard : ¬ g.ceiling < g.physOffset (ofNat 8 pid) + g.stride ↔
      (g.start pid + g.stride.toNat) % 2 ^ 32 ≤ g.ceiling.toNat := by
    rw [← top]
    exact Nat.not_lt
  rw [ForkAdmits, guard]
  refine ⟨fun admits => ?_, fun cases => ⟨mem_children.mp child, ?_⟩⟩
  · rcases Nat.lt_or_eq_of_le fits with below | equal
    · rw [Nat.mod_eq_of_lt below] at admits
      exact .inl admits.2
    · exact .inr equal
  · rcases cases with under | equal
    · rw [Nat.mod_eq_of_lt (by omega)]
      exact under
    · rw [equal]
      exact Nat.zero_le _

theorem Accepted.clear_of_checked (under : g.start pid + g.stride.toNat ≤ g.ceiling.toNat) : g.Clear reserved ramBytes pid := by
  have checked := accepted.checked pid (mem_admittedSlices child under)
  unfold MmuLayout.sliceError at checked
  dsimp only at checked
  split at checked
  next => cases checked
  next inside =>
  constructor
  · intro x maps
    rw [accepted.maps_iff child] at maps
    omega
  · intro r listed x maps
    have kept := List.findSome?_eq_none_iff.mp checked r listed
    unfold MmuLayout.overlapError at kept
    split at kept
    next => cases kept
    next clear =>
    rw [accepted.maps_iff child] at maps
    rintro ⟨low, high⟩
    have filled : r.len ≠ 0 := by
      rintro empty
      rw [MemRegion.stop, empty] at high
      have none : (0 : Word).toNat = 0 := rfl
      omega
    exact clear ⟨filled, by omega, by omega⟩

end

theorem Accepted.apart_children {p q : Nat} (childP : p ∈ g.children) (childQ : q ∈ g.children)
    (ne : p ≠ q) (x : Nat) (maps : g.Maps p x) : ¬ g.Maps q x := by
  have step : ∀ {a b : Nat}, 1 ≤ a → a < b → g.stop a ≤ g.start b := by
    intro a b low less
    have apart := accepted.apart
    have strides : (a - 1) * g.stride.toNat + g.stride.toNat ≤ (b - 1) * g.stride.toNat := by
      rw [← Nat.succ_mul]
      exact Nat.mul_le_mul_right _ (by omega)
    unfold stop start
    omega
  rw [accepted.maps_iff childP] at maps
  rw [accepted.maps_iff childQ]
  rintro ⟨low, high⟩
  rcases Nat.lt_or_gt_of_ne ne with less | more
  · have before := step (mem_children.mp childP).1 less
    omega
  · have before := step (mem_children.mp childQ).1 more
    omega

end Gate

end SliceGeometry

/-- Where the gate accepts a layout, the slices that the interpreter admits are isolated exactly if
the slice that ends at the top of the 32-bit space, if there is one, is clear. -/
theorem gate_isolates_iff {memory : MemoryModel} {layout : MmuLayout} {ramWords : Word}
    {object : Option SliceGeometry}
    (passed : checkMmu memory (some layout) ramWords object = .ok ()) :
    layout.slices.Isolated layout.reserved (ramWords.toNat * 4) ↔
      ∀ pid, 1 ≤ pid → pid < layout.slices.maxPids.toNat →
        layout.slices.base.toNat + pid * layout.slices.stride.toNat = 2 ^ 32 →
          layout.slices.Clear layout.reserved (ramWords.toNat * 4) pid := by
  have accepted := accepted_of_checkMmu passed
  have top : ∀ pid, 1 ≤ pid → layout.slices.start pid + layout.slices.stride.toNat =
      layout.slices.base.toNat + pid * layout.slices.stride.toNat := by
    intro pid low
    obtain ⟨k, rfl⟩ := Nat.exists_eq_add_of_le' low
    rw [SliceGeometry.start, Nat.add_sub_cancel, Nat.add_assoc, Nat.succ_mul]
  constructor
  · intro isolated pid low high equal
    have child := SliceGeometry.mem_children.mpr ⟨low, high⟩
    refine isolated.clear pid ((accepted.admitted_cases child).mpr (.inr ?_))
    rw [top pid low, equal]
  · intro clear
    constructor
    · intro pid admits
      have child := SliceGeometry.mem_children.mpr admits.1
      rcases (accepted.admitted_cases child).mp admits with under | equal
      · exact accepted.clear_of_checked child under
      · rw [top pid admits.1.1] at equal
        exact clear pid admits.1.1 admits.1.2 equal
    · intro p q admitsP admitsQ ne
      exact accepted.apart_children (SliceGeometry.mem_children.mpr admitsP.1)
        (SliceGeometry.mem_children.mpr admitsQ.1) ne

/-- The geometry of the object passes in 64 MiB of RAM. -/
theorem gate_isolates_object :
    checkMmu .perPidMmu (some ⟨UPC_MMU_GEOMETRY, []⟩) 0x1000000 (some UPC_MMU_GEOMETRY) = .ok () ∧
      UPC_MMU_GEOMETRY.Isolated [] ((0x1000000 : Word).toNat * 4) := by
  have passed : checkMmu .perPidMmu (some ⟨UPC_MMU_GEOMETRY, []⟩) 0x1000000
      (some UPC_MMU_GEOMETRY) = .ok () := rfl
  refine ⟨passed, (gate_isolates_iff passed).mpr ?_⟩
  intro pid low high equal
  have base : UPC_MMU_GEOMETRY.base.toNat = 0x1000000 := rfl
  have stride : UPC_MMU_GEOMETRY.stride.toNat = 0x800000 := rfl
  have pids : UPC_MMU_GEOMETRY.maxPids.toNat = 8 := rfl
  rw [base, stride] at equal
  rw [pids] at high
  omega

def topmost : SliceGeometry where
  base := 0xFF800000
  stride := 0x00800000
  sliceLen := 0x00800000
  ceiling := 0x03800000
  maxPids := 2

/-- Its slice passes the gate and the guard of `fork`, but lies far outside of the 64 MiB of RAM. -/
theorem topmost_slice_admitted :
    checkMmu .perPidMmu (some ⟨topmost, []⟩) 0x1000000 (some topmost) = .ok () ∧
      topmost.ForkAdmits 1 ∧ ¬ topmost.Isolated [] ((0x1000000 : Word).toNat * 4) := by
  have admits : topmost.ForkAdmits 1 := by
    constructor
    · decide
    · decide
  refine ⟨rfl, admits, ?_⟩
  intro isolated
  have inside := (isolated.clear 1 admits).inside 0xFF800000 (by
    constructor
    · decide
    · decide)
  exact absurd inside (by decide)

end Unheaded.Upc
