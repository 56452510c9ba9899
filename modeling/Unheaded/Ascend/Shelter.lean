import Unheaded.Ascend.UserWrites

/-!
# Sheltered processes

Every live slot has the directory that `fork` built for it, and a row that names this directory
for the switch to load.
-/

namespace Unheaded.Ascend

open Lib Mbc Fdtable Phase12 Machine Store Machine
open BitVec (ofNat)

def Outside (i : Nat) : Prop := ¬ InDirectories i

instance (i : Nat) : Decidable (Outside i) := inferInstanceAs (Decidable (¬ _))

theorem outside_of_low (i : Nat) (low : i < 0x40000) : Outside i := by
  unfold Outside InDirectories
  omega

theorem pde_within {b c : Bpf} (ram : b.ram.Within Outside c.ram) {slot k : Nat}
    (counted : slot < MAX_PROCESSES) (inside : k < 0x400) : pde c slot k = pde b slot k := by
  have below : slot < 8 := counted
  refine ram.getD ?_ 0
  unfold Outside InDirectories pgdCell
  omega

namespace Machine

def row (m : Machine) (p : Nat) : ProcRow := m.procTable.getD p default

/-- The running slot is housed, and so will be every live slot when it runs. -/
structure Lodged (m : Machine) : Prop where
  housed : Housed m.cpu
  few : m.slots.count ≤ MAX_PROCESSES
  table : m.procTable.len = MAX_PROCESSES
  rows : ∀ p, m.slots.Live p → p ≠ m.pid.toNat →
    (m.row p).pageDirBase = pgdBaseForPid (ofNat 8 p)
  mapped : ∀ p, m.slots.Live p → p ≠ 0 → pde m.cpu p 0 &&& Mmu.PTE_PRESENT ≠ 0

structure Sheltered (m : Machine) : Prop where
  slotted : m.Slotted
  lodged : m.Lodged

/-! ## Steps that leave the directories alone -/

/-- Slots, rows and directories are what they were. -/
structure Lodges (m m' : Machine) : Prop where
  rests : m.Rests m'
  rows : m'.procTable = m.procTable
  entries : ∀ slot k, slot < MAX_PROCESSES → k < 0x400 → pde m'.cpu slot k = pde m.cpu slot k
  housed : Housed m.cpu → Housed m'.cpu

theorem lodges_allows : Allows Lodges Outside where
  refl m := ⟨.refl m, rfl, fun _ _ _ _ => rfl, id⟩
  trans first second := ⟨first.rests.trans second.rests, second.rows.trans first.rows,
      fun slot k counted inside =>
        (second.entries slot k counted inside).trans (first.entries slot k counted inside),
      fun housed => second.housed (first.housed housed)⟩
  cpu {m b} owner tlb ram := ⟨rests_allows.cpu owner tlb (ram.mono fun _ _ => trivial), rfl,
      fun slot k counted inside => pde_within (b := m.cpu) (c := b) ram counted inside,
      fun housed => housed.congr ram tlb (congrArg Owner.currentPid owner)
        (congrArg Owner.pageDirBase owner)⟩
  translate m va := ⟨rests_allows.translate m va, rfl,
      fun slot k _ _ => by
        unfold pde withCpu
        rw [Bpf.ram_translateAddress],
      fun housed => (housed.translate va).2⟩
  halt m := ⟨rests_allows.halt m, rfl, fun _ _ _ _ => rfl, fun housed =>
      housed.congr (.refl _ _) rfl rfl rfl⟩
  kinds m t len := ⟨rests_allows.kinds m t len, rfl, fun _ _ _ _ => rfl, id⟩
  inodes m t len := ⟨rests_allows.inodes m t len, rfl, fun _ _ _ _ => rfl, id⟩
  keys m tail := ⟨rests_allows.keys m tail, rfl, fun _ _ _ _ => rfl, id⟩

variable {m m' : Machine} {c p : Nat}

theorem Rests.live (rests : m.Rests m') (live : m'.slots.Live p) : m.slots.Live p := by
  obtain ⟨counted, alive⟩ := live
  refine ⟨?_, ?_⟩
  · exact counted.trans_eq (congrArg BitVec.toNat rests.processes)
  · rw [← alive]
    change m.isHalted p = m'.isHalted p
    rw [isHalted, isHalted, rests.sched]

theorem Lodged.lodges (lodged : m.Lodged) (lodges : m.Lodges m') : m'.Lodged := by
  have rests := lodges.rests
  refine ⟨lodges.housed lodged.housed, ?_, ?_, ?_, ?_⟩
  · exact (congrArg BitVec.toNat rests.processes).trans_le lodged.few
  · rw [lodges.rows]
    exact lodged.table
  · intro p live other
    rw [row, lodges.rows]
    exact lodged.rows p (rests.live live) (by rwa [← rests.pid])
  · intro p live child
    have alive := rests.live live
    rw [lodges.entries p 0 (alive.1.trans_le lodged.few) (by decide)]
    exact lodged.mapped p alive child

theorem Sheltered.lodges (sheltered : m.Sheltered) (lodges : m.Lodges m') : m'.Sheltered :=
  ⟨lodges.rests.lives.slotted sheltered.slotted, sheltered.lodged.lodges lodges⟩

/-! ## fork -/

variable {b : Bpf}

theorem pde_buildPgd (ram : b.ram.len = RAM_MAP_WORDS) (counted : c < MAX_PROCESSES) {slot k : Nat}
    (inside : k < 0x400) :
    pde (buildPgd b (ofNat 8 c)) slot k =
      if slot = c ∧ k < 2 then leaf c k else pde b slot k := by
  have first : (buildPgd b (ofNat 8 c)).ram =
      (b.ram.set (pgdCell c + 0) (leaf c 0)).set (pgdCell c + 1) (leaf c 1) := by
    rw [ram_buildPgd b counted]
    unfold leaf
    congr 2
    simp
  have half := @pde_set b (b.withRam (b.ram.set (pgdCell c + 0) (leaf c 0))) ram c 0 (leaf c 0)
    counted (by decide) rfl slot k inside
  have whole := @pde_set (b.withRam (b.ram.set (pgdCell c + 0) (leaf c 0)))
    (buildPgd b (ofNat 8 c)) ((len_set _ _ _).trans ram) c 1 (leaf c 1)
    counted (by decide) first slot k inside
  rw [whole, half]
  by_cases same : slot = c
  · match k, inside with
    | 0, _ => simp [same]
    | 1, _ => simp [same]
    | k + 2, _ => simp [same]
  · simp [same]

theorem housed_buildPgd (housed : Housed b) (counted : c < MAX_PROCESSES) (pos : 1 ≤ c) :
    Housed (buildPgd b (ofNat 8 c)) := by
  have entries {slot k : Nat} (inside : k < 0x400) :=
    @pde_buildPgd _ _ housed.ram counted slot k inside
  have state : (buildPgd b (ofNat 8 c)).state = b.state := by
    rw [buildPgd, Bpf.state_memWriteWord, Bpf.state_memWriteWord]
  have tlb : (buildPgd b (ofNat 8 c)).tlb = b.tlb := by
    rw [buildPgd, Bpf.tlb_memWriteWord, Bpf.tlb_memWriteWord]
  refine ⟨?_, ?_, ?_, ?_, ?_, ?_, ?_, ?_⟩
  · rw [ram_buildPgd b counted, len_set, len_set]
    exact housed.ram
  · intro slot counted' present
    rw [entries (by decide)] at present
    rw [entries (by decide), entries (by decide)]
    by_cases same : slot = c
    · subst same
      rw [if_pos ⟨rfl, by decide⟩, if_pos ⟨rfl, by decide⟩]
      exact ⟨rfl, rfl⟩
    · have elsewhere (k : Nat) : ¬ (slot = c ∧ k < 2) := fun both => same both.1
      rw [if_neg (elsewhere _)] at present
      rw [if_neg (elsewhere _), if_neg (elsewhere _)]
      exact housed.leaves slot counted' present
  · intro slot k counted' inside child high
    have elsewhere : ¬ (slot = c ∧ k < 2) := by omega
    rw [entries inside, if_neg elsewhere]
    exact housed.absent slot k counted' inside child high
  · intro k inside
    have elsewhere : ¬ (0 = c ∧ k < 2) := by omega
    rw [entries inside, if_neg elsewhere]
    exact housed.flat k inside
  · rw [state]
    exact housed.slot
  · rw [state]
    exact housed.base
  · intro child
    rw [state] at child ⊢
    rw [entries (by decide)]
    split
    · next both =>
      exact (leaf_spec counted (Or.inl both.2)).1
    · exact housed.here child
  · rw [tlb, state]
    exact housed.tlb

theorem copyForkChunk_writes (b : Bpf) (child : Byte) (cursor : Word) :
    Bpf.Writes (InSlice child) b (copyForkChunk b child cursor) := by
  refine Bpf.Writes.foldl ?_ b
  intro b w _
  unfold copyForkWord
  dsimp only
  split
  · split
    · next inside =>
      refine (Bpf.Writes.refl _ b).set ?_ _
      have aligned := sliceBase_mod child.toNat
      have bound : (USER_SLICE_BYTES >>> 2).toNat = 0x180000 := rfl
      rw [BitVec.lt_def] at inside
      have base : (pidPhysOffset child >>> 2).toNat = sliceBase child.toNat / 4 := by
        rw [BitVec.toNat_ushiftRight, Nat.shiftRight_eq_div_pow, toNat_pidPhysOffset]
      rw [InSlice, InSliceByte, BitVec.toNat_add]
      omega
    · exact .refl _ _
  · exact .refl _ _

theorem copyTick_lodged (lodged : m.Lodged) (counted : c < MAX_PROCESSES) (pos : 1 ≤ c)
    (free : ¬ m.slots.Live c) : (m.copyTick (ofNat 8 c)).Lodged ∧
      pde (m.copyTick (ofNat 8 c)).cpu c 0 &&& Mmu.PTE_PRESENT ≠ 0 := by
  have begun : (m.beginFork (ofNat 8 c)).Lodged ∧
      pde (m.beginFork (ofNat 8 c)).cpu c 0 &&& Mmu.PTE_PRESENT ≠ 0 := by
    rw [beginFork, read_pgd m.cpu counted]
    split
    · have state : (buildPgd m.cpu (ofNat 8 c)).state = m.cpu.state := by
        rw [buildPgd, Bpf.state_memWriteWord, Bpf.state_memWriteWord]
      have rests : m.Rests (m.withCpu (buildPgd m.cpu (ofNat 8 c))) := .of_state state
      have built : (m.withCpu (buildPgd m.cpu (ofNat 8 c))).Lodged := by
        refine ⟨housed_buildPgd lodged.housed counted pos, ?_, lodged.table, ?_, ?_⟩
        · exact (congrArg BitVec.toNat rests.processes).trans_le lodged.few
        · intro p live other
          exact lodged.rows p (rests.live live) (by rwa [← rests.pid])
        · intro p live child
          have alive := rests.live live
          have other : ¬ (p = c ∧ 0 < 2) := by
            rintro ⟨rfl, -⟩
            exact free alive
          change pde (buildPgd m.cpu (ofNat 8 c)) p 0 &&& _ ≠ 0
          rw [pde_buildPgd lodged.housed.ram counted (by decide), if_neg other]
          exact lodged.mapped p alive child
      refine ⟨built.lodges (lodges_allows.setReg (lodges_allows.refl _) _ _), ?_⟩
      change pde (buildPgd m.cpu (ofNat 8 c)) c 0 &&& _ ≠ 0
      rw [pde_buildPgd lodged.housed.ram counted (by decide), if_pos ⟨rfl, by decide⟩]
      exact (leaf_spec counted (Or.inl (by decide))).1
    · next present => exact ⟨lodged, present⟩
  unfold copyTick
  generalize m.beginFork (ofNat 8 c) = t at begun ⊢
  have written := copyForkChunk_writes t.cpu (ofNat 8 c) t.a2
  have lodges := lodges_allows.writes ⟨written.state, written.tlb,
      written.ram.mono fun _ inside => inside.not_directories⟩
  refine ⟨begun.1.lodges lodges, ?_⟩
  rw [lodges.entries c 0 counted (by decide)]
  exact begun.2

theorem Lodged.enrol (lodged : m.Lodged) (counted : c < MAX_PROCESSES) (next : c ≤ m.slots.count)
    (parents : m.parentOf.len = MAX_PROCESSES)
    (entered : (m.row c).pageDirBase = pgdBaseForPid (ofNat 8 c))
    (present : pde m.cpu c 0 &&& Mmu.PTE_PRESENT ≠ 0) : (m.enrol c).Lodged := by
  have born := slots_enrol counted parents
  have living {p : Nat} (live : (m.enrol c).slots.Live p) (other : p ≠ c) : m.slots.Live p := by
    rw [born] at live
    obtain ⟨below, alive⟩ := live
    have same : (m.slots.born c).halted p = m.slots.halted p := Function.update_of_ne other _ _
    refine ⟨?_, same ▸ alive⟩
    rcases lt_max_iff.mp below with old | new
    · exact old
    · exact Nat.lt_of_lt_of_le (Nat.lt_of_le_of_ne (Nat.le_of_lt_succ new) other) next
  refine ⟨?_, ?_, lodged.table, ?_, ?_⟩
  · exact lodged.housed.congr (.refl _ _) rfl rfl rfl
  · rw [born]
    exact max_le lodged.few counted
  · intro p live other
    by_cases same : p = c
    · subst same
      exact entered
    · exact lodged.rows p (living live same) other
  · intro p live child
    by_cases same : p = c
    · subst same
      exact present
    · exact lodged.mapped p (living live same) child

theorem markFresh_writes (tables : TablesIn Outside b) (c : Nat) :
    Bpf.Writes Outside b (markFresh b c) := by
  unfold markFresh
  split
  · next published =>
    exact (Bpf.Writes.refl _ b).memWriteWord (tables published _ (by decide)) _
  · exact .refl _ _

def withRow (m : Machine) (c : Nat) : Machine :=
  { m with procTable := m.procTable.set c (m.childRow (ofNat 8 c)) }

theorem Lodged.withRow (lodged : m.Lodged) (free : ¬ m.slots.Live c) : (m.withRow c).Lodged := by
  refine ⟨lodged.housed, lodged.few, (len_set _ _ _).trans lodged.table, ?_, lodged.mapped⟩
  intro p live other
  have apart : p ≠ c := by
    rintro rfl
    exact free live
  rw [row, Machine.withRow, getD_set_of_ne _ apart]
  exact lodged.rows p live other

theorem row_withRow (inside : c < m.procTable.len) : (m.withRow c).row c = m.childRow (ofNat 8 c) :=
  getD_set_self _ inside _ _

theorem inheritFds_lodges (m : Machine) (child : Byte) : m.Lodges (m.inheritFds child) := by
  have folded (fds : List Nat) {t : Machine} (so : m.Lodges t) : m.Lodges
      (fds.foldl (fun m fd => m.fdSetKind child (ofNat 32 fd)
        (m.fdKind m.pid (ofNat 32 fd))) t) := by
    induction fds generalizing t with
    | nil => exact so
    | cons fd fds ih => exact ih (lodges_allows.fdSetKind so _ _ _)
  exact folded _ (lodges_allows.refl m)

theorem finishFork_eq (m : Machine) (c : Nat) : m.finishFork c =
      let t := (m.withRow c).inheritFds (ofNat 8 c)
      let u := (t.withCpu (markFresh t.cpu c)).enrol c
      if slotTables t.cpu ≠ 0 then
        let u := (u.setReg 1 SYS_UPC_FORKNOTE).setReg 8 (ofNat 32 c)
        u.withPc (u.cpu.state.pc - 1)
      else u.setReg 8 (ofNat 32 c + 1) := rfl

theorem finishFork_lodged (lodged : m.Lodged) (counted : c < MAX_PROCESSES)
    (next : c ≤ m.slots.count) (free : ¬ m.slots.Live c) (parents : m.parentOf.len = MAX_PROCESSES)
    (tables : TablesIn Outside m.cpu) (present : pde m.cpu c 0 &&& Mmu.PTE_PRESENT ≠ 0) :
    (m.finishFork c).Lodged := by
  have inherited := inheritFds_lodges (m.withRow c) (ofNat 8 c)
  have cpu := (inheritFds_keeps (m.withRow c) (ofNat 8 c)).1
  have lodged' := (lodged.withRow free).lodges inherited
  have own : (((m.withRow c).inheritFds (ofNat 8 c)).row c).pageDirBase =
      pgdBaseForPid (ofNat 8 c) := by
    rw [row]
    change ((m.withRow c).row c).pageDirBase = _
    rw [row_withRow (by rw [lodged.table]; exact counted)]
    rfl
  have parents' := (congrArg len inherited.rests.parentOf).trans parents
  have count : ((m.withRow c).inheritFds (ofNat 8 c)).slots.count = m.slots.count :=
    congrArg BitVec.toNat inherited.rests.processes
  rw [finishFork_eq]
  dsimp only
  generalize (m.withRow c).inheritFds (ofNat 8 c) = t at cpu lodged' own parents' count ⊢
  have marked := lodges_allows.writes (markFresh_writes (by rw [cpu]; exact tables) c)
  have enrolled : ((t.withCpu (markFresh t.cpu c)).enrol c).Lodged := by
    refine (lodged'.lodges marked).enrol counted ?_ parents' ?_ ?_
    · have same : (t.withCpu (markFresh t.cpu c)).slots.count = t.slots.count :=
        congrArg BitVec.toNat marked.rests.processes
      rw [same, count]
      exact next
    · exact own
    · rw [marked.entries c 0 counted (by decide), cpu]
      exact present
  split
  · exact enrolled.lodges (lodges_allows.withPc
      (lodges_allows.setReg (lodges_allows.setReg (lodges_allows.refl _) _ _) _ _) _)
  · exact enrolled.lodges (lodges_allows.setReg (lodges_allows.refl _) _ _)

theorem slotTables_copyTick (m : Machine) (counted : c < MAX_PROCESSES) (pos : 1 ≤ c) :
    slotTables (m.copyTick (ofNat 8 c)).cpu = slotTables m.cpu := by
  have below : c < 8 := counted
  have plain (b : Bpf) : slotTables b = b.ram.getD 0x58 0 := rfl
  have begun : slotTables (m.beginFork (ofNat 8 c)).cpu = slotTables m.cpu := by
    unfold beginFork
    split
    · change slotTables (buildPgd m.cpu (ofNat 8 c)) = _
      rw [plain, plain, ram_buildPgd _ counted, getD_set_of_ne _ (by unfold pgdCell; omega),
        getD_set_of_ne _ (by unfold pgdCell; omega)]
    · rfl
  rw [← begun]
  unfold copyTick
  generalize m.beginFork (ofNat 8 c) = t
  rw [plain]
  refine (copyForkChunk_writes t.cpu (ofNat 8 c) t.a2).ram.getD ?_ 0
  have number : (ofNat 8 c).toNat = c := by
    rw [BitVec.toNat_ofNat]
    omega
  rw [InSlice, InSliceByte, sliceBase, if_neg (by omega)]
  omega

theorem sysFork_lodged (sheltered : m.Sheltered) (tables : TablesIn Outside m.cpu) :
    m.sysFork.machine.Lodged := by
  have lodged := sheltered.lodged
  unfold sysFork
  split
  · exact lodged.lodges (lodges_allows.answer (lodges_allows.refl m) FAILED)
  · next c free =>
    obtain ⟨pos, counted, -⟩ := forkChild_spec free
    obtain ⟨next, unused⟩ :=
      forkChild_free free (Nat.zero_lt_of_lt sheltered.slotted.formed.counted)
    obtain ⟨copied, present⟩ := copyTick_lodged lodged counted pos unused.not_live
    have rests := copyTick_rests m (ofNat 8 c)
    have published := slotTables_copyTick m counted pos
    dsimp only
    generalize m.copyTick (ofNat 8 c) = t at copied present rests published ⊢
    split
    · exact copied.lodges (lodges_allows.again (lodges_allows.setReg (lodges_allows.refl t) _ _)).1
    · refine finishFork_lodged copied counted ?_
        (fun live => unused.not_live (rests.live live)) ?_ ?_ present
      · exact next.trans_eq (congrArg BitVec.toNat rests.processes).symm
      · rw [rests.parentOf]
        exact sheltered.slotted.table
      · rw [TablesIn, published]
        exact tables

/-! ## wait -/

theorem translate_fst (housed : Housed b) (va : Word) : (b.translateAddress va).1 =
      if b.state.mmuEnabled = 0 ∨ b.state.privLevel ≠ 3 then va
      else physical b.state.currentPid va := by
  split
  · next flat =>
    rw [Bpf.translateAddress, if_pos flat]
  · next paged =>
    rw [not_or, not_not] at paged
    exact (housed.translate va).1 paged.1 paged.2

/-- The status word of `wait` is in `P`. -/
def StatusIn (P : Nat → Prop) (m : Machine) : Prop :=
  m.a0 ≠ 0 → P ((m.cpu.translateAddress m.a0).1 >>> 2).toNat

theorem freePgd_lodged (lodged : m.Lodged) (counted : c < MAX_PROCESSES) (other : c ≠ m.pid.toNat)
    (ended : ¬ m.slots.Live c) : (m.withCpu (freePgd m.cpu (ofNat 8 c))).Lodged := by
  have rests : m.Rests (m.withCpu (freePgd m.cpu (ofNat 8 c))) :=
    .of_state (Bpf.state_memWriteWord _ _ _)
  refine ⟨lodged.housed.freePgd counted other, ?_, lodged.table, ?_, ?_⟩
  · exact (congrArg BitVec.toNat rests.processes).trans_le lodged.few
  · intro p live elsewhere
    exact lodged.rows p (rests.live live) (by rwa [← rests.pid])
  · intro p live child
    have alive := rests.live live
    have apart : ¬ (p = c ∧ 0 = 0) := by
      rintro ⟨rfl, -⟩
      exact ended alive
    change pde (freePgd m.cpu (ofNat 8 c)) p 0 &&& _ ≠ 0
    rw [pde_set lodged.housed.ram counted (by decide) (ram_freePgd m.cpu counted) (by decide),
      if_neg apart]
    exact lodged.mapped p alive child

theorem reap_lodged (lodged : m.Lodged) (found : m.waited = some c) (status : StatusIn Outside m) :
    (m.reap c).Lodged := by
  obtain ⟨other, counted⟩ := waited_ne found
  obtain ⟨zombie, -⟩ := waited_zombie found
  have ended : ¬ m.slots.Live c := fun live => Bool.noConfusion (live.2.symm.trans zombie.2.1)
  have freed := freePgd_lodged lodged counted other ended
  have state : (freePgd m.cpu (ofNat 8 c)).state = m.cpu.state :=
    Bpf.state_memWriteWord _ _ _
  have written : (m.withCpu (freePgd m.cpu (ofNat 8 c))).Lodges
      (m.withCpu (writeStatus (freePgd m.cpu (ofNat 8 c))
        ((freePgd m.cpu (ofNat 8 c)).state.regs 8))) := by
    rw [state]
    have address : ((freePgd m.cpu (ofNat 8 c)).translateAddress m.a0).1 =
        (m.cpu.translateAddress m.a0).1 := by
      have housed : Housed (freePgd m.cpu (ofNat 8 c)) := freed.housed
      rw [translate_fst housed, translate_fst lodged.housed, state]
    change Lodges _ (m.withCpu (writeStatus (freePgd m.cpu (ofNat 8 c)) m.a0))
    generalize freePgd m.cpu (ofNat 8 c) = b at address ⊢
    unfold writeStatus
    split
    · next asked =>
      dsimp only
      refine lodges_allows.trans (lodges_allows.translate (m.withCpu b) m.a0) ?_
      refine lodges_allows.writes (m := m.withCpu (b.translateAddress m.a0).2) ?_
      refine (Bpf.Writes.refl Outside _).memWriteWord ?_ 0
      rw [address]
      exact status asked
    · exact lodges_allows.refl _
  have lodged' := freed.lodges written
  exact ⟨lodged'.housed, lodged'.few, lodged'.table, lodged'.rows, lodged'.mapped⟩

theorem sysWait_lodged (lodged : m.Lodged) (status : StatusIn Outside m) :
    m.sysWait.machine.Lodged := by
  cases found : m.waited with
  | some c =>
    rw [sysWait_waited found]
    exact (reap_lodged lodged found status).lodges (lodges_allows.answer (lodges_allows.refl _) _)
  | none =>
    unfold sysWait
    split
    · next child mask scan =>
      rw [waited, scan] at found
      cases found
    · split
      · exact lodged.lodges (lodges_allows.withPc (lodges_allows.refl m) _)
      · exact lodged.lodges (lodges_allows.answer (lodges_allows.refl m) FAILED)

/-! ## Instructions -/

/-- The words that a call writes are in `P`. -/
def CallKeeps (P : Nat → Prop) (m : Machine) : Prop :=
  CallIn P m ∧ ((kernelRoutedAlias m.cpu m.a7).toNat = 1 → TablesIn P m.cpu) ∧
    ((kernelRoutedAlias m.cpu m.a7).toNat = 3 → StatusIn P m)

/-- The words that an instruction, or the call that it makes, writes are in `P`. -/
def InstructionKeeps (P : Nat → Prop) (m : Machine) (w : Word) : Prop :=
  if MbcInsn.opcode? w = some .syscall then m.CallKeeps P
  else ∀ a ∈ m.cpu.accesses w, P (a.word m.cpu).toNat

theorem ecall_lodged (sheltered : m.Sheltered) (keeps : m.CallKeeps Outside) (imm : Word) :
    (m.ecall imm).machine.Lodged := by
  obtain ⟨inside, fork, wait⟩ := keeps
  by_cases forks : (kernelRoutedAlias m.cpu m.a7).toNat = 1
  · rw [ecall, forks]
    exact sysFork_lodged sheltered (fork forks)
  · by_cases waits : (kernelRoutedAlias m.cpu m.a7).toNat = 3
    · rw [ecall, waits]
      exact sysWait_lodged sheltered.lodged (wait waits)
    · exact sheltered.lodged.lodges (lodges_allows.ecall outside_of_low
        (fun _ slice => slice.not_directories) inside forks waits).machine

theorem execute_lodged {w : Word} (sheltered : m.Sheltered) (keeps : m.InstructionKeeps Outside w) :
    (m.execute w).machine.Lodged := by
  unfold InstructionKeeps at keeps
  by_cases call : MbcInsn.opcode? w = some .syscall
  · rw [if_pos call] at keeps
    rw [execute_syscall call]
    exact ecall_lodged sheltered keeps _
  · rw [if_neg call] at keeps
    exact sheltered.lodged.lodges (lodges_allows.execute outside_of_low call keeps).machine

/-! ## The loop -/

/-- The frame of an interrupt that is taken before the next instruction is in
`P`. -/
def FrameIn (P : Nat → Prop) (m : Machine) : Prop :=
  m.cpu.state.interruptPending ≠ 0 ∧ m.cpu.state.interruptsEnabled ≠ 0 →
    P ((m.cpu.state.regs REG_SP - 4) >>> 2).toNat ∧
      P ((m.cpu.state.regs REG_SP - 4 - 4) >>> 2).toNat

def fetched (m : Machine) : Option (Machine × Word) :=
  let b := m.cpu.dispatchInterrupt.tracePc
  b.fetch.map fun w => (m.withCpu (b.withPc (b.state.pc + 1)), w)

theorem begins_lodges (frame : m.FrameIn Outside) :
    m.Lodges (m.withCpu m.cpu.dispatchInterrupt.tracePc) :=
  lodges_allows.trans (lodges_allows.dispatchInterrupt frame)
    (lodges_allows.tracePc (m := m.withCpu m.cpu.dispatchInterrupt) outside_of_low)

theorem fetched_lodges {t : Machine} {w : Word} (frame : m.FrameIn Outside)
    (next : m.fetched = some (t, w)) : m.Lodges t := by
  obtain ⟨word, -, same⟩ := Option.map_eq_some_iff.mp next
  cases same
  exact lodges_allows.withPc (begins_lodges frame) _

def IterationKeeps (P : Nat → Prop) (m : Machine) : Prop :=
  m.FrameIn P ∧ ∀ t w, m.fetched = some (t, w) → t.InstructionKeeps P w

theorem iterate_sheltered (sheltered : m.Sheltered) (on : m.cpu.state.halted = 0)
    (keeps : m.IterationKeeps Outside) : m.iterate.machine.Sheltered := by
  have running := bne_eq_false_iff_eq.mpr on
  refine ⟨(iterate_steps sheltered.slotted running).slotted sheltered.slotted, ?_⟩
  have begun := begins_lodges keeps.1
  unfold iterate
  dsimp only
  cases fetch : m.cpu.dispatchInterrupt.tracePc.fetch with
  | none => exact sheltered.lodged.lodges (lodges_allows.setHalted begun)
  | some w =>
    have next : m.fetched = some (m.withCpu (m.cpu.dispatchInterrupt.tracePc.withPc
        (m.cpu.dispatchInterrupt.tracePc.state.pc + 1)), w) := by
      unfold fetched
      dsimp only
      rw [fetch]
      rfl
    have executed := execute_lodged (sheltered.lodges (fetched_lodges keeps.1 next))
      (keeps.2 _ w next)
    dsimp only
    generalize execute _ w = arm at executed ⊢
    cases arm with
    | next m' => exact executed.lodges (lodges_allows.state rfl rfl rfl)
    | leave m' req => exact executed

/-! ## After the loop -/

theorem readReply_lodges (tables : TablesIn Outside m.cpu) (req : Requests) :
    m.Lodges (m.readReply req).1 := by
  unfold readReply
  split
  · next r tagged =>
    have published : slotTables m.cpu ≠ 0 := by
      intro zero
      unfold taggedReply at tagged
      rw [if_pos zero] at tagged
      cases tagged
    have cleared : m.Lodges (m.withCpu (m.cpu.memWriteWord
        ((slotTables m.cpu + UPC_ST_REPLY_OFF) >>> 2) 0)) :=
      lodges_allows.writes ((Bpf.Writes.refl Outside _).memWriteWord
        (tables published _ (by decide)) 0)
    unfold actReply
    dsimp only
    generalize m.withCpu _ = t at cleared ⊢
    have broken : m.Lodges (t.replyBrk (slotTables m.cpu) r) := by
      unfold replyBrk
      split
      · exact lodges_allows.trans cleared (lodges_allows.state rfl rfl rfl)
      · exact cleared
    generalize t.replyBrk (slotTables m.cpu) r = t at broken ⊢
    have killed : m.Lodges (t.replyKill (t.replyYield req r) (slotTables m.cpu) r).1 := by
      unfold replyKill
      dsimp only
      split
      · split
        · exact broken
        · exact lodges_allows.setReg broken _ _
      · exact broken
    generalize t.replyKill (t.replyYield req r) (slotTables m.cpu) r = asked at killed ⊢
    unfold replyExit
    dsimp only
    split
    · split
      · exact lodges_allows.setExitCode killed _
      · exact lodges_allows.setHalted (lodges_allows.setExitCode killed _)
    · exact killed
  · split
    · exact lodges_allows.armTracer outside_of_low (lodges_allows.refl m)
    · exact lodges_allows.refl m

theorem slotExited_lodged (lodged : m.Lodged) (slot : Word) : (m.slotExited slot).Lodged := by
  have living {p : Nat} (live : (m.slotExited slot).slots.Live p) : m.slots.Live p := by
    refine ⟨live.1, ?_⟩
    have alive : (m.slotExited slot).isHalted p = false := live.2
    change m.isHalted p = false
    unfold isHalted at alive ⊢
    rw [shift_and_one] at alive ⊢
    unfold slotExited at alive
    rw [BitVec.getLsbD_or, Bool.or_eq_false_iff] at alive
    exact alive.1
  exact ⟨lodged.housed, lodged.few, lodged.table, fun p live => lodged.rows p (living live),
    fun p live => lodged.mapped p (living live)⟩

def saved (m : Machine) : Machine := { m with procTable := m.procTable.set m.pid.toNat m.saveRow }

theorem saved_row_own (lodged : m.Lodged) :
    (m.saved.row m.pid.toNat).pageDirBase = pgdBaseForPid m.pid := by
  have own : m.saved.row m.pid.toNat = m.saveRow :=
    getD_set_self _ (by rw [lodged.table]; exact lodged.housed.slot) _ _
  rw [own]
  exact lodged.housed.base

theorem saved_row_other (m : Machine) (other : p ≠ m.pid.toNat) : m.saved.row p = m.row p :=
  getD_set_of_ne _ other _ _

theorem saved_lodged (lodged : m.Lodged) : m.saved.Lodged := by
  refine ⟨lodged.housed, lodged.few, (len_set _ _ _).trans lodged.table, ?_, lodged.mapped⟩
  intro p live other
  rw [saved_row_other m other]
  exact lodged.rows p live other

theorem loadRow_lodged {next : Nat} (lodged : m.Lodged) (live : m.slots.Live next)
    (other : next ≠ m.pid.toNat) :
    (m.saved.clearReservation.loadRow next (m.saved.row next)).Lodged := by
  have counted : next < MAX_PROCESSES := live.1.trans_le lodged.few
  have below : next < 8 := counted
  have number : (ofNat 8 next).toNat = next := by
    rw [BitVec.toNat_ofNat]
    omega
  have table := (saved_lodged lodged).table
  refine ⟨⟨lodged.housed.ram, lodged.housed.leaves, lodged.housed.absent, lodged.housed.flat,
    ?_, ?_, ?_, ?_⟩, lodged.few, table, ?_, lodged.mapped⟩
  · exact number.trans_lt counted
  · rw [saved_row_other m other]
    exact lodged.rows next live other
  · intro child
    have pos : next ≠ 0 := by
      rintro rfl
      exact child rfl
    change pde m.cpu (ofNat 8 next).toNat 0 &&& _ ≠ 0
    rw [number]
    exact lodged.mapped next live pos
  · intro i present
    exact absurd (BitVec.zero_and) present
  · intro p alive elsewhere
    change (m.saved.row p).pageDirBase = _
    by_cases own : p = m.pid.toNat
    · subst own
      rw [saved_row_own lodged, BitVec.ofNat_toNat, BitVec.setWidth_eq]
    · rw [saved_row_other m own]
      exact lodged.rows p alive own

theorem schedulerContextSwitch_lodged (lodged : m.Lodged) : m.schedulerContextSwitch.Lodged := by
  have saved := saved_lodged lodged
  unfold schedulerContextSwitch
  dsimp only
  split
  · exact lodged
  · split
    · exact lodged
    · split
      · exact saved
      · next next found =>
        split
        · exact saved
        · next other =>
          split
          · exact saved.lodges (lodges_allows.clearReservation (lodges_allows.refl _))
          · next row stored =>
            obtain ⟨counted, clear⟩ := nextRunnable_spec found
            have alive : m.isHalted next = false := by
              rw [BitVec.getLsbD_or, Bool.or_eq_false_iff] at clear
              exact (shift_and_one _ _).trans clear.1
            have loaded : row = m.saved.row next := by
              have inside : next < m.saved.procTable.len := by
                rw [saved.table]
                exact Nat.lt_of_lt_of_le counted lodged.few
              have entry : m.saved.procTable.get? next = some row := stored
              rw [get?_of_lt _ inside] at entry
              rw [Machine.row, getD_of_lt _ inside]
              exact (Option.some.inj entry).symm
            rw [loaded]
            exact loadRow_lodged lodged ⟨counted, alive⟩ other

theorem deferredSwitch_lodged (lodged : m.Lodged) (req : SwitchReq) :
    (m.deferredSwitch req).Lodged := by
  have switched := schedulerContextSwitch_lodged lodged
  cases req with
  | none => exact lodged
  | yield => exact switched
  | exit =>
    unfold deferredSwitch
    dsimp only
    split
    · exact switched.lodges (lodges_allows.halt _)
    · exact switched

theorem afterLoop_sheltered {req : Requests} (sheltered : m.Sheltered) (mild : Mild req)
    (tables : req.reply = true → TablesIn Outside m.cpu) : (m.afterLoop req).Sheltered := by
  refine ⟨(afterLoop_lives sheltered.slotted mild).slotted sheltered.slotted, ?_⟩
  have settled {m' : Machine} (lodged : m'.Lodged) (req' : Requests) :
      ((m'.endSlot req'.exitSlot).deferredSwitch req'.switch).Lodged := by
    refine deferredSwitch_lodged ?_ _
    unfold endSlot
    split
    · exact slotExited_lodged lodged _
    · exact lodged
  unfold afterLoop
  cases reply : req.reply with
  | false => exact settled sheltered.lodged req
  | true =>
    exact settled (sheltered.lodged.lodges (readReply_lodges (tables reply) req)) _

/-! ## Boot -/

/-- `populate_identity_pgd` on the directory of slot 0. -/
def populateIdentityPgd (ram : Store Word) : Nat → Store Word
  | 0 => ram
  | n + 1 => (populateIdentityPgd ram n).set (pgdCell 0 + n) (ofNat 32 n <<< 22 ||| LEAF_FLAGS)

theorem len_populateIdentityPgd (ram : Store Word) (n : Nat) :
    (populateIdentityPgd ram n).len = ram.len := by
  induction n with
  | zero => rfl
  | succ n ih => exact (len_set _ _ _).trans ih

theorem getD_populateIdentityPgd {ram : Store Word} {n : Nat} (fits : pgdCell 0 + n ≤ ram.len)
    (i : Nat) : (populateIdentityPgd ram n).getD i 0 =
      if pgdCell 0 ≤ i ∧ i < pgdCell 0 + n then ofNat 32 (i - pgdCell 0) <<< 22 ||| LEAF_FLAGS
      else ram.getD i 0 := by
  induction n with
  | zero => rw [if_neg (by omega)]; rfl
  | succ n ih =>
    rw [populateIdentityPgd]
    by_cases last : i = pgdCell 0 + n
    · subst last
      rw [getD_set_self _ (by rw [len_populateIdentityPgd]; omega), if_pos (by omega),
        Nat.add_sub_cancel_left]
    · rw [getD_set_of_ne _ last, ih (by omega)]
      refine if_congr ?_ rfl rfl
      omega

theorem leaf_identity {k : Nat} (low : k < 16) : ofNat 32 k <<< 22 ||| LEAF_FLAGS = leaf 0 k := by
  interval_cases k <;> decide

/-- The directories are empty but for the entries that the loader makes for slot 0. -/
theorem housed_booted (ram : b.ram.len = RAM_MAP_WORDS)
    (directories : ∀ i, InDirectories i → b.ram.getD i 0 = 0) (pid : b.state.currentPid = 0)
    (base : b.state.pageDirBase = PER_PID_PGD_BASE) (tlb : ∀ i, (b.tlb i).flags = 0) {n : Nat}
    (few : n = 0 ∨ n = 16) : Housed (b.withRam (populateIdentityPgd b.ram n)) := by
  have entries (slot k : Nat) (counted : slot < MAX_PROCESSES) (inside : k < 0x400) :
      pde (b.withRam (populateIdentityPgd b.ram n)) slot k =
        if slot = 0 ∧ k < n then leaf 0 k else 0 := by
    have below : slot < 8 := counted
    have fits : pgdCell 0 + n ≤ b.ram.len := by
      rw [ram]
      unfold pgdCell RAM_MAP_WORDS
      omega
    have zero : b.ram.getD (pgdCell slot + k) 0 = 0 := by
      refine directories _ ?_
      unfold InDirectories pgdCell
      omega
    refine (getD_populateIdentityPgd fits _).trans ?_
    rw [zero]
    by_cases low : slot = 0 ∧ k < n
    · obtain ⟨rfl, low⟩ := low
      rw [if_pos (by omega), if_pos ⟨rfl, low⟩, Nat.add_sub_cancel_left, leaf_identity (by omega)]
    · rw [if_neg low, if_neg (by unfold pgdCell; omega)]
  refine ⟨(len_populateIdentityPgd _ _).trans ram, ?_, ?_, ?_, ?_, ?_, ?_, ?_⟩
  · intro slot counted present
    rw [entries slot 0 counted (by decide)] at present ⊢
    rw [entries slot 1 counted (by decide)]
    split at present
    · next first =>
      obtain ⟨rfl, some⟩ := first
      rw [if_pos ⟨rfl, some⟩, if_pos ⟨rfl, by omega⟩]
      exact ⟨rfl, rfl⟩
    · exact absurd BitVec.zero_and present
  · intro slot k counted inside child _
    rw [entries slot k counted inside, if_neg (fun both => child both.1)]
    exact BitVec.zero_and
  · intro k inside
    rw [entries 0 k (by decide) inside]
    split
    · next low => exact Or.inr ⟨by omega, rfl⟩
    · exact Or.inl BitVec.zero_and
  · change b.state.currentPid.toNat < _
    rw [pid]
    decide
  · change b.state.pageDirBase = pgdBaseForPid b.state.currentPid
    rw [base, pid]
    decide
  · exact fun child => absurd pid child
  · intro i present
    change (b.tlb i).flags &&& _ ≠ 0 at present
    rw [tlb i] at present
    exact absurd BitVec.zero_and present

/-- A machine as the loader starts it, with the directory of slot 0 built or with none. -/
theorem booted_sheltered (fresh : m.Fresh) (table : m.procTable.len = MAX_PROCESSES)
    (ram : m.cpu.ram.len = RAM_MAP_WORDS)
    (directories : ∀ i, InDirectories i → m.cpu.ram.getD i 0 = 0)
    (base : m.cpu.state.pageDirBase = PER_PID_PGD_BASE) (tlb : ∀ i, (m.cpu.tlb i).flags = 0)
    {n : Nat} (few : n = 0 ∨ n = 16) :
    (m.withCpu (m.cpu.withRam (populateIdentityPgd m.cpu.ram n))).Sheltered := by
  have started : (m.withCpu (m.cpu.withRam (populateIdentityPgd m.cpu.ram n))).Fresh :=
    ⟨fresh.pid, fresh.processes, fresh.haltedMask, fresh.reapedMask, fresh.parents⟩
  have only {p : Nat} (live : (m.withCpu (m.cpu.withRam (populateIdentityPgd m.cpu.ram n))).slots.Live p) :
      p = 0 := by
    have counted : p < m.cpu.state.numProcesses.toNat := live.1
    rw [fresh.processes] at counted
    exact Nat.lt_one_iff.mp counted
  have slotted := started.slotted
  refine ⟨slotted, housed_booted ram directories fresh.pid base tlb few, slotted.formed.fits, table,
    ?_, ?_⟩
  · intro p live other
    exact absurd ((only live).trans (congrArg BitVec.toNat started.pid).symm) other
  · intro p live child
    exact absurd (only live) child

end Machine

end Unheaded.Ascend
