import Unheaded.Ascend.Tick

/-!
# The copy of a fork

`SYS_fork` copies the parent's working set into the child's slice over 5120 entries.
-/

namespace Unheaded.Ascend

open Lib Mbc Fdtable Phase12 List Function Store Bpf
open BitVec (ofNat)

namespace Machine

variable (sp : Word)

/-- The words of the slice that the first `n` cursors stand for, as far as they
lie below 6 MiB. -/
def forkWords (n : Nat) : List Nat :=
  ((range n).map fun c => (sliceWord sp (ofNat 32 c)).toNat).filter fun w =>
    decide (w < 0x180000)

def sliceCell (pid : Byte) (w : Nat) : Nat := sliceBase pid.toNat / 4 + w

def copySlice (s : Store Word) (parent child : Byte) (words : List Nat) : Store Word :=
  s.copyCells (sliceCell parent) (sliceCell child) 0 words

theorem toNat_sliceCell (pid : Byte) {w : Word} (inside : w.toNat < 0x180000) :
    ((pidPhysOffset pid >>> 2) + w).toNat = sliceCell pid w.toNat := by
  have bound := sliceBase_lt pid
  rw [BitVec.toNat_add, BitVec.toNat_ushiftRight, toNat_pidPhysOffset, sliceCell]
  omega

theorem ram_copyForkWord (b : Bpf) (child : Byte) {c : Word} (inside : c < TOTAL_COPY) :
    (copyForkWord b child c).ram = copySlice b.ram b.state.currentPid child
        ([(sliceWord (b.state.regs REG_SP) c).toNat].filter fun w => decide (w < 0x180000)) := by
  have ceiling : sliceWord (b.state.regs REG_SP) c < USER_SLICE_BYTES >>> 2 ↔
      (sliceWord (b.state.regs REG_SP) c).toNat < 0x180000 := by
    rfl
  rw [copyForkWord, if_pos inside]
  by_cases low : (sliceWord (b.state.regs REG_SP) c).toNat < 0x180000
  · rw [if_pos (ceiling.mpr low), filter_cons_of_pos (by simpa using low)]
    rw [ramWriteWord, ramWord, toNat_sliceCell child low, toNat_sliceCell _ low]
    rfl
  · rw [if_neg (mt ceiling.mp low), filter_cons_of_neg (by simpa using low)]
    rfl

theorem state_copyForkWord (b : Bpf) (child : Byte) (c : Word) :
    (copyForkWord b child c).state = b.state := by
  unfold copyForkWord
  dsimp only
  split
  · split <;> rfl
  · rfl

theorem forkWords_succ (n : Nat) : forkWords sp (n + 1) = forkWords sp n ++
      [(sliceWord sp (ofNat 32 n)).toNat].filter fun w => decide (w < 0x180000) := by
  rw [forkWords, range_succ, map_append, filter_append]
  rfl

theorem ram_copyForkChunk {b : Bpf} {child : Byte} {n : Nat} (inside : n + 16 ≤ 81920)
    {s : Store Word}
    (copied : b.ram = copySlice s b.state.currentPid child (forkWords (b.state.regs REG_SP) n)) :
    (copyForkChunk b child (ofNat 32 n)).ram =
      copySlice s b.state.currentPid child (forkWords (b.state.regs REG_SP) (n + 16)) := by
  -- the cursors of the chunk, one after the other
  have part (k : Nat) (few : k ≤ 16) :
      let b' := (range k).foldl
        (fun b w => copyForkWord b child (ofNat 32 n + ofNat 32 w)) b
      b'.state = b.state ∧
        b'.ram = copySlice s b.state.currentPid child (forkWords (b.state.regs REG_SP) (n + k)) := by
    induction k with
    | zero => exact ⟨rfl, copied⟩
    | succ k ih =>
      obtain ⟨state, ram⟩ := ih (by omega)
      rw [range_succ, foldl_append]
      generalize (range k).foldl
        (fun b w => copyForkWord b child (ofNat 32 n + ofNat 32 w)) b = t at state ram
      have cursor : ofNat 32 n + ofNat 32 k = ofNat 32 (n + k) :=
        (BitVec.ofNat_add n k).symm
      have less : ofNat 32 (n + k) < TOTAL_COPY := by
        have total : TOTAL_COPY.toNat = 81920 := rfl
        rw [BitVec.lt_def, BitVec.toNat_ofNat]
        omega
      refine ⟨(state_copyForkWord _ _ _).trans state, ?_⟩
      change (copyForkWord t child (ofNat 32 n + ofNat 32 k)).ram = _
      rw [cursor, ram_copyForkWord t child less, state, ram, ← Nat.add_assoc, forkWords_succ]
      exact (copyCells_append _ _ _ _ _ _).symm
  exact (part 16 (Nat.le_refl _)).2

theorem toNat_pageStart : ((sp &&& ~~~(0xFFF : Word)) >>> 2).toNat = sp.toNat / 0x1000 * 0x400 := by
  have page : sp &&& ~~~(0xFFF : Word) = (sp >>> 12) <<< 12 := by
    ext i hi
    interval_cases i <;> simp
  rw [page, BitVec.toNat_ushiftRight, BitVec.toNat_shiftLeft, BitVec.toNat_ushiftRight]
  omega

theorem toNat_sliceWord {c : Nat} (inside : c < 81920) : (sliceWord sp (ofNat 32 c)).toNat =
      if c < 0x10000 then c else sp.toNat / 0x1000 * 0x400 + (c - 0x10000) := by
  have value : (ofNat 32 c : Word).toNat = c := by
    rw [BitVec.toNat_ofNat]
    omega
  have low : LOW_WORDS.toNat = 0x10000 := rfl
  have band : ofNat 32 c < LOW_WORDS ↔ c < 0x10000 := by
    rw [BitVec.lt_def, value, low]
  unfold sliceWord
  by_cases first : c < 0x10000
  · rw [if_pos (band.mpr first), if_pos first, value]
  · rw [if_neg (mt band.mp first), if_neg first, BitVec.toNat_add, toNat_pageStart,
      BitVec.toNat_sub]
    omega

def InWorkingSet (w : Nat) : Prop := w < 0x180000 ∧
    (w < 0x10000 ∨ sp.toNat / 0x1000 * 0x400 ≤ w ∧ w < sp.toNat / 0x1000 * 0x400 + 0x4000)

theorem mem_forkWords (w : Nat) : w ∈ forkWords sp 81920 ↔ InWorkingSet sp w := by
  rw [forkWords, mem_filter, List.mem_map, decide_eq_true_iff, and_comm]
  refine and_congr_right fun _ => ?_
  constructor
  · rintro ⟨c, mem, rfl⟩
    have inside := mem_range.mp mem
    rw [toNat_sliceWord sp inside]
    split <;> omega
  · rintro (low | ⟨first, last⟩)
    · refine ⟨w, mem_range.mpr (by omega), ?_⟩
      rw [toNat_sliceWord sp (by omega), if_pos low]
    · refine ⟨0x10000 + (w - sp.toNat / 0x1000 * 0x400), mem_range.mpr (by omega), ?_⟩
      rw [toNat_sliceWord sp (by omega), if_neg (by omega)]
      omega

theorem forkWords_lt {sp : Word} {n w : Nat} (mem : w ∈ forkWords sp n) : w < 0x180000 :=
  of_decide_eq_true (mem_filter.mp mem).2

section Slices

variable {s : Store Word} {parent child : Byte} {sp : Word} {n : Nat}

theorem getD_copySlice {w : Nat} (mem : w ∈ forkWords sp n) (mapped : sliceCell child w < s.len) :
    (copySlice s parent child (forkWords sp n)).getD (sliceCell child w) 0 =
      s.getD (sliceCell parent w) 0 := by
  refine getD_copyCells s ?_ ?_ mem mapped
  · intro a ha b hb same
    unfold sliceCell at same ⊢
    omega
  · intro a ha b hb same
    have first := forkWords_lt ha
    have second := forkWords_lt hb
    -- a slot that copies onto itself, or two slices apart
    by_cases slot : parent.toNat = child.toNat
    · unfold sliceCell at same ⊢
      rw [slot] at same ⊢
      omega
    · have apart := sliceBase_apart slot
      unfold sliceCell at same
      omega

theorem getD_copySlice_of_outside {i : Nat}
    (outside : ¬ (sliceBase child.toNat / 4 ≤ i ∧ i < sliceBase child.toNat / 4 + 0x200000)) :
    (copySlice s parent child (forkWords sp n)).getD i 0 = s.getD i 0 := by
  refine getD_copyCells_of_ne s fun w mem same => outside ?_
  have inside := forkWords_lt mem
  unfold sliceCell at same
  omega

end Slices

def pgdCell (child : Nat) : Nat := 0x3C0000 + child * 0x400

variable {child : Nat}

theorem toNat_pgdCell (slot : child < MAX_PROCESSES) :
    (pgdBaseForPid (ofNat 8 child) >>> 2).toNat = pgdCell child ∧
      (pgdBaseForPid (ofNat 8 child) >>> 2 + 1).toNat = pgdCell child + 1 := by
  have below : child < 8 := slot
  interval_cases child <;> exact ⟨rfl, rfl⟩

theorem forkChild_spec {m : Machine} (free : m.forkChild = some child) :
    1 ≤ child ∧ child < MAX_PROCESSES ∧ sliceBase child + 0x800000 ≤ 0x3800000 := by
  have slot := forkChild_lt free
  unfold forkChild at free
  dsimp only at free
  split at free <;> cases free
  next fits =>
    rw [not_or] at fits
    have pos : 1 ≤ m.freeSlot := by
      unfold freeSlot
      cases found : (List.range' 1 (MAX_PROCESSES - 1)).find? fun cand => !m.usedLive cand with
      | none => decide
      | some cand => exact (mem_range'_1.mp (List.mem_of_find?_eq_some found)).1
    refine ⟨pos, slot, ?_⟩
    have small : m.freeSlot < 8 := slot
    have top := BitVec.not_lt.mp fits.2
    revert top
    generalize m.freeSlot = cand at pos small
    interval_cases cand <;> decide

theorem forkChild_congr {m m' : Machine} (sched : m.sched = m'.sched)
    (processes : m.cpu.state.numProcesses = m'.cpu.state.numProcesses) :
    m.forkChild = m'.forkChild := by
  unfold forkChild freeSlot usedLive
  rw [sched, processes]

theorem ram_buildPgd (b : Bpf) (slot : child < MAX_PROCESSES) :
    (buildPgd b (ofNat 8 child)).ram = (b.ram.set (pgdCell child)
        ((pidPhysOffset (ofNat 8 child) &&& Bpf.SUPERPAGE_MASK) ||| LEAF_FLAGS)).set
        (pgdCell child + 1)
        (((pidPhysOffset (ofNat 8 child) + 0x00400000) &&& Bpf.SUPERPAGE_MASK) ||| LEAF_FLAGS) := by
  obtain ⟨first, second⟩ := toNat_pgdCell slot
  rw [buildPgd, ram_memWriteWord, ram_memWriteWord, first, second]

theorem leaf_present (slot : child < MAX_PROCESSES) :
    ((pidPhysOffset (ofNat 8 child) &&& Bpf.SUPERPAGE_MASK) ||| LEAF_FLAGS) &&&
      Mmu.PTE_PRESENT ≠ 0 := by
  have below : child < 8 := slot
  interval_cases child <;> decide

/-- After `n` entries for a slot: the cursor stands at `16 * n`, the words
before it are copied, and nothing else has changed. -/
structure Copying (m₀ : Machine) (child n : Nat) (m : Machine) : Prop where
  regs : m.cpu.state.regs = update m₀.cpu.state.regs 10 (ofNat 32 (16 * n))
  pid : m.cpu.state.currentPid = m₀.cpu.state.currentPid
  processes : m.cpu.state.numProcesses = m₀.cpu.state.numProcesses
  sched : m.sched = m₀.sched
  procTable : m.procTable = m₀.procTable
  ram : m.cpu.ram = copySlice (buildPgd m₀.cpu (ofNat 8 child)).ram m₀.pid
    (ofNat 8 child) (forkWords (m₀.cpu.state.regs REG_SP) (16 * n))

section Loop

variable {m₀ m : Machine} {child n : Nat}

theorem Copying.start (fresh : m₀.cpu.memReadWord (pgdBaseForPid (ofNat 8 child) >>> 2) &&&
      Mmu.PTE_PRESENT = 0) : Copying m₀ child 0 (m₀.beginFork (ofNat 8 child)) := by
  rw [beginFork, if_pos fresh]
  have state : (buildPgd m₀.cpu (ofNat 8 child)).state = m₀.cpu.state := by
    rw [buildPgd, Bpf.state_memWriteWord, Bpf.state_memWriteWord]
  unfold setReg withCpu Bpf.setReg
  refine ⟨?_, ?_, ?_, rfl, rfl, rfl⟩
  · rw [state]
    rfl
  · rw [state]
  · rw [state]

section

variable (copying : Copying m₀ child n m) (free : m₀.forkChild = some child)
  (ram : m₀.cpu.ram.len = RAM_MAP_WORDS)
include copying free ram

theorem Copying.begun : m.beginFork (ofNat 8 child) = m := by
  obtain ⟨pos, slot, -⟩ := forkChild_spec free
  have below : child < 8 := slot
  refine if_neg ?_
  have plain : (pgdBaseForPid (ofNat 8 child) >>> 2).toNat ≠ kbdWord := by
    have keyboard : kbdWord < 0x3C0000 := by decide
    rw [(toNat_pgdCell slot).1]
    unfold pgdCell
    omega
  have entry : m.cpu.memReadWord (pgdBaseForPid (ofNat 8 child) >>> 2) =
      (pidPhysOffset (ofNat 8 child) &&& Bpf.SUPERPAGE_MASK) ||| LEAF_FLAGS := by
    rw [memReadWord, if_neg plain, ramWord, (toNat_pgdCell slot).1, copying.ram,
      getD_copySlice_of_outside, ram_buildPgd _ slot, getD_set_of_ne _ (by omega),
      getD_set_self]
    · rw [ram]
      unfold pgdCell RAM_MAP_WORDS
      omega
    · unfold pgdCell sliceBase
      split <;> omega
  rw [entry]
  exact leaf_present slot

theorem Copying.copyTick (more : n < 5120) : m.copyTick (ofNat 8 child) =
        m.withCpu (copyForkChunk m.cpu (ofNat 8 child) (ofNat 32 (16 * n))) ∧
      (copyForkChunk m.cpu (ofNat 8 child) (ofNat 32 (16 * n))).ram =
        copySlice (buildPgd m₀.cpu (ofNat 8 child)).ram m₀.pid (ofNat 8 child)
          (forkWords (m₀.cpu.state.regs REG_SP) (16 * (n + 1))) := by
  have cursor : m.a2 = ofNat 32 (16 * n) := by
    rw [a2, copying.regs, update_self]
  have stack : m.cpu.state.regs REG_SP = m₀.cpu.state.regs REG_SP := by
    rw [copying.regs, update_of_ne (by decide)]
  have same := copying.pid
  constructor
  · rw [Machine.copyTick, copying.begun free ram, cursor]
  · have chunk := @ram_copyForkChunk m.cpu (ofNat 8 child) (16 * n) (by omega)
      (buildPgd m₀.cpu (ofNat 8 child)).ram (by rw [same, stack]; exact copying.ram)
    rwa [same, stack] at chunk

theorem Copying.step (more : n < 5119) :
    ∃ m', enter sysFork m = .inl m' ∧ Copying m₀ child (n + 1) m' := by
  obtain ⟨tick, copied⟩ := copying.copyTick free ram (by omega)
  have slot := (forkChild_congr copying.sched copying.processes).trans free
  have cursor : m.a2 = ofNat 32 (16 * n) := by
    rw [a2, copying.regs, update_self]
  generalize chunk : copyForkChunk m.cpu (ofNat 8 child) (ofNat 32 (16 * n)) = b
    at tick copied
  have state : b.state = m.cpu.state := by rw [← chunk, state_copyForkChunk]
  have next : (m.withCpu b).a2 + 16 = ofNat 32 (16 * (n + 1)) := by
    change b.state.regs 10 + 16 = _
    rw [state, show m.cpu.state.regs 10 = ofNat 32 (16 * n) from cursor,
      Nat.mul_add, BitVec.ofNat_add]
    rfl
  have less : ofNat 32 (16 * (n + 1)) < TOTAL_COPY := by
    have total : TOTAL_COPY.toNat = 81920 := rfl
    rw [BitVec.lt_def, BitVec.toNat_ofNat]
    omega
  have left : m.sysFork = ((m.withCpu b).setReg 10 (ofNat 32 (16 * (n + 1)))).again := by
    rw [sysFork, slot]
    dsimp only
    rw [tick, next, if_pos less]
  refine ⟨_, (enter_again left).trans (congrArg Sum.inl (atEcall_back _)), ?_⟩
  have keeps : ((m.withCpu b).setReg 10 (ofNat 32 (16 * (n + 1)))).wake.cpu.state.regs =
      update b.state.regs 10 (ofNat 32 (16 * (n + 1))) := rfl
  refine ⟨?_, ?_, ?_, copying.sched, copying.procTable, copied⟩
  · rw [keeps, state, copying.regs, update_idem]
  · exact (congrArg MbcCpuState.currentPid state).trans copying.pid
  · exact (congrArg MbcCpuState.numProcesses state).trans copying.processes

end

theorem Copying.run (free : m₀.forkChild = some child) (ram : m₀.cpu.ram.len = RAM_MAP_WORDS)
    (start : Copying m₀ child 0 m) (n : Nat) (few : n ≤ 5119) :
    ∃ m', after (enter sysFork) n m = .inl m' ∧ Copying m₀ child n m' := by
  induction n with
  | zero => exact ⟨m, rfl, start⟩
  | succ n ih =>
    obtain ⟨m', reached, copying⟩ := ih (by omega)
    obtain ⟨m'', next, still⟩ := copying.step free ram (by omega)
    refine ⟨m'', ?_, still⟩
    rw [after_add, reached, Sum.elim_inl, after_one, next]

theorem Copying.finish (copying : Copying m₀ child n m) (free : m₀.forkChild = some child)
    (ram : m₀.cpu.ram.len = RAM_MAP_WORDS) (all : n = 5119) : ∃ b, b.state = m.cpu.state ∧
      b.ram = copySlice (buildPgd m₀.cpu (ofNat 8 child)).ram m₀.pid (ofNat 8 child)
        (forkWords (m₀.cpu.state.regs REG_SP) 81920) ∧
      enter sysFork m = .inr ((m.withCpu b).finishFork child) := by
  obtain ⟨tick, copied⟩ := copying.copyTick free ram (by omega)
  rw [show 16 * (n + 1) = 81920 by omega] at copied
  have slot := (forkChild_congr copying.sched copying.processes).trans free
  have cursor : m.a2 = ofNat 32 (16 * n) := by
    rw [a2, copying.regs, update_self]
  generalize chunk : copyForkChunk m.cpu (ofNat 8 child) (ofNat 32 (16 * n)) = b
    at tick copied
  have state : b.state = m.cpu.state := by rw [← chunk, state_copyForkChunk]
  have last : ¬ (m.withCpu b).a2 + 16 < TOTAL_COPY := by
    change ¬ b.state.regs 10 + 16 < TOTAL_COPY
    have total : TOTAL_COPY.toNat = 81920 := rfl
    have chunk : (16 : Word).toNat = 16 := rfl
    rw [state, show m.cpu.state.regs 10 = ofNat 32 (16 * n) from cursor, BitVec.lt_def,
      BitVec.toNat_add, BitVec.toNat_ofNat]
    omega
  refine ⟨b, state, copied, ?_⟩
  rw [enter, sysFork, slot]
  dsimp only
  rw [tick, if_neg last]

end Loop

variable {m : Machine} {child : Nat}

/-- The first entry does what an entry with a begun copy does. -/
theorem enter_begun (free : m.forkChild = some child) (ram : m.cpu.ram.len = RAM_MAP_WORDS)
    (start : Copying m child 0 (m.beginFork (ofNat 8 child))) :
    enter sysFork m = enter sysFork (m.beginFork (ofNat 8 child)) := by
  have slot := (forkChild_congr start.sched start.processes).trans free
  rw [enter, enter, sysFork, sysFork, free, slot]
  dsimp only
  rw [Machine.copyTick, Machine.copyTick, start.begun free ram]

theorem fork_finishes (free : m.forkChild = some child)
    (fresh : m.cpu.memReadWord (pgdBaseForPid (ofNat 8 child) >>> 2) &&& Mmu.PTE_PRESENT = 0)
    (ram : m.cpu.ram.len = RAM_MAP_WORDS) :
    ∃ m' b, Copying m child 5119 m' ∧ b.state = m'.cpu.state ∧
      b.ram = copySlice (buildPgd m.cpu (ofNat 8 child)).ram m.pid (ofNat 8 child)
        (forkWords (m.cpu.state.regs REG_SP) 81920) ∧
      after (enter sysFork) 5120 m = .inr ((m'.withCpu b).finishFork child) := by
  have start : Copying m child 0 (m.beginFork (ofNat 8 child)) := .start fresh
  obtain ⟨m', reached, copying⟩ := Copying.run free ram start 5119 (Nat.le_refl _)
  obtain ⟨b, state, copied, finished⟩ := copying.finish free ram rfl
  refine ⟨m', b, copying, state, copied, ?_⟩
  rw [after_succ_congr (enter_begun free ram start) 5119, after_add, reached, Sum.elim_inl, after_one,
    finished]

theorem setting_copyForkChunk (b : Bpf) (child : Byte) (cursor : Word) :
    (copyForkChunk b child cursor).setting = b.setting := by
  obtain ⟨ram, copied⟩ := copyForkChunk_ram b child cursor
  rw [copied]
  rfl

theorem beginFork_keeps (m : Machine) (child : Byte) :
    (m.beginFork child).cpu.setting = m.cpu.setting ∧ (m.beginFork child).cpu.state =
        { m.cpu.state with regs := (m.beginFork child).cpu.state.regs } ∧
      (m.beginFork child).a7 = m.a7 := by
  unfold beginFork
  split
  · unfold setReg withCpu Bpf.setReg buildPgd
    refine ⟨?_, ?_, ?_⟩
    · exact (Bpf.setting_memWriteWord _ _ _).trans (Bpf.setting_memWriteWord _ _ _)
    · simp only [state_memWriteWord]
    · simp only [state_memWriteWord]
      rfl
  · exact ⟨rfl, rfl, rfl⟩

theorem copyTick_keeps (m : Machine) (child : Byte) :
    (m.copyTick child).cpu.setting = m.cpu.setting ∧ (m.copyTick child).cpu.state =
        { m.cpu.state with regs := (m.copyTick child).cpu.state.regs } ∧
      (m.copyTick child).a7 = m.a7 := by
  obtain ⟨setting, state, a7⟩ := beginFork_keeps m child
  unfold copyTick
  generalize m.beginFork child = t at setting state a7
  have copied := state_copyForkChunk t.cpu child t.a2
  refine ⟨(setting_copyForkChunk t.cpu child t.a2).trans setting, ?_, ?_⟩
  · change (copyForkChunk t.cpu child t.a2).state =
      { m.cpu.state with regs := (copyForkChunk t.cpu child t.a2).state.regs }
    rw [copied]
    exact state
  · exact (congrArg (fun c : MbcCpuState => c.regs 1) copied).trans a7

theorem sysFork_left {m' : Machine} {req : Requests} {w : Word} (ready : m.AtSyscall w)
    (left : m.atEcall.sysFork = .leave m' req) : req = {} ∧ m'.AtSyscall w ∧ m'.a7 = m.a7 := by
  unfold sysFork at left
  split at left
  · cases left
  next child _ =>
    obtain ⟨setting, state, a7⟩ := copyTick_keeps m.atEcall (ofNat 8 child)
    dsimp only at left
    generalize m.atEcall.copyTick (ofNat 8 child) = t at setting state a7 left
    split at left <;> cases left
    have back : t.cpu.state.pc - 1 = m.cpu.state.pc := by
      rw [state]
      exact BitVec.add_sub_cancel _ _
    have insnCount : t.cpu.state.insnCount = m.cpu.state.insnCount := by rw [state]; rfl
    have awake : t.cpu.state.sleepUntilNs = 0 := by rw [state]; rfl
    exact ⟨rfl, ready.congr setting back insnCount awake, a7⟩

theorem ecall_fork (fork : m.a7 = 1) (imm : Word) : m.atEcall.ecall imm = m.atEcall.sysFork := by
  have number : kernelRoutedAlias m.atEcall.cpu m.atEcall.a7 = 1 := by
    rw [show m.atEcall.a7 = 1 from fork]
    rfl
  rw [ecall, number]
  rfl

theorem ticks_fork {s : Machine} {w : Word} (ready : m.AtSyscall w) (fork : m.a7 = 1)
    {nows : List (BitVec 64)} (run : after (enter sysFork) nows.length m.atEcall = .inl s) :
    (nows.foldl tick m).atEcall = s ∧ (nows.foldl tick m).AtSyscall w ∧
      (nows.foldl tick m).a7 = 1 := by
  refine @ticks_enter sysFork (fun m => m.AtSyscall w ∧ m.a7 = 1) w ?_ ?_ m s ⟨ready, fork⟩ nows run
  · rintro m ⟨ready, fork⟩
    exact ⟨ready, ecall_fork fork _⟩
  · rintro m m' req ⟨ready, fork⟩ left
    obtain ⟨plain, again, a7⟩ := sysFork_left ready left
    exact ⟨plain, again, a7.trans fork⟩

/-- Whatever the clock reads at the ticks, each of them copies the next sixteen words of the working
set and leaves the process at its call, with the scheduler and the process table as they were.
After 5119 of them, the first instruction of the next is the end of the fork. -/
theorem fork_paced_by_ticks {w : Word} (ready : m.AtSyscall w) (fork : m.a7 = 1)
    (free : m.forkChild = some child)
    (fresh : m.cpu.memReadWord (pgdBaseForPid (ofNat 8 child) >>> 2) &&& Mmu.PTE_PRESENT = 0)
    (ram : m.cpu.ram.len = RAM_MAP_WORDS) {nows : List (BitVec 64)} (begun : nows ≠ [])
    (few : nows.length ≤ 5119) : (nows.foldl tick m).AtSyscall w ∧
      Copying m child nows.length (nows.foldl tick m).atEcall ∧ (nows.length = 5119 →
        ∃ b, b.ram = copySlice (buildPgd m.cpu (ofNat 8 child)).ram m.pid (ofNat 8 child)
            (forkWords (m.cpu.state.regs REG_SP) 81920) ∧ (nows.foldl tick m).wake.iterate =
            (Arm.next (((nows.foldl tick m).atEcall.withCpu b).finishFork child)).count) := by
  have start : Copying m.atEcall child 0 (m.atEcall.beginFork (ofNat 8 child)) := .start fresh
  have slot : m.atEcall.forkChild = some child := free
  obtain ⟨m', reached, copying⟩ := Copying.run slot ram start nows.length few
  have run : after (enter sysFork) nows.length m.atEcall = .inl m' := by
    cases nows with
    | nil => exact absurd rfl begun
    | cons now nows => exact (after_succ_congr (enter_begun slot ram start) nows.length).trans reached
  obtain ⟨rfl, still, again⟩ := ticks_fork ready fork run
  have directory : (buildPgd m.atEcall.cpu (ofNat 8 child)).ram =
      (buildPgd m.cpu (ofNat 8 child)).ram := by
    rw [ram_buildPgd _ (forkChild_lt free), ram_buildPgd _ (forkChild_lt free)]
    rfl
  refine ⟨still, ⟨copying.regs, copying.pid, copying.processes, copying.sched, copying.procTable,
    directory ▸ copying.ram⟩, fun all => ?_⟩
  obtain ⟨b, -, copied, finished⟩ := copying.finish slot ram all
  exact ⟨b, directory ▸ copied, iterate_entered still (ecall_fork again _) finished⟩

/-- The first process at its fork. -/
def atFork : Machine := .boot { Bpf.boot { MbcCpuState.default with
      privLevel := 3
      numProcesses := 1
      regs := fun
        | 1 => 1
        | _ => 0 } RAM_MAP_WORDS [MbcInsn.encode Opcode.syscall.toByte 0 0 0] [] with
    ascendLinux := true }

theorem atFork_paced : Copying atFork 1 3 ([5, 4, 9].foldl tick atFork).atEcall :=
  (@fork_paced_by_ticks atFork 1 _ ⟨rfl, rfl, rfl, rfl, rfl, rfl⟩ rfl (by decide) (by decide) rfl
    [5, 4, 9] (by decide) (by decide)).2.1

theorem inheritFds_keeps (m : Machine) (child : Byte) :
    (m.inheritFds child).cpu = m.cpu ∧ (m.inheritFds child).procTable = m.procTable := by
  unfold inheritFds
  induction range NOFILE generalizing m with
  | nil => exact ⟨rfl, rfl⟩
  | cons fd fds ih =>
    obtain ⟨cpu, procTable⟩ := ih
      (m.fdSetKind child (ofNat 32 fd) (m.fdKind m.pid (ofNat 32 fd)))
    rw [foldl_cons, cpu, procTable]
    unfold fdSetKind
    split <;> exact ⟨rfl, rfl⟩

theorem finishFork_keeps (m : Machine) (child : Nat) :
    (m.finishFork child).cpu.ram = (markFresh m.cpu child).ram ∧ (m.finishFork child).procTable =
        m.procTable.set child (m.childRow (ofNat 8 child)) := by
  obtain ⟨cpu, procTable⟩ := inheritFds_keeps
    { m with procTable := m.procTable.set child (m.childRow (ofNat 8 child)) }
    (ofNat 8 child)
  unfold finishFork
  dsimp only at cpu procTable ⊢
  generalize inheritFds _ _ = t at cpu procTable ⊢
  split
  · exact ⟨congrArg (fun b => (markFresh b child).ram) cpu, procTable⟩
  · exact ⟨congrArg (fun b => (markFresh b child).ram) cpu, procTable⟩

def IsFreshMask (b : Bpf) (i : Nat) : Prop := slotTables b ≠ 0 ∧ i = (freshMaskWord b).toNat

theorem getD_markFresh {b : Bpf} {i : Nat} (other : ¬ IsFreshMask b i) :
    (markFresh b child).ram.getD i 0 = b.ram.getD i 0 := by
  unfold markFresh
  split
  next published =>
    rw [ram_memWriteWord]
    exact getD_set_of_ne _ (fun same => other ⟨published, same⟩) _ _
  next => rfl

theorem slotTables_copied {b : Bpf} (free : m.forkChild = some child)
    (copied : b.ram = copySlice (buildPgd m.cpu (ofNat 8 child)).ram m.pid (ofNat 8 child)
      (forkWords (m.cpu.state.regs REG_SP) 81920)) : slotTables b = slotTables m.cpu := by
  obtain ⟨pos, slot, -⟩ := forkChild_spec free
  have below : child < 8 := slot
  have number : (ofNat 8 child).toNat = child := by
    rw [BitVec.toNat_ofNat]
    omega
  have plain (b : Bpf) : slotTables b = b.ram.getD 0x58 0 := rfl
  rw [plain, plain, copied, getD_copySlice_of_outside, ram_buildPgd _ slot,
    getD_set_of_ne _ (by unfold pgdCell; omega),
    getD_set_of_ne _ (by unfold pgdCell; omega)]
  unfold sliceBase
  split <;> omega

end Machine

open Machine

/-- A fork for a slot whose page directory is not yet there is finished by its
5120th entry.  The child's slice then holds the parent's working set, no other
word has changed outside the slice and the page directory, and the child's row
has the parent's registers with a0 and a2 cleared.  The kernel's fresh mask is
the exception, wherever it was published to lie. -/
theorem fork_copies_working_set {m : Machine} {child : Nat} (free : m.forkChild = some child)
    (fresh : m.cpu.memReadWord (pgdBaseForPid (ofNat 8 child) >>> 2) &&& Mmu.PTE_PRESENT = 0)
    (ram : m.cpu.ram.len = RAM_MAP_WORDS) (rows : m.procTable.len = MAX_PROCESSES) :
    ∃ done, after (enter sysFork) 5120 m = .inr done ∧
      (∀ w, InWorkingSet (m.cpu.state.regs REG_SP) w →
        ¬ IsFreshMask m.cpu (sliceCell (ofNat 8 child) w) →
        done.cpu.ram.getD (sliceCell (ofNat 8 child) w) 0 = m.cpu.ram.getD (sliceCell m.pid w) 0) ∧
      (∀ i, ¬ (sliceBase child / 4 ≤ i ∧ i < sliceBase child / 4 + 0x200000) →
        ¬ (pgdCell child ≤ i ∧ i < pgdCell child + 0x400) → ¬ IsFreshMask m.cpu i →
        done.cpu.ram.getD i 0 = m.cpu.ram.getD i 0) ∧ (done.procTable.getD child default).regs =
        update (update m.cpu.state.regs 8 0) 10 0 := by
  obtain ⟨m', b, copying, state, copied, finished⟩ := fork_finishes free fresh ram
  obtain ⟨positive, slot, top⟩ := forkChild_spec free
  have below : child < 8 := slot
  have number : (ofNat 8 child).toNat = child := by
    rw [BitVec.toNat_ofNat]
    omega
  have tables := slotTables_copied free copied
  have mask (i : Nat) : IsFreshMask b i ↔ IsFreshMask m.cpu i := by
    unfold IsFreshMask freshMaskWord
    rw [tables]
  obtain ⟨memory, procTable⟩ := finishFork_keeps (m'.withCpu b) child
  rw [show (m'.withCpu b).cpu = b from rfl] at memory
  refine ⟨_, finished, fun w member other => ?_, fun i outside directory other => ?_, ?_⟩
  · have small := member.1
    have mapped : sliceCell (ofNat 8 child) w <
        (buildPgd m.cpu (ofNat 8 child)).ram.len := by
      rw [ram_buildPgd _ slot, len_set, len_set, ram, sliceCell, number]
      unfold RAM_MAP_WORDS
      omega
    -- no slice meets the page directories
    have source : sliceCell m.pid w < 0x200000 ∨ 0x400000 ≤ sliceCell m.pid w := by
      unfold sliceCell sliceBase
      split <;> omega
    rw [memory, getD_markFresh (mt (mask _).mp other)]
    rw [copied, getD_copySlice ((mem_forkWords _ w).mpr member) mapped, ram_buildPgd _ slot,
      getD_set_of_ne _ (by unfold pgdCell; omega),
      getD_set_of_ne _ (by unfold pgdCell; omega)]
  · rw [memory, getD_markFresh (mt (mask _).mp other)]
    rw [copied, getD_copySlice_of_outside (by rw [number]; exact outside), ram_buildPgd _ slot,
      getD_set_of_ne _ (by omega), getD_set_of_ne _ (by omega)]
  · have inside : child < m'.procTable.len := by
      rw [copying.procTable, rows]
      exact slot
    rw [procTable]
    change ((m'.procTable.set child _).getD child default).regs = _
    rw [getD_set_self _ inside]
    change update (update b.state.regs 8 0) 10 0 = _
    rw [state, copying.regs, update_comm (by decide), update_idem,
      update_comm (by decide)]

/-- Process 0 about to fork, with the kernel's slot tables published. -/
def forking (tables : Word) : Machine := .boot
  { boot { MbcCpuState.default with privLevel := 3, numProcesses := 1 } 0 [] [] with
    ram := ofFn RAM_MAP_WORDS fun
      | 0x58 => tables
      | _ => 0
    ascendLinux := true }

theorem forking_copies : ∃ done, after (enter sysFork) 5120 (forking 0) = .inr done ∧
      (done.procTable.getD 1 default).regs 10 = 0 := by
  obtain ⟨done, finished, -, -, regs⟩ :=
    @fork_copies_working_set (forking 0) 1 (by decide) (by decide) rfl rfl
  refine ⟨done, finished, ?_⟩
  rw [regs]
  rfl

/-- Slot tables that put the fresh mask on the first word of slice 1: the child
does not get the parent's first word. -/
theorem fresh_mask_in_slice : (forking 0xFFF7F8).forkChild = some 1 ∧
      (forking 0xFFF7F8).cpu.memReadWord (pgdBaseForPid 1 >>> 2) &&& Mmu.PTE_PRESENT = 0 ∧
      InWorkingSet ((forking 0xFFF7F8).cpu.state.regs REG_SP) 0 ∧
      ∃ done, after (enter sysFork) 5120 (forking 0xFFF7F8) = .inr done ∧
        done.cpu.ram.getD (sliceCell 1 0) 0 ≠
          (forking 0xFFF7F8).cpu.ram.getD (sliceCell (forking 0xFFF7F8).pid 0) 0 := by
  have free : (forking 0xFFF7F8).forkChild = some 1 := by decide
  have fresh : (forking 0xFFF7F8).cpu.memReadWord (pgdBaseForPid 1 >>> 2) &&&
      Mmu.PTE_PRESENT = 0 := by decide
  refine ⟨free, fresh, ⟨by decide, Or.inl (by decide)⟩, ?_⟩
  obtain ⟨m', b, -, -, copied, finished⟩ := fork_finishes free fresh rfl
  obtain ⟨memory, -⟩ := finishFork_keeps (m'.withCpu b) 1
  have tables := slotTables_copied free copied
  have word : freshMaskWord b = 0x400000 := by
    rw [freshMaskWord, tables]
    decide
  have size : b.ram.len = RAM_MAP_WORDS := by
    rw [copied, copySlice, len_copyCells]
    rfl
  have marked (v : Word) : v ||| (1 <<< (1 % 8)) ≠ 0 := by
    intro zero
    have bit := congrArg (fun x : Word => x.getLsbD 1) zero
    simp at bit
  refine ⟨_, finished, ?_⟩
  have parent : (forking 0xFFF7F8).cpu.ram.getD (sliceCell (forking 0xFFF7F8).pid 0) 0 = 0 := by
    decide
  have cell : sliceCell 1 0 = (0x400000 : Word).toNat := by decide
  rw [memory, show (m'.withCpu b).cpu = b from rfl, markFresh, tables, if_pos (by decide)]
  rw [word, ram_memWriteWord, cell, getD_set_self _ (by rw [size]; decide)]
  exact marked _

end Unheaded.Ascend
