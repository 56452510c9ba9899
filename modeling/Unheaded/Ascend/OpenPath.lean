import Unheaded.Ascend.ArmFrames
import Unheaded.Ascend.Directory

/-!
# The path that open resolves

`SYS_open` walks a path one directory entry at a time, with its state in the argument registers.
-/

namespace Unheaded.Ascend

open Lib Mbc Fdtable FsWalk List BitVec Option Function Bpf
open BitVec (ofNat)

namespace Machine

def OnlyState (m m' : Machine) : Prop :=
  ∃ st : MbcCpuState, st.currentPid = m.cpu.state.currentPid ∧
    m' = { m with cpu := { m.cpu with state := st } }

variable {m m' : Machine}

theorem OnlyState.trans {m'' : Machine} (first : OnlyState m m') (second : OnlyState m' m'') :
    OnlyState m m'' := by
  obtain ⟨st, pid, rfl⟩ := first
  obtain ⟨st', pid', rfl⟩ := second
  exact ⟨st', pid'.trans pid, rfl⟩

theorem onlyState_setReg (m : Machine) (r : Reg) (v : Word) : OnlyState m (m.setReg r v) :=
  ⟨(m.setReg r v).cpu.state, rfl, rfl⟩

theorem onlyState_wake (m : Machine) : OnlyState m m.wake := ⟨m.wake.cpu.state, rfl, rfl⟩

theorem OnlyState.fdSetInode (same : OnlyState m m') (p : Byte) (f inum : Word) :
    OnlyState (m.fdSetInode p f inum) (m'.fdSetInode p f inum) := by
  obtain ⟨st, pid, rfl⟩ := same
  unfold Machine.fdSetInode putInode fdSetKind
  split
  · exact ⟨st, pid, rfl⟩
  · exact ⟨st, pid, rfl⟩

/-! ## What an open comes to -/

/-- The machine after an open of a path that leads to `target`. -/
def Outcome (m : Machine) (target : Option Word) (done : Machine) : Prop :=
  match target with
  | some inum =>
    if NOFILE ≤ (m.fdAlloc m.pid).toNat then OnlyState m done ∧ done.a0 = FAILED
    else OnlyState (m.fdSetInode m.pid (m.fdAlloc m.pid) inum) done ∧ done.a0 = m.fdAlloc m.pid
  | none => OnlyState m done ∧ done.a0 = FAILED

def Opens (m : Machine) (target : Option Word) : Prop :=
  ∃ n done, after (enter sysOpen) n m = .inr done ∧ Outcome m target done

variable {target : Option Word}

theorem OnlyState.outcome {done : Machine} (same : OnlyState m m')
    (outcome : Outcome m' target done) : Outcome m target done := by
  have pid : m'.pid = m.pid := by
    obtain ⟨st, pid, rfl⟩ := same
    exact pid
  have alloc : m'.fdAlloc m.pid = m.fdAlloc m.pid := by
    obtain ⟨st, -, rfl⟩ := same
    rfl
  unfold Outcome at outcome ⊢
  rw [pid, alloc] at outcome
  cases target with
  | none => exact ⟨same.trans outcome.1, outcome.2⟩
  | some inum =>
    dsimp only at outcome ⊢
    by_cases full : NOFILE ≤ (m.fdAlloc m.pid).toNat
    · rw [if_pos full] at outcome ⊢
      exact ⟨same.trans outcome.1, outcome.2⟩
    · rw [if_neg full] at outcome ⊢
      exact ⟨(same.fdSetInode _ _ _).trans outcome.1, outcome.2⟩

theorem Opens.next (entered : enter sysOpen m = .inl m') (same : OnlyState m m')
    (opens : Opens m' target) : Opens m target := by
  obtain ⟨n, done, run, outcome⟩ := opens
  refine ⟨n + 1, done, ?_, same.outcome outcome⟩
  rw [after_succ_of_next entered]
  exact run

theorem Opens.done {m done : Machine} {target : Option Word} (entered : m.sysOpen = .next done)
    (outcome : Outcome m target done) : Opens m target := by
  refine ⟨1, done, ?_, outcome⟩
  rw [after_one, enter, entered]

theorem opens_failed {m : Machine} (entered : m.sysOpen = m.openFailed) : Opens m none :=
  .done entered ⟨(onlyState_setReg m 11 0).trans (onlyState_setReg _ 8 FAILED), rfl⟩

theorem opens_found {m : Machine} {inum : Word} (entered : m.sysOpen = m.openFound inum) :
    Opens m (some inum) := by
  have cleared := onlyState_setReg m 11 0
  have pid : (m.setReg 11 0).pid = m.pid := rfl
  have alloc : (m.setReg 11 0).fdAlloc m.pid = m.fdAlloc m.pid := rfl
  unfold openFound at entered
  dsimp only at entered
  rw [pid, alloc] at entered
  by_cases full : NOFILE ≤ (m.fdAlloc m.pid).toNat
  · rw [if_pos full] at entered
    refine .done entered ?_
    unfold Outcome
    dsimp only
    rw [if_pos full]
    exact ⟨cleared.trans (onlyState_setReg _ 8 FAILED), rfl⟩
  · rw [if_neg full] at entered
    refine .done entered ?_
    unfold Outcome
    dsimp only
    rw [if_neg full]
    exact ⟨(cleared.fdSetInode _ _ _).trans (onlyState_setReg _ 8 _), rfl⟩

/-! ## One tick -/

/-- A walk stands before entry `idx` of a directory, with components to go. -/
structure AtEntry (m : Machine) (dir : Word) (comps : List (List Byte)) (idx : Nat) : Prop where
  number : dir.toNat < 65536
  cursor : m.a2 = ofNat 32 idx
  walk : m.a3 = (OPEN_TAG <<< 16) ||| dir
  path : PathAt m.cpu m.componentBase.toNat comps
  fits : m.componentBase.toNat + textLength comps < 2 ^ 32
  components : ∀ c ∈ comps, Component c

section Tick

variable {m : Machine} {dir : Word} {idx : Nat}

theorem tag_halves {dir : Word} (number : dir.toNat < 65536) :
    ((OPEN_TAG <<< 16) ||| dir) >>> 16 = OPEN_TAG ∧ ((OPEN_TAG <<< 16) ||| dir) &&& 0xFFFF = dir := by
  obtain ⟨half, rfl⟩ : ∃ half : BitVec 16, dir = half.setWidth 32 := ⟨dir.setWidth 16, by
      apply eq_of_toNat_eq
      rw [toNat_setWidth, toNat_setWidth]
      omega⟩
  unfold OPEN_TAG
  constructor
  · ext i hi
    interval_cases i <;> simp
  · ext i hi
    interval_cases i <;> simp

variable {comps : List (List Byte)}

theorem AtEntry.walking (here : m.AtEntry dir comps idx) : m.walking = true := by
  rw [Machine.walking, here.walk, (tag_halves here.number).1]
  rfl

theorem sysOpen_walking (here : m.AtEntry dir comps idx) {sb : Superblock}
    (super : m.cpu.superblock = some sb) (magic : sb.magic = FSMAGIC) :
    m.sysOpen = match m.cpu.directory dir with
      | none => m.openFailed
      | some db => m.openEntry db m.cpu.ninodes m.componentBase := by
  have ninodes : m.cpu.ninodes = sb.ninodes := by
    rw [ninodes, super]
    rfl
  have seeded : m.seeded = m := if_pos here.walking
  have number : m.a3 &&& 0xFFFF = dir := by rw [here.walk, (tag_halves here.number).2]
  have skip : (!m.walking && m.cpu.nameIs m.componentBase CONSOLE) ≠ true := by
    rw [here.walking]
    exact Bool.false_ne_true
  rw [sysOpen, if_neg skip, super]
  dsimp only
  rw [if_pos magic, ninodes]
  unfold openWalk directory dinodeBase
  dsimp only
  rw [seeded, number, super]
  dsimp only [Bind.bind, Option.bind]
  by_cases valid : inumValid dir sb.ninodes = true
  · rw [if_pos (show sb.magic = FSMAGIC ∧ inumValid dir sb.ninodes = true from ⟨magic, valid⟩),
      if_neg (by simpa using valid)]
    cases wordOfBlock (inodeBlock dir sb.inodestart) with
    | none => rfl
    | some ib =>
      dsimp only [Pure.pure]
      by_cases type : (m.cpu.ramWord (ib + dinodeWordOffset dir)).setWidth 16 = T_DIR
      · rw [if_neg (not_not.mpr type), filter_some, if_pos (decide_eq_true type)]
      · rw [if_pos type, filter_some, if_neg (by simpa using type)]
  · rw [if_neg (show ¬ (sb.magic = FSMAGIC ∧ inumValid dir sb.ninodes = true) from
      fun both => valid both.2), if_pos (by simpa using valid)]
    rfl

theorem toNat_direntCount {size : Word} (few : size.toNat / 16 ≤ 256) :
    (direntCount size).toNat = size.toNat / 16 := by
  have sixteen : DIRENT_BYTES.toNat = 16 := rfl
  have most : OPEN_MAX_DIRENTS.toNat = 256 := rfl
  have quotient : (size / DIRENT_BYTES).toNat = size.toNat / 16 := by
    rw [toNat_udiv, sixteen]
  rw [direntCount, if_neg (by rw [lt_def]; omega), quotient]

variable {db inum : Word} {c : List Byte}

theorem entryMatch_eq_some {b : Bpf} (found : b.entryMatch db c idx = some inum) :
    c.length ≤ 14 ∧ inum.toNat < 65536 := by
  obtain ⟨a, -, found⟩ := bind_eq_some_iff.mp found
  split at found <;> cases found
  next used =>
    refine ⟨used.2.2 ▸ length_entryName b a, ?_⟩
    have mask : (0xFFFF : Word).toNat = 2 ^ 16 - 1 := rfl
    rw [entryInum, toNat_and, mask, Nat.and_two_pow_sub_one_eq_mod]
    exact Nat.mod_lt _ (by decide)

theorem matchWord_parts {length : Nat} (short : length ≤ 14) :
    (matchWord comps length &&& Bpf.COMPONENT_HAS_MORE ≠ 0 ↔ comps ≠ []) ∧
      matchWord comps length &&& 0xFF = ofNat 32 length := by
  unfold matchWord
  by_cases last : comps = []
  · simp only [last]
    interval_cases length <;> decide
  · simp only [last, ne_eq]
    interval_cases length <;> decide

theorem openEntry_eq (here : m.AtEntry dir (c :: comps) idx) (few : m.cpu.entries db ≤ 256)
    (inside : idx < m.cpu.entries db) : m.openEntry db m.cpu.ninodes m.componentBase =
      match m.cpu.entryMatch db c idx with
      | some inum =>
        if comps = [] then m.openFound inum
        else m.openDescend inum (matchWord comps c.length) m.componentBase
      | none =>
        if idx + 1 < m.cpu.entries db then (m.setReg 10 (ofNat 32 (idx + 1))).again
        else m.openFailed := by
  have count := toNat_direntCount few
  have fits := here.fits
  have length : textLength (c :: comps) = c.length + 1 + textLength comps := rfl
  have found := @direntMatch_eq m.cpu db m.componentBase (direntCount (m.cpu.ramWord (db + 2)))
    c comps idx (by omega) (by rw [count]; exact inside) here.path (by omega)
    (here.components c mem_cons_self)
  unfold openEntry
  dsimp only
  rw [here.cursor, found]
  cases entry : m.cpu.entryMatch db c idx with
  | none =>
    have next : ofNat 32 idx + 1 = ofNat 32 (idx + 1) := (ofNat_add idx 1).symm
    have more : ofNat 32 (idx + 1) < direntCount (m.cpu.ramWord (db + 2)) ↔
        idx + 1 < m.cpu.entries db := by
      rw [lt_def, toNat_ofNat]
      unfold entries at *
      omega
    rw [next]
    exact if_congr more rfl rfl
  | some inum =>
    obtain ⟨flag, -⟩ := @matchWord_parts comps c.length (entryMatch_eq_some entry).1
    dsimp only [map_some]
    by_cases last : comps = []
    · rw [if_pos last, if_neg fun more => flag.mp more last]
    · rw [if_neg last, if_pos (flag.mpr last)]

theorem openEntry_empty (empty : m.cpu.entries db = 0) (ninodes base : Word) :
    m.openEntry db ninodes base = m.openFailed := by
  have count := @toNat_direntCount (m.cpu.ramWord (db + 2)) (by unfold entries at empty; omega)
  have outside (v : Word) : ¬ v < direntCount (m.cpu.ramWord (db + 2)) := by
    rw [lt_def]
    unfold entries at empty
    omega
  unfold openEntry direntMatch
  dsimp only
  rw [if_neg (outside _)]
  exact if_neg (outside _)

theorem componentBase_eq (component : Component c)
    (path : PathAt m.cpu m.pathPhys.toNat (c :: comps))
    (fits : m.pathPhys.toNat + c.length < 2 ^ 32) : m.componentBase = m.pathPhys := by
  have text := path.1
  obtain ⟨nonempty, notDot, plain⟩ := component
  cases c with
  | nil => exact absurd rfl nonempty
  | cons v c =>
    rw [bytesAt_succ, List.cons_append] at text
    obtain ⟨first, following⟩ := cons_eq_cons.mp text
    have byte := (ramByte_eq _ _).trans first
    unfold componentBase
    dsimp only
    rw [byte]
    have second : ¬ (v = Bpf.DOT ∧ m.cpu.ramByte (m.pathPhys + 1) = Bpf.SLASH) := by
      rintro ⟨rfl, separator⟩
      cases c with
      | nil => exact notDot rfl
      | cons u c =>
        rw [length_cons, bytesAt_succ] at following
        obtain ⟨next, -⟩ := cons_eq_cons.mp following
        have byte := @ramByte_add m.cpu m.pathPhys 1 (by rw [length_cons] at fits; omega)
        exact (plain u (by simp)).1 ((next.symm.trans byte.symm).trans separator)
    rw [if_neg second, if_neg (plain v mem_cons_self).1]

theorem AtEntry.descend {d : List Byte} (here : m.AtEntry dir (c :: d :: comps) idx)
    (short : c.length ≤ 14) (number : inum.toNat < 65536) :
    ∃ m₁, m.openDescend inum (matchWord (d :: comps) c.length) m.componentBase = m₁.again ∧
      OnlyState m m₁ ∧ m₁.wake.AtEntry inum (d :: comps) 0 := by
  obtain ⟨front, back⟩ := here.path
  have fits := here.fits
  have length : textLength (c :: d :: comps) = c.length + 1 + textLength (d :: comps) := rfl
  have length' : textLength (d :: comps) = d.length + 1 + textLength comps := rfl
  have component := here.components d (by simp)
  refine ⟨_, rfl, ?_, ?_⟩
  · exact ((onlyState_setReg _ 8 _).trans (onlyState_setReg _ 10 0)).trans (onlyState_setReg _ 11 _)
  · generalize moved : ((m.setReg 8 _).setReg 10 0).setReg 11 _ = m₁
    have start : m₁.wake.pathPhys = m.componentBase + ofNat 32 (c.length + 1) := by
      have base : m₁.wake.pathPhys = Phase12.pidPhysOffset m.pid + (m.a0 + (m.componentBase -
          m.pathPhys + (matchWord (d :: comps) c.length &&& 0xFF) + 1)) := by
        rw [← moved]
        rfl
      rw [base, (matchWord_parts short).2, ← BitVec.add_assoc, ← pathPhys, BitVec.add_assoc (_ - _),
        ← BitVec.add_assoc, BitVec.add_comm m.pathPhys, BitVec.sub_add_cancel, ofNat_add]
      rfl
    have place : m₁.wake.pathPhys.toNat = m.componentBase.toNat + c.length + 1 := by
      rw [start, toNat_add, toNat_ofNat]
      omega
    have path : PathAt m₁.wake.cpu m₁.wake.pathPhys.toNat (d :: comps) := by
      have state : m₁.wake.cpu = { m.cpu with state := m₁.wake.cpu.state } := by
        rw [← moved]
        rfl
      rw [place, state, pathAt_state]
      exact back
    have base := componentBase_eq component path (by rw [place]; omega)
    refine ⟨number, ?_, ?_, base ▸ path, by rw [base]; omega,
      fun c mem => here.components c (mem_cons_of_mem _ mem)⟩
    · rw [← moved]
      rfl
    · rw [← moved]
      rfl

theorem AtEntry.advance (here : m.AtEntry dir comps idx) :
    (m.setReg 10 (ofNat 32 (idx + 1))).wake.AtEntry dir comps (idx + 1) := by
  have base : (m.setReg 10 (ofNat 32 (idx + 1))).wake.componentBase = m.componentBase := rfl
  refine ⟨here.number, rfl, here.walk, ?_, ?_, here.components⟩
  · rw [base]
    exact (pathAt_state m.cpu _ _ _).mpr here.path
  · rw [base]
    exact here.fits

end Tick

/-! ## The walk -/

/-- The image that a walk needs: a valid superblock and no large directory. -/
structure Mounted (b : Bpf) : Prop where
  superblock : ∃ sb, b.superblock = some sb ∧ sb.magic = FSMAGIC
  directories : b.SmallDirectories

theorem Mounted.state {b : Bpf} (mounted : Mounted b) (st : MbcCpuState) :
    Mounted { b with state := st } := ⟨mounted.superblock, mounted.directories⟩

theorem Opens.again {m m' : Machine} {target : Option Word} (entered : m.sysOpen = m'.again)
    (same : OnlyState m m') (opens : Opens m'.wake target) : Opens m target :=
  .next ((enter_again entered).trans (congrArg Sum.inl (atEcall_back m')))
    (same.trans (onlyState_wake m')) opens

section Walk

variable {c : List Byte} {comps : List (List Byte)}

theorem opens_scan {db : Word}
    (later : ∀ m inum, Mounted m.cpu → comps ≠ [] → m.AtEntry inum comps 0 →
      Opens m (m.cpu.resolve inum comps))
    (left : Nat) {m : Machine} {dir : Word} {idx : Nat} (mounted : Mounted m.cpu)
    (here : m.AtEntry dir (c :: comps) idx) (found : m.cpu.directory dir = some db)
    (rest : idx + left = m.cpu.entries db) (given : 0 < left) :
    Opens m (((List.range' idx left).findSome? (m.cpu.entryMatch db c)).bind fun inum =>
      m.cpu.resolve inum comps) := by
  induction left generalizing m idx with
  | zero => omega
  | succ left ih =>
    obtain ⟨sb, super, magic⟩ := mounted.superblock
    have few := mounted.directories dir db found
    have tick := sysOpen_walking here super magic
    rw [found] at tick
    dsimp only at tick
    rw [openEntry_eq here few (by omega)] at tick
    rw [range'_succ, List.findSome?_cons]
    cases entry : m.cpu.entryMatch db c idx with
    | some inum =>
      obtain ⟨short, number⟩ := entryMatch_eq_some entry
      rw [entry] at tick
      cases comps with
      | nil => exact opens_found (tick.trans (if_pos rfl))
      | cons d comps =>
        obtain ⟨m₁, left, same, next⟩ := here.descend short number
        refine .again (tick.trans left) same ?_
        have awake := same.trans (onlyState_wake m₁)
        generalize m₁.wake = m' at next awake
        obtain ⟨st, -, rfl⟩ := awake
        have opens := later _ inum (mounted.state st) (cons_ne_nil _ _) next
        rwa [resolve_state] at opens
    | none =>
      rw [entry] at tick
      by_cases more : idx + 1 < m.cpu.entries db
      · rw [if_pos more] at tick
        refine .again tick (onlyState_setReg m 10 _) ?_
        have next := here.advance
        have same := (onlyState_setReg m 10 (ofNat 32 (idx + 1))).trans (onlyState_wake _)
        generalize (m.setReg 10 (ofNat 32 (idx + 1))).wake = m' at next same
        obtain ⟨st, -, rfl⟩ := same
        have opens := ih (mounted.state st) next found (by dsimp only; rw [entries_state]; omega)
          (by omega)
        simp only [resolve_state] at opens
        exact opens
      · rw [if_neg more] at tick
        have last : left = 0 := by omega
        subst last
        exact opens_failed tick

theorem opens_resolve {m : Machine} {dir : Word} (mounted : Mounted m.cpu)
    (given : comps ≠ []) (here : m.AtEntry dir comps 0) : Opens m (m.cpu.resolve dir comps) := by
  induction comps generalizing m dir with
  | nil => exact absurd rfl given
  | cons c comps ih =>
    obtain ⟨sb, super, magic⟩ := mounted.superblock
    have tick := sysOpen_walking here super magic
    rw [resolve]
    cases found : m.cpu.directory dir with
    | none =>
      rw [found] at tick
      exact opens_failed tick
    | some db =>
      rw [bind_some, lookupName, range_eq_range']
      by_cases empty : m.cpu.entries db = 0
      · rw [found] at tick
        dsimp only at tick
        rw [openEntry_empty empty] at tick
        rw [empty]
        exact opens_failed tick
      · exact opens_scan (fun m inum mounted given here => ih mounted given here) _ mounted here
          found (Nat.zero_add _) (Nat.pos_of_ne_zero empty)

end Walk

/-! ## The first tick -/

theorem component_unique {b : Bpf} {x y : List Byte} {t u : Byte}
    (plainX : ∀ v ∈ x, v ≠ Bpf.SLASH ∧ v ≠ 0) (plainY : ∀ v ∈ y, v ≠ Bpf.SLASH ∧ v ≠ 0)
    (endX : t = 0 ∨ t = Bpf.SLASH) (endY : u = 0 ∨ u = Bpf.SLASH) {a : Nat}
    (textX : b.bytesAt a (x.length + 1) = x ++ [t]) (textY : b.bytesAt a (y.length + 1) = y ++ [u]) :
    x = y := by
  induction x generalizing y a with
  | nil =>
    cases y with
    | nil => rfl
    | cons v y =>
      rw [bytesAt_succ] at textX textY
      have first := (cons_eq_cons.mp textX).1
      have second := (cons_eq_cons.mp textY).1
      obtain ⟨noSlash, noZero⟩ := plainY v mem_cons_self
      rcases endX with zero | slash
      · exact absurd ((second.symm.trans first).trans zero) noZero
      · exact absurd ((second.symm.trans first).trans slash) noSlash
  | cons w x ih =>
    cases y with
    | nil =>
      rw [bytesAt_succ] at textX textY
      have first := (cons_eq_cons.mp textX).1
      have second := (cons_eq_cons.mp textY).1
      obtain ⟨noSlash, noZero⟩ := plainX w mem_cons_self
      rcases endY with zero | slash
      · exact absurd ((first.symm.trans second).trans zero) noZero
      · exact absurd ((first.symm.trans second).trans slash) noSlash
    | cons v y =>
      rw [bytesAt_succ] at textX textY
      obtain ⟨first, restX⟩ := cons_eq_cons.mp textX
      obtain ⟨second, restY⟩ := cons_eq_cons.mp textY
      have rest := ih (fun v mem => plainX v (mem_cons_of_mem _ mem))
        (fun v mem => plainY v (mem_cons_of_mem _ mem)) restX restY
      rw [rest, ← first, second]

theorem plain_CONSOLE : ∀ v ∈ CONSOLE, v ≠ Bpf.SLASH ∧ v ≠ 0 := by decide

variable {comps : List (List Byte)}

theorem eq_of_nameIs {b : Bpf} {base : Word} {c : List Byte} (component : Component c)
    (path : PathAt b base.toNat (c :: comps)) (fits : base.toNat + 8 < 2 ^ 32)
    (same : b.nameIs base CONSOLE = true) : c = CONSOLE := by
  have seven : CONSOLE.length = 7 := rfl
  unfold nameIs at same
  rw [Bool.and_eq_true, List.all_eq_true] at same
  obtain ⟨letters, ends⟩ := same
  rw [ramByte_add (by omega), Bool.or_eq_true, beq_iff_eq, beq_iff_eq] at ends
  have name : b.bytesAt base.toNat CONSOLE.length = CONSOLE := by
    refine ext_getElem (length_bytesAt b _ _) fun k first second => ?_
    have letter := letters (CONSOLE[k], k) (List.mem_zipIdx_iff_getElem?.mpr
      (List.getElem?_eq_getElem second))
    rw [ramByte_add (by omega)] at letter
    simpa [bytesAt] using letter
  have text : b.bytesAt base.toNat (CONSOLE.length + 1) =
      CONSOLE ++ [b.ram.byteAt (base.toNat + CONSOLE.length)] := by
    rw [bytesAt_add, name]
    rfl
  refine component_unique component.plain plain_CONSOLE ?_ ends path.1 text
  unfold terminator
  split
  · exact Or.inl rfl
  · exact Or.inr rfl

theorem length_text (given : comps ≠ []) :
    (List.intercalate [Bpf.SLASH] comps ++ [0]).length = textLength comps := by
  induction comps with
  | nil => exact absurd rfl given
  | cons c comps ih =>
    cases comps with
    | nil => simp [textLength]
    | cons d comps =>
      have rest := ih (cons_ne_nil _ _)
      have length : textLength (c :: d :: comps) = c.length + 1 + textLength (d :: comps) := rfl
      have split : List.intercalate [Bpf.SLASH] (c :: d :: comps) ++ [0] =
          (c ++ [Bpf.SLASH]) ++ (List.intercalate [Bpf.SLASH] (d :: comps) ++ [0]) := by
        simp [List.intercalate]
      rw [split, length_append, rest, length_append]
      rfl

variable {m m' : Machine} {absolute : Bool}

theorem pathAt_componentBase (given : comps ≠ []) (components : ∀ c ∈ comps, Component c)
    (path : m.cpu.bytesAt m.pathPhys.toNat (pathText absolute comps).length = pathText absolute comps)
    (inSlice : m.a0.toNat + (pathText absolute comps).length ≤ 0x800000) :
    PathAt m.cpu m.componentBase.toNat comps ∧
      m.componentBase.toNat + textLength comps < 2 ^ 32 - 16 := by
  have length := length_text given
  have slice : sliceBase m.pid.toNat ≤ 0x80000000 := by
    unfold sliceBase
    split <;> omega
  have start : m.pathPhys.toNat = sliceBase m.pid.toNat + m.a0.toNat :=
    toNat_pidPhysOffset_add (by omega)
  cases absolute with
  | false =>
    have text : pathText false comps = List.intercalate [Bpf.SLASH] comps ++ [0] := rfl
    rw [text] at path inSlice
    have here := pathAt_of_text given path
    have base : m.componentBase = m.pathPhys := by
      cases comps with
      | nil => exact absurd rfl given
      | cons c comps =>
        have total : textLength (c :: comps) = c.length + 1 + textLength comps := rfl
        exact componentBase_eq (components c mem_cons_self) here (by omega)
    rw [base]
    exact ⟨here, by omega⟩
  | true =>
    have text : pathText true comps =
        [Bpf.SLASH] ++ (List.intercalate [Bpf.SLASH] comps ++ [0]) := rfl
    rw [text, length_append] at path inSlice
    obtain ⟨front, back⟩ := bytesAt_append_iff.mp path
    have separator : m.cpu.ramByte m.pathPhys = Bpf.SLASH := by
      rw [ramByte_eq]
      exact (cons_eq_cons.mp front).1
    have base : m.componentBase = m.pathPhys + 1 := by
      unfold componentBase
      dsimp only
      rw [separator, if_neg fun dot => absurd dot.1 (by decide), if_pos rfl]
    have place : m.componentBase.toNat = m.pathPhys.toNat + 1 := by
      have one : (1 : Word).toNat = 1 := rfl
      rw [base, toNat_add]
      omega
    rw [place]
    exact ⟨pathAt_of_text given back, by omega⟩

theorem seeded_spec (fresh : m.a3 >>> 16 ≠ OPEN_TAG) :
    m.seeded = (m.setReg 10 0).setReg 11 ((OPEN_TAG <<< 16) ||| ROOTINO) ∧
      m.seeded.walking = true := by
  have idle : m.walking ≠ true := fun walking => fresh (beq_iff_eq.mp walking)
  have seeded : m.seeded = (m.setReg 10 0).setReg 11 ((OPEN_TAG <<< 16) ||| ROOTINO) := if_neg idle
  refine ⟨seeded, ?_⟩
  rw [seeded]
  change (((OPEN_TAG <<< 16) ||| ROOTINO) >>> 16 == OPEN_TAG) = true
  decide

theorem sysOpen_seeded {sb : Superblock} (fresh : m.a3 >>> 16 ≠ OPEN_TAG)
    (super : m.cpu.superblock = some sb) (magic : sb.magic = FSMAGIC)
    (notConsole : m.cpu.nameIs m.componentBase CONSOLE ≠ true) : m.sysOpen = m.seeded.sysOpen := by
  obtain ⟨seeded, walking⟩ := seeded_spec fresh
  have base : m.seeded.componentBase = m.componentBase := by rw [seeded]; rfl
  have super' : m.seeded.cpu.superblock = some sb := by rw [seeded]; exact super
  have again : m.seeded.seeded = m.seeded := if_pos walking
  have first : (!m.walking && m.cpu.nameIs m.componentBase CONSOLE) ≠ true := by
    rw [Bool.eq_false_of_not_eq_true notConsole, Bool.and_false]
    exact Bool.false_ne_true
  have second : (!m.seeded.walking && m.seeded.cpu.nameIs m.componentBase CONSOLE) ≠ true := by
    rw [walking]
    exact Bool.false_ne_true
  unfold sysOpen
  rw [base, super, super', if_neg first, if_neg second]
  dsimp only
  rw [if_pos magic, if_pos magic]
  unfold openWalk
  rw [again]

theorem opens_path (mounted : Mounted m.cpu) (given : comps ≠ [])
    (components : ∀ c ∈ comps, Component c)
    (path : m.cpu.bytesAt m.pathPhys.toNat (pathText absolute comps).length = pathText absolute comps)
    (inSlice : m.a0.toNat + (pathText absolute comps).length ≤ 0x800000)
    (notConsole : comps.head? ≠ some CONSOLE) (fresh : m.a3 >>> 16 ≠ OPEN_TAG) :
    Opens m (m.cpu.resolve ROOTINO comps) := by
  obtain ⟨here, fits⟩ := pathAt_componentBase given components path inSlice
  obtain ⟨sb, super, magic⟩ := mounted.superblock
  obtain ⟨seeded, -⟩ := seeded_spec fresh
  have other : m.cpu.nameIs m.componentBase CONSOLE ≠ true := by
    intro same
    cases comps with
    | nil => exact given rfl
    | cons c comps =>
      have console := eq_of_nameIs (components c mem_cons_self) here (by omega) same
      rw [console] at notConsole
      exact notConsole rfl
  have same : OnlyState m m.seeded := by
    rw [seeded]
    exact (onlyState_setReg m 10 0).trans (onlyState_setReg _ 11 _)
  have base : m.seeded.componentBase = m.componentBase := by rw [seeded]; rfl
  have start : m.seeded.AtEntry ROOTINO comps 0 := by
    refine ⟨by decide, by rw [seeded]; rfl, by rw [seeded]; rfl, ?_, by rw [base]; omega, components⟩
    rw [base, seeded]
    exact (pathAt_state m.cpu _ _ _).mpr here
  have opens : Opens m.seeded (m.cpu.resolve ROOTINO comps) := by
    obtain ⟨st, -, seeded⟩ := same
    rw [seeded] at start ⊢
    have opens := opens_resolve (mounted.state st) given start
    rwa [resolve_state] at opens
  obtain ⟨n, done, run, outcome⟩ := opens
  refine ⟨n, done, ?_, same.outcome outcome⟩
  have first : enter sysOpen m = enter sysOpen m.seeded := by
    rw [enter, enter, sysOpen_seeded fresh super magic other]
  cases n with
  | zero => cases run
  | succ n => rw [after_succ_congr first, run]

/-! ## The memory -/

theorem ram_allows : Allows (fun m m' => m'.cpu.ram = m.cpu.ram) fun _ => False where
  refl _ := rfl
  trans first second := second.trans first
  cpu _ _ ram := Store.ext ram.len fun i _ => ram.cells i id
  translate m va := ram_translateAddress m.cpu va
  halt _ := rfl
  kinds _ _ _ := rfl
  inodes _ _ _ := rfl
  keys _ _ := rfl

theorem ram_entered {k : Nat} (run : after (enter sysOpen) k m = .inl m') :
    m'.cpu.ram = m.cpu.ram := by
  induction k generalizing m with
  | zero =>
    cases run
    rfl
  | succ k ih =>
    have ram := (ram_allows.sysOpen (m := m)).machine
    cases arm : m.sysOpen with
    | next done =>
      have stop : enter sysOpen m = .inr done := by rw [enter, arm]
      simp [after_succ_of_stop stop] at run
    | leave next req =>
      have again : enter sysOpen m = .inl next.atEcall := by rw [enter, arm]
      rw [after_succ_of_next again] at run
      rw [arm] at ram
      exact (ih run).trans ram

/-! ## Descriptors -/

def HasFree (m : Machine) : Prop := ∃ fd : Word, fd.toNat < NOFILE ∧ m.fdKind m.pid fd = FD_FREE

theorem fdAlloc_spec (m : Machine) : (¬ NOFILE ≤ (m.fdAlloc m.pid).toNat ↔ m.HasFree) ∧
      (¬ NOFILE ≤ (m.fdAlloc m.pid).toNat → m.fdKind m.pid (m.fdAlloc m.pid) = FD_FREE) := by
  have most : NOFILE = 16 := rfl
  unfold fdAlloc
  cases found : (range NOFILE).find? fun fd =>
      m.fdKind m.pid (ofNat 32 fd) = FD_FREE with
  | none =>
    have full : NOFILE ≤ (ofNat 32 ((none : Option Nat).getD NOFILE)).toNat := by decide
    refine ⟨⟨fun free => absurd full free, ?_⟩, fun free => absurd full free⟩
    rintro ⟨fd, small, free⟩
    have used := List.find?_eq_none.mp found fd.toNat (mem_range.mpr small)
    rw [ofNat_toNat] at used
    exact absurd (decide_eq_true free) used
  | some fd =>
    have small := mem_range.mp (List.mem_of_find?_eq_some found)
    have free : m.fdKind m.pid (ofNat 32 fd) = FD_FREE := by
      simpa using List.find?_some found
    have value : (ofNat 32 fd : Word).toNat = fd := by
      rw [toNat_ofNat]
      omega
    rw [getD_some]
    refine ⟨⟨fun _ => ⟨ofNat 32 fd, by omega, free⟩, fun _ => by omega⟩, fun _ => free⟩

/-- The call has returned a descriptor that was free and is now bound to an
inode, at its start. -/
structure BoundTo (m done : Machine) (inum : Word) : Prop where
  small : done.a0.toNat < NOFILE
  free : m.fdKind m.pid done.a0 = FD_FREE
  kind : done.fdKind m.pid done.a0 = FD_INODE
  entry : done.fdInode m.pid done.a0 = ⟨inum, 0⟩

end Machine

open Machine

/-- An open that is not under way ends.  It returns a descriptor bound to the
inode that the path resolves to from the root, where the path resolves and a
descriptor is free, and else -1.  No tick writes to the RAM. -/
theorem open_resolves_path {m : Machine} {absolute : Bool} {comps : List (List Byte)}
    (sized : m.Sized) (slot : m.pid.toNat < MAX_PROCESSES) (mounted : Mounted m.cpu)
    (given : comps ≠ []) (components : ∀ c ∈ comps, Component c)
    (notConsole : comps.head? ≠ some CONSOLE)
    (path : m.cpu.bytesAt m.pathPhys.toNat (pathText absolute comps).length =
      pathText absolute comps) (inSlice : m.a0.toNat + (pathText absolute comps).length ≤ 0x800000)
    (fresh : m.a3 >>> 16 ≠ OPEN_TAG) : ∃ n done, after (enter sysOpen) n m = .inr done ∧
      (∀ inum, BoundTo m done inum ↔ m.cpu.resolve ROOTINO comps = some inum ∧ m.HasFree) ∧
      ((¬ ∃ inum, m.cpu.resolve ROOTINO comps = some inum ∧ m.HasFree) → done.a0 = FAILED) ∧
      done.cpu.ram = m.cpu.ram ∧
      ∀ k m', after (enter sysOpen) k m = .inl m' → m'.cpu.ram = m.cpu.ram := by
  obtain ⟨n, done, run, outcome⟩ := opens_path mounted given components path inSlice notConsole fresh
  obtain ⟨alloc, lowest⟩ := fdAlloc_spec m
  refine ⟨n, done, run, ?_⟩
  have failed (nothing : OnlyState m done ∧ done.a0 = FAILED)
      (unresolved : ¬ ∃ inum, m.cpu.resolve ROOTINO comps = some inum ∧ m.HasFree) :
      (∀ inum, BoundTo m done inum ↔ m.cpu.resolve ROOTINO comps = some inum ∧ m.HasFree) ∧
        ((¬ ∃ inum, m.cpu.resolve ROOTINO comps = some inum ∧ m.HasFree) → done.a0 = FAILED) ∧
        done.cpu.ram = m.cpu.ram ∧
        ∀ k m', after (enter sysOpen) k m = .inl m' → m'.cpu.ram = m.cpu.ram := by
    obtain ⟨⟨st, -, rfl⟩, answer⟩ := nothing
    refine ⟨fun inum => ⟨fun bound => ?_, fun found => absurd ⟨inum, found⟩ unresolved⟩,
      fun _ => answer, rfl, fun _ _ => ram_entered⟩
    have small := bound.small
    rw [answer] at small
    exact absurd small (by decide)
  cases target : m.cpu.resolve ROOTINO comps with
  | none =>
    rw [target] at outcome failed
    exact failed outcome (by simp)
  | some inum =>
    rw [target] at outcome failed
    unfold Outcome at outcome
    dsimp only at outcome
    by_cases full : NOFILE ≤ (m.fdAlloc m.pid).toNat
    · rw [if_pos full] at outcome
      refine failed outcome ?_
      rintro ⟨-, -, free⟩
      exact alloc.mpr free full
    · rw [if_neg full] at outcome
      obtain ⟨⟨st, -, bound⟩, answer⟩ := outcome
      have few := Nat.not_le.mp full
      have kind : done.fdKind m.pid done.a0 = FD_INODE := by
        rw [answer, bound]
        exact (fdKind_fdSetKind (sized.putInode _ _ _) slot few _ _ _).trans (if_pos ⟨rfl, rfl⟩)
      have entry : done.fdInode m.pid done.a0 = ⟨inum, 0⟩ := by
        rw [answer, bound]
        exact (fdInode_fdSetKind _ _ _ _ _).trans (fdInode_putInode sized slot few _)
      refine ⟨fun i => ⟨fun bound => ⟨?_, alloc.mp full⟩, ?_⟩,
        fun unresolved => absurd ⟨inum, rfl, alloc.mp full⟩ unresolved, ?_, fun _ _ => ram_entered⟩
      · have same := entry.symm.trans bound.entry
        rw [FdInode.mk.injEq] at same
        rw [same.1]
      · rintro ⟨same, -⟩
        cases same
        exact ⟨by rw [answer]; exact few, by rw [answer]; exact lowest full, kind, entry⟩
      · rw [bound]
        rw [cpu_fdSetInode]

/-- The path `a` at address 0, and an image whose root directory has one entry:
`a`, with inode 2. -/
def rootedDisk : Nat → Word
  | 0 => 0x00000061
  | 0x200100 => FSMAGIC
  | 0x200103 => 3
  | 0x200106 => 2
  | 0x200210 => 1
  | 0x200212 => 16
  | 0x200213 => 3
  | 0x200300 => 0x00610002
  | _ => 0

def opener : Machine := .boot { boot { MbcCpuState.default with privLevel := 3 } 0 [] [] with
    ram := Store.ofFn RAM_MAP_WORDS rootedDisk
    ascendLinux := true }

theorem mounted_opener : Mounted opener.cpu := by
  refine ⟨⟨_, rfl, rfl⟩, fun dir db found => ?_⟩
  obtain ⟨base, -⟩ := filter_eq_some_iff.mp found
  have super : opener.cpu.superblock = some ⟨FSMAGIC, 3, 2⟩ := rfl
  unfold dinodeBase at base
  rw [super] at base
  dsimp only [Bind.bind, Option.bind] at base
  split at base
  next valid =>
    -- the root and the file are the only inodes
    have bounds := valid.2
    unfold inumValid at bounds
    rw [Bool.and_eq_true, decide_eq_true_iff, decide_eq_true_iff]
      at bounds
    have low : 1 ≤ dir.toNat := bounds.1
    have high : dir.toNat < 3 := bounds.2
    have number : dir = 1 ∨ dir = 2 := by
      rcases Nat.lt_or_ge dir.toNat 2 with one | two
      · exact Or.inl (eq_of_toNat_eq (by change dir.toNat = 1; omega))
      · exact Or.inr (eq_of_toNat_eq (by change dir.toNat = 2; omega))
    rcases number with rfl | rfl
    · cases base
      decide
    · cases base
      decide
  next => cases base

theorem opener_opens : ∃ n done, after (enter sysOpen) n opener = .inr done ∧
    BoundTo opener done 2 := by
  have components : ∀ c ∈ [[(0x61 : Byte)]], Component c := by
    intro c member
    rw [mem_singleton.mp member]
    exact ⟨by decide, by decide, by decide⟩
  obtain ⟨n, done, run, bound, -⟩ := @open_resolves_path opener false [[0x61]] ⟨rfl, rfl⟩ (by decide)
    mounted_opener (by decide) components (by decide) (by decide) (by decide) (by decide)
  exact ⟨n, done, run, (bound 2).mpr ⟨by decide, 0, by decide, by decide⟩⟩

end Unheaded.Ascend
