import Unheaded.Ascend.ArmFrames
import Unheaded.Lib.Events

/-!
# Descriptors that share a file

`dup` and `fork` make a new descriptor for an open file.
-/

namespace Unheaded.Ascend

open Lib Mbc Fdtable List BitVec Option Machine
open BitVec (ofNat)

namespace Machine

variable {m : Machine}

theorem foldl_inherit (sized : m.Sized) {child : Byte} (slot : child.toNat < MAX_PROCESSES)
    (fds : List Nat) (files : ∀ f ∈ fds, f < NOFILE) : let m' := fds.foldl (fun m fd =>
      m.fdSetKind child (ofNat 32 fd) (m.fdKind m.pid (ofNat 32 fd))) m
    m'.Sized ∧ (∀ q g, m'.fdInode q g = m.fdInode q g) ∧ ∀ q g, m'.fdKind q g =
        if q = child ∧ g.toNat ∈ fds then m.fdKind m.pid g else m.fdKind q g := by
  induction fds generalizing m with
  | nil => exact ⟨sized, fun _ _ => rfl, fun q g => by simp⟩
  | cons f fds ih =>
    have file : f < NOFILE := files f mem_cons_self
    have small : (ofNat 32 f).toNat = f := by
      unfold NOFILE at file
      rw [toNat_ofNat]
      omega
    have kinds := fdKind_fdSetKind sized slot (by rw [small]; exact file)
    obtain ⟨sized', inodes, rest⟩ := ih
      (sized.fdSetKind child (ofNat 32 f) (m.fdKind m.pid (ofNat 32 f)))
      (fun g mem => files g (mem_cons_of_mem f mem))
    refine ⟨sized', fun q g => (inodes q g).trans (by simp), fun q g => ?_⟩
    rw [foldl_cons, rest, pid_fdSetKind]
    have parent : (m.fdSetKind child (ofNat 32 f) (m.fdKind m.pid (ofNat 32 f))).fdKind
        m.pid g = m.fdKind m.pid g := by
      rw [kinds]
      split
      next same => rw [same.2]
      next => rfl
    rw [parent, kinds]
    by_cases here : q = child
    · subst here
      by_cases first : g = ofNat 32 f
      · subst first
        simp [small]
      · have other : g.toNat ≠ f := by
          intro equal
          exact first (by rw [← equal, ofNat_toNat, setWidth_eq])
        simp [first, other]
    · simp [here]

theorem inheritFds_spec (sized : m.Sized) {child : Byte} (slot : child.toNat < MAX_PROCESSES) :
    (m.inheritFds child).Sized ∧ (∀ q g, (m.inheritFds child).fdInode q g = m.fdInode q g) ∧
      ∀ g : Word, g.toNat < NOFILE → (m.inheritFds child).fdKind child g = m.fdKind m.pid g := by
  obtain ⟨sized', inodes, kinds⟩ := foldl_inherit sized slot (range NOFILE)
    (fun f mem => mem_range.mp mem)
  refine ⟨sized', inodes, fun g file => ?_⟩
  rw [inheritFds, kinds, if_pos ⟨rfl, mem_range.mpr file⟩]

theorem copyTick_tables (m : Machine) (child : Byte) :
    (m.copyTick child).fdTable = m.fdTable ∧ (m.copyTick child).fdInodeMap = m.fdInodeMap ∧
      (m.copyTick child).pid = m.pid := by
  unfold copyTick pid withCpu
  rw [state_copyForkChunk]
  unfold beginFork
  split
  · refine ⟨rfl, rfl, ?_⟩
    simp [setReg, withCpu, Bpf.setReg, buildPgd]
  · exact ⟨rfl, rfl, rfl⟩

theorem finishFork_spec (sized : m.Sized) {child : Nat} (slot : child < MAX_PROCESSES) :
    (m.finishFork child).Sized ∧ (∀ q g, (m.finishFork child).fdInode q g = m.fdInode q g) ∧
      ∀ g : Word, g.toNat < NOFILE →
        (m.finishFork child).fdKind (ofNat 8 child) g = m.fdKind m.pid g := by
  have small : (ofNat 8 child).toNat < MAX_PROCESSES := by
    rw [toNat_ofNat]
    omega
  -- the row of the child is written before its descriptors
  obtain ⟨sized', inodes, kinds⟩ := @inheritFds_spec
    { m with procTable := m.procTable.set child (m.childRow (ofNat 8 child)) }
    ⟨sized.fdTable, sized.fdInodeMap⟩ (ofNat 8 child) small
  unfold finishFork
  dsimp only
  generalize inheritFds _ (ofNat 8 child) = inherited at *
  split
  · exact ⟨⟨sized'.fdTable, sized'.fdInodeMap⟩, inodes, kinds⟩
  · exact ⟨⟨sized'.fdTable, sized'.fdInodeMap⟩, inodes, kinds⟩

theorem sysFork_unfinished (unfinished : m.finishedChild = none) :
    m.sysFork.machine.fdTable = m.fdTable ∧ m.sysFork.machine.fdInodeMap = m.fdInodeMap := by
  unfold sysFork
  cases free : m.forkChild with
  | none => exact ⟨rfl, rfl⟩
  | some child =>
    obtain ⟨kinds, inodes, -⟩ := copyTick_tables m (ofNat 8 child)
    have more : (m.copyTick (ofNat 8 child)).a2 + 16 < TOTAL_COPY := by
      rw [finishedChild, free, filter_some] at unfinished
      by_contra done
      rw [if_pos (by rw [decide_eq_false done]; rfl)] at unfinished
      cases unfinished
    dsimp only
    rw [if_pos more]
    exact ⟨kinds, inodes⟩

end Machine

open Machine

/-- The calls that work on descriptors. -/
inductive FileCall where
  | open
  | dup
  | close
  | read
  | fork

def FileCall.arm : FileCall → Machine → Arm
  | .open => sysOpen
  | .dup => sysDup
  | .close => sysClose
  | .read => sysRead
  | .fork => sysFork

/-- A call, with the CPU and the memory as the calling process left them. -/
structure CallEvent where
  call : FileCall
  cpu : Bpf

def CallEvent.on (e : CallEvent) (m : Machine) : Machine := m.withCpu e.cpu

def afterCall (m : Machine) (e : CallEvent) : Machine := (e.call.arm (e.on m)).machine

namespace Machine

/-- The descriptor that a successful `dup` makes. -/
def duplicate (m : Machine) : Option Word :=
  if m.fdKind m.pid m.a0 = FD_FREE then none
  else if NOFILE ≤ (m.fdAlloc m.pid).toNat then none
  else some (m.fdAlloc m.pid)

theorem sysDup_some {m : Machine} {g : Word} (made : m.duplicate = some g) :
    g.toNat < NOFILE ∧ m.fdKind m.pid m.a0 ≠ FD_FREE ∧
      m.sysDup.machine = (m.fdSetKind m.pid g (m.fdKind m.pid m.a0)).setReg 8 g := by
  unfold duplicate at made
  split at made
  · cases made
  · rename_i isOpen
    split at made <;> cases made
    rename_i room
    refine ⟨Nat.not_le.mp room, isOpen, ?_⟩
    rw [sysDup]
    rw [if_neg isOpen, if_neg room]
    rfl

end Machine

/-- Descriptor `g` of slot `q` in `m'` is the file that `f` of `p` was in `m`,
and a following `fstat` of `q` says so. -/
structure SharesFile (m : Machine) (p : Byte) (f : Word) (m' : Machine) (q : Byte) (g : Word) :
    Prop where
  kind : m'.fdKind q g = m.fdKind p f
  inode : m.fdKind p f = FD_INODE → (m'.fdInode q g).inum = (m.fdInode p f).inum
  fstat : m.fdKind p f = FD_INODE → ∀ b : Bpf, b.state.currentPid = q → b.state.regs 8 = g →
    ∀ st, (m'.withCpu b).statOf = some st → st.ino = (m.fdInode p f).inum

def EntryNames (m : Machine) (p : Byte) (f : Word) (q : Byte) (g : Word) : Prop :=
  m.fdKind p f = FD_INODE → (m.fdInode q g).inum = (m.fdInode p f).inum

variable {m : Machine}

theorem statOf_ino {st : Stat} (found : m.statOf = some st) :
    st.ino = (m.fdInode m.pid m.a0).inum := by
  unfold statOf at found
  split at found
  · obtain ⟨db, -, rfl⟩ := map_eq_some_iff.mp found
    rfl
  · cases found

theorem SharesFile.of_entry {m' : Machine} {p q : Byte} {f g : Word}
    (kind : m'.fdKind q g = m.fdKind p f)
    (inode : m.fdKind p f = FD_INODE → (m'.fdInode q g).inum = (m.fdInode p f).inum) :
    SharesFile m p f m' q g := by
  refine ⟨kind, inode, fun file b slot arg st found => ?_⟩
  subst slot arg
  exact (statOf_ino found).trans (inode file)

/-- What a call of a run makes shares the file it was made from: the new
descriptor of `dup`, and every open descriptor of the parent in the child. -/
def Shared (m : Machine) (e : CallEvent) : Prop :=
  let before := e.on m
  match e.call with
  | .dup => ∀ g, before.duplicate = some g →
      SharesFile before before.pid before.a0 (afterCall m e) before.pid g
  | .fork => ∀ child, before.finishedChild = some child → ∀ f : Word, f.toNat < NOFILE →
      before.fdKind before.pid f ≠ FD_FREE →
      SharesFile before before.pid f (afterCall m e) (ofNat 8 child) f
  | _ => True

/-- The entries of the new descriptors name the right inodes before the call. -/
def EntriesName (m : Machine) (e : CallEvent) : Prop :=
  let before := e.on m
  match e.call with
  | .dup => ∀ g, before.duplicate = some g → EntryNames before before.pid before.a0 before.pid g
  | .fork => ∀ child, before.finishedChild = some child → ∀ f : Word, f.toNat < NOFILE →
      EntryNames before before.pid f (ofNat 8 child) f
  | _ => True

theorem shared_dup_iff {e : CallEvent} (sized : m.Sized) (dup : e.call = .dup) :
    Shared m e ↔ EntriesName m e := by
  rw [Shared, EntriesName, dup]
  refine forall_congr' fun g => imp_congr_right fun made => ?_
  have sized' : (e.on m).Sized := ⟨sized.fdTable, sized.fdInodeMap⟩
  obtain ⟨file, isOpen, machine⟩ := sysDup_some made
  have slot : (e.on m).pid.toNat < MAX_PROCESSES := by
    by_contra outside
    exact isOpen (fdKind_of_slot_ge sized' (Nat.not_lt.mp outside))
  have after : afterCall m e =
      ((e.on m).fdSetKind (e.on m).pid g ((e.on m).fdKind (e.on m).pid (e.on m).a0)).setReg 8 g := by
    rw [afterCall, dup, FileCall.arm, machine]
  have inodes (q : Byte) (f : Word) : (afterCall m e).fdInode q f = (e.on m).fdInode q f := by
    rw [after]
    exact fdInode_fdSetKind _ _ _ _ _
  constructor
  · intro shares inode
    rw [← inodes]
    exact shares.inode inode
  · intro names
    refine .of_entry ?_ (fun inode => (congrArg FdInode.inum (inodes _ _)).trans (names inode))
    rw [after]
    exact (fdKind_fdSetKind sized' slot file _ _ _).trans (if_pos ⟨rfl, rfl⟩)

theorem shared_fork_iff {e : CallEvent} (sized : m.Sized) (fork : e.call = .fork) :
    Shared m e ↔ EntriesName m e := by
  rw [Shared, EntriesName, fork]
  refine forall_congr' fun child => imp_congr_right fun finished => forall_congr' fun f =>
    imp_congr_right fun file => ?_
  obtain ⟨slot, arm⟩ := sysFork_finished finished
  obtain ⟨kindTable, inodeTable, pid⟩ := copyTick_tables (e.on m) (ofNat 8 child)
  have sized' : ((e.on m).copyTick (ofNat 8 child)).Sized :=
    ⟨by rw [kindTable]; exact sized.fdTable, by rw [inodeTable]; exact sized.fdInodeMap⟩
  obtain ⟨-, inodes, kinds⟩ := finishFork_spec sized' slot
  have after : afterCall m e = ((e.on m).copyTick (ofNat 8 child)).finishFork child := by
    rw [afterCall, fork, FileCall.arm, arm, Arm.machine]
  have entries (q : Byte) (g : Word) : (afterCall m e).fdInode q g = (e.on m).fdInode q g := by
    rw [after, inodes, fdInode, fdInode, inodeTable]
  constructor
  · intro shares inode
    rw [← entries]
    exact (shares (by rw [inode]; decide)).inode inode
  · intro names isOpen
    refine .of_entry ?_ (fun inode => (congrArg FdInode.inum (entries _ _)).trans (names inode))
    rw [after, kinds f file, fdKind, fdKind, kindTable, pid]

theorem shared_iff (e : CallEvent) (sized : m.Sized) : Shared m e ↔ EntriesName m e := by
  cases call : e.call with
  | dup => exact shared_dup_iff sized call
  | fork => exact shared_fork_iff sized call
  | «open» => simp [Shared, EntriesName, call]
  | close => simp [Shared, EntriesName, call]
  | read => simp [Shared, EntriesName, call]

theorem sized_allows : Allows (fun m m' => m.Sized → m'.Sized) fun _ => True where
  refl _ := id
  trans first second := second ∘ first
  cpu _ _ _ sized := sized.withCpu _
  translate _ _ sized := sized.withCpu _
  halt _ sized := sized.withCpu _
  kinds _ _ len sized := ⟨len.trans sized.fdTable, sized.fdInodeMap⟩
  inodes _ _ len sized := ⟨sized.fdTable, len.trans sized.fdInodeMap⟩
  keys _ _ sized := ⟨sized.fdTable, sized.fdInodeMap⟩

theorem Machine.Sized.sysFork {m : Machine} (sized : m.Sized) : m.sysFork.machine.Sized := by
  cases finished : m.finishedChild with
  | none =>
    obtain ⟨kinds, inodes⟩ := sysFork_unfinished finished
    exact ⟨by rw [kinds]; exact sized.fdTable, by rw [inodes]; exact sized.fdInodeMap⟩
  | some child =>
    obtain ⟨slot, arm⟩ := sysFork_finished finished
    obtain ⟨kinds, inodes, -⟩ := copyTick_tables m (ofNat 8 child)
    have copied : (m.copyTick (ofNat 8 child)).Sized :=
      ⟨by rw [kinds]; exact sized.fdTable, by rw [inodes]; exact sized.fdInodeMap⟩
    obtain ⟨after, -⟩ := finishFork_spec copied slot
    rw [arm, Arm.machine]
    exact after

theorem sized_afterCall (m : Machine) (e : CallEvent) (sized : m.Sized) : (afterCall m e).Sized := by
  have before : (e.on m).Sized := sized.withCpu _
  unfold afterCall
  cases e.call with
  | «open» => exact sized_allows.sysOpen.machine before
  | dup => exact sized_allows.sysDup.machine before
  | close => exact sized_allows.sysClose.machine before
  | read => exact (sized_allows.sysRead fun _ _ => trivial).machine before
  | fork => exact before.sysFork

/-- In every run of calls, each `dup` and each finished `fork` shares the files
exactly when the entries at the new descriptors' places named the inodes of the
files already. -/
theorem descriptors_share_iff {m : Machine} (sized : m.Sized) (events : List CallEvent) :
    Along afterCall Shared m events ↔ Along afterCall EntriesName m events :=
  along_congr sized_afterCall (fun _ e => shared_iff e) sized events

def callerCpu (ram : Nat → Word) : Bpf :=
  { Bpf.boot { MbcCpuState.default with privLevel := 3 } 0 [] [] with
    ram := Store.ofFn RAM_MAP_WORDS ram
    ascendLinux := true }

/-- The path `console` at address 0. -/
def consoleCpu : Bpf := callerCpu fun
  | 0 => 0x736E6F63
  | 1 => 0x00656C6F
  | _ => 0

/-- The path `a` at address 0, and an image whose root directory has one entry:
the file `a` with inode 2. -/
def fileCpu : Bpf := callerCpu fun
  | 0 => 0x00000061
  | 0x200100 => FsWalk.FSMAGIC
  | 0x200103 => 5
  | 0x200106 => 2
  | 0x200210 => 1
  | 0x200212 => 16
  | 0x200213 => 3
  | 0x200300 => 0x00610002
  | _ => 0

theorem console_shared :
    Along afterCall Shared (.boot consoleCpu) [⟨.open, consoleCpu⟩, ⟨.dup, consoleCpu⟩] := by
  refine (descriptors_share_iff ⟨rfl, rfl⟩ _).mpr ⟨trivial, ?_, trivial⟩
  intro g _ inode
  exact absurd inode (by decide)

/-- A duplicated file descriptor names no inode. -/
theorem duplicate_names_no_inode :
    ¬ Along afterCall Shared (.boot fileCpu) [⟨.open, fileCpu⟩, ⟨.dup, fileCpu⟩] := by
  rintro ⟨-, shared, -⟩
  have inode := (shared 1 (by decide)).inode (by decide)
  revert inode
  decide

end Unheaded.Ascend
