import Unheaded.Ascend.Machine

/-!
# Descriptor tables

A descriptor has its kind in `FD_TABLE` and, when it is a file, its inode
number and read offset in `FD_INODE_MAP`; both maps have one row of `NOFILE`
entries for each process slot.
-/

namespace Unheaded.Ascend

open Lib Mbc Fdtable
open BitVec (ofNat)

def fdSlot (pid : Byte) (fd : Word) : Nat := pid.toNat * NOFILE + fd.toNat

theorem fdSlot_inj {p q : Byte} {f g : Word} (hf : f.toNat < NOFILE) (hg : g.toNat < NOFILE)
    (same : fdSlot p f = fdSlot q g) : p = q ∧ f = g := by
  unfold fdSlot NOFILE at *
  constructor
  · apply BitVec.eq_of_toNat_eq
    omega
  · apply BitVec.eq_of_toNat_eq
    omega

theorem fdSlot_lt {p : Byte} {f : Word} (hp : p.toNat < MAX_PROCESSES) (hf : f.toNat < NOFILE) :
    fdSlot p f < FD_TABLE_LEN := by
  unfold fdSlot FD_TABLE_LEN NOFILE at *
  omega

namespace Machine

variable (m : Machine)

/-- `fd_kind`: a descriptor past the row counts as free. -/
def fdKind (pid : Byte) (fd : Word) : Word :=
  if NOFILE ≤ fd.toNat then FD_FREE else m.fdTable.getD (fdSlot pid fd) FD_FREE

def fdSetKind (pid : Byte) (fd kind : Word) : Machine :=
  if NOFILE ≤ fd.toNat then m else { m with fdTable := m.fdTable.set (fdSlot pid fd) kind }

/-- `fd_alloc`: the lowest free descriptor, or `NOFILE`. -/
def fdAlloc (pid : Byte) : Word :=
  ofNat 32 (((List.range NOFILE).find? fun fd =>
    m.fdKind pid (ofNat 32 fd) = FD_FREE).getD NOFILE)

def fdInode (pid : Byte) (fd : Word) : FdInode :=
  if NOFILE ≤ fd.toNat then ⟨0, 0⟩ else m.fdInodeMap.getD (fdSlot pid fd) ⟨0, 0⟩

def putInode (pid : Byte) (fd : Word) (entry : FdInode) : Machine :=
  if NOFILE ≤ fd.toNat then m
  else { m with fdInodeMap := m.fdInodeMap.set (fdSlot pid fd) entry }

/-- `fd_set_inode`: bind a descriptor to a file, at its start. -/
def fdSetInode (pid : Byte) (fd inum : Word) : Machine :=
  (m.putInode pid fd ⟨inum, 0⟩).fdSetKind pid fd FD_INODE

def fdSetOffset (pid : Byte) (fd off : Word) : Machine :=
  m.putInode pid fd ⟨(m.fdInode pid fd).inum, off⟩

def fdClearInode (pid : Byte) (fd : Word) : Machine := m.putInode pid fd ⟨0, 0⟩

/-- The descriptor tables have their full size. -/
structure Sized (m : Machine) : Prop where
  fdTable : m.fdTable.len = FD_TABLE_LEN
  fdInodeMap : m.fdInodeMap.len = FD_TABLE_LEN

section Tables

variable {m : Machine}

theorem Sized.withCpu (sized : m.Sized) (b : Bpf) : (m.withCpu b).Sized :=
  ⟨sized.fdTable, sized.fdInodeMap⟩

theorem Sized.fdSetKind (sized : m.Sized) (p : Byte) (f k : Word) : (m.fdSetKind p f k).Sized := by
  unfold Machine.fdSetKind
  split
  · exact sized
  · exact ⟨by simpa using sized.fdTable, sized.fdInodeMap⟩

theorem Sized.putInode (sized : m.Sized) (p : Byte) (f : Word) (e : FdInode) :
    (m.putInode p f e).Sized := by
  unfold Machine.putInode
  split
  · exact sized
  · exact ⟨sized.fdTable, by simpa using sized.fdInodeMap⟩

@[simp] theorem fdInode_fdSetKind (p q : Byte) (f g k : Word) :
    (m.fdSetKind p f k).fdInode q g = m.fdInode q g := by
  unfold fdSetKind
  split <;> rfl

@[simp] theorem pid_fdSetKind (p : Byte) (f k : Word) : (m.fdSetKind p f k).pid = m.pid := by
  unfold fdSetKind
  split <;> rfl

variable {p : Byte} {f : Word}

theorem fdKind_of_slot_ge (sized : m.Sized) (outside : MAX_PROCESSES ≤ p.toNat) :
    m.fdKind p f = FD_FREE := by
  unfold fdKind
  split
  · rfl
  · rename_i inside
    have beyond : ¬ fdSlot p f < m.fdTable.len := by
      rw [sized.fdTable]
      unfold fdSlot FD_TABLE_LEN NOFILE at *
      omega
    exact if_neg beyond

theorem fdKind_fdSetKind (sized : m.Sized) (slot : p.toNat < MAX_PROCESSES)
    (file : f.toNat < NOFILE) (q : Byte) (g k : Word) :
    (m.fdSetKind p f k).fdKind q g = if q = p ∧ g = f then k else m.fdKind q g := by
  have entry : fdSlot p f < m.fdTable.len := by
    rw [sized.fdTable]
    exact fdSlot_lt slot file
  unfold fdSetKind fdKind
  rw [if_neg (Nat.not_le.mpr file)]
  by_cases same : q = p ∧ g = f
  · obtain ⟨rfl, rfl⟩ := same
    rw [if_neg (Nat.not_le.mpr file), if_pos ⟨rfl, rfl⟩,
      Store.getD_of_lt _ (by simpa using entry), Store.cell_set_self _ entry]
  · rw [if_neg same]
    by_cases outside : NOFILE ≤ g.toNat
    · rw [if_pos outside, if_pos outside]
    · have other : fdSlot q g ≠ fdSlot p f := by
        intro equal
        exact same (fdSlot_inj (Nat.not_le.mp outside) file equal)
      rw [if_neg outside, if_neg outside, Store.getD, Store.getD, Store.len_set,
        Store.cell_set_of_ne _ other]

@[simp] theorem fdKind_putInode (p q : Byte) (f g : Word) (e : FdInode) :
    (m.putInode p f e).fdKind q g = m.fdKind q g := by
  unfold putInode
  split <;> rfl

@[simp] theorem cpu_putInode (p : Byte) (f : Word) (e : FdInode) : (m.putInode p f e).cpu = m.cpu := by
  unfold putInode
  split <;> rfl

@[simp] theorem cpu_fdSetKind (p : Byte) (f k : Word) : (m.fdSetKind p f k).cpu = m.cpu := by
  unfold fdSetKind
  split <;> rfl

@[simp] theorem cpu_fdSetInode (p : Byte) (f inum : Word) : (m.fdSetInode p f inum).cpu = m.cpu :=
  (cpu_fdSetKind p f FD_INODE).trans (cpu_putInode p f ⟨inum, 0⟩)

theorem fdInode_putInode (sized : m.Sized) (slot : p.toNat < MAX_PROCESSES)
    (file : f.toNat < NOFILE) (e : FdInode) : (m.putInode p f e).fdInode p f = e := by
  have entry : fdSlot p f < m.fdInodeMap.len := by
    rw [sized.fdInodeMap]
    exact fdSlot_lt slot file
  rw [putInode, fdInode, if_neg (Nat.not_le.mpr file), if_neg (Nat.not_le.mpr file)]
  exact Store.getD_set_self _ entry _ _

end Tables

/-- `SYS_dup` (10). -/
def sysDup (m : Machine) : Arm :=
  let kind := m.fdKind m.pid m.a0
  if kind = FD_FREE then m.answer FAILED
  else
    let newfd := m.fdAlloc m.pid
    if NOFILE ≤ newfd.toNat then m.answer FAILED
    else (m.fdSetKind m.pid newfd kind).answer newfd

/-- `SYS_close` (21). -/
def sysClose (m : Machine) : Arm :=
  if m.fdKind m.pid m.a0 = FD_FREE then m.answer FAILED
  else ((m.fdSetKind m.pid m.a0 FD_FREE).fdClearInode m.pid m.a0).answer 0

/-- The part of `SYS_fork` that hands the parent's descriptors to the child:
the kinds are copied one by one. -/
def inheritFds (m : Machine) (child : Byte) : Machine := (List.range NOFILE).foldl (fun m fd =>
    m.fdSetKind child (ofNat 32 fd) (m.fdKind m.pid (ofNat 32 fd))) m

end Machine

end Unheaded.Ascend
