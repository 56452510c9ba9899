import Unheaded.Ascend.FsWalk

/-!
# open: the walk of a path

`SYS_open` looks at one directory entry in a tick.
-/

namespace Unheaded.Mbc.Bpf

open Lib Ascend Ascend.FsWalk
open BitVec (ofNat)

def SLASH : Byte := 0x2F
def DOT : Byte := 0x2E

/-- `name_is`: the component at `base` is the literal. -/
def nameIs (b : Bpf) (base : Word) (lit : List Byte) : Bool :=
  lit.zipIdx.all (fun c => b.ramByte (base + ofNat 32 c.2) == c.1) &&
    (let n := b.ramByte (base + ofNat 32 lit.length); n == 0 || n == SLASH)

def NO_COMPONENT_MATCH : Word := 0xFFFFFFFF
def COMPONENT_HAS_MORE : Word := 0x100

/-- The compare loop of `name_match_phys`, with `left` bytes to go. -/
def nameMatchFrom (b : Bpf) (dname comp : Word) : Nat → Nat → Word
  | 0, k =>
    let nxt := b.ramByte (comp + ofNat 32 k)
    if nxt = SLASH then COMPONENT_HAS_MORE ||| ofNat 32 k
    else if nxt = 0 then ofNat 32 k
    else NO_COMPONENT_MATCH
  | left + 1, k =>
    let dn := b.ramByte (dname + ofNat 32 k)
    let praw := b.ramByte (comp + ofNat 32 k)
    let pn := if praw = SLASH then 0 else praw
    if dn ≠ pn then NO_COMPONENT_MATCH
    else if pn = 0 then
      if praw = SLASH then COMPONENT_HAS_MORE ||| ofNat 32 k else ofNat 32 k
    else b.nameMatchFrom dname comp left (k + 1)

/-- `name_match_phys`: the length of the component when the entry has its
name, marked when a slash follows. -/
def nameMatchPhys (b : Bpf) (dname comp : Word) : Word := b.nameMatchFrom dname comp DIRSIZ 0

/-- The directory entry `idx`, when it names the component at `comp`: its
inode number and the match. -/
def direntMatch (b : Bpf) (dinoBase ninodes ndir idx comp : Word) : Option (Word × Word) :=
  if idx < ndir then
    let fbn := idx / DIRENTS_PER_BLOCK
    if fbn.toNat < NDIRECT then
      let dblk := b.ramWord (dinoBase + 3 + fbn)
      if dblk ≠ 0 then
        match wordOfBlock dblk with
        | none => none
        | some dbw =>
          let dword := dbw + idx % DIRENTS_PER_BLOCK * 4
          let inum := b.ramWord dword &&& 0xFFFF
          if inum ≠ 0 ∧ inum < ninodes then
            let found := b.nameMatchPhys (dword * 4 + 2) comp
            if found ≠ NO_COMPONENT_MATCH then some (inum, found) else none
          else none
      else none
    else none
  else none

end Unheaded.Mbc.Bpf

namespace Unheaded.Ascend

open Lib Mbc Fdtable FsWalk

namespace Machine

def OPEN_TAG : Word := 0x09E0
def OPEN_MAX_DIRENTS : Word := 256

/-- `b"console"`. -/
def CONSOLE : List Byte := [0x63, 0x6F, 0x6E, 0x73, 0x6F, 0x6C, 0x65]

variable (m : Machine)

/-- Where the path begins in RAM, and where its first component does: one
leading `./` or `/` is stripped. -/
def pathPhys : Word := Phase12.pidPhysOffset m.pid + m.a0

def componentBase : Word :=
  let base := m.pathPhys
  let c0 := m.cpu.ramByte base
  if c0 = Bpf.DOT ∧ m.cpu.ramByte (base + 1) = Bpf.SLASH then base + 2
  else if c0 = Bpf.SLASH then base + 1
  else base

def walking : Bool := m.a3 >>> 16 == OPEN_TAG

def openConsole : Arm :=
  let fd := m.fdAlloc m.pid
  if NOFILE ≤ fd.toNat then m.answer FAILED
  else (m.fdSetKind m.pid fd FD_CONSOLE).answer fd

def openFailed : Arm := (m.setReg 11 0).answer FAILED

def direntCount (size : Word) : Word :=
  let ndirRaw := size / DIRENT_BYTES
  if OPEN_MAX_DIRENTS < ndirRaw then OPEN_MAX_DIRENTS else ndirRaw

def seeded : Machine :=
  if m.walking then m else (m.setReg 10 0).setReg 11 ((OPEN_TAG <<< 16) ||| ROOTINO)

def openFound (inum : Word) : Arm :=
  let m := m.setReg 11 0
  let fd := m.fdAlloc m.pid
  if NOFILE ≤ fd.toNat then m.answer FAILED
  else (m.fdSetInode m.pid fd inum).answer fd

/-- A component was found and more follow: go on in its directory. -/
def openDescend (inum found base : Word) : Arm :=
  let consumed := base - m.pathPhys + (found &&& 0xFF) + 1
  (((m.setReg 8 (m.a0 + consumed)).setReg 10 0).setReg 11 ((OPEN_TAG <<< 16) ||| inum)).again

/-- One entry of the directory whose dinode is at `dinoBase`. -/
def openEntry (dinoBase ninodes base : Word) : Arm :=
  let ndir := direntCount (m.cpu.ramWord (dinoBase + 2))
  let idx := m.a2
  match m.cpu.direntMatch dinoBase ninodes ndir idx base with
  | some (inum, found) =>
    if found &&& Bpf.COMPONENT_HAS_MORE ≠ 0 then m.openDescend inum found base
    else m.openFound inum
  | none => if idx + 1 < ndir then (m.setReg 10 (idx + 1)).again else m.openFailed

/-- One tick of the walk, in the directory that a3 names. -/
def openWalk (sb : Superblock) (base : Word) : Arm :=
  let m := m.seeded
  let dirInum := m.a3 &&& 0xFFFF
  if !inumValid dirInum sb.ninodes then m.openFailed
  else
    match wordOfBlock (inodeBlock dirInum sb.inodestart) with
    | none => m.openFailed
    | some ib =>
      let dinoBase := ib + dinodeWordOffset dirInum
      if (m.cpu.ramWord dinoBase).setWidth 16 ≠ T_DIR then m.openFailed
      else m.openEntry dinoBase sb.ninodes base

/-- `SYS_open` (15). -/
def sysOpen : Arm :=
  let base := m.componentBase
  if !m.walking && m.cpu.nameIs base CONSOLE then m.openConsole
  else
    match m.cpu.superblock with
    | none => m.answer FAILED
    | some sb => if sb.magic = FSMAGIC then m.openWalk sb base else m.answer FAILED

end Machine

end Unheaded.Ascend
