import Unheaded.Ascend.AddressSpace
import Unheaded.Mbc.BpfAccess

/-!
# What the arms of the loop change

All arms but those of `fork` and `wait` work by a few kinds of changes: of the registers and the
mode of the CPU, of RAM words, of the TLB by a translated address, of the descriptor tables and of
the keyboard ring.
-/

namespace Unheaded.Ascend

open Lib Mbc Fdtable FsWalk Phase12 Machine List BitVec MbcCpuState Machine Bpf.Writes Bpf
open BitVec (ofNat)

/-- The relation allows what the arms do, with writes to the words of `P`. -/
structure Allows (R : Machine → Machine → Prop) (P : Nat → Prop) : Prop where
  refl : ∀ m, R m m
  trans : ∀ {m m' m''}, R m m' → R m' m'' → R m m''
  cpu : ∀ {m : Machine} {b : Bpf}, b.state.owner = m.cpu.state.owner → b.tlb = m.cpu.tlb →
    m.cpu.ram.Within P b.ram → R m (m.withCpu b)
  translate : ∀ (m : Machine) (va : Word), R m (m.withCpu (m.cpu.translateAddress va).2)
  halt : ∀ m, R m m.setHalted
  kinds : ∀ (m : Machine) (t : Store Word), t.len = m.fdTable.len → R m { m with fdTable := t }
  inodes : ∀ (m : Machine) (t : Store FdInode), t.len = m.fdInodeMap.len →
    R m { m with fdInodeMap := t }
  keys : ∀ (m : Machine) (tail : Word), R m { m with kbdTail := tail }

def Mild (req : Requests) : Prop := req.exitSlot = none ∧ req.switch ≠ .exit

theorem mild_default : Mild {} := ⟨rfl, by decide⟩

/-- The arm leads from `m` to a machine in the relation. -/
def ArmIn (R : Machine → Machine → Prop) (m : Machine) : Arm → Prop
  | .next m' => R m m'
  | .leave m' req => R m m' ∧ Mild req

theorem ArmIn.machine {R : Machine → Machine → Prop} {m : Machine} {arm : Arm}
    (so : ArmIn R m arm) : R m arm.machine := by
  cases arm with
  | next m' => exact so
  | leave m' req => exact so.1

theorem inSliceByte_buffer {pid : Byte} {va len phys : Word}
    (found : userPhys pid va len = some phys) {c : Nat} (inside : c < len.toNat) :
    InSliceByte pid (phys + ofNat 32 c).toNat := by
  obtain ⟨fits, rfl⟩ := userPhys_eq_some.mp found
  have room := sliceBase_lt pid
  have place := @toNat_pidPhysOffset_add pid va (by omega)
  have sum : (pidPhysOffset pid + va + ofNat 32 c).toNat =
      sliceBase pid.toNat + va.toNat + c := by
    rw [toNat_add, toNat_ofNat]
    omega
  unfold InSliceByte
  omega

theorem inSlice_stat {pid : Byte} {va phys : Word} (found : userPhys pid va 16 = some phys) {k : Nat}
    (inside : k < 4) : InSlice pid ((phys >>> 2) + ofNat 32 k).toNat := by
  obtain ⟨fits, rfl⟩ := userPhys_eq_some.mp found
  have length : (16 : Word).toNat = 16 := rfl
  have aligned := sliceBase_mod pid.toNat
  have place := @toNat_pidPhysOffset_add pid va (by omega)
  have index : ((pidPhysOffset pid + va) >>> 2 + ofNat 32 k).toNat =
      (sliceBase pid.toNat + va.toNat) / 4 + k := by
    rw [toNat_add, toNat_ushiftRight, toNat_ofNat]
    omega
  unfold InSlice InSliceByte
  omega

/-- The frame that the arguments of `exec` are collected in: eight strings and
nine pointers. -/
def InArgFrame (pid : Byte) (i : Nat) : Prop :=
  sliceBase pid.toNat + 0x600000 ≤ 4 * i ∧ 4 * i < sliceBase pid.toNat + 0x6000A4

/-- The words of a program's data, where the table of programs puts them. -/
def InProgramData (pid : Byte) (row : ProgramRow) (i : Nat) : Prop :=
  ((pidPhysOffset pid + row.dataDstVa) >>> 2).toNat ≤ i ∧
    i < ((pidPhysOffset pid + row.dataDstVa) >>> 2).toNat + row.dataLenWords.toNat

theorem InArgFrame.inSlice {pid : Byte} {i : Nat} (inside : InArgFrame pid i) : InSlice pid i := by
  unfold InArgFrame at inside
  unfold InSlice InSliceByte
  omega

theorem inArgFrame_word {pid : Byte} {va : Word} (low : 0x600000 ≤ va.toNat)
    (high : va.toNat < 0x6000A4) : InArgFrame pid ((pidPhysOffset pid + va) >>> 2).toNat := by
  have aligned := sliceBase_mod pid.toNat
  have place := @toNat_pidPhysOffset_add pid va (by omega)
  rw [InArgFrame, toNat_ushiftRight, place]
  omega

theorem copyDataChunk_writes (b : Bpf) (pid : Byte) (row : ProgramRow) {cursor : Word}
    (low : cursor.toNat < 0x10000) :
    Bpf.Writes (InProgramData pid row) b (copyDataChunk b pid row cursor) := by
  refine foldl ?_ b
  intro b w mem
  have few := mem_range.mp mem
  split
  · next inside =>
    have word : ((pidPhysOffset pid + row.dataDstVa) >>> 2).toNat =
        (pidPhysOffset pid + row.dataDstVa).toNat / 4 := by
      rw [toNat_ushiftRight, Nat.shiftRight_eq_div_pow]
    have offset : (cursor + ofNat 32 w).toNat = cursor.toNat + w := by
      rw [toNat_add, toNat_ofNat]
      omega
    have cell : ((pidPhysOffset pid + row.dataDstVa) >>> 2 + cursor + ofNat 32 w).toNat =
        ((pidPhysOffset pid + row.dataDstVa) >>> 2).toNat + (cursor.toNat + w) := by
      rw [BitVec.add_assoc, toNat_add]
      omega
    rw [lt_def, offset] at inside
    refine (refl _ b).set ?_ _
    rw [cell]
    exact ⟨Nat.le_add_right _ _, Nat.add_lt_add_left inside _⟩
  · exact .refl _ _

/-- The program that the path of `exec` names. -/
def Machine.execProgram (m : Machine) : Option ProgramRow :=
  m.findProgram (basenameHash m.cpu (pidPhysOffset m.pid + m.a0) 16 0 FNV_OFFSET)

def SLOT_TABLE_OFFSETS : List Word :=
  [UPC_ST_CUR_SLOT_OFF, UPC_ST_TRAP_A7_OFF, UPC_ST_FRESH_MASK_OFF, UPC_ST_TICKS_OFF,
    UPC_ST_BRK_IN_OFF, UPC_ST_REPLY_OFF]

/-- Once the kernel has published its slot tables, their words are in `P`. -/
def TablesIn (P : Nat → Prop) (b : Bpf) : Prop :=
  slotTables b ≠ 0 → ∀ off ∈ SLOT_TABLE_OFFSETS, P ((slotTables b + off) >>> 2).toNat

def blockTarget (m : Machine) (toDisk : Bool) : Word :=
  if toDisk then RAMDISK_BASE_WORD + m.a0 * ofNat 32 Block.WORDS_PER_BLOCK + m.a2
  else (m.a1 >>> 2) + m.a2

theorem kernelRoutedAlias_ne_exit (b : Bpf) (n : Word) : (kernelRoutedAlias b n).toNat ≠ 2 := by
  unfold kernelRoutedAlias
  split
  · decide
  · next unrouted =>
    intro exit
    rw [exit] at unrouted
    exact unrouted rfl

theorem slotTables_trapRegisters (b : Bpf) (imm : Word) :
    slotTables (trapRegisters b imm) = slotTables b := by
  have other (b : Bpf) (a v : Word) (apart : a.toNat ≠ 0x58) :
      slotTables (b.memWriteWord a v) = slotTables b := by
    have place : (UPC_SLOT_TABLES_BP_BYTE >>> 2).toNat = 0x58 := rfl
    unfold slotTables memReadWord ramWord
    rw [place, ram_memWriteWord, Store.getD_set_of_ne _ (Ne.symm apart), kbd_memWriteWord]
  rw [trapRegisters, other _ _ _ (by decide), other _ _ _ (by decide), other _ _ _ (by decide)]

/-- The words that a call writes at places of the caller's or the host's choice:
the buffer of a block call, the data of a program, the kernel's slot tables. -/
def CallIn (P : Nat → Prop) (m : Machine) : Prop :=
  match (kernelRoutedAlias m.cpu m.a7).toNat with
  | 200 => ∀ w < 16, P (blockTarget m false + ofNat 32 w).toNat
  | 201 => ∀ w < 16, P (blockTarget m true + ofNat 32 w).toNat
  | 11 => TablesIn P m.cpu
  | 7 => ∀ row, m.execProgram = some row → ∀ i, InProgramData m.pid row i → P i
  | _ => True

namespace Allows

variable {R : Machine → Machine → Prop} {P : Nat → Prop} (allows : Allows R P) {m m' : Machine}

include allows

theorem state {b : Bpf} (owner : b.state.owner = m.cpu.state.owner) (tlb : b.tlb = m.cpu.tlb)
    (ram : b.ram = m.cpu.ram) : R m (m.withCpu b) :=
  allows.cpu owner tlb (by rw [ram]; exact .refl P _)

theorem writes {b : Bpf} (written : Bpf.Writes P m.cpu b) : R m (m.withCpu b) :=
  allows.cpu (congrArg owner written.state) written.tlb written.ram

section

variable (so : R m m')
include so

theorem setReg (r : Reg) (v : Word) : R m (m'.setReg r v) :=
  allows.trans so (allows.state rfl rfl rfl)

theorem withPc (pc : Word) : R m (m'.withPc pc) :=
  allows.trans so (allows.state rfl rfl rfl)

theorem setPriv (p : Byte) : R m (m'.setPriv p) :=
  allows.trans so (allows.state rfl rfl rfl)

theorem setExitCode (code : Word) : R m (m'.setExitCode code) :=
  allows.trans so (allows.state rfl rfl rfl)

theorem clearReservation : R m m'.clearReservation :=
  allows.trans so (allows.state rfl rfl rfl)

theorem setHalted : R m m'.setHalted := allows.trans so (allows.halt m')

theorem fdSetKind (p : Byte) (f k : Word) : R m (m'.fdSetKind p f k) := by
  refine allows.trans so ?_
  unfold Machine.fdSetKind
  split
  · exact allows.refl m'
  · exact allows.kinds m' _ (Store.len_set _ _ _)

theorem putInode (p : Byte) (f : Word) (e : FdInode) : R m (m'.putInode p f e) := by
  refine allows.trans so ?_
  unfold Machine.putInode
  split
  · exact allows.refl m'
  · exact allows.inodes m' _ (Store.len_set _ _ _)

theorem answer (v : Word) : ArmIn R m (m'.answer v) := allows.setReg so 8 v

theorem again : ArmIn R m m'.again := ⟨allows.withPc so _, mild_default⟩

end

theorem fails (v : Word) : ArmIn R m (m.answer v) := allows.answer (allows.refl m) v

theorem touches {b : Bpf} (touched : Bpf.Touches P m.cpu b) : R m (m.withCpu b) := by
  obtain ⟨c, origin, station, tlb, ram⟩ := touched
  have reached : R m (m.withCpu c) := by
    rcases origin with rfl | ⟨va, rfl⟩
    · exact allows.refl m
    · exact allows.translate m va
  exact allows.trans reached
    (allows.cpu (m := m.withCpu c) (owner_of_station station) tlb ram)

theorem sysBlock (toDisk : Bool) (inside : ∀ w < 16, P (blockTarget m toDisk + ofNat 32 w).toNat) :
    ArmIn R m (m.sysBlock toDisk) := by
  have copied {b : Bpf} (so : R m (m.withCpu b)) : ArmIn R m (
      if 128 ≤ (m.a2 + 16).toNat then
        .next (((m.withCpu b).setReg 8 Block.BLOCK_SIZE).setReg 10 0)
      else ((m.withCpu b).setReg 10 (m.a2 + 16)).again) := by
    split
    · exact allows.setReg (allows.setReg so _ _) _ _
    · exact allows.again (allows.setReg so _ _)
  unfold Machine.sysBlock
  split
  · refine copied (allows.writes ?_)
    cases toDisk with
    | false =>
      refine foldl ?_ m.cpu
      intro b w mem
      exact (Bpf.Writes.refl P b).set (inside w (mem_range.mp mem)) _
    | true =>
      refine Bpf.Writes.foldl ?_ m.cpu
      intro b w mem
      exact (Bpf.Writes.refl P b).set (inside w (mem_range.mp mem)) _
  · exact allows.fails _

theorem putUserByte (low : ∀ i < 0x40000, P i) (va : Word) :
    R m (m.withCpu (putUserByte m.cpu va)) := by
  refine allows.trans (allows.translate m va) ?_
  refine allows.writes (m := m.withCpu (m.cpu.translateAddress va).2) ?_
  exact (Bpf.Writes.refl P _).memWriteByte (low _ (by decide)) _

theorem sysWrite (low : ∀ i < 0x40000, P i) : ArmIn R m m.sysWrite := by
  have put (n cursor : Word) : ArmIn R m (
      if cursor + 1 < n then ((m.withCpu (Machine.putUserByte m.cpu (m.a1 + cursor))).setReg 11
        (WRITE_TAG ||| (cursor + 1))).again
      else ((m.withCpu (Machine.putUserByte m.cpu (m.a1 + cursor))).setReg 11 0).answer n) := by
    have so := allows.putUserByte low (m := m) (m.a1 + cursor)
    split
    · exact allows.again (allows.setReg so _ _)
    · exact allows.answer (allows.setReg so _ _) _
  unfold Machine.sysWrite
  dsimp only
  generalize (if 4096 < m.a2.toNat then 4096 else m.a2) = n
  split
  · exact allows.fails _
  · split
    · exact allows.answer (allows.putUserByte low _) _
    · exact put n _

theorem trapFault (so : R m m') {a : Word} (sentinel addr : Word) (first : P (a >>> 2).toNat)
    (second : P ((a + 4) >>> 2).toNat) : R m (m'.trapFault a sentinel addr) :=
  allows.setHalted (allows.trans so
    (allows.writes (((Bpf.Writes.refl P _).memWriteWord first _).memWriteWord second _)))

section

variable (low : ∀ i < 0x40000, P i)
include low

theorem inject (imm : Word)
    (tables : TablesIn P (trapRegisters m.cpu imm)) : ArmIn R m (m.inject imm) := by
  have registers : Bpf.Writes P m.cpu (trapRegisters m.cpu imm) := by
    exact (((Bpf.Writes.refl P _).memWriteWord (low _ (by decide)) _).memWriteWord
      (low _ (by decide)) _).memWriteWord (low _ (by decide)) _
  have strapped : Bpf.Writes P m.cpu (injectStrap (trapRegisters m.cpu imm)) := by
    unfold injectStrap
    dsimp only
    split
    · exact registers
    · next published =>
      have words := tables published
      exact ((((registers.memWriteWord (low _ (by decide)) _).memWriteWord
        (words _ (by decide)) _).memWriteWord (words _ (by decide)) _).memWriteWord
        (words _ (by decide)) _).memWriteWord (words _ (by decide)) _
  have entered := allows.setPriv (allows.writes strapped) 1
  unfold Machine.inject
  dsimp only
  split
  · exact allows.clearReservation (allows.withPc entered _)
  · exact allows.clearReservation
      (allows.trapFault entered _ _ (low _ (by decide)) (low _ (by decide)))

theorem mret : ArmIn R m m.mret := by
  have entered (p : Byte) : R m (m.setPriv p) := allows.setPriv (allows.refl m) p
  unfold Machine.mret
  dsimp only
  split
  · exact allows.clearReservation (allows.withPc (entered _) _)
  · exact allows.clearReservation
      (allows.trapFault (entered _) _ _ (low _ (by decide)) (low _ (by decide)))

theorem armTracer (so : R m m') : R m m'.armTracer := by
  refine allows.trans so ?_
  have written := (Bpf.Writes.refl P m'.cpu).memWriteByte (a := 0xC001) (low _ (by decide)) 0x53
  exact allows.cpu (congrArg owner written.state) written.tlb written.ram

theorem sret : ArmIn R m m.sret := by
  have entered (p : Byte) : R m (m.setPriv p) := allows.setPriv (allows.refl m) p
  have lost (p : Byte) (addr : Word) :=
    allows.trapFault (entered p) (a := 0xE0060) 0xDEAD0048 addr (low _ (by decide))
      (low _ (by decide))
  unfold Machine.sret
  dsimp only
  -- the target is mapped or not, whatever mode the CPU returns to
  split
  · refine ⟨allows.clearReservation ?_, rfl, by decide⟩
    split
    · exact allows.withPc (entered 3) _
    · exact lost 3 _
  · refine allows.clearReservation ?_
    split
    · exact allows.withPc (allows.armTracer low (entered 1)) _
    · exact lost 1 _

end

theorem intInsn (imm : Word)
    (frame : (imm.setWidth 8 : Byte) ≠ 0x80 → P ((m.cpu.state.regs REG_SP - 4) >>> 2).toNat ∧
      P ((m.cpu.state.regs REG_SP - 4 - 4) >>> 2).toNat) : ArmIn R m (m.intInsn imm) := by
  unfold Machine.intInsn
  dsimp only
  split
  · exact allows.setReg (allows.refl m) _ _
  · next vectored =>
    obtain ⟨first, second⟩ := frame vectored
    obtain ⟨station, tlb, ram⟩ := interruptFrame_writes m.cpu first second
    exact allows.cpu (owner_of_station station) tlb ram

theorem iret : ArmIn R m m.iret := allows.state rfl rfl rfl

theorem sysYield : ArmIn R m m.sysYield := by
  unfold Machine.sysYield
  dsimp only
  split
  · exact ⟨allows.setReg (allows.refl m) _ _, rfl, by decide⟩
  · exact allows.setReg (allows.refl m) _ _

theorem sysDup : ArmIn R m m.sysDup := by
  unfold Machine.sysDup
  dsimp only
  split
  · exact allows.fails _
  · split
    · exact allows.fails _
    · exact allows.answer (allows.fdSetKind (allows.refl m) _ _ _) _

theorem sysClose : ArmIn R m m.sysClose := by
  unfold Machine.sysClose
  split
  · exact allows.fails _
  · exact allows.answer (allows.putInode (allows.fdSetKind (allows.refl m) _ _ _) _ _ _) _

section

variable (slice : ∀ i, InSlice m.pid i → P i)
include slice

theorem sysFstat : ArmIn R m m.sysFstat := by
  unfold Machine.sysFstat
  split
  · next st phys _ found =>
    have word (k : Nat) (inside : k < 4) := slice _ (inSlice_stat found inside)
    have first := word 0 (by decide)
    rw [BitVec.add_zero] at first
    exact allows.answer (allows.writes (((((Bpf.Writes.refl P m.cpu).set first _).set
      (word 1 (by decide)) _).set (word 2 (by decide)) _).set (word 3 (by decide)) _)) _
  · exact allows.fails _

theorem readInode {ret : Word} (read : m.readInode = some (m', ret)) : R m m' := by
  unfold Machine.readInode at read
  dsimp only at read
  obtain ⟨db, -, read⟩ := Option.bind_eq_some_iff.mp read
  split at read
  · cases read
    exact allows.refl m
  · split at read
    · cases read
    · obtain ⟨dbw, -, read⟩ := Option.bind_eq_some_iff.mp read
      obtain ⟨dst, found, read⟩ := Option.bind_eq_some_iff.mp read
      cases read
      refine allows.putInode (allows.writes (foldl ?_ m.cpu)) _ _ _
      intro b c mem
      refine (Bpf.Writes.refl P b).set (slice _ ?_) _
      rw [inSlice_word]
      exact inSliceByte_buffer found (mem_range.mp mem)

theorem readConsole : ArmIn R m m.readConsole := by
  have typed {phys : Word} (found : userPhys m.pid m.a1 1 = some phys) (ch : Byte) :
      R m { m.withCpu (m.cpu.memWriteByte phys ch) with kbdTail := m.kbdTail + 1 } := by
    have inside := @inSliceByte_buffer m.pid m.a1 1 phys found 0 (by decide)
    rw [BitVec.add_zero] at inside
    have written := (Bpf.Writes.refl P m.cpu).memWriteByte
      (slice _ ((inSlice_word phys).mpr inside)) ch
    exact allows.trans (allows.writes written) (allows.keys _ _)
  unfold Machine.readConsole
  split
  · split
    · next found => exact allows.answer (typed found _) _
    · exact allows.fails _
  · exact allows.again (allows.refl m)

theorem sysRead : ArmIn R m m.sysRead := by
  unfold Machine.sysRead
  dsimp only
  split
  · split
    · next read => exact allows.answer (allows.readInode slice read) _
    · exact allows.fails _
  · split
    · exact allows.readConsole slice
    · exact allows.fails _

end

theorem openEntry (so : R m m') (dinoBase ninodes base : Word) :
    ArmIn R m (m'.openEntry dinoBase ninodes base) := by
  unfold Machine.openEntry
  dsimp only
  split
  · split
    · exact allows.again (allows.setReg (allows.setReg (allows.setReg so _ _) _ _) _ _)
    · unfold openFound
      dsimp only
      split
      · exact allows.answer (allows.setReg so _ _) _
      · exact allows.answer
          (allows.fdSetKind (allows.putInode (allows.setReg so _ _) _ _ _) _ _ _) _
  · split
    · exact allows.again (allows.setReg so _ _)
    · exact allows.answer (allows.setReg so _ _) _

theorem openWalk (sb : Superblock) (base : Word) : ArmIn R m (m.openWalk sb base) := by
  have seeded : R m m.seeded := by
    unfold seeded
    split
    · exact allows.refl m
    · exact allows.setReg (allows.setReg (allows.refl m) _ _) _ _
  unfold Machine.openWalk
  dsimp only
  split
  · exact allows.answer (allows.setReg seeded _ _) _
  · split
    · exact allows.answer (allows.setReg seeded _ _) _
    · split
      · exact allows.answer (allows.setReg seeded _ _) _
      · exact allows.openEntry seeded _ _ _

theorem sysOpen : ArmIn R m m.sysOpen := by
  unfold Machine.sysOpen
  dsimp only
  split
  · unfold openConsole
    dsimp only
    split
    · exact allows.fails _
    · exact allows.answer (allows.fdSetKind (allows.refl m) _ _ _) _
  · split
    · exact allows.fails _
    · split
      · exact allows.openWalk _ _
      · exact allows.fails _

theorem execArgs (so : R m m') (frame : ∀ i, InArgFrame m'.pid i → P i) :
    ArmIn R m m'.execArgs := by
  have capped : (if ARGV_MAX < m'.a2 then ARGV_MAX else m'.a2).toNat ≤ 8 := by
    split
    · decide
    · next least =>
      exact Nat.not_lt.mp least
  have four : (4 : Word).toNat = 4 := rfl
  have sixteen : ARG_CAP.toNat = 16 := rfl
  have strings : ARGV_STR_VA.toNat = 0x600000 := rfl
  have pointers : ARGV_ARR_VA.toNat = 0x600080 := rfl
  unfold Machine.execArgs
  dsimp only
  generalize (if ARGV_MAX < m'.a2 then ARGV_MAX else m'.a2) = i at capped ⊢
  have pointer : P ((pidPhysOffset m'.pid + (ARGV_ARR_VA + i * 4)) >>> 2).toNat := by
    have value : (ARGV_ARR_VA + i * 4).toNat = 0x600080 + i.toNat * 4 := by
      rw [toNat_add, toNat_mul, four]
      omega
    exact frame _ (inArgFrame_word (by omega) (by omega))
  split
  · refine allows.again (allows.setReg (allows.setReg (allows.trans so (allows.writes ?_)) _ _) _ _)
    exact (Bpf.Writes.refl P m'.cpu).set pointer _
  · next more =>
    have string (k : Nat) (short : k < 16) :
        P ((pidPhysOffset m'.pid + (ARGV_STR_VA + i * ARG_CAP) + ofNat 32 k) >>> 2).toNat := by
      have value : (ARGV_STR_VA + i * ARG_CAP + ofNat 32 k).toNat =
          0x600000 + i.toNat * 16 + k := by
        rw [toNat_add, toNat_add, toNat_mul, sixteen, toNat_ofNat]
        omega
      rw [BitVec.add_assoc]
      exact frame _ (inArgFrame_word (by omega) (by omega))
    have copied : Bpf.Writes P m'.cpu ((range 15).foldl (fun b k =>
        b.ramWriteByte (pidPhysOffset m'.pid + (ARGV_STR_VA + i * ARG_CAP) + ofNat 32 k)
          (b.ramByte (pidPhysOffset m'.pid + m'.argPointer i + ofNat 32 k))) m'.cpu) := by
      refine foldl ?_ m'.cpu
      intro b k mem
      exact (Bpf.Writes.refl P b).set (string k (Nat.lt_trans (mem_range.mp mem) (by decide))) _
    generalize List.foldl _ m'.cpu (range 15) = c at copied ⊢
    refine allows.again (allows.setReg (allows.trans so (allows.writes ?_)) _ _)
    exact (copied.set (string 15 (by decide)) _).set pointer _

theorem execData (so : R m m') {row : ProgramRow} (data : ∀ i, InProgramData m'.pid row i → P i) :
    ArmIn R m (m'.execData row) := by
  have low : (m'.a2 &&& 0xFFFF).toNat < 0x10000 := by
    rw [toNat_and_low m'.a2 16 rfl]
    exact Nat.mod_lt _ (by decide)
  have written := copyDataChunk_writes m'.cpu m'.pid row low
  have copied := allows.trans so (allows.writes ⟨written.state, written.tlb, written.ram.mono data⟩)
  unfold Machine.execData
  dsimp only
  split
  · exact allows.again (allows.setReg copied _ _)
  · exact allows.trans copied (allows.state rfl rfl rfl)

theorem sysExec (frame : ∀ i, InArgFrame m.pid i → P i)
    (data : ∀ row, m.execProgram = some row → ∀ i, InProgramData m.pid row i → P i) :
    ArmIn R m m.sysExec := by
  unfold Machine.sysExec
  dsimp only
  split
  · exact allows.fails _
  · next row found =>
    have resumed {t : Machine} (so : R m t) (pid : t.pid = m.pid) :
        ArmIn R m (if t.a3 = EXEC_ARGV_MAGIC then t.execArgs else t.execData row) := by
      split
      · exact allows.execArgs so (by rw [pid]; exact frame)
      · exact allows.execData so (by rw [pid]; exact data row found)
    split
    · exact resumed (allows.setReg (allows.setReg (allows.refl m) _ _) _ _) rfl
    · exact resumed (allows.refl m) rfl

theorem ecall (low : ∀ i < 0x40000, P i) (slice : ∀ i, InSlice m.pid i → P i) {imm : Word}
    (inside : CallIn P m) (noFork : (kernelRoutedAlias m.cpu m.a7).toNat ≠ 1)
    (noWait : (kernelRoutedAlias m.cpu m.a7).toNat ≠ 3) : ArmIn R m (m.ecall imm) := by
  have noExit := kernelRoutedAlias_ne_exit m.cpu m.a7
  unfold CallIn at inside
  unfold Machine.ecall
  generalize (kernelRoutedAlias m.cpu m.a7).toNat = n at inside noFork noWait noExit ⊢
  split
  · exact allows.sysBlock false inside
  · exact allows.sysWrite low
  · exact absurd rfl noFork
  · exact absurd rfl noExit
  · exact absurd rfl noWait
  · refine allows.inject low imm ?_
    unfold TablesIn at inside ⊢
    rw [slotTables_trapRegisters]
    exact inside
  · exact allows.refl m
  · exact allows.sysYield
  · exact allows.sysYield
  · exact allows.sysOpen
  · exact allows.sysFstat slice
  · exact allows.fails _
  · exact allows.sysDup
  · exact allows.sysClose
  · exact allows.sysRead slice
  · exact allows.sysExec (fun i frame => slice i frame.inSlice) inside
  · exact allows.sysBlock true inside
  · exact allows.fails _

theorem execute (low : ∀ i < 0x40000, P i) {w : Word} (plain : MbcInsn.opcode? w ≠ some .syscall)
    (inside : ∀ a ∈ m.cpu.accesses w, P (a.word m.cpu).toNat) : ArmIn R m (m.execute w) := by
  have touched := executeInsn_touches m.cpu w
  unfold Machine.execute
  cases result : m.cpu.executeInsn w with
  | next b =>
    rw [result] at touched
    obtain ⟨c, origin, station, tlb, ram⟩ := touched
    refine allows.touches ⟨c, origin, station, tlb, ram.mono ?_⟩
    rintro i (⟨a, mem, rfl⟩ | diagnostics)
    · exact inside a mem
    · refine low i ?_
      unfold Bpf.InDiagnostics at diagnostics
      omega
  | stop b =>
    rw [result] at touched
    have stopped : b = m.cpu.setHalted := touched
    subst stopped
    exact ⟨allows.halt m, mild_default⟩
  | system b =>
    rw [result] at touched
    have same : b = m.cpu := touched
    subst same
    dsimp only
    unfold system
    split
    · next op =>
      refine allows.intInsn _ (fun vectored => ?_)
      unfold accesses at inside
      dsimp only at inside
      rw [op] at inside
      rw [if_neg vectored] at inside
      exact ⟨inside (.flat _) mem_cons_self, inside (.flat _) (mem_cons_of_mem _ mem_cons_self)⟩
    · exact allows.iret
    · exact allows.mret low
    · exact allows.sret low
    · next ecall => exact absurd ecall plain
    · exact allows.refl m

theorem dispatchInterrupt (frame : m.cpu.state.interruptPending ≠ 0 ∧
      m.cpu.state.interruptsEnabled ≠ 0 → P ((m.cpu.state.regs REG_SP - 4) >>> 2).toNat ∧
        P ((m.cpu.state.regs REG_SP - 4 - 4) >>> 2).toNat) :
    R m (m.withCpu m.cpu.dispatchInterrupt) := by
  unfold Bpf.dispatchInterrupt
  split
  · next pending =>
    obtain ⟨first, second⟩ := frame pending
    obtain ⟨station, tlb, ram⟩ := interruptFrame_writes m.cpu first second
    exact allows.cpu (owner_of_station station) tlb ram
  · exact allows.refl m

theorem tracePc (low : ∀ i < 0x40000, P i) : R m (m.withCpu m.cpu.tracePc) := by
  unfold Bpf.tracePc
  split
  · have written : Bpf.Writes P m.cpu ((Bpf.traceBytes m.cpu.state.pc).foldl
        (fun b v => b.memWriteByte 0xC001 v) m.cpu) := by
      refine foldl ?_ m.cpu
      intro b v _
      exact (Bpf.Writes.refl P b).memWriteByte (low _ (by decide)) v
    generalize (traceBytes m.cpu.state.pc).foldl (fun b v => b.memWriteByte 0xC001 v) m.cpu = b
      at written
    exact allows.cpu (congrArg owner written.state) written.tlb written.ram
  · exact allows.refl m

end Allows

end Unheaded.Ascend
