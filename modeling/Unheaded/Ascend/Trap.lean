import Unheaded.Ascend.Process

/-!
# Traps

Control and status registers are words of RAM.
-/

namespace Unheaded.Ascend

open Lib Mbc Phase12

def csrWord (n : Word) : Word := (0xF000 + n * 4) >>> 2

def SSTATUS : Word := csrWord 0x100
def STVEC : Word := csrWord 0x105
def SSCRATCH : Word := csrWord 0x140
def SEPC : Word := csrWord 0x141
def SCAUSE : Word := csrWord 0x142
def MSTATUS : Word := csrWord 0x300
def MEPC : Word := csrWord 0x341

namespace Machine

variable (m : Machine)

def setPriv (p : Byte) : Machine :=
  m.withCpu { m.cpu with state := { m.cpu.state with privLevel := p } }

/-- The pc of a trap target: the RISC-V word address is cut to 16 bits, and so
is the ROM index found for it. -/
def trapTarget (b : Bpf) (rvAddr : Word) : Option Word :=
  match b.rv2mbc.get? (((rvAddr >>> 2) &&& 0xFFFF) + b.rv2mbcBranchBase).toNat with
  | some mbcIdx => if mbcIdx ≠ 0 then some (mbcIdx &&& 0xFFFF) else none
  | none => none

def trapFault (at_ sentinel addr : Word) : Machine :=
  (m.withCpu ((m.cpu.memWriteWord (at_ >>> 2) sentinel).memWriteWord
    ((at_ + 4) >>> 2) addr)).setHalted

def mret : Arm :=
  let mepc := m.cpu.memReadWord MEPC
  let mstatus := m.cpu.memReadWord MSTATUS
  let m := m.setPriv (((mstatus >>> 11) &&& 3).setWidth 8)
  let m :=
    match trapTarget m.cpu mepc with
    | some pc => m.withPc pc
    | none => m.trapFault 0xE0050 0xDEAD0047 mepc
  .next m.clearReservation

/-- `SRET`.  A return to user mode leaves the loop, to read the kernel's reply. -/
def sret : Arm :=
  let sepc := m.cpu.memReadWord SEPC
  let sstatus := m.cpu.memReadWord SSTATUS
  let spp := (sstatus >>> 8) &&& 1
  let m := m.setPriv (if spp = 0 then 3 else 1)
  let m :=
    match trapTarget m.cpu sepc with
    | some pc => (if spp = 0 then m else m.armTracer).withPc pc
    | none => m.trapFault 0xE0060 0xDEAD0048 sepc
  let m := m.clearReservation
  if spp = 0 then .leave m { reply := true } else .next m

/-- `inject_strap`: hand the kernel the slot, the call number, the tick count
and the break. -/
def injectStrap (b : Bpf) : Bpf :=
  let base := slotTables b
  if base = 0 then b
  else
    let slot := b.state.currentPid.setWidth 32 &&& (UPC_SLOTS - 1)
    let b := b.memWriteWord SSCRATCH (base + slot * UPC_TF_STRIDE)
    let b := b.memWriteWord ((base + UPC_ST_CUR_SLOT_OFF) >>> 2) (UPC_TAG_SLOT ||| slot)
    let b := b.memWriteWord ((base + UPC_ST_TRAP_A7_OFF) >>> 2)
      (UPC_TAG_A7 ||| (b.state.regs 1 &&& ~~~UPC_TAG_MASK))
    let b := b.memWriteWord ((base + UPC_ST_TICKS_OFF) >>> 2) b.state.tickCounter
    b.memWriteWord ((base + UPC_ST_BRK_IN_OFF) >>> 2) b.state.programBreak

/-- A trap from user mode clears `SPP` and `SIE` and keeps `SIE` in `SPIE`. -/
def trapStatus (sstatus : Word) : Word :=
  (sstatus &&& ~~~((1 : Word) <<< 8) &&& ~~~((1 : Word) <<< 5) &&& ~~~((1 : Word) <<< 1)) |||
    (((sstatus >>> 1) &&& 1) <<< 5)

/-- The registers of a trap from the ecall at RISC-V word address `imm`. -/
def trapRegisters (b : Bpf) (imm : Word) : Bpf :=
  let b := b.memWriteWord SEPC (imm <<< 2)
  let b := b.memWriteWord SCAUSE 8
  b.memWriteWord SSTATUS (trapStatus (b.memReadWord SSTATUS))

/-- The system calls of the owned kernel (11 and its aliases): inject a trap. -/
def inject (imm : Word) : Arm :=
  let m := (m.withCpu (injectStrap (trapRegisters m.cpu imm))).setPriv 1
  let stvec := m.cpu.memReadWord STVEC
  let m :=
    match trapTarget m.cpu stvec with
    | some pc => m.withPc pc
    | none => m.trapFault 0xE0068 0xDEAD0011 stvec
  .next m.clearReservation

/-- `INT`: 0x80 has no server in this build, any other vector is dispatched
through the vector table. -/
def intInsn (imm : Word) : Arm :=
  let vector : Byte := imm.setWidth 8
  if vector = 0x80 then .next (m.setReg 0 (negErrno Lsys.ENOSYS))
  else
    let b := m.cpu.setReg REG_SP (m.cpu.state.regs REG_SP - 4)
    let b := b.memWriteWord (b.state.regs REG_SP >>> 2) (b.state.flags.setWidth 32)
    let b := b.setReg REG_SP (b.state.regs REG_SP - 4)
    let b := b.memWriteWord (b.state.regs REG_SP >>> 2) b.state.pc
    let ivtAddr : Word := vector.setWidth 32 * 4
    .next (m.withCpu { b with state := { b.state with
      interruptsEnabled := 0
      pc := b.memReadWord (ivtAddr >>> 2) } })

def iret : Arm :=
  let b := m.cpu.withPc (m.cpu.memReadWord (m.cpu.state.regs REG_SP >>> 2))
  let b := b.setReg REG_SP (b.state.regs REG_SP + 4)
  let b := b.withFlags ((b.memReadWord (b.state.regs REG_SP >>> 2)).setWidth 8)
  let b := b.setReg REG_SP (b.state.regs REG_SP + 4)
  .next (m.withCpu { b with state := { b.state with interruptsEnabled := 1 } })

end Machine

end Unheaded.Ascend
