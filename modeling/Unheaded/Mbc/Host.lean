import Unheaded.Lib.Runs
import Unheaded.Mbc.HostSyscall

/-!
# Host emulator: fetch, decode, execute

`Cpu::execute_insn`, `Cpu::step` and `Cpu::run`. `executeInsn` runs with the pc already advanced
past the word it executes.
-/

namespace Unheaded.Mbc

open Lib MbcInsn

/-- The host `set_flags`: zero, sign and carry of a result. -/
def hostFlags (result : Word) (carry : Bool) : Byte :=
  Flag.pack (decide (result = 0)) (decide (result.toInt < 0)) carry

namespace Cpu

variable (c : Cpu)

def setResult (d : Reg) (result : Word) (carry : Bool) : Cpu :=
  (c.withFlags (hostFlags result carry)).setReg d result

def pushWord (value : Word) : Cpu :=
  let sp := c.state.regs REG_SP
  if sp.toNat < c.ram.len then
    (c.withRam (c.ram.set sp.toNat value)).setReg REG_SP (sp - 1)
  else c

def branchBy (w : Word) : Cpu := c.withPc (c.state.pc + branchOffset w)

def branchIf (w : Word) (taken : Bool) : Cpu := if taken then c.branchBy w else c

def setReservation (address : Word) : Cpu :=
  { c with state := { c.state with reservationAddress := address } }

def readCsr (csr : Nat) : Word := c.memReadWord ((0xF000 + csr * 4) >>> 2)

def mret : Cpu :=
  let mepc := c.readCsr 0x341
  let mstatus := c.readCsr 0x300
  let mpp : Byte := ((mstatus >>> 11) &&& 0b11).setWidth 8
  ({ c with state := { c.state with privLevel := mpp, pc := mepc >>> 2 } }).setReservation 0xFFFFFFFF

def sret : Cpu :=
  let sepc := c.readCsr 0x141
  let sstatus := c.readCsr 0x100
  let spp : Byte := ((sstatus >>> 8) &&& 0b1).setWidth 8
  ({ c with state := { c.state with
      privLevel := if spp = 0 then 3 else 1
      pc := sepc >>> 2 } }).setReservation 0xFFFFFFFF

/-- `SC_W`: the value register is named by the low immediate bits. -/
def storeConditional (d s : Reg) (imm : Half) : Cpu :=
  let address := c.state.regs s
  let valueReg : Reg := imm.setWidth 4
  let c :=
    if c.state.reservationAddress = address then
      (c.memWriteWord (address >>> 2).toNat (c.state.regs valueReg)).setReg d 0
    else c.setReg d 1
  c.setReservation 0xFFFFFFFF

/-- `XCHG`: no address translation. -/
def exchange (d s : Reg) (simm : Word) : Cpu :=
  let wordAddr := ((c.state.regs s + simm) >>> 2).toNat
  let old := c.memReadWord wordAddr
  (c.memWriteWord wordAddr (c.state.regs d)).setReg d old

/-- `CAS`: address `r1`, expected `r0`, desired `r2`. -/
def compareAndSwap : Cpu :=
  let wordAddr := (c.state.regs 1 >>> 2).toNat
  let old := c.memReadWord wordAddr
  let c :=
    if old = c.state.regs 0 then
      let c := c.memWriteWord wordAddr (c.state.regs 2)
      c.withFlags (c.state.flags ||| Flag.Z)
    else c.withFlags (c.state.flags &&& ~~~Flag.Z)
  c.setReg 0 old

/-- `SYSCALL`, dispatched on `r0`. -/
def monadSyscall : ExecResult :=
  let syscallId := c.state.regs 0
  if syscallId = 1 then .ok c
  else if syscallId = 2 then .ok (c.setReg 0 c.kbd)
  else if syscallId = 3 then .ok (c.setReg 0 c.ticksMs)
  else if syscallId = 4 then .ok { c with ticksMs := c.ticksMs + c.state.regs 1 }
  else .err (.invalidSyscall syscallId) c

/-- `execute_insn`.  A branch whose condition fails, and an opcode byte with
no name, do nothing. -/
def executeInsn (w : Word) : ExecResult :=
  let d := dst w
  let s := src w
  let imm : Word := (imm16 w).setWidth 32
  let simm := imm16Signed w
  let rd := c.state.regs d
  let rs := c.state.regs s
  let flags := c.state.flags
  match opcode? w with
  | none => .ok c
  | some .nop => .ok c
  | some .add => .ok (c.setResult d (rd + rs) (addCarry rd rs))
  | some .sub => .ok (c.setResult d (rd - rs) (subBorrow rd rs))
  | some .mul => .ok (c.setResult d (rd * rs) false)
  | some .div =>
    if rs = 0 then .ok ((c.setReg d 0xFFFFFFFF).withFlags Flag.C)
    else .ok (c.setResult d (rd / rs) false)
  | some .mod =>
    if rs = 0 then .ok (c.setReg d 0)
    else .ok (c.setResult d (rd % rs) false)
  | some .neg => .ok (c.setResult d (0 - rd) (subBorrow 0 rd))
  | some .and => .ok (c.setResult d (rd &&& rs) false)
  | some .or => .ok (c.setResult d (rd ||| rs) false)
  | some .xor => .ok (c.setResult d (rd ^^^ rs) false)
  | some .not => .ok (c.setResult d (~~~rd) false)
  | some .shl => .ok (c.setResult d (rd <<< shamt imm) false)
  | some .shr => .ok (c.setResult d (rd >>> shamt imm) false)
  | some .sar => .ok (c.setResult d (rd.sshiftRight (shamt imm)) false)
  | some .shlr => .ok (c.setResult d (rd <<< shamt rs) false)
  | some .shrr => .ok (c.setResult d (rd >>> shamt rs) false)
  | some .sarr => .ok (c.setResult d (rd.sshiftRight (shamt rs)) false)
  | some .mulh => .ok (c.setResult d (mulHighSigned rd rs) false)
  | some .mulhu => .ok (c.setResult d (mulHighUnsigned rd rs) false)
  | some .push => .ok (c.pushWord rd)
  | some .pop =>
    let sp := c.state.regs REG_SP + 1
    if sp.toNat < c.ram.len then
      .ok ((c.setReg d (c.ram.cell sp.toNat)).setReg REG_SP sp)
    else .ok c
  | some .loadImm32 => .ok (c.setReg d ((imm <<< 16) ||| (rd &&& 0xFFFF)))
  | some .addi => .ok (c.setResult d (rd + simm) (addCarry rd simm))
  | some .mov => .ok (c.setReg d rs)
  | some .movi => .ok (c.setReg d imm)
  | some .cmp => .ok (c.withFlags (hostFlags (rd - rs) (subBorrow rd rs)))
  | some .jmp => .ok (c.branchBy w)
  | some .jz => .ok (c.branchIf w (flags &&& Flag.Z != 0))
  | some .jnz => .ok (c.branchIf w (flags &&& Flag.Z == 0))
  | some .jn => .ok (c.branchIf w (flags &&& Flag.N != 0))
  | some .jp => .ok (c.branchIf w (flags &&& Flag.N == 0))
  | some .jc => .ok (c.branchIf w (flags &&& Flag.C != 0))
  | some .jnc => .ok (c.branchIf w (flags &&& Flag.C == 0))
  | some .call => .ok ((c.pushWord c.state.pc).withPc (branchRaw w))
  | some .ret =>
    let sp := c.state.regs REG_SP + 1
    if sp.toNat < c.ram.len then
      .ok ((c.withPc (c.ram.cell sp.toNat)).setReg REG_SP sp)
    else .ok c
  | some .jmpr => .ok (c.withPc rs)
  | some .callr =>
    let c := c.pushWord c.state.pc
    .ok (c.withPc (c.state.regs s))
  | some .ld =>
    let (addr, c) := c.translateAddress (rs + simm)
    .ok (c.setReg d (c.memReadWord (addr.toNat >>> 2)))
  | some .st =>
    let (addr, c) := c.translateAddress (rd + simm)
    .ok (c.memWriteWord (addr.toNat >>> 2) rs)
  | some .ldb =>
    let (addr, c) := c.translateAddress (rs + simm)
    .ok (c.setReg d ((c.memReadByte addr.toNat).setWidth 32))
  | some .stb =>
    let (addr, c) := c.translateAddress (rd + simm)
    .ok (c.memWriteByte addr.toNat (rs.setWidth 8))
  | some .ldh =>
    let (addr, c) := c.translateAddress (rs + simm)
    .ok (c.setReg d ((c.memReadHalf addr.toNat).setWidth 32))
  | some .sth =>
    let (addr, c) := c.translateAddress (rd + simm)
    .ok (c.memWriteHalf addr.toNat (rs.setWidth 16))
  | some .cli => .ok { c with state := { c.state with interruptsEnabled := 0 } }
  | some .sti => .ok { c with state := { c.state with interruptsEnabled := 1 } }
  | some .xchg => .ok (c.exchange d s simm)
  | some .cas => .ok c.compareAndSwap
  | some .fence => .ok c
  | some .mret => .ok c.mret
  | some .sret => .ok c.sret
  | some .lrW => .ok ((c.setReg d (c.memReadWord (rs >>> 2).toNat)).setReservation rs)
  | some .scW => .ok (c.storeConditional d s (imm16 w))
  | some .syscall => c.monadSyscall
  | some .int => c.intInsn imm
  | some .iret => .ok c.iret
  | some .halt => .err .halted { c with state := { c.state with halted := 1 } }

/-- Dispatch a pending interrupt before the fetch. -/
def dispatchInterrupt : Cpu :=
  if c.state.interruptPending ≠ 0 ∧ c.state.interruptsEnabled ≠ 0 then
    let c := c.enterVector c.state.interruptVector
    { c with state := { c.state with interruptPending := 0 } }
  else c

def countInsn : Cpu :=
  { c with state := { c.state with insnCount := c.state.insnCount + 1 } }

def step : ExecResult :=
  if c.state.halted ≠ 0 then .err .halted c
  else
    let c := c.dispatchInterrupt
    match c.rom[c.state.pc.toNat]? with
    | none => .err .romFault c
    | some w =>
      match (c.withPc (c.state.pc + 1)).executeInsn w with
      | .ok c => .ok c.countInsn
      | .err e c => .err e c

def step? : Option Cpu :=
  match c.step with
  | .ok c => some c
  | .err _ _ => none

end Cpu

end Unheaded.Mbc
