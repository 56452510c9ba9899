import Unheaded.Cart.Reference
import Unheaded.Mbc.Host

/-!
# The differential oracle

`upc_cartridge::diff::lockstep_with`: the shared step and the host emulator run one XDP cartridge
together and are compared after every instruction.
-/

namespace Unheaded.Cart

open Lib Mbc
open BitVec (ofNat)

/-- `RecIo`: the packet input and the EMIT records. -/
structure RecIo where
  input : PacketInput
  emits : List (Word × Word × Word)

variable (input : PacketInput)

def PacketInput.field (id : Word) : Option Word :=
  if known : id.toNat < 13 then some (input.fields ⟨id.toNat, known⟩) else none

instance : CartIo RecIo where
  field io id := (io.input.field id, io)
  nowNsLo io := (io.input.nowNs.setWidth 32, io)
  emit io kind a b := { io with emits := io.emits ++ [(kind, a, b)] }
  queue io _ := io

inductive End where
  | halt
  | verdict (code : Byte)
  | fault (kind : FaultKind)
  deriving DecidableEq, Repr

def End.fromStep : Step → Option End
  | .halt => some .halt
  | .verdict v => some (.verdict v)
  | .fault k => some (.fault k)
  | .cont | .yield => none

def Step.faultKind : Step → Option FaultKind
  | .fault k => some k
  | _ => none

/-- What the two engines disagree on, first the shared step. -/
inductive Detail where
  | results (host : Option ExecError) (shared : Step)
  | reg (i : Nat) (shared host : Word)
  | flags (shared host : Byte)
  | pc (shared : Half) (host : Word)
  | mem (i : Nat) (shared host : Word)
  | emits (shared host : List (Word × Word × Word))
  deriving DecidableEq

structure Divergence where
  step : Nat
  pc : Half
  word : Word
  detail : Detail
  deriving DecidableEq

structure Agreement where
  steps : Nat
  ending : End
  state : CartState
  emits : List (Word × Word × Word)
  memOps : Nat
  syscalls : Nat

/-- The hook of the oracle's self-test. -/
structure Options where
  flipHostBitAfter : Option Nat

def Options.default : Options := ⟨none⟩

/-- Both engines with what they have emitted. -/
structure Pair where
  st : CartState
  io : RecIo
  host : Cpu
  hostEmits : List (Word × Word × Word)

/-- The syscall `n` answered for the host arm from the same input. -/
def serviceSyscall (n : Half) (x : Pair) : Pair :=
  let h := x.host
  let x :=
    -- The shared step has just read the same field, so the id is known.
    if n = Sys.FIELD then { x with host := h.setReg 0 ((input.field (h.state.regs 1)).getD 0) }
    else if n = Sys.NOW_NS_LO then { x with host := h.setReg 0 (input.nowNs.setWidth 32) }
    else if n = Sys.EMIT then
      { x with hostEmits := x.hostEmits ++ [(h.state.regs 1, h.state.regs 2, h.state.regs 3)] }
    else x
  { x with host := x.host.withPc (x.host.state.pc + 1) }

/-- The host arm of one instruction whose shared step returned `r`. -/
def hostArm (w : Word) (r : Step) (x : Pair) : Except Detail Pair :=
  if MbcInsn.opcode w = Opcode.syscall.toByte then
    .ok (serviceSyscall input (MbcInsn.imm16 w) x)
  else
    match x.host.step, r with
    | .err .halted h, .halt => .ok { x with host := h }
    | .ok h, .cont => .ok { x with host := h }
    | .err e _, c => .error (.results (some e) c)
    | .ok _, c => .error (.results none c)

/-- The comparison after an instruction. -/
def compare (st : CartState) (host : Cpu) : Option Detail :=
  match (List.range 16).find? (fun i =>
      host.state.regs (ofNat 4 i) != st.regs (ofNat 4 i)) with
  | some i => some (.reg i (st.regs (ofNat 4 i)) (host.state.regs (ofNat 4 i)))
  | none =>
    if host.state.flags &&& 0x07 ≠ st.flags then
      some (.flags st.flags (host.state.flags &&& 0x07))
    else if host.state.pc ≠ st.pc.setWidth 32 then some (.pc st.pc host.state.pc)
    else
      match (List.range 64).find? (fun i =>
          host.ram.getD i 0 != st.mem (ofNat 6 i)) with
      | some i => some (.mem i (st.mem (ofNat 6 i)) (host.ram.getD i 0))
      | none => none

variable (img : Image)

/-- Both engines through one instruction, without the comparison. -/
def jointStep (input : PacketInput) (last : Step × Pair) : Option (Step × Pair) :=
  if last.1 = .cont then
    let x := last.2
    let w := (img.rom[x.st.pc.toNat]?).getD 0
    let r := img.cartridge.runOne x.st x.io
    match r.result.faultKind with
    | some _ => none
    | none =>
      match hostArm input w r.result { x with st := r.st, io := r.io } with
      | .error _ => none
      | .ok x => some (r.result, x)
  else none

/-- The loop variables of `lockstep_with`. -/
structure Tally where
  pair : Pair
  steps : Nat
  memOps : Nat
  syscalls : Nat

def isMemOp (w : Word) : Bool :=
  MbcInsn.opcode w == Opcode.ld.toByte || MbcInsn.opcode w == Opcode.st.toByte ||
    MbcInsn.opcode w == Opcode.ldb.toByte

/-- The counters after a compared instruction. -/
def Tally.count (t : Tally) (w : Word) (pair : Pair) : Tally where
  pair := pair
  steps := t.steps + 1
  memOps := if isMemOp w then t.memOps + 1 else t.memOps
  syscalls :=
    if MbcInsn.opcode w = Opcode.syscall.toByte then t.syscalls + 1 else t.syscalls

def Options.flip (opt : Options) (steps : Nat) (host : Cpu) : Cpu :=
  if opt.flipHostBitAfter = some steps then host.setReg 1 (host.state.regs 1 ^^^ 1) else host

/-- The loop of `lockstep_with`; the fuel is `N_PKT + 1 - steps`. -/
def lockstepLoop (img : Image) (input : PacketInput) (opt : Options) :
    Nat → Tally → Except Divergence (Tally × End)
  | 0, t =>
    let r := img.cartridge.runOut t.pair.st t.pair.io
    .ok ({ t with pair := { t.pair with st := r.st } }, (End.fromStep r.result).getD .halt)
  | fuel + 1, t =>
    let pc := t.pair.st.pc
    let w := (img.rom[pc.toNat]?).getD 0
    let r := img.cartridge.runOne t.pair.st t.pair.io
    let x := { t.pair with st := r.st, io := r.io }
    match r.result.faultKind with
    | some k => .ok ({ t with pair := x }, .fault k)
    | none =>
      match hostArm input w r.result x with
      | .error d => .error ⟨t.steps, pc, w, d⟩
      | .ok x =>
        let x := { x with host := opt.flip t.steps x.host }
        match compare x.st x.host with
        | some d => .error ⟨t.steps, pc, w, d⟩
        | none =>
          if r.result = .cont then lockstepLoop img input opt fuel (t.count w x)
          else .ok (t.count w x, (End.fromStep r.result).getD .halt)

/-- Both engines before the first instruction, with `mem` in the flow window. -/
def startPair (input : PacketInput) (mem : BitVec 6 → Word) : Pair where
  st := beginRun { CartState.zeroed with mem := mem } img.entry
  io := ⟨input, []⟩
  host :=
    let c := Cpu.new.loadRom img.rom
    let window := (List.range 64).map (fun i => mem (ofNat 6 i))
    { c with
      state := { c.state with regs := fun _ => 0, pc := img.entry.setWidth 32, flags := 0 }
      ram := (c.ram.blit 0 window).blit (DATA_BASE / 4).toNat img.data }
  hostEmits := []

/-- `lockstep_with` on a flow whose window holds `mem`. -/
def lockstepFrom (mem : BitVec 6 → Word) (input : PacketInput) (opt : Options) :
    Except Divergence Agreement :=
  match lockstepLoop img input opt (N_PKT + 1) ⟨startPair img input mem, 0, 0, 0⟩ with
  | .error d => .error d
  | .ok (t, ending) =>
    if t.pair.hostEmits ≠ t.pair.io.emits then
      .error ⟨t.steps, t.pair.st.pc, 0, .emits t.pair.io.emits t.pair.hostEmits⟩
    else .ok ⟨t.steps, ending, t.pair.st, t.pair.io.emits, t.memOps, t.syscalls⟩

/-- `lockstep_with`: a fresh flow has a zero window. -/
def lockstepWith (input : PacketInput) (opt : Options) : Except Divergence Agreement :=
  lockstepFrom img (fun _ => 0) input opt

end Unheaded.Cart
