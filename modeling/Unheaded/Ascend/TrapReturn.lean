import Unheaded.Ascend.Tick
import Unheaded.Mbc.Translator

/-!
# Return from an injected trap

The translator writes the RISC-V word address of an `ecall` into the immediate of its `SYSCALL`.
-/

namespace Unheaded.Ascend

open Lib Mbc Translator BitVec
open BitVec (ofNat)

/-- The `SYSCALL` of an `ecall` at RISC-V word index `w`. -/
def ecallWord (w : Nat) : Word :=
  emit .syscall 0 0 (((ofNat 32 (4 * w) >>> 2) &&& 0xFFFF).setWidth 16)

def sretWord : Word := emit .sret 0 0 0

namespace Machine

variable (m : Machine)

theorem execute_ecallWord (w : Nat) : m.execute (ecallWord w) =
      m.ecall ((((ofNat 32 (4 * w) >>> 2) &&& 0xFFFF).setWidth 16 : Half).setWidth 32) := by
  simp [execute, Bpf.executeInsn, ecallWord, emit, system, withCpu]

theorem execute_sretWord (build : m.cpu.ascendLinux = true) : m.execute sretWord = m.sret := by
  simp [execute, Bpf.executeInsn, sretWord, emit, system, withCpu, build]

theorem ecall_routed {m : Machine} (routed : kernelRoutedAlias m.cpu m.a7 = 11) (imm : Word) :
    m.ecall imm = m.inject imm := by
  rw [ecall, routed]
  rfl

def sameMaps (b b' : Bpf) : Prop :=
  b'.rv2mbc = b.rv2mbc ∧ b'.state = b.state ∧ b'.ascendLinux = b.ascendLinux

theorem trapRegisters_sameMaps (b : Bpf) (imm : Word) : sameMaps b (trapRegisters b imm) := by
  simp [sameMaps, trapRegisters]

theorem injectStrap_sameMaps (b : Bpf) : sameMaps b (injectStrap b) := by
  unfold injectStrap sameMaps
  dsimp only
  split
  · exact ⟨rfl, rfl, rfl⟩
  · simp

theorem inject_keeps (imm : Word) : (m.inject imm).machine.cpu.rv2mbc = m.cpu.rv2mbc ∧
      (m.inject imm).machine.cpu.state.rv2mbcBase = m.cpu.state.rv2mbcBase ∧
      (m.inject imm).machine.cpu.ascendLinux = m.cpu.ascendLinux := by
  obtain ⟨maps, state, build⟩ := injectStrap_sameMaps (trapRegisters m.cpu imm)
  obtain ⟨maps', state', build'⟩ := trapRegisters_sameMaps m.cpu imm
  unfold inject
  dsimp only
  split
  · simp [Arm.machine, clearReservation, withPc, withCpu, setPriv, Bpf.setReservation, Bpf.withPc,
      maps, state, build, maps', state', build']
  · simp [Arm.machine, clearReservation, withCpu, setPriv, Bpf.setReservation, trapFault, setHalted,
      Bpf.setHalted, maps, state, build, maps', state', build']

/-- User code goes on at `pc`, with its address map at `base`. -/
def Resumes (pc base : Word) : Prop :=
  m.cpu.state.pc = pc ∧ m.cpu.state.privLevel = 3 ∧ m.cpu.state.rv2mbcBase = base

/-- The kernel ran on the first machine and came to the second: its address
map, the program's base in it and the build are what they were. -/
structure KernelRan (m m' : Machine) : Prop where
  rv2mbc : m'.cpu.rv2mbc = m.cpu.rv2mbc
  rv2mbcBase : m'.cpu.state.rv2mbcBase = m.cpu.state.rv2mbcBase
  ascendLinux : m'.cpu.ascendLinux = m.cpu.ascendLinux

theorem return_index {w : Nat} (small : w < 65535) {base : Word} {entries : Nat}
    (inside : base.toNat + w + 1 < entries) (sized : entries ≤ Bpf.RV2MBC_ENTRIES_LARGE) :
    (((ofNat 32 (4 * w + 4) >>> 2) &&& 0xFFFF) + base).toNat = base.toNat + w + 1 := by
  unfold Bpf.RV2MBC_ENTRIES_LARGE at sized
  have word : ((ofNat 32 (4 * w + 4) >>> 2) &&& 0xFFFF).toNat = w + 1 := by
    rw [toNat_and, toNat_ushiftRight, toNat_ofNat, Nat.shiftRight_eq_div_pow]
    have cut := Nat.and_two_pow_sub_one_eq_mod ((4 * w + 4) % 2 ^ 32 / 2 ^ 2) 16
    have mask : (0xFFFF : Word).toNat = 2 ^ 16 - 1 := rfl
    rw [mask, cut]
    omega
  rw [toNat_add]
  omega

theorem mask_eq_iff (i : Word) : i &&& 0xFFFF = i ↔ i.toNat < 65536 := by
  rw [← toNat_inj, toNat_and]
  have cut := Nat.and_two_pow_sub_one_eq_mod i.toNat 16
  have mask : (0xFFFF : Word).toNat = 2 ^ 16 - 1 := rfl
  rw [mask]
  omega

theorem sret_user {m : Machine} {i : Word} (build : m.cpu.ascendLinux = true)
    (spp : (m.cpu.memReadWord SSTATUS >>> 8) &&& 1 = 0) (found : m.cpu.rv2mbc.get?
      (((m.cpu.memReadWord SEPC >>> 2) &&& 0xFFFF) + m.cpu.state.rv2mbcBase).toNat = some i)
    (nonzero : i ≠ 0) : Resumes m.sret.machine (i &&& 0xFFFF) m.cpu.state.rv2mbcBase := by
  have target : trapTarget (m.setPriv 3).cpu (m.cpu.memReadWord SEPC) = some (i &&& 0xFFFF) := by
    have base : (m.setPriv 3).cpu.rv2mbcBranchBase = m.cpu.state.rv2mbcBase := if_pos ⟨build, rfl⟩
    have entry : (m.setPriv 3).cpu.rv2mbc.get?
        (((m.cpu.memReadWord SEPC >>> 2) &&& 0xFFFF) + m.cpu.state.rv2mbcBase).toNat = some i := found
    rw [trapTarget, base, entry]
    exact if_pos nonzero
  rw [sret, if_pos spp, if_pos spp, target]
  rw [if_pos spp]
  exact ⟨rfl, rfl, rfl⟩

end Machine

open Machine

/-- A system call of the program at map base `base`, injected from the `ecall`
at RISC-V word `w` and returned from with `SEPC` on the next word, goes on
there exactly when that instruction lies in the first 65536 words of the ROM. -/
theorem injected_call_resumes_iff {m m' : Machine} {w : Nat} {i : Word}
    (build : m.cpu.ascendLinux = true) (entries : m.cpu.rv2mbc.len ≤ Bpf.RV2MBC_ENTRIES_LARGE)
    (routed : kernelRoutedAlias m.cpu m.a7 = 11) (small : w < 65535)
    (mapped : m.cpu.rv2mbc.get? (m.cpu.state.rv2mbcBase.toNat + w + 1) = some i) (nonzero : i ≠ 0)
    (kernel : KernelRan (m.execute (ecallWord w)).machine m')
    (sepc : m'.cpu.memReadWord SEPC = ofNat 32 (4 * w + 4))
    (spp : (m'.cpu.memReadWord SSTATUS >>> 8) &&& 1 = 0) :
    Resumes (m'.execute sretWord).machine i m.cpu.state.rv2mbcBase ↔ i.toNat < 65536 := by
  rw [execute_ecallWord, ecall_routed routed] at kernel
  obtain ⟨keptMap, keptBase, keptBuild⟩ := inject_keeps m
    ((((ofNat 32 (4 * w) >>> 2) &&& 0xFFFF).setWidth 16 : Half).setWidth 32)
  have base : m'.cpu.state.rv2mbcBase = m.cpu.state.rv2mbcBase := kernel.rv2mbcBase.trans keptBase
  have maps : m'.cpu.rv2mbc = m.cpu.rv2mbc := kernel.rv2mbc.trans keptMap
  have build' : m'.cpu.ascendLinux = true := (kernel.ascendLinux.trans keptBuild).trans build
  have inside : m.cpu.state.rv2mbcBase.toNat + w + 1 < m.cpu.rv2mbc.len := by
    unfold Store.get? at mapped
    split at mapped
    · assumption
    · cases mapped
  have found : m'.cpu.rv2mbc.get?
      (((m'.cpu.memReadWord SEPC >>> 2) &&& 0xFFFF) + m'.cpu.state.rv2mbcBase).toNat = some i := by
    rw [maps, base, sepc, return_index small inside entries]
    exact mapped
  obtain ⟨pc, user, kept⟩ := sret_user build' spp found nonzero
  rw [execute_sretWord m' build', ← mask_eq_iff]
  constructor
  · rintro ⟨resumed, -, -⟩
    exact pc.symm.trans resumed
  · intro whole
    exact ⟨pc.trans whole, user, kept.trans base⟩

/-- A program at the start of the address map whose second instruction is in
the ROM word `i`. -/
def calling (i : Word) : Machine := .boot { Bpf.boot { MbcCpuState.default with
      privLevel := 3, regs := Function.update (fun _ => 0) 1 11 }
      RAM_MAP_WORDS [] [1, i] with ascendLinux := true }

def returning (i : Word) : Machine :=
  let m := ((calling i).execute (ecallWord 0)).machine
  m.withCpu (m.cpu.withRam (m.cpu.ram.set SEPC.toNat 4))

theorem returning_resumes : Resumes ((returning 7).execute sretWord).machine 7 0 := by
  refine (@injected_call_resumes_iff (calling 7) (returning 7) 0 7 rfl (by decide) rfl (by decide)
    rfl (by decide) ⟨rfl, rfl, rfl⟩ ?_ ?_).mpr (by decide)
  · decide
  · decide

/-- The instruction after the call is in ROM word 70000, and is missed. -/
theorem far_return_misses : (calling 70000).cpu.rv2mbc.get? 1 = some 70000 ∧
      KernelRan ((calling 70000).execute (ecallWord 0)).machine (returning 70000) ∧
      (returning 70000).cpu.memReadWord SEPC = 4 ∧
      ((returning 70000).cpu.memReadWord SSTATUS >>> 8) &&& 1 = 0 ∧
      ¬ Resumes ((returning 70000).execute sretWord).machine 70000 0 := by
  refine ⟨rfl, ⟨rfl, rfl, rfl⟩, by decide, by decide, ?_⟩
  rintro ⟨pc, -, -⟩
  revert pc
  decide

end Unheaded.Ascend
