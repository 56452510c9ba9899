import Unheaded.Cart.Program
import Unheaded.Cart.QModel

/-!
# The scorer cartridge

`cartridges/scorer.s`: a tick job that evaluates the quantised model on the
eight words of a score job and emits the score.
-/

namespace Unheaded.Cart

open Lib Mbc Mbc.Asm List BitVec Function
open BitVec (ofNat)

/-! ## The DATA window as bytes -/

section DataBytes

variable {p : Cartridge} {b : List Byte} {n off : Nat} (s : Progress) (d : Reg)

/-- The DATA words of `p` are those of the bytes `b`. -/
structure DataBytes (p : Cartridge) (b : List Byte) (n : Nat) : Prop where
  small : n ≤ 1024
  size : p.cfg.dataWords.toNat = n
  data : ∀ i, p.data i = (words b 0 n)[i.toNat]?

theorem DataBytes.loadWord (bytes : DataBytes p b n) (st : CartState) (inside : off < 4 * n) :
    p.loadWord st (ofNat 32 (0x1000 + off)) = some (le32 b (4 * (off / 4))) := by
  have small := bytes.small
  have address : (ofNat 32 (0x1000 + off)).toNat = 0x1000 + off :=
    Nat.mod_eq_of_lt (by omega)
  have base : DATA_BASE.toNat = 0x1000 := rfl
  have four : (4 : Word).toNat = 4 := rfl
  have window : ¬ ofNat 32 (0x1000 + off) < 0x100 := by
    rw [lt_def, address]
    exact Nat.not_lt.mpr (Nat.le_trans (by decide) (Nat.le_add_right 0x1000 off))
  have low : DATA_BASE ≤ ofNat 32 (0x1000 + off) := by
    rw [le_def, address, base]
    exact Nat.le_add_right _ _
  have offset : (ofNat 32 (0x1000 + off) - DATA_BASE).toNat = off := by
    rw [toNat_sub_of_le low, address, base, Nat.add_sub_cancel_left]
  have high : ofNat 32 (0x1000 + off) - DATA_BASE < p.cfg.dataWords.setWidth 32 * 4 := by
    rw [lt_def, offset, toNat_mul, toNat_setWidth, bytes.size, four]
    omega
  have index : ((ofNat 32 (0x1000 + off) - DATA_BASE) >>> 2).toNat = off / 4 := by
    rw [toNat_ushiftRight, offset, Nat.shiftRight_eq_div_pow]
  have among : off / 4 < n := by omega
  rw [Cartridge.loadWord, if_neg window, if_pos ⟨low, high⟩, bytes.data, index, words,
    List.getElem?_map, List.getElem?_range among, Option.map_some, Nat.zero_add]

theorem DataBytes.execLoad (bytes : DataBytes p b n) (inside : off < 4 * n)
    (aligned : off % 4 = 0) : execLoad p d (ofNat 32 (0x1000 + off)) s =
      some (s.write d (le32 b off) s.job.flags) := by
  have whole : 4 * (off / 4) = off := by omega
  have word := bytes.loadWord s.job.state inside
  rw [whole] at word
  apply execLoad_of_word s d word
  apply eq_of_toNat_eq
  have small := bytes.small
  have address : (ofNat 32 (0x1000 + off)).toNat = 0x1000 + off :=
    Nat.mod_eq_of_lt (by omega)
  have low : (0x1000 + off) &&& 3 = (0x1000 + off) % 4 := Nat.and_two_pow_sub_one_eq_mod _ 2
  rw [toNat_and, address]
  change (0x1000 + off) &&& 3 = 0
  rw [low]
  omega

theorem DataBytes.execLoadByte (bytes : DataBytes p b n) (inside : off < 4 * n) :
    execLoadByte p d (ofNat 32 (0x1000 + off)) s =
      some (s.write d ((b.getD off 0).setWidth 32) s.job.flags) := by
  have word := bytes.loadWord s.job.state inside
  have small := bytes.small
  have address : (ofNat 32 (0x1000 + off)).toNat = 0x1000 + off :=
    Nat.mod_eq_of_lt (by omega)
  have low : (0x1000 + off) &&& 3 = (0x1000 + off) % 4 := Nat.and_two_pow_sub_one_eq_mod _ 2
  have lane : ((ofNat 32 (0x1000 + off) &&& 3) * 8).toNat = off % 4 * 8 := by
    rw [toNat_mul, toNat_and, address]
    change ((0x1000 + off) &&& 3) * 8 % 2 ^ 32 = off % 4 * 8
    rw [low]
    omega
  have byte : byteOf (le32 b (4 * (off / 4))) (off % 4) = b.getD off 0 := by
    have back := Nat.div_add_mod off 4
    have four : off % 4 < 4 := Nat.mod_lt _ (by decide)
    rw [byteOf_le32 b _ four, back]
  rw [Cart.execLoadByte, word]
  dsimp only
  rw [lane, shift_and_byte, byte]

end DataBytes

namespace Scorer

inductive Label where
  | x (k : BitVec 3) | row | relu | hok | lo | hi
  deriving DecidableEq

/-! ## The program, in basic blocks -/

def start : List (AsmInsn Label) := [MOVI 15 255]

/-- Input `k` into `r`: the feature word at `word`, shifted by the DATA byte at `byte`. -/
def shiftInput (r : Reg) (word byte : Half) (k : BitVec 3) : List (AsmInsn Label) :=
  [LD r 3 word, LDB 0 3 byte, SHRR r 0, CMP r 15, JC (.x k)]

def capInput (r : Reg) : List (AsmInsn Label) := [MOV r 15]

def sumInput (r : Reg) : List (AsmInsn Label) := [ADD 14 r]

def input (r : Reg) (word byte : Half) (k : BitVec 3) : List (AsmLine Label) :=
  code (shiftInput r word byte k) ++ code (capInput r) ++ AsmLine.label (.x k) :: code (sumInput r)

def setup : List (AsmInsn Label) := [SHL 14 7, MOVI 3 0x1014, MOVI 12 16]

def product : List (AsmInsn Label) := [LD 1 3 0, LDB 2 3 4, MUL 2 4, ADD 1 2,
   LDB 2 3 5, MUL 2 5, ADD 1 2,
   LDB 2 3 6, MUL 2 6, ADD 1 2,
   LDB 2 3 7, MUL 2 7, ADD 1 2,
   LDB 2 3 8, MUL 2 8, ADD 1 2,
   LDB 2 3 9, MUL 2 9, ADD 1 2,
   LDB 2 3 10, MUL 2 10, ADD 1 2,
   LDB 2 3 11, MUL 2 11, ADD 1 2,
   SUB 1 14, JP .relu]

def negative : List (AsmInsn Label) := [MOVI 1 0]

def requantise : List (AsmInsn Label) := [LDB 0 3 13, SHRR 1 0, CMP 1 15, JC .hok]

def saturate : List (AsmInsn Label) := [MOV 1 15]

def accumulate : List (AsmInsn Label) :=
  [LDB 2 3 12, SHL 2 24, SAR 2 24, MUL 2 1, ADD 13 2, ADDI 3 16, ADDI 12 (-1), JNZ .row]

def output : List (AsmInsn Label) :=
  [LD 1 3 (-260), ADD 13 1, LDB 0 3 (-264), SARR 13 0, ADDI 13 128, JP .lo]

def below : List (AsmInsn Label) := [MOVI 13 0]

def bound : List (AsmInsn Label) := [CMP 13 15, JC .hi]

def above : List (AsmInsn Label) := [MOV 13 15]

def lookup : List (AsmInsn Label) := [ADD 13 3, LDB 2 13 0]

def report : List (AsmInsn Label) := [LD 3 3 (-268), MOVI 1 0x41, SYSCALL 3]

def halt : List (AsmInsn Label) := [HALT]

/-- `cartridges/scorer.s`. -/
def source : List (AsmLine Label) := code start ++
  input 4 0 0x1000 0 ++ input 5 4 0x1001 1 ++ input 6 8 0x1002 2 ++ input 7 12 0x1003 3 ++
  input 8 16 0x1004 4 ++ input 9 20 0x1005 5 ++ input 10 24 0x1006 6 ++ input 11 28 0x1007 7 ++
  code setup ++
  .label .row :: code product ++ code negative ++
  .label .relu :: code requantise ++ code saturate ++
  .label .hok :: code accumulate ++ code output ++ code below ++
  .label .lo :: code bound ++ code above ++
  .label .hi :: code lookup ++ code report ++ code halt

/-! ## Runs -/

/-- The scorer in a slot, with the model `m`. -/
structure Running (m : QModel) (p : Cartridge) : Prop where
  loaded : Loaded source p
  tick : p.cfg.stage = STAGE_TICK
  loopBound : p.cfg.loopBound = 16
  bytes : DataBytes p m.blob 133

/-- The register of input `k`. -/
def xReg (k : BitVec 3) : Reg := k.setWidth 4 + 4

/-- The registers after the inputs of `done`. -/
def inputsKnown (x : Features) (done : List (BitVec 3)) : List (Reg × Word) :=
  [(3, 0), (13, 0), (15, 255), (14, done.foldl (fun a k => a + x k) 0)] ++
    done.map fun k => (xReg k, x k)

section Blocks

variable {m : QModel} {p : Cartridge} {pkt : PacketInput} {feat : Features}
  {mem : BitVec 6 → Word} {log : Log} {s : Progress}

theorem Running.size (running : Running m p) : p.cfg.romWords.toNat = 117 := running.loaded.size

theorem Running.word (running : Running m p) (off : Nat) (inside : off < 532)
    (aligned : off % 4 = 0) (d : Reg) (s : Progress) : execLoad p d (ofNat 32 (0x1000 + off)) s =
      some (s.write d (le32 m.blob off) s.job.flags) :=
  running.bytes.execLoad s d inside aligned

theorem Running.byte (running : Running m p) (off : Nat) (inside : off < 532) (d : Reg)
    (s : Progress) : execLoadByte p d (ofNat 32 (0x1000 + off)) s =
      some (s.write d ((m.blob.getD off 0).setWidth 32) s.job.flags) :=
  running.bytes.execLoadByte s d inside

variable {x : Features}

theorem start_goes (running : Running m p) (here : At 0 [(3, 0), (13, 0), (14, 0)] mem 0 log s) :
    Goes (jobStep p pkt) 1 s (At 1 (inputsKnown x []) mem 0 log) := by
  refine running.loaded.goes_block 0 start ⟨_, rfl⟩ here ?_
  intro regs flags known
  simp at known
  simp [start, inputsKnown, known]

/-- Input `k` before it is capped. -/
def shifted (feat : Features) (k : Nat) : Word := feat (ofNat 3 k) >>> (SH_IN.getD k 0).toNat

theorem xReg_ne : ∀ k : BitVec 3,
    xReg k ≠ 0 ∧ xReg k ≠ 3 ∧ xReg k ≠ 13 ∧ xReg k ≠ 14 ∧ xReg k ≠ 15 := by
  decide

variable {k : Nat}

theorem inputsKnown_apart (small : k < 8) :
    ∀ y ∈ inputsKnown x (featIndices.take k), y.1 ≠ xReg (ofNat 3 k) ∧ y.1 ≠ 0 := by
  have registers : ∀ k < 8, ∀ r ∈ [3, 13, 15, 14] ++ (featIndices.take k).map xReg,
      r ≠ xReg (ofNat 3 k) ∧ r ≠ 0 := by decide
  intro y member
  refine registers k small y.1 ?_
  have named := List.mem_map_of_mem (f := Prod.fst) member
  rwa [inputsKnown, map_append, List.map_map] at named

theorem inputsKnown_kept (small : k < 8) {regs regs' : Reg → Word}
    (known : ∀ y ∈ inputsKnown x (featIndices.take k), regs y.1 = y.2)
    (kept : ∀ q, q ≠ xReg (ofNat 3 k) → q ≠ 0 → regs' q = regs q) :
    ∀ y ∈ (xReg (ofNat 3 k), regs' (xReg (ofNat 3 k))) ::
      inputsKnown x (featIndices.take k), regs' y.1 = y.2 := by
  intro y member
  rcases mem_cons.mp member with rfl | old
  · rfl
  · obtain ⟨other, scratch⟩ := inputsKnown_apart small y old
    exact (kept y.1 other scratch).trans (known y old)

theorem shiftInput_line (running : Running m p) {r : Reg} {k : BitVec 3} {pc word byte : Half}
    {target : Nat} {regs : Reg → Word} {mem : BitVec 6 → Word} {flags : Byte} {edges v b : Word}
    (zero : r ≠ 0) (three : r ≠ 3) (fifteen : r ≠ 15) (base : regs 3 = 0) (cap : regs 15 = 255)
    (label : labels source (.x k) = some target) (next : target = pc.toNat + 6)
    (inside : target < 117) (low : word.signExtend 32 < (0x100 : Word))
    (aligned : word.signExtend 32 &&& (3 : Word) = 0)
    (value : mem (memIndex (word.signExtend 32)) = v)
    (shift : ∀ s, execLoadByte p 0 (byte.signExtend 32) s = some (s.write 0 b s.job.flags)) :
    ∃ s', line p pkt (labels source) pc.toNat (shiftInput r word byte k)
        ⟨⟨regs, mem, pc, flags, edges⟩, log⟩ = some s' ∧
      At (if v >>> shamt b < 255 then ofNat 16 target else pc + 5) [(r, v >>> shamt b)] mem
        edges log s' ∧
      ∀ q, q ≠ r → q ≠ 0 → s'.job.regs q = regs q := by
  have pc1 : (pc.toNat + 1) % 65536 = pc.toNat + 1 := Nat.mod_eq_of_lt (by omega)
  have pc2 : (pc.toNat + 1 + 1) % 65536 = pc.toNat + 1 + 1 := Nat.mod_eq_of_lt (by omega)
  have pc3 : (pc.toNat + 1 + 1 + 1) % 65536 = pc.toNat + 1 + 1 + 1 := Nat.mod_eq_of_lt (by omega)
  have pc4 : (pc.toNat + 1 + 1 + 1 + 1) % 65536 = pc.toNat + 1 + 1 + 1 + 1 :=
    Nat.mod_eq_of_lt (by omega)
  have rom : ¬ 117 ≤ target := Nat.not_le.mpr inside
  have ahead : pc.toNat + 1 + 1 + 1 + 1 < target := by omega
  simp only [ofNat_eq_ofNat] at base cap low aligned shift
  simp only [ofNat_eq_ofNat, ne_eq] at zero three fifteen
  simp only [memIndex] at value
  have five : pc + 1 + 1 + 1 + 1 + 1 = pc + 5 := by simp [BitVec.add_assoc]
  simp only [ofNat_eq_ofNat] at five
  cases borrow : subBorrow (v >>> shamt b) 255 with
  | true =>
    have under : v >>> shamt b < 255 := of_decide_eq_true borrow
    simp only [ofNat_eq_ofNat] at borrow under
    simp +contextual [shiftInput, pc1, pc2, pc3, pc4, base, cap, shift, low, aligned, value, label,
      zero, Ne.symm three, Ne.symm fifteen, running.size, rom, ahead, borrow, under]
  | false =>
    have under : ¬ v >>> shamt b < 255 := of_decide_eq_false borrow
    simp only [ofNat_eq_ofNat] at borrow under
    simp +contextual [shiftInput, pc1, pc2, pc3, pc4, base, cap, shift, low, aligned, value, label,
      zero, Ne.symm three, Ne.symm fifteen, running.size, rom, borrow, under, five]

theorem shiftInput_goes (running : Running m p) (small : k < 8)
    (window : ∀ i : BitVec 3, mem (i.setWidth 6) = feat i)
    (here : At (ofNat 16 (1 + 7 * k)) (inputsKnown (inputs feat) (featIndices.take k)) mem 0 log s) :
    Goes (jobStep p pkt) 5 s (At (if shifted feat k < 255 then ofNat 16 (7 + 7 * k)
          else ofNat 16 (6 + 7 * k))
        ((xReg (ofNat 3 k), shifted feat k) ::
          inputsKnown (inputs feat) (featIndices.take k)) mem 0 log) := by
  have target : labels source (.x (ofNat 3 k)) = some (7 + 7 * k) := by
    interval_cases k <;> rfl
  have place : (ofNat 16 (1 + 7 * k)).toNat = 1 + 7 * k := Nat.mod_eq_of_lt (by omega)
  have low : (ofNat 16 (4 * k)).signExtend 32 < (0x100 : Word) := by
    interval_cases k <;> decide
  have aligned : (ofNat 16 (4 * k)).signExtend 32 &&& (3 : Word) = 0 := by
    interval_cases k <;> rfl
  have index : memIndex ((ofNat 16 (4 * k)).signExtend 32) =
      (ofNat 3 k).setWidth 6 := by
    interval_cases k <;> rfl
  have address : (ofNat 16 (0x1000 + k)).signExtend 32 = ofNat 32 (0x1000 + k) := by
    interval_cases k <;> rfl
  have shift : ∀ s, execLoadByte p 0 ((ofNat 16 (0x1000 + k)).signExtend 32) s =
      some (s.write 0 ((SH_IN.getD k 0).setWidth 32) s.job.flags) := by
    have stored := blob_shift m (ofNat 3 k)
    have low : (ofNat 3 k).toNat = k := Nat.mod_eq_of_lt small
    rw [low] at stored
    rw [address, ← stored]
    exact running.byte k (Nat.lt_trans small (by decide)) 0
  have amount : shamt ((SH_IN.getD k 0).setWidth 32) = (SH_IN.getD k 0).toNat := by
    interval_cases k <;> rfl
  have value : mem (memIndex ((ofNat 16 (4 * k)).signExtend 32)) =
      feat (ofNat 3 k) := by
    rw [index]
    exact window _
  have next : 7 + 7 * k = (ofNat 16 (1 + 7 * k)).toNat + 6 := by omega
  have past : ofNat 16 (1 + 7 * k) + 5 = ofNat 16 (6 + 7 * k) := by
    interval_cases k <;> rfl
  refine running.loaded.goes_block (ofNat 16 (1 + 7 * k))
    (shiftInput (xReg (ofNat 3 k)) (ofNat 16 (4 * k)) (ofNat 16 (0x1000 + k))
      (ofNat 3 k)) ?_ here ?_
  · interval_cases k <;> exact ⟨_, rfl⟩
  · intro regs flags known
    obtain ⟨zero, three, -, -, fifteen⟩ := xReg_ne (ofNat 3 k)
    obtain ⟨s', ran, there, kept⟩ := shiftInput_line running zero three fifteen
      (known (3, 0) (by simp [inputsKnown])) (known (15, 255) (by simp [inputsKnown])) target
      next (by omega) low aligned value shift
    rw [amount, past] at there
    refine ⟨s', ran, there.pc, ?_, there.mem, there.edges, there.log⟩
    have result := there.known _ mem_cons_self
    have all := inputsKnown_kept small known kept
    rwa [result] at all

theorem capInput_goes (running : Running m p) (small : k < 8) {v : Word}
    (here : At (ofNat 16 (6 + 7 * k))
      ((xReg (ofNat 3 k), v) :: inputsKnown (inputs feat) (featIndices.take k)) mem 0 log s) :
    Goes (jobStep p pkt) 1 s (At (ofNat 16 (7 + 7 * k)) ((xReg (ofNat 3 k), 255) ::
          inputsKnown (inputs feat) (featIndices.take k)) mem 0 log) := by
  have next : ofNat 16 (6 + 7 * k) + 1 = ofNat 16 (7 + 7 * k) := by
    interval_cases k <;> rfl
  refine running.loaded.goes_block (ofNat 16 (6 + 7 * k))
    (capInput (xReg (ofNat 3 k))) ?_ here ?_
  · interval_cases k <;> exact ⟨_, rfl⟩
  · intro regs flags known
    have old := fun y member => known y (mem_cons_of_mem _ member)
    have cap : regs 15 = 255 := old (15, 255) (by simp [inputsKnown])
    have ran := line_singleton p pkt (labels source) (MOV (xReg (ofNat 3 k)) 15)
      ⟨⟨regs, mem, ofNat 16 (6 + 7 * k), flags, 0⟩, log⟩
    rw [exec_MOV] at ran
    dsimp only at ran
    rw [cap] at ran
    refine ⟨_, ran, next, ?_, rfl, rfl, rfl⟩
    have all := @inputsKnown_kept (inputs feat) k small regs
      (update regs (xReg (ofNat 3 k)) 255) old
      (fun q other _ => update_of_ne other _ _)
    rwa [update_self] at all

theorem sumInput_goes (running : Running m p) (small : k < 8) (here : At (ofNat 16 (7 + 7 * k))
      ((xReg (ofNat 3 k), inputs feat (ofNat 3 k)) ::
        inputsKnown (inputs feat) (featIndices.take k)) mem 0 log s) :
    Goes (jobStep p pkt) 1 s (At (ofNat 16 (1 + 7 * (k + 1)))
        (inputsKnown (inputs feat) (featIndices.take (k + 1))) mem 0 log) := by
  have next : ofNat 16 (7 + 7 * k) + 1 = ofNat 16 (1 + 7 * (k + 1)) := by
    interval_cases k <;> rfl
  have taken : featIndices.take (k + 1) = featIndices.take k ++ [ofNat 3 k] := by
    interval_cases k <;> rfl
  refine running.loaded.goes_block (ofNat 16 (7 + 7 * k))
    (sumInput (xReg (ofNat 3 k))) ?_ here ?_
  · interval_cases k <;> exact ⟨_, rfl⟩
  · intro regs flags known
    obtain ⟨-, -, -, fourteen, -⟩ := xReg_ne (ofNat 3 k)
    have input := known _ mem_cons_self
    have old := fun y member => known y (mem_cons_of_mem _ member)
    have sum : regs 14 = (featIndices.take k).foldl (fun a k => a + inputs feat k) 0 :=
      old (14, _) (by simp [inputsKnown])
    have ran := line_singleton p pkt (labels source) (ADD 14 (xReg (ofNat 3 k)))
      ⟨⟨regs, mem, ofNat 16 (7 + 7 * k), flags, 0⟩, log⟩
    rw [exec_ADD] at ran
    refine ⟨_, ran, next, ?_, rfl, rfl, rfl⟩
    change ∀ y ∈ inputsKnown (inputs feat) (featIndices.take (k + 1)),
      update regs 14 (regs 14 + regs (xReg (ofNat 3 k))) y.1 = y.2
    rw [input, sum, taken]
    intro y member
    simp only [inputsKnown, mem_append, mem_cons, not_mem_nil, or_false,
      map_append, foldl_append, foldl_cons, foldl_nil, map_cons,
      map_nil] at member
    rcases member with (rfl | rfl | rfl | rfl) | earlier | rfl
    · exact old (3, 0) (by simp [inputsKnown])
    · exact old (13, 0) (by simp [inputsKnown])
    · exact old (15, 255) (by simp [inputsKnown])
    · exact update_self _ _ _
    · obtain ⟨j, -, same⟩ := List.mem_map.mp earlier
      have other : y.1 ≠ 14 := by
        rw [← same]
        exact (xReg_ne j).2.2.2.1
      rw [update_of_ne other]
      exact old y (mem_append_right _ earlier)
    · rw [update_of_ne fourteen]
      exact input

theorem inputs_ofNat (small : k < 8) : inputs feat (ofNat 3 k) = minByte (shifted feat k) := by
  have low : (ofNat 3 k).toNat = k := Nat.mod_eq_of_lt small
  rw [inputs, shifted, low]

theorem input_goes (running : Running m p) (small : k < 8)
    (window : ∀ i : BitVec 3, mem (i.setWidth 6) = feat i)
    (here : At (ofNat 16 (1 + 7 * k)) (inputsKnown (inputs feat) (featIndices.take k)) mem 0 log s) :
    Goes (jobStep p pkt) 7 s (At (ofNat 16 (1 + 7 * (k + 1)))
        (inputsKnown (inputs feat) (featIndices.take (k + 1))) mem 0 log) := by
  have capped : inputs feat (ofNat 3 k) = minByte (shifted feat k) := inputs_ofNat small
  unfold minByte at capped
  refine ((shiftInput_goes running small window here).trans (b := 1) ?_).trans fun t there =>
    sumInput_goes running small there
  intro t there
  by_cases low : shifted feat k < 255
  · rw [if_pos low] at there capped
    rw [capped]
    exact .here there
  · rw [if_neg low] at there capped
    rw [capped]
    exact capInput_goes running small there

def rowKnown (x : Features) (corr row count z : Word) : List (Reg × Word) :=
  [(3, row), (12, count), (13, z), (14, corr), (15, 255)] ++ featIndices.map fun k => (xReg k, x k)

theorem setup_goes (running : Running m p) (here : At 57 (inputsKnown x featIndices) mem 0 log s) :
    Goes (jobStep p pkt) 3 s (At 60 (rowKnown x (sumX x <<< 7) 0x1014 16 0) mem 0 log) := by
  have seven : shamt 7#32 = 7 := rfl
  refine running.loaded.goes_block 57 setup ⟨_, rfl⟩ here ?_
  intro regs flags known
  simp [inputsKnown, xReg, featIndices] at known
  simp [setup, rowKnown, sumX, xReg, featIndices, known, seven]

theorem prologue_goes (running : Running m p) (window : ∀ i : BitVec 3, mem (i.setWidth 6) = feat i)
    (here : At 0 [(3, 0), (13, 0), (14, 0)] mem 0 log s) : Goes (jobStep p pkt) 60 s
      (At 60 (rowKnown (inputs feat) (sumX (inputs feat) <<< 7) 0x1014 16 0) mem 0 log) := by
  refine ((start_goes (x := inputs feat) running here).trans (b := 56) ?_).trans fun t there =>
    setup_goes running there
  intro t there
  exact Goes.loop (I := fun k => At (ofNat 16 (1 + 7 * k))
    (inputsKnown (inputs feat) (featIndices.take k)) mem 0 log) 8
    (fun k small u at_k => input_goes running small window at_k) there

/-! ## One row -/

/-- A row of the model in the DATA window at `row`. -/
structure RowAt (p : Cartridge) (r : QRow) (row : Word) : Prop where
  bias : ∀ d s, execLoad p d row s = some (s.write d r.b1 s.job.flags)
  weight : ∀ (k : BitVec 3) d s, execLoadByte p d (row + (k.setWidth 32 + 4)) s =
    some (s.write d (r.biased k) s.job.flags)
  w2 : ∀ d s, execLoadByte p d (row + 12) s = some (s.write d (r.w2.setWidth 32) s.job.flags)
  sh : ∀ d s, execLoadByte p d (row + 13) s = some (s.write d (r.sh.setWidth 32) s.job.flags)

section Row

variable {r : QRow} {x : Features} {corr row count z edges : Word}

def QRow.acc (r : QRow) (x : Features) (corr : Word) : Word :=
  featIndices.foldl (fun acc k => acc + r.biased k * x k) r.b1 - corr

theorem product_goes (running : Running m p) (stored : RowAt p r row)
    (here : At 60 (rowKnown x corr row count z) mem edges log s) :
    Goes (jobStep p pkt) 27 s (At (if (r.acc x corr).msb then 87 else 88)
        ((1, r.acc x corr) :: rowKnown x corr row count z) mem edges log) := by
  have target : labels source .relu = some 88 := rfl
  have bias := stored.bias 1
  have w0 := stored.weight 0 2
  have w1 := stored.weight 1 2
  have w2 := stored.weight 2 2
  have w3 := stored.weight 3 2
  have w4 := stored.weight 4 2
  have w5 := stored.weight 5 2
  have w6 := stored.weight 6 2
  have w7 := stored.weight 7 2
  refine running.loaded.goes_block 60 product ⟨_, rfl⟩ here ?_
  intro regs flags known
  simp at bias w0 w1 w2 w3 w4 w5 w6 w7
  simp [rowKnown, xReg, featIndices] at known
  have total : r.acc x corr = r.acc x corr := rfl
  nth_rewrite 2 [QRow.acc] at total
  simp [featIndices] at total
  by_cases sign : (r.acc x corr).msb
  · simp [product, rowKnown, xReg, featIndices, running.size, target, known, bias, w0, w1, w2, w3,
      w4, w5, w6, w7, ← total, sign]
  · simp [product, rowKnown, xReg, featIndices, running.size, target, known, bias, w0, w1, w2, w3,
      w4, w5, w6, w7, ← total, sign]

variable {h v : Word}

theorem negative_goes (running : Running m p)
    (here : At 87 ((1, v) :: rowKnown x corr row count z) mem edges log s) :
    Goes (jobStep p pkt) 1 s (At 88 ((1, 0) :: rowKnown x corr row count z) mem edges log) := by
  refine running.loaded.goes_block 87 negative ⟨_, rfl⟩ here ?_
  intro regs flags known
  simp [rowKnown, xReg, featIndices] at known
  simp [negative, rowKnown, xReg, featIndices, known]

theorem shamt_byte (b : Byte) : shamt (b.setWidth 32) = (b &&& 31).toNat := by
  have every : ∀ b : Byte, shamt (b.setWidth 32) = (b &&& 31).toNat := by decide
  exact every b

theorem requantise_goes (running : Running m p) (stored : RowAt p r row)
    (here : At 88 ((1, v) :: rowKnown x corr row count z) mem edges log s) :
    Goes (jobStep p pkt) 4 s (At (if v >>> (r.sh &&& 31).toNat < 255 then 93 else 92)
        ((1, v >>> (r.sh &&& 31).toNat) :: rowKnown x corr row count z) mem edges log) := by
  have target : labels source .hok = some 93 := rfl
  have shift := stored.sh 0
  rw [← shamt_byte]
  refine running.loaded.goes_block 88 requantise ⟨_, rfl⟩ here ?_
  intro regs flags known
  simp at shift
  simp [rowKnown, xReg, featIndices] at known
  by_cases low : v >>> shamt (r.sh.setWidth 32) < 255
  · have borrow : subBorrow (v >>> shamt (r.sh.setWidth 32)) 255 = true := decide_eq_true low
    simp at borrow low
    simp [requantise, rowKnown, xReg, featIndices, running.size, target, known, shift, low, borrow]
  · have borrow : subBorrow (v >>> shamt (r.sh.setWidth 32)) 255 = false := decide_eq_false low
    rw [if_neg low]
    simp at borrow
    simp [requantise, rowKnown, xReg, featIndices, running.size, target, known, shift, borrow]

theorem saturate_goes (running : Running m p)
    (here : At 92 ((1, v) :: rowKnown x corr row count z) mem edges log s) :
    Goes (jobStep p pkt) 1 s (At 93 ((1, 255) :: rowKnown x corr row count z) mem edges log) := by
  refine running.loaded.goes_block 92 saturate ⟨_, rfl⟩ here ?_
  intro regs flags known
  simp [rowKnown, xReg, featIndices] at known
  simp [saturate, rowKnown, xReg, featIndices, known]

theorem accumulate_last (running : Running m p) (stored : RowAt p r row) (last : count = 1)
    (here : At 93 ((1, h) :: rowKnown x corr row count z) mem edges log s) :
    Goes (jobStep p pkt) 8 s
      (At 101 (rowKnown x corr (row + 16) 0 (z + r.w2.signExtend 32 * h)) mem edges log) := by
  have target : labels source .row = some 60 := rfl
  have weight := stored.w2 2
  have high : shamt 24#32 = 24 := rfl
  subst last
  refine running.loaded.goes_block 93 accumulate ⟨_, rfl⟩ here ?_
  intro regs flags known
  simp at weight
  simp [rowKnown, xReg, featIndices] at known
  simp [accumulate, rowKnown, xReg, featIndices, running.size, target, known, weight, high,
    sshiftRight_byte]

theorem accumulate_again (running : Running m p) (stored : RowAt p r row)
    (more : count + 0xFFFFFFFF ≠ 0) (bounded : edges + 1 ≤ 16)
    (here : At 93 ((1, h) :: rowKnown x corr row count z) mem edges log s) :
    Goes (jobStep p pkt) 8 s
      (At 60 (rowKnown x corr (row + 16) (count + 0xFFFFFFFF) (z + r.w2.signExtend 32 * h)) mem
        (edges + 1) log) := by
  have target : labels source .row = some 60 := rfl
  have weight := stored.w2 2
  have high : shamt 24#32 = 24 := rfl
  have tick : STAGE_TICK ≠ STAGE_XDP := by decide
  refine running.loaded.goes_block 93 accumulate ⟨_, rfl⟩ here ?_
  intro regs flags known
  simp at weight more bounded
  simp [rowKnown, xReg, featIndices] at known
  simp [accumulate, rowKnown, xReg, featIndices, running.size, running.loopBound, running.tick, tick,
    target, known, weight, high, sshiftRight_byte, more, bounded]

theorem relu_eq (v : Word) : relu v = if v.msb then 0 else v := by
  rw [relu, ← sign_bit]
  simp only [decide_eq_true_eq]

variable (running : Running m p) (stored : RowAt p r row)
  (here : At 60 (rowKnown x corr row count z) mem edges log s)
include running stored here

theorem relu_goes : Goes (jobStep p pkt) 28 s
      (At 88 ((1, relu (r.acc x corr)) :: rowKnown x corr row count z) mem edges log) := by
  refine (product_goes running stored here).trans (b := 1) ?_
  intro t there
  rw [relu_eq]
  by_cases sign : (r.acc x corr).msb
  · rw [if_pos sign] at there ⊢
    exact negative_goes running there
  · rw [if_neg sign] at there ⊢
    exact .here there

theorem activation_goes : Goes (jobStep p pkt) 33 s
      (At 93 ((1, r.activation x corr) :: rowKnown x corr row count z) mem edges log) := by
  have value : r.activation x corr = minByte (relu (r.acc x corr) >>> (r.sh &&& 31).toNat) := rfl
  refine ((relu_goes running stored here).trans fun t there =>
    requantise_goes running stored there).trans (b := 1) ?_
  intro t there
  rw [value, minByte]
  by_cases low : relu (r.acc x corr) >>> (r.sh &&& 31).toNat < 255
  · rw [if_pos low] at there ⊢
    exact .here there
  · rw [if_neg low] at there ⊢
    exact saturate_goes running there

end Row

/-! ## All rows -/

variable {j : Nat}

theorem row_stored (running : Running m p) (sixteen : m.rows.length = 16) {r : QRow}
    (get : m.rows[j]? = some r) : RowAt p r (ofNat 32 (0x1014 + 16 * j)) := by
  obtain ⟨inside, -⟩ := List.getElem?_eq_some_iff.mp get
  have holds : Holds m.blob (20 + 16 * j) r.bytes := holds_row get
  have base : 0x1014 + 16 * j = 0x1000 + (20 + 16 * j) := by omega
  have byte (k : Nat) (small : k < 16) (d : Reg) (s : Progress) :
      execLoadByte p d (ofNat 32 (0x1014 + 16 * j) + ofNat 32 k) s =
        some (s.write d ((m.blob.getD (20 + 16 * j + k) 0).setWidth 32) s.job.flags) := by
    have read := running.byte (20 + 16 * j + k) (by omega) d s
    rwa [← Nat.add_assoc 0x1000, ← base, ofNat_add] at read
  constructor
  · intro d s
    have read := running.word (20 + 16 * j) (by omega) (by omega) d s
    rw [base, read, row_bias holds]
  · intro k d s
    have offset : k.setWidth 32 + 4 = ofNat 32 (4 + k.toNat) := by
      rw [ofNat_add, ofNat_toNat, BitVec.add_comm]
      rfl
    rw [offset, byte (4 + k.toNat) (by have := k.isLt; omega), ← Nat.add_assoc, row_weight holds]
  · intro d s
    rw [← row_w2 holds]
    exact byte 12 (by decide) d s
  · intro d s
    rw [← row_sh holds]
    exact byte 13 (by decide) d s

theorem layer_take_succ {x : Features} {corr : Word} {rows : List QRow} {r : QRow}
    (get : rows[j]? = some r) : layer x corr (rows.take (j + 1)) =
      layer x corr (rows.take j) + r.w2.signExtend 32 * r.activation x corr := by
  rw [layer, take_add_one, get, foldl_append]
  rfl

/-- Before row `j`, or after the last row. -/
def RowsDone (m : QModel) (x : Features) (corr : Word) (mem : BitVec 6 → Word) (log : Log)
    (j : Nat) : Progress → Prop :=
  At (if j < 16 then 60 else 101)
    (rowKnown x corr (ofNat 32 (0x1014 + 16 * j)) (ofNat 32 (16 - j))
      (layer x corr (m.rows.take j))) mem (ofNat 32 (min j 15)) log

theorem row_goes (running : Running m p) (sixteen : m.rows.length = 16) {x : Features} {corr : Word}
    (small : j < 16) (here : RowsDone m x corr mem log j s) :
    Goes (jobStep p pkt) 41 s (RowsDone m x corr mem log (j + 1)) := by
  have get : m.rows[j]? = some (m.rows.get ⟨j, by omega⟩) := List.getElem?_eq_getElem _
  have stored := row_stored running sixteen get
  have next : ofNat 32 (0x1014 + 16 * j) + 16 = ofNat 32 (0x1014 + 16 * (j + 1)) := by
    rw [Nat.mul_succ, ← Nat.add_assoc]
    exact (ofNat_add _ 16).symm
  unfold RowsDone at here ⊢
  rw [if_pos small] at here
  refine (activation_goes running stored here).trans (b := 8) ?_
  intro t there
  rw [layer_take_succ get, ← next]
  by_cases last : j = 15
  · subst last
    exact accumulate_last running stored rfl there
  · have again : j + 1 < 16 := by omega
    have count : ofNat 32 (16 - j) + 0xFFFFFFFF = ofNat 32 (16 - (j + 1)) := by
      interval_cases j <;> rfl
    have more : ofNat 32 (16 - (j + 1)) ≠ 0 := by
      interval_cases j <;> first | decide | omega
    have edges : ofNat 32 (min j 15) + 1 = ofNat 32 (min (j + 1) 15) := by
      rw [Nat.min_eq_left (by omega), Nat.min_eq_left (by omega)]
      exact (ofNat_add j 1).symm
    have bounded : ofNat 32 (min (j + 1) 15) ≤ 16 := by
      interval_cases j <;> decide
    rw [if_pos again, ← count, ← edges]
    rw [← count] at more
    rw [← edges] at bounded
    exact accumulate_again running stored more bounded there

/-! ## The score -/

section Score

variable {edges v idx lut : Word}

/-- The score table at `lut`, behind the fields of the header. -/
structure TableAt (p : Cartridge) (m : QModel) (lut : Word) : Prop where
  b2 : ∀ d s, execLoad p d (lut + (-260 : Half).signExtend 32) s = some (s.write d m.b2 s.job.flags)
  so : ∀ d s, execLoadByte p d (lut + (-264 : Half).signExtend 32) s =
    some (s.write d (m.so.setWidth 32) s.job.flags)
  modelId : ∀ d s, execLoad p d (lut + (-268 : Half).signExtend 32) s =
    some (s.write d m.modelId s.job.flags)
  entry : ∀ idx : Word, idx ≤ 255 → ∀ d s, execLoadByte p d (idx + lut) s =
    some (s.write d ((m.lut (idx.setWidth 8)).setWidth 32) s.job.flags)

theorem table_stored (running : Running m p) (sixteen : m.rows.length = 16) :
    TableAt p m 0x1114 := by
  have b2 : (0x1114 : Word) + (-260 : Half).signExtend 32 =
      ofNat 32 (0x1000 + Layout.B2) := by decide
  have so : (0x1114 : Word) + (-264 : Half).signExtend 32 =
      ofNat 32 (0x1000 + Layout.SO) := by decide
  have modelId : (0x1114 : Word) + (-268 : Half).signExtend 32 =
      ofNat 32 (0x1000 + Layout.MODEL_ID) := by decide
  constructor
  · intro d s
    rw [b2, running.word Layout.B2 (by decide) (by decide), blob_b2]
  · intro d s
    rw [so, running.byte Layout.SO (by decide), blob_so]
  · intro d s
    rw [modelId, running.word Layout.MODEL_ID (by decide) (by decide), blob_modelId]
  · intro idx small d s
    have low : idx.toNat ≤ 255 := small
    have address : idx + 0x1114 =
        ofNat 32 (0x1000 + (Layout.LUT + (idx.setWidth 8).toNat)) := by
      apply eq_of_toNat_eq
      have table : Layout.LUT = 0x114 := rfl
      have base : (0x1114 : Word).toNat = 0x1114 := rfl
      rw [toNat_ofNat, toNat_setWidth, toNat_add, table, base]
      omega
    have inside : Layout.LUT + (idx.setWidth 8).toNat < 532 :=
      Nat.lt_of_lt_of_le (Nat.add_lt_add_left (idx.setWidth 8).isLt _) (by decide)
    rw [address, running.byte _ inside, blob_lut sixteen]

def QModel.position (m : QModel) (out : Word) : Word :=
  (out + m.b2).sshiftRight (m.so &&& 31).toNat + 128

variable {x : Features} {corr count z : Word} {regs : Reg → Word}

section

variable (running : Running m p)
include running

theorem output_line {biasOffset shiftOffset : Half} {flags : Byte}
    (bias : ∀ s, execLoad p 1 (lut + biasOffset.signExtend 32) s = some (s.write 1 m.b2 s.job.flags))
    (shift : ∀ s, execLoadByte p 0 (lut + shiftOffset.signExtend 32) s =
      some (s.write 0 (m.so.setWidth 32) s.job.flags))
    (known : ∀ y ∈ rowKnown x corr lut count z, regs y.1 = y.2) :
    ∃ s', line p pkt (labels source) 101
        [LD 1 3 biasOffset, ADD 13 1, LDB 0 3 shiftOffset, SARR 13 0, ADDI 13 128, JP .lo]
        ⟨⟨regs, mem, 101, flags, edges⟩, log⟩ = some s' ∧
      At (if (m.position z).msb then 107 else 108)
        [(3, lut), (13, m.position z), (15, 255)] mem edges log s' := by
  have target : labels source .lo = some 108 := rfl
  have value : m.position z = (z + m.b2).sshiftRight (shamt (m.so.setWidth 32)) + 128 := by
    rw [shamt_byte]
    rfl
  simp at bias shift value
  simp [rowKnown, xReg, featIndices] at known
  by_cases sign : (m.position z).msb
  · simp [running.size, target, known, bias, shift, ← value, sign]
  · simp [running.size, target, known, bias, shift, ← value, sign]

theorem output_goes (stored : TableAt p m lut)
    (here : At 101 (rowKnown x corr lut count z) mem edges log s) :
    Goes (jobStep p pkt) 6 s (At (if (m.position z).msb then 107 else 108)
        [(3, lut), (13, m.position z), (15, 255)] mem edges log) := by
  refine running.loaded.goes_block 101 output ⟨_, rfl⟩ here ?_
  intro regs flags known
  exact output_line running (stored.b2 1) (stored.so 0) known

theorem below_goes (here : At 107 [(3, lut), (13, v), (15, 255)] mem edges log s) :
    Goes (jobStep p pkt) 1 s (At 108 [(3, lut), (13, 0), (15, 255)] mem edges log) := by
  refine running.loaded.goes_block 107 below ⟨_, rfl⟩ here ?_
  intro regs flags known
  simp at known
  simp [below, known]

theorem bound_goes (here : At 108 [(3, lut), (13, v), (15, 255)] mem edges log s) :
    Goes (jobStep p pkt) 2 s
      (At (if v < 255 then 111 else 110) [(3, lut), (13, v), (15, 255)] mem edges log) := by
  have target : labels source .hi = some 111 := rfl
  refine running.loaded.goes_block 108 bound ⟨_, rfl⟩ here ?_
  intro regs flags known
  simp at known
  by_cases low : v < 255
  · have borrow : subBorrow v 255 = true := decide_eq_true low
    simp at borrow low
    simp [bound, running.size, target, known, low, borrow]
  · have borrow : subBorrow v 255 = false := decide_eq_false low
    rw [if_neg low]
    simp at borrow
    simp [bound, running.size, target, known, borrow]

theorem above_goes (here : At 110 [(3, lut), (13, v), (15, 255)] mem edges log s) :
    Goes (jobStep p pkt) 1 s (At 111 [(3, lut), (13, 255), (15, 255)] mem edges log) := by
  refine running.loaded.goes_block 110 above ⟨_, rfl⟩ here ?_
  intro regs flags known
  simp at known
  simp [above, known]

theorem lookup_goes (stored : TableAt p m lut) (small : idx ≤ 255)
    (here : At 111 [(3, lut), (13, idx), (15, 255)] mem edges log s) : Goes (jobStep p pkt) 2 s
      (At 113 [(3, lut), (2, (m.lut (idx.setWidth 8)).setWidth 32)] mem edges log) := by
  have entry := stored.entry idx small 2
  refine running.loaded.goes_block 111 lookup ⟨_, rfl⟩ here ?_
  intro regs flags known
  simp at known entry
  simp [lookup, known, entry]

end

theorem report_line {offset : Half} {flags : Byte}
    (modelId : ∀ s, execLoad p 3 (lut + offset.signExtend 32) s = some (s.write 3 m.modelId s.job.flags))
    (known : ∀ y ∈ [((3 : Reg), lut), (2, v)], regs y.1 = y.2) :
    ∃ s', line p pkt (labels source) 113 [LD 3 3 offset, MOVI 1 0x41, SYSCALL 3]
        ⟨⟨regs, mem, 113, flags, edges⟩, log⟩ = some s' ∧
      At 116 [] mem edges ⟨log.emits ++ [(SCORE_KIND, v, m.modelId)], log.queued⟩ s' := by
  simp at known modelId
  simp [SCORE_KIND, known, modelId]

theorem report_goes (running : Running m p) (stored : TableAt p m lut)
    (here : At 113 [(3, lut), (2, v)] mem edges log s) : Goes (jobStep p pkt) 3 s
      (At 116 [] mem edges ⟨log.emits ++ [(SCORE_KIND, v, m.modelId)], log.queued⟩) := by
  refine running.loaded.goes_block 113 report ⟨_, rfl⟩ here ?_
  intro regs flags known
  exact report_line (stored.modelId 3) known

theorem index_eq (m : QModel) (z : Word) : m.index z = if relu (m.position z) < 255 then
    relu (m.position z) else 255 := by
  change (if 255 ≤ relu (m.position z) then 255 else relu (m.position z)) = _
  by_cases low : relu (m.position z) < 255
  · rw [if_pos low, if_neg (BitVec.not_le.mpr low)]
  · rw [if_neg low, if_pos (BitVec.not_lt.mp low)]

theorem index_le (m : QModel) (z : Word) : m.index z ≤ 255 := by
  rw [index_eq]
  split
  next low => exact BitVec.le_of_lt low
  next => exact BitVec.le_refl _

theorem clamp_goes (running : Running m p) (stored : TableAt p m lut)
    (here : At 101 (rowKnown x corr lut count z) mem edges log s) :
    Goes (jobStep p pkt) 10 s (At 111 [(3, lut), (13, m.index z), (15, 255)] mem edges log) := by
  have low : Goes (jobStep p pkt) 7 s
      (At 108 [(3, lut), (13, relu (m.position z)), (15, 255)] mem edges log) := by
    refine (output_goes running stored here).trans (b := 1) ?_
    intro t there
    rw [relu_eq]
    by_cases sign : (m.position z).msb
    · rw [if_pos sign] at there ⊢
      exact below_goes running there
    · rw [if_neg sign] at there ⊢
      exact .here there
  refine (low.trans fun t there => bound_goes running there).trans (b := 1) ?_
  intro t there
  rw [index_eq]
  by_cases small : relu (m.position z) < 255
  · rw [if_pos small] at there ⊢
    exact .here there
  · rw [if_neg small] at there ⊢
    exact above_goes running there

end Score

/-! ## The job -/

/-- The job halted after one event. -/
structure Scored (m : QModel) (feat : Features) (r : Step × Progress) : Prop where
  result : r.1 = .halt
  log : r.2.log = ⟨[(SCORE_KIND, m.score feat, m.modelId)], []⟩
  edges : r.2.job.backEdges = 15

theorem job_ends (running : Running m p) (sixteen : m.rows.length = 16)
    (window : ∀ i : BitVec 3, mem (i.setWidth 6) = feat i)
    (here : At 0 [(3, 0), (13, 0), (14, 0)] mem 0 Log.empty s) :
    Ends (jobStep p pkt) 732 s (Scored m feat) := by
  have rows : Goes (jobStep p pkt) 716 s
      (RowsDone m (inputs feat) (sumX (inputs feat) <<< 7) mem Log.empty 16) := by
    refine (prologue_goes running window here).trans (b := 656) ?_
    intro t there
    exact Goes.loop 16 (fun j small u at_j => row_goes running sixteen small at_j) there
  have all := take_of_length_le (Nat.le_of_eq sixteen)
  have reported : Goes (jobStep p pkt) 731 s
      (At 116 [] mem 15 ⟨[(SCORE_KIND, m.score feat, m.modelId)], []⟩) := by
    refine rows.trans (b := 15) ?_
    intro t there
    unfold RowsDone at there
    rw [all] at there
    have stored := table_stored running sixteen
    exact ((clamp_goes running stored there).trans fun u next =>
      lookup_goes running stored (index_le m _) next).trans fun u next =>
        report_goes running stored next
  refine Ends.after_goes (b := 1) reported ?_
  · intro t there
    obtain ⟨pc, -, -, edges, log⟩ := there
    apply running.loaded.halt_ends
    · rw [pc]
      rfl
    · exact ⟨rfl, log, edges⟩

end Blocks

theorem running_of_built {m : QModel} {img : Image} {budget : Half}
    (built : Built STAGE_TICK source (words m.blob 0 133) budget 16 img) :
    Running m img.cartridge := by
  refine ⟨built.loaded, built.stage, built.loopBound, ?_⟩
  have data := built.data
  constructor
  · decide
  · change (ofNat 16 img.data.length).toNat = 133
    rw [data, length_words]
    rfl
  · intro i
    change img.data[i.toNat]? = _
    rw [data]

set_option maxRecDepth 4000 in
theorem builds {data : List Word} (small : data.length ≤ 1024) :
    ∃ img, buildImage STAGE_TICK source data none 16 = .ok img := by
  obtain ⟨rom, assembled, size, accepted⟩ : ∃ rom, assemble source = .ok rom ∧ rom.length = 117 ∧
      ∀ data, ∃ report, validate ⟨STAGE_TICK, insnCap STAGE_TICK, 0, 16, 0, rom, data⟩ =
        .ok report :=
    ⟨_, rfl, rfl, fun data => ⟨_, rfl⟩⟩
  obtain ⟨report, accepted⟩ := accepted data
  refine ⟨⟨STAGE_TICK, insnCap STAGE_TICK, 0, 16, 0, rom, data⟩, ?_⟩
  have sizes : ¬ (rom.length = 0 ∨ ROM_WORDS_MAX.toNat < rom.length ∨
      DATA_WORDS_MAX.toNat < data.length) := by
    have rom : ROM_WORDS_MAX.toNat = 1024 := rfl
    have data : DATA_WORDS_MAX.toNat = 1024 := rfl
    omega
  rw [buildImage, assembled]
  dsimp only
  rw [if_neg sizes]
  rw [Option.getD_none, accepted]

end Scorer

/-- Cut into calls of any budget, the scorer emits the score of the model it was
built with, and halts. -/
theorem scorer_computes_score (m : Scorer.QModel) (sixteen : m.rows.length = 16) :
    ∃ data img, m.toData = some data ∧ buildImage STAGE_TICK Scorer.source data none 16 = .ok img ∧
      ∀ (feat : Features) (nowNs : BitVec 64) (budget : Half), 1 ≤ budget.toNat →
        ∃ needed, ∀ maxCalls, needed ≤ maxCalls →
          (runTickJob { img with maxInsn := budget } feat nowNs maxCalls).2.flatMap Outcome.emits =
              [(Scorer.SCORE_KIND, m.score feat, m.modelId)] ∧
            (runTickJob { img with maxInsn := budget } feat nowNs maxCalls).2.flatMap
              Outcome.queued = [] ∧
            (runTickJob { img with maxInsn := budget } feat nowNs maxCalls).2.getLast?.bind
              Outcome.step = some .halt ∧
            (∀ o ∈ (runTickJob { img with maxInsn := budget } feat nowNs maxCalls).2.dropLast,
              o.step = some .yield) ∧
            (runTickJob { img with maxInsn := budget } feat nowNs maxCalls).1.backEdges.toNat ≤
              16 := by
  have size : (words m.blob 0 133).length ≤ 1024 := by
    rw [length_words]
    decide
  obtain ⟨img, ok⟩ := Scorer.builds size
  refine ⟨_, img, Scorer.toData_eq sixteen, ok, ?_⟩
  intro feat nowNs budget positive
  have built := built_of_ok ok
  have budgeted : Built STAGE_TICK Scorer.source (words m.blob 0 133) budget 16
      { img with maxInsn := budget } :=
    ⟨built.stage, rfl, built.entry, built.loopBound, built.data,
      ⟨built.loaded.size, built.loaded.small, built.loaded.fetch⟩⟩
  have here : At 0 [(3, 0), (13, 0), (14, 0)] (beginTickJob img CartState.zeroed feat).mem 0
      Log.empty ⟨(beginTickJob { img with maxInsn := budget } CartState.zeroed feat).job,
        Log.empty⟩ := by
    constructor
    · exact built.entry
    · simp [beginTickJob, beginJob, beginRun, CartState.job]
    · rfl
    · rfl
    · rfl
  have window : ∀ i : BitVec 3,
      (beginTickJob img CartState.zeroed feat).mem (i.setWidth 6) = feat i := by
    intro i
    have first : i.setWidth 6 < 8 := by
      rw [lt_def, toNat_setWidth]
      exact Nat.lt_of_le_of_lt (Nat.mod_le _ _) i.isLt
    have same : (i.setWidth 6).setWidth 3 = i := by
      rw [setWidth_setWidth_of_le _ (by decide), setWidth_eq]
    change (if i.setWidth 6 < 8 then feat ((i.setWidth 6).setWidth 3) else 0) = feat i
    rw [if_pos first, same]
  obtain ⟨⟨result, final⟩, ends, scored⟩ :=
    Scorer.job_ends (Scorer.running_of_built budgeted) sixteen window here
  obtain ⟨needed, complete⟩ : ∃ needed, ∀ maxCalls, needed ≤ maxCalls →
      Completed Log.empty result final (runTickJob { img with maxInsn := budget } feat nowNs maxCalls) :=
    tickCalls_complete budgeted.stage positive ends
  refine ⟨needed, ?_⟩
  intro maxCalls enough
  obtain ⟨job, log, last, yields⟩ := complete maxCalls enough
  obtain ⟨halted, events, edges⟩ := scored
  rw [Log.empty_append, events] at log
  refine ⟨congrArg Log.emits log, congrArg Log.queued log, ?_, yields, ?_⟩
  · rw [← halted]
    exact last
  · have count : (runTickJob { img with maxInsn := budget } feat nowNs maxCalls).1.backEdges = 15 :=
      (congrArg Job.backEdges job).trans edges
    rw [count]
    decide

def flatModel : Scorer.QModel where
  rows := replicate 16 ⟨0, fun _ => 1, 1, 0⟩
  b2 := 0
  so := 0
  lut i := i
  modelId := 7

theorem scorer_scores_flat : ∃ data img needed, flatModel.toData = some data ∧
      buildImage STAGE_TICK Scorer.source data none 16 = .ok img ∧
      (runTickJob { img with maxInsn := 1 } (fun _ => 0) 0 needed).2.flatMap Outcome.emits =
        [(0x41, 128, 7)] := by
  obtain ⟨data, img, stored, built, scores⟩ := scorer_computes_score flatModel rfl
  obtain ⟨needed, run⟩ := scores (fun _ => 0) 0 1 (by decide)
  refine ⟨data, img, needed, stored, built, ?_⟩
  have score : flatModel.score (fun _ => 0) = 128 := by decide
  rw [(run needed (Nat.le_refl needed)).1, score]
  rfl

end Unheaded.Cart
