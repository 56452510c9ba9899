import Unheaded.Cart.Lockstep
import Unheaded.Cart.Safety
import Unheaded.Mbc.HostCore

/-!
# The cartridge VM follows the core machine

`Mirrors` relates a cartridge state to the core machine over flat RAM: the flow window at byte 0
and the DATA words at `DATA_BASE`.
-/

namespace Unheaded.Cart

open Lib Mbc BitVec Function MbcInsn Cartridge Data

/-- The core machine `k` holds the cartridge state in its flat RAM. -/
structure Mirrors (img : Image) (st : CartState) (k : Core) : Prop where
  regs : k.data.regs = st.regs
  flags : k.data.flags = st.flags
  known : st.flags &&& 0x07 = st.flags
  pc : k.pc = st.pc.setWidth 32
  room : 0x800 ≤ k.data.ram.len
  window : ∀ i : BitVec 6, k.data.ram.cell i.toNat = st.mem i
  words : ∀ j v, img.data[j]? = some v → k.data.ram.cell (0x400 + j) = v

theorem setFlags_eq (st : CartState) (result : Word) (carry : Bool) :
    st.setFlags result carry = { st with flags := resultFlags result carry } := by
  rw [CartState.setFlags, sign_bit]
  rfl

theorem resultFlags_known (result : Word) (carry : Bool) :
    resultFlags result carry &&& 0x07 = resultFlags result carry :=
  Flag.pack_and_seven _ _ _

namespace Cartridge

variable {ι : Type} [CartIo ι] {p : Cartridge}

variable {st : CartState}

theorem execute_alu {io : ι} {pc w : Word} {o : Opcode} {v : Word} {f : Byte}
    (op : opcode? w = some o) (listed : o ∈ ALLOWED_OPCODES)
    (result : alu o (st.regs (dst w)) (st.regs (src w)) (imm16 w) st.flags = some (v, f)) :
    p.execute st io pc w = ⟨.cont, { st.setReg (dst w) v with flags := f }, io⟩ := by
  rw [execute, op]
  cases o with
  | nop =>
    cases result
    simp [CartState.setReg]
  | cmp =>
    cases result
    simp [CartState.setReg, setFlags_eq]
  | mov | movi | loadImm32 =>
    cases result
    rfl
  | add | sub | mul | and | or | xor | not | shl | shr | sar | shlr | shrr | sarr | mulh =>
    cases result
    dsimp only
    rw [CartState.setResult, setFlags_eq]
  | addi =>
    cases result
    dsimp only
    rw [CartState.setResult, setFlags_eq]
    rfl
  | div | mod | neg | mulhu | fence => exact absurd listed (by decide)
  | _ => cases result

theorem execute_branch {io : ι} {pc w : Word} {o : Opcode} {taken : Bool}
    (op : opcode? w = some o) (branch : branchTaken o st.flags = some taken) :
    p.execute st io pc w = p.branchIf st io pc w taken := by
  rw [execute, op]
  cases o <;> cases branch <;> rfl

end Cartridge

variable {addr v : Word}

theorem alu_known {o : Opcode} {a b : Word} {imm : Half} {flags : Byte} {f : Byte}
    (known : flags &&& 0x07 = flags) (result : alu o a b imm flags = some (v, f)) :
    f &&& 0x07 = f := by
  cases o with
  | div =>
    simp only [alu] at result
    split at result <;> cases result
    · rfl
    · exact resultFlags_known _ _
  | mod =>
    simp only [alu] at result
    split at result <;> cases result
    · exact known
    · exact resultFlags_known _ _
  | nop | fence | mov | movi | loadImm32 =>
    cases result
    exact known
  | add | sub | mul | neg | and | or | xor | not | shl | shr | sar | shlr | shrr | sarr | mulh
  | mulhu | addi | cmp =>
    cases result
    exact resultFlags_known _ _
  | _ => cases result

theorem plain_of_lt {a : Nat} (small : a < 0x2000) : PlainWord (a >>> 2) := by
  have bound : a >>> 2 < 0x800 := by
    omega
  generalize a >>> 2 = n at bound
  constructor
  · intro same
    rw [same] at bound
    revert bound
    decide
  · rintro ⟨low, -⟩
    have first : screenWordStart = 0x1C000 := rfl
    omega

theorem memIndex_toNat (small : addr < 0x100) : (memIndex addr).toNat = addr.toNat >>> 2 := by
  have bound : addr.toNat < 0x100 := small
  rw [memIndex, toNat_setWidth, toNat_ushiftRight]
  omega

theorem Mirrors.loadWord {img : Image} {st : CartState} {k : Core} (mirrors : Mirrors img st k)
    (small : img.data.length ≤ 1024) (loaded : img.cartridge.loadWord st addr = some v) :
    addr.toNat < 0x2000 ∧ k.data.word addr.toNat = v := by
  have room := mirrors.room
  unfold Cartridge.loadWord at loaded
  split at loaded
  next low =>
    cases loaded
    have bound : addr.toNat < 0x100 := low
    have inside : addr.toNat >>> 2 < k.data.ram.len := by
      omega
    refine ⟨by omega, ?_⟩
    rw [word, Store.getD_of_lt _ inside, ← memIndex_toNat low]
    exact mirrors.window _
  next =>
    split at loaded
    next range =>
      obtain ⟨low, high⟩ := range
      have base : DATA_BASE.toNat = 0x1000 := rfl
      have four : (4 : Word).toNat = 4 := rfl
      have words : img.cartridge.cfg.dataWords.toNat = img.data.length := by
        change (BitVec.ofNat 16 img.data.length).toNat = _
        rw [toNat_ofNat]
        omega
      have above : DATA_BASE.toNat ≤ addr.toNat := low
      have offset : (addr - DATA_BASE).toNat = addr.toNat - 0x1000 := by
        rw [toNat_sub_of_le low, base]
      rw [lt_def, toNat_mul, toNat_setWidth, four] at high
      have index : addr.toNat >>> 2 = 0x400 + (addr.toNat - 0x1000) / 4 := by
        omega
      have inside : addr.toNat >>> 2 < k.data.ram.len := by omega
      refine ⟨by omega, ?_⟩
      rw [word, Store.getD_of_lt _ inside, index]
      apply mirrors.words
      change img.data[((addr - DATA_BASE) >>> 2).toNat]? = some v at loaded
      rwa [toNat_ushiftRight, offset, shiftRight_two] at loaded
    next => cases loaded

theorem byte_of_shift (w addr : Word) :
    (w >>> ((addr &&& 3) * 8).toNat) &&& 0xFF = (byteOf w (addr.toNat % 4)).setWidth 32 := by
  have amount : ((addr &&& 3) * 8).toNat = addr.toNat % 4 * 8 := by
    rw [toNat_mul, toNat_and_three]
    change addr.toNat % 4 * 8 % 2 ^ 32 = _
    omega
  rw [amount, shift_and_byte]

namespace Mirrors

variable {img : Image} {st : CartState} {k : Core}

theorem setReg (mirrors : Mirrors img st k) (d : Reg) (v : Word) {f : Byte}
    (known : f &&& 0x07 = f) :
    Mirrors img { st.setReg d v with flags := f }
      { k with data := { k.data.setReg d v with flags := f } } where
  regs := by
    change update k.data.regs d v = update st.regs d v
    rw [mirrors.regs]
  flags := rfl
  known := known
  pc := mirrors.pc
  room := mirrors.room
  window := mirrors.window
  words := mirrors.words

theorem setReg_only (mirrors : Mirrors img st k) (d : Reg) (v : Word) :
    Mirrors img (st.setReg d v) { k with data := k.data.setReg d v } := by
  have whole := mirrors.setReg d v mirrors.known
  have flags := mirrors.flags
  obtain ⟨⟨regs, f, ram⟩, pc⟩ := k
  cases flags
  exact whole

theorem store (mirrors : Mirrors img st k) {addr : Word} (small : addr < 0x100) (v : Word) :
    Mirrors img { st with mem := update st.mem (memIndex addr) v }
      { k with data := k.data.putWord addr.toNat v } := by
  have index := memIndex_toNat small
  have low : addr.toNat >>> 2 < 64 := by
    rw [← index]
    exact (memIndex addr).isLt
  have inside : addr.toNat >>> 2 < k.data.ram.len := Nat.lt_of_lt_of_le low
    (Nat.le_trans (by decide) mirrors.room)
  refine ⟨mirrors.regs, mirrors.flags, mirrors.known, mirrors.pc, ?_, ?_, ?_⟩
  · change 0x800 ≤ (k.data.ram.set _ _).len
    rw [Store.len_set]
    exact mirrors.room
  · intro i
    change (k.data.ram.set (addr.toNat >>> 2) v).cell i.toNat = _
    rw [← index, Store.cell_set _ (by rw [index]; exact inside)]
    by_cases same : i = memIndex addr
    · rw [same]
      simp
    · rw [if_neg (fun h => same (eq_of_toNat_eq h)), mirrors.window i]
      simp [same]
  · intro j w get
    change (k.data.ram.set (addr.toNat >>> 2) v).cell (0x400 + j) = w
    rw [Store.cell_set_of_ne _ (by omega)]
    exact mirrors.words j w get

section Words

variable {ι : Type} {io : ι} {pc w : Word} {o : Opcode}

theorem branchIf (mirrors : Mirrors img st k) (next : st.pc.setWidth 32 = pc + 1) {taken : Bool}
    (continues : (img.cartridge.branchIf st io pc w taken).result = .cont) :
    Mirrors img (img.cartridge.branchIf st io pc w taken).st
      { k with pc := if taken then k.pc + branchOffset w else k.pc } := by
  cases taken with
  | false => exact mirrors
  | true =>
    have here : k.pc + branchOffset w = pc + 1 + branchOffset w := by
      rw [mirrors.pc, next]
    rw [here]
    unfold Cartridge.branchIf Cartridge.branchTo at continues ⊢
    rw [if_pos rfl] at continues ⊢
    generalize pc + 1 + branchOffset w = target at continues
    dsimp only at continues ⊢
    split at continues
    next => cases continues
    next within =>
      have small : target = (target.setWidth 16 : Half).setWidth 32 := by
        rw [BitVec.not_le, lt_def, toNat_setWidth] at within
        exact (setWidth_half_of_le (by omega)).symm
      rw [if_neg within]
      split at continues
      next behind =>
        rw [if_pos behind]
        split at continues
        next => cases continues
        next left =>
          rw [if_neg left]
          exact { mirrors with pc := small }
      next ahead =>
        rw [if_neg ahead]
        exact { mirrors with pc := small }

variable {addr : Word}

theorem load (mirrors : Mirrors img st k) (dataMax : img.data.length ≤ 1024) {d : Reg}
    (continues : (img.cartridge.load st io d addr).result = .cont) :
    addr.toNat < 0x2000 ∧ Mirrors img (img.cartridge.load st io d addr).st
      { k with data := k.data.setReg d (k.data.word addr.toNat) } := by
  unfold Cartridge.load at continues ⊢
  cases loaded : img.cartridge.loadWord st addr with
  | none =>
    simp [loaded] at continues
  | some v =>
    rw [loaded] at continues
    obtain ⟨bound, word⟩ := mirrors.loadWord dataMax loaded
    refine ⟨bound, ?_⟩
    rw [word]
    dsimp only at continues ⊢
    split at continues
    next aligned =>
      rw [if_pos aligned]
      exact mirrors.setReg_only d v
    next => cases continues

theorem loadByte (mirrors : Mirrors img st k) (dataMax : img.data.length ≤ 1024) {d : Reg}
    (continues : (img.cartridge.loadByte st io d addr).result = .cont) :
    addr.toNat < 0x2000 ∧ Mirrors img (img.cartridge.loadByte st io d addr).st
      { k with data := k.data.setReg d ((k.data.byte addr.toNat).setWidth 32) } := by
  unfold Cartridge.loadByte at continues ⊢
  cases loaded : img.cartridge.loadWord st addr with
  | none =>
    simp [loaded] at continues
  | some v =>
    obtain ⟨bound, word⟩ := mirrors.loadWord dataMax loaded
    refine ⟨bound, ?_⟩
    rw [byte, word]
    dsimp only
    rw [byte_of_shift]
    exact mirrors.setReg_only d _

theorem storeWord (mirrors : Mirrors img st k) {v : Word}
    (continues : (Cartridge.store st io addr v).result = .cont) :
    addr.toNat < 0x2000 ∧ Mirrors img (Cartridge.store st io addr v).st
      { k with data := k.data.putWord addr.toNat v } := by
  unfold Cartridge.store at continues ⊢
  split at continues
  next inside =>
    rw [if_pos inside]
    have bound : addr.toNat < 0x100 := inside.1
    exact ⟨by omega, mirrors.store inside.1 v⟩
  next => cases continues

variable [CartIo ι]

/-- A continuing word that is no syscall is executed by the core machine. -/
theorem execute (mirrors : Mirrors img st k) (dataMax : img.data.length ≤ 1024)
    (op : opcode? w = some o) (listed : o ∈ ALLOWED_OPCODES)
    (next : st.pc.setWidth 32 = pc + 1) (straight : o ≠ .syscall)
    (continues : (img.cartridge.execute st io pc w).result = .cont) :
    ∃ k', k.exec w = some k' ∧ Mirrors img (img.cartridge.execute st io pc w).st k' := by
  have registers {v : Word} {f : Byte}
      (result : alu o (k.data.regs (dst w)) (k.data.regs (src w))
        (imm16 w) k.data.flags = some (v, f)) :
      ∃ k', k.exec w = some k' ∧ Mirrors img (img.cartridge.execute st io pc w).st k' := by
    refine ⟨_, Core.exec_straight (exec_alu op result), ?_⟩
    rw [mirrors.regs, mirrors.flags] at result
    rw [execute_alu op listed result]
    exact mirrors.setReg _ _ (alu_known mirrors.known result)
  have branches {taken : Bool} (branch : branchTaken o k.data.flags = some taken) :
      ∃ k', k.exec w = some k' ∧ Mirrors img (img.cartridge.execute st io pc w).st k' := by
    refine ⟨_, Core.exec_branch op branch, ?_⟩
    rw [mirrors.flags] at branch
    rw [execute_branch op branch] at continues ⊢
    exact mirrors.branchIf next continues
  have memory {addr : Word} {x : Data} (address : k.data.touched o w = some addr.toNat)
      (access : k.data.access o w addr.toNat = x)
      (after : addr.toNat < 0x2000 ∧
        Mirrors img (img.cartridge.execute st io pc w).st { k with data := x }) :
      ∃ k', k.exec w = some k' ∧ Mirrors img (img.cartridge.execute st io pc w).st k' := by
    obtain ⟨bound, mirrors'⟩ := after
    refine ⟨{ k with data := x }, ?_, mirrors'⟩
    rw [← access]
    exact Core.exec_straight (exec_access op address (plain_of_lt bound))
  cases o with
  | nop | add | sub | mul | and | or | xor | not | shl | shr | sar | shlr | shrr | sarr | mulh
  | mov | movi | loadImm32 | addi | cmp => exact registers rfl
  | jmp | jz | jnz | jn | jp | jc | jnc => exact branches rfl
  | ld =>
    have runs : img.cartridge.execute st io pc w = img.cartridge.load st io (dst w)
        (st.regs (src w) + imm16Signed w) := by
      rw [execute, op]
    refine memory (by rw [touched, mirrors.regs]) rfl ?_
    rw [runs] at continues ⊢
    exact mirrors.load dataMax continues
  | ldb =>
    have runs : img.cartridge.execute st io pc w = img.cartridge.loadByte st io (dst w)
        (st.regs (src w) + imm16Signed w) := by
      rw [execute, op]
    refine memory (by rw [touched, mirrors.regs]) rfl ?_
    rw [runs] at continues ⊢
    exact mirrors.loadByte dataMax continues
  | st =>
    have runs : img.cartridge.execute st io pc w = Cartridge.store st io
        (st.regs (dst w) + imm16Signed w) (st.regs (src w)) := by
      rw [Cartridge.execute, op]
    refine memory (by rw [touched, mirrors.regs]) (by rw [access, mirrors.regs]) ?_
    rw [runs] at continues ⊢
    exact mirrors.storeWord continues
  | syscall => exact absurd rfl straight
  | halt =>
    unfold execute at continues
    simp [op] at continues
  | _ => exact absurd listed (by decide)

end Words

end Mirrors

end Unheaded.Cart
