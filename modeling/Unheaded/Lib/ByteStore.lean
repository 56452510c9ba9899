import Unheaded.Lib.Bytes
import Unheaded.Lib.Store

/-!
# Bytes of a word store

A store of 32-bit words read and written by byte address, least significant byte first.
-/

namespace Unheaded.Lib

namespace Store

variable (s : Store (BitVec 32))

def byteAt (a : Nat) : BitVec 8 := byteOf (s.getD (a / 4) 0) (a % 4)

def putByteAt (a : Nat) (v : BitVec 8) : Store (BitVec 32) :=
  s.set (a / 4) (insertField (s.getD (a / 4) 0) 0xFF (v.setWidth 32) (a % 4 * 8))

@[simp] theorem len_putByteAt (a : Nat) (v : BitVec 8) : (s.putByteAt a v).len = s.len :=
  len_set s _ _

theorem byteAt_set_of_ne {i a : Nat} (other : a / 4 ≠ i) (v : BitVec 32) :
    (s.set i v).byteAt a = s.byteAt a := by
  rw [byteAt, byteAt, getD_set_of_ne s other]

theorem byteAt_putByteAt_self {a : Nat} (inside : a / 4 < s.len) (v : BitVec 8) :
    (s.putByteAt a v).byteAt a = v := by
  have low : a % 4 < 4 := Nat.mod_lt a (by decide)
  rw [byteAt, putByteAt, getD_set_self s inside, byteOf_insertByte _ _ _ low, if_pos rfl]

theorem byteAt_putByteAt_of_ne {a b : Nat} (other : b ≠ a) (v : BitVec 8) :
    (s.putByteAt a v).byteAt b = s.byteAt b := by
  by_cases word : b / 4 = a / 4
  · -- the same word: another byte of it
    have offset : ¬ b % 4 = a % 4 := by omega
    by_cases inside : a / 4 < s.len
    · rw [byteAt, byteAt, putByteAt, word, getD_set_self s inside,
        byteOf_insertByte _ _ _ (Nat.mod_lt b (by decide)),
        if_neg offset]
    · rw [putByteAt, set_of_not_lt s inside]
  · exact byteAt_set_of_ne s word _

/-- Copy `n` bytes upwards, one at a time. -/
def copyBytesAt (s : Store (BitVec 32)) (src dst : Nat) : Nat → Store (BitVec 32)
  | 0 => s
  | n + 1 =>
    let t := copyBytesAt s src dst n
    t.putByteAt (dst + n) (t.byteAt (src + n))

@[simp] theorem len_copyBytesAt (src dst n : Nat) : (s.copyBytesAt src dst n).len = s.len := by
  induction n with
  | zero => rfl
  | succ n ih => rw [copyBytesAt, len_putByteAt, ih]

theorem byteAt_copyBytesAt_of_outside {src dst n a : Nat} (outside : a < dst ∨ dst + n ≤ a) :
    (s.copyBytesAt src dst n).byteAt a = s.byteAt a := by
  induction n with
  | zero => rfl
  | succ n ih =>
    rw [copyBytesAt, byteAt_putByteAt_of_ne _ (by omega), ih (by omega)]

theorem byteAt_copyBytesAt {src dst n k : Nat} (apart : src + n ≤ dst ∨ dst + n ≤ src)
    (inside : (dst + k) / 4 < s.len) (copied : k < n) :
    (s.copyBytesAt src dst n).byteAt (dst + k) = s.byteAt (src + k) := by
  induction n with
  | zero => omega
  | succ n ih =>
    rw [copyBytesAt]
    by_cases last : k = n
    · subst last
      rw [byteAt_putByteAt_self _ (by rwa [len_copyBytesAt]),
        byteAt_copyBytesAt_of_outside s (by omega)]
    · rw [byteAt_putByteAt_of_ne _ (by omega), ih (by omega) (by omega)]

end Store

end Unheaded.Lib
