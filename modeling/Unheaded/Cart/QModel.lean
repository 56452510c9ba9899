import Unheaded.Cart.ImageCodec

/-!
# The quantised anomaly model

`QModel::score`, the integer reference of the scorer cartridge, and the DATA
blob in which the cartridge finds the same model.
-/

namespace Unheaded.Cart

open Lib Mbc List Option

namespace Scorer

def HIDDEN : Nat := 16
def SH_IN : List Byte := [6, 0, 0, 3, 3, 0, 8, 0]
def SCORE_KIND : Word := 0x41

/-- The indices `0..FEAT_WORDS`. -/
def featIndices : List (BitVec 3) := [0, 1, 2, 3, 4, 5, 6, 7]

/-- `v.min(255)`. -/
def minByte (v : Word) : Word := if v < 255 then v else 255

def inputs (feat : Features) : Features :=
  fun k => minByte (feat k >>> (SH_IN.getD k.toNat 0).toNat)

structure QRow where
  b1 : Word
  w1 : BitVec 3 → Byte
  w2 : Byte
  sh : Byte

structure QModel where
  rows : List QRow
  b2 : Word
  so : Byte
  lut : Byte → Byte
  modelId : Word

/-- `w as i32 + 128` for the weight of input `k`. -/
def QRow.biased (r : QRow) (k : BitVec 3) : Word := (r.w1 k).signExtend 32 + 128

def relu (v : Word) : Word := if v &&& 0x80000000 ≠ 0 then 0 else v

def QRow.activation (r : QRow) (x : Features) (corr : Word) : Word :=
  let acc := featIndices.foldl (fun acc k => acc + r.biased k * x k) r.b1
  minByte (relu (acc - corr) >>> (r.sh &&& 31).toNat)

def sumX (x : Features) : Word := featIndices.foldl (fun a k => a + x k) 0

def layer (x : Features) (corr : Word) (rows : List QRow) : Word :=
  rows.foldl (fun out r => out + r.w2.signExtend 32 * r.activation x corr) 0

def QModel.index (m : QModel) (out : Word) : Word :=
  let idx := relu ((out + m.b2).sshiftRight (m.so &&& 31).toNat + 128)
  if 255 ≤ idx then 255 else idx

def QModel.score (m : QModel) (feat : Features) : Word :=
  let x := inputs feat
  let corr := sumX x <<< 7
  let idx := m.index (layer x corr m.rows)
  (m.lut (idx.setWidth 8)).setWidth 32

namespace Layout

def SH_IN : Nat := 0x00
def MODEL_ID : Nat := 0x08
def SO : Nat := 0x0C
def B2 : Nat := 0x10
def ROWS : Nat := 0x14
def ROW : Nat := 16
def LUT : Nat := ROWS + HIDDEN * ROW
def LEN : Nat := LUT + 256

end Layout

/-- The body of the loop over the rows of `to_data_bytes`. -/
def writeRow (d : List Byte) (j : Nat) (r : QRow) : Option (List Byte) := do
  let o := Layout.ROWS + j * Layout.ROW
  let d ← copyInto d o (wordBytes r.b1)
  let d ← featIndices.foldlM (fun d k => copyInto d (o + 4 + k.toNat) [(r.biased k).setWidth 8]) d
  let d ← copyInto d (o + 12) [r.w2]
  copyInto d (o + 13) [r.sh]

def writeRows (j : Nat) : List QRow → List Byte → Option (List Byte)
  | [], d => some d
  | r :: rest, d => do
    let d ← writeRow d j r
    writeRows (j + 1) rest d

variable (m : QModel)

/-- `QModel::to_data_bytes`; a write outside the blob panics. -/
def QModel.toDataBytes : Option (List Byte) := do
  let d := replicate Layout.LEN 0
  let d ← copyInto d Layout.SH_IN SH_IN
  let d ← copyInto d Layout.MODEL_ID (wordBytes m.modelId)
  let d ← copyInto d Layout.SO [m.so]
  let d ← copyInto d Layout.B2 (wordBytes m.b2)
  let d ← writeRows 0 m.rows d
  copyInto d Layout.LUT ((range 256).map fun i => m.lut (BitVec.ofNat 8 i))

def dataWords (b : List Byte) : Except String (List Word) :=
  if b.length % 4 ≠ 0 then
    .error (toString b.length ++ " bytes is not a whole number of words")
  else .ok (words b 0 (b.length / 4))

/-- `QModel::to_data`, whose `expect` panics on an error. -/
def QModel.toData : Option (List Word) := do
  let b ← m.toDataBytes
  (dataWords b).toOption

def QRow.bytes (r : QRow) : List Byte :=
  wordBytes r.b1 ++ (featIndices.map fun k => (r.biased k).setWidth 8) ++ [r.w2, r.sh, 0, 0]

def QModel.header : List Byte :=
  SH_IN ++ wordBytes m.modelId ++ [m.so, 0, 0, 0] ++ wordBytes m.b2

def QModel.table : List Byte := (range 256).map fun i => m.lut (BitVec.ofNat 8 i)

def QModel.blob : List Byte := m.header ++ m.rows.flatMap QRow.bytes ++ m.table

theorem length_bytes (r : QRow) : r.bytes.length = 16 := rfl

theorem length_rows (rows : List QRow) : (rows.flatMap QRow.bytes).length = 16 * rows.length := by
  induction rows with
  | nil => rfl
  | cons r rows ih =>
    rw [flatMap_cons, length_append, length_bytes, length_cons]
    omega

theorem length_header : m.header.length = 20 := rfl

theorem length_table : m.table.length = 256 := by
  rw [QModel.table, length_map, length_range]

theorem length_blob {m : QModel} (sixteen : m.rows.length = 16) : m.blob.length = 532 := by
  rw [QModel.blob, length_append, length_append, length_header, length_table, length_rows, sixteen]

section Writing

variable {front : List Byte} {j : Nat}

theorem writeRow_filled (r : QRow) (next : front.length = Layout.ROWS + j * Layout.ROW)
    (fits : front.length + 16 ≤ 532) :
    writeRow (filled 532 0 front) j r = some (filled 532 0 (front ++ r.bytes)) := by
  have bias : (front ++ wordBytes r.b1).length = front.length + 4 := length_append
  have weights : featIndices.foldlM (fun d k =>
      copyInto d (Layout.ROWS + j * Layout.ROW + 4 + k.toNat) [(r.biased k).setWidth 8])
        (filled 532 0 (front ++ wordBytes r.b1)) =
      some (filled 532 0 (front ++ wordBytes r.b1 ++
        featIndices.map fun k => (r.biased k).setWidth 8)) := by
    apply foldlM_copyInto
    · rw [bias, next]
      rfl
    · rw [bias]
      exact Nat.le_trans (Nat.le_of_eq (Nat.add_assoc _ 4 8)) (by omega)
  have lengths : (front ++ wordBytes r.b1 ++
      featIndices.map fun k => (r.biased k).setWidth 8).length = front.length + 12 := by
    rw [length_append, bias]
    rfl
  have padded : front ++ r.bytes = front ++ wordBytes r.b1 ++
      (featIndices.map fun k => (r.biased k).setWidth 8) ++ [r.w2] ++ [r.sh] ++
        replicate 2 0 := by
    simp [QRow.bytes]
  rw [padded, filled_append_replicate (by simp only [length_append, lengths]; simp; omega)]
  unfold writeRow
  simp only [bind_eq_bind]
  rw [← next] at weights ⊢
  rw [copyInto_filled rfl (by simp [wordBytes]; omega), bind_some, weights, bind_some,
    copyInto_filled lengths (by simp; omega)]
  apply copyInto_filled
  · rw [length_append, lengths]
    rfl
  · simp
    omega

theorem writeRows_filled {rows : List QRow} (next : front.length = Layout.ROWS + j * Layout.ROW)
    (fits : front.length + 16 * rows.length ≤ 532) : writeRows j rows (filled 532 0 front) =
      some (filled 532 0 (front ++ rows.flatMap QRow.bytes)) := by
  induction rows generalizing front j with
  | nil =>
    rw [flatMap_nil, append_nil]
    rfl
  | cons r rows ih =>
    rw [length_cons] at fits
    have row : Layout.ROW = 16 := rfl
    have longer : (front ++ r.bytes).length = front.length + 16 := length_append
    rw [writeRows, writeRow_filled r next (by omega), flatMap_cons, ← List.append_assoc]
    apply ih
    · rw [longer, next, row]
      omega
    · omega

theorem toDataBytes_eq {m : QModel} (sixteen : m.rows.length = 16) :
    m.toDataBytes = some m.blob := by
  have gap : filled 532 0 (SH_IN ++ wordBytes m.modelId ++ [m.so] ++ replicate 3 0) =
      filled 532 0 (SH_IN ++ wordBytes m.modelId ++ [m.so]) :=
    filled_append_replicate (by simp [SH_IN, wordBytes])
  have rows : writeRows 0 m.rows (filled 532 0 m.header) =
      some (filled 532 0 (m.header ++ m.rows.flatMap QRow.bytes)) := by
    apply writeRows_filled
    · exact length_header m
    · rw [length_header, sixteen]
      decide
  have before : (m.header ++ m.rows.flatMap QRow.bytes).length = Layout.LUT := by
    rw [length_append, length_rows, sixteen]
    rfl
  have table : copyInto (filled 532 0 (m.header ++ m.rows.flatMap QRow.bytes)) Layout.LUT m.table =
      some m.blob := by
    have fits : Layout.LUT + m.table.length ≤ 532 := by
      rw [length_table]
      decide
    rw [copyInto_filled before fits]
    exact congrArg some (filled_of_length (length_blob sixteen))
  have shifts : copyInto (filled 532 0 []) Layout.SH_IN SH_IN = some (filled 532 0 SH_IN) :=
    copyInto_filled rfl (by decide)
  have modelId : copyInto (filled 532 0 SH_IN) Layout.MODEL_ID (wordBytes m.modelId) =
      some (filled 532 0 (SH_IN ++ wordBytes m.modelId)) :=
    copyInto_filled rfl (by simp [wordBytes, Layout.MODEL_ID])
  have so : copyInto (filled 532 0 (SH_IN ++ wordBytes m.modelId)) Layout.SO [m.so] =
      some (filled 532 0 (SH_IN ++ wordBytes m.modelId ++ [m.so])) :=
    copyInto_filled rfl (by simp [Layout.SO])
  have b2 : copyInto (filled 532 0 (SH_IN ++ wordBytes m.modelId ++ [m.so])) Layout.B2
      (wordBytes m.b2) = some (filled 532 0 m.header) := by
    have joined : m.header = SH_IN ++ wordBytes m.modelId ++ [m.so] ++ replicate 3 0 ++
        wordBytes m.b2 := by
      simp [QModel.header]
    rw [← gap, joined]
    exact copyInto_filled rfl (by simp [wordBytes, Layout.B2])
  unfold QModel.toDataBytes
  simp only [bind_eq_bind]
  rw [show replicate Layout.LEN (0 : Byte) = filled 532 0 [] from rfl, shifts,
    bind_some, modelId, bind_some, so, bind_some, b2, bind_some, rows,
    bind_some]
  exact table

end Writing

theorem toData_eq {m : QModel} (sixteen : m.rows.length = 16) :
    m.toData = some (words m.blob 0 133) := by
  have whole : dataWords m.blob = .ok (words m.blob 0 133) := by
    rw [dataWords, length_blob sixteen]
    rfl
  rw [QModel.toData, toDataBytes_eq sixteen]
  exact congrArg Except.toOption whole

section Reading

variable {m : QModel} {r : QRow}

theorem holds_header (m : QModel) : Holds m.blob 0 m.header := (Holds.self m.blob).left.left

theorem blob_shift (m : QModel) (k : BitVec 3) : m.blob.getD k.toNat 0 = SH_IN.getD k.toNat 0 := by
  have read := (holds_header m).left.left.left.getD (i := k.toNat) k.isLt 0
  rwa [Nat.zero_add] at read

theorem blob_modelId (m : QModel) : le32 m.blob Layout.MODEL_ID = m.modelId :=
  le32_of_holds (holds_header m).left.left.right

theorem blob_so (m : QModel) : m.blob.getD Layout.SO 0 = m.so :=
  (holds_header m).left.right.getD (i := 0) (by decide : 0 < 4) 0

theorem blob_b2 (m : QModel) : le32 m.blob Layout.B2 = m.b2 := le32_of_holds (holds_header m).right

theorem holds_row {j : Nat} (get : m.rows[j]? = some r) :
    Holds m.blob (Layout.ROWS + 16 * j) r.bytes := by
  obtain ⟨inside, rfl⟩ := List.getElem?_eq_some_iff.mp get
  have rows : Holds m.blob Layout.ROWS (m.rows.flatMap QRow.bytes) := (Holds.self m.blob).left.right
  exact rows.field (fun r _ => length_bytes r) inside

variable {off : Nat}

theorem row_bias (holds : Holds m.blob off r.bytes) : le32 m.blob off = r.b1 :=
  le32_of_holds holds.left.left

theorem setWidth_biased (r : QRow) (k : BitVec 3) :
    ((r.biased k).setWidth 8).setWidth 32 = r.biased k := by
  have every : ∀ w : Byte, ((w.signExtend 32 + 128 : Word).setWidth 8).setWidth 32 =
      (w.signExtend 32 + 128 : Word) := by
    decide
  exact every (r.w1 k)

theorem row_weight (holds : Holds m.blob off r.bytes) (k : BitVec 3) :
    (m.blob.getD (off + 4 + k.toNat) 0).setWidth 32 = r.biased k := by
  have weights : Holds m.blob (off + 4) (featIndices.map fun k => (r.biased k).setWidth 8) :=
    holds.left.right
  have each : ∀ k : BitVec 3, featIndices[k.toNat]? = some k := by decide
  rw [weights.getD k.isLt 0, getD_eq_getElem?_getD, List.getElem?_map, each k]
  exact setWidth_biased r k

theorem row_w2 (holds : Holds m.blob off r.bytes) : m.blob.getD (off + 12) 0 = r.w2 :=
  holds.right.getD (i := 0) (by decide : 0 < 4) 0

theorem row_sh (holds : Holds m.blob off r.bytes) : m.blob.getD (off + 13) 0 = r.sh :=
  holds.right.getD (i := 1) (by decide : 1 < 4) 0

theorem blob_lut (sixteen : m.rows.length = 16) (i : Byte) :
    m.blob.getD (Layout.LUT + i.toNat) 0 = m.lut i := by
  have table : Holds m.blob Layout.LUT m.table := by
    apply (Holds.self m.blob).right_at
    rw [length_append, length_header, length_rows, sixteen]
    rfl
  have inside : i.toNat < m.table.length := by
    rw [length_table]
    exact i.isLt
  rw [table.getD inside, getD_eq_getElem?_getD, List.getElem?_eq_getElem inside]
  simp [QModel.table]

end Reading

end Scorer

end Unheaded.Cart
