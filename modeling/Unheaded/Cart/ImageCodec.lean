import Unheaded.Cart.Tick
import Unheaded.Lib.Layout

/-!
# The image codec

`Image::encode` and `Image::decode` are inverse to each other on the format,
and the decoder of the Go loader (`cartridge.DecodeImage`) accepts the same
byte strings with the same contents.
-/

namespace Unheaded.Cart

open Lib Mbc List Image
open BitVec (ofNat)

namespace Go

structure Image where
  stage : Byte
  maxInsn : Half
  entry : Half
  loopBound : Half
  flags : Half
  rom : List Word
  data : List Word
  sha256 : List Byte
  deriving DecidableEq

def HeaderLen : Nat := 52
def StageXDP : Byte := 0
def StageTick : Byte := 1
def FlagFailClosed : Half := 1
def SlotWords : Nat := 1024

/-- `imgErr`: the text of the error. -/
def imgErr (text : String) : Except String Image := .error ("cartridge: bad image: " ++ text)

def decodeImage (sha256 : List Byte → List Byte) (b : List Byte) : Except String Image :=
  if b.length < HeaderLen then imgErr ("shorter than the " ++ toString HeaderLen ++ "-byte header")
  else if b.take 4 ≠ [0x4D, 0x42, 0x43, 0x43] then imgErr "bad magic"
  else if b.getD 4 0 ≠ 0 then imgErr ("unknown version " ++ toString (b.getD 4 0).toNat)
  else
    let stage := b.getD 5 0
    if stage ≠ StageXDP ∧ stage ≠ StageTick then imgErr ("unknown stage " ++ toString stage.toNat)
    else
      let entry := le16 b 12
      let flags := le16 b 16
      let rom := (le16 b 8).toNat
      let data := (le16 b 10).toNat
      let want := HeaderLen + 4 * (rom + data)
      if rom = 0 ∨ rom > SlotWords then imgErr ("rom_words " ++ toString rom)
      else if data > SlotWords then imgErr ("data_words " ++ toString data)
      else if b.length ≠ want then
        imgErr ("length " ++ toString b.length ++ ", header implies " ++ toString want)
      else if le16 b 18 ≠ 0 ∨ flags &&& ~~~FlagFailClosed ≠ 0 then
        imgErr "reserved field or unknown flag set"
      else if entry.toNat ≥ rom then
        imgErr ("entry " ++ toString entry.toNat ++ " outside the ROM")
      else if sha256 (b.take 20 ++ b.drop HeaderLen) ≠ (b.drop 20).take (HeaderLen - 20) then
        imgErr "embedded sha256 does not match"
      else .ok {
        stage := stage
        maxInsn := le16 b 6
        entry := entry
        loopBound := le16 b 14
        flags := flags
        rom := (range rom).map (fun i => le32 b (HeaderLen + 4 * i))
        data := (range data).map (fun i => le32 b (HeaderLen + 4 * (rom + i)))
        sha256 := (b.drop 20).take (HeaderLen - 20) }

end Go

/-- The Go image with the contents of the Rust one and the given digest. -/
def Image.toGo (img : Image) (digest : List Byte) : Go.Image where
  stage := img.stage
  maxInsn := img.maxInsn
  entry := img.entry
  loopBound := img.loopBound
  flags := img.flags
  rom := img.rom
  data := img.data
  sha256 := digest

/-- An image within the format limits. -/
structure Image.InFormat (img : Image) : Prop where
  stage : img.stage = STAGE_XDP ∨ img.stage = STAGE_TICK
  romPos : 0 < img.rom.length
  romMax : img.rom.length ≤ 1024
  dataMax : img.data.length ≤ 1024
  entry : img.entry.toNat < img.rom.length
  flags : img.flags &&& ~~~FLAG_FAIL_CLOSED = 0

theorem halfOfBytes_halfBytes (v : Half) :
    halfOfBytes (v.extractLsb' 8 8) (v.extractLsb' 0 8) = v := by
  ext i hi
  interval_cases i <;> simp [halfOfBytes]

theorem extractLsb_halfOfBytes (high low : Byte) :
    (halfOfBytes high low).extractLsb' 0 8 = low ∧ (halfOfBytes high low).extractLsb' 8 8 = high := by
  constructor
  · ext i hi
    interval_cases i <;> simp [halfOfBytes]
  · ext i hi
    interval_cases i <;> simp [halfOfBytes]

variable {b : List Byte} {off : Nat}

theorem le16_of_holds {v : Half} (holds : Holds b off (halfBytes v)) : le16 b off = v := by
  have low := holds.getD (i := 0) (by decide : 0 < 2) 0
  have high := holds.getD (i := 1) (by decide : 1 < 2) 0
  rw [Nat.add_zero] at low
  rw [le16, low, high]
  exact halfOfBytes_halfBytes v

theorem le32_of_holds {v : Word} (holds : Holds b off (wordBytes v)) : le32 b off = v := by
  have byte0 := holds.getD (i := 0) (by decide : 0 < 4) 0
  have byte1 := holds.getD (i := 1) (by decide : 1 < 4) 0
  have byte2 := holds.getD (i := 2) (by decide : 2 < 4) 0
  have byte3 := holds.getD (i := 3) (by decide : 3 < 4) 0
  rw [Nat.add_zero] at byte0
  simp only [wordBytes, getD_cons_zero, getD_cons_succ] at byte0 byte1 byte2 byte3
  rw [le32, byte0, byte1, byte2, byte3, ← word_eq]

theorem words_succ (b : List Byte) (off n : Nat) :
    words b off (n + 1) = le32 b off :: words b (off + 4) n := by
  rw [words, range_succ_eq_map, map_cons, List.map_map]
  refine cons_eq_cons.mpr ⟨rfl, ?_⟩
  apply map_congr_left
  intro i _
  have address : off + 4 * (i + 1) = off + 4 + 4 * i := by omega
  rw [Function.comp_apply, address]

theorem words_of_holds {ws : List Word} (holds : Holds b off (ws.flatMap wordBytes)) :
    words b off ws.length = ws := by
  induction ws generalizing off with
  | nil => rfl
  | cons w ws ih =>
    have rest : words b (off + 4) ws.length = ws := ih holds.right
    rw [length_cons, words_succ, le32_of_holds holds.left, rest]

theorem words_append (b : List Byte) (off m n : Nat) :
    words b off m ++ words b (off + 4 * m) n = words b off (m + n) := by
  induction m generalizing off with
  | zero =>
    rw [Nat.zero_add]
    rfl
  | succ m ih =>
    rw [Nat.succ_add, words_succ, words_succ, List.cons_append, ← ih]
    congr 3
    omega

theorem wordBytes_wordOfBytes (b3 b2 b1 b0 : Byte) :
    wordBytes (wordOfBytes b3 b2 b1 b0) = [b0, b1, b2, b3] := by
  obtain ⟨byte0, byte1, byte2, byte3⟩ := byteOf_wordOfBytes b3 b2 b1 b0
  rw [wordBytes, byte0, byte1, byte2, byte3]

theorem byteOf_le32 (b : List Byte) (off : Nat) {k : Nat} (small : k < 4) :
    byteOf (le32 b off) k = b.getD (off + k) 0 := by
  have bytes := wordBytes_wordOfBytes (b.getD (off + 3) 0) (b.getD (off + 2) 0)
    (b.getD (off + 1) 0) (b.getD off 0)
  simp only [wordBytes, List.cons.injEq, and_true] at bytes
  obtain ⟨byte0, byte1, byte2, byte3⟩ := bytes
  interval_cases k
  · exact byte0
  · exact byte1
  · exact byte2
  · exact byte3

theorem wordBytes_le32 (inside : off + 4 ≤ b.length) :
    wordBytes (le32 b off) ++ b.drop (off + 4) = b.drop off := by
  have four : 4 ≤ (b.drop off).length := by
    rw [length_drop]
    omega
  have here (i : Nat) : (b.drop off).getD i 0 = b.getD (off + i) 0 := by
    rw [getD_eq_getElem?_getD, List.getElem?_drop, getD_eq_getElem?_getD]
  have first : (b.drop off).take 4 = wordBytes (le32 b off) := by
    rw [take_eq_map_getD four 0, le32, wordBytes_wordOfBytes]
    simp only [here]
    rfl
  rw [← first, ← drop_drop, take_append_drop]

theorem flatMap_words {n : Nat} (fill : b.length = off + 4 * n) :
    (words b off n).flatMap wordBytes = b.drop off := by
  induction n generalizing off with
  | zero =>
    exact (drop_eq_nil_of_le (Nat.le_of_eq fill)).symm
  | succ n ih =>
    rw [words_succ, flatMap_cons, ih (by omega), wordBytes_le32 (by omega)]

/-- What both decoders check. -/
structure Accepted (sha256 : List Byte → List Byte) (b : List Byte) : Prop where
  header : HEADER_LEN ≤ b.length
  magic : b.take 4 = MAGIC
  version : b.getD 4 0 = VERSION
  stage : b.getD 5 0 = STAGE_XDP ∨ b.getD 5 0 = STAGE_TICK
  romPos : 0 < (le16 b 8).toNat
  romMax : (le16 b 8).toNat ≤ 1024
  dataMax : (le16 b 10).toNat ≤ 1024
  length : b.length = HEADER_LEN + 4 * ((le16 b 8).toNat + (le16 b 10).toNat)
  reserved : le16 b 18 = 0
  flags : le16 b 16 &&& ~~~FLAG_FAIL_CLOSED = 0
  entry : (le16 b 12).toNat < (le16 b 8).toNat
  digest : sha256 (b.take 20 ++ b.drop HEADER_LEN) = (b.drop 20).take 32

/-- The fields at their offsets. -/
def Image.read (b : List Byte) : Image where
  stage := b.getD 5 0
  maxInsn := le16 b 6
  entry := le16 b 12
  loopBound := le16 b 14
  flags := le16 b 16
  rom := words b HEADER_LEN (le16 b 8).toNat
  data := words b (HEADER_LEN + 4 * (le16 b 8).toNat) (le16 b 10).toNat

section Acceptance

variable {sha256 : List Byte → List Byte} {b : List Byte}

theorem decode_of_accepted (accepted : Accepted sha256 b) :
    decode sha256 b = .ok (read b) := by
  have romPos : ¬ (le16 b 8 = 0 ∨ ROM_WORDS_MAX < le16 b 8) := by
    rintro (zero | large)
    · have pos := accepted.romPos
      rw [zero] at pos
      exact absurd pos (by decide)
    · exact absurd (BitVec.lt_def.mp large) (Nat.not_lt.mpr accepted.romMax)
  have dataMax : ¬ DATA_WORDS_MAX < le16 b 10 := fun large =>
    absurd (BitVec.lt_def.mp large) (Nat.not_lt.mpr accepted.dataMax)
  have stage : ¬ (b.getD 5 0 ≠ STAGE_XDP ∧ b.getD 5 0 ≠ STAGE_TICK) := by
    rintro ⟨notXdp, notTick⟩
    exact accepted.stage.elim notXdp notTick
  have reserved : ¬ (le16 b 18 ≠ 0 ∨ le16 b 16 &&& ~~~FLAG_FAIL_CLOSED ≠ 0) := by
    rintro (field | flag)
    · exact field accepted.reserved
    · exact flag accepted.flags
  have entry : ¬ le16 b 8 ≤ le16 b 12 := fun outside =>
    absurd (BitVec.le_def.mp outside) (Nat.not_le.mpr accepted.entry)
  rw [decode, if_neg (Nat.not_lt.mpr accepted.header), if_neg (not_not.mpr accepted.magic),
    if_neg (not_not.mpr accepted.version), if_neg stage, if_neg romPos, if_neg dataMax,
    if_neg (not_not.mpr accepted.length), if_neg reserved, if_neg entry,
    if_neg (not_not.mpr accepted.digest)]
  rfl

theorem accepted_of_decode {img : Image} (ok : decode sha256 b = .ok img) :
    Accepted sha256 b := by
  obtain ⟨header, ok⟩ := of_guard ok
  obtain ⟨magic, ok⟩ := of_guard ok
  obtain ⟨version, ok⟩ := of_guard ok
  obtain ⟨stage, ok⟩ := of_guard ok
  obtain ⟨rom, ok⟩ := of_guard ok
  obtain ⟨data, ok⟩ := of_guard ok
  obtain ⟨length, ok⟩ := of_guard ok
  obtain ⟨reserved, ok⟩ := of_guard ok
  obtain ⟨entry, ok⟩ := of_guard ok
  obtain ⟨digest, ok⟩ := of_guard ok
  rw [not_or] at rom reserved
  constructor
  · exact Nat.le_of_not_lt header
  · exact not_not.mp magic
  · exact not_not.mp version
  · by_contra other
    exact stage (not_or.mp other)
  · apply Nat.pos_of_ne_zero
    intro zero
    exact rom.1 (BitVec.eq_of_toNat_eq zero)
  · exact BitVec.not_lt.mp rom.2
  · exact BitVec.not_lt.mp data
  · exact not_not.mp length
  · exact not_not.mp reserved.1
  · exact not_not.mp reserved.2
  · exact BitVec.not_le.mp entry
  · exact not_not.mp digest

theorem decode_eq_ok {img : Image} :
    decode sha256 b = .ok img ↔ Accepted sha256 b ∧ img = read b := by
  constructor
  · intro ok
    have accepted := accepted_of_decode ok
    rw [decode_of_accepted accepted] at ok
    cases ok
    exact ⟨accepted, rfl⟩
  · rintro ⟨accepted, rfl⟩
    exact decode_of_accepted accepted

theorem go_decode_of_accepted (accepted : Accepted sha256 b) :
    Go.decodeImage sha256 b = .ok ((read b).toGo ((b.drop 20).take 32)) := by
  have stage : ¬ (b.getD 5 0 ≠ Go.StageXDP ∧ b.getD 5 0 ≠ Go.StageTick) := by
    rintro ⟨notXdp, notTick⟩
    exact accepted.stage.elim notXdp notTick
  have rom : ¬ ((le16 b 8).toNat = 0 ∨ (le16 b 8).toNat > Go.SlotWords) := by
    rintro (zero | large)
    · exact absurd accepted.romPos (by omega)
    · exact absurd large (Nat.not_lt.mpr accepted.romMax)
  have data : ¬ (le16 b 10).toNat > Go.SlotWords := Nat.not_lt.mpr accepted.dataMax
  have reserved : ¬ (le16 b 18 ≠ 0 ∨ le16 b 16 &&& ~~~Go.FlagFailClosed ≠ 0) := by
    rintro (field | flag)
    · exact field accepted.reserved
    · exact flag accepted.flags
  have dataWords : (range (le16 b 10).toNat).map
        (fun i => le32 b (Go.HeaderLen + 4 * ((le16 b 8).toNat + i))) =
      words b (HEADER_LEN + 4 * (le16 b 8).toNat) (le16 b 10).toNat := by
    apply map_congr_left
    intro i _
    rw [Nat.mul_add, ← Nat.add_assoc]
    rfl
  have header : ¬ b.length < Go.HeaderLen := Nat.not_lt.mpr accepted.header
  have magic : ¬ b.take 4 ≠ [0x4D, 0x42, 0x43, 0x43] := not_not.mpr accepted.magic
  have version : ¬ b.getD 4 0 ≠ 0 := not_not.mpr accepted.version
  have length : ¬ b.length ≠ Go.HeaderLen + 4 * ((le16 b 8).toNat + (le16 b 10).toNat) :=
    not_not.mpr accepted.length
  have digest : ¬ sha256 (b.take 20 ++ b.drop Go.HeaderLen) ≠
      (b.drop 20).take (Go.HeaderLen - 20) := not_not.mpr accepted.digest
  unfold Go.decodeImage
  rw [if_neg header, if_neg magic, if_neg version, if_neg stage, if_neg rom, if_neg data,
    if_neg length, if_neg reserved, if_neg (Nat.not_le.mpr accepted.entry), if_neg digest,
    dataWords]
  rfl

theorem accepted_of_go_decode {img : Go.Image} (ok : Go.decodeImage sha256 b = .ok img) :
    Accepted sha256 b := by
  obtain ⟨header, ok⟩ := of_guard ok
  obtain ⟨magic, ok⟩ := of_guard ok
  obtain ⟨version, ok⟩ := of_guard ok
  obtain ⟨stage, ok⟩ := of_guard ok
  obtain ⟨rom, ok⟩ := of_guard ok
  obtain ⟨data, ok⟩ := of_guard ok
  obtain ⟨length, ok⟩ := of_guard ok
  obtain ⟨reserved, ok⟩ := of_guard ok
  obtain ⟨entry, ok⟩ := of_guard ok
  obtain ⟨digest, ok⟩ := of_guard ok
  rw [not_or] at rom reserved
  constructor
  · exact Nat.le_of_not_lt header
  · exact not_not.mp magic
  · exact not_not.mp version
  · by_contra other
    exact stage (not_or.mp other)
  · exact Nat.pos_of_ne_zero rom.1
  · exact Nat.le_of_not_lt rom.2
  · exact Nat.le_of_not_lt data
  · exact not_not.mp length
  · exact not_not.mp reserved.1
  · exact not_not.mp reserved.2
  · exact Nat.lt_of_not_le entry
  · exact not_not.mp digest

theorem go_decode_eq_ok {img : Go.Image} : Go.decodeImage sha256 b = .ok img ↔
      Accepted sha256 b ∧ img = (read b).toGo ((b.drop 20).take 32) := by
  constructor
  · intro ok
    have accepted := accepted_of_go_decode ok
    rw [go_decode_of_accepted accepted] at ok
    cases ok
    exact ⟨accepted, rfl⟩
  · rintro ⟨accepted, rfl⟩
    exact go_decode_of_accepted accepted

end Acceptance

variable (img : Image)

/-- The fixed part of the header. -/
def Image.head : List Byte :=
  MAGIC ++ [VERSION, img.stage] ++ halfBytes img.maxInsn ++
    halfBytes (ofNat 16 img.rom.length) ++ halfBytes (ofNat 16 img.data.length) ++
    halfBytes img.entry ++ halfBytes img.loopBound ++ halfBytes img.flags ++ halfBytes 0

def Image.body : List Byte := (img.rom ++ img.data).flatMap wordBytes

theorem length_flatMap_wordBytes (ws : List Word) :
    (ws.flatMap wordBytes).length = 4 * ws.length := by
  induction ws with
  | nil => rfl
  | cons w ws ih =>
    rw [flatMap_cons, length_append, wordBytes]
    simp only [length_cons, length_nil]
    omega

theorem length_head : img.head.length = 20 := rfl

theorem length_body : img.body.length = 4 * (img.rom.length + img.data.length) := by
  rw [body, length_flatMap_wordBytes, length_append]

section RoundTrip

variable {sha256 : List Byte → List Byte}

theorem encode_eq (img : Image) :
    img.encode sha256 = img.head ++ sha256 (img.head ++ img.body) ++ img.body := rfl

theorem toNat_ofNat_length {n : Nat} (small : n ≤ 1024) : (ofNat 16 n).toNat = n := by
  exact Nat.mod_eq_of_lt (by omega)

theorem encode_head (img : Image) : Holds (img.encode sha256) 0 img.head := by
  have whole := Holds.self (img.encode sha256)
  exact whole.left.left

theorem encode_halves (sha256 : List Byte → List Byte) (img : Image) :
    le16 (img.encode sha256) 6 = img.maxInsn ∧
      le16 (img.encode sha256) 8 = ofNat 16 img.rom.length ∧
      le16 (img.encode sha256) 10 = ofNat 16 img.data.length ∧
      le16 (img.encode sha256) 12 = img.entry ∧ le16 (img.encode sha256) 14 = img.loopBound ∧
      le16 (img.encode sha256) 16 = img.flags ∧ le16 (img.encode sha256) 18 = 0 := by
  -- the fields stand one after the other: peel them off from the last one
  have reserved : Holds (img.encode sha256) 0 img.head := encode_head img
  have flags := reserved.left
  have loopBound := flags.left
  have entry := loopBound.left
  have data := entry.left
  have rom := data.left
  have maxInsn := rom.left
  exact ⟨le16_of_holds (maxInsn.right_at rfl), le16_of_holds (rom.right_at rfl),
    le16_of_holds (data.right_at rfl), le16_of_holds (entry.right_at rfl),
    le16_of_holds (loopBound.right_at rfl), le16_of_holds (flags.right_at rfl),
    le16_of_holds (reserved.right_at rfl)⟩

section

variable (digest : ∀ bytes, (sha256 bytes).length = 32)
include digest

theorem encode_body (img : Image) : Holds (img.encode sha256) HEADER_LEN img.body := by
  have whole := Holds.self (img.encode sha256)
  rw [encode_eq] at whole
  have placed := whole.right
  rwa [length_append, length_head, digest] at placed

theorem read_encode {img : Image}
    (format : img.InFormat) : read (img.encode sha256) = img := by
  obtain ⟨maxInsn, rom, data, entry, loopBound, flags, -⟩ := encode_halves sha256 img
  have body := encode_body digest img
  rw [Image.body, flatMap_append] at body
  have romWords := words_of_holds body.left
  have dataWords := words_of_holds body.right
  rw [length_flatMap_wordBytes] at dataWords
  rw [Image.read, maxInsn, rom, data, entry, loopBound, flags,
    toNat_ofNat_length format.romMax, toNat_ofNat_length format.dataMax, romWords, dataWords]
  rfl

theorem length_encode (img : Image) :
    (img.encode sha256).length = HEADER_LEN + 4 * (img.rom.length + img.data.length) := by
  rw [encode_eq, length_append, length_append, digest, length_head, length_body]
  rfl

theorem accepted_encode {img : Image}
    (format : img.InFormat) : Accepted sha256 (img.encode sha256) := by
  obtain ⟨-, rom, data, entry, -, flags, reserved⟩ := encode_halves sha256 img
  have romWords := toNat_ofNat_length format.romMax
  have dataWords := toNat_ofNat_length format.dataMax
  have length := length_encode digest img
  have first : (img.encode sha256).take 20 = img.head := by
    rw [encode_eq, List.append_assoc]
    exact take_left' (length_head img)
  have body : (img.encode sha256).drop HEADER_LEN = img.body := by
    have size : (img.head ++ sha256 (img.head ++ img.body)).length = HEADER_LEN := by
      rw [length_append, digest]
      rfl
    rw [← size]
    exact drop_left
  have embedded : ((img.encode sha256).drop 20).take 32 = sha256 (img.head ++ img.body) := by
    have after : (img.encode sha256).drop 20 = sha256 (img.head ++ img.body) ++ img.body := by
      rw [encode_eq, List.append_assoc]
      exact drop_left' (length_head img)
    rw [after, ← digest (img.head ++ img.body)]
    exact take_left
  constructor
  · rw [length]
    exact Nat.le_add_right _ _
  · rfl
  · rfl
  · exact format.stage
  · rw [rom, romWords]
    exact format.romPos
  · rw [rom, romWords]
    exact format.romMax
  · rw [data, dataWords]
    exact format.dataMax
  · rw [rom, romWords, data, dataWords]
    exact length
  · exact reserved
  · rw [flags]
    exact format.flags
  · rw [rom, romWords, entry]
    exact format.entry
  · rw [first, body, embedded]

end

theorem halfBytes_le16 (b : List Byte) (off : Nat) :
    halfBytes (le16 b off) = [b.getD off 0, b.getD (off + 1) 0] := by
  obtain ⟨low, high⟩ := extractLsb_halfOfBytes (b.getD (off + 1) 0) (b.getD off 0)
  rw [halfBytes, le16, low, high]

variable {b : List Byte}

variable (accepted : Accepted sha256 b)
include accepted

theorem head_read : (Image.read b).head = b.take 20 := by
  have long : 20 ≤ b.length := Nat.le_trans (by decide) accepted.header
  have four : b.take 4 = [b.getD 0 0, b.getD 1 0, b.getD 2 0, b.getD 3 0] :=
    take_eq_map_getD (Nat.le_trans (by decide) long) 0
  have zero : halfBytes 0 = [b.getD 18 0, b.getD 19 0] := by
    rw [← accepted.reserved]
    exact halfBytes_le16 b 18
  have rom : ofNat 16 (Image.read b).rom.length = le16 b 8 := by
    rw [Image.read, length_words, BitVec.ofNat_toNat, BitVec.setWidth_eq]
  have data : ofNat 16 (Image.read b).data.length = le16 b 10 := by
    rw [Image.read, length_words, BitVec.ofNat_toNat, BitVec.setWidth_eq]
  rw [Image.head, rom, data, ← accepted.magic, four, ← accepted.version, zero,
    take_eq_map_getD long 0]
  simp only [Image.read, halfBytes_le16]
  rfl

theorem body_read : (Image.read b).body = b.drop HEADER_LEN := by
  rw [Image.body, Image.read]
  rw [words_append]
  exact flatMap_words accepted.length

theorem encode_read : (read b).encode sha256 = b := by
  rw [encode_eq, head_read accepted, body_read accepted, accepted.digest, List.append_assoc]
  have body : b.drop HEADER_LEN = (b.drop 20).drop 32 := by
    rw [drop_drop]
    rfl
  rw [body, take_append_drop, take_append_drop]

end RoundTrip

/-- The Rust codec is canonical in both directions, and the Go decoder accepts the same byte
strings with the same contents. -/
theorem image_codec {sha256 : List Byte → List Byte}
    (digest : ∀ bytes, (sha256 bytes).length = 32) :
    (∀ img : Image, img.InFormat → decode sha256 (img.encode sha256) = .ok img) ∧
      (∀ b img, decode sha256 b = .ok img → img.encode sha256 = b) ∧
      (∀ b go, Go.decodeImage sha256 b = .ok go ↔
        ∃ img, decode sha256 b = .ok img ∧ go = img.toGo ((b.drop 20).take 32)) := by
  refine ⟨?_, ?_, ?_⟩
  · intro img format
    exact decode_eq_ok.mpr ⟨accepted_encode digest format, (read_encode digest format).symm⟩
  · intro b img ok
    obtain ⟨accepted, rfl⟩ := decode_eq_ok.mp ok
    exact encode_read accepted
  · intro b go
    constructor
    · intro ok
      obtain ⟨accepted, same⟩ := go_decode_eq_ok.mp ok
      exact ⟨read b, decode_of_accepted accepted, same⟩
    · rintro ⟨img, ok, rfl⟩
      obtain ⟨accepted, rfl⟩ := decode_eq_ok.mp ok
      exact go_decode_of_accepted accepted

theorem countdownImage_codec :
    decode (fun _ => countdownDigest) (countdownImage.encode (fun _ => countdownDigest)) =
        .ok countdownImage ∧
      Go.decodeImage (fun _ => countdownDigest) (countdownImage.encode (fun _ => countdownDigest)) =
        .ok (countdownImage.toGo countdownDigest) := by
  have format : countdownImage.InFormat :=
    ⟨by decide, by decide, by decide, by decide, by decide, by decide⟩
  have codec := @image_codec (fun _ => countdownDigest) (fun _ => rfl)
  have decoded := codec.1 countdownImage format
  exact ⟨decoded, (codec.2.2 _ _).mpr ⟨countdownImage, decoded, rfl⟩⟩

end Unheaded.Cart
