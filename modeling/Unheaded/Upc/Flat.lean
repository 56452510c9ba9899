import Unheaded.Lib.Bytes
import Unheaded.Lib.Store

/-!
# Flat binaries of the protocol computer

A flat binary is a header of eight little-endian words, the text words and the data words.
-/

namespace Unheaded.Upc

open Lib List Option Store

abbrev Word := BitVec 32

abbrev Byte := BitVec 8

/-- A Go slice: its elements, and those of the array behind it up to its
capacity, which slicing reaches and indexing does not. -/
structure Slice (α : Type) where
  elems : List α
  spare : List α

def Slice.reach {α : Type} (s : Slice α) : List α := s.elems ++ s.spare

structure UPCFlatHeader where
  magic : List Byte
  version : Word
  entry : Word
  textSize : Word
  dataStart : Word
  dataSize : Word
  bssSize : Word
  stackSize : Word
  deriving DecidableEq

/-- The letters `UPCF`. -/
def UPCFlatMagic : List Byte := [0x55, 0x50, 0x43, 0x46]

def UPCFlatVersion : Word := 1

def UPCFlatHeaderSize : Nat := 32

/-- The errors, each with the numbers that its text names. -/
inductive FlatError where
  | binaryTooShort (bytes : Nat)
  | invalidMagic (magic : List Byte)
  | unsupportedVersion (version : Word)
  | payloadTooShort (bytes needed : Nat)
  | textExceedsROM (words : Word) (capacity : Nat)
  | dataExceedsRAM (dataEnd : Word) (capacity : Nat)
  | bssExceedsRAM (bssEnd : Word) (capacity : Nat)
  deriving DecidableEq

variable (b : List Byte)

/-- `binary.LittleEndian.Uint32(b[off : off+4])`; nothing where the slice is out
of range. -/
def uint32 (off : Nat) : Option Word :=
  match b.drop off with
  | b0 :: b1 :: b2 :: b3 :: _ => some (wordOfBytes b3 b2 b1 b0)
  | _ => none

def wordAt (off : Nat) : Word := (uint32 b off).getD 0

/-- The fields of a header that is long enough. -/
def headerOf : UPCFlatHeader where
  magic := b.take 4
  version := wordAt b 4
  entry := wordAt b 8
  textSize := wordAt b 12
  dataStart := wordAt b 16
  dataSize := wordAt b 20
  bssSize := wordAt b 24
  stackSize := wordAt b 28

def readWords (b : List Byte) : Nat → Nat → Option (List Word)
  | _, 0 => some []
  | off, n + 1 => (uint32 b off).bind fun w => (readWords b (off + 4) n).map (w :: ·)

/-- The header, the text and the data; nothing where a read panics. -/
def parseUPCFlat (bin : Slice Byte) :
    Option (Except FlatError (UPCFlatHeader × List Word × List Word)) :=
  if bin.elems.length < UPCFlatHeaderSize then
    some (.error (.binaryTooShort bin.elems.length))
  else if bin.elems.take 4 ≠ UPCFlatMagic then
    some (.error (.invalidMagic (bin.elems.take 4)))
  else
    let hdr := headerOf bin.elems
    if hdr.version ≠ UPCFlatVersion then some (.error (.unsupportedVersion hdr.version))
    else
      let payloadBytes := bin.elems.length - UPCFlatHeaderSize
      -- the sum is made in 32 bits
      let neededBytes := (hdr.textSize + hdr.dataSize).toNat * 4
      if payloadBytes < neededBytes then some (.error (.payloadTooShort payloadBytes neededBytes))
      else
        (readWords bin.reach UPCFlatHeaderSize hdr.textSize.toNat).bind fun text =>
          (readWords bin.reach (UPCFlatHeaderSize + 4 * hdr.textSize.toNat)
            hdr.dataSize.toNat).map fun data => .ok (hdr, text, data)

/-- How a load ends: with a panic, or with a result and the memories it leaves. -/
inductive LoadOutcome where
  | panic
  | returned (result : Except FlatError UPCFlatHeader) (rom ram : Store Word)

/-- The data loop from index `i` on; the index is added in 32 bits. -/
def storeData (ram : Store Word) (dataAddr : Word) : Nat → List Word → Option (Store Word)
  | _, [] => some ram
  | i, w :: ws =>
    let cell := (dataAddr + BitVec.ofNat 32 i).toNat
    if cell < ram.len then storeData (ram.set cell w) dataAddr (i + 1) ws else none

/-- The loop that clears `n` words. -/
def zeroWords (ram : Store Word) : Nat → Nat → Option (Store Word)
  | _, 0 => some ram
  | i, n + 1 => if i < ram.len then zeroWords (ram.set i 0) (i + 1) n else none

/-- The last part of a load, with the data in place. -/
def clearBSS (hdr : UPCFlatHeader) (rom ram : Store Word) (bssStart : Word) : LoadOutcome :=
  let bssEnd := bssStart + hdr.bssSize
  if ram.len < bssEnd.toNat then .returned (.error (.bssExceedsRAM bssEnd ram.len)) rom ram
  else
    match zeroWords ram bssStart.toNat (bssEnd.toNat - bssStart.toNat) with
    | none => .panic
    | some ram => .returned (.ok hdr) rom ram

/-- The part of a load after the text is in place. -/
def placeData (hdr : UPCFlatHeader) (data : List Word) (rom ram : Store Word) (dataAddr : Word) :
    LoadOutcome :=
  let dataEnd := dataAddr + hdr.dataSize
  if ram.len < dataEnd.toNat then .returned (.error (.dataExceedsRAM dataEnd ram.len)) rom ram
  else
    match storeData ram dataAddr 0 data with
    | none => .panic
    | some ram => clearBSS hdr rom ram dataEnd

def loadUPCFlat (bin : Slice Byte) (rom ram : Store Word) (dataAddr : Word) : LoadOutcome :=
  match parseUPCFlat bin with
  | none => .panic
  | some (.error e) => .returned (.error e) rom ram
  | some (.ok (hdr, text, data)) =>
    if rom.len < hdr.textSize.toNat then
      .returned (.error (.textExceedsROM hdr.textSize rom.len)) rom ram
    else placeData hdr data (rom.blit 0 text) ram dataAddr

section Contract

variable (bin : Slice Byte) (rom ram : Store Word) (dataAddr : Word)

variable (b : List Byte)

/-- Text word `i` of a file. -/
def textWord (i : Nat) : Word := wordAt b (UPCFlatHeaderSize + 4 * i)

/-- Word `i` that a file puts from the data address on: the data, then zeros. -/
def segmentWord (i : Nat) : Word :=
  if i < (headerOf b).dataSize.toNat then
    wordAt b (UPCFlatHeaderSize + 4 * ((headerOf b).textSize.toNat + i))
  else 0

def segmentSize : Nat := (headerOf b).dataSize.toNat + (headerOf b).bssSize.toNat

def Complete : Prop :=
  UPCFlatHeaderSize + 4 * ((headerOf b).textSize.toNat + (headerOf b).dataSize.toNat) ≤ b.length

/-- ROM starts with the text and is else as before. -/
structure TextPlaced (rom' : Store Word) : Prop where
  fits : (headerOf bin.elems).textSize.toNat ≤ rom.len
  len : rom'.len = rom.len
  text : ∀ i < (headerOf bin.elems).textSize.toNat, rom'.cell i = textWord bin.elems i
  rest : ∀ i, (headerOf bin.elems).textSize.toNat ≤ i → rom'.cell i = rom.cell i

/-- RAM holds the data and the zeros after it and is else as before. -/
structure DataPlaced (ram' : Store Word) : Prop where
  fits : dataAddr.toNat + segmentSize bin.elems ≤ ram.len
  len : ram'.len = ram.len
  segment : ∀ i < segmentSize bin.elems, ram'.cell (dataAddr.toNat + i) = segmentWord bin.elems i
  rest : ∀ j, j < dataAddr.toNat ∨ dataAddr.toNat + segmentSize bin.elems ≤ j →
    ram'.cell j = ram.cell j

/-- A load fails and changes nothing, or places the whole file. -/
def AllOrNothing : LoadOutcome → Prop
  | .panic => False
  | .returned (.error _) rom' ram' => rom' = rom ∧ ram' = ram
  | .returned (.ok hdr) rom' ram' =>
    hdr = headerOf bin.elems ∧ Complete bin.elems ∧ TextPlaced bin rom rom' ∧
      DataPlaced bin ram dataAddr ram'

end Contract

theorem uint32_isSome {b : List Byte} {off : Nat} : (uint32 b off).isSome ↔ off + 4 ≤ b.length := by
  have size : (b.drop off).length = b.length - off := length_drop
  unfold uint32
  split
  · next shape =>
      rw [shape] at size
      simp only [length_cons, isSome_some, true_iff] at size ⊢
      omega
  · next short =>
      simp only [isSome_none, Bool.false_eq_true, false_iff]
      intro long
      match parts : b.drop off with
      | [] | [_] | [_, _] | [_, _, _] => rw [parts] at size; simp at size; omega
      | b0 :: b1 :: b2 :: b3 :: rest => exact short b0 b1 b2 b3 rest parts

theorem uint32_eq_some {b : List Byte} {off : Nat} (inside : off + 4 ≤ b.length) :
    uint32 b off = some (wordAt b off) := by
  obtain ⟨w, found⟩ := isSome_iff_exists.mp (uint32_isSome.mpr inside)
  rw [wordAt, found, getD_some]

theorem uint32_eq_none {b : List Byte} {off : Nat} (outside : b.length < off + 4) :
    uint32 b off = none := by
  rw [← not_isSome_iff_eq_none, uint32_isSome]
  omega

theorem wordAt_append {b : List Byte} {off : Nat} (inside : off + 4 ≤ b.length) (more : List Byte) :
    wordAt (b ++ more) off = wordAt b off := by
  have size : (b.drop off).length = b.length - off := length_drop
  unfold wordAt uint32
  rw [drop_append_of_le_length (by omega)]
  match parts : b.drop off with
  | [] | [_] | [_, _] | [_, _, _] => rw [parts] at size; simp at size; omega
  | b0 :: b1 :: b2 :: b3 :: rest => rfl

theorem byteOf_wordAt {b : List Byte} {off k : Nat} (inside : off + 4 ≤ b.length) (byte : k < 4) :
    some (byteOf (wordAt b off) k) = b[off + k]? := by
  have size : (b.drop off).length = b.length - off := length_drop
  rw [← List.getElem?_drop]
  unfold wordAt uint32
  match parts : b.drop off with
  | [] | [_] | [_, _] | [_, _, _] => rw [parts] at size; simp at size; omega
  | b0 :: b1 :: b2 :: b3 :: rest =>
    obtain ⟨e0, e1, e2, e3⟩ := byteOf_wordOfBytes b3 b2 b1 b0
    match k, byte with
    | 0, _ => exact congrArg some e0
    | 1, _ => exact congrArg some e1
    | 2, _ => exact congrArg some e2
    | 3, _ => exact congrArg some e3

theorem readWords_eq_some {b : List Byte} {off n : Nat} (inside : off + 4 * n ≤ b.length) :
    readWords b off n = some ((range n).map fun i => wordAt b (off + 4 * i)) := by
  induction n generalizing off with
  | zero => rfl
  | succ n ih =>
    rw [readWords, uint32_eq_some (by omega), bind_some, ih (by omega), map_some,
      range_succ_eq_map, map_cons, List.map_map]
    congr 2
    apply map_congr_left
    intro i _
    congr 1
    omega

theorem readWords_eq_none {b : List Byte} {off n : Nat} (start : off ≤ b.length)
    (outside : b.length < off + 4 * n) : readWords b off n = none := by
  induction n generalizing off with
  | zero => omega
  | succ n ih =>
    rw [readWords]
    by_cases first : off + 4 ≤ b.length
    · rw [uint32_eq_some first, bind_some, ih first (by omega), map_none]
    · rw [uint32_eq_none (by omega), bind_none]

/-- The header and the size of a file pass the checks; the size is compared
with the 32-bit sum. -/
structure Accepted (b : List Byte) : Prop where
  long : UPCFlatHeaderSize ≤ b.length
  magic : b.take 4 = UPCFlatMagic
  version : (headerOf b).version = UPCFlatVersion
  payload : UPCFlatHeaderSize + 4 * ((headerOf b).textSize + (headerOf b).dataSize).toNat ≤ b.length

variable (bin : Slice Byte)

def Readable : Prop := UPCFlatHeaderSize +
    4 * ((headerOf bin.elems).textSize.toNat + (headerOf bin.elems).dataSize.toNat) ≤
      bin.reach.length

def textRead : List Word :=
  (range (headerOf bin.elems).textSize.toNat).map (textWord bin.reach)

/-- Data word `i` as it is read. -/
def dataWord (i : Nat) : Word :=
  wordAt bin.reach (UPCFlatHeaderSize + 4 * ((headerOf bin.elems).textSize.toNat + i))

def dataRead : List Word :=
  (range (headerOf bin.elems).dataSize.toNat).map (dataWord bin)

theorem parseUPCFlat_of_not_accepted {bin : Slice Byte} (refused : ¬ Accepted bin.elems) :
    ∃ e, parseUPCFlat bin = some (.error e) := by
  unfold parseUPCFlat
  split
  · exact ⟨_, rfl⟩
  · next long =>
      split
      · exact ⟨_, rfl⟩
      · next magic =>
          dsimp only
          split
          · exact ⟨_, rfl⟩
          · next version =>
              split
              · exact ⟨_, rfl⟩
              · next payload =>
                  exact absurd ⟨Nat.not_lt.mp long, not_not.mp magic, not_not.mp version,
                    by omega⟩ refused

theorem parseUPCFlat_of_accepted {bin : Slice Byte} (accepted : Accepted bin.elems) :
    parseUPCFlat bin =
      (readWords bin.reach UPCFlatHeaderSize (headerOf bin.elems).textSize.toNat).bind fun text =>
        (readWords bin.reach (UPCFlatHeaderSize + 4 * (headerOf bin.elems).textSize.toNat)
          (headerOf bin.elems).dataSize.toNat).map fun data =>
            .ok (headerOf bin.elems, text, data) := by
  have payload := accepted.payload
  rw [parseUPCFlat, if_neg (Nat.not_lt.mpr accepted.long), if_neg (not_not.mpr accepted.magic)]
  rw [if_neg (not_not.mpr accepted.version), if_neg (by omega)]

theorem length_reach : bin.elems.length ≤ bin.reach.length := by
  rw [Slice.reach, length_append]
  omega

theorem parseUPCFlat_of_readable {bin : Slice Byte} (accepted : Accepted bin.elems)
    (readable : Readable bin) :
    parseUPCFlat bin = some (.ok (headerOf bin.elems, textRead bin, dataRead bin)) := by
  unfold Readable at readable
  rw [parseUPCFlat_of_accepted accepted, readWords_eq_some (by omega), readWords_eq_some (by omega)]
  have data : dataRead bin = (range (headerOf bin.elems).dataSize.toNat).map fun i =>
      wordAt bin.reach (UPCFlatHeaderSize + 4 * (headerOf bin.elems).textSize.toNat + 4 * i) := by
    apply map_congr_left
    intro i _
    rw [dataWord, Nat.mul_add, Nat.add_assoc]
  rw [data]
  rfl

theorem parseUPCFlat_of_not_readable {bin : Slice Byte} (accepted : Accepted bin.elems)
    (short : ¬ Readable bin) : parseUPCFlat bin = none := by
  unfold Readable at short
  have start := Nat.le_trans accepted.long (length_reach bin)
  rw [parseUPCFlat_of_accepted accepted]
  by_cases text : UPCFlatHeaderSize + 4 * (headerOf bin.elems).textSize.toNat ≤ bin.reach.length
  · rw [readWords_eq_some text, bind_some, readWords_eq_none text (by omega), map_none]
  · rw [readWords_eq_none start (by omega), bind_none]

/-- The cell of RAM that the loader uses for word `i` from the data address on. -/
def wrappedCell (dataAddr : Word) (i : Nat) : Nat := (dataAddr.toNat + i) % 2 ^ 32

theorem toNat_add_ofNat (a : Word) (i : Nat) : (a + BitVec.ofNat 32 i).toNat = wrappedCell a i := by
  rw [BitVec.toNat_add, BitVec.toNat_ofNat, wrappedCell, Nat.add_mod_mod]

theorem wrappedCell_inj {a : Word} {i k : Nat} (hi : i < 2 ^ 32) (hk : k < 2 ^ 32)
    (same : wrappedCell a i = wrappedCell a k) : i = k := by
  unfold wrappedCell at same
  omega

/-- What the data loop leaves, where every cell is in range. -/
structure DataStored (ram : Store Word) (a : Word) (i : Nat) (ws : List Word) (ram' : Store Word) :
    Prop where
  len : ram'.len = ram.len
  data : ∀ k w, ws[k]? = some w → ram'.cell (wrappedCell a (i + k)) = w
  rest : ∀ j, (∀ k < ws.length, j ≠ wrappedCell a (i + k)) → ram'.cell j = ram.cell j

theorem storeData_some {ram : Store Word} {a : Word} {i : Nat} {ws : List Word}
    (small : i + ws.length ≤ 2 ^ 32) (inside : ∀ k < ws.length, wrappedCell a (i + k) < ram.len) :
    ∃ ram', storeData ram a i ws = some ram' ∧ DataStored ram a i ws ram' := by
  induction ws generalizing ram i with
  | nil => exact ⟨ram, rfl, rfl, fun k w none => (nomatch none), fun _ _ => rfl⟩
  | cons w ws ih =>
    rw [length_cons] at small inside
    have first : wrappedCell a i < ram.len := inside 0 (Nat.succ_pos _)
    have later (k : Nat) : i + 1 + k = i + (k + 1) := by omega
    obtain ⟨ram', stored, kept⟩ := @ih (ram.set (wrappedCell a i) w) (i + 1) (by omega)
      (fun k below => by rw [len_set, later k]; exact inside (k + 1) (by omega))
    refine ⟨ram', ?_, ?_, ?_, ?_⟩
    · rw [storeData, toNat_add_ofNat, if_pos first, stored]
    · rw [kept.len, len_set]
    · intro k v found
      cases k with
      | zero =>
        cases found
        rw [Nat.add_zero, kept.rest, cell_set_self ram first]
        intro k below same
        have := wrappedCell_inj (by omega) (by omega) same
        omega
      | succ k =>
        rw [← later k]
        exact kept.data k v found
    · intro j other
      rw [length_cons] at other
      have other_first : j ≠ wrappedCell a i := other 0 (Nat.succ_pos _)
      rw [kept.rest j fun k below => by rw [later k]; exact other (k + 1) (by omega),
        cell_set_of_ne ram other_first]

theorem storeData_none {ram : Store Word} {a : Word} {i k : Nat} {ws : List Word}
    (below : k < ws.length) (outside : ram.len ≤ wrappedCell a (i + k)) :
    storeData ram a i ws = none := by
  induction ws generalizing ram i k with
  | nil => cases below
  | cons w ws ih =>
    rw [storeData, toNat_add_ofNat]
    by_cases first : wrappedCell a i < ram.len
    · rw [if_pos first]
      cases k with
      | zero => exact absurd first (Nat.not_lt.mpr outside)
      | succ k =>
        have later : i + 1 + k = i + (k + 1) := by omega
        exact ih (Nat.lt_of_succ_lt_succ below) (by rw [len_set, later]; exact outside)
    · rw [if_neg first]

theorem zeroWords_some {ram : Store Word} {i n : Nat} (inside : i + n ≤ ram.len) :
    ∃ ram', zeroWords ram i n = some ram' ∧ ram'.len = ram.len ∧
      ∀ j, ram'.cell j = if i ≤ j ∧ j < i + n then 0 else ram.cell j := by
  induction n generalizing ram i with
  | zero =>
    refine ⟨ram, rfl, rfl, fun j => ?_⟩
    rw [if_neg (by omega)]
  | succ n ih =>
    obtain ⟨ram', cleared, len, cells⟩ := @ih (ram.set i 0) (i + 1) (by rw [len_set]; omega)
    refine ⟨ram', ?_, ?_, fun j => ?_⟩
    · rw [zeroWords, if_pos (by omega), cleared]
    · rw [len, len_set]
    · rw [cells j, cell_set ram (by omega)]
      by_cases here : j = i
      · rw [if_neg (by omega), if_pos here, if_pos (by omega)]
      · rw [if_neg here]
        have same : (i + 1 ≤ j ∧ j < i + 1 + n) ↔ i ≤ j ∧ j < i + (n + 1) := by omega
        simp only [same]

theorem blit_eq_self_iff {rom : Store Word} {text : List Word} (fits : text.length ≤ rom.len) :
    rom.blit 0 text = rom ↔ ∀ i w, text[i]? = some w → rom.cell i = w := by
  constructor
  · intro same i w found
    have placed : (rom.blit 0 text).cell (0 + i) = w := cell_blit rom (by omega) found
    rwa [same, Nat.zero_add] at placed
  · intro holds
    apply ext (len_blit _ _ _)
    intro i _
    by_cases inside : i < text.length
    · have found := List.getElem?_eq_getElem inside
      have placed : (rom.blit 0 text).cell (0 + i) = text[i] := cell_blit rom (by omega) found
      rw [Nat.zero_add] at placed
      rw [placed, holds i _ found]
    · exact cell_blit_of_ge rom text (by omega)

theorem DataStored.eq_self_iff {ram ram' : Store Word} {a : Word} {ws : List Word}
    (stored : DataStored ram a 0 ws ram') :
    ram' = ram ↔ ∀ k w, ws[k]? = some w → ram.cell (wrappedCell a k) = w := by
  constructor
  · intro same k w found
    have placed := stored.data k w found
    rwa [same, Nat.zero_add] at placed
  · intro holds
    apply ext stored.len
    intro j _
    by_cases written : ∃ k < ws.length, j = wrappedCell a k
    · obtain ⟨k, below, rfl⟩ := written
      have found := List.getElem?_eq_getElem below
      have placed := stored.data k _ found
      rw [Nat.zero_add] at placed
      rw [placed, holds k _ found]
    · apply stored.rest j
      intro k below same
      rw [Nat.zero_add] at same
      exact written ⟨k, below, same⟩

end Unheaded.Upc
