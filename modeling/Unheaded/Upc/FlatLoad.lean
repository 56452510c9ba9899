import Unheaded.Upc.Flat

/-!
# When a flat load is all or nothing

Text is copied before the data is checked and data before the cleared words are, so a late error
leaves a changed memory unless the memory held the words already.
-/

namespace Unheaded.Upc

open Lib

section Load

variable (bin : Slice Byte) (rom ram : Store Word) (dataAddr : Word)

def HasText : Prop := ∀ i < (headerOf bin.elems).textSize.toNat, rom.cell i = textWord bin.reach i

def HasData : Prop :=
  ∀ i < (headerOf bin.elems).dataSize.toNat, ram.cell (wrappedCell dataAddr i) = dataWord bin i

def writtenWords : Nat :=
  if (dataAddr + (headerOf bin.elems).dataSize).toNat + (headerOf bin.elems).bssSize.toNat < 2 ^ 32 then
    segmentSize bin.elems
  else (headerOf bin.elems).dataSize.toNat

def wantedCell (j : Nat) : Word :=
  if dataAddr.toNat ≤ j ∧ j < dataAddr.toNat + segmentSize bin.elems then
    segmentWord bin.elems (j - dataAddr.toNat)
  else ram.cell j

/-- Wrapped addresses do no harm: the words that are not written, above the
wrap or for the loop that does nothing, are in place already, and the words
written below the wrap are those that belong there. -/
structure WrapHarmless : Prop where
  unwritten : ∀ i < segmentSize bin.elems,
    2 ^ 32 ≤ dataAddr.toNat + i ∨ writtenWords bin dataAddr ≤ i →
      ram.cell (dataAddr.toNat + i) = segmentWord bin.elems i
  strays : ∀ i < writtenWords bin dataAddr, 2 ^ 32 ≤ dataAddr.toNat + i →
    wantedCell bin ram dataAddr (dataAddr.toNat + i - 2 ^ 32) = segmentWord bin.elems i

/-- The inputs on which a load is all or nothing. -/
inductive LoadsSafely : Prop where
  /-- The header or the size is refused. -/
  | refused (fails : ¬ Accepted bin.elems)
  /-- The words are read and the text is too large for ROM. -/
  | noRoom (readable : Readable bin) (full : rom.len < (headerOf bin.elems).textSize.toNat)
  /-- The file is complete and everything fits below the wrap. -/
  | fits (complete : Complete bin.elems) (text : (headerOf bin.elems).textSize.toNat ≤ rom.len)
      (segment : dataAddr.toNat + segmentSize bin.elems ≤ ram.len)
      (below : dataAddr.toNat + segmentSize bin.elems < 2 ^ 32)
  /-- The data is refused and ROM held the text. -/
  | lateData (readable : Readable bin) (full : ram.len < (dataAddr + (headerOf bin.elems).dataSize).toNat)
      (text : HasText bin rom)
  /-- The cleared words are refused, ROM held the text and RAM the data. -/
  | lateBSS (readable : Readable bin)
      (data : (dataAddr + (headerOf bin.elems).dataSize).toNat ≤ ram.len)
      (inside : dataAddr.toNat + (headerOf bin.elems).dataSize.toNat < 2 ^ 32 ∨ 2 ^ 32 ≤ ram.len)
      (full : ram.len <
        (dataAddr + (headerOf bin.elems).dataSize + (headerOf bin.elems).bssSize).toNat)
      (text : HasText bin rom) (kept : HasData bin ram dataAddr)
  /-- Everything fits in a RAM past the wrap, which does no harm. -/
  | wrapped (complete : Complete bin.elems) (text : (headerOf bin.elems).textSize.toNat ≤ rom.len)
      (segment : dataAddr.toNat + segmentSize bin.elems ≤ ram.len)
      (above : 2 ^ 32 ≤ dataAddr.toNat + segmentSize bin.elems)
      (harmless : WrapHarmless bin ram dataAddr)

end Load

variable {bin : Slice Byte} {rom ram : Store Word} {dataAddr : Word}

variable {i : Nat}

theorem getElem?_textRead (below : i < (headerOf bin.elems).textSize.toNat) :
    (textRead bin)[i]? = some (textWord bin.reach i) := by
  simp [textRead, below]

theorem getElem?_dataRead (below : i < (headerOf bin.elems).dataSize.toNat) :
    (dataRead bin)[i]? = some (dataWord bin i) := by
  simp [dataRead, below]

@[simp] theorem length_textRead : (textRead bin).length = (headerOf bin.elems).textSize.toNat := by
  simp [textRead]

@[simp] theorem length_dataRead : (dataRead bin).length = (headerOf bin.elems).dataSize.toNat := by
  simp [dataRead]

theorem hasText_iff (fits : (headerOf bin.elems).textSize.toNat ≤ rom.len) :
    rom.blit 0 (textRead bin) = rom ↔ HasText bin rom := by
  rw [blit_eq_self_iff (by rwa [length_textRead])]
  constructor
  · intro holds i below
    exact holds i _ (getElem?_textRead below)
  · intro holds i w found
    have below : i < (headerOf bin.elems).textSize.toNat := by
      rw [← length_textRead]
      exact (List.getElem?_eq_some_iff.mp found).1
    rw [getElem?_textRead below] at found
    cases found
    exact holds i below

theorem hasData_iff {ram' : Store Word} (stored : DataStored ram dataAddr 0 (dataRead bin) ram') :
    ram' = ram ↔ HasData bin ram dataAddr := by
  rw [stored.eq_self_iff]
  constructor
  · intro holds i below
    exact holds i _ (getElem?_dataRead below)
  · intro holds i w found
    have below : i < (headerOf bin.elems).dataSize.toNat := by
      rw [← length_dataRead]
      exact (List.getElem?_eq_some_iff.mp found).1
    rw [getElem?_dataRead below] at found
    cases found
    exact holds i below

section

variable (complete : Complete bin.elems)
include complete

theorem Complete.readable : Readable bin :=
  Nat.le_trans complete (length_reach bin)

theorem Complete.textWord_reach (below : i < (headerOf bin.elems).textSize.toNat) :
    textWord bin.reach i = textWord bin.elems i := by
  unfold Complete at complete
  exact wordAt_append (by omega) _

theorem Complete.dataWord_eq (below : i < (headerOf bin.elems).dataSize.toNat) :
    dataWord bin i = segmentWord bin.elems i := by
  unfold Complete at complete
  rw [segmentWord, if_pos below]
  exact wordAt_append (by omega) _

theorem textPlaced (fits : (headerOf bin.elems).textSize.toNat ≤ rom.len) :
    TextPlaced bin rom (rom.blit 0 (textRead bin)) where
  fits := fits
  len := Store.len_blit _ _ _
  text i below := by
    have placed : (rom.blit 0 (textRead bin)).cell (0 + i) = textWord bin.reach i :=
      Store.cell_blit rom (by rw [length_textRead]; omega) (getElem?_textRead below)
    rwa [Nat.zero_add, complete.textWord_reach below] at placed
  rest i above := Store.cell_blit_of_ge rom _ (by rw [length_textRead]; omega)

end

/-- A memory after the words of the segment went to their wrapped cells, one
after the other. -/
structure Scattered (bin : Slice Byte) (ram : Store Word) (dataAddr : Word) (ram' : Store Word) :
    Prop where
  len : ram'.len = ram.len
  last : ∀ i < writtenWords bin dataAddr,
    (∀ k, i < k → k < writtenWords bin dataAddr → wrappedCell dataAddr k ≠ wrappedCell dataAddr i) →
      ram'.cell (wrappedCell dataAddr i) = segmentWord bin.elems i
  rest : ∀ j, (∀ i < writtenWords bin dataAddr, j ≠ wrappedCell dataAddr i) →
    ram'.cell j = ram.cell j

theorem toNat_dataEnd : (dataAddr + (headerOf bin.elems).dataSize).toNat =
      wrappedCell dataAddr (headerOf bin.elems).dataSize.toNat :=
  BitVec.toNat_add _ _

theorem toNat_bssEnd :
    (dataAddr + (headerOf bin.elems).dataSize + (headerOf bin.elems).bssSize).toNat =
      (wrappedCell dataAddr (headerOf bin.elems).dataSize.toNat +
        (headerOf bin.elems).bssSize.toNat) % 2 ^ 32 := by
  rw [BitVec.toNat_add, toNat_dataEnd]

theorem writtenWords_eq : writtenWords bin dataAddr = (headerOf bin.elems).dataSize.toNat +
        ((dataAddr + (headerOf bin.elems).dataSize + (headerOf bin.elems).bssSize).toNat -
          (dataAddr + (headerOf bin.elems).dataSize).toNat) := by
  rw [writtenWords, segmentSize, toNat_bssEnd, toNat_dataEnd]
  split <;> omega

theorem writtenWords_le : writtenWords bin dataAddr ≤ segmentSize bin.elems := by
  unfold writtenWords segmentSize
  split <;> omega

theorem writtenWords_lt : dataAddr.toNat + writtenWords bin dataAddr < 2 ^ 33 := by
  rw [writtenWords, segmentSize, toNat_dataEnd, wrappedCell]
  split <;> omega

theorem scattered_of_loops {ram' ram'' : Store Word} {n : Nat} (complete : Complete bin.elems)
    (stored : DataStored ram dataAddr 0 (dataRead bin) ram') (len : ram''.len = ram'.len)
    (written : writtenWords bin dataAddr = (headerOf bin.elems).dataSize.toNat + n)
    (below : wrappedCell dataAddr (headerOf bin.elems).dataSize.toNat + n < 2 ^ 32)
    (cleared : ∀ j, ram''.cell j =
      if wrappedCell dataAddr (headerOf bin.elems).dataSize.toNat ≤ j ∧
          j < wrappedCell dataAddr (headerOf bin.elems).dataSize.toNat + n then 0
      else ram'.cell j) :
    Scattered bin ram dataAddr ram'' := by
  -- the cleared cells are those of the words after the data
  have bss (k : Nat) (small : k < n) :
      wrappedCell dataAddr ((headerOf bin.elems).dataSize.toNat + k) =
        wrappedCell dataAddr (headerOf bin.elems).dataSize.toNat + k := by
    unfold wrappedCell at below ⊢
    omega
  refine ⟨len.trans stored.len, ?_, ?_⟩
  · intro i inside final
    rw [cleared]
    by_cases data : i < (headerOf bin.elems).dataSize.toNat
    · rw [if_neg]
      · have placed := stored.data i _ (getElem?_dataRead data)
        rwa [Nat.zero_add, complete.dataWord_eq data] at placed
      · rintro ⟨above, under⟩
        obtain ⟨k, there⟩ := Nat.exists_eq_add_of_le above
        apply final ((headerOf bin.elems).dataSize.toNat + k) (by omega) (by omega)
        rw [bss k (by omega), there]
    · obtain ⟨k, rfl⟩ := Nat.exists_eq_add_of_le (Nat.not_lt.mp data)
      rw [bss k (by omega), if_pos (by omega), segmentWord, if_neg data]
  · intro j other
    rw [cleared, if_neg]
    · apply stored.rest j
      intro k small
      rw [length_dataRead] at small
      rw [Nat.zero_add]
      exact other k (by omega)
    · rintro ⟨above, under⟩
      obtain ⟨k, rfl⟩ := Nat.exists_eq_add_of_le above
      apply other ((headerOf bin.elems).dataSize.toNat + k) (by omega)
      rw [bss k (by omega)]

namespace Scattered

variable {ram' : Store Word}

variable {i j : Nat}

variable (scattered : Scattered bin ram dataAddr ram')
include scattered

theorem cell_high (high : 2 ^ 32 ≤ j) : ram'.cell j = ram.cell j := by
  apply scattered.rest j
  intro i _ same
  have : wrappedCell dataAddr i < 2 ^ 32 := Nat.mod_lt _ (by decide)
  omega

theorem cell_stray (inside : i < writtenWords bin dataAddr) (high : 2 ^ 32 ≤ dataAddr.toNat + i) :
    ram'.cell (dataAddr.toNat + i - 2 ^ 32) = segmentWord bin.elems i := by
  have bound : dataAddr.toNat + writtenWords bin dataAddr < 2 ^ 33 := writtenWords_lt
  have cell : wrappedCell dataAddr i = dataAddr.toNat + i - 2 ^ 32 := by
    unfold wrappedCell
    omega
  rw [← cell]
  apply scattered.last i inside
  intro k later small
  unfold wrappedCell
  omega

theorem cell_low (inside : i < writtenWords bin dataAddr) (low : dataAddr.toNat + i < 2 ^ 32)
    (alone : writtenWords bin dataAddr ≤ i + 2 ^ 32) :
    ram'.cell (dataAddr.toNat + i) = segmentWord bin.elems i := by
  have cell : wrappedCell dataAddr i = dataAddr.toNat + i := Nat.mod_eq_of_lt low
  rw [← cell]
  apply scattered.last i inside
  intro k later small
  unfold wrappedCell
  omega

theorem cell_free (apart : j < dataAddr.toNat ∨ dataAddr.toNat + writtenWords bin dataAddr ≤ j)
    (around : dataAddr.toNat + writtenWords bin dataAddr ≤ j + 2 ^ 32) :
    ram'.cell j = ram.cell j := by
  apply scattered.rest j
  intro i inside same
  unfold wrappedCell at same
  omega

variable (segment : dataAddr.toNat + segmentSize bin.elems ≤ ram.len)
include segment

theorem placed_of_fits (below : dataAddr.toNat + segmentSize bin.elems < 2 ^ 32) :
    DataPlaced bin ram dataAddr ram' := by
  have all : writtenWords bin dataAddr = segmentSize bin.elems := by
    unfold segmentSize at below
    rw [writtenWords, if_pos]
    rw [toNat_dataEnd, wrappedCell]
    omega
  refine ⟨segment, scattered.len, ?_, ?_⟩
  · intro i inside
    exact scattered.cell_low (by omega) (by omega) (by omega)
  · intro j outside
    by_cases high : 2 ^ 32 ≤ j
    · exact scattered.cell_high high
    · exact scattered.cell_free (by omega) (by omega)

/-- Past the wrap the segment is in place exactly when the wrap does no harm. -/
theorem placed_iff : DataPlaced bin ram dataAddr ram' ↔ WrapHarmless bin ram dataAddr := by
  constructor
  · intro placed
    have wanted (j : Nat) : ram'.cell j = wantedCell bin ram dataAddr j := by
      rw [wantedCell]
      split
      · next inside =>
          have held := placed.segment (j - dataAddr.toNat) (by omega)
          rwa [Nat.add_sub_cancel' inside.1] at held
      · exact placed.rest j (by omega)
    refine ⟨?_, ?_⟩
    · intro i inside missed
      rw [← placed.segment i inside]
      by_cases high : 2 ^ 32 ≤ dataAddr.toNat + i
      · exact (scattered.cell_high high).symm
      · exact (scattered.cell_free (by omega) (by omega)).symm
    · intro i inside high
      rw [← wanted, scattered.cell_stray inside high]
  · intro harmless
    have wanted (j : Nat) : ram'.cell j = wantedCell bin ram dataAddr j := by
      by_cases high : 2 ^ 32 ≤ j
      · rw [scattered.cell_high high, wantedCell]
        split
        · next inside =>
            have held := harmless.unwritten (j - dataAddr.toNat) (by omega) (by omega)
            rwa [Nat.add_sub_cancel' inside.1] at held
        · rfl
      · by_cases stray : j + 2 ^ 32 < dataAddr.toNat + writtenWords bin dataAddr
        · have held := scattered.cell_stray (i := j + 2 ^ 32 - dataAddr.toNat) (by omega) (by omega)
          have should := harmless.strays (j + 2 ^ 32 - dataAddr.toNat) (by omega) (by omega)
          have cell : dataAddr.toNat + (j + 2 ^ 32 - dataAddr.toNat) - 2 ^ 32 = j := by omega
          rw [cell] at held should
          rw [held, should]
        · by_cases direct : dataAddr.toNat ≤ j ∧ j < dataAddr.toNat + writtenWords bin dataAddr
          · have size : writtenWords bin dataAddr ≤ segmentSize bin.elems := writtenWords_le
            have held := scattered.cell_low (i := j - dataAddr.toNat) (by omega) (by omega) (by omega)
            rw [Nat.add_sub_cancel' direct.1] at held
            rw [held, wantedCell, if_pos (by omega)]
          · rw [scattered.cell_free (by omega) (by omega), wantedCell]
            split
            · next inside =>
                have held := harmless.unwritten (j - dataAddr.toNat) (by omega) (by omega)
                rwa [Nat.add_sub_cancel' inside.1] at held
            · rfl
    refine ⟨segment, scattered.len, ?_, ?_⟩
    · intro i inside
      rw [wanted, wantedCell, if_pos (by omega), Nat.add_sub_cancel_left]
    · intro j outside
      rw [wanted, wantedCell, if_neg (by omega)]

end Scattered

theorem storeData_dataRead (data : (dataAddr + (headerOf bin.elems).dataSize).toNat ≤ ram.len) :
    (dataAddr.toNat + (headerOf bin.elems).dataSize.toNat < 2 ^ 32 ∨ 2 ^ 32 ≤ ram.len) ∧
        (∃ ram', storeData ram dataAddr 0 (dataRead bin) = some ram' ∧
          DataStored ram dataAddr 0 (dataRead bin) ram') ∨
      ¬ (dataAddr.toNat + (headerOf bin.elems).dataSize.toNat < 2 ^ 32 ∨ 2 ^ 32 ≤ ram.len) ∧
        storeData ram dataAddr 0 (dataRead bin) = none := by
  rw [toNat_dataEnd, wrappedCell] at data
  by_cases inside : dataAddr.toNat + (headerOf bin.elems).dataSize.toNat < 2 ^ 32 ∨ 2 ^ 32 ≤ ram.len
  · refine Or.inl ⟨inside, storeData_some (by rw [length_dataRead]; omega) ?_⟩
    intro k below
    rw [length_dataRead] at below
    unfold wrappedCell
    omega
  · -- the word before the wrap is past the end of RAM
    refine Or.inr ⟨inside, storeData_none (k := 2 ^ 32 - 1 - dataAddr.toNat)
      (by rw [length_dataRead]; omega) ?_⟩
    unfold wrappedCell
    omega

theorem toNat_bssEnd_of_lt (below : dataAddr.toNat + segmentSize bin.elems < 2 ^ 32) :
    (dataAddr + (headerOf bin.elems).dataSize + (headerOf bin.elems).bssSize).toNat =
      dataAddr.toNat + segmentSize bin.elems := by
  unfold segmentSize at below ⊢
  rw [toNat_bssEnd, wrappedCell]
  omega

/-- The end of a load, with the text and the data in place. -/
theorem clearBSS_iff {ram' : Store Word} (accepted : Accepted bin.elems) (readable : Readable bin)
    (text : (headerOf bin.elems).textSize.toNat ≤ rom.len)
    (data : (dataAddr + (headerOf bin.elems).dataSize).toNat ≤ ram.len)
    (inside : dataAddr.toNat + (headerOf bin.elems).dataSize.toNat < 2 ^ 32 ∨ 2 ^ 32 ≤ ram.len)
    (stored : DataStored ram dataAddr 0 (dataRead bin) ram') : AllOrNothing bin rom ram dataAddr
        (clearBSS (headerOf bin.elems) (rom.blit 0 (textRead bin)) ram'
          (dataAddr + (headerOf bin.elems).dataSize)) ↔ LoadsSafely bin rom ram dataAddr := by
  rw [clearBSS]
  by_cases full : ram.len <
      (dataAddr + (headerOf bin.elems).dataSize + (headerOf bin.elems).bssSize).toNat
  · rw [if_pos (by rwa [stored.len])]
    change rom.blit 0 (textRead bin) = rom ∧ ram' = ram ↔ _
    rw [hasText_iff text, hasData_iff stored]
    constructor
    · rintro ⟨held, kept⟩
      exact .lateBSS readable data inside full held kept
    · rintro (fails | ⟨_, small⟩ | ⟨_, _, segment, below⟩ | ⟨_, past, _⟩ | ⟨_, _, _, _, held, kept⟩ |
        ⟨_, _, segment, above, _⟩)
      · exact absurd accepted fails
      · exact absurd text (Nat.not_le.mpr small)
      · rw [toNat_bssEnd_of_lt below] at full
        omega
      · exact absurd data (Nat.not_le.mpr past)
      · exact ⟨held, kept⟩
      · omega
  · rw [if_neg (by rwa [stored.len])]
    obtain ⟨ram'', cleared, len, cells⟩ := @zeroWords_some ram'
      (dataAddr + (headerOf bin.elems).dataSize).toNat
      ((dataAddr + (headerOf bin.elems).dataSize + (headerOf bin.elems).bssSize).toNat -
        (dataAddr + (headerOf bin.elems).dataSize).toNat) (by rw [stored.len]; omega)
    rw [cleared]
    have scattered (complete : Complete bin.elems) : Scattered bin ram dataAddr ram'' := by
      refine scattered_of_loops complete stored len writtenWords_eq ?_ ?_
      · rw [← toNat_dataEnd]
        omega
      · exact cells
    constructor
    · rintro ⟨-, complete, -, placed⟩
      by_cases below : dataAddr.toNat + segmentSize bin.elems < 2 ^ 32
      · exact .fits complete text placed.fits below
      · exact .wrapped complete text placed.fits (Nat.not_lt.mp below)
          (((scattered complete).placed_iff placed.fits).mp placed)
    · rintro (fails | ⟨_, small⟩ | ⟨complete, _, segment, below⟩ | ⟨_, past, _⟩ |
        ⟨_, _, _, past, _, _⟩ | ⟨complete, _, segment, above, harmless⟩)
      · exact absurd accepted fails
      · exact absurd text (Nat.not_le.mpr small)
      · exact ⟨rfl, complete, textPlaced complete text,
          (scattered complete).placed_of_fits segment below⟩
      · exact absurd data (Nat.not_le.mpr past)
      · exact absurd past full
      · exact ⟨rfl, complete, textPlaced complete text,
          ((scattered complete).placed_iff segment).mpr harmless⟩

theorem placeData_iff (accepted : Accepted bin.elems) (readable : Readable bin)
    (text : (headerOf bin.elems).textSize.toNat ≤ rom.len) : AllOrNothing bin rom ram dataAddr
        (placeData (headerOf bin.elems) (dataRead bin) (rom.blit 0 (textRead bin)) ram dataAddr) ↔
      LoadsSafely bin rom ram dataAddr := by
  rw [placeData]
  by_cases full : ram.len < (dataAddr + (headerOf bin.elems).dataSize).toNat
  · rw [if_pos full]
    change rom.blit 0 (textRead bin) = rom ∧ ram = ram ↔ _
    rw [hasText_iff text]
    constructor
    · rintro ⟨held, -⟩
      exact .lateData readable full held
    · rintro (fails | ⟨_, small⟩ | ⟨_, _, segment, below⟩ | ⟨_, _, held⟩ | ⟨_, data, _, _, _, _⟩ |
        ⟨_, _, segment, above, _⟩)
      · exact absurd accepted fails
      · exact absurd text (Nat.not_le.mpr small)
      · unfold segmentSize at segment below
        rw [toNat_dataEnd, wrappedCell] at full
        omega
      · exact ⟨held, rfl⟩
      · exact absurd data (Nat.not_le.mpr full)
      · omega
  · rw [if_neg full]
    rcases storeData_dataRead (Nat.not_lt.mp full) with ⟨inside, ram', done, stored⟩ | ⟨outside, stuck⟩
    · rw [done]
      exact clearBSS_iff accepted readable text (Nat.not_lt.mp full) inside stored
    · rw [stuck]
      change False ↔ _
      rw [false_iff]
      rintro (fails | ⟨_, small⟩ | ⟨_, _, segment, below⟩ | ⟨_, past, _⟩ | ⟨_, _, inside, _, _, _⟩ |
        ⟨_, _, segment, above, _⟩)
      · exact fails accepted
      · exact absurd text (Nat.not_le.mpr small)
      · unfold segmentSize at below
        omega
      · exact full past
      · exact outside inside
      · omega

/-- A load is all or nothing exactly on the inputs named. -/
theorem load_all_or_nothing_iff (bin : Slice Byte) (rom ram : Store Word) (dataAddr : Word) :
    AllOrNothing bin rom ram dataAddr (loadUPCFlat bin rom ram dataAddr) ↔
      LoadsSafely bin rom ram dataAddr := by
  rw [loadUPCFlat]
  by_cases accepted : Accepted bin.elems
  · by_cases readable : Readable bin
    · rw [parseUPCFlat_of_readable accepted readable]
      dsimp only
      by_cases full : rom.len < (headerOf bin.elems).textSize.toNat
      · rw [if_pos full]
        exact iff_of_true ⟨rfl, rfl⟩ (.noRoom readable full)
      · rw [if_neg full]
        exact placeData_iff accepted readable (Nat.not_lt.mp full)
    · rw [parseUPCFlat_of_not_readable accepted readable]
      change False ↔ _
      rw [false_iff]
      -- every other way to be safe reads the words
      rintro (fails | ⟨read, _⟩ | ⟨complete, _, _, _⟩ | ⟨read, _, _⟩ | ⟨read, _, _, _, _, _⟩ |
        ⟨complete, _, _, _, _⟩)
      · exact fails accepted
      · exact readable read
      · exact readable complete.readable
      · exact readable read
      · exact readable read
      · exact readable complete.readable
  · obtain ⟨e, parsed⟩ := parseUPCFlat_of_not_accepted accepted
    rw [parsed]
    exact iff_of_true ⟨rfl, rfl⟩ (.refused accepted)

/-- A header alone whose text and data sizes are `2 ^ 31` words each, so that
their 32-bit sum is zero. -/
def wrappingHeader : List Byte :=
  UPCFlatMagic ++ [1, 0, 0, 0] ++ [0, 0, 0, 0] ++ [0, 0, 0, 0x80] ++ [0, 0, 0, 0] ++
    [0, 0, 0, 0x80] ++ [0, 0, 0, 0] ++ [0, 0, 0, 0]

/-- The sizes pass the check and the first text word is out of range. -/
theorem load_wrapping_header_panics :
    ¬ AllOrNothing ⟨wrappingHeader, []⟩ (Store.ofFn 0 fun _ => 0) (Store.ofFn 0 fun _ => 0) 0
      (loadUPCFlat ⟨wrappingHeader, []⟩ (Store.ofFn 0 fun _ => 0) (Store.ofFn 0 fun _ => 0) 0) := by
  exact id

end Unheaded.Upc
