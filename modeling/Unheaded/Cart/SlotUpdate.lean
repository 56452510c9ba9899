import Unheaded.Cart.Reference
import Unheaded.Lib.Events

/-!
# Loading an image into a live slot

`writeSlot` replaces a slot's image by single map writes: it deactivates the slot, writes the ROM
and DATA words and activates it with the new configuration last.
-/

namespace Unheaded.Cart

open Lib Mbc List Option MbcInsn Cartridge
open BitVec (ofNat)

/-! ## The maps of one slot -/

/-- `SlotCfg`, a value of `CART_SLOT`. -/
structure SlotCfg where
  active : Byte
  stage : Byte
  flags : Byte
  maxInsn : Half
  romWords : Half
  dataWords : Half
  entry : Half
  loopBound : Half
  gen : Word
  deriving DecidableEq

namespace SlotCfg

/-- `SlotCfg{}`. -/
def off : SlotCfg := ⟨0, 0, 0, 0, 0, 0, 0, 0, 0⟩

/-- `SlotCfgFor`. -/
def ofImage (img : Image) (gen : Word) : SlotCfg where
  active := 1
  stage := img.stage
  flags := (img.flags &&& FLAG_FAIL_CLOSED).setWidth 8
  maxInsn := img.maxInsn
  romWords := ofNat 16 img.rom.length
  dataWords := ofNat 16 img.data.length
  entry := img.entry
  loopBound := img.loopBound
  gen := gen

def cfg (c : SlotCfg) : CartCfg where
  stage := c.stage
  maxInsn := c.maxInsn
  romWords := c.romWords
  dataWords := c.dataWords
  entry := c.entry
  loopBound := c.loopBound

theorem cfg_ofImage (img : Image) (gen : Word) : (ofImage img gen).cfg = img.cfg := rfl

end SlotCfg

/-- The entries of `CART_ROM`, `CART_DATA` and `CART_SLOT` that belong to one
slot, `SLOT_WORDS` of them in the first two. -/
structure SlotMaps where
  rom : BitVec 10 → Word
  data : BitVec 10 → Word
  slot : SlotCfg

/-- One map write. -/
inductive Put where
  | slot (cfg : SlotCfg)
  | rom (i : Nat) (w : Word)
  | data (i : Nat) (w : Word)
  deriving DecidableEq

/-- A write to `CART_ROM` or `CART_DATA`. -/
def Put.isWord : Put → Bool
  | .slot _ => false
  | .rom _ _ => true
  | .data _ _ => true

namespace SlotMaps

def put (m : SlotMaps) : Put → SlotMaps
  | .slot cfg => { m with slot := cfg }
  | .rom i w => { m with rom := Function.update m.rom (ofNat 10 i) w }
  | .data i w => { m with data := Function.update m.data (ofNat 10 i) w }

/-- The interpreter over `SlotRom` and `SlotData`: indices are masked. -/
def cartridge (m : SlotMaps) (cfg : CartCfg) : Cartridge where
  cfg := cfg
  rom pc := some (m.rom (pc.setWidth 10))
  data i := some (m.data (i.setWidth 10))

end SlotMaps

/-- The map writes of `writeSlot`, in order. -/
def writeSlot (img : Image) (gen : Word) : List Put :=
  .slot .off :: (img.rom.mapIdx Put.rom ++ img.data.mapIdx Put.data ++ [Put.slot (.ofImage img gen)])

/-! ## Runs -/

/-- Where a run stands between two reads of the maps. -/
inductive Phase where
  | fetching
  | executing (w : Word)
  | tracing (pc : Word) (result : Step)
  | ended (result : Step)
  deriving DecidableEq

def Phase.next (result : Step) : Phase := if result = .cont then .fetching else .ended result

/-- A packet or tick run: the configuration it copied, the instructions its
loop has left, and every ROM and DATA word it has read with its index. -/
structure SlotRun (ι : Type) where
  cfg : CartCfg
  traced : Bool
  left : Nat
  st : CartState
  io : ι
  phase : Phase
  roms : List (Word × Word)
  datas : List (Word × Word)

/-- The DATA word the instruction `w` reads, with its index. -/
def Cartridge.dataRead (p : Cartridge) (st : CartState) (w : Word) : List (Word × Word) :=
  let addr := st.regs (src w) + imm16Signed w
  let index := (addr - DATA_BASE) >>> 2
  if opcode? w = some .ld ∨ opcode? w = some .ldb then
    if addr < 0x100 then []
    else if DATA_BASE ≤ addr ∧ addr - DATA_BASE < p.cfg.dataWords.setWidth 32 * 4 then
      ((p.data index).map (index, ·)).toList
    else []
  else []

namespace SlotRun

variable {ι : Type}

def inFlight (r : SlotRun ι) : Bool :=
  match r.phase with
  | .ended _ => false
  | _ => true

def finish (r : SlotRun ι) (ran : Ran ι) : SlotRun ι :=
  { r with st := ran.st, io := ran.io, phase := .ended ran.result }

variable [CartIo ι]

/-- The run up to and including its next read of the maps.  One pass of the
loop in `cart_loop_cb` is a fetch, an execution that may read a DATA word and,
in a traced run, a second read of the ROM word for the trace. -/
def resume (m : SlotMaps) (r : SlotRun ι) : SlotRun ι :=
  let p := m.cartridge r.cfg
  let pc : Word := r.st.pc.setWidth 32
  match r.phase with
  | .fetching =>
    if r.left = 0 ∨ r.cfg.maxInsn.setWidth 32 ≤ r.st.insns then r.finish (p.runOut r.st r.io)
    else if r.cfg.romWords.setWidth 32 ≤ pc then
      r.finish ⟨.fault .pc, r.st.withStatus Status.DONE, r.io⟩
    else
      let w := m.rom (pc.setWidth 10)
      { r with phase := .executing w, roms := r.roms ++ [(pc, w)] }
  | .executing w =>
    let ran := settle (p.execute (advance r.st) r.io pc w)
    { r with
      left := r.left - 1
      st := ran.st
      io := ran.io
      datas := r.datas ++ p.dataRead r.st w
      phase := if r.traced then .tracing pc ran.result else .next ran.result }
  | .tracing pc result =>
    { r with phase := .next result, roms := r.roms ++ [(pc, m.rom (pc.setWidth 10))] }
  | .ended _ => r

end SlotRun

/-! ## Interleavings -/

/-- What `DecodeImage` promises of the sizes. -/
def Image.Fits (img : Image) : Prop := img.rom.length ≤ 1024 ∧ img.data.length ≤ 1024

instance (img : Image) : Decidable img.Fits := inferInstanceAs (Decidable (_ ∧ _))

/-- A `writeSlot` call that has made `done` of its map writes. -/
structure Update where
  img : Image
  gen : Word
  done : Nat
  deriving DecidableEq

def Update.next? (u : Update) : Option Put := (writeSlot u.img u.gen)[u.done]?

/-- The call after one more write; `none` when that was the last. -/
def Update.advance (u : Update) : Option Update :=
  if u.done + 1 < (writeSlot u.img u.gen).length then some { u with done := u.done + 1 } else none

/-- The maps, the `writeSlot` call in progress and the runs; `ρ` names the
places a run may occupy (a CPU in a packet run, the tick job). -/
structure SlotState (ρ ι : Type) where
  maps : SlotMaps
  writer : Option Update
  runs : ρ → Option (SlotRun ι)

inductive SlotEvent (ρ ι : Type) where
  | update (img : Image) (gen : Word)
  | write
  | fail
  | start (id : ρ) (stage : Byte) (n : Nat) (traced : Bool) (st : CartState) (io : ι)
  | run (id : ρ)

def SlotEvent.isUpdate {ρ ι : Type} : SlotEvent ρ ι → Bool
  | .update _ _ => true
  | _ => false

namespace SlotState

variable {ρ ι : Type}

def fresh (m : SlotMaps) : SlotState ρ ι := ⟨m, none, fun _ => none⟩

def busy (s : SlotState ρ ι) (id : ρ) : Bool := (s.runs id).any SlotRun.inFlight

variable [DecidableEq ρ] [CartIo ι]

variable (s : SlotState ρ ι)

/-- A run starts on an active slot of its stage. -/
def startRun (id : ρ) (stage : Byte) (n : Nat) (traced : Bool) (st : CartState) (io : ι) :
    SlotState ρ ι :=
  if s.maps.slot.active = 0 ∨ s.maps.slot.stage ≠ stage then s
  else
    let r : SlotRun ι := ⟨s.maps.slot.cfg, traced, n, st.resetInsns, io, .fetching, [], []⟩
    { s with runs := Function.update s.runs id (some r) }

/-- The state after an event. -/
def after : SlotEvent ρ ι → SlotState ρ ι
  | .update img gen =>
    if s.writer = none ∧ img.Fits then { s with writer := some ⟨img, gen, 0⟩ } else s
  | .write =>
    match s.writer with
    | none => s
    | some u =>
      match u.next? with
      | none => s
      | some put => { s with maps := s.maps.put put, writer := u.advance }
  | .fail => { s with writer := none }
  | .start id stage n traced st io =>
    if s.busy id then s else s.startRun id stage n traced st io
  | .run id =>
    { s with runs := Function.update s.runs id ((s.runs id).map (SlotRun.resume s.maps)) }

def Calm (e : SlotEvent ρ ι) : Prop :=
  e = .write → ∀ u put, s.writer = some u → u.next? = some put → put.isWord = true →
    ∀ id, s.busy id = false

end SlotState

/-! ## What the maps hold -/

/-- The maps hold every word of an image. -/
structure SlotMaps.Holds (m : SlotMaps) (img : Image) : Prop where
  rom : ∀ i w, img.rom[i]? = some w → m.rom (ofNat 10 i) = w
  data : ∀ i w, img.data[i]? = some w → m.data (ofNat 10 i) = w

/-- The maps hold the words of an image that the first `done` writes of its
`writeSlot` put there. -/
structure SlotMaps.HoldsFirst (m : SlotMaps) (img : Image) (done : Nat) : Prop where
  rom : ∀ i w, img.rom[i]? = some w → i + 1 < done → m.rom (ofNat 10 i) = w
  data : ∀ i w, img.data[i]? = some w → img.rom.length + 1 + i < done →
    m.data (ofNat 10 i) = w

/-- Every word a run has read is a word of `img` at its index. -/
structure SlotRun.From {ι : Type} (r : SlotRun ι) (img : Image) : Prop where
  cfg : r.cfg = img.cfg
  roms : ∀ q ∈ r.roms, img.cartridge.rom q.1 = some q.2
  datas : ∀ q ∈ r.datas, img.cartridge.data q.1 = some q.2

theorem length_writeSlot (img : Image) (gen : Word) :
    (writeSlot img gen).length = img.rom.length + img.data.length + 2 := by
  simp [writeSlot, Nat.add_assoc]

theorem writeSlot_cases {img : Image} {gen : Word} {k : Nat} {put : Put}
    (h : (writeSlot img gen)[k]? = some put) :
    (k = 0 ∧ put = .slot .off) ∨ (∃ i w, k = i + 1 ∧ img.rom[i]? = some w ∧ put = .rom i w) ∨
      (∃ i w, k = img.rom.length + 1 + i ∧ img.data[i]? = some w ∧ put = .data i w) ∨
      (k = img.rom.length + img.data.length + 1 ∧ put = .slot (.ofImage img gen)) := by
  cases k with
  | zero =>
    rw [writeSlot, List.getElem?_cons_zero, some.injEq] at h
    exact .inl ⟨rfl, h.symm⟩
  | succ k =>
    rw [writeSlot, List.getElem?_cons_succ, List.append_assoc] at h
    right
    rcases Nat.lt_or_ge k img.rom.length with inRom | pastRom
    · rw [List.getElem?_append_left (by rwa [length_mapIdx]), List.getElem?_mapIdx,
        map_eq_some_iff] at h
      obtain ⟨w, word, rfl⟩ := h
      exact .inl ⟨k, w, rfl, word, rfl⟩
    · rw [List.getElem?_append_right (by rwa [length_mapIdx]), length_mapIdx] at h
      right
      obtain ⟨i, rfl⟩ := Nat.exists_eq_add_of_le pastRom
      rw [Nat.add_sub_cancel_left] at h
      rcases Nat.lt_or_ge i img.data.length with inData | pastData
      · rw [List.getElem?_append_left (by rwa [length_mapIdx]), List.getElem?_mapIdx,
          map_eq_some_iff] at h
        obtain ⟨w, word, rfl⟩ := h
        exact .inl ⟨i, w, by omega, word, rfl⟩
      · rw [List.getElem?_append_right (by rwa [length_mapIdx]), length_mapIdx] at h
        have last : i - img.data.length = 0 := by
          have bound := (List.getElem?_eq_some_iff.mp h).1
          rw [length_singleton] at bound
          omega
        rw [last, List.getElem?_cons_zero, some.injEq] at h
        exact .inr ⟨by omega, h.symm⟩

theorem ofNat_index {i j : Nat} (hi : i < 1024) (hj : j < 1024)
    (h : ofNat 10 i = ofNat 10 j) : i = j := by
  have values := congrArg BitVec.toNat h
  rw [BitVec.toNat_ofNat, BitVec.toNat_ofNat] at values
  omega

theorem update_extends {l : List Word} {cells : BitVec 10 → Word} {k : Nat} {x : Word}
    (fits : l.length ≤ 1024) (word : l[k]? = some x)
    (before : ∀ i w, l[i]? = some w → i < k → cells (ofNat 10 i) = w) :
    ∀ i w, l[i]? = some w → i < k + 1 → Function.update cells (ofNat 10 k) x (ofNat 10 i) = w := by
  intro i w found below
  have kInside := (List.getElem?_eq_some_iff.mp word).1
  rcases Nat.lt_succ_iff_lt_or_eq.mp below with earlier | rfl
  · have other : ofNat 10 i ≠ ofNat 10 k := fun same => by
      have equal := ofNat_index (by omega) (by omega) same
      omega
    rw [Function.update_of_ne other]
    exact before i w found earlier
  · rw [Function.update_self]
    exact some.inj (word.symm.trans found)

theorem masked_index {α : Type} {l : List α} {n : Half} {i : Word} (fits : l.length ≤ 1024)
    (bound : n = ofNat 16 l.length) (inside : i < n.setWidth 32) :
    i.setWidth 10 = ofNat 10 i.toNat ∧ i.toNat < l.length := by
  have below := BitVec.lt_def.mp inside
  rw [bound, BitVec.toNat_setWidth, BitVec.toNat_ofNat] at below
  refine ⟨?_, by omega⟩
  apply BitVec.eq_of_toNat_eq
  rw [BitVec.toNat_setWidth, BitVec.toNat_ofNat]

namespace SlotMaps

variable {m : SlotMaps} {img : Image}

theorem Holds.rom_read (h : m.Holds img) (fits : img.Fits) {pc : Word}
    (inside : pc < img.cfg.romWords.setWidth 32) :
    img.cartridge.rom pc = some (m.rom (pc.setWidth 10)) := by
  obtain ⟨index, below⟩ := masked_index fits.1 rfl inside
  rw [index, h.rom pc.toNat _ (List.getElem?_eq_getElem below)]
  exact List.getElem?_eq_getElem below

theorem Holds.data_word (h : m.Holds img) (fits : img.Fits) {addr : Word}
    (data : DATA_BASE ≤ addr ∧ addr - DATA_BASE < img.cfg.dataWords.setWidth 32 * 4) :
    img.cartridge.data ((addr - DATA_BASE) >>> 2) =
      some (m.data (((addr - DATA_BASE) >>> 2).setWidth 10)) := by
  have inside : (addr - DATA_BASE) >>> 2 < img.cfg.dataWords.setWidth 32 := by
    have below := BitVec.lt_def.mp data.2
    have few := fits.2
    have count : (img.cfg.dataWords.setWidth 32).toNat = img.data.length := by
      rw [Image.cfg, BitVec.toNat_setWidth, BitVec.toNat_ofNat]
      omega
    rw [BitVec.lt_def, BitVec.toNat_ushiftRight]
    change _ < (img.cfg.dataWords.setWidth 32).toNat * 4 % _ at below
    omega
  obtain ⟨index, below⟩ := masked_index fits.2 rfl inside
  rw [index, h.data _ _ (List.getElem?_eq_getElem below)]
  exact List.getElem?_eq_getElem below

theorem Holds.data_read (h : m.Holds img) (fits : img.Fits) {st : CartState} {w : Word} :
    ∀ q ∈ (m.cartridge img.cfg).dataRead st w, img.cartridge.data q.1 = some q.2 := by
  intro q read
  unfold dataRead at read
  dsimp only at read
  split_ifs at read with load window data
  · exact absurd read not_mem_nil
  · rw [SlotMaps.cartridge, map_some, toList_some, mem_singleton] at read
    subst read
    exact h.data_word fits data
  · exact absurd read not_mem_nil
  · exact absurd read not_mem_nil

theorem Holds.put_slot (h : m.Holds img) (cfg : SlotCfg) : (m.put (.slot cfg)).Holds img :=
  ⟨h.rom, h.data⟩

theorem HoldsFirst.holds (h : m.HoldsFirst img (img.rom.length + img.data.length + 1)) :
    m.Holds img where
  rom i w word := by
    have inside := (List.getElem?_eq_some_iff.mp word).1
    exact h.rom i w word (by omega)
  data i w word := by
    have inside := (List.getElem?_eq_some_iff.mp word).1
    exact h.data i w word (by omega)

theorem HoldsFirst.put {gen : Word} {done : Nat} {put : Put} (h : m.HoldsFirst img done)
    (fits : img.Fits) (next : (writeSlot img gen)[done]? = some put) :
    (m.put put).HoldsFirst img (done + 1) := by
  rcases writeSlot_cases next with
    ⟨rfl, rfl⟩ | ⟨k, x, rfl, word, rfl⟩ | ⟨k, x, rfl, word, rfl⟩ | ⟨rfl, rfl⟩
  · exact ⟨fun i w _ below => absurd below (by omega), fun i w _ below => absurd below (by omega)⟩
  · have inside := (List.getElem?_eq_some_iff.mp word).1
    refine ⟨fun i w found below => ?_, fun i w found below => absurd below (by omega)⟩
    exact update_extends fits.1 word (fun j y at_j before => h.rom j y at_j (by omega)) i w found
      (by omega)
  · refine ⟨fun i w found below => ?_, fun i w found below => ?_⟩
    · have inside := (List.getElem?_eq_some_iff.mp found).1
      exact h.rom i w found (by omega)
    · exact update_extends fits.2 word (fun j y at_j before => h.data j y at_j (by omega)) i w
        found (by omega)
  · exact ⟨fun i w found _ => h.holds.rom i w found, fun i w found _ => h.holds.data i w found⟩

end SlotMaps

/-! ## One event -/

namespace SlotRun

variable {ι : Type}

def Placed (r : SlotRun ι) : Prop :=
  match r.phase with
  | .executing _ => r.st.pc.setWidth 32 < r.cfg.romWords.setWidth 32
  | .tracing pc _ => pc < r.cfg.romWords.setWidth 32
  | _ => True

theorem placed_next {r : SlotRun ι} {result : Step} (h : r.phase = .next result) : r.Placed := by
  rw [Placed, h, Phase.next]
  split_ifs <;> trivial

variable [CartIo ι]

variable {r : SlotRun ι}

theorem resume_from {m : SlotMaps} {img : Image} (holds : m.Holds img) (fits : img.Fits)
    (read : r.From img) (placed : r.Placed) : (r.resume m).From img ∧ (r.resume m).Placed := by
  have rom : ∀ pc : Word, pc < r.cfg.romWords.setWidth 32 →
      ∀ q ∈ r.roms ++ [(pc, m.rom (pc.setWidth 10))], img.cartridge.rom q.1 = some q.2 := by
    intro pc inside q among
    rcases mem_append.mp among with old | new
    · exact read.roms q old
    · rw [mem_singleton] at new
      subst new
      rw [read.cfg] at inside
      exact holds.rom_read fits inside
  unfold resume
  cases phase : r.phase with
  | fetching =>
    dsimp only
    split_ifs with spent outside
    · exact ⟨⟨read.cfg, read.roms, read.datas⟩, trivial⟩
    · exact ⟨⟨read.cfg, read.roms, read.datas⟩, trivial⟩
    · exact ⟨⟨read.cfg, rom _ (BitVec.not_le.mp outside), read.datas⟩, BitVec.not_le.mp outside⟩
  | executing w =>
    rw [Placed, phase] at placed
    refine ⟨⟨read.cfg, read.roms, fun q among => ?_⟩, ?_⟩
    · rcases mem_append.mp among with old | new
      · exact read.datas q old
      · rw [read.cfg] at new
        exact holds.data_read fits q new
    · cases traced : r.traced with
      | false => exact placed_next rfl
      | true => exact placed
  | tracing pc result =>
    rw [Placed, phase] at placed
    exact ⟨⟨read.cfg, rom pc placed, read.datas⟩, placed_next rfl⟩
  | ended result =>
    exact ⟨read, by rw [Placed]; trivial⟩

theorem resume_ended (m : SlotMaps) (h : r.inFlight = false) : r.resume m = r := by
  cases phase : r.phase with
  | ended result => simp only [resume, phase]
  | fetching | executing w | tracing pc result =>
    simp only [inFlight, phase] at h
    exact absurd h.symm Bool.false_ne_true

end SlotRun

namespace SlotState

variable {ρ ι : Type}

/-- What holds of a slot whose words are only written while it is quiet. -/
structure Sound (P : Image → Prop) (s : SlotState ρ ι) : Prop where
  active : s.maps.slot.active ≠ 0 →
    ∃ img gen, P img ∧ img.Fits ∧ s.maps.slot = .ofImage img gen ∧ s.maps.Holds img
  writer : ∀ u, s.writer = some u → P u.img ∧ u.img.Fits ∧
    (0 < u.done → s.maps.slot.active = 0 ∧ s.maps.HoldsFirst u.img u.done)
  runs : ∀ id r, s.runs id = some r → ∃ img, P img ∧ r.From img ∧ r.Placed ∧
    (r.inFlight = true → img.Fits ∧ s.maps.Holds img)

theorem fresh_sound (P : Image → Prop) {m : SlotMaps} (h : m.slot.active = 0) :
    (fresh m : SlotState ρ ι).Sound P where
  active on := absurd h on
  writer u none := absurd none (by simp [fresh])
  runs id r none := absurd none (by simp [fresh])

variable [DecidableEq ρ] [CartIo ι]

variable {s : SlotState ρ ι}

theorem Sound.update {P : Image → Prop} (h : s.Sound P) {img : Image} {gen : Word} (given : P img) :
    (s.after (.update img gen)).Sound P := by
  rw [after]
  split_ifs with free
  · refine ⟨h.active, fun u started => ?_, h.runs⟩
    cases started
    exact ⟨given, free.2, fun pos => absurd pos (Nat.lt_irrefl 0)⟩
  · exact h

theorem Sound.fail {P : Image → Prop} (h : s.Sound P) : (s.after .fail).Sound P :=
  ⟨h.active, fun _ none => absurd none (by simp [after]), h.runs⟩

theorem advance_eq_some {u u' : Update} (h : u.advance = some u') :
    u' = { u with done := u.done + 1 } := by
  rw [Update.advance] at h
  split_ifs at h
  exact (some.inj h).symm

section

variable {P : Image → Prop} (h : s.Sound P)
include h

theorem Sound.write (calm : s.Calm .write) : (s.after .write).Sound P := by
  rw [after]
  cases current : s.writer with
  | none => exact h
  | some u =>
    dsimp only
    cases next : u.next? with
    | none => exact h
    | some put =>
      obtain ⟨given, fits, progress⟩ := h.writer u current
      have first : s.maps.HoldsFirst u.img u.done := by
        rcases Nat.eq_zero_or_pos u.done with zero | pos
        · rw [zero]
          exact ⟨fun i w _ below => absurd below (Nat.not_lt_zero _),
            fun i w _ below => absurd below (Nat.not_lt_zero _)⟩
        · exact (progress pos).2
      have extended := first.put fits next
      -- A word is written to an inactive slot without runs in flight.
      have word : put.isWord = true → 0 < u.done → (s.maps.put put).slot = s.maps.slot →
          Sound P { s with maps := s.maps.put put, writer := u.advance } := by
        intro isWord pos same
        have inactive : (s.maps.put put).slot.active = 0 := by
          rw [same]
          exact (progress pos).1
        refine ⟨fun on => absurd inactive on, fun u' goes => ?_, fun id r found => ?_⟩
        · rw [advance_eq_some goes]
          exact ⟨given, fits, fun _ => ⟨inactive, extended⟩⟩
        · obtain ⟨img, imgGiven, read, placed, -⟩ := h.runs id r found
          refine ⟨img, imgGiven, read, placed, fun flying => ?_⟩
          have quiet := calm rfl u put current next isWord id
          rw [busy, found, any_some, flying] at quiet
          exact absurd quiet (by decide)
      -- A configuration write leaves the words of every run in flight alone.
      have runs : ∀ cfg : SlotCfg, ∀ id r, s.runs id = some r →
          ∃ img, P img ∧ r.From img ∧ r.Placed ∧
            (r.inFlight = true → img.Fits ∧ (s.maps.put (.slot cfg)).Holds img) := by
        intro cfg id r found
        obtain ⟨img, imgGiven, read, placed, held⟩ := h.runs id r found
        exact ⟨img, imgGiven, read, placed,
          fun flying => ⟨(held flying).1, (held flying).2.put_slot cfg⟩⟩
      rcases writeSlot_cases next with
        ⟨start, rfl⟩ | ⟨k, x, position, -, rfl⟩ | ⟨k, x, position, -, rfl⟩ | ⟨last, rfl⟩
      · refine ⟨fun on => absurd rfl on, fun u' goes => ?_, runs _⟩
        rw [advance_eq_some goes]
        exact ⟨given, fits, fun _ => ⟨rfl, extended⟩⟩
      · exact word rfl (by omega) rfl
      · exact word rfl (by omega) rfl
      · rw [last] at first
        refine ⟨fun _ => ⟨u.img, u.gen, given, fits, rfl, first.holds.put_slot _⟩,
          fun u' goes => ?_, runs _⟩
        rw [Update.advance, length_writeSlot, if_neg (by omega)] at goes
        cases goes

theorem Sound.start (id : ρ) (stage : Byte) (n : Nat) (traced : Bool) (st : CartState) (io : ι) :
    (s.after (.start id stage n traced st io)).Sound P := by
  rw [after]
  split_ifs with occupied
  · exact h
  · rw [startRun]
    split_ifs with refused
    · exact h
    · rw [not_or] at refused
      obtain ⟨img, gen, given, fits, loaded, holds⟩ := h.active refused.1
      refine ⟨h.active, h.writer, fun id' r found => ?_⟩
      dsimp only at found
      by_cases same : id' = id
      · subst same
        rw [Function.update_self, some.injEq] at found
        subst found
        refine ⟨img, given, ⟨?_, fun q none => absurd none not_mem_nil,
          fun q none => absurd none not_mem_nil⟩, trivial, fun _ => ⟨fits, holds⟩⟩
        rw [loaded, SlotCfg.cfg_ofImage]
      · rw [Function.update_of_ne same] at found
        exact h.runs id' r found

theorem Sound.run (id : ρ) : (s.after (.run id)).Sound P := by
  refine ⟨h.active, h.writer, fun id' r found => ?_⟩
  simp only [SlotState.after] at found
  by_cases same : id' = id
  · subst same
    rw [Function.update_self, map_eq_some_iff] at found
    obtain ⟨r₀, present, rfl⟩ := found
    obtain ⟨img, given, read, placed, held⟩ := h.runs id' r₀ present
    cases flying : r₀.inFlight with
    | false =>
      rw [SlotRun.resume_ended s.maps flying]
      exact ⟨img, given, read, placed, held⟩
    | true =>
      obtain ⟨fits, holds⟩ := held flying
      obtain ⟨reads, places⟩ := SlotRun.resume_from holds fits read placed
      exact ⟨img, given, reads, places, fun _ => ⟨fits, holds⟩⟩
  · rw [Function.update_of_ne same] at found
    exact h.runs id' r found

end

variable {e : SlotEvent ρ ι}

theorem Sound.after {P : Image → Prop} (h : s.Sound P) (calm : s.Calm e)
    (given : ∀ img gen, e = .update img gen → P img) : (s.after e).Sound P := by
  cases e with
  | update img gen => exact h.update (given img gen rfl)
  | write => exact h.write calm
  | fail => exact h.fail
  | start id stage n traced st io => exact h.start id stage n traced st io
  | run id => exact h.run id

/-! ## Whole interleavings -/

variable {events : List (SlotEvent ρ ι)}

theorem sound_of_calm {m : SlotMaps} (inactive : m.slot.active = 0)
    (calm : Along SlotState.after Calm (fresh m) events) :
    (afterAll SlotState.after (fresh m) events).Sound
      (fun img => ∃ gen, SlotEvent.update img gen ∈ events) := by
  have general : ∀ (all rest : List (SlotEvent ρ ι)) (s : SlotState ρ ι), rest ⊆ all →
      s.Sound (fun img => ∃ gen, SlotEvent.update img gen ∈ all) →
      Along SlotState.after Calm s rest →
      (afterAll SlotState.after s rest).Sound
        (fun img => ∃ gen, SlotEvent.update img gen ∈ all) := by
    intro all rest
    induction rest with
    | nil => exact fun s _ h _ => h
    | cons e rest ih =>
      intro s among h along
      refine ih _ (fun x mem => among (mem_cons_of_mem e mem)) ?_ along.2
      refine h.after along.1 (fun img gen same => ⟨gen, ?_⟩)
      rw [← same]
      exact among mem_cons_self
  exact general events events _ (fun _ mem => mem) (fresh_sound _ inactive) calm

theorem inactive_after (other : e.isUpdate = false) (h : s.writer = none ∧ s.maps.slot.active = 0) :
    (s.after e).writer = none ∧ (s.after e).maps.slot.active = 0 := by
  obtain ⟨idle, inactive⟩ := h
  cases e with
  | update img gen => exact absurd other.symm Bool.false_ne_true
  | write =>
    rw [after, idle]
    exact ⟨idle, inactive⟩
  | fail => exact ⟨rfl, inactive⟩
  | run id => exact ⟨idle, inactive⟩
  | start id stage n traced st io =>
    rw [after, startRun]
    split_ifs
    all_goals exact ⟨idle, inactive⟩

theorem inactive_afterAll (others : ∀ e ∈ events, e.isUpdate = false)
    (h : s.writer = none ∧ s.maps.slot.active = 0) :
    (afterAll SlotState.after s events).maps.slot.active = 0 := by
  induction events generalizing s with
  | nil => exact h.2
  | cons e events ih =>
    exact ih (fun x mem => others x (mem_cons_of_mem e mem))
      (inactive_after (others e mem_cons_self) h)

end SlotState

/-- `MOVI r1, 1`, then `VERDICT`: drop every packet. -/
def dropAll : Image where
  stage := STAGE_XDP
  maxInsn := 64
  entry := 0
  loopBound := 0
  flags := 0
  rom := [encode Opcode.movi.toByte 1 0 1,
    encode Opcode.syscall.toByte 0 0 Sys.VERDICT]
  data := []

/-- `MOVI r1, 0`, `NOP`, then `VERDICT`: pass every packet. -/
def passAll : Image where
  stage := STAGE_XDP
  maxInsn := 64
  entry := 0
  loopBound := 0
  flags := 0
  rom := [encode Opcode.movi.toByte 1 0 0, encode Opcode.nop.toByte 0 0 0,
    encode Opcode.syscall.toByte 0 0 Sys.VERDICT]
  data := []

def emptySlot : SlotMaps := ⟨fun _ => 0, fun _ => 0, .off⟩

/-- Load `dropAll`, then start a packet run. -/
def loadAndStart : List (SlotEvent Unit LogIo) :=
  [.update dropAll 1, .write, .write, .write, .write,
    .start () STAGE_XDP N_PKT false CartState.zeroed ⟨PacketInput.default, Outcome.default⟩]

/-- The executable form of `Calm` for a slot with one place. -/
def SlotState.calm (s : SlotState Unit LogIo) (e : SlotEvent Unit LogIo) : Bool :=
  match e with
  | .write => ((s.writer.bind Update.next?).all fun put => !put.isWord) || !s.busy ()
  | _ => true

theorem SlotState.calm_of_check (s : SlotState Unit LogIo) (e : SlotEvent Unit LogIo)
    (h : s.calm e = true) : s.Calm e := by
  rintro rfl u put current next isWord id
  rw [calm, current, bind_some, next, all_some, isWord] at h
  simpa using h

namespace SlotState

variable {ρ ι : Type} [DecidableEq ρ] [CartIo ι]

/-- A slot whose words are only written while no run is in flight: every run
reads the words of the one image whose configuration it copied, and after a
write of `writeSlot` past the first has failed no run starts until the next
`writeSlot` call. -/
theorem slot_update_never_mixes {m : SlotMaps} (inactive : m.slot.active = 0)
    {events : List (SlotEvent ρ ι)} (calm : Along SlotState.after Calm (fresh m) events) :
    let s := afterAll SlotState.after (fresh m) events
    (∀ id r, s.runs id = some r → ∃ img gen, SlotEvent.update img gen ∈ events ∧ r.From img) ∧
    (∀ u, s.writer = some u → 0 < u.done →
      ∀ later : List (SlotEvent ρ ι), (∀ e ∈ later, e.isUpdate = false) → ∀ id stage n traced st io,
          let s' := afterAll SlotState.after (s.after .fail) later
          s'.after (.start id stage n traced st io) = s') := by
  intro s
  have sound := sound_of_calm inactive calm
  constructor
  · intro id r found
    obtain ⟨img, ⟨gen, given⟩, read, -⟩ := sound.runs id r found
    exact ⟨img, gen, given, read⟩
  · intro u current past later others id stage n traced st io s'
    obtain ⟨-, -, progress⟩ := sound.writer u current
    have off := inactive_afterAll others
      (show (s.after .fail).writer = none ∧ (s.after .fail).maps.slot.active = 0 from
        ⟨rfl, (progress past).1⟩)
    rw [after, startRun, if_pos (Or.inl off), ite_self]

/-- A run that ends before the next image's words are written. -/
theorem slot_update_after_run :
    let events := loadAndStart ++ [SlotEvent.run (), .run (), .run (), .run (), .update passAll 2, .write,
      .write]
    let s := afterAll SlotState.after (fresh emptySlot) events
    (s.runs ()).map SlotRun.phase = some (.ended (.verdict 1)) ∧
      ∀ r, s.runs () = some r → ∃ img gen, SlotEvent.update img gen ∈ events ∧ r.From img := by
  refine ⟨by decide +kernel, fun r found => ?_⟩
  have calm : Along SlotState.after Calm (fresh emptySlot) (loadAndStart ++
      [SlotEvent.run (), .run (), .run (), .run (), .update passAll 2, .write, .write]) :=
    along_of_check calm_of_check (by decide +kernel)
  exact (slot_update_never_mixes rfl calm).1 () r found

/-- The run of `dropAll` is in flight when the words of `passAll` are written:
its second fetch reads the new image. -/
theorem run_reads_two_images : ¬ ∀ events : List (SlotEvent Unit LogIo), ∀ r,
      (afterAll SlotState.after (fresh emptySlot) events).runs () = some r →
        ∃ img gen, SlotEvent.update img gen ∈ events ∧ r.From img := by
  intro all
  have reads : ((afterAll SlotState.after (fresh emptySlot) (loadAndStart ++
      [SlotEvent.run (), .run (), .update passAll 2, .write, .write, .write, .run ()])).runs ()).map
        SlotRun.roms = some [(0, encode Opcode.movi.toByte 1 0 1),
          (1, encode Opcode.nop.toByte 0 0 0)] := by
    decide +kernel
  obtain ⟨r, found, roms⟩ := map_eq_some_iff.mp reads
  obtain ⟨img, gen, given, read⟩ := all _ r found
  have first := read.roms _ (by rw [roms]; exact mem_cons_self)
  have second := read.roms (1, encode Opcode.nop.toByte 0 0 0) (by
    rw [roms]
    exact mem_cons_of_mem _ mem_cons_self)
  have either : img = dropAll ∨ img = passAll := by
    simp only [loadAndStart, List.cons_append, nil_append, mem_cons, SlotEvent.update.injEq,
      reduceCtorEq, not_mem_nil, or_false, false_or] at given
    exact given.imp And.left And.left
  rcases either with rfl | rfl
  · exact absurd second (by decide)
  · exact absurd first (by decide)

end SlotState

/-! ## A loaded slot -/

namespace Cartridge

variable {ι : Type} [CartIo ι] {p q : Cartridge}

theorem execute_of_loads (cfg : p.cfg = q.cfg) (loads : ∀ st addr, p.loadWord st addr = q.loadWord st addr)
    (st : CartState) (io : ι) (pc w : Word) : p.execute st io pc w = q.execute st io pc w := by
  obtain ⟨c, rom, data⟩ := p
  obtain ⟨c', rom', data'⟩ := q
  cases cfg
  unfold execute
  dsimp only
  split
  case h_28 =>
    unfold load
    rw [loads]
  case h_29 =>
    unfold loadByte
    rw [loads]
  all_goals rfl

theorem run_of_steps (cfg : p.cfg = q.cfg)
    (steps : ∀ (st : CartState) (io : ι), p.step st io = q.step st io)
    (n : Nat) (st : CartState) (io : ι) : p.run n st io = q.run n st io := by
  have out : ∀ (st : CartState) (io : ι), p.runOut st io = q.runOut st io := by
    intro st io
    unfold runOut
    rw [cfg]
  unfold run
  generalize st.resetInsns = st
  induction n generalizing st io with
  | zero => exact out st io
  | succ n ih =>
    have one : p.runOne st io = q.runOne st io := by
      unfold runOne
      rw [cfg, out, steps]
    rw [runLoop, runLoop, one]
    split
    · exact ih _ _
    · rfl

end Cartridge

namespace SlotMaps

variable {m : SlotMaps} {img : Image} {ι : Type} [CartIo ι]

theorem Holds.step_eq (h : m.Holds img) (fits : img.Fits) (st : CartState) (io : ι) :
    (m.cartridge img.cfg).step st io = img.cartridge.step st io := by
  have cfg : (m.cartridge img.cfg).cfg = img.cfg := rfl
  have cfg' : img.cartridge.cfg = img.cfg := rfl
  have loads : ∀ st addr, (m.cartridge img.cfg).loadWord st addr = img.cartridge.loadWord st addr := by
    intro st addr
    unfold loadWord
    rw [cfg, cfg']
    by_cases data : DATA_BASE ≤ addr ∧ addr - DATA_BASE < img.cfg.dataWords.setWidth 32 * 4
    · rw [if_pos data, if_pos data, h.data_word fits data]
      rfl
    · rw [if_neg data, if_neg data]
  unfold step
  rw [cfg, cfg']
  by_cases outside : img.cfg.romWords.setWidth 32 ≤ st.pc.setWidth 32
  · rw [if_pos outside, if_pos outside]
  · rw [if_neg outside, if_neg outside, h.rom_read fits (BitVec.not_le.mp outside)]
    exact congrArg settle
      (execute_of_loads (cfg.trans cfg'.symm) loads (advance st) io _ _)

/-- The maps after `writeSlot`. -/
def load (m : SlotMaps) (img : Image) (gen : Word) : SlotMaps := (writeSlot img gen).foldl put m

/-- The interpreter of an active slot. -/
def engine (m : SlotMaps) : Cartridge := m.cartridge m.slot.cfg

theorem load_holds (fits : img.Fits) (m : SlotMaps) (gen : Word) :
    (m.load img gen).Holds img ∧ (m.load img gen).engine = (m.load img gen).cartridge img.cfg := by
  have first : ∀ k ≤ (writeSlot img gen).length,
      (((writeSlot img gen).take k).foldl put m).HoldsFirst img k := by
    intro k
    induction k with
    | zero =>
      intro _
      exact ⟨fun _ _ _ below => absurd below (by omega), fun _ _ _ below => absurd below (by omega)⟩
    | succ k ih =>
      intro within
      have next := List.getElem?_eq_getElem (show k < (writeSlot img gen).length by omega)
      rw [take_add_one, next, toList_some, foldl_append]
      exact (ih (by omega)).put fits next
  have whole := first _ (Nat.le_refl _)
  rw [take_length, length_writeSlot] at whole
  refine ⟨HoldsFirst.holds ⟨fun i w word below => whole.rom i w word (by omega),
    fun i w word below => whole.data i w word (by omega)⟩, ?_⟩
  have slot : (m.load img gen).slot = .ofImage img gen := by
    rw [load, writeSlot, foldl_cons, foldl_append]
    rfl
  rw [engine, slot, SlotCfg.cfg_ofImage]

end SlotMaps

/-- The kernel engine over a slot into which `writeSlot` has put an image, whatever the slot held
before, runs packets and tick calls as the reference interpreter runs the image. -/
theorem loaded_slot_runs {img : Image} (fits : img.Fits) (m : SlotMaps) (gen : Word)
    {ι : Type} [CartIo ι] (st : CartState) (io : ι) :
    (m.load img gen).engine.drive N_PKT st io = img.cartridge.run N_PKT st io ∧
      (m.load img gen).engine.drive N_TICK st io = img.cartridge.run N_TICK st io := by
  obtain ⟨holds, engine⟩ := SlotMaps.load_holds fits m gen
  have same : ((m.load img gen).cartridge img.cfg).cfg = img.cartridge.cfg := rfl
  have runs := fun n => run_of_steps same (holds.step_eq fits) n st io
  rw [engine, drive_eq_run _ (by decide) (by decide),
    drive_eq_run _ (by decide) (by decide)]
  exact ⟨runs N_PKT, runs N_TICK⟩

theorem loaded_slot_runs_drop :
    let io : LogIo := ⟨PacketInput.default, Outcome.default⟩
    (emptySlot.load dropAll 1).engine.drive N_PKT .zeroed io = dropAll.cartridge.run N_PKT .zeroed io :=
  (loaded_slot_runs (by decide) emptySlot 1 .zeroed _).1

end Unheaded.Cart
