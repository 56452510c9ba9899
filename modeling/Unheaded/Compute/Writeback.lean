import Unheaded.Compute.Memory
import Unheaded.Lib.Schedules

/-!
# Write-back of cache lines

`DirtyWritebackHandler` collects writes in copies of 64-byte lines, one copy for each flow that
writes to a line, and a flush writes the copies back whole, in the order of a map.
-/

namespace Unheaded.Compute

open Lib List Store MemoryService

/-- An entry of the dirty bitmap. -/
structure DirtyLine where
  flow : BitVec 32
  lineAddr : Addr
  bytes : Store Byte

def DirtyLine.key (line : DirtyLine) : BitVec 32 × Addr := (line.flow, line.lineAddr)

/-- The handler with its memory service; they have one configuration. -/
structure DirtyWritebackHandler where
  ms : MemoryService
  dirty : List DirtyLine

/-- `order` is the order in which the flush goes through the maps. -/
inductive WritebackEvent where
  | write (flow : BitVec 32) (addr : Addr) (size : Nat) (value : BitVec 32)
  | miss (hopId : BitVec 8) (addr : Addr)
  | missLine (lineAddr : Addr)
  | flush (order : List (BitVec 32 × Addr))

/-- What the write of an event leaves in a memory that is written at once. -/
def lastWrite (memory : Store Byte) : WritebackEvent → Store Byte
  | .write _ addr size value => memory.blit addr.toNat (written size value)
  | _ => memory

namespace MemoryConfig

variable (cfg : MemoryConfig)

def lineAddr (addr : Addr) : Addr :=
  addr &&& ~~~(BitVec.ofNat 32 (cfg.cacheLineSize - 1))

def offset (addr : Addr) : Nat :=
  (addr &&& BitVec.ofNat 32 (cfg.cacheLineSize - 1)).toNat

theorem lineAddr_add_offset (addr : Addr) :
    (cfg.lineAddr addr).toNat + cfg.offset addr = addr.toNat :=
  toNat_mask_add addr (BitVec.ofNat 32 (cfg.cacheLineSize - 1))

end MemoryConfig

namespace DirtyWritebackHandler

def readLine (data : Store Byte) (lineAddr : Addr) : Store Byte :=
  .ofFn 64 fun i => data.getD (lineAddr.toNat + i) 0

def patch (line : Store Byte) (offset : Nat) (bytes : List Byte) : Store Byte :=
  if offset + bytes.length ≤ 64 then line.blit offset bytes else line

def markDirty (dirty : List DirtyLine) (data : Store Byte) (flow : BitVec 32) (lineAddr : Addr)
    (offset : Nat) (bytes : List Byte) : List DirtyLine :=
  if (flow, lineAddr) ∈ dirty.map DirtyLine.key then
    dirty.map fun l =>
      if l.key = (flow, lineAddr) then { l with bytes := patch l.bytes offset bytes } else l
  else dirty ++ [⟨flow, lineAddr, patch (readLine data lineAddr) offset bytes⟩]

variable (h : DirtyWritebackHandler)

def handleCacheWriteD007 (flow : BitVec 32) (addr : Addr) (size : Nat) (value : BitVec 32) :
    DirtyWritebackHandler :=
  { h with
    dirty := markDirty h.dirty h.ms.data flow (h.ms.config.lineAddr addr) (h.ms.config.offset addr)
      (written size value) }

/-- A line that lies in the store as a whole is written back; `none` is the panic of a
slice whose end, an address, comes round to 0. -/
def flushLine (data : Store Byte) (line : DirtyLine) : Option (Store Byte) :=
  if line.lineAddr.toNat + 64 ≤ data.len then
    if line.lineAddr.toNat + 64 < 2 ^ 32 then
      some (data.blit line.lineAddr.toNat ((range 64).map line.bytes.cell))
    else none
  else some data

def flushLines (dirty : List DirtyLine) : List (BitVec 32 × Addr) → Store Byte → Option (Store Byte)
  | [], data => some data
  | k :: order, data =>
    match dirty.find? fun l => l.key = k with
    | some line => (flushLine data line).bind (flushLines dirty order)
    | none => flushLines dirty order data

def flushDirtyPages (order : List (BitVec 32 × Addr)) : Option DirtyWritebackHandler :=
  if order.Perm (h.dirty.map DirtyLine.key) then do
    let data ← flushLines h.dirty order h.ms.data
    some ⟨{ h.ms with data := data }, []⟩
  else none

def step : WritebackEvent → Option DirtyWritebackHandler
  | .write flow addr size value => some (h.handleCacheWriteD007 flow addr size value)
  | .miss hopId addr => some { h with ms := h.ms.handleCacheMiss hopId addr }
  | .missLine lineAddr => some { h with ms := h.ms.handleCacheMissD006 lineAddr }
  | .flush order => h.flushDirtyPages order

/-- A new memory service whose store holds `data`, with its handler. -/
def start (cfg : MemoryConfig) (data : Store Byte) : DirtyWritebackHandler :=
  ⟨⟨cfg, data, [], [], fun _ => none⟩, []⟩

/-- A write fits into its line, the line lies in the store and ends at an address, and no other
copy has a byte of the line. -/
def Alone : WritebackEvent → Prop
  | .write flow addr size value =>
    h.ms.config.offset addr + (written size value).length ≤ 64 ∧
      (h.ms.config.lineAddr addr).toNat + 64 ≤ h.ms.config.ringSize ∧
      (h.ms.config.lineAddr addr).toNat + 64 < 2 ^ 32 ∧
      ∀ l ∈ h.dirty, l.key ≠ (flow, h.ms.config.lineAddr addr) →
        l.lineAddr.toNat + 64 ≤ (h.ms.config.lineAddr addr).toNat ∨
          (h.ms.config.lineAddr addr).toNat + 64 ≤ l.lineAddr.toNat
  | _ => True

instance (h : DirtyWritebackHandler) : (event : WritebackEvent) → Decidable (h.Alone event)
  | .write .. => inferInstanceAs (Decidable (_ ∧ _ ∧ _ ∧ ∀ l ∈ h.dirty, _ → _ ∨ _))
  | .miss .. | .missLine _ | .flush _ => isTrue trivial

section Misses

variable {ms : MemoryService}

open MemoryService

variable (clean : ∀ e ∈ ms.pageTable, e.dirty = false)
include clean

theorem evictLRU_clean : ms.evictLRU.data = ms.data ∧ ms.evictLRU.config = ms.config ∧
      ∀ e ∈ ms.evictLRU.pageTable, e.dirty = false := by
  rw [evictLRU]
  split
  · exact ⟨rfl, rfl, clean⟩
  case h_2 victim rest _ =>
    have none : (ms.pageTable.any fun e => e.pageAddr = victim && e.dirty) = false := by
      rw [List.any_eq_false]
      intro e mem
      rw [clean e mem, Bool.and_false]
      exact Bool.false_ne_true
    refine ⟨if_neg ?_, rfl, fun e mem => clean e (mem_of_mem_filter mem)⟩
    rw [none]
    exact Bool.false_ne_true

theorem loadPageToL1_clean (page : Addr) (hopId : BitVec 8) :
    (ms.loadPageToL1 page hopId).data = ms.data ∧ (ms.loadPageToL1 page hopId).config = ms.config ∧
      ∀ e ∈ (ms.loadPageToL1 page hopId).pageTable, e.dirty = false := by
  obtain ⟨data, config, clean⟩ : (ms.makeRoom page).data = ms.data ∧
      (ms.makeRoom page).config = ms.config ∧ ∀ e ∈ (ms.makeRoom page).pageTable, e.dirty = false := by
    rw [makeRoom]
    split
    · exact evictLRU_clean clean
    · exact ⟨rfl, rfl, clean⟩
  rw [loadPageToL1]
  split
  · refine ⟨data, config, fun e mem => ?_⟩
    obtain ⟨old, known, rfl⟩ := List.mem_map.mp mem
    split
    · exact clean old known
    · exact clean old known
  · refine ⟨data, config, fun e mem => ?_⟩
    rcases mem_append.mp mem with old | new
    · exact clean e old
    · rw [mem_singleton.mp new]

theorem handleCacheMiss_clean (hopId : BitVec 8)
    (addr : Addr) : (ms.handleCacheMiss hopId addr).data = ms.data ∧
      (ms.handleCacheMiss hopId addr).config = ms.config ∧
      ∀ e ∈ (ms.handleCacheMiss hopId addr).pageTable, e.dirty = false := by
  rw [handleCacheMiss]
  generalize ms.config.pages (ms.config.alignToPage addr) = pages
  induction pages generalizing ms with
  | nil => exact ⟨rfl, rfl, clean⟩
  | cons page pages ih =>
    obtain ⟨data, config, clean⟩ := loadPageToL1_clean clean page hopId
    obtain ⟨data', config', clean'⟩ := ih clean
    exact ⟨data'.trans data, config'.trans config, clean'⟩

end Misses

/-- The copies hold the bytes of `memory`, and outside them the store does. -/
structure Tracks (h : DirtyWritebackHandler) (memory : Store Byte) : Prop where
  ring : h.ms.data.len = h.ms.config.ringSize
  len : memory.len = h.ms.config.ringSize
  clean : ∀ e ∈ h.ms.pageTable, e.dirty = false
  inside : ∀ l ∈ h.dirty, l.lineAddr.toNat + 64 ≤ h.ms.config.ringSize ∧ l.bytes.len = 64
  ends : ∀ l ∈ h.dirty, l.lineAddr.toNat + 64 < 2 ^ 32
  lines : ∀ l ∈ h.dirty, ∀ i < 64, l.bytes.cell i = memory.cell (l.lineAddr.toNat + i)
  rest : ∀ b, (∀ l ∈ h.dirty, b < l.lineAddr.toNat ∨ l.lineAddr.toNat + 64 ≤ b) →
    h.ms.data.cell b = memory.cell b

theorem start_tracks (cfg : MemoryConfig) {data : Store Byte} (len : data.len = cfg.ringSize) :
    (start cfg data).Tracks data where
  ring := len
  len := len
  clean := fun _ mem => absurd mem not_mem_nil
  inside := fun _ mem => absurd mem not_mem_nil
  ends := fun _ mem => absurd mem not_mem_nil
  lines := fun _ mem => absurd mem not_mem_nil
  rest := fun _ _ => rfl

section Steps

variable {h h' : DirtyWritebackHandler} {memory : Store Byte}

theorem Tracks.withService (tracks : h.Tracks memory) {ms : MemoryService} (data : ms.data = h.ms.data)
    (config : ms.config = h.ms.config) (clean : ∀ e ∈ ms.pageTable, e.dirty = false) :
    ({ h with ms := ms } : DirtyWritebackHandler).Tracks memory := by
  refine ⟨?_, ?_, clean, ?_, tracks.ends, tracks.lines, ?_⟩
  · rw [data, config]
    exact tracks.ring
  · rw [config]
    exact tracks.len
  · rw [config]
    exact tracks.inside
  · rw [data]
    exact tracks.rest

theorem Tracks.readLine (tracks : h.Tracks memory) {lineAddr : Addr}
    (inside : lineAddr.toNat + 64 ≤ h.ms.config.ringSize)
    (apart : ∀ l ∈ h.dirty, l.lineAddr.toNat + 64 ≤ lineAddr.toNat ∨
      lineAddr.toNat + 64 ≤ l.lineAddr.toNat) {i : Nat} (small : i < 64) :
    (readLine h.ms.data lineAddr).cell i = memory.cell (lineAddr.toNat + i) := by
  have within : lineAddr.toNat + i < h.ms.data.len := by
    rw [tracks.ring]
    omega
  rw [DirtyWritebackHandler.readLine, cell_ofFn _ _ small, getD_of_lt _ within]
  refine tracks.rest _ fun l mem => ?_
  have disjoint := apart l mem
  omega

theorem patch_cell {line : Store Byte} {lineAddr addr offset : Nat} {bytes : List Byte}
    (len : line.len = 64) (place : lineAddr + offset = addr) (fits : offset + bytes.length ≤ 64)
    (inside : lineAddr + 64 ≤ memory.len) {i : Nat}
    (same : line.cell i = memory.cell (lineAddr + i)) :
    (patch line offset bytes).cell i = (memory.blit addr bytes).cell (lineAddr + i) := by
  rw [patch, if_pos fits]
  by_cases written : offset ≤ i ∧ i < offset + bytes.length
  · obtain ⟨k, rfl⟩ := Nat.exists_eq_add_of_le written.1
    have there : bytes[k]? = some bytes[k] := List.getElem?_eq_getElem (by omega)
    rw [cell_blit line (by omega) there, ← Nat.add_assoc, place,
      cell_blit memory (by omega) there]
  · rw [cell_blit_of_outside line (by omega), cell_blit_of_outside memory (by omega), same]

theorem len_patch (line : Store Byte) (offset : Nat) (bytes : List Byte) :
    (patch line offset bytes).len = line.len := by
  rw [patch]
  split
  · exact len_blit _ _ _
  · rfl

section Mark

variable {dirty : List DirtyLine} {data : Store Byte} {flow : BitVec 32} {lineAddr : Addr} {offset : Nat}
  {bytes : List Byte} {l : DirtyLine}

theorem mem_markDirty (mem : l ∈ markDirty dirty data flow lineAddr offset bytes) :
    (l ∈ dirty ∧ l.key ≠ (flow, lineAddr)) ∨ (l.lineAddr = lineAddr ∧
      ∃ old, l.bytes = patch old offset bytes ∧
        ((∃ d ∈ dirty, d.key = (flow, lineAddr) ∧ d.bytes = old) ∨
          ((∀ d ∈ dirty, d.key ≠ (flow, lineAddr)) ∧
            old = DirtyWritebackHandler.readLine data lineAddr))) := by
  rw [markDirty] at mem
  split at mem
  case isTrue =>
    obtain ⟨d, known, rfl⟩ := List.mem_map.mp mem
    split
    case isTrue same =>
      exact .inr ⟨congrArg Prod.snd same, d.bytes, rfl, .inl ⟨d, known, same, rfl⟩⟩
    case isFalse other => exact .inl ⟨known, other⟩
  case isFalse absent =>
    have others (d : DirtyLine) (known : d ∈ dirty) : d.key ≠ (flow, lineAddr) := fun same =>
      absent (same ▸ List.mem_map_of_mem known)
    rcases mem_append.mp mem with old | new
    · exact .inl ⟨old, others l old⟩
    · rw [mem_singleton.mp new]
      exact .inr ⟨rfl, _, rfl, .inr ⟨others, rfl⟩⟩

theorem exists_markDirty (dirty : List DirtyLine) (data : Store Byte) (flow : BitVec 32) (lineAddr : Addr)
    (offset : Nat) (bytes : List Byte) :
    (∃ l ∈ markDirty dirty data flow lineAddr offset bytes, l.lineAddr = lineAddr) ∧
      ∀ d ∈ dirty, ∃ l ∈ markDirty dirty data flow lineAddr offset bytes, l.lineAddr = d.lineAddr := by
  rw [markDirty]
  split
  case isTrue present =>
    have kept (d : DirtyLine) (known : d ∈ dirty) : ∃ l ∈ dirty.map (fun l =>
        if l.key = (flow, lineAddr) then { l with bytes := patch l.bytes offset bytes } else l),
          l.lineAddr = d.lineAddr := by
      refine ⟨_, List.mem_map_of_mem known, ?_⟩
      split <;> rfl
    obtain ⟨d, known, same⟩ := List.mem_map.mp present
    obtain ⟨l, mem, place⟩ := kept d known
    exact ⟨⟨l, mem, place.trans (congrArg Prod.snd same)⟩, kept⟩
  case isFalse =>
    exact ⟨⟨_, mem_append_right _ (mem_singleton_self _), rfl⟩,
      fun d known => ⟨d, mem_append_left _ known, rfl⟩⟩

end Mark

theorem Tracks.write (tracks : h.Tracks memory) {flow : BitVec 32} {addr : Addr} {size : Nat}
    {value : BitVec 32} (alone : h.Alone (.write flow addr size value)) :
    (h.handleCacheWriteD007 flow addr size value).Tracks
      (memory.blit addr.toNat (written size value)) := by
  obtain ⟨fits, inside, ends, apart⟩ := alone
  have place := h.ms.config.lineAddr_add_offset addr
  have bound : (h.ms.config.lineAddr addr).toNat + 64 ≤ memory.len := by
    rw [tracks.len]
    exact inside
  -- what the patched copy was before
  have before {old : Store Byte} (origin : (∃ d ∈ h.dirty,
      d.key = (flow, h.ms.config.lineAddr addr) ∧ d.bytes = old) ∨
        ((∀ d ∈ h.dirty, d.key ≠ (flow, h.ms.config.lineAddr addr)) ∧
          old = DirtyWritebackHandler.readLine h.ms.data (h.ms.config.lineAddr addr))) :
      old.len = 64 ∧ ∀ i < 64, old.cell i = memory.cell ((h.ms.config.lineAddr addr).toNat + i) := by
    rcases origin with ⟨d, known, same, rfl⟩ | ⟨others, rfl⟩
    · have line : d.lineAddr = h.ms.config.lineAddr addr := congrArg Prod.snd same
      exact ⟨(tracks.inside d known).2, line ▸ tracks.lines d known⟩
    · exact ⟨rfl, fun i small =>
        tracks.readLine inside (fun l known => apart l known (others l known)) small⟩
  refine ⟨tracks.ring, ?_, tracks.clean, fun l mem => ?_, fun l mem => ?_, fun l mem i small => ?_,
    fun b outside => ?_⟩
  · rw [len_blit]
    exact tracks.len
  · rcases mem_markDirty mem with ⟨known, -⟩ | ⟨line, old, bytes, origin⟩
    · exact tracks.inside l known
    · rw [line, bytes, len_patch]
      exact ⟨inside, (before origin).1⟩
  · rcases mem_markDirty mem with ⟨known, -⟩ | ⟨line, -⟩
    · exact tracks.ends l known
    · exact line ▸ ends
  · rcases mem_markDirty mem with ⟨known, other⟩ | ⟨line, old, bytes, origin⟩
    · have disjoint := apart l known other
      rw [cell_blit_of_outside memory (by omega)]
      exact tracks.lines l known i small
    · obtain ⟨len, same⟩ := before origin
      rw [bytes, line]
      exact patch_cell len place fits bound (same i small)
  · obtain ⟨⟨line, copied, there⟩, kept⟩ := exists_markDirty h.dirty h.ms.data flow
      (h.ms.config.lineAddr addr) (h.ms.config.offset addr) (written size value)
    have beyond := outside line copied
    rw [there] at beyond
    rw [cell_blit_of_outside memory (by omega)]
    refine tracks.rest b fun d known => ?_
    obtain ⟨l, mem, same⟩ := kept d known
    exact same ▸ outside l mem

variable {order : List (BitVec 32 × Addr)}

/-- No line is cut off, so all of them are written back. -/
theorem flushLines_spec {dirty : List DirtyLine} {data : Store Byte} (len : memory.len = data.len)
    (known : ∀ k ∈ order, k ∈ dirty.map DirtyLine.key)
    (inside : ∀ l ∈ dirty, l.lineAddr.toNat + 64 ≤ data.len)
    (ends : ∀ l ∈ dirty, l.lineAddr.toNat + 64 < 2 ^ 32)
    (lines : ∀ l ∈ dirty, ∀ i < 64, l.bytes.cell i = memory.cell (l.lineAddr.toNat + i))
    (rest : ∀ b, (∀ k ∈ order, b < k.2.toNat ∨ k.2.toNat + 64 ≤ b) → data.cell b = memory.cell b) :
    ∃ data', flushLines dirty order data = some data' ∧ data'.len = data.len ∧
      ∀ b, data'.cell b = memory.cell b := by
  induction order generalizing data with
  | nil => exact ⟨data, rfl, rfl, fun b => rest b fun k mem => absurd mem not_mem_nil⟩
  | cons k order ih =>
    obtain ⟨first, later⟩ := forall_mem_cons.mp known
    rw [flushLines]
    cases found : dirty.find? fun l => l.key = k with
    | none =>
      obtain ⟨l, mem, same⟩ := List.mem_map.mp first
      exact absurd (decide_eq_true same) (List.find?_eq_none.mp found l mem)
    | some line =>
      have mem := List.mem_of_find?_eq_some found
      have same := List.find?_some found
      have place : line.lineAddr = k.2 := congrArg Prod.snd (of_decide_eq_true same)
      have fits := inside line mem
      have size : ((range 64).map line.bytes.cell).length = 64 := by
        rw [length_map, length_range]
      have len' := len_blit data line.lineAddr.toNat ((range 64).map line.bytes.cell)
      have cells (b : Nat) (outside : ∀ k ∈ order, b < k.2.toNat ∨ k.2.toNat + 64 ≤ b) :
          (data.blit line.lineAddr.toNat ((range 64).map line.bytes.cell)).cell b =
            memory.cell b := by
        by_cases here : line.lineAddr.toNat ≤ b ∧ b < line.lineAddr.toNat + 64
        · obtain ⟨i, rfl⟩ := Nat.exists_eq_add_of_le here.1
          have small : i < 64 := by omega
          have byte : ((range 64).map line.bytes.cell)[i]? = some (line.bytes.cell i) := by
            rw [List.getElem?_map, List.getElem?_range small]
            rfl
          rw [cell_blit data (by rw [size]; exact fits) byte]
          exact lines line mem i small
        · rw [cell_blit_of_outside data (by rw [size]; omega)]
          refine rest b (forall_mem_cons.mpr ⟨?_, outside⟩)
          rw [← place]
          omega
      obtain ⟨data', written, same', all⟩ := ih (len.trans len'.symm) later
        (fun l known => Nat.le_trans (inside l known) (Nat.le_of_eq len'.symm)) cells
      refine ⟨data', ?_, same'.trans len', all⟩
      dsimp only
      rw [flushLine, if_pos fits, if_pos (ends line mem), Option.bind_some, written]

theorem Tracks.flush (tracks : h.Tracks memory) (perm : order.Perm (h.dirty.map DirtyLine.key)) :
    ∃ h', h.flushDirtyPages order = some h' ∧ h'.Tracks memory ∧ h'.dirty = [] := by
  obtain ⟨data, written, len, cells⟩ := flushLines_spec (tracks.len.trans tracks.ring.symm)
    (fun k mem => perm.mem_iff.mp mem)
    (fun l known => Nat.le_trans (tracks.inside l known).1 (Nat.le_of_eq tracks.ring.symm))
    tracks.ends tracks.lines fun b outside => by
      refine tracks.rest b fun l known => ?_
      exact outside l.key (perm.mem_iff.mpr (List.mem_map_of_mem known))
  refine ⟨⟨{ h.ms with data := data }, []⟩, ?_, ⟨len.trans tracks.ring, tracks.len, tracks.clean,
    ?_, ?_, ?_, fun b _ => cells b⟩, rfl⟩
  · rw [flushDirtyPages, if_pos perm, written]
    rfl
  · exact fun l mem => absurd mem not_mem_nil
  · exact fun l mem => absurd mem not_mem_nil
  · exact fun l mem => absurd mem not_mem_nil

theorem Tracks.step {event : WritebackEvent} (tracks : h.Tracks memory) (alone : h.Alone event)
    (next : h.step event = some h') : h'.Tracks (lastWrite memory event) := by
  cases event with
  | write flow addr size value =>
    cases next
    exact tracks.write alone
  | miss hopId addr =>
    cases next
    obtain ⟨data, config, clean⟩ := handleCacheMiss_clean tracks.clean hopId addr
    exact tracks.withService data config clean
  | missLine lineAddr =>
    cases next
    exact tracks.withService rfl rfl tracks.clean
  | flush order =>
    by_cases perm : order.Perm (h.dirty.map DirtyLine.key)
    · obtain ⟨flushed, returns, tracks', -⟩ := tracks.flush perm
      cases returns.symm.trans next
      exact tracks'
    · cases (if_neg perm).symm.trans next

theorem Tracks.run {events : List WritebackEvent} (tracks : h.Tracks memory)
    (alone : Throughout DirtyWritebackHandler.step Alone h events)
    (run : runAll DirtyWritebackHandler.step h events = some h') :
    h'.Tracks (events.foldl lastWrite memory) := by
  induction events generalizing h memory with
  | nil =>
    cases run
    exact tracks
  | cons event events ih =>
    obtain ⟨h₁, next, later⟩ := runAll_cons run
    exact ih (tracks.step alone.1 next) (alone.2 h₁ next) later

end Steps

/-- After a run in which every write is alone, a flush in any order of the copies returns and
leaves in the store what the last writes have left. -/
theorem flushed_exactly (cfg : MemoryConfig) (data : Store Byte) (len : data.len = cfg.ringSize)
    (events : List WritebackEvent) (h : DirtyWritebackHandler)
    (run : runAll step (start cfg data) events = some h)
    (alone : Throughout step Alone (start cfg data) events)
    (order : List (BitVec 32 × Addr)) (perm : order.Perm (h.dirty.map DirtyLine.key)) :
    ∃ h', h.step (.flush order) = some h' ∧ h'.ms.data = events.foldl lastWrite data := by
  have tracks := (start_tracks cfg len).run alone run
  obtain ⟨h', flushed, after, none⟩ := tracks.flush perm
  refine ⟨h', flushed, ext (after.ring.trans after.len.symm) fun b _ =>
    after.rest b fun l member => ?_⟩
  rw [none] at member
  exact absurd member not_mem_nil

def twoLines : MemoryConfig := Config.accepted ⟨128, 4, 0, 1, 64⟩

def writesApart : List WritebackEvent := [.write 1 0 1 0xAB, .miss 0 0, .write 2 64 1 0xCD]

set_option maxRecDepth 10000 in
theorem writes_apart_flushed : ∃ h h', runAll step (start twoLines (.ofFn 128 fun _ => 0)) writesApart =
        some h ∧ h.step (.flush [(2, 64), (1, 0)]) = some h' ∧
      h'.ms.data = writesApart.foldl lastWrite (.ofFn 128 fun _ => 0) := by
  obtain ⟨h', flushed, same⟩ := flushed_exactly twoLines (.ofFn 128 fun _ => 0) rfl writesApart _ rfl
    (by decide) [(2, 64), (1, 0)] (by decide)
  exact ⟨_, h', rfl, flushed, same⟩

set_option maxRecDepth 10000 in
/-- When two flows write to one line, the copy that is written back last takes the other
byte back; a line that is cut off at the end of the store is not written back. -/
theorem write_lost : (∃ h, runAll step (start twoLines (.ofFn 128 fun _ => 0))
        [.write 1 0 1 0xAB, .write 2 1 1 0xCD, .flush [(1, 0), (2, 0)]] = some h ∧
      h.ms.data.cell 0 = 0 ∧
      ([.write 1 0 1 0xAB, .write 2 1 1 0xCD].foldl lastWrite (.ofFn 128 fun _ => 0)).cell 0 = 0xAB) ∧
    ∃ h, runAll step (start (Config.accepted ⟨100, 4, 0, 1, 64⟩) (.ofFn 100 fun _ => 0))
        [.write 1 64 1 0xAB, .flush [(1, 64)]] = some h ∧ h.ms.data.cell 64 = 0 ∧
      ([.write 1 64 1 0xAB].foldl lastWrite (.ofFn 100 fun _ => 0)).cell 64 = 0xAB :=
  ⟨⟨_, rfl, by decide, by decide⟩, _, rfl, by decide, by decide⟩

end DirtyWritebackHandler

end Unheaded.Compute
