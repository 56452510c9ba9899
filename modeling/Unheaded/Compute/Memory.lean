import Unheaded.Lib.Bytes
import Unheaded.Lib.Recency
import Unheaded.Lib.Store

/-!
# The memory service

`MemoryService` is the second level of a memory: a byte store whose pages are staged as words into
a map, the first level.
-/

namespace Unheaded.Compute

open Lib
open BitVec (ofNat)

abbrev Byte := BitVec 8

abbrev Addr := BitVec 32

/-- The sizes of `Config`. -/
structure Config where
  ringSize : Int
  pageSize : Int
  prefetchN : Int
  l1MaxPages : Int
  cacheLineSize : Int
  deriving DecidableEq

def defaultRingSize : Nat := 4 * 1024 * 1024

def defaultPageSize : Nat := 4096

def defaultPrefetchN : Nat := 2

def defaultL1MaxPages : Nat := 256

def defaultCacheLineSize : Nat := 64

/-- A configuration that `NewMemoryService` leaves unchanged. -/
structure MemoryConfig where
  ringSize : Nat
  pageSize : Nat
  prefetchN : Nat
  l1MaxPages : Nat
  cacheLineSize : Nat
  ring_pos : 0 < ringSize
  page_pos : 0 < pageSize
  page_words : pageSize % 4 = 0
  pages_pos : 0 < l1MaxPages
  line_pos : 0 < cacheLineSize

def positiveOr (size : Int) (default : Nat) : Nat := if size ≤ 0 then default else size.toNat

theorem positiveOr_pos (size : Int) {default : Nat} (pos : 0 < default) :
    0 < positiveOr size default := by
  rw [positiveOr]
  split
  · exact pos
  · omega

/-- The configuration that `NewMemoryService` uses. -/
def Config.accepted (cfg : Config) : MemoryConfig where
  ringSize := positiveOr cfg.ringSize defaultRingSize
  pageSize :=
    if cfg.pageSize ≤ 0 ∨ cfg.pageSize % 4 ≠ 0 then defaultPageSize else cfg.pageSize.toNat
  prefetchN := if cfg.prefetchN < 0 then defaultPrefetchN else cfg.prefetchN.toNat
  l1MaxPages := positiveOr cfg.l1MaxPages defaultL1MaxPages
  cacheLineSize := positiveOr cfg.cacheLineSize defaultCacheLineSize
  ring_pos := positiveOr_pos _ (by decide)
  page_pos := by
    split
    · decide
    · omega
  page_words := by
    split
    · decide
    · omega
  pages_pos := positiveOr_pos _ (by decide)
  line_pos := positiveOr_pos _ (by decide)

/-- `binary.LittleEndian.Uint32`. -/
def wordAt (data : Store Byte) (off : Nat) : BitVec 32 :=
  wordOfBytes (data.getD (off + 3) 0) (data.getD (off + 2) 0) (data.getD (off + 1) 0)
    (data.getD off 0)

/-- The words from an address on; a word that is not in the store as a whole is 0. -/
def wordsFrom (data : Store Byte) (addr : Addr) (count : Nat) : List (BitVec 32) :=
  (List.range count).map fun i =>
    if addr.toNat + i * 4 + 4 ≤ data.len then wordAt data (addr.toNat + i * 4) else 0

/-- The low `size` bytes of a word, least significant first. -/
def bytesOf (value : BitVec 32) (size : Nat) : List Byte := (List.range size).map (byteOf value)

abbrev BpfMap := Addr → Option (BitVec 32)

namespace BpfMap

def write (l1 : BpfMap) (key : Addr) (word : BitVec 32) : BpfMap := fun k =>
  if k = key then some word else l1 k

def writePage (l1 : BpfMap) (start : Addr) : List (BitVec 32) → BpfMap
  | [] => l1
  | word :: words => (l1.write start word).writePage (start + 1) words

/-- `DeleteWord`. -/
def delete (l1 : BpfMap) (key : Addr) : BpfMap := fun k => if k = key then none else l1 k

/-- The loop of `evictLRU` from word `start` on. -/
def deletePage (l1 : BpfMap) (start : Addr) : Nat → BpfMap
  | 0 => l1
  | n + 1 => (l1.delete start).deletePage (start + 1) n

end BpfMap

structure PageEntry where
  pageAddr : Addr
  hopId : BitVec 8
  dirty : Bool
  deriving DecidableEq

/-- `pageTable` are the values of the page table and `lruOrder` the addresses of the
same entries, most recently used at the end. -/
structure MemoryService where
  config : MemoryConfig
  data : Store Byte
  pageTable : List PageEntry
  lruOrder : List Addr
  l1 : BpfMap

def newMemoryService (cfg : Config) : MemoryService :=
  ⟨cfg.accepted, .ofFn cfg.accepted.ringSize fun _ => 0, [], [], fun _ => none⟩

variable (cfg : MemoryConfig)

def MemoryConfig.alignToPage (addr : Addr) : Addr :=
  addr &&& ~~~(ofNat 32 (cfg.pageSize - 1))

def MemoryConfig.wordsPerPage : Nat := cfg.pageSize / 4

/-- The addresses of a loop of the handlers, from turn `i` on: every `size` bytes, up
to the first that does not lie in the store with its `size` bytes. -/
def addressesFrom (size ringSize : Nat) (start : Addr) : Nat → Nat → List Addr
  | 0, _ => []
  | n + 1, i =>
    let addr := start + ofNat 32 (i * size)
    if ringSize < addr.toNat + size then [] else addr :: addressesFrom size ringSize start n (i + 1)

/-- The pages that `HandleCacheMiss` loads. -/
def MemoryConfig.pagesFrom (pageAddr : Addr) (n i : Nat) : List Addr :=
  addressesFrom cfg.pageSize cfg.ringSize pageAddr n i

def MemoryConfig.pages (pageAddr : Addr) : List Addr :=
  cfg.pagesFrom pageAddr (cfg.prefetchN + 1) 0

namespace MemoryService

/-- `touchLRU`; an entry that is not found is appended. -/
def touchLRU (lruOrder : List Addr) (pageAddr : Addr) : List Addr := lruOrder.erase pageAddr ++ [pageAddr]

variable (ms : MemoryService)

def cached (pageAddr : Addr) : Bool :=
  ms.pageTable.any fun e => e.pageAddr = pageAddr

/-- The loop of `writeBackPage` over the first `n` words. -/
def writeBackWords (l1 : BpfMap) (pageAddr : Addr) (data : Store Byte) : Nat → Store Byte
  | 0 => data
  | n + 1 =>
    let data := writeBackWords l1 pageAddr data n
    let word := (l1 ((pageAddr >>> 2) + ofNat 32 n)).getD 0
    let byteOff := pageAddr.toNat + n * 4
    if byteOff + 4 ≤ data.len then data.blit byteOff (bytesOf word 4) else data

def evictLRU : MemoryService :=
  match ms.lruOrder with
  | [] => ms
  | victim :: rest =>
    let dirty := ms.pageTable.any fun e => e.pageAddr = victim && e.dirty
    { ms with
      data :=
        if dirty then writeBackWords ms.l1 victim ms.data ms.config.wordsPerPage else ms.data
      l1 := ms.l1.deletePage (victim >>> 2) ms.config.wordsPerPage
      pageTable := ms.pageTable.filter fun e => e.pageAddr ≠ victim
      lruOrder := rest }

def words (pageAddr : Addr) : List (BitVec 32) :=
  wordsFrom ms.data pageAddr ms.config.wordsPerPage

/-- The eviction of `loadPageToL1`. -/
def makeRoom (pageAddr : Addr) : MemoryService :=
  if ms.cached pageAddr = false ∧ ms.config.l1MaxPages ≤ ms.pageTable.length then ms.evictLRU else ms

def loadPageToL1 (pageAddr : Addr) (hopId : BitVec 8) : MemoryService :=
  let ms := ms.makeRoom pageAddr
  let ms := { ms with l1 := ms.l1.writePage (pageAddr >>> 2) (ms.words pageAddr) }
  if ms.cached pageAddr then
    { ms with
      pageTable := ms.pageTable.map fun e => if e.pageAddr = pageAddr then { e with hopId := hopId } else e
      lruOrder := touchLRU ms.lruOrder pageAddr }
  else
    { ms with
      pageTable := ms.pageTable ++ [⟨pageAddr, hopId, false⟩]
      lruOrder := ms.lruOrder ++ [pageAddr] }

def handleCacheMiss (hopId : BitVec 8) (addr : Addr) : MemoryService :=
  (ms.config.pages (ms.config.alignToPage addr)).foldl (fun ms page => ms.loadPageToL1 page hopId) ms

/-- `HandleCacheMissD006`: cache lines go into the map without an entry. -/
def handleCacheMissD006 (lineAddr : Addr) : MemoryService :=
  let size := ms.config.cacheLineSize
  let first := lineAddr &&& ~~~(ofNat 32 (size - 1))
  { ms with
    l1 := (addressesFrom size ms.config.ringSize first (1 + ms.config.prefetchN) 0).foldl
      (fun l1 (addr : Addr) =>
        BpfMap.writePage l1 (addr >>> 2) (wordsFrom ms.data addr (size / 4))) ms.l1 }

def written (width : Nat) (value : BitVec 32) : List Byte :=
  if width = 1 ∨ width = 2 ∨ width = 4 then bytesOf value width else []

def putBytes (addr : Addr) (bytes : List Byte) : MemoryService :=
  if addr.toNat + bytes.length ≤ ms.data.len then { ms with data := ms.data.blit addr.toNat bytes }
  else ms

/-- A cached page becomes dirty. -/
def markPage (pageAddr : Addr) : MemoryService :=
  if ms.cached pageAddr then
    { ms with
      pageTable := ms.pageTable.map fun e => if e.pageAddr = pageAddr then { e with dirty := true } else e
      lruOrder := touchLRU ms.lruOrder pageAddr }
  else ms

def handleCacheWrite (addr : Addr) (width : Nat) (value : BitVec 32) : MemoryService :=
  if ms.config.ringSize ≤ addr.toNat then ms
  else (ms.putBytes addr (written width value)).markPage (ms.config.alignToPage addr)

/-- `LoadData`; data that does not fit is refused. -/
def loadData (addr : Addr) (data : List Byte) : MemoryService :=
  if ms.config.ringSize < addr.toNat + data.length then ms
  else { ms with data := ms.data.blit addr.toNat data }

end MemoryService

end Unheaded.Compute
