import Unheaded.Compute.Staging

/-!
# Cache misses

A handled miss leaves the word that was missed in the map, unless its page does not
lie in the store as a whole, or so many pages are prefetched that the page is evicted
again, or another page with the word is evicted.
-/

namespace Unheaded.Compute

open Lib List BitVec MemoryService MemoryConfig
open BitVec (ofNat)

/-- The calls of the event loop that `Run` starts, and `LoadData`.  Nothing calls
`HandleCacheMissD006` and `StageAllToL1`. -/
inductive MemoryEvent where
  | miss (hopId : BitVec 8) (addr : Addr)
  | write (addr : Addr) (width : Nat) (value : BitVec 32)
  | load (addr : Addr) (data : List Byte)

namespace MemoryService

def step (ms : MemoryService) : MemoryEvent → MemoryService
  | .miss hopId addr => ms.handleCacheMiss hopId addr
  | .write addr width value => ms.handleCacheWrite addr width value
  | .load addr data => ms.loadData addr data

def Staged (ms : MemoryService) (addr : Addr) : Prop :=
  ms.l1 (addr >>> 2) = some (wordAt ms.data (addr.toNat / 4 * 4))

instance (ms : MemoryService) (addr : Addr) : Decidable (ms.Staged addr) :=
  inferInstanceAs (Decidable (_ = _))

/-- The page of the address lies in the store, no more pages are loaded than the map
may hold, a page has no two words under one key, and no other page that is cached or
loaded has the word. -/
structure Stages (ms : MemoryService) (addr : Addr) : Prop where
  fits : (ms.config.alignToPage addr).toNat + ms.config.pageSize ≤ ms.config.ringSize
  few : (ms.config.pages (ms.config.alignToPage addr)).length ≤ ms.config.l1MaxPages
  small : ms.config.wordsPerPage ≤ 2 ^ 32
  apart : ∀ a, a ∈ ms.lruOrder ∨ a ∈ ms.config.pages (ms.config.alignToPage addr) →
    a ≠ ms.config.alignToPage addr → ¬ ms.config.Covers a (addr >>> 2)

end MemoryService

namespace MemoryConfig

variable {cfg : MemoryConfig} {page a addr : Addr} {n i : Nat}

theorem isPage_of_mem (mem : a ∈ cfg.pagesFrom (cfg.alignToPage addr) n i) : cfg.IsPage a := by
  induction n generalizing i with
  | zero => exact absurd mem not_mem_nil
  | succ n ih =>
    rw [pagesFrom, addressesFrom] at mem
    split at mem
    · exact absurd mem not_mem_nil
    case isFalse fits =>
      rcases mem_cons.mp mem with rfl | later
      · exact ⟨⟨addr, i, rfl⟩, Nat.not_lt.mp fits⟩
      · exact ih later

theorem pages_eq (cfg : MemoryConfig) (page : Addr) :
    cfg.pages page = if cfg.ringSize < page.toNat + cfg.pageSize then [] else
      page :: cfg.pagesFrom page cfg.prefetchN 1 := by
  have first : page + ofNat 32 (0 * cfg.pageSize) = page := by
    rw [Nat.zero_mul]
    exact BitVec.add_zero page
  rw [pages, pagesFrom, addressesFrom, first, pagesFrom]

theorem pages_of_fits (fits : page.toNat + cfg.pageSize ≤ cfg.ringSize) :
    cfg.pages page = page :: cfg.pagesFrom page cfg.prefetchN 1 := by
  rw [pages_eq, if_neg (Nat.not_lt.mpr fits)]

theorem pages_of_not_fits (beyond : cfg.ringSize < page.toNat + cfg.pageSize) :
    cfg.pages page = [] := by
  rw [pages_eq, if_pos beyond]

theorem word_of_page (cfg : MemoryConfig) (addr : Addr) :
    ∃ i < cfg.wordsPerPage, (cfg.alignToPage addr >>> 2) + ofNat 32 i = addr >>> 2 ∧
      (cfg.alignToPage addr).toNat + i * 4 = addr.toNat / 4 * 4 := by
  have whole := toNat_mask_add addr (ofNat 32 (cfg.pageSize - 1))
  have low := toNat_mask_le addr (ofNat 32 (cfg.pageSize - 1))
  have aligned := cfg.alignToPage_mod_four addr
  have pos := cfg.page_pos
  have words := cfg.page_words
  rw [toNat_ofNat] at low
  change (cfg.alignToPage addr).toNat + _ = _ at whole
  refine ⟨(addr &&& ofNat 32 (cfg.pageSize - 1)).toNat / 4, ?_, ?_, ?_⟩
  · rw [wordsPerPage]
    omega
  · rw [← toNat_inj, toNat_add, toNat_ushiftRight, toNat_ushiftRight, toNat_ofNat]
    omega
  · omega

end MemoryConfig

namespace MemoryService

variable {ms : MemoryService} {a addr : Addr} {hopId : BitVec 8}

theorem newMemoryService_coherent (cfg : Config) : (newMemoryService cfg).Coherent where
  len := rfl
  distinct := nodup_nil
  table := .nil
  bounded := Nat.zero_le _
  inside := fun _ mem => absurd mem not_mem_nil
  covered := fun _ there => absurd rfl there

section

variable (coherent : ms.Coherent)
include coherent

theorem Coherent.loads (hopId : BitVec 8) {ps : List Addr} (pages : ∀ p ∈ ps, ms.config.IsPage p) :
    (ps.foldl (fun ms page => ms.loadPageToL1 page hopId) ms).Coherent ∧
      (ps.foldl (fun ms page => ms.loadPageToL1 page hopId) ms).config = ms.config ∧
      (ps.foldl (fun ms page => ms.loadPageToL1 page hopId) ms).lruOrder =
        ps.foldl (use ms.config.l1MaxPages) ms.lruOrder := by
  induction ps generalizing ms with
  | nil => exact ⟨coherent, rfl, rfl⟩
  | cons p ps ih =>
    obtain ⟨first, later⟩ := forall_mem_cons.mp pages
    have next := coherent.loadPageToL1 first hopId
    have order := coherent.lruOrder_loadPageToL1 p hopId
    have config := config_loadPageToL1 ms p hopId
    rw [← config] at later
    have rest := ih next later
    rwa [config, order] at rest

theorem Coherent.handleCacheMiss (hopId : BitVec 8) (addr : Addr) :
    (ms.handleCacheMiss hopId addr).Coherent ∧ (ms.handleCacheMiss hopId addr).config = ms.config ∧
      (ms.handleCacheMiss hopId addr).lruOrder =
        (ms.config.pages (ms.config.alignToPage addr)).foldl (use ms.config.l1MaxPages) ms.lruOrder :=
  coherent.loads hopId fun _ mem => isPage_of_mem mem

theorem Coherent.withData {data : Store Byte} (len : data.len = ms.data.len) :
    ({ ms with data := data } : MemoryService).Coherent :=
  { coherent with len := len.trans coherent.len }

theorem Coherent.putBytes (addr : Addr) (bytes : List Byte) :
    (ms.putBytes addr bytes).Coherent ∧ (ms.putBytes addr bytes).config = ms.config := by
  rw [MemoryService.putBytes]
  split
  · exact ⟨coherent.withData (Store.len_blit _ _ _), rfl⟩
  · exact ⟨coherent, rfl⟩

theorem Coherent.markPage (a : Addr) :
    (ms.markPage a).Coherent ∧ (ms.markPage a).config = ms.config := by
  rw [MemoryService.markPage]
  split
  case isFalse => exact ⟨coherent, rfl⟩
  case isTrue hit =>
    have mem := coherent.cached_iff.mp hit
    have order : use ms.config.l1MaxPages ms.lruOrder a = touchLRU ms.lruOrder a := use_of_mem mem
    have same := touchLRU_perm mem
    refine ⟨⟨coherent.len, order ▸ nodup_use coherent.distinct, ?_, ?_, fun x touched => ?_,
      fun key there => ?_⟩, rfl⟩
    · rw [map_pageAddr_update _ a (fun e => { e with dirty := true }) (fun _ => rfl)]
      exact coherent.table.trans same.symm
    · exact same.length_eq ▸ coherent.bounded
    · exact coherent.inside x (same.mem_iff.mp touched)
    · obtain ⟨x, kept, covers⟩ := coherent.covered key there
      exact ⟨x, same.mem_iff.mpr kept, covers⟩

theorem Coherent.handleCacheWrite (addr : Addr) (width : Nat)
    (value : BitVec 32) : (ms.handleCacheWrite addr width value).Coherent ∧
      (ms.handleCacheWrite addr width value).config = ms.config := by
  rw [MemoryService.handleCacheWrite]
  split
  · exact ⟨coherent, rfl⟩
  · obtain ⟨put, config⟩ := coherent.putBytes addr (written width value)
    obtain ⟨marked, config'⟩ := put.markPage (ms.config.alignToPage addr)
    exact ⟨marked, config'.trans config⟩

theorem Coherent.step (event : MemoryEvent) :
    (ms.step event).Coherent ∧ (ms.step event).config = ms.config := by
  cases event with
  | miss hopId addr =>
    obtain ⟨next, config, -⟩ := coherent.handleCacheMiss hopId addr
    exact ⟨next, config⟩
  | write addr width value => exact coherent.handleCacheWrite addr width value
  | load addr data =>
    rw [MemoryService.step, loadData]
    split
    · exact ⟨coherent, rfl⟩
    · exact ⟨coherent.withData (Store.len_blit _ _ _), rfl⟩

end

theorem history_coherent (cfg : Config) (history : List MemoryEvent) :
    (history.foldl step (newMemoryService cfg)).Coherent ∧
      (history.foldl step (newMemoryService cfg)).config = cfg.accepted := by
  induction history using List.reverseRecOn with
  | nil => exact ⟨newMemoryService_coherent cfg, rfl⟩
  | append_singleton history event ih =>
    rw [foldl_append]
    obtain ⟨next, config⟩ := ih.1.step event
    exact ⟨next, config.trans ih.2⟩

/-- The prefetched pages leave a staged word in the map as long as its page is among
the most recently used. -/
theorem Coherent.loads_staged (coherent : ms.Coherent) (hopId : BitVec 8) {page key : Addr} {i : Nat}
    (small : ms.config.wordsPerPage ≤ 2 ^ 32) (word : i < ms.config.wordsPerPage)
    (here : (page >>> 2) + ofNat 32 i = key) (place : page.toNat + i * 4 = key.toNat * 4)
    {ps before after : List Addr} (pages : ∀ p ∈ ps, ms.config.IsPage p)
    (staged : ms.l1 key = some (wordAt ms.data (key.toNat * 4)))
    (apart : ∀ a, a ∈ ms.lruOrder ∨ a ∈ ps → a ≠ page → ¬ ms.config.Covers a key)
    (order : ms.lruOrder = before ++ page :: after)
    (recent : after.length + ps.length < ms.config.l1MaxPages) :
    (ps.foldl (fun ms page => ms.loadPageToL1 page hopId) ms).l1 key =
      some (wordAt (ps.foldl (fun ms page => ms.loadPageToL1 page hopId) ms).data (key.toNat * 4)) := by
  induction ps generalizing ms before after with
  | nil => exact staged
  | cons p ps ih =>
    obtain ⟨first, later⟩ := forall_mem_cons.mp pages
    have distinct := coherent.distinct
    rw [order] at distinct
    rw [length_cons] at recent
    have config := config_loadPageToL1 ms p hopId
    have next := coherent.loadPageToL1 first hopId
    have close : after.length + 1 < ms.config.l1MaxPages := by omega
    obtain ⟨before', after', used, room⟩ := recent_use distinct close p
    have loaded : (ms.loadPageToL1 p hopId).l1 key =
        some (wordAt (ms.loadPageToL1 p hopId).data (key.toNat * 4)) := by
      by_cases same : p = page
      · subst same
        have load := coherent.loadPageToL1_staged hopId first.2 small word
        rwa [here, place] at load
      · have other := apart p (.inr mem_cons_self) same
        obtain ⟨kept, bytes⟩ := coherent.loadPageToL1_word hopId other fun v gone => by
          refine apart v (.inl ?_) (evicted_ne distinct close (order ▸ gone))
          rw [evicted] at gone
          split at gone
          · exact List.mem_of_mem_head? gone
          · cases gone
        rw [kept, bytes]
        exact staged
    refine ih next (config ▸ small) (config ▸ word) (config ▸ later) loaded ?_
      ((coherent.lruOrder_loadPageToL1 p hopId).trans (order ▸ used)) (by rw [config]; omega)
    intro a mem other
    rw [config]
    refine apart a ?_ other
    rcases mem with old | new
    · rw [coherent.lruOrder_loadPageToL1] at old
      rcases mem_use old with rfl | old
      · exact .inr mem_cons_self
      · exact .inl old
    · exact .inr (mem_cons_of_mem p new)

theorem toNat_word (addr : Addr) : (addr >>> 2).toNat * 4 = addr.toNat / 4 * 4 := by
  rw [toNat_ushiftRight, Nat.shiftRight_eq_div_pow]

theorem Coherent.staged_of_stages (coherent : ms.Coherent) (hopId : BitVec 8)
    (stages : ms.Stages addr) : (ms.handleCacheMiss hopId addr).Staged addr := by
  obtain ⟨i, word, here, place⟩ := ms.config.word_of_page addr
  have first : ms.config.IsPage (ms.config.alignToPage addr) :=
    ⟨⟨addr, 0, by rw [Nat.zero_mul]; exact (BitVec.add_zero _).symm⟩, stages.fits⟩
  have loads := pages_of_fits stages.fits
  have few := stages.few
  have apart := stages.apart
  rw [Staged, MemoryService.handleCacheMiss, loads]
  rw [loads] at few apart
  rw [← toNat_word] at place ⊢
  have config := config_loadPageToL1 ms (ms.config.alignToPage addr) hopId
  have order := coherent.lruOrder_loadPageToL1 (ms.config.alignToPage addr) hopId
  have staged := coherent.loadPageToL1_staged hopId first.2 stages.small word
  rw [here, place] at staged
  refine (coherent.loadPageToL1 first hopId).loads_staged hopId (by rw [config]; exact stages.small)
    (by rw [config]; exact word) here place ?_ staged ?_ (order.trans rfl) ?_
  · rw [config]
    exact fun p mem => isPage_of_mem mem
  · intro a mem other
    rw [config]
    refine apart a ?_ other
    rcases mem with old | new
    · rw [order] at old
      exact .inl ((mem_use old).resolve_left other)
    · exact .inr (mem_cons_of_mem _ new)
  · rw [config, length_nil, Nat.zero_add]
    exact few

end MemoryService

namespace MemoryConfig

variable {cfg : MemoryConfig} {page a addr : Addr} {n : Nat}

theorem alignToPage_two_pow (power : cfg.pageSize = 2 ^ n) (small : cfg.pageSize ≤ 2 ^ 32) (addr : Addr) :
    (cfg.alignToPage addr).toNat = addr.toNat / cfg.pageSize * cfg.pageSize := by
  rw [power]
  refine toNat_mask_two_pow ?_
  rw [← power]
  exact Nat.mod_eq_of_lt (by omega)

theorem IsPage.multiple (page : cfg.IsPage a) (power : cfg.pageSize = 2 ^ n)
    (small : cfg.pageSize ≤ 2 ^ 32) : cfg.pageSize ∣ a.toNat := by
  obtain ⟨⟨addr, i, rfl⟩, -⟩ := page
  have whole : cfg.pageSize ∣ 2 ^ 32 := by
    rw [power] at small ⊢
    exact Nat.pow_dvd_pow 2 ((Nat.pow_le_pow_iff_right (by decide)).mp small)
  rw [toNat_add, toNat_ofNat, Nat.add_mod_mod, alignToPage_two_pow power small,
    Nat.dvd_mod_iff whole]
  exact Nat.dvd_add (Nat.dvd_mul_left _ _) (Nat.dvd_mul_left _ _)

theorem IsPage.unique (page : cfg.IsPage a) (power : cfg.pageSize = 2 ^ n)
    (small : cfg.ringSize < 2 ^ 32) (covers : cfg.Covers a (addr >>> 2)) : a = cfg.alignToPage addr := by
  have fits := page.2
  have aligned := page.aligned
  obtain ⟨q, multiple⟩ := page.multiple power (by omega)
  obtain ⟨i, inside, same⟩ := covers
  rw [← toNat_inj, toNat_add, toNat_ushiftRight, toNat_ushiftRight, toNat_ofNat] at same
  rw [wordsPerPage] at inside
  have between : a.toNat ≤ addr.toNat ∧ addr.toNat < a.toNat + cfg.pageSize := by omega
  rw [← toNat_inj, alignToPage_two_pow power (by omega), multiple, Nat.mul_comm]
  rw [multiple] at between
  congr 1
  refine (Nat.div_eq_of_lt_le ?_ ?_).symm
  · rw [Nat.mul_comm]
    exact between.1
  · rw [Nat.succ_mul, Nat.mul_comm q]
    exact between.2

theorem pagesFrom_increasing (small : cfg.ringSize < 2 ^ 32) (count : Nat) {i : Nat}
    (below : page.toNat + i * cfg.pageSize < 2 ^ 32) : (cfg.pagesFrom page count i).Nodup ∧
      ∀ x ∈ cfg.pagesFrom page count i, page.toNat + i * cfg.pageSize ≤ x.toNat := by
  induction count generalizing i with
  | zero => exact ⟨nodup_nil, fun x mem => absurd mem not_mem_nil⟩
  | succ count ih =>
    have place : (page + ofNat 32 (i * cfg.pageSize)).toNat =
        page.toNat + i * cfg.pageSize := by
      rw [toNat_add, toNat_ofNat, Nat.add_mod_mod]
      exact Nat.mod_eq_of_lt below
    rw [pagesFrom, addressesFrom]
    split
    · exact ⟨nodup_nil, fun x mem => absurd mem not_mem_nil⟩
    case isFalse fits =>
      have next : page.toNat + (i + 1) * cfg.pageSize =
          page.toNat + i * cfg.pageSize + cfg.pageSize := by
        rw [Nat.succ_mul, Nat.add_assoc]
      have below' : page.toNat + (i + 1) * cfg.pageSize < 2 ^ 32 := by omega
      obtain ⟨distinct, above⟩ := ih below'
      have pos := cfg.page_pos
      refine ⟨nodup_cons.mpr ⟨fun again => ?_, distinct⟩, forall_mem_cons.mpr ⟨?_, ?_⟩⟩
      · have later := above _ again
        omega
      · exact Nat.le_of_eq place.symm
      · intro x mem
        have later := above x mem
        omega

end MemoryConfig

namespace MemoryService

variable {ms : MemoryService} {addr : Addr} {n : Nat}

theorem Coherent.not_staged (coherent : ms.Coherent) (power : ms.config.pageSize = 2 ^ n)
    (small : ms.config.ringSize < 2 ^ 32) (absent : ms.config.alignToPage addr ∉ ms.lruOrder) :
    ¬ ms.Staged addr := by
  intro staged
  obtain ⟨a, mem, covers⟩ := coherent.covered (addr >>> 2) (by rw [staged]; exact nofun)
  exact absent ((coherent.inside a mem).unique power small covers ▸ mem)

theorem Coherent.stages_of_staged (coherent : ms.Coherent) (hopId : BitVec 8)
    (power : ms.config.pageSize = 2 ^ n) (small : ms.config.ringSize < 2 ^ 32)
    (staged : (ms.handleCacheMiss hopId addr).Staged addr) : ms.Stages addr := by
  obtain ⟨after, config, order⟩ := coherent.handleCacheMiss hopId addr
  have present : ms.config.alignToPage addr ∈ (ms.handleCacheMiss hopId addr).lruOrder := by
    by_contra absent
    rw [← config] at absent power small
    exact after.not_staged power small absent staged
  rw [order] at present
  have fits : (ms.config.alignToPage addr).toNat + ms.config.pageSize ≤ ms.config.ringSize := by
    by_contra beyond
    rw [pages_of_not_fits (Nat.not_le.mp beyond)] at present
    exact beyond (coherent.inside _ present).2
  have loads := pages_of_fits fits
  refine ⟨fits, ?_, ?_, fun a mem other covers => other ?_⟩
  · by_contra many
    rw [loads] at present many
    have pos := ms.config.page_pos
    have below : (ms.config.alignToPage addr).toNat + 1 * ms.config.pageSize < 2 ^ 32 := by omega
    obtain ⟨distinct, above⟩ := pagesFrom_increasing small ms.config.prefetchN below
    refine gone_of_uses _ [] ?_ ?_ ?_ present
    · refine nodup_cons.mpr ⟨fun again => ?_, distinct⟩
      have later := above _ again
      omega
    · exact length_use coherent.bounded ms.config.pages_pos _
    · rw [length_cons] at many
      rw [length_nil]
      omega
  · rw [wordsPerPage]
    omega
  · have page : ms.config.IsPage a := by
      rcases mem with old | new
      · exact coherent.inside a old
      · exact isPage_of_mem new
    exact page.unique power small covers

/-- After any history, a handled miss leaves the missed word in the map if its page
lies in the store, few enough pages are loaded and no other page has the word.  For
pages of a power of two and a store below 4 GiB, only then. -/
theorem miss_staged_iff (cfg : Config) (history : List MemoryEvent) (hopId : BitVec 8) (addr : Addr) :
    let ms := history.foldl step (newMemoryService cfg)
    (ms.Stages addr → (ms.handleCacheMiss hopId addr).Staged addr) ∧
      ∀ n, cfg.accepted.pageSize = 2 ^ n → cfg.accepted.ringSize < 2 ^ 32 →
        ((ms.handleCacheMiss hopId addr).Staged addr ↔ ms.Stages addr) := by
  intro ms
  obtain ⟨coherent, config⟩ := history_coherent cfg history
  refine ⟨coherent.staged_of_stages hopId, fun n power small => ?_⟩
  rw [← config] at power small
  exact ⟨coherent.stages_of_staged hopId power small, coherent.staged_of_stages hopId⟩

/-- The second of four pages, with one page prefetched and room for two. -/
theorem second_page_staged :
    ((newMemoryService ⟨16, 4, 1, 2, 64⟩).loadData 4 [1, 2, 3, 4]).Stages 5 ∧
      (((newMemoryService ⟨16, 4, 1, 2, 64⟩).loadData 4 [1, 2, 3, 4]).handleCacheMiss 0 5).l1 1 =
        some 0x04030201 := by
  have apart (a : Addr) (member : a ∈ [4#32, 8#32]) (other : a ≠ 4#32) :
      ¬ (Config.accepted ⟨16, 4, 1, 2, 64⟩).Covers a 1 := by
    rintro ⟨i, inside, same⟩
    obtain rfl : i = 0 := Nat.lt_one_iff.mp inside
    rcases mem_cons.mp member with first | last
    · exact other first
    · rw [mem_singleton.mp last] at same
      exact absurd same (by decide)
  have stages : ((newMemoryService ⟨16, 4, 1, 2, 64⟩).loadData 4 [1, 2, 3, 4]).Stages 5 := by
    refine ⟨by decide, by decide, Nat.one_le_two_pow, fun a member other => apart a ?_ other⟩
    exact member.elim (fun old => absurd old not_mem_nil) id
  have staged := (miss_staged_iff ⟨16, 4, 1, 2, 64⟩ [.load 4 [1, 2, 3, 4]] 0 5).1 stages
  exact ⟨stages, staged.trans (by decide)⟩

/-- A miss in the part of a page at the end of the store loads nothing, and with room
for one page the prefetched page evicts the missed one. -/
theorem missed_word_not_staged :
    ¬ ((newMemoryService ⟨10, 4, 0, 1, 64⟩).handleCacheMiss 0 9).Staged 9 ∧
      ¬ ((newMemoryService ⟨8, 4, 1, 1, 64⟩).handleCacheMiss 0 0).Staged 0 := by
  constructor
  · decide
  · decide

end MemoryService

end Unheaded.Compute
