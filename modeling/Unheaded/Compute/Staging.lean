import Unheaded.Compute.Memory

/-!
# Pages in the first level

What an eviction and the load of a page do to one word of the map and to its bytes
in the store, and the invariant of the page table.
-/

namespace Unheaded.Compute

open Lib List
open BitVec (ofNat)

namespace BpfMap

variable {l1 : BpfMap} {start key : Addr}

theorem add_ofNat_succ (start : Addr) (i : Nat) :
    start + ofNat 32 (i + 1) = start + 1 + ofNat 32 i := by
  rw [BitVec.ofNat_add, BitVec.add_comm (ofNat 32 i), ← BitVec.add_assoc]
  rfl

variable {words : List (BitVec 32)}

theorem writePage_of_ne (outside : ∀ i < words.length, start + ofNat 32 i ≠ key) :
    l1.writePage start words key = l1 key := by
  induction words generalizing l1 start with
  | nil => rfl
  | cons word words ih =>
    rw [writePage, ih]
    · have first := outside 0 (Nat.succ_pos _)
      rw [BitVec.add_zero] at first
      exact if_neg first.symm
    · intro i inside
      rw [← add_ofNat_succ]
      exact outside (i + 1) (Nat.succ_lt_succ inside)

theorem writePage_get (small : words.length ≤ 2 ^ 32) {i : Nat} {word : BitVec 32}
    (there : words[i]? = some word) :
    l1.writePage start words (start + ofNat 32 i) = some word := by
  induction words generalizing l1 start i with
  | nil => cases there
  | cons first words ih =>
    rw [length_cons] at small
    cases i with
    | zero =>
      cases there
      rw [writePage, BitVec.add_zero, writePage_of_ne]
      · exact if_pos rfl
      · intro i inside same
        rw [← add_ofNat_succ, ← BitVec.toNat_inj, BitVec.toNat_add, BitVec.toNat_ofNat] at same
        omega
    | succ i =>
      rw [add_ofNat_succ]
      exact ih (Nat.le_of_succ_le small) there

theorem deletePage_of_ne {n : Nat} (outside : ∀ i < n, start + ofNat 32 i ≠ key) :
    l1.deletePage start n key = l1 key := by
  induction n generalizing l1 start with
  | zero => rfl
  | succ n ih =>
    rw [deletePage, ih]
    · have first := outside 0 (Nat.succ_pos _)
      rw [BitVec.add_zero] at first
      exact if_neg first.symm
    · intro i inside
      rw [← add_ofNat_succ]
      exact outside (i + 1) (Nat.succ_lt_succ inside)

theorem deletePage_none {n : Nat} (gone : l1 key = none ∨ ∃ i < n, start + ofNat 32 i = key) :
    l1.deletePage start n key = none := by
  induction n generalizing l1 start with
  | zero =>
    rcases gone with gone | ⟨i, inside, -⟩
    · exact gone
    · exact absurd inside (Nat.not_lt_zero i)
  | succ n ih =>
    refine ih ?_
    rcases gone with gone | ⟨i, inside, same⟩
    · refine .inl ?_
      rw [delete, gone, ite_self]
    · cases i with
      | zero =>
        rw [BitVec.add_zero] at same
        exact .inl (if_pos same.symm)
      | succ i =>
        rw [add_ofNat_succ] at same
        exact .inr ⟨i, Nat.lt_of_succ_lt_succ inside, same⟩

end BpfMap

section Bytes

variable {data data' : Store Byte} {off : Nat}

theorem wordAt_congr (len : data'.len = data.len)
    (same : ∀ k < 4, data'.cell (off + k) = data.cell (off + k)) : wordAt data' off = wordAt data off := by
  have byte (k : Nat) (inside : k < 4) : data'.getD (off + k) 0 = data.getD (off + k) 0 := by
    rw [Store.getD, Store.getD, len, same k inside]
  have first := byte 0 (by decide)
  rw [Nat.add_zero] at first
  rw [wordAt, wordAt, byte 3 (by decide), byte 2 (by decide), byte 1 (by decide), first]

open MemoryService

@[simp] theorem len_writeBackWords (l1 : BpfMap) (page : Addr) (data : Store Byte) (n : Nat) :
    (writeBackWords l1 page data n).len = data.len := by
  induction n with
  | zero => rfl
  | succ n ih =>
    rw [writeBackWords]
    split
    · rw [Store.len_blit, ih]
    · exact ih

theorem cell_writeBackWords {l1 : BpfMap} {page : Addr} {n b : Nat}
    (outside : ∀ i < n, b < page.toNat + i * 4 ∨ page.toNat + i * 4 + 4 ≤ b) :
    (writeBackWords l1 page data n).cell b = data.cell b := by
  induction n with
  | zero => rfl
  | succ n ih =>
    have before := ih fun i inside => outside i (Nat.lt_succ_of_lt inside)
    rw [writeBackWords]
    split
    · rw [Store.cell_blit_of_outside, before]
      exact outside n (Nat.lt_succ_self n)
    · exact before

end Bytes

variable (cfg : MemoryConfig)

def MemoryConfig.IsPage (a : Addr) : Prop :=
  (∃ addr i, a = cfg.alignToPage addr + ofNat 32 (i * cfg.pageSize)) ∧
    a.toNat + cfg.pageSize ≤ cfg.ringSize

theorem MemoryConfig.alignToPage_mod_four (addr : Addr) : (cfg.alignToPage addr).toNat % 4 = 0 := by
  refine toNat_mask_mod_four ?_
  have pos := cfg.page_pos
  have words := cfg.page_words
  rw [BitVec.toNat_ofNat]
  omega

theorem MemoryConfig.IsPage.aligned {cfg : MemoryConfig} {a : Addr} (page : cfg.IsPage a) :
    a.toNat % 4 = 0 := by
  obtain ⟨⟨addr, i, rfl⟩, -⟩ := page
  have first := cfg.alignToPage_mod_four addr
  obtain ⟨k, later⟩ : 4 ∣ i * cfg.pageSize := Dvd.dvd.mul_left (Nat.dvd_of_mod_eq_zero cfg.page_words) i
  rw [BitVec.toNat_add, BitVec.toNat_ofNat]
  omega

/-- The word `key` belongs to the page. -/
def MemoryConfig.Covers (page key : Addr) : Prop :=
  ∃ i < cfg.wordsPerPage, (page >>> 2) + ofNat 32 i = key

namespace MemoryService

/-- The page table and the order of use have the same pages, which lie in the store,
and every word of the map is of one of them. -/
structure Coherent (ms : MemoryService) : Prop where
  len : ms.data.len = ms.config.ringSize
  distinct : ms.lruOrder.Nodup
  table : (ms.pageTable.map PageEntry.pageAddr).Perm ms.lruOrder
  bounded : ms.lruOrder.length ≤ ms.config.l1MaxPages
  inside : ∀ a ∈ ms.lruOrder, ms.config.IsPage a
  covered : ∀ key, ms.l1 key ≠ none → ∃ a ∈ ms.lruOrder, ms.config.Covers a key

section Pages

variable {ms : MemoryService} {a v key : Addr} {rest : List Addr}

theorem Coherent.cached_iff (coherent : ms.Coherent) : ms.cached a = true ↔ a ∈ ms.lruOrder := by
  rw [cached, List.any_eq_true, ← coherent.table.mem_iff, List.mem_map]
  exact exists_congr fun e => and_congr_right fun _ => decide_eq_true_iff

theorem Coherent.length_table (coherent : ms.Coherent) : ms.pageTable.length = ms.lruOrder.length := by
  rw [← coherent.table.length_eq, length_map]

theorem evictLRU_eq (order : ms.lruOrder = v :: rest) : ∃ data, ms.evictLRU = { ms with
          data := data
          l1 := ms.l1.deletePage (v >>> 2) ms.config.wordsPerPage
          pageTable := ms.pageTable.filter fun e => e.pageAddr ≠ v
          lruOrder := rest } ∧
      (data = ms.data ∨ data = writeBackWords ms.l1 v ms.data ms.config.wordsPerPage) := by
  rw [evictLRU, order]
  refine ⟨_, rfl, ?_⟩
  split
  · exact .inr rfl
  · exact .inl rfl

theorem Coherent.evictLRU (coherent : ms.Coherent) (order : ms.lruOrder = v :: rest) :
    ms.evictLRU.Coherent := by
  obtain ⟨data, next, written⟩ := evictLRU_eq order
  have distinct := coherent.distinct
  have bounded := coherent.bounded
  rw [order] at distinct bounded
  obtain ⟨absent, distinct⟩ := nodup_cons.mp distinct
  rw [next]
  refine ⟨?_, distinct, ?_, Nat.le_of_succ_le bounded, fun a mem => ?_, fun key there => ?_⟩
  · rcases written with rfl | rfl
    · exact coherent.len
    · exact (len_writeBackWords _ _ _ _).trans coherent.len
  · have others : (v :: rest).filter (fun a => a ≠ v) = rest := by
      rw [filter_cons_of_neg, filter_eq_self]
      · exact fun a mem => decide_eq_true fun same => absent (same ▸ mem)
      · exact fun other => of_decide_eq_true other rfl
    have table := coherent.table.filter fun a => a ≠ v
    rwa [order, others, List.filter_map] at table
  · exact coherent.inside a (order ▸ mem_cons_of_mem v mem)
  · change ms.l1.deletePage _ _ key ≠ none at there
    have outside : ¬ ms.config.Covers v key := fun covers =>
      there (BpfMap.deletePage_none (.inr covers))
    rw [BpfMap.deletePage_of_ne fun i inside same => outside ⟨i, inside, same⟩] at there
    obtain ⟨a, mem, covers⟩ := coherent.covered key there
    rw [order] at mem
    rcases mem_cons.mp mem with rfl | kept
    · exact absurd covers outside
    · exact ⟨a, kept, covers⟩

theorem Coherent.evictLRU_word (coherent : ms.Coherent) (order : ms.lruOrder = v :: rest)
    (outside : ¬ ms.config.Covers v key) : ms.evictLRU.l1 key = ms.l1 key ∧
      wordAt ms.evictLRU.data (key.toNat * 4) = wordAt ms.data (key.toNat * 4) := by
  obtain ⟨data, next, written⟩ := evictLRU_eq order
  rw [next]
  refine ⟨BpfMap.deletePage_of_ne fun i inside same => outside ⟨i, inside, same⟩, ?_⟩
  rcases written with rfl | rfl
  · rfl
  · refine wordAt_congr (len_writeBackWords _ _ _ _) fun k small => cell_writeBackWords fun i inside => ?_
    have aligned := (coherent.inside v (order ▸ mem_cons_self)).aligned
    -- two words of four bytes each are the same or apart
    by_contra overlap
    refine outside ⟨i, inside, ?_⟩
    rw [← BitVec.toNat_inj, BitVec.toNat_add, BitVec.toNat_ushiftRight, BitVec.toNat_ofNat]
    omega

theorem Coherent.makeRoom_cases (coherent : ms.Coherent) (a : Addr) :
    (evicted ms.config.l1MaxPages ms.lruOrder a = none ∧ ms.makeRoom a = ms ∧
        use ms.config.l1MaxPages ms.lruOrder a = touchLRU ms.lruOrder a) ∨
      ∃ v rest, ms.lruOrder = v :: rest ∧ a ∉ ms.lruOrder ∧
        evicted ms.config.l1MaxPages ms.lruOrder a = some v ∧ ms.makeRoom a = ms.evictLRU ∧
        use ms.config.l1MaxPages ms.lruOrder a = rest ++ [a] := by
  have same : (ms.cached a = false ∧ ms.config.l1MaxPages ≤ ms.pageTable.length) ↔
      (a ∉ ms.lruOrder ∧ ms.config.l1MaxPages ≤ ms.lruOrder.length) := by
    rw [← Bool.not_eq_true, coherent.cached_iff, coherent.length_table]
  by_cases full : a ∉ ms.lruOrder ∧ ms.config.l1MaxPages ≤ ms.lruOrder.length
  · refine .inr ?_
    rw [evicted, if_pos full, makeRoom, if_pos (same.mpr full), use_of_full full.1 full.2]
    cases order : ms.lruOrder with
    | nil =>
      have some := full.2
      rw [order] at some
      exact absurd some (Nat.not_le.mpr ms.config.pages_pos)
    | cons v rest => exact ⟨v, rest, rfl, order ▸ full.1, rfl, rfl, rfl⟩
  · refine .inl ⟨if_neg full, if_neg fun space => full (same.mp space), ?_⟩
    rw [use, if_neg full]
    rfl

theorem Coherent.makeRoom (coherent : ms.Coherent) (a : Addr) : (ms.makeRoom a).Coherent := by
  rcases coherent.makeRoom_cases a with ⟨-, room, -⟩ | ⟨v, rest, order, -, -, room, -⟩
  · rw [room]
    exact coherent
  · rw [room]
    exact coherent.evictLRU order

@[simp] theorem config_makeRoom (ms : MemoryService) (a : Addr) : (ms.makeRoom a).config = ms.config := by
  rw [MemoryService.makeRoom]
  split
  · rw [MemoryService.evictLRU]
    split <;> rfl
  · rfl

theorem map_pageAddr_update (table : List PageEntry) (a : Addr) (update : PageEntry → PageEntry)
    (same : ∀ e, (update e).pageAddr = e.pageAddr) :
    (table.map fun e => if e.pageAddr = a then update e else e).map PageEntry.pageAddr =
      table.map PageEntry.pageAddr := by
  rw [List.map_map]
  refine map_congr_left fun e _ => ?_
  rw [Function.comp_apply]
  split
  · exact same e
  · rfl

theorem touchLRU_perm {order : List Addr} (mem : a ∈ order) : (touchLRU order a).Perm order :=
  (perm_append_singleton _ _).trans (perm_cons_erase mem).symm

theorem Coherent.loadPageToL1_eq (coherent : ms.Coherent) (a : Addr) (hopId : BitVec 8) :
    ∃ pageTable, ms.loadPageToL1 a hopId = { ms.makeRoom a with
          l1 := (ms.makeRoom a).l1.writePage (a >>> 2) ((ms.makeRoom a).words a)
          pageTable := pageTable
          lruOrder := use ms.config.l1MaxPages ms.lruOrder a } ∧
      (pageTable.map PageEntry.pageAddr).Perm (use ms.config.l1MaxPages ms.lruOrder a) := by
  have room := coherent.makeRoom a
  have table := room.table
  have known := room.cached_iff (a := a)
  have order : (if a ∈ (ms.makeRoom a).lruOrder then touchLRU (ms.makeRoom a).lruOrder a
      else (ms.makeRoom a).lruOrder ++ [a]) = use ms.config.l1MaxPages ms.lruOrder a := by
    rcases coherent.makeRoom_cases a with ⟨-, same, used⟩ | ⟨v, rest, order, new, -, next, used⟩
    · rw [same, used]
      split
      · rfl
      case isFalse new => rw [touchLRU, erase_of_not_mem new]
    · obtain ⟨data, evicted, -⟩ := evictLRU_eq order
      rw [order, mem_cons, not_or] at new
      rw [next, evicted, used]
      exact if_neg new.2
  by_cases mem : a ∈ (ms.makeRoom a).lruOrder
  · rw [if_pos mem] at order
    have hit : ({ ms.makeRoom a with
        l1 := (ms.makeRoom a).l1.writePage (a >>> 2) ((ms.makeRoom a).words a) } :
        MemoryService).cached a = true := known.mpr mem
    refine ⟨_, (if_pos hit).trans (by rw [← order]), ?_⟩
    rw [map_pageAddr_update _ a (fun e => { e with hopId := hopId }) (fun _ => rfl), ← order]
    exact table.trans (touchLRU_perm mem).symm
  · rw [if_neg mem] at order
    have miss : ¬ ({ ms.makeRoom a with
        l1 := (ms.makeRoom a).l1.writePage (a >>> 2) ((ms.makeRoom a).words a) } :
        MemoryService).cached a = true := fun hit => mem (known.mp hit)
    refine ⟨_, (if_neg miss).trans (by rw [← order]), ?_⟩
    rw [map_append, ← order]
    exact table.append_right _

theorem Coherent.loadPageToL1 (coherent : ms.Coherent) (page : ms.config.IsPage a) (hopId : BitVec 8) :
    (ms.loadPageToL1 a hopId).Coherent := by
  have room := coherent.makeRoom a
  obtain ⟨pageTable, next, table⟩ := coherent.loadPageToL1_eq a hopId
  rw [next]
  refine ⟨room.len, nodup_use coherent.distinct, table, ?_, fun x mem => ?_, fun key there => ?_⟩
  · rw [config_makeRoom]
    exact length_use coherent.bounded ms.config.pages_pos a
  · rw [config_makeRoom]
    rcases mem_use mem with rfl | old
    · exact page
    · exact coherent.inside x old
  · change (ms.makeRoom a).l1.writePage _ _ key ≠ none at there
    rw [config_makeRoom]
    by_cases covers : ms.config.Covers a key
    · exact ⟨a, mem_append_right _ (mem_singleton_self a), covers⟩
    · rw [BpfMap.writePage_of_ne] at there
      · obtain ⟨x, mem, covers'⟩ := room.covered key there
        rw [config_makeRoom] at covers'
        refine ⟨x, ?_, covers'⟩
        have other : x ≠ a := by
          rintro rfl
          exact covers covers'
        rcases coherent.makeRoom_cases a with ⟨-, same, used⟩ | ⟨v, rest, order, -, -, evicts, used⟩
        · rw [same] at mem
          rw [used]
          exact mem_append_left _ ((mem_erase_of_ne other).mpr mem)
        · obtain ⟨data, evicted, -⟩ := evictLRU_eq order
          rw [evicts, evicted] at mem
          rw [used]
          exact mem_append_left _ mem
      · intro i inside same
        rw [words, wordsFrom, length_map, length_range, config_makeRoom] at inside
        exact covers ⟨i, inside, same⟩

@[simp] theorem config_loadPageToL1 (ms : MemoryService) (a : Addr) (hopId : BitVec 8) :
    (ms.loadPageToL1 a hopId).config = ms.config := by
  rw [MemoryService.loadPageToL1]
  split <;> exact config_makeRoom ms a

theorem Coherent.lruOrder_loadPageToL1 (coherent : ms.Coherent) (a : Addr) (hopId : BitVec 8) :
    (ms.loadPageToL1 a hopId).lruOrder = use ms.config.l1MaxPages ms.lruOrder a := by
  obtain ⟨pageTable, next, -⟩ := coherent.loadPageToL1_eq a hopId
  rw [next]

theorem Coherent.loadPageToL1_word (coherent : ms.Coherent) (hopId : BitVec 8)
    (other : ¬ ms.config.Covers a key)
    (kept : ∀ v, evicted ms.config.l1MaxPages ms.lruOrder a = some v → ¬ ms.config.Covers v key) :
    (ms.loadPageToL1 a hopId).l1 key = ms.l1 key ∧
      wordAt (ms.loadPageToL1 a hopId).data (key.toNat * 4) = wordAt ms.data (key.toNat * 4) := by
  have room : (ms.makeRoom a).l1 key = ms.l1 key ∧
      wordAt (ms.makeRoom a).data (key.toNat * 4) = wordAt ms.data (key.toNat * 4) := by
    rcases coherent.makeRoom_cases a with ⟨-, same, -⟩ | ⟨v, rest, order, -, gone, evicts, -⟩
    · rw [same]
      exact ⟨rfl, rfl⟩
    · rw [evicts]
      exact coherent.evictLRU_word order (kept v gone)
  obtain ⟨pageTable, next, -⟩ := coherent.loadPageToL1_eq a hopId
  rw [next]
  refine ⟨?_, room.2⟩
  change (ms.makeRoom a).l1.writePage _ _ key = _
  rw [BpfMap.writePage_of_ne, room.1]
  intro i inside same
  rw [words, wordsFrom, length_map, length_range, config_makeRoom] at inside
  exact other ⟨i, inside, same⟩

theorem Coherent.loadPageToL1_staged (coherent : ms.Coherent) (hopId : BitVec 8)
    (fits : a.toNat + ms.config.pageSize ≤ ms.config.ringSize)
    (small : ms.config.wordsPerPage ≤ 2 ^ 32) {i : Nat} (inside : i < ms.config.wordsPerPage) :
    (ms.loadPageToL1 a hopId).l1 ((a >>> 2) + ofNat 32 i) =
      some (wordAt (ms.loadPageToL1 a hopId).data (a.toNat + i * 4)) := by
  have room := coherent.makeRoom a
  obtain ⟨pageTable, next, -⟩ := coherent.loadPageToL1_eq a hopId
  rw [next]
  refine BpfMap.writePage_get ?_ ?_
  · rw [words, wordsFrom, length_map, length_range, config_makeRoom]
    exact small
  · have within : a.toNat + i * 4 + 4 ≤ (ms.makeRoom a).data.len := by
      rw [room.len, config_makeRoom]
      rw [MemoryConfig.wordsPerPage] at inside
      omega
    rw [words, wordsFrom, List.getElem?_map, List.getElem?_range (by rw [config_makeRoom]; exact inside)]
    exact congrArg some (if_pos within)

end Pages

end MemoryService

end Unheaded.Compute
