import Unheaded.Lib.Schedules
import Unheaded.Wotan.WalStore

/-!
# Deleted messages of the store

A deleted message is gone from the hot cache, the index and PostgreSQL, and stays in the log and
in the copy of a flush under way.
-/

namespace Unheaded.Wotan.WalStore

open Lib List Option PgStore WalStore

def Forgets (s : WalStore) : Prop := ∀ id ∈ s.deleted, ∀ m, s.get id ≠ .ok m

/-- A delete finds its message in the row of the id as in the hot cache, the flusher
pushes no deleted message while the store is open, and the store is opened again
without a deleted message in the rows or in the part of the log that is read back. -/
def Settled (s : WalStore) : StoreStep → Prop
  | .delete id creatorId content =>
    s.closed = false → (∃ m ∈ s.hot, m.Matches id creatorId content) →
      ∀ rows ∈ s.pg, ∀ r ∈ rows, r.id = id → r.Matches id creatorId content
  | .flushNext =>
    s.closed = false → ∀ msg ∈ s.flusher.head?, msg.validate = true → msg.id ∉ s.deleted
  | .reopen =>
    match s.pg with
    | some rows => (∀ r ∈ rows, r.id ∉ s.deleted) ∧
        ∀ m ∈ s.wal.drop (s.wal.length - s.hotSize), m.id ∉ s.deleted
    | none => ∀ m ∈ s.wal, m.id ∉ s.deleted
  | _ => True

/-- The id is in none of the places where `Get` looks. -/
structure Gone (s : WalStore) (id : Uuid) : Prop where
  hot : ∀ m ∈ s.hot, m.id ≠ id
  rows : ∀ rows ∈ s.pg, ∀ r ∈ rows, r.id ≠ id
  index : s.pg = none → s.index id = none

/-- Without PostgreSQL there is no flusher. -/
structure Running (s : WalStore) : Prop extends s.Kept where
  idle : s.pg = none → s.flusher = .idle

instance (s : WalStore) : (event : StoreStep) → Decidable (s.Settled event)
  | .delete id creatorId content => inferInstanceAs (Decidable (s.closed = false →
      (∃ m ∈ s.hot, m.Matches id creatorId content) →
        ∀ rows ∈ s.pg, ∀ r ∈ rows, r.id = id → r.Matches id creatorId content))
  | .flushNext => inferInstanceAs (Decidable (s.closed = false → ∀ msg ∈ s.flusher.head?,
      msg.validate = true → msg.id ∉ s.deleted))
  | .reopen =>
    match configured : s.pg with
    | some rows => decidable_of_iff ((∀ r ∈ rows, r.id ∉ s.deleted) ∧
        ∀ m ∈ s.wal.drop (s.wal.length - s.hotSize), m.id ∉ s.deleted) (by rw [Settled, configured])
    | none => decidable_of_iff (∀ m ∈ s.wal, m.id ∉ s.deleted) (by rw [Settled, configured])
  | .push _ | .flush | .lastFlush | .close => isTrue trivial

section Get

variable {s s' : WalStore} {id : Uuid} {event : StoreStep}

theorem find?_ids_none {messages : List StoredMessage} :
    messages.find? (fun m => m.id = id) = none ↔ ∀ m ∈ messages, m.id ≠ id := by
  rw [List.find?_eq_none]
  exact forall₂_congr fun m _ => not_congr decide_eq_true_iff

theorem get_fails_iff (kept : s.Kept) (opened : s.closed = false) :
    (∀ m, s.get id ≠ .ok m) ↔ s.Gone id := by
  have running : ¬ s.closed = true := by
    rw [opened]
    exact Bool.false_ne_true
  rw [get, if_neg running]
  cases cached : s.hot.find? fun m => m.id = id with
  | some m =>
    refine iff_of_false (fun fails => fails m rfl) fun gone => ?_
    simp [find?_ids_none.mpr gone.hot] at cached
  | none =>
    have cold := find?_ids_none.mp cached
    cases configured : s.pg with
    | some rows =>
      cases stored : rows.find? fun r => r.id = id with
      | some r =>
        refine iff_of_false (fun fails => fails r ?_) fun gone => ?_
        · change PgStore.get rows id = .ok r
          rw [PgStore.get, stored]
        · simp [find?_ids_none.mpr (gone.rows rows configured)] at stored
      | none =>
        refine iff_of_true (fun m ok => ?_) ⟨cold, ?_, ?_⟩
        · change PgStore.get rows id = .ok m at ok
          simp [PgStore.get, stored] at ok
        · intro rows' same
          rw [configured, mem_some_iff] at same
          exact same ▸ find?_ids_none.mp stored
        · intro missing
          simp [configured] at missing
    | none =>
      cases numbered : s.index id with
      | none =>
        refine iff_of_true (fun m ok => nomatch ok) ⟨cold, ?_, fun _ => numbered⟩
        intro rows same
        simp [configured] at same
      | some seq =>
        obtain ⟨pos, bounded⟩ := kept.indexed id seq numbered
        have inside : seq - 1 < s.wal.length := by omega
        refine iff_of_false (fun fails => fails s.wal[seq - 1].decoded ?_) fun gone => ?_
        · simp only [List.getElem?_eq_getElem inside]
        · simp [gone.index configured] at numbered

theorem forgets_iff (kept : s.Kept) (opened : s.closed = false) :
    s.Forgets ↔ ∀ id ∈ s.deleted, s.Gone id :=
  forall₂_congr fun _ _ => get_fails_iff kept opened

theorem forgets_of_closed (closed : s.closed = true) : s.Forgets := by
  intro id _ m ok
  simp [get, if_pos closed] at ok

end Get

section Steps

variable {s s' : WalStore} {id : Uuid} {event : StoreStep} {rows : PgStore} {msg : StoredMessage}

theorem PgStore.push_ids (absent : ∀ r ∈ rows, r.id ≠ id) (other : msg.validate = true → msg.id ≠ id) :
    ∀ r ∈ rows.push msg, r.id ≠ id := by
  rw [PgStore.push]
  split
  case isTrue inserted =>
    intro r mem
    rcases mem_append.mp mem with old | new
    · exact absent r old
    · rw [mem_singleton.mp new]
      exact other inserted.1
  case isFalse => exact absent

theorem PgStore.mem_push (absent : ∀ r ∈ rows, r.id ≠ msg.id) (valid : msg.validate = true) :
    { msg with signed := none } ∈ rows.push msg := by
  rw [PgStore.push, if_pos ⟨valid, absent⟩]
  exact mem_append_right _ (mem_singleton_self _)

theorem forgets_push (kept : s.Kept) (forgets : s.Forgets) (fresh : ∀ m ∈ s.wal, m.id ≠ msg.id)
    (pushed : s.push msg = some s') : s'.Forgets := by
  have kept' := kept.push fresh pushed
  obtain ⟨opened, -, hot, added, rfl⟩ := push_eq pushed
  rw [forgets_iff kept opened] at forgets
  refine (forgets_iff kept' opened).mpr fun id deleted => ?_
  have gone := forgets id deleted
  have other : msg.id ≠ id := by
    rintro rfl
    obtain ⟨m, mem, same⟩ := List.mem_map.mp (kept.known _ deleted)
    exact fresh m mem same
  refine ⟨fun m mem => ?_, gone.rows, fun missing => ?_⟩
  · rcases mem_append.mp ((addToHot_suffix added).subset mem) with old | new
    · exact gone.hot m old
    · rw [mem_singleton.mp new]
      exact other
  · change setIndex s.index msg.id (some (s.wal.length + 1)) id = none
    rw [setIndex, if_neg other.symm]
    exact gone.index missing

theorem forgets_delete_iff (kept : s.Kept) (forgets : s.Forgets) (id creatorId : Uuid)
    (content : List Byte) :
    (s.delete id creatorId content).2.Forgets ↔ s.Settled (.delete id creatorId content) := by
  have kept' : (s.delete id creatorId content).2.Kept := kept.delete
  rcases delete_cases s id creatorId content with ⟨opened, found, next⟩ | ⟨missing, same, -⟩
  · rw [next] at kept' ⊢
    rw [forgets_iff kept opened] at forgets
    rw [forgets_iff kept' opened]
    have erased := eraseP_id (kept.ordered.nodup kept.distinct) found
    constructor
    · intro gone _ _ rows configured r mem same
      by_contra other
      have left : r ∈ rows.delete id creatorId content :=
        mem_filter.mpr ⟨mem, decide_eq_true other⟩
      refine (gone id (mem_append_right _ (mem_singleton_self id))).rows _ ?_ r left same
      exact Option.mem_map_of_mem _ configured
    · intro settled x deleted
      have settled := settled opened found
      have fewer : ∀ rows ∈ s.pg.map (fun rows => PgStore.delete rows id creatorId content),
          ∀ r ∈ rows, ∃ old ∈ s.pg, r ∈ old ∧ ¬ r.Matches id creatorId content := by
        intro rows configured r mem
        obtain ⟨old, before, rfl⟩ := Option.mem_map.mp configured
        obtain ⟨mem, other⟩ := mem_filter.mp mem
        exact ⟨old, before, mem, of_decide_eq_true other⟩
      rcases mem_append.mp deleted with old | new
      · have gone := forgets x old
        refine ⟨fun m mem => ?_, fun rows configured r mem => ?_, fun missing => ?_⟩
        · exact gone.hot m (mem_of_mem_eraseP mem)
        · obtain ⟨rows, configured, mem, -⟩ := fewer rows configured r mem
          exact gone.rows rows configured r mem
        · change setIndex s.index id none x = none
          rw [setIndex]
          split
          · rfl
          · exact gone.index (map_eq_none_iff.mp missing)
      · obtain rfl := mem_singleton.mp new
        refine ⟨fun m mem => ?_, fun rows configured r mem same => ?_, fun _ => if_pos rfl⟩
        · rw [erased] at mem
          exact of_decide_eq_true (mem_filter.mp mem).2
        · obtain ⟨rows, configured, mem, other⟩ := fewer rows configured r mem
          exact other (settled rows configured r mem same)
  · rw [same]
    exact iff_of_true forgets fun opened found => absurd ⟨opened, found⟩ missing

theorem forgets_flush_iff (kept : s.Kept) (forgets : s.Forgets) {pg : Option PgStore} {f : Flusher}
    (pushed : pg = s.pg.map fun rows => rows.push msg) (configured : s.pg.isSome = true) :
    ({ s with pg := pg, flusher := f } : WalStore).Forgets ↔
      (s.closed = false → msg.validate = true → msg.id ∉ s.deleted) := by
  by_cases closed : s.closed = true
  · refine iff_of_true (forgets_of_closed closed) fun opened => ?_
    simp [closed] at opened
  · have opened : s.closed = false := Bool.not_eq_true _ ▸ closed
    obtain ⟨rows, configured⟩ := isSome_iff_exists.mp configured
    rw [configured] at pushed
    rw [forgets_iff kept opened] at forgets
    have kept' : ({ s with pg := pg, flusher := f } : WalStore).Kept := { kept with }
    rw [forgets_iff kept' opened]
    constructor
    · intro gone _ valid deleted
      have absent := (forgets msg.id deleted).rows rows configured
      exact (gone msg.id deleted).rows _ pushed _ (PgStore.mem_push absent valid) rfl
    · intro settled id deleted
      have gone := forgets id deleted
      refine ⟨gone.hot, fun rows' stored => ?_, fun missing => ?_⟩
      · obtain rfl := mem_some_iff.mp (pushed ▸ stored)
        refine PgStore.push_ids (gone.rows rows configured) fun valid same => ?_
        exact settled opened valid (same ▸ deleted)
      · cases pushed.symm.trans missing

theorem forgets_reopen_iff (kept : s.Kept) {index : Uuid → Option Nat} {hot : List StoredMessage}
    (recovered : recover s.hotSize 1 s.wal (fun _ => none, []) = some (index, hot)) :
    ({ s with closed := false, index := index, hot := hot, flusher := .idle } : WalStore).Forgets ↔
      s.Settled .reopen := by
  rw [forgets_iff (kept.reopen recovered) rfl]
  have newest := recover_hot recovered (Nat.zero_le _)
  rw [nil_append, length_nil, Nat.zero_add, ← map_drop] at newest
  have cached (id : Uuid) : (∀ m ∈ hot, m.id ≠ id) ↔
      ∀ m ∈ s.wal.drop (s.wal.length - s.hotSize), m.id ≠ id := by
    rw [newest, List.forall_mem_map]
    rfl
  have indexed (id : Uuid) : index id = none ↔ ∀ m ∈ s.wal, m.id ≠ id :=
    (recover_index recovered id).1.trans (and_iff_right rfl)
  rw [Settled]
  cases configured : s.pg with
  | some rows =>
    constructor
    · intro gone
      refine ⟨fun r mem deleted => ?_, fun m mem deleted => ?_⟩
      · exact (gone r.id deleted).rows rows rfl r mem rfl
      · exact (cached m.id).mp (gone m.id deleted).hot m mem rfl
    · rintro ⟨absent, older⟩ id deleted
      refine ⟨(cached id).mpr ?_, fun rows' same r mem gone => ?_, fun missing => ?_⟩
      · exact fun m mem same => older m mem (same ▸ deleted)
      · obtain rfl := mem_some_iff.mp same
        exact absent r mem (gone ▸ deleted)
      · cases missing
  | none =>
    constructor
    · intro gone m mem deleted
      exact (indexed m.id).mp ((gone m.id deleted).index rfl) m mem rfl
    · intro older id deleted
      have absent : ∀ m ∈ s.wal, m.id ≠ id := fun m mem same => older m mem (same ▸ deleted)
      refine ⟨(cached id).mpr ?_, fun rows same => ?_, fun _ => (indexed id).mpr absent⟩
      · exact fun m mem => absent m (mem_of_mem_drop mem)
      · cases same

theorem forgets_step_iff (kept : s.Running) (forgets : s.Forgets) (fresh : s.Fresh event)
    (next : s.step event = some s') : s'.Forgets ↔ s.Settled event := by
  cases event with
  | push msg => exact iff_of_true (forgets_push kept.toKept forgets fresh next) trivial
  | delete id creatorId content =>
    cases next
    exact forgets_delete_iff kept.toKept forgets id creatorId content
  | flush | lastFlush =>
    obtain ⟨pg, f, rfl, ⟨rfl, -⟩ | ⟨other, -⟩⟩ :=
      step_flusher next (by simp only [true_or, or_true])
    · exact iff_of_true forgets trivial
    · cases other
  | flushNext =>
    obtain ⟨pg, f, rfl, ⟨rfl, finished⟩ | ⟨-, msg, head, pushed⟩⟩ :=
      step_flusher next (by simp only [or_true])
    · refine iff_of_true forgets fun _ msg head => ?_
      rw [finished rfl] at head
      cases head
    · have configured : s.pg.isSome = true := by
        refine isSome_iff_ne_none.mpr fun missing => ?_
        rw [kept.idle missing] at head
        cases head
      rw [forgets_flush_iff kept.toKept forgets pushed configured, Settled, head]
      refine imp_congr_right fun _ => ⟨fun absent msg' same => ?_, fun all => all msg rfl⟩
      exact mem_some_iff.mp same ▸ absent
  | close =>
    rw [step] at next
    split at next <;> cases next
    exact iff_of_true (forgets_of_closed rfl) trivial
  | reopen =>
    rw [step] at next
    split at next
    · obtain ⟨⟨index, hot⟩, recovered, next⟩ := bind_eq_some_iff.mp next
      cases next
      exact forgets_reopen_iff kept.toKept recovered
    · cases next

theorem Running.step (kept : s.Running) (fresh : s.Fresh event) (next : s.step event = some s') :
    s'.Running := by
  refine { kept.toKept.step fresh next with idle := fun missing => ?_ }
  cases event with
  | push msg =>
    obtain ⟨-, -, hot, -, rfl⟩ := push_eq next
    exact kept.idle missing
  | delete id creatorId content =>
    cases next
    rcases delete_cases s id creatorId content with ⟨-, -, next⟩ | ⟨-, same, -⟩
    · rw [next] at missing ⊢
      exact kept.idle (map_eq_none_iff.mp missing)
    · rw [same] at missing ⊢
      exact kept.idle missing
  | flush | lastFlush =>
    rw [step] at next
    split at next
    case isTrue configured =>
      cases next
      rw [missing] at configured
      cases configured.1
    case isFalse => cases next
  | flushNext =>
    obtain ⟨pg, f, rfl, change⟩ := step_flusher next (by simp only [or_true])
    have never : s.pg = none := by
      rcases change with ⟨same, -⟩ | ⟨-, msg, -, mapped⟩
      · exact same.symm.trans missing
      · exact map_eq_none_iff.mp (mapped.symm.trans missing)
    simp [step, kept.idle never] at next
  | close =>
    rw [step] at next
    split at next <;> cases next
    exact kept.idle missing
  | reopen =>
    rw [step] at next
    split at next
    · obtain ⟨⟨index, hot⟩, -, next⟩ := bind_eq_some_iff.mp next
      cases next
      rfl
    · cases next

end Steps

/-- A deleted message can be got at no later moment of a run exactly when every
step of the run meets the condition. -/
theorem deleted_stays_deleted_iff (hotSize : Nat) (pg : Bool) (events : List StoreStep) (s : WalStore)
    (run : runAll step (new hotSize pg) events = some s)
    (fresh : Throughout step Fresh (new hotSize pg) events) :
    (∀ front rest t, events = front ++ rest → runAll step (new hotSize pg) front = some t →
        t.Forgets) ↔ Throughout step Settled (new hotSize pg) events := by
  have start : (new hotSize pg).Running := { new_kept hotSize pg with idle := fun _ => rfl }
  refine holds_along_iff (fun s e s' running forgets fresh next => ?_)
    (fun s e s' running _ fresh _ next => running.step fresh next) run fresh start ?_
  · exact forgets_step_iff running forgets fresh next
  · exact fun id deleted => absurd deleted not_mem_nil

def deletedInTime : List StoreStep :=
  [.push (short 1), .flush, .flushNext, .flushNext, .delete 1 1 [98], .push (short 2), .close,
    .lastFlush, .flushNext, .flushNext, .reopen]

theorem deleted_in_time_forgotten :
    ∃ s, runAll step (new 1 true) deletedInTime = some s ∧ s.deleted = [1] ∧ s.hot = [short 2] ∧
      ∀ front rest t, deletedInTime = front ++ rest → runAll step (new 1 true) front = some t →
        t.Forgets := by
  refine ⟨_, rfl, rfl, by decide, ?_⟩
  exact (deleted_stays_deleted_iff 1 true deletedInTime _ rfl (by decide)).mpr (by decide)

/-- A message comes back when it is deleted during a flush, and when the store is
opened again. -/
theorem deleted_comes_back :
    (∃ s, runAll step (new 1 true) [.push (short 1), .flush, .delete 1 1 [98], .flushNext] = some s ∧
      s.deleted = [1] ∧ s.get 1 = .ok (short 1)) ∧
    ∃ s, runAll step (new 1 true) [.push (short 1), .delete 1 1 [98], .close, .lastFlush, .flushNext,
        .reopen] = some s ∧ s.deleted = [1] ∧ s.get 1 = .ok (short 1) :=
  ⟨⟨_, rfl, rfl, rfl⟩, _, rfl, rfl, by decide⟩

end Unheaded.Wotan.WalStore
