import Unheaded.Lib.Schedules
import Unheaded.Wotan.WalStore

/-!
# The tiers of the message store

`Delete` looks for a message in the hot cache only and `Get` in the hot cache and
in PostgreSQL, so that a message stays within reach as long as it is not evicted.
-/

namespace Unheaded.Wotan.WalStore

open Lib List

def Retains (s : WalStore) : Prop := ∀ m ∈ s.wal, m.id ∉ s.deleted →
    s.get m.id = .ok m ∧ (s.delete m.id m.creatorId m.content).1 = .ok ()

/-- Before `Close`, with new ids. -/
def BeforeClose (s : WalStore) (event : StoreStep) : Prop := s.Fresh event ∧ event ≠ .close

def Room (s : WalStore) : StoreStep → Prop
  | .push _ => s.hot.length < s.hotSize
  | _ => True

instance (s : WalStore) (event : StoreStep) : Decidable (s.BeforeClose event) :=
  inferInstanceAs (Decidable (_ ∧ _))

instance (s : WalStore) : (event : StoreStep) → Decidable (s.Room event)
  | .push _ => inferInstanceAs (Decidable (_ < _))
  | .delete .. | .flush | .flushNext | .close | .lastFlush | .reopen => isTrue trivial

/-- Nothing has left the hot cache but what was deleted. -/
structure Hot (s : WalStore) : Prop extends s.Kept where
  opened : s.closed = false
  hot_eq : s.hot = s.wal.filter fun m => m.id ∉ s.deleted

section Retains

variable {s s' : WalStore} {msg : StoredMessage} {event : StoreStep}

theorem Hot.retains (hot : s.Hot) : s.Retains := by
  intro m mem kept
  have here : m ∈ s.hot := by
    rw [hot.hot_eq]
    exact mem_filter.mpr ⟨mem, decide_eq_true kept⟩
  have found := find?_id (hot.ordered.nodup hot.distinct) here
  constructor
  · rw [get, if_neg (by rw [hot.opened]; exact Bool.false_ne_true), found]
  · exact delete_ok_iff.mpr ⟨hot.opened, m, here, rfl, rfl, rfl⟩

theorem Hot.push (hot : s.Hot) (fresh : ∀ m ∈ s.wal, m.id ≠ msg.id)
    (room : s.hot.length < s.hotSize) (pushed : s.push msg = some s') : s'.Hot := by
  have kept := hot.toKept.push fresh pushed
  obtain ⟨-, -, after, added, rfl⟩ := push_eq pushed
  refine { kept with opened := hot.opened, hot_eq := ?_ }
  rcases addToHot_cases added with ⟨-, rfl⟩ | ⟨x, rest, full, -, -⟩
  · have stays : msg.id ∉ s.deleted := fun deleted => by
      obtain ⟨m, mem, same⟩ := List.mem_map.mp (hot.known _ deleted)
      exact fresh m mem same
    rw [filter_append, ← hot.hot_eq, filter_cons_of_pos]
    · rfl
    · exact decide_eq_true stays
  · exact absurd room (Nat.not_lt.mpr full)

theorem Hot.evicts (hot : s.Hot) (fresh : ∀ m ∈ s.wal, m.id ≠ msg.id)
    (pushed : s.push msg = some s') (retains : s'.Retains) : s.hot.length < s.hotSize := by
  obtain ⟨-, -, after, added, rfl⟩ := push_eq pushed
  rcases addToHot_cases added with ⟨room, -⟩ | ⟨x, rest, full, split, rfl⟩
  · exact room
  · exfalso
    have here : x ∈ s.wal ∧ x.id ∉ s.deleted := by
      have mem : x ∈ s.hot := split ▸ mem_cons_self
      rw [hot.hot_eq] at mem
      exact ⟨(mem_filter.mp mem).1, of_decide_eq_true (mem_filter.mp mem).2⟩
    have distinct := hot.ordered.nodup hot.distinct
    rw [split, map_cons, nodup_cons] at distinct
    obtain ⟨-, m, mem, found⟩ := delete_ok_iff.mp (retains x (mem_append_left _ here.1) here.2).2
    rcases mem_append.mp mem with old | new
    · exact distinct.1 (found.1 ▸ List.mem_map_of_mem old)
    · rw [mem_singleton.mp new] at found
      exact fresh x here.1 found.1.symm

theorem Hot.delete (hot : s.Hot) (id creatorId : Uuid) (content : List Byte) :
    (s.delete id creatorId content).2.Hot := by
  have kept : (s.delete id creatorId content).2.Kept := hot.toKept.delete
  rcases delete_cases s id creatorId content with ⟨-, found, next⟩ | ⟨-, same, -⟩
  · rw [next] at kept ⊢
    refine { kept with opened := hot.opened, hot_eq := ?_ }
    rw [eraseP_id (hot.ordered.nodup hot.distinct) found, hot.hot_eq, List.filter_filter]
    refine filter_congr fun m _ => ?_
    rw [← Bool.decide_and, decide_eq_decide, mem_append, mem_singleton, not_or, and_comm]
  · rw [same]
    exact hot

theorem Hot.step (hot : s.Hot) (known : s.BeforeClose event) (room : s.Room event)
    (next : s.step event = some s') : s'.Hot := by
  cases event with
  | push msg => exact hot.push known.1 room next
  | delete id creatorId content =>
    cases next
    exact hot.delete id creatorId content
  | flush | lastFlush | flushNext =>
    obtain ⟨pg, f, rfl, -⟩ := step_flusher next (by simp only [true_or, or_true])
    exact { hot with }
  | close => exact absurd rfl known.2
  | reopen =>
    rw [WalStore.step, if_neg] at next
    · cases next
    · rintro ⟨closed, -⟩
      simp [hot.opened] at closed

/-- With PostgreSQL, every message can be got and deleted at every moment of a run
exactly when no push of the run evicts a message from the hot cache. -/
theorem hybrid_retains_iff (hotSize : Nat) (events : List StoreStep) (s : WalStore)
    (run : runAll step (new hotSize true) events = some s)
    (known : Throughout step BeforeClose (new hotSize true) events) :
    (∀ front rest t, events = front ++ rest → runAll step (new hotSize true) front = some t →
        t.Retains) ↔ Throughout step Room (new hotSize true) events := by
  have start : (new hotSize true).Hot := { new_kept hotSize true with opened := rfl, hot_eq := rfl }
  refine holds_along_iff (fun s e s' hot _ known next => ?_)
    (fun s e s' hot _ known room next => hot.step known room next) run known start start.retains
  constructor
  · intro retains
    cases e with
    | push msg => exact hot.evicts known.1 next retains
    | _ => trivial
  · exact fun room => (hot.step known room next).retains

end Retains

def oneAtATime : List StoreStep :=
  [.push (short 1), .flush, .delete 1 1 [98], .flushNext, .push (short 2)]

theorem one_at_a_time_retained :
    ∃ s, runAll step (new 1 true) oneAtATime = some s ∧ s.hot = [short 2] ∧
      ∀ front rest t, oneAtATime = front ++ rest → runAll step (new 1 true) front = some t →
        t.Retains := by
  refine ⟨_, rfl, rfl, ?_⟩
  exact (hybrid_retains_iff 1 oneAtATime _ rfl (by decide)).mpr (by decide)

/-- The second message evicts the first, which is neither found nor deleted. -/
theorem evicted_before_flush :
    ∃ s, runAll step (new 1 true) [.push (short 1), .push (short 2)] = some s ∧
      s.deleted = [] ∧ s.get 1 = .error .notFound ∧
      (s.delete 1 1 [98]).1 = .error .notFound ∧ ¬ s.Retains := by
  refine ⟨_, rfl, rfl, rfl, rfl, fun retains => ?_⟩
  have got := (retains (short 1) (by decide) (by decide)).1
  cases got

end Unheaded.Wotan.WalStore
