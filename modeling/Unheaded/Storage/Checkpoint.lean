import Unheaded.Lib.Events
import Unheaded.Storage.WalOrder

/-!
# Checkpoints of the log

`Truncate` removes the segments whose last number is below a bound.
-/

namespace Unheaded.Storage

open Lib List BitVec

/-- How far a call of `Checkpoint` has come. -/
inductive CheckpointCall where
  | synced
  | counted (numSegments : Nat)
  | decided (truncateSeq : Seq) (newest : List (List Char))
  | returned
  | panicked

/-- The log and the calls of `Checkpoint` on it. -/
structure Shared where
  wal : Wal
  calls : Nat → Option CheckpointCall

/-- One section under the lock. -/
inductive Section where
  | write (data : List Byte) (now : Int)
  | truncate (beforeSeq : Seq)
  | sync (id : Nat)
  | count (id : Nat)
  | decide (id : Nat)
  | remove (id : Nat)

namespace Shared

def setCall (s : Shared) (id : Nat) (call : CheckpointCall) : Shared :=
  { s with calls := fun i => if i = id then some call else s.calls i }

def start (w : Wal) : Shared := ⟨w, fun _ => none⟩

section Steps

variable (maxSegments : Nat)

/-- The paths of the `maxSegments` newest segments. -/
def newest (w : Wal) : List (List Char) :=
  (w.segments.drop (w.segments.length - maxSegments)).map Segment.path

variable (s : Shared)

/-- The call begins with `Sync`. -/
def syncCall (id : Nat) : Shared :=
  match s.wal.sync with
  | (none, w) => setCall { s with wal := w } id .synced
  | (some _, w) => setCall { s with wal := w } id .returned

/-- `numSegments`. -/
def countCall (id : Nat) : Shared :=
  if maxSegments < s.wal.segments.length then s.setCall id (.counted s.wal.segments.length)
  else s.setCall id .returned

/-- `oldestToKeep`, at the count that was taken before. -/
def decideCall (id numSegments : Nat) : Shared :=
  match s.wal.segments[numSegments - maxSegments]? with
  | none => s.setCall id .panicked
  | some oldestToKeep => s.setCall id (.decided oldestToKeep.firstSeq (newest maxSegments s.wal))

/-- The call of `Truncate`. -/
def removeCall (id : Nat) (truncateSeq : Seq) : Shared :=
  setCall { s with wal := (s.wal.truncate truncateSeq).2 } id .returned

/-- The next section of some call; a section whose turn it is not does nothing. -/
def next : Section → Shared
  | .write data now => { s with wal := (s.wal.write data now).2 }
  | .truncate beforeSeq => { s with wal := (s.wal.truncate beforeSeq).2 }
  | .sync id => if (s.calls id).isNone then s.syncCall id else s
  | .count id =>
    match s.calls id with
    | some .synced => s.countCall maxSegments id
    | _ => s
  | .decide id =>
    match s.calls id with
    | some (.counted numSegments) => s.decideCall maxSegments id numSegments
    | _ => s
  | .remove id =>
    match s.calls id with
    | some (.decided truncateSeq _) => s.removeCall id truncateSeq
    | _ => s

end Steps

end Shared

/-- A section does no harm: a checkpoint indexes the segments inside of their list, a truncation
removes no entry from its bound on, and a checkpoint removes no entry of the segments that were the
newest when it decided. -/
def Shared.Safe (maxSegments : Nat) (s : Shared) : Section → Prop
  | .truncate beforeSeq => s.wal.RemovesBelow beforeSeq
  | .decide id => ∀ numSegments, s.calls id = some (.counted numSegments) →
      numSegments - maxSegments < s.wal.segments.length
  | .remove id => ∀ truncateSeq newest, s.calls id = some (.decided truncateSeq newest) →
      s.wal.RemovesBelow truncateSeq ∧
        ∀ segment ∈ s.wal.toRemove truncateSeq, segment.path ∈ newest → segment.entries = []
  | _ => True

/-- What the sections ask of the state they find: a checkpoint finds at least as many segments as
it has counted, and a write has an entry below 4 GiB, a number left and a name that is new. -/
def Shared.Steady (s : Shared) : Section → Prop
  | .write data now => data.length < 2 ^ 32 ∧ s.wal.sequence ≠ BitVec.allOnes 64 ∧
      (s.wal.Full → ∀ segment ∈ s.wal.segments, segment.path ≠ segmentName now)
  | .decide id => ∀ numSegments, s.calls id = some (.counted numSegments) →
      numSegments ≤ s.wal.segments.length
  | _ => True

namespace Wal

/-- Every number of the segments at these paths is at least the bound, now and later. -/
structure Guards (w : Wal) (bound : Seq) (paths : List (List Char)) : Prop where
  upto : bound ≤ w.sequence
  above : ∀ s ∈ w.segments, s.path ∈ paths → ∀ e ∈ s.entries, bound ≤ e.sequence

variable {w : Wal} {oldest s : Segment}

theorem InOrder.firstSeq_le (ordered : w.InOrder) {i : Nat} (found : w.segments[i]? = some oldest)
    (mem : s ∈ w.segments.drop i) {e : Entry} (inside : e ∈ s.entries) :
    oldest.firstSeq ≤ e.sequence := by
  obtain ⟨short, here⟩ := List.getElem?_eq_some_iff.mp found
  have split : w.segments.drop i = oldest :: w.segments.drop (i + 1) := by
    rw [← here]
    exact drop_eq_getElem_cons short
  have held : oldest ∈ w.segments := here ▸ getElem_mem short
  have sublist : ((w.segments.drop i).flatMap Segment.entries).Sublist w.entries :=
    (drop_sublist i _).flatMap _
  have ascending := ordered.ascending.sublist sublist
  have reached : e ∈ (w.segments.drop i).flatMap Segment.entries :=
    mem_flatMap.mpr ⟨s, mem, inside⟩
  rw [(ordered.tidy oldest held).first]
  rw [split, flatMap_cons] at ascending reached
  cases entries : oldest.entries with
  | nil => exact Nat.zero_le _
  | cons f rest =>
    rw [entries] at ascending reached
    rcases mem_cons.mp reached with rfl | later
    · exact BitVec.le_refl _
    · exact BitVec.le_of_lt ((pairwise_cons.mp ascending).1 e later)

theorem InOrder.firstSeq_upto (ordered : w.InOrder) (mem : s ∈ w.segments) :
    s.firstSeq ≤ w.sequence := by
  rw [(ordered.tidy s mem).first]
  cases entries : s.entries with
  | nil => exact Nat.zero_le _
  | cons e rest =>
    have inside : e ∈ s.entries := by
      rw [entries]
      exact mem_cons_self
    exact (ordered.numbers e (mem_entries mem inside)).2

theorem InOrder.guards_newest (ordered : w.InOrder) {maxSegments i : Nat}
    (found : w.segments[i]? = some oldest) (early : i ≤ w.segments.length - maxSegments) :
    w.Guards oldest.firstSeq (Shared.newest maxSegments w) := by
  have held : oldest ∈ w.segments := mem_of_getElem? found
  refine ⟨ordered.firstSeq_upto held, ?_⟩
  intro s mem named e inside
  obtain ⟨s', kept, same⟩ := List.mem_map.mp named
  have self : s' = s := inj_on_of_nodup_map ordered.names (mem_of_mem_drop kept) mem same
  subst self
  have later : s' ∈ w.segments.drop i := (drop_sublist_drop_left _ early).subset kept
  exact ordered.firstSeq_le found later inside

theorem Guards.spares {bound : Seq} {paths : List (List Char)} (ordered : w.InOrder)
    (guards : w.Guards bound paths) (removed : s ∈ w.toRemove bound) (named : s.path ∈ paths) :
    s.entries = [] := by
  obtain ⟨held, below⟩ := mem_of_toRemove removed
  cases entries : s.entries with
  | nil => rfl
  | cons e rest =>
    have inside : e ∈ s.entries := by
      rw [entries]
      exact mem_cons_self
    have upto := ordered.le_lastSeq held inside
    have above := guards.above s held named e inside
    rw [le_def] at upto above
    rw [lt_def] at below
    omega

section Kept

variable {w : Wal} {bound : Seq} {paths : List (List Char)} (ordered : w.InOrder)
  (guards : w.Guards bound paths)

include guards

theorem Guards.truncate (opened : w.closed = false) (beforeSeq : Seq) :
    (w.truncate beforeSeq).2.Guards bound paths := by
  have fewer := segments_truncate opened beforeSeq
  refine ⟨?_, fun s mem => guards.above s (fewer.subset mem)⟩
  rw [truncate_eq opened]
  exact guards.upto

theorem Guards.sync : ({ w with current := w.current.sync } : Wal).Guards bound paths := by
  have alike := w.current.alike_sync
  refine ⟨guards.upto, ?_⟩
  intro s mem named e inside
  rcases mem_append.mp mem with older | last
  · exact guards.above s (mem_append_left _ older) named e inside
  · rw [mem_singleton.mp last, alike.path] at named
    rw [mem_singleton.mp last, alike.entries_eq] at inside
    exact guards.above _ w.current_mem named e inside

theorem Guards.of_extends {w' : Wal} {data : List Byte} (room : w.sequence ≠ BitVec.allOnes 64)
    (more : Extends w data w') : w'.Guards bound paths := by
  have next := toNat_succ room
  have upto := guards.upto
  rw [le_def] at upto
  have grown : bound ≤ w.sequence + 1 := by
    rw [le_def]
    omega
  refine ⟨by rw [more.sequence]; exact grown, ?_⟩
  intro s' mem named e inside
  rcases more.held s' mem e inside with rfl | ⟨s, old, path, held⟩
  · exact grown
  · exact guards.above s old (by rw [path]; exact named) e held

end Kept

end Wal

namespace Shared

/-- The log is in order, and every checkpoint under way has counted too many segments or has
decided on a bound that guards the newest. -/
structure Sound (maxSegments : Nat) (s : Shared) : Prop where
  ordered : s.wal.InOrder
  counted : ∀ id numSegments, s.calls id = some (.counted numSegments) → maxSegments < numSegments
  decided : ∀ id truncateSeq paths, s.calls id = some (.decided truncateSeq paths) →
    s.wal.Guards truncateSeq paths

variable {maxSegments : Nat} {s : Shared}

theorem setCall_calls (s : Shared) (id i : Nat) (call : CheckpointCall) :
    (s.setCall id call).calls i = if i = id then some call else s.calls i := rfl

variable {call : CheckpointCall}

theorem Sound.setCall (sound : Sound maxSegments s) (id : Nat)
    (counted : ∀ numSegments, call = .counted numSegments → maxSegments < numSegments)
    (decided : ∀ truncateSeq paths, call = .decided truncateSeq paths → s.wal.Guards truncateSeq paths) :
    Sound maxSegments (s.setCall id call) := by
  refine ⟨sound.ordered, ?_, ?_⟩
  · intro i numSegments state
    rw [setCall_calls] at state
    split at state
    · exact counted numSegments (Option.some.inj state)
    · exact sound.counted i numSegments state
  · intro i truncateSeq paths state
    rw [setCall_calls] at state
    split at state
    · exact decided truncateSeq paths (Option.some.inj state)
    · exact sound.decided i truncateSeq paths state

theorem Sound.setWal (sound : Sound maxSegments s) {w : Wal} (ordered : w.InOrder)
    (kept : ∀ bound paths, s.wal.Guards bound paths → w.Guards bound paths) :
    Sound maxSegments { s with wal := w } :=
  ⟨ordered, sound.counted, fun id b paths state => kept b paths (sound.decided id b paths state)⟩

theorem Sound.truncate (sound : Sound maxSegments s) (beforeSeq : Seq) :
    Sound maxSegments { s with wal := (s.wal.truncate beforeSeq).2 } :=
  sound.setWal (sound.ordered.truncate beforeSeq) fun _ _ guards =>
    guards.truncate sound.ordered.opened beforeSeq

def Idle : CheckpointCall → Prop
  | .counted _ | .decided _ _ => False
  | _ => True

section

variable (sound : Sound maxSegments s) (id : Nat)
include sound id

theorem Sound.settle (idle : Idle call) : Sound maxSegments (s.setCall id call) :=
  sound.setCall id (fun _ state => False.elim (by rw [state] at idle; exact idle))
    (fun _ _ state => False.elim (by rw [state] at idle; exact idle))

theorem Sound.syncCall : Sound maxSegments (s.syncCall id) := by
  rw [Shared.syncCall, Wal.sync_eq sound.ordered.opened]
  exact (sound.setWal sound.ordered.sync fun _ _ guards => guards.sync).settle id trivial

theorem Sound.countCall : Sound maxSegments (s.countCall maxSegments id) := by
  unfold Shared.countCall
  split
  · next many =>
      refine sound.setCall id ?_ (fun _ _ state => nomatch state)
      rintro _ ⟨⟩
      exact many
  · exact sound.settle id trivial

theorem Sound.decideCall {numSegments : Nat} (present : numSegments ≤ s.wal.segments.length) :
    Sound maxSegments (s.decideCall maxSegments id numSegments) := by
  unfold Shared.decideCall
  cases found : s.wal.segments[numSegments - maxSegments]? with
  | none => exact sound.settle id trivial
  | some oldest =>
    refine sound.setCall id (fun _ state => nomatch state) ?_
    rintro _ _ ⟨⟩
    exact sound.ordered.guards_newest found (by omega)

end

theorem sound_next (pos : 1 ≤ maxSegments) (s : Shared) (c : Section)
    (sound : Sound maxSegments s) (steady : s.Steady c) :
    s.Safe maxSegments c ∧ Sound maxSegments (s.next maxSegments c) := by
  cases c with
  | write data now =>
    obtain ⟨short, room, fresh⟩ := steady
    have more := sound.ordered.extends_write short fresh
    exact ⟨trivial, sound.setWal (sound.ordered.of_extends room more) fun _ _ guards =>
      guards.of_extends room more⟩
  | truncate beforeSeq =>
    exact ⟨sound.ordered.removesBelow beforeSeq, sound.truncate beforeSeq⟩
  | sync id =>
    refine ⟨trivial, ?_⟩
    simp only [next]
    split
    · exact sound.syncCall id
    · exact sound
  | count id =>
    refine ⟨trivial, ?_⟩
    simp only [next]
    split
    · exact sound.countCall id
    · exact sound
  | decide id =>
    constructor
    · intro numSegments state
      have counted := sound.counted id numSegments state
      have present := steady numSegments state
      omega
    · simp only [next]
      split
      · next numSegments state => exact sound.decideCall id (steady numSegments state)
      · exact sound
  | remove id =>
    constructor
    · intro truncateSeq paths state
      refine ⟨sound.ordered.removesBelow truncateSeq, ?_⟩
      intro segment removed named
      exact (sound.decided id truncateSeq paths state).spares sound.ordered removed named
    · simp only [next]
      split
      · exact (sound.truncate _).settle id trivial
      · exact sound

theorem sound_start {w : Wal} (ordered : w.InOrder) : Sound maxSegments (start w) where
  ordered := ordered
  counted _ _ state := nomatch state
  decided _ _ _ state := nomatch state

/-- In every interleaving in which each checkpoint finds the segments that it has counted, no index
lies outside of the list, no truncation removes a number from its bound on, and no checkpoint
removes an entry of the newest segments. -/
theorem checkpoints_keep_newest (positive : 1 ≤ maxSegments) {w : Wal} (ordered : w.InOrder)
    (sections : List Section) (steady : Along (next maxSegments) Steady (start w) sections) :
    Along (next maxSegments) (Safe maxSegments) (start w) sections :=
  steady.ensures (sound_next positive) (sound_start ordered)

def singles : Wal := Wal.create ⟨0, true⟩ [] 0 [] 1

theorem checkpoints_keep_newest_singles : Along (next 1) (Safe 1) (start singles)
      [.write [] 2, .write [] 3, .sync 0, .count 0, .decide 0, .remove 0] := by
  refine checkpoints_keep_newest (Nat.le_refl 1) (Wal.inOrder_create _ _ _) _ ?_
  refine ⟨⟨by decide, by decide, fun _ => by decide⟩,
    ⟨by decide, by decide, fun _ => by decide +kernel⟩, trivial, trivial, ?_, trivial, trivial⟩
  rintro numSegments ⟨⟩
  decide

/-- Two checkpoints count three segments; the first leaves one of them, and the second indexes
behind it. -/
theorem stale_count_panics : Wal.new ⟨0, true⟩ [] 1 = .ok singles ∧
      ¬ Along (next 1) (Safe 1) (start singles)
        [.write [] 2, .write [] 3, .sync 0, .count 0, .sync 1, .count 1, .decide 1, .remove 1,
          .decide 0] := by
  refine ⟨rfl, ?_⟩
  rintro ⟨-, -, -, -, -, -, -, -, inside, -⟩
  exact absurd (inside 3 rfl) (by decide +kernel)

end Shared

end Unheaded.Storage
