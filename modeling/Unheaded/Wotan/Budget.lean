import Unheaded.Lib.Runs
import Unheaded.Wotan.Server

/-!
# The budget of all rooms

`EnforceTotal` of the room manager as a machine: it records the footprint of every room, then
evicts from the room with the largest record until it is no larger than the next one, and scans
again.
-/

namespace Unheaded.Wotan

open Lib List Option

namespace RingBuffer

def footprint (rb : RingBuffer) : Int := rb.bytes + rb.count * messageOverhead

end RingBuffer

/-- A room of the call with its entries in `sizes` and `evictable`. -/
structure Held where
  id : Topic
  buffer : RingBuffer
  size : Int
  evictable : Bool

/-- Where the call stands: before the look at room `i`, at the head of the outer
loop, at the head of the inner loop, or returned. -/
inductive Place where
  | measuring (i : Nat)
  | scanning
  | evicting (big : Nat) (next : Int)
  | done

/-- The variables of the call; `seq` is the counter that the rooms share. -/
structure Enforcing where
  budget : Nat
  keep : Option (Topic → Bool)
  rooms : List Held
  total : Int
  dropped : Nat
  seq : Int
  place : Place

namespace Enforcing

/-- The call has copied the rooms and the settings. -/
def start (budget : Nat) (keep : Option (Topic → Bool)) (rooms : List (Topic × RingBuffer))
    (seq : Int) : Enforcing where
  budget := budget
  keep := keep
  rooms := rooms.map fun r => ⟨r.1, r.2, 0, false⟩
  total := 0
  dropped := 0
  seq := seq
  place := .measuring 0

/-- `keep == nil || !keep(r.ID)`. -/
def mayEvict (keep : Option (Topic → Bool)) (id : Topic) : Bool := keep.elim true fun k => !k id

/-- A room that the scan looks at, after `big` was the largest so far. -/
def compare (i : Nat) (size : Int) : Option (Nat × Int) → Int → Option (Nat × Int) × Int
  | none, next => (some (i, size), next)
  | some (b, largest), next =>
    if largest < size then (some (i, size), max next largest)
    else (some (b, largest), max next size)

/-- The scan for the largest record and the one after it, from room `i` on; `big` is
the room found so far with its record. -/
def scan : List Held → Nat → Option (Nat × Int) → Int → Option (Nat × Int)
  | [], _, big, next => big.map fun b => (b.1, next)
  | r :: rest, i, big, next =>
    if r.evictable = false ∨ r.size = 0 then scan rest (i + 1) big next
    else scan rest (i + 1) (compare i r.size big next).1 (compare i r.size big next).2

/-- One step of the call. -/
def step (s : Enforcing) : Option Enforcing :=
  match s.place with
  | .measuring i =>
    match s.rooms[i]? with
    | none => some { s with place := .scanning }
    | some r =>
      let size := r.buffer.footprint
      some { s with
        rooms := s.rooms.set i { r with size := size, evictable := mayEvict s.keep r.id }
        total := s.total + size
        place := .measuring (i + 1) }
  | .scanning =>
    if 0 < s.budget ∧ (s.budget : Int) < s.total then
      match scan s.rooms 0 none 0 with
      | none => some { s with place := .done }
      | some (big, next) => some { s with place := .evicting big next }
    else some { s with place := .done }
  | .evicting big next => do
    let r ← s.rooms[big]?
    if (s.budget : Int) < s.total ∧ 0 < r.size ∧ next ≤ r.size then
      let (freed, buffer) ← r.buffer.evictOldest
      if freed = 0 then
        some { s with
          rooms := s.rooms.set big { r with buffer := buffer, size := 0 }
          total := s.total - r.size
          place := .scanning }
      else
        some { s with
          rooms := s.rooms.set big { r with buffer := buffer, size := r.size - freed }
          total := s.total - freed
          dropped := s.dropped + 1 }
    else some { s with place := .scanning }
  | .done => some s

/-- A push by someone else to a room of the call. -/
def push (s : Enforcing) (i : Nat) (msg : Message) : Option Enforcing := do
  let r ← s.rooms[i]?
  let (_, _, seq, buffer) ← r.buffer.push s.seq msg
  some { s with rooms := s.rooms.set i { r with buffer := buffer }, seq := seq }

end Enforcing

def msgFootprint (m : Message) : Nat := msgBytes m + messageOverhead

/-- A message with `n` bytes of content. -/
def blank (n : Nat) : Message := ⟨0, 0, [], replicate n 0, none, 0⟩

theorem msgFootprint_blank (n : Nat) : msgFootprint (blank n) = n + messageOverhead := by
  rw [msgFootprint, blank, msgBytes, length_replicate]

theorem Queue.push_ne_nil {q : Queue} (capacity : 0 < q.capacity) (counter : Int) (msg : Message) :
    (q.push counter msg).2.2.2.items ≠ [] := by
  intro empty
  have last := getLast?_trimTo q.budget
    (lastOf q.capacity (q.items ++ [{ msg with seq := (q.nextSeq counter).1 }]))
  have none : trimTo q.budget
      (lastOf q.capacity (q.items ++ [{ msg with seq := (q.nextSeq counter).1 }])) = [] := empty
  rw [none, lastOf, List.getLast?_nil, eq_comm, List.getLast?_eq_none_iff, drop_eq_nil_iff,
    length_append, length_singleton] at last
  omega

namespace RingBuffer

variable (rb : RingBuffer)

def items : List Message := (rb.get.getD []).filterMap id

/-- What calls have made of a new buffer of `size` slots. -/
def Built (size : Int) : Prop := ∃ budget shared counter ops replies counter',
    ((new size shared).setMaxBytes budget).run ops counter = some (replies, counter', rb)

/-- A queue, with so few slots that no call panics. -/
def Valid : Prop := rb.size ≤ 2 ^ 62 ∧ ∃ q, rb.Refines q

theorem Built.valid {rb : RingBuffer} {size : Int} (built : rb.Built size)
    (small : size ≤ 2 ^ 62) : rb.Valid := by
  obtain ⟨budget, shared, counter, ops, replies, counter', ran⟩ := built
  have capacity : (if size ≤ 0 then 1000 else size.toNat) ≤ 2 ^ 62 := by
    split <;> omega
  obtain ⟨rb', ran', refines⟩ := (new_refines (by omega) budget shared).run capacity counter ops
  rw [ran] at ran'
  cases ran'
  refine ⟨?_, _, refines⟩
  rw [refines.size_eq, Queue.run_capacity]
  exact capacity

variable {rb : RingBuffer} {q : Queue}

theorem Refines.items_eq (h : rb.Refines q) (small : rb.size ≤ 2 ^ 62) : rb.items = q.items := by
  rcases h.represents.get_cases with panics | read
  · exact panics.elim small
  · rw [items, read, getD_some, filterMap_map]
    exact filterMap_some

theorem Valid.represents (valid : rb.Valid) : rb.Represents rb.items := by
  obtain ⟨small, q, refines⟩ := valid
  rw [refines.items_eq small]
  exact refines.represents

theorem totalFootprint (items : List Message) :
    (items.map msgFootprint).sum = totalBytes items + items.length * messageOverhead := by
  induction items with
  | nil => rfl
  | cons m items ih =>
    rw [map_cons, sum_cons, totalBytes_cons, length_cons, msgFootprint, Nat.add_mul]
    omega

theorem Valid.footprint_eq (valid : rb.Valid) :
    rb.footprint = ((rb.items.map msgFootprint).sum : Nat) := by
  have represents := valid.represents
  rw [footprint, totalFootprint, represents.bytes_eq, represents.count_eq]
  rfl

theorem Valid.evictOldest (valid : rb.Valid) :
    ∃ rb', rb.evictOldest = some (rb.items.head?.elim 0 msgFootprint, rb') ∧ rb'.Valid ∧
      rb'.items = rb.items.tail ∧ rb'.size = rb.size := by
  obtain ⟨small, q, refines⟩ := valid
  rcases refines.evictOldest with panics | ⟨rb', evicted, refines'⟩
  · exact panics.elim small
  · have size : rb'.size = rb.size := refines'.size_eq.trans refines.size_eq.symm
    refine ⟨rb', ?_, ⟨size ▸ small, _, refines'⟩, ?_, size⟩
    · rw [evicted, refines.items_eq small]
      rfl
    · rw [refines'.items_eq (size ▸ small), refines.items_eq small]
      rfl

theorem Valid.push (valid : rb.Valid) (counter : Int) (msg : Message) :
    ∃ stored dropped counter' rb', rb.push counter msg = some (stored, dropped, counter', rb') ∧
      rb'.Valid ∧ rb'.items <:+ rb.items ++ [stored] ∧ rb'.items ≠ [] ∧ rb'.size = rb.size ∧
      msgFootprint stored = msgFootprint msg := by
  obtain ⟨small, q, refines⟩ := valid
  rcases refines.push counter msg with panics | ⟨rb', pushed, refines'⟩
  · exact panics.elim small
  · have size : rb'.size = rb.size := refines'.size_eq.trans refines.size_eq.symm
    have capacity : 0 < q.capacity := refines.size_eq ▸ refines.represents.size_pos
    refine ⟨_, _, _, rb', pushed, ⟨size ▸ small, _, refines'⟩, ?_, ?_, size, rfl⟩
    · rw [refines'.items_eq (size ▸ small), refines.items_eq small]
      exact Queue.pushSeq_suffix _ _ _
    · rw [refines'.items_eq (size ▸ small)]
      exact Queue.push_ne_nil capacity counter msg

theorem Valid.length_le (valid : rb.Valid) : rb.items.length ≤ rb.size := valid.represents.count_le

end RingBuffer

namespace Held

def Eligible (r : Held) : Prop := r.evictable = true ∧ r.size ≠ 0

theorem not_eligible_iff (r : Held) : ¬ r.Eligible ↔ r.evictable = false ∨ r.size = 0 := by
  rw [Eligible, not_and_or, Bool.not_eq_true, not_not]

end Held

namespace Enforcing

/-- What the scan knows after some rooms. -/
inductive Best (seen : List Held) : Option (Nat × Int) → Int → Prop
  | nothing (idle : ∀ r ∈ seen, ¬ r.Eligible) : Best seen none 0
  | found {b : Nat} {r : Held} {next : Int} (room : seen[b]? = some r) (eligible : r.Eligible)
      (largest : ∀ o ∈ seen, o.Eligible → o.size ≤ r.size) (second : next ≤ max 0 r.size) :
      Best seen (some (b, r.size)) next

theorem scan_best (rest : List Held) {seen : List Held} {big : Option (Nat × Int)} {next : Int}
    (best : Best seen big next) : ∃ big' next', Best (seen ++ rest) big' next' ∧
      scan rest seen.length big next = big'.map fun b => (b.1, next') := by
  induction rest generalizing seen big next with
  | nil => exact ⟨big, next, by rwa [append_nil], rfl⟩
  | cons r rest ih =>
    have split : seen ++ r :: rest = (seen ++ [r]) ++ rest := (append_cons _ _ _)
    have length : seen.length + 1 = (seen ++ [r]).length := by rw [length_append]; rfl
    have here : (seen ++ [r])[seen.length]? = some r := by
      rw [List.getElem?_append_right le_rfl, Nat.sub_self]
      rfl
    have later {b : Nat} {o : Held} (room : seen[b]? = some o) : (seen ++ [r])[b]? = some o := by
      rw [List.getElem?_append_left (List.getElem?_eq_some_iff.mp room).1]
      exact room
    rw [split, scan, length]
    split
    next skipped =>
      rw [← Held.not_eligible_iff] at skipped
      refine ih ?_
      cases best with
      | nothing idle =>
        refine .nothing fun o mem => ?_
        rcases mem_append.mp mem with old | new
        · exact idle o old
        · rwa [mem_singleton.mp new]
      | found room eligible largest second =>
        refine .found (later room) eligible (fun o mem able => ?_) second
        rcases mem_append.mp mem with old | new
        · exact largest o old able
        · exact absurd (mem_singleton.mp new ▸ able) skipped
    next looked =>
      rw [← Held.not_eligible_iff, not_not] at looked
      cases best with
      | nothing idle =>
        refine ih (.found here looked (fun o mem able => ?_) (le_max_left _ _))
        rcases mem_append.mp mem with old | new
        · exact absurd able (idle o old)
        · rw [mem_singleton.mp new]
      | @found b best next room eligible largest second =>
        rw [compare]
        split
        next larger =>
          refine ih (.found here looked (fun o mem able => ?_) (by omega))
          rcases mem_append.mp mem with old | new
          · exact (largest o old able).trans larger.le
          · rw [mem_singleton.mp new]
        next smaller =>
          refine ih (.found (later room) eligible (fun o mem able => ?_) (by omega))
          rcases mem_append.mp mem with old | new
          · exact largest o old able
          · rw [mem_singleton.mp new]
            omega

/-- Every step of the call, for buffers that the operations have built. -/
inductive Moves (s : Enforcing) : Enforcing → Prop
  | measure {i : Nat} {r : Held} (here : s.place = .measuring i) (room : s.rooms[i]? = some r) :
      Moves s { s with
        rooms := s.rooms.set i
          { r with size := r.buffer.footprint, evictable := mayEvict s.keep r.id }
        total := s.total + r.buffer.footprint
        place := .measuring (i + 1) }
  | measured {i : Nat} (here : s.place = .measuring i) (all : s.rooms.length ≤ i) :
      Moves s { s with place := .scanning }
  | fits (here : s.place = .scanning) (within : ¬ (0 < s.budget ∧ (s.budget : Int) < s.total)) :
      Moves s { s with place := .done }
  | exhausted (here : s.place = .scanning) (exceeds : 0 < s.budget ∧ (s.budget : Int) < s.total)
      (idle : ∀ r ∈ s.rooms, ¬ r.Eligible) : Moves s { s with place := .done }
  | chosen {b : Nat} {r : Held} {next : Int} (here : s.place = .scanning)
      (exceeds : 0 < s.budget ∧ (s.budget : Int) < s.total) (room : s.rooms[b]? = some r)
      (eligible : r.Eligible) (largest : ∀ o ∈ s.rooms, o.Eligible → o.size ≤ r.size)
      (second : next ≤ max 0 r.size) : Moves s { s with place := .evicting b next }
  | evict {b : Nat} {next : Int} {r : Held} {m : Message} {rb : RingBuffer}
      (here : s.place = .evicting b next) (room : s.rooms[b]? = some r)
      (goes : (s.budget : Int) < s.total ∧ 0 < r.size ∧ next ≤ r.size)
      (held : r.buffer.items = m :: rb.items) (valid : rb.Valid) (size : rb.size = r.buffer.size) :
      Moves s { s with
        rooms := s.rooms.set b { r with buffer := rb, size := r.size - msgFootprint m }
        total := s.total - msgFootprint m
        dropped := s.dropped + 1 }
  | emptied {b : Nat} {next : Int} {r : Held} {rb : RingBuffer}
      (here : s.place = .evicting b next) (room : s.rooms[b]? = some r)
      (goes : (s.budget : Int) < s.total ∧ 0 < r.size ∧ next ≤ r.size)
      (empty : r.buffer.items = []) (left : rb.items = []) (valid : rb.Valid)
      (size : rb.size = r.buffer.size) :
      Moves s { s with
        rooms := s.rooms.set b { r with buffer := rb, size := 0 }
        total := s.total - r.size
        place := .scanning }
  | leave {b : Nat} {next : Int} {r : Held} (here : s.place = .evicting b next)
      (room : s.rooms[b]? = some r)
      (stops : ¬ ((s.budget : Int) < s.total ∧ 0 < r.size ∧ next ≤ r.size)) :
      Moves s { s with place := .scanning }
  | returned (here : s.place = .done) : Moves s s

/-- The buffers are queues, and the inner loop is at a room that may be evicted from. -/
structure Sound (s : Enforcing) : Prop where
  valid : ∀ (i : Nat) (r : Held), s.rooms[i]? = some r → r.buffer.Valid
  inside : ∀ (b : Nat) (next : Int), s.place = .evicting b next →
    ∃ r : Held, s.rooms[b]? = some r ∧ r.evictable = true

theorem step_moves {s : Enforcing} (sound : s.Sound) : ∃ s', s.step = some s' ∧ Moves s s' := by
  cases here : s.place with
  | measuring i =>
    cases room : s.rooms[i]? with
    | none =>
      exact ⟨_, by simp only [step, here, room], .measured here (List.getElem?_eq_none_iff.mp room)⟩
    | some r => exact ⟨_, by simp only [step, here, room], .measure here room⟩
  | scanning =>
    by_cases exceeds : 0 < s.budget ∧ (s.budget : Int) < s.total
    · obtain ⟨big, next, best, found⟩ := scan_best s.rooms
        (.nothing fun r mem => absurd mem (not_mem_nil (a := r)))
      have found : scan s.rooms 0 none 0 = big.map fun b => (b.1, next) := found
      cases best with
      | nothing idle =>
        refine ⟨_, ?_, .exhausted here exceeds idle⟩
        simp only [step, here, if_pos exceeds, found, map_none]
      | found room eligible largest second =>
        refine ⟨_, ?_, .chosen here exceeds room eligible largest second⟩
        simp only [step, here, if_pos exceeds, found, map_some]
    · exact ⟨_, by simp only [step, here, if_neg exceeds], .fits here exceeds⟩
  | evicting b next =>
    obtain ⟨r, room, -⟩ := sound.inside b next here
    have valid := sound.valid b r room
    by_cases goes : (s.budget : Int) < s.total ∧ 0 < r.size ∧ next ≤ r.size
    · obtain ⟨rb, evicted, valid', items, size⟩ := valid.evictOldest
      cases held : r.buffer.items with
      | nil =>
        rw [held] at evicted items
        refine ⟨_, ?_, .emptied here room goes held items valid' size⟩
        simp [step, here, room, goes, evicted]
      | cons m left =>
        rw [held] at evicted items
        have some' : msgFootprint m ≠ 0 := Nat.succ_ne_zero _
        refine ⟨_, ?_, .evict here room goes (held.trans (congrArg (m :: ·) items.symm)) valid' size⟩
        simp [step, here, room, goes, evicted, some']
    · refine ⟨_, ?_, .leave here room goes⟩
      simp only [step, here, room, bind_eq_bind, bind_some, if_neg goes]
  | done => exact ⟨s, by simp only [step, here], .returned here⟩

end Enforcing

end Unheaded.Wotan
