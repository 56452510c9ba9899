import Unheaded.Lib.Utf8
import Unheaded.Wotan.RingBuffer

/-!
# The message store over the write-ahead log

`WALStore` keeps a message in up to three places: the log, a hot cache of the newest messages and
PostgreSQL.
-/

namespace Unheaded.Wotan

open Lib List Option

/-- `Message` of the store. -/
structure StoredMessage where
  id : Uuid
  creatorId : Uuid
  roomId : List Byte
  content : List Byte
  timestamp : Int
  signed : Option Signature
  deriving DecidableEq, Repr

namespace StoredMessage

variable (m : StoredMessage)

def validate : Bool :=
  m.id ≠ 0 && m.creatorId ≠ 0 && m.roomId ≠ [] && m.content ≠ [] && m.timestamp ≠ 0

/-- What `DecodeMessage` reads of what `EncodeMessage` wrote: in JSON strings, bytes
that are not UTF-8 are replaced. -/
def decoded : StoredMessage := { m with
    roomId := toValidUtf8 m.roomId
    content := toValidUtf8 m.content
    signed := m.signed.map fun s =>
      { s with sender := toValidUtf8 s.sender, algorithm := toValidUtf8 s.algorithm } }

/-- The verification of `Delete`. -/
def Matches (id creatorId : Uuid) (content : List Byte) : Prop :=
  m.id = id ∧ m.creatorId = creatorId ∧ m.content = content

instance (m : StoredMessage) (id creatorId : Uuid) (content : List Byte) :
    Decidable (m.Matches id creatorId content) := inferInstanceAs (Decidable (_ ∧ _ ∧ _))

end StoredMessage

inductive StoreError where
  | notFound
  | storeClosed
  | invalidMessage
  /-- An error of `wal.Read`. -/
  | read
  deriving DecidableEq, Repr

/-- The rows of `wotan_messages`; they have no signature. -/
abbrev PgStore := List StoredMessage

namespace PgStore

variable (rows : PgStore)

/-- `Push`: nothing is done for a message that is not valid or whose id has a row. -/
def push (msg : StoredMessage) : PgStore :=
  if msg.validate = true ∧ ∀ r ∈ rows, r.id ≠ msg.id then rows ++ [{ msg with signed := none }]
  else rows

def get (id : Uuid) : Except StoreError StoredMessage :=
  match rows.find? fun r => r.id = id with
  | some r => .ok r
  | none => .error .notFound

def delete (id creatorId : Uuid) (content : List Byte) : PgStore :=
  rows.filter fun r => ¬ r.Matches id creatorId content

end PgStore

/-- The flusher goroutine: waiting, on its way through a copy of the hot cache, the
last one if the store is closed, or at its end. -/
inductive Flusher where
  | idle
  | flushing (messages : List StoredMessage) (last : Bool)
  | done
  deriving DecidableEq

def Flusher.head? : Flusher → Option StoredMessage
  | .flushing messages _ => messages.head?
  | _ => none

/-- The number of an entry is its place in the log, from 1. -/
structure WalStore where
  wal : List StoredMessage
  pg : Option PgStore
  hotSize : Nat
  closed : Bool
  index : Uuid → Option Nat
  hot : List StoredMessage
  flusher : Flusher
  deleted : List Uuid

namespace WalStore

variable (hotSize : Nat)

def new (pg : Bool) : WalStore :=
  ⟨[], if pg then some [] else none, hotSize, false, fun _ => none, [], .idle, []⟩

/-- `addToHot`; `none` is the panic of a slice without a first element. -/
def addToHot (hot : List StoredMessage) (msg : StoredMessage) : Option (List StoredMessage) :=
  if hotSize ≤ hot.length then
    match hot with
    | [] => none
    | _ :: rest => some (rest ++ [msg])
  else some (hot ++ [msg])

def setIndex (index : Uuid → Option Nat) (id : Uuid) (seq : Option Nat) : Uuid → Option Nat :=
  fun x => if x = id then seq else index x

/-- `recover`, with the number of the first entry. -/
def recover (hotSize : Nat) : Nat → List StoredMessage → (Uuid → Option Nat) × List StoredMessage →
      Option ((Uuid → Option Nat) × List StoredMessage)
  | _, [], s => some s
  | seq, m :: rest, (index, hot) => do
    let hot ← addToHot hotSize hot m.decoded
    recover hotSize (seq + 1) rest (setIndex index m.decoded.id (some seq), hot)

variable (s : WalStore)

/-- `Push` of a message that can be encoded, with success. -/
def push (msg : StoredMessage) : Option WalStore :=
  if s.closed = true ∨ msg.validate = false then none
  else do
    let hot ← addToHot s.hotSize s.hot msg
    some { s with
      wal := s.wal ++ [msg]
      index := setIndex s.index msg.id (some (s.wal.length + 1))
      hot := hot }

def get (id : Uuid) : Except StoreError StoredMessage :=
  if s.closed = true then .error .storeClosed
  else
    match s.hot.find? fun m => m.id = id with
    | some m => .ok m
    | none =>
      match s.pg with
      | some rows => rows.get id
      | none =>
        match s.index id with
        | none => .error .notFound
        | some seq =>
          match s.wal[seq - 1]? with
          | some m => .ok m.decoded
          | none => .error .read

/-- `Delete`; the error of the database is ignored. -/
def delete (id creatorId : Uuid) (content : List Byte) : Except StoreError Unit × WalStore :=
  if s.closed = true then (.error .storeClosed, s)
  else if ∃ m ∈ s.hot, m.Matches id creatorId content then
    (.ok (), { s with
      hot := s.hot.eraseP fun m => m.Matches id creatorId content
      index := setIndex s.index id none
      pg := s.pg.map fun rows => rows.delete id creatorId content
      deleted := s.deleted ++ [id] })
  else (.error .notFound, s)

inductive StoreStep where
  | push (msg : StoredMessage)
  | delete (id creatorId : Uuid) (content : List Byte)
  /-- The flusher takes a copy of the hot cache, on a signal or a tick. -/
  | flush
  /-- It pushes one message, or is through with its copy. -/
  | flushNext
  | close
  /-- The flusher has seen the closed channel. -/
  | lastFlush
  /-- `Close` has returned and the store is opened again. -/
  | reopen
  deriving DecidableEq

/-- One step; `none` if it cannot be made. -/
def step : StoreStep → Option WalStore
  | .push msg => s.push msg
  | .delete id creatorId content => some (s.delete id creatorId content).2
  | .flush =>
    if s.pg.isSome = true ∧ s.flusher = .idle then
      some { s with flusher := .flushing s.hot false }
    else none
  | .lastFlush =>
    if s.pg.isSome = true ∧ s.closed = true ∧ s.flusher = .idle then
      some { s with flusher := .flushing s.hot true }
    else none
  | .flushNext =>
    match s.flusher with
    | .flushing (msg :: rest) last =>
      some { s with flusher := .flushing rest last, pg := s.pg.map fun rows => rows.push msg }
    | .flushing [] last => some { s with flusher := if last then .done else .idle }
    | _ => none
  | .close => if s.closed = true then none else some { s with closed := true }
  | .reopen =>
    if s.closed = true ∧ (s.pg.isSome = true → s.flusher = .done) then do
      let (index, hot) ← recover s.hotSize 1 s.wal (fun _ => none, [])
      some { s with closed := false, index := index, hot := hot, flusher := .idle }
    else none

def Fresh : StoreStep → Prop
  | .push msg => ∀ m ∈ s.wal, m.id ≠ msg.id
  | _ => True

instance (s : WalStore) : (event : StoreStep) → Decidable (s.Fresh event)
  | .push msg => inferInstanceAs (Decidable (∀ m ∈ s.wal, m.id ≠ msg.id))
  | .delete .. | .flush | .flushNext | .close | .lastFlush | .reopen => isTrue trivial

/-- The ids of the hot cache come in the order of the log; the index points into the
log. -/
structure Kept (s : WalStore) : Prop where
  distinct : (s.wal.map StoredMessage.id).Nodup
  ordered : (s.hot.map StoredMessage.id).Sublist (s.wal.map StoredMessage.id)
  known : ∀ id ∈ s.deleted, id ∈ s.wal.map StoredMessage.id
  indexed : ∀ id seq, s.index id = some seq → 0 < seq ∧ seq ≤ s.wal.length

theorem new_kept (pg : Bool) : (new hotSize pg).Kept where
  distinct := nodup_nil
  ordered := nil_sublist _
  known := fun _ mem => absurd mem not_mem_nil
  indexed := fun _ _ indexed => nomatch indexed

section Lemmas

variable {s s' : WalStore} {hotSize : Nat} {hot hot' : List StoredMessage} {msg : StoredMessage}

theorem addToHot_cases (added : addToHot hotSize hot msg = some hot') :
    (hot.length < hotSize ∧ hot' = hot ++ [msg]) ∨
      ∃ x rest, hotSize ≤ hot.length ∧ hot = x :: rest ∧ hot' = rest ++ [msg] := by
  rw [addToHot.eq_def] at added
  split at added
  case isTrue full =>
    cases hot with
    | nil => cases added
    | cons x rest =>
      cases added
      exact .inr ⟨x, rest, full, rfl, rfl⟩
  case isFalse room =>
    cases added
    exact .inl ⟨Nat.not_le.mp room, rfl⟩

theorem addToHot_suffix (added : addToHot hotSize hot msg = some hot') : hot' <:+ hot ++ [msg] := by
  rcases addToHot_cases added with ⟨-, rfl⟩ | ⟨x, rest, -, rfl, rfl⟩
  · exact suffix_rfl
  · exact suffix_cons x _

theorem find?_id {hot : List StoredMessage} (distinct : (hot.map StoredMessage.id).Nodup)
    (mem : msg ∈ hot) : hot.find? (fun m => m.id = msg.id) = some msg := by
  induction hot with
  | nil => exact absurd mem not_mem_nil
  | cons m hot ih =>
    rw [map_cons, nodup_cons] at distinct
    rcases mem_cons.mp mem with rfl | later
    · exact List.find?_cons_of_pos (decide_eq_true rfl)
    · have other : m.id ≠ msg.id := fun same =>
        distinct.1 (same ▸ List.mem_map_of_mem later)
      rw [List.find?_cons_of_neg (by rw [decide_eq_true_eq]; exact other)]
      exact ih distinct.2 later

theorem eraseP_id {hot : List StoredMessage} {id creatorId : Uuid} {content : List Byte}
    (distinct : (hot.map StoredMessage.id).Nodup)
    (found : ∃ m ∈ hot, m.Matches id creatorId content) :
    hot.eraseP (fun m => m.Matches id creatorId content) = hot.filter fun m => m.id ≠ id := by
  induction hot with
  | nil =>
    obtain ⟨m, mem, -⟩ := found
    exact absurd mem not_mem_nil
  | cons m hot ih =>
    rw [map_cons, nodup_cons] at distinct
    by_cases here : m.Matches id creatorId content
    · have rest : ∀ x ∈ hot, x.id ≠ id := fun x mem same =>
        distinct.1 (here.1 ▸ same ▸ List.mem_map_of_mem mem)
      rw [eraseP_cons_of_pos, filter_cons_of_neg]
      · refine (filter_eq_self.mpr fun x mem => ?_).symm
        exact decide_eq_true (rest x mem)
      · exact fun other => of_decide_eq_true other here.1
      · exact decide_eq_true here
    · obtain ⟨x, mem, found⟩ := found
      have later : x ∈ hot := by
        rcases mem_cons.mp mem with rfl | later
        · exact absurd found here
        · exact later
      have other : m.id ≠ id := fun same =>
        distinct.1 (same.trans found.1.symm ▸ List.mem_map_of_mem later)
      rw [eraseP_cons_of_neg, filter_cons_of_pos, ih distinct.2 ⟨x, later, found⟩]
      · exact decide_eq_true other
      · exact fun found => here (of_decide_eq_true found)

variable {messages : List StoredMessage} {index index' : Uuid → Option Nat}

variable {seq : Nat} (recovered : recover hotSize seq messages (index, hot) = some (index', hot'))
include recovered

theorem recover_hot (fits : hot.length ≤ hotSize) : hot' = (hot ++ messages.map StoredMessage.decoded).drop
      (hot.length + messages.length - hotSize) := by
  induction messages generalizing seq index hot with
  | nil =>
    cases recovered
    rw [map_nil, append_nil, length_nil, Nat.add_zero, Nat.sub_eq_zero_of_le fits]
    rfl
  | cons m messages ih =>
    obtain ⟨next, added, recovered⟩ := bind_eq_some_iff.mp recovered
    rcases addToHot_cases added with ⟨room, rfl⟩ | ⟨x, rest, full, rfl, rfl⟩
    · have tail := ih recovered (by rw [length_append]; exact room)
      rw [tail, length_append, List.append_assoc]
      congr 2
      exact Nat.add_right_comm _ _ _
    · have length : (rest ++ [m.decoded]).length = (x :: rest).length := by
        rw [length_append]
        rfl
      rw [ih recovered (length ▸ fits), length, List.append_assoc, length_cons (a := m)]
      have shift : (x :: rest).length + (messages.length + 1) - hotSize =
          (x :: rest).length + messages.length - hotSize + 1 := by omega
      rw [shift]
      rfl

theorem recover_index (id : Uuid) :
    (index' id = none ↔ index id = none ∧ ∀ m ∈ messages, m.id ≠ id) ∧
      ∀ q, index' id = some q → index id = some q ∨ (seq ≤ q ∧ q < seq + messages.length) := by
  induction messages generalizing seq index hot with
  | nil =>
    cases recovered
    refine ⟨⟨fun none => ⟨none, fun m mem => absurd mem not_mem_nil⟩, And.left⟩, ?_⟩
    exact fun q => .inl
  | cons m messages ih =>
    obtain ⟨next, -, recovered⟩ := bind_eq_some_iff.mp recovered
    obtain ⟨absent, numbered⟩ := ih recovered
    rw [forall_mem_cons, length_cons]
    by_cases same : id = m.id
    · have here : setIndex index m.decoded.id (some seq) id = some seq := if_pos same
      rw [here] at absent numbered
      constructor
      · rw [absent]
        constructor
        · rintro ⟨never, -⟩
          cases never
        · exact fun other => absurd same.symm other.2.1
      · intro q found
        rcases numbered q found with first | later
        · cases first
          exact .inr ⟨Nat.le_refl _, by omega⟩
        · exact .inr (by omega)
    · have other : setIndex index m.decoded.id (some seq) id = index id := if_neg same
      rw [other] at absent numbered
      constructor
      · rw [absent]
        exact ⟨fun h => ⟨h.1, fun e => same e.symm, h.2⟩, fun h => ⟨h.1, h.2.2⟩⟩
      · intro q found
        rcases numbered q found with old | later
        · exact .inl old
        · exact .inr (by omega)

end Lemmas

section Steps

variable {s s' : WalStore} {msg : StoredMessage} {id creatorId : Uuid} {content : List Byte}

theorem push_eq (pushed : s.push msg = some s') :
    s.closed = false ∧ msg.validate = true ∧ ∃ hot, addToHot s.hotSize s.hot msg = some hot ∧
      s' = { s with
        wal := s.wal ++ [msg]
        index := setIndex s.index msg.id (some (s.wal.length + 1))
        hot := hot } := by
  rw [push] at pushed
  split at pushed
  case isTrue refused => cases pushed
  case isFalse accepted =>
    obtain ⟨hot, added, next⟩ := bind_eq_some_iff.mp pushed
    rw [not_or, Bool.not_eq_true, Bool.not_eq_false] at accepted
    exact ⟨accepted.1, accepted.2, hot, added, (some.inj next).symm⟩

theorem delete_cases (s : WalStore) (id creatorId : Uuid) (content : List Byte) :
    (s.closed = false ∧ (∃ m ∈ s.hot, m.Matches id creatorId content) ∧
      s.delete id creatorId content = (.ok (), { s with
        hot := s.hot.eraseP fun m => m.Matches id creatorId content
        index := setIndex s.index id none
        pg := s.pg.map fun rows => rows.delete id creatorId content
        deleted := s.deleted ++ [id] })) ∨
      (¬ (s.closed = false ∧ ∃ m ∈ s.hot, m.Matches id creatorId content) ∧
        (s.delete id creatorId content).2 = s ∧ (s.delete id creatorId content).1 ≠ .ok ()) := by
  rw [delete]
  split
  case isTrue closed =>
    refine .inr ⟨fun opened => ?_, rfl, fun ok => nomatch ok⟩
    rw [closed] at opened
    exact nomatch opened.1
  case isFalse opened =>
    split
    case isTrue found => exact .inl ⟨Bool.not_eq_true _ ▸ opened, found, rfl⟩
    case isFalse missing => exact .inr ⟨fun found => missing found.2, rfl, fun ok => nomatch ok⟩

theorem delete_ok_iff : (s.delete id creatorId content).1 = .ok () ↔
    s.closed = false ∧ ∃ m ∈ s.hot, m.Matches id creatorId content := by
  rcases delete_cases s id creatorId content with ⟨opened, found, next⟩ | ⟨missing, -, fails⟩
  · rw [next]
    exact iff_of_true rfl ⟨opened, found⟩
  · exact iff_of_false fails missing

theorem Kept.push (kept : s.Kept) (fresh : ∀ m ∈ s.wal, m.id ≠ msg.id)
    (pushed : s.push msg = some s') : s'.Kept := by
  obtain ⟨-, -, hot, added, rfl⟩ := push_eq pushed
  have ids : (s.wal ++ [msg]).map StoredMessage.id = s.wal.map StoredMessage.id ++ [msg.id] :=
    map_append
  refine ⟨?_, ?_, ?_, ?_⟩
  · rw [ids, nodup_append]
    refine ⟨kept.distinct, pairwise_singleton _ _, fun a old b new => ?_⟩
    obtain ⟨m, mem, rfl⟩ := List.mem_map.mp old
    rw [mem_singleton.mp new]
    exact fresh m mem
  · have suffix := ((addToHot_suffix added).sublist).map StoredMessage.id
    rw [map_append] at suffix
    rw [ids]
    exact suffix.trans (kept.ordered.append_right _)
  · intro id deleted
    rw [ids]
    exact mem_append_left _ (kept.known id deleted)
  · intro id seq indexed
    rw [length_append]
    change setIndex s.index msg.id (some (s.wal.length + 1)) id = some seq at indexed
    rw [setIndex] at indexed
    split at indexed
    · cases indexed
      exact ⟨Nat.succ_pos _, Nat.le_refl _⟩
    · obtain ⟨pos, bounded⟩ := kept.indexed id seq indexed
      exact ⟨pos, Nat.le_add_right_of_le bounded⟩

theorem Kept.delete (kept : s.Kept) : (s.delete id creatorId content).2.Kept := by
  rcases delete_cases s id creatorId content with ⟨-, ⟨m, mem, found⟩, next⟩ | ⟨-, same, -⟩
  · rw [next]
    refine ⟨kept.distinct, ?_, ?_, ?_⟩
    · exact (eraseP_sublist.map StoredMessage.id).trans kept.ordered
    · intro x deleted
      rcases mem_append.mp deleted with old | new
      · exact kept.known x old
      · rw [mem_singleton.mp new, ← found.1]
        exact kept.ordered.subset (List.mem_map_of_mem mem)
    · intro x seq indexed
      change setIndex s.index id none x = some seq at indexed
      rw [setIndex] at indexed
      split at indexed
      · cases indexed
      · exact kept.indexed x seq indexed
  · rw [same]
    exact kept

theorem Kept.reopen (kept : s.Kept) {index : Uuid → Option Nat} {hot : List StoredMessage}
    (recovered : recover s.hotSize 1 s.wal (fun _ => none, []) = some (index, hot)) :
    ({ s with closed := false, index := index, hot := hot, flusher := .idle } : WalStore).Kept := by
  refine ⟨kept.distinct, ?_, kept.known, ?_⟩
  · rw [recover_hot recovered (Nat.zero_le _), nil_append, map_drop, List.map_map]
    exact drop_sublist _ _
  · intro id seq indexed
    rcases (recover_index recovered id).2 seq indexed with never | ⟨pos, bounded⟩
    · cases never
    · refine ⟨pos, Nat.le_of_lt_succ ?_⟩
      rw [Nat.succ_eq_one_add]
      exact bounded

variable {event : StoreStep}

theorem step_flusher (next : s.step event = some s')
    (flusher : event = .flush ∨ event = .lastFlush ∨ event = .flushNext) :
    ∃ pg f, s' = { s with pg := pg, flusher := f } ∧
      ((pg = s.pg ∧ (event = .flushNext → s.flusher.head? = none)) ∨
        (event = .flushNext ∧ ∃ msg, s.flusher.head? = some msg ∧
          pg = s.pg.map fun rows => rows.push msg)) := by
  rcases flusher with rfl | rfl | rfl
  · rw [WalStore.step] at next
    split at next <;> cases next
    exact ⟨s.pg, _, rfl, .inl ⟨rfl, fun other => nomatch other⟩⟩
  · rw [WalStore.step] at next
    split at next <;> cases next
    exact ⟨s.pg, _, rfl, .inl ⟨rfl, fun other => nomatch other⟩⟩
  · rw [WalStore.step] at next
    split at next
    case h_1 msg rest last copy =>
      cases next
      refine ⟨_, _, rfl, .inr ⟨rfl, msg, ?_, rfl⟩⟩
      rw [copy]
      rfl
    case h_2 last copy =>
      cases next
      refine ⟨s.pg, _, rfl, .inl ⟨rfl, fun _ => ?_⟩⟩
      rw [copy]
      rfl
    case h_3 => cases next

theorem Kept.step (kept : s.Kept) (fresh : s.Fresh event) (next : s.step event = some s') :
    s'.Kept := by
  cases event with
  | push msg => exact kept.push fresh next
  | delete id creatorId content =>
    cases next
    exact kept.delete
  | flush | lastFlush | flushNext =>
    obtain ⟨pg, f, rfl, -⟩ := step_flusher next (by simp only [true_or, or_true])
    exact { kept with }
  | close =>
    rw [WalStore.step] at next
    split at next <;> cases next
    exact { kept with }
  | reopen =>
    rw [WalStore.step] at next
    split at next
    · obtain ⟨⟨index, hot⟩, recovered, next⟩ := bind_eq_some_iff.mp next
      cases next
      exact kept.reopen recovered
    · cases next

end Steps

def short (id : Uuid) : StoredMessage := ⟨id, 1, [97], [98], 1, none⟩

end WalStore

end Unheaded.Wotan
