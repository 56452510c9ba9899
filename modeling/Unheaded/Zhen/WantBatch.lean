import Mathlib.Algebra.Order.BigOperators.Group.List
import Mathlib.Data.List.TakeWhile
import Unheaded.Zhen.Gossip

/-!
# Answers to a request for fragments

The loop fills a batch up to a number of bytes and sends it when the next fragment does not fit
any more.
-/

namespace Unheaded.Zhen

open Lib List Sample GossipMessage Bincode

/-- The size of a length in the standard configuration of `bincode`. -/
def varintSize (n : Nat) : Nat :=
  if n < 251 then 1 else if n < 2 ^ 16 then 3 else if n < 2 ^ 32 then 5 else 9

/-- The size of a batch is that of the variant's index, of the number of fragments and, for each
fragment, of its length and its bytes. -/
def BatchSizes (bincode : GossipMessage → List Byte) : Prop :=
  ∀ fragments : List (List Byte), fragments.length < 2 ^ 64 → (∀ f ∈ fragments, f.length < 2 ^ 64) →
    (bincode (.fragmentBatch fragments)).length = varintSize 2 + varintSize fragments.length +
      (fragments.map fun f => varintSize f.length + f.length).sum

section Batches

variable (bincode : GossipMessage → List Byte)

def fitsAlone (encoded : List Byte) : Bool :=
  (bincode (fragmentBatch [encoded])).length ≤ maxMsgSize

variable {bincode}

def totalLength (fragments : List (List Byte)) : Nat := (fragments.map List.length).sum

theorem totalLength_singleton (f : List Byte) : totalLength [f] = f.length := by
  rw [totalLength, map_singleton, sum_singleton]

theorem varintSize_le {n : Nat} (small : n < 2 ^ 16) : varintSize n ≤ 3 := by
  rw [varintSize]
  split
  · decide
  · omega

variable {fragments : List (List Byte)}

theorem length_le_totalLength {f : List Byte} (mem : f ∈ fragments) :
    f.length ≤ totalLength fragments :=
  le_sum_of_mem (List.mem_map_of_mem mem)

theorem sizes_le (small : ∀ f ∈ fragments, f.length < 2 ^ 16) :
    (fragments.map fun f => varintSize f.length + f.length).sum ≤
      3 * fragments.length + totalLength fragments := by
  induction fragments with
  | nil => exact Nat.le_refl 0
  | cons f fragments ih =>
    obtain ⟨first, others⟩ := forall_mem_cons.mp small
    have one := varintSize_le first
    have rest := ih others
    unfold totalLength at rest ⊢
    rw [map_cons, sum_cons, map_cons, sum_cons, length_cons]
    omega

theorem fragmentBatch_fits (sizes : BatchSizes bincode)
    (few : fragments.length ≤ maxDigestsPerBatch)
    (small : totalLength fragments ≤ maxFragmentBatchBytes) :
    (bincode (fragmentBatch fragments)).length ≤ maxMsgSize := by
  have each : ∀ f ∈ fragments, f.length < 2 ^ 16 := by
    intro f mem
    have bound := length_le_totalLength mem
    unfold maxFragmentBatchBytes at small
    omega
  unfold maxDigestsPerBatch at few
  have index : varintSize 2 = 1 := rfl
  have count : varintSize fragments.length ≤ 3 := varintSize_le (by omega)
  have overhead := sizes_le each
  rw [sizes fragments (by omega) fun f mem => (each f mem).trans (by decide)]
  unfold maxFragmentBatchBytes at small
  unfold maxMsgSize
  omega

theorem fitsAlone_of_le (sizes : BatchSizes bincode) {f : List Byte}
    (small : f.length ≤ maxFragmentBatchBytes) : fitsAlone bincode f = true :=
  decide_eq_true (fragmentBatch_fits sizes (Nat.le_of_ble_eq_true rfl)
    (by rw [totalLength_singleton]; exact small))

/-- The fragments of the batch so far, and their bytes: within the limit, or one
alone. -/
structure Pending (fragments : List (List Byte)) (totalBytes : Nat) (entries : Nat) : Prop where
  total : totalBytes = totalLength fragments
  count : fragments.length ≤ entries
  limited : totalBytes ≤ maxFragmentBatchBytes ∨ ∃ f, fragments = [f]

theorem Pending.start : Pending [] 0 0 := ⟨rfl, Nat.le_refl 0, Or.inl (Nat.zero_le _)⟩

variable {entries totalBytes : Nat}

theorem Pending.later (pending : Pending fragments totalBytes entries) :
    Pending fragments totalBytes (entries + 1) :=
  ⟨pending.total, Nat.le_succ_of_le pending.count, pending.limited⟩

theorem Pending.alone (encoded : List Byte) (entries : Nat) :
    Pending [encoded] encoded.length (entries + 1) where
  total := (totalLength_singleton encoded).symm
  count := Nat.le_add_left 1 entries
  limited := Or.inr ⟨encoded, rfl⟩

theorem Pending.push (pending : Pending fragments totalBytes entries) {encoded : List Byte}
    (room : totalBytes + encoded.length ≤ maxFragmentBatchBytes) :
    Pending (fragments ++ [encoded]) (totalBytes + encoded.length) (entries + 1) where
  total := by
    rw [pending.total, ← totalLength_singleton, totalLength, totalLength, totalLength,
      map_append, sum_append]
  count := by
    have before := pending.count
    rw [length_append, length_singleton]
    omega
  limited := Or.inl room

theorem Pending.fits_or_alone (sizes : BatchSizes bincode)
    (pending : Pending fragments totalBytes entries) (few : entries ≤ maxDigestsPerBatch) :
    ((bincode (fragmentBatch fragments)).length ≤ maxMsgSize ∧
        ∀ f ∈ fragments, fitsAlone bincode f = true) ∨
      maxMsgSize < (bincode (fragmentBatch fragments)).length ∧
        ∃ f, fragments = [f] ∧ fitsAlone bincode f = false := by
  rcases pending.limited with small | ⟨f, rfl⟩
  · rw [pending.total] at small
    refine Or.inl ⟨fragmentBatch_fits sizes (pending.count.trans few) small, fun f mem => ?_⟩
    exact fitsAlone_of_le sizes ((length_le_totalLength mem).trans small)
  · by_cases fit : (bincode (fragmentBatch [f])).length ≤ maxMsgSize
    · refine Or.inl ⟨fit, fun g mem => ?_⟩
      rw [mem_singleton.mp mem]
      exact decide_eq_true fit
    · exact Or.inr ⟨Nat.lt_of_not_le fit, f, rfl, decide_eq_false fit⟩

end Batches

section Loop

variable {τ α : Type} {blake3 : List Byte → FragmentId} {codec : FragmentCodec τ}
  {bincode : GossipMessage → List Byte}

variable (blake3 codec) in
/-- The lookups of the wanted ids, one for each entry of the request. -/
def lookups (world : Outside τ) :
    List FragmentId → Nat → TieredStore τ → List (Except ZhenError (Option (Fragment τ)))
  | [], _, _ => []
  | id :: rest, i, s =>
    (s.get blake3 codec id (world.now i) (world.removed i)).1 ::
      lookups world rest (i + 1) (s.get blake3 codec id (world.now i) (world.removed i)).2

variable (codec) in
/-- The encodings of the fragments that lookups found. -/
def encodings : List (Except ZhenError (Option (Fragment τ))) → List (List Byte)
  | [] => []
  | .ok (some f) :: rest => codec.encode f :: encodings rest
  | _ :: rest => encodings rest

variable (target : α) (bincode)

def batchesFor (batches : List (List (List Byte))) : List (α × GossipMessage) :=
  batches.map fun batch => (target, .fragmentBatch batch)

/-- The messages that were sent are batches that fit, and hold some fragments. -/
def SentBatches (before after : List (α × GossipMessage)) (fragments : List (List Byte)) : Prop :=
  ∃ batches, after = before ++ batchesFor target batches ∧
    (∀ batch ∈ batches, (bincode (fragmentBatch batch)).length ≤ maxMsgSize) ∧
    batches.flatten = fragments

theorem SentBatches.none (sent : List (α × GossipMessage)) :
    SentBatches bincode target sent sent [] :=
  ⟨[], (append_nil sent).symm, fun _ none => (nomatch none), rfl⟩

variable {bincode}

theorem SentBatches.one (sent : List (α × GossipMessage)) {batch : List (List Byte)}
    (fits : (bincode (fragmentBatch batch)).length ≤ maxMsgSize) :
    SentBatches bincode target sent (sent ++ [(target, GossipMessage.fragmentBatch batch)]) batch :=
  ⟨[batch], rfl, fun _ mem => by rw [mem_singleton.mp mem]; exact fits, flatten_singleton⟩

theorem SentBatches.trans {target : α} {first second third : List (α × GossipMessage)}
    {left right : List (List Byte)} (before : SentBatches bincode target first second left)
    (after : SentBatches bincode target second third right) :
    SentBatches bincode target first third (left ++ right) := by
  obtain ⟨batches, rfl, fits, rfl⟩ := before
  obtain ⟨more, rfl, also, rfl⟩ := after
  refine ⟨batches ++ more, ?_, ?_, flatten_append⟩
  · rw [batchesFor, batchesFor, batchesFor, map_append, List.append_assoc]
  · intro batch mem
    rcases mem_append.mp mem with inside | inside
    · exact fits batch inside
    · exact also batch inside

variable {n : Node τ α} {msg : GossipMessage}

theorem sendMessage_fits (fits : (bincode msg).length ≤ maxMsgSize) (target : α)
    {socket : Nat → Bool} (takes : ∀ k, socket k = true) :
    n.sendMessage bincode msg target socket = (.ok (), { n with sent := n.sent ++ [(target, msg)] }) := by
  rw [Node.sendMessage, encode, if_neg (Nat.not_lt.mpr fits)]
  rw [if_pos (takes _)]

theorem sendMessage_oversized (large : maxMsgSize < (bincode msg).length) (target : α)
    (socket : Nat → Bool) : n.sendMessage bincode msg target socket =
      (.error (.transport (bincode msg).length maxMsgSize), n) := by
  rw [Node.sendMessage, encode, if_pos large]

variable {world : Outside τ}

/-- What the handler sends from some point of the loop on: everything up to the
first fragment that is too large. -/
theorem wantLoop_sent (sizes : BatchSizes bincode) (takes : ∀ k, world.socket k = true) (target : α)
    (wanted : List FragmentId) (i : Nat) (fragments : List (List Byte)) (totalBytes : Nat)
    (n : Node τ α) (few : i + wanted.length ≤ maxDigestsPerBatch) (pending : Pending fragments totalBytes i)
    (found : ∀ r ∈ lookups blake3 codec world wanted i n.store, r.isOk = true) :
    SentBatches bincode target n.sent (sendRemaining bincode world.socket target
        (wantLoop blake3 codec bincode world target wanted i fragments totalBytes n)).2.sent
      ((fragments ++ encodings codec (lookups blake3 codec world wanted i n.store)).takeWhile
        (fitsAlone bincode)) := by
  induction wanted generalizing i fragments totalBytes n with
  | nil =>
    rw [wantLoop, lookups, encodings, append_nil]
    cases fragments with
    | nil => exact SentBatches.none bincode target n.sent
    | cons first rest =>
      rw [sendRemaining]
      rcases pending.fits_or_alone sizes (by simpa using few) with ⟨fits, all⟩ | ⟨large, f, alone, big⟩
      · rw [sendMessage_fits fits target takes, takeWhile_eq_self_iff.mpr all]
        exact SentBatches.one target n.sent fits
      · rw [sendMessage_oversized large, alone, takeWhile_cons_of_neg (by simp [big])]
        exact SentBatches.none bincode target n.sent
  | cons id rest ih =>
    rw [length_cons] at few
    rw [lookups] at found ⊢
    rw [wantLoop]
    generalize n.store.get blake3 codec id (world.now i) (world.removed i) = got at found ⊢
    obtain ⟨result, s⟩ := got
    obtain ⟨this, others⟩ := forall_mem_cons.mp found
    cases result with
    | error e => cases this
    | ok result =>
      cases result with
      | none =>
        exact ih (i + 1) fragments totalBytes { n with store := s } (by omega) pending.later others
      | some f =>
        dsimp only [encodings]
        by_cases full : maxFragmentBatchBytes < totalBytes + (codec.encode f).length
        · rw [if_pos full]
          rcases pending.fits_or_alone sizes (by omega) with ⟨fits, all⟩ | ⟨large, g, alone, big⟩
          · rw [sendMessage_fits fits target takes]
            have rest := ih (i + 1) [codec.encode f] (codec.encode f).length { n with
                store := s
                sent := n.sent ++ [(target, .fragmentBatch fragments)] }
              (by omega) (Pending.alone _ i) others
            rw [takeWhile_append_of_pos all]
            exact (SentBatches.one target n.sent fits).trans rest
          · rw [sendMessage_oversized large, alone, List.cons_append,
              takeWhile_cons_of_neg (by simp [big])]
            exact SentBatches.none bincode target n.sent
        · rw [if_neg full]
          have rest := ih (i + 1) (fragments ++ [codec.encode f])
            (totalBytes + (codec.encode f).length) { n with store := s } (by omega)
            (pending.push (Nat.le_of_not_lt full)) others
          rwa [List.append_assoc] at rest

theorem handleWant_sent (sizes : BatchSizes bincode) (takes : ∀ k, world.socket k = true)
    (sender : α) {wanted : List FragmentId} (n : Node τ α) (few : wanted.length ≤ maxDigestsPerBatch)
    (found : ∀ r ∈ lookups blake3 codec world wanted 0 n.store, r.isOk = true) :
    SentBatches bincode sender n.sent (n.handleWant blake3 codec bincode wanted sender world).2.sent
      ((encodings codec (lookups blake3 codec world wanted 0 n.store)).takeWhile
        (fitsAlone bincode)) := by
  have sent := wantLoop_sent sizes takes sender wanted 0 [] 0 n (by omega) Pending.start found
  rw [Node.handleWant, if_neg (Nat.not_lt.mpr few)]
  exact sent

variable (blake3 codec bincode) in
/-- A request is fully answered: by batches that fit, with all wanted fragments
that the store holds and that fit. -/
def FullyAnswered (n : Node τ α) (wanted : List FragmentId) (sender : α) (world : Outside τ) : Prop :=
  SentBatches bincode sender n.sent (n.handleWant blake3 codec bincode wanted sender world).2.sent
    ((encodings codec (lookups blake3 codec world wanted 0 n.store)).filter (fitsAlone bincode))

theorem filter_eq_takeWhile {β : Type} {p : β → Bool} {l : List β}
    (ordered : l.Pairwise fun a b => p b = true → p a = true) : l.filter p = l.takeWhile p := by
  induction l with
  | nil => rfl
  | cons a l ih =>
    obtain ⟨front, behind⟩ := pairwise_cons.mp ordered
    by_cases pass : p a = true
    · rw [filter_cons_of_pos pass, takeWhile_cons_of_pos pass, ih behind]
    · rw [filter_cons_of_neg pass, takeWhile_cons_of_neg pass, filter_eq_nil_iff]
      exact fun b mem passes => pass (front b mem passes)

/-- A request of bounded length is fully answered, where the socket takes every message, no lookup
fails and no fragment that is too large stands before one that fits. -/
theorem wantBatch_fully_answered (sizes : BatchSizes bincode) (n : Node τ α)
    (wanted : List FragmentId) (sender : α) (world : Outside τ) (takes : ∀ k, world.socket k = true)
    (few : wanted.length ≤ maxDigestsPerBatch)
    (found : ∀ r ∈ lookups blake3 codec world wanted 0 n.store, r.isOk = true)
    (ordered : (encodings codec (lookups blake3 codec world wanted 0 n.store)).Pairwise
      fun a b => fitsAlone bincode b = true → fitsAlone bincode a = true) :
    FullyAnswered blake3 codec bincode n wanted sender world := by
  rw [FullyAnswered, filter_eq_takeWhile ordered]
  exact handleWant_sent sizes takes sender n few found

end Loop

theorem SentBatches.unique {α : Type} {bincode : GossipMessage → List Byte} {target : α}
    {before after : List (α × GossipMessage)} {left right : List (List Byte)}
    (one : SentBatches bincode target before after left)
    (other : SentBatches bincode target before after right) : left = right := by
  obtain ⟨batches, rfl, -, rfl⟩ := one
  obtain ⟨others, same, -, rfl⟩ := other
  have injective : Function.Injective fun batch : List (List Byte) =>
      ((target, .fragmentBatch batch) : α × GossipMessage) := by
    intro a b eq
    cases eq
    rfl
  rw [map_injective_iff.mpr injective (append_cancel_left same)]

theorem embedding_le_encode {τ : Type} (time : Format τ) (f : Fragment τ) :
    f.embedding.length ≤ ((bincodeCodec time).encode f).length := by
  obtain ⟨tail, encoded⟩ : ∃ tail, (bincodeCodec time).encode f =
      f.id.1 ++ (bytes.encode f.payload ++ (bytes.encode f.embedding ++ tail)) :=
    ⟨_, rfl⟩
  rw [encoded, length_append, length_append, length_append,
    length_encode_bytes f.embedding]
  omega

namespace Sample

def boulder : Fragment Moment := Fragment.new hash [] (replicate 65000 0) none .first

/-- A store with some hot fragments. -/
def hotNode (hot : List (Fragment Moment)) (archive : List Byte) : Node Moment Nat where
  store := { l1 := hot.foldl (fun l1 f => l1.insert f.id f) ∅, l2 := ∅, l3 := archive }
  peers := PeerList.new
  sent := []
  ingested := []

def calm : Outside Moment := ⟨fun _ => .second, fun _ => true, fun _ => true⟩

/-- Batches as `bincode` writes them; no other message is sent here. -/
def bincode : GossipMessage → List Byte
  | .fragmentBatch fragments => varint 2 ++ (list bytes).encode fragments
  | _ => []

theorem length_varint {n : Nat} (small : n < 2 ^ 64) : (varint n).length = varintSize n := by
  unfold varint varintSize
  repeat' split
  all_goals simp_all [length_leBytes]

theorem bincode_sizes : BatchSizes bincode := by
  intro fragments few small
  have bytes : (fragments.flatMap bytes.encode).length =
      (fragments.map fun f => varintSize f.length + f.length).sum := by
    rw [length_flatMap]
    congr 1
    refine map_congr_left fun f mem => ?_
    rw [length_encode_bytes, length_varint (small f mem)]
  change (Bincode.varint 2 ++ (Bincode.varint fragments.length ++
    fragments.flatMap Bincode.bytes.encode)).length = _
  rw [length_append, length_append, bytes, length_varint (by decide), length_varint few,
    Nat.add_assoc]

theorem fitsAlone_of_large {f : List Byte} (large : maxMsgSize ≤ f.length) :
    fitsAlone bincode f = false := by
  refine decide_eq_false (Nat.not_le.mpr ?_)
  have index : (varint 2).length = 1 := rfl
  change _ < (varint 2 ++ (varint 1 ++ [f].flatMap bytes.encode)).length
  rw [length_append, length_append, flatMap_singleton, length_encode_bytes]
  omega

end Sample

theorem not_fullyAnswered_of_silent {τ α : Type} {blake3 : List Byte → FragmentId}
    {codec : FragmentCodec τ} {bincode : GossipMessage → List Byte}
    {n : Node τ α} {wanted : List FragmentId} {sender : α}
    {world : Outside τ} (silent : (n.handleWant blake3 codec bincode wanted sender world).2.sent = n.sent)
    {first : List Byte}
    (held : (encodings codec (lookups blake3 codec world wanted 0 n.store)).head? = some first)
    (fits : fitsAlone bincode first = true) :
    ¬ FullyAnswered blake3 codec bincode n wanted sender world := by
  intro answered
  obtain ⟨rest, eq⟩ := List.head?_eq_some_iff.mp held
  rw [FullyAnswered, silent, eq, filter_cons_of_pos fits] at answered
  cases (SentBatches.none bincode sender n.sent).unique answered

theorem wantBatch_answered_sample : FullyAnswered hash codec bincode (hotNode [ancient] [])
      [emptyId, wisdomId] 7302 calm :=
  wantBatch_fully_answered bincode_sizes _ _ _ _ (fun _ => rfl) (by decide) (by decide) (by decide)

/-- Too many entries, a fragment that is too large before one that fits, and a
lookup that fails behind one that succeeds. -/
theorem wantBatch_not_answered : ¬ FullyAnswered hash codec bincode (hotNode [ancient] [])
        (replicate 1501 wisdomId) 7302 calm ∧
      ¬ FullyAnswered hash codec bincode (hotNode [boulder, ancient] [])
        [emptyId, wisdomId] 7302 calm ∧
      ¬ FullyAnswered hash codec bincode (hotNode [ancient] (leBytes 4 1))
        [wisdomId, emptyId] 7302 calm := by
  have fits : fitsAlone bincode (codec.encode (ancient.touch .second)) = true := by decide
  refine ⟨?_, ?_, ?_⟩
  · refine not_fullyAnswered_of_silent ?_ ?_ fits
    · rw [Node.handleWant, if_pos (by rw [length_replicate]; decide)]
    · rfl
  · intro answered
    have found : lookups hash codec calm [emptyId, wisdomId] 0
        (hotNode [boulder, ancient] []).store =
        [.ok (some (boulder.touch .second)), .ok (some (ancient.touch .second))] := rfl
    have large : fitsAlone bincode (codec.encode (boulder.touch .second)) = false := by
      refine fitsAlone_of_large (Nat.le_trans ?_ (embedding_le_encode _ _))
      exact Nat.le_of_eq (length_replicate).symm
    have short : [emptyId, wisdomId].length ≤ maxDigestsPerBatch := by decide
    have same := answered.unique (handleWant_sent bincode_sizes (fun _ => rfl) 7302
      (hotNode [boulder, ancient] []) short (by rw [found]; decide))
    rw [found] at same
    simp [encodings, large, fits] at same
  · refine not_fullyAnswered_of_silent ?_ ?_ fits
    · rfl
    · rfl

end Unheaded.Zhen
