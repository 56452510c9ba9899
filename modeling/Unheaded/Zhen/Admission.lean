import Unheaded.Zhen.Gossip

/-!
# The admission of peers

A node with an identity gives fragments and digests only to addresses that have proved an
identity, and takes fragments only from them.
-/

namespace Unheaded.Zhen

open Lib List PeerList Node

def GossipMessage.carriesData : GossipMessage → Bool
  | .digestBatch _ | .wantBatch _ | .fragmentBatch _ => true
  | _ => false

variable {τ α : Type} [DecidableEq α]

def PeerList.authenticated (l : PeerList τ α) (addr : α) : Bool :=
  (l.peers.lookup addr).any Peer.authenticated

def PeerList.Keyed (l : PeerList τ α) : Prop := ∀ addr p, l.peers.lookup addr = some p → p.addr = addr

/-- A later table, in which only peers of `proved` are authenticated anew. -/
structure PeerList.Follows (proved : α → Prop) (l l' : PeerList τ α) : Prop where
  keyed : l.Keyed → l'.Keyed
  authenticated : ∀ addr, l'.authenticated addr = true → l.authenticated addr = true ∨ proved addr

section Follows

variable {proved : α → Prop} {l : PeerList τ α}

theorem PeerList.Follows.refl (l : PeerList τ α) : PeerList.Follows proved l l :=
  ⟨id, fun _ => Or.inl⟩

theorem PeerList.Follows.trans {l' l'' : PeerList τ α} (first : PeerList.Follows proved l l')
    (second : PeerList.Follows proved l' l'') : PeerList.Follows proved l l'' := by
  refine ⟨fun keyed => second.keyed (first.keyed keyed), fun addr now => ?_⟩
  rcases second.authenticated addr now with before | new
  · exact first.authenticated addr before
  · exact Or.inr new

theorem PeerList.follows_insert {addr : α} {p : Peer τ α} (own : l.Keyed → p.addr = addr)
    (known : p.authenticated = true → l.authenticated addr = true ∨ proved addr) :
    PeerList.Follows proved l { l with peers := l.peers.insert addr p } := by
  refine ⟨?_, ?_⟩
  · intro keyed other q found
    by_cases same : other = addr
    · subst same
      rw [AList.lookup_insert] at found
      cases found
      exact own keyed
    · rw [AList.lookup_insert_ne same] at found
      exact keyed other q found
  · intro other now
    unfold authenticated at now
    by_cases same : other = addr
    · subst same
      rw [AList.lookup_insert] at now
      exact known now
    · rw [AList.lookup_insert_ne same] at now
      exact Or.inl now

theorem PeerList.follows_modify (addr : α) {change : Peer τ α → Peer τ α}
    (own : ∀ p, (change p).addr = p.addr)
    (known : ∀ p, (change p).authenticated = true → p.authenticated = true ∨ proved addr) :
    PeerList.Follows proved l (l.modify addr change) := by
  unfold modify
  cases found : l.peers.lookup addr with
  | none => exact PeerList.Follows.refl l
  | some p =>
    refine follows_insert (fun keyed => (own p).trans (keyed addr p found)) ?_
    intro now
    rw [authenticated, found]
    exact known p now

omit [DecidableEq α] in
theorem Peer.markAlive_addr (p : Peer τ α) (incarnation count : BitVec 64) (now : τ) :
    (p.markAlive incarnation count now).addr = p.addr := by
  unfold Peer.markAlive
  split <;> rfl

omit [DecidableEq α] in
theorem Peer.markAlive_authenticated (p : Peer τ α) (incarnation count : BitVec 64) (now : τ) :
    (p.markAlive incarnation count now).authenticated = p.authenticated := by
  unfold Peer.markAlive
  split <;> rfl

theorem PeerList.follows_addOrUpdate (addr : α) (incarnation count : BitVec 64) (now : τ) :
    PeerList.Follows proved l (l.addOrUpdate addr incarnation count now) := by
  unfold addOrUpdate
  cases found : l.peers.lookup addr with
  | none => exact follows_insert (fun _ => rfl) (fun none => (nomatch none))
  | some p =>
    refine follows_insert
      (fun keyed => (p.markAlive_addr incarnation count now).trans (keyed addr p found)) ?_
    intro flag
    rw [p.markAlive_authenticated] at flag
    rw [authenticated, found]
    exact Or.inl flag

theorem PeerList.follows_recordMissedPing (addr : α) :
    PeerList.Follows proved l (l.recordMissedPing addr) := by
  refine follows_modify addr ?_ ?_
  · intro p
    dsimp only
    split
    · unfold Peer.confirmDead
      split <;> rfl
    · rfl
  · intro p now
    left
    dsimp only at now
    split at now
    · unfold Peer.confirmDead at now
      split at now <;> exact now
    · exact now

theorem PeerList.follows_addSeeds (seeds : List α) (now : τ) :
    PeerList.Follows proved l (l.addSeeds seeds now) := by
  unfold addSeeds
  induction seeds generalizing l with
  | nil => exact PeerList.Follows.refl l
  | cons addr seeds ih =>
    rw [foldl_cons]
    split
    · exact ih
    · have seeded : PeerList.Follows proved l
          { l with peers := l.peers.insert addr (Peer.new addr now) } :=
        follows_insert (fun _ => rfl) (fun none => (nomatch none))
      exact seeded.trans ih

theorem lookup_eraseAll {β : Type} (test : α → Bool) (keys : List α) (m : AList fun _ : α => β)
    {addr : α} {p : β}
    (found : (keys.foldl (fun m addr => if test addr then m.erase addr else m) m).lookup addr =
      some p) : m.lookup addr = some p := by
  induction keys generalizing m with
  | nil => exact found
  | cons key keys ih =>
    rw [foldl_cons] at found
    have step := ih _ found
    split at step
    · by_cases same : addr = key
      · subst same
        simp [AList.lookup_erase] at step
      · rwa [AList.lookup_erase_ne same] at step
    · exact step

theorem PeerList.follows_reapDead (old : τ → Bool) :
    PeerList.Follows proved l (l.reapDead old) := by
  refine ⟨fun keyed addr p found => keyed addr p (lookup_eraseAll _ _ _ found), ?_⟩
  intro addr now
  left
  unfold authenticated at now ⊢
  cases found : (l.reapDead old).peers.lookup addr with
  | none =>
    simp [found] at now
  | some p =>
    rw [found] at now
    rw [lookup_eraseAll _ _ _ found]
    exact now

end Follows

def Extends {β : Type} (allowed : β → Prop) (log log' : List β) : Prop :=
  ∃ new, log' = log ++ new ∧ ∀ b ∈ new, allowed b

section

variable {β : Type} {allowed : β → Prop}

theorem Extends.refl (log : List β) : Extends allowed log log :=
  ⟨[], (append_nil log).symm, fun _ none => (nomatch none)⟩

theorem Extends.trans {log log' log'' : List β}
    (first : Extends allowed log log') (second : Extends allowed log' log'') :
    Extends allowed log log'' := by
  obtain ⟨new, rfl, ok⟩ := first
  obtain ⟨more, rfl, also⟩ := second
  exact ⟨new ++ more, List.append_assoc log new more, forall_mem_append.mpr ⟨ok, also⟩⟩

theorem Extends.one (log : List β) {b : β} (ok : allowed b) : Extends allowed log (log ++ [b]) :=
  ⟨[b], rfl, forall_mem_singleton.mpr ok⟩

end

/-- A later node: what was sent and taken in between passes some tests, and only
peers of `proved` are authenticated anew. -/
structure Proceeds (gives : α × GossipMessage → Prop) (takes proved : α → Prop) (n n' : Node τ α) :
    Prop where
  sent : Extends gives n.sent n'.sent
  ingested : Extends (fun g => takes g.1) n.ingested n'.ingested
  peers : PeerList.Follows proved n.peers n'.peers

section Proceeds

variable {gives : α × GossipMessage → Prop} {takes proved : α → Prop} {n : Node τ α}
  {bincode : GossipMessage → List Byte}

theorem Proceeds.refl (n : Node τ α) : Proceeds gives takes proved n n :=
  ⟨Extends.refl _, Extends.refl _, PeerList.Follows.refl _⟩

theorem Proceeds.trans {n' n'' : Node τ α} (first : Proceeds gives takes proved n n')
    (second : Proceeds gives takes proved n' n'') : Proceeds gives takes proved n n'' :=
  ⟨first.sent.trans second.sent, first.ingested.trans second.ingested,
    first.peers.trans second.peers⟩

theorem Proceeds.foldl {β : Type} {turn : Node τ α → β → Node τ α} (items : List β)
    (each : ∀ n, ∀ b ∈ items, Proceeds gives takes proved n (turn n b)) (n : Node τ α) :
    Proceeds gives takes proved n (items.foldl turn n) := by
  induction items generalizing n with
  | nil => exact Proceeds.refl n
  | cons b items ih =>
    obtain ⟨first, others⟩ : (∀ n, Proceeds gives takes proved n (turn n b)) ∧
        ∀ n, ∀ b ∈ items, Proceeds gives takes proved n (turn n b) :=
      ⟨fun n => each n b mem_cons_self, fun n b mem => each n b (mem_cons_of_mem _ mem)⟩
    exact (first n).trans (ih others (turn n b))

theorem proceeds_store (n : Node τ α) (s : TieredStore τ) :
    Proceeds gives takes proved n { n with store := s } :=
  ⟨Extends.refl _, Extends.refl _, PeerList.Follows.refl _⟩

theorem proceeds_peers {l : PeerList τ α} (follows : PeerList.Follows proved n.peers l) :
    Proceeds gives takes proved n { n with peers := l } :=
  ⟨Extends.refl _, Extends.refl _, follows⟩

theorem proceeds_send (n : Node τ α) {msg : GossipMessage} {target : α} (socket : Nat → Bool)
    (allowed : gives (target, msg)) :
    Proceeds gives takes proved n (n.sendMessage bincode msg target socket).2 := by
  unfold sendMessage
  split
  · exact Proceeds.refl n
  · exact ⟨Extends.one _ allowed, Extends.refl _, PeerList.Follows.refl _⟩

theorem proceeds_recordContact (n : Node τ α) (sender : α) (incarnation count : BitVec 64) (now : τ) :
    Proceeds gives takes proved n (n.recordContact sender incarnation count now) :=
  proceeds_peers (follows_addOrUpdate sender incarnation count now)

theorem proceeds_admitPeer (n : Node τ α) {sender : α} (identity : PeerIdentity) (now : τ)
    (ok : proved sender) : Proceeds gives takes proved n (n.admitPeer sender identity now) :=
  proceeds_peers ((follows_addOrUpdate sender 0 0 now).trans
    (follows_modify sender (fun _ => rfl) fun _ _ => Or.inr ok))

end Proceeds

section Handlers

variable {blake3 : List Byte → FragmentId} {codec : FragmentCodec τ}
  {bincode : GossipMessage → List Byte}
  {verify : List Byte → List Byte → List Byte → Except ZhenError Bool}
  {gives : α × GossipMessage → Prop} {takes proved : α → Prop}

theorem proceeds_wantLoop {world : Outside τ} {target : α}
    (allowed : ∀ fragments, gives (target, .fragmentBatch fragments)) (wanted : List FragmentId)
    (i : Nat) (fragments : List (List Byte)) (totalBytes : Nat) (n : Node τ α) :
    Proceeds gives takes proved n
      (wantLoop blake3 codec bincode world target wanted i fragments totalBytes n).2 := by
  induction wanted generalizing i fragments totalBytes n with
  | nil => exact Proceeds.refl n
  | cons id rest ih =>
    rw [wantLoop]
    split
    · next s _ => exact proceeds_store n s
    · next s _ => exact (proceeds_store n s).trans (ih _ _ _ _)
    · next f s _ =>
        dsimp only
        split
        · have sends : Proceeds gives takes proved n
              (sendMessage bincode { n with store := s } (.fragmentBatch fragments) target
                world.socket).2 :=
            (proceeds_store n s).trans (proceeds_send _ world.socket (allowed fragments))
          split
          · next e n' eq =>
              rwa [eq] at sends
          · next n' eq =>
              rw [eq] at sends
              exact sends.trans (ih _ _ _ _)
        · exact (proceeds_store n s).trans (ih _ _ _ _)

variable {sender : α}

variable (n : Node τ α)

theorem proceeds_handleWant (wanted : List FragmentId) (world : Outside τ)
    (allowed : ∀ fragments, gives (sender, .fragmentBatch fragments)) :
    Proceeds gives takes proved n (n.handleWant blake3 codec bincode wanted sender world).2 := by
  unfold handleWant
  split
  · exact Proceeds.refl n
  · have loop : Proceeds gives takes proved n
        (wantLoop blake3 codec bincode world sender wanted 0 [] 0 n).2 :=
      proceeds_wantLoop allowed wanted 0 [] 0 n
    generalize wantLoop blake3 codec bincode world sender wanted 0 [] 0 n = result at loop ⊢
    obtain ⟨outcome, n'⟩ := result
    cases outcome with
    | error e => exact loop
    | ok fragments =>
      cases fragments with
      | nil => exact loop
      | cons first rest => exact loop.trans (proceeds_send n' world.socket (allowed _))

theorem proceeds_handleDigests (digests : List FragmentId) (world : Outside τ)
    (allowed : ∀ wanted, gives (sender, .wantBatch wanted)) :
    Proceeds gives takes proved n (n.handleDigests blake3 codec bincode digests sender world).2 := by
  unfold handleDigests
  split
  · exact Proceeds.refl n
  · split
    · exact Proceeds.refl n
    · exact proceeds_recordContact n sender 0 0 (world.now 0)
    · next wanted _ _ =>
        have sends : Proceeds gives takes proved n
            (n.sendMessage bincode (.wantBatch wanted) sender world.socket).2 :=
          proceeds_send n world.socket (allowed wanted)
        generalize n.sendMessage bincode (.wantBatch wanted) sender world.socket = result at sends ⊢
        obtain ⟨outcome, n'⟩ := result
        cases outcome with
        | error e => exact sends
        | ok _ => exact sends.trans (proceeds_recordContact n' sender 0 0 (world.now 0))

theorem proceeds_handleFragments (fragments : List (List Byte)) (now : τ) (ok : takes sender) :
    Proceeds gives takes proved n (n.handleFragments blake3 codec fragments sender now) := by
  refine (Proceeds.foldl fragments (fun n encoded _ => ?_) n).trans
    (proceeds_recordContact _ sender 0 0 now)
  unfold ingestFrom
  split
  · exact Proceeds.refl n
  · exact ⟨Extends.refl _, Extends.one _ ok, PeerList.Follows.refl _⟩

variable {identity : PeerIdentity}

variable (n : Node τ α)

theorem proceeds_handleOffer {ours : Option PeerIdentity} (world : Outside τ)
    (ok : identity.verifySelf verify = .ok true → proved sender)
    (allowed : ∀ ours, gives (sender, .identityAck ours)) :
    Proceeds gives takes proved n (n.handleOffer bincode verify ours identity sender world).2 := by
  unfold handleOffer
  split
  · next verified =>
      have admitted : Proceeds gives takes proved n (n.admitPeer sender identity (world.now 0)) :=
        proceeds_admitPeer n identity _ (ok verified)
      cases ours with
      | none => exact admitted
      | some ours => exact admitted.trans (proceeds_send _ world.socket (allowed ours))
  · exact Proceeds.refl n

theorem proceeds_handleAck (world : Outside τ)
    (ok : identity.verifySelf verify = .ok true → proved sender) :
    Proceeds gives takes proved n (n.handleAck verify identity sender world).2 := by
  unfold handleAck
  split
  · next verified => exact proceeds_admitPeer n identity _ (ok verified)
  · exact Proceeds.refl n

theorem proceeds_handlePing (incarnation : BitVec 64) (world : Outside τ)
    (allowed : ∀ ours count, gives (sender, .pingAck ours count)) :
    Proceeds gives takes proved n (n.handlePing blake3 codec bincode incarnation sender world).2 := by
  have contact : Proceeds gives takes proved n
      (n.recordContact sender incarnation 0 (world.now 0)) :=
    proceeds_recordContact n sender incarnation 0 (world.now 0)
  unfold handlePing
  dsimp only
  split
  · exact contact
  · exact contact.trans (proceeds_send _ world.socket (allowed _ _))

theorem proceeds_pingPeer {addr : α} (socket : Nat → Bool) {ping : GossipMessage}
    (allowed : gives (addr, ping)) :
    Proceeds gives takes proved n (n.pingPeer bincode socket ping addr) := by
  have sends : Proceeds gives takes proved n (n.sendMessage bincode ping addr socket).2 :=
    proceeds_send n socket allowed
  unfold pingPeer
  generalize n.sendMessage bincode ping addr socket = result at sends ⊢
  obtain ⟨outcome, n'⟩ := result
  cases outcome with
  | ok _ => exact sends
  | error e => exact sends.trans (proceeds_peers (follows_recordMissedPing addr))

end Handlers

/-- What may happen to a running node. -/
inductive GossipEvent (τ α : Type) where
  | receive (sender : α) (msg : GossipMessage) (world : Outside τ)
  | cycle (fanout : Nat) (shuffled : List FragmentId) (order : List α) (socket : Nat → Bool)
  | reap (old : τ → Bool)

section Events

variable (blake3 : List Byte → FragmentId) (codec : FragmentCodec τ)
  (bincode : GossipMessage → List Byte)
  (verify : List Byte → List Byte → List Byte → Except ZhenError Bool) (ours : PeerIdentity)

/-- A node with an identity of its own after an event. -/
def Node.after (n : Node τ α) : GossipEvent τ α → Node τ α
  | .receive sender msg world =>
    (n.handleMessage blake3 codec bincode verify (some ours) msg sender world).2
  | .cycle fanout shuffled order socket => n.cycle bincode (some ours) fanout shuffled order socket
  | .reap old => { n with peers := n.peers.reapDead old }

/-- An event that brings a verified identity from an address. -/
def Delivers (addr : α) : GossipEvent τ α → Prop
  | .receive sender (.identityOffer identity) _ | .receive sender (.identityAck identity) _ =>
    sender = addr ∧ identity.verifySelf verify = .ok true
  | _ => False

variable {blake3 codec bincode verify ours}

def Gated (n : Node τ α) (d : α × GossipMessage) : Prop :=
  d.2.carriesData = true → n.peerAuthenticated d.1 = true

theorem after_proceeds (n : Node τ α) (keyed : n.peers.Keyed) (e : GossipEvent τ α) :
    Proceeds (Gated n) (fun addr => n.peerAuthenticated addr = true)
      (fun addr => Delivers verify addr e) n (n.after blake3 codec bincode verify ours e) := by
  cases e with
  | reap old => exact proceeds_peers (follows_reapDead old)
  | cycle fanout shuffled order socket =>
    unfold Node.after Node.cycle
    dsimp only
    split
    · exact Proceeds.refl n
    · refine (Proceeds.foldl _ (fun n' addr mem => ?_) n).trans
        (Proceeds.foldl _ (fun n' addr _ => proceeds_pingPeer n' socket (fun none => (nomatch none))) _)
      refine proceeds_send n' socket fun _ => ?_
      obtain ⟨p, found, rfl⟩ := List.mem_map.mp mem
      obtain ⟨inside, test⟩ := mem_filter.mp found
      obtain ⟨key, _, lookup⟩ := mem_filterMap.mp inside
      rw [peerAuthenticated, keyed key p lookup, lookup]
      exact (Bool.and_eq_true _ _ ▸ test).2
  | receive sender msg world =>
    unfold Node.after Node.handleMessage
    dsimp only
    split
    · next passes =>
        have trusted : msg.isIdentityMsg = false → n.peerAuthenticated sender = true := by
          intro data
          rwa [data] at passes
        cases msg with
        | ping incarnation =>
          exact proceeds_handlePing n incarnation world fun _ _ none => (nomatch none)
        | pingAck incarnation count => exact proceeds_recordContact n sender incarnation count _
        | digestBatch digests =>
          exact proceeds_handleDigests n digests world fun _ _ => trusted rfl
        | wantBatch wanted => exact proceeds_handleWant n wanted world fun _ _ => trusted rfl
        | fragmentBatch fragments => exact proceeds_handleFragments n fragments _ (trusted rfl)
        | identityOffer identity =>
          exact proceeds_handleOffer n world (fun verified => ⟨rfl, verified⟩)
            fun _ none => (nomatch none)
        | identityAck identity =>
          exact proceeds_handleAck n world (fun verified => ⟨rfl, verified⟩)
    · exact proceeds_send n world.socket fun none => (nomatch none)

variable (blake3 codec bincode verify ours)

/-- Some earlier event brought a verified identity from an address, which has
been in the table ever since. -/
def Vouched (n : Node τ α) (history : List (GossipEvent τ α)) (addr : α) : Prop :=
  ∃ earlier e later, history = earlier ++ e :: later ∧ Delivers verify addr e ∧
    ∀ k, addr ∈ (afterAll (after blake3 codec bincode verify ours) n
      (earlier ++ e :: later.take k)).peers.peers

variable {blake3 codec bincode verify ours}

theorem mem_of_authenticated {l : PeerList τ α} {addr : α} (flag : l.authenticated addr = true) :
    addr ∈ l.peers := by
  unfold authenticated at flag
  cases found : l.peers.lookup addr with
  | none =>
    simp [found] at flag
  | some p => exact AList.lookup_isSome.mp (by rw [found]; rfl)

variable {n : Node τ α}

theorem Vouched.extend {history : List (GossipEvent τ α)} {addr : α}
    (vouched : Vouched blake3 codec bincode verify ours n history addr) (e : GossipEvent τ α)
    (present : addr ∈
      (afterAll (after blake3 codec bincode verify ours) n (history ++ [e])).peers.peers) :
    Vouched blake3 codec bincode verify ours n (history ++ [e]) addr := by
  obtain ⟨earlier, d, later, rfl, delivers, stays⟩ := vouched
  refine ⟨earlier, d, later ++ [e], by rw [List.append_assoc, List.cons_append], delivers, fun k => ?_⟩
  by_cases inside : k ≤ later.length
  · rw [take_append_of_le_length inside]
    exact stays k
  · have all : (later ++ [e]).take k = later ++ [e] := by
      rw [take_of_length_le]
      rw [length_append, length_singleton]
      omega
    rw [all]
    rwa [List.append_assoc] at present

theorem vouched_of_authenticated (keyed : n.peers.Keyed)
    (none : ∀ addr, n.peers.authenticated addr = false) (history : List (GossipEvent τ α)) :
    (afterAll (after blake3 codec bincode verify ours) n history).peers.Keyed ∧
      ∀ addr, (afterAll (after blake3 codec bincode verify ours) n history).peers.authenticated addr =
        true → Vouched blake3 codec bincode verify ours n history addr := by
  induction history using List.reverseRecOn with
  | nil => exact ⟨keyed, fun addr flag => absurd flag (by simp [none addr])⟩
  | append_singleton history e ih =>
    obtain ⟨keyed, vouched⟩ := ih
    have step : Proceeds _ _ _ _ (after blake3 codec bincode verify ours
      (afterAll (after blake3 codec bincode verify ours) n history) e) := after_proceeds _ keyed e
    have last : afterAll (after blake3 codec bincode verify ours) n (history ++ [e]) =
        after blake3 codec bincode verify ours
          (afterAll (after blake3 codec bincode verify ours) n history) e :=
      afterAll_append _ n history [e]
    rw [last]
    refine ⟨step.peers.keyed keyed, fun addr flag => ?_⟩
    have present := mem_of_authenticated flag
    rw [← last] at present
    rcases step.peers.authenticated addr flag with before | delivers
    · exact (vouched addr before).extend e present
    · refine ⟨history, e, [], rfl, delivers, fun k => ?_⟩
      rw [take_nil]
      exact present

theorem start_proceeds (store : TieredStore τ) (seeds order : List α) (world : Outside τ) :
    Proceeds (fun d => d.2.carriesData = false) (fun _ => False) (fun _ => False)
      ⟨store, new, [], []⟩ (start bincode (some ours) store seeds order world) := by
  have seeded : Proceeds (fun d => d.2.carriesData = false) (fun _ => False) (fun _ => False)
      (⟨store, new, [], []⟩ : Node τ α)
      ⟨store, new.addSeeds seeds (world.now 0), [], []⟩ :=
    proceeds_peers (follows_addSeeds seeds (world.now 0))
  refine seeded.trans (Proceeds.foldl _ (fun n addr _ => ?_) _)
  have offer : (GossipMessage.identityOffer ours).carriesData = false := rfl
  exact proceeds_send n world.socket offer

/-- In every run of a node with an identity, fragments and digests are sent only
to addresses that are vouched for, and fragments are taken only from them. -/
theorem gossip_admission (store : TieredStore τ) (seeds order : List α) (world : Outside τ)
    (history : List (GossipEvent τ α)) (e : GossipEvent τ α) :
    let start := start bincode (some ours) store seeds order world
    let run := afterAll (after blake3 codec bincode verify ours) start
    (∀ d ∈ start.sent, d.2.carriesData = false) ∧
      (∃ new, (run (history ++ [e])).sent = (run history).sent ++ new ∧
        ∀ d ∈ new, d.2.carriesData = true → Vouched blake3 codec bincode verify ours start history d.1) ∧
      ∃ new, (run (history ++ [e])).ingested = (run history).ingested ++ new ∧
        ∀ g ∈ new, Vouched blake3 codec bincode verify ours start history g.1 := by
  intro start run
  have begin : Proceeds _ _ _ _ start := start_proceeds store seeds order world
  have keyed : start.peers.Keyed := by
    refine begin.peers.keyed fun addr p found => ?_
    cases found
  have nobody : ∀ addr, start.peers.authenticated addr = false := by
    intro addr
    cases flag : start.peers.authenticated addr with
    | false => rfl
    | true =>
      rcases begin.peers.authenticated addr flag with before | impossible
      · cases before
      · cases impossible
  obtain ⟨keyed, vouched⟩ :=
    @vouched_of_authenticated _ _ _ blake3 codec bincode verify ours _ keyed nobody history
  have last : run (history ++ [e]) = after blake3 codec bincode verify ours (run history) e :=
    afterAll_append _ start history [e]
  have step := @after_proceeds _ _ _ blake3 codec bincode verify ours (run history) keyed e
  rw [last]
  refine ⟨?_, ?_, ?_⟩
  · obtain ⟨new, sent, offers⟩ := begin.sent
    rw [sent]
    exact offers
  · obtain ⟨new, sent, gated⟩ := step.sent
    exact ⟨new, sent, fun d member data => vouched d.1 (gated d member data)⟩
  · obtain ⟨new, ingested, trusted⟩ := step.ingested
    exact ⟨new, ingested, fun g member => vouched g.1 (trusted g member)⟩

end Events

end Unheaded.Zhen
