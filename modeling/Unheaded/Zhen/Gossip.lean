import Unheaded.Zhen.Store

/-!
# Peers, their messages and the gossip engine

The peer table of the gossip engine, keyed by address, and the messages between peers.
-/

namespace Unheaded.Zhen

open Lib

structure PeerIdentity where
  signingKey : List Byte
  name : Option (List Byte)
  selfAttestation : List Byte
  deriving DecidableEq

def asciiBytes (text : String) : List Byte := text.toList.map fun c => BitVec.ofNat 8 c.toNat

/-- What an identity signs. -/
def PeerIdentity.attested (identity : PeerIdentity) : List Byte :=
  asciiBytes "zhen-peer-identity-v1:" ++ identity.signingKey ++
    match identity.name with
    | some name => asciiBytes ":" ++ name
    | none => []

/-- The self-attestation of an identity, for a signature scheme that takes a
message, a signature and a key. -/
def PeerIdentity.verifySelf (verify : List Byte → List Byte → List Byte → Except ZhenError Bool)
    (identity : PeerIdentity) : Except ZhenError Bool :=
  verify identity.attested identity.selfAttestation identity.signingKey

inductive GossipMessage where
  | digestBatch (digests : List FragmentId)
  | wantBatch (wanted : List FragmentId)
  | fragmentBatch (fragments : List (List Byte))
  | ping (incarnation : BitVec 64)
  | pingAck (incarnation fragmentCount : BitVec 64)
  | identityOffer (identity : PeerIdentity)
  | identityAck (identity : PeerIdentity)
  deriving DecidableEq

def maxMsgSize : Nat := 65000

def maxDigestsPerBatch : Nat := 1500

def maxFragmentBatchBytes : Nat := 60000

/-- The bytes of `bincode`, where they are no more than a message may have. -/
def GossipMessage.encode (bincode : GossipMessage → List Byte) (msg : GossipMessage) :
    Except ZhenError (List Byte) :=
  if maxMsgSize < (bincode msg).length then .error (.transport (bincode msg).length maxMsgSize)
  else .ok (bincode msg)

def GossipMessage.isIdentityMsg : GossipMessage → Bool
  | .identityOffer _ | .identityAck _ | .ping _ | .pingAck _ _ => true
  | _ => false

inductive PeerState where
  | alive
  | suspect
  | dead
  deriving DecidableEq, Repr

structure Peer (τ α : Type) where
  addr : α
  state : PeerState
  lastSeen : τ
  incarnation : BitVec 64
  fragmentCount : BitVec 64
  missedPings : Nat
  identity : Option PeerIdentity
  authenticated : Bool

structure PeerList (τ α : Type) where
  peers : AList fun _ : α => Peer τ α
  localIncarnation : BitVec 64

section Peers

variable {τ α : Type}

def Peer.new (addr : α) (now : τ) : Peer τ α := ⟨addr, .alive, now, 0, 0, 0, none, false⟩

variable (p : Peer τ α)

def Peer.isAlive : Bool := p.state = .alive

/-- A contact, where the incarnation is not a stale one. -/
def Peer.markAlive (incarnation fragmentCount : BitVec 64) (now : τ) : Peer τ α :=
  if p.incarnation ≤ incarnation then
    { p with
      incarnation := incarnation
      fragmentCount := fragmentCount
      state := .alive
      lastSeen := now
      missedPings := 0 }
  else p

/-- A missed ping; the count saturates at 32 bits. -/
def Peer.recordMissedPing (suspectThreshold : Nat) : Peer τ α :=
  let missed := min (p.missedPings + 1) (2 ^ 32 - 1)
  { p with
    missedPings := missed
    state := if suspectThreshold ≤ missed ∧ p.state = .alive then .suspect else p.state }

def Peer.confirmDead : Peer τ α :=
  if p.state = .suspect then { p with state := .dead } else p

def Peer.authenticate (identity : PeerIdentity) : Peer τ α :=
  { p with identity := some identity, authenticated := true }

def suspectThreshold : Nat := 3

def deadThreshold : Nat := 6

variable [DecidableEq α]

def PeerList.new : PeerList τ α := ⟨∅, 1⟩

variable (l : PeerList τ α)

def PeerList.addOrUpdate (addr : α) (incarnation fragmentCount : BitVec 64) (now : τ) :
    PeerList τ α :=
  match l.peers.lookup addr with
  | some p => { l with peers := l.peers.insert addr (p.markAlive incarnation fragmentCount now) }
  | none =>
    { l with
      peers := l.peers.insert addr
        { Peer.new addr now with incarnation := incarnation, fragmentCount := fragmentCount } }

def PeerList.recordContact (addr : α) (incarnation fragmentCount : BitVec 64) (now : τ) :
    PeerList τ α :=
  l.addOrUpdate addr incarnation fragmentCount now

def PeerList.addSeeds (seeds : List α) (now : τ) : PeerList τ α :=
  seeds.foldl (fun l addr => if (l.peers.lookup addr).isSome then l
    else { l with peers := l.peers.insert addr (Peer.new addr now) }) l

def PeerList.modify (addr : α) (change : Peer τ α → Peer τ α) : PeerList τ α :=
  match l.peers.lookup addr with
  | some p => { l with peers := l.peers.insert addr (change p) }
  | none => l

def PeerList.values (order : List α) (test : Peer τ α → Bool) : List (Peer τ α) :=
  (order.filterMap l.peers.lookup).filter test

def PeerList.authenticatedAlivePeers (order : List α) : List (Peer τ α) :=
  l.values order fun p => p.isAlive && p.authenticated

def PeerList.activePeers (order : List α) : List (Peer τ α) :=
  l.values order fun p => p.state ≠ .dead

def PeerList.recordMissedPing (addr : α) : PeerList τ α := l.modify addr fun p =>
    let p := p.recordMissedPing suspectThreshold
    if deadThreshold ≤ p.missedPings ∧ p.state = .suspect then p.confirmDead else p

/-- Dead peers out of the table, once they are `old`. -/
def PeerList.reapDead (old : τ → Bool) : PeerList τ α := { l with
    peers := l.peers.keys.foldl (fun peers addr =>
      if (l.peers.lookup addr).any fun p => p.state = .dead && old p.lastSeen then peers.erase addr
      else peers) l.peers }

end Peers

/-! ## The gossip engine

One node: its store, its peer table and what it has handed to the socket.  The
clock, the order of the maps, the shuffle, the removals from the warm store and
the answers of the socket are inputs.
-/

/-- A node with the datagrams it has given to the socket and the fragments that
it has taken from peers. -/
structure Node (τ α : Type) where
  store : TieredStore τ
  peers : PeerList τ α
  sent : List (α × GossipMessage)
  ingested : List (α × Fragment τ)

/-- What a handler reads from outside: the clock at each reading, whether each
removal from the warm store succeeds, and whether the socket takes the datagram
with a given number. -/
structure Outside (τ : Type) where
  now : Nat → τ
  removed : Nat → Bool
  socket : Nat → Bool

section Engine

variable {τ α : Type} [DecidableEq α]
  (blake3 : List Byte → FragmentId) (codec : FragmentCodec τ)
  (bincode : GossipMessage → List Byte)
  (verify : List Byte → List Byte → List Byte → Except ZhenError Bool)
  (localIdentity : Option PeerIdentity)

def TieredStore.count (s : TieredStore τ) : Except ZhenError Nat :=
  (scanIds blake3 codec s.l3).map fun ids => (s.l1.keys ++ s.l2.keys ++ ids).dedup.length

omit [DecidableEq α] in
/-- A message that encodes is given to the socket, which may refuse it. -/
def Node.sendMessage (n : Node τ α) (msg : GossipMessage) (target : α) (socket : Nat → Bool) :
    Except ZhenError Unit × Node τ α :=
  match msg.encode bincode with
  | .error e => (.error e, n)
  | .ok _ =>
    (if socket n.sent.length then .ok () else .error .unreachable,
      { n with sent := n.sent ++ [(target, msg)] })

def Node.recordContact (n : Node τ α) (sender : α) (incarnation fragmentCount : BitVec 64) (now : τ) :
    Node τ α :=
  { n with peers := n.peers.recordContact sender incarnation fragmentCount now }

/-- A verified identity marks its sender. -/
def Node.admitPeer (n : Node τ α) (sender : α) (identity : PeerIdentity) (now : τ) : Node τ α :=
  { n with
    peers := (n.peers.addOrUpdate sender 0 0 now).modify sender fun p => p.authenticate identity }

/-- The digests that the store does not have. -/
def TieredStore.missing (s : TieredStore τ) : List FragmentId → Except ZhenError (List FragmentId)
  | [] => .ok []
  | id :: rest =>
    match s.contains blake3 codec id with
    | .error e => .error e
    | .ok has => (s.missing rest).map fun wanted => if has then wanted else id :: wanted

def Node.handleDigests (n : Node τ α) (digests : List FragmentId) (sender : α) (world : Outside τ) :
    Except ZhenError Unit × Node τ α :=
  if maxDigestsPerBatch < digests.length then
    (.error (.gossip digests.length maxDigestsPerBatch), n)
  else
    match n.store.missing blake3 codec digests with
    | .error e => (.error e, n)
    | .ok [] => (.ok (), n.recordContact sender 0 0 (world.now 0))
    | .ok wanted =>
      match n.sendMessage bincode (.wantBatch wanted) sender world.socket with
      | (.error e, n) => (.error e, n)
      | (.ok (), n) => (.ok (), n.recordContact sender 0 0 (world.now 0))

omit [DecidableEq α] in
/-- The loop over the wanted ids, with the number of the entry, the fragments of
the batch so far and their bytes. -/
def wantLoop (world : Outside τ) (target : α) :
    List FragmentId → Nat → List (List Byte) → Nat → Node τ α →
      Except ZhenError (List (List Byte)) × Node τ α
  | [], _, fragments, _, n => (.ok fragments, n)
  | id :: rest, i, fragments, totalBytes, n =>
    match n.store.get blake3 codec id (world.now i) (world.removed i) with
    | (.error e, s) => (.error e, { n with store := s })
    | (.ok none, s) =>
      wantLoop world target rest (i + 1) fragments totalBytes { n with store := s }
    | (.ok (some f), s) =>
      let n := { n with store := s }
      let encoded := codec.encode f
      if maxFragmentBatchBytes < totalBytes + encoded.length then
        match n.sendMessage bincode (.fragmentBatch fragments) target world.socket with
        | (.error e, n) => (.error e, n)
        | (.ok (), n) => wantLoop world target rest (i + 1) [encoded] encoded.length n
      else
        wantLoop world target rest (i + 1) (fragments ++ [encoded]) (totalBytes + encoded.length) n

omit [DecidableEq α] in
/-- The end of the loop: the last batch, where it is not empty. -/
def sendRemaining (socket : Nat → Bool) (target : α) :
    Except ZhenError (List (List Byte)) × Node τ α → Except ZhenError Unit × Node τ α
  | (.error e, n) => (.error e, n)
  | (.ok [], n) => (.ok (), n)
  | (.ok (first :: rest), n) => n.sendMessage bincode (.fragmentBatch (first :: rest)) target socket

omit [DecidableEq α] in
/-- The wanted fragments in batches. -/
def Node.handleWant (n : Node τ α) (wanted : List FragmentId) (sender : α) (world : Outside τ) :
    Except ZhenError Unit × Node τ α :=
  if maxDigestsPerBatch < wanted.length then (.error (.gossip wanted.length maxDigestsPerBatch), n)
  else
    sendRemaining bincode world.socket sender
      (wantLoop blake3 codec bincode world sender wanted 0 [] 0 n)

def Fragment.hopped (f : Fragment τ) : Fragment τ :=
  { f with hopCount := if f.hopCount = BitVec.allOnes 32 then f.hopCount else f.hopCount + 1 }

omit [DecidableEq α] in
/-- One received fragment; what is refused is only logged. -/
def Node.ingestFrom (sender : α) (n : Node τ α) (encoded : List Byte) : Node τ α :=
  match decode blake3 codec encoded with
  | .error _ => n
  | .ok f =>
    { n with
      store := (n.store.ingest blake3 codec f.hopped).2
      ingested := n.ingested ++ [(sender, f.hopped)] }

def Node.handleFragments (n : Node τ α) (fragments : List (List Byte)) (sender : α) (now : τ) :
    Node τ α :=
  (fragments.foldl (Node.ingestFrom blake3 codec sender) n).recordContact sender 0 0 now

def Node.handleOffer (n : Node τ α) (identity : PeerIdentity) (sender : α) (world : Outside τ) :
    Except ZhenError Unit × Node τ α :=
  match identity.verifySelf verify with
  | .ok true =>
    let n := n.admitPeer sender identity (world.now 0)
    match localIdentity with
    | some ours => n.sendMessage bincode (.identityAck ours) sender world.socket
    | none => (.ok (), n)
  | _ => (.ok (), n)

def Node.handleAck (n : Node τ α) (identity : PeerIdentity) (sender : α) (world : Outside τ) :
    Except ZhenError Unit × Node τ α :=
  match identity.verifySelf verify with
  | .ok true => (.ok (), n.admitPeer sender identity (world.now 0))
  | _ => (.ok (), n)

def Node.handlePing (n : Node τ α) (incarnation : BitVec 64) (sender : α) (world : Outside τ) :
    Except ZhenError Unit × Node τ α :=
  let n := n.recordContact sender incarnation 0 (world.now 0)
  match n.store.count blake3 codec with
  | .error e => (.error e, n)
  | .ok count =>
    n.sendMessage bincode (.pingAck n.peers.localIncarnation (BitVec.ofNat 64 count)) sender world.socket

/-- The arms of the handler, behind the gate. -/
def Node.dispatch (n : Node τ α) (msg : GossipMessage) (sender : α) (world : Outside τ) :
    Except ZhenError Unit × Node τ α :=
  match msg with
  | .ping incarnation => n.handlePing blake3 codec bincode incarnation sender world
  | .pingAck incarnation count => (.ok (), n.recordContact sender incarnation count (world.now 0))
  | .digestBatch digests => n.handleDigests blake3 codec bincode digests sender world
  | .wantBatch wanted => n.handleWant blake3 codec bincode wanted sender world
  | .identityOffer identity => n.handleOffer bincode verify localIdentity identity sender world
  | .identityAck identity => n.handleAck verify identity sender world
  | .fragmentBatch fragments =>
    (.ok (), n.handleFragments blake3 codec fragments sender (world.now 0))

def Node.peerAuthenticated (n : Node τ α) (addr : α) : Bool :=
  (n.peers.peers.lookup addr).any Peer.authenticated

/-- A node with an identity answers the data messages of an unauthenticated peer
with an offer, and drops them. -/
def Node.handleMessage (n : Node τ α) (msg : GossipMessage) (sender : α) (world : Outside τ) :
    Except ZhenError Unit × Node τ α :=
  match localIdentity with
  | some ours =>
    if msg.isIdentityMsg || n.peerAuthenticated sender then
      n.dispatch blake3 codec bincode verify localIdentity msg sender world
    else n.sendMessage bincode (.identityOffer ours) sender world.socket
  | none => n.dispatch blake3 codec bincode verify localIdentity msg sender world

/-- A ping, and a missed one where the socket refuses it. -/
def Node.pingPeer (socket : Nat → Bool) (ping : GossipMessage) (n : Node τ α) (addr : α) : Node τ α :=
  match n.sendMessage bincode ping addr socket with
  | (.ok (), n) => n
  | (.error _, n) => { n with peers := n.peers.recordMissedPing addr }

/-- Digests of some hot fragments for the authenticated peers, and pings for all
that are not dead. -/
def Node.cycle (n : Node τ α) (fanout : Nat) (shuffled : List FragmentId) (order : List α)
    (socket : Nat → Bool) : Node τ α :=
  let ids := shuffled.filter fun id => (n.store.l1.lookup id).isSome
  if ids = [] then n
  else
    let digests := ids.take fanout
    let digestTargets :=
      if localIdentity.isSome then (n.peers.authenticatedAlivePeers order).map Peer.addr
      else (n.peers.activePeers order).map Peer.addr
    let activeAddrs := (n.peers.activePeers order).map Peer.addr
    let ping := GossipMessage.ping n.peers.localIncarnation
    let n := digestTargets.foldl
      (fun n addr => (n.sendMessage bincode (.digestBatch digests) addr socket).2) n
    activeAddrs.foldl (Node.pingPeer bincode socket ping) n

/-- A node at its start: the seeds are in the table and have got an offer. -/
def Node.start (store : TieredStore τ) (seeds : List α) (order : List α) (world : Outside τ) :
    Node τ α :=
  let n : Node τ α := ⟨store, PeerList.new.addSeeds seeds (world.now 0), [], []⟩
  match localIdentity with
  | some ours =>
    ((n.peers.activePeers order).map Peer.addr).foldl
      (fun n addr => (n.sendMessage bincode (.identityOffer ours) addr world.socket).2) n
  | none => n

end Engine

end Unheaded.Zhen
