import Unheaded.Lib.BoundedMap
import Unheaded.Lib.Events
import Unheaded.Net.Packet

/-!
# The firewall program

`firewall_xdp` of `firewall-ebpf`: connection tracking in front of the policy of a pair of
services.
-/

namespace Unheaded.Net

open Mbc Lib List

inductive TcpConnState where
  | new | synSent | synRcvd | established | closing
  deriving DecidableEq, Repr

structure ConnTrackKey where
  srcAddr : Word
  dstAddr : Word
  srcPort : BitVec 16
  dstPort : BitVec 16
  protocol : Byte
  deriving DecidableEq

structure ConnState where
  state : TcpConnState
  tcpFlags : Byte
  createdTs : BitVec 64
  lastSeen : BitVec 64
  pktCount : Word
  byteCount : Word

structure PolicyEntry where
  action : Byte
  priority : Byte
  rateLimit : Word

/-- `CONNTRACK`. -/
abbrev ConnTable := BoundedMap ConnTrackKey ConnState 1000000

/-- The maps that userspace fills. -/
structure FirewallMaps where
  policyCache : BitVec 16 → Option PolicyEntry
  config : Word → Option (BitVec 64)

def CFG_DEFAULT_POLICY : Word := 1
def CFG_CONNTRACK_TIMEOUT : Word := 2

variable (maps : FirewallMaps)

def FirewallMaps.cfg (key : Word) : BitVec 64 := (maps.config key).getD 0

def IPPROTO_TCP : Byte := 6
def IPPROTO_UDP : Byte := 17
def TCP_HDR_LEN : Nat := 20
def UDP_HDR_LEN : Nat := 8
def TCP_FIN : Byte := 0x01
def TCP_SYN : Byte := 0x02
def TCP_RST : Byte := 0x04
def TCP_ACK : Byte := 0x10

variable (f : Frame)

def Frame.wordAt (i : Nat) : Word :=
  wordOfBytes (f.byteAt (i + 3)) (f.byteAt (i + 2)) (f.byteAt (i + 1)) (f.byteAt i)

def Frame.portAt (i : Nat) : BitVec 16 := be16 (f.byteAt i, f.byteAt (i + 1))

def Frame.transportProto : Byte := f.byteAt hbhStart

def Frame.transportStart : Nat := hbhStart + f.hbhTotal

def Frame.payloadLen : Word := BitVec.ofNat 32 (f.length - f.transportStart)

structure Transport where
  srcPort : BitVec 16
  dstPort : BitVec 16
  tcpFlags : Byte

/-- The ports and flags of a TCP or UDP header; `none` is the return of `XDP_PASS` for a header that
is cut off and for any other protocol. -/
def parseTransport : Option Transport :=
  if f.transportProto = IPPROTO_TCP then
    if f.length < f.transportStart + TCP_HDR_LEN then none
    else some ⟨f.portAt f.transportStart, f.portAt (f.transportStart + 2),
      ((f.portAt (f.transportStart + 12)) &&& 0x3F).setWidth 8⟩
  else if f.transportProto = IPPROTO_UDP then
    if f.length < f.transportStart + UDP_HDR_LEN then none
    else some ⟨f.portAt f.transportStart, f.portAt (f.transportStart + 2), 0⟩
  else none

/-- `ct_key`: `src_addr` is read at `ip_start + 24` and `dst_addr` at `ip_start + 36`. -/
def ctKey (t : Transport) : ConnTrackKey where
  srcAddr := f.wordAt (ETH_HLEN + 24)
  dstAddr := f.wordAt (ETH_HLEN + 36)
  srcPort := t.srcPort
  dstPort := t.dstPort
  protocol := f.transportProto

def updateTcpState (conn : ConnState) (tcpFlags : Byte) : ConnState :=
  if tcpFlags &&& TCP_RST ≠ 0 then { conn with state := .closing }
  else if conn.state = .new ∨ conn.state = .synSent then
    if tcpFlags &&& TCP_SYN ≠ 0 ∧ tcpFlags &&& TCP_ACK ≠ 0 then { conn with state := .synRcvd }
    else if tcpFlags &&& TCP_SYN ≠ 0 then { conn with state := .synSent }
    else conn
  else if conn.state = .synRcvd then
    if tcpFlags &&& TCP_ACK ≠ 0 then { conn with state := .established } else conn
  else if conn.state = .established ∧ tcpFlags &&& TCP_FIN ≠ 0 then { conn with state := .closing }
  else conn

/-- The policy of a pair of services, or the default one. -/
def policyAction (m : Monad) : Byte :=
  match maps.policyCache ((m.srcServiceId.setWidth 16 <<< 8) ||| m.dstServiceId.setWidth 16) with
  | some policy => policy.action
  | none => (maps.cfg CFG_DEFAULT_POLICY).setWidth 8

def initialState (protocol tcpFlags : Byte) : TcpConnState :=
  if protocol = IPPROTO_TCP then
    if tcpFlags &&& TCP_SYN ≠ 0 ∧ tcpFlags &&& TCP_ACK = 0 then .synSent
    else if tcpFlags &&& TCP_SYN ≠ 0 ∧ tcpFlags &&& TCP_ACK ≠ 0 then .synRcvd
    else .new
  else .established

/-- `new_conn`. -/
def freshConn (now : BitVec 64) (f : Frame) (t : Transport) : ConnState where
  state := initialState f.transportProto t.tcpFlags
  tcpFlags := t.tcpFlags
  createdTs := now
  lastSeen := now
  pktCount := 1
  byteCount := f.payloadLen

/-- The policy lookup and, for an allowed packet, the new entry. -/
def enforcePolicy (now : BitVec 64) (f : Frame) (m : Monad) (t : Transport) (table : ConnTable) :
    XdpAction × ConnTable :=
  if policyAction maps m = 0 then (.drop, table)
  else
    (.pass, (table.update (ctKey f t) (freshConn now f t)).getD table)

/-- The entry of an existing connection after the packet. -/
def touchConn (now : BitVec 64) (f : Frame) (t : Transport) (conn : ConnState) : ConnState :=
  let counted := { conn with
    lastSeen := now
    pktCount := satAdd32 conn.pktCount 1
    byteCount := satAdd32 conn.byteCount f.payloadLen }
  if f.transportProto = IPPROTO_TCP then
    updateTcpState { counted with tcpFlags := t.tcpFlags } t.tcpFlags
  else counted

/-- Whether an existing connection lets the packet through. -/
def connAllows (now : BitVec 64) (protocol : Byte) (conn : ConnState) : Bool :=
  let timeout := maps.cfg CFG_CONNTRACK_TIMEOUT
  if 0 < timeout.toNat ∧ timeout.toNat < (now - conn.lastSeen).toNat then false
  else if conn.state = .established ∨ protocol = IPPROTO_UDP then true
  else decide (conn.state = .synSent ∨ conn.state = .synRcvd)

/-- `try_firewall_xdp` past the transport header. -/
def trackPacket (now : BitVec 64) (f : Frame) (m : Monad) (t : Transport) (table : ConnTable) :
    XdpAction × ConnTable :=
  match table.get (ctKey f t) with
  | some conn =>
    let touched := touchConn now f t conn
    let table' := (table.update (ctKey f t) touched).getD table
    if connAllows maps now f.transportProto touched then (.pass, table')
    else enforcePolicy maps now f m t table'
  | none => enforcePolicy maps now f m t table

def firewallXdp (now : BitVec 64) (f : Frame) (table : ConnTable) : XdpAction × ConnTable :=
  match locateMonad f with
  | none => (.pass, table)
  | some off =>
    match readMonadFromPkt f off with
    | none => (.pass, table)
    | some m =>
      if !m.hasFlag Flags.CUSTOM && !m.verifyChecksum then (.pass, table)
      else
        match parseTransport f with
        | none => (.pass, table)
        | some t => trackPacket maps now f m t table

/-- A well-formed TCP or UDP packet with a Monad whose checksum is not to be rejected. -/
structure WellFormed (f : Frame) (m : Monad) (t : Transport) : Prop where
  monad : monadOf f = some m
  checksum : m.hasFlag Flags.CUSTOM = true ∨ m.verifyChecksum = true
  transport : parseTransport f = some t

/-- Source address, destination address, ports and protocol. -/
structure FiveTuple where
  src : List Byte
  dst : List Byte
  srcPort : BitVec 16
  dstPort : BitVec 16
  protocol : Byte
  deriving DecidableEq

def fiveTuple : Option FiveTuple :=
  (parseTransport f).map fun t => ⟨f.src, f.dst, t.srcPort, t.dstPort, f.transportProto⟩

def trackKey : Option ConnTrackKey := (parseTransport f).map (ctKey f)

/-- The table, and the packets so far: those seen and those passed. -/
structure FirewallRun where
  table : ConnTable
  seen : List Frame
  passed : List Frame

def FirewallRun.start : FirewallRun := ⟨BoundedMap.empty, [], []⟩

/-- One packet, with the clock. -/
def FirewallRun.next (s : FirewallRun) (p : BitVec 64 × Frame) : FirewallRun where
  table := (firewallXdp maps p.1 p.2 s.table).2
  seen := p.2 :: s.seen
  passed := if (firewallXdp maps p.1 p.2 s.table).1 = .pass then p.2 :: s.passed else s.passed

def Denied (f : Frame) : Prop :=
  ∃ m, monadOf f = some m ∧ policyAction maps m = 0

def VerdictOwn (s : FirewallRun) (p : BitVec 64 × Frame) : Prop :=
  Denied maps p.2 → (firewallXdp maps p.1 p.2 s.table).1 = .pass →
    ∃ g ∈ s.passed, fiveTuple g = fiveTuple p.2

def Separated (s : FirewallRun) (p : BitVec 64 × Frame) : Prop :=
  (∃ m t, WellFormed p.2 m t) ∧
    (Denied maps p.2 → ∀ g ∈ s.seen, trackKey g = trackKey p.2 → fiveTuple g = fiveTuple p.2)

/-- Every entry of the table is that of a packet that was passed. -/
structure TableOwned (s : FirewallRun) : Prop where
  owner : ∀ key conn, s.table.get key = some conn → ∃ g ∈ s.passed, trackKey g = some key
  known : ∀ g ∈ s.passed, g ∈ s.seen

theorem firewallXdp_of_wellFormed {maps : FirewallMaps} {f : Frame} {m : Monad} {t : Transport}
    (formed : WellFormed f m t) (now : BitVec 64) (table : ConnTable) :
    firewallXdp maps now f table = trackPacket maps now f m t table := by
  obtain ⟨off, carries, located, read⟩ := monadOf_eq_some formed.monad
  have accepted : (!m.hasFlag Flags.CUSTOM && !m.verifyChecksum) = false := by
    rcases formed.checksum with custom | verifies
    · rw [custom]
      rfl
    · rw [verifies, Bool.not_true, Bool.and_false]
  rw [firewallXdp, located]
  dsimp only
  rw [read]
  dsimp only
  rw [accepted, if_neg Bool.false_ne_true, formed.transport]

theorem enforcePolicy_cases (now : BitVec 64) (f : Frame) (m : Monad) (t : Transport)
    (table : ConnTable) :
    (policyAction maps m = 0 ∧ enforcePolicy maps now f m t table = (.drop, table)) ∨
      (policyAction maps m ≠ 0 ∧ (enforcePolicy maps now f m t table).1 = .pass ∧
        ∀ key, key ≠ ctKey f t → (enforcePolicy maps now f m t table).2.get key = table.get key) := by
  unfold enforcePolicy
  split
  next denied => exact .inl ⟨denied, rfl⟩
  next allowed =>
    refine .inr ⟨allowed, rfl, ?_⟩
    intro key other
    exact BoundedMap.get_getD_update_of_ne table other _

theorem enforcePolicy_spec (now : BitVec 64) (f : Frame) (m : Monad) (t : Transport)
    (table : ConnTable) :
    (policyAction maps m = 0 → (enforcePolicy maps now f m t table).1 ≠ .pass) ∧
    ∀ key conn, (enforcePolicy maps now f m t table).2.get key = some conn →
      (key = ctKey f t ∧ (enforcePolicy maps now f m t table).1 = .pass) ∨
        table.get key = some conn := by
  rcases enforcePolicy_cases maps now f m t table with ⟨denied, drops⟩ | ⟨allowed, passes, others⟩
  · rw [drops]
    exact ⟨fun _ passed => XdpAction.noConfusion passed, fun key conn held => .inr held⟩
  · refine ⟨fun denied => absurd denied allowed, ?_⟩
    intro key conn held
    by_cases own : key = ctKey f t
    · exact .inl ⟨own, passes⟩
    · exact .inr ((others key own).symm.trans held)

theorem trackPacket_spec (now : BitVec 64) (f : Frame) (m : Monad) (t : Transport)
    (table : ConnTable) : (policyAction maps m = 0 → (trackPacket maps now f m t table).1 = .pass →
      ∃ conn, table.get (ctKey f t) = some conn) ∧
    ∀ key conn, (trackPacket maps now f m t table).2.get key = some conn →
      (key = ctKey f t ∧ (trackPacket maps now f m t table).1 = .pass) ∨
        ∃ held, table.get key = some held := by
  unfold trackPacket
  cases tracked : table.get (ctKey f t) with
  | none =>
    obtain ⟨denies, enters⟩ := enforcePolicy_spec maps now f m t table
    refine ⟨fun denied passed => absurd passed (denies denied), ?_⟩
    intro key conn held
    exact (enters key conn held).imp_right fun before => ⟨conn, before⟩
  | some conn =>
    refine ⟨fun _ _ => ⟨conn, rfl⟩, ?_⟩
    have earlier : ∀ key held,
        ((table.update (ctKey f t) (touchConn now f t conn)).getD table).get key = some held →
          ∃ before, table.get key = some before := by
      intro key held found
      by_cases own : key = ctKey f t
      · exact ⟨conn, own ▸ tracked⟩
      · exact ⟨held, (BoundedMap.get_getD_update_of_ne table own _).symm.trans found⟩
    intro key held found
    dsimp only at found ⊢
    split at found
    next allows => exact .inr (earlier key held found)
    next refuses =>
      rw [if_neg refuses]
      obtain ⟨-, enters⟩ := enforcePolicy_spec maps now f m t
        ((table.update (ctKey f t) (touchConn now f t conn)).getD table)
      exact (enters key held found).imp_right (earlier key held)

theorem firewall_step (s : FirewallRun) (p : BitVec 64 × Frame) (owned : TableOwned s)
    (separated : Separated maps s p) : VerdictOwn maps s p ∧ TableOwned (s.next maps p) := by
  obtain ⟨now, f⟩ := p
  obtain ⟨⟨m, t, formed⟩, apart⟩ := separated
  have goes : firewallXdp maps now f s.table = trackPacket maps now f m t s.table :=
    firewallXdp_of_wellFormed formed now s.table
  have key : trackKey f = some (ctKey f t) := congrArg (Option.map (ctKey f)) formed.transport
  obtain ⟨verdict, entries⟩ := trackPacket_spec maps now f m t s.table
  rw [← goes] at verdict entries
  constructor
  · intro denied passed
    obtain ⟨m', monad, policy⟩ := denied
    cases formed.monad.symm.trans monad
    obtain ⟨conn, tracked⟩ := verdict policy passed
    obtain ⟨g, mem, same⟩ := owned.owner _ conn tracked
    exact ⟨g, mem, apart ⟨m, monad, policy⟩ g (owned.known g mem) (same.trans key.symm)⟩
  · constructor
    · intro k conn held
      rcases entries k conn held with ⟨own, passed⟩ | ⟨before, tracked⟩
      · refine ⟨f, ?_, key.trans (congrArg some own.symm)⟩
        rw [FirewallRun.next, if_pos passed]
        exact mem_cons_self
      · obtain ⟨g, mem, same⟩ := owned.owner k before tracked
        refine ⟨g, ?_, same⟩
        rw [FirewallRun.next]
        split
        · exact mem_cons_of_mem f mem
        · exact mem
    · intro g mem
      rw [FirewallRun.next] at mem
      split at mem
      · rcases mem_cons.mp mem with rfl | earlier
        · exact mem_cons_self
        · exact mem_cons_of_mem f (owned.known g earlier)
      · exact mem_cons_of_mem f (owned.known g mem)

theorem tableOwned_start : TableOwned FirewallRun.start := by
  constructor
  · intro key conn held
    cases held
  · intro g mem
    cases mem

/-- In every history of well-formed packets in which no denied packet shares its tracking key with
an earlier packet of another 5-tuple, a denied packet is passed only after one of its own 5-tuple. -/
theorem firewall_verdicts_own (maps : FirewallMaps) (history : List (BitVec 64 × Frame))
    (separated : Along (FirewallRun.next maps) (Separated maps) FirewallRun.start history) :
    Along (FirewallRun.next maps) (VerdictOwn maps) FirewallRun.start history :=
  separated.ensures (firewall_step maps) tableOwned_start

/-- A UDP datagram from port 1 to port 2 of one destination, its source ending in `host`, sent by
the service of the same number. -/
def datagram (host : Byte) : Frame :=
  replicate 12 0 ++ [0x86, 0xDD] ++ [0x60, 0, 0, 0, 0, 32, 0, 64] ++
    (replicate 15 0 ++ [host]) ++ replicate 16 0 ++
    { HopByHopHeader.new IPPROTO_UDP with
      monad := { Monad.new with srcServiceId := host, dstServiceId := 1 }.recomputeChecksum }.toBytes ++
    [0, 1, 0, 2, 0, 8, 0, 0]

def onlyServiceOne : FirewallMaps where
  policyCache key := if key = 0x0101 then some ⟨1, 0, 0⟩ else none
  config _ := none

theorem firewall_verdicts_own_datagrams :
    Along (FirewallRun.next onlyServiceOne) (VerdictOwn onlyServiceOne) FirewallRun.start
      [(0, datagram 2), (1, datagram 1)] := by
  refine firewall_verdicts_own onlyServiceOne [(0, datagram 2), (1, datagram 1)]
    ⟨⟨⟨_, _, ⟨rfl, .inr (by decide +kernel), rfl⟩⟩, fun _ g mem => absurd mem not_mem_nil⟩,
      ⟨⟨_, _, ⟨rfl, .inr (by decide +kernel), rfl⟩⟩, ?_⟩, True.intro⟩
  rintro ⟨m, monad, denied⟩
  cases monad
  exact absurd denied (by decide +kernel)

/-- A denied source is passed on the entry of an allowed one. -/
theorem firewall_shares_verdict :
    (∃ m t, WellFormed (datagram 1) m t) ∧ (∃ m t, WellFormed (datagram 2) m t) ∧
      Denied onlyServiceOne (datagram 2) ∧ (datagram 1).src ≠ (datagram 2).src ∧
      ¬ Along (FirewallRun.next onlyServiceOne) (VerdictOwn onlyServiceOne) FirewallRun.start
        [(0, datagram 1), (1, datagram 2)] := by
  refine ⟨⟨_, _, ⟨rfl, .inr (by decide +kernel), rfl⟩⟩, ⟨_, _, ⟨rfl, .inr (by decide +kernel), rfl⟩⟩,
    ⟨_, rfl, by decide +kernel⟩, by decide +kernel, ?_⟩
  rintro ⟨-, own, -⟩
  obtain ⟨g, member, same⟩ := own ⟨_, rfl, by decide +kernel⟩ (by decide +kernel)
  have first : (firewallXdp onlyServiceOne 0 (datagram 1) FirewallRun.start.table).1 = .pass := by
    decide +kernel
  rw [FirewallRun.next, if_pos first] at member
  cases mem_singleton.mp member
  exact absurd same (by decide +kernel)

end Unheaded.Net
