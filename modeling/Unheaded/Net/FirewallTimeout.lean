import Unheaded.Net.Firewall

/-!
# The timeout of tracked connections

A packet that comes later than the timeout after the one before it is meant to be judged as the
first of a new connection.
-/

namespace Unheaded.Net

open Mbc Lib Option

/-- A frame, with the clock and the maps that it finds. -/
structure Arrival where
  maps : FirewallMaps
  now : BitVec 64
  frame : Frame

/-- The table, and when a packet of each key came last. -/
structure TimedRun where
  table : ConnTable
  lastArrival : ConnTrackKey → Option (BitVec 64)

def TimedRun.start : TimedRun := ⟨BoundedMap.empty, fun _ => none⟩

/-- The Monad and the transport header of a packet that is tracked. -/
def trackedOf (f : Frame) : Option (Monad × Transport) := (monadOf f).bind fun m =>
    if m.hasFlag Flags.CUSTOM || m.verifyChecksum then (parseTransport f).map fun t => (m, t)
    else none

variable (s : TimedRun)

def TimedRun.next (a : Arrival) : TimedRun where
  table := (firewallXdp a.maps a.now a.frame s.table).2
  lastArrival :=
    match trackedOf a.frame with
    | none => s.lastArrival
    | some (_, t) => Function.update s.lastArrival (ctKey a.frame t) (some a.now)

/-- The packet before it came more than the timeout ago. -/
def Late (a : Arrival) (key : ConnTrackKey) : Prop :=
  0 < (a.maps.cfg CFG_CONNTRACK_TIMEOUT).toNat ∧ ∃ previous, s.lastArrival key = some previous ∧
      previous.toNat + (a.maps.cfg CFG_CONNTRACK_TIMEOUT).toNat < a.now.toNat

/-- A late packet is judged by the policy that stands: it is dropped if that is deny, and otherwise
passed as the first packet of its connection. -/
def JudgedAnew (a : Arrival) : Prop :=
  ∀ m t, trackedOf a.frame = some (m, t) → Late s a (ctKey a.frame t) →
    let result := firewallXdp a.maps a.now a.frame s.table
    (policyAction a.maps m = 0 → result.1 = .drop) ∧
    (policyAction a.maps m ≠ 0 → result.1 = .pass ∧
      ∀ conn, result.2.get (ctKey a.frame t) = some conn → conn = freshConn a.now a.frame t)

/-- A late packet finds no entry, or a TCP entry that its flags leave neither in the handshake nor
established. -/
def FindsNoConnection (a : Arrival) : Prop :=
  ∀ m t, trackedOf a.frame = some (m, t) → Late s a (ctKey a.frame t) →
    ∀ conn, s.table.get (ctKey a.frame t) = some conn → a.frame.transportProto = IPPROTO_TCP ∧
        ((updateTcpState conn t.tcpFlags).state = .new ∨
          (updateTcpState conn t.tcpFlags).state = .closing)

variable {f : Frame}

theorem trackedOf_eq_some {m : Monad} {t : Transport} :
    trackedOf f = some (m, t) ↔ WellFormed f m t := by
  unfold trackedOf
  constructor
  · intro tracked
    obtain ⟨m', monad, rest⟩ := bind_eq_some_iff.mp tracked
    split at rest
    next checksum =>
      obtain ⟨t', transport, same⟩ := map_eq_some_iff.mp rest
      cases same
      exact ⟨monad, (Bool.or_eq_true _ _).mp checksum, transport⟩
    next => cases rest
  · intro formed
    rw [formed.monad, bind_some, if_pos ((Bool.or_eq_true _ _).mpr formed.checksum),
      formed.transport, map_some]

theorem firewallXdp_of_untracked (untracked : trackedOf f = none) (maps : FirewallMaps)
    (now : BitVec 64) (table : ConnTable) : firewallXdp maps now f table = (.pass, table) := by
  unfold firewallXdp
  cases located : locateMonad f with
  | none => rfl
  | some off =>
    dsimp only
    cases read : readMonadFromPkt f off with
    | none => rfl
    | some m =>
      dsimp only
      split
      next => rfl
      next accepted =>
        cases transport : parseTransport f with
        | none => rfl
        | some t =>
          have monad : monadOf f = some m := by rw [monadOf, located, bind_some, read]
          have checksum : m.hasFlag Flags.CUSTOM = true ∨ m.verifyChecksum = true := by
            grind
          simp [trackedOf_eq_some.mpr ⟨monad, checksum, transport⟩] at untracked

variable {conn : ConnState}

theorem updateTcpState_state {conn' : ConnState} (same : conn.state = conn'.state) (flags : Byte) :
    (updateTcpState conn flags).state = (updateTcpState conn' flags).state := by
  unfold updateTcpState
  rw [same]
  repeat' split
  all_goals first | rfl | exact same

theorem touchConn_tcp (tcp : f.transportProto = IPPROTO_TCP) (now : BitVec 64) (t : Transport)
    (conn : ConnState) :
    (touchConn now f t conn).state = (updateTcpState conn t.tcpFlags).state := by
  unfold touchConn
  rw [if_pos tcp]
  refine updateTcpState_state ?_ t.tcpFlags
  rfl

theorem updateTcpState_lastSeen (conn : ConnState) (flags : Byte) :
    (updateTcpState conn flags).lastSeen = conn.lastSeen ∧
      (updateTcpState conn flags).pktCount = conn.pktCount := by
  unfold updateTcpState
  repeat' split
  all_goals exact ⟨rfl, rfl⟩

theorem touchConn_counts (now : BitVec 64) (f : Frame) (t : Transport) (conn : ConnState) :
    (touchConn now f t conn).lastSeen = now ∧
      (touchConn now f t conn).pktCount = satAdd32 conn.pktCount 1 := by
  unfold touchConn
  split
  · exact updateTcpState_lastSeen _ _
  · exact ⟨rfl, rfl⟩

theorem connAllows_touched (maps : FirewallMaps) (now : BitVec 64) (f : Frame) (t : Transport)
    (conn : ConnState) : connAllows maps now f.transportProto (touchConn now f t conn) = false ↔
      f.transportProto ≠ IPPROTO_UDP ∧
        ((touchConn now f t conn).state = .new ∨ (touchConn now f t conn).state = .closing) := by
  have young : ¬ (0 < (maps.cfg CFG_CONNTRACK_TIMEOUT).toNat ∧
      (maps.cfg CFG_CONNTRACK_TIMEOUT).toNat < (now - (touchConn now f t conn).lastSeen).toNat) := by
    rw [(touchConn_counts now f t conn).1, BitVec.sub_self]
    intro old
    exact absurd old.2 (Nat.not_lt_zero _)
  rw [connAllows, if_neg young]
  cases (touchConn now f t conn).state with
  | new => simp
  | synSent => simp
  | synRcvd => simp
  | established => simp
  | closing => simp

theorem parseTransport_protocol {t : Transport} (transport : parseTransport f = some t) :
    f.transportProto = IPPROTO_TCP ∨ f.transportProto = IPPROTO_UDP := by
  unfold parseTransport at transport
  split at transport
  next tcp => exact .inl tcp
  next =>
    split at transport
    next udp => exact .inr udp
    next => cases transport

theorem enforcePolicy_fresh (maps : FirewallMaps) (now : BitVec 64) (f : Frame) (m : Monad)
    (t : Transport) (table : ConnTable) :
    (policyAction maps m = 0 → (enforcePolicy maps now f m t table).1 = .drop) ∧
    (policyAction maps m ≠ 0 → (enforcePolicy maps now f m t table).1 = .pass ∧
      ∀ conn, (enforcePolicy maps now f m t table).2.get (ctKey f t) = some conn →
        conn = freshConn now f t) := by
  unfold enforcePolicy
  constructor
  · intro denied
    rw [if_pos denied]
  · intro allowed
    rw [if_neg allowed]
    exact ⟨rfl, fun conn held => BoundedMap.eq_of_get_update held⟩

def Counted (table : ConnTable) : Prop := ∀ key conn, table.get key = some conn → conn.pktCount ≠ 0

theorem touchConn_ne_fresh (counted : conn.pktCount ≠ 0) (now : BitVec 64) (f : Frame)
    (t : Transport) :
    (touchConn now f t conn).pktCount ≠ 0 ∧ touchConn now f t conn ≠ freshConn now f t := by
  have more : satAdd32 conn.pktCount 1 ≠ 0 ∧ satAdd32 conn.pktCount 1 ≠ 1 := by
    unfold satAdd32
    split
    · constructor
      · bv_omega
      · bv_omega
    · decide
  rw [(touchConn_counts now f t conn).2]
  refine ⟨more.1, fun same => more.2 ?_⟩
  rw [← (touchConn_counts now f t conn).2, same]
  rfl

variable {table : ConnTable}

theorem Counted.update (counted : Counted table) (key : ConnTrackKey) (more : conn.pktCount ≠ 0) :
    Counted ((table.update key conn).getD table) := by
  intro k held found
  by_cases own : k = key
  · subst own
    rw [BoundedMap.eq_of_get_update found]
    exact more
  · rw [BoundedMap.get_getD_update_of_ne table own] at found
    exact counted k held found

theorem Counted.enforcePolicy (counted : Counted table) (maps : FirewallMaps) (now : BitVec 64)
    (f : Frame) (m : Monad) (t : Transport) : Counted (enforcePolicy maps now f m t table).2 := by
  unfold Net.enforcePolicy
  split
  · exact counted
  · have one : (freshConn now f t).pktCount ≠ 0 := (by decide : (1 : Word) ≠ 0)
    exact counted.update (ctKey f t) one

theorem Counted.trackPacket (counted : Counted table) (maps : FirewallMaps) (now : BitVec 64)
    (f : Frame) (m : Monad) (t : Transport) : Counted (trackPacket maps now f m t table).2 := by
  unfold Net.trackPacket
  cases held : table.get (ctKey f t) with
  | none => exact counted.enforcePolicy maps now f m t
  | some conn =>
    have touched := counted.update (ctKey f t) (touchConn_ne_fresh (counted _ conn held) now f t).1
    dsimp only
    split
    · exact touched
    · exact touched.enforcePolicy maps now f m t

theorem Counted.next {s : TimedRun} (counted : Counted s.table) (a : Arrival) :
    Counted (s.next a).table := by
  rw [TimedRun.next]
  cases tracked : trackedOf a.frame with
  | none =>
    rw [firewallXdp_of_untracked tracked]
    exact counted
  | some found =>
    rw [firewallXdp_of_wellFormed (trackedOf_eq_some.mp tracked)]
    exact counted.trackPacket a.maps a.now a.frame found.1 found.2

theorem judgedAnew_iff {s : TimedRun} (counted : Counted s.table) (a : Arrival) :
    JudgedAnew s a ↔ FindsNoConnection s a := by
  obtain ⟨maps, now, f⟩ := a
  constructor
  · intro judged m t tracked late conn held
    have formed := trackedOf_eq_some.mp tracked
    obtain ⟨denied, allowed⟩ := judged m t tracked late
    rw [firewallXdp_of_wellFormed formed, trackPacket, held] at denied allowed
    dsimp only at denied allowed
    obtain ⟨-, differs⟩ := touchConn_ne_fresh (counted _ conn held) now f t
    -- Were the entry to let the packet through, it would be older than a fresh one.
    have refuses : connAllows maps now f.transportProto (touchConn now f t conn) = false := by
      refine Bool.eq_false_iff.mpr fun allows => ?_
      rw [if_pos allows] at denied allowed
      by_cases policy : policyAction maps m = 0
      · exact XdpAction.noConfusion (denied policy)
      · refine differs ((allowed policy).2 _ ?_)
        exact BoundedMap.get_update_of_held held _
    obtain ⟨notUdp, state⟩ := (connAllows_touched maps now f t conn).mp refuses
    have tcp := (parseTransport_protocol formed.transport).resolve_right notUdp
    rw [touchConn_tcp tcp] at state
    exact ⟨tcp, state⟩
  · intro unused m t tracked late
    have formed := trackedOf_eq_some.mp tracked
    rw [firewallXdp_of_wellFormed formed, trackPacket]
    cases held : s.table.get (ctKey f t) with
    | none => exact enforcePolicy_fresh maps now f m t s.table
    | some conn =>
      obtain ⟨tcp, state⟩ := unused m t tracked late conn held
      rw [← touchConn_tcp tcp now] at state
      have refuses := (connAllows_touched maps now f t conn).mpr ⟨by rw [tcp]; decide, state⟩
      dsimp only
      rw [refuses]
      exact enforcePolicy_fresh maps now f m t _

/-- In every history of packets, whatever the clock and the maps do, the late packets are judged
anew exactly if none of them finds a connection that is still in use. -/
theorem late_packets_judged_iff (history : List Arrival) :
    Along TimedRun.next JudgedAnew TimedRun.start history ↔
      Along TimedRun.next FindsNoConnection TimedRun.start history := by
  have none_yet : Counted TimedRun.start.table := by
    intro key conn held
    cases held
  exact @along_congr _ _ TimedRun.next JudgedAnew FindsNoConnection (fun s => Counted s.table)
    (fun _ a counted => Counted.next counted a) (fun _ a counted => judgedAnew_iff counted a)
    _ none_yet history

/-- A timeout of ten nanoseconds; everything is allowed if `action` is 1, and denied if it is 0. -/
def tenNanoseconds (action : BitVec 64) : FirewallMaps where
  policyCache _ := none
  config key := if key = CFG_CONNTRACK_TIMEOUT then some 10 else some action

/-- A connection that was idle for ninety nanoseconds passes a policy that denies it. -/
theorem idle_connection_passes :
    (∃ m t, trackedOf (datagram 1) = some (m, t) ∧ policyAction (tenNanoseconds 0) m = 0) ∧
      (firewallXdp (tenNanoseconds 0) 100 (datagram 1)
        (TimedRun.start.next ⟨tenNanoseconds 1, 0, datagram 1⟩).table).1 = .pass ∧
      ¬ Along TimedRun.next JudgedAnew TimedRun.start
        [⟨tenNanoseconds 1, 0, datagram 1⟩, ⟨tenNanoseconds 0, 100, datagram 1⟩] := by
  have passed : (firewallXdp (tenNanoseconds 0) 100 (datagram 1)
      (TimedRun.start.next ⟨tenNanoseconds 1, 0, datagram 1⟩).table).1 = .pass := by
    decide +kernel
  have tracked : (trackedOf (datagram 1)).any (fun p =>
      decide (policyAction (tenNanoseconds 0) p.1 = 0 ∧
        (TimedRun.start.next ⟨tenNanoseconds 1, 0, datagram 1⟩).lastArrival
          (ctKey (datagram 1) p.2) = some 0)) = true := by
    decide +kernel
  obtain ⟨⟨m, t⟩, found, holds⟩ := (Option.any_eq_true _ _).mp tracked
  obtain ⟨denied, previous⟩ := of_decide_eq_true holds
  have late : Late (TimedRun.start.next ⟨tenNanoseconds 1, 0, datagram 1⟩)
      ⟨tenNanoseconds 0, 100, datagram 1⟩ (ctKey (datagram 1) t) :=
    ⟨by decide, 0, previous, by decide⟩
  refine ⟨⟨m, t, found, denied⟩, passed, ?_⟩
  rintro ⟨-, judged, -⟩
  exact XdpAction.noConfusion (passed.symm.trans ((judged m t found late).1 denied))

end Unheaded.Net
