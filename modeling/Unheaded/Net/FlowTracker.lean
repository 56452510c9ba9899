import Unheaded.Lib.Events
import Unheaded.Net.Packet

/-!
# Tracking flows

The `flow-tracker` program: a packet is counted under the key of its connection, which is the same
for both directions, and its flags move the TCP state of the entry.
-/

namespace Unheaded.Net.FlowTracker

open Mbc Lib List BitVec Option Function

/-! ## Packets -/

def ETH_P_IP : BitVec 16 := 0x0800
def IPV4_MIN_HLEN : Nat := 20
def TCP_MIN_HLEN : Nat := 20
def IPPROTO_TCP : Byte := 6
def IPPROTO_UDP : Byte := 17

def TCP_FLAG_FIN : Byte := 0x01
def TCP_FLAG_SYN : Byte := 0x02
def TCP_FLAG_RST : Byte := 0x04
def TCP_FLAG_ACK : Byte := 0x10

/-- `u16::from_be` on a little-endian machine. -/
def fromBe (v : BitVec 16) : BitVec 16 := v.extractLsb' 0 8 ++ v.extractLsb' 8 8

variable (f : Frame)

/-- A `u16` of packet memory as the machine loads it. -/
def loadU16 (i : Nat) : BitVec 16 := halfOfBytes (f.byteAt (i + 1)) (f.byteAt i)

/-- A `u32` of packet memory as the machine loads it. -/
def loadU32 (i : Nat) : Word :=
  wordOfBytes (f.byteAt (i + 3)) (f.byteAt (i + 2)) (f.byteAt (i + 1)) (f.byteAt i)

/-- What the program reads of a TCP or UDP packet; a UDP packet has no flags. -/
structure Packet where
  saddr : Word
  daddr : Word
  source : BitVec 16
  dest : BitVec 16
  protocol : Byte
  flags : Byte
  len : BitVec 64

/-- The headers of a packet with its transport header at `start`. -/
def packetAt (start : Nat) (flags : Byte) : Packet where
  saddr := loadU32 f (ETH_HLEN + 12)
  daddr := loadU32 f (ETH_HLEN + 16)
  source := loadU16 f start
  dest := loadU16 f (start + 2)
  protocol := f.byteAt (ETH_HLEN + 9)
  flags := flags
  len := BitVec.ofNat 64 f.length

/-- `try_flow_tracker` up to the update of the flow; `none` where it returns before it. -/
def parse : Option Packet :=
  if f.length < ETH_HLEN then none
  else if f.etherType ≠ ETH_P_IP then none
  else if f.length < ETH_HLEN + IPV4_MIN_HLEN then none
  else
    let headerLen := (f.byteAt ETH_HLEN &&& 0x0F).toNat * 4
    if headerLen < IPV4_MIN_HLEN ∨ f.length < ETH_HLEN + headerLen then none
    else
      let start := ETH_HLEN + headerLen
      let protocol := f.byteAt (ETH_HLEN + 9)
      if protocol = IPPROTO_TCP then
        if f.length < start + TCP_MIN_HLEN then none
        else some (packetAt f start ((fromBe (loadU16 f (start + 12)) &&& 0x3F).setWidth 8))
      else if protocol = IPPROTO_UDP then
        if f.length < start + 8 then none else some (packetAt f start 0)
      else none

namespace Packet

variable (p : Packet)

def isSyn : Bool := p.flags &&& TCP_FLAG_SYN != 0
def isAck : Bool := p.flags &&& TCP_FLAG_ACK != 0
def isFin : Bool := p.flags &&& TCP_FLAG_FIN != 0
def isRst : Bool := p.flags &&& TCP_FLAG_RST != 0

def isForward : Bool :=
  p.saddr < p.daddr || p.saddr == p.daddr && fromBe p.source < fromBe p.dest

end Packet

/-! ## Keys -/

structure FlowKey where
  srcAddr : Word
  dstAddr : Word
  srcPort : BitVec 16
  dstPort : BitVec 16
  protocol : Byte
  deriving DecidableEq

def normalizeFlowKey (srcAddr dstAddr : Word) (srcPort dstPort : BitVec 16) (protocol : Byte) :
    FlowKey :=
  if srcAddr < dstAddr || srcAddr == dstAddr && fromBe srcPort < fromBe dstPort then
    ⟨srcAddr, dstAddr, srcPort, dstPort, protocol⟩
  else ⟨dstAddr, srcAddr, dstPort, srcPort, protocol⟩

def FlowKey.hash (k : FlowKey) : Word :=
  let h := (2166136261 : Word) * 16777619 ^^^ k.srcAddr
  let h := h * 16777619 ^^^ k.dstAddr
  let h := h * 16777619 ^^^ k.srcPort.setWidth 32
  let h := h * 16777619 ^^^ k.dstPort.setWidth 32
  h * 16777619 ^^^ k.protocol.setWidth 32

def Packet.key (p : Packet) : FlowKey := normalizeFlowKey p.saddr p.daddr p.source p.dest p.protocol

/-! ## Entries -/

inductive ConnectionState where
  | Unknown | SynSent | SynReceived | Established | FinWait1 | FinWait2 | CloseWait | Closing | LastAck
  | TimeWait | Closed
  deriving DecidableEq

structure TraceId where
  high : BitVec 64
  low : BitVec 64
  deriving DecidableEq

structure FlowState where
  traceId : TraceId
  startNs : BitVec 64
  lastSeenNs : BitVec 64
  packetsIn : BitVec 64
  packetsOut : BitVec 64
  bytesIn : BitVec 64
  bytesOut : BitVec 64
  state : ConnectionState
  deriving DecidableEq

/-- `tcp_state_transition`, with the flags of the packet taken apart. -/
def tcpStateTransition (current : ConnectionState) (p : Packet) (isForward : Bool) : ConnectionState :=
  if p.isRst then .Closed
  else
    match current with
    | .Unknown =>
      if p.isSyn && !p.isAck then .SynSent
      else if p.isSyn && p.isAck then .SynReceived
      else .Established
    | .SynSent =>
      if p.isSyn && p.isAck then .SynReceived else if p.isAck then .Established else current
    | .SynReceived => if p.isAck && !p.isSyn then .Established else current
    | .Established => if p.isFin then if isForward then .FinWait1 else .CloseWait else current
    | .FinWait1 =>
      if p.isFin && p.isAck then .TimeWait
      else if p.isFin then .Closing
      else if p.isAck then .FinWait2
      else current
    | .FinWait2 => if p.isFin then .TimeWait else current
    | .CloseWait => if p.isFin then .LastAck else current
    | .Closing => if p.isAck then .TimeWait else current
    | .LastAck => if p.isAck then .Closed else current
    | .TimeWait => .TimeWait
    | .Closed => .Closed

/-- The entry that `get_or_create_flow` inserts. -/
def FlowState.fresh (now : BitVec 64) : FlowState where
  traceId := ⟨0, 0⟩
  startNs := now
  lastSeenNs := now
  packetsIn := 0
  packetsOut := 0
  bytesIn := 0
  bytesOut := 0
  state := .Unknown

/-- The time and the counters of an entry after a packet. -/
def FlowState.counted (st : FlowState) (p : Packet) (now : BitVec 64) : FlowState :=
  if p.isForward then
    { st with
      lastSeenNs := now, packetsOut := satAdd64 st.packetsOut 1, bytesOut := satAdd64 st.bytesOut p.len }
  else
    { st with
      lastSeenNs := now, packetsIn := satAdd64 st.packetsIn 1, bytesIn := satAdd64 st.bytesIn p.len }

/-- The maps of the program. -/
structure Tracker where
  /-- `FLOWS`. -/
  flows : FlowKey → Option FlowState
  /-- `CANCEL_FLOWS`, of which the program reads the flags. -/
  cancelFlows : FlowKey → Option Word
  /-- `TRACE_ASSOC`. -/
  traceAssoc : Word → Option TraceId

variable (traceAssoc : Word → Option TraceId)

def loaded : Tracker where
  flows _ := none
  cancelFlows _ := none
  traceAssoc := traceAssoc

/-- The trace of an entry that has none is looked up. -/
def FlowState.traced (st : FlowState) (traceAssoc : Word → Option TraceId) (key : FlowKey) :
    FlowState :=
  if st.traceId = ⟨0, 0⟩ then { st with traceId := (traceAssoc key.hash).getD st.traceId } else st

/-- What a packet makes of the entry it finds: the end of `process_tcp` and of `process_udp`. -/
def updated (p : Packet) (now : BitVec 64) (st : FlowState) : FlowState :=
  let counted := st.counted p now
  if p.protocol = IPPROTO_TCP then
    { counted with state := tcpStateTransition counted.state p p.isForward }.traced traceAssoc p.key
  else { counted with state := if counted.state = .Unknown then .Established else counted.state }

def getOrCreateFlow (s : Tracker) (key : FlowKey) (now : BitVec 64) : Tracker :=
  match s.flows key with
  | some _ => s
  | none => { s with flows := update s.flows key (some (.fresh now)) }

/-- `process_tcp` and `process_udp`. -/
def process (s : Tracker) (p : Packet) (now : BitVec 64) : Tracker :=
  let s := getOrCreateFlow s p.key now
  if (s.cancelFlows p.key).any fun flags => flags &&& 1 != 0 then s
  else
    match s.flows p.key with
    | some st =>
      { s with flows := update s.flows p.key (some (updated s.traceAssoc p now st)) }
    | none => s

/-- A frame comes, or the LRU map drops an entry. -/
inductive Event where
  | frame (data : Frame) (now : BitVec 64)
  | evict (key : FlowKey)

def step (s : Tracker) : Event → Tracker
  | .frame data now =>
    match parse data with
    | some p => process s p now
    | none => s
  | .evict key => { s with flows := update s.flows key none }

/-! ## One key for both directions -/

theorem fromBe_fromBe (v : BitVec 16) : fromBe (fromBe v) = v := by
  unfold fromBe
  ext i inside
  grind

theorem fromBe_injective : Injective fromBe := Function.LeftInverse.injective fromBe_fromBe

abbrev Endpoint := Word × BitVec 16

namespace Packet

def sender (p : Packet) : Endpoint := (p.saddr, p.source)

def receiver (p : Packet) : Endpoint := (p.daddr, p.dest)

/-- Packets between the same two endpoints, of one protocol. -/
def SameConnection (p q : Packet) : Prop := p.protocol = q.protocol ∧
    (p.sender = q.sender ∧ p.receiver = q.receiver ∨ p.sender = q.receiver ∧ p.receiver = q.sender)

end Packet

namespace FlowKey

def first (k : FlowKey) : Endpoint := (k.srcAddr, k.srcPort)

def second (k : FlowKey) : Endpoint := (k.dstAddr, k.dstPort)

theorem ext_endpoints {k l : FlowKey} (protocol : k.protocol = l.protocol) (first : k.first = l.first)
    (second : k.second = l.second) : k = l := by
  cases k
  cases l
  cases protocol
  cases first
  cases second
  rfl

end FlowKey

namespace Packet

variable {p q : Packet}

theorem key_eq (p : Packet) : p.key =
    if p.isForward then ⟨p.saddr, p.daddr, p.source, p.dest, p.protocol⟩
    else ⟨p.daddr, p.saddr, p.dest, p.source, p.protocol⟩ := rfl

theorem key_protocol (p : Packet) : p.key.protocol = p.protocol := by
  rw [key_eq]
  split <;> rfl

theorem key_first (p : Packet) : p.key.first = cond p.isForward p.sender p.receiver := by
  rw [key_eq]
  cases p.isForward <;> rfl

theorem key_second (p : Packet) : p.key.second = cond p.isForward p.receiver p.sender := by
  rw [key_eq]
  cases p.isForward <;> rfl

theorem isForward_iff : p.isForward = true ↔
    p.saddr < p.daddr ∨ p.saddr = p.daddr ∧ fromBe p.source < fromBe p.dest := by
  simp [isForward]

theorem isForward_reversed (there : p.sender = q.receiver) (back : p.receiver = q.sender)
    (apart : p.sender ≠ p.receiver) : p.isForward = !q.isForward := by
  obtain ⟨saddr, source⟩ := Prod.mk.inj there
  obtain ⟨daddr, dest⟩ := Prod.mk.inj back
  have forward := @isForward_iff p
  have backward := @isForward_iff q
  rw [← saddr, ← daddr, ← source, ← dest] at backward
  have different : ¬ (p.saddr = p.daddr ∧ fromBe p.source = fromBe p.dest) :=
    fun same => apart (Prod.ext same.1 (fromBe_injective same.2))
  rw [← toNat_inj, ← toNat_inj] at different
  rw [← toNat_inj, lt_def, lt_def] at forward backward
  rw [Bool.eq_iff_iff, Bool.not_eq_true', ← Bool.not_eq_true, forward, backward]
  omega

theorem key_eq_iff : p.key = q.key ↔ p.SameConnection q := by
  constructor
  · intro same
    have first := congrArg FlowKey.first same
    have second := congrArg FlowKey.second same
    rw [key_first, key_first] at first
    rw [key_second, key_second] at second
    refine ⟨by rw [← p.key_protocol, same, q.key_protocol], ?_⟩
    cases hp : p.isForward <;> cases hq : q.isForward <;> rw [hp, hq] at first second
    · exact .inl ⟨second, first⟩
    · exact .inr ⟨second, first⟩
    · exact .inr ⟨first, second⟩
    · exact .inl ⟨first, second⟩
  · rintro ⟨protocol, ⟨there, back⟩ | ⟨there, back⟩⟩
    · obtain ⟨saddr, source⟩ := Prod.mk.inj there
      obtain ⟨daddr, dest⟩ := Prod.mk.inj back
      unfold key
      rw [saddr, source, daddr, dest, protocol]
    · refine FlowKey.ext_endpoints (by rw [key_protocol, key_protocol, protocol]) ?_ ?_
      · rw [key_first, key_first]
        by_cases one : p.sender = p.receiver
        · rw [← there, ← back, one, Bool.cond_self, Bool.cond_self]
        · rw [isForward_reversed there back one, there, back]
          cases q.isForward <;> rfl
      · rw [key_second, key_second]
        by_cases one : p.sender = p.receiver
        · rw [← there, ← back, one, Bool.cond_self, Bool.cond_self]
        · rw [isForward_reversed there back one, there, back]
          cases q.isForward <;> rfl

end Packet

/-! ## One event -/

def concerns (key : FlowKey) : Event → Bool
  | .frame data _ => (parse data).any fun p => p.key = key
  | .evict k => k = key

/-- The state of the entry of a key; a new entry is `Unknown`. -/
def stateOf (s : Tracker) (key : FlowKey) : ConnectionState :=
  ((s.flows key).map FlowState.state).getD .Unknown

section Steps

variable {s : Tracker} {p : Packet} {now : BitVec 64} {key : FlowKey} {e : Event}

theorem getOrCreateFlow_flows (s : Tracker) (key : FlowKey) (now : BitVec 64) :
    (getOrCreateFlow s key now).flows =
      update s.flows key (some ((s.flows key).getD (.fresh now))) := by
  unfold getOrCreateFlow
  split
  next st here =>
    rw [here, getD_some, ← here, update_eq_self]
  next absent =>
    rw [absent]
    rfl

theorem getOrCreateFlow_maps (s : Tracker) (key : FlowKey) (now : BitVec 64) :
    (getOrCreateFlow s key now).cancelFlows = s.cancelFlows ∧
      (getOrCreateFlow s key now).traceAssoc = s.traceAssoc := by
  unfold getOrCreateFlow
  split
  · exact ⟨rfl, rfl⟩
  · exact ⟨rfl, rfl⟩

theorem process_flows (running : s.cancelFlows p.key = none) :
    (process s p now).flows = update s.flows p.key
      (some (updated s.traceAssoc p now ((s.flows p.key).getD (.fresh now)))) := by
  obtain ⟨cancel, trace⟩ := getOrCreateFlow_maps s p.key now
  unfold process
  dsimp only
  rw [cancel, running, trace, getOrCreateFlow_flows, update_self]
  exact update_idem _ _ _

theorem process_maps (s : Tracker) (p : Packet) (now : BitVec 64) :
    (process s p now).cancelFlows = s.cancelFlows ∧ (process s p now).traceAssoc = s.traceAssoc := by
  have created := getOrCreateFlow_maps s p.key now
  unfold process
  dsimp only
  split
  · exact created
  · split
    · exact created
    · exact created

theorem process_other (other : p.key ≠ key) : (process s p now).flows key = s.flows key := by
  have created : (getOrCreateFlow s p.key now).flows key = s.flows key := by
    rw [getOrCreateFlow_flows, update_of_ne other.symm]
  unfold process
  dsimp only
  split
  · exact created
  · split
    · exact (update_of_ne other.symm _ _).trans created
    · exact created

theorem step_maps (s : Tracker) (e : Event) :
    (step s e).cancelFlows = s.cancelFlows ∧ (step s e).traceAssoc = s.traceAssoc := by
  cases e with
  | frame data now =>
    dsimp only [step]
    split
    · exact process_maps s _ now
    · exact ⟨rfl, rfl⟩
  | evict k => exact ⟨rfl, rfl⟩

theorem step_other (other : concerns key e = false) : (step s e).flows key = s.flows key := by
  cases e with
  | frame data now =>
    dsimp only [step]
    split
    next p parsed =>
      refine process_other fun same => ?_
      rw [concerns, parsed, any_some, decide_eq_false_iff_not] at other
      exact other same
    · rfl
  | evict k =>
    refine update_of_ne (fun same => ?_) _ _
    rw [concerns, decide_eq_false_iff_not] at other
    exact other same.symm

theorem counted_state (st : FlowState) (p : Packet) (now : BitVec 64) :
    (st.counted p now).state = st.state := by
  unfold FlowState.counted
  split <;> rfl

theorem updated_state (traceAssoc : Word → Option TraceId) (tcp : p.protocol = IPPROTO_TCP)
    (st : FlowState) :
    (updated traceAssoc p now st).state = tcpStateTransition st.state p p.isForward := by
  rw [updated, if_pos tcp, counted_state]
  unfold FlowState.traced
  split <;> rfl

theorem stateOf_process (running : s.cancelFlows p.key = none) (tcp : p.protocol = IPPROTO_TCP) :
    stateOf (process s p now) p.key = tcpStateTransition (stateOf s p.key) p p.isForward := by
  unfold stateOf
  rw [process_flows running, update_self, map_some, updated_state _ tcp]
  cases s.flows p.key <;> rfl

variable {c : ConnectionState} {forward : Bool}

theorem finWait_of_transition
    (result : tcpStateTransition c p forward = .FinWait1 ∨ tcpStateTransition c p forward = .FinWait2) :
    c = .Established ∧ p.isFin = true ∧ forward = true ∨ c = .FinWait1 ∨ c = .FinWait2 := by
  unfold tcpStateTransition at result
  cases c <;> grind

theorem timeWait_of_transition
    (result : tcpStateTransition c p forward = .Closing ∨ tcpStateTransition c p forward = .TimeWait) :
    (c = .FinWait1 ∨ c = .FinWait2) ∧ p.isFin = true ∧ p.isRst = false ∨
      c = .Closing ∨ c = .TimeWait := by
  unfold tcpStateTransition at result
  cases c <;> grind

end Steps

/-! ## Runs -/

/-- The connection is past `Established`. -/
def ConnectionState.Ended (c : ConnectionState) : Prop :=
  c ≠ .Unknown ∧ c ≠ .SynSent ∧ c ≠ .SynReceived ∧ c ≠ .Established

instance (c : ConnectionState) : Decidable c.Ended := inferInstanceAs (Decidable (_ ∧ _ ∧ _ ∧ _))

/-- A FIN that finds the forward side's FIN comes from the other side, and a SYN finds no entry of a
connection that has ended. -/
def Packet.Fits (p : Packet) (c : ConnectionState) : Prop := p.isRst = false →
    ((c = .FinWait1 ∨ c = .FinWait2) ∧ p.isFin = true → p.isForward = false) ∧
    (p.isSyn = true ∧ p.isAck = false → ¬ c.Ended)

instance (p : Packet) (c : ConnectionState) : Decidable (p.Fits c) :=
  inferInstanceAs (Decidable (_ → (_ → _) ∧ (_ → _)))

def Proper (s : Tracker) : Event → Prop
  | .frame data _ => ∀ p ∈ parse data, p.Fits (stateOf s p.key)
  | .evict _ => True

instance (s : Tracker) : (e : Event) → Decidable (Proper s e)
  | .frame data _ => inferInstanceAs (Decidable (∀ p ∈ parse data, p.Fits (stateOf s p.key)))
  | .evict _ => isTrue trivial

def isFinOf (key : FlowKey) (endpoint : Endpoint) : Event → Bool
  | .frame data _ => (parse data).any fun p => p.key = key && p.isFin && p.sender = endpoint
  | .evict _ => false

def SentFin (events : List Event) (key : FlowKey) (endpoint : Endpoint) : Prop :=
  ∃ e ∈ events, isFinOf key endpoint e = true

instance (events : List Event) (key : FlowKey) (endpoint : Endpoint) :
    Decidable (SentFin events key endpoint) :=
  inferInstanceAs (Decidable (∃ e ∈ events, isFinOf key endpoint e = true))

variable {events : List Event}

theorem SentFin.append {key : FlowKey} {endpoint : Endpoint} (sent : SentFin events key endpoint)
    (more : List Event) : SentFin (events ++ more) key endpoint := by
  obtain ⟨e, mem, fin⟩ := sent
  exact ⟨e, mem_append_left _ mem, fin⟩

/-- The FINs that the state of an entry stands for. -/
structure FinsSeen (events : List Event) (c : ConnectionState) (key : FlowKey) : Prop where
  one : c = .FinWait1 ∨ c = .FinWait2 → SentFin events key key.first
  both : c = .Closing ∨ c = .TimeWait → SentFin events key key.first ∧ SentFin events key key.second

variable {c : ConnectionState}

theorem FinsSeen.append {key : FlowKey} (seen : FinsSeen events c key) (more : List Event) :
    FinsSeen (events ++ more) c key where
  one wait := (seen.one wait).append more
  both wait := ⟨(seen.both wait).1.append more, (seen.both wait).2.append more⟩

theorem finsSeen_of_open (none : c = .Unknown ∨ c = .Established) (events : List Event)
    (key : FlowKey) : FinsSeen events c key where
  one wait := by rcases none with rfl | rfl <;> rcases wait with h | h <;> cases h
  both wait := by rcases none with rfl | rfl <;> rcases wait with h | h <;> cases h

section Runs

variable {traceAssoc : Word → Option TraceId} {s : Tracker} {p : Packet} {now : BitVec 64}

variable {events : List Event} {data : Frame} {c : ConnectionState}

theorem finsSeen_packet (seen : FinsSeen events c p.key) (parsed : parse data = some p)
    (fits : p.Fits c) :
    FinsSeen (events ++ [Event.frame data now]) (tcpStateTransition c p p.isForward) p.key := by
  have sent : p.isFin = true → SentFin (events ++ [Event.frame data now]) p.key p.sender := by
    intro fin
    refine ⟨.frame data now, mem_concat_self, ?_⟩
    rw [isFinOf, parsed, any_some, fin]
    simp
  constructor
  · intro wait
    rcases finWait_of_transition wait with ⟨-, fin, forward⟩ | before
    · rw [p.key_first, forward]
      exact sent fin
    · exact (seen.one before).append _
  · intro wait
    rcases timeWait_of_transition wait with ⟨before, fin, running⟩ | before
    · have backward := (fits running).1 ⟨before, fin⟩
      refine ⟨(seen.one before).append _, ?_⟩
      rw [p.key_second, backward]
      exact sent fin
    · exact ⟨(seen.both before).1.append _, (seen.both before).2.append _⟩

theorem maps_afterAll (events : List Event) (s : Tracker) :
    (afterAll step s events).cancelFlows = s.cancelFlows ∧
      (afterAll step s events).traceAssoc = s.traceAssoc := by
  induction events generalizing s with
  | nil => exact ⟨rfl, rfl⟩
  | cons e events ih =>
    obtain ⟨cancel, trace⟩ := ih (step s e)
    obtain ⟨cancel', trace'⟩ := step_maps s e
    exact ⟨cancel.trans cancel', trace.trans trace'⟩

theorem not_cancelled (events : List Event) (key : FlowKey) :
    (afterAll step (loaded traceAssoc) events).cancelFlows key = none :=
  congrFun (maps_afterAll events (loaded traceAssoc)).1 key

theorem stateOf_udp (running : s.cancelFlows p.key = none) (other : p.protocol ≠ IPPROTO_TCP) :
    stateOf (process s p now) p.key = stateOf s p.key ∨
      stateOf (process s p now) p.key = .Established := by
  unfold stateOf
  rw [process_flows running, update_self, updated, if_neg other]
  rw [counted_state]
  split
  · exact .inr rfl
  · left
    cases s.flows p.key <;> rfl

theorem finsSeen_run (events : List Event) (along : Along step Proper (loaded traceAssoc) events)
    (key : FlowKey) :
    FinsSeen events (stateOf (afterAll step (loaded traceAssoc) events) key) key := by
  induction events using List.reverseRecOn with
  | nil => exact finsSeen_of_open (.inl rfl) [] key
  | append_singleton events e ih =>
    obtain ⟨before, now⟩ := along_append.mp along
    have seen := ih before
    rw [afterAll_append]
    by_cases concern : concerns key e = true
    · cases e with
      | evict k =>
        obtain rfl : k = key := of_decide_eq_true concern
        refine finsSeen_of_open (.inl ?_) _ k
        have gone : (step (afterAll step (loaded traceAssoc) events) (.evict k)).flows k = none :=
          update_self _ _ _
        rw [afterAll_cons, afterAll_nil, stateOf, gone]
        rfl
      | frame data time =>
        obtain ⟨p, parsed, same⟩ := (Option.any_eq_true _ _).mp concern
        obtain rfl : p.key = key := of_decide_eq_true same
        have running := @not_cancelled traceAssoc events p.key
        have taken : step (afterAll step (loaded traceAssoc) events) (.frame data time) =
            process (afterAll step (loaded traceAssoc) events) p time := by
          rw [step, parsed]
        rw [afterAll_cons, afterAll_nil, taken]
        by_cases tcp : p.protocol = IPPROTO_TCP
        · rw [stateOf_process running tcp]
          exact finsSeen_packet seen parsed (now.1 p parsed)
        · rcases stateOf_udp running tcp with same | established
          · rw [same]
            exact seen.append _
          · exact finsSeen_of_open (.inr established) _ _
    · have same : stateOf (afterAll step (afterAll step (loaded traceAssoc) events) [e]) key =
          stateOf (afterAll step (loaded traceAssoc) events) key := by
        unfold stateOf
        rw [afterAll_cons, afterAll_nil, step_other (Bool.eq_false_iff.mpr concern)]
      rw [same]
      exact seen.append [e]

/-! ## Handshakes -/

/-- A three-way handshake: a SYN, a SYN with ACK back, and an ACK. -/
def IsHandshake : List Event → Prop
  | [.frame first _, .frame second _, .frame third _] =>
    ∃ syn synAck ack, parse first = some syn ∧ parse second = some synAck ∧ parse third = some ack ∧
      (syn.isSyn = true ∧ syn.isAck = false ∧ syn.isFin = false ∧ syn.isRst = false) ∧
      (synAck.isSyn = true ∧ synAck.isAck = true ∧ synAck.isFin = false ∧ synAck.isRst = false) ∧
      (ack.isSyn = false ∧ ack.isAck = true ∧ ack.isFin = false ∧ ack.isRst = false) ∧
      (synAck.sender = syn.receiver ∧ synAck.receiver = syn.sender) ∧
      ack.sender = syn.sender ∧ ack.receiver = syn.receiver
  | _ => False

theorem established_of_handshake {syn synAck ack : Packet} (f g h : Bool)
    (isSyn : syn.isSyn = true ∧ syn.isAck = false ∧ syn.isFin = false ∧ syn.isRst = false)
    (isSynAck : synAck.isSyn = true ∧ synAck.isAck = true ∧ synAck.isFin = false ∧ synAck.isRst = false)
    (isAck : ack.isSyn = false ∧ ack.isAck = true ∧ ack.isFin = false ∧ ack.isRst = false)
    (fresh : ¬ c.Ended) :
    tcpStateTransition (tcpStateTransition (tcpStateTransition c syn f) synAck g) ack h =
      .Established := by
  obtain ⟨s1, s2, s3, s4⟩ := isSyn
  obtain ⟨t1, t2, t3, t4⟩ := isSynAck
  obtain ⟨u1, u2, u3, u4⟩ := isAck
  cases c with
  | Unknown | SynSent | SynReceived | Established =>
    simp [tcpStateTransition, s1, s2, s3, s4, t1, t2, t3, t4, u1, u2, u3, u4]
  | FinWait1 | FinWait2 | CloseWait | Closing | LastAck | TimeWait | Closed =>
    exact absurd ⟨nofun, nofun, nofun, nofun⟩ fresh

variable {key : FlowKey}

theorem stateOf_afterAll_other (others : ∀ e ∈ events, concerns key e = false) (s : Tracker) :
    stateOf (afterAll step s events) key = stateOf s key := by
  induction events generalizing s with
  | nil => rfl
  | cons e events ih =>
    rw [afterAll_cons, ih (fun e' mem => others e' (mem_cons_of_mem e mem)), stateOf,
      step_other (others e mem_cons_self)]
    rfl

theorem tcp_of_flags (parsed : parse data = some p) (flags : p.flags ≠ 0) :
    p.protocol = IPPROTO_TCP := by
  unfold parse at parsed
  dsimp only at parsed
  split at parsed
  · cases parsed
  split at parsed
  · cases parsed
  split at parsed
  · cases parsed
  split at parsed
  · cases parsed
  split at parsed
  next tcp =>
    split at parsed <;> cases parsed
    exact tcp
  · split at parsed
    · split at parsed <;> cases parsed
      exact absurd rfl flags
    · cases parsed

theorem flags_ne_zero {bit : Byte} (set : (p.flags &&& bit != 0) = true) : p.flags ≠ 0 := by
  intro zero
  rw [zero] at set
  simp at set

theorem first_packet {more : List Event} {time : BitVec 64} (running : s.cancelFlows key = none)
    (filtered : events.filter (concerns key) = .frame data time :: more)
    (parsed : parse data = some p) (flags : p.flags ≠ 0) :
    ∃ s' rest, afterAll step s events = afterAll step s' rest ∧
      rest.filter (concerns key) = more ∧ s'.cancelFlows key = none ∧
      stateOf s' key = tcpStateTransition (stateOf s key) p p.isForward ∧
      (Along step Proper s events → p.Fits (stateOf s key)) := by
  obtain ⟨front, rest, rfl, others, concern, later⟩ := filter_eq_cons_iff.mp filtered
  obtain rfl : p.key = key := by
    rw [concerns, parsed] at concern
    exact of_decide_eq_true concern
  have before := stateOf_afterAll_other (fun e mem => Bool.eq_false_iff.mpr (others e mem)) s
  have running := (congrFun (maps_afterAll front s).1 p.key).trans running
  have taken : step (afterAll step s front) (.frame data time) =
      process (afterAll step s front) p time := by
    rw [step, parsed]
  refine ⟨step (afterAll step s front) (.frame data time), rest, afterAll_append step s front _,
    later, ?_, ?_, fun along => ?_⟩
  · exact (congrFun (step_maps _ _).1 p.key).trans running
  · rw [taken, stateOf_process running (tcp_of_flags parsed flags), before]
  · have now := (along_append.mp along).2.1 p parsed
    rwa [before] at now

theorem handshake_establishes {handshake : List Event} (running : s.cancelFlows key = none)
    (isHandshake : IsHandshake (handshake.filter (concerns key)))
    (along : Along step Proper s handshake) :
    stateOf (afterAll step s handshake) key = .Established := by
  unfold IsHandshake at isHandshake
  split at isHandshake
  next d1 t1 d2 t2 d3 t3 filtered =>
    obtain ⟨syn, synAck, ack, p1, p2, p3, isSyn, isSynAck, isAck, -⟩ := isHandshake
    obtain ⟨s1, r1, e1, filtered, running, a1, fits⟩ :=
      first_packet running filtered p1 (flags_ne_zero isSyn.1)
    obtain ⟨s2, r2, e2, filtered, running, a2, -⟩ :=
      first_packet running filtered p2 (flags_ne_zero isSynAck.1)
    obtain ⟨s3, r3, e3, filtered, -, a3, -⟩ :=
      first_packet running filtered p3 (flags_ne_zero isAck.2.1)
    have fresh := (fits along isSyn.2.2.2).2 ⟨isSyn.1, isSyn.2.1⟩
    have others : ∀ e ∈ r3, concerns key e = false :=
      fun e mem => Bool.eq_false_iff.mpr (filter_eq_nil_iff.mp filtered e mem)
    rw [e1, e2, e3, stateOf_afterAll_other others, a3, a2, a1]
    exact established_of_handshake _ _ _ isSyn isSynAck isAck fresh
  · exact isHandshake.elim

theorem exists_of_stateOf (state : stateOf s key = c) (known : c ≠ .Unknown) :
    ∃ st, s.flows key = some st ∧ st.state = c := by
  unfold stateOf at state
  cases here : s.flows key with
  | none =>
    rw [here] at state
    exact absurd state.symm known
  | some st =>
    rw [here] at state
    exact ⟨st, rfl, state⟩

end Runs

/-! ## What a run shows -/

/-- The tracker follows the connections of a run. -/
structure Follows (traceAssoc : Word → Option TraceId) (events : List Event) : Prop where
  updates : ∀ front data now rest p, events = front ++ Event.frame data now :: rest →
    parse data = some p →
    (afterAll step (loaded traceAssoc) (front ++ [Event.frame data now])).flows p.key =
      some (updated traceAssoc p now
        (((afterAll step (loaded traceAssoc) front).flows p.key).getD (.fresh now)))
  apart : ∀ front data now rest p key, events = front ++ Event.frame data now :: rest →
    parse data = some p → p.key ≠ key →
    (afterAll step (loaded traceAssoc) (front ++ [Event.frame data now])).flows key =
      (afterAll step (loaded traceAssoc) front).flows key
  oneEntry : ∀ p q : Packet, p.key = q.key ↔ p.SameConnection q
  timeWait : ∀ front rest key st, events = front ++ rest →
    (afterAll step (loaded traceAssoc) front).flows key = some st → st.state = .TimeWait →
    SentFin front key key.first ∧ SentFin front key key.second
  reopened : ∀ front middle handshake rest key closed,
    events = front ++ (middle ++ (handshake ++ rest)) →
    (afterAll step (loaded traceAssoc) front).flows key = some closed → closed.state = .Closed →
    IsHandshake (handshake.filter (concerns key)) →
    ∃ st, (afterAll step (loaded traceAssoc) (front ++ (middle ++ handshake))).flows key = some st ∧
      st.state = .Established

/-- The tracker follows the connections of every run in which no repeated FIN of the forward side is
taken for the FIN of the other side, and no SYN finds the entry of a connection that has ended. -/
theorem follows_of_proper (traceAssoc : Word → Option TraceId) (events : List Event)
    (proper : Along step Proper (loaded traceAssoc) events) : Follows traceAssoc events where
  updates := by
    rintro front data now rest p rfl parsed
    have running := @not_cancelled traceAssoc front p.key
    have trace := (maps_afterAll front (loaded traceAssoc)).2
    rw [afterAll_append, afterAll_cons, afterAll_nil, step, parsed]
    rw [process_flows running, update_self, trace]
    rfl
  apart := by
    rintro front data now rest p key rfl parsed other
    rw [afterAll_append, afterAll_cons, step, parsed]
    exact process_other other
  oneEntry _ _ := Packet.key_eq_iff
  timeWait := by
    rintro front rest key st rfl here waits
    have seen := finsSeen_run front (along_append.mp proper).1 key
    refine seen.both (.inr ?_)
    rw [stateOf, here]
    exact waits
  reopened := by
    rintro front middle handshake rest key closed rfl - - isHandshake
    rw [← List.append_assoc, ← List.append_assoc] at proper
    have along := (along_append.mp (along_append.mp proper).1).2
    have established := handshake_establishes (not_cancelled (front ++ middle) key) isHandshake along
    rw [← afterAll_append, List.append_assoc] at established
    exact exists_of_stateOf established nofun

/-! ## A connection from 10.0.0.1 to 10.0.0.2 -/

/-- A TCP packet of the connection, with these flags. -/
def segment (forward : Bool) (flags : Byte) : Event :=
  let ethernet := List.replicate 12 0 ++ [0x08, 0x00]
  let first : List Byte := [10, 0, 0, 1]
  let second : List Byte := [10, 0, 0, 2]
  let addresses := if forward then first ++ second else second ++ first
  let ports := if forward then [0x9C, 0x40, 0, 80] else [0, 80, 0x9C, 0x40]
  let ip := [0x45, 0, 0, 40, 0, 0, 0x40, 0, 64, IPPROTO_TCP, 0, 0] ++ addresses
  .frame (ethernet ++ ip ++ ports ++ [0, 0, 0, 0, 0, 0, 0, 0, 0x50, flags, 0, 0, 0, 0, 0, 0]) 0

def connectionKey : FlowKey := ⟨0x0100000A, 0x0200000A, 0x409C, 0x5000, IPPROTO_TCP⟩

/-- `SYN`, `SYN|ACK`, `ACK`. -/
def handshake : List Event := [segment true 0x02, segment false 0x12, segment true 0x10]

def closedAndEvicted : List Event :=
  handshake ++ ([segment true 0x11, segment false 0x11, segment false 0x04] ++
    ([Event.evict connectionKey] ++ handshake))

theorem handshake_isHandshake : IsHandshake (handshake.filter (concerns connectionKey)) := by
  have all : handshake.filter (concerns connectionKey) = handshake :=
    filter_eq_self.mpr (by decide +kernel)
  rw [all]
  refine ⟨_, _, _, rfl, rfl, rfl, ?_⟩
  decide +kernel

theorem follows_of_proper_evicted : Along step Proper (loaded fun _ => none) closedAndEvicted ∧
      stateOf (afterAll step (loaded fun _ => none) (closedAndEvicted.take 5)) connectionKey =
        .TimeWait ∧
      stateOf (afterAll step (loaded fun _ => none) (closedAndEvicted.take 6)) connectionKey = .Closed ∧
      stateOf (afterAll step (loaded fun _ => none) closedAndEvicted) connectionKey = .Established ∧
      Follows (fun _ => none) closedAndEvicted := by
  have passed : checkAlong step (fun s e => decide (Proper s e)) (loaded fun _ => none)
      closedAndEvicted = true := by
    decide +kernel
  have proper := along_of_check (fun s e => of_decide_eq_true) passed
  exact ⟨proper, by decide +kernel, by decide +kernel, by decide +kernel,
    follows_of_proper _ _ proper⟩

def finTwice : List Event := handshake ++ [segment true 0x11, segment true 0x11]

def resetAndReopened : List Event := handshake ++ [segment true 0x04] ++ handshake

/-- The FIN that is sent again brings the entry to TimeWait, and the entry of the connection that was
reset stays closed. -/
theorem repeated_fin_ends_flow :
    (stateOf (afterAll step (loaded fun _ => none) finTwice) connectionKey = .TimeWait ∧
      ¬ SentFin finTwice connectionKey connectionKey.second) ∧
    stateOf (afterAll step (loaded fun _ => none) resetAndReopened) connectionKey = .Closed ∧
    ¬ Follows (fun _ => none) finTwice ∧ ¬ Follows (fun _ => none) resetAndReopened := by
  have waits : stateOf (afterAll step (loaded fun _ => none) finTwice) connectionKey = .TimeWait := by
    decide +kernel
  have one : ¬ SentFin finTwice connectionKey connectionKey.second := by decide +kernel
  have stays : stateOf (afterAll step (loaded fun _ => none) resetAndReopened) connectionKey =
      .Closed := by
    decide +kernel
  refine ⟨⟨waits, one⟩, stays, fun follows => ?_, fun follows => ?_⟩
  · obtain ⟨st, here, state⟩ := exists_of_stateOf waits nofun
    exact one (follows.timeWait finTwice [] connectionKey st (append_nil _).symm here state).2
  · have closed : stateOf (afterAll step (loaded fun _ => none) (handshake ++ [segment true 0x04]))
        connectionKey = .Closed := by
      decide +kernel
    obtain ⟨st, here, state⟩ := exists_of_stateOf closed nofun
    have split : resetAndReopened =
        handshake ++ [segment true 0x04] ++ ([] ++ (handshake ++ [])) := by
      rfl
    obtain ⟨st', here', state'⟩ :=
      follows.reopened _ [] handshake [] connectionKey st split here state handshake_isHandshake
    have opened : stateOf (afterAll step (loaded fun _ => none) resetAndReopened) connectionKey =
        .Established := by
      rw [stateOf, split, append_nil, here']
      exact state'
    simp [stays] at opened

end Unheaded.Net.FlowTracker
