import Unheaded.Net.MapKeys
import Unheaded.Net.Packet

/-!
# The Shield

`shield_xdp` and `shield_tc` of `shield-ebpf`: the Hop-by-Hop header with a fresh Monad is put in
at the boundary of the Kingdom and taken out again behind it.
-/

namespace Unheaded.Net

open Mbc Lib List BitVec Net.Frame HopByHopHeader
open BitVec (ofNat)

def ETH_HDR_SIZE : Nat := 14
def IPV6_HDR_SIZE : Nat := 40
def MAX_EXT_HDRS_TO_STRIP : Nat := 2

/-- A value of `ERROR_COUNTERS`. -/
structure ErrorCount where
  count : Word
  lastSeenAt : Word

structure ShieldMaps where
  blocklist : BitVec 64 → Option Byte
  errorCounters : BitVec 64 → Option ErrorCount

/-- The head room that `bpf_xdp_adjust_head` gives. -/
abbrev Headroom := { room : List Byte // room.length = 24 }

def srcAddrKey (addr : List Byte) : BitVec 64 := ofNat 64 (beValue ((addr.drop 8).take 8))

def isExtHdr (nh : Byte) : Bool := nh == 0 || nh == 43 || nh == 44 || nh == 51 || nh == 60

/-- The loop of `strip_extension_headers`. -/
def stripLoop (f : Frame) : Nat → Byte → Nat → Byte
  | 0, nh, _ => nh
  | n + 1, nh, offset =>
    if !isExtHdr nh then nh
    else if f.length < offset + 2 then nh
    else stripLoop f n (f.byteAt offset) (offset + ((f.byteAt (offset + 1)).toNat + 1) * 8)

variable (f : Frame)

def stripExtensionHeaders : Byte :=
  stripLoop f MAX_EXT_HDRS_TO_STRIP f.nextHeader (ETH_HDR_SIZE + IPV6_HDR_SIZE)

def copyBytesForward (n : Nat) (f : Frame) (dst src : Nat) : Option Frame :=
  if f.length < src + n ∨ f.length < dst + n then none else some (copyForward f dst src n)

def writeBytes (dst : Nat) (bytes : List Byte) : Option Frame :=
  if f.length < dst + bytes.length then none else some (writeFrom f dst bytes)

/-- `u16::saturating_add`. -/
def satAdd16 (a b : BitVec 16) : BitVec 16 := if a.toNat + b.toNat < 2 ^ 16 then a + b else 0xFFFF

/-- `u16::saturating_sub`. -/
def satSub16 (a b : BitVec 16) : BitVec 16 := if b.toNat ≤ a.toNat then a - b else 0

/-- `u16::from_be(ip.payload_len)`. -/
def Frame.payloadLength : BitVec 16 :=
  be16 (f.byteAt (ETH_HDR_SIZE + 4), f.byteAt (ETH_HDR_SIZE + 5))

/-- `to_be` of a half word, in memory. -/
def beHalf (v : BitVec 16) : List Byte := [(toBe16 v).1, (toBe16 v).2]

/-- `to_be` of a word, in memory. -/
def beWord (v : Word) : List Byte := [byteOf v 3, byteOf v 2, byteOf v 1, byteOf v 0]

/-- The Monad of a packet that enters. -/
def birthMonad : Monad := { Monad.new with
    srcPrefixLo := f.src.getD 7 0
    dstPrefixLo := f.dst.getD 7 0
    deployRing := DeployRing.PRODUCTION
    flowAction := FlowAction.FORWARD
    circuitState := CircuitState.CLOSED }.recomputeChecksum

def birthHeader (originalNextHeader : Byte) (monad : Monad) : HopByHopHeader :=
  { new originalNextHeader with monad := monad.recomputeChecksum }

/-- `new_vtf`. -/
def relabel (vtf flowLabel : Word) : Word := (vtf &&& 0xFFF00000) ||| (flowLabel &&& 0xFFFFF)

/-- Steps 11 and 12: the fields of the moved IPv6 header, and the Hop-by-Hop header behind it. -/
def writeHeaders (flowLabel : Word) (header : HopByHopHeader) : XdpAction × Frame :=
  let f : Frame := f.set (ETH_HDR_SIZE + 6) IPV6_NEXTHDR_HBH
  let f : Frame := writeFrom f (ETH_HDR_SIZE + 4)
    (beHalf (satAdd16 f.payloadLength (ofNat 16 HBH_TOTAL_LEN)))
  let f : Frame := writeFrom f ETH_HDR_SIZE (beWord (relabel f.vtf flowLabel))
  if f.length < ETH_HDR_SIZE + IPV6_HDR_SIZE + HBH_TOTAL_LEN then (.drop, f)
  else
    match writeBytes f (ETH_HDR_SIZE + IPV6_HDR_SIZE) header.toBytes with
    | none => (.pass, f)
    | some f => (.pass, f)

/-- Steps 8 to 12, on the frame with the head room in front. -/
def stampFrame (flowLabel : Word) (header : HopByHopHeader) : XdpAction × Frame :=
  if f.length < ETH_HDR_SIZE + IPV6_HDR_SIZE + HBH_TOTAL_LEN then (.drop, f)
  else if f.length < 24 + ETH_HDR_SIZE then (.drop, f)
  else
    match copyBytesForward ETH_HDR_SIZE f 0 24 with
    | none => (.pass, f)
    | some f =>
      if f.length < 24 + ETH_HDR_SIZE + IPV6_HDR_SIZE then (.drop, f)
      else
        match copyBytesForward IPV6_FIXED_HDR_LEN f ETH_HDR_SIZE (24 + ETH_HDR_SIZE) with
        | none => (.pass, f)
        | some f => writeHeaders f flowLabel header

/-- A frame that carries a Monad option first in its Hop-by-Hop header is not stamped again. -/
def alreadyStamped : Bool :=
  f.nextHeader == IPV6_NEXTHDR_HBH && decide (ETH_HDR_SIZE + IPV6_HDR_SIZE + 4 ≤ f.length) &&
    f.byteAt (ETH_HDR_SIZE + IPV6_HDR_SIZE + 2) == MONAD_OPT_TYPE

variable (maps : ShieldMaps)

/-- `shield_xdp`, with the drawn number and the outcome of `bpf_xdp_adjust_head`. -/
def shieldXdp (adjusted : Option Headroom) (rand : Word) (f : Frame) : XdpAction × Frame :=
  if f.length < ETH_HDR_SIZE then (.pass, f)
  else if f.etherType ≠ ETH_P_IPV6 then (.pass, f)
  else if f.length < ETH_HDR_SIZE + IPV6_HDR_SIZE then (.pass, f)
  else if (maps.blocklist (srcAddrKey f.src)).isSome then (.drop, f)
  else if alreadyStamped f then (.pass, f)
  else
    match adjusted with
    | none => (.pass, f)
    | some room =>
      stampFrame (room.1 ++ f) (rand &&& 0xFFFFF)
        (birthHeader (stripExtensionHeaders f) (birthMonad f))

def deathError (m : Monad) : BitVec 16 :=
  if m.version ≠ MONAD_VERSION then 0x02
  else if !m.hasFlag Flags.CUSTOM && !m.verifyChecksum then 0x01
  else 0x00

/-- `ERROR_COUNTERS` after a packet. -/
def countError (m : Monad) : ShieldMaps :=
  if deathError m ≠ 0 ∧ m.hasFlag Flags.CHAOS = false then
    { maps with errorCounters := fun key =>
        if key = makeErrorKey (deathError m) then
          (maps.errorCounters key).map fun entry => { entry with count := satAdd32 entry.count 1 }
        else maps.errorCounters key }
  else maps

/-- The fields of the IPv6 header after the removal. -/
def restoreHeader (originalNh : Byte) : Frame :=
  let f : Frame := f.set (ETH_HDR_SIZE + 6) originalNh
  writeFrom f (ETH_HDR_SIZE + 4) (beHalf (satSub16 f.payloadLength (ofNat 16 HBH_TOTAL_LEN)))

/-- `shield_tc`, with the outcome of `bpf_skb_adjust_room`; it always returns `TC_ACT_OK`. -/
def shieldTc (adjusted : Bool) (f : Frame) : Frame × ShieldMaps :=
  let hbhOffset := ETH_HDR_SIZE + IPV6_HDR_SIZE
  if f.length < 14 then (f, maps)
  else if f.etherType ≠ ETH_P_IPV6 then (f, maps)
  else if f.length < ETH_HDR_SIZE + 7 then (f, maps)
  else if f.nextHeader ≠ IPV6_NEXTHDR_HBH then (f, maps)
  else if f.length < hbhOffset + 3 then (f, maps)
  else if f.byteAt (hbhOffset + 2) ≠ MONAD_OPT_TYPE then (f, maps)
  else if f.length < hbhOffset + 4 then (f, maps)
  else if f.byteAt (hbhOffset + 3) ≠ MONAD_OPT_DATA_LEN then (f, maps)
  else if f.length < hbhOffset + 4 + MONAD_SIZE then (f, maps)
  else
    let counted := countError maps (Monad.fromBytes ((f.drop (hbhOffset + 4)).take MONAD_SIZE))
    if !adjusted then (f, counted)
    else
      (restoreHeader (f.take hbhOffset ++ f.drop (hbhOffset + HBH_TOTAL_LEN)) (f.byteAt hbhOffset),
        counted)

/-! ## Bytes of a frame in parts -/

section Parts

variable {f g : Frame} {i n : Nat}

theorem byteAt_append_left (inside : i < f.length) : byteAt (f ++ g) i = f.byteAt i := by
  unfold byteAt
  rw [getD_eq_getElem?_getD, getD_eq_getElem?_getD, List.getElem?_append_left inside]

theorem byteAt_append_right (past : f.length ≤ i) :
    byteAt (f ++ g) i = g.byteAt (i - f.length) := by
  unfold byteAt
  rw [getD_eq_getElem?_getD, getD_eq_getElem?_getD, List.getElem?_append_right past]

theorem byteAt_take (inside : i < n) : byteAt (f.take n) i = f.byteAt i := by
  unfold byteAt
  rw [getD_eq_getElem?_getD, getD_eq_getElem?_getD, List.getElem?_take_of_lt inside]

theorem byteAt_set_of_ne (other : n ≠ i) (b : Byte) : byteAt (f.set n b) i = f.byteAt i := by
  unfold byteAt
  rw [getD_eq_getElem?_getD, getD_eq_getElem?_getD, List.getElem?_set_ne other]

theorem byteAt_of_getElem? {b : Byte} (get : f[i]? = some b) : f.byteAt i = b := by
  rw [byteAt, getD_eq_getElem?_getD, get, Option.getD_some]

theorem getElem?_of_lt (inside : i < f.length) : f[i]? = some (f.byteAt i) := by
  rw [byteAt, getD_eq_getElem?_getD, List.getElem?_eq_getElem inside, Option.getD_some]

theorem payloadLength_congr (high : g.byteAt 18 = f.byteAt 18) (low : g.byteAt 19 = f.byteAt 19) :
    g.payloadLength = f.payloadLength := by
  have bytes : be16 (g.byteAt 18, g.byteAt 19) = be16 (f.byteAt 18, f.byteAt 19) := by rw [high, low]
  exact bytes

theorem vtf_congr (same : ∀ k, 14 ≤ k → k < 18 → g.byteAt k = f.byteAt k) : g.vtf = f.vtf := by
  have word : wordOfBytes (g.byteAt 14) (g.byteAt 15) (g.byteAt 16) (g.byteAt 17) =
      wordOfBytes (f.byteAt 14) (f.byteAt 15) (f.byteAt 16) (f.byteAt 17) := by
    rw [same 14 (by decide) (by decide), same 15 (by decide) (by decide),
      same 16 (by decide) (by decide), same 17 (by decide) (by decide)]
  exact word

end Parts

/-! ## What is stamped -/

/-- The Ethernet and IPv6 headers of a stamped frame. -/
def stampedHeader (f : Frame) (flowLabel : Word) : Frame := writeFrom
    (writeFrom ((f.take 54).set (ETH_HDR_SIZE + 6) IPV6_NEXTHDR_HBH) (ETH_HDR_SIZE + 4)
      (beHalf (satAdd16 f.payloadLength (ofNat 16 HBH_TOTAL_LEN))))
    ETH_HDR_SIZE (beWord (relabel f.vtf flowLabel))

variable {f : Frame}

theorem moved_headers (room : Headroom) (long : 54 ≤ f.length) :
    copyForward (copyForward (room.1 ++ f) 0 24 14) 14 38 40 = f.take 54 ++ f.drop 30 := by
  have total : (room.1 ++ f).length = 24 + f.length := by rw [length_append, room.2]
  have behind : (room.1 ++ f).drop 24 = f := drop_left' room.2
  have size : (f.take 14).length = 14 := length_take_of_le (by omega)
  have first : copyForward (room.1 ++ f) 0 24 14 = f.take 14 ++ (room.1 ++ f).drop 14 := by
    have fits : (f.take 14).length ≤ (room.1 ++ f).length := by omega
    rw [copyForward_eq _ (by omega) (by omega), behind, writeFrom_front fits, size]
  have reads : ((f.take 14 ++ (room.1 ++ f).drop 14).drop 38).take 40 = (f.drop 14).take 40 := by
    rw [drop_append, drop_eq_nil_of_le (by omega), nil_append, size, drop_drop]
    have split : (room.1 ++ f).drop (14 + (38 - 14)) = f.drop 14 := by
      rw [← behind, drop_drop, behind]
    rw [split]
  have wide : ((f.drop 14).take 40).length = 40 := by
    rw [length_take, length_drop]
    omega
  have rest : ((room.1 ++ f).drop 14).drop 40 = f.drop 30 := by
    rw [drop_drop]
    have split : (room.1 ++ f).drop (24 + 30) = f.drop 30 := by
      rw [← drop_drop, behind]
    exact split
  have joined : f.take 14 ++ (f.drop 14).take 40 = f.take 54 := (take_add (i := 14) (j := 40)).symm
  rw [first, copyForward_eq _ (by omega) (by rw [length_append, length_drop]; omega), reads,
    writeFrom_append_right size (by rw [length_drop]; omega), wide, rest, joined]

theorem length_beHalf (v : BitVec 16) : (beHalf v).length = 2 := rfl

theorem length_beWord (v : Word) : (beWord v).length = 4 := rfl

theorem length_stampedHeader (long : 54 ≤ f.length) (flowLabel : Word) :
    (stampedHeader f flowLabel).length = 54 := by
  rw [stampedHeader, length_writeFrom, length_writeFrom, length_set, length_take_of_le long]

/-- The header fields and the Hop-by-Hop header are written behind the moved headers. -/
theorem writeHeaders_eq (long : 54 ≤ f.length) (flowLabel : Word) (header : HopByHopHeader) :
    writeHeaders (f.take 54 ++ f.drop 30) flowLabel header =
      (.pass, stampedHeader f flowLabel ++ header.toBytes ++ f.drop 54) := by
  have eth : ETH_HDR_SIZE = 14 := rfl
  have front : (f.take 54).length = 54 := length_take_of_le long
  have marked : (f.take 54 ++ f.drop 30).set (ETH_HDR_SIZE + 6) IPV6_NEXTHDR_HBH =
      (f.take 54).set (ETH_HDR_SIZE + 6) IPV6_NEXTHDR_HBH ++ f.drop 30 :=
    set_append_left (ETH_HDR_SIZE + 6) _ (by omega)
  have markedSize : ((f.take 54).set (ETH_HDR_SIZE + 6) IPV6_NEXTHDR_HBH).length = 54 := by
    rw [length_set, front]
  have byte : ∀ k, k < 54 → k ≠ 20 →
      byteAt ((f.take 54).set (ETH_HDR_SIZE + 6) IPV6_NEXTHDR_HBH ++ f.drop 30) k =
        f.byteAt k := by
    intro k inside other
    have apart : ETH_HDR_SIZE + 6 ≠ k := by omega
    rw [byteAt_append_left (by omega), byteAt_set_of_ne apart, byteAt_take inside]
  have plen :=
    payloadLength_congr (byte 18 (by decide) (by decide)) (byte 19 (by decide) (by decide))
  have sized : writeFrom ((f.take 54).set (ETH_HDR_SIZE + 6) IPV6_NEXTHDR_HBH ++ f.drop 30)
      (ETH_HDR_SIZE + 4) (beHalf (satAdd16 f.payloadLength (ofNat 16 HBH_TOTAL_LEN))) =
      writeFrom ((f.take 54).set (ETH_HDR_SIZE + 6) IPV6_NEXTHDR_HBH) (ETH_HDR_SIZE + 4)
        (beHalf (satAdd16 f.payloadLength (ofNat 16 HBH_TOTAL_LEN))) ++ f.drop 30 :=
    writeFrom_append_left (by rw [length_beHalf]; omega)
  have vtf : vtf (writeFrom ((f.take 54).set (ETH_HDR_SIZE + 6) IPV6_NEXTHDR_HBH)
      (ETH_HDR_SIZE + 4) (beHalf (satAdd16 f.payloadLength (ofNat 16 HBH_TOTAL_LEN))) ++
        f.drop 30) = f.vtf := by
    apply vtf_congr
    intro k low high
    have before : k < ETH_HDR_SIZE + 4 := by omega
    rw [← sized, byteAt_writeFrom_of_outside _ (.inl before), byte k (by omega) (by omega)]
  have labelled : writeFrom (writeFrom ((f.take 54).set (ETH_HDR_SIZE + 6) IPV6_NEXTHDR_HBH)
      (ETH_HDR_SIZE + 4) (beHalf (satAdd16 f.payloadLength (ofNat 16 HBH_TOTAL_LEN))) ++
        f.drop 30) ETH_HDR_SIZE (beWord (relabel f.vtf flowLabel)) =
      stampedHeader f flowLabel ++ f.drop 30 :=
    writeFrom_append_left (by rw [length_writeFrom, length_beWord]; omega)
  have size := length_stampedHeader long flowLabel
  have room : header.toBytes.length ≤ (f.drop 30).length := by
    rw [length_toBytes, length_drop]
    unfold HBH_TOTAL_LEN
    omega
  have inserted : writeFrom (stampedHeader f flowLabel ++ f.drop 30) (ETH_HDR_SIZE + IPV6_HDR_SIZE)
      header.toBytes = stampedHeader f flowLabel ++ header.toBytes ++ f.drop 54 := by
    have place : (stampedHeader f flowLabel).length = ETH_HDR_SIZE + IPV6_HDR_SIZE := size
    rw [writeFrom_append_right place room, drop_drop]
    rfl
  have total : (stampedHeader f flowLabel ++ f.drop 30).length = 54 + (f.length - 30) := by
    rw [length_append, size, length_drop]
  have whole : ¬ (stampedHeader f flowLabel ++ f.drop 30).length <
      ETH_HDR_SIZE + IPV6_HDR_SIZE + HBH_TOTAL_LEN := by
    unfold IPV6_HDR_SIZE HBH_TOTAL_LEN
    omega
  unfold writeHeaders
  dsimp only
  rw [marked, plen, sized, vtf, labelled, if_neg whole, writeBytes, length_toBytes,
    if_neg whole, inserted]

/-- A frame that `shield_xdp` stamps. -/
structure Stampable (maps : ShieldMaps) (f : Frame) : Prop where
  ipv6 : f.etherType = ETH_P_IPV6
  long : 54 ≤ f.length
  unblocked : maps.blocklist (srcAddrKey f.src) = none
  fresh : alreadyStamped f = false

/-- What `shield_xdp` makes of such a frame. -/
def stamped (f : Frame) (rand : Word) : Frame := stampedHeader f (rand &&& 0xFFFFF) ++
    (birthHeader (stripExtensionHeaders f) (birthMonad f)).toBytes ++ f.drop 54

theorem shieldXdp_eq {maps : ShieldMaps} (stampable : Stampable maps f) (room : Headroom)
    (rand : Word) : shieldXdp maps (some room) rand f = (.pass, stamped f rand) := by
  obtain ⟨ipv6, long, unblocked, fresh⟩ := stampable
  have total : (room.1 ++ f).length = 24 + f.length := by rw [length_append, room.2]
  have moved : copyForward (copyForward (room.1 ++ f) 0 24 ETH_HDR_SIZE) ETH_HDR_SIZE
      (24 + ETH_HDR_SIZE) IPV6_FIXED_HDR_LEN = f.take 54 ++ f.drop 30 := moved_headers room long
  have eth : ETH_HDR_SIZE = 14 := rfl
  have ip : IPV6_HDR_SIZE = 40 := rfl
  have fixed : IPV6_FIXED_HDR_LEN = 40 := rfl
  have hbh : HBH_TOTAL_LEN = 24 := rfl
  unfold shieldXdp
  rw [if_neg (by omega), if_neg (not_not.mpr ipv6), if_neg (by omega), unblocked,
    Option.isSome_none, if_neg Bool.false_ne_true, fresh, if_neg Bool.false_ne_true]
  dsimp only
  rw [stampFrame, if_neg (by omega), if_neg (by omega), copyBytesForward, if_neg (by omega)]
  dsimp only
  rw [length_copyForward, if_neg (by omega), copyBytesForward, length_copyForward,
    if_neg (by omega)]
  dsimp only
  rw [moved, writeHeaders_eq long, stamped]

/-! ## The stamped frame carries its Monad -/

section Stamped

variable {f : Frame} (long : 54 ≤ f.length) (flowLabel : Word)

theorem byteAt_stampedHeader {k : Nat} (inside : k < 54) (fields : k < 14 ∨ 20 < k) :
    (stampedHeader f flowLabel).byteAt k = f.byteAt k := by
  have eth : ETH_HDR_SIZE = 14 := rfl
  have apart : ETH_HDR_SIZE + 6 ≠ k := by omega
  rw [stampedHeader, byteAt_writeFrom_of_outside _ (by rw [length_beWord]; omega),
    byteAt_writeFrom_of_outside _ (by rw [length_beHalf]; omega), byteAt_set_of_ne apart,
    byteAt_take inside]

include long

theorem nextHeader_stampedHeader : (stampedHeader f flowLabel).byteAt 20 = IPV6_NEXTHDR_HBH := by
  have eth : ETH_HDR_SIZE = 14 := rfl
  have here : 20 < (f.take 54).length := by
    rw [length_take_of_le long]
    decide
  rw [stampedHeader, byteAt_writeFrom_of_outside _ (by rw [length_beWord]; omega),
    byteAt_writeFrom_of_outside _ (by rw [length_beHalf]; omega)]
  exact byteAt_of_getElem? (List.getElem?_set_self here)

theorem payload_stampedHeader : (stampedHeader f flowLabel).payloadLength =
      satAdd16 f.payloadLength (ofNat 16 HBH_TOTAL_LEN) := by
  have eth : ETH_HDR_SIZE = 14 := rfl
  have fits : ETH_HDR_SIZE + 4 +
      (beHalf (satAdd16 f.payloadLength (ofNat 16 HBH_TOTAL_LEN))).length ≤
        ((f.take 54).set (ETH_HDR_SIZE + 6) IPV6_NEXTHDR_HBH).length := by
    rw [length_beHalf, length_set, length_take_of_le long]
    decide
  have byte : ∀ k, k < 2 → ∀ b,
      (beHalf (satAdd16 f.payloadLength (ofNat 16 HBH_TOTAL_LEN)))[k]? = some b →
        (stampedHeader f flowLabel).byteAt (18 + k) = b := by
    intro k small b get
    rw [stampedHeader, byteAt_writeFrom_of_outside _ (by rw [length_beWord]; omega)]
    exact byteAt_of_getElem? ((getElem?_writeFrom _ small fits).trans get)
  have bytes : be16 ((stampedHeader f flowLabel).byteAt 18, (stampedHeader f flowLabel).byteAt 19) =
      satAdd16 f.payloadLength (ofNat 16 HBH_TOTAL_LEN) := by
    rw [byte 0 (by decide) _ rfl, byte 1 (by decide) _ rfl, be16_toBe16]
  exact bytes

end Stamped

section Carried

variable {f : Frame} (long : 54 ≤ f.length) (rand : Word)

include long

theorem length_stamped : (stamped f rand).length = f.length + 24 := by
  rw [stamped, length_append, length_append, length_stampedHeader long,
    length_toBytes, length_drop]
  unfold HBH_TOTAL_LEN
  omega

theorem byteAt_stamped_header {k : Nat} (inside : k < 54) :
    (stamped f rand).byteAt k = (stampedHeader f (rand &&& 0xFFFFF)).byteAt k := by
  have size := length_stampedHeader long (rand &&& 0xFFFFF)
  rw [stamped, List.append_assoc]
  exact byteAt_append_left (by rw [size]; exact inside)

theorem byteAt_stamped_hbh {k : Nat} (inside : k < 24) : (stamped f rand).byteAt (54 + k) =
      byteAt (birthHeader (stripExtensionHeaders f) (birthMonad f)).toBytes k := by
  have size := length_stampedHeader long (rand &&& 0xFFFFF)
  have place : 54 + k - (stampedHeader f (rand &&& 0xFFFFF)).length = k := by
    omega
  rw [stamped, List.append_assoc, byteAt_append_right (by rw [size]; omega), place]
  exact byteAt_append_left inside

theorem drop_stamped : (stamped f rand).drop 78 = f.drop 54 := by
  have size : (stampedHeader f (rand &&& 0xFFFFF) ++
      (birthHeader (stripExtensionHeaders f) (birthMonad f)).toBytes).length = 78 := by
    rw [length_append, length_stampedHeader long]
    rfl
  exact drop_left' size

theorem take_stamped : (stamped f rand).take 54 = stampedHeader f (rand &&& 0xFFFFF) := by
  rw [stamped, List.append_assoc]
  exact take_left' (length_stampedHeader long _)

theorem monad_bytes_stamped :
    ((stamped f rand).drop 58).take MONAD_SIZE = (birthMonad f).recomputeChecksum.toBytes := by
  have size := length_stampedHeader long (rand &&& 0xFFFFF)
  have past : (stamped f rand).drop 58 = (birthMonad f).recomputeChecksum.toBytes ++ f.drop 54 := by
    have split : (58 : Nat) = 54 + 4 := rfl
    rw [stamped, split, ← drop_drop, List.append_assoc, drop_left' size]
    rfl
  rw [past]
  exact take_left' (Monad.length_toBytes _)

theorem carries_stamped (ipv6 : f.etherType = ETH_P_IPV6) : Carries (stamped f rand) 58 := by
  have total := length_stamped long rand
  have byte12 := (byteAt_stamped_header long rand (by decide : 12 < 54)).trans
    (byteAt_stampedHeader (rand &&& 0xFFFFF) (by decide) (.inl (by decide)))
  have byte13 := (byteAt_stamped_header long rand (by decide : 13 < 54)).trans
    (byteAt_stampedHeader (rand &&& 0xFFFFF) (by decide) (.inl (by decide)))
  have proto : (stamped f rand).etherType = f.etherType := by
    unfold etherType
    rw [byte12, byte13]
  have header := (byteAt_stamped_header long rand (by decide : 20 < 54)).trans
      (nextHeader_stampedHeader long (rand &&& 0xFFFFF))
  have ext : (stamped f rand).byteAt (hbhStart + 1) = 2 := byteAt_stamped_hbh long rand (by decide)
  have area : (stamped f rand).hbhTotal = 24 := by
    rw [hbhTotal, ext]
    rfl
  have place : hbhStart = 54 := rfl
  have type : (stamped f rand).byteAt 56 = MONAD_OPT_TYPE :=
    byteAt_stamped_hbh long rand (by decide : 2 < 24)
  have len : (stamped f rand).byteAt 57 = MONAD_OPT_DATA_LEN :=
    byteAt_stamped_hbh long rand (by decide : 3 < 24)
  have inside : hbhStart + (stamped f rand).hbhTotal ≤ (stamped f rand).length := by omega
  exact {
    proto := proto.trans ipv6
    header := header
    room := by
      unfold HBH_TOTAL_LEN
      omega
    area := inside
    front := Nat.le_refl 58
    fits := by
      unfold MONAD_SIZE
      omega
    found := findLoop_monad inside (by omega) ⟨type, len⟩ (by omega) 15 }

theorem monadOf_stamped (ipv6 : f.etherType = ETH_P_IPV6) :
    monadOf (stamped f rand) = some (birthMonad f).recomputeChecksum := by
  rw [(carries_stamped long rand ipv6).monadOf_eq, monad_bytes_stamped long rand,
    Monad.fromBytes_toBytes]

end Carried

/-! ## The death of a packet -/

theorem drop_eq_of_bytes {f g : Frame} {n : Nat} (size : g.length = f.length)
    (bytes : ∀ i, n ≤ i → i < f.length → g.byteAt i = f.byteAt i) : g.drop n = f.drop n := by
  apply ext_getElem?
  intro k
  rw [getElem?_drop, getElem?_drop]
  by_cases inside : n + k < f.length
  · rw [getElem?_of_lt inside, getElem?_of_lt (size ▸ inside), bytes _ (Nat.le_add_right n k) inside]
  · rw [List.getElem?_eq_none (Nat.not_lt.mp inside), List.getElem?_eq_none (by omega)]

theorem drop_restoreHeader (f : Frame) (nh : Byte) : (restoreHeader f nh).drop 21 = f.drop 21 := by
  simp [restoreHeader, writeFrom, beHalf, drop_set, ETH_HDR_SIZE]

theorem shieldTc_frame {g : Frame} (carries : Carries g 58)
    (type : g.byteAt (ETH_HDR_SIZE + IPV6_HDR_SIZE + 2) = MONAD_OPT_TYPE)
    (len : g.byteAt (ETH_HDR_SIZE + IPV6_HDR_SIZE + 3) = MONAD_OPT_DATA_LEN) (maps : ShieldMaps) :
    (shieldTc maps true g).1 = restoreHeader (g.take 54 ++ g.drop 78) (g.byteAt 54) := by
  have fits := carries.fits
  have eth : ETH_HDR_SIZE = 14 := rfl
  have ip : IPV6_HDR_SIZE = 40 := rfl
  have monad : MONAD_SIZE = 20 := rfl
  rw [shieldTc, if_neg (by omega), if_neg (not_not.mpr carries.proto), if_neg (by omega),
    if_neg (not_not.mpr carries.header), if_neg (by omega), if_neg (not_not.mpr type),
    if_neg (by omega), if_neg (not_not.mpr len), if_neg (by omega), Bool.not_true,
    if_neg Bool.false_ne_true]
  rfl

section Death

variable {f : Frame} (long : 54 ≤ f.length) (rand : Word)

/-- The header that `shield_tc` leaves. -/
def restoredHeader (f : Frame) (flowLabel : Word) (nh : Byte) : Frame :=
  restoreHeader (stampedHeader f flowLabel) nh

include long

variable (flowLabel : Word)

theorem length_restoredHeader (nh : Byte) : (restoredHeader f flowLabel nh).length = 54 := by
  rw [restoredHeader, restoreHeader, length_writeFrom, length_set, length_stampedHeader long]

theorem restoreHeader_append (nh : Byte) (payload : Frame) :
    restoreHeader (stampedHeader f flowLabel ++ payload) nh =
      restoredHeader f flowLabel nh ++ payload := by
  have eth : ETH_HDR_SIZE = 14 := rfl
  have size := length_stampedHeader long flowLabel
  have marked : (stampedHeader f flowLabel ++ payload).set (ETH_HDR_SIZE + 6) nh =
      (stampedHeader f flowLabel).set (ETH_HDR_SIZE + 6) nh ++ payload :=
    set_append_left (ETH_HDR_SIZE + 6) nh (by omega)
  have markedSize : ((stampedHeader f flowLabel).set (ETH_HDR_SIZE + 6) nh).length = 54 := by
    rw [length_set, size]
  have plen : payloadLength ((stampedHeader f flowLabel).set (ETH_HDR_SIZE + 6) nh ++ payload) =
      payloadLength ((stampedHeader f flowLabel).set (ETH_HDR_SIZE + 6) nh) :=
    payloadLength_congr (byteAt_append_left (by omega)) (byteAt_append_left (by omega))
  unfold restoreHeader
  dsimp only
  rw [marked, plen]
  exact writeFrom_append_left (by rw [length_beHalf]; omega)

theorem shieldTc_stamped (ipv6 : f.etherType = ETH_P_IPV6) (maps : ShieldMaps) :
    (shieldTc maps true (stamped f rand)).1 =
      restoredHeader f (rand &&& 0xFFFFF) (stripExtensionHeaders f) ++ f.drop 54 := by
  have type := byteAt_stamped_hbh long rand (by decide : 2 < 24)
  have len := byteAt_stamped_hbh long rand (by decide : 3 < 24)
  have next : (stamped f rand).byteAt 54 = stripExtensionHeaders f :=
    byteAt_stamped_hbh long rand (by decide : 0 < 24)
  rw [shieldTc_frame (carries_stamped long rand ipv6) type len, take_stamped long, drop_stamped long,
    next, restoreHeader_append long]

omit long in
theorem byteAt_restoredHeader (nh : Byte) {k : Nat} (inside : k < 54) (fields : k < 14 ∨ 20 < k) :
    (restoredHeader f flowLabel nh).byteAt k = f.byteAt k := by
  have eth : ETH_HDR_SIZE = 14 := rfl
  have apart : ETH_HDR_SIZE + 6 ≠ k := by omega
  unfold restoredHeader restoreHeader
  rw [byteAt_writeFrom_of_outside _ (by rw [length_beHalf]; omega), byteAt_set_of_ne apart,
    byteAt_stampedHeader flowLabel inside fields]

theorem nextHeader_restoredHeader (nh : Byte) : (restoredHeader f flowLabel nh).byteAt 20 = nh := by
  have eth : ETH_HDR_SIZE = 14 := rfl
  have here : ETH_HDR_SIZE + 6 < (stampedHeader f flowLabel).length := by
    rw [length_stampedHeader long]
    omega
  rw [restoredHeader, restoreHeader, byteAt_writeFrom_of_outside _ (by rw [length_beHalf]; omega)]
  exact byteAt_of_getElem? (List.getElem?_set_self here)

omit long in
theorem satSub16_satAdd16 {v : BitVec 16} (small : v.toNat ≤ 65511) :
    satSub16 (satAdd16 v (ofNat 16 HBH_TOTAL_LEN)) (ofNat 16 HBH_TOTAL_LEN) = v := by
  have grown : (ofNat 16 HBH_TOTAL_LEN).toNat = 24 := rfl
  have sum : (v + ofNat 16 HBH_TOTAL_LEN).toNat = v.toNat + 24 := by
    rw [toNat_add]
    omega
  have fits : v.toNat + (ofNat 16 HBH_TOTAL_LEN).toNat < 2 ^ 16 := by
    omega
  have back : (ofNat 16 HBH_TOTAL_LEN).toNat ≤ (v + ofNat 16 HBH_TOTAL_LEN).toNat := by
    omega
  rw [satAdd16, if_pos fits, satSub16, if_pos back, BitVec.add_sub_cancel]

theorem payload_restoredHeader (nh : Byte) (small : f.payloadLength.toNat ≤ 65511) :
    (restoredHeader f flowLabel nh).byteAt 18 = f.byteAt 18 ∧
      (restoredHeader f flowLabel nh).byteAt 19 = f.byteAt 19 := by
  have eth : ETH_HDR_SIZE = 14 := rfl
  have kept : ∀ k, k ≠ 20 → byteAt ((stampedHeader f flowLabel).set (ETH_HDR_SIZE + 6) nh) k =
      (stampedHeader f flowLabel).byteAt k := by
    intro k other
    have apart : ETH_HDR_SIZE + 6 ≠ k := by omega
    exact byteAt_set_of_ne apart nh
  have plen := (payloadLength_congr (kept 18 (by decide)) (kept 19 (by decide))).trans
      (payload_stampedHeader long flowLabel)
  have written : restoredHeader f flowLabel nh =
      writeFrom ((stampedHeader f flowLabel).set (ETH_HDR_SIZE + 6) nh) (ETH_HDR_SIZE + 4)
        (beHalf f.payloadLength) := by
    unfold restoredHeader restoreHeader
    dsimp only
    rw [plen, satSub16_satAdd16 small]
  have original : beHalf f.payloadLength = [f.byteAt 18, f.byteAt 19] := by
    rw [beHalf, payloadLength, toBe16_be16]
    rfl
  have two : [f.byteAt 18, f.byteAt 19].length = 2 := rfl
  have fits : ETH_HDR_SIZE + 4 + [f.byteAt 18, f.byteAt 19].length ≤
      ((stampedHeader f flowLabel).set (ETH_HDR_SIZE + 6) nh).length := by
    rw [length_set, length_stampedHeader long]
    omega
  rw [written, original]
  exact ⟨byteAt_of_getElem? (getElem?_writeFrom (k := 0) _ (by omega) fits),
    byteAt_of_getElem? (getElem?_writeFrom (k := 1) _ (by omega) fits)⟩

omit long in
theorem relabel_high (vtf flowLabel : Word) :
    relabel vtf flowLabel &&& 0xFFF00000 = vtf &&& 0xFFF00000 := by
  have apart : (0xFFFFF : Word) &&& 0xFFF00000 = 0#32 := by decide
  have whole : (0xFFF00000 : Word) &&& 0xFFF00000 = 0xFFF00000 := by decide
  unfold relabel
  rw [and_or_distrib_right, BitVec.and_assoc, BitVec.and_assoc, apart, whole, and_zero, or_zero]

theorem vtf_restoredHeader (nh : Byte) :
    (restoredHeader f flowLabel nh).vtf = relabel f.vtf flowLabel := by
  have eth : ETH_HDR_SIZE = 14 := rfl
  have four := length_beWord (relabel f.vtf flowLabel)
  have byte : ∀ k, k < 4 → ∀ b, (beWord (relabel f.vtf flowLabel))[k]? = some b →
      (restoredHeader f flowLabel nh).byteAt (14 + k) = b := by
    intro k small b get
    have apart : ETH_HDR_SIZE + 6 ≠ 14 + k := by omega
    unfold restoredHeader restoreHeader
    rw [byteAt_writeFrom_of_outside _ (by rw [length_beHalf]; omega), byteAt_set_of_ne apart]
    refine byteAt_of_getElem? ((getElem?_writeFrom _ (by omega) ?_).trans get)
    rw [length_writeFrom, length_set, length_take_of_le long]
    omega
  have word : wordOfBytes ((restoredHeader f flowLabel nh).byteAt 14)
      ((restoredHeader f flowLabel nh).byteAt 15) ((restoredHeader f flowLabel nh).byteAt 16)
      ((restoredHeader f flowLabel nh).byteAt 17) = relabel f.vtf flowLabel := by
    rw [byte 0 (by decide) _ rfl, byte 1 (by decide) _ rfl, byte 2 (by decide) _ rfl,
      byte 3 (by decide) _ rfl, ← word_eq]
  exact word

end Death

/-! ## The round trip -/

variable {f : Frame}

theorem strip_of_not_ext (plain : isExtHdr f.nextHeader = false) :
    stripExtensionHeaders f = f.nextHeader := by
  rw [stripExtensionHeaders, MAX_EXT_HDRS_TO_STRIP, stripLoop, plain, Bool.not_false, if_pos rfl]

theorem fresh_of_not_ext (plain : isExtHdr f.nextHeader = false) : alreadyStamped f = false := by
  have other : (f.nextHeader == IPV6_NEXTHDR_HBH) = false := by
    cases same : f.nextHeader == IPV6_NEXTHDR_HBH with
    | false => rfl
    | true =>
      rw [eq_of_beq same] at plain
      exact absurd plain (by decide)
  rw [alreadyStamped, other, Bool.false_and, Bool.false_and]

theorem getElem?_restored (long : 54 ≤ f.length) (flowLabel : Word)
    (small : f.payloadLength.toNat ≤ 65511) {i : Nat} (outside : i < 14 ∨ 18 ≤ i) :
    (restoredHeader f flowLabel f.nextHeader ++ f.drop 54)[i]? = f[i]? := by
  have size := length_restoredHeader long flowLabel f.nextHeader
  by_cases inside : i < 54
  · have byte : (restoredHeader f flowLabel f.nextHeader).byteAt i = f.byteAt i := by
      by_cases fields : i < 14 ∨ 20 < i
      · exact byteAt_restoredHeader flowLabel f.nextHeader inside fields
      · obtain ⟨high, low⟩ := payload_restoredHeader long flowLabel f.nextHeader small
        have three : i = 18 ∨ i = 19 ∨ i = 20 := by omega
        rcases three with rfl | rfl | rfl
        · exact high
        · exact low
        · exact nextHeader_restoredHeader long flowLabel f.nextHeader
    rw [List.getElem?_append_left (by omega), getElem?_of_lt (by omega), getElem?_of_lt (by omega),
      byte]
  · have place : 54 + (i - 54) = i := by omega
    rw [List.getElem?_append_right (by omega), size, List.getElem?_drop, place]

/-- Birth and death are inverse: the frame comes back but for the twenty bits of its flow label, and
the stamped frame carries a Monad whose checksum verifies. -/
theorem shield_round_trip (birth death : ShieldMaps) (room : Headroom) (rand : Word) (f : Frame)
    (ipv6 : f.etherType = ETH_P_IPV6) (long : 54 ≤ f.length) (plain : isExtHdr f.nextHeader = false)
    (unblocked : birth.blocklist (srcAddrKey f.src) = none)
    (small : f.payloadLength.toNat ≤ 65511) : (shieldXdp birth (some room) rand f).1 = .pass ∧
      (∃ m, monadOf (shieldXdp birth (some room) rand f).2 = some m ∧ m.verifyChecksum = true) ∧
      (shieldTc death true (shieldXdp birth (some room) rand f).2).1.length = f.length ∧
      (∀ i, i < 14 ∨ 18 ≤ i →
        (shieldTc death true (shieldXdp birth (some room) rand f).2).1[i]? = f[i]?) ∧
      (shieldTc death true (shieldXdp birth (some room) rand f).2).1.vtf &&& 0xFFF00000 =
        f.vtf &&& 0xFFF00000 := by
  have stampable : Stampable birth f := ⟨ipv6, long, unblocked, fresh_of_not_ext plain⟩
  have back : (shieldTc death true (stamped f rand)).1 =
      restoredHeader f (rand &&& 0xFFFFF) f.nextHeader ++ f.drop 54 := by
    rw [shieldTc_stamped long rand ipv6, strip_of_not_ext plain]
  have size := length_restoredHeader long (rand &&& 0xFFFFF) f.nextHeader
  rw [shieldXdp_eq stampable room rand]
  rw [back]
  refine ⟨rfl, ⟨_, monadOf_stamped long rand ipv6, Monad.verifyChecksum_recomputeChecksum _⟩, ?_, ?_, ?_⟩
  · rw [length_append, length_drop]
    omega
  · intro i outside
    exact getElem?_restored long _ small outside
  · have word : vtf (restoredHeader f (rand &&& 0xFFFFF) f.nextHeader ++ f.drop 54) =
        (restoredHeader f (rand &&& 0xFFFFF) f.nextHeader).vtf := by
      apply vtf_congr
      intro k _ high
      exact byteAt_append_left (by omega)
    rw [word, vtf_restoredHeader long, relabel_high]

/-- A UDP packet with two bytes of data. -/
theorem shield_round_trip_udp : (shieldTc ⟨fun _ => none, fun _ => none⟩ true
      (shieldXdp ⟨fun _ => none, fun _ => none⟩ (some ⟨List.replicate 24 0, rfl⟩) 0xABCDE
        (List.replicate 12 0 ++ [0x86, 0xDD, 0x60, 0, 0, 0, 0, 10, 17, 64] ++
          List.replicate 32 0 ++ [0, 1, 0, 2, 0, 10, 0, 0, 7, 8])).2).1.length = 64 :=
  (shield_round_trip ⟨fun _ => none, fun _ => none⟩ ⟨fun _ => none, fun _ => none⟩
    ⟨List.replicate 24 0, rfl⟩ 0xABCDE
    (List.replicate 12 0 ++ [0x86, 0xDD, 0x60, 0, 0, 0, 0, 10, 17, 64] ++ List.replicate 32 0 ++
      [0, 1, 0, 2, 0, 10, 0, 0, 7, 8])
    (by decide) (by decide) (by decide) rfl (by decide)).2.2.1

end Unheaded.Net
