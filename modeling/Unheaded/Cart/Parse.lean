import Unheaded.Cart.Reference
import Unheaded.Net.Monad

/-!
# Packet fields

`parse` of `cartridge-ebpf`: the FIELD table and the flow key of a frame. The parser reads the
Monad register at fixed offsets of its own.
-/

namespace Unheaded.Cart

open Mbc Net Function

structure FlowKey where
  src : Fin 16 → Byte
  dst : Fin 16 → Byte
  sport : Half
  dport : Half
  proto : Byte
  l3 : Byte
  slot : Byte
  rsv : Byte

def FlowKey.default : FlowKey := ⟨fun _ => 0, fun _ => 0, 0, 0, 0, 0, 0, 0⟩

/-- The two records that `parse` fills in. -/
structure Headers where
  key : FlowKey
  f : Fields

namespace Headers

def set (h : Headers) (id : Fin 13) (v : Word) : Headers := { h with f := update h.f id v }

end Headers

variable (frame : List Byte)

/-- `byte`: a byte of the frame, `none` past its end. -/
def byte (off : Nat) : Option Byte := frame[off]?

def be16 (off : Nat) : Option Half := do
  let high ← byte frame off
  let low ← byte frame (off + 1)
  some ((high.setWidth 16 <<< 8) ||| low.setWidth 16)

/-- `byte(..).unwrap_or(0) as u32`. -/
def byteWord (off : Nat) : Word := ((byte frame off).getD 0).setWidth 32

/-- The IPv4 branch: the headers, with the protocol and the L4 offset unless the frame is refused. -/
def parseV4 (h : Headers) : Headers × Option (Byte × Nat) :=
  match byte frame 14 with
  | none => (h, none)
  | some vihl =>
    let ihl := (vihl &&& 0x0F).toNat * 4
    if ihl < 20 then (h, none)
    else
      let h := (h.set Field.L3_PROTO 4).set Field.IP_TTL (byteWord frame 22)
      let address (old : Fin 16 → Byte) (off : Nat) : Fin 16 → Byte := fun i =>
        if i.val < 4 then (byte frame (off + i.val)).getD 0 else old i
      let key := { h.key with l3 := 4, src := address h.key.src 26, dst := address h.key.dst 30 }
      ({ h with key := key }, some ((byte frame 23).getD 0, 14 + (ihl &&& 0x3C)))

/-- The Hop-by-Hop header at `off`: is its first option the Monad register? -/
def parseHopByHop (off : Nat) (h : Headers) : Headers × Byte × Nat :=
  let hnh := (byte frame off).getD 59
  let hlen := (((byte frame (off + 1)).getD 0).toNat + 1) * 8
  let h :=
    if byte frame (off + 2) = some MONAD_OPT_TYPE ∧
        byte frame (off + 3) = some MONAD_OPT_DATA_LEN then
      ((h.set Field.MONAD_PRESENT 1).set Field.MONAD_QOS (byteWord frame (off + 4 + 8))).set
        Field.MONAD_FLAGS (byteWord frame (off + 4 + 11))
    else h
  (h, hnh, off + (hlen &&& 0x7F8))

/-- The IPv6 branch. -/
def parseV6 (h : Headers) : Headers × Option (Byte × Nat) :=
  let h := { h with key := { h.key with l3 := 6 } }
  let h := (h.set Field.L3_PROTO 6).set Field.IP_TTL (byteWord frame 21)
  match byte frame 20 with
  | none => (h, none)
  | some nh =>
    let key := { h.key with
      src := fun i => (byte frame (22 + i.val)).getD 0
      dst := fun i => (byte frame (38 + i.val)).getD 0 }
    let h := { h with key := key }
    if nh = 0 then
      let (h, proto, l4) := parseHopByHop frame 54 h
      (h, some (proto, l4))
    else (h, some (nh, 54))

/-- The ports of TCP and UDP, and the TCP flags. -/
def parsePorts (proto : Byte) (l4 : Nat) (h : Headers) : Headers :=
  if proto = 6 ∨ proto = 17 then
    let off := l4 &&& 0x7FF
    let need := if proto = 6 then 14 else 4
    if off + need ≤ frame.length then
      let rd (k : Nat) : Byte := (byte frame (off + k)).getD 0
      let sp : Half := ((rd 0).setWidth 16 <<< 8) ||| (rd 1).setWidth 16
      let dp : Half := ((rd 2).setWidth 16 <<< 8) ||| (rd 3).setWidth 16
      let h := { h with key := { h.key with sport := sp, dport := dp } }
      let h := (h.set Field.SRC_PORT (sp.setWidth 32)).set Field.DST_PORT (dp.setWidth 32)
      if proto = 6 then h.set Field.TCP_FLAGS ((rd 13).setWidth 32) else h
    else h
  else h

/-- `parse`: whether the frame runs the slots, with its key and fields. -/
def parse (h : Headers) : Bool × Headers :=
  let h := h.set Field.PKT_LEN (BitVec.ofNat 32 frame.length)
  let found : Headers × Option (Byte × Nat) :=
    match be16 frame 12 with
    | none => (h, none)
    | some ethertype =>
      if ethertype = 0x0800 then parseV4 frame h
      else if ethertype = 0x86DD then parseV6 frame h
      else (h, none)
  match found with
  | (h, none) => (false, h)
  | (h, some (proto, l4)) =>
    let h := { h with key := { h.key with proto := proto } }
    let h := h.set Field.L4_PROTO (proto.setWidth 32)
    (true, parsePorts frame proto l4 h)

/-- The records as `cart_xdp` zeroes them. -/
def Headers.zeroed : Headers := ⟨FlowKey.default, fun _ => 0⟩

/-- An IPv6 frame whose first Hop-by-Hop option is the register `m`. -/
structure Carries (frame : List Byte) (m : Monad) : Prop where
  ethertype : be16 frame 12 = some 0x86DD
  hopByHop : byte frame 20 = some 0
  optType : byte frame 56 = some MONAD_OPT_TYPE
  optDataLen : byte frame 57 = some MONAD_OPT_DATA_LEN
  register : (frame.drop 58).take MONAD_SIZE = m.toBytes

variable {frame : List Byte}

theorem Carries.register_byte {m : Monad} (carries : Carries frame m) {i : Nat}
    (inside : i < MONAD_SIZE) : byte frame (58 + i) = m.toBytes[i]? := by
  rw [← carries.register, List.getElem?_take_of_lt inside, List.getElem?_drop]
  rfl

theorem Headers.set_other (h : Headers) {id id' : Fin 13} (other : id' ≠ id) (v : Word) :
    (h.set id v).f id' = h.f id' :=
  update_of_ne other _ _

theorem parsePorts_monad (frame : List Byte) (proto : Byte) (l4 : Nat) (h : Headers) {id : Fin 13}
    (monad : id = Field.MONAD_QOS ∨ id = Field.MONAD_FLAGS) :
    (parsePorts frame proto l4 h).f id = h.f id := by
  have source : id ≠ Field.SRC_PORT := by
    rcases monad with rfl | rfl <;> decide
  have destination : id ≠ Field.DST_PORT := by
    rcases monad with rfl | rfl <;> decide
  have tcp : id ≠ Field.TCP_FLAGS := by
    rcases monad with rfl | rfl <;> decide
  unfold parsePorts
  dsimp only
  split_ifs
  · rw [Headers.set_other _ tcp, Headers.set_other _ destination, Headers.set_other _ source]
  · rfl
  · rw [Headers.set_other _ destination, Headers.set_other _ source]
  · rfl
  · rfl

theorem parseV6_hopByHop (hopByHop : byte frame 20 = some 0) (h : Headers) : ∃ h', parseV6 frame h =
      ((parseHopByHop frame 54 h').1, some (parseHopByHop frame 54 h').2) := by
  rw [parseV6, hopByHop]
  exact ⟨_, rfl⟩

theorem parse_monad {m : Monad} (carries : Carries frame m) (h : Headers) :
    (parse frame h).2.f Field.MONAD_QOS = m.latencyHint.1.setWidth 32 ∧
      (parse frame h).2.f Field.MONAD_FLAGS = m.meshFlags.setWidth 32 := by
  obtain ⟨h', branch⟩ := parseV6_hopByHop carries.hopByHop
    (h.set Field.PKT_LEN (BitVec.ofNat 32 frame.length))
  have eighth : byteWord frame (54 + 4 + 8) = m.latencyHint.1.setWidth 32 := by
    rw [byteWord, carries.register_byte (by decide : 8 < MONAD_SIZE)]
    rfl
  have eleventh : byteWord frame (54 + 4 + 11) = m.meshFlags.setWidth 32 := by
    rw [byteWord, carries.register_byte (by decide : 11 < MONAD_SIZE)]
    rfl
  have option : byte frame (54 + 2) = some MONAD_OPT_TYPE ∧
      byte frame (54 + 3) = some MONAD_OPT_DATA_LEN := ⟨carries.optType, carries.optDataLen⟩
  rw [parse, carries.ethertype]
  dsimp only
  rw [if_neg (by decide), if_pos rfl, branch]
  rw [parsePorts_monad _ _ _ _ (.inl rfl), parsePorts_monad _ _ _ _ (.inr rfl),
    Headers.set_other _ (by decide), Headers.set_other _ (by decide), parseHopByHop]
  rw [if_pos option]
  exact ⟨eighth, eleventh⟩

theorem setWidth_byte_inj {a b : Byte} : a.setWidth 32 = (b.setWidth 32 : Word) ↔ a = b := by
  constructor
  · intro same
    have back := congrArg (BitVec.setWidth 8) same
    simpa using back
  · rintro rfl
    rfl

/-- The parser reports the QoS class and the flags of the register exactly when the bytes it
reads for them, the latency hint's first and the mesh flags, happen to equal them. -/
theorem parse_monad_fields_iff {frame : List Byte} {m : Monad} (carries : Carries frame m) :
    ((parse frame Headers.zeroed).2.f Field.MONAD_QOS =
          (Monad.fromBytes ((frame.drop 58).take MONAD_SIZE)).qosClass.setWidth 32 ∧
        (parse frame Headers.zeroed).2.f Field.MONAD_FLAGS =
          (Monad.fromBytes ((frame.drop 58).take MONAD_SIZE)).flags.setWidth 32) ↔
      m.latencyHint.1 = m.qosClass ∧ m.meshFlags = m.flags := by
  obtain ⟨qos, flags⟩ := parse_monad carries Headers.zeroed
  rw [qos, flags, carries.register, Monad.fromBytes_toBytes, setWidth_byte_inj, setWidth_byte_inj]

/-- An Ethernet and IPv6 header with a Hop-by-Hop header that holds `m`. -/
def monadFrame (m : Monad) : List Byte :=
  List.replicate 12 0 ++ [0x86, 0xDD] ++ List.replicate 6 0 ++ [0] ++ List.replicate 33 0 ++
    (HopByHopHeader.mk 59 HBH_HDR_EXT_LEN MONAD_OPT_TYPE MONAD_OPT_DATA_LEN m).toBytes

theorem monadFrame_carries (m : Monad) : Carries (monadFrame m) m where
  ethertype := rfl
  hopByHop := rfl
  optType := rfl
  optDataLen := rfl
  register := rfl

theorem equal_bytes_fields :
    let m := Monad.fromBytes (List.replicate 24 5)
    (parse (monadFrame m) Headers.zeroed).2.f Field.MONAD_QOS = 5 ∧
      (parse (monadFrame m) Headers.zeroed).2.f Field.MONAD_FLAGS = 5 :=
  (parse_monad_fields_iff (monadFrame_carries _)).mpr ⟨rfl, rfl⟩

/-- QoS class 5 and flags 1 are read as 0. -/
theorem qos_five_flags_one_lost :
    let m := { Monad.fromBytes [] with qosClass := 5, flags := 1 }
    Carries (monadFrame m) m ∧ ¬ ((parse (monadFrame m) Headers.zeroed).2.f Field.MONAD_QOS =
            (Monad.fromBytes (((monadFrame m).drop 58).take MONAD_SIZE)).qosClass.setWidth 32 ∧
          (parse (monadFrame m) Headers.zeroed).2.f Field.MONAD_FLAGS =
            (Monad.fromBytes (((monadFrame m).drop 58).take MONAD_SIZE)).flags.setWidth 32) := by
  refine ⟨monadFrame_carries _, ?_⟩
  rintro ⟨qos, -⟩
  exact absurd qos (by decide)

end Unheaded.Cart
