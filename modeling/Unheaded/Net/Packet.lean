import Unheaded.Lib.Buffer
import Unheaded.Lib.Bytes
import Unheaded.Net.MonadOption

/-!
# The Monad of a packet

The parse that the XDP programs of the Kingdom share (`hop-ebpf`, `canary-ebpf`, `version-ebpf`,
`firewall-ebpf`): Ethernet, the fixed IPv6 header, the Hop-by-Hop header and the Monad option in
it.
-/

namespace Unheaded.Net

open Mbc Lib

abbrev Frame := List Byte

/-- `xdp_action`, of the values the programs return. -/
inductive XdpAction where
  | drop | pass | tx
  deriving DecidableEq, Repr

def ETH_HLEN : Nat := 14
def ETH_P_IPV6 : BitVec 16 := 0x86DD

/-- `u32::saturating_add`. -/
def satAdd32 (a b : Word) : Word := if a.toNat + b.toNat < 2 ^ 32 then a + b else 0xFFFFFFFF

/-- `u64::saturating_add`. -/
def satAdd64 (a b : BitVec 64) : BitVec 64 :=
  if a.toNat + b.toNat < 2 ^ 64 then a + b else 0xFFFFFFFFFFFFFFFF

variable (f : Frame)

def Frame.byteAt (i : Nat) : Byte := f.getD i 0

/-- `u16::from_be(eth.proto)`. -/
def Frame.etherType : BitVec 16 := be16 (f.byteAt 12, f.byteAt 13)

def Frame.nextHeader : Byte := f.byteAt (ETH_HLEN + 6)

def Frame.src : List Byte := (f.drop (ETH_HLEN + 8)).take 16

def Frame.dst : List Byte := (f.drop (ETH_HLEN + 24)).take 16

/-- `u32::from_be(ip.vtf)`. -/
def Frame.vtf : Word :=
  wordOfBytes (f.byteAt ETH_HLEN) (f.byteAt (ETH_HLEN + 1)) (f.byteAt (ETH_HLEN + 2))
    (f.byteAt (ETH_HLEN + 3))

/-- The low 20 bits of `vtf`. -/
def Frame.flowLabel : Word := f.vtf &&& 0x000FFFFF

def hbhStart : Nat := ETH_HLEN + IPV6_FIXED_HDR_LEN

def Frame.hbhTotal : Nat := ((f.byteAt (hbhStart + 1)).toNat + 1) * 8

/-- The programs' steps up to `monad_data_off`; `none` is any of the returns of `XDP_PASS` on the
way, the `Err(())` of the option search among them. -/
def locateMonad : Option Nat :=
  if f.length < ETH_HLEN then none
  else if f.etherType ≠ ETH_P_IPV6 then none
  else if f.length < ETH_HLEN + IPV6_FIXED_HDR_LEN then none
  else if f.nextHeader ≠ IPV6_NEXTHDR_HBH then none
  else if f.length < hbhStart + HBH_TOTAL_LEN then none
  else if f.length < hbhStart + f.hbhTotal then none
  else
    match (findMonadOption f.byteAt (hbhStart + 2) (hbhStart + f.hbhTotal) f.length).1 with
    | none => none
    | some monadOptOff =>
      if f.length < monadOptOff + 2 + MONAD_SIZE then none else some (monadOptOff + 2)

def readMonadFromPkt (start : Nat) : Option Monad :=
  if f.length < start + MONAD_SIZE then none
  else some (Monad.fromBytes ((f.drop start).take MONAD_SIZE))

def writeMonadToPkt (start : Nat) (m : Monad) : Option Frame :=
  if f.length < start + MONAD_SIZE then none
  else some (writeFrom f start m.toBytes)

def monadOf : Option Monad := (locateMonad f).bind (readMonadFromPkt f)

/-- The parse reaches the Monad option data at `off`. -/
structure Carries (f : Frame) (off : Nat) : Prop where
  proto : f.etherType = ETH_P_IPV6
  header : f.nextHeader = IPV6_NEXTHDR_HBH
  room : hbhStart + HBH_TOTAL_LEN ≤ f.length
  area : hbhStart + f.hbhTotal ≤ f.length
  front : hbhStart + 4 ≤ off
  fits : off + MONAD_SIZE ≤ f.length
  found : (findMonadOption f.byteAt (hbhStart + 2) (hbhStart + f.hbhTotal) f.length).1 =
    some (off - 2)

variable {f : Frame} {off : Nat}

theorem locateMonad_eq_some : locateMonad f = some off ↔ Carries f off := by
  constructor
  · intro located
    unfold locateMonad at located
    split at located
    next => cases located
    next =>
    split at located
    next => cases located
    next proto =>
    split at located
    next => cases located
    next =>
    split at located
    next => cases located
    next header =>
    split at located
    next => cases located
    next room =>
    split at located
    next => cases located
    next area =>
    have area := Nat.le_of_not_lt area
    cases found : (findMonadOption f.byteAt (hbhStart + 2) (hbhStart + f.hbhTotal) f.length).1 with
    | none =>
      simp [found] at located
    | some k =>
      rw [found] at located
      dsimp only at located
      split at located
      next => cases located
      next fits =>
      cases located
      obtain ⟨m, fewer, skims, _⟩ := skims_of_found area found
      have order := skims.le
      exact {
        proto := not_not.mp proto
        header := not_not.mp header
        room := Nat.le_of_not_lt room
        area := area
        front := by omega
        fits := Nat.le_of_not_lt fits
        found := found }
  · intro carries
    have room := carries.room
    have front := carries.front
    have back : off - 2 + 2 = off := by omega
    unfold locateMonad
    rw [if_neg (by unfold hbhStart at room; omega), if_neg (not_not.mpr carries.proto),
      if_neg (by unfold hbhStart at room; omega), if_neg (not_not.mpr carries.header),
      if_neg (Nat.not_lt.mpr room), if_neg (Nat.not_lt.mpr carries.area), carries.found]
    dsimp only
    rw [back, if_neg (Nat.not_lt.mpr carries.fits)]

def SameUpTo (off : Nat) (f g : Frame) : Prop :=
  g.length = f.length ∧ ∀ i, 12 ≤ i → i < off → g.byteAt i = f.byteAt i

theorem Skims.congr {mem mem' : Nat → Byte} {n offset last : Nat} (skims : Skims mem n offset last)
    (same : ∀ a, offset ≤ a → a < last → mem' a = mem a) : Skims mem' n offset last := by
  induction skims with
  | done offset => exact .done offset
  | @single n offset last one rest ih =>
    have order := rest.le
    have here : mem' offset = mem offset := same offset (Nat.le_refl offset) (by omega)
    exact .single (here.trans one) (ih (fun a low high => same a (by omega) high))
  | @option n offset last notEnd notOne other rest ih =>
    have order := rest.le
    have type : mem' offset = mem offset := same offset (Nat.le_refl offset) (by omega)
    have len : mem' (offset + 1) = mem (offset + 1) := same (offset + 1) (by omega) (by omega)
    have other' : ¬ MonadAt mem' offset := by
      unfold MonadAt at other ⊢
      rw [type, len]
      exact other
    refine .option (by rw [type]; exact notEnd) (by rw [type]; exact notOne) other' ?_
    rw [len]
    exact ih (fun a low high => same a (by omega) high)

theorem Carries.of_same {g : Frame} (carries : Carries f off) (same : SameUpTo off f g) :
    Carries g off := by
  obtain ⟨length, bytes⟩ := same
  have front := carries.front
  have place : hbhStart = 54 := rfl
  have proto : g.etherType = f.etherType := by
    unfold Frame.etherType
    rw [bytes 12 (by omega) (by omega), bytes 13 (by omega) (by omega)]
  have header : g.nextHeader = f.nextHeader := bytes (ETH_HLEN + 6) (by decide) (by
    unfold ETH_HLEN
    omega)
  have total : g.hbhTotal = f.hbhTotal := by
    unfold Frame.hbhTotal
    rw [bytes (hbhStart + 1) (by decide) (by omega)]
  have inside : hbhStart + f.hbhTotal ≤ f.length := carries.area
  obtain ⟨m, fewer, skims, monad, here, fits⟩ := skims_of_found inside carries.found
  have skims' : Skims g.byteAt m (hbhStart + 2) (off - 2) :=
    skims.congr (fun a low high => bytes a (by omega) (by omega))
  have monad' : MonadAt g.byteAt (off - 2) := by
    constructor
    · exact (bytes (off - 2) (by omega) (by omega)).trans monad.1
    · exact (bytes (off - 2 + 1) (by omega) (by omega)).trans monad.2
  have found : (findMonadOption g.byteAt (hbhStart + 2) (hbhStart + g.hbhTotal) g.length).1 =
      some (off - 2) := by
    obtain ⟨rest, split⟩ : ∃ rest, 16 = m + (rest + 1) := ⟨15 - m, by omega⟩
    rw [length, total, findMonadOption, split, (findLoop_skims inside skims' here (rest + 1)).1]
    exact findLoop_monad inside here monad' fits rest
  exact {
    proto := proto.trans carries.proto
    header := header.trans carries.header
    room := by rw [length]; exact carries.room
    area := by rw [length, total]; exact carries.area
    front := front
    fits := by rw [length]; exact carries.fits
    found := found }

theorem readMonadFromPkt_of_fits (fits : off + MONAD_SIZE ≤ f.length) :
    readMonadFromPkt f off = some (Monad.fromBytes ((f.drop off).take MONAD_SIZE)) :=
  if_neg (Nat.not_lt.mpr fits)

theorem writeMonadToPkt_of_fits (fits : off + MONAD_SIZE ≤ f.length) (m : Monad) :
    writeMonadToPkt f off m = some (writeFrom f off m.toBytes) :=
  if_neg (Nat.not_lt.mpr fits)

theorem Carries.monadOf_eq (carries : Carries f off) :
    monadOf f = some (Monad.fromBytes ((f.drop off).take MONAD_SIZE)) := by
  rw [monadOf, locateMonad_eq_some.mpr carries]
  exact readMonadFromPkt_of_fits carries.fits

theorem monadOf_eq_some {m : Monad} (monad : monadOf f = some m) :
    ∃ off, Carries f off ∧ locateMonad f = some off ∧ readMonadFromPkt f off = some m := by
  obtain ⟨off, located, read⟩ := Option.bind_eq_some_iff.mp monad
  exact ⟨off, locateMonad_eq_some.mp located, located, read⟩

theorem Carries.reads {m : Monad} (carries : Carries f off) (monad : monadOf f = some m) :
    readMonadFromPkt f off = some m := by
  rwa [monadOf, locateMonad_eq_some.mpr carries] at monad

variable {xs : List Byte}

theorem byteAt_writeFrom_of_outside (f : Frame) {i : Nat} (outside : i < off ∨ off + xs.length ≤ i) :
    Frame.byteAt (writeFrom f off xs) i = f.byteAt i := by
  unfold Frame.byteAt
  rw [List.getD_eq_getElem?_getD, List.getD_eq_getElem?_getD,
    getElem?_writeFrom_of_outside f outside]

theorem drop_take_writeFrom (f : Frame) (fits : off + xs.length ≤ f.length) :
    ((writeFrom f off xs).drop off).take xs.length = xs := by
  apply List.ext_getElem?
  intro k
  by_cases inside : k < xs.length
  · rw [List.getElem?_take_of_lt inside, List.getElem?_drop, getElem?_writeFrom f inside fits]
  · have past := Nat.le_of_not_lt inside
    rw [List.getElem?_eq_none past, List.getElem?_eq_none]
    rw [List.length_take]
    omega

theorem Carries.write (carries : Carries f off) (m : Monad) :
    Carries (writeFrom f off m.toBytes) off ∧ monadOf (writeFrom f off m.toBytes) = some m := by
  have same : SameUpTo off f (writeFrom f off m.toBytes) := ⟨length_writeFrom f off m.toBytes,
      fun i _ before => byteAt_writeFrom_of_outside f (.inl before)⟩
  have kept := carries.of_same same
  have back : ((writeFrom f off m.toBytes).drop off).take m.toBytes.length = m.toBytes :=
    drop_take_writeFrom f carries.fits
  refine ⟨kept, ?_⟩
  rw [kept.monadOf_eq]
  exact congrArg (fun b => some (Monad.fromBytes b)) back

def frameOf (m : Monad) : Frame :=
  List.replicate 12 0 ++ [0x86, 0xDD] ++ [0x60, 0, 0, 0, 0, 24, 0, 64] ++ List.replicate 32 0 ++
    { HopByHopHeader.new 59 with monad := m }.toBytes

theorem carries_frameOf (m : Monad) : Carries (frameOf m) 58 where
  proto := show be16 (0x86, 0xDD) = ETH_P_IPV6 by decide
  header := rfl
  room := Nat.le_refl 78
  area := Nat.le_refl 78
  front := Nat.le_refl 58
  fits := Nat.le_refl 78
  found := findLoop_monad (Nat.le_refl 78) (by decide) ⟨rfl, rfl⟩ (Nat.le_refl 78) 15

theorem monadOf_frameOf (m : Monad) : monadOf (frameOf m) = some m := (carries_frameOf m).monadOf_eq

end Unheaded.Net
