import Unheaded.Net.Shield

/-!
# The header chain of a stamped frame

Following the next-header fields of an IPv6 frame as RFC 8200 has it, in the original frame and in
the one that `shield_xdp` makes of it.
-/

namespace Unheaded.Net

open Mbc Lib List

def extSize (nh len : Byte) : Nat :=
  if nh = 44 then 8 else if nh = 51 then (len.toNat + 2) * 4 else (len.toNat + 1) * 8

/-- Following `count` extension headers from number `nh` at `off` reaches the transport protocol
`proto` at `pos`, inside of the frame. -/
inductive Chain (f : Frame) : Byte → Nat → Nat → Byte → Nat → Prop where
  | transport {nh : Byte} {off : Nat} (plain : isExtHdr nh = false) (inside : off ≤ f.length) :
      Chain f nh off 0 nh off
  | ext {nh proto : Byte} {off count pos : Nat} (extension : isExtHdr nh = true)
      (inside : off + extSize nh (f.byteAt (off + 1)) ≤ f.length)
      (rest : Chain f (f.byteAt off) (off + extSize nh (f.byteAt (off + 1))) count proto pos) :
      Chain f nh off (count + 1) proto pos

/-- From the fixed header, the chain of the frame reaches `proto` at these bytes. -/
def Frame.Reaches (f : Frame) (proto : Byte) (bytes : List Byte) : Prop :=
  ∃ count pos, Chain f f.nextHeader hbhStart count proto pos ∧ f.drop pos = bytes

theorem eight_le_extSize (nh len : Byte) : 8 ≤ extSize nh len := by
  unfold extSize
  split
  · exact Nat.le_refl 8
  · split <;> omega

namespace Chain

variable {f g : Frame} {nh nh' proto proto' : Byte} {off count count' pos pos' : Nat}

section

variable (chain : Chain f nh off count proto pos)
include chain

theorem le_length : pos ≤ f.length := by
  induction chain with
  | transport _ inside => exact inside
  | ext _ _ _ ih => exact ih

theorem le_pos : off ≤ pos := by
  induction chain with
  | transport _ _ => exact Nat.le_refl _
  | ext _ _ _ ih => exact Nat.le_trans (Nat.le_add_right _ _) ih

theorem plain : isExtHdr proto = false := by
  induction chain with
  | transport plain _ => exact plain
  | ext _ _ _ ih => exact ih

end

theorem of_plain (plain : isExtHdr nh = false) (chain : Chain f nh off count proto pos) :
    count = 0 ∧ proto = nh ∧ pos = off := by
  cases chain with
  | transport _ _ => exact ⟨rfl, rfl, rfl⟩
  | ext extension _ _ => rw [plain] at extension; exact absurd extension Bool.false_ne_true

theorem of_succ (chain : Chain f nh off (count + 1) proto pos) :
    isExtHdr nh = true ∧ off + extSize nh (f.byteAt (off + 1)) ≤ f.length ∧
      Chain f (f.byteAt off) (off + extSize nh (f.byteAt (off + 1))) count proto pos := by
  cases chain with
  | ext extension inside rest => exact ⟨extension, inside, rest⟩

theorem of_zero (chain : Chain f nh off 0 proto pos) :
    isExtHdr nh = false ∧ proto = nh ∧ pos = off := by
  cases chain with
  | transport plain _ => exact ⟨plain, rfl, rfl⟩

theorem of_ext (extension : isExtHdr nh = true) (chain : Chain f nh off count proto pos) :
    ∃ rest, count = rest + 1 ∧ off + extSize nh (f.byteAt (off + 1)) ≤ f.length ∧
      Chain f (f.byteAt off) (off + extSize nh (f.byteAt (off + 1))) rest proto pos := by
  cases chain with
  | transport plain _ => rw [plain] at extension; exact absurd extension Bool.false_ne_true
  | ext _ inside rest => exact ⟨_, rfl, inside, rest⟩

end Chain

section Moved

variable {f g : Frame} {b d : Nat} (tail : g.drop (b + d) = f.drop b)
  (size : g.length = f.length + d)

include tail

theorem byteAt_moved {i : Nat} (behind : b ≤ i) : g.byteAt (i + d) = f.byteAt i := by
  have here : g[i + d]? = f[i]? := by
    have left : (g.drop (b + d))[i - b]? = g[i + d]? := by
      rw [List.getElem?_drop]
      congr 1
      omega
    have right : (f.drop b)[i - b]? = f[i]? := by
      rw [List.getElem?_drop]
      congr 1
      omega
    rw [← left, tail, right]
  unfold Frame.byteAt
  rw [getD_eq_getElem?_getD, getD_eq_getElem?_getD, here]

include size

theorem Chain.move {nh proto : Byte} {off count pos : Nat} (behind : b ≤ off)
    (chain : Chain f nh off count proto pos) : Chain g nh (off + d) count proto (pos + d) := by
  induction chain with
  | transport plain inside => exact .transport plain (by omega)
  | @ext nh proto off count pos extension inside rest ih =>
    have next : g.byteAt (off + d) = f.byteAt off := byteAt_moved tail behind
    have len : g.byteAt (off + d + 1) = f.byteAt (off + 1) := by
      rw [Nat.add_right_comm, byteAt_moved tail (by omega)]
    have place : off + d + extSize nh (f.byteAt (off + 1)) =
        off + extSize nh (f.byteAt (off + 1)) + d := Nat.add_right_comm _ _ _
    refine .ext extension (by rw [len]; omega) ?_
    rw [next, len, place]
    exact ih (by omega)

theorem Chain.unmove {nh proto : Byte} {off off' count pos' : Nat} (behind : b ≤ off)
    (place : off' = off + d) (chain : Chain g nh off' count proto pos') :
    ∃ pos, pos' = pos + d ∧ Chain f nh off count proto pos := by
  induction chain generalizing off with
  | transport plain inside => exact ⟨off, place, .transport plain (by omega)⟩
  | @ext nh proto off' count pos' extension inside rest ih =>
    subst place
    have next : g.byteAt (off + d) = f.byteAt off := byteAt_moved tail behind
    have len : g.byteAt (off + d + 1) = f.byteAt (off + 1) := by
      rw [Nat.add_right_comm, byteAt_moved tail (by omega)]
    rw [len] at inside ih
    rw [next] at ih
    have place : off + d + extSize nh (f.byteAt (off + 1)) =
        off + extSize nh (f.byteAt (off + 1)) + d := Nat.add_right_comm _ _ _
    obtain ⟨pos, ended, chain⟩ := ih (by omega) place
    exact ⟨pos, ended, .ext extension (by omega) chain⟩

end Moved

section Inserted

variable {f : Frame} (long : 54 ≤ f.length) (rand : Word)

include long

theorem reaches_stamped {proto : Byte} {pos : Nat} (inside : pos ≤ f.length) :
    (stamped f rand).Reaches proto (f.drop pos) ↔
      ∃ count, Chain f (stripExtensionHeaders f) hbhStart count proto pos := by
  have total := length_stamped long rand
  have tail : (stamped f rand).drop (hbhStart + 24) = f.drop hbhStart := drop_stamped long rand
  have header : (stamped f rand).nextHeader = IPV6_NEXTHDR_HBH :=
    (byteAt_stamped_header long rand (by decide : 20 < 54)).trans
      (nextHeader_stampedHeader long (rand &&& 0xFFFFF))
  have next : (stamped f rand).byteAt hbhStart = stripExtensionHeaders f :=
    byteAt_stamped_hbh long rand (by decide : 0 < 24)
  have len : (stamped f rand).byteAt (hbhStart + 1) = 2 :=
    byteAt_stamped_hbh long rand (by decide : 1 < 24)
  have place : hbhStart = 54 := rfl
  have extension : isExtHdr IPV6_NEXTHDR_HBH = true := by decide
  have size : extSize IPV6_NEXTHDR_HBH ((stamped f rand).byteAt (hbhStart + 1)) = 24 := by
    rw [len]
    decide
  constructor
  · rintro ⟨count, pos', chain, bytes⟩
    rw [header] at chain
    obtain ⟨rest, -, -, behind⟩ := chain.of_ext extension
    rw [size, next] at behind
    obtain ⟨pos'', rfl, original⟩ := behind.unmove tail total (Nat.le_refl hbhStart) rfl
    have lengths : (f.drop pos'').length = (f.drop pos).length := by
      rw [← bytes, length_drop, length_drop]
      omega
    rw [length_drop, length_drop] at lengths
    have reached := original.le_length
    have same : pos'' = pos := by omega
    exact ⟨rest, same ▸ original⟩
  · rintro ⟨count, chain⟩
    have moved := chain.move tail total (Nat.le_refl hbhStart)
    have bytes : (stamped f rand).drop (pos + 24) = f.drop pos := by
      have split : pos + 24 = hbhStart + 24 + (pos - hbhStart) := by
        have := chain.le_pos
        omega
      have split' : pos = hbhStart + (pos - hbhStart) := by
        omega
      rw [split, ← drop_drop, tail, drop_drop, ← split']
    refine ⟨count + 1, pos + 24, ?_, bytes⟩
    rw [header]
    refine .ext extension (by rw [size]; omega) ?_
    rw [size, next]
    exact moved

end Inserted

def guessedEnd (f : Frame) : Nat := hbhStart + ((f.byteAt (hbhStart + 1)).toNat + 1) * 8

def guessedNumber (f : Frame) : Byte :=
  if f.length < guessedEnd f + 2 then f.byteAt hbhStart else f.byteAt (guessedEnd f)

def Misread (f : Frame) : Prop :=
  (f.nextHeader = 44 ∨ f.nextHeader = 51) ∧ f.byteAt (hbhStart + 1) ≠ 0

theorem misread_iff {f : Frame} :
    Misread f ↔ guessedEnd f ≠ hbhStart + extSize f.nextHeader (f.byteAt (hbhStart + 1)) := by
  have zero : f.byteAt (hbhStart + 1) ≠ 0 ↔ (f.byteAt (hbhStart + 1)).toNat ≠ 0 := by
    rw [Ne, ← BitVec.toNat_inj]
    rfl
  rw [Misread, guessedEnd, extSize, zero]
  by_cases fragment : f.nextHeader = 44
  · rw [if_pos fragment]
    constructor
    · rintro ⟨-, len⟩
      omega
    · intro apart
      exact ⟨.inl fragment, by omega⟩
  · rw [if_neg fragment]
    by_cases authentication : f.nextHeader = 51
    · rw [if_pos authentication]
      constructor
      · rintro ⟨-, len⟩
        omega
      · intro apart
        exact ⟨.inr authentication, by omega⟩
    · rw [if_neg authentication]
      constructor
      · rintro ⟨kind, -⟩
        exact absurd kind (not_or.mpr ⟨fragment, authentication⟩)
      · intro apart
        exact absurd rfl apart

section Walk

variable {f : Frame} {proto : Byte} {pos count : Nat}

theorem strip_of_ext (extension : isExtHdr f.nextHeader = true) (inside : hbhStart + 2 ≤ f.length) :
    stripExtensionHeaders f = stripLoop f 1 (f.byteAt hbhStart) (guessedEnd f) := by
  have place : ETH_HDR_SIZE + IPV6_HDR_SIZE = hbhStart := rfl
  unfold stripExtensionHeaders MAX_EXT_HDRS_TO_STRIP
  rw [stripLoop, extension, place, if_neg (Nat.not_lt.mpr inside)]
  rfl

theorem strip_of_one (chain : Chain f f.nextHeader hbhStart 1 proto pos) :
    stripExtensionHeaders f = proto := by
  obtain ⟨extension, inside, rest⟩ := chain.of_succ
  obtain ⟨plain, named, -⟩ := rest.of_zero
  have wide := eight_le_extSize f.nextHeader (f.byteAt (hbhStart + 1))
  rw [strip_of_ext extension (by omega), stripLoop, plain, Bool.not_false, if_pos rfl, named]

theorem strip_of_two (chain : Chain f f.nextHeader hbhStart 2 proto pos) :
    stripExtensionHeaders f = guessedNumber f := by
  obtain ⟨extension, inside, rest⟩ := chain.of_succ
  obtain ⟨second, -, -⟩ := rest.of_succ
  have wide := eight_le_extSize f.nextHeader (f.byteAt (hbhStart + 1))
  rw [strip_of_ext extension (by omega), stripLoop, second]
  rfl

theorem guessedNumber_of_not_misread (right : ¬ Misread f)
    (chain : Chain f f.nextHeader hbhStart 2 proto pos) : guessedNumber f = proto := by
  obtain ⟨-, -, rest⟩ := chain.of_succ
  obtain ⟨-, inside, last⟩ := rest.of_succ
  obtain ⟨-, named, -⟩ := last.of_zero
  rw [misread_iff, not_not] at right
  rw [← right] at inside named
  have wide := eight_le_extSize (f.byteAt hbhStart) (f.byteAt (guessedEnd f + 1))
  rw [guessedNumber, if_neg (by omega), named]

theorem not_chain_of_passed (chain : Chain f f.nextHeader hbhStart (count + 1) proto pos) :
    ¬ ∃ n, Chain f proto hbhStart n proto pos := by
  rintro ⟨n, direct⟩
  obtain ⟨-, -, rest⟩ := chain.of_succ
  have behind := rest.le_pos
  have wide := eight_le_extSize f.nextHeader (f.byteAt (hbhStart + 1))
  have here := (direct.of_plain chain.plain).2.2
  omega

end Walk

/-- The stamped frame leads to the transport header of the original frame exactly when there is no
extension header, or when the walk misreads the first of two headers and the number that it hits
upon happens to lead there. -/
theorem stamped_chain_iff (maps : ShieldMaps) (room : Headroom) (rand : Word) (f : Frame)
    (stampable : Stampable maps f) {count pos : Nat} {proto : Byte} (short : count ≤ 2)
    (chain : Chain f f.nextHeader hbhStart count proto pos) :
    (shieldXdp maps (some room) rand f).2.Reaches proto (f.drop pos) ↔ count = 0 ∨
        (count = 2 ∧ Misread f ∧ ∃ n, Chain f (guessedNumber f) hbhStart n proto pos) := by
  rw [shieldXdp_eq stampable room rand, reaches_stamped stampable.long rand chain.le_length]
  have cases : count = 0 ∨ count = 1 ∨ count = 2 := by omega
  rcases cases with rfl | rfl | rfl
  · rw [strip_of_not_ext chain.of_zero.1]
    exact ⟨fun _ => .inl rfl, fun _ => ⟨0, chain⟩⟩
  · rw [strip_of_one chain]
    constructor
    · intro reached
      exact absurd reached (not_chain_of_passed chain)
    · rintro (none | ⟨two, -⟩)
      · cases none
      · cases two
  · rw [strip_of_two chain]
    constructor
    · intro reached
      refine .inr ⟨rfl, ?_, reached⟩
      apply Classical.byContradiction
      intro right
      rw [guessedNumber_of_not_misread right chain] at reached
      exact not_chain_of_passed chain reached
    · rintro (none | ⟨-, -, reached⟩)
      · cases none
      · exact reached

/-- Two authentication headers of 24 octets, a UDP header behind them. -/
def twoAuthenticationHeaders : Frame :=
  replicate 12 0 ++ [0x86, 0xDD, 0x60, 0, 0, 0, 0, 56, 51, 64] ++ replicate 32 0 ++
    ([51, 4] ++ replicate 22 0) ++ ([17, 4] ++ replicate 14 0 ++ [51] ++
      replicate 7 0) ++ replicate 8 0

theorem stamped_chain_iff_authentication :
    (shieldXdp ⟨fun _ => none, fun _ => none⟩ (some ⟨replicate 24 0, rfl⟩) 7
      twoAuthenticationHeaders).2.Reaches 17 (twoAuthenticationHeaders.drop 102) := by
  have chain : Chain twoAuthenticationHeaders 51 hbhStart 2 17 102 :=
    .ext (by decide) (by decide) (.ext (by decide) (by decide) (.transport (by decide) (by decide)))
  refine (stamped_chain_iff ⟨fun _ => none, fun _ => none⟩ ⟨replicate 24 0, rfl⟩ 7
    twoAuthenticationHeaders ⟨by decide, by decide, rfl, by decide⟩ (Nat.le_refl 2) chain).mpr ?_
  refine .inr ⟨rfl, ⟨.inr (by decide), by decide⟩, 2, ?_⟩
  exact chain

def destinationOptionsFrame : Frame :=
  replicate 12 0 ++ [0x86, 0xDD, 0x60, 0, 0, 0, 0, 16, 60, 64] ++ replicate 32 0 ++
    [17, 0, 1, 4, 0, 0, 0, 0] ++ replicate 8 0

/-- The stamped frame takes the Destination Options header for the UDP header. -/
theorem destination_options_read_as_udp :
    ¬ ∀ (maps : ShieldMaps) (room : Headroom) (rand : Word) (f : Frame) (count pos : Nat)
      (proto : Byte), Stampable maps f → count ≤ 2 → Chain f f.nextHeader hbhStart count proto pos →
          (shieldXdp maps (some room) rand f).2.Reaches proto (f.drop pos) := by
  intro keeps
  have stampable : Stampable ⟨fun _ => none, fun _ => none⟩ destinationOptionsFrame :=
    ⟨by decide, by decide, rfl, by decide⟩
  have chain : Chain destinationOptionsFrame destinationOptionsFrame.nextHeader hbhStart 1 17 62 :=
    .ext (by decide) (by decide) (.transport (by decide) (by decide))
  have reached := keeps _ ⟨replicate 24 0, rfl⟩ 7 _ 1 62 17 stampable (by decide) chain
  rw [shieldXdp_eq stampable, reaches_stamped stampable.long 7 chain.le_length] at reached
  exact not_chain_of_passed chain reached

end Unheaded.Net
