import Unheaded.Net.Canary
import Unheaded.Net.HopEffect
import Unheaded.Net.Shield
import Unheaded.Net.Version

/-!
# Registers on their way

What the programs between two shields make of the register that a packet carries: whether one whose
checksum does not verify still shows behind a program, and that any route of programs hands on one
that is sound.
-/

namespace Unheaded.Net

open Mbc Lib List

/-- A program that handles a packet, with its maps and what it draws from the kernel. -/
inductive Program where
  | hop (maps : HopMaps) (bootNs : BitVec 64)
  | canary (maps : CanaryMaps) (rand : Word) (now : BitVec 64)
  | versionIngress (maps : VersionMaps)
  | versionEgress (maps : VersionMaps)

namespace Program

/-- The packet after the program. -/
def out : Program → Frame → Frame
  | hop maps bootNs, f => (hopXdp maps bootNs f).2.1
  | canary maps rand now, f => (canaryXdp maps rand now f).2.1
  | versionIngress maps, f => (versionXdpIngress maps f).2
  | versionEgress maps, f => (versionTcEgress maps f).2

/-- No rule is applied, or one that asks for no new checksum and rewrites the register to one that
does not verify either. -/
def RuleKeepsBad (m : Monad) : Option (List Byte × Byte) → Prop
  | none => True
  | some (rule, dst) =>
    (crcRecalc rule = false ∨ (applyTranslationRule m rule dst).1.hasFlag Flags.CUSTOM = true) ∧
      (applyTranslationRule m rule dst).1.verifyChecksum = false

/-- When a program leaves a bad checksum bad. -/
def KeepsBad : Program → Monad → Prop
  | hop _ _, _ => True
  | canary _ _ _, _ => False
  | versionIngress maps, m => RuleKeepsBad m (ingressRule maps m)
  | versionEgress maps, m => RuleKeepsBad m (egressRule maps m)

end Program

def ShowsCorruption (f : Frame) : Prop := ∃ m, monadOf f = some m ∧ m.verifyChecksum = false

/-- A Monad without the `CUSTOM` flag whose checksum does not verify. -/
structure Corrupted (f : Frame) (m : Monad) : Prop where
  monad : monadOf f = some m
  plain : m.hasFlag Flags.CUSTOM = false
  bad : m.verifyChecksum = false

theorem showsCorruption_iff {f : Frame} {m : Monad} (monad : monadOf f = some m) :
    ShowsCorruption f ↔ m.verifyChecksum = false := by
  constructor
  · rintro ⟨m', found, bad⟩
    cases monad.symm.trans found
    exact bad
  · intro bad
    exact ⟨m, monad, bad⟩

theorem translated_bad_iff (m : Monad) (rule : List Byte) (dst : Byte) :
    (translated m rule dst).verifyChecksum = false ↔ Program.RuleKeepsBad m (some (rule, dst)) := by
  unfold translated Program.RuleKeepsBad
  dsimp only
  cases recalc : crcRecalc rule with
  | false =>
    exact ⟨fun bad => ⟨.inl rfl, bad⟩, fun kept => kept.2⟩
  | true =>
    cases custom : (applyTranslationRule m rule dst).1.hasFlag Flags.CUSTOM with
    | true =>
      exact ⟨fun bad => ⟨.inr rfl, bad⟩, fun kept => kept.2⟩
    | false =>
      rw [Bool.not_false, Bool.and_true, if_pos rfl, Monad.verifyChecksum_recomputeChecksum]
      constructor
      · intro verifies
        cases verifies
      · rintro ⟨asked | flagged, -⟩
        · cases asked
        · cases flagged

theorem rewritten_shows_iff {f : Frame} {off : Nat} {m : Monad} (carries : Carries f off)
    (corrupted : Corrupted f m) (applied : Option (List Byte × Byte)) :
    ShowsCorruption (rewritten f off m applied) ↔ Program.RuleKeepsBad m applied := by
  cases applied with
  | none => exact ⟨fun _ => True.intro, fun _ => ⟨m, corrupted.monad, corrupted.bad⟩⟩
  | some entry =>
    obtain ⟨rule, dst⟩ := entry
    obtain ⟨-, carried⟩ := carries.write (translated m rule dst)
    rw [rewritten_some, showsCorruption_iff carried, translated_bad_iff]

/-- A corrupted Monad still does not verify after a program exactly where the program is the hop
program, or a version program that applies no rule or one that keeps the register bad. -/
theorem corruption_shows_iff {f : Frame} {m : Monad} (corrupted : Corrupted f m) (p : Program) :
    ShowsCorruption (p.out f) ↔ p.KeepsBad m := by
  obtain ⟨off, carries, -, -⟩ := monadOf_eq_some corrupted.monad
  cases p with
  | hop maps bootNs =>
    have exit : FailsOpen maps m := .checksum corrupted.plain corrupted.bad
    have passed := hopXdp_of_failsOpen corrupted.monad bootNs exit
    refine ⟨fun _ => True.intro, fun _ => ⟨m, ?_, corrupted.bad⟩⟩
    rw [Program.out, passed]
    exact corrupted.monad
  | canary maps rand now =>
    obtain ⟨m', found, verifies⟩ := canaryXdp_verifies maps rand now corrupted.monad corrupted.plain
    constructor
    · intro shows
      have bad := (showsCorruption_iff found).mp shows
      exact absurd (verifies.symm.trans bad) (by decide)
    · exact False.elim
  | versionIngress maps =>
    rw [Program.out, versionXdpIngress_frame carries corrupted.monad]
    exact rewritten_shows_iff carries corrupted _
  | versionEgress maps =>
    rw [Program.out, versionTcEgress_frame carries corrupted.monad]
    exact rewritten_shows_iff carries corrupted _

theorem corrupted_new : Corrupted (frameOf Monad.new) Monad.new where
  monad := monadOf_frameOf Monad.new
  plain := by decide
  bad := by decide +kernel

def noCanary : CanaryMaps where
  canaryState _ := none
  canaryMetrics _ := none
  versionEndpoints _ := none
  sloThresholds _ := none

theorem corruption_shows_iff_canary :
    ShowsCorruption ((Program.canary noCanary 0 0).out (frameOf Monad.new)) ↔
      (Program.canary noCanary 0 0).KeepsBad Monad.new :=
  corruption_shows_iff corrupted_new (Program.canary noCanary 0 0)

/-- The canary program hides the corruption, for a service it knows nothing of. -/
theorem canary_hides_corruption : Corrupted (frameOf Monad.new) Monad.new ∧
      ¬ ShowsCorruption ((Program.canary noCanary 0 0).out (frameOf Monad.new)) := by
  refine ⟨corrupted_new, ?_⟩
  intro shows
  obtain ⟨m', found, verifies⟩ :=
    canaryXdp_verifies noCanary 0 0 corrupted_new.monad corrupted_new.plain
  exact absurd (verifies.symm.trans ((showsCorruption_iff found).mp shows)) (by decide)

/-! ## Routes

A packet that the Shield stamps passes any programs in any order on its way to the exit.
-/

/-- The hop program and the Shield do not take the register for corrupted. -/
def Monad.Sound (m : Monad) : Prop := m.hasFlag Flags.CUSTOM = true ∨ m.verifyChecksum = true

theorem Monad.sound_settled (m : Monad) :
    Monad.Sound (if m.hasFlag Flags.CUSTOM then m else m.recomputeChecksum) := by
  split
  next custom => exact .inl custom
  next => exact .inr (verifyChecksum_recomputeChecksum m)

/-- The frame `g` has a sound register and is `f` but for the register and the Ethernet addresses. -/
structure Handed (off : Nat) (f g : Frame) : Prop where
  size : g.length = f.length
  bytes : ∀ i, 12 ≤ i → i < off ∨ off + MONAD_SIZE ≤ i → g.byteAt i = f.byteAt i
  sound : ∃ m, monadOf g = some m ∧ m.Sound

namespace Handed

variable {off : Nat} {f g h : Frame} {m : Monad}

theorem refl (monad : monadOf f = some m) (sound : m.Sound) : Handed off f f :=
  ⟨rfl, fun _ _ _ => rfl, m, monad, sound⟩

theorem trans (first : Handed off f g) (second : Handed off g h) : Handed off f h where
  size := second.size.trans first.size
  bytes i low outside := (second.bytes i low outside).trans (first.bytes i low outside)
  sound := second.sound

theorem carries (handed : Handed off f g) (carries : Carries f off) : Carries g off :=
  carries.of_same ⟨handed.size, fun i low before => handed.bytes i low (.inl before)⟩

theorem write (carries : Carries f off) (same : ∀ n, SameUpTo n f g) (sound : m.Sound) :
    Handed off f (writeFrom g off m.toBytes) where
  size := (length_writeFrom g off _).trans (same 0).1
  bytes i low outside := (byteAt_writeFrom_of_outside g outside).trans
    ((same (i + 1)).2 i low (Nat.lt_succ_self i))
  sound := ⟨m, ((carries.of_same (same off)).write m).2, sound⟩

end Handed

namespace Program

/-- Every translation rule asks for a new checksum. -/
def Recalculates : Program → Prop
  | hop _ _ => True
  | canary _ _ _ => True
  | versionIngress maps => ∀ key rule, maps.versionMatrix key = some rule → crcRecalc rule = true
  | versionEgress maps => ∀ key rule, maps.versionMatrix key = some rule → crcRecalc rule = true

variable {off : Nat} {f : Frame} {m : Monad}

theorem rewritten_handed {maps : VersionMaps} {dst : Byte} (carries : Carries f off)
    (monad : monadOf f = some m) (sound : m.Sound)
    (rules : ∀ key rule, maps.versionMatrix key = some rule → crcRecalc rule = true) :
    Handed off f (rewritten f off m (ruleFor maps m dst)) := by
  unfold ruleFor
  split
  · exact .refl monad sound
  · cases found : maps.versionMatrix (matrixKey m.version dst) with
    | none => exact .refl monad sound
    | some rule =>
      rw [Option.map_some, rewritten_some]
      refine .write carries (fun n => ⟨rfl, fun _ _ _ => rfl⟩) ?_
      have settled := Monad.sound_settled (applyTranslationRule m rule dst).1
      unfold translated
      dsimp only
      rw [rules _ _ found, Bool.true_and]
      cases custom : (applyTranslationRule m rule dst).1.hasFlag Flags.CUSTOM <;>
        rwa [custom] at settled

theorem hop_handed (maps : HopMaps) (bootNs : BitVec 64) (carries : Carries f off)
    (monad : monadOf f = some m) (sound : m.Sound) : Handed off f (hopXdp maps bootNs f).2.1 := by
  obtain exit | ⟨off', reaches⟩ := failsOpen_or_reachesChecks maps monad
  · rw [hopXdp_of_failsOpen monad bootNs exit]
    exact .refl monad sound
  · have place := (locateMonad_eq_some.mpr reaches.carries).symm.trans (locateMonad_eq_some.mpr carries)
    cases place
    rw [hopXdp_of_reachesChecks reaches]
    split
    · exact .refl monad sound
    · obtain ⟨-, -, same⟩ | ⟨-, -, written⟩ := processPacket_cases carries.fits
      · rw [same]
        exact .refl monad sound
      · rw [written]
        exact .write carries (fun n => ⟨rfl, fun _ _ _ => rfl⟩) (Monad.sound_settled _)

theorem canary_handed (maps : CanaryMaps) (rand : Word) (now : BitVec 64) (carries : Carries f off)
    (monad : monadOf f = some m) : Handed off f (canaryXdp maps rand now f).2.1 := by
  have routed := fun n => (routeCanary_spec maps rand now f m n).1
  rw [canaryXdp, locateMonad_eq_some.mpr carries]
  dsimp only
  rw [carries.reads monad]
  dsimp only
  rw [writeMonadToPkt_of_fits (carries.of_same (routed off)).fits]
  dsimp only
  exact .write carries routed (Monad.sound_settled (routeCanary maps rand now f m).1)

theorem out_handed {p : Program} (rules : p.Recalculates) (carries : Carries f off)
    (monad : monadOf f = some m) (sound : m.Sound) : Handed off f (p.out f) := by
  cases p with
  | hop maps bootNs => exact hop_handed maps bootNs carries monad sound
  | canary maps rand now => exact canary_handed maps rand now carries monad
  | versionIngress maps =>
    rw [out, versionXdpIngress_frame carries monad]
    exact rewritten_handed carries monad sound rules
  | versionEgress maps =>
    rw [out, versionTcEgress_frame carries monad, egressRule]
    cases maps.serviceVersions (m.dstServiceId.setWidth 32) with
    | none => exact .refl monad sound
    | some info => exact rewritten_handed carries monad sound rules

/-- The frame behind the programs of a route. -/
def route (f : Frame) (ps : List Program) : Frame := ps.foldl (fun f p => p.out f) f

theorem route_handed {ps : List Program} (rules : ∀ p ∈ ps, p.Recalculates) (carries : Carries f off)
    (monad : monadOf f = some m) (sound : m.Sound) : Handed off f (route f ps) := by
  induction ps generalizing f m with
  | nil => exact .refl monad sound
  | cons p ps ih =>
    have handed := out_handed (rules p mem_cons_self) carries monad sound
    obtain ⟨m', monad', sound'⟩ := handed.sound
    exact handed.trans
      (ih (fun q later => rules q (mem_cons_of_mem p later)) (handed.carries carries) monad' sound')

end Program

/-- A stamped packet keeps a sound register over every route of hop, canary and version programs
whose rules ask for new checksums, and leaves the exit with the hop limit, the addresses and the
payload that it had in front of the entry. -/
theorem route_delivers {birth : ShieldMaps} {f : Frame} (stampable : Stampable birth f)
    (room : Headroom) (rand : Word) {ps : List Program} (rules : ∀ p ∈ ps, p.Recalculates)
    (death : ShieldMaps) :
    (∃ m, monadOf (Program.route (shieldXdp birth (some room) rand f).2 ps) = some m ∧ m.Sound) ∧
      (shieldTc death true (Program.route (shieldXdp birth (some room) rand f).2 ps)).1.drop 21 =
        f.drop 21 := by
  have long := stampable.long
  have carries := carries_stamped long rand stampable.ipv6
  have total := length_stamped long rand
  rw [shieldXdp_eq stampable room rand]
  have handed := Program.route_handed rules carries (monadOf_stamped long rand stampable.ipv6)
    (.inr (Monad.verifyChecksum_recomputeChecksum _))
  refine ⟨handed.sound, ?_⟩
  generalize Program.route _ ps = g at handed
  have size := handed.size
  have front : ∀ i, 12 ≤ i → i < 58 → g.byteAt i = (stamped f rand).byteAt i :=
    fun i low before => handed.bytes i low (.inl before)
  have behind : g.drop 78 = f.drop 54 := (drop_eq_of_bytes handed.size fun i past _ =>
    handed.bytes i (by omega) (.inr past)).trans (drop_stamped long rand)
  have header : (g.take 54).drop 21 = (f.take 54).drop 21 := by
    refine drop_eq_of_bytes (by rw [length_take, length_take]; omega) ?_
    intro i low inside
    have below : i < 54 := by
      rw [length_take] at inside
      omega
    rw [byteAt_take below, byteAt_take below, front i (by omega) (by omega),
      byteAt_stamped_header long rand below, byteAt_stampedHeader _ below (.inr (by omega))]
  rw [shieldTc_frame (handed.carries carries)
    ((front 56 (by decide) (by decide)).trans (byteAt_stamped_hbh long rand (by decide : 2 < 24)))
    ((front 57 (by decide) (by decide)).trans (byteAt_stamped_hbh long rand (by decide : 3 < 24))),
    drop_restoreHeader, behind, drop_append_of_le_length, header,
    ← drop_append_of_le_length, take_append_drop]
  all_goals
    rw [length_take]
    omega

/-- A rule that moves nothing, for every pair of versions. -/
def recalculating : VersionMaps where
  versionMatrix _ := some ([0, 0, 0, 0x80] ++ replicate 44 0)
  serviceVersions _ := none
  config _ := none

/-- A UDP packet through the three programs. -/
theorem route_delivers_udp : (shieldTc ⟨fun _ => none, fun _ => none⟩ true (Program.route
      (shieldXdp ⟨fun _ => none, fun _ => none⟩ (some ⟨replicate 24 0, rfl⟩) 0xABCDE
        (replicate 12 0 ++ [0x86, 0xDD, 0x60, 0, 0, 0, 0, 0, 17, 64] ++ replicate 32 7)).2
      [.canary noCanary 0 0, .versionIngress recalculating, .hop bareMaps 0])).1.drop 21 =
    64 :: replicate 32 7 := by
  refine (route_delivers ⟨by decide, by decide, rfl, by decide⟩ ⟨replicate 24 0, rfl⟩ 0xABCDE ?_
    ⟨fun _ => none, fun _ => none⟩).2
  simp only [forall_mem_cons, not_mem_nil, false_implies, implies_true, and_true]
  refine ⟨trivial, ?_, trivial⟩
  rintro key rule ⟨⟩
  decide

end Unheaded.Net
