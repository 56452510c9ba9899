import Unheaded.Net.Packet

/-!
# The version program

`version_xdp_ingress` and `version_tc_egress` of `version-ebpf`: a packet of another version than
its destination expects is rewritten by the rule of the pair of versions.
-/

namespace Unheaded.Net

open Mbc Lib

structure VersionMaps where
  versionMatrix : BitVec 16 → Option (List Byte)
  serviceVersions : Word → Option (List Byte)
  config : Word → Option (BitVec 64)

def CFG_DEFAULT_VERSION : Word := 1
def CFG_STRICT_MODE : Word := 2

variable (maps : VersionMaps)

def VersionMaps.cfg (key : Word) : BitVec 64 := (maps.config key).getD 0

variable (rule : List Byte)

def fieldMask : Word :=
  wordOfBytes (rule.getD 3 0) (rule.getD 2 0) (rule.getD 1 0) (rule.getD 0 0)

def ruleOffset (i : Nat) : Nat :=
  (rule.getD i 0).toNat + (rule.getD (i + 1) 0).toNat * 256

/-- One of the eight offset pairs. -/
def applyPair (s : List Byte × Nat) (i : Nat) : List Byte × Nat :=
  if fieldMask rule &&& (1 <<< i) = 0 then s
  else
    let srcOff := ruleOffset rule (4 + i * 4)
    let dstOff := ruleOffset rule (4 + i * 4 + 2)
    if srcOff < MONAD_SIZE ∧ dstOff < MONAD_SIZE then
      (s.1.set dstOff (s.1.getD srcOff 0), s.2 + 1)
    else s

/-- One of the four defaults. -/
def applyDefault (s : List Byte × Nat) (i : Nat) : List Byte × Nat :=
  if fieldMask rule &&& (1 <<< (8 + i)) = 0 then s
  else
    let targetOff := ruleOffset rule (36 + i * 2)
    if targetOff < MONAD_SIZE then (s.1.set targetOff (rule.getD (44 + i) 0), s.2 + 1) else s

/-- `apply_translation_rule`: the Monad and the number of fields translated. -/
def applyTranslationRule (m : Monad) (rule : List Byte) (dstVersion : Byte) : Monad × Nat :=
  let paired := (List.range 8).foldl (applyPair rule) (m.toBytes, 0)
  let filled := (List.range 4).foldl (applyDefault rule) paired
  (Monad.fromBytes (filled.1.set 0 dstVersion), filled.2)

def crcRecalc : Bool := fieldMask rule &&& 0x80000000 != 0

/-- The translated Monad as it is written back. -/
def translated (m : Monad) (rule : List Byte) (dstVersion : Byte) : Monad :=
  let t := (applyTranslationRule m rule dstVersion).1
  if crcRecalc rule && !t.hasFlag Flags.CUSTOM then t.recomputeChecksum else t

def matrixKey (src dst : Byte) : BitVec 16 := (src.setWidth 16 <<< 8) ||| dst.setWidth 16

/-- The version that the destination service has, or the default one. -/
def ingressVersion (m : Monad) : Byte :=
  match maps.serviceVersions (m.dstServiceId.setWidth 32) with
  | some info => info.getD 0 0
  | none =>
    let defaultVer := (maps.cfg CFG_DEFAULT_VERSION).setWidth 8
    if defaultVer = 0 then 0x01 else defaultVer

def versionXdpIngress (f : Frame) : XdpAction × Frame :=
  match locateMonad f with
  | none => (.pass, f)
  | some off =>
    match readMonadFromPkt f off with
    | none => (.pass, f)
    | some monad =>
      let dstVersion := ingressVersion maps monad
      if monad.version = dstVersion then (.pass, f)
      else
        match maps.versionMatrix (matrixKey monad.version dstVersion) with
        | none => if maps.cfg CFG_STRICT_MODE ≠ 0 then (.drop, f) else (.pass, f)
        | some rule =>
          match writeMonadToPkt f off (translated monad rule dstVersion) with
          | none => (.pass, f)
          | some f' => (.pass, f')

def versionTcEgress (f : Frame) : XdpAction × Frame :=
  match locateMonad f with
  | none => (.pass, f)
  | some off =>
    match readMonadFromPkt f off with
    | none => (.pass, f)
    | some monad =>
      match maps.serviceVersions (monad.dstServiceId.setWidth 32) with
      | none => (.pass, f)
      | some info =>
        let expectedVersion := info.getD 0 0
        if monad.version = expectedVersion then (.pass, f)
        else
          match maps.versionMatrix (matrixKey monad.version expectedVersion) with
          | none => (.pass, f)
          | some rule =>
            match writeMonadToPkt f off (translated monad rule expectedVersion) with
            | none => (.pass, f)
            | some f' => (.pass, f')

def ruleFor (m : Monad) (dst : Byte) : Option (List Byte × Byte) :=
  if m.version = dst then none else (maps.versionMatrix (matrixKey m.version dst)).map (·, dst)

def ingressRule (m : Monad) : Option (List Byte × Byte) :=
  ruleFor maps m (ingressVersion maps m)

def egressRule (m : Monad) : Option (List Byte × Byte) :=
  (maps.serviceVersions (m.dstServiceId.setWidth 32)).bind fun info =>
    ruleFor maps m (info.getD 0 0)

def rewritten (f : Frame) (off : Nat) (m : Monad) : Option (List Byte × Byte) → Frame
  | none => f
  | some (rule, dst) => writeFrom f off (translated m rule dst).toBytes

theorem rewritten_some (f : Frame) (off : Nat) (m : Monad) (rule : List Byte) (dst : Byte) :
    rewritten f off m (some (rule, dst)) = writeFrom f off (translated m rule dst).toBytes := rfl

theorem versionXdpIngress_frame {maps : VersionMaps} {f : Frame} {off : Nat} {m : Monad}
    (carries : Carries f off) (monad : monadOf f = some m) :
    (versionXdpIngress maps f).2 = rewritten f off m (ingressRule maps m) := by
  rw [versionXdpIngress, ingressRule, ruleFor, locateMonad_eq_some.mpr carries]
  dsimp only
  rw [carries.reads monad]
  dsimp only
  split
  · rfl
  · cases maps.versionMatrix (matrixKey m.version (ingressVersion maps m)) with
    | none =>
      dsimp only
      split
      · rfl
      · rfl
    | some rule =>
      dsimp only
      rw [writeMonadToPkt_of_fits carries.fits, Option.map_some, rewritten_some]

theorem versionTcEgress_frame {maps : VersionMaps} {f : Frame} {off : Nat} {m : Monad}
    (carries : Carries f off) (monad : monadOf f = some m) :
    (versionTcEgress maps f).2 = rewritten f off m (egressRule maps m) := by
  unfold versionTcEgress egressRule ruleFor
  rw [locateMonad_eq_some.mpr carries]
  dsimp only
  rw [carries.reads monad]
  dsimp only
  cases maps.serviceVersions (m.dstServiceId.setWidth 32) with
  | none => rfl
  | some info =>
    dsimp only
    rw [Option.bind_some]
    split
    · rfl
    · cases maps.versionMatrix (matrixKey m.version (info.getD 0 0)) with
      | none => rfl
      | some rule =>
        dsimp only
        rw [writeMonadToPkt_of_fits carries.fits, Option.map_some, rewritten_some]

end Unheaded.Net
