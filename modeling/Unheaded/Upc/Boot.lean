import Unheaded.Upc.Flat

/-!
# Boot memory of the protocol computer

Boot memory is a map from word addresses to words.
-/

namespace Unheaded.Upc

open Lib List BitVec Function
open BitVec (ofNat)

/-- The part of the boot configuration that the memory depends on. -/
structure BootConfig where
  kernelPath : String
  ramdiskPath : String
  kernelLoadAddr : Word
  ramdiskAddr : Word
  bootArgs : List Byte

def IVTEntries : Nat := 256

def BootParamsBaseWord : Word := 0x40

def DefaultHandlerAddr : Word := 0x0400

def DefaultHandlerAddrWord : Word := 0x100

def KernelBase : Word := 0x10000

def BootArgsBase : Word := 0x0200

def BootArgsBaseWord : Word := 0x80

def RamdiskBase : Word := 0x200000 * 4

def DefaultMemorySize : Word := 64 * 1024 * 1024

def DefaultTickRateHz : Word := 12

def BootMagic : Word := 0x554E4844

def BootProtocolVersion : Word := 1

def HLTOpcode : Word := 0x19000000

def defaultBootConfig : BootConfig where
  kernelPath := ""
  ramdiskPath := ""
  kernelLoadAddr := KernelBase
  ramdiskAddr := RamdiskBase
  bootArgs := []

structure IVTEntry where
  vector : Byte
  handler : Word

def defaultIVT : List IVTEntry :=
  (List.range IVTEntries).map fun i => ⟨ofNat 8 i, DefaultHandlerAddr⟩

def ivtToWords (entries : List IVTEntry) : List Word :=
  entries.foldl (fun words e => words.set e.vector.toNat e.handler) (List.replicate IVTEntries 0)

/-- The errors of the loader: that of the file system, or an empty file. -/
inductive BootError where
  | readKernel (reason : String)
  | kernelEmpty (path : String)
  deriving DecidableEq

def padded (data : List Byte) : List Byte :=
  data ++ List.replicate ((4 - data.length % 4) % 4) 0

def wordsOf (data : List Byte) : List Word :=
  (List.range (data.length / 4)).map fun i => wordAt data (i * 4)

section Files

-- `os.ReadFile`
variable (readFile : String → Except String (List Byte))

def loadKernel (path : String) : Except BootError (List Word) :=
  match readFile path with
  | .error reason => .error (.readKernel reason)
  | .ok data => if data.length = 0 then .error (.kernelEmpty path) else .ok (wordsOf (padded data))

def loadRamdisk (path : String) : Except BootError (List Word) := loadKernel readFile path

end Files

/-- The parameters that the kernel reads, less the reserved words. -/
structure BootParams where
  magic : Word
  version : Word
  memorySize : Word
  ramdiskAddr : Word
  ramdiskSize : Word
  kernelAddr : Word
  kernelSize : Word
  bootArgsAddr : Word
  bootArgsLen : Word
  numCPUs : Word
  tickRateHz : Word
  deriving DecidableEq

/-- The fields in order and the twenty reserved words. -/
def paramsToWords (p : BootParams) : List Word :=
  [p.magic, p.version, p.memorySize, p.ramdiskAddr, p.ramdiskSize, p.kernelAddr, p.kernelSize,
    p.bootArgsAddr, p.bootArgsLen, p.numCPUs, p.tickRateHz] ++ List.replicate 20 0

abbrev BootMemory := Word → Option Word

/-- The loop `mem[base + uint32(i)] = word` from index `i` on. -/
def putWords (base : Word) : Nat → List Word → BootMemory → BootMemory
  | _, [], mem => mem
  | i, w :: ws, mem =>
    putWords base (i + 1) ws (update mem (base + ofNat 32 i) (some w))

/-- What has been prepared: the memory and the parameters still to be written. -/
structure Prepared where
  mem : BootMemory
  params : BootParams

section Prepare

variable (readFile : String → Except String (List Byte)) (cfg : BootConfig)

/-- Steps 1 to 3: the vectors, the handler and the parameters known so far. -/
def prepareTables : Prepared where
  mem := update (putWords 0 0 (ivtToWords defaultIVT) fun _ => none)
    DefaultHandlerAddrWord (some HLTOpcode)
  params :=
    { magic := BootMagic
      version := BootProtocolVersion
      memorySize := DefaultMemorySize
      ramdiskAddr := 0
      ramdiskSize := 0
      kernelAddr := cfg.kernelLoadAddr
      kernelSize := 0
      bootArgsAddr := 0
      bootArgsLen := 0
      numCPUs := 1
      tickRateHz := DefaultTickRateHz }

variable (p : Prepared)

/-- Step 4. -/
def prepareKernel : Except BootError Prepared :=
  if cfg.kernelPath = "" then .ok p
  else do
    let kernelWords ← loadKernel readFile cfg.kernelPath
    return { mem := putWords (cfg.kernelLoadAddr >>> 2) 0 kernelWords p.mem
             params := { p.params with kernelSize := ofNat 32 (kernelWords.length * 4) } }

/-- Step 5. -/
def prepareRamdisk : Except BootError Prepared :=
  if cfg.ramdiskPath = "" then .ok p
  else do
    let rdWords ← loadRamdisk readFile cfg.ramdiskPath
    return { mem := putWords (cfg.ramdiskAddr >>> 2) 0 rdWords p.mem
             params := { p.params with
               ramdiskSize := ofNat 32 (rdWords.length * 4)
               ramdiskAddr := cfg.ramdiskAddr } }

/-- Step 6. -/
def prepareArgs : Prepared :=
  if cfg.bootArgs = [] then p
  else
    { mem := putWords BootArgsBaseWord 0 (wordsOf (padded cfg.bootArgs)) p.mem
      params := { p.params with
        bootArgsAddr := BootArgsBase
        bootArgsLen := ofNat 32 cfg.bootArgs.length } }

def prepareBootMemory : Except BootError BootMemory := do
  let p := prepareTables cfg
  let p ← prepareKernel readFile cfg p
  let p ← prepareRamdisk readFile cfg p
  let p := prepareArgs cfg p
  return putWords BootParamsBaseWord 0 (paramsToWords p.params) p.mem

end Prepare

section Regions

variable (readFile : String → Except String (List Byte)) (cfg : BootConfig)

def fileWords (path : String) : List Word :=
  if path = "" then [] else (loadKernel readFile path).toOption.getD []

def kernelWords : List Word := fileWords readFile cfg.kernelPath

def ramdiskWords : List Word := fileWords readFile cfg.ramdiskPath

def argsWords : List Word := wordsOf (padded cfg.bootArgs)

/-- The parameters that a boot writes. -/
def bootParams : BootParams where
  magic := BootMagic
  version := BootProtocolVersion
  memorySize := DefaultMemorySize
  ramdiskAddr := if cfg.ramdiskPath = "" then 0 else cfg.ramdiskAddr
  ramdiskSize := ofNat 32 ((ramdiskWords readFile cfg).length * 4)
  kernelAddr := cfg.kernelLoadAddr
  kernelSize := ofNat 32 ((kernelWords readFile cfg).length * 4)
  bootArgsAddr := if cfg.bootArgs = [] then 0 else BootArgsBase
  bootArgsLen := ofNat 32 cfg.bootArgs.length
  numCPUs := 1
  tickRateHz := DefaultTickRateHz

/-- Memory with the regions written one after the other. -/
def regionsWritten : BootMemory :=
  putWords BootParamsBaseWord 0 (paramsToWords (bootParams readFile cfg))
    (putWords BootArgsBaseWord 0 (argsWords cfg)
      (putWords (cfg.ramdiskAddr >>> 2) 0 (ramdiskWords readFile cfg)
        (putWords (cfg.kernelLoadAddr >>> 2) 0 (kernelWords readFile cfg)
          (putWords DefaultHandlerAddrWord 0 [HLTOpcode]
            (putWords 0 0 (ivtToWords defaultIVT) fun _ => none)))))

end Regions

section Accepted

variable {readFile : String → Except String (List Byte)} {cfg : BootConfig} {p q : Prepared}

theorem prepareKernel_ok (fresh : p.params.kernelSize = 0)
    (done : prepareKernel readFile cfg p = .ok q) :
    q = { mem := putWords (cfg.kernelLoadAddr >>> 2) 0 (kernelWords readFile cfg) p.mem
          params := { p.params with
            kernelSize := ofNat 32 ((kernelWords readFile cfg).length * 4) } } := by
  unfold prepareKernel at done
  unfold kernelWords fileWords
  split at done
  · next empty =>
      cases done
      obtain ⟨mem, params⟩ := p
      cases params
      cases fresh
      rw [if_pos empty]
      rfl
  · next path =>
      cases loaded : loadKernel readFile cfg.kernelPath with
      | error e =>
        rw [loaded] at done
        cases done
      | ok words =>
        rw [loaded] at done
        cases done
        simp only [if_neg path, Except.toOption, Option.getD_some]

theorem prepareRamdisk_ok (fresh : p.params.ramdiskSize = 0 ∧ p.params.ramdiskAddr = 0)
    (done : prepareRamdisk readFile cfg p = .ok q) :
    q = { mem := putWords (cfg.ramdiskAddr >>> 2) 0 (ramdiskWords readFile cfg) p.mem
          params := { p.params with
            ramdiskSize := ofNat 32 ((ramdiskWords readFile cfg).length * 4)
            ramdiskAddr := if cfg.ramdiskPath = "" then 0 else cfg.ramdiskAddr } } := by
  unfold prepareRamdisk loadRamdisk at done
  unfold ramdiskWords fileWords
  split at done
  · next empty =>
      cases done
      obtain ⟨mem, params⟩ := p
      obtain ⟨size, addr⟩ := fresh
      cases params
      cases size
      cases addr
      rw [if_pos empty, if_pos empty]
      rfl
  · next path =>
      cases loaded : loadKernel readFile cfg.ramdiskPath with
      | error e =>
        rw [loaded] at done
        cases done
      | ok words =>
        rw [loaded] at done
        cases done
        simp only [if_neg path, Except.toOption, Option.getD_some]

theorem prepareArgs_eq (fresh : p.params.bootArgsLen = 0 ∧ p.params.bootArgsAddr = 0) :
    prepareArgs cfg p =
      { mem := putWords BootArgsBaseWord 0 (argsWords cfg) p.mem
        params := { p.params with
          bootArgsAddr := if cfg.bootArgs = [] then 0 else BootArgsBase
          bootArgsLen := ofNat 32 cfg.bootArgs.length } } := by
  unfold prepareArgs argsWords
  split
  · next empty =>
      obtain ⟨mem, params⟩ := p
      obtain ⟨len, addr⟩ := fresh
      cases params
      cases len
      cases addr
      rw [empty]
      rfl
  · rfl

theorem prepareBootMemory_ok {mem : BootMemory} (done : prepareBootMemory readFile cfg = .ok mem) :
    mem = regionsWritten readFile cfg := by
  unfold prepareBootMemory at done
  cases kernel : prepareKernel readFile cfg (prepareTables cfg) with
  | error e =>
    simp only [kernel] at done
    cases done
  | ok p =>
    cases ramdisk : prepareRamdisk readFile cfg p with
    | error e =>
      simp only [kernel, bind, Except.bind, ramdisk] at done
      cases done
    | ok q =>
      simp only [kernel, bind, Except.bind, ramdisk] at done
      cases done
      cases prepareKernel_ok rfl kernel
      cases prepareRamdisk_ok ⟨rfl, rfl⟩ ramdisk
      rw [prepareArgs_eq ⟨rfl, rfl⟩]
      rfl

end Accepted

/-- The addresses of `n` words from a base on. -/
def Covers (base : Word) (n : Nat) (addr : Word) : Prop := ∃ i < n, addr = base + ofNat 32 i

theorem putWords_of_not_covers {base addr : Word} {i : Nat} {ws : List Word} {mem : BootMemory}
    (apart : ∀ k < ws.length, addr ≠ base + ofNat 32 (i + k)) :
    putWords base i ws mem addr = mem addr := by
  induction ws generalizing i mem with
  | nil => rfl
  | cons w ws ih =>
    rw [length_cons] at apart
    have later (k : Nat) : i + 1 + k = i + (k + 1) := by omega
    rw [putWords, ih fun k below => by rw [later k]; exact apart (k + 1) (by omega),
      update_of_ne (by simpa using apart 0 (by omega))]

theorem putWords_last {base : Word} {i k : Nat} {ws : List Word} {w : Word} {mem : BootMemory}
    (found : ws[k]? = some w) (last : ∀ l, k < l → l < ws.length →
      base + ofNat 32 (i + k) ≠ base + ofNat 32 (i + l)) :
    putWords base i ws mem (base + ofNat 32 (i + k)) = some w := by
  induction ws generalizing i k mem with
  | nil => cases found
  | cons v ws ih =>
    rw [length_cons] at last
    have later (k : Nat) : i + 1 + k = i + (k + 1) := by omega
    cases k with
    | zero =>
      cases found
      rw [putWords, putWords_of_not_covers fun l below => by
        rw [later l]; exact last (l + 1) (by omega) (by omega)]
      simp
    | succ k =>
      rw [← later k]
      refine ih found fun l after below => ?_
      rw [later k, later l]
      exact last (l + 1) (by omega) (by omega)

theorem putWords_base_of_not_covers {base addr : Word} {ws : List Word} {mem : BootMemory}
    (apart : ¬ Covers base ws.length addr) : putWords base 0 ws mem addr = mem addr := by
  apply putWords_of_not_covers
  intro k below same
  rw [Nat.zero_add] at same
  exact apart ⟨k, below, same⟩

theorem putWords_base_last {base : Word} {k : Nat} {ws : List Word} {w : Word} {mem : BootMemory}
    (found : ws[k]? = some w)
    (last : ∀ l, k < l → l < ws.length → base + ofNat 32 k ≠ base + ofNat 32 l) :
    putWords base 0 ws mem (base + ofNat 32 k) = some w := by
  have stands := @putWords_last base 0 k ws w mem found (by simpa using last)
  rwa [Nat.zero_add] at stands

theorem ofNat_add_ne {base : Word} {k l : Nat} (before : k < l) (near : l - k < 2 ^ 32) :
    base + ofNat 32 k ≠ base + ofNat 32 l := by
  intro same
  have eq := congrArg BitVec.toNat (BitVec.add_right_inj _ |>.mp same)
  rw [toNat_ofNat, toNat_ofNat] at eq
  omega

theorem ivtToWords_defaultIVT :
    ivtToWords defaultIVT = List.replicate IVTEntries DefaultHandlerAddr := by
  decide +kernel

theorem length_padded_mod (data : List Byte) : (padded data).length % 4 = 0 := by
  rw [padded, length_append, length_replicate]
  omega

theorem length_wordsOf_padded (data : List Byte) :
    (wordsOf (padded data)).length = (data.length + 3) / 4 := by
  rw [wordsOf, length_map, length_range, padded, length_append,
    length_replicate]
  omega

theorem byteOf_wordsOf_padded {data : List Byte} {i : Nat} {b : Byte} (found : data[i]? = some b) :
    ∃ w, (wordsOf (padded data))[i / 4]? = some w ∧ byteOf w (i % 4) = b := by
  obtain ⟨below, rfl⟩ := List.getElem?_eq_some_iff.mp found
  have inside : i < (padded data).length := by
    rw [padded, length_append]
    omega
  have whole := length_padded_mod data
  refine ⟨wordAt (padded data) (i / 4 * 4), ?_, ?_⟩
  · have word : i / 4 < (padded data).length / 4 := by omega
    simp [wordsOf, word]
  · have byte := @byteOf_wordAt (padded data) (i / 4 * 4) (i % 4) (by omega)
      (Nat.mod_lt _ (by decide))
    have place : i / 4 * 4 + i % 4 = i := by omega
    rw [place, padded, List.getElem?_append_left below, found] at byte
    exact Option.some.inj byte

/-- Byte `i` of the command line, read from memory at the address recorded. -/
def argsByte (mem : BootMemory) (i : Nat) : Option Byte :=
  (mem (BootArgsBaseWord + ofNat 32 (i / 4))).map (byteOf · (i % 4))

section Layout

variable (readFile : String → Except String (List Byte)) (cfg : BootConfig) (mem : BootMemory)

/-- Every region reads back in full. -/
structure RegionsIntact : Prop where
  vectors : ∀ v < IVTEntries, mem (ofNat 32 v) = some DefaultHandlerAddr
  handler : mem DefaultHandlerAddrWord = some HLTOpcode
  params : ∀ i w, (paramsToWords (bootParams readFile cfg))[i]? = some w →
    mem (BootParamsBaseWord + ofNat 32 i) = some w
  args : ∀ i b, cfg.bootArgs[i]? = some b → argsByte mem i = some b
  kernel : ∀ i w, (kernelWords readFile cfg)[i]? = some w →
    mem ((cfg.kernelLoadAddr >>> 2) + ofNat 32 i) = some w
  ramdisk : ∀ i w, (ramdiskWords readFile cfg)[i]? = some w →
    mem ((cfg.ramdiskAddr >>> 2) + ofNat 32 i) = some w

variable (addr : Word)

def InParams : Prop := Covers BootParamsBaseWord 31 addr

def InArgs : Prop := Covers BootArgsBaseWord (argsWords cfg).length addr

def InRamdisk : Prop :=
  Covers (cfg.ramdiskAddr >>> 2) (ramdiskWords readFile cfg).length addr

def InKernel : Prop :=
  Covers (cfg.kernelLoadAddr >>> 2) (kernelWords readFile cfg).length addr

/-- Index `i` of a region of `n` words is the last one with its address. -/
def LastAt (base : Word) (n i : Nat) : Prop :=
  ∀ k, i < k → k < n → base + ofNat 32 i ≠ base + ofNat 32 k

/-- Every region reads back where nothing written later covers it. -/
structure RegionsLayered : Prop where
  params : ∀ i w, (paramsToWords (bootParams readFile cfg))[i]? = some w →
    mem (BootParamsBaseWord + ofNat 32 i) = some w
  args : cfg.bootArgs.length ≤ 4 * (2 ^ 32 - 0x40) →
    ∀ i b, cfg.bootArgs[i]? = some b → argsByte mem i = some b
  ramdisk : ∀ i w, (ramdiskWords readFile cfg)[i]? = some w →
    LastAt (cfg.ramdiskAddr >>> 2) (ramdiskWords readFile cfg).length i →
    ¬ InArgs cfg ((cfg.ramdiskAddr >>> 2) + ofNat 32 i) →
    ¬ InParams ((cfg.ramdiskAddr >>> 2) + ofNat 32 i) →
      mem ((cfg.ramdiskAddr >>> 2) + ofNat 32 i) = some w
  kernel : ∀ i w, (kernelWords readFile cfg)[i]? = some w →
    LastAt (cfg.kernelLoadAddr >>> 2) (kernelWords readFile cfg).length i →
    ¬ InRamdisk readFile cfg ((cfg.kernelLoadAddr >>> 2) + ofNat 32 i) →
    ¬ InArgs cfg ((cfg.kernelLoadAddr >>> 2) + ofNat 32 i) →
    ¬ InParams ((cfg.kernelLoadAddr >>> 2) + ofNat 32 i) →
      mem ((cfg.kernelLoadAddr >>> 2) + ofNat 32 i) = some w
  handler : ¬ InKernel readFile cfg DefaultHandlerAddrWord →
    ¬ InRamdisk readFile cfg DefaultHandlerAddrWord → ¬ InArgs cfg DefaultHandlerAddrWord →
      mem DefaultHandlerAddrWord = some HLTOpcode
  vectors : ∀ v < IVTEntries, ¬ InKernel readFile cfg (ofNat 32 v) →
    ¬ InRamdisk readFile cfg (ofNat 32 v) → ¬ InArgs cfg (ofNat 32 v) →
    ¬ InParams (ofNat 32 v) →
      mem (ofNat 32 v) = some DefaultHandlerAddr

end Layout

section Read

variable {readFile : String → Except String (List Byte)} {cfg : BootConfig} {addr : Word}

theorem length_paramsToWords (p : BootParams) : (paramsToWords p).length = 31 := rfl

theorem regionsWritten_not_params (params : ¬ InParams addr) : regionsWritten readFile cfg addr =
      putWords BootArgsBaseWord 0 (argsWords cfg)
        (putWords (cfg.ramdiskAddr >>> 2) 0 (ramdiskWords readFile cfg)
          (putWords (cfg.kernelLoadAddr >>> 2) 0 (kernelWords readFile cfg)
            (putWords DefaultHandlerAddrWord 0 [HLTOpcode]
              (putWords 0 0 (ivtToWords defaultIVT) fun _ => none)))) addr :=
  putWords_base_of_not_covers params

@[simp] theorem toNat_bootParamsBaseWord : BootParamsBaseWord.toNat = 0x40 := rfl

@[simp] theorem toNat_bootArgsBaseWord : BootArgsBaseWord.toNat = 0x80 := rfl

@[simp] theorem toNat_defaultHandlerAddrWord : DefaultHandlerAddrWord.toNat = 0x100 := rfl

theorem not_inParams_of_lt {k : Nat} (low : 0x5F ≤ k) (high : k < 2 ^ 32 + 0x40) :
    ¬ InParams (ofNat 32 k) := by
  rintro ⟨i, below, same⟩
  have eq := congrArg BitVec.toNat same
  simp only [toNat_add, toNat_ofNat, toNat_bootParamsBaseWord] at eq
  omega

theorem not_inParams_args {i : Nat} (below : i < 2 ^ 32 - 0x40) :
    ¬ InParams (BootArgsBaseWord + ofNat 32 i) := by
  have sum : BootArgsBaseWord + ofNat 32 i = ofNat 32 (0x80 + i) := by
    apply eq_of_toNat_eq
    simp only [toNat_add, toNat_ofNat, toNat_bootArgsBaseWord]
    omega
  rw [sum]
  exact not_inParams_of_lt (by omega) (by omega)

theorem regionsWritten_params {i : Nat} {w : Word}
    (found : (paramsToWords (bootParams readFile cfg))[i]? = some w) :
    regionsWritten readFile cfg (BootParamsBaseWord + ofNat 32 i) = some w := by
  refine putWords_base_last found fun l after below => ofNat_add_ne after ?_
  rw [length_paramsToWords] at below
  omega

theorem regionsWritten_args (short : cfg.bootArgs.length ≤ 4 * (2 ^ 32 - 0x40)) {i : Nat} {b : Byte}
    (found : cfg.bootArgs[i]? = some b) : argsByte (regionsWritten readFile cfg) i = some b := by
  have below := (List.getElem?_eq_some_iff.mp found).1
  obtain ⟨w, word, byte⟩ := byteOf_wordsOf_padded found
  rw [argsByte, regionsWritten_not_params (not_inParams_args (by omega)),
    @putWords_base_last BootArgsBaseWord _ (argsWords cfg) _ _ word fun l after small => by
      rw [argsWords, length_wordsOf_padded] at small
      exact ofNat_add_ne after (by omega),
    Option.map_some, byte]

theorem regionsWritten_layered : RegionsLayered readFile cfg (regionsWritten readFile cfg) := by
  refine ⟨fun i w => regionsWritten_params, fun short i b => regionsWritten_args short, ?_, ?_, ?_, ?_⟩
  · intro i w found last args params
    rw [regionsWritten_not_params params, putWords_base_of_not_covers args]
    exact putWords_base_last found last
  · intro i w found last ramdisk args params
    rw [regionsWritten_not_params params, putWords_base_of_not_covers args,
      putWords_base_of_not_covers ramdisk]
    exact putWords_base_last found last
  · intro kernel ramdisk args
    have params : ¬ InParams DefaultHandlerAddrWord := not_inParams_of_lt (by decide) (by decide)
    rw [regionsWritten_not_params params, putWords_base_of_not_covers args,
      putWords_base_of_not_covers ramdisk, putWords_base_of_not_covers kernel]
    rfl
  · intro v below kernel ramdisk args params
    rw [regionsWritten_not_params params, putWords_base_of_not_covers args,
      putWords_base_of_not_covers ramdisk, putWords_base_of_not_covers kernel]
    have small : v < 256 := below
    have other : ¬ Covers DefaultHandlerAddrWord [HLTOpcode].length (ofNat 32 v) := by
      rintro ⟨i, first, same⟩
      have eq := congrArg BitVec.toNat same
      simp only [toNat_add, toNat_ofNat, toNat_defaultHandlerAddrWord] at eq
      rw [length_singleton] at first
      omega
    rw [putWords_base_of_not_covers other, ivtToWords_defaultIVT]
    have found : (List.replicate IVTEntries DefaultHandlerAddr)[v]? = some DefaultHandlerAddr := by
      rw [List.getElem?_replicate, if_pos below]
    have stands := @putWords_base_last 0 v _ _ (fun _ => none) found fun l after small => by
      rw [length_replicate, IVTEntries] at small
      exact ofNat_add_ne after (by omega)
    have base : (0 : Word) + ofNat 32 v = ofNat 32 v := BitVec.zero_add _
    rwa [base] at stands

/-- Every accepted configuration is laid out in the order of the writes. -/
theorem prepareBootMemory_layered {mem : BootMemory}
    (accepted : prepareBootMemory readFile cfg = .ok mem) : RegionsLayered readFile cfg mem := by
  cases prepareBootMemory_ok accepted
  exact regionsWritten_layered

def oneKernel : String → Except String (List Byte) := fun path =>
  if path = "kernel.bin" then .ok [0x2A, 0x00, 0x00, 0x0F, 0x00, 0x00, 0x00, 0x19]
  else .error "no such file"

/-- The file is loaded as the kernel and as the ramdisk. -/
theorem prepareBootMemory_layered_one_kernel :
    let cfg := { defaultBootConfig with
      kernelPath := "kernel.bin", ramdiskPath := "kernel.bin", bootArgs := [0x76] }
    ∃ mem, prepareBootMemory oneKernel cfg = .ok mem ∧ RegionsLayered oneKernel cfg mem :=
  ⟨_, rfl, prepareBootMemory_layered rfl⟩

/-- The parameters hide vector 64 of the default boot and a kernel loaded at
their address, and a command line of 516 bytes hides the handler. -/
theorem boot_regions_hide_each_other :
    (∃ mem, prepareBootMemory oneKernel defaultBootConfig = .ok mem ∧
        ¬ RegionsIntact oneKernel defaultBootConfig mem) ∧
      (∃ mem, prepareBootMemory oneKernel
          { defaultBootConfig with kernelPath := "kernel.bin", kernelLoadAddr := 0x100 } = .ok mem ∧
        mem 0x40 = some BootMagic) ∧
      ∃ mem, prepareBootMemory oneKernel
          { defaultBootConfig with bootArgs := List.replicate 516 0x61 } = .ok mem ∧
        mem DefaultHandlerAddrWord ≠ some HLTOpcode := by
  refine ⟨⟨regionsWritten oneKernel defaultBootConfig, rfl, fun intact => ?_⟩,
    ⟨regionsWritten oneKernel
      { defaultBootConfig with kernelPath := "kernel.bin", kernelLoadAddr := 0x100 }, rfl,
      @regionsWritten_params _ _ 0 BootMagic rfl⟩, ⟨_, rfl, fun kept => ?_⟩⟩
  · have vector := intact.vectors 64 (by decide)
    have magic := intact.params 0 BootMagic rfl
    rw [show BootParamsBaseWord + ofNat 32 0 = ofNat 32 64 from rfl, vector] at magic
    exact absurd magic (by decide)
  · rw [@prepareBootMemory_ok oneKernel
      { defaultBootConfig with bootArgs := List.replicate 516 0x61 } _ rfl] at kept
    have byte : argsByte (regionsWritten oneKernel
        { defaultBootConfig with bootArgs := List.replicate 516 0x61 }) 512 = some 0x61 :=
      regionsWritten_args (length_replicate.trans_le (by decide))
        (List.getElem?_replicate.trans (if_pos (by decide)))
    have word : BootArgsBaseWord + ofNat 32 (512 / 4) = DefaultHandlerAddrWord := rfl
    rw [argsByte, word, kept] at byte
    exact absurd byte (by decide)

end Read

end Unheaded.Upc
