import Unheaded.Cart.Program
import Unheaded.Qos.TokenBucket

/-!
# The rate-limit cartridge

`cartridges/ratelimit.s`: the token bucket of the QoS limiter, per flow, in 32-bit instructions.
-/

namespace Unheaded.Cart

open Lib Mbc Mbc.Asm BitVec FlowMetaSim

namespace Ratelimit

inductive Label where
  | pass | have_bucket | first_ok | refill | check | add_some | drop
  deriving DecidableEq

/-! ## The program, in basic blocks -/

def start : List (AsmInsn Label) :=
  [LD 5 15 0x1000, MOVI 1 4, SYSCALL 0, MOV 4 0, CMP 5 15, JZ .pass]

def lookup : List (AsmInsn Label) :=
  [LD 6 15 0x1004, SYSCALL 1, MOV 7 0, LD 2 15 8, CMP 2 15, JNZ .have_bucket]

def firstPacket : List (AsmInsn Label) := [MOV 3 6, SUB 3 4, JNC .first_ok]

def emptied : List (AsmInsn Label) := [MOVI 3 0]

def create : List (AsmInsn Label) := [ST 15 0 3, ST 15 4 7, MOVI 2 1, ST 15 8 2, JMP .pass]

def idle : List (AsmInsn Label) := [LD 3 15 0, MOVI 1 7, SYSCALL 0, MOVI 2 22, CMP 0 2, JC .refill]

def fill : List (AsmInsn Label) := [MOV 3 6, ST 15 4 7, JMP .check]

def quanta : List (AsmInsn Label) :=
  [LD 2 15 4, MOV 8 7, SUB 8 2, SHR 8 6, LD 2 15 0x1008, MULH 8 2, SHR 8 3,
   MOV 9 8, MUL 8 5, CMP 8 15, JZ .check]

def room : List (AsmInsn Label) := [MOV 2 6, SUB 2 3, CMP 8 2, JC .add_some]

def addSome : List (AsmInsn Label) := [ADD 3 8, MOVI 2 8000, MUL 9 2, LD 2 15 4, ADD 2 9, ST 15 4 2]

def check : List (AsmInsn Label) := [ST 15 0 3, CMP 3 4, JC .drop]

def admitPacket : List (AsmInsn Label) := [SUB 3 4, ST 15 0 3]

def pass : List (AsmInsn Label) := [MOVI 1 0]

def drop : List (AsmInsn Label) := [MOVI 1 1]

def verdict : List (AsmInsn Label) := [SYSCALL 2]

/-- `cartridges/ratelimit.s`. -/
def source : List (AsmLine Label) :=
  code start ++ code lookup ++ code firstPacket ++ code emptied ++
  .label .first_ok :: code create ++
  .label .have_bucket :: code idle ++ code fill ++
  .label .refill :: code quanta ++ code room ++ code fill ++
  .label .add_some :: code addSome ++
  .label .check :: code check ++ code admitPacket ++
  .label .pass :: code pass ++ code verdict ++
  .label .drop :: code drop ++ code verdict

/-- `M`, the multiplier that divides by 125. -/
def RECIPROCAL : Word := 274877907

/-- The limiter in a slot. -/
structure Running (rate cap : Word) (p : Cartridge) : Prop where
  loaded : Loaded source p
  xdp : p.cfg.stage = STAGE_XDP
  rate : ∀ st, p.loadWord st 0x1000 = some rate
  cap : ∀ st, p.loadWord st 0x1004 = some cap
  reciprocal : ∀ st, p.loadWord st 0x1008 = some RECIPROCAL

section Blocks

variable {rate cap : Word} {p : Cartridge} {input : PacketInput} {mem : BitVec 6 → Word}
  {log : Log} {s : Progress}

def now (input : PacketInput) : Word := input.nowNs.setWidth 32

section

variable (running : Running rate cap p)
include running

theorem Running.size : p.cfg.romWords.toNat = 63 :=
  running.loaded.size

theorem start_goes (on : rate ≠ 0) (here : At 0 [(15, 0)] mem 0 log s) :
    Goes (jobStep p input) 6 s (At 6 [(15, 0), (4, input.len), (5, rate)] mem 0 log) := by
  have target : labels source .pass = some 59 := rfl
  have rates : ∀ s, execLoad p 5 0x1000 s = some (s.write 5 rate s.job.flags) :=
    fun s => execLoad_of_word s 5 (running.rate _) rfl
  refine running.loaded.goes_block 0 start ⟨_, rfl⟩ here ?_
  intro regs flags known
  simp at known rates on
  simp [start, running.xdp, running.size, target, known, rates, on, PacketInput.len, Field.PKT_LEN]

theorem lookup_goes (here : At 6 [(15, 0), (4, input.len), (5, rate)] mem 0 log s) :
    Goes (jobStep p input) 6 s (At (if mem 2 = 0 then 12 else 21)
        [(15, 0), (4, input.len), (5, rate), (6, cap), (7, now input)] mem 0 log) := by
  have target : labels source .have_bucket = some 21 := rfl
  have caps : ∀ s, execLoad p 6 0x1004 s = some (s.write 6 cap s.job.flags) :=
    fun s => execLoad_of_word s 6 (running.cap _) rfl
  refine running.loaded.goes_block 6 lookup ⟨_, rfl⟩ here ?_
  intro regs flags known
  simp at known caps
  by_cases fresh : mem 2#6 = 0#32
  · simp [lookup, running.size, target, known, caps, fresh, now]
  · simp [lookup, running.size, target, known, caps, fresh, now]

theorem firstPacket_goes (here : At 12 [(15, 0), (4, input.len), (5, rate), (6, cap), (7, now input)] mem 0 log s) :
    Goes (jobStep p input) 4 s
      (At 16 [(15, 0), (3, if cap < input.len then 0 else cap - input.len), (7, now input)]
        mem 0 log) := by
  have target : labels source .first_ok = some 16 := rfl
  by_cases short : cap < input.len
  · have borrow : subBorrow cap input.len = true := decide_eq_true short
    have subtracts : Goes (jobStep p input) 3 s (At 15 [(15, 0), (7, now input)] mem 0 log) := by
      refine running.loaded.goes_block 12 firstPacket ⟨_, rfl⟩ here ?_
      intro regs flags known
      simp at known
      simp [firstPacket, running.size, target, known, borrow]
    refine subtracts.trans (b := 1) ?_
    intro t there
    refine running.loaded.goes_block 15 emptied ⟨_, rfl⟩ there ?_
    intro regs flags known
    simp at known
    simp [emptied, known, short]
  · have borrow : subBorrow cap input.len = false := decide_eq_false short
    refine Goes.weaken (a := 3) (running.loaded.goes_block 12 firstPacket ⟨_, rfl⟩ here ?_)
      (by decide) (fun t there => there)
    intro regs flags known
    simp at known
    simp [firstPacket, running.size, target, known, borrow, short]

end

variable {add q tokens : Word}

theorem create_goes (running : Running rate cap p)
    (here : At 16 [(15, 0), (3, tokens), (7, now input)] mem 0 log s) : Goes (jobStep p input) 5 s
      (At 59 [] (Function.update (Function.update (Function.update mem 0 tokens) 1 (now input)) 2 1)
        0 log) := by
  have target : labels source .pass = some 59 := rfl
  refine running.loaded.goes_block 16 create ⟨_, rfl⟩ here ?_
  intro regs flags known
  simp at known
  simp [create, running.size, target, known, branchTaken]

theorem idle_goes (running : Running rate cap p)
    (here : At 21 [(15, 0), (4, input.len), (5, rate), (6, cap), (7, now input)] mem 0 log s) :
    Goes (jobStep p input) 6 s (At (if input.fields Field.IAT_BUCKET < 22 then 30 else 27)
        [(15, 0), (4, input.len), (5, rate), (6, cap), (7, now input), (3, mem 0)] mem 0 log) := by
  have target : labels source .refill = some 30 := rfl
  refine running.loaded.goes_block 21 idle ⟨_, rfl⟩ here ?_
  intro regs flags known
  simp at known
  by_cases recent : input.fields 7 < 22#32
  · have borrow : subBorrow (input.fields 7) 22#32 = true := decide_eq_true recent
    simp [idle, running.xdp, running.size, target, known, recent, borrow, Field.IAT_BUCKET]
  · have borrow : subBorrow (input.fields 7) 22#32 = false := decide_eq_false recent
    simp [idle, running.xdp, running.size, target, known, recent, borrow, Field.IAT_BUCKET]

theorem fill_goes {pc : Half} (running : Running rate cap p) (place : pc = 27 ∨ pc = 45)
    (here : At pc [(15, 0), (4, input.len), (6, cap), (7, now input)] mem 0 log s) :
    Goes (jobStep p input) 3 s
      (At 54 [(15, 0), (4, input.len), (3, cap)] (Function.update mem 1 (now input)) 0 log) := by
  have target : labels source .check = some 54 := rfl
  rcases place with rfl | rfl
  · refine running.loaded.goes_block 27 fill ⟨_, rfl⟩ here ?_
    intro regs flags known
    simp at known
    simp [fill, running.size, target, known, branchTaken]
  · refine running.loaded.goes_block 45 fill ⟨_, rfl⟩ here ?_
    intro regs flags known
    simp at known
    simp [fill, running.size, target, known, branchTaken]

def quantaOf (elapsed : Word) : Word := mulHighSigned (elapsed >>> 6) RECIPROCAL >>> 3

section

variable (running : Running rate cap p)
include running

theorem quanta_goes (here : At 30 [(15, 0), (4, input.len), (5, rate), (6, cap), (7, now input), (3, tokens)] mem 0 log s) :
    Goes (jobStep p input) 11 s (At (if quantaOf (now input - mem 1) * rate = 0 then 54 else 41)
        [(15, 0), (4, input.len), (6, cap), (7, now input), (3, tokens),
          (8, quantaOf (now input - mem 1) * rate), (9, quantaOf (now input - mem 1))]
        mem 0 log) := by
  have target : labels source .check = some 54 := rfl
  have multiplier : ∀ s, execLoad p 2 0x1008 s = some (s.write 2 RECIPROCAL s.job.flags) :=
    fun s => execLoad_of_word s 2 (running.reciprocal _) rfl
  have six : shamt 6#32 = 6 := rfl
  have three : shamt 3#32 = 3 := rfl
  refine running.loaded.goes_block 30 quanta ⟨_, rfl⟩ here ?_
  intro regs flags known
  simp at known multiplier
  by_cases none : quantaOf (now input - mem 1#6) * rate = 0#32
  · simp [quanta, running.size, target, known, multiplier, six, three, ← quantaOf.eq_1, none]
  · simp [quanta, running.size, target, known, multiplier, six, three, ← quantaOf.eq_1, none]

theorem room_goes (here : At 41 [(15, 0), (4, input.len), (6, cap), (7, now input), (3, tokens), (8, add),
      (9, q)] mem 0 log s) :
    Goes (jobStep p input) 4 s (At (if add < cap - tokens then 48 else 45)
        [(15, 0), (4, input.len), (6, cap), (7, now input), (3, tokens), (8, add), (9, q)]
        mem 0 log) := by
  have target : labels source .add_some = some 48 := rfl
  refine running.loaded.goes_block 41 room ⟨_, rfl⟩ here ?_
  intro regs flags known
  simp at known
  by_cases below : add < cap - tokens
  · have borrow : subBorrow add (cap - tokens) = true := decide_eq_true below
    simp [room, running.size, target, known, below, borrow]
  · have borrow : subBorrow add (cap - tokens) = false := decide_eq_false below
    simp [room, running.size, target, known, below, borrow]

theorem addSome_goes (here : At 48 [(15, 0), (4, input.len), (6, cap), (7, now input), (3, tokens), (8, add),
      (9, q)] mem 0 log s) :
    Goes (jobStep p input) 6 s (At 54 [(15, 0), (4, input.len), (3, tokens + add)]
        (Function.update mem 1 (mem 1 + q * 8000)) 0 log) := by
  refine running.loaded.goes_block 48 addSome ⟨_, rfl⟩ here ?_
  intro regs flags known
  simp at known
  simp [addSome, known]

theorem check_goes (here : At 54 [(15, 0), (4, input.len), (3, tokens)] mem 0 log s) : Goes (jobStep p input) 3 s
      (At (if tokens < input.len then 61 else 57) [(15, 0), (4, input.len), (3, tokens)]
        (Function.update mem 0 tokens) 0 log) := by
  have target : labels source .drop = some 61 := rfl
  refine running.loaded.goes_block 54 check ⟨_, rfl⟩ here ?_
  intro regs flags known
  simp at known
  by_cases short : tokens < input.len
  · have borrow : subBorrow tokens input.len = true := decide_eq_true short
    simp [check, running.size, target, known, short, borrow]
  · have borrow : subBorrow tokens input.len = false := decide_eq_false short
    simp [check, running.size, target, known, short, borrow]

theorem admit_goes (here : At 57 [(15, 0), (4, input.len), (3, tokens)] mem 0 log s) :
    Goes (jobStep p input) 2 s (At 59 [] (Function.update mem 0 (tokens - input.len)) 0 log) := by
  refine running.loaded.goes_block 57 admitPacket ⟨_, rfl⟩ here ?_
  intro regs flags known
  simp at known
  simp [admitPacket, known]

end

/-! ## One packet, in words -/

/-- The run ended in this verdict, leaving this window. -/
structure Ended (code : Byte) (mem : BitVec 6 → Word) (r : Step × Progress) : Prop where
  result : r.1 = .verdict code
  mem : r.2.job.mem = mem

theorem pass_ends (running : Running rate cap p) (here : At 59 [] mem 0 log s) :
    Ends (jobStep p input) 2 s (Ended Verdict.PASS mem) := by
  have passes : Goes (jobStep p input) 1 s (At 60 [(1, 0)] mem 0 log) := by
    refine running.loaded.goes_block 59 pass ⟨_, rfl⟩ here ?_
    intro regs flags known
    simp [pass]
  refine Ends.after_goes (b := 1) passes ?_
  intro t there
  obtain ⟨pc, known, rfl, -, -⟩ := there
  have code : t.job.regs 1 = 0 := known (1, 0) (by simp)
  refine running.loaded.verdict_ends running.xdp (by rw [pc]; rfl) (Or.inl code) ?_
  rw [code]
  exact ⟨rfl, rfl⟩

theorem drop_ends (running : Running rate cap p) (here : At 61 [] mem 0 log s) :
    Ends (jobStep p input) 2 s (Ended Verdict.DROP mem) := by
  have drops : Goes (jobStep p input) 1 s (At 62 [(1, 1)] mem 0 log) := by
    refine running.loaded.goes_block 61 drop ⟨_, rfl⟩ here ?_
    intro regs flags known
    simp [drop]
  refine Ends.after_goes (b := 1) drops ?_
  intro t there
  obtain ⟨pc, known, rfl, -, -⟩ := there
  have code : t.job.regs 1 = 1 := known (1, 1) (by simp)
  refine running.loaded.verdict_ends running.xdp (by rw [pc]; rfl) (Or.inr code) ?_
  rw [code]
  exact ⟨rfl, rfl⟩

/-- The bucket in the flow window. -/
structure Stored where
  tokens : Word
  last : Word

/-- The refill that the instructions compute. -/
def refillWords (rate cap : Word) (input : PacketInput) (b : Stored) : Stored :=
  if input.fields Field.IAT_BUCKET < 22 then
    let q := quantaOf (now input - b.last)
    if q * rate = 0 then b
    else if q * rate < cap - b.tokens then ⟨b.tokens + q * rate, b.last + q * 8000⟩
    else ⟨cap, now input⟩
  else ⟨cap, now input⟩

theorem refillWords_cases (rate cap : Word) (input : PacketInput) (b : Stored) :
    (¬ input.fields Field.IAT_BUCKET < 22 ∧ refillWords rate cap input b = ⟨cap, now input⟩) ∨
      input.fields Field.IAT_BUCKET < 22 ∧
        ((quantaOf (now input - b.last) * rate = 0 ∧ refillWords rate cap input b = b) ∨
          quantaOf (now input - b.last) * rate ≠ 0 ∧
            ((quantaOf (now input - b.last) * rate < cap - b.tokens ∧ refillWords rate cap input b =
                  ⟨b.tokens + quantaOf (now input - b.last) * rate,
                    b.last + quantaOf (now input - b.last) * 8000⟩) ∨
              ¬ quantaOf (now input - b.last) * rate < cap - b.tokens ∧
                refillWords rate cap input b = ⟨cap, now input⟩)) := by
  unfold refillWords
  by_cases recent : input.fields Field.IAT_BUCKET < 22
  · right
    rw [if_pos recent]
    refine ⟨recent, ?_⟩
    by_cases none : quantaOf (now input - b.last) * rate = 0
    · left
      exact ⟨none, if_pos none⟩
    · right
      rw [if_neg none]
      refine ⟨none, ?_⟩
      by_cases below : quantaOf (now input - b.last) * rate < cap - b.tokens
      · left
        exact ⟨below, if_pos below⟩
      · right
        exact ⟨below, if_neg below⟩
  · left
    exact ⟨recent, if_neg recent⟩

section

variable (running : Running rate cap p)
  (here : At 21 [(15, 0), (4, input.len), (5, rate), (6, cap), (7, now input)] mem 0 log s)
include running here

theorem refill_goes : Goes (jobStep p input) 27 s
      (At 54 [(15, 0), (4, input.len), (3, (refillWords rate cap input ⟨mem 0, mem 1⟩).tokens)]
        (Function.update mem 1 (refillWords rate cap input ⟨mem 0, mem 1⟩).last) 0 log) := by
  have first := idle_goes running here
  rcases refillWords_cases rate cap input ⟨mem 0, mem 1⟩ with
    ⟨idle, words⟩ | ⟨recent, ⟨none, words⟩ | ⟨some, ⟨below, words⟩ | ⟨reached, words⟩⟩⟩
  · rw [words]
    rw [if_neg idle] at first
    refine (first.trans fun t there =>
      fill_goes running (Or.inl rfl) (there.forget (by simp))).weaken (by decide) ?_
    exact fun u last => last
  · rw [words, Function.update_eq_self]
    rw [if_pos recent] at first
    have counted := first.trans fun t there => quanta_goes running there
    rw [if_pos none] at counted
    exact counted.weaken (by decide) fun u there => there.forget (by simp)
  · rw [words]
    rw [if_pos recent] at first
    have counted := first.trans fun t there => quanta_goes running there
    rw [if_neg some] at counted
    have measured := counted.trans fun t there => room_goes running there
    rw [if_pos below] at measured
    exact measured.trans fun t there => addSome_goes running there
  · rw [words]
    rw [if_pos recent] at first
    have counted := first.trans fun t there => quanta_goes running there
    rw [if_neg some] at counted
    have measured := counted.trans fun t there => room_goes running there
    rw [if_neg reached] at measured
    refine (measured.trans fun t there =>
      fill_goes running (Or.inr rfl) (there.forget (by simp))).weaken (by decide) ?_
    exact fun u last => last

theorem existing_ends :
    Ends (jobStep p input) 34 s
      (if (refillWords rate cap input ⟨mem 0, mem 1⟩).tokens < input.len then
        Ended Verdict.DROP
          (Function.update (Function.update mem 1 (refillWords rate cap input ⟨mem 0, mem 1⟩).last)
            0 (refillWords rate cap input ⟨mem 0, mem 1⟩).tokens)
      else
        Ended Verdict.PASS
          (Function.update (Function.update mem 1 (refillWords rate cap input ⟨mem 0, mem 1⟩).last)
            0 ((refillWords rate cap input ⟨mem 0, mem 1⟩).tokens - input.len))) := by
  refine Ends.after_goes (a := 30) (b := 4) ((refill_goes running here).trans
    fun t there => check_goes running there) ?_
  intro t there
  generalize refillWords rate cap input ⟨mem 0, mem 1⟩ = b at there ⊢
  by_cases short : b.tokens < input.len
  · rw [if_pos short] at there ⊢
    exact (drop_ends running (there.forget (by simp))).weaken (by decide) fun r post => post
  · rw [if_neg short] at there ⊢
    have admits := Ends.after_goes (admit_goes running there) fun u last => pass_ends running last
    rwa [Function.update_idem] at admits

end

theorem first_ends (running : Running rate cap p)
    (here : At 12 [(15, 0), (4, input.len), (5, rate), (6, cap), (7, now input)] mem 0 log s) :
    Ends (jobStep p input) 11 s (Ended Verdict.PASS
      (Function.update (Function.update (Function.update mem 0
        (if cap < input.len then 0 else cap - input.len)) 1 (now input)) 2 1)) :=
  Ends.after_goes (a := 9) ((firstPacket_goes running here).trans
    fun _ there => create_goes running there) fun _ there => pass_ends running there

end Blocks

/-! ## Exact arithmetic -/

theorem toNat_mulHighSigned {a b : Word} (low : a.toNat < 2 ^ 31) (low' : b.toNat < 2 ^ 31) :
    (mulHighSigned a b).toNat = a.toNat * b.toNat / 2 ^ 32 := by
  have sign : a.msb = false := by
    rw [msb_eq_decide]
    exact decide_eq_false (by omega)
  have sign' : b.msb = false := by
    rw [msb_eq_decide]
    exact decide_eq_false (by omega)
  have bound := Nat.mul_lt_mul'' low low'
  have product : (a.signExtend 64 * b.signExtend 64).toNat = a.toNat * b.toNat := by
    rw [signExtend_eq_setWidth_of_msb_false sign,
      signExtend_eq_setWidth_of_msb_false sign', toNat_mul, toNat_setWidth,
      toNat_setWidth, Nat.mod_eq_of_lt (by omega : a.toNat < 2 ^ 64),
      Nat.mod_eq_of_lt (by omega : b.toNat < 2 ^ 64), Nat.mod_eq_of_lt (by omega)]
  have positive : (a.signExtend 64 * b.signExtend 64).msb = false := by
    rw [msb_eq_decide]
    exact decide_eq_false (by omega)
  rw [mulHighSigned, sshiftRight_eq_of_msb_false positive, toNat_setWidth, toNat_ushiftRight]
  omega

theorem toNat_quantaOf (elapsed : Word) : (quantaOf elapsed).toNat = elapsed.toNat / 8000 := by
  have shifted : (elapsed >>> 6).toNat = elapsed.toNat / 64 := by
    rw [toNat_ushiftRight, Nat.shiftRight_eq_div_pow]
  have multiplier : RECIPROCAL.toNat = 274877907 := rfl
  rw [quantaOf, toNat_ushiftRight, toNat_mulHighSigned (by omega) (by decide), multiplier]
  omega

theorem iatBucket_lt (iatNs : BitVec 64) :
    iatBucket iatNs < 22 ↔ iatNs.toNat / 1000 + 1 < 2 ^ 22 := by
  have limit : (22 : Word).toNat = 22 := rfl
  have nonzero : iatNs.toNat / 1000 + 1 ≠ 0 := Nat.succ_ne_zero _
  rw [lt_def, toNat_iatBucket, ← Nat.log2_lt nonzero]
  omega

/-! ## The oracle -/

open Qos

/-- The verdicts and the remaining tokens of the token bucket, packet by packet:
the first packet of a flow is admitted, every later one is admitted when it fits
after the refill. -/
def oracle (rate cap : U64) : Option TokenBucket → List (U64 × U64) → List (Bool × U64)
  | _, [] => []
  | none, (now, pktBytes) :: rest =>
    let b := TokenBucket.created cap now pktBytes
    (true, b.tokens) :: oracle rate cap (some b) rest
  | some b, (now, pktBytes) :: rest =>
    let r := b.packet rate cap now pktBytes
    (r.1, r.2.tokens) :: oracle rate cap (some r.2) rest

/-- The window words hold the bucket `b`, paid for up to less than a quantum
before `seen`. -/
structure Tracks (cap : Nat) (b : Bucket) (seen : Nat) (stored : Stored) : Prop where
  tokens : stored.tokens.toNat = b.tokens
  last : stored.last.toNat = b.last % 2 ^ 32
  fits : b.tokens ≤ cap
  early : b.last ≤ seen
  recent : seen < b.last + 8000

/-- The rules for the parameters in the header of the file. -/
structure Rules (rate cap : Word) : Prop where
  positive : 1 ≤ rate.toNat
  small : rate.toNat ≤ 8000
  burst : cap.toNat ≤ 524287 * rate.toNat

section Refill

variable {rate cap : Word} {b : Bucket} {seen : U64} {stored : Stored} {input : PacketInput}

theorem toNat_now (input : PacketInput) : (now input).toNat = input.nowNs.toNat % 2 ^ 32 :=
  toNat_setWidth 32 input.nowNs

theorem Tracks.full (cap : Word) (input : PacketInput) :
    Tracks cap.toNat ⟨cap.toNat, input.nowNs.toNat⟩ input.nowNs.toNat ⟨cap, now input⟩ :=
  ⟨rfl, toNat_now input, Nat.le_refl _, Nat.le_refl _, Nat.lt_add_of_pos_right (by decide)⟩

theorem refill_idle (rules : Rules rate cap) (early : b.last ≤ seen.toNat)
    (later : seen.toNat ≤ input.nowNs.toNat) (idle : ¬ iatBucket (input.nowNs - seen) < 22) :
    b.refill 8000 rate.toNat cap.toNat input.nowNs.toNat = ⟨cap.toNat, input.nowNs.toNat⟩ := by
  have gap := toNat_sub_of_le (le_def.mpr later)
  rw [iatBucket_lt] at idle
  have many : 524287 ≤ (input.nowNs.toNat - b.last) / 8000 := by omega
  have enough : 524287 * rate.toNat ≤ (input.nowNs.toNat - b.last) / 8000 * rate.toNat :=
    Nat.mul_le_mul_right _ many
  have burst := rules.burst
  rw [Bucket.refill, if_neg (by omega), if_pos (by omega)]

variable (rules : Rules rate cap) (tracks : Tracks cap.toNat b seen.toNat stored)
  (later : seen.toNat ≤ input.nowNs.toNat)
include rules tracks later

theorem quanta_exact (recent : iatBucket (input.nowNs - seen) < 22) :
    (quantaOf (now input - stored.last)).toNat = (input.nowNs.toNat - b.last) / 8000 ∧
      (quantaOf (now input - stored.last) * rate).toNat =
        (input.nowNs.toNat - b.last) / 8000 * rate.toNat ∧ input.nowNs.toNat - b.last < 2 ^ 32 := by
  have gap := toNat_sub_of_le (le_def.mpr later)
  have early := tracks.early
  have close := tracks.recent
  rw [iatBucket_lt] at recent
  have elapsed : (now input - stored.last).toNat = input.nowNs.toNat - b.last := by
    rw [toNat_sub, toNat_now, tracks.last]
    omega
  have counted : (quantaOf (now input - stored.last)).toNat =
      (input.nowNs.toNat - b.last) / 8000 := by
    rw [toNat_quantaOf, elapsed]
  have bound : (input.nowNs.toNat - b.last) / 8000 * rate.toNat ≤ 524289 * 8000 :=
    Nat.mul_le_mul (by omega) rules.small
  refine ⟨counted, ?_, by omega⟩
  rw [toNat_mul, counted]
  exact Nat.mod_eq_of_lt (by omega)

theorem refillWords_tracks (iat : input.fields Field.IAT_BUCKET = iatBucket (input.nowNs - seen)) :
    Tracks cap.toNat (b.refill 8000 rate.toNat cap.toNat input.nowNs.toNat) input.nowNs.toNat
      (refillWords rate cap input stored) := by
  have positive := rules.positive
  have tokens := tracks.tokens
  have fits := tracks.fits
  have early := tracks.early
  have room : (cap - stored.tokens).toNat = cap.toNat - b.tokens := by
    rw [← tokens]
    exact toNat_sub_of_le (le_def.mpr (by omega))
  have cases := refillWords_cases rate cap input stored
  rw [iat] at cases
  rcases cases with
    ⟨idle, words⟩ | ⟨recent, ⟨none, words⟩ | ⟨some, ⟨below, words⟩ | ⟨reached, words⟩⟩⟩
  · rw [words, refill_idle rules early later idle]
    exact .full cap input
  · obtain ⟨-, credit, -⟩ := quanta_exact rules tracks later recent
    have zero := congrArg BitVec.toNat none
    rw [credit] at zero
    have unpaid : (input.nowNs.toNat - b.last) / 8000 = 0 := by
      rcases Nat.mul_eq_zero.mp zero with quanta | rate
      · exact quanta
      · omega
    rw [words, Bucket.refill, if_pos unpaid]
    exact ⟨tokens, tracks.last, fits, by omega, by omega⟩
  · obtain ⟨counted, credit, short⟩ := quanta_exact rules tracks later recent
    have some : (input.nowNs.toNat - b.last) / 8000 ≠ 0 := by
      intro zero
      rw [zero, Nat.zero_mul] at credit
      exact some (eq_of_toNat_eq credit)
    rw [lt_def] at below
    have eight : (8000 : Word).toNat = 8000 := rfl
    rw [words, Bucket.refill, if_neg some, if_neg (by omega)]
    constructor
    · rw [toNat_add, credit, tokens]
      exact Nat.mod_eq_of_lt (by omega)
    · dsimp only
      rw [toNat_add, toNat_mul, eight, tracks.last]
      omega
    · dsimp only
      omega
    · dsimp only
      omega
    · dsimp only
      omega
  · obtain ⟨counted, credit, short⟩ := quanta_exact rules tracks later recent
    have some : (input.nowNs.toNat - b.last) / 8000 ≠ 0 := by
      intro zero
      rw [zero, Nat.zero_mul] at credit
      exact some (eq_of_toNat_eq credit)
    rw [lt_def] at reached
    rw [words, Bucket.refill, if_neg some, if_pos (by omega)]
    exact .full cap input

end Refill

/-! ## Flow metadata -/

section Meta

variable (sim : FlowMetaSim) (nowNs : U64) (base : Fields)

theorem packet_len : (sim.packet nowNs base).1.len = base Field.PKT_LEN := by
  simp [packet, PacketInput.len, Field.PKT_LEN, Field.IAT_BUCKET, Field.FLOW_PKT_COUNT,
    Field.FLOW_BYTE_COUNT]

theorem packet_nowNs : (sim.packet nowNs base).1.nowNs = nowNs := rfl

theorem packet_iat (started : sim.pkts ≠ 0) :
    (sim.packet nowNs base).1.fields Field.IAT_BUCKET = iatBucket (nowNs - sim.lastNs) := by
  unfold packet
  dsimp only
  rw [if_neg started]
  simp [Field.IAT_BUCKET, Field.FLOW_PKT_COUNT, Field.FLOW_BYTE_COUNT]

theorem packet_pkts : (sim.packet nowNs base).2.pkts ≠ 0 := by
  unfold packet
  split
  next => exact (by decide : (1 : Word) ≠ 0)
  next =>
    dsimp only
    unfold saturatingAdd
    split
    next => decide
    next below =>
      intro zero
      have value := congrArg BitVec.toNat zero
      rw [toNat_add, Nat.mod_eq_of_lt (Nat.lt_of_not_le below)] at value
      exact absurd value (Nat.succ_ne_zero _)

end Meta

/-! ## Packets -/

section Packets

variable {rate cap : Word} {img : Image} {st : CartState} {input : PacketInput}

abbrev Limiter (rate cap : Word) (img : Image) : Prop :=
  Built STAGE_XDP source [rate, cap, RECIPROCAL] (insnCap STAGE_XDP) 0 img

section

variable (built : Limiter rate cap img)
include built

theorem running_of_built : Running rate cap img.cartridge := by
  have data := built.data
  refine ⟨built.loaded, built.stage, ?_, ?_, ?_⟩
  all_goals
    intro st
    simp [Cartridge.loadWord, Image.cartridge, Image.cfg, data, DATA_BASE]

theorem runPacket_ended {n : Nat} (short : n ≤ 64) {code : Byte} {mem : BitVec 6 → Word}
    (ends : Ends (jobStep img.cartridge input) n ⟨(beginRun st img.entry).job, Log.empty⟩
      (Ended code mem)) : (runPacket img st input).1.step = some (.verdict code) ∧
      (runPacket img st input).2.mem = mem := by
  have budget : n ≤ img.maxInsn.toNat := by
    rw [built.maxInsn]
    exact short
  obtain ⟨result, final, ⟨verdict, left⟩, outcome, job⟩ :=
    runPacket_of_ends built.stage short budget ends
  dsimp only at verdict left
  have window : (runPacket img st input).2.mem = final.job.mem := congrArg Job.mem job
  rw [outcome, window, verdict, left]
  exact ⟨rfl, rfl⟩

theorem begin_goes (on : rate ≠ 0) :
    Goes (jobStep img.cartridge input) 12 ⟨(beginRun st img.entry).job, Log.empty⟩
      (At (if st.mem 2 = 0 then 12 else 21)
        [(15, 0), (4, input.len), (5, rate), (6, cap), (7, now input)] st.mem 0 Log.empty) := by
  have running := running_of_built built
  have here : At 0 [(15, 0)] st.mem 0 Log.empty ⟨(beginRun st img.entry).job, Log.empty⟩ :=
    ⟨built.entry, by simp [beginRun, CartState.job], rfl, rfl, rfl⟩
  exact (start_goes running on here).trans fun t there => lookup_goes running there

theorem runPacket_first (on : rate ≠ 0) (fresh : st.mem 2 = 0) :
    (runPacket img st input).1.step = some (.verdict Verdict.PASS) ∧
      (runPacket img st input).2.mem = Function.update (Function.update (Function.update st.mem 0
        (if cap < input.len then 0 else cap - input.len)) 1 (now input)) 2 1 := by
  have begins := @begin_goes _ _ _ st input built on
  rw [if_pos fresh] at begins
  exact runPacket_ended built (by decide : 23 ≤ 64)
    (Ends.after_goes begins fun t there => first_ends (running_of_built built) there)

theorem runPacket_later (on : rate ≠ 0) (marked : st.mem 2 ≠ 0) :
    let r := refillWords rate cap input ⟨st.mem 0, st.mem 1⟩
    (runPacket img st input).1.step =
        some (.verdict (if r.tokens < input.len then Verdict.DROP else Verdict.PASS)) ∧
      (runPacket img st input).2.mem = Function.update (Function.update st.mem 1 r.last) 0
        (if r.tokens < input.len then r.tokens else r.tokens - input.len) := by
  intro r
  have begins := @begin_goes _ _ _ st input built on
  rw [if_neg marked] at begins
  have ends := Ends.after_goes begins fun t there => existing_ends (running_of_built built) there
  by_cases short : r.tokens < input.len
  · rw [if_pos short] at ends ⊢
    rw [if_pos short]
    exact runPacket_ended built (by decide) ends
  · rw [if_neg short] at ends ⊢
    rw [if_neg short]
    exact runPacket_ended built (by decide) ends

end

/-! ## Flows -/

/-- What the state of a flow and its metadata say about the bucket of the oracle. -/
def Follows (cap : Word) (sim : FlowMetaSim) (st : CartState) : Option TokenBucket → Prop
  | none => st.mem 2 = 0
  | some b => st.mem 2 ≠ 0 ∧ sim.pkts ≠ 0 ∧
      Tracks cap.toNat b.exact sim.lastNs.toNat ⟨st.mem 0, st.mem 1⟩

def answer (r : Bool × U64) : Option Step × U64 :=
  (some (.verdict (if r.1 then Verdict.PASS else Verdict.DROP)), r.2)

def answered (ran : Outcome × CartState) : Option Step × U64 :=
  (ran.1.step, (ran.2.mem 0).setWidth 64)

theorem toNat_widen (v : Word) : (v.setWidth 64).toNat = v.toNat := by
  rw [toNat_setWidth]
  omega

theorem toNat_saturating (a b : Word) : (if a < b then 0 else a - b).toNat = a.toNat - b.toNat := by
  split
  next less => exact (Nat.sub_eq_zero_of_le (Nat.le_of_lt less)).symm
  next more => exact toNat_sub_of_le (BitVec.not_lt.mp more)

theorem Rules.on (rules : Rules rate cap) : rate ≠ 0 := by
  rintro rfl
  exact absurd rules.positive (by decide)

theorem first_follows (built : Limiter rate cap img) (rules : Rules rate cap) (sim : FlowMetaSim)
    (nowNs : U64) (base : Fields) (follows : Follows cap sim st none) :
    let b := TokenBucket.created (cap.setWidth 64) nowNs ((base Field.PKT_LEN).setWidth 64)
    let ran := runPacket img st (sim.packet nowNs base).1
    answered ran = answer (true, b.tokens) ∧
      Follows cap (sim.packet nowNs base).2 ran.2 (some b) := by
  intro b ran
  have on := rules.on
  obtain ⟨step, mem⟩ := @runPacket_first _ _ _ _ (sim.packet nowNs base).1 built on follows
  rw [packet_len] at mem
  have tokens : ran.2.mem 0 =
      if cap < base Field.PKT_LEN then 0 else cap - base Field.PKT_LEN := by
    rw [mem]
    simp
  have last : ran.2.mem 1 = nowNs.setWidth 32 := by
    rw [mem]
    simp [now, packet_nowNs]
  have mark : ran.2.mem 2 = 1 := by
    rw [mem]
    simp
  have value : (ran.2.mem 0).toNat = cap.toNat - (base Field.PKT_LEN).toNat := by
    rw [tokens]
    exact toNat_saturating cap (base Field.PKT_LEN)
  have left : b.tokens.toNat = cap.toNat - (base Field.PKT_LEN).toNat := by
    refine (toNat_saturatingSub _ _).trans ?_
    rw [toNat_widen, toNat_widen]
  refine ⟨?_, ?_, packet_pkts sim nowNs base, ?_⟩
  · have same : (ran.2.mem 0).setWidth 64 = b.tokens := by
      apply eq_of_toNat_eq
      rw [toNat_widen, value, left]
    exact Prod.ext step same
  · rw [mark]
    decide
  · constructor
    · exact value.trans left.symm
    · rw [last]
      exact toNat_setWidth 32 nowNs
    · exact left.le.trans (Nat.sub_le _ _)
    · exact Nat.le_refl _
    · exact Nat.lt_add_of_pos_right (by decide)

/-- A later packet. -/
theorem later_follows (built : Limiter rate cap img) (rules : Rules rate cap) (sim : FlowMetaSim)
    {b : TokenBucket} {nowNs : U64} (later : sim.lastNs ≤ nowNs) (base : Fields)
    (follows : Follows cap sim st (some b)) :
    let r := b.packet (rate.setWidth 64) (cap.setWidth 64) nowNs ((base Field.PKT_LEN).setWidth 64)
    let ran := runPacket img st (sim.packet nowNs base).1
    answered ran = answer (r.1, r.2.tokens) ∧
      Follows cap (sim.packet nowNs base).2 ran.2 (some r.2) := by
  intro r ran
  obtain ⟨mark, started, tracks⟩ := follows
  obtain ⟨step, mem⟩ := @runPacket_later _ _ _ _ (sim.packet nowNs base).1 built rules.on mark
  have words := refillWords_tracks rules tracks (le_def.mp later)
    (packet_iat sim nowNs base started)
  have exact := TokenBucket.refilled_exact (cap.setWidth 64)
    ((toNat_widen rate).symm ▸ rules.positive) b nowNs
  rw [toNat_widen, toNat_widen] at exact
  rw [packet_nowNs, ← exact] at words
  rw [packet_len] at step mem
  generalize refillWords rate cap (sim.packet nowNs base).1 ⟨st.mem 0, st.mem 1⟩ = w at *
  have last : ran.2.mem 1 = w.last := by
    rw [mem]
    simp
  have marked : ran.2.mem 2 ≠ 0 := by
    rw [mem]
    simpa using mark
  have tokens : ran.2.mem 0 =
      if w.tokens < base Field.PKT_LEN then w.tokens else w.tokens - base Field.PKT_LEN := by
    rw [mem]
    simp
  have value : w.tokens.toNat =
      (b.refilled (rate.setWidth 64) (cap.setWidth 64) nowNs).tokens.toNat := words.tokens
  have compares : (b.refilled (rate.setWidth 64) (cap.setWidth 64) nowNs).tokens <
      (base Field.PKT_LEN).setWidth 64 ↔ w.tokens < base Field.PKT_LEN := by
    rw [lt_def, lt_def, toNat_widen, value]
  by_cases short : w.tokens < base Field.PKT_LEN
  · have result : r = (false, b.refilled (rate.setWidth 64) (cap.setWidth 64) nowNs) :=
      if_pos (compares.mpr short)
    rw [if_pos short] at step tokens
    rw [result]
    refine ⟨Prod.ext step ?_, marked, packet_pkts sim nowNs base, ?_⟩
    · apply eq_of_toNat_eq
      change ((ran.2.mem 0).setWidth 64).toNat = _
      rw [toNat_widen, tokens, value]
      rfl
    · rw [tokens, last]
      exact words
  · have fits := le_def.mp (BitVec.not_lt.mp short)
    have result : r = (true, { b.refilled (rate.setWidth 64) (cap.setWidth 64) nowNs with
        tokens := (b.refilled (rate.setWidth 64) (cap.setWidth 64) nowNs).tokens -
          (base Field.PKT_LEN).setWidth 64 }) :=
      if_neg (fun less => short (compares.mp less))
    have spent : ((b.refilled (rate.setWidth 64) (cap.setWidth 64) nowNs).tokens -
        (base Field.PKT_LEN).setWidth 64).toNat = w.tokens.toNat - (base Field.PKT_LEN).toNat := by
      rw [toNat_sub_of_le (le_def.mpr (by rw [← value]; exact fits)), toNat_widen, ← value]
    have left : (ran.2.mem 0).toNat = w.tokens.toNat - (base Field.PKT_LEN).toNat := by
      rw [tokens, if_neg short, toNat_sub_of_le (BitVec.not_lt.mp short)]
    rw [if_neg short] at step
    rw [result]
    refine ⟨Prod.ext step ?_, marked, packet_pkts sim nowNs base, ?_⟩
    · apply eq_of_toNat_eq
      change ((ran.2.mem 0).setWidth 64).toNat = _
      rw [toNat_widen, left]
      exact spent.symm
    · constructor
      · exact left.trans spent.symm
      · rw [last]
        exact words.last
      · exact spent.le.trans ((Nat.sub_le _ _).trans (value.le.trans words.fits))
      · exact words.early
      · exact words.recent

def requests (packets : List (U64 × Fields)) : List (U64 × U64) :=
  packets.map fun packet => (packet.1, (packet.2 Field.PKT_LEN).setWidth 64)

theorem flow_follows (built : Limiter rate cap img) (rules : Rules rate cap)
    {sim : FlowMetaSim} {bucket : Option TokenBucket} {packets : List (U64 × Fields)}
    (ordered : packets.Pairwise fun first second => first.1 ≤ second.1)
    (later : bucket ≠ none → ∀ packet ∈ packets, sim.lastNs ≤ packet.1)
    (follows : Follows cap sim st bucket) : (runFlow img st (sim.inputs packets)).map answered =
      (oracle (rate.setWidth 64) (cap.setWidth 64) bucket (requests packets)).map answer := by
  induction packets generalizing sim st bucket with
  | nil => cases bucket <;> rfl
  | cons packet rest ih =>
    obtain ⟨nowNs, base⟩ := packet
    obtain ⟨after, ordered⟩ := List.pairwise_cons.mp ordered
    cases bucket with
    | none =>
      obtain ⟨same, next⟩ := first_follows built rules sim nowNs base follows
      exact congrArg₂ List.cons same (ih ordered (fun _ => after) next)
    | some b =>
      have here := later (Option.some_ne_none b) (nowNs, base) List.mem_cons_self
      obtain ⟨same, next⟩ := later_follows built rules sim here base follows
      exact congrArg₂ List.cons same (ih ordered (fun _ => after) next)

end Packets

theorem builds (rate cap : Word) :
    ∃ img, buildImage STAGE_XDP source [rate, cap, RECIPROCAL] none 0 = .ok img :=
  ⟨_, rfl⟩

end Ratelimit

/-- Over any flow with a clock that does not go back, the rate limiter answers
every packet as the token bucket does, and keeps its tokens. -/
theorem ratelimit_is_token_bucket {rate cap : Word} (rules : Ratelimit.Rules rate cap) :
    ∃ img, buildImage STAGE_XDP Ratelimit.source [rate, cap, Ratelimit.RECIPROCAL] none 0 = .ok img ∧
      ∀ (st : CartState) (packets : List (BitVec 64 × Fields)), (∀ i, st.mem i = 0) →
        packets.Pairwise (fun first second => first.1 ≤ second.1) →
        (runFlow img st (default.inputs packets)).map Ratelimit.answered =
          (Ratelimit.oracle (rate.setWidth 64) (cap.setWidth 64) none
            (Ratelimit.requests packets)).map Ratelimit.answer := by
  obtain ⟨img, ok⟩ := Ratelimit.builds rate cap
  refine ⟨img, ok, ?_⟩
  intro st packets zero ordered
  exact Ratelimit.flow_follows (built_of_ok ok) rules ordered (fun started => absurd rfl started)
    (zero 2)

def frame1500 : Fields := fun i => if i = Field.PKT_LEN then 1500 else 0

/-- At 100 Mbit/s and a burst of 2000 bytes, the second frame of 1500 bytes after
8 microseconds does not fit. -/
theorem ratelimit_drops_second :
    ∃ img, buildImage STAGE_XDP Ratelimit.source [100, 2000, Ratelimit.RECIPROCAL] none 0 =
        .ok img ∧ (runFlow img CartState.zeroed
        (default.inputs [(0, frame1500), (8000, frame1500)])).map Ratelimit.answered =
          [(some (.verdict Verdict.PASS), 500), (some (.verdict Verdict.DROP), 600)] := by
  obtain ⟨img, ok, answers⟩ := @ratelimit_is_token_bucket 100 2000 ⟨by decide, by decide, by decide⟩
  refine ⟨img, ok, ?_⟩
  rw [answers CartState.zeroed [(0, frame1500), (8000, frame1500)] (fun _ => rfl) (by simp)]
  decide

end Unheaded.Cart
