import Mathlib.Data.BitVec
import Unheaded.Cart.Program
import Unheaded.Lib.Window

/-!
# The sampler cartridge

`cartridges/sampler.s`: over windows of `N` packets of a flow it sums up four
features in the flow window, and every `N`th packet it completes the snapshot,
emits a sample event, queues the snapshot and opens a new window.
-/

namespace Unheaded.Cart

open Lib Mbc Mbc.Asm List BitVec Function
open BitVec (ofNat)

namespace Sampler

inductive Label where
  | seen | nomax | more
  deriving DecidableEq

def start : List (AsmInsn Label) := [MOVI 1 4, SYSCALL 0, MOV 4 0, LD 2 15 36, CMP 2 15, JNZ .seen]

def firstSeen : List (AsmInsn Label) := [MOVI 1 0x46, ST 15 36 1, MOV 2 4, SYSCALL 3]

def addLen : List (AsmInsn Label) := [LD 2 15 0, ADD 2 4, ST 15 0 2,
   LD 2 15 12, CMP 2 4, JNC .nomax]

def newMax : List (AsmInsn Label) := [ST 15 12 4]

def tally : List (AsmInsn Label) := [MOVI 1 7, SYSCALL 0, LD 2 15 4, ADD 2 0, ST 15 4 2,
   MOVI 1 6, SYSCALL 0, LD 2 15 28, OR 2 0, ST 15 28 2,
   SHL 0 30, SHR 0 31, LD 2 15 8, ADD 2 0, ST 15 8 2,
   LD 3 15 32, ADDI 3 1, LD 2 15 0x1000, CMP 3 2, JC .more]

def sample : List (AsmInsn Label) := [MOVI 1 8, SYSCALL 0, ST 15 16 0, MOV 2 0,
   MOVI 1 1, SYSCALL 0, ST 15 20 0,
   MOVI 1 3, SYSCALL 0, ST 15 24 0,
   MOVI 1 9, SYSCALL 0, MOV 3 0,
   MOVI 1 0x53, SYSCALL 3]

def report : List (AsmInsn Label) := [MOVI 1 0, SYSCALL 4,
   ST 15 0 15, ST 15 4 15, ST 15 8 15, ST 15 12 15, ST 15 28 15, ST 15 32 15,
   MOVI 1 0]

def verdict : List (AsmInsn Label) := [SYSCALL 2]

def keep : List (AsmInsn Label) := [ST 15 32 3, MOVI 1 0]

/-- `cartridges/sampler.s`. -/
def source : List (AsmLine Label) := code start ++ code firstSeen ++
  .label .seen :: code addLen ++ code newMax ++
  .label .nomax :: code tally ++ code sample ++ code report ++ code verdict ++
  .label .more :: code keep ++ code verdict

def isSyn (packet : PacketInput) : Bool := (packet.fields Field.TCP_FLAGS).getLsbD 1

variable (window : List PacketInput)

def winBytes : Word := (window.map PacketInput.len).sum

def winIat : Word :=
  (window.map fun packet => packet.fields Field.IAT_BUCKET).sum

def winSyn : Word := ofNat 32 (window.countP isSyn)

def winMaxLen : Word :=
  ofNat 32 ((window.map fun packet => packet.len.toNat).foldl max 0)

def winFlags : Word :=
  (window.map fun packet => packet.fields Field.TCP_FLAGS).foldl (· ||| ·) 0

/-- The snapshot of a window whose last packet is `packet`. -/
def snapshot (packet : PacketInput) : Features :=
  fun i => [winBytes window, winIat window, winSyn window, winMaxLen window,
    packet.fields Field.FLOW_PKT_COUNT, packet.fields Field.L4_PROTO,
    packet.fields Field.DST_PORT, winFlags window].getD i.toNat 0

/-- The sampler in a slot, with period `n`. -/
structure Running (n : Word) (p : Cartridge) : Prop where
  loaded : Loaded source p
  xdp : p.cfg.stage = STAGE_XDP
  period : ∀ st, p.loadWord st 0x1000 = some n

section Blocks

variable {n : Word} {p : Cartridge} {input : PacketInput} {mem : BitVec 6 → Word} {log : Log}
  {s : Progress}

section

variable (running : Running n p)
include running

theorem Running.size : p.cfg.romWords.toNat = 65 := running.loaded.size

theorem start_goes (here : At 0 [(15, 0), (3, 0)] mem 0 log s) :
    Goes (jobStep p input) 6 s
      (At (if mem 9 = 0 then 6 else 10) [(15, 0), (3, 0), (4, input.len)] mem 0 log) := by
  have target : labels source .seen = some 10 := rfl
  refine running.loaded.goes_block 0 start ⟨_, rfl⟩ here ?_
  intro regs flags known
  simp at known
  by_cases fresh : mem 9#6 = 0#32
  · simp [start, running.xdp, running.size, target, known, fresh, PacketInput.len, Field.PKT_LEN]
  · simp [start, running.xdp, running.size, target, known, fresh, PacketInput.len, Field.PKT_LEN]

theorem firstSeen_goes (here : At 6 [(15, 0), (3, 0), (4, input.len)] mem 0 log s) :
    Goes (jobStep p input) 4 s (At 10 [(15, 0), (4, input.len)] (update mem 9 0x46) 0
        ⟨log.emits ++ [(0x46, input.len, 0)], log.queued⟩) := by
  refine running.loaded.goes_block 6 firstSeen ⟨_, rfl⟩ here ?_
  intro regs flags known
  simp at known
  simp [firstSeen, known]

theorem addLen_goes (here : At 10 [(15, 0), (4, input.len)] mem 0 log s) :
    Goes (jobStep p input) 6 s (At (if mem 3 < input.len then 16 else 17) [(15, 0), (4, input.len)]
        (update mem 0 (mem 0 + input.len)) 0 log) := by
  have target : labels source .nomax = some 17 := rfl
  refine running.loaded.goes_block 10 addLen ⟨_, rfl⟩ here ?_
  intro regs flags known
  simp at known
  by_cases larger : mem 3#6 < input.len
  · have borrow : subBorrow (mem 3#6) input.len = true := decide_eq_true larger
    simp [addLen, running.size, target, known, larger, borrow]
  · have borrow : subBorrow (mem 3#6) input.len = false := decide_eq_false larger
    simp [addLen, running.size, target, known, larger, borrow]

theorem newMax_goes (here : At 16 [(15, 0), (4, input.len)] mem 0 log s) :
    Goes (jobStep p input) 1 s (At 17 [(15, 0)] (update mem 3 input.len) 0 log) := by
  refine running.loaded.goes_block 16 newMax ⟨_, rfl⟩ here ?_
  intro regs flags known
  simp at known
  simp [newMax, known]

end

/-- The window after the inter-arrival bucket, the flags and the SYN bit. -/
def tallied (input : PacketInput) (mem : BitVec 6 → Word) : BitVec 6 → Word := update
    (update (update mem 1 (mem 1 + input.fields Field.IAT_BUCKET))
      7 (mem 7 ||| input.fields Field.TCP_FLAGS))
    2 (mem 2 + input.fields Field.TCP_FLAGS <<< 30 >>> 31)

theorem tally_goes (running : Running n p) (here : At 17 [(15, 0)] mem 0 log s) :
    Goes (jobStep p input) 20 s
      (At (if mem 8 + 1 < n then 62 else 37) [(15, 0), (3, mem 8 + 1)] (tallied input mem) 0
        log) := by
  have target : labels source .more = some 62 := rfl
  have period : ∀ s, execLoad p 2 0x1000 s = some (s.write 2 n s.job.flags) :=
    fun s => execLoad_of_word s 2 (running.period _) rfl
  have thirty : shamt 30#32 = 30 := rfl
  have last : shamt 31#32 = 31 := rfl
  refine running.loaded.goes_block 17 tally ⟨_, rfl⟩ here ?_
  intro regs flags known
  simp at known period
  by_cases unfinished : mem 8#6 + 1#32 < n
  · have borrow : subBorrow (mem 8#6 + 1#32) n = true := decide_eq_true unfinished
    simp [tally, tallied, running.xdp, running.size, target, known, unfinished, borrow, period,
      Field.IAT_BUCKET, Field.TCP_FLAGS, thirty, last]
  · have borrow : subBorrow (mem 8#6 + 1#32) n = false := decide_eq_false unfinished
    simp [tally, tallied, running.xdp, running.size, target, known, unfinished, borrow, period,
      Field.IAT_BUCKET, Field.TCP_FLAGS, thirty, last]

/-- The window with the three features of the sampled packet. -/
def sampled (input : PacketInput) (mem : BitVec 6 → Word) : BitVec 6 → Word := update
    (update (update mem 4 (input.fields Field.FLOW_PKT_COUNT))
      5 (input.fields Field.L4_PROTO))
    6 (input.fields Field.DST_PORT)

theorem sample_goes (running : Running n p) {count : Word}
    (here : At 37 [(15, 0), (3, count)] mem 0 log s) :
    Goes (jobStep p input) 15 s (At 52 [(15, 0)] (sampled input mem) 0
        ⟨log.emits ++ [(0x53, input.fields Field.FLOW_PKT_COUNT,
          input.fields Field.FLOW_BYTE_COUNT)], log.queued⟩) := by
  refine running.loaded.goes_block 37 sample ⟨_, rfl⟩ here ?_
  intro regs flags known
  simp at known
  simp [sample, sampled, running.xdp, known, Field.FLOW_PKT_COUNT, Field.FLOW_BYTE_COUNT,
    Field.L4_PROTO, Field.DST_PORT]

/-- An empty window. -/
def cleared (mem : BitVec 6 → Word) : BitVec 6 → Word := update (update
      (update (update (update
            (update mem 0 0) 1 0) 2 0) 3 0) 7 0) 8 0

theorem report_goes (running : Running n p) (here : At 52 [(15, 0)] mem 0 log s) :
    Goes (jobStep p input) 9 s (At 61 [(1, 0)] (cleared mem) 0
        ⟨log.emits, log.queued ++ [fun i => mem (i.setWidth 6)]⟩) := by
  refine running.loaded.goes_block 52 report ⟨_, rfl⟩ here ?_
  intro regs flags known
  simp at known
  simp [report, cleared, running.xdp, known]

theorem keep_goes (running : Running n p) {count : Word}
    (here : At 62 [(15, 0), (3, count)] mem 0 log s) :
    Goes (jobStep p input) 2 s (At 64 [(1, 0)] (update mem 8 count) 0 log) := by
  refine running.loaded.goes_block 62 keep ⟨_, rfl⟩ here ?_
  intro regs flags known
  simp at known
  simp [keep, known]

def entered (mem : BitVec 6 → Word) : BitVec 6 → Word :=
  if mem 9 = 0 then update mem 9 0x46 else mem

def greeting (input : PacketInput) (mem : BitVec 6 → Word) : List (Word × Word × Word) :=
  if mem 9 = 0 then [(0x46, input.len, 0)] else []

theorem enter_goes (running : Running n p) (here : At 0 [(15, 0), (3, 0)] mem 0 log s) :
    Goes (jobStep p input) 10 s (At 10 [(15, 0), (4, input.len)] (entered mem) 0
        ⟨log.emits ++ greeting input mem, log.queued⟩) := by
  refine (start_goes running here).trans (b := 4) ?_
  intro t there
  unfold entered greeting
  by_cases fresh : mem 9 = 0
  · rw [if_pos fresh] at there
    rw [if_pos fresh, if_pos fresh]
    exact firstSeen_goes running there
  · rw [if_neg fresh] at there
    rw [if_neg fresh, if_neg fresh, append_nil]
    exact .here (there.forget (by simp))

def measured (input : PacketInput) (mem : BitVec 6 → Word) : BitVec 6 → Word :=
  if mem 3 < input.len then
    update (update mem 0 (mem 0 + input.len)) 3 input.len
  else update mem 0 (mem 0 + input.len)

theorem measure_goes (running : Running n p) (here : At 10 [(15, 0), (4, input.len)] mem 0 log s) :
    Goes (jobStep p input) 7 s (At 17 [(15, 0)] (measured input mem) 0 log) := by
  refine (addLen_goes running here).trans (b := 1) ?_
  intro t there
  unfold measured
  by_cases larger : mem 3 < input.len
  · rw [if_pos larger] at there
    rw [if_pos larger]
    exact newMax_goes running there
  · rw [if_neg larger] at there
    rw [if_neg larger]
    exact .here (there.forget (by simp))

/-- The run passed, leaving this window and log. -/
structure Passed (mem : BitVec 6 → Word) (log : Log) (r : Step × Progress) : Prop where
  result : r.1 = .verdict Verdict.PASS
  mem : r.2.job.mem = mem
  log : r.2.log = log

theorem verdict_ends {pc : Half} (running : Running n p)
    (stands : (items source)[pc.toNat]? = some (.insn (SYSCALL 2)))
    (here : At pc [(1, 0)] mem 0 log s) : Ends (jobStep p input) 1 s (Passed mem log) := by
  obtain ⟨rfl, known, rfl, -, rfl⟩ := here
  have code : s.job.regs 1 = 0 := known (1, 0) (by simp)
  refine running.loaded.verdict_ends running.xdp stands (Or.inl code) ?_
  rw [code]
  exact ⟨rfl, rfl, rfl⟩

def joined (input : PacketInput) (mem : BitVec 6 → Word) : BitVec 6 → Word :=
  tallied input (measured input (entered mem))

theorem run_ends (running : Running n p) (here : At 0 [(15, 0), (3, 0)] mem 0 log s) :
    Ends (jobStep p input) 62 s (Passed
      (if mem 8 + 1 < n then update (joined input mem) 8 (mem 8 + 1)
        else cleared (sampled input (joined input mem)))
      (if mem 8 + 1 < n then ⟨log.emits ++ greeting input mem, log.queued⟩
        else ⟨log.emits ++ greeting input mem ++
          [(0x53, input.fields Field.FLOW_PKT_COUNT, input.fields Field.FLOW_BYTE_COUNT)],
          log.queued ++ [fun i => sampled input (joined input mem) (i.setWidth 6)]⟩)) := by
  have count : measured input (entered mem) 8 = mem 8 := by
    unfold measured entered
    split <;> split <;> simp
  refine Ends.after_goes (a := 37) (b := 25)
    (((enter_goes running here).trans fun t there => measure_goes running there).trans
      fun t there => tally_goes running there) ?_
  intro t there
  rw [count] at there
  by_cases unfinished : mem 8 + 1 < n
  · rw [if_pos unfinished] at there
    rw [if_pos unfinished, if_pos unfinished]
    refine (Ends.after_goes (keep_goes running there) fun u last =>
      verdict_ends running rfl last).weaken (by decide) fun r post => post
  · rw [if_neg unfinished] at there
    rw [if_neg unfinished, if_neg unfinished]
    exact Ends.after_goes
      ((sample_goes running there).trans fun u next => report_goes running next) fun u last =>
        verdict_ends running rfl last

end Blocks

section Features

variable (window : List PacketInput) (input : PacketInput)

theorem winBytes_snoc : winBytes (window ++ [input]) = winBytes window + input.len := by
  simp [winBytes]

theorem winIat_snoc :
    winIat (window ++ [input]) = winIat window + input.fields Field.IAT_BUCKET := by
  simp [winIat]

theorem winFlags_snoc :
    winFlags (window ++ [input]) = winFlags window ||| input.fields Field.TCP_FLAGS := by
  simp [winFlags]

theorem syn_bit (flags : Word) :
    flags <<< 30 >>> 31 = ofNat 32 (if flags.getLsbD 1 then 1 else 0) := by
  apply eq_of_getLsbD_eq
  intro i inside
  rw [getLsbD_ushiftRight, getLsbD_shiftLeft]
  cases i with
  | zero =>
    cases flags.getLsbD 1 with
    | false => simp
    | true => simp
  | succ i =>
    have beyond : ¬ 31 + (i + 1) < 32 := by omega
    cases flags.getLsbD 1 with
    | false => simp [beyond]
    | true => simp [beyond]

theorem winSyn_snoc :
    winSyn (window ++ [input]) = winSyn window + input.fields Field.TCP_FLAGS <<< 30 >>> 31 := by
  rw [syn_bit, winSyn, winSyn, ← ofNat_add]
  simp [isSyn]

theorem toNat_winMaxLen :
    (winMaxLen window).toNat = (window.map fun packet => packet.len.toNat).foldl max 0 := by
  apply Nat.mod_eq_of_lt
  induction window using List.reverseRecOn with
  | nil => exact Nat.two_pow_pos 32
  | append_singleton window packet ih =>
    rw [map_append, foldl_append]
    exact Nat.max_lt.mpr ⟨ih, packet.len.isLt⟩

theorem winMaxLen_snoc : winMaxLen (window ++ [input]) =
      if winMaxLen window < input.len then input.len else winMaxLen window := by
  apply eq_of_toNat_eq
  have before := toNat_winMaxLen window
  rw [toNat_winMaxLen, map_append, foldl_append, ← before]
  split
  next larger => exact Nat.max_eq_right (Nat.le_of_lt larger)
  next smaller => exact Nat.max_eq_left (Nat.le_of_not_lt smaller)

end Features

/-- The words of an open window of packets. -/
structure Sums (window : List PacketInput) (mem : BitVec 6 → Word) : Prop where
  bytes : mem 0 = winBytes window
  iat : mem 1 = winIat window
  syn : mem 2 = winSyn window
  maxLen : mem 3 = winMaxLen window
  flags : mem 7 = winFlags window

variable {seen window : List PacketInput} {mem : BitVec 6 → Word}

theorem Sums.joined (sums : Sums window mem) (input : PacketInput) :
    Sums (window ++ [input]) (joined input mem) := by
  obtain ⟨bytes, iat, syn, maxLen, flags⟩ := sums
  simp at bytes iat syn maxLen flags
  unfold Sampler.joined tallied measured entered
  constructor
  · rw [winBytes_snoc]
    split <;> split <;> simp [bytes]
  · rw [winIat_snoc]
    split <;> split <;> simp [iat]
  · rw [winSyn_snoc]
    split <;> split <;> simp [syn]
  · rw [winMaxLen_snoc]
    split <;> split <;> simp_all
  · rw [winFlags_snoc]
    split <;> split <;> simp [flags]

theorem Sums.cleared (mem : BitVec 6 → Word) : Sums [] (cleared mem) := by
  constructor <;> simp [Sampler.cleared, winBytes, winIat, winSyn, winMaxLen, winFlags]

theorem Sums.snapshot (sums : Sums window mem) (input : PacketInput) :
    (fun i : BitVec 3 => sampled input mem (i.setWidth 6)) = snapshot window input := by
  obtain ⟨bytes, iat, syn, maxLen, flags⟩ := sums
  simp at bytes iat syn maxLen flags
  have all : ∀ i : BitVec 3, i = 0 ∨ i = 1 ∨ i = 2 ∨ i = 3 ∨ i = 4 ∨ i = 5 ∨ i = 6 ∨ i = 7 := by
    decide
  funext i
  rcases all i with rfl | rfl | rfl | rfl | rfl | rfl | rfl | rfl <;>
    simp [sampled, Sampler.snapshot, bytes, iat, syn, maxLen, flags]

/-- The flow window after the packets `seen`. -/
structure Window (n : Nat) (seen : List PacketInput) (mem : BitVec 6 → Word) : Prop where
  sums : Sums (sinceLast n seen) mem
  count : mem 8 = ofNat 32 (seen.length % n)
  fresh : mem 9 = 0 ↔ seen = []

theorem joined_seen (input : PacketInput) (mem : BitVec 6 → Word) : joined input mem 9 ≠ 0 := by
  have kept : joined input mem 9 = entered mem 9 := by
    unfold joined tallied measured
    split <;> simp
  rw [kept, entered]
  split
  next => simp
  next old => exact old

theorem Window.unfinished {n : Nat} (window : Window n seen mem) (more : seen.length % n + 1 < n)
    (input : PacketInput) :
    Window n (seen ++ [input]) (update (joined input mem) 8 (mem 8 + 1)) := by
  obtain ⟨bytes, iat, syn, maxLen, flags⟩ := window.sums.joined input
  obtain ⟨-, opened⟩ := sinceLast_open input more
  constructor
  · rw [opened]
    constructor
    · rw [update_of_ne (by decide), bytes]
    · rw [update_of_ne (by decide), iat]
    · rw [update_of_ne (by decide), syn]
    · rw [update_of_ne (by decide), maxLen]
    · rw [update_of_ne (by decide), flags]
  · have counted : (seen ++ [input]).length % n = seen.length % n + 1 := by
      rw [← length_sinceLast, opened, length_append, length_sinceLast, length_singleton]
    rw [window.count, counted, ofNat_add]
    rfl
  · exact iff_of_false (joined_seen input mem) (by simp)

theorem Window.complete {n : Nat} (full : seen.length % n + 1 = n) (input : PacketInput) :
    Window n (seen ++ [input]) (cleared (sampled input (joined input mem))) := by
  obtain ⟨whole, closed, -⟩ := sinceLast_full input full
  constructor
  · rw [closed]
    exact Sums.cleared _
  · rw [length_append, length_singleton, Nat.mod_eq_zero_of_dvd whole]
    simp [cleared]
  · have kept : cleared (sampled input (joined input mem)) 9 = joined input mem 9 := by
      simp [cleared, sampled]
    rw [kept]
    exact iff_of_false (joined_seen input mem) (by simp)

/-- The packets of the window that ends with the packet at index `i`. -/
def windowAt (n : Nat) (packets : List PacketInput) (i : Nat) : List PacketInput :=
  (packets.take (i + 1)).drop (i + 1 - n)

/-- What the run of the packet at index `i` reports. -/
def outcomeAt (n : Nat) (packets : List PacketInput) (i : Nat) (input : PacketInput) : Outcome where
  step := some (.verdict Verdict.PASS)
  emits := (if i = 0 then [(0x46, input.len, 0)] else []) ++ (if n ∣ i + 1 then
      [(0x53, input.fields Field.FLOW_PKT_COUNT, input.fields Field.FLOW_BYTE_COUNT)] else [])
  queued := if n ∣ i + 1 then [snapshot (windowAt n packets i) input] else []

section Packet

variable {n : Word} {img : Image} {seen : List PacketInput} {st : CartState}

theorem running_of_built (built : Built STAGE_XDP source [n] (insnCap STAGE_XDP) 0 img) :
    Running n img.cartridge := by
  refine ⟨built.loaded, built.stage, ?_⟩
  intro st
  have data := built.data
  simp [Cartridge.loadWord, Image.cartridge, Image.cfg, data, DATA_BASE]

theorem count_lt {c : Nat} (inside : c < n.toNat) : ofNat 32 c + 1 < n ↔ c + 1 < n.toNat := by
  have one : (1 : Word).toNat = 1 := rfl
  rw [lt_def, toNat_add, toNat_ofNat]
  omega

theorem runPacket_window (built : Built STAGE_XDP source [n] (insnCap STAGE_XDP) 0 img)
    (pos : 0 < n.toNat) (window : Window n.toNat seen st.mem) (input : PacketInput) :
    (runPacket img st input).1 = outcomeAt n.toNat (seen ++ [input]) seen.length input ∧
      Window n.toNat (seen ++ [input]) (runPacket img st input).2.mem := by
  have running := running_of_built built
  have here : At 0 [(15, 0), (3, 0)] st.mem 0 Log.empty ⟨(beginRun st img.entry).job, Log.empty⟩ :=
    ⟨built.entry, by simp [beginRun, CartState.job], rfl, rfl, rfl⟩
  have budget : 62 ≤ img.maxInsn.toNat := by
    rw [built.maxInsn]
    decide
  obtain ⟨result, final, ⟨verdict, mem, log⟩, outcome, job⟩ :=
    runPacket_of_ends built.stage (by decide) budget (@run_ends _ _ input _ _ _ running here)
  dsimp only at verdict mem log
  have left : (runPacket img st input).2.mem = final.job.mem := congrArg Job.mem job
  have inside : seen.length % n.toNat < n.toNat := Nat.mod_lt _ pos
  have compares := count_lt inside
  rw [← window.count] at compares
  have first : greeting input st.mem = if seen.length = 0 then [(0x46, input.len, 0)] else [] := by
    simp only [greeting, window.fresh, length_eq_zero_iff]
  rw [left, mem, outcome, log, verdict]
  by_cases more : seen.length % n.toNat + 1 < n.toNat
  · obtain ⟨unfinished, -⟩ := sinceLast_open input more
    rw [if_pos (compares.mpr more), if_pos (compares.mpr more)]
    refine ⟨?_, window.unfinished more input⟩
    rw [outcomeAt, if_neg unfinished, if_neg unfinished, first, append_nil]
    rfl
  · have full : seen.length % n.toNat + 1 = n.toNat := by omega
    obtain ⟨whole, -, last⟩ := sinceLast_full input full
    have queued := (window.sums.joined input).snapshot input
    rw [← last] at queued
    rw [if_neg (fun less => more (compares.mp less)), if_neg (fun less => more (compares.mp less))]
    refine ⟨?_, Window.complete full input⟩
    rw [outcomeAt, if_pos whole, if_pos whole, first, queued, windowAt, take_of_length_le (by simp)]
    rfl

end Packet

theorem builds (n : Word) : ∃ img, buildImage STAGE_XDP source [n] none 0 = .ok img := ⟨_, rfl⟩

end Sampler

/-- The sampler passes every packet, greets the first one of the flow, and
reports every `n`th one with the sums of its window. -/
theorem sampler_reports_windows (n : Word) (positive : 1 ≤ n.toNat) :
    ∃ img, buildImage STAGE_XDP Sampler.source [n] none 0 = .ok img ∧
      ∀ (st : CartState) (packets : List PacketInput), (∀ i, st.mem i = 0) →
        ∀ (i : Nat) (input : PacketInput), packets[i]? = some input →
          ∃ later, (runFlow img st packets)[i]? =
            some (Sampler.outcomeAt n.toNat packets i input, later) := by
  obtain ⟨img, ok⟩ := Sampler.builds n
  refine ⟨img, ok, ?_⟩
  intro st packets zero i input get
  have built := built_of_ok ok
  have start : Sampler.Window n.toNat [] st.mem := by
    constructor
    · rw [sinceLast_nil]
      exact ⟨zero 0, zero 1, zero 2, zero 3, zero 7⟩
    · rw [zero]
      rfl
    · exact iff_of_true (zero 9) rfl
  obtain ⟨⟨out, later⟩, found, post⟩ := runFlow_induct
    (fun seen st => Sampler.Window n.toNat seen st.mem)
    (fun seen input ran =>
      ran.1 = Sampler.outcomeAt n.toNat (seen ++ [input]) seen.length input)
    (fun seen st input window => Sampler.runPacket_window built positive window input) start get
  obtain ⟨inside, -⟩ := List.getElem?_eq_some_iff.mp get
  have upTo : packets.take i ++ [input] = packets.take (i + 1) := by
    rw [take_add_one, get]
    rfl
  have position := (length_take).trans (Nat.min_eq_left (Nat.le_of_lt inside))
  rw [nil_append, upTo, position] at post
  dsimp only at post
  refine ⟨later, ?_⟩
  rw [found, post, Sampler.outcomeAt, Sampler.outcomeAt, Sampler.windowAt, Sampler.windowAt,
    take_take, Nat.min_self]

def synPacket : PacketInput where
  fields i := if i = Field.PKT_LEN then 60 else if i = Field.TCP_FLAGS then 2 else 0
  nowNs := 0

/-- Two of them are one window of two. -/
theorem sampler_reports_pair : ∃ img, buildImage STAGE_XDP Sampler.source [2] none 0 = .ok img ∧
      ∃ out later, (runFlow img CartState.zeroed [synPacket, synPacket])[1]? = some (out, later) ∧
        out.emits = [(0x53, 0, 0)] ∧
        out.queued.map (fun f => [f 0, f 1, f 2, f 3, f 7]) = [[120, 0, 2, 60, 2]] := by
  obtain ⟨img, ok, reports⟩ := sampler_reports_windows 2 (by decide)
  obtain ⟨later, found⟩ := reports CartState.zeroed [synPacket, synPacket] (fun _ => rfl) 1
    synPacket rfl
  exact ⟨img, ok, _, later, found, by decide, by decide⟩

end Unheaded.Cart
