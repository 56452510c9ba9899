import Unheaded.Cart.ImageCodec
import Unheaded.Cart.Parse

/-!
# Trace files

The records of a traced run (`TraceHead`, `TraceStep`, `TraceEnd`), their bytes and the file that
`upc-cartridgectl record` writes.
-/

namespace Unheaded.Cart

open Lib Mbc List Option Function

namespace TraceRec

def EVENT_COMPUTED : Byte := 0x01
def SUBKIND : Byte := 0x43
def REC_HEAD : Byte := 0
def REC_STEP : Byte := 1
def REC_END : Byte := 2

end TraceRec

/-- `TraceHead`: the state and every input the run can read. -/
structure TraceHead where
  event : Byte
  subkind : Byte
  recKind : Byte
  stage : Byte
  slot : Byte
  rsv : Fin 3 → Byte
  gen : Word
  rsv2 : Word
  runId : BitVec 64
  now : BitVec 64
  flow : FlowKey
  fields : Fin 13 → Word
  pad : Word
  state : CartState

/-- `TraceStep`: one executed instruction. -/
structure TraceStep where
  event : Byte
  subkind : Byte
  recKind : Byte
  rsv : Byte
  idx : Word
  runId : BitVec 64
  pc : Word
  insn : Word
  code : Word
  hash : Word
  deriving DecidableEq

structure TraceEnd where
  event : Byte
  subkind : Byte
  recKind : Byte
  rsv : Byte
  insns : Word
  runId : BitVec 64
  code : Word
  hash : Word
  rsv2 : BitVec 64
  deriving DecidableEq

inductive Record where
  | head (h : TraceHead)
  | step (s : TraceStep)
  | fin (e : TraceEnd)

def HEAD_LEN : Nat := 464
def STEP_LEN : Nat := 32

variable (b : List Byte)

def le64 (off : Nat) : BitVec 64 := le32 b (off + 4) ++ le32 b off

def dwordBytes (v : BitVec 64) : List Byte :=
  wordBytes (v.extractLsb' 0 32) ++ wordBytes (v.extractLsb' 32 32)

def decodeState : CartState where
  regs r := le32 b (4 * r.toNat)
  mem i := le32 b (64 + 4 * i.toNat)
  pc := le16 b 320
  flags := b.getD 322 0
  status := b.getD 323 0
  insns := le32 b 324
  backEdges := le32 b 328
  gen := le32 b 332

def encodeState (st : CartState) : List Byte :=
  ((range 16).map fun i => st.regs (BitVec.ofNat 4 i)).flatMap wordBytes ++
    (((range 64).map fun i => st.mem (BitVec.ofNat 6 i)).flatMap wordBytes ++
      (halfBytes st.pc ++ ([st.flags, st.status] ++
        [st.insns, st.backEdges, st.gen].flatMap wordBytes)))

def decodeFlow : FlowKey where
  src i := b.getD i 0
  dst i := b.getD (16 + i) 0
  sport := le16 b 32
  dport := le16 b 34
  proto := b.getD 36 0
  l3 := b.getD 37 0
  slot := b.getD 38 0
  rsv := 0

def encodeFlow (k : FlowKey) : List Byte :=
  ofFn k.src ++ (ofFn k.dst ++ (halfBytes k.sport ++ (halfBytes k.dport ++
    [k.proto, k.l3, k.slot, 0])))

def decodeRecord : Option Record :=
  if b.length < 4 ∨ b.getD 0 0 ≠ TraceRec.EVENT_COMPUTED ∨ b.getD 1 0 ≠ TraceRec.SUBKIND then none
  else if b.getD 2 0 = TraceRec.REC_HEAD ∧ b.length = HEAD_LEN then
    some (.head {
      event := b.getD 0 0
      subkind := b.getD 1 0
      recKind := b.getD 2 0
      stage := b.getD 3 0
      slot := b.getD 4 0
      rsv := fun _ => 0
      gen := le32 b 8
      rsv2 := 0
      runId := le64 b 16
      now := le64 b 24
      flow := decodeFlow ((b.drop 32).take 40)
      fields := fun i => le32 b (72 + 4 * i)
      pad := 0
      state := decodeState ((b.drop 128).take 336) })
  else if b.getD 2 0 = TraceRec.REC_STEP ∧ b.length = STEP_LEN then
    some (.step {
      event := b.getD 0 0
      subkind := b.getD 1 0
      recKind := b.getD 2 0
      rsv := 0
      idx := le32 b 4
      runId := le64 b 8
      pc := le32 b 16
      insn := le32 b 20
      code := le32 b 24
      hash := le32 b 28 })
  else if b.getD 2 0 = TraceRec.REC_END ∧ b.length = STEP_LEN then
    some (.fin {
      event := b.getD 0 0
      subkind := b.getD 1 0
      recKind := b.getD 2 0
      rsv := 0
      insns := le32 b 4
      runId := le64 b 8
      code := le32 b 16
      hash := le32 b 20
      rsv2 := 0 })
  else none

def encodeRecord : Record → List Byte
  | .head h =>
    [TraceRec.EVENT_COMPUTED, TraceRec.SUBKIND, TraceRec.REC_HEAD, h.stage, h.slot, 0, 0, 0] ++
      (wordBytes h.gen ++ (wordBytes 0 ++ (dwordBytes h.runId ++ (dwordBytes h.now ++
        (encodeFlow h.flow ++ ((ofFn h.fields).flatMap wordBytes ++
          (wordBytes 0 ++ encodeState h.state)))))))
  | .step s =>
    [TraceRec.EVENT_COMPUTED, TraceRec.SUBKIND, TraceRec.REC_STEP, 0] ++
      (wordBytes s.idx ++ (dwordBytes s.runId ++ [s.pc, s.insn, s.code, s.hash].flatMap wordBytes))
  | .fin e =>
    [TraceRec.EVENT_COMPUTED, TraceRec.SUBKIND, TraceRec.REC_END, 0] ++
      (wordBytes e.insns ++ (dwordBytes e.runId ++
        ([e.code, e.hash].flatMap wordBytes ++ dwordBytes 0)))

/-- One recorded run; `fin` is the source's `end`. -/
structure Run where
  head : TraceHead
  steps : List TraceStep
  fin : Option TraceEnd

/-- A trace file. -/
structure Trace where
  slotSha : Fin 4 → Fin 32 → Byte
  runs : List Run
  orphans : Nat

inductive TraceError where
  | truncated
  | badHeader
  | tooLarge
  | badRecord (n : Nat)
  deriving DecidableEq

/-- The bytes `UCTR`. -/
def TRACE_MAGIC : List Byte := [0x55, 0x43, 0x54, 0x52]
def TRACE_VERSION : Word := 1
def MAX_TRACE : Nat := 64 <<< 20

/-- The parser's trace so far, with the run that each id belongs to. -/
structure Grouping where
  trace : Trace
  index : BitVec 64 → Option Nat

namespace Grouping

/-- Change the run that a record's id belongs to, or count an orphan. -/
def onRun (g : Grouping) (runId : BitVec 64) (f : Run → Run) : Grouping :=
  match g.index runId with
  | some i => { g with trace := { g.trace with runs := g.trace.runs.modify i f } }
  | none => { g with trace := { g.trace with orphans := g.trace.orphans + 1 } }

/-- File one record. -/
def add (g : Grouping) : Record → Grouping
  | .head h =>
    { trace := { g.trace with runs := g.trace.runs ++ [⟨h, [], none⟩] }
      index := update g.index h.runId (some g.trace.runs.length) }
  | .step s => g.onRun s.runId fun r => { r with steps := r.steps ++ [s] }
  | .fin e => g.onRun e.runId fun r => { r with fin := some e }

end Grouping

/-- The loop of `Trace::parse` over the bytes not yet read, with `n` records
behind it. -/
def parseRecords : Nat → Nat → Grouping → List Byte → Except TraceError Trace
  | 0, _, g, _ => .ok g.trace
  | fuel + 1, n, g, b =>
    if b = [] then .ok g.trace
    else if b.length < 4 then .error .truncated
    else
      let len := (le32 b 0).toNat
      let rest := b.drop 4
      if HEAD_LEN < len ∨ rest.length < len then .error .truncated
      else
        match decodeRecord (rest.take len) with
        | none => .error (.badRecord n)
        | some r => parseRecords fuel (n + 1) (g.add r) (rest.drop len)

namespace Trace

def HEADER : Nat := 8 + 4 * 32

def parse (b : List Byte) : Except TraceError Trace :=
  if MAX_TRACE < b.length then .error .tooLarge
  else if b.length < HEADER then .error .truncated
  else if b.take 4 ≠ TRACE_MAGIC ∨ le32 b 4 ≠ TRACE_VERSION then .error .badHeader
  else
    let sha : Fin 4 → Fin 32 → Byte := fun s i => b.getD (8 + 32 * s + i) 0
    parseRecords b.length 0 ⟨⟨sha, [], 0⟩, fun _ => none⟩ (b.drop HEADER)

/-- The records of a run, in the order `Trace::encode` writes them. -/
def records (run : Run) : List Record :=
  .head run.head :: (run.steps.map .step ++ (run.fin.map .fin).toList)

def frame (r : Record) : List Byte :=
  wordBytes (BitVec.ofNat 32 (encodeRecord r).length) ++ encodeRecord r

def encode (t : Trace) : List Byte := TRACE_MAGIC ++ (wordBytes TRACE_VERSION ++
    ((finRange 4).flatMap (fun s => ofFn (t.slotSha s)) ++
      (t.runs.flatMap records).flatMap frame))

end Trace

@[simp] theorem length_wordBytes (v : Word) : (wordBytes v).length = 4 := rfl

@[simp] theorem length_halfBytes (v : Half) : (halfBytes v).length = 2 := rfl

@[simp] theorem length_dwordBytes (v : BitVec 64) : (dwordBytes v).length = 8 := rfl

@[simp] theorem length_encodeState (st : CartState) : (encodeState st).length = 336 := by
  simp only [encodeState, length_append, length_flatMap_wordBytes, length_map,
    length_range, length_halfBytes, length_cons, length_nil]

@[simp] theorem length_encodeFlow (k : FlowKey) : (encodeFlow k).length = 40 := by
  simp [encodeFlow]

variable {b : List Byte} {n off : Nat}

theorem le64_of_holds {v : BitVec 64} (holds : Holds b off (dwordBytes v)) : le64 b off = v := by
  have high : le32 b (off + 4) = v.extractLsb' 32 32 := le32_of_holds holds.right
  rw [le64, high, le32_of_holds holds.left]
  ext i hi
  simp only [BitVec.getElem_append, BitVec.getElem_extractLsb']
  split
  next low => rw [Nat.zero_add, BitVec.getLsbD_eq_getElem]
  next high =>
    rw [Nat.add_sub_cancel' (Nat.not_lt.mp high), BitVec.getLsbD_eq_getElem]

theorem le32_of_words {ws : List Word} (holds : Holds b off (ws.flatMap wordBytes)) {i : Nat}
    (inside : i < ws.length) : le32 b (off + 4 * i) = ws.get ⟨i, inside⟩ := by
  have all := words_of_holds holds
  have here : (words b off ws.length)[i]? = ws[i]? := by rw [all]
  rw [words, getElem?_map, getElem?_range inside, getElem?_eq_getElem inside] at here
  exact some.inj here

theorem byte_of_holds {v : Byte} {vs : List Byte} (holds : Holds b off (v :: vs)) :
    b.getD off 0 = v :=
  holds.getD (Nat.succ_pos _) 0

theorem ofFn_of_holds {f : Fin n → Byte} (holds : Holds b off (ofFn f)) (i : Fin n) :
    b.getD (off + i) 0 = f i := by
  rw [holds.getD (by rw [length_ofFn]; exact i.isLt) 0]
  simp

theorem decodeState_of_holds {st : CartState} (whole : Holds b 0 (encodeState st)) :
    decodeState b = st := by
  have afterRegs := whole.right_at (k := 64) rfl
  have afterMem := afterRegs.right_at (k := 320) (by
    rw [length_flatMap_wordBytes, length_map, length_range])
  have afterPc := afterMem.right_at (k := 322) rfl
  have counts := afterPc.right_at (k := 324) rfl
  have regs : (fun r : Reg => le32 b (4 * r.toNat)) = st.regs := by
    funext r
    have word := le32_of_words whole.left (i := r.toNat) (by simp [r.isLt])
    rw [Nat.zero_add] at word
    rw [word]
    simp
  have mem : (fun i : BitVec 6 => le32 b (64 + 4 * i.toNat)) = st.mem := by
    funext i
    rw [le32_of_words afterRegs.left (i := i.toNat) (by simp [i.isLt])]
    simp
  have pc : le16 b 320 = st.pc := le16_of_holds afterMem.left
  have flags : b.getD 322 0 = st.flags := byte_of_holds afterPc.left
  have status : b.getD 323 0 = st.status :=
    byte_of_holds (afterPc.left.right (x := [st.flags]) (y := [st.status]))
  have insns : le32 b 324 = st.insns := le32_of_words counts (i := 0) (by simp)
  have backEdges : le32 b 328 = st.backEdges := le32_of_words counts (i := 1) (by simp)
  have gen : le32 b 332 = st.gen := le32_of_words counts (i := 2) (by simp)
  rw [decodeState, regs, mem, pc, flags, status, insns, backEdges, gen]

theorem decodeFlow_of_holds {k : FlowKey} {rsv : Byte}
    (whole : Holds b 0 (ofFn k.src ++ (ofFn k.dst ++ (halfBytes k.sport ++
      (halfBytes k.dport ++ [k.proto, k.l3, k.slot, rsv]))))) (zero : k.rsv = 0) :
    decodeFlow b = k := by
  have afterSrc := whole.right_at (k := 16) (by simp)
  have afterDst := afterSrc.right_at (k := 32) (by simp)
  have afterSport := afterDst.right_at (k := 34) rfl
  have tail := afterSport.right_at (k := 36) rfl
  have src : (fun i : Fin 16 => b.getD i 0) = k.src := by
    funext i
    have byte := ofFn_of_holds whole.left i
    rwa [Nat.zero_add] at byte
  have dst : (fun i : Fin 16 => b.getD (16 + i) 0) = k.dst := by
    funext i
    exact ofFn_of_holds afterSrc.left i
  have sport : le16 b 32 = k.sport := le16_of_holds afterDst.left
  have dport : le16 b 34 = k.dport := le16_of_holds afterSport.left
  have proto : b.getD 36 0 = k.proto := byte_of_holds tail
  have l3 : b.getD 37 0 = k.l3 := tail.getD (i := 1) (by simp) 0
  have slot : b.getD 38 0 = k.slot := tail.getD (i := 2) (by simp) 0
  rw [decodeFlow, src, dst, sport, dport, proto, l3, slot, ← zero]

/-- The record as the recorder writes it: the kind in front and zero in every
reserved field. -/
def Record.Canonical : Record → Prop
  | .head h =>
    h.event = TraceRec.EVENT_COMPUTED ∧ h.subkind = TraceRec.SUBKIND ∧
      h.recKind = TraceRec.REC_HEAD ∧ h.rsv = (fun _ => 0) ∧ h.rsv2 = 0 ∧ h.flow.rsv = 0 ∧
      h.pad = 0
  | .step s =>
    s.event = TraceRec.EVENT_COMPUTED ∧ s.subkind = TraceRec.SUBKIND ∧
      s.recKind = TraceRec.REC_STEP ∧ s.rsv = 0
  | .fin e =>
    e.event = TraceRec.EVENT_COMPUTED ∧ e.subkind = TraceRec.SUBKIND ∧
      e.recKind = TraceRec.REC_END ∧ e.rsv = 0 ∧ e.rsv2 = 0

theorem length_encodeRecord (r : Record) : (encodeRecord r).length = (match r with
      | .head _ => HEAD_LEN
      | _ => STEP_LEN) := by
  cases r with
  | head h => simp [encodeRecord, HEAD_LEN]
  | step s => rfl
  | fin e => rfl

theorem decodeRecord_head {h : TraceHead} (canonical : (Record.head h).Canonical)
    (length : b.length = HEAD_LEN) (whole : Holds b 0 (encodeRecord (.head h))) :
    decodeRecord b = some (.head h) := by
  obtain ⟨event, subkind, kind, rsv, rsv2, flowRsv, pad⟩ := canonical
  have front := whole.left
  have afterFront := whole.right_at (k := 8) rfl
  have afterGen := afterFront.right_at (k := 12) rfl
  have afterZero := afterGen.right_at (k := 16) rfl
  have afterId := afterZero.right_at (k := 24) rfl
  have afterNow := afterId.right_at (k := 32) rfl
  have afterFlow := afterNow.right_at (k := 72) (by rw [length_encodeFlow])
  have afterFields := afterFlow.right_at (k := 124) (by
    rw [length_flatMap_wordBytes, length_ofFn])
  have state := afterFields.right_at (k := 128) rfl
  have byte0 : b.getD 0 0 = h.event := (byte_of_holds front).trans event.symm
  have byte1 := (front.getD (i := 1) (by simp) 0).trans subkind.symm
  have byte2 := (front.getD (i := 2) (by simp) 0).trans kind.symm
  have byte3 : b.getD 3 0 = h.stage := front.getD (i := 3) (by simp) 0
  have byte4 : b.getD 4 0 = h.slot := front.getD (i := 4) (by simp) 0
  have gen : le32 b 8 = h.gen := le32_of_holds afterFront.left
  have runId : le64 b 16 = h.runId := le64_of_holds afterZero.left
  have now : le64 b 24 = h.now := le64_of_holds afterId.left
  have flow : decodeFlow ((b.drop 32).take 40) = h.flow := by
    have bytes := afterNow.left.take
    rw [length_encodeFlow] at bytes
    rw [bytes]
    exact decodeFlow_of_holds (Holds.self _) flowRsv
  have fields : (fun i : Fin 13 => le32 b (72 + 4 * i)) = h.fields := by
    funext i
    rw [le32_of_words afterFlow.left (i := i) (by simp), get_eq_getElem, List.getElem_ofFn]
  have st : decodeState ((b.drop 128).take 336) = h.state := by
    have bytes := state.take
    rw [length_encodeState] at bytes
    rw [bytes]
    exact decodeState_of_holds (Holds.self _)
  rw [decodeRecord, if_neg, if_pos]
  · rw [byte0, byte1, byte2, byte3, byte4, gen, runId, now, flow, fields, st]
    cases h
    dsimp only at rsv rsv2 pad
    rw [rsv, rsv2, pad]
  · exact ⟨byte2.trans kind, length⟩
  · rw [length, byte0, byte1, event, subkind]
    decide

theorem decodeRecord_step {s : TraceStep} (canonical : (Record.step s).Canonical)
    (length : b.length = STEP_LEN) (whole : Holds b 0 (encodeRecord (.step s))) :
    decodeRecord b = some (.step s) := by
  obtain ⟨event, subkind, kind, rsv⟩ := canonical
  have front := whole.left
  have afterFront := whole.right_at (k := 4) rfl
  have afterIdx := afterFront.right_at (k := 8) rfl
  have tail := afterIdx.right_at (k := 16) rfl
  have byte0 : b.getD 0 0 = s.event := (byte_of_holds front).trans event.symm
  have byte1 := (front.getD (i := 1) (by simp) 0).trans subkind.symm
  have byte2 := (front.getD (i := 2) (by simp) 0).trans kind.symm
  have idx : le32 b 4 = s.idx := le32_of_holds afterFront.left
  have runId : le64 b 8 = s.runId := le64_of_holds afterIdx.left
  have pc : le32 b 16 = s.pc := le32_of_words tail (i := 0) (by simp)
  have insn : le32 b 20 = s.insn := le32_of_words tail (i := 1) (by simp)
  have code : le32 b 24 = s.code := le32_of_words tail (i := 2) (by simp)
  have hash : le32 b 28 = s.hash := le32_of_words tail (i := 3) (by simp)
  have notHead : ¬ (b.getD 2 0 = TraceRec.REC_HEAD ∧ b.length = HEAD_LEN) := by
    rw [length]
    exact fun both => absurd both.2 (by decide)
  rw [decodeRecord, if_neg, if_neg notHead, if_pos]
  · rw [byte0, byte1, byte2, idx, runId, pc, insn, code, hash, ← rsv]
  · exact ⟨byte2.trans kind, length⟩
  · rw [length, byte0, byte1, event, subkind]
    decide

theorem decodeRecord_fin {e : TraceEnd} (canonical : (Record.fin e).Canonical)
    (length : b.length = STEP_LEN) (whole : Holds b 0 (encodeRecord (.fin e))) :
    decodeRecord b = some (.fin e) := by
  obtain ⟨event, subkind, kind, rsv, rsv2⟩ := canonical
  have front := whole.left
  have afterFront := whole.right_at (k := 4) rfl
  have afterInsns := afterFront.right_at (k := 8) rfl
  have tail := afterInsns.right_at (k := 16) rfl
  have byte0 : b.getD 0 0 = e.event := (byte_of_holds front).trans event.symm
  have byte1 := (front.getD (i := 1) (by simp) 0).trans subkind.symm
  have byte2 := (front.getD (i := 2) (by simp) 0).trans kind.symm
  have insns : le32 b 4 = e.insns := le32_of_holds afterFront.left
  have runId : le64 b 8 = e.runId := le64_of_holds afterInsns.left
  have code : le32 b 16 = e.code := le32_of_words tail.left (i := 0) (by simp)
  have hash : le32 b 20 = e.hash := le32_of_words tail.left (i := 1) (by simp)
  have notHead : ¬ (b.getD 2 0 = TraceRec.REC_HEAD ∧ b.length = HEAD_LEN) := by
    rw [length]
    exact fun both => absurd both.2 (by decide)
  have notStep : ¬ (b.getD 2 0 = TraceRec.REC_STEP ∧ b.length = STEP_LEN) := by
    rw [byte2, kind]
    exact fun both => absurd both.1 (by decide)
  rw [decodeRecord, if_neg, if_neg notHead, if_neg notStep, if_pos]
  · rw [byte0, byte1, byte2, insns, runId, code, hash]
    cases e
    dsimp only at rsv rsv2
    rw [rsv, rsv2]
  · exact ⟨byte2.trans kind, length⟩
  · rw [length, byte0, byte1, event, subkind]
    decide

theorem decodeRecord_encodeRecord {r : Record} (canonical : r.Canonical) :
    decodeRecord (encodeRecord r) = some r := by
  have length := length_encodeRecord r
  cases r with
  | head h => exact decodeRecord_head canonical length (Holds.self _)
  | step s => exact decodeRecord_step canonical length (Holds.self _)
  | fin e => exact decodeRecord_fin canonical length (Holds.self _)

theorem parseRecords_frame {r : Record} (canonical : r.Canonical) (fuel n : Nat) (g : Grouping)
    (rest : List Byte) : parseRecords (fuel + 1) n g (Trace.frame r ++ rest) =
      parseRecords fuel (n + 1) (g.add r) rest := by
  have size : (encodeRecord r).length ≤ HEAD_LEN := by
    rw [length_encodeRecord]
    cases r with
    | head h => exact Nat.le_refl _
    | step s => exact (by decide : STEP_LEN ≤ HEAD_LEN)
    | fin e => exact (by decide : STEP_LEN ≤ HEAD_LEN)
  have whole := (Holds.self (Trace.frame r ++ rest)).left
  rw [Trace.frame] at whole
  have length : (le32 (Trace.frame r ++ rest) 0).toNat = (encodeRecord r).length := by
    rw [Trace.frame, le32_of_holds whole.left]
    exact Nat.mod_eq_of_lt (Nat.lt_of_le_of_lt size (by decide))
  have drop : (Trace.frame r ++ rest).drop 4 = encodeRecord r ++ rest := rfl
  have long : (Trace.frame r ++ rest).length = 4 + ((encodeRecord r).length + rest.length) := by
    rw [Trace.frame, append_assoc, length_append, length_append, length_wordBytes]
  rw [parseRecords, if_neg, if_neg, drop, length, if_neg, take_left, drop_left,
    decodeRecord_encodeRecord canonical]
  · rw [length_append]
    omega
  · omega
  · intro empty
    rw [empty, length_nil] at long
    omega

theorem parseRecords_frames {records : List Record} (canonical : ∀ r ∈ records, r.Canonical)
    {fuel : Nat} (enough : records.length < fuel) (g : Grouping) :
    parseRecords fuel n g (records.flatMap Trace.frame) = .ok (records.foldl Grouping.add g).trace := by
  induction records generalizing fuel n g with
  | nil =>
    obtain ⟨fuel, rfl⟩ := Nat.exists_eq_add_of_lt enough
    rfl
  | cons r records ih =>
    obtain ⟨fuel, rfl⟩ : ∃ k, fuel = k + 1 := Nat.exists_eq_succ_of_ne_zero (by omega)
    rw [flatMap_cons, parseRecords_frame (canonical r mem_cons_self)]
    exact ih (fun x mem => canonical x (mem_cons_of_mem r mem))
      (Nat.lt_of_succ_lt_succ enough) (g.add r)

theorem modify_last {α : Type} (l : List α) (x : α) (f : α → α) :
    (l ++ [x]).modify l.length f = l ++ [f x] := by
  induction l with
  | nil => rfl
  | cons y l ih => exact congrArg (cons y) ih

/-- The records of a run as the recorder writes them, all under its id. -/
structure Run.Canonical (run : Run) : Prop where
  head : (Record.head run.head).Canonical
  steps : ∀ s ∈ run.steps, (Record.step s).Canonical ∧ s.runId = run.head.runId
  fin : ∀ e, run.fin = some e → (Record.fin e).Canonical ∧ e.runId = run.head.runId

namespace Grouping

variable (g : Grouping)

/-- The grouping whose latest run is `run`. -/
def withRun (run : Run) : Grouping :=
  { trace := { g.trace with runs := g.trace.runs ++ [run] }
    index := update g.index run.head.runId (some g.trace.runs.length) }

theorem withRun_onRun (run : Run) (f : Run → Run) (same : (f run).head = run.head) :
    (g.withRun run).onRun run.head.runId f = g.withRun (f run) := by
  have here : (g.withRun run).index run.head.runId = some g.trace.runs.length :=
    update_self _ _ _
  have runs : (g.withRun run).trace.runs.modify g.trace.runs.length f =
      g.trace.runs ++ [f run] := modify_last _ _ _
  rw [onRun, here]
  dsimp only
  rw [runs, withRun, withRun, same]

theorem foldl_steps (run : Run) {steps : List TraceStep}
    (ids : ∀ s ∈ steps, s.runId = run.head.runId) :
    (steps.map Record.step).foldl add (g.withRun run) =
      g.withRun { run with steps := run.steps ++ steps } := by
  induction steps generalizing run with
  | nil => rw [append_nil]; rfl
  | cons s steps ih =>
    have rest := ih { run with steps := run.steps ++ [s] }
      (fun x mem => ids x (mem_cons_of_mem s mem))
    rw [append_assoc] at rest
    rw [map_cons, foldl_cons, add, ids s mem_cons_self, withRun_onRun g run _ rfl]
    exact rest

theorem foldl_records {run : Run} (canonical : run.Canonical) :
    (Trace.records run).foldl add g = g.withRun run := by
  have steps := g.foldl_steps ⟨run.head, [], none⟩
    (fun s (mem : s ∈ run.steps) => (canonical.steps s mem).2)
  rw [Trace.records, foldl_cons, foldl_append]
  change (run.fin.map Record.fin).toList.foldl add
    ((run.steps.map Record.step).foldl add (g.withRun ⟨run.head, [], none⟩)) = _
  rw [steps]
  obtain ⟨head, recorded, fin⟩ := run
  cases fin with
  | none => rfl
  | some e =>
    rw [map_some, toList_some, foldl_cons, add, (canonical.fin e rfl).2]
    exact withRun_onRun g ⟨head, recorded, none⟩ _ rfl

theorem foldl_runs {runs : List Run} (canonical : ∀ run ∈ runs, run.Canonical) :
    ((runs.flatMap Trace.records).foldl add g).trace =
      { g.trace with runs := g.trace.runs ++ runs } := by
  induction runs generalizing g with
  | nil => rw [append_nil]; rfl
  | cons run runs ih =>
    rw [flatMap_cons, foldl_append, g.foldl_records (canonical run mem_cons_self),
      ih _ (fun x mem => canonical x (mem_cons_of_mem run mem)), withRun, append_assoc]
    rfl

end Grouping

namespace Trace

theorem length_flatMap_frame (records : List Record) :
    records.length ≤ (records.flatMap frame).length := by
  induction records with
  | nil => exact Nat.le_refl 0
  | cons r records ih =>
    rw [flatMap_cons, length_append, length_cons, frame, length_append, length_wordBytes]
    omega

theorem parse_encode {t : Trace} (canonical : ∀ run ∈ t.runs, run.Canonical)
    (whole : t.orphans = 0) (small : t.encode.length ≤ MAX_TRACE) : parse t.encode = .ok t := by
  have file := Holds.self t.encode
  have records : ∀ r ∈ t.runs.flatMap records, r.Canonical := by
    intro r mem
    obtain ⟨run, among, mem⟩ := mem_flatMap.mp mem
    rcases mem_cons.mp mem with rfl | mem
    · exact (canonical run among).head
    · rcases mem_append.mp mem with mem | mem
      · obtain ⟨s, among', rfl⟩ := mem_map.mp mem
        exact ((canonical run among).steps s among').1
      · rw [mem_toList, map_eq_some_iff] at mem
        obtain ⟨e, found, rfl⟩ := mem
        exact ((canonical run among).fin e found).1
  have shaLength : ((finRange 4).flatMap fun s => ofFn (t.slotSha s)).length = 128 := by
    simp [finRange]
  have afterMagic := file.right_at (k := 4) rfl
  have shas := afterMagic.right_at (k := 8) rfl
  have body := shas.right_at (k := HEADER) (by rw [shaLength]; rfl)
  have sha : (fun (s : Fin 4) (i : Fin 32) => t.encode.getD (8 + 32 * s + i) 0) = t.slotSha := by
    funext s i
    have held := shas.left.field (fun x _ => length_ofFn) (i := s) (by simp)
    rw [get_eq_getElem, getElem_finRange] at held
    exact ofFn_of_holds held i
  have length : t.encode.length = HEADER + ((t.runs.flatMap Trace.records).flatMap frame).length := by
    rw [encode, length_append, length_append, length_append, ← Nat.add_assoc, ← Nat.add_assoc]
    rfl
  have rest : t.encode.drop HEADER = (t.runs.flatMap Trace.records).flatMap frame := by
    have all := body.take
    rwa [take_of_length_le] at all
    rw [length_drop]
    omega
  have magic : ¬ (t.encode.take 4 ≠ TRACE_MAGIC ∨ le32 t.encode 4 ≠ TRACE_VERSION) := by
    rw [not_or, not_not, not_not]
    exact ⟨rfl, le32_of_holds afterMagic.left⟩
  have enough : (t.runs.flatMap Trace.records).length < t.encode.length := by
    have bytes := length_flatMap_frame (t.runs.flatMap Trace.records)
    rw [length, HEADER]
    omega
  rw [parse, if_neg (Nat.not_lt.mpr small), if_neg (by rw [length]; omega), if_neg magic, sha,
    rest, parseRecords_frames records enough, Grouping.foldl_runs _ canonical, nil_append,
    ← whole]

end Trace

end Unheaded.Cart
