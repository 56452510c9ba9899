import Unheaded.Net.Monad

/-!
# Looking up the Monad option

`find_monad_option` of `qos-ebpf` (the other programs carry the same walk), and the IPv6 option
grammar it is to follow.
-/

namespace Unheaded.Net

open Mbc List

/-- The loop of `find_monad_option` with `n` iterations left: the offset found
and the addresses read on the way. -/
def findLoop (mem : Nat → Byte) (optsEnd dataEnd : Nat) : Nat → Nat → Option Nat × List Nat
  | 0, _ => (none, [])
  | n + 1, offset =>
    if optsEnd ≤ offset then (none, [])
    else if dataEnd < offset + 1 then (none, [])
    else if mem offset = 0 then (none, [offset])
    else if mem offset = 1 then
      let r := findLoop mem optsEnd dataEnd n (offset + 1)
      (r.1, offset :: r.2)
    else if dataEnd < offset + 2 then (none, [offset])
    else
      let optDataLen := mem (offset + 1)
      let optTotal := 2 + optDataLen.toNat
      if optTotal < 2 ∨ dataEnd < offset + optTotal then (none, [offset, offset + 1])
      else if mem offset = MONAD_OPT_TYPE ∧ optDataLen = MONAD_OPT_DATA_LEN ∧
          offset + 2 + MONAD_SIZE ≤ dataEnd then (some offset, [offset, offset + 1])
      else
        let r := findLoop mem optsEnd dataEnd n (offset + optTotal)
        (r.1, offset :: (offset + 1) :: r.2)

/-- `find_monad_option`: `none` is `Err(())`. -/
def findMonadOption (mem : Nat → Byte) (optsStart optsEnd dataEnd : Nat) : Option Nat × List Nat :=
  findLoop mem optsEnd dataEnd 16 optsStart

/-- An IPv6 option: one byte of padding, or a type with its data. -/
inductive Ipv6Option where
  | pad1
  | tlv (type : Byte) (data : List Byte) (named : type ≠ 0) (short : data.length < 256)

namespace Ipv6Option

def bytes : Ipv6Option → List Byte
  | pad1 => [0]
  | tlv type data _ _ => type :: BitVec.ofNat 8 data.length :: data

def isMonad : Ipv6Option → Prop
  | pad1 => False
  | tlv type data _ _ => type = MONAD_OPT_TYPE ∧ data.length = MONAD_SIZE

instance (o : Ipv6Option) : Decidable o.isMonad :=
  match o with
  | pad1 => inferInstanceAs (Decidable False)
  | tlv type data _ _ => inferInstanceAs (Decidable (type = MONAD_OPT_TYPE ∧ data.length = MONAD_SIZE))

def isPadding : Ipv6Option → Prop
  | pad1 => True
  | tlv type _ _ _ => type = 1

def area (options : List Ipv6Option) : List Byte := options.flatMap bytes

/-- The offset of the first Monad option of an area that begins at `start`. -/
def firstMonad (start : Nat) : List Ipv6Option → Option Nat
  | [] => none
  | o :: rest => if o.isMonad then some start else firstMonad (start + o.bytes.length) rest

end Ipv6Option

open Ipv6Option

/-- A Hop-by-Hop header whose option area is a well-formed sequence of options inside the packet. -/
structure OptionArea (mem : Nat → Byte) (optsStart optsEnd dataEnd : Nat)
    (options : List Ipv6Option) : Prop where
  few : options.length ≤ 16
  holds : ∀ i b, (area options)[i]? = some b → mem (optsStart + i) = b
  ends : optsEnd = optsStart + (area options).length
  inside : optsEnd ≤ dataEnd

/-- The lookup the grammar asks for: the first Monad option or an error, without a read outside
the option area. -/
def FollowsGrammar (mem : Nat → Byte) (optsStart optsEnd dataEnd : Nat)
    (options : List Ipv6Option) : Prop :=
  (findMonadOption mem optsStart optsEnd dataEnd).1 = firstMonad optsStart options ∧
    ∀ a ∈ (findMonadOption mem optsStart optsEnd dataEnd).2, optsStart ≤ a ∧ a < optsEnd

/-- A Monad option's type and length stand at `offset`. -/
def MonadAt (mem : Nat → Byte) (offset : Nat) : Prop :=
  mem offset = MONAD_OPT_TYPE ∧ mem (offset + 1) = MONAD_OPT_DATA_LEN

/-- `n` options with no end marker and no Monad option among them, type 1 being one byte long. -/
inductive Skims (mem : Nat → Byte) : Nat → Nat → Nat → Prop
  | done (offset : Nat) : Skims mem 0 offset offset
  | single {n offset last : Nat} (one : mem offset = 1) (rest : Skims mem n (offset + 1) last) :
      Skims mem (n + 1) offset last
  | option {n offset last : Nat} (notEnd : mem offset ≠ 0) (notOne : mem offset ≠ 1)
      (other : ¬ MonadAt mem offset)
      (rest : Skims mem n (offset + (2 + (mem (offset + 1)).toNat)) last) :
      Skims mem (n + 1) offset last

theorem Skims.le {mem : Nat → Byte} {n offset last : Nat} (skims : Skims mem n offset last) :
    offset ≤ last := by
  induction skims with
  | done offset => exact Nat.le_refl offset
  | single one rest ih => omega
  | option notEnd notOne other rest ih => omega

section Walk

variable (mem : Nat → Byte) (optsEnd dataEnd : Nat)

/-- The ways one iteration at `offset` ends, with `n` iterations left after it. -/
inductive Visit (n offset : Nat) : Option Nat × List Nat → Prop
  | past (out : optsEnd ≤ offset) : Visit n offset (none, [])
  | endMarker (here : offset < optsEnd) (zero : mem offset = 0) : Visit n offset (none, [offset])
  | single (here : offset < optsEnd) (one : mem offset = 1) :
      Visit n offset ((findLoop mem optsEnd dataEnd n (offset + 1)).1,
        offset :: (findLoop mem optsEnd dataEnd n (offset + 1)).2)
  | cut (here : offset < optsEnd) (notEnd : mem offset ≠ 0) (notOne : mem offset ≠ 1)
      (short : dataEnd < offset + 2) : Visit n offset (none, [offset])
  | overrun (here : offset < optsEnd) (notEnd : mem offset ≠ 0) (notOne : mem offset ≠ 1)
      (read : offset + 2 ≤ dataEnd) (tooLong : dataEnd < offset + (2 + (mem (offset + 1)).toNat)) :
      Visit n offset (none, [offset, offset + 1])
  | found (here : offset < optsEnd) (monad : MonadAt mem offset) (fits : offset + 22 ≤ dataEnd) :
      Visit n offset (some offset, [offset, offset + 1])
  | skipped (here : offset < optsEnd) (notEnd : mem offset ≠ 0) (notOne : mem offset ≠ 1)
      (other : ¬ MonadAt mem offset) (fits : offset + (2 + (mem (offset + 1)).toNat) ≤ dataEnd) :
      Visit n offset ((findLoop mem optsEnd dataEnd n (offset + (2 + (mem (offset + 1)).toNat))).1,
          offset :: (offset + 1) ::
            (findLoop mem optsEnd dataEnd n (offset + (2 + (mem (offset + 1)).toNat))).2)

variable {mem optsEnd dataEnd}

variable {a k m n offset : Nat}

theorem MonadAt.total (monad : MonadAt mem offset) : 2 + (mem (offset + 1)).toNat = 22 := by
  rw [monad.2]
  rfl

theorem findLoop_visit (mem : Nat → Byte) (inside : optsEnd ≤ dataEnd) (n offset : Nat) :
    Visit mem optsEnd dataEnd n offset (findLoop mem optsEnd dataEnd (n + 1) offset) := by
  rw [findLoop]
  split
  next out => exact .past out
  next here =>
    have here := Nat.lt_of_not_le here
    have within : ¬ dataEnd < offset + 1 := by omega
    rw [if_neg within]
    split
    next zero => exact .endMarker here zero
    next notEnd =>
      split
      next one => exact .single here one
      next notOne =>
        split
        next short => exact .cut here notEnd notOne short
        next read =>
          have read := Nat.le_of_not_lt read
          dsimp only
          split
          next tooLong =>
            rcases tooLong with tiny | tooLong
            · omega
            · exact .overrun here notEnd notOne read tooLong
          next fits =>
            obtain ⟨-, fits⟩ := not_or.mp fits
            split
            next monad => exact .found here ⟨monad.1, monad.2.1⟩ monad.2.2
            next other =>
              have fits := Nat.le_of_not_lt fits
              have notMonad : ¬ MonadAt mem offset := by
                intro monad
                have total := monad.total
                exact other ⟨monad.1, monad.2, by unfold MONAD_SIZE; omega⟩
              exact .skipped here notEnd notOne notMonad fits

theorem findLoop_skims (inside : optsEnd ≤ dataEnd) (skims : Skims mem m offset k)
    (here : k < optsEnd) (n : Nat) :
    (findLoop mem optsEnd dataEnd (m + n) offset).1 = (findLoop mem optsEnd dataEnd n k).1 ∧
      ∀ a ∈ (findLoop mem optsEnd dataEnd n k).2,
        a ∈ (findLoop mem optsEnd dataEnd (m + n) offset).2 := by
  induction skims with
  | done offset =>
    rw [Nat.zero_add]
    exact ⟨rfl, fun a member => member⟩
  | @single m offset last one rest ih =>
    obtain ⟨found, reads⟩ := ih here
    have order := rest.le
    rw [Nat.succ_add]
    generalize eq : findLoop mem optsEnd dataEnd (m + n + 1) offset = r
    have visit := findLoop_visit mem inside (m + n) offset
    rw [eq] at visit
    cases visit with
    | past out => omega
    | endMarker _ zero => exact absurd (zero.symm.trans one) (by decide)
    | single _ _ => exact ⟨found, fun a member => mem_cons_of_mem _ (reads a member)⟩
    | cut _ _ notOne _ => exact absurd one notOne
    | overrun _ _ notOne _ _ => exact absurd one notOne
    | found _ monad _ => exact absurd (monad.1.symm.trans one) (by decide)
    | skipped _ _ notOne _ _ => exact absurd one notOne
  | @option m offset last notEnd notOne other rest ih =>
    obtain ⟨found, reads⟩ := ih here
    have order := rest.le
    rw [Nat.succ_add]
    generalize eq : findLoop mem optsEnd dataEnd (m + n + 1) offset = r
    have visit := findLoop_visit mem inside (m + n) offset
    rw [eq] at visit
    cases visit with
    | past out => omega
    | endMarker _ zero => exact absurd zero notEnd
    | single _ one => exact absurd one notOne
    | cut _ _ _ short => omega
    | overrun _ _ _ _ tooLong => omega
    | found _ monad _ => exact absurd monad other
    | skipped _ _ _ _ _ =>
      refine ⟨found, ?_⟩
      intro a member
      exact mem_cons_of_mem _ (mem_cons_of_mem _ (reads a member))

def LastByteAt (mem : Nat → Byte) (optsEnd dataEnd offset : Nat) : Prop :=
  mem offset ≠ 0 ∧ mem offset ≠ 1 ∧ offset + 1 = optsEnd ∧ offset + 2 ≤ dataEnd

theorem skims_of_found (inside : optsEnd ≤ dataEnd)
    (found : (findLoop mem optsEnd dataEnd n offset).1 = some k) :
    ∃ m < n, Skims mem m offset k ∧ MonadAt mem k ∧ k < optsEnd ∧ k + 22 ≤ dataEnd := by
  induction n generalizing offset with
  | zero => cases found
  | succ n ih =>
    generalize eq : findLoop mem optsEnd dataEnd (n + 1) offset = r at found
    have visit := findLoop_visit mem inside n offset
    rw [eq] at visit
    cases visit with
    | past out => cases found
    | endMarker here zero => cases found
    | single here one =>
      obtain ⟨m, fewer, skims, monad⟩ := ih found
      exact ⟨m + 1, Nat.succ_lt_succ fewer, .single one skims, monad⟩
    | cut here notEnd notOne short => cases found
    | overrun here notEnd notOne read tooLong => cases found
    | found here monad fits =>
      cases found
      exact ⟨0, Nat.succ_pos n, .done k, monad, here, fits⟩
    | skipped here notEnd notOne other fits =>
      obtain ⟨m, fewer, skims, monad⟩ := ih found
      exact ⟨m + 1, Nat.succ_lt_succ fewer, .option notEnd notOne other skims, monad⟩

theorem read_pair (here : offset < optsEnd) (notEnd : mem offset ≠ 0) (notOne : mem offset ≠ 1)
    (read : offset + 2 ≤ dataEnd) (member : a ∈ [offset, offset + 1]) : offset ≤ a ∧ (a < optsEnd ∨
      ∃ m < n + 1, ∃ k, Skims mem m offset k ∧ LastByteAt mem optsEnd dataEnd k) := by
  rcases mem_cons.mp member with rfl | second
  · exact ⟨Nat.le_refl a, .inl here⟩
  · cases mem_singleton.mp second
    refine ⟨Nat.le_succ offset, ?_⟩
    by_cases last : offset + 1 = optsEnd
    · exact .inr ⟨0, Nat.succ_pos n, offset, .done offset, notEnd, notOne, last, read⟩
    · exact .inl (by omega)

theorem skims_of_read (inside : optsEnd ≤ dataEnd)
    (member : a ∈ (findLoop mem optsEnd dataEnd n offset).2) : offset ≤ a ∧ (a < optsEnd ∨
      ∃ m < n, ∃ k, Skims mem m offset k ∧ LastByteAt mem optsEnd dataEnd k) := by
  induction n generalizing offset with
  | zero => cases member
  | succ n ih =>
    generalize eq : findLoop mem optsEnd dataEnd (n + 1) offset = r at member
    have visit := findLoop_visit mem inside n offset
    rw [eq] at visit
    cases visit with
    | past out => cases member
    | endMarker here zero =>
      cases mem_singleton.mp member
      exact ⟨Nat.le_refl a, .inl here⟩
    | single here one =>
      rcases mem_cons.mp member with rfl | deeper
      · exact ⟨Nat.le_refl a, .inl here⟩
      · obtain ⟨order, inArea | ⟨m, fewer, k, skims, last⟩⟩ := ih deeper
        · exact ⟨Nat.le_of_succ_le order, .inl inArea⟩
        · exact ⟨Nat.le_of_succ_le order,
            .inr ⟨m + 1, Nat.succ_lt_succ fewer, k, .single one skims, last⟩⟩
    | cut here notEnd notOne short =>
      cases mem_singleton.mp member
      exact ⟨Nat.le_refl a, .inl here⟩
    | overrun here notEnd notOne read tooLong => exact read_pair here notEnd notOne read member
    | found here monad fits =>
      have notEnd : mem offset ≠ 0 := by
        rw [monad.1]
        decide
      have notOne : mem offset ≠ 1 := by
        rw [monad.1]
        decide
      exact read_pair here notEnd notOne (by omega) member
    | skipped here notEnd notOne other fits =>
      rcases mem_cons.mp member with rfl | rest
      · exact ⟨Nat.le_refl a, .inl here⟩
      · rcases mem_cons.mp rest with rfl | deeper
        · exact read_pair here notEnd notOne (by omega) (by simp)
        · obtain ⟨order, inArea | ⟨m, fewer, k, skims, last⟩⟩ := ih deeper
          · exact ⟨by omega, .inl inArea⟩
          · exact ⟨by omega, .inr ⟨m + 1, Nat.succ_lt_succ fewer, k,
              .option notEnd notOne other skims, last⟩⟩

theorem findLoop_monad (inside : optsEnd ≤ dataEnd) (here : offset < optsEnd)
    (monad : MonadAt mem offset) (fits : offset + 22 ≤ dataEnd) (n : Nat) :
    (findLoop mem optsEnd dataEnd (n + 1) offset).1 = some offset := by
  have total := monad.total
  generalize eq : findLoop mem optsEnd dataEnd (n + 1) offset = r
  have visit := findLoop_visit mem inside n offset
  rw [eq] at visit
  cases visit with
  | past out => exact absurd here (Nat.not_lt.mpr out)
  | endMarker _ zero => exact absurd (zero.symm.trans monad.1) (by decide)
  | single _ one => exact absurd (one.symm.trans monad.1) (by decide)
  | cut _ _ _ short => omega
  | overrun _ _ _ _ tooLong => omega
  | found _ _ _ => rfl
  | skipped _ _ _ other _ => exact absurd monad other

theorem findLoop_last (inside : optsEnd ≤ dataEnd) (last : LastByteAt mem optsEnd dataEnd offset)
    (n : Nat) : offset + 1 ∈ (findLoop mem optsEnd dataEnd (n + 1) offset).2 := by
  obtain ⟨notEnd, notOne, ends, read⟩ := last
  generalize eq : findLoop mem optsEnd dataEnd (n + 1) offset = r
  have visit := findLoop_visit mem inside n offset
  rw [eq] at visit
  cases visit with
  | past out => omega
  | endMarker _ zero => exact absurd zero notEnd
  | single _ one => exact absurd one notOne
  | cut _ _ _ short => omega
  | overrun _ _ _ _ _ => simp
  | found _ _ _ => simp
  | skipped _ _ _ _ _ => simp

theorem Skims.le_monad (skims : Skims mem m offset k) (monad : MonadAt mem k) {m' k' : Nat}
    (other : Skims mem m' offset k') : k' ≤ k := by
  have blocked (here : MonadAt mem k) (j : Nat) (further : Skims mem j k k') : k' ≤ k := by
    cases further with
    | done => exact Nat.le_refl k
    | single one rest => exact absurd (one.symm.trans here.1) (by decide)
    | option notEnd notOne different rest => exact absurd here different
  induction skims generalizing m' with
  | done offset => exact blocked monad m' other
  | single one rest ih =>
    cases other with
    | done => exact Nat.le_of_succ_le rest.le
    | single _ rest' => exact ih monad rest' blocked
    | option _ notOne _ _ => exact absurd one notOne
  | option notEnd notOne different rest ih =>
    cases other with
    | done =>
      have order := rest.le
      omega
    | single one _ => exact absurd one notOne
    | option _ _ _ rest' => exact ih monad rest' blocked

end Walk

/-- The skimming reading agrees with the grammar: it reaches the first Monad option, or, where
there is none, it meets neither what looks like one nor an option at the area's last byte. -/
def SkimmingAgrees (mem : Nat → Byte) (optsStart optsEnd dataEnd : Nat)
    (options : List Ipv6Option) : Prop :=
  match firstMonad optsStart options with
  | some k => ∃ m < 16, Skims mem m optsStart k
  | none => ∀ m < 16, ∀ k, Skims mem m optsStart k →
      ¬ (MonadAt mem k ∧ k < optsEnd ∧ k + 22 ≤ dataEnd) ∧ ¬ LastByteAt mem optsEnd dataEnd k

variable {mem : Nat → Byte}

theorem holds_cons {start : Nat} {o : Ipv6Option} {rest : List Ipv6Option}
    (holds : ∀ i b, (area (o :: rest))[i]? = some b → mem (start + i) = b) :
    (∀ i b, o.bytes[i]? = some b → mem (start + i) = b) ∧
      ∀ i b, (area rest)[i]? = some b → mem (start + o.bytes.length + i) = b := by
  have whole : area (o :: rest) = o.bytes ++ area rest := flatMap_cons
  constructor
  · intro i b get
    apply holds
    rw [whole, List.getElem?_append_left (List.getElem?_eq_some_iff.mp get).1]
    exact get
  · intro i b get
    rw [Nat.add_assoc]
    apply holds
    rw [whole, List.getElem?_append_right (Nat.le_add_right _ _), Nat.add_sub_cancel_left]
    exact get

theorem firstMonad_at {start k : Nat} {options : List Ipv6Option}
    (holds : ∀ i b, (area options)[i]? = some b → mem (start + i) = b)
    (first : firstMonad start options = some k) :
    MonadAt mem k ∧ k + 22 ≤ start + (area options).length := by
  induction options generalizing start with
  | nil => cases first
  | cons o rest ih =>
    have whole : area (o :: rest) = o.bytes ++ area rest := flatMap_cons
    obtain ⟨here, tail⟩ := holds_cons holds
    rw [whole, length_append]
    rw [firstMonad] at first
    split at first
    next monad =>
      cases first
      cases o with
      | pad1 => exact absurd monad id
      | tlv type data named short =>
        obtain ⟨rfl, length⟩ := monad
        refine ⟨⟨here 0 _ rfl, ?_⟩, ?_⟩
        · rw [here 1 _ rfl, length]
          rfl
        · rw [bytes, length_cons, length_cons, length, MONAD_SIZE]
          omega
    next other =>
      obtain ⟨monad, fits⟩ := ih tail first
      refine ⟨monad, ?_⟩
      omega

def Unpadded (options : List Ipv6Option) : Prop := ∀ o ∈ options, ¬ o.isPadding

section Padding

variable {mem : Nat → Byte}

variable {k start : Nat}

theorem sees_option {o : Ipv6Option} (plain : ¬ o.isPadding)
    (here : ∀ i b, o.bytes[i]? = some b → mem (start + i) = b) :
    mem start ≠ 0 ∧ mem start ≠ 1 ∧ (MonadAt mem start → o.isMonad) ∧
      2 + (mem (start + 1)).toNat = o.bytes.length := by
  cases o with
  | pad1 => exact absurd trivial plain
  | tlv type data named short =>
    have typed : mem start = type := here 0 _ rfl
    have sized := here 1 _ rfl
    have length : (mem (start + 1)).toNat = data.length := by
      rw [sized]
      exact Nat.mod_eq_of_lt short
    rw [typed]
    refine ⟨named, plain, ?_, ?_⟩
    · intro monad
      refine ⟨typed.symm.trans monad.1, ?_⟩
      rw [← length, monad.2]
      rfl
    · rw [bytes, length_cons, length_cons]
      omega

variable {options : List Ipv6Option}

theorem skims_unpadded {m : Nat} (holds : ∀ i b, (area options)[i]? = some b → mem (start + i) = b)
    (unpadded : Unpadded options) (skims : Skims mem m start k) :
    start + (area options).length ≤ k ∨
      ∃ o ∈ options, (∀ i b, o.bytes[i]? = some b → mem (k + i) = b) ∧
        k + o.bytes.length ≤ start + (area options).length := by
  induction options generalizing m start with
  | nil => exact .inl skims.le
  | cons o rest ih =>
    have whole : area (o :: rest) = o.bytes ++ area rest := flatMap_cons
    obtain ⟨here, tail⟩ := holds_cons holds
    obtain ⟨notEnd, notOne, -, total⟩ := sees_option (unpadded o mem_cons_self) here
    have size : start + (area (o :: rest)).length =
        start + o.bytes.length + (area rest).length := by
      rw [whole, length_append, Nat.add_assoc]
    rw [size]
    cases skims with
    | done =>
      right
      exact ⟨o, mem_cons_self, here, Nat.le_add_right _ _⟩
    | single one _ => exact absurd one notOne
    | option _ _ _ further =>
      rw [total] at further
      obtain beyond | ⟨next, member, there⟩ := ih tail
        (fun o member => unpadded o (mem_cons_of_mem _ member)) further
      · exact .inl beyond
      · exact .inr ⟨next, mem_cons_of_mem _ member, there⟩

theorem skims_firstMonad (holds : ∀ i b, (area options)[i]? = some b → mem (start + i) = b)
    (unpadded : Unpadded options) (first : firstMonad start options = some k) :
    ∃ m < options.length, Skims mem m start k := by
  induction options generalizing start with
  | nil => cases first
  | cons o rest ih =>
    obtain ⟨here, tail⟩ := holds_cons holds
    obtain ⟨notEnd, notOne, monadic, total⟩ := sees_option (unpadded o mem_cons_self) here
    rw [firstMonad] at first
    split at first
    next monad =>
      cases first
      exact ⟨0, Nat.succ_pos _, .done k⟩
    next other =>
      obtain ⟨m, fewer, skims⟩ := ih tail
        (fun o member => unpadded o (mem_cons_of_mem _ member)) first
      refine ⟨m + 1, Nat.succ_lt_succ fewer, ?_⟩
      rw [← total] at skims
      exact .option notEnd notOne (fun monad => other (monadic monad)) skims

theorem firstMonad_none (none : firstMonad start options = none) : ∀ o ∈ options, ¬ o.isMonad := by
  induction options generalizing start with
  | nil =>
    intro o member
    cases member
  | cons first rest ih =>
    rw [firstMonad] at none
    split at none
    next => cases none
    next other =>
      intro o member
      rcases mem_cons.mp member with rfl | deeper
      · exact other
      · exact ih none o deeper

theorem skimmingAgrees_of_unpadded {optsStart optsEnd dataEnd : Nat}
    (header : OptionArea mem optsStart optsEnd dataEnd options) (unpadded : Unpadded options) :
    SkimmingAgrees mem optsStart optsEnd dataEnd options := by
  unfold SkimmingAgrees
  cases first : firstMonad optsStart options with
  | some k =>
    obtain ⟨m, fewer, skims⟩ := skims_firstMonad header.holds unpadded first
    exact ⟨m, Nat.lt_of_lt_of_le fewer header.few, skims⟩
  | none =>
    intro m fewer k skims
    rcases skims_unpadded header.holds unpadded skims with beyond | ⟨o, member, here, within⟩
    · rw [← header.ends] at beyond
      constructor
      · rintro ⟨-, inside, -⟩
        omega
      · rintro ⟨-, -, ends, -⟩
        omega
    · rw [← header.ends] at within
      obtain ⟨-, -, monadic, total⟩ := sees_option (unpadded o member) here
      constructor
      · rintro ⟨monad, -⟩
        exact firstMonad_none first o member (monadic monad)
      · rintro ⟨-, -, ends, -⟩
        omega

end Padding

/-- The walk follows the option grammar exactly where its own reading agrees with it. -/
theorem find_monad_option_follows_iff {mem : Nat → Byte} {optsStart optsEnd dataEnd : Nat}
    {options : List Ipv6Option} (header : OptionArea mem optsStart optsEnd dataEnd options) :
    FollowsGrammar mem optsStart optsEnd dataEnd options ↔
      SkimmingAgrees mem optsStart optsEnd dataEnd options := by
  have inside := header.inside
  unfold FollowsGrammar SkimmingAgrees findMonadOption
  cases first : firstMonad optsStart options with
  | some k =>
    obtain ⟨monad, fits⟩ := firstMonad_at header.holds first
    rw [← header.ends] at fits
    constructor
    · rintro ⟨found, -⟩
      obtain ⟨m, fewer, skims, -⟩ := skims_of_found inside found
      exact ⟨m, fewer, skims⟩
    · rintro ⟨m, fewer, skims⟩
      have here : k < optsEnd := by omega
      obtain ⟨n, split⟩ := Nat.exists_eq_add_of_lt fewer
      have walk := (findLoop_skims inside skims here (n + 1)).1
      rw [findLoop_monad inside here monad (by omega), ← Nat.add_assoc, ← split] at walk
      refine ⟨walk, ?_⟩
      intro a member
      obtain ⟨order, inArea | ⟨m', -, k', skims', last⟩⟩ := skims_of_read inside member
      · exact ⟨order, inArea⟩
      · have before := skims.le_monad monad skims'
        obtain ⟨-, -, ends, -⟩ := last
        omega
  | none =>
    constructor
    · rintro ⟨found, reads⟩ m fewer k skims
      obtain ⟨n, split⟩ := Nat.exists_eq_add_of_lt fewer
      constructor
      · rintro ⟨monad, here, fits⟩
        have walk := (findLoop_skims inside skims here (n + 1)).1
        simp [findLoop_monad inside here monad fits, ← Nat.add_assoc, ← split, found] at walk
      · intro last
        have here : k < optsEnd := Nat.lt_of_succ_le (Nat.le_of_eq last.2.2.1)
        have read := (findLoop_skims inside skims here (n + 1)).2 _ (findLoop_last inside last n)
        rw [← Nat.add_assoc, ← split] at read
        have within := (reads _ read).2
        rw [last.2.2.1] at within
        exact absurd within (Nat.lt_irrefl optsEnd)
    · intro agrees
      constructor
      · cases found : (findLoop mem optsEnd dataEnd 16 optsStart).1 with
        | none => rfl
        | some k =>
          obtain ⟨m, fewer, skims, monad⟩ := skims_of_found inside found
          exact absurd monad (agrees m fewer k skims).1
      · intro a member
        obtain ⟨order, inArea | ⟨m, fewer, k, skims, last⟩⟩ := skims_of_read inside member
        · exact ⟨order, inArea⟩
        · exact absurd last (agrees m fewer k skims).2

/-- The option `HopByHopHeader::to_bytes` writes. -/
def monadOption (m : Monad) : Ipv6Option :=
  tlv MONAD_OPT_TYPE m.toBytes (by decide) (by rw [Monad.length_toBytes]; decide)

def padN6 : Ipv6Option := tlv 1 [0, 0, 0, 0, 0, 0] (by decide) (by decide)

def optionFrame (options : List Ipv6Option) (a : Nat) : Byte := (area options).getD (a - 56) 0

theorem optionFrame_area {options : List Ipv6Option} (few : options.length ≤ 16) :
    OptionArea (optionFrame options) 56 (56 + (area options).length)
      (56 + (area options).length) options where
  few := few
  holds := by
    intro i b get
    rw [optionFrame, Nat.add_sub_cancel_left, getD_eq_getElem?_getD, get]
    rfl
  ends := rfl
  inside := Nat.le_refl _

theorem header_as_built_follows :
    FollowsGrammar (optionFrame [monadOption (.fromBytes [])]) 56 78 78
      [monadOption (.fromBytes [])] := by
  have header : OptionArea (optionFrame [monadOption (.fromBytes [])]) 56 78 78
      [monadOption (.fromBytes [])] := optionFrame_area (by decide)
  apply (find_monad_option_follows_iff header).mpr
  apply skimmingAgrees_of_unpadded header
  intro o member
  rw [mem_singleton.mp member]
  exact (by decide : (62 : Byte) ≠ 1)

/-- Padding in front of the option: the walk stops inside it. -/
theorem padding_hides_monad : OptionArea (optionFrame [padN6, monadOption (.fromBytes [])]) 56 86 86
        [padN6, monadOption (.fromBytes [])] ∧
      firstMonad 56 [padN6, monadOption (.fromBytes [])] = some 64 ∧
      (findMonadOption (optionFrame [padN6, monadOption (.fromBytes [])]) 56 86 86).1 = none ∧
      ¬ FollowsGrammar (optionFrame [padN6, monadOption (.fromBytes [])]) 56 86 86
        [padN6, monadOption (.fromBytes [])] := by
  have first : firstMonad 56 [padN6, monadOption (.fromBytes [])] = some 64 := by decide
  have lost : (findMonadOption (optionFrame [padN6, monadOption (.fromBytes [])]) 56 86 86).1 =
      none := by decide
  refine ⟨optionFrame_area (by decide), first, lost, ?_⟩
  rintro ⟨found, -⟩
  cases found

end Unheaded.Net
