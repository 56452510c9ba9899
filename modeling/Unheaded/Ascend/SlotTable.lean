import Unheaded.Mbc.HostSyscall

/-!
# The life of a process slot

A slot is taken by a birth, lives until it ends, is then a zombie until its parent collects it,
and is free again.
-/

namespace Unheaded.Ascend

open Mbc

/-- The slots as the scheduler sees them. -/
structure SlotTable where
  running : Nat
  stopped : Bool
  count : Nat
  halted : Nat → Bool
  reaped : Nat → Bool
  parent : Nat → Nat

/-- What a run is observed to do: a slot is handed out, or a slot that ended is
returned to its parent. -/
inductive SlotEvent where
  | born (slot : Nat)
  | returned (slot parent : Nat)
  deriving DecidableEq

namespace SlotTable

variable (t : SlotTable)

def Live (p : Nat) : Prop := p < t.count ∧ t.halted p = false

def Zombie (p : Nat) : Prop := p < t.count ∧ t.halted p = true ∧ t.reaped p = false

def Free (p : Nat) : Prop := t.count ≤ p ∨ t.halted p = true ∧ t.reaped p = true

theorem Free.not_live {t : SlotTable} {p : Nat} (free : t.Free p) : ¬ t.Live p := by
  rintro ⟨counted, alive⟩
  rcases free with beyond | ⟨halted, -⟩
  · exact Nat.not_lt.mpr beyond counted
  · exact Bool.noConfusion (alive.symm.trans halted)

theorem Free.not_zombie {t : SlotTable} {p : Nat} (free : t.Free p) : ¬ t.Zombie p := by
  rintro ⟨counted, -, unreaped⟩
  rcases free with beyond | ⟨-, reaped⟩
  · exact Nat.not_lt.mpr beyond counted
  · exact Bool.noConfusion (unreaped.symm.trans reaped)

def stop : SlotTable := { t with stopped := true }

def run (next : Nat) : SlotTable := { t with running := next }

/-- The running slot gets a child. -/
def born (child : Nat) : SlotTable := { t with
    count := max t.count (child + 1)
    halted := Function.update t.halted child false
    reaped := Function.update t.reaped child false
    parent := Function.update t.parent child t.running }

def collected (child : Nat) : SlotTable :=
  { t with reaped := Function.update t.reaped child true }

def ended (slot : Nat) : SlotTable := { t with
    halted := Function.update t.halted slot true
    parent := fun p => if t.parent p = slot then 0 else t.parent p }

/-- One step, with what is observed of it. -/
inductive Step (t : SlotTable) : Option SlotEvent → SlotTable → Prop where
  | stay : Step t none t
  | stop : Step t none t.stop
  | born {child : Nat} (inside : child < MAX_PROCESSES) (next : child ≤ t.count)
      (free : t.Free child) (on : t.stopped = false) : Step t (some (.born child)) (t.born child)
  | collect {child : Nat} (zombie : t.Zombie child) (mine : t.parent child = t.running) :
      Step t (some (.returned child t.running)) (t.collected child)
  | kill {slot : Nat} (other : slot ≠ t.running) : Step t none (t.ended slot)
  | exit {next : Nat} (live : (t.ended t.running).Live next) :
      Step t none ((t.ended t.running).run next)
  | last : Step t none (t.ended t.running).stop
  | switch {next : Nat} (live : t.Live next) : Step t none (t.run next)

/-- A run, with the events it is observed to make. -/
inductive Run : SlotTable → List SlotEvent → SlotTable → Prop where
  | done (t : SlotTable) : Run t [] t
  | step {t u v : SlotTable} {event : Option SlotEvent} {log : List SlotEvent}
      (first : Step t event u) (rest : Run u log v) : Run t (event.toList ++ log) v

namespace Run

theorem single {t u : SlotTable} {event : Option SlotEvent} (step : Step t event u) :
    Run t event.toList u := by
  have run := Run.step step (.done u)
  rwa [List.append_nil] at run

theorem append {t u v : SlotTable} {first rest : List SlotEvent} (begun : Run t first u)
    (more : Run u rest v) : Run t (first ++ rest) v := by
  induction begun with
  | done t => exact more
  | step first begun ih =>
    rw [List.append_assoc]
    exact .step first (ih more)

end Run

/-- What holds of the slots in every run. -/
structure WellFormed (t : SlotTable) : Prop where
  fits : t.count ≤ MAX_PROCESSES
  ended : ∀ p, t.reaped p = true → t.halted p = true
  counted : t.running < t.count
  alive : t.stopped = false → t.halted t.running = false
  parents : ∀ p, p ≠ 0 → p < t.count → t.reaped p = false → t.parent p = 0 ∨ t.Live (t.parent p)

namespace WellFormed

variable {t : SlotTable}

variable (formed : t.WellFormed)
include formed

theorem stop : t.stop.WellFormed :=
  ⟨formed.fits, formed.ended, formed.counted, fun on => Bool.noConfusion on, formed.parents⟩

theorem run {next : Nat} (live : t.Live next) : (t.run next).WellFormed :=
  ⟨formed.fits, formed.ended, live.1, fun _ => live.2, formed.parents⟩

theorem born {child : Nat} (inside : child < MAX_PROCESSES)
    (next : child ≤ t.count) (free : t.Free child) (on : t.stopped = false) :
    (t.born child).WellFormed := by
  have live : t.Live t.running := ⟨formed.counted, formed.alive on⟩
  -- a live slot is still alive, for it is not the child
  have kept : ∀ p, t.Live p → (t.born child).Live p := by
    intro p alive
    have other : p ≠ child := by
      rintro rfl
      exact free.not_live alive
    exact ⟨Nat.lt_of_lt_of_le alive.1 (Nat.le_max_left _ _),
      (Function.update_of_ne other _ _).trans alive.2⟩
  refine ⟨max_le formed.fits inside, ?_, (kept _ live).1, fun _ => (kept _ live).2, ?_⟩
  · intro p reaped
    by_cases same : p = child
    · subst same
      have fresh : (t.born p).reaped p = false := Function.update_self p _ _
      exact Bool.noConfusion (fresh.symm.trans reaped)
    · have before : t.reaped p = true := (Function.update_of_ne same _ _).symm.trans reaped
      exact (Function.update_of_ne same _ _).trans (formed.ended p before)
  · intro p pos counted unreaped
    by_cases same : p = child
    · subst same
      have parent : (t.born p).parent p = t.running := Function.update_self p _ _
      rw [parent]
      exact Or.inr (kept _ live)
    · have parent : (t.born child).parent p = t.parent p := Function.update_of_ne same _ _
      have unreaped' : t.reaped p = false := (Function.update_of_ne same _ _).symm.trans unreaped
      have counted' : p < t.count := by
        change p < max t.count (child + 1) at counted
        omega
      rw [parent]
      exact (formed.parents p pos counted' unreaped').imp_right (kept _)

theorem collected {child : Nat} (zombie : t.Zombie child) : (t.collected child).WellFormed := by
  refine ⟨formed.fits, ?_, formed.counted, formed.alive, ?_⟩
  · intro p reaped
    by_cases same : p = child
    · subst same
      exact zombie.2.1
    · exact formed.ended p ((Function.update_of_ne same _ _).symm.trans reaped)
  · intro p pos counted unreaped
    by_cases same : p = child
    · subst same
      have marked : (t.collected p).reaped p = true := Function.update_self p _ _
      exact Bool.noConfusion (unreaped.symm.trans marked)
    · exact formed.parents p pos counted ((Function.update_of_ne same _ _).symm.trans unreaped)

theorem ended_parents (slot : Nat) :
    (∀ p, (t.ended slot).reaped p = true → (t.ended slot).halted p = true) ∧
      ∀ p, p ≠ 0 → p < t.count → t.reaped p = false →
        (t.ended slot).parent p = 0 ∨ (t.ended slot).Live ((t.ended slot).parent p) := by
  constructor
  · intro p reaped
    by_cases same : p = slot
    · subst same
      exact Function.update_self p true t.halted
    · exact (Function.update_of_ne same _ _).trans (formed.ended p reaped)
  · intro p pos counted unreaped
    change (if t.parent p = slot then 0 else t.parent p) = 0 ∨
      (t.ended slot).Live (if t.parent p = slot then 0 else t.parent p)
    by_cases orphan : t.parent p = slot
    · rw [if_pos orphan]
      exact Or.inl rfl
    · rw [if_neg orphan]
      refine (formed.parents p pos counted unreaped).imp_right ?_
      rintro ⟨inside, alive⟩
      exact ⟨inside, (Function.update_of_ne orphan _ _).trans alive⟩

theorem kill {slot : Nat} (other : slot ≠ t.running) : (t.ended slot).WellFormed :=
  ⟨formed.fits, (formed.ended_parents slot).1, formed.counted,
    fun on => (Function.update_of_ne other.symm _ _).trans (formed.alive on),
    (formed.ended_parents slot).2⟩

end WellFormed

variable {t u : SlotTable} {event : Option SlotEvent}

theorem Step.wellFormed (step : Step t event u) (formed : t.WellFormed) : u.WellFormed := by
  cases step with
  | stay => exact formed
  | stop => exact formed.stop
  | born inside next free on => exact formed.born inside next free on
  | collect zombie mine => exact formed.collected zombie
  | kill other => exact formed.kill other
  | exit live =>
    obtain ⟨ended, parents⟩ := formed.ended_parents t.running
    exact ⟨formed.fits, ended, live.1, fun _ => live.2, parents⟩
  | last =>
    obtain ⟨ended, parents⟩ := formed.ended_parents t.running
    exact ⟨formed.fits, ended, formed.counted, fun on => Bool.noConfusion on, parents⟩
  | switch live => exact formed.run live

variable {log mid post : List SlotEvent}

theorem Run.wellFormed (run : Run t log u) (formed : t.WellFormed) : u.WellFormed := by
  induction run with
  | done t => exact formed
  | step first rest ih => exact ih (first.wellFormed formed)

variable {c p : Nat}

theorem Step.reaped (step : Step t event u) (reaped : t.reaped c = true)
    (unborn : event ≠ some (.born c)) : u.reaped c = true ∧ ∀ p, event ≠ some (.returned c p) := by
  cases step with
  | stay | stop | kill | exit | last | switch => exact ⟨reaped, fun p => by simp⟩
  | @born child inside next free on =>
    have other : c ≠ child := by
      rintro rfl
      exact unborn rfl
    exact ⟨(Function.update_of_ne other _ _).trans reaped, fun p => by simp⟩
  | @collect child zombie mine =>
    have other : c ≠ child := by
      rintro rfl
      exact Bool.noConfusion (zombie.2.2.symm.trans reaped)
    refine ⟨(Function.update_of_ne other _ _).trans reaped, ?_⟩
    rintro p equal
    cases equal
    exact other rfl

theorem Run.born_before (run : Run t log u) (reaped : t.reaped c = true)
    (split : log = mid ++ SlotEvent.returned c p :: post) : .born c ∈ mid := by
  induction run generalizing mid with
  | done t => cases mid <;> cases split
  | @step t u v event log first rest ih =>
    cases event with
    | none => exact ih (first.reaped reaped (by simp)).1 split
    | some e =>
      by_cases birth : e = .born c
      · subst birth
        cases mid with
        | nil => cases split
        | cons head mid =>
          cases split
          exact List.mem_cons_self
      · have unborn : some e ≠ some (.born c) := fun equal => birth (Option.some.inj equal)
        obtain ⟨still, other⟩ := first.reaped reaped unborn
        cases mid with
        | nil =>
          cases split
          exact absurd rfl (other p)
        | cons head mid =>
          cases split
          exact List.mem_cons_of_mem _ (ih still rfl)

theorem Run.returned_once (run : Run t log u) {q : Nat} {pre : List SlotEvent}
    (split : log = pre ++ SlotEvent.returned c p :: mid ++ SlotEvent.returned c q :: post) :
    .born c ∈ mid := by
  induction run generalizing pre with
  | done t => cases pre <;> cases split
  | @step t u v event log first rest ih =>
    cases event with
    | none => exact ih split
    | some e =>
      cases pre with
      | nil =>
        cases split
        have collected : u.reaped c = true := by
          cases first with
          | collect zombie mine => exact Function.update_self c true t.reaped
        exact rest.born_before collected rfl
      | cons head pre =>
        cases split
        exact ih rfl

end SlotTable

end Unheaded.Ascend
