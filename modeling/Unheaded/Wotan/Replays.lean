import Unheaded.Wotan.Publish

/-!
# Copies of one signed message

A verifier remembers a signature until its time is out of the window.
-/

namespace Unheaded.Wotan

open Lib List PublishStep

def Stage.ticket? : Stage → Option Ticket
  | .timed _ ticket => some ticket
  | .swept _ ticket => some ticket
  | .passed _ ticket => ticket
  | .ready _ ticket => ticket
  | _ => none

def Stage.sweep? : Stage → Option Ticket
  | .timed _ ticket => some ticket
  | _ => none

/-- The call has passed `Verify` and is not accepted yet. -/
def Stage.verified : Stage → Bool
  | .passed _ _ => true
  | .ready _ _ => true
  | _ => false

/-- A copy of a signed message: the topic, the signature and its time. -/
structure Copied where
  topic : List Byte
  signature : List Byte
  signedAt : Int64
  deriving DecidableEq

def PublishRequest.copied (req : PublishRequest) : Copied :=
  ⟨req.topic, req.signed.signature, req.signed.signedAt⟩

theorem PublishRequest.of_copied {req : PublishRequest} {message : Copied}
    (h : req.copied = message) :
    req.topic = message.topic ∧ req.signed.signature = message.signature ∧
      req.signed.signedAt = message.signedAt :=
  ⟨congrArg Copied.topic h, congrArg Copied.signature h, congrArg Copied.signedAt h⟩

namespace Publishing

def copiesOf (message : Copied) (s : Publishing) : List Taken :=
  s.accepted.filter fun a => decide (a.req.copied = message) && a.ticket.isSome

/-- When a verifier forgets a signature, no other call that carries it has read
the clock while its time was in the window, unless it is over. -/
def Clear (crypto : Crypto) (s : Publishing) : PublishStep → Prop
  | .forget i => ∀ call ∈ s.calls[i]?, ∀ sweep ∈ call.stage.sweep?, ∀ tv ∈ s.policy.verifiers sweep.pfx,
      ∀ other ∈ s.calls, ∀ ticket ∈ other.stage.ticket?, ticket.pfx = sweep.pfx →
        TopicVerifier.Fresh ticket.now other.req.signed.signedAt →
          ∀ expiry ∈ tv.seen (crypto.sum256 other.req.signed.signature), sweep.now ≤ expiry
  | _ => True

instance decidableClear (crypto : Crypto) (s : Publishing) :
    (e : PublishStep) → Decidable (Clear crypto s e)
  | .forget i => inferInstanceAs (Decidable (∀ call ∈ s.calls[i]?, ∀ sweep ∈ call.stage.sweep?,
      ∀ tv ∈ s.policy.verifiers sweep.pfx, ∀ other ∈ s.calls, ∀ ticket ∈ other.stage.ticket?,
        ticket.pfx = sweep.pfx → TopicVerifier.Fresh ticket.now other.req.signed.signedAt →
          ∀ expiry ∈ tv.seen (crypto.sum256 other.req.signed.signature), sweep.now ≤ expiry))
  | .pass _ | .arrive _ | .authorize _ _ | .examine _ | .verify _ | .ensure _ _ | .accept _
  | .store _ _ => isTrue trivial

variable {crypto : Crypto} {s s' : Publishing} {e : PublishStep} {message : Copied} {i : Nat}
  {call : Call}

/-- What holds of the signature that a call carries. -/
structure TicketSound (policy : Policy) (clock : Int) (call : Call) (ticket : Ticket) : Prop where
  pfx_eq : ticket.pfx = policy.prefixFor call.req.topic
  now_le : ticket.now ≤ clock
  fresh : call.stage.verified = true → TopicVerifier.Fresh ticket.now call.req.signed.signedAt

/-- The message is remembered by its verifier. -/
def Remembered (crypto : Crypto) (message : Copied) (policy : Policy) : Prop :=
  ∃ tv, policy.verifiers (policy.prefixFor message.topic) = some tv ∧
    tv.seen (crypto.sum256 message.signature) = some (message.signedAt.toInt + MaxSkew)

/-- The message is out of time, for every copy that is under way as well. -/
def Expired (message : Copied) (s : Publishing) : Prop :=
  message.signedAt.toInt + MaxSkew < s.clock ∧ ∀ call ∈ s.calls, call.req.copied = message →
    ∀ ticket ∈ call.stage.ticket?, ¬ TopicVerifier.Fresh ticket.now message.signedAt

/-- What holds in every state. -/
structure Sound (crypto : Crypto) (message : Copied) (s : Publishing) : Prop where
  tickets : ∀ call ∈ s.calls, ∀ ticket ∈ call.stage.ticket?, TicketSound s.policy s.clock call ticket
  once : (copiesOf message s).length ≤ 1
  closed : copiesOf message s ≠ [] → Remembered crypto message s.policy ∨ Expired message s

theorem Sound.new (crypto : Crypto) (message : Copied) (clock : Int) (policy : Policy) :
    Sound crypto message (new clock policy) where
  tickets _ hcall := absurd hcall not_mem_nil
  once := Nat.zero_le 1
  closed h := absurd rfl h

variable {now : Int}

theorem not_fresh_of_late {signedAt : Int64} (h : signedAt.toInt + MaxSkew < now) :
    ¬ TopicVerifier.Fresh now signedAt := by
  intro hfresh
  have := hfresh.1
  omega

theorem Sound.pass {time : Int} (h : Sound crypto message s) (hlater : s.clock ≤ time) :
    Sound crypto message { s with clock := time } where
  tickets call hcall ticket hticket := { h.tickets call hcall ticket hticket with
      now_le := (h.tickets call hcall ticket hticket).now_le.trans hlater }
  once := h.once
  closed hcopies := by
    rcases h.closed hcopies with hremembered | ⟨hlate, hcalls⟩
    · exact Or.inl hremembered
    · exact Or.inr ⟨hlate.trans_le hlater, hcalls⟩

theorem Sound.arrive (h : Sound crypto message s) (req : PublishRequest) :
    Sound crypto message { s with calls := s.calls ++ [⟨req, .arrived⟩] } where
  tickets call hcall ticket hticket := by
    rcases mem_append.mp hcall with hold | hnew
    · exact h.tickets call hold ticket hticket
    · obtain rfl : call = ⟨req, .arrived⟩ := by simpa using hnew
      exact absurd hticket (by simp [Stage.ticket?])
  once := h.once
  closed hcopies := by
    rcases h.closed hcopies with hremembered | ⟨hlate, hcalls⟩
    · exact Or.inl hremembered
    · refine Or.inr ⟨hlate, fun call hcall hcopied ticket hticket => ?_⟩
      rcases mem_append.mp hcall with hold | hnew
      · exact hcalls call hold hcopied ticket hticket
      · obtain rfl : call = ⟨req, .arrived⟩ := by simpa using hnew
        exact absurd hticket (by simp [Stage.ticket?])

variable {stage : Stage}

theorem Expired.restage (h : Expired message s) (hfound : s.calls[i]? = some call)
    (hkept : ∀ ticket ∈ stage.ticket?, ticket ∈ call.stage.ticket? ∨ ticket.now = s.clock) :
    ∀ call' ∈ s.setStage i call stage, call'.req.copied = message →
      ∀ ticket ∈ call'.stage.ticket?, ¬ TopicVerifier.Fresh ticket.now message.signedAt := by
  intro call' hcall' hcopied ticket hticket
  rcases mem_setStage hcall' with hold | rfl
  · exact h.2 call' hold hcopied ticket hticket
  · rcases hkept ticket hticket with hbefore | hnow
    · exact h.2 call (mem_of_getElem? hfound) hcopied ticket hbefore
    · rw [hnow]
      exact not_fresh_of_late h.1

theorem Sound.restage (h : Sound crypto message s) (hfound : s.calls[i]? = some call)
    (hkept : ∀ ticket ∈ stage.ticket?, ticket ∈ call.stage.ticket? ∨ ticket.now = s.clock)
    (hsound : ∀ ticket ∈ stage.ticket?, TicketSound s.policy s.clock { call with stage := stage } ticket) :
    Sound crypto message { s with calls := s.setStage i call stage } where
  tickets call' hcall' ticket hticket := by
    rcases mem_setStage hcall' with hold | rfl
    · exact h.tickets call' hold ticket hticket
    · exact hsound ticket hticket
  once := h.once
  closed hcopies := by
    rcases h.closed hcopies with hremembered | hexpired
    · exact Or.inl hremembered
    · exact Or.inr ⟨hexpired.1, hexpired.restage hfound hkept⟩

theorem Sound.release (stage : Stage) (h : Sound crypto message s) (hfound : s.calls[i]? = some call)
    (hnone : stage.ticket? = none) :
    Sound crypto message { s with calls := s.setStage i call stage } :=
  h.restage hfound (fun ticket hticket => absurd hticket (by simp [hnone]))
    fun ticket hticket => absurd hticket (by simp [hnone])

variable {ticket : Ticket}

theorem examine_some {policy : Policy} {req : PublishRequest}
    (h : Wotan.examine policy now req = .ok (some ticket)) :
    ticket = ⟨policy.prefixFor req.topic, now⟩ := by
  simp only [Wotan.examine] at h
  split at h
  · cases h
  · split at h
    · cases h
    · split at h
      · cases h
      · split at h
        · cases h
        · split at h
          · cases h
          · rw [Except.ok.injEq, Option.some.injEq] at h
            exact h.symm

variable {caller : Caller}

theorem Sound.time (h : Sound crypto message s) (hfound : s.calls[i]? = some call)
    (hbound : Wotan.examine s.policy s.clock call.req = .ok (some ticket)) :
    Sound crypto message { s with calls := s.setStage i call (.timed caller ticket) } := by
  have hticket := examine_some hbound
  refine h.restage hfound ?_ ?_
  · intro ticket' hticket'
    obtain rfl : ticket = ticket' := by simpa [Stage.ticket?] using hticket'
    right
    rw [hticket]
  · intro ticket' hticket'
    obtain rfl : ticket = ticket' := by simpa [Stage.ticket?] using hticket'
    refine ⟨by rw [hticket], by rw [hticket], fun hverified => ?_⟩
    exact absurd hverified (by simp [Stage.verified])

theorem Sound.proceed (h : Sound crypto message s) (hfound : s.calls[i]? = some call)
    (hkept : stage.ticket? = call.stage.ticket?)
    (hfresh : ∀ ticket ∈ call.stage.ticket?, stage.verified = true →
      TopicVerifier.Fresh ticket.now call.req.signed.signedAt) :
    Sound crypto message { s with calls := s.setStage i call stage } := by
  have hcall := mem_of_getElem? hfound
  refine h.restage hfound ?_ ?_
  · intro ticket hticket
    exact Or.inl (hkept ▸ hticket)
  · intro ticket hticket
    rw [hkept] at hticket
    have hsound := h.tickets call hcall ticket hticket
    exact ⟨hsound.pfx_eq, hsound.now_le, hfresh ticket hticket⟩

variable {tv : TopicVerifier}

theorem check_ok {topic sender payload : List Byte} {sg : Signed}
    (h : tv.check crypto now topic sender payload sg = .ok ()) :
    TopicVerifier.Fresh now sg.signedAt ∧ verifySignature crypto topic sender payload sg = .ok () := by
  rw [TopicVerifier.check] at h
  split at h
  · cases h
  · rename_i hfresh
    refine ⟨not_not.mp hfresh, ?_⟩
    cases hverify : verifySignature crypto topic sender payload sg with
    | ok => rfl
    | error e =>
      simp [hverify, bind, Except.bind] at h

@[simp] theorem put_self (policy : Policy) (pfx : List Byte) (tv : TopicVerifier) :
    (policy.put pfx tv).verifiers pfx = some tv := if_pos rfl

theorem put_of_ne {pfx q : List Byte} (policy : Policy) (tv : TopicVerifier) (h : q ≠ pfx) :
    (policy.put pfx tv).verifiers q = policy.verifiers q := if_neg h

/-- A verifier forgets.  If it forgets the message, then no copy of it is left
that could still pass. -/
theorem Sound.forget (h : Sound crypto message s) (hfound : s.calls[i]? = some call)
    (hstage : call.stage = .timed caller ticket)
    (hverifier : s.policy.verifiers ticket.pfx = some tv) (hclear : Clear crypto s (.forget i)) :
    Sound crypto message { s with
        policy := s.policy.put ticket.pfx (tv.forget ticket.now)
        calls := s.setStage i call (.swept caller ticket) } := by
  have hcall := mem_of_getElem? hfound
  have hticket : ticket ∈ call.stage.ticket? := by rw [hstage]; rfl
  have hsound := h.tickets call hcall ticket hticket
  have hkept : ∀ ticket' ∈ (Stage.swept caller ticket).ticket?, ticket' ∈ call.stage.ticket? := by
    intro ticket' hticket'
    rw [hstage]
    exact hticket'
  constructor
  · intro call' hcall' ticket' hticket'
    rcases mem_setStage hcall' with hold | rfl
    · exact { h.tickets call' hold ticket' hticket' with }
    · have hsame := h.tickets call hcall ticket' (hkept ticket' hticket')
      refine ⟨hsame.pfx_eq, hsame.now_le, fun hverified => ?_⟩
      exact absurd hverified (by simp [Stage.verified])
  · exact h.once
  · intro hcopies
    rcases h.closed hcopies with ⟨tv', htv', hseen⟩ | hexpired
    · by_cases hpfx : s.policy.prefixFor message.topic = ticket.pfx
      · obtain rfl : tv = tv' := by
          rw [hpfx, hverifier, Option.some.injEq] at htv'
          exact htv'
        by_cases hnow : ticket.now ≤ message.signedAt.toInt + MaxSkew
        · left
          refine ⟨tv.forget ticket.now, ?_, ?_⟩
          · rw [← hpfx]
            exact put_self _ _ _
          · rw [TopicVerifier.forget]
            simp only [hseen, Option.filter, hnow, decide_true, if_true]
        · right
          have hlate := not_le.mp hnow
          refine ⟨hlate.trans_le hsound.now_le, fun call' hcall' hcopied ticket' hticket' hfresh => ?_⟩
          -- a copy with a fresh time is what the condition excludes
          have hother : ∀ other ∈ s.calls, other.req.copied = message →
              ticket' ∈ other.stage.ticket? → False := by
            intro other hmem heq hcarries
            obtain ⟨htopic, hsig, hat⟩ := PublishRequest.of_copied heq
            have hpfx' := (h.tickets other hmem ticket' hcarries).pfx_eq
            rw [htopic, hpfx] at hpfx'
            have hexpiry := hclear call hfound ticket (by rw [hstage]; rfl) tv hverifier other hmem
              ticket' hcarries hpfx' (hat ▸ hfresh) (message.signedAt.toInt + MaxSkew)
              (by rw [hsig]; exact hseen)
            omega
          rcases mem_setStage hcall' with hold | rfl
          · exact hother call' hold hcopied hticket'
          · exact hother call hcall hcopied (hkept ticket' hticket')
      · left
        exact ⟨tv', (put_of_ne s.policy _ hpfx).trans htv', hseen⟩
    · exact Or.inr ⟨hexpired.1, hexpired.restage hfound fun ticket' hticket' =>
        Or.inl (hkept ticket' hticket')⟩

theorem copiesOf_append (message : Copied) (s : Publishing) (a : Taken) :
    copiesOf message { s with accepted := s.accepted ++ [a] } =
      copiesOf message s ++ if a.req.copied = message ∧ a.ticket.isSome = true then [a] else [] := by
  rw [copiesOf, filter_append]
  congr 1
  by_cases hcopy : a.req.copied = message <;> cases hticket : a.ticket <;> simp [hcopy, hticket]

theorem Sound.takeUnsigned (h : Sound crypto message s) (hfound : s.calls[i]? = some call) :
    Sound crypto message { s with
        calls := s.setStage i call (.taken caller)
        accepted := s.accepted ++ [⟨call.req, caller.sender, none⟩] } := by
  have hreleased := h.release (.taken caller) hfound rfl
  have hsame : copiesOf message { s with
        calls := s.setStage i call (.taken caller)
        accepted := s.accepted ++ [⟨call.req, caller.sender, none⟩] } = copiesOf message s := by
    have happend := copiesOf_append message s ⟨call.req, caller.sender, none⟩
    rwa [if_neg (by simp), append_nil] at happend
  refine ⟨hreleased.tickets, ?_, ?_⟩
  · rw [hsame]
    exact h.once
  · rw [hsame]
    exact hreleased.closed

/-- The first copy is remembered; a later one finds it so, or is out of time. -/
theorem Sound.takeSigned (h : Sound crypto message s) (hfound : s.calls[i]? = some call)
    (hstage : call.stage = .ready caller (some ticket))
    (hverifier : s.policy.verifiers ticket.pfx = some tv)
    (hunused : tv.seen (crypto.sum256 call.req.signed.signature) = none) :
    Sound crypto message { s with
        policy := s.policy.put ticket.pfx
          (tv.remember (crypto.sum256 call.req.signed.signature) call.req.signed.signedAt)
        calls := s.setStage i call (.taken caller)
        accepted := s.accepted ++ [⟨call.req, caller.sender, some ticket⟩] } := by
  have hcall := mem_of_getElem? hfound
  have hcarries : ticket ∈ call.stage.ticket? := by rw [hstage]; rfl
  have hsound := h.tickets call hcall ticket hcarries
  have hfresh := hsound.fresh (by rw [hstage]; rfl)
  have happend := copiesOf_append message s ⟨call.req, caller.sender, some ticket⟩
  have hreleased := h.release (.taken caller) hfound rfl
  constructor
  · intro call' hcall' ticket' hticket'
    exact { hreleased.tickets call' hcall' ticket' hticket' with }
  · by_cases hcopied : call.req.copied = message
    · have hnone : copiesOf message s = [] := by
        by_contra hcopies
        obtain ⟨htopic, hsig, hat⟩ := PublishRequest.of_copied hcopied
        rcases h.closed hcopies with ⟨tv', htv', hseen⟩ | hexpired
        · rw [← htopic, ← hsound.pfx_eq, hverifier, Option.some.injEq] at htv'
          simp [← htv', ← hsig, hunused] at hseen
        · exact hexpired.2 call hcall hcopied ticket hcarries (hat ▸ hfresh)
      have hone : (copiesOf message
          { s with accepted := s.accepted ++ [⟨call.req, caller.sender, some ticket⟩] }).length ≤ 1 := by
        rw [happend, hnone, if_pos ⟨hcopied, rfl⟩]
        exact Nat.le_refl 1
      exact hone
    · have hsame : (copiesOf message
          { s with accepted := s.accepted ++ [⟨call.req, caller.sender, some ticket⟩] }).length ≤ 1 := by
        rw [happend, if_neg (fun hboth => hcopied hboth.1), append_nil]
        exact h.once
      exact hsame
  · intro hcopies
    by_cases hcopied : call.req.copied = message
    · left
      obtain ⟨htopic, hsig, hat⟩ := PublishRequest.of_copied hcopied
      refine ⟨tv.remember (crypto.sum256 call.req.signed.signature) call.req.signed.signedAt, ?_, ?_⟩
      · rw [← htopic]
        exact if_pos hsound.pfx_eq.symm
      · rw [← hsig, ← hat]
        exact if_pos rfl
    · have hbefore : copiesOf message s ≠ [] := by
        intro hnone
        refine hcopies ?_
        have hstill : copiesOf message
            { s with accepted := s.accepted ++ [⟨call.req, caller.sender, some ticket⟩] } = [] := by
          rw [happend, if_neg (fun hboth => hcopied hboth.1), append_nil]
          exact hnone
        exact hstill
      rcases hreleased.closed hbefore with ⟨tv', htv', hseen⟩ | hexpired
      · left
        by_cases hpfx : s.policy.prefixFor message.topic = ticket.pfx
        · obtain rfl : tv = tv' := by
            rw [hpfx, hverifier, Option.some.injEq] at htv'
            exact htv'
          refine ⟨tv.remember (crypto.sum256 call.req.signed.signature) call.req.signed.signedAt, ?_, ?_⟩
          · exact if_pos hpfx
          · have hother : crypto.sum256 message.signature ≠ crypto.sum256 call.req.signed.signature := by
              intro heq
              simp [heq, hunused] at hseen
            exact (if_neg hother).trans hseen
        · exact ⟨tv', (put_of_ne s.policy _ hpfx).trans htv', hseen⟩
      · exact Or.inr hexpired

theorem Sound.step (h : Sound crypto message s) (hclear : Clear crypto s e)
    (hstep : Publishing.step crypto s e = some s') : Sound crypto message s' := by
  cases step_cases hstep with
  | pass later => exact h.pass later
  | arrive req => exact h.arrive req
  | refuse error found => exact h.release _ found rfl
  | authorize found stage allowed => exact h.release _ found rfl
  | unsigned found stage free => exact h.release _ found rfl
  | time found stage bound => exact h.time found bound
  | forget found stage verifier => exact h.forget found stage verifier hclear
  | verify found stage verifier checked =>
    refine h.proceed found (by rw [stage]; rfl) fun ticket hticket _ => ?_
    rw [stage, Stage.ticket?, Option.mem_some_iff] at hticket
    subst hticket
    exact (check_ok checked).1
  | @ensure i call caller ticket allowed found stage =>
    refine h.proceed found (by rw [stage]; rfl) fun ticket' hticket _ => ?_
    exact (h.tickets call (mem_of_getElem? found) ticket' hticket).fresh (by rw [stage]; rfl)
  | takeUnsigned found stage => exact h.takeUnsigned found
  | takeSigned found stage verifier unused => exact h.takeSigned found stage verifier unused
  | store found stage => exact h.release _ found rfl

/-- In every run of calls, with any policy and a clock that never goes back, in
which no verifier forgets a signature while another call that carries it has read
the clock in time: of the copies of one signed message at most one is
accepted. -/
theorem signed_once (crypto : Crypto) (clock : Int) (policy : Policy) (steps : List PublishStep)
    (s : Publishing) (message : Copied) (hrun : run crypto (new clock policy) steps = some s)
    (hclear : Throughout (Publishing.step crypto) (Clear crypto) (new clock policy) steps) :
    (copiesOf message s).length ≤ 1 :=
  (hclear.invariant (fun _ _ _ hs hmeet hstep => hs.step hmeet hstep) hrun
    (Sound.new crypto message clock policy)).once

section Witness

def plainKey : List Byte := replicate PublicKeySize 0x4B

def plainSignature : List Byte := replicate SignatureSize 0x53

def plainTopic : List Byte := CONFIG ++ ascii ['a']

def plainCrypto : Crypto where
  sum256 bytes := bytes
  mldsa65 _ signature publicKey := signature.head? = some 0x53 && publicKey.head? = some 0x4B

def plainPolicy : Policy := .of [⟨CONFIG, [plainKey]⟩, ⟨DRIFT, []⟩]

def openMembers : Members := ⟨false, fun _ => none, fun _ => false, fun _ => none, none⟩

def plainRequest : PublishRequest where
  topic := plainTopic
  payload := ascii ['x']
  senderId := []
  displayName := []
  signed := ⟨plainSignature, plainKey, Algorithm, 1000000⟩
  identity := none

/-- Two copies come at once, and both pass `Verify`. -/
def bothVerified : List PublishStep :=
  [.arrive plainRequest, .arrive plainRequest, .authorize 0 openMembers, .authorize 1 openMembers,
    .examine 0, .examine 1, .forget 0, .forget 1, .verify 0, .verify 1, .ensure 0 true,
    .ensure 1 true, .accept 0]

def reached (steps : List PublishStep) : Publishing :=
  (run plainCrypto (new 1000000 plainPolicy) steps).getD (new 1000000 plainPolicy)

theorem run_reached (steps : List PublishStep)
    (h : (run plainCrypto (new 1000000 plainPolicy) steps).isSome = true) :
    run plainCrypto (new 1000000 plainPolicy) steps = some (reached steps) := by
  obtain ⟨s, hs⟩ := Option.isSome_iff_exists.mp h
  rw [reached, hs]
  rfl

theorem second_copy_refused : (reached (bothVerified ++ [accept 1])).accepted.length = 1 ∧
      (copiesOf plainRequest.copied (reached (bothVerified ++ [accept 1]))).length ≤ 1 := by
  have hrun := run_reached (bothVerified ++ [accept 1]) (by decide +kernel)
  have hclear : Throughout (Publishing.step plainCrypto) (Clear plainCrypto) (new 1000000 plainPolicy)
      (bothVerified ++ [accept 1]) := by decide +kernel
  refine ⟨by decide +kernel, ?_⟩
  exact signed_once plainCrypto 1000000 plainPolicy _ _ plainRequest.copied hrun hclear

def lateCopy : List PublishStep :=
  bothVerified ++ [pass 1300001, .arrive plainRequest, .authorize 2 openMembers, .examine 2,
    .forget 2, .accept 1]

theorem late_copy_accepted : newPolicy [plainKey] [] = .ok plainPolicy ∧
      (run plainCrypto (new 1000000 plainPolicy) lateCopy).isSome = true ∧
      (copiesOf plainRequest.copied (reached lateCopy)).length = 2 :=
  ⟨rfl, by decide +kernel, by decide +kernel⟩

end Witness

end Publishing

end Unheaded.Wotan
