import Unheaded.Lib.Schedules
import Unheaded.Wotan.Signing

/-!
# Publishing to topics

Many calls of `PublishTopic` are under way at once, and each goes on by itself until it is refused
or its message is stored.
-/

namespace Unheaded.Wotan

open Lib Option

/-- A `TopicPublishRequest`, with the verified subject of its caller. -/
structure PublishRequest where
  topic : List Byte
  payload : List Byte
  senderId : List Byte
  displayName : List Byte
  signed : Signed
  identity : Option (List Byte)
  deriving DecidableEq

/-- What the service asks about members. -/
structure Members where
  requireIdentity : Bool
  parse : List Byte → Option Nat
  isApproved : Nat → Bool
  name : Nat → Option (List Byte)
  autoApproved : Option (Option (List Byte) → List Byte → Bool)

inductive PublishError where
  | topicRequired
  | invalidTopic
  | payloadRequired
  | unauthenticated
  | invalidSenderId
  | senderNotApproved
  | senderOfAnother
  | publisherNotApproved
  | signatureRequired (pfx : List Byte)
  | verifierUnavailable
  | payloadNotUtf8 (pfx : List Byte)
  | signatureInvalid (e : SigningError)
  | publisherRefused
  | roomRefused
  deriving DecidableEq

def defaultPublisherDisplayName : List Byte := ascii ['s', 'e', 'r', 'v', 'i', 'c', 'e']

/-- A caller that may publish. -/
structure Caller where
  sender : List Byte
  publisher : List Byte
  deriving DecidableEq

/-- The first part of `PublishTopic`, up to the signature. -/
def authorize (members : Members) (req : PublishRequest) : Except PublishError Caller :=
  if req.topic = [] then .error .topicRequired
  else if validTopic req.topic = false then .error .invalidTopic
  else if req.payload = [] then .error .payloadRequired
  else if req.identity = none ∧ members.requireIdentity = true then .error .unauthenticated
  else if req.senderId ≠ [] then
    match members.parse req.senderId with
    | none => .error .invalidSenderId
    | some id =>
      if members.isApproved id = false then .error .senderNotApproved
      else if req.identity ≠ none ∧ members.name id ≠ req.identity then .error .senderOfAnother
      else .ok ⟨req.senderId, []⟩
  else
    let displayName := if req.displayName = [] then defaultPublisherDisplayName else req.displayName
    if members.autoApproved.elim false fun approved => !approved req.identity displayName then
      .error .publisherNotApproved
    else .ok ⟨req.identity.getD displayName, req.identity.getD displayName⟩

inductive HttpError where
  | topicRequired
  | topicPattern
  | signatureRequired
  | contentRequired
  | invalidSubscriberId
  | notApproved
  | memberOfAnother
  deriving DecidableEq

variable (entries : List PrefixKeys)

/-- `TopicConfig.RequiresSignature`, of the entries of the configuration. -/
def requiresSignature (topic : List Byte) : Bool :=
  (BuiltinPrefixes.any fun pfx => covers pfx topic) || entries.any fun e => covers e.pfx topic

def memberIsCaller (members : Members) (identity : Option (List Byte)) (id : Nat) : Bool :=
  identity = none || members.name id = identity

/-- The HTTP handler `PublishTopic`: the member that publishes. -/
def httpPublishTopic (members : Members) (identity : Option (List Byte))
    (topic payload subscriberId : List Byte) : Except HttpError Nat :=
  if validPattern topic = false then .error .topicRequired
  else if isPattern topic = true then .error .topicPattern
  else if requiresSignature entries topic = true then .error .signatureRequired
  else if payload = [] then .error .contentRequired
  else
    match members.parse subscriberId with
    | none => .error .invalidSubscriberId
    | some id =>
      if members.isApproved id = false then .error .notApproved
      else if memberIsCaller members identity id = false then .error .memberOfAnother
      else .ok id

/-- The HTTP handler `SendMessage`, to a room by its name. -/
def httpSendMessage (members : Members) (identity : Option (List Byte)) (roomId content : List Byte)
    (memberId : Nat) : Except HttpError Nat :=
  if content = [] ∨ roomId = [] then .error .contentRequired
  else if members.isApproved memberId = false then .error .notApproved
  else if memberIsCaller members identity memberId = false then .error .memberOfAnother
  else if requiresSignature entries roomId = true then .error .signatureRequired
  else .ok memberId

/-- A signature under way: the prefix of its topic and the time that was read. -/
structure Ticket where
  pfx : List Byte
  now : Int
  deriving DecidableEq

/-- The checks of a signed topic that need no lock, with `CheckKey` as the last. -/
def examine (policy : Policy) (now : Int) (req : PublishRequest) : Except PublishError (Option Ticket) :=
  let pfx := policy.prefixFor req.topic
  if pfx = [] then .ok none
  else if req.signed.signature = [] ∨ req.signed.publicKey = [] then .error (.signatureRequired pfx)
  else
    match policy.verifierFor req.topic with
    | none => .error .verifierUnavailable
    | some tv =>
      if validUtf8 req.payload = false then .error (.payloadNotUtf8 pfx)
      else
        match checkKey req.signed tv.trusted with
        | .error e => .error (.signatureInvalid e)
        | .ok () => .ok (some ⟨pfx, now⟩)

/-- Where a call is. -/
inductive Stage where
  | arrived
  | authorized (caller : Caller)
  | timed (caller : Caller) (ticket : Ticket)
  | swept (caller : Caller) (ticket : Ticket)
  | passed (caller : Caller) (ticket : Option Ticket)
  | ready (caller : Caller) (ticket : Option Ticket)
  | taken (caller : Caller)
  | stored (caller : Caller)
  | refused (e : PublishError)
  deriving DecidableEq

structure Call where
  req : PublishRequest
  stage : Stage
  deriving DecidableEq

/-- A message that a call has got past every check, in the order in which they
came to that point. -/
structure Taken where
  req : PublishRequest
  sender : List Byte
  ticket : Option Ticket
  deriving DecidableEq

structure Publishing where
  clock : Int
  policy : Policy
  calls : List Call
  accepted : List Taken

inductive PublishStep where
  | pass (time : Int)
  | arrive (req : PublishRequest)
  | authorize (i : Nat) (members : Members)
  | examine (i : Nat)
  | forget (i : Nat)
  | verify (i : Nat)
  | ensure (i : Nat) (allowed : Bool)
  | accept (i : Nat)
  | store (i : Nat) (allowed : Bool)

namespace Publishing

def new (clock : Int) (policy : Policy) : Publishing := ⟨clock, policy, [], []⟩

def setStage (s : Publishing) (i : Nat) (call : Call) (stage : Stage) : List Call :=
  s.calls.set i { call with stage := stage }

/-- The call goes on, or is refused. -/
def advance (s : Publishing) (i : Nat) (call : Call) (result : Except PublishError Stage) : Publishing :=
  match result with
  | .error e => { s with calls := s.setStage i call (.refused e) }
  | .ok stage => { s with calls := s.setStage i call stage }

def step (crypto : Crypto) (s : Publishing) : PublishStep → Option Publishing
  | .pass time => if s.clock ≤ time then some { s with clock := time } else none
  | .arrive req => some { s with calls := s.calls ++ [⟨req, .arrived⟩] }
  | .authorize i members => do
    let call ← s.calls[i]?
    match call.stage with
    | .arrived => some (s.advance i call ((authorize members call.req).map Stage.authorized))
    | _ => none
  | .examine i => do
    let call ← s.calls[i]?
    match call.stage with
    | .authorized caller => some (s.advance i call ((examine s.policy s.clock call.req).map fun
          | none => .passed caller none
          | some ticket => .timed caller ticket))
    | _ => none
  | .forget i => do
    let call ← s.calls[i]?
    match call.stage with
    | .timed caller ticket => do
      let tv ← s.policy.verifiers ticket.pfx
      some { s with
        policy := s.policy.put ticket.pfx (tv.forget ticket.now)
        calls := s.setStage i call (.swept caller ticket) }
    | _ => none
  | .verify i => do
    let call ← s.calls[i]?
    match call.stage with
    | .swept caller ticket => do
      let tv ← s.policy.verifiers ticket.pfx
      some (s.advance i call
        (((tv.check crypto ticket.now call.req.topic caller.sender call.req.payload
          call.req.signed).mapError PublishError.signatureInvalid).map
            fun _ => .passed caller (some ticket)))
    | _ => none
  | .ensure i allowed => do
    let call ← s.calls[i]?
    match call.stage with
    | .passed caller ticket => some (s.advance i call
        (if caller.publisher ≠ [] ∧ allowed = false then .error .publisherRefused
        else .ok (.ready caller ticket)))
    | _ => none
  | .accept i => do
    let call ← s.calls[i]?
    match call.stage with
    | .ready caller none => some { s with
        calls := s.setStage i call (.taken caller)
        accepted := s.accepted ++ [⟨call.req, caller.sender, none⟩] }
    | .ready caller (some ticket) => do
      let tv ← s.policy.verifiers ticket.pfx
      match tv.accept crypto call.req.signed with
      | .error e => some { s with calls := s.setStage i call (.refused (.signatureInvalid e)) }
      | .ok tv' => some { s with
          policy := s.policy.put ticket.pfx tv'
          calls := s.setStage i call (.taken caller)
          accepted := s.accepted ++ [⟨call.req, caller.sender, some ticket⟩] }
    | _ => none
  | .store i allowed => do
    let call ← s.calls[i]?
    match call.stage with
    | .taken caller => some (s.advance i call
        (if allowed = true then .ok (.stored caller) else .error .roomRefused))
    | _ => none

def run (crypto : Crypto) (s : Publishing) (steps : List PublishStep) : Option Publishing :=
  runAll (step crypto) s steps

variable {crypto : Crypto} {s s' : Publishing} {e : PublishStep}

/-- Everything that a step can do. -/
inductive Steps (crypto : Crypto) (s : Publishing) : PublishStep → Publishing → Prop where
  | pass {time : Int} (later : s.clock ≤ time) : Steps crypto s (.pass time) { s with clock := time }
  | arrive (req : PublishRequest) :
      Steps crypto s (.arrive req) { s with calls := s.calls ++ [⟨req, .arrived⟩] }
  | refuse {i : Nat} {call : Call} {step : PublishStep} (error : PublishError)
      (found : s.calls[i]? = some call) :
      Steps crypto s step { s with calls := s.setStage i call (.refused error) }
  | authorize {i : Nat} {call : Call} {members : Members} {caller : Caller}
      (found : s.calls[i]? = some call) (stage : call.stage = .arrived)
      (allowed : Wotan.authorize members call.req = .ok caller) :
      Steps crypto s (.authorize i members) { s with calls := s.setStage i call (.authorized caller) }
  | unsigned {i : Nat} {call : Call} {caller : Caller} (found : s.calls[i]? = some call)
      (stage : call.stage = .authorized caller)
      (free : Wotan.examine s.policy s.clock call.req = .ok none) :
      Steps crypto s (.examine i) { s with calls := s.setStage i call (.passed caller none) }
  | time {i : Nat} {call : Call} {caller : Caller} {ticket : Ticket}
      (found : s.calls[i]? = some call) (stage : call.stage = .authorized caller)
      (bound : Wotan.examine s.policy s.clock call.req = .ok (some ticket)) :
      Steps crypto s (.examine i) { s with calls := s.setStage i call (.timed caller ticket) }
  | forget {i : Nat} {call : Call} {caller : Caller} {ticket : Ticket} {tv : TopicVerifier}
      (found : s.calls[i]? = some call) (stage : call.stage = .timed caller ticket)
      (verifier : s.policy.verifiers ticket.pfx = some tv) :
      Steps crypto s (.forget i) { s with
          policy := s.policy.put ticket.pfx (tv.forget ticket.now)
          calls := s.setStage i call (.swept caller ticket) }
  | verify {i : Nat} {call : Call} {caller : Caller} {ticket : Ticket} {tv : TopicVerifier}
      (found : s.calls[i]? = some call) (stage : call.stage = .swept caller ticket)
      (verifier : s.policy.verifiers ticket.pfx = some tv)
      (checked : tv.check crypto ticket.now call.req.topic caller.sender call.req.payload
        call.req.signed = .ok ()) :
      Steps crypto s (.verify i) { s with calls := s.setStage i call (.passed caller (some ticket)) }
  | ensure {i : Nat} {call : Call} {caller : Caller} {ticket : Option Ticket} {allowed : Bool}
      (found : s.calls[i]? = some call) (stage : call.stage = .passed caller ticket) :
      Steps crypto s (.ensure i allowed) { s with calls := s.setStage i call (.ready caller ticket) }
  | takeUnsigned {i : Nat} {call : Call} {caller : Caller} (found : s.calls[i]? = some call)
      (stage : call.stage = .ready caller none) :
      Steps crypto s (.accept i) { s with
          calls := s.setStage i call (.taken caller)
          accepted := s.accepted ++ [⟨call.req, caller.sender, none⟩] }
  | takeSigned {i : Nat} {call : Call} {caller : Caller} {ticket : Ticket} {tv : TopicVerifier}
      (found : s.calls[i]? = some call) (stage : call.stage = .ready caller (some ticket))
      (verifier : s.policy.verifiers ticket.pfx = some tv)
      (unused : tv.seen (crypto.sum256 call.req.signed.signature) = none) :
      Steps crypto s (.accept i) { s with
          policy := s.policy.put ticket.pfx
            (tv.remember (crypto.sum256 call.req.signed.signature) call.req.signed.signedAt)
          calls := s.setStage i call (.taken caller)
          accepted := s.accepted ++ [⟨call.req, caller.sender, some ticket⟩] }
  | store {i : Nat} {call : Call} {caller : Caller} {allowed : Bool}
      (found : s.calls[i]? = some call) (stage : call.stage = .taken caller) :
      Steps crypto s (.store i allowed) { s with calls := s.setStage i call (.stored caller) }

theorem step_cases (h : step crypto s e = some s') : Steps crypto s e s' := by
  cases e with
  | pass time =>
    simp only [step] at h
    split at h <;> cases h
    rename_i hle
    exact .pass hle
  | arrive req =>
    rw [step, some.injEq] at h
    subst h
    exact .arrive req
  | authorize i members =>
    simp only [step, bind_eq_bind, bind_eq_some_iff] at h
    obtain ⟨call, hfound, h⟩ := h
    split at h
    · rename_i hstage
      rw [some.injEq] at h
      cases hresult : Wotan.authorize members call.req with
      | error error =>
        rw [hresult] at h
        subst h
        exact .refuse error hfound
      | ok caller =>
        rw [hresult] at h
        subst h
        exact .authorize hfound hstage hresult
    · cases h
  | examine i =>
    simp only [step, bind_eq_bind, bind_eq_some_iff] at h
    obtain ⟨call, hfound, h⟩ := h
    split at h
    · rename_i caller hstage
      rw [some.injEq] at h
      cases hresult : Wotan.examine s.policy s.clock call.req with
      | error error =>
        rw [hresult] at h
        subst h
        exact .refuse error hfound
      | ok ticket =>
        rw [hresult] at h
        subst h
        cases ticket with
        | none => exact .unsigned hfound hstage hresult
        | some ticket => exact .time hfound hstage hresult
    · cases h
  | forget i =>
    simp only [step, bind_eq_bind, bind_eq_some_iff] at h
    obtain ⟨call, hfound, h⟩ := h
    split at h
    · rename_i caller ticket hstage
      simp only [bind_eq_some_iff, some.injEq] at h
      obtain ⟨tv, hverifier, rfl⟩ := h
      exact .forget hfound hstage hverifier
    · cases h
  | verify i =>
    simp only [step, bind_eq_bind, bind_eq_some_iff] at h
    obtain ⟨call, hfound, h⟩ := h
    split at h
    · rename_i caller ticket hstage
      simp only [bind_eq_some_iff, some.injEq] at h
      obtain ⟨tv, hverifier, h⟩ := h
      cases hresult : tv.check crypto ticket.now call.req.topic caller.sender call.req.payload
          call.req.signed with
      | error error =>
        rw [hresult] at h
        subst h
        exact .refuse (.signatureInvalid error) hfound
      | ok =>
        rw [hresult] at h
        subst h
        exact .verify hfound hstage hverifier hresult
    · cases h
  | ensure i allowed =>
    simp only [step, bind_eq_bind, bind_eq_some_iff] at h
    obtain ⟨call, hfound, h⟩ := h
    split at h
    · rename_i caller ticket hstage
      rw [some.injEq] at h
      split at h
      · subst h
        exact .refuse .publisherRefused hfound
      · subst h
        exact .ensure hfound hstage
    · cases h
  | accept i =>
    simp only [step, bind_eq_bind, bind_eq_some_iff] at h
    obtain ⟨call, hfound, h⟩ := h
    split at h
    · rename_i caller hstage
      cases h
      exact .takeUnsigned hfound hstage
    · rename_i caller ticket hstage
      simp only [bind_eq_some_iff] at h
      obtain ⟨tv, hverifier, h⟩ := h
      rw [TopicVerifier.accept] at h
      by_cases hseen : tv.seen (crypto.sum256 call.req.signed.signature) = none
      · rw [if_neg (not_not.mpr hseen), some.injEq] at h
        subst h
        exact .takeSigned hfound hstage hverifier hseen
      · rw [if_pos hseen, some.injEq] at h
        subst h
        exact .refuse (.signatureInvalid .replay) hfound
    · cases h
  | store i allowed =>
    simp only [step, bind_eq_bind, bind_eq_some_iff] at h
    obtain ⟨call, hfound, h⟩ := h
    split at h
    · rename_i caller hstage
      rw [some.injEq] at h
      split at h
      · subst h
        exact .store hfound hstage
      · subst h
        exact .refuse .roomRefused hfound
    · cases h

theorem mem_setStage {i : Nat} {call call' : Call} {stage : Stage}
    (h : call' ∈ s.setStage i call stage) : call' ∈ s.calls ∨ call' = { call with stage := stage } :=
  List.mem_or_eq_of_mem_set h

end Publishing

end Unheaded.Wotan
