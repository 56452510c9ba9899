import Unheaded.Lib.Directory

/-!
# Roles

A service judges a request by the first policy that covers its path and method, and by a default
policy if none does. Policies cover cleaned paths.
-/

namespace Unheaded.Auth

open Lib Lib.Path List

def roleAdmin : Bytes := ascii "admin".toList

def roleOperator : Bytes := ascii "operator".toList

def roleObserver : Bytes := ascii "observer".toList

def roleService : Bytes := ascii "service".toList

def roleViewer : Bytes := ascii "viewer".toList

structure EndpointPolicy where
  pathPrefix : Bytes
  methods : List Bytes
  requiredRoles : List Bytes

/-- `audits`: whether an `AuditFunc` is set. -/
structure RBACConfig where
  serviceName : Bytes
  policies : List EndpointPolicy
  defaultPolicy : List Bytes
  audits : Bool

structure Identity where
  subject : Bytes
  roles : List Bytes

/-- A request: its method, the path and the raw path of its URL, the address it came from, and the
identity in its context. -/
structure Request where
  method : Bytes
  path : Bytes
  rawPath : Bytes
  peerIP : Bytes
  identity : Option Identity

def Identity.hasRole (id : Identity) (role : Bytes) : Bool := id.roles.contains role

def identityHasAnyRole (id : Identity) (roles : List Bytes) : Bool := roles.any id.hasRole

def methodGet : Bytes := ascii "GET".toList

def methodHead : Bytes := ascii "HEAD".toList

def methodOptions : Bytes := ascii "OPTIONS".toList

def methodPost : Bytes := ascii "POST".toList

def methodPut : Bytes := ascii "PUT".toList

def methodPatch : Bytes := ascii "PATCH".toList

def methodDelete : Bytes := ascii "DELETE".toList

/-- `policyMethod`: a method that no policy names counts as a write. -/
def policyMethod (method : Bytes) : Bytes :=
  if method ∈ [methodGet, methodHead, methodOptions, methodPost, methodPut, methodPatch, methodDelete]
  then method else methodPost

def canonicalPath (path rawPath : Bytes) : Bool :=
  if rawPath ≠ [] then false else path = clean path || path = clean path ++ [slash]

def judgedPath (path : Bytes) : Bytes :=
  let cleaned := clean (slash :: path)
  if path.getLast? = some slash ∧ cleaned ≠ [slash] then cleaned ++ [slash] else cleaned

def policyMatches (p : EndpointPolicy) (path rawPath : Bytes) : Bool :=
  let cleaned := judgedPath path
  if !p.pathPrefix.isPrefixOf cleaned then false
  else if p.requiredRoles ≠ [] then true
  else if !canonicalPath path rawPath then false
  else
    let rest := cleaned.drop p.pathPrefix.length
    rest = [] || rest.head? = some slash || p.pathPrefix.getLast? = some slash

/-- The roles of the first of some policies that covers a request, and else those of the default. -/
def requiredAmong (r : Request) (defaultPolicy : List Bytes) : List EndpointPolicy → List Bytes
  | [] => defaultPolicy
  | p :: policies =>
    if !policyMatches p r.path r.rawPath then requiredAmong r defaultPolicy policies
    else if p.methods ≠ [] && !p.methods.contains (policyMethod r.method) then
      requiredAmong r defaultPolicy policies
    else p.requiredRoles

def findRequiredRoles (cfg : RBACConfig) (r : Request) : List Bytes :=
  requiredAmong r cfg.defaultPolicy cfg.policies

/-- What is recorded of a decision. -/
structure AuditEvent where
  eventType : String
  service : Bytes
  endpoint : Bytes
  method : Bytes
  ip : Bytes
  subject : Bytes
  result : String
  reason : String

/-- What comes of a request: the next handler is called, or it is answered with 401 or 403. -/
inductive Outcome where
  | next
  | unauthorized
  | forbidden
  deriving DecidableEq

/-- `RBACMiddleware`, with the decision that is recorded. -/
def rbacMiddleware (cfg : RBACConfig) (r : Request) : Outcome × Option AuditEvent :=
  let required := findRequiredRoles cfg r
  let audit (eventType : String) (subject : Bytes) (result reason : String) : Option AuditEvent :=
    if cfg.audits then
      some ⟨eventType, cfg.serviceName, r.path, r.method, r.peerIP, subject, result, reason⟩
    else none
  if required = [] then (.next, none)
  else
    match r.identity with
    | none => (.unauthorized, audit "rbac_denied" [] "denied" "no identity in context")
    | some id =>
      if identityHasAnyRole id required then
        (.next, audit "rbac_allowed" id.subject "allowed" "")
      else (.forbidden, audit "rbac_denied" id.subject "denied" "insufficient role")

def healthPath : Bytes := ascii "/health".toList

def readyPath : Bytes := ascii "/ready".toList

def metricsPath : Bytes := ascii "/metrics".toList

def adminPath : Bytes := ascii "/api/v1/admin".toList

def deployPath : Bytes := ascii "/api/v1/deploy".toList

def configPath : Bytes := ascii "/api/v1/config".toList

def apiPath : Bytes := ascii "/api/v1/".toList

def defaultServicePolicies (serviceName : Bytes) : RBACConfig where
  serviceName
  policies := [⟨healthPath, [], []⟩, ⟨readyPath, [], []⟩, ⟨metricsPath, [], []⟩,
      ⟨adminPath, [], [roleAdmin]⟩,
      ⟨deployPath, [], [roleAdmin, roleOperator]⟩,
      ⟨configPath, [], [roleAdmin, roleOperator]⟩,
      ⟨apiPath, [methodPost, methodPut, methodDelete, methodPatch],
        [roleAdmin, roleOperator, roleService]⟩,
      ⟨apiPath, [methodGet], [roleAdmin, roleOperator, roleObserver, roleViewer, roleService]⟩]
  defaultPolicy := [roleAdmin, roleOperator, roleObserver, roleViewer, roleService]
  audits := false

theorem next_iff {cfg : RBACConfig} {r : Request} : (rbacMiddleware cfg r).1 = .next ↔
    findRequiredRoles cfg r = [] ∨
      ∃ id, r.identity = some id ∧ ∃ role ∈ findRequiredRoles cfg r, role ∈ id.roles := by
  unfold rbacMiddleware
  dsimp only
  split
  next none' => exact iff_of_true rfl (Or.inl none')
  next needed =>
    cases identity : r.identity with
    | none =>
      refine iff_of_false Outcome.noConfusion ?_
      rintro (none' | ⟨id, found, -⟩)
      · exact needed none'
      · cases found
    | some id =>
      have any : identityHasAnyRole id (findRequiredRoles cfg r) = true ↔
          ∃ role ∈ findRequiredRoles cfg r, role ∈ id.roles := by
        unfold identityHasAnyRole Identity.hasRole
        simp only [List.any_eq_true, contains_iff_mem]
      dsimp only
      split
      next has => exact iff_of_true rfl (Or.inr ⟨id, rfl, any.mp has⟩)
      next has =>
        refine iff_of_false Outcome.noConfusion ?_
        rintro (none' | ⟨id', found, role⟩)
        · exact needed none'
        · cases found
          exact has (any.mpr role)

section Policies

variable {r : Request} {defaultPolicy : List Bytes} {p : EndpointPolicy} {policies : List EndpointPolicy}

theorem requiredAmong_skip (unmatched : policyMatches p r.path r.rawPath = false) :
    requiredAmong r defaultPolicy (p :: policies) = requiredAmong r defaultPolicy policies := by
  rw [requiredAmong, unmatched]
  rfl

theorem requiredAmong_match (asks : p.requiredRoles ≠ []) (covers : p.pathPrefix <+: judgedPath r.path)
    (method : p.methods = [] ∨ policyMethod r.method ∈ p.methods) :
    requiredAmong r defaultPolicy (p :: policies) = p.requiredRoles := by
  have matched : policyMatches p r.path r.rawPath = true := by
    unfold policyMatches
    dsimp only
    have within := isPrefixOf_iff_prefix.mpr covers
    rw [within, if_neg (by decide), if_pos asks]
  rw [requiredAmong, matched, if_neg (by decide), if_neg]
  intro excluded
  obtain ⟨named, other⟩ := (Bool.and_eq_true _ _).mp excluded
  rcases method with any | mem
  · exact absurd any (of_decide_eq_true named)
  · rw [contains_iff_mem.mpr mem] at other
    cases other

theorem policyMatches_of_not_covers (apart : ¬ p.pathPrefix <+: judgedPath r.path) :
    policyMatches p r.path r.rawPath = false := by
  unfold policyMatches
  dsimp only
  have misses : p.pathPrefix.isPrefixOf (judgedPath r.path) = false :=
    Bool.eq_false_iff.mpr fun covers => apart <| isPrefixOf_iff_prefix.mp covers
  rw [misses]
  rfl

theorem policyMatches_of_not_canonical (open' : p.requiredRoles = [])
    (other : canonicalPath r.path r.rawPath = false) : policyMatches p r.path r.rawPath = false := by
  unfold policyMatches
  dsimp only
  split
  next => rfl
  next => rw [if_neg (not_not.mpr open'), other]; rfl

theorem requiredAmong_until (r : Request) (defaultPolicy : List Bytes) (front back : List EndpointPolicy)
    (matched : requiredAmong r defaultPolicy (p :: back) = p.requiredRoles) :
    ∃ q ∈ front ++ [p], requiredAmong r defaultPolicy (front ++ p :: back) = q.requiredRoles := by
  induction front with
  | nil => exact ⟨p, mem_cons_self, matched⟩
  | cons q front ih =>
    obtain ⟨decides, mem, same⟩ := ih
    simp only [List.cons_append]
    rw [requiredAmong]
    split
    · exact ⟨decides, mem_cons_of_mem q mem, same⟩
    · split
      · exact ⟨decides, mem_cons_of_mem q mem, same⟩
      · exact ⟨q, mem_cons_self, rfl⟩

theorem requiredAmong_cases (r : Request) (defaultPolicy : List Bytes) (policies : List EndpointPolicy) :
    requiredAmong r defaultPolicy policies = defaultPolicy ∨
      ∃ p ∈ policies, requiredAmong r defaultPolicy policies = p.requiredRoles := by
  induction policies with
  | nil => exact Or.inl rfl
  | cons p policies ih =>
    have later : requiredAmong r defaultPolicy policies = defaultPolicy ∨
        ∃ q ∈ p :: policies, requiredAmong r defaultPolicy policies = q.requiredRoles :=
      ih.imp_right fun ⟨q, mem, same⟩ => ⟨q, mem_cons_of_mem p mem, same⟩
    rw [requiredAmong]
    split
    · exact later
    · split
      · exact later
      · exact Or.inr ⟨p, mem_cons_self, rfl⟩

end Policies

theorem apart_of_neither {a b l : Bytes} (first : a <+: l) (apart : ¬ a <+: b ∧ ¬ b <+: a) : ¬ b <+: l := by
  intro second
  have nested := prefix_or_prefix_of_prefix first second
  exact nested.elim apart.1 apart.2

theorem components_append {c : Bytes} (plain : slash ∉ c) (rest : Bytes) :
    components (c ++ slash :: rest) = c :: components rest := by
  have whole : join (c :: components rest) = c ++ slash :: rest := by
    have some' : components rest ≠ [] := splitOn_ne_nil _ _
    obtain ⟨first, later, parts⟩ := exists_cons_of_ne_nil some'
    have joined := join_components rest
    rw [parts] at joined ⊢
    rw [← joined]
    rfl
  rw [← whole]
  refine components_join (fun d mem => ?_) (cons_ne_nil _ _)
  rcases mem_cons.mp mem with rfl | later
  · exact plain
  · exact slash_notMem_components later

theorem join_front (front : List Bytes) (back : List Bytes) : join front <+: join (front ++ back) := by
  induction front with
  | nil => exact nil_prefix
  | cons c front ih =>
    cases front with
    | nil =>
      cases back with
      | nil => exact prefix_rfl
      | cons d back =>
        have single : join [c] = c := append_nil c
        refine ⟨slash :: join (d :: back), ?_⟩
        rw [single]
        rfl
    | cons d front =>
      obtain ⟨more, whole⟩ := ih
      refine ⟨more, ?_⟩
      have joined : join (c :: d :: front) = c ++ slash :: join (d :: front) := rfl
      have behind : join (c :: d :: front ++ back) = c ++ slash :: join (d :: front ++ back) := rfl
      rw [joined, behind, ← whole, List.append_assoc, List.cons_append]

theorem clean_slash {path : Bytes} (rooted : isAbs path = true) : clean (slash :: path) = clean path := by
  have parts : components (slash :: path) = [] :: components path :=
    components_append not_mem_nil path
  have rooted' : isAbs (slash :: path) = true := rfl
  unfold clean
  rw [parts, rooted, rooted', cleanFrom, if_pos (Or.inl rfl)]

theorem clean_starts_judgedPath (path : Bytes) : clean (slash :: path) <+: judgedPath path := by
  unfold judgedPath
  dsimp only
  split
  · exact prefix_append _ _
  · exact prefix_rfl

theorem judgedPath_of_canonical {path rawPath : Bytes} (below : adminPath ++ [slash] <+: path)
    (canonical : canonicalPath path rawPath = true) : adminPath <+: judgedPath path := by
  have starts : adminPath <+: path := (prefix_append _ _).trans below
  have rooted : isAbs path = true := by
    obtain ⟨rest, rfl⟩ := starts
    rfl
  refine List.IsPrefix.trans ?_ (clean_starts_judgedPath path)
  rw [clean_slash rooted]
  unfold canonicalPath at canonical
  split at canonical
  · cases canonical
  · rcases (Bool.or_eq_true _ _).mp canonical with same | slashed
    · rw [← of_decide_eq_true same]
      exact starts
    · have same : path = clean path ++ [slash] := of_decide_eq_true slashed
      have size := below.length_le
      rw [same, length_append, length_append] at size
      have cleaned : clean path <+: path := ⟨[slash], same.symm⟩
      exact prefix_of_prefix_length_le starts cleaned (Nat.le_of_add_le_add_right size)

theorem judgedPath_of_noDotDot {path : Bytes} (below : adminPath ++ [slash] <+: path)
    (noDotDot : dotDot ∉ components path) : adminPath <+: judgedPath path := by
  refine List.IsPrefix.trans ?_ (clean_starts_judgedPath path)
  obtain ⟨rest, rfl⟩ := below
  have parts : components (adminPath ++ [slash] ++ rest) =
      [[], ascii "api".toList, ascii "v1".toList, roleAdmin] ++ components rest := by
    have api := components_append (c := ascii "api".toList) (by decide)
    have v1 := components_append (c := ascii "v1".toList) (by decide)
    have admin := components_append (c := roleAdmin) (by decide) rest
    have root := components_append (c := []) (by decide)
    calc components (adminPath ++ [slash] ++ rest)
        = components ([] ++ slash :: (ascii "api".toList ++ slash :: (ascii "v1".toList ++
          slash :: (roleAdmin ++ slash :: rest)))) := rfl
      _ = _ := by rw [root, api, v1]; rfl
  rw [parts] at noDotDot
  have later : dotDot ∉ components rest := fun mem =>
    noDotDot (mem_append_right _ mem)
  have rooted : isAbs (adminPath ++ [slash] ++ rest) = true := rfl
  rw [clean_slash rooted]
  rw [clean, rooted, parts]
  have kept : cleanFrom true [] ([[], ascii "api".toList, ascii "v1".toList, roleAdmin] ++
      components rest) = cleanFrom true [roleAdmin, ascii "v1".toList, ascii "api".toList]
        (components rest) := rfl
  rw [kept, cleanFrom_eq later]
  exact (prefix_cons_inj slash).mpr
    (join_front [ascii "api".toList, ascii "v1".toList, roleAdmin] _)

section Default

variable {serviceName : Bytes} {r : Request}

def publicPolicies : List EndpointPolicy := (defaultServicePolicies []).policies.take 3

def guardedPolicies : List EndpointPolicy := (defaultServicePolicies []).policies.drop 3

def defaultRoles : List Bytes := (defaultServicePolicies []).defaultPolicy

theorem required_of_guarded (apart : ∀ p ∈ publicPolicies, policyMatches p r.path r.rawPath = false) :
    findRequiredRoles (defaultServicePolicies serviceName) r =
      requiredAmong r defaultRoles guardedPolicies := by
  have health := apart ⟨healthPath, [], []⟩ (.head _)
  have ready := apart ⟨readyPath, [], []⟩ (.tail _ (.head _))
  have metrics := apart ⟨metricsPath, [], []⟩ (.tail _ (.tail _ (.head _)))
  calc findRequiredRoles (defaultServicePolicies serviceName) r = requiredAmong r defaultRoles
          (⟨readyPath, [], []⟩ :: ⟨metricsPath, [], []⟩ :: guardedPolicies) := requiredAmong_skip health
    _ = requiredAmong r defaultRoles (⟨metricsPath, [], []⟩ :: guardedPolicies) :=
          requiredAmong_skip ready
    _ = requiredAmong r defaultRoles guardedPolicies := requiredAmong_skip metrics

theorem required_below {start : Bytes} (covers : start <+: judgedPath r.path)
    (apart : ∀ p ∈ publicPolicies, ¬ start <+: p.pathPrefix ∧ ¬ p.pathPrefix <+: start) :
    findRequiredRoles (defaultServicePolicies serviceName) r =
      requiredAmong r defaultRoles guardedPolicies :=
  required_of_guarded fun p mem =>
    policyMatches_of_not_covers (apart_of_neither covers (apart p mem))

theorem required_admin (covers : adminPath <+: judgedPath r.path) :
    findRequiredRoles (defaultServicePolicies serviceName) r = [roleAdmin] := by
  rw [required_below covers (by decide)]
  exact requiredAmong_match (by decide) covers (Or.inl rfl)

theorem policyMethod_write (write : r.method ∉ [methodGet, methodHead, methodOptions]) :
    policyMethod r.method ∈ [methodPost, methodPut, methodDelete, methodPatch] := by
  unfold policyMethod
  split
  next named =>
    simp only [mem_cons, not_mem_nil, or_false, not_or] at named write ⊢
    rcases named with get | head | options | post | put | patch | delete
    · exact absurd get write.1
    · exact absurd head write.2.1
    · exact absurd options write.2.2
    · exact .inl post
    · exact .inr (.inl put)
    · exact .inr (.inr (.inr patch))
    · exact .inr (.inr (.inl delete))
  next => exact mem_cons_self

def writePolicy : EndpointPolicy :=
  ⟨apiPath, [methodPost, methodPut, methodDelete, methodPatch], [roleAdmin, roleOperator, roleService]⟩

theorem required_write (covers : apiPath <+: judgedPath r.path)
    (write : r.method ∉ [methodGet, methodHead, methodOptions]) :
    findRequiredRoles (defaultServicePolicies serviceName) r ≠ [] ∧
      ∀ role ∈ findRequiredRoles (defaultServicePolicies serviceName) r,
        role ∈ [roleAdmin, roleOperator, roleService] := by
  have split : guardedPolicies = guardedPolicies.take 3 ++ writePolicy :: guardedPolicies.drop 4 := rfl
  have asks : ∀ p ∈ guardedPolicies.take 3 ++ [writePolicy], p.requiredRoles ≠ [] ∧
      ∀ role ∈ p.requiredRoles, role ∈ [roleAdmin, roleOperator, roleService] := by decide
  rw [required_below covers (by decide), split]
  obtain ⟨p, mem, same⟩ := requiredAmong_until r defaultRoles (guardedPolicies.take 3)
    (guardedPolicies.drop 4) (p := writePolicy)
    (requiredAmong_match (by decide) covers (Or.inr (policyMethod_write write)))
  rw [same]
  exact asks p mem

theorem required_raw (below : adminPath ++ [slash] <+: r.path) :
    findRequiredRoles (defaultServicePolicies serviceName) r ≠ [] ∧
      ∀ role ∈ findRequiredRoles (defaultServicePolicies serviceName) r, role ∈ defaultRoles := by
  cases canonical : canonicalPath r.path r.rawPath with
  | true =>
    rw [required_admin (judgedPath_of_canonical below canonical)]
    decide
  | false =>
    have open' : ∀ p ∈ publicPolicies, p.requiredRoles = [] := by decide
    have asks : ∀ p ∈ guardedPolicies, p.requiredRoles ≠ [] ∧ ∀ role ∈ p.requiredRoles,
        role ∈ defaultRoles := by decide
    rw [required_of_guarded fun p mem => policyMatches_of_not_canonical (open' p mem) canonical]
    rcases requiredAmong_cases r defaultRoles guardedPolicies with same | ⟨p, mem, same⟩
    · rw [same]
      exact ⟨cons_ne_nil _ _, fun role mem => mem⟩
    · rw [same]
      exact asks p mem

end Default

/-- Under the default policies no identity that only reads writes below `/api/v1/`; what is judged
below `/api/v1/admin`, as every path there without `..` is, is only for administrators; and a path
there as it stands is never open to a caller without a role, wherever its dots lead. -/
theorem readers_never_write (serviceName : Bytes) (r : Request) :
    (apiPath <+: judgedPath r.path → r.method ∉ [methodGet, methodHead, methodOptions] →
      ∀ id, r.identity = some id → (∀ role ∈ id.roles, role = roleViewer ∨ role = roleObserver) →
        (rbacMiddleware (defaultServicePolicies serviceName) r).1 ≠ .next) ∧
    (adminPath <+: judgedPath r.path ∨ adminPath ++ [slash] <+: r.path ∧ dotDot ∉ components r.path →
      (rbacMiddleware (defaultServicePolicies serviceName) r).1 = .next →
        ∃ id, r.identity = some id ∧ roleAdmin ∈ id.roles) ∧ (adminPath ++ [slash] <+: r.path →
      (rbacMiddleware (defaultServicePolicies serviceName) r).1 = .next →
        ∃ id, r.identity = some id ∧
          ∃ role ∈ id.roles, role ∈ [roleAdmin, roleOperator, roleObserver, roleViewer, roleService]) := by
  refine ⟨fun covers write id identity readOnly next => ?_, fun judged next => ?_,
    fun below next => ?_⟩
  · obtain ⟨asks, writers⟩ := @required_write serviceName r covers write
    rcases next_iff.mp next with open' | ⟨id', found, role, required, has⟩
    · exact asks open'
    · rw [identity] at found
      cases found
      have writer := writers role required
      rcases readOnly role has with rfl | rfl
      · exact absurd writer (by decide)
      · exact absurd writer (by decide)
  · have covers : adminPath <+: judgedPath r.path :=
      judged.elim id fun ⟨below, noDotDot⟩ => judgedPath_of_noDotDot below noDotDot
    have required := @required_admin serviceName r covers
    rcases next_iff.mp next with open' | ⟨id, found, role, asked, has⟩
    · rw [required] at open'
      cases open'
    · rw [required] at asked
      rw [mem_singleton.mp asked] at has
      exact ⟨id, found, has⟩
  · obtain ⟨asks, known⟩ := @required_raw serviceName r below
    rcases next_iff.mp next with open' | ⟨id, found, role, required, has⟩
    · exact absurd open' asks
    · exact ⟨id, found, role, has, known role required⟩

def requestAs (role : Bytes) (method : Bytes) (path : List Char) : Request :=
  ⟨method, ascii path, [], ascii "10.0.0.7".toList, some ⟨ascii "v".toList, [role]⟩⟩

/-- A write of a viewer, a read of an administrator, and a read of a viewer whose path leads out of the
administration. -/
theorem readers_never_write_asked : (rbacMiddleware (defaultServicePolicies [])
      (requestAs roleViewer methodPost "/api/v1/things".toList)).1 ≠ .next ∧
    (∃ id, (requestAs roleAdmin methodGet "/api/v1/./admin/users".toList).identity = some id ∧
      roleAdmin ∈ id.roles) ∧
    (∃ id, (requestAs roleViewer methodGet "/api/v1/admin/../x".toList).identity = some id ∧
      ∃ role ∈ id.roles, role ∈ [roleAdmin, roleOperator, roleObserver, roleViewer, roleService]) := by
  refine ⟨?_, ?_, ?_⟩
  · exact (readers_never_write [] (requestAs roleViewer methodPost "/api/v1/things".toList)).1
      (by decide +kernel) (by decide) _ rfl (by decide)
  · exact (readers_never_write [] (requestAs roleAdmin methodGet "/api/v1/./admin/users".toList)).2.1
      (Or.inl (by decide +kernel)) (by decide +kernel)
  · exact (readers_never_write [] (requestAs roleViewer methodGet "/api/v1/admin/../x".toList)).2.2
      (by decide +kernel) (by decide +kernel)

/-- The public paths take every method, and dots lead out of the administration: a viewer may post to
`/health`, and reach `/api/v1/admin/../x`. -/
theorem viewer_posts_to_health : (methodPost ∉ [methodGet, methodHead, methodOptions] ∧
      (rbacMiddleware (defaultServicePolicies []) (requestAs roleViewer methodPost "/health".toList)).1 =
        .next) ∧
    (adminPath ++ [slash] <+: (requestAs roleViewer methodGet "/api/v1/admin/../x".toList).path ∧
      roleAdmin ∉ [roleViewer] ∧ (rbacMiddleware (defaultServicePolicies [])
        (requestAs roleViewer methodGet "/api/v1/admin/../x".toList)).1 = .next) := by
  decide +kernel

end Unheaded.Auth
