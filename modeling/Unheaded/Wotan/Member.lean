import Mathlib.Data.List.Nodup
import Unheaded.Lib.Events

/-!
# Members of the rooms

`internal/member` of the Wotan service: who has asked to join a room, and who may.
-/

namespace Unheaded.Wotan.Membership

open List Lib Function

abbrev Uuid := BitVec 128

inductive Status where
  | pending | approved | denied
  deriving DecidableEq

structure Member where
  id : Uuid
  name : String
  status : Status
  requestedAt : Int
  expiresAt : Option Int := none
  approvedAt : Option Int := none
  approvedBy : String := ""
  roomId : String
  publicKey : String := ""
  deriving DecidableEq

inductive MemberError where
  | memberNotFound | invalidStatus | tooManyMembers

/-- The members are a map by their ids; a room without a list has an empty one. -/
structure Manager where
  members : List Member
  byRoom : String → List Uuid
  auto : String × String → Option Uuid
  max : Int

namespace Manager

def newManager : Manager := ⟨[], fun _ => [], fun _ => none, 0⟩

variable (m : Manager)

def find (id : Uuid) : Option Member := m.members.find? (·.id = id)

def unlink (e : Member) : Manager :=
  { m with
    members := m.members.filter (·.id ≠ e.id)
    byRoom := update m.byRoom e.roomId ((m.byRoom e.roomId).erase e.id)
    auto := if m.auto (e.roomId, e.name) = some e.id then
      update m.auto (e.roomId, e.name) none else m.auto }

def remove (id : Uuid) : Bool × Manager :=
  match m.find id with
  | none => (false, m)
  | some e => (true, m.unlink e)

def full : Bool := 0 < m.max ∧ m.max ≤ m.members.length

def store (e : Member) : Manager :=
  { m with
    members := m.members ++ [e]
    byRoom := update m.byRoom e.roomId (m.byRoom e.roomId ++ [e.id]) }

def autoApproved (roomId name : String) : Option Member :=
  ((m.auto (roomId, name)).bind m.find).filter (·.status = .approved)

def ensureApproved (id : Uuid) (roomId name approvedBy : String) (now : Int) :
    Except MemberError Member × Manager :=
  match m.autoApproved roomId name with
  | some e => (.ok e, m)
  | none =>
    if m.full then (.error .tooManyMembers, m)
    else
      let e : Member := { id, name, roomId, approvedBy, status := .approved, requestedAt := now,
                          approvedAt := some now }
      (.ok e, { m.store e with auto := update m.auto (roomId, name) (some id) })

def requestJoin (id : Uuid) (roomId name publicKey : String) (timeout now : Int) :
    Except MemberError Member × Manager :=
  if m.full then (.error .tooManyMembers, m)
  else
    let e : Member := { id, name, roomId, publicKey, status := .pending, requestedAt := now,
                        expiresAt := some (now + timeout) }
    (.ok e, m.store e)

def approved (approvedBy : String) (now : Int) (e : Member) : Member :=
  { e with status := .approved, approvedAt := some now, approvedBy }

def approve (id : Uuid) (approvedBy : String) (now : Int) : Except MemberError Unit × Manager :=
  match m.find id with
  | none => (.error .memberNotFound, m)
  | some e =>
    if e.status ≠ .pending then (.error .invalidStatus, m)
    else (.ok (), { m with
      members := m.members.map fun f => if f.id = id then approved approvedBy now f else f })

def deny (id : Uuid) : Except MemberError Unit × Manager :=
  match m.find id with
  | none => (.error .memberNotFound, m)
  | some e => if e.status ≠ .pending then (.error .invalidStatus, m) else (.ok (), m.unlink e)

def approveAll (approvedBy : String) (now : Int) : Nat × Manager :=
  (m.members.countP (·.status = .pending), { m with
    members := m.members.map fun f => if f.status = .pending then approved approvedBy now f else f })

def expired (now : Int) (e : Member) : Bool := e.status = .pending ∧ e.expiresAt.any (· < now)

/-- `order` is the order in which the map is gone through. -/
def cleanupExpiredPending (now : Int) (order : List Member) : Nat × Manager :=
  ((order.filter (expired now)).length, (order.filter (expired now)).foldl unlink m)

end Manager

/-- A call, with what it takes from outside: the time, a new id, the order of the map. -/
inductive Call where
  | setMaxMembers (n : Int)
  | requestJoin (id : Uuid) (roomId name publicKey : String) (timeout now : Int)
  | ensureApproved (id : Uuid) (roomId name approvedBy : String) (now : Int)
  | approve (id : Uuid) (approvedBy : String) (now : Int)
  | approveAll (approvedBy : String) (now : Int)
  | deny (id : Uuid)
  | remove (id : Uuid)
  | cleanupExpiredPending (now : Int) (order : List Member)

namespace Manager

def call (m : Manager) : Call → Manager
  | .setMaxMembers n => { m with max := n }
  | .requestJoin id roomId name publicKey timeout now =>
    (m.requestJoin id roomId name publicKey timeout now).2
  | .ensureApproved id roomId name approvedBy now => (m.ensureApproved id roomId name approvedBy now).2
  | .approve id approvedBy now => (m.approve id approvedBy now).2
  | .approveAll approvedBy now => (m.approveAll approvedBy now).2
  | .deny id => (m.deny id).2
  | .remove id => (m.remove id).2
  | .cleanupExpiredPending now order => (m.cleanupExpiredPending now order).2

/-- `uuid.New` gives an id that no member has, and an order has every member once. -/
def Given (m : Manager) : Call → Prop
  | .requestJoin id .. | .ensureApproved id .. => ∀ e ∈ m.members, e.id ≠ id
  | .cleanupExpiredPending _ order => order.Perm m.members
  | _ => True

structure Indexed (m : Manager) : Prop where
  distinct : (m.members.map Member.id).Nodup
  once : ∀ room, (m.byRoom room).Nodup
  listed : ∀ room id, id ∈ m.byRoom room ↔ ∃ e ∈ m.members, e.id = id ∧ e.roomId = room
  auto : ∀ room name id, m.auto (room, name) = some id →
    ∃ e ∈ m.members, e.id = id ∧ e.status = .approved ∧ e.roomId = room ∧ e.name = name

variable {m : Manager}

theorem Indexed.same (sound : Indexed m) {e f : Member} (he : e ∈ m.members) (hf : f ∈ m.members)
    (id : e.id = f.id) : e = f := inj_on_of_nodup_map sound.distinct he hf id

theorem Indexed.byRoom_unlink (sound : Indexed m) {e : Member} (stored : e ∈ m.members) (room : String) :
    (m.unlink e).byRoom room = (m.byRoom room).erase e.id := by
  by_cases here : room = e.roomId
  · subst here
    exact update_self ..
  · refine (update_of_ne here _ _).trans (erase_of_not_mem fun mem => ?_).symm
    obtain ⟨f, found, same, lives⟩ := (sound.listed _ _).mp mem
    exact here (lives.symm.trans (congrArg _ (sound.same found stored same)))

theorem auto_unlink {e : Member} {room name : String} {id : Uuid}
    (held : (m.unlink e).auto (room, name) = some id) :
    m.auto (room, name) = some id ∧ (e.roomId = room → e.name = name → e.id ≠ id) := by
  simp only [Manager.unlink] at held
  split at held
  · next own =>
    by_cases key : (room, name) = (e.roomId, e.name)
    · simp [key, update_self] at held
    · rw [update_of_ne key] at held
      exact ⟨held, fun lives named => absurd (by rw [lives, named]) key⟩
  · next other =>
    refine ⟨held, fun lives named same => other ?_⟩
    rw [lives, named, same, held]

theorem Indexed.unlink (sound : Indexed m) {e : Member} (stored : e ∈ m.members) :
    Indexed (m.unlink e) where
  distinct := sound.distinct.sublist (filter_sublist.map _)
  once room := sound.byRoom_unlink stored room ▸ (sound.once room).erase _
  listed room id := by
    rw [sound.byRoom_unlink stored, (sound.once room).mem_erase_iff, sound.listed]
    simp only [Manager.unlink, mem_filter, decide_eq_true_eq]
    exact ⟨fun ⟨other, f, mem, same, lives⟩ => ⟨f, ⟨mem, same ▸ other⟩, same, lives⟩,
      fun ⟨f, ⟨mem, other⟩, same, lives⟩ => ⟨same ▸ other, f, mem, same, lives⟩⟩
  auto room name id held := by
    obtain ⟨before, other⟩ := auto_unlink held
    obtain ⟨f, found, same, status, lives, named⟩ := sound.auto room name id before
    refine ⟨f, mem_filter.mpr ⟨found, decide_eq_true fun own => ?_⟩, same, status, lives, named⟩
    obtain rfl := sound.same found stored own
    exact other lives named same

theorem byRoom_store (e : Member) (room : String) :
    (m.store e).byRoom room = m.byRoom room ++ if e.roomId = room then [e.id] else [] := by
  by_cases here : e.roomId = room
  · subst here
    rw [if_pos rfl]
    exact update_self ..
  · rw [if_neg here, append_nil]
    exact update_of_ne (Ne.symm here) ..

theorem Indexed.store (sound : Indexed m) {e : Member} (fresh : ∀ f ∈ m.members, f.id ≠ e.id) :
    Indexed (m.store e) where
  distinct := by
    rw [Manager.store, map_append, nodup_append]
    refine ⟨sound.distinct, nodup_singleton _, fun a old b new => ?_⟩
    obtain ⟨f, mem, rfl⟩ := mem_map.mp old
    exact mem_singleton.mp new ▸ fresh f mem
  once room := by
    rw [byRoom_store]
    refine (sound.once room).append (by split <;> simp) fun id old new => ?_
    obtain ⟨f, mem, same, -⟩ := (sound.listed room id).mp old
    split at new
    · exact fresh f mem (same.trans (mem_singleton.mp new))
    · cases new
  listed room id := by
    have new : id ∈ (if e.roomId = room then [e.id] else []) ↔ e.id = id ∧ e.roomId = room := by
      by_cases here : e.roomId = room <;> simp [here, eq_comm]
    rw [byRoom_store, mem_append, sound.listed, new]
    simp only [Manager.store, mem_append, mem_singleton, or_and_right, exists_or, exists_eq_left]
  auto room name id held := by
    obtain ⟨f, mem, rest⟩ := sound.auto room name id held
    exact ⟨f, mem_append_left _ mem, rest⟩

/-- A change of members that the indexes cannot see. -/
structure Unseen (f : Member → Member) : Prop where
  id : ∀ e, (f e).id = e.id
  roomId : ∀ e, (f e).roomId = e.roomId
  name : ∀ e, (f e).name = e.name
  status : ∀ e, e.status = .approved → (f e).status = .approved

theorem unseen_approved (p : Member → Prop) [DecidablePred p] (approvedBy : String) (now : Int) :
    Unseen fun e => if p e then approved approvedBy now e else e := by
  constructor <;> intro e <;> split <;> first | exact fun _ => rfl | exact id | rfl

theorem Indexed.mapped (sound : Indexed m) {f : Member → Member} (unseen : Unseen f) :
    Indexed { m with members := m.members.map f } where
  distinct := by
    rw [map_map, show Member.id ∘ f = Member.id from funext unseen.id]
    exact sound.distinct
  once := sound.once
  listed room id := by
    simp only [sound.listed, mem_map, exists_exists_and_eq_and, unseen.id, unseen.roomId]
  auto room name id held := by
    obtain ⟨e, mem, same, status, lives, named⟩ := sound.auto room name id held
    exact ⟨f e, mem_map_of_mem mem, (unseen.id e).trans same, unseen.status e status,
      (unseen.roomId e).trans lives, (unseen.name e).trans named⟩

theorem Indexed.cleanup (sound : Indexed m) {gone : List Member} (distinct : (gone.map Member.id).Nodup)
    (stored : ∀ e ∈ gone, e ∈ m.members) : Indexed (gone.foldl Manager.unlink m) := by
  induction gone generalizing m with
  | nil => exact sound
  | cons e gone ih =>
    obtain ⟨here, later⟩ := forall_mem_cons.mp stored
    rw [map_cons, nodup_cons] at distinct
    refine ih (sound.unlink here) distinct.2 fun f mem => mem_filter.mpr ⟨later f mem, ?_⟩
    exact decide_eq_true fun same => distinct.1 (same ▸ mem_map_of_mem mem)

/-- What a call other than `SetMaxMembers` does. -/
inductive Effect (m : Manager) : Manager → Prop
  | none : Effect m m
  | mapped {f : Member → Member} (unseen : Unseen f) : Effect m { m with members := m.members.map f }
  | unlinked {l : List Member} (distinct : (l.map Member.id).Nodup) (stored : ∀ e ∈ l, e ∈ m.members) :
    Effect m (l.foldl Manager.unlink m)
  | joined {e : Member} (room : m.full = false) (fresh : ∀ f ∈ m.members, f.id ≠ e.id) :
    Effect m (m.store e)
  | ensured {e : Member} (room : m.full = false) (fresh : ∀ f ∈ m.members, f.id ≠ e.id)
    (status : e.status = .approved) : Effect m { m.store e with
      auto := update m.auto (e.roomId, e.name) (some e.id) }

theorem effect_unlink {id : Uuid} {e : Member} (found : m.find id = some e) : Effect m (m.unlink e) :=
  .unlinked (l := [e]) (nodup_singleton _) fun _ mem =>
    mem_singleton.mp mem ▸ mem_of_find?_eq_some found

theorem effect_call {c : Call} (given : m.Given c) (other : ∀ n, c ≠ .setMaxMembers n) (sound : Indexed m) :
    Effect m (m.call c) := by
  cases c with
  | setMaxMembers n => exact absurd rfl (other n)
  | requestJoin id roomId name publicKey timeout now =>
    simp only [Manager.call, Manager.requestJoin]
    split
    · exact .none
    · next room => exact .joined (Bool.eq_false_iff.mpr room) given
  | ensureApproved id roomId name approvedBy now =>
    simp only [Manager.call, Manager.ensureApproved]
    split
    · exact .none
    split
    · exact .none
    · next room => exact .ensured (e := ⟨id, _, _, _, _, _, _, _, _⟩) (Bool.eq_false_iff.mpr room) given rfl
  | approve id approvedBy now =>
    simp only [Manager.call, Manager.approve]
    split
    · exact .none
    split
    · exact .none
    · exact .mapped (unseen_approved _ approvedBy now)
  | approveAll approvedBy now => exact .mapped (unseen_approved _ approvedBy now)
  | deny id =>
    simp only [Manager.call, Manager.deny]
    split
    · exact .none
    · next found =>
      split
      · exact .none
      · exact effect_unlink found
  | remove id =>
    simp only [Manager.call, Manager.remove]
    split
    · exact .none
    · next found => exact effect_unlink found
  | cleanupExpiredPending now order =>
    refine .unlinked ?_ fun e mem => given.mem_iff.mp (mem_of_mem_filter mem)
    exact ((given.map Member.id).nodup_iff.mpr sound.distinct).sublist (filter_sublist.map _)

theorem Indexed.effect (sound : Indexed m) {m' : Manager} (effect : Effect m m') : Indexed m' := by
  cases effect with
  | none => exact sound
  | mapped unseen => exact sound.mapped unseen
  | unlinked distinct stored => exact sound.cleanup distinct stored
  | joined room fresh => exact sound.store fresh
  | @ensured e room fresh status =>
    obtain ⟨distinct, once, listed, auto⟩ := sound.store fresh
    refine ⟨distinct, once, listed, fun room name id held => ?_⟩
    by_cases key : (room, name) = (e.roomId, e.name)
    · obtain ⟨rfl, rfl⟩ := Prod.mk.inj key
      cases (update_self ..).symm.trans held
      exact ⟨e, mem_append_right _ (mem_singleton_self _), rfl, status, rfl, rfl⟩
    · exact auto room name id ((update_of_ne key ..).symm.trans held)

def Capped (m : Manager) : Prop := 0 < m.max → (m.members.length : Int) ≤ m.max

theorem Capped.unlinked (capped : m.Capped) (gone : List Member) :
    (gone.foldl Manager.unlink m).Capped := by
  induction gone generalizing m with
  | nil => exact capped
  | cons e gone ih =>
    refine ih fun pos => Int.le_trans (Int.ofNat_le.mpr ?_) (capped pos)
    exact length_filter_le _ _

theorem Capped.effect (capped : m.Capped) {m' : Manager} (effect : Effect m m') : m'.Capped := by
  have stored (room : m.full = false) : 0 < m.max → (m.members.length + 1 : Int) ≤ m.max := by
    have below := of_decide_eq_false room
    omega
  cases effect with
  | none => exact capped
  | mapped unseen => simpa only [Capped, length_map] using capped
  | unlinked distinct stored => exact capped.unlinked _
  | joined room fresh => simpa [Capped, Manager.store] using stored room
  | ensured room fresh status => simpa [Capped, Manager.store] using stored room

/-- After any calls the index of a room has the ids of its members, an automatic approval points to an
approved member, and calls that leave the cap alone keep a cap that is kept. -/
theorem members_indexed {first rest : List Call}
    (given : Along Manager.call Given newManager (first ++ rest)) :
    Indexed (afterAll Manager.call newManager (first ++ rest)) ∧
      (Capped (afterAll Manager.call newManager first) → (∀ c ∈ rest, ∀ n, c ≠ .setMaxMembers n) →
        Capped (afterAll Manager.call newManager (first ++ rest))) := by
  have start : Indexed newManager :=
    ⟨nodup_nil, fun _ => nodup_nil, fun _ _ => by simp [newManager], nofun⟩
  have step : ∀ m c, Indexed m → m.Given c → Indexed (m.call c) := by
    intro m c sound given
    by_cases other : ∀ n, c ≠ .setMaxMembers n
    · exact sound.effect (effect_call given other sound)
    · obtain ⟨n, rfl⟩ := not_forall_not.mp other
      exact ⟨sound.distinct, sound.once, sound.listed, sound.auto⟩
  refine ⟨given.invariant step start, fun capped kept => ?_⟩
  obtain ⟨before, after⟩ := along_append.mp given
  have sound := before.invariant step start
  rw [afterAll_append]
  generalize afterAll Manager.call newManager first = m at capped after sound
  clear given
  induction rest generalizing m with
  | nil => exact capped
  | cons c rest ih =>
    obtain ⟨now, later⟩ := forall_mem_cons.mp kept
    exact ih later _ (capped.effect (effect_call after.1 now sound)) after.2 (step m c sound after.1)

theorem members_indexed_two : ∃ m, m.members.length = 2 ∧ Indexed m := by
  refine ⟨afterAll Manager.call newManager ([Call.requestJoin 7 "room" "a" "" 5 0] ++
    [Call.ensureApproved 2 "room" "b" "" 0]), by decide,
    (members_indexed (show Along _ _ _ [_, _] from
      ⟨fun _ mem => absurd mem not_mem_nil, ?_, trivial⟩)).1⟩
  exact show ∀ e ∈ (newManager.requestJoin 7 "room" "a" "" 5 0).2.members, e.id ≠ 2 by decide

end Manager

end Unheaded.Wotan.Membership
