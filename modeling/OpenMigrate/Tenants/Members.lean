import OpenMigrate.Async.Turns
import OpenMigrate.Ledger.Record

namespace OpenMigrate.Tenants

inductive Role where
  | owner
  | admin
  | member
  | viewer
  deriving DecidableEq

def Role.name : Role → String
  | owner => "owner"
  | admin => "admin"
  | member => "member"
  | viewer => "viewer"

inductive MemberStatus where
  | active
  | invited
  | suspended
  | removed
  deriving DecidableEq

/-- A row of the tenant. `grantedBy` is of the model: the role under which the request acted that last set the row's
role, for a row whose role a request has set. -/
structure Member where
  id : String
  userId : String
  email : String
  role : Role
  status : MemberStatus := .active
  invitedAt : Option Instant := none
  joinedAt : Option Instant := none
  createdAt : Instant := 0
  updatedAt : Instant := 0
  grantedBy : Option Role := none
  deriving DecidableEq

/-- The rows of one tenant: `id` is the primary key, and a user is a member once. -/
structure MemberTable where
  rows : List Member
  ids : (rows.map (·.id)).Nodup
  users : (rows.map (·.userId)).Nodup

namespace MemberTable

variable (t : MemberTable)

def find? (id : String) : Option Member := t.rows.find? fun m => m.id == id

/-- An UPDATE of columns that are no key. -/
def update (p : Member → Bool) (set : Member → Member) (hid : ∀ m, (set m).id = m.id)
    (huser : ∀ m, (set m).userId = m.userId) : MemberTable where
  rows := t.rows.map fun m => if p m then set m else m
  ids := by
    have hsame : (t.rows.map fun m => if p m then set m else m).map (·.id) = t.rows.map (·.id) := by
      rw [List.map_map]
      apply List.map_congr_left
      intro m _
      simp only [Function.comp_apply]
      split
      · exact hid m
      · rfl
    rw [hsame]
    exact t.ids
  users := by
    have hsame : (t.rows.map fun m => if p m then set m else m).map (·.userId) = t.rows.map (·.userId) := by
      rw [List.map_map]
      apply List.map_congr_left
      intro m _
      simp only [Function.comp_apply]
      split
      · exact huser m
      · rfl
    rw [hsame]
    exact t.users

def delete (id : String) : MemberTable where
  rows := t.rows.filter fun m => m.id != id
  ids := t.ids.sublist (List.filter_sublist.map _)
  users := t.users.sublist (List.filter_sublist.map _)

/-- A statement that the keys refuse leaves no table. -/
def ofRows? (rows : List Member) : Option MemberTable :=
  if h : (rows.map (·.id)).Nodup ∧ (rows.map (·.userId)).Nodup then some ⟨rows, h.1, h.2⟩ else none

end MemberTable

section Guards

def demotesLastOwner (targetRole newRole : Role) (ownerCount : ℕ) : Bool :=
  targetRole == .owner && newRole != .owner && ownerCount ≤ 1

def removesLastOwner (targetRole : Role) (ownerCount : ℕ) : Bool := targetRole == .owner && ownerCount ≤ 1

def grantsOwnerWithoutPermission (newRole : Role) (requesterRole : Option Role) : Bool :=
  newRole == .owner && requesterRole != some .owner

def isSelfRemoval (requesterUserId targetUserId : Option String) : Bool :=
  requesterUserId.getD "" != "" && requesterUserId == targetUserId

end Guards

/-- Who asks: the verified claims of the token, and whether the request names the tenant. -/
structure Caller where
  sub : String
  email : String
  emailVerified : Bool := false
  names : Bool := true

inductive Action where
  | me
  | invite (email : String) (role : Role)
  | changeRole (memberId : String) (role : Role)
  | remove (memberId : String)

inductive Answer where
  | refused (status : ℕ) (error message : String)
  | profile
  | invited (member : Member)
  | updated (member : Member)
  | removed
  | elsewhere

inductive RequestState where
  | arrived
  | claiming
  | bound
  | resolved
  | admitted (role : Role)
  | vacant (role : Role)
  | targeted (role : Role) (target : Option Role)
  | counting (role target : Role)
  | permitted (role : Role)
  | answered (answer : Answer)

structure MemberRequest where
  caller : Caller
  action : Action
  state : RequestState := .arrived

/-- What one statement meets: the time, whether it raises, the ids that are drawn, and the subject's active memberships
and open invitations in other tenants. -/
structure MemberTurn where
  now : Instant := 0
  fault : Option String := none
  freshId : String := ""
  placeholder : String := ""
  ref : String := ""
  memberships : ℕ := 0
  invitations : ℕ := 0

section Authenticate

variable (t : MemberTable) (caller : Caller) (i : MemberTurn)

def serverFault (code doing ref : String) : Answer :=
  .refused 500 code (s!"Something went wrong {doing} — this is a fault on our side, not something " ++
    s!"your input caused. Reference {ref}; quoting it finds the detail in the server log.")

def lookupMembership : Option Member := t.rows.find? fun m => m.userId == caller.sub && m.status == .active

def noMembership : Answer := .refused 403 "Forbidden" "No active membership for this tenant"

/-- The tenant the request acts on, by what it names or by the subject's only membership. -/
def resolveTenant : Except Answer Bool :=
  if caller.names then .ok true
  else
    let here := (lookupMembership t caller).isSome
    let count := i.memberships + if here then 1 else 0
    if count = 1 then .ok here
    else if count = 0 then .error noMembership
    else .error (.refused 400 "Tenant required" (s!"This account belongs to {count} organisations. Name one in the " ++
      "x-ownpace-tenant header."))

def claims (m : Member) : Bool := m.email == caller.email && m.status == .invited

def bindInvitation (m : Member) : Member :=
  { m with userId := caller.sub, status := .active, joinedAt := some i.now }

/-- The open invitations to the verified address become the subject's. -/
def claimInvitations : Option MemberTable :=
  MemberTable.ofRows? (t.rows.map fun m => if claims caller m then bindInvitation caller i m else m)

def bindable : ℕ := (t.rows.filter (claims caller)).length + i.invitations

def afterResolving : RequestState :=
  match resolveTenant t caller i with
  | .ok true => .resolved
  | .ok false => .answered .elsewhere
  | .error answer => .answered answer

end Authenticate

section Routes

variable (t : MemberTable) (r : MemberRequest) (i : MemberTurn)

def failure : Answer :=
  match r.state, r.action with
  | .arrived, .me | .claiming, .me => serverFault "me_failed" "reading your account" i.ref
  | .arrived, _ | .claiming, _ | .bound, _ | .resolved, _ => serverFault "auth_failed" "verifying your session" i.ref
  | _, .invite .. => serverFault "invite_failed" "inviting this member" i.ref
  | _, .changeRole .. => serverFault "update_failed" "updating this member" i.ref
  | _, .remove _ => serverFault "remove_failed" "removing this member" i.ref
  | _, .me => serverFault "me_failed" "reading your account" i.ref

def claimable : Bool := r.caller.emailVerified && r.caller.email != ""

/-- Up to the role of the active member: who has no membership may have been invited. -/
def authenticate : MemberTable × RequestState :=
  match r.state with
  | .arrived =>
    match r.action with
    | .me =>
      (t, if i.memberships = 0 ∧ lookupMembership t r.caller = none ∧ claimable r then .claiming else .answered .profile)
    | _ =>
      match resolveTenant t r.caller i with
      | .error (.refused 403 error message) =>
        (t, if claimable r then .claiming else .answered (.refused 403 error message))
      | _ => (t, afterResolving t r.caller i)
  | .claiming =>
    match claimInvitations t r.caller i with
    | none => (t, .answered (failure r i))
    | some t' =>
      match r.action with
      | .me => (t', .answered .profile)
      | _ => (t', if 0 < bindable t r.caller i then .bound else .answered noMembership)
  | .bound => (t, afterResolving t r.caller i)
  | .resolved =>
    match lookupMembership t r.caller with
    | none => (t, .answered noMembership)
    | some m =>
      (t, if m.role = .owner ∨ m.role = .admin then .admitted m.role
        else .answered (.refused 403 "Forbidden" "Insufficient permissions"))
  | state => (t, state)

def notFound : Answer := .refused 404 "Not found" "Member not found"

def ownerCount : ℕ := (t.rows.filter fun m => m.role == .owner).length

def live (m : Member) : Bool := m.status == .active || m.status == .invited

def duplicateOf (email : String) (m : Member) : Answer :=
  .refused 409 "Conflict"
    (if m.status = .invited then
      s!"{email} already has an open invitation (as {m.role.name}). " ++
        "Remove that invitation first if you want to send a new one."
    else s!"{email} is already a member of this organization (as {m.role.name}).")

def invitation (email : String) (role by_ : Role) : Member where
  id := i.freshId
  userId := i.placeholder
  email := email
  role := role
  status := .invited
  invitedAt := some i.now
  createdAt := i.now
  updatedAt := i.now
  grantedBy := some by_

def invite (email : String) (role : Role) : MemberTable × RequestState :=
  match r.state with
  | .admitted by_ =>
    match t.rows.find? fun m => m.email == email && live m with
    | some m => (t, .answered (duplicateOf email m))
    | none => (t, .vacant by_)
  | .vacant by_ =>
    match MemberTable.ofRows? (t.rows ++ [invitation i email role by_]) with
    | some t' => (t', .answered (.invited (invitation i email role by_)))
    | none => (t, .answered (failure r i))
  | state => (t, state)

def withRole (role by_ : Role) (m : Member) : Member := { m with role := role, updatedAt := i.now, grantedBy := some by_ }

def setRole (memberId : String) (role by_ : Role) : MemberTable :=
  t.update (fun m => m.id == memberId) (withRole i role by_) (fun _ => rfl) fun _ => rfl

def changeRole (memberId : String) (role : Role) : MemberTable × RequestState :=
  match r.state with
  | .admitted by_ => (t, .targeted by_ ((t.find? memberId).map (·.role)))
  | .targeted _ none => (t, .answered notFound)
  | .targeted by_ (some target) =>
    (t, if grantsOwnerWithoutPermission role (some by_) then
        .answered (.refused 403 "Forbidden" "Only an owner can grant the owner role")
      else if demotesLastOwner target role (ownerCount t) then
        .answered (.refused 400 "Bad Request" "Cannot demote the last owner")
      else .permitted by_)
  | .permitted by_ =>
    match t.find? memberId with
    | none => (t, .answered notFound)
    | some m => (setRole t i memberId role by_, .answered (.updated (withRole i role by_ m)))
  | state => (t, state)

def remove (memberId : String) : MemberTable × RequestState :=
  match r.state with
  | .admitted by_ =>
    match t.find? memberId with
    | none => (t, .answered notFound)
    | some m =>
      (t, if isSelfRemoval (some r.caller.sub) (some m.userId) then
          .answered (.refused 400 "Bad Request" "Cannot remove yourself from the tenant")
        else if m.role = .owner then .counting by_ m.role
        else .permitted by_)
  | .counting by_ target =>
    (t, if removesLastOwner target (ownerCount t) then
        .answered (.refused 400 "Bad Request" "Cannot remove the last owner")
      else .permitted by_)
  | .permitted _ => (t.delete memberId, .answered .removed)
  | state => (t, state)

def handle : MemberTable × RequestState :=
  match r.state with
  | .answered answer => (t, .answered answer)
  | .arrived | .claiming | .bound | .resolved =>
    if i.fault.isSome then (t, .answered (failure r i)) else authenticate t r i
  | _ =>
    if i.fault.isSome then (t, .answered (failure r i))
    else
      match r.action with
      | .me => (t, .answered .profile)
      | .invite email role => invite t r i email role
      | .changeRole memberId role => changeRole t r i memberId role
      | .remove memberId => remove t r memberId

def routeStep : MemberTable × MemberRequest := ((handle t r i).1, { r with state := (handle t r i).2 })

end Routes

section Writes

variable {t : MemberTable} {r : MemberRequest} {i : MemberTurn}

theorem ofRows?_rows {rows : List Member} {t' : MemberTable} (h : MemberTable.ofRows? rows = some t') : t'.rows = rows := by
  unfold MemberTable.ofRows? at h
  split at h
  · cases h
    rfl
  · cases h

/-- What one statement makes of the table. -/
inductive Writes (t : MemberTable) (r : MemberRequest) (i : MemberTurn) (t' : MemberTable) : Prop
  | nothing (h : t' = t)
  | claims (h : claimInvitations t r.caller i = some t')
  | invites (email : String) (role by_ : Role) (hstate : r.state = .vacant by_) (haction : r.action = .invite email role)
      (hfault : i.fault = none) (h : MemberTable.ofRows? (t.rows ++ [invitation i email role by_]) = some t')
  | sets (memberId : String) (role by_ : Role) (hstate : r.state = .permitted by_)
      (haction : r.action = .changeRole memberId role) (h : t' = setRole t i memberId role by_)
  | deletes (memberId : String) (by_ : Role) (hstate : r.state = .permitted by_) (haction : r.action = .remove memberId)
      (h : t' = t.delete memberId)

theorem authenticate_writes : Writes t r i (authenticate t r i).1 := by
  unfold authenticate
  repeat' split
  all_goals first
    | exact .nothing rfl
    | exact .claims ‹_›

theorem invite_writes {email : String} {role : Role} (haction : r.action = .invite email role) (hfault : i.fault = none) :
    Writes t r i (invite t r i email role).1 := by
  unfold invite
  split
  · split <;> exact .nothing rfl
  · rename_i by_ hstate
    split
    · rename_i t' hinsert
      exact .invites email role by_ hstate haction hfault hinsert
    · exact .nothing rfl
  · exact .nothing rfl

theorem changeRole_writes {memberId : String} {role : Role} (haction : r.action = .changeRole memberId role) :
    Writes t r i (changeRole t r i memberId role).1 := by
  unfold changeRole
  split
  · exact .nothing rfl
  · exact .nothing rfl
  · exact .nothing rfl
  · rename_i by_ hstate
    split
    · exact .nothing rfl
    · exact .sets memberId role by_ hstate haction rfl
  · exact .nothing rfl

theorem remove_writes {memberId : String} (haction : r.action = .remove memberId) :
    Writes t r i (remove t r memberId).1 := by
  unfold remove
  split
  · split <;> exact .nothing rfl
  · exact .nothing rfl
  · rename_i by_ hstate
    exact .deletes memberId by_ hstate haction rfl
  · exact .nothing rfl

theorem handle_writes (t : MemberTable) (r : MemberRequest) (i : MemberTurn) : Writes t r i (handle t r i).1 := by
  by_cases hfault : i.fault.isSome = true
  · unfold handle
    split
    all_goals first
      | exact .nothing rfl
      | (rw [if_pos hfault]
         exact .nothing rfl)
  · have hnone : i.fault = none := by simpa using hfault
    unfold handle
    split
    · exact .nothing rfl
    all_goals rw [if_neg hfault]
    · exact authenticate_writes
    · exact authenticate_writes
    · exact authenticate_writes
    · exact authenticate_writes
    · split
      · exact .nothing rfl
      · rename_i haction
        exact invite_writes haction hnone
      · rename_i haction
        exact changeRole_writes haction
      · rename_i haction
        exact remove_writes haction

end Writes

end OpenMigrate.Tenants
