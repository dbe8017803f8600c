import OpenMigrate.Tenants.Members

namespace OpenMigrate.Tenants

open Async

def isActiveOwner (m : Member) : Bool := m.role == .owner && m.status == .active

def HasActiveOwner (t : MemberTable) : Prop := ∃ m ∈ t.rows, isActiveOwner m = true

instance decidableHasActiveOwner (t : MemberTable) : Decidable (HasActiveOwner t) :=
  inferInstanceAs (Decidable (∃ m ∈ t.rows, isActiveOwner m = true))

def activeOwners (t : MemberTable) : ℕ := t.rows.countP isActiveOwner

/-- The guard of a write that takes a role or a row, asked at the write and of the owners who are active. -/
def guardedAtWrite (t : MemberTable) (r : MemberRequest) (i : MemberTurn) : Bool :=
  match r.state, r.action with
  | .permitted _, .changeRole memberId role =>
    i.fault.isSome || (t.find? memberId).all fun m => m.status != .active || !demotesLastOwner m.role role (activeOwners t)
  | .permitted _, .remove memberId =>
    i.fault.isSome || (t.find? memberId).all fun m => m.status != .active || !removesLastOwner m.role (activeOwners t)
  | _, _ => true

section Table

variable {t : MemberTable} {m m' : Member} {memberId : String}

theorem find?_some (h : t.find? memberId = some m) : m ∈ t.rows ∧ m.id = memberId :=
  ⟨List.mem_of_find?_eq_some h, by simpa using List.find?_some h⟩

theorem find?_none (h : t.find? memberId = none) : ∀ m ∈ t.rows, m.id ≠ memberId := by
  intro m hm
  simpa using List.find?_eq_none.mp h m hm

theorem row_unique (hm : m ∈ t.rows) (hm' : m' ∈ t.rows) (hid : m.id = m'.id) : m = m' :=
  List.inj_on_of_nodup_map t.ids hm hm' hid

theorem another_owner_iff (hm : m ∈ t.rows) (howner : isActiveOwner m = true) :
    1 < activeOwners t ↔ ∃ m' ∈ t.rows, isActiveOwner m' = true ∧ m'.id ≠ m.id := by
  have hnodup : t.rows.Nodup := t.ids.of_map
  have hcount : activeOwners t = (t.rows.erase m).countP isActiveOwner + 1 := by
    rw [activeOwners, (List.perm_cons_erase hm).countP_eq, List.countP_cons_of_pos howner]
  rw [hcount, Nat.lt_add_left_iff_pos, List.countP_pos_iff]
  constructor
  · rintro ⟨m', hmem, howner'⟩
    obtain ⟨hne, hmem⟩ := hnodup.mem_erase_iff.mp hmem
    exact ⟨m', hmem, howner', fun hid => hne (row_unique hmem hm hid)⟩
  · rintro ⟨m', hmem, howner', hne⟩
    refine ⟨m', hnodup.mem_erase_iff.mpr ⟨?_, hmem⟩, howner'⟩
    rintro rfl
    exact hne rfl

theorem delete_active_iff : HasActiveOwner (t.delete memberId) ↔
    ∃ m ∈ t.rows, isActiveOwner m = true ∧ m.id ≠ memberId := by
  simp only [HasActiveOwner, MemberTable.delete, List.mem_filter, bne_iff_ne, ne_eq]
  constructor
  · rintro ⟨m, ⟨hm, hne⟩, howner⟩
    exact ⟨m, hm, howner, hne⟩
  · rintro ⟨m, hm, howner, hne⟩
    exact ⟨m, ⟨hm, hne⟩, howner⟩

theorem setRole_active_iff (i : MemberTurn) (role by_ : Role) : HasActiveOwner (setRole t i memberId role by_) ↔
    ∃ m ∈ t.rows, if m.id = memberId then role = .owner ∧ m.status = .active else isActiveOwner m = true := by
  simp only [HasActiveOwner, setRole, MemberTable.update, List.mem_map, exists_exists_and_eq_and]
  apply exists_congr
  intro m
  apply and_congr_right
  intro _
  by_cases hid : m.id = memberId
  · simp [hid, withRole, isActiveOwner]
  · simp [hid]

end Table

section Step

variable {t : MemberTable} {r : MemberRequest} {i : MemberTurn}

theorem owner_elsewhere {m : Member} (h : HasActiveOwner t) (hm : m ∈ t.rows) (hno : ¬ isActiveOwner m = true) :
    ∃ m' ∈ t.rows, isActiveOwner m' = true ∧ m'.id ≠ m.id := by
  obtain ⟨m', hm', howner'⟩ := h
  refine ⟨m', hm', howner', fun hid => ?_⟩
  obtain rfl := row_unique hm' hm hid
  exact hno howner'

theorem delete_keeps_iff (h : HasActiveOwner t) (memberId : String) : HasActiveOwner (t.delete memberId) ↔
    (t.find? memberId).all (fun m => m.status != .active || !removesLastOwner m.role (activeOwners t)) = true := by
  rw [delete_active_iff]
  cases hfind : t.find? memberId with
  | none =>
    obtain ⟨m, hm, howner⟩ := h
    simp only [Option.all_none, iff_true]
    exact ⟨m, hm, howner, find?_none hfind m hm⟩
  | some m =>
    obtain ⟨hm, rfl⟩ := find?_some hfind
    by_cases howner : isActiveOwner m = true
    · rw [← another_owner_iff hm howner]
      simp only [isActiveOwner, Bool.and_eq_true, beq_iff_eq] at howner
      simp [removesLastOwner, howner]
    · have hguard : (m.status != .active || !removesLastOwner m.role (activeOwners t)) = true := by
        simp only [isActiveOwner, Bool.and_eq_true, beq_iff_eq, not_and] at howner
        by_cases hactive : m.status = .active
        · have hrole : m.role ≠ .owner := fun hrole => howner hrole hactive
          simp [removesLastOwner, hrole]
        · simp [hactive]
      simp only [Option.all_some, hguard, iff_true]
      exact owner_elsewhere h hm howner

theorem setRole_keeps_iff (h : HasActiveOwner t) (memberId : String) (role by_ : Role) :
    HasActiveOwner (setRole t i memberId role by_) ↔
      (t.find? memberId).all (fun m => m.status != .active || !demotesLastOwner m.role role (activeOwners t)) = true := by
  rw [setRole_active_iff]
  cases hfind : t.find? memberId with
  | none =>
    obtain ⟨m, hm, howner⟩ := h
    simp only [Option.all_none, iff_true]
    exact ⟨m, hm, by rwa [if_neg (find?_none hfind m hm)]⟩
  | some m =>
    obtain ⟨hm, rfl⟩ := find?_some hfind
    have hsplit : (∃ m' ∈ t.rows, if m'.id = m.id then role = .owner ∧ m'.status = .active else isActiveOwner m' = true) ↔
        (role = .owner ∧ m.status = .active) ∨ ∃ m' ∈ t.rows, isActiveOwner m' = true ∧ m'.id ≠ m.id := by
      constructor
      · rintro ⟨m', hm', hcase⟩
        by_cases hid : m'.id = m.id
        · obtain rfl := row_unique hm' hm hid
          exact .inl (by simpa using hcase)
        · rw [if_neg hid] at hcase
          exact .inr ⟨m', hm', hcase, hid⟩
      · rintro (hrole | ⟨m', hm', howner', hid⟩)
        · exact ⟨m, hm, by rwa [if_pos rfl]⟩
        · exact ⟨m', hm', by rwa [if_neg hid]⟩
    rw [hsplit]
    by_cases howner : isActiveOwner m = true
    · rw [← another_owner_iff hm howner]
      simp only [isActiveOwner, Bool.and_eq_true, beq_iff_eq] at howner
      simp [demotesLastOwner, howner]
    · have hguard : (m.status != .active || !demotesLastOwner m.role role (activeOwners t)) = true := by
        simp only [isActiveOwner, Bool.and_eq_true, beq_iff_eq, not_and] at howner
        by_cases hactive : m.status = .active
        · have hrole : m.role ≠ .owner := fun hrole => howner hrole hactive
          simp [demotesLastOwner, hrole]
        · simp [hactive]
      simp only [Option.all_some, hguard, iff_true]
      exact .inr (owner_elsewhere h hm howner)

/-- Only the two guarded writes can leave the tenant without an active owner. -/
theorem handle_keeps (h : HasActiveOwner t) (hpermitted : ∀ by_, r.state ≠ .permitted by_) :
    HasActiveOwner (handle t r i).1 := by
  obtain ⟨m, hm, howner⟩ := h
  obtain hsame | hclaim | ⟨email, role, by_, -, -, -, hinsert⟩ | ⟨-, -, by_, hstate, -, -⟩ | ⟨-, by_, hstate, -, -⟩ :=
    handle_writes t r i
  · rw [hsame]
    exact ⟨m, hm, howner⟩
  · refine ⟨m, ?_, howner⟩
    rw [ofRows?_rows hclaim, List.mem_map]
    refine ⟨m, hm, if_neg ?_⟩
    simp only [isActiveOwner, Bool.and_eq_true, beq_iff_eq] at howner
    simp [claims, howner]
  · refine ⟨m, ?_, howner⟩
    rw [ofRows?_rows hinsert]
    exact List.mem_append_left _ hm
  · exact absurd hstate (hpermitted by_)
  · exact absurd hstate (hpermitted by_)

theorem permitted_keeps_iff (h : HasActiveOwner t) {by_ : Role} (hstate : r.state = .permitted by_) :
    HasActiveOwner (handle t r i).1 ↔ guardedAtWrite t r i = true := by
  obtain ⟨caller, action, state⟩ := r
  obtain rfl : state = .permitted by_ := hstate
  cases hfault : i.fault with
  | some reason =>
    have hguard : guardedAtWrite t ⟨caller, action, .permitted by_⟩ i = true := by
      cases action <;> simp [guardedAtWrite, hfault]
    simpa [handle, hfault, hguard] using h
  | none =>
    cases action with
    | me => simpa [handle, hfault, guardedAtWrite] using h
    | invite email role => simpa [handle, hfault, guardedAtWrite, invite] using h
    | changeRole memberId role =>
      have hguard : guardedAtWrite t ⟨caller, .changeRole memberId role, .permitted by_⟩ i = true ↔
          HasActiveOwner (setRole t i memberId role by_) := by
        rw [setRole_keeps_iff h]
        simp [guardedAtWrite, hfault]
      rw [hguard]
      simp only [handle, hfault, Option.isSome_none, Bool.false_eq_true, if_false, changeRole]
      split
      · rename_i hnone
        rw [setRole_keeps_iff h, hnone]
        simpa using h
      · rfl
    | remove memberId =>
      have hguard : guardedAtWrite t ⟨caller, .remove memberId, .permitted by_⟩ i = true ↔
          HasActiveOwner (t.delete memberId) := by
        rw [delete_keeps_iff h]
        simp [guardedAtWrite, hfault]
      rw [hguard]
      simp only [handle, hfault, Option.isSome_none, Bool.false_eq_true, if_false, remove]

theorem routeStep_keeps_iff (h : HasActiveOwner t) :
    HasActiveOwner (routeStep t r i).1 ↔ guardedAtWrite t r i = true := by
  by_cases hpermitted : ∃ by_, r.state = .permitted by_
  · obtain ⟨by_, hstate⟩ := hpermitted
    exact permitted_keeps_iff h hstate
  · have hno : ∀ by_, r.state ≠ .permitted by_ := fun by_ hstate => hpermitted ⟨by_, hstate⟩
    have hguard : guardedAtWrite t r i = true := by
      unfold guardedAtWrite
      split
      · exact absurd ‹_› (hno _)
      · exact absurd ‹_› (hno _)
      · rfl
    exact iff_of_true (handle_keeps h hno) hguard

end Step

def opening (requests : List (Caller × Action)) (t : MemberTable) : List MemberRequest × MemberTable :=
  (requests.map fun request => ⟨request.1, request.2, .arrived⟩, t)

/-- In any interleaving of the statements of any member requests: the tenant always keeps an active owner if and only if
every write that takes an active owner's role or row would pass its guard as it finds the active owners. -/
theorem active_owner_kept_iff {t : MemberTable} (h : HasActiveOwner t) (requests : List (Caller × Action))
    (chs : List (ℕ × MemberTurn)) :
    (∀ n, HasActiveOwner (turns routeStep (opening requests t) (chs.take n)).2) ↔
      EveryTurn routeStep (fun t r i => guardedAtWrite t r i = true) (opening requests t) chs := by
  apply turns_keep_iff (Q := fun _ => True) (fun _ _ _ => trivial) _ chs trivial h
  intro x ch r _ howner _
  exact routeStep_keeps_iff howner

namespace Sample

def ann : Caller := ⟨"ann", "ann@x", true, true⟩

def ben : Caller := ⟨"ben", "ben@x", true, true⟩

def row (caller : Caller) (role : Role) : Member := { id := caller.sub, userId := caller.sub, email := caller.email, role }

def twoOwners : MemberTable := ⟨[row ann .owner, row ben .owner], by decide, by decide⟩

/-- Turns of the given requests. -/
def turnsOf (js : List ℕ) : List (ℕ × MemberTurn) := js.map fun j => (j, { freshId := "new", placeholder := "pending:new" })

def demotions : List (Caller × Action) := [(ann, .changeRole "ben" .member), (ben, .changeRole "ann" .member)]

end Sample

/-- Each of two owners demotes the other: both requests count two owners before either writes. -/
theorem owners_demote_each_other :
    ¬ ∀ n, HasActiveOwner (turns routeStep (opening Sample.demotions Sample.twoOwners)
      ((Sample.turnsOf [0, 0, 0, 0, 1, 1, 1, 1, 0, 1]).take n)).2 := by
  intro h
  exact absurd (h 10) (by decide +kernel)

theorem active_owner_kept_one_after_the_other :
    HasActiveOwner (turns routeStep (opening Sample.demotions Sample.twoOwners)
      ((Sample.turnsOf [0, 0, 0, 0, 0, 1, 1]).take 7)).2 :=
  (active_owner_kept_iff (by decide) Sample.demotions _).mpr (by decide +kernel) 7

section Grants

/-- Who is an owner was one at the start or was made one by an owner. -/
def OwnersByOwners (t : MemberTable) : Prop :=
  ∀ m ∈ t.rows, m.role = .owner → m.grantedBy = none ∨ m.grantedBy = some .owner

/-- An invitation that is stored passes the guard that the change of a role passes. -/
def invitesWithin (t : MemberTable) (r : MemberRequest) (i : MemberTurn) : Bool :=
  match r.state, r.action with
  | .vacant by_, .invite email role =>
    i.fault.isSome || (MemberTable.ofRows? (t.rows ++ [invitation i email role by_])).isNone ||
      !grantsOwnerWithoutPermission role (some by_)
  | _, _ => true

/-- What a request that may change a role to owner has shown. -/
def RoleChecked (r : MemberRequest) : Prop :=
  ∀ by_ memberId role, r.state = .permitted by_ → r.action = .changeRole memberId role →
    grantsOwnerWithoutPermission role (some by_) = false

variable {t : MemberTable} {r : MemberRequest} {i : MemberTurn}

theorem grants_owner {role by_ : Role} (h : grantsOwnerWithoutPermission role (some by_) = false) (howner : role = .owner) :
    by_ = .owner := by
  simpa [grantsOwnerWithoutPermission, howner] using h

theorem afterResolving_not_permitted (t : MemberTable) (caller : Caller) (i : MemberTurn) (by_ : Role) :
    afterResolving t caller i ≠ .permitted by_ := by
  unfold afterResolving
  split <;> exact nofun

theorem authenticate_not_permitted {by_ : Role} (hstate : r.state ≠ .permitted by_) :
    (authenticate t r i).2 ≠ .permitted by_ := by
  unfold authenticate
  repeat' split
  all_goals first
    | exact afterResolving_not_permitted t r.caller i by_
    | exact hstate
    | exact nofun

theorem changeRole_permitted {by_ : Role} {memberId : String} {role : Role}
    (h : (changeRole t r i memberId role).2 = .permitted by_) (hstate : r.state ≠ .permitted by_) :
    grantsOwnerWithoutPermission role (some by_) = false := by
  unfold changeRole at h
  split at h
  · cases h
  · cases h
  · rename_i by' target _
    by_cases hgrants : grantsOwnerWithoutPermission role (some by') = true
    · simp [hgrants] at h
    · by_cases hlast : demotesLastOwner target role (ownerCount t) = true
      · simp [hgrants, hlast] at h
      · simp only [hgrants, hlast, if_false, RequestState.permitted.injEq, Bool.false_eq_true] at h
        rw [← h]
        exact eq_false_of_ne_true hgrants
  · split at h <;> cases h
  · exact absurd h hstate

theorem handle_permitted {by_ : Role} (h : (handle t r i).2 = .permitted by_) {memberId : String} {role : Role}
    (haction : r.action = .changeRole memberId role) (hchecked : RoleChecked r) :
    grantsOwnerWithoutPermission role (some by_) = false := by
  by_cases hstate : r.state = .permitted by_
  · exact hchecked by_ memberId role hstate haction
  · unfold handle at h
    split at h
    · cases h
    · split at h
      · cases h
      · exact absurd h (authenticate_not_permitted hstate)
    · split at h
      · cases h
      · exact absurd h (authenticate_not_permitted hstate)
    · split at h
      · cases h
      · exact absurd h (authenticate_not_permitted hstate)
    · split at h
      · cases h
      · exact absurd h (authenticate_not_permitted hstate)
    · split at h
      · cases h
      · simp only [haction] at h
        exact changeRole_permitted h hstate

theorem checked_step (x : List MemberRequest × MemberTable) (ch : ℕ × MemberTurn) (hx : ∀ r ∈ x.1, RoleChecked r) :
    ∀ r ∈ (turn routeStep x ch).1, RoleChecked r := by
  obtain ⟨-, hsame⟩ | ⟨r, hr, hturn⟩ := turn_cases routeStep x ch
  · rwa [hsame]
  · rw [hturn]
    intro r' hr'
    obtain hmem | rfl := List.mem_or_eq_of_mem_set hr'
    · exact hx r' hmem
    · intro by_ memberId role hstate haction
      exact handle_permitted hstate haction (hx r (List.mem_of_getElem? hr))

theorem setRole_owners (h : OwnersByOwners t) {memberId : String} {role by_ : Role}
    (hgrants : grantsOwnerWithoutPermission role (some by_) = false) : OwnersByOwners (setRole t i memberId role by_) := by
  intro m' hm' howner
  obtain ⟨m, hm, rfl⟩ := List.mem_map.mp hm'
  by_cases hid : (m.id == memberId) = true
  · rw [if_pos hid] at howner ⊢
    right
    exact congrArg some (grants_owner hgrants howner)
  · rw [if_neg hid] at howner ⊢
    exact h m hm howner

theorem invited_owners_iff (h : OwnersByOwners t) {email : String} {role by_ : Role} {t' : MemberTable}
    (hrows : t'.rows = t.rows ++ [invitation i email role by_]) :
    OwnersByOwners t' ↔ grantsOwnerWithoutPermission role (some by_) = false := by
  constructor
  · intro hafter
    by_cases howner : role = .owner
    · have hnew : invitation i email role by_ ∈ t'.rows := by simp [hrows]
      obtain hnone | hby := hafter _ hnew howner
      · cases hnone
      · cases hby
        simp [grantsOwnerWithoutPermission]
    · simp [grantsOwnerWithoutPermission, howner]
  · intro hgrants m hm howner
    rw [hrows, List.mem_append, List.mem_singleton] at hm
    obtain hm | rfl := hm
    · exact h m hm howner
    · exact .inr (congrArg some (grants_owner hgrants howner))

theorem vacant_step_iff (h : OwnersByOwners t) {caller : Caller} {email : String} {role by_ : Role} :
    OwnersByOwners (routeStep t ⟨caller, .invite email role, .vacant by_⟩ i).1 ↔
      invitesWithin t ⟨caller, .invite email role, .vacant by_⟩ i = true := by
  cases hfault : i.fault with
  | some reason => simpa [routeStep, handle, invitesWithin, hfault] using h
  | none =>
    cases hrows : MemberTable.ofRows? (t.rows ++ [invitation i email role by_]) with
    | none => simpa [routeStep, handle, invite, invitesWithin, hfault, hrows] using h
    | some t' =>
      have hafter := invited_owners_iff h (ofRows?_rows hrows)
      simpa [routeStep, handle, invite, invitesWithin, hfault, hrows] using hafter

theorem handle_owners (h : OwnersByOwners t) (hchecked : RoleChecked r)
    (hvacant : ∀ by_ email role, ¬ (r.state = .vacant by_ ∧ r.action = .invite email role)) :
    OwnersByOwners (handle t r i).1 := by
  obtain hsame | hclaim | ⟨email, role, by_, hstate, haction, -, -⟩ | ⟨memberId, role, by_, hstate, haction, hset⟩ |
    ⟨memberId, by_, -, -, hdelete⟩ := handle_writes t r i
  · rwa [hsame]
  · intro m' hm' howner
    rw [ofRows?_rows hclaim, List.mem_map] at hm'
    obtain ⟨m, hm, rfl⟩ := hm'
    split at howner
    · rename_i hclaims
      rw [if_pos hclaims]
      exact h m hm howner
    · rename_i hclaims
      rw [if_neg hclaims]
      exact h m hm howner
  · exact absurd ⟨hstate, haction⟩ (hvacant by_ email role)
  · rw [hset]
    exact setRole_owners h (hchecked by_ memberId role hstate haction)
  · rw [hdelete]
    intro m hm howner
    exact h m (List.mem_of_mem_filter hm) howner

theorem grants_step_iff (h : OwnersByOwners t) (hchecked : RoleChecked r) :
    OwnersByOwners (routeStep t r i).1 ↔ invitesWithin t r i = true := by
  by_cases hvacant : ∃ by_ email role, r.state = .vacant by_ ∧ r.action = .invite email role
  · obtain ⟨caller, action, state⟩ := r
    obtain ⟨by_, email, role, rfl, rfl⟩ := hvacant
    exact vacant_step_iff h
  · have hno : ∀ by_ email role, ¬ (r.state = .vacant by_ ∧ r.action = .invite email role) :=
      fun by_ email role hboth => hvacant ⟨by_, email, role, hboth⟩
    have hguard : invitesWithin t r i = true := by
      unfold invitesWithin
      split
      · exact absurd ⟨‹_›, ‹_›⟩ (hno _ _ _)
      · rfl
    exact iff_of_true (handle_owners h hchecked hno) hguard

/-- In any interleaving of the statements of any member requests, every owner that was not one at the start was made one
by an owner if and only if every invitation that is stored passes the guard of the change of a role. -/
theorem owners_granted_iff (hstart : ∀ m ∈ t.rows, m.grantedBy = none) (requests : List (Caller × Action))
    (chs : List (ℕ × MemberTurn)) :
    (∀ n, OwnersByOwners (turns routeStep (opening requests t) (chs.take n)).2) ↔
      EveryTurn routeStep (fun t r i => invitesWithin t r i = true) (opening requests t) chs := by
  apply turns_keep_iff checked_step _ chs
  · intro r hr
    obtain ⟨request, -, rfl⟩ := List.mem_map.mp hr
    rintro by_ memberId role ⟨⟩
  · intro m hm _
    exact .inl (hstart m hm)
  · intro x ch r hx hP hr
    exact grants_step_iff hP (hx r (List.mem_of_getElem? hr))

end Grants

namespace Sample

def cleo : Caller := ⟨"cleo", "cleo@x", true, false⟩

def ownerAndAdmin : MemberTable := ⟨[row ann .owner, row ben .admin], by decide, by decide⟩

end Sample

/-- An admin invites an owner, and the invitation is accepted. -/
theorem admin_makes_an_owner :
    ¬ ∀ n, OwnersByOwners (turns routeStep
      (opening [(Sample.ben, .invite "cleo@x" .owner), (Sample.cleo, .me)] Sample.ownerAndAdmin)
      ((Sample.turnsOf [0, 0, 0, 0, 1, 1]).take n)).2 := by
  have hrow : (turns routeStep (opening [(Sample.ben, .invite "cleo@x" .owner), (Sample.cleo, .me)] Sample.ownerAndAdmin)
      (Sample.turnsOf [0, 0, 0, 0, 1, 1])).2.rows.any (fun m => m.userId == "cleo" && m.status == .active &&
        m.role == .owner && m.grantedBy == some .admin) = true := by decide +kernel
  intro h
  obtain ⟨m, hm, hcols⟩ := List.any_eq_true.mp hrow
  simp only [Bool.and_eq_true, beq_iff_eq] at hcols
  obtain ⟨⟨-, howner⟩, hby⟩ := hcols
  obtain hnone | hgranted := h 6 m hm howner
  · rw [hby] at hnone
    cases hnone
  · rw [hby] at hgranted
    cases hgranted

theorem owner_makes_an_owner :
    OwnersByOwners (turns routeStep (opening [(Sample.ann, .invite "cleo@x" .owner), (Sample.cleo, .me)] Sample.ownerAndAdmin)
      ((Sample.turnsOf [0, 0, 0, 0, 1, 1]).take 6)).2 :=
  (owners_granted_iff (by decide) [(Sample.ann, .invite "cleo@x" .owner), (Sample.cleo, .me)] _).mpr
    (by decide +kernel) 6

end OpenMigrate.Tenants
