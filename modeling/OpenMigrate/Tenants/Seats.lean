import OpenMigrate.Tenants.Owners
import Mathlib.Data.List.Induction

namespace OpenMigrate.Tenants

open Async

section Spec

/-- The gate of the routes that write: an active member who is an owner or an admin. -/
def Manages (t : MemberTable) (caller : Caller) : Prop :=
  ∃ m ∈ t.rows, m.userId = caller.sub ∧ m.status = .active ∧ (m.role = .owner ∨ m.role = .admin)

/-- The request is behind the gate, or was answered with a write. -/
def RequestState.passed : RequestState → Bool
  | .admitted _ | .vacant _ | .targeted .. | .counting .. | .permitted _ => true
  | .answered (.invited _) | .answered (.updated _) | .answered .removed => true
  | _ => false

variable (t : MemberTable) (requests : List (Caller × Action)) (Managed : Caller → Prop) (m : Member)

/-- Where a row of the tenant comes from: it was there, or was added by an invitation to its address. -/
def Origin : Prop :=
  (∃ m₀ ∈ t.rows, m₀.id = m.id ∧ m₀.email = m.email) ∨
    ∃ caller role, (caller, .invite m.email role) ∈ requests ∧ Managed caller

/-- Whose a row is: whose it was, nobody's before the invitation is accepted, and then of a subject who asked with the
address of the row as his verified one. -/
def Taken : Prop :=
  (∃ m₀ ∈ t.rows, m₀.id = m.id ∧ m₀.userId = m.userId ∧ m₀.status = m.status) ∨ m.status = .invited ∨
    m.status = .active ∧ ∃ caller action, (caller, action) ∈ requests ∧ caller.emailVerified = true ∧
      caller.email = m.email ∧ caller.email ≠ "" ∧ m.userId = caller.sub

/-- Who gave a row its role. -/
def Ranked : Prop :=
  (∃ m₀ ∈ t.rows, m₀.id = m.id ∧ m₀.role = m.role) ∨
    ∃ caller, Managed caller ∧
      ((caller, .invite m.email m.role) ∈ requests ∨ (caller, .changeRole m.id m.role) ∈ requests)

structure Seat : Prop where
  origin : Origin t requests Managed m
  taken : Taken t requests m
  ranked : Ranked t requests Managed m

/-- The caller managed the tenant at some moment of the run so far. -/
def ManagedIn (x : List MemberRequest × MemberTable) (chs : List (ℕ × MemberTurn)) (caller : Caller) : Prop :=
  ∃ k ≤ chs.length, Manages (turns routeStep x (chs.take k)).2 caller

/-- What a run makes of the rows of the tenant. -/
structure Seated (t : MemberTable) (requests : List (Caller × Action)) (Managed : Caller → Prop)
    (x : List MemberRequest × MemberTable) : Prop where
  asked : x.1.map (fun r => (r.caller, r.action)) = requests
  passed : ∀ r ∈ x.1, r.state.passed = true → Managed r.caller
  claiming : ∀ r ∈ x.1, r.state = .claiming → claimable r = true
  seats : ∀ m ∈ x.2.rows, Seat t requests Managed m
  gone : ∀ m₀ ∈ t.rows, (∃ m ∈ x.2.rows, m.id = m₀.id) ∨
    ∃ caller, (caller, .remove m₀.id) ∈ requests ∧ Managed caller

end Spec

section Gate

variable {t : MemberTable} {r : MemberRequest} {i : MemberTurn}

theorem afterResolving_passed (caller : Caller) : (afterResolving t caller i).passed = false := by
  unfold afterResolving
  split
  · rfl
  · rfl
  · rename_i answer hrefused
    unfold resolveTenant noMembership at hrefused
    split at hrefused
    · cases hrefused
    · dsimp only at hrefused
      generalize i.memberships + _ = count at hrefused
      split at hrefused
      · cases hrefused
      · split at hrefused
        · cases hrefused
          rfl
        · cases hrefused
          rfl

theorem failure_passed : (RequestState.answered (failure r i)).passed = false := by
  unfold failure serverFault
  split <;> rfl

/-- Only the lookup of the caller's own active row opens the gate. -/
theorem authenticate_passed (h : (authenticate t r i).2.passed = true) :
    r.state.passed = true ∨ Manages t r.caller := by
  unfold authenticate at h
  split at h
  · split at h
    · split at h <;> cases h
    · split at h
      · split at h <;> cases h
      · rw [afterResolving_passed] at h
        cases h
  · split at h
    · rw [failure_passed] at h
      cases h
    · split at h
      · cases h
      · split at h <;> cases h
  · rw [afterResolving_passed] at h
    cases h
  · split at h
    · cases h
    · rename_i m hm
      split at h
      · rename_i hrole
        have hmem := List.mem_of_find?_eq_some hm
        have hcols := List.find?_some hm
        simp only [Bool.and_eq_true, beq_iff_eq] at hcols
        exact .inr ⟨m, hmem, hcols.1, hcols.2, hrole⟩
      · cases h
  · exact .inl h

theorem handle_passed (h : (handle t r i).2.passed = true) : r.state.passed = true ∨ Manages t r.caller := by
  unfold handle at h
  split at h
  · rename_i answer hstate
    rw [hstate]
    exact .inl h
  all_goals try
    split at h
    · rw [failure_passed] at h
      cases h
    · exact authenticate_passed h
  · rename_i hanswered harrived hclaiming hbound hresolved
    left
    cases hstate : r.state with
    | arrived => exact absurd hstate harrived
    | claiming => exact absurd hstate hclaiming
    | bound => exact absurd hstate hbound
    | resolved => exact absurd hstate hresolved
    | answered answer => exact absurd hstate (hanswered answer)
    | _ => rfl

theorem authenticate_claiming (h : (authenticate t r i).2 = .claiming) (hstate : r.state ≠ .claiming) :
    claimable r = true := by
  have hresolving : ∀ caller, afterResolving t caller i ≠ .claiming := by
    intro caller hclaiming
    unfold afterResolving at hclaiming
    split at hclaiming <;> cases hclaiming
  unfold authenticate at h
  split at h
  · split at h
    · split at h
      · rename_i hboth
        exact hboth.2.2
      · cases h
    · split at h
      · split at h
        · assumption
        · cases h
      · exact absurd h (hresolving _)
  · exact absurd ‹_› hstate
  · exact absurd h (hresolving _)
  · split at h
    · cases h
    · split at h <;> cases h
  · exact absurd h hstate

theorem handle_claiming (h : (handle t r i).2 = .claiming) (hstate : r.state ≠ .claiming) : claimable r = true := by
  unfold handle at h
  split at h
  · cases h
  all_goals try
    split at h
    · cases h
    · exact authenticate_claiming h hstate
  · split at h
    · cases h
    · split at h
      · cases h
      · unfold invite at h
        split at h
        · split at h <;> cases h
        · split at h <;> cases h
        · exact absurd h hstate
      · unfold changeRole at h
        split at h
        · cases h
        · cases h
        · split at h
          · cases h
          · split at h <;> cases h
        · split at h <;> cases h
        · exact absurd h hstate
      · unfold remove at h
        split at h
        · split at h
          · cases h
          · split at h
            · cases h
            · split at h <;> cases h
        · split at h <;> cases h
        · cases h
        · exact absurd h hstate

end Gate

section Rows

variable {t t' : MemberTable} {r : MemberRequest} {i : MemberTurn}

/-- What one statement makes of the table, and behind which check. -/
inductive Wrote (t : MemberTable) (r : MemberRequest) (i : MemberTurn) (t' : MemberTable) : Prop
  | nothing (h : t' = t)
  | claims (hstate : r.state = .claiming)
      (h : t'.rows = t.rows.map fun m => if claims r.caller m then bindInvitation r.caller i m else m)
  | invites (email : String) (role by_ : Role) (hstate : r.state.passed = true)
      (haction : r.action = .invite email role) (h : t'.rows = t.rows ++ [invitation i email role by_])
  | sets (memberId : String) (role by_ : Role) (hstate : r.state.passed = true)
      (haction : r.action = .changeRole memberId role)
      (h : t'.rows = t.rows.map fun m => if m.id == memberId then withRole i role by_ m else m)
  | deletes (memberId : String) (hstate : r.state.passed = true) (haction : r.action = .remove memberId)
      (h : t'.rows = t.rows.filter fun m => m.id != memberId)

theorem authenticate_wrote : Wrote t r i (authenticate t r i).1 := by
  unfold authenticate
  split
  · split
    · exact .nothing rfl
    · split <;> exact .nothing rfl
  · rename_i hstate
    split
    · exact .nothing rfl
    · rename_i t' hclaim
      split <;> exact .claims hstate (ofRows?_rows hclaim)
  · exact .nothing rfl
  · split <;> exact .nothing rfl
  · exact .nothing rfl

theorem invite_wrote {email : String} {role : Role} (haction : r.action = .invite email role) :
    Wrote t r i (invite t r i email role).1 := by
  unfold invite
  split
  · split <;> exact .nothing rfl
  · rename_i by_ hstate
    split
    · rename_i t' hinsert
      exact .invites email role by_ (by rw [hstate]; rfl) haction (ofRows?_rows hinsert)
    · exact .nothing rfl
  · exact .nothing rfl

theorem changeRole_wrote {memberId : String} {role : Role} (haction : r.action = .changeRole memberId role) :
    Wrote t r i (changeRole t r i memberId role).1 := by
  unfold changeRole
  split
  · exact .nothing rfl
  · exact .nothing rfl
  · exact .nothing rfl
  · rename_i by_ hstate
    split
    · exact .nothing rfl
    · exact .sets memberId role by_ (by rw [hstate]; rfl) haction rfl
  · exact .nothing rfl

theorem remove_wrote {memberId : String} (haction : r.action = .remove memberId) :
    Wrote t r i (remove t r memberId).1 := by
  unfold remove
  split
  · split <;> exact .nothing rfl
  · exact .nothing rfl
  · rename_i by_ hstate
    exact .deletes memberId (by rw [hstate]; rfl) haction rfl
  · exact .nothing rfl

theorem handle_wrote (t : MemberTable) (r : MemberRequest) (i : MemberTurn) : Wrote t r i (handle t r i).1 := by
  unfold handle
  split
  · exact .nothing rfl
  all_goals split
  all_goals first
    | exact .nothing rfl
    | exact authenticate_wrote
    | skip
  split
  · exact .nothing rfl
  · exact invite_wrote ‹_›
  · exact changeRole_wrote ‹_›
  · exact remove_wrote ‹_›

end Rows

section Run

variable {t : MemberTable} {requests : List (Caller × Action)} {Managed Managed' : Caller → Prop} {m : Member}
  {x : List MemberRequest × MemberTable}

theorem Seat.mono (h : Seat t requests Managed m) (hle : ∀ caller, Managed caller → Managed' caller) :
    Seat t requests Managed' m := by
  refine ⟨?_, h.taken, ?_⟩
  · obtain hthere | ⟨caller, role, hasked, hmanaged⟩ := h.origin
    · exact .inl hthere
    · exact .inr ⟨caller, role, hasked, hle caller hmanaged⟩
  · obtain hthere | ⟨caller, hmanaged, hasked⟩ := h.ranked
    · exact .inl hthere
    · exact .inr ⟨caller, hle caller hmanaged, hasked⟩

theorem Seated.mono (h : Seated t requests Managed x) (hle : ∀ caller, Managed caller → Managed' caller) :
    Seated t requests Managed' x where
  asked := h.asked
  passed r hr hpassed := hle _ (h.passed r hr hpassed)
  claiming := h.claiming
  seats m hm := (h.seats m hm).mono hle
  gone m₀ hm₀ := (h.gone m₀ hm₀).imp_right fun ⟨caller, hasked, hmanaged⟩ => ⟨caller, hasked, hle caller hmanaged⟩

theorem Seat.bind {caller : Caller} {action : Action} {i : MemberTurn} (h : Seat t requests Managed m)
    (hasked : (caller, action) ∈ requests) (hverified : caller.emailVerified = true) (hemail : caller.email ≠ "")
    (hclaims : claims caller m = true) : Seat t requests Managed (bindInvitation caller i m) := by
  simp only [claims, Bool.and_eq_true, beq_iff_eq] at hclaims
  refine ⟨h.origin, .inr (.inr ⟨rfl, caller, action, hasked, hverified, hclaims.1.symm, hemail, rfl⟩), h.ranked⟩

theorem map_set_same {α β : Type} {f : α → β} {xs : List α} {j : ℕ} {a b : α} (ha : xs[j]? = some a) (hf : f b = f a) :
    (xs.set j b).map f = xs.map f := by
  obtain ⟨hlt, rfl⟩ := List.getElem?_eq_some_iff.mp ha
  have hlt' : j < (xs.map f).length := by rwa [List.length_map]
  have hkey : f xs[j] = (xs.map f)[j] := (List.getElem_map f).symm
  rw [List.map_set, hf, hkey, List.set_getElem_self]

theorem Seated.rows {r : MemberRequest} {i : MemberTurn} {t' : MemberTable} (h : Seated t requests Managed x)
    (hr : r ∈ x.1) (hwrote : Wrote x.2 r i t') : ∀ m ∈ t'.rows, Seat t requests Managed m := by
  have hasked : (r.caller, r.action) ∈ requests := by
    rw [← h.asked]
    exact List.mem_map.mpr ⟨r, hr, rfl⟩
  intro m' hm'
  obtain rfl | ⟨hstate, hrows⟩ | ⟨email, role, by_, hstate, haction, hrows⟩ |
    ⟨memberId, role, by_, hstate, haction, hrows⟩ | ⟨memberId, hstate, haction, hrows⟩ := hwrote
  · exact h.seats m' hm'
  · rw [hrows] at hm'
    obtain ⟨m, hm, rfl⟩ := List.mem_map.mp hm'
    split
    · rename_i hclaims
      have hclaimable := h.claiming r hr hstate
      simp only [claimable, Bool.and_eq_true, bne_iff_ne] at hclaimable
      exact (h.seats m hm).bind hasked hclaimable.1 hclaimable.2 hclaims
    · exact h.seats m hm
  · rw [haction] at hasked
    rw [hrows] at hm'
    obtain hm | hm := List.mem_append.mp hm'
    · exact h.seats m' hm
    · obtain rfl := List.mem_singleton.mp hm
      have hmanaged := h.passed r hr hstate
      exact ⟨.inr ⟨r.caller, role, hasked, hmanaged⟩, .inr (.inl rfl), .inr ⟨r.caller, hmanaged, .inl hasked⟩⟩
  · rw [haction] at hasked
    rw [hrows] at hm'
    obtain ⟨m, hm, rfl⟩ := List.mem_map.mp hm'
    have hseat := h.seats m hm
    split
    · rename_i hid
      obtain rfl : m.id = memberId := beq_iff_eq.mp hid
      exact ⟨hseat.origin, hseat.taken, .inr ⟨r.caller, h.passed r hr hstate, .inr hasked⟩⟩
    · exact hseat
  · rw [hrows] at hm'
    exact h.seats m' (List.mem_of_mem_filter hm')

theorem Seated.kept {r : MemberRequest} {i : MemberTurn} {t' : MemberTable} (h : Seated t requests Managed x)
    (hr : r ∈ x.1) (hwrote : Wrote x.2 r i t') {m₀ : Member} (hm₀ : m₀ ∈ t.rows) :
    (∃ m ∈ t'.rows, m.id = m₀.id) ∨ ∃ caller, (caller, .remove m₀.id) ∈ requests ∧ Managed caller := by
  have hmapped : ∀ set : Member → Member, (∀ m, (set m).id = m.id) → t'.rows = x.2.rows.map set →
      (∃ m ∈ x.2.rows, m.id = m₀.id) → ∃ m ∈ t'.rows, m.id = m₀.id := by
    rintro set hid hrows ⟨m, hm, heq⟩
    refine ⟨set m, ?_, (hid m).trans heq⟩
    rw [hrows]
    exact List.mem_map_of_mem hm
  obtain rfl | ⟨hstate, hrows⟩ | ⟨email, role, by_, hstate, haction, hrows⟩ |
    ⟨memberId, role, by_, hstate, haction, hrows⟩ | ⟨memberId, hstate, haction, hrows⟩ := hwrote
  · exact h.gone m₀ hm₀
  · refine (h.gone m₀ hm₀).imp_left (hmapped _ (fun m => ?_) hrows)
    split <;> rfl
  · refine (h.gone m₀ hm₀).imp_left fun ⟨m, hm, hid⟩ => ⟨m, ?_, hid⟩
    rw [hrows]
    exact List.mem_append_left _ hm
  · refine (h.gone m₀ hm₀).imp_left (hmapped _ (fun m => ?_) hrows)
    split <;> rfl
  · obtain ⟨m, hm, hid⟩ | hremoved := h.gone m₀ hm₀
    · by_cases hmember : m.id = memberId
      · refine .inr ⟨r.caller, ?_, h.passed r hr hstate⟩
        rw [← hid, hmember, ← haction, ← h.asked]
        exact List.mem_map.mpr ⟨r, hr, rfl⟩
      · refine .inl ⟨m, ?_, hid⟩
        rw [hrows]
        exact List.mem_filter.mpr ⟨hm, bne_iff_ne.mpr hmember⟩
    · exact .inr hremoved

/-- One statement of one request, where whoever manages the tenant now is counted. -/
theorem Seated.turn (h : Seated t requests Managed x) (hnow : ∀ caller, Manages x.2 caller → Managed caller)
    (ch : ℕ × MemberTurn) : Seated t requests Managed (Async.turn routeStep x ch) := by
  obtain ⟨-, hsame⟩ | ⟨r, hr, hturn⟩ := turn_cases routeStep x ch
  · rwa [hsame]
  · have hmem := List.mem_of_getElem? hr
    have hwrote := handle_wrote x.2 r ch.2
    rw [hturn]
    refine ⟨?_, fun r' hr' hpassed => ?_, fun r' hr' hclaiming => ?_, h.rows hmem hwrote,
      fun m₀ hm₀ => h.kept hmem hwrote hm₀⟩
    · have hasked : (x.1.set ch.1 (routeStep x.2 r ch.2).2).map (fun r => (r.caller, r.action)) =
          x.1.map fun r => (r.caller, r.action) := map_set_same hr rfl
      exact hasked.trans h.asked
    · obtain hr' | rfl := List.mem_or_eq_of_mem_set hr'
      · exact h.passed r' hr' hpassed
      · obtain hbefore | hmanages := handle_passed hpassed
        · exact h.passed r hmem hbefore
        · exact hnow r.caller hmanages
    · obtain hr' | rfl := List.mem_or_eq_of_mem_set hr'
      · exact h.claiming r' hr' hclaiming
      · by_cases hstate : r.state = .claiming
        · exact h.claiming r hmem hstate
        · have hclaims : (handle x.2 r ch.2).2 = .claiming := hclaiming
          have hclaimable : claimable r = true := handle_claiming hclaims hstate
          exact hclaimable

theorem Seated.opening (t : MemberTable) (requests : List (Caller × Action)) (Managed : Caller → Prop) :
    Seated t requests Managed (Tenants.opening requests t) where
  asked := by
    rw [Tenants.opening, List.map_map]
    exact List.map_id requests
  passed r hr hpassed := by
    obtain ⟨request, -, rfl⟩ := List.mem_map.mp hr
    cases hpassed
  claiming r hr hclaiming := by
    obtain ⟨request, -, rfl⟩ := List.mem_map.mp hr
    cases hclaiming
  seats m hm := ⟨.inl ⟨m, hm, rfl, rfl⟩, .inl ⟨m, hm, rfl, rfl, rfl⟩, .inl ⟨m, hm, rfl, rfl⟩⟩
  gone m₀ hm₀ := .inl ⟨m₀, hm₀, rfl⟩

/-- In any interleaving of the statements of any member requests: who passes the gate, invites, gives a role or removes
was a managing member at some moment of the run, and a seat is only ever taken by a subject whose verified address the
invitation names. -/
theorem seats_taken (t : MemberTable) (requests : List (Caller × Action)) (chs : List (ℕ × MemberTurn)) :
    Seated t requests (ManagedIn (opening requests t) chs) (turns routeStep (opening requests t) chs) := by
  induction chs using List.reverseRecOn with
  | nil => exact Seated.opening t requests _
  | append_singleton chs ch ih =>
    have hlater : ∀ caller, ManagedIn (opening requests t) chs caller →
        ManagedIn (opening requests t) (chs ++ [ch]) caller := by
      rintro caller ⟨k, hk, hmanages⟩
      refine ⟨k, hk.trans ?_, ?_⟩
      · rw [List.length_append]
        omega
      · rwa [List.take_append_of_le_length hk]
    have hnow : ∀ caller, Manages (turns routeStep (opening requests t) chs).2 caller →
        ManagedIn (opening requests t) (chs ++ [ch]) caller := by
      intro caller hmanages
      refine hlater caller ⟨chs.length, le_rfl, ?_⟩
      rwa [List.take_length]
    rw [turns_append]
    exact (ih.mono hlater).turn hnow ch

end Run

end OpenMigrate.Tenants
