import OpenMigrate.Offboarding.Erasure
import OpenMigrate.Offboarding.Passes

namespace OpenMigrate.Offboarding

open Async

/-- The mappings that a tick has found due and not yet enqueued. -/
def SyncTick.held : SyncTick → List SyncMapping
  | .decided due => due
  | .enqueueing queue => queue.map (·.1)
  | .start | .begun _ | .done => []

/-- The tenants of a purge run's list that it has not yet deleted. -/
def PurgeState.listed : PurgeState → List String
  | .next queue => queue
  | .asking tenantId rest | .quiesced tenantId rest | .revoked tenantId rest | .marked tenantId rest _ _
  | .emptied tenantId rest _ _ _ => tenantId :: rest
  | .start | .done => []

/-- The tenant whose erasure has begun, after its passes. -/
def PurgeState.inHand : PurgeState → Option String
  | .quiesced tenantId _ | .revoked tenantId _ | .marked tenantId _ _ _ | .emptied tenantId _ _ _ _ => some tenantId
  | .start | .next _ | .asking _ _ | .done => none

/-- The tenant that the plan allows the run to purge, until its rows are deleted. -/
def QuiescingPurge.cleared (q : QuiescingPurge) : Option String :=
  match q.run.state, q.quiescing with
  | .asking tenantId _, .acting plan _ _ => if plan.mayPurge then some tenantId else none
  | state, _ => state.inHand

def Worker.held : Worker → List SyncMapping
  | .tick t => t.held
  | _ => []

def Worker.listed : Worker → List String
  | .purge q => q.run.state.listed
  | _ => []

/-- No pass was enqueued for a closed tenant, and none executes for a tenant whose purge is allowed. -/
structure Quiet (x : List Worker × ManagedWorld) : Prop where
  enqueued : ∀ e ∈ x.2.enqueued, e.2 = true
  undisturbed : ∀ q, .purge q ∈ x.1 → ∀ tenantId, q.cleared = some tenantId →
    ∀ p ∈ x.2.passes, p.tenantId = tenantId → p.state.executing = false

def taken (nextRun : Cron) (w : ManagedWorld) (now : Instant) (m : SyncMapping) : Bool :=
  m.status == .active && !isRunning w m && match mappingDue nextRun w now m with
    | .ok due => due
    | .error _ => false

/-- Every pass of a tenant that has not ended has a live row with its handle. -/
def recorded (w : ManagedWorld) (tenantId : String) : Bool :=
  w.passes.zipIdx.all fun e =>
    e.1.tenantId != tenantId || e.1.state.isEnded || (liveRuns w tenantId).any fun r => r.orchestratorRef == some e.2

/-- A tick selects no due mapping of a closed tenant, and no close commits while a tick holds a mapping of the tenant; a
purge run reads a tenant's live rows when they record all its passes, and no reopen of a tenant on its list commits. -/
def holdsStill (nextRun : Cron) (x : List Worker × ManagedWorld) (ch : ℕ × PassTurn) : Bool :=
  match x.1[ch.1]? with
  | some (.tick (.begun now)) => ch.2.fault.isSome || x.2.mappings.all fun m =>
      !taken nextRun x.2 now m || (x.2.db.tenants m.tenantId).isOpen
  | some (.close c) =>
    match c.state with
    | .dated _ => ch.2.fault.isSome || x.1.all fun l => l.held.all fun m => m.tenantId != c.tenantId
    | _ => true
  | some (.reopen r) =>
    match r.state with
    | .activated _ => ch.2.fault.isSome || x.1.all fun l => !l.listed.contains r.tenantId
    | _ => true
  | some (.purge q) =>
    match q.run.state with
    | .next (tenantId :: _) => ch.2.fault.isSome || recorded x.2 tenantId
    | _ => true
  | _ => true

section Passes

variable {w : ManagedWorld} {passes passes' : List Pass} {tenantId : String}

def Stopped (passes : List Pass) (tenantId : String) : Prop :=
  ∀ p ∈ passes, p.tenantId = tenantId → p.state.isEnded = true

/-- Each pass of the tenant that has not ended has a row among those read, which the orchestrator has not called
finished. -/
def Asked (passes : List Pass) (tenantId : String) (rows : List (RunRow × Option OrchestratorVerdict)) : Prop :=
  ∀ (k : ℕ) (p : Pass), passes[k]? = some p → p.tenantId = tenantId → p.state.isEnded = false →
    ∃ e ∈ rows, e.1.orchestratorRef = some k ∧ e.2 ≠ some .finished

/-- No pass of the tenant has come, and none that had ended goes on. -/
def Winds (passes passes' : List Pass) (tenantId : String) : Prop :=
  ∀ (k : ℕ) (p' : Pass), passes'[k]? = some p' → p'.tenantId = tenantId → p'.state.isEnded = false →
    ∃ p : Pass, passes[k]? = some p ∧ p.tenantId = tenantId ∧ p.state.isEnded = false

theorem winds_refl (passes : List Pass) (tenantId : String) : Winds passes passes tenantId :=
  fun _ p hp ht hrun => ⟨p, hp, ht, hrun⟩

theorem Asked.winds {rows : List (RunRow × Option OrchestratorVerdict)} (h : Asked passes tenantId rows)
    (hw : Winds passes passes' tenantId) : Asked passes' tenantId rows := by
  intro k p' hp' ht hrun
  obtain ⟨p, hp, hpt, hprun⟩ := hw k p' hp' ht hrun
  exact h k p hp hpt hprun

theorem Stopped.winds (h : Stopped passes tenantId) (hw : Winds passes passes' tenantId) : Stopped passes' tenantId := by
  intro p' hp' ht
  by_contra hrun
  obtain ⟨k, hk⟩ := List.mem_iff_getElem?.mp hp'
  obtain ⟨p, hp, hpt, hprun⟩ := hw k p' hk ht (Bool.not_eq_true _ ▸ hrun)
  rw [h p (List.mem_of_getElem? hp) hpt] at hprun
  cases hprun

theorem winds_append {p : Pass} (h : p.tenantId ≠ tenantId) : Winds passes (passes ++ [p]) tenantId := by
  intro k p' hp' ht hrun
  obtain hk | hk := Nat.lt_or_ge k passes.length
  · rw [List.getElem?_append_left hk] at hp'
    exact ⟨p', hp', ht, hrun⟩
  · rw [List.getElem?_append_right hk] at hp'
    have hmem := List.mem_singleton.mp (List.mem_of_getElem? hp')
    subst hmem
    exact absurd ht h

theorem winds_set {k : ℕ} {p : Pass} {state : PassState} (hp : passes[k]? = some p)
    (hrun : p.state.isEnded = true → state.isEnded = true) :
    Winds passes (passes.set k { p with state := state }) tenantId := by
  intro j p' hp' ht hrun'
  by_cases hj : k = j
  · subst hj
    obtain ⟨hlt, -⟩ := List.getElem?_eq_some_iff.mp hp
    rw [List.getElem?_set_self hlt, Option.some.injEq] at hp'
    subst hp'
    refine ⟨p, hp, ht, ?_⟩
    by_contra hended
    rw [hrun (Bool.not_eq_false _ ▸ hended)] at hrun'
    cases hrun'
  · rw [List.getElem?_set_ne hj] at hp'
    exact ⟨p', hp', ht, hrun'⟩

theorem runDeltaSync_winds {k : ℕ} {p : Pass} (hp : w.passes[k]? = some p) (i : PassTurn) (tenantId : String) :
    Winds w.passes (runDeltaSync w k p i).passes tenantId ∧ (runDeltaSync w k p i).db = w.db ∧
      (runDeltaSync w k p i).enqueued = w.enqueued := by
  have hset : ∀ state : PassState, p.state.isEnded = false →
      Winds w.passes (w.passes.set k { p with state := state }) tenantId := fun state hrun =>
    winds_set hp fun hended => absurd hended (by rw [hrun]; exact Bool.false_ne_true)
  by_cases hended : p.state.isEnded = true
  · have hsame : runDeltaSync w k p i = w := by
      cases hstate : p.state with
      | ended outcome => simp only [runDeltaSync, hstate]
      | _ =>
        rw [hstate] at hended
        cases hended
    rw [hsame]
    exact ⟨winds_refl _ _, rfl, rfl⟩
  · have hrun : p.state.isEnded = false := Bool.not_eq_true _ ▸ hended
    unfold runDeltaSync
    split
    case h_1 => exact ⟨winds_refl _ _, rfl, rfl⟩
    case h_3 =>
      split
      · exact ⟨winds_refl _ _, rfl, rfl⟩
      · exact ⟨hset _ hrun, rfl, rfl⟩
    case h_7 => split <;> exact ⟨hset _ hrun, rfl, rfl⟩
    all_goals exact ⟨hset _ hrun, rfl, rfl⟩

theorem orchestrator_winds (w : ManagedWorld) (i : PassTurn) (tenantId : String) :
    Winds w.passes (orchestrator w i).passes tenantId ∧ (orchestrator w i).db = w.db ∧
      (orchestrator w i).enqueued = w.enqueued := by
  unfold orchestrator
  split
  · exact ⟨winds_refl _ _, rfl, rfl⟩
  · rename_i p hp
    exact runDeltaSync_winds hp i tenantId

end Passes

section Ticks

variable {nextRun : Cron} {w : ManagedWorld}

theorem dueMappings_taken {now : Instant} {ms due : List SyncMapping} (h : dueMappings nextRun w now ms = .ok due) :
    ∀ m ∈ due, m ∈ ms ∧ taken nextRun w now m = true := by
  induction ms generalizing due with
  | nil =>
    obtain rfl := Except.ok.inj h
    exact nofun
  | cons m ms ih =>
    unfold dueMappings at h
    split at h
    · intro m' hm'
      exact ⟨List.mem_cons_of_mem _ (ih h m' hm').1, (ih h m' hm').2⟩
    · rename_i hselected
      rw [not_or, not_not] at hselected
      split at h
      · cases h
      · rename_i isDue hdue
        cases hrest : dueMappings nextRun w now ms with
        | error reason =>
          rw [hrest] at h
          cases h
        | ok others =>
          rw [hrest] at h
          obtain rfl := Except.ok.inj h
          have hothers : ∀ m' ∈ others, m' ∈ m :: ms ∧ taken nextRun w now m' = true := fun m' hm' =>
            ⟨List.mem_cons_of_mem _ (ih hrest m' hm').1, (ih hrest m' hm').2⟩
          cases isDue with
          | false => exact hothers
          | true =>
            intro m' hm'
            obtain rfl | hm' := List.mem_cons.mp hm'
            · exact ⟨List.mem_cons_self, by simp [taken, hselected.1, hselected.2, hdue]⟩
            · exact hothers m' hm'

theorem managedSyncTick_held (nextRun : Cron) (w : ManagedWorld) (t : SyncTick) (i : PassTurn) :
    ∀ m ∈ (managedSyncTick nextRun w t i).2.held, m ∈ t.held ∨
      ∃ now, t = .begun now ∧ i.fault = none ∧ m ∈ w.mappings ∧ taken nextRun w now m = true := by
  intro m hm
  unfold managedSyncTick at hm
  split at hm
  · exact .inl hm
  · cases hm
  · cases hm
  · rename_i now hfault
    split at hm
    · cases hm
    · rename_i due hdue
      obtain ⟨hmem, htaken⟩ := dueMappings_taken hdue m hm
      exact .inr ⟨now, rfl, hfault, hmem, htaken⟩
  · cases hm
  · rename_i due _
    left
    obtain ⟨e, he, rfl⟩ := List.mem_map.mp hm
    obtain ⟨m', hm', rfl⟩ := List.mem_map.mp (List.mem_filter.mp he).1
    exact hm'
  · cases hm
  · left
    split at hm
    · exact hm
    · obtain ⟨e, he, rfl⟩ := List.mem_map.mp hm
      exact List.mem_map_of_mem (List.mem_of_mem_eraseIdx he)

theorem managedSyncTick_world (nextRun : Cron) (w : ManagedWorld) (t : SyncTick) (i : PassTurn) :
    (managedSyncTick nextRun w t i).1 = w ∨
      ∃ m ∈ t.held, ∃ domains, (managedSyncTick nextRun w t i).1 = runDeltaSyncTrigger w m domains := by
  unfold managedSyncTick
  split
  · exact .inl rfl
  · exact .inl rfl
  · exact .inl rfl
  · split <;> exact .inl rfl
  · exact .inl rfl
  · exact .inl rfl
  · exact .inl rfl
  · rename_i queue _
    split
    · exact .inl rfl
    · rename_i m domains hpick
      by_cases hfault : i.fault.isSome = true
      · simp [hfault]
      · right
        have hmem := List.mem_of_mem_take (List.mem_of_getElem? hpick)
        exact ⟨m, List.mem_map_of_mem (f := Prod.fst) hmem, domains, by simp [hfault]⟩

end Ticks

section Plans

theorem quiescePlan_allows {now : Instant} {asked : List QuiescingRun} (h : (quiescePlan now asked).mayPurge = true) :
    ∀ q ∈ asked, q.verdict = .finished ∨ q.row.orchestratorRef = none := by
  induction asked with
  | nil => exact nofun
  | cons q asked ih =>
    have hfirst : (quiescePlan now asked).mayPurge = true ∧ (q.verdict = .finished ∨ q.row.orchestratorRef = none) := by
      unfold quiescePlan quiesceAnswer at h
      dsimp only at h
      split at h
      · rename_i hverdict
        exact ⟨h, .inl hverdict⟩
      · cases h
      · cases h
      · rename_i href
        split at h
        · exact ⟨h, .inr href⟩
        · cases h
    intro q' hq'
    obtain rfl | hq' := List.mem_cons.mp hq'
    · exact hfirst.2
    · exact ih hfirst.1 q' hq'

theorem verdictFor_running {w : ManagedWorld} {r : RunRow} {k : ℕ} {p : Pass} (href : r.orchestratorRef = some k)
    (hp : w.passes[k]? = some p) (hrun : p.state.isEnded = false) (reachable : Bool) :
    verdictFor w reachable r ≠ .finished := by
  unfold verdictFor
  rw [href]
  dsimp only
  cases reachable with
  | false => simp
  | true =>
    simp only [if_true, hp]
    cases hstate : p.state with
    | ended outcome =>
      rw [hstate] at hrun
      cases hrun
    | _ => simp [PassState.remote]

theorem recorded_asked {w : ManagedWorld} {tenantId : String} (h : recorded w tenantId = true) :
    Asked w.passes tenantId ((liveRuns w tenantId).map fun r => (r, none)) := by
  intro k p hp ht hrun
  have hmem : (p, k) ∈ w.passes.zipIdx := List.mk_mem_zipIdx_iff_getElem?.mpr hp
  have hrow := List.all_eq_true.mp h (p, k) hmem
  simp only [ht, bne_self_eq_false, hrun, Bool.false_or, List.any_eq_true, beq_iff_eq] at hrow
  obtain ⟨r, hr, href⟩ := hrow
  exact ⟨(r, none), List.mem_map_of_mem hr, href, nofun⟩

theorem Asked.ask {w : ManagedWorld} {tenantId : String} {rows : List (RunRow × Option OrchestratorVerdict)}
    (h : Asked w.passes tenantId rows) {j : ℕ} {r : RunRow} (hj : rows[j]? = some (r, none)) (reachable : Bool) :
    Asked w.passes tenantId (rows.set j (r, some (verdictFor w reachable r))) := by
  intro k p hp ht hrun
  obtain ⟨e, he, href, hverdict⟩ := h k p hp ht hrun
  by_cases hsame : rows[j]? = some e
  · obtain rfl : (r, none) = e := Option.some.inj (hj.symm.trans hsame)
    have hne := verdictFor_running href hp hrun reachable
    exact ⟨_, mem_set_self hj, href, fun heq => hne (Option.some.inj heq)⟩
  · exact ⟨e, mem_set_of_ne he hsame, href, hverdict⟩

theorem mapM_mem {α β : Type} {f : α → Option β} {xs : List α} {ys : List β} (h : xs.mapM f = some ys) :
    ∀ x ∈ xs, ∃ y ∈ ys, f x = some y := by
  induction xs generalizing ys with
  | nil => exact nofun
  | cons x xs ih =>
    rw [List.mapM_cons] at h
    obtain ⟨y, hy, h⟩ := Option.bind_eq_some_iff.mp h
    obtain ⟨rest, hrest, h⟩ := Option.bind_eq_some_iff.mp h
    obtain rfl := Option.some.inj h
    intro x' hx'
    obtain rfl | hx' := List.mem_cons.mp hx'
    · exact ⟨y, List.mem_cons_self, hy⟩
    · obtain ⟨y', hy', heq⟩ := ih hrest x' hx'
      exact ⟨y', List.mem_cons_of_mem _ hy', heq⟩

/-- A plan that allows the purge was made when every pass of the tenant had ended. -/
theorem Asked.stopped {passes : List Pass} {tenantId : String} {rows : List (RunRow × Option OrchestratorVerdict)}
    (h : Asked passes tenantId rows) {asked : List QuiescingRun}
    (hasked : (rows.mapM fun e => e.2.map (QuiescingRun.mk e.1)) = some asked) {now : Instant}
    (hmay : (quiescePlan now asked).mayPurge = true) : Stopped passes tenantId := by
  intro p hp ht
  by_contra hrun
  obtain ⟨k, hk⟩ := List.mem_iff_getElem?.mp hp
  obtain ⟨⟨r, verdict⟩, he, href, hverdict⟩ := h k p hk ht (Bool.not_eq_true _ ▸ hrun)
  obtain ⟨q, hq, heq⟩ := mapM_mem hasked _ he
  obtain ⟨answer, rfl, rfl⟩ := Option.map_eq_some_iff.mp heq
  obtain hfinished | hnone := quiescePlan_allows hmay _ hq
  · exact hverdict (congrArg some hfinished)
  · exact absurd (href.symm.trans hnone) nofun

end Plans

section Purges

variable {db db' : OffboardingDb} {w : ManagedWorld} {q : QuiescingPurge} {i : PassTurn} {t : String}

theorem Due.not_open (h : Due db t) : (db.tenants t).isOpen = false := by
  obtain h | h := h
  · simp [TenantRows.isOpen, h]
  · simp [TenantRows.isOpen, (due_iff.mp h).1]

theorem Same.isOpen (h : Same db db') (t : String) :
    (db'.tenants t).isOpen = (db.tenants t).isOpen := by
  unfold TenantRows.isOpen
  rw [h.status]

theorem isOpen_set_of_ne {tenantId : String} (h : t ≠ tenantId) (rows : TenantRows) :
    ((db.set tenantId rows).tenants t).isOpen = (db.tenants t).isOpen := by
  rw [set_of_ne h]

theorem Goes.listed {mayPurge : Bool} {s s' : PurgeState} (h : Goes db mayPurge s s') :
    ∀ t ∈ s'.listed, t ∈ s.listed ∨ Due db t := by
  intro t ht
  cases h with
  | stay => exact .inl ht
  | finish => cases ht
  | list => exact .inr (.inr (List.mem_filter.mp ht).2)
  | ask | allow | revoke | mark | empty => exact .inl ht
  | skip | unquiesce | unrevoke | unmark | commit => exact .inl (List.mem_cons_of_mem _ ht)

theorem Goes.inHand {mayPurge : Bool} {s s' : PurgeState} (h : Goes db mayPurge s s') (ht : s'.inHand = some t) :
    s.inHand = some t ∨ mayPurge = true ∧ ∃ rest, s = .asking t rest := by
  cases h with
  | stay | revoke | mark | empty => exact .inl ht
  | allow tenantId rest hmay =>
    obtain rfl := Option.some.inj ht
    exact .inr ⟨hmay, rest, rfl⟩
  | finish | list | ask | skip | unquiesce | unrevoke | unmark | commit => cases ht

theorem inHand_cleared (h : q.run.state.inHand = some t) : q.cleared = some t := by
  unfold QuiescingPurge.cleared
  split
  · rename_i hstate _
    rw [hstate] at h
    cases h
  · exact h

theorem inHand_listed {s : PurgeState} (h : s.inHand = some t) : t ∈ s.listed := by
  cases s with
  | start | next | asking | done => cases h
  | quiesced | revoked | marked | emptied =>
    obtain rfl := Option.some.inj h
    exact List.mem_cons_self

theorem cleared_listed (h : q.cleared = some t) : t ∈ q.run.state.listed := by
  unfold QuiescingPurge.cleared at h
  split at h
  · rename_i hstate _
    split at h
    · obtain rfl := Option.some.inj h
      rw [hstate]
      exact List.mem_cons_self
    · cases h
  · exact inHand_listed h

theorem purgeClosed_world (w : ManagedWorld) (q : QuiescingPurge) (i : PassTurn) :
    (purgeClosed w q i).1.passes = w.passes ∧ (purgeClosed w q i).1.enqueued = w.enqueued ∧
      ((purgeClosed w q i).1.db = w.db ∧ (purgeClosed w q i).2.run = q.run ∨
        ∃ j, (purgeClosed w q i).1.db = (managedPurgeClosed w.db q.run j).1 ∧
          (purgeClosed w q i).2.run = (managedPurgeClosed w.db q.run j).2) := by
  unfold purgeClosed
  split
  · exact ⟨rfl, rfl, .inr ⟨_, rfl, rfl⟩⟩
  · split
    · exact ⟨rfl, rfl, .inl ⟨rfl, rfl⟩⟩
    · split <;> exact ⟨rfl, rfl, .inl ⟨rfl, rfl⟩⟩
  · exact ⟨rfl, rfl, .inl ⟨rfl, rfl⟩⟩
  · exact ⟨rfl, rfl, .inl ⟨rfl, rfl⟩⟩
  · exact ⟨rfl, rfl, .inr ⟨_, rfl, rfl⟩⟩
  · exact ⟨rfl, rfl, .inr ⟨_, rfl, rfl⟩⟩
  · exact ⟨rfl, rfl, .inr ⟨_, rfl, rfl⟩⟩

theorem purgeClosed_isOpen (w : ManagedWorld) (q : QuiescingPurge) (i : PassTurn) (t : String) :
    ((purgeClosed w q i).1.db.tenants t).isOpen = (w.db.tenants t).isOpen ∨
      t ∈ q.run.state.listed ∧ ((purgeClosed w q i).1.db.tenants t).isOpen = false := by
  obtain ⟨-, -, ⟨hdb, -⟩ | ⟨j, hdb, -⟩⟩ := purgeClosed_world w q i
  · rw [hdb]
    exact .inl rfl
  · rw [hdb]
    obtain hsame | ⟨tenantId, rest, closureHeld, due, hstate, hset⟩ := managedPurgeClosed_commits w.db q.run j
    · exact .inl (hsame.isOpen t)
    · rw [hset]
      by_cases heq : t = tenantId
      · subst heq
        right
        constructor
        · rw [hstate]
          exact List.mem_cons_self
        · change ((OffboardingDb.set _ _ _).tenants _).isOpen = false
          rw [set_self]
          rfl
      · exact .inl (isOpen_set_of_ne heq _)

theorem purgeClosed_listed (w : ManagedWorld) (q : QuiescingPurge) (i : PassTurn) :
    ∀ t ∈ (purgeClosed w q i).2.run.state.listed, t ∈ q.run.state.listed ∨ (w.db.tenants t).isOpen = false := by
  intro t ht
  obtain ⟨-, -, ⟨-, hrun⟩ | ⟨j, -, hrun⟩⟩ := purgeClosed_world w q i
  · rw [hrun] at ht
    exact .inl ht
  · rw [hrun] at ht
    exact ((managedPurgeClosed_goes w.db q.run j).listed t ht).imp_right Due.not_open

/-- What a purge run knows of the passes of the tenant it is with. -/
structure Knows (passes : List Pass) (q : QuiescingPurge) : Prop where
  asked : ∀ tenantId rest rows, q.run.state = .asking tenantId rest → q.quiescing = .asking rows →
    Asked passes tenantId rows
  cleared : ∀ tenantId, q.cleared = some tenantId → Stopped passes tenantId

theorem knows_turn (h : Knows w.passes q) {mayPurge : Bool} {w' : ManagedWorld}
    (hmay : mayPurge = true → ∀ tenantId rest, q.run.state = .asking tenantId rest → q.cleared = some tenantId) :
    Knows w.passes (q.turn w' i mayPurge .idle).2 := by
  constructor
  · intro tenantId rest rows _ hquiescing
    cases hquiescing
  · intro tenantId hcleared
    have hgoes := managedPurgeClosed_goes w'.db q.run { i.toOffboardingTurn with mayPurge := mayPurge }
    have hhand : (q.turn w' i mayPurge .idle).2.run.state.inHand = some tenantId := by
      unfold QuiescingPurge.cleared at hcleared
      split at hcleared
      · rename_i hquiescing
        cases hquiescing
      · exact hcleared
    obtain hold | ⟨hallowed, rest, hstate⟩ := hgoes.inHand hhand
    · exact h.cleared tenantId (inHand_cleared hold)
    · exact h.cleared tenantId (hmay hallowed tenantId rest hstate)

theorem knows_acting (h : Knows w.passes q) {tenantId : String} {rest : List String} {plan : QuiescePlan}
    {cancel cancel' : List ℕ} {land land' : List StaleRun} (hstate : q.run.state = .asking tenantId rest)
    (hquiescing : q.quiescing = .acting plan cancel land) :
    Knows w.passes { q with quiescing := .acting plan cancel' land' } := by
  constructor
  · intro _ _ _ _ hasking
    cases hasking
  · intro tenantId' hcleared
    apply h.cleared tenantId'
    simp only [QuiescingPurge.cleared, hstate, hquiescing] at hcleared ⊢
    exact hcleared

theorem purgeClosed_knows (h : Knows w.passes q)
    (hrecorded : ∀ tenantId rest, q.run.state = .next (tenantId :: rest) → i.fault = none → recorded w tenantId = true) :
    Knows w.passes (purgeClosed w q i).2 := by
  unfold purgeClosed
  split
  · rename_i tenantId rest hstate hfault
    have hrun : (managedPurgeClosed w.db q.run { i.toOffboardingTurn with mayPurge := true }).2.state =
        .asking tenantId rest := by
      simp only [managedPurgeClosed, hstate, hfault, PurgeRun.goOn]
    constructor
    · intro tenantId' rest' rows hstate' hquiescing
      have heq := hrun.symm.trans hstate'
      obtain ⟨rfl, rfl⟩ := PurgeState.asking.inj heq
      obtain rfl := Quiescing.asking.inj hquiescing
      exact recorded_asked (hrecorded tenantId rest hstate hfault)
    · intro tenantId' hcleared
      simp only [QuiescingPurge.cleared, QuiescingPurge.turn, hrun, PurgeState.inHand] at hcleared
      cases hcleared
  · rename_i tenantId rest rows hstate hquiescing
    have hrows := h.asked tenantId rest rows hstate hquiescing
    split
    · rename_i r hpick
      constructor
      · intro tenantId' rest' rows' hstate' hquiescing'
        obtain ⟨rfl, rfl⟩ := PurgeState.asking.inj (hstate.symm.trans hstate')
        obtain rfl := Quiescing.asking.inj hquiescing'
        exact hrows.ask hpick i.reachable
      · intro tenantId' hcleared
        simp only [QuiescingPurge.cleared, hstate, PurgeState.inHand] at hcleared
        cases hcleared
    · split
      · exact h
      · rename_i asked hasked
        constructor
        · intro tenantId' rest' rows' _ hquiescing'
          cases hquiescing'
        · intro tenantId' hcleared
          simp only [QuiescingPurge.cleared, hstate] at hcleared
          split at hcleared
          · rename_i hmay
            obtain rfl := Option.some.inj hcleared
            exact hrows.stopped hasked hmay
          · cases hcleared
  · rename_i tenantId rest plan id cancel land hstate hquiescing
    exact knows_acting h hstate hquiescing
  · rename_i tenantId rest plan stale land hstate hquiescing hfault
    exact knows_acting h hstate hquiescing
  · rename_i tenantId rest plan hstate hquiescing hfault
    apply knows_turn h
    intro hmay tenantId' rest' hstate'
    obtain ⟨rfl, rfl⟩ := PurgeState.asking.inj (hstate.symm.trans hstate')
    simp only [QuiescingPurge.cleared, hstate, hquiescing, hmay, if_true]
  · rename_i tenantId rest held closureHeld due hstate hfault
    apply knows_turn h
    intro _ tenantId' rest' hstate'
    cases hstate.symm.trans hstate'
  · exact knows_turn h fun hmay => absurd hmay Bool.false_ne_true

end Purges

section Steps

variable {nextRun : Cron} {x : List Worker × ManagedWorld} {ch : ℕ × PassTurn}

structure Settled (x : List Worker × ManagedWorld) : Prop where
  enqueued : ∀ e ∈ x.2.enqueued, e.2 = true
  held : ∀ l ∈ x.1, ∀ m ∈ l.held, (x.2.db.tenants m.tenantId).isOpen = true
  listed : ∀ l ∈ x.1, ∀ t ∈ l.listed, (x.2.db.tenants t).isOpen = false
  knows : ∀ q, .purge q ∈ x.1 → Knows x.2.passes q

theorem Knows.winds {w w' : ManagedWorld} {q : QuiescingPurge} (h : Knows w.passes q)
    (hlisted : ∀ t ∈ q.run.state.listed, (w.db.tenants t).isOpen = false)
    (hwinds : ∀ t, (w.db.tenants t).isOpen = false → Winds w.passes w'.passes t) : Knows w'.passes q := by
  constructor
  · intro tenantId rest rows hstate hquiescing
    have hmem : tenantId ∈ q.run.state.listed := by
      rw [hstate]
      exact List.mem_cons_self
    exact (h.asked tenantId rest rows hstate hquiescing).winds (hwinds tenantId (hlisted tenantId hmem))
  · intro tenantId hcleared
    exact (h.cleared tenantId hcleared).winds (hwinds tenantId (hlisted tenantId (cleared_listed hcleared)))

theorem Settled.set (h : Settled x) {j : ℕ} {l' : Worker} {w' : ManagedWorld}
    (henqueued : ∀ e ∈ w'.enqueued, e.2 = true)
    (hheld : ∀ l ∈ x.1, ∀ m ∈ l.held, (w'.db.tenants m.tenantId).isOpen = true)
    (hlisted : ∀ l ∈ x.1, ∀ t ∈ l.listed, (w'.db.tenants t).isOpen = false)
    (hwinds : ∀ t, (x.2.db.tenants t).isOpen = false → Winds x.2.passes w'.passes t)
    (hownHeld : ∀ m ∈ l'.held, (w'.db.tenants m.tenantId).isOpen = true)
    (hownListed : ∀ t ∈ l'.listed, (w'.db.tenants t).isOpen = false)
    (hownKnows : ∀ q, l' = .purge q → Knows w'.passes q) : Settled (x.1.set j l', w') := by
  refine ⟨henqueued, fun l hl => ?_, fun l hl => ?_, fun q hq => ?_⟩
  · obtain hl | rfl := List.mem_or_eq_of_mem_set hl
    · exact hheld l hl
    · exact hownHeld
  · obtain hl | rfl := List.mem_or_eq_of_mem_set hl
    · exact hlisted l hl
    · exact hownListed
  · obtain hq | heq := List.mem_or_eq_of_mem_set hq
    · exact (h.knows q hq).winds (h.listed _ hq) hwinds
    · exact hownKnows q heq.symm

theorem Settled.setIdle (h : Settled x) {j : ℕ} {l' : Worker} {w' : ManagedWorld}
    (henqueued : ∀ e ∈ w'.enqueued, e.2 = true)
    (hheld : ∀ l ∈ x.1, ∀ m ∈ l.held, (w'.db.tenants m.tenantId).isOpen = true)
    (hlisted : ∀ l ∈ x.1, ∀ t ∈ l.listed, (w'.db.tenants t).isOpen = false)
    (hwinds : ∀ t, (x.2.db.tenants t).isOpen = false → Winds x.2.passes w'.passes t)
    (hnone : l'.held = [] ∧ l'.listed = []) (hother : ∀ q, l' ≠ .purge q) : Settled (x.1.set j l', w') := by
  apply h.set henqueued hheld hlisted hwinds
  · rw [hnone.1]
    exact fun _ hm => absurd hm List.not_mem_nil
  · rw [hnone.2]
    exact fun _ ht => absurd ht List.not_mem_nil
  · exact fun q hq => absurd hq (hother q)

theorem close_settled (h : Settled x) {c : CloseCall} (hc : x.1[ch.1]? = some (.close c))
    (hholds : holdsStill nextRun x ch = true) : Settled (turn (passStep nextRun) x ch) := by
  have hturn : turn (passStep nextRun) x ch =
      (x.1.set ch.1 (.close (closeTenant (x.2.tick ch.2).db c ch.2.toOffboardingTurn).2),
        { x.2.tick ch.2 with db := (closeTenant (x.2.tick ch.2).db c ch.2.toOffboardingTurn).1 }) := by
    rw [turn, hc]
    rfl
  rw [hturn]
  obtain hsame | ⟨now, hstate, hfault, hdb⟩ := closeTenant_commits (x.2.tick ch.2).db c ch.2.toOffboardingTurn
  · refine h.setIdle h.enqueued (fun l hl m hm => ?_) (fun l hl t ht => ?_) (fun _ _ => winds_refl _ _) ⟨rfl, rfl⟩
      fun _ hq => by cases hq
    · exact (hsame.isOpen _).trans (h.held l hl m hm)
    · exact (hsame.isOpen _).trans (h.listed l hl t ht)
  · simp only [holdsStill, hc, hstate, hfault, Option.isSome_none, Bool.false_or, List.all_eq_true, bne_iff_ne] at hholds
    rw [hdb]
    refine h.setIdle h.enqueued (fun l hl m hm => ?_) (fun l hl t ht => ?_) (fun _ _ => winds_refl _ _) ⟨rfl, rfl⟩
      fun _ hq => by cases hq
    · exact (isOpen_set_of_ne (hholds l hl m hm) _).trans (h.held l hl m hm)
    · by_cases heq : t = c.tenantId
      · subst heq
        change ((OffboardingDb.set _ _ _).tenants _).isOpen = false
        rw [set_self]
        rfl
      · exact (isOpen_set_of_ne heq _).trans (h.listed l hl t ht)

theorem reopen_settled (h : Settled x) {r : ReopenCall} (hr : x.1[ch.1]? = some (.reopen r))
    (hholds : holdsStill nextRun x ch = true) : Settled (turn (passStep nextRun) x ch) := by
  have hturn : turn (passStep nextRun) x ch =
      (x.1.set ch.1 (.reopen (reopenTenant (x.2.tick ch.2).db r ch.2.toOffboardingTurn).2),
        { x.2.tick ch.2 with db := (reopenTenant (x.2.tick ch.2).db r ch.2.toOffboardingTurn).1 }) := by
    rw [turn, hr]
    rfl
  rw [hturn]
  obtain hsame | ⟨wasClosed, rows, hstate, hfault, -, hstatus, hdb⟩ :=
    reopenTenant_commits (x.2.tick ch.2).db r ch.2.toOffboardingTurn
  · refine h.setIdle h.enqueued (fun l hl m hm => ?_) (fun l hl t ht => ?_) (fun _ _ => winds_refl _ _) ⟨rfl, rfl⟩
      fun _ hq => by cases hq
    · exact (hsame.isOpen _).trans (h.held l hl m hm)
    · exact (hsame.isOpen _).trans (h.listed l hl t ht)
  · simp only [holdsStill, hr, hstate, hfault, Option.isSome_none, Bool.false_or, List.all_eq_true,
      Bool.not_eq_true', List.contains_eq_mem, decide_eq_false_iff_not] at hholds
    rw [hdb]
    refine h.setIdle h.enqueued (fun l hl m hm => ?_) (fun l hl t ht => ?_) (fun _ _ => winds_refl _ _) ⟨rfl, rfl⟩
      fun _ hq => by cases hq
    · have hopen := h.held l hl m hm
      by_cases heq : m.tenantId = r.tenantId
      · change ((OffboardingDb.set _ _ _).tenants _).isOpen = true
        rw [heq, set_self]
        rw [heq] at hopen
        obtain hactive | hsame := hstatus
        · simp [TenantRows.isOpen, hactive]
        · unfold TenantRows.isOpen at hopen ⊢
          rwa [hsame]
      · exact (isOpen_set_of_ne heq _).trans hopen
    · have hne : t ≠ r.tenantId := by
        rintro rfl
        exact hholds l hl ht
      exact (isOpen_set_of_ne hne _).trans (h.listed l hl t ht)

theorem tick_settled (h : Settled x) {t : SyncTick} (ht : x.1[ch.1]? = some (.tick t))
    (hholds : holdsStill nextRun x ch = true) : Settled (turn (passStep nextRun) x ch) := by
  have hmem := List.mem_of_getElem? ht
  have hturn : turn (passStep nextRun) x ch =
      (x.1.set ch.1 (.tick (managedSyncTick nextRun (x.2.tick ch.2) t ch.2).2),
        (managedSyncTick nextRun (x.2.tick ch.2) t ch.2).1) := by
    rw [turn, ht]
    rfl
  rw [hturn]
  have hown : ∀ m ∈ (managedSyncTick nextRun (x.2.tick ch.2) t ch.2).2.held,
      (x.2.db.tenants m.tenantId).isOpen = true := by
    intro m hm
    obtain hold | ⟨now, rfl, hfault, hselected, htaken⟩ := managedSyncTick_held nextRun (x.2.tick ch.2) t ch.2 m hm
    · exact h.held _ hmem m hold
    · simp only [holdsStill, ht, hfault, Option.isSome_none, Bool.false_or, List.all_eq_true] at hholds
      have hopen := hholds m hselected
      have htaken' : taken nextRun x.2 now m = true := htaken
      rw [htaken'] at hopen
      exact hopen
  have hnone : ∀ t' ∈ (Worker.tick (managedSyncTick nextRun (x.2.tick ch.2) t ch.2).2).listed,
      ((managedSyncTick nextRun (x.2.tick ch.2) t ch.2).1.db.tenants t').isOpen = false :=
    fun _ ht => absurd ht List.not_mem_nil
  have hother : ∀ q, Worker.tick (managedSyncTick nextRun (x.2.tick ch.2) t ch.2).2 = .purge q →
      Knows (managedSyncTick nextRun (x.2.tick ch.2) t ch.2).1.passes q := fun _ hq => by cases hq
  obtain hsame | ⟨m, hm, domains, hworld⟩ := managedSyncTick_world nextRun (x.2.tick ch.2) t ch.2
  · rw [hsame] at hnone hother ⊢
    exact h.set h.enqueued h.held h.listed (fun _ _ => winds_refl _ _) hown hnone hother
  · rw [hworld] at hnone hother ⊢
    have hopen := h.held _ hmem m hm
    refine h.set ?_ h.held h.listed ?_ hown hnone hother
    · intro e he
      obtain he | he := List.mem_append.mp he
      · exact h.enqueued e he
      · rw [List.mem_singleton.mp he]
        exact hopen
    · intro tenantId hclosed
      apply winds_append
      rintro rfl
      exact absurd hopen (Bool.eq_false_iff.mp hclosed)

theorem orchestrator_settled (h : Settled x) (ho : x.1[ch.1]? = some .orchestrator) :
    Settled (turn (passStep nextRun) x ch) := by
  have hturn : turn (passStep nextRun) x ch =
      (x.1.set ch.1 .orchestrator, orchestrator (x.2.tick ch.2) ch.2) := by
    rw [turn, ho]
    rfl
  have hdb := (orchestrator_winds (x.2.tick ch.2) ch.2 "").2.1
  have henqueued := (orchestrator_winds (x.2.tick ch.2) ch.2 "").2.2
  rw [hturn]
  refine h.setIdle ?_ ?_ ?_ (fun t _ => (orchestrator_winds (x.2.tick ch.2) ch.2 t).1) ⟨rfl, rfl⟩ fun _ hq => by cases hq
  · rw [henqueued]
    exact h.enqueued
  · rw [hdb]
    exact h.held
  · rw [hdb]
    exact h.listed

theorem purge_settled (h : Settled x) {q : QuiescingPurge} (hq : x.1[ch.1]? = some (.purge q))
    (hholds : holdsStill nextRun x ch = true) : Settled (turn (passStep nextRun) x ch) := by
  have hmem := List.mem_of_getElem? hq
  have hturn : turn (passStep nextRun) x ch =
      (x.1.set ch.1 (.purge (purgeClosed (x.2.tick ch.2) q ch.2).2), (purgeClosed (x.2.tick ch.2) q ch.2).1) := by
    rw [turn, hq]
    rfl
  obtain ⟨hpasses, henqueued, -⟩ := purgeClosed_world (x.2.tick ch.2) q ch.2
  have hopen := purgeClosed_isOpen (x.2.tick ch.2) q ch.2
  have hclosed : ∀ t, (x.2.db.tenants t).isOpen = false →
      ((purgeClosed (x.2.tick ch.2) q ch.2).1.db.tenants t).isOpen = false := by
    intro t ht
    obtain hsame | ⟨-, hgone⟩ := hopen t
    · exact hsame.trans ht
    · exact hgone
  rw [hturn]
  refine h.set ?_ (fun l hl m hm => ?_) (fun l hl t ht => hclosed t (h.listed l hl t ht)) ?_
    (fun _ hm => absurd hm List.not_mem_nil) ?_ ?_
  · rw [henqueued]
    exact h.enqueued
  · obtain hsame | ⟨hlisted, -⟩ := hopen m.tenantId
    · exact hsame.trans (h.held l hl m hm)
    · have hm' := h.held l hl m hm
      rw [h.listed _ hmem _ hlisted] at hm'
      cases hm'
  · intro t _
    rw [hpasses]
    exact winds_refl _ _
  · intro t ht
    apply hclosed
    obtain hold | hdue := purgeClosed_listed (x.2.tick ch.2) q ch.2 t ht
    · exact h.listed _ hmem t hold
    · exact hdue
  · intro q' hq'
    obtain rfl := Worker.purge.inj hq'
    rw [hpasses]
    apply purgeClosed_knows (w := x.2.tick ch.2) (h.knows q hmem)
    intro tenantId rest hstate hfault
    have hrecorded : recorded x.2 tenantId = true := by
      simpa only [holdsStill, hq, hstate, hfault, Option.isSome_none, Bool.false_or] using hholds
    exact hrecorded

theorem pass_settled (nextRun : Cron) (x : List Worker × ManagedWorld) (ch : ℕ × PassTurn) (h : Settled x)
    (hholds : holdsStill nextRun x ch = true) : Settled (turn (passStep nextRun) x ch) := by
  cases hl : x.1[ch.1]? with
  | none =>
    rw [turn, hl]
    exact h
  | some l =>
    cases l with
    | close c => exact close_settled h hl hholds
    | reopen r => exact reopen_settled h hl hholds
    | tick t => exact tick_settled h hl hholds
    | orchestrator => exact orchestrator_settled h hl
    | purge q => exact purge_settled h hl hholds

theorem Settled.quiet (h : Settled x) : Quiet x := by
  refine ⟨h.enqueued, fun q hq tenantId hcleared p hp ht => ?_⟩
  have hended := (h.knows q hq).cleared tenantId hcleared p hp ht
  cases hstate : p.state with
  | queued | ended => rfl
  | _ =>
    rw [hstate] at hended
    cases hended

end Steps

/-- A managed deployment before the jobs and calls of a run begin. -/
structure Deployment where
  tenancy : Tenancy
  mappings : List SyncMapping
  scope : List ScopeSelection
  runs : List RunRow
  passes : List Pass
  nextRunId : ℕ
  fresh : ∀ r ∈ runs, r.id < nextRunId

inductive Visit where
  | close (tenantId : String) (windowDays : ℕ) (closedBy : String)
  | reopen (tenantId : String)
  | tick
  | orchestrator
  | purge

def Visit.worker : Visit → Worker
  | close tenantId windowDays closedBy => .close { tenantId, windowDays, closedBy }
  | reopen tenantId => .reopen { tenantId }
  | tick => .tick .start
  | orchestrator => .orchestrator
  | purge => .purge {}

def deploy (d : Deployment) (visits : List Visit) : List Worker × ManagedWorld :=
  (visits.map Visit.worker,
    { db := { clock := d.tenancy.clock, ids := d.tenancy.ids, tenants := d.tenancy.tenants }
      mappings := d.mappings, scope := d.scope, runs := d.runs, nextRunId := d.nextRunId, passes := d.passes })

theorem deploy_settled (d : Deployment) (visits : List Visit) : Settled (deploy d visits) := by
  constructor
  · exact nofun
  · intro l hl
    obtain ⟨visit, -, rfl⟩ := List.mem_map.mp hl
    cases visit <;> exact nofun
  · intro l hl
    obtain ⟨visit, -, rfl⟩ := List.mem_map.mp hl
    cases visit <;> exact nofun
  · intro q hq
    obtain ⟨visit, -, heq⟩ := List.mem_map.mp hq
    cases visit with
    | purge =>
      obtain rfl := Worker.purge.inj heq
      exact ⟨nofun, nofun⟩
    | close | reopen | tick | orchestrator => cases heq

/-- In any interleaving of ticks, passes, closes, reopens and purge runs that holds still, no pass is enqueued for a
closed tenant, and none executes under a purge. -/
theorem no_pass_under_purge {nextRun : Cron} {d : Deployment} {visits : List Visit} {chs : List (ℕ × PassTurn)}
    (hholds : EveryChoice (passStep nextRun) (fun x ch => holdsStill nextRun x ch = true) (deploy d visits) chs) (n : ℕ) :
    Quiet (turns (passStep nextRun) (deploy d visits) (chs.take n)) :=
  (choices_keep (pass_settled nextRun) hholds (deploy_settled d visits) n).quiet

namespace Sample

def quarterly : Cron := fun _ last => .ok (some (last + 15 * 60 * 1000))

/-- The closed tenant's mapping is done, and its last pass failed and left its row running. -/
def deployment : Deployment where
  tenancy := tenancy
  mappings := [⟨"m", "a", .done, none⟩, ⟨"n", "b", .active, none⟩]
  scope := [⟨"a", "m", .email, true⟩, ⟨"b", "n", .file, true⟩]
  runs := [⟨0, "a", "m", some 0, .running, 3⟩]
  passes := [⟨"a", "m", some [.email], .ended .failed⟩]
  nextRunId := 1
  fresh r hr := by
    obtain rfl := List.mem_singleton.mp hr
    exact Nat.zero_lt_one

def visits : List Visit := [.purge, .tick, .orchestrator, .close "b" 30 "owner"]

def passTurns (js : List ℕ) : List (ℕ × PassTurn) :=
  js.map fun j => (j, { elapsed := 1, pick := if j = 2 then 1 else 0 })

/-- The purge run lands the stale row and erases the closed tenant, while the other tenant's pass is enqueued and runs. -/
def otherPass : List (ℕ × PassTurn) := passTurns [0, 1, 1, 1, 1, 0, 0, 2, 2, 2, 0, 0, 0, 2, 0, 0, 0, 0, 0, 2]

/-- The close commits, and the next tick enqueues the tenant's mapping. -/
def closedMapping : List (ℕ × PassTurn) := passTurns [3, 3, 3, 3, 1, 1, 1, 1]

end Sample

theorem other_pass_runs :
    (turns (passStep Sample.quarterly) (deploy Sample.deployment Sample.visits) Sample.otherPass).2.db.erased =
        [("a", true)] ∧
      ∀ n, Quiet (turns (passStep Sample.quarterly) (deploy Sample.deployment Sample.visits) (Sample.otherPass.take n)) :=
  ⟨by decide +kernel, no_pass_under_purge (by decide +kernel)⟩

theorem closed_tenant_is_enqueued :
    ¬ ∀ n, Quiet (turns (passStep Sample.quarterly) (deploy Sample.deployment Sample.visits)
      (Sample.closedMapping.take n)) := by
  intro h
  have henqueued : (turns (passStep Sample.quarterly) (deploy Sample.deployment Sample.visits)
      (Sample.closedMapping.take 8)).2.enqueued = [("b", false)] := by
    decide +kernel
  have hopen := (h 8).enqueued ("b", false) (by rw [henqueued]; exact List.mem_singleton_self _)
  cases hopen

end OpenMigrate.Offboarding
