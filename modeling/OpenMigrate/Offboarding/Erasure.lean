import OpenMigrate.Offboarding.Closing

namespace OpenMigrate.Offboarding

open Async

/-- The tenants that a run has read as due and not yet marked. -/
def PurgeState.unmarked : PurgeState → List String
  | .next queue => queue
  | .asking tenantId rest | .quiesced tenantId rest | .revoked tenantId rest => tenantId :: rest
  | .marked _ rest _ _ | .emptied _ rest _ _ _ => rest
  | .start | .done => []

def Call.unmarked : Call → List String
  | .purge p => p.state.unmarked
  | _ => []

/-- While a run has a tenant on its list, no reopen of it commits, and no close of it whose date has not passed. -/
def keepsDates (x : List Call × OffboardingDb) (ch : ℕ × OffboardingTurn) : Bool :=
  match x.1[ch.1]? with
  | some (.close c) =>
    match c.state with
    | .dated now => ch.2.fault.isSome || x.1.all fun q =>
        !q.unmarked.contains c.tenantId || (c.closure now).purgeAfter ≤ x.2.clock + ch.2.elapsed
    | _ => true
  | some (.reopen r) =>
    match r.state with
    | .activated _ => ch.2.fault.isSome || x.1.all fun q => !q.unmarked.contains r.tenantId
    | _ => true
  | _ => true

/-- No active tenant has a closure scheduled against it. -/
def NoneScheduled (tenants : String → TenantRows) : Prop :=
  ∀ tenantId, (tenants tenantId).status = some .active → (tenants tenantId).closure = none

/-- Nothing was erased but what was closed, its date passed, when it was marked. -/
structure SafelyErased (db : OffboardingDb) : Prop where
  erased : ∀ e ∈ db.erased, e.2 = true
  scheduled : NoneScheduled db.tenants

section Calls

variable {db db' : OffboardingDb} {i : OffboardingTurn} {tenantId : String}

/-- A statement that commits nothing: it may take or release locks. -/
structure Same (db db' : OffboardingDb) : Prop where
  clock : db'.clock = db.clock
  status : ∀ tenantId, (db'.tenants tenantId).status = (db.tenants tenantId).status
  closure : ∀ tenantId, (db'.tenants tenantId).closure = (db.tenants tenantId).closure
  erased : db'.erased = db.erased

theorem same_refl (db : OffboardingDb) : Same db db := ⟨rfl, fun _ => rfl, fun _ => rfl, rfl⟩

theorem set_self (db : OffboardingDb) (tenantId : String) (rows : TenantRows) :
    (db.set tenantId rows).tenants tenantId = rows :=
  Function.update_self _ _ _

theorem set_of_ne {t : String} (h : t ≠ tenantId) (db : OffboardingDb) (rows : TenantRows) :
    (db.set tenantId rows).tenants t = db.tenants t :=
  Function.update_of_ne h _ _

theorem same_set {rows : TenantRows} (hstatus : rows.status = (db.tenants tenantId).status)
    (hclosure : rows.closure = (db.tenants tenantId).closure) : Same db (db.set tenantId rows) := by
  refine ⟨rfl, fun t => ?_, fun t => ?_, rfl⟩
  · by_cases h : t = tenantId
    · subst h
      rw [set_self, hstatus]
    · rw [set_of_ne h]
  · by_cases h : t = tenantId
    · subst h
      rw [set_self, hclosure]
    · rw [set_of_ne h]

theorem closeTenant_commits (db : OffboardingDb) (c : CloseCall) (i : OffboardingTurn) :
    Same db (closeTenant db c i).1 ∨ ∃ now, c.state = .dated now ∧ i.fault = none ∧
      (closeTenant db c i).1 = db.set c.tenantId ⟨some .closed, false, some (c.closure now), false⟩ := by
  unfold closeTenant
  dsimp only
  split
  · exact .inl (same_refl db)
  · exact .inl (same_refl db)
  · exact .inl (same_refl db)
  · split
    · exact .inl (same_refl db)
    · split
      · exact .inl (same_refl db)
      · exact .inl (same_set rfl rfl)
  · exact .inl (same_set rfl rfl)
  · split
    · exact .inl (same_refl db)
    · exact .inl (same_set rfl rfl)
  · exact .inl (same_set rfl rfl)
  · rename_i now hstate hfault
    exact .inr ⟨now, hstate, hfault, rfl⟩

theorem reopenTenant_commits (db : OffboardingDb) (r : ReopenCall) (i : OffboardingTurn) :
    Same db (reopenTenant db r i).1 ∨ ∃ wasClosed rows, r.state = .activated wasClosed ∧ i.fault = none ∧
      rows.closure = none ∧ (rows.status = some .active ∨ rows.status = (db.tenants r.tenantId).status) ∧
        (reopenTenant db r i).1 = db.set r.tenantId rows := by
  unfold reopenTenant
  dsimp only
  split
  · exact .inl (same_refl db)
  · exact .inl (same_refl db)
  · exact .inl (same_refl db)
  · split
    · split
      · exact .inl (same_refl db)
      · exact .inl (same_set rfl rfl)
    · exact .inl (same_refl db)
  · exact .inl (same_set rfl rfl)
  · split
    · split
      · exact .inl (same_refl db)
      · exact .inl (same_set rfl rfl)
    · exact .inl (same_refl db)
  · exact .inl (same_set rfl rfl)
  · rename_i wasClosed hstate hfault
    exact .inr ⟨wasClosed, _, hstate, hfault, rfl, by cases wasClosed <;> simp, rfl⟩

theorem managedPurgeClosed_commits (db : OffboardingDb) (p : PurgeRun) (i : OffboardingTurn) :
    Same db (managedPurgeClosed db p i).1 ∨ ∃ tenantId rest closureHeld due,
      p.state = .emptied tenantId rest true closureHeld due ∧
        (managedPurgeClosed db p i).1 = { db.set tenantId {} with erased := db.erased ++ [(tenantId, due)] } := by
  unfold managedPurgeClosed
  dsimp only
  split
  · exact .inl (same_refl db)
  · exact .inl (same_refl db)
  · exact .inl (same_refl db)
  · exact .inl (same_refl db)
  · exact .inl (same_refl db)
  · exact .inl (same_refl db)
  · exact .inl (same_refl db)
  · exact .inl (same_refl db)
  · exact .inl (same_refl db)
  · exact .inl (same_refl db)
  · exact .inl (same_refl db)
  · split
    · exact .inl (same_refl db)
    · split
      · exact .inl (same_refl db)
      · exact .inl (same_set rfl rfl)
  · exact .inl (same_set rfl rfl)
  · split
    · exact .inl (same_refl db)
    · split
      · exact .inl (same_refl db)
      · exact .inl (same_set rfl rfl)
  · exact .inl (same_set rfl rfl)
  · rename_i tenantId rest held closureHeld due hstate hfault
    split
    · rename_i hheld
      subst hheld
      exact .inr ⟨tenantId, rest, closureHeld, due, hstate, rfl⟩
    · exact .inl (same_refl db)

/-- A listed tenant is still closed with a date that has passed, or it is gone. -/
def Due (db : OffboardingDb) (tenantId : String) : Prop :=
  (db.tenants tenantId).status = none ∨ (db.tenants tenantId).due db.clock = true

theorem due_iff {rows : TenantRows} {now : Instant} :
    rows.due now = true ↔ rows.status = some .closed ∧ ∃ closure, rows.closure = some closure ∧ closure.purgeAfter ≤ now := by
  simp [TenantRows.due, Option.any_eq_true]

theorem Due.same (h : Due db tenantId) (hsame : Same db db') : Due db' tenantId := by
  unfold Due at h ⊢
  rw [due_iff] at h ⊢
  rwa [hsame.status, hsame.closure, hsame.clock]

theorem Due.tick (h : Due db tenantId) (i : OffboardingTurn) : Due (db.tick i) tenantId := by
  obtain h | h := h
  · exact .inl h
  · obtain ⟨hstatus, closure, hclosure, hle⟩ := due_iff.mp h
    exact .inr (due_iff.mpr ⟨hstatus, closure, hclosure, hle.trans (Nat.le_add_right _ _)⟩)

/-- Where one turn of a purge run can take it. -/
inductive Goes (db : OffboardingDb) (mayPurge : Bool) : PurgeState → PurgeState → Prop
  | stay (s : PurgeState) : Goes db mayPurge s s
  | finish (s : PurgeState) : Goes db mayPurge s .done
  | list : Goes db mayPurge .start (.next (db.ids.filter fun id => (db.tenants id).due db.clock))
  | ask (tenantId : String) (rest : List String) : Goes db mayPurge (.next (tenantId :: rest)) (.asking tenantId rest)
  | allow (tenantId : String) (rest : List String) (h : mayPurge = true) :
      Goes db mayPurge (.asking tenantId rest) (.quiesced tenantId rest)
  | skip (tenantId : String) (rest : List String) : Goes db mayPurge (.asking tenantId rest) (.next rest)
  | revoke (tenantId : String) (rest : List String) : Goes db mayPurge (.quiesced tenantId rest) (.revoked tenantId rest)
  | mark (tenantId : String) (rest : List String) (held due : Bool) (h : Due db tenantId → due = true) :
      Goes db mayPurge (.revoked tenantId rest) (.marked tenantId rest held due)
  | empty (tenantId : String) (rest : List String) (held closureHeld due : Bool) :
      Goes db mayPurge (.marked tenantId rest held due) (.emptied tenantId rest held closureHeld due)
  | unquiesce (tenantId : String) (rest : List String) : Goes db mayPurge (.quiesced tenantId rest) (.next rest)
  | unrevoke (tenantId : String) (rest : List String) : Goes db mayPurge (.revoked tenantId rest) (.next rest)
  | unmark (tenantId : String) (rest : List String) (held due : Bool) :
      Goes db mayPurge (.marked tenantId rest held due) (.next rest)
  | commit (tenantId : String) (rest : List String) (held closureHeld due : Bool) :
      Goes db mayPurge (.emptied tenantId rest held closureHeld due) (.next rest)

theorem managedPurgeClosed_goes (db : OffboardingDb) (p : PurgeRun) (i : OffboardingTurn) :
    Goes db i.mayPurge p.state (managedPurgeClosed db p i).2.state := by
  obtain ⟨now, state⟩ := p
  cases hfault : i.fault with
  | some reason =>
    cases state with
    | next queue => cases queue <;> simp only [managedPurgeClosed, hfault, PurgeRun.goOn] <;> exact .finish _
    | start | asking tenantId rest | done =>
      simp only [managedPurgeClosed, hfault, PurgeRun.goOn]
      exact .finish _
    | quiesced tenantId rest =>
      simp only [managedPurgeClosed, hfault, PurgeRun.goOn]
      exact .unquiesce ..
    | revoked tenantId rest =>
      simp only [managedPurgeClosed, hfault, PurgeRun.goOn]
      exact .unrevoke ..
    | marked tenantId rest held due =>
      simp only [managedPurgeClosed, hfault, PurgeRun.goOn]
      exact .unmark ..
    | emptied tenantId rest held closureHeld due =>
      simp only [managedPurgeClosed, hfault, PurgeRun.goOn]
      exact .commit ..
  | none =>
    cases state with
    | start =>
      simp only [managedPurgeClosed, hfault]
      exact .list
    | next queue =>
      cases queue with
      | nil =>
        simp only [managedPurgeClosed, PurgeRun.goOn]
        exact .finish _
      | cons tenantId rest =>
        simp only [managedPurgeClosed, hfault, PurgeRun.goOn]
        exact .ask ..
    | asking tenantId rest =>
      simp only [managedPurgeClosed, hfault, PurgeRun.goOn]
      split
      · rename_i hmay
        exact .allow _ _ hmay
      · exact .skip ..
    | quiesced tenantId rest =>
      simp only [managedPurgeClosed, hfault, PurgeRun.goOn]
      exact .revoke ..
    | revoked tenantId rest =>
      simp only [managedPurgeClosed, hfault, PurgeRun.goOn]
      split
      · exact .mark _ _ _ _ fun _ => rfl
      · rename_i hstatus
        split
        · exact .stay _
        · exact .mark _ _ _ _ fun h => h.resolve_left hstatus
    | marked tenantId rest held due =>
      simp only [managedPurgeClosed, hfault, PurgeRun.goOn]
      split
      · exact .empty ..
      · split
        · exact .stay _
        · exact .empty ..
    | emptied tenantId rest held closureHeld due =>
      simp only [managedPurgeClosed, hfault, PurgeRun.goOn]
      split <;> exact .commit ..
    | done =>
      simp only [managedPurgeClosed]
      exact .stay _

theorem Goes.lists {mayPurge : Bool} {s s' : PurgeState} (h : Goes db mayPurge s s') :
    ∀ t ∈ s'.unmarked, t ∈ s.unmarked ∨ Due db t := by
  intro t ht
  cases h with
  | stay => exact .inl ht
  | finish => cases ht
  | list => exact .inr (.inr (List.mem_filter.mp ht).2)
  | ask | allow | revoke | empty | unmark | commit => exact .inl ht
  | skip | mark | unquiesce | unrevoke => exact .inl (List.mem_cons_of_mem _ ht)

/-- A tenant that a run has marked was due. -/
def PurgeState.MarkedDue : PurgeState → Prop
  | .marked _ _ _ due | .emptied _ _ _ _ due => due = true
  | _ => True

theorem Goes.marks {mayPurge : Bool} {s s' : PurgeState} (h : Goes db mayPurge s s') (hdue : ∀ t ∈ s.unmarked, Due db t)
    (hmarked : s.MarkedDue) : s'.MarkedDue := by
  cases h with
  | stay | empty => exact hmarked
  | finish | list | ask | allow | skip | revoke | unquiesce | unrevoke | unmark | commit => exact trivial
  | mark tenantId rest held due h => exact h (hdue tenantId List.mem_cons_self)

end Calls

section Runs

variable {x : List Call × OffboardingDb} {ch : ℕ × OffboardingTurn} {db' : OffboardingDb}

def Call.MarkedDue : Call → Prop
  | .purge p => p.state.MarkedDue
  | _ => True

structure Inv (x : List Call × OffboardingDb) : Prop where
  safe : SafelyErased x.2
  listed : ∀ q ∈ x.1, ∀ t ∈ q.unmarked, Due x.2 t
  marked : ∀ q ∈ x.1, q.MarkedDue

theorem Inv.set (h : Inv x) {j : ℕ} {c : Call} (hsafe : SafelyErased db')
    (hlisted : ∀ q ∈ x.1, ∀ t ∈ q.unmarked, Due db' t) (hown : ∀ t ∈ c.unmarked, Due db' t) (hmarked : c.MarkedDue) :
    Inv (x.1.set j c, db') := by
  refine ⟨hsafe, fun q hq => ?_, fun q hq => ?_⟩
  · obtain hq | rfl := List.mem_or_eq_of_mem_set hq
    · exact hlisted q hq
    · exact hown
  · obtain hq | rfl := List.mem_or_eq_of_mem_set hq
    · exact h.marked q hq
    · exact hmarked

theorem NoneScheduled.same {db : OffboardingDb} (h : NoneScheduled db.tenants) (hsame : Same db db') :
    NoneScheduled db'.tenants := by
  intro t ht
  rw [hsame.closure]
  exact h t (hsame.status t ▸ ht)

theorem NoneScheduled.set {db : OffboardingDb} (h : NoneScheduled db.tenants) {tenantId : String} {rows : TenantRows}
    (hrows : rows.status = some .active → rows.closure = none) : NoneScheduled (db.set tenantId rows).tenants := by
  intro t
  by_cases ht : t = tenantId
  · subst ht
    rw [set_self]
    exact hrows
  · rw [set_of_ne ht]
    exact h t

theorem SafelyErased.same {db : OffboardingDb} (h : SafelyErased db) (hsame : Same db db') : SafelyErased db' :=
  ⟨fun e he => h.erased e (hsame.erased ▸ he), h.scheduled.same hsame⟩

theorem SafelyErased.set {db : OffboardingDb} (h : SafelyErased db) {tenantId : String} {rows : TenantRows}
    (hrows : rows.status = some .active → rows.closure = none) : SafelyErased (db.set tenantId rows) :=
  ⟨h.erased, h.scheduled.set hrows⟩

theorem Due.set {db : OffboardingDb} {t tenantId : String} {rows : TenantRows} (h : Due db t)
    (hrows : t = tenantId → rows.status = none ∨ rows.due db.clock = true) : Due (db.set tenantId rows) t := by
  by_cases ht : t = tenantId
  · subst ht
    unfold Due
    rw [set_self]
    exact hrows rfl
  · unfold Due
    rw [set_of_ne ht]
    exact h

theorem close_inv (h : Inv x) {c : CloseCall} (hc : x.1[ch.1]? = some (.close c)) (hk : keepsDates x ch = true) :
    Inv (turn callStep x ch) := by
  have hsafe : SafelyErased (x.2.tick ch.2) := ⟨h.safe.erased, h.safe.scheduled⟩
  have hturn : turn callStep x ch = (x.1.set ch.1 (.close (closeTenant (x.2.tick ch.2) c ch.2).2),
      (closeTenant (x.2.tick ch.2) c ch.2).1) := by
    rw [turn, hc]
    rfl
  rw [hturn]
  obtain hsame | ⟨now, hstate, hfault, hdb⟩ := closeTenant_commits (x.2.tick ch.2) c ch.2
  · exact h.set (hsafe.same hsame) (fun q hq t ht => ((h.listed q hq t ht).tick ch.2).same hsame) nofun trivial
  · rw [hdb]
    simp only [keepsDates, hc, hstate, hfault, Option.isSome_none, Bool.false_or, List.all_eq_true, Bool.or_eq_true,
      Bool.not_eq_true', decide_eq_true_eq] at hk
    refine h.set (hsafe.set (by rintro ⟨⟩)) (fun q hq t ht => ((h.listed q hq t ht).tick ch.2).set ?_) nofun trivial
    rintro rfl
    right
    rw [due_iff]
    refine ⟨rfl, _, rfl, ?_⟩
    have hq' : q.unmarked.contains c.tenantId = true := by simpa using ht
    exact (hk q hq).resolve_left (by rw [hq']; decide)

theorem reopen_inv (h : Inv x) {r : ReopenCall} (hr : x.1[ch.1]? = some (.reopen r)) (hk : keepsDates x ch = true) :
    Inv (turn callStep x ch) := by
  have hsafe : SafelyErased (x.2.tick ch.2) := ⟨h.safe.erased, h.safe.scheduled⟩
  have hturn : turn callStep x ch = (x.1.set ch.1 (.reopen (reopenTenant (x.2.tick ch.2) r ch.2).2),
      (reopenTenant (x.2.tick ch.2) r ch.2).1) := by
    rw [turn, hr]
    rfl
  rw [hturn]
  obtain hsame | ⟨wasClosed, rows, hstate, hfault, hclosure, -, hdb⟩ := reopenTenant_commits (x.2.tick ch.2) r ch.2
  · exact h.set (hsafe.same hsame) (fun q hq t ht => ((h.listed q hq t ht).tick ch.2).same hsame) nofun trivial
  · rw [hdb]
    simp only [keepsDates, hr, hstate, hfault, Option.isSome_none, Bool.false_or, List.all_eq_true,
      Bool.not_eq_true'] at hk
    refine h.set (hsafe.set fun _ => hclosure) (fun q hq t ht => ((h.listed q hq t ht).tick ch.2).set ?_) nofun trivial
    rintro rfl
    have hq' : q.unmarked.contains r.tenantId = true := by simpa using ht
    rw [hk q hq] at hq'
    cases hq'

theorem purge_inv (h : Inv x) {p : PurgeRun} (hp : x.1[ch.1]? = some (.purge p)) : Inv (turn callStep x ch) := by
  have hmem := List.mem_of_getElem? hp
  have hsafe : SafelyErased (x.2.tick ch.2) := ⟨h.safe.erased, h.safe.scheduled⟩
  have hdue : ∀ q ∈ x.1, ∀ t ∈ q.unmarked, Due (x.2.tick ch.2) t := fun q hq t ht => (h.listed q hq t ht).tick ch.2
  have hturn : turn callStep x ch = (x.1.set ch.1 (.purge (managedPurgeClosed (x.2.tick ch.2) p ch.2).2),
      (managedPurgeClosed (x.2.tick ch.2) p ch.2).1) := by
    rw [turn, hp]
    rfl
  have hlists : ∀ t ∈ (managedPurgeClosed (x.2.tick ch.2) p ch.2).2.state.unmarked, Due (x.2.tick ch.2) t := fun t ht =>
    ((managedPurgeClosed_goes _ p ch.2).lists t ht).elim (hdue _ hmem t) id
  have hmarks := (managedPurgeClosed_goes _ p ch.2).marks (hdue _ hmem) (h.marked _ hmem)
  rw [hturn]
  obtain hsame | ⟨tenantId, rest, closureHeld, due, hstate, hdb⟩ := managedPurgeClosed_commits (x.2.tick ch.2) p ch.2
  · exact h.set (hsafe.same hsame) (fun q hq t ht => (hdue q hq t ht).same hsame) (fun t ht => (hlists t ht).same hsame)
      hmarks
  · rw [hdb]
    have hmarked : due = true := by
      have hm := h.marked _ hmem
      simpa only [Call.MarkedDue, PurgeState.MarkedDue, hstate] using hm
    have hgone : ∀ t, Due (x.2.tick ch.2) t → Due ((x.2.tick ch.2).set tenantId {}) t := fun t ht =>
      ht.set fun _ => .inl rfl
    have hset : SafelyErased ((x.2.tick ch.2).set tenantId {}) := hsafe.set nofun
    refine h.set ⟨?_, hset.scheduled⟩ (fun q hq t ht => hgone t (hdue q hq t ht)) (fun t ht => hgone t (hlists t ht)) hmarks
    intro e he
    obtain he | he := List.mem_append.mp he
    · exact hsafe.erased e he
    · rw [List.mem_singleton.mp he]
      exact hmarked

theorem call_inv (x : List Call × OffboardingDb) (ch : ℕ × OffboardingTurn) (h : Inv x) (hk : keepsDates x ch = true) :
    Inv (turn callStep x ch) := by
  cases hc : x.1[ch.1]? with
  | none =>
    rw [turn, hc]
    exact h
  | some c =>
    cases c with
    | close c => exact close_inv h hc hk
    | reopen r => exact reopen_inv h hc hk
    | purge p => exact purge_inv h hc

theorem call_noneScheduled (x : List Call × OffboardingDb) (ch : ℕ × OffboardingTurn) (h : NoneScheduled x.2.tenants) :
    NoneScheduled (turn callStep x ch).2.tenants := by
  obtain ⟨-, hsame⟩ | ⟨c, hc, hturn⟩ := turn_cases callStep x ch
  · rwa [hsame]
  · have htick : NoneScheduled (x.2.tick ch.2).tenants := h
    rw [hturn]
    cases c with
    | close c =>
      obtain hsame | ⟨now, -, -, hdb⟩ := closeTenant_commits (x.2.tick ch.2) c ch.2
      · exact htick.same hsame
      · have hset : (callStep x.2 (.close c) ch.2).1 = _ := hdb
        rw [hset]
        exact htick.set nofun
    | reopen r =>
      obtain hsame | ⟨wasClosed, rows, -, -, hclosure, -, hdb⟩ := reopenTenant_commits (x.2.tick ch.2) r ch.2
      · exact htick.same hsame
      · have hset : (callStep x.2 (.reopen r) ch.2).1 = _ := hdb
        rw [hset]
        exact htick.set fun _ => hclosure
    | purge p =>
      obtain hsame | ⟨tenantId, rest, closureHeld, due, -, hdb⟩ :=
        managedPurgeClosed_commits (x.2.tick ch.2) p ch.2
      · exact htick.same hsame
      · have hset : (callStep x.2 (.purge p) ch.2).1 = _ := hdb
        rw [hset]
        have hgone : NoneScheduled ((x.2.tick ch.2).set tenantId {}).tenants := htick.set nofun
        exact hgone

end Runs

/-- The tenants before the calls begin, with no transaction open on them. -/
structure Tenancy where
  clock : Instant
  ids : List String
  tenants : String → TenantRows
  known : ∀ tenantId, (tenants tenantId).status ≠ none → tenantId ∈ ids
  scheduled : NoneScheduled tenants
  unlocked : ∀ tenantId, (tenants tenantId).statusLocked = false ∧ (tenants tenantId).closureLocked = false

inductive Arrival where
  | close (tenantId : String) (windowDays : ℕ) (closedBy : String)
  | reopen (tenantId : String)
  | purge

def Arrival.call : Arrival → Call
  | close tenantId windowDays closedBy => .close { tenantId, windowDays, closedBy }
  | reopen tenantId => .reopen { tenantId }
  | purge => .purge {}

def arrive (tenancy : Tenancy) (arrivals : List Arrival) : List Call × OffboardingDb :=
  (arrivals.map Arrival.call, { clock := tenancy.clock, ids := tenancy.ids, tenants := tenancy.tenants })

section Main

variable (tenancy : Tenancy) (arrivals : List Arrival) (chs : List (ℕ × OffboardingTurn))

theorem arrive_inv : Inv (arrive tenancy arrivals) := by
  constructor
  · exact ⟨nofun, tenancy.scheduled⟩
  · intro q hq
    obtain ⟨arrival, -, rfl⟩ := List.mem_map.mp hq
    cases arrival <;> exact nofun
  · intro q hq
    obtain ⟨arrival, -, rfl⟩ := List.mem_map.mp hq
    cases arrival <;> exact trivial

theorem never_active_and_scheduled (n : ℕ) :
    NoneScheduled (turns callStep (arrive tenancy arrivals) (chs.take n)).2.tenants :=
  turns_always (A := fun _ => True) (P := fun x => NoneScheduled x.2.tenants)
    (fun x ch _ _ hx => call_noneScheduled x ch hx) (fun _ => trivial) tenancy.scheduled

variable {tenancy arrivals chs}

/-- In any interleaving of purge runs, closes and reopens in which the dates of a listed tenant are kept, only tenants
due when they were marked are erased. -/
theorem safely_erased (hkeeps : EveryChoice callStep (fun x ch => keepsDates x ch = true) (arrive tenancy arrivals) chs)
    (n : ℕ) : SafelyErased (turns callStep (arrive tenancy arrivals) (chs.take n)).2 :=
  (choices_keep call_inv hkeeps (arrive_inv tenancy arrivals) n).safe

end Main

namespace Sample

def closure : Closure := { closedAt := 0, purgeAfter := 10, closedBy := "owner" }

/-- One closed tenant whose date has passed, and an active one. -/
def tenants (tenantId : String) : TenantRows :=
  if tenantId = "a" then { status := some .closed, closure := some closure }
  else if tenantId = "b" then { status := some .active }
  else {}

def tenancy : Tenancy where
  clock := 11
  ids := ["a", "b"]
  tenants := tenants
  known tenantId h := by
    by_cases ha : tenantId = "a"
    · simp [ha]
    · by_cases hb : tenantId = "b"
      · simp [hb]
      · simp [tenants, ha, hb] at h
  scheduled tenantId h := by
    by_cases ha : tenantId = "a"
    · simp [tenants, ha] at h
    · by_cases hb : tenantId = "b" <;> simp [tenants, ha, hb]
  unlocked tenantId := by
    by_cases ha : tenantId = "a"
    · simp [tenants, ha]
    · by_cases hb : tenantId = "b" <;> simp [tenants, ha, hb]

def arrivals : List Arrival := [.purge, .close "a" 30 "owner", .reopen "a", .close "b" 30 "owner"]

/-- While the run asks about the first tenant's passes, the second tenant is closed. -/
def otherTenant : List (ℕ × OffboardingTurn) :=
  [0, 0, 3, 3, 0, 3, 3, 0, 0, 0, 0].map fun j => (j, { elapsed := 1 })

/-- While the run asks about the tenant's passes, its window is extended, and it is reopened. -/
def sameTenant : List (ℕ × OffboardingTurn) :=
  [0, 0, 1, 1, 1, 1, 2, 2, 2, 2, 0, 0, 0, 0, 0].map fun j => (j, { elapsed := 1 })

end Sample

theorem due_tenant_is_erased :
    (turns callStep (arrive Sample.tenancy Sample.arrivals) Sample.otherTenant).2.erased = [("a", true)] ∧
      ∀ n, SafelyErased (turns callStep (arrive Sample.tenancy Sample.arrivals) (Sample.otherTenant.take n)).2 :=
  ⟨by decide +kernel, safely_erased (by decide +kernel)⟩

/-- The run read the list before the tenant was reopened, and marks whatever status it meets. -/
theorem reopened_tenant_is_erased :
    ¬ ∀ n, SafelyErased (turns callStep (arrive Sample.tenancy Sample.arrivals) (Sample.sameTenant.take n)).2 := by
  intro h
  have herased : (turns callStep (arrive Sample.tenancy Sample.arrivals) (Sample.sameTenant.take 15)).2.erased =
      [("a", false)] := by
    decide +kernel
  have hdue := (h 15).erased ("a", false) (by rw [herased]; exact List.mem_singleton_self _)
  cases hdue

end OpenMigrate.Offboarding
