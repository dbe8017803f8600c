import OpenMigrate.Cutover.Linear
import OpenMigrate.Offboarding.Passes

namespace OpenMigrate.Cutover

open Offboarding (MappingStatus)

section Source

/-- The two tables that the job writes: the cutover of a mapping and the mapping's status, where its row is found. -/
structure RollbackDb where
  cutover : CutoverDb
  mapping : Option MappingStatus

structure RollbackPayload where
  tenantId : String
  mappingId : String
  reason : String
  notifyUsers : Bool := false

/-- What the job reads of its environment: whether a channel is configured and why not, and `DATABASE_URL`. -/
structure RollbackEnv where
  channelEnabled : Bool
  channelReason : String
  databaseUrl : Option String

structure RollbackResult where
  success : Bool
  tenantId : String
  mappingId : String
  reason : String
  rolledBackAt : Instant

/-- What the statements of the job meet: its own two, and those of its two calls of `transitionState`. -/
structure RollbackTurns where
  load : Turn
  update : Turn
  rollback : ℕ → Turn
  failure : ℕ → Turn

/-- A call of `transitionState` to its end; it sends at most three statements. -/
def transitionOnce (mappingId : String) (db : CutoverDb) (toState : CutoverState) (metadata : Metadata) (turns : ℕ → Turn) :
    CutoverDb × CutoverCall :=
  let started := cutoverStep mappingId db { request := .transitionState toState (some (.inr metadata)) } (turns 0)
  let logged := cutoverStep mappingId started.1 started.2 (turns 1)
  cutoverStep mappingId logged.1 logged.2 (turns 2)

def rolledBack (reason : String) (now : Instant) : Metadata where
  rollbackReason := some reason
  others := fun status => { status with rolledBackAt := some now, rollbackReason := some reason }

def rollbackFailed (error : String) (now : Instant) : Metadata where
  failureReason := some s!"Rollback failed: {error}"
  others := fun status => { status with failedAt := some now, failureReason := some s!"Rollback failed: {error}" }

/-- The catch block: the error of the `FAILED` transition is only logged. -/
def failRollback (payload : RollbackPayload) (turns : RollbackTurns) (db : RollbackDb) (error : String) :
    RollbackDb × Except String RollbackResult :=
  let failed := transitionOnce payload.mappingId db.cutover .failed (rollbackFailed error (turns.failure 0).now) turns.failure
  ({ db with cutover := failed.1 }, .error error)

/-- The UPDATE by the mapping's id and tenant. -/
def reactivate (db : RollbackDb) : RollbackDb := { db with mapping := db.mapping.map fun _ => .active }

/-- Step 3, and the result; a notification that fails to send changes neither. -/
def markRolledBack (payload : RollbackPayload) (turns : RollbackTurns) (db : RollbackDb) : RollbackDb × Except String RollbackResult :=
  let done := transitionOnce payload.mappingId db.cutover .rolledBack (rolledBack payload.reason (turns.rollback 0).now)
    turns.rollback
  match done.2.state with
  | .settled (.error error) => failRollback payload turns { db with cutover := done.1 } error
  | _ =>
    ({ db with cutover := done.1 }, .ok
      { success := true
        tenantId := payload.tenantId
        mappingId := payload.mappingId
        reason := payload.reason
        rolledBackAt := (turns.rollback 2).now })

def runRollback (payload : RollbackPayload) (env : RollbackEnv) (turns : RollbackTurns) (db : RollbackDb) :
    RollbackDb × Except String RollbackResult :=
  if payload.notifyUsers && !env.channelEnabled then
    (db, .error ("notifyUsers: true was requested, but no notification channel is configured: " ++ env.channelReason ++
      ". Configure SMTP or resubmit without the flag — the rollback itself has not run."))
  else if (truthy env.databaseUrl).isNone then
    (db, .error "DATABASE_URL environment variable required")
  else
    match turns.load.fault, loadCutoverState db.cutover with
    | some error, _ => failRollback payload turns db error
    | none, none => failRollback payload turns db "No cutover state found - nothing to rollback"
    | none, some _ =>
      match turns.update.fault with
      | some error => failRollback payload turns db error
      | none => markRolledBack payload turns (reactivate db)

end Source

section Properties

/-- The transition to ROLLED_BACK is among the states saved between the two. -/
def Persisted (before after : RollbackDb) : Prop :=
  ∃ saved, after.cutover.saves = before.cutover.saves ++ saved ∧ CutoverState.rolledBack ∈ saved

/-- A rollback is done as a whole or not at all. -/
structure RollbackAtomic (before after : RollbackDb) : Prop where
  unchanged : startState after.cutover ≠ some .rolledBack → after.mapping = before.mapping
  closed : startState before.cutover = some .completed ∨ startState before.cutover = some .rolledBack →
    startState after.cutover = startState before.cutover ∧ after.mapping = before.mapping
  reactivated : Persisted before after → after.mapping = before.mapping.map fun _ => .active
  kept : ¬ Persisted before after → after.mapping = before.mapping

/-- The transition that the job asks for is legal, and none of its statements fails. -/
def Goes (db : CutoverDb) (toState : CutoverState) (turns : ℕ → Turn) : Prop :=
  (∃ state, startState db = some state ∧ isValidTransition state toState = true) ∧ ∀ k, k < 3 → (turns k).fault = none

/-- The job ends before it touches the mapping. -/
def StopsEarly (payload : RollbackPayload) (env : RollbackEnv) (turns : RollbackTurns) (db : RollbackDb) : Prop :=
  (payload.notifyUsers = true ∧ env.channelEnabled = false) ∨ truthy env.databaseUrl = none ∨ turns.load.fault.isSome ∨
    db.cutover.row = none ∨ turns.update.fault.isSome

end Properties

section Transition

variable {db : CutoverDb} {toState : CutoverState} {turns : ℕ → Turn}

theorem load_of_start {state : CutoverState} (h : startState db = some state) :
    ∃ current, loadCutoverState db = some current ∧ current.state = state := by
  obtain ⟨row, hrow, hstate⟩ := Option.map_eq_some_iff.mp h
  refine ⟨mapRowToStatus row, ?_, hstate⟩
  rw [loadCutoverState, hrow]
  rfl

theorem transitionOnce_goes (mappingId : String) (m : Metadata) (hm : m.state = none) (hgoes : Goes db toState turns) :
    ∃ status, (transitionOnce mappingId db toState m turns).2.state = .settled (.ok status) ∧
      (transitionOnce mappingId db toState m turns).1.saves = db.saves ++ [toState] ∧
      startState (transitionOnce mappingId db toState m turns).1 = some toState := by
  obtain ⟨⟨state, hstart, hvalid⟩, hfaults⟩ := hgoes
  obtain ⟨current, hload, rfl⟩ := load_of_start hstart
  have h0 := hfaults 0 (by omega)
  have h1 := hfaults 1 (by omega)
  have h2 := hfaults 2 (by omega)
  obtain ⟨updated, hupdated, hstate⟩ := updateCutoverStatus_ok (reasonOf (some (.inr m))) (turns 2).now hvalid
  have hassigned : (assignOf (some (.inr m)) updated).state = toState := by
    rw [assignOf_state, metadataState, hm, Option.getD_none, hstate]
  refine ⟨assignOf (some (.inr m)) updated, ?_⟩
  refine ⟨?_, ?_, ?_⟩
  all_goals simp only [transitionOnce, cutoverStep, transitionState, hload, h0, logTransition, hvalid, h1, saveTransition,
    hupdated, h2, Bool.not_true, Bool.false_eq_true, ↓reduceIte]
  · rw [(save_wrote _ _ _).saves, hassigned]
    rfl
  · rw [(save_wrote _ _ _).row, hassigned]
    rfl

theorem transitionOnce_stays (mappingId : String) (m : Metadata) (hgoes : ¬ Goes db toState turns) :
    ∃ error, (transitionOnce mappingId db toState m turns).2.state = .settled (.error error) ∧
      (transitionOnce mappingId db toState m turns).1.saves = db.saves ∧
      startState (transitionOnce mappingId db toState m turns).1 = startState db := by
  cases h0 : (turns 0).fault with
  | some error =>
    refine ⟨error, ?_⟩
    simp [transitionOnce, cutoverStep, transitionState, settle, h0]
  | none =>
    cases hload : loadCutoverState db with
    | none =>
      refine ⟨s!"No cutover state found for mapping {mappingId}", ?_⟩
      simp [transitionOnce, cutoverStep, transitionState, settle, h0, hload]
    | some current =>
      cases hvalid : isValidTransition current.state toState with
      | false =>
        refine ⟨invalidTransition current.state toState (some (.inr m)), ?_⟩
        simp [transitionOnce, cutoverStep, transitionState, logTransition, settle, h0, hload, hvalid]
      | true =>
        cases h1 : (turns 1).fault with
        | some error =>
          refine ⟨error, ?_⟩
          simp [transitionOnce, cutoverStep, transitionState, logTransition, settle, h0, hload, hvalid, h1]
        | none =>
          obtain ⟨updated, hupdated, -⟩ := updateCutoverStatus_ok (reasonOf (some (.inr m))) (turns 2).now hvalid
          cases h2 : (turns 2).fault with
          | some error =>
            refine ⟨error, ?_⟩
            simp only [transitionOnce, cutoverStep, transitionState, logTransition, saveTransition, settle, h0, hload, hvalid, h1,
              hupdated, h2, Bool.not_true, Bool.false_eq_true, ↓reduceIte]
            exact ⟨trivial, rfl, rfl⟩
          | none =>
            refine absurd ⟨⟨current.state, load_state hload, hvalid⟩, ?_⟩ hgoes
            intro k hk
            match k, hk with
            | 0, _ => exact h0
            | 1, _ => exact h1
            | 2, _ => exact h2

end Transition

section Rollback

variable {payload : RollbackPayload} {env : RollbackEnv} {turns : RollbackTurns} {db : RollbackDb}

/-- The catch block leaves the mapping, saves at most FAILED, and leaves a closed cutover closed. -/
structure FailedFrom (db after : RollbackDb) : Prop where
  mapping : after.mapping = db.mapping
  saves : ∃ saved, after.cutover.saves = db.cutover.saves ++ saved ∧ CutoverState.rolledBack ∉ saved
  closed : startState db.cutover = some .completed ∨ startState db.cutover = some .rolledBack →
    startState after.cutover = startState db.cutover

theorem failRollback_failed (payload : RollbackPayload) (turns : RollbackTurns) (db : RollbackDb) (error : String) :
    FailedFrom db (failRollback payload turns db error).1 := by
  rw [failRollback]
  by_cases hgoes : Goes db.cutover .failed turns.failure
  · obtain ⟨status, -, hsaves, -⟩ := transitionOnce_goes payload.mappingId
      (rollbackFailed error (turns.failure 0).now) rfl hgoes
    refine ⟨rfl, ⟨[.failed], hsaves, by decide⟩, ?_⟩
    obtain ⟨⟨state, hstate, hvalid⟩, -⟩ := hgoes
    rw [hstate]
    rintro (hclosed | hclosed)
    · obtain rfl := Option.some.inj hclosed
      cases hvalid
    · obtain rfl := Option.some.inj hclosed
      cases hvalid
  · obtain ⟨_, -, hsaves, hrow⟩ := transitionOnce_stays payload.mappingId
      (rollbackFailed error (turns.failure 0).now) hgoes
    exact ⟨rfl, ⟨[], hsaves.trans (List.append_nil _).symm, List.not_mem_nil⟩, fun _ => hrow⟩

theorem FailedFrom.not_persisted {after : RollbackDb} (h : FailedFrom db after) : ¬ Persisted db after := by
  rintro ⟨saved, hsaved, hmem⟩
  obtain ⟨later, hlater, hnot⟩ := h.saves
  have heq := List.append_cancel_left (hsaved.symm.trans hlater)
  exact hnot (heq ▸ hmem)

/-- A failure that finds the mapping as it was before the job is no partial rollback. -/
theorem FailedFrom.atomic {after : RollbackDb} (h : FailedFrom db after) : RollbackAtomic db after where
  unchanged _ := h.mapping
  closed hclosed := ⟨h.closed hclosed, h.mapping⟩
  reactivated hpersisted := absurd hpersisted h.not_persisted
  kept _ := h.mapping

theorem refl_atomic : RollbackAtomic db db :=
  FailedFrom.atomic ⟨rfl, ⟨[], (List.append_nil _).symm, List.not_mem_nil⟩, fun _ => rfl⟩

theorem runRollback_early (h : StopsEarly payload env turns db) : RollbackAtomic db (runRollback payload env turns db).1 := by
  rw [runRollback]
  split
  · exact refl_atomic
  · rename_i hchannel
    split
    · exact refl_atomic
    · rename_i hurl
      split
      · exact (failRollback_failed _ _ _ _).atomic
      · exact (failRollback_failed _ _ _ _).atomic
      · rename_i hload hrow
        split
        · exact (failRollback_failed _ _ _ _).atomic
        · rename_i hupdate
          rcases h with ⟨hnotify, henabled⟩ | hnone | hfault | hnorow | hfault
          · rw [hnotify, henabled] at hchannel
            exact absurd rfl hchannel
          · rw [hnone] at hurl
            exact absurd rfl hurl
          · rw [hload] at hfault
            cases hfault
          · rw [loadCutoverState, hnorow] at hrow
            cases hrow
          · rw [hupdate] at hfault
            cases hfault

theorem runRollback_late (h : ¬ StopsEarly payload env turns db) :
    runRollback payload env turns db = markRolledBack payload turns (reactivate db) := by
  have hchannel : ¬ (payload.notifyUsers && !env.channelEnabled) = true := by
    intro hboth
    obtain ⟨hnotify, henabled⟩ := Bool.and_eq_true_iff.mp hboth
    exact h (.inl ⟨hnotify, by simpa using henabled⟩)
  have hurl : ¬ (truthy env.databaseUrl).isNone = true := fun hnone => h (.inr (.inl (Option.isNone_iff_eq_none.mp hnone)))
  have hload : turns.load.fault = none := by
    cases hfault : turns.load.fault with
    | none => rfl
    | some error => exact absurd (.inr (.inr (.inl (by rw [hfault]; rfl)))) h
  have hupdate : turns.update.fault = none := by
    cases hfault : turns.update.fault with
    | none => rfl
    | some error => exact absurd (.inr (.inr (.inr (.inr (by rw [hfault]; rfl))))) h
  obtain ⟨row, hrow⟩ := Option.ne_none_iff_exists'.mp fun hnone => h (.inr (.inr (.inr (.inl hnone))))
  have hstate : loadCutoverState db.cutover = some (mapRowToStatus row) := by
    rw [loadCutoverState, hrow]
    rfl
  rw [runRollback, if_neg hchannel, if_neg hurl, hload, hstate]
  dsimp only
  rw [hupdate]

theorem markRolledBack_goes (h : Goes db.cutover .rolledBack turns.rollback) :
    RollbackAtomic db (markRolledBack payload turns (reactivate db)).1 := by
  obtain ⟨status, hstate, hsaves, hrow⟩ := transitionOnce_goes payload.mappingId
    (rolledBack payload.reason (turns.rollback 0).now) rfl h
  have hdone : (markRolledBack payload turns (reactivate db)).1 = { reactivate db with
      cutover := (transitionOnce payload.mappingId db.cutover .rolledBack
        (rolledBack payload.reason (turns.rollback 0).now) turns.rollback).1 } := by
    rw [markRolledBack]
    dsimp only [reactivate]
    rw [hstate]
  rw [hdone]
  constructor
  · exact fun hnot => absurd hrow hnot
  · obtain ⟨⟨state, hbefore, hvalid⟩, -⟩ := h
    rw [hbefore]
    rintro (hclosed | hclosed)
    · obtain rfl := Option.some.inj hclosed
      cases hvalid
    · obtain rfl := Option.some.inj hclosed
      cases hvalid
  · exact fun _ => rfl
  · exact fun hnot => absurd ⟨[.rolledBack], hsaves, List.mem_singleton.mpr rfl⟩ hnot

theorem markRolledBack_stays (payload : RollbackPayload) (h : ¬ Goes db.cutover .rolledBack turns.rollback) :
    FailedFrom (reactivate db) (markRolledBack payload turns (reactivate db)).1 := by
  obtain ⟨error, hstate, hsaves, hrow⟩ := transitionOnce_stays payload.mappingId
    (rolledBack payload.reason (turns.rollback 0).now) h
  have hdone : markRolledBack payload turns (reactivate db) = failRollback payload turns { reactivate db with
      cutover := (transitionOnce payload.mappingId db.cutover .rolledBack
        (rolledBack payload.reason (turns.rollback 0).now) turns.rollback).1 } error := by
    rw [markRolledBack]
    dsimp only [reactivate]
    rw [hstate]
  rw [hdone]
  obtain ⟨hmapping, ⟨saved, hsaved, hnot⟩, hclosed⟩ := failRollback_failed payload turns
    { reactivate db with cutover := (transitionOnce payload.mappingId db.cutover .rolledBack
      (rolledBack payload.reason (turns.rollback 0).now) turns.rollback).1 } error
  rw [hrow] at hclosed
  exact ⟨hmapping, ⟨saved, hsaved.trans (congrArg (· ++ saved) hsaves), hnot⟩, hclosed⟩

theorem rollback_atomic_iff : RollbackAtomic db (runRollback payload env turns db).1 ↔
    StopsEarly payload env turns db ∨ Goes db.cutover .rolledBack turns.rollback ∨ db.mapping = none ∨
      db.mapping = some .active := by
  by_cases hearly : StopsEarly payload env turns db
  · exact iff_of_true (runRollback_early hearly) (.inl hearly)
  rw [runRollback_late hearly, or_iff_right hearly]
  by_cases hgoes : Goes db.cutover .rolledBack turns.rollback
  · exact iff_of_true (markRolledBack_goes hgoes) (.inl hgoes)
  rw [or_iff_right hgoes]
  have hfailed := markRolledBack_stays payload hgoes
  have hmapping : (reactivate db).mapping = db.mapping ↔ db.mapping = none ∨ db.mapping = some .active := by
    rw [reactivate]
    cases db.mapping with
    | none => simp
    | some status => simp [eq_comm]
  constructor
  · intro hatomic
    have hkept := hatomic.kept hfailed.not_persisted
    exact hmapping.mp (hfailed.mapping.symm.trans hkept)
  · intro hactive
    have hsame : reactivate db = db := congrArg (RollbackDb.mk db.cutover) (hmapping.mpr hactive)
    rw [hsame] at hfailed ⊢
    exact hfailed.atomic

end Rollback

section Examples

def Sample.payload : RollbackPayload where
  tenantId := "t"
  mappingId := "m"
  reason := "r"

def Sample.env : RollbackEnv := ⟨false, "", some "postgres"⟩

def Sample.turns : RollbackTurns := ⟨⟨0, none⟩, ⟨0, none⟩, fun _ => ⟨0, none⟩, fun _ => ⟨0, none⟩⟩

/-- A completed cutover of a mapping that is done. -/
def Sample.completed : RollbackDb where
  cutover :=
    { row := some
        { state := .completed
          phase := .completion
          verificationStatus := .pass
          verificationReport := ""
          gracePeriodStartedAt := none
          gracePeriodCompletedAt := none
          targetMailServer := none
          errorMessage := none
          errorDetails := none
          createdAt := 0
          updatedAt := 0 }
      events := [] }
  mapping := some .done

theorem Sample.completed_is_reactivated :
    ¬ RollbackAtomic Sample.completed (runRollback Sample.payload Sample.env Sample.turns Sample.completed).1 := by
  intro h
  have hkept : some MappingStatus.active = some MappingStatus.done := (h.closed (.inl rfl)).2
  cases hkept

end Examples

end OpenMigrate.Cutover
