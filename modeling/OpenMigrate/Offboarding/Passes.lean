import OpenMigrate.Offboarding.Closing

namespace OpenMigrate.Offboarding

inductive MappingStatus where
  | active
  | paused
  | cutover
  | done
  deriving DecidableEq

structure SyncMapping where
  id : String
  tenantId : String
  status : MappingStatus
  schedule : Option String

structure ScopeSelection where
  tenantId : String
  mappingId : String
  domain : Domain
  included : Bool

inductive RunStatus where
  | queued
  | running
  | succeeded
  | failed
  | cancelled
  deriving DecidableEq

structure RunRow where
  id : ℕ
  tenantId : String
  mappingId : String
  orchestratorRef : Option ℕ
  status : RunStatus
  since : Instant

inductive RunOutcome where
  | succeeded
  | failed
  | cancelled
  deriving DecidableEq

def RunOutcome.status : RunOutcome → RunStatus
  | succeeded => .succeeded
  | failed => .failed
  | cancelled => .cancelled

/-- How far the orchestrator has got with one run of run-delta-sync. -/
inductive PassState where
  | queued
  | begun
  | selected (domains : List Domain)
  | working (runId : ℕ) (domains : List Domain)
  | finishing (runId : ℕ) (outcome : RunOutcome)
  | returned (outcome : RunOutcome)
  | ended (outcome : RunOutcome)
  deriving DecidableEq

structure Pass where
  tenantId : String
  mappingId : String
  domains : Option (List Domain)
  state : PassState := .queued

/-- The database, and the orchestrator with the passes it holds, each known by its place. `enqueued` is of the model: the
tenants for which a pass was enqueued, and whether the tenant was open then. -/
structure ManagedWorld where
  db : OffboardingDb
  mappings : List SyncMapping
  scope : List ScopeSelection
  runs : List RunRow
  nextRunId : ℕ
  passes : List Pass
  enqueued : List (String × Bool) := []

/-- What one turn meets: besides an offboarding turn, which pass, row or mapping it is about, what the orchestrator can be
asked, whether a pass is told its own id, and whether the orchestrator stops a pass or lets it try again. -/
structure PassTurn extends OffboardingTurn where
  pick : ℕ := 0
  reachable : Bool := true
  handle : Bool := true
  stop : Option RunOutcome := none
  retry : Bool := false

def TenantRows.isOpen (rows : TenantRows) : Bool := rows.status != none && rows.status != some .closed

def ManagedWorld.tick (w : ManagedWorld) (i : PassTurn) : ManagedWorld := { w with db := w.db.tick i.toOffboardingTurn }

def RunRow.live (r : RunRow) : Bool := r.status == .running || r.status == .queued

def PassState.executing : PassState → Bool
  | .queued | .ended _ => false
  | _ => true

def PassState.isEnded : PassState → Bool
  | .ended _ => true
  | _ => false

section Due

def DEFAULT_SYNC_SCHEDULE : String := "*/15 * * * *"

def DEFAULT_PERIOD_MINUTES : ℕ := 15

def offsetFor (mappingId : String) : ℕ :=
  mappingId.toList.foldl (fun hash c => (hash ^^^ c.toNat) * 0x01000193 % 2 ^ 32) 0x811c9dc5 % DEFAULT_PERIOD_MINUTES

def defaultScheduleFor (mappingId : String) : String :=
  let minutes := (List.range 4).map fun k => toString (offsetFor mappingId + k * DEFAULT_PERIOD_MINUTES)
  ",".intercalate minutes ++ " * * * *"

/-- When a cron expression fires next after a given time; it raises on an expression that is none. -/
abbrev Cron := String → Instant → Except String (Option Instant)

variable (nextRun : Cron) (w : ManagedWorld) (now : Instant)

def isSyncDue (schedule : String) (lastStartedAt : Option Instant) : Except String Bool :=
  match lastStartedAt with
  | none => .ok true
  | some last => (nextRun schedule last).map fun next => next.any (· ≤ now)

variable (m : SyncMapping)

def lastStarted : Option Instant :=
  ((w.runs.filter fun r => r.tenantId == m.tenantId && r.mappingId == m.id).map (·.since)).max?

def isRunning : Bool :=
  w.runs.any fun r => r.tenantId == m.tenantId && r.mappingId == m.id && r.status == .running

def mappingDue : Except String Bool :=
  match isSyncDue nextRun now (m.schedule.getD (defaultScheduleFor m.id)) (lastStarted w m) with
  | .ok due => .ok due
  | .error _ => isSyncDue nextRun now (defaultScheduleFor m.id) (lastStarted w m)

/-- What the tick takes of the mappings it selects: the active ones that are not running and are due. -/
def dueMappings : List SyncMapping → Except String (List SyncMapping)
  | [] => .ok []
  | m :: rest =>
    if m.status ≠ .active ∨ isRunning w m then dueMappings rest
    else
      match mappingDue nextRun w now m with
      | .error reason => .error reason
      | .ok due => (dueMappings rest).map fun others => if due then m :: others else others

def enabledDomains (tenantId mappingId : String) : List Domain :=
  ((w.scope.filter fun s => s.included && s.tenantId == tenantId && s.mappingId == mappingId).map (·.domain)).dedup

end Due

inductive SyncTick where
  | start
  | begun (now : Instant)
  | decided (due : List SyncMapping)
  | enqueueing (queue : List (SyncMapping × List Domain))
  | done

def ENQUEUE_CONCURRENCY : ℕ := 8

section Tick

variable (nextRun : Cron) (w : ManagedWorld) (t : SyncTick) (i : PassTurn)

def runDeltaSyncTrigger (m : SyncMapping) (domains : List Domain) : ManagedWorld :=
  { w with
    passes := w.passes ++ [{ tenantId := m.tenantId, mappingId := m.id, domains := some domains }]
    enqueued := w.enqueued ++ [(m.tenantId, (w.db.tenants m.tenantId).isOpen)] }

/-- A run of managed-sync-tick. The requests that enqueue go out eight at a time, and answer in any order. -/
def managedSyncTick : ManagedWorld × SyncTick :=
  match t, i.fault with
  | .done, _ => (w, t)
  | .start, _ => (w, .begun w.db.clock)
  | .begun _, some _ => (w, .done)
  | .begun now, none =>
    match dueMappings nextRun w now w.mappings with
    | .error _ => (w, .done)
    | .ok due => (w, .decided due)
  | .decided _, some _ => (w, .done)
  | .decided due, none =>
    (w, .enqueueing ((due.map fun m => (m, enabledDomains w m.tenantId m.id)).filter fun e => !e.2.isEmpty))
  | .enqueueing [], _ => (w, .done)
  | .enqueueing queue, fault =>
    match (queue.take ENQUEUE_CONCURRENCY)[i.pick]? with
    | none => (w, t)
    | some (m, domains) =>
      (if fault.isSome then w else runDeltaSyncTrigger w m domains, .enqueueing (queue.eraseIdx i.pick))

end Tick

section Pass

variable (w : ManagedWorld) (k : ℕ) (p : Pass) (i : PassTurn)

def ManagedWorld.setPass (state : PassState) : ManagedWorld :=
  { w with passes := w.passes.set k { p with state := state } }

def ManagedWorld.setRun (runId : ℕ) (status : RunStatus) : ManagedWorld :=
  { w with runs := w.runs.map fun r => if r.id = runId then { r with status := status } else r }

def startRun : ManagedWorld :=
  { w with
    runs := w.runs ++ [{ id := w.nextRunId, tenantId := p.tenantId, mappingId := p.mappingId
                         orchestratorRef := if i.handle then some k else none, status := .running
                         since := w.db.clock }]
    nextRunId := w.nextRunId + 1 }

/-- A turn of the run-delta-sync run that the orchestrator holds at `k`. One mapping's passes run one at a time; a row for
a mapping or a tenant that is gone is refused. -/
def runDeltaSync : ManagedWorld :=
  match p.state, i.stop, i.fault with
  | .ended _, _, _ => w
  | _, some outcome, _ => w.setPass k p (.ended outcome)
  | .queued, none, _ =>
    if w.passes.any fun q => q.mappingId == p.mappingId && q.state.executing then w else w.setPass k p .begun
  | .begun, none, some _ => w.setPass k p (.returned .failed)
  | .begun, none, none => w.setPass k p (.selected (p.domains.getD (enabledDomains w p.tenantId p.mappingId)))
  | .selected _, none, some _ => w.setPass k p (.returned .failed)
  | .selected domains, none, none =>
    if w.mappings.any (fun m => m.id == p.mappingId) && (w.db.tenants p.tenantId).status.isSome then
      (startRun w k p i).setPass k p (.working w.nextRunId domains)
    else
      w.setPass k p (.returned .failed)
  | .working runId _, none, some _ => w.setPass k p (.finishing runId .failed)
  | .working runId [], none, none => w.setPass k p (.finishing runId .succeeded)
  | .working runId (_ :: domains), none, none => w.setPass k p (.working runId domains)
  | .finishing runId .succeeded, none, some _ => w.setPass k p (.finishing runId .failed)
  | .finishing _ outcome, none, some _ => w.setPass k p (.returned outcome)
  | .finishing runId outcome, none, none => (w.setRun runId outcome.status).setPass k p (.returned outcome)
  | .returned outcome, none, _ =>
    w.setPass k p (if outcome = .failed ∧ i.retry then .queued else .ended outcome)

def orchestrator : ManagedWorld :=
  match w.passes[i.pick]? with
  | none => w
  | some p => runDeltaSync w i.pick p i

end Pass

section Quiesce

inductive OrchestratorVerdict where
  | live
  | finished
  | unknown
  deriving DecidableEq

structure QuiescingRun where
  row : RunRow
  verdict : OrchestratorVerdict

structure StaleRun where
  id : ℕ
  reason : String

structure QuiescePlan where
  landStale : List StaleRun
  cancel : List ℕ
  mayPurge : Bool
  blockedBy : List String
  needsAttention : Bool

def DEFAULT_STALE_AFTER_MS : ℕ := 24 * 60 * 60 * 1000

def RunStatus.name : RunStatus → String
  | queued => "queued"
  | running => "running"
  | succeeded => "succeeded"
  | failed => "failed"
  | cancelled => "cancelled"

/-- What the plan makes of one run: it is landed, or it is cancelled and blocks, or it blocks. -/
inductive QuiesceAnswer where
  | land (stale : StaleRun)
  | cancel (id : ℕ) (blocked : String)
  | block (blocked : String) (attention : Bool)

def finishedReason (r : RunRow) : String :=
  let status := r.status.name
  s!"landed by the erasure quiesce: the row still said {status}, and the orchestrator reports this run is no longer executing."

def staleReason (r : RunRow) : String :=
  let status := r.status.name
  let hours := DEFAULT_STALE_AFTER_MS / 3600000
  s!"landed by the erasure quiesce: no orchestrator handle was recorded and the row has said {status} for over {hours}h, which no live pass does."

def quiesceAnswer (now : Instant) (q : QuiescingRun) : QuiesceAnswer :=
  let id := q.row.id
  let age : ℤ := now - q.row.since
  let minutes := age / 60000
  match q.verdict, q.row.orchestratorRef with
  | .finished, _ => .land ⟨id, finishedReason q.row⟩
  | .live, _ => .cancel id s!"{id}: still executing; cancellation requested"
  | .unknown, some ref => .block s!"{id}: the orchestrator could not be asked about {ref}" true
  | .unknown, none =>
    if DEFAULT_STALE_AFTER_MS ≤ age then .land ⟨id, staleReason q.row⟩
    else .block s!"{id}: no orchestrator handle, and only {minutes}m old" false

def QuiesceAnswer.addTo (plan : QuiescePlan) : QuiesceAnswer → QuiescePlan
  | .land stale => { plan with landStale := stale :: plan.landStale }
  | .cancel id blocked =>
    { plan with cancel := id :: plan.cancel, blockedBy := blocked :: plan.blockedBy, mayPurge := false }
  | .block blocked attention =>
    { plan with
      blockedBy := blocked :: plan.blockedBy
      mayPurge := false
      needsAttention := plan.needsAttention || attention }

def quiescePlan (now : Instant) : List QuiescingRun → QuiescePlan
  | [] => { landStale := [], cancel := [], mayPurge := true, blockedBy := [], needsAttention := false }
  | q :: rest => (quiesceAnswer now q).addTo (quiescePlan now rest)

structure RemoteRun where
  isExecuting : Bool := false
  isQueued : Bool := false
  isCompleted : Bool := false
  isFailed : Bool := false
  isCancelled : Bool := false

def PassState.remote : PassState → RemoteRun
  | .queued => { isQueued := true }
  | .ended .succeeded => { isCompleted := true }
  | .ended .failed => { isCompleted := true, isFailed := true }
  | .ended .cancelled => { isCancelled := true }
  | _ => { isExecuting := true }

/-- What verdictsFor makes of one row: only an answer of the orchestrator decides. -/
def verdictFor (w : ManagedWorld) (reachable : Bool) (r : RunRow) : OrchestratorVerdict :=
  match r.orchestratorRef with
  | none => .unknown
  | some ref =>
    match if reachable then w.passes[ref]? else none with
    | none => .unknown
    | some p =>
      let remote := p.state.remote
      if remote.isExecuting || remote.isQueued then .live
      else if remote.isCompleted || remote.isFailed || remote.isCancelled then .finished
      else .unknown

end Quiesce

/-- What a purge run is doing about the passes of the tenant it is with. -/
inductive Quiescing where
  | idle
  | asking (rows : List (RunRow × Option OrchestratorVerdict))
  | acting (plan : QuiescePlan) (cancel : List ℕ) (land : List StaleRun)

structure QuiescingPurge where
  run : PurgeRun := {}
  quiescing : Quiescing := .idle

section Purge

variable (w : ManagedWorld) (q : QuiescingPurge) (i : PassTurn)

/-- The run's own turn, as it is without its passes. -/
def QuiescingPurge.turn (mayPurge : Bool) (quiescing : Quiescing) : ManagedWorld × QuiescingPurge :=
  let next := managedPurgeClosed w.db q.run { i.toOffboardingTurn with mayPurge := mayPurge }
  ({ w with db := next.1 }, { run := next.2, quiescing := quiescing })

def liveRuns (tenantId : String) : List RunRow := w.runs.filter fun r => r.tenantId == tenantId && r.live

def ManagedWorld.purged (tenantId : String) : ManagedWorld :=
  { w with
    mappings := w.mappings.filter fun m => m.tenantId != tenantId
    scope := w.scope.filter fun s => s.tenantId != tenantId
    runs := w.runs.filter fun r => r.tenantId != tenantId }

/-- A run of managed-purge-closed with its quiescing: the tenant's live rows are read, the orchestrator is asked about
each, the plan is made, its cancellations are requested and its stale rows are landed. -/
def purgeClosed : ManagedWorld × QuiescingPurge :=
  match q.run.state, q.quiescing, i.fault with
  | .next (tenantId :: _), _, none =>
    q.turn w i true (.asking ((liveRuns w tenantId).map fun r => (r, none)))
  | .asking _ _, .asking rows, _ =>
    match rows[i.pick]? with
    | some (r, none) => (w, { q with quiescing := .asking (rows.set i.pick (r, some (verdictFor w i.reachable r))) })
    | _ =>
      match rows.mapM fun e => e.2.map (QuiescingRun.mk e.1) with
      | none => (w, q)
      | some asked =>
        let plan := quiescePlan q.run.now asked
        (w, { q with quiescing := .acting plan plan.cancel plan.landStale })
  | .asking _ _, .acting plan (_ :: cancel) land, _ => (w, { q with quiescing := .acting plan cancel land })
  | .asking _ _, .acting plan [] (stale :: land), none =>
    (w.setRun stale.id .cancelled, { q with quiescing := .acting plan [] land })
  | .asking _ _, .acting plan [] [], none => q.turn w i plan.mayPurge .idle
  | .emptied tenantId _ _ _ _, _, none => q.turn (w.purged tenantId) i true .idle
  | _, _, _ => q.turn w i false .idle

end Purge

inductive Worker where
  | close (c : CloseCall)
  | reopen (r : ReopenCall)
  | tick (t : SyncTick)
  | orchestrator
  | purge (q : QuiescingPurge)

def passStep (nextRun : Cron) (w : ManagedWorld) (l : Worker) (i : PassTurn) : ManagedWorld × Worker :=
  let w := w.tick i
  match l with
  | .close c =>
    let next := closeTenant w.db c i.toOffboardingTurn
    ({ w with db := next.1 }, .close next.2)
  | .reopen r =>
    let next := reopenTenant w.db r i.toOffboardingTurn
    ({ w with db := next.1 }, .reopen next.2)
  | .tick t =>
    let next := managedSyncTick nextRun w t i
    (next.1, .tick next.2)
  | .orchestrator => (orchestrator w i, .orchestrator)
  | .purge q =>
    let next := purgeClosed w q i
    (next.1, .purge next.2)

end OpenMigrate.Offboarding
