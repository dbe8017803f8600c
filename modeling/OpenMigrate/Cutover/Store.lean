import OpenMigrate.Async.Turns
import OpenMigrate.Cutover.State

namespace OpenMigrate.Cutover

inductive DbPhase where
  | verification
  | cutover
  | grace
  | completion
  | rollback
  deriving DecidableEq

structure CutoverRow where
  state : CutoverState
  phase : DbPhase
  verificationStatus : VerificationStatus
  verificationReport : String
  gracePeriodStartedAt : Option Instant
  gracePeriodCompletedAt : Option Instant
  targetMailServer : Option String
  errorMessage : Option String
  errorDetails : Option String
  createdAt : Instant
  updatedAt : Instant

/-- The row and the events of one mapping. `saves` and `writes` are of the model: the states saved, oldest first,
and the number of statements that have written. -/
structure CutoverDb where
  row : Option CutoverRow
  events : List CutoverEvent
  saves : List CutoverState := []
  writes : ℕ := 0

def mapPhaseToDb : CutoverPhase → DbPhase
  | .preparation | .verification => .verification
  | .cutover => .cutover
  | .grace => .grace
  | .completion => .completion
  | .rollback | .error => .rollback

def dbPhaseToPhase : DbPhase → CutoverPhase
  | .verification => .preparation
  | .cutover => .cutover
  | .grace => .grace
  | .completion => .completion
  | .rollback => .rollback

def mapRowToStatus (row : CutoverRow) : CutoverStatus where
  state := row.state
  phase := dbPhaseToPhase row.phase
  startedAt := row.createdAt
  updatedAt := row.updatedAt
  completedAt := row.gracePeriodCompletedAt
  verificationStatus := row.verificationStatus
  verificationReport := some row.verificationReport
  gracePeriodStartedAt := row.gracePeriodStartedAt
  currentState := row.state
  targetMailServer := row.targetMailServer

def loadCutoverState (db : CutoverDb) : Option CutoverStatus := db.row.map mapRowToStatus

def rowOf (status : CutoverStatus) (createdAt now : Instant) : CutoverRow where
  state := status.state
  phase := mapPhaseToDb status.phase
  verificationStatus := status.verificationStatus
  verificationReport := (truthy status.verificationReport).getD "\x7b\x7d"
  gracePeriodStartedAt := status.gracePeriodStartedAt
  gracePeriodCompletedAt := status.gracePeriodCompletedAt
  targetMailServer := status.targetMailServer
  errorMessage := truthy status.errorMessage
  errorDetails := truthy status.errorDetails
  createdAt := createdAt
  updatedAt := now

/-- INSERT … ON CONFLICT DO UPDATE: only the time of creation survives. -/
def saveCutoverState (db : CutoverDb) (status : CutoverStatus) (now : Instant) : CutoverDb :=
  { db with
    row := some (rowOf status ((db.row.map (·.createdAt)).getD now) now)
    saves := db.saves ++ [status.state]
    writes := db.writes + 1 }

def logCutoverEvent (db : CutoverDb) (event : CutoverEvent) : CutoverDb :=
  { db with events := db.events ++ [event], writes := db.writes + 1 }

/-- The object some callers pass: the reasons and the `state` it may carry (a value that is no state is stored as
PREPARING), and what `Object.assign` makes of a status with its other fields. -/
structure Metadata where
  reason : Option String := none
  failureReason : Option String := none
  rollbackReason : Option String := none
  state : Option CutoverState := none
  others : CutoverStatus → CutoverStatus := id

inductive CutoverRequest where
  | transitionState (toState : CutoverState) (metadataOrReason : Option (String ⊕ Metadata))
  | initializeCutover (targetMailServer startedBy : Option String)

/-- Where a call stands: before its load, between its statements, or settled. -/
inductive CallState where
  | start
  | loaded (current : CutoverStatus)
  | logged (current : CutoverStatus) (reason : Option String)
  | absent
  | saved (status : CutoverStatus)
  | settled (result : Except String CutoverStatus)

/-- A call with its variables. `seen` is of the model: the writes up to its load, and its own since. -/
structure CutoverCall where
  request : CutoverRequest
  state : CallState := .start
  seen : ℕ := 0

/-- What one statement meets: the time, and whether it raises. -/
structure Turn where
  now : Instant
  fault : Option String

def Metadata.reasonText (m : Metadata) : Option String :=
  (truthy m.reason).or ((truthy m.failureReason).or m.rollbackReason)

def reasonOf : Option (String ⊕ Metadata) → Option String
  | some (.inl reason) => some reason
  | some (.inr metadata) => metadata.reasonText
  | none => none

def assignOf (metadataOrReason : Option (String ⊕ Metadata)) (status : CutoverStatus) : CutoverStatus :=
  match metadataOrReason with
  | some (.inr metadata) => { metadata.others status with state := metadata.state.getD status.state }
  | _ => status

def invalidTransition (source target : CutoverState) (metadataOrReason : Option (String ⊕ Metadata)) : String :=
  let reason := match metadataOrReason with
    | some (.inl reason) => reason
    | _ => "No reason provided"
  s!"Invalid transition from {source.name} to {target.name}. Reason: {reason}"

def transitionEvent (current : CutoverStatus) (toState : CutoverState)
    (metadataOrReason : Option (String ⊕ Metadata)) (now : Instant) : CutoverEvent where
  timestamp := now
  fromState := some current.state
  toState := toState
  triggeredBy := match metadataOrReason with
    | some (.inl _) => "system"
    | _ => "cli"
  reason := reasonOf metadataOrReason
  eventType := .stateTransition
  description :=
    match truthy (reasonOf metadataOrReason) with
    | some reason => s!"Transitioned from {current.state.name} to {toState.name}: {reason}"
    | none => s!"Transitioned from {current.state.name} to {toState.name}"

def initialStatus (targetMailServer startedBy : Option String) (now : Instant) : CutoverStatus where
  state := .preparing
  phase := .preparation
  startedAt := now
  updatedAt := now
  currentState := .preparing
  targetMailServer := targetMailServer
  startedBy := startedBy

def initEvent (status : CutoverStatus) : CutoverEvent where
  timestamp := status.startedAt
  fromState := none
  toState := .preparing
  triggeredBy := (truthy status.startedBy).getD "system"
  reason := none
  eventType := .cutoverInitialized
  description := "Cutover initialized"

section Steps

variable (mappingId : String) (db : CutoverDb) (c : CutoverCall) (i : Turn)

def settle (result : Except String CutoverStatus) : CutoverDb × CutoverCall := (db, { c with state := .settled result })

/-- The validated transition is logged first and saved by the next statement. -/
def logTransition (current : CutoverStatus) (toState : CutoverState)
    (metadataOrReason : Option (String ⊕ Metadata)) : CutoverDb × CutoverCall :=
  if !isValidTransition current.state toState then
    settle db c (.error (invalidTransition current.state toState metadataOrReason))
  else
    match i.fault with
    | some reason => settle db c (.error reason)
    | none =>
      (logCutoverEvent db (transitionEvent current toState metadataOrReason i.now),
        { c with state := .logged current (reasonOf metadataOrReason), seen := c.seen + 1 })

def saveTransition (current : CutoverStatus) (reason : Option String) (toState : CutoverState)
    (metadataOrReason : Option (String ⊕ Metadata)) : CutoverDb × CutoverCall :=
  match updateCutoverStatus current toState reason i.now, i.fault with
  | .error reason, _ => settle db c (.error reason)
  | .ok _, some reason => settle db c (.error reason)
  | .ok updated, none =>
    (saveCutoverState db (assignOf metadataOrReason updated) i.now,
      { c with state := .settled (.ok (assignOf metadataOrReason updated)), seen := c.seen + 1 })

def transitionState (toState : CutoverState) (metadataOrReason : Option (String ⊕ Metadata)) :
    CutoverDb × CutoverCall :=
  match c.state with
  | .start =>
    match i.fault, loadCutoverState db with
    | some reason, _ => settle db c (.error reason)
    | none, none => settle db c (.error s!"No cutover state found for mapping {mappingId}")
    | none, some current => (db, { c with state := .loaded current, seen := db.writes })
  | .loaded current => logTransition db c i current toState metadataOrReason
  | .logged current reason => saveTransition db c i current reason toState metadataOrReason
  | _ => (db, c)

def initializeCutover (targetMailServer startedBy : Option String) : CutoverDb × CutoverCall :=
  match c.state with
  | .start =>
    match i.fault, loadCutoverState db with
    | some reason, _ => settle db c (.error reason)
    | none, some existing => settle db c (.ok existing)
    | none, none => (db, { c with state := .absent, seen := db.writes })
  | .absent =>
    let status := initialStatus targetMailServer startedBy i.now
    match i.fault with
    | some reason => settle db c (.error reason)
    | none => (saveCutoverState db status i.now, { c with state := .saved status, seen := c.seen + 1 })
  | .saved status =>
    match i.fault with
    | some reason => settle db c (.error reason)
    | none =>
      (logCutoverEvent db (initEvent status), { c with state := .settled (.ok status), seen := c.seen + 1 })
  | _ => (db, c)

def cutoverStep : CutoverDb × CutoverCall :=
  match c.request with
  | .transitionState toState metadataOrReason => transitionState mappingId db c i toState metadataOrReason
  | .initializeCutover targetMailServer startedBy => initializeCutover db c i targetMailServer startedBy

end Steps

end OpenMigrate.Cutover
