import OpenMigrate.Ledger.Record

namespace OpenMigrate.Cutover

inductive CutoverState where
  | preparing
  | readyForCutover
  | approved
  | cutoverInProgress
  | gracePeriod
  | completed
  | rolledBack
  | failed
  deriving DecidableEq

def CutoverState.name : CutoverState → String
  | preparing => "PREPARING"
  | readyForCutover => "READY_FOR_CUTOVER"
  | approved => "APPROVED"
  | cutoverInProgress => "CUTOVER_IN_PROGRESS"
  | gracePeriod => "GRACE_PERIOD"
  | completed => "COMPLETED"
  | rolledBack => "ROLLED_BACK"
  | failed => "FAILED"

inductive CutoverPhase where
  | preparation
  | verification
  | cutover
  | grace
  | completion
  | rollback
  | error
  deriving DecidableEq

inductive VerificationStatus where
  | pending
  | pass
  | warn
  | fail
  deriving DecidableEq

structure CutoverStatus where
  state : CutoverState
  phase : CutoverPhase
  startedAt : Instant
  updatedAt : Instant
  completedAt : Option Instant := none
  verificationStatus : VerificationStatus := .pending
  verificationReport : Option String := none
  gracePeriodStartedAt : Option Instant := none
  gracePeriodCompletedAt : Option Instant := none
  errorMessage : Option String := none
  errorDetails : Option String := none
  rollbackAvailable : Bool := false
  rollbackReason : Option String := none
  currentState : CutoverState
  targetMailServer : Option String := none
  startedBy : Option String := none
  rolledBackAt : Option Instant := none
  failedAt : Option Instant := none
  failureReason : Option String := none

inductive EventType where
  | cutoverInitialized
  | stateTransition
  deriving DecidableEq

structure CutoverEvent where
  timestamp : Instant
  fromState : Option CutoverState
  toState : CutoverState
  triggeredBy : String
  reason : Option String
  eventType : EventType
  description : String
  deriving DecidableEq

def VALID_TRANSITIONS : CutoverState → List CutoverState
  | .preparing => [.readyForCutover, .failed]
  | .readyForCutover => [.approved, .preparing, .failed]
  | .approved => [.cutoverInProgress, .readyForCutover, .failed, .rolledBack]
  | .cutoverInProgress => [.gracePeriod, .failed, .rolledBack]
  | .gracePeriod => [.completed, .rolledBack, .failed]
  | .completed => []
  | .rolledBack => []
  | .failed => [.preparing, .rolledBack]

def getStatePhase : CutoverState → CutoverPhase
  | .preparing => .preparation
  | .readyForCutover => .verification
  | .approved => .verification
  | .cutoverInProgress => .cutover
  | .gracePeriod => .grace
  | .completed => .completion
  | .rolledBack => .rollback
  | .failed => .error

def isValidTransition (source target : CutoverState) : Bool := (VALID_TRANSITIONS source).contains target

def canRollback (state : CutoverState) : Bool := state == .cutoverInProgress || state == .gracePeriod

def updateCutoverStatus (status : CutoverStatus) (newState : CutoverState) (reason : Option String) (now : Instant) :
    Except String CutoverStatus :=
  if !isValidTransition status.state newState then
    .error s!"Invalid state transition from {status.state.name} to {newState.name}"
  else
    .ok { status with
      state := newState
      currentState := newState
      phase := getStatePhase newState
      updatedAt := now
      rollbackAvailable := canRollback newState
      completedAt := if newState = .completed then some now else status.completedAt
      errorMessage := if (truthy reason).isSome then none else status.errorMessage
      errorDetails := if (truthy reason).isSome then none else status.errorDetails
      failedAt := if newState = .failed then some now else status.failedAt
      failureReason := if newState = .failed then reason else status.failureReason
      rolledBackAt := if newState = .rolledBack then some now else status.rolledBackAt
      rollbackReason := if newState = .rolledBack then reason else status.rollbackReason }

end OpenMigrate.Cutover
