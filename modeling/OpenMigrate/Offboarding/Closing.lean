import Mathlib.Logic.Function.Basic
import OpenMigrate.Async.Turns
import OpenMigrate.Ledger.Record

namespace OpenMigrate.Offboarding

inductive TenantStatus where
  | active
  | suspended
  | closed
  | deleting
  deriving DecidableEq

structure Closure where
  closedAt : Instant
  purgeAfter : Instant
  closedBy : String
  deriving DecidableEq

/-- A tenant's rows as they are committed, and whether a transaction holds a lock on them. -/
structure TenantRows where
  status : Option TenantStatus := none
  statusLocked : Bool := false
  closure : Option Closure := none
  closureLocked : Bool := false
  deriving DecidableEq

/-- `erased` is of the model: the tenants erased, and whether each was due when it was marked. -/
structure OffboardingDb where
  clock : Instant
  ids : List String
  tenants : String → TenantRows
  erased : List (String × Bool) := []

inductive CloseState where
  | start
  | begun (now : Instant)
  | statusSet (now : Instant)
  | dated (now : Instant)
  | done (result : Except String Closure)

structure CloseCall where
  tenantId : String
  windowDays : ℕ
  closedBy : String
  state : CloseState := .start

inductive ReopenState where
  | start
  | begun (now : Instant)
  | undated
  | activated (wasClosed : Bool)
  | done (result : Except String Unit)

structure ReopenCall where
  tenantId : String
  state : ReopenState := .start

/-- Where a run of the purge stands: between tenants, or with one of them, the rest still on its list. -/
inductive PurgeState where
  | start
  | next (queue : List String)
  | asking (tenantId : String) (rest : List String)
  | quiesced (tenantId : String) (rest : List String)
  | revoked (tenantId : String) (rest : List String)
  | marked (tenantId : String) (rest : List String) (held due : Bool)
  | emptied (tenantId : String) (rest : List String) (held closureHeld due : Bool)
  | done

structure PurgeRun where
  now : Instant := 0
  state : PurgeState := .start

/-- What one turn meets: the time since the last one, whether its statement raises, and the plan's verdict. -/
structure OffboardingTurn where
  elapsed : ℕ
  fault : Option String := none
  mayPurge : Bool := true

inductive Call where
  | close (c : CloseCall)
  | reopen (r : ReopenCall)
  | purge (p : PurgeRun)

def DAY_MS : ℕ := 24 * 60 * 60 * 1000

def OffboardingDb.set (db : OffboardingDb) (tenantId : String) (rows : TenantRows) : OffboardingDb :=
  { db with tenants := Function.update db.tenants tenantId rows }

def OffboardingDb.tick (db : OffboardingDb) (i : OffboardingTurn) : OffboardingDb :=
  { db with clock := db.clock + i.elapsed }

section Close

variable (db : OffboardingDb) (c : CloseCall) (i : OffboardingTurn)

def CloseCall.closure (now : Instant) : Closure where
  closedAt := now
  purgeAfter := now + c.windowDays * DAY_MS
  closedBy := c.closedBy

def CloseCall.fail (message : String) : CloseCall := { c with state := .done (.error message) }

def cannotClose (tenantId : String) : String :=
  s!"Cannot close tenant {tenantId}: it does not exist, or its purge has already started."

/-- The transaction of a close: the status first, with its guard, then the dates, then the record and the commit. A
statement on a row that another transaction holds waits. -/
def closeTenant : OffboardingDb × CloseCall :=
  let rows := db.tenants c.tenantId
  match c.state, i.fault with
  | .done _, _ => (db, c)
  | .start, _ => (db, { c with state := .begun db.clock })
  | .begun _, some reason => (db, c.fail reason)
  | .begun now, none =>
    if rows.status = none ∨ rows.status = some .deleting then (db, c.fail (cannotClose c.tenantId))
    else if rows.statusLocked then (db, c)
    else (db.set c.tenantId { rows with statusLocked := true }, { c with state := .statusSet now })
  | .statusSet _, some reason => (db.set c.tenantId { rows with statusLocked := false }, c.fail reason)
  | .statusSet now, none =>
    if rows.closureLocked then (db, c)
    else (db.set c.tenantId { rows with closureLocked := true }, { c with state := .dated now })
  | .dated _, some reason =>
    (db.set c.tenantId { rows with statusLocked := false, closureLocked := false }, c.fail reason)
  | .dated now, none =>
    (db.set c.tenantId
        { status := some .closed, statusLocked := false, closure := some (c.closure now), closureLocked := false },
      { c with state := .done (.ok (c.closure now)) })

end Close

section Reopen

variable (db : OffboardingDb) (r : ReopenCall) (i : OffboardingTurn)

def ReopenCall.fail (message : String) : ReopenCall := { r with state := .done (.error message) }

def cannotReopen (tenantId : String) : String :=
  s!"Cannot reopen tenant {tenantId}: it is not closed, or its purge window has already passed."

/-- The transaction of a reopen: the dates go first, if the window is open, then the status, if it is closed. -/
def reopenTenant : OffboardingDb × ReopenCall :=
  let rows := db.tenants r.tenantId
  match r.state, i.fault with
  | .done _, _ => (db, r)
  | .start, _ => (db, { r with state := .begun db.clock })
  | .begun _, some reason => (db, r.fail reason)
  | .begun now, none =>
    if rows.closure.any fun closure => now < closure.purgeAfter then
      if rows.closureLocked then (db, r)
      else (db.set r.tenantId { rows with closureLocked := true }, { r with state := .undated })
    else (db, r.fail (cannotReopen r.tenantId))
  | .undated, some reason => (db.set r.tenantId { rows with closureLocked := false }, r.fail reason)
  | .undated, none =>
    if rows.status = some .closed then
      if rows.statusLocked then (db, r)
      else (db.set r.tenantId { rows with statusLocked := true }, { r with state := .activated true })
    else (db, { r with state := .activated false })
  | .activated wasClosed, some reason =>
    (db.set r.tenantId { rows with statusLocked := rows.statusLocked && !wasClosed, closureLocked := false },
      r.fail reason)
  | .activated wasClosed, none =>
    (db.set r.tenantId
        { status := if wasClosed then some .active else rows.status
          statusLocked := rows.statusLocked && !wasClosed
          closure := none
          closureLocked := false },
      { r with state := .done (.ok ()) })

end Reopen

section Purge

variable (db : OffboardingDb) (p : PurgeRun) (i : OffboardingTurn)

def TenantRows.due (rows : TenantRows) (now : Instant) : Bool :=
  rows.status == some .closed && rows.closure.any fun closure => closure.purgeAfter ≤ now

def PurgeRun.goOn (state : PurgeState) : PurgeRun := { p with state := state }

/-- A run of managed-purge-closed: the due tenants are read once; for each one its passes are quiesced, its credentials
revoked, and in a transaction of its own it is marked, emptied and deleted. -/
def managedPurgeClosed : OffboardingDb × PurgeRun :=
  match p.state, i.fault with
  | .done, _ => (db, p)
  | .start, some _ => (db, p.goOn .done)
  | .start, none =>
    (db, { now := db.clock, state := .next (db.ids.filter fun id => (db.tenants id).due db.clock) })
  | .next [], _ => (db, p.goOn .done)
  | .next (_ :: _), some _ => (db, p.goOn .done)
  | .next (tenantId :: rest), none => (db, p.goOn (.asking tenantId rest))
  | .asking _ _, some _ => (db, p.goOn .done)
  | .asking tenantId rest, none => (db, p.goOn (if i.mayPurge then .quiesced tenantId rest else .next rest))
  | .quiesced _ rest, some _ => (db, p.goOn (.next rest))
  | .quiesced tenantId rest, none => (db, p.goOn (.revoked tenantId rest))
  | .revoked _ rest, some _ => (db, p.goOn (.next rest))
  | .revoked tenantId rest, none =>
    let rows := db.tenants tenantId
    if rows.status = none then (db, p.goOn (.marked tenantId rest false true))
    else if rows.statusLocked then (db, p)
    else
      (db.set tenantId { rows with statusLocked := true }, p.goOn (.marked tenantId rest true (rows.due db.clock)))
  | .marked tenantId rest held _, some _ =>
    let rows := db.tenants tenantId
    (db.set tenantId { rows with statusLocked := rows.statusLocked && !held }, p.goOn (.next rest))
  | .marked tenantId rest held due, none =>
    let rows := db.tenants tenantId
    if rows.closure = none then (db, p.goOn (.emptied tenantId rest held false due))
    else if rows.closureLocked then (db, p)
    else
      (db.set tenantId { rows with closureLocked := true }, p.goOn (.emptied tenantId rest held true due))
  | .emptied tenantId rest held closureHeld _, some _ =>
    let rows := db.tenants tenantId
    (db.set tenantId
        { rows with
          statusLocked := rows.statusLocked && !held
          closureLocked := rows.closureLocked && !closureHeld },
      p.goOn (.next rest))
  | .emptied tenantId rest held _ due, none =>
    if held then
      ({ db.set tenantId {} with erased := db.erased ++ [(tenantId, due)] }, p.goOn (.next rest))
    else
      (db, p.goOn (.next rest))

end Purge

def callStep (db : OffboardingDb) (c : Call) (i : OffboardingTurn) : OffboardingDb × Call :=
  match c with
  | .close c => ((closeTenant (db.tick i) c i).1, .close (closeTenant (db.tick i) c i).2)
  | .reopen r => ((reopenTenant (db.tick i) r i).1, .reopen (reopenTenant (db.tick i) r i).2)
  | .purge p => ((managedPurgeClosed (db.tick i) p i).1, .purge (managedPurgeClosed (db.tick i) p i).2)

end OpenMigrate.Offboarding
