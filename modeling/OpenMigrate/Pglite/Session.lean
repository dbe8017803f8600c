import OpenMigrate.Async.Transactional
import OpenMigrate.Async.Turns

namespace OpenMigrate.Pglite

open Async

variable {Rows Op Value α : Type} {Answer : Op → Type}

section Source

inductive Setting
  | currentTenant
  | currentUser
  | currentEmail
  deriving DecidableEq

/-- What the policies see of the session that a statement runs on. -/
structure Context where
  role : Option String
  settings : Setting → String
  rowSecurity : Bool

def Context.set (context : Context) (setting : Setting) (value : String) : Context :=
  { context with settings := fun s => if s = setting then value else context.settings s }

inductive Transaction (Rows : Type)
  | none
  | opened (rows : Rows) (context : Context)
  | aborted

def Transaction.spoilt : Transaction Rows → Transaction Rows
  | none => none
  | _ => aborted

/-- The one session of the database, and the rows that are committed. -/
structure Session (Rows : Type) where
  rows : Rows
  transaction : Transaction Rows
  settings : Setting → String
  rowSecurity : Bool

def Session.context (session : Session Rows) : Context := ⟨none, session.settings, session.rowSecurity⟩

inductive Command
  | rowSecurityOn
  | begin
  | setLocalRole (role : String)
  | setConfig (setting : Setting) (value : String)
  | commit
  | rollback
  | reset

def abortedText : String := "current transaction is aborted, commands ignored until end of transaction block"

def Session.execute (session : Session Rows) : Command → Except String (Session Rows × Unit)
  | .rollback => .ok ({ session with transaction := .none }, ())
  | .reset =>
    .ok ({ session with
      transaction := .none
      settings := fun s => if s = .currentTenant then "" else session.settings s }, ())
  | .commit =>
    match session.transaction with
    | .opened rows context =>
      .ok ({ session with rows := rows, transaction := .none, rowSecurity := context.rowSecurity }, ())
    -- The COMMIT of a failed transaction is its ROLLBACK, and no error.
    | _ => .ok ({ session with transaction := .none }, ())
  | command =>
    match session.transaction, command with
    | .aborted, _ => .error abortedText
    | .none, .rowSecurityOn => .ok ({ session with rowSecurity := true }, ())
    | .none, .begin => .ok ({ session with transaction := .opened session.rows session.context }, ())
    | .none, _ => .ok (session, ())
    | .opened rows context, .rowSecurityOn =>
      .ok ({ session with transaction := .opened rows { context with rowSecurity := true } }, ())
    | .opened rows context, .setLocalRole role =>
      .ok ({ session with transaction := .opened rows { context with role := some role } }, ())
    | .opened rows context, .setConfig setting value =>
      .ok ({ session with transaction := .opened rows (context.set setting value) }, ())
    | .opened _ _, _ => .ok (session, ())

def Session.query (perform : Context → (op : Op) → Rows → Except String (Rows × Answer op)) (session : Session Rows)
    (op : Op) : Except String (Session Rows × Answer op) :=
  match session.transaction with
  | .aborted => .error abortedText
  | .opened rows context =>
    (perform context op rows).map fun done => ({ session with transaction := .opened done.1 context }, done.2)
  | .none => (perform session.context op session.rows).map fun done => ({ session with rows := done.1 }, done.2)

def Session.spoilt (session : Session Rows) : Session Rows := { session with transaction := session.transaction.spoilt }

/-- What comes of a statement: it runs, the database refuses it, or it raises without that. -/
inductive Outcome
  | runs
  | refused (error : String)
  | unsent (error : String)
  | unheard (error : String)

def Session.hears (session : Session Rows) (statement : Except String (Session Rows × α)) :
    Outcome → Session Rows × Except String α
  | .runs =>
    match statement with
    | .ok (session', answer) => (session', .ok answer)
    | .error error => (session.spoilt, .error error)
  | .refused error => (session.spoilt, .error error)
  | .unsent error => (session, .error error)
  | .unheard error =>
    match statement with
    | .ok (session', _) => (session', .error error)
    | .error error => (session.spoilt, .error error)

/-- A call of `withTenant` or one of its siblings: what it sets before `fn`, and `fn`. -/
structure TenantCall (Op : Type) (Answer : Op → Type) (Value : Type) where
  settings : List (Setting × String)
  fn : Prog Op Answer String Value

def withTenant (tenantId : String) (fn : Prog Op Answer String Value) : TenantCall Op Answer Value :=
  ⟨[(.currentTenant, tenantId)], fn⟩

def withSubjectAndTenant (userId tenantId : String) (fn : Prog Op Answer String Value) : TenantCall Op Answer Value :=
  ⟨[(.currentUser, userId), (.currentTenant, tenantId)], fn⟩

def withSubject (userId : String) (verifiedEmail : Option String) (fn : Prog Op Answer String Value) :
    TenantCall Op Answer Value :=
  ⟨(.currentUser, userId) :: (verifiedEmail.map fun email => (.currentEmail, email)).toList, fn⟩

/-- The driver: whether its database is open, the gate of each `acquire` so far, and whether it has been released. -/
structure Driver (Rows : Type) where
  role : Option String
  opening : Option (Except String Unit)
  gates : List Bool
  session : Session Rows

inductive Stage (Op : Type) (Answer : Op → Type) (Value : Type)
  | opening
  | waiting
  | asserting
  | beginning
  | settingRole (role : String)
  | setting (setting : Setting) (value : String) (rest : List (Setting × String))
  | working (op : Op) (k : Except String (Answer op) → Prog Op Answer String Value)
  | committing (value : Value)
  | rollingBack (error : String)
  | resetting (result : Except String Value)
  | returned (result : Except String Value)

structure Caller (Op : Type) (Answer : Op → Type) (Value : Type) where
  call : TenantCall Op Answer Value
  ticket : Option ℕ := none
  stage : Stage Op Answer Value := .opening

def work : Prog Op Answer String Value → Stage Op Answer Value
  | .ret value => .committing value
  | .fail error => .rollingBack error
  | .call op k => .working op k

def TenantCall.set (call : TenantCall Op Answer Value) : List (Setting × String) → Stage Op Answer Value
  | [] => work call.fn
  | (setting, value) :: rest => .setting setting value rest

/-- Behind the BEGIN: the role, if the driver has one, and then the settings. -/
def TenantCall.begun (call : TenantCall Op Answer Value) : Option String → Stage Op Answer Value
  | some role => .settingRole role
  | none => call.set call.settings

def Driver.openGate (driver : Driver Rows) (ticket : Option ℕ) : Driver Rows :=
  { driver with gates := ticket.elim driver.gates fun t => driver.gates.set t true }

/-- The gate of the `acquire` before this one. -/
def Driver.previous (driver : Driver Rows) : Option ℕ → Bool
  | some 0 => true
  | some (t + 1) => driver.gates[t]? = some true
  | none => false

def takeTicket (driver : Driver Rows) (caller : Caller Op Answer Value) : Driver Rows × Caller Op Answer Value :=
  ({ driver with gates := driver.gates ++ [false] },
    { caller with ticket := some driver.gates.length, stage := .waiting })

def openDriver (driver : Driver Rows) (caller : Caller Op Answer Value) (outcome : Outcome) :
    Driver Rows × Caller Op Answer Value :=
  match driver.opening, outcome with
  | some (.ok _), _ => takeTicket driver caller
  | some (.error error), _ => (driver, { caller with stage := .returned (.error error) })
  | none, .runs => takeTicket { driver with opening := some (.ok ()) } caller
  | none, .refused error | none, .unsent error | none, .unheard error =>
    ({ driver with opening := some (.error error) }, { caller with stage := .returned (.error error) })

/-- A statement of the wrapper itself: `next` follows on it, or the ROLLBACK. -/
def sends (driver : Driver Rows) (caller : Caller Op Answer Value) (command : Command) (outcome : Outcome)
    (next : Stage Op Answer Value) : Driver Rows × Caller Op Answer Value :=
  match driver.session.hears (driver.session.execute command) outcome with
  | (session, .ok _) => ({ driver with session := session }, { caller with stage := next })
  | (session, .error error) => ({ driver with session := session }, { caller with stage := .rollingBack error })

def step (perform : Context → (op : Op) → Rows → Except String (Rows × Answer op)) (driver : Driver Rows)
    (caller : Caller Op Answer Value) (outcome : Outcome) : Driver Rows × Caller Op Answer Value :=
  match caller.stage with
  | .opening => openDriver driver caller outcome
  | .waiting => (driver, if driver.previous caller.ticket then { caller with stage := .asserting } else caller)
  | .asserting =>
    match driver.session.hears (driver.session.execute .rowSecurityOn) outcome with
    | (session, .ok _) => ({ driver with session := session }, { caller with stage := .beginning })
    -- `acquire` rejects here with its own gate still shut.
    | (session, .error error) => ({ driver with session := session }, { caller with stage := .returned (.error error) })
  | .beginning => sends driver caller .begin outcome (caller.call.begun driver.role)
  | .settingRole role => sends driver caller (.setLocalRole role) outcome (caller.call.set caller.call.settings)
  | .setting setting value rest => sends driver caller (.setConfig setting value) outcome (caller.call.set rest)
  | .working op k =>
    match driver.session.hears (driver.session.query perform op) outcome with
    | (session, answer) => ({ driver with session := session }, { caller with stage := work (k answer) })
  | .committing value =>
    match driver.session.hears (driver.session.execute .commit) outcome with
    | (session, .ok _) =>
      ({ driver with session := session }.openGate caller.ticket, { caller with stage := .returned (.ok value) })
    | (session, .error error) => ({ driver with session := session }, { caller with stage := .rollingBack error })
  | .rollingBack error =>
    match driver.session.hears (driver.session.execute .rollback) outcome with
    | (session, .ok _) =>
      ({ driver with session := session }.openGate caller.ticket, { caller with stage := .returned (.error error) })
    | (session, .error _) => ({ driver with session := session }, { caller with stage := .resetting (.error error) })
  -- The caller has its result already; the gate opens whatever comes of the reset.
  | .resetting result =>
    match driver.session.hears (driver.session.execute .reset) outcome with
    | (session, _) =>
      ({ driver with session := session }.openGate caller.ticket, { caller with stage := .returned result })
  | .returned _ => (driver, caller)

/-- A database that has just been opened, by a process that has applied its migrations or not. -/
def pgliteDriver (role : Option String) (rows : Rows) (rowSecurity : Bool) : Driver Rows :=
  ⟨role, none, [], ⟨rows, .none, fun _ => "", rowSecurity⟩⟩

def run (perform : Context → (op : Op) → Rows → Except String (Rows × Answer op)) (driver : Driver Rows)
    (calls : List (TenantCall Op Answer Value)) (chs : List (ℕ × Outcome)) :
    List (Caller Op Answer Value) × Driver Rows :=
  turns (step perform) (calls.map fun call => { call := call }, driver) chs

end Source

end OpenMigrate.Pglite
