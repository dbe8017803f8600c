import OpenMigrate.Async.Turns
import Mathlib.Order.Defs.LinearOrder

namespace OpenMigrate.Schema

variable {Version : Type}

section Source

/-- The migration files of a build, in the order of their names, and whether `runMigrations` opens the pool itself. -/
structure Build (Version : Type) [LinearOrder Version] where
  migrationsDir : String
  versions : List Version
  sorted : versions.Pairwise (· < ·)
  ownsDriver : Bool

/-- The bookkeeping table, the scripts that have taken effect, and the session that has the advisory lock. -/
structure Database (Version : Type) where
  table : Option (List Version)
  scripts : List Version
  lock : Option ℕ

def Database.recorded (db : Database Version) : List Version := db.table.getD []

/-- A session that ends gives its lock up. -/
def Database.hangUp (db : Database Version) (session : ℕ) : Database Version :=
  { db with lock := if db.lock = some session then none else db.lock }

inductive Transaction (Version : Type)
  | none
  | opened (scripts rows : List Version)
  | aborted

def Transaction.spoilt : Transaction Version → Transaction Version
  | none => none
  | _ => aborted

inductive Statement (Version : Type)
  | lock
  | createTable
  | selectVersions
  | begin
  | exec (version : Version)
  | insert (version : Version)
  | commit
  | rollback
  | unlock

inductive Reply (Version : Type)
  | done (db : Database Version) (transaction : Transaction Version)
  | refused (error : String)
  | waits

def abortedText : String := "current transaction is aborted, commands ignored until end of transaction block"

def duplicateText : String := "duplicate key value violates unique constraint"

def answer [DecidableEq Version] (session : ℕ) (db : Database Version) :
    Transaction Version → Statement Version → Reply Version
  | _, .rollback => .done db .none
  | .opened scripts rows, .commit =>
    .done { db with table := some (db.recorded ++ rows), scripts := db.scripts ++ scripts } .none
  | _, .commit => .done db .none
  | .aborted, _ => .refused abortedText
  | transaction, .lock =>
    match db.lock with
    | none => .done { db with lock := some session } transaction
    | some holder => if holder = session then .done db transaction else .waits
  | transaction, .createTable => .done { db with table := some db.recorded } transaction
  | transaction, .selectVersions => .done db transaction
  | .none, .begin => .done db (.opened [] [])
  | transaction, .begin => .done db transaction
  | .none, .exec version => .done { db with scripts := db.scripts ++ [version] } .none
  | .opened scripts rows, .exec version => .done db (.opened (scripts ++ [version]) rows)
  | .none, .insert version =>
    if version ∈ db.recorded then .refused duplicateText
    else .done { db with table := some (db.recorded ++ [version]) } .none
  | .opened scripts rows, .insert version =>
    if version ∈ db.recorded ++ rows then .refused duplicateText
    else .done db (.opened scripts (rows ++ [version]))
  | transaction, .unlock => .done (db.hangUp session) transaction

structure RunMigrationsResult (Version : Type) where
  applied : List Version
  alreadyApplied : List Version
  currentVersion : Option Version

/-- Where the loop over the versions is: what it has read, what it has applied, and what is still to come. -/
structure Progress (Version : Type) where
  alreadyApplied : List Version
  applied : List Version
  rest : List Version

inductive Stage (Version : Type)
  | acquiring
  | locking
  | creating
  | selecting
  | beginning (p : Progress Version) (version : Version)
  | executing (p : Progress Version) (version : Version)
  | inserting (p : Progress Version) (version : Version)
  | committing (p : Progress Version) (version : Version)
  | rollingBack (version : Version) (cause : String)
  | unlocking (result : Except String (RunMigrationsResult Version))
  | returned (result : Except String (RunMigrationsResult Version))
  | dead

def Stage.statement : Stage Version → Option (Statement Version)
  | acquiring | returned _ | dead => none
  | locking => some .lock
  | creating => some .createTable
  | selecting => some .selectVersions
  | beginning _ _ => some .begin
  | executing _ version => some (.exec version)
  | inserting _ version => some (.insert version)
  | committing _ _ => some .commit
  | rollingBack _ _ => some .rollback
  | unlocking _ => some .unlock

variable [LinearOrder Version] [ToString Version]

/-- A call of `runMigrations` in a process of its own, on a session of its own. -/
structure Migrator (Version : Type) [LinearOrder Version] where
  session : ℕ
  build : Build Version
  stage : Stage Version
  connected : Bool := false
  transaction : Transaction Version := .none

def newerText (highestApplied : Version) (highestKnown : Option Version) : String :=
  let known := highestKnown.elim "" toString
  s!"Database schema version {highestApplied} is newer than this build understands " ++
    s!"(highest known: {known}). Refusing to start rather than guess.\n" ++
    "Either this build is older than the database (upgrade the application), or the " ++
    "migration chain was SQUASHED and this database still records the pre-squash " ++
    "filenames — see scripts/squash-migrations.sh. A squash only ever happens " ++
    "pre-release, and the fix for it is to drop and recreate the database; the ledger " ++
    "is a rebuildable cache (ADR-0020), so nothing irreplaceable lives here."

def failedText (version : Version) (cause : String) : String := s!"Migration {version} failed: {cause}"

def Build.highestKnown (build : Build Version) : Option Version := build.versions.getLast?

/-- The next version of the loop, or the end of it. -/
def Progress.next (p : Progress Version) : Stage Version :=
  match p.rest with
  | version :: rest => .beginning { p with rest := rest } version
  | [] => .unlocking (.ok ⟨p.applied, p.alreadyApplied, (p.alreadyApplied ++ p.applied).max?⟩)

/-- What follows on the SELECT: the downgrade guard, and the loop over what is not applied yet. -/
def Build.selected (build : Build Version) (alreadyApplied : List Version) : Stage Version :=
  match alreadyApplied.max? with
  | some highestApplied =>
    if build.highestKnown.any (· < highestApplied) then
      .unlocking (.error (newerText highestApplied build.highestKnown))
    else Progress.next ⟨alreadyApplied, [], build.versions.filter (· ∉ alreadyApplied)⟩
  | none => Progress.next ⟨alreadyApplied, [], build.versions.filter (· ∉ alreadyApplied)⟩

def Migrator.onDone (m : Migrator Version) (db : Database Version) : Stage Version :=
  match m.stage with
  | .acquiring => .locking
  | .locking => .creating
  | .creating => .selecting
  | .selecting => m.build.selected db.recorded
  | .beginning p version => .executing p version
  | .executing p version => .inserting p version
  | .inserting p version => .committing p version
  | .committing p version => { p with applied := p.applied ++ [version] }.next
  | .rollingBack version cause => .unlocking (.error (failedText version cause))
  | .unlocking result => .returned result
  | .returned result => .returned result
  | .dead => .dead

def Migrator.onError (m : Migrator Version) (error : String) : Stage Version :=
  match m.stage with
  | .acquiring | .locking | .unlocking _ => .returned (.error error)
  -- BEGIN stands before the try block of `applyOne`, and a ROLLBACK that raises takes the place of its error.
  | .creating | .selecting | .beginning _ _ | .rollingBack _ _ => .unlocking (.error error)
  | .executing _ version | .inserting _ version | .committing _ version => .rollingBack version error
  | .returned result => .returned result
  | .dead => .dead

/-- What comes of a statement: it runs, it raises, or the connection or the process is gone, before or after the
database has carried it out. -/
inductive Outcome
  | runs
  | raises (error : String)
  | breaks (error : String) (carriedOut : Bool)
  | dies (carriedOut : Bool)

/-- The driver that a call has opened itself is ended when the call returns. -/
def Migrator.arrive (m : Migrator Version) (db : Database Version) (stage : Stage Version) :
    Database Version × Migrator Version :=
  match stage with
  | .returned _ =>
    if m.build.ownsDriver then
      (db.hangUp m.session, { m with stage := stage, connected := false, transaction := .none })
    else (db, { m with stage := stage })
  | _ => (db, { m with stage := stage })

def brokenText : String := "Client has encountered a connection error and is not queryable"

/-- The database once the session of a statement is gone. -/
def lost (session : ℕ) (db : Database Version) (transaction : Transaction Version) (statement : Statement Version) :
    Bool → Database Version
  | true =>
    match answer session db transaction statement with
    | .done db' _ => db'.hangUp session
    | _ => db.hangUp session
  | false => db.hangUp session

def Migrator.send (m : Migrator Version) (db : Database Version) (statement : Statement Version) :
    Outcome → Database Version × Migrator Version
  | .runs =>
    match answer m.session db m.transaction statement with
    | .waits => (db, m)
    | .refused error => { m with transaction := m.transaction.spoilt }.arrive db (m.onError error)
    | .done db' transaction => { m with transaction := transaction }.arrive db' (m.onDone db)
  | .raises error => { m with transaction := m.transaction.spoilt }.arrive db (m.onError error)
  | .breaks error carriedOut =>
    { m with connected := false, transaction := .none }.arrive (lost m.session db m.transaction statement carriedOut)
      (m.onError error)
  | .dies carriedOut =>
    (lost m.session db m.transaction statement carriedOut,
      { m with stage := .dead, connected := false, transaction := .none })

/-- A migrator without a connection hears an error of every statement. -/
def Migrator.sendBroken (m : Migrator Version) (db : Database Version) : Outcome → Database Version × Migrator Version
  | .runs => m.arrive db (m.onError brokenText)
  | .raises error | .breaks error _ => m.arrive db (m.onError error)
  | .dies _ => (db, { m with stage := .dead })

def Migrator.acquire (m : Migrator Version) (db : Database Version) : Outcome → Database Version × Migrator Version
  | .runs => (db, { m with stage := .locking, connected := true, transaction := .none })
  | .raises error | .breaks error _ => (db, { m with stage := .returned (.error error) })
  | .dies _ => (db, { m with stage := .dead })

def step (db : Database Version) (m : Migrator Version) (outcome : Outcome) : Database Version × Migrator Version :=
  match m.stage with
  | .acquiring => m.acquire db outcome
  | .returned _ | .dead => (db, m)
  | _ =>
    match m.stage.statement with
    | some statement => if m.connected then m.send db statement outcome else m.sendBroken db outcome
    | none => (db, m)

def noFilesText (migrationsDir : String) : String := s!"No migration files found in {migrationsDir}"

def Build.start (build : Build Version) (session : ℕ) : Migrator Version :=
  { session := session
    build := build
    stage := if build.versions = [] then .returned (.error (noFilesText build.migrationsDir)) else .acquiring }

def run (builds : List (Build Version)) (db : Database Version) (chs : List (ℕ × Outcome)) :
    List (Migrator Version) × Database Version :=
  Async.turns step (builds.mapIdx fun session build => build.start session, db) chs

end Source

end OpenMigrate.Schema
