import OpenMigrate.Async.Emits
import OpenMigrate.Ledger.Effect

namespace OpenMigrate

open Async

/-- What the loop needs to know of a target: its state, a writer's own memory, and its requests. -/
structure TargetApi where
  State : Type
  Session : Type
  Cmd : Type
  Resp : Cmd → Type
  Inp : Type
  Act : Type
  exec : (c : Cmd) → Inp → State × Session → Except String (Resp c) × (State × Session)
  act : Act → State → State
  fresh : Session

inductive PassError where
  | passAbort (message : String)
  | error (message : String)

structure CreatedItem where
  naturalKeyHash : String
  contentHash : String
  collection : String
  deriving DecidableEq

inductive Stage where
  | listing
  | folder (n : ℕ)
  | resolved
  deriving DecidableEq

/-- The variables of one pass. `stage` and `handled` are of the model: how far the pass has come,
and the listed items (by folder and position) that reached an outcome other than failure. -/
structure PassVars where
  scanned : ℕ := 0
  created : ℕ := 0
  skipped : ℕ := 0
  adopted : ℕ := 0
  failed : ℕ := 0
  updated : ℕ := 0
  needsDecision : ℕ := 0
  leftBehind : ℕ := 0
  reappearedAfterRemoval : ℕ := 0
  failures : List ItemFailure := []
  consecutiveFailures : ℕ := 0
  changedButAdopted : ℕ := 0
  moved : ℕ := 0
  conflicted : ℕ := 0
  moves : List ItemMove := []
  deletions : List ItemDeletion := []
  drift : ℕ := 0
  unplaceableDiscards : Option (ℕ × Option String) := none
  reportedRemovals : List String := []
  seenByCollection : List (String × String) := []
  createdThisPass : List CreatedItem := []
  fullyEnumerated : Bool := true
  stage : Stage := .listing
  handled : List (ℕ × ℕ) := []

structure CursorKey where
  tenantId : String
  mappingId : String
  folderPath : String
  deriving DecidableEq

abbrev CursorStore := AList (fun _ : CursorKey => String)

inductive Cmd (T : TargetApi) where
  | ledger (op : LedgerOp)
  | target (c : T.Cmd)
  | cursorGet (key : CursorKey)
  | cursorSet (key : CursorKey) (value : String)
  | modify (f : PassVars → PassVars)
  | vars

namespace Cmd

variable {T : TargetApi}

abbrev Resp : Cmd T → Type
  | ledger op => op.Resp
  | target c => T.Resp c
  | cursorGet _ => Option String
  | cursorSet .. => Unit
  | modify _ => Unit
  | vars => PassVars

end Cmd

structure Store (T : TargetApi) where
  ledger : Ledger
  cursors : CursorStore
  target : T.State

structure PassState (T : TargetApi) where
  vars : PassVars
  session : T.Session

abbrev World (T : TargetApi) := Store T × PassState T

/-- What one step meets: the time, whether the database answers at all, and the target's mood. -/
structure Input (T : TargetApi) where
  now : Instant
  fault : Option String
  target : T.Inp

variable {T : TargetApi}

def PassState.fresh (T : TargetApi) : PassState T := ⟨{}, T.fresh⟩

abbrev Task (T : TargetApi) (α : Type) := Prog (Cmd T) Cmd.Resp PassError α

abbrev MainTask (T : TargetApi) (α : Type) := Main (Cmd T) Cmd.Resp PassError α

namespace World

def row (w : World T) (key : ItemKey) : Option ItemRow := w.1.ledger.lookup key

def vars (w : World T) : PassVars := w.2.vars

def cursor (w : World T) (key : CursorKey) : Option String := w.1.cursors.lookup key

/-- A database statement: carried out, or raised as an exception with nothing done. -/
def query {α : Type} (i : Input T) (w : World T) (r : Except PassError α × World T) :
    Except PassError α × World T :=
  match i.fault with
  | some reason => (.error (.error reason), w)
  | none => r

def exec (i : Input T) (w : World T) : (c : Cmd T) → Except PassError c.Resp × World T
  | .ledger op =>
    let r := PgLedger.exec w.1.ledger i.now op
    query i w (r.1.mapError .error, ({ w.1 with ledger := r.2 }, w.2))
  | .target c =>
    let r := T.exec c i.target (w.1.target, w.2.session)
    (r.1.mapError .error, ({ w.1 with target := r.2.1 }, { w.2 with session := r.2.2 }))
  | .cursorGet key => query i w (.ok (w.cursor key), w)
  | .cursorSet key value => query i w (.ok (), ({ w.1 with cursors := w.1.cursors.insert key value }, w.2))
  | .modify f => (.ok (), (w.1, { w.2 with vars := f w.2.vars }))
  | .vars => (.ok w.2.vars, w)

end World

/-- What is true of every answer, whatever the state: a row comes back under the key it was asked for. -/
def Cmd.Hears : (c : Cmd T) → Except PassError c.Resp → Prop
  | .ledger (.find scope key), .ok (some r) => r.scope = scope ∧ r.naturalKeyHash = key
  | .ledger (.findBySourceRef scope _), .ok (some r) => r.scope = scope
  | _, _ => True

theorem exec_hears (i : Input T) (w : World T) (c : Cmd T) : c.Hears (w.exec i c).1 := by
  cases c with
  | target | cursorGet | cursorSet | modify | vars => simp [Cmd.Hears]
  | ledger op =>
    cases hf : i.fault with
    | some reason => cases op <;> simp [World.exec, World.query, hf, Cmd.Hears]
    | none =>
      cases op with
      | find scope key =>
        cases hr : PgLedger.find w.1.ledger scope key with
        | none => simp [World.exec, World.query, PgLedger.exec, Except.mapError, hf, hr, Cmd.Hears]
        | some r =>
          have hscope := PgLedger.find_eq_some w.1.ledger hr
          simpa [World.exec, World.query, PgLedger.exec, Except.mapError, hf, hr, Cmd.Hears] using hscope
      | findBySourceRef scope ref =>
        cases hr : PgLedger.findBySourceRef w.1.ledger scope ref with
        | none => simp [World.exec, World.query, PgLedger.exec, Except.mapError, hf, hr, Cmd.Hears]
        | some r =>
          have hscope := PgLedger.findBySourceRef_scope w.1.ledger hr
          simpa [World.exec, World.query, PgLedger.exec, Except.mapError, hf, hr, Cmd.Hears] using hscope
      | _ => simp [Cmd.Hears]

def machine (T : TargetApi) : Machine (World T) (Cmd T) Cmd.Resp PassError (Input T) T.Act where
  exec c i w := w.exec i c
  act a w := ({ w.1 with target := T.act a w.1.target }, w.2)

namespace Task

def ledger (op : LedgerOp) : Task T op.Resp := Prog.perform (Cmd.ledger op)

def target (c : T.Cmd) : Task T (T.Resp c) := Prog.perform (Cmd.target c)

def cursorGet (key : CursorKey) : Task T (Option String) := Prog.perform (Cmd.cursorGet key)

def cursorSet (key : CursorKey) (value : String) : Task T Unit := Prog.perform (Cmd.cursorSet key value)

def modify (f : PassVars → PassVars) : Task T Unit := Prog.perform (Cmd.modify f)

def vars : Task T PassVars := Prog.perform Cmd.vars

end Task

structure UpsertResult where
  targetId : String
  created : Bool
  adopted : Bool := false
  targetVersion : Option String := none
  conflicted : Bool := false
  updated : Bool := false
  deriving DecidableEq

structure UpsertOptions where
  overwrite : Bool := false
  expectedTargetVersion : Option String := none
  sourceVersion : Option String := none
  collection : Option String := none
  sourceRef : Option String := none
  deriving DecidableEq

inductive RemovalKind where
  | binned
  | deleted
  deriving DecidableEq

structure RemovalResult where
  kind : Option RemovalKind := none
  conflicted : Bool := false
  deriving DecidableEq

structure Listing (Item : Type) where
  items : List Item
  nextCursor : String
  removed : List String := []

structure DiscardedListing where
  keys : List String
  unnameable : ℕ
  reason : Option String := none

inductive CollisionPolicy where
  | skip
  | fail
  deriving DecidableEq

class FolderLike (Folder : Type) where
  path : Folder → Option String
  name : Folder → Option String

/-- A target writer asks the ledger for rows and records what it wrote, with what the loop told it. -/
def writerVocabulary (scope : Scope) (options : UpsertOptions) (keys : String → Prop) :
    Vocabulary (Cmd T) Cmd.Resp PassError where
  asks
    | .ledger (.find ..) => True
    | .ledger (.recordIfAbsent r) =>
      r.scope = scope ∧ (r.status = none ∨ r.status = some .adopted) ∧
        r.sourceVersion = options.sourceVersion ∧ r.collection = options.collection ∧ keys r.naturalKeyHash
    | .target _ => True
    | _ => False
  hears := Cmd.Hears

/-- A bin scan reads the source and moves its own cursors. -/
def scanVocabulary (scope : Scope) : Vocabulary (Cmd T) Cmd.Resp PassError where
  asks
    | .cursorGet _ => True
    | .cursorSet key _ => key.tenantId = scope.tenantId ∧ key.mappingId = scope.mappingId
    | _ => False
  hears := Cmd.Hears

/-- A removal or a presence check only talks to the target. -/
def targetVocabulary : Vocabulary (Cmd T) Cmd.Resp PassError where
  asks
    | .target _ => True
    | _ => False
  hears := Cmd.Hears

structure DomainSyncDeps (T : TargetApi) (Item Folder Raw : Type) where
  scope : Scope
  cursors : Bool
  concurrency : ℕ
  listFolders : Except PassError (List Folder)
  listSince : Folder → Option String → Except PassError (Listing Item)
  fetchRaw : Item → Except PassError (Raw × ℕ)
  upsert : String → Raw → Item → UpsertOptions → Task T UpsertResult
  sourceVersion : Item → Option String
  sourceRef : Item → Option String
  naturalKey : Item → Option String
  listCollectionKeys : Option (Folder → Except PassError (List String))
  listDiscardedKeys : Option (Task T DiscardedListing)
  naturalKeyFromRaw : Option (Item → Raw → Except PassError String)
  contentHash : Raw → String
  onCollision : CollisionPolicy
  ensureCollection : Folder → Except PassError String
  upsert_asks : ∀ id raw item options,
    Emits (writerVocabulary scope options fun _ => True) (upsert id raw item options) (fun _ => True)
  listDiscardedKeys_asks : ∀ p ∈ listDiscardedKeys, Emits (scanVocabulary scope) p (fun _ => True)

def DEFAULT_CONCURRENCY : ℕ := 4

def applyTargetFolderPrefix (folder : Option String) (path : String) : String :=
  match truthy folder with
  | none => path
  | some f => if path = "" then f else f ++ "/" ++ path

end OpenMigrate
