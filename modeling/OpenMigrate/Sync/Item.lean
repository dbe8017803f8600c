import OpenMigrate.Sync.World
import OpenMigrate.Sync.Classify

namespace OpenMigrate

open Async

def ABORT_AFTER_CONSECUTIVE_FAILURES : ℕ := 25

variable {T : TargetApi} {Item Folder Raw : Type} (d : DomainSyncDeps T Item Folder Raw)

/-- Where a listed item stands in its pass. -/
structure Place where
  folder : ℕ
  index : ℕ
  collectionId : String
  collectionPath : String

/-- Ends an item with an outcome that is not a failure. -/
def settle (at_ : Place) (f : PassVars → PassVars) : Task T Unit :=
  Task.modify fun v => { f v with handled := (at_.folder, at_.index) :: v.handled }

def failureOf (key : String) (known : LedgerRecord) : ItemFailure where
  domain := d.scope.domain
  naturalKeyHash := key
  attempts := known.attemptCount.getD MAX_ITEM_ATTEMPTS
  lastError := known.lastError.getD "(no error recorded)"
  needsDecision := true

def park (key : String) (known : LedgerRecord) : Task T Unit :=
  Task.modify fun v =>
    { v with needsDecision := v.needsDecision + 1, failures := v.failures ++ [failureOf d key known] }

def failureRecord (key ch : String) : LedgerRecord where
  tenantId := d.scope.tenantId
  itemType := d.scope.domain
  mappingId := d.scope.mappingId
  naturalKeyHash := key
  contentHash := ch
  targetId := ""
  sizeBytes := some 0
  status := some .failed

/-- The catch clause of the per-item boundary. -/
def itemFailed (naturalKeyHash : Option String) (ch : String) : PassError → Task T Unit
  | .passAbort message => .fail (.passAbort message)
  | .error reason =>
    (Task.modify fun v =>
      { v with failed := v.failed + 1, consecutiveFailures := v.consecutiveFailures + 1 }).bind fun _ =>
    match naturalKeyHash with
    | none =>
      Task.vars.bind fun v =>
      if ABORT_AFTER_CONSECUTIVE_FAILURES ≤ v.consecutiveFailures then
        .fail (.passAbort (s!"{d.scope.domain.name}: {v.consecutiveFailures} items failed in a row. " ++
          s!"Last error: {reason}"))
      else .ret ()
    | some key =>
      (Task.ledger (.recordFailure (failureRecord d key ch) reason)).bind fun row =>
      let attempts := row.attemptCount.getD 1
      let parked := decide (MAX_ITEM_ATTEMPTS ≤ attempts)
      (Task.modify fun v =>
        { v with
          needsDecision := if parked then v.needsDecision + 1 else v.needsDecision
          failures := v.failures ++ [⟨d.scope.domain, key, attempts, reason, parked⟩] }).bind fun _ =>
      Task.vars.bind fun v =>
      if ABORT_AFTER_CONSECUTIVE_FAILURES ≤ v.consecutiveFailures then
        .fail (.passAbort (s!"{d.scope.domain.name}: {v.consecutiveFailures} items failed in a row, " ++
          "so this is not an item-level problem — the pass is stopping instead of failing every " ++
          s!"remaining item the same way. Last error: {reason}"))
      else .ret ()

def outcomeRecord (at_ : Place) (item : Item) (key ch : String) (sizeBytes : ℕ) (result : UpsertResult) :
    LedgerRecord where
  tenantId := d.scope.tenantId
  itemType := d.scope.domain
  mappingId := d.scope.mappingId
  naturalKeyHash := key
  contentHash := ch
  targetId := result.targetId
  sizeBytes := some sizeBytes
  status := some (if result.created then .copied else if result.adopted then .adopted else .updated)
  sourceVersion := d.sourceVersion item
  targetVersion := result.targetVersion
  sourceRef := d.sourceRef item
  collection := some at_.collectionPath

def countOutcome (at_ : Place) (key ch : String) (rewriting : Bool) (result : UpsertResult) (v : PassVars) :
    PassVars :=
  if rewriting then { v with updated := v.updated + 1 }
  else if result.created then
    { v with
      created := v.created + 1
      createdThisPass := v.createdThisPass ++ [⟨key, ch, at_.collectionPath⟩] }
  else if result.adopted then { v with adopted := v.adopted + 1 }
  else { v with skipped := v.skipped + 1 }

def collisionMessage (domain : Domain) : String :=
  s!"Collision on the destination for a {domain.name} item, and onCollision is 'fail': " ++
    "the target already holds an item under this natural key. Re-run with " ++
    "onCollision: 'skip' to keep the destination's copy."

/-- From the writer's answer to the end of the item. -/
def recordOutcome (at_ : Place) (item : Item) (key ch : String) (sizeBytes : ℕ) (hasExistingRow : Bool)
    (rewriteOf : Option LedgerRecord) (result : UpsertResult) : Task T Unit :=
  if result.conflicted then
    (Task.modify fun v => { v with conflicted := v.conflicted + 1 }).bind fun _ =>
    match rewriteOf with
    | some row =>
      (Task.ledger (.recordUpdate { row with status := some .adopted, targetId := result.targetId })).bind
        fun _ => settle at_ id
    | none =>
      .fail (.error ("recordUpdate found no undefined row for naturalKeyHash undefined. " ++
        "This method never inserts — a caller that decided an item changed must already have " ++
        "recorded copying it."))
  else
    let row := outcomeRecord d at_ item key ch sizeBytes result
    (if hasExistingRow then Task.ledger (.recordUpdate row) else Task.ledger (.recordIfAbsent row)).bind
      fun _ =>
    (settle at_ fun v =>
      { countOutcome at_ key ch rewriteOf.isSome result v with consecutiveFailures := 0 }).bind fun _ =>
    if !rewriteOf.isSome && !result.created && result.adopted && d.onCollision == .fail then
      .fail (.passAbort (collisionMessage d.scope.domain))
    else .ret ()

def upsertOptions (at_ : Place) (item : Item) (rewriteOf : Option LedgerRecord) : UpsertOptions where
  overwrite := rewriteOf.isSome
  expectedTargetVersion := rewriteOf.bind (·.targetVersion)
  sourceVersion := d.sourceVersion item
  collection := some at_.collectionPath
  sourceRef := d.sourceRef item

def writeItem (at_ : Place) (item : Item) (key : String) (hasExistingRow : Bool)
    (rewriteOf : Option LedgerRecord) (fetched : Raw × ℕ) : Task T Unit :=
  let ch := d.contentHash fetched.1
  ((d.upsert at_.collectionId fetched.1 item (upsertOptions d at_ item rewriteOf)).bind
    (recordOutcome d at_ item key ch fetched.2 hasExistingRow rewriteOf)).tryWith
      (itemFailed d (some key) ch) .ret

def fetchAndWrite (at_ : Place) (item : Item) (key : String) (hasExistingRow : Bool)
    (rewriteOf : Option LedgerRecord) : Task T Unit :=
  (Prog.ofExcept (d.fetchRaw item)).tryWith (itemFailed d (some key) "")
    (writeItem d at_ item key hasExistingRow rewriteOf)

/-- What a known item is owed once any recorded move that is over has been cleared. -/
def settleKnown (at_ : Place) (item : Item) (key : String) (known : LedgerRecord) :
    KnownItemAction → Task T Unit
  | .skip | .moved => settle at_ fun v => { v with skipped := v.skipped + 1 }
  | .recordVersion =>
    (Task.ledger (.recordUpdate { known with sourceVersion := d.sourceVersion item })).bind fun _ =>
    settle at_ fun v => { v with skipped := v.skipped + 1 }
  | .leaveAdopted => settle at_ fun v => { v with changedButAdopted := v.changedButAdopted + 1 }
  | .leftBehind => settle at_ fun v => { v with leftBehind := v.leftBehind + 1 }
  | .tombstoned =>
    settle at_ fun v => { v with reappearedAfterRemoval := v.reappearedAfterRemoval + 1 }
  | .needsDecision => park d key known
  | .retryFailed | .relocatedAway => fetchAndWrite d at_ item key true none
  | .rewrite => fetchAndWrite d at_ item key true (some known)

def reportMove (at_ : Place) (key : String) (known : LedgerRecord) : Task T Unit :=
  if decided known at_.collectionPath none then settle at_ id
  else
    (Task.ledger (.recordMove d.scope key at_.collectionPath none)).bind fun _ =>
    settle at_ fun v =>
      { v with
        moved := v.moved + 1
        moves := v.moves ++ [⟨d.scope.domain, key, known.collection.getD "", at_.collectionPath, none, none, none⟩] }

def onKnown (at_ : Place) (item : Item) (key : String) (known : LedgerRecord) : Task T Unit :=
  (if known.absentPasses.getD 0 ≠ 0 ∨ known.deletionReportedAt ≠ none ∨ known.deletionTrashedAt ≠ none then
    Task.ledger (.clearAbsent d.scope key) else .ret ()).bind fun _ =>
  match classifyKnownItem known (d.sourceVersion item) (some at_.collectionPath) with
  | .moved => reportMove d at_ key known
  | action =>
    (if known.movedToCollection ≠ none then Task.ledger (.clearMove d.scope key) else .ret ()).bind fun _ =>
    settleKnown d at_ item key known action

def syncKeyed (at_ : Place) (item : Item) (key : String) : Task T Unit :=
  (Task.ledger (.find d.scope key)).bind fun
    | some known => onKnown d at_ item key known
    | none => fetchAndWrite d at_ item key false none

def deriveKey (item : Item) (raw : Raw) : Except PassError String :=
  match d.naturalKeyFromRaw with
  | none =>
    .error (.error (s!"naturalKey returned undefined for a {d.scope.domain.name} item but no " ++
      "naturalKeyFromRaw was supplied; refusing to write an item with no idempotency anchor."))
  | some f => f item raw

def onKnownAfterFetch (at_ : Place) (item : Item) (key : String) (known : LedgerRecord) (fetched : Raw × ℕ) :
    Task T Unit :=
  match classifyKnownItem known none (some at_.collectionPath) with
  | .leftBehind => settle at_ fun v => { v with leftBehind := v.leftBehind + 1 }
  | .tombstoned =>
    settle at_ fun v => { v with reappearedAfterRemoval := v.reappearedAfterRemoval + 1 }
  | .needsDecision => park d key known
  | .retryFailed | .relocatedAway => writeItem d at_ item key true none fetched
  | _ => settle at_ fun v => { v with skipped := v.skipped + 1 }

def see (at_ : Place) (key : String) (v : PassVars) : PassVars :=
  { v with seenByCollection := v.seenByCollection ++ [(at_.collectionPath, key)] }

def lookupDerived (at_ : Place) (key : String) : Task T (Option LedgerRecord) :=
  (Task.modify (see at_ key)).bind fun _ => Task.ledger (.find d.scope key)

def syncDerived (at_ : Place) (item : Item) : Task T Unit :=
  (Prog.ofExcept (d.fetchRaw item)).tryWith (itemFailed d none "") fun fetched =>
  (Prog.ofExcept (deriveKey d item fetched.1)).tryWith (itemFailed d none "") fun key =>
  (lookupDerived d at_ key).tryWith (itemFailed d (some key) "") fun
    | some known => onKnownAfterFetch d at_ item key known fetched
    | none => writeItem d at_ item key false none fetched

/-- The worker `runDomainSync` maps over the items of a folder. -/
def syncItem (at_ : Place) (item : Item) : Task T Unit :=
  match d.naturalKey item with
  | some key =>
    (Task.modify fun v => see at_ key { v with scanned := v.scanned + 1 }).bind fun _ =>
    syncKeyed d at_ item key
  | none =>
    (Task.modify fun v => { v with scanned := v.scanned + 1 }).bind fun _ => syncDerived d at_ item

end OpenMigrate
