import OpenMigrate.Ledger.Record
import Mathlib.Data.List.Sort

namespace OpenMigrate

inductive LedgerOp where
  | find (scope : Scope) (naturalKeyHash : String)
  | findBySourceRef (scope : Scope) (sourceRef : String)
  | recordIfAbsent (record : LedgerRecord)
  | recordUpdate (record : LedgerRecord)
  | recordFailure (record : LedgerRecord) (error : String)
  | placedItems (scope : Scope)
  | recordMove (scope : Scope) (naturalKeyHash toCollection : String) (toNaturalKeyHash : Option String)
  | clearMove (scope : Scope) (naturalKeyHash : String)
  | listMoves (scope : Scope)
  | recordAbsent (scope : Scope) (naturalKeyHash : String)
  | recordReportedDeletion (scope : Scope) (naturalKeyHash : String)
  | recordTrashedDeletion (scope : Scope) (naturalKeyHash : String)
  | clearAbsent (scope : Scope) (naturalKeyHash : String)
  | listDeletions (scope : Scope)
  | applyDeletion (scope : Scope) (naturalKeyHash : String)
  | applyRelocation (scope : Scope) (naturalKeyHash : String)

namespace LedgerOp

abbrev Resp : LedgerOp → Type
  | find .. => Option LedgerRecord
  | findBySourceRef .. => Option LedgerRecord
  | recordIfAbsent .. => LedgerRecord
  | recordUpdate .. => LedgerRecord
  | recordFailure .. => LedgerRecord
  | placedItems .. => List PlacedItem
  | recordMove .. => Unit
  | clearMove .. => Unit
  | listMoves .. => List ItemMove
  | recordAbsent .. => ℕ
  | recordReportedDeletion .. => Bool
  | recordTrashedDeletion .. => Bool
  | clearAbsent .. => Unit
  | listDeletions .. => List ItemDeletion
  | applyDeletion .. => Bool
  | applyRelocation .. => Bool

end LedgerOp

namespace PgLedger

variable (L : Ledger)

def row? (scope : Scope) (naturalKeyHash : String) : Option ItemRow :=
  (L.lookup (scope.key naturalKeyHash)).filter (·.domain == scope.domain)

/-- The rows of one mapping's domain, in table order. -/
def rows (scope : Scope) : List (String × ItemRow) :=
  L.entries.filterMap fun e =>
    if e.1.tenantId = scope.tenantId ∧ e.1.mappingId = scope.mappingId ∧ e.2.domain = scope.domain then
      some (e.1.naturalKeyHash, e.2)
    else none

/-- One `UPDATE item SET … WHERE …` of a single row: the row it leaves, when it hits one. -/
def update (scope : Scope) (naturalKeyHash : String) (where_ : ItemRow → Bool) (set : ItemRow → ItemRow) :
    Option ItemRow × Ledger :=
  match (row? L scope naturalKeyHash).filter where_ with
  | some row => (some (set row), L.replace (scope.key naturalKeyHash) (set row))
  | none => (none, L)

def find (scope : Scope) (naturalKeyHash : String) : Option LedgerRecord :=
  (row? L scope naturalKeyHash).map (·.mapRowToRecord (scope.key naturalKeyHash))

def findBySourceRef (scope : Scope) (sourceRef : String) : Option LedgerRecord :=
  if sourceRef = "" then none
  else ((rows L scope).find? (fun e => e.2.sourceRefHref == some sourceRef)).map
    (fun e => e.2.mapRowToRecord (scope.key e.1))

def insertValues (record : LedgerRecord) : ItemRow where
  domain := record.itemType
  collection := record.collection.getD ""
  contentHash := record.contentHash
  sizeBytes := record.sizeBytes
  status := record.status.getD .copied
  targetRef := record.targetId
  sourceVersion := record.sourceVersion
  targetVersion := record.targetVersion
  sourceRefHref := record.sourceRef

def recordIfAbsent (record : LedgerRecord) : Except String LedgerRecord × Ledger :=
  match L.lookup record.key with
  | none => (.ok ((insertValues record).mapRowToRecord record.key), L.insert record.key (insertValues record))
  | some _ =>
    match find L record.scope record.naturalKeyHash with
    | some existing => (.ok existing, L)
    | none => (.error s!"Failed to insert or find record with naturalKeyHash: {record.naturalKeyHash}", L)

def updateValues (record : LedgerRecord) (row : ItemRow) : ItemRow :=
  { row with
    contentHash := record.contentHash
    sizeBytes := record.sizeBytes
    status := record.status.getD .updated
    targetRef := record.targetId
    sourceVersion := record.sourceVersion
    targetVersion := record.targetVersion.or row.targetVersion
    collection := record.collection.getD row.collection
    sourceRefHref := record.sourceRef.or row.sourceRefHref }

def recordUpdate (record : LedgerRecord) : Except String LedgerRecord × Ledger :=
  match update L record.scope record.naturalKeyHash (fun _ => true) (updateValues record) with
  | (some row, L') => (.ok (row.mapRowToRecord record.key), L')
  | (none, L') =>
    (.error (s!"recordUpdate found no {record.itemType.name} row for naturalKeyHash " ++
      s!"{record.naturalKeyHash}. This method never inserts — a caller that " ++
      "decided an item changed must already have recorded copying it."), L')

def bump (error : String) (row : ItemRow) : ItemRow :=
  { row with status := .failed, attemptCount := row.attemptCount + 1, lastError := some error }

def failureValues (record : LedgerRecord) (error : String) : ItemRow :=
  { insertValues record with
    status := .failed, targetVersion := none, sourceRefHref := none, attemptCount := 1, lastError := some error }

def recordFailure (record : LedgerRecord) (error : String) : Except String LedgerRecord × Ledger :=
  match update L record.scope record.naturalKeyHash (fun _ => true) (bump error) with
  | (some row, L') => (.ok (row.mapRowToRecord record.key), L')
  | (none, L') =>
    match L'.lookup record.key with
    | none =>
      (.ok ((failureValues record error).mapRowToRecord record.key),
        L'.insert record.key (failureValues record error))
    | some _ =>
      (.error (s!"recordFailure could neither insert nor update the {record.itemType.name} row for " ++
        s!"naturalKeyHash {record.naturalKeyHash}"), L')

def placed (row : ItemRow) : Bool :=
  row.status != .failed && row.status != .leftBehind && row.collection != ""

def placedItems (scope : Scope) : List PlacedItem :=
  ((rows L scope).filter (fun e => placed e.2)).map fun e =>
    { naturalKeyHash := e.1
      contentHash := e.2.contentHash
      collection := e.2.collection
      movedToCollection := truthy e.2.movedToCollection
      movedToNaturalKeyHash := truthy e.2.movedToNaturalKeyHash
      moveAcknowledgedAt := e.2.moveAcknowledgedAt
      absentPasses := e.2.absentPasses
      deletionAcknowledgedAt := e.2.deletionAcknowledgedAt
      deletionAppliedAt := e.2.deletionAppliedAt }

def moveValues (now : Instant) (toCollection : String) (toKey : Option String) (row : ItemRow) : ItemRow :=
  let changed := row.movedToCollection != some toCollection || row.movedToNaturalKeyHash != toKey
  { row with
    movedToCollection := some toCollection
    movedToNaturalKeyHash := toKey
    moveAcknowledgedAt := if changed then none else row.moveAcknowledgedAt
    movedRecordedAt := if changed then some now else row.movedRecordedAt.or (some now) }

def clearMoveValues (row : ItemRow) : ItemRow :=
  { row with
    movedToCollection := none, movedToNaturalKeyHash := none, movedRecordedAt := none
    moveAcknowledgedAt := none }

/-- `ORDER BY move_acknowledged_at ASC NULLS FIRST, natural_key_hash ASC` -/
def movesOrder (e e' : String × ItemRow) : Prop :=
  match e.2.moveAcknowledgedAt, e'.2.moveAcknowledgedAt with
  | none, none => e.1 ≤ e'.1
  | none, some _ => True
  | some _, none => False
  | some t, some t' => t < t' ∨ t = t' ∧ e.1 ≤ e'.1

instance : DecidableRel movesOrder := fun e e' => by
  unfold movesOrder
  split <;> infer_instance

def listMoves (scope : Scope) : List ItemMove :=
  (((rows L scope).filter (fun e => e.2.movedToCollection.isSome)).insertionSort movesOrder).map fun e =>
    { domain := e.2.domain
      naturalKeyHash := e.1
      origin := e.2.collection
      destination := e.2.movedToCollection.getD ""
      toNaturalKeyHash := truthy e.2.movedToNaturalKeyHash
      recordedAt := e.2.movedRecordedAt
      acknowledgedAt := e.2.moveAcknowledgedAt }

def absentValues (row : ItemRow) : ItemRow := { row with absentPasses := row.absentPasses + 1 }

def recordAbsent (scope : Scope) (naturalKeyHash : String) : ℕ × Ledger :=
  let r := update L scope naturalKeyHash (fun _ => true) absentValues
  ((r.1.map (·.absentPasses)).getD 0, r.2)

/-- Marks a row unless it is marked; the answer is whether there is such a row at all. -/
def recordDeletion (marked : ItemRow → Bool) (mark : ItemRow → ItemRow) (scope : Scope)
    (naturalKeyHash : String) : Bool × Ledger :=
  match update L scope naturalKeyHash (fun row => !marked row) mark with
  | (some _, L') => (true, L')
  | (none, L') => ((row? L' scope naturalKeyHash).isSome, L')

def recordReportedDeletion (now : Instant) : Scope → String → Bool × Ledger :=
  recordDeletion L (·.deletionReportedAt.isSome) ({ · with deletionReportedAt := some now })

def recordTrashedDeletion (now : Instant) : Scope → String → Bool × Ledger :=
  recordDeletion L (·.deletionTrashedAt.isSome) ({ · with deletionTrashedAt := some now })

def hasAbsence (row : ItemRow) : Bool :=
  0 < row.absentPasses || row.deletionReportedAt.isSome || row.deletionTrashedAt.isSome ||
    row.deletionAcknowledgedAt.isSome

def clearAbsentValues (row : ItemRow) : ItemRow :=
  { row with
    absentPasses := 0, deletionReportedAt := none, deletionTrashedAt := none
    deletionAcknowledgedAt := none }

def evidence (row : ItemRow) : Evidence :=
  if row.deletionReportedAt.isSome then .reported
  else if row.deletionTrashedAt.isSome then .trashed
  else .inferred

def listDeletions (scope : Scope) : List ItemDeletion :=
  ((rows L scope).filter
    (fun e => 0 < e.2.absentPasses || e.2.deletionReportedAt.isSome || e.2.deletionTrashedAt.isSome)).map
    fun e =>
    { domain := e.2.domain
      naturalKeyHash := e.1
      collection := e.2.collection
      absentPasses := e.2.absentPasses
      confirmed := e.2.deletionReportedAt.isSome || e.2.deletionTrashedAt.isSome ||
        decide (DELETION_CONFIRMATIONS ≤ e.2.absentPasses)
      evidence := evidence e.2
      acknowledgedAt := e.2.deletionAcknowledgedAt }

def ours (row : ItemRow) : Bool := row.status == .copied || row.status == .updated

def deletable (row : ItemRow) : Bool :=
  (row.deletionReportedAt.isSome || row.deletionTrashedAt.isSome) && row.deletionAppliedAt.isNone && ours row

def applyDeletionValues (now : Instant) (row : ItemRow) : ItemRow :=
  { row with status := .tombstoned, deletionAppliedAt := some now, deletionAcknowledgedAt := some now }

def arrived (scope : Scope) (naturalKeyHash : String) (row : ItemRow) : Bool :=
  (rows L scope).any fun e =>
    row.movedToNaturalKeyHash == some e.1 && e.1 != naturalKeyHash && ours e.2 && e.2.contentHash != "" &&
      e.2.contentHash == row.contentHash

def relocatable (scope : Scope) (naturalKeyHash : String) (row : ItemRow) : Bool :=
  row.movedToNaturalKeyHash.isSome && row.deletionAppliedAt.isNone && row.moveAcknowledgedAt.isNone &&
    ours row && arrived L scope naturalKeyHash row

def applyRelocationValues (now : Instant) (row : ItemRow) : ItemRow :=
  { row with
    status := .tombstoned
    deletionAppliedAt := some now
    moveAcknowledgedAt := some now
    deletionAcknowledgedAt :=
      if row.deletionReportedAt.isSome || row.deletionTrashedAt.isSome || decide (0 < row.absentPasses) then
        some now
      else row.deletionAcknowledgedAt }

def exec (now : Instant) : (op : LedgerOp) → Except String op.Resp × Ledger
  | .find scope key => (.ok (find L scope key), L)
  | .findBySourceRef scope sourceRef => (.ok (findBySourceRef L scope sourceRef), L)
  | .recordIfAbsent record => recordIfAbsent L record
  | .recordUpdate record => recordUpdate L record
  | .recordFailure record error => recordFailure L record error
  | .placedItems scope => (.ok (placedItems L scope), L)
  | .recordMove scope key dest toKey =>
    (.ok (), (update L scope key (fun _ => true) (moveValues now dest toKey)).2)
  | .clearMove scope key => (.ok (), (update L scope key (fun _ => true) clearMoveValues).2)
  | .listMoves scope => (.ok (listMoves L scope), L)
  | .recordAbsent scope key => let r := recordAbsent L scope key; (.ok r.1, r.2)
  | .recordReportedDeletion scope key => let r := recordReportedDeletion L now scope key; (.ok r.1, r.2)
  | .recordTrashedDeletion scope key => let r := recordTrashedDeletion L now scope key; (.ok r.1, r.2)
  | .clearAbsent scope key => (.ok (), (update L scope key hasAbsence clearAbsentValues).2)
  | .listDeletions scope => (.ok (listDeletions L scope), L)
  | .applyDeletion scope key =>
    let r := update L scope key deletable (applyDeletionValues now)
    (.ok r.1.isSome, r.2)
  | .applyRelocation scope key =>
    let r := update L scope key (relocatable L scope key) (applyRelocationValues now)
    (.ok r.1.isSome, r.2)

end PgLedger

end OpenMigrate
