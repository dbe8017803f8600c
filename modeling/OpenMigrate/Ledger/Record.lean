import Mathlib.Data.List.AList
import Mathlib.Data.Nat.Notation

namespace OpenMigrate

inductive Domain where
  | email
  | calendar
  | contact
  | file
  deriving DecidableEq

def Domain.name : Domain → String
  | email => "email"
  | calendar => "calendar"
  | contact => "contact"
  | file => "file"

inductive ItemStatus where
  | pending
  | copied
  | updated
  | adopted
  | skipped
  | failed
  | leftBehind
  | deletedSource
  | tombstoned
  deriving DecidableEq

def ItemStatus.name : ItemStatus → String
  | pending => "pending"
  | copied => "copied"
  | updated => "updated"
  | adopted => "adopted"
  | skipped => "skipped"
  | failed => "failed"
  | leftBehind => "left_behind"
  | deletedSource => "deleted_source"
  | tombstoned => "tombstoned"

abbrev Instant := ℕ

def MAX_ITEM_ATTEMPTS : ℕ := 5

def DELETION_CONFIRMATIONS : ℕ := 2

def isOnTarget (status : Option ItemStatus) : Bool :=
  status != some .failed && status != some .leftBehind && status != some .tombstoned

/-- An optional string as a TypeScript condition reads it: the empty one is absent. -/
def truthy (s : Option String) : Option String := s.filter (· != "")

structure Scope where
  tenantId : String
  mappingId : String
  domain : Domain
  deriving DecidableEq

structure LedgerRecord where
  tenantId : String
  mappingId : String
  itemType : Domain
  naturalKeyHash : String
  contentHash : String
  targetId : String
  sizeBytes : Option ℕ := none
  status : Option ItemStatus := none
  collection : Option String := none
  sourceVersion : Option String := none
  targetVersion : Option String := none
  sourceRef : Option String := none
  movedToCollection : Option String := none
  movedToNaturalKeyHash : Option String := none
  movedRecordedAt : Option Instant := none
  moveAcknowledgedAt : Option Instant := none
  absentPasses : Option ℕ := none
  deletionReportedAt : Option Instant := none
  deletionTrashedAt : Option Instant := none
  deletionAcknowledgedAt : Option Instant := none
  deletionAppliedAt : Option Instant := none
  attemptCount : Option ℕ := none
  lastError : Option String := none

structure ItemKey where
  tenantId : String
  mappingId : String
  naturalKeyHash : String
  deriving DecidableEq

/-- The columns of the `item` table beside its unique key. -/
structure ItemRow where
  domain : Domain
  collection : String
  contentHash : String
  sizeBytes : Option ℕ
  status : ItemStatus
  targetRef : String
  sourceVersion : Option String
  targetVersion : Option String
  sourceRefHref : Option String
  movedToCollection : Option String := none
  movedToNaturalKeyHash : Option String := none
  movedRecordedAt : Option Instant := none
  moveAcknowledgedAt : Option Instant := none
  absentPasses : ℕ := 0
  deletionReportedAt : Option Instant := none
  deletionTrashedAt : Option Instant := none
  deletionAcknowledgedAt : Option Instant := none
  deletionAppliedAt : Option Instant := none
  attemptCount : ℕ := 0
  lastError : Option String := none

def ItemRow.mapRowToRecord (key : ItemKey) (row : ItemRow) : LedgerRecord where
  tenantId := key.tenantId
  mappingId := key.mappingId
  itemType := row.domain
  naturalKeyHash := key.naturalKeyHash
  contentHash := row.contentHash
  targetId := row.targetRef
  sizeBytes := row.sizeBytes
  status := some row.status
  collection := truthy (some row.collection)
  sourceVersion := row.sourceVersion
  targetVersion := row.targetVersion
  sourceRef := truthy row.sourceRefHref
  movedToCollection := truthy row.movedToCollection
  movedToNaturalKeyHash := truthy row.movedToNaturalKeyHash
  movedRecordedAt := row.movedRecordedAt
  moveAcknowledgedAt := row.moveAcknowledgedAt
  absentPasses := some row.absentPasses
  deletionReportedAt := row.deletionReportedAt
  deletionTrashedAt := row.deletionTrashedAt
  deletionAcknowledgedAt := row.deletionAcknowledgedAt
  deletionAppliedAt := row.deletionAppliedAt
  attemptCount := some row.attemptCount
  lastError := row.lastError

def Scope.key (scope : Scope) (naturalKeyHash : String) : ItemKey :=
  ⟨scope.tenantId, scope.mappingId, naturalKeyHash⟩

def LedgerRecord.key (r : LedgerRecord) : ItemKey := ⟨r.tenantId, r.mappingId, r.naturalKeyHash⟩

def LedgerRecord.scope (r : LedgerRecord) : Scope := ⟨r.tenantId, r.mappingId, r.itemType⟩

/-- The `item` table; its unique index is the nodup field of the association list. -/
abbrev Ledger := AList (fun _ : ItemKey => ItemRow)

structure PlacedItem where
  naturalKeyHash : String
  contentHash : String
  collection : String
  movedToCollection : Option String
  movedToNaturalKeyHash : Option String
  moveAcknowledgedAt : Option Instant
  absentPasses : ℕ
  deletionAcknowledgedAt : Option Instant
  deletionAppliedAt : Option Instant
  deriving DecidableEq

structure ItemFailure where
  domain : Domain
  naturalKeyHash : String
  attempts : ℕ
  lastError : String
  needsDecision : Bool
  deriving DecidableEq

structure ItemMove where
  domain : Domain
  naturalKeyHash : String
  origin : String
  destination : String
  toNaturalKeyHash : Option String := none
  recordedAt : Option Instant := none
  acknowledgedAt : Option Instant := none
  deriving DecidableEq

inductive Evidence where
  | reported
  | trashed
  | inferred
  deriving DecidableEq

structure ItemDeletion where
  domain : Domain
  naturalKeyHash : String
  collection : String
  absentPasses : ℕ
  confirmed : Bool
  evidence : Evidence
  acknowledgedAt : Option Instant := none
  deriving DecidableEq

end OpenMigrate
