import OpenMigrate.Sync.World

namespace OpenMigrate

open Async

variable {T : TargetApi}

def MASS_DELETION_MIN_ITEMS : ℕ := 20

/-- `MASS_DELETION_FRACTION` is one in this many. -/
def MASS_DELETION_FRACTION : ℕ := 5

inductive ApplyRefusal where
  | notEnabled
  | targetCannotRemove
  | notFound
  | notConfirmed
  | weakEvidence
  | notOurs
  | alreadyApplied
  | editedOnTarget
  | massDeletionSuspected
  | massRelocationSuspected
  | alreadyKept
  | notRelocated
  | relocationUnconfirmed
  | targetCannotConfirm
  | removedNotRecorded
  deriving DecidableEq

inductive ApplyDeletionOutcome where
  | applied (kind : RemovalKind)
  | refused (code : ApplyRefusal) (reason : String)
  deriving DecidableEq

/-- A target as the apply path sees it: what it can do is what it implements. -/
structure ApplyDeletionDeps (T : TargetApi) where
  scope : Scope
  allowApplyDeletions : Bool
  targetFolderPrefix : Option String
  removeItem : Option (String → Option String → Option String → Task T RemovalResult)
  hasItem : Option (String → Option String → Task T Bool)
  removeItem_asks : ∀ f ∈ removeItem, ∀ id version collection,
    Emits targetVocabulary (f id version collection) (fun _ => True)
  hasItem_asks : ∀ f ∈ hasItem, ∀ id collection, Emits targetVocabulary (f id collection) (fun _ => True)

def notEnabled : ApplyDeletionOutcome :=
  .refused .notEnabled ("Removing items from the target is switched off for this mapping. Set " ++
    "`allowApplyDeletions: true` in its config to enable it, and read the runbook first — " ++
    "this is the only operation here that destroys anything.")

def notFound : ApplyDeletionOutcome := .refused .notFound "No migrated item under that natural key."

def alreadyApplied : ApplyDeletionOutcome :=
  .refused .alreadyApplied "The target copy of this item has already been removed."

def editedOnTarget : ApplyDeletionOutcome :=
  .refused .editedOnTarget ("Somebody has edited this item in the new system since we copied it, so it was " ++
    "left alone — those changes are theirs (hard rule 2). Nothing was removed.")

def noRemoval : ApplyDeletionOutcome :=
  .refused .targetCannotRemove "The target reported no removal, so nothing has been changed."

def statusName (status : Option ItemStatus) : String := (status.map ItemStatus.name).getD "unknown"

def ownershipCheck (row : LedgerRecord) : Option ApplyDeletionOutcome :=
  match row.status with
  | some .copied | some .updated => none
  | status =>
    if !isOnTarget status then
      some (.refused .notOurs (s!"This item is not on the target (status " ++
        s!"{statusName status}), so there is nothing to remove."))
    else if status = some .adopted then
      some (.refused .notOurs ("The copy on the target was already there before this migration ran — those " ++
        "bytes are the account owner's, not ours to delete (hard rule 2). Remove it yourself if you want " ++
        "it gone, then choose `keep`."))
    else
      some (.refused .notOurs ("The ledger does not record this copy as one this migration wrote (status " ++
        s!"{statusName status}). Only items recorded as `copied` or " ++
        "`updated` can be removed. Delete it in the target system yourself if you want it gone, " ++
        "then choose `keep`."))

def positiveEvidence (row : LedgerRecord) : Bool :=
  row.deletionReportedAt.isSome || row.deletionTrashedAt.isSome

def weakEvidence (row : LedgerRecord) : ApplyDeletionOutcome :=
  let absent := row.absentPasses.getD 0
  if 0 < absent then
    .refused .weakEvidence (s!"This item is only INFERRED to be deleted: it has been missing from {absent} " ++
      "complete scan(s) and nothing has stated it was deleted. Absence has innocent causes " ++
      "that all look identical, so it is never enough to remove anything. Delete it in the " ++
      "target system yourself if you are sure, then choose `keep`.")
  else .refused .notConfirmed "Nothing says this item was deleted on the source."

/-- A share as `Math.round` of its percentage. -/
def percent (pending placed : ℕ) : ℕ := (200 * pending + placed) / (2 * placed)

variable (deps : ApplyDeletionDeps T)

def massDeletionCheck : Task T (Option ApplyDeletionOutcome) :=
  (Task.ledger (.placedItems deps.scope)).bind fun placed =>
  if placed.length < MASS_DELETION_MIN_ITEMS then .ret none
  else
    (Task.ledger (.listDeletions deps.scope)).bind fun deletions =>
    let pending := (deletions.filter (fun d => d.confirmed && d.acknowledgedAt.isNone)).length
    if MASS_DELETION_FRACTION * pending ≤ placed.length then .ret none
    else
      .ret (some (.refused .massDeletionSuspected
        (s!"{pending} of {placed.length} migrated {deps.scope.domain.name} items " ++
        s!"({percent pending placed.length}%) are pending " ++
        "deletion, which is more likely to be a source problem — an outage, a restored account, a " ++
        "connector reading the wrong place — than an owner deleting that much on purpose. While " ++
        "that is true, no individual removal is trustworthy either, so all of them are refused. " ++
        "Check the source, let a pass run, and if the deletions are real, remove the items in the " ++
        "target system yourself.")))

def massRelocationCheck : Task T (Option ApplyDeletionOutcome) :=
  (Task.ledger (.placedItems deps.scope)).bind fun placed =>
  if placed.length < MASS_DELETION_MIN_ITEMS then .ret none
  else
    (Task.ledger (.listMoves deps.scope)).bind fun moves =>
    let pending := (moves.filter (fun m => m.toNaturalKeyHash.isSome && m.acknowledgedAt.isNone)).length
    if MASS_DELETION_FRACTION * pending ≤ placed.length then .ret none
    else
      .ret (some (.refused .massRelocationSuspected
        (s!"{pending} of {placed.length} migrated {deps.scope.domain.name} items " ++
        s!"({percent pending placed.length}%) are recorded " ++
        "as moved or renamed and still open. At that scale the correlation itself is in doubt — a " ++
        "change in how this connector reports paths gives every file a new key, and looks exactly " ++
        "like this. Removing the old copies is not undoable by a later pass, so all of them are " ++
        "refused while it is true. If the reorganisation is real, close these entries with `keep` " ++
        "and tidy the old copies in the target system yourself.")))

/-- `(await a()) ?? (await b())` -/
def firstRefusal (a b : Task T (Option ApplyDeletionOutcome)) : Task T (Option ApplyDeletionOutcome) :=
  a.bind fun
    | some refusal => .ret (some refusal)
    | none => b

def unconfirmed (reason : String) : Option ApplyDeletionOutcome :=
  some (.refused .relocationUnconfirmed reason)

def arrivalCheck (row arrival : LedgerRecord) : Option ApplyDeletionOutcome :=
  if arrival.status ≠ some .copied ∧ arrival.status ≠ some .updated then
    unconfirmed (s!"The relocated copy is not one we can vouch for (status " ++
      s!"{statusName arrival.status}). " ++
      "Removing this copy is only safe while the same bytes are on the target under the new " ++
      "key, WRITTEN BY THIS MIGRATION. Nothing was removed.")
  else if arrival.targetId ≠ "" ∧ arrival.targetId = row.targetId then
    unconfirmed ("The old copy and the relocated copy are the same object on the target, so removing " ++
      "one would remove both. Nothing was removed.")
  else if row.contentHash = "" ∨ arrival.contentHash = "" then
    unconfirmed ("This item has no recorded content hash, so there is no way to confirm the relocated " ++
      "copy holds the same bytes. Nothing was removed.")
  else if arrival.contentHash ≠ row.contentHash then
    unconfirmed ("The relocated copy no longer has the same content as this one, so removing this copy " ++
      "would lose something. The item was probably edited after it was moved. Nothing was removed.")
  else none

def relocationCheck (row : LedgerRecord) : Task T (Option ApplyDeletionOutcome) :=
  if row.moveAcknowledgedAt.isSome then
    .ret (some (.refused .alreadyKept
      ("Somebody already looked at this move and chose to leave the old copy alone, so it will " ++
      "not be removed now. If that was the wrong call, remove it in the target system " ++
      "yourself — this decision is not re-opened here.")))
  else if row.movedToNaturalKeyHash = some row.naturalKeyHash then
    .ret (unconfirmed ("This item records a relocation to its own key, which cannot be evidence of anything. " ++
      "Nothing was removed."))
  else
    match truthy row.movedToNaturalKeyHash with
    | none =>
      .ret (some (.refused .notRelocated
        ("No relocation is recorded for this item, so there is no new copy to point at and " ++
        "nothing here may be removed. A move that only changed FOLDER on a source keyed by a " ++
        "stable id — mail, calendar, contacts — is reported for you to look at, and the target " ++
        "is left exactly as it is (§11.1).")))
    | some arrivalKey =>
      (Task.ledger (.find deps.scope arrivalKey)).bind fun
        | none =>
          .ret (unconfirmed ("The item this one was relocated to is no longer in the ledger, so the bytes " ++
            "cannot be confirmed present on the target. Nothing was removed."))
        | some arrival =>
          match arrivalCheck row arrival with
          | some refusal => .ret (some refusal)
          | none =>
            (Task.ledger (.placedItems deps.scope)).bind fun placed =>
            let sharing := (placed.filter (fun item => item.contentHash == row.contentHash)).length
            if 2 < sharing then
              .ret (unconfirmed (s!"{sharing} items in this migration hold exactly these bytes, so which one " ++
                "moved is a guess — and removing the wrong copy takes a file nobody touched. This is what an " ++
                "empty file looks like, and what a duplicate looks like. Remove the old copy in the " ++
                "target system yourself if you are sure, then choose `keep`."))
            else .ret none

/-- Removes the target copy and, only once it is gone, records so with `record`. -/
def removeAndRecord (remove : String → Option String → Option String → Task T RemovalResult)
    (row : LedgerRecord) (record : Task T Bool) (notRecorded : String) : Task T ApplyDeletionOutcome :=
  (remove row.targetId row.targetVersion
    (row.collection.map (applyTargetFolderPrefix deps.targetFolderPrefix))).bind fun removal =>
  if removal.conflicted then .ret editedOnTarget
  else
    match removal.kind with
    | none => .ret noRemoval
    | some kind =>
      record.bind fun recorded =>
      .ret (if recorded then .applied kind else .refused .removedNotRecorded notRecorded)

def applyDeletion (naturalKeyHash : String) : Task T ApplyDeletionOutcome :=
  if !deps.allowApplyDeletions then .ret notEnabled
  else
    match deps.removeItem with
    | none =>
      .ret (.refused .targetCannotRemove
        (s!"The {deps.scope.domain.name} target does not support removing items, so this cannot be carried " ++
        "out automatically. Delete the item in the target system yourself, then choose `keep`."))
    | some remove =>
      (Task.ledger (.find deps.scope naturalKeyHash)).bind fun
        | none => .ret notFound
        | some row =>
          if row.deletionAppliedAt.isSome || row.status == some .tombstoned then .ret alreadyApplied
          else if !positiveEvidence row then .ret (weakEvidence row)
          else
            match ownershipCheck row with
            | some refusal => .ret refusal
            | none =>
              (massDeletionCheck deps).bind fun
                | some refusal => .ret refusal
                | none =>
                  removeAndRecord deps remove row (Task.ledger (.applyDeletion deps.scope naturalKeyHash))
                    ("The copy WAS removed from the target, and the ledger could not record it. Nothing is " ++
                    "left to retry: the removal happened. Verification will report this item as missing on " ++
                    "the target until that is reconciled by hand.")

/-- The last look before the old copy goes: is the arrival really on the target? -/
def confirmArrival (row : LedgerRecord) (proceed : Task T ApplyDeletionOutcome) : Task T ApplyDeletionOutcome :=
  (Task.ledger (.find deps.scope (row.movedToNaturalKeyHash.getD ""))).bind fun arrivalRow =>
  match deps.hasItem, arrivalRow with
  | none, _ =>
    .ret (.refused .targetCannotConfirm
      (s!"The {deps.scope.domain.name} target cannot be asked whether the relocated copy is really there, " ++
      "and removing this one is only safe if it is. Remove the old copy in the target system " ++
      "yourself if you are sure, then choose `keep`."))
  | some _, none => .fail (.error "Cannot read properties of undefined (reading 'targetId')")
  | some hasItem, some arrival =>
    (hasItem arrival.targetId (arrival.collection.map (applyTargetFolderPrefix deps.targetFolderPrefix))).bind
      fun present =>
    if !present then
      .ret (.refused .relocationUnconfirmed
        ("The target does not have the relocated copy, whatever the ledger says — so this is the " ++
        "only copy left and it will not be removed. Verification will report the other one as " ++
        "missing until that is reconciled."))
    else proceed

def applyRelocation (naturalKeyHash : String) : Task T ApplyDeletionOutcome :=
  if !deps.allowApplyDeletions then .ret notEnabled
  else
    match deps.removeItem with
    | none =>
      .ret (.refused .targetCannotRemove
        (s!"The {deps.scope.domain.name} target does not support removing items, so this cannot be carried " ++
        "out automatically. Delete the old copy in the target system yourself, then choose `keep`."))
    | some remove =>
      (Task.ledger (.find deps.scope naturalKeyHash)).bind fun
        | none => .ret notFound
        | some row =>
          if row.deletionAppliedAt.isSome || row.status == some .tombstoned then .ret alreadyApplied
          else
            (relocationCheck deps row).bind fun
              | some refusal => .ret refusal
              | none =>
                match ownershipCheck row with
                | some refusal => .ret refusal
                | none =>
                  (firstRefusal (massDeletionCheck deps) (massRelocationCheck deps)).bind fun
                    | some refusal => .ret refusal
                    | none =>
                      confirmArrival deps row
                        (removeAndRecord deps remove row
                          (Task.ledger (.applyRelocation deps.scope naturalKeyHash))
                          ("The old copy WAS removed from the target, and the ledger could not record it. " ++
                          "Nothing is left to retry: the removal happened. Verification will report this " ++
                          "item as missing on the target until that is reconciled by hand."))

end OpenMigrate
