import OpenMigrate.Ledger.Record
import Mathlib.Tactic.Common
import Mathlib.Tactic.SplitIfs

namespace OpenMigrate

inductive KnownItemAction where
  | skip
  | recordVersion
  | rewrite
  | relocatedAway
  | leaveAdopted
  | moved
  | retryFailed
  | needsDecision
  | leftBehind
  | tombstoned
  deriving DecidableEq

def classifyKnownItem (known : LedgerRecord) (sourceVersion : Option String) (collection : Option String) :
    KnownItemAction :=
  if known.status = some .leftBehind then .leftBehind
  else if known.status = some .tombstoned then
    if known.movedToNaturalKeyHash ≠ none then .relocatedAway else .tombstoned
  else if known.status = some .failed then
    if MAX_ITEM_ATTEMPTS ≤ known.attemptCount.getD 0 then .needsDecision else .retryFailed
  else if collection ≠ none ∧ collection ≠ some "" ∧ known.collection ≠ none ∧ known.collection ≠ some "" ∧
      known.collection ≠ collection then .moved
  else if sourceVersion = none then .skip
  else if known.sourceVersion = none then .recordVersion
  else if known.sourceVersion = sourceVersion then .skip
  else if known.status = some .adopted then .leaveAdopted
  else .rewrite

def decided (row : LedgerRecord) (dest : String) (toNaturalKeyHash : Option String) : Bool :=
  row.movedToCollection == some dest && row.movedToNaturalKeyHash == toNaturalKeyHash &&
    row.moveAcknowledgedAt.isSome

variable {known : LedgerRecord} {sourceVersion collection : Option String}

theorem classifyKnownItem_live
    (h : classifyKnownItem known sourceVersion collection ∈
      [.skip, .recordVersion, .rewrite, .leaveAdopted, .moved]) :
    known.status ≠ some .leftBehind ∧ known.status ≠ some .tombstoned ∧ known.status ≠ some .failed := by
  unfold classifyKnownItem at h
  split_ifs at h <;> simp_all

theorem classifyKnownItem_retryFailed (h : classifyKnownItem known sourceVersion collection = .retryFailed) :
    known.status = some .failed ∧ known.attemptCount.getD 0 < MAX_ITEM_ATTEMPTS := by
  unfold classifyKnownItem at h
  split_ifs at h
  simp_all

theorem classifyKnownItem_relocatedAway (h : classifyKnownItem known sourceVersion collection = .relocatedAway) :
    known.status = some .tombstoned ∧ known.movedToNaturalKeyHash ≠ none := by
  unfold classifyKnownItem at h
  split_ifs at h
  simp_all

theorem classifyKnownItem_rewrite (h : classifyKnownItem known sourceVersion collection = .rewrite) :
    known.status ∉ [some .leftBehind, some .tombstoned, some .failed, some .adopted] ∧
      known.sourceVersion ≠ none ∧ sourceVersion ≠ none ∧ known.sourceVersion ≠ sourceVersion := by
  unfold classifyKnownItem at h
  split_ifs at h
  simp_all

end OpenMigrate
