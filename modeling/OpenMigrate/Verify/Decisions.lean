import OpenMigrate.Dav.DavApply
import OpenMigrate.Verify.Queries

namespace OpenMigrate.Verify

open PgLedger

inductive FailureAction where
  | retry
  | accept
  deriving DecidableEq

/-- Only a failed row is decided about, whatever its domain. -/
def resolveFailure (L : Ledger) (tenantId mappingId naturalKeyHash : String) (action : FailureAction) : Bool × Ledger :=
  match (L.lookup ⟨tenantId, mappingId, naturalKeyHash⟩).filter (·.status == .failed) with
  | some row =>
    (true, L.replace ⟨tenantId, mappingId, naturalKeyHash⟩
      (match action with
        | .accept => { row with status := .leftBehind }
        | .retry => { row with attemptCount := 0 }))
  | none => (false, L)

/-- What an owner decides about one item: its copy goes, after a deletion or a move, or it stays behind. -/
inductive Decision where
  | applyDeletion (naturalKeyHash : String)
  | applyRelocation (naturalKeyHash : String)
  | leaveBehind (naturalKeyHash : String)
  deriving DecidableEq

namespace Decision

def key : Decision → String
  | applyDeletion key => key
  | applyRelocation key => key
  | leaveBehind key => key

def isRemoval : Decision → Bool
  | leaveBehind _ => false
  | _ => true

/-- The statement that records a decision, and whether it matched a row. -/
def exec (L : Ledger) (scope : Scope) (now : Instant) : Decision → Bool × Ledger
  | applyDeletion key =>
    let r := update L scope key deletable (applyDeletionValues now)
    (r.1.isSome, r.2)
  | applyRelocation key =>
    let r := update L scope key (relocatable L scope key) (applyRelocationValues now)
    (r.1.isSome, r.2)
  | leaveBehind key => resolveFailure L scope.tenantId scope.mappingId key .accept

/-- The decisions of a sequence that were recorded, and the ledger they leave. -/
def execAll (L : Ledger) (scope : Scope) : List (Decision × Instant) → List Decision × Ledger
  | [] => ([], L)
  | (d, now) :: ds =>
    let r := d.exec L scope now
    let rest := execAll r.2 scope ds
    (if r.1 then d :: rest.1 else rest.1, rest.2)

end Decision

section Settled

variable {L : Ledger} {scope : Scope} {now : Instant}

/-- Past every decision: left behind, or removed. -/
def settledStatus (status : ItemStatus) : Bool := status == .leftBehind || status == .tombstoned

theorem settled_not_ours {row : ItemRow} (h : settledStatus row.status = true) : ours row = false := by
  simp only [settledStatus, Bool.or_eq_true, beq_iff_eq] at h
  obtain h | h := h <;> simp [ours, h]

theorem update_kept {key : String} {k : ItemKey} {row : ItemRow} {w : ItemRow → Bool} {f : ItemRow → ItemRow}
    (hrow : L.lookup k = some row) (hw : w row = false) : (update L scope key w f).2.lookup k = some row := by
  by_cases hk : k = scope.key key
  · subst hk
    by_cases hd : row.domain = scope.domain
    · rw [update_lookup_some L hrow hd, hw]
      rfl
    · have hnone : row? L scope key = none := (row?_eq_none L).mpr fun r hr => by
        rw [hrow] at hr
        cases hr
        exact hd
      rw [update_foreign L hnone, hrow]
  · rw [update_lookup_ne L hk, hrow]

theorem resolveFailure_lookup {tenantId mappingId key : String} {k : ItemKey} {row : ItemRow}
    (hrow : L.lookup k = some row) (hstatus : row.status ≠ .failed) (action : FailureAction) :
    (resolveFailure L tenantId mappingId key action).2.lookup k = some row := by
  unfold resolveFailure
  split
  · rename_i found hfound
    obtain ⟨hlookup, hfailed⟩ := Option.filter_eq_some_iff.mp hfound
    have hk : (⟨tenantId, mappingId, key⟩ : ItemKey) ≠ k := by
      rintro rfl
      rw [hrow] at hlookup
      cases hlookup
      exact hstatus (by simpa using hfailed)
    rw [replace_lookup, if_neg hk, hrow]
  · exact hrow

theorem decision_keeps (d : Decision) {k : ItemKey} {row : ItemRow} (hrow : L.lookup k = some row)
    (h : settledStatus row.status = true) : (d.exec L scope now).2.lookup k = some row := by
  have hours := settled_not_ours h
  cases d with
  | applyDeletion key => exact update_kept hrow (by simp [deletable, hours])
  | applyRelocation key => exact update_kept hrow (by simp [relocatable, hours])
  | leaveBehind key =>
    refine resolveFailure_lookup hrow ?_ .accept
    intro hfailed
    rw [hfailed] at h
    cases h

theorem leaveBehind_settles {tenantId mappingId key : String}
    (h : (resolveFailure L tenantId mappingId key .accept).1 = true) :
    ∃ row : ItemRow, (resolveFailure L tenantId mappingId key .accept).2.lookup ⟨tenantId, mappingId, key⟩ =
      some { row with status := .leftBehind } := by
  unfold resolveFailure at h ⊢
  split at h
  · rename_i row hfound
    obtain ⟨hlookup, -⟩ := Option.filter_eq_some_iff.mp hfound
    refine ⟨row, ?_⟩
    simp [replace_lookup, hlookup]
  · cases h

theorem decision_settles {d : Decision} (h : (d.exec L scope now).1 = true) :
    ∃ row, (d.exec L scope now).2.lookup (scope.key d.key) = some row ∧
      if d.isRemoval then row.domain = scope.domain ∧ row.status = .tombstoned else row.status = .leftBehind := by
  have hhit : ∀ (key : String) (w : ItemRow → Bool) (f : ItemRow → ItemRow), (update L scope key w f).1.isSome = true →
      ∃ row, row.domain = scope.domain ∧ (update L scope key w f).2.lookup (scope.key key) = some (f row) := by
    intro key w f hsome
    unfold update at hsome ⊢
    split at hsome
    · rename_i row hfound
      obtain ⟨hrow, -⟩ := Option.filter_eq_some_iff.mp hfound
      obtain ⟨hlookup, hdomain⟩ := (row?_eq_some L).mp hrow
      refine ⟨row, hdomain, ?_⟩
      simp [replace_lookup, hlookup]
    · cases hsome
  cases d with
  | applyDeletion key =>
    obtain ⟨row, hdomain, hrow⟩ := hhit key _ _ h
    exact ⟨_, hrow, hdomain, rfl⟩
  | applyRelocation key =>
    obtain ⟨row, hdomain, hrow⟩ := hhit key _ _ h
    exact ⟨_, hrow, hdomain, rfl⟩
  | leaveBehind key =>
    obtain ⟨row, hrow⟩ := leaveBehind_settles h
    exact ⟨_, hrow, rfl⟩

theorem execAll_keeps (ds : List (Decision × Instant)) {k : ItemKey} {row : ItemRow} (hrow : L.lookup k = some row)
    (h : settledStatus row.status = true) : (Decision.execAll L scope ds).2.lookup k = some row := by
  induction ds generalizing L with
  | nil => exact hrow
  | cons d ds ih => exact ih (decision_keeps d.1 hrow h)

theorem execAll_settles {ds : List (Decision × Instant)} {d : Decision} (h : d ∈ (Decision.execAll L scope ds).1) :
    ∃ row, (Decision.execAll L scope ds).2.lookup (scope.key d.key) = some row ∧
      if d.isRemoval then row.domain = scope.domain ∧ row.status = .tombstoned else row.status = .leftBehind := by
  induction ds generalizing L with
  | nil => cases h
  | cons first ds ih =>
    simp only [Decision.execAll] at h ⊢
    split at h
    · rename_i hrecorded
      obtain rfl | h := List.mem_cons.mp h
      · obtain ⟨row, hrow, hstatus⟩ := decision_settles hrecorded
        refine ⟨row, execAll_keeps ds hrow ?_, hstatus⟩
        split at hstatus
        · simp [settledStatus, hstatus.2]
        · simp [settledStatus, hstatus]
      · exact ih h
    · exact ih h

end Settled

/-- After any sequence of decisions, none of their items is reported missing exactly when the target still lists
every item whose removal was applied. -/
theorem decided_not_missing_iff (sha256Hex : String → String) (L : Ledger) (tenantId mappingId : String)
    (dataType : DataType) (entries : List TargetEntry) (ds : List (Decision × Instant)) :
    (∀ d ∈ (Decision.execAll L (scopeOf tenantId mappingId dataType) ds).1,
      d.key ∉ findMissingOnTarget sha256Hex (Decision.execAll L (scopeOf tenantId mappingId dataType) ds).2
        tenantId mappingId dataType entries) ↔
    ∀ d ∈ (Decision.execAll L (scopeOf tenantId mappingId dataType) ds).1, d.isRemoval = true →
      d.key ∈ targetKeys sha256Hex dataType entries := by
  refine forall₂_congr fun d hd => ?_
  obtain ⟨row, hlookup, hstatus⟩ := execAll_settles hd
  rw [mem_missing, mem_hashes]
  cases hremoval : d.isRemoval with
  | true =>
    rw [hremoval, if_pos rfl] at hstatus
    have hrow := (row?_eq_some _).mpr ⟨hlookup, hstatus.1⟩
    have hne : row.status ≠ .leftBehind := by
      rw [hstatus.2]
      decide
    constructor
    · intro h _
      by_contra hkey
      exact h ⟨⟨row, hrow, hne⟩, hkey⟩
    · intro h hmissing
      exact hmissing.2 (h rfl)
  | false =>
    rw [hremoval, if_neg (by decide)] at hstatus
    refine iff_of_true ?_ (fun h => by cases h)
    rintro ⟨⟨row', hrow', hne⟩, -⟩
    obtain ⟨hlookup', -⟩ := (row?_eq_some _).mp hrow'
    rw [hlookup] at hlookup'
    cases hlookup'
    exact hne hstatus

namespace Sample

def removedKey : String := Dav.Sample.sha256Hex "file:a.txt"

def files : Ledger :=
  AList.insert ⟨"t", "m", removedKey⟩
    { domain := .file, collection := "/", contentHash := "h", sizeBytes := none, status := .copied,
      targetRef := "a.txt", sourceVersion := none, targetVersion := none, sourceRefHref := none,
      deletionReportedAt := some 1 }
    (AList.insert ⟨"t", "m", Dav.Sample.sha256Hex "file:b.txt"⟩
      { domain := .file, collection := "/", contentHash := "h", sizeBytes := none, status := .copied,
        targetRef := "b.txt", sourceVersion := none, targetVersion := none, sourceRefHref := none } ∅)

end Sample

/-- The file whose removal was approved and applied is reported missing. -/
theorem removed_file_missing :
    .applyDeletion Sample.removedKey ∈
        (Decision.execAll Sample.files (scopeOf "t" "m" .files) [(.applyDeletion Sample.removedKey, 2)]).1 ∧
      Sample.removedKey ∈ findMissingOnTarget Dav.Sample.sha256Hex
        (Decision.execAll Sample.files (scopeOf "t" "m" .files) [(.applyDeletion Sample.removedKey, 2)]).2
        "t" "m" .files [{ naturalKey := "b.txt", targetId := "b.txt", mailboxId := "/" }] := by
  decide +kernel

end OpenMigrate.Verify
