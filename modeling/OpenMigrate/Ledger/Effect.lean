import OpenMigrate.Ledger.PgLedger
import Mathlib.Tactic.Common

namespace OpenMigrate

open PgLedger

namespace LedgerOp

def writes? : LedgerOp → Option (Scope × String)
  | recordIfAbsent r => some (r.scope, r.naturalKeyHash)
  | recordUpdate r => some (r.scope, r.naturalKeyHash)
  | recordFailure r _ => some (r.scope, r.naturalKeyHash)
  | recordMove scope key _ _ => some (scope, key)
  | clearMove scope key => some (scope, key)
  | recordAbsent scope key => some (scope, key)
  | recordReportedDeletion scope key => some (scope, key)
  | recordTrashedDeletion scope key => some (scope, key)
  | clearAbsent scope key => some (scope, key)
  | applyDeletion scope key => some (scope, key)
  | applyRelocation scope key => some (scope, key)
  | _ => none

/-- What an operation makes of the row it is aimed at, when there is one. -/
def sets (L : Ledger) (now : Instant) : LedgerOp → ItemRow → ItemRow
  | recordUpdate r, row => updateValues r row
  | recordFailure _ error, row => bump error row
  | recordMove _ _ dest toKey, row => moveValues now dest toKey row
  | clearMove .., row => clearMoveValues row
  | recordAbsent .., row => absentValues row
  | recordReportedDeletion .., row =>
    if row.deletionReportedAt.isSome then row else { row with deletionReportedAt := some now }
  | recordTrashedDeletion .., row =>
    if row.deletionTrashedAt.isSome then row else { row with deletionTrashedAt := some now }
  | clearAbsent .., row => if hasAbsence row then clearAbsentValues row else row
  | applyDeletion .., row => if deletable row then applyDeletionValues now row else row
  | applyRelocation scope key, row =>
    if relocatable L scope key row then applyRelocationValues now row else row
  | _, row => row

def inserts : LedgerOp → Option ItemRow
  | recordIfAbsent r => some (insertValues r)
  | recordFailure r error => some (failureValues r error)
  | _ => none

def aimsAt (op : LedgerOp) (key : ItemKey) (domain : Domain) : Prop :=
  ∃ scope h, op.writes? = some (scope, h) ∧ scope.key h = key ∧ scope.domain = domain

end LedgerOp

theorem sets_domain (op : LedgerOp) (L : Ledger) (now : Instant) (row : ItemRow) :
    (op.sets L now row).domain = row.domain := by
  cases op <;> simp only [LedgerOp.sets] <;> first | rfl | (split <;> rfl)

namespace PgLedger

variable (L : Ledger) (now : Instant)

theorem record_key (r : LedgerRecord) : r.scope.key r.naturalKeyHash = r.key := rfl

theorem row?_eq_some {scope : Scope} {h : String} {row : ItemRow} :
    row? L scope h = some row ↔ L.lookup (scope.key h) = some row ∧ row.domain = scope.domain := by
  simp [row?, Option.filter_eq_some_iff]

theorem row?_eq_none {scope : Scope} {h : String} :
    row? L scope h = none ↔ ∀ row, L.lookup (scope.key h) = some row → row.domain ≠ scope.domain := by
  simp [row?, Option.filter_eq_none_iff]

theorem find_eq_some {scope : Scope} {h : String} {r : LedgerRecord} (hf : find L scope h = some r) :
    r.scope = scope ∧ r.naturalKeyHash = h := by
  obtain ⟨row, hrow, rfl⟩ := Option.map_eq_some_iff.mp hf
  obtain ⟨-, hd⟩ := (row?_eq_some L).mp hrow
  exact ⟨by simp [LedgerRecord.scope, ItemRow.mapRowToRecord, Scope.key, hd], rfl⟩

theorem mem_rows {scope : Scope} {h : String} {row : ItemRow} :
    (h, row) ∈ rows L scope ↔ row? L scope h = some row := by
  rw [row?_eq_some, ← Option.mem_def, AList.mem_lookup_iff, rows, List.mem_filterMap]
  constructor
  · rintro ⟨⟨⟨t, m, k⟩, r⟩, hmem, hif⟩
    split at hif
    · rename_i hc
      simp only [Option.some.injEq, Prod.mk.injEq] at hif
      obtain ⟨rfl, rfl⟩ := hif
      obtain ⟨rfl, rfl, hd⟩ := hc
      exact ⟨hmem, hd⟩
    · cases hif
  · rintro ⟨hmem, hd⟩
    exact ⟨⟨scope.key h, row⟩, hmem, by simp [Scope.key, hd]⟩

theorem findBySourceRef_eq_some {scope : Scope} {ref : String} {r : LedgerRecord}
    (hf : findBySourceRef L scope ref = some r) :
    ∃ h row, row? L scope h = some row ∧ row.sourceRefHref = some ref ∧
      r = row.mapRowToRecord (scope.key h) := by
  unfold findBySourceRef at hf
  split at hf
  · cases hf
  · obtain ⟨⟨h, row⟩, hfind, rfl⟩ := Option.map_eq_some_iff.mp hf
    have href := List.find?_some hfind
    exact ⟨h, row, (mem_rows L).mp (List.mem_of_find?_eq_some hfind), by simpa using href, rfl⟩

theorem findBySourceRef_scope {scope : Scope} {ref : String} {r : LedgerRecord}
    (hf : findBySourceRef L scope ref = some r) : r.scope = scope := by
  obtain ⟨h, row, hrow, -, rfl⟩ := findBySourceRef_eq_some L hf
  obtain ⟨-, hd⟩ := (row?_eq_some L).mp hrow
  simp [LedgerRecord.scope, ItemRow.mapRowToRecord, Scope.key, hd]

theorem kreplace_dlookup (k k' : ItemKey) (row : ItemRow) (l : List (Sigma fun _ : ItemKey => ItemRow)) :
    (l.kreplace k row).dlookup k' = if k = k' then (l.dlookup k).map (fun _ => row) else l.dlookup k' := by
  induction l with
  | nil => simp [List.kreplace]
  | cons e l ih =>
    obtain ⟨a, b⟩ := e
    by_cases ha : k = a
    · subst ha
      by_cases hk : k = k'
      · subst hk
        simp [List.kreplace]
      · have hne : ∀ r : ItemRow, (⟨k, r⟩ :: l : List (Sigma fun _ : ItemKey => ItemRow)).dlookup k' = l.dlookup k' :=
          fun r => List.dlookup_cons_ne l ⟨k, r⟩ (Ne.symm hk)
        simp [List.kreplace, hk, hne]
    · have hcons : List.kreplace k row (⟨a, b⟩ :: l) = ⟨a, b⟩ :: l.kreplace k row := by
        simp [List.kreplace, ha]
      rw [hcons]
      by_cases hk : a = k'
      · subst hk
        simp [ha]
      · simp [hk, ih, ha, Ne.symm, List.dlookup_cons_ne]

theorem replace_lookup (k k' : ItemKey) (row : ItemRow) :
    (L.replace k row).lookup k' = if k = k' then (L.lookup k).map (fun _ => row) else L.lookup k' :=
  kreplace_dlookup k k' row L.entries

theorem update_lookup_ne {scope : Scope} {h : String} {w : ItemRow → Bool} {f : ItemRow → ItemRow}
    {key : ItemKey} (hk : key ≠ scope.key h) : (update L scope h w f).2.lookup key = L.lookup key := by
  unfold update
  split
  · exact (replace_lookup L _ _ _).trans (if_neg (Ne.symm hk))
  · rfl

theorem update_lookup_some {scope : Scope} {h : String} {w : ItemRow → Bool} {f : ItemRow → ItemRow}
    {row : ItemRow} (hr : L.lookup (scope.key h) = some row) (hd : row.domain = scope.domain) :
    (update L scope h w f).2.lookup (scope.key h) = some (if w row then f row else row) := by
  have hrow : row? L scope h = some row := (row?_eq_some L).mpr ⟨hr, hd⟩
  unfold update
  by_cases hw : w row
  · simp [hrow, hw, hr, Option.filter, replace_lookup]
  · simp [hrow, hw, hr, Option.filter]

theorem update_foreign {scope : Scope} {h : String} {w : ItemRow → Bool} {f : ItemRow → ItemRow}
    (hr : row? L scope h = none) : update L scope h w f = (none, L) := by
  simp [update, hr]

theorem exec_lookup_ne {op : LedgerOp} {key : ItemKey}
    (hop : ∀ scope h, op.writes? = some (scope, h) → key ≠ scope.key h) :
    (exec L now op).2.lookup key = L.lookup key := by
  cases op with
  | find | findBySourceRef | placedItems | listMoves | listDeletions => rfl
  | recordIfAbsent r =>
    have hk : key ≠ r.key := hop _ _ rfl
    simp only [exec, recordIfAbsent]
    split
    · exact AList.lookup_insert_ne hk
    · split <;> rfl
  | recordUpdate r =>
    have hu := update_lookup_ne L (w := fun _ => true) (f := updateValues r) (hop _ _ rfl)
    simp only [exec, recordUpdate]
    split <;> rename_i heq <;> rwa [heq] at hu
  | recordFailure r error =>
    have hk : key ≠ r.key := hop _ _ rfl
    have hu := update_lookup_ne L (w := fun _ => true) (f := bump error) (hop _ _ rfl)
    simp only [exec, recordFailure]
    split <;> rename_i heq
    · rwa [heq] at hu
    · rw [heq] at hu
      split
      · rw [← hu]
        exact AList.lookup_insert_ne hk
      · exact hu
  | recordReportedDeletion scope h | recordTrashedDeletion scope h =>
    simp only [exec, recordReportedDeletion, recordTrashedDeletion, recordDeletion]
    split <;> rename_i heq <;>
      exact (congrArg (fun x => AList.lookup key (Prod.snd x)) heq).symm.trans
        (update_lookup_ne L (hop _ _ rfl))
  | recordMove | clearMove | recordAbsent | clearAbsent | applyDeletion | applyRelocation =>
    exact update_lookup_ne L (hop _ _ rfl)

theorem update_lookup {scope : Scope} {h : String} {w : ItemRow → Bool} {f : ItemRow → ItemRow}
    {key : ItemKey} {row : ItemRow} (hr : L.lookup key = some row) :
    (update L scope h w f).2.lookup key =
      some (if scope.key h = key ∧ scope.domain = row.domain ∧ w row then f row else row) := by
  by_cases hk : scope.key h = key
  · subst hk
    by_cases hd : row.domain = scope.domain
    · simp [update_lookup_some L hr hd, hd]
    · have hnone : row? L scope h = none := (row?_eq_none L).mpr fun r h' => by
        rw [hr] at h'
        cases h'
        exact hd
      simp [update_foreign L hnone, hr, Ne.symm hd]
  · simp [update_lookup_ne L (Ne.symm hk), hr, hk]

theorem aimsAt_iff {op : LedgerOp} {scope : Scope} {h : String} {key : ItemKey} {domain : Domain}
    (hw : op.writes? = some (scope, h)) :
    op.aimsAt key domain ↔ scope.key h = key ∧ scope.domain = domain := by
  simp [LedgerOp.aimsAt, hw]

theorem exec_lookup_some (op : LedgerOp) {key : ItemKey} {row : ItemRow}
    (hr : L.lookup key = some row) :
    ¬ op.aimsAt key row.domain ∧ (exec L now op).2.lookup key = some row ∨
      op.aimsAt key row.domain ∧ (exec L now op).2.lookup key = some (op.sets L now row) := by
  have hupd : ∀ (scope : Scope) (h : String) (w : ItemRow → Bool) (f : ItemRow → ItemRow),
      op.writes? = some (scope, h) → (if w row then f row else row) = op.sets L now row →
      ¬ op.aimsAt key row.domain ∧ (update L scope h w f).2.lookup key = some row ∨
        op.aimsAt key row.domain ∧ (update L scope h w f).2.lookup key = some (op.sets L now row) := by
    intro scope h w f hw hset
    rw [update_lookup L hr, aimsAt_iff hw, ← hset]
    by_cases hk : scope.key h = key ∧ scope.domain = row.domain
    · exact .inr ⟨hk, by simp [hk]⟩
    · exact .inl ⟨hk, by simp [← and_assoc, hk]⟩
  cases op with
  | find | findBySourceRef | placedItems | listMoves | listDeletions =>
    exact .inl ⟨by simp [LedgerOp.aimsAt, LedgerOp.writes?], hr⟩
  | recordIfAbsent r =>
    have hkeep : (exec L now (.recordIfAbsent r)).2.lookup key = some row := by
      simp only [exec, recordIfAbsent]
      split
      · rename_i hnone
        refine (AList.lookup_insert_ne ?_).trans hr
        rintro rfl
        rw [hr] at hnone
        cases hnone
      · split <;> exact hr
    by_cases ha : (LedgerOp.recordIfAbsent r).aimsAt key row.domain
    · exact .inr ⟨ha, hkeep⟩
    · exact .inl ⟨ha, hkeep⟩
  | recordUpdate r =>
    have hu := hupd r.scope r.naturalKeyHash (fun _ => true) (updateValues r) rfl rfl
    simp only [exec, recordUpdate]
    split <;> rename_i heq <;> rwa [heq] at hu
  | recordFailure r error =>
    have hu := hupd r.scope r.naturalKeyHash (fun _ => true) (bump error) rfl rfl
    simp only [exec, recordFailure]
    split <;> rename_i heq
    · rwa [heq] at hu
    · rw [heq] at hu
      split
      · rename_i L' hnone
        have hne : key ≠ r.key := by
          rintro rfl
          rw [hnone] at hu
          simp at hu
        rw [AList.lookup_insert_ne hne]
        exact hu
      · exact hu
  | recordMove scope h dest toKey => exact hupd scope h _ _ rfl rfl
  | clearMove scope h => exact hupd scope h _ _ rfl rfl
  | recordAbsent scope h => exact hupd scope h _ _ rfl rfl
  | clearAbsent scope h => exact hupd scope h _ _ rfl rfl
  | applyDeletion scope h => exact hupd scope h _ _ rfl rfl
  | applyRelocation scope h => exact hupd scope h _ _ rfl rfl
  | recordReportedDeletion scope h =>
    have hu := hupd scope h (fun row => !row.deletionReportedAt.isSome)
      ({ · with deletionReportedAt := some now }) rfl
      (by cases hm : row.deletionReportedAt <;> simp [LedgerOp.sets, hm])
    simp only [exec, recordReportedDeletion, recordDeletion]
    split <;> rename_i heq <;> rwa [heq] at hu
  | recordTrashedDeletion scope h =>
    have hu := hupd scope h (fun row => !row.deletionTrashedAt.isSome)
      ({ · with deletionTrashedAt := some now }) rfl
      (by cases hm : row.deletionTrashedAt <;> simp [LedgerOp.sets, hm])
    simp only [exec, recordTrashedDeletion, recordDeletion]
    split <;> rename_i heq <;> rwa [heq] at hu

theorem update_lookup_none {scope : Scope} {h : String} {w : ItemRow → Bool} {f : ItemRow → ItemRow}
    {key : ItemKey} (hr : L.lookup key = none) : (update L scope h w f).2.lookup key = none := by
  by_cases hk : key = scope.key h
  · have hnone : row? L scope h = none := (row?_eq_none L).mpr fun r h' => by
      rw [← hk, hr] at h'
      cases h'
    simp [update_foreign L hnone, hr]
  · rw [update_lookup_ne L hk, hr]

theorem exec_lookup_none (op : LedgerOp) {key : ItemKey} (hr : L.lookup key = none) :
    (exec L now op).2.lookup key = none ∨
      ∃ row, op.inserts = some row ∧ op.aimsAt key row.domain ∧
        (exec L now op).2.lookup key = some row := by
  cases op with
  | find | findBySourceRef | placedItems | listMoves | listDeletions => exact .inl hr
  | recordIfAbsent r =>
    by_cases hk : r.key = key
    · subst hk
      refine .inr ⟨insertValues r, rfl, ⟨r.scope, r.naturalKeyHash, rfl, rfl, rfl⟩, ?_⟩
      simp [exec, recordIfAbsent, hr]
    · exact .inl ((exec_lookup_ne L now fun scope h he => by
        cases he
        exact Ne.symm hk).trans hr)
  | recordFailure r error =>
    by_cases hk : r.key = key
    · subst hk
      have hnone : row? L r.scope r.naturalKeyHash = none := (row?_eq_none L).mpr fun row h' => by
        rw [record_key, hr] at h'
        cases h'
      refine .inr ⟨failureValues r error, rfl, ⟨r.scope, r.naturalKeyHash, rfl, rfl, rfl⟩, ?_⟩
      simp [exec, recordFailure, update_foreign L hnone, hr]
    · exact .inl ((exec_lookup_ne L now fun scope h he => by
        cases he
        exact Ne.symm hk).trans hr)
  | recordUpdate r =>
    have hu : (update L r.scope r.naturalKeyHash (fun _ => true) (updateValues r)).2.lookup key = none :=
      update_lookup_none L hr
    simp only [exec, recordUpdate]
    split <;> rename_i heq <;> rw [heq] at hu <;> exact .inl hu
  | recordReportedDeletion scope h | recordTrashedDeletion scope h =>
    simp only [exec, recordReportedDeletion, recordTrashedDeletion, recordDeletion]
    split <;> rename_i heq <;>
      exact .inl ((congrArg (fun x => AList.lookup key (Prod.snd x)) heq).symm.trans
        (update_lookup_none L hr))
  | recordMove | clearMove | recordAbsent | clearAbsent | applyDeletion | applyRelocation =>
    exact .inl (update_lookup_none L hr)

section Resolve

/-- What a source reference resolves to: the key of a row, and its status. -/
def resolve (scope : Scope) (ref : String) : Option (String × Option ItemStatus) :=
  (findBySourceRef L scope ref).map fun r => (r.naturalKeyHash, r.status)

def refColumns (e : Sigma fun _ : ItemKey => ItemRow) : ItemKey × Domain × ItemStatus × Option String :=
  (e.1, e.2.domain, e.2.status, e.2.sourceRefHref)

theorem resolve_congr {L L' : Ledger} (h : L.entries.map refColumns = L'.entries.map refColumns)
    (scope : Scope) (ref : String) : resolve L scope ref = resolve L' scope ref := by
  unfold resolve findBySourceRef
  split
  · rfl
  · simp only [Option.map_map, rows]
    generalize L.entries = l at h ⊢
    generalize L'.entries = l' at h ⊢
    induction l generalizing l' with
    | nil =>
      rw [List.map_nil, eq_comm, List.map_eq_nil_iff] at h
      rw [h]
    | cons e l ih =>
      cases l' with
      | nil => cases h
      | cons e' l' =>
        simp only [List.map_cons, List.cons.injEq] at h
        obtain ⟨he, hl⟩ := h
        simp only [refColumns, Prod.mk.injEq] at he
        obtain ⟨hkey, hdomain, hstatus, href⟩ := he
        have hrest := ih l' hl
        by_cases hin : e.1.tenantId = scope.tenantId ∧ e.1.mappingId = scope.mappingId ∧ e.2.domain = scope.domain
        · have hin' := hin
          rw [hkey, hdomain] at hin'
          simp only [List.filterMap_cons, hin, hin', and_self, ↓reduceIte, List.find?_cons]
          rw [href]
          split
          · simp [ItemRow.mapRowToRecord, Scope.key, hkey, hstatus]
          · exact hrest
        · have hin' := hin
          rw [hkey, hdomain] at hin'
          simpa only [List.filterMap_cons, hin, hin', ↓reduceIte] using hrest

theorem kreplace_map {β : Type} (g : (Sigma fun _ : ItemKey => ItemRow) → β) {k : ItemKey} {row row' : ItemRow}
    (hg : g ⟨k, row'⟩ = g ⟨k, row⟩) (l : List (Sigma fun _ : ItemKey => ItemRow)) (hl : l.dlookup k = some row) :
    (l.kreplace k row').map g = l.map g := by
  induction l with
  | nil => rfl
  | cons e l ih =>
    obtain ⟨a, b⟩ := e
    by_cases ha : k = a
    · subst ha
      rw [List.dlookup_cons_eq, Option.some.injEq] at hl
      subst hl
      simp [List.kreplace, hg]
    · have hcons : List.kreplace k row' (⟨a, b⟩ :: l) = ⟨a, b⟩ :: l.kreplace k row' := by
        simp [List.kreplace, ha]
      rw [List.dlookup_cons_ne l ⟨a, b⟩ ha] at hl
      rw [hcons, List.map_cons, List.map_cons, ih hl]

theorem update_resolve {scope : Scope} {h : String} {w : ItemRow → Bool} {f : ItemRow → ItemRow}
    (hf : ∀ row, (f row).domain = row.domain ∧ (f row).status = row.status ∧
      (f row).sourceRefHref = row.sourceRefHref) (scope' : Scope) (ref : String) :
    resolve (update L scope h w f).2 scope' ref = resolve L scope' ref := by
  unfold update
  split
  · rename_i row hrow
    obtain ⟨hlook, -⟩ := (row?_eq_some L).mp (Option.filter_eq_some_iff.mp hrow).1
    obtain ⟨hd, hs, hr⟩ := hf row
    exact resolve_congr (kreplace_map refColumns (by simp only [refColumns, hd, hs, hr]) L.entries hlook) scope' ref
  · rfl

theorem recordDeletion_resolve {marked : ItemRow → Bool} {mark : ItemRow → ItemRow} {scope : Scope} {h : String}
    (hf : ∀ row, (mark row).domain = row.domain ∧ (mark row).status = row.status ∧
      (mark row).sourceRefHref = row.sourceRefHref) (scope' : Scope) (ref : String) :
    resolve (recordDeletion L marked mark scope h).2 scope' ref = resolve L scope' ref := by
  have hu : resolve (update L scope h (fun row => !marked row) mark).2 scope' ref = resolve L scope' ref :=
    update_resolve L hf scope' ref
  unfold recordDeletion
  split <;> rename_i heq <;> rwa [heq] at hu

end Resolve

end PgLedger

end OpenMigrate
