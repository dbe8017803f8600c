import OpenMigrate.Billing.Calendar
import OpenMigrate.Billing.Metering
import OpenMigrate.Ledger.Effect

namespace OpenMigrate.Billing

open Calendar

/-- A successful write of an item: `recordIfAbsent` created its row, or `recordUpdate` rewrote it. -/
inductive Write where
  | created (at_ : Instant)
  | rewritten (at_ : Instant)
  deriving DecidableEq

def Write.time : Write → Instant
  | created at_ => at_
  | rewritten at_ => at_

/-- A write that the period of its month counts: a rewriting, before the last day has begun. -/
def Write.InTime : Write → Prop
  | created _ => False
  | rewritten at_ => ∃ M : Month, M.Has at_ ∧ at_ ≤ M.lastMidnight

/-- What a write leaves in `last_synced_at`. -/
def Write.synced : Write → Option Instant
  | created _ => none
  | rewritten at_ => some at_

/-- The `item` table with the column that metering reads; the last write of an item is of the model. -/
structure MeteredLedger where
  rows : Ledger := ∅
  lastSyncedAt : ItemKey → Option Instant := fun _ => none
  lastWrite : ItemKey → Option Write := fun _ => none

namespace MeteredLedger

/-- INSERT leaves `last_synced_at` to its default, NULL. -/
def inserted (s : MeteredLedger) (key : ItemKey) (write : Option Write) : MeteredLedger :=
  if (s.rows.lookup key).isSome then s
  else
    { s with
      lastSyncedAt := Function.update s.lastSyncedAt key none
      lastWrite := Function.update s.lastWrite key write }

/-- The columns after an operation; only `recordUpdate` sets `last_synced_at`, to now(). -/
def columns (s : MeteredLedger) (now : Instant) : LedgerOp → MeteredLedger
  | .recordIfAbsent record => s.inserted record.key (some (.created now))
  | .recordFailure record _ => s.inserted record.key none
  | .recordUpdate record =>
    if (PgLedger.row? s.rows record.scope record.naturalKeyHash).isSome then
      { s with
        lastSyncedAt := Function.update s.lastSyncedAt record.key (some now)
        lastWrite := Function.update s.lastWrite record.key (some (.rewritten now)) }
    else s
  | _ => s

def exec (s : MeteredLedger) (op : Instant × LedgerOp) : MeteredLedger :=
  { s.columns op.1 op.2 with rows := (PgLedger.exec s.rows op.1 op.2).2 }

def run (history : List (Instant × LedgerOp)) : MeteredLedger := history.foldl exec {}

def item (s : MeteredLedger) (e : (_ : ItemKey) × ItemRow) : MeteredItem where
  tenantId := e.1.tenantId
  status := e.2.status
  sizeBytes := e.2.sizeBytes
  lastSyncedAt := s.lastSyncedAt e.1

def items (s : MeteredLedger) (rows : Ledger) : List MeteredItem := rows.entries.map s.item

end MeteredLedger

def Date.UTC (year month day : ℕ) : Instant := (firstDay (12 * (year - 1970) + month) + day - 1) * dayMs

/-- `toISOString().slice(0, 10)`: a date is its number of days since 1 January 1970. -/
def toDate (t : Instant) : ℕ := t / dayMs

def newDate (date : ℕ) : Instant := date * dayMs

/-- What the route makes of `YYYY-MM`, and `deriveStorageAndEgressForPeriod` of the dates it gets. -/
def invoicePeriod (M : Month) : Instant × Instant :=
  let periodStart := firstDay M.index
  let periodEnd := toDate (Date.UTC M.year M.month 0)
  (newDate periodStart, newDate periodEnd)

/-- The WHERE clause of `deriveStorageAndEgressForPeriod`. -/
def counted (tenantId : String) (periodStart periodEnd : Instant) (item : MeteredItem) : Bool :=
  item.tenantId == tenantId && [.copied, .updated, .skipped].contains item.status &&
    item.lastSyncedAt.any fun at_ => periodStart ≤ at_ && at_ ≤ periodEnd

def MeteredLedger.countedIn (s : MeteredLedger) (key : ItemKey) (row : ItemRow) (M : Month) : Bool :=
  counted key.tenantId (invoicePeriod M).1 (invoicePeriod M).2 (s.item ⟨key, row⟩)

/-- One month has the item's last write, and the item is counted for that month alone. -/
def MeteredLedger.CountedOnce (s : MeteredLedger) (key : ItemKey) (row : ItemRow) : Prop :=
  ∃ t, (s.lastWrite key).map Write.time = some t ∧
    ∃ M : Month, (∀ M' : Month, M'.Has t ↔ M' = M) ∧ ∀ M', s.countedIn key row M' = true ↔ M' = M

/-- The months partition the bytes of the items that are copied or updated. -/
def MeteredLedger.Partitioned (s : MeteredLedger) : Prop :=
  ∀ key row, s.rows.lookup key = some row → PgLedger.ours row = true → s.CountedOnce key row

theorem invoicePeriod_eq (M : Month) : invoicePeriod M = (M.start, M.lastMidnight) := by
  have hindex : 12 * (M.year - 1970) + M.month = M.index + 1 := by
    have h := M.first
    unfold Month.index
    omega
  unfold invoicePeriod Date.UTC toDate newDate
  rw [hindex, Nat.add_zero, Nat.mul_div_cancel _ dayMs_pos]
  rfl

section Sums

variable {tenantId : String} {periodStart periodEnd : Instant}

theorem counted_sum (items : List MeteredItem) :
    (deriveStorageAndEgressForPeriod items tenantId periodStart periodEnd).1 =
      (items.map fun item =>
        if counted tenantId periodStart periodEnd item then item.sizeBytes.getD 0 else 0).sum := by
  unfold deriveStorageAndEgressForPeriod
  change ((items.filter (counted tenantId periodStart periodEnd)).map fun item => item.sizeBytes.getD 0).sum = _
  induction items with
  | nil => rfl
  | cons item items ih =>
    rw [List.map_cons, List.sum_cons, ← ih]
    by_cases h : counted tenantId periodStart periodEnd item
    · rw [List.filter_cons_of_pos h, if_pos h, List.map_cons, List.sum_cons]
    · rw [List.filter_cons_of_neg h, if_neg h, Nat.zero_add]

theorem counted_adds (s : MeteredLedger) {key : ItemKey} {row : ItemRow} (hrow : s.rows.lookup key = some row) :
    (deriveStorageAndEgressForPeriod (s.items s.rows) tenantId periodStart periodEnd).1 =
      (deriveStorageAndEgressForPeriod (s.items (s.rows.erase key)) tenantId periodStart periodEnd).1 +
        if counted tenantId periodStart periodEnd (s.item ⟨key, row⟩) then row.sizeBytes.getD 0 else 0 := by
  rw [counted_sum, counted_sum]
  unfold MeteredLedger.items
  have hsum := sum_kerase (fun e => if counted tenantId periodStart periodEnd (s.item e) then
    (s.item e).sizeBytes.getD 0 else 0) key s.rows.entries
  rw [List.map_map, List.map_map]
  unfold AList.lookup at hrow
  rw [hrow, Option.map_some, Option.getD_some] at hsum
  exact hsum.symm

end Sums

section Invariant

variable {s : MeteredLedger} {now : Instant} {op : LedgerOp} {key : ItemKey} {row row' : ItemRow}

/-- `last_synced_at` knows the rewritings only, and an item on the target was written. -/
structure MeteredLedger.Sound (s : MeteredLedger) : Prop where
  synced : ∀ key, s.lastSyncedAt key = (s.lastWrite key).bind Write.synced
  written : ∀ key row, s.rows.lookup key = some row → PgLedger.ours row = true → (s.lastWrite key).isSome = true

theorem update_synced (h : ∀ key, s.lastSyncedAt key = (s.lastWrite key).bind Write.synced) (k : ItemKey)
    (write : Option Write) (key : ItemKey) :
    Function.update s.lastSyncedAt k (write.bind Write.synced) key =
      (Function.update s.lastWrite k write key).bind Write.synced := by
  by_cases hk : key = k
  · rw [hk, Function.update_self, Function.update_self]
  · rw [Function.update_of_ne hk, Function.update_of_ne hk, h]

theorem columns_synced (h : ∀ key, s.lastSyncedAt key = (s.lastWrite key).bind Write.synced) (key : ItemKey) :
    (s.columns now op).lastSyncedAt key = ((s.columns now op).lastWrite key).bind Write.synced := by
  have hinserted : ∀ (k : ItemKey) (write : Option Write), write.bind Write.synced = none →
      (s.inserted k write).lastSyncedAt key = ((s.inserted k write).lastWrite key).bind Write.synced := by
    intro k write hwrite
    unfold MeteredLedger.inserted
    split
    · exact h key
    · have hupdate := update_synced h k write key
      rwa [hwrite] at hupdate
  cases op with
  | recordIfAbsent record => exact hinserted _ _ rfl
  | recordFailure record error => exact hinserted _ _ rfl
  | recordUpdate record =>
    unfold MeteredLedger.columns
    dsimp only
    split
    · exact update_synced h record.key (some (.rewritten now)) key
    · exact h key
  | find | findBySourceRef | placedItems | recordMove | clearMove | listMoves | recordAbsent | recordReportedDeletion
  | recordTrashedDeletion | clearAbsent | listDeletions | applyDeletion | applyRelocation => exact h key

theorem columns_written (hrow : (s.rows.lookup key).isSome = true) (h : (s.lastWrite key).isSome = true) :
    ((s.columns now op).lastWrite key).isSome = true := by
  have hinserted : ∀ (k : ItemKey) (write : Option Write), ((s.inserted k write).lastWrite key).isSome = true := by
    intro k write
    unfold MeteredLedger.inserted
    split
    · exact h
    · rename_i hnone
      have hne : key ≠ k := by
        rintro rfl
        exact hnone hrow
      change (Function.update s.lastWrite k write key).isSome = true
      rwa [Function.update_of_ne hne]
  cases op with
  | recordIfAbsent record => exact hinserted _ _
  | recordFailure record error => exact hinserted _ _
  | recordUpdate record =>
    unfold MeteredLedger.columns
    dsimp only
    split
    · change (Function.update s.lastWrite record.key (some (.rewritten now)) key).isSome = true
      by_cases hk : key = record.key
      · rw [hk, Function.update_self]
        rfl
      · rwa [Function.update_of_ne hk]
    · exact h
  | find | findBySourceRef | placedItems | recordMove | clearMove | listMoves | recordAbsent | recordReportedDeletion
  | recordTrashedDeletion | clearAbsent | listDeletions | applyDeletion | applyRelocation => exact h

theorem ours_of_sets {L : Ledger} (hop : ∀ record, op ≠ .recordUpdate record)
    (h : PgLedger.ours (op.sets L now row) = true) : PgLedger.ours row = true := by
  cases op with
  | recordUpdate record => exact absurd rfl (hop record)
  | recordFailure record error => cases h
  | find | findBySourceRef | recordIfAbsent | placedItems | recordMove | clearMove | listMoves | recordAbsent
  | listDeletions => exact h
  | recordReportedDeletion | recordTrashedDeletion | clearAbsent =>
    simp only [LedgerOp.sets] at h
    split at h <;> exact h
  | applyDeletion | applyRelocation =>
    simp only [LedgerOp.sets] at h
    split at h
    · cases h
    · exact h

theorem update_written {record : LedgerRecord} (hrow : s.rows.lookup key = some row)
    (haims : (LedgerOp.recordUpdate record).aimsAt key row.domain) :
    ((s.columns now (.recordUpdate record)).lastWrite key).isSome = true := by
  obtain ⟨hkey, hdomain⟩ := (PgLedger.aimsAt_iff rfl).mp haims
  have hfound : PgLedger.row? s.rows record.scope record.naturalKeyHash = some row := by
    apply (PgLedger.row?_eq_some s.rows).mpr
    rw [hkey]
    exact ⟨hrow, hdomain.symm⟩
  have hself : record.key = key := hkey
  unfold MeteredLedger.columns
  dsimp only
  rw [if_pos (by rw [hfound]; rfl), hself]
  change (Function.update s.lastWrite key _ key).isSome = true
  rw [Function.update_self]
  rfl

theorem insert_written (hnone : s.rows.lookup key = none) (hinserts : op.inserts = some row)
    (haims : op.aimsAt key row.domain) (hours : PgLedger.ours row = true) :
    ((s.columns now op).lastWrite key).isSome = true := by
  cases op with
  | recordIfAbsent record =>
    obtain ⟨hkey, -⟩ := (PgLedger.aimsAt_iff rfl).mp haims
    have hself : record.key = key := hkey
    unfold MeteredLedger.columns MeteredLedger.inserted
    dsimp only
    rw [hself, hnone, if_neg (by decide)]
    change (Function.update s.lastWrite key _ key).isSome = true
    rw [Function.update_self]
    rfl
  | recordFailure record error =>
    cases hinserts
    cases hours
  | find | findBySourceRef | recordUpdate | placedItems | recordMove | clearMove | listMoves | recordAbsent
  | recordReportedDeletion | recordTrashedDeletion | clearAbsent | listDeletions | applyDeletion | applyRelocation =>
    cases hinserts

theorem exec_sound (h : s.Sound) (op : Instant × LedgerOp) : (s.exec op).Sound := by
  obtain ⟨now, op⟩ := op
  constructor
  · exact columns_synced h.synced
  · intro key row' hrow' hours
    change (PgLedger.exec s.rows now op).2.lookup key = some row' at hrow'
    change ((s.columns now op).lastWrite key).isSome = true
    cases hrow : s.rows.lookup key with
    | none =>
      obtain hstill | ⟨row, hinserts, haims, hnew⟩ := PgLedger.exec_lookup_none s.rows now op hrow
      · rw [hstill] at hrow'
        cases hrow'
      · rw [hnew, Option.some.injEq] at hrow'
        rw [← hrow'] at hours
        exact insert_written hrow hinserts haims hours
    | some row =>
      have hthere : (s.rows.lookup key).isSome = true := by
        rw [hrow]
        rfl
      obtain ⟨-, hsame⟩ | ⟨haims, hset⟩ := PgLedger.exec_lookup_some s.rows now op hrow
      · rw [hsame, Option.some.injEq] at hrow'
        rw [← hrow'] at hours
        exact columns_written hthere (h.written key row hrow hours)
      · rw [hset, Option.some.injEq] at hrow'
        rw [← hrow'] at hours
        by_cases hop : ∃ record, op = .recordUpdate record
        · obtain ⟨record, rfl⟩ := hop
          exact update_written hrow haims
        · have hbefore := ours_of_sets (fun record he => hop ⟨record, he⟩) hours
          exact columns_written hthere (h.written key row hrow hbefore)

theorem run_sound (history : List (Instant × LedgerOp)) : (MeteredLedger.run history).Sound := by
  induction history using List.reverseRecOn with
  | nil =>
    constructor
    · intro key
      rfl
    · rintro key row ⟨⟩
  | append_singleton history op ih =>
    unfold MeteredLedger.run
    rw [List.foldl_append]
    exact exec_sound ih op

end Invariant

section Counted

variable {s : MeteredLedger} {key : ItemKey} {row : ItemRow}

theorem countedIn_iff (hours : PgLedger.ours row = true) (M : Month) :
    s.countedIn key row M = true ↔ ∃ t, s.lastSyncedAt key = some t ∧ M.start ≤ t ∧ t ≤ M.lastMidnight := by
  have hstatus : [.copied, .updated, .skipped].contains (s.item ⟨key, row⟩).status = true := by
    change [ItemStatus.copied, .updated, .skipped].contains row.status = true
    unfold PgLedger.ours at hours
    cases hs : row.status <;> rw [hs] at hours <;> first | rfl | cases hours
  unfold MeteredLedger.countedIn counted
  rw [invoicePeriod_eq]
  change (key.tenantId == key.tenantId && _ && _) = true ↔ _
  rw [beq_self_eq_true, hstatus]
  simp [MeteredLedger.item, Option.any_eq_true]

theorem counted_has (hours : PgLedger.ours row = true) {M : Month} (h : s.countedIn key row M = true) :
    ∃ t, s.lastSyncedAt key = some t ∧ M.Has t := by
  obtain ⟨t, ht, hstart, hlast⟩ := (countedIn_iff hours M).mp h
  exact ⟨t, ht, hstart, lt_of_le_of_lt hlast M.lastMidnight_lt_stop⟩

theorem counted_once_iff (hsound : s.Sound) (hours : PgLedger.ours row = true) :
    s.CountedOnce key row ↔ ∃ write, s.lastWrite key = some write ∧ write.InTime := by
  have hsynced := hsound.synced key
  constructor
  · rintro ⟨t, ht, M, hM, hcounted⟩
    obtain ⟨t', ht', hstart, hlast⟩ := (countedIn_iff hours M).mp ((hcounted M).mpr rfl)
    cases hwrite : s.lastWrite key with
    | none =>
      rw [hwrite] at ht
      cases ht
    | some write =>
      rw [hwrite, ht'] at hsynced
      cases write with
      | created at_ => cases hsynced
      | rewritten at_ =>
        cases hsynced
        exact ⟨.rewritten t', rfl, M, ⟨hstart, lt_of_le_of_lt hlast M.lastMidnight_lt_stop⟩, hlast⟩
  · rintro ⟨write, hwrite, hin⟩
    rw [hwrite] at hsynced
    cases write with
    | created at_ => exact hin.elim
    | rewritten t =>
      obtain ⟨M, hM, hlast⟩ := hin
      refine ⟨t, by rw [hwrite]; rfl, M, fun M' => ⟨fun h => Month.has_unique h hM, ?_⟩, fun M' => ⟨?_, ?_⟩⟩
      · rintro rfl
        exact hM
      · intro h
        obtain ⟨t', ht', hM'⟩ := counted_has hours h
        rw [hsynced] at ht'
        cases ht'
        exact Month.has_unique hM' hM
      · rintro rfl
        exact (countedIn_iff hours M').mpr ⟨t, hsynced, hM.1, hlast⟩

/-- A rewriting is late only on the last day of its month. -/
theorem rewritten_inTime_iff {t : Instant} (ht : t < monthStart (12 * 8030)) :
    (Write.rewritten t).InTime ↔ ∀ M : Month, M.Has t → t ≤ M.lastMidnight := by
  obtain ⟨M, hM, -⟩ := Month.existsUnique_has ht
  constructor
  · rintro ⟨M', hM', hlast⟩ M'' hM''
    rwa [Month.has_unique hM'' hM']
  · intro h
    exact ⟨M, hM, h M hM⟩

/-- The months partition the metered bytes if and only if every item on the target was last written by a rewriting, and
no later than the midnight with which the last day of the month begins. -/
theorem months_partition_iff (history : List (Instant × LedgerOp)) :
    (MeteredLedger.run history).Partitioned ↔
      ∀ key row write, (MeteredLedger.run history).rows.lookup key = some row → PgLedger.ours row = true →
        (MeteredLedger.run history).lastWrite key = some write → write.InTime := by
  have hsound := run_sound history
  constructor
  · intro h key row write hrow hours hwrite
    obtain ⟨write', hwrite', hin⟩ := (counted_once_iff hsound hours).mp (h key row hrow hours)
    rw [hwrite, Option.some.injEq] at hwrite'
    rwa [hwrite']
  · intro h key row hrow hours
    obtain ⟨write, hwrite⟩ := Option.isSome_iff_exists.mp (hsound.written key row hrow hours)
    exact (counted_once_iff hsound hours).mpr ⟨write, hwrite, h key row write hrow hours hwrite⟩

end Counted

namespace Sample

def contract : LedgerRecord where
  tenantId := "t"
  mappingId := "m"
  itemType := .file
  naturalKeyHash := "k"
  contentHash := "c"
  targetId := "x"
  sizeBytes := some 1000

/-- An item that is copied on 3 August 2026, and no more touched. -/
def copied : List (Instant × LedgerOp) := [(1785800000000, .recordIfAbsent contract)]

/-- It is rewritten at noon of 31 August. -/
def rewritten : List (Instant × LedgerOp) := copied ++ [(1788177600000, .recordUpdate contract)]

end Sample

theorem bytes_are_in_no_month :
    ¬ (MeteredLedger.run Sample.copied).Partitioned ∧ ¬ (MeteredLedger.run Sample.rewritten).Partitioned := by
  constructor
  · intro h
    obtain ⟨write, hwrite, hin⟩ := (counted_once_iff (run_sound _) rfl).mp (h Sample.contract.key _ rfl rfl)
    cases hwrite
    exact hin
  · intro h
    obtain ⟨write, hwrite, hin⟩ := (counted_once_iff (run_sound _) rfl).mp (h Sample.contract.key _ rfl rfl)
    cases hwrite
    have hbefore : 1788177600000 < monthStart (12 * 8030) :=
      lt_of_lt_of_le (b := monthStart 680) (by decide +kernel) (monthStart_strictMono.monotone (by omega))
    have hlast := (rewritten_inTime_iff hbefore).mp hin ⟨2026, 8, by omega, by omega, by omega, by omega⟩
      ⟨by decide +kernel, by decide +kernel⟩
    exact absurd hlast (by decide +kernel)

end OpenMigrate.Billing
