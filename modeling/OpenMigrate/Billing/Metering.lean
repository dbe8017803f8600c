import Mathlib.Algebra.Order.BigOperators.Group.Finset
import Mathlib.Algebra.Order.Ring.Rat
import Mathlib.Data.Rat.Floor
import Mathlib.Tactic.Linarith
import Mathlib.Tactic.Ring
import OpenMigrate.Ledger.Record

namespace OpenMigrate.Billing

inductive MetricType where
  | storage
  | egress
  | compute
  | apiCalls
  deriving DecidableEq

/-- A completed run of one domain of a mapping; `runId` is of the model, the meter is not given it. -/
structure DomainRun where
  runId : String
  mappingId : String
  domain : Domain
  startedAt : Instant
  completedAt : Instant
  ended : startedAt ≤ completedAt
  deriving DecidableEq

/-- The columns of the unique index of `usage_metric`. -/
structure UsageKey where
  tenantId : String
  periodStart : Instant
  metricType : MetricType
  resource : String
  deriving DecidableEq

/-- The timing of a compute row, which a row of calls does not have. -/
structure UsageMetadata where
  mappingId : String
  domain : Domain
  startedAt : Option Instant := none
  completedAt : Option Instant := none
  durationMinutes : Option ℚ := none

structure UsageRow where
  periodEnd : Instant
  quantity : ℚ
  unit : String
  unitPrice : ℚ
  totalCost : ℤ
  metadata : UsageMetadata

abbrev UsageTable := AList (fun _ : UsageKey => UsageRow)

@[ext] structure UsageMetricsResult where
  storageBytes : ℕ
  egressBytes : ℕ
  computeHours : ℚ
  apiCallCount : ℚ

/-- What a job run hands to the meter, a date being the instant that `new Date` reads in it. -/
structure Metering where
  tenantId : String
  periodStart : Instant
  periodEnd : Instant
  computePricePerHour : ℕ
  run : DomainRun

/-- The columns of an item that the derived figures read. -/
structure MeteredItem where
  tenantId : String
  status : ItemStatus
  sizeBytes : Option ℕ
  lastSyncedAt : Option Instant

def DomainRun.durationMinutes (run : DomainRun) : ℚ := ((run.completedAt : ℚ) - run.startedAt) / (1000 * 60)

def DomainRun.durationHours (run : DomainRun) : ℚ := run.durationMinutes / 60

def Math.round (x : ℚ) : ℤ := ⌊x + 1 / 2⌋

/-- INSERT … ON CONFLICT DO UPDATE: the row of the key is updated by `set`, or `values` is inserted. -/
def upsert (table : UsageTable) (key : UsageKey) (values : UsageRow) (set : UsageRow → UsageRow) : UsageTable :=
  table.insert key (((table.lookup key).map set).getD values)

def computeKey (tenantId : String) (periodStart : Instant) (domain : Domain) : UsageKey where
  tenantId := tenantId
  periodStart := periodStart
  metricType := .compute
  resource := "domain-" ++ domain.name

def apiCallKey (tenantId : String) (periodStart : Instant) (domain : Domain) : UsageKey where
  tenantId := tenantId
  periodStart := periodStart
  metricType := .apiCalls
  resource := "sync-" ++ domain.name

def recordComputeForRun (table : UsageTable) (m : Metering) : UsageTable :=
  let cost := Math.round (m.run.durationHours * m.computePricePerHour)
  upsert table (computeKey m.tenantId m.periodStart m.run.domain)
    { periodEnd := m.periodEnd
      quantity := m.run.durationHours
      unit := "hours"
      unitPrice := m.computePricePerHour
      totalCost := cost
      metadata := {
        mappingId := m.run.mappingId
        domain := m.run.domain
        startedAt := some m.run.startedAt
        completedAt := some m.run.completedAt
        durationMinutes := some m.run.durationMinutes } }
    (fun row => { row with quantity := m.run.durationHours, totalCost := cost })

def recordApiCallForRun (table : UsageTable) (m : Metering) : UsageTable :=
  upsert table (apiCallKey m.tenantId m.periodStart m.run.domain)
    { periodEnd := m.periodEnd
      quantity := 1
      unit := "request"
      unitPrice := 0
      totalCost := 0
      metadata := { mappingId := m.run.mappingId, domain := m.run.domain } }
    (fun row => { row with quantity := 1 })

/-- The metering of one domain of a run: its compute, then its one operation. -/
def meter (table : UsageTable) (m : Metering) : UsageTable := recordApiCallForRun (recordComputeForRun table m) m

def metered (history : List Metering) : UsageTable := history.foldl meter ∅

def deriveStorageAndEgressForPeriod (items : List MeteredItem) (tenantId : String) (periodStart periodEnd : Instant) :
    ℕ × ℕ :=
  let counted := items.filter fun item =>
    item.tenantId == tenantId && [.copied, .updated, .skipped].contains item.status &&
      item.lastSyncedAt.any fun at_ => periodStart ≤ at_ && at_ ≤ periodEnd
  let storageBytes := (counted.map fun item => item.sizeBytes.getD 0).sum
  (storageBytes, storageBytes)

def addMetric (totals : ℚ × ℚ) (metric : (_ : UsageKey) × UsageRow) : ℚ × ℚ :=
  match metric.1.metricType with
  | .compute => (totals.1 + metric.2.quantity, totals.2)
  | .apiCalls => (totals.1, totals.2 + metric.2.quantity)
  | _ => totals

def getUsageMetricsForPeriod (items : List MeteredItem) (table : UsageTable) (tenantId : String)
    (periodStart periodEnd : Instant) : UsageMetricsResult :=
  let (storageBytes, egressBytes) := deriveStorageAndEgressForPeriod items tenantId periodStart periodEnd
  let metrics := table.entries.filter fun metric => metric.1.tenantId == tenantId && metric.1.periodStart == periodStart
  let (computeHours, apiCallCount) := metrics.foldl addMetric (0, 0)
  { storageBytes, egressBytes, computeHours, apiCallCount }

/-- The distinct completed runs of a tenant's period in a history of meterings. -/
def runsOf (tenantId : String) (periodStart : Instant) (history : List Metering) : Finset DomainRun :=
  ((history.filter fun m => m.tenantId == tenantId && m.periodStart == periodStart).map (·.run)).toFinset

section Tables

variable {table : UsageTable} {key k : UsageKey} {values : UsageRow} {set : UsageRow → UsageRow} {q : ℚ}

theorem sum_kerase {α β M : Type} [DecidableEq α] [AddCommMonoid M] (f : (_ : α) × β → M) (k : α)
    (l : List ((_ : α) × β)) :
    ((l.kerase k).map f).sum + ((l.dlookup k).map fun row => f ⟨k, row⟩).getD 0 = (l.map f).sum := by
  induction l with
  | nil => simp
  | cons e l ih =>
    by_cases h : k = e.1
    · subst h
      rw [List.kerase_cons_eq rfl, List.dlookup_cons_eq, List.map_cons, List.sum_cons]
      exact add_comm _ _
    · rw [List.kerase_cons_ne h, List.dlookup_cons_ne _ _ h, List.map_cons, List.sum_cons, List.map_cons, List.sum_cons,
        ← ih, add_assoc]

theorem sum_insert (f : (_ : UsageKey) × UsageRow → ℚ) (table : UsageTable) (k : UsageKey) (row : UsageRow) :
    ((table.insert k row).entries.map f).sum + ((table.lookup k).map fun row => f ⟨k, row⟩).getD 0 =
      (table.entries.map f).sum + f ⟨k, row⟩ := by
  have h := sum_kerase f k table.entries
  rw [AList.entries_insert, List.map_cons, List.sum_cons]
  rw [← h, AList.lookup]
  ring

def held (table : UsageTable) (key : UsageKey) : Option ℚ := (table.lookup key).map (·.quantity)

/-- The quantities of one type that a tenant's period holds, added up. -/
def amount (tenantId : String) (periodStart : Instant) (metricType : MetricType) (table : UsageTable) : ℚ :=
  (table.entries.map fun e =>
    if e.1.tenantId = tenantId ∧ e.1.periodStart = periodStart ∧ e.1.metricType = metricType then e.2.quantity else 0).sum

theorem upsert_quantity (hvalues : values.quantity = q) (hset : ∀ row, (set row).quantity = q) (old : Option UsageRow) :
    ((old.map set).getD values).quantity = q := by
  cases old with
  | none => exact hvalues
  | some row => exact hset row

theorem upsert_held (hvalues : values.quantity = q) (hset : ∀ row, (set row).quantity = q) :
    held (upsert table key values set) k = if k = key then some q else held table k := by
  unfold held upsert
  split
  · rename_i h
    rw [h, AList.lookup_insert, Option.map_some, upsert_quantity hvalues hset]
  · rename_i h
    rw [AList.lookup_insert_ne h]

theorem upsert_amount {tenantId : String} {periodStart : Instant} {metricType : MetricType} (hvalues : values.quantity = q)
    (hset : ∀ row, (set row).quantity = q)
    (hkey : key.tenantId = tenantId ∧ key.periodStart = periodStart ∧ key.metricType = metricType) :
    amount tenantId periodStart metricType (upsert table key values set) + (held table key).getD 0 =
      amount tenantId periodStart metricType table + q := by
  have h := sum_insert (fun e => if e.1.tenantId = tenantId ∧ e.1.periodStart = periodStart ∧ e.1.metricType = metricType
    then e.2.quantity else 0) table key (((table.lookup key).map set).getD values)
  simp only [hkey, and_self, if_true, upsert_quantity hvalues hset] at h
  exact h

theorem upsert_amount_other {tenantId : String} {periodStart : Instant} {metricType : MetricType}
    (hkey : ¬ (key.tenantId = tenantId ∧ key.periodStart = periodStart ∧ key.metricType = metricType)) :
    amount tenantId periodStart metricType (upsert table key values set) = amount tenantId periodStart metricType table := by
  have h := sum_insert (fun e => if e.1.tenantId = tenantId ∧ e.1.periodStart = periodStart ∧ e.1.metricType = metricType
    then e.2.quantity else 0) table key (((table.lookup key).map set).getD values)
  have hzero : ((table.lookup key).map fun _ : UsageRow => (0 : ℚ)).getD 0 = 0 := by
    cases table.lookup key <;> rfl
  simp only [hkey, if_false, hzero, add_zero] at h
  exact h

end Tables

section Keys

variable {t t' : String} {p p' : Instant} {d d' : Domain}

theorem domain_name_inj : d.name = d'.name ↔ d = d' := by
  constructor
  · intro h
    cases d <;> cases d' <;> first | rfl | exact absurd h (by decide)
  · rintro rfl
    rfl

theorem computeKey_inj : computeKey t p d = computeKey t' p' d' ↔ t = t' ∧ p = p' ∧ d = d' := by
  simp [computeKey, domain_name_inj]

theorem apiCallKey_inj : apiCallKey t p d = apiCallKey t' p' d' ↔ t = t' ∧ p = p' ∧ d = d' := by
  simp [apiCallKey, domain_name_inj]

theorem computeKey_ne_apiCallKey : computeKey t p d ≠ apiCallKey t' p' d' := by
  simp [computeKey, apiCallKey]

end Keys

section Meter

variable {t : String} {p : Instant}

def Metering.isOf (m : Metering) (t : String) (p : Instant) : Prop := m.tenantId = t ∧ m.periodStart = p

instance (m : Metering) : Decidable (m.isOf t p) := inferInstanceAs (Decidable (_ ∧ _))

/-- A figure that the meter keeps: a row for each domain, holding `q` of the domain's last run. -/
structure Figure (t : String) (p : Instant) (metricType : MetricType) (key : Domain → UsageKey) (q : DomainRun → ℚ) :
    Prop where
  row : ∀ (table : UsageTable) (m : Metering) (d : Domain),
    held (meter table m) (key d) = if m.isOf t p ∧ d = m.run.domain then some (q m.run) else held table (key d)
  total : ∀ (table : UsageTable) (m : Metering), m.isOf t p →
    amount t p metricType (meter table m) + (held table (key m.run.domain)).getD 0 =
      amount t p metricType table + q m.run
  others : ∀ (table : UsageTable) (m : Metering), ¬ m.isOf t p →
    amount t p metricType (meter table m) = amount t p metricType table

theorem compute_held (table : UsageTable) (m : Metering) (k : UsageKey) :
    held (recordComputeForRun table m) k =
      if k = computeKey m.tenantId m.periodStart m.run.domain then some m.run.durationHours else held table k :=
  upsert_held rfl fun _ => rfl

theorem apiCall_held (table : UsageTable) (m : Metering) (k : UsageKey) :
    held (recordApiCallForRun table m) k =
      if k = apiCallKey m.tenantId m.periodStart m.run.domain then some 1 else held table k :=
  upsert_held rfl fun _ => rfl

theorem compute_amount_other {metricType : MetricType} (table : UsageTable) (m : Metering)
    (h : ¬ m.isOf t p ∨ metricType ≠ .compute) :
    amount t p metricType (recordComputeForRun table m) = amount t p metricType table := by
  apply upsert_amount_other
  rintro ⟨htenant, hperiod, htype⟩
  obtain h | h := h
  · exact h ⟨htenant, hperiod⟩
  · exact h htype.symm

theorem apiCall_amount_other {metricType : MetricType} (table : UsageTable) (m : Metering)
    (h : ¬ m.isOf t p ∨ metricType ≠ .apiCalls) :
    amount t p metricType (recordApiCallForRun table m) = amount t p metricType table := by
  apply upsert_amount_other
  rintro ⟨htenant, hperiod, htype⟩
  obtain h | h := h
  · exact h ⟨htenant, hperiod⟩
  · exact h htype.symm

theorem compute_figure (t : String) (p : Instant) : Figure t p .compute (computeKey t p) DomainRun.durationHours := by
  constructor
  · intro table m d
    have hiff : computeKey t p d = computeKey m.tenantId m.periodStart m.run.domain ↔ m.isOf t p ∧ d = m.run.domain := by
      rw [computeKey_inj, Metering.isOf, and_assoc, @eq_comm _ t, @eq_comm _ p]
    rw [meter, apiCall_held, if_neg computeKey_ne_apiCallKey, compute_held]
    simp only [hiff]
  · rintro table m ⟨rfl, rfl⟩
    rw [meter, apiCall_amount_other _ m (.inr (by decide))]
    exact upsert_amount rfl (fun _ => rfl) ⟨rfl, rfl, rfl⟩
  · intro table m hm
    rw [meter, apiCall_amount_other _ m (.inl hm), compute_amount_other table m (.inl hm)]

theorem apiCall_figure (t : String) (p : Instant) : Figure t p .apiCalls (apiCallKey t p) fun _ => 1 := by
  constructor
  · intro table m d
    have hiff : apiCallKey t p d = apiCallKey m.tenantId m.periodStart m.run.domain ↔ m.isOf t p ∧ d = m.run.domain := by
      rw [apiCallKey_inj, Metering.isOf, and_assoc, @eq_comm _ t, @eq_comm _ p]
    rw [meter, apiCall_held, compute_held, if_neg computeKey_ne_apiCallKey.symm]
    simp only [hiff]
  · rintro table m ⟨rfl, rfl⟩
    have hheld : held (recordComputeForRun table m) (apiCallKey m.tenantId m.periodStart m.run.domain) =
        held table (apiCallKey m.tenantId m.periodStart m.run.domain) := by
      rw [compute_held, if_neg computeKey_ne_apiCallKey.symm]
    have htotal : amount m.tenantId m.periodStart .apiCalls (recordComputeForRun table m) =
        amount m.tenantId m.periodStart .apiCalls table :=
      compute_amount_other table m (.inr (by decide))
    rw [← hheld, ← htotal]
    exact upsert_amount rfl (fun _ => rfl) ⟨rfl, rfl, rfl⟩
  · intro table m hm
    rw [meter, apiCall_amount_other _ m (.inl hm), compute_amount_other table m (.inl hm)]

end Meter

section History

variable {t : String} {p : Instant} {history : List Metering} {m : Metering} {metricType : MetricType}
  {key : Domain → UsageKey} {q : DomainRun → ℚ}

theorem metered_append (history : List Metering) (m : Metering) :
    metered (history ++ [m]) = meter (metered history) m := by
  rw [metered, List.foldl_append]
  rfl

theorem runsOf_append_of (h : m.isOf t p) : runsOf t p (history ++ [m]) = insert m.run (runsOf t p history) := by
  obtain ⟨rfl, rfl⟩ := h
  ext r
  simp [runsOf]

theorem runsOf_append_other (h : ¬ m.isOf t p) : runsOf t p (history ++ [m]) = runsOf t p history := by
  have hfalse : (m.tenantId == t && m.periodStart == p) = false := by
    simpa [Metering.isOf] using h
  rw [runsOf, List.filter_append, List.filter_cons_of_neg (by simp [hfalse]), List.filter_nil, List.append_nil, runsOf]

theorem held_empty (k : UsageKey) : held (metered []) k = none := rfl

theorem amount_empty : amount t p metricType (metered []) = 0 := rfl

theorem held_metered (hfigure : Figure t p metricType key q) (history : List Metering) (d : Domain) :
    (∀ v, held (metered history) (key d) = some v → ∃ r ∈ runsOf t p history, r.domain = d ∧ v = q r) ∧
      (held (metered history) (key d) = none → ∀ r ∈ runsOf t p history, r.domain ≠ d) := by
  induction history using List.reverseRecOn with
  | nil =>
    constructor
    · intro v hv
      rw [held_empty] at hv
      cases hv
    · intro _ r hr
      cases hr
  | append_singleton history m ih =>
    rw [metered_append, hfigure.row]
    by_cases hof : m.isOf t p
    · rw [runsOf_append_of hof]
      by_cases hd : d = m.run.domain
      · rw [if_pos ⟨hof, hd⟩]
        constructor
        · rintro v ⟨⟩
          exact ⟨m.run, Finset.mem_insert_self _ _, hd.symm, rfl⟩
        · rintro ⟨⟩
      · rw [if_neg fun h => hd h.2]
        constructor
        · intro v hv
          obtain ⟨r, hr, hrest⟩ := ih.1 v hv
          exact ⟨r, Finset.mem_insert_of_mem hr, hrest⟩
        · intro hnone r hr
          obtain rfl | hr := Finset.mem_insert.mp hr
          · exact fun h => hd h.symm
          · exact ih.2 hnone r hr
    · rw [runsOf_append_other hof, if_neg fun h => hof h.1]
      exact ih

theorem held_before (hfigure : Figure t p metricType key q) {history : List Metering} {run : DomainRun}
    (hone : Set.InjOn DomainRun.domain (insert run (runsOf t p history) : Finset DomainRun)) :
    (held (metered history) (key run.domain)).getD 0 = if run ∈ runsOf t p history then q run else 0 := by
  obtain ⟨hsome, hnone⟩ := held_metered hfigure history run.domain
  cases hheld : held (metered history) (key run.domain) with
  | none =>
    rw [if_neg fun hmem => hnone hheld run hmem rfl]
    rfl
  | some v =>
    obtain ⟨r, hr, hdomain, hv⟩ := hsome v hheld
    have hrun : r = run := hone (Finset.mem_coe.mpr (Finset.mem_insert_of_mem hr))
      (Finset.mem_coe.mpr (Finset.mem_insert_self _ _)) hdomain
    rw [← hrun, if_pos hr, Option.getD_some, hv]

theorem amount_metered (hfigure : Figure t p metricType key q) {history : List Metering}
    (hone : Set.InjOn DomainRun.domain (runsOf t p history)) :
    amount t p metricType (metered history) = ∑ r ∈ runsOf t p history, q r := by
  induction history using List.reverseRecOn with
  | nil => exact amount_empty
  | append_singleton history m ih =>
    rw [metered_append]
    by_cases hof : m.isOf t p
    · rw [runsOf_append_of hof] at hone ⊢
      have hbefore := held_before hfigure hone
      have htotal := hfigure.total (metered history) m hof
      rw [ih (hone.mono (Finset.coe_subset.mpr (Finset.subset_insert _ _))), hbefore] at htotal
      by_cases hmem : m.run ∈ runsOf t p history
      · rw [if_pos hmem] at htotal
        rw [Finset.insert_eq_of_mem hmem]
        linarith
      · rw [if_neg hmem] at htotal
        rw [Finset.sum_insert hmem]
        linarith
    · rw [runsOf_append_other hof] at hone ⊢
      rw [hfigure.others _ m hof, ih hone]

theorem calls_metered (t : String) (p : Instant) (history : List Metering) :
    amount t p .apiCalls (metered history) = ((runsOf t p history).image DomainRun.domain).card := by
  induction history using List.reverseRecOn with
  | nil => exact amount_empty
  | append_singleton history m ih =>
    have hfigure := apiCall_figure t p
    rw [metered_append]
    by_cases hof : m.isOf t p
    · have htotal := hfigure.total (metered history) m hof
      obtain ⟨hsome, hnone⟩ := held_metered hfigure history m.run.domain
      rw [runsOf_append_of hof, Finset.image_insert]
      cases hheld : held (metered history) (apiCallKey t p m.run.domain) with
      | none =>
        have hnew : m.run.domain ∉ (runsOf t p history).image DomainRun.domain := by
          intro hmem
          obtain ⟨r, hr, hdomain⟩ := Finset.mem_image.mp hmem
          exact hnone hheld r hr hdomain
        rw [hheld, ih, Option.getD_none] at htotal
        rw [Finset.card_insert_of_notMem hnew]
        push_cast
        linarith
      | some v =>
        obtain ⟨r, hr, hdomain, rfl⟩ := hsome v hheld
        have hold : m.run.domain ∈ (runsOf t p history).image DomainRun.domain :=
          Finset.mem_image.mpr ⟨r, hr, hdomain⟩
        rw [hheld, ih, Option.getD_some] at htotal
        rw [Finset.insert_eq_of_mem hold]
        linarith
    · rw [runsOf_append_other hof, hfigure.others _ m hof, ih]

end History

section Usage

variable {items : List MeteredItem} {t : String} {p e : Instant}

theorem foldl_addMetric (metrics : List ((_ : UsageKey) × UsageRow)) (totals : ℚ × ℚ) :
    metrics.foldl addMetric totals =
      (totals.1 + (metrics.map fun e => if e.1.metricType = .compute then e.2.quantity else 0).sum,
        totals.2 + (metrics.map fun e => if e.1.metricType = .apiCalls then e.2.quantity else 0).sum) := by
  induction metrics generalizing totals with
  | nil => simp
  | cons metric metrics ih =>
    rw [List.foldl_cons, ih]
    unfold addMetric
    cases hm : metric.1.metricType <;> simp [hm, add_assoc]

theorem sum_of_period (table : UsageTable) (metricType : MetricType) :
    ((table.entries.filter fun e => e.1.tenantId == t && e.1.periodStart == p).map
      fun e => if e.1.metricType = metricType then e.2.quantity else 0).sum = amount t p metricType table := by
  unfold amount
  induction table.entries with
  | nil => rfl
  | cons e entries ih =>
    rw [List.map_cons, List.sum_cons, ← ih]
    by_cases hof : e.1.tenantId = t ∧ e.1.periodStart = p
    · rw [List.filter_cons_of_pos (by simpa using hof), List.map_cons, List.sum_cons]
      simp [hof]
    · rw [List.filter_cons_of_neg (by simpa using hof), if_neg fun h => hof ⟨h.1, h.2.1⟩, zero_add]

theorem usage_amounts (items : List MeteredItem) (table : UsageTable) (t : String) (p e : Instant) :
    (getUsageMetricsForPeriod items table t p e).computeHours = amount t p .compute table ∧
      (getUsageMetricsForPeriod items table t p e).apiCallCount = amount t p .apiCalls table := by
  unfold getUsageMetricsForPeriod
  dsimp only
  rw [foldl_addMetric, sum_of_period, sum_of_period, zero_add, zero_add]
  exact ⟨rfl, rfl⟩

theorem durationHours_nonneg (run : DomainRun) : 0 ≤ run.durationHours := by
  have hended : (run.startedAt : ℚ) ≤ run.completedAt := by exact_mod_cast run.ended
  unfold DomainRun.durationHours DomainRun.durationMinutes
  apply div_nonneg
  · exact div_nonneg (sub_nonneg.mpr hended) (by norm_num)
  · norm_num

/-- What the period's usage reads after the first `n` meterings. -/
def usageAfter (items : List MeteredItem) (t : String) (p e : Instant) (history : List Metering) (n : ℕ) :
    UsageMetricsResult :=
  getUsageMetricsForPeriod items (metered (history.take n)) t p e

/-- Every run is metered exactly once: at every point of the history the figures are the distinct runs' hours and their
number, a run that was metered before changes nothing, and no metering lowers a figure. -/
structure MeteredOnce (items : List MeteredItem) (t : String) (p e : Instant) (history : List Metering) : Prop where
  hours : ∀ n, (usageAfter items t p e history n).computeHours =
    ∑ r ∈ runsOf t p (history.take n), r.durationHours
  calls : ∀ n, (usageAfter items t p e history n).apiCallCount = (runsOf t p (history.take n)).card
  again : ∀ n m, history[n]? = some m → m.run ∈ runsOf t p (history.take n) →
    usageAfter items t p e history (n + 1) = usageAfter items t p e history n
  grows : ∀ n, (usageAfter items t p e history n).computeHours ≤ (usageAfter items t p e history (n + 1)).computeHours ∧
    (usageAfter items t p e history n).apiCallCount ≤ (usageAfter items t p e history (n + 1)).apiCallCount

theorem runsOf_mono {xs ys : List Metering} (h : xs.Sublist ys) : runsOf t p xs ⊆ runsOf t p ys := by
  intro r hr
  unfold runsOf at hr ⊢
  rw [List.mem_toFinset] at hr ⊢
  exact ((h.filter _).map _).subset hr

/-- Every run of a tenant's period is metered exactly once if and only if no two of its runs are of one domain. -/
theorem metered_once_iff (items : List MeteredItem) (t : String) (p e : Instant) (history : List Metering) :
    MeteredOnce items t p e history ↔ Set.InjOn DomainRun.domain (runsOf t p history) := by
  constructor
  · intro h
    have hcalls := h.calls history.length
    rw [usageAfter, (usage_amounts items _ t p e).2, List.take_length, calls_metered] at hcalls
    exact Finset.card_image_iff.mp (by exact_mod_cast hcalls)
  · intro hone
    have hfirst : ∀ n, Set.InjOn DomainRun.domain (runsOf t p (history.take n)) := fun n =>
      hone.mono (Finset.coe_subset.mpr (runsOf_mono (List.take_sublist n history)))
    have hhours : ∀ n, (usageAfter items t p e history n).computeHours =
        ∑ r ∈ runsOf t p (history.take n), r.durationHours := by
      intro n
      rw [usageAfter, (usage_amounts items _ t p e).1, amount_metered (compute_figure t p) (hfirst n)]
    have hcalls : ∀ n, (usageAfter items t p e history n).apiCallCount = (runsOf t p (history.take n)).card := by
      intro n
      rw [usageAfter, (usage_amounts items _ t p e).2, amount_metered (apiCall_figure t p) (hfirst n), Finset.sum_const,
        nsmul_one]
    have hmore : ∀ n, runsOf t p (history.take n) ⊆ runsOf t p (history.take (n + 1)) := fun n =>
      runsOf_mono (List.take_sublist_take_left (Nat.le_succ n))
    refine ⟨hhours, hcalls, fun n m hm hmem => ?_, fun n => ⟨?_, ?_⟩⟩
    · have hsame : runsOf t p (history.take (n + 1)) = runsOf t p (history.take n) := by
        rw [List.take_add_one, hm, Option.toList_some]
        by_cases hof : m.isOf t p
        · rw [runsOf_append_of hof, Finset.insert_eq_of_mem hmem]
        · rw [runsOf_append_other hof]
      apply UsageMetricsResult.ext
      · rfl
      · rfl
      · rw [hhours, hhours, hsame]
      · rw [hcalls, hcalls, hsame]
    · rw [hhours, hhours]
      exact Finset.sum_le_sum_of_subset_of_nonneg (hmore n) fun r _ _ => durationHours_nonneg r
    · rw [hcalls, hcalls]
      exact_mod_cast Finset.card_le_card (hmore n)

namespace Sample

/-- Two runs of one mapping's mail on one day, of two hours and of one. -/
def morning : DomainRun := ⟨"r1", "m", .email, 0, 7200000, by decide⟩

def evening : DomainRun := ⟨"r2", "m", .email, 36000000, 39600000, by decide⟩

def day : List Metering := [⟨"t", 0, 30, 5, morning⟩, ⟨"t", 0, 30, 5, evening⟩]

end Sample

theorem second_run_replaces_first : ¬ MeteredOnce [] "t" 0 30 Sample.day := by
  intro h
  have hcalls := h.calls 2
  have hcount : (usageAfter [] "t" 0 30 Sample.day 2).apiCallCount = 1 := by decide +kernel
  have hcard : (runsOf "t" 0 (Sample.day.take 2)).card = 2 := by decide +kernel
  rw [hcount, hcard] at hcalls
  norm_num at hcalls

end Usage

end OpenMigrate.Billing
