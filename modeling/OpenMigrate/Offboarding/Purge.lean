import OpenMigrate.Async.Sessions
import OpenMigrate.Offboarding.Records

namespace OpenMigrate.Offboarding.Purge

open Sessions Records

section Source

def PURGED_TABLES : List String :=
  ["run_event", "run", "item", "sync_checkpoint", "cursor", "collection_mapping", "scope_selection", "verification",
    "cutover_event", "cutover_state", "cutover", "migration_status", "migration_discovery", "decision", "policy_preset",
    "group_def", "share_grant", "apply_receipt", "setup_step", "backup_target", "mailbox_mapping", "mailbox", "connection",
    "payment_method", "usage_metric", "tenant_member", "tenant_pricing", "tenant_closure", "audit_log", "rate_budget"]

/-- What a purge writes of a tenant: its rows in a table, its own row, its invoices, its erasure records. -/
inductive Part where
  | table (name : String)
  | tenant
  | invoices
  | records
  deriving DecidableEq

structure TenantRow where
  name : String
  status : TenantStatus

structure Invoice where
  id : String
  tenantId : Option String
  billedToName : Option String

/-- The rows of a table by their ids; the tenant's row if it has one; the invoices that are or were the tenant's. -/
def Content : Part → Type
  | .table _ => List String
  | .tenant => Option TenantRow
  | .invoices => List Invoice
  | .records => List ErasureRecord

/-- The variables of `purgeTenant`. -/
structure Learnt where
  retainedInvoiceIds : List String := []
  counts : List (String × ℕ) := []

variable (tenantId : String)

def setDeleting : Write Content Learnt where
  part := .tenant
  value _ view := (view .tenant).map fun row => { row with status := .deleting }
  learns known _ := known

def Invoice.detach (name : Option String) (invoice : Invoice) : Invoice :=
  if invoice.tenantId = some tenantId then
    { invoice with billedToName := invoice.billedToName.or name, tenantId := none }
  else
    invoice

def detachInvoices : Write Content Learnt where
  part := .invoices
  value _ view := List.map (Invoice.detach tenantId (Option.map TenantRow.name (view .tenant))) (view .invoices)
  learns known view :=
    { known with
      retainedInvoiceIds := (List.filter (fun invoice : Invoice => invoice.tenantId = some tenantId) (view .invoices)).map (·.id) }

def deleteFrom (table : String) : Write Content Learnt where
  part := .table table
  value _ _ := ([] : List String)
  learns known view := { known with counts := known.counts ++ [(table, List.length (α := String) (view (.table table)))] }

def deleteTenant : Write Content Learnt where
  part := .tenant
  value _ _ := (none : Option TenantRow)
  learns known view := { known with counts := known.counts ++ [("tenant", (Option.toList (α := TenantRow) (view .tenant)).length)] }

def markPurged (now : Instant) (revocations : List RevocationOutcome) : Write Content Learnt where
  part := .records
  value known view := List.map (ErasureRecord.purge ⟨now, known.retainedInvoiceIds, known.counts, revocations⟩) (view .records)
  learns known _ := known

/-- The statements of the job's transaction: its own UPDATE, then those of `purgeTenant`. -/
def purgeTenant (now : Instant) (revocations : List RevocationOutcome) : List (Write Content Learnt) :=
  setDeleting :: detachInvoices tenantId :: (PURGED_TABLES.map deleteFrom ++ [deleteTenant, markPurged now revocations])

/-- The purge of one tenant in managed-purge-closed: each statement may run on any connection of the pool. -/
def purgeClosed {Conn : Type} [DecidableEq Conn] (now : Instant) (revocations : List RevocationOutcome) (conn : ℕ → Conn)
    (outcome : ℕ → Outcome) (world : World Conn Content) : World Conn Content :=
  let run := World.runFrom conn outcome 0 (transaction (purgeTenant tenantId now revocations)) world {}
  match run.2.2 with
  | .completed => run.1
  | .died => { run.1 with sessions := fun _ => .idle }
  | .raised place =>
    -- The catch block: a ROLLBACK that raises is passed over.
    match outcome (place + 1) with
    | .runs => run.1.set (conn (place + 1)) .idle
    | .raises => run.1
    | .dies => { run.1 with sessions := fun _ => .idle }

end Source

section Properties

variable (tenantId : String)

/-- Nothing of a part is the tenant's any more. -/
def Clean : (part : Part) → Content part → Prop
  | .table _, rows => rows = ([] : List String)
  | .tenant, row => row = (none : Option TenantRow)
  | .invoices, invoices => ∀ invoice : Invoice, List.Mem invoice invoices → invoice.tenantId ≠ some tenantId
  | .records, records => ∀ record : ErasureRecord, List.Mem record records → record.purgedAt ≠ none

def Purged (part : Part) : Prop :=
  match part with
  | .table name => name ∈ PURGED_TABLES
  | .tenant => False
  | .invoices | .records => True

/-- Every purged table is free of the tenant's rows, its invoices are detached, its erasure records are marked. -/
structure Erased (data : Data Content) : Prop where
  tables : ∀ name ∈ PURGED_TABLES, Clean tenantId (.table name) (data (.table name))
  invoices : Clean tenantId .invoices (data .invoices)
  records : Clean tenantId .records (data .records)

structure Untouched (before after : Data Content) : Prop where
  tables : ∀ name ∈ PURGED_TABLES, after (.table name) = before (.table name)
  invoices : after .invoices = before .invoices
  records : after .records = before .records

def AllOrNothing (before after : Data Content) : Prop := Erased tenantId after ∨ Untouched before after

/-- Where the statement for a part stands among those between BEGIN and COMMIT. -/
def place : Part → ℕ
  | .tenant => 0
  | .invoices => 1
  | .table name => PURGED_TABLES.idxOf name + 2
  | .records => 33

/-- The statement for a part runs, outside of the transaction, or inside of one that is committed. -/
def TakesEffectOn {Conn : Type} (conn : ℕ → Conn) (outcome : ℕ → Outcome) (part : Part) : Prop :=
  outcome 0 = .runs ∧ TakesEffect conn outcome (conn 0) 1 (place part) 34

/-- A part that has something of the tenant. -/
def Concerned (data : Data Content) (part : Part) : Prop := Purged part ∧ ¬ Clean tenantId part (data part)

end Properties

section Parts

variable {tenantId : String} {now : Instant} {revocations : List RevocationOutcome}

theorem forall_purged_iff {P : Part → Prop} : (∀ part, Purged part → P part) ↔
    (∀ name ∈ PURGED_TABLES, P (.table name)) ∧ P .invoices ∧ P .records := by
  constructor
  · intro h
    exact ⟨fun name hname => h (.table name) hname, h .invoices trivial, h .records trivial⟩
  · rintro ⟨htables, hinvoices, hrecords⟩ part hpart
    cases part with
    | table name => exact htables name hpart
    | tenant => cases hpart
    | invoices => exact hinvoices
    | records => exact hrecords

theorem erased_iff (data : Data Content) : Erased tenantId data ↔ ∀ part, Purged part → Clean tenantId part (data part) := by
  rw [forall_purged_iff]
  exact ⟨fun h => ⟨h.tables, h.invoices, h.records⟩, fun h => ⟨h.1, h.2.1, h.2.2⟩⟩

theorem untouched_iff (before after : Data Content) : Untouched before after ↔ ∀ part, Purged part → after part = before part := by
  rw [forall_purged_iff]
  exact ⟨fun h => ⟨h.tables, h.invoices, h.records⟩, fun h => ⟨h.1, h.2.1, h.2.2⟩⟩

/-- A statement that cleans its part, and leaves it alone where there is nothing to clean. -/
structure Cleans (tenantId : String) (s : Write Content Learnt) : Prop where
  cleans : ∀ known view, Clean tenantId s.part (s.value known view)
  spares : ∀ known view, Clean tenantId s.part (view s.part) → s.value known view = view s.part

theorem deleteFrom_cleans (name : String) : Cleans tenantId (deleteFrom name) where
  cleans _ _ := rfl
  spares _ _ hclean := hclean.symm

theorem detachInvoices_cleans : Cleans tenantId (detachInvoices tenantId) where
  cleans known view := by
    intro invoice hinvoice
    obtain ⟨invoice', -, rfl⟩ := List.mem_map.mp hinvoice
    rw [Invoice.detach]
    split
    · exact nofun
    · assumption
  spares known view hclean :=
    (List.map_congr_left fun invoice hinvoice => if_neg (hclean invoice hinvoice)).trans (List.map_id _)

theorem markPurged_cleans : Cleans tenantId (markPurged now revocations) where
  cleans known view := by
    intro record hrecord
    obtain ⟨record', -, rfl⟩ := List.mem_map.mp hrecord
    exact purge_marked _ record'
  spares known view hclean :=
    (List.map_congr_left fun record hrecord => if_neg (hclean record hrecord)).trans (List.map_id _)

theorem purgedTables_nodup : PURGED_TABLES.Nodup := by
  decide

/-- Where a part's statement stands, and that it is the only one for it. -/
structure WritesOnce (tenantId : String) (writes : List (Write Content Learnt)) (part : Part) (earlier : List (Write Content Learnt))
    (s : Write Content Learnt) (later : List (Write Content Learnt)) : Prop where
  split : writes = earlier ++ s :: later
  about : s.part = part
  stands : earlier.length = place part
  last : earlier.length + 1 + later.length = 34
  before : ∀ r ∈ earlier, r.part ≠ part
  after : ∀ r ∈ later, r.part ≠ part
  cleans : Cleans tenantId s

theorem writesOnce_table {name : String} (hname : name ∈ PURGED_TABLES) : ∃ earlier s later,
    WritesOnce tenantId (purgeTenant tenantId now revocations) (.table name) earlier s later := by
  obtain ⟨earlier, later, hsplit⟩ := List.append_of_mem hname
  have hnodup := List.nodup_middle.mp (hsplit ▸ purgedTables_nodup)
  have hnot := List.nodup_cons.mp hnodup
  have hbefore : name ∉ earlier := fun hmem => hnot.1 (List.mem_append_left _ hmem)
  have hafter : name ∉ later := fun hmem => hnot.1 (List.mem_append_right _ hmem)
  have hlength : earlier.length + 1 + later.length = 30 := by
    have hall := congrArg List.length hsplit
    rw [List.length_append, List.length_cons] at hall
    have hthirty : PURGED_TABLES.length = 30 := rfl
    omega
  refine ⟨setDeleting :: detachInvoices tenantId :: earlier.map deleteFrom, deleteFrom name,
    later.map deleteFrom ++ [deleteTenant, markPurged now revocations], ?_, rfl, ?_, ?_, ?_, ?_, deleteFrom_cleans name⟩
  · rw [purgeTenant, hsplit]
    simp
  · rw [place, hsplit, List.idxOf_append_of_notMem hbefore, List.idxOf_cons_self]
    simp
  · simp
    omega
  · intro r hr
    rcases List.mem_cons.mp hr with rfl | hr
    · exact nofun
    · rcases List.mem_cons.mp hr with rfl | hr
      · exact nofun
      · obtain ⟨other, hother, rfl⟩ := List.mem_map.mp hr
        rintro heq
        exact hbefore (Part.table.inj heq ▸ hother)
  · intro r hr
    rcases List.mem_append.mp hr with hr | hr
    · obtain ⟨other, hother, rfl⟩ := List.mem_map.mp hr
      rintro heq
      exact hafter (Part.table.inj heq ▸ hother)
    · rcases List.mem_cons.mp hr with rfl | hr
      · exact nofun
      · obtain rfl := List.mem_singleton.mp hr
        exact nofun

theorem deleteFrom_table {r : Write Content Learnt} (hr : r ∈ PURGED_TABLES.map deleteFrom) : ∃ name, r.part = .table name := by
  obtain ⟨name, -, rfl⟩ := List.mem_map.mp hr
  exact ⟨name, rfl⟩

theorem writesOnce_invoices : ∃ earlier s later,
    WritesOnce tenantId (purgeTenant tenantId now revocations) .invoices earlier s later := by
  refine ⟨[setDeleting], detachInvoices tenantId, PURGED_TABLES.map deleteFrom ++ [deleteTenant, markPurged now revocations],
    rfl, rfl, rfl, rfl, ?_, ?_, detachInvoices_cleans⟩
  · intro r hr
    obtain rfl := List.mem_singleton.mp hr
    exact nofun
  · intro r hr
    rcases List.mem_append.mp hr with hr | hr
    · obtain ⟨name, hname⟩ := deleteFrom_table hr
      rw [hname]
      exact nofun
    · rcases List.mem_cons.mp hr with rfl | hr
      · exact nofun
      · obtain rfl := List.mem_singleton.mp hr
        exact nofun

theorem writesOnce_records : ∃ earlier s later,
    WritesOnce tenantId (purgeTenant tenantId now revocations) .records earlier s later := by
  refine ⟨setDeleting :: detachInvoices tenantId :: (PURGED_TABLES.map deleteFrom ++ [deleteTenant]), markPurged now revocations, [],
    rfl, rfl, rfl, rfl, ?_, nofun, markPurged_cleans⟩
  intro r hr
  rcases List.mem_cons.mp hr with rfl | hr
  · exact nofun
  · rcases List.mem_cons.mp hr with rfl | hr
    · exact nofun
    · rcases List.mem_append.mp hr with hr | hr
      · obtain ⟨name, hname⟩ := deleteFrom_table hr
        rw [hname]
        exact nofun
      · obtain rfl := List.mem_singleton.mp hr
        exact nofun

theorem writesOnce (tenantId : String) (now : Instant) (revocations : List RevocationOutcome) (part : Part) (hpart : Purged part) : ∃ earlier s later,
    WritesOnce tenantId (purgeTenant tenantId now revocations) part earlier s later := by
  cases part with
  | table name => exact writesOnce_table hpart
  | tenant => cases hpart
  | invoices => exact writesOnce_invoices
  | records => exact writesOnce_records

end Parts

section Purges

variable {Conn : Type} [DecidableEq Conn] {tenantId : String} {now : Instant} {revocations : List RevocationOutcome}
  {conn : ℕ → Conn} {outcome : ℕ → Outcome} {world : World Conn Content}

theorem purgeClosed_committed : (purgeClosed tenantId now revocations conn outcome world).committed =
    (World.runFrom conn outcome 0 (transaction (purgeTenant tenantId now revocations)) world {}).1.committed := by
  rw [purgeClosed]
  dsimp only
  split
  · rfl
  · rfl
  · split <;> rfl

theorem part_after (tenantId : String) (now : Instant) (revocations : List RevocationOutcome) (conn : ℕ → Conn)
    (outcome : ℕ → Outcome) (world : World Conn Content) (hidle : ∀ conn, world.sessions conn = .idle) (part : Part) (hpart : Purged part) :
    (TakesEffectOn conn outcome part →
      Clean tenantId part ((purgeClosed tenantId now revocations conn outcome world).committed part)) ∧
    ((¬ TakesEffectOn conn outcome part ∨ Clean tenantId part (world.committed part)) →
      (purgeClosed tenantId now revocations conn outcome world).committed part = world.committed part) := by
  obtain ⟨earlier, s, later, hsplit, rfl, hstands, hlast, hbefore, hafter, hcleans⟩ :=
    writesOnce tenantId now revocations part hpart
  have hwritten := transaction_write hidle conn outcome ({} : Learnt) earlier s later hbefore hafter
  rw [hstands] at hlast
  rw [← hsplit, hstands, hlast, ← purgeClosed_committed] at hwritten
  constructor
  · intro heffect
    obtain ⟨known, view, -, hafter⟩ := hwritten.done heffect
    rw [hafter]
    exact hcleans.cleans known view
  · intro hspared
    by_cases heffect : TakesEffectOn conn outcome s.part
    · obtain ⟨known, view, hview, hafter⟩ := hwritten.done heffect
      rcases hspared with hno | hclean
      · exact absurd heffect hno
      · rw [hafter, ← hview]
        exact hcleans.spares known view (hview.symm ▸ hclean)
    · exact hwritten.kept heffect

theorem purge_atomic_iff (tenantId : String) (now : Instant) (revocations : List RevocationOutcome) (conn : ℕ → Conn)
    (outcome : ℕ → Outcome) (before : Data Content) :
    AllOrNothing tenantId before (purgeClosed tenantId now revocations conn outcome ⟨before, fun _ => .idle⟩).committed ↔
      (∀ part, Concerned tenantId before part → TakesEffectOn conn outcome part) ∨
        ∀ part, Concerned tenantId before part → ¬ TakesEffectOn conn outcome part := by
  have hafter := part_after tenantId now revocations conn outcome ⟨before, fun _ => .idle⟩ fun _ => rfl
  rw [AllOrNothing, erased_iff, untouched_iff]
  refine or_congr ?_ ?_
  · constructor
    · rintro herased part ⟨hpart, hdirty⟩
      by_contra hno
      have hclean := herased part hpart
      rw [(hafter part hpart).2 (.inl hno)] at hclean
      exact hdirty hclean
    · intro heffects part hpart
      by_cases hclean : Clean tenantId part (before part)
      · rw [(hafter part hpart).2 (.inr hclean)]
        exact hclean
      · exact (hafter part hpart).1 (heffects part ⟨hpart, hclean⟩)
  · constructor
    · rintro hsame part ⟨hpart, hdirty⟩ heffect
      have hclean := (hafter part hpart).1 heffect
      exact hdirty (hsame part hpart ▸ hclean)
    · intro heffects part hpart
      by_cases hclean : Clean tenantId part (before part)
      · exact (hafter part hpart).2 (.inr hclean)
      · exact (hafter part hpart).2 (.inl (heffects part ⟨hpart, hclean⟩))

end Purges

section Examples

/-- A tenant with a run and its event. -/
def Sample.before : Data Content
  | .table name => if name = "run_event" then ["event"] else if name = "run" then ["run"] else ([] : List String)
  | .tenant => some (⟨"Ann", .closed⟩ : TenantRow)
  | .invoices => ([] : List Invoice)
  | .records => [(⟨0, 7, 14, 0, none, [], [], []⟩ : ErasureRecord)]

/-- The first DELETE is given another connection, and the second one raises. -/
def Sample.after : Data Content :=
  (purgeClosed "t" 0 [] (fun i => i == 3) (fun i => if i = 4 then .raises else .runs) ⟨Sample.before, fun _ => .idle⟩).committed

theorem Sample.half_purged : ¬ AllOrNothing "t" Sample.before Sample.after := by
  have hevents : Sample.after (.table "run_event") = ([] : List String) := by
    rfl
  have hruns : Sample.after (.table "run") = ["run"] := by
    rfl
  rintro (herased | hsame)
  · have hclean := herased.tables "run" (by decide)
    rw [Clean, hruns] at hclean
    cases hclean
  · have hkept := hsame.tables "run_event" (by decide)
    rw [hevents] at hkept
    cases hkept

end Examples

end OpenMigrate.Offboarding.Purge
