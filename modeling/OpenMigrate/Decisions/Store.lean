import OpenMigrate.Async.Turns
import OpenMigrate.Ledger.Record

namespace OpenMigrate.Decisions

section Source

inductive DecisionCategory where
  | newMailbox
  | deletedMailbox
  | quota
  | sharedAddressPattern
  | offboarding
  | aliasRemoved
  | newDomain
  | rulesDetected
  | targetDrift
  | other
  deriving DecidableEq

def DecisionCategory.name : DecisionCategory → String
  | newMailbox => "new_mailbox"
  | deletedMailbox => "deleted_mailbox"
  | quota => "quota"
  | sharedAddressPattern => "shared_address_pattern"
  | offboarding => "offboarding"
  | aliasRemoved => "alias_removed"
  | newDomain => "new_domain"
  | rulesDetected => "rules_detected"
  | targetDrift => "target_drift"
  | other => "other"

inductive DecisionStatus where
  | pending
  | resolved
  | autoResolved
  | dismissed
  deriving DecidableEq

/-- A value of a record of unknown shape: a string, or the JSON text of anything else. -/
inductive Value where
  | text (s : String)
  | other (json : String)
  deriving DecidableEq

abbrev Facts := List (String × Value)

structure DecisionRow where
  id : ℕ
  tenantId : String
  mappingId : Option String
  category : DecisionCategory
  subjectKey : Option String
  summary : String
  detail : Facts
  proposedDefault : Option String
  status : DecisionStatus := .pending
  resolution : Option Facts := none
  createdAt : Instant
  resolvedAt : Option Instant := none
  resolvedBy : Option String := none
  deriving DecidableEq

structure RaiseDecisionInput where
  tenantId : String
  mappingId : Option String := none
  category : DecisionCategory
  subjectKey : String
  summary : String
  detail : Option Facts := none
  proposedDefault : Option String := none
  deriving DecidableEq

def isOpenAbout (tenantId : String) (category : DecisionCategory) (subjectKey : String) (row : DecisionRow) : Bool :=
  row.tenantId == tenantId && row.category == category && row.subjectKey == some subjectKey && row.status == .pending

/-- At most one row is open about a subject: the partial unique index. -/
def OnePending (rows : List DecisionRow) : Prop :=
  ∀ tenantId category subjectKey, rows.countP (isOpenAbout tenantId category subjectKey) ≤ 1

/-- The table, with its primary key and its index. -/
structure DecisionTable where
  rows : List DecisionRow
  ids : (rows.map (·.id)).Nodup
  onePending : OnePending rows

def RaiseDecisionInput.isOpen (input : RaiseDecisionInput) : DecisionRow → Bool :=
  isOpenAbout input.tenantId input.category input.subjectKey

/-- What the database numbers a new row with: an id that no row has. -/
def freshId (rows : List DecisionRow) : ℕ := (rows.map (·.id)).foldr max 0 + 1

def RaiseDecisionInput.row (input : RaiseDecisionInput) (id : ℕ) (now : Instant) : DecisionRow where
  id := id
  tenantId := input.tenantId
  mappingId := input.mappingId
  category := input.category
  subjectKey := some input.subjectKey
  summary := input.summary
  detail := input.detail.getD []
  proposedDefault := input.proposedDefault
  createdAt := now

/-- INSERT … ON CONFLICT DO NOTHING RETURNING, over the partial unique index on open rows. -/
def insertDecision (rows : List DecisionRow) (input : RaiseDecisionInput) (now : Instant) :
    List DecisionRow × Option DecisionRow :=
  if rows.any input.isOpen then (rows, none)
  else (rows ++ [input.row (freshId rows) now], some (input.row (freshId rows) now))

/-- What closes a decision: the one UPDATE that all three closings share. -/
structure Closing where
  tenantId : String
  decisionId : ℕ
  status : DecisionStatus
  resolution : Option Facts
  by_ : String
  closes : status ≠ .pending

def resolve (tenantId : String) (decisionId : ℕ) (resolution : Facts) (resolvedBy : String) : Closing :=
  ⟨tenantId, decisionId, .resolved, some resolution, resolvedBy, by decide⟩

def autoResolve (tenantId : String) (decisionId : ℕ) (resolution : Facts) : Closing :=
  ⟨tenantId, decisionId, .autoResolved, some resolution, "policy-preset", by decide⟩

def dismiss (tenantId : String) (decisionId : ℕ) (dismissedBy : String) : Closing :=
  ⟨tenantId, decisionId, .dismissed, none, dismissedBy, by decide⟩

def Closing.isOpen (closing : Closing) (row : DecisionRow) : Bool :=
  row.tenantId == closing.tenantId && row.id == closing.decisionId && row.status == .pending

def Closing.set (closing : Closing) (now : Instant) (row : DecisionRow) : DecisionRow :=
  { row with
    status := closing.status
    resolution := closing.resolution
    resolvedAt := some now
    resolvedBy := some closing.by_ }

/-- UPDATE … WHERE status = 'pending' RETURNING. -/
def close (rows : List DecisionRow) (closing : Closing) (now : Instant) : List DecisionRow × Option DecisionRow :=
  (rows.map fun row => if closing.isOpen row then closing.set now row else row,
    (rows.find? closing.isOpen).map (closing.set now))

inductive Request where
  | raise (input : RaiseDecisionInput)
  | close (closing : Closing)

inductive Reply where
  | raised (decision : DecisionRow) (created : Bool)
  | answered (decision : Option DecisionRow)

inductive Stage where
  | first
  | reading
  | retrying
  | returned (reply : Except String Reply)

structure Call where
  request : Request
  stage : Stage := .first

/-- When a statement of a call runs, and whether it fails. -/
structure Turn where
  now : Instant
  fault : Option String := none

def Call.return (call : Call) (reply : Except String Reply) : Call := { call with stage := .returned reply }

def conflictTwice (input : RaiseDecisionInput) : String :=
  s!"decision raise for {input.category.name}/{input.subjectKey}: conflict but no pending row, twice"

/-- The next statement of a call, which runs by itself. -/
def step (rows : List DecisionRow) (call : Call) (turn : Turn) : List DecisionRow × Call :=
  match turn.fault, call.request, call.stage with
  | _, _, .returned _ => (rows, call)
  | some e, _, _ => (rows, call.return (.error e))
  | none, .raise input, .first =>
    match insertDecision rows input turn.now with
    | (rows', some row) => (rows', call.return (.ok (.raised row true)))
    | (rows', none) => (rows', { call with stage := .reading })
  | none, .raise input, .reading =>
    match rows.find? input.isOpen with
    | some found => (rows, call.return (.ok (.raised found false)))
    | none => (rows, { call with stage := .retrying })
  | none, .raise input, .retrying =>
    match insertDecision rows input turn.now with
    | (rows', some row) => (rows', call.return (.ok (.raised row true)))
    | (rows', none) => (rows', call.return (.error (conflictTwice input)))
  | none, .close closing, _ =>
    ((close rows closing turn.now).1, call.return (.ok (.answered (close rows closing turn.now).2)))

def opening (requests : List Request) : List Call := requests.map fun request => { request }

end Source

section Rows

variable {rows : List DecisionRow} {row : DecisionRow} {input : RaiseDecisionInput} {closing : Closing} {now : Instant}

theorem isOpenAbout_iff {tenantId subjectKey : String} {category : DecisionCategory} :
    isOpenAbout tenantId category subjectKey row = true ↔ row.tenantId = tenantId ∧ row.category = category ∧
      row.subjectKey = some subjectKey ∧ row.status = .pending := by
  simp [isOpenAbout, and_assoc]

theorem Closing.isOpen_iff : closing.isOpen row = true ↔
    row.tenantId = closing.tenantId ∧ row.id = closing.decisionId ∧ row.status = .pending := by
  simp [Closing.isOpen, and_assoc]

theorem RaiseDecisionInput.row_isOpen (input : RaiseDecisionInput) (id : ℕ) (now : Instant) :
    input.isOpen (input.row id now) = true := isOpenAbout_iff.mpr ⟨rfl, rfl, rfl, rfl⟩

theorem lt_freshId (h : row ∈ rows) : row.id < freshId rows := by
  induction rows with
  | nil => cases h
  | cons first rest ih =>
    have hfresh : freshId (first :: rest) = max first.id (freshId rest - 1) + 1 := rfl
    obtain rfl | h := List.mem_cons.mp h
    · omega
    · have hrest := ih h
      omega

theorem insertDecision_open (h : ∃ row ∈ rows, input.isOpen row = true) (now : Instant) :
    insertDecision rows input now = (rows, none) := if_pos (List.any_eq_true.mpr h)

theorem insertDecision_new (h : ∀ row ∈ rows, input.isOpen row = false) (now : Instant) :
    insertDecision rows input now = (rows ++ [input.row (freshId rows) now], some (input.row (freshId rows) now)) := by
  apply if_neg
  simpa using h

theorem insertDecision_cases (rows : List DecisionRow) (input : RaiseDecisionInput) (now : Instant) :
    (∃ row ∈ rows, input.isOpen row = true) ∧ insertDecision rows input now = (rows, none) ∨
      (∀ row ∈ rows, input.isOpen row = false) ∧
        insertDecision rows input now =
          (rows ++ [input.row (freshId rows) now], some (input.row (freshId rows) now)) := by
  by_cases h : ∃ row ∈ rows, input.isOpen row = true
  · exact .inl ⟨h, insertDecision_open h now⟩
  · have hnew : ∀ row ∈ rows, input.isOpen row = false := by simpa using h
    exact .inr ⟨hnew, insertDecision_new hnew now⟩

theorem onePending_insert (h : OnePending rows) (hnew : ∀ row ∈ rows, input.isOpen row = false) (id : ℕ)
    (now : Instant) : OnePending (rows ++ [input.row id now]) := by
  intro tenantId category subjectKey
  rw [List.countP_append, List.countP_singleton]
  split
  · rename_i hopen
    obtain ⟨rfl, rfl, hsubject, -⟩ := isOpenAbout_iff.mp hopen
    obtain rfl := Option.some.inj hsubject
    have hzero : rows.countP input.isOpen = 0 := List.countP_eq_zero.mpr fun row hrow => by simp [hnew row hrow]
    exact Nat.le_of_eq (congrArg (· + 1) hzero)
  · exact h tenantId category subjectKey

theorem ids_insert (h : (rows.map (·.id)).Nodup) (input : RaiseDecisionInput) (now : Instant) :
    ((rows ++ [input.row (freshId rows) now]).map (·.id)).Nodup := by
  rw [List.map_append, List.map_singleton, List.nodup_append]
  refine ⟨h, List.nodup_singleton _, ?_⟩
  rintro id hid id' hid' rfl
  obtain ⟨row, hrow, rfl⟩ := List.mem_map.mp hid
  have hlt := lt_freshId hrow
  rw [List.mem_singleton.mp hid'] at hlt
  exact absurd hlt (lt_irrefl _)

theorem onePending_close (h : OnePending rows) (closing : Closing) (now : Instant) :
    OnePending (close rows closing now).1 := by
  intro tenantId category subjectKey
  refine le_trans ?_ (h tenantId category subjectKey)
  rw [close, List.countP_map]
  apply List.countP_mono_left
  intro row _ hopen
  rw [Function.comp_apply] at hopen
  split at hopen
  · obtain ⟨-, -, -, hpending⟩ := isOpenAbout_iff.mp hopen
    exact absurd hpending closing.closes
  · exact hopen

theorem ids_close (h : (rows.map (·.id)).Nodup) (closing : Closing) (now : Instant) :
    ((close rows closing now).1.map (·.id)).Nodup := by
  have hsame : (close rows closing now).1.map (·.id) = rows.map (·.id) := by
    rw [close, List.map_map]
    apply List.map_congr_left
    intro row _
    rw [Function.comp_apply]
    split <;> rfl
  rw [hsame]
  exact h

theorem mem_close (h : row ∈ rows) (hopen : closing.isOpen row = false) : row ∈ (close rows closing now).1 := by
  apply List.mem_map.mpr
  exact ⟨row, h, by rw [hopen]; rfl⟩

theorem set_mem_close (h : row ∈ rows) (hopen : closing.isOpen row = true) :
    closing.set now row ∈ (close rows closing now).1 := by
  apply List.mem_map.mpr
  exact ⟨row, h, by rw [hopen]; rfl⟩

theorem eq_of_id (h : (rows.map (·.id)).Nodup) {row' : DecisionRow} (hrow : row ∈ rows) (hrow' : row' ∈ rows)
    (hid : row.id = row'.id) : row = row' := List.inj_on_of_nodup_map h hrow hrow' hid

theorem close_found (h : (rows.map (·.id)).Nodup) (hrow : row ∈ rows) (hopen : closing.isOpen row = true)
    (now : Instant) : (close rows closing now).2 = some (closing.set now row) := by
  cases hfind : rows.find? closing.isOpen with
  | none =>
    have hnone := List.find?_eq_none.mp hfind row hrow
    exact absurd hopen hnone
  | some found =>
    have hfound := Closing.isOpen_iff.mp (List.find?_some hfind)
    have hsame := eq_of_id h (List.mem_of_find?_eq_some hfind) hrow
      (hfound.2.1.trans (Closing.isOpen_iff.mp hopen).2.1.symm)
    rw [close, hfind, hsame]
    rfl

theorem close_returned (h : (close rows closing now).2 = some row) :
    ∃ before ∈ rows, closing.isOpen before = true ∧ row = closing.set now before := by
  obtain ⟨before, hfind, rfl⟩ := Option.map_eq_some_iff.mp h
  exact ⟨before, List.mem_of_find?_eq_some hfind, List.find?_some hfind, rfl⟩

end Rows

end OpenMigrate.Decisions
