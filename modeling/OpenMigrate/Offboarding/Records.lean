import Mathlib.Data.List.TakeWhile
import OpenMigrate.Offboarding.Closing

namespace OpenMigrate.Offboarding.Records

section Source

inductive RevocationStatus where
  | revoked
  | failed
  | unsupported
  | noCredential
  deriving DecidableEq

structure RevocationOutcome where
  kind : String
  status : RevocationStatus
  reason : Option String
  deriving DecidableEq

/-- A row of erasure_record; those of a tenant are the rows with the hash of its id. -/
structure ErasureRecord where
  requestedAt : Instant
  windowDays : ℤ
  backupRetentionDays : ℕ
  backupsExpireAt : Instant
  purgedAt : Option Instant := none
  retainedInvoiceIds : List String := []
  purgedCounts : List (String × ℕ) := []
  revocations : List RevocationOutcome := []
  deriving DecidableEq

/-- What the three calls read and write of one tenant: its status, if it has a row, its closure and its records. -/
structure Tenancy where
  status : Option TenantStatus
  closure : Option Closure
  records : List ErasureRecord

structure CloseRequest where
  windowDays : ℕ
  closedBy : String
  now : Instant
  backupRetentionDays : ℕ

structure ErasureTimeline where
  purgeAfter : Instant
  backupsExpireAt : Instant
  windowDays : ℕ
  backupRetentionDays : ℕ

def erasureTimeline (closedAt : Instant) (windowDays backupRetentionDays : ℕ) : ErasureTimeline where
  purgeAfter := closedAt + windowDays * DAY_MS
  backupsExpireAt := closedAt + windowDays * DAY_MS + backupRetentionDays * DAY_MS
  windowDays := windowDays
  backupRetentionDays := backupRetentionDays

def CloseRequest.timeline (c : CloseRequest) : ErasureTimeline := erasureTimeline c.now c.windowDays c.backupRetentionDays

def CloseRequest.record (c : CloseRequest) : ErasureRecord where
  requestedAt := c.now
  windowDays := c.windowDays
  backupRetentionDays := c.timeline.backupRetentionDays
  backupsExpireAt := c.timeline.backupsExpireAt

variable (tenantId : String)

def closeTenant (t : Tenancy) (c : CloseRequest) : Except String (Tenancy × ErasureTimeline) :=
  if t.status = none ∨ t.status = some .deleting then
    .error (cannotClose tenantId)
  else
    .ok
      ({ status := some .closed
         closure := some ⟨c.now, c.timeline.purgeAfter, c.closedBy⟩
         records := t.records ++ [c.record] }, c.timeline)

def ErasureRecord.withdraw (r : ErasureRecord) : ErasureRecord :=
  if r.purgedAt = none then { r with windowDays := -1 } else r

def reopenTenant (t : Tenancy) (now : Instant) : Except String Tenancy :=
  if t.closure.any fun closure => now < closure.purgeAfter then
    .ok
      { status := if t.status = some .closed then some .active else t.status
        closure := none
        records := t.records.map ErasureRecord.withdraw }
  else
    .error (cannotReopen tenantId)

/-- What a purge writes to the records: its time and its receipts. -/
structure Receipt where
  now : Instant
  retainedInvoiceIds : List String
  counts : List (String × ℕ)
  revocations : List RevocationOutcome

def ErasureRecord.purge (p : Receipt) (r : ErasureRecord) : ErasureRecord :=
  if r.purgedAt = none then
    { r with
      purgedAt := some p.now
      retainedInvoiceIds := p.retainedInvoiceIds
      purgedCounts := p.counts
      revocations := p.revocations }
  else
    r

/-- A purge that completes: the closure goes with the other tables, and the tenant's row. -/
def purgeTenant (t : Tenancy) (p : Receipt) : Tenancy where
  status := none
  closure := none
  records := t.records.map (ErasureRecord.purge p)

inductive Op where
  | close (c : CloseRequest)
  | reopen (now : Instant)
  | purge (p : Receipt)

/-- A call that throws leaves everything as it was: each runs in a transaction of its own. -/
def Tenancy.step (t : Tenancy) : Op → Tenancy
  | .close c =>
    match closeTenant tenantId t c with
    | .ok closed => closed.1
    | .error _ => t
  | .reopen now =>
    match reopenTenant tenantId t now with
    | .ok reopened => reopened
    | .error _ => t
  | .purge p => purgeTenant t p

end Source

section Requests

variable (tenantId : String)

/-- What has become of a close request: it is in force, another one took its place, it was withdrawn, or it led to a purge. -/
inductive Fate where
  | inForce
  | replaced
  | withdrawn
  | purged
  deriving DecidableEq

structure Request where
  asked : CloseRequest
  fate : Fate

/-- The request in force meets its fate. -/
def Request.meets (fate : Fate) (q : Request) : Request := if q.fate = .inForce then { q with fate := fate } else q

/-- The close requests that were accepted, and what a call makes of them. -/
def answered (t : Tenancy) (requests : List Request) : Op → List Request
  | .close c =>
    match closeTenant tenantId t c with
    | .ok _ => requests.map (Request.meets .replaced) ++ [⟨c, .inForce⟩]
    | .error _ => requests
  | .reopen now =>
    match reopenTenant tenantId t now with
    | .ok _ => requests.map (Request.meets .withdrawn)
    | .error _ => requests
  | .purge _ => requests.map (Request.meets .purged)

/-- A tenant and the requests it has made. -/
structure History where
  tenant : Tenancy
  requests : List Request

def History.step (h : History) (op : Op) : History := ⟨h.tenant.step tenantId op, answered tenantId h.tenant h.requests op⟩

def History.run (h : History) (ops : List Op) : History := ops.foldl (History.step tenantId) h

/-- A tenant that was never closed. -/
def History.opened (suspended : Bool) : History := ⟨⟨some (if suspended then .suspended else .active), none, []⟩, []⟩

def Op.isPurge : Op → Bool
  | .purge _ => true
  | _ => false

/-- One record is marked purged, that of the request that led to the purge, with its window and its backup date. -/
def OneReceipt (h : History) : Prop :=
  ∃ (i : ℕ) (q : Request) (r : ErasureRecord), h.requests[i]? = some q ∧ h.tenant.records[i]? = some r ∧ q.fate = .purged ∧
    r.windowDays = q.asked.windowDays ∧ r.backupsExpireAt = q.asked.timeline.backupsExpireAt ∧
    ∀ (j : ℕ) (r' : ErasureRecord), h.tenant.records[j]? = some r' → (r'.purgedAt.isSome ↔ j = i)

/-- What was withdrawn stays so, and is never marked purged. -/
def WithdrawnKept (h : History) : Prop :=
  ∀ (i : ℕ) (q : Request) (r : ErasureRecord), h.requests[i]? = some q → h.tenant.records[i]? = some r → q.fate = .withdrawn →
    r.windowDays = -1 ∧ r.purgedAt = none

/-- The records of a tenant tell the truth after these calls. -/
structure Truthful (suspended : Bool) (ops : List Op) : Prop where
  purged : ops.any Op.isPurge → OneReceipt ((History.opened suspended).run tenantId ops)
  withdrawn : WithdrawnKept ((History.opened suspended).run tenantId ops)

/-- Before the first purge the tenant was closed once, and reopened only in vain. -/
def ClosedOnce (ops : List Op) : Prop :=
  ∃ before c later, ops.takeWhile (!·.isPurge) = before ++ .close c :: later ∧ (∀ op ∈ before, ∃ now, op = .reopen now) ∧
    ∀ op ∈ later, ∃ now, op = .reopen now ∧ c.timeline.purgeAfter ≤ now

end Requests

section Open

variable {tenantId : String} {h : History} {t : Tenancy} {requests : List Request} {c : CloseRequest} {now : Instant} {p : Receipt}

/-- A record of a tenant that was not purged yet, and its request. -/
structure Unpurged (r : ErasureRecord) (q : Request) : Prop where
  unmarked : r.purgedAt = none
  backups : r.backupsExpireAt = q.asked.timeline.backupsExpireAt
  window : q.fate = .inForce → r.windowDays = q.asked.windowDays
  withdrawn : q.fate = .withdrawn → r.windowDays = -1
  kept : q.fate ≠ .purged

structure Open (h : History) : Prop where
  present : h.tenant.status ≠ none
  waiting : h.tenant.status ≠ some .deleting
  records : List.Forall₂ Unpurged h.tenant.records h.requests

theorem opened_open (suspended : Bool) : Open (History.opened suspended) where
  present := by simp [History.opened]
  waiting := by cases suspended <;> decide
  records := .nil

theorem closeTenant_ok (hpresent : t.status ≠ none) (hwaiting : t.status ≠ some .deleting) :
    closeTenant tenantId t c = .ok
      (⟨some .closed, some ⟨c.now, c.timeline.purgeAfter, c.closedBy⟩, t.records ++ [c.record]⟩, c.timeline) :=
  if_neg (not_or.mpr ⟨hpresent, hwaiting⟩)

theorem record_unpurged (c : CloseRequest) : Unpurged c.record ⟨c, .inForce⟩ where
  unmarked := rfl
  backups := rfl
  window _ := rfl
  withdrawn hfate := by cases hfate
  kept := by simp

theorem Unpurged.replaced {r : ErasureRecord} {q : Request} (hr : Unpurged r q) : Unpurged r (q.meets .replaced) := by
  rw [Request.meets]
  split
  · exact ⟨hr.unmarked, hr.backups, nofun, nofun, nofun⟩
  · exact hr

theorem Unpurged.withdraw {r : ErasureRecord} {q : Request} (hr : Unpurged r q) : Unpurged r.withdraw (q.meets .withdrawn) := by
  rw [ErasureRecord.withdraw, if_pos hr.unmarked, Request.meets]
  split
  · exact ⟨hr.unmarked, hr.backups, nofun, fun _ => rfl, nofun⟩
  · rename_i hfate
    exact ⟨hr.unmarked, hr.backups, fun h => absurd h hfate, fun _ => rfl, hr.kept⟩

theorem step_close (hpresent : h.tenant.status ≠ none) (hwaiting : h.tenant.status ≠ some .deleting) (c : CloseRequest) :
    h.step tenantId (.close c) =
      ⟨⟨some .closed, some ⟨c.now, c.timeline.purgeAfter, c.closedBy⟩, h.tenant.records ++ [c.record]⟩,
        h.requests.map (Request.meets .replaced) ++ [⟨c, .inForce⟩]⟩ := by
  rw [History.step, Tenancy.step, answered, closeTenant_ok hpresent hwaiting]

theorem step_reopen (hopen : h.tenant.closure.any (fun closure => now < closure.purgeAfter) = true) :
    h.step tenantId (.reopen now) =
      ⟨⟨if h.tenant.status = some .closed then some .active else h.tenant.status, none,
        h.tenant.records.map ErasureRecord.withdraw⟩, h.requests.map (Request.meets .withdrawn)⟩ := by
  rw [History.step, Tenancy.step, answered, reopenTenant, if_pos hopen]

theorem step_refused (hpast : ¬ h.tenant.closure.any (fun closure => now < closure.purgeAfter) = true) :
    h.step tenantId (.reopen now) = h := by
  rw [History.step, Tenancy.step, answered, reopenTenant, if_neg hpast]

theorem Open.close (hopen : Open h) (c : CloseRequest) : Open (h.step tenantId (.close c)) := by
  rw [step_close hopen.present hopen.waiting]
  refine ⟨nofun, nofun, ?_⟩
  apply List.rel_append
  · exact List.forall₂_map_right_iff.mpr (hopen.records.imp fun _ _ hr => hr.replaced)
  · exact .cons (record_unpurged c) .nil

theorem Open.reopen (hopen : Open h) (now : Instant) : Open (h.step tenantId (.reopen now)) := by
  by_cases hwindow : h.tenant.closure.any (fun closure => now < closure.purgeAfter) = true
  · rw [step_reopen hwindow]
    refine ⟨?_, ?_, ?_⟩
    · dsimp only
      split
      · exact nofun
      · exact hopen.present
    · dsimp only
      split
      · exact nofun
      · exact hopen.waiting
    · apply List.forall₂_map_left_iff.mpr
      exact List.forall₂_map_right_iff.mpr (hopen.records.imp fun _ _ hr => hr.withdraw)
  · rw [step_refused hwindow]
    exact hopen

theorem Open.run (hopen : Open h) {ops : List Op} (hops : ∀ op ∈ ops, op.isPurge = false) : Open (h.run tenantId ops) := by
  induction ops generalizing h with
  | nil => exact hopen
  | cons op later ih =>
    have hlater : ∀ op ∈ later, op.isPurge = false := fun op hop => hops op (List.mem_cons_of_mem _ hop)
    cases op with
    | close c => exact ih (hopen.close c) hlater
    | reopen now => exact ih (hopen.reopen now) hlater
    | purge p => cases hops (.purge p) List.mem_cons_self

end Open

section Purged

variable {tenantId : String} {h : History} {p : Receipt}

/-- Nothing is left to close, to reopen or to mark. -/
structure Gone (h : History) : Prop where
  absent : h.tenant.status = none
  undated : h.tenant.closure = none
  marked : ∀ r ∈ h.tenant.records, r.purgedAt ≠ none
  settled : ∀ q ∈ h.requests, q.fate ≠ .inForce

theorem meets_over {q : Request} (hq : q.fate ≠ .inForce) (fate : Fate) : q.meets fate = q := if_neg hq

theorem meets_inForce (fate : Fate) (q : Request) (hfate : fate ≠ .inForce) : (q.meets fate).fate ≠ .inForce := by
  rw [Request.meets]
  split
  · exact hfate
  · assumption

theorem purge_marked (p : Receipt) (r : ErasureRecord) : (r.purge p).purgedAt ≠ none := by
  rw [ErasureRecord.purge]
  split
  · exact nofun
  · assumption

theorem purge_gone (h : History) (p : Receipt) : Gone (h.step tenantId (.purge p)) where
  absent := rfl
  undated := rfl
  marked r hr := by
    obtain ⟨r', -, rfl⟩ := List.mem_map.mp hr
    exact purge_marked p r'
  settled q hq := by
    obtain ⟨q', -, rfl⟩ := List.mem_map.mp hq
    exact meets_inForce .purged q' nofun

theorem Gone.step (hgone : Gone h) (op : Op) : h.step tenantId op = h := by
  cases op with
  | close c => rw [History.step, Tenancy.step, answered, closeTenant, if_pos (.inl hgone.absent)]
  | reopen now =>
    apply step_refused
    rw [hgone.undated]
    exact nofun
  | purge p =>
    have hrecords : h.tenant.records.map (ErasureRecord.purge p) = h.tenant.records :=
      (List.map_congr_left fun r hr => if_neg (hgone.marked r hr)).trans (List.map_id _)
    have hrequests : h.requests.map (Request.meets .purged) = h.requests :=
      (List.map_congr_left fun q hq => meets_over (hgone.settled q hq) .purged).trans (List.map_id _)
    obtain ⟨⟨status, closure, records⟩, requests⟩ := h
    obtain rfl : status = none := hgone.absent
    obtain rfl : closure = none := hgone.undated
    rw [History.step, Tenancy.step, answered, purgeTenant, hrecords, hrequests]

theorem Gone.run (hgone : Gone h) (ops : List Op) : h.run tenantId ops = h := by
  induction ops with
  | nil => rfl
  | cons op later ih =>
    rw [History.run, List.foldl_cons, hgone.step]
    exact ih

theorem Unpurged.purge {r : ErasureRecord} {q : Request} (hr : Unpurged r q) (p : Receipt) :
    (r.purge p).windowDays = r.windowDays ∧ (r.purge p).backupsExpireAt = q.asked.timeline.backupsExpireAt := by
  rw [ErasureRecord.purge, if_pos hr.unmarked]
  exact ⟨rfl, hr.backups⟩

theorem meets_purged {q : Request} (hkept : q.fate ≠ .purged) : (q.meets .purged).fate = .purged ↔ q.fate = .inForce := by
  rw [Request.meets]
  split
  · rename_i hfate
    exact iff_of_true rfl hfate
  · rename_i hfate
    exact iff_of_false hkept hfate

theorem oneReceipt_purge (hopen : Open h) :
    OneReceipt (h.step tenantId (.purge p)) ↔ ∃ q, h.requests = [q] ∧ q.fate = .inForce := by
  have hrecords : (h.step tenantId (.purge p)).tenant.records = h.tenant.records.map (ErasureRecord.purge p) := rfl
  have hrequests : (h.step tenantId (.purge p)).requests = h.requests.map (Request.meets .purged) := rfl
  have hlength := hopen.records.length_eq
  rw [OneReceipt, hrecords, hrequests]
  constructor
  · rintro ⟨i, q, r, hq, -, hfate, -, -, honly⟩
    -- Each record is marked, so there is but one.
    have hone : ∀ j, j < h.requests.length → j = i := by
      intro j hj
      have hget : (h.tenant.records.map (ErasureRecord.purge p))[j]? = some (h.tenant.records[j].purge p) := by
        rw [List.getElem?_map, List.getElem?_eq_getElem (hlength.symm ▸ hj)]
        rfl
      exact (honly j _ hget).mp (Option.isSome_iff_ne_none.mpr (purge_marked p _))
    obtain ⟨q', hq', rfl⟩ := Option.map_eq_some_iff.mp ((List.getElem?_map ..).symm.trans hq)
    obtain ⟨hi, rfl⟩ := List.getElem?_eq_some_iff.mp hq'
    have hzero := hone 0 (by omega)
    subst hzero
    have hlen : h.requests.length = 1 := by
      by_contra hne
      exact absurd (hone 1 (by omega)) (by decide)
    obtain ⟨q, hsingle⟩ := List.length_eq_one_iff.mp hlen
    refine ⟨q, hsingle, ?_⟩
    have hget : h.requests[0] = q := by simp [hsingle]
    have hkept : h.requests[0].fate ≠ .purged :=
      ((List.forall₂_iff_get.mp hopen.records).2 0 (by omega) (by omega)).kept
    rw [hget] at hfate hkept
    exact (meets_purged hkept).mp hfate
  · rintro ⟨q, hsingle, hfate⟩
    obtain ⟨⟨status, closure, records⟩, requests⟩ := h
    obtain rfl : requests = [q] := hsingle
    cases hopen.records with
    | cons hr hnil =>
      cases hnil
      rename_i r
      refine ⟨0, q.meets .purged, r.purge p, rfl, rfl, (meets_purged hr.kept).mpr hfate, ?_, ?_, ?_⟩
      · rw [(hr.purge p).1, hr.window hfate, Request.meets, if_pos hfate]
      · rw [(hr.purge p).2, Request.meets, if_pos hfate]
      · intro j r' hj
        cases j with
        | zero =>
          obtain rfl : r.purge p = r' := Option.some.inj hj
          exact iff_of_true (Option.isSome_iff_ne_none.mpr (purge_marked p r)) rfl
        | succ j => cases hj

end Purged

section Histories

variable {tenantId : String} {h : History} {ops : List Op}

theorem Unpurged.kept_withdrawn (hrecords : List.Forall₂ Unpurged h.tenant.records h.requests) : WithdrawnKept h := by
  intro i q r hq hr hfate
  obtain ⟨hi, rfl⟩ := List.getElem?_eq_some_iff.mp hq
  obtain ⟨hj, rfl⟩ := List.getElem?_eq_some_iff.mp hr
  have hboth : Unpurged h.tenant.records[i] h.requests[i] := (List.forall₂_iff_get.mp hrecords).2 i hj hi
  exact ⟨hboth.withdrawn hfate, hboth.unmarked⟩

def Op.isClose : Op → Bool
  | .close _ => true
  | _ => false

theorem isReopen {op : Op} (hclose : op.isClose = false) (hpurge : op.isPurge = false) : ∃ now, op = .reopen now := by
  cases op with
  | close c => cases hclose
  | reopen now => exact ⟨now, rfl⟩
  | purge p => cases hpurge

theorem requests_length (tenantId : String) (hopen : Open h) (hops : ∀ op ∈ ops, op.isPurge = false) :
    (h.run tenantId ops).requests.length = h.requests.length + ops.countP Op.isClose := by
  induction ops generalizing h with
  | nil => rfl
  | cons op later ih =>
    have hlater : ∀ op ∈ later, op.isPurge = false := fun op hop => hops op (List.mem_cons_of_mem _ hop)
    cases op with
    | close c =>
      rw [List.countP_cons_of_pos rfl]
      refine (ih (hopen.close c) hlater).trans ?_
      rw [step_close hopen.present hopen.waiting, List.length_append, List.length_map, List.length_singleton]
      omega
    | reopen now =>
      rw [List.countP_cons_of_neg Bool.false_ne_true]
      refine (ih (hopen.reopen now) hlater).trans ?_
      by_cases hwindow : h.tenant.closure.any (fun closure => now < closure.purgeAfter) = true
      · rw [step_reopen hwindow, List.length_map]
      · rw [step_refused hwindow]
    | purge p => cases hops (.purge p) List.mem_cons_self

theorem run_refused (hops : ∀ op ∈ ops, ∃ now, op = .reopen now ∧ ∀ closure ∈ h.tenant.closure, closure.purgeAfter ≤ now) :
    h.run tenantId ops = h := by
  induction ops with
  | nil => rfl
  | cons op later ih =>
    obtain ⟨now, rfl, hpast⟩ := hops op List.mem_cons_self
    have hrefused : h.step tenantId (.reopen now) = h := by
      apply step_refused
      cases hclosure : h.tenant.closure with
      | none => exact nofun
      | some closure => simpa using hpast closure hclosure
    rw [History.run, List.foldl_cons, hrefused]
    exact ih fun op hop => hops op (List.mem_cons_of_mem _ hop)

theorem late_of_inForce {closure : Closure} {q : Request} (hclosure : h.tenant.closure = some closure) (hrequests : h.requests = [q])
    (hops : ∀ op ∈ ops, ∃ now, op = .reopen now) {q' : Request} (hrun : (h.run tenantId ops).requests = [q'])
    (hforce : q'.fate = .inForce) : ∀ op ∈ ops, ∃ now, op = .reopen now ∧ closure.purgeAfter ≤ now := by
  induction ops with
  | nil => exact nofun
  | cons op later ih =>
    obtain ⟨now, rfl⟩ := hops op List.mem_cons_self
    have hlater : ∀ op ∈ later, ∃ now, op = .reopen now := fun op hop => hops op (List.mem_cons_of_mem _ hop)
    rw [History.run, List.foldl_cons] at hrun
    by_cases hpast : closure.purgeAfter ≤ now
    · have hrefused : h.step tenantId (.reopen now) = h := by
        apply step_refused
        rw [hclosure]
        simpa using hpast
      rw [hrefused] at hrun
      intro op hop
      rcases List.mem_cons.mp hop with rfl | hop
      · exact ⟨now, rfl, hpast⟩
      · exact ih hlater hrun op hop
    · have hwindow : h.tenant.closure.any (fun closure => now < closure.purgeAfter) = true := by
        rw [hclosure]
        simpa using hpast
      have hdone : (h.step tenantId (.reopen now)).run tenantId later = h.step tenantId (.reopen now) := by
        apply run_refused
        intro op hop
        obtain ⟨later, rfl⟩ := hlater op hop
        refine ⟨later, rfl, ?_⟩
        rw [step_reopen hwindow]
        exact nofun
      have hmeets : [q.meets .withdrawn] = [q'] := by
        rw [← hrun, ← History.run, hdone, step_reopen hwindow, hrequests, List.map_singleton]
      obtain rfl : q.meets .withdrawn = q' := by simpa using hmeets
      exact absurd hforce (meets_inForce .withdrawn q nofun)

theorem closed_once_iff (tenantId : String) (suspended : Bool) (hops : ∀ op ∈ ops, op.isPurge = false) :
    (∃ q, ((History.opened suspended).run tenantId ops).requests = [q] ∧ q.fate = .inForce) ↔
      ∃ before c later, ops = before ++ .close c :: later ∧ (∀ op ∈ before, ∃ now, op = .reopen now) ∧
        ∀ op ∈ later, ∃ now, op = .reopen now ∧ c.timeline.purgeAfter ≤ now := by
  have hbefore : ∀ {before : List Op}, (∀ op ∈ before, ∃ now, op = .reopen now) →
      (History.opened suspended).run tenantId before = History.opened suspended := by
    intro before hreopens
    apply run_refused
    intro op hop
    obtain ⟨now, rfl⟩ := hreopens op hop
    exact ⟨now, rfl, nofun⟩
  have hsplit : ∀ {before later : List Op} (c : CloseRequest), (∀ op ∈ before, ∃ now, op = .reopen now) →
      (History.opened suspended).run tenantId (before ++ .close c :: later) =
        ((History.opened suspended).step tenantId (.close c)).run tenantId later := by
    intro before later c hreopens
    rw [History.run, List.foldl_append, List.foldl_cons]
    change ((((History.opened suspended).run tenantId before).step tenantId (.close c)).run tenantId later) = _
    rw [hbefore hreopens]
  have hclose : ∀ c, (History.opened suspended).step tenantId (.close c) =
      ⟨⟨some .closed, some ⟨c.now, c.timeline.purgeAfter, c.closedBy⟩, [c.record]⟩, [⟨c, .inForce⟩]⟩ :=
    fun c => step_close (opened_open suspended).present (opened_open suspended).waiting c
  constructor
  · rintro ⟨q, hrun, hforce⟩
    have hcount := requests_length tenantId (opened_open suspended) hops
    rw [hrun, History.opened, List.length_nil, List.length_singleton, Nat.zero_add] at hcount
    obtain ⟨op, hop, hisClose⟩ := List.countP_pos_iff.mp (hcount ▸ Nat.one_pos)
    obtain ⟨before, later, rfl⟩ := List.append_of_mem hop
    cases op with
    | close c =>
      rw [List.countP_append, List.countP_cons_of_pos hisClose] at hcount
      have hnone : ∀ op ∈ before ++ later, ∃ now, op = .reopen now := by
        intro op hop
        refine isReopen ?_ (hops op ?_)
        · have hzero : (before ++ later).countP Op.isClose = 0 := by
            rw [List.countP_append]
            omega
          exact Bool.eq_false_iff.mpr (List.countP_eq_zero.mp hzero op hop)
        · rcases List.mem_append.mp hop with hop | hop
          · exact List.mem_append_left _ hop
          · exact List.mem_append_right _ (List.mem_cons_of_mem _ hop)
      have hreopens : ∀ op ∈ before, ∃ now, op = .reopen now := fun op hop => hnone op (List.mem_append_left _ hop)
      rw [hsplit c hreopens, hclose] at hrun
      exact ⟨before, c, later, rfl, hreopens,
        late_of_inForce rfl rfl (fun op hop => hnone op (List.mem_append_right _ hop)) hrun hforce⟩
    | reopen now => cases hisClose
    | purge p => cases hisClose
  · rintro ⟨before, c, later, rfl, hreopens, hlate⟩
    refine ⟨⟨c, .inForce⟩, ?_, rfl⟩
    rw [hsplit c hreopens, hclose, run_refused]
    intro op hop
    obtain ⟨now, rfl, hpast⟩ := hlate op hop
    refine ⟨now, rfl, ?_⟩
    intro closure hclosure
    obtain rfl := Option.some.inj hclosure
    exact hpast

theorem withdrawnKept_purge (p : Receipt) (hone : ∃ q, h.requests = [q] ∧ q.fate = .inForce) :
    WithdrawnKept (h.step tenantId (.purge p)) := by
  obtain ⟨q, hsingle, hfate⟩ := hone
  intro i q' r hq hr hwithdrawn
  have hrequests : (h.step tenantId (.purge p)).requests = [q.meets .purged] := by
    rw [History.step, answered, hsingle, List.map_singleton]
  rw [hrequests] at hq
  cases i with
  | zero =>
    obtain rfl : q.meets .purged = q' := Option.some.inj hq
    rw [Request.meets, if_pos hfate] at hwithdrawn
    cases hwithdrawn
  | succ i => cases hq

theorem truthful_iff (tenantId : String) (suspended : Bool) (ops : List Op) :
    Truthful tenantId suspended ops ↔ (ops.any Op.isPurge → ClosedOnce ops) := by
  have htake : ∀ op ∈ ops.takeWhile (!·.isPurge), op.isPurge = false := by
    intro op hop
    simpa using List.mem_takeWhile_imp hop
  have hopen : Open ((History.opened suspended).run tenantId (ops.takeWhile (!·.isPurge))) := (opened_open suspended).run htake
  have hsplit := List.takeWhile_append_dropWhile (p := fun op : Op => !op.isPurge) (l := ops)
  cases hdrop : ops.dropWhile (!·.isPurge) with
  | nil =>
    rw [hdrop, List.append_nil] at hsplit
    have hnone : ops.any Op.isPurge = false := by
      rw [← hsplit, List.any_eq_false]
      intro op hop
      simp [htake op hop]
    rw [hsplit] at hopen
    refine iff_of_true ⟨?_, Unpurged.kept_withdrawn hopen.records⟩ ?_
    · rw [hnone]
      exact nofun
    · rw [hnone]
      exact nofun
  | cons op rest =>
    obtain ⟨p, rfl⟩ : ∃ p, op = .purge p := by
      have hhead := List.head?_dropWhile_not (fun op : Op => !op.isPurge) ops
      rw [hdrop] at hhead
      cases op with
      | purge p => exact ⟨p, rfl⟩
      | close c => simp [Op.isPurge] at hhead
      | reopen now => simp [Op.isPurge] at hhead
    rw [hdrop] at hsplit
    have hany : ops.any Op.isPurge = true := by
      rw [← hsplit]
      simp [Op.isPurge]
    have hrun : (History.opened suspended).run tenantId ops =
        ((History.opened suspended).run tenantId (ops.takeWhile (!·.isPurge))).step tenantId (.purge p) := by
      conv_lhs => rw [← hsplit]
      rw [History.run, List.foldl_append, List.foldl_cons]
      exact (purge_gone _ p).run rest
    rw [ClosedOnce, ← closed_once_iff tenantId suspended htake, ← oneReceipt_purge hopen]
    constructor
    · intro htruth _
      have hone := htruth.purged hany
      rw [hrun] at hone
      exact hone
    · intro hone
      refine ⟨?_, ?_⟩
      · rw [hrun]
        exact hone
      · rw [hrun]
        exact withdrawnKept_purge p ((oneReceipt_purge hopen).mp (hone hany))

/-- The owner closes with a window of 30 days, closes again with one of 7, and the purge runs on its day. -/
theorem Sample.both_requests_marked :
    ¬ Truthful "t" false [.close ⟨30, "owner", 0, 14⟩, .close ⟨7, "owner", 0, 14⟩, .purge ⟨7 * DAY_MS, [], [], []⟩] := by
  intro h
  obtain ⟨i, q, r, -, -, -, -, -, honly⟩ := h.purged rfl
  have hfirst := (honly 0 _ rfl).mp rfl
  have hsecond := (honly 1 _ rfl).mp rfl
  omega

end Histories

end OpenMigrate.Offboarding.Records
