import OpenMigrate.Async.Turns
import OpenMigrate.Async.Versions
import OpenMigrate.Ledger.Record
import OpenMigrate.Text
import Mathlib.Data.List.Infix

namespace OpenMigrate.Sharing

open Async

section Source

inductive PermissionSubject where
  | mailbox
  | calendar
  | driveItem
  deriving DecidableEq

def PermissionSubject.name : PermissionSubject → String
  | mailbox => "mailbox"
  | calendar => "calendar"
  | driveItem => "drive_item"

structure PermissionGrant where
  subject : PermissionSubject
  on : String
  grantee : Option String
  role : String
  raw : String
  viaLink : Bool

inductive Verdict where
  | clean
  | manual
  deriving DecidableEq

structure PermissionMapping where
  verdict : Verdict
  target : String
  note : Option String

/-- `/word|word/i.test(role)` -/
def mentions (words : List String) (role : String) : Bool :=
  words.any fun word => decide (word.toList <:+: lower role.toList)

def mapGrant (grant : PermissionGrant) : PermissionMapping :=
  match grant.subject, grant.viaLink with
  | .calendar, _ =>
    { verdict := .clean
      target :=
        if mentions ["write", "owner", "editor"] grant.role then "a Nextcloud calendar share with write access"
        else "a Nextcloud calendar share, read-only"
      note := some "CalDAV calendar sharing is the same idea on both sides; only the wording differs." }
  | .driveItem, true =>
    { verdict := .manual
      target :=
        "decide whether this link should exist at all after the move — a sharing link is a " ++
          "URL that works for whoever has it, so migrating it silently would carry that " ++
          "access across without anybody choosing to"
      note := some "Not a right held by a person, so there is nothing to translate." }
  | .driveItem, false =>
    { verdict := .clean
      target :=
        if mentions ["write", "owner", "editor"] grant.role then "a Nextcloud share with edit permission"
        else "a Nextcloud share, read-only"
      note := some "A per-person file or folder share exists on both sides." }
  | .mailbox, _ =>
    if mentions ["fullaccess"] grant.role then
      { verdict := .manual
        target :=
          "give each person who needs the shared mailbox their own app password for it " ++
            "(SAD §14.1, docs/shared-mailboxes.md)"
        note := some ("The target has no per-person mailbox ACL; app passwords are the convention, and they can be " ++
          "withdrawn individually.") }
    else if mentions ["sendas", "sendonbehalf"] grant.role then
      { verdict := .manual
        target := "configure Send-As for this address on the target platform"
        note := some "Send-As is a platform setting on the target, not a permission this tool can grant." }
    else
      { verdict := .manual
        target := "no equivalent is known for this right — decide what it should become"
        note := some "This table has no entry for it, which is itself worth knowing before cutover." }

/-- What a scan writes of a grant. -/
structure ShareGrant where
  grantHash : String
  subject : String
  onLabel : String
  grantee : Option String
  role : String
  viaLink : Bool
  raw : String
  verdict : Verdict
  verdictTarget : String

inductive ShareState where
  | opened
  | applied
  | doneManual
  | skipped
  deriving DecidableEq

def ShareState.name : ShareState → String
  | opened => "open"
  | applied => "applied"
  | doneManual => "done_manual"
  | skipped => "skipped"

structure ShareGrantRow extends ShareGrant where
  id : ℕ
  state : ShareState := .opened
  stateReason : Option String := none
  decidedBy : Option String := none
  decidedAt : Option Instant := none
  scannedAt : Instant

variable (sha256Hex : String → String)

def shareGrantHash (grant : PermissionGrant) : String :=
  sha256Hex (String.intercalate "\x00"
    [grant.subject.name, grant.on, grant.grantee.getD "", grant.role, if grant.viaLink then "link" else "person"])

def shareGrantRowFrom (grant : PermissionGrant) : ShareGrant where
  grantHash := shareGrantHash sha256Hex grant
  subject := grant.subject.name
  onLabel := grant.on
  grantee := truthy grant.grantee
  role := grant.role
  viaLink := grant.viaLink
  raw := grant.raw
  verdict := (mapGrant grant).verdict
  verdictTarget :=
    match truthy (mapGrant grant).note with
    | some note => s!"{(mapGrant grant).target} — {note}"
    | none => (mapGrant grant).target

inductive PermissionListing where
  | listed (grants : List PermissionGrant)
  | notDiscoverable (reason : String)

structure Decision where
  state : ShareState
  decidedBy : String
  reason : Option String
  settles : state ≠ .opened

def ShareGrantRow.touch (row : ShareGrantRow) (now : Instant) : ShareGrantRow := { row with scannedAt := now }

def ShareGrantRow.settle (row : ShareGrantRow) (decision : Decision) (now : Instant) : ShareGrantRow :=
  { row with
    state := decision.state
    decidedBy := some decision.decidedBy
    decidedAt := some now
    stateReason := (truthy decision.reason).or row.stateReason }

/-- The rows of one mapping, and the shares that its target has made: for which row, at which call's request. -/
structure Queue where
  cells : List (Cell ShareGrantRow)
  shares : List (ℕ × ℕ)

inductive Reply (α : Type) where
  | done (queue : Queue) (answer : α)
  | waits

def freshId (cells : List (Cell ShareGrantRow)) : ℕ := (cells.map (·.base.id)).foldr max 0 + 1

def ShareGrant.row (grant : ShareGrant) (id : ℕ) (now : Instant) : ShareGrantRow :=
  { grant with id := id, scannedAt := now }

/-- One grant of `upsertShareGrants`: INSERT … ON CONFLICT DO UPDATE SET scanned_at. -/
def Queue.upsert (queue : Queue) (session : ℕ) (grant : ShareGrant) (now : Instant) : Reply ShareGrantRow :=
  match queue.cells.find? fun c => c.base.grantHash == grant.grantHash with
  | none =>
    let row := grant.row (freshId queue.cells) now
    .done { queue with cells := queue.cells ++ [.inserted session row] } row
  | some c =>
    if c.heldByOther session then .waits
    else
      .done { queue with
        cells := Cells.writeAt queue.cells session (fun c => c.base.grantHash == grant.grantHash) (·.touch now) }
        (c.latest.touch now)

def Queue.listShareGrants (queue : Queue) (session : ℕ) : List ShareGrantRow := queue.cells.filterMap
    (Cell.sees session)

/-- The UPDATE's WHERE, over what the session sees. -/
def offers (session grantId : ℕ) (c : Cell ShareGrantRow) : Bool :=
  (c.sees session).any fun row => row.id == grantId && row.state == .opened

def Queue.decideShareGrant (queue : Queue) (session grantId : ℕ) (decision : Decision) (now : Instant) :
    Reply (Option ShareGrantRow) :=
  match queue.cells.find? (offers session grantId) with
  | none => .done queue none
  | some c =>
    if c.heldByOther session then .waits
    else
      .done { queue with
        cells := Cells.writeAt queue.cells session (offers session grantId) (·.settle decision now) }
        (some (c.latest.settle decision now))

def Queue.commit (queue : Queue) (session : ℕ) : Queue := { queue with cells := Cells.commit queue.cells session }

def Queue.rollback (queue : Queue) (session : ℕ) : Queue := { queue with cells := Cells.rollback queue.cells session }

def Queue.share (queue : Queue) (session grantId : ℕ) : Queue :=
  { queue with shares := queue.shares ++ [(session, grantId)] }

/-- The managed edition runs a call in one transaction; the appliance commits each statement. -/
structure Edition where
  inTransaction : Bool
  toISOString : Instant → String

structure ApplyShareDeps where
  decidedBy : String
  lifecycleDone : Bool
  hasCreateShare : Bool

inductive Tick where
  | doneManual
  | skipped

inductive Request where
  | refresh (scans : List (Except String PermissionListing))
  | apply (deps : ApplyShareDeps) (grantId : ℕ)
  | mark (decidedBy : String) (grantId : ℕ) (tick : Tick) (reason : Option String)

inductive Answer where
  | refreshed (opened : ℕ) (blindSpots : List String)
  | settled (row : ShareGrantRow)
  | refused (code reason : String)

inductive Stage where
  | beginning
  | upserting (rest : List ShareGrant) (opened : ℕ) (blindSpots : List String)
  | finding
  | creating (row : ShareGrantRow)
  | settling (grantId : ℕ) (decision : Decision)
  | auditing (settled : ShareGrantRow)
  | committing (answer : Answer)
  | rollingBack (error : String)
  | returned (result : Except String Answer)
  | dead

structure Caller where
  session : ℕ
  request : Request
  stage : Stage
  aborted : Bool := false

variable (edition : Edition)

/-- The rows and the blind spots of `refreshShareGrants`; a scan that throws ends it. -/
def gather : List (Except String PermissionListing) → Except String (List ShareGrant × List String)
  | [] => .ok ([], [])
  | .error e :: _ => .error e
  | .ok (.listed grants) :: scans =>
    (gather scans).map fun found => (grants.map (shareGrantRowFrom sha256Hex) ++ found.1, found.2)
  | .ok (.notDiscoverable reason) :: scans => (gather scans).map fun found => (found.1, reason :: found.2)

def Edition.finishes (answer : Answer) : Stage :=
  if edition.inTransaction then .committing answer else .returned (.ok answer)

def Edition.fails (error : String) : Stage :=
  if edition.inTransaction then .rollingBack error else .returned (.error error)

def Edition.upserts (opened : ℕ) (blindSpots : List String) : List ShareGrant → Stage
  | [] => edition.finishes (.refreshed opened blindSpots)
  | grant :: rest => .upserting (grant :: rest) opened blindSpots

def Edition.starts : Request → Stage
  | .refresh scans =>
    match gather sha256Hex scans with
    | .ok (grants, blindSpots) => edition.upserts 0 blindSpots grants
    | .error e => edition.fails e
  | _ => .finding

def settledText (row : ShareGrantRow) : String :=
  s!"This row was settled as '{row.state.name}'" ++
    ((truthy row.decidedBy).elim "" fun by_ => s!" by {by_}") ++
    (row.decidedAt.elim "" fun at_ => s!" on {edition.toISOString at_}") ++
    " — a settled checklist item stays settled."

def Request.grantId : Request → Option ℕ
  | refresh _ => none
  | apply _ grantId | mark _ grantId _ _ => some grantId

def Tick.state : Tick → ShareState
  | doneManual => .doneManual
  | skipped => .skipped

theorem Tick.settles (tick : Tick) : tick.state ≠ .opened := by cases tick <;> exact ShareState.noConfusion

def ApplyShareDeps.decision (deps : ApplyShareDeps) : Decision :=
    ⟨.applied, deps.decidedBy, none, ShareState.noConfusion⟩

def Request.decision : Request → Option Decision
  | refresh _ => none
  | apply deps _ => some deps.decision
  | mark decidedBy _ tick reason => some ⟨tick.state, decidedBy, reason, tick.settles⟩

/-- The gates of `applyShareGrant`, in their order. -/
def ApplyShareDeps.gate (deps : ApplyShareDeps) (row : ShareGrantRow) : Option Answer :=
  if row.viaLink then
    some (.refused "link_share"
      ("A sharing link has no addressable audience: re-creating it re-opens access to an " ++
        "unknown set of people, and no platform can notify \"whoever had the old link\". " ++
        "Create a new link on the target yourself if you want one, then mark this row done " ++
        "(ADR-0032)."))
  else if row.verdict ≠ .clean then
    some (.refused "manual_only"
      s!"This right has no clean equivalent the tool may create. What to do instead: {row.verdictTarget}")
  else if !deps.lifecycleDone then
    some (.refused "not_cut_over"
      ("Shares are applied at or after cutover, not before: the share invite is an " ++
        "announcement that the new system is live, and this migration is not finished. " ++
        "Finish it, then work the sharing checklist (ADR-0032)."))
  else if !deps.hasCreateShare then
    some (.refused "no_share_api"
      ("This target has no share API this tool speaks (plain WebDAV, CalDAV and JMAP have " ++
        "no portable share verb). Create the share by hand on the target, then mark this " ++
        "row done."))
  else none

/-- What follows on `findOpenRow`. -/
def Edition.found (request : Request) (grantId : ℕ) (rows : List ShareGrantRow) : Stage :=
  match rows.find? fun row => row.id == grantId with
  | none =>
    edition.finishes (.refused "not_found" "No sharing-queue row under that id for this migration.")
  | some row =>
    if row.state ≠ .opened then edition.finishes (.refused "already_settled" (settledText edition row))
    else
      match request with
      | .apply deps _ =>
        match deps.gate row with
        | some refusal => edition.finishes refusal
        | none => .creating row
      | request =>
        match request.decision with
        | some decision => .settling grantId decision
        | none => .finding

def lostRace : Request → Answer
  | .apply .. => .refused "already_settled" "This row was settled by someone else while the share was being created."
  | _ => .refused "already_settled" "This row was settled by someone else first."

inductive Outcome where
  | runs
  | refused (error : String)
  | unsent (error : String)
  | unheard (error : String)
  | dies (carriedOut : Bool)

structure Turn where
  outcome : Outcome
  now : Instant

def abortedText : String := "current transaction is aborted, commands ignored until end of transaction block"

/-- The statements of the appliance commit by themselves. -/
def Edition.done (session : ℕ) (queue : Queue) : Queue :=
  if edition.inTransaction then queue else queue.commit session

/-- The queue behind a statement that the server has carried out, whether or not its answer comes back. -/
def Edition.after {α : Type} (caller : Caller) (queue : Queue) : Reply α → Queue
  | .done queue' _ => if caller.aborted then queue else edition.done caller.session queue'
  | .waits => queue

def Edition.sends {α : Type} (queue : Queue) (caller : Caller) (reply : Reply α) (onDone : α → Stage)
    (onError : String → Stage) : Outcome → Queue × Caller
  | .runs =>
    if caller.aborted then (queue, { caller with stage := onError abortedText })
    else
      match reply with
      | .done queue' answer => (edition.done caller.session queue', { caller with stage := onDone answer })
      | .waits => (queue, caller)
  -- An error inside a transaction aborts it, and the server drops what it has written.
  | .refused error =>
    (queue.rollback caller.session, { caller with stage := onError error, aborted := edition.inTransaction })
  | .unsent error => (queue, { caller with stage := onError error })
  | .unheard error => (edition.after caller queue reply, { caller with stage := onError error })
  | .dies carriedOut =>
    ((if carriedOut then edition.after caller queue reply else queue).rollback caller.session,
      { caller with stage := .dead })

/-- A row that is new or still waits counts as open. -/
def ShareGrantRow.counts (row : ShareGrantRow) : ℕ := if row.state = .opened ∧ row.decidedAt = none then 1 else 0

def Edition.creates (queue : Queue) (caller : Caller) (grantId : ℕ) (decision : Decision) : Outcome → Queue × Caller
  | .runs => (queue.share caller.session grantId, { caller with stage := .settling grantId decision })
  | .refused reason | .unsent reason =>
    (queue, { caller with stage := edition.finishes (.refused "target_refused" reason) })
  | .unheard reason =>
    (queue.share caller.session grantId, { caller with stage := edition.finishes (.refused "target_refused" reason) })
  | .dies carriedOut =>
    ((if carriedOut then queue.share caller.session grantId else queue).rollback caller.session,
      { caller with stage := .dead })

/-- The COMMIT of a transaction that was aborted is its ROLLBACK, and no error. -/
def Caller.ends (caller : Caller) (queue : Queue) : Queue :=
  if caller.aborted then queue.rollback caller.session else queue.commit caller.session

def commits (queue : Queue) (caller : Caller) (answer : Answer) : Outcome → Queue × Caller
  | .runs => (caller.ends queue, { caller with stage := .returned (.ok answer) })
  | .refused error =>
    (queue.rollback caller.session, { caller with stage := .rollingBack error, aborted := true })
  | .unsent error => (queue, { caller with stage := .rollingBack error })
  | .unheard error => (caller.ends queue, { caller with stage := .rollingBack error })
  | .dies carriedOut =>
    ((if carriedOut then caller.ends queue else queue).rollback caller.session, { caller with stage := .dead })

def step (queue : Queue) (caller : Caller) (turn : Turn) : Queue × Caller :=
  match caller.stage with
  | .beginning =>
    edition.sends queue caller (.done queue ()) (fun _ => edition.starts sha256Hex caller.request) edition.fails
      turn.outcome
  | .upserting (grant :: rest) opened blindSpots =>
    edition.sends queue caller (queue.upsert caller.session grant turn.now)
      (fun row => edition.upserts (opened + row.counts) blindSpots rest) edition.fails turn.outcome
  | .upserting [] _ _ => (queue, caller)
  | .finding =>
    match caller.request.grantId with
    | some grantId =>
      edition.sends queue caller (.done queue (queue.listShareGrants caller.session))
        (edition.found caller.request grantId) edition.fails turn.outcome
    | none => (queue, caller)
  | .creating row =>
    match caller.request.decision with
    | some decision => edition.creates queue caller row.id decision turn.outcome
    | none => (queue, caller)
  | .settling grantId decision =>
    edition.sends queue caller (queue.decideShareGrant caller.session grantId decision turn.now)
      (fun
        | some row => .auditing row
        | none => edition.finishes (lostRace caller.request))
      edition.fails turn.outcome
  -- An audit row that cannot be written is logged, and the call goes on.
  | .auditing row =>
    edition.sends queue caller (.done queue ()) (fun _ => edition.finishes (.settled row))
      (fun _ => edition.finishes (.settled row)) turn.outcome
  | .committing answer => commits queue caller answer turn.outcome
  | .rollingBack error =>
    (queue.rollback caller.session,
      { caller with
        stage := match turn.outcome with
          | .dies _ => .dead
          | _ => .returned (.error error) })
  | .returned _ | .dead => (queue, caller)

/-- The table of one mapping, with its primary key and its unique index on the hash. -/
structure ShareTable where
  rows : List ShareGrantRow
  ids : (rows.map (·.id)).Nodup
  hashes : (rows.map (·.grantHash)).Nodup

def Request.caller (request : Request) (session : ℕ) : Caller where
  session := session
  request := request
  stage := if edition.inTransaction then .beginning else edition.starts sha256Hex request

def ShareTable.opening (table : ShareTable) (requests : List Request) : List Caller × Queue :=
  (requests.mapIdx fun session request => request.caller sha256Hex edition session,
    { cells := table.rows.map fun row => .kept row none, shares := [] })

def run (table : ShareTable) (requests : List Request) (chs : List (ℕ × Turn)) : List Caller × Queue :=
  turns (step sha256Hex edition) (table.opening sha256Hex edition requests) chs

end Source

end OpenMigrate.Sharing
