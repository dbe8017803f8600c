import OpenMigrate.Async.Turns
import OpenMigrate.Ledger.Record

namespace OpenMigrate.Access

open Async

section Source

inductive RequestState where
  | opened
  | granted
  | declined
  deriving DecidableEq

/-- A tenant that was there before, or the one whose id a call has drawn. -/
inductive Tenant where
  | before (id : ℕ)
  | drawn (session : ℕ)
  deriving DecidableEq

/-- A row of `access_request`, with the CHECK constraints of its table. -/
structure AccessRequest where
  id : ℕ
  email : String
  name : Option String := none
  organisation : Option String := none
  state : RequestState := .opened
  tenantId : Option Tenant := none
  decidedBy : Option String := none
  decidedAt : Option Instant := none
  decisionNote : Option String := none
  decided_check : state = .opened ↔ decidedAt = none
  granted_check : state = .granted ↔ tenantId ≠ none

/-- The tenant that a grant inserts, with its owner's invitation. -/
structure Organisation where
  tenant : Tenant
  name : String
  email : String
  deriving DecidableEq

/-- A call of one of the two routes. Who is no operator sees no row. -/
structure Ask where
  grants : Bool
  id : ℕ
  userId : String
  operator : Bool := true
  note : Option String := none
  organisationName : Option String := none

def given (note : Option String) : Option String := note.filter (· ≠ "")

def Ask.organisation (ask : Ask) (session : ℕ) (row : AccessRequest) : Organisation :=
  ⟨.drawn session, ((ask.organisationName.or row.organisation).or row.name).getD row.email, row.email⟩

def Ask.grant (ask : Ask) (session : ℕ) (now : Instant) (row : AccessRequest) : AccessRequest :=
  { row with
    state := .granted
    tenantId := some (.drawn session)
    decidedBy := some ask.userId
    decidedAt := some now
    decisionNote := (given ask.note).or row.decisionNote
    decided_check := by simp
    granted_check := by simp }

/-- No row that names a tenant can be made a declined one. -/
def Ask.decline (ask : Ask) (now : Instant) (row : AccessRequest) : Option AccessRequest :=
  if h : row.tenantId = none then
    some { row with
      state := .declined
      decidedBy := some ask.userId
      decidedAt := some now
      decisionNote := (given ask.note).or row.decisionNote
      decided_check := by simp
      granted_check := by simp [h] }
  else none

def Ask.decide (ask : Ask) (session : ℕ) (now : Instant) (row : AccessRequest) : Option AccessRequest :=
  if ask.grants then some (ask.grant session now row) else ask.decline now row

/-- A decision that was committed. It is of the model, as is how many of them there were when its call read the row. -/
structure Entry where
  id : ℕ
  session : ℕ
  readAt : ℕ
  organisation : Option Organisation

/-- What is committed, and the rows that transactions have locked. -/
structure Database where
  rows : List AccessRequest
  organisations : List Organisation
  locks : List (ℕ × ℕ)
  log : List Entry

inductive Answer where
  | notFound
  | decided (state : RequestState)
  | granted (organisation : Organisation)
  | declined

inductive Stage where
  | reading
  | inserting (organisation : Organisation)
  | inviting (organisation : Organisation)
  | deciding (organisation : Option Organisation)
  | committing (answer : Answer) (write : Option (AccessRequest × Option Organisation))
  | returned (result : Except String Answer)
  | dead

structure Caller where
  session : ℕ
  ask : Ask
  stage : Stage := .reading
  readAt : ℕ := 0

/-- A statement whose answer does not come may have been carried out. -/
inductive Outcome where
  | runs
  | fails (error : String) (carriedOut : Bool)
  | dies (carriedOut : Bool)

structure Turn where
  outcome : Outcome
  now : Instant := 0

def Database.release (db : Database) (session : ℕ) : Database :=
  { db with locks := db.locks.filter fun l => l.2 ≠ session }

def Database.commit (db : Database) (c : Caller) : Option (AccessRequest × Option Organisation) → Database
  | none => db
  | some (row, organisation) =>
    { db with
      rows := db.rows.map fun r => if r.id = row.id then row else r
      organisations := db.organisations ++ organisation.toList
      log := db.log ++ [⟨row.id, c.session, c.readAt, organisation⟩] }

def checkText : String := "new row for relation \"access_request\" violates check constraint"

def reads (db : Database) (c : Caller) : Caller :=
  match if c.ask.operator then db.rows.find? fun row => row.id == c.ask.id else none with
  | none => { c with stage := .committing .notFound none }
  | some row =>
    if row.state ≠ .opened then { c with stage := .committing (.decided row.state) none }
    else
      { c with
        stage := if c.ask.grants then .inserting (c.ask.organisation c.session row) else .deciding none
        readAt := db.log.length }

/-- The UPDATE waits for the transaction that has the row, and takes the row as that one leaves it. -/
def updates (db : Database) (c : Caller) (now : Instant) (organisation : Option Organisation) : Database × Caller :=
  if db.locks.any fun l => l.1 == c.ask.id && l.2 != c.session then (db, c)
  else
    match db.rows.find? fun row => row.id == c.ask.id with
    | none => (db, { c with stage := .committing (organisation.elim .declined .granted) none })
    | some row =>
      match c.ask.decide c.session now row with
      | some row' =>
        ({ db with locks := db.locks ++ [(c.ask.id, c.session)] },
          { c with stage := .committing (organisation.elim .declined .granted) (some (row', organisation)) })
      | none => (db.release c.session, { c with stage := .returned (.error checkText) })

def carriesOut (db : Database) (c : Caller) (now : Instant) : Database × Caller :=
  match c.stage with
  | .reading => (db, reads db c)
  | .inserting organisation => (db, { c with stage := .inviting organisation })
  | .inviting organisation => (db, { c with stage := .deciding (some organisation) })
  | .deciding organisation => updates db c now organisation
  | .committing answer write => ((db.commit c write).release c.session, { c with stage := .returned (.ok answer) })
  | .returned _ | .dead => (db, c)

/-- What is left of a transaction whose connection is lost. -/
def abandoned (db : Database) (c : Caller) (carriedOut : Bool) : Database :=
  match c.stage with
  | .committing _ write => (if carriedOut then db.commit c write else db).release c.session
  | .returned _ | .dead => db
  | _ => db.release c.session

def Stage.over : Stage → Bool
  | .returned _ | .dead => true
  | _ => false

def step (db : Database) (c : Caller) (turn : Turn) : Database × Caller :=
  match turn.outcome with
  | .runs => carriesOut db c turn.now
  | .fails error carriedOut =>
    (abandoned db c carriedOut, if c.stage.over then c else { c with stage := .returned (.error error) })
  | .dies carriedOut => (abandoned db c carriedOut, if c.stage.over then c else { c with stage := .dead })

/-- The table as a run finds it: no tenant of it is one that a call of the run has drawn. -/
structure RequestTable where
  rows : List AccessRequest
  organisations : List Organisation
  ids : (rows.map (·.id)).Nodup
  before : ∀ row ∈ rows, ∀ session, row.tenantId ≠ some (.drawn session)

def RequestTable.opening (table : RequestTable) (asks : List Ask) : List Caller × Database :=
  (asks.mapIdx fun session ask => ⟨session, ask, .reading, 0⟩, ⟨table.rows, table.organisations, [], []⟩)

def run (table : RequestTable) (asks : List Ask) (chs : List (ℕ × Turn)) : List Caller × Database :=
  turns step (table.opening asks) chs

end Source

section Spec

/-- What an answer says of the decisions that are committed. -/
def Told (db : Database) (session : ℕ) : Answer → Prop
  | .granted organisation => ∃ e ∈ db.log, e.session = session ∧ e.organisation = some organisation
  | .declined => ∃ e ∈ db.log, e.session = session ∧ e.organisation = none
  | _ => True

/-- What any calls make of the requests: a tenant with its owner's invitation for each grant and no other, no grant
taken back, and a second decision only by a call that had read the request before the first was committed. -/
structure Settled (table : RequestTable) (db : Database) : Prop where
  untouched : ∀ row ∈ db.rows, (∀ e ∈ db.log, e.id ≠ row.id) → row ∈ table.rows
  closed : ∀ row ∈ db.rows, ∀ e ∈ db.log, e.id = row.id →
    row.state ≠ .opened ∧ (e.organisation ≠ none → row.state = .granted)
  organisations : db.organisations = table.organisations ++ db.log.filterMap (·.organisation)
  addressed : ∀ e ∈ db.log, ∀ o ∈ e.organisation, o.tenant = .drawn e.session ∧
    ∃ row ∈ db.rows, row.id = e.id ∧ row.email = o.email
  named : ∀ row ∈ db.rows, ∀ session, row.tenantId = some (.drawn session) →
    ∃ e ∈ db.log, e.id = row.id ∧ e.session = session ∧ e.organisation ≠ none
  overlap : ∀ e ∈ db.log, e.readAt ≤ db.log.length ∧ ∀ e' ∈ db.log.take e.readAt, e'.id ≠ e.id
  granted : db.log.Pairwise fun e e' => e'.id = e.id → e.organisation ≠ none → e'.organisation ≠ none

/-- The calls are told what was committed. -/
structure Decided (table : RequestTable) (x : List Caller × Database) : Prop where
  settled : Settled table x.2
  told : ∀ c ∈ x.1, ∀ answer, c.stage = .returned (.ok answer) → Told x.2 c.session answer

end Spec

section Decide

variable {ask : Ask} {session : ℕ} {now : Instant} {row row' : AccessRequest}

/-- What a decision makes of a row. -/
structure Decides (ask : Ask) (session : ℕ) (row row' : AccessRequest) : Prop where
  id : row'.id = row.id
  email : row'.email = row.email
  state : row'.state ≠ .opened
  grants : ask.grants = true → row'.state = .granted ∧ row'.tenantId = some (.drawn session)
  declines : ask.grants = false → row.tenantId = none ∧ row'.tenantId = none

theorem decide_decides (h : ask.decide session now row = some row') : Decides ask session row row' := by
  unfold Ask.decide at h
  split at h
  · rename_i hgrants
    obtain rfl := Option.some.inj h
    refine ⟨rfl, rfl, RequestState.noConfusion, fun _ => ⟨rfl, rfl⟩, fun hdeclines => ?_⟩
    rw [hgrants] at hdeclines
    cases hdeclines
  · rename_i hgrants
    unfold Ask.decline at h
    split at h
    · rename_i hnone
      obtain rfl := Option.some.inj h
      exact ⟨rfl, rfl, RequestState.noConfusion, fun hgrants' => absurd hgrants' hgrants, fun _ => ⟨hnone, hnone⟩⟩
    · cases h

/-- A granted row can only be granted again. -/
theorem Decides.again (h : Decides ask session row row') (hstate : row.state = .granted) : ask.grants = true := by
  by_contra hgrants
  rw [Bool.not_eq_true] at hgrants
  exact row.granted_check.mp hstate (h.declines hgrants).1

end Decide

section Commit

variable {table : RequestTable} {db db' : Database} {c : Caller} {row row' : AccessRequest}
  {organisation : Option Organisation}

theorem row_unique (hnodup : (db.rows.map (·.id)).Nodup) (hrow : row ∈ db.rows) (hrow' : row' ∈ db.rows)
    (hid : row.id = row'.id) : row = row' := List.inj_on_of_nodup_map hnodup hrow hrow' hid

/-- A call has read its request, which nobody had decided then. -/
structure Read (db : Database) (id readAt : ℕ) : Prop where
  le : readAt ≤ db.log.length
  unseen : ∀ e ∈ db.log.take readAt, e.id ≠ id

/-- The tenant that a call would make, if any. -/
structure Founds (ask : Ask) (session : ℕ) (row : AccessRequest) (organisation : Option Organisation) : Prop where
  grants : organisation.isSome = ask.grants
  own : ∀ o ∈ organisation, o.tenant = .drawn session ∧ row.email = o.email

/-- The row that a call has written and not committed. -/
structure Wrote (db : Database) (c : Caller) (row row' : AccessRequest) (organisation : Option Organisation) :
    Prop where
  read : Read db c.ask.id c.readAt
  mem : row ∈ db.rows
  asked : row.id = c.ask.id
  decides : Decides c.ask c.session row row'
  founds : Founds c.ask c.session row organisation
  locked : (c.ask.id, c.session) ∈ db.locks

theorem Wrote.mem_rows (h : Wrote db c row row' organisation) :
    row' ∈ (db.commit c (some (row', organisation))).rows := by
  refine List.mem_map.mpr ⟨row, h.mem, ?_⟩
  rw [if_pos h.decides.id.symm]

theorem mem_commit_rows (r : AccessRequest)
    (hr : r ∈ (db.commit c (some (row', organisation))).rows) : r = row' ∨ r ∈ db.rows ∧ r.id ≠ row'.id := by
  obtain ⟨r', hr', rfl⟩ := List.mem_map.mp hr
  split
  · exact .inl rfl
  · exact .inr ⟨hr', ‹_›⟩

theorem Wrote.kept (h : Wrote db c row row' organisation) (hnodup : (db.rows.map (·.id)).Nodup) {r : AccessRequest}
    (hr : r ∈ db.rows) :
    ∃ r' ∈ (db.commit c (some (row', organisation))).rows, r'.id = r.id ∧ r'.email = r.email ∧
      (r.id ≠ c.ask.id → r' = r) := by
  by_cases hid : r.id = c.ask.id
  · obtain rfl := row_unique hnodup hr h.mem (hid.trans h.asked.symm)
    exact ⟨row', h.mem_rows, h.decides.id, h.decides.email, fun hne => absurd hid hne⟩
  · refine ⟨r, List.mem_map.mpr ⟨r, hr, if_neg fun heq => hid ?_⟩, rfl, rfl, fun _ => rfl⟩
    rw [heq, h.decides.id, h.asked]

theorem mem_commit_log {e : Entry} (he : e ∈ (db.commit c (some (row', organisation))).log) :
    e ∈ db.log ∨ e = ⟨row'.id, c.session, c.readAt, organisation⟩ := by
  obtain he | he := List.mem_append.mp he
  · exact .inl he
  · exact .inr (List.mem_singleton.mp he)

theorem Wrote.regrants (h : Wrote db c row row' organisation) (hsettled : Settled table db) {e : Entry}
    (he : e ∈ db.log) (hid : e.id = row'.id) (horganisation : e.organisation ≠ none) : c.ask.grants = true :=
  h.decides.again ((hsettled.closed row h.mem e he (hid.trans h.decides.id)).2 horganisation)

theorem Settled.commit (hsettled : Settled table db) (hnodup : (db.rows.map (·.id)).Nodup)
    (h : Wrote db c row row' organisation) : Settled table (db.commit c (some (row', organisation))) := by
  have hgrants : organisation ≠ none → c.ask.grants = true := by
    intro hsome
    rw [← h.founds.grants]
    exact Option.isSome_iff_ne_none.mpr hsome
  have hsome : c.ask.grants = true → organisation ≠ none := by
    intro hask
    exact Option.isSome_iff_ne_none.mp (h.founds.grants.trans hask)
  refine ⟨fun r hr hnone => ?_, fun r hr e he hid => ?_, ?_, fun e he o ho => ?_, fun r hr session htenant => ?_,
    fun e he => ?_, ?_⟩
  · obtain rfl | ⟨hmem, -⟩ := mem_commit_rows r hr
    · exact absurd rfl (hnone _ (List.mem_append_right _ (List.mem_singleton.mpr rfl)))
    · exact hsettled.untouched r hmem fun e he => hnone e (List.mem_append_left _ he)
  · obtain rfl | ⟨hmem, hne⟩ := mem_commit_rows r hr
    · refine ⟨h.decides.state, fun horganisation => (h.decides.grants ?_).1⟩
      obtain he | rfl := mem_commit_log he
      · exact h.regrants hsettled he hid horganisation
      · exact hgrants horganisation
    · obtain he | rfl := mem_commit_log he
      · exact hsettled.closed r hmem e he hid
      · exact absurd hid.symm hne
  · have hlast : [(⟨row'.id, c.session, c.readAt, organisation⟩ : Entry)].filterMap (·.organisation) =
        organisation.toList := by cases organisation <;> rfl
    change db.organisations ++ organisation.toList = table.organisations ++
      List.filterMap Entry.organisation (db.log ++ [⟨row'.id, c.session, c.readAt, organisation⟩])
    rw [List.filterMap_append, hlast, ← List.append_assoc, ← hsettled.organisations]
  · obtain he | rfl := mem_commit_log he
    · obtain ⟨htenant, r, hr, hid, hemail⟩ := hsettled.addressed e he o ho
      obtain ⟨r', hr', hid', hemail', -⟩ := h.kept hnodup hr
      exact ⟨htenant, r', hr', hid'.trans hid, hemail'.trans hemail⟩
    · obtain ⟨htenant, hemail⟩ := h.founds.own o ho
      exact ⟨htenant, row', h.mem_rows, rfl, h.decides.email.trans hemail⟩
  · obtain rfl | ⟨hmem, -⟩ := mem_commit_rows r hr
    · cases hask : c.ask.grants with
      | false =>
        rw [(h.decides.declines hask).2] at htenant
        cases htenant
      | true =>
        rw [(h.decides.grants hask).2] at htenant
        cases htenant
        exact ⟨_, List.mem_append_right _ (List.mem_singleton.mpr rfl), rfl, rfl, hsome hask⟩
    · obtain ⟨e, he, hrest⟩ := hsettled.named r hmem session htenant
      exact ⟨e, List.mem_append_left _ he, hrest⟩
  · have hlength : (db.commit c (some (row', organisation))).log.length = db.log.length + 1 := List.length_append
    have htake : ∀ k ≤ db.log.length, (db.commit c (some (row', organisation))).log.take k = db.log.take k :=
      fun k hk => List.take_append_of_le_length hk
    rw [hlength]
    obtain he | rfl := mem_commit_log he
    · obtain ⟨hle, hunseen⟩ := hsettled.overlap e he
      rw [htake _ hle]
      exact ⟨by omega, hunseen⟩
    · have hle := h.read.le
      dsimp only
      rw [htake _ hle, h.decides.id, h.asked]
      exact ⟨by omega, h.read.unseen⟩
  · refine List.pairwise_append.mpr ⟨hsettled.granted, List.pairwise_singleton _ _, ?_⟩
    intro e he e' he' hid horganisation
    obtain rfl := List.mem_singleton.mp he'
    exact hsome (h.regrants hsettled he hid.symm horganisation)

end Commit

section Step

variable {table : RequestTable} {db db' : Database} {c c' : Caller} {session : ℕ}

/-- What holds of a call at each of its stages. -/
def Fits (db : Database) (c : Caller) : Prop :=
  match c.stage with
  | .reading | .dead => True
  | .inserting organisation | .inviting organisation =>
    Read db c.ask.id c.readAt ∧ ∃ row ∈ db.rows, row.id = c.ask.id ∧ Founds c.ask c.session row (some organisation)
  | .deciding organisation =>
    Read db c.ask.id c.readAt ∧ ∃ row ∈ db.rows, row.id = c.ask.id ∧ Founds c.ask c.session row organisation
  | .committing answer none => Told db c.session answer
  | .committing answer (some (row', organisation)) =>
    answer = organisation.elim .declined .granted ∧ ∃ row, Wrote db c row row' organisation
  | .returned (.ok answer) => Told db c.session answer
  | .returned (.error _) => True

/-- What a step of one call leaves of what the others rely on. -/
structure Moves (session : ℕ) (db db' : Database) : Prop where
  log : ∃ more, db'.log = db.log ++ more
  rows : ∀ r ∈ db.rows, ∃ r' ∈ db'.rows, r'.id = r.id ∧ r'.email = r.email ∧
    ∀ k, k ≠ session → (r.id, k) ∈ db.locks → r' = r
  locks : ∀ l ∈ db.locks, l.2 ≠ session → l ∈ db'.locks

theorem Moves.refl (session : ℕ) (db : Database) : Moves session db db where
  log := ⟨[], (List.append_nil _).symm⟩
  rows r hr := ⟨r, hr, rfl, rfl, fun _ _ _ => rfl⟩
  locks _ hl _ := hl

theorem Read.moves {id readAt : ℕ} (h : Read db id readAt) (hmoves : Moves session db db') : Read db' id readAt := by
  obtain ⟨more, hmore⟩ := hmoves.log
  refine ⟨?_, ?_⟩
  · rw [hmore, List.length_append]
    exact h.le.trans (Nat.le_add_right _ _)
  · rw [hmore, List.take_append_of_le_length h.le]
    exact h.unseen

theorem Told.moves {answer : Answer} {k : ℕ} (h : Told db k answer) (hmoves : Moves session db db') :
    Told db' k answer := by
  obtain ⟨more, hmore⟩ := hmoves.log
  cases answer with
  | notFound | decided state => trivial
  | granted organisation | declined =>
    obtain ⟨e, he, hrest⟩ := h
    exact ⟨e, by rw [hmore]; exact List.mem_append_left _ he, hrest⟩

theorem founds_moves {organisation : Option Organisation} (hmoves : Moves session db db')
    (h : ∃ row ∈ db.rows, row.id = c.ask.id ∧ Founds c.ask c.session row organisation) :
    ∃ row ∈ db'.rows, row.id = c.ask.id ∧ Founds c.ask c.session row organisation := by
  obtain ⟨row, hrow, hid, hfounds⟩ := h
  obtain ⟨row', hrow', hid', hemail, -⟩ := hmoves.rows row hrow
  refine ⟨row', hrow', hid'.trans hid, hfounds.grants, fun o ho => ?_⟩
  obtain ⟨htenant, hto⟩ := hfounds.own o ho
  exact ⟨htenant, hemail.trans hto⟩

theorem Fits.moves (h : Fits db c) (hmoves : Moves session db db') (hne : c.session ≠ session) : Fits db' c := by
  unfold Fits at h ⊢
  split at h
  · trivial
  · trivial
  · exact ⟨h.1.moves hmoves, founds_moves hmoves h.2⟩
  · exact ⟨h.1.moves hmoves, founds_moves hmoves h.2⟩
  · exact ⟨h.1.moves hmoves, founds_moves hmoves h.2⟩
  · exact h.moves hmoves
  · obtain ⟨hanswer, row, hwrote⟩ := h
    have hlocked := hwrote.locked
    rw [← hwrote.asked] at hlocked
    obtain ⟨row'', hmem, -, -, hsame⟩ := hmoves.rows row hwrote.mem
    obtain rfl := hsame c.session hne hlocked
    exact ⟨hanswer, row'', hwrote.read.moves hmoves, hmem, hwrote.asked, hwrote.decides, hwrote.founds,
      hmoves.locks _ hwrote.locked hne⟩
  · exact h.moves hmoves
  · trivial

/-- The database as it is between two statements. -/
structure Sound (table : RequestTable) (db : Database) : Prop where
  settled : Settled table db
  ids : db.rows.map (·.id) = table.rows.map (·.id)
  locks : ∀ l ∈ db.locks, ∀ l' ∈ db.locks, l.1 = l'.1 → l.2 = l'.2

theorem Sound.nodup (h : Sound table db) : (db.rows.map (·.id)).Nodup := by
  rw [h.ids]
  exact table.ids

theorem Settled.relocked (h : Settled table db) (locks : List (ℕ × ℕ)) : Settled table { db with locks := locks } :=
  ⟨h.untouched, h.closed, h.organisations, h.addressed, h.named, h.overlap, h.granted⟩

theorem Moves.relocked {locks : List (ℕ × ℕ)} (h : ∀ l ∈ db.locks, l.2 ≠ session → l ∈ locks) :
    Moves session db { db with locks := locks } :=
  ⟨⟨[], (List.append_nil _).symm⟩, fun r hr => ⟨r, hr, rfl, rfl, fun _ _ _ => rfl⟩, h⟩

theorem Sound.release (h : Sound table db) (session : ℕ) :
    Sound table (db.release session) ∧ Moves session db (db.release session) := by
  refine ⟨⟨h.settled.relocked _, h.ids, fun l hl l' hl' => ?_⟩, Moves.relocked fun l hl hne => ?_⟩
  · exact h.locks l (List.mem_of_mem_filter hl) l' (List.mem_of_mem_filter hl')
  · exact List.mem_filter.mpr ⟨hl, decide_eq_true hne⟩

/-- A row that nobody else has locked. -/
theorem Sound.lock (h : Sound table db) {id : ℕ} (hothers : ∀ l ∈ db.locks, l.1 = id → l.2 = session) :
    Sound table { db with locks := db.locks ++ [(id, session)] } ∧
      Moves session db { db with locks := db.locks ++ [(id, session)] } := by
  refine ⟨⟨h.settled.relocked _, h.ids, fun l hl l' hl' heq => ?_⟩,
    Moves.relocked fun l hl _ => List.mem_append_left _ hl⟩
  obtain hl | hl := List.mem_append.mp hl
  · obtain hl' | hl' := List.mem_append.mp hl'
    · exact h.locks l hl l' hl' heq
    · obtain rfl := List.mem_singleton.mp hl'
      exact hothers l hl heq
  · obtain rfl := List.mem_singleton.mp hl
    obtain hl' | hl' := List.mem_append.mp hl'
    · exact (hothers l' hl' heq.symm).symm
    · obtain rfl := List.mem_singleton.mp hl'
      rfl

theorem Sound.commit {row row' : AccessRequest} {organisation : Option Organisation} (h : Sound table db)
    (hwrote : Wrote db c row row' organisation) :
    Sound table (db.commit c (some (row', organisation))) ∧
      Moves c.session db (db.commit c (some (row', organisation))) := by
  refine ⟨⟨h.settled.commit h.nodup hwrote, ?_, h.locks⟩, ⟨_, rfl⟩, fun r hr => ?_, fun l hl _ => hl⟩
  · rw [← h.ids]
    change (db.rows.map fun r => if r.id = row'.id then row' else r).map (·.id) = db.rows.map (·.id)
    rw [List.map_map]
    apply List.map_congr_left
    intro r _
    rw [Function.comp_apply]
    split
    · exact Eq.symm ‹_›
    · rfl
  · obtain ⟨r', hr', hid, hemail, hsame⟩ := hwrote.kept h.nodup hr
    refine ⟨r', hr', hid, hemail, fun k hk hlocked => hsame fun heq => hk ?_⟩
    exact h.locks _ hlocked _ hwrote.locked heq

/-- A step of a call keeps the database sound, leaves the others what they rely on, and fits. -/
structure Steps (table : RequestTable) (db db' : Database) (c c' : Caller) : Prop where
  sound : Sound table db'
  moves : Moves c.session db db'
  fits : Fits db' c'
  session : c'.session = c.session

theorem Steps.stay (h : Sound table db) (hfits : Fits db c') (hsession : c'.session = c.session) :
    Steps table db db c c' := ⟨h, .refl _ _, hfits, hsession⟩

theorem reads_steps (h : Sound table db) : Steps table db db c (reads db c) := by
  unfold reads
  split
  · exact .stay h trivial rfl
  · rename_i row hfound
    have hmem : row ∈ db.rows ∧ row.id = c.ask.id := by
      split at hfound
      · exact ⟨List.mem_of_find?_eq_some hfound, by simpa using List.find?_some hfound⟩
      · cases hfound
    split
    · exact .stay h trivial rfl
    · rename_i hopened
      have hunseen : ∀ e ∈ db.log.take db.log.length, e.id ≠ c.ask.id := by
        intro e he hid
        rw [List.take_length] at he
        exact hopened (h.settled.closed row hmem.1 e he (hid.trans hmem.2.symm)).1
      split
      · rename_i hgrants
        refine .stay h ⟨⟨le_rfl, hunseen⟩, row, hmem.1, hmem.2, hgrants.symm, fun o ho => ?_⟩ rfl
        obtain rfl := Option.some.inj ho
        exact ⟨rfl, rfl⟩
      · rename_i hgrants
        refine .stay h ⟨⟨le_rfl, hunseen⟩, row, hmem.1, hmem.2, ?_, nofun⟩ rfl
        simpa using hgrants

theorem updates_steps {now : Instant} {organisation : Option Organisation} (h : Sound table db)
    (hread : Read db c.ask.id c.readAt)
    (hfounds : ∃ row ∈ db.rows, row.id = c.ask.id ∧ Founds c.ask c.session row organisation)
    (hfits : Fits db c) : Steps table db (updates db c now organisation).1 c (updates db c now organisation).2 := by
  unfold updates
  split
  · exact .stay h hfits rfl
  · rename_i hfree
    obtain ⟨row, hrow, hid, hfounds⟩ := hfounds
    split
    · rename_i hnone
      exact absurd hid (by simpa using List.find?_eq_none.mp hnone row hrow)
    · rename_i found hfound
      have hfoundid : found.id = c.ask.id := by simpa using List.find?_some hfound
      obtain rfl := row_unique h.nodup hrow (List.mem_of_find?_eq_some hfound) (hid.trans hfoundid.symm)
      split
      · rename_i row' hdecide
        have hothers : ∀ l ∈ db.locks, l.1 = c.ask.id → l.2 = c.session := by
          intro l hl hkey
          by_contra hsession
          exact hfree (List.any_eq_true.mpr ⟨l, hl, by simp [hkey, hsession]⟩)
        obtain ⟨hsound, hmoves⟩ := h.lock hothers
        exact ⟨hsound, hmoves, ⟨rfl, row, ⟨hread.le, hread.unseen⟩, hrow, hid, decide_decides hdecide,
          ⟨hfounds.grants, hfounds.own⟩, List.mem_append_right _ (List.mem_singleton.mpr rfl)⟩, rfl⟩
      · obtain ⟨hsound, hmoves⟩ := h.release c.session
        exact ⟨hsound, hmoves, trivial, rfl⟩

/-- The commit of a call, with the row that it has written. -/
theorem commits_steps {answer : Answer} {write : Option (AccessRequest × Option Organisation)} (h : Sound table db)
    (hfits : Fits db c) (hstage : c.stage = .committing answer write) :
    Sound table ((db.commit c write).release c.session) ∧ Moves c.session db ((db.commit c write).release c.session) ∧
      Told ((db.commit c write).release c.session) c.session answer := by
  unfold Fits at hfits
  rw [hstage] at hfits
  cases write with
  | none =>
    obtain ⟨hsound, hmoves⟩ := h.release c.session
    exact ⟨hsound, hmoves, Told.moves hfits hmoves⟩
  | some write =>
    obtain ⟨row', organisation⟩ := write
    obtain ⟨rfl, row, hwrote⟩ := hfits
    obtain ⟨hsound, hmoves⟩ := h.commit hwrote
    obtain ⟨hsound', hmoves'⟩ := hsound.release c.session
    refine ⟨hsound', ⟨?_, fun r hr => ?_, fun l hl hne => ?_⟩, ?_⟩
    · exact hmoves.log
    · exact hmoves.rows r hr
    · exact hmoves'.locks l (hmoves.locks l hl hne) hne
    · have hentry : (⟨row'.id, c.session, c.readAt, organisation⟩ : Entry) ∈
          (db.commit c (some (row', organisation))).log := List.mem_append_right _ (List.mem_singleton.mpr rfl)
      cases organisation with
      | none => exact ⟨_, hentry, rfl, rfl⟩
      | some o => exact ⟨_, hentry, rfl, rfl⟩

theorem carriesOut_steps (now : Instant) (h : Sound table db) (hfits : Fits db c) :
    Steps table db (carriesOut db c now).1 c (carriesOut db c now).2 := by
  obtain ⟨k, ask, stage, readAt⟩ := c
  cases stage with
  | reading => exact reads_steps h
  | inserting organisation => exact .stay h hfits rfl
  | inviting organisation => exact .stay h hfits rfl
  | deciding organisation => exact updates_steps h hfits.1 hfits.2 hfits
  | committing answer write =>
    obtain ⟨hsound, hmoves, htold⟩ := commits_steps h hfits rfl
    exact ⟨hsound, hmoves, htold, rfl⟩
  | returned result => exact .stay h hfits rfl
  | dead => exact .stay h hfits rfl

theorem abandoned_sound (carriedOut : Bool) (h : Sound table db) (hfits : Fits db c) :
    Sound table (abandoned db c carriedOut) ∧ Moves c.session db (abandoned db c carriedOut) := by
  obtain ⟨k, ask, stage, readAt⟩ := c
  cases stage with
  | reading => exact h.release k
  | inserting organisation => exact h.release k
  | inviting organisation => exact h.release k
  | deciding organisation => exact h.release k
  | committing answer write =>
    cases carriedOut with
    | false => exact h.release k
    | true =>
      obtain ⟨hsound, hmoves, -⟩ := commits_steps h hfits rfl
      exact ⟨hsound, hmoves⟩
  | returned result => exact ⟨h, .refl _ _⟩
  | dead => exact ⟨h, .refl _ _⟩

/-- A call that is over is left as it is, and any other fits once its connection is gone. -/
theorem lost_fits {carriedOut : Bool} {stage : Stage} (hfits : Fits db c) (hstage : Fits (abandoned db c carriedOut)
    { c with stage := stage }) :
    Fits (abandoned db c carriedOut) (if c.stage.over then c else { c with stage := stage }) := by
  split
  · rename_i hover
    obtain ⟨k, ask, before, readAt⟩ := c
    cases before with
    | returned result => exact hfits
    | dead => exact hfits
    | _ => cases hover
  · exact hstage

theorem step_steps (turn : Turn) (h : Sound table db) (hfits : Fits db c) :
    Steps table db (step db c turn).1 c (step db c turn).2 := by
  obtain ⟨outcome, now⟩ := turn
  cases outcome with
  | runs => exact carriesOut_steps now h hfits
  | fails error carriedOut =>
    obtain ⟨hsound, hmoves⟩ := abandoned_sound carriedOut h hfits
    refine ⟨hsound, hmoves, lost_fits hfits trivial, ?_⟩
    unfold step
    dsimp only
    split <;> rfl
  | dies carriedOut =>
    obtain ⟨hsound, hmoves⟩ := abandoned_sound carriedOut h hfits
    refine ⟨hsound, hmoves, lost_fits hfits trivial, ?_⟩
    unfold step
    dsimp only
    split <;> rfl

end Step

section Run

variable {table : RequestTable} {x : List Caller × Database}

structure Running (table : RequestTable) (x : List Caller × Database) : Prop where
  sound : Sound table x.2
  sessions : ∀ (j : ℕ) (c : Caller), x.1[j]? = some c → c.session = j
  fits : ∀ c ∈ x.1, Fits x.2 c

theorem Running.turn (h : Running table x) (ch : ℕ × Turn) : Running table (Async.turn step x ch) := by
  obtain ⟨-, hsame⟩ | ⟨c, hc, hturn⟩ := turn_cases step x ch
  · rwa [hsame]
  · have hsteps := step_steps ch.2 h.sound (h.fits c (List.mem_of_getElem? hc))
    have hsession := h.sessions ch.1 c hc
    rw [hturn]
    refine ⟨hsteps.sound, fun j d hd => ?_, fun d hd => ?_⟩
    · obtain ⟨rfl, rfl⟩ | ⟨-, hd⟩ := getElem?_set_or hd
      · exact hsteps.session.trans hsession
      · exact h.sessions j d hd
    · obtain ⟨j, hj⟩ := List.mem_iff_getElem?.mp hd
      obtain ⟨-, rfl⟩ | ⟨hne, hj⟩ := getElem?_set_or hj
      · exact hsteps.fits
      · refine (h.fits d (List.mem_of_getElem? hj)).moves hsteps.moves ?_
        rw [h.sessions j d hj, hsession]
        exact hne

theorem RequestTable.running (table : RequestTable) (asks : List Ask) : Running table (table.opening asks) := by
  have hlog : ∀ e, e ∉ (table.opening asks).2.log := fun e => List.not_mem_nil
  have hlocks : ∀ l, l ∉ (table.opening asks).2.locks := fun l => List.not_mem_nil
  refine ⟨⟨⟨fun row hrow _ => hrow, fun _ _ e he => absurd he (hlog e), (List.append_nil _).symm,
    fun e he => absurd he (hlog e), fun row hrow k hk => ?_, fun e he => absurd he (hlog e), .nil⟩, rfl,
    fun l hl => absurd hl (hlocks l)⟩, fun j c hc => ?_, fun c hc => ?_⟩
  · exact absurd hk (table.before row hrow k)
  · rw [RequestTable.opening, List.getElem?_mapIdx] at hc
    obtain ⟨ask, -, rfl⟩ := Option.map_eq_some_iff.mp hc
    rfl
  · obtain ⟨j, hj, rfl⟩ := List.mem_mapIdx.mp hc
    trivial

theorem run_running (table : RequestTable) (asks : List Ask) (chs : List (ℕ × Turn)) :
    Running table (run table asks chs) := by
  have hrun : ∀ x, Running table x → Running table (turns step x chs) := by
    induction chs with
    | nil => exact fun x h => h
    | cons ch chs ih => exact fun x h => ih _ (h.turn ch)
  exact hrun _ (table.running asks)

/-- Any grants and declines of any requests, whose statements interleave and whose calls fail or die anywhere. -/
theorem requests_decided (table : RequestTable) (asks : List Ask) (chs : List (ℕ × Turn)) :
    Decided table (run table asks chs) := by
  have hrunning := run_running table asks chs
  refine ⟨hrunning.sound.settled, fun c hc answer hstage => ?_⟩
  have hfits := hrunning.fits c hc
  rw [Fits, hstage] at hfits
  exact hfits

def oneRequest : RequestTable where
  rows := [{ id := 7, email := "ann@x", decided_check := by simp, granted_check := by simp }]
  organisations := []
  ids := by simp
  before := by simp

/-- Two operators who both read the request open make two tenants of it. -/
example :
    (run oneRequest [⟨true, 7, "op", true, none, none⟩, ⟨true, 7, "oq", true, none, none⟩]
      ([0, 1, 0, 1, 0, 1, 0, 1, 0, 1, 1].map fun j => (j, ⟨.runs, 0⟩))).2.organisations.map (·.tenant) =
        [.drawn 0, .drawn 1] := by decide

end Run

end OpenMigrate.Access
