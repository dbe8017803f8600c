import OpenMigrate.Apply.Tombstone
import OpenMigrate.Apply.Evaluate
import OpenMigrate.Sync.Cursor
import OpenMigrate.Verify.Decisions
import OpenMigrate.Verify.Reindex

namespace OpenMigrate.Verify

open Async PgLedger

variable {T : TargetApi}

section Owner

/-- What an owner says about an entry of a queue; each is one UPDATE by the unique key. -/
inductive Resolution where
  | resolveFailure (action : FailureAction)
  | resolveMove
  | resolveDeletion

/-- The rows a resolution may touch: those whose entry is open. -/
def Resolution.open_ : Resolution → ItemRow → Bool
  | resolveFailure _, row => row.status == .failed
  | resolveMove, row => row.movedToCollection.isSome && row.moveAcknowledgedAt.isNone
  | resolveDeletion, row =>
    (decide (DELETION_CONFIRMATIONS ≤ row.absentPasses) || row.deletionReportedAt.isSome || row.deletionTrashedAt.isSome) &&
      row.deletionAcknowledgedAt.isNone

def Resolution.set (now : Instant) : Resolution → ItemRow → ItemRow
  | resolveFailure .accept, row => { row with status := .leftBehind }
  | resolveFailure .retry, row => { row with attemptCount := 0 }
  | resolveMove, row => { row with moveAcknowledgedAt := some now }
  | resolveDeletion, row => { row with deletionAcknowledgedAt := some now }

def Resolution.exec (L : Ledger) (now : Instant) (key : ItemKey) (r : Resolution) : Bool × Ledger :=
  match (L.lookup key).filter r.open_ with
  | some row => (true, L.replace key (r.set now row))
  | none => (false, L)

theorem resolve_cases (r : Resolution) (L : Ledger) (now : Instant) (k key : ItemKey) :
    (r.exec L now k).2.lookup key = L.lookup key ∨
      ∃ row, k = key ∧ L.lookup key = some row ∧ r.open_ row = true ∧
        (r.exec L now k).2.lookup key = some (r.set now row) := by
  unfold Resolution.exec
  split
  · rename_i row hrow
    obtain ⟨hlook, hopen⟩ := Option.filter_eq_some_iff.mp hrow
    by_cases hk : k = key
    · subst hk
      exact .inr ⟨row, rfl, hlook, hopen, by simp [replace_lookup, hlook]⟩
    · exact .inl (by simp [replace_lookup, hk])
  · exact .inl rfl

end Owner

/-- One turn of a ledger's life: a step of something that runs over it, or an owner's word. -/
inductive Turn (T : TargetApi) where
  | step (ch : ℕ × Choice (Input T) T.Act)
  | resolve (key : ItemKey) (now : Instant) (r : Resolution)

abbrev Running (T : TargetApi) := System (Cmd T) Cmd.Resp PassError (Store T) (PassState T)

def Turn.take (x : Running T) : Turn T → Running T
  | step ch => (machine T).sysStep x ch
  | resolve key now r => (x.1, { x.2 with ledger := (r.exec x.2.ledger now key).2 })

def Turn.event? (x : Running T) : Turn T → Option (Event (World T) (Cmd T) (Input T) T.Act)
  | step ch => Machine.sysEvent? x ch
  | resolve .. => none

def life (x : Running T) : List (Turn T) → Running T
  | [] => x
  | turn :: turns => life (turn.take x) turns

def lifeTrace (x : Running T) : List (Turn T) → List (Event (World T) (Cmd T) (Input T) T.Act)
  | [] => []
  | turn :: turns => (turn.event? x).toList ++ lifeTrace (turn.take x) turns

/-- A statement the database carries out on the row of `key`. -/
def Statement (key : ItemKey) (p : LedgerOp → Bool) : Event (World T) (Cmd T) (Input T) T.Act → Prop
  | .exec _ (.ledger op) i _ => i.fault = none ∧ (∃ domain, op.aimsAt key domain) ∧ p op
  | _ => False

/-- What records that a pass has put an item in a collection of the target. -/
def recordsOutcome : LedgerOp → Bool
  | .recordUpdate r => r.collection.isSome
  | _ => false

/-- What makes a row one of ours to rewrite or to remove, beside writing the item: a version of the source
alone, or evidence that the item is gone. -/
def claimsRow : LedgerOp → Bool
  | .recordUpdate r => r.collection.isNone && r.sourceVersion.isSome
  | .recordReportedDeletion .. => true
  | .recordTrashedDeletion .. => true
  | _ => false

/-- A row nothing is known of but that the target lists it. -/
structure Unsettled (row : ItemRow) : Prop where
  sourceVersion : row.sourceVersion = none
  reported : row.deletionReportedAt = none
  trashed : row.deletionTrashedAt = none

variable {key : ItemKey} {row : ItemRow}

theorem Unsettled.classify (h : Unsettled row) (sourceVersion collection : Option String) :
    classifyKnownItem (row.mapRowToRecord key) sourceVersion collection ≠ .rewrite := by
  have hversion : (row.mapRowToRecord key).sourceVersion = none := h.sourceVersion
  unfold classifyKnownItem
  split_ifs <;> simp_all

theorem Unsettled.sets (h : Unsettled row) {op : LedgerOp} (houtcome : ¬ recordsOutcome op) (hclaims : ¬ claimsRow op)
    (L : Ledger) (now : Instant) : Unsettled (op.sets L now row) := by
  cases op with
  | recordUpdate r =>
    have hcollection : r.collection = none := by simpa [recordsOutcome] using houtcome
    have hversion : r.sourceVersion = none := by simpa [claimsRow, hcollection] using hclaims
    exact ⟨hversion, h.reported, h.trashed⟩
  | recordReportedDeletion | recordTrashedDeletion => exact absurd rfl hclaims
  | clearAbsent | applyDeletion | applyRelocation =>
    simp only [LedgerOp.sets]
    split
    all_goals exact ⟨h.sourceVersion, by simp [clearAbsentValues, applyDeletionValues, applyRelocationValues, h.reported],
      by simp [clearAbsentValues, applyDeletionValues, applyRelocationValues, h.trashed]⟩
  | _ => exact ⟨h.sourceVersion, h.reported, h.trashed⟩

theorem Unsettled.resolve (h : Unsettled row) (now : Instant) (r : Resolution) : Unsettled (r.set now row) := by
  cases r with
  | resolveFailure action => cases action <;> exact ⟨h.sourceVersion, h.reported, h.trashed⟩
  | resolveMove | resolveDeletion => exact ⟨h.sourceVersion, h.reported, h.trashed⟩

def UnsettledAt (key : ItemKey) (L : Ledger) : Prop := ∃ row, L.lookup key = some row ∧ Unsettled row

theorem UnsettledAt.resolve {L : Ledger} (h : UnsettledAt key L) (now : Instant) (key' : ItemKey) (r : Resolution) :
    UnsettledAt key (r.exec L now key').2 := by
  obtain ⟨row, hrow, hun⟩ := h
  obtain hsame | ⟨row', -, hlookup, -, hset⟩ := resolve_cases r L now key' key
  · exact ⟨row, hsame.trans hrow, hun⟩
  · obtain rfl := Option.some.inj (hlookup.symm.trans hrow)
    exact ⟨_, hset, hun.resolve now r⟩

theorem UnsettledAt.post {ev : Event (World T) (Cmd T) (Input T) T.Act} (h : UnsettledAt key ev.pre.1.ledger)
    (houtcome : ¬ Statement key recordsOutcome ev) (hclaims : ¬ Statement key claimsRow ev) :
    UnsettledAt key ((machine T).post ev).1.ledger := by
  cases ev with
  | act a w => exact h
  | exec th c i w =>
    obtain ⟨row, hrow, hun⟩ := h
    obtain ⟨-, hsame⟩ | ⟨op, rfl, hf, haim, hset⟩ := exec_row_some (i := i) (c := c) hrow
    · exact ⟨row, hsame, hun⟩
    · exact ⟨_, hset, hun.sets (fun ho => houtcome ⟨hf, ⟨_, haim⟩, ho⟩) (fun hc => hclaims ⟨hf, ⟨_, haim⟩, hc⟩) _ _⟩

theorem UnsettledAt.take {x : Running T} (h : UnsettledAt key x.2.ledger) {turn : Turn T}
    (houtcome : ∀ ev ∈ turn.event? x, ¬ Statement key recordsOutcome ev)
    (hclaims : ∀ ev ∈ turn.event? x, ¬ Statement key claimsRow ev) : UnsettledAt key (turn.take x).2.ledger := by
  cases turn with
  | resolve key' now r => exact h.resolve now key' r
  | step ch =>
    cases he : Machine.sysEvent? x ch with
    | none =>
      simp only [Turn.take, (machine T).sysStep_none he]
      exact h
    | some ev =>
      obtain ⟨hpre, hpost⟩ := (machine T).sysStep_some he
      simp only [Turn.take, hpost]
      exact UnsettledAt.post (by rwa [hpre]) (houtcome ev he) (hclaims ev he)

theorem UnsettledAt.life {x : Running T} (h : UnsettledAt key x.2.ledger) {turns : List (Turn T)}
    (houtcome : ∀ ev ∈ lifeTrace x turns, ¬ Statement key recordsOutcome ev)
    (hclaims : ∀ ev ∈ lifeTrace x turns, ¬ Statement key claimsRow ev) : UnsettledAt key (life x turns).2.ledger := by
  induction turns generalizing x with
  | nil => exact h
  | cons turn turns ih =>
    simp only [lifeTrace, List.mem_append, Option.mem_toList] at houtcome hclaims
    exact ih (h.take (fun ev hev => houtcome ev (.inl hev)) fun ev hev => hclaims ev (.inl hev))
      (fun ev hev => houtcome ev (.inr hev)) fun ev hev => hclaims ev (.inr hev)

theorem lifeTrace_take {x : Running T} {turns : List (Turn T)} {n : ℕ}
    {ev : Event (World T) (Cmd T) (Input T) T.Act} (h : ev ∈ lifeTrace x (turns.take n)) : ev ∈ lifeTrace x turns := by
  induction turns generalizing x n with
  | nil => simpa using h
  | cons turn turns ih =>
    cases n with
    | zero => cases h
    | succ n =>
      simp only [List.take_succ_cons, lifeTrace, List.mem_append] at h ⊢
      exact h.imp_right ih

def result? {α : Type} : Task T α → Option α
  | .ret a => some a
  | _ => none

def PassesGates (deps : ApplyDeletionDeps T) (L : Ledger) (naturalKeyHash : String) : Prop :=
  result? (afterReads L (evaluateApplyDeletion deps naturalKeyHash)) = some (.permitted deps.scope.domain)

theorem Unsettled.gates {L : Ledger} (hrow : L.lookup key = some row) (h : Unsettled row) {deps : ApplyDeletionDeps T}
    (hkey : deps.scope.key key.naturalKeyHash = key) : ¬ PassesGates deps L key.naturalKeyHash := by
  unfold PassesGates evaluateApplyDeletion
  split
  · simp [afterReads, result?]
  rw [afterReads_query rfl]
  cases hfind : find L deps.scope key.naturalKeyHash with
  | none => simp [afterReads, result?]
  | some known =>
    obtain ⟨row', hrow', rfl⟩ := Option.map_eq_some_iff.mp hfind
    obtain ⟨hlook, -⟩ := (row?_eq_some L).mp hrow'
    rw [hkey, hrow] at hlook
    cases hlook
    have hno : positiveEvidence (row.mapRowToRecord (deps.scope.key key.naturalKeyHash)) = false := by
      simp [positiveEvidence, ItemRow.mapRowToRecord, h.reported, h.trashed]
    simp only [hno]
    split <;> simp [afterReads, result?]

variable (T) in
/-- The item under `key` is treated as a copy of ours: fit to be overwritten, or fit to be removed. -/
def Claimable (key : ItemKey) (L : Ledger) : Prop :=
  (∃ row, L.lookup key = some row ∧ ∃ sourceVersion collection,
    classifyKnownItem (row.mapRowToRecord key) sourceVersion collection = .rewrite) ∨
  ∃ deps : ApplyDeletionDeps T, deps.scope.key key.naturalKeyHash = key ∧ PassesGates deps L key.naturalKeyHash

theorem UnsettledAt.not_claimable {L : Ledger} (h : UnsettledAt key L) : ¬ Claimable T key L := by
  obtain ⟨row, hrow, hun⟩ := h
  rintro (⟨row', hrow', sourceVersion, collection, hclass⟩ | ⟨deps, hkey, hpass⟩)
  · rw [hrow] at hrow'
    cases hrow'
    exact hun.classify sourceVersion collection hclass
  · exact hun.gates hrow hkey hpass

section Reindex

variable {sha256Hex : String → String} {deps : ReindexDeps} {store : Store T}

variable (sha256Hex deps store) in
def reindexedKeys : Set ItemKey :=
  {key | ∃ entry ∈ deps.entries, key = reindexKey sha256Hex deps.scope entry ∧ store.ledger.lookup key = none}

theorem Reindexed.unsettled {L : Ledger} (h : Reindexed sha256Hex deps.scope store.ledger deps.entries L)
    (hkey : key ∈ reindexedKeys sha256Hex deps store) : UnsettledAt key L := by
  obtain ⟨entry, hentry, rfl, hnew⟩ := hkey
  obtain ⟨row, hrow⟩ := Option.isSome_iff_exists.mp (h.found entry hentry)
  obtain ⟨hlook, -⟩ := (row?_eq_some L).mp hrow
  refine ⟨row, hlook, ?_⟩
  obtain h₀ | ⟨entry', -, -, rfl, -⟩ := h.new _ row hlook
  · have hkept : store.ledger.lookup (reindexKey sha256Hex deps.scope entry) = some row := h₀
    rw [hnew] at hkept
    cases hkept
  · exact ⟨rfl, rfl, rfl⟩

/-- Whatever runs after a reindex and whatever owners decide, a row it wrote is not treated as ours before
a pass writes the item, as long as no pass records a version alone, or evidence of a deletion, for such a row. -/
theorem reindexed_never_claimed {chs : List (Choice (Input T) T.Act)} {result : ReindexResult}
    (hrun : ((machine T).run (reindexing sha256Hex deps store) chs).1 = .seq (.ret result))
    (activities : List (Activity T)) (turns : List (Turn T))
    (hclaims : ∀ key ∈ reindexedKeys sha256Hex deps store, ∀ ev ∈ lifeTrace
      (activities.map Activity.start, ((machine T).run (reindexing sha256Hex deps store) chs).2.1) turns,
      ¬ Statement key claimsRow ev)
    (n : ℕ) {key : ItemKey} (hkey : key ∈ reindexedKeys sha256Hex deps store)
    (hunwritten : ∀ ev ∈ lifeTrace
      (activities.map Activity.start, ((machine T).run (reindexing sha256Hex deps store) chs).2.1) (turns.take n),
      ¬ Statement key recordsOutcome ev) :
    ¬ Claimable T key (life
      (activities.map Activity.start, ((machine T).run (reindexing sha256Hex deps store) chs).2.1)
      (turns.take n)).2.ledger := by
  have hreindexed := reindexFromTarget_run (Prod.ext hrun rfl)
  have hstart := hreindexed.unsettled hkey
  exact (hstart.life (x := (activities.map Activity.start, _)) hunwritten fun ev hev =>
    hclaims key hkey ev (lifeTrace_take hev)).not_claimable

end Reindex

section Sample

open Dav

def Sample.mailbox (folder : MailFolder) : SourceConnector where
  listFolders := .ok [folder]
  listSince _ _ := .ok ⟨[{ messageId := "<a@x>", sourceRef := "1" }], "2", []⟩
  fetch _ := .ok []

def Sample.mailPass (folder : MailFolder) : Activity (api Dav.Sample.endpoint) :=
  .pass (shadowPass Sample.midDigest Dav.Sample.contentHash mailDeps (Sample.mailbox folder))

def Sample.binned : MailFolder where
  path := "Trash"
  specialUse := .trash

def Sample.afterReindex : Store (api Dav.Sample.endpoint) :=
  ((machine (api Dav.Sample.endpoint)).run (reindexing Sample.midDigest Sample.oneMessage Dav.Sample.store)
    Sample.threeSteps).2.1

def Sample.onePass (folder : MailFolder) : Running (api Dav.Sample.endpoint) :=
  ([Sample.mailPass folder].map Activity.start, Sample.afterReindex)

def Sample.turns : List (Turn (api Dav.Sample.endpoint)) := List.replicate 30 (.step (0, .run 0 Dav.Sample.input))

def Sample.messageKey : ItemKey := ⟨"t", "m", Sample.midDigest "mid:a@x"⟩

def Sample.mailApply : ApplyDeletionDeps (api Dav.Sample.endpoint) where
  scope := ⟨"t", "m", .email⟩
  allowApplyDeletions := true
  targetFolderPrefix := none
  removeItem := some fun _ _ _ => .ret { kind := some .binned }
  hasItem := none
  removeItem_asks := by
    rintro _ ⟨⟩ _ _ _
    trivial
  hasItem_asks := by simp

def isStatement (p : LedgerOp → Bool) : Event (World T) (Cmd T) (Input T) T.Act → Bool
  | .exec _ (.ledger op) _ _ => p op
  | _ => false

theorem not_statement {p : LedgerOp → Bool} {evs : List (Event (World T) (Cmd T) (Input T) T.Act)}
    (h : evs.any (isStatement p) = false) (key : ItemKey) : ∀ ev ∈ evs, ¬ Statement key p ev := by
  intro ev hev hst
  have hno : isStatement p ev = false := by simpa using List.any_eq_false.mp h ev hev
  cases ev with
  | act a w => exact hst
  | exec th c i w =>
    cases c with
    | ledger op => exact absurd hst.2.2 (by simpa [isStatement] using hno)
    | _ => exact hst

theorem messageKey_mem : Sample.messageKey ∈ reindexedKeys Sample.midDigest Sample.oneMessage Dav.Sample.store :=
  ⟨_, List.mem_singleton.mpr rfl, by decide +kernel, rfl⟩

theorem reindexed_never_claimed_inbox :
    ¬ Claimable (api Dav.Sample.endpoint) Sample.messageKey
      (life (Sample.onePass inbox) (Sample.turns.take 30)).2.ledger := by
  have hrun : ((machine (api Dav.Sample.endpoint)).run
      (reindexing Sample.midDigest Sample.oneMessage Dav.Sample.store) Sample.threeSteps).1 =
        .seq (.ret ⟨1, 1, 0⟩) := rfl
  have hclaims : (lifeTrace (Sample.onePass inbox) Sample.turns).any (isStatement claimsRow) = false := by
    decide +kernel
  have hunwritten : (lifeTrace (Sample.onePass inbox) (Sample.turns.take 30)).any (isStatement recordsOutcome) = false := by
    decide +kernel
  exact reindexed_never_claimed hrun [Sample.mailPass inbox] Sample.turns (fun key _ => not_statement hclaims key) 30
    messageKey_mem (not_statement hunwritten Sample.messageKey)

/-- The message is in the bin of the source: nothing has been written, and its copy may be removed. -/
theorem reindexed_passes_gates :
    Sample.messageKey ∈ reindexedKeys Sample.midDigest Sample.oneMessage Dav.Sample.store ∧
      (∀ ev ∈ lifeTrace (Sample.onePass Sample.binned) Sample.turns, ¬ Statement Sample.messageKey recordsOutcome ev) ∧
      Claimable (api Dav.Sample.endpoint) Sample.messageKey (life (Sample.onePass Sample.binned) Sample.turns).2.ledger := by
  have hunwritten : (lifeTrace (Sample.onePass Sample.binned) Sample.turns).any (isStatement recordsOutcome) = false := by
    decide +kernel
  have hgates : result? (afterReads (life (Sample.onePass Sample.binned) Sample.turns).2.ledger
      (evaluateApplyDeletion Sample.mailApply Sample.messageKey.naturalKeyHash)) = some (.permitted .email) := by
    decide +kernel
  exact ⟨messageKey_mem, not_statement hunwritten Sample.messageKey, .inr ⟨Sample.mailApply, rfl, hgates⟩⟩

end Sample

end OpenMigrate.Verify
