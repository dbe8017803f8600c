import OpenMigrate.Sync.Observed
import OpenMigrate.Sync.Passes

namespace OpenMigrate

open Async

variable {T : TargetApi} {Item Folder Raw α : Type}

section Tags

/-- The target `T`, told with each request for which call of its writer it is. -/
def TargetApi.tagged (T : TargetApi) (Item Raw : Type) : TargetApi where
  State := T.State
  Session := T.Session
  Cmd := Option (WriterCall Item Raw) × T.Cmd
  Resp c := T.Resp c.2
  Inp := T.Inp
  Act := T.Act
  exec c := T.exec c.2
  act := T.act
  fresh := T.fresh

def Cmd.request (call : Option (WriterCall Item Raw)) (c : T.Cmd) : Cmd (T.tagged Item Raw) :=
  .target ((call, c) : Option (WriterCall Item Raw) × T.Cmd)

/-- Gives a command to the tagged target as it would be given to `T`. -/
def Cmd.tag (call : Option (WriterCall Item Raw)) : (c : Cmd T) →
    (Except PassError c.Resp → Task (T.tagged Item Raw) α) → Task (T.tagged Item Raw) α
  | .ledger op, k => .call (.ledger op) k
  | .target c, k => .call (.target ((call, c) : Option (WriterCall Item Raw) × T.Cmd)) k
  | .cursorGet key, k => .call (.cursorGet key) k
  | .cursorSet key value, k => .call (.cursorSet key value) k
  | .modify f, k => .call (.modify f) k
  | .vars, k => .call .vars k

def Task.tagged (call : Option (WriterCall Item Raw)) (p : Task T α) : Task (T.tagged Item Raw) α := p.hoist (Cmd.tag call)

/-- Takes the tags off again. -/
def Cmd.untag : (c : Cmd (T.tagged Item Raw)) → (Except PassError c.Resp → Task T α) → Task T α
  | .ledger op, k => .call (.ledger op) k
  | .target c, k => .call (.target c.2) k
  | .cursorGet key, k => .call (.cursorGet key) k
  | .cursorSet key value, k => .call (.cursorSet key value) k
  | .modify f, k => .call (.modify f) k
  | .vars, k => .call .vars k

def Task.untagged (p : Task (T.tagged Item Raw) α) : Task T α := p.hoist Cmd.untag

theorem Task.untagged_tagged (call : Option (WriterCall Item Raw)) (p : Task T α) :
    Task.untagged (Task.tagged call p) = p := by
  induction p with
  | ret a => rfl
  | fail e => rfl
  | call c k ih =>
    have hk : (fun r => Task.untagged (Task.tagged call (k r))) = k := funext ih
    cases c <;> exact congrArg _ hk

/-- Any command at all, but of requests only some, each with its own possible answers. -/
def requests (asked : T.Cmd → Prop) (heard : (c : T.Cmd) → Except PassError (T.Resp c) → Prop) :
    Vocabulary (Cmd T) Cmd.Resp PassError where
  asks
    | .target c => asked c
    | _ => True
  hears
    | .target c, r => heard c r
    | .ledger op, r => Cmd.Hears (T := T) (.ledger op) r
    | _, _ => True

variable {asked : T.Cmd → Prop} {heard : (c : T.Cmd) → Except PassError (T.Resp c) → Prop}

theorem requests_heard (h : ∀ c r, heard c r) (c : Cmd T) (i : Input T) (w : World T) :
    (requests asked heard).hears c (w.exec i c).1 := by
  cases c with
  | target c => exact h c _
  | ledger op => exact exec_hears i w (.ledger op)
  | cursorGet | cursorSet | modify | vars => trivial

theorem Task.tagged_requests {call : Option (WriterCall Item Raw)} {asked' : Option (WriterCall Item Raw) × T.Cmd → Prop}
    (hasked : ∀ c, asked c → asked' (call, c)) {p : Task T α} {Q : Except PassError α → Prop}
    (hp : Emits (requests asked heard) p Q) :
    Emits (requests (T := T.tagged Item Raw) asked' fun c => heard c.2) (Task.tagged call p) Q := by
  induction p with
  | ret a => exact hp
  | fail e => exact hp
  | call c k ih =>
    cases c with
    | target c => exact ⟨hasked c hp.1, fun r hr => ih r (hp.2 r hr)⟩
    | ledger op => exact ⟨trivial, fun r hr => ih r (hp.2 r (hears_ledger hr))⟩
    | cursorGet | cursorSet | modify | vars => exact ⟨trivial, fun r hr => ih r (hp.2 r hr)⟩

theorem Task.tagged_writer {call : Option (WriterCall Item Raw)} {scope : Scope} {options : UpsertOptions} {p : Task T α}
    (hp : Emits (writerVocabulary scope options fun _ => True) p fun _ => True) :
    Emits (writerVocabulary scope options fun _ => True) (Task.tagged call p) fun _ => True := by
  induction p with
  | ret a => trivial
  | fail e => trivial
  | call c k ih =>
    cases c with
    | ledger op =>
      refine ⟨?_, fun r hr => ih r (hp.2 r (hears_ledger hr))⟩
      cases op <;> exact hp.1
    | target | vars | cursorGet | cursorSet | modify =>
      exact ⟨hp.1, fun r _ => ih r (hp.2 r (by simp [Cmd.Hears, writerVocabulary]))⟩

theorem Task.tagged_scan {call : Option (WriterCall Item Raw)} {scope : Scope} {p : Task T α}
    (hp : Emits (scanVocabulary scope) p fun _ => True) : Emits (scanVocabulary scope) (Task.tagged call p) fun _ => True := by
  induction p with
  | ret a => trivial
  | fail e => trivial
  | call c k ih =>
    cases c with
    | ledger op => exact hp.1.elim
    | target | vars | cursorGet | cursorSet | modify =>
      exact ⟨hp.1, fun r _ => ih r (hp.2 r (by simp [Cmd.Hears, scanVocabulary]))⟩

/-- A pass in which each request of the writer says for which call it is. -/
def DomainSyncDeps.tagged (d : DomainSyncDeps T Item Folder Raw) : DomainSyncDeps (T.tagged Item Raw) Item Folder Raw where
  scope := d.scope
  cursors := d.cursors
  concurrency := d.concurrency
  listFolders := d.listFolders
  listSince := d.listSince
  fetchRaw := d.fetchRaw
  upsert id raw item options := Task.tagged (some ⟨id, raw, item, options⟩) (d.upsert id raw item options)
  sourceVersion := d.sourceVersion
  sourceRef := d.sourceRef
  naturalKey := d.naturalKey
  listCollectionKeys := d.listCollectionKeys
  listDiscardedKeys := d.listDiscardedKeys.map (Task.tagged none)
  naturalKeyFromRaw := d.naturalKeyFromRaw
  contentHash := d.contentHash
  onCollision := d.onCollision
  ensureCollection := d.ensureCollection
  upsert_asks id raw item options := Task.tagged_writer (d.upsert_asks id raw item options)
  listDiscardedKeys_asks := by
    intro p hp
    obtain ⟨scan, hscan, rfl⟩ := Option.map_eq_some_iff.mp hp
    exact Task.tagged_scan (d.listDiscardedKeys_asks scan hscan)

end Tags

section Requests

variable {d : DomainSyncDeps T Item Folder Raw} {at_ : Place} {item : Item} {asked : T.Cmd → Prop}
  {heard : (c : T.Cmd) → Except PassError (T.Resp c) → Prop}

theorem requests_ledger (op : LedgerOp) : Emits (requests asked heard) (Task.ledger op : Task T _) fun _ => True :=
  (Emits.perform _ _).mpr ⟨trivial, fun _ _ => trivial⟩

theorem requests_modify (f : PassVars → PassVars) : Emits (requests asked heard) (Task.modify f : Task T _) fun _ => True :=
  (Emits.perform _ _).mpr ⟨trivial, fun _ _ => trivial⟩

theorem requests_vars : Emits (requests asked heard) (Task.vars : Task T _) fun _ => True :=
  (Emits.perform _ _).mpr ⟨trivial, fun _ _ => trivial⟩

theorem requests_itemFailed (key? : Option String) (ch : String) (e : PassError) :
    Emits (requests asked heard) (itemFailed d key? ch e) fun _ => True := by
  cases e with
  | passAbort message => trivial
  | error reason =>
    apply (requests_modify _).seq
    intro _
    cases key? with
    | none =>
      apply requests_vars.seq
      intro v
      split <;> trivial
    | some key =>
      apply (requests_ledger _).seq
      intro row
      apply (requests_modify _).seq
      intro _
      apply requests_vars.seq
      intro v
      split <;> trivial

theorem requests_recordOutcome (key ch : String) (sizeBytes : ℕ) (hasRow : Bool) (rewriteOf : Option LedgerRecord)
    (result : UpsertResult) :
    Emits (requests asked heard) (recordOutcome d at_ item key ch sizeBytes hasRow rewriteOf result) fun _ => True := by
  unfold recordOutcome
  split
  · apply (requests_modify _).seq
    intro _
    cases rewriteOf with
    | none => trivial
    | some row => exact (requests_ledger _).seq fun _ => requests_modify _
  · refine Emits.seq ?_ fun _ => (requests_modify _).seq fun _ => ?_
    · split <;> exact requests_ledger _
    · split <;> trivial

variable (hupsert : ∀ raw size rewriteOf, d.fetchRaw item = .ok (raw, size) →
  Emits (requests asked heard) (d.upsert at_.collectionId raw item (upsertOptions d at_ item rewriteOf)) fun _ => True)

include hupsert

theorem requests_writeItem (key : String) (hasRow : Bool) (rewriteOf : Option LedgerRecord) {fetched : Raw × ℕ}
    (hfetched : d.fetchRaw item = .ok fetched) :
    Emits (requests asked heard) (writeItem d at_ item key hasRow rewriteOf fetched) fun _ => True :=
  ((hupsert _ _ rewriteOf hfetched).seq fun result => requests_recordOutcome _ _ _ _ _ result).attempt
    (requests_itemFailed _ _) fun _ => trivial

theorem requests_fetchAndWrite (key : String) (hasRow : Bool) (rewriteOf : Option LedgerRecord) :
    Emits (requests asked heard) (fetchAndWrite d at_ item key hasRow rewriteOf) fun _ => True := by
  unfold fetchAndWrite
  cases hfetched : d.fetchRaw item with
  | error e => exact requests_itemFailed _ _ e
  | ok fetched => exact requests_writeItem hupsert key hasRow rewriteOf hfetched

theorem requests_onKnown (key : String) (known : LedgerRecord) :
    Emits (requests asked heard) (onKnown d at_ item key known) fun _ => True := by
  unfold onKnown
  refine Emits.seq ?_ fun _ => ?_
  · split
    · exact requests_ledger _
    · trivial
  have hsettle : ∀ action, Emits (requests asked heard) ((if known.movedToCollection ≠ none then
      Task.ledger (.clearMove d.scope key) else .ret ()).bind fun _ => settleKnown d at_ item key known action)
      fun _ => True := by
    intro action
    refine Emits.seq ?_ fun _ => ?_
    · split
      · exact requests_ledger _
      · trivial
    · cases action with
      | recordVersion => exact (requests_ledger _).seq fun _ => requests_modify _
      | retryFailed | relocatedAway | rewrite => exact requests_fetchAndWrite hupsert _ _ _
      | _ => exact requests_modify _
  split
  · unfold reportMove
    split
    · exact requests_modify _
    · exact (requests_ledger _).seq fun _ => requests_modify _
  · exact hsettle _

theorem requests_onKnownAfterFetch (key : String) (known : LedgerRecord) {fetched : Raw × ℕ}
    (hfetched : d.fetchRaw item = .ok fetched) :
    Emits (requests asked heard) (onKnownAfterFetch d at_ item key known fetched) fun _ => True := by
  unfold onKnownAfterFetch
  split
  case h_4 => exact requests_writeItem hupsert _ _ _ hfetched
  case h_5 => exact requests_writeItem hupsert _ _ _ hfetched
  all_goals exact requests_modify _

theorem requests_syncItem : Emits (requests asked heard) (syncItem d at_ item) fun _ => True := by
  unfold syncItem
  cases hkey : d.naturalKey item with
  | some key =>
    apply (requests_modify _).seq
    intro _
    apply (requests_ledger _).seq
    intro found
    cases found with
    | none => exact requests_fetchAndWrite hupsert _ _ _
    | some known => exact requests_onKnown hupsert key known
  | none =>
    apply (requests_modify _).seq
    intro _
    unfold syncDerived
    cases hfetched : d.fetchRaw item with
    | error e => exact requests_itemFailed _ _ e
    | ok fetched =>
      change Emits _ ((Prog.ofExcept (deriveKey d item fetched.1)).tryWith _ _) _
      cases hderived : deriveKey d item fetched.1 with
      | error e => exact requests_itemFailed _ _ e
      | ok key =>
        have hlookup : Emits (requests asked heard) (lookupDerived d at_ key) fun _ => True :=
          (requests_modify _).seq fun _ => requests_ledger _
        apply hlookup.attempt (requests_itemFailed _ _)
        intro known
        cases known with
        | none => exact requests_writeItem hupsert _ _ _ hfetched
        | some row => exact requests_onKnownAfterFetch hupsert _ row hfetched

end Requests

section Pass

variable [FolderLike Folder] (d : DomainSyncDeps T Item Folder Raw)

/-- A call that a pass makes for an item it lists. -/
structure Made (call : WriterCall Item Raw) : Prop where
  intro ::
  listed : ∃ at_ size rewriteOf, ListedAt d at_ call.item ∧ call.collectionId = at_.collectionId ∧
    d.fetchRaw call.item = .ok (call.raw, size) ∧ call.options = upsertOptions d at_ call.item rewriteOf

/-- What a request of a pass is for: a call that the pass makes, of which it is one. -/
def Asked (asked : WriterCall Item Raw → T.Cmd → Prop) (c : Option (WriterCall Item Raw) × T.Cmd) : Prop :=
  ∃ call, c.1 = some call ∧ Made d call ∧ asked call c.2

variable {d} {asked : WriterCall Item Raw → T.Cmd → Prop} {heard : (c : T.Cmd) → Except PassError (T.Resp c) → Prop}

/-- What every call of the writer keeps to, a pass keeps to, call by call. -/
theorem runDomainSync_requests
    (hupsert : ∀ call, Made d call → Emits (requests (asked call) heard)
      (d.upsert call.collectionId call.raw call.item call.options) fun _ => True) :
    MainEmits (requests (T := T.tagged Item Raw) (Asked d asked) fun c => heard c.2) (runDomainSync d.tagged)
      fun _ => True := by
  apply Hosts.runDomainSync
  constructor
  · exact fun _ _ => trivial
  · exact fun _ => trivial
  · exact fun _ _ _ _ => trivial
  · exact fun _ _ => trivial
  · trivial
  · intro c r hr
    cases c with
    | ledger op => exact hr
    | target | cursorGet | cursorSet | modify | vars => simp [Cmd.Hears]
  · intro at_ item hlisted
    apply requests_syncItem
    intro raw size rewriteOf hfetched
    have hmade : Made d ⟨at_.collectionId, raw, item, upsertOptions d at_ item rewriteOf⟩ :=
      ⟨at_, size, rewriteOf, ⟨hlisted.listed⟩, rfl, hfetched, rfl⟩
    exact Task.tagged_requests (fun c hc => ⟨_, rfl, hmade, hc⟩) (hupsert _ hmade)

end Pass

end OpenMigrate
