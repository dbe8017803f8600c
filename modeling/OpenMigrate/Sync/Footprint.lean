import OpenMigrate.Sync.DomainSync

namespace OpenMigrate

open Async

variable {T : TargetApi} {Item Folder Raw : Type} (d : DomainSyncDeps T Item Folder Raw)

/-- The key the loop knows an item by: from the listing, or else from the bytes it fetched. -/
def HasKey (item : Item) (key : String) : Prop :=
  d.naturalKey item = some key ∨
    d.naturalKey item = none ∧ ∃ fetched, d.fetchRaw item = .ok fetched ∧ deriveKey d item fetched.1 = .ok key

/-- What a worker may do to the variables of its pass. -/
structure WorkerVars (at_ : Place) (item : Item) (v v' : PassVars) : Prop where
  handled : v'.handled = v.handled ∨
    (∃ key, HasKey d item key) ∧ v'.handled = (at_.folder, at_.index) :: v.handled
  failures : v.failures ⊆ v'.failures
  failed : v.failed ≤ v'.failed
  seen : v.seenByCollection ⊆ v'.seenByCollection
  sees : ∀ x ∈ v'.seenByCollection, x ∈ v.seenByCollection ∨ x.1 = at_.collectionPath ∧ HasKey d item x.2
  stage : v'.stage = v.stage
  reportedRemovals : v'.reportedRemovals = v.reportedRemovals
  enumerated : v'.fullyEnumerated = v.fullyEnumerated
  moves : ∀ m ∈ v'.moves, m ∈ v.moves ∨ HasKey d item m.naturalKeyHash

/-- What a worker may ask of the ledger; `keys` are those its writer records under. -/
def LedgerOp.OfWorker (at_ : Place) (item : Item) (keys : String → Prop) : LedgerOp → Prop
  | .find .. => True
  | .recordIfAbsent r =>
    r.scope = d.scope ∧ (HasKey d item r.naturalKeyHash ∨ keys r.naturalKeyHash) ∧
      r.sourceVersion = d.sourceVersion item ∧ r.collection = some at_.collectionPath ∧
      r.status ∈ [none, some .copied, some .adopted, some .updated]
  | .recordUpdate r =>
    r.scope = d.scope ∧ HasKey d item r.naturalKeyHash ∧
      r.status ≠ some .tombstoned ∧ r.status ≠ some .failed ∧ r.status ≠ some .leftBehind
  | .recordFailure r _ => r.scope = d.scope ∧ HasKey d item r.naturalKeyHash
  | .recordMove scope key _ toKey => scope = d.scope ∧ d.naturalKey item = some key ∧ toKey = none
  | .clearMove scope key => scope = d.scope ∧ d.naturalKey item = some key
  | .clearAbsent scope key => scope = d.scope ∧ d.naturalKey item = some key
  | _ => False

def workerVocabulary (at_ : Place) (item : Item) (keys : String → Prop) :
    Vocabulary (Cmd T) Cmd.Resp PassError where
  asks
    | .ledger op => op.OfWorker d at_ item keys
    | .target _ => True
    | .modify f => ∀ v, WorkerVars d at_ item v (f v)
    | .vars => True
    | _ => False
  hears := Cmd.Hears

/-- An operation that reports no move, and names a row's collection as the item's own or as one of `places`. -/
def LedgerOp.Quiet (at_ : Place) (places : Option String → Prop) : LedgerOp → Prop
  | .recordUpdate r => r.collection = some at_.collectionPath ∨ places r.collection
  | .recordFailure r _ => r.collection = none
  | .recordMove .. => False
  | _ => True

/-- What is left of a worker's vocabulary when it has no move to report, and its row is in one of `places`. -/
def quietVocabulary (at_ : Place) (item : Item) (keys : String → Prop) (places : Option String → Prop) :
    Vocabulary (Cmd T) Cmd.Resp PassError where
  asks
    | .ledger op => op.OfWorker d at_ item keys ∧ op.Quiet at_ places
    | .target _ => True
    | .modify f => ∀ v, WorkerVars d at_ item v (f v) ∧ (f v).moves = v.moves
    | .vars => True
    | _ => False
  hears
    | .ledger (.find scope key), .ok (some known) =>
      (known.scope = scope ∧ known.naturalKeyHash = key) ∧
        (scope = d.scope → HasKey d item key → places known.collection)
    | .ledger (.findBySourceRef scope _), .ok (some known) => known.scope = scope
    | _, _ => True

variable {d} {at_ : Place} {item : Item} {keys : String → Prop} {places : Option String → Prop}

theorem quiet_hears {c : Cmd T} {r : Except PassError c.Resp}
    (h : (quietVocabulary d at_ item keys places).hears c r) : c.Hears r := by
  cases c with
  | ledger op =>
    cases r with
    | error e => cases op <;> trivial
    | ok a =>
      cases op with
      | find scope key =>
        cases a with
        | none => trivial
        | some known => exact h.1
      | findBySourceRef scope ref =>
        cases a with
        | none => trivial
        | some known => exact h
      | _ => trivial
  | _ => trivial

theorem hears_quiet {c : Cmd T} {r : Except PassError c.Resp} (h : c.Hears r) :
    (quietVocabulary d at_ item keys fun _ => True).hears c r := by
  cases c with
  | ledger op =>
    cases r with
    | error e => cases op <;> trivial
    | ok a =>
      cases op with
      | find scope key =>
        cases a with
        | none => trivial
        | some known => exact ⟨h, fun _ _ => trivial⟩
      | findBySourceRef scope ref =>
        cases a with
        | none => trivial
        | some known => exact h
      | _ => trivial
  | _ => trivial

theorem worker_of_quiet {α : Type} {p : Task T α} {Q : Except PassError α → Prop}
    (h : Emits (quietVocabulary d at_ item keys fun _ => True) p Q) : Emits (workerVocabulary d at_ item keys) p Q := by
  refine h.weaken ?_ fun _ _ => hears_quiet
  intro c hc
  cases c with
  | ledger op => exact hc.1
  | modify f => exact fun v => (hc v).1
  | target | vars => trivial
  | cursorGet | cursorSet => exact hc.elim

theorem WorkerVars.of_eq {v v' : PassVars} (hh : v'.handled = v.handled) (hf : v.failures ⊆ v'.failures)
    (hn : v.failed ≤ v'.failed) (hs : v'.seenByCollection = v.seenByCollection) (hp : v'.stage = v.stage)
    (hr : v'.reportedRemovals = v.reportedRemovals) (he : v'.fullyEnumerated = v.fullyEnumerated)
    (hm : v'.moves = v.moves) : WorkerVars d at_ item v v' where
  handled := .inl hh
  failures := hf
  failed := hn
  seen := by rw [hs]; exact List.Subset.refl _
  sees x hx := .inl (hs ▸ hx)
  stage := hp
  reportedRemovals := hr
  enumerated := he
  moves m hmem := .inl (hm ▸ hmem)

theorem WorkerVars.settle {f : PassVars → PassVars} {v : PassVars} (hkey : ∃ key, HasKey d item key)
    (h : (f v).failures = v.failures ∧ (f v).failed = v.failed ∧
      (f v).seenByCollection = v.seenByCollection ∧ (f v).stage = v.stage ∧
      (f v).reportedRemovals = v.reportedRemovals ∧ (f v).fullyEnumerated = v.fullyEnumerated ∧
      ∀ m ∈ (f v).moves, m ∈ v.moves ∨ HasKey d item m.naturalKeyHash) :
    WorkerVars d at_ item v { f v with handled := (at_.folder, at_.index) :: v.handled } where
  handled := .inr ⟨hkey, rfl⟩
  failures := by simp [h.1]
  failed := by simp [h.2.1]
  seen := by simp [h.2.2.1]
  sees x hx := .inl (h.2.2.1 ▸ hx)
  stage := h.2.2.2.1
  reportedRemovals := h.2.2.2.2.1
  enumerated := h.2.2.2.2.2.1
  moves := h.2.2.2.2.2.2

theorem emits_modify {f : PassVars → PassVars} (h : ∀ v, WorkerVars d at_ item v (f v) ∧ (f v).moves = v.moves) :
    Emits (quietVocabulary d at_ item keys places) (Task.modify f) (fun _ => True) :=
  (Emits.perform _ _).mpr ⟨h, fun _ _ => trivial⟩

theorem emits_vars : Emits (quietVocabulary d at_ item keys places) Task.vars (fun _ => True) :=
  (Emits.perform _ _).mpr ⟨trivial, fun _ _ => trivial⟩

theorem emits_ledger {op : LedgerOp} (h : op.OfWorker d at_ item keys) (hquiet : op.Quiet at_ places) :
    Emits (quietVocabulary d at_ item keys places) (Task.ledger op) (fun _ => True) :=
  (Emits.perform _ _).mpr ⟨⟨h, hquiet⟩, fun _ _ => trivial⟩

theorem emits_ret {α : Type} (a : α) :
    Emits (quietVocabulary d at_ item keys places) (.ret a : Task T α) (fun _ => True) := trivial

theorem emits_fail {α : Type} (e : PassError) :
    Emits (quietVocabulary d at_ item keys places) (.fail e : Task T α) (fun _ => True) := trivial

theorem emits_ofExcept {α : Type} (x : Except PassError α) :
    Emits (quietVocabulary d at_ item keys places) (Prog.ofExcept x : Task T α) (fun _ => True) :=
  (Emits.ofExcept _ _).mpr trivial

theorem emits_settle {f : PassVars → PassVars} (hkey : ∃ key, HasKey d item key)
    (h : ∀ v, (f v).failures = v.failures ∧ (f v).failed = v.failed ∧
      (f v).seenByCollection = v.seenByCollection ∧ (f v).stage = v.stage ∧
      (f v).reportedRemovals = v.reportedRemovals ∧ (f v).fullyEnumerated = v.fullyEnumerated ∧
      (f v).moves = v.moves) :
    Emits (quietVocabulary d at_ item keys places) (settle at_ f) (fun _ => True) := by
  refine emits_modify fun v => ?_
  obtain ⟨hf, hn, hs, hp, hr, he, hm⟩ := h v
  exact ⟨.settle hkey ⟨hf, hn, hs, hp, hr, he, fun m hmem => .inl (hm ▸ hmem)⟩, hm⟩

theorem emits_park (key : String) (known : LedgerRecord) :
    Emits (quietVocabulary d at_ item keys places) (park d key known) (fun _ => True) :=
  emits_modify fun _ => ⟨.of_eq rfl (List.subset_append_left _ _) le_rfl rfl rfl rfl rfl rfl, rfl⟩

theorem itemFailed_emits {key? : Option String} (hkey : ∀ key ∈ key?, HasKey d item key) (ch : String)
    (e : PassError) :
    Emits (quietVocabulary d at_ item keys places) (itemFailed d key? ch e) (fun _ => True) := by
  cases e with
  | passAbort message => exact emits_fail _
  | error reason =>
    refine Emits.seq (emits_modify fun v => ?_) fun _ => ?_
    · exact ⟨.of_eq rfl (List.Subset.refl _) (Nat.le_succ _) rfl rfl rfl rfl rfl, rfl⟩
    cases key? with
    | none =>
      refine emits_vars.seq fun v => ?_
      split
      · exact emits_fail _
      · exact emits_ret _
    | some key =>
      refine Emits.seq (emits_ledger ⟨rfl, hkey key rfl⟩ rfl) fun row => ?_
      refine Emits.seq (emits_modify fun v => ?_) fun _ => ?_
      · exact ⟨.of_eq rfl (List.subset_append_left _ _) le_rfl rfl rfl rfl rfl rfl, rfl⟩
      refine emits_vars.seq fun v => ?_
      split
      · exact emits_fail _
      · exact emits_ret _

theorem countOutcome_eq (key ch : String) (rewriting : Bool) (result : UpsertResult) (v : PassVars) :
    (countOutcome at_ key ch rewriting result v).failures = v.failures ∧
      (countOutcome at_ key ch rewriting result v).failed = v.failed ∧
      (countOutcome at_ key ch rewriting result v).seenByCollection = v.seenByCollection ∧
      (countOutcome at_ key ch rewriting result v).stage = v.stage ∧
      (countOutcome at_ key ch rewriting result v).reportedRemovals = v.reportedRemovals ∧
      (countOutcome at_ key ch rewriting result v).fullyEnumerated = v.fullyEnumerated ∧
      (countOutcome at_ key ch rewriting result v).moves = v.moves := by
  unfold countOutcome
  split_ifs <;> exact ⟨rfl, rfl, rfl, rfl, rfl, rfl, rfl⟩

theorem outcome_status (result : UpsertResult) :
    (if result.created then ItemStatus.copied else if result.adopted then .adopted else .updated) ∈
      [ItemStatus.copied, .adopted, .updated] := by
  split_ifs <;> simp

theorem recordOutcome_emits {key : String} (hkey : HasKey d item key) (ch : String) (sizeBytes : ℕ)
    (hasRow : Bool) {rewriteOf : Option LedgerRecord}
    (hrow : ∀ r ∈ rewriteOf, r.scope = d.scope ∧ r.naturalKeyHash = key ∧ places r.collection) (result : UpsertResult) :
    Emits (quietVocabulary d at_ item keys places)
      (recordOutcome d at_ item key ch sizeBytes hasRow rewriteOf result) (fun _ => True) := by
  have hstatus := outcome_status result
  unfold recordOutcome
  split
  · refine Emits.seq (emits_modify fun v => ?_) fun _ => ?_
    · exact ⟨.of_eq rfl (List.Subset.refl _) le_rfl rfl rfl rfl rfl rfl, rfl⟩
    cases rewriteOf with
    | none => exact emits_fail _
    | some r =>
      obtain ⟨hscope, rfl, hplace⟩ := hrow r rfl
      refine Emits.seq (emits_ledger ⟨hscope, hkey, by simp⟩ (.inr hplace)) fun _ => ?_
      exact emits_settle ⟨_, hkey⟩ fun v => ⟨rfl, rfl, rfl, rfl, rfl, rfl, rfl⟩
  · refine Emits.seq ?_ fun _ => ?_
    · split
      · refine emits_ledger ⟨rfl, hkey, ?_⟩ (.inl rfl)
        simp only [outcomeRecord]
        revert hstatus
        generalize (if result.created then ItemStatus.copied else _) = st
        intro hst
        simp only [List.mem_cons, List.not_mem_nil, or_false] at hst
        obtain rfl | rfl | rfl := hst <;> simp
      · refine emits_ledger ⟨rfl, .inl hkey, rfl, rfl, ?_⟩ trivial
        simp only [outcomeRecord]
        revert hstatus
        generalize (if result.created then ItemStatus.copied else _) = st
        intro hst
        simp only [List.mem_cons, List.not_mem_nil, or_false] at hst
        obtain rfl | rfl | rfl := hst <;> simp
    · refine Emits.seq (emits_settle ⟨key, hkey⟩ fun v => ?_) fun _ => ?_
      · exact countOutcome_eq key ch _ result v
      · split
        · exact emits_fail _
        · exact emits_ret _

/-- Every row the writer records for what is fetched of this item is one of `keys`. -/
def RecordsUnder (d : DomainSyncDeps T Item Folder Raw) (item : Item) (keys : String → Prop) : Prop :=
  ∀ fetched, d.fetchRaw item = .ok fetched → ∀ id options,
    Emits (writerVocabulary d.scope options keys) (d.upsert id fetched.1 item options) (fun _ => True)

theorem recordsUnder_any (d : DomainSyncDeps T Item Folder Raw) (item : Item) :
    RecordsUnder d item (fun _ => True) := fun fetched _ id options => d.upsert_asks id fetched.1 item options

theorem upsert_emits (hkeys : RecordsUnder d item keys) (id : String) {fetched : Raw × ℕ}
    (hfetched : d.fetchRaw item = .ok fetched) (rewriteOf : Option LedgerRecord) :
    Emits (quietVocabulary d at_ item keys places) (d.upsert id fetched.1 item (upsertOptions d at_ item rewriteOf))
      (fun _ => True) := by
  refine (hkeys fetched hfetched id _).weaken ?_ fun _ _ => quiet_hears
  intro c hc
  cases c with
  | target | vars => trivial
  | cursorGet | cursorSet | modify => exact hc.elim
  | ledger op =>
    cases op with
    | find => exact ⟨trivial, trivial⟩
    | recordIfAbsent r =>
      obtain ⟨hscope, hstatus, hversion, hcollection, hk⟩ := hc
      refine ⟨⟨hscope, .inr hk, hversion, hcollection, ?_⟩, trivial⟩
      obtain h | h := hstatus <;> simp [h]
    | _ => exact hc.elim

theorem writeItem_emits (hkeys : RecordsUnder d item keys) {key : String} (hkey : HasKey d item key)
    (hasRow : Bool) {rewriteOf : Option LedgerRecord}
    (hrow : ∀ r ∈ rewriteOf, r.scope = d.scope ∧ r.naturalKeyHash = key ∧ places r.collection) {fetched : Raw × ℕ}
    (hfetched : d.fetchRaw item = .ok fetched) :
    Emits (quietVocabulary d at_ item keys places) (writeItem d at_ item key hasRow rewriteOf fetched)
      (fun _ => True) :=
  ((upsert_emits hkeys _ hfetched _).seq fun result => recordOutcome_emits hkey _ _ _ hrow result).attempt
    (itemFailed_emits (by simpa using hkey) _) fun _ => trivial

theorem fetchAndWrite_emits (hkeys : RecordsUnder d item keys) {key : String} (hkey : HasKey d item key)
    (hasRow : Bool) {rewriteOf : Option LedgerRecord}
    (hrow : ∀ r ∈ rewriteOf, r.scope = d.scope ∧ r.naturalKeyHash = key ∧ places r.collection) :
    Emits (quietVocabulary d at_ item keys places) (fetchAndWrite d at_ item key hasRow rewriteOf)
      (fun _ => True) := by
  refine Emits.tryWith (fun fetched => d.fetchRaw item = .ok fetched) (fun _ => True) ?_
    (fun e _ => itemFailed_emits (by simpa using hkey) _ e)
    fun fetched hfetched => writeItem_emits hkeys hkey hasRow hrow hfetched
  refine (Emits.ofExcept _ _).mpr ?_
  cases d.fetchRaw item <;> simp

theorem settleKnown_emits (hkeys : RecordsUnder d item keys) {key : String} (hkey : HasKey d item key)
    {known : LedgerRecord} (hknown : known.scope = d.scope ∧ known.naturalKeyHash = key ∧ places known.collection)
    {action : KnownItemAction}
    (haction : action = .recordVersion →
      known.status ≠ some .leftBehind ∧ known.status ≠ some .tombstoned ∧ known.status ≠ some .failed) :
    Emits (quietVocabulary d at_ item keys places) (settleKnown d at_ item key known action) (fun _ => True) := by
  have hnone : ∀ r ∈ (none : Option LedgerRecord), r.scope = d.scope ∧ r.naturalKeyHash = key ∧ places r.collection := by
    simp
  cases action with
  | skip | moved | leaveAdopted | leftBehind | tombstoned =>
    exact emits_settle ⟨key, hkey⟩ fun v => ⟨rfl, rfl, rfl, rfl, rfl, rfl, rfl⟩
  | recordVersion =>
    obtain ⟨hl, ht, hf⟩ := haction rfl
    refine Emits.seq (emits_ledger ⟨hknown.1, ?_, ht, hf, hl⟩ (.inr hknown.2.2)) fun _ => ?_
    · exact hknown.2.1 ▸ hkey
    · exact emits_settle ⟨key, hkey⟩ fun v => ⟨rfl, rfl, rfl, rfl, rfl, rfl, rfl⟩
  | needsDecision => exact emits_park key known
  | retryFailed => exact fetchAndWrite_emits hkeys hkey true hnone
  | relocatedAway => exact fetchAndWrite_emits hkeys hkey true hnone
  | rewrite => exact fetchAndWrite_emits hkeys hkey true (by simpa using hknown)

theorem clearFirst_emits {key : String} (hkey : d.naturalKey item = some key) {b : Prop} [Decidable b] :
    Emits (quietVocabulary d at_ item keys places)
      (if b then Task.ledger (.clearAbsent d.scope key) else .ret () : Task T Unit) (fun _ => True) := by
  split
  · exact emits_ledger ⟨rfl, hkey⟩ trivial
  · exact emits_ret _

theorem onKnown_quiet (hkeys : RecordsUnder d item keys) {key : String} (hkey : d.naturalKey item = some key)
    {known : LedgerRecord} (hknown : known.scope = d.scope ∧ known.naturalKeyHash = key ∧ places known.collection)
    (hstill : classifyKnownItem known (d.sourceVersion item) (some at_.collectionPath) ≠ .moved) :
    Emits (quietVocabulary d at_ item keys places) (onKnown d at_ item key known) (fun _ => True) := by
  unfold onKnown
  refine Emits.seq (clearFirst_emits hkey) fun _ => ?_
  split
  · rename_i hmoved
    exact absurd hmoved hstill
  · rename_i action haction
    refine Emits.seq ?_ fun _ => ?_
    · split
      · exact emits_ledger ⟨rfl, hkey⟩ trivial
      · exact emits_ret _
    · refine settleKnown_emits hkeys (.inl hkey) hknown fun h => ?_
      exact classifyKnownItem_live (by rw [h]; simp)

theorem reportMove_emits {key : String} (hkey : d.naturalKey item = some key) (known : LedgerRecord) :
    Emits (workerVocabulary d at_ item keys) (reportMove d at_ key known) (fun _ => True) := by
  unfold reportMove
  split
  · exact worker_of_quiet (emits_settle ⟨key, .inl hkey⟩ fun v => ⟨rfl, rfl, rfl, rfl, rfl, rfl, rfl⟩)
  · refine Emits.seq ((Emits.perform _ _).mpr ⟨⟨rfl, hkey, rfl⟩, fun _ _ => trivial⟩) fun _ => ?_
    have hsettle : ∀ f : PassVars → PassVars, (∀ v, WorkerVars d at_ item v
        { f v with handled := (at_.folder, at_.index) :: v.handled }) →
        Emits (workerVocabulary d at_ item keys) (settle at_ f) (fun _ => True) :=
      fun f hf => (Emits.perform _ _).mpr ⟨hf, fun _ _ => trivial⟩
    refine hsettle _ fun v => .settle (f := fun v => { v with
      moved := v.moved + 1
      moves := v.moves ++ [⟨d.scope.domain, key, known.collection.getD "", at_.collectionPath, none, none, none⟩] })
      ⟨key, .inl hkey⟩ ⟨rfl, rfl, rfl, rfl, rfl, rfl, fun m hm => ?_⟩
    obtain hm | hm := List.mem_append.mp hm
    · exact .inl hm
    · obtain rfl := List.mem_singleton.mp hm
      exact .inr (.inl hkey)

theorem onKnown_emits (hkeys : RecordsUnder d item keys) {key : String} (hkey : d.naturalKey item = some key)
    {known : LedgerRecord} (hknown : known.scope = d.scope ∧ known.naturalKeyHash = key) :
    Emits (workerVocabulary d at_ item keys) (onKnown d at_ item key known) (fun _ => True) := by
  by_cases hmoved : classifyKnownItem known (d.sourceVersion item) (some at_.collectionPath) = .moved
  · unfold onKnown
    refine Emits.seq (worker_of_quiet (clearFirst_emits hkey)) fun _ => ?_
    rw [hmoved]
    exact reportMove_emits hkey known
  · exact worker_of_quiet (onKnown_quiet hkeys hkey ⟨hknown.1, hknown.2, trivial⟩ hmoved)

theorem syncKeyed_emits (hkeys : RecordsUnder d item keys) {key : String}
    (hkey : d.naturalKey item = some key) :
    Emits (workerVocabulary d at_ item keys) (syncKeyed d at_ item key) (fun _ => True) := by
  refine Emits.bind (fun known => ∀ r ∈ known, r.scope = d.scope ∧ r.naturalKeyHash = key) ?_ ?_
  · refine (Emits.perform _ _).mpr ⟨trivial, fun r hr => ?_⟩
    cases r with
    | error e => trivial
    | ok known =>
      cases known with
      | none => simp
      | some r =>
        have hfound : r.scope = d.scope ∧ r.naturalKeyHash = key := hr
        simpa using hfound
  · intro known hknown
    cases known with
    | none => exact worker_of_quiet (fetchAndWrite_emits hkeys (.inl hkey) false (by simp))
    | some r => exact onKnown_emits hkeys hkey (hknown r rfl)

theorem syncKeyed_quiet (hkeys : RecordsUnder d item keys) {key : String} (hkey : d.naturalKey item = some key)
    (hstill : ∀ known : LedgerRecord, places known.collection →
      classifyKnownItem known (d.sourceVersion item) (some at_.collectionPath) ≠ .moved) :
    Emits (quietVocabulary d at_ item keys places) (syncKeyed d at_ item key) (fun _ => True) := by
  refine Emits.bind (fun known => ∀ r ∈ known, r.scope = d.scope ∧ r.naturalKeyHash = key ∧ places r.collection) ?_ ?_
  · refine (Emits.perform _ _).mpr ⟨⟨trivial, trivial⟩, fun r hr => ?_⟩
    cases r with
    | error e => trivial
    | ok known =>
      cases known with
      | none => simp
      | some r =>
        have hfound : (r.scope = d.scope ∧ r.naturalKeyHash = key) ∧
          (d.scope = d.scope → HasKey d item key → places r.collection) := hr
        obtain ⟨⟨hscope, hk⟩, hplace⟩ := hfound
        simpa using ⟨hscope, hk, hplace rfl (.inl hkey)⟩
  · intro known hknown
    cases known with
    | none => exact fetchAndWrite_emits hkeys (.inl hkey) false (by simp)
    | some r =>
      obtain ⟨hscope, hk, hplace⟩ := hknown r rfl
      exact onKnown_quiet hkeys hkey ⟨hscope, hk, hplace⟩ (hstill r hplace)

theorem onKnownAfterFetch_emits (hkeys : RecordsUnder d item keys) {key : String}
    (hkey : HasKey d item key) (known : LedgerRecord) {fetched : Raw × ℕ}
    (hfetched : d.fetchRaw item = .ok fetched) :
    Emits (quietVocabulary d at_ item keys places) (onKnownAfterFetch d at_ item key known fetched)
      (fun _ => True) := by
  unfold onKnownAfterFetch
  split
  case h_1 | h_2 | h_6 => exact emits_settle ⟨key, hkey⟩ fun v => ⟨rfl, rfl, rfl, rfl, rfl, rfl, rfl⟩
  case h_3 => exact emits_park key known
  case h_4 | h_5 => exact writeItem_emits hkeys hkey true (by simp) hfetched

theorem see_vars {key : String} (hkey : HasKey d item key) {v v' : PassVars}
    (h : v'.handled = v.handled ∧ v'.failures = v.failures ∧ v'.failed = v.failed ∧
      v'.seenByCollection = v.seenByCollection ∧ v'.stage = v.stage ∧
      v'.reportedRemovals = v.reportedRemovals ∧ v'.fullyEnumerated = v.fullyEnumerated ∧ v'.moves = v.moves) :
    WorkerVars d at_ item v (see at_ key v') where
  handled := .inl h.1
  failures := by simp [see, h.2.1]
  failed := by simp [see, h.2.2.1]
  seen := by simp [see, h.2.2.2.1]
  sees x hx := by
    simp only [see, List.mem_append, List.mem_singleton, h.2.2.2.1] at hx
    obtain hx | rfl := hx
    · exact .inl hx
    · exact .inr ⟨rfl, hkey⟩
  stage := h.2.2.2.2.1
  reportedRemovals := h.2.2.2.2.2.1
  enumerated := h.2.2.2.2.2.2.1
  moves m hm := .inl (h.2.2.2.2.2.2.2 ▸ hm)

theorem syncDerived_emits (hkeys : RecordsUnder d item keys) (hnone : d.naturalKey item = none) :
    Emits (quietVocabulary d at_ item keys places) (syncDerived d at_ item) (fun _ => True) := by
  unfold syncDerived
  refine Emits.tryWith (fun fetched => d.fetchRaw item = .ok fetched) (fun _ => True) ?_
    (fun e _ => itemFailed_emits (by simp) _ e) ?_
  · refine (Emits.ofExcept _ _).mpr ?_
    cases d.fetchRaw item <;> simp
  intro fetched hfetched
  refine Emits.tryWith (fun key => deriveKey d item fetched.1 = .ok key) (fun _ => True) ?_
    (fun e _ => itemFailed_emits (by simp) _ e) ?_
  · refine (Emits.ofExcept _ _).mpr ?_
    cases deriveKey d item fetched.1 <;> simp
  intro key hkey
  have hk : HasKey d item key := .inr ⟨hnone, fetched, hfetched, hkey⟩
  refine Emits.attempt ?_ (itemFailed_emits (by simpa using hk) _) ?_
  · refine Emits.seq (emits_modify fun v => ?_) fun _ => emits_ledger trivial trivial
    exact ⟨see_vars hk ⟨rfl, rfl, rfl, rfl, rfl, rfl, rfl, rfl⟩, rfl⟩
  · intro known
    cases known with
    | none => exact writeItem_emits hkeys hk false (by simp) hfetched
    | some r => exact onKnownAfterFetch_emits hkeys hk r hfetched

theorem syncItem_emits (hkeys : RecordsUnder d item keys) :
    Emits (workerVocabulary d at_ item keys) (syncItem d at_ item) (fun _ => True) := by
  unfold syncItem
  split
  · rename_i key hkey
    refine Emits.seq (worker_of_quiet (emits_modify fun v => ?_)) fun _ => syncKeyed_emits hkeys hkey
    exact ⟨see_vars (.inl hkey) ⟨rfl, rfl, rfl, rfl, rfl, rfl, rfl, rfl⟩, rfl⟩
  · rename_i hnone
    refine worker_of_quiet (Emits.seq (emits_modify fun v => ?_) fun _ => syncDerived_emits hkeys hnone)
    exact ⟨.of_eq rfl (List.Subset.refl _) le_rfl rfl rfl rfl rfl rfl, rfl⟩

theorem syncItem_quiet (hkeys : RecordsUnder d item keys)
    (hstill : ∀ known : LedgerRecord, places known.collection →
      classifyKnownItem known (d.sourceVersion item) (some at_.collectionPath) ≠ .moved) :
    Emits (quietVocabulary d at_ item keys places) (syncItem d at_ item) (fun _ => True) := by
  unfold syncItem
  split
  · rename_i key hkey
    refine Emits.seq (emits_modify fun v => ?_) fun _ => syncKeyed_quiet hkeys hkey hstill
    exact ⟨see_vars (.inl hkey) ⟨rfl, rfl, rfl, rfl, rfl, rfl, rfl, rfl⟩, rfl⟩
  · rename_i hnone
    refine Emits.seq (emits_modify fun v => ?_) fun _ => syncDerived_emits hkeys hnone
    exact ⟨.of_eq rfl (List.Subset.refl _) le_rfl rfl rfl rfl rfl rfl, rfl⟩

end OpenMigrate
