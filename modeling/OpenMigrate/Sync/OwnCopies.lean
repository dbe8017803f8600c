import OpenMigrate.Sync.Observed
import OpenMigrate.Sync.Passes
import Mathlib.Data.Set.Basic

namespace OpenMigrate

open Async Prog PgLedger

variable {T : TargetApi} {Item Folder Raw : Type}

section Ledger

/-- The statuses that something writes to a row. -/
def ItemStatus.recorded : ItemStatus → Bool
  | pending => false
  | skipped => false
  | deletedSource => false
  | _ => true

def ItemRow.parked (row : ItemRow) : Bool := row.status == .failed && decide (MAX_ITEM_ATTEMPTS ≤ row.attemptCount)

/-- A row whose tombstone, while it stands, is not taken for that of a relocation. -/
structure ItemRow.Erased (row : ItemRow) : Prop where
  applied : row.deletionAppliedAt.isSome
  unmoved : row.status = .tombstoned → truthy row.movedToNaturalKeyHash = none

structure Sound (erased : Set ItemKey) (L : Ledger) : Prop where
  recorded : ∀ key row, L.lookup key = some row → row.status.recorded
  erased : ∀ key ∈ erased, ∃ row, L.lookup key = some row ∧ row.Erased

/-- What keeps a ledger sound: no status out of the blue, and no new key for an erased row. -/
def LedgerOp.Fine (erased : Set ItemKey) : LedgerOp → Prop
  | .recordIfAbsent r => ∀ status ∈ r.status, status.recorded
  | .recordUpdate r => ∀ status ∈ r.status, status.recorded ∧ status ≠ .tombstoned
  | .recordMove scope key _ (some _) => scope.key key ∉ erased
  | _ => True

variable {erased : Set ItemKey} {L : Ledger} {now : Instant} {op : LedgerOp} {row : ItemRow}

theorem LedgerOp.Fine.keeps_recorded (h : op.Fine erased) (hrow : row.status.recorded) :
    (op.sets L now row).status.recorded := by
  cases op with
  | recordUpdate r =>
    simp only [sets, updateValues]
    cases hs : r.status with
    | none => rfl
    | some status => exact (h status hs).1
  | recordFailure | applyRelocation | applyDeletion | clearAbsent | recordReportedDeletion | recordTrashedDeletion =>
    simp only [sets]
    first
    | rfl
    | (split <;> first | exact hrow | rfl)
  | _ => exact hrow

theorem LedgerOp.Fine.keeps_erased (h : op.Fine erased) {key : ItemKey} (hkey : key ∈ erased) {domain : Domain}
    (haim : op.aimsAt key domain) (hrow : row.Erased) : (op.sets L now row).Erased := by
  have hno : row.deletionAppliedAt.isNone = false := by
    rw [← Option.not_isSome, hrow.applied]
    rfl
  cases op with
  | recordUpdate r =>
    refine ⟨hrow.applied, fun ht => ?_⟩
    simp only [sets, updateValues] at ht
    cases hs : r.status with
    | none => simp [hs] at ht
    | some status =>
      rw [hs] at ht
      exact absurd ht (h status hs).2
  | recordFailure r error =>
    refine ⟨hrow.applied, fun ht => ?_⟩
    cases ht
  | recordMove scope k dest toKey =>
    cases toKey with
    | none => exact ⟨hrow.applied, fun _ => rfl⟩
    | some k' =>
      obtain ⟨scope', h', hw, rfl, -⟩ := haim
      cases hw
      exact absurd hkey h
  | clearMove => exact ⟨hrow.applied, fun _ => rfl⟩
  | applyDeletion =>
    simp only [sets, deletable, hno, Bool.and_false, Bool.false_and, Bool.false_eq_true, if_false]
    exact hrow
  | applyRelocation =>
    simp only [sets, relocatable, hno, Bool.and_false, Bool.false_and, Bool.false_eq_true, if_false]
    exact hrow
  | clearAbsent | recordReportedDeletion | recordTrashedDeletion =>
    simp only [sets]
    split
    · exact ⟨hrow.applied, hrow.unmoved⟩
    · exact ⟨hrow.applied, hrow.unmoved⟩
  | _ => exact ⟨hrow.applied, hrow.unmoved⟩

theorem LedgerOp.Fine.inserts (h : op.Fine erased) (hins : op.inserts = some row) : row.status.recorded := by
  cases op with
  | recordIfAbsent r =>
    obtain rfl : insertValues r = row := by simpa [LedgerOp.inserts] using hins
    simp only [insertValues]
    cases hs : r.status with
    | none => rfl
    | some status => exact h status hs
  | recordFailure r error =>
    obtain rfl : failureValues r error = row := by simpa [LedgerOp.inserts] using hins
    rfl
  | _ => simp [LedgerOp.inserts] at hins

theorem Sound.exec {c : Cmd T} {w : World T} (h : Sound erased w.1.ledger)
    (hc : ∀ op, c = .ledger op → op.Fine erased) (i : Input T) : Sound erased (w.exec i c).2.1.ledger where
  recorded key row hrow := by
    change (w.exec i c).2.row key = some row at hrow
    cases hw : w.row key with
    | some old =>
      obtain ⟨-, hsame⟩ | ⟨op, rfl, -, -, hset⟩ := exec_row_some (i := i) (c := c) hw
      · rw [hsame] at hrow
        cases hrow
        exact h.recorded key _ hw
      · rw [hset] at hrow
        cases hrow
        exact LedgerOp.Fine.keeps_recorded (hc op rfl) (h.recorded key _ hw)
    | none =>
      obtain hnone | ⟨op, new, rfl, -, hins, -, hnew⟩ := exec_row_none (i := i) (c := c) hw
      · rw [hnone] at hrow
        cases hrow
      · rw [hnew] at hrow
        cases hrow
        exact LedgerOp.Fine.inserts (hc op rfl) hins
  erased key hkey := by
    obtain ⟨old, hold, her⟩ := h.erased key hkey
    obtain ⟨-, hsame⟩ | ⟨op, rfl, -, haim, hset⟩ := exec_row_some (w := w) (i := i) (c := c) hold
    · exact ⟨old, hsame, her⟩
    · exact ⟨_, hset, LedgerOp.Fine.keeps_erased (hc op rfl) hkey haim her⟩

theorem Sound.erasedRow {scope : Scope} {key : String} (h : Sound erased L) (hrow : row? L scope key = some row)
    (hkey : scope.key key ∈ erased) : row.Erased := by
  obtain ⟨hlook, -⟩ := (row?_eq_some L).mp hrow
  obtain ⟨row', hlook', her⟩ := h.erased _ hkey
  rw [hlook] at hlook'
  cases hlook'
  exact her

end Ledger

section Calls

variable (d : DomainSyncDeps T Item Folder Raw) (erased : Set ItemKey)

structure ItemRow.Writable (key : ItemKey) (row : ItemRow) : Prop where
  leftBehind : row.status ≠ .leftBehind
  parked : row.parked = false
  erased : row.status = .tombstoned → key ∉ erased

/-- A row of ours that the source has a newer version for. -/
structure ItemRow.Outdated (version : Option String) (row : ItemRow) : Prop where
  ours : ours row
  known : row.sourceVersion ≠ none
  given : version ≠ none
  changed : row.sourceVersion ≠ version

def Permits (L : Ledger) (call : WriterCall Item Raw) : Prop :=
  ∃ key, HasKey d call.item key ∧
    (call.options.overwrite → ∃ row, row? L d.scope key = some row ∧ row.Outdated (d.sourceVersion call.item)) ∧
    ∀ row, row? L d.scope key = some row → row.Writable erased (d.scope.key key)

/-- All that befalls the row of `key`: it stays as it is, or a writer records that it is there. -/
structure SameRow (key : ItemKey) (s t : World (T.observed Item Raw)) : Prop where
  kept : ∀ row, s.row key = some row → t.row key = some row
  new : s.row key = none → ∀ row, t.row key = some row → row.status ∈ [.copied, .updated, .adopted]

variable {d erased}

theorem SameRow.refl (key : ItemKey) (s : World (T.observed Item Raw)) : SameRow key s s where
  kept _ h := h
  new h row h' := by
    rw [h] at h'
    cases h'

theorem SameRow.trans {key : ItemKey} {s t u : World (T.observed Item Raw)} (h : SameRow key s t)
    (h' : SameRow key t u) : SameRow key s u where
  kept row hrow := h'.kept row (h.kept row hrow)
  new hnone row hrow := by
    cases ht : t.row key with
    | none => exact h'.new ht row hrow
    | some row' =>
      rw [h'.kept row' ht] at hrow
      cases hrow
      exact h.new hnone _ ht

theorem SameRow.of_eq {key : ItemKey} {s t : World (T.observed Item Raw)} (h : t.row key = s.row key) :
    SameRow key s t where
  kept row hrow := h.trans hrow
  new hnone row hrow := by
    rw [h, hnone] at hrow
    cases hrow

theorem ItemRow.Writable.of_new {key : ItemKey} {row : ItemRow} (h : row.status ∈ [.copied, .updated, .adopted]) :
    row.Writable erased key := by
  simp only [List.mem_cons, List.not_mem_nil, or_false] at h
  obtain h | h | h := h <;> exact ⟨by simp [h], by simp [ItemRow.parked, h], by simp [h]⟩

theorem Permits.sameRow {call : WriterCall Item Raw} {s t : World (T.observed Item Raw)}
    (h : Permits d erased s.1.ledger call)
    (hsame : ∀ key, HasKey d call.item key → SameRow (d.scope.key key) s t) :
    Permits d erased t.1.ledger call := by
  obtain ⟨key, hkey, hover, hopen⟩ := h
  have hrows := hsame key hkey
  refine ⟨key, hkey, fun ho => ?_, fun row hrow => ?_⟩
  · obtain ⟨row, hrow, hout⟩ := hover ho
    obtain ⟨hlook, hdomain⟩ := (row?_eq_some _).mp hrow
    exact ⟨row, (row?_eq_some _).mpr ⟨hrows.kept row hlook, hdomain⟩, hout⟩
  · obtain ⟨hlook, hdomain⟩ := (row?_eq_some _).mp hrow
    cases hs : s.row (d.scope.key key) with
    | none => exact .of_new (hrows.new hs row hlook)
    | some old =>
      have hold := hrows.kept old hs
      have hlook' : t.row (d.scope.key key) = some row := hlook
      rw [hold] at hlook'
      cases hlook'
      exact hopen _ ((row?_eq_some _).mpr ⟨hs, hdomain⟩)

end Calls

section Workers

variable (d : DomainSyncDeps T Item Folder Raw) (erased : Set ItemKey)

def copyRules : Rules (World (T.observed Item Raw)) (Cmd (T.observed Item Raw)) (Input (T.observed Item Raw)) where
  assume _ _ _ := True
  rely := OwnerOnly
  guar c s t := (∀ call, c = .called call → Permits d erased s.1.ledger call) ∧
    (Sound erased s.1.ledger → Sound erased t.1.ledger)
  refl := OwnerOnly.refl
  trans := OwnerOnly.trans

def rowShares (keyAt : ℕ → String → Prop) : (copyRules d erased).Shares where
  guar _ _ _ := True
  rely j s t := (Sound erased s.1.ledger → Sound erased t.1.ledger) ∧
    ∀ key, keyAt j key → SameRow (d.scope.key key) s t
  refl _ s := ⟨id, fun _ _ => .refl _ s⟩
  trans h h' := ⟨fun hs => h'.1 (h.1 hs), fun key hkey => (h.2 key hkey).trans (h'.2 key hkey)⟩
  env _ s t h := ⟨fun hs => by rwa [h.1], fun _ _ => .of_eq (h.row _)⟩

def modestVocabulary (T : TargetApi) (Item Raw : Type) : Vocabulary (Cmd (T.observed Item Raw)) Cmd.Resp PassError where
  asks
    | .ledger (.recordUpdate r) => ∀ status ∈ r.status, status.recorded
    | .target (.inr _) => False
    | _ => True
  hears := Cmd.Hears

def hushedVocabulary (at_ : Place) (item : Item) : Vocabulary (Cmd (T.observed Item Raw)) Cmd.Resp PassError where
  asks c := (workerVocabulary d.observed at_ item fun _ => True).asks c ∧ (modestVocabulary T Item Raw).asks c
  hears := Cmd.Hears

variable {d erased} {at_ : Place} {item : Item} {w : World (T.observed Item Raw)} {c : Cmd (T.observed Item Raw)}
  {key : String}

theorem worker_aims {op : LedgerOp} (hop : op.OfWorker d.observed at_ item fun _ => True)
    (hkey : ¬ HasKey d item key) {domain : Domain} (haim : op.aimsAt (d.scope.key key) domain) :
    ∃ r, op = .recordIfAbsent r ∧ r.status ∈ [none, some .copied, some .adopted, some .updated] := by
  obtain ⟨scope, h, hw, hk, -⟩ := haim
  have hh : h = key := congrArg ItemKey.naturalKeyHash hk
  subst hh
  cases op with
  | recordIfAbsent r => exact ⟨r, rfl, hop.2.2.2.2⟩
  | recordUpdate r =>
    cases hw
    exact absurd hop.2.1 hkey
  | recordFailure r error =>
    cases hw
    exact absurd hop.2 hkey
  | recordMove scope' k dest toKey =>
    cases hw
    exact absurd (.inl hop.2.1) hkey
  | clearMove scope' k | clearAbsent scope' k =>
    cases hw
    exact absurd (.inl hop.2) hkey
  | find => cases hw
  | _ => exact hop.elim

theorem worker_sameRow (hc : (workerVocabulary d.observed at_ item fun _ => True).asks c)
    (hkey : ¬ HasKey d item key) (i : Input (T.observed Item Raw)) :
    SameRow (d.scope.key key) w (w.exec i c).2 where
  kept row hrow := by
    obtain ⟨-, hsame⟩ | ⟨op, rfl, -, haim, hset⟩ := exec_row_some (i := i) (c := c) hrow
    · exact hsame
    · obtain ⟨r, rfl, -⟩ := worker_aims hc hkey haim
      exact hset
  new hnone row hrow := by
    obtain hnone' | ⟨op, new, rfl, -, hins, haim, hnew⟩ := exec_row_none (i := i) (c := c) hnone
    · rw [hnone'] at hrow
      cases hrow
    · obtain ⟨r, rfl, hstatus⟩ := worker_aims hc hkey haim
      rw [hnew] at hrow
      cases hrow
      obtain rfl : insertValues r = row := by simpa [LedgerOp.inserts] using hins
      simp only [List.mem_cons, List.not_mem_nil, or_false] at hstatus
      obtain h | h | h | h := hstatus <;> simp [insertValues, h]

theorem hushed_fine (hc : (hushedVocabulary d at_ item).asks c) : ∀ op, c = .ledger op → op.Fine erased := by
  rintro op rfl
  obtain ⟨hworker, hmodest⟩ := hc
  have hop : op.OfWorker d.observed at_ item (fun _ => True) := hworker
  cases op with
  | recordIfAbsent r =>
    obtain ⟨-, -, -, -, hstatus⟩ := hop
    intro status hs
    rw [Option.mem_def.mp hs] at hstatus
    simp only [List.mem_cons, reduceCtorEq, Option.some.injEq, List.not_mem_nil, or_false, false_or] at hstatus
    obtain rfl | rfl | rfl := hstatus <;> rfl
  | recordUpdate r =>
    intro status hs
    refine ⟨hmodest status hs, ?_⟩
    rintro rfl
    exact hop.2.2.1 hs
  | recordMove scope k dest toKey =>
    obtain ⟨-, -, rfl⟩ := hop
    trivial
  | _ => trivial

theorem hushed_not_called (hc : (hushedVocabulary d at_ item).asks c) (call : WriterCall Item Raw) :
    c ≠ .called call := by
  rintro rfl
  exact hc.2

variable (d) in
/-- Thread `j` works on this item, and no other thread of the fork works on an item of its key. -/
structure Alone (keyAt : ℕ → String → Prop) (j : ℕ) (item : Item) : Prop where
  own : ∀ key, HasKey d item key → keyAt j key
  others : ∀ n key, n ≠ j → keyAt n key → ¬ HasKey d item key

variable {keyAt : ℕ → String → Prop} {j : ℕ} {α : Type}

variable (at_) in
theorem hushed_guar (halone : Alone d keyAt j item)
    (hc : (hushedVocabulary d at_ item).asks c) (i : Input (T.observed Item Raw)) :
    ((rowShares d erased keyAt).rules j).guar c w (w.exec i c).2 := by
  have hsound : Sound erased w.1.ledger → Sound erased (w.exec i c).2.1.ledger := fun h =>
    h.exec (hushed_fine hc) i
  refine ⟨⟨⟨fun call hcall => absurd hcall (hushed_not_called hc call), hsound⟩, trivial⟩, fun n hn => ⟨hsound, ?_⟩⟩
  exact fun key hkey => worker_sameRow hc.1 (halone.others n key hn hkey) i

variable (at_) in
theorem hushed_wp (halone : Alone d keyAt j item) {p : Task (T.observed Item Raw) α} (hp : Emits (hushedVocabulary d at_ item) p (fun _ => True))
    (s : World (T.observed Item Raw)) :
    wp (callSpec (machine _) ((rowShares d erased keyAt).rules j)) p (fun _ _ => True) s :=
  wp_mono (callSpec_mono _ _) _ _ _ (fun _ _ _ => trivial) s
    (Emits.wp (fun _ => True) (fun c i w => exec_hears i w c) (fun _ _ _ _ => trivial)
      (fun _ i _ hc _ _ => ⟨hushed_guar at_ halone hc i, trivial⟩) hp trivial)

theorem modest_ledger {op : LedgerOp} (h : ∀ r, op = .recordUpdate r → ∀ status ∈ r.status, status.recorded) :
    Emits (modestVocabulary T Item Raw) (Task.ledger op) (fun _ => True) := by
  refine (Emits.perform _ _).mpr ⟨?_, fun _ _ => trivial⟩
  cases op with
  | recordUpdate r => exact h r rfl
  | _ => trivial

theorem modest_modify (f : PassVars → PassVars) :
    Emits (modestVocabulary T Item Raw) (Task.modify f) (fun _ => True) :=
  (Emits.perform _ _).mpr ⟨trivial, fun _ _ => trivial⟩

theorem modest_vars : Emits (modestVocabulary T Item Raw) Task.vars (fun _ => True) :=
  (Emits.perform _ _).mpr ⟨trivial, fun _ _ => trivial⟩

theorem itemFailed_modest (key? : Option String) (ch : String) (e : PassError) :
    Emits (modestVocabulary T Item Raw) (itemFailed d.observed key? ch e) (fun _ => True) := by
  cases e with
  | passAbort message => trivial
  | error reason =>
    refine Emits.seq (modest_modify _) fun _ => ?_
    cases key? with
    | none =>
      refine Emits.seq modest_vars fun v => ?_
      split <;> trivial
    | some key =>
      refine Emits.seq (modest_ledger (by simp)) fun row => Emits.seq (modest_modify _) fun _ => ?_
      refine Emits.seq modest_vars fun v => ?_
      split <;> trivial

theorem recordOutcome_modest (key ch : String) (sizeBytes : ℕ) (hasRow : Bool) (rewriteOf : Option LedgerRecord)
    (result : UpsertResult) :
    Emits (modestVocabulary T Item Raw)
      (recordOutcome d.observed at_ item key ch sizeBytes hasRow rewriteOf result) (fun _ => True) := by
  unfold recordOutcome
  split
  · refine Emits.seq (modest_modify _) fun _ => ?_
    cases rewriteOf with
    | none => trivial
    | some row =>
      refine Emits.seq (modest_ledger ?_) fun _ => modest_modify _
      rintro r ⟨⟩ status ⟨⟩
      rfl
  · refine Emits.seq ?_ fun _ => Emits.seq (modest_modify _) fun _ => ?_
    · split
      · refine modest_ledger ?_
        rintro r ⟨⟩ status ⟨⟩
        split_ifs <;> rfl
      · exact modest_ledger (by simp)
    · split <;> trivial

theorem hushed_of {p : Task (T.observed Item Raw) α}
    (h : Emits (workerVocabulary d.observed at_ item fun _ => True) p (fun _ => True))
    (h' : Emits (modestVocabulary T Item Raw) p (fun _ => True)) :
    Emits (hushedVocabulary d at_ item) p (fun _ => True) :=
  (h.and h').weaken (fun _ hc => hc) fun _ _ hr => ⟨hr, hr⟩

theorem itemFailed_hushed {key? : Option String} (hkey : ∀ key ∈ key?, HasKey d item key) (ch : String)
    (e : PassError) : Emits (hushedVocabulary d at_ item) (itemFailed d.observed key? ch e) (fun _ => True) :=
  hushed_of (worker_of_quiet (itemFailed_emits (d := d.observed) hkey ch e)) (itemFailed_modest key? ch e)

theorem upsert_hushed (id : String) (raw : Raw) (rewriteOf : Option LedgerRecord) :
    Emits (hushedVocabulary d at_ item)
      (Task.observed Item Raw (d.upsert id raw item (upsertOptions d at_ item rewriteOf))) (fun _ => True) := by
  refine Task.observed_emits ?_ (fun _ _ h => h) (fun _ _ h => h) (d.upsert_asks id raw item _)
  intro c hc
  cases c with
  | target => exact ⟨trivial, trivial⟩
  | cursorGet | cursorSet | modify | vars => exact hc.elim
  | ledger op =>
    cases op with
    | find => exact ⟨trivial, trivial⟩
    | recordIfAbsent r =>
      obtain ⟨hscope, hstatus, hversion, hcollection, -⟩ := hc
      refine ⟨⟨hscope, .inr trivial, hversion, hcollection, ?_⟩, trivial⟩
      obtain h | h := hstatus <;> simp [h]
    | _ => exact hc.elim

theorem afterCall_hushed (hkey : HasKey d item key) (hasRow : Bool) {rewriteOf : Option LedgerRecord}
    (hrow : ∀ r ∈ rewriteOf, r.scope = d.scope ∧ r.naturalKeyHash = key) (fetched : Raw × ℕ) (ch : String) :
    Emits (hushedVocabulary d at_ item)
      (((Task.observed Item Raw (d.upsert at_.collectionId fetched.1 item (upsertOptions d at_ item rewriteOf))).bind
        (recordOutcome d.observed at_ item key ch fetched.2 hasRow rewriteOf)).tryWith
          (itemFailed d.observed (some key) ch) .ret) (fun _ => True) := by
  refine Emits.attempt (Emits.seq (upsert_hushed _ _ _) fun result => ?_)
    (itemFailed_hushed (by simpa using hkey) ch) fun _ => trivial
  exact hushed_of (worker_of_quiet (recordOutcome_emits (d := d.observed) hkey ch fetched.2 hasRow (fun r hr =>
    ⟨(hrow r hr).1, (hrow r hr).2, trivial⟩) result))
    (recordOutcome_modest key ch fetched.2 hasRow rewriteOf result)

theorem writeItem_calls (halone : Alone d keyAt j item) (hkey : HasKey d item key) (hasRow : Bool)
    {rewriteOf : Option LedgerRecord} (hrow : ∀ r ∈ rewriteOf, r.scope = d.scope ∧ r.naturalKeyHash = key)
    (fetched : Raw × ℕ) {s : World (T.observed Item Raw)}
    (hs : Permits d erased s.1.ledger ⟨at_.collectionId, fetched.1, item, upsertOptions d at_ item rewriteOf⟩) :
    wp (callSpec (machine _) ((rowShares d erased keyAt).rules j))
      (writeItem d.observed at_ item key hasRow rewriteOf fetched) (fun _ _ => True) s := by
  intro t ht i _
  have hpermits := hs.sameRow fun k hk => ht.2 k (halone.own k hk)
  refine ⟨⟨⟨⟨?_, id⟩, trivial⟩, fun n _ => (rowShares d erased keyAt).refl n t⟩, ?_⟩
  · rintro call hcall
    cases hcall
    exact hpermits
  · exact hushed_wp at_ halone (afterCall_hushed hkey hasRow hrow fetched _) _

theorem fetchAndWrite_calls (halone : Alone d keyAt j item) (hkey : HasKey d item key) (hasRow : Bool)
    {rewriteOf : Option LedgerRecord} (hrow : ∀ r ∈ rewriteOf, r.scope = d.scope ∧ r.naturalKeyHash = key)
    {s : World (T.observed Item Raw)}
    (hs : ∀ raw, Permits d erased s.1.ledger ⟨at_.collectionId, raw, item, upsertOptions d at_ item rewriteOf⟩) :
    wp (callSpec (machine _) ((rowShares d erased keyAt).rules j))
      (fetchAndWrite d.observed at_ item key hasRow rewriteOf) (fun _ _ => True) s := by
  refine wp_try ((wp_ofExcept _ _ _ _).mpr ?_)
  cases d.observed.fetchRaw item with
  | error e => exact hushed_wp at_ halone (itemFailed_hushed (by simpa using hkey) "" e) s
  | ok fetched => exact writeItem_calls halone hkey hasRow hrow fetched (hs fetched.1)

section Known

variable {row row' : ItemRow} {known : LedgerRecord} {version collection : Option String}

/-- Two rows the classification cannot tell apart. -/
structure ItemRow.Alike (row row' : ItemRow) : Prop where
  domain : row'.domain = row.domain
  status : row'.status = row.status
  sourceVersion : row'.sourceVersion = row.sourceVersion
  attemptCount : row'.attemptCount = row.attemptCount

theorem ItemRow.Alike.writable {k : ItemKey} (h : row.Alike row') (hw : row.Writable erased k) :
    row'.Writable erased k where
  leftBehind := by
    rw [h.status]
    exact hw.leftBehind
  parked := by
    rw [ItemRow.parked, h.status, h.attemptCount]
    exact hw.parked
  erased := by
    rw [h.status]
    exact hw.erased

theorem ItemRow.Alike.outdated (h : row.Alike row') (ho : row.Outdated version) : row'.Outdated version where
  ours := by
    rw [PgLedger.ours, h.status]
    exact ho.ours
  known := by
    rw [h.sourceVersion]
    exact ho.known
  given := ho.given
  changed := by
    rw [h.sourceVersion]
    exact ho.changed

theorem outdated_of_rewrite {k : ItemKey}
    (h : classifyKnownItem (row.mapRowToRecord k) version collection = .rewrite) (hrecorded : row.status.recorded) :
    row.Outdated version := by
  obtain ⟨hstatus, hknown, hgiven, hchanged⟩ := classifyKnownItem_rewrite h
  refine ⟨?_, hknown, hgiven, hchanged⟩
  simp only [ItemRow.mapRowToRecord] at hstatus
  cases hs : row.status <;> simp_all [ItemStatus.recorded, PgLedger.ours]

theorem writable_of_action {k : ItemKey}
    (h : classifyKnownItem (row.mapRowToRecord k) version collection ∈ [.retryFailed, .relocatedAway, .rewrite])
    (herased : k ∈ erased → row.Erased) : row.Writable erased k := by
  simp only [List.mem_cons, List.not_mem_nil, or_false] at h
  obtain h | h | h := h
  · obtain ⟨hstatus, hattempts⟩ := classifyKnownItem_retryFailed h
    simp only [ItemRow.mapRowToRecord, Option.some.injEq, Option.getD_some] at hstatus hattempts
    exact ⟨by simp [hstatus], by simpa [ItemRow.parked, hstatus] using hattempts, by simp [hstatus]⟩
  · obtain ⟨hstatus, hmoved⟩ := classifyKnownItem_relocatedAway h
    simp only [ItemRow.mapRowToRecord, Option.some.injEq] at hstatus hmoved
    exact ⟨by simp [hstatus], by simp [ItemRow.parked, hstatus], fun ht hk => hmoved ((herased hk).unmoved ht)⟩
  · obtain ⟨hstatus, -⟩ := classifyKnownItem_rewrite h
    simp only [ItemRow.mapRowToRecord, List.mem_cons, Option.some.injEq, List.not_mem_nil, or_false, not_or] at hstatus
    obtain ⟨hleft, htomb, hfailed, -⟩ := hstatus
    exact ⟨hleft, by simp [ItemRow.parked, hfailed], fun ht => absurd ht htomb⟩

theorem ItemRow.Alike.refl (row : ItemRow) : row.Alike row := ⟨rfl, rfl, rfl, rfl⟩

theorem ItemRow.Alike.trans {row'' : ItemRow} (h : row.Alike row') (h' : row'.Alike row'') : row.Alike row'' where
  domain := h'.domain.trans h.domain
  status := h'.status.trans h.status
  sourceVersion := h'.sourceVersion.trans h.sourceVersion
  attemptCount := h'.attemptCount.trans h.attemptCount

variable (d) in
def StillThere (key : String) (row : ItemRow) (w : World (T.observed Item Raw)) : Prop :=
  ∃ row', row? w.1.ledger d.scope key = some row' ∧ row.Alike row'

variable {s t : World (T.observed Item Raw)}

theorem StillThere.rely (halone : Alone d keyAt j item) (hkey : HasKey d item key) (h : StillThere d key row s)
    (ht : ((rowShares d erased keyAt).rules j).rely s t) : StillThere d key row t := by
  obtain ⟨row', hrow', halike⟩ := h
  obtain ⟨hlook, hdomain⟩ := (row?_eq_some _).mp hrow'
  exact ⟨row', (row?_eq_some _).mpr ⟨(ht.2 key (halone.own key hkey)).kept row' hlook, hdomain⟩, halike⟩

theorem StillThere.permits {call : WriterCall Item Raw} (hkey : HasKey d call.item key) (h : StillThere d key row s)
    (hwritable : row.Writable erased (d.scope.key key))
    (houtdated : call.options.overwrite → row.Outdated (d.sourceVersion call.item)) :
    Permits d erased s.1.ledger call := by
  obtain ⟨row', hrow', halike⟩ := h
  refine ⟨key, hkey, fun ho => ⟨row', hrow', halike.outdated (houtdated ho)⟩, fun r hr => ?_⟩
  rw [hrow'] at hr
  cases hr
  exact halike.writable hwritable

variable (at_) in
theorem mark_wp (halone : Alone d keyAt j item) (hkey : HasKey d item key) {op : LedgerOp}
    (hop : (hushedVocabulary d at_ item).asks (.ledger op)) (hsets : ∀ L now r, ItemRow.Alike r (op.sets L now r))
    (hs : StillThere d key row s) :
    wp (callSpec (machine _) ((rowShares d erased keyAt).rules j)) (Task.ledger op)
      (fun _ t => StillThere d key row t) s := by
  refine (wp_perform _ _ _ _).mpr fun t ht i _ => ⟨hushed_guar at_ halone hop i, ?_⟩
  obtain ⟨row', hrow', halike⟩ := hs.rely halone hkey ht
  obtain ⟨hlook, hdomain⟩ := (row?_eq_some _).mp hrow'
  obtain ⟨-, hsame⟩ | ⟨op', hop', -, -, hset⟩ := exec_row_some (w := t) (i := i) (c := .ledger op) hlook
  · exact ⟨row', (row?_eq_some _).mpr ⟨hsame, hdomain⟩, halike⟩
  · cases hop'
    have hstill := hsets t.1.ledger i.now row'
    exact ⟨_, (row?_eq_some _).mpr ⟨hset, hstill.domain.trans hdomain⟩, halike.trans hstill⟩

theorem when_wp {b : Prop} [Decidable b] {p : Task (T.observed Item Raw) Unit}
    (hp : wp (callSpec (machine _) ((rowShares d erased keyAt).rules j)) p (fun _ t => StillThere d key row t) s)
    (hs : StillThere d key row s) :
    wp (callSpec (machine _) ((rowShares d erased keyAt).rules j)) (if b then p else .ret ())
      (fun _ t => StillThere d key row t) s := by
  split
  · exact hp
  · exact hs

theorem then_wp {p : Task (T.observed Item Raw) Unit} {f : Unit → Task (T.observed Item Raw) Unit}
    (hp : wp (callSpec (machine _) ((rowShares d erased keyAt).rules j)) p (fun _ t => StillThere d key row t) s)
    (hf : ∀ t, StillThere d key row t →
      wp (callSpec (machine _) ((rowShares d erased keyAt).rules j)) (f ()) (fun _ _ => True) t) :
    wp (callSpec (machine _) ((rowShares d erased keyAt).rules j)) (p.bind f) (fun _ _ => True) s := by
  refine wp_seq (wp_mono (callSpec_mono _ _) _ _ _ ?_ s hp)
  intro r t ht
  cases r with
  | error e => trivial
  | ok _ => exact hf t ht

theorem clearAbsent_alike (scope : Scope) (k : String) (L : Ledger) (now : Instant) (r : ItemRow) :
    ItemRow.Alike r ((LedgerOp.clearAbsent scope k).sets L now r) := by
  simp only [LedgerOp.sets]
  split <;> exact ⟨rfl, rfl, rfl, rfl⟩

theorem settleKnown_modest {k : ItemKey} (hrecorded : row.status.recorded) {action : KnownItemAction}
    (haction : action ∉ [.retryFailed, .relocatedAway, .rewrite]) :
    Emits (modestVocabulary T Item Raw) (settleKnown d.observed at_ item key (row.mapRowToRecord k) action)
      (fun _ => True) := by
  cases action with
  | skip | moved | leaveAdopted | leftBehind | tombstoned | needsDecision => exact modest_modify _
  | recordVersion =>
    refine Emits.seq (modest_ledger ?_) fun _ => modest_modify _
    rintro r ⟨⟩ status ⟨⟩
    exact hrecorded
  | retryFailed | relocatedAway | rewrite => simp at haction

theorem settleKnown_calls (halone : Alone d keyAt j item) (hkey : HasKey d item key)
    (hknown : known.scope = d.scope ∧ known.naturalKeyHash = key) (hwritable : row.Writable erased (d.scope.key key))
    {action : KnownItemAction} (houtdated : action = .rewrite → row.Outdated (d.sourceVersion item))
    (haction : action ∈ [.retryFailed, .relocatedAway, .rewrite]) (hs : StillThere d key row s) :
    wp (callSpec (machine _) ((rowShares d erased keyAt).rules j))
      (settleKnown d.observed at_ item key known action) (fun _ _ => True) s := by
  simp only [List.mem_cons, List.not_mem_nil, or_false] at haction
  obtain rfl | rfl | rfl := haction
  · exact fetchAndWrite_calls halone hkey true (by simp) fun raw => hs.permits hkey hwritable (by simp [upsertOptions])
  · exact fetchAndWrite_calls halone hkey true (by simp) fun raw => hs.permits hkey hwritable (by simp [upsertOptions])
  · exact fetchAndWrite_calls halone hkey true (by simpa using hknown) fun raw =>
      hs.permits hkey hwritable fun _ => houtdated rfl

theorem onKnown_calls (halone : Alone d keyAt j item) (hkey : d.naturalKey item = some key)
    (hsound : Sound erased s.1.ledger) (hrow : row? s.1.ledger d.scope key = some row) :
    wp (callSpec (machine _) ((rowShares d erased keyAt).rules j))
      (onKnown d.observed at_ item key (row.mapRowToRecord (d.scope.key key))) (fun _ _ => True) s := by
  obtain ⟨hlook, hdomain⟩ := (row?_eq_some _).mp hrow
  have hhas : HasKey d item key := .inl hkey
  have hrecorded := hsound.recorded _ row hlook
  have hknown : (row.mapRowToRecord (d.scope.key key)).scope = d.scope ∧
      (row.mapRowToRecord (d.scope.key key)).naturalKeyHash = key :=
    ⟨by simp [LedgerRecord.scope, ItemRow.mapRowToRecord, Scope.key, hdomain], rfl⟩
  unfold onKnown
  refine then_wp (when_wp (mark_wp at_ halone hhas ⟨⟨rfl, hkey⟩, trivial⟩ (clearAbsent_alike _ _) ⟨row, hrow, .refl row⟩)
    ⟨row, hrow, .refl row⟩) fun t ht => ?_
  split
  · refine hushed_wp at_ halone (hushed_of (reportMove_emits (d := d.observed) hkey _) ?_) t
    unfold reportMove
    split
    · exact modest_modify _
    · exact Emits.seq (modest_ledger (by simp)) fun _ => modest_modify _
  · refine then_wp (when_wp (mark_wp at_ halone hhas ⟨⟨rfl, hkey⟩, trivial⟩ (fun _ _ _ => ⟨rfl, rfl, rfl, rfl⟩) ht) ht)
      fun u hu => ?_
    by_cases hwrites : classifyKnownItem (row.mapRowToRecord (d.scope.key key)) (d.sourceVersion item)
        (some at_.collectionPath) ∈ [.retryFailed, .relocatedAway, .rewrite]
    · exact settleKnown_calls halone hhas hknown (writable_of_action hwrites (hsound.erasedRow hrow))
        (fun h => outdated_of_rewrite h hrecorded) hwrites hu
    · refine hushed_wp at_ halone (hushed_of (worker_of_quiet (settleKnown_emits (d := d.observed)
        (recordsUnder_any _ _) (.inl hkey) ⟨hknown.1, hknown.2, trivial⟩ fun h => ?_)) (settleKnown_modest hrecorded hwrites)) u
      exact classifyKnownItem_live (by rw [h]; simp)

theorem permits_new (hkey : HasKey d item key) (hnone : row? s.1.ledger d.scope key = none) (id : String) (raw : Raw) :
    Permits d erased s.1.ledger ⟨id, raw, item, upsertOptions d at_ item none⟩ := by
  refine ⟨key, hkey, by simp [upsertOptions], fun r hr => ?_⟩
  rw [hnone] at hr
  cases hr

theorem lookup_wp (at_ : Place) (halone : Alone d keyAt j item) {Q : Except PassError (Option LedgerRecord) →
      World (T.observed Item Raw) → Prop} (hs : Sound erased s.1.ledger)
    (hok : ∀ t, Sound erased t.1.ledger → Q (.ok (find t.1.ledger d.scope key)) t)
    (herr : ∀ t reason, Q (.error (.error reason)) t) :
    wp (callSpec (machine _) ((rowShares d erased keyAt).rules j)) (Task.ledger (.find d.scope key)) Q s := by
  refine (wp_perform _ _ _ _).mpr fun t ht i _ => ?_
  have hasks : (hushedVocabulary d at_ item).asks (.ledger (.find d.scope key)) := ⟨trivial, trivial⟩
  refine ⟨hushed_guar at_ halone hasks i, ?_⟩
  have hread : PgLedger.exec t.1.ledger i.now (.find d.scope key) = (.ok (find t.1.ledger d.scope key), t.1.ledger) := rfl
  obtain ⟨reason, he⟩ | he := exec_read i t hread
  · simp only [machine, he]
    exact herr t reason
  · simp only [machine, he]
    exact hok t (ht.1 hs)

theorem syncKeyed_calls (halone : Alone d keyAt j item) (hkey : d.naturalKey item = some key)
    (hs : Sound erased s.1.ledger) :
    wp (callSpec (machine _) ((rowShares d erased keyAt).rules j)) (syncKeyed d.observed at_ item key)
      (fun _ _ => True) s := by
  refine wp_seq (lookup_wp at_ halone hs (fun t ht => ?_) fun _ _ => trivial)
  cases hrow : row? t.1.ledger d.scope key with
  | none =>
    simp only [find, hrow, Option.map_none]
    exact fetchAndWrite_calls halone (.inl hkey) false (by simp) fun raw => permits_new (.inl hkey) hrow _ raw
  | some row =>
    simp only [find, hrow, Option.map_some]
    exact onKnown_calls halone hkey ht hrow

theorem onKnownAfterFetch_calls (halone : Alone d keyAt j item) (hkey : HasKey d item key)
    (hsound : Sound erased s.1.ledger) (hrow : row? s.1.ledger d.scope key = some row) (fetched : Raw × ℕ) :
    wp (callSpec (machine _) ((rowShares d erased keyAt).rules j))
      (onKnownAfterFetch d.observed at_ item key (row.mapRowToRecord (d.scope.key key)) fetched)
      (fun _ _ => True) s := by
  have hwrite : classifyKnownItem (row.mapRowToRecord (d.scope.key key)) none (some at_.collectionPath) ∈
        [.retryFailed, .relocatedAway, .rewrite] →
      wp (callSpec (machine _) ((rowShares d erased keyAt).rules j))
        (writeItem d.observed at_ item key true none fetched) (fun _ _ => True) s := by
    intro haction
    refine writeItem_calls halone hkey true (by simp) fetched ?_
    have hstill : StillThere d key row s := ⟨row, hrow, .refl row⟩
    refine hstill.permits hkey ?_ (by simp [upsertOptions])
    exact writable_of_action haction (hsound.erasedRow hrow)
  have hsettle : ∀ f, (∀ v, (f v).failures = v.failures ∧ (f v).failed = v.failed ∧
      (f v).seenByCollection = v.seenByCollection ∧ (f v).stage = v.stage ∧
      (f v).reportedRemovals = v.reportedRemovals ∧ (f v).fullyEnumerated = v.fullyEnumerated ∧
      (f v).moves = v.moves) →
      wp (callSpec (machine _) ((rowShares d erased keyAt).rules j)) (settle at_ f) (fun _ _ => True) s :=
    fun f hf => hushed_wp at_ halone
      (hushed_of (worker_of_quiet (emits_settle (d := d.observed) ⟨key, hkey⟩ hf)) (modest_modify _)) s
  unfold onKnownAfterFetch
  split
  case h_1 | h_2 | h_6 => exact hsettle _ fun v => ⟨rfl, rfl, rfl, rfl, rfl, rfl, rfl⟩
  case h_3 => exact hushed_wp at_ halone (hushed_of (worker_of_quiet (emits_park key _)) (modest_modify _)) s
  case h_4 h | h_5 h => exact hwrite (by rw [h]; simp)

theorem syncDerived_calls (halone : Alone d keyAt j item) (hnone : d.naturalKey item = none)
    (hs : Sound erased s.1.ledger) :
    wp (callSpec (machine _) ((rowShares d erased keyAt).rules j)) (syncDerived d.observed at_ item)
      (fun _ _ => True) s := by
  have hfailed : ∀ {key? : Option String}, (∀ key ∈ key?, HasKey d item key) → ∀ e t,
      wp (callSpec (machine _) ((rowShares d erased keyAt).rules j)) (itemFailed d.observed key? "" e)
        (fun _ _ => True) t :=
    fun hk e t => hushed_wp at_ halone (itemFailed_hushed hk "" e) t
  unfold syncDerived
  refine wp_try ((wp_ofExcept _ _ _ _).mpr ?_)
  cases hfetch : d.observed.fetchRaw item with
  | error e => exact hfailed (by simp) e s
  | ok fetched =>
  refine wp_try ((wp_ofExcept _ _ _ _).mpr ?_)
  cases hderive : deriveKey d.observed item fetched.1 with
  | error e => exact hfailed (by simp) e s
  | ok key =>
  have hkey : HasKey d item key := .inr ⟨hnone, fetched, hfetch, hderive⟩
  refine wp_try (wp_seq ((wp_perform _ _ _ _).mpr fun t ht i _ => ⟨hushed_guar at_ halone ?_ i, ?_⟩))
  · exact ⟨fun v => see_vars (d := d.observed) hkey ⟨rfl, rfl, rfl, rfl, rfl, rfl, rfl, rfl⟩, trivial⟩
  · refine lookup_wp at_ halone (s := (t.exec i (.modify (see at_ key))).2) (ht.1 hs) (fun u hu => ?_) fun u reason => ?_
    · cases hrow : row? u.1.ledger d.scope key with
      | none =>
        simp only [find, hrow, Option.map_none]
        exact writeItem_calls halone hkey false (by simp) fetched (permits_new hkey hrow _ fetched.1)
      | some row =>
        simp only [find, hrow, Option.map_some]
        exact onKnownAfterFetch_calls halone hkey hu hrow fetched
    · exact hfailed (by simpa using hkey) _ u

theorem syncItem_calls (halone : Alone d keyAt j item) (hs : Sound erased s.1.ledger) :
    wp (callSpec (machine _) ((rowShares d erased keyAt).rules j)) (syncItem d.observed at_ item)
      (fun _ _ => True) s := by
  unfold syncItem
  split
  · rename_i key hkey
    refine wp_seq ((wp_perform _ _ _ _).mpr fun t ht i _ => ⟨hushed_guar at_ halone ?_ i, ?_⟩)
    · exact ⟨fun v => see_vars (d := d.observed) (.inl hkey) ⟨rfl, rfl, rfl, rfl, rfl, rfl, rfl, rfl⟩, trivial⟩
    · exact syncKeyed_calls halone hkey (ht.1 hs)
  · rename_i hnone
    refine wp_seq ((wp_perform _ _ _ _).mpr fun t ht i _ => ⟨hushed_guar at_ halone ?_ i, ?_⟩)
    · exact ⟨fun v => .of_eq rfl (List.Subset.refl _) le_rfl rfl rfl rfl rfl rfl, trivial⟩
    · exact syncDerived_calls halone hnone (ht.1 hs)

end Known

end Workers

section Loop

variable (d : DomainSyncDeps T Item Folder Raw) (erased : Set ItemKey)

/-- A listing of the placed rows says of the erased ones that they are applied deletions. -/
def Cmd.NamesErased (erased : Set ItemKey) : (c : Cmd T) → Except PassError c.Resp → Prop
  | .ledger (.placedItems scope), .ok placed =>
    ∀ item ∈ placed, scope.key item.naturalKeyHash ∈ erased → item.deletionAppliedAt ≠ none
  | _, _ => True

def fineVocabulary (T : TargetApi) (erased : Set ItemKey) : Vocabulary (Cmd T) Cmd.Resp PassError where
  asks
    | .ledger op => op.Fine erased
    | .target _ => False
    | _ => True
  hears c r := c.Hears r ∧ c.NamesErased erased r

variable {d erased} {α β : Type}

theorem Sound.placed {L : Ledger} (h : Sound erased L) {scope : Scope} {item : PlacedItem}
    (hitem : item ∈ placedItems L scope) (hkey : scope.key item.naturalKeyHash ∈ erased) :
    item.deletionAppliedAt ≠ none := by
  obtain ⟨⟨k, row⟩, hmem, rfl⟩ := List.mem_map.mp hitem
  have hrow := (mem_rows L).mp (List.mem_of_mem_filter hmem)
  exact Option.isSome_iff_ne_none.mp (h.erasedRow hrow hkey).applied

theorem Sound.hears {w : World T} (h : Sound erased w.1.ledger) (c : Cmd T) (i : Input T) :
    (fineVocabulary T erased).hears c (w.exec i c).1 := by
  refine ⟨exec_hears i w c, ?_⟩
  cases c with
  | ledger op =>
    cases op with
    | placedItems scope =>
      have hread : PgLedger.exec w.1.ledger i.now (.placedItems scope) =
        (.ok (placedItems w.1.ledger scope), w.1.ledger) := rfl
      obtain ⟨reason, he⟩ | he := exec_read i w hread
      · rw [he]
        trivial
      · rw [he]
        exact fun item hitem hkey => h.placed hitem hkey
    | _ => trivial
  | _ => trivial

theorem walkPlaced_fine {scope : Scope} (seen : List (String × String)) {placed : List PlacedItem}
    (hplaced : ∀ item ∈ placed, scope.key item.naturalKeyHash ∈ erased → item.deletionAppliedAt ≠ none)
    (arrivals : List CreatedItem) :
    Emits (fineVocabulary T erased) (walkPlaced scope seen placed arrivals) (fun _ => True) := by
  induction placed generalizing arrivals with
  | nil => trivial
  | cons row rest ih =>
    have hrest := ih fun item hitem => hplaced item (List.mem_cons_of_mem row hitem)
    unfold walkPlaced
    split
    · exact hrest arrivals
    rename_i happlied
    have hrow : scope.key row.naturalKeyHash ∉ erased := fun hk => happlied (hplaced row List.mem_cons_self hk)
    split
    · refine Emits.seq ?_ fun _ => Emits.seq ?_ fun _ => hrest arrivals
      · split
        · exact asks_ledger trivial
        · trivial
      · split
        · exact asks_ledger trivial
        · trivial
    split
    · exact Emits.seq (hrest arrivals) fun out => trivial
    split
    · exact Emits.seq (asks_ledger hrow) fun _ => Emits.seq (hrest _) fun out => trivial
    · exact Emits.seq (asks_ledger trivial) fun _ => Emits.seq (hrest arrivals) fun out => trivial

theorem fine_modify (f : PassVars → PassVars) : Emits (fineVocabulary T erased) (Task.modify f) (fun _ => True) :=
  (Emits.perform _ _).mpr ⟨trivial, fun _ _ => trivial⟩

theorem fine_vars : Emits (fineVocabulary T erased) Task.vars (fun _ => True) :=
  (Emits.perform _ _).mpr ⟨trivial, fun _ _ => trivial⟩

theorem resolveRemovals_fine : Emits (fineVocabulary T erased) (resolveRemovals d) (fun _ => True) := by
  refine Emits.seq fine_vars fun v => Emits.seq ?_ fun reported => fine_modify _
  exact resolveReportedRemovals_asks (fun _ => trivial) (fun _ => trivial) _ _ _

theorem readBins_fine : Emits (fineVocabulary T erased) (readBins d) (fun _ => True) := by
  unfold readBins
  split
  · trivial
  rename_i scan hscan
  refine Emits.attempt ?_ (fun _ => trivial) fun discarded => ?_
  · refine (d.listDiscardedKeys_asks scan hscan).weaken ?_ ?_
    · intro c hc
      cases c with
      | cursorGet | cursorSet => trivial
      | _ => exact hc.elim
    · exact fun c r hr => hr.1
  · refine Emits.seq ?_ fun _ => Emits.seq fine_vars fun v => Emits.seq ?_ fun trashed => fine_modify _
    · split
      · exact fine_modify _
      · trivial
    · exact resolveDiscardedItems_asks (fun _ => trivial) (fun _ => trivial) _ _

theorem detectMoves_fine : Emits (fineVocabulary T erased) (detectMoves d) (fun _ => True) := by
  refine Emits.seq fine_vars fun v => ?_
  split
  · refine Emits.seq (Emits.bind (fun placed => ∀ item ∈ placed, d.scope.key item.naturalKeyHash ∈ erased →
      item.deletionAppliedAt ≠ none) ?_ fun placed hplaced => walkPlaced_fine _ hplaced _) fun found => fine_modify _
    refine (Emits.perform _ _).mpr ⟨trivial, fun r hr => ?_⟩
    cases r with
    | error e => trivial
    | ok placed => exact hr.2
  · trivial

theorem fine_wp {p : Task (T.observed Item Raw) α} (hp : Emits (fineVocabulary _ erased) p (fun _ => True))
    {s : World (T.observed Item Raw)} (hs : Sound erased s.1.ledger) :
    wp (callSpec (machine _) (copyRules d erased)) p (fun _ t => Sound erased t.1.ledger) s := by
  refine wp_mono (callSpec_mono _ _) _ _ _ (fun _ _ h => h.2) s
    (Emits.wp_of_keeps (fun w : World (T.observed Item Raw) => Sound erased w.1.ledger) ?_ ?_ hp hs)
  · intro s t h ho
    rwa [ho.1]
  · intro c i w hc _ hw
    have hfine : ∀ op, c = .ledger op → op.Fine erased := by
      rintro op rfl
      exact hc
    refine ⟨hw.hears c i, ⟨?_, fun h => h.exec hfine i⟩, hw.exec hfine i⟩
    rintro call rfl
    exact hc.elim

theorem fine_seq {p : Task (T.observed Item Raw) α} {f : α → MainTask (T.observed Item Raw) β}
    (hp : Emits (fineVocabulary _ erased) p (fun _ => True)) {s : World (T.observed Item Raw)}
    (hs : Sound erased s.1.ledger)
    (hf : ∀ a t, Sound erased t.1.ledger →
      wp (mainSpec (machine _) (copyRules d erased)) (f a) (fun _ t => Sound erased t.1.ledger) t) :
    wp (mainSpec (machine _) (copyRules d erased)) ((Main.lift p).bind f) (fun _ t => Sound erased t.1.ledger) s := by
  refine wp_seq ((wp_lift _ _ _ _).mpr (wp_mono (callSpec_mono _ _) _ _ _ ?_ s (fine_wp hp hs)))
  intro r t ht
  cases r with
  | error e => exact ht
  | ok a => exact hf a t ht

theorem fine_ofExcept {x : Except PassError α} {f : α → MainTask (T.observed Item Raw) β}
    {s : World (T.observed Item Raw)} (hs : Sound erased s.1.ledger)
    (hf : ∀ a, x = .ok a →
      wp (mainSpec (machine _) (copyRules d erased)) (f a) (fun _ t => Sound erased t.1.ledger) s) :
    wp (mainSpec (machine _) (copyRules d erased)) ((Main.lift (Prog.ofExcept x)).bind f)
      (fun _ t => Sound erased t.1.ledger) s := by
  refine wp_seq ((wp_lift _ _ _ _).mpr ((wp_ofExcept _ _ _ _).mpr ?_))
  cases x with
  | error e => exact hs
  | ok a => exact hf a rfl

variable (d) in
/-- No listing the source gives for a folder names two items of one key. -/
def OneKeyEach : Prop :=
  ∀ folder prev listing, d.listSince folder prev = .ok listing →
    ∀ (n m : ℕ) item item' key, listing.items[n]? = some item → listing.items[m]? = some item' →
      HasKey d item key → HasKey d item' key → n = m

theorem OneKeyEach.alone (h : OneKeyEach d) {folder : Folder} {prev : Option String} {listing : Listing Item}
    (hlisting : d.listSince folder prev = .ok listing) {j : ℕ} {item : Item} (hitem : listing.items[j]? = some item) :
    Alone d (fun n key => ∃ item, listing.items[n]? = some item ∧ HasKey d item key) j item where
  own key hkey := ⟨item, hitem, hkey⟩
  others n key hn := by
    rintro ⟨item', hitem', hkey'⟩ hkey
    exact hn (h folder prev listing hlisting n j item' item key hitem' hitem hkey' hkey)

theorem joint_sound {keyAt : ℕ → String → Prop} {s t : World (T.observed Item Raw)}
    (h : (rowShares d erased keyAt).joint.Reach s t) (hs : Sound erased s.1.ledger) : Sound erased t.1.ledger := by
  refine h.keeps (P := fun w => Sound erased w.1.ledger) ?_ hs
  rintro s t (ho | ⟨c, hg⟩) hs
  · rwa [ho.1]
  · exact hg.1.2 hs

variable [FolderLike Folder]

theorem syncFolder_calls (hkeys : OneKeyEach d) (folder : Folder) (n : ℕ) {s : World (T.observed Item Raw)}
    (hs : Sound erased s.1.ledger) :
    wp (mainSpec (machine _) (copyRules d erased)) (syncFolder d.observed folder n)
      (fun _ t => Sound erased t.1.ledger) s := by
  refine fine_ofExcept hs fun id hid => fine_seq ?_ hs fun prev t ht => ?_
  · unfold previousCursor
    split
    · exact (Emits.perform _ _).mpr ⟨trivial, fun _ _ => trivial⟩
    · trivial
  refine fine_ofExcept ht fun listing hlisting => fine_seq (fine_modify _) ht fun _ u hu => fine_seq ?_ hu fun _ v hv => ?_
  · unfold enumerateCollection
    split
    · split <;> exact fine_modify _
    · split
      · exact fine_modify _
      · trivial
  refine wp_seq ((wp_perform _ _ _ _).mpr fun x hx => ?_)
  have hsound : Sound erased x.1.ledger := by rwa [hx.1]
  refine ⟨rowShares d erased fun n key => ∃ item, listing.items[n]? = some item ∧ HasKey d item key, fun _ _ => True,
    fun _ _ _ _ _ => trivial, fun j p hp => ?_, fun y hy _ => ?_, fun _ y hy => joint_sound hy hsound⟩
  · obtain ⟨item, hitem, rfl⟩ := worker_getElem? hp
    refine wp_mono (callSpec_mono _ _) _ _ _ ?_ x (syncItem_calls (hkeys.alone hlisting hitem) hsound)
    intro r y _
    cases r <;> trivial
  · refine (wp_lift _ _ _ _).mpr (fine_wp ?_ (joint_sound hy hsound))
    refine Emits.seq fine_vars fun v => ?_
    split
    · exact (Emits.perform _ _).mpr ⟨trivial, fun _ _ => trivial⟩
    · trivial

theorem runDomainSync_calls (hkeys : OneKeyEach d) {s : World (T.observed Item Raw)} (hs : Sound erased s.1.ledger) :
    wp (mainSpec (machine _) (copyRules d erased)) (runDomainSync d.observed)
      (fun _ t => Sound erased t.1.ledger) s := by
  refine wp_seq (wp_mono (mainSpec_mono _ _) _ (fun _ t => Sound erased t.1.ledger) _ ?_ s ?_)
  · intro r t ht
    cases r with
    | error e => exact ht
    | ok _ =>
      refine fine_seq resolveRemovals_fine ht fun _ u hu => ?_
      refine fine_seq readBins_fine hu fun _ v hv => ?_
      refine fine_seq detectMoves_fine hv fun _ x hx => ?_
      exact fine_seq fine_vars hx fun _ y hy => hy
  · refine fine_ofExcept hs fun folders hfolders => ?_
    refine wp_forEach (mainSpec_mono _ _) _ _ (fun _ w => Sound erased w.1.ledger) _ (fun _ h => h) ?_ s hs
    intro x rest t ht
    refine wp_mono (mainSpec_mono _ _) _ _ _ ?_ t (syncFolder_calls hkeys x.1 x.2 ht)
    intro r u hu
    cases r <;> exact hu

theorem pass_calls (hkeys : OneKeyEach d) (choices : List (Choice (Input (T.observed Item Raw)) T.Act))
    {store : Store (T.observed Item Raw)} (hs : Sound erased store.ledger) :
    Sound erased ((⟨d.observed, choices⟩ : Pass _ _ _ _).ending store).1.ledger ∧
      ∀ th call i w, Event.exec th (.called call) i w ∈ (⟨d.observed, choices⟩ : Pass _ _ _ _).trace store →
        Permits d erased w.1.ledger call := by
  have hgood : Conf.Good (machine _) (copyRules d erased) (fun _ t => Sound erased t.1.ledger)
      ((⟨d.observed, choices⟩ : Pass _ _ _ _).start store) := runDomainSync_calls hkeys hs
  have hkept := (hgood.run (machine _) _ (fun _ s t h ho => by rwa [ho.1]) choices ?_).1
  · refine ⟨?_, fun th call i w hev => (hkept _ hev).1 call rfl⟩
    refine (run_reach (machine _) choices hkept).keeps (P := fun w => Sound erased w.1.ledger) ?_ hs
    rintro s t (ho | ⟨c, hg⟩) hs
    · rwa [ho.1]
    · exact hg.2 hs
  · intro ev _
    cases ev with
    | exec => trivial
    | act a w => exact OwnerOnly.act a w

end Loop

end OpenMigrate
