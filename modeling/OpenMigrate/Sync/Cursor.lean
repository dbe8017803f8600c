import OpenMigrate.Dav.DavApply
import OpenMigrate.Sync.Passes
import OpenMigrate.Sync.Reconcile

namespace OpenMigrate

open Async Prog

variable {T : TargetApi} {Item Folder Raw : Type}

section Rows

theorem sets_attemptCount (op : LedgerOp) (L : Ledger) (now : Instant) (row : ItemRow) :
    row.attemptCount ≤ (op.sets L now row).attemptCount := by
  cases op <;> simp only [LedgerOp.sets] <;> first | exact le_rfl | exact Nat.le_succ _ | (split <;> exact le_rfl)

theorem exec_attempts {i : Input T} {w : World T} {c : Cmd T} {key : ItemKey} {row : ItemRow}
    (h : w.row key = some row) :
    ∃ row', (w.exec i c).2.row key = some row' ∧ row'.domain = row.domain ∧
      row.attemptCount ≤ row'.attemptCount := by
  obtain ⟨-, hsame⟩ | ⟨op, -, -, -, hset⟩ := exec_row_some (i := i) (c := c) h
  · exact ⟨row, hsame, rfl, le_rfl⟩
  · exact ⟨_, hset, sets_domain op _ _ row, sets_attemptCount op _ _ row⟩

end Rows

variable (d : DomainSyncDeps T Item Folder Raw)

def Parked (item : Item) (w : World T) : Prop :=
  ∃ key row, HasKey d item key ∧ w.row (d.scope.key key) = some row ∧ row.domain = d.scope.domain ∧
    MAX_ITEM_ATTEMPTS ≤ row.attemptCount

def Accounted (n j : ℕ) (item : Item) (w : World T) : Prop := (n, j) ∈ w.vars.handled ∨ Parked d item w

/-- What a worker leaves behind: its item accounted for, a failure that holds the cursor back, or an
item that no key could be found for. -/
def Left (n j : ℕ) (item : Item) (w : World T) : Prop :=
  Accounted d n j item w ∨ (∃ f ∈ w.vars.failures, f.needsDecision = false) ∨ ¬ ∃ key, HasKey d item key

structure Grows (s t : World T) : Prop where
  handled : s.vars.handled ⊆ t.vars.handled
  failures : s.vars.failures ⊆ t.vars.failures
  rows : ∀ key row, s.row key = some row →
    ∃ row', t.row key = some row' ∧ row'.domain = row.domain ∧ row.attemptCount ≤ row'.attemptCount

variable {d} {n j : ℕ} {item : Item}

namespace Grows

theorem refl (s : World T) : Grows s s :=
  ⟨List.Subset.refl _, List.Subset.refl _, fun _ row h => ⟨row, h, rfl, le_rfl⟩⟩

theorem trans {s t u : World T} (h : Grows s t) (h' : Grows t u) : Grows s u where
  handled := List.Subset.trans h.handled h'.handled
  failures := List.Subset.trans h.failures h'.failures
  rows key row hrow := by
    obtain ⟨row', hrow', hd, ha⟩ := h.rows key row hrow
    obtain ⟨row'', hrow'', hd', ha'⟩ := h'.rows key row' hrow'
    exact ⟨row'', hrow'', hd'.trans hd, Nat.le_trans ha ha'⟩

theorem ofOwner {s t : World T} (h : OwnerOnly s t) : Grows s t where
  handled := by rw [h.vars]; exact List.Subset.refl _
  failures := by rw [h.vars]; exact List.Subset.refl _
  rows key row hrow := ⟨row, (h.row key).trans hrow, rfl, le_rfl⟩

theorem parked {s t : World T} (h : Grows s t) (hp : Parked d item s) : Parked d item t := by
  obtain ⟨key, row, hkey, hrow, hd, ha⟩ := hp
  obtain ⟨row', hrow', hd', ha'⟩ := h.rows _ row hrow
  exact ⟨key, row', hkey, hrow', hd'.trans hd, Nat.le_trans ha ha'⟩

theorem left {s t : World T} (h : Grows s t) (hl : Left d n j item s) : Left d n j item t := by
  obtain (hh | hp) | ⟨f, hf, hn⟩ | hk := hl
  · exact .inl (.inl (h.handled hh))
  · exact .inl (.inr (h.parked hp))
  · exact .inr (.inl ⟨f, h.failures hf, hn⟩)
  · exact .inr (.inr hk)

end Grows

def growRules (T : TargetApi) : Rules (World T) (Cmd T) (Input T) where
  assume _ _ _ := True
  rely := Grows
  guar _ _ _ := True
  refl := Grows.refl
  trans := Grows.trans

abbrev workerSpec (T : TargetApi) : Spec (World T) (Cmd T) Cmd.Resp PassError :=
  callSpec (machine T) (growRules T).free

section Worker

variable {at_ : Place}

theorem any_left {α : Type} {p : Task T α} {Q : Except PassError α → World T → Prop} (hQ : ∀ r t, Q r t)
    (s : World T) : wp (workerSpec T) p Q s :=
  wp_any _ (fun _ _ _ => trivial) hQ s

theorem settle_left {f : PassVars → PassVars} {K : Except PassError Unit → World T → Prop}
    (h : ∀ t : World T, (at_.folder, at_.index) ∈ t.vars.handled → K (.ok ()) t) (s : World T) :
    wp (workerSpec T) (settle at_ f) K s :=
  free_modify (P := fun _ => True) (fun _ _ _ _ => trivial) trivial fun t _ => h _ (by simp)

theorem settle_done (f : PassVars → PassVars) (s : World T) :
    wp (workerSpec T) (settle at_ f) (postOk (Left d at_.folder at_.index item)) s :=
  settle_left (fun _ h => .inl (.inl h)) s

theorem park_left (key : String) (known : LedgerRecord) {s : World T} (h : Parked d item s) :
    wp (workerSpec T) (park d key known) (postOk (Left d at_.folder at_.index item)) s :=
  free_modify (P := Parked d item) (fun _ _ hp hg => Grows.parked hg hp) h fun _ ht => .inl (.inr ht)

theorem recordFailure_ok {L : Ledger} {now : Instant} {r r' : LedgerRecord} {error : String}
    (h : (PgLedger.exec L now (.recordFailure r error)).1 = .ok r') :
    ∃ row, (PgLedger.exec L now (.recordFailure r error)).2.lookup r.key = some row ∧
      row.domain = r.itemType ∧ r'.attemptCount = some row.attemptCount := by
  change (PgLedger.recordFailure L r error).1 = .ok r' at h
  change ∃ row, (PgLedger.recordFailure L r error).2.lookup r.key = some row ∧ _
  cases hrow : PgLedger.row? L r.scope r.naturalKeyHash with
  | some row =>
    obtain ⟨hlook, hd⟩ := (PgLedger.row?_eq_some L).mp hrow
    have hupd : PgLedger.update L r.scope r.naturalKeyHash (fun _ => true) (PgLedger.bump error) =
        (some (PgLedger.bump error row), L.replace r.key (PgLedger.bump error row)) := by
      simp [PgLedger.update, hrow, PgLedger.record_key, Option.filter]
    simp only [PgLedger.recordFailure, hupd, Except.ok.injEq] at h ⊢
    subst h
    refine ⟨PgLedger.bump error row, ?_, hd, rfl⟩
    rw [PgLedger.replace_lookup, if_pos rfl, ← PgLedger.record_key, hlook]
    rfl
  | none =>
    have hupd := PgLedger.update_foreign L (w := fun _ => true) (f := PgLedger.bump error) hrow
    simp only [PgLedger.recordFailure, hupd] at h ⊢
    cases hlook : L.lookup r.key with
    | some row => simp [hlook] at h
    | none =>
      simp only [hlook, Except.ok.injEq] at h ⊢
      subst h
      exact ⟨PgLedger.failureValues r error, by simp, rfl, rfl⟩

theorem left_stable (s t : World T) (h : Left d n j item s) (hg : (growRules T).rely s t) :
    Left d n j item t := Grows.left hg h

theorem itemFailed_left {key? : Option String} (hkey : ∀ key ∈ key?, HasKey d item key)
    (hnone : key? = none → ¬ ∃ key, HasKey d item key) (ch : String) (e : PassError) (s : World T) :
    wp (workerSpec T) (itemFailed d key? ch e) (postOk (Left d at_.folder at_.index item)) s := by
  cases e with
  | passAbort message => trivial
  | error reason =>
    refine wp_seq (any_left (fun r t => ?_) s)
    cases r with
    | error e => trivial
    | ok _ =>
      cases key? with
      | none =>
        refine any_left (fun r t => ?_) t
        cases r with
        | error e => trivial
        | ok _ => exact .inr (.inr (hnone rfl))
      | some key =>
        refine wp_seq (free_write (P := fun _ => True) (fun _ _ _ _ => trivial) trivial ?_ fun _ _ _ => trivial)
        intro t now _
        cases hr : (PgLedger.exec t.1.ledger now (.recordFailure (failureRecord d key ch) reason)).1 with
        | error e => trivial
        | ok row =>
          obtain ⟨row', hrow', hdomain, hattempts⟩ := recordFailure_ok hr
          -- the row now carries the count that decides whether the item is parked
          have hparked : MAX_ITEM_ATTEMPTS ≤ row.attemptCount.getD 1 → Parked d item
              (t.setLedger (PgLedger.exec t.1.ledger now (.recordFailure (failureRecord d key ch) reason)).2) := by
            intro hmax
            rw [hattempts] at hmax
            exact ⟨key, row', hkey key rfl, hrow', hdomain, hmax⟩
          refine wp_seq (free_modify
            (P := fun t => MAX_ITEM_ATTEMPTS ≤ row.attemptCount.getD 1 → Parked d item t)
            (fun _ _ hp hg hm => Grows.parked hg (hp hm)) hparked fun t ht => ?_)
          refine wp_seq (free_vars (P := Left d at_.folder at_.index item) left_stable ?_ fun t ht => ?_)
          · by_cases hmax : MAX_ITEM_ATTEMPTS ≤ row.attemptCount.getD 1
            · exact .inl (.inr (ht hmax))
            · exact .inr (.inl ⟨⟨d.scope.domain, key, row.attemptCount.getD 1, reason, false⟩, by simp [hmax], rfl⟩)
          · change wp (workerSpec T) (if _ then _ else _) _ t
            split
            · trivial
            · exact ht

theorem recordOutcome_left {key : String} (hkey : HasKey d item key) (ch : String) (sizeBytes : ℕ)
    (hasRow : Bool) (rewriteOf : Option LedgerRecord) (result : UpsertResult) (s : World T) :
    wp (workerSpec T) (recordOutcome d at_ item key ch sizeBytes hasRow rewriteOf result)
      (orElse (workerSpec T) (itemFailed d (some key) ch) .ret (postOk (Left d at_.folder at_.index item)))
      s := by
  have hfailed : ∀ e t, wp (workerSpec T) (itemFailed d (some key) ch e)
      (postOk (Left d at_.folder at_.index item)) t := fun e t =>
    itemFailed_left (by simpa using hkey) (by simp) ch e t
  unfold recordOutcome
  split
  · refine wp_seq (any_left (fun r t => ?_) s)
    cases r with
    | error e => exact hfailed e t
    | ok _ =>
      cases rewriteOf with
      | none => exact hfailed _ t
      | some row =>
        refine wp_seq (any_left (fun r t => ?_) t)
        cases r with
        | error e => exact hfailed e t
        | ok _ => exact settle_left (fun t h => .inl (.inl h)) t
  · refine wp_seq (any_left (fun r t => ?_) s)
    cases r with
    | error e => exact hfailed e t
    | ok _ =>
      refine wp_seq (settle_left (fun t h => ?_) t)
      change wp (workerSpec T) (if _ then _ else _) _ t
      split
      · exact hfailed _ t
      · exact .inl (.inl h)

theorem writeItem_left {key : String} (hkey : HasKey d item key) (hasRow : Bool)
    (rewriteOf : Option LedgerRecord) (fetched : Raw × ℕ) (s : World T) :
    wp (workerSpec T) (writeItem d at_ item key hasRow rewriteOf fetched)
      (postOk (Left d at_.folder at_.index item)) s := by
  refine wp_try (wp_seq (any_left (fun r t => ?_) s))
  cases r with
  | error e => exact itemFailed_left (by simpa using hkey) (by simp) _ e t
  | ok result => exact recordOutcome_left hkey _ _ hasRow rewriteOf result t

theorem fetchAndWrite_left {key : String} (hkey : HasKey d item key) (hasRow : Bool)
    (rewriteOf : Option LedgerRecord) (s : World T) :
    wp (workerSpec T) (fetchAndWrite d at_ item key hasRow rewriteOf)
      (postOk (Left d at_.folder at_.index item)) s := by
  refine wp_try (any_left (fun r t => ?_) s)
  cases r with
  | error e => exact itemFailed_left (by simpa using hkey) (by simp) _ e t
  | ok fetched => exact writeItem_left hkey hasRow rewriteOf fetched t

theorem classifyKnownItem_parked {known : LedgerRecord} {sourceVersion collection : Option String}
    (h : classifyKnownItem known sourceVersion collection = .needsDecision) :
    MAX_ITEM_ATTEMPTS ≤ known.attemptCount.getD 0 := by
  unfold classifyKnownItem at h
  split_ifs at h
  assumption

theorem parked_of_find {L : Ledger} {w : World T} (hw : w.1.ledger = L) {key : String}
    (hkey : HasKey d item key) {known : LedgerRecord} (hfind : PgLedger.find L d.scope key = some known)
    (hmax : MAX_ITEM_ATTEMPTS ≤ known.attemptCount.getD 0) : Parked d item w := by
  obtain ⟨row, hrow, rfl⟩ := Option.map_eq_some_iff.mp hfind
  obtain ⟨hlook, hdomain⟩ := (PgLedger.row?_eq_some L).mp hrow
  exact ⟨key, row, hkey, by rwa [World.row, hw], hdomain, hmax⟩

theorem settleKnown_left {key : String} (hkey : HasKey d item key) (known : LedgerRecord)
    (action : KnownItemAction) {s : World T} (h : action = .needsDecision → Parked d item s) :
    wp (workerSpec T) (settleKnown d at_ item key known action)
      (postOk (Left d at_.folder at_.index item)) s := by
  cases action with
  | skip | moved | leaveAdopted | leftBehind | tombstoned => exact settle_done _ s
  | recordVersion =>
    refine wp_seq (any_left (fun r t => ?_) s)
    cases r with
    | error e => trivial
    | ok _ => exact settle_done _ t
  | needsDecision => exact park_left key known (h rfl)
  | retryFailed => exact fetchAndWrite_left hkey true none s
  | relocatedAway => exact fetchAndWrite_left hkey true none s
  | rewrite => exact fetchAndWrite_left hkey true (some known) s

theorem reportMove_left (key : String) (known : LedgerRecord) (s : World T) :
    wp (workerSpec T) (reportMove d at_ key known) (postOk (Left d at_.folder at_.index item)) s := by
  unfold reportMove
  split
  · exact settle_done _ s
  · refine wp_seq (any_left (fun r t => ?_) s)
    cases r with
    | error e => trivial
    | ok _ => exact settle_done _ t

theorem exec_parked {i : Input T} {w : World T} {c : Cmd T} (h : Parked d item w) :
    Parked d item (w.exec i c).2 := by
  obtain ⟨key, row, hkey, hrow, hdomain, hmax⟩ := h
  obtain ⟨row', hrow', hdomain', hattempts⟩ := exec_attempts (i := i) (c := c) hrow
  exact ⟨key, row', hkey, hrow', hdomain'.trans hdomain, Nat.le_trans hmax hattempts⟩

theorem when_left {b : Prop} [Decidable b] {c : Cmd T} {f : c.Resp → Task T Unit} {q : Prop} {a : c.Resp}
    {s : World T} (hs : q → Parked d item s)
    (h : ∀ r t, (q → Parked d item t) →
      wp (workerSpec T) (f r) (postOk (Left d at_.folder at_.index item)) t) :
    wp (workerSpec T) ((if b then (Prog.perform c : Task T c.Resp) else .ret a).bind f)
      (postOk (Left d at_.folder at_.index item)) s := by
  refine wp_seq ?_
  split
  · refine free_call (P := fun t => q → Parked d item t) (fun _ _ hp hg hq => Grows.parked hg (hp hq)) hs ?_
    intro t i ht _
    cases hr : (t.exec i c).1 with
    | error e => trivial
    | ok r => exact h r _ fun hq => exec_parked (ht hq)
  · exact h a s hs

theorem onKnown_left {key : String} (hkey : HasKey d item key) {known : LedgerRecord} {s : World T}
    (hfind : PgLedger.find s.1.ledger d.scope key = some known) :
    wp (workerSpec T) (onKnown d at_ item key known) (postOk (Left d at_.folder at_.index item)) s := by
  have hs : classifyKnownItem known (d.sourceVersion item) (some at_.collectionPath) = .needsDecision →
      Parked d item s := fun h => parked_of_find rfl hkey hfind (classifyKnownItem_parked h)
  unfold onKnown
  refine when_left hs fun _ t ht => ?_
  split
  · exact reportMove_left key known t
  · rename_i action haction
    exact when_left ht fun _ u hu => settleKnown_left hkey known _ hu

theorem onKnownAfterFetch_left {key : String} (hkey : HasKey d item key) {known : LedgerRecord}
    (fetched : Raw × ℕ) {s : World T} (hfind : PgLedger.find s.1.ledger d.scope key = some known) :
    wp (workerSpec T) (onKnownAfterFetch d at_ item key known fetched)
      (postOk (Left d at_.folder at_.index item)) s := by
  unfold onKnownAfterFetch
  split
  case h_1 | h_2 | h_6 => exact settle_done _ s
  case h_3 h => exact park_left key known (parked_of_find rfl hkey hfind (classifyKnownItem_parked h))
  case h_4 | h_5 => exact writeItem_left hkey true none fetched s

theorem syncKeyed_left {key : String} (hkey : HasKey d item key) (s : World T) :
    wp (workerSpec T) (syncKeyed d at_ item key) (postOk (Left d at_.folder at_.index item)) s := by
  refine wp_seq (free_find (P := fun _ => True) (fun _ _ _ _ => trivial) trivial ?_ fun _ _ _ => trivial)
  intro t _
  cases hfind : PgLedger.find t.1.ledger d.scope key with
  | none => exact fetchAndWrite_left hkey false none t
  | some known => exact onKnown_left hkey hfind

theorem syncDerived_left (hnone : d.naturalKey item = none) (s : World T) :
    wp (workerSpec T) (syncDerived d at_ item) (postOk (Left d at_.folder at_.index item)) s := by
  refine wp_try ((wp_ofExcept _ _ _ _).mpr ?_)
  cases hfetch : d.fetchRaw item with
  | error e =>
    refine itemFailed_left (by simp) (fun _ => ?_) _ e s
    rintro ⟨key, hkey | ⟨-, fetched, hfetched, -⟩⟩
    · rw [hnone] at hkey
      cases hkey
    · rw [hfetch] at hfetched
      cases hfetched
  | ok fetched =>
    refine wp_try ((wp_ofExcept _ _ _ _).mpr ?_)
    cases hderive : deriveKey d item fetched.1 with
    | error e =>
      refine itemFailed_left (by simp) (fun _ => ?_) _ e s
      rintro ⟨key, hkey | ⟨-, fetched', hfetched, hkey⟩⟩
      · rw [hnone] at hkey
        cases hkey
      · rw [hfetch] at hfetched
        cases hfetched
        rw [hderive] at hkey
        cases hkey
    | ok key =>
      have hkey : HasKey d item key := .inr ⟨hnone, fetched, hfetch, hderive⟩
      have hfailed : ∀ e t, wp (workerSpec T) (itemFailed d (some key) "" e)
          (postOk (Left d at_.folder at_.index item)) t := fun e t =>
        itemFailed_left (by simpa using hkey) (by simp) _ e t
      refine wp_try (wp_seq (any_left (fun r t => ?_) s))
      cases r with
      | error e => exact hfailed e t
      | ok _ =>
        refine free_find (P := fun _ => True) (fun _ _ _ _ => trivial) trivial ?_ fun t _ _ => hfailed _ t
        intro t _
        cases hfind : PgLedger.find t.1.ledger d.scope key with
        | none => exact writeItem_left hkey false none fetched t
        | some known => exact onKnownAfterFetch_left hkey fetched hfind

/-- Every worker that ends without an exception leaves its item accounted for, holds the cursor back,
or had no key to work with. -/
theorem syncItem_left (s : World T) :
    wp (workerSpec T) (syncItem d at_ item) (postOk (Left d at_.folder at_.index item)) s := by
  unfold syncItem
  split
  · rename_i key hkey
    refine wp_seq (any_left (fun r t => ?_) s)
    cases r with
    | error e => trivial
    | ok _ => exact syncKeyed_left (.inl hkey) t
  · rename_i hnone
    refine wp_seq (any_left (fun r t => ?_) s)
    cases r with
    | error e => trivial
    | ok _ => exact syncDerived_left hnone t

end Worker

section Pass

variable [FolderLike Folder] (d)

/-- What is owed to the items of a folder when its cursor is stored, and to its removals. -/
def AdvanceOk (key : CursorKey) (value : String) (w : World T) : Prop :=
  ∀ n folders folder, w.vars.stage = .folder n → d.listFolders = .ok folders → folders[n]? = some folder →
    key = cursorKey d.scope (collectionPath folder) ∧
      ∃ listing, d.listSince folder (w.cursor key) = .ok listing ∧ value = listing.nextCursor ∧
        ((∀ j item, listing.items[j]? = some item → Accounted d n j item w) ↔
          ∀ item ∈ listing.items, ∃ key, HasKey d item key) ∧
        listing.removed ⊆ w.vars.reportedRemovals

/-- The rules of a pass that keeps its word at every cursor, and keeps `Inv` besides. -/
def cursorRules (Inv : World T → Prop) : Rules (World T) (Cmd T) (Input T) where
  assume _ _ _ := True
  rely := OwnerOnly
  guar c s t := (∀ key value, c = .cursorSet key value → AdvanceOk d key value s) ∧ (Inv s → Inv t)
  refl := OwnerOnly.refl
  trans := OwnerOnly.trans

/-- The pass is at a folder, has noted its removals, and has marked no item of it that it had no key for. -/
structure InFolder (n : ℕ) (listing : Listing Item) (key : CursorKey) (cur : Option String) (w : World T) :
    Prop where
  stage : w.vars.stage = .folder n
  cursor : w.cursor key = cur
  handled : ∀ j item, listing.items[j]? = some item → (n, j) ∈ w.vars.handled → ∃ key, HasKey d item key
  removed : listing.removed ⊆ w.vars.reportedRemovals
  before : ∀ p ∈ w.vars.handled, p.1 < n + 1

def InLoop (w : World T) : Prop := w.vars.stage = .listing ∨ ∃ n, w.vars.stage = .folder n

structure Before (n : ℕ) (w : World T) : Prop where
  stage : InLoop w
  handled : ∀ p ∈ w.vars.handled, p.1 < n

variable {d} {Inv : World T → Prop} {listing : Listing Item} {key : CursorKey} {cur : Option String}

omit [FolderLike Folder] in
theorem InFolder.of_eq {s t : World T} (h : InFolder d n listing key cur s) (hv : t.vars = s.vars)
    (hc : t.1.cursors = s.1.cursors) : InFolder d n listing key cur t where
  stage := by rw [hv]; exact h.stage
  cursor := by rw [World.cursor, hc]; exact h.cursor
  handled := by rw [hv]; exact h.handled
  removed := by rw [hv]; exact h.removed
  before := by rw [hv]; exact h.before

omit [FolderLike Folder] in
theorem InFolder.owner {s t : World T} (h : InFolder d n listing key cur s) (ho : OwnerOnly s t) :
    InFolder d n listing key cur t := h.of_eq ho.vars ho.2.1

omit [FolderLike Folder] in
theorem InFolder.toBefore {w : World T} (h : InFolder d n listing key cur w) : Before (n + 1) w where
  stage := .inr ⟨n, h.stage⟩
  handled := h.before

theorem InLoop.owner {s t : World T} (h : InLoop s) (ho : OwnerOnly s t) : InLoop t := by
  rw [InLoop, ho.vars]
  exact h

theorem Before.owner {s t : World T} (h : Before n s) (ho : OwnerOnly s t) : Before n t where
  stage := h.stage.owner ho
  handled := by rw [ho.vars]; exact h.handled

variable (d Inv) in
def folderShares (n : ℕ) (listing : Listing Item) (key : CursorKey) (cur : Option String) :
    (cursorRules d Inv).Shares where
  guar _ s t := InFolder d n listing key cur s → InFolder d n listing key cur t
  rely _ s t := Grows s t ∧ (InFolder d n listing key cur s → InFolder d n listing key cur t)
  refl _ s := ⟨Grows.refl s, id⟩
  trans h h' := ⟨h.1.trans h'.1, fun hs => h'.2 (h.2 hs)⟩
  env _ _ _ h := ⟨Grows.ofOwner h, fun hs => hs.owner h⟩

omit [FolderLike Folder] in
theorem worker_step (key : CursorKey) (cur : Option String) {at_ : Place} {keys : String → Prop}
    (hat : at_.folder = n) (hitem : listing.items[at_.index]? = some item) {c : Cmd T}
    (hc : (workerVocabulary d at_ item keys).asks c) (i : Input T) (w : World T) :
    Grows w (w.exec i c).2 ∧
      (InFolder d n listing key cur w → InFolder d n listing key cur (w.exec i c).2) := by
  have hrows : ∀ k row, w.row k = some row → ∃ row', (w.exec i c).2.row k = some row' ∧
      row'.domain = row.domain ∧ row.attemptCount ≤ row'.attemptCount := fun _ _ h => exec_attempts h
  obtain ⟨f, rfl⟩ | hvars := exec_vars i w c
  · have hv : WorkerVars d at_ item w.vars (f w.vars) := hc w.vars
    refine ⟨⟨?_, hv.failures, hrows⟩, fun h => ⟨hv.stage.trans h.stage, h.cursor, ?_, ?_, ?_⟩⟩
    · change w.vars.handled ⊆ (f w.vars).handled
      obtain heq | ⟨-, heq⟩ := hv.handled
      · rw [heq]
        exact List.Subset.refl _
      · rw [heq]
        exact List.subset_cons_self _ _
    · intro j x hx hmem
      change (n, j) ∈ (f w.vars).handled at hmem
      obtain heq | ⟨hkey, heq⟩ := hv.handled
      · rw [heq] at hmem
        exact h.handled j x hx hmem
      · rw [heq, List.mem_cons, Prod.mk.injEq] at hmem
        obtain ⟨-, rfl⟩ | hmem := hmem
        · rw [hitem, Option.some.injEq] at hx
          rwa [← hx]
        · exact h.handled j x hx hmem
    · change listing.removed ⊆ (f w.vars).reportedRemovals
      rw [hv.reportedRemovals]
      exact h.removed
    · intro p hp
      change p ∈ (f w.vars).handled at hp
      obtain heq | ⟨-, heq⟩ := hv.handled
      · rw [heq] at hp
        exact h.before p hp
      · rw [heq, List.mem_cons] at hp
        obtain rfl | hp := hp
        · exact hat ▸ Nat.lt_succ_self _
        · exact h.before p hp
  · obtain ⟨k, value, rfl⟩ | hcursors := exec_cursors i w c
    · exact hc.elim
    · refine ⟨⟨?_, ?_, hrows⟩, fun h => h.of_eq hvars hcursors⟩
      · rw [hvars]
        exact List.Subset.refl _
      · rw [hvars]
        exact List.Subset.refl _

section Inv

variable (hInv : ∀ w : World T, InLoop w → Inv w)
include hInv

theorem worker_wp {folder : Folder} {id : String} {p : Task T Unit}
    (h : (workers d folder n id listing.items)[j]? = some p) {s : World T}
    (hin : InFolder d n listing key cur s) :
    wp (callSpec (machine T) ((folderShares d Inv n listing key cur).rules j)) p
      (postOk fun t => ∀ item, listing.items[j]? = some item → Left d n j item t) s := by
  obtain ⟨item, hitem, rfl⟩ := worker_getElem? h
  refine wp_of_free _ ?_ ?_
  · have hleft : wp (workerSpec T) (syncItem d (place folder n id j) item) (postOk (Left d n j item)) s :=
      syncItem_left s
    refine wp_mono (callSpec_mono _ _) _ _ _ ?_ s (wp_weaken _ ?_ ?_ ?_ hleft)
    rotate_left
    · exact fun _ _ _ h => h
    · exact fun _ _ h => h.1
    · exact fun _ _ _ h => h
    intro r t hr
    cases r with
    | error e => trivial
    | ok _ =>
      intro x hx
      rw [hitem, Option.some.injEq] at hx
      exact hx ▸ hr
  · refine wp_mono (callSpec_mono _ _) _ _ _ (fun _ _ _ => trivial) s
      (Emits.wp (InFolder d n listing key cur) (fun c i w => exec_hears i w c) ?_ ?_
        (syncItem_emits (recordsUnder_any d item)) hin)
    · exact fun s t hs hst => hst.2 hs
    intro c i w hc _ hw
    have hstep := worker_step key cur rfl hitem hc i w
    refine ⟨⟨⟨⟨?_, fun _ => hInv _ (hstep.2 hw).toBefore.stage⟩, hstep.2⟩, fun _ _ => hstep⟩, hstep.2 hw⟩
    rintro k value rfl
    exact hc.elim

omit hInv in
theorem InFolder.reach {s t : World T} (h : (folderShares d Inv n listing key cur).joint.Reach s t)
    (hs : InFolder d n listing key cur s) : InFolder d n listing key cur t := by
  refine h.keeps ?_ hs
  rintro s t (ho | ⟨c, -, hg⟩) hin
  · exact hin.owner ho
  · exact hg hin

omit hInv [FolderLike Folder] in
theorem accounted_iff {w : World T} (hin : InFolder d n listing key cur w)
    (hleft : ∀ j item, listing.items[j]? = some item → Left d n j item w)
    (hfailures : ∀ f ∈ w.vars.failures, f.needsDecision = true) :
    (∀ j item, listing.items[j]? = some item → Accounted d n j item w) ↔
      ∀ item ∈ listing.items, ∃ key, HasKey d item key := by
  constructor
  · intro h item hmem
    obtain ⟨j, hj⟩ := List.mem_iff_getElem?.mp hmem
    obtain hhandled | ⟨key, row, hkey, -⟩ := h j item hj
    · exact hin.handled j item hj hhandled
    · exact ⟨key, hkey⟩
  · intro h j item hj
    obtain hacc | ⟨f, hf, hn⟩ | hkey := hleft j item hj
    · exact hacc
    · rw [hfailures f hf] at hn
      cases hn
    · exact absurd (h item (List.mem_of_getElem? hj)) hkey

variable {folders : List Folder} {folder : Folder}

omit hInv in
theorem same_guar {c : Cmd T} {w : World T} (hc : ∀ key value, c ≠ .cursorSet key value) :
    (cursorRules d Inv).guar c w w := ⟨fun key value h => absurd h (hc key value), id⟩

theorem modify_guar {f : PassVars → PassVars} {w t : World T} (ht : InLoop t) :
    (cursorRules d Inv).guar (.modify f) w t := ⟨by rintro _ _ ⟨⟩, fun _ => hInv t ht⟩

theorem advanceCursor_wp (hfolders : d.listFolders = .ok folders) (hfolder : folders[n]? = some folder)
    {s : World T} (hin : InFolder d n listing (cursorKey d.scope (collectionPath folder)) cur s)
    (hcur : d.cursors = true → d.listSince folder cur = .ok listing)
    (hleft : ∀ j item, listing.items[j]? = some item → Left d n j item s) :
    wp (callSpec (machine T) (cursorRules d Inv)) (advanceCursor d folder listing.nextCursor)
      (postOk (Before (n + 1))) s := by
  have hstable : ∀ t u : World T, (OwnerOnly s t) → (cursorRules d Inv).rely t u → OwnerOnly s u :=
    fun _ _ h h' => h.trans h'
  refine wp_seq ((wp_perform _ _ _ _).mpr (callSpec_intro _ hstable (OwnerOnly.refl s) fun t i ht _ => ?_))
  refine ⟨same_guar (by simp), ?_⟩
  change wp _ (if _ then _ else _) _ t
  split
  · rename_i hcond
    rw [Bool.and_eq_true, Bool.not_eq_true', List.any_eq_false] at hcond
    refine (wp_perform _ _ _ _).mpr (callSpec_intro _ hstable ht fun u i hu _ => ?_)
    have hu' := hin.owner hu
    have hvars : (u.exec i (.cursorSet (cursorKey d.scope (collectionPath folder)) listing.nextCursor)).2.vars =
        u.vars := by
      obtain ⟨f, hf⟩ | hvars := exec_vars i u
        (.cursorSet (cursorKey d.scope (collectionPath folder)) listing.nextCursor)
      · cases hf
      · exact hvars
    have hbefore : Before (n + 1)
        (u.exec i (.cursorSet (cursorKey d.scope (collectionPath folder)) listing.nextCursor)).2 :=
      ⟨by rw [InLoop, hvars]; exact hu'.toBefore.stage, by rw [hvars]; exact hu'.before⟩
    refine ⟨⟨?_, fun _ => hInv _ hbefore.stage⟩, ?_⟩
    · rintro key value ⟨⟩ n' folders' folder' hstage hfolders' hfolder'
      rw [hu'.stage] at hstage
      cases hstage
      rw [hfolders] at hfolders'
      cases hfolders'
      rw [hfolder] at hfolder'
      cases hfolder'
      refine ⟨rfl, listing, ?_, rfl, accounted_iff hu' ?_ ?_, hu'.removed⟩
      · rw [hu'.cursor]
        exact hcur hcond.1
      · exact fun j item hj => (Grows.ofOwner hu).left (hleft j item hj)
      · intro f hf
        rw [hu.vars, ← ht.vars] at hf
        have hnot := hcond.2 f hf
        simpa using hnot
    · change postOk (Before (n + 1)) (u.exec i (.cursorSet _ _)).1 (u.exec i (.cursorSet _ _)).2
      cases (u.exec i (.cursorSet (cursorKey d.scope (collectionPath folder)) listing.nextCursor)).1 with
      | error e => trivial
      | ok _ => exact hbefore
  · exact (hin.owner ht).toBefore

theorem enumerateCollection_wp (folder : Folder) (prev : Option String) {s : World T}
    (hin : InFolder d n listing key cur s) :
    wp (callSpec (machine T) (cursorRules d Inv)) (enumerateCollection d folder prev)
      (postOk (InFolder d n listing key cur)) s := by
  have hmodify : ∀ f : PassVars → PassVars,
      (∀ v, (f v).stage = v.stage ∧ (f v).handled = v.handled ∧ (f v).reportedRemovals = v.reportedRemovals) →
      wp (callSpec (machine T) (cursorRules d Inv)) (Task.modify f)
        (postOk (InFolder d n listing key cur)) s := by
    intro f hf
    refine (wp_perform _ _ _ _).mpr (callSpec_intro (P := InFolder d n listing key cur) _
      (fun _ _ h h' => InFolder.owner h h') hin fun t i ht _ => ?_)
    have hafter : InFolder d n listing key cur (t.setVars (f t.vars)) := by
      obtain ⟨hstage, hhandled, hremovals⟩ := hf t.vars
      refine ⟨hstage.trans ht.stage, ht.cursor, fun j item hj hmem => ?_, ?_, fun p hp => ?_⟩
      · rw [World.setVars_vars, hhandled] at hmem
        exact ht.handled j item hj hmem
      · rw [World.setVars_vars, hremovals]
        exact ht.removed
      · rw [World.setVars_vars, hhandled] at hp
        exact ht.before p hp
    exact ⟨modify_guar hInv hafter.toBefore.stage, hafter⟩
  unfold enumerateCollection
  split
  · split
    · exact hmodify _ fun _ => ⟨rfl, rfl, rfl⟩
    · exact hmodify _ fun _ => ⟨rfl, rfl, rfl⟩
  · split
    · exact hmodify _ fun _ => ⟨rfl, rfl, rfl⟩
    · exact hin

theorem syncFolder_wp (hfolders : d.listFolders = .ok folders) (hfolder : folders[n]? = some folder)
    {s : World T} (hs : Before n s) :
    wp (mainSpec (machine T) (cursorRules d Inv)) (syncFolder d folder n) (postOk (Before (n + 1))) s := by
  refine wp_seq ((wp_lift _ _ _ _).mpr ((wp_ofExcept _ _ _ _).mpr ?_))
  cases d.ensureCollection folder with
  | error e => trivial
  | ok id =>
  -- from here on the cursor the poll started from is the one that is stored
  have hpoll : ∀ prev (t : World T), Before n t →
      (d.cursors = true → prev = t.cursor (cursorKey d.scope (collectionPath folder))) →
      wp (mainSpec (machine T) (cursorRules d Inv))
        ((Main.lift (Prog.ofExcept (d.listSince folder prev))).bind fun listing =>
          (Main.lift (Task.modify fun v =>
            { v with stage := .folder n, reportedRemovals := v.reportedRemovals ++ listing.removed })).bind fun _ =>
          (Main.lift (enumerateCollection d folder prev)).bind fun _ =>
          (Main.mapWithConcurrency d.concurrency (workers d folder n id listing.items)).bind fun _ =>
          Main.lift (advanceCursor d folder listing.nextCursor)) (postOk (Before (n + 1))) t := by
    intro prev t ht hprev
    refine wp_seq ((wp_lift _ _ _ _).mpr ((wp_ofExcept _ _ _ _).mpr ?_))
    cases hlisting : d.listSince folder prev with
    | error e => trivial
    | ok listing =>
    have hcur : d.cursors = true →
        d.listSince folder (t.cursor (cursorKey d.scope (collectionPath folder))) = .ok listing := by
      intro h
      rw [← hprev h]
      exact hlisting
    refine wp_seq ((wp_lift _ _ _ _).mpr ((wp_perform _ _ _ _).mpr fun u hu i _ => ?_))
    have hin : InFolder d n listing (cursorKey d.scope (collectionPath folder))
        (t.cursor (cursorKey d.scope (collectionPath folder)))
        (u.setVars { u.vars with
          stage := .folder n, reportedRemovals := u.vars.reportedRemovals ++ listing.removed }) := by
      refine ⟨rfl, OwnerOnly.cursor hu _, fun j item _ hmem => ?_, List.subset_append_right _ _, fun p hp => ?_⟩
      · exact absurd ((ht.owner hu).handled _ hmem) (Nat.lt_irrefl n)
      · exact Nat.lt_succ_of_lt ((ht.owner hu).handled p hp)
    refine ⟨modify_guar hInv hin.toBefore.stage, ?_⟩
    refine wp_seq ((wp_lift _ _ _ _).mpr (wp_mono (callSpec_mono _ _) _ _ _ ?_ _
      (enumerateCollection_wp hInv folder prev hin)))
    intro r x hx
    cases r with
    | error e => trivial
    | ok _ =>
    refine wp_seq ((wp_perform _ _ _ _).mpr fun y hy => ?_)
    have hy' := InFolder.owner hx hy
    refine ⟨folderShares d Inv n listing (cursorKey d.scope (collectionPath folder))
        (t.cursor (cursorKey d.scope (collectionPath folder))),
      fun j t => ∀ item, listing.items[j]? = some item → Left d n j item t,
      fun j s t h hg item hitem => Grows.left hg.1 (h item hitem), fun j p hp => worker_wp hInv hp hy',
      fun z hz hpost => (wp_lift _ _ _ _).mpr ?_, fun _ _ _ => trivial⟩
    refine advanceCursor_wp hInv hfolders hfolder (InFolder.reach hz hy') hcur ?_
    intro j item hj
    have hlt : j < (workers d folder n id listing.items).length := by
      rw [workers, List.length_map, List.length_zipIdx]
      exact (List.getElem?_eq_some_iff.mp hj).1
    exact hpost j hlt item hj
  refine wp_seq ((wp_lift _ _ _ _).mpr ?_)
  unfold previousCursor
  split
  · refine (wp_perform _ _ _ _).mpr fun t ht i _ => ?_
    change (cursorRules d Inv).guar _ t (t.exec i (.cursorGet _)).2 ∧
      andThen _ _ _ (t.exec i (.cursorGet _)).1 (t.exec i (.cursorGet _)).2
    cases hf : i.fault with
    | some reason =>
      simp only [World.exec, World.query, hf]
      exact ⟨same_guar (by simp), trivial⟩
    | none =>
      simp only [World.exec, World.query, hf]
      exact ⟨same_guar (by simp), hpoll _ t (hs.owner ht) fun _ => rfl⟩
  · rename_i hno
    exact hpoll none s hs fun h => absurd h hno

theorem syncFolders_wp {s : World T} (hs : Before 0 s) :
    wp (mainSpec (machine T) (cursorRules d Inv)) (syncFolders d)
      (postOk InLoop) s := by
  refine wp_seq ((wp_lift _ _ _ _).mpr ((wp_ofExcept _ _ _ _).mpr ?_))
  cases hfolders : d.listFolders with
  | error e => trivial
  | ok folders =>
    -- what is left of the folders is what follows the ones that are through
    refine wp_forEach (mainSpec_mono _ _) _ _
      (fun xs t => ∃ n, xs = folders.zipIdx.drop n ∧ Before n t) _ (fun _ h => h.choose_spec.2.stage) ?_ s
      ⟨0, rfl, hs⟩
    rintro ⟨folder, m⟩ rest t ⟨n, hdrop, ht⟩
    have hx : folders.zipIdx[n]? = some (folder, m) := by
      rw [← List.head?_drop, ← hdrop]
      rfl
    obtain ⟨hfolder, rfl⟩ : folders[n]? = some folder ∧ n = m := by
      rw [List.getElem?_zipIdx, Option.map_eq_some_iff] at hx
      obtain ⟨x, hx, he⟩ := hx
      simp only [Prod.mk.injEq, Nat.zero_add] at he
      exact ⟨he.1 ▸ hx, he.2⟩
    refine wp_mono (mainSpec_mono _ _) _ _ _ ?_ t (syncFolder_wp hInv hfolders hfolder ht)
    intro r u hu
    cases r with
    | error e => trivial
    | ok _ =>
      refine ⟨n + 1, ?_, hu⟩
      rw [← List.tail_drop, ← hdrop]
      rfl

omit hInv [FolderLike Folder] in
theorem end_vars_eq {scans : Prop} {seen : String → Prop} {c : Cmd T}
    (hc : (endVocabulary d scans seen).asks c) (i : Input T) (w : World T) :
    EndVars w.vars (w.exec i c).2.vars := by
  obtain ⟨f, rfl⟩ | hvars := exec_vars i w c
  · exact hc w.vars
  · rw [hvars]
    exact ⟨rfl, rfl, rfl, rfl, rfl, rfl, rfl, rfl⟩

omit hInv in
theorem end_wp (scans : Prop) {seen : String → Prop} {P : World T → Prop}
    (hP : ∀ s t, P s → OwnerOnly s t → P t)
    (hstage : ∀ w n, P w → w.vars.stage ≠ .folder n)
    (hend : ∀ c i w, (endVocabulary d scans seen).asks c → P w →
      P (w.exec i c).2 ∧ (Inv w → Inv (w.exec i c).2))
    {α : Type} {p : Task T α} (hp : Emits (endVocabulary d scans seen) p (fun _ => True)) {s : World T} (hs : P s) :
    wp (callSpec (machine T) (cursorRules d Inv)) p (postOk P) s := by
  refine wp_mono (callSpec_mono _ _) _ _ _ ?_ s
    (Emits.wp P (fun c i w => exec_hears i w c) (fun s t h ho => hP s t h ho) ?_ hp hs)
  · intro r t ht
    cases r with
    | error e => trivial
    | ok a => exact ht.2
  · intro c i w hc _ hw
    obtain ⟨hafter, hinv⟩ := hend c i w hc hw
    refine ⟨⟨?_, hinv⟩, hafter⟩
    rintro key value - n folders folder hn
    exact absurd hn (hstage w n hw)

omit hInv in
theorem main_wp {α β : Type} {p : Task T α} {f : α → MainTask T β} {P : World T → Prop} {s : World T}
    (hp : wp (callSpec (machine T) (cursorRules d Inv)) p (postOk P) s)
    (hf : ∀ a t, P t → wp (mainSpec (machine T) (cursorRules d Inv)) (f a) (fun _ _ => True) t) :
    wp (mainSpec (machine T) (cursorRules d Inv)) ((Main.lift p).bind f) (fun _ _ => True) s := by
  refine wp_seq ((wp_lift _ _ _ _).mpr (wp_mono (callSpec_mono _ _) _ _ _ ?_ s hp))
  intro r t ht
  cases r with
  | error e => trivial
  | ok a => exact hf a t ht

/-- Every cursor that a pass stores for a folder is stored with what is owed to the folder's items, and
the pass keeps `Inv` if each stage of its end does. -/
theorem runDomainSync_wp {A B : World T → Prop}
    (hremovals : ∀ s : World T, InLoop s → wp (callSpec (machine T) (cursorRules d Inv))
      (resolveRemovals d) (postOk A) s)
    (hbins : ∀ s, A s → wp (callSpec (machine T) (cursorRules d Inv)) (readBins d) (postOk B) s)
    (hmoves : ∀ s, B s → wp (callSpec (machine T) (cursorRules d Inv)) (detectMoves d) (fun _ _ => True) s)
    {s : World T} (hs : Before 0 s) :
    wp (mainSpec (machine T) (cursorRules d Inv)) (runDomainSync d) (fun _ _ => True) s := by
  refine wp_seq (wp_mono (mainSpec_mono _ _) _ _ _ ?_ s (syncFolders_wp hInv hs))
  intro r t ht
  cases r with
  | error e => trivial
  | ok _ =>
  refine main_wp (hremovals t ht) fun _ u hu => main_wp (hbins u hu) fun _ v hv => ?_
  refine main_wp (P := fun _ => True) ?_ fun _ _ _ => main_wp (P := fun _ => True) ?_ fun _ _ _ => trivial
  · refine wp_mono (callSpec_mono _ _) _ _ _ ?_ v (hmoves v hv)
    intro r _ _
    cases r <;> trivial
  · exact (wp_perform _ _ _ _).mpr fun _ _ _ _ => ⟨same_guar (by simp), trivial⟩

end Inv

theorem before_start (store : Store T) : Before 0 ((store, PassState.fresh T) : World T) :=
  ⟨.inl rfl, by simp [World.vars, PassState.fresh]⟩

theorem pass_kept {p : Pass T Item Folder Raw} {store : Store T}
    (h : wp (mainSpec (machine T) (cursorRules p.deps Inv)) (runDomainSync p.deps) (fun _ _ => True)
      (store, PassState.fresh T)) :
    ∀ ev ∈ p.trace store, ev.Kept (machine T) (cursorRules p.deps Inv) := by
  have hgood : Conf.Good (machine T) (cursorRules p.deps Inv) (fun _ _ => True) (p.start store) := h
  refine (hgood.run (machine T) _ (fun _ _ _ _ _ => trivial) p.choices ?_).1
  intro ev _
  cases ev with
  | exec => trivial
  | act a w => exact OwnerOnly.act a w

theorem runDomainSync_advances (store : Store T) :
    wp (mainSpec (machine T) (cursorRules d fun _ => True)) (runDomainSync d) (fun _ _ => True)
      (store, PassState.fresh T) := by
  have hP : ∀ s t : World T, s.vars.stage = .resolved → OwnerOnly s t → t.vars.stage = .resolved := by
    intro s t h ho
    rw [ho.vars]
    exact h
  have hend : ∀ c i (w : World T), (endVocabulary d True fun _ => True).asks c → w.vars.stage = .resolved →
      (w.exec i c).2.vars.stage = .resolved ∧ (True → True) := fun c i w hc hw =>
    ⟨(end_vars_eq hc i w).stage.trans hw, id⟩
  have hstage : ∀ (w : World T) n, w.vars.stage = .resolved → w.vars.stage ≠ .folder n := by
    intro w n h
    rw [h]
    simp
  refine runDomainSync_wp (A := fun w => w.vars.stage = .resolved) (B := fun w => w.vars.stage = .resolved)
    (fun _ _ => trivial) ?_ ?_ ?_ (before_start store)
  · intro s hs
    refine wp_seq ((wp_perform _ _ _ _).mpr fun t _ i _ => ⟨same_guar (by simp), ?_⟩)
    have hemits : Emits (endVocabulary d False fun _ => True) (resolveReportedRemovals d.scope (seenAnywhere t.vars)
        (newSet t.vars.reportedRemovals) []) (fun _ => True) := resolveReportedRemovals_emits _ _ _
    refine wp_seq (wp_mono (callSpec_mono _ _) _ _ _ ?_ t
      (Emits.wp (fun _ => True) (fun c i w => exec_hears i w c) (fun _ _ _ _ => trivial) ?_ hemits trivial))
    · intro r u _
      cases r with
      | error e => trivial
      | ok reported => exact fun v _ _ _ => ⟨⟨by rintro _ _ ⟨⟩, fun _ => trivial⟩, rfl⟩
    · intro c i w hc _ _
      refine ⟨⟨?_, fun _ => trivial⟩, trivial⟩
      rintro key value rfl
      exact hc.1.elim
  · exact fun s hs => end_wp True hP hstage hend (readBins_emits trivial) hs
  · intro s hs
    refine wp_mono (callSpec_mono _ _) _ _ _ (fun _ _ _ => trivial) s
      (end_wp True hP hstage hend (detectMoves_emits fun _ => trivial) hs)

/-- When a pass stores a cursor for a folder, every item the folder listed has reached an outcome other
than failure or is parked, exactly when every listed item has a natural key that the pass could find. -/
theorem cursor_advance_iff (p : Pass T Item Folder Raw) (store : Store T) {th : Option ℕ}
    {key : CursorKey} {value : String} {i : Input T} {w : World T}
    (hev : Event.exec th (.cursorSet key value) i w ∈ p.trace store)
    {n : ℕ} (hstage : w.vars.stage = .folder n) {folders : List Folder} {folder : Folder}
    (hfolders : p.deps.listFolders = .ok folders) (hfolder : folders[n]? = some folder) :
    key = cursorKey p.deps.scope (collectionPath folder) ∧
      ∃ listing, p.deps.listSince folder (w.cursor key) = .ok listing ∧ value = listing.nextCursor ∧
        ((∀ j item, listing.items[j]? = some item → Accounted p.deps n j item w) ↔
          ∀ item ∈ listing.items, ∃ key, HasKey p.deps item key) := by
  obtain ⟨hkey, listing, hlisting, hvalue, hiff, -⟩ :=
    (pass_kept (runDomainSync_advances store) _ hev).1 key value rfl n folders folder hstage hfolders hfolder
  exact ⟨hkey, listing, hlisting, hvalue, hiff⟩

end Pass

section Sample

open Dav

def mailDeps : ReconcileDeps (api Sample.endpoint) where
  tenantId := "t"
  mappingId := "m"
  cursors := true
  ensureMailbox folder := .ok folder.path
  upsertEmail _ _ _ := .ret { targetId := "1", created := true }
  upsertEmail_asks _ _ _ := trivial

def inbox : MailFolder where
  path := "INBOX"
  specialUse := .inbox

/-- One message without a Message-ID, which cannot be read. -/
def unreadable : SourceConnector where
  listFolders := .ok [inbox]
  listSince _ _ := .ok ⟨[{ messageId := "", sourceRef := "INBOX:1" }], "2", []⟩
  fetch _ := .error (.error "connection reset")

def unreadablePass : Pass (api Sample.endpoint) MailItem MailFolder (List Char) where
  deps := shadowPass Sample.sha256Hex Sample.contentHash mailDeps unreadable
  choices := List.replicate 15 (.run 0 Sample.input)

def storeOf : Event (World T) (Cmd T) (Input T) T.Act → Option (String × Stage × List (ℕ × ℕ) × ℕ)
  | .exec _ (.cursorSet key _) _ w =>
    some (key.folderPath, w.vars.stage, w.vars.handled, w.1.ledger.entries.length)
  | _ => none

theorem unreadable_stores : (unreadablePass.trace Sample.store).filterMap storeOf = [("INBOX", .folder 0, [], 0)] := by
  decide +kernel

theorem unreadable_event : ∃ th key value i w,
    Event.exec th (.cursorSet key value) i w ∈ unreadablePass.trace Sample.store ∧ key.folderPath = "INBOX" ∧
      w.vars.stage = .folder 0 ∧ w.vars.handled = [] ∧ w.1.ledger = ∅ := by
  have hmem : ("INBOX", Stage.folder 0, [], 0) ∈ (unreadablePass.trace Sample.store).filterMap storeOf := by
    rw [unreadable_stores]
    exact List.mem_singleton.mpr rfl
  obtain ⟨ev, hev, hf⟩ := List.mem_filterMap.mp hmem
  unfold storeOf at hf
  split at hf
  · rename_i th key value i w
    simp only [Option.some.injEq, Prod.mk.injEq] at hf
    obtain ⟨hkey, hstage, hhandled, hlen⟩ := hf
    refine ⟨th, key, value, i, w, hev, hkey, hstage, hhandled, ?_⟩
    exact AList.ext (List.eq_nil_of_length_eq_zero hlen)
  · cases hf

theorem cursor_advance_iff_unreadable : ∃ th key value i w,
    Event.exec th (.cursorSet key value) i w ∈ unreadablePass.trace Sample.store ∧
      key = cursorKey unreadablePass.deps.scope (collectionPath inbox) ∧
        ∃ listing, unreadablePass.deps.listSince inbox (w.cursor key) = .ok listing ∧ value = listing.nextCursor ∧
          ((∀ j item, listing.items[j]? = some item → Accounted unreadablePass.deps 0 j item w) ↔
            ∀ item ∈ listing.items, ∃ key, HasKey unreadablePass.deps item key) := by
  obtain ⟨th, key, value, i, w, hev, -, hstage, -⟩ := unreadable_event
  exact ⟨th, key, value, i, w, hev, cursor_advance_iff unreadablePass Sample.store hev hstage rfl rfl⟩

/-- The cursor moves past a message that was neither copied nor recorded. -/
theorem cursor_passes_unreadable_item : ¬ ∀ th key value i w,
    Event.exec th (.cursorSet key value) i w ∈ unreadablePass.trace Sample.store → w.vars.stage = .folder 0 →
      ∀ listing, unreadablePass.deps.listSince inbox (w.cursor key) = .ok listing →
        ∀ j item, listing.items[j]? = some item → Accounted unreadablePass.deps 0 j item w := by
  intro h
  obtain ⟨th, key, value, i, w, hev, -, hstage, hhandled, hledger⟩ := unreadable_event
  obtain hmem | ⟨key', row, -, hrow, -⟩ :=
    h th key value i w hev hstage _ rfl 0 { messageId := "", sourceRef := "INBOX:1" } rfl
  · rw [hhandled] at hmem
    cases hmem
  · rw [World.row, hledger] at hrow
    cases hrow

end Sample

end OpenMigrate
