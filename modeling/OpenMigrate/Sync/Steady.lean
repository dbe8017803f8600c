import OpenMigrate.Sync.Passes

namespace OpenMigrate

open Async Prog PgLedger

variable {T : TargetApi} {Item Folder Raw : Type}

/-- What an operation leaves of a mapping whose items are all where `shows` has them. -/
def LedgerOp.Stays (scope : Scope) (shows : String → String → Prop) : LedgerOp → Prop
  | .recordIfAbsent r => r.scope = scope → ∀ c ∈ r.collection, shows c r.naturalKeyHash
  | .recordUpdate r => r.scope = scope → ∀ c ∈ r.collection, shows c r.naturalKeyHash
  | .recordFailure r _ => r.collection = none
  | .recordMove .. => False
  | _ => True

def steadyVocabulary (scope : Scope) (shows : String → String → Prop) (polls : String → Option String → Prop) :
    Vocabulary (Cmd T) Cmd.Resp PassError where
  asks
    | .ledger op => op.Stays scope shows
    | .cursorSet key value => key = cursorKey scope key.folderPath → polls key.folderPath (some value)
    | .modify f => ∀ v, (f v).moves = v.moves
    | _ => True
  hears
    | .ledger (.find s key), .ok (some known) =>
      (known.scope = s ∧ known.naturalKeyHash = key) ∧ (s = scope → ∀ c ∈ known.collection, shows c key)
    | .ledger (.findBySourceRef s _), .ok (some known) => known.scope = s
    | .ledger (.placedItems s), .ok rows => s = scope → ∀ x ∈ rows,
        shows x.collection x.naturalKeyHash ∧ x.movedToCollection = none
    | .cursorGet key, .ok prev => key = cursorKey scope key.folderPath → polls key.folderPath prev
    | _, _ => True

/-- A source that shows an item in one collection only, however it is polled, and the whole of a folder when
nothing is known of it. -/
structure Steady [FolderLike Folder] (d : DomainSyncDeps T Item Folder Raw) (shows : String → String → Prop)
    (polls : String → Option String → Prop) : Prop where
  one : ∀ c c' key, shows c key → shows c' key → c = c'
  listed : ∀ at_ item, PolledAt d polls at_ item → ∀ key, HasKey d item key → shows at_.collectionPath key
  records : ∀ at_ item, PolledAt d polls at_ item → RecordsUnder d item (HasKey d item)
  first : ∀ path, polls path none
  next : ∀ folders folder prev listing, d.listFolders = .ok folders → folder ∈ folders →
    polls (collectionPath folder) prev → d.listSince folder prev = .ok listing →
    polls (collectionPath folder) (some listing.nextCursor)
  whole : d.scope.domain = .file → ∀ folders, d.listFolders = .ok folders → ∀ c key, shows c key →
    ∃ folder ∈ folders, collectionPath folder = c ∧
      match d.listCollectionKeys with
      | some listCollectionKeys => ∀ keys, listCollectionKeys folder = .ok keys → key ∈ keys
      | none => ∀ listing, d.listSince folder none = .ok listing → ∃ item ∈ listing.items, d.naturalKey item = some key
  bins : ∀ p ∈ d.listDiscardedKeys, Emits (steadyVocabulary d.scope shows polls) p (fun _ => True)

/-- No item of the mapping has moved, in the ledger or by the pass's account. -/
structure Calm (scope : Scope) (shows : String → String → Prop) (polls : String → Option String → Prop)
    (w : World T) : Prop where
  rows : ∀ key row, row? w.1.ledger scope key = some row →
    (row.collection = "" ∨ shows row.collection key) ∧ row.movedToCollection = none
  cursors : ∀ path, polls path (w.cursor (cursorKey scope path))
  moves : w.vars.moves = []

variable {scope : Scope} {shows : String → String → Prop} {polls : String → Option String → Prop}

section Ledger

theorem writes_of_aims {op : LedgerOp} {key : String} (h : op.aimsAt (scope.key key) scope.domain) :
    op.writes? = some (scope, key) := by
  obtain ⟨⟨t, m, dom⟩, k, hw, hkey, hdomain⟩ := h
  obtain ⟨t', m', dom'⟩ := scope
  simp only [Scope.key, ItemKey.mk.injEq] at hkey
  obtain ⟨rfl, rfl, rfl⟩ := hkey
  subst hdomain
  exact hw

theorem sets_stays {op : LedgerOp} (hop : op.Stays scope shows) {key : String} (haim : op.aimsAt (scope.key key) scope.domain)
    (L : Ledger) (now : Instant) {row : ItemRow}
    (hrow : (row.collection = "" ∨ shows row.collection key) ∧ row.movedToCollection = none) :
    ((op.sets L now row).collection = "" ∨ shows (op.sets L now row).collection key) ∧
      (op.sets L now row).movedToCollection = none := by
  obtain ⟨hplace, hmoved⟩ := hrow
  cases op with
  | recordUpdate r =>
    have hw := writes_of_aims haim
    simp only [LedgerOp.writes?, Option.some.injEq, Prod.mk.injEq] at hw
    obtain ⟨hscope, hk⟩ := hw
    refine ⟨?_, hmoved⟩
    simp only [LedgerOp.sets, updateValues]
    cases hc : r.collection with
    | none => exact hplace
    | some c => exact .inr (hk ▸ hop hscope c hc)
  | recordMove => exact hop.elim
  | clearMove => exact ⟨hplace, rfl⟩
  | recordReportedDeletion | recordTrashedDeletion | clearAbsent | applyDeletion | applyRelocation =>
    simp only [LedgerOp.sets]
    split <;> exact ⟨hplace, hmoved⟩
  | _ => exact ⟨hplace, hmoved⟩

theorem inserts_stays {op : LedgerOp} (hop : op.Stays scope shows) {key : String} {row : ItemRow}
    (hins : op.inserts = some row) (haim : op.aimsAt (scope.key key) scope.domain) :
    (row.collection = "" ∨ shows row.collection key) ∧ row.movedToCollection = none := by
  have hw := writes_of_aims haim
  cases op with
  | recordIfAbsent r =>
    simp only [LedgerOp.writes?, Option.some.injEq, Prod.mk.injEq] at hw
    obtain ⟨hscope, hk⟩ := hw
    obtain rfl : insertValues r = row := Option.some.inj hins
    refine ⟨?_, rfl⟩
    simp only [insertValues]
    cases hc : r.collection with
    | none => exact .inl rfl
    | some c => exact .inr (hk ▸ hop hscope c hc)
  | recordFailure r error =>
    obtain rfl : failureValues r error = row := Option.some.inj hins
    have hnone : r.collection = none := hop
    refine ⟨.inl ?_, rfl⟩
    simp [failureValues, insertValues, hnone]
  | _ => cases hins

theorem exec_rows {op : LedgerOp} (hop : op.Stays scope shows) {L : Ledger} (now : Instant)
    (hrows : ∀ key row, row? L scope key = some row →
      (row.collection = "" ∨ shows row.collection key) ∧ row.movedToCollection = none)
    (key : String) (row : ItemRow) (hrow : row? (exec L now op).2 scope key = some row) :
    (row.collection = "" ∨ shows row.collection key) ∧ row.movedToCollection = none := by
  obtain ⟨hlook, hdomain⟩ := (row?_eq_some _).mp hrow
  cases hbefore : L.lookup (scope.key key) with
  | none =>
    obtain hnone | ⟨row', hins, haim, hafter⟩ := exec_lookup_none L now op hbefore
    · rw [hnone] at hlook
      cases hlook
    · obtain rfl : row' = row := Option.some.inj (hafter.symm.trans hlook)
      exact inserts_stays hop hins (hdomain ▸ haim)
  | some before =>
    obtain ⟨-, hsame⟩ | ⟨haim, hset⟩ := exec_lookup_some L now op hbefore
    · obtain rfl : before = row := Option.some.inj (hsame.symm.trans hlook)
      exact hrows key before ((row?_eq_some L).mpr ⟨hbefore, hdomain⟩)
    · have heq : op.sets L now before = row := Option.some.inj (hset.symm.trans hlook)
      have hdomain' : before.domain = scope.domain := by
        rw [← hdomain, ← heq, sets_domain]
      have hsets := sets_stays hop (hdomain' ▸ haim) L now (hrows key before ((row?_eq_some L).mpr ⟨hbefore, hdomain'⟩))
      rwa [heq] at hsets

end Ledger

section Calm

theorem calm_exec {c : Cmd T} (hc : (steadyVocabulary scope shows polls).asks c) (i : Input T) {w : World T}
    (h : Calm scope shows polls w) : Calm scope shows polls (w.exec i c).2 where
  rows := by
    obtain ⟨-, hsame⟩ | ⟨op, rfl, -, hset⟩ := exec_ledger i w c
    · rw [hsame]
      exact h.rows
    · rw [hset]
      exact exec_rows hc i.now h.rows
  cursors path := by
    obtain ⟨key, value, rfl⟩ | hsame := exec_cursors i w c
    · cases hf : i.fault with
      | some reason => simpa [World.exec, World.query, hf, World.cursor] using h.cursors path
      | none =>
        by_cases hkey : cursorKey scope path = key
        · subst hkey
          have hset : polls path (some value) := hc rfl
          simpa [World.exec, World.query, hf, World.cursor] using hset
        · have hlook : (w.1.cursors.insert key value).lookup (cursorKey scope path) =
              w.1.cursors.lookup (cursorKey scope path) := AList.lookup_insert_ne hkey
          have hcursor := h.cursors path
          simpa [World.exec, World.query, hf, World.cursor, hlook] using hcursor
    · rw [World.cursor, hsame]
      exact h.cursors path
  moves := by
    obtain ⟨f, rfl⟩ | hvars := exec_vars i w c
    · exact (hc w.vars).trans h.moves
    · rw [hvars]
      exact h.moves

theorem calm_owner {s t : World T} (h : Calm scope shows polls s) (ho : OwnerOnly s t) : Calm scope shows polls t where
  rows := by
    rw [ho.1]
    exact h.rows
  cursors path := by
    rw [ho.cursor]
    exact h.cursors path
  moves := by
    rw [ho.vars]
    exact h.moves

theorem calm_placed {L : Ledger} (h : ∀ key row, row? L scope key = some row →
    (row.collection = "" ∨ shows row.collection key) ∧ row.movedToCollection = none) :
    ∀ x ∈ placedItems L scope, shows x.collection x.naturalKeyHash ∧ x.movedToCollection = none := by
  intro x hx
  obtain ⟨⟨k, row⟩, hmem, rfl⟩ := List.mem_map.mp hx
  obtain ⟨hrow, hplaced⟩ := List.mem_filter.mp hmem
  obtain ⟨hplace, hmoved⟩ := h k row ((mem_rows L).mp hrow)
  have hne : row.collection ≠ "" := by
    simp only [placed, Bool.and_eq_true, bne_iff_ne] at hplaced
    exact hplaced.2
  refine ⟨hplace.resolve_left hne, ?_⟩
  simp [hmoved, truthy]

theorem calm_find {L : Ledger} (h : ∀ key row, row? L scope key = some row →
    (row.collection = "" ∨ shows row.collection key) ∧ row.movedToCollection = none) {key : String}
    {known : LedgerRecord} (hknown : find L scope key = some known) : ∀ c ∈ known.collection, shows c key := by
  obtain ⟨row, hrow, rfl⟩ := Option.map_eq_some_iff.mp hknown
  intro c hc
  have htruthy : truthy (some row.collection) = some c := hc
  rw [truthy, Option.filter_eq_some_iff] at htruthy
  obtain ⟨heq, hne⟩ := htruthy
  obtain rfl : row.collection = c := Option.some.inj heq
  exact ((h key row hrow).1).resolve_left (by simpa using hne)

theorem calm_hears (c : Cmd T) (i : Input T) {w : World T} (h : Calm scope shows polls w) :
    (steadyVocabulary scope shows polls).hears c (w.exec i c).1 := by
  have hheard := exec_hears i w c
  cases c with
  | target | cursorSet | modify | vars => trivial
  | cursorGet key =>
    cases hf : i.fault with
    | some reason => simp [World.exec, World.query, hf, steadyVocabulary]
    | none =>
      have hcursor : key = cursorKey scope key.folderPath → polls key.folderPath (w.cursor key) := by
        intro hkey
        rw [hkey]
        exact h.cursors key.folderPath
      simpa [World.exec, World.query, hf, steadyVocabulary] using hcursor
  | ledger op =>
    obtain ⟨reason, -, he⟩ | ⟨-, he⟩ := exec_op i w op
    · rw [he]
      cases op <;> trivial
    · rw [he] at hheard ⊢
      cases op with
      | find s key =>
        cases hk : find w.1.ledger s key with
        | none => simp [exec, hk, Except.mapError, steadyVocabulary]
        | some known =>
          have hscope := find_eq_some w.1.ledger hk
          have hplace : s = scope → ∀ c ∈ known.collection, shows c key := by
            rintro rfl
            exact calm_find h.rows hk
          simpa [exec, hk, Except.mapError, steadyVocabulary] using ⟨hscope, hplace⟩
      | findBySourceRef s ref =>
        cases hk : findBySourceRef w.1.ledger s ref with
        | none => simp [exec, hk, Except.mapError, steadyVocabulary]
        | some known =>
          have hscope := findBySourceRef_scope w.1.ledger hk
          simpa [exec, hk, Except.mapError, steadyVocabulary] using hscope
      | placedItems s =>
        rintro rfl
        exact calm_placed h.rows
      | _ => trivial

end Calm

section Pass

variable [FolderLike Folder] {d : DomainSyncDeps T Item Folder Raw} {at_ : Place} {item : Item}

theorem classifyKnownItem_still {known : LedgerRecord} {p : String} (h : ∀ c ∈ known.collection, c = p)
    (version : Option String) : classifyKnownItem known version (some p) ≠ .moved := by
  have hsame : ¬ (known.collection ≠ none ∧ known.collection ≠ some "" ∧ known.collection ≠ some p) := by
    rintro ⟨hsome, -, hne⟩
    obtain ⟨c, hc⟩ := Option.ne_none_iff_exists'.mp hsome
    exact hne (by rw [hc, h c hc])
  unfold classifyKnownItem
  split_ifs <;> simp_all

theorem steady_worker (h : Steady d shows polls) (hpolled : PolledAt d polls at_ item) :
    Emits (steadyVocabulary d.scope shows polls) (syncItem d at_ item) (fun _ => True) := by
  have hshows := h.listed at_ item hpolled
  have hquiet : Emits (quietVocabulary d at_ item (HasKey d item) fun col => ∀ c ∈ col, c = at_.collectionPath)
      (syncItem d at_ item) (fun _ => True) :=
    syncItem_quiet (h.records at_ item hpolled) fun known hknown => classifyKnownItem_still hknown _
  refine hquiet.weaken ?_ ?_
  · intro c hc
    cases c with
    | ledger op =>
      obtain ⟨hworker, hquiet⟩ := hc
      cases op with
      | recordIfAbsent r =>
        obtain ⟨-, hkey, -, hcol, -⟩ := hworker
        intro _ c hc
        rw [hcol, Option.mem_some_iff] at hc
        subst hc
        exact hshows _ (hkey.elim id id)
      | recordUpdate r =>
        obtain ⟨-, hkey, -⟩ := hworker
        intro _ c hc
        have heq : c = at_.collectionPath := by
          obtain hcol | hcol := hquiet
          · rw [hcol, Option.mem_some_iff] at hc
            exact hc.symm
          · exact hcol c hc
        exact heq ▸ hshows _ hkey
      | recordFailure r => exact hquiet
      | recordMove => exact hquiet.elim
      | _ => trivial
    | modify f => exact fun v => (hc v).2
    | target | vars => trivial
    | cursorGet | cursorSet => exact hc.elim
  · intro c r hr
    cases c with
    | ledger op =>
      cases r with
      | error e => cases op <;> trivial
      | ok a =>
        cases op with
        | find s key =>
          cases a with
          | none => trivial
          | some known =>
            obtain ⟨hscope, hcol⟩ := hr
            exact ⟨hscope, fun hs hkey c hc => h.one _ _ key (hcol hs c hc) (hshows key hkey)⟩
        | findBySourceRef s ref =>
          cases a with
          | none => trivial
          | some known => exact hr
        | _ => trivial
    | _ => trivial

theorem steady_hosts (h : Steady d shows polls) : PollHosts d polls (steadyVocabulary d.scope shows polls) where
  previous folder := by
    unfold previousCursor
    split
    · refine (Emits.perform _ _).mpr ⟨trivial, ?_⟩
      rintro r hr prev rfl
      exact hr rfl
    · rintro prev ⟨⟩
      exact h.first _
  advance folders folder prev listing hfolders hfolder hpoll hlisting := by
    refine Emits.seq ((Emits.perform _ _).mpr ⟨trivial, fun _ _ => trivial⟩) fun v => ?_
    split
    · refine (Emits.perform _ _).mpr ⟨fun _ => ?_, fun _ _ => trivial⟩
      exact h.next folders folder prev listing hfolders hfolder hpoll hlisting
    · trivial
  modify f hf v := (hf v).moves
  worker at_ item hpolled := steady_worker h hpolled

/-- Unless the pass knows that it missed something, it has seen all that the source shows. -/
def SeenShown (d : DomainSyncDeps T Item Folder Raw) (shows : String → String → Prop) (v : PassVars) : Prop :=
  d.scope.domain = .file → v.fullyEnumerated = true → ∀ c key, shows c key → (c, key) ∈ v.seenByCollection

theorem SeenAll.shown (h : Steady d shows polls) {w : World T} (hw : SeenAll d w) : SeenShown d shows w.vars := by
  intro hfile hfull c key hshown
  obtain ⟨folders, hfolders, hseen⟩ := hw
  obtain ⟨folder, hfolder, rfl, hwhole⟩ := h.whole hfile folders hfolders c key hshown
  have hall := hseen folder hfolder hfull
  split at hwhole
  · rename_i listCollectionKeys hkeys
    rw [hkeys] at hall
    obtain ⟨keys, hlisted, hin⟩ := hall
    exact hin key (hwhole keys hlisted)
  · rename_i hkeys
    rw [hkeys] at hall
    obtain ⟨listing, hlisted, hin⟩ := hall
    obtain ⟨item, hitem, hkey⟩ := hwhole listing hlisted
    exact hin item hitem key hkey

/-- The vocabulary once the folders are through. -/
def shownVocabulary (d : DomainSyncDeps T Item Folder Raw) (shows : String → String → Prop)
    (polls : String → Option String → Prop) : Vocabulary (Cmd T) Cmd.Resp PassError where
  asks c := (steadyVocabulary d.scope shows polls).asks c ∧ match c with
    | .modify f => ∀ v, (f v).fullyEnumerated = v.fullyEnumerated ∧ (f v).seenByCollection = v.seenByCollection
    | _ => True
  hears c r := (steadyVocabulary d.scope shows polls).hears c r ∧ match c, r with
    | .vars, .ok v => SeenShown d shows v
    | _, _ => True

omit [FolderLike Folder] in
theorem shown_ledger {op : LedgerOp} (h : op.Stays d.scope shows) :
    Emits (shownVocabulary d shows polls) (Task.ledger op) (fun _ => True) :=
  (Emits.perform _ _).mpr ⟨⟨h, trivial⟩, fun _ _ => trivial⟩

omit [FolderLike Folder] in
theorem shown_modify {f : PassVars → PassVars} (h : ∀ v, (f v).moves = v.moves ∧
    (f v).fullyEnumerated = v.fullyEnumerated ∧ (f v).seenByCollection = v.seenByCollection) :
    Emits (shownVocabulary d shows polls) (Task.modify f) (fun _ => True) :=
  (Emits.perform _ _).mpr ⟨⟨fun v => (h v).1, fun v => (h v).2⟩, fun _ _ => trivial⟩

omit [FolderLike Folder] in
theorem shown_when {b : Prop} [Decidable b] {p : Task T Unit}
    (h : Emits (shownVocabulary d shows polls) p (fun _ => True)) :
    Emits (shownVocabulary d shows polls) (if b then p else .ret ()) (fun _ => True) := by
  split
  · exact h
  · trivial

def NoMoves : Except PassError PathKeyedMoves → Prop
  | .ok found => found.moves = []
  | .error _ => True

omit [FolderLike Folder] in
theorem walkPlaced_shown {listed : List (String × String)} {placed : List PlacedItem}
    (hplaced : ∀ x ∈ placed, (x.collection, x.naturalKeyHash) ∈ listed) (arrivals : List CreatedItem) :
    Emits (shownVocabulary d shows polls) (walkPlaced d.scope listed placed arrivals) NoMoves := by
  induction placed with
  | nil => rfl
  | cons row rest ih =>
    have hrest := ih fun x hx => hplaced x (List.mem_cons_of_mem row hx)
    have hthen : ∀ {p : Task T Unit} {q : Task T PathKeyedMoves},
        Emits (shownVocabulary d shows polls) p (fun _ => True) → Emits (shownVocabulary d shows polls) q NoMoves →
        Emits (shownVocabulary d shows polls) (p.bind fun _ => q) NoMoves := fun hp hq =>
      Emits.bind (fun _ => True) (hp.mono fun r _ => by cases r <;> trivial) fun _ _ => hq
    unfold walkPlaced
    split
    · exact hrest
    rw [if_pos (List.contains_iff_mem.mpr (hplaced row List.mem_cons_self))]
    exact hthen (shown_when (shown_ledger trivial)) (hthen (shown_when (shown_ledger trivial)) hrest)

omit [FolderLike Folder] in
theorem detectMoves_shown : Emits (shownVocabulary d shows polls) (detectMoves d) (fun _ => True) := by
  refine Emits.bind (SeenShown d shows) ((Emits.perform _ _).mpr ⟨⟨trivial, trivial⟩, fun r hr => ?_⟩) fun v hv => ?_
  · cases r with
    | error e => trivial
    | ok v => exact hr.2
  split
  · rename_i hdetect
    obtain ⟨hfile, hfull⟩ := hdetect
    refine Emits.bind (fun found => found.moves = []) ?_ fun found hfound => ?_
    · refine Emits.bind (fun placed => ∀ x ∈ placed, (x.collection, x.naturalKeyHash) ∈ v.seenByCollection) ?_
        fun placed hplaced => (walkPlaced_shown hplaced _).mono fun r hr => ?_
      · refine (Emits.perform _ _).mpr ⟨⟨trivial, trivial⟩, fun r hr => ?_⟩
        cases r with
        | error e => trivial
        | ok rows => exact fun x hx => hv hfile hfull _ _ (hr.1 rfl x hx).1
      · cases r with
        | error e => trivial
        | ok found => exact hr
    · refine shown_modify fun v => ⟨?_, rfl, rfl⟩
      simp [hfound]
  · trivial

omit [FolderLike Folder] in
theorem resolveRemovals_shown : Emits (shownVocabulary d shows polls) (resolveRemovals d) (fun _ => True) := by
  refine Emits.seq ((Emits.perform _ _).mpr ⟨⟨trivial, trivial⟩, fun _ _ => trivial⟩) fun v => ?_
  refine Emits.seq (resolveReportedRemovals_asks (fun ref => ?_) (fun k => ?_) _ _ _) fun reported => ?_
  · exact ⟨trivial, trivial⟩
  · exact ⟨trivial, trivial⟩
  · exact shown_modify fun v => ⟨rfl, rfl, rfl⟩

theorem readBins_shown (h : Steady d shows polls) :
    Emits (shownVocabulary d shows polls) (readBins d) (fun _ => True) := by
  unfold readBins
  split
  · trivial
  · rename_i scan hscan
    refine Emits.attempt ?_ (fun _ => trivial) fun discarded => ?_
    · refine ((h.bins scan hscan).and (d.listDiscardedKeys_asks scan hscan)).weaken ?_ fun c r hr => ⟨hr.1, ?_⟩
      · rintro c ⟨hsteady, hscan⟩
        refine ⟨hsteady, ?_⟩
        cases c with
        | modify => exact hscan.elim
        | _ => trivial
      · have hheard := hr.1
        cases c with
        | ledger op =>
          cases r with
          | error e => cases op <;> trivial
          | ok a =>
            cases op with
            | find s key =>
              cases a with
              | none => trivial
              | some known => exact hheard.1
            | findBySourceRef s ref =>
              cases a with
              | none => trivial
              | some known => exact hheard
            | _ => trivial
        | _ => trivial
    · refine Emits.seq (shown_when (shown_modify fun v => ⟨rfl, rfl, rfl⟩)) fun _ => ?_
      refine Emits.seq ((Emits.perform _ _).mpr ⟨⟨trivial, trivial⟩, fun _ _ => trivial⟩) fun v => ?_
      refine Emits.seq (resolveDiscardedItems_asks (fun k => ?_) (fun k => ?_) _ _) fun trashed => ?_
      · exact ⟨trivial, trivial⟩
      · exact ⟨trivial, trivial⟩
      · exact shown_modify fun v => ⟨rfl, rfl, rfl⟩

omit [FolderLike Folder] in
theorem shown_exec {c : Cmd T} (hc : (shownVocabulary d shows polls).asks c) (i : Input T) {w : World T}
    (h : Calm d.scope shows polls w ∧ SeenShown d shows w.vars) :
    (shownVocabulary d shows polls).hears c (w.exec i c).1 ∧
      Calm d.scope shows polls (w.exec i c).2 ∧ SeenShown d shows (w.exec i c).2.vars := by
  refine ⟨⟨calm_hears c i h.1, ?_⟩, calm_exec hc.1 i h.1, ?_⟩
  · cases c with
    | vars => exact h.2
    | _ => trivial
  · obtain ⟨f, rfl⟩ | hvars := exec_vars i w c
    · obtain ⟨hfull, hseen⟩ := hc.2 w.vars
      have hafter := h.2
      unfold SeenShown at hafter ⊢
      rwa [exec_modify, World.setVars_vars, hfull, hseen]
    · rw [hvars]
      exact h.2

theorem runDomainSync_calm (h : Steady d shows polls) {s : World T} (hs : Calm d.scope shows polls s) :
    wp (mainSpec (machine T) ((stepRules d).keeping (Calm d.scope shows polls))) (runDomainSync d) (fun _ _ => True) s := by
  have hfolders := MainEmits.wp_keeping (Calm d.scope shows polls) (fun _ _ hw => calm_owner hw)
    (fun c i w hc _ hw => ⟨calm_hears c i hw, calm_exec hc i hw⟩) (steady_hosts h).syncFolders (syncFolders_steps s) hs
  refine wp_seq (wp_mono (mainSpec_mono _ _) _ _ _ ?_ s hfolders)
  rintro r t ⟨hseen, hcalm⟩
  cases r with
  | error e => trivial
  | ok _ =>
  have hend : MainEmits (shownVocabulary d shows polls) ((Main.lift (resolveRemovals d)).bind fun _ =>
      (Main.lift (readBins d)).bind fun _ => (Main.lift (detectMoves d)).bind fun _ =>
      (Main.lift Task.vars).bind fun v => .ret (passResult v)) (fun _ => True) := by
    refine MainEmits.seq (.lift resolveRemovals_shown) fun _ => ?_
    refine MainEmits.seq (.lift (readBins_shown h)) fun _ => ?_
    refine MainEmits.seq (.lift detectMoves_shown) fun _ => ?_
    exact MainEmits.seq (.lift ((Emits.perform _ _).mpr ⟨⟨trivial, trivial⟩, fun _ _ => trivial⟩)) fun v => trivial
  refine wp_mono (mainSpec_mono _ _) _ _ _ (fun _ _ _ => trivial) t
    (MainEmits.wp_of_keeps (fun w => Calm d.scope shows polls w ∧ SeenShown d shows w.vars) ?_ ?_ hend ⟨hcalm, hseen.shown h⟩)
  · rintro v w ⟨hv, hshown⟩ ho
    refine ⟨calm_owner hv ho, ?_⟩
    rw [OwnerOnly.vars ho]
    exact hshown
  · intro c i w hc _ hw
    obtain ⟨hheard, hcalm', hshown'⟩ := shown_exec hc i hw
    exact ⟨hheard, fun _ => hcalm', hcalm', hshown'⟩

theorem pass_calm {p : Pass T Item Folder Raw} (h : Steady p.deps shows polls) {store : Store T}
    (hstart : Calm p.deps.scope shows polls ((store, PassState.fresh T) : World T)) :
    Calm p.deps.scope shows polls (p.ending store) := by
  have hgood : Conf.Good (machine T) ((stepRules p.deps).keeping (Calm p.deps.scope shows polls)) (fun _ _ => True)
      (p.start store) := runDomainSync_calm h hstart
  have hkept := (hgood.run (machine T) _ (fun _ _ _ _ _ => trivial) p.choices fun ev _ => ?_).1
  · refine (machine T).run_keeps (fun ev hev hpre => ?_) hstart
    have hev := hkept ev hev
    cases ev with
    | exec th c i w => exact hev hpre
    | act a w => exact calm_owner hpre (OwnerOnly.act a w)
  · cases ev with
    | exec => trivial
    | act a w => exact OwnerOnly.act a w

theorem Calm.again {w : World T} (h : Calm scope shows polls w) :
    Calm scope shows polls ((w.1, PassState.fresh T) : World T) := ⟨h.rows, h.cursors, rfl⟩

theorem passes_calm {passes : List (Pass T Item Folder Raw)}
    (hpasses : ∀ p ∈ passes, p.deps.scope = scope ∧ Steady p.deps shows polls) {store : Store T}
    (hstart : Calm scope shows polls ((store, PassState.fresh T) : World T)) :
    Calm scope shows polls ((afterPasses passes store, PassState.fresh T) : World T) := by
  induction passes generalizing store with
  | nil => exact hstart
  | cons p passes ih =>
    obtain ⟨rfl, hp⟩ := hpasses p List.mem_cons_self
    exact ih (fun q hq => hpasses q (List.mem_cons_of_mem p hq)) (pass_calm hp hstart).again

end Pass

end OpenMigrate
