import OpenMigrate.Sync.Footprint

namespace OpenMigrate

open Async

variable {T : TargetApi} {Item Folder Raw : Type} (d : DomainSyncDeps T Item Folder Raw)

def LedgerOp.OfEnd : LedgerOp → Prop
  | .find .. => True
  | .findBySourceRef scope _ => scope = d.scope
  | .recordReportedDeletion scope _ => scope = d.scope
  | .recordTrashedDeletion scope _ => scope = d.scope
  | .placedItems scope => scope = d.scope
  | .clearMove scope _ => scope = d.scope
  | .clearAbsent scope _ => scope = d.scope
  | .recordAbsent scope _ => scope = d.scope
  | .recordMove scope _ _ _ => scope = d.scope
  | _ => False

/-- The row whose absence or whose move an operation calls off. -/
def LedgerOp.clears : LedgerOp → Option String
  | .clearMove _ key => some key
  | .clearAbsent _ key => some key
  | _ => none

structure EndVars (v v' : PassVars) : Prop where
  handled : v'.handled = v.handled
  failed : v'.failed = v.failed
  created : v'.created = v.created
  updated : v'.updated = v.updated
  seen : v'.seenByCollection = v.seenByCollection
  stage : v'.stage = v.stage
  reportedRemovals : v'.reportedRemovals = v.reportedRemovals
  enumerated : v'.fullyEnumerated = v.fullyEnumerated

/-- What a pass asks once its folders are through; `scans` when it may be reading the bins, and `seen`
what it has listed. -/
def endVocabulary (scans : Prop) (seen : String → Prop) : Vocabulary (Cmd T) Cmd.Resp PassError where
  asks
    | .ledger op => op.OfEnd d ∧ ∀ key ∈ op.clears, seen key
    | .target _ => False
    | .cursorGet _ => True
    | .cursorSet key _ => scans ∧ key.tenantId = d.scope.tenantId ∧ key.mappingId = d.scope.mappingId
    | .modify f => ∀ v, EndVars v (f v)
    | .vars => True
  hears := Cmd.Hears

/-- Of these, what it still asks once the reported removals are resolved. -/
def tidyVocabulary (scans : Prop) (seen : String → Prop) : Vocabulary (Cmd T) Cmd.Resp PassError where
  asks c := (endVocabulary d scans seen).asks c ∧ ∀ scope key, c ≠ .ledger (.recordReportedDeletion scope key)
  hears := Cmd.Hears

variable {d} {scans : Prop} {seen : String → Prop}

theorem end_of_tidy {α : Type} {p : Task T α} (h : Emits (tidyVocabulary d scans seen) p (fun _ => True)) :
    Emits (endVocabulary d scans seen) p (fun _ => True) := h.weaken (fun _ hc => hc.1) fun _ _ hr => hr

theorem tidy_ledger {op : LedgerOp} (h : op.OfEnd d) (hclears : ∀ key ∈ op.clears, seen key)
    (hno : ∀ scope key, op ≠ .recordReportedDeletion scope key) :
    Emits (tidyVocabulary d scans seen) (Task.ledger op) (fun _ => True) := by
  refine (Emits.perform _ _).mpr ⟨⟨⟨h, hclears⟩, fun scope key heq => ?_⟩, fun _ _ => trivial⟩
  exact hno scope key (Cmd.ledger.inj heq)

theorem tidy_modify {f : PassVars → PassVars} (h : ∀ v, EndVars v (f v)) :
    Emits (tidyVocabulary d scans seen) (Task.modify f) (fun _ => True) :=
  (Emits.perform _ _).mpr ⟨⟨h, by simp⟩, fun _ _ => trivial⟩

theorem tidy_vars : Emits (tidyVocabulary d scans seen) Task.vars (fun _ => True) :=
  (Emits.perform _ _).mpr ⟨⟨trivial, by simp⟩, fun _ _ => trivial⟩

theorem tidy_ret {α : Type} (a : α) : Emits (tidyVocabulary d scans seen) (.ret a : Task T α) (fun _ => True) := trivial

theorem tidy_when {b : Prop} [Decidable b] {p : Task T Unit}
    (h : Emits (tidyVocabulary d scans seen) p (fun _ => True)) :
    Emits (tidyVocabulary d scans seen) (if b then p else .ret ()) (fun _ => True) := by
  split
  · exact h
  · exact tidy_ret _

section Removals

variable {V : Vocabulary (Cmd T) Cmd.Resp PassError} {scope : Scope}

theorem asks_ledger {op : LedgerOp} (h : V.asks (.ledger op)) : Emits V (Task.ledger op) (fun _ => True) :=
  (Emits.perform _ _).mpr ⟨h, fun _ _ => trivial⟩

theorem resolveReportedRemovals_asks (hfind : ∀ ref, V.asks (.ledger (.findBySourceRef scope ref)))
    (hmark : ∀ key, V.asks (.ledger (.recordReportedDeletion scope key))) (listed removals done : List String) :
    Emits V (resolveReportedRemovals scope listed removals done) (fun _ => True) := by
  induction removals generalizing done with
  | nil => trivial
  | cons href rest ih =>
    refine Emits.seq (asks_ledger (hfind href)) fun row => ?_
    cases row with
    | none => exact ih done
    | some row =>
      dsimp only
      split
      · exact ih done
      · refine Emits.seq (asks_ledger (hmark _)) fun recorded => Emits.seq (ih _) fun out => ?_
        split <;> trivial

theorem resolveDiscardedItems_asks (hfind : ∀ key, V.asks (.ledger (.find scope key)))
    (hmark : ∀ key, V.asks (.ledger (.recordTrashedDeletion scope key))) (listed discarded : List String) :
    Emits V (resolveDiscardedItems scope listed discarded) (fun _ => True) := by
  induction discarded with
  | nil => trivial
  | cons key rest ih =>
    unfold resolveDiscardedItems
    split
    · exact ih
    · refine Emits.seq (asks_ledger (hfind key)) fun row => ?_
      cases row with
      | none => exact ih
      | some row =>
        dsimp only
        split
        · exact ih
        · refine Emits.seq (asks_ledger (hmark key)) fun recorded => Emits.seq ih fun out => ?_
          split <;> trivial

end Removals

theorem resolveReportedRemovals_emits (listed removals done : List String) :
    Emits (endVocabulary d scans seen) (resolveReportedRemovals d.scope listed removals done) (fun _ => True) := by
  refine resolveReportedRemovals_asks (fun ref => ?_) (fun key => ?_) listed removals done
  · exact ⟨rfl, by simp [LedgerOp.clears]⟩
  · exact ⟨rfl, by simp [LedgerOp.clears]⟩

theorem resolveDiscardedItems_tidy (listed discarded : List String) :
    Emits (tidyVocabulary d scans seen) (resolveDiscardedItems d.scope listed discarded) (fun _ => True) := by
  refine resolveDiscardedItems_asks (fun key => ?_) (fun key => ?_) listed discarded
  · exact ⟨⟨trivial, by simp [LedgerOp.clears]⟩, by simp⟩
  · exact ⟨⟨rfl, by simp [LedgerOp.clears]⟩, by simp⟩

theorem walkPlaced_tidy (listed : List (String × String)) (hseen : ∀ x ∈ listed, seen x.2)
    (placed : List PlacedItem) (arrivals : List CreatedItem) :
    Emits (tidyVocabulary d scans seen) (walkPlaced d.scope listed placed arrivals) (fun _ => True) := by
  induction placed generalizing arrivals with
  | nil => exact tidy_ret _
  | cons row rest ih =>
    unfold walkPlaced
    split
    · exact ih arrivals
    split
    · rename_i hlisted
      have hkey : seen row.naturalKeyHash := hseen _ (List.contains_iff_mem.mp hlisted)
      exact Emits.seq (tidy_when (tidy_ledger rfl (by simpa [LedgerOp.clears] using hkey) (by simp))) fun _ =>
        Emits.seq (tidy_when (tidy_ledger rfl (by simpa [LedgerOp.clears] using hkey) (by simp))) fun _ => ih arrivals
    split
    · exact Emits.seq (ih arrivals) fun out => tidy_ret _
    split
    · exact Emits.seq (tidy_ledger rfl (by simp [LedgerOp.clears]) (by simp)) fun _ =>
        Emits.seq (ih _) fun out => tidy_ret _
    · exact Emits.seq (tidy_ledger rfl (by simp [LedgerOp.clears]) (by simp)) fun _ =>
        Emits.seq (ih arrivals) fun out => tidy_ret _

theorem noteDiscarded_tidy (discarded : DiscardedListing) :
    Emits (tidyVocabulary d scans seen) (noteDiscarded d discarded) (fun _ => True) := by
  refine Emits.seq (tidy_when (tidy_modify fun _ => ⟨rfl, rfl, rfl, rfl, rfl, rfl, rfl, rfl⟩)) fun _ => ?_
  refine Emits.seq tidy_vars fun v => Emits.seq (resolveDiscardedItems_tidy _ _) fun _ => ?_
  exact tidy_modify fun _ => ⟨rfl, rfl, rfl, rfl, rfl, rfl, rfl, rfl⟩

theorem noteDiscarded_emits (discarded : DiscardedListing) :
    Emits (endVocabulary d scans seen) (noteDiscarded d discarded) (fun _ => True) := end_of_tidy (noteDiscarded_tidy _)

theorem readBins_tidy (hscans : scans) : Emits (tidyVocabulary d scans seen) (readBins d) (fun _ => True) := by
  unfold readBins
  split
  · exact tidy_ret _
  · rename_i scan hscan
    refine Emits.attempt ?_ (fun _ => tidy_ret _) noteDiscarded_tidy
    · refine (d.listDiscardedKeys_asks scan hscan).weaken ?_ fun _ _ h => h
      intro c hc
      cases c with
      | cursorGet => exact ⟨trivial, by simp⟩
      | cursorSet key value => exact ⟨⟨hscans, hc⟩, by simp⟩
      | _ => exact hc.elim

theorem readBins_emits (hscans : scans) : Emits (endVocabulary d scans seen) (readBins d) (fun _ => True) :=
  end_of_tidy (readBins_tidy hscans)

theorem detectMoves_rest_tidy {v : PassVars} (hseen : ∀ x ∈ v.seenByCollection, seen x.2) :
    Emits (tidyVocabulary d scans seen)
      (if d.scope.domain = .file ∧ v.fullyEnumerated then
        (detectPathKeyedMoves d.scope v).bind fun found =>
        Task.modify fun v =>
          { v with
            moved := v.moved + found.moves.length
            moves := v.moves ++ found.moves
            deletions := v.deletions ++ found.deletions
            drift := v.drift + found.drift }
      else .ret ()) (fun _ => True) := by
  refine tidy_when (Emits.seq ?_ fun found => tidy_modify fun _ => ⟨rfl, rfl, rfl, rfl, rfl, rfl, rfl, rfl⟩)
  exact Emits.seq (tidy_ledger rfl (by simp [LedgerOp.clears]) (by simp)) fun placed => walkPlaced_tidy _ hseen _ _

theorem detectMoves_rest_emits {v : PassVars} (hseen : ∀ x ∈ v.seenByCollection, seen x.2) :
    Emits (endVocabulary d scans seen)
      (if d.scope.domain = .file ∧ v.fullyEnumerated then
        (detectPathKeyedMoves d.scope v).bind fun found =>
        Task.modify fun v =>
          { v with
            moved := v.moved + found.moves.length
            moves := v.moves ++ found.moves
            deletions := v.deletions ++ found.deletions
            drift := v.drift + found.drift }
      else .ret ()) (fun _ => True) := end_of_tidy (detectMoves_rest_tidy hseen)

theorem detectMoves_tidy (hseen : ∀ key, seen key) :
    Emits (tidyVocabulary d scans seen) (detectMoves d) (fun _ => True) :=
  Emits.seq tidy_vars fun _ => detectMoves_rest_tidy fun _ _ => hseen _

theorem detectMoves_emits (hseen : ∀ key, seen key) :
    Emits (endVocabulary d scans seen) (detectMoves d) (fun _ => True) := end_of_tidy (detectMoves_tidy hseen)

variable [FolderLike Folder] (d)

/-- An item stands at a place when some poll of the pass's source lists it there. -/
structure ListedAt (at_ : Place) (item : Item) : Prop where
  intro ::
  listed : ∃ folders folder prev listing, d.listFolders = .ok folders ∧ folders[at_.folder]? = some folder ∧
    d.listSince folder prev = .ok listing ∧ listing.items[at_.index]? = some item ∧
    d.ensureCollection folder = .ok at_.collectionId ∧ at_.collectionPath = collectionPath folder

def LedgerOp.OfPass (op : LedgerOp) : Prop :=
  (∃ at_ item, ListedAt d at_ item ∧ op.OfWorker d at_ item (fun _ => True)) ∨ op.OfEnd d

def passVocabulary : Vocabulary (Cmd T) Cmd.Resp PassError where
  asks
    | .ledger op => op.OfPass d
    | .target _ => True
    | .cursorGet _ => True
    | .cursorSet key _ => key.tenantId = d.scope.tenantId ∧ key.mappingId = d.scope.mappingId
    | .modify _ => True
    | .vars => True
  hears := Cmd.Hears

structure LoopVars (v v' : PassVars) : Prop where
  handled : v'.handled = v.handled
  failed : v'.failed = v.failed
  created : v'.created = v.created
  updated : v'.updated = v.updated

/-- A folder whose keys the source names in full has this one among them. -/
def Enumerates (collection key : String) : Prop :=
  ∃ folders folder listCollectionKeys keys, d.listFolders = .ok folders ∧ folder ∈ folders ∧
    d.listCollectionKeys = some listCollectionKeys ∧ listCollectionKeys folder = .ok keys ∧ key ∈ keys ∧
    collection = collectionPath folder

structure FolderVars (v v' : PassVars) : Prop extends LoopVars v v' where
  stage : v'.stage = .resolved → v.stage = .resolved
  sees : ∀ x ∈ v'.seenByCollection, x ∈ v.seenByCollection ∨ Enumerates d x.1 x.2
  moves : v'.moves = v.moves

/-- A vocabulary with room for all a pass does with a folder besides its workers, and for each of those. -/
structure FolderHosts (V : Vocabulary (Cmd T) Cmd.Resp PassError) : Prop where
  cursorGet : ∀ key, V.asks (.cursorGet key)
  cursorSet : ∀ key value, key.tenantId = d.scope.tenantId → key.mappingId = d.scope.mappingId →
    V.asks (.cursorSet key value)
  modify : ∀ f, (∀ v, FolderVars d v (f v)) → V.asks (.modify f)
  vars : V.asks .vars
  worker : ∀ at_ item, ListedAt d at_ item → Emits V (syncItem d at_ item) (fun _ => True)

/-- What may come of the polls that `polls` lets the cursors of a folder lead to. -/
structure PolledAt (polls : String → Option String → Prop) (at_ : Place) (item : Item) : Prop where
  intro ::
  listed : ∃ folders folder prev listing, d.listFolders = .ok folders ∧ folders[at_.folder]? = some folder ∧
    polls (collectionPath folder) prev ∧ d.listSince folder prev = .ok listing ∧ listing.items[at_.index]? = some item ∧
    d.ensureCollection folder = .ok at_.collectionId ∧ at_.collectionPath = collectionPath folder

structure PollHosts (polls : String → Option String → Prop) (V : Vocabulary (Cmd T) Cmd.Resp PassError) : Prop where
  previous : ∀ folder, Emits V (previousCursor d folder) (fun r => ∀ prev, r = .ok prev → polls (collectionPath folder) prev)
  advance : ∀ folders folder prev listing, d.listFolders = .ok folders → folder ∈ folders →
    polls (collectionPath folder) prev → d.listSince folder prev = .ok listing →
    Emits V (advanceCursor d folder listing.nextCursor) (fun _ => True)
  modify : ∀ f, (∀ v, FolderVars d v (f v)) → V.asks (.modify f)
  worker : ∀ at_ item, PolledAt d polls at_ item → Emits V (syncItem d at_ item) (fun _ => True)

namespace PollHosts

variable {d} {polls : String → Option String → Prop} {V : Vocabulary (Cmd T) Cmd.Resp PassError}
  (h : PollHosts d polls V)

theorem bind_ofExcept {α β : Type} {x : Except PassError α} {f : α → MainTask T β}
    (hf : ∀ a, x = .ok a → MainEmits V (f a) (fun _ => True)) :
    MainEmits V ((Main.lift (Prog.ofExcept x)).bind f) (fun _ => True) := by
  cases x with
  | error e => trivial
  | ok a => exact hf a rfl

include h

theorem emits_modify {f : PassVars → PassVars} (hf : ∀ v, FolderVars d v (f v)) :
    Emits V (Task.modify f) (fun _ => True) :=
  (Emits.perform _ _).mpr ⟨h.modify f hf, fun _ _ => trivial⟩

theorem workers {n : ℕ} {folders : List Folder} {folder : Folder} {prev : Option String}
    {listing : Listing Item} {collectionId : String} (hfolders : d.listFolders = .ok folders)
    (hfolder : folders[n]? = some folder) (hid : d.ensureCollection folder = .ok collectionId)
    (hpoll : polls (collectionPath folder) prev) (hlisting : d.listSince folder prev = .ok listing) :
    ∀ p ∈ workers d folder n collectionId listing.items, Emits V p (fun _ => True) := by
  intro p hp
  obtain ⟨⟨item, j⟩, hmem, rfl⟩ := List.mem_map.mp hp
  have hj : listing.items[j]? = some item := List.mem_zipIdx_iff_getElem?.mp hmem
  exact h.worker _ item ⟨folders, folder, prev, listing, hfolders, hfolder, hpoll, hlisting, hj, hid, rfl⟩

theorem syncFolder {n : ℕ} {folders : List Folder} {folder : Folder}
    (hfolders : d.listFolders = .ok folders) (hfolder : folders[n]? = some folder) :
    MainEmits V (syncFolder d folder n) (fun _ => True) := by
  refine bind_ofExcept fun id hid => ?_
  refine MainEmits.bind (polls (collectionPath folder)) (.lift ((h.previous folder).mono fun r hr => ?_)) fun prev hpoll => ?_
  · cases r with
    | error e => trivial
    | ok prev => exact hr prev rfl
  refine bind_ofExcept fun listing hlisting => ?_
  refine MainEmits.seq (.lift (h.emits_modify fun v =>
    ⟨⟨rfl, rfl, rfl, rfl⟩, by simp, fun _ hx => .inl hx, rfl⟩)) fun _ => ?_
  refine MainEmits.seq (.lift ?_) fun _ => ?_
  · have hpartial : Emits V (Task.modify fun v => { v with fullyEnumerated := false }) (fun _ => True) :=
      h.emits_modify fun v => ⟨⟨rfl, rfl, rfl, rfl⟩, fun hv => hv, fun _ hx => .inl hx, rfl⟩
    unfold enumerateCollection
    split
    · rename_i listCollectionKeys hkeys
      split
      · rename_i keys hlisted
        refine h.emits_modify fun v => ⟨⟨rfl, rfl, rfl, rfl⟩, fun hv => hv, fun x hx => ?_, rfl⟩
        obtain hx | hx := List.mem_append.mp hx
        · exact .inl hx
        · obtain ⟨key, hkey, rfl⟩ := List.mem_map.mp hx
          exact .inr ⟨folders, folder, listCollectionKeys, keys, hfolders, List.mem_of_getElem? hfolder, hkeys, hlisted,
            hkey, rfl⟩
      · exact hpartial
    · split
      · exact hpartial
      · trivial
  refine MainEmits.seq (MainEmits.mapWithConcurrency trivial (fun _ => trivial)
    (h.workers hfolders hfolder hid hpoll hlisting)) fun _ => .lift ?_
  exact h.advance folders folder prev listing hfolders (List.mem_of_getElem? hfolder) hpoll hlisting

theorem syncFolders : MainEmits V (syncFolders d) (fun _ => True) := by
  refine bind_ofExcept fun folders hfolders => ?_
  refine MainEmits.forEach trivial (fun _ => trivial) fun e he => ?_
  exact h.syncFolder hfolders (List.mem_zipIdx_iff_getElem?.mp he)

end PollHosts

namespace FolderHosts

variable {d} {V : Vocabulary (Cmd T) Cmd.Resp PassError} (h : FolderHosts d V)
include h

theorem polls : PollHosts d (fun _ _ => True) V where
  previous folder := by
    unfold previousCursor
    split
    · exact (Emits.perform _ _).mpr ⟨h.cursorGet _, fun _ _ _ _ => trivial⟩
    · exact fun _ _ => trivial
  advance folders folder prev listing _ _ _ _ := by
    refine Emits.seq ((Emits.perform _ _).mpr ⟨h.vars, fun _ _ => trivial⟩) fun v => ?_
    split
    · exact (Emits.perform _ _).mpr ⟨h.cursorSet _ _ rfl rfl, fun _ _ => trivial⟩
    · trivial
  modify := h.modify
  worker at_ item hpolled := by
    obtain ⟨folders, folder, prev, listing, hfolders, hfolder, -, hlisting, hitem, hid, hpath⟩ := hpolled.listed
    exact h.worker at_ item ⟨folders, folder, prev, listing, hfolders, hfolder, hlisting, hitem, hid, hpath⟩

theorem syncFolders : MainEmits V (syncFolders d) (fun _ => True) := h.polls.syncFolders

end FolderHosts

/-- A vocabulary with room for all a pass does besides its workers, and for each of those. -/
structure Hosts (V : Vocabulary (Cmd T) Cmd.Resp PassError) : Prop where
  ledger : ∀ op : LedgerOp, op.OfEnd d → V.asks (.ledger op)
  cursorGet : ∀ key, V.asks (.cursorGet key)
  cursorSet : ∀ key value, key.tenantId = d.scope.tenantId → key.mappingId = d.scope.mappingId →
    V.asks (.cursorSet key value)
  modify : ∀ f, (∀ v, LoopVars v (f v)) → V.asks (.modify f)
  vars : V.asks .vars
  hears : ∀ c r, V.hears c r → c.Hears r
  worker : ∀ at_ item, ListedAt d at_ item → Emits V (syncItem d at_ item) (fun _ => True)

namespace Hosts

variable {d} {V : Vocabulary (Cmd T) Cmd.Resp PassError} (h : Hosts d V)
include h

theorem folder : FolderHosts d V :=
  ⟨h.cursorGet, h.cursorSet, fun f hf => h.modify f fun v => (hf v).toLoopVars, h.vars, h.worker⟩

theorem emits_of_end (scans : Prop) (seen : String → Prop) {α : Type} {p : Task T α}
    (hp : Emits (endVocabulary d scans seen) p (fun _ => True)) : Emits V p (fun _ => True) := by
  refine hp.weaken ?_ h.hears
  intro c hc
  cases c with
  | ledger op => exact h.ledger op hc.1
  | cursorSet key value => exact h.cursorSet key value hc.2.1 hc.2.2
  | target => exact hc.elim
  | cursorGet key => exact h.cursorGet key
  | modify f => exact h.modify f fun v => ⟨(hc v).handled, (hc v).failed, (hc v).created, (hc v).updated⟩
  | vars => exact h.vars

theorem emits_vars : Emits V Task.vars (fun _ => True) :=
  (Emits.perform _ _).mpr ⟨h.vars, fun _ _ => trivial⟩

theorem runDomainSync : MainEmits V (runDomainSync d) (fun _ => True) := by
  refine MainEmits.seq h.folder.syncFolders fun _ => ?_
  refine MainEmits.seq (.lift ?_) fun _ => ?_
  · refine Emits.seq h.emits_vars fun v => ?_
    refine Emits.seq (h.emits_of_end False (fun _ => True) (resolveReportedRemovals_emits _ _ _)) fun _ => ?_
    exact (Emits.perform _ _).mpr ⟨h.modify _ fun v => ⟨rfl, rfl, rfl, rfl⟩, fun _ _ => trivial⟩
  refine MainEmits.seq (.lift (h.emits_of_end True (fun _ => True) (readBins_emits trivial))) fun _ => ?_
  refine MainEmits.seq (.lift (h.emits_of_end False (fun _ => True) (detectMoves_emits fun _ => trivial)))
    fun _ => ?_
  exact MainEmits.seq (.lift h.emits_vars) fun v => trivial

end Hosts

theorem runDomainSync_emits : MainEmits (passVocabulary d) (runDomainSync d) (fun _ => True) := by
  refine Hosts.runDomainSync (d := d) ?_
  refine ⟨fun _ h => .inr h, fun _ => trivial, fun _ _ ht hm => ⟨ht, hm⟩, fun _ _ => trivial, trivial,
    fun _ _ h => h, ?_⟩
  intro at_ item hlisted
  refine (syncItem_emits (recordsUnder_any d item)).weaken ?_ fun _ _ h => h
  intro c hc
  cases c with
  | ledger op => exact .inl ⟨at_, item, hlisted, hc⟩
  | target | modify | vars => trivial
  | cursorGet | cursorSet => exact hc.elim

end OpenMigrate
