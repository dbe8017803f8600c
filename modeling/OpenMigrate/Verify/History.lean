import OpenMigrate.Sync.OwnCopies
import OpenMigrate.Verify.Unclaimed

namespace OpenMigrate.Verify

open Async PgLedger

variable {T : TargetApi} {Item Folder Raw : Type}

theorem observed_targets {α : Type} {p : Task T α} (h : Emits targetVocabulary p (fun _ => True)) :
    Emits targetVocabulary (Task.observed Item Raw p) (fun _ => True) := by
  refine Task.observed_emits ?_ (fun _ _ h => h) (fun _ _ h => h) h
  intro c hc
  cases c <;> exact hc

def applyObserved (Item Raw : Type) (deps : ApplyDeletionDeps T) : ApplyDeletionDeps (T.observed Item Raw) where
  scope := deps.scope
  allowApplyDeletions := deps.allowApplyDeletions
  targetFolderPrefix := deps.targetFolderPrefix
  removeItem := deps.removeItem.map fun f id version collection => Task.observed Item Raw (f id version collection)
  hasItem := deps.hasItem.map fun f id collection => Task.observed Item Raw (f id collection)
  removeItem_asks := by
    intro f hf id version collection
    obtain ⟨g, hg, rfl⟩ := Option.map_eq_some_iff.mp hf
    exact observed_targets (deps.removeItem_asks g hg id version collection)
  hasItem_asks := by
    intro f hf id collection
    obtain ⟨g, hg, rfl⟩ := Option.map_eq_some_iff.mp hf
    exact observed_targets (deps.hasItem_asks g hg id collection)

abbrev Choices (T : TargetApi) (Item Raw : Type) := List (Choice (Input (T.observed Item Raw)) T.Act)

/-- What happens to a ledger, one thing after another: a pass, an operation an owner has asked for, or
the owner's word on an entry of a queue. -/
inductive Round (T : TargetApi) (Item Folder Raw : Type) where
  | pass (d : DomainSyncDeps T Item Folder Raw) (choices : Choices T Item Raw)
  | deletion (deps : ApplyDeletionDeps T) (naturalKeyHash : String) (choices : Choices T Item Raw)
  | relocation (deps : ApplyDeletionDeps T) (naturalKeyHash : String) (choices : Choices T Item Raw)
  | resolve (key : ItemKey) (now : Instant) (r : Resolution)

namespace Round

def apply (program : Task (T.observed Item Raw) ApplyDeletionOutcome) (choices : Choices T Item Raw)
    (store : Store (T.observed Item Raw)) : Store (T.observed Item Raw) :=
  ((machine _).run (.seq (Main.lift program), (store, PassState.fresh _)) choices).2.1

variable [FolderLike Folder]

def ending (store : Store (T.observed Item Raw)) : Round T Item Folder Raw → Store (T.observed Item Raw)
  | pass d choices => ((⟨d.observed, choices⟩ : Pass _ _ _ _).ending store).1
  | deletion deps key choices => apply (applyDeletion (applyObserved Item Raw deps) key) choices store
  | relocation deps key choices => apply (applyRelocation (applyObserved Item Raw deps) key) choices store
  | resolve key now r => { store with ledger := (r.exec store.ledger now key).2 }

def Tombstoned (store : Store (T.observed Item Raw)) (key : ItemKey) : Prop :=
  ∃ row, store.ledger.lookup key = some row ∧ row.status = .tombstoned

/-- The rows the round makes tombstones of, on an owner's word that the item is to go. -/
def erases (store : Store (T.observed Item Raw)) (r : Round T Item Folder Raw) : Set ItemKey :=
  match r with
  | deletion .. => {key | ¬ Tombstoned store key ∧ Tombstoned (r.ending store) key}
  | _ => ∅

/-- The condition on a round: a source that does not list one key twice in a folder, and no deletion of
an item that is recorded as moved to another key. -/
def Clean (store : Store (T.observed Item Raw)) : Round T Item Folder Raw → Prop
  | pass d _ => OneKeyEach d
  | deletion deps key _ =>
    ∀ row, row? store.ledger deps.scope key = some row → deletable row → truthy row.movedToNaturalKeyHash = none
  | _ => True

end Round

variable [FolderLike Folder]

def after (store : Store (T.observed Item Raw)) : List (Round T Item Folder Raw) → Store (T.observed Item Raw)
  | [] => store
  | r :: rounds => after (r.ending store) rounds

def erasedBy (store : Store (T.observed Item Raw)) : List (Round T Item Folder Raw) → Set ItemKey
  | [] => ∅
  | r :: rounds => r.erases store ∪ erasedBy (r.ending store) rounds

def EveryRound (store : Store (T.observed Item Raw)) : List (Round T Item Folder Raw) → Prop
  | [] => True
  | r :: rounds => r.Clean store ∧ EveryRound (r.ending store) rounds

section Apply

variable {erased : Set ItemKey} {op : LedgerOp}

def decisionVocabulary (T : TargetApi) (op : LedgerOp) : Vocabulary (Cmd T) Cmd.Resp PassError where
  asks
    | .ledger op' => op' = op ∨ op'.writes? = none
    | .target _ => True
    | _ => False
  hears := Cmd.Hears

theorem decision_consults : Consults (decisionVocabulary T op) :=
  ⟨fun _ _ => .inr rfl, fun _ => .inr rfl, fun _ => .inr rfl, fun _ => .inr rfl, fun _ => trivial, fun _ _ h => h⟩

theorem decision_fine (hop : op.Fine erased) {c : Cmd T} (hc : (decisionVocabulary T op).asks c) :
    ∀ op', c = .ledger op' → op'.Fine erased := by
  rintro op' rfl
  obtain rfl | hnone := hc
  · exact hop
  · cases op' with
    | recordIfAbsent | recordUpdate | recordMove => cases hnone
    | _ => trivial

theorem apply_keeps {P : World (T.observed Item Raw) → Prop}
    {program : Task (T.observed Item Raw) ApplyDeletionOutcome}
    (hprogram : Emits (decisionVocabulary _ op) program (fun _ => True)) (hact : ∀ a w, P w → P ((machine _).act a w))
    (hstep : ∀ c i w, (decisionVocabulary _ op).asks c → P w → P (w.exec i c).2) (choices : Choices T Item Raw)
    {store : Store (T.observed Item Raw)} (hstore : P (store, PassState.fresh _)) :
    P ((machine _).run (.seq (Main.lift program), (store, PassState.fresh _)) choices).2 := by
  have hemits : Conf.Emits (decisionVocabulary _ op) (.seq (Main.lift program)) := MainEmits.lift hprogram
  exact (hemits.keeps (machine _) (P := P) hact (fun c i w hc (_ : True) hw => hstep c i w hc hw)
    (fun c i w _ _ _ => exec_hears i w c) (x := (_, _)) hstore fun _ _ _ _ _ => trivial).1

theorem apply_sound (hop : op.Fine erased) {program : Task (T.observed Item Raw) ApplyDeletionOutcome}
    (hprogram : Emits (decisionVocabulary _ op) program (fun _ => True)) (choices : Choices T Item Raw)
    {store : Store (T.observed Item Raw)} (hstore : Sound erased store.ledger) :
    Sound erased (Round.apply program choices store).ledger :=
  apply_keeps (P := fun w => Sound erased w.1.ledger) hprogram (fun _ _ h => h)
    (fun _ i _ hc hw => hw.exec (decision_fine hop hc) i) choices hstore

theorem deletion_rows {deps : ApplyDeletionDeps T} {key : String} {store : Store (T.observed Item Raw)}
    (hclean : ∀ row, row? store.ledger deps.scope key = some row → deletable row →
      truthy row.movedToNaturalKeyHash = none) (choices : Choices T Item Raw) (k : ItemKey) :
    (Round.apply (applyDeletion (applyObserved Item Raw deps) key) choices store).ledger.lookup k =
        store.ledger.lookup k ∨
      ∃ row, (Round.apply (applyDeletion (applyObserved Item Raw deps) key) choices store).ledger.lookup k = some row ∧
        row.Erased := by
  have hprogram : Emits (decisionVocabulary _ (.applyDeletion deps.scope key))
      (applyDeletion (applyObserved Item Raw deps) key) (fun _ => True) :=
    applyDeletion_emits decision_consults _ (.inl rfl)
  refine apply_keeps (P := fun w => w.row k = store.ledger.lookup k ∨ ∃ row, w.row k = some row ∧ row.Erased)
    hprogram (fun _ _ h => h) ?_ choices (.inl rfl)
  intro c i w hc hw
  obtain hsame | ⟨row, hrow, her⟩ := hw
  · cases hrow : w.row k with
    | none =>
      obtain hnone | ⟨op, new, rfl, -, hins, haim, -⟩ := exec_row_none (i := i) (c := c) hrow
      · exact .inl (hnone.trans (hrow.symm.trans hsame))
      · obtain rfl | hreads := hc
        · cases hins
        · obtain ⟨scope, h, hw, -⟩ := haim
          rw [hreads] at hw
          cases hw
    | some row =>
      obtain ⟨-, hkept⟩ | ⟨op, rfl, -, haim, hset⟩ := exec_row_some (i := i) (c := c) hrow
      · exact .inl (hkept.trans (hrow.symm.trans hsame))
      · obtain ⟨scope, h, hw, hk, hdomain⟩ := haim
        obtain rfl | hreads := hc
        · cases hw
          subst hk
          have hstored : row? store.ledger deps.scope key = some row :=
            (row?_eq_some _).mpr ⟨hsame.symm.trans hrow, hdomain.symm⟩
          simp only [LedgerOp.sets] at hset
          split at hset
          · rename_i hdeletable
            exact .inr ⟨_, hset, ⟨rfl, fun _ => hclean row hstored hdeletable⟩⟩
          · exact .inl (hset.trans (hrow.symm.trans hsame))
        · rw [hreads] at hw
          cases hw
  · have happly : (LedgerOp.applyDeletion deps.scope key).Fine {k} := trivial
    have hfine := decision_fine happly hc
    obtain ⟨-, hkept⟩ | ⟨op, rfl, -, haim, hset⟩ := exec_row_some (i := i) (c := c) hrow
    · exact .inr ⟨row, hkept, her⟩
    · exact .inr ⟨_, hset, LedgerOp.Fine.keeps_erased (hfine op rfl) rfl haim her⟩

end Apply

section History

variable {erased : Set ItemKey} {store : Store (T.observed Item Raw)}

theorem resolve_recorded (now : Instant) (r : Resolution) {row : ItemRow} (h : row.status.recorded) :
    (r.set now row).status.recorded := by
  cases r with
  | resolveFailure action =>
    cases action with
    | accept => rfl
    | retry => exact h
  | resolveMove | resolveDeletion => exact h

theorem resolve_erased (now : Instant) (r : Resolution) {row : ItemRow} (h : row.Erased) : (r.set now row).Erased := by
  cases r with
  | resolveFailure action =>
    cases action with
    | accept =>
      refine ⟨h.applied, fun ht => ?_⟩
      cases ht
    | retry => exact ⟨h.applied, h.unmoved⟩
  | resolveMove | resolveDeletion => exact ⟨h.applied, h.unmoved⟩

theorem resolve_sound {L : Ledger} (h : Sound erased L) (now : Instant) (key : ItemKey) (r : Resolution) :
    Sound erased (r.exec L now key).2 := by
  unfold Resolution.exec
  split
  · rename_i row hrow
    obtain ⟨hlook, -⟩ := Option.filter_eq_some_iff.mp hrow
    refine ⟨fun k row' hrow' => ?_, fun k hk => ?_⟩
    · rw [replace_lookup] at hrow'
      split at hrow'
      · rename_i hkk
        subst hkk
        simp only [hlook, Option.map_some, Option.some.injEq] at hrow'
        subst hrow'
        exact resolve_recorded now r (h.recorded _ row hlook)
      · exact h.recorded k row' hrow'
    · obtain ⟨old, hold, her⟩ := h.erased k hk
      by_cases hkk : key = k
      · subst hkk
        rw [hlook] at hold
        cases hold
        exact ⟨r.set now row, by simp [replace_lookup, hlook], resolve_erased now r her⟩
      · exact ⟨old, by simp [replace_lookup, hkk, hold], her⟩
  · exact h

theorem Sound.union {erased' : Set ItemKey} {L : Ledger} (h : Sound erased L)
    (h' : ∀ key ∈ erased', ∃ row, L.lookup key = some row ∧ row.Erased) : Sound (erased ∪ erased') L where
  recorded := h.recorded
  erased key hkey := hkey.elim (h.erased key) (h' key)

theorem round_sound (hs : Sound erased store.ledger) (r : Round T Item Folder Raw) (hr : r.Clean store) :
    Sound (erased ∪ r.erases store) (r.ending store).ledger := by
  cases r with
  | pass d choices => exact Sound.union (pass_calls hr choices hs).1 fun _ h => h.elim
  | deletion deps key choices =>
    have happly : (LedgerOp.applyDeletion deps.scope key).Fine erased := trivial
    refine Sound.union (apply_sound happly (applyDeletion_emits decision_consults _ (.inl rfl)) choices hs) ?_
    rintro k ⟨hnot, row, hrow, htomb⟩
    obtain hsame | herased := deletion_rows hr choices k
    · exact absurd ⟨row, hsame.symm.trans hrow, htomb⟩ hnot
    · exact herased
  | relocation deps key choices =>
    have happly : (LedgerOp.applyRelocation deps.scope key).Fine erased := trivial
    exact Sound.union (apply_sound happly (applyRelocation_emits decision_consults _ (.inl rfl)) choices hs)
      fun _ h => h.elim
  | resolve key now r => exact Sound.union (resolve_sound hs now key r) fun _ h => h.elim

theorem history_sound {rounds : List (Round T Item Folder Raw)} (hs : Sound erased store.ledger)
    (hrounds : EveryRound store rounds) : Sound (erased ∪ erasedBy store rounds) (after store rounds).ledger := by
  induction rounds generalizing store erased with
  | nil => exact Sound.union hs fun _ h => h.elim
  | cons r rounds ih =>
    have hrest := ih (round_sound hs r hrounds.1) hrounds.2
    rwa [Set.union_assoc] at hrest

theorem EveryRound.append {rounds rounds' : List (Round T Item Folder Raw)}
    (h : EveryRound store (rounds ++ rounds')) : EveryRound store rounds ∧ EveryRound (after store rounds) rounds' := by
  induction rounds generalizing store with
  | nil => exact ⟨trivial, h⟩
  | cons r rounds ih =>
    obtain ⟨hrest, hrest'⟩ := ih h.2
    exact ⟨⟨h.1, hrest⟩, hrest'⟩

/-- Whatever has happened to the ledger before, a pass hands the writer no item that was left behind, is
parked, or has been removed on an owner's word, and has it overwrite only outdated copies of ours. -/
theorem only_own_copies_rewritten {store : Store (T.observed Item Raw)}
    (hstatus : ∀ key row, store.ledger.lookup key = some row → row.status.recorded)
    {before : List (Round T Item Folder Raw)} {d : DomainSyncDeps T Item Folder Raw} {choices : Choices T Item Raw}
    (hclean : EveryRound store (before ++ [.pass d choices])) {th : Option ℕ} {call : WriterCall Item Raw}
    {i : Input (T.observed Item Raw)} {w : World (T.observed Item Raw)}
    (hcall : Event.exec th (.called call) i w ∈ (⟨d.observed, choices⟩ : Pass _ _ _ _).trace (after store before)) :
    Permits d (erasedBy store before) w.1.ledger call := by
  obtain ⟨hbefore, hkeys, -⟩ := hclean.append
  have hstart : Sound ∅ store.ledger := ⟨hstatus, fun _ h => h.elim⟩
  have hsound := history_sound hstart hbefore
  rw [Set.empty_union] at hsound
  exact (pass_calls hkeys choices hsound).2 th call i w hcall

end History

section Sample

open Dav

def calls (evs : List (Event (World (T.observed Item Raw)) (Cmd (T.observed Item Raw))
    (Input (T.observed Item Raw)) T.Act)) : List (WriterCall Item Raw × World (T.observed Item Raw)) :=
  evs.filterMap fun
    | .exec _ (.target (.inr call)) _ w => some (call, w)
    | _ => none

theorem mem_calls {evs : List (Event (World (T.observed Item Raw)) (Cmd (T.observed Item Raw))
    (Input (T.observed Item Raw)) T.Act)} {x : WriterCall Item Raw × World (T.observed Item Raw)}
    (h : x ∈ calls evs) : ∃ th i, Event.exec th (.called x.1) i x.2 ∈ evs := by
  obtain ⟨ev, hev, hcall⟩ := List.mem_filterMap.mp h
  cases ev with
  | act a w => cases hcall
  | exec th c i w =>
    cases c with
    | target c =>
      rcases c with c | call
      · cases hcall
      · cases hcall
        exact ⟨th, i, hev⟩
    | _ => cases hcall

abbrev Sample.Api : TargetApi := (api Dav.Sample.endpoint).observed FileItem RawFileItem

def Sample.inputs (n : ℕ) : Choices (api Dav.Sample.endpoint) FileItem RawFileItem :=
  List.replicate n (.run 0 ⟨1, none, { delivery := .served }⟩)

def Sample.filesStore : Store Sample.Api := ⟨∅, ∅, ⟨∅, [], 0⟩⟩

/-- A source that holds the given files and has the others in its bin. -/
def Sample.filePass (files : List FileItem) (binned : List String) :
    DomainSyncDeps (api Dav.Sample.endpoint) FileItem CollectionFolder RawFileItem :=
  fileSync Dav.Sample.endpoint Dav.Sample.webDAV Dav.Sample.sha256Hex Dav.Sample.contentHash Dav.Sample.deps
    { listFolders := .ok [⟨"", none⟩]
      listSince := fun _ _ => .ok ⟨files, "1", []⟩
      fetch := fun _ => .ok none
      listTrashedPaths := some (.ok ⟨binned, 0, none⟩) }

def Sample.edited (version : String) : DomainSyncDeps (api Dav.Sample.endpoint) FileItem CollectionFolder RawFileItem :=
  Sample.filePass [{ Dav.Sample.file "a.txt" with etag := some version }] []

theorem Sample.edited_oneKeyEach (version : String) : OneKeyEach (Sample.edited version) := by
  rintro folder prev listing hlisting n m item item' key hn hm - -
  cases hlisting
  have hn' : n < 1 := (List.getElem?_eq_some_iff.mp hn).1
  have hm' : m < 1 := (List.getElem?_eq_some_iff.mp hm).1
  omega

def Sample.editedTrace : List (Event (World Sample.Api) (Cmd Sample.Api) (Input Sample.Api) OwnerAct) :=
  (⟨(Sample.edited "2").observed, Sample.inputs 60⟩ : Pass _ _ _ _).trace
    (after Sample.filesStore [.pass (Sample.edited "1") (Sample.inputs 60)])

/-- A file that was copied and has been edited since is overwritten. -/
theorem only_own_copies_rewritten_edited :
    ∃ x ∈ calls Sample.editedTrace, x.1.options.overwrite = true ∧
      Permits (Sample.edited "2") (erasedBy Sample.filesStore [.pass (Sample.edited "1") (Sample.inputs 60)])
        x.2.1.ledger x.1 := by
  have hcalls : (calls Sample.editedTrace).map (fun x => x.1.options.overwrite) = [true] := by decide +kernel
  have hmem : true ∈ (calls Sample.editedTrace).map (fun x => x.1.options.overwrite) := by simp [hcalls]
  obtain ⟨x, hx, hover⟩ := List.mem_map.mp hmem
  obtain ⟨th, i, hev⟩ := mem_calls hx
  have hclean : EveryRound Sample.filesStore
      ([.pass (Sample.edited "1") (Sample.inputs 60)] ++ [.pass (Sample.edited "2") (Sample.inputs 60)]) :=
    ⟨Sample.edited_oneKeyEach "1", Sample.edited_oneKeyEach "2", trivial⟩
  exact ⟨x, hx, hover, only_own_copies_rewritten (fun _ _ h => absurd h (by simp [Sample.filesStore])) hclean hev⟩

/-- `a.txt` is copied; it is found again as `b.txt` and in the bin; its copy is removed. -/
def Sample.movedAndBinned : List (Round (api Dav.Sample.endpoint) FileItem CollectionFolder RawFileItem) :=
  [.pass (Sample.filePass [Dav.Sample.file "a.txt"] []) (Sample.inputs 60),
    .pass (Sample.filePass [Dav.Sample.file "b.txt"] ["a.txt"]) (Sample.inputs 60),
    .deletion Dav.Sample.apply (Dav.Sample.sha256Hex "file:a.txt") (Sample.inputs 30)]

def Sample.restored : DomainSyncDeps (api Dav.Sample.endpoint) FileItem CollectionFolder RawFileItem :=
  Sample.filePass [Dav.Sample.file "a.txt", Dav.Sample.file "b.txt"] []

def Sample.restoredTrace : List (Event (World Sample.Api) (Cmd Sample.Api) (Input Sample.Api) OwnerAct) :=
  (⟨Sample.restored.observed, Sample.inputs 80⟩ : Pass _ _ _ _).trace (after Sample.filesStore Sample.movedAndBinned)

def Sample.fileKey : ItemKey := ⟨"t", "m", Dav.Sample.sha256Hex "file:a.txt"⟩

set_option maxRecDepth 10000 in
theorem Sample.restored_call :
    (calls Sample.restoredTrace).map (fun x => (x.1.item.path, (x.2.row Sample.fileKey).map
      fun row => (row.domain, row.status))) = [("a.txt", some (.file, .tombstoned))] := by
  decide +kernel

theorem Sample.erased_key : Sample.fileKey ∈ erasedBy Sample.filesStore Sample.movedAndBinned := by
  have hbefore : ((after Sample.filesStore (Sample.movedAndBinned.take 2)).ledger.lookup Sample.fileKey).map (·.status) =
      some .copied := by decide +kernel
  have hafter : ((after Sample.filesStore Sample.movedAndBinned).ledger.lookup Sample.fileKey).map (·.status) =
      some .tombstoned := by decide +kernel
  refine .inr (.inr (.inl ⟨?_, ?_⟩))
  · rintro ⟨row, hrow, htomb⟩
    have hrow' : (after Sample.filesStore (Sample.movedAndBinned.take 2)).ledger.lookup Sample.fileKey = some row := hrow
    rw [hrow', Option.map_some, htomb] at hbefore
    cases hbefore
  · obtain ⟨row, hrow, htomb⟩ := Option.map_eq_some_iff.mp hafter
    exact ⟨row, hrow, htomb⟩

/-- The file is back from the bin: its tombstone names the key it had moved to, and it is written again. -/
theorem erased_item_written :
    ∃ x ∈ calls Sample.restoredTrace,
      ¬ Permits Sample.restored (erasedBy Sample.filesStore Sample.movedAndBinned) x.2.1.ledger x.1 := by
  have hmem : ("a.txt", some (Domain.file, ItemStatus.tombstoned)) ∈ (calls Sample.restoredTrace).map (fun x =>
      (x.1.item.path, (x.2.row Sample.fileKey).map fun row => (row.domain, row.status))) := by
    rw [Sample.restored_call]
    exact List.mem_singleton.mpr rfl
  obtain ⟨x, hx, hcols⟩ := List.mem_map.mp hmem
  simp only [Prod.mk.injEq, Option.map_eq_some_iff] at hcols
  obtain ⟨hpath, row, hrow, hdomain, hstatus⟩ := hcols
  refine ⟨x, hx, ?_⟩
  rintro ⟨key, hkey, -, hwritable⟩
  have hk : Sample.restored.scope.key key = Sample.fileKey := by
    obtain hkey | ⟨hnone, -⟩ := hkey
    · have hkey' : fileNaturalKeyHash Dav.Sample.sha256Hex x.1.item.path = key := Option.some.inj hkey
      rw [← hkey', hpath]
      decide +kernel
    · cases hnone
  have hfound : row? x.2.1.ledger Sample.restored.scope key = some row := by
    rw [row?_eq_some, hk]
    exact ⟨hrow, hdomain⟩
  have herased := (hwritable row hfound).erased hstatus
  rw [hk] at herased
  exact herased Sample.erased_key

end Sample

end OpenMigrate.Verify
