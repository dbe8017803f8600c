import OpenMigrate.Sync.Bins

namespace OpenMigrate

open Async Prog PgLedger

variable {T : TargetApi} {Item Folder Raw : Type} {scope : Scope}

section Rows

/-- Where a row stands, and the handle of the source's item it was copied from. -/
def handleOf (scope : Scope) (L : Ledger) (key : String) : Option (ItemStatus × Option String) :=
  (row? L scope key).map fun row => (row.status, row.sourceRefHref)

theorem handleOf_eq_some {L : Ledger} {key : String} {status : ItemStatus} {ref : Option String} :
    handleOf scope L key = some (status, ref) ↔
      ∃ row, row? L scope key = some row ∧ row.status = status ∧ row.sourceRefHref = ref := by
  simp [handleOf, Option.map_eq_some_iff]

theorem sets_handle {d : DomainSyncDeps T Item Folder Raw} {op : LedgerOp} (h : op.OfEnd d) (L : Ledger)
    (now : Instant) (row : ItemRow) :
    (op.sets L now row).status = row.status ∧ (op.sets L now row).sourceRefHref = row.sourceRefHref := by
  cases op with
  | find | findBySourceRef | placedItems | clearMove | recordAbsent | recordMove => exact ⟨rfl, rfl⟩
  | recordReportedDeletion | recordTrashedDeletion | clearAbsent =>
    simp only [LedgerOp.sets]
    split <;> exact ⟨rfl, rfl⟩
  | _ => exact h.elim

theorem ofEnd_handle {d : DomainSyncDeps T Item Folder Raw} {op : LedgerOp} (h : op.OfEnd d) (L : Ledger)
    (now : Instant) (key : String) : handleOf scope (PgLedger.exec L now op).2 key = handleOf scope L key := by
  have hno : op.inserts = none := by
    cases op with
    | recordIfAbsent | recordFailure => exact h.elim
    | _ => rfl
  unfold handleOf row?
  cases hr : L.lookup (scope.key key) with
  | none =>
    obtain hnone | ⟨row, hins, -⟩ := exec_lookup_none L now op hr
    · rw [hnone]
    · rw [hno] at hins
      cases hins
  | some row =>
    obtain ⟨-, hsame⟩ | ⟨-, hset⟩ := exec_lookup_some L now op hr
    · rw [hsame]
    · obtain ⟨hstatus, href⟩ := sets_handle h L now row
      have hdomain := sets_domain op L now row
      by_cases hd : row.domain = scope.domain <;> simp [hset, Option.filter, hd, hdomain, hstatus, href]

theorem resolve_of_only {L : Ledger} {ref key : String} {status : ItemStatus} (href : ref ≠ "")
    (hrow : handleOf scope L key = some (status, some ref))
    (honly : ∀ other status', handleOf scope L other = some (status', some ref) → other = key) :
    resolve L scope ref = some (key, some status) := by
  obtain ⟨row, hlook, rfl, hcarries⟩ := handleOf_eq_some.mp hrow
  have hfound : ((rows L scope).find? fun e => e.2.sourceRefHref == some ref).isSome := by
    rw [List.find?_isSome]
    exact ⟨(key, row), (mem_rows L).mpr hlook, by simp [hcarries]⟩
  obtain ⟨⟨other, row'⟩, hfind⟩ := Option.isSome_iff_exists.mp hfound
  have hlook' : row? L scope other = some row' := (mem_rows L).mp (List.mem_of_find?_eq_some hfind)
  have hcarries' : row'.sourceRefHref = some ref := by simpa using List.find?_some hfind
  obtain rfl := honly other row'.status (handleOf_eq_some.mpr ⟨row', hlook', rfl, hcarries'⟩)
  rw [hlook] at hlook'
  cases hlook'
  simp [resolve, findBySourceRef, href, hfind, ItemRow.mapRowToRecord, Scope.key]

end Rows

variable (d : DomainSyncDeps T Item Folder Raw)

section Listed

variable [FolderLike Folder]

/-- What a folder is asked for: all, or what is new since the cursor. -/
def cursorAt (folder : Folder) (w : World T) : Option String :=
  if d.cursors then w.cursor (cursorKey d.scope (collectionPath folder)) else none

/-- The handles of the folder's items with the keys they are listed under, as the source answers at this moment. -/
def listedIn (n : ℕ) (w : World T) : List (String × String) :=
  match d.listFolders with
  | .error _ => []
  | .ok folders =>
    match folders[n]? with
    | none => []
    | some folder =>
      match d.listSince folder (cursorAt d folder w) with
      | .error _ => []
      | .ok listing =>
        listing.items.filterMap fun item => (d.sourceRef item).bind fun ref => (d.naturalKey item).map (ref, ·)

/-- What is listed when a step turns to a folder. -/
def listedBy (s t : World T) : List (String × String) :=
  match t.vars.stage with
  | .folder n => if s.vars.stage = .folder n then [] else listedIn d n s
  | _ => []

def Pass.listed (p : Pass T Item Folder Raw) (store : Store T) : List (String × String) :=
  (p.trace store).flatMap fun ev => listedBy p.deps ev.pre ((machine T).post ev)

/-- The key at which an item was last listed. -/
def lastKey (listed : List (String × String)) (ref : String) : Option String :=
  ((listed.filter (·.1 == ref)).getLast?).map (·.2)

end Listed

section Marks

variable {d}

/-- No handle has moved, and the pass has listed and been told nothing more. -/
structure Unchanged (d : DomainSyncDeps T Item Folder Raw) (s t : World T) : Prop where
  rows : ∀ key, handleOf d.scope t.1.ledger key = handleOf d.scope s.1.ledger key
  seen : t.vars.seenByCollection = s.vars.seenByCollection
  removals : t.vars.reportedRemovals = s.vars.reportedRemovals

namespace Unchanged

theorem refl (s : World T) : Unchanged d s s := ⟨fun _ => rfl, rfl, rfl⟩

theorem trans {s t u : World T} (h : Unchanged d s t) (h' : Unchanged d t u) : Unchanged d s u :=
  ⟨fun key => (h'.rows key).trans (h.rows key), h'.seen.trans h.seen, h'.removals.trans h.removals⟩

theorem ofOwner {s t : World T} (h : OwnerOnly s t) : Unchanged d s t where
  rows key := by rw [h.1]
  seen := by rw [h.vars]
  removals := by rw [h.vars]

theorem ofEnd {scans : Prop} {seen : String → Prop} {c : Cmd T} (hc : (endVocabulary d scans seen).asks c)
    (i : Input T) (w : World T) : Unchanged d w (w.exec i c).2 where
  rows key := by
    obtain ⟨-, hsame⟩ | ⟨op, rfl, -, hset⟩ := exec_ledger i w c
    · rw [hsame]
    · rw [hset]
      exact ofEnd_handle hc.1 _ _ key
  seen := (end_vars_eq hc i w).seen
  removals := (end_vars_eq hc i w).reportedRemovals

end Unchanged

/-- A condition on the moment at which a handle is looked up that is about what does not change from then on. -/
def Lasting (d : DomainSyncDeps T Item Folder Raw) (ok : String → World T → Prop) : Prop :=
  ∀ ref s t, ok ref s → Unchanged d s t → ok ref t

variable (ok : String → World T → Prop)

/-- Once the removals are resolved, all their handles have been looked up. -/
def AllTold (w : World T) : Prop := w.vars.stage = .resolved → ∀ ref ∈ w.vars.reportedRemovals, ok ref w

/-- The row is that of a handle that was looked up, on the target, and not listed. -/
def MarkedFor (d : DomainSyncDeps T Item Folder Raw) (key : String) (w : World T) : Prop :=
  ∃ ref status, handleOf d.scope w.1.ledger key = some (status, some ref) ∧ isOnTarget (some status) = true ∧
    key ∉ seenAnywhere w.vars ∧ ok ref w

def toldRules (d : DomainSyncDeps T Item Folder Raw) : Rules (World T) (Cmd T) (Input T) where
  assume c _ w := ∀ ref, c = .ledger (.findBySourceRef d.scope ref) → ok ref w
  rely := OwnerOnly
  guar c s t := (∀ scope key, c = .ledger (.recordReportedDeletion scope key) → scope = d.scope ∧ MarkedFor ok d key s) ∧
    (AllTold ok s → AllTold ok t)
  refl := OwnerOnly.refl
  trans := OwnerOnly.trans

variable {ok} (hok : Lasting d ok)

theorem allTold_before {w : World T} (h : w.vars.stage ≠ .resolved) : AllTold ok w := fun hstage => absurd hstage h

include hok

theorem AllTold.unchanged {s t : World T} (h : AllTold ok s) (hst : Unchanged d s t)
    (hstage : t.vars.stage = s.vars.stage) : AllTold ok t := by
  intro ht ref href
  rw [hstage] at ht
  rw [hst.removals] at href
  exact hok ref s t (h ht ref href) hst

theorem tidy_told {scans : Prop} {seen : String → Prop} {α : Type} {p : Task T α}
    (hp : Emits (tidyVocabulary d scans seen) p (fun _ => True)) (s : World T) :
    wp (callSpec (machine T) (toldRules ok d)) p (postOk fun _ => True) s := by
  refine wp_mono (callSpec_mono _ _) _ _ _ ?_ s
    (Emits.wp_of_keeps (fun _ => True) (fun _ _ _ _ => trivial) (fun c i w hc _ _ => ?_) hp trivial)
  · intro r t _
    cases r <;> trivial
  · refine ⟨exec_hears i w c, ⟨fun scope key hmark => absurd hmark (hc.2 scope key), fun h => ?_⟩, trivial⟩
    exact AllTold.unchanged hok h (.ofEnd hc.1 i w) (end_vars_eq hc.1 i w).stage

omit hok in
theorem found_handle {L : Ledger} {ref : String} {row : LedgerRecord} (h : findBySourceRef L scope ref = some row) :
    ∃ status, row.status = some status ∧ handleOf scope L row.naturalKeyHash = some (status, some ref) := by
  obtain ⟨key, r, hlook, hcarries, rfl⟩ := findBySourceRef_eq_some L h
  exact ⟨r.status, rfl, handleOf_eq_some.mpr ⟨r, hlook, rfl, hcarries⟩⟩

theorem resolveReportedRemovals_told (refs done : List String) {s : World T} (hs : s.vars.stage ≠ .resolved) :
    wp (callSpec (machine T) (toldRules ok d)) (resolveReportedRemovals d.scope (seenAnywhere s.vars) refs done)
      (postOk fun t => t.vars.stage ≠ .resolved ∧ Unchanged d s t ∧ ∀ ref ∈ refs, ok ref t) s := by
  have hloop : ∀ done (t : World T), Unchanged d s t → t.vars.stage ≠ .resolved →
      wp (callSpec (machine T) (toldRules ok d)) (resolveReportedRemovals d.scope (seenAnywhere s.vars) refs done)
        (postOk fun u => u.vars.stage ≠ .resolved ∧ Unchanged d t u ∧ ∀ ref ∈ refs, ok ref u) t := by
    induction refs with
    | nil => exact fun done t _ ht => ⟨ht, .refl t, by simp⟩
    | cons ref rest ih =>
      intro done t hst ht
      -- what the rest looks up, after this handle has been
      have hrest : ∀ done (u : World T), Unchanged d t u → u.vars.stage ≠ .resolved → ok ref u →
          wp (callSpec (machine T) (toldRules ok d)) (resolveReportedRemovals d.scope (seenAnywhere s.vars) rest done)
            (postOk fun x => x.vars.stage ≠ .resolved ∧ Unchanged d t x ∧ ∀ r ∈ ref :: rest, ok r x) u := by
        intro done u htu hu href
        refine wp_mono (callSpec_mono _ _) _ _ _ ?_ u (ih done u (hst.trans htu) hu)
        intro r x hx
        cases r with
        | error e => trivial
        | ok out =>
          obtain ⟨hstage, hux, hall⟩ := hx
          refine ⟨hstage, htu.trans hux, fun r hr => ?_⟩
          obtain rfl | hr := List.mem_cons.mp hr
          · exact hok r u x href hux
          · exact hall r hr
      refine wp_seq ((wp_perform _ _ _ _).mpr fun u hu i hi => ?_)
      have href : ok ref u := hi ref rfl
      have hustage : u.vars.stage ≠ .resolved := by rwa [OwnerOnly.vars hu]
      have htu : Unchanged d t u := .ofOwner hu
      have hread : (PgLedger.exec u.1.ledger i.now (.findBySourceRef d.scope ref)) =
          (.ok (findBySourceRef u.1.ledger d.scope ref), u.1.ledger) := rfl
      have hanswer : (∃ reason, (machine T).exec (.ledger (.findBySourceRef d.scope ref)) i u = (.error reason, u)) ∨
          (machine T).exec (.ledger (.findBySourceRef d.scope ref)) i u =
            (.ok (findBySourceRef u.1.ledger d.scope ref), u) := by
        obtain ⟨reason, he⟩ | he := exec_read i u hread
        · exact .inl ⟨_, he⟩
        · exact .inr he
      obtain ⟨reason, he⟩ | he := hanswer
      · rw [he]
        exact ⟨⟨by simp, fun h => h⟩, trivial⟩
      rw [he]
      refine ⟨⟨by simp, fun h => h⟩, ?_⟩
      cases hfind : findBySourceRef u.1.ledger d.scope ref with
      | none => exact hrest done u htu hustage href
      | some row =>
        obtain ⟨status, hstatus, hhandle⟩ := found_handle hfind
        change wp _ (if _ then _ else _) _ u
        split
        · exact hrest done u htu hustage href
        · rename_i hmark
          simp only [hstatus, Bool.or_eq_true, Bool.not_eq_true', List.contains_iff_mem, not_or] at hmark
          obtain ⟨⟨hon, hunseen⟩, -⟩ := hmark
          refine wp_seq ((wp_perform _ _ _ _).mpr fun x hx i' _ => ?_)
          have hux : Unchanged d u x := .ofOwner hx
          have hend : (endVocabulary d False fun _ => True).asks
              (.ledger (.recordReportedDeletion d.scope row.naturalKeyHash) : Cmd T) := ⟨rfl, by simp [LedgerOp.clears]⟩
          have hxy : Unchanged d x (x.exec i' (.ledger (.recordReportedDeletion d.scope row.naturalKeyHash))).2 :=
            .ofEnd hend i' x
          have hxstage : x.vars.stage ≠ .resolved := by rwa [OwnerOnly.vars hx]
          have hystage := (end_vars_eq hend i' x).stage
          refine ⟨⟨?_, fun _ => allTold_before ?_⟩, ?_⟩
          · rintro scope key ⟨⟩
            refine ⟨rfl, ref, status, (hux.rows _).trans hhandle, by simpa using hon, ?_, hok ref u x href hux⟩
            rw [seenAnywhere, ((hst.trans htu).trans hux).seen]
            exact hunseen
          · exact fun h => hxstage (hystage.symm.trans h)
          have hafter := hrest (row.naturalKeyHash :: done) _ (htu.trans (hux.trans hxy))
            (fun h => hxstage (hystage.symm.trans h)) (hok ref u _ href (hux.trans hxy))
          cases ((machine T).exec (.ledger (.recordReportedDeletion d.scope row.naturalKeyHash)) i' x).1 with
          | error e => trivial
          | ok recorded =>
            refine wp_seq (wp_mono (callSpec_mono _ _) _ _ _ ?_ _ hafter)
            intro r z hz
            cases r with
            | error e => trivial
            | ok out =>
              change wp _ (if _ then _ else _) _ z
              split <;> exact hz
  exact hloop done s (.refl s) hs

theorem resolveRemovals_told {s : World T} (hs : s.vars.stage ≠ .resolved) :
    wp (callSpec (machine T) (toldRules ok d)) (resolveRemovals d) (postOk fun _ => True) s := by
  refine wp_seq ((wp_perform _ _ _ _).mpr fun t ht i _ => ⟨⟨by simp, fun h => h⟩, ?_⟩)
  have htstage : t.vars.stage ≠ .resolved := by rwa [OwnerOnly.vars ht]
  refine wp_seq (wp_mono (callSpec_mono _ _) _ _ _ ?_ t
    (resolveReportedRemovals_told hok (newSet t.vars.reportedRemovals) [] htstage))
  intro r u hu
  cases r with
  | error e => trivial
  | ok reported =>
    obtain ⟨-, htu, hall⟩ := hu
    intro x hx i' _
    have hux : Unchanged d u x := .ofOwner hx
    refine ⟨⟨by simp, fun _ _ ref href => ?_⟩, trivial⟩
    change ref ∈ x.vars.reportedRemovals at href
    rw [hux.removals, htu.removals] at href
    refine hok ref u _ (hall ref ((mem_newSet _ _).mpr href)) (hux.trans ?_)
    exact ⟨fun _ => rfl, rfl, rfl⟩

/-- What is asked before that: nothing that marks a row, or would take the pass as far. -/
def folderVocabulary (T : TargetApi) : Vocabulary (Cmd T) Cmd.Resp PassError where
  asks c := (earlyVocabulary T).asks c ∧ ∀ scope key, c ≠ .ledger (.recordReportedDeletion scope key)
  hears := Cmd.Hears

variable [FolderLike Folder]

omit hok in
theorem folder_hosts (d : DomainSyncDeps T Item Folder Raw) : FolderHosts d (folderVocabulary T) where
  cursorGet _ := ⟨trivial, by simp⟩
  cursorSet _ _ _ _ := ⟨trivial, by simp⟩
  modify _ hf := ⟨fun v hv => (hf v).stage hv, by simp⟩
  vars := ⟨trivial, by simp⟩
  worker at_ item _ := by
    refine (syncItem_emits (recordsUnder_any d item)).weaken ?_ fun _ _ h => h
    intro c hc
    cases c with
    | modify f =>
      refine ⟨fun v hv => ?_, by simp⟩
      rwa [← (hc v).stage]
    | ledger op =>
      refine ⟨trivial, ?_⟩
      rintro scope key ⟨⟩
      exact hc.elim
    | target | vars => exact ⟨trivial, by simp⟩
    | cursorGet | cursorSet => exact hc.elim

omit hok in
theorem syncFolders_told {s : World T} (hs : s.vars.stage ≠ .resolved) :
    wp (mainSpec (machine T) (toldRules ok d)) (syncFolders d) (postOk fun t => t.vars.stage ≠ .resolved) s := by
  refine wp_mono (mainSpec_mono _ _) _ _ _ ?_ s
    (MainEmits.wp_of_keeps (fun w : World T => w.vars.stage ≠ .resolved) (fun s t h ho => ?_) (fun c i w hc _ hw => ?_)
      (folder_hosts d).syncFolders hs)
  · rintro r t ⟨-, ht⟩
    cases r with
    | error e => trivial
    | ok _ => exact ht
  · rwa [OwnerOnly.vars ho]
  · have hstage : (w.exec i c).2.vars.stage ≠ .resolved := by
      obtain ⟨f, rfl⟩ | hvars := exec_vars i w c
      · exact fun h => hw (hc.1 w.vars h)
      · rwa [hvars]
    exact ⟨exec_hears i w c, ⟨fun scope key hmark => absurd hmark (hc.2 scope key), fun _ => allTold_before hstage⟩, hstage⟩

theorem runDomainSync_told {s : World T} (hs : s.vars.stage ≠ .resolved) :
    wp (mainSpec (machine T) (toldRules ok d)) (runDomainSync d) (fun _ _ => True) s := by
  have hlift : ∀ {α β : Type} {p : Task T α} {f : α → MainTask T β} {t : World T},
      wp (callSpec (machine T) (toldRules ok d)) p (postOk fun _ => True) t →
      (∀ a u, wp (mainSpec (machine T) (toldRules ok d)) (f a) (fun _ _ => True) u) →
      wp (mainSpec (machine T) (toldRules ok d)) ((Main.lift p).bind f) (fun _ _ => True) t := by
    intro α β p f t hp hf
    refine wp_seq ((wp_lift _ _ _ _).mpr (wp_mono (callSpec_mono _ _) _ _ _ ?_ t hp))
    intro r u _
    cases r with
    | error e => trivial
    | ok a => exact hf a u
  refine wp_seq (wp_mono (mainSpec_mono _ _) _ _ _ ?_ s (syncFolders_told hs))
  intro r t ht
  cases r with
  | error e => trivial
  | ok _ =>
  have hbins : Emits (tidyVocabulary d True fun _ => True) (readBins d) (fun _ => True) := readBins_tidy trivial
  have hmoves : Emits (tidyVocabulary d True fun _ => True) (detectMoves d) (fun _ => True) :=
    detectMoves_tidy fun _ => trivial
  have hvars : Emits (tidyVocabulary d True fun _ => True) Task.vars (fun _ => True) := tidy_vars
  refine hlift (resolveRemovals_told hok ht) fun _ u => hlift (tidy_told hok hbins u) fun _ v => ?_
  exact hlift (tidy_told hok hmoves v) fun _ x => hlift (tidy_told hok hvars x) fun _ _ => trivial

omit hok in
theorem pass_told {p : Pass T Item Folder Raw} {store : Store T} (hp : Lasting p.deps ok)
    (hlookups : ∀ th ref i w, Event.exec th (.ledger (.findBySourceRef p.deps.scope ref)) i w ∈ p.trace store → ok ref w) :
    AllTold ok (p.ending store) ∧
      ∀ th scope key i w, Event.exec th (.ledger (.recordReportedDeletion scope key)) i w ∈ p.trace store →
        scope = p.deps.scope ∧ MarkedFor ok p.deps key w := by
  have hstart : (World.vars (store, PassState.fresh T)).stage ≠ .resolved := by simp [World.vars, PassState.fresh]
  have hgood : Conf.Good (machine T) (toldRules ok p.deps) (fun _ _ => True) (p.start store) :=
    runDomainSync_told hp hstart
  have hkept := (hgood.run (machine T) _ (fun _ _ _ _ _ => trivial) p.choices (fun ev hev => ?_)).1
  · refine ⟨(machine T).run_keeps (fun ev hev hpre => ?_) (allTold_before hstart), fun th scope key i w hev => ?_⟩
    · cases ev with
      | exec th c i w => exact (hkept _ hev).2 hpre
      | act a w => exact AllTold.unchanged hp hpre (.ofOwner (hkept _ hev)) rfl
    · exact (hkept _ hev).1 scope key rfl
  · cases ev with
    | exec th c i w =>
      rintro ref rfl
      exact hlookups th ref i w hev
    | act a w => exact OwnerOnly.act a w

end Marks

/-- The condition on the moment at which a reported handle is looked up. -/
structure Told (scope : Scope) (last : Option String) (listed : List (String × String)) (ref : String)
    (w : World T) : Prop where
  gone : ∀ key ∈ last, ∀ status carried, handleOf scope w.1.ledger key = some (status, carried) →
    isOnTarget (some status) = true →
      (ref ≠ "" ∧ carried = some ref ∧
        ∀ other status', handleOf scope w.1.ledger other = some (status', some ref) → other = key) ∧
      key ∉ seenAnywhere w.vars
  alive : ∀ place, (ref, place) ∈ listed → ∀ key status, handleOf scope w.1.ledger key = some (status, some ref) →
    isOnTarget (some status) = true → key = place ∨ key ∈ seenAnywhere w.vars

theorem told_lasting (last : String → Option String) (listed : List (String × String)) :
    Lasting d fun ref w => Told d.scope (last ref) listed ref w := by
  rintro ref s t ⟨hgone, halive⟩ hst
  have hrows : handleOf d.scope t.1.ledger = handleOf d.scope s.1.ledger := funext hst.rows
  rw [← hrows] at hgone halive
  constructor
  · intro key hkey status carried hrow hon
    rw [seenAnywhere, hst.seen]
    exact hgone key hkey status carried hrow hon
  · intro place hplace key status hrow hon
    rw [seenAnywhere, hst.seen]
    exact halive place hplace key status hrow hon

variable [FolderLike Folder]

/-- What a pass is to do with the removals its source reports, after what was listed in `earlier` passes. -/
structure MarksWhatWent (earlier : List (String × String)) (p : Pass T Item Folder Raw) (store : Store T) : Prop where
  marks : (p.ending store).vars.stage = .resolved → ∀ ref ∈ (p.ending store).vars.reportedRemovals,
    ∀ key ∈ lastKey (earlier ++ p.listed store) ref, ∀ row,
      row? (p.ending store).1.ledger p.deps.scope key = some row → isOnTarget (some row.status) = true →
        row.deletionReportedAt ≠ none
  spares : ∀ th scope key i w, Event.exec th (.ledger (.recordReportedDeletion scope key)) i w ∈ p.trace store →
    ∀ row ref place, row? w.1.ledger scope key = some row → row.sourceRefHref = some ref →
      (ref, place) ∈ p.listed store → place = key

theorem marks_what_went {earlier : List (String × String)} {p : Pass T Item Folder Raw} {store : Store T}
    (htold : ∀ th ref i w, Event.exec th (.ledger (.findBySourceRef p.deps.scope ref)) i w ∈ p.trace store →
      Told p.deps.scope (lastKey (earlier ++ p.listed store) ref) (p.listed store) ref w) :
    MarksWhatWent earlier p store := by
  obtain ⟨hall, hmarked⟩ := pass_told (told_lasting p.deps _ _) htold
  constructor
  · intro hstage ref href key hkey row hrow hon
    have hhandle : handleOf p.deps.scope (p.ending store).1.ledger key = some (row.status, row.sourceRefHref) :=
      handleOf_eq_some.mpr ⟨row, hrow, rfl, rfl⟩
    obtain ⟨⟨hne, hcarries, honly⟩, hunseen⟩ := (hall hstage ref href).gone key hkey _ _ hhandle hon
    rw [hcarries] at hhandle
    have hresolve := resolve_of_only hne hhandle honly
    obtain ⟨row', hrow', hmark⟩ := ending_marked p store hstage ref href key _ hresolve hon hunseen
    rw [hrow] at hrow'
    cases hrow'
    exact hmark
  · intro th scope key i w hev row ref place hrow hcarries hplace
    obtain ⟨rfl, ref', status, hhandle, hon, hunseen, htold'⟩ := hmarked th scope key i w hev
    obtain ⟨row', hrow', rfl, hcarries'⟩ := handleOf_eq_some.mp hhandle
    rw [hrow] at hrow'
    cases hrow'
    rw [hcarries] at hcarries'
    cases hcarries'
    obtain heq | hseen := htold'.alive place hplace key _ hhandle hon
    · exact heq.symm
    · exact absurd hseen hunseen

end OpenMigrate
