import OpenMigrate.Sync.Cursor
import OpenMigrate.Sync.Signals

namespace OpenMigrate

open Async Prog PgLedger

variable {T : TargetApi} {Item Folder Raw : Type} {scope : Scope} {L : Ledger}

theorem resolve_row {ref key : String} {status : Option ItemStatus} (h : resolve L scope ref = some (key, status)) :
    ∃ row, row? L scope key = some row := by
  obtain ⟨r, hr, he⟩ := Option.map_eq_some_iff.mp h
  obtain ⟨k, row, hrow, -, rfl⟩ := findBySourceRef_eq_some L hr
  cases he
  exact ⟨row, hrow⟩

variable (d : DomainSyncDeps T Item Folder Raw) [FolderLike Folder]

omit [FolderLike Folder] in
theorem ofEnd_resolve {op : LedgerOp} (h : op.OfEnd d) (now : Instant) (scope : Scope) (ref : String) :
    resolve (exec L now op).2 scope ref = resolve L scope ref := by
  cases op with
  | find | findBySourceRef | placedItems => rfl
  | recordReportedDeletion | recordTrashedDeletion =>
    refine recordDeletion_resolve L ?_ scope ref
    exact fun _ => ⟨rfl, rfl, rfl⟩
  | clearMove | clearAbsent | recordAbsent | recordMove =>
    refine update_resolve L ?_ scope ref
    exact fun _ => ⟨rfl, rfl, rfl⟩
  | _ => exact h.elim

variable {d}

/-- Every reference among `refs` whose row is on the target and was not listed is marked as reported. -/
def Reported (scope : Scope) (seen refs : List String) (ρ : String → Option (String × Option ItemStatus))
    (L : Ledger) : Prop :=
  ∀ ref ∈ refs, ∀ key status, ρ ref = some (key, status) → isOnTarget status = true → key ∉ seen →
    Signalled .reported scope key L

section Resolving

/-- While the removals are resolved: what references resolve to does not change, and what is done is done. -/
structure Resolving (scope : Scope) (v : PassVars) (ρ : String → Option (String × Option ItemStatus))
    (done : List String) (w : World T) : Prop where
  vars : w.vars = v
  resolve : ∀ ref, resolve w.1.ledger scope ref = ρ ref
  done : ∀ key ∈ done, Signalled .reported scope key w.1.ledger

variable {v : PassVars} {ρ : String → Option (String × Option ItemStatus)}

theorem Resolving.owner {done : List String} {s t : World T} (h : Resolving scope v ρ done s) (ho : OwnerOnly s t) :
    Resolving scope v ρ done t where
  vars := ho.vars.trans h.vars
  resolve ref := by rw [ho.1]; exact h.resolve ref
  done key hkey := by rw [ho.1]; exact h.done key hkey

theorem resolveReportedRemovals_reports (seen refs : List String) {done : List String} {s : World T}
    (hs : Resolving scope v ρ done s) :
    wp (callSpec (machine T) (ownerRules T).free) (resolveReportedRemovals scope seen refs done)
      (postOk fun t => Resolving scope v ρ done t ∧ Reported scope seen refs ρ t.1.ledger) s := by
  induction refs generalizing done s with
  | nil => exact ⟨hs, by simp [Reported]⟩
  | cons ref rest ih =>
    have hstable : ∀ s t : World T, Resolving scope v ρ done s → (ownerRules T).rely s t → Resolving scope v ρ done t :=
      fun _ _ h ho => h.owner ho
    -- what the rest leaves is enough when this reference is settled already
    have hrest : ∀ t : World T, Resolving scope v ρ done t →
        (∀ key status, ρ ref = some (key, status) → isOnTarget status = true → key ∉ seen → key ∈ done) →
        wp (callSpec (machine T) (ownerRules T).free) (resolveReportedRemovals scope seen rest done)
          (postOk fun t => Resolving scope v ρ done t ∧ Reported scope seen (ref :: rest) ρ t.1.ledger) t := by
      intro t ht hdone
      refine wp_mono (callSpec_mono _ _) _ _ _ ?_ t (ih ht)
      intro r u hu
      cases r with
      | error e => trivial
      | ok out =>
        refine ⟨hu.1, fun x hx key status hρ hon hseen => ?_⟩
        obtain rfl | hx := List.mem_cons.mp hx
        · exact hu.1.done key (hdone key status hρ hon hseen)
        · exact hu.2 x hx key status hρ hon hseen
    refine wp_seq (free_read hstable hs (.findBySourceRef scope ref) (fun _ _ => rfl) ?_ fun _ _ _ => trivial)
    intro t ht
    have hρ := ht.resolve ref
    unfold resolve at hρ
    cases hfind : findBySourceRef t.1.ledger scope ref with
    | none =>
      rw [hfind] at hρ
      exact hrest t ht fun key status h => by rw [← hρ] at h; cases h
    | some row =>
      rw [hfind, Option.map_some] at hρ
      change wp _ (if _ then _ else _) _ t
      split
      · rename_i hskip
        refine hrest t ht fun key status h hon hseen => ?_
        rw [← hρ] at h
        cases h
        simpa [hon, hseen] using hskip
      · refine wp_seq (free_write hstable ht ?_ fun _ _ _ => trivial)
        intro u now hu
        obtain ⟨row', hrow'⟩ := resolve_row ((hu.resolve ref).trans hρ.symm)
        have hafter : Resolving scope v ρ (row.naturalKeyHash :: done)
            (u.setLedger (exec u.1.ledger now (.recordReportedDeletion scope row.naturalKeyHash)).2) := by
          have hmark : Signalled .reported scope row.naturalKeyHash
              (exec u.1.ledger now (.recordReportedDeletion scope row.naturalKeyHash)).2 := record_signals hrow' now
          refine ⟨hu.vars, fun x => ?_, fun key hkey => ?_⟩
          · refine Eq.trans (recordDeletion_resolve u.1.ledger ?_ scope x) (hu.resolve x)
            exact fun _ => ⟨rfl, rfl, rfl⟩
          · obtain rfl | hkey := List.mem_cons.mp hkey
            · exact hmark
            · exact ledger_signalled (hu.done key hkey) (by simp [LedgerOp.clears])
        refine wp_seq (wp_mono (callSpec_mono _ _) _ _ _ ?_ _ (ih hafter))
        intro r x hv
        cases r with
        | error e => trivial
        | ok out =>
          have hpost : Resolving scope v ρ done x ∧ Reported scope seen (ref :: rest) ρ x.1.ledger := by
            refine ⟨⟨hv.1.vars, hv.1.resolve, fun key hkey => hv.1.done key (List.mem_cons_of_mem _ hkey)⟩, ?_⟩
            intro href hmem key status h hon hseen
            obtain rfl | hmem := List.mem_cons.mp hmem
            · rw [← hρ] at h
              cases h
              exact hv.1.done _ List.mem_cons_self
            · exact hv.2 href hmem key status h hon hseen
          change wp _ (if _ then _ else _) _ x
          split <;> exact hpost

end Resolving

theorem mem_newSet (xs : List String) (x : String) : x ∈ newSet xs ↔ x ∈ xs := by
  have hfold : ∀ acc : List String,
      x ∈ xs.foldl (fun acc y => if y ∈ acc then acc else acc ++ [y]) acc ↔ x ∈ acc ∨ x ∈ xs := by
    induction xs with
    | nil => simp
    | cons y ys ih =>
      intro acc
      rw [List.foldl_cons, ih]
      split
      · rename_i hy
        constructor
        · rintro (h | h)
          · exact .inl h
          · exact .inr (List.mem_cons_of_mem y h)
        · rintro (h | h)
          · exact .inl h
          · obtain rfl | h := List.mem_cons.mp h
            · exact .inl hy
            · exact .inr h
      · simp [or_assoc]
  simpa [newSet] using hfold []

def RemovalsMarked (scope : Scope) (w : World T) : Prop :=
  w.vars.stage = .resolved →
    Reported scope (seenAnywhere w.vars) w.vars.reportedRemovals (resolve w.1.ledger scope) w.1.ledger

theorem removalsMarked_loop (w : World T) (h : InLoop w) : RemovalsMarked scope w := by
  intro hstage
  obtain hl | ⟨n, hn⟩ := h
  · rw [hl] at hstage
    cases hstage
  · rw [hn] at hstage
    cases hstage

theorem resolveRemovals_marks {s : World T} (hs : InLoop s) :
    wp (callSpec (machine T) (cursorRules d (RemovalsMarked d.scope))) (resolveRemovals d)
      (postOk fun t => t.vars.stage = .resolved) s := by
  refine wp_seq ((wp_perform _ _ _ _).mpr fun t ht i _ => ⟨same_guar (by simp), ?_⟩)
  have hloop : InLoop t := hs.owner ht
  refine wp_seq (wp_of_free _ ?_ ?_)
  · have hstart : Resolving d.scope t.vars (resolve t.1.ledger d.scope) [] t := ⟨rfl, fun _ => rfl, by simp⟩
    have hreports := resolveReportedRemovals_reports (seenAnywhere t.vars) (newSet t.vars.reportedRemovals) hstart
    refine wp_mono (callSpec_mono _ _) _ _ _ ?_ t (wp_weaken _ ?_ ?_ ?_ hreports)
    rotate_left
    · exact fun _ _ _ h => h
    · exact fun _ _ h => h
    · exact fun _ _ _ h => h
    intro r u hu
    cases r with
    | error e => trivial
    | ok reported =>
      intro x hx i _
      refine ⟨⟨by rintro _ _ ⟨⟩, fun _ _ => ?_⟩, rfl⟩
      obtain ⟨hres, hrep⟩ := hu
      have hx' := hres.owner hx
      intro ref href key status hρ hon hseen
      change ref ∈ x.vars.reportedRemovals at href
      change key ∉ seenAnywhere x.vars at hseen
      rw [hx'.vars] at href hseen
      rw [← hx.1] at hrep
      exact hrep ref ((mem_newSet _ _).mpr href) key status ((hx'.resolve ref).symm.trans hρ) hon hseen
  · have hemits : Emits (endVocabulary d False fun _ => True) (resolveReportedRemovals d.scope (seenAnywhere t.vars)
        (newSet t.vars.reportedRemovals) []) (fun _ => True) := resolveReportedRemovals_emits _ _ _
    refine wp_mono (callSpec_mono _ _) _ _ _ (fun _ _ _ => trivial) t
      (Emits.wp InLoop (fun c i w => exec_hears i w c) (fun s t h ho => InLoop.owner h ho) ?_ hemits hloop)
    intro c i w hc _ hw
    have hafter : InLoop (w.exec i c).2 := by
      rw [InLoop, (end_vars_eq hc i w).stage]
      exact hw
    refine ⟨⟨?_, fun _ => removalsMarked_loop _ hafter⟩, hafter⟩
    rintro key value rfl
    exact hc.1.elim

omit [FolderLike Folder] in
theorem end_marks {seen : String → Prop} {c : Cmd T} (hc : (endVocabulary d True seen).asks c) (i : Input T)
    {w : World T} (hseen : ∀ key, seen key → key ∈ seenAnywhere w.vars) (h : RemovalsMarked d.scope w) :
    RemovalsMarked d.scope (w.exec i c).2 := by
  have hvars := end_vars_eq hc i w
  intro hstage ref href key status hρ hon hunseen
  rw [hvars.stage] at hstage
  rw [hvars.reportedRemovals] at href
  rw [seenAnywhere, hvars.seen] at hunseen
  refine exec_signalled ?_ ?_
  · refine h hstage ref href key status ?_ hon hunseen
    obtain ⟨-, hsame⟩ | ⟨op, rfl, -, hset⟩ := exec_ledger i w c
    · rwa [hsame] at hρ
    · rwa [hset, ofEnd_resolve d hc.1] at hρ
  · rintro op rfl hclears
    exact hunseen (hseen key (hc.2 key hclears))

theorem end_keeps {α : Type} {p : Task T α} {s : World T} (hs : s.vars.stage = .resolved)
    (hp : Emits (endVocabulary d True fun key => key ∈ seenAnywhere s.vars) p (fun _ => True)) :
    wp (callSpec (machine T) (cursorRules d (RemovalsMarked d.scope))) p
      (postOk fun t => t.vars.stage = .resolved) s := by
  refine wp_mono (callSpec_mono _ _) _ (postOk fun w : World T =>
    w.vars.stage = .resolved ∧ w.vars.seenByCollection = s.vars.seenByCollection) _ ?_ s
    (end_wp True ?_ ?_ ?_ hp ⟨hs, rfl⟩)
  · intro r t ht
    cases r with
    | error e => trivial
    | ok a => exact ht.1
  · intro s t h ho
    rw [ho.vars]
    exact h
  · intro w n h hn
    rw [h.1] at hn
    cases hn
  · intro c i w hc hw
    have hvars := end_vars_eq hc i w
    refine ⟨⟨hvars.stage.trans hw.1, hvars.seen.trans hw.2⟩, end_marks hc i fun key hkey => ?_⟩
    rw [seenAnywhere, hw.2]
    exact hkey

theorem runDomainSync_marks (store : Store T) :
    wp (mainSpec (machine T) (cursorRules d (RemovalsMarked d.scope))) (runDomainSync d) (fun _ _ => True)
      (store, PassState.fresh T) := by
  refine runDomainSync_wp removalsMarked_loop (fun s hs => resolveRemovals_marks hs)
    (fun s hs => end_keeps hs (readBins_emits trivial)) (fun s hs => ?_) (before_start store)
  refine wp_seq ((wp_perform _ _ _ _).mpr fun t ht i _ => ⟨same_guar (by simp), ?_⟩)
  have hstage : t.vars.stage = .resolved := by
    rw [OwnerOnly.vars ht]
    exact hs
  refine wp_mono (callSpec_mono _ _) _ _ _ (fun _ _ _ => trivial) t (end_keeps hstage ?_)
  exact detectMoves_rest_emits fun x hx => List.mem_map.mpr ⟨x, hx, rfl⟩

/-- The pass moved a folder's cursor past a poll that reported `href` removed. -/
def Pass.AdvancedPast (p : Pass T Item Folder Raw) (store : Store T) (href : String) : Prop :=
  ∃ th key value i w n folders folder listing,
    Event.exec th (.cursorSet key value) i w ∈ p.trace store ∧ i.fault = none ∧ w.vars.stage = .folder n ∧
      p.deps.listFolders = .ok folders ∧ folders[n]? = some folder ∧
      p.deps.listSince folder (w.cursor key) = .ok listing ∧ href ∈ listing.removed

/-- Once it has moved a cursor past a removal, the pass gets as far as having resolved its removals. -/
def Pass.ResolvesRemovals (p : Pass T Item Folder Raw) (store : Store T) : Prop :=
  ∀ href, p.AdvancedPast store href → (p.ending store).vars.stage = .resolved

theorem advancedPast_removals {p : Pass T Item Folder Raw} {store : Store T} {href : String}
    (h : p.AdvancedPast store href) : href ∈ (p.ending store).vars.reportedRemovals := by
  obtain ⟨th, key, value, i, w, n, folders, folder, listing, hev, -, hstage, hfolders, hfolder, hlisting, hmem⟩ := h
  obtain ⟨-, listing', hlisting', -, -, hremoved⟩ :=
    (pass_kept (runDomainSync_advances store) _ hev).1 key value rfl n folders folder hstage hfolders hfolder
  rw [hlisting] at hlisting'
  cases hlisting'
  have hact : ∀ s t : World T, href ∈ s.vars.reportedRemovals → OwnerOnly s t → href ∈ t.vars.reportedRemovals := by
    intro s t hs ho
    rw [ho.vars]
    exact hs
  refine (machine T).run_keeps_after (pass_keeps hact fun c i w hstep hw => ?_) hev (hremoved hmem)
  obtain ⟨f, rfl⟩ | hvars := exec_vars i w c
  · exact hstep.reportedRemovals hw
  · rwa [hvars]

theorem ending_marked (p : Pass T Item Folder Raw) (store : Store T) :
    RemovalsMarked p.deps.scope (p.ending store) := by
  refine (machine T).run_keeps (fun ev hev hpre => ?_) (removalsMarked_loop _ (before_start store).stage)
  have hkept := pass_kept (runDomainSync_marks store) ev hev
  cases ev with
  | exec th c i w => exact hkept.2 hpre
  | act a w => exact hpre

def Marked (scope : Scope) (key : String) (L : Ledger) : Prop :=
  ∃ row, row? L scope key = some row ∧ (row.deletionReportedAt ≠ none ∨ row.movedToCollection ≠ none)

/-- In every row of passes that resolve the removals they move a cursor past, each of which may stop at
any step, a removal that the source reported stays on the row it resolves to until the item is listed again. -/
theorem reported_removal_kept (earlier later : List (Pass T Item Folder Raw)) (p : Pass T Item Folder Raw)
    (store : Store T) (hrun : EachPass Pass.ResolvesRemovals (earlier ++ p :: later) store) {href : String}
    (hadvanced : p.AdvancedPast (afterPasses earlier store) href) {r : LedgerRecord}
    (hr : findBySourceRef (p.ending (afterPasses earlier store)).1.ledger p.deps.scope href = some r)
    (hon : isOnTarget r.status = true)
    (hunlisted : EachPass (fun q s => r.naturalKeyHash ∉ seenAnywhere (q.ending s).vars) (p :: later)
      (afterPasses earlier store)) :
    Marked p.deps.scope r.naturalKeyHash (afterPasses (earlier ++ p :: later) store).ledger := by
  have hresolved := (EachPass.append.mp hrun).2.1 href hadvanced
  have hsig : Signalled .reported p.deps.scope r.naturalKeyHash (p.ending (afterPasses earlier store)).1.ledger :=
    ending_marked p _ hresolved href (advancedPast_removals hadvanced) r.naturalKeyHash r.status
      (by rw [resolve, hr]; rfl) hon hunlisted.1
  obtain ⟨row, hrow, hmark⟩ := passes_signalled hunlisted.2 hsig
  refine ⟨row, ?_, .inl hmark⟩
  rw [afterPasses_append]
  exact hrow

section Sample

open Dav

/-- A drive that lists one file, then reports it removed, then has nothing more to say. -/
def drive : FileSource where
  listFolders := .ok [⟨"", none⟩]
  listSince _
    | none => .ok ⟨[{ Sample.file "a.txt" with sourceRef := "id-1" }], "1", []⟩
    | some "1" => .ok ⟨[], "2", ["id-1"]⟩
    | some _ => .ok ⟨[], "2", []⟩
  fetch _ := .ok none

def drivePass (steps : ℕ) : Pass (api Sample.endpoint) FileItem CollectionFolder RawFileItem where
  deps := fileSync Sample.endpoint Sample.webDAV Sample.sha256Hex Sample.contentHash
    { Sample.deps with cursors := true } drive
  choices := List.replicate steps (.run 0 Sample.input)

def driveKey : String := Sample.sha256Hex "file:a.txt"

def copied : Store (api Sample.endpoint) := afterPasses [drivePass 60] Sample.store

def advanceOf : Event (World T) (Cmd T) (Input T) T.Act → Option (Option String × Stage × Bool)
  | .exec _ (.cursorSet key _) i w => some (w.cursor key, w.vars.stage, i.fault.isNone)
  | _ => none

theorem drivePass_advances {steps : ℕ}
    (h : ((drivePass steps).trace copied).filterMap advanceOf = [(some "1", .folder 0, true)]) :
    (drivePass steps).AdvancedPast copied "id-1" := by
  have hmem : (some "1", Stage.folder 0, true) ∈ ((drivePass steps).trace copied).filterMap advanceOf := by
    rw [h]
    exact List.mem_singleton.mpr rfl
  obtain ⟨ev, hev, hf⟩ := List.mem_filterMap.mp hmem
  unfold advanceOf at hf
  split at hf
  · rename_i th key value i w
    simp only [Option.some.injEq, Prod.mk.injEq, Option.isNone_iff_eq_none] at hf
    obtain ⟨hcursor, hstage, hfault⟩ := hf
    refine ⟨th, key, value, i, w, 0, _, _, ⟨[], "2", ["id-1"]⟩, hev, hfault, hstage, rfl, rfl, ?_, List.mem_singleton.mpr rfl⟩
    rw [hcursor]
    rfl
  · cases hf

theorem drivePass_resolves (steps : ℕ)
    (h : ((drivePass steps).ending copied).1.ledger.entries.map refColumns = copied.ledger.entries.map refColumns) :
    ∃ r, findBySourceRef ((drivePass steps).ending copied).1.ledger (drivePass steps).deps.scope "id-1" = some r ∧
      isOnTarget r.status = true ∧ r.naturalKeyHash = driveKey := by
  have hcopied : resolve copied.ledger ⟨"t", "m", .file⟩ "id-1" = some (driveKey, some .copied) := by decide +kernel
  have hres : resolve ((drivePass steps).ending copied).1.ledger (drivePass steps).deps.scope "id-1" =
      some (driveKey, some .copied) := (resolve_congr h _ _).trans hcopied
  obtain ⟨r, hr, he⟩ := Option.map_eq_some_iff.mp hres
  simp only [Prod.mk.injEq] at he
  exact ⟨r, hr, by rw [he.2]; rfl, he.1⟩

set_option maxRecDepth 10000 in
theorem reported_removal_kept_drive :
    Marked (drivePass 60).deps.scope driveKey
      (afterPasses ([drivePass 60] ++ drivePass 60 :: [drivePass 60]) Sample.store).ledger := by
  have hadvanced : (drivePass 60).AdvancedPast copied "id-1" := drivePass_advances (by decide +kernel)
  obtain ⟨r, hr, hon, hkey⟩ := drivePass_resolves 60 (by decide +kernel)
  have hunlisted : EachPass (fun q s => r.naturalKeyHash ∉ seenAnywhere (q.ending s).vars)
      (drivePass 60 :: [drivePass 60]) copied := by
    rw [hkey]
    exact ⟨by decide +kernel, by decide +kernel, trivial⟩
  have hrun : EachPass Pass.ResolvesRemovals ([drivePass 60] ++ drivePass 60 :: [drivePass 60]) Sample.store :=
    ⟨fun _ _ => by decide +kernel, fun _ _ => by decide +kernel, fun _ _ => by decide +kernel, trivial⟩
  have hkept := reported_removal_kept [drivePass 60] [drivePass 60] (drivePass 60) Sample.store hrun hadvanced hr hon
    hunlisted
  rwa [hkey] at hkept

/-- The second pass is cut off right after it has stored the cursor: the drive does not report the removal
again, and the next pass, which runs to its end, finds nothing to do. -/
theorem reported_removal_lost : ∃ r,
    (drivePass 7).AdvancedPast copied "id-1" ∧
      findBySourceRef ((drivePass 7).ending copied).1.ledger (drivePass 7).deps.scope "id-1" = some r ∧
      isOnTarget r.status = true ∧
      EachPass (fun q s => r.naturalKeyHash ∉ seenAnywhere (q.ending s).vars) [drivePass 7, drivePass 60] copied ∧
      ¬ Marked (drivePass 7).deps.scope r.naturalKeyHash (afterPasses [drivePass 7] copied).ledger ∧
      ¬ Marked (drivePass 7).deps.scope r.naturalKeyHash (afterPasses [drivePass 7, drivePass 60] copied).ledger := by
  obtain ⟨r, hr, hon, hkey⟩ := drivePass_resolves 7 (by decide +kernel)
  have hunmarked : ∀ L : Ledger, (L.lookup ((drivePass 7).deps.scope.key driveKey)).map
      (fun row => (row.deletionReportedAt, row.movedToCollection)) = some (none, none) →
      ¬ Marked (drivePass 7).deps.scope driveKey L := by
    rintro L hL ⟨row, hrow, hmark⟩
    obtain ⟨hlook, -⟩ := (row?_eq_some L).mp hrow
    rw [hlook, Option.map_some, Option.some.injEq, Prod.mk.injEq] at hL
    exact hmark.elim (fun h => h hL.1) fun h => h hL.2
  refine ⟨r, drivePass_advances (by decide +kernel), hr, hon, ?_⟩
  rw [hkey]
  exact ⟨⟨by decide +kernel, by decide +kernel, trivial⟩, hunmarked _ (by decide +kernel), hunmarked _ (by decide +kernel)⟩

end Sample

end OpenMigrate
