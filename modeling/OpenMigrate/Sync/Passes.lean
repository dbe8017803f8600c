import OpenMigrate.Sync.PassFootprint
import OpenMigrate.Sync.Rules

namespace OpenMigrate

open Async Prog

variable {T : TargetApi} {Item Folder Raw : Type} [FolderLike Folder]

/-- One pass: what it was given, and what it met, step by step, until it ended or was cut off. -/
structure Pass (T : TargetApi) (Item Folder Raw : Type) where
  deps : DomainSyncDeps T Item Folder Raw
  choices : List (Choice (Input T) T.Act)

namespace Pass

variable (p : Pass T Item Folder Raw)

def start (store : Store T) : Conf (Cmd T) Cmd.Resp PassError DomainSyncResult × World T :=
  (.seq (runDomainSync p.deps), (store, PassState.fresh T))

def trace (store : Store T) : List (Event (World T) (Cmd T) (Input T) T.Act) :=
  (machine T).trace (p.start store) p.choices

def ending (store : Store T) : World T := ((machine T).run (p.start store) p.choices).2

end Pass

def afterPasses (passes : List (Pass T Item Folder Raw)) (store : Store T) : Store T :=
  passes.foldl (fun s p => (p.ending s).1) store

@[simp] theorem afterPasses_nil (store : Store T) :
    afterPasses ([] : List (Pass T Item Folder Raw)) store = store := rfl

@[simp] theorem afterPasses_cons (p : Pass T Item Folder Raw) (passes : List (Pass T Item Folder Raw))
    (store : Store T) : afterPasses (p :: passes) store = afterPasses passes (p.ending store).1 := rfl

theorem afterPasses_append (passes passes' : List (Pass T Item Folder Raw)) (store : Store T) :
    afterPasses (passes ++ passes') store = afterPasses passes' (afterPasses passes store) := List.foldl_append

structure PassVarsStep (v v' : PassVars) : Prop where
  seen : v.seenByCollection ⊆ v'.seenByCollection
  reportedRemovals : v.reportedRemovals ⊆ v'.reportedRemovals
  failed : v.failed ≤ v'.failed
  enumerated : v'.fullyEnumerated = true → v.fullyEnumerated = true

variable (d : DomainSyncDeps T Item Folder Raw)

/-- What a pass may be about to do in a given world. -/
def PassStep : Cmd T → World T → Prop
  | .ledger op, w => op.OfPass d ∧ ∀ key ∈ op.clears, key ∈ seenAnywhere w.vars
  | .target _, _ => True
  | .cursorGet _, _ => True
  | .cursorSet key _, _ => key.tenantId = d.scope.tenantId ∧ key.mappingId = d.scope.mappingId
  | .modify f, w => PassVarsStep w.vars (f w.vars)
  | .vars, _ => True

def stepRules : Rules (World T) (Cmd T) (Input T) where
  assume _ _ _ := True
  rely := OwnerOnly
  guar c s _ := PassStep d c s
  refl := OwnerOnly.refl
  trans := OwnerOnly.trans

/-- A pass only ever sees more, and once it has missed something it stays with that. -/
structure Sees (s t : World T) : Prop where
  seen : s.vars.seenByCollection ⊆ t.vars.seenByCollection
  enumerated : t.vars.fullyEnumerated = true → s.vars.fullyEnumerated = true

theorem Sees.refl (s : World T) : Sees s s := ⟨List.Subset.refl _, fun h => h⟩

theorem Sees.trans {s t u : World T} (h : Sees s t) (h' : Sees t u) : Sees s u :=
  ⟨List.Subset.trans h.seen h'.seen, fun hu => h.enumerated (h'.enumerated hu)⟩

theorem Sees.of_vars {s t : World T} (h : t.vars = s.vars) : Sees s t := by
  constructor
  · rw [h]
    exact List.Subset.refl _
  · rw [h]
    exact fun hs => hs

def seenShares : (stepRules d).Shares where
  guar _ := Sees
  rely _ := Sees
  refl _ := Sees.refl
  trans := Sees.trans
  env _ _ _ h := .of_vars (OwnerOnly.vars h)

variable {d} {item : Item} {at_ : Place}

omit [FolderLike Folder] in
theorem workerVars_step {v v' : PassVars} (h : WorkerVars d at_ item v v') : PassVarsStep v v' where
  seen := h.seen
  reportedRemovals := by
    rw [h.reportedRemovals]
    exact List.Subset.refl _
  failed := h.failed
  enumerated hv := h.enumerated ▸ hv

theorem endVars_step {v v' : PassVars} (h : EndVars v v') : PassVarsStep v v' where
  seen := by
    rw [h.seen]
    exact List.Subset.refl _
  reportedRemovals := by
    rw [h.reportedRemovals]
    exact List.Subset.refl _
  failed := by rw [h.failed]
  enumerated hv := h.enumerated ▸ hv

theorem exec_sees {c : Cmd T} {w : World T} (h : PassStep d c w) (i : Input T) : Sees w (w.exec i c).2 := by
  obtain ⟨f, rfl⟩ | hvars := exec_vars i w c
  · exact ⟨h.seen, h.enumerated⟩
  · exact .of_vars hvars

omit [FolderLike Folder] in
theorem clears_ofWorker {op : LedgerOp} {keys : String → Prop} (h : op.OfWorker d at_ item keys) {key : String}
    (hkey : key ∈ op.clears) : d.naturalKey item = some key := by
  cases op with
  | clearMove scope k =>
    cases hkey
    exact h.2
  | clearAbsent scope k =>
    cases hkey
    exact h.2
  | _ => cases hkey

theorem worker_passStep (hlisted : ListedAt d at_ item) {c : Cmd T}
    (hc : (workerVocabulary d at_ item fun _ => True).asks c) {w : World T}
    (hseen : ∀ key, d.naturalKey item = some key → key ∈ seenAnywhere w.vars) : PassStep d c w := by
  cases c with
  | ledger op =>
    have hop : op.OfWorker d at_ item (fun _ => True) := hc
    exact ⟨.inl ⟨at_, item, hlisted, hop⟩, fun key hkey => hseen key (clears_ofWorker hop hkey)⟩
  | modify f => exact workerVars_step (hc w.vars)
  | target | vars => trivial
  | cursorGet | cursorSet => exact hc.elim

theorem seen_mono {s t : World T} (h : s.vars.seenByCollection ⊆ t.vars.seenByCollection) {key : String}
    (hkey : key ∈ seenAnywhere s.vars) : key ∈ seenAnywhere t.vars := by
  obtain ⟨x, hx, rfl⟩ := List.mem_map.mp hkey
  exact List.mem_map.mpr ⟨x, h hx, rfl⟩

theorem seen_anywhere {collection key : String} {v : PassVars} (h : (collection, key) ∈ v.seenByCollection) :
    key ∈ seenAnywhere v := List.mem_map.mpr ⟨(collection, key), h, rfl⟩

theorem worker_steps (hlisted : ListedAt d at_ item) (j : ℕ) (s : World T) :
    wp (callSpec (machine T) ((seenShares d).rules j)) (syncItem d at_ item)
      (fun _ t => ∀ key, d.naturalKey item = some key → (at_.collectionPath, key) ∈ t.vars.seenByCollection) s := by
  have hrest : ∀ (p : Task T Unit), Emits (workerVocabulary d at_ item fun _ => True) p (fun _ => True) →
      ∀ t : World T, (∀ key, d.naturalKey item = some key → (at_.collectionPath, key) ∈ t.vars.seenByCollection) →
      wp (callSpec (machine T) ((seenShares d).rules j)) p
        (fun _ t => ∀ key, d.naturalKey item = some key → (at_.collectionPath, key) ∈ t.vars.seenByCollection) t := by
    intro p hp t ht
    refine wp_mono (callSpec_mono _ _) _ _ _ (fun _ _ h => h.2) t
      (Emits.wp (fun w : World T => ∀ key, d.naturalKey item = some key →
        (at_.collectionPath, key) ∈ w.vars.seenByCollection) (fun c i w => exec_hears i w c) ?_ ?_ hp ht)
    · exact fun s t hs hst key hkey => hst.seen (hs key hkey)
    · intro c i w hc _ hw
      have hstep := worker_passStep hlisted hc fun key hkey => seen_anywhere (hw key hkey)
      have hsees := exec_sees hstep i
      exact ⟨⟨⟨hstep, hsees⟩, fun _ _ => hsees⟩, fun key hkey => hsees.seen (hw key hkey)⟩
  have hkeys := recordsUnder_any d item
  unfold syncItem
  split
  · rename_i key hkey
    refine wp_seq ((wp_perform _ _ _ _).mpr fun t _ i _ => ?_)
    have hvars : WorkerVars d at_ item t.vars (see at_ key { t.vars with scanned := t.vars.scanned + 1 }) :=
      see_vars (.inl hkey) ⟨rfl, rfl, rfl, rfl, rfl, rfl, rfl, rfl⟩
    have hstep := workerVars_step hvars
    refine ⟨⟨⟨hstep, hstep.seen, hstep.enumerated⟩, fun _ _ => ⟨hstep.seen, hstep.enumerated⟩⟩, ?_⟩
    refine hrest _ (syncKeyed_emits hkeys hkey) _ ?_
    intro k hk
    rw [hkey, Option.some.injEq] at hk
    subst hk
    simp [see, exec_modify, machine]
  · rename_i hnone
    refine hrest _ ?_ s fun key hkey => ?_
    · refine worker_of_quiet (Emits.seq (emits_modify fun v => ?_) fun _ => syncDerived_emits hkeys hnone)
      exact ⟨.of_eq rfl (List.Subset.refl _) le_rfl rfl rfl rfl rfl rfl, rfl⟩
    · rw [hnone] at hkey
      cases hkey

def loopVocabulary (d : DomainSyncDeps T Item Folder Raw) : Vocabulary (Cmd T) Cmd.Resp PassError where
  asks
    | .cursorGet _ => True
    | .cursorSet key _ => key.tenantId = d.scope.tenantId ∧ key.mappingId = d.scope.mappingId
    | .modify f => ∀ v, PassVarsStep v (f v)
    | .vars => True
    | _ => False
  hears := Cmd.Hears

omit [FolderLike Folder] in
theorem loop_modify {f : PassVars → PassVars} (h : ∀ v, PassVarsStep v (f v)) :
    Emits (loopVocabulary d) (Task.modify f) (fun _ => True) :=
  (Emits.perform _ _).mpr ⟨h, fun _ _ => trivial⟩

omit [FolderLike Folder] in
theorem loop_vars : Emits (loopVocabulary d) Task.vars (fun _ => True) :=
  (Emits.perform _ _).mpr ⟨trivial, fun _ _ => trivial⟩

theorem loop_steps {α : Type} {p : Task T α} (hp : Emits (loopVocabulary d) p (fun _ => True)) (s : World T) :
    wp (callSpec (machine T) (stepRules d)) p (postOk (Sees s)) s := by
  refine wp_mono (callSpec_mono _ _) _ (fun _ t => Sees s t) _ ?_ s (wp_mono (callSpec_mono _ _) _ _ _ (fun _ _ h => h.2) s
    (Emits.wp (Sees s) (fun c i w => exec_hears i w c) (fun t u h ho => h.trans (.of_vars (OwnerOnly.vars ho))) ?_ hp
      (Sees.refl s)))
  · intro r t ht
    cases r with
    | error e => trivial
    | ok a => exact ht
  · intro c i w hc _ hw
    have hstep : PassStep d c w := by
      cases c with
      | cursorGet | vars => trivial
      | cursorSet key value => exact hc
      | modify f => exact hc w.vars
      | ledger | target => exact hc.elim
    exact ⟨hstep, hw.trans (exec_sees hstep i)⟩

theorem end_steps (scans : Prop) {α : Type} {p : Task T α} {seen : List (String × String)}
    (hp : Emits (endVocabulary d scans fun key => key ∈ seen.map (·.2)) p (fun _ => True)) {s : World T}
    (hs : s.vars.seenByCollection = seen) :
    wp (callSpec (machine T) (stepRules d)) p (fun _ t => t.vars.seenByCollection = seen) s := by
  refine wp_mono (callSpec_mono _ _) _ _ _ (fun _ _ h => h.2) s
    (Emits.wp (fun w : World T => w.vars.seenByCollection = seen) (fun c i w => exec_hears i w c) ?_ ?_ hp hs)
  · intro s t h ho
    rw [OwnerOnly.vars ho]
    exact h
  · intro c i w hc _ hw
    constructor
    · cases c with
      | ledger op =>
        refine ⟨.inr hc.1, fun key hkey => ?_⟩
        rw [seenAnywhere, hw]
        exact hc.2 key hkey
      | modify f => exact endVars_step (hc w.vars)
      | cursorSet key value => exact hc.2
      | cursorGet | vars => trivial
      | target => exact hc.elim
    · obtain ⟨f, rfl⟩ | hvars := exec_vars i w c
      · exact (hc w.vars).seen.trans hw
      · exact (congrArg PassVars.seenByCollection hvars).trans hw

theorem main_seq {α β : Type} {p : Task T α} {f : α → MainTask T β} {s : World T} {P : World T → Prop}
    {Q : World T → Prop} (hp : wp (callSpec (machine T) (stepRules d)) p (postOk P) s)
    (hf : ∀ a t, P t → wp (mainSpec (machine T) (stepRules d)) (f a) (postOk Q) t) :
    wp (mainSpec (machine T) (stepRules d)) ((Main.lift p).bind f) (postOk Q) s := by
  refine wp_seq ((wp_lift _ _ _ _).mpr (wp_mono (callSpec_mono _ _) _ _ _ ?_ s hp))
  intro r t ht
  cases r with
  | error e => trivial
  | ok a => exact hf a t ht

theorem advanceCursor_loop (folder : Folder) (nextCursor : String) :
    Emits (loopVocabulary d) (advanceCursor d folder nextCursor) (fun _ => True) := by
  refine Emits.seq loop_vars fun v => ?_
  split
  · exact (Emits.perform _ _).mpr ⟨⟨rfl, rfl⟩, fun _ _ => trivial⟩
  · trivial

theorem enumerateCollection_loop (folder : Folder) (prev : Option String) :
    Emits (loopVocabulary d) (enumerateCollection d folder prev) (fun _ => True) := by
  have hnot : Emits (loopVocabulary d) (Task.modify fun v => { v with fullyEnumerated := false })
      (fun _ => True) :=
    loop_modify fun v => ⟨List.Subset.refl _, List.Subset.refl _, le_rfl, by simp⟩
  unfold enumerateCollection
  split
  · split
    · exact loop_modify fun v => ⟨List.subset_append_left _ _, List.Subset.refl _, le_rfl, fun h => h⟩
    · exact hnot
  · split
    · exact hnot
    · trivial

theorem worker_getElem? {items : List Item} {n j : ℕ} {folder : Folder} {id : String} {p : Task T Unit}
    (h : (workers d folder n id items)[j]? = some p) :
    ∃ item, items[j]? = some item ∧ p = syncItem d (place folder n id j) item := by
  simp only [workers, List.getElem?_map, List.getElem?_zipIdx, Option.map_map, Option.map_eq_some_iff] at h
  obtain ⟨item, hitem, rfl⟩ := h
  exact ⟨item, hitem, by simp⟩

/-- Unless a pass knows that it missed something, it has seen the whole of the folder. -/
def SeenWhole (d : DomainSyncDeps T Item Folder Raw) (folder : Folder) (w : World T) : Prop :=
  w.vars.fullyEnumerated = true →
    match d.listCollectionKeys with
    | some listCollectionKeys => ∃ keys, listCollectionKeys folder = .ok keys ∧
        ∀ key ∈ keys, (collectionPath folder, key) ∈ w.vars.seenByCollection
    | none => ∃ listing, d.listSince folder none = .ok listing ∧ ∀ item ∈ listing.items,
        ∀ key, d.naturalKey item = some key → (collectionPath folder, key) ∈ w.vars.seenByCollection

theorem SeenWhole.sees {folder : Folder} {s t : World T} (h : SeenWhole d folder s) (hst : Sees s t) :
    SeenWhole d folder t := by
  intro ht
  have hs := h (hst.enumerated ht)
  split at hs
  · obtain ⟨keys, hkeys, hseen⟩ := hs
    exact ⟨keys, hkeys, fun key hkey => hst.seen (hseen key hkey)⟩
  · obtain ⟨listing, hlisting, hseen⟩ := hs
    exact ⟨listing, hlisting, fun item hitem key hkey => hst.seen (hseen item hitem key hkey)⟩

/-- What is known of the folder before its items are worked on. -/
def Enumerated (d : DomainSyncDeps T Item Folder Raw) (folder : Folder) (prev : Option String) (w : World T) : Prop :=
  w.vars.fullyEnumerated = true →
    match d.listCollectionKeys with
    | some listCollectionKeys => ∃ keys, listCollectionKeys folder = .ok keys ∧
        ∀ key ∈ keys, (collectionPath folder, key) ∈ w.vars.seenByCollection
    | none => prev = none

theorem enumerateCollection_enumerates (folder : Folder) (prev : Option String) (s : World T) :
    wp (callSpec (machine T) (stepRules d)) (enumerateCollection d folder prev)
      (postOk fun t => Sees s t ∧ Enumerated d folder prev t) s := by
  have hmodify : ∀ {f : PassVars → PassVars}, (∀ v, PassVarsStep v (f v)) →
      (∀ t : World T, Enumerated d folder prev (t.setVars (f t.vars))) →
      wp (callSpec (machine T) (stepRules d)) (Task.modify f) (postOk fun t => Sees s t ∧ Enumerated d folder prev t) s := by
    intro f hf hafter
    refine (wp_perform _ _ _ _).mpr fun t ht i _ => ⟨hf t.vars, ?_, hafter t⟩
    exact (Sees.of_vars (OwnerOnly.vars ht)).trans ⟨(hf t.vars).seen, (hf t.vars).enumerated⟩
  unfold enumerateCollection
  split
  · rename_i listCollectionKeys hkeys
    split
    · rename_i keys hlisted
      refine hmodify (fun v => ⟨List.subset_append_left _ _, List.Subset.refl _, le_rfl, fun h => h⟩) fun t _ => ?_
      rw [hkeys]
      refine ⟨keys, hlisted, fun key hkey => List.mem_append_right _ (List.mem_map.mpr ⟨key, hkey, rfl⟩)⟩
    · exact hmodify (fun v => ⟨List.Subset.refl _, List.Subset.refl _, le_rfl, by simp⟩) fun t ht => by cases ht
  · rename_i hkeys
    split
    · exact hmodify (fun v => ⟨List.Subset.refl _, List.Subset.refl _, le_rfl, by simp⟩) fun t ht => by cases ht
    · rename_i hprev
      refine ⟨.refl s, fun _ => ?_⟩
      rw [hkeys]
      simpa using hprev

theorem Enumerated.whole {folder : Folder} {prev : Option String} {s t : World T} {listing : Listing Item}
    (h : Enumerated d folder prev s) (hst : Sees s t) (hlisting : d.listSince folder prev = .ok listing)
    (hitems : ∀ item ∈ listing.items, ∀ key, d.naturalKey item = some key →
      (collectionPath folder, key) ∈ t.vars.seenByCollection) : SeenWhole d folder t := by
  intro ht
  have hs := h (hst.enumerated ht)
  split at hs
  · obtain ⟨keys, hkeys, hseen⟩ := hs
    exact ⟨keys, hkeys, fun key hkey => hst.seen (hseen key hkey)⟩
  · subst hs
    exact ⟨listing, hlisting, hitems⟩

theorem syncFolder_steps {n : ℕ} {folders : List Folder} {folder : Folder}
    (hfolders : d.listFolders = .ok folders) (hfolder : folders[n]? = some folder) (s : World T) :
    wp (mainSpec (machine T) (stepRules d)) (syncFolder d folder n)
      (postOk fun t => Sees s t ∧ SeenWhole d folder t) s := by
  refine wp_seq ((wp_lift _ _ _ _).mpr ((wp_ofExcept _ _ _ _).mpr ?_))
  cases hid : d.ensureCollection folder with
  | error e => trivial
  | ok id =>
  refine main_seq (loop_steps ?_ s) fun prev t ht => ?_
  · unfold previousCursor
    split
    · exact (Emits.perform _ _).mpr ⟨trivial, fun _ _ => trivial⟩
    · trivial
  refine wp_seq ((wp_lift _ _ _ _).mpr ((wp_ofExcept _ _ _ _).mpr ?_))
  cases hlisting : d.listSince folder prev with
  | error e => trivial
  | ok listing =>
  refine main_seq (loop_steps ?_ t) fun _ u hu => ?_
  · exact loop_modify fun v => ⟨List.Subset.refl _, List.subset_append_left _ _, le_rfl, fun h => h⟩
  refine main_seq (enumerateCollection_enumerates folder prev u) fun _ v hv => ?_
  refine wp_seq ((wp_perform _ _ _ _).mpr fun x hx => ?_)
  -- each worker leaves its own key among those seen
  refine ⟨seenShares d, fun j w => ∀ item, listing.items[j]? = some item → ∀ key, d.naturalKey item = some key →
    (collectionPath folder, key) ∈ w.vars.seenByCollection, fun j w w' hw hr item hitem key hkey => ?_,
    fun j p hp => ?_, fun y hy hj => ?_, fun _ _ _ => trivial⟩
  · exact hr.seen (hw item hitem key hkey)
  · obtain ⟨item, hitem, rfl⟩ := worker_getElem? hp
    have hlisted : ListedAt d (place folder n id j) item :=
      ⟨folders, folder, prev, listing, hfolders, hfolder, hlisting, hitem, hid, rfl⟩
    refine wp_mono (callSpec_mono _ _) _ _ _ ?_ x (worker_steps hlisted j x)
    intro r y hy
    cases r with
    | error e => trivial
    | ok _ =>
      intro item' hitem' key hkey
      rw [hitem] at hitem'
      cases hitem'
      exact hy key hkey
  · have hxy : Sees x y := by
      refine hy.keeps (P := Sees x) (fun a b hmove ha => ?_) (.refl x)
      obtain hr | ⟨c, -, hg⟩ := hmove
      · exact ha.trans (.of_vars (OwnerOnly.vars hr))
      · exact ha.trans hg
    have hvx : Sees v x := .of_vars (OwnerOnly.vars hx)
    have hwhole : SeenWhole d folder y := by
      refine hv.2.whole (hvx.trans hxy) hlisting fun item hitem key hkey => ?_
      obtain ⟨j, hlt, hget⟩ := List.mem_iff_getElem.mp hitem
      exact hj j (by simpa [workers] using hlt) item (by rw [List.getElem?_eq_getElem hlt, hget]) key hkey
    refine (wp_lift _ _ _ _).mpr (wp_mono (callSpec_mono _ _) _ _ _ ?_ y (loop_steps (advanceCursor_loop folder _) y))
    intro r z hz
    cases r with
    | error e => trivial
    | ok _ => exact ⟨((((ht.trans hu).trans hv.1).trans hvx).trans hxy).trans hz, hwhole.sees hz⟩

/-- Once the folders are through. -/
def SeenAll (d : DomainSyncDeps T Item Folder Raw) (w : World T) : Prop :=
  ∃ folders, d.listFolders = .ok folders ∧ ∀ folder ∈ folders, SeenWhole d folder w

theorem SeenAll.sees {s t : World T} (h : SeenAll d s) (hst : Sees s t) : SeenAll d t := by
  obtain ⟨folders, hfolders, hseen⟩ := h
  exact ⟨folders, hfolders, fun folder hfolder => (hseen folder hfolder).sees hst⟩

theorem syncFolders_steps (s : World T) :
    wp (mainSpec (machine T) (stepRules d)) (syncFolders d) (postOk (SeenAll d)) s := by
  refine wp_seq ((wp_lift _ _ _ _).mpr ((wp_ofExcept _ _ _ _).mpr ?_))
  cases hfolders : d.listFolders with
  | error e => trivial
  | ok folders =>
    refine wp_forEach (mainSpec_mono _ _) _ _
      (fun xs t => (∀ x ∈ xs, x ∈ folders.zipIdx) ∧ ∀ x ∈ folders.zipIdx, x ∈ xs ∨ SeenWhole d x.1 t) _
      (fun t ht => ?_) ?_ s ⟨fun x hx => hx, fun x hx => .inl hx⟩
    · refine ⟨folders, hfolders, fun folder hfolder => ?_⟩
      obtain ⟨n, hlt, hget⟩ := List.mem_iff_getElem.mp hfolder
      have hmem : (folder, n) ∈ folders.zipIdx :=
        List.mem_zipIdx_iff_getElem?.mpr (by rw [List.getElem?_eq_getElem hlt, hget])
      exact (ht.2 _ hmem).resolve_left List.not_mem_nil
    · rintro x rest t ⟨hxs, hdone⟩
      have hfolder : folders[x.2]? = some x.1 := List.mem_zipIdx_iff_getElem?.mp (hxs x List.mem_cons_self)
      refine wp_mono (mainSpec_mono _ _) _ _ _ ?_ t (syncFolder_steps hfolders hfolder t)
      intro r u hu
      cases r with
      | error e => trivial
      | ok _ =>
        refine ⟨fun y hy => hxs y (List.mem_cons_of_mem x hy), fun y hy => ?_⟩
        obtain hmem | hwhole := hdone y hy
        · obtain rfl | hmem := List.mem_cons.mp hmem
          · exact .inr hu.2
          · exact .inl hmem
        · exact .inr (hwhole.sees hu.1)

theorem runDomainSync_steps (s : World T) :
    wp (mainSpec (machine T) (stepRules d)) (runDomainSync d) (fun _ _ => True) s := by
  have htrue : ∀ {α : Type} {p : MainTask T α} {t : World T},
      wp (mainSpec (machine T) (stepRules d)) p (postOk fun _ => True) t →
      wp (mainSpec (machine T) (stepRules d)) p (fun _ _ => True) t := fun h =>
    wp_mono (mainSpec_mono _ _) _ _ _ (fun _ _ _ => trivial) _ h
  have hend : ∀ {α : Type} {p : Task T α} {Q : Except PassError α → World T → Prop} {t : World T},
      wp (callSpec (machine T) (stepRules d)) p Q t →
      wp (callSpec (machine T) (stepRules d)) p (postOk fun _ => True) t := fun h =>
    wp_mono (callSpec_mono _ _) _ _ _ (fun r _ _ => by cases r <;> trivial) _ h
  refine wp_seq (wp_mono (mainSpec_mono _ _) _ _ _ ?_ s (syncFolders_steps s))
  intro r t _
  cases r with
  | error e => trivial
  | ok _ =>
  refine htrue (main_seq (P := fun _ => True) ?_ fun _ u _ => main_seq (P := fun _ => True) ?_ fun _ v _ =>
    main_seq (P := fun _ => True) ?_ fun _ x _ => main_seq (loop_steps loop_vars x) fun _ _ _ => trivial)
  · refine wp_seq ((wp_perform _ _ _ _).mpr fun u _ i _ => ⟨trivial, ?_⟩)
    refine wp_seq (wp_mono (callSpec_mono _ _) _ _ _ ?_ u
      (end_steps False (resolveReportedRemovals_emits _ _ _) rfl))
    intro r v _
    cases r with
    | error e => trivial
    | ok reported =>
      refine hend (loop_steps (loop_modify (d := d) fun v => ?_) v)
      exact ⟨List.Subset.refl _, List.Subset.refl _, le_rfl, fun h => h⟩
  · exact hend (end_steps True (readBins_emits trivial) rfl)
  · refine wp_seq ((wp_perform _ _ _ _).mpr fun y _ i _ => ⟨trivial, ?_⟩)
    refine hend (end_steps False (detectMoves_rest_emits fun z hz => ?_) rfl)
    exact List.mem_map.mpr ⟨z, hz, rfl⟩

theorem pass_step (p : Pass T Item Folder Raw) (store : Store T) {th : Option ℕ} {c : Cmd T} {i : Input T}
    {w : World T} (hev : Event.exec th c i w ∈ p.trace store) : PassStep p.deps c w := by
  have hgood : Conf.Good (machine T) (stepRules p.deps) (fun _ _ => True) (p.start store) :=
    runDomainSync_steps _
  refine (hgood.run (machine T) _ (fun _ _ _ _ _ => trivial) p.choices ?_).1 _ hev
  intro ev _
  cases ev with
  | exec => trivial
  | act a w => exact OwnerOnly.act a w

end OpenMigrate
