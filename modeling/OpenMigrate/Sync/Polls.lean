import OpenMigrate.Sync.Claims

namespace OpenMigrate

open Async PgLedger

variable {T : TargetApi} {Item Folder Raw : Type}

section Vars

variable {s t : World T} {hs : List (Option ℕ × Heard (Cmd T) Cmd.Resp PassError)}

theorem ran_vars {P : PassVars → PassVars → Prop} (hrefl : ∀ v, P v v) (htrans : ∀ u v w, P u v → P v w → P u w)
    (h : Ran (machine T) s hs t) (hmodify : ∀ x ∈ hs, ∀ f, x.2.1 = .modify f → ∀ v, P v (f v)) : P s.vars t.vars := by
  refine h.keeps (P := fun w => P s.vars w.vars) (Q := fun x => ∀ f, x.1 = .modify f → ∀ v, P v (f v)) (fun _ _ h => h)
    ?_ hmodify (hrefl _)
  intro c i w hc hw
  obtain ⟨f, rfl⟩ | hsame := exec_vars i w c
  · exact htrans _ _ _ hw (hc f rfl _)
  · exact (congrArg (P s.vars) hsame).mpr hw

theorem ran_sees (h : Ran (machine T) s hs t)
    (hmodify : ∀ x ∈ hs, ∀ f, x.2.1 = .modify f → ∀ v : PassVars, v.seenByCollection ⊆ (f v).seenByCollection) :
    s.vars.seenByCollection ⊆ t.vars.seenByCollection :=
  ran_vars (P := fun v v' => v.seenByCollection ⊆ v'.seenByCollection) (fun _ => List.Subset.refl _)
    (fun _ _ _ h h' => List.Subset.trans h h') h hmodify

theorem ran_enumerated (h : Ran (machine T) s hs t)
    (hmodify : ∀ x ∈ hs, ∀ f, x.2.1 = .modify f → ∀ v : PassVars, (f v).fullyEnumerated = v.fullyEnumerated) :
    t.vars.fullyEnumerated = s.vars.fullyEnumerated :=
  ran_vars (P := fun v v' => v'.fullyEnumerated = v.fullyEnumerated) (fun _ => rfl) (fun _ _ _ h h' => h'.trans h) h hmodify

theorem ran_seen (h : Ran (machine T) s hs t)
    (hmodify : ∀ x ∈ hs, ∀ f, x.2.1 = .modify f → ∀ v : PassVars, v.seenByCollection ⊆ (f v).seenByCollection)
    {th : Option ℕ} {f : PassVars → PassVars} {r : Except PassError Unit} {y : String × String}
    (hx : (th, (⟨.modify f, r⟩ : Heard (Cmd T) Cmd.Resp PassError)) ∈ hs) (hy : ∀ v, y ∈ (f v).seenByCollection) :
    y ∈ t.vars.seenByCollection := by
  refine h.brings (P := fun w => y ∈ w.vars.seenByCollection)
    (Q := fun x => ∀ f, x.1 = .modify f → ∀ v : PassVars, v.seenByCollection ⊆ (f v).seenByCollection) (fun _ _ h => h)
    ?_ ?_ hmodify hx
  · intro c i w hc hw
    obtain ⟨f, rfl⟩ | hsame := exec_vars i w c
    · exact hc f rfl _ hw
    · exact (congrArg PassVars.seenByCollection hsame).symm ▸ hw
  · exact fun i w _ => hy w.vars

theorem ran_nil_vars (h : Ran (machine T) s [] t) : t.vars = s.vars := by
  refine h.keeps (P := fun w => w.vars = s.vars) (Q := fun _ => False) (fun _ _ h => h) ?_ ?_ rfl
  · exact fun _ _ _ hfalse => hfalse.elim
  · exact fun x hx => absurd hx List.not_mem_nil

theorem ran_nil_ledger (h : Ran (machine T) s [] t) : t.1.ledger = s.1.ledger := by
  refine h.keeps (P := fun w => w.1.ledger = s.1.ledger) (Q := fun _ => False) (fun _ _ h => h) ?_ ?_ rfl
  · exact fun _ _ _ hfalse => hfalse.elim
  · exact fun x hx => absurd hx List.not_mem_nil

theorem ran_tells {th : Option ℕ} {v : PassVars}
    (h : Ran (machine T) s ((th, ⟨.vars, .ok v⟩) :: hs) t) : v = s.vars ∧ ∃ u, u.vars = s.vars ∧
      u.1.ledger = s.1.ledger ∧ Ran (machine T) u hs t := by
  obtain ⟨u, i, hu, hanswer, hrest⟩ := h.head
  have hsame := ran_nil_vars hu
  have hv : (.ok v : Except PassError PassVars) = .ok u.vars := eq_of_heq (Sigma.mk.inj hanswer).2
  exact ⟨(Except.ok.inj hv).trans hsame, u, hsame, ran_nil_ledger hu, hrest⟩

end Vars

section Items

variable (d : DomainSyncDeps T Item Folder Raw) {at_ : Place} {item : Item} {key : String}
  {heard : List (Heard (Cmd T) Cmd.Resp PassError)} {u : Unit}

theorem syncItem_sees (hkey : HasKey d item key) (h : Completed (syncItem d at_ item) heard u) :
    ∃ f r, (⟨.modify f, r⟩ : Heard (Cmd T) Cmd.Resp PassError) ∈ heard ∧
      ∀ v, (at_.collectionPath, key) ∈ (f v).seenByCollection := by
  have hsee : ∀ g : PassVars → PassVars, ∀ v, (at_.collectionPath, key) ∈ (see at_ key (g v)).seenByCollection :=
    fun g v => List.mem_append_right _ (List.mem_singleton.mpr rfl)
  unfold syncItem at h
  obtain hkey | ⟨hnone, fetched, hfetched, hderived⟩ := hkey
  · rw [hkey] at h
    obtain ⟨_, rest, rfl, -⟩ := Completed.of_perform_bind h
    exact ⟨_, _, List.mem_cons_self, hsee fun v => { v with scanned := v.scanned + 1 }⟩
  · rw [hnone] at h
    obtain ⟨_, rest, rfl, hrest⟩ := Completed.of_perform_bind h
    rw [syncDerived, hfetched] at hrest
    change Completed (Prog.tryWith (Prog.ofExcept (deriveKey d item fetched.1)) _ _) rest u at hrest
    rw [hderived] at hrest
    change Completed (Prog.tryWith (lookupDerived d at_ key) _ _) rest u at hrest
    obtain ⟨before, after, rfl, hlookup⟩ := Completed.of_tryWith hrest
    refine ⟨see at_ key, ?_⟩
    have hfirst : ∃ r, (⟨.modify (see at_ key), r⟩ : Heard (Cmd T) Cmd.Resp PassError) ∈ before := by
      obtain ⟨a, hdone, -⟩ | ⟨e, hfailed, -⟩ := hlookup
      · obtain ⟨_, rest, rfl, -⟩ := Completed.of_perform_bind hdone
        exact ⟨_, List.mem_cons_self⟩
      · cases hfailed with
        | call c k r hrest => exact ⟨r, List.mem_cons_self⟩
    obtain ⟨r, hr⟩ := hfirst
    exact ⟨r, List.mem_cons_of_mem _ (List.mem_append_left _ hr), hsee id⟩

def Unsettled (known : LedgerRecord) : Prop :=
  known.absentPasses.getD 0 ≠ 0 ∨ known.deletionReportedAt ≠ none ∨ known.deletionTrashedAt ≠ none

theorem syncItem_clears (hkey : d.naturalKey item = some key) (h : Completed (syncItem d at_ item) heard u) :
    ∃ found, (⟨.ledger (.find d.scope key), .ok found⟩ : Heard (Cmd T) Cmd.Resp PassError) ∈ heard ∧
      ∀ known, found = some known → Unsettled known → ∃ x ∈ heard, Cleared d.scope key x := by
  unfold syncItem at h
  rw [hkey] at h
  obtain ⟨_, rest, rfl, hrest⟩ := Completed.of_perform_bind h
  obtain ⟨found, more, rfl, hmore⟩ := Completed.of_perform_bind hrest
  refine ⟨found, by simp, ?_⟩
  rintro known rfl hunsettled
  change Completed (onKnown d at_ item key known) more u at hmore
  obtain ⟨before, _, after, rfl, hclear, -⟩ := Completed.of_bind hmore
  have hdue : known.absentPasses.getD 0 ≠ 0 ∨ known.deletionReportedAt ≠ none ∨ known.deletionTrashedAt ≠ none :=
    hunsettled
  rw [if_pos hdue] at hclear
  rw [Completed.of_perform hclear]
  exact ⟨_, by simp, rfl⟩

end Items

section Loop

variable [FolderLike Folder]

/-- One folder's turn in a pass: the cursor it went on from, and what the source listed. -/
structure Poll (Folder Item : Type) where
  folder : Folder
  previous : Option String
  listing : Listing Item

/-- All that the folder holds was enumerated. -/
def Poll.Whole (d : DomainSyncDeps T Item Folder Raw) (p : Poll Folder Item) : Prop :=
  match d.listCollectionKeys with
  | some listCollectionKeys => ∃ keys, listCollectionKeys p.folder = .ok keys
  | none => p.previous = none

/-- The folders' turns, as these episodes went through them. -/
structure PolledIn (d : DomainSyncDeps T Item Folder Raw) (es : List (Episode (Cmd T) Cmd.Resp PassError))
    (p : Poll Folder Item) : Prop where
  listing : d.listSince p.folder p.previous = .ok p.listing
  previous : ∃ heard, heard ⊆ es.flatMap Episode.own ∧ Completed (previousCursor d p.folder) heard p.previous

variable (d : DomainSyncDeps T Item Folder Raw) {es es' : List (Episode (Cmd T) Cmd.Resp PassError)}
  {items items' : List (ScannedItem T Item)} {polls polls' : List (Poll Folder Item)} {s t u : World T}

/-- What has come of some folders' turns between two worlds. -/
structure Looped (es : List (Episode (Cmd T) Cmd.Resp PassError)) (items : List (ScannedItem T Item))
    (polls : List (Poll Folder Item)) (s t : World T) : Prop where
  covers : Covers d es items
  asked : ∀ x ∈ es.flatMap Episode.own, (loopVocabulary d).asks x.1
  sees : s.vars.seenByCollection ⊆ t.vars.seenByCollection
  listed : ∀ e ∈ items, ∀ key, HasKey d e.item key → (e.place.collectionPath, key) ∈ t.vars.seenByCollection
  enumerated : ∀ p ∈ polls, ∀ listCollectionKeys keys, d.listCollectionKeys = some listCollectionKeys →
    listCollectionKeys p.folder = .ok keys → ∀ key ∈ keys, (collectionPath p.folder, key) ∈ t.vars.seenByCollection
  whole : t.vars.fullyEnumerated = true ↔ s.vars.fullyEnumerated = true ∧ ∀ p ∈ polls, p.Whole d

variable {d}

theorem PolledIn.mono {p : Poll Folder Item} (h : PolledIn d es p) (hsub : es ⊆ es') : PolledIn d es' p where
  listing := h.listing
  previous := by
    obtain ⟨heard, hin, hcompleted⟩ := h.previous
    refine ⟨heard, fun x hx => ?_, hcompleted⟩
    obtain ⟨e, he, hxe⟩ := List.mem_flatMap.mp (hin hx)
    exact List.mem_flatMap.mpr ⟨e, hsub he, hxe⟩

theorem Looped.append (h : Looped d es items polls s t) (h' : Looped d es' items' polls' t u) :
    Looped d (es ++ es') (items ++ items') (polls ++ polls') s u where
  covers := h.covers.append h'.covers
  asked x hx := by
    rw [List.flatMap_append] at hx
    exact (List.mem_append.mp hx).elim (h.asked x) (h'.asked x)
  sees := List.Subset.trans h.sees h'.sees
  listed e he key hkey := (List.mem_append.mp he).elim (fun he => h'.sees (h.listed e he key hkey))
    fun he => h'.listed e he key hkey
  enumerated p hp f keys hf hkeys key hkey := (List.mem_append.mp hp).elim
    (fun hp => h'.sees (h.enumerated p hp f keys hf hkeys key hkey)) fun hp => h'.enumerated p hp f keys hf hkeys key hkey
  whole := by
    rw [h'.whole, h.whole, List.forall_mem_append, and_assoc]

theorem Looped.nil (h : t.vars = s.vars) : Looped d [] [] ([] : List (Poll Folder Item)) s t where
  covers := Covers.nil
  asked := by simp
  sees := by
    rw [h]
    exact List.Subset.refl _
  listed := by simp
  enumerated := by simp
  whole := by simp [h]

theorem Covers.asked (h : Covers d es items) (hsound : ∀ e ∈ es, e.Sound)
    (htruth : ∀ x ∈ es.flatMap Episode.heard, Truthful x.2) :
    ∀ x ∈ es.flatMap Episode.heard, x.2 ∈ es.flatMap Episode.own ∨
      ∃ e ∈ items, x.2 ∈ e.heard ∧ (workerVocabulary d e.place e.item fun _ => True).asks x.2.1 := by
  intro x hx
  obtain ⟨ep, hep, hxe⟩ := List.mem_flatMap.mp hx
  obtain hown | ⟨l, hl, hxl⟩ := Episode.heard_cases (hsound ep hep) hxe
  · exact .inl (List.mem_flatMap.mpr ⟨ep, hep, hown⟩)
  · have hlog : l ∈ items.map ScannedItem.heard := h.logs ▸ List.mem_flatMap.mpr ⟨ep, hep, hl⟩
    obtain ⟨e, he, rfl⟩ := List.mem_map.mp hlog
    refine .inr ⟨e, he, hxl, ?_⟩
    apply (h.completed e he).reaches.asks (syncItem_emits (recordsUnder_any d e.item)) _ _ hxl
    intro y hy
    obtain ⟨th, hth⟩ := Episode.mem_logs hl hy
    exact (htruth (th, y) (List.mem_flatMap.mpr ⟨ep, hep, hth⟩)).hears

theorem Covers.heard (h : Covers d es items) {e : ScannedItem T Item} (he : e ∈ items)
    {x : Heard (Cmd T) Cmd.Resp PassError} (hx : x ∈ e.heard) : ∃ th, (th, x) ∈ es.flatMap Episode.heard := by
  have hlog : e.heard ∈ es.flatMap Episode.logs := by
    rw [h.logs]
    exact List.mem_map_of_mem he
  obtain ⟨ep, hep, hl⟩ := List.mem_flatMap.mp hlog
  obtain ⟨th, hth⟩ := Episode.mem_logs hl hx
  exact ⟨th, List.mem_flatMap.mpr ⟨ep, hep, hth⟩⟩

/-- What a pass does with a folder besides its workers and its enumeration. -/
def wholeVocabulary (d : DomainSyncDeps T Item Folder Raw) : Vocabulary (Cmd T) Cmd.Resp PassError where
  asks c := (loopVocabulary d).asks c ∧ ∀ f, c = .modify f → ∀ v : PassVars, (f v).fullyEnumerated = v.fullyEnumerated
  hears := Cmd.Hears

omit [FolderLike Folder] in
theorem loop_sees {c : Cmd T} (h : (loopVocabulary d).asks c) {f : PassVars → PassVars} (hc : c = .modify f) (v : PassVars) :
    v.seenByCollection ⊆ (f v).seenByCollection := by
  subst hc
  exact (h v).seen

theorem lift_asked {V : Vocabulary (Cmd T) Cmd.Resp PassError} {α : Type} {p : Task T α} {a : α}
    (hp : Emits V p (fun _ => True)) (h : Ended (Main.lift p) es a)
    (hears : ∀ x ∈ es.flatMap Episode.heard, V.hears x.2.1 x.2.2) :
    (∀ x ∈ es.flatMap Episode.own, V.asks x.1) ∧ ∀ x ∈ es.flatMap Episode.heard, V.asks x.2.1 := by
  obtain ⟨heard, hcompleted, rfl⟩ := h.of_lift
  have hown : (heard.map fun x => Episode.asked x.1 x.2).flatMap Episode.own = heard := by
    simp [List.flatMap_map, Episode.own]
  have hheard : (heard.map fun x => Episode.asked x.1 x.2).flatMap Episode.heard = heard.map (none, ·) := by
    rw [List.flatMap_map]
    exact List.map_eq_flatMap.symm
  rw [hheard] at hears ⊢
  rw [hown]
  have hasks := hcompleted.reaches.asks hp fun y hy => hears (none, y) (List.mem_map_of_mem hy)
  refine ⟨hasks, fun x hx => ?_⟩
  obtain ⟨y, hy, rfl⟩ := List.mem_map.mp hx
  exact hasks y hy

theorem Looped.lift {α : Type} {p : Task T α} {a : α} (hkeeps : Emits (wholeVocabulary d) p (fun _ => True))
    (hown : Emits ownVocabulary p (fun _ => True)) (h : Ended (Main.lift p) es a)
    (htruth : ∀ x ∈ es.flatMap Episode.heard, Truthful x.2) (hran : Ran (machine T) s (es.flatMap Episode.heard) t) :
    Looped d es [] [] s t := by
  obtain ⟨howns, hall⟩ := lift_asked hkeeps h fun x hx => (htruth x hx).hears
  constructor
  · exact Covers.lift hown h htruth
  · exact fun x hx => (howns x hx).1
  · exact ran_sees hran fun x hx f hf => loop_sees (hall x hx).1 hf
  · simp
  · simp
  · rw [ran_enumerated hran fun x hx => (hall x hx).2]
    simp

theorem previousCursor_whole (folder : Folder) :
    Emits (wholeVocabulary d) (previousCursor d folder) (fun _ => True) := by
  unfold previousCursor
  split
  · exact (Emits.perform _ _).mpr ⟨⟨trivial, nofun⟩, fun _ _ => trivial⟩
  · trivial

theorem advanceCursor_whole (folder : Folder) (nextCursor : String) :
    Emits (wholeVocabulary d) (advanceCursor d folder nextCursor) (fun _ => True) := by
  refine Emits.seq ((Emits.perform _ _).mpr ⟨⟨trivial, nofun⟩, fun _ _ => trivial⟩) fun v => ?_
  split
  · exact (Emits.perform _ _).mpr ⟨⟨⟨rfl, rfl⟩, nofun⟩, fun _ _ => trivial⟩
  · trivial

theorem ran_modify {th : Option ℕ} {f : PassVars → PassVars} {r : Except PassError Unit}
    (h : Ran (machine T) s [(th, ⟨.modify f, r⟩)] t) : t.vars = f s.vars := by
  obtain ⟨v, i, hv, -, hrest⟩ := h.head
  rw [ran_nil_vars hrest, ← ran_nil_vars hv]
  rfl

theorem enumerateCollection_looped {folder : Folder} {prev : Option String} (listing : Listing Item) {a : Unit}
    (h : Ended (Main.lift (enumerateCollection d folder prev)) es a)
    (htruth : ∀ x ∈ es.flatMap Episode.heard, Truthful x.2) (hran : Ran (machine T) s (es.flatMap Episode.heard) t) :
    Looped d es [] [⟨folder, prev, listing⟩] s t := by
  have hloop := lift_asked (enumerateCollection_loop folder prev) h fun x hx => (htruth x hx).hears
  have hvars : (t.vars.fullyEnumerated = true ↔ s.vars.fullyEnumerated = true ∧
      Poll.Whole d (⟨folder, prev, listing⟩ : Poll Folder Item)) ∧
      ∀ f keys, d.listCollectionKeys = some f → f folder = .ok keys →
        ∀ key ∈ keys, (collectionPath folder, key) ∈ t.vars.seenByCollection := by
    obtain ⟨heard, hcompleted, rfl⟩ := h.of_lift
    rw [enumerateCollection] at hcompleted
    have hone : ∀ g : PassVars → PassVars, Completed (Task.modify g : Task T Unit) heard a → t.vars = g s.vars := by
      intro g hg
      obtain rfl := completed_modify hg
      exact ran_modify hran
    cases hkeys : d.listCollectionKeys with
    | some listCollectionKeys =>
      simp only [hkeys] at hcompleted
      cases hlisted : listCollectionKeys folder with
      | ok keys =>
        simp only [hlisted] at hcompleted
        have hv := hone _ hcompleted
        constructor
        · rw [hv]
          simp [Poll.Whole, hkeys, hlisted]
        · rintro f keys' hf hkeys' key hkey
          obtain rfl := Option.some.inj hf
          rw [hlisted] at hkeys'
          obtain rfl := Except.ok.inj hkeys'
          rw [hv]
          exact List.mem_append_right _ (List.mem_map.mpr ⟨key, hkey, rfl⟩)
      | error e =>
        simp only [hlisted] at hcompleted
        have hv := hone _ hcompleted
        constructor
        · rw [hv]
          simp [Poll.Whole, hkeys, hlisted]
        · rintro f keys' hf hkeys'
          obtain rfl := Option.some.inj hf
          rw [hlisted] at hkeys'
          cases hkeys'
    | none =>
      simp only [hkeys] at hcompleted
      refine ⟨?_, nofun⟩
      by_cases hprev : prev = none
      · rw [if_neg (by simpa using hprev)] at hcompleted
        obtain ⟨rfl, -⟩ := Completed.of_ret hcompleted
        rw [ran_nil_vars hran]
        simp [Poll.Whole, hkeys, hprev]
      · rw [if_pos hprev] at hcompleted
        rw [hone _ hcompleted]
        simp [Poll.Whole, hkeys, hprev]
  constructor
  · exact Covers.lift (enumerateCollection_own d folder prev) h htruth
  · exact hloop.1
  · exact ran_sees hran fun x hx f hf => loop_sees (hloop.2 x hx) hf
  · simp
  · intro p hp
    obtain rfl := List.mem_singleton.mp hp
    exact hvars.2
  · simpa using hvars.1

theorem Looped.map (hcovers : Covers d es items) (hsound : ∀ e ∈ es, e.Sound) (hown : es.flatMap Episode.own = [])
    (htruth : ∀ x ∈ es.flatMap Episode.heard, Truthful x.2) (hran : Ran (machine T) s (es.flatMap Episode.heard) t) :
    Looped d es items [] s t := by
  have hvars : ∀ x ∈ es.flatMap Episode.heard, ∀ f, x.2.1 = .modify f →
      ∀ v : PassVars, v.seenByCollection ⊆ (f v).seenByCollection ∧ (f v).fullyEnumerated = v.fullyEnumerated := by
    rintro ⟨th, c, r⟩ hx f hf v
    obtain hin | ⟨e, -, -, hasks⟩ := hcovers.asked hsound htruth _ hx
    · rw [hown] at hin
      cases hin
    · obtain rfl : c = .modify f := hf
      have hworker : WorkerVars d e.place e.item v (f v) := hasks v
      exact ⟨hworker.seen, hworker.enumerated⟩
  constructor
  · exact hcovers
  · rw [hown]
    simp
  · exact ran_sees hran fun x hx f hf v => (hvars x hx f hf v).1
  · intro e he key hkey
    obtain ⟨f, r, hf, hsees⟩ := syncItem_sees d hkey (hcovers.completed e he)
    obtain ⟨th, hth⟩ := hcovers.heard he hf
    exact ran_seen hran (fun x hx f hf v => (hvars x hx f hf v).1) hth hsees
  · simp
  · rw [ran_enumerated hran fun x hx f hf v => (hvars x hx f hf v).2]
    simp

theorem syncFolder_looped {n : ℕ} {folders : List Folder} {folder : Folder} {a : Unit}
    (hfolders : d.listFolders = .ok folders) (hfolder : folders[n]? = some folder)
    (h : Ended (syncFolder d folder n) es a) (htruth : ∀ x ∈ es.flatMap Episode.heard, Truthful x.2)
    (hran : Ran (machine T) s (es.flatMap Episode.heard) t) :
    ∃ (p : Poll Folder Item) (items : List (ScannedItem T Item)), p.folder = folder ∧ PolledIn d es p ∧ Looped d es items [p] s t := by
  obtain ⟨collectionId, prev, listing, es₁, es₂, es₃, es₄, es₅, hid, hlisting, rfl, hprevious, hstage, henumerate, hmap,
    hadvance⟩ := syncFolder_ended h
  simp only [List.flatMap_append] at hran htruth
  obtain ⟨s₁, hran₁, hran⟩ := hran.split
  obtain ⟨s₂, hran₂, hran⟩ := hran.split
  obtain ⟨s₃, hran₃, hran⟩ := hran.split
  obtain ⟨s₄, hran₄, hran₅⟩ := hran.split
  simp only [List.forall_mem_append] at htruth
  obtain ⟨htruth₁, htruth₂, htruth₃, htruth₄, htruth₅⟩ := htruth
  obtain ⟨items, hitems⟩ := Covers.map hfolders hfolder hid hlisting hmap
  have hstages : Emits (wholeVocabulary d) (Task.modify fun v =>
      { v with stage := .folder n, reportedRemovals := v.reportedRemovals ++ listing.removed }) (fun _ => True) := by
    refine (Emits.perform _ _).mpr ⟨⟨fun v => ?_, ?_⟩, fun _ _ => trivial⟩
    · exact ⟨List.Subset.refl _, List.subset_append_left _ _, le_rfl, fun h => h⟩
    · rintro f hf v
      rw [← Cmd.modify.inj hf]
  have hown : es₄.flatMap Episode.own = [] := by
    obtain ⟨log, rfl, -⟩ := hmap.of_map
    rfl
  have hprevious' := Looped.lift (previousCursor_whole folder) (previousCursor_own d folder) hprevious htruth₁ hran₁
  have hstage' := Looped.lift hstages (own_modify (fun k v => by cases k <;> rfl) (fun k _ => by cases k <;> rfl))
    hstage htruth₂ hran₂
  have henumerate' := enumerateCollection_looped listing henumerate htruth₃ hran₃
  have hmap' := Looped.map hitems hmap.sound hown htruth₄ hran₄
  have hadvance' := Looped.lift (advanceCursor_whole folder listing.nextCursor)
    (advanceCursor_own d folder listing.nextCursor) hadvance htruth₅ hran₅
  have hall := hprevious'.append (hstage'.append (henumerate'.append (hmap'.append hadvance')))
  refine ⟨⟨folder, prev, listing⟩, items, rfl, ⟨hlisting, ?_⟩, by simpa using hall⟩
  obtain ⟨heard, hcompleted, rfl⟩ := hprevious.of_lift
  refine ⟨heard, ?_, hcompleted⟩
  intro x hx
  rw [List.flatMap_append]
  apply List.mem_append_left
  exact List.mem_flatMap.mpr ⟨_, List.mem_map_of_mem hx, List.mem_singleton.mpr rfl⟩

theorem forEach_looped {folders : List Folder} (hfolders : d.listFolders = .ok folders) {xs : List (Folder × ℕ)}
    (hxs : ∀ x ∈ xs, folders[x.2]? = some x.1) {a : Unit}
    (h : Ended (Prog.forEach xs fun e => syncFolder d e.1 e.2) es a)
    (htruth : ∀ x ∈ es.flatMap Episode.heard, Truthful x.2) (hran : Ran (machine T) s (es.flatMap Episode.heard) t) :
    ∃ (polls : List (Poll Folder Item)) (items : List (ScannedItem T Item)), polls.map Poll.folder = xs.map Prod.fst ∧
      (∀ p ∈ polls, PolledIn d es p) ∧ Looped d es items polls s t := by
  induction xs generalizing es s with
  | nil =>
    obtain ⟨rfl, -⟩ := h.of_ret
    exact ⟨[], [], rfl, by simp, Looped.nil (ran_nil_vars hran)⟩
  | cons x xs ih =>
    obtain ⟨before, _, after, rfl, hfirst, hrest⟩ := Ended.of_bind h
    rw [List.flatMap_append] at hran htruth
    rw [List.forall_mem_append] at htruth
    obtain ⟨v, hranFirst, hranRest⟩ := hran.split
    obtain ⟨p, items, hfolder, hpolled, hlooped⟩ :=
      syncFolder_looped hfolders (hxs x List.mem_cons_self) hfirst htruth.1 hranFirst
    obtain ⟨polls, items', hmap, hpolls, hrests⟩ :=
      ih (fun y hy => hxs y (List.mem_cons_of_mem x hy)) hrest htruth.2 hranRest
    refine ⟨p :: polls, items ++ items', ?_, ?_, hlooped.append hrests⟩
    · rw [List.map_cons, List.map_cons, hfolder, hmap]
    · rw [List.forall_mem_cons]
      exact ⟨hpolled.mono (List.subset_append_left _ _), fun q hq => (hpolls q hq).mono (List.subset_append_right _ _)⟩

end Loop

end OpenMigrate
