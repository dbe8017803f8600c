import OpenMigrate.Sync.Accounting

namespace OpenMigrate

open Async

variable {T : TargetApi}

section Variables

/-- The pass's variables once these commands have been carried out. -/
def varsAfter (v : PassVars) (hs : List (Option ℕ × Heard (Cmd T) Cmd.Resp PassError)) : PassVars :=
  hs.foldl (fun v x => match x.2.1 with | .modify f => f v | _ => v) v

theorem exec_sets_vars (i : Input T) (w : World T) (c : Cmd T) :
    (w.exec i c).2.vars = match c with | .modify f => f w.vars | _ => w.vars := by
  cases c with
  | ledger op | cursorGet key | cursorSet key value =>
    cases hf : i.fault <;> simp [World.exec, World.query, World.vars, hf]
  | target c => rfl
  | modify f => rfl
  | vars => rfl

theorem exec_truthful (i : Input T) (w : World T) (c : Cmd T) :
    Truthful (⟨c, (w.exec i c).1⟩ : Heard (Cmd T) Cmd.Resp PassError) := by
  have hears := exec_hears i w c
  cases c with
  | modify f => rfl
  | _ => exact hears

theorem heardIn_truthful {α : Type} (x : Conf (Cmd T) Cmd.Resp PassError α × World T) (chs : List (Choice (Input T) T.Act)) :
    ∀ h ∈ heardIn (machine T) ((machine T).trace x chs), Truthful h.2 := by
  intro h hh
  obtain ⟨ev, -, hev⟩ := List.mem_flatMap.mp hh
  cases ev with
  | act a s => cases hev
  | exec th c i s =>
    obtain rfl := List.mem_singleton.mp hev
    exact exec_truthful i s c

theorem heardIn_vars {α : Type} {x : Conf (Cmd T) Cmd.Resp PassError α × World T} {chs : List (Choice (Input T) T.Act)}
    {before after : List (Option ℕ × Heard (Cmd T) Cmd.Resp PassError)} {th : Option ℕ} {r : Except PassError PassVars}
    (h : heardIn (machine T) ((machine T).trace x chs) = before ++ (th, ⟨.vars, r⟩) :: after) :
    r = .ok (varsAfter x.2.vars before) := by
  induction chs generalizing x before with
  | nil => simp [heardIn, Machine.trace] at h
  | cons ch chs ih =>
    rw [Machine.trace, heardIn, List.flatMap_append] at h
    cases he : Machine.event? x ch with
    | none =>
      rw [he] at h
      have hrest := ih h
      rwa [(machine T).step_snd_none he] at hrest
    | some ev =>
      rw [he] at h
      obtain ⟨hpre, hpost⟩ := (machine T).step_snd_some he
      cases ev with
      | act a s =>
        have hrest := ih h
        rw [hpost] at hrest
        obtain rfl : s = x.2 := hpre
        exact hrest
      | exec th' c i s =>
        obtain rfl : s = x.2 := hpre
        cases before with
        | nil =>
          obtain ⟨hhead, -⟩ := List.cons.inj h
          obtain ⟨-, hx⟩ := Prod.mk.inj hhead
          obtain ⟨rfl, hr⟩ := Sigma.mk.inj hx
          exact (eq_of_heq hr).symm
        | cons y before =>
          obtain ⟨rfl, htail⟩ := List.cons.inj h
          have hrest := ih htail
          rw [hpost] at hrest
          rw [hrest, varsAfter, varsAfter, List.foldl_cons]
          have hvars := exec_sets_vars i x.2 c
          change World.vars ((machine T).post (.exec th' c i x.2)) = _ at hvars
          rw [hvars]

theorem varsAfter_count {v : PassVars} {hs : List (Option ℕ × Heard (Cmd T) Cmd.Resp PassError)}
    (h : ∀ x ∈ hs, OnlyAdds x.2) (k : Counter) :
    (varsAfter v hs).count k = v.count k + (hs.map fun x => increment k x.2).sum := by
  induction hs generalizing v with
  | nil => rfl
  | cons x hs ih =>
    obtain ⟨th, c, r⟩ := x
    have hrest := fun v => ih (v := v) fun y hy => h y (List.mem_cons_of_mem _ hy)
    rw [List.map_cons, List.sum_cons, ← Nat.add_assoc]
    cases c with
    | modify f =>
      have hadds : Adds f := h _ List.mem_cons_self
      rw [varsAfter, List.foldl_cons]
      exact (hrest (f v)).trans (congrArg (· + _) (hadds k v))
    | ledger op | target c | cursorGet key | cursorSet key value | vars => exact hrest v

end Variables

section Own

variable {Item Folder Raw : Type} (d : DomainSyncDeps T Item Folder Raw)

/-- What the pass asks outside its workers: of the counters it only touches `moved`. -/
def ownVocabulary : Vocabulary (Cmd T) Cmd.Resp PassError where
  asks
    | .ledger op => op.isFailure = false
    | .modify f => Adds f ∧ ∀ k ≠ .moved, (f {}).count k = 0
    | _ => True
  hears := Cmd.Hears

theorem own_modify {f : PassVars → PassVars} (hadds : Adds f) (hzero : ∀ k ≠ .moved, (f {}).count k = 0) :
    Emits (ownVocabulary (T := T)) (Task.modify f) (fun _ => True) :=
  (Emits.perform _ _).mpr ⟨⟨hadds, hzero⟩, fun _ _ => trivial⟩

theorem own_vars : Emits (ownVocabulary (T := T)) Task.vars (fun _ => True) :=
  (Emits.perform _ _).mpr ⟨trivial, fun _ _ => trivial⟩

theorem own_when {b : Prop} [Decidable b] {p : Task T Unit} (h : Emits ownVocabulary p (fun _ => True)) :
    Emits ownVocabulary (if b then p else .ret ()) (fun _ => True) := by
  split
  · exact h
  · trivial

theorem walkPlaced_own (scope : Scope) (seen : List (String × String)) (placed : List PlacedItem)
    (arrivals : List CreatedItem) :
    Emits (ownVocabulary (T := T)) (walkPlaced scope seen placed arrivals) (fun _ => True) := by
  have hledger : ∀ op : LedgerOp, op.isFailure = false →
      Emits (ownVocabulary (T := T)) (Task.ledger op) (fun _ => True) := fun op hop => asks_ledger hop
  induction placed generalizing arrivals with
  | nil => trivial
  | cons row rest ih =>
    unfold walkPlaced
    split
    · exact ih arrivals
    split
    · apply Emits.seq (own_when (hledger _ rfl))
      intro _
      exact Emits.seq (own_when (hledger _ rfl)) fun _ => ih arrivals
    split
    · exact Emits.seq (ih arrivals) fun out => trivial
    split
    · exact Emits.seq (hledger _ rfl) fun _ => Emits.seq (ih _) fun out => trivial
    · exact Emits.seq (hledger _ rfl) fun _ => Emits.seq (ih arrivals) fun out => trivial

theorem resolveRemovals_own : Emits ownVocabulary (resolveRemovals d) (fun _ => True) := by
  apply Emits.seq own_vars
  intro v
  apply Emits.seq (resolveReportedRemovals_asks (fun _ => rfl) (fun _ => rfl) _ _ _)
  intro reported
  exact own_modify (fun k v => by cases k <;> rfl) (fun k _ => by cases k <;> rfl)

theorem readBins_own : Emits ownVocabulary (readBins d) (fun _ => True) := by
  unfold readBins
  split
  · trivial
  · rename_i scan hscan
    apply Emits.attempt
    · refine (d.listDiscardedKeys_asks scan hscan).weaken ?_ fun _ _ h => h
      intro c hc
      cases c with
      | cursorGet key => trivial
      | cursorSet key value => trivial
      | _ => exact hc.elim
    · exact fun _ => trivial
    · intro discarded
      apply Emits.seq (own_when (own_modify (fun k v => by cases k <;> rfl) (fun k _ => by cases k <;> rfl)))
      intro _
      apply Emits.seq own_vars
      intro v
      apply Emits.seq (resolveDiscardedItems_asks (fun _ => rfl) (fun _ => rfl) _ _)
      intro trashed
      exact own_modify (fun k v => by cases k <;> rfl) (fun k _ => by cases k <;> rfl)

theorem detectMoves_own : Emits ownVocabulary (detectMoves d) (fun _ => True) := by
  apply Emits.seq own_vars
  intro v
  apply own_when
  apply Emits.seq (Emits.seq (asks_ledger rfl) fun placed => walkPlaced_own _ _ _ _)
  intro found
  apply own_modify
  · exact fun k v => by cases k <;> simp [PassVars.count]
  · exact fun k hk => by cases k <;> first | rfl | exact absurd rfl hk

variable [FolderLike Folder]

theorem previousCursor_own (folder : Folder) : Emits ownVocabulary (previousCursor d folder) (fun _ => True) := by
  unfold previousCursor
  split
  · exact (Emits.perform _ _).mpr ⟨trivial, fun _ _ => trivial⟩
  · trivial

theorem enumerateCollection_own (folder : Folder) (prev : Option String) :
    Emits ownVocabulary (enumerateCollection d folder prev) (fun _ => True) := by
  have hpartial : Emits (ownVocabulary (T := T)) (Task.modify fun v => { v with fullyEnumerated := false })
      (fun _ => True) := own_modify (fun k v => by cases k <;> rfl) (fun k _ => by cases k <;> rfl)
  unfold enumerateCollection
  split
  · split
    · exact own_modify (fun k v => by cases k <;> rfl) (fun k _ => by cases k <;> rfl)
    · exact hpartial
  · exact own_when hpartial

theorem advanceCursor_own (folder : Folder) (nextCursor : String) :
    Emits ownVocabulary (advanceCursor d folder nextCursor) (fun _ => True) := by
  apply Emits.seq own_vars
  intro v
  split
  · exact (Emits.perform _ _).mpr ⟨trivial, fun _ _ => trivial⟩
  · trivial

end Own

section Pass

variable {Item Folder Raw : Type} (d : DomainSyncDeps T Item Folder Raw)

/-- An item the loop has been through, and what its worker heard. -/
structure ScannedItem (T : TargetApi) (Item : Type) where
  place : Place
  item : Item
  heard : List (Heard (Cmd T) Cmd.Resp PassError)

/-- What the pass itself heard touches no counter but `moved`. -/
structure OwnOnly (x : Heard (Cmd T) Cmd.Resp PassError) : Prop where
  plain : OnlyAdds x
  zero : ∀ k ≠ .moved, increment k x = 0

variable [FolderLike Folder]

/-- These episodes are the pass's own commands and the workers of these items. -/
structure Covers (es : List (Episode (Cmd T) Cmd.Resp PassError)) (items : List (ScannedItem T Item)) : Prop where
  logs : es.flatMap Episode.logs = items.map ScannedItem.heard
  listed : ∀ e ∈ items, ListedAt d e.place e.item
  completed : ∀ e ∈ items, Completed (syncItem d e.place e.item) e.heard ()
  own : ∀ x ∈ es.flatMap Episode.own, OwnOnly x

variable {d} {es es' : List (Episode (Cmd T) Cmd.Resp PassError)} {items items' : List (ScannedItem T Item)}

theorem Covers.nil : Covers d [] [] := ⟨rfl, by simp, by simp, by simp⟩

theorem Covers.append (h : Covers d es items) (h' : Covers d es' items') : Covers d (es ++ es') (items ++ items') := by
  constructor
  · rw [List.flatMap_append, List.map_append, h.logs, h'.logs]
  · intro e he
    exact (List.mem_append.mp he).elim (h.listed e) (h'.listed e)
  · intro e he
    exact (List.mem_append.mp he).elim (h.completed e) (h'.completed e)
  · intro x hx
    rw [List.flatMap_append] at hx
    exact (List.mem_append.mp hx).elim (h.own x) (h'.own x)

theorem Covers.lift {α : Type} {p : Task T α} {a : α} (hp : Emits ownVocabulary p (fun _ => True))
    (h : Ended (Main.lift p) es a) (htruth : ∀ x ∈ es.flatMap Episode.heard, Truthful x.2) : Covers d es [] := by
  obtain ⟨heard, hcompleted, rfl⟩ := h.of_lift
  have hown : (heard.map fun x => Episode.asked x.1 x.2).flatMap Episode.own = heard := by
    simp [List.flatMap_map, Episode.own]
  have hheard : ∀ x ∈ heard, Truthful x := by
    intro x hx
    apply htruth (none, x)
    exact List.mem_flatMap.mpr ⟨_, List.mem_map.mpr ⟨x, hx, rfl⟩, List.mem_singleton.mpr rfl⟩
  constructor
  · simp [List.flatMap_map, Episode.logs]
  · simp
  · simp
  · rw [hown]
    intro x hx
    have hasks := hcompleted.reaches.asks hp (fun y hy => (hheard y hy).hears) x hx
    obtain ⟨c, r⟩ := x
    cases c with
    | modify f => exact ⟨hasks.1, hasks.2⟩
    | ledger op | target c | cursorGet key | cursorSet key value | vars => exact ⟨trivial, fun _ _ => rfl⟩

theorem Covers.ofExcept {α : Type} {x : Except PassError α} {a : α} (h : Ended (Main.lift (Prog.ofExcept x)) es a) :
    x = .ok a ∧ es = [] := by
  obtain ⟨heard, hcompleted, rfl⟩ := h.of_lift
  cases x with
  | error e => cases hcompleted
  | ok b =>
    obtain ⟨rfl, rfl⟩ := Completed.of_ret hcompleted
    exact ⟨rfl, rfl⟩

theorem Covers.map {limit n : ℕ} {folders : List Folder} {folder : Folder} {prev : Option String}
    {listing : Listing Item} {collectionId : String} {u : Unit} (hfolders : d.listFolders = .ok folders)
    (hfolder : folders[n]? = some folder) (hid : d.ensureCollection folder = .ok collectionId)
    (hlisting : d.listSince folder prev = .ok listing)
    (h : Ended (Main.mapWithConcurrency limit (workers d folder n collectionId listing.items)) es u) :
    ∃ items, Covers d es items := by
  obtain ⟨log, rfl, hworkers⟩ := h.of_map
  refine ⟨listing.items.zipIdx.map fun e => ⟨place folder n collectionId e.2, e.1, ownLog e.2 log⟩, ?_, ?_, ?_, ?_⟩
  · have hrange : listing.items.zipIdx.map Prod.snd = List.range listing.items.length := by
      rw [List.zipIdx_map_snd, List.range_eq_range']
    have hlogs : Episode.logs (.mapped ⟨limit, workers d folder n collectionId listing.items⟩ (.ok ()) log) =
        (listing.items.zipIdx.map Prod.snd).map fun j => ownLog j log := by
      rw [hrange, Episode.logs, workers, List.length_map, List.length_zipIdx]
    rw [List.flatMap_singleton, hlogs, List.map_map, List.map_map]
    rfl
  · intro e he
    obtain ⟨⟨item, j⟩, hmem, rfl⟩ := List.mem_map.mp he
    exact ⟨folders, folder, prev, listing, hfolders, hfolder, hlisting, List.mem_zipIdx_iff_getElem?.mp hmem, hid, rfl⟩
  · intro e he
    obtain ⟨⟨item, j⟩, hmem, rfl⟩ := List.mem_map.mp he
    apply hworkers j
    rw [workers, List.getElem?_map, List.getElem?_zipIdx, List.mem_zipIdx_iff_getElem?.mp hmem]
    simp
  · simp [Episode.own]

theorem syncFolder_ended {n : ℕ} {folder : Folder} {u : Unit} (h : Ended (syncFolder d folder n) es u) :
    ∃ collectionId prev listing es₁ es₂ es₃ es₄ es₅,
      d.ensureCollection folder = .ok collectionId ∧ d.listSince folder prev = .ok listing ∧
      es = es₁ ++ (es₂ ++ (es₃ ++ (es₄ ++ es₅))) ∧
      Ended (Main.lift (previousCursor d folder)) es₁ prev ∧
      Ended (Main.lift (Task.modify fun v =>
        { v with stage := .folder n, reportedRemovals := v.reportedRemovals ++ listing.removed })) es₂ () ∧
      Ended (Main.lift (enumerateCollection d folder prev)) es₃ () ∧
      Ended (Main.mapWithConcurrency d.concurrency (workers d folder n collectionId listing.items)) es₄ () ∧
      Ended (Main.lift (advanceCursor d folder listing.nextCursor)) es₅ () := by
  obtain ⟨_, collectionId, _, rfl, hensure, h₁⟩ := Ended.of_bind h
  obtain ⟨hid, rfl⟩ := Covers.ofExcept hensure
  obtain ⟨es₁, prev, _, rfl, hprevious, h₂⟩ := Ended.of_bind h₁
  obtain ⟨_, listing, _, rfl, hlist, h₃⟩ := Ended.of_bind h₂
  obtain ⟨hlisting, rfl⟩ := Covers.ofExcept hlist
  obtain ⟨es₂, _, _, rfl, hstage, h₄⟩ := Ended.of_bind h₃
  obtain ⟨es₃, _, _, rfl, henumerate, h₅⟩ := Ended.of_bind h₄
  obtain ⟨es₄, _, es₅, rfl, hmap, hadvance⟩ := Ended.of_bind h₅
  exact ⟨collectionId, prev, listing, es₁, es₂, es₃, es₄, es₅, hid, hlisting, rfl, hprevious, hstage, henumerate, hmap,
    hadvance⟩

theorem runDomainSync_ended {result : DomainSyncResult} (h : Ended (runDomainSync d) es result) :
    ∃ folders v es₁ es₂ es₃ es₄ es₅,
      d.listFolders = .ok folders ∧ result = passResult v ∧ es = es₁ ++ (es₂ ++ (es₃ ++ (es₄ ++ es₅))) ∧
      Ended (Prog.forEach folders.zipIdx fun e => syncFolder d e.1 e.2) es₁ () ∧
      Ended (Main.lift (resolveRemovals d)) es₂ () ∧ Ended (Main.lift (readBins d)) es₃ () ∧
      Ended (Main.lift (detectMoves d)) es₄ () ∧ Ended (Main.lift Task.vars) es₅ v := by
  obtain ⟨_, _, _, rfl, hfolders, h₁⟩ := Ended.of_bind h
  obtain ⟨_, folders, es₁, rfl, hlist, hloop⟩ := Ended.of_bind hfolders
  obtain ⟨hok, rfl⟩ := Covers.ofExcept hlist
  obtain ⟨es₂, _, _, rfl, hremovals, h₂⟩ := Ended.of_bind h₁
  obtain ⟨es₃, _, _, rfl, hbins, h₃⟩ := Ended.of_bind h₂
  obtain ⟨es₄, _, _, rfl, hmoves, h₄⟩ := Ended.of_bind h₃
  obtain ⟨es₅, v, _, rfl, hvars, h₅⟩ := Ended.of_bind h₄
  obtain ⟨rfl, rfl⟩ := h₅.of_ret
  rw [List.append_nil, List.nil_append]
  exact ⟨folders, v, es₁, es₂, es₃, es₄, es₅, hok, rfl, rfl, hloop, hremovals, hbins, hmoves, hvars⟩

theorem syncFolder_covers {n : ℕ} {folders : List Folder} {folder : Folder} {u : Unit}
    (hfolders : d.listFolders = .ok folders) (hfolder : folders[n]? = some folder)
    (h : Ended (syncFolder d folder n) es u) (htruth : ∀ x ∈ es.flatMap Episode.heard, Truthful x.2) :
    ∃ items, Covers d es items := by
  obtain ⟨collectionId, prev, listing, es₁, es₂, es₃, es₄, es₅, hid, hlisting, rfl, hprevious, hstage, henumerate, hmap,
    hadvance⟩ := syncFolder_ended h
  obtain ⟨items, hitems⟩ := Covers.map hfolders hfolder hid hlisting hmap
  have hsub : ∀ part : List (Episode (Cmd T) Cmd.Resp PassError),
      part ⊆ es₁ ++ (es₂ ++ (es₃ ++ (es₄ ++ es₅))) →
      ∀ x ∈ part.flatMap Episode.heard, Truthful x.2 := by
    intro part hpart x hx
    obtain ⟨e, he, hxe⟩ := List.mem_flatMap.mp hx
    exact htruth x (List.mem_flatMap.mpr ⟨e, hpart he, hxe⟩)
  have hprevious' := Covers.lift (d := d) (previousCursor_own d folder) hprevious (hsub es₁ fun e he => by simp [he])
  have hstage' := Covers.lift (d := d)
    (own_modify (fun k v => by cases k <;> rfl) (fun k _ => by cases k <;> rfl)) hstage (hsub es₂ fun e he => by simp [he])
  have henumerate' := Covers.lift (d := d) (enumerateCollection_own d folder prev) henumerate
    (hsub es₃ fun e he => by simp [he])
  have hadvance' := Covers.lift (d := d) (advanceCursor_own d folder listing.nextCursor) hadvance
    (hsub es₅ fun e he => by simp [he])
  have hall := hprevious'.append (hstage'.append (henumerate'.append (hitems.append hadvance')))
  exact ⟨_, hall⟩

theorem forEach_covers {folders : List Folder} (hfolders : d.listFolders = .ok folders) {xs : List (Folder × ℕ)}
    (hxs : ∀ x ∈ xs, folders[x.2]? = some x.1) {u : Unit}
    (h : Ended (Prog.forEach xs fun e => syncFolder d e.1 e.2) es u)
    (htruth : ∀ x ∈ es.flatMap Episode.heard, Truthful x.2) : ∃ items, Covers d es items := by
  induction xs generalizing es with
  | nil =>
    obtain ⟨rfl, -⟩ := h.of_ret
    exact ⟨[], Covers.nil⟩
  | cons x xs ih =>
    obtain ⟨before, _, after, rfl, hfirst, hrest⟩ := Ended.of_bind h
    have hbefore : ∀ x ∈ before.flatMap Episode.heard, Truthful x.2 :=
      fun y hy => htruth y (by rw [List.flatMap_append]; exact List.mem_append_left _ hy)
    have hafter : ∀ x ∈ after.flatMap Episode.heard, Truthful x.2 :=
      fun y hy => htruth y (by rw [List.flatMap_append]; exact List.mem_append_right _ hy)
    obtain ⟨items, hitems⟩ := syncFolder_covers hfolders (hxs x List.mem_cons_self) hfirst hbefore
    obtain ⟨items', hitems'⟩ := ih (fun y hy => hxs y (List.mem_cons_of_mem x hy)) hrest hafter
    exact ⟨items ++ items', hitems.append hitems'⟩

theorem runDomainSync_covers {result : DomainSyncResult} (h : Ended (runDomainSync d) es result)
    (htruth : ∀ x ∈ es.flatMap Episode.heard, Truthful x.2) :
    ∃ items before v, es = before ++ [.asked .vars (.ok v)] ∧ result = passResult v ∧ Covers d es items := by
  obtain ⟨folders, v, es₁, es₂, es₃, es₄, es₅, hok, rfl, rfl, hloop, hremovals, hbins, hmoves, hvars⟩ :=
    runDomainSync_ended h
  have hsub : ∀ part : List (Episode (Cmd T) Cmd.Resp PassError),
      part ⊆ es₁ ++ (es₂ ++ (es₃ ++ (es₄ ++ es₅))) → ∀ x ∈ part.flatMap Episode.heard, Truthful x.2 := by
    intro part hpart x hx
    obtain ⟨e, he, hxe⟩ := List.mem_flatMap.mp hx
    exact htruth x (List.mem_flatMap.mpr ⟨e, hpart he, hxe⟩)
  obtain ⟨items, hitems⟩ := forEach_covers hok (fun x hx => List.mem_zipIdx_iff_getElem?.mp hx) hloop
    (hsub es₁ fun e he => by simp [he])
  have hremovals' := Covers.lift (d := d) (resolveRemovals_own d) hremovals (hsub es₂ fun e he => by simp [he])
  have hbins' := Covers.lift (d := d) (readBins_own d) hbins (hsub es₃ fun e he => by simp [he])
  have hmoves' := Covers.lift (d := d) (detectMoves_own d) hmoves (hsub es₄ fun e he => by simp [he])
  have hvars' := Covers.lift (d := d) own_vars hvars (hsub es₅ fun e he => by simp [he])
  have hlast : es₅ = [.asked .vars (.ok v)] := by
    obtain ⟨heard, hcompleted, rfl⟩ := hvars.of_lift
    rw [Completed.of_perform hcompleted]
    rfl
  refine ⟨_, es₁ ++ (es₂ ++ (es₃ ++ es₄)), v, ?_, rfl,
    hitems.append (hremovals'.append (hbins'.append (hmoves'.append hvars')))⟩
  rw [hlast]
  simp

end Pass

section Accounts

variable {Item Folder Raw : Type} [FolderLike Folder]

/-- A pass that has ended: what it and each of its workers heard. -/
structure Passed (d : DomainSyncDeps T Item Folder Raw) (store : Store T) (chs : List (Choice (Input T) T.Act))
    (result : DomainSyncResult) (es : List (Episode (Cmd T) Cmd.Resp PassError)) (items : List (ScannedItem T Item)) :
    Prop where
  ended : Ended (runDomainSync d) es result
  heard : heardIn (machine T) ((machine T).trace (.seq (runDomainSync d), (store, PassState.fresh T)) chs) =
    es.flatMap Episode.heard
  logs : es.flatMap Episode.logs = items.map ScannedItem.heard
  listed : ∀ e ∈ items, ListedAt d e.place e.item
  completed : ∀ e ∈ items, Completed (syncItem d e.place e.item) e.heard ()

/-- The moves the pass has found by itself, after the listing. -/
def foundMoves (es : List (Episode (Cmd T) Cmd.Resp PassError)) : ℕ := increments .moved (es.flatMap Episode.own)

/-- No item is lost and none counts twice. -/
structure AccountedFor (d : DomainSyncDeps T Item Folder Raw) (es : List (Episode (Cmd T) Cmd.Resp PassError))
    (items : List (ScannedItem T Item)) (v : PassVars) : Prop where
  each : ∀ e ∈ items, outcomes e.heard = if moveAcknowledged d e.place e.item e.heard then 0 else 1
  sum : v.created + v.skipped + v.adopted + v.updated + v.conflicted + v.changedButAdopted + v.failed + v.leftBehind +
      v.reappearedAfterRemoval + v.moved + v.needsDecision +
      items.countP (fun e => moveAcknowledged d e.place e.item e.heard) =
    v.scanned + (items.map fun e => newlyParked e.heard).sum + foundMoves es

variable {d : DomainSyncDeps T Item Folder Raw} {store : Store T} {chs : List (Choice (Input T) T.Act)}
variable {result : DomainSyncResult} {es : List (Episode (Cmd T) Cmd.Resp PassError)} {items : List (ScannedItem T Item)}

theorem Passed.account (h : Passed d store chs result es items) :
    ∀ e ∈ items, ItemAccount d e.place e.item e.heard := by
  intro e he
  apply syncItem_account d _ (h.completed e he)
  intro x hx
  have hlog : e.heard ∈ es.flatMap Episode.logs := by
    rw [h.logs]
    exact List.mem_map_of_mem he
  obtain ⟨ep, hep, hl⟩ := List.mem_flatMap.mp hlog
  obtain ⟨th, hth⟩ := Episode.mem_logs hl hx
  apply heardIn_truthful (.seq (runDomainSync d), (store, PassState.fresh T)) chs (th, x)
  rw [h.heard]
  exact List.mem_flatMap.mpr ⟨ep, hep, hth⟩

theorem Passed.truthful (h : Passed d store chs result es items) : ∀ x ∈ es.flatMap Episode.heard, Truthful x.2 := by
  rw [← h.heard]
  exact heardIn_truthful _ _

theorem sum_outcomes (items : List (ScannedItem T Item)) :
    (items.map fun e => (e.heard.map totalOf).sum).sum =
      (items.map fun e => increments .created e.heard).sum + (items.map fun e => increments .skipped e.heard).sum +
      (items.map fun e => increments .adopted e.heard).sum + (items.map fun e => increments .updated e.heard).sum +
      (items.map fun e => increments .conflicted e.heard).sum +
      (items.map fun e => increments .changedButAdopted e.heard).sum +
      (items.map fun e => increments .failed e.heard).sum + (items.map fun e => increments .leftBehind e.heard).sum +
      (items.map fun e => increments .reappearedAfterRemoval e.heard).sum +
      (items.map fun e => increments .moved e.heard).sum +
      (items.map fun e => increments .needsDecision e.heard).sum := by
  induction items with
  | nil => rfl
  | cons e items ih =>
    have hone := totals e.heard
    simp only [List.map_cons, List.sum_cons]
    omega

/-- Every counter of the result is the sum of what the items have added to it, and of the moves found afterwards. -/
theorem Passed.count (h : Passed d store chs result es items) (k : Counter) :
    result.vars.count k = (items.map fun e => increments k e.heard).sum + increments k (es.flatMap Episode.own) := by
  obtain ⟨items', before, v, hes, rfl, hcovers⟩ := runDomainSync_covers h.ended h.truthful
  have hplain : ∀ x ∈ es.flatMap Episode.heard, OnlyAdds x.2 := by
    intro x hx
    obtain ⟨e, he, hxe⟩ := List.mem_flatMap.mp hx
    obtain hown | ⟨l, hl, hxl⟩ := Episode.heard_cases (h.ended.sound e he) hxe
    · exact (hcovers.own x.2 (List.mem_flatMap.mpr ⟨e, he, hown⟩)).plain
    · have hlog : l ∈ items.map ScannedItem.heard := h.logs ▸ List.mem_flatMap.mpr ⟨e, he, hl⟩
      obtain ⟨item, hitem, rfl⟩ := List.mem_map.mp hlog
      exact (h.account item hitem).plain x.2 hxl
  have hall : es.flatMap Episode.heard = before.flatMap Episode.heard ++ [(none, ⟨.vars, .ok v⟩)] := by
    rw [hes, List.flatMap_append]
    rfl
  have hv := heardIn_vars (h.heard.trans hall)
  have hvars : v = varsAfter {} (before.flatMap Episode.heard) := Except.ok.inj hv
  have hbefore : ∀ x ∈ before.flatMap Episode.heard, OnlyAdds x.2 :=
    fun x hx => hplain x (hall ▸ List.mem_append_left _ hx)
  have hcount := varsAfter_count (v := {}) hbefore k
  have hsum := Episode.heard_sum_all h.ended.sound (increment k)
  rw [hall, List.map_append, List.sum_append, h.logs, List.map_map] at hsum
  have hzero : ({} : PassVars).count k = 0 := by cases k <;> rfl
  rw [← hvars, hzero, Nat.zero_add] at hcount
  exact hcount.trans hsum

theorem Passed.own (h : Passed d store chs result es items) {k : Counter} (hk : k ≠ .moved) :
    increments k (es.flatMap Episode.own) = 0 := by
  obtain ⟨items', before, v, -, -, hcovers⟩ := runDomainSync_covers h.ended h.truthful
  apply List.sum_eq_zero
  intro n hn
  obtain ⟨x, hx, rfl⟩ := List.mem_map.mp hn
  exact (hcovers.own x hx).zero k hk

theorem Passed.scanned (h : Passed d store chs result es items) : result.vars.scanned = items.length := by
  have hcount : result.vars.scanned = _ := h.count .scanned
  rw [hcount, h.own (by decide), Nat.add_zero]
  have hone : items.map (fun e => increments .scanned e.heard) = items.map fun _ => 1 :=
    List.map_congr_left fun e he => (h.account e he).scanned
  rw [hone, List.map_const', List.sum_replicate_nat, Nat.mul_one]

omit [FolderLike Folder] in
theorem ItemAccount.total {at_ : Place} {item : Item} {heard : List (Heard (Cmd T) Cmd.Resp PassError)}
    (h : ItemAccount d at_ item heard) :
    (heard.map totalOf).sum + (if moveAcknowledged d at_ item heard then 1 else 0) =
      1 + newlyParked heard + if interrupted heard then 1 else 0 := by
  have houtcomes := h.outcomes
  have hparked := h.parked
  rw [OpenMigrate.outcomes] at houtcomes
  rw [totals]
  cases hack : moveAcknowledged d at_ item heard
  · rw [hack, if_neg Bool.false_ne_true] at houtcomes
    rw [if_neg Bool.false_ne_true]
    omega
  · rw [hack, if_pos rfl] at houtcomes
    rw [if_pos rfl]
    omega

omit [FolderLike Folder] in
theorem sum_accounts (h : ∀ e ∈ items, ItemAccount d e.place e.item e.heard) :
    (items.map fun e => (e.heard.map totalOf).sum).sum + items.countP (fun e => moveAcknowledged d e.place e.item e.heard) =
      items.length + (items.map fun e => newlyParked e.heard).sum + items.countP (fun e => interrupted e.heard) := by
  induction items with
  | nil => rfl
  | cons e items ih =>
    have hone := (h e List.mem_cons_self).total
    have hrest := ih fun e' he' => h e' (List.mem_cons_of_mem e he')
    simp only [List.map_cons, List.sum_cons, List.countP_cons, List.length_cons]
    omega

/-- The counts of a pass: one for each item but the acknowledged ones, and one more for each interrupted conflict. -/
theorem Passed.sum (h : Passed d store chs result es items) :
    result.vars.total + items.countP (fun e => moveAcknowledged d e.place e.item e.heard) =
      result.vars.scanned + (items.map fun e => newlyParked e.heard).sum + foundMoves es +
        items.countP (fun e => interrupted e.heard) := by
  have hitems := sum_accounts h.account
  rw [sum_outcomes] at hitems
  have hcount : ∀ k ≠ .moved, result.vars.count k = (items.map fun e => increments k e.heard).sum := by
    intro k hk
    rw [h.count k, h.own hk, Nat.add_zero]
  have hcreated : result.vars.created = _ := hcount .created (by decide)
  have hskipped : result.vars.skipped = _ := hcount .skipped (by decide)
  have hadopted : result.vars.adopted = _ := hcount .adopted (by decide)
  have hupdated : result.vars.updated = _ := hcount .updated (by decide)
  have hconflicted : result.vars.conflicted = _ := hcount .conflicted (by decide)
  have hchanged : result.vars.changedButAdopted = _ := hcount .changedButAdopted (by decide)
  have hfailed : result.vars.failed = _ := hcount .failed (by decide)
  have hleft : result.vars.leftBehind = _ := hcount .leftBehind (by decide)
  have hreappeared : result.vars.reappearedAfterRemoval = _ := hcount .reappearedAfterRemoval (by decide)
  have hdecision : result.vars.needsDecision = _ := hcount .needsDecision (by decide)
  have hmoved : result.vars.moved = _ := h.count .moved
  rw [h.scanned, PassVars.total, hcreated, hskipped, hadopted, hupdated, hconflicted, hchanged, hfailed, hleft,
    hreappeared, hdecision, hmoved, foundMoves]
  omega

/-- A pass that ends accounts for every item just when every conflict it counts is followed by the update of its row,
carried out. -/
theorem runDomainSync_accounts_iff (d : DomainSyncDeps T Item Folder Raw) (store : Store T)
    (chs : List (Choice (Input T) T.Act)) (result : DomainSyncResult) (w : World T)
    (h : (machine T).run (.seq (runDomainSync d), (store, PassState.fresh T)) chs = (.seq (.ret result), w)) :
    ∃ es items, Passed d store chs result es items ∧ result.vars.scanned = items.length ∧
      (∀ e ∈ items, newlyParked e.heard ≤ increments .failed e.heard) ∧
      (AccountedFor d es items result.vars ↔ ∀ e ∈ items, interrupted e.heard = false) := by
  obtain ⟨es, hended, heard⟩ := run_ended (machine T) h
  have htruth : ∀ x ∈ es.flatMap Episode.heard, Truthful x.2 := by
    rw [← heard]
    exact heardIn_truthful _ _
  obtain ⟨items, before, v, -, -, hcovers⟩ := runDomainSync_covers hended htruth
  have hpassed : Passed d store chs result es items := ⟨hended, heard, hcovers.logs, hcovers.listed, hcovers.completed⟩
  refine ⟨es, items, hpassed, hpassed.scanned, fun e he => (hpassed.account e he).failed, ?_⟩
  have hsum := hpassed.sum
  constructor
  · intro hacc e he
    have houtcomes := (hpassed.account e he).outcomes
    rw [hacc.each e he] at houtcomes
    cases hflag : interrupted e.heard with
    | false => rfl
    | true =>
      rw [hflag, if_pos rfl] at houtcomes
      omega
  · intro hno
    constructor
    · intro e he
      have houtcomes := (hpassed.account e he).outcomes
      rwa [hno e he, if_neg Bool.false_ne_true, Nat.add_zero] at houtcomes
    · have hzero : items.countP (fun e => interrupted e.heard) = 0 := by
        rw [List.countP_eq_zero]
        intro e he
        rw [hno e he]
        exact Bool.false_ne_true
      rw [hzero, Nat.add_zero] at hsum
      exact hsum

omit [FolderLike Folder] in
theorem sum_parked (h : ∀ e ∈ items, ItemAccount d e.place e.item e.heard) :
    (items.map fun e => newlyParked e.heard).sum ≤ (items.map fun e => increments .needsDecision e.heard).sum := by
  induction items with
  | nil => exact Nat.le_refl _
  | cons e items ih =>
    have hone := (h e List.mem_cons_self).parked
    have hrest := ih fun e' he' => h e' (List.mem_cons_of_mem e he')
    simp only [List.map_cons, List.sum_cons]
    omega

theorem Passed.parked (h : Passed d store chs result es items) :
    (items.map fun e => newlyParked e.heard).sum ≤ result.vars.needsDecision := by
  have hcount : result.vars.needsDecision = _ := h.count .needsDecision
  rw [hcount, h.own (by decide), Nat.add_zero]
  exact sum_parked h.account

/-- More counted than scanned, with nothing parked and no move found. -/
theorem Passed.overcounted (h : Passed d store chs result es items) (hdecision : result.vars.needsDecision = 0)
    (hmoved : result.vars.moved = 0) (hover : result.vars.scanned < result.vars.conflicted + result.vars.failed) :
    ¬AccountedFor d es items result.vars := by
  intro hacc
  have hparked := h.parked
  have hfound : result.vars.moved = (items.map fun e => increments .moved e.heard).sum + foundMoves es := h.count .moved
  have hsum := hacc.sum
  omega

end Accounts

namespace Accounts.Sample

def target : TargetApi :=
  ⟨Unit, Unit, Unit, fun _ => Unit, Unit, Unit, fun _ _ s => (.ok (), s), fun _ s => s, ()⟩

inductive Folder where
  | root

instance : FolderLike Folder := ⟨fun _ => some "/calendar", fun _ => none⟩

/-- A calendar with one meeting, whose copy its owner has edited since it was made. -/
def deps : DomainSyncDeps target String Folder Unit where
  scope := ⟨"tenant", "mapping", .calendar⟩
  cursors := false
  concurrency := 1
  listFolders := .ok [.root]
  listSince _ _ := .ok ⟨["2"], "", []⟩
  fetchRaw _ := .ok ((), 1)
  upsert _ _ _ options :=
    .ret { targetId := "/meeting.ics", created := !options.overwrite, conflicted := options.expectedTargetVersion.isSome }
  sourceVersion version := some version
  sourceRef _ := none
  naturalKey _ := some "meeting"
  listCollectionKeys := none
  listDiscardedKeys := none
  naturalKeyFromRaw := none
  contentHash _ := "bytes"
  onCollision := .skip
  ensureCollection _ := .ok "/calendar"
  upsert_asks _ _ _ _ := trivial
  listDiscardedKeys_asks := nofun

def copied : LedgerRecord where
  tenantId := "tenant"
  mappingId := "mapping"
  itemType := .calendar
  naturalKeyHash := "meeting"
  contentHash := "bytes"
  targetId := "/meeting.ics"
  status := some .copied
  sourceVersion := some "1"
  targetVersion := some "etag"
  collection := some "/calendar"

def store : Store target := ⟨(PgLedger.exec ∅ 0 (.recordIfAbsent copied)).2, ∅, ()⟩

/-- Twenty turns, the database failing at one of them. -/
def choices (failing : ℕ) : List (Choice (Input target) target.Act) :=
  (List.range 20).map fun n => .run 0 ⟨n, if n = failing then some "connection reset" else none, ()⟩

end Accounts.Sample

/-- The conflict is counted, its row is not updated, and the item is counted again as a failure. -/
theorem conflict_counted_twice : ∃ result w,
    (machine Accounts.Sample.target).run
      (.seq (runDomainSync Accounts.Sample.deps), (Accounts.Sample.store, PassState.fresh Accounts.Sample.target))
      (Accounts.Sample.choices 5) = (.seq (.ret result), w) ∧
    result.vars.scanned = 1 ∧ result.vars.conflicted = 1 ∧ result.vars.failed = 1 ∧
    ∀ es items, Passed Accounts.Sample.deps Accounts.Sample.store (Accounts.Sample.choices 5) result es items →
      ¬AccountedFor Accounts.Sample.deps es items result.vars := by
  refine ⟨_, _, rfl, rfl, rfl, rfl, ?_⟩
  intro es items hpassed
  exact hpassed.overcounted rfl rfl (Nat.lt_succ_self 1)

theorem runDomainSync_accounts_conflict : ∃ result w,
    (machine Accounts.Sample.target).run
      (.seq (runDomainSync Accounts.Sample.deps), (Accounts.Sample.store, PassState.fresh Accounts.Sample.target))
      (Accounts.Sample.choices 100) = (.seq (.ret result), w) ∧
    ∃ es items, Passed Accounts.Sample.deps Accounts.Sample.store (Accounts.Sample.choices 100) result es items ∧
      (AccountedFor Accounts.Sample.deps es items result.vars ↔ ∀ e ∈ items, interrupted e.heard = false) := by
  refine ⟨_, _, rfl, ?_⟩
  obtain ⟨es, items, hpassed, -, -, hiff⟩ := runDomainSync_accounts_iff Accounts.Sample.deps Accounts.Sample.store
    (Accounts.Sample.choices 100) _ _ rfl
  exact ⟨es, items, hpassed, hiff⟩

end OpenMigrate
