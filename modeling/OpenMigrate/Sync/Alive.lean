import OpenMigrate.Sync.Aftermath

namespace OpenMigrate

open Async PgLedger

variable {T : TargetApi}

section Stages

variable {Item Folder Raw : Type} [FolderLike Folder] {d : DomainSyncDeps T Item Folder Raw} {es : List (Episode (Cmd T) Cmd.Resp PassError)}
  {items : List (ScannedItem T Item)} {polls : List (Poll Folder Item)} {early moves : List (Heard (Cmd T) Cmd.Resp PassError)}
  {v : PassVars} {s u t : World T} {key : String} {row : ItemRow}

def tailOf (early moves : List (Heard (Cmd T) Cmd.Resp PassError)) (v : PassVars) :
    List (Option ℕ × Heard (Cmd T) Cmd.Resp PassError) :=
  (early ++ (moves ++ [(⟨.vars, .ok v⟩ : Heard (Cmd T) Cmd.Resp PassError)])).map (none, ·)

omit [FolderLike Folder] in
theorem mem_early {x : Heard (Cmd T) Cmd.Resp PassError} (hx : x ∈ early) : (none, x) ∈ tailOf early moves v :=
  List.mem_map_of_mem (List.mem_append_left _ hx)

omit [FolderLike Folder] in
theorem mem_moves {x : Heard (Cmd T) Cmd.Resp PassError} (hx : x ∈ moves) : (none, x) ∈ tailOf early moves v :=
  List.mem_map_of_mem (List.mem_append_right _ (List.mem_append_left _ hx))

/-- A pass that has ended, stage by stage: the folders up to the world `u`, the removals and the bins, the moves. -/
structure Staged (d : DomainSyncDeps T Item Folder Raw) (es : List (Episode (Cmd T) Cmd.Resp PassError))
    (items : List (ScannedItem T Item)) (polls : List (Poll Folder Item))
    (early moves : List (Heard (Cmd T) Cmd.Resp PassError)) (v : PassVars) (s u t : World T) : Prop where
  looped : Looped d es items polls s u
  sound : ∀ e ∈ es, e.Sound
  truthful : ∀ x ∈ es.flatMap Episode.heard ++ tailOf early moves v, Truthful x.2
  first : Ran (machine T) s (es.flatMap Episode.heard) u
  last : Ran (machine T) u (tailOf early moves v) t
  asked : ∀ x ∈ tailOf early moves v, (afterVocabulary d).asks x.2.1
  spared : ∀ collection key, (∀ x ∈ early, TellsSeen collection key x.1 x.2) →
    ∀ x ∈ early, (spareVocabulary collection key false).asks x.1
  moved : Completed (detectMoves d) moves ()

theorem lift_heard {α : Type} {p : Task T α} {es : List (Episode (Cmd T) Cmd.Resp PassError)} {a : α}
    (h : Ended (Main.lift p) es a) :
    ∃ heard, Completed p heard a ∧ es.flatMap Episode.heard = heard.map (none, ·) ∧ es.flatMap Episode.own = heard := by
  obtain ⟨heard, hcompleted, rfl⟩ := h.of_lift
  refine ⟨heard, hcompleted, ?_, ?_⟩
  · rw [List.flatMap_map]
    exact List.map_eq_flatMap.symm
  · simp [List.flatMap_map, Episode.own]

theorem runDomainSync_staged {result : DomainSyncResult} (h : Ended (runDomainSync d) es result)
    (htruth : ∀ x ∈ es.flatMap Episode.heard, Truthful x.2) (hran : Ran (machine T) s (es.flatMap Episode.heard) t) :
    ∃ loop items polls early moves v u, result = passResult v ∧ d.listFolders = .ok (polls.map Poll.folder) ∧
      (∀ p ∈ polls, PolledIn d es p) ∧ es.flatMap Episode.logs = loop.flatMap Episode.logs ∧
      es.flatMap Episode.heard = loop.flatMap Episode.heard ++ tailOf early moves v ∧
      Staged d loop items polls early moves v s u t := by
  obtain ⟨folders, v, es₁, es₂, es₃, es₄, es₅, hok, rfl, rfl, hloop, hremovals, hbins, hmoves, hvars⟩ :=
    runDomainSync_ended h
  obtain ⟨removals, hremovalsDone, hremovalsHeard, -⟩ := lift_heard hremovals
  obtain ⟨bins, hbinsDone, hbinsHeard, -⟩ := lift_heard hbins
  obtain ⟨moves, hmovesDone, hmovesHeard, -⟩ := lift_heard hmoves
  obtain ⟨tell, htellDone, htellHeard, -⟩ := lift_heard hvars
  obtain rfl := Completed.of_perform htellDone
  have hlogs : ∀ {α : Type} {p : Task T α} {es : List (Episode (Cmd T) Cmd.Resp PassError)} {a : α},
      Ended (Main.lift p) es a → es.flatMap Episode.logs = [] := by
    intro α p es a hp
    obtain ⟨heard, -, rfl⟩ := hp.of_lift
    simp [List.flatMap_map, Episode.logs]
  have hall : (es₁ ++ (es₂ ++ (es₃ ++ (es₄ ++ es₅)))).flatMap Episode.heard =
      es₁.flatMap Episode.heard ++ tailOf (removals ++ bins) moves v := by
    simp only [List.flatMap_append, hremovalsHeard, hbinsHeard, hmovesHeard, htellHeard, tailOf, List.map_append,
      List.append_assoc]
  rw [hall] at htruth hran
  obtain ⟨u, hfirst, hlast⟩ := hran.split
  have htruths := List.forall_mem_append.mp htruth
  have hheard : ∀ x ∈ removals ++ (bins ++ (moves ++ [⟨.vars, .ok v⟩])), x.1.Hears x.2 := by
    intro x hx
    refine (htruths.2 (none, x) ?_).hears
    rw [tailOf, List.append_assoc]
    exact List.mem_map_of_mem hx
  simp only [List.forall_mem_append] at hheard
  obtain ⟨hremovalsHears, hbinsHears, hmovesHears, -⟩ := hheard
  obtain ⟨polls, items, hpollFolders, hpolled, hlooped⟩ :=
    forEach_looped hok (fun x hx => List.mem_zipIdx_iff_getElem?.mp hx) hloop htruths.1 hfirst
  rw [List.zipIdx_map_fst] at hpollFolders
  refine ⟨es₁, items, polls, removals ++ bins, moves, v, u, rfl, by rw [hpollFolders]; exact hok, ?_, ?_, hall, ?_⟩
  · exact fun p hp => (hpolled p hp).mono (List.subset_append_left _ _)
  · simp only [List.flatMap_append, hlogs hremovals, hlogs hbins, hlogs hmoves, hlogs hvars, List.append_nil]
  · refine ⟨hlooped, hloop.sound, htruth, hfirst, hlast, ?_, ?_, hmovesDone⟩
    · have hparts : ∀ x ∈ removals ++ (bins ++ (moves ++ [⟨.vars, .ok v⟩])), (afterVocabulary d).asks x.1 := by
        simp only [List.forall_mem_append]
        refine ⟨?_, ?_, ?_, ?_⟩
        · exact hremovalsDone.reaches.asks resolveRemovals_after hremovalsHears
        · exact hbinsDone.reaches.asks readBins_after hbinsHears
        · exact hmovesDone.reaches.asks detectMoves_after hmovesHears
        · simp [afterVocabulary]
      intro x hx
      rw [tailOf, List.append_assoc] at hx
      obtain ⟨y, hy, rfl⟩ := List.mem_map.mp hx
      exact hparts y hy
    · intro collection key htells
      rw [List.forall_mem_append] at htells ⊢
      constructor
      · exact hremovalsDone.reaches.asks (resolveRemovals_spares collection key) fun x hx => ⟨hremovalsHears x hx, htells.1 x hx⟩
      · exact hbinsDone.reaches.asks (readBins_spares collection key) fun x hx => ⟨hbinsHears x hx, htells.2 x hx⟩

namespace Staged

variable (h : Staged d es items polls early moves v s u t)
include h

theorem tells (hseen : (row.collection, key) ∈ u.vars.seenByCollection) (hrow : row? t.1.ledger d.scope key = some row) :
    ∀ x ∈ tailOf early moves v, TellsSeen row.collection key x.2.1 x.2.2 :=
  tail_tells h.last h.asked hseen hrow

theorem loop_ledger {x : Option ℕ × Heard (Cmd T) Cmd.Resp PassError} (hx : x ∈ es.flatMap Episode.heard) {op : LedgerOp}
    (hop : x.2.1 = .ledger op) : ∃ e ∈ items, op.OfWorker d e.place e.item fun _ => True := by
  have htruth := (List.forall_mem_append.mp h.truthful).1
  obtain hown | ⟨e, he, -, hasks⟩ := h.looped.covers.asked h.sound htruth x hx
  · have hasks := h.looped.asked _ hown
    rw [hop] at hasks
    exact hasks.elim
  · rw [hop] at hasks
    exact ⟨e, he, hasks⟩

theorem claims_not (hseen : (row.collection, key) ∈ u.vars.seenByCollection)
    (hrow : row? t.1.ledger d.scope key = some row) :
    ∀ x ∈ es.flatMap Episode.heard ++ tailOf early moves v, claimsNot key x.2 := by
  rw [List.forall_mem_append]
  constructor
  · intro x hx op hop
    obtain ⟨e, -, hasks⟩ := h.loop_ledger hx hop
    cases op with
    | recordAbsent | recordReportedDeletion | recordTrashedDeletion => exact hasks.elim
    | _ => simp [LedgerOp.claims]
  · have htells := h.tells hseen hrow
    have hparts : ∀ x ∈ early ++ (moves ++ [⟨.vars, .ok v⟩]), claimsNot key x := by
      simp only [List.forall_mem_append]
      refine ⟨?_, ?_, ?_⟩
      · rintro ⟨c, r⟩ hx op rfl
        exact (h.spared row.collection key (fun y hy => htells _ (mem_early hy)) _ hx).1
      · rintro ⟨c, r⟩ hx op rfl
        have hasks := h.moved.reaches.asks (detectMoves_spares row.collection key) fun y hy =>
          ⟨((List.forall_mem_append.mp h.truthful).2 _ (mem_moves hy)).hears, htells _ (mem_moves hy)⟩
        exact (hasks _ hx).1
      · simp [claimsNot]
    intro x hx
    obtain ⟨y, hy, rfl⟩ := List.mem_map.mp hx
    exact hparts y hy

theorem applies_not : ∀ x ∈ es.flatMap Episode.heard ++ tailOf early moves v, appliesNot x.2 := by
  rw [List.forall_mem_append]
  constructor
  · intro x hx op hop
    obtain ⟨e, -, hasks⟩ := h.loop_ledger hx hop
    cases op with
    | applyDeletion | applyRelocation => exact hasks.elim
    | _ => rfl
  · rintro ⟨th, c, r⟩ hx op rfl
    exact (h.asked _ hx).2.1

theorem tail_vars {seen : PassVars} (hx : (⟨.vars, .ok seen⟩ : Heard (Cmd T) Cmd.Resp PassError) ∈ moves) :
    seen.seenByCollection = u.vars.seenByCollection ∧ seen.fullyEnumerated = u.vars.fullyEnumerated := by
  have hin : (none, ⟨.vars, .ok seen⟩) ∈ tailOf early moves v := mem_moves hx
  obtain ⟨before, after, w, i, hsplit, hbefore, hanswer, -⟩ := h.last.at_mem hin
  have hv : (.ok seen : Except PassError PassVars) = .ok w.vars := eq_of_heq (Sigma.mk.inj hanswer).2
  obtain rfl := Except.ok.inj hv
  have hasks : ∀ x ∈ before, ∀ f, x.2.1 = .modify f → ∀ v, StillSeen v (f v) := by
    rintro ⟨th, c, r⟩ hx f rfl
    exact h.asked (th, ⟨.modify f, r⟩) (by rw [hsplit]; exact List.mem_append_left _ hx)
  constructor
  · exact ran_vars (P := fun v v' => v'.seenByCollection = v.seenByCollection) (fun _ => rfl) (fun _ _ _ h h' => h'.trans h)
      hbefore fun x hx f hf v => (hasks x hx f hf v).seen
  · exact ran_enumerated hbefore fun x hx f hf v => (hasks x hx f hf v).enumerated

theorem placed_then (key : String) {placed : List PlacedItem}
    (hx : (⟨.ledger (.placedItems d.scope), .ok placed⟩ : Heard (Cmd T) Cmd.Resp PassError) ∈ moves) :
    ∃ w before, placed = placedItems w.1.ledger d.scope ∧ before ⊆ es.flatMap Episode.heard ++ tailOf early moves v ∧
      Ran (machine T) s before w ∧ shelfOf d.scope key t = shelfOf d.scope key w := by
  have hin : (none, ⟨.ledger (.placedItems d.scope), .ok placed⟩) ∈ tailOf early moves v := mem_moves hx
  obtain ⟨before, after, w, i, hsplit, hbefore, hanswer, hafter⟩ := h.last.at_mem hin
  refine ⟨w, es.flatMap Episode.heard ++ before, answer_placed hanswer, ?_, h.first.append hbefore, ?_⟩
  · rw [hsplit]
    intro x hx
    rw [List.mem_append] at hx ⊢
    exact hx.imp_right (List.mem_append_left _)
  · have hops : ∀ x ∈ after, ∀ op, x.2.1 = .ledger op → op.shelves = false := by
      rintro ⟨th, c, r⟩ hy op rfl
      exact (h.asked (th, ⟨.ledger op, r⟩) (by rw [hsplit]; exact List.mem_append_right _ (List.mem_cons_of_mem _ hy))).1
    refine (ran_shelf hafter hops).trans (exec_shelf fun op hop => ?_)
    obtain rfl := Cmd.ledger.inj hop
    rfl

end Staged

end Stages

section Alive

variable {Item Folder Raw : Type} [FolderLike Folder] (d : DomainSyncDeps T Item Folder Raw) (items : List (ScannedItem T Item))
  (polls : List (Poll Folder Item))

/-- The pass saw this key in this collection: of a listed item, from the listing or from its bytes, or enumerated in a
pass over files that enumerated every folder. -/
def SeenAlive (collection key : String) : Prop :=
  (∃ e ∈ items, e.place.collectionPath = collection ∧ HasKey d e.item key) ∨
    d.scope.domain = .file ∧ (∀ p ∈ polls, p.Whole d) ∧ ∃ p ∈ polls, ∃ listCollectionKeys keys,
      d.listCollectionKeys = some listCollectionKeys ∧ listCollectionKeys p.folder = .ok keys ∧ key ∈ keys ∧
      collectionPath p.folder = collection

/-- Where a pass calls off what `row` claims: the key came with a listing, or the walk over the placed files counts
an absence on it. -/
def CallsOff (key : String) (row : ItemRow) : Prop :=
  (∃ e ∈ items, d.naturalKey e.item = some key) ∨
    d.scope.domain = .file ∧ (∀ p ∈ polls, p.Whole d) ∧ row.absentPasses ≠ 0 ∧ row.deletionAppliedAt = none

variable {d items polls} {es : List (Episode (Cmd T) Cmd.Resp PassError)} {early moves : List (Heard (Cmd T) Cmd.Resp PassError)}
  {v : PassVars} {s u t : World T} {key : String} {row : ItemRow}

theorem SeenAlive.seen {collection : String} (h : SeenAlive d items polls collection key) (hloop : Looped d es items polls s u) :
    (collection, key) ∈ u.vars.seenByCollection ∧ collection ≠ "" := by
  obtain ⟨e, he, rfl, hkey⟩ | ⟨-, -, p, hp, f, keys, hf, hkeys, hin, rfl⟩ := h
  · refine ⟨hloop.listed e he key hkey, ?_⟩
    obtain ⟨folders, folder, prev, listing, -, -, -, -, -, hpath⟩ := (hloop.covers.listed e he).listed
    rw [hpath]
    exact collectionPath_ne folder
  · exact ⟨hloop.enumerated p hp f keys hf hkeys key hin, collectionPath_ne p.folder⟩

omit [FolderLike Folder] in
theorem detectMoves_completed {moves : List (Heard (Cmd T) Cmd.Resp PassError)} (h : Completed (detectMoves d) moves ()) :
    ∃ seen rest, moves = ⟨.vars, .ok seen⟩ :: rest ∧
      if d.scope.domain = .file ∧ seen.fullyEnumerated = true then
        ∃ placed walked last, rest = ⟨.ledger (.placedItems d.scope), .ok placed⟩ :: (walked ++ last) ∧
          WalkClears d.scope seen.seenByCollection placed walked ∧ ∀ x ∈ last, ∃ f, x.1 = .modify f
      else rest = [] := by
  obtain ⟨seen, rest, rfl, hrest⟩ := Completed.of_perform_bind h
  refine ⟨seen, rest, rfl, ?_⟩
  split at hrest
  · rename_i hfull
    rw [if_pos hfull]
    obtain ⟨found, _, last, rfl, hfound, hlast⟩ := Completed.of_bind hrest
    obtain ⟨placed, walked, rfl, hwalked⟩ := Completed.of_perform_bind hfound
    refine ⟨placed, walked, last, rfl, walkPlaced_clears hwalked, ?_⟩
    rw [completed_modify hlast]
    simp
  · rename_i hfull
    rw [if_neg hfull]
    exact (Completed.of_ret hrest).1

omit [FolderLike Folder] in
theorem claims_iff_row (hrow : row? t.1.ledger d.scope key = some row) : Claims d.scope key t ↔ row.Claimed := by
  constructor
  · rintro ⟨row', hrow', hclaimed⟩
    rw [hrow] at hrow'
    rwa [Option.some.inj hrow']
  · exact fun h => ⟨row, hrow, h⟩

theorem Staged.callsOff (h : Staged d es items polls early moves v s u t)
    (hin : (row.collection, key) ∈ u.vars.seenByCollection) (hrow : row? t.1.ledger d.scope key = some row) {row₀ : ItemRow}
    (hrow₀ : row? s.1.ledger d.scope key = some row₀) {x : Option ℕ × Heard (Cmd T) Cmd.Resp PassError}
    (hx : x ∈ es.flatMap Episode.heard ++ tailOf early moves v) (hcleared : Cleared d.scope key x.2) :
    CallsOff d items polls key row₀ := by
  have hclaims := h.claims_not hin hrow
  obtain ⟨th, c, r⟩ := x
  have hc : c = .ledger (.clearAbsent d.scope key) := congrArg Sigma.fst hcleared
  subst hc
  obtain hx | hx := List.mem_append.mp hx
  · obtain ⟨e, he, hasks⟩ := h.loop_ledger hx rfl
    exact .inl ⟨e, he, hasks.2⟩
  obtain ⟨y, hy, heq⟩ := List.mem_map.mp hx
  obtain ⟨-, rfl⟩ := Prod.mk.inj heq
  obtain hy | hy := List.mem_append.mp hy
  · have hspared := h.spared row.collection key (fun z hz => h.tells hin hrow _ (mem_early hz)) _ hy
    cases hspared.2.2 rfl
  obtain hy | hy := List.mem_append.mp hy
  · obtain ⟨seen, rest, rfl, hrest⟩ := detectMoves_completed h.moved
    have hvars := h.tail_vars List.mem_cons_self
    split at hrest
    · rename_i hfull
      obtain ⟨placed, walked, last, rfl, hwalk, hlast⟩ := hrest
      have hwalked : (⟨.ledger (.clearAbsent d.scope key), r⟩ : Heard (Cmd T) Cmd.Resp PassError) ∈ walked := by
        obtain hy | hy := List.mem_cons.mp hy
        · cases hy
        obtain hy | hy := List.mem_cons.mp hy
        · cases hy
        obtain hy | hy := List.mem_append.mp hy
        · exact hy
        · obtain ⟨f, hf⟩ := hlast _ hy
          cases hf
      have hlisted : (⟨.ledger (.placedItems d.scope), .ok placed⟩ : Heard (Cmd T) Cmd.Resp PassError) ∈
          ⟨.vars, .ok seen⟩ :: ⟨.ledger (.placedItems d.scope), .ok placed⟩ :: (walked ++ last) := by simp
      obtain ⟨p, hp, rfl, happlied, habsent⟩ := hwalk.only _ hwalked _ _ rfl
      obtain ⟨w, before, rfl, hsub, hbefore, -⟩ := h.placed_then p.naturalKeyHash hlisted
      obtain ⟨row', hrow', -, habsent', happlied'⟩ := placed_row hp
      rw [habsent'] at habsent
      rw [happlied'] at happlied
      have hclaim : Claims d.scope p.naturalKeyHash w := ⟨row', hrow', .inl habsent⟩
      have hstill := (ran_claims_iff hbefore fun z hz => hclaims z (hsub hz)).mp hclaim
      obtain ⟨row'', hrow'', hmarks⟩ := ran_marks hbefore (fun z hz => hclaims z (hsub hz))
        (fun z hz => h.applies_not z (hsub hz)) hstill.2 hrow₀
      obtain rfl := Option.some.inj (hrow'.symm.trans hrow'')
      simp only [ItemRow.marks, Prod.mk.injEq] at hmarks
      refine .inr ⟨hfull.1, ?_, ?_, ?_⟩
      · exact (h.looped.whole.mp (hvars.2 ▸ hfull.2)).2
      · rw [← hmarks.1]
        exact habsent
      · rw [← hmarks.2.2.2]
        exact happlied
    · rw [hrest] at hy
      obtain hy := List.mem_singleton.mp hy
      cases hy
  · obtain hy := List.mem_singleton.mp hy
    cases hy

theorem Staged.called_off (h : Staged d es items polls early moves v s u t) (hfresh : s.vars.fullyEnumerated = true)
    (hrow : row? t.1.ledger d.scope key = some row) (hon : isOnTarget (some row.status) = true)
    (hin : (row.collection, key) ∈ u.vars.seenByCollection) (hcollection : row.collection ≠ "") {row₀ : ItemRow}
    (hrow₀ : row? s.1.ledger d.scope key = some row₀) (hoff : CallsOff d items polls key row₀) : ¬ row.Claimed := by
  have hclaims := h.claims_not hin hrow
  have hran := h.first.append h.last
  intro hclaimed
  obtain ⟨hstart, hclears⟩ := (ran_claims_iff hran hclaims).mp ((claims_iff_row hrow).mpr hclaimed)
  obtain ⟨e, he, hkey⟩ | ⟨hfile, hwhole, habsent, happlied⟩ := hoff
  · obtain ⟨found, hfind, hoff⟩ := syncItem_clears d hkey (h.looped.covers.completed e he)
    obtain ⟨th, hth⟩ := h.looped.covers.heard he hfind
    obtain ⟨before, after, w, i, hsplit, hbefore, hanswer, -⟩ := h.first.at_mem hth
    have hsub : ∀ x ∈ before, ¬ Cleared d.scope key x.2 := fun x hx =>
      hclears x (List.mem_append_left _ (by rw [hsplit]; exact List.mem_append_left _ hx))
    obtain ⟨row', hrow', hdue⟩ := ran_claimed hbefore hsub hstart
    obtain rfl := answer_find hanswer
    obtain ⟨x, hx, hcleared⟩ := hoff (row'.mapRowToRecord (d.scope.key key)) (by rw [find, hrow', Option.map_some])
      (by simpa [Unsettled, ItemRow.mapRowToRecord, ItemRow.Claimed] using hdue)
    obtain ⟨th', hth'⟩ := h.looped.covers.heard he hx
    exact hclears _ (List.mem_append_left _ hth') hcleared
  · obtain ⟨seen, rest, rfl, hrest⟩ := detectMoves_completed h.moved
    have hvars := h.tail_vars List.mem_cons_self
    have hfull : d.scope.domain = .file ∧ seen.fullyEnumerated = true :=
      ⟨hfile, hvars.2.trans (h.looped.whole.mpr ⟨hfresh, hwhole⟩)⟩
    rw [if_pos hfull] at hrest
    obtain ⟨placed, walked, last, rfl, hwalk, -⟩ := hrest
    have hlisted : (⟨.ledger (.placedItems d.scope), .ok placed⟩ : Heard (Cmd T) Cmd.Resp PassError) ∈
        ⟨.vars, .ok seen⟩ :: ⟨.ledger (.placedItems d.scope), .ok placed⟩ :: (walked ++ last) := by simp
    obtain ⟨w, before, rfl, hsub, hbefore, hshelf⟩ := h.placed_then key hlisted
    obtain ⟨row', hrow', hmarks⟩ := ran_marks hbefore (fun z hz => hclaims z (hsub hz))
      (fun z hz => h.applies_not z (hsub hz)) (fun z hz => hclears z (hsub hz)) hrow₀
    rw [shelfOf, shelfOf, hrow, hrow', Option.map_some, Option.map_some, Option.some.injEq, ItemRow.shelf, ItemRow.shelf,
      Prod.mk.injEq] at hshelf
    simp only [ItemRow.marks, Prod.mk.injEq] at hmarks
    have hplaced : placed row' = true := by
      simp only [isOnTarget, hshelf.1] at hon
      rw [hshelf.2] at hcollection
      simp_all [placed]
    obtain ⟨p, hp, rfl, hcoll, habs, happ⟩ := row_placed hrow' hplaced
    obtain ⟨x, hx, hcleared⟩ := hwalk.clears p hp (by rw [happ, hmarks.2.2.2, happlied]) (by rw [habs, hmarks.1]; exact habsent)
      (by rw [hcoll, ← hshelf.2, hvars.1]; exact hin)
    apply hclears (none, x) (List.mem_append_right _ (mem_moves _)) hcleared
    exact List.mem_cons_of_mem _ (List.mem_cons_of_mem _ (List.mem_append_left _ hx))

theorem runDomainSync_passed (d : DomainSyncDeps T Item Folder Raw) (store : Store T)
    (chs : List (Choice (Input T) T.Act)) {result : DomainSyncResult} {w : World T}
    (h : (machine T).run (.seq (runDomainSync d), (store, PassState.fresh T)) chs = (.seq (.ret result), w)) :
    ∃ es items polls, Passed d store chs result es items ∧ d.listFolders = .ok (polls.map Poll.folder) ∧
      (∀ p ∈ polls, PolledIn d es p) ∧ ∃ loop early moves v u,
        Staged d loop items polls early moves v (store, PassState.fresh T) u w := by
  obtain ⟨es, hended, heard⟩ := run_ended (machine T) h
  have htruth : ∀ x ∈ es.flatMap Episode.heard, Truthful x.2 := by
    rw [← heard]
    exact heardIn_truthful _ _
  have hran := Ran.of_run (m := machine T) (.seq (runDomainSync d), (store, PassState.fresh T)) chs
  rw [h, heard] at hran
  obtain ⟨loop, items, polls, early, moves, v, u, -, hfolders, hpolled, hlogs, -, hstaged⟩ :=
    runDomainSync_staged hended htruth hran
  have hcovers := hstaged.looped.covers
  refine ⟨es, items, polls, ⟨hended, heard, hlogs.trans hcovers.logs, hcovers.listed, hcovers.completed⟩, hfolders, hpolled,
    loop, early, moves, v, u, hstaged⟩

/-- A row on the target that a completed pass has seen carries no claim just when it carried none before or the pass
called it off. -/
theorem seen_unclaimed_iff (d : DomainSyncDeps T Item Folder Raw) (store : Store T)
    (chs : List (Choice (Input T) T.Act)) (result : DomainSyncResult) (w : World T)
    (h : (machine T).run (.seq (runDomainSync d), (store, PassState.fresh T)) chs = (.seq (.ret result), w)) :
    ∃ es items polls, Passed d store chs result es items ∧ d.listFolders = .ok (polls.map Poll.folder) ∧
      (∀ p ∈ polls, PolledIn d es p) ∧ ∀ key row, row? w.1.ledger d.scope key = some row →
        isOnTarget (some row.status) = true → SeenAlive d items polls row.collection key →
        (¬ row.Claimed ↔ ∀ row₀, row? store.ledger d.scope key = some row₀ → row₀.Claimed →
          CallsOff d items polls key row₀) := by
  obtain ⟨es, items, polls, hpassed, hfolders, hpolled, loop, early, moves, v, u, hstaged⟩ := runDomainSync_passed d store chs h
  refine ⟨es, items, polls, hpassed, hfolders, hpolled, ?_⟩
  intro key row hrow hon halive
  obtain ⟨hin, hcollection⟩ := halive.seen hstaged.looped
  constructor
  · intro hun row₀ hrow₀ hclaimed
    have hnot : ¬ Claims d.scope key w := fun hc => hun ((claims_iff_row hrow).mp hc)
    have hiff := (ran_claims_iff (hstaged.first.append hstaged.last) (hstaged.claims_not hin hrow) :
      Claims d.scope key w ↔ _)
    have hcleared : ∃ x ∈ loop.flatMap Episode.heard ++ tailOf early moves v, Cleared d.scope key x.2 := by
      by_contra hnone
      apply hnot (hiff.mpr ⟨⟨row₀, hrow₀, hclaimed⟩, ?_⟩)
      exact fun x hx hc => hnone ⟨x, hx, hc⟩
    obtain ⟨x, hx, hc⟩ := hcleared
    exact hstaged.callsOff hin hrow hrow₀ hx hc
  · intro hoff hclaimed
    obtain ⟨⟨row₀, hrow₀, hclaimed₀⟩, -⟩ := (ran_claims_iff (hstaged.first.append hstaged.last)
      (hstaged.claims_not hin hrow)).mp ((claims_iff_row hrow).mpr hclaimed)
    exact hstaged.called_off rfl hrow hon hin hcollection hrow₀ (hoff row₀ hrow₀ hclaimed₀) hclaimed

end Alive

namespace Alive.Sample

def target : TargetApi :=
  ⟨Unit, Unit, Unit, fun _ => Unit, Unit, Unit, fun _ _ s => (.ok (), s), fun _ s => s, ()⟩

inductive Folder where
  | inbox

instance : FolderLike Folder := ⟨fun _ => some "INBOX", fun _ => none⟩

/-- A mailbox whose listing does not tell the message's key: it is derived from the message. -/
def deps : DomainSyncDeps target Unit Folder Unit where
  scope := ⟨"tenant", "mapping", .email⟩
  cursors := false
  concurrency := 1
  listFolders := .ok [.inbox]
  listSince _ _ := .ok ⟨[()], "", []⟩
  fetchRaw _ := .ok ((), 1)
  upsert _ _ _ _ := .ret { targetId := "message", created := true }
  sourceVersion _ := none
  sourceRef _ := none
  naturalKey _ := none
  listCollectionKeys := none
  listDiscardedKeys := none
  naturalKeyFromRaw := some fun _ _ => .ok "message"
  contentHash _ := "bytes"
  onCollision := .skip
  ensureCollection _ := .ok "INBOX"
  upsert_asks _ _ _ _ := trivial
  listDiscardedKeys_asks := nofun

def copied : LedgerRecord where
  tenantId := "tenant"
  mappingId := "mapping"
  itemType := .email
  naturalKeyHash := "message"
  contentHash := "bytes"
  targetId := "message"
  status := some .copied
  collection := some "INBOX"

/-- The message was copied, and later reported as removed. -/
def store : Store target :=
  ⟨(PgLedger.exec (PgLedger.exec ∅ 0 (.recordIfAbsent copied)).2 1
    (.recordReportedDeletion deps.scope "message")).2, ∅, ()⟩

def choices : List (Choice (Input target) target.Act) :=
  (List.range 20).map fun n => .run 0 ⟨n, none, ()⟩

end Alive.Sample

/-- The message is listed again, and stays reported as removed. -/
theorem derived_claim_stays : ∃ result w,
    (machine Alive.Sample.target).run
      (.seq (runDomainSync Alive.Sample.deps), (Alive.Sample.store, PassState.fresh Alive.Sample.target))
      Alive.Sample.choices = (.seq (.ret result), w) ∧
    ∃ es items polls, Passed Alive.Sample.deps Alive.Sample.store Alive.Sample.choices result es items ∧
      Alive.Sample.deps.listFolders = .ok (polls.map Poll.folder) ∧ (∀ p ∈ polls, PolledIn Alive.Sample.deps es p) ∧
      ∃ row, row? w.1.ledger Alive.Sample.deps.scope "message" = some row ∧ isOnTarget (some row.status) = true ∧
        SeenAlive Alive.Sample.deps items polls row.collection "message" ∧ row.Claimed := by
  refine ⟨_, _, rfl, ?_⟩
  obtain ⟨es, items, polls, hpassed, hfolders, hpolled, -⟩ := runDomainSync_passed Alive.Sample.deps
    Alive.Sample.store Alive.Sample.choices rfl
  refine ⟨es, items, polls, hpassed, hfolders, hpolled, _, rfl, rfl, ?_, .inr (.inl nofun)⟩
  have hone : items.length = 1 := hpassed.scanned.symm
  obtain ⟨e, rfl⟩ := List.length_eq_one_iff.mp hone
  obtain ⟨folders, folder, prev, listing, -, -, -, -, -, hpath⟩ := (hpassed.listed e List.mem_cons_self).listed
  exact .inl ⟨e, List.mem_cons_self, hpath, .inr ⟨rfl, ((), 1), rfl, rfl⟩⟩

theorem seen_unclaimed_message : ∃ result w,
    (machine Alive.Sample.target).run
      (.seq (runDomainSync Alive.Sample.deps), (Alive.Sample.store, PassState.fresh Alive.Sample.target))
      Alive.Sample.choices = (.seq (.ret result), w) ∧
    ∃ es items polls, Passed Alive.Sample.deps Alive.Sample.store Alive.Sample.choices result es items ∧
      Alive.Sample.deps.listFolders = .ok (polls.map Poll.folder) ∧ (∀ p ∈ polls, PolledIn Alive.Sample.deps es p) ∧
      ∀ key row, row? w.1.ledger Alive.Sample.deps.scope key = some row → isOnTarget (some row.status) = true →
        SeenAlive Alive.Sample.deps items polls row.collection key →
        (¬ row.Claimed ↔ ∀ row₀, row? Alive.Sample.store.ledger Alive.Sample.deps.scope key = some row₀ → row₀.Claimed →
          CallsOff Alive.Sample.deps items polls key row₀) :=
  ⟨_, _, rfl, seen_unclaimed_iff Alive.Sample.deps Alive.Sample.store Alive.Sample.choices _ _ rfl⟩

end OpenMigrate
