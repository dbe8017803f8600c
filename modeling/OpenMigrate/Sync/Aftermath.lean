import OpenMigrate.Sync.Polls

namespace OpenMigrate

open Async PgLedger

variable {T : TargetApi} {Item Folder Raw : Type}

section Tail

variable {d : DomainSyncDeps T Item Folder Raw} {collection key : String}

structure StillSeen (v v' : PassVars) : Prop where
  seen : v'.seenByCollection = v.seenByCollection
  enumerated : v'.fullyEnumerated = v.fullyEnumerated

/-- An operation that may change the status or the collection of a row, or bring a row in. -/
def LedgerOp.shelves : LedgerOp → Bool
  | .recordIfAbsent _ => true
  | .recordUpdate _ => true
  | .recordFailure .. => true
  | .applyDeletion .. => true
  | .applyRelocation .. => true
  | _ => false

/-- What a pass asks once its folders are through. -/
def afterVocabulary (d : DomainSyncDeps T Item Folder Raw) : Vocabulary (Cmd T) Cmd.Resp PassError where
  asks
    | .ledger op => op.shelves = false ∧ op.applies = false ∧ ∀ scope, op = .placedItems scope → scope = d.scope
    | .modify f => ∀ v, StillSeen v (f v)
    | .target _ => False
    | _ => True
  hears := Cmd.Hears

theorem after_of_end (scans : Prop) (seen : String → Prop) {α : Type} {p : Task T α}
    (h : Emits (endVocabulary d scans seen) p (fun _ => True)) : Emits (afterVocabulary d) p (fun _ => True) := by
  refine h.weaken ?_ fun _ _ h => h
  intro c hc
  cases c with
  | ledger op =>
    cases op with
    | recordIfAbsent | recordUpdate | recordFailure | applyDeletion | applyRelocation => exact hc.1.elim
    | placedItems scope =>
      refine ⟨rfl, rfl, fun scope' h => ?_⟩
      cases h
      exact hc.1
    | _ => exact ⟨rfl, rfl, nofun⟩
  | target => exact hc.elim
  | modify f => exact fun v => ⟨(hc v).seen, (hc v).enumerated⟩
  | cursorGet | cursorSet | vars => trivial

theorem resolveRemovals_after : Emits (afterVocabulary d) (resolveRemovals d) (fun _ => True) := by
  refine Emits.seq ((Emits.perform _ _).mpr ⟨trivial, fun _ _ => trivial⟩) fun v => ?_
  refine Emits.seq (after_of_end False (fun _ => True) (resolveReportedRemovals_emits _ _ _)) fun _ => ?_
  exact (Emits.perform _ _).mpr ⟨fun _ => ⟨rfl, rfl⟩, fun _ _ => trivial⟩

theorem readBins_after : Emits (afterVocabulary d) (readBins d) (fun _ => True) :=
  after_of_end True (fun _ => True) (readBins_emits trivial)

theorem detectMoves_after : Emits (afterVocabulary d) (detectMoves d) (fun _ => True) :=
  after_of_end False (fun _ => True) (detectMoves_emits fun _ => trivial)

/-- Answers by which this item has been seen where its row says. -/
def TellsSeen (collection key : String) : (c : Cmd T) → Except PassError c.Resp → Prop
  | .vars, .ok v => (collection, key) ∈ v.seenByCollection
  | .ledger (.placedItems _), .ok placed => ∀ p ∈ placed, p.naturalKeyHash = key → p.collection = collection
  | _, _ => True

/-- What a pass asks about its ledger and its variables once its folders are through, leaving this item out. -/
def spareVocabulary (collection key : String) (clears : Bool) : Vocabulary (Cmd T) Cmd.Resp PassError where
  asks
    | .ledger op => op.claims ≠ some key ∧ op.applies = false ∧ (clears = false → op.clearsAbsence = false)
    | .modify f => ∀ v, StillSeen v (f v)
    | .target _ => False
    | _ => True
  hears c r := c.Hears r ∧ TellsSeen collection key c r

theorem spare_modify {clears : Bool} {f : PassVars → PassVars} (h : ∀ v, StillSeen v (f v)) :
    Emits (spareVocabulary (T := T) collection key clears) (Task.modify f) (fun _ => True) :=
  (Emits.perform _ _).mpr ⟨h, fun _ _ => trivial⟩

theorem spare_ledger {clears : Bool} {op : LedgerOp} (hclaims : op.claims ≠ some key) (happlies : op.applies = false)
    (hclears : clears = false → op.clearsAbsence = false) :
    Emits (spareVocabulary (T := T) collection key clears) (Task.ledger op) (fun _ => True) :=
  (Emits.perform _ _).mpr ⟨⟨hclaims, happlies, hclears⟩, fun _ _ => trivial⟩

theorem spare_vars {α : Type} {clears : Bool} {f : PassVars → Task T α}
    (h : ∀ v, (collection, key) ∈ v.seenByCollection → Emits (spareVocabulary collection key clears) (f v) (fun _ => True)) :
    Emits (spareVocabulary collection key clears) (Task.vars.bind f) (fun _ => True) := by
  refine Emits.bind _ ((Emits.perform _ _).mpr ⟨trivial, fun r hr => ?_⟩) h
  cases r with
  | error e => trivial
  | ok v => exact hr.2

theorem resolveReportedRemovals_spares {scope : Scope} {listed : List String} (hkey : key ∈ listed)
    (removals done : List String) :
    Emits (spareVocabulary (T := T) collection key false) (resolveReportedRemovals scope listed removals done) (fun _ => True) := by
  induction removals generalizing done with
  | nil => trivial
  | cons href rest ih =>
    refine Emits.seq (spare_ledger (by simp [LedgerOp.claims]) rfl fun _ => rfl) fun row => ?_
    cases row with
    | none => exact ih done
    | some row =>
      dsimp only
      split
      · exact ih done
      · rename_i hskip
        have hother : row.naturalKeyHash ≠ key := by
          rintro rfl
          simp [hkey] at hskip
        refine Emits.seq (spare_ledger (by simpa [LedgerOp.claims] using hother) rfl fun _ => rfl) fun recorded => ?_
        refine Emits.seq (ih _) fun out => ?_
        split <;> trivial

theorem resolveDiscardedItems_spares {scope : Scope} {listed : List String} (hkey : key ∈ listed)
    (discarded : List String) :
    Emits (spareVocabulary (T := T) collection key false) (resolveDiscardedItems scope listed discarded) (fun _ => True) := by
  induction discarded with
  | nil => trivial
  | cons k rest ih =>
    unfold resolveDiscardedItems
    split
    · exact ih
    · rename_i hnot
      have hother : k ≠ key := by
        rintro rfl
        simp [hkey] at hnot
      refine Emits.seq (spare_ledger (by simp [LedgerOp.claims]) rfl fun _ => rfl) fun row => ?_
      cases row with
      | none => exact ih
      | some row =>
        dsimp only
        split
        · exact ih
        · refine Emits.seq (spare_ledger (by simpa [LedgerOp.claims] using hother) rfl fun _ => rfl) fun recorded => ?_
          refine Emits.seq ih fun out => ?_
          split <;> trivial

theorem walkPlaced_spares {scope : Scope} {listed : List (String × String)} {placed : List PlacedItem}
    (hseen : ∀ p ∈ placed, p.naturalKeyHash = key → (p.collection, key) ∈ listed) (arrivals : List CreatedItem) :
    Emits (spareVocabulary (T := T) collection key true) (walkPlaced scope listed placed arrivals) (fun _ => True) := by
  have hplain : ∀ op : LedgerOp, op.claims = none → op.applies = false →
      Emits (spareVocabulary (T := T) collection key true) (Task.ledger op) (fun _ => True) := by
    intro op hclaims happlies
    exact spare_ledger (by simp [hclaims]) happlies (by simp)
  induction placed generalizing arrivals with
  | nil => trivial
  | cons row rest ih =>
    rw [List.forall_mem_cons] at hseen
    unfold walkPlaced
    split
    · exact ih hseen.2 arrivals
    split
    · apply Emits.seq
      · split
        · exact hplain _ rfl rfl
        · trivial
      intro _
      apply Emits.seq
      · split
        · exact hplain _ rfl rfl
        · trivial
      exact fun _ => ih hseen.2 arrivals
    rename_i hunlisted
    have hother : row.naturalKeyHash ≠ key := by
      intro hkey
      have hin := hseen.1 hkey
      rw [← hkey] at hin
      exact hunlisted (List.contains_iff_mem.mpr hin)
    split
    · exact Emits.seq (ih hseen.2 arrivals) fun out => trivial
    split
    · exact Emits.seq (hplain _ rfl rfl) fun _ => Emits.seq (ih hseen.2 _) fun out => trivial
    · apply Emits.seq (spare_ledger (by simpa [LedgerOp.claims] using hother) rfl (by simp))
      exact fun _ => Emits.seq (ih hseen.2 arrivals) fun out => trivial

structure WalkClears (scope : Scope) (listed : List (String × String)) (placed : List PlacedItem)
    (heard : List (Heard (Cmd T) Cmd.Resp PassError)) : Prop where
  clears : ∀ p ∈ placed, p.deletionAppliedAt = none → p.absentPasses ≠ 0 → (p.collection, p.naturalKeyHash) ∈ listed →
    ∃ x ∈ heard, Cleared scope p.naturalKeyHash x
  only : ∀ x ∈ heard, ∀ scope' k, x.1 = .ledger (.clearAbsent scope' k) → ∃ p ∈ placed, p.naturalKeyHash = k ∧
    p.deletionAppliedAt = none ∧ p.absentPasses ≠ 0

section Walk

variable {scope : Scope} {listed : List (String × String)} {row : PlacedItem} {rest : List PlacedItem}
  {before heard : List (Heard (Cmd T) Cmd.Resp PassError)}

theorem WalkClears.cons (h : WalkClears scope listed rest heard)
    (hclears : row.deletionAppliedAt = none → row.absentPasses ≠ 0 → (row.collection, row.naturalKeyHash) ∈ listed →
      ∃ x ∈ before, Cleared scope row.naturalKeyHash x)
    (honly : ∀ x ∈ before, ∀ scope' k, x.1 = .ledger (.clearAbsent scope' k) →
      row.naturalKeyHash = k ∧ row.deletionAppliedAt = none ∧ row.absentPasses ≠ 0) :
    WalkClears scope listed (row :: rest) (before ++ heard) where
  clears := by
    rw [List.forall_mem_cons]
    constructor
    · intro happlied habsent hin
      obtain ⟨x, hx, hcleared⟩ := hclears happlied habsent hin
      exact ⟨x, List.mem_append_left _ hx, hcleared⟩
    · intro p hp happlied habsent hin
      obtain ⟨x, hx, hcleared⟩ := h.clears p hp happlied habsent hin
      exact ⟨x, List.mem_append_right _ hx, hcleared⟩
  only := by
    intro x hx scope' k hk
    obtain hx | hx := List.mem_append.mp hx
    · exact ⟨row, List.mem_cons_self, honly x hx scope' k hk⟩
    · obtain ⟨p, hp, hsame⟩ := h.only x hx scope' k hk
      exact ⟨p, List.mem_cons_of_mem _ hp, hsame⟩

theorem WalkClears.pass (before : List (Heard (Cmd T) Cmd.Resp PassError)) (h : WalkClears scope listed rest heard)
    (hrow : row.deletionAppliedAt ≠ none ∨ (row.collection, row.naturalKeyHash) ∉ listed)
    (hbefore : ∀ x ∈ before, ∀ scope' k, x.1 ≠ .ledger (.clearAbsent scope' k)) :
    WalkClears scope listed (row :: rest) (before ++ heard) := by
  apply h.cons
  · intro happlied _ hin
    exact (hrow.elim (fun h => h happlied) fun h => h hin).elim
  · exact fun x hx scope' k hk => absurd hk (hbefore x hx scope' k)

theorem walkPlaced_clears {placed : List PlacedItem} {arrivals : List CreatedItem} {out : PathKeyedMoves}
    (h : Completed (walkPlaced scope listed placed arrivals) heard out) : WalkClears scope listed placed heard := by
  induction placed generalizing arrivals heard out with
  | nil =>
    obtain ⟨rfl, -⟩ := Completed.of_ret h
    exact ⟨by simp, by simp⟩
  | cons row rest ih =>
    have hsilent : ∀ x ∈ ([] : List (Heard (Cmd T) Cmd.Resp PassError)), ∀ scope' k,
        x.1 ≠ .ledger (.clearAbsent scope' k) := by simp
    unfold walkPlaced at h
    split at h
    · rename_i happlied
      exact WalkClears.pass [] (ih h) (.inl happlied) hsilent
    rename_i happlied
    have hnone : row.deletionAppliedAt = none := not_not.mp happlied
    split at h
    · obtain ⟨moved, _, after, rfl, hmoved, hafter⟩ := Completed.of_bind h
      obtain ⟨cleared, _, more, rfl, hcleared, hmore⟩ := Completed.of_bind hafter
      rw [← List.append_assoc]
      have hmoves : ∀ x ∈ moved, ∀ scope' k, x.1 ≠ .ledger (.clearAbsent scope' k) := by
        split at hmoved
        · rw [Completed.of_perform hmoved]
          simp
        · obtain ⟨rfl, -⟩ := Completed.of_ret hmoved
          simp
      by_cases habsent : row.absentPasses ≠ 0
      · rw [if_pos habsent] at hcleared
        have hlast := Completed.of_perform hcleared
        apply (ih hmore).cons
        · exact fun _ _ _ => ⟨_, List.mem_append_right _ (hlast ▸ List.mem_singleton.mpr rfl), rfl⟩
        · intro x hx scope' k hk
          obtain hx | hx := List.mem_append.mp hx
          · exact absurd hk (hmoves x hx scope' k)
          · rw [hlast] at hx
            obtain rfl := List.mem_singleton.mp hx
            cases hk
            exact ⟨rfl, hnone, habsent⟩
      · rw [if_neg habsent] at hcleared
        obtain ⟨rfl, -⟩ := Completed.of_ret hcleared
        apply (ih hmore).cons
        · exact fun _ h => absurd h habsent
        · intro x hx scope' k hk
          rw [List.append_nil] at hx
          exact absurd hk (hmoves x hx scope' k)
    rename_i hunlisted
    have hnot : (row.collection, row.naturalKeyHash) ∉ listed := fun hin => hunlisted (List.contains_iff_mem.mpr hin)
    split at h
    · obtain ⟨mid, _, after, rfl, hrest, hret⟩ := Completed.of_bind h
      obtain ⟨rfl, -⟩ := Completed.of_ret hret
      rw [List.append_nil]
      exact WalkClears.pass [] (ih hrest) (.inr hnot) hsilent
    split at h
    · obtain ⟨_, more, rfl, hmore⟩ := Completed.of_perform_bind h
      obtain ⟨mid, _, after, rfl, hrest, hret⟩ := Completed.of_bind hmore
      obtain ⟨rfl, -⟩ := Completed.of_ret hret
      rw [List.append_nil]
      exact WalkClears.pass [_] (ih hrest) (.inr hnot) (by simp)
    · obtain ⟨_, more, rfl, hmore⟩ := Completed.of_perform_bind h
      obtain ⟨mid, _, after, rfl, hrest, hret⟩ := Completed.of_bind hmore
      obtain ⟨rfl, -⟩ := Completed.of_ret hret
      rw [List.append_nil]
      exact WalkClears.pass [_] (ih hrest) (.inr hnot) (by simp)

end Walk

theorem resolveRemovals_spares (collection key : String) : Emits (spareVocabulary collection key false) (resolveRemovals d) (fun _ => True) := by
  refine spare_vars fun v hv => ?_
  refine Emits.seq (resolveReportedRemovals_spares (seen_anywhere hv) _ _) fun reported => ?_
  exact spare_modify fun _ => ⟨rfl, rfl⟩

theorem readBins_spares (collection key : String) : Emits (spareVocabulary collection key false) (readBins d) (fun _ => True) := by
  unfold readBins
  split
  · trivial
  rename_i scan hscan
  refine Emits.attempt ?_ (fun _ => trivial) fun discarded => ?_
  · refine (d.listDiscardedKeys_asks scan hscan).weaken ?_ fun _ _ h => h.1
    intro c hc
    cases c with
    | cursorGet | cursorSet => trivial
    | _ => exact hc.elim
  · refine Emits.seq ?_ fun _ => ?_
    · split
      · exact spare_modify fun _ => ⟨rfl, rfl⟩
      · trivial
    refine spare_vars fun v hv => ?_
    refine Emits.seq (resolveDiscardedItems_spares (seen_anywhere hv) _) fun trashed => ?_
    exact spare_modify fun _ => ⟨rfl, rfl⟩

theorem detectMoves_spares (collection key : String) : Emits (spareVocabulary collection key true) (detectMoves d) (fun _ => True) := by
  refine spare_vars fun v hv => ?_
  split
  · refine Emits.seq ?_ fun found => spare_modify fun _ => ⟨rfl, rfl⟩
    refine Emits.bind (fun placed => ∀ p ∈ placed, p.naturalKeyHash = key → p.collection = collection) ?_ fun placed hp => ?_
    · refine (Emits.perform _ _).mpr ⟨⟨by simp [LedgerOp.claims], rfl, by simp⟩, fun r hr => ?_⟩
      cases r with
      | error e => trivial
      | ok placed => exact hr.2
    · exact walkPlaced_spares (fun p hin hkey => hp p hin hkey ▸ hv) _
  · trivial

end Tail

section Shelf

def ItemRow.shelf (row : ItemRow) : ItemStatus × String := (row.status, row.collection)

theorem sets_shelf {op : LedgerOp} (h : op.shelves = false) (L : Ledger) (now : Instant) (row : ItemRow) :
    (op.sets L now row).shelf = row.shelf := by
  cases op with
  | recordIfAbsent | recordUpdate | recordFailure | applyDeletion | applyRelocation => cases h
  | recordReportedDeletion | recordTrashedDeletion | clearAbsent =>
    simp only [LedgerOp.sets]
    split <;> rfl
  | _ => rfl

variable {scope : Scope} {key : String} {s t w : World T} {hs : List (Option ℕ × Heard (Cmd T) Cmd.Resp PassError)}

def shelfOf (scope : Scope) (key : String) (w : World T) : Option (ItemStatus × String) :=
  (row? w.1.ledger scope key).map ItemRow.shelf

theorem exec_shelf {c : Cmd T} {i : Input T} (h : ∀ op, c = .ledger op → op.shelves = false) :
    shelfOf scope key (w.exec i c).2 = shelfOf scope key w := by
  unfold shelfOf
  cases hrow : row? w.1.ledger scope key with
  | none =>
    obtain hnone | ⟨op, row, hop, hins, -⟩ := exec_row?_none (i := i) (c := c) hrow
    · rw [hnone]
    · have hshelves := h op hop
      cases op with
      | recordIfAbsent | recordFailure => cases hshelves
      | _ => cases hins
  | some row =>
    obtain hsame | ⟨op, hop, -, -, hset⟩ := exec_row?_some (i := i) (c := c) hrow
    · rw [hsame]
    · rw [hset, Option.map_some, Option.map_some, sets_shelf (h op hop)]

theorem ran_shelf (h : Ran (machine T) s hs t) (hops : ∀ x ∈ hs, ∀ op, x.2.1 = .ledger op → op.shelves = false) :
    shelfOf scope key t = shelfOf scope key s :=
  h.keeps (P := fun w => shelfOf scope key w = shelfOf scope key s)
    (Q := fun x => ∀ op, x.1 = .ledger op → op.shelves = false) (fun _ _ h => h)
    (fun _ _ _ hq hp => (exec_shelf hq).trans hp) hops rfl

theorem placed_row {L : Ledger} {p : PlacedItem} (h : p ∈ placedItems L scope) :
    ∃ row, row? L scope p.naturalKeyHash = some row ∧ p.collection = row.collection ∧ p.absentPasses = row.absentPasses ∧
      p.deletionAppliedAt = row.deletionAppliedAt := by
  obtain ⟨⟨k, row⟩, hmem, rfl⟩ := List.mem_map.mp h
  exact ⟨row, (mem_rows L).mp (List.mem_of_mem_filter hmem), rfl, rfl, rfl⟩

theorem row_placed {L : Ledger} {row : ItemRow} (h : row? L scope key = some row) (hplaced : placed row = true) :
    ∃ p ∈ placedItems L scope, p.naturalKeyHash = key ∧ p.collection = row.collection ∧
      p.absentPasses = row.absentPasses ∧ p.deletionAppliedAt = row.deletionAppliedAt := by
  refine ⟨_, List.mem_map.mpr ⟨(key, row), List.mem_filter.mpr ⟨(mem_rows L).mpr h, hplaced⟩, rfl⟩, rfl, rfl, rfl, rfl⟩

theorem answer_placed {i : Input T} {placed : List PlacedItem}
    (h : (⟨.ledger (.placedItems scope), .ok placed⟩ : Heard (Cmd T) Cmd.Resp PassError) =
      ⟨.ledger (.placedItems scope), (w.exec i (.ledger (.placedItems scope))).1⟩) :
    placed = placedItems w.1.ledger scope := by
  have hanswer : (.ok placed : Except PassError (List PlacedItem)) = (w.exec i (.ledger (.placedItems scope))).1 :=
    eq_of_heq (Sigma.mk.inj h).2
  cases hf : i.fault with
  | none =>
    rw [exec_ok hf] at hanswer
    exact Except.ok.inj hanswer
  | some reason =>
    have herror : (w.exec i (.ledger (.placedItems scope))).1 = .error (.error reason) := by
      simp [World.exec, World.query, hf]
    rw [herror] at hanswer
    cases hanswer

theorem answer_find {i : Input T} {found : Option LedgerRecord}
    (h : (⟨.ledger (.find scope key), .ok found⟩ : Heard (Cmd T) Cmd.Resp PassError) =
      ⟨.ledger (.find scope key), (w.exec i (.ledger (.find scope key))).1⟩) :
    found = find w.1.ledger scope key := by
  have hanswer : (.ok found : Except PassError (Option LedgerRecord)) = (w.exec i (.ledger (.find scope key))).1 :=
    eq_of_heq (Sigma.mk.inj h).2
  cases hf : i.fault with
  | none =>
    rw [exec_ok hf] at hanswer
    exact Except.ok.inj hanswer
  | some reason =>
    have herror : (w.exec i (.ledger (.find scope key))).1 = .error (.error reason) := by
      simp [World.exec, World.query, hf]
    rw [herror] at hanswer
    cases hanswer

end Shelf

section Answers

variable {d : DomainSyncDeps T Item Folder Raw} {collection key : String} {s t : World T}
  {tail : List (Option ℕ × Heard (Cmd T) Cmd.Resp PassError)} {row : ItemRow}

theorem tail_tells (hran : Ran (machine T) s tail t) (hasks : ∀ x ∈ tail, (afterVocabulary d).asks x.2.1)
    (hseen : (row.collection, key) ∈ s.vars.seenByCollection) (hrow : row? t.1.ledger d.scope key = some row) :
    ∀ x ∈ tail, TellsSeen row.collection key x.2.1 x.2.2 := by
  intro x hx
  obtain ⟨before, after, u, i, rfl, hbefore, hanswer, hafter⟩ := hran.at_mem hx
  rw [List.forall_mem_append, List.forall_mem_cons] at hasks
  obtain ⟨hasksBefore, hask, hasksAfter⟩ := hasks
  obtain ⟨th, c, r⟩ := x
  cases c with
  | vars =>
    cases r with
    | error e => trivial
    | ok v =>
      have hv : (.ok v : Except PassError PassVars) = .ok u.vars := eq_of_heq (Sigma.mk.inj hanswer).2
      obtain rfl := Except.ok.inj hv
      refine ran_sees hbefore ?_ hseen
      rintro ⟨th', c', r'⟩ hy f rfl v
      have hstill : StillSeen v (f v) := hasksBefore _ hy v
      rw [hstill.seen]
      exact List.Subset.refl _
  | ledger op =>
    cases op with
    | placedItems scope =>
      cases r with
      | error e => trivial
      | ok placed =>
        obtain rfl : scope = d.scope := hask.2.2 scope rfl
        obtain rfl := answer_placed hanswer
        intro p hp hkey
        obtain ⟨row', hrow', hcollection, -, -⟩ := placed_row hp
        have hops : ∀ x ∈ after, ∀ op, x.2.1 = .ledger op → op.shelves = false := by
          rintro ⟨th', c', r'⟩ hy op rfl
          exact (hasksAfter _ hy).1
        have hshelf : shelfOf d.scope key t = shelfOf d.scope key u :=
          (ran_shelf hafter hops).trans (exec_shelf fun op hop => by
            obtain rfl := Cmd.ledger.inj hop
            rfl)
        rw [hkey] at hrow'
        rw [shelfOf, shelfOf, hrow, hrow', Option.map_some, Option.map_some, Option.some.injEq] at hshelf
        rw [hcollection]
        exact (congrArg Prod.snd hshelf).symm
    | _ => cases r <;> trivial
  | target | cursorGet | cursorSet | modify => cases r <;> trivial

end Answers

end OpenMigrate
