import OpenMigrate.Sync.Bins
import OpenMigrate.Verify.Unclaimed

namespace OpenMigrate

open Async Prog PgLedger

variable {T : TargetApi} {Item Folder Raw : Type}

/-- A reported move, on the row of a copy that is where the row says. -/
structure Moved (dest : String) (toKey : Option String) (row : ItemRow) : Prop where
  live : row.status ≠ .leftBehind ∧ row.status ≠ .tombstoned ∧ row.status ≠ .failed
  placed : row.collection ≠ ""
  away : row.collection ≠ dest
  moved : truthy row.movedToCollection = some dest
  toKey : truthy row.movedToNaturalKeyHash = toKey

/-- A move that the owner has settled. -/
structure Acknowledged (dest : String) (toKey : Option String) (since : Instant) (row : ItemRow) : Prop extends
    Moved dest toKey row where
  acknowledged : row.moveAcknowledgedAt = some since

/-- The row whose status, place or move an operation may set anew. -/
def LedgerOp.displaces : LedgerOp → Option String
  | .recordUpdate r => some r.naturalKeyHash
  | .recordFailure r _ => some r.naturalKeyHash
  | .recordMove _ key _ _ => some key
  | .clearMove _ key => some key
  | .applyDeletion _ key => some key
  | .applyRelocation _ key => some key
  | _ => none

variable {scope : Scope} {key dest : String} {toKey : Option String} {since : Instant}

theorem sets_acknowledged {op : LedgerOp} (hop : op.displaces = none) (L : Ledger) (now : Instant) {row : ItemRow}
    (h : Acknowledged dest toKey since row) : Acknowledged dest toKey since (op.sets L now row) := by
  obtain ⟨⟨hlive, hplaced, haway, hmoved, htoKey⟩, hack⟩ := h
  cases op with
  | recordReportedDeletion | recordTrashedDeletion | clearAbsent =>
    simp only [LedgerOp.sets]
    split <;> exact ⟨⟨hlive, hplaced, haway, hmoved, htoKey⟩, hack⟩
  | recordUpdate | recordFailure | recordMove | clearMove | applyDeletion | applyRelocation => cases hop
  | _ => exact ⟨⟨hlive, hplaced, haway, hmoved, htoKey⟩, hack⟩

theorem displaces_of_aims {op : LedgerOp} {domain : Domain} (hop : op.displaces ≠ none)
    (h : op.aimsAt (scope.key key) domain) : op.displaces = some key := by
  obtain ⟨scope', k, hw, hkey, -⟩ := h
  have hk : k = key := congrArg ItemKey.naturalKeyHash hkey
  cases op with
  | recordUpdate | recordFailure | recordMove | clearMove | applyDeletion | applyRelocation =>
    simp only [LedgerOp.writes?, Option.some.injEq, Prod.mk.injEq] at hw
    rw [LedgerOp.displaces, hw.2, hk]
  | _ => exact absurd rfl hop

def AckRow (scope : Scope) (key dest : String) (toKey : Option String) (since : Instant) (L : Ledger) : Prop :=
  ∃ row, row? L scope key = some row ∧ Acknowledged dest toKey since row

theorem exec_ackRow {L : Ledger} {now : Instant} {op : LedgerOp} (hop : op.displaces ≠ some key)
    (h : AckRow scope key dest toKey since L) : AckRow scope key dest toKey since (exec L now op).2 := by
  obtain ⟨row, hrow, hack⟩ := h
  obtain ⟨hlook, hdomain⟩ := (row?_eq_some L).mp hrow
  obtain ⟨-, hsame⟩ | ⟨haim, hset⟩ := exec_lookup_some L now op hlook
  · exact ⟨row, (row?_eq_some _).mpr ⟨hsame, hdomain⟩, hack⟩
  · have hnone : op.displaces = none := by
      by_contra hne
      exact hop (displaces_of_aims hne haim)
    exact ⟨_, (row?_eq_some _).mpr ⟨hset, (sets_domain _ _ _ _).trans hdomain⟩, sets_acknowledged hnone _ _ hack⟩

/-- What the variables of a pass say of the item: it was seen in `dest` only, and no move of it reported. -/
structure Quiet (key dest : String) (toKey : Option String) (v : PassVars) : Prop where
  seen : ∀ x ∈ v.seenByCollection, x.2 = key → x.1 = dest ∧ toKey = none
  moves : ∀ m ∈ v.moves, m.naturalKeyHash ≠ key

variable (d : DomainSyncDeps T Item Folder Raw)

/-- The source shows the item, if at all, under its own name and in `dest`. -/
structure StaysIn [FolderLike Folder] (key dest : String) (toKey : Option String) : Prop where
  listed : ∀ at_ item, ListedAt d at_ item → HasKey d item key →
    d.naturalKey item = some key ∧ at_.collectionPath = dest ∧ toKey = none
  enumerated : ∀ collection, Enumerates d collection key → collection = dest ∧ toKey = none

def ackVocabulary (key dest : String) (toKey : Option String) (since : Instant) :
    Vocabulary (Cmd T) Cmd.Resp PassError where
  asks
    | .ledger op => op.displaces ≠ some key
    | .modify f => ∀ v, Quiet key dest toKey v → Quiet key dest toKey (f v)
    | _ => True
  hears
    | .ledger (.find scope k), .ok known =>
      (∀ r ∈ known, r.scope = scope ∧ r.naturalKeyHash = k) ∧
        (scope = d.scope → k = key → ∃ row, Acknowledged dest toKey since row ∧
          known = some (row.mapRowToRecord (scope.key k)))
    | .ledger (.findBySourceRef scope _), .ok known => ∀ r ∈ known, r.scope = scope
    | .ledger (.placedItems scope), .ok rows => scope = d.scope → ∀ x ∈ rows, x.naturalKeyHash = key →
        x.movedToCollection = some dest ∧ x.moveAcknowledgedAt ≠ none ∧ x.collection ≠ dest
    | .vars, .ok v => Quiet key dest toKey v
    | _, _ => True

section Row

variable {row : ItemRow}

theorem Acknowledged.dest_ne (h : Acknowledged dest toKey since row) : dest ≠ "" := by
  have hmoved := h.moved
  rw [truthy, Option.filter_eq_some_iff] at hmoved
  simpa using hmoved.2

theorem Acknowledged.classify (h : Acknowledged dest toKey since row) (k : ItemKey) (version : Option String) :
    classifyKnownItem (row.mapRowToRecord k) version (some dest) = .moved := by
  obtain ⟨hleft, htomb, hfailed⟩ := h.live
  have hcollection : truthy (some row.collection) = some row.collection := by simp [truthy, h.placed]
  simp [classifyKnownItem, ItemRow.mapRowToRecord, hleft, htomb, hfailed, hcollection, h.dest_ne, h.placed, h.away]

theorem Acknowledged.decided (h : Acknowledged dest none since row) (k : ItemKey) :
    decided (row.mapRowToRecord k) dest none = true := by
  simp [OpenMigrate.decided, ItemRow.mapRowToRecord, h.moved, h.toKey, h.acknowledged]

end Row

variable {d} {at_ : Place} {item : Item}

section Worker

theorem ack_hears {c : Cmd T} {r : Except PassError c.Resp} (h : (ackVocabulary d key dest toKey since).hears c r) :
    c.Hears r := by
  cases c with
  | ledger op =>
    cases op with
    | find scope k =>
      cases r with
      | error e => trivial
      | ok known =>
        cases known with
        | none => trivial
        | some r => exact h.1 r rfl
    | findBySourceRef scope ref =>
      cases r with
      | error e => trivial
      | ok known =>
        cases known with
        | none => trivial
        | some r => exact h r rfl
    | _ => trivial
  | _ => trivial

theorem ack_ledger {op : LedgerOp} (h : op.displaces ≠ some key) :
    Emits (ackVocabulary d key dest toKey since) (Task.ledger op) (fun _ => True) :=
  (Emits.perform _ _).mpr ⟨h, fun _ _ => trivial⟩

theorem ack_modify {f : PassVars → PassVars} (h : ∀ v, Quiet key dest toKey v → Quiet key dest toKey (f v)) :
    Emits (ackVocabulary d key dest toKey since) (Task.modify f) (fun _ => True) :=
  (Emits.perform _ _).mpr ⟨h, fun _ _ => trivial⟩

theorem ack_settle {f : PassVars → PassVars}
    (h : ∀ v, (f v).seenByCollection = v.seenByCollection ∧ (f v).moves = v.moves) :
    Emits (ackVocabulary d key dest toKey since) (settle at_ f) (fun _ => True) := by
  refine ack_modify fun v hv => ⟨fun x hx => ?_, fun m hm => ?_⟩
  · exact hv.seen x ((h v).1 ▸ hx)
  · exact hv.moves m ((h v).2 ▸ hm)

theorem syncItem_elsewhere (hkey : ¬ HasKey d item key) :
    Emits (ackVocabulary d key dest toKey since) (syncItem d at_ item) (fun _ => True) := by
  refine (syncItem_emits (recordsUnder_any d item)).weaken ?_ fun _ _ h => ack_hears h
  have hne : ∀ k, HasKey d item k → k ≠ key := by
    rintro k hk rfl
    exact hkey hk
  intro c hc
  cases c with
  | ledger op =>
    change op.displaces ≠ some key
    cases op with
    | recordUpdate r =>
      obtain ⟨-, hk, -⟩ := hc
      simpa [LedgerOp.displaces] using hne _ hk
    | recordFailure r =>
      obtain ⟨-, hk⟩ := hc
      simpa [LedgerOp.displaces] using hne _ hk
    | recordMove scope k =>
      obtain ⟨-, hk, -⟩ := hc
      simpa [LedgerOp.displaces] using hne _ (.inl hk)
    | clearMove scope k =>
      obtain ⟨-, hk⟩ := hc
      simpa [LedgerOp.displaces] using hne _ (.inl hk)
    | applyDeletion | applyRelocation => exact hc.elim
    | _ => simp [LedgerOp.displaces]
  | modify f =>
    intro v hv
    have hvars : WorkerVars d at_ item v (f v) := hc v
    constructor
    · intro x hx hxk
      obtain hx | ⟨-, hk⟩ := hvars.sees x hx
      · exact hv.seen x hx hxk
      · exact absurd hxk (hne _ hk)
    · intro m hm
      obtain hm | hk := hvars.moves m hm
      · exact hv.moves m hm
      · exact hne _ hk
  | target | vars => trivial
  | cursorGet | cursorSet => exact hc.elim

theorem syncItem_settled (hkey : d.naturalKey item = some key) (hdest : at_.collectionPath = dest)
    (hto : toKey = none) :
    Emits (ackVocabulary d key dest toKey since) (syncItem d at_ item) (fun _ => True) := by
  subst hdest hto
  unfold syncItem
  rw [hkey]
  refine Emits.seq (ack_modify fun v hv => ⟨fun x hx hxk => ?_, hv.moves⟩) fun _ => ?_
  · obtain hx | hx := List.mem_append.mp hx
    · exact hv.seen x hx hxk
    · obtain rfl := List.mem_singleton.mp hx
      exact ⟨rfl, rfl⟩
  refine Emits.bind (fun known => ∃ row, Acknowledged at_.collectionPath none since row ∧
    known = some (row.mapRowToRecord (d.scope.key key))) ?_ ?_
  · refine (Emits.perform _ _).mpr ⟨by simp [ackVocabulary, LedgerOp.displaces], fun r hr => ?_⟩
    cases r with
    | error e => trivial
    | ok known => exact hr.2 rfl rfl
  · rintro _ ⟨row, hack, rfl⟩
    change Emits _ (onKnown d at_ item key (row.mapRowToRecord (d.scope.key key))) _
    unfold onKnown
    refine Emits.seq ?_ fun _ => ?_
    · split
      · exact ack_ledger (by simp [LedgerOp.displaces])
      · trivial
    · rw [hack.classify]
      change Emits _ (reportMove d at_ key _) _
      rw [reportMove, if_pos (hack.decided _)]
      exact ack_settle fun v => ⟨rfl, rfl⟩

end Worker

section Detection

def NoMoveOf (key : String) : Except PassError PathKeyedMoves → Prop
  | .ok found => ∀ m ∈ found.moves, m.naturalKeyHash ≠ key
  | .error _ => True

theorem ack_when {b : Prop} [Decidable b] {p : Task T Unit}
    (h : b → Emits (ackVocabulary d key dest toKey since) p (fun _ => True)) :
    Emits (ackVocabulary d key dest toKey since) (if b then p else .ret ()) (fun _ => True) := by
  split
  · rename_i hb
    exact h hb
  · trivial

theorem ack_rest {α : Type} {p : Task T α} {f : α → Task T PathKeyedMoves}
    (hp : Emits (ackVocabulary d key dest toKey since) p (fun _ => True))
    (hf : ∀ a, Emits (ackVocabulary d key dest toKey since) (f a) (NoMoveOf key)) :
    Emits (ackVocabulary d key dest toKey since) (p.bind f) (NoMoveOf key) := by
  refine Emits.bind (fun _ => True) (hp.mono fun r _ => ?_) fun a _ => hf a
  cases r <;> trivial

theorem ack_found {p : Task T PathKeyedMoves} {f : PathKeyedMoves → PathKeyedMoves}
    (hp : Emits (ackVocabulary d key dest toKey since) p (NoMoveOf key))
    (hf : ∀ out, ∀ m ∈ (f out).moves, m ∈ out.moves ∨ m.naturalKeyHash ≠ key) :
    Emits (ackVocabulary d key dest toKey since) (p.bind fun out => .ret (f out)) (NoMoveOf key) := by
  refine Emits.bind (fun out => ∀ m ∈ out.moves, m.naturalKeyHash ≠ key) (hp.mono fun r hr => ?_) fun out hout => ?_
  · cases r with
    | ok out => exact hr
    | error e => trivial
  · intro m hm
    exact (hf out m hm).elim (hout m) id

theorem walkPlaced_quiet {listed : List (String × String)} (hseen : ∀ x ∈ listed, x.2 = key → x.1 = dest)
    {placed : List PlacedItem} (hplaced : ∀ x ∈ placed, x.naturalKeyHash = key →
      x.movedToCollection = some dest ∧ x.moveAcknowledgedAt ≠ none ∧ x.collection ≠ dest)
    (arrivals : List CreatedItem) :
    Emits (ackVocabulary d key dest toKey since) (walkPlaced d.scope listed placed arrivals) (NoMoveOf key) := by
  induction placed generalizing arrivals with
  | nil => exact fun m hm => by cases hm
  | cons row rest ih =>
    have hrest := ih fun x hx => hplaced x (List.mem_cons_of_mem row hx)
    have hrow := hplaced row List.mem_cons_self
    unfold walkPlaced
    split
    · exact hrest arrivals
    split
    · -- the row is listed where it was copied from, so it is another item's
      rename_i hlisted
      have hne : row.naturalKeyHash ≠ key := by
        intro hk
        obtain ⟨-, -, haway⟩ := hrow hk
        exact haway (hseen _ (List.contains_iff_mem.mp hlisted) hk)
      refine ack_rest (ack_when fun _ => ack_ledger (by simpa [LedgerOp.displaces] using hne)) fun _ => ?_
      exact ack_rest (ack_when fun _ => ack_ledger (by simp [LedgerOp.displaces])) fun _ => hrest arrivals
    split
    · rename_i elsewhere hmoved
      refine ack_found (hrest arrivals) fun out m hm => ?_
      split at hm
      · rename_i hopen
        obtain rfl | hm := List.mem_cons.mp hm
        · refine .inr fun hk => ?_
          obtain ⟨-, hack, -⟩ := hrow hk
          exact hack (Option.isNone_iff_eq_none.mp hopen)
        · exact .inl hm
      · exact .inl hm
    · rename_i hstill
      have hne : row.naturalKeyHash ≠ key := by
        intro hk
        obtain ⟨hmoved, -, -⟩ := hrow hk
        rw [hstill] at hmoved
        cases hmoved
      split
      · rename_i arrival harrival
        refine ack_rest (ack_ledger (by simpa [LedgerOp.displaces] using hne)) fun _ => ?_
        refine ack_found (hrest _) fun out m hm => ?_
        obtain rfl | hm := List.mem_cons.mp hm
        · exact .inr hne
        · exact .inl hm
      · exact ack_rest (ack_ledger (by simp [LedgerOp.displaces])) fun _ =>
          ack_found (hrest arrivals) fun out m hm => .inl hm

theorem detectMoves_quiet : Emits (ackVocabulary d key dest toKey since) (detectMoves d) (fun _ => True) := by
  refine Emits.bind (Quiet key dest toKey) ((Emits.perform _ _).mpr ⟨trivial, fun r hr => ?_⟩) fun v hv => ?_
  · cases r with
    | error e => trivial
    | ok v => exact hr
  refine ack_when fun _ => ?_
  refine Emits.bind (fun found => ∀ m ∈ found.moves, m.naturalKeyHash ≠ key) ?_ fun found hfound => ?_
  · refine Emits.bind (fun placed => ∀ x ∈ placed, x.naturalKeyHash = key →
      x.movedToCollection = some dest ∧ x.moveAcknowledgedAt ≠ none ∧ x.collection ≠ dest) ?_ fun placed hplaced => ?_
    · refine (Emits.perform _ _).mpr ⟨by simp [ackVocabulary, LedgerOp.displaces], fun r hr => ?_⟩
      cases r with
      | error e => trivial
      | ok placed => exact hr rfl
    · refine (walkPlaced_quiet (fun x hx hk => (hv.seen x hx hk).1) hplaced _).mono fun r hr => ?_
      cases r with
      | error e => trivial
      | ok found => exact hr
  · refine ack_modify fun v hv => ⟨hv.seen, fun m hm => ?_⟩
    obtain hm | hm := List.mem_append.mp hm
    · exact hv.moves m hm
    · exact hfound m hm

theorem resolveRemovals_quiet : Emits (ackVocabulary d key dest toKey since) (resolveRemovals d) (fun _ => True) := by
  refine Emits.seq ((Emits.perform _ _).mpr ⟨trivial, fun _ _ => trivial⟩) fun v => ?_
  refine Emits.seq (resolveReportedRemovals_asks (fun ref => ?_) (fun k => ?_) _ _ _) fun reported => ?_
  · simp [ackVocabulary, LedgerOp.displaces]
  · simp [ackVocabulary, LedgerOp.displaces]
  · exact ack_modify fun v hv => ⟨hv.seen, hv.moves⟩

theorem readBins_quiet : Emits (ackVocabulary d key dest toKey since) (readBins d) (fun _ => True) := by
  unfold readBins
  split
  · trivial
  · rename_i scan hscan
    refine Emits.attempt ?_ (fun _ => trivial) fun discarded => ?_
    · refine (d.listDiscardedKeys_asks scan hscan).weaken ?_ fun _ _ h => ack_hears h
      intro c hc
      cases c with
      | cursorGet | cursorSet => trivial
      | _ => exact hc.elim
    · refine Emits.seq (ack_when fun _ => ack_modify fun v hv => ⟨hv.seen, hv.moves⟩) fun _ => ?_
      refine Emits.seq ((Emits.perform _ _).mpr ⟨trivial, fun _ _ => trivial⟩) fun v => ?_
      refine Emits.seq (resolveDiscardedItems_asks (fun k => ?_) (fun k => ?_) _ _) fun trashed => ?_
      · simp [ackVocabulary, LedgerOp.displaces]
      · simp [ackVocabulary, LedgerOp.displaces]
      · exact ack_modify fun v hv => ⟨hv.seen, hv.moves⟩

end Detection

section Pass

/-- The owner's word stands in the ledger, and the pass has not reported the move. -/
def Settled (scope : Scope) (key dest : String) (toKey : Option String) (since : Instant) (w : World T) : Prop :=
  AckRow scope key dest toKey since w.1.ledger ∧ Quiet key dest toKey w.vars

theorem settled_exec {c : Cmd T} (hc : (ackVocabulary d key dest toKey since).asks c) (i : Input T) {w : World T}
    (h : Settled scope key dest toKey since w) : Settled scope key dest toKey since (w.exec i c).2 := by
  obtain ⟨hrow, hquiet⟩ := h
  constructor
  · obtain ⟨-, hsame⟩ | ⟨op, rfl, -, hset⟩ := exec_ledger i w c
    · rwa [hsame]
    · rw [hset]
      exact exec_ackRow hc hrow
  · obtain ⟨f, rfl⟩ | hvars := exec_vars i w c
    · exact hc w.vars hquiet
    · rwa [hvars]

theorem placedItems_ack {L : Ledger} (h : AckRow scope key dest toKey since L) :
    ∀ x ∈ placedItems L scope, x.naturalKeyHash = key →
      x.movedToCollection = some dest ∧ x.moveAcknowledgedAt ≠ none ∧ x.collection ≠ dest := by
  obtain ⟨row, hrow, hack⟩ := h
  rintro x hx rfl
  obtain ⟨⟨k, row'⟩, hmem, rfl⟩ := List.mem_map.mp hx
  have hrow' : row? L scope k = some row' := (mem_rows L).mp (List.mem_filter.mp hmem).1
  obtain rfl : row' = row := Option.some.inj (hrow'.symm.trans hrow)
  exact ⟨hack.moved, by simp [hack.acknowledged], hack.away⟩

theorem settled_hears (c : Cmd T) (i : Input T) {w : World T} (h : Settled d.scope key dest toKey since w) :
    (ackVocabulary d key dest toKey since).hears c (w.exec i c).1 := by
  have hheard := exec_hears i w c
  obtain ⟨hack, hquiet⟩ := h
  cases c with
  | vars => exact hquiet
  | target | cursorGet | cursorSet | modify => trivial
  | ledger op =>
    obtain ⟨reason, -, he⟩ | ⟨-, he⟩ := exec_op i w op
    · rw [he]
      cases op <;> trivial
    · rw [he] at hheard ⊢
      cases op with
      | find scope k =>
        refine ⟨fun r hr => ?_, ?_⟩
        · change Cmd.Hears (T := T) (.ledger (.find scope k)) (.ok (find w.1.ledger scope k)) at hheard
          rw [Option.mem_def] at hr
          rwa [hr] at hheard
        · rintro rfl rfl
          obtain ⟨row, hrow, hrest⟩ := hack
          exact ⟨row, hrest, by rw [find, hrow]; rfl⟩
      | findBySourceRef scope ref =>
        intro r hr
        change Cmd.Hears (T := T) (.ledger (.findBySourceRef scope ref)) (.ok (findBySourceRef w.1.ledger scope ref))
          at hheard
        rw [Option.mem_def] at hr
        rwa [hr] at hheard
      | placedItems scope =>
        rintro rfl
        exact placedItems_ack hack
      | _ => trivial

variable [FolderLike Folder]

theorem runDomainSync_quiet (h : StaysIn d key dest toKey) :
    MainEmits (ackVocabulary d key dest toKey since) (runDomainSync d) (fun _ => True) := by
  have hroom : FolderHosts d (ackVocabulary d key dest toKey since) := by
    refine ⟨fun _ => trivial, fun _ _ _ _ => trivial, fun f hf v hv => ⟨fun x hx hk => ?_, fun m hm => ?_⟩, trivial,
      fun at_ item hlisted => ?_⟩
    · obtain hx | hx := (hf v).sees x hx
      · exact hv.seen x hx hk
      · exact h.enumerated x.1 (hk ▸ hx)
    · exact hv.moves m ((hf v).moves ▸ hm)
    · by_cases hkey : HasKey d item key
      · obtain ⟨hname, hdest, hto⟩ := h.listed at_ item hlisted hkey
        exact syncItem_settled hname hdest hto
      · exact syncItem_elsewhere hkey
  refine MainEmits.seq hroom.syncFolders fun _ => ?_
  refine MainEmits.seq (.lift resolveRemovals_quiet) fun _ => ?_
  refine MainEmits.seq (.lift readBins_quiet) fun _ => ?_
  refine MainEmits.seq (.lift detectMoves_quiet) fun _ => ?_
  exact MainEmits.seq (.lift ((Emits.perform _ _).mpr ⟨trivial, fun _ _ => trivial⟩)) fun v => trivial

/-- A pass over a source that shows the item in `dest` only leaves the owner's word as it is, step by step. -/
theorem pass_settled {p : Pass T Item Folder Raw} (h : StaysIn p.deps key dest toKey) {store : Store T}
    (hrow : AckRow p.deps.scope key dest toKey since store.ledger) (choices : List (Choice (Input T) T.Act)) :
    Settled p.deps.scope key dest toKey since ((machine T).run (p.start store) choices).2 := by
  have hstart : Settled p.deps.scope key dest toKey since (p.start store).2 :=
    ⟨hrow, ⟨fun x hx => (List.not_mem_nil hx).elim, fun m hm => (List.not_mem_nil hm).elim⟩⟩
  have hemits : (p.start store).1.Emits (ackVocabulary p.deps key dest toKey since) := runDomainSync_quiet h
  have hassume : ∀ th c i s, Event.exec th c i s ∈ (machine T).trace (p.start store) choices → True :=
    fun _ _ _ _ _ => trivial
  refine (Conf.Emits.keeps (m := machine T) ?_ ?_ ?_ hemits hstart hassume).1
  · exact fun a s hs => hs
  · exact fun c i s hc _ hs => settled_exec hc i hs
  · exact fun c i s _ _ hs => settled_hears c i hs

theorem passes_settled {passes : List (Pass T Item Folder Raw)} {store : Store T} {scope : Scope}
    (hrow : AckRow scope key dest toKey since store.ledger)
    (hpasses : ∀ p ∈ passes, p.deps.scope = scope ∧ StaysIn p.deps key dest toKey) :
    AckRow scope key dest toKey since (afterPasses passes store).ledger := by
  induction passes generalizing store with
  | nil => exact hrow
  | cons p passes ih =>
    obtain ⟨rfl, hp⟩ := hpasses p List.mem_cons_self
    exact ih (pass_settled hp hrow p.choices).1 fun q hq => hpasses q (List.mem_cons_of_mem p hq)

/-- The owner's word on a move, which the ledger takes down. -/
def acknowledge (scope : Scope) (key : String) (now : Instant) (store : Store T) : Store T :=
  { store with ledger := (Verify.Resolution.resolveMove.exec store.ledger now (scope.key key)).2 }

omit [FolderLike Folder] in
theorem acknowledge_ackRow {store : Store T} {row : ItemRow} (hrow : row? store.ledger scope key = some row)
    (hmoved : Moved dest toKey row) (hopen : row.moveAcknowledgedAt = none) (now : Instant) :
    AckRow scope key dest toKey now (acknowledge scope key now store).ledger := by
  obtain ⟨hlook, hdomain⟩ := (row?_eq_some _).mp hrow
  have hto : row.movedToCollection.isSome := by
    have h := hmoved.moved
    rw [truthy, Option.filter_eq_some_iff] at h
    rw [h.1]
    rfl
  have hcan : Verify.Resolution.resolveMove.open_ row = true := by simp [Verify.Resolution.open_, hto, hopen]
  refine ⟨{ row with moveAcknowledgedAt := some now }, (row?_eq_some _).mpr ⟨?_, hdomain⟩, ?_⟩
  · simp [acknowledge, Verify.Resolution.exec, hlook, Option.filter, hcan, replace_lookup, Verify.Resolution.set]
  · exact ⟨⟨hmoved.live, hmoved.placed, hmoved.away, hmoved.moved, hmoved.toKey⟩, rfl⟩

/-- Over any number of passes after the owner's word, in every state of the last of them, an acknowledged move
is still acknowledged and was not reported again, as long as the source shows the item in no folder but the
one it moved to. -/
theorem acknowledged_move_kept {scope : Scope} {store : Store T} {row : ItemRow}
    (hrow : row? store.ledger scope key = some row) (hmoved : Moved dest toKey row)
    (hopen : row.moveAcknowledgedAt = none) (now : Instant) {passes : List (Pass T Item Folder Raw)}
    {p : Pass T Item Folder Raw}
    (hpasses : ∀ q ∈ p :: passes, q.deps.scope = scope ∧ StaysIn q.deps key dest toKey) (n : ℕ) :
    Settled scope key dest toKey now
      ((machine T).run (p.start (afterPasses passes (acknowledge scope key now store))) (p.choices.take n)).2 := by
  have hbefore := passes_settled (acknowledge_ackRow hrow hmoved hopen now) fun q hq =>
    hpasses q (List.mem_cons_of_mem p hq)
  obtain ⟨rfl, hp⟩ := hpasses p List.mem_cons_self
  exact pass_settled hp hbefore _

end Pass

section Sample

open Dav

def archive : MailFolder where
  path := "Archive"
  specialUse := .archive

/-- One letter, in those of two folders that are named. -/
def foldersHolding (holding : List String) : SourceConnector where
  listFolders := .ok [inbox, archive]
  listSince folder _ := .ok ⟨if folder.path ∈ holding then [letter] else [], "1", []⟩
  fetch _ := .ok "Message-ID: <1@x>\r\n\r\nx".toList

def readFolders (holding : List String) : Pass (api Sample.endpoint) MailItem MailFolder (List Char) where
  deps := shadowPass midDigest Sample.contentHash mailDeps (foldersHolding holding)
  choices := List.replicate 30 (.run 0 Sample.input)

/-- The letter was copied from the inbox and found in the archive as well. -/
def movedLetter : Store (api Sample.endpoint) := ((readFolders ["INBOX", "Archive"]).ending Sample.store).1

def moveOf (L : Ledger) : Option (String × Option String × Option String × Option Instant × ItemStatus) :=
  (row? L ⟨"t", "m", .email⟩ letterKey).map fun row =>
    (row.collection, row.movedToCollection, row.movedToNaturalKeyHash, row.moveAcknowledgedAt, row.status)

theorem movedLetter_moved : ∃ row, row? movedLetter.ledger ⟨"t", "m", .email⟩ letterKey = some row ∧
    Moved "Archive" none row ∧ row.moveAcknowledgedAt = none := by
  have hmove : moveOf movedLetter.ledger = some ("INBOX", some "Archive", none, none, .copied) := by decide +kernel
  obtain ⟨row, hrow, hcolumns⟩ := Option.map_eq_some_iff.mp hmove
  simp only [Prod.mk.injEq] at hcolumns
  obtain ⟨hcollection, hmoved, hto, hopen, hstatus⟩ := hcolumns
  refine ⟨row, hrow, ⟨?_, ?_, ?_, ?_, ?_⟩, hopen⟩
  · simp [hstatus]
  · simp [hcollection]
  · simp [hcollection]
  · rw [hmoved]
    decide
  · rw [hto]
    rfl

theorem readFolders_staysIn : StaysIn (readFolders ["Archive"]).deps letterKey "Archive" none := by
  constructor
  · rintro at_ item ⟨_, folder, prev, _, ⟨⟩, hfolder, ⟨⟩, hitem, -, hpath⟩ -
    have hmem := List.mem_of_getElem? hfolder
    simp only [List.mem_filter, List.mem_cons, List.not_mem_nil, or_false] at hmem
    obtain ⟨hmem | hmem, -⟩ := hmem
    · subst hmem
      simp [inbox] at hitem
    · subst hmem
      have hmem := List.mem_of_getElem? hitem
      simp [archive] at hmem
      subst hmem
      exact ⟨by decide, by rw [hpath]; decide, rfl⟩
  · rintro collection ⟨_, _, _, _, _, _, hkeys, _⟩
    cases hkeys

/-- Later the letter is in the archive only. -/
theorem acknowledged_move_kept_letter :
    Settled ⟨"t", "m", .email⟩ letterKey "Archive" none 7
      ((readFolders ["Archive"]).ending ((readFolders ["Archive"]).ending
        (acknowledge ⟨"t", "m", .email⟩ letterKey 7 movedLetter)).1) := by
  obtain ⟨row, hrow, hmoved, hopen⟩ := movedLetter_moved
  have hpasses : ∀ q ∈ readFolders ["Archive"] :: [readFolders ["Archive"]],
      q.deps.scope = ⟨"t", "m", .email⟩ ∧ StaysIn q.deps letterKey "Archive" none := by
    intro q hq
    obtain rfl : q = readFolders ["Archive"] := by simpa using hq
    exact ⟨rfl, readFolders_staysIn⟩
  exact acknowledged_move_kept hrow hmoved hopen 7 hpasses 30

/-- The folders stay as they are, and the next pass clears the owner's word and reports the move again. -/
theorem acknowledged_move_reported :
    (∃ row, row? movedLetter.ledger ⟨"t", "m", .email⟩ letterKey = some row ∧ Moved "Archive" none row ∧
      row.moveAcknowledgedAt = none) ∧
    moveOf (acknowledge ⟨"t", "m", .email⟩ letterKey 7 movedLetter).ledger =
      some ("INBOX", some "Archive", none, some 7, .copied) ∧
    moveOf ((readFolders ["INBOX", "Archive"]).ending
        (acknowledge ⟨"t", "m", .email⟩ letterKey 7 movedLetter)).1.ledger =
      some ("INBOX", some "Archive", none, none, .copied) ∧
    ((readFolders ["INBOX", "Archive"]).ending (acknowledge ⟨"t", "m", .email⟩ letterKey 7 movedLetter)).vars.moves =
      [⟨.email, letterKey, "INBOX", "Archive", none, none, none⟩] :=
  ⟨movedLetter_moved, by decide +kernel, by decide +kernel, by decide +kernel⟩

end Sample

end OpenMigrate
