import OpenMigrate.Async.System
import OpenMigrate.Dav.DavApply
import OpenMigrate.Sync.PassFootprint
import OpenMigrate.Sync.Effect

namespace OpenMigrate

open Async

variable {T : TargetApi}

/-- No record that a caller hands the ledger says `tombstoned`. -/
def LedgerOp.Plain : LedgerOp → Prop
  | .recordIfAbsent r => r.status ≠ some .tombstoned
  | .recordUpdate r => r.status ≠ some .tombstoned
  | _ => True

def plainVocabulary (T : TargetApi) : Vocabulary (Cmd T) Cmd.Resp PassError where
  asks
    | .ledger op => op.Plain
    | _ => True
  hears := Cmd.Hears

section Callers

theorem runDomainSync_plain {Item Folder Raw : Type} [FolderLike Folder]
    (d : DomainSyncDeps T Item Folder Raw) :
    MainEmits (plainVocabulary T) (runDomainSync d) (fun _ => True) := by
  refine (runDomainSync_emits d).weaken ?_ fun _ _ h => h
  intro c hc
  cases c with
  | target | cursorGet | cursorSet | modify | vars => trivial
  | ledger op =>
    obtain ⟨at_, item, -, hop⟩ | hop := hc
    · cases op with
      | recordIfAbsent r =>
        obtain ⟨-, -, -, -, hstatus⟩ := hop
        intro h
        rw [h] at hstatus
        simp at hstatus
      | recordUpdate r => exact hop.2.2.1
      | _ => trivial
    · cases op with
      | recordIfAbsent | recordUpdate => exact hop.elim
      | _ => trivial

/-- A vocabulary with room for all that the apply path reads, and for its requests to the target. -/
structure Consults (V : Vocabulary (Cmd T) Cmd.Resp PassError) : Prop where
  find : ∀ scope key, V.asks (.ledger (.find scope key))
  placedItems : ∀ scope, V.asks (.ledger (.placedItems scope))
  listDeletions : ∀ scope, V.asks (.ledger (.listDeletions scope))
  listMoves : ∀ scope, V.asks (.ledger (.listMoves scope))
  target : ∀ c, V.asks (.target c)
  hears : ∀ c r, V.hears c r → c.Hears r

variable {V : Vocabulary (Cmd T) Cmd.Resp PassError}

theorem Consults.of_target (hV : Consults V) {α : Type} {p : Task T α} (h : Emits targetVocabulary p (fun _ => True)) :
    Emits V p (fun _ => True) := by
  refine h.weaken ?_ hV.hears
  intro c hc
  cases c with
  | target c => exact hV.target c
  | _ => exact hc.elim

variable (hV : Consults V) (deps : ApplyDeletionDeps T)
include hV

theorem massDeletionCheck_emits : Emits V (massDeletionCheck deps) (fun _ => True) := by
  refine Emits.seq (asks_ledger (hV.placedItems _)) fun placed => ?_
  split
  · trivial
  · refine Emits.seq (asks_ledger (hV.listDeletions _)) fun deletions => ?_
    dsimp only
    split <;> trivial

theorem massRelocationCheck_emits : Emits V (massRelocationCheck deps) (fun _ => True) := by
  refine Emits.seq (asks_ledger (hV.placedItems _)) fun placed => ?_
  split
  · trivial
  · refine Emits.seq (asks_ledger (hV.listMoves _)) fun moves => ?_
    dsimp only
    split <;> trivial

theorem relocationCheck_emits (row : LedgerRecord) : Emits V (relocationCheck deps row) (fun _ => True) := by
  unfold relocationCheck
  split
  · trivial
  split
  · trivial
  split
  · trivial
  refine Emits.seq (asks_ledger (hV.find _ _)) fun arrival => ?_
  split
  · trivial
  split
  · trivial
  refine Emits.seq (asks_ledger (hV.placedItems _)) fun placed => ?_
  dsimp only
  split <;> trivial

theorem removeAndRecord_emits {remove : String → Option String → Option String → Task T RemovalResult}
    (hremove : deps.removeItem = some remove) (row : LedgerRecord) {record : Task T Bool}
    (hrecord : Emits V record (fun _ => True)) (notRecorded : String) :
    Emits V (removeAndRecord deps remove row record notRecorded) (fun _ => True) := by
  refine (hV.of_target (deps.removeItem_asks remove hremove _ _ _)).seq fun removal => ?_
  split
  · trivial
  split
  · trivial
  · exact hrecord.seq fun _ => trivial

theorem applyDeletion_emits {key : String} (hrecord : V.asks (.ledger (.applyDeletion deps.scope key))) :
    Emits V (applyDeletion deps key) (fun _ => True) := by
  unfold applyDeletion
  split
  · trivial
  split
  · trivial
  rename_i remove hremove
  refine Emits.seq (asks_ledger (hV.find _ _)) fun row => ?_
  split
  · trivial
  split
  · trivial
  split
  · trivial
  split
  · trivial
  refine (massDeletionCheck_emits hV deps).seq fun refusal => ?_
  split
  · trivial
  · exact removeAndRecord_emits hV deps hremove _ (asks_ledger hrecord) _

theorem confirmArrival_emits (row : LedgerRecord) {proceed : Task T ApplyDeletionOutcome}
    (hproceed : Emits V proceed (fun _ => True)) :
    Emits V (confirmArrival deps row proceed) (fun _ => True) := by
  refine Emits.seq (asks_ledger (hV.find _ _)) fun arrival => ?_
  split
  · trivial
  · trivial
  · rename_i hasItem arrival hhas
    refine (hV.of_target (deps.hasItem_asks hasItem hhas _ _)).seq fun present => ?_
    split
    · trivial
    · exact hproceed

theorem applyRelocation_emits {key : String} (hrecord : V.asks (.ledger (.applyRelocation deps.scope key))) :
    Emits V (applyRelocation deps key) (fun _ => True) := by
  unfold applyRelocation
  split
  · trivial
  split
  · trivial
  rename_i remove hremove
  refine Emits.seq (asks_ledger (hV.find _ _)) fun row => ?_
  split
  · trivial
  split
  · trivial
  refine (relocationCheck_emits hV deps _).seq fun refusal => ?_
  split
  · trivial
  split
  · trivial
  refine Emits.seq ?_ fun refusal => ?_
  · refine (massDeletionCheck_emits hV deps).seq fun refusal => ?_
    split
    · trivial
    · exact massRelocationCheck_emits hV deps
  split
  · trivial
  · exact confirmArrival_emits hV deps _ (removeAndRecord_emits hV deps hremove _ (asks_ledger hrecord) _)

omit hV in
theorem plain_consults : Consults (plainVocabulary T) :=
  ⟨fun _ _ => trivial, fun _ => trivial, fun _ => trivial, fun _ => trivial, fun _ => trivial, fun _ _ h => h⟩

end Callers

/-- What runs over one ledger: passes, and the two operations an owner asks for. -/
inductive Activity (T : TargetApi) : Type 1 where
  | pass {Item Folder Raw : Type} [FolderLike Folder] (d : DomainSyncDeps T Item Folder Raw)
  | deletion (deps : ApplyDeletionDeps T) (naturalKeyHash : String)
  | relocation (deps : ApplyDeletionDeps T) (naturalKeyHash : String)

namespace Activity

def program : Activity T → MainTask T Unit
  | pass d => (runDomainSync d).bind fun _ => .ret ()
  | deletion deps key => Main.lift ((applyDeletion deps key).bind fun _ => .ret ())
  | relocation deps key => Main.lift ((applyRelocation deps key).bind fun _ => .ret ())

def start (a : Activity T) : Conf (Cmd T) Cmd.Resp PassError Unit × PassState T :=
  (.seq a.program, PassState.fresh T)

theorem program_plain (a : Activity T) : MainEmits (plainVocabulary T) a.program (fun _ => True) := by
  cases a with
  | pass d => exact (runDomainSync_plain d).seq fun _ => trivial
  | deletion deps key => exact .lift ((applyDeletion_emits plain_consults deps trivial).seq fun _ => trivial)
  | relocation deps key => exact .lift ((applyRelocation_emits plain_consults deps trivial).seq fun _ => trivial)

end Activity

/-- A row says when its target copy was removed exactly when it says that it was. -/
def ItemRow.Consistent (row : ItemRow) : Prop := row.deletionAppliedAt.isSome ↔ row.status = .tombstoned

def Consistent (L : Ledger) : Prop := ∀ key row, L.lookup key = some row → row.Consistent

/-- An operation that writes a status over a row, whatever the row's own says. -/
def LedgerOp.overwrites : LedgerOp → Bool
  | .recordUpdate _ => true
  | .recordFailure .. => true
  | _ => false

/-- A step that writes over a row that is a tombstone when the write reaches it. -/
def Revives : Event (World T) (Cmd T) (Input T) T.Act → Prop
  | .exec _ (.ledger op) i w =>
    i.fault = none ∧ op.overwrites ∧
      ∃ key row, w.row key = some row ∧ op.aimsAt key row.domain ∧ row.status = .tombstoned
  | _ => False

theorem sets_consistent {L : Ledger} {now : Instant} {op : LedgerOp} (hop : op.Plain) {row : ItemRow}
    (hrow : row.Consistent) :
    (op.sets L now row).Consistent ↔ ¬ (op.overwrites ∧ row.status = .tombstoned) := by
  unfold ItemRow.Consistent at hrow ⊢
  cases op with
  | recordUpdate r =>
    have hstatus : (r.status.getD .updated) ≠ .tombstoned := by
      cases hs : r.status with
      | none => simp
      | some s =>
        intro h
        exact hop (by rw [hs]; exact congrArg some h)
    simp only [LedgerOp.sets, PgLedger.updateValues, LedgerOp.overwrites, true_and, hstatus, iff_false, hrow]
  | recordFailure r error => simp [LedgerOp.sets, PgLedger.bump, LedgerOp.overwrites, hrow]
  | applyDeletion scope key =>
    simp only [LedgerOp.sets, LedgerOp.overwrites]
    split <;> simp [PgLedger.applyDeletionValues, hrow]
  | applyRelocation scope key =>
    simp only [LedgerOp.sets, LedgerOp.overwrites]
    split <;> simp [PgLedger.applyRelocationValues, hrow]
  | clearAbsent scope key =>
    simp only [LedgerOp.sets, LedgerOp.overwrites]
    split <;> simp [PgLedger.clearAbsentValues, hrow]
  | recordReportedDeletion scope key | recordTrashedDeletion scope key =>
    simp only [LedgerOp.sets, LedgerOp.overwrites]
    split <;> simp [hrow]
  | _ =>
    simp [LedgerOp.sets, LedgerOp.overwrites, PgLedger.moveValues, PgLedger.clearMoveValues,
      PgLedger.absentValues, hrow]

theorem inserts_consistent {op : LedgerOp} (hop : op.Plain) {row : ItemRow} (h : op.inserts = some row) :
    row.Consistent := by
  cases op with
  | recordIfAbsent r =>
    obtain rfl : PgLedger.insertValues r = row := by simpa [LedgerOp.inserts] using h
    simp only [ItemRow.Consistent, PgLedger.insertValues]
    cases hs : r.status with
    | none => simp
    | some s =>
      have hne : s ≠ .tombstoned := fun h => hop (by rw [hs, h])
      simp [hne]
  | recordFailure r error =>
    obtain rfl : PgLedger.failureValues r error = row := by simpa [LedgerOp.inserts] using h
    simp [ItemRow.Consistent, PgLedger.failureValues, PgLedger.insertValues]
  | _ => simp [LedgerOp.inserts] at h

theorem post_consistent (ev : Event (World T) (Cmd T) (Input T) T.Act) (hev : ev.Asks (plainVocabulary T))
    (hpre : Consistent ev.pre.1.ledger) :
    Consistent ((machine T).post ev).1.ledger ↔ ¬ Revives ev := by
  cases ev with
  | act a w => exact ⟨fun _ h => h, fun _ => hpre⟩
  | exec th c i w =>
    have hplain : ∀ op, c = .ledger op → op.Plain := by
      rintro op rfl
      exact hev
    constructor
    · intro hpost hrev
      cases c with
      | ledger op =>
        obtain ⟨hf, hover, key, row, hrow, haim, htomb⟩ := hrev
        obtain ⟨hno, -⟩ | ⟨op', hop', -, -, hset⟩ := exec_row_some (i := i) (c := .ledger op) hrow
        · exact hno op rfl hf haim
        · cases hop'
          have hsets := hpost key _ hset
          exact (sets_consistent hev (hpre key row hrow)).mp hsets ⟨hover, htomb⟩
      | _ => exact hrev
    · intro hno key row hrow
      change (World.exec i w c).2.row key = some row at hrow
      cases hw : w.row key with
      | some old =>
        have hold : old.Consistent := hpre key old hw
        obtain ⟨-, hsame⟩ | ⟨op, rfl, hf, haim, hset⟩ := exec_row_some (i := i) (c := c) hw
        · rw [hsame] at hrow
          cases hrow
          exact hold
        · rw [hset] at hrow
          cases hrow
          refine (sets_consistent (hplain op rfl) hold).mpr ?_
          rintro ⟨hover, htomb⟩
          exact hno ⟨hf, hover, key, old, hw, haim, htomb⟩
      | none =>
        obtain hnone | ⟨op, new, rfl, hf, hins, -, hnew⟩ := exec_row_none (i := i) (c := c) hw
        · rw [hnone] at hrow
          cases hrow
        · rw [hnew] at hrow
          cases hrow
          exact inserts_consistent (hplain op rfl) hins

/-- Whatever runs over the ledger, in whatever order, a row carries `deletionAppliedAt` exactly while
it is a tombstone, as long as no write of a pass reaches a row that is one. -/
theorem deletionAppliedAt_iff_tombstoned (activities : List (Activity T)) (store : Store T)
    (hstore : Consistent store.ledger) (chs : List (ℕ × Choice (Input T) T.Act)) :
    (∀ n, Consistent ((machine T).sysRun (activities.map Activity.start, store) (chs.take n)).2.ledger) ↔
      ∀ ev ∈ (machine T).sysTrace (activities.map Activity.start, store) chs, ¬ Revives ev := by
  have hears : ∀ c i w, (plainVocabulary T).hears c ((machine T).exec c i w).1 := fun c i w => exec_hears i w c
  refine always_iff_events (P := fun s : Store T => Consistent s.ledger) hears post_consistent ?_ hstore chs
  intro t ht
  obtain ⟨a, -, rfl⟩ := List.mem_map.mp ht
  exact a.program_plain

section Sample

open Dav

/-- `a.txt` is copied, found again as `b.txt`, its old copy is removed, and then it is back. -/
def relocatedAndBack : List (Activity (api Sample.endpoint)) :=
  [.pass (Sample.filePass ["a.txt"]), .pass (Sample.filePass ["b.txt"]),
    .relocation Sample.apply (Sample.sha256Hex "file:a.txt"), .pass (Sample.filePass ["a.txt", "b.txt"])]

def inTurn : List (ℕ × Choice (Input (api Sample.endpoint)) OwnerAct) :=
  [(0, 40), (1, 40), (2, 30), (3, 60)].flatMap fun t => List.replicate t.2 (t.1, .run 0 Sample.input)

theorem deletionAppliedAt_iff_tombstoned_relocatedAndBack :
    (∀ n, Consistent ((machine (api Sample.endpoint)).sysRun
        (relocatedAndBack.map Activity.start, Sample.store) (inTurn.take n)).2.ledger) ↔
      ∀ ev ∈ (machine (api Sample.endpoint)).sysTrace (relocatedAndBack.map Activity.start, Sample.store)
        inTurn, ¬ Revives ev :=
  deletionAppliedAt_iff_tombstoned relocatedAndBack Sample.store
    (fun _ _ h => absurd h (by simp [Sample.store])) inTurn

set_option maxRecDepth 10000 in
theorem revived_row :
    (((machine (api Sample.endpoint)).sysRun (relocatedAndBack.map Activity.start, Sample.store)
      (inTurn.take 170)).2.ledger.lookup ⟨"t", "m", Sample.sha256Hex "file:a.txt"⟩).map
        (fun row => (row.status, row.deletionAppliedAt)) = some (.copied, some 1) := by
  decide +kernel

theorem revived_row_keeps_deletionAppliedAt :
    ¬ ∀ n, Consistent ((machine (api Sample.endpoint)).sysRun
      (relocatedAndBack.map Activity.start, Sample.store) (inTurn.take n)).2.ledger := by
  intro h
  obtain ⟨row, hrow, hcols⟩ := Option.map_eq_some_iff.mp revived_row
  have hconsistent := h 170 _ row hrow
  simp only [Prod.mk.injEq] at hcols
  simp [ItemRow.Consistent, hcols.1, hcols.2] at hconsistent

end Sample

end OpenMigrate
