import OpenMigrate.Async.Watch
import OpenMigrate.Sync.Removal
import OpenMigrate.Verify.History

namespace OpenMigrate.Verify

open Async Prog PgLedger

variable {T : TargetApi}

/-- The two ways in which a copy goes, each with a queue of its own. -/
inductive Removal where
  | deletion
  | relocation
  deriving DecidableEq

namespace Removal

/-- What an owner says to leave the copy alone. -/
def keep : Removal → Resolution
  | deletion => .resolveDeletion
  | relocation => .resolveMove

def acknowledged : Removal → ItemRow → Option Instant
  | deletion, row => row.deletionAcknowledgedAt
  | relocation, row => row.moveAcknowledgedAt

def record (scope : Scope) (naturalKeyHash : String) : Removal → LedgerOp
  | deletion => .applyDeletion scope naturalKeyHash
  | relocation => .applyRelocation scope naturalKeyHash

def program (deps : ApplyDeletionDeps T) (naturalKeyHash : String) : Removal → Task T ApplyDeletionOutcome
  | deletion => applyDeletion deps naturalKeyHash
  | relocation => applyRelocation deps naturalKeyHash

end Removal

/-- What happens beside an operation: the owner's own acts on the target, and owners' words on the queues. -/
inductive Beside (T : TargetApi) where
  | target (a : T.Act)
  | resolve (key : ItemKey) (now : Instant) (r : Resolution)

def besideMachine (T : TargetApi) : Machine (World T) (Cmd T) Cmd.Resp PassError (Input T) (Beside T) where
  exec c i w := w.exec i c
  act
    | .target a, w => (machine T).act a w
    | .resolve key now r, w => ({ w.1 with ledger := (r.exec w.1.ledger now key).2 }, w.2)

/-- What has happened so far: the operation has read the row, a keep was recorded on it, the copy was removed. -/
structure Notes where
  read : Prop
  kept : Prop
  removed : Prop

section Rules

variable (kind : Removal) (scope : Scope) (key : String) (copy : T.State → Prop)

/-- An owner's keep that finds the row's entry open. -/
def RecordsKeep : Beside T → World T → Prop
  | .resolve k now r, w => k = scope.key key ∧ r = kind.keep ∧ (r.exec w.1.ledger now k).1 = true
  | _, _ => False

/-- A step that finds the copy on the target and leaves it gone. -/
def Removes (c : Cmd T) (i : Input T) (w : World T) : Prop :=
  (∃ r, c = .target r) ∧ copy w.1.target ∧ ¬ copy (w.exec i c).2.1.target

def removalWatch : Watch (World T) Notes (Cmd T) (Input T) (Beside T) where
  exec notes c i w :=
    { notes with
      read := notes.read ∨ c = .ledger (.find scope key)
      removed := notes.removed ∨ Removes copy c i w }
  act notes a w := { notes with kept := notes.kept ∨ RecordsKeep kind scope key a w }

/-- The row says that its copy was removed. -/
def OnRecord (w : World T) : Prop := ∃ row, w.row (scope.key key) = some row ∧ row.deletionAppliedAt ≠ none

def KeptRow (w : World T) : Prop := ∃ row, w.row (scope.key key) = some row ∧ kind.acknowledged row ≠ none

variable (start : World T)

/-- Before the row is read: the copy is there, and whatever was kept is on the row. -/
def Unread (y : World T × Notes) : Prop :=
  ¬ y.2.removed ∧ (y.2.kept ∨ KeptRow kind scope key start → KeptRow kind scope key y.1)

/-- Once the row is read and was not kept: if its copy is gone on record, the entry is closed as well. -/
def Held (y : World T × Notes) : Prop :=
  y.2.read ∧ ¬ (y.2.kept ∨ KeptRow kind scope key start) ∧
    ∀ row, y.1.row (scope.key key) = some row → row.deletionAppliedAt = none ∨ kind.acknowledged row ≠ none

def removalRules : Rules (World T × Notes) (Cmd T) (Input T) where
  assume c _ y := kind = .deletion → c = .ledger (.find scope key) → ¬ KeptRow kind scope key y.1
  rely y z := (Unread kind scope key start y → Unread kind scope key start z) ∧
    (Held kind scope key start y → Held kind scope key start z)
  guar c y _ := (∃ r, c = .target r) → Held kind scope key start y
  refl _ := ⟨fun h => h, fun h => h⟩
  trans h h' := ⟨fun hs => h'.1 (h.1 hs), fun hs => h'.2 (h.2 hs)⟩

end Rules

section Rows

variable {kind : Removal} {scope : Scope} {key : String}

theorem resolve_applied (r : Resolution) (now : Instant) (row : ItemRow) :
    (r.set now row).deletionAppliedAt = row.deletionAppliedAt := by
  cases r with
  | resolveFailure action => cases action <;> rfl
  | resolveMove | resolveDeletion => rfl

theorem resolve_acknowledged (r : Resolution) (now : Instant) {row : ItemRow} (h : kind.acknowledged row ≠ none) :
    kind.acknowledged (r.set now row) ≠ none := by
  cases r with
  | resolveFailure action => cases kind <;> cases action <;> exact h
  | resolveMove | resolveDeletion => cases kind <;> simp_all [Removal.acknowledged, Resolution.set]

theorem keep_opens {row : ItemRow} (h : kind.keep.open_ row = true) : kind.acknowledged row = none := by
  cases kind with
  | deletion => simp_all [Removal.keep, Resolution.open_, Removal.acknowledged]
  | relocation => simp_all [Removal.keep, Resolution.open_, Removal.acknowledged]

theorem keep_acknowledges (now : Instant) (row : ItemRow) : kind.acknowledged (kind.keep.set now row) ≠ none := by
  cases kind <;> simp [Removal.keep, Resolution.set, Removal.acknowledged]

theorem record_acknowledges (kind : Removal) (scope : Scope) (key : String) (L : Ledger) (now : Instant) (row : ItemRow) :
    (kind.record scope key).sets L now row = row ∨ kind.acknowledged ((kind.record scope key).sets L now row) ≠ none := by
  cases kind with
  | deletion =>
    simp only [Removal.record, LedgerOp.sets]
    split
    · exact .inr (by simp [Removal.acknowledged, applyDeletionValues])
    · exact .inl rfl
  | relocation =>
    simp only [Removal.record, LedgerOp.sets]
    split
    · exact .inr (by simp [Removal.acknowledged, applyRelocationValues])
    · exact .inl rfl

theorem recordsKeep_row {a : Beside T} {w : World T} (h : RecordsKeep kind scope key a w) :
    ∃ row, w.row (scope.key key) = some row ∧ kind.acknowledged row = none ∧
      KeptRow kind scope key ((besideMachine T).act a w) := by
  cases a with
  | target a => exact h.elim
  | resolve k now r =>
    obtain ⟨rfl, rfl, hrecorded⟩ := h
    unfold Resolution.exec at hrecorded
    split at hrecorded
    · rename_i row hrow
      obtain ⟨hlook, hopen⟩ := Option.filter_eq_some_iff.mp hrow
      refine ⟨row, hlook, keep_opens hopen, kind.keep.set now row, ?_, keep_acknowledges now row⟩
      simp only [besideMachine, World.row, Resolution.exec, hrow]
      simp [replace_lookup, hlook]
    · cases hrecorded

theorem keptRow_act {w : World T} (h : KeptRow kind scope key w) (a : Beside T) :
    KeptRow kind scope key ((besideMachine T).act a w) := by
  cases a with
  | target a => exact h
  | resolve k now r =>
    obtain ⟨row, hrow, hack⟩ := h
    obtain hsame | ⟨row', -, hlook, -, hset⟩ := resolve_cases r w.1.ledger now k (scope.key key)
    · exact ⟨row, hsame.trans hrow, hack⟩
    · have heq : row' = row := Option.some.inj (hlook.symm.trans hrow)
      subst heq
      exact ⟨r.set now row', hset, resolve_acknowledged r now hack⟩

variable {copy : T.State → Prop} {start : World T} {y : World T × Notes}

theorem Held.act (h : Held kind scope key start y) {a : Beside T}
    (hallowed : RecordsKeep kind scope key a y.1 → OnRecord scope key y.1) :
    Held kind scope key start (((removalWatch kind scope key copy).machine (besideMachine T)).act a y) := by
  obtain ⟨hread, hnot, hrows⟩ := h
  refine ⟨hread, ?_, ?_⟩
  · rintro ((hkept | hkeeps) | hstart)
    · exact hnot (.inl hkept)
    · obtain ⟨row, hrow, hopen, -⟩ := recordsKeep_row hkeeps
      obtain ⟨row', hrow', happlied⟩ := hallowed hkeeps
      have heq : row' = row := Option.some.inj (hrow'.symm.trans hrow)
      subst heq
      obtain hnone | hack := hrows row' hrow
      · exact happlied hnone
      · exact hack hopen
    · exact hnot (.inr hstart)
  · cases a with
    | target a => exact hrows
    | resolve k now r =>
      intro row hrow
      obtain hsame | ⟨row', -, hlook, -, hset⟩ := resolve_cases r y.1.1.ledger now k (scope.key key)
      · exact hrows row (hsame.symm.trans hrow)
      · have heq : r.set now row' = row := Option.some.inj (hset.symm.trans hrow)
        rw [← heq, resolve_applied]
        exact (hrows row' hlook).imp_right (resolve_acknowledged r now)

theorem Unread.act (h : Unread kind scope key start y) (a : Beside T) :
    Unread kind scope key start (((removalWatch kind scope key copy).machine (besideMachine T)).act a y) := by
  obtain ⟨hremoved, hkept⟩ := h
  refine ⟨hremoved, ?_⟩
  rintro ((hk | hkeeps) | hstart)
  · exact keptRow_act (hkept (.inl hk)) a
  · obtain ⟨-, -, -, hrow⟩ := recordsKeep_row hkeeps
    exact hrow
  · exact keptRow_act (hkept (.inr hstart)) a

theorem Held.exec (h : Held kind scope key start y) {c : Cmd T}
    (hc : (decisionVocabulary T (kind.record scope key)).asks c) (i : Input T) :
    Held kind scope key start (((removalWatch kind scope key copy).machine (besideMachine T)).exec c i y).2 := by
  obtain ⟨hread, hnot, hrows⟩ := h
  refine ⟨.inl hread, hnot, fun row hrow => ?_⟩
  change (y.1.exec i c).2.row (scope.key key) = some row at hrow
  cases hold : y.1.row (scope.key key) with
  | none =>
    obtain hnone | ⟨op, new, rfl, -, hins, haim, -⟩ := exec_row_none (i := i) (c := c) hold
    · rw [hnone] at hrow
      cases hrow
    · obtain rfl | hreads := hc
      · cases kind <;> cases hins
      · obtain ⟨scope', k, hw, -⟩ := haim
        rw [hreads] at hw
        cases hw
  | some old =>
    obtain ⟨-, hkept⟩ | ⟨op, rfl, -, haim, hset⟩ := exec_row_some (i := i) (c := c) hold
    · rw [hkept, Option.some.injEq] at hrow
      exact hrow ▸ hrows old hold
    · obtain rfl | hreads := hc
      · rw [hset, Option.some.injEq] at hrow
        obtain hsame | hack := record_acknowledges kind scope key y.1.1.ledger i.now old
        · rw [hsame] at hrow
          exact hrow ▸ hrows old hold
        · exact .inr (hrow ▸ hack)
      · obtain ⟨scope', k, hw, -⟩ := haim
        rw [hreads] at hw
        cases hw

end Rows

section Program

variable {kind : Removal} {deps : ApplyDeletionDeps T} {key : String}

/-- Reads the row first, and gives up, without asking for anything more, on what is not there, is gone already
or, when it is about a move, was kept. -/
def ReadsFirst (kind : Removal) (deps : ApplyDeletionDeps T) (key : String) (p : Task T ApplyDeletionOutcome) : Prop :=
  (∃ o, p = .ret o) ∨ ∃ rest : Option LedgerRecord → Task T ApplyDeletionOutcome,
    p = (Task.ledger (.find deps.scope key)).bind rest ∧ (∃ o, rest none = .ret o) ∧
      (∀ row, row.deletionAppliedAt.isSome = true → ∃ o, rest (some row) = .ret o) ∧
      (∀ row, kind = .relocation → row.moveAcknowledgedAt.isSome = true → ∃ o, rest (some row) = .ret o) ∧
      ∀ r, (Cmd.ledger (.find deps.scope key) : Cmd T).Hears (.ok r) →
        Emits (decisionVocabulary T (kind.record deps.scope key)) (rest r) (fun _ => True)

theorem applyDeletion_readsFirst : ReadsFirst .deletion deps key (applyDeletion deps key) := by
  have hasks : (decisionVocabulary T (.applyDeletion deps.scope key)).asks (.ledger (.applyDeletion deps.scope key)) :=
    .inl rfl
  have hemits := applyDeletion_emits decision_consults deps hasks
  unfold applyDeletion at hemits ⊢
  split
  · exact .inl ⟨_, rfl⟩
  split
  · exact .inl ⟨_, rfl⟩
  · rename_i hallow _ remove hremove
    refine .inr ⟨_, rfl, ⟨_, rfl⟩, fun row happlied => ?_, fun _ hkind => ?_, fun r hr => ?_⟩
    · exact ⟨alreadyApplied, if_pos (by rw [happlied, Bool.true_or])⟩
    · cases hkind
    · rw [if_neg hallow, hremove] at hemits
      exact hemits.2 (.ok r) hr

theorem applyRelocation_readsFirst : ReadsFirst .relocation deps key (applyRelocation deps key) := by
  have hasks : (decisionVocabulary T (.applyRelocation deps.scope key)).asks
      (.ledger (.applyRelocation deps.scope key)) := .inl rfl
  have hemits := applyRelocation_emits decision_consults deps hasks
  unfold applyRelocation at hemits ⊢
  split
  · exact .inl ⟨_, rfl⟩
  split
  · exact .inl ⟨_, rfl⟩
  · rename_i hallow _ remove hremove
    refine .inr ⟨_, rfl, ⟨_, rfl⟩, fun row happlied => ?_, fun row _ hkept => ?_, fun r hr => ?_⟩
    · exact ⟨alreadyApplied, if_pos (by rw [happlied, Bool.true_or])⟩
    · by_cases hgone : (row.deletionAppliedAt.isSome || row.status == some .tombstoned) = true
      · exact ⟨alreadyApplied, if_pos hgone⟩
      · have hcheck : ∃ refusal, relocationCheck deps row = .ret (some refusal) := by
          unfold relocationCheck
          exact ⟨_, if_pos hkept⟩
        obtain ⟨refusal, hcheck⟩ := hcheck
        refine ⟨refusal, ?_⟩
        change (if _ then _ else _) = _
        rw [if_neg hgone, hcheck]
        rfl
    · rw [if_neg hallow, hremove] at hemits
      exact hemits.2 (.ok r) hr

theorem program_readsFirst : ReadsFirst kind deps key (kind.program deps key) := by
  cases kind with
  | deletion => exact applyDeletion_readsFirst
  | relocation => exact applyRelocation_readsFirst

theorem program_emits : Emits (decisionVocabulary T (kind.record deps.scope key)) (kind.program deps key) (fun _ => True) := by
  cases kind with
  | deletion => exact applyDeletion_emits decision_consults deps (.inl rfl)
  | relocation => exact applyRelocation_emits decision_consults deps (.inl rfl)

variable {copy : T.State → Prop} {start : World T}

theorem readsFirst_wp {p : Task T ApplyDeletionOutcome} (hp : ReadsFirst kind deps key p) {y : World T × Notes}
    (hy : Unread kind deps.scope key start y) :
    wp (callSpec ((removalWatch kind deps.scope key copy).machine (besideMachine T))
      (removalRules kind deps.scope key start)) p (fun _ _ => True) y := by
  obtain ⟨o, rfl⟩ | ⟨rest, rfl, ⟨o, hnone⟩, happlied, hkept, hrest⟩ := hp
  · trivial
  refine wp_seq ((wp_perform _ _ _ _).mpr fun z hz i hi => ⟨?_, ?_⟩)
  · rintro ⟨r, hr⟩
    cases hr
  obtain ⟨-, hkeeps⟩ := hz.1 hy
  have hread : PgLedger.exec z.1.1.ledger i.now (.find deps.scope key) = (.ok (find z.1.1.ledger deps.scope key), z.1.1.ledger) := rfl
  have hanswer : (∃ reason, ((besideMachine T).exec (.ledger (.find deps.scope key)) i z.1) = (.error reason, z.1)) ∨
      (besideMachine T).exec (.ledger (.find deps.scope key)) i z.1 = (.ok (find z.1.1.ledger deps.scope key), z.1) := by
    obtain ⟨reason, he⟩ | he := exec_read i z.1 hread
    · exact .inl ⟨_, he⟩
    · exact .inr he
  simp only [Watch.machine]
  obtain ⟨reason, he⟩ | he := hanswer
  · rw [he]
    trivial
  rw [he]
  change wp _ (rest (find z.1.1.ledger deps.scope key)) _ _
  cases hfind : find z.1.1.ledger deps.scope key with
  | none =>
    rw [hnone]
    trivial
  | some r =>
    obtain ⟨row, hrow, rfl⟩ := Option.map_eq_some_iff.mp hfind
    obtain ⟨hlook, -⟩ := (row?_eq_some _).mp hrow
    by_cases hgone : row.deletionAppliedAt.isSome = true
    · obtain ⟨o, ho⟩ := happlied (row.mapRowToRecord (deps.scope.key key)) hgone
      rw [ho]
      trivial
    by_cases hack : kind.acknowledged row = none
    · have hnot : ¬ KeptRow kind deps.scope key z.1 := by
        rintro ⟨row', hrow', hack'⟩
        have heq : row' = row := Option.some.inj (hrow'.symm.trans hlook)
        exact hack' (heq ▸ hack)
      have hemits : Emits (decisionVocabulary T (kind.record deps.scope key))
          (rest (some (row.mapRowToRecord (deps.scope.key key)))) (fun _ => True) := hrest _ (find_eq_some _ hfind)
      have hrely : ∀ y z, Held kind deps.scope key start y → (removalRules kind deps.scope key start).rely y z →
          Held kind deps.scope key start z := fun _ _ h ho => ho.2 h
      refine wp_mono (callSpec_mono _ _) _ _ _ (fun _ _ _ => trivial) _
        (Emits.wp_of_keeps (Held kind deps.scope key start) hrely (fun c i y hc _ h => ?_) hemits ?_)
      · exact ⟨exec_hears i y.1 c, fun _ => h, h.exec hc i⟩
      · refine ⟨.inr rfl, fun hk => hnot (hkeeps hk), fun row' hrow' => .inl ?_⟩
        have heq : row' = row := Option.some.inj (hrow'.symm.trans hlook)
        rw [heq]
        simpa using hgone
    · cases kind with
      | deletion => exact absurd ⟨row, hlook, hack⟩ (hi rfl rfl)
      | relocation =>
        obtain ⟨o, ho⟩ := hkept (row.mapRowToRecord (deps.scope.key key)) rfl (Option.isSome_iff_ne_none.mpr hack)
        rw [ho]
        trivial

variable (kind deps key copy start) in
/-- What has come of one run of the operation, with whatever happens beside it: the state, and the notes. -/
def removing (choices : List (Choice (Input T) (Beside T))) :
    Conf (Cmd T) Cmd.Resp PassError ApplyDeletionOutcome × World T × Notes :=
  ((removalWatch kind deps.scope key copy).machine (besideMachine T)).run
    (.seq (Main.lift (kind.program deps key)), start, ⟨False, False, False⟩) choices

variable (kind deps key copy start) in
def removingTrace (choices : List (Choice (Input T) (Beside T))) :
    List (Event (World T × Notes) (Cmd T) (Input T) (Beside T)) :=
  ((removalWatch kind deps.scope key copy).machine (besideMachine T)).trace
    (.seq (Main.lift (kind.program deps key)), start, ⟨False, False, False⟩) choices

/-- The condition: a deletion does not read a row that was kept, and no keep is recorded between the moment
an operation reads the row and the moment the row says that its copy was removed. -/
structure Undisturbed (kind : Removal) (scope : Scope) (key : String)
    (events : List (Event (World T × Notes) (Cmd T) (Input T) (Beside T))) : Prop where
  read : kind = .deletion → ∀ th i w notes, Event.exec th (.ledger (.find scope key)) i (w, notes) ∈ events →
    ¬ KeptRow kind scope key w
  kept : ∀ a w notes, Event.act a (w, notes) ∈ events → RecordsKeep kind scope key a w → notes.read → OnRecord scope key w

/-- Some step of the run takes the copy from the target. -/
def AnyRemoves (copy : T.State → Prop) (events : List (Event (World T × Notes) (Cmd T) (Input T) (Beside T))) : Prop :=
  ∃ th c i y, Event.exec th c i y ∈ events ∧ Removes copy c i y.1

/-- Some keep is recorded on the row. -/
def AnyKeeps (kind : Removal) (scope : Scope) (key : String)
    (events : List (Event (World T × Notes) (Cmd T) (Input T) (Beside T))) : Prop :=
  ∃ a y, Event.act a y ∈ events ∧ RecordsKeep kind scope key a y.1

theorem removed_of_event {choices : List (Choice (Input T) (Beside T))} {th : Option ℕ} {c : Cmd T} {i : Input T}
    {y : World T × Notes} (hev : Event.exec th c i y ∈ removingTrace kind deps key copy start choices)
    (h : Removes copy c i y.1) : (removing kind deps key copy start choices).2.2.removed := by
  refine Machine.run_keeps_from _ (P := fun y => y.2.removed) (fun ev _ hpre => ?_) hev (.inr h)
  cases ev with
  | act a y => exact hpre
  | exec th c i y => exact .inl hpre

theorem kept_of_event {choices : List (Choice (Input T) (Beside T))} {a : Beside T} {y : World T × Notes}
    (hev : Event.act a y ∈ removingTrace kind deps key copy start choices)
    (h : RecordsKeep kind deps.scope key a y.1) : (removing kind deps key copy start choices).2.2.kept := by
  refine Machine.run_keeps_from _ (P := fun y => y.2.kept) (fun ev _ hpre => ?_) hev (.inr h)
  cases ev with
  | act a y => exact .inl hpre
  | exec th c i y => exact hpre

/-- Whatever happens beside it: an operation during which no keep is recorded removes no copy that was kept,
and no keep is recorded of a copy it has removed. -/
theorem keep_excludes_removal {choices : List (Choice (Input T) (Beside T))}
    (h : Undisturbed kind deps.scope key (removingTrace kind deps key copy start choices)) :
    ¬ (AnyRemoves copy (removingTrace kind deps key copy start choices) ∧
      (AnyKeeps kind deps.scope key (removingTrace kind deps key copy start choices) ∨ KeptRow kind deps.scope key start)) := by
  have hstart : Unread kind deps.scope key start (start, ⟨False, False, False⟩) := by
    refine ⟨fun hremoved => hremoved, ?_⟩
    rintro (hkept | hrow)
    · exact hkept.elim
    · exact hrow
  have hgood : Conf.Good ((removalWatch kind deps.scope key copy).machine (besideMachine T))
      (removalRules kind deps.scope key start) (fun _ _ => True)
      (.seq (Main.lift (kind.program deps key)), start, ⟨False, False, False⟩) :=
    (wp_lift _ _ _ _).mpr (readsFirst_wp program_readsFirst hstart)
  have hkept := (hgood.run _ _ (fun _ _ _ _ _ => trivial) choices fun ev hev => ?_).1
  · have hemits : Conf.Emits (decisionVocabulary T (kind.record deps.scope key))
        (.seq (Main.lift (kind.program deps key))) := MainEmits.lift program_emits
    have hheld : (removing kind deps key copy start choices).2.2.removed →
        Held kind deps.scope key start (removing kind deps key copy start choices).2 := by
      refine Machine.run_keeps _ (P := fun y => y.2.removed → Held kind deps.scope key start y) (fun ev hev hpre => ?_) ?_
      · cases ev with
        | act a y =>
          obtain ⟨w, notes⟩ := y
          exact fun hremoved => (hpre hremoved).act fun hkeeps => h.kept a w notes hev hkeeps (hpre hremoved).1
        | exec th c i y =>
          have hasks := hemits.trace _ (fun c i y => exec_hears i y.1 c) choices hev
          rintro (hremoved | ⟨htarget, -⟩)
          · exact (hpre hremoved).exec hasks i
          · exact Held.exec (hkept _ hev htarget) hasks i
      · exact fun hremoved => hremoved.elim
    rintro ⟨⟨th, c, i, y, hev, hremoves⟩, hkeep⟩
    obtain ⟨-, hnot, -⟩ := hheld (removed_of_event hev hremoves)
    apply hnot
    obtain ⟨a, z, hact, hkeeps⟩ | hrow := hkeep
    · exact .inl (kept_of_event hact hkeeps)
    · exact .inr hrow
  · cases ev with
    | exec th c i y =>
      obtain ⟨w, notes⟩ := y
      rintro hkind rfl
      exact h.read hkind th i w notes hev
    | act a y =>
      obtain ⟨w, notes⟩ := y
      refine ⟨fun hy => hy.act a, fun hy => hy.act fun hkeeps => ?_⟩
      exact h.kept a w notes hev hkeeps hy.1

theorem first_keeps {a : Beside T} (h : RecordsKeep kind deps.scope key a start)
    (choices : List (Choice (Input T) (Beside T))) :
    AnyKeeps kind deps.scope key (removingTrace kind deps key copy start (.act a :: choices)) :=
  ⟨a, (start, ⟨False, False, False⟩), List.mem_append_left _ (List.mem_singleton_self _), h⟩

end Program

section Sample

open Dav

/-- The file was copied, and its source has since reported it removed. -/
def Sample.reportedFile : World (api Dav.Sample.endpoint) :=
  (afterPasses [drivePass 60, drivePass 60] Dav.Sample.store, PassState.fresh _)

def Sample.onServer (server : (api Dav.Sample.endpoint).State) : Prop := (server.resources.lookup "a.txt").isSome = true

def Sample.keepAct : Choice (Input (api Dav.Sample.endpoint)) (Beside (api Dav.Sample.endpoint)) :=
  .act (.resolve (Dav.Sample.apply.scope.key driveKey) 5 .resolveDeletion)

def Sample.applySteps : List (Choice (Input (api Dav.Sample.endpoint)) (Beside (api Dav.Sample.endpoint))) :=
  List.replicate 8 (.run 0 Dav.Sample.input)

abbrev Sample.Ev := Event (World (api Dav.Sample.endpoint) × Notes) (Cmd (api Dav.Sample.endpoint))
  (Input (api Dav.Sample.endpoint)) (Beside (api Dav.Sample.endpoint))

/-- The keep comes once the deletion is through. -/
def Sample.keptAfter : List Sample.Ev :=
  removingTrace .deletion Dav.Sample.apply driveKey Sample.onServer Sample.reportedFile (Sample.applySteps ++ [Sample.keepAct])

/-- The keep is there before the deletion is asked for. -/
def Sample.keptBefore : List Sample.Ev :=
  removingTrace .deletion Dav.Sample.apply driveKey Sample.onServer Sample.reportedFile (Sample.keepAct :: Sample.applySteps)

def Sample.fileRow (w : World (api Dav.Sample.endpoint)) : Option (Option Instant × Option Instant) :=
  (w.row (Dav.Sample.apply.scope.key driveKey)).map fun row => (row.deletionAcknowledgedAt, row.deletionAppliedAt)

def Sample.rowAtRead : Sample.Ev → Option (Option (Option Instant × Option Instant))
  | .exec _ (.ledger (.find _ _)) _ (w, _) => some (Sample.fileRow w)
  | _ => none

def Sample.rowAtAct : Sample.Ev → Option (Option (Option Instant × Option Instant))
  | .act _ (w, _) => some (Sample.fileRow w)
  | _ => none

def Sample.removalOf : Sample.Ev → Option (Bool × Bool)
  | .exec _ (.target r) i (w, _) =>
    some ((w.1.target.resources.lookup "a.txt").isSome, ((w.exec i (.target r)).2.1.target.resources.lookup "a.txt").isSome)
  | _ => none

theorem Sample.removes_of_mem {evs : List Sample.Ev} (h : (true, false) ∈ evs.filterMap Sample.removalOf) :
    AnyRemoves Sample.onServer evs := by
  obtain ⟨ev, hev, hremoval⟩ := List.mem_filterMap.mp h
  cases ev with
  | act a y => cases hremoval
  | exec th c i y =>
    cases c with
    | target r =>
      obtain ⟨w, notes⟩ := y
      have hpair := Option.some.inj hremoval
      have hgone := congrArg Prod.snd hpair
      refine ⟨th, _, i, _, hev, ⟨r, rfl⟩, congrArg Prod.fst hpair, fun hon => ?_⟩
      exact absurd (hon.symm.trans hgone) (by decide)
    | _ => cases hremoval

set_option maxRecDepth 10000 in
theorem Sample.keptAfter_rows :
    Sample.keptAfter.filterMap Sample.rowAtRead = [some (none, none)] ∧
      Sample.keptAfter.filterMap Sample.rowAtAct = [some (some 1, some 1)] := by
  decide +kernel

set_option maxRecDepth 10000 in
theorem Sample.keptBefore_events :
    Sample.keptBefore.filterMap Sample.rowAtAct = [some (none, none)] ∧
      Sample.keptBefore.filterMap Sample.removalOf = [(true, true), (true, false)] := by
  decide +kernel

theorem keep_excludes_removal_after :
    ¬ (AnyRemoves Sample.onServer Sample.keptAfter ∧
      (AnyKeeps .deletion Dav.Sample.apply.scope driveKey Sample.keptAfter ∨
        KeptRow .deletion Dav.Sample.apply.scope driveKey Sample.reportedFile)) := by
  obtain ⟨hreads, hacts⟩ := Sample.keptAfter_rows
  refine keep_excludes_removal ⟨fun _ th i w notes hev => ?_, fun a w notes hev _ _ => ?_⟩
  · have hrow : Sample.fileRow w ∈ Sample.keptAfter.filterMap Sample.rowAtRead := List.mem_filterMap.mpr ⟨_, hev, rfl⟩
    rw [hreads, List.mem_singleton] at hrow
    obtain ⟨row, hlook, hcols⟩ := Option.map_eq_some_iff.mp hrow
    rintro ⟨row', hlook', hack⟩
    have heq : row' = row := Option.some.inj (hlook'.symm.trans hlook)
    rw [heq] at hack
    exact hack (congrArg Prod.fst hcols)
  · have hrow : Sample.fileRow w ∈ Sample.keptAfter.filterMap Sample.rowAtAct := List.mem_filterMap.mpr ⟨_, hev, rfl⟩
    rw [hacts, List.mem_singleton] at hrow
    obtain ⟨row, hlook, hcols⟩ := Option.map_eq_some_iff.mp hrow
    refine ⟨row, hlook, ?_⟩
    rw [show row.deletionAppliedAt = some 1 from congrArg Prod.snd hcols]
    exact Option.some_ne_none 1

/-- An owner has chosen to keep the copy, and then it is removed. -/
theorem kept_copy_removed :
    AnyRemoves Sample.onServer Sample.keptBefore ∧
      AnyKeeps .deletion Dav.Sample.apply.scope driveKey Sample.keptBefore := by
  obtain ⟨-, hremovals⟩ := Sample.keptBefore_events
  have hrecorded : (Resolution.exec Sample.reportedFile.1.ledger 5 (Dav.Sample.apply.scope.key driveKey)
      .resolveDeletion).1 = true := by decide +kernel
  constructor
  · apply Sample.removes_of_mem
    rw [hremovals]
    simp
  · have hkeeps : RecordsKeep .deletion Dav.Sample.apply.scope driveKey
        (.resolve (Dav.Sample.apply.scope.key driveKey) 5 .resolveDeletion : Beside (api Dav.Sample.endpoint))
        Sample.reportedFile := ⟨rfl, rfl, hrecorded⟩
    exact first_keeps hkeeps _

end Sample

end OpenMigrate.Verify
