import OpenMigrate.Apply.Deletion

namespace OpenMigrate

open Async

variable {T : TargetApi} {α β : Type}

inductive EvaluatedApply where
  | permitted (domain : Domain)
  | refused (refusal : ApplyDeletionOutcome)
  deriving DecidableEq

section Evaluate

variable (deps : ApplyDeletionDeps T)

/-- The ledger's gates of a deletion alone: no target, no removal. -/
def evaluateApplyDeletion (naturalKeyHash : String) : Task T EvaluatedApply :=
  if !deps.allowApplyDeletions then .ret (.refused notEnabled)
  else
    (Task.ledger (.find deps.scope naturalKeyHash)).bind fun
      | none => .ret (.refused notFound)
      | some row =>
        if row.deletionAppliedAt.isSome || row.status == some .tombstoned then .ret (.refused alreadyApplied)
        else if !positiveEvidence row then .ret (.refused (weakEvidence row))
        else
          match ownershipCheck row with
          | some refusal => .ret (.refused refusal)
          | none =>
            (massDeletionCheck deps).bind fun
              | some refusal => .ret (.refused refusal)
              | none => .ret (.permitted deps.scope.domain)

def evaluateApplyRelocation (naturalKeyHash : String) : Task T EvaluatedApply :=
  if !deps.allowApplyDeletions then .ret (.refused notEnabled)
  else
    (Task.ledger (.find deps.scope naturalKeyHash)).bind fun
      | none => .ret (.refused notFound)
      | some row =>
        if row.deletionAppliedAt.isSome || row.status == some .tombstoned then .ret (.refused alreadyApplied)
        else
          (relocationCheck deps row).bind fun
            | some refusal => .ret (.refused refusal)
            | none =>
              match ownershipCheck row with
              | some refusal => .ret (.refused refusal)
              | none =>
                (firstRefusal (massDeletionCheck deps) (massRelocationCheck deps)).bind fun
                  | some refusal => .ret (.refused refusal)
                  | none => .ret (.permitted deps.scope.domain)

end Evaluate

section AfterReads

/-- What a query answers; nothing for a statement that writes. -/
def PgLedger.answer? (L : Ledger) : (op : LedgerOp) → Option op.Resp
  | .find scope key => some (find L scope key)
  | .findBySourceRef scope ref => some (findBySourceRef L scope ref)
  | .placedItems scope => some (placedItems L scope)
  | .listMoves scope => some (listMoves L scope)
  | .listDeletions scope => some (listDeletions L scope)
  | _ => none

/-- What is left of a program once it has made its queries, up to its first command that is not one. -/
def afterReads (L : Ledger) : Task T α → Task T α
  | .ret a => .ret a
  | .fail e => .fail e
  | .call (.ledger op) k =>
    match PgLedger.answer? L op with
    | some a => afterReads L (k (.ok a))
    | none => .call (.ledger op) k
  | .call c k => .call c k

theorem exec_answer {L : Ledger} {op : LedgerOp} {a : op.Resp} (h : PgLedger.answer? L op = some a) (now : Instant) :
    PgLedger.exec L now op = (.ok a, L) := by
  cases op <;> simp only [PgLedger.answer?, Option.some.injEq, reduceCtorEq] at h <;> subst h <;> rfl

theorem afterReads_run (p : Task T α) (w : World T) : ∃ n, ∀ is : List (Input T), is.length = n →
    (∀ i ∈ is, i.fault = none) →
    (machine T).run (.seq (Main.lift p), w) (is.map (Choice.run 0)) =
      (.seq (Main.lift (afterReads w.1.ledger p)), w) := by
  induction p with
  | ret a => exact ⟨0, fun is h _ => by rw [List.eq_nil_of_length_eq_zero h]; rfl⟩
  | fail e => exact ⟨0, fun is h _ => by rw [List.eq_nil_of_length_eq_zero h]; rfl⟩
  | call c k ih =>
    have hstop : afterReads w.1.ledger (.call c k) = .call c k → ∃ n, ∀ is : List (Input T), is.length = n →
        (∀ i ∈ is, i.fault = none) →
        (machine T).run (.seq (Main.lift (.call c k)), w) (is.map (Choice.run 0)) =
          (.seq (Main.lift (afterReads w.1.ledger (.call c k))), w) := fun h =>
      ⟨0, fun is hlen _ => by rw [List.eq_nil_of_length_eq_zero hlen, h]; rfl⟩
    cases c with
    | ledger op =>
      cases ha : PgLedger.answer? w.1.ledger op with
      | none => exact hstop (by simp only [afterReads, ha])
      | some a =>
        obtain ⟨n, hn⟩ := ih (.ok a)
        refine ⟨n + 1, fun is hlen hfault => ?_⟩
        obtain ⟨i, rest, rfl⟩ := List.exists_cons_of_length_eq_add_one hlen
        have hexec : w.exec i (.ledger op) = (.ok a, w) := by
          simp [World.exec, World.query, hfault i List.mem_cons_self, exec_answer ha, Except.mapError]
        simp only [afterReads, ha, List.map_cons, Machine.run]
        rw [← hn rest (by simpa using hlen) fun j hj => hfault j (List.mem_cons_of_mem i hj)]
        simp only [Main.lift, Prog.hoist, Machine.step, machine, hexec]
    | target | cursorGet | cursorSet | modify | vars => exact hstop rfl

theorem afterReads_bind {L : Ledger} {p : Task T α} {a : α} (h : afterReads L p = .ret a) (f : α → Task T β) :
    afterReads L (p.bind f) = afterReads L (f a) := by
  induction p with
  | ret b =>
    cases h
    rfl
  | fail e => cases h
  | call c k ih =>
    cases c with
    | ledger op =>
      cases ha : PgLedger.answer? L op with
      | none => simp [afterReads, ha] at h
      | some b =>
        simp only [afterReads, ha] at h
        simpa only [Prog.bind, afterReads, ha] using ih _ h
    | target | cursorGet | cursorSet | modify | vars => cases h

theorem afterReads_query {L : Ledger} {op : LedgerOp} {a : op.Resp} (h : PgLedger.answer? L op = some a)
    (f : op.Resp → Task T β) : afterReads L ((Task.ledger op).bind f) = afterReads L (f a) := by
  refine afterReads_bind ?_ f
  simp only [Task.ledger, Prog.perform, afterReads, h]

end AfterReads

section Verdict

variable (deps : ApplyDeletionDeps T) (L : Ledger)

/-- A refusal from before anything was removed. -/
def ApplyDeletionOutcome.IsRefusal : ApplyDeletionOutcome → Prop
  | .refused code _ => code ≠ .removedNotRecorded
  | .applied _ => False

/-- A refusal of the mass breaker. -/
def ApplyDeletionOutcome.IsMass : ApplyDeletionOutcome → Prop
  | .refused code _ => code = .massDeletionSuspected ∨ code = .massRelocationSuspected
  | .applied _ => False

def pendingDeletions (scope : Scope) : ℕ :=
  ((PgLedger.listDeletions L scope).filter (fun d => d.confirmed && d.acknowledgedAt.isNone)).length

def pendingRelocations (scope : Scope) : ℕ :=
  ((PgLedger.listMoves L scope).filter (fun m => m.toNaturalKeyHash.isSome && m.acknowledgedAt.isNone)).length

/-- So many of the placed items are pending that the breaker trips. -/
def MassPending (scope : Scope) (pending : ℕ) : Prop :=
  MASS_DELETION_MIN_ITEMS ≤ (PgLedger.placedItems L scope).length ∧
    (PgLedger.placedItems L scope).length < MASS_DELETION_FRACTION * pending

/-- Neither half of the mass breaker trips. -/
def BreakerPasses (scope : Scope) : Prop :=
  ¬ MassPending L scope (pendingDeletions L scope) ∧ ¬ MassPending L scope (pendingRelocations L scope)

theorem massDeletionCheck_reads : ∃ verdict, afterReads L (massDeletionCheck deps) = .ret verdict ∧
    (∀ o ∈ verdict, o.IsRefusal) ∧ (verdict = none ↔ ¬ MassPending L deps.scope (pendingDeletions L deps.scope)) := by
  unfold MassPending pendingDeletions
  rw [massDeletionCheck, afterReads_query rfl]
  split
  · exact ⟨none, rfl, by simp, by simp; omega⟩
  · rw [afterReads_query rfl]
    dsimp only
    split
    · exact ⟨none, rfl, by simp, by simp; omega⟩
    · exact ⟨_, rfl, by simp [ApplyDeletionOutcome.IsRefusal], by simp; omega⟩

theorem massRelocationCheck_reads : ∃ verdict, afterReads L (massRelocationCheck deps) = .ret verdict ∧
    (∀ o ∈ verdict, o.IsRefusal) ∧
      (verdict = none ↔ ¬ MassPending L deps.scope (pendingRelocations L deps.scope)) := by
  unfold MassPending pendingRelocations
  rw [massRelocationCheck, afterReads_query rfl]
  split
  · exact ⟨none, rfl, by simp, by simp; omega⟩
  · rw [afterReads_query rfl]
    dsimp only
    split
    · exact ⟨none, rfl, by simp, by simp; omega⟩
    · exact ⟨_, rfl, by simp [ApplyDeletionOutcome.IsRefusal], by simp; omega⟩

theorem breaker_reads : ∃ verdict,
    afterReads L (firstRefusal (massDeletionCheck deps) (massRelocationCheck deps)) = .ret verdict ∧
      (∀ o ∈ verdict, o.IsRefusal) ∧ (verdict = none ↔ BreakerPasses L deps.scope) := by
  obtain ⟨verdict, hverdict, hrefusal, hnone⟩ := massDeletionCheck_reads deps L
  rw [firstRefusal, afterReads_bind hverdict]
  cases verdict with
  | some o => exact ⟨some o, rfl, hrefusal, iff_of_false nofun fun h => Option.some_ne_none o (hnone.mpr h.1)⟩
  | none =>
    obtain ⟨verdict', hverdict', hrefusal', hnone'⟩ := massRelocationCheck_reads deps L
    exact ⟨verdict', hverdict', hrefusal', hnone'.trans (and_iff_right (hnone.mp rfl)).symm⟩

theorem ownershipCheck_refuses {row : LedgerRecord} {o : ApplyDeletionOutcome} (h : ownershipCheck row = some o) :
    o.IsRefusal ∧ ¬ o.IsMass := by
  unfold ownershipCheck at h
  split at h
  · cases h
  · cases h
  · split_ifs at h <;> cases h <;> simp [ApplyDeletionOutcome.IsRefusal, ApplyDeletionOutcome.IsMass]

theorem arrivalCheck_refuses {row arrival : LedgerRecord} {o : ApplyDeletionOutcome}
    (h : arrivalCheck row arrival = some o) : o.IsRefusal ∧ ¬ o.IsMass := by
  unfold arrivalCheck unconfirmed at h
  split_ifs at h <;> cases h <;> simp [ApplyDeletionOutcome.IsRefusal, ApplyDeletionOutcome.IsMass]

theorem weakEvidence_refuses (row : LedgerRecord) : (weakEvidence row).IsRefusal := by
  unfold weakEvidence
  dsimp only
  split <;> simp [ApplyDeletionOutcome.IsRefusal]

/-- What a row that may be removed after a deletion has shown. -/
structure DeletionChecked (key : String) (row : LedgerRecord) : Prop where
  find : PgLedger.find L deps.scope key = some row
  unapplied : row.deletionAppliedAt = none
  evidence : positiveEvidence row = true
  ours : ownershipCheck row = none

/-- What a recorded relocation that may be acted on has shown. -/
structure Arrived (row arrival : LedgerRecord) (arrivalKey : String) : Prop where
  unkept : row.moveAcknowledgedAt = none
  moved : row.movedToNaturalKeyHash = some arrivalKey
  elsewhere : arrivalKey ≠ row.naturalKeyHash
  find : PgLedger.find L deps.scope arrivalKey = some arrival
  checked : arrivalCheck row arrival = none

/-- What a row that may be removed after a relocation has shown. -/
structure RelocationChecked (key : String) (row : LedgerRecord) : Prop where
  find : PgLedger.find L deps.scope key = some row
  unapplied : row.deletionAppliedAt = none
  ours : ownershipCheck row = none
  arrived : ∃ arrival arrivalKey, Arrived deps L row arrival arrivalKey

/-- Which refusal it is, its code tells; the text, which is long, is not looked at. -/
theorem refuses_of_code {code : ApplyRefusal} {reason : String} (hcode : code ≠ .removedNotRecorded)
    (hmass : ¬ (code = .massDeletionSuspected ∨ code = .massRelocationSuspected)) :
    ∀ o ∈ some (ApplyDeletionOutcome.refused code reason), o.IsRefusal ∧ ¬ o.IsMass := by
  rintro o ⟨⟩
  exact ⟨hcode, hmass⟩

theorem relocationCheck_reads (row : LedgerRecord) :
    ∃ verdict, afterReads L (relocationCheck deps row) = .ret verdict ∧ (∀ o ∈ verdict, o.IsRefusal ∧ ¬ o.IsMass) ∧
      (verdict = none → ∃ arrival arrivalKey, Arrived deps L row arrival arrivalKey) := by
  unfold relocationCheck
  split
  · exact ⟨_, rfl, refuses_of_code (by decide) (by decide), by rintro ⟨⟩⟩
  rename_i hunkept
  split
  · exact ⟨_, rfl, refuses_of_code (by decide) (by decide), by rintro ⟨⟩⟩
  rename_i hself
  split
  · exact ⟨_, rfl, refuses_of_code (by decide) (by decide), by rintro ⟨⟩⟩
  rename_i arrivalKey hkey
  have hmoved : row.movedToNaturalKeyHash = some arrivalKey := (Option.filter_eq_some_iff.mp hkey).1
  rw [afterReads_query rfl]
  cases harrival : PgLedger.find L deps.scope arrivalKey with
  | none =>
    exact ⟨_, rfl, refuses_of_code (by decide) (by decide), by rintro ⟨⟩⟩
  | some arrival =>
    dsimp only
    split
    · rename_i refusal hrefusal
      exact ⟨some refusal, rfl, by simpa using arrivalCheck_refuses hrefusal, by simp⟩
    · rename_i hchecked
      rw [afterReads_query rfl]
      split
      · exact ⟨_, rfl, refuses_of_code (by decide) (by decide), by rintro ⟨⟩⟩
      · refine ⟨none, rfl, by simp, fun _ => ⟨arrival, arrivalKey, by simpa using hunkept, hmoved, ?_, harrival, hchecked⟩⟩
        rintro rfl
        exact hself hmoved

/-- A dry run and an apply that read one verdict off the ledger: the same refusal, or leave to go on,
where what is left of the apply does what `acts` says. -/
def SameVerdict (domain : Domain) (acts : Task T ApplyDeletionOutcome → Prop) (dry : Task T EvaluatedApply)
    (apply : Task T ApplyDeletionOutcome) : Prop :=
  (∃ o : ApplyDeletionOutcome, o.IsRefusal ∧ afterReads L dry = .ret (.refused o) ∧ afterReads L apply = .ret o) ∨
    afterReads L dry = .ret (.permitted domain) ∧ acts (afterReads L apply)

variable {acts : Task T ApplyDeletionOutcome → Prop} {remove : String → Option String → Option String → Task T RemovalResult}

theorem deletion_sameVerdict (hremove : deps.removeItem = some remove)
    (key : String) (hacts : ∀ row notRecorded, DeletionChecked deps L key row → acts (afterReads L
      (removeAndRecord deps remove row (Task.ledger (.applyDeletion deps.scope key)) notRecorded))) :
    SameVerdict L deps.scope.domain acts (evaluateApplyDeletion deps key) (applyDeletion deps key) := by
  unfold SameVerdict evaluateApplyDeletion applyDeletion
  rw [hremove]
  split
  · exact .inl ⟨notEnabled, by simp [notEnabled, ApplyDeletionOutcome.IsRefusal], rfl, rfl⟩
  rw [afterReads_query rfl, afterReads_query rfl]
  cases hfind : PgLedger.find L deps.scope key with
  | none => exact .inl ⟨notFound, by simp [notFound, ApplyDeletionOutcome.IsRefusal], rfl, rfl⟩
  | some row =>
  dsimp only
  split
  · exact .inl ⟨alreadyApplied, by simp [alreadyApplied, ApplyDeletionOutcome.IsRefusal], rfl, rfl⟩
  rename_i hlive
  rw [Bool.or_eq_true, not_or, Option.isSome_iff_ne_none, not_not] at hlive
  split
  · exact .inl ⟨weakEvidence row, weakEvidence_refuses row, rfl, rfl⟩
  rename_i hevidence
  cases howner : ownershipCheck row with
  | some refusal => exact .inl ⟨refusal, (ownershipCheck_refuses howner).1, rfl, rfl⟩
  | none =>
  dsimp only
  obtain ⟨verdict, hverdict, hrefusal, -⟩ := massDeletionCheck_reads deps L
  rw [afterReads_bind hverdict, afterReads_bind hverdict]
  cases verdict with
  | some refusal => exact .inl ⟨refusal, hrefusal refusal rfl, rfl, rfl⟩
  | none => exact .inr ⟨rfl, hacts row _ ⟨hfind, hlive.1, by simpa using hevidence, howner⟩⟩

theorem relocation_reads (hremove : deps.removeItem = some remove) (key : String) :
    (∃ o : ApplyDeletionOutcome, o.IsRefusal ∧ (BreakerPasses L deps.scope → ¬ o.IsMass) ∧
      afterReads L (evaluateApplyRelocation deps key) = .ret (.refused o) ∧
      afterReads L (applyRelocation deps key) = .ret o) ∨
    afterReads L (evaluateApplyRelocation deps key) = .ret (.permitted deps.scope.domain) ∧
      ∃ row notRecorded, RelocationChecked deps L key row ∧ afterReads L (applyRelocation deps key) =
        afterReads L (confirmArrival deps row
          (removeAndRecord deps remove row (Task.ledger (.applyRelocation deps.scope key)) notRecorded)) := by
  unfold evaluateApplyRelocation applyRelocation
  rw [hremove]
  split
  · exact .inl ⟨notEnabled, by simp [notEnabled, ApplyDeletionOutcome.IsRefusal],
      by simp [notEnabled, ApplyDeletionOutcome.IsMass], rfl, rfl⟩
  rw [afterReads_query rfl, afterReads_query rfl]
  cases hfind : PgLedger.find L deps.scope key with
  | none =>
    exact .inl ⟨notFound, by simp [notFound, ApplyDeletionOutcome.IsRefusal],
      by simp [notFound, ApplyDeletionOutcome.IsMass], rfl, rfl⟩
  | some row =>
  dsimp only
  split
  · exact .inl ⟨alreadyApplied, by simp [alreadyApplied, ApplyDeletionOutcome.IsRefusal],
      by simp [alreadyApplied, ApplyDeletionOutcome.IsMass], rfl, rfl⟩
  rename_i hlive
  rw [Bool.or_eq_true, not_or, Option.isSome_iff_ne_none, not_not] at hlive
  obtain ⟨checked, hchecked, hrefused, hpassed⟩ := relocationCheck_reads deps L row
  rw [afterReads_bind hchecked, afterReads_bind hchecked]
  cases checked with
  | some refusal => exact .inl ⟨refusal, (hrefused refusal rfl).1, fun _ => (hrefused refusal rfl).2, rfl, rfl⟩
  | none =>
  dsimp only
  cases howner : ownershipCheck row with
  | some refusal =>
    exact .inl ⟨refusal, (ownershipCheck_refuses howner).1, fun _ => (ownershipCheck_refuses howner).2, rfl, rfl⟩
  | none =>
  dsimp only
  obtain ⟨verdict, hverdict, hrefusal, hcalm⟩ := breaker_reads deps L
  rw [afterReads_bind hverdict, afterReads_bind hverdict]
  cases verdict with
  | some refusal =>
    exact .inl ⟨refusal, hrefusal refusal rfl, fun h => absurd (hcalm.mpr h) (Option.some_ne_none refusal), rfl, rfl⟩
  | none => exact .inr ⟨rfl, row, _, ⟨hfind, hlive.1, howner, hpassed rfl⟩, rfl⟩

theorem relocation_sameVerdict (hremove : deps.removeItem = some remove)
    (key : String) (hacts : ∀ row notRecorded, RelocationChecked deps L key row → acts (afterReads L
      (confirmArrival deps row
        (removeAndRecord deps remove row (Task.ledger (.applyRelocation deps.scope key)) notRecorded)))) :
    SameVerdict L deps.scope.domain acts (evaluateApplyRelocation deps key) (applyRelocation deps key) := by
  obtain ⟨o, hrefusal, -, hdry, happly⟩ | ⟨hdry, row, notRecorded, hchecked, happly⟩ :=
    relocation_reads deps L hremove key
  · exact .inl ⟨o, hrefusal, hdry, happly⟩
  · exact .inr ⟨hdry, happly ▸ hacts row notRecorded hchecked⟩

theorem sameVerdict_iff {domain : Domain} {dry : Task T EvaluatedApply} {apply : Task T ApplyDeletionOutcome}
    (h : SameVerdict L domain acts dry apply) (hacts : ∀ o, ¬ acts (.ret o)) :
    (∀ code reason, afterReads L dry = .ret (.refused (.refused code reason)) ↔
        afterReads L apply = .ret (.refused code reason)) ∧
      (afterReads L dry = .ret (.permitted domain) ↔ acts (afterReads L apply)) := by
  obtain ⟨o, -, hdry, happly⟩ | ⟨hdry, happly⟩ := h
  · refine ⟨fun code reason => ?_, ?_⟩
    · rw [hdry, happly]
      constructor
      · intro he
        cases he
        rfl
      · intro he
        cases he
        rfl
    · rw [hdry, happly]
      constructor
      · intro he
        cases he
      · intro he
        exact absurd he (hacts o)
  · refine ⟨fun code reason => ?_, iff_of_true hdry happly⟩
    rw [hdry]
    constructor
    · intro he
      cases he
    · intro he
      rw [he] at happly
      exact absurd happly (hacts _)

end Verdict

section Ports

/-- The calls of a target, as the apply path makes them. -/
inductive PortCmd where
  | removeItem (targetId : String) (expectedTargetVersion collection : Option String)
  | hasItem (targetId : String) (collection : Option String)

def portApi : TargetApi where
  State := Unit
  Session := Unit
  Cmd := PortCmd
  Resp
    | .removeItem .. => RemovalResult
    | .hasItem .. => Bool
  Inp := Except String RemovalResult × Except String Bool
  Act := Empty
  exec
    | .removeItem .., i, s => (i.1, s)
    | .hasItem .., i, s => (i.2, s)
  act a := a.elim
  fresh := ()

def callRemoveItem (targetId : String) (expectedTargetVersion collection : Option String) : Task portApi RemovalResult :=
  Prog.perform (Cmd.target (PortCmd.removeItem targetId expectedTargetVersion collection) : Cmd portApi)

def callHasItem (targetId : String) (collection : Option String) : Task portApi Bool :=
  Prog.perform (Cmd.target (PortCmd.hasItem targetId collection) : Cmd portApi)

def portDeps (scope : Scope) (allowApplyDeletions : Bool) (targetFolderPrefix : Option String) (confirms : Bool) :
    ApplyDeletionDeps portApi where
  scope := scope
  allowApplyDeletions := allowApplyDeletions
  targetFolderPrefix := targetFolderPrefix
  removeItem := some callRemoveItem
  hasItem := if confirms then some callHasItem else none
  removeItem_asks := by
    rintro f ⟨⟩ id version collection
    exact (Emits.perform (V := targetVocabulary) _ _).mpr ⟨trivial, fun _ _ => trivial⟩
  hasItem_asks := by
    intro f hf id collection
    split at hf
    · cases hf
      exact (Emits.perform (V := targetVocabulary) _ _).mpr ⟨trivial, fun _ _ => trivial⟩
    · cases hf

def CallsRemoveItem (p : Task portApi ApplyDeletionOutcome) : Prop :=
  ∃ id version collection k, p = .call (.target (PortCmd.removeItem id version collection)) k

def CallsHasItem (p : Task portApi ApplyDeletionOutcome) : Prop :=
  ∃ id collection k, p = .call (.target (PortCmd.hasItem id collection)) k

/-- For every ledger, mapping, key and flag, a dry run refuses as the apply refuses, with the same code and
the same words, before the target is touched; and it permits exactly what the apply goes on to ask of the target. -/
theorem evaluate_agrees_with_apply (L : Ledger) (scope : Scope) (allow : Bool) (targetFolderPrefix : Option String)
    (confirms : Bool) (key : String) :
    ((∀ code reason,
        afterReads L (evaluateApplyDeletion (portDeps scope allow targetFolderPrefix confirms) key) =
            .ret (.refused (.refused code reason)) ↔
          afterReads L (applyDeletion (portDeps scope allow targetFolderPrefix confirms) key) =
            .ret (.refused code reason)) ∧
      (afterReads L (evaluateApplyDeletion (portDeps scope allow targetFolderPrefix confirms) key) =
          .ret (.permitted scope.domain) ↔
        CallsRemoveItem (afterReads L (applyDeletion (portDeps scope allow targetFolderPrefix confirms) key)))) ∧
    (∀ code reason,
        afterReads L (evaluateApplyRelocation (portDeps scope allow targetFolderPrefix true) key) =
            .ret (.refused (.refused code reason)) ↔
          afterReads L (applyRelocation (portDeps scope allow targetFolderPrefix true) key) =
            .ret (.refused code reason)) ∧
      (afterReads L (evaluateApplyRelocation (portDeps scope allow targetFolderPrefix true) key) =
          .ret (.permitted scope.domain) ↔
        CallsHasItem (afterReads L (applyRelocation (portDeps scope allow targetFolderPrefix true) key))) := by
  constructor
  · refine sameVerdict_iff L (deletion_sameVerdict (portDeps scope allow targetFolderPrefix confirms) L rfl key ?_) ?_
    · exact fun row notRecorded _ => ⟨_, _, _, _, rfl⟩
    · rintro o ⟨_, _, _, _, h⟩
      cases h
  · refine sameVerdict_iff L (relocation_sameVerdict (portDeps scope allow targetFolderPrefix true) L rfl key ?_) ?_
    · intro row notRecorded hchecked
      obtain ⟨arrival, arrivalKey, harrived⟩ := hchecked.arrived
      rw [confirmArrival, afterReads_query rfl, harrived.moved, Option.getD_some, harrived.find]
      exact ⟨_, _, _, rfl⟩
    · rintro o ⟨_, _, _, h⟩
      cases h

end Ports

end OpenMigrate
