import OpenMigrate.Apply.Evaluate
import OpenMigrate.Sync.Rules

namespace OpenMigrate

open Async Prog PgLedger

variable {T : TargetApi} {α : Type}

/-- How many rows the conditional UPDATE of an apply matches. -/
def LedgerOp.matched (L : Ledger) : LedgerOp → Option ℕ
  | .applyDeletion scope key => some ((rows L scope).countP fun e => e.1 == key && deletable e.2)
  | .applyRelocation scope key => some ((rows L scope).countP fun e => e.1 == key && relocatable L scope key e.2)
  | _ => none

/-- Nobody else changes the ledger; every conditional UPDATE hits one row. -/
def undisturbed (T : TargetApi) : Rules (World T) (Cmd T) (Input T) where
  assume _ _ _ := True
  rely s t := t.1.ledger = s.1.ledger
  guar c s _ := ∀ op n, c = .ledger op → op.matched s.1.ledger = some n → n = 1
  refl _ := rfl
  trans h h' := h'.trans h

section Match

variable {L : Ledger} {scope : Scope} {key : String}

theorem rows_keys_nodup (L : Ledger) (scope : Scope) : ((rows L scope).map (·.1)).Nodup := by
  have hkeys : (L.entries.map (·.1)).Nodup := L.nodupKeys
  unfold rows
  generalize L.entries = l at hkeys ⊢
  induction l with
  | nil => exact List.nodup_nil
  | cons e l ih =>
    rw [List.map_cons, List.nodup_cons] at hkeys
    rw [List.filterMap_cons]
    split
    · exact ih hkeys.2
    · rename_i b hb
      rw [List.map_cons, List.nodup_cons]
      refine ⟨fun hmem => hkeys.1 ?_, ih hkeys.2⟩
      -- an entry of the same scope with the same hash has the same key
      obtain ⟨b', hb', heq⟩ := List.mem_map.mp hmem
      obtain ⟨e', he', hif⟩ := List.mem_filterMap.mp hb'
      split at hb
      · split at hif
        · rename_i hin hin'
          cases hb
          cases hif
          have hkey : e'.1 = e.1 := by
            obtain ⟨⟨t, m, k⟩, row⟩ := e
            obtain ⟨⟨t', m', k'⟩, row'⟩ := e'
            simp only at hin hin' heq ⊢
            rw [hin.1, hin.2.1, hin'.1, hin'.2.1, heq]
          exact List.mem_map.mpr ⟨e', he', hkey⟩
        · cases hif
      · cases hb

theorem countP_key {row : ItemRow} (hrow : row? L scope key = some row) {p : ItemRow → Bool} (hp : p row = true) :
    (rows L scope).countP (fun e => e.1 == key && p e.2) = 1 := by
  have hmem := (mem_rows L).mpr hrow
  have hnodup := rows_keys_nodup L scope
  generalize rows L scope = l at hmem hnodup
  induction l with
  | nil => cases hmem
  | cons e l ih =>
    rw [List.map_cons, List.nodup_cons] at hnodup
    rw [List.countP_cons]
    obtain rfl | hmem := List.mem_cons.mp hmem
    · have hrest : l.countP (fun e => e.1 == key && p e.2) = 0 := by
        rw [List.countP_eq_zero]
        intro e he hand
        simp only [Bool.and_eq_true, beq_iff_eq] at hand
        exact hnodup.1 (List.mem_map.mpr ⟨e, he, hand.1⟩)
      simp [hrest, hp]
    · have hne : e.1 ≠ key := fun h => hnodup.1 (List.mem_map.mpr ⟨(key, row), hmem, h.symm⟩)
      simp [ih hmem hnodup.2, hne]

theorem update_hits {row : ItemRow} (hrow : row? L scope key = some row) {w : ItemRow → Bool} (hw : w row = true)
    (f : ItemRow → ItemRow) : (update L scope key w f).1.isSome = true := by
  simp [update, hrow, hw, Option.filter]

theorem ours_of_check {row : LedgerRecord} (h : ownershipCheck row = none) :
    row.status = some .copied ∨ row.status = some .updated := by
  unfold ownershipCheck at h
  split at h
  · exact .inl ‹_›
  · exact .inr ‹_›
  · split_ifs at h

theorem find_row {r : LedgerRecord} (h : find L scope key = some r) :
    ∃ row, row? L scope key = some row ∧ r = row.mapRowToRecord (scope.key key) := by
  obtain ⟨row, hrow, rfl⟩ := Option.map_eq_some_iff.mp h
  exact ⟨row, hrow, rfl⟩

theorem ours_row {row : ItemRow} {k : ItemKey} (h : ownershipCheck (row.mapRowToRecord k) = none) :
    ours row = true := by
  obtain h | h := ours_of_check h <;> simp only [ItemRow.mapRowToRecord, Option.some.injEq] at h <;> simp [ours, h]

variable {deps : ApplyDeletionDeps T}

theorem deletable_of_checked {r : LedgerRecord} (h : DeletionChecked deps L key r) :
    ∃ row, row? L deps.scope key = some row ∧ deletable row = true := by
  obtain ⟨row, hrow, rfl⟩ := find_row h.find
  refine ⟨row, hrow, ?_⟩
  have hevidence : (row.deletionReportedAt.isSome || row.deletionTrashedAt.isSome) = true := h.evidence
  have hunapplied : row.deletionAppliedAt = none := h.unapplied
  simp [deletable, hevidence, hunapplied, ours_row h.ours]

theorem arrivalCheck_none {row arrival : LedgerRecord} (h : arrivalCheck row arrival = none) :
    (arrival.status = some .copied ∨ arrival.status = some .updated) ∧ row.contentHash ≠ "" ∧
      arrival.contentHash = row.contentHash := by
  unfold arrivalCheck unconfirmed at h
  split_ifs at h with hstatus hid hhash hsame
  refine ⟨?_, ?_, not_not.mp hsame⟩
  · by_contra hno
    exact hstatus (not_or.mp hno)
  · exact fun he => hhash (.inl he)

theorem relocatable_of_checked {r : LedgerRecord} (h : RelocationChecked deps L key r) :
    ∃ row, row? L deps.scope key = some row ∧ relocatable L deps.scope key row = true := by
  obtain ⟨row, hrow, rfl⟩ := find_row h.find
  refine ⟨row, hrow, ?_⟩
  obtain ⟨arrival, arrivalKey, harrived⟩ := h.arrived
  obtain ⟨arrivalRow, harrivalRow, rfl⟩ := find_row harrived.find
  obtain ⟨hstatus, hhash, hsame⟩ := arrivalCheck_none harrived.checked
  have hmoved : row.movedToNaturalKeyHash = some arrivalKey := (Option.filter_eq_some_iff.mp harrived.moved).1
  have hunkept : row.moveAcknowledgedAt = none := harrived.unkept
  have hunapplied : row.deletionAppliedAt = none := h.unapplied
  have hne : arrivalKey ≠ key := harrived.elsewhere
  have hours : ours arrivalRow = true := by
    obtain h | h := hstatus <;> simp only [ItemRow.mapRowToRecord, Option.some.injEq] at h <;> simp [ours, h]
  have harrives : arrived L deps.scope key row = true := by
    refine List.any_eq_true.mpr ⟨(arrivalKey, arrivalRow), (mem_rows L).mpr harrivalRow, ?_⟩
    have hhash' : row.contentHash ≠ "" := hhash
    have hsame' : arrivalRow.contentHash = row.contentHash := hsame
    simp [hmoved, hne, hours, hsame', hhash']
  simp [relocatable, hmoved, hunkept, hunapplied, ours_row h.ours, harrives]

end Match

section Raises

def Cmd.isLedger : Cmd T → Bool
  | .ledger _ => true
  | _ => false

/-- Once the database has raised, no further command is given. -/
def raiseSpec : Spec Bool (Cmd T) Cmd.Resp PassError := fun c K raised =>
  raised = false ∧ (∀ a, K (.ok a) false) ∧ ∀ e, K (.error e) c.isLedger

/-- A program that lets what the database raises through. -/
def Raises (p : Task T α) : Prop := wp raiseSpec p (fun r raised => raised = true → ∃ e, r = .error e) false

theorem raiseSpec_mono : Spec.Mono (raiseSpec (T := T)) := by
  intro c K K' s hK h
  exact ⟨h.1, fun a => hK _ _ (h.2.1 a), fun e => hK _ _ (h.2.2 e)⟩

namespace Raises

theorem ret (a : α) : Raises (.ret a : Task T α) := by
  intro h
  cases h

theorem fail (e : PassError) : Raises (.fail e : Task T α) := fun _ => ⟨e, rfl⟩

theorem ledger (op : LedgerOp) : Raises (Task.ledger op : Task T op.Resp) := by
  refine (wp_perform _ _ _ _).mpr ⟨rfl, fun a h => ?_, fun e _ => ⟨e, rfl⟩⟩
  cases h

theorem bind {p : Task T α} {f : α → Task T β} (hp : Raises p) (hf : ∀ a, Raises (f a)) : Raises (p.bind f) := by
  refine wp_seq (wp_mono raiseSpec_mono p _ _ ?_ false hp)
  intro r raised h
  cases r with
  | error e => exact fun _ => ⟨e, rfl⟩
  | ok a =>
    cases raised with
    | false => exact hf a
    | true =>
      obtain ⟨e, he⟩ := h rfl
      cases he

theorem target {p : Task T α} (h : Emits targetVocabulary p (fun _ => True)) : Raises p := by
  induction p with
  | ret a => exact ret a
  | fail e => exact fail e
  | call c k ih =>
    cases c with
    | target c => exact ⟨rfl, fun a => ih _ (h.2 _ trivial), fun e => ih _ (h.2 _ trivial)⟩
    | _ => exact h.1.elim

theorem error {op : LedgerOp} {k : Except PassError op.Resp → Task T α} (h : Raises (.call (.ledger op) k))
    (e : PassError) : ∃ e', k (.error e) = .fail e' := by
  have hk : wp raiseSpec (k (.error e)) (fun r raised => raised = true → ∃ e, r = .error e) true := h.2.2 e
  cases hp : k (.error e) with
  | ret a =>
    rw [hp] at hk
    obtain ⟨e', he⟩ := hk rfl
    cases he
  | fail e' => exact ⟨e', rfl⟩
  | call c k' =>
    rw [hp] at hk
    exact absurd hk.1 (by simp)

theorem massDeletionCheck (deps : ApplyDeletionDeps T) : Raises (massDeletionCheck deps) := by
  refine (ledger _).bind fun placed => ?_
  split
  · exact ret none
  · refine (ledger _).bind fun deletions => ?_
    dsimp only
    split <;> exact ret _

theorem massRelocationCheck (deps : ApplyDeletionDeps T) : Raises (massRelocationCheck deps) := by
  refine (ledger _).bind fun placed => ?_
  split
  · exact ret none
  · refine (ledger _).bind fun moves => ?_
    dsimp only
    split <;> exact ret _

theorem firstRefusal {a b : Task T (Option ApplyDeletionOutcome)} (ha : Raises a) (hb : Raises b) :
    Raises (firstRefusal a b) := by
  refine ha.bind fun verdict => ?_
  cases verdict with
  | none => exact hb
  | some refusal => exact ret _

theorem relocationCheck (deps : ApplyDeletionDeps T) (row : LedgerRecord) : Raises (relocationCheck deps row) := by
  unfold OpenMigrate.relocationCheck
  split
  · exact ret _
  split
  · exact ret _
  split
  · exact ret _
  · refine (ledger _).bind fun arrival => ?_
    cases arrival with
    | none => exact ret _
    | some arrival =>
      dsimp only
      split
      · exact ret _
      · refine (ledger _).bind fun placed => ?_
        split <;> exact ret _

variable {deps : ApplyDeletionDeps T} {remove : String → Option String → Option String → Task T RemovalResult}

theorem removeAndRecord (hremove : deps.removeItem = some remove) (row : LedgerRecord) {record : Task T Bool}
    (hrecord : Raises record) (notRecorded : String) : Raises (removeAndRecord deps remove row record notRecorded) := by
  refine (target (deps.removeItem_asks remove hremove _ _ _)).bind fun removal => ?_
  split
  · exact ret _
  split
  · exact ret _
  · exact hrecord.bind fun recorded => ret _

theorem confirmArrival (row : LedgerRecord) {proceed : Task T ApplyDeletionOutcome} (hproceed : Raises proceed) :
    Raises (confirmArrival deps row proceed) := by
  refine (ledger _).bind fun arrivalRow => ?_
  split
  · exact ret _
  · exact fail _
  · rename_i hasItem arrival hhas
    refine (target (deps.hasItem_asks hasItem hhas _ _)).bind fun present => ?_
    split
    · exact ret _
    · exact hproceed

theorem applyDeletion (key : String) : Raises (applyDeletion deps key) := by
  unfold OpenMigrate.applyDeletion
  split
  · exact ret _
  split
  · exact ret _
  rename_i remove hremove
  refine (ledger _).bind fun found => ?_
  cases found with
  | none => exact ret _
  | some row =>
    dsimp only
    split
    · exact ret _
    split
    · exact ret _
    split
    · exact ret _
    · refine (massDeletionCheck deps).bind fun verdict => ?_
      cases verdict with
      | some refusal => exact ret _
      | none => exact removeAndRecord hremove row (ledger _) _

theorem applyRelocation (key : String) : Raises (applyRelocation deps key) := by
  unfold OpenMigrate.applyRelocation
  split
  · exact ret _
  split
  · exact ret _
  rename_i remove hremove
  refine (ledger _).bind fun found => ?_
  cases found with
  | none => exact ret _
  | some row =>
    dsimp only
    split
    · exact ret _
    refine (relocationCheck deps row).bind fun checked => ?_
    cases checked with
    | some refusal => exact ret _
    | none =>
      dsimp only
      split
      · exact ret _
      · refine (firstRefusal (massDeletionCheck deps) (massRelocationCheck deps)).bind fun verdict => ?_
        cases verdict with
        | some refusal => exact ret _
        | none => exact confirmArrival row (removeAndRecord hremove row (ledger _) _)

end Raises

end Raises

section Run

/-- No outcome that says a removal went unrecorded. -/
def Recorded (r : Except PassError ApplyDeletionOutcome) : Prop :=
  ∀ reason, r ≠ .ok (.refused .removedNotRecorded reason)

theorem Recorded.of_refusal {o : ApplyDeletionOutcome} (h : o.IsRefusal) : Recorded (.ok o) := by
  rintro reason ⟨⟩
  exact h rfl

theorem Recorded.error (e : PassError) : Recorded (.error e) := by
  rintro reason ⟨⟩

/-- Rules under which nobody else changes the ledger, and which a query or a call of the target keeps. -/
structure LedgerToItself (Γ : Rules (World T) (Cmd T) (Input T)) : Prop where
  rely : ∀ s t, Γ.rely s t ↔ t.1.ledger = s.1.ledger
  query : ∀ op a s t, answer? s.1.ledger op = some a → Γ.guar (.ledger op) s t
  target : ∀ c s t, t.1.ledger = s.1.ledger → Γ.guar (.target c) s t

theorem undisturbed_alone : LedgerToItself (undisturbed T) where
  rely _ _ := Iff.rfl
  query := by
    rintro op a s t ha op' n ⟨⟩ hm
    cases op <;> simp [LedgerOp.matched, answer?] at hm ha
  target := by
    rintro c s t - op n ⟨⟩

theorem LedgerToItself.free {Γ : Rules (World T) (Cmd T) (Input T)} (hΓ : LedgerToItself Γ) : LedgerToItself Γ.free where
  rely := hΓ.rely
  query _ _ _ _ _ := trivial
  target _ _ _ _ := trivial

variable {Γ : Rules (World T) (Cmd T) (Input T)}

/-- As long as nobody changes the ledger, a program may be judged by what is left after its queries. -/
theorem wp_afterReads (hΓ : LedgerToItself Γ) {Q : Except PassError α → World T → Prop} {p : Task T α}
    (hp : Raises p) {s : World T} (hQ : ∀ e t, t.1.ledger = s.1.ledger → Q (.error e) t)
    (h : ∀ t : World T, t.1.ledger = s.1.ledger → wp (callSpec (machine T) Γ) (afterReads s.1.ledger p) Q t) :
    wp (callSpec (machine T) Γ) p Q s := by
  induction p generalizing s with
  | ret a => exact h s rfl
  | fail e => exact h s rfl
  | call c k ih =>
    cases c with
    | ledger op =>
      cases ha : answer? s.1.ledger op with
      | none =>
        simp only [afterReads, ha] at h
        exact h s rfl
      | some a =>
        simp only [afterReads, ha] at h
        intro t ht i _
        have hledger : t.1.ledger = s.1.ledger := (hΓ.rely s t).mp ht
        rw [← hledger] at ha
        have hread : PgLedger.exec t.1.ledger i.now op = (.ok a, t.1.ledger) := exec_answer ha _
        refine ⟨hΓ.query op a t _ ha, ?_⟩
        change wp _ (k (t.exec i (.ledger op)).1) Q (t.exec i (.ledger op)).2
        obtain ⟨reason, he⟩ | he := exec_read i t hread
        · obtain ⟨e, hk⟩ := hp.error (.error reason)
          rw [he, hk]
          exact hQ e t hledger
        · rw [he]
          refine ih _ (hp.2.1 a) (fun e u hu => hQ e u (hu.trans hledger)) fun u hu => ?_
          rw [hledger]
          exact h u (hu.trans hledger)
    | target | cursorGet | cursorSet | modify | vars => exact h s rfl

theorem target_wp (hΓ : LedgerToItself Γ) {Q : Except PassError α → World T → Prop} {p : Task T α}
    (hp : Emits targetVocabulary p (fun _ => True)) {s : World T} (h : ∀ r t, t.1.ledger = s.1.ledger → Q r t) :
    wp (callSpec (machine T) Γ) p Q s := by
  have hrun : wp (callSpec (machine T) Γ) p (fun _ t => True ∧ t.1.ledger = s.1.ledger) s := by
    refine Emits.wp (fun w : World T => w.1.ledger = s.1.ledger) (fun c i w => exec_hears i w c)
      (fun _ _ hs ht => ((hΓ.rely _ _).mp ht).trans hs) ?_ hp rfl
    intro c i w hc _ hw
    cases c with
    | target c => exact ⟨hΓ.target c w _ rfl, hw⟩
    | _ => exact hc.elim
  exact wp_mono (callSpec_mono _ _) _ _ _ (fun r t ht => h r t ht.2) s hrun

variable {deps : ApplyDeletionDeps T} {remove : String → Option String → Option String → Task T RemovalResult}

/-- What an apply answers once the ledger has, or has not, recorded the removal. -/
def recordedOutcome (kind : RemovalKind) (notRecorded : String) : Except PassError Bool → Except PassError ApplyDeletionOutcome
  | .ok true => .ok (.applied kind)
  | .ok false => .ok (.refused .removedNotRecorded notRecorded)
  | .error e => .error e

theorem removeAndRecord_wp (hΓ : LedgerToItself Γ) (hremove : deps.removeItem = some remove) (row : LedgerRecord)
    {record : Task T Bool} (notRecorded : String) {Q : Except PassError ApplyDeletionOutcome → World T → Prop} {s : World T}
    (hrefused : ∀ (o : ApplyDeletionOutcome) t, t.1.ledger = s.1.ledger → o.IsRefusal → ¬ o.IsMass → Q (.ok o) t)
    (herror : ∀ e t, t.1.ledger = s.1.ledger → Q (.error e) t)
    (hrecord : ∀ kind, ∀ t : World T, t.1.ledger = s.1.ledger →
      wp (callSpec (machine T) Γ) record (fun r u => Q (recordedOutcome kind notRecorded r) u) t) :
    wp (callSpec (machine T) Γ) (removeAndRecord deps remove row record notRecorded) Q s := by
  refine wp_seq (target_wp hΓ (deps.removeItem_asks remove hremove _ _ _) fun r t ht => ?_)
  cases r with
  | error e => exact herror e t ht
  | ok removal =>
    change wp _ (if _ then _ else _) _ t
    split
    · exact hrefused _ t ht (by simp [editedOnTarget, ApplyDeletionOutcome.IsRefusal])
        (by simp [editedOnTarget, ApplyDeletionOutcome.IsMass])
    split
    · exact hrefused _ t ht (by simp [noRemoval, ApplyDeletionOutcome.IsRefusal])
        (by simp [noRemoval, ApplyDeletionOutcome.IsMass])
    · rename_i kind _
      refine wp_seq (wp_mono (callSpec_mono _ _) _ _ _ ?_ t (hrecord kind t ht))
      intro r u hr
      cases r with
      | error e => exact hr
      | ok recorded => cases recorded <;> exact hr

theorem afterReads_target {L : Ledger} {p : Task T α} (hp : Emits targetVocabulary p (fun _ => True)) {f : α → Task T β}
    (hf : ∀ a, afterReads L (f a) = f a) : afterReads L (p.bind f) = p.bind f := by
  cases p with
  | ret a => exact hf a
  | fail e => rfl
  | call c k =>
    cases c with
    | target c => rfl
    | _ => exact hp.1.elim

theorem afterReads_removeAndRecord {L : Ledger} (hremove : deps.removeItem = some remove) (row : LedgerRecord)
    {record : Task T Bool} (hrecord : ∀ f : Bool → Task T ApplyDeletionOutcome, afterReads L (record.bind f) = record.bind f)
    (notRecorded : String) : afterReads L (removeAndRecord deps remove row record notRecorded) =
      removeAndRecord deps remove row record notRecorded := by
  refine afterReads_target (deps.removeItem_asks remove hremove _ _ _) fun removal => ?_
  split
  · rfl
  split
  · rfl
  · exact hrecord _

theorem hit_wp {op : LedgerOp} {P : op.Resp → Prop} {t : World T}
    (hmatched : ∀ u : World T, u.1.ledger = t.1.ledger → op.matched u.1.ledger = some 1)
    (hanswer : ∀ (u : World T) now, u.1.ledger = t.1.ledger → ∃ a, (PgLedger.exec u.1.ledger now op).1 = .ok a ∧ P a) :
    wp (callSpec (machine T) (undisturbed T)) (Task.ledger op) (fun r _ => ∀ a, r = .ok a → P a) t := by
  refine (wp_perform _ _ _ _).mpr fun u hu i _ => ⟨?_, ?_⟩
  · rintro op' n ⟨⟩ hn
    rw [hmatched u hu] at hn
    exact (Option.some.inj hn).symm
  · change ∀ a, (u.exec i (.ledger op)).1 = .ok a → P a
    obtain ⟨reason, -, he⟩ | ⟨-, he⟩ := exec_op i u op
    · rw [he]
      rintro a ⟨⟩
    · obtain ⟨a, ha, hans⟩ := hanswer u i.now hu
      rw [he, ha]
      rintro b ⟨⟩
      exact hans

theorem recordDeletion_wp {L : Ledger} {key : String} {row : LedgerRecord} (h : DeletionChecked deps L key row)
    {t : World T} (ht : t.1.ledger = L) :
    wp (callSpec (machine T) (undisturbed T)) (Task.ledger (.applyDeletion deps.scope key)) (fun r _ => r ≠ .ok false) t := by
  obtain ⟨found, hrow, hdel⟩ := deletable_of_checked h
  refine wp_mono (callSpec_mono _ _) _ _ _ ?_ t (hit_wp (P := fun b : Bool => b = true) ?_ ?_)
  · rintro r u hr rfl
    exact absurd (hr false rfl) (by simp)
  · intro u hu
    rw [hu, ht]
    exact congrArg some (countP_key hrow hdel)
  · intro u now hu
    rw [hu, ht]
    exact ⟨_, rfl, update_hits hrow hdel _⟩

theorem recordRelocation_wp {L : Ledger} {key : String} {row : LedgerRecord} (h : RelocationChecked deps L key row)
    {t : World T} (ht : t.1.ledger = L) :
    wp (callSpec (machine T) (undisturbed T)) (Task.ledger (.applyRelocation deps.scope key)) (fun r _ => r ≠ .ok false) t := by
  obtain ⟨found, hrow, hrel⟩ := relocatable_of_checked h
  refine wp_mono (callSpec_mono _ _) _ _ _ ?_ t (hit_wp (P := fun b : Bool => b = true) ?_ ?_)
  · rintro r u hr rfl
    exact absurd (hr false rfl) (by simp)
  · intro u hu
    rw [hu, ht]
    exact congrArg some (countP_key hrow hrel)
  · intro u now hu
    rw [hu, ht]
    exact ⟨_, rfl, update_hits hrow hrel _⟩

theorem SameVerdict.wp {L : Ledger} {domain : Domain} {dry : Task T EvaluatedApply} {p : Task T ApplyDeletionOutcome}
    (h : SameVerdict L domain
      (fun q => ∀ t : World T, t.1.ledger = L → wp (callSpec (machine T) (undisturbed T)) q (fun r _ => Recorded r) t) dry p)
    (hp : Raises p) {s : World T} (hs : s.1.ledger = L) :
    wp (callSpec (machine T) (undisturbed T)) p (fun r _ => Recorded r) s := by
  refine wp_afterReads undisturbed_alone hp (fun e _ _ => Recorded.error e) fun t ht => ?_
  rw [hs]
  obtain ⟨o, hrefusal, -, hend⟩ | ⟨-, hacts⟩ := h
  · rw [hend]
    exact Recorded.of_refusal hrefusal
  · exact hacts t (ht.trans hs)

theorem recordedOutcome_recorded {kind : RemovalKind} {notRecorded : String} {r : Except PassError Bool} (h : r ≠ .ok false) :
    Recorded (recordedOutcome kind notRecorded r) := by
  cases r with
  | error e => exact Recorded.error e
  | ok recorded =>
    cases recorded with
    | false => exact absurd rfl h
    | true => exact fun reason => by simp [recordedOutcome]

theorem applyDeletion_wp (key : String) (s : World T) :
    wp (callSpec (machine T) (undisturbed T)) (applyDeletion deps key) (fun r _ => Recorded r) s := by
  cases hremove : deps.removeItem with
  | none =>
    unfold applyDeletion
    rw [hremove]
    split <;> exact Recorded.of_refusal (by simp [notEnabled, ApplyDeletionOutcome.IsRefusal])
  | some remove =>
    refine (deletion_sameVerdict deps s.1.ledger hremove key ?_).wp (Raises.applyDeletion key) rfl
    intro row notRecorded hchecked t ht
    rw [afterReads_removeAndRecord hremove row (fun _ => rfl)]
    apply removeAndRecord_wp undisturbed_alone hremove row notRecorded
    · exact fun o u _ hrefusal _ => Recorded.of_refusal hrefusal
    · exact fun e u _ => Recorded.error e
    · intro kind u hu
      exact wp_mono (callSpec_mono _ _) _ _ _ (fun r v hr => recordedOutcome_recorded hr) u
        (recordDeletion_wp hchecked (hu.trans ht))

/-- The rule of an apply of a relocation: it refuses with the ledger as it was, or comes to the conditional UPDATE. -/
theorem applyRelocation_rule (hΓ : LedgerToItself Γ) (key : String) {Q : Except PassError ApplyDeletionOutcome → World T → Prop}
    {s : World T}
    (hrefused : ∀ (o : ApplyDeletionOutcome) t, t.1.ledger = s.1.ledger → o.IsRefusal →
      (BreakerPasses s.1.ledger deps.scope → ¬ o.IsMass) → Q (.ok o) t)
    (herror : ∀ e t, t.1.ledger = s.1.ledger → Q (.error e) t)
    (hrecord : ∀ row kind notRecorded, ∀ t : World T, RelocationChecked deps s.1.ledger key row →
      t.1.ledger = s.1.ledger → wp (callSpec (machine T) Γ) (Task.ledger (.applyRelocation deps.scope key))
        (fun r u => Q (recordedOutcome kind notRecorded r) u) t) :
    wp (callSpec (machine T) Γ) (applyRelocation deps key) Q s := by
  cases hremove : deps.removeItem with
  | none =>
    unfold applyRelocation
    rw [hremove]
    split <;> exact hrefused _ s rfl (by simp [notEnabled, ApplyDeletionOutcome.IsRefusal])
      fun _ => by simp [notEnabled, ApplyDeletionOutcome.IsMass]
  | some remove =>
    refine wp_afterReads hΓ (Raises.applyRelocation key) herror fun t ht => ?_
    obtain ⟨o, hrefusal, hmass, -, happly⟩ | ⟨-, row, notRecorded, hchecked, happly⟩ :=
      relocation_reads deps s.1.ledger hremove key
    · rw [happly]
      exact hrefused o t ht hrefusal hmass
    · obtain ⟨arrival, arrivalKey, harrived⟩ := hchecked.arrived
      rw [happly, confirmArrival, afterReads_query rfl, harrived.moved, Option.getD_some, harrived.find]
      split
      · exact hrefused _ t ht (by simp [ApplyDeletionOutcome.IsRefusal]) fun _ => by simp [ApplyDeletionOutcome.IsMass]
      · exact herror _ t ht
      · rename_i hasItem arrival' hhas _
        have hasks := deps.hasItem_asks hasItem hhas
        rw [afterReads_target (hasks _ _)]
        · refine wp_seq (target_wp hΓ (hasks _ _) fun r u hu => ?_)
          cases r with
          | error e => exact herror e u (hu.trans ht)
          | ok present =>
            change wp _ (if _ then _ else _) _ u
            split
            · exact hrefused _ u (hu.trans ht) (by simp [ApplyDeletionOutcome.IsRefusal])
                fun _ => by simp [ApplyDeletionOutcome.IsMass]
            · apply removeAndRecord_wp hΓ hremove row notRecorded
              · exact fun o v hv hrefusal hmass => hrefused o v (hv.trans (hu.trans ht)) hrefusal fun _ => hmass
              · exact fun e v hv => herror e v (hv.trans (hu.trans ht))
              · exact fun kind v hv => hrecord row kind notRecorded v hchecked (hv.trans (hu.trans ht))
        · intro present
          split
          · rfl
          · exact afterReads_removeAndRecord hremove row (fun _ => rfl) notRecorded

theorem applyRelocation_wp (key : String) (s : World T) :
    wp (callSpec (machine T) (undisturbed T)) (applyRelocation deps key) (fun r _ => Recorded r) s := by
  apply applyRelocation_rule undisturbed_alone key
  · exact fun o t _ hrefusal _ => Recorded.of_refusal hrefusal
  · exact fun e t _ => Recorded.error e
  · intro row kind notRecorded t hchecked ht
    exact wp_mono (callSpec_mono _ _) _ _ _ (fun r u hr => recordedOutcome_recorded hr) t (recordRelocation_wp hchecked ht)

/-- In every run of an apply that has the ledger to itself, the UPDATE behind the removal matches exactly one
row, and no outcome says that a removal went unrecorded. -/
theorem removal_recorded (deps : ApplyDeletionDeps T) (key : String) (w : World T)
    (chs : List (Choice (Input T) T.Act)) {p : Task T ApplyDeletionOutcome}
    (hp : p = applyDeletion deps key ∨ p = applyRelocation deps key) :
    (∀ th op i s n, Event.exec th (.ledger op) i s ∈ (machine T).trace (.seq (Main.lift p), w) chs →
      op.matched s.1.ledger = some n → n = 1) ∧
    ∀ reason, ((machine T).run (.seq (Main.lift p), w) chs).1 ≠ .seq (.ret (.refused .removedNotRecorded reason)) := by
  have hwp : wp (callSpec (machine T) (undisturbed T)) p (fun r _ => Recorded r) w := by
    obtain rfl | rfl := hp
    · exact applyDeletion_wp key w
    · exact applyRelocation_wp key w
  have hgood : Conf.Good (machine T) (undisturbed T) (fun r _ => Recorded r) (.seq (Main.lift p), w) :=
    (wp_lift _ p _ w).mpr hwp
  have hall : ∀ ev ∈ (machine T).trace (.seq (Main.lift p), w) chs, ev.Allowed (machine T) (undisturbed T) := by
    intro ev _
    cases ev with
    | exec th c i s => trivial
    | act a s => rfl
  obtain ⟨hkept, hend⟩ := hgood.run (machine T) _ (fun r s t hr _ => hr) chs hall
  refine ⟨fun th op i s n hev => hkept _ hev op n rfl, fun reason hrun => ?_⟩
  generalize (machine T).run (.seq (Main.lift p), w) chs = y at hend hrun
  obtain ⟨conf, t⟩ := y
  obtain rfl : conf = _ := hrun
  exact hend reason rfl

namespace Sample

def mailbox : Scope := ⟨"t", "m", .email⟩

def reported : Ledger :=
  AList.insert (mailbox.key "k")
    { domain := .email, collection := "INBOX", contentHash := "h", sizeBytes := none, status := .copied,
      targetRef := "1", sourceVersion := none, targetVersion := none, sourceRefHref := none,
      deletionReportedAt := some 1 } ∅

def reportedWorld : World portApi := (⟨reported, ∅, ()⟩, PassState.fresh portApi)

def deletes : Choice (Input portApi) portApi.Act := .run 0 ⟨2, none, (.ok { kind := some .deleted }, .ok true)⟩

end Sample

theorem removal_recorded_sample : ∃ th i s n,
    Event.exec th (.ledger (.applyDeletion Sample.mailbox "k")) i s ∈
      (machine portApi).trace
        (.seq (Main.lift (applyDeletion (portDeps Sample.mailbox true none true) "k")), Sample.reportedWorld)
        (List.replicate 4 Sample.deletes) ∧
      LedgerOp.matched s.1.ledger (.applyDeletion Sample.mailbox "k") = some n ∧ n = 1 := by
  have hev : Event.exec none (.ledger (.applyDeletion Sample.mailbox "k")) ⟨2, none, (.ok { kind := some .deleted }, .ok true)⟩
      Sample.reportedWorld ∈ (machine portApi).trace
        (.seq (Main.lift (applyDeletion (portDeps Sample.mailbox true none true) "k")), Sample.reportedWorld)
        (List.replicate 4 Sample.deletes) := List.mem_of_getElem? (i := 3) rfl
  have hmatched : LedgerOp.matched Sample.reportedWorld.1.ledger (.applyDeletion Sample.mailbox "k") = some 1 := by decide
  exact ⟨_, _, _, 1, hev, hmatched,
    (removal_recorded (portDeps Sample.mailbox true none true) "k" Sample.reportedWorld _ (.inl rfl)).1
      _ _ _ _ _ hev hmatched⟩

end Run

end OpenMigrate
