import OpenMigrate.Cutover.Store

namespace OpenMigrate.Cutover

section Save

variable (parses : String → Bool) (db : CutoverDb) (status : CutoverStatus) (now : Instant)

/-- The report of a status is a JSON document, where it has one. -/
def ReportParses : Prop := ∀ report ∈ truthy status.verificationReport, parses report = true

instance : Decidable (ReportParses parses status) :=
  inferInstanceAs (Decidable (∀ report ∈ truthy status.verificationReport, parses report = true))

/-- `saveCutoverState` with its `JSON.parse`, which raises before the statement is sent. -/
def saveParsed : Except String CutoverDb :=
  if ReportParses parses status then .ok (saveCutoverState db status now)
  else .error "Unexpected token in JSON"

end Save

section RoundTrip

variable {parses : String → Bool} {db : CutoverDb} {status loaded : CutoverStatus} {now : Instant}

/-- What a reader of the state is to find again. -/
structure Survives (status loaded : CutoverStatus) : Prop where
  state : loaded.state = status.state
  phase : loaded.phase = status.phase
  verificationStatus : loaded.verificationStatus = status.verificationStatus
  rollbackAvailable : loaded.rollbackAvailable = status.rollbackAvailable
  failedAt : loaded.failedAt = status.failedAt
  failureReason : loaded.failureReason = status.failureReason
  errorMessage : loaded.errorMessage = status.errorMessage
  errorDetails : loaded.errorDetails = status.errorDetails

/-- A status with nothing that a row leaves out: every status that is loaded is one. -/
structure Bare (status : CutoverStatus) : Prop where
  phase : status.phase ≠ .verification ∧ status.phase ≠ .error
  rollbackAvailable : status.rollbackAvailable = false
  failedAt : status.failedAt = none
  failureReason : status.failureReason = none
  errorMessage : status.errorMessage = none
  errorDetails : status.errorDetails = none

theorem dbPhaseToPhase_map_iff (phase : CutoverPhase) :
    dbPhaseToPhase (mapPhaseToDb phase) = phase ↔ phase ≠ .verification ∧ phase ≠ .error := by
  cases phase <;> decide

theorem dbPhaseToPhase_ne (phase : DbPhase) :
    dbPhaseToPhase phase ≠ .verification ∧ dbPhaseToPhase phase ≠ .error := by
  cases phase <;> decide

theorem load_bare (h : loadCutoverState db = some loaded) : Bare loaded := by
  obtain ⟨row, -, rfl⟩ := Option.map_eq_some_iff.mp h
  exact ⟨dbPhaseToPhase_ne row.phase, rfl, rfl, rfl, rfl, rfl⟩

theorem Survives.bare (h : Survives status loaded) (hloaded : Bare loaded) : Bare status where
  phase := by
    rw [← h.phase]
    exact hloaded.phase
  rollbackAvailable := h.rollbackAvailable.symm.trans hloaded.rollbackAvailable
  failedAt := h.failedAt.symm.trans hloaded.failedAt
  failureReason := h.failureReason.symm.trans hloaded.failureReason
  errorMessage := h.errorMessage.symm.trans hloaded.errorMessage
  errorDetails := h.errorDetails.symm.trans hloaded.errorDetails

theorem load_save (db : CutoverDb) (status : CutoverStatus) (now : Instant) :
    ∃ createdAt, loadCutoverState (saveCutoverState db status now) = some (mapRowToStatus (rowOf status createdAt now)) :=
  ⟨_, rfl⟩

theorem Bare.survives (h : Bare status) (createdAt now : Instant) :
    Survives status (mapRowToStatus (rowOf status createdAt now)) where
  state := rfl
  phase := (dbPhaseToPhase_map_iff status.phase).mpr h.phase
  verificationStatus := rfl
  rollbackAvailable := h.rollbackAvailable.symm
  failedAt := h.failedAt.symm
  failureReason := h.failureReason.symm
  errorMessage := h.errorMessage.symm
  errorDetails := h.errorDetails.symm

/-- What is loaded after a save, whatever was stored before. -/
theorem survives_storage_iff (parses : String → Bool) (db : CutoverDb) (status : CutoverStatus) (now : Instant) :
    (∃ saved loaded, saveParsed parses db status now = .ok saved ∧ loadCutoverState saved = some loaded ∧
      Survives status loaded) ↔ Bare status ∧ ReportParses parses status := by
  rw [saveParsed]
  constructor
  · rintro ⟨saved, loaded, hsaved, hloaded, hsurvives⟩
    split at hsaved
    · rename_i hparses
      exact ⟨hsurvives.bare (load_bare hloaded), hparses⟩
    · cases hsaved
  · rintro ⟨hbare, hparses⟩
    obtain ⟨createdAt, hload⟩ := load_save db status now
    exact ⟨_, _, if_pos hparses, hload, hbare.survives createdAt now⟩

/-- The states whose transition the store keeps. -/
def Stored (toState : CutoverState) : Prop := toState = .preparing ∨ toState = .completed ∨ toState = .rolledBack

theorem updated_bare_iff {current updated : CutoverStatus} {toState : CutoverState} {reason : Option String}
    (hloaded : loadCutoverState db = some current) (h : updateCutoverStatus current toState reason now = .ok updated) :
    Bare updated ↔ Stored toState := by
  have hcurrent := load_bare hloaded
  rw [updateCutoverStatus] at h
  split at h
  · cases h
  · cases h
    constructor
    · intro hbare
      have hphase := hbare.phase
      have hrollback := hbare.rollbackAvailable
      cases toState with
      | preparing => exact .inl rfl
      | readyForCutover => exact absurd rfl hphase.1
      | approved => exact absurd rfl hphase.1
      | cutoverInProgress => cases hrollback
      | gracePeriod => cases hrollback
      | completed => exact .inr (.inl rfl)
      | rolledBack => exact .inr (.inr rfl)
      | failed => exact absurd rfl hphase.2
    · intro hstored
      have herrors : (if (truthy reason).isSome then none else current.errorMessage) = none ∧
          (if (truthy reason).isSome then none else current.errorDetails) = none := by
        rw [hcurrent.errorMessage, hcurrent.errorDetails]
        exact ⟨ite_self _, ite_self _⟩
      have hphase : getStatePhase toState ≠ .verification ∧ getStatePhase toState ≠ .error := by
        obtain rfl | rfl | rfl := hstored <;> decide
      obtain rfl | rfl | rfl := hstored
      all_goals
        exact ⟨hphase, rfl, hcurrent.failedAt, hcurrent.failureReason, herrors.1, herrors.2⟩

/-- A failure: the phase comes back as another one, and its reason not at all. -/
theorem failure_forgotten : ∃ current updated saved loaded,
    loadCutoverState (saveCutoverState ⟨none, [], [], 0⟩ (initialStatus none none 0) 0) = some current ∧
      updateCutoverStatus current .failed (some "timeout") 1 = .ok updated ∧
        saveParsed (fun _ => true) ⟨none, [], [], 0⟩ updated 1 = .ok saved ∧ loadCutoverState saved = some loaded ∧
          ¬ Survives updated loaded := by
  refine ⟨_, _, _, _, rfl, rfl, rfl, rfl, ?_⟩
  intro hsurvives
  cases hsurvives.failureReason

end RoundTrip

end OpenMigrate.Cutover
