import OpenMigrate.Dav.DavApply
import OpenMigrate.Verify.Verification

namespace OpenMigrate.Verify

variable {N : Type} [JsNumber N] (sha256Hex : String → String) (deps : RealVerificationDeps N)

def Measured (dataType : DataType) (reindexer : TargetReindexer) : Prop :=
  isDataTypeEnabled deps.config dataType = true ∧ deps.reindexerFor dataType = some reindexer

/-- What a PASS promises: every key the ledger expects in a measured domain is on the target, and the report has
no issue of severity ERROR. -/
structure PassSound : Prop where
  present : ∀ dataType reindexer, Measured deps dataType reindexer →
    ∀ key ∈ getAllNaturalKeyHashes (deps.ledger dataType .missing) (scopeOf deps.tenantId deps.mappingId dataType),
      key ∈ targetKeys sha256Hex dataType (reindexer.listEntries .missing)
  clean : ∀ v ∈ (runVerification sha256Hex deps).verifications, ∀ issue ∈ v.issues, issue.severity ≠ .error

/-- No item drawn for the checksum leg of a measured domain differs from its copy on the target. -/
def SamplesAgree : Prop :=
  ∀ dataType reindexer, Measured deps dataType reindexer → ∀ s ∈ sourceSamples deps dataType,
    compareSample (targetSamples sha256Hex deps dataType reindexer) s ≠ .mismatch

section Domain

variable {sha256Hex deps} {dataType : DataType} {reindexer : TargetReindexer}

theorem verifyDomain_measured (h : Measured deps dataType reindexer) :
    verifyDomain sha256Hex deps dataType = verifyDataType sha256Hex deps dataType reindexer := by
  simp [verifyDomain, h.1, h.2]

theorem verifyDomain_unmeasured (h : ∀ reindexer, ¬ Measured deps dataType reindexer) :
    (verifyDomain sha256Hex deps dataType).status = .notVerifiable ∨
      ∀ issue ∈ (verifyDomain sha256Hex deps dataType).issues, issue.severity = .warning := by
  unfold verifyDomain
  split
  · exact .inr (by simp [skipped, notMeasured])
  · rename_i henabled
    split
    · rename_i reindexer hreindexer
      exact absurd ⟨by simpa using henabled, hreindexer⟩ (h reindexer)
    · dsimp only
      split
      · exact .inr (by simp [skipped, notMeasured])
      · exact .inl rfl

theorem mem_all (dataType : DataType) :
    verifyDomain sha256Hex deps dataType ∈ (runVerification sha256Hex deps).verifications := by
  refine List.mem_map.mpr ⟨dataType, ?_, rfl⟩
  cases dataType <;> decide

theorem overall_pass (h : (runVerification sha256Hex deps).overallStatus = .pass) (dataType : DataType) :
    (verifyDomain sha256Hex deps dataType).status ≠ .fail ∧
      (verifyDomain sha256Hex deps dataType).status ≠ .notVerifiable ∧
      (verifyDomain sha256Hex deps dataType).status ≠ .warn := by
  have hmem : verifyDomain sha256Hex deps dataType ∈ (runVerification sha256Hex deps).verifications := mem_all dataType
  have hstatus : calculateOverallStatus (runVerification sha256Hex deps).verifications = .pass := h
  unfold calculateOverallStatus at hstatus
  split at hstatus
  · cases hstatus
  rename_i hfail
  split at hstatus
  · cases hstatus
  rename_i hwarn
  rw [List.any_eq_true] at hfail hwarn
  refine ⟨fun he => hfail ⟨_, hmem, ?_⟩, fun he => hfail ⟨_, hmem, ?_⟩, fun he => hwarn ⟨_, hmem, ?_⟩⟩ <;> simp [he]

theorem pass_of_status {a b : N} {missing extra : ℕ} {config : VerificationConfig N} {sourceCount : ℕ}
    (hfail : (determineVerificationStatus a b missing extra config sourceCount).toDomain ≠ .fail)
    (hwarn : (determineVerificationStatus a b missing extra config sourceCount).toDomain ≠ .warn) :
    missing = 0 ∧ extra = 0 := by
  unfold determineVerificationStatus at hfail hwarn
  dsimp only at hfail hwarn
  split at hfail
  · exact absurd rfl hfail
  · rename_i hthresholds
    rw [if_neg hthresholds] at hwarn
    split at hwarn
    · exact absurd rfl hwarn
    · omega

theorem measured_pass (h : (runVerification sha256Hex deps).overallStatus = .pass)
    (hm : Measured deps dataType reindexer) :
    missingOnTarget sha256Hex deps dataType reindexer = [] ∧ extraOnTarget sha256Hex deps dataType reindexer = [] := by
  obtain ⟨hfail, -, hwarn⟩ := overall_pass h dataType
  rw [verifyDomain_measured hm] at hfail hwarn
  obtain ⟨hmissing, hextra⟩ := pass_of_status hfail hwarn
  exact ⟨List.eq_nil_of_length_eq_zero hmissing, List.eq_nil_of_length_eq_zero hextra⟩

theorem count_mismatch : (comparisons sha256Hex deps dataType reindexer).count .mismatch = 0 ↔
    ∀ s ∈ sourceSamples deps dataType,
      compareSample (targetSamples sha256Hex deps dataType reindexer) s ≠ .mismatch := by
  rw [List.count_eq_zero, comparisons, List.mem_map]
  constructor
  · exact fun h s hs he => h ⟨s, hs, he⟩
  · rintro h ⟨s, hs, he⟩
    exact h s hs he

theorem issuesOf_clean {config : VerificationConfig N} {name : String} {sourceCount sampled unavailable mismatches : ℕ} :
    (∀ issue ∈ issuesOf config name sourceCount sampled unavailable 0 0 mismatches, issue.severity ≠ .error) ↔
      mismatches = 0 := by
  constructor
  · intro h
    by_contra hne
    refine h ⟨"CHECKSUM_" ++ name, .error, s!"{mismatches} {name} item(s) have content mismatches"⟩ ?_ rfl
    simp only [issuesOf, List.mem_append]
    exact .inr (by rw [if_pos (Nat.pos_of_ne_zero hne)]; exact List.mem_singleton_self _)
  · rintro rfl issue hissue
    simp only [issuesOf, lt_irrefl, if_false, List.append_nil, List.mem_append] at hissue
    obtain hissue | hissue := hissue
    · split at hissue
      · rw [List.mem_singleton.mp hissue]
        simp
      · cases hissue
    · split at hissue
      · rw [List.mem_singleton.mp hissue]
        simp
      · cases hissue

theorem measured_issues (h : (runVerification sha256Hex deps).overallStatus = .pass)
    (hm : Measured deps dataType reindexer) :
    (∀ issue ∈ (verifyDomain sha256Hex deps dataType).issues, issue.severity ≠ .error) ↔
      ∀ s ∈ sourceSamples deps dataType,
        compareSample (targetSamples sha256Hex deps dataType reindexer) s ≠ .mismatch := by
  obtain ⟨hmissing, hextra⟩ := measured_pass h hm
  rw [← count_mismatch, verifyDomain_measured hm]
  simp only [verifyDataType, hmissing, hextra, List.length_nil]
  exact issuesOf_clean

end Domain

/-- A run that answers PASS keeps what a PASS promises exactly when no item it drew for the checksum leg differs
from its copy on the target. -/
theorem pass_sound_iff :
    ((runVerification sha256Hex deps).overallStatus = .pass → PassSound sha256Hex deps) ↔
      ((runVerification sha256Hex deps).overallStatus = .pass → SamplesAgree sha256Hex deps) := by
  refine forall_congr' fun hpass => ?_
  constructor
  · intro hsound dataType reindexer hm
    exact (measured_issues hpass hm).mp (hsound.clean _ (mem_all dataType))
  · intro hagree
    refine ⟨fun dataType reindexer hm key hkey => ?_, fun v hv issue hissue => ?_⟩
    · by_contra hno
      have hmissing : key ∈ missingOnTarget sha256Hex deps dataType reindexer :=
        (mem_missing sha256Hex _ _ _ _ _).mpr ⟨hkey, hno⟩
      rw [(measured_pass hpass hm).1] at hmissing
      cases hmissing
    · obtain ⟨dataType, -, rfl⟩ := List.mem_map.mp hv
      by_cases hm : ∃ reindexer, Measured deps dataType reindexer
      · obtain ⟨reindexer, hm⟩ := hm
        exact (measured_issues hpass hm).mpr (hagree dataType reindexer hm) issue hissue
      · obtain hstatus | hwarning := verifyDomain_unmeasured (not_exists.mp hm)
        · exact absurd hstatus (overall_pass hpass dataType).2.1
        · rw [hwarning issue hissue]
          decide

namespace Sample

def halfMatch : VerificationConfig ℚ where
  checksumSamplePercentage := 100
  minSampleSize := 1
  maxSampleSize := 1000
  requiredMatchPercentage := 1 / 2
  maxDiscrepancyPercentage := 1 / 100
  verifyMail := false
  verifyCalendar := false
  verifyContacts := false
  verifyFiles := true

def copiedFile (path : String) : ItemRow where
  domain := .file
  collection := "/"
  contentHash := Dav.Sample.sha256Hex "x"
  sizeBytes := some 1
  status := .copied
  targetRef := path
  sourceVersion := none
  targetVersion := none
  sourceRefHref := none

def twoFiles : Ledger :=
  AList.insert ⟨"t", "m", Dav.Sample.sha256Hex "file:a.txt"⟩ (copiedFile "a.txt")
    (AList.insert ⟨"t", "m", Dav.Sample.sha256Hex "file:b.txt"⟩ (copiedFile "b.txt") ∅)

def oneChanged : RealVerificationDeps ℚ where
  tenantId := "t"
  mappingId := "m"
  config := halfMatch
  reindexerFor _ := some
    { listEntries _ :=
        [{ naturalKey := "a.txt", targetId := "a.txt", mailboxId := "/", contentHash := some (Dav.Sample.sha256Hex "x") },
          { naturalKey := "b.txt", targetId := "b.txt", mailboxId := "/",
            contentHash := some "a1fce4363854ff888cff4b8e7875d600c2682390412a8cf79b37d0b11148b0fa" }] }
  ledger _ _ := twoFiles

end Sample

/-- The verification is computed once, for its status and for its issues. -/
theorem Sample.oneChanged_report :
    (runVerification Dav.Sample.sha256Hex Sample.oneChanged).overallStatus = .pass ∧
      ((runVerification Dav.Sample.sha256Hex Sample.oneChanged).verifications.flatMap (·.issues)).any
        (fun issue => issue.severity == .error) = true := by
  decide +kernel

/-- A content mismatch within the tolerance is an ERROR in a report that says PASS. -/
theorem pass_with_error : (runVerification Dav.Sample.sha256Hex Sample.oneChanged).overallStatus = .pass ∧
    ¬ PassSound Dav.Sample.sha256Hex Sample.oneChanged := by
  obtain ⟨hpass, herror⟩ := Sample.oneChanged_report
  refine ⟨hpass, fun hsound => ?_⟩
  obtain ⟨issue, hissue, hseverity⟩ := List.any_eq_true.mp herror
  obtain ⟨v, hv, hmem⟩ := List.mem_flatMap.mp hissue
  exact hsound.clean v hv issue hmem (by simpa using hseverity)

end OpenMigrate.Verify
