import OpenMigrate.Verify.Sound

namespace OpenMigrate.Verify

section Samples

variable {samples : List ItemSample} {s t : ItemSample}

/-- The ledger or the target has no content hash for the sample. -/
def Unmeasured (samples : List ItemSample) (s : ItemSample) : Prop :=
  s.content = "" ∨ ∀ t, counterpart samples s = some t → t.content = ""

theorem isComparableContent_iff {content : String} : isComparableContent content = true ↔ content ≠ "" := by
  simp [isComparableContent]

/-- A hash without a tag is compared with a sample that has none at all. -/
theorem compareSample_blank (hs : s.content = "") (ht : counterpart samples s = some t) :
    compareSample samples s = .unavailable ↔ t.content = "" ∨ (versionOf t.content).isSome = true := by
  have hversion : versionOf "" = none := rfl
  rw [compareSample, ht]
  by_cases hblank : t.content = ""
  · simp [isComparableContent, hblank]
  · have hcomparable : isComparableContent t.content = true := isComparableContent_iff.mpr hblank
    cases htag : versionOf t.content with
    | none => simp [hcomparable, sameHashAlgorithm, hs, hversion, htag, hblank, Ne.symm hblank]
    | some tag => simp [hcomparable, sameHashAlgorithm, hs, hversion, htag]

theorem compareSample_silent (h : ∀ t, counterpart samples s = some t → t.content = "") :
    compareSample samples s = .unavailable := by
  rw [compareSample]
  cases ht : counterpart samples s with
  | none => rfl
  | some t => simp [isComparableContent, h t ht]

theorem unmeasured_unavailable_iff :
    (Unmeasured samples s → compareSample samples s = .unavailable) ↔
      (s.content = "" → ∀ t, counterpart samples s = some t →
        t.content = "" ∨ (versionOf t.content).isSome = true) := by
  constructor
  · intro h hs t ht
    exact (compareSample_blank hs ht).mp (h (.inl hs))
  · rintro h (hs | hsilent)
    · cases ht : counterpart samples s with
      | none => exact compareSample_silent fun t ht' => by rw [ht] at ht'; cases ht'
      | some t => exact (compareSample_blank hs ht).mpr (h hs t ht)
    · exact compareSample_silent hsilent

theorem count_comparisons (results : List Comparison) :
    results.count .matching + results.count .mismatch + results.count .unavailable = results.length := by
  induction results with
  | nil => rfl
  | cons result results ih =>
    cases result with
    | matching => simp [← ih]; omega
    | mismatch => simp [← ih]; omega
    | unavailable => simp [← ih]; omega

end Samples

section Counts

variable {N : Type} [JsNumber N] (sha256Hex : String → String) (deps : RealVerificationDeps N) (dataType : DataType)
  (reindexer : TargetReindexer)

/-- The counts add up to the samples drawn. -/
def Counted (v : DataTypeVerification) (drawn : List ItemSample) : Prop :=
  v.checksumMatches + v.checksumMismatches + v.checksumUnavailable = v.checksumSampleSize ∧
    v.checksumSampleSize = drawn.length

/-- The counts add up. The samples of which one side has no hash count as unavailable, each of them, exactly if no sample
that the ledger has no hash for has one without a version tag on the target. -/
theorem checksum_counts_iff :
    Counted (verifyDataType sha256Hex deps dataType reindexer) (sourceSamples deps dataType) ∧
      ((∀ s ∈ sourceSamples deps dataType, Unmeasured (targetSamples sha256Hex deps dataType reindexer) s →
          compareSample (targetSamples sha256Hex deps dataType reindexer) s = .unavailable) ↔
        ∀ s ∈ sourceSamples deps dataType, s.content = "" →
          ∀ t, counterpart (targetSamples sha256Hex deps dataType reindexer) s = some t →
            t.content = "" ∨ (versionOf t.content).isSome = true) := by
  constructor
  · constructor
    · exact count_comparisons _
    · exact List.length_map _
  constructor
  · intro h s hs
    exact unmeasured_unavailable_iff.mp (h s hs)
  · intro h s hs
    exact unmeasured_unavailable_iff.mpr (h s hs)

end Counts

namespace Sample

/-- A file whose fetch failed, so that its bytes were never hashed. -/
def failedFile : ItemRow := { copiedFile "a.txt" with contentHash := "", status := .failed }

def failedOnTarget : RealVerificationDeps ℚ :=
  { oneChanged with
    ledger := fun _ _ => AList.insert ⟨"t", "m", Dav.Sample.sha256Hex "file:a.txt"⟩ failedFile ∅ }

def listedFile : TargetReindexer where
  listEntries _ :=
    [{ naturalKey := "a.txt", targetId := "a.txt", mailboxId := "/", contentHash := some (Dav.Sample.sha256Hex "x") }]

end Sample

/-- A file that the ledger has no hash for is counted as a mismatch when the target has one. -/
theorem unhashed_mismatch :
    (sourceSamples Sample.failedOnTarget .files).map (·.content) = [""] ∧
      (verifyDataType Dav.Sample.sha256Hex Sample.failedOnTarget .files Sample.listedFile).checksumMismatches = 1 ∧
      (verifyDataType Dav.Sample.sha256Hex Sample.failedOnTarget .files Sample.listedFile).checksumUnavailable = 0 := by
  decide +kernel

end OpenMigrate.Verify
