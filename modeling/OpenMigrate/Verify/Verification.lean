import OpenMigrate.Verify.Queries
import Mathlib.Data.List.Sort
import Mathlib.Data.Rat.Floor

namespace OpenMigrate.Verify

/-- The operations on numbers that shares and thresholds are computed with; nothing is assumed of them. -/
class JsNumber (N : Type) where
  lit : ℚ → N
  add : N → N → N
  mul : N → N → N
  div : N → N → N
  lt : N → N → Bool
  floor : N → N
  limit : N → ℕ

instance : JsNumber ℚ where
  lit q := q
  add := (· + ·)
  mul := (· * ·)
  div := (· / ·)
  lt a b := decide (a < b)
  floor q := ⌊q⌋
  limit q := ⌊q⌋.toNat

structure VerificationConfig (N : Type) where
  checksumSamplePercentage : N
  minSampleSize : N
  maxSampleSize : N
  requiredMatchPercentage : N
  maxDiscrepancyPercentage : N
  verifyMail : Bool
  verifyCalendar : Bool
  verifyContacts : Bool
  verifyFiles : Bool

inductive Severity where
  | error
  | warning
  deriving DecidableEq

structure Issue where
  id : String
  severity : Severity
  message : String
  deriving DecidableEq

inductive DomainStatus where
  | pass
  | warn
  | fail
  | skipped
  | notVerifiable
  deriving DecidableEq

inductive OverallStatus where
  | pass
  | warn
  | fail
  deriving DecidableEq

def OverallStatus.toDomain : OverallStatus → DomainStatus
  | pass => .pass
  | warn => .warn
  | fail => .fail

structure DataTypeVerification where
  dataType : DataType
  status : DomainStatus
  sourceCount : ℕ
  targetCount : ℕ
  matchedCount : ℤ
  missingOnTarget : ℕ
  extraOnTarget : ℕ
  checksumSampleSize : ℕ
  checksumMatches : ℕ
  checksumMismatches : ℕ
  checksumUnavailable : ℕ
  totalBytesSource : ℕ
  totalBytesTarget : Option ℕ
  issues : List Issue

/-- The queries of a run, each with its own look at the ledger and the target. -/
inductive Query where
  | sourceCount
  | targetCount
  | missing
  | extra
  | sourceSamples
  | targetSamples
  | bytesSource
  | bytesTarget
  deriving DecidableEq

structure TargetReindexer where
  listEntries : Query → List TargetEntry
  contentHashFor : Option (TargetEntry → Option String) := none

structure RealVerificationDeps (N : Type) where
  tenantId : String
  mappingId : String
  config : VerificationConfig N
  reindexerFor : DataType → Option TargetReindexer
  ledger : DataType → Query → Ledger

structure ItemSample where
  naturalKeyHash : String
  content : String
  deriving DecidableEq

section Samples

/-- `/^([a-z0-9]+):/i`, its group. -/
def versionOf (fingerprint : String) : Option (List Char) :=
  let tag := fingerprint.toList.takeWhile Char.isAlphanum
  match tag, (fingerprint.toList.drop tag.length) with
  | c :: rest, ':' :: _ => some (c :: rest)
  | _, _ => none

def isComparableContent (content : String) : Bool := !content.isEmpty

def sameHashAlgorithm (a b : String) : Bool := versionOf a == versionOf b

/-- The entries asked for by name, or the first few; a content hash the listing lacks is fetched. -/
def getTargetSamplesFromReindexer (sha256Hex : String → String) (dataType : DataType) (reindexer : TargetReindexer)
    (count : ℕ) (naturalKeyHashes : List String) : List ItemSample :=
  let hash := fun entry : TargetEntry => hashTargetNaturalKey sha256Hex dataType entry.naturalKey
  let allEntries := (reindexer.listEntries .targetSamples).insertionSort fun a b => hash a ≤ hash b
  let sampled :=
    if naturalKeyHashes.isEmpty then allEntries.take count
    else allEntries.filter fun entry => naturalKeyHashes.contains (hash entry)
  sampled.map fun entry =>
    let listed := entry.contentHash.getD ""
    let fetched := reindexer.contentHashFor.bind fun contentHashFor => truthy (contentHashFor entry)
    ⟨hash entry, if listed.isEmpty then fetched.getD listed else listed⟩

/-- The counterpart of a sample: a later entry under the same key replaces an earlier one. -/
def counterpart (targetSamples : List ItemSample) (s : ItemSample) : Option ItemSample :=
  targetSamples.reverse.find? fun t => t.naturalKeyHash == s.naturalKeyHash

inductive Comparison where
  | matching
  | mismatch
  | unavailable
  deriving DecidableEq

def compareSample (targetSamples : List ItemSample) (s : ItemSample) : Comparison :=
  match counterpart targetSamples s with
  | none => .unavailable
  | some t =>
    if isComparableContent t.content then
      if !sameHashAlgorithm s.content t.content then .unavailable
      else if s.content = t.content then .matching
      else .mismatch
    else .unavailable

end Samples

section Run

variable {N : Type} [JsNumber N]

open JsNumber

def jsMax (a b : N) : N := if lt a b then b else a

def jsMin (a b : N) : N := if lt b a then b else a

def calculateSampleSize (totalCount : ℕ) (config : VerificationConfig N) : N :=
  if totalCount = 0 then lit 0
  else
    let calculated := floor (mul (lit totalCount) (div config.checksumSamplePercentage (lit 100)))
    let wanted := jsMax config.minSampleSize (jsMin calculated config.maxSampleSize)
    jsMin wanted (lit totalCount)

/-- A share of a count, with nothing to share counted in full. -/
def ratio (part : ℤ) (whole : ℕ) (empty : ℚ) : N := if 0 < whole then div (lit part) (lit whole) else lit empty

def determineVerificationStatus (matchPercentage checksumMatchPercentage : N) (missingCount extraCount : ℕ)
    (config : VerificationConfig N) (sourceCount : ℕ) : OverallStatus :=
  let discrepancyPercentage : N := ratio missingCount sourceCount 0
  if lt matchPercentage config.requiredMatchPercentage || lt checksumMatchPercentage config.requiredMatchPercentage ||
      lt config.maxDiscrepancyPercentage discrepancyPercentage then .fail
  else if 0 < missingCount + extraCount then .warn
  else .pass

def isDataTypeEnabled (config : VerificationConfig N) : DataType → Bool
  | .mail => config.verifyMail
  | .calendar => config.verifyCalendar
  | .contacts => config.verifyContacts
  | .files => config.verifyFiles

def notMeasured (dataType : DataType) (status : DomainStatus) (id : String) (severity : Severity) (message : String)
    (sourceCount : ℕ) : DataTypeVerification where
  dataType := dataType
  status := status
  sourceCount := sourceCount
  targetCount := 0
  matchedCount := 0
  missingOnTarget := 0
  extraOnTarget := 0
  checksumSampleSize := 0
  checksumMatches := 0
  checksumMismatches := 0
  checksumUnavailable := 0
  totalBytesSource := 0
  totalBytesTarget := none
  issues := [⟨id ++ "_" ++ dataType.name, severity, message⟩]

def skipped (dataType : DataType) (message : String) : DataTypeVerification :=
  notMeasured dataType .skipped "SKIPPED" .warning message 0

def notVerifiable (dataType : DataType) (message : String) (sourceCount : ℕ) : DataTypeVerification :=
  notMeasured dataType .notVerifiable "NOT_VERIFIABLE" .error message sourceCount

variable (sha256Hex : String → String) (deps : RealVerificationDeps N) (dataType : DataType)

def getSourceCount : ℕ :=
  countItems (deps.ledger dataType .sourceCount) (scopeOf deps.tenantId deps.mappingId dataType)

/-- The items drawn for the checksum leg. -/
def sourceSamples : List ItemSample :=
  (getSamples (deps.ledger dataType .sourceSamples) (scopeOf deps.tenantId deps.mappingId dataType)
    (limit (calculateSampleSize (getSourceCount deps dataType) deps.config))).map fun s => ⟨s.1, s.2⟩

def targetSamples (reindexer : TargetReindexer) : List ItemSample :=
  getTargetSamplesFromReindexer sha256Hex dataType reindexer
    (limit (calculateSampleSize (getSourceCount deps dataType) deps.config))
    ((sourceSamples deps dataType).map (·.naturalKeyHash))

def comparisons (reindexer : TargetReindexer) : List Comparison :=
  (sourceSamples deps dataType).map (compareSample (targetSamples sha256Hex deps dataType reindexer))

def missingOnTarget (reindexer : TargetReindexer) : List String :=
  findMissingOnTarget sha256Hex (deps.ledger dataType .missing) deps.tenantId deps.mappingId dataType
    (reindexer.listEntries .missing)

def extraOnTarget (reindexer : TargetReindexer) : List (String × String) :=
  findExtraOnTarget sha256Hex (deps.ledger dataType .extra) deps.tenantId deps.mappingId dataType
    (reindexer.listEntries .extra)

def issuesOf (config : VerificationConfig N) (name : String) (sourceCount sampled unavailable missing extra mismatches : ℕ) :
    List Issue :=
  (if 0 < sourceCount ∧ sampled = 0 then
    [⟨"CHECKSUM_NOT_SAMPLED_" ++ name, .warning,
      s!"No {name} item could be sampled for content verification, though {sourceCount} " ++
      "item(s) are recorded. The checksum half of the gate did not run at all — this is an " ++
      "ABSENCE of content evidence, not evidence of a match. Count parity still applies."⟩] else []) ++
  (if 0 < unavailable then
    [⟨"CHECKSUM_UNAVAILABLE_" ++ name, .warning,
      s!"{unavailable} of {sampled} sampled {name} item(s) could not be " ++
      "content-verified: the target does not expose a content hash. Count parity still applies."⟩] else []) ++
  (if 0 < missing then
    [⟨"MISSING_" ++ name,
      if lt (mul (lit sourceCount) config.maxDiscrepancyPercentage) (lit missing) then .error else .warning,
      s!"{missing} {name} item(s) missing on target"⟩] else []) ++
  (if 0 < extra then
    [⟨"EXTRA_" ++ name, .warning, s!"{extra} {name} item(s) exist on target but not source"⟩] else []) ++
  (if 0 < mismatches then
    [⟨"CHECKSUM_" ++ name, .error, s!"{mismatches} {name} item(s) have content mismatches"⟩] else [])

def verifyDataType (reindexer : TargetReindexer) : DataTypeVerification :=
  let sourceCount := getSourceCount deps dataType
  let missing := (missingOnTarget sha256Hex deps dataType reindexer).length
  let extra := (extraOnTarget sha256Hex deps dataType reindexer).length
  let matchedCount : ℤ := sourceCount - missing
  let results := comparisons sha256Hex deps dataType reindexer
  let matches' := results.count .matching
  let mismatches := results.count .mismatch
  let unavailable := results.count .unavailable
  { dataType := dataType
    status := (determineVerificationStatus (ratio matchedCount sourceCount 1)
      (ratio matches' (matches' + mismatches) 1) missing extra deps.config sourceCount).toDomain
    sourceCount := sourceCount
    targetCount := getTargetCountFromReindexer sha256Hex (deps.ledger dataType .targetCount) deps.tenantId
      deps.mappingId dataType (reindexer.listEntries .targetCount)
    matchedCount := matchedCount
    missingOnTarget := missing
    extraOnTarget := extra
    checksumSampleSize := results.length
    checksumMatches := matches'
    checksumMismatches := mismatches
    checksumUnavailable := unavailable
    totalBytesSource :=
      totalSizeBytes (deps.ledger dataType .bytesSource) (scopeOf deps.tenantId deps.mappingId dataType)
    totalBytesTarget := getTotalBytesFromReindexer sha256Hex (deps.ledger dataType .bytesTarget) deps.tenantId
      deps.mappingId dataType (reindexer.listEntries .bytesTarget)
    issues := issuesOf deps.config dataType.name sourceCount results.length unavailable missing extra mismatches }

def verifyDomain : DataTypeVerification :=
  if !isDataTypeEnabled deps.config dataType then
    skipped dataType s!"{dataType.name} verification was disabled in the config — this domain was NOT checked."
  else
    match deps.reindexerFor dataType with
    | some reindexer => verifyDataType sha256Hex deps dataType reindexer
    | none =>
      let recorded := getSourceCount deps dataType
      if recorded = 0 then
        skipped dataType s!"No {dataType.name} items were recorded for this mapping, so there is nothing to verify."
      else
        notVerifiable dataType
          (s!"{recorded} {dataType.name} item(s) were copied, but the target cannot be read for this " ++
          "domain (no reindexer). Cutover is blocked: their completeness is unknown.") recorded

def calculateOverallStatus (verifications : List DataTypeVerification) : OverallStatus :=
  if verifications.any fun v => v.status == .fail || v.status == .notVerifiable then .fail
  else if verifications.any fun v => v.status == .warn then .warn
  else .pass

def calculateVerificationScore (verifications : List DataTypeVerification) : N :=
  let measured := verifications.filter fun v => v.status != .skipped && v.status != .notVerifiable
  if measured.isEmpty then lit 1
  else
    let totalScore := measured.foldl (fun sum v =>
      let matchRatio : N := ratio v.matchedCount v.sourceCount 1
      let checksumRatio : N := ratio v.checksumMatches (v.checksumMatches + v.checksumMismatches) 1
      add sum (add (mul matchRatio (lit (7 / 10))) (mul checksumRatio (lit (3 / 10))))) (lit 0)
    div totalScore (lit measured.length)

structure VerificationResult (N : Type) where
  overallStatus : OverallStatus
  score : N
  verifications : List DataTypeVerification
  totalItemsSource : ℕ
  totalItemsTarget : ℕ
  totalDiscrepancies : ℕ
  totalBytesTransferred : ℕ
  canProceedToCutover : Bool

def runVerification : VerificationResult N :=
  let all := [.mail, .calendar, .contacts, .files].map (verifyDomain sha256Hex deps)
  let overallStatus := calculateOverallStatus all
  let score : N := calculateVerificationScore all
  { overallStatus := overallStatus
    score := score
    verifications := all
    totalItemsSource := (all.map (·.sourceCount)).sum
    totalItemsTarget := (all.map (·.targetCount)).sum
    totalDiscrepancies := (all.map fun v => v.missingOnTarget + v.extraOnTarget).sum
    totalBytesTransferred := (all.map (·.totalBytesSource)).sum
    canProceedToCutover := overallStatus == .pass || (overallStatus == .warn && !lt score (lit (95 / 100))) }

end Run

end OpenMigrate.Verify
