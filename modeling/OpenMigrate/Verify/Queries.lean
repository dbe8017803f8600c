import OpenMigrate.Ledger.Effect
import OpenMigrate.Sync.Reconcile
import OpenMigrate.Dav.ObjectWriter
import OpenMigrate.Dav.FileWriter
import Mathlib.Data.List.Sort
import Mathlib.Algebra.Ring.Nat

namespace OpenMigrate.Verify

open PgLedger

inductive DataType where
  | mail
  | calendar
  | contacts
  | files
  deriving DecidableEq

def DataType.name : DataType → String
  | mail => "mail"
  | calendar => "calendar"
  | contacts => "contacts"
  | files => "files"

def mapDataTypeToDomain : DataType → Domain
  | .mail => .email
  | .calendar => .calendar
  | .contacts => .contact
  | .files => .file

/-- An item as the target's own listing has it. -/
structure TargetEntry where
  naturalKey : String
  targetId : String
  mailboxId : String
  contentHash : Option String := none
  sizeBytes : Option ℕ := none
  deriving DecidableEq

variable (sha256Hex : String → String)

def hashTargetNaturalKey (dataType : DataType) (rawKey : String) : String :=
  match dataType with
  | .mail => naturalKeyHash sha256Hex rawKey
  | .calendar => Dav.calendarNaturalKeyHash sha256Hex rawKey
  | .contacts => Dav.contactNaturalKeyHash sha256Hex rawKey
  | .files => Dav.fileNaturalKeyHash sha256Hex rawKey

section Reader

variable (L : Ledger) (scope : Scope)

/-- The rows every query of the reader looks at: all but those the owner left behind. -/
def counted : List (String × ItemRow) := (rows L scope).filter fun e => e.2.status != .leftBehind

def countItems : ℕ := (counted L scope).length

def totalSizeBytes : ℕ := ((counted L scope).map fun e => e.2.sizeBytes.getD 0).sum

/-- ORDER BY natural_key_hash LIMIT count -/
def getSamples (count : ℕ) : List (String × String) :=
  (((counted L scope).map fun e => (e.1, e.2.contentHash)).insertionSort fun a b => a.1 ≤ b.1).take count

def getAllNaturalKeyHashes : List String := (counted L scope).map (·.1)

theorem mem_hashes {key : String} :
    key ∈ getAllNaturalKeyHashes L scope ↔ ∃ row, row? L scope key = some row ∧ row.status ≠ .leftBehind := by
  simp only [getAllNaturalKeyHashes, counted, List.mem_map, List.mem_filter, Prod.exists, bne_iff_ne]
  constructor
  · rintro ⟨k, row, ⟨hmem, hstatus⟩, rfl⟩
    exact ⟨row, (mem_rows L).mp hmem, hstatus⟩
  · rintro ⟨row, hrow, hstatus⟩
    exact ⟨key, row, ⟨(mem_rows L).mpr hrow, hstatus⟩, rfl⟩

end Reader

section Target

variable (L : Ledger) (tenantId mappingId : String) (dataType : DataType) (entries : List TargetEntry)

def scopeOf : Scope := ⟨tenantId, mappingId, mapDataTypeToDomain dataType⟩

def targetKeys : List String := entries.map fun entry => hashTargetNaturalKey sha256Hex dataType entry.naturalKey

def findMissingOnTarget : List String :=
  (getAllNaturalKeyHashes L (scopeOf tenantId mappingId dataType)).filter
    fun hash => !(targetKeys sha256Hex dataType entries).contains hash

/-- An extra by its id and its raw key; a ledger that expects nothing finds nothing extra. -/
def findExtraOnTarget : List (String × String) :=
  let ledgerHashes := getAllNaturalKeyHashes L (scopeOf tenantId mappingId dataType)
  if ledgerHashes.isEmpty then []
  else (entries.filter fun entry => !ledgerHashes.contains (hashTargetNaturalKey sha256Hex dataType entry.naturalKey)).map
    fun entry => (entry.targetId, entry.naturalKey)

def getTargetCountFromReindexer : ℕ :=
  (entries.filter fun entry => (getAllNaturalKeyHashes L (scopeOf tenantId mappingId dataType)).contains
    (hashTargetNaturalKey sha256Hex dataType entry.naturalKey)).length

/-- The sum of the sizes the target reports, unless one that matters is missing. -/
def getTotalBytesFromReindexer : Option ℕ :=
  let matched := entries.filter fun entry => (getAllNaturalKeyHashes L (scopeOf tenantId mappingId dataType)).contains
    (hashTargetNaturalKey sha256Hex dataType entry.naturalKey)
  if matched.all fun entry => entry.sizeBytes.isSome then some (matched.map fun entry => entry.sizeBytes.getD 0).sum
  else none

theorem mem_missing {key : String} : key ∈ findMissingOnTarget sha256Hex L tenantId mappingId dataType entries ↔
    key ∈ getAllNaturalKeyHashes L (scopeOf tenantId mappingId dataType) ∧
      key ∉ targetKeys sha256Hex dataType entries := by
  simp [findMissingOnTarget]

end Target

end OpenMigrate.Verify
