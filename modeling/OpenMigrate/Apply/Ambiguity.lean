import OpenMigrate.Apply.AutoApply

namespace OpenMigrate

open Async PgLedger

variable {T : TargetApi}

/-- The sentence of the gate. -/
def ambiguous (sharing : ℕ) : String :=
  s!"{sharing} items in this migration hold exactly these bytes, so which one " ++
  "moved is a guess — and removing the wrong copy takes a file nobody touched. This is what an " ++
  "empty file looks like, and what a duplicate looks like. Remove the old copy in the " ++
  "target system yourself if you are sure, then choose `keep`."

section Shares

variable (L : Ledger) (scope : Scope) (a b contentHash : String)

/-- A third item. -/
def apart (key : String) : Bool := key != a && key != b

/-- The third items with these bytes that `placedItems` lists. -/
def listedApart : ℕ := (rows L scope).countP fun e => apart a b e.1 && (placed e.2 && e.2.contentHash == contentHash)

/-- Some third item with these bytes has its copy on the target. -/
def ThirdCopy (present : String → Prop) : Prop :=
  ∃ c row, apart a b c = true ∧ row? L scope c = some row ∧ row.contentHash = contentHash ∧ present c

end Shares

/-- How many of the two rows of a relocation `placedItems` leaves out. -/
def unlisted (row arrival : ItemRow) : ℕ := (if placed row then 0 else 1) + if placed arrival then 0 else 1

/-- A relocation of bytes that is recorded and still open, as it comes to the gate. -/
structure AtGate (L : Ledger) (scope : Scope) (a b : String) (row arrival : ItemRow) : Prop where
  departed : row? L scope a = some row
  arrived : row? L scope b = some arrival
  moved : row.movedToNaturalKeyHash = some b
  unkept : row.moveAcknowledgedAt = none
  elsewhere : b ≠ a
  named : b ≠ ""
  checked : arrivalCheck (row.mapRowToRecord (scope.key a)) (arrival.mapRowToRecord (scope.key b)) = none

section Counts

variable {L L' : Ledger} {scope : Scope} {a b : String} {row arrival : ItemRow} {p : ItemRow → Bool}

theorem countP_of_row (hrow : row? L scope a = some row) (p : ItemRow → Bool) :
    (rows L scope).countP (fun e => e.1 == a && p e.2) = if p row then 1 else 0 := by
  split
  · rename_i hp
    exact countP_key hrow hp
  · rename_i hp
    rw [List.countP_eq_zero]
    rintro ⟨k, r⟩ hmem hand
    rw [Bool.and_eq_true, beq_iff_eq] at hand
    obtain ⟨rfl, hr⟩ := hand
    rw [(mem_rows L).mp hmem] at hrow
    cases hrow
    exact hp hr

theorem countP_apart (hne : b ≠ a) (p : ItemRow → Bool) (l : List (String × ItemRow)) :
    l.countP (fun e => p e.2) = l.countP (fun e => e.1 == a && p e.2) + l.countP (fun e => e.1 == b && p e.2) +
      l.countP (fun e => apart a b e.1 && p e.2) := by
  induction l with
  | nil => rfl
  | cons e l ih =>
    simp only [List.countP_cons, ih]
    by_cases ha : e.1 = a
    · have hb : (e.1 == b) = false := by
        rw [beq_eq_false_iff_ne, ha]
        exact hne.symm
      simp only [ha, apart] at hb ⊢
      simp [hb]
      omega
    · by_cases hb : e.1 = b
      · simp [apart, hb, hne]
        omega
      · simp [apart, ha, hb]
        omega

theorem hashCount_apart (h : AtGate L scope a b row arrival) :
    hashCount (placedItems L scope) row.contentHash + unlisted row arrival =
      2 + listedApart L scope a b row.contentHash := by
  have hsame : arrival.contentHash = row.contentHash := (arrivalCheck_none h.checked).2.2
  have hdeparted := countP_of_row h.departed fun r => placed r && r.contentHash == row.contentHash
  have harrived := countP_of_row h.arrived fun r => placed r && r.contentHash == row.contentHash
  simp only [hsame, beq_self_eq_true, Bool.and_true] at hdeparted harrived
  rw [hashCount_eq, countP_apart h.elsewhere (fun r => placed r && r.contentHash == row.contentHash), hdeparted,
    harrived, listedApart, unlisted]
  split <;> split <;> omega

theorem relocationCheck_gate (deps : ApplyDeletionDeps T) (h : AtGate L deps.scope a b row arrival) :
    afterReads L (relocationCheck deps (row.mapRowToRecord (deps.scope.key a))) =
      .ret (if 2 < hashCount (placedItems L deps.scope) row.contentHash then
        unconfirmed (ambiguous (hashCount (placedItems L deps.scope) row.contentHash)) else none) := by
  have hnamed : truthy (some b) = some b := by simp [truthy, Option.filter, h.named]
  have hmoved : (row.mapRowToRecord (deps.scope.key a)).movedToNaturalKeyHash = some b := by
    rw [← hnamed, ← h.moved]
    rfl
  have hself : ¬ (row.mapRowToRecord (deps.scope.key a)).movedToNaturalKeyHash =
      some (row.mapRowToRecord (deps.scope.key a)).naturalKeyHash := by
    rw [hmoved]
    intro hsame
    exact h.elsewhere (Option.some.inj hsame)
  have hkey : truthy (row.mapRowToRecord (deps.scope.key a)).movedToNaturalKeyHash = some b := by
    rw [hmoved]
    exact hnamed
  have hunkept : ¬ (row.mapRowToRecord (deps.scope.key a)).moveAcknowledgedAt.isSome = true := by
    rw [show (row.mapRowToRecord (deps.scope.key a)).moveAcknowledgedAt = row.moveAcknowledgedAt from rfl, h.unkept]
    exact Bool.false_ne_true
  have hfind : find L deps.scope b = some (arrival.mapRowToRecord (deps.scope.key b)) := by
    rw [find, h.arrived]
    rfl
  rw [relocationCheck, if_neg hunkept, if_neg hself]
  simp only [hkey]
  rw [afterReads_query rfl, hfind]
  simp only [h.checked]
  rw [afterReads_query rfl, ← List.countP_eq_length_filter]
  split
  · rename_i hmany
    exact (congrArg Prog.ret (if_pos hmany)).symm
  · rename_i hfew
    exact (congrArg Prog.ret (if_neg hfew)).symm

theorem Relocated.hashCount_eq {keys : List String} (h : Relocated scope keys L L') (contentHash : String) :
    hashCount (placedItems L' scope) contentHash = hashCount (placedItems L scope) contentHash := by
  rw [OpenMigrate.hashCount_eq, OpenMigrate.hashCount_eq]
  apply h.countP_eq (p := fun r => placed r && r.contentHash == contentHash)
  intro row now hours
  rw [placed_relocated now hours]
  rfl

end Counts

section Gate

variable {L₀ L : Ledger} {a b : String} {row arrival : ItemRow} {keys : List String}

def Sample.mute : TargetApi where
  State := Unit
  Session := Unit
  Cmd := Empty
  Resp := Empty.elim
  Inp := Unit
  Act := Empty
  exec c := c.elim
  act c := c.elim
  fresh := ()

def Sample.gates : ApplyDeletionDeps Sample.mute where
  scope := ⟨"t", "m", .file⟩
  allowApplyDeletions := true
  targetFolderPrefix := none
  removeItem := none
  hasItem := none
  removeItem_asks := by simp
  hasItem_asks := by simp

def Sample.fileRow (targetRef : String) (movedTo : Option String) : ItemRow where
  domain := .file
  collection := "/"
  contentHash := "h"
  sizeBytes := some 1
  status := .copied
  targetRef := targetRef
  sourceVersion := none
  targetVersion := none
  sourceRefHref := none
  movedToCollection := movedTo.map fun _ => "/"
  movedToNaturalKeyHash := movedTo

/-- A file was renamed from `c` to `a`, and the ledger has both. -/
def Sample.renamed : Ledger :=
  AList.insert ⟨"t", "m", "c"⟩ (Sample.fileRow "c" (some "a")) (AList.insert ⟨"t", "m", "a"⟩ (Sample.fileRow "a" none) ∅)

def Sample.renamedApplied : Ledger := (exec Sample.renamed 1 (.applyRelocation Sample.gates.scope "c")).2

/-- And from `a` to `b` after the first rename was applied. -/
def Sample.renamedTwice : Ledger :=
  (exec (AList.insert ⟨"t", "m", "b"⟩ (Sample.fileRow "b" none) Sample.renamedApplied) 2
    (.recordMove Sample.gates.scope "a" "/" (some "b"))).2

theorem renamed_twice_atGate :
    AtGate Sample.renamedTwice Sample.gates.scope "a" "b"
      (moveValues 2 "/" (some "b") (Sample.fileRow "a" none)) (Sample.fileRow "b" none) where
  departed := rfl
  arrived := rfl
  moved := rfl
  unkept := rfl
  elsewhere := by decide
  named := by decide
  checked := by decide

theorem third_copy_of_renamed : ¬ ThirdCopy Sample.renamedTwice Sample.gates.scope "a" "b" "h" fun k => k = "a" ∨ k = "b" := by
  rintro ⟨c, row, hapart, -, -, rfl | rfl⟩
  · cases hapart
  · cases hapart

end Gate

end OpenMigrate
