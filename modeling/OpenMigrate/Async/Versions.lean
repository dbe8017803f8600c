import Mathlib.Data.List.Nodup
import Mathlib.Data.Nat.Notation
import Mathlib.Tactic.Common

namespace OpenMigrate.Async

/-- A row of a table under row locks: one that a session has inserted, or one that is committed, with the version that
a session has written since. -/
inductive Cell (Row : Type) where
  | inserted (session : ℕ) (row : Row)
  | kept (row : Row) (written : Option (ℕ × Row))

variable {Row κ : Type} {session : ℕ}

namespace Cell

def base : Cell Row → Row
  | inserted _ row => row
  | kept row _ => row

def latest : Cell Row → Row
  | inserted _ row => row
  | kept _ (some written) => written.2
  | kept row none => row

def committed : Cell Row → Option Row
  | inserted .. => none
  | kept row _ => some row

/-- The session whose transaction has the row locked. -/
def holder : Cell Row → Option ℕ
  | inserted session _ => some session
  | kept _ written => written.map Prod.fst

def heldByOther (session : ℕ) (c : Cell Row) : Bool := c.holder.any (· != session)

/-- The version that a statement of the session sees. -/
def sees (session : ℕ) (c : Cell Row) : Option Row := if c.holder = some session then some c.latest else c.committed

def write (session : ℕ) (f : Row → Row) : Cell Row → Cell Row
  | inserted owner row => inserted owner (f row)
  | kept row written => kept row (some (session, f (kept row written).latest))

def commit (session : ℕ) (c : Cell Row) : Cell Row := if c.holder = some session then kept c.latest none else c

def rollback (session : ℕ) : Cell Row → Option (Cell Row)
  | inserted owner row => if owner = session then none else some (inserted owner row)
  | kept row written => some (kept row (written.filter (·.1 != session)))

end Cell

namespace Cells

variable (cells : List (Cell Row))

/-- The rows that are committed. -/
def rows : List Row := cells.filterMap Cell.committed

def writeAt (session : ℕ) (p : Cell Row → Bool) (f : Row → Row) : List (Cell Row) :=
  cells.map fun c => if p c then c.write session f else c

def commit (session : ℕ) : List (Cell Row) := cells.map (Cell.commit session)

def rollback (session : ℕ) : List (Cell Row) := cells.filterMap (Cell.rollback session)

end Cells

section Cell

variable {c : Cell Row} {f : Row → Row}

theorem Cell.holder_write (c : Cell Row) (f : Row → Row) (h : c.heldByOther session = false) :
    (c.write session f).holder = some session := by
  cases c with
  | inserted owner row => simpa [heldByOther, holder, write] using h
  | kept row written => rfl

theorem Cell.committed_write (c : Cell Row) (f : Row → Row) : (c.write session f).committed = c.committed := by
  cases c <;> rfl

theorem Cell.latest_write (c : Cell Row) (f : Row → Row) : (c.write session f).latest = f c.latest := by
  cases c <;> rfl

theorem Cell.holder_commit (c : Cell Row) {k : ℕ} : (c.commit session).holder = some k ↔ c.holder = some k ∧
    k ≠ session := by
  unfold commit
  split
  · rename_i hholder
    constructor
    · intro h
      cases h
    · rintro ⟨hk, hne⟩
      exact absurd (Option.some.inj (hk.symm.trans hholder)) hne
  · rename_i hholder
    constructor
    · intro h
      refine ⟨h, ?_⟩
      rintro rfl
      exact hholder h
    · exact And.left

theorem Cell.latest_commit (c : Cell Row) : (c.commit session).latest = c.latest := by
  unfold commit
  split
  · rfl
  · rfl

theorem Cell.commit_other (h : c.holder ≠ some session) : c.commit session = c := if_neg h

theorem Cell.commit_own (h : c.holder = some session) : c.commit session = kept c.latest none := if_pos h

theorem Cell.latest_of_free (h : c.holder = none) : ∃ row, c = kept row none := by
  cases c with
  | inserted owner row => cases h
  | kept row written =>
    cases written with
    | none => exact ⟨row, rfl⟩
    | some written => cases h

theorem Cell.sees_cases {row : Row} (h : c.sees session = some row) :
    c.holder = some session ∧ c.latest = row ∨ c.committed = some row := by
  unfold sees at h
  split at h
  · rename_i hholder
    exact .inl ⟨hholder, Option.some.inj h⟩
  · exact .inr h

/-- What is seen of a row that nobody else has locked is its newest version. -/
theorem Cell.sees_latest {row : Row} (h : c.sees session = some row) (hfree : c.heldByOther session = false) :
    c.latest = row := by
  unfold sees at h
  split at h
  · exact Option.some.inj h
  · rename_i hholder
    cases c with
    | inserted owner row => cases h
    | kept row' written =>
      cases written with
      | none => exact Option.some.inj h
      | some written => simp_all [heldByOther, holder]

/-- What a rollback leaves of a row: the row as it was, or without what the session has written. -/
theorem Cell.rollback_cases {c' : Cell Row} (h : c.rollback session = some c') :
    c' = c ∧ c.holder ≠ some session ∨ c.holder = some session ∧ ∃ row written, c = kept row written ∧ c' =
      kept row none := by
  cases c with
  | inserted owner row =>
    simp only [rollback] at h
    split at h
    · cases h
    · rename_i hne
      cases h
      exact .inl ⟨rfl, fun hholder => hne (Option.some.inj hholder)⟩
  | kept row written =>
    cases written with
    | none =>
      cases h
      exact .inl ⟨rfl, by simp [holder]⟩
    | some written =>
      simp only [rollback, Option.some.injEq] at h
      by_cases hsession : written.1 = session
      · refine .inr ⟨by simp [holder, hsession], row, some written, rfl, ?_⟩
        rw [← h]
        simp [Option.filter, hsession]
      · refine .inl ⟨?_, by simpa [holder] using hsession⟩
        rw [← h]
        simp [Option.filter, hsession]

theorem Cell.committed_rollback : (c.rollback session).bind committed = c.committed := by
  cases c with
  | inserted owner row =>
    simp only [rollback]
    split <;> rfl
  | kept row written => rfl

end Cell

section Cells

variable {cells : List (Cell Row)} {p : Cell Row → Bool} {f : Row → Row} {row : Row}

theorem Cells.mem_rows : row ∈ rows cells ↔ ∃ c ∈ cells, c.committed = some row := List.mem_filterMap

theorem Cells.rows_writeAt : rows (writeAt cells session p f) = rows cells := by
  rw [rows, writeAt, List.filterMap_map]
  apply List.filterMap_congr
  intro c _
  simp only [Function.comp]
  split
  · exact c.committed_write f
  · rfl

theorem Cells.rows_rollback : rows (rollback cells session) = rows cells := by
  rw [rows, rollback, List.filterMap_filterMap]
  apply List.filterMap_congr
  intro c _
  exact Cell.committed_rollback

theorem Cells.rows_inserted : rows (cells ++ [.inserted session row]) = rows cells := by
  simp [rows, Cell.committed]

variable {R : Row → Row → Prop}

/-- Every committed row is still there, changed only as `R` allows. -/
def Cells.Later (R : Row → Row → Prop) (before after : List Row) : Prop := ∀ row ∈ before, ∃ row' ∈ after, R row row'

theorem Cells.later_commit (hrefl : ∀ row, R row row) (h : ∀ c ∈ cells, R c.base c.latest) :
    Later R (rows cells) (rows (commit cells session)) := by
  intro row hrow
  obtain ⟨c, hc, hcommitted⟩ := mem_rows.mp hrow
  have hmem : c.commit session ∈ commit cells session := List.mem_map_of_mem hc
  cases c with
  | inserted owner row' => cases hcommitted
  | kept row' written =>
    obtain rfl : row' = row := Option.some.inj hcommitted
    by_cases hheld : (Cell.kept row' written).holder = some session
    · rw [Cell.commit_own hheld] at hmem
      exact ⟨_, mem_rows.mpr ⟨_, hmem, rfl⟩, h _ hc⟩
    · rw [Cell.commit_other hheld] at hmem
      exact ⟨row', mem_rows.mpr ⟨_, hmem, rfl⟩, hrefl row'⟩

section Keys

variable (key : Row → κ)

theorem Cells.keys_writeAt (hkey : ∀ row row', R row row' → key row = key row')
    (hf : ∀ c ∈ cells, p c = true → R c.latest (f c.latest)) :
    (writeAt cells session p f).map (fun c => key c.base) = cells.map fun c => key c.base := by
  rw [writeAt, List.map_map]
  apply List.map_congr_left
  intro c hc
  simp only [Function.comp]
  split
  · rename_i hp
    have hkept := hkey _ _ (hf c hc hp)
    cases c with
    | inserted owner row => exact hkept.symm
    | kept row written => rfl
  · rfl

theorem Cells.keys_commit (hkey : ∀ row row', R row row' → key row = key row') (h : ∀ c ∈ cells, R c.base c.latest) :
    (commit cells session).map (fun c => key c.base) = cells.map fun c => key c.base := by
  rw [commit, List.map_map]
  apply List.map_congr_left
  intro c hc
  simp only [Function.comp, Cell.commit]
  split
  · exact (hkey _ _ (h c hc)).symm
  · rfl

theorem Cells.nodup_writeAt (hkey : ∀ row row', R row row' → key row = key row')
    (hf : ∀ c ∈ cells, p c = true → R c.latest (f c.latest)) (h : (cells.map fun c => key c.base).Nodup) :
    ((writeAt cells session p f).map fun c => key c.base).Nodup := by
  rw [keys_writeAt key hkey hf]
  exact h

theorem Cells.nodup_commit (hkey : ∀ row row', R row row' → key row = key row') (hR : ∀ c ∈ cells, R c.base c.latest)
    (h : (cells.map fun c => key c.base).Nodup) : ((commit cells session).map fun c => key c.base).Nodup := by
  rw [keys_commit key hkey hR]
  exact h

theorem Cells.keys_rollback : ((rollback cells session).map fun c => key c.base).Sublist
    (cells.map fun c => key c.base) := by
  induction cells with
  | nil => exact List.Sublist.slnil
  | cons c cells ih =>
    rw [rollback, List.filterMap_cons]
    cases hc : c.rollback session with
    | none => exact ih.cons _
    | some c' =>
      have hbase : key c'.base = key c.base := by
        obtain ⟨rfl, -⟩ | ⟨-, row, written, rfl, rfl⟩ := Cell.rollback_cases hc
        · rfl
        · rfl
      simp only [List.map_cons, hbase]
      exact ih.cons_cons _

theorem Cells.eq_of_key (h : (cells.map fun c => key c.base).Nodup) {c c' : Cell Row} (hc : c ∈ cells)
    (hc' : c' ∈ cells)
    (hkey : key c.base = key c'.base) : c = c' := List.inj_on_of_nodup_map h hc hc' hkey

theorem Cells.nodup_rows (h : (cells.map fun c => key c.base).Nodup) : ((rows cells).map key).Nodup := by
  have hsub : ((rows cells).map key).Sublist (cells.map fun c => key c.base) := by
    rw [rows]
    induction cells with
    | nil => exact List.Sublist.slnil
    | cons c cells ih =>
      have hrest := ih (List.nodup_cons.mp h).2
      cases c with
      | inserted owner row => exact hrest.cons _
      | kept row written => exact hrest.cons_cons _
  exact h.sublist hsub

end Keys

end Cells

end OpenMigrate.Async
