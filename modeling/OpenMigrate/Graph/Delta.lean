import OpenMigrate.Text
import Mathlib.Data.List.Infix
import Mathlib.Tactic.Common

namespace OpenMigrate.Graph.Delta

universe u

/-- What a delta query answers, page after page: each page but the last has a link to the next. -/
inductive Paging (α : Type u) where
  | failed (status : ℕ) (body : String)
  | last (value : List α) (deltaLink : Option (List Char))
  | more (value : List α) (rest : Paging α)

variable {α : Type u}

/-- All that the pages report. -/
def Paging.values : Paging α → List α
  | failed _ _ => []
  | last value _ => value
  | more value rest => value ++ rest.values

def MAX_DELTA_PAGES : ℕ := 10000

/-- A source that follows delta links: the tag of its cursors, and what its errors call it and its items. -/
structure Source where
  tag : List Char
  name : String
  items : String

def contacts : Source := ⟨"graph-contacts-delta:".toList, "Contacts", "contacts"⟩

def calendar : Source := ⟨"graph-delta:".toList, "Calendar", "events"⟩

variable (source : Source)

/-- The loop over the pages, with `hops` left before it refuses: what they report, and the link of the last. -/
def readPages (path : String) : ℕ → Paging α → Except String (List α × Option (List Char))
  | 0, _ => .error (s!"{source.name} delta paging passed {MAX_DELTA_PAGES} pages for \"{path}\" — " ++
      "refusing to keep requesting.")
  | _ + 1, .failed status body => .error s!"Failed to list {source.items}: {status} - {body}"
  | _ + 1, .last value deltaLink => .ok (value, deltaLink)
  | hops + 1, .more value rest => (readPages path hops rest).map fun r => (value ++ r.1, r.2)

def encodeCursor (folderPath deltaLink : List Char) : List Char := source.tag ++ (folderPath ++ ':' :: deltaLink)

/-- The delta link of a cursor, unless it is none of this source. -/
def decodeCursor (value : List Char) : Option (List Char) :=
  if source.tag.isPrefixOf value then
    let parts := (value.drop source.tag.length).splitOn ':'
    if parts.length < 2 then none else some (List.intercalate [':'] (parts.drop 1))
  else none

/-- Where a listing begins: at the link of the cursor, or at the folder's first page. -/
def firstUrl (folderUrl : List Char) (cursor : Option (List Char)) : List Char :=
  (cursor.bind (decodeCursor source)).getD (folderUrl ++ "/delta".toList)

/-- `path.match(/marker([^/]+)/)`: what follows the first marker that a name follows. -/
def idBehind (marker : List Char) : List Char → Option (List Char)
  | [] => none
  | c :: rest =>
    if marker.isPrefixOf (c :: rest) ∧ ((c :: rest).drop marker.length).takeWhile (· ≠ '/') ≠ [] then
      some (((c :: rest).drop marker.length).takeWhile (· ≠ '/'))
    else idBehind marker rest

theorem idBehind_marker {marker id : List Char} (hmarker : marker ≠ []) (hid : id ≠ []) (hplain : '/' ∉ id) :
    idBehind marker (marker ++ id) = some id := by
  have htake : ((marker ++ id).drop marker.length).takeWhile (· ≠ '/') = id := by
    rw [List.drop_left, List.takeWhile_eq_self_iff]
    intro c hc
    rw [decide_eq_true_eq]
    rintro rfl
    exact hplain hc
  obtain ⟨c, rest, rfl⟩ := List.exists_cons_of_ne_nil hmarker
  rw [List.cons_append, idBehind, ← List.cons_append, htake, if_pos]
  exact ⟨List.isPrefixOf_iff_prefix.mpr (List.prefix_append _ _), hid⟩

variable {source}

theorem readPages_values {path : String} {hops : ℕ} {paging : Paging α} {r : List α × Option (List Char)}
    (h : readPages source path hops paging = .ok r) : r.1 = paging.values := by
  induction paging generalizing hops r with
  | failed status body => cases hops <;> cases h
  | last value deltaLink =>
    cases hops with
    | zero => cases h
    | succ hops =>
      cases h
      rfl
  | more value rest ih =>
    cases hops with
    | zero => cases h
    | succ hops =>
      rw [readPages] at h
      cases hrest : readPages source path hops rest with
      | error e =>
        rw [hrest] at h
        cases h
      | ok r' =>
        rw [hrest] at h
        cases h
        rw [Paging.values, ← ih hrest]

end OpenMigrate.Graph.Delta
