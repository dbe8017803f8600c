import OpenMigrate.Tree.Chain
import Mathlib.Data.List.Basic

namespace OpenMigrate.Jmap

open OpenMigrate.Tree

/-- A node, reduced to the two fields identity is built from; no parent at the root of the account's tree. -/
structure FileNodeRef where
  id : String
  name : String
  parentId : Option String
  deriving DecidableEq

def MAX_DEPTH : ℕ := 256

section Refusals

variable (nodeId currentId : String)

def hasCycle : String :=
  "the parent chain for " ++ nodeId ++ " contains a cycle (revisited " ++ currentId ++ "), so it has " ++
    "no path. Nothing was keyed."

def isBroken : String :=
  "the parent chain for " ++ nodeId ++ " is broken: " ++ currentId ++ " was not among the nodes " ++
    "supplied, so any path built here would be a suffix of the real one and would key " ++
    "to something no other transport produces."

def hasEmptyName : String := "node " ++ nodeId ++ " has an empty name; it cannot be a path segment."

def hasSlash (quoted : String) : String :=
  "node " ++ nodeId ++ " has a '/' in its name (" ++ quoted ++ "), which makes its " ++
    "path ambiguous against a real separator. WebDAV cannot express this, so no " ++
    "agreeing key exists."

def tooDeep : String :=
  "the parent chain for " ++ nodeId ++ " is deeper than " ++ toString MAX_DEPTH ++ "; treating it as broken."

end Refusals

variable (stringify : String → String) (nodesById : String → Option FileNodeRef)

/-- One node of the chain, unless something is wrong with it. -/
def visit (nodeId : String) (seen : List String) (currentId : String) : Except String FileNodeRef :=
  if currentId ∈ seen then .error (hasCycle nodeId currentId)
  else
    match nodesById currentId with
    | none => .error (isBroken nodeId currentId)
    | some node =>
      if node.name = "" then .error (hasEmptyName node.id)
      else if '/' ∈ node.name.toList then .error (hasSlash node.id (stringify node.name))
      else .ok node

/-- The names of the chain in front of those that are known, at most so many of them. -/
def climb (nodeId : String) : ℕ → List String → Option String → List String → Except String (List String)
  | _, _, none, segments => .ok segments
  | 0, seen, some currentId, _ => (visit stringify nodesById nodeId seen currentId).bind fun _ => .error (tooDeep nodeId)
  | depth + 1, seen, some currentId, segments =>
    (visit stringify nodesById nodeId seen currentId).bind fun node =>
      climb nodeId depth (currentId :: seen) node.parentId (node.name :: segments)

def reconstructFileNodePath (nodeId : String) : Except String String :=
  (climb stringify nodesById nodeId MAX_DEPTH [] (some nodeId) []).map ("/".intercalate ·)

/-- The last node of each identifier. -/
def fileNodeIndex (nodes : List FileNodeRef) (id : String) : Option FileNodeRef :=
  nodes.reverse.find? fun node => node.id = id

variable {stringify nodesById} {nodeId : String} {depth : ℕ} {seen segments found : List String} {current : Option String}

def parentsOf (nodesById : String → Option FileNodeRef) : Parents String String :=
  fun id => (nodesById id).map fun node => (node.name, node.parentId)

theorem visit_ok {currentId : String} {node : FileNodeRef} (h : visit stringify nodesById nodeId seen currentId = .ok node) :
    currentId ∉ seen ∧ nodesById currentId = some node ∧ node.name ≠ "" ∧ '/' ∉ node.name.toList := by
  unfold visit at h
  by_cases hseen : currentId ∈ seen
  · rw [if_pos hseen] at h
    cases h
  · rw [if_neg hseen] at h
    cases hnode : nodesById currentId with
    | none =>
      rw [hnode] at h
      cases h
    | some node' =>
      simp only [hnode] at h
      by_cases hname : node'.name = ""
      · rw [if_pos hname] at h
        cases h
      · rw [if_neg hname] at h
        by_cases hslash : '/' ∈ node'.name.toList
        · rw [if_pos hslash] at h
          cases h
        · rw [if_neg hslash] at h
          obtain rfl := Except.ok.inj h
          exact ⟨hseen, rfl, hname, hslash⟩

theorem climb_leads (h : climb stringify nodesById nodeId depth seen current segments = .ok found) :
    ∃ P, Leads (parentsOf nodesById) P current ∧ found = P ++ segments ∧ P.length ≤ depth ∧
      ∀ name ∈ P, name ≠ "" ∧ '/' ∉ name.toList := by
  induction depth generalizing seen current segments with
  | zero =>
    cases current with
    | none =>
      obtain rfl := Except.ok.inj h
      exact ⟨[], .top, rfl, Nat.zero_le _, nofun⟩
    | some currentId =>
      rw [climb] at h
      cases hvisit : visit stringify nodesById nodeId seen currentId with
      | error reason =>
        rw [hvisit] at h
        cases h
      | ok node =>
        rw [hvisit] at h
        cases h
  | succ depth ih =>
    cases current with
    | none =>
      obtain rfl := Except.ok.inj h
      exact ⟨[], .top, rfl, Nat.zero_le _, nofun⟩
    | some currentId =>
      rw [climb] at h
      cases hvisit : visit stringify nodesById nodeId seen currentId with
      | error reason =>
        rw [hvisit] at h
        cases h
      | ok node =>
        rw [hvisit] at h
        obtain ⟨-, hnode, hname⟩ := visit_ok hvisit
        obtain ⟨P, hP, hfound, hlength, hnames⟩ := ih h
        refine ⟨P ++ [node.name], .under hP (by simp [parentsOf, hnode]), ?_, ?_, ?_⟩
        · rw [hfound, List.append_assoc, List.singleton_append]
        · simpa using hlength
        · intro name hmem
          obtain hmem | hmem := List.mem_append.mp hmem
          · exact hnames name hmem
          · rw [List.mem_singleton.mp hmem]
            exact hname

end OpenMigrate.Jmap
