import OpenMigrate.Jmap.FileTree

namespace OpenMigrate.Jmap

open OpenMigrate.Tree

section Loop

variable (stringify : String → String) (nodesById : String → Option FileNodeRef)

/-- The loop as it is written: rounds of it, with what was seen, where it stands, and its segments from the root. -/
def rounds (nodeId : String) : ℕ → List String → Option String → List String → Option (Except String (List String))
  | 0, _, _, _ => none
  | _ + 1, _, none, segments => some (.ok segments)
  | n + 1, seen, some currentId, segments =>
    match visit stringify nodesById nodeId seen currentId with
    | .error reason => some (.error reason)
    | .ok node =>
      if MAX_DEPTH < (node.name :: segments).length then some (.error (tooDeep nodeId))
      else rounds nodeId n (currentId :: seen) node.parentId (node.name :: segments)

variable {stringify nodesById} {nodeId : String} {seen segments : List String} {current : Option String}

/-- The loop comes to its end in a round for each name that may still come, and one more. -/
theorem rounds_climb {n depth : ℕ} (hdepth : depth + segments.length = MAX_DEPTH) (hn : depth < n) :
    rounds stringify nodesById nodeId n seen current segments =
      some (climb stringify nodesById nodeId depth seen current segments) := by
  induction depth generalizing n seen current segments with
  | zero =>
    cases n with
    | zero => cases hn
    | succ n =>
      cases current with
      | none => rfl
      | some currentId =>
        rw [rounds, climb]
        cases visit stringify nodesById nodeId seen currentId with
        | error reason => rfl
        | ok node =>
          have hdeep : MAX_DEPTH < (node.name :: segments).length := by
            rw [List.length_cons]
            omega
          dsimp only
          rw [if_pos hdeep]
          rfl
  | succ depth ih =>
    cases n with
    | zero => cases hn
    | succ n =>
      cases current with
      | none => rfl
      | some currentId =>
        rw [rounds, climb]
        cases visit stringify nodesById nodeId seen currentId with
        | error reason => rfl
        | ok node =>
          have hlength : depth + (node.name :: segments).length = MAX_DEPTH := by
            rw [List.length_cons]
            omega
          have hdeep : ¬ MAX_DEPTH < (node.name :: segments).length := by omega
          dsimp only
          rw [if_neg hdeep]
          exact ih hlength (Nat.lt_of_succ_lt_succ hn)

end Loop

section Exact

variable {stringify : String → String} {nodesById : String → Option FileNodeRef} {nodeId : String}
  {seen segments P Q : List String}

/-- A name a path can hold. -/
def Plain (name : String) : Prop := name ≠ "" ∧ '/' ∉ name.toList

theorem visit_of_plain {currentId : String} {node : FileNodeRef} (hseen : currentId ∉ seen)
    (hnode : nodesById currentId = some node) (hplain : Plain node.name) :
    visit stringify nodesById nodeId seen currentId = .ok node := by
  rw [visit, if_neg hseen, hnode]
  dsimp only
  rw [if_neg hplain.1, if_neg hplain.2]

/-- What was seen lies deeper than what is still to come. -/
def Below (parents : Parents String String) (P seen : List String) : Prop :=
  ∀ id ∈ seen, ∃ Q, Leads parents Q (some id) ∧ P.length < Q.length

theorem climb_of_leads {current : Option String} (h : Leads (parentsOf nodesById) P current) {depth : ℕ}
    (hdepth : P.length ≤ depth) (hplain : ∀ name ∈ P, Plain name) (hseen : Below (parentsOf nodesById) P seen) :
    climb stringify nodesById nodeId depth seen current segments = .ok (P ++ segments) := by
  induction h generalizing depth seen segments with
  | top => cases depth <;> rfl
  | @under P parent id name above hid ih =>
    obtain ⟨node, hnode, hentry⟩ := Option.map_eq_some_iff.mp hid
    obtain ⟨rfl, rfl⟩ := Prod.mk.inj hentry
    have hfresh : id ∉ seen := by
      intro hmem
      obtain ⟨Q, hQ, hlonger⟩ := hseen id hmem
      rw [hQ.unique (above.under hid)] at hlonger
      exact lt_irrefl _ hlonger
    cases depth with
    | zero => simp at hdepth
    | succ depth =>
      have habove : Below (parentsOf nodesById) P (id :: seen) := by
        intro id' hid'
        obtain rfl | hid' := List.mem_cons.mp hid'
        · exact ⟨P ++ [node.name], above.under hid, by simp⟩
        · obtain ⟨Q, hQ, hlonger⟩ := hseen id' hid'
          exact ⟨Q, hQ, lt_of_le_of_lt (by simp) hlonger⟩
      rw [climb, visit_of_plain hfresh hnode (hplain node.name (by simp)), List.append_assoc]
      exact ih (by simpa using hdepth) (fun name hname => hplain name (List.mem_append_left _ hname)) habove

variable (stringify nodesById) in
theorem reconstruct_iff (nodeId path : String) :
    reconstructFileNodePath stringify nodesById nodeId = .ok path ↔
      ∃ P, Leads (parentsOf nodesById) P (some nodeId) ∧ P.length ≤ MAX_DEPTH ∧ (∀ name ∈ P, Plain name) ∧
        path = "/".intercalate P := by
  constructor
  · intro h
    unfold reconstructFileNodePath at h
    cases hclimb : climb stringify nodesById nodeId MAX_DEPTH [] (some nodeId) [] with
    | error reason =>
      rw [hclimb] at h
      cases h
    | ok names =>
      rw [hclimb] at h
      obtain ⟨P, hP, hnames, hlength, hplain⟩ := climb_leads hclimb
      rw [List.append_nil] at hnames
      exact ⟨P, hP, hlength, hplain, (Except.ok.inj h).symm.trans (hnames ▸ rfl)⟩
  · rintro ⟨P, hP, hlength, hplain, rfl⟩
    have hnone : Below (parentsOf nodesById) P [] := nofun
    rw [reconstructFileNodePath, climb_of_leads hP hlength hplain hnone, List.append_nil]
    rfl

/-- No two nodes of the table have one parent and one name. -/
def SiblingsDiffer (nodesById : String → Option FileNodeRef) : Prop :=
  ∀ id id' node node', nodesById id = some node → nodesById id' = some node' →
    (node.parentId, node.name) = (node'.parentId, node'.name) → id = id'

theorem SiblingsDiffer.parents (h : SiblingsDiffer nodesById) (id id' : String) (e : String × Option String)
    (hid : parentsOf nodesById id = some e) (hid' : parentsOf nodesById id' = some e) : id = id' := by
  obtain ⟨node, hnode, rfl⟩ := Option.map_eq_some_iff.mp hid
  obtain ⟨node', hnode', hsame⟩ := Option.map_eq_some_iff.mp hid'
  obtain ⟨hname, hparent⟩ := Prod.mk.inj hsame
  exact h id id' node node' hnode hnode' (by rw [hname, hparent])

theorem reconstruct_inj (hdiffer : SiblingsDiffer nodesById) {a b path : String}
    (ha : reconstructFileNodePath stringify nodesById a = .ok path)
    (hb : reconstructFileNodePath stringify nodesById b = .ok path) : a = b := by
  obtain ⟨P, hP, -, hplainP, rfl⟩ := (reconstruct_iff stringify nodesById a path).mp ha
  obtain ⟨Q, hQ, -, hplainQ, hpath⟩ := (reconstruct_iff stringify nodesById b _).mp hb
  have hsame : P = Q := by rw [← segmentsOf_intercalate hplainP, hpath, segmentsOf_intercalate hplainQ]
  rw [← hsame] at hQ
  exact Option.some.inj (hP.inj hdiffer.parents hQ)

end Exact

/-- The loop ends; it gives a path exactly for a chain of plain names that reaches the root within the depth; and
where siblings differ, a path tells its node. -/
theorem reconstructFileNodePath_exact (stringify : String → String) (nodesById : String → Option FileNodeRef) :
    (∀ nodeId n, MAX_DEPTH < n → (rounds stringify nodesById nodeId n [] (some nodeId) []).map
      (fun result => result.map ("/".intercalate ·)) = some (reconstructFileNodePath stringify nodesById nodeId)) ∧
    (∀ nodeId, (∃ path, reconstructFileNodePath stringify nodesById nodeId = .ok path) ↔
      ∃ P, Leads (parentsOf nodesById) P (some nodeId) ∧ P.length ≤ MAX_DEPTH ∧
        ∀ name ∈ P, name ≠ "" ∧ '/' ∉ name.toList) ∧
    (SiblingsDiffer nodesById → ∀ a b path, reconstructFileNodePath stringify nodesById a = .ok path →
      reconstructFileNodePath stringify nodesById b = .ok path → a = b) := by
  refine ⟨?_, ?_, ?_⟩
  · intro nodeId n hn
    rw [rounds_climb (Nat.add_zero MAX_DEPTH) hn]
    rfl
  · intro nodeId
    constructor
    · rintro ⟨path, h⟩
      obtain ⟨P, hP, hlength, hplain, -⟩ := (reconstruct_iff stringify nodesById nodeId path).mp h
      exact ⟨P, hP, hlength, hplain⟩
    · rintro ⟨P, hP, hlength, hplain⟩
      exact ⟨_, (reconstruct_iff stringify nodesById nodeId _).mpr ⟨P, hP, hlength, hplain, rfl⟩⟩
  · intro hdiffer a b path ha hb
    exact reconstruct_inj hdiffer ha hb

end OpenMigrate.Jmap
