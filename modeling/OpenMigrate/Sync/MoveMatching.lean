import OpenMigrate.Async.Completed
import OpenMigrate.Matching.Greedy
import OpenMigrate.Sync.DomainSync

namespace OpenMigrate

open Async Matching

variable {T : TargetApi}

/-- Gone from where it was copied from, and nothing recorded says where it went. -/
def unexplained (seen : List (String × String)) (row : PlacedItem) : Bool :=
  row.deletionAppliedAt.isNone && !seen.contains (row.collection, row.naturalKeyHash) && row.movedToCollection.isNone

/-- The moves recorded in an execution: the row's key, and the key and collection of where it went. -/
def recordedMoves (heard : List (Heard (Cmd T) Cmd.Resp PassError)) : List (String × String × Option String) :=
  heard.filterMap fun
    | ⟨.ledger (.recordMove _ key dest toKey), _⟩ => some (key, dest, toKey)
    | _ => none

def recordedAbsences (heard : List (Heard (Cmd T) Cmd.Resp PassError)) : List String :=
  heard.filterMap fun
    | ⟨.ledger (.recordAbsent _ key), _⟩ => some key
    | _ => none

def moveFor (p : PlacedItem × CreatedItem) : String × String × Option String :=
  (p.1.naturalKeyHash, p.2.collection, some p.2.naturalKeyHash)

section Walk

variable {scope : Scope} {seen : List (String × String)} {placed : List PlacedItem} {arrivals : List CreatedItem}
variable {heard : List (Heard (Cmd T) Cmd.Resp PassError)} {found : PathKeyedMoves}

/-- What an execution of the walk has recorded. -/
structure Walked (scope : Scope) (seen : List (String × String)) (placed : List PlacedItem) (arrivals : List CreatedItem)
    (heard : List (Heard (Cmd T) Cmd.Resp PassError)) (found : PathKeyedMoves) : Prop where
  moves : recordedMoves heard =
    (greedy PlacedItem.contentHash CreatedItem.contentHash (placed.filter (unexplained seen)) arrivals).map moveFor
  absences : recordedAbsences heard =
    (unmatched PlacedItem.contentHash CreatedItem.contentHash (placed.filter (unexplained seen)) arrivals).map
      PlacedItem.naturalKeyHash
  drift : found.drift =
    (unmatched PlacedItem.contentHash CreatedItem.contentHash (placed.filter (unexplained seen)) arrivals).length

/-- A task that records neither a move nor an absence. -/
def Silent (q : Task T Unit) : Prop :=
  ∀ heard u, Completed q heard u → recordedMoves heard = [] ∧ recordedAbsences heard = []

theorem silent_clearMove (key : String) : Silent (Task.ledger (.clearMove scope key) : Task T Unit) := by
  intro heard u h
  rw [Completed.of_perform h]
  exact ⟨rfl, rfl⟩

theorem silent_clearAbsent (key : String) : Silent (Task.ledger (.clearAbsent scope key) : Task T Unit) := by
  intro heard u h
  rw [Completed.of_perform h]
  exact ⟨rfl, rfl⟩

theorem silent_when {p : Prop} [Decidable p] {q : Task T Unit} (hq : Silent q) : Silent (if p then q else .ret ()) := by
  split
  · exact hq
  · intro heard u h
    rw [(Completed.of_ret h).1]
    exact ⟨rfl, rfl⟩

theorem Walked.pass {row : PlacedItem} {before : List (Heard (Cmd T) Cmd.Resp PassError)}
    (h : Walked scope seen placed arrivals heard found) (hrow : unexplained seen row = false)
    (hmoves : recordedMoves before = []) (habsences : recordedAbsences before = []) :
    Walked scope seen (row :: placed) arrivals (before ++ heard) found := by
  have hfilter : (row :: placed).filter (unexplained seen) = placed.filter (unexplained seen) :=
    List.filter_cons_of_neg (ne_true_of_eq_false hrow)
  constructor
  · rw [hfilter, ← h.moves, recordedMoves, List.filterMap_append]
    exact congrArg (· ++ recordedMoves heard) hmoves
  · rw [hfilter, ← h.absences, recordedAbsences, List.filterMap_append]
    exact congrArg (· ++ recordedAbsences heard) habsences
  · rw [hfilter, h.drift]

theorem find?_arrival (harrivals : ∀ c ∈ arrivals, c.contentHash ≠ "") (row : PlacedItem) :
    arrivals.find? (fun c => row.contentHash != "" && c.contentHash == row.contentHash) =
      arrivals.find? fun c => c.contentHash = row.contentHash := by
  induction arrivals with
  | nil => rfl
  | cons c rest ih =>
    have hne := harrivals c List.mem_cons_self
    have hrest := ih fun c' hc' => harrivals c' (List.mem_cons_of_mem c hc')
    have hhead : (row.contentHash != "" && c.contentHash == row.contentHash) =
        decide (c.contentHash = row.contentHash) := by
      by_cases hsame : c.contentHash = row.contentHash
      · have hrow : row.contentHash ≠ "" := hsame ▸ hne
        rw [hsame, bne_iff_ne.mpr hrow, beq_self_eq_true, decide_eq_true rfl, Bool.and_true]
      · rw [beq_false_of_ne hsame, decide_eq_false hsame, Bool.and_false]
    rw [List.find?_cons, List.find?_cons, hhead, hrest]

theorem Walked.takes {row : PlacedItem} {arrival : CreatedItem} {r : Except PassError Unit} {move : ItemMove}
    (h : Walked scope seen placed (arrivals.erase arrival) heard found) (hrow : unexplained seen row = true)
    (hfind : (arrivals.find? fun c => c.contentHash = row.contentHash) = some arrival) :
    Walked scope seen (row :: placed) arrivals
      (⟨.ledger (.recordMove scope row.naturalKeyHash arrival.collection (some arrival.naturalKeyHash)), r⟩ :: heard)
      (found.addMove move) := by
  have hfilter : (row :: placed).filter (unexplained seen) = row :: placed.filter (unexplained seen) :=
    List.filter_cons_of_pos hrow
  constructor
  · rw [hfilter, greedy, hfind]
    exact congrArg (moveFor (row, arrival) :: ·) h.moves
  · rw [hfilter, unmatched, hfind]
    exact h.absences
  · rw [hfilter, unmatched, hfind]
    exact h.drift

theorem Walked.drifts {row : PlacedItem} {r : Except PassError ℕ} {deletion : Option ItemDeletion}
    (h : Walked scope seen placed arrivals heard found) (hrow : unexplained seen row = true)
    (hfind : (arrivals.find? fun c => c.contentHash = row.contentHash) = none) :
    Walked scope seen (row :: placed) arrivals (⟨.ledger (.recordAbsent scope row.naturalKeyHash), r⟩ :: heard)
      (found.addDrift deletion) := by
  have hfilter : (row :: placed).filter (unexplained seen) = row :: placed.filter (unexplained seen) :=
    List.filter_cons_of_pos hrow
  constructor
  · rw [hfilter, greedy, hfind]
    exact h.moves
  · rw [hfilter, unmatched, hfind]
    exact congrArg (row.naturalKeyHash :: ·) h.absences
  · rw [hfilter, unmatched, hfind]
    exact congrArg (· + 1) h.drift

theorem walkPlaced_walked (harrivals : ∀ c ∈ arrivals, c.contentHash ≠ "")
    (h : Completed (walkPlaced scope seen placed arrivals : Task T PathKeyedMoves) heard found) :
    Walked scope seen placed arrivals heard found := by
  induction placed generalizing arrivals heard found with
  | nil =>
    obtain ⟨rfl, rfl⟩ := Completed.of_ret h
    exact ⟨rfl, rfl, rfl⟩
  | cons row rest ih =>
    rw [walkPlaced] at h
    by_cases happlied : row.deletionAppliedAt ≠ none
    · rw [if_pos happlied] at h
      have hrow : unexplained seen row = false := by simp [unexplained, happlied]
      have hwalked := ih harrivals h
      exact List.nil_append heard ▸ hwalked.pass hrow rfl rfl
    have happliedNone : row.deletionAppliedAt.isNone = true := by simpa using happlied
    rw [if_neg happlied] at h
    by_cases hseen : seen.contains (row.collection, row.naturalKeyHash) = true
    · rw [if_pos hseen] at h
      have hrow : unexplained seen row = false := by
        simp only [unexplained, hseen, Bool.not_true, Bool.and_false, Bool.false_and]
      obtain ⟨cleared, _, _, rfl, hcleared, h⟩ := Completed.of_bind h
      obtain ⟨reset, _, after, rfl, hreset, h⟩ := Completed.of_bind h
      obtain ⟨hmoves, habsences⟩ := silent_when (silent_clearMove _) cleared _ hcleared
      obtain ⟨hmoves', habsences'⟩ := silent_when (silent_clearAbsent _) reset _ hreset
      rw [← List.append_assoc]
      apply (ih harrivals h).pass hrow
      · rw [recordedMoves, List.filterMap_append]
        exact congrArg₂ (· ++ ·) hmoves hmoves'
      · rw [recordedAbsences, List.filterMap_append]
        exact congrArg₂ (· ++ ·) habsences habsences'
    rw [if_neg hseen] at h
    have hunseen : seen.contains (row.collection, row.naturalKeyHash) = false := eq_false_of_ne_true hseen
    cases hmoved : row.movedToCollection with
    | some dest =>
      have hrow : unexplained seen row = false := by
        simp only [unexplained, hmoved, Option.isNone_some, Bool.and_false]
      rw [hmoved] at h
      obtain ⟨before, out, after, rfl, hwalk, hret⟩ := Completed.of_bind h
      obtain ⟨rfl, rfl⟩ := Completed.of_ret hret
      rw [List.append_nil]
      obtain ⟨hmoves, habsences, hdrift⟩ := List.nil_append before ▸ (ih harrivals hwalk).pass hrow rfl rfl
      refine ⟨hmoves, habsences, ?_⟩
      rw [← hdrift]
      split <;> rfl
    | none =>
      have hrow : unexplained seen row = true := by
        simp only [unexplained, hmoved, happliedNone, hunseen, Bool.not_false, Option.isNone_none, Bool.and_self]
      rw [hmoved] at h
      dsimp only at h
      rw [find?_arrival harrivals] at h
      cases hfind : arrivals.find? (fun c => c.contentHash = row.contentHash) with
      | some arrival =>
        rw [hfind] at h
        obtain ⟨_, tail, rfl, htail⟩ := Completed.of_perform_bind h
        obtain ⟨before, out, after, rfl, hwalk, hret⟩ := Completed.of_bind htail
        obtain ⟨rfl, rfl⟩ := Completed.of_ret hret
        rw [List.append_nil]
        have hleft : ∀ c ∈ arrivals.erase arrival, c.contentHash ≠ "" :=
          fun c hc => harrivals c (List.mem_of_mem_erase hc)
        exact (ih hleft hwalk).takes hrow hfind
      | none =>
        rw [hfind] at h
        obtain ⟨absentPasses, tail, rfl, htail⟩ := Completed.of_perform_bind h
        obtain ⟨before, out, after, rfl, hwalk, hret⟩ := Completed.of_bind htail
        obtain ⟨rfl, rfl⟩ := Completed.of_ret hret
        rw [List.append_nil]
        exact (ih harrivals hwalk).drifts hrow hfind

end Walk

/-- The moves recorded by a completed detection are a maximum matching of the unexplained rows with the
arrivals, one pair for each equal content that both sides have; every other unexplained row is drift. -/
theorem detectPathKeyedMoves_matches (scope : Scope) (v : PassVars) (placed : List PlacedItem)
    (heard : List (Heard (Cmd T) Cmd.Resp PassError)) (found : PathKeyedMoves)
    (h : Completed (detectPathKeyedMoves scope v) (⟨.ledger (.placedItems scope), .ok placed⟩ :: heard) found) :
    let gone := placed.filter (unexplained v.seenByCollection)
    let arrivals := v.createdThisPass.filter (·.contentHash != "")
    ∃ (pairs : List (PlacedItem × CreatedItem)) (rest : List PlacedItem),
      recordedMoves heard = pairs.map moveFor ∧
      IsMatching PlacedItem.contentHash CreatedItem.contentHash gone arrivals pairs ∧
      (∀ hash ≠ "", pairs.countP (fun p => p.1.contentHash = hash) =
        min (gone.countP fun row => row.contentHash = hash)
          (v.createdThisPass.countP fun c => c.contentHash = hash)) ∧
      (∀ other, IsMatching PlacedItem.contentHash CreatedItem.contentHash gone arrivals other →
        other.length ≤ pairs.length) ∧
      (pairs.map Prod.fst ++ rest).Perm gone ∧
      recordedAbsences heard = rest.map PlacedItem.naturalKeyHash ∧
      found.drift = rest.length := by
  intro gone arrivals
  have harrivals : ∀ c ∈ arrivals, c.contentHash ≠ "" :=
    fun c hc => bne_iff_ne.mp (List.mem_filter.mp hc).2
  have hwalk : Completed (walkPlaced scope v.seenByCollection placed arrivals : Task T PathKeyedMoves) heard found := by
    cases h with
    | call c k r hrest => exact hrest
  obtain ⟨hmoves, habsences, hdrift⟩ := walkPlaced_walked harrivals hwalk
  refine ⟨greedy PlacedItem.contentHash CreatedItem.contentHash gone arrivals,
    unmatched PlacedItem.contentHash CreatedItem.contentHash gone arrivals, hmoves, greedy_isMatching gone arrivals,
    ?_, fun other hother => greedy_maximum hother, matched_perm gone arrivals, habsences, hdrift⟩
  intro hash hne
  have hcount : arrivals.countP (fun c => c.contentHash = hash) =
      v.createdThisPass.countP (fun c => c.contentHash = hash) := by
    rw [List.countP_filter]
    apply List.countP_congr
    intro c _
    by_cases hsame : c.contentHash = hash
    · simp [hsame, hne]
    · simp [hsame]
  rw [greedy_count, hcount]

namespace Matching.Sample

/-- A target that is never asked. -/
def idle : TargetApi :=
  ⟨Unit, Unit, Unit, fun _ => Unit, Unit, Unit, fun _ _ s => (.ok (), s), fun _ s => s, ()⟩

def scope : Scope := ⟨"tenant", "mapping", .file⟩

def gone (key : String) : PlacedItem := ⟨key, "bytes", "/a", none, none, none, 0, none, none⟩

def vars : PassVars := { createdThisPass := [⟨"/b/report", "bytes", "/b"⟩] }

theorem detection : ∃ heard found,
    Completed (detectPathKeyedMoves scope vars : Task idle PathKeyedMoves)
      (⟨.ledger (.placedItems scope), .ok [gone "/a/report", gone "/a/copy"]⟩ :: heard) found :=
  ⟨_, _, .call _ _ _ (.call _ _ (.ok ()) (.call _ _ (.ok (1 : ℕ)) (.ret _)))⟩

end Matching.Sample

theorem detectPathKeyedMoves_matches_two : ∃ heard found,
    Completed (detectPathKeyedMoves Matching.Sample.scope Matching.Sample.vars : Task Matching.Sample.idle PathKeyedMoves)
      (⟨.ledger (.placedItems Matching.Sample.scope),
        .ok [Matching.Sample.gone "/a/report", Matching.Sample.gone "/a/copy"]⟩ :: heard) found ∧
    (recordedMoves heard).length ≤ 2 := by
  obtain ⟨heard, found, h⟩ := Matching.Sample.detection
  obtain ⟨pairs, rest, hmoves, hmatching, -⟩ := detectPathKeyedMoves_matches _ _ _ heard found h
  refine ⟨heard, found, h, ?_⟩
  rw [hmoves, List.length_map, ← List.length_map (f := Prod.fst)]
  exact hmatching.left.length_le

end OpenMigrate
