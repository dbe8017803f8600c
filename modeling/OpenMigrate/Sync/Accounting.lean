import OpenMigrate.Async.Episodes
import OpenMigrate.Sync.PassFootprint

namespace OpenMigrate

open Async

variable {T : TargetApi}

inductive Counter where
  | scanned
  | created
  | skipped
  | adopted
  | updated
  | conflicted
  | changedButAdopted
  | failed
  | leftBehind
  | reappearedAfterRemoval
  | moved
  | needsDecision
  deriving DecidableEq

def PassVars.count (v : PassVars) : Counter → ℕ
  | .scanned => v.scanned
  | .created => v.created
  | .skipped => v.skipped
  | .adopted => v.adopted
  | .updated => v.updated
  | .conflicted => v.conflicted
  | .changedButAdopted => v.changedButAdopted
  | .failed => v.failed
  | .leftBehind => v.leftBehind
  | .reappearedAfterRemoval => v.reappearedAfterRemoval
  | .moved => v.moved
  | .needsDecision => v.needsDecision

/-- What one command has added to a counter. -/
def increment (k : Counter) : Heard (Cmd T) Cmd.Resp PassError → ℕ
  | ⟨.modify f, _⟩ => (f {}).count k
  | _ => 0

def increments (k : Counter) (heard : List (Heard (Cmd T) Cmd.Resp PassError)) : ℕ := (heard.map (increment k)).sum

/-- A failure that has used up the item's attempts. -/
def parksNow : Heard (Cmd T) Cmd.Resp PassError → Bool
  | ⟨.ledger (.recordFailure _ _), .ok row⟩ => decide (MAX_ITEM_ATTEMPTS ≤ row.attemptCount.getD 1)
  | _ => false

def newlyParked (heard : List (Heard (Cmd T) Cmd.Resp PassError)) : ℕ := heard.countP parksNow

/-- How often an item counts: under `needsDecision` only when it was parked already. -/
def outcomes (heard : List (Heard (Cmd T) Cmd.Resp PassError)) : ℕ :=
  increments .created heard + increments .skipped heard + increments .adopted heard + increments .updated heard +
    increments .conflicted heard + increments .changedButAdopted heard + increments .failed heard +
    increments .leftBehind heard + increments .reappearedAfterRemoval heard + increments .moved heard +
    (increments .needsDecision heard - newlyParked heard)

def updatesRow : Heard (Cmd T) Cmd.Resp PassError → Bool
  | ⟨.ledger (.recordUpdate _), .ok _⟩ => true
  | _ => false

/-- A conflict was counted, and what came of it was no update of the row. -/
def interrupted : List (Heard (Cmd T) Cmd.Resp PassError) → Bool
  | [] => false
  | x :: rest => (increment .conflicted x != 0 && !rest.head?.any updatesRow) || interrupted rest

variable {Item Folder Raw : Type} (d : DomainSyncDeps T Item Folder Raw)

/-- The listing shows a move that its owner has acknowledged. -/
def moveAcknowledged (at_ : Place) (item : Item) : List (Heard (Cmd T) Cmd.Resp PassError) → Bool
  | _ :: ⟨.ledger (.find _ _), .ok (some known)⟩ :: _ =>
    (d.naturalKey item).isSome && decided known at_.collectionPath none &&
      classifyKnownItem known (d.sourceVersion item) (some at_.collectionPath) == .moved
  | _ => false

/-- A modification adds to the counters what it adds to none. -/
def Adds (f : PassVars → PassVars) : Prop := ∀ k v, (f v).count k = v.count k + (f {}).count k

def OnlyAdds : Heard (Cmd T) Cmd.Resp PassError → Prop
  | ⟨.modify f, _⟩ => Adds f
  | _ => True

/-- Answers a run can give: a modification is never refused. -/
def Truthful : Heard (Cmd T) Cmd.Resp PassError → Prop
  | ⟨.modify _, r⟩ => r = .ok ()
  | ⟨c, r⟩ => c.Hears r

/-- The counters an item may end in. -/
def PassVars.total (v : PassVars) : ℕ :=
  v.created + v.skipped + v.adopted + v.updated + v.conflicted + v.changedButAdopted + v.failed + v.leftBehind +
    v.reappearedAfterRemoval + v.moved + v.needsDecision

def totalOf : Heard (Cmd T) Cmd.Resp PassError → ℕ
  | ⟨.modify f, _⟩ => (f {}).total
  | _ => 0

/-- Nothing is counted. -/
structure Idle (x : Heard (Cmd T) Cmd.Resp PassError) : Prop where
  plain : OnlyAdds x
  zero : ∀ k, increment k x = 0
  parks : parksNow x = false

/-- `n` outcomes are counted, besides `needsDecision` for those that were parked just now. -/
structure Counts (n : ℕ) (heard : List (Heard (Cmd T) Cmd.Resp PassError)) : Prop where
  plain : ∀ x ∈ heard, OnlyAdds x
  scanned : increments .scanned heard = 0
  total : (heard.map totalOf).sum = newlyParked heard + n
  parked : newlyParked heard ≤ increments .needsDecision heard
  failed : newlyParked heard ≤ increments .failed heard

section Counting

variable {n m : ℕ} {xs ys heard : List (Heard (Cmd T) Cmd.Resp PassError)}

theorem increments_append (k : Counter) (xs ys : List (Heard (Cmd T) Cmd.Resp PassError)) :
    increments k (xs ++ ys) = increments k xs + increments k ys := by
  rw [increments, List.map_append, List.sum_append]
  rfl

theorem newlyParked_append (xs ys : List (Heard (Cmd T) Cmd.Resp PassError)) :
    newlyParked (xs ++ ys) = newlyParked xs + newlyParked ys := List.countP_append

theorem totals (heard : List (Heard (Cmd T) Cmd.Resp PassError)) :
    (heard.map totalOf).sum =
      increments .created heard + increments .skipped heard + increments .adopted heard + increments .updated heard +
      increments .conflicted heard + increments .changedButAdopted heard + increments .failed heard +
      increments .leftBehind heard + increments .reappearedAfterRemoval heard + increments .moved heard +
      increments .needsDecision heard := by
  induction heard with
  | nil => rfl
  | cons x rest ih =>
    have hone : totalOf x = increment .created x + increment .skipped x + increment .adopted x + increment .updated x +
        increment .conflicted x + increment .changedButAdopted x + increment .failed x + increment .leftBehind x +
        increment .reappearedAfterRemoval x + increment .moved x + increment .needsDecision x := by
      obtain ⟨c, r⟩ := x
      cases c <;> rfl
    simp only [increments, List.map_cons, List.sum_cons] at ih ⊢
    omega

theorem Counts.outcomes (h : Counts n heard) : outcomes heard = n := by
  have htotal := h.total
  have hparked := h.parked
  rw [totals] at htotal
  rw [OpenMigrate.outcomes]
  omega

theorem Counts.nil : Counts 0 ([] : List (Heard (Cmd T) Cmd.Resp PassError)) :=
  ⟨by simp, rfl, rfl, Nat.zero_le _, Nat.zero_le _⟩

theorem Counts.append (hx : Counts n xs) (hy : Counts m ys) : Counts (n + m) (xs ++ ys) := by
  have htotal := hx.total
  have htotal' := hy.total
  have hparked := Nat.add_le_add hx.parked hy.parked
  have hfailed := Nat.add_le_add hx.failed hy.failed
  constructor
  · intro x hmem
    obtain hmem | hmem := List.mem_append.mp hmem
    · exact hx.plain x hmem
    · exact hy.plain x hmem
  · rw [increments_append, hx.scanned, hy.scanned]
  · rw [List.map_append, List.sum_append, newlyParked_append]
    omega
  · rwa [newlyParked_append, increments_append]
  · rwa [newlyParked_append, increments_append]

theorem Counts.modify {g : PassVars → PassVars} {r : Except PassError Unit} (hadds : Adds g)
    (hscanned : (g {}).count .scanned = 0) :
    Counts (g {}).total [(⟨.modify g, r⟩ : Heard (Cmd T) Cmd.Resp PassError)] := by
  constructor
  · intro x hx
    obtain rfl := List.mem_singleton.mp hx
    exact hadds
  · simpa [increments, increment] using hscanned
  · simp [totalOf, newlyParked, parksNow]
  · exact Nat.zero_le _
  · exact Nat.zero_le _

theorem Idle.total {x : Heard (Cmd T) Cmd.Resp PassError} (h : Idle x) : totalOf x = 0 := by
  have hsum := totals [x]
  simpa [increments, h.zero] using hsum

theorem Counts.idle {x : Heard (Cmd T) Cmd.Resp PassError} (h : Idle x) : Counts 0 [x] := by
  have hparked : newlyParked [x] = 0 := by simp [newlyParked, h.parks]
  constructor
  · intro y hy
    obtain rfl := List.mem_singleton.mp hy
    exact h.plain
  · simp [increments, h.zero]
  · simp [h.total, hparked]
  · simp [hparked]
  · simp [hparked]

theorem Counts.cons {x : Heard (Cmd T) Cmd.Resp PassError} (h : Idle x) (hy : Counts n ys) : Counts n (x :: ys) := by
  have happ := (Counts.idle h).append hy
  rwa [Nat.zero_add] at happ

theorem Counts.idles (h : ∀ x ∈ xs, Idle x) (hy : Counts n ys) : Counts n (xs ++ ys) := by
  induction xs with
  | nil => exact hy
  | cons x xs ih =>
    exact Counts.cons (h x List.mem_cons_self) (ih fun y hmem => h y (List.mem_cons_of_mem x hmem))

theorem interrupted_append (hx : ∀ x ∈ xs, increment .conflicted x = 0) : interrupted (xs ++ ys) = interrupted ys := by
  induction xs with
  | nil => rfl
  | cons x xs ih =>
    have hrest := ih fun y hmem => hx y (List.mem_cons_of_mem x hmem)
    rw [List.cons_append, interrupted, hrest, hx x List.mem_cons_self]
    rfl

theorem interrupted_calm (h : ∀ x ∈ xs, increment .conflicted x = 0) : interrupted xs = false := by
  have happ : interrupted (xs ++ []) = interrupted [] := interrupted_append h
  rwa [List.append_nil] at happ

/-- `n` outcomes, and one more where a conflict was interrupted. -/
structure Tallied (n : ℕ) (heard : List (Heard (Cmd T) Cmd.Resp PassError)) : Prop where
  counts : Counts (n + if interrupted heard then 1 else 0) heard

theorem Tallied.calm (hcounts : Counts n heard) (h : ∀ x ∈ heard, increment .conflicted x = 0) : Tallied n heard := by
  constructor
  rw [interrupted_calm h]
  exact hcounts

theorem Tallied.idles (h : ∀ x ∈ xs, Idle x) (hy : Tallied n ys) : Tallied n (xs ++ ys) := by
  constructor
  rw [interrupted_append fun x hmem => (h x hmem).zero .conflicted]
  exact Counts.idles h hy.counts

theorem Tallied.cons {x : Heard (Cmd T) Cmd.Resp PassError} (h : Idle x) (hy : Tallied n ys) : Tallied n (x :: ys) := by
  have hone : ∀ y ∈ [x], Idle y := by simpa using h
  exact Tallied.idles hone hy

theorem Tallied.modify {g : PassVars → PassVars} {r : Except PassError Unit} (hadds : Adds g)
    (hscanned : (g {}).count .scanned = 0) (hconflicted : (g {}).count .conflicted = 0) (hn : (g {}).total = n) :
    Tallied n [(⟨.modify g, r⟩ : Heard (Cmd T) Cmd.Resp PassError)] := by
  apply Tallied.calm
  · rw [← hn]
    exact Counts.modify hadds hscanned
  · intro x hx
    obtain rfl := List.mem_singleton.mp hx
    exact hconflicted

end Counting

section Worker

variable {at_ : Place} {item : Item} {heard : List (Heard (Cmd T) Cmd.Resp PassError)}

def LedgerOp.isFailure : LedgerOp → Bool
  | .recordFailure .. => true
  | _ => false

theorem idle_ledger {op : LedgerOp} {r : Except PassError op.Resp} (h : op.isFailure = false) :
    Idle (⟨.ledger op, r⟩ : Heard (Cmd T) Cmd.Resp PassError) := by
  constructor
  · trivial
  · intro k
    rfl
  · cases op with
    | recordFailure row reason => cases h
    | _ => rfl

theorem idle_perform {op : LedgerOp} {a : op.Resp} (hop : op.isFailure = false)
    (h : Completed (Task.ledger op : Task T op.Resp) heard a) : ∀ x ∈ heard, Idle x := by
  rw [Completed.of_perform h]
  intro x hx
  obtain rfl := List.mem_singleton.mp hx
  exact idle_ledger hop

theorem idle_refused {op : LedgerOp} {e : PassError} (hop : op.isFailure = false)
    (h : Reaches (Task.ledger op : Task T op.Resp) heard (.fail e)) : ∀ x ∈ heard, Idle x := by
  rw [Reaches.of_perform h]
  intro x hx
  obtain rfl := List.mem_singleton.mp hx
  exact idle_ledger hop

theorem idle_vars {r : Except PassError PassVars} : Idle (⟨.vars, r⟩ : Heard (Cmd T) Cmd.Resp PassError) :=
  ⟨trivial, fun _ => rfl, rfl⟩

theorem adds_id : Adds id := fun k v => by cases k <;> rfl

theorem modify_not_refused {g : PassVars → PassVars} {e : PassError} (htruth : ∀ x ∈ heard, Truthful x)
    (h : Reaches (Task.modify g : Task T Unit) heard (.fail e)) : False := by
  rw [Reaches.of_perform h] at htruth
  cases htruth _ List.mem_cons_self

theorem completed_modify {g : PassVars → PassVars} {u : Unit} (h : Completed (Task.modify g : Task T Unit) heard u) :
    heard = [⟨.modify g, .ok ()⟩] := Completed.of_perform h

theorem settle_tallied {f : PassVars → PassVars} {u : Unit} {n : ℕ}
    (h : Completed (settle at_ f : Task T Unit) heard u) (hadds : Adds f) (hscanned : (f {}).count .scanned = 0)
    (hconflicted : (f {}).count .conflicted = 0) (hn : (f {}).total = n) : Tallied n heard := by
  rw [completed_modify h]
  have hsame : ∀ k v, ({ f v with handled := (at_.folder, at_.index) :: v.handled } : PassVars).count k =
      (f v).count k := fun k v => by cases k <;> rfl
  have hsettle : Adds fun v => { f v with handled := (at_.folder, at_.index) :: v.handled } := by
    intro k v
    rw [hsame, hsame]
    exact hadds k v
  exact Tallied.modify hsettle hscanned hconflicted hn

theorem park_tallied {key : String} {known : LedgerRecord} {u : Unit}
    (h : Completed (park d key known : Task T Unit) heard u) : Tallied 1 heard := by
  rw [completed_modify h]
  exact Tallied.modify (fun k v => by cases k <;> rfl) rfl rfl rfl

/-- What the catch clause has heard: one failure, counted. -/
structure CaughtOne (heard : List (Heard (Cmd T) Cmd.Resp PassError)) : Prop where
  counts : Counts 1 heard
  calm : ∀ x ∈ heard, increment .conflicted x = 0
  head : heard.head?.any updatesRow = false

theorem itemFailed_caught {key? : Option String} {ch : String} {e : PassError} {u : Unit}
    (h : Completed (itemFailed d key? ch e : Task T Unit) heard u) : CaughtOne heard := by
  cases e with
  | passAbort message => cases h
  | error reason =>
    obtain ⟨_, tail, rfl, htail⟩ := Completed.of_perform_bind h
    have hfailed : Adds fun v => { v with failed := v.failed + 1, consecutiveFailures := v.consecutiveFailures + 1 } :=
      fun k v => by cases k <;> rfl
    cases key? with
    | none =>
      obtain ⟨v, rest, rfl, hrest⟩ := Completed.of_perform_bind htail
      split at hrest
      · cases hrest
      · obtain ⟨rfl, -⟩ := Completed.of_ret hrest
        constructor
        · exact (Counts.modify hfailed rfl).append (Counts.idle idle_vars)
        · intro x hx
          obtain rfl | rfl : x = _ ∨ x = _ := by simpa using hx
          · rfl
          · rfl
        · rfl
    | some key =>
      obtain ⟨row, tail₂, rfl, htail₂⟩ := Completed.of_perform_bind htail
      obtain ⟨_, tail₃, rfl, htail₃⟩ := Completed.of_perform_bind htail₂
      obtain ⟨v, rest, rfl, hrest⟩ := Completed.of_perform_bind htail₃
      split at hrest
      · cases hrest
      · obtain ⟨rfl, -⟩ := Completed.of_ret hrest
        have hparks : Adds fun v =>
            { v with
              needsDecision := if decide (MAX_ITEM_ATTEMPTS ≤ row.attemptCount.getD 1) then v.needsDecision + 1
                else v.needsDecision
              failures := v.failures ++ [⟨d.scope.domain, key, row.attemptCount.getD 1, reason,
                decide (MAX_ITEM_ATTEMPTS ≤ row.attemptCount.getD 1)⟩] } := by
          intro k v
          by_cases hparked : MAX_ITEM_ATTEMPTS ≤ row.attemptCount.getD 1
          · cases k <;> simp [hparked, PassVars.count]
          · cases k <;> simp [hparked, PassVars.count]
        constructor
        · constructor
          · intro x hx
            obtain rfl | rfl | rfl | rfl : x = _ ∨ x = _ ∨ x = _ ∨ x = _ := by simpa using hx
            · exact hfailed
            · trivial
            · exact hparks
            · trivial
          · rfl
          · by_cases hparked : MAX_ITEM_ATTEMPTS ≤ row.attemptCount.getD 1
            · simp [totalOf, PassVars.total, newlyParked, parksNow, hparked]
            · simp [totalOf, PassVars.total, newlyParked, parksNow, hparked]
          · by_cases hparked : MAX_ITEM_ATTEMPTS ≤ row.attemptCount.getD 1
            · simp [increments, increment, PassVars.count, newlyParked, parksNow, hparked]
            · simp [newlyParked, parksNow, hparked]
          · by_cases hparked : MAX_ITEM_ATTEMPTS ≤ row.attemptCount.getD 1
            · simp [increments, increment, PassVars.count, newlyParked, parksNow, hparked]
            · simp [newlyParked, parksNow, hparked]
        · intro x hx
          obtain rfl | rfl | rfl | rfl : x = _ ∨ x = _ ∨ x = _ ∨ x = _ := by simpa using hx
          all_goals rfl
        · rfl

/-- What the loop counts when the target's copy is no longer its own. -/
def countConflict (v : PassVars) : PassVars := { v with conflicted := v.conflicted + 1 }

theorem adds_countConflict : Adds countConflict := fun k v => by cases k <;> rfl

/-- What the loop counts once a write is recorded. -/
def countWritten (at_ : Place) (key ch : String) (rewriting : Bool) (result : UpsertResult) (v : PassVars) : PassVars :=
  { countOutcome at_ key ch rewriting result v with consecutiveFailures := 0 }

theorem countWritten_adds (key ch : String) (rewriting : Bool) (result : UpsertResult) :
    Adds (countWritten at_ key ch rewriting result) := by
  intro k v
  unfold countWritten countOutcome
  split_ifs <;> cases k <;> rfl

theorem countWritten_one (at_ : Place) (key ch : String) (rewriting : Bool) (result : UpsertResult) :
    (countWritten at_ key ch rewriting result {}).count .scanned = 0 ∧
      (countWritten at_ key ch rewriting result {}).count .conflicted = 0 ∧
      (countWritten at_ key ch rewriting result {}).total = 1 := by
  unfold countWritten countOutcome
  split_ifs <;> exact ⟨rfl, rfl, rfl⟩

theorem recordWrite_idle {hasExistingRow : Bool} {row a : LedgerRecord}
    (h : Completed (if hasExistingRow then Task.ledger (.recordUpdate row) else Task.ledger (.recordIfAbsent row) :
      Task T LedgerRecord) heard a) : ∀ x ∈ heard, Idle x := by
  split at h
  · exact idle_perform rfl h
  · exact idle_perform rfl h

theorem recordWrite_refused {hasExistingRow : Bool} {row : LedgerRecord} {e : PassError}
    (h : Reaches (if hasExistingRow then Task.ledger (.recordUpdate row) else Task.ledger (.recordIfAbsent row) :
      Task T LedgerRecord) heard (.fail e)) : ∀ x ∈ heard, Idle x := by
  split at h
  · exact idle_refused rfl h
  · exact idle_refused rfl h

theorem conflict_tallied {row row' : LedgerRecord} {u : Unit} {r : Except PassError Unit} {tail : List (Heard (Cmd T) Cmd.Resp PassError)}
    (h : Completed (settle at_ id : Task T Unit) tail u) :
    Tallied 1 ((⟨.modify countConflict, r⟩ : Heard (Cmd T) Cmd.Resp PassError) ::
      ⟨.ledger (.recordUpdate row), .ok row'⟩ :: tail) := by
  have hrest : Tallied 0 tail := settle_tallied h adds_id rfl rfl rfl
  have hupdate : Idle (⟨.ledger (.recordUpdate row), .ok row'⟩ : Heard (Cmd T) Cmd.Resp PassError) :=
    ⟨trivial, fun _ => rfl, rfl⟩
  have htail := (Counts.modify (r := r) adds_countConflict rfl).append (Counts.cons hupdate hrest.counts)
  rw [Nat.zero_add] at htail
  constructor
  exact htail

theorem recordOutcome_tallied {key ch : String} {sizeBytes : ℕ} {hasExistingRow : Bool} {rewriteOf : Option LedgerRecord}
    {result : UpsertResult} {u : Unit}
    (h : Completed (recordOutcome d at_ item key ch sizeBytes hasExistingRow rewriteOf result : Task T Unit) heard u) :
    Tallied 1 heard := by
  unfold recordOutcome at h
  split at h
  · obtain ⟨_, tail, rfl, htail⟩ := Completed.of_perform_bind h
    cases rewriteOf with
    | none => cases htail
    | some row =>
      obtain ⟨_, tail₂, rfl, htail₂⟩ := Completed.of_perform_bind htail
      exact conflict_tallied htail₂
  · obtain ⟨recorded, _, tail, rfl, hrecorded, htail⟩ := Completed.of_bind h
    obtain ⟨counted, _, tail₂, rfl, hcounted, htail₂⟩ := Completed.of_bind htail
    split at htail₂
    · cases htail₂
    · obtain ⟨rfl, -⟩ := Completed.of_ret htail₂
      rw [List.append_nil]
      have hwritten : Completed (settle at_ (countWritten at_ key ch rewriteOf.isSome result) : Task T Unit) counted _ :=
        hcounted
      obtain ⟨hscanned, hconflicted, hone⟩ := countWritten_one at_ key ch rewriteOf.isSome result
      apply Tallied.idles (recordWrite_idle hrecorded)
      exact settle_tallied hwritten (countWritten_adds key ch _ result) hscanned hconflicted hone

/-- A write of which nothing was counted, or a conflict with no update of its row. -/
inductive Broken : List (Heard (Cmd T) Cmd.Resp PassError) → Prop
  | idle {xs : List (Heard (Cmd T) Cmd.Resp PassError)} (h : ∀ x ∈ xs, Idle x) : Broken xs
  | conflict {r : Except PassError Unit} {tail : List (Heard (Cmd T) Cmd.Resp PassError)} (h : ∀ x ∈ tail, Idle x) (hupdate : tail.head?.any updatesRow = false) :
      Broken (⟨.modify countConflict, r⟩ :: tail)

theorem recordOutcome_broken {key ch : String} {sizeBytes : ℕ} {hasExistingRow : Bool} {rewriteOf : Option LedgerRecord}
    {result : UpsertResult} {reason : String} (htruth : ∀ x ∈ heard, Truthful x)
    (h : Reaches (recordOutcome d at_ item key ch sizeBytes hasExistingRow rewriteOf result : Task T Unit) heard
      (.fail (.error reason))) : Broken heard := by
  unfold recordOutcome at h
  split at h
  · obtain hrefused | ⟨counted, _, tail, rfl, hcounted, htail⟩ := Reaches.of_bind h
    · exact (modify_not_refused htruth hrefused).elim
    rw [completed_modify hcounted]
    cases rewriteOf with
    | none =>
      cases htail
      exact .conflict (by simp) rfl
    | some row =>
      obtain hupdate | ⟨_, _, tail₂, rfl, -, htail₂⟩ := Reaches.of_bind htail
      · rw [Reaches.of_perform hupdate]
        refine .conflict ?_ rfl
        intro x hx
        obtain rfl := List.mem_singleton.mp hx
        exact ⟨trivial, fun _ => rfl, rfl⟩
      · exact (modify_not_refused (fun x hx => htruth x (by simp [hx])) htail₂).elim
  · obtain hrecorded | ⟨recorded, _, tail, rfl, hrecorded, htail⟩ := Reaches.of_bind h
    · exact .idle (recordWrite_refused hrecorded)
    · obtain hcounted | ⟨counted, _, tail₂, rfl, hcounted, htail₂⟩ := Reaches.of_bind htail
      · exact (modify_not_refused (fun x hx => htruth x (by simp [hx])) hcounted).elim
      · split at htail₂
        · cases htail₂
        · cases htail₂

theorem Broken.caught {xs ys : List (Heard (Cmd T) Cmd.Resp PassError)} (h : Broken xs) (hcaught : CaughtOne ys) :
    Tallied 1 (xs ++ ys) := by
  cases h with
  | idle hidle => exact Tallied.idles hidle (Tallied.calm hcaught.counts hcaught.calm)
  | conflict hidle hupdate =>
    rename_i r tail
    have hhead : (tail ++ ys).head?.any updatesRow = false := by
      cases tail with
      | nil => exact hcaught.head
      | cons y rest => exact hupdate
    have hflag : interrupted ((⟨.modify countConflict, r⟩ : Heard (Cmd T) Cmd.Resp PassError) :: (tail ++ ys)) = true := by
      rw [interrupted, hhead]
      rfl
    constructor
    rw [List.cons_append, hflag, if_pos rfl]
    exact (Counts.modify (r := r) adds_countConflict rfl).append (Counts.idles hidle hcaught.counts)

theorem Truthful.hears {x : Heard (Cmd T) Cmd.Resp PassError} (h : Truthful x) : x.1.Hears x.2 := by
  obtain ⟨c, r⟩ := x
  cases c with
  | modify f => trivial
  | _ => exact h

theorem upsert_idle {id : String} {raw : Raw} {options : UpsertOptions} {q : Task T UpsertResult}
    (htruth : ∀ x ∈ heard, Truthful x) (h : Reaches (d.upsert id raw item options) heard q) : ∀ x ∈ heard, Idle x := by
  intro x hx
  have hasks := h.asks (d.upsert_asks id raw item options) (fun y hy => (htruth y hy).hears) x hx
  obtain ⟨c, r⟩ := x
  cases c with
  | ledger op =>
    cases op with
    | find scope key => exact idle_ledger rfl
    | recordIfAbsent row => exact idle_ledger rfl
    | _ => exact hasks.elim
  | target c => exact ⟨trivial, fun _ => rfl, rfl⟩
  | _ => exact hasks.elim

theorem writeItem_tallied {key : String} {hasExistingRow : Bool} {rewriteOf : Option LedgerRecord} {fetched : Raw × ℕ}
    {u : Unit} (htruth : ∀ x ∈ heard, Truthful x)
    (h : Completed (writeItem d at_ item key hasExistingRow rewriteOf fetched) heard u) : Tallied 1 heard := by
  obtain ⟨before, after, rfl, ⟨a, hwrite, hret⟩ | ⟨e, hwrite, hcaught⟩⟩ := Completed.of_tryWith h
  · obtain ⟨rfl, -⟩ := Completed.of_ret hret
    obtain ⟨upserted, result, recorded, rfl, hupsert, hrecord⟩ := Completed.of_bind hwrite
    rw [List.append_nil]
    apply Tallied.idles
    · exact upsert_idle d (fun x hx => htruth x (by simp [hx])) hupsert.reaches
    · exact recordOutcome_tallied d hrecord
  · cases e with
    | passAbort message => cases hcaught
    | error reason =>
      have hone := itemFailed_caught d hcaught
      obtain hupsert | ⟨upserted, result, recorded, rfl, hupsert, hrecord⟩ := Reaches.of_bind hwrite
      · exact (Broken.idle (upsert_idle d (fun x hx => htruth x (by simp [hx])) hupsert)).caught hone
      · have hbroken := recordOutcome_broken d (fun x hx => htruth x (by simp [hx])) hrecord
        rw [List.append_assoc]
        apply Tallied.idles
        · exact upsert_idle d (fun x hx => htruth x (by simp [hx])) hupsert.reaches
        · exact hbroken.caught hone

theorem fetchAndWrite_tallied {key : String} {hasExistingRow : Bool} {rewriteOf : Option LedgerRecord} {u : Unit}
    (htruth : ∀ x ∈ heard, Truthful x) (h : Completed (fetchAndWrite d at_ item key hasExistingRow rewriteOf) heard u) :
    Tallied 1 heard := by
  rw [fetchAndWrite] at h
  cases hfetch : d.fetchRaw item with
  | ok fetched =>
    rw [hfetch] at h
    exact writeItem_tallied d htruth h
  | error e =>
    rw [hfetch] at h
    have hone := itemFailed_caught d h
    exact Tallied.calm hone.counts hone.calm

theorem when_idle {p : Prop} [Decidable p] {q : Task T Unit} {u : Unit}
    (hq : Completed q heard u → ∀ x ∈ heard, Idle x) (h : Completed (if p then q else .ret ()) heard u) :
    ∀ x ∈ heard, Idle x := by
  split at h
  · exact hq h
  · obtain ⟨rfl, -⟩ := Completed.of_ret h
    simp

theorem settleKnown_tallied {key : String} {known : LedgerRecord} {action : KnownItemAction} {u : Unit}
    (htruth : ∀ x ∈ heard, Truthful x) (h : Completed (settleKnown d at_ item key known action) heard u) :
    Tallied 1 heard := by
  cases action with
  | skip | moved => exact settle_tallied h (fun k v => by cases k <;> rfl) rfl rfl rfl
  | recordVersion =>
    obtain ⟨recorded, _, tail, rfl, hrecorded, htail⟩ := Completed.of_bind h
    apply Tallied.idles (idle_perform rfl hrecorded)
    exact settle_tallied htail (fun k v => by cases k <;> rfl) rfl rfl rfl
  | leaveAdopted => exact settle_tallied h (fun k v => by cases k <;> rfl) rfl rfl rfl
  | leftBehind => exact settle_tallied h (fun k v => by cases k <;> rfl) rfl rfl rfl
  | tombstoned => exact settle_tallied h (fun k v => by cases k <;> rfl) rfl rfl rfl
  | needsDecision => exact park_tallied d h
  | retryFailed | relocatedAway => exact fetchAndWrite_tallied d htruth h
  | rewrite => exact fetchAndWrite_tallied d htruth h

theorem reportMove_tallied {key : String} {known : LedgerRecord} {u : Unit}
    (h : Completed (reportMove d at_ key known : Task T Unit) heard u) :
    Tallied (if decided known at_.collectionPath none then 0 else 1) heard := by
  unfold reportMove at h
  split at h
  · rw [if_pos (by assumption)]
    exact settle_tallied h adds_id rfl rfl rfl
  · obtain ⟨recorded, _, tail, rfl, hrecorded, htail⟩ := Completed.of_bind h
    rw [if_neg (by assumption)]
    apply Tallied.idles (idle_perform rfl hrecorded)
    exact settle_tallied htail (fun k v => by cases k <;> rfl) rfl rfl rfl

/-- The loop finds the row's recorded move acknowledged. -/
def acknowledgedRow (at_ : Place) (item : Item) (known : LedgerRecord) : Bool :=
  decided known at_.collectionPath none &&
    classifyKnownItem known (d.sourceVersion item) (some at_.collectionPath) == .moved

theorem onKnown_tallied {key : String} {known : LedgerRecord} {u : Unit} (htruth : ∀ x ∈ heard, Truthful x)
    (h : Completed (onKnown d at_ item key known) heard u) :
    Tallied (if acknowledgedRow d at_ item known then 0 else 1) heard := by
  obtain ⟨cleared, _, tail, rfl, hcleared, htail⟩ := Completed.of_bind h
  apply Tallied.idles (when_idle (idle_perform rfl) hcleared)
  have htruth' : ∀ x ∈ tail, Truthful x := fun x hx => htruth x (List.mem_append_right _ hx)
  by_cases hmoved : classifyKnownItem known (d.sourceVersion item) (some at_.collectionPath) = .moved
  · simp only [hmoved] at htail
    have hreport := reportMove_tallied d htail
    simpa [acknowledgedRow, hmoved] using hreport
  · have hno : acknowledgedRow d at_ item known = false := by simp [acknowledgedRow, hmoved]
    rw [hno, if_neg Bool.false_ne_true]
    split at htail
    · rename_i heq
      exact absurd heq hmoved
    · obtain ⟨calledOff, _, rest, rfl, hover, hrest⟩ := Completed.of_bind htail
      apply Tallied.idles (when_idle (idle_perform rfl) hover)
      exact settleKnown_tallied d (fun x hx => htruth' x (List.mem_append_right _ hx)) hrest

theorem onKnownAfterFetch_tallied {key : String} {known : LedgerRecord} {fetched : Raw × ℕ} {u : Unit}
    (htruth : ∀ x ∈ heard, Truthful x) (h : Completed (onKnownAfterFetch d at_ item key known fetched) heard u) :
    Tallied 1 heard := by
  unfold onKnownAfterFetch at h
  split at h
  · exact settle_tallied h (fun k v => by cases k <;> rfl) rfl rfl rfl
  · exact settle_tallied h (fun k v => by cases k <;> rfl) rfl rfl rfl
  · exact park_tallied d h
  · exact writeItem_tallied d htruth h
  · exact writeItem_tallied d htruth h
  · exact settle_tallied h (fun k v => by cases k <;> rfl) rfl rfl rfl

theorem idle_see (at_ : Place) (key : String) (r : Except PassError Unit) :
    Idle (⟨.modify (see at_ key), r⟩ : Heard (Cmd T) Cmd.Resp PassError) := by
  constructor
  · exact fun k v => by cases k <;> rfl
  · exact fun k => by cases k <;> rfl
  · rfl

theorem lookupDerived_idle {key : String} {known : Option LedgerRecord}
    (h : Completed (lookupDerived d at_ key) heard known) : ∀ x ∈ heard, Idle x := by
  obtain ⟨_, tail, rfl, hfind⟩ := Completed.of_perform_bind h
  intro x hx
  obtain rfl | hx := List.mem_cons.mp hx
  · exact idle_see at_ key _
  · exact idle_perform rfl hfind x hx

theorem lookupDerived_refused {key : String} {e : PassError} (htruth : ∀ x ∈ heard, Truthful x)
    (h : Reaches (lookupDerived d at_ key) heard (.fail e)) : ∀ x ∈ heard, Idle x := by
  obtain hrefused | ⟨seen, _, tail, rfl, hseen, hfind⟩ := Reaches.of_bind h
  · exact (modify_not_refused htruth hrefused).elim
  · rw [completed_modify hseen]
    intro x hx
    obtain rfl | hx := List.mem_cons.mp hx
    · exact idle_see at_ key _
    · exact idle_refused rfl hfind x hx

theorem caught_tallied (h : CaughtOne heard) : Tallied 1 heard := Tallied.calm h.counts h.calm

theorem syncDerived_tallied {u : Unit} (htruth : ∀ x ∈ heard, Truthful x)
    (h : Completed (syncDerived d at_ item) heard u) : Tallied 1 heard := by
  rw [syncDerived] at h
  cases hfetch : d.fetchRaw item with
  | error e =>
    rw [hfetch] at h
    exact caught_tallied (itemFailed_caught d h)
  | ok fetched =>
    rw [hfetch] at h
    change Completed ((Prog.ofExcept (deriveKey d item fetched.1)).tryWith _ _) heard u at h
    cases hkey : deriveKey d item fetched.1 with
    | error e =>
      rw [hkey] at h
      exact caught_tallied (itemFailed_caught d h)
    | ok key =>
      rw [hkey] at h
      change Completed ((lookupDerived d at_ key).tryWith _ _) heard u at h
      obtain ⟨before, after, rfl, ⟨known, hlookup, hrest⟩ | ⟨e, hlookup, hcaught⟩⟩ := Completed.of_tryWith h
      · apply Tallied.idles (lookupDerived_idle d hlookup)
        have htail : ∀ x ∈ after, Truthful x := fun x hx => htruth x (List.mem_append_right _ hx)
        cases known with
        | some known => exact onKnownAfterFetch_tallied d htail hrest
        | none => exact writeItem_tallied d htail hrest
      · have hidle := lookupDerived_refused d (fun x hx => htruth x (List.mem_append_left _ hx)) hlookup
        exact Tallied.idles hidle (caught_tallied (itemFailed_caught d hcaught))

/-- What one item adds to the pass: it is scanned once and has one outcome, none when its move is acknowledged,
and two when its conflict was interrupted. -/
structure ItemAccount (at_ : Place) (item : Item) (heard : List (Heard (Cmd T) Cmd.Resp PassError)) : Prop where
  plain : ∀ x ∈ heard, OnlyAdds x
  scanned : increments .scanned heard = 1
  outcomes : outcomes heard = (if moveAcknowledged d at_ item heard then 0 else 1) + if interrupted heard then 1 else 0
  parked : newlyParked heard ≤ increments .needsDecision heard
  failed : newlyParked heard ≤ increments .failed heard

theorem ItemAccount.scan {g : PassVars → PassVars} {r : Except PassError Unit} {n : ℕ} (hadds : Adds g)
    (hone : (g {}).count .scanned = 1) (hzero : ∀ k ≠ .scanned, (g {}).count k = 0) (h : Tallied n heard)
    (hack : n = if moveAcknowledged d at_ item (⟨.modify g, r⟩ :: heard) then 0 else 1) :
    ItemAccount d at_ item (⟨.modify g, r⟩ :: heard) := by
  have hcounts := h.counts
  have hadd : ∀ k, increments k (⟨.modify g, r⟩ :: heard) = (g {}).count k + increments k heard := fun k => rfl
  have hpark : newlyParked ((⟨.modify g, r⟩ : Heard (Cmd T) Cmd.Resp PassError) :: heard) = newlyParked heard := by
    simp [newlyParked, parksNow]
  have hflag : interrupted ((⟨.modify g, r⟩ : Heard (Cmd T) Cmd.Resp PassError) :: heard) = interrupted heard := by
    rw [interrupted, increment, hzero .conflicted (by decide)]
    rfl
  constructor
  · intro x hx
    obtain rfl | hx := List.mem_cons.mp hx
    · exact hadds
    · exact hcounts.plain x hx
  · rw [hadd, hone, hcounts.scanned]
  · have houtcomes := hcounts.outcomes
    rw [← hack, hflag, ← houtcomes]
    simp [OpenMigrate.outcomes, hadd, hpark, hzero]
  · rw [hpark, hadd, hzero .needsDecision (by decide), Nat.zero_add]
    exact hcounts.parked
  · rw [hpark, hadd, hzero .failed (by decide), Nat.zero_add]
    exact hcounts.failed

theorem acknowledged_derived (hkey : d.naturalKey item = none) : moveAcknowledged d at_ item heard = false := by
  unfold moveAcknowledged
  split
  · simp [hkey]
  · rfl

theorem syncItem_account {u : Unit} (htruth : ∀ x ∈ heard, Truthful x) (h : Completed (syncItem d at_ item) heard u) :
    ItemAccount d at_ item heard := by
  unfold syncItem at h
  split at h
  · rename_i key hkey
    obtain ⟨_, tail, rfl, htail⟩ := Completed.of_perform_bind h
    obtain ⟨known, rest, rfl, hrest⟩ := Completed.of_perform_bind htail
    have hrestTruth : ∀ x ∈ rest, Truthful x := fun x hx => htruth x (by simp [hx])
    cases known with
    | some known =>
      refine ItemAccount.scan d (fun k v => by cases k <;> rfl) rfl (fun k hk => by cases k <;> first | rfl | exact absurd rfl hk)
        (Tallied.cons (idle_ledger rfl) (onKnown_tallied d hrestTruth hrest)) ?_
      simp [moveAcknowledged, acknowledgedRow, hkey]
    | none =>
      refine ItemAccount.scan d (fun k v => by cases k <;> rfl) rfl (fun k hk => by cases k <;> first | rfl | exact absurd rfl hk)
        (Tallied.cons (idle_ledger rfl) (fetchAndWrite_tallied d hrestTruth hrest)) ?_
      rfl
  · rename_i hkey
    obtain ⟨_, tail, rfl, htail⟩ := Completed.of_perform_bind h
    refine ItemAccount.scan d (fun k v => by cases k <;> rfl) rfl (fun k hk => by cases k <;> first | rfl | exact absurd rfl hk)
      (syncDerived_tallied d (fun x hx => htruth x (List.mem_cons_of_mem _ hx)) htail) ?_
    rw [acknowledged_derived d hkey]
    rfl

end Worker

end OpenMigrate
