import OpenMigrate.Verify.Unclaimed

namespace OpenMigrate.Verify

open Async PgLedger

variable {T : TargetApi}

/-- What records that an item was written: a row made from the outcome. The other updates hand a row that was read
back in, its attempts with it. -/
def recordsWrite : LedgerOp → Bool
  | .recordIfAbsent _ => true
  | .recordUpdate r => r.attemptCount.isNone
  | _ => false

section Count

variable (resets : LedgerOp → Bool) (scope : Scope) (naturalKeyHash : String)

def recordsFailure : LedgerOp → Bool
  | .recordFailure .. => true
  | _ => false

def failuresAfter (n : ℕ) (op : LedgerOp) : ℕ :=
  if op.writes? = some (scope, naturalKeyHash) then
    if recordsFailure op then n + 1 else if resets op then 0 else n
  else n

def failuresAfterWord (L : Ledger) (now : Instant) (key : ItemKey) (n : ℕ) (r : Resolution) : ℕ :=
  match r with
  | .resolveFailure .retry => if key = scope.key naturalKeyHash ∧ (r.exec L now key).1 = true then 0 else n
  | _ => n

def failuresAfterEvent (n : ℕ) : Event (World T) (Cmd T) (Input T) T.Act → ℕ
  | .exec _ (.ledger op) i _ => if i.fault = none then failuresAfter resets scope naturalKeyHash n op else n
  | _ => n

/-- The failures recorded for the item since it was last retried, or since what resets the count, after one more turn. -/
def Turn.failuresAfter (x : Running T) (n : ℕ) : Turn T → ℕ
  | step ch => (Machine.sysEvent? x ch).elim n (failuresAfterEvent resets scope naturalKeyHash n)
  | resolve key now r => failuresAfterWord scope naturalKeyHash x.2.ledger now key n r

def failures (n : ℕ) (x : Running T) : List (Turn T) → ℕ
  | [] => n
  | turn :: turns => failures (turn.failuresAfter resets scope naturalKeyHash x n) (turn.take x) turns

/-- A statement that resets the count finds none on the row of the item. -/
def ResetsCleanRow : Event (World T) (Cmd T) (Input T) T.Act → Prop
  | .exec _ (.ledger op) i w => i.fault = none → op.writes? = some (scope, naturalKeyHash) → resets op = true →
      ∀ row, row? w.1.ledger scope naturalKeyHash = some row → row.attemptCount = 0
  | _ => True

/-- A pass that comes to the item skips it as parked. -/
def Parks (L : Ledger) : Prop :=
  ∃ known, find L scope naturalKeyHash = some known ∧
    ∃ sourceVersion collection, classifyKnownItem known sourceVersion collection = .needsDecision

/-- No more is counted on the item's row than that. -/
def AttemptsWithin (L : Ledger) (n : ℕ) : Prop :=
  ∀ row, row? L scope naturalKeyHash = some row → row.attemptCount ≤ n

end Count

section Step

variable {resets : LedgerOp → Bool} {scope : Scope} {naturalKeyHash : String}
variable {L : Ledger} {now : Instant} {op : LedgerOp} {n : ℕ}

theorem sets_attempts (op : LedgerOp) (L : Ledger) (now : Instant) (row : ItemRow) :
    (op.sets L now row).attemptCount = if recordsFailure op then row.attemptCount + 1 else row.attemptCount := by
  cases op with
  | recordReportedDeletion | recordTrashedDeletion | clearAbsent | applyDeletion | applyRelocation =>
    simp only [LedgerOp.sets]
    split <;> rfl
  | _ => rfl

theorem aimsAt_item (haim : op.aimsAt (scope.key naturalKeyHash) scope.domain) :
    op.writes? = some (scope, naturalKeyHash) := by
  obtain ⟨scope', key', hwrites, hkey, hdomain⟩ := haim
  have hsame : scope' = scope ∧ key' = naturalKeyHash := by
    cases scope
    cases scope'
    simp_all [Scope.key]
  rw [hwrites, hsame.1, hsame.2]

theorem failuresAfter_elsewhere (h : op.writes? ≠ some (scope, naturalKeyHash)) :
    failuresAfter resets scope naturalKeyHash n op = n := by
  rw [failuresAfter, if_neg h]

theorem AttemptsWithin.exec (h : AttemptsWithin scope naturalKeyHash L n)
    (hclean : op.writes? = some (scope, naturalKeyHash) → resets op = true →
      ∀ row, row? L scope naturalKeyHash = some row → row.attemptCount = 0) :
    AttemptsWithin scope naturalKeyHash (PgLedger.exec L now op).2 (failuresAfter resets scope naturalKeyHash n op) := by
  intro row hrow
  obtain ⟨hlookup, hdomain⟩ := (row?_eq_some _).mp hrow
  cases hold : L.lookup (scope.key naturalKeyHash) with
  | none =>
    obtain hnone | ⟨new, hinserts, haim, hnew⟩ := exec_lookup_none L now op hold
    · rw [hnone] at hlookup
      cases hlookup
    · obtain rfl := Option.some.inj (hnew.symm.trans hlookup)
      rw [hdomain] at haim
      have hwrites := aimsAt_item haim
      cases op with
      | recordIfAbsent r =>
        cases hinserts
        exact Nat.zero_le _
      | recordFailure r error =>
        cases hinserts
        rw [failuresAfter, if_pos hwrites]
        exact Nat.le_add_left 1 n
      | _ => cases hinserts
  | some old =>
    obtain ⟨haim, hsame⟩ | ⟨haim, hset⟩ := exec_lookup_some L now op hold
    · obtain rfl := Option.some.inj (hsame.symm.trans hlookup)
      have hne : op.writes? ≠ some (scope, naturalKeyHash) := fun hw => haim ⟨scope, naturalKeyHash, hw, rfl, hdomain.symm⟩
      rw [failuresAfter_elsewhere hne]
      exact h _ ((row?_eq_some L).mpr ⟨hold, hdomain⟩)
    · obtain rfl := Option.some.inj (hset.symm.trans hlookup)
      rw [sets_domain] at hdomain
      rw [hdomain] at haim
      have hwrites := aimsAt_item haim
      have hrow? : row? L scope naturalKeyHash = some old := (row?_eq_some L).mpr ⟨hold, hdomain⟩
      have hwithin : old.attemptCount ≤ n := h old hrow?
      rw [sets_attempts, failuresAfter, if_pos hwrites]
      split
      · exact Nat.succ_le_succ hwithin
      · split
        · rename_i hrecords
          rw [hclean hwrites hrecords old hrow?]
        · exact hwithin

theorem retry_resets {key : ItemKey} {row : ItemRow} (hhit : ((Resolution.resolveFailure .retry).exec L now key).1 = true)
    (hrow : ((Resolution.resolveFailure .retry).exec L now key).2.lookup key = some row) : row.attemptCount = 0 := by
  unfold Resolution.exec at hhit hrow
  cases hfound : (L.lookup key).filter (Resolution.resolveFailure .retry).open_ with
  | none => simp [hfound] at hhit
  | some old =>
    obtain ⟨hold, -⟩ := Option.filter_eq_some_iff.mp hfound
    simp only [hfound] at hrow
    rw [replace_lookup, if_pos rfl, hold] at hrow
    cases hrow
    rfl

theorem AttemptsWithin.resolve (h : AttemptsWithin scope naturalKeyHash L n) (key : ItemKey) (r : Resolution) :
    AttemptsWithin scope naturalKeyHash (r.exec L now key).2 (failuresAfterWord scope naturalKeyHash L now key n r) := by
  intro row hrow
  obtain ⟨hlookup, hdomain⟩ := (row?_eq_some _).mp hrow
  have hkept : row.attemptCount ≤ n := by
    obtain hsame | ⟨old, rfl, hold, -, hset⟩ := resolve_cases r L now key (scope.key naturalKeyHash)
    · exact h row ((row?_eq_some L).mpr ⟨hsame.symm.trans hlookup, hdomain⟩)
    · obtain rfl := Option.some.inj (hset.symm.trans hlookup)
      cases r with
      | resolveFailure action =>
        cases action with
        | accept => exact h old ((row?_eq_some L).mpr ⟨hold, hdomain⟩)
        | retry => exact Nat.zero_le n
      | resolveMove | resolveDeletion => exact h old ((row?_eq_some L).mpr ⟨hold, hdomain⟩)
  unfold failuresAfterWord
  split
  · split
    · rename_i hhit
      obtain ⟨rfl, hhit⟩ := hhit
      rw [retry_resets hhit hlookup]
    · exact hkept
  · exact hkept

theorem AttemptsWithin.post {ev : Event (World T) (Cmd T) (Input T) T.Act}
    (h : AttemptsWithin scope naturalKeyHash ev.pre.1.ledger n) (hclean : ResetsCleanRow resets scope naturalKeyHash ev) :
    AttemptsWithin scope naturalKeyHash ((machine T).post ev).1.ledger
      (failuresAfterEvent resets scope naturalKeyHash n ev) := by
  cases ev with
  | act a w => exact h
  | exec th c i w =>
    obtain ⟨hno, hsame⟩ | ⟨op, rfl, hfault, hledger⟩ := exec_ledger i w c
    · have hcount : failuresAfterEvent resets scope naturalKeyHash n (.exec th c i w) = n := by
        cases c with
        | ledger op => exact if_neg (hno op rfl)
        | _ => rfl
      rw [hcount]
      intro row hrow
      exact h row (hsame ▸ hrow)
    · rw [failuresAfterEvent, if_pos hfault]
      intro row hrow
      exact AttemptsWithin.exec h (hclean hfault) row (hledger ▸ hrow)

theorem AttemptsWithin.take {x : Running T} (h : AttemptsWithin scope naturalKeyHash x.2.ledger n) {turn : Turn T}
    (hclean : ∀ ev ∈ turn.event? x, ResetsCleanRow resets scope naturalKeyHash ev) :
    AttemptsWithin scope naturalKeyHash (turn.take x).2.ledger (turn.failuresAfter resets scope naturalKeyHash x n) := by
  cases turn with
  | resolve key now r => exact h.resolve key r
  | step ch =>
    simp only [Turn.take, Turn.failuresAfter]
    cases hev : Machine.sysEvent? x ch with
    | none =>
      rw [(machine T).sysStep_none hev]
      exact h
    | some ev =>
      obtain ⟨hpre, hpost⟩ := (machine T).sysStep_some hev
      rw [hpost]
      apply AttemptsWithin.post
      · rw [hpre]
        exact h
      · exact hclean ev hev

end Step

section Run

variable {resets : LedgerOp → Bool} {scope : Scope} {naturalKeyHash : String} {n : ℕ} {x : Running T}

theorem AttemptsWithin.life {turns : List (Turn T)} (h : AttemptsWithin scope naturalKeyHash x.2.ledger n)
    (hclean : ∀ ev ∈ lifeTrace x turns, ResetsCleanRow resets scope naturalKeyHash ev) :
    AttemptsWithin scope naturalKeyHash (life x turns).2.ledger (failures resets scope naturalKeyHash n x turns) := by
  induction turns generalizing x n with
  | nil => exact h
  | cons turn turns ih =>
    simp only [lifeTrace, List.mem_append, Option.mem_toList] at hclean
    apply ih
    · exact h.take fun ev hev => hclean ev (.inl hev)
    · exact fun ev hev => hclean ev (.inr hev)

theorem AttemptsWithin.parks {L : Ledger} (h : AttemptsWithin scope naturalKeyHash L n)
    (hparked : Parks scope naturalKeyHash L) : MAX_ITEM_ATTEMPTS ≤ n := by
  obtain ⟨known, hfind, sourceVersion, collection, hclass⟩ := hparked
  obtain ⟨row, hrow, rfl⟩ := Option.map_eq_some_iff.mp hfind
  have hattempts : MAX_ITEM_ATTEMPTS ≤ row.attemptCount := classifyKnownItem_parked hclass
  exact hattempts.trans (h row hrow)

/-- Where every write finds an item that has not failed, the count starts again with each write. -/
theorem parked_after_failures_since_write {turns : List (Turn T)}
    (hstart : AttemptsWithin scope naturalKeyHash x.2.ledger n)
    (hclean : ∀ ev ∈ lifeTrace x turns, ResetsCleanRow recordsWrite scope naturalKeyHash ev)
    (hparked : Parks scope naturalKeyHash (life x turns).2.ledger) :
    MAX_ITEM_ATTEMPTS ≤ failures recordsWrite scope naturalKeyHash n x turns :=
  (hstart.life hclean).parks hparked

def onlyRetries : LedgerOp → Bool := fun _ => false

theorem parked_after_failures {turns : List (Turn T)} (hstart : AttemptsWithin scope naturalKeyHash x.2.ledger n)
    (hparked : Parks scope naturalKeyHash (life x turns).2.ledger) :
    MAX_ITEM_ATTEMPTS ≤ failures onlyRetries scope naturalKeyHash n x turns := by
  have hclean : ∀ ev ∈ lifeTrace x turns, ResetsCleanRow onlyRetries scope naturalKeyHash ev := by
    intro ev hev
    cases ev with
    | act a w => trivial
    | exec th c i w =>
      cases c with
      | ledger op => exact fun _ _ hresets => absurd hresets Bool.false_ne_true
      | _ => trivial
  exact (hstart.life hclean).parks hparked

end Run

section Sample

open Dav

def Sample.parkScope : Scope := ⟨"t", "m", .file⟩

def Sample.parkKey : String := Dav.Sample.sha256Hex "file:a.txt"

def Sample.filePassAt (version : String) : Activity (api Dav.Sample.endpoint) :=
  .pass (fileSync Dav.Sample.endpoint Dav.Sample.webDAV Dav.Sample.sha256Hex Dav.Sample.contentHash Dav.Sample.deps
    { listFolders := .ok [⟨"", none⟩]
      listSince := fun _ _ => .ok ⟨[{ Dav.Sample.file "a.txt" with etag := some version }], "1", []⟩
      fetch := fun _ => .ok none })

def Sample.quota : Refusal := ⟨507, by decide, by decide, by decide⟩

/-- Pass `k` in one go, its requests answered or refused. -/
def Sample.passTurns (k : ℕ) (delivery : Delivery) : List (Turn (api Dav.Sample.endpoint)) :=
  List.replicate 40 (.step (k, .run 0 ⟨1, none, { delivery := delivery }⟩))

def Sample.sixPasses : Running (api Dav.Sample.endpoint) :=
  ((["1", "1", "1", "2", "2", "2"].map Sample.filePassAt).map Activity.start, Dav.Sample.store)

/-- Two failures, a write, and three failures once the file was edited. -/
def Sample.weather : List (Turn (api Dav.Sample.endpoint)) :=
  Sample.passTurns 0 (.refused Sample.quota false) ++ Sample.passTurns 1 (.refused Sample.quota false) ++
    Sample.passTurns 2 .served ++ Sample.passTurns 3 (.refused Sample.quota false) ++
    Sample.passTurns 4 (.refused Sample.quota false) ++ Sample.passTurns 5 (.refused Sample.quota false)

theorem Sample.parks {L : Ledger}
    (h : (find L Sample.parkScope Sample.parkKey).map (classifyKnownItem · none none) = some .needsDecision) :
    Parks Sample.parkScope Sample.parkKey L := by
  obtain ⟨known, hfind, hparked⟩ := Option.map_eq_some_iff.mp h
  exact ⟨known, hfind, none, none, hparked⟩

/-- The write between them did not start the count again. -/
theorem parked_after_three_failures :
    Parks Sample.parkScope Sample.parkKey (life Sample.sixPasses Sample.weather).2.ledger ∧
      ¬ MAX_ITEM_ATTEMPTS ≤ failures recordsWrite Sample.parkScope Sample.parkKey 0 Sample.sixPasses Sample.weather :=
  ⟨Sample.parks (by decide +kernel), by decide +kernel⟩

theorem parked_after_five_failures :
    MAX_ITEM_ATTEMPTS ≤ failures onlyRetries Sample.parkScope Sample.parkKey 0 Sample.sixPasses Sample.weather := by
  have hstart : AttemptsWithin Sample.parkScope Sample.parkKey Sample.sixPasses.2.ledger 0 := by
    intro row hrow
    cases hrow
  exact parked_after_failures hstart (Sample.parks (by decide +kernel))

end Sample

end OpenMigrate.Verify
