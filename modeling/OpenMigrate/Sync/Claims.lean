import OpenMigrate.Async.Stretch
import OpenMigrate.Sync.PassAccounts
import OpenMigrate.Sync.Passes

namespace OpenMigrate

open Async PgLedger

variable {T : TargetApi} {scope : Scope} {key : String}

section Marks

/-- What the ledger claims of an item's absence, and whether its removal was carried out. -/
def ItemRow.marks (row : ItemRow) : ℕ × Option Instant × Option Instant × Option Instant :=
  (row.absentPasses, row.deletionReportedAt, row.deletionTrashedAt, row.deletionAppliedAt)

def ItemRow.Claimed (row : ItemRow) : Prop :=
  row.absentPasses ≠ 0 ∨ row.deletionReportedAt ≠ none ∨ row.deletionTrashedAt ≠ none

def LedgerOp.claims : LedgerOp → Option String
  | .recordAbsent _ key => some key
  | .recordReportedDeletion _ key => some key
  | .recordTrashedDeletion _ key => some key
  | _ => none

def LedgerOp.applies : LedgerOp → Bool
  | .applyDeletion .. => true
  | .applyRelocation .. => true
  | _ => false

def LedgerOp.clearsAbsence : LedgerOp → Bool
  | .clearAbsent .. => true
  | _ => false

variable {op : LedgerOp} {row : ItemRow}

theorem ItemRow.Claimed.of_marks {row' : ItemRow} (h : row'.marks = row.marks) (hc : row.Claimed) : row'.Claimed := by
  obtain ⟨habsent, hreported, htrashed, -⟩ := by simpa [ItemRow.marks] using h
  rw [ItemRow.Claimed, habsent, hreported, htrashed]
  exact hc

theorem sets_marks (hclaims : op.claims = none) (happlies : op.applies = false) (hclears : op.clearsAbsence = false)
    (L : Ledger) (now : Instant) (row : ItemRow) : (op.sets L now row).marks = row.marks := by
  cases op with
  | recordAbsent | recordReportedDeletion | recordTrashedDeletion => cases hclaims
  | applyDeletion | applyRelocation => cases happlies
  | clearAbsent => cases hclears
  | _ => rfl

theorem sets_unclaimed (hclaims : op.claims = none) (L : Ledger) (now : Instant) (h : ¬ row.Claimed) :
    ¬ (op.sets L now row).Claimed := by
  cases op with
  | recordAbsent | recordReportedDeletion | recordTrashedDeletion => cases hclaims
  | applyDeletion | applyRelocation =>
    simp only [LedgerOp.sets]
    split <;> exact h
  | clearAbsent =>
    simp only [LedgerOp.sets]
    split
    · simp [ItemRow.Claimed, clearAbsentValues]
    · exact h
  | _ => exact h

theorem sets_claimed (hclears : op.clearsAbsence = false) (L : Ledger) (now : Instant) (h : row.Claimed) :
    (op.sets L now row).Claimed := by
  cases op with
  | clearAbsent => cases hclears
  | recordAbsent => exact .inl (Nat.succ_ne_zero _)
  | recordReportedDeletion | recordTrashedDeletion =>
    simp only [LedgerOp.sets]
    split
    · exact h
    · simp [ItemRow.Claimed]
  | applyDeletion | applyRelocation =>
    simp only [LedgerOp.sets]
    split <;> exact h
  | _ => exact h

theorem clear_unclaimed (scope : Scope) (key : String) (L : Ledger) (now : Instant) (row : ItemRow) :
    ¬ ((LedgerOp.clearAbsent scope key).sets L now row).Claimed := by
  simp only [LedgerOp.sets]
  split
  · simp [ItemRow.Claimed, clearAbsentValues]
  · rename_i h
    simp only [hasAbsence, Bool.or_eq_true, not_or] at h
    simp only [ItemRow.Claimed]
    simp at h
    simp [h]

theorem inserts_unclaimed (h : op.inserts = some row) : ¬ row.Claimed := by
  cases op with
  | recordIfAbsent r | recordFailure r error =>
    obtain rfl := Option.some.inj h
    simp [ItemRow.Claimed, insertValues, failureValues]
  | _ => cases h

end Marks

section Steps

variable {w : World T} {c : Cmd T} {i : Input T}

theorem exec_row?_some {row : ItemRow} (h : row? w.1.ledger scope key = some row) :
    row? (w.exec i c).2.1.ledger scope key = some row ∨
      ∃ op, c = .ledger op ∧ i.fault = none ∧ op.aimsAt (scope.key key) scope.domain ∧
        row? (w.exec i c).2.1.ledger scope key = some (op.sets w.1.ledger i.now row) := by
  obtain ⟨hlook, hdomain⟩ := (row?_eq_some _).mp h
  obtain ⟨-, hsame⟩ | ⟨op, rfl, hf, haim, hset⟩ := exec_row_some (i := i) (c := c) (w := w) hlook
  · exact .inl ((row?_eq_some _).mpr ⟨hsame, hdomain⟩)
  · refine .inr ⟨op, rfl, hf, hdomain ▸ haim, (row?_eq_some _).mpr ⟨hset, ?_⟩⟩
    rw [sets_domain]
    exact hdomain

theorem exec_row?_none (h : row? w.1.ledger scope key = none) :
    row? (w.exec i c).2.1.ledger scope key = none ∨
      ∃ op row, c = .ledger op ∧ op.inserts = some row ∧ row? (w.exec i c).2.1.ledger scope key = some row := by
  cases hlook : w.row (scope.key key) with
  | some row =>
    have hdomain : row.domain ≠ scope.domain := (row?_eq_none _).mp h row hlook
    left
    apply (row?_eq_none _).mpr
    intro row' hrow'
    obtain ⟨-, hsame⟩ | ⟨op, -, -, -, hset⟩ := exec_row_some (i := i) (c := c) hlook
    · obtain rfl := Option.some.inj (hsame.symm.trans hrow')
      exact hdomain
    · obtain rfl := Option.some.inj (hset.symm.trans hrow')
      rw [sets_domain]
      exact hdomain
  | none =>
    obtain hnone | ⟨op, row, rfl, -, hins, -, hset⟩ := exec_row_none (i := i) (c := c) hlook
    · left
      apply (row?_eq_none _).mpr
      intro row hrow
      cases hnone.symm.trans hrow
    · by_cases hdomain : row.domain = scope.domain
      · exact .inr ⟨op, row, rfl, hins, (row?_eq_some _).mpr ⟨hset, hdomain⟩⟩
      · left
        apply (row?_eq_none _).mpr
        intro row' hrow'
        obtain rfl := Option.some.inj (hset.symm.trans hrow')
        exact hdomain

/-- The ledger claims that this item is gone. -/
def Claims (scope : Scope) (key : String) (w : World T) : Prop :=
  ∃ row, row? w.1.ledger scope key = some row ∧ row.Claimed

def claimsNot (key : String) (x : Heard (Cmd T) Cmd.Resp PassError) : Prop :=
  ∀ op, x.1 = .ledger op → op.claims ≠ some key

def Cleared (scope : Scope) (key : String) (x : Heard (Cmd T) Cmd.Resp PassError) : Prop :=
  x = ⟨.ledger (.clearAbsent scope key), .ok ()⟩

theorem claims_of_aims {op : LedgerOp} {key' : String} (h : op.claims = some key')
    (haim : op.aimsAt (scope.key key) scope.domain) : key' = key := by
  obtain ⟨scope', k, hw, hk, -⟩ := haim
  have hkey : k = key := congrArg ItemKey.naturalKeyHash hk
  cases op with
  | recordAbsent | recordReportedDeletion | recordTrashedDeletion =>
    cases h
    cases hw
    exact hkey
  | _ => cases h

theorem clears_of_aims {op : LedgerOp} (h : op.clearsAbsence = true)
    (haim : op.aimsAt (scope.key key) scope.domain) : op = .clearAbsent scope key := by
  obtain ⟨scope', k, hw, hk, hdomain⟩ := haim
  cases op with
  | clearAbsent scope'' k' =>
    cases hw
    obtain ⟨tenantId, mappingId, domain⟩ := scope'
    obtain ⟨rfl, rfl, rfl⟩ := ItemKey.mk.inj hk
    cases hdomain
    rfl
  | _ => cases h

theorem exec_unclaimed (hclaims : claimsNot key ⟨c, (w.exec i c).1⟩) (h : ¬ Claims scope key w) :
    ¬ Claims scope key (w.exec i c).2 := by
  rintro ⟨row', hrow', hclaimed⟩
  cases hrow : row? w.1.ledger scope key with
  | none =>
    obtain hnone | ⟨op, row, -, hins, hset⟩ := exec_row?_none (i := i) (c := c) hrow
    · cases hnone.symm.trans hrow'
    · obtain rfl := Option.some.inj (hset.symm.trans hrow')
      exact inserts_unclaimed hins hclaimed
  | some row =>
    have hnot : ¬ row.Claimed := fun hc => h ⟨row, hrow, hc⟩
    obtain hsame | ⟨op, rfl, -, haim, hset⟩ := exec_row?_some (i := i) (c := c) hrow
    · obtain rfl := Option.some.inj (hsame.symm.trans hrow')
      exact hnot hclaimed
    · obtain rfl := Option.some.inj (hset.symm.trans hrow')
      refine sets_unclaimed ?_ _ _ hnot hclaimed
      cases hop : op.claims with
      | none => rfl
      | some key' => exact absurd (claims_of_aims hop haim ▸ hop) (hclaims op rfl)

theorem exec_ok {op : LedgerOp} (hf : i.fault = none) :
    (w.exec i (.ledger op)).1 = (PgLedger.exec w.1.ledger i.now op).1.mapError .error := by
  simp [World.exec, World.query, hf]

theorem exec_claimed (hclears : ¬ Cleared scope key (⟨c, (w.exec i c).1⟩ : Heard (Cmd T) Cmd.Resp PassError))
    (h : Claims scope key w) : Claims scope key (w.exec i c).2 := by
  obtain ⟨row, hrow, hclaimed⟩ := h
  obtain hsame | ⟨op, rfl, hf, haim, hset⟩ := exec_row?_some (i := i) (c := c) hrow
  · exact ⟨row, hsame, hclaimed⟩
  · refine ⟨_, hset, sets_claimed ?_ _ _ hclaimed⟩
    cases hop : op.clearsAbsence with
    | false => rfl
    | true =>
      obtain rfl := clears_of_aims hop haim
      apply absurd _ hclears
      rw [Cleared, exec_ok hf]
      rfl

theorem exec_cleared (hclears : Cleared scope key (⟨c, (w.exec i c).1⟩ : Heard (Cmd T) Cmd.Resp PassError)) :
    ¬ Claims scope key (w.exec i c).2 := by
  have hc : c = .ledger (.clearAbsent scope key) := congrArg Sigma.fst hclears
  subst hc
  rintro ⟨row', hrow', hclaimed⟩
  cases hrow : row? w.1.ledger scope key with
  | none =>
    obtain hnone | ⟨op, row, hop, hins, -⟩ := exec_row?_none (i := i) (c := .ledger (.clearAbsent scope key)) hrow
    · cases hnone.symm.trans hrow'
    · cases hop
      cases hins
  | some row =>
    cases hf : i.fault with
    | some reason =>
      have herror : (w.exec i (.ledger (.clearAbsent scope key))).1 = .error (.error reason) := by
        simp [World.exec, World.query, hf]
      rw [Cleared, herror, Sigma.mk.injEq] at hclears
      cases hclears.2
    | none =>
      have hset : row? (w.exec i (.ledger (.clearAbsent scope key))).2.1.ledger scope key =
          some ((LedgerOp.clearAbsent scope key).sets w.1.ledger i.now row) := by
        obtain ⟨hlook, hdomain⟩ := (row?_eq_some _).mp hrow
        obtain ⟨hno, -⟩ | ⟨op, hop, -, -, hset⟩ := exec_row_some (i := i) (c := .ledger (.clearAbsent scope key)) hlook
        · exact absurd ⟨scope, key, rfl, rfl, hdomain.symm⟩ (hno _ rfl hf)
        · cases hop
          refine (row?_eq_some _).mpr ⟨hset, ?_⟩
          rw [sets_domain]
          exact hdomain
      obtain rfl := Option.some.inj (hset.symm.trans hrow')
      exact clear_unclaimed _ _ _ _ _ hclaimed

end Steps

section Stretches

variable {s t : World T} {hs : List (Option ℕ × Heard (Cmd T) Cmd.Resp PassError)}

theorem ran_unclaimed (h : Ran (machine T) s hs t) (hclaims : ∀ x ∈ hs, claimsNot key x.2) (hs : ¬ Claims scope key s) :
    ¬ Claims scope key t :=
  h.keeps (P := fun w => ¬ Claims scope key w) (fun _ _ h => h) (fun _ _ _ hq hp => exec_unclaimed hq hp) hclaims hs

theorem ran_claimed (h : Ran (machine T) s hs t) (hclears : ∀ x ∈ hs, ¬ Cleared scope key x.2)
    (hs : Claims scope key s) : Claims scope key t :=
  h.keeps (P := Claims scope key) (Q := fun x => ¬ Cleared scope key x) (fun _ _ h => h)
    (fun _ _ _ hq hp => exec_claimed hq hp) hclears hs

theorem ran_cleared (h : Ran (machine T) s hs t) (hclaims : ∀ x ∈ hs, claimsNot key x.2)
    {x : Option ℕ × Heard (Cmd T) Cmd.Resp PassError} (hx : x ∈ hs) (hcleared : Cleared scope key x.2) :
    ¬ Claims scope key t := by
  apply h.brings (P := fun w => ¬ Claims scope key w) (fun _ _ h => h) (fun _ _ _ hq hp => exec_unclaimed hq hp) _
    hclaims hx
  intro i u hanswer
  exact exec_cleared (hanswer ▸ hcleared)

/-- An item that nothing claims to be gone meanwhile is claimed gone afterwards just when it was before and nothing
has called that off. -/
theorem ran_claims_iff (h : Ran (machine T) s hs t) (hclaims : ∀ x ∈ hs, claimsNot key x.2) :
    Claims scope key t ↔ Claims scope key s ∧ ∀ x ∈ hs, ¬ Cleared scope key x.2 := by
  constructor
  · intro ht
    constructor
    · by_contra hs
      exact ran_unclaimed h hclaims hs ht
    · exact fun x hx hcleared => ran_cleared h hclaims hx hcleared ht
  · exact fun ⟨hs, hclears⟩ => ran_claimed h hclears hs

def appliesNot (x : Heard (Cmd T) Cmd.Resp PassError) : Prop := ∀ op, x.1 = .ledger op → op.applies = false

theorem ran_marks (h : Ran (machine T) s hs t) (hclaims : ∀ x ∈ hs, claimsNot key x.2)
    (happlies : ∀ x ∈ hs, appliesNot x.2) (hclears : ∀ x ∈ hs, ¬ Cleared scope key x.2) {row : ItemRow}
    (hrow : row? s.1.ledger scope key = some row) :
    ∃ row', row? t.1.ledger scope key = some row' ∧ row'.marks = row.marks := by
  refine h.keeps (P := fun w => ∃ row', row? w.1.ledger scope key = some row' ∧ row'.marks = row.marks)
    (Q := fun x => claimsNot key x ∧ appliesNot x ∧ ¬ Cleared scope key x) (fun _ _ h => h) ?_ ?_ ⟨row, hrow, rfl⟩
  · rintro c i w ⟨hclaim, happly, hclear⟩ ⟨row', hrow', hmarks⟩
    obtain hsame | ⟨op, rfl, hf, haim, hset⟩ := exec_row?_some (i := i) (c := c) hrow'
    · exact ⟨row', hsame, hmarks⟩
    · refine ⟨_, hset, (sets_marks ?_ (happly op rfl) ?_ _ _ _).trans hmarks⟩
      · cases hop : op.claims with
        | none => rfl
        | some key' => exact absurd (claims_of_aims hop haim ▸ hop) (hclaim op rfl)
      · cases hop : op.clearsAbsence with
        | false => rfl
        | true =>
          obtain rfl := clears_of_aims hop haim
          apply absurd _ hclear
          have hok : (w.exec i (.ledger (.clearAbsent scope key))).1 = _ := exec_ok hf
          exact congrArg (Sigma.mk (β := fun c : Cmd T => Except PassError c.Resp) (Cmd.ledger (.clearAbsent scope key))) hok
  · exact fun x hx => ⟨hclaims x hx, happlies x hx, hclears x hx⟩

end Stretches

end OpenMigrate
