import OpenMigrate.Verify.Unclaimed

namespace OpenMigrate.Verify

open PgLedger

/-- What changes a recorded move, or the owner's word on it. -/
inductive MoveOp where
  | recordMove (scope : Scope) (naturalKeyHash toCollection : String) (toNaturalKeyHash : Option String)
  | resolveMove (key : ItemKey)
  | clearMove (scope : Scope) (naturalKeyHash : String)

namespace MoveOp

def exec (L : Ledger) (now : Instant) : MoveOp → Ledger
  | recordMove scope key dest toKey => (PgLedger.exec L now (.recordMove scope key dest toKey)).2
  | resolveMove key => (Resolution.resolveMove.exec L now key).2
  | clearMove scope key => (PgLedger.exec L now (.clearMove scope key)).2

def run (L : Ledger) : List (MoveOp × Instant) → Ledger
  | [] => L
  | (op, now) :: ops => run (op.exec L now) ops

/-- The move of the row of `k` is cleared. -/
def Clears (k : ItemKey) (row : ItemRow) : MoveOp → Prop
  | clearMove scope key => scope.key key = k ∧ scope.domain = row.domain
  | _ => False

/-- The move of the row of `k` is observed, to that destination. -/
def Observes (k : ItemKey) (row : ItemRow) (destination : Option String × Option String) : MoveOp → Prop
  | recordMove scope key dest toKey => scope.key key = k ∧ scope.domain = row.domain ∧ destination = (some dest, toKey)
  | _ => False

end MoveOp

def destination (row : ItemRow) : Option String × Option String := (row.movedToCollection, row.movedToNaturalKeyHash)

section Row

variable {L : Ledger} {now t : Instant} {k : ItemKey} {row : ItemRow} {op : MoveOp}

theorem moveValues_destination (dest : String) (toKey : Option String) :
    destination (moveValues now dest toKey row) = (some dest, toKey) := rfl

theorem moveValues_acknowledged (dest : String) (toKey : Option String) :
    (moveValues now dest toKey row).moveAcknowledgedAt =
      if destination row = (some dest, toKey) then row.moveAcknowledgedAt else none := by
  by_cases hsame : destination row = (some dest, toKey)
  · obtain ⟨hdest, hkey⟩ := Prod.mk.inj hsame
    simp [moveValues, hsame, hdest, hkey]
  · rw [if_neg hsame]
    have hchanged : (row.movedToCollection != some dest || row.movedToNaturalKeyHash != toKey) = true := by
      rw [Bool.or_eq_true, bne_iff_ne, bne_iff_ne]
      by_contra hno
      rw [not_or, not_not, not_not] at hno
      exact hsame (Prod.ext hno.1 hno.2)
    simp only [moveValues, if_pos hchanged]

theorem resolveMove_lookup (key : ItemKey) (hrow : L.lookup k = some row) (hack : row.moveAcknowledgedAt = some t) :
    (Resolution.resolveMove.exec L now key).2.lookup k = some row := by
  unfold Resolution.exec
  cases hfound : (L.lookup key).filter Resolution.resolveMove.open_ with
  | none => exact hrow
  | some found =>
    obtain ⟨hlookup, hopen⟩ := Option.filter_eq_some_iff.mp hfound
    have hne : key ≠ k := by
      rintro rfl
      obtain rfl := Option.some.inj (hrow.symm.trans hlookup)
      simp [Resolution.open_, hack] at hopen
    simp only [replace_lookup, if_neg hne]
    exact hrow

/-- What an operation on moves makes of a row with the owner's word: it clears its move, observes it, or leaves it. -/
inductive MoveStep (k : ItemKey) (row : ItemRow) (op : MoveOp) (row' : ItemRow) : Prop
  | clears (h : op.Clears k row) (hdest : destination row' = (none, none)) (hack : row'.moveAcknowledgedAt = none)
  | observes (dest : Option String × Option String) (h : op.Observes k row dest) (hdest : destination row' = dest)
      (hack : row'.moveAcknowledgedAt = if destination row = dest then row.moveAcknowledgedAt else none)
  | leaves (hclears : ¬ op.Clears k row) (hobserves : ∀ dest, ¬ op.Observes k row dest) (h : row' = row)

theorem exec_move (now : Instant) (op : MoveOp) (hrow : L.lookup k = some row) (hack : row.moveAcknowledgedAt = some t) :
    ∃ row', (op.exec L now).lookup k = some row' ∧ row'.domain = row.domain ∧ MoveStep k row op row' := by
  cases op with
  | recordMove scope key dest toKey =>
    obtain ⟨haway, hlookup⟩ | ⟨haim, hlookup⟩ := exec_lookup_some L now (.recordMove scope key dest toKey) hrow
    · refine ⟨row, hlookup, rfl, .leaves id ?_ rfl⟩
      rintro dest' ⟨hkey, hdomain, -⟩
      exact haway ⟨scope, key, rfl, hkey, hdomain⟩
    · obtain ⟨hkey, hdomain⟩ := (aimsAt_iff rfl).mp haim
      exact ⟨_, hlookup, rfl, .observes (some dest, toKey) ⟨hkey, hdomain, rfl⟩ rfl (moveValues_acknowledged dest toKey)⟩
  | resolveMove key => exact ⟨row, resolveMove_lookup key hrow hack, rfl, .leaves id (fun _ => id) rfl⟩
  | clearMove scope key =>
    obtain ⟨haway, hlookup⟩ | ⟨haim, hlookup⟩ := exec_lookup_some L now (.clearMove scope key) hrow
    · refine ⟨row, hlookup, rfl, .leaves ?_ (fun _ => id) rfl⟩
      rintro ⟨hkey, hdomain⟩
      exact haway ⟨scope, key, rfl, hkey, hdomain⟩
    · exact ⟨_, hlookup, rfl, .clears ((aimsAt_iff rfl).mp haim) rfl rfl⟩

theorem acknowledged_step (now : Instant) (op : MoveOp) (hrow : L.lookup k = some row)
    (hack : row.moveAcknowledgedAt = some t) : ∃ row', (op.exec L now).lookup k = some row' ∧ row'.domain = row.domain ∧
      ((op.Clears k row ∨ destination row' ≠ destination row) ∧ row'.moveAcknowledgedAt = none ∨
        ¬ op.Clears k row ∧ destination row' = destination row ∧ row'.moveAcknowledgedAt = some t) := by
  obtain ⟨row', hlookup, hdomain, hstep⟩ := exec_move now op hrow hack
  refine ⟨row', hlookup, hdomain, ?_⟩
  cases hstep with
  | clears h hdest hnone => exact .inl ⟨.inl h, hnone⟩
  | observes dest h hdest hnext =>
    have hclears : ¬ op.Clears k row := by
      cases op with
      | recordMove => exact id
      | resolveMove | clearMove => exact h.elim
    by_cases hsame : destination row = dest
    · rw [if_pos hsame, hack] at hnext
      exact .inr ⟨hclears, hdest.trans hsame.symm, hnext⟩
    · rw [if_neg hsame] at hnext
      exact .inl ⟨.inr fun heq => hsame (heq.symm.trans hdest), hnext⟩
  | leaves hclears _ h =>
    subst h
    exact .inr ⟨hclears, rfl, hack⟩

/-- The row of `k` has the owner's word of `t` on its move. -/
def AcknowledgedAt (k : ItemKey) (t : Instant) (L : Ledger) : Prop :=
  ∃ row, L.lookup k = some row ∧ row.moveAcknowledgedAt = some t

/-- The operation clears the move of the row, or observes it to another destination than the row has. -/
def MoveOp.Unsettles (k : ItemKey) (row : ItemRow) (op : MoveOp) : Prop :=
  op.Clears k row ∨ ∃ dest, op.Observes k row dest ∧ dest ≠ destination row

theorem MoveOp.unsettles_congr {row' : ItemRow} (hdomain : row'.domain = row.domain) (hdest : destination row' = destination row)
    (op : MoveOp) : op.Unsettles k row' ↔ op.Unsettles k row := by
  cases op <;> simp only [Unsettles, Clears, Observes, hdomain, hdest]

theorem acknowledged_step_iff (now : Instant) (op : MoveOp) (hrow : L.lookup k = some row)
    (hack : row.moveAcknowledgedAt = some t) : AcknowledgedAt k t (op.exec L now) ↔ ¬ op.Unsettles k row := by
  obtain ⟨row', hlookup, -, hstep⟩ := exec_move now op hrow hack
  have hat : AcknowledgedAt k t (op.exec L now) ↔ row'.moveAcknowledgedAt = some t := by
    constructor
    · rintro ⟨row'', hlookup', hack'⟩
      rw [hlookup] at hlookup'
      rw [Option.some.inj hlookup', hack']
    · exact fun h => ⟨row', hlookup, h⟩
  rw [hat]
  cases hstep with
  | clears h hdest hnone => simp [hnone, MoveOp.Unsettles, h]
  | observes dest h hdest hnext =>
    have honly : ∀ dest', op.Observes k row dest' → dest' = dest := by
      intro dest' h'
      cases op with
      | recordMove => exact h'.2.2.trans h.2.2.symm
      | resolveMove | clearMove => exact h.elim
    have hclears : ¬ op.Clears k row := by
      cases op with
      | recordMove => exact id
      | resolveMove | clearMove => exact h.elim
    have hunsettles : op.Unsettles k row ↔ dest ≠ destination row := by
      constructor
      · rintro (hclear | ⟨dest', h', hne⟩)
        · exact absurd hclear hclears
        · rwa [← honly dest' h']
      · exact fun hne => .inr ⟨dest, h, hne⟩
    rw [hnext, hunsettles, hack]
    by_cases hsame : destination row = dest
    · simp [hsame]
    · simp [hsame, Ne.symm hsame]
  | leaves hclears hobserves h =>
    subst h
    simp [hack, MoveOp.Unsettles, hclears, hobserves]

end Row

section Run

variable {L : Ledger} {t : Instant} {k : ItemKey} {row : ItemRow}

theorem run_append (L : Ledger) (before after : List (MoveOp × Instant)) :
    MoveOp.run L (before ++ after) = MoveOp.run (MoveOp.run L before) after := by
  induction before generalizing L with
  | nil => rfl
  | cons op before ih => exact ih _

/-- Over any sequence of operations an acknowledgement is kept from state to state just as long as nobody clears the move
or observes it to another destination; and each step that ends it is one of these. -/
theorem acknowledgement_kept_iff (hrow : L.lookup k = some row) (hack : row.moveAcknowledgedAt = some t)
    (ops : List (MoveOp × Instant)) :
    ((∀ n, AcknowledgedAt k t (MoveOp.run L (ops.take n))) ↔ ∀ op ∈ ops, ¬ op.1.Unsettles k row) ∧
    ∀ before op now after r, ops = before ++ (op, now) :: after → (MoveOp.run L before).lookup k = some r →
      r.moveAcknowledgedAt.isSome → ∃ r', (MoveOp.run L (before ++ [(op, now)])).lookup k = some r' ∧
        ((op.Clears k r ∨ destination r' ≠ destination r) ∧ r'.moveAcknowledgedAt = none ∨
          ¬ op.Clears k r ∧ destination r' = destination r ∧ r'.moveAcknowledgedAt = r.moveAcknowledgedAt) := by
  constructor
  · induction ops generalizing L row with
    | nil => simp [MoveOp.run, AcknowledgedAt, hrow, hack]
    | cons op ops ih =>
      obtain ⟨row', hlookup, hdomain, hstep⟩ := acknowledged_step op.2 op.1 hrow hack
      have hfirst := acknowledged_step_iff op.2 op.1 hrow hack
      have hsplit : (∀ n, AcknowledgedAt k t (MoveOp.run L ((op :: ops).take n))) ↔
          ∀ n, AcknowledgedAt k t (MoveOp.run (op.1.exec L op.2) (ops.take n)) := by
        constructor
        · exact fun h n => h (n + 1)
        · intro h n
          cases n with
          | zero => exact ⟨row, hrow, hack⟩
          | succ n => exact h n
      rw [hsplit, List.forall_mem_cons]
      obtain ⟨-, hnone⟩ | ⟨-, hdest, hsame⟩ := hstep
      · have hgone : ¬ AcknowledgedAt k t (op.1.exec L op.2) := by
          rintro ⟨r, hr, hrack⟩
          obtain rfl := Option.some.inj (hlookup.symm.trans hr)
          rw [hnone] at hrack
          cases hrack
        constructor
        · exact fun h => absurd (h 0) hgone
        · exact fun h => absurd (hfirst.mpr h.1) hgone
      · rw [ih hlookup hsame]
        have hcongr : ∀ op' : MoveOp, op'.Unsettles k row' ↔ op'.Unsettles k row :=
          fun op' => MoveOp.unsettles_congr hdomain hdest op'
        simp only [hcongr]
        exact (and_iff_right (hfirst.mp ⟨row', hlookup, hsame⟩)).symm
  · rintro before op now after r rfl hr hsome
    obtain ⟨u, hu⟩ := Option.isSome_iff_exists.mp hsome
    obtain ⟨r', hlookup, -, hstep⟩ := acknowledged_step now op hr hu
    refine ⟨r', ?_, ?_⟩
    · rw [run_append]
      exact hlookup
    · rwa [hu]

end Run

section Sample

def seenScope : Scope := ⟨"t", "m", .file⟩

/-- A file that moved to another folder, as the owner knows. -/
def seenRow : ItemRow where
  domain := .file
  collection := "notes"
  contentHash := "x"
  sizeBytes := none
  status := .copied
  targetRef := "notes/a.txt"
  sourceVersion := none
  targetVersion := none
  sourceRefHref := none
  movedToCollection := some "archive"
  movedToNaturalKeyHash := some "k'"
  moveAcknowledgedAt := some 3

def seenAgain : List (MoveOp × Instant) :=
  [(.recordMove seenScope "k" "archive" (some "k'"), 5), (.recordMove seenScope "l" "archive" none, 6),
    (.resolveMove (seenScope.key "k"), 7)]

/-- The move is seen again, and another file moves. -/
theorem acknowledgement_kept_seen_again :
    AcknowledgedAt (seenScope.key "k") 3 (MoveOp.run (AList.insert (seenScope.key "k") seenRow ∅) (seenAgain.take 3)) := by
  have hrow : (AList.insert (seenScope.key "k") seenRow ∅ : Ledger).lookup (seenScope.key "k") = some seenRow :=
    AList.lookup_insert _
  apply (acknowledgement_kept_iff hrow rfl seenAgain).1.mpr
  intro op hop
  simp only [seenAgain, List.mem_cons, List.not_mem_nil, or_false] at hop
  rcases hop with rfl | rfl | rfl
  · rintro (hclears | ⟨dest, ⟨-, -, rfl⟩, hne⟩)
    · exact hclears
    · exact hne rfl
  · rintro (hclears | ⟨dest, ⟨hkey, -, -⟩, -⟩)
    · exact hclears
    · exact absurd hkey (by decide)
  · rintro (hclears | ⟨dest, hobserves, -⟩)
    · exact hclears
    · exact hobserves

end Sample

end OpenMigrate.Verify
