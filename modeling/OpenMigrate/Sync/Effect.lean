import OpenMigrate.Sync.World

namespace OpenMigrate

open Async

variable {T : TargetApi} (i : Input T) (w : World T)

theorem exec_ledger (c : Cmd T) :
    (∀ op, c = .ledger op → i.fault ≠ none) ∧ (w.exec i c).2.1.ledger = w.1.ledger ∨
      ∃ op, c = .ledger op ∧ i.fault = none ∧
        (w.exec i c).2.1.ledger = (PgLedger.exec w.1.ledger i.now op).2 := by
  cases c with
  | ledger op =>
    cases hf : i.fault with
    | none => exact .inr ⟨op, rfl, rfl, by simp [World.exec, World.query, hf]⟩
    | some reason => exact .inl ⟨by simp, by simp [World.exec, World.query, hf]⟩
  | target | modify | vars => exact .inl ⟨by simp, rfl⟩
  | cursorGet key | cursorSet key value =>
    refine .inl ⟨by simp, ?_⟩
    cases hf : i.fault <;> simp [World.exec, World.query, hf]

theorem exec_vars (c : Cmd T) : (∃ f, c = .modify f) ∨ (w.exec i c).2.vars = w.vars := by
  cases c with
  | modify f => exact .inl ⟨f, rfl⟩
  | target | vars => exact .inr rfl
  | ledger op | cursorGet key | cursorSet key value =>
    refine .inr ?_
    cases hf : i.fault <;> simp [World.exec, World.query, hf, World.vars]

theorem exec_cursors (c : Cmd T) :
    (∃ key value, c = .cursorSet key value) ∨ (w.exec i c).2.1.cursors = w.1.cursors := by
  cases c with
  | cursorSet key value => exact .inl ⟨key, value, rfl⟩
  | target | modify | vars => exact .inr rfl
  | ledger op | cursorGet key =>
    refine .inr ?_
    cases hf : i.fault <;> simp [World.exec, World.query, hf]

theorem exec_target (c : Cmd T) : (∃ r, c = .target r) ∨ (w.exec i c).2.1.target = w.1.target := by
  cases c with
  | target r => exact .inl ⟨r, rfl⟩
  | modify | vars => exact .inr rfl
  | ledger op | cursorGet key | cursorSet key value =>
    refine .inr ?_
    cases hf : i.fault <;> simp [World.exec, World.query, hf]

variable {i w}

theorem exec_row_some {c : Cmd T} {key : ItemKey} {row : ItemRow} (hr : w.row key = some row) :
    (∀ op, c = .ledger op → i.fault = none → ¬ op.aimsAt key row.domain) ∧
        (w.exec i c).2.row key = some row ∨
      ∃ op, c = .ledger op ∧ i.fault = none ∧ op.aimsAt key row.domain ∧
        (w.exec i c).2.row key = some (op.sets w.1.ledger i.now row) := by
  unfold World.row at hr ⊢
  obtain ⟨hno, heq⟩ | ⟨op, rfl, hf, heq⟩ := exec_ledger i w c
  · rw [heq]
    exact .inl ⟨fun op hc hf => absurd hf (hno op hc), hr⟩
  · rw [heq]
    obtain ⟨hno, hsame⟩ | ⟨haim, hset⟩ := PgLedger.exec_lookup_some w.1.ledger i.now op hr
    · refine .inl ⟨?_, hsame⟩
      rintro op' ⟨⟩ -
      exact hno
    · exact .inr ⟨op, rfl, hf, haim, hset⟩

theorem exec_row_none {c : Cmd T} {key : ItemKey} (hr : w.row key = none) :
    (w.exec i c).2.row key = none ∨
      ∃ op row, c = .ledger op ∧ i.fault = none ∧ op.inserts = some row ∧ op.aimsAt key row.domain ∧
        (w.exec i c).2.row key = some row := by
  unfold World.row at hr ⊢
  obtain ⟨-, heq⟩ | ⟨op, rfl, hf, heq⟩ := exec_ledger i w c
  · rw [heq]
    exact .inl hr
  · rw [heq]
    obtain hnone | ⟨row, hins, haim, hrow⟩ := PgLedger.exec_lookup_none w.1.ledger i.now op hr
    · exact .inl hnone
    · exact .inr ⟨op, row, rfl, hf, hins, haim, hrow⟩

@[simp] theorem act_row (a : T.Act) (key : ItemKey) : ((machine T).act a w).row key = w.row key := rfl

@[simp] theorem act_vars (a : T.Act) : ((machine T).act a w).vars = w.vars := rfl

@[simp] theorem act_cursor (a : T.Act) (key : CursorKey) : ((machine T).act a w).cursor key = w.cursor key := rfl

end OpenMigrate
