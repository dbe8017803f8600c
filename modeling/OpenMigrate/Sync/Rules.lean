import OpenMigrate.Sync.Effect
import OpenMigrate.Sync.DomainSync

namespace OpenMigrate

open Async Prog

variable {T : TargetApi} {Γ : Rules (World T) (Cmd T) (Input T)} {P : World T → Prop} {s : World T}

/-- What happens to the world while a pass waits: the owner's own acts, on the target. -/
def OwnerOnly (s t : World T) : Prop := t.1.ledger = s.1.ledger ∧ t.1.cursors = s.1.cursors ∧ t.2 = s.2

theorem OwnerOnly.refl (s : World T) : OwnerOnly s s := ⟨rfl, rfl, rfl⟩

theorem OwnerOnly.trans {s t u : World T} (h : OwnerOnly s t) (h' : OwnerOnly t u) : OwnerOnly s u :=
  ⟨h'.1.trans h.1, h'.2.1.trans h.2.1, h'.2.2.trans h.2.2⟩

theorem OwnerOnly.act (a : T.Act) (s : World T) : OwnerOnly s ((machine T).act a s) := ⟨rfl, rfl, rfl⟩

theorem OwnerOnly.row {s t : World T} (h : OwnerOnly s t) (key : ItemKey) : t.row key = s.row key := by
  rw [World.row, World.row, h.1]

theorem OwnerOnly.vars {s t : World T} (h : OwnerOnly s t) : t.vars = s.vars := by
  rw [World.vars, World.vars, h.2.2]

theorem OwnerOnly.cursor {s t : World T} (h : OwnerOnly s t) (key : CursorKey) : t.cursor key = s.cursor key := by
  rw [World.cursor, World.cursor, h.2.1]

def ownerRules (T : TargetApi) : Rules (World T) (Cmd T) (Input T) where
  assume _ _ _ := True
  rely := OwnerOnly
  guar _ _ _ := True
  refl := OwnerOnly.refl
  trans := OwnerOnly.trans

def World.setVars (w : World T) (v : PassVars) : World T := (w.1, { w.2 with vars := v })

def World.setLedger (w : World T) (L : Ledger) : World T := ({ w.1 with ledger := L }, w.2)

@[simp] theorem World.setVars_vars (w : World T) (v : PassVars) : (w.setVars v).vars = v := rfl

@[simp] theorem World.setVars_row (w : World T) (v : PassVars) (key : ItemKey) :
    (w.setVars v).row key = w.row key := rfl

@[simp] theorem World.setVars_cursor (w : World T) (v : PassVars) (key : CursorKey) :
    (w.setVars v).cursor key = w.cursor key := rfl

@[simp] theorem World.setLedger_vars (w : World T) (L : Ledger) : (w.setLedger L).vars = w.vars := rfl

@[simp] theorem World.setLedger_cursor (w : World T) (L : Ledger) (key : CursorKey) :
    (w.setLedger L).cursor key = w.cursor key := rfl

theorem exec_modify (i : Input T) (w : World T) (f : PassVars → PassVars) :
    w.exec i (.modify f) = (.ok (), w.setVars (f w.vars)) := rfl

theorem exec_op (i : Input T) (w : World T) (op : LedgerOp) :
    (∃ reason, i.fault = some reason ∧ w.exec i (.ledger op) = (.error (.error reason), w)) ∨
      i.fault = none ∧ w.exec i (.ledger op) =
        ((PgLedger.exec w.1.ledger i.now op).1.mapError .error,
          w.setLedger (PgLedger.exec w.1.ledger i.now op).2) := by
  cases hf : i.fault with
  | some reason => exact .inl ⟨reason, rfl, by simp [World.exec, World.query, hf]⟩
  | none => exact .inr ⟨rfl, by simp [World.exec, World.query, hf, World.setLedger]⟩

theorem exec_read (i : Input T) (w : World T) {op : LedgerOp} {answer : op.Resp}
    (h : PgLedger.exec w.1.ledger i.now op = (.ok answer, w.1.ledger)) :
    (∃ reason, w.exec i (.ledger op) = (.error (.error reason), w)) ∨
      w.exec i (.ledger op) = (.ok answer, w) := by
  obtain ⟨reason, -, he⟩ | ⟨-, he⟩ := exec_op i w op
  · exact .inl ⟨reason, he⟩
  · refine .inr ?_
    rw [he, h]
    rfl

section Free

variable (hP : ∀ s t, P s → Γ.rely s t → P t) (hs : P s)
include hP hs

theorem free_call {c : Cmd T} {K : Except PassError c.Resp → World T → Prop}
    (h : ∀ t i, P t → Γ.assume c i t → K (t.exec i c).1 (t.exec i c).2) :
    wp (callSpec (machine T) Γ.free) (Prog.perform c) K s :=
  (wp_perform _ _ _ _).mpr fun t ht i hi => ⟨trivial, h t i (hP s t hs ht) hi⟩

theorem free_modify {f : PassVars → PassVars} {K : Except PassError Unit → World T → Prop}
    (h : ∀ t, P t → K (.ok ()) (t.setVars (f t.vars))) :
    wp (callSpec (machine T) Γ.free) (Task.modify f) K s :=
  free_call hP hs fun t _ ht _ => h t ht

theorem free_vars {K : Except PassError PassVars → World T → Prop} (h : ∀ t, P t → K (.ok t.vars) t) :
    wp (callSpec (machine T) Γ.free) Task.vars K s :=
  free_call hP hs fun t _ ht _ => h t ht

theorem free_read (op : LedgerOp) {answer : World T → op.Resp} {K : Except PassError op.Resp → World T → Prop}
    (hread : ∀ t now, PgLedger.exec t.1.ledger now op = (.ok (answer t), t.1.ledger))
    (hok : ∀ t, P t → K (.ok (answer t)) t) (herr : ∀ t reason, P t → K (.error (.error reason)) t) :
    wp (callSpec (machine T) Γ.free) (Task.ledger op) K s := by
  refine free_call hP hs fun t i ht _ => ?_
  obtain ⟨reason, he⟩ | he := exec_read i t (hread t i.now)
  · rw [he]
    exact herr t reason ht
  · rw [he]
    exact hok t ht

theorem free_find {scope : Scope} {key : String}
    {K : Except PassError (Option LedgerRecord) → World T → Prop}
    (hok : ∀ t, P t → K (.ok (PgLedger.find t.1.ledger scope key)) t)
    (herr : ∀ t reason, P t → K (.error (.error reason)) t) :
    wp (callSpec (machine T) Γ.free) (Task.ledger (.find scope key)) K s :=
  free_read hP hs (.find scope key) (fun _ _ => rfl) hok herr

theorem free_write {op : LedgerOp} {K : Except PassError op.Resp → World T → Prop}
    (hok : ∀ t now, P t → K ((PgLedger.exec t.1.ledger now op).1.mapError .error)
      (t.setLedger (PgLedger.exec t.1.ledger now op).2))
    (herr : ∀ t reason, P t → K (.error (.error reason)) t) :
    wp (callSpec (machine T) Γ.free) (Task.ledger op) K s := by
  refine free_call hP hs fun t i ht _ => ?_
  obtain ⟨reason, -, he⟩ | ⟨-, he⟩ := exec_op i t op
  · rw [he]
    exact herr t reason ht
  · rw [he]
    exact hok t i.now ht

end Free

end OpenMigrate
