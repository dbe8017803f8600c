import OpenMigrate.Sync.Passes

namespace OpenMigrate

open Async Prog

variable {T : TargetApi} {Item Folder Raw : Type}

/-- The two signals of a removal that a source can give of its own accord. -/
inductive Signal where
  | reported
  | trashed

def Signal.mark : Signal → ItemRow → Option Instant
  | reported, row => row.deletionReportedAt
  | trashed, row => row.deletionTrashedAt

theorem sets_mark (sig : Signal) {op : LedgerOp} (hop : op.clears = none) (L : Ledger) (now : Instant)
    {row : ItemRow} (h : sig.mark row ≠ none) : sig.mark (op.sets L now row) ≠ none := by
  cases op with
  | clearAbsent => cases hop
  | recordReportedDeletion | recordTrashedDeletion =>
    cases sig <;> simp only [LedgerOp.sets, Signal.mark] at h ⊢ <;> split <;> simp_all
  | applyDeletion | applyRelocation =>
    cases sig <;> simp only [LedgerOp.sets] <;> split <;> exact h
  | _ => cases sig <;> exact h

def Signalled (sig : Signal) (scope : Scope) (key : String) (L : Ledger) : Prop :=
  ∃ row, PgLedger.row? L scope key = some row ∧ sig.mark row ≠ none

def Signal.record : Signal → Scope → String → LedgerOp
  | reported => .recordReportedDeletion
  | trashed => .recordTrashedDeletion

variable {sig : Signal} {scope : Scope} {key : String}

theorem record_signals {L : Ledger} {row : ItemRow} (h : PgLedger.row? L scope key = some row) (now : Instant) :
    Signalled sig scope key (PgLedger.exec L now (sig.record scope key)).2 := by
  obtain ⟨hlook, hdomain⟩ := (PgLedger.row?_eq_some L).mp h
  obtain ⟨hno, -⟩ | ⟨-, hset⟩ := PgLedger.exec_lookup_some L now (sig.record scope key) hlook
  · cases sig <;> exact absurd ⟨scope, key, rfl, rfl, hdomain.symm⟩ hno
  · refine ⟨_, (PgLedger.row?_eq_some _).mpr ⟨hset, (sets_domain _ _ _ _).trans hdomain⟩, ?_⟩
    cases sig <;>
    · simp only [Signal.record, LedgerOp.sets, Signal.mark]
      split
      · rename_i hsome
        exact Option.isSome_iff_ne_none.mp hsome
      · simp

theorem clears_eq_of_aims {op : LedgerOp} {domain : Domain} (hop : op.clears ≠ none)
    (h : op.aimsAt (scope.key key) domain) : key ∈ op.clears := by
  obtain ⟨scope', k, hw, hkey, -⟩ := h
  have hk : k = key := congrArg ItemKey.naturalKeyHash hkey
  cases op with
  | clearMove scope'' k' | clearAbsent scope'' k' =>
    simp only [LedgerOp.writes?, Option.some.injEq, Prod.mk.injEq] at hw
    rw [LedgerOp.clears, ← hk, ← hw.2]
    rfl
  | _ => exact absurd rfl hop

theorem ledger_signalled {L : Ledger} {now : Instant} {op : LedgerOp} (h : Signalled sig scope key L)
    (hclears : key ∉ op.clears) : Signalled sig scope key (PgLedger.exec L now op).2 := by
  obtain ⟨row, hrow, hmark⟩ := h
  obtain ⟨hlook, hdomain⟩ := (PgLedger.row?_eq_some _).mp hrow
  obtain ⟨-, hsame⟩ | ⟨haim, hset⟩ := PgLedger.exec_lookup_some L now op hlook
  · exact ⟨row, (PgLedger.row?_eq_some _).mpr ⟨hsame, hdomain⟩, hmark⟩
  · have hnone : op.clears = none := by
      by_contra hne
      exact hclears (clears_eq_of_aims hne haim)
    refine ⟨_, (PgLedger.row?_eq_some _).mpr ⟨hset, ?_⟩, sets_mark sig hnone _ _ hmark⟩
    rw [sets_domain]
    exact hdomain

theorem exec_signalled {i : Input T} {w : World T} {c : Cmd T} (h : Signalled sig scope key w.1.ledger)
    (hclears : ∀ op, c = .ledger op → key ∉ op.clears) : Signalled sig scope key (w.exec i c).2.1.ledger := by
  obtain ⟨-, hsame⟩ | ⟨op, rfl, -, hset⟩ := exec_ledger i w c
  · rwa [hsame]
  · rw [hset]
    exact ledger_signalled h (hclears op rfl)

variable [FolderLike Folder]

def EachPass (P : Pass T Item Folder Raw → Store T → Prop) : List (Pass T Item Folder Raw) → Store T → Prop
  | [], _ => True
  | p :: passes, store => P p store ∧ EachPass P passes (p.ending store).1

theorem EachPass.append {P : Pass T Item Folder Raw → Store T → Prop} {passes passes' : List (Pass T Item Folder Raw)}
    {store : Store T} :
    EachPass P (passes ++ passes') store ↔ EachPass P passes store ∧ EachPass P passes' (afterPasses passes store) := by
  induction passes generalizing store with
  | nil => simp [EachPass]
  | cons p passes ih => simp [EachPass, ih, and_assoc]

theorem pass_keeps {P : World T → Prop} {p : Pass T Item Folder Raw} {store : Store T}
    (hact : ∀ s t, P s → OwnerOnly s t → P t)
    (hstep : ∀ c i w, PassStep p.deps c w → P w → P (w.exec i c).2) :
    ∀ ev ∈ p.trace store, P ev.pre → P ((machine T).post ev) := by
  intro ev hev hpre
  cases ev with
  | exec th c i w => exact hstep c i w (pass_step p store hev) hpre
  | act a w => exact hact w _ hpre (OwnerOnly.act a w)

theorem pass_signalled (p : Pass T Item Folder Raw) {store : Store T} (h : Signalled sig scope key store.ledger) :
    key ∈ seenAnywhere (p.ending store).vars ∨ Signalled sig scope key (p.ending store).1.ledger := by
  have hact : ∀ s t : World T, key ∈ seenAnywhere s.vars ∨ Signalled sig scope key s.1.ledger → OwnerOnly s t →
      key ∈ seenAnywhere t.vars ∨ Signalled sig scope key t.1.ledger := by
    intro s t hs ho
    rw [ho.vars, ho.1]
    exact hs
  refine (machine T).run_keeps (pass_keeps hact ?_) (.inr h)
  intro c i w hstep hw
  by_cases hseen : key ∈ seenAnywhere w.vars
  · exact .inl (seen_mono ((exec_sees hstep i).seen) hseen)
  · refine .inr (exec_signalled (hw.resolve_left hseen) ?_)
    rintro op rfl hclears
    exact hseen (hstep.2 key hclears)

theorem passes_signalled {passes : List (Pass T Item Folder Raw)} {store : Store T}
    (hunlisted : EachPass (fun p s => key ∉ seenAnywhere (p.ending s).vars) passes store)
    (h : Signalled sig scope key store.ledger) : Signalled sig scope key (afterPasses passes store).ledger := by
  induction passes generalizing store with
  | nil => exact h
  | cons p passes ih =>
    obtain hseen | hsig := pass_signalled p h
    · exact absurd hseen hunlisted.1
    · exact ih hunlisted.2 hsig

end OpenMigrate
