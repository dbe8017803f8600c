import Mathlib.Data.List.Perm.Basic
import Mathlib.Data.List.Nodup
import Mathlib.Data.Nat.Notation
import Mathlib.Tactic.Common

namespace OpenMigrate.Concurrency

universe u

/-- What the workers of a call tell: one is started with an item, it returns, or it throws. -/
inductive Event (ε : Type u) where
  | started (i : ℕ)
  | finished (i : ℕ)
  | failed (i : ℕ) (error : ε)

variable {ε : Type u} {max i : ℕ} {e : Event ε} {log past later : List (Event ε)} {running : List ℕ}

def Event.start : Event ε → Option ℕ
  | started i => some i
  | _ => none

def Event.settled : Event ε → Option ℕ
  | started _ => none
  | finished i => some i
  | failed i _ => some i

def Event.finish : Event ε → Option ℕ
  | finished i => some i
  | _ => none

def Event.error : Event ε → Option ε
  | failed _ error => some error
  | _ => none

def startedIn (log : List (Event ε)) : List ℕ := log.filterMap Event.start

def settledIn (log : List (Event ε)) : List ℕ := log.filterMap Event.settled

def finishedIn (log : List (Event ε)) : List ℕ := log.filterMap Event.finish

def errorsIn (log : List (Event ε)) : List ε := log.filterMap Event.error

def inFlight (log : List (Event ε)) : List ℕ := (startedIn log).filter fun i => !(settledIn log).contains i

/-- The log of a call with these items in flight. -/
structure Accounts (max : ℕ) (running : List ℕ) (log : List (Event ε)) : Prop where
  perm : (settledIn log ++ running).Perm (startedIn log)
  once : (startedIn log).Nodup
  bounded : ∀ past, past <+: log → (inFlight past).length ≤ max
  calm : ∀ past i error later, log = past ++ .failed i error :: later → startedIn later = []

theorem Accounts.nil (max : ℕ) : Accounts max [] ([] : List (Event ε)) where
  perm := .refl _
  once := .nil
  bounded := by
    intro past hpast
    rw [List.prefix_nil.mp hpast]
    exact Nat.zero_le _
  calm := by
    intro past i error later h
    cases past <;> cases h

theorem Accounts.congr {running' : List ℕ} (h : Accounts max running log) (hperm : running.Perm running') :
    Accounts max running' log :=
  ⟨(hperm.symm.append_left _).trans h.perm, h.once, h.bounded, h.calm⟩

theorem inFlight_perm (hperm : (settledIn log ++ running).Perm (startedIn log)) (honce : (startedIn log).Nodup) :
    (inFlight log).Perm running := by
  have hsplit := List.nodup_append.mp (hperm.nodup_iff.mpr honce)
  have hfilter := hperm.filter fun i => !(settledIn log).contains i
  rw [List.filter_append, List.filter_eq_nil_iff.mpr, List.filter_eq_self.mpr, List.nil_append] at hfilter
  · exact hfilter.symm
  · intro i hi
    simpa using fun hsettled => hsplit.2.2 i hsettled i hi rfl
  · intro i hi
    simpa using hi

theorem Accounts.snoc (h : Accounts max running log) {running' : List ℕ}
    (hperm : (settledIn (log ++ [e]) ++ running').Perm (startedIn (log ++ [e]))) (honce : (startedIn (log ++ [e])).Nodup)
    (hlength : running'.length ≤ max) (hcalm : e.start ≠ none → errorsIn log = []) :
    Accounts max running' (log ++ [e]) where
  perm := hperm
  once := honce
  bounded := by
    intro past hpast
    obtain rfl | hpast := List.prefix_concat_iff.mp hpast
    · rw [(inFlight_perm hperm honce).length_eq]
      exact hlength
    · exact h.bounded past hpast
  calm := by
    intro past i error later hlog
    obtain rfl | ⟨later, last, rfl⟩ := List.eq_nil_or_concat later
    · rfl
    · rw [List.concat_eq_append, ← List.cons_append, ← List.append_assoc] at hlog
      obtain ⟨rfl, hlast⟩ := List.append_inj' hlog rfl
      cases hlast
      have hnone : e.start = none := by
        by_contra hsome
        have herrors := hcalm hsome
        simp [errorsIn, Event.error] at herrors
      rw [List.concat_eq_append, startedIn, List.filterMap_append, ← startedIn, h.calm past i error later rfl]
      simp [hnone]

theorem Accounts.length_le (h : Accounts max running log) : running.length ≤ max := by
  rw [← (inFlight_perm h.perm h.once).length_eq]
  exact h.bounded log (List.prefix_refl log)

theorem Accounts.start (h : Accounts max running log) (hnew : i ∉ startedIn log) (hroom : running.length < max)
    (hcalm : errorsIn log = []) : Accounts max (i :: running) (log ++ [.started i]) := by
  have hstarted : startedIn (log ++ [.started i]) = startedIn log ++ [i] := by
    rw [startedIn, List.filterMap_append]
    rfl
  have hsettled : settledIn (log ++ [.started i]) = settledIn log := by
    rw [settledIn, List.filterMap_append]
    exact List.append_nil _
  apply h.snoc
  · rw [hstarted, hsettled]
    exact List.perm_middle.trans ((h.perm.cons i).trans (List.perm_append_singleton i _).symm)
  · rw [hstarted]
    apply List.nodup_append.mpr
    refine ⟨h.once, List.nodup_singleton i, ?_⟩
    rintro j hj k hk rfl
    rw [List.mem_singleton.mp hk] at hj
    exact hnew hj
  · exact hroom
  · intro _
    exact hcalm

theorem Accounts.settle (h : Accounts max (i :: running) log) (hstart : e.start = none) (hsettle : e.settled = some i) :
    Accounts max running (log ++ [e]) := by
  have hstarted : startedIn (log ++ [e]) = startedIn log := by
    simp [startedIn, hstart]
  have hsettled : settledIn (log ++ [e]) = settledIn log ++ [i] := by
    simp [settledIn, hsettle]
  apply h.snoc
  · rw [hstarted, hsettled, List.append_assoc]
    exact h.perm
  · rw [hstarted]
    exact h.once
  · have hlength := h.length_le
    rw [List.length_cons] at hlength
    omega
  · intro hne
    exact absurd hstart hne

theorem finishedIn_of_errors (h : errorsIn log = []) : finishedIn log = settledIn log := by
  apply List.filterMap_congr
  intro e he
  cases e with
  | started i => rfl
  | finished i => rfl
  | failed i error => cases List.filterMap_eq_nil_iff.mp h _ he

end OpenMigrate.Concurrency
