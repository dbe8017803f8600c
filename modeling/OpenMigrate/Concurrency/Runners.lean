import OpenMigrate.Concurrency.Log
import Mathlib.Data.List.Range
import Mathlib.Order.Lattice
import Mathlib.Tactic.Common

namespace OpenMigrate.Concurrency

universe u v

section Source

variable {T : Type v} {ε : Type u}

/-- What the runners of a call share. -/
structure Shared (ε : Type u) where
  next : ℕ
  hasError : Bool
  firstError : Option ε
  log : List (Event ε)

/-- A runner waits for the worker of an item or has returned. -/
inductive Runner where
  | awaiting (i : ℕ)
  | returned
  deriving DecidableEq

/-- The `catch` around a worker. -/
def caught (s : Shared ε) (i : ℕ) (error : ε) : Shared ε :=
  let s := { s with log := s.log ++ [.failed i error] }
  if s.hasError then s else { s with hasError := true, firstError := some error }

/-- The loop of a runner up to its next `await`; a worker can throw before it returns a promise. -/
def pull (items : List (Option T)) (throwsAt : ℕ → Option ε) (s : Shared ε) : Shared ε × Runner :=
  if s.hasError then (s, .returned)
  else
    let i := s.next
    if items.length ≤ i then ({ s with next := i + 1 }, .returned)
    else
      match items[i]?.join with
      | none => pull items throwsAt { s with next := i + 1 }
      | some _ =>
        let s := { s with next := i + 1, log := s.log ++ [.started i] }
        match throwsAt i with
        | some error => (caught s i error, .returned)
        | none => (s, .awaiting i)
termination_by items.length - s.next

structure Call (ε : Type u) where
  shared : Shared ε
  runners : List Runner

def maxRunners (n : ℕ) (limit : ℤ) : ℕ := (max 1 (min limit n)).toNat

/-- A runner more; it runs at once up to its first `await`. -/
def Call.addRunner (items : List (Option T)) (throwsAt : ℕ → Option ε) (call : Call ε) : Call ε :=
  let pulled := pull items throwsAt call.shared
  ⟨pulled.1, call.runners ++ [pulled.2]⟩

def launch (items : List (Option T)) (limit : ℤ) (throwsAt : ℕ → Option ε) : Call ε :=
  let idle : Call ε := ⟨⟨0, false, none, []⟩, []⟩
  if items.length = 0 then idle
  else (Call.addRunner items throwsAt)^[maxRunners items.length limit] idle

/-- The worker that runner `k` waits for returns, or throws. -/
def Call.resume (items : List (Option T)) (throwsAt : ℕ → Option ε) (call : Call ε) (k : ℕ) (thrown : Option ε) : Call ε :=
  match call.runners[k]? with
  | some (.awaiting i) =>
    match thrown with
    | some error => ⟨caught call.shared i error, call.runners.set k .returned⟩
    | none =>
      let pulled := pull items throwsAt { call.shared with log := call.shared.log ++ [.finished i] }
      ⟨pulled.1, call.runners.set k pulled.2⟩
  | _ => call

/-- The call as its workers settle in any order. -/
def mapWithConcurrency (items : List (Option T)) (limit : ℤ) (throwsAt : ℕ → Option ε) (turns : List (ℕ × Option ε)) :
    Call ε :=
  turns.foldl (fun call turn => call.resume items throwsAt turn.1 turn.2) (launch items limit throwsAt)

/-- `Promise.all` and what follows it. -/
def Call.outcome (call : Call ε) : Option (Except (Option ε) Unit) :=
  if call.runners.all (· = .returned) then
    some (if call.shared.hasError then .error call.shared.firstError else .ok ())
  else none

end Source

section Shared

variable {T : Type v} {ε : Type u} {items : List (Option T)} {throwsAt : ℕ → Option ε} {s : Shared ε} {max i : ℕ}
  {running : List ℕ}

/-- The indices below `k` that have an item. -/
def indices (items : List (Option T)) (k : ℕ) : List ℕ := (List.range k).filter fun i => items[i]?.join.isSome

theorem indices_succ (items : List (Option T)) (k : ℕ) :
    indices items (k + 1) = indices items k ++ if items[k]?.join.isSome then [k] else [] := by
  rw [indices, List.range_succ, List.filter_append, ← indices, List.filter_singleton]
  split <;> simp_all

theorem indices_past {k : ℕ} (h : items.length ≤ k) : indices items (k + 1) = indices items k := by
  rw [indices_succ, List.getElem?_eq_none h]
  exact List.append_nil _

/-- The shared state of a call with these items in flight. -/
structure Kept (items : List (Option T)) (max : ℕ) (running : List ℕ) (s : Shared ε) : Prop where
  accounts : Accounts max running s.log
  started : startedIn s.log = indices items s.next
  hasError : s.hasError = true ↔ errorsIn s.log ≠ []
  firstError : s.firstError = (errorsIn s.log).head?

theorem Kept.congr {running' : List ℕ} (h : Kept items max running s) (hperm : running.Perm running') :
    Kept items max running' s := ⟨h.accounts.congr hperm, h.started, h.hasError, h.firstError⟩

/-- No runner finds an item any more. -/
def Exhausted (items : List (Option T)) (s : Shared ε) : Prop := s.hasError = true ∨ items.length ≤ s.next

theorem Kept.not_started (h : Kept items max running s) : s.next ∉ startedIn s.log := by
  rw [h.started, indices]
  intro hmem
  have hrange := List.mem_range.mp (List.mem_of_mem_filter hmem)
  omega

theorem Kept.finished (h : Kept items max (i :: running) s) :
    Kept items max running { s with log := s.log ++ [.finished i] } where
  accounts := h.accounts.settle rfl rfl
  started := by
    rw [← h.started, startedIn, List.filterMap_append]
    exact List.append_nil _
  hasError := by
    rw [h.hasError, errorsIn, errorsIn, List.filterMap_append]
    simp [Event.error]
  firstError := by
    rw [h.firstError, errorsIn, errorsIn, List.filterMap_append]
    simp [Event.error]

theorem caught_hasError (s : Shared ε) (i : ℕ) (error : ε) : (caught s i error).hasError = true := by
  rw [caught]
  dsimp only
  split
  · assumption
  · rfl

theorem caught_log (s : Shared ε) (i : ℕ) (error : ε) : (caught s i error).log = s.log ++ [.failed i error] := by
  rw [caught]
  dsimp only
  split <;> rfl

theorem caught_next (s : Shared ε) (i : ℕ) (error : ε) : (caught s i error).next = s.next := by
  rw [caught]
  dsimp only
  split <;> rfl

theorem Kept.caught (h : Kept items max (i :: running) s) (error : ε) :
    Kept items max running (caught s i error) where
  accounts := by
    rw [caught_log]
    exact h.accounts.settle rfl rfl
  started := by
    rw [caught_log, caught_next, ← h.started, startedIn, List.filterMap_append]
    exact List.append_nil _
  hasError := by
    rw [caught_hasError, caught_log, errorsIn, List.filterMap_append]
    simp [Event.error]
  firstError := by
    rw [caught_log, errorsIn, List.filterMap_append, ← errorsIn, List.head?_append, ← h.firstError]
    rw [Concurrency.caught]
    dsimp only
    split
    · rename_i hflag
      obtain ⟨error', errors, herrors⟩ := List.exists_cons_of_ne_nil (h.hasError.mp hflag)
      rw [h.firstError, herrors]
      rfl
    · rename_i hflag
      have herrors : errorsIn s.log = [] := by
        by_contra hne
        exact hflag (h.hasError.mpr hne)
      rw [h.firstError, herrors]
      rfl

def Runner.item : Runner → Option ℕ
  | awaiting i => some i
  | returned => none

/-- What one pull keeps, and what it tells. -/
structure Pulled (items : List (Option T)) (max : ℕ) (running : List ℕ) (s : Shared ε) (pulled : Shared ε × Runner) :
    Prop where
  kept : Kept items max (pulled.2.item.toList ++ running) pulled.1
  past : s.log <+: pulled.1.log
  returned : pulled.2 = .returned ∨ Exhausted items s → Exhausted items pulled.1

theorem Kept.started_next (h : Kept items max running s) (hroom : running.length < max) (hflag : ¬ s.hasError = true)
    {item : T} (hitem : items[s.next]?.join = some item) :
    Kept items max (s.next :: running) { s with next := s.next + 1, log := s.log ++ [.started s.next] } where
  accounts := by
    apply h.accounts.start h.not_started hroom
    by_contra herrors
    exact hflag (h.hasError.mpr herrors)
  started := by
    rw [indices_succ, ← h.started, hitem, startedIn, List.filterMap_append]
    rfl
  hasError := by
    rw [h.hasError, errorsIn, errorsIn, List.filterMap_append]
    simp [Event.error]
  firstError := by
    rw [h.firstError, errorsIn, errorsIn, List.filterMap_append]
    simp [Event.error]

theorem Kept.skip (h : Kept items max running s) (hitem : items[s.next]?.join = none) :
    Kept items max running { s with next := s.next + 1 } where
  accounts := h.accounts
  started := by
    rw [h.started, indices_succ, hitem]
    exact (List.append_nil _).symm
  hasError := h.hasError
  firstError := h.firstError

theorem Exhausted.next (h : Exhausted items s) (log : List (Event ε)) :
    Exhausted items { s with next := s.next + 1, log := log } := by
  obtain hflag | hend := h
  · exact .inl hflag
  · exact .inr (Nat.le_succ_of_le hend)

theorem pull_pulled (h : Kept items max running s) (hroom : running.length < max) :
    Pulled items max running s (pull items throwsAt s) := by
  fun_induction pull items throwsAt s with
  | case1 s hflag => exact ⟨h, List.prefix_refl _, fun _ => .inl hflag⟩
  | case2 s hflag i hend =>
    refine ⟨h.skip ?_, List.prefix_refl _, fun _ => .inr (Nat.le_succ_of_le hend)⟩
    rw [List.getElem?_eq_none hend]
    rfl
  | case3 s hflag i hend hitem ih =>
    have hmore := ih (h.skip hitem)
    refine ⟨hmore.kept, hmore.past, ?_⟩
    intro hended
    exact hmore.returned (hended.imp_right fun hexhausted => hexhausted.next s.log)
  | case4 s hflag i hend item hitem s' error hthrows =>
    refine ⟨(h.started_next hroom hflag hitem).caught error, ?_, fun _ => .inl (caught_hasError _ _ _)⟩
    rw [caught_log, List.append_assoc]
    exact List.prefix_append _ _
  | case5 s hflag i hend item hitem s' hthrows =>
    refine ⟨h.started_next hroom hflag hitem, List.prefix_append _ _, ?_⟩
    rintro (hreturned | hexhausted)
    · cases hreturned
    · exact hexhausted.next _

end Shared

section Calls

variable {T : Type v} {ε : Type u} {items : List (Option T)} {throwsAt : ℕ → Option ε} {limit : ℤ} {call : Call ε}

def awaited (runners : List Runner) : List ℕ := runners.filterMap Runner.item

/-- What a call with this many runners keeps. -/
structure Call.Sound (items : List (Option T)) (max count : ℕ) (call : Call ε) : Prop where
  kept : Kept items max (awaited call.runners) call.shared
  returned : .returned ∈ call.runners → Exhausted items call.shared
  length : call.runners.length = count

theorem awaited_cons (runner : Runner) (runners : List Runner) :
    awaited (runner :: runners) = runner.item.toList ++ awaited runners := by
  cases runner with
  | awaiting i => rfl
  | returned => rfl

theorem awaited_set {runners : List Runner} {k : ℕ} {runner : Runner} (h : runners[k]? = some runner) :
    ∃ others, ∀ next : Runner, (awaited (runners.set k next)).Perm (next.item.toList ++ others) := by
  have hk := (List.getElem?_eq_some_iff.mp h).1
  refine ⟨awaited (runners.take k) ++ awaited (runners.drop (k + 1)), ?_⟩
  intro next
  rw [List.set_eq_take_append_cons_drop, if_pos hk, awaited, List.filterMap_append, ← awaited, ← awaited, awaited_cons]
  exact List.perm_append_comm_assoc _ _ _

theorem addRunner_sound {max count : ℕ} (h : call.Sound items max count) (hroom : count < max) :
    (call.addRunner items throwsAt).Sound items max (count + 1) := by
  have hlength : (awaited call.runners).length < max := by
    have hle : (awaited call.runners).length ≤ call.runners.length := List.length_filterMap_le _ _
    have hcount := h.length
    omega
  have hpulled : Pulled items max (awaited call.runners) call.shared (pull items throwsAt call.shared) :=
    pull_pulled h.kept hlength
  rw [Call.addRunner]
  refine ⟨hpulled.kept.congr ?_, ?_, ?_⟩
  · have hlast : awaited [(pull items throwsAt call.shared).2] = (pull items throwsAt call.shared).2.item.toList := by
      rw [awaited_cons]
      exact List.append_nil _
    rw [← hlast, awaited, awaited, awaited, List.filterMap_append]
    exact List.perm_append_comm
  · intro hmem
    apply hpulled.returned
    obtain hmem | hlast := List.mem_append.mp hmem
    · exact .inr (h.returned hmem)
    · exact .inl (List.mem_singleton.mp hlast).symm
  · rw [List.length_append, h.length]
    rfl

theorem launch_sound :
    (launch items limit throwsAt).Sound items (maxRunners items.length limit)
      (if items.length = 0 then 0 else maxRunners items.length limit) := by
  have hidle : (⟨⟨0, false, none, []⟩, []⟩ : Call ε).Sound items (maxRunners items.length limit) 0 := by
    refine ⟨⟨.nil _, rfl, ?_, rfl⟩, ?_, rfl⟩
    · simp [errorsIn]
    · intro hmem
      cases hmem
  rw [launch]
  split
  · exact hidle
  · have hadded (count : ℕ) (hcount : count ≤ maxRunners items.length limit) :
        ((Call.addRunner items throwsAt)^[count] ⟨⟨0, false, none, []⟩, []⟩).Sound items
          (maxRunners items.length limit) count := by
      induction count with
      | zero => exact hidle
      | succ count ih =>
        rw [Function.iterate_succ_apply']
        exact addRunner_sound (ih (Nat.le_of_succ_le hcount)) hcount
    exact hadded _ (le_refl _)

theorem Call.Sound.runner {max count k i : ℕ} (h : call.Sound items max count) (hk : call.runners[k]? = some (.awaiting i)) :
    ∃ others, (∀ next : Runner, (awaited (call.runners.set k next)).Perm (next.item.toList ++ others)) ∧
      Kept items max (i :: others) call.shared := by
  obtain ⟨others, hothers⟩ := awaited_set hk
  have hself : call.runners.set k (.awaiting i) = call.runners := by
    obtain ⟨hlt, hget⟩ := List.getElem?_eq_some_iff.mp hk
    rw [← hget]
    exact List.set_getElem_self hlt
  have hperm := hothers (.awaiting i)
  rw [hself] at hperm
  exact ⟨others, hothers, h.kept.congr hperm⟩

theorem resume_sound {max count : ℕ} (h : call.Sound items max count) (k : ℕ) (thrown : Option ε) :
    (call.resume items throwsAt k thrown).Sound items max count := by
  rw [Call.resume]
  split
  · rename_i i hk
    obtain ⟨others, hothers, hkept⟩ := h.runner hk
    split
    · rename_i error
      refine ⟨(hkept.caught error).congr (hothers .returned).symm, ?_, ?_⟩
      · intro _
        exact .inl (caught_hasError _ _ _)
      · rw [List.length_set]
        exact h.length
    · have hroom := hkept.accounts.length_le
      have hpulled : Pulled items max others { call.shared with log := call.shared.log ++ [.finished i] }
          (pull items throwsAt { call.shared with log := call.shared.log ++ [.finished i] }) :=
        pull_pulled hkept.finished hroom
      refine ⟨hpulled.kept.congr (hothers _).symm, ?_, ?_⟩
      · intro hmem
        apply hpulled.returned
        obtain hmem | hlast := List.mem_or_eq_of_mem_set hmem
        · exact .inr (h.returned hmem)
        · exact .inl hlast.symm
      · rw [List.length_set]
        exact h.length
  · exact h

theorem resume_settles {max count k i : ℕ} (h : call.Sound items max count)
    (hk : call.runners[k]? = some (.awaiting i)) (thrown : Option ε) :
    (settledIn call.shared.log).length < (settledIn (call.resume items throwsAt k thrown).shared.log).length := by
  obtain ⟨others, -, hkept⟩ := h.runner hk
  rw [Call.resume, hk]
  cases thrown with
  | some error =>
    dsimp only
    rw [caught_log, settledIn, settledIn, List.filterMap_append, List.length_append]
    exact Nat.lt_succ_self _
  | none =>
    have hpulled : Pulled items max others { call.shared with log := call.shared.log ++ [.finished i] }
        (pull items throwsAt { call.shared with log := call.shared.log ++ [.finished i] }) :=
      pull_pulled hkept.finished hkept.accounts.length_le
    have hlength := (hpulled.past.filterMap Event.settled).length_le
    rw [List.filterMap_append, List.length_append] at hlength
    exact hlength

theorem mapWithConcurrency_sound (turns : List (ℕ × Option ε)) :
    (mapWithConcurrency items limit throwsAt turns).Sound items (maxRunners items.length limit)
      (if items.length = 0 then 0 else maxRunners items.length limit) := by
  rw [mapWithConcurrency]
  generalize hlaunch : launch items limit throwsAt = call
  have hsound : call.Sound items (maxRunners items.length limit)
      (if items.length = 0 then 0 else maxRunners items.length limit) := by
    rw [← hlaunch]
    exact launch_sound
  clear hlaunch
  induction turns generalizing call with
  | nil => exact hsound
  | cons turn turns ih => exact ih _ (resume_sound hsound turn.1 turn.2)

theorem awaited_eq_nil {runners : List Runner} : awaited runners = [] ↔ runners.all (· = .returned) = true := by
  rw [awaited, List.filterMap_eq_nil_iff, List.all_eq_true]
  apply forall₂_congr
  intro runner _
  cases runner with
  | awaiting i => simp [Runner.item]
  | returned => simp [Runner.item]

theorem maxRunners_le (n : ℕ) (limit : ℤ) : (maxRunners n limit : ℤ) ≤ max 1 limit := by
  have hone : 0 ≤ max 1 (min limit n) := le_trans (by decide) (le_max_left 1 _)
  rw [maxRunners, Int.toNat_of_nonneg hone]
  omega

theorem maxRunners_pos (n : ℕ) (limit : ℤ) : 0 < maxRunners n limit := by
  have hone : 1 ≤ max 1 (min limit n) := le_max_left 1 _
  rw [maxRunners]
  omega

/-- A call that starts every item once, a bounded number at a time. -/
structure CoversOnce (items : List (Option T)) (throwsAt : ℕ → Option ε) (limit : ℤ) (call : Call ε) : Prop where
  once : (startedIn call.shared.log).Nodup
  bounded : ∀ past, past <+: call.shared.log → ((inFlight past).length : ℤ) ≤ max 1 limit
  /-- While an item is in flight the call is pending, and its worker can settle. -/
  pending : inFlight call.shared.log ≠ [] → call.outcome = none ∧ ∃ k, ∀ thrown,
    (settledIn call.shared.log).length < (settledIn (call.resume items throwsAt k thrown).shared.log).length
  ends : (settledIn call.shared.log).length ≤ items.length
  complete : inFlight call.shared.log = [] → errorsIn call.shared.log = [] → call.outcome = some (.ok ()) ∧
    ∀ i item, items[i]? = some (some item) →
      (startedIn call.shared.log).count i = 1 ∧ (finishedIn call.shared.log).count i = 1
  calm : ∀ past i error later, call.shared.log = past ++ .failed i error :: later → startedIn later = []
  rejects : ∀ error errors, inFlight call.shared.log = [] → errorsIn call.shared.log = error :: errors →
    call.outcome = some (.error (some error))

theorem Call.Sound.inFlight_perm {max count : ℕ} (h : call.Sound items max count) :
    (inFlight call.shared.log).Perm (awaited call.runners) :=
  Concurrency.inFlight_perm h.kept.accounts.perm h.kept.accounts.once

theorem Call.Sound.outcome {max count : ℕ} (h : call.Sound items max count) (hflight : inFlight call.shared.log = []) :
    call.outcome = some (if call.shared.hasError then .error call.shared.firstError else .ok ()) := by
  have hperm := h.inFlight_perm
  rw [hflight] at hperm
  rw [Call.outcome, if_pos (awaited_eq_nil.mp hperm.nil_eq.symm)]

theorem Call.Sound.pending {max count : ℕ} (h : call.Sound items max count) (hflight : inFlight call.shared.log ≠ []) :
    call.outcome = none ∧ ∃ k i : ℕ, call.runners[k]? = some (.awaiting i) := by
  have hawaited : awaited call.runners ≠ [] := by
    intro hnil
    have hperm := h.inFlight_perm
    rw [hnil] at hperm
    exact hflight hperm.eq_nil
  constructor
  · rw [Call.outcome, if_neg]
    intro hall
    exact hawaited (awaited_eq_nil.mpr hall)
  · obtain ⟨i, hi⟩ := List.exists_mem_of_ne_nil _ hawaited
    obtain ⟨runner, hrunner, hitem⟩ := List.mem_filterMap.mp hi
    obtain ⟨k, hk⟩ := List.mem_iff_getElem?.mp hrunner
    cases runner with
    | awaiting j => exact ⟨k, j, hk⟩
    | returned => cases hitem

theorem Call.Sound.all_started {max count i : ℕ} {item : T} (h : call.Sound items max count) (hcount : 0 < count)
    (hflight : inFlight call.shared.log = []) (herrors : errorsIn call.shared.log = [])
    (hitem : items[i]? = some (some item)) : i ∈ startedIn call.shared.log := by
  have hperm := h.inFlight_perm
  rw [hflight] at hperm
  have hall := List.all_eq_true.mp (awaited_eq_nil.mp hperm.nil_eq.symm)
  obtain ⟨runner, runners, hrunners⟩ := List.exists_cons_of_length_pos (by rw [h.length]; exact hcount)
  have hreturned : Runner.returned ∈ call.runners := by
    have hrunner := hall runner (by rw [hrunners]; exact List.mem_cons_self)
    rw [← of_decide_eq_true hrunner, hrunners]
    exact List.mem_cons_self
  have hlt := (List.getElem?_eq_some_iff.mp hitem).1
  rw [h.kept.started, indices, List.mem_filter, List.mem_range, hitem]
  obtain hflag | hend := h.returned hreturned
  · exact absurd herrors (h.kept.hasError.mp hflag)
  · exact ⟨Nat.lt_of_lt_of_le hlt hend, rfl⟩

theorem indices_length_le (items : List (Option T)) (k : ℕ) : (indices items k).length ≤ items.length := by
  have hsubset : indices items k ⊆ List.range items.length := by
    intro i hi
    obtain ⟨item, hitem⟩ := Option.isSome_iff_exists.mp (List.mem_filter.mp hi).2
    rw [List.mem_range]
    by_contra hend
    rw [List.getElem?_eq_none (Nat.le_of_not_lt hend)] at hitem
    cases hitem
  have hnodup : (indices items k).Nodup := List.nodup_range.filter _
  have hlength := (List.subperm_of_subset hnodup hsubset).length_le
  rwa [List.length_range] at hlength

theorem mapWithConcurrency_covers (items : List (Option T)) (limit : ℤ) (throwsAt : ℕ → Option ε)
    (turns : List (ℕ × Option ε)) :
    CoversOnce items throwsAt limit (mapWithConcurrency items limit throwsAt turns) := by
  have hsound : (mapWithConcurrency items limit throwsAt turns).Sound items (maxRunners items.length limit)
      (if items.length = 0 then 0 else maxRunners items.length limit) := mapWithConcurrency_sound turns
  generalize mapWithConcurrency items limit throwsAt turns = call at hsound
  have haccounts := hsound.kept.accounts
  refine ⟨haccounts.once, ?_, ?_, ?_, ?_, haccounts.calm, ?_⟩
  · intro past hpast
    have hbound := haccounts.bounded past hpast
    have hmax := maxRunners_le items.length limit
    omega
  · intro hflight
    obtain ⟨houtcome, k, i, hk⟩ := hsound.pending hflight
    exact ⟨houtcome, k, resume_settles hsound hk⟩
  · have hlength := haccounts.perm.length_eq
    rw [List.length_append, hsound.kept.started] at hlength
    have hle := indices_length_le items call.shared.next
    omega
  · intro hflight herrors
    have hflag : ¬ call.shared.hasError = true := by
      intro hflag
      exact hsound.kept.hasError.mp hflag herrors
    constructor
    · rw [hsound.outcome hflight, if_neg hflag]
    · intro i item hitem
      have hcount : 0 < if items.length = 0 then 0 else maxRunners items.length limit := by
        rw [if_neg]
        · exact maxRunners_pos _ _
        · have hlt := (List.getElem?_eq_some_iff.mp hitem).1
          omega
      have hstarted := hsound.all_started hcount hflight herrors hitem
      have hperm := hsound.inFlight_perm
      rw [hflight] at hperm
      have hsettled := haccounts.perm
      rw [← hperm.nil_eq, List.append_nil, ← finishedIn_of_errors herrors] at hsettled
      have hone := List.count_eq_one_of_mem haccounts.once hstarted
      exact ⟨hone, by rw [hsettled.count_eq, hone]⟩
  · intro error errors hflight herrors
    have hne : errorsIn call.shared.log ≠ [] := by
      rw [herrors]
      exact List.cons_ne_nil _ _
    rw [hsound.outcome hflight, if_pos (hsound.kept.hasError.mpr hne), hsound.kept.firstError, herrors]
    rfl

end Calls

end OpenMigrate.Concurrency
