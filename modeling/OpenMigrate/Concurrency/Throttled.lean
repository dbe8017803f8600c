import OpenMigrate.Concurrency.Runners

namespace OpenMigrate.Concurrency

universe u v w

section Source

variable {T : Type v} {R : Type w} {ε : Type u}

/-- The arrays that the tasks of a call fill. -/
structure Throttled (R : Type w) (ε : Type u) where
  call : Call ε
  results : List R
  errors : List ε

/-- A task settles: its wrapper stores what came of it and returns to the runner. -/
def Throttled.settle (items : List (Option T)) (worker : Option T → ℕ → Except ε R) (s : Throttled R ε) (i : ℕ) :
    Throttled R ε :=
  match s.call.runners.findIdx? (· = .awaiting i) with
  | none => s
  | some k =>
    let call := s.call.resume items (fun _ => none) k none
    match worker items[i]?.join i with
    | .ok result => ⟨call, s.results ++ [result], s.errors⟩
    | .error error => ⟨call, s.results, s.errors ++ [error]⟩

/-- The call as its tasks settle in the order of `finishing`; the wrapper of a task never throws. -/
def executeWithConcurrencyAndThrottling (items : List (Option T)) (maxConcurrent : ℤ) (worker : Option T → ℕ → Except ε R)
    (finishing : List ℕ) : Throttled R ε :=
  finishing.foldl (Throttled.settle items worker) ⟨launch items maxConcurrent fun _ => none, [], []⟩

/-- What follows the `await`. -/
def Throttled.returned (s : Throttled R ε) : Except (Option ε) (List R) :=
  match s.errors with
  | error :: _ => .error (some error)
  | [] => .ok s.results

def Throttled.outcome (s : Throttled R ε) : Option (Except (Option ε) (List R)) :=
  s.call.outcome.map fun settled => settled.bind fun _ => s.returned

end Source

section Order

variable {T : Type v} {R : Type w} {ε : Type u} {items : List (Option T)} {worker : Option T → ℕ → Except ε R}
  {maxConcurrent : ℤ} {finishing : List ℕ} {s : Throttled R ε} {i : ℕ}

/-- The runners of the call, whatever its tasks come to. -/
def scheduled (ε : Type u) (items : List (Option T)) (maxConcurrent : ℤ) (finishing : List ℕ) : Call ε :=
  finishing.foldl
    (fun call i => (call.runners.findIdx? (· = .awaiting i)).elim call (call.resume items (fun _ => none) · none))
    (launch items maxConcurrent fun _ => none)

/-- Each task of the list settles while it is in flight, and none is in flight after the last. -/
structure Settles (ε : Type u) (items : List (Option T)) (maxConcurrent : ℤ) (finishing : List ℕ) : Prop where
  running : ∀ past i later, finishing = past ++ i :: later →
    i ∈ inFlight (scheduled ε items maxConcurrent past).shared.log
  all : inFlight (scheduled ε items maxConcurrent finishing).shared.log = []

/-- What a call that settles its tasks in this order promises. -/
structure KeepsOrder (items : List (Option T)) (maxConcurrent : ℤ) (worker : Option T → ℕ → Except ε R)
    (finishing : List ℕ) : Prop where
  order : ∀ results, (executeWithConcurrencyAndThrottling items maxConcurrent worker finishing).outcome = some (.ok results) →
    results.map Except.ok = items.mapIdx fun k item => worker item k
  once : (∀ k item, items[k]? = some item → ∃ result, worker item k = .ok result) → ∀ k < items.length,
    (startedIn (executeWithConcurrencyAndThrottling items maxConcurrent worker finishing).call.shared.log).count k = 1

def thrown : Except ε R → Option ε
  | .ok _ => none
  | .error error => some error

/-- What the call has stored once these tasks have settled. -/
structure Filled (items : List (Option T)) (maxConcurrent : ℤ) (worker : Option T → ℕ → Except ε R) (settled : List ℕ)
    (s : Throttled R ε) : Prop where
  sound : s.call.Sound items (maxRunners items.length maxConcurrent)
    (if items.length = 0 then 0 else maxRunners items.length maxConcurrent)
  finished : finishedIn s.call.shared.log = settled
  calm : errorsIn s.call.shared.log = []
  results : s.results = settled.filterMap fun i => (worker items[i]?.join i).toOption
  errors : s.errors = settled.filterMap fun i => thrown (worker items[i]?.join i)

theorem pull_quiet (items : List (Option T)) (s : Shared ε) :
    finishedIn (pull items (fun _ => none) s).1.log = finishedIn s.log ∧
      errorsIn (pull items (fun _ => none) s).1.log = errorsIn s.log := by
  fun_induction pull items (fun _ => none) s with
  | case1 s hflag => exact ⟨rfl, rfl⟩
  | case2 s hflag i hend => exact ⟨rfl, rfl⟩
  | case3 s hflag i hend hitem ih => exact ih
  | case4 s hflag i hend item hitem s' error hthrows => cases hthrows
  | case5 s hflag i hend item hitem s' hthrows =>
    constructor
    · rw [finishedIn, List.filterMap_append]
      exact List.append_nil _
    · rw [errorsIn, List.filterMap_append]
      exact List.append_nil _

theorem launch_quiet (items : List (Option T)) (limit : ℤ) :
    finishedIn (launch items limit fun _ => (none : Option ε)).shared.log = [] ∧
      errorsIn (launch items limit fun _ => (none : Option ε)).shared.log = [] := by
  rw [launch]
  split
  · exact ⟨rfl, rfl⟩
  · generalize maxRunners items.length limit = count
    induction count with
    | zero => exact ⟨rfl, rfl⟩
    | succ count ih =>
      rw [Function.iterate_succ_apply']
      have hpull := pull_quiet (ε := ε) items ((Call.addRunner items fun _ => none)^[count] ⟨⟨0, false, none, []⟩, []⟩).shared
      exact ⟨hpull.1.trans ih.1, hpull.2.trans ih.2⟩

theorem launch_filled (items : List (Option T)) (maxConcurrent : ℤ) (worker : Option T → ℕ → Except ε R) :
    Filled items maxConcurrent worker [] ⟨launch items maxConcurrent fun _ => none, [], []⟩ where
  sound := launch_sound
  finished := (launch_quiet items maxConcurrent).1
  calm := (launch_quiet items maxConcurrent).2
  results := rfl
  errors := rfl

theorem Filled.runner {settled : List ℕ} (h : Filled items maxConcurrent worker settled s)
    (hi : i ∈ inFlight s.call.shared.log) :
    ∃ k, s.call.runners.findIdx? (· = .awaiting i) = some k ∧ s.call.runners[k]? = some (.awaiting i) := by
  have hawaited := h.sound.inFlight_perm.mem_iff.mp hi
  obtain ⟨runner, hrunner, hitem⟩ := List.mem_filterMap.mp hawaited
  have hself : runner = .awaiting i := by
    cases runner with
    | awaiting j =>
      cases hitem
      rfl
    | returned => cases hitem
  rw [hself] at hrunner
  cases hfound : s.call.runners.findIdx? (· = .awaiting i) with
  | none =>
    have hnone := List.findIdx?_eq_none_iff.mp hfound _ hrunner
    simp at hnone
  | some k =>
    obtain ⟨hk, hat, -⟩ := List.findIdx?_eq_some_iff_getElem.mp hfound
    refine ⟨k, rfl, ?_⟩
    rw [List.getElem?_eq_getElem hk, of_decide_eq_true hat]

theorem settle_filled {settled : List ℕ} (h : Filled items maxConcurrent worker settled s)
    (hi : i ∈ inFlight s.call.shared.log) :
    Filled items maxConcurrent worker (settled ++ [i]) (s.settle items worker i) := by
  obtain ⟨k, hfound, hk⟩ := h.runner hi
  have hresume : (s.call.resume items (fun _ => none) k none).shared =
      (pull items (fun _ => none) { s.call.shared with log := s.call.shared.log ++ [.finished i] }).1 := by
    rw [Call.resume, hk]
  have hpull := pull_quiet items { s.call.shared with log := s.call.shared.log ++ [.finished i] }
  have hfinished : finishedIn (s.call.resume items (fun _ => none) k none).shared.log = settled ++ [i] := by
    rw [hresume, hpull.1, finishedIn, List.filterMap_append, ← finishedIn, h.finished]
    rfl
  have hcalm : errorsIn (s.call.resume items (fun _ => none) k none).shared.log = [] := by
    rw [hresume, hpull.2, errorsIn, List.filterMap_append, ← errorsIn, h.calm]
    rfl
  have hsound : (s.call.resume items (fun _ => none) k none).Sound items _ _ := resume_sound h.sound k none
  rw [Throttled.settle, hfound]
  dsimp only
  cases houtcome : worker items[i]?.join i with
  | ok result =>
    refine ⟨hsound, hfinished, hcalm, ?_, ?_⟩
    · rw [List.filterMap_append, ← h.results, List.filterMap_cons, houtcome]
      rfl
    · rw [List.filterMap_append, ← h.errors, List.filterMap_cons, houtcome]
      exact (List.append_nil _).symm
  | error error =>
    refine ⟨hsound, hfinished, hcalm, ?_, ?_⟩
    · rw [List.filterMap_append, ← h.results, List.filterMap_cons, houtcome]
      exact (List.append_nil _).symm
    · rw [List.filterMap_append, ← h.errors, List.filterMap_cons, houtcome]
      rfl

theorem execute_call (items : List (Option T)) (maxConcurrent : ℤ) (worker : Option T → ℕ → Except ε R)
    (finishing : List ℕ) :
    (executeWithConcurrencyAndThrottling items maxConcurrent worker finishing).call =
      scheduled ε items maxConcurrent finishing := by
  induction finishing using List.reverseRecOn with
  | nil => rfl
  | append_singleton past i ih =>
    rw [executeWithConcurrencyAndThrottling, List.foldl_append, ← executeWithConcurrencyAndThrottling, scheduled,
      List.foldl_append, ← scheduled, ← ih, List.foldl_cons, List.foldl_nil, List.foldl_cons, List.foldl_nil,
      Throttled.settle]
    split
    · rename_i hfound
      rw [hfound]
      rfl
    · rename_i k hfound
      rw [hfound]
      dsimp only
      split <;> rfl

theorem Settles.filled (h : Settles ε items maxConcurrent finishing) (worker : Option T → ℕ → Except ε R) :
    Filled items maxConcurrent worker finishing
      (executeWithConcurrencyAndThrottling items maxConcurrent worker finishing) := by
  have hrunning := h.running
  clear h
  induction finishing using List.reverseRecOn with
  | nil => exact launch_filled items maxConcurrent worker
  | append_singleton past i ih =>
    rw [executeWithConcurrencyAndThrottling, List.foldl_append]
    apply settle_filled
    · apply ih
      intro past' i' later hpast
      apply hrunning past' i' (later ++ [i])
      rw [hpast, List.append_assoc, List.cons_append]
    · rw [← executeWithConcurrencyAndThrottling, execute_call]
      exact hrunning past i [] rfl

theorem Settles.started (h : Settles ε items maxConcurrent finishing) :
    finishing.Perm (startedIn (scheduled ε items maxConcurrent finishing).shared.log) := by
  have hfilled := h.filled (fun _ i => .ok i)
  have hflight := hfilled.sound.inFlight_perm
  have hperm := hfilled.sound.kept.accounts.perm
  rw [execute_call] at hflight hperm
  rw [h.all] at hflight
  rw [← hflight.nil_eq, List.append_nil, ← finishedIn_of_errors] at hperm
  · have hfinished := hfilled.finished
    rw [execute_call] at hfinished
    rwa [hfinished] at hperm
  · have hcalm := hfilled.calm
    rwa [execute_call] at hcalm

theorem Settles.outcome (h : Settles ε items maxConcurrent finishing) (worker : Option T → ℕ → Except ε R) :
    (executeWithConcurrencyAndThrottling items maxConcurrent worker finishing).outcome =
      some (executeWithConcurrencyAndThrottling items maxConcurrent worker finishing).returned := by
  have hfilled := h.filled worker
  have hflight : inFlight (executeWithConcurrencyAndThrottling items maxConcurrent worker finishing).call.shared.log = [] := by
    rw [execute_call]
    exact h.all
  have hflag : ¬ (executeWithConcurrencyAndThrottling items maxConcurrent worker finishing).call.shared.hasError = true := by
    intro hflag
    exact hfilled.sound.kept.hasError.mp hflag hfilled.calm
  rw [Throttled.outcome, hfilled.sound.outcome hflight, if_neg hflag]
  rfl

theorem toOption_of_thrown {outcome : Except ε R} (h : thrown outcome = none) :
    outcome.toOption.map Except.ok = some outcome := by
  cases outcome with
  | ok result => rfl
  | error error => cases h

/-- Where no task failed, the results stand in the order in which the tasks settled. -/
theorem Settles.results (h : Settles ε items maxConcurrent finishing) {results : List R}
    (houtcome : (executeWithConcurrencyAndThrottling items maxConcurrent worker finishing).outcome = some (.ok results)) :
    results.map Except.ok = finishing.map fun i => worker items[i]?.join i := by
  have hfilled := h.filled worker
  rw [h.outcome worker, Throttled.returned] at houtcome
  split at houtcome
  · cases houtcome
  · rename_i herrors
    cases houtcome
    rw [hfilled.errors] at herrors
    rw [hfilled.results, List.map_filterMap, ← List.filterMap_eq_map']
    apply List.filterMap_congr
    intro i hi
    exact toOption_of_thrown (List.filterMap_eq_nil_iff.mp herrors i hi)

theorem Settles.returns (h : Settles ε items maxConcurrent finishing) (val : ℕ → R) :
    (executeWithConcurrencyAndThrottling items maxConcurrent
      (fun _ i => .ok (val i) : Option T → ℕ → Except ε R) finishing).outcome = some (.ok (finishing.map val)) := by
  have hfilled := h.filled fun _ i => .ok (val i)
  have herrors := hfilled.errors
  rw [List.filterMap_eq_nil_iff.mpr] at herrors
  · rw [h.outcome, Throttled.returned, herrors, hfilled.results, ← List.filterMap_eq_map']
    rfl
  · intro i _
    rfl

theorem Settles.item (h : Settles ε items maxConcurrent finishing) (hi : i ∈ finishing) :
    ∃ item, items[i]? = some (some item) := by
  have hstarted := h.started.mem_iff.mp hi
  have hfilled := h.filled fun _ i => .ok i
  have hindices := hfilled.sound.kept.started
  rw [execute_call] at hindices
  rw [hindices] at hstarted
  obtain ⟨item, hitem⟩ := Option.isSome_iff_exists.mp (List.mem_filter.mp hstarted).2
  exact ⟨item, Option.join_eq_some_iff.mp hitem⟩

theorem Settles.range (h : Settles ε items maxConcurrent finishing) (hitems : none ∉ items) :
    finishing.Perm (List.range items.length) := by
  have hfilled := h.filled fun _ i => .ok i
  have hsound := hfilled.sound
  have hcalm := hfilled.calm
  rw [execute_call] at hsound hcalm
  apply (List.perm_ext_iff_of_nodup (h.started.nodup_iff.mpr hsound.kept.accounts.once) List.nodup_range).mpr
  intro i
  rw [List.mem_range]
  constructor
  · intro hi
    obtain ⟨item, hitem⟩ := h.item hi
    exact (List.getElem?_eq_some_iff.mp hitem).1
  · intro hi
    apply h.started.mem_iff.mpr
    have hcount : 0 < if items.length = 0 then 0 else maxRunners items.length maxConcurrent := by
      rw [if_neg (by omega)]
      exact maxRunners_pos _ _
    cases hitem : items[i] with
    | none =>
      rw [← hitem] at hitems
      exact absurd (List.getElem_mem hi) hitems
    | some item =>
      apply hsound.all_started hcount h.all hcalm
      rw [List.getElem?_eq_getElem hi, hitem]

theorem range_mapIdx (items : List (Option T)) (worker : Option T → ℕ → Except ε R) :
    (List.range items.length).map (fun i => worker items[i]?.join i) = items.mapIdx fun k item => worker item k := by
  apply List.ext_getElem
  · rw [List.length_map, List.length_range, List.length_mapIdx]
  · intro k hk hk'
    rw [List.length_mapIdx] at hk'
    rw [List.getElem_map, List.getElem_range, List.getElem_mapIdx, List.getElem?_eq_getElem hk']
    rfl

theorem Settles.keepsOrder (h : Settles ε items maxConcurrent finishing) (hitems : none ∉ items)
    (horder : finishing.Pairwise (· < ·)) : KeepsOrder items maxConcurrent worker finishing where
  order := by
    intro results houtcome
    have hrange : finishing = List.range items.length :=
      (h.range hitems).eq_of_pairwise (fun _ _ _ _ hlt hgt => absurd hgt (Nat.lt_asymm hlt)) horder List.pairwise_lt_range
    rw [h.results houtcome, ← range_mapIdx, ← hrange]
  once := by
    intro _ k hk
    rw [execute_call, ← h.started.count_eq, (h.range hitems).count_eq]
    exact List.count_eq_one_of_mem List.nodup_range (List.mem_range.mpr hk)

/-- The results of every worker are in order exactly if the tasks settle in order and each entry is an item. -/
theorem keepsOrder_iff [Nontrivial R] (h : Settles ε items maxConcurrent finishing) :
    (∀ worker : Option T → ℕ → Except ε R, KeepsOrder items maxConcurrent worker finishing) ↔
      none ∉ items ∧ finishing.Pairwise (· < ·) := by
  constructor
  · intro hkeeps
    obtain ⟨first, second, hne⟩ := exists_pair_ne R
    have hitems : none ∉ items := by
      intro hmem
      obtain ⟨k, hk, hnone⟩ := List.getElem_of_mem hmem
      have honce := (hkeeps fun _ _ => .ok first).once (fun _ _ _ => ⟨first, rfl⟩) k hk
      rw [execute_call, ← h.started.count_eq] at honce
      obtain ⟨item, hitem⟩ := h.item (List.count_pos_iff.mp (by omega : 0 < finishing.count k))
      rw [List.getElem?_eq_getElem hk, hnone] at hitem
      cases hitem
    have hlength : finishing.length = items.length := by
      rw [(h.range hitems).length_eq, List.length_range]
    have hrange : finishing = List.range items.length := by
      apply List.ext_getElem
      · rw [hlength, List.length_range]
      · intro k hk _
        have hresults := (hkeeps fun _ i => .ok (if i = k then first else second)).order _ (h.returns _)
        have hitem : k < items.length := hlength ▸ hk
        have hat := congrArg (·[k]?) hresults
        simp only [List.map_map, List.getElem?_map, List.getElem?_eq_getElem hk, List.getElem?_mapIdx,
          List.getElem?_eq_getElem hitem, Option.map_some, Function.comp_apply, if_true] at hat
        rw [List.getElem_range]
        by_contra hother
        rw [if_neg hother] at hat
        cases hat
        exact hne rfl
    rw [hrange]
    exact ⟨hitems, List.pairwise_lt_range⟩
  · intro ⟨hitems, horder⟩ worker
    exact h.keepsOrder hitems horder

end Order

namespace Sample

def files : List (Option String) := [some "a", some "b"]

theorem launched : launch files 2 (fun _ => (none : Option String)) =
    ⟨⟨2, false, none, [.started 0, .started 1]⟩, [.awaiting 0, .awaiting 1]⟩ := by
  simp [launch, maxRunners, files, Call.addRunner, pull]

theorem settles {first second : ℕ} (h : (first, second) = (0, 1) ∨ (first, second) = (1, 0)) :
    Settles String files 2 [first, second] := by
  constructor
  · intro past i later hsplit
    rcases past with _ | ⟨a, _ | ⟨b, past⟩⟩
    · cases hsplit
      rw [scheduled, List.foldl_nil, launched]
      rcases h with h | h <;> cases h <;> decide
    · cases hsplit
      rw [scheduled, launched]
      rcases h with h | h <;> cases h <;>
        simp [files, Call.resume, pull, List.findIdx?, List.findIdx?.go, inFlight, startedIn, settledIn, Event.start,
          Event.settled]
    · simp at hsplit
  · rw [scheduled, launched]
    rcases h with h | h <;> cases h <;>
      simp [files, Call.resume, pull, List.findIdx?, List.findIdx?.go, inFlight, startedIn, settledIn, Event.start,
        Event.settled]

theorem keepsOrder_inOrder : KeepsOrder files 2 (fun _ i => (.ok i : Except String ℕ)) [0, 1] :=
  (keepsOrder_iff (settles (.inl rfl))).mpr ⟨by decide, by decide⟩ _

/-- The second task settles first, and its result is returned as that of the first. -/
theorem results_swapped :
    Settles String files 2 [1, 0] ∧
      (executeWithConcurrencyAndThrottling files 2 (fun _ i => (.ok i : Except String ℕ)) [1, 0]).outcome = some (.ok [1, 0]) ∧
      ¬ ∀ worker : Option String → ℕ → Except String ℕ, KeepsOrder files 2 worker [1, 0] := by
  have hreturns := (settles (.inr rfl)).returns fun i => i
  refine ⟨settles (.inr rfl), hreturns, ?_⟩
  intro hkeeps
  have hresults := (hkeeps _).order _ hreturns
  simp [files] at hresults

end Sample

end OpenMigrate.Concurrency
