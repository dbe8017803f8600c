import OpenMigrate.Throttle.RateBudget

namespace OpenMigrate.Throttle

open Rate

structure BudgetRow where
  tokens : ℚ
  refilledAt : ℚ

/-- The rows of `rate_budget`: one for each tenant and provider. -/
structure PgRateBudget where
  rate : ℚ
  burst : ℚ
  rows : AList (fun _ : String × String => BudgetRow)

namespace PgRateBudget

def fallbackWaitMs : ℤ := 50

def create (requestsPerSecond : ℚ) (burst : Option ℚ) : Except String PgRateBudget :=
  if 0 < requestsPerSecond then .ok ⟨requestsPerSecond, burst.getD requestsPerSecond, ∅⟩
  else .error s!"requestsPerSecond must be positive, got {requestsPerSecond}"

variable (l : PgRateBudget) (tenantId provider : String)

def least (row : BudgetRow) (now : ℚ) : ℚ := min l.burst (row.tokens + (now - row.refilledAt) / 1000 * l.rate)

/-- The one statement of `take`, and whether a row came back: it inserts, or updates where its WHERE holds. -/
def upsert (now : ℚ) : Bool × PgRateBudget :=
  match l.rows.lookup (tenantId, provider) with
  | none => (true, { l with rows := l.rows.insert (tenantId, provider) ⟨l.burst - 1, now⟩ })
  | some row =>
    if 1 ≤ l.least row now then
      (true, { l with rows := l.rows.insert (tenantId, provider) ⟨l.least row now - 1, now⟩ })
    else (false, l)

def deficit (now : ℚ) : Option ℤ :=
  (l.rows.lookup (tenantId, provider)).map fun row => max 1 ⌈max 0 ((1 - l.least row now) / l.rate) * 1000⌉

/-- Both statements read the clock at one time here. -/
def take (now : ℚ) : ℤ × PgRateBudget :=
  let r := l.upsert tenantId provider now
  if r.1 then (0, r.2) else ((r.2.deficit tenantId provider now).getD fallbackWaitMs, r.2)

end PgRateBudget

/-- What `take` tells a caller: whether to go on, and how long to wait. -/
def answer (wait : ℤ) : Bool × ℤ := (decide (wait ≤ 0), wait)

def PgRateBudget.answers (tenantId provider : String) : PgRateBudget → List ℚ → List (Bool × ℤ)
  | _, [] => []
  | l, now :: times =>
    let r := l.take tenantId provider now
    answer r.1 :: answers tenantId provider r.2 times

def InProcessRateBudget.answers (tenantId provider : String) : InProcessRateBudget → List ℚ → List (Bool × ℤ)
  | _, [] => []
  | l, now :: times =>
    let r := l.take (bucketKey tenantId provider) now
    answer r.1 :: answers tenantId provider r.2 times

/-- What the two answer to the same requests, from an empty store. -/
def BudgetsAgree (rate : ℚ) (burst : Option ℚ) (tenantId provider : String) (times : List ℚ) : Prop :=
  (PgRateBudget.create rate burst).map (fun l => l.answers tenantId provider times) =
    .ok ((InProcessRateBudget.create rate burst).answers tenantId provider times)

section Answers

/-- What a caller is told of an attempt. -/
def told (rate : ℚ) (a : Attempt ℚ) : Bool × ℤ :=
  (a.granted, if a.granted then 0 else ⌈(1 - a.tokens) / rate * 1000⌉)

variable {tenantId provider : String}

theorem InProcessRateBudget.answers_told {l : InProcessRateBudget} (hrate : 0 < l.rate) {start : ℚ} {times : List ℚ}
    (hstart : ∀ t ∈ times, start ≤ t) :
    l.answers tenantId provider times =
      (attempts (perMs l.rate l.burst) (l.level (bucketKey tenantId provider) start) times).map (told l.rate) := by
  induction times generalizing l with
  | nil => rfl
  | cons t times ih =>
    have ht := hstart t List.mem_cons_self
    have hnext := ih (l := (l.take (bucketKey tenantId provider) t).2) (by rwa [take_rate]) fun t' ht' =>
      hstart t' (List.mem_cons_of_mem t ht')
    rw [take_rate, take_burst, level_take hrate.le ht] at hnext
    have hgranted : (l.take (bucketKey tenantId provider) t).1 ≤ 0 ↔ _ := take_granted hrate ht
    rw [answers, hnext, attempts, List.map_cons]
    apply congrArg (· :: _)
    rw [answer, told, Bool.eq_iff_iff.mpr (decide_eq_true_iff.trans hgranted), take_wait hrate.le ht]

theorem told_denied {rate : ℚ} (hrate : 0 < rate) {tokens : ℚ} (hshort : tokens < 1) :
    max 1 ⌈max 0 ((1 - tokens) / rate) * 1000⌉ = ⌈(1 - tokens) / rate * 1000⌉ := by
  have hpos : 0 < (1 - tokens) / rate := div_pos (sub_pos.mpr hshort) hrate
  have hceil : 0 < ⌈(1 - tokens) / rate * 1000⌉ := Int.ceil_pos.mpr (mul_pos hpos (by norm_num))
  rw [max_eq_right hpos.le, max_eq_right hceil]

namespace PgRateBudget

variable {l : PgRateBudget} {row : BudgetRow} {t : ℚ}

def rowLevel (row : BudgetRow) : Level ℚ := ⟨row.tokens, row.refilledAt⟩

theorem least_eq : l.least row t = refilled (perMs l.rate l.burst) (rowLevel row) t := by
  simp only [least, refilled, perMs, rowLevel]
  ring_nf

@[simp] theorem take_rate : (l.take tenantId provider t).2.rate = l.rate := by
  unfold take upsert
  split <;> simp only [if_true]
  split <;> simp

@[simp] theorem take_burst : (l.take tenantId provider t).2.burst = l.burst := by
  unfold take upsert
  split <;> simp only [if_true]
  split <;> simp

theorem take_granted (hrow : l.rows.lookup (tenantId, provider) = some row)
    (hg : (taken (perMs l.rate l.burst) (rowLevel row) t).granted = true) :
    l.take tenantId provider t = (0, { l with
      rows := l.rows.insert (tenantId, provider)
        ⟨(taken (perMs l.rate l.burst) (rowLevel row) t).tokens, t⟩ }) := by
  have hone : 1 ≤ l.least row t := by
    rw [least_eq]
    exact taken_granted.mp hg
  rw [taken_of_granted hg, ← least_eq]
  simp only [take, upsert, hrow, if_pos hone, if_true]

theorem take_denied (hrate : 0 < l.rate) (hrow : l.rows.lookup (tenantId, provider) = some row)
    (hno : (taken (perMs l.rate l.burst) (rowLevel row) t).granted = false) :
    l.take tenantId provider t =
      (⌈(1 - (taken (perMs l.rate l.burst) (rowLevel row) t).tokens) / l.rate * 1000⌉, l) := by
  have hshort : ¬ 1 ≤ l.least row t := by
    rw [least_eq, ← taken_granted, hno]
    exact Bool.false_ne_true
  have hwait := told_denied hrate (not_le.mp hshort)
  rw [taken_of_denied hno, ← least_eq, ← hwait]
  simp only [take, upsert, hrow, if_neg hshort, Bool.false_eq_true, if_false, deficit, Option.map_some,
    Option.getD_some]

theorem answers_told (hrate : 0 < l.rate) (hrow : l.rows.lookup (tenantId, provider) = some row) (times : List ℚ) :
    l.answers tenantId provider times =
      (lazyAttempts (perMs l.rate l.burst) (rowLevel row) times).map (told l.rate) := by
  induction times generalizing l row with
  | nil => rfl
  | cons t times ih =>
    rw [answers, lazyAttempts, List.map_cons]
    cases hg : (taken (perMs l.rate l.burst) (rowLevel row) t).granted with
    | true =>
      rw [take_granted hrow hg, if_pos rfl]
      have hnext := ih (l := { l with
        rows := l.rows.insert (tenantId, provider) ⟨(taken (perMs l.rate l.burst) (rowLevel row) t).tokens, t⟩ })
        hrate (AList.lookup_insert _)
      have hlevel : rowLevel ⟨(taken (perMs l.rate l.burst) (rowLevel row) t).tokens, t⟩ =
          (taken (perMs l.rate l.burst) (rowLevel row) t).level := by
        rw [Attempt.level, taken_time, rowLevel]
      rw [hlevel] at hnext
      rw [hnext, told, hg]
      rfl
    | false =>
      have hshort : (taken (perMs l.rate l.burst) (rowLevel row) t).tokens < 1 := by
        rw [taken_of_denied hg, ← not_le, ← taken_granted, hg]
        exact Bool.false_ne_true
      have hpos : 0 < ⌈(1 - (taken (perMs l.rate l.burst) (rowLevel row) t).tokens) / l.rate * 1000⌉ :=
        Int.ceil_pos.mpr (mul_pos (div_pos (sub_pos.mpr hshort) hrate) (by norm_num))
      rw [take_denied hrate hrow hg, if_neg Bool.false_ne_true, ih hrate hrow]
      apply congrArg (· :: _)
      simp only [answer, told, hg, Bool.false_eq_true, if_false, decide_eq_false (not_le.mpr hpos)]

end PgRateBudget

end Answers

section Agree

variable {rate : ℚ} {burst : Option ℚ} {tenantId provider : String}

theorem taken_full (capacity t : ℚ) (hone : 1 ≤ capacity) :
    taken (perMs rate capacity) ⟨capacity, t⟩ t = ⟨t, true, capacity - 1⟩ := by
  have hfull : refilled (perMs rate capacity) ⟨capacity, t⟩ t = capacity := by simp [refilled, perMs]
  rw [taken, hfull, if_pos hone]

theorem PgRateBudget.answers_first (t : ℚ) (times : List ℚ) (hrate : 0 < rate) (capacity : ℚ) :
    answers tenantId provider ⟨rate, capacity, ∅⟩ (t :: times) =
      (true, 0) :: (lazyAttempts (perMs rate capacity) ⟨capacity - 1, t⟩ times).map (told rate) := by
  have hrest := answers_told (l := ⟨rate, capacity, AList.insert (tenantId, provider) ⟨capacity - 1, t⟩ ∅⟩) hrate
    (AList.lookup_insert _) times
  rw [answers]
  simp only [take, upsert, AList.lookup_empty, if_true]
  rw [hrest]
  rfl

theorem InProcessRateBudget.answers_first {t : ℚ} {times : List ℚ} (htimes : (t :: times).Pairwise (· ≤ ·))
    (hrate : 0 < rate) :
    (create rate burst).answers tenantId provider (t :: times) =
      (attempts (perMs rate (burst.getD rate)) ⟨burst.getD rate, t⟩ (t :: times)).map (told rate) := by
  have hstart : ∀ t' ∈ t :: times, t ≤ t' := by
    intro t' ht'
    obtain rfl | ht' := List.mem_cons.mp ht'
    · exact le_rfl
    · exact (List.pairwise_cons.mp htimes).1 t' ht'
  exact answers_told (l := create rate burst) hrate hstart

theorem agree_of_burst (hrate : 0 < rate) (hburst : 1 ≤ burst.getD rate) {times : List ℚ}
    (htimes : times.Pairwise (· ≤ ·)) : BudgetsAgree rate burst tenantId provider times := by
  rw [BudgetsAgree, PgRateBudget.create, if_pos hrate]
  apply congrArg Except.ok
  cases times with
  | nil => rfl
  | cons t times =>
    have hpos : 0 ≤ (perMs rate (burst.getD rate)).rate := div_nonneg hrate.le (by norm_num)
    have hlazy : lazyAttempts (perMs rate (burst.getD rate)) ⟨burst.getD rate - 1, t⟩ times =
        attempts (perMs rate (burst.getD rate)) ⟨burst.getD rate - 1, t⟩ times :=
      lazyAttempts_eq hpos htimes fun _ _ => rfl
    rw [InProcessRateBudget.answers_first htimes hrate, attempts, taken_full _ _ hburst, List.map_cons]
    exact (PgRateBudget.answers_first t times hrate _).trans (hlazy ▸ rfl)

/-- A budget that cannot hold a token refuses the first request, which the row's insert grants. -/
theorem burst_of_agree (hrate : 0 < rate) {t : ℚ} {times : List ℚ} (htimes : (t :: times).Pairwise (· ≤ ·))
    (h : BudgetsAgree rate burst tenantId provider (t :: times)) : 1 ≤ burst.getD rate := by
  by_contra hsmall
  rw [BudgetsAgree, PgRateBudget.create, if_pos hrate] at h
  have hsame := (PgRateBudget.answers_first t times hrate _).symm.trans
    ((Except.ok.inj h).trans (InProcessRateBudget.answers_first htimes hrate))
  have hhead := congrArg Prod.fst (List.cons.inj hsame).1
  have hmem : taken (perMs rate (burst.getD rate)) ⟨burst.getD rate, t⟩ t ∈
      attempts (perMs rate (burst.getD rate)) ⟨burst.getD rate, t⟩ (t :: times) := List.mem_cons_self
  have hdenied := denied_of_small (b := perMs rate (burst.getD rate)) (not_le.mp hsmall) _ hmem
  exact Bool.false_ne_true (hdenied.symm.trans hhead.symm)

end Agree

/-- The two budgets tell a caller the same exactly when the rate is positive and the burst holds a token, or nobody
asks. -/
theorem budgets_agree_iff (rate : ℚ) (burst : Option ℚ) (tenantId provider : String) (times : List ℚ)
    (htimes : times.Pairwise (· ≤ ·)) :
    BudgetsAgree rate burst tenantId provider times ↔ 0 < rate ∧ (times = [] ∨ 1 ≤ burst.getD rate) := by
  constructor
  · intro h
    by_cases hrate : 0 < rate
    · cases times with
      | nil => exact ⟨hrate, .inl rfl⟩
      | cons t times => exact ⟨hrate, .inr (burst_of_agree hrate htimes h)⟩
    · rw [BudgetsAgree, PgRateBudget.create, if_neg hrate] at h
      cases h
  · rintro ⟨hrate, rfl | hburst⟩
    · rw [BudgetsAgree, PgRateBudget.create, if_pos hrate]
      rfl
    · exact agree_of_burst hrate hburst htimes

theorem budgets_agree_three : BudgetsAgree 2 (some 1) "t" "jmap" [0, 100, 600] := by
  rw [budgets_agree_iff 2 (some 1) "t" "jmap" [0, 100, 600] (by decide +kernel)]
  exact ⟨by norm_num, .inr (by norm_num)⟩

/-- Half a token of burst: the row's insert grants what the other budget refuses. -/
theorem half_burst_differs : ¬ BudgetsAgree (1 / 2) none "t" "jmap" [0] := by
  intro h
  have hpg : (PgRateBudget.create (1 / 2) none).map (fun l => l.answers "t" "jmap" [0]) = .ok [(true, 0)] := by
    rw [PgRateBudget.create, if_pos (by norm_num)]
    apply congrArg Except.ok
    decide +kernel
  have hours : (InProcessRateBudget.create (1 / 2) none).answers "t" "jmap" [0] = [(false, 1000)] := by
    decide +kernel
  rw [BudgetsAgree, hpg, hours] at h
  cases h

end OpenMigrate.Throttle
