import OpenMigrate.Throttle.Limiter
import Mathlib.Algebra.Order.Archimedean.Basic
import Mathlib.Algebra.Order.BigOperators.Group.List
import Mathlib.Data.Rat.Floor
import Mathlib.Tactic.Linarith

namespace OpenMigrate.Throttle.RateLimitRetry

section Source

def RATE_LIMIT_TOTAL_BUDGET_MS : ℚ := 120000

def RATE_LIMIT_MAX_WAIT_MS : ℚ := 5000

def RATE_LIMIT_BASE_BACKOFF_MS : ℚ := 250

/-- A response, with the time and the random number that the call finds then. -/
structure Reply where
  status : ℕ
  retryAfter : Option String
  wake : Wake

def isRateLimited (status : ℕ) : Bool := status == 429 || status == 503

/-- An empty header is no header. -/
def Reply.header (response : Reply) : Option String := response.retryAfter.filter (· != "")

def backoff (attempt : ℕ) (response : Reply) : ℚ :=
  RATE_LIMIT_BASE_BACKOFF_MS * 2 ^ attempt + response.wake.random * 250

/-- How long the call waits after a refusal; none where it returns the response. -/
def waitFor (waitedMs : ℚ) (attempt : ℕ) (response : Reply) : Option ℚ :=
  let remaining := RATE_LIMIT_TOTAL_BUDGET_MS - waitedMs
  if remaining ≤ 0 then none
  else
    match response.header with
    | some header =>
      let asked := parseRetryAfterMs header response.wake
      if remaining < asked then none else some (min (min asked RATE_LIMIT_MAX_WAIT_MS) remaining)
    | none => some (min (min (backoff attempt response) RATE_LIMIT_MAX_WAIT_MS) remaining)

/-- The response of this request is returned, after these waits. -/
structure Fetched where
  attempt : ℕ
  waits : List ℚ

/-- The loop, for so many rounds at most; `waitedMs` is the sum of the waits. -/
def fetchWithRateLimitRetry (responses : ℕ → Reply) : ℕ → ℕ → List ℚ → Option Fetched
  | 0, _, _ => none
  | rounds + 1, attempt, waits =>
    if isRateLimited (responses attempt).status then
      match waitFor waits.sum attempt (responses attempt) with
      | none => some ⟨attempt, waits⟩
      | some waitMs => fetchWithRateLimitRetry responses rounds (attempt + 1) (waits ++ [waitMs])
    else some ⟨attempt, waits⟩

/-- The time that the timers take: one that is set to less than nothing takes none. -/
def slept (waits : List ℚ) : ℚ := (waits.map (max 0)).sum

end Source

section Budget

variable {responses : ℕ → Reply} {waitedMs : ℚ} {attempt k : ℕ} {response : Reply}

/-- The call returns, and what it slept stays within the budget. -/
def EndsInBudget (responses : ℕ → Reply) : Prop :=
  ∃ rounds fetched, fetchWithRateLimitRetry responses rounds 0 [] = some fetched ∧
    0 ≤ slept fetched.waits ∧ slept fetched.waits ≤ RATE_LIMIT_TOTAL_BUDGET_MS

/-- What a response asks for, or where it does not say, what the call guesses. -/
def asks (attempt : ℕ) (response : Reply) : ℚ :=
  response.header.elim (backoff attempt response) fun header => parseRetryAfterMs header response.wake

def capped (responses : ℕ → Reply) (i : ℕ) : ℚ := min (asks i (responses i)) RATE_LIMIT_MAX_WAIT_MS

/-- What the first `k` responses ask for, each up to the longest wait. -/
def asked (responses : ℕ → Reply) (k : ℕ) : ℚ := ((List.range k).map (capped responses)).sum

/-- Nothing is left of the budget, or the response asks for longer than what is left. -/
def TooLong (waitedMs : ℚ) (attempt : ℕ) (response : Reply) : Prop :=
  RATE_LIMIT_TOTAL_BUDGET_MS ≤ waitedMs ∨
    response.header.isSome = true ∧ RATE_LIMIT_TOTAL_BUDGET_MS < waitedMs + asks attempt response

/-- The asks before a response use the budget up, or the response asks for longer than they leave. -/
def Over (responses : ℕ → Reply) (k : ℕ) : Prop := TooLong (asked responses k) k (responses k)

/-- Where the asks come to an end, and those for less than nothing do not stretch the time beyond the budget. -/
def AsksEnd (responses : ℕ → Reply) : Prop :=
  ∃ k, Over responses k ∧ (∀ i < k, ¬ Over responses i) ∧
    (((List.range k).map fun i => max 0 (capped responses i)).sum ≤ RATE_LIMIT_TOTAL_BUDGET_MS ∨
      ∀ i < k, 0 ≤ asks i (responses i))

theorem maxWait_pos : 0 < RATE_LIMIT_MAX_WAIT_MS := by norm_num [RATE_LIMIT_MAX_WAIT_MS]

theorem budget_pos : 0 < RATE_LIMIT_TOTAL_BUDGET_MS := by norm_num [RATE_LIMIT_TOTAL_BUDGET_MS]

theorem asked_succ (responses : ℕ → Reply) (k : ℕ) : asked responses (k + 1) = asked responses k + capped responses k := by
  rw [asked, List.range_succ, List.map_append, List.sum_append, List.map_singleton, List.sum_singleton, ← asked]

theorem waitFor_none (h : TooLong waitedMs attempt response) : waitFor waitedMs attempt response = none := by
  rw [waitFor]
  dsimp only
  split
  · rfl
  · rename_i hleft
    obtain hspent | ⟨hnamed, hlong⟩ := h
    · linarith
    · obtain ⟨header, hheader⟩ := Option.isSome_iff_exists.mp hnamed
      rw [asks, hheader, Option.elim_some] at hlong
      rw [hheader]
      exact if_pos (by linarith)

theorem waitFor_some (h : ¬ TooLong waitedMs attempt response) : waitFor waitedMs attempt response =
    some (min (min (asks attempt response) RATE_LIMIT_MAX_WAIT_MS) (RATE_LIMIT_TOTAL_BUDGET_MS - waitedMs)) := by
  rw [TooLong, not_or] at h
  rw [waitFor, if_neg (by linarith [not_le.mp h.1])]
  cases hheader : response.header with
  | none =>
    rw [asks, hheader]
    rfl
  | some header =>
    have hshort := h.2
    rw [asks, hheader, Option.elim_some] at hshort
    rw [asks, hheader]
    apply if_neg
    intro hlong
    exact hshort ⟨rfl, by linarith⟩

/-- The wait after response `i`, where the call goes on. -/
def wait (responses : ℕ → Reply) (i : ℕ) : ℚ :=
  min (capped responses i) (RATE_LIMIT_TOTAL_BUDGET_MS - asked responses i)

def waits (responses : ℕ → Reply) (k : ℕ) : List ℚ := (List.range k).map (wait responses)

theorem waits_succ (responses : ℕ → Reply) (k : ℕ) : waits responses (k + 1) = waits responses k ++ [wait responses k] := by
  rw [waits, List.range_succ, List.map_append, ← waits]
  rfl

theorem not_over_lt (h : ¬ Over responses k) : asked responses k < RATE_LIMIT_TOTAL_BUDGET_MS := by
  by_contra hspent
  exact h (.inl (not_lt.mp hspent))

theorem waits_sum (h : ∀ i < k, ¬ Over responses i) :
    (waits responses k).sum = min (asked responses k) RATE_LIMIT_TOTAL_BUDGET_MS := by
  induction k with
  | zero => rfl
  | succ k ih =>
    have hlt := not_over_lt (h k (Nat.lt_succ_self k))
    rw [waits_succ, List.sum_append, List.sum_singleton, ih fun i hi => h i (Nat.lt_succ_of_lt hi), min_eq_left hlt.le,
      asked_succ, wait, ← min_add_add_left]
    congr 1
    linarith

theorem waitFor_waits (h : ∀ i < k, ¬ Over responses i) :
    (¬ Over responses k → waitFor (waits responses k).sum k (responses k) = some (wait responses k)) ∧
      (Over responses k → waitFor (waits responses k).sum k (responses k) = none) := by
  rw [waits_sum h]
  constructor
  · intro hgoes
    rw [min_eq_left (not_over_lt hgoes).le, waitFor_some hgoes]
    rfl
  · intro hover
    apply waitFor_none
    obtain hspent | hshort := le_or_gt RATE_LIMIT_TOTAL_BUDGET_MS (asked responses k)
    · exact .inl (le_min hspent le_rfl)
    · rw [min_eq_left hshort.le]
      exact hover

theorem fetch_rounds (hlimited : ∀ i, isRateLimited (responses i).status = true) (h : ∀ i < k, ¬ Over responses i)
    (rounds : ℕ) : fetchWithRateLimitRetry responses (k + rounds) 0 [] =
      fetchWithRateLimitRetry responses rounds k (waits responses k) := by
  induction k generalizing rounds with
  | zero => rw [Nat.zero_add]; rfl
  | succ k ih =>
    have hbefore : ∀ i < k, ¬ Over responses i := fun i hi => h i (Nat.lt_succ_of_lt hi)
    rw [Nat.add_assoc, Nat.add_comm 1, ih hbefore, fetchWithRateLimitRetry, if_pos (hlimited k),
      (waitFor_waits hbefore).1 (h k (Nat.lt_succ_self k)), waits_succ]

theorem fetch_over (hlimited : ∀ i, isRateLimited (responses i).status = true) (h : ∀ i < k, ¬ Over responses i)
    (hover : Over responses k) (rounds : ℕ) :
    fetchWithRateLimitRetry responses (k + (rounds + 1)) 0 [] = some ⟨k, waits responses k⟩ := by
  rw [fetch_rounds hlimited h, fetchWithRateLimitRetry, if_pos (hlimited k), (waitFor_waits h).2 hover]

theorem fetch_eq_some (hlimited : ∀ i, isRateLimited (responses i).status = true) {rounds : ℕ} {fetched : Fetched}
    (h : fetchWithRateLimitRetry responses rounds 0 [] = some fetched) :
    ∃ k, Over responses k ∧ (∀ i < k, ¬ Over responses i) ∧ fetched = ⟨k, waits responses k⟩ := by
  classical
  by_cases hover : ∃ k, Over responses k
  · have hfirst : ∀ i < Nat.find hover, ¬ Over responses i := fun i hi => Nat.find_min hover hi
    refine ⟨Nat.find hover, Nat.find_spec hover, hfirst, ?_⟩
    obtain hrounds | hrounds := le_or_gt rounds (Nat.find hover)
    · have hnone := fetch_rounds hlimited (fun i hi => hfirst i (lt_of_lt_of_le hi hrounds)) 0
      rw [Nat.add_zero, h] at hnone
      cases hnone
    · obtain ⟨more, rfl⟩ := Nat.exists_eq_add_of_lt hrounds
      rw [Nat.add_assoc, fetch_over hlimited hfirst (Nat.find_spec hover)] at h
      exact (Option.some.inj h).symm
  · have hnone := fetch_rounds (k := rounds) hlimited (fun i _ hi => hover ⟨i, hi⟩) 0
    rw [Nat.add_zero, h] at hnone
    cases hnone

theorem slept_nonneg (waits : List ℚ) : 0 ≤ slept waits := by
  apply List.sum_nonneg
  intro wait hwait
  obtain ⟨ms, -, rfl⟩ := List.mem_map.mp hwait
  exact le_max_left 0 ms

theorem slept_waits (responses : ℕ → Reply) (k : ℕ) :
    slept (waits responses k) = ((List.range k).map fun i => max 0 (wait responses i)).sum := by
  rw [slept, waits, List.map_map]
  rfl

theorem wait_nonneg_iff {i : ℕ} (h : ¬ Over responses i) : 0 ≤ wait responses i ↔ 0 ≤ asks i (responses i) := by
  have hlt := not_over_lt h
  rw [wait, capped, le_min_iff, le_min_iff]
  constructor
  · intro hwait
    exact hwait.1.1
  · intro hask
    exact ⟨⟨hask, maxWait_pos.le⟩, by linarith⟩

/-- Up to a response that is not beyond the budget every wait is what was asked. -/
theorem wait_eq (h : ∀ i < k, ¬ Over responses i) (hwithin : asked responses k ≤ RATE_LIMIT_TOTAL_BUDGET_MS) {i : ℕ}
    (hi : i < k) : wait responses i = capped responses i := by
  have hnext : asked responses (i + 1) ≤ RATE_LIMIT_TOTAL_BUDGET_MS := by
    obtain heq | hlt := Nat.eq_or_lt_of_le hi
    · rwa [← heq] at hwithin
    · exact (not_over_lt (h _ hlt)).le
  rw [asked_succ] at hnext
  exact min_eq_left (by linarith)

theorem slept_le_iff (h : ∀ i < k, ¬ Over responses i) : slept (waits responses k) ≤ RATE_LIMIT_TOTAL_BUDGET_MS ↔
    ((List.range k).map fun i => max 0 (capped responses i)).sum ≤ RATE_LIMIT_TOTAL_BUDGET_MS ∨
      ∀ i < k, 0 ≤ asks i (responses i) := by
  rw [slept_waits]
  constructor
  · intro hslept
    obtain hwithin | hbeyond := le_or_gt (asked responses k) RATE_LIMIT_TOTAL_BUDGET_MS
    · left
      rw [List.map_congr_left fun i hi => ?_]
      · exact hslept
      · rw [wait_eq h hwithin (List.mem_range.mp hi)]
    · right
      intro i hi
      by_contra hneg
      have hsum : (waits responses k).sum < ((List.range k).map fun i => max 0 (wait responses i)).sum := by
        apply List.sum_lt_sum
        · intro i _
          exact le_max_right 0 _
        · refine ⟨i, List.mem_range.mpr hi, lt_max_of_lt_left ?_⟩
          by_contra hwait
          exact hneg ((wait_nonneg_iff (h i hi)).mp (not_lt.mp hwait))
      rw [waits_sum h, min_eq_right hbeyond.le] at hsum
      linarith
  · rintro (hsum | hnonneg)
    · refine le_trans (List.sum_le_sum fun i _ => ?_) hsum
      exact max_le_max_left 0 (min_le_left _ _)
    · have hwaits : ((List.range k).map fun i => max 0 (wait responses i)) = waits responses k := by
        apply List.map_congr_left
        intro i hi
        have hik := List.mem_range.mp hi
        exact max_eq_right ((wait_nonneg_iff (h i hik)).mpr (hnonneg i hik))
      rw [hwaits, waits_sum h]
      exact min_le_right _ _

/-- Refused for ever, the call ends within its budget exactly if the asks do. -/
theorem endsInBudget_iff (hlimited : ∀ i, isRateLimited (responses i).status = true) :
    EndsInBudget responses ↔ AsksEnd responses := by
  constructor
  · rintro ⟨rounds, fetched, hfetch, -, hbudget⟩
    obtain ⟨k, hover, hfirst, rfl⟩ := fetch_eq_some hlimited hfetch
    exact ⟨k, hover, hfirst, (slept_le_iff hfirst).mp hbudget⟩
  · rintro ⟨k, hover, hfirst, hsum⟩
    exact ⟨k + (0 + 1), _, fetch_over hlimited hfirst hover 0, slept_nonneg _, (slept_le_iff hfirst).mpr hsum⟩

theorem not_endsInBudget_of_nothing (hlimited : ∀ i, isRateLimited (responses i).status = true)
    (hnothing : ∀ i, asks i (responses i) = 0) : ¬ EndsInBudget responses := by
  have hasked : ∀ k, asked responses k = 0 := by
    intro k
    induction k with
    | zero => rfl
    | succ k ih =>
      rw [asked_succ, ih, capped, hnothing, min_eq_left maxWait_pos.le, add_zero]
  rw [endsInBudget_iff hlimited]
  rintro ⟨k, hover, -⟩
  rw [Over, TooLong, hasked, hnothing, add_zero] at hover
  obtain hspent | ⟨-, hlong⟩ := hover
  · exact absurd budget_pos (not_lt.mpr hspent)
  · exact absurd budget_pos (not_lt.mpr hlong.le)

theorem asksEnd_of_pos {c : ℚ} (hc : 0 < c) (h : ∀ i, c ≤ asks i (responses i)) : AsksEnd responses := by
  classical
  have hstep : ∀ i, min c RATE_LIMIT_MAX_WAIT_MS ≤ capped responses i := fun i => min_le_min_right _ (h i)
  have hpos : 0 < min c RATE_LIMIT_MAX_WAIT_MS := lt_min hc maxWait_pos
  have hasked : ∀ k : ℕ, k * min c RATE_LIMIT_MAX_WAIT_MS ≤ asked responses k := by
    intro k
    induction k with
    | zero => simp [asked]
    | succ k ih =>
      have hk := hstep k
      rw [asked_succ]
      push_cast
      linarith
  have hover : ∃ k, Over responses k := by
    obtain ⟨k, hk⟩ := Archimedean.arch RATE_LIMIT_TOTAL_BUDGET_MS hpos
    refine ⟨k, .inl (le_trans ?_ (hasked k))⟩
    rwa [nsmul_eq_mul] at hk
  refine ⟨Nat.find hover, Nat.find_spec hover, fun i hi => Nat.find_min hover hi, .inr ?_⟩
  intro i _
  exact hc.le.trans (h i)

end Budget

namespace Sample

/-- A server that answers every request with 429 and this header. -/
def refusals (retryAfter : String) (_ : ℕ) : Reply := ⟨429, some retryAfter, ⟨0, 0, none, .ok (), .ok ⟨429, [], ""⟩⟩⟩

theorem endsInBudget_five : EndsInBudget (refusals "5") := by
  have hfive : ∀ i, asks i (refusals "5" i) = 5000 := by
    intro i
    change asks 0 (refusals "5" 0) = 5000
    decide +kernel
  exact (endsInBudget_iff fun _ => rfl).mpr (asksEnd_of_pos (by norm_num : (0 : ℚ) < 5000) fun i => (hfive i).ge)

/-- Refused with `Retry-After: 0`, the call asks again for ever. -/
theorem zero_never_ends : (∀ i, isRateLimited (refusals "0" i).status = true) ∧ ¬ EndsInBudget (refusals "0") := by
  refine ⟨fun _ => rfl, not_endsInBudget_of_nothing (fun _ => rfl) ?_⟩
  intro i
  change asks 0 (refusals "0" 0) = 0
  decide +kernel

end Sample

end OpenMigrate.Throttle.RateLimitRetry
