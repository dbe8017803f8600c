import OpenMigrate.Async.Turns
import OpenMigrate.Throttle.Limiter

namespace OpenMigrate.Throttle

open Async

abbrev Throttled := List ThrottledCall × ThrottleLimiter

def beginning (config : ThrottleConfig) (shared : Bool) (calls : List (String × String)) : Throttled :=
  (calls.map fun call => { tenantId := call.1, provider := call.2 }, .create config shared)

def ThrottledCall.Settled (c : ThrottledCall) : Prop := ∃ r, c.state = .settled r

/-- `activeRequests` counts the calls that hold a slot, and is back where it began once all are settled. -/
def Conserved (x : Throttled) : Prop :=
  x.2.activeRequests = x.1.countP (fun c => 0 < c.held) ∧ 0 ≤ x.2.activeRequests ∧
    ((∀ c ∈ x.1, c.Settled) → x.2.activeRequests = 0)

/-- What the books need of a turn: no retry of an attempt that keeps its slot, no final failure of an attempt that
never got one, and a limiter that allows an attempt at all. -/
def keepsBooks (l : ThrottleLimiter) (c : ThrottledCall) (i : Wake) : Bool :=
  match c.state with
  | .head => decide (0 ≤ l.config.maxRetries)
  | .sharing =>
    match l.shared, i.budget with
    | true, .error e => !givesUp l.config c.attempt e
    | _, _ => true
  | .requesting =>
    match i.response with
    | .ok r => !isRateLimited r || decide (l.config.maxRetries < (c.attempt + 1 : ℕ))
    | .error e => givesUp l.config c.attempt e
  | _ => true

def KeepsBooks (l : ThrottleLimiter) (c : ThrottledCall) (i : Wake) : Prop := keepsBooks l c i = true

instance (l : ThrottleLimiter) (c : ThrottledCall) (i : Wake) : Decidable (KeepsBooks l c i) :=
  inferInstanceAs (Decidable (keepsBooks l c i = true))

section Step

/-- The ways a call goes on, by its state and its attempts, each with the slots it takes. -/
inductive Moves (l : ThrottleLimiter) (i : Wake) : CallState → ℕ → CallState → ℕ → ℤ → Prop
  | poll {a : ℕ} (h : (a : ℚ) ≤ l.config.maxRetries) : Moves l i .head a .polling a 0
  | leave {a : ℕ} {r : Except Thrown Response} (h : l.config.maxRetries < a) : Moves l i .head a (.settled r) a (-1)
  | wait {a : ℕ} : Moves l i .polling a .polling a 0
  | take {a : ℕ} : Moves l i .polling a .refilling a 1
  | refill {a : ℕ} : Moves l i .refilling a .refilling a 0
  | share {a : ℕ} : Moves l i .refilling a .sharing a 0
  | refuse {a : ℕ} {e : Thrown} (h : l.shared = true) (he : i.budget = .error e) :
    Moves l i .sharing a (.caught e) a (-1)
  | send {a : ℕ} (h : ∀ e, l.shared = true → i.budget ≠ .error e) : Moves l i .sharing a .requesting a 0
  | retry {a : ℕ} {r : Response} (hr : i.response = .ok r) (hl : isRateLimited r = true)
    (h : (a : ℚ) < l.config.maxRetries) : Moves l i .requesting a .head (a + 1) 0
  | limited {a : ℕ} {r : Response} {e : Thrown} (hr : i.response = .ok r) (hl : isRateLimited r = true)
    (h : l.config.maxRetries ≤ a) : Moves l i .requesting a (.caught e) a 0
  | done {a : ℕ} {r : Response} (hr : i.response = .ok r) (hl : isRateLimited r = false) :
    Moves l i .requesting a (.settled (.ok r)) a (-1)
  | raise {a : ℕ} {e : Thrown} (hr : i.response = .error e) : Moves l i .requesting a (.caught e) a 0
  | giveUp {a a' : ℕ} {e : Thrown} {r : Except Thrown Response} (h : givesUp l.config a e = true) :
    Moves l i (.caught e) a (.settled r) a' (-1)
  | again {a : ℕ} {e : Thrown} (h : givesUp l.config a e = false) : Moves l i (.caught e) a .head (a + 1) 0
  | rest {a : ℕ} {r : Except Thrown Response} : Moves l i (.settled r) a (.settled r) a 0

structure Moved (l : ThrottleLimiter) (c : ThrottledCall) (i : Wake) (l' : ThrottleLimiter) (c' : ThrottledCall)
    (n : ℤ) : Prop where
  moves : Moves l i c.state c.attempt c'.state c'.attempt n
  held : c'.held = c.held + n
  active : l'.activeRequests = l.activeRequests + n
  config : l'.config = l.config

theorem Moved.still {l l' : ThrottleLimiter} {c c' : ThrottledCall} {i : Wake}
    (h : Moves l i c.state c.attempt c'.state c'.attempt 0) (hheld : c'.held = c.held)
    (hactive : l'.activeRequests = l.activeRequests) (hconfig : l'.config = l.config) : ∃ n, Moved l c i l' c' n :=
  ⟨0, h, by rw [hheld, add_zero], by rw [hactive, add_zero], hconfig⟩

variable (l : ThrottleLimiter) (c : ThrottledCall) (i : Wake)

theorem onResponse_moved {r : Response} (hs : c.state = .requesting) (hr : i.response = .ok r) :
    ∃ n, Moved l c i (onResponse l c i r).1 (onResponse l c i r).2 n := by
  unfold onResponse
  cases hl : isRateLimited r with
  | false =>
    refine ⟨-1, ?_, rfl, rfl, rfl⟩
    rw [hs]
    exact .done hr hl
  | true =>
    have hkeeps : ∀ header, (l.handleRateLimited header i).2.config = l.config ∧
        (l.handleRateLimited header i).2.activeRequests = l.activeRequests := by
      intro header
      unfold ThrottleLimiter.handleRateLimited
      dsimp only
      split <;> exact ⟨rfl, rfl⟩
    obtain ⟨hconfig, hactive⟩ := hkeeps (r.headers.lookup "retry-after")
    rw [if_pos rfl]
    by_cases h : (c.attempt : ℚ) < l.config.maxRetries
    · simp only [if_pos h]
      refine Moved.still ?_ rfl hactive hconfig
      rw [hs]
      exact .retry hr hl h
    · simp only [if_neg h]
      refine Moved.still ?_ rfl hactive hconfig
      rw [hs]
      exact .limited hr hl (not_lt.mp h)

theorem onCaught_moved {e : Thrown} (hs : c.state = .caught e) :
    ∃ n, Moved l c i (onCaught l c i e).1 (onCaught l c i e).2 n := by
  unfold onCaught
  dsimp only
  split
  · rename_i h
    refine ⟨-1, ?_, rfl, rfl, rfl⟩
    rw [hs]
    exact .giveUp (by simp [givesUp, h])
  split
  · rename_i h
    refine ⟨-1, ?_, rfl, rfl, rfl⟩
    rw [hs]
    exact .giveUp (by rw [givesUp, decide_eq_true h, Bool.or_true])
  · rename_i hp h
    refine Moved.still ?_ rfl rfl rfl
    rw [hs]
    exact .again (by rw [givesUp, decide_eq_false h, Bool.or_false]; simpa using hp)

theorem step_moved :
    ∃ n, Moved l c i (executeWithThrottling l c i).1 (executeWithThrottling l c i).2 n := by
  unfold executeWithThrottling
  split <;> rename_i hs
  · split
    · rename_i h
      refine Moved.still ?_ rfl rfl rfl
      rw [hs]
      exact .poll h
    · rename_i h
      refine ⟨-1, ?_, rfl, rfl, rfl⟩
      rw [hs]
      exact .leave (not_le.mp h)
  · split
    · refine Moved.still ?_ rfl rfl rfl
      rw [hs]
      exact .wait
    · refine ⟨1, ?_, rfl, rfl, rfl⟩
      rw [hs]
      exact .take
  · dsimp only
    split
    · refine Moved.still ?_ rfl rfl rfl
      rw [hs]
      exact .share
    · refine Moved.still ?_ rfl rfl rfl
      rw [hs]
      exact .refill
  · split
    · rename_i e hshared hbudget
      refine ⟨-1, ?_, rfl, rfl, rfl⟩
      rw [hs]
      exact .refuse hshared hbudget
    · rename_i h
      refine Moved.still ?_ rfl rfl rfl
      rw [hs]
      exact .send fun e hshared hbudget => h e hshared hbudget
  · split
    · rename_i r hr
      exact onResponse_moved l c i hs hr
    · rename_i e hr
      refine Moved.still ?_ rfl rfl rfl
      rw [hs]
      exact .raise hr
  · exact onCaught_moved l c i hs
  · refine Moved.still ?_ rfl rfl rfl
    rw [hs]
    exact .rest

end Step

section Books

variable {config : ThrottleConfig} {x : Throttled} {l : ThrottleLimiter} {c : ThrottledCall} {i : Wake}

structure Balanced (config : ThrottleConfig) (x : Throttled) : Prop where
  config : x.2.config = config
  active : x.2.activeRequests = (x.1.map ThrottledCall.held).sum

theorem Balanced.turn (h : Balanced config x) (ch : ℕ × Wake) :
    Balanced config (turn executeWithThrottling x ch) := by
  obtain ⟨-, hsame⟩ | ⟨c, hc, hturn⟩ := turn_cases executeWithThrottling x ch
  · rwa [hsame]
  · obtain ⟨n, hmoved⟩ := step_moved x.2 c ch.2
    rw [hturn]
    refine ⟨hmoved.config.trans h.config, ?_⟩
    have hsum := sum_set ThrottledCall.held x.1 ch.1 (executeWithThrottling x.2 c ch.2).2 hc
    have hheld := hmoved.held
    have hactive := hmoved.active
    have hbefore := h.active
    dsimp only
    omega

theorem beginning_balanced (config : ThrottleConfig) (shared : Bool) (calls : List (String × String)) :
    Balanced config (beginning config shared calls) := by
  refine ⟨rfl, ?_⟩
  have hzero : ((beginning config shared calls).1.map ThrottledCall.held) = calls.map fun _ => 0 := by
    rw [beginning, List.map_map]
    rfl
  rw [hzero]
  simp [beginning, ThrottleLimiter.create]

/-- A call whose account is what its place in the loop calls for. -/
def Tidy (config : ThrottleConfig) (c : ThrottledCall) : Prop :=
  match c.state with
  | .head =>
    c.held = 0 ∧ ((c.attempt : ℚ) ≤ config.maxRetries ∨ config.maxRetries < 0) ∨
      c.held = 1 ∧ config.maxRetries < c.attempt
  | .polling | .settled _ => c.held = 0
  | .refilling | .sharing | .requesting => c.held = 1
  | .caught e => c.held = if givesUp config c.attempt e then 1 else 0

theorem Tidy.unit (h : Tidy config c) : c.held = 0 ∨ c.held = 1 := by
  unfold Tidy at h
  split at h
  case h_1 => exact h.imp And.left And.left
  case h_7 =>
    split at h
    · exact .inr h
    · exact .inl h
  all_goals first | exact .inl h | exact .inr h

theorem lt_next {q : ℚ} {a : ℕ} (h : q ≤ a) : q < (a + 1 : ℕ) :=
  lt_of_le_of_lt h (by exact_mod_cast Nat.lt_succ_self a)

theorem Tidy.step (hl : l.config = config) (h : Tidy config c) (hk : KeepsBooks l c i) :
    Tidy config (executeWithThrottling l c i).2 := by
  obtain ⟨n, hmoves, hheld, -, -⟩ := step_moved l c i
  subst hl
  generalize executeWithThrottling l c i = r at hmoves hheld
  obtain ⟨l', c'⟩ := r
  obtain ⟨tenantId, provider, attempt, lastError, state, held⟩ := c
  obtain ⟨tenantId', provider', attempt', lastError', state', held'⟩ := c'
  simp only [Tidy, KeepsBooks, keepsBooks] at *
  cases hmoves with
  | poll hle =>
    obtain ⟨h, -⟩ | ⟨-, hlt⟩ := h
    · simp only
      omega
    · exact absurd hle (not_le.mpr hlt)
  | leave hlt =>
    obtain ⟨-, hle | hneg⟩ | ⟨h, -⟩ := h
    · exact absurd hle (not_le.mpr hlt)
    · exact absurd (of_decide_eq_true hk) (not_le.mpr hneg)
    · simp only
      omega
  | wait | take | refill | share | send | rest =>
    simp only at h ⊢
    omega
  | refuse hshared he =>
    simp only [hshared, he, Bool.not_eq_true'] at hk
    simp only [hk, Bool.false_eq_true, if_false] at h ⊢
    omega
  | retry hr hlim hlt =>
    simp only [hr, hlim, Bool.not_true, Bool.false_or, decide_eq_true_eq] at hk
    exact .inr ⟨by omega, hk⟩
  | limited hr hlim hle =>
    have hgive : ∀ e, givesUp l.config attempt e = true := by
      intro e
      rw [givesUp, decide_eq_true (lt_next hle), Bool.or_true]
    simp only [hgive, if_true]
    omega
  | done hr hlim =>
    simp only
    omega
  | raise hr =>
    simp only [hr] at hk
    simp only [hk, if_true]
    omega
  | giveUp hg =>
    simp only [hg, if_true] at h
    omega
  | again hg =>
    simp only [hg, Bool.false_eq_true, if_false] at h
    rw [givesUp, Bool.or_eq_false_iff, decide_eq_false_iff_not] at hg
    exact .inl ⟨by omega, .inl (not_lt.mp hg.2)⟩

theorem Tidy.all_turn {ch : ℕ × Wake} (hx : Balanced config x ∧ ∀ c ∈ x.1, Tidy config c) (hc : x.1[ch.1]? = some c)
    (hk : KeepsBooks x.2 c ch.2) : Balanced config (turn executeWithThrottling x ch) ∧
      ∀ c ∈ (turn executeWithThrottling x ch).1, Tidy config c := by
  refine ⟨hx.1.turn ch, ?_⟩
  obtain ⟨hnone, -⟩ | ⟨c', hc', hturn⟩ := turn_cases executeWithThrottling x ch
  · rw [hc] at hnone
    cases hnone
  · rw [hc] at hc'
    cases hc'
    rw [hturn]
    intro m hm
    obtain hm | rfl := List.mem_or_eq_of_mem_set hm
    · exact hx.2 m hm
    · exact (hx.2 c (List.mem_of_getElem? hc)).step hx.1.config hk

theorem Balanced.conserved (h : Balanced config x) (htidy : ∀ c ∈ x.1, Tidy config c) : Conserved x := by
  have hcount := sum_eq_count ThrottledCall.held fun c hc => (htidy c hc).unit
  refine ⟨h.active.trans hcount, ?_, fun hsettled => ?_⟩
  · rw [h.active, hcount]
    exact Int.natCast_nonneg _
  · have hnone : x.1.countP (fun c => 0 < c.held) = 0 := by
      rw [List.countP_eq_zero]
      intro c hc hpos
      obtain ⟨r, hr⟩ := hsettled c hc
      have hzero : c.held = 0 := by
        have := htidy c hc
        rwa [Tidy, hr] at this
      simp [hzero] at hpos
    rw [h.active, hcount, hnone, Nat.cast_zero]

theorem beginning_tidy {shared : Bool} {calls : List (String × String)} :
    ∀ c ∈ (beginning config shared calls).1, Tidy config c := by
  intro c hc
  obtain ⟨call, -, rfl⟩ := List.mem_map.mp hc
  refine .inl ⟨rfl, ?_⟩
  rw [Nat.cast_zero]
  exact le_or_gt 0 config.maxRetries

end Books

section Leak

variable {config : ThrottleConfig} {x : Throttled} {l : ThrottleLimiter} {c : ThrottledCall} {i : Wake}

structure Sane (config : ThrottleConfig) (c : ThrottledCall) : Prop where
  unit : c.held = 0 ∨ c.held = 1
  idle : config.maxRetries < 0 → c.state = .head ∧ c.held = 0
  working : c.state = .refilling ∨ c.state = .sharing ∨ c.state = .requesting → c.held = 1

/-- A call that cannot settle without putting the books wrong. -/
def Stuck (config : ThrottleConfig) (c : ThrottledCall) : Prop :=
  match c.state with
  | .head => c.held = 1 ∧ (c.attempt : ℚ) ≤ config.maxRetries
  | .polling => c.held = 1
  | .caught e => c.held = if givesUp config c.attempt e then 0 else 1
  | _ => False

theorem Stuck.step (hl : l.config = config) (h : Stuck config c)
    (hunit : (executeWithThrottling l c i).2.held = 0 ∨ (executeWithThrottling l c i).2.held = 1) :
    Stuck config (executeWithThrottling l c i).2 := by
  obtain ⟨n, hmoves, hheld, -, -⟩ := step_moved l c i
  subst hl
  generalize executeWithThrottling l c i = r at hmoves hheld hunit
  obtain ⟨l', c'⟩ := r
  obtain ⟨tenantId, provider, attempt, lastError, state, held⟩ := c
  obtain ⟨tenantId', provider', attempt', lastError', state', held'⟩ := c'
  simp only [Stuck] at *
  cases hmoves with
  | poll hle =>
    simp only
    omega
  | leave hlt => exact absurd h.2 (not_le.mpr hlt)
  | wait | take => simp only at h ⊢; omega
  | refill | share | refuse | send | retry | limited | done | raise | rest => exact h.elim
  | giveUp hg =>
    simp only [hg, if_true] at h
    omega
  | again hg =>
    simp only [hg, Bool.false_eq_true, if_false] at h
    rw [givesUp, Bool.or_eq_false_iff, decide_eq_false_iff_not] at hg
    exact ⟨by omega, not_lt.mp hg.2⟩

theorem Sane.allowed (hl : l.config = config) (h : Sane config c)
    (hunit : (executeWithThrottling l c i).2.held = 0 ∨ (executeWithThrottling l c i).2.held = 1) :
    0 ≤ config.maxRetries := by
  by_contra hneg
  obtain ⟨hstate, hzero⟩ := h.idle (not_le.mp hneg)
  obtain ⟨n, hmoves, hheld, -, -⟩ := step_moved l c i
  rw [hstate] at hmoves
  generalize (executeWithThrottling l c i).2.state = state' at hmoves
  generalize (executeWithThrottling l c i).2.attempt = attempt' at hmoves
  cases hmoves with
  | poll hle =>
    rw [hl] at hle
    exact hneg (le_trans (Nat.cast_nonneg _) hle)
  | leave hlt => omega

theorem Sane.step (hl : l.config = config) (h : Sane config c)
    (hunit : (executeWithThrottling l c i).2.held = 0 ∨ (executeWithThrottling l c i).2.held = 1) :
    Sane config (executeWithThrottling l c i).2 := by
  have hallowed := h.allowed hl hunit
  refine ⟨hunit, fun hneg => absurd hallowed (not_le.mpr hneg), ?_⟩
  obtain ⟨n, hmoves, hheld, -, -⟩ := step_moved l c i
  have hunit' := h.unit
  have hworking := h.working
  generalize (executeWithThrottling l c i).2.state = state' at hmoves
  generalize (executeWithThrottling l c i).2.attempt = attempt' at hmoves
  generalize c.state = state at hmoves hworking
  cases hmoves with
  | take =>
    intro _
    omega
  | refill | share | send =>
    intro _
    have hone := hworking (by simp)
    omega
  | _ => simp

theorem Sane.stuck (hl : l.config = config) (h : Sane config c)
    (hunit : (executeWithThrottling l c i).2.held = 0 ∨ (executeWithThrottling l c i).2.held = 1)
    (hk : ¬ KeepsBooks l c i) : Stuck config (executeWithThrottling l c i).2 := by
  have hallowed := h.allowed hl hunit
  obtain ⟨n, hmoves, hheld, -, -⟩ := step_moved l c i
  have hworking := h.working
  subst hl
  unfold KeepsBooks keepsBooks at hk
  unfold Stuck
  generalize (executeWithThrottling l c i).2 = c' at hmoves hheld
  obtain ⟨tenantId', provider', attempt', lastError', state', held'⟩ := c'
  obtain ⟨tenantId, provider, attempt, lastError, state, held⟩ := c
  simp only at *
  cases hmoves with
  | poll | leave => exact absurd (decide_eq_true hallowed) hk
  | wait | take | refill | share | giveUp | again | rest => exact absurd rfl hk
  | @refuse _ e hshared he =>
    have hone := hworking (by simp)
    simp only [hshared, he, Bool.not_eq_true', Bool.not_eq_false] at hk
    simp only [hk, if_true]
    omega
  | send hno =>
    refine absurd ?_ hk
    dsimp only
    split
    · rename_i e hshared he
      exact absurd he (hno e hshared)
    · rfl
  | retry hr hlim hlt =>
    have hone := hworking (by simp)
    simp only [hr, hlim, Bool.not_true, Bool.false_or, decide_eq_true_eq] at hk
    exact ⟨by omega, not_lt.mp hk⟩
  | limited hr hlim hle =>
    refine absurd ?_ hk
    simp only [hr, decide_eq_true (lt_next hle), Bool.or_true]
  | done hr hlim =>
    refine absurd ?_ hk
    simp only [hr, hlim, Bool.not_false, Bool.true_or]
  | raise hr =>
    have hone := hworking (by simp)
    simp only [hr, Bool.not_eq_true] at hk
    simp only [hk, Bool.false_eq_true, if_false]
    omega

def Sound (config : ThrottleConfig) (x : Throttled) : Prop := Balanced config x ∧ ∀ c ∈ x.1, Sane config c

theorem Sound.unit {ch : ℕ × Wake} (hx : Sound config x) (hc : x.1[ch.1]? = some c)
    (hbooks : Conserved (turn executeWithThrottling x ch)) :
    (executeWithThrottling x.2 c ch.2).2.held = 0 ∨ (executeWithThrottling x.2 c ch.2).2.held = 1 := by
  obtain ⟨hnone, -⟩ | ⟨c', hc', hturn⟩ := turn_cases executeWithThrottling x ch
  · rw [hc] at hnone
    cases hnone
  · rw [hc] at hc'
    cases hc'
    have hactive := (hx.1.turn ch).active
    have hcount := hbooks.1
    rw [hactive, hturn] at hcount
    exact set_of_sum_eq_count ThrottledCall.held (fun c hc => (hx.2 c hc).unit) ch.1 hc hcount

theorem Sound.turn (hx : Sound config x) {ch : ℕ × Wake} (hbooks : Conserved (turn executeWithThrottling x ch)) :
    Sound config (turn executeWithThrottling x ch) := by
  refine ⟨hx.1.turn ch, ?_⟩
  obtain ⟨-, hsame⟩ | ⟨c, hc, hturn⟩ := turn_cases executeWithThrottling x ch
  · rw [hsame]
    exact hx.2
  · have hunit := hx.unit hc hbooks
    rw [hturn]
    intro m hm
    obtain hm | rfl := List.mem_or_eq_of_mem_set hm
    · exact hx.2 m hm
    · exact (hx.2 c (List.mem_of_getElem? hc)).step hx.1.config hunit

def HasStuck (config : ThrottleConfig) (x : Throttled) : Prop := Sound config x ∧ ∃ c ∈ x.1, Stuck config c

theorem HasStuck.turn (hx : HasStuck config x) {ch : ℕ × Wake} (hbooks : Conserved (turn executeWithThrottling x ch)) :
    HasStuck config (turn executeWithThrottling x ch) := by
  refine ⟨hx.1.turn hbooks, ?_⟩
  obtain ⟨m, hm, hstuck⟩ := hx.2
  obtain ⟨-, hsame⟩ | ⟨c, hc, hturn⟩ := turn_cases executeWithThrottling x ch
  · rw [hsame]
    exact ⟨m, hm, hstuck⟩
  · have hunit := hx.1.unit hc hbooks
    rw [hturn]
    by_cases hcm : c = m
    · subst hcm
      exact ⟨_, mem_set_self hc, hstuck.step hx.1.1.config hunit⟩
    · refine ⟨m, mem_set_of_ne hm ?_, hstuck⟩
      rw [hc]
      exact fun h => hcm (Option.some.inj h)

theorem keepsBooks_of_conserved {chs : List (ℕ × Wake)} (hx : Sound config x)
    (hbooks : ∀ n, Conserved (turns executeWithThrottling x (chs.take n)))
    (hend : ∀ c ∈ (turns executeWithThrottling x chs).1, c.Settled) :
    EveryTurn executeWithThrottling KeepsBooks x chs := by
  induction chs generalizing x with
  | nil => trivial
  | cons ch chs ih =>
    refine ⟨fun c hc => ?_, ih (hx.turn (hbooks 1)) (fun n => hbooks (n + 1)) hend⟩
    by_contra hk
    -- from the first turn that does not keep the books on, one call is stuck to the end
    have hunit := hx.unit hc (hbooks 1)
    have hstart : HasStuck config (Async.turn executeWithThrottling x ch) := by
      refine ⟨hx.turn (hbooks 1), _, ?_, (hx.2 c (List.mem_of_getElem? hc)).stuck hx.1.config hunit hk⟩
      obtain ⟨hnone, -⟩ | ⟨c', hc', hturn⟩ := turn_cases executeWithThrottling x ch
      · rw [hc] at hnone
        cases hnone
      · rw [hc] at hc'
        cases hc'
        rw [hturn]
        exact mem_set_self hc
    obtain ⟨-, m, hm, hstuck⟩ := turns_always (P := HasStuck config) (fun y ch' _ hA hy => HasStuck.turn hy hA)
      (fun n => hbooks (n + 1)) hstart
    obtain ⟨r, hr⟩ := hend m hm
    rw [Stuck, hr] at hstuck
    exact hstuck

theorem beginning_sane {shared : Bool} {calls : List (String × String)} :
    ∀ c ∈ (beginning config shared calls).1, Sane config c := by
  intro c hc
  obtain ⟨call, -, rfl⟩ := List.mem_map.mp hc
  exact ⟨.inl rfl, fun _ => ⟨rfl, rfl⟩, by simp⟩

end Leak

/-- In every interleaving of any number of calls whose turns keep the books, `activeRequests` is the number of
calls holding a slot, never negative, and back at its start once all calls have settled; and where all calls
settle, that is so only if every turn kept the books. -/
theorem slots_conserved (config : ThrottleConfig) (shared : Bool) (calls : List (String × String))
    (chs : List (ℕ × Wake)) :
    (EveryTurn executeWithThrottling KeepsBooks (beginning config shared calls) chs →
      ∀ n, Conserved (turns executeWithThrottling (beginning config shared calls) (chs.take n))) ∧
    ((∀ c ∈ (turns executeWithThrottling (beginning config shared calls) chs).1, c.Settled) →
      (∀ n, Conserved (turns executeWithThrottling (beginning config shared calls) (chs.take n))) →
      EveryTurn executeWithThrottling KeepsBooks (beginning config shared calls) chs) := by
  have hbalanced := beginning_balanced config shared calls
  refine ⟨fun hk n => ?_, fun hend hbooks => keepsBooks_of_conserved ⟨hbalanced, beginning_sane⟩ hbooks hend⟩
  have hkept := turns_keeps (P := fun x => Balanced config x ∧ ∀ c ∈ x.1, Tidy config c)
    (fun x ch c hx hc hG => Tidy.all_turn hx hc hG) hk ⟨hbalanced, beginning_tidy⟩ n
  exact hkept.1.conserved hkept.2

namespace Sample

def answer (status : ℕ) : Wake := ⟨0, 0, none, .ok (), .ok ⟨status, [], ""⟩⟩

def served : List (ℕ × Wake) := List.replicate 5 (0, answer 200)

def limitedThenServed : List (ℕ × Wake) := List.replicate 5 (0, answer 429) ++ served

end Sample

theorem slots_conserved_served :
    EveryTurn executeWithThrottling KeepsBooks (beginning {} false [("t", "graph")]) Sample.served ∧
      ∀ n, Conserved (turns executeWithThrottling (beginning {} false [("t", "graph")]) (Sample.served.take n)) := by
  have hbooks : EveryTurn executeWithThrottling KeepsBooks (beginning {} false [("t", "graph")]) Sample.served := by
    decide +kernel
  exact ⟨hbooks, (slots_conserved {} false [("t", "graph")] Sample.served).1 hbooks⟩

/-- A request that is told to slow down and tried again takes a second slot, and keeps one for good. -/
theorem slots_leaked : ¬ ∀ n,
    Conserved (turns executeWithThrottling (beginning {} false [("t", "graph")]) (Sample.limitedThenServed.take n)) := by
  intro h
  have hactive : (turns executeWithThrottling (beginning {} false [("t", "graph")])
      (Sample.limitedThenServed.take 7)).2.activeRequests = 2 := by decide +kernel
  have hholding : (turns executeWithThrottling (beginning {} false [("t", "graph")])
      (Sample.limitedThenServed.take 7)).1.countP (fun c => 0 < c.held) = 1 := by decide +kernel
  have hcount := (h 7).1
  rw [hactive, hholding] at hcount
  exact absurd hcount (by decide)

end OpenMigrate.Throttle
