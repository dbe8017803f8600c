import OpenMigrate.Rate.Bucket
import OpenMigrate.Throttle.Limiter
import Mathlib.Algebra.Order.Floor.Defs
import Mathlib.Algebra.Order.Archimedean.Basic
import Mathlib.Data.Rat.Floor

namespace OpenMigrate.Throttle

open Rate

/-- Time in milliseconds until a token is available. -/
def TokenBucket.getTimeUntilToken (b : TokenBucket) : ℤ := ⌈(1 - b.tokens) / b.refillRate * 1000⌉

/-- One attempt of `acquire`, with what it would wait before the next. -/
structure BucketCall extends Attempt ℚ where
  wait : ℤ
  deriving DecidableEq

/-- The attempts made at these times. -/
def TokenBucket.calls : TokenBucket → List ℚ → List BucketCall
  | _, [] => []
  | b, t :: ts =>
    let r := b.tryConsume t
    ⟨⟨t, r.1, r.2.tokens⟩, r.2.getTimeUntilToken⟩ :: TokenBucket.calls r.2 ts

structure RateBucket where
  tokens : ℚ
  at_ : ℚ

structure InProcessRateBudget where
  rate : ℚ
  burst : ℚ
  buckets : AList (fun _ : String => RateBucket)

namespace InProcessRateBudget

def create (requestsPerSecond : ℚ) (burst : Option ℚ) : InProcessRateBudget :=
  ⟨requestsPerSecond, burst.getD requestsPerSecond, ∅⟩

def bucketKey (tenantId provider : String) : String := tenantId ++ ":" ++ provider

/-- Takes a token if one is available; otherwise says how long to wait. -/
def take (l : InProcessRateBudget) (key : String) (now : ℚ) : ℤ × InProcessRateBudget :=
  let bucket := (l.buckets.lookup key).getD ⟨l.burst, now⟩
  let refilled := min l.burst (bucket.tokens + (now - bucket.at_) / 1000 * l.rate)
  if 1 ≤ refilled then (0, { l with buckets := l.buckets.insert key ⟨refilled - 1, now⟩ })
  else (⌈(1 - refilled) / l.rate * 1000⌉, { l with buckets := l.buckets.insert key ⟨refilled, now⟩ })

/-- What one key's attempts come to among those of all keys; `acquire` goes on when there is nothing to wait for. -/
def calls (key : String) : InProcessRateBudget → List (String × ℚ) → List BucketCall
  | _, [] => []
  | l, (k, t) :: requests =>
    let r := l.take k t
    if k = key then
      ⟨⟨t, decide (r.1 ≤ 0), ((r.2.buckets.lookup key).map (·.tokens)).getD 0⟩, r.1⟩ :: calls key r.2 requests
    else calls key r.2 requests

end InProcessRateBudget

/-- The rate of a bucket that began at `start`: what it stores, what it grants in any window, and that a request
is granted once a token's time has gone by since the start and the last grant, or once it has waited as it was told. -/
structure RespectsRate (rate capacity start : ℚ) (calls : List BucketCall) : Prop where
  stored : ∀ c ∈ calls, 0 ≤ c.tokens ∧ c.tokens ≤ capacity
  window : ∀ from_ seconds : ℚ, 0 ≤ seconds →
    (grants from_ (from_ + 1000 * seconds) (calls.map (·.toAttempt)) : ℚ) ≤ capacity + rate * seconds
  spaced : ∀ before c after, calls = before ++ c :: after → start + 1000 / rate ≤ c.time →
    (∀ g ∈ before, g.granted = true → g.time + 1000 / rate ≤ c.time) → c.granted = true
  waited : ∀ before c between c' after, calls = before ++ c :: (between ++ c' :: after) → c.granted = false →
    (∀ x ∈ between, x.granted = false) → c.time + (c.wait : ℚ) ≤ c'.time → c'.granted = true

section Respects

variable {rate capacity : ℚ}

def perMs (rate capacity : ℚ) : Budget ℚ := ⟨capacity, rate / 1000⟩

theorem token_time (hrate : 0 < rate) {x y : ℚ} (h : x + 1000 / rate ≤ y) : 1 ≤ (y - x) * (rate / 1000) := by
  have hsub : 1000 / rate ≤ y - x := by linarith
  have hscaled := mul_le_mul_of_nonneg_right hsub (div_nonneg hrate.le (by norm_num : (0 : ℚ) ≤ 1000))
  have hone : 1000 / rate * (rate / 1000) = 1 := by
    rw [div_mul_div_comm, mul_comm]
    exact div_self (mul_ne_zero hrate.ne' (by norm_num))
  rwa [hone] at hscaled

theorem token_wait (hrate : 0 < rate) {tokens x y : ℚ} (h : x + (⌈(1 - tokens) / rate * 1000⌉ : ℤ) ≤ y) :
    1 ≤ tokens + (y - x) * (rate / 1000) := by
  have hceil : (1 - tokens) / rate * 1000 ≤ (⌈(1 - tokens) / rate * 1000⌉ : ℤ) := Int.le_ceil _
  have hsub : (1 - tokens) / rate * 1000 ≤ y - x := by linarith
  have hscaled := mul_le_mul_of_nonneg_right hsub (div_nonneg hrate.le (by norm_num : (0 : ℚ) ≤ 1000))
  have hone : (1 - tokens) / rate * 1000 * (rate / 1000) = 1 - tokens := by
    field_simp
  rw [hone] at hscaled
  linarith

theorem respectsRate (hrate : 0 < rate) (hcapacity : 1 ≤ capacity) {s : Level ℚ} (hs : s.tokens = capacity)
    {ts : List ℚ} (hts : (s.time :: ts).Pairwise (· ≤ ·)) {calls : List BucketCall}
    (hcalls : calls.map (·.toAttempt) = attempts (perMs rate capacity) s ts)
    (hwaits : ∀ c ∈ calls, c.granted = false → c.wait = ⌈(1 - c.tokens) / rate * 1000⌉) :
    RespectsRate rate capacity s.time calls := by
  have hpos : 0 ≤ (perMs rate capacity).rate := div_nonneg hrate.le (by norm_num)
  have hwithin : Within (perMs rate capacity) s := by
    constructor
    · rw [hs]
      linarith
    · exact hs.le
  constructor
  · intro c hc
    exact attempts_within hwithin hpos hts c.toAttempt (hcalls ▸ List.mem_map_of_mem hc)
  · intro from_ seconds hseconds
    have hle := grants_le hwithin hpos hts from_ (from_ + 1000 * seconds) (by linarith)
    rw [hcalls]
    have hscale : (from_ + 1000 * seconds - from_) * (perMs rate capacity).rate = rate * seconds := by
      simp only [perMs]
      ring
    rw [hscale] at hle
    exact hle
  · intro before c after hsplit hstart hspaced
    rw [hsplit, List.map_append, List.map_cons] at hcalls
    have hfilled : Filled (perMs rate capacity) s.time 0 s := by
      refine ⟨le_rfl, ?_⟩
      rw [sub_self, zero_mul, add_zero]
      exact (min_le_right _ _).trans hwithin.1
    refine granted_of_spaced hwithin hfilled hpos hcapacity hts hcalls.symm (token_time hrate hstart) ?_
    intro a ha hgranted
    obtain ⟨g, hg, rfl⟩ := List.mem_map.mp ha
    exact token_time hrate (hspaced g hg hgranted)
  · intro before c between c' after hsplit hdenied hbetween hwait
    have hc : c ∈ calls := by
      rw [hsplit]
      simp
    rw [hwaits c hc hdenied] at hwait
    rw [hsplit, List.map_append, List.map_cons, List.map_append, List.map_cons] at hcalls
    refine granted_of_waited hpos hcapacity hts hcalls.symm ?_ (token_wait hrate hwait)
    intro a ha
    obtain ⟨x, hx, rfl⟩ := List.mem_map.mp ha
    exact hbetween x hx

theorem small_not_respectsRate (hcapacity : capacity < 1) {start : ℚ} {s : Level ℚ} {calls : List BucketCall}
    (hcalls : calls.map (·.toAttempt) = attempts (perMs rate capacity) s [start + 1000 / rate]) :
    ¬ RespectsRate rate capacity start calls := by
  intro h
  obtain ⟨c, rfl⟩ : ∃ c, calls = [c] := by
    rw [← List.length_eq_one_iff, ← List.length_map (f := (·.toAttempt)), hcalls]
    rfl
  have hmem : c.toAttempt ∈ attempts (perMs rate capacity) s [start + 1000 / rate] :=
    hcalls ▸ List.mem_singleton_self _
  have hdenied : c.granted = false := denied_of_small hcapacity c.toAttempt hmem
  have htime : c.time = start + 1000 / rate := List.mem_singleton.mp (attempts_time hmem)
  have hgranted := h.spaced [] c [] rfl htime.ge (by simp)
  exact Bool.false_ne_true (hdenied.symm.trans hgranted)

end Respects

section Buckets

theorem TokenBucket.calls_attempts (b : TokenBucket) (ts : List ℚ) :
    (b.calls ts).map (·.toAttempt) = attempts (perMs b.refillRate b.capacity) ⟨b.tokens, b.lastRefill⟩ ts := by
  induction ts generalizing b with
  | nil => rfl
  | cons t ts ih =>
    have hrefill : (b.refill t).tokens = refilled (perMs b.refillRate b.capacity) ⟨b.tokens, b.lastRefill⟩ t := by
      simp only [TokenBucket.refill, refilled, perMs]
      ring_nf
    have hnext := ih (b.tryConsume t).2
    by_cases hone : 1 ≤ (b.refill t).tokens
    · simp only [TokenBucket.tryConsume, if_pos hone] at hnext
      simp only [TokenBucket.calls, attempts, List.map_cons, TokenBucket.tryConsume, if_pos hone, taken, ← hrefill]
      exact congrArg _ hnext
    · simp only [TokenBucket.tryConsume, if_neg hone] at hnext
      simp only [TokenBucket.calls, attempts, List.map_cons, TokenBucket.tryConsume, if_neg hone, taken, ← hrefill]
      exact congrArg _ hnext

@[simp] theorem TokenBucket.tryConsume_refillRate (b : TokenBucket) (t : ℚ) :
    (b.tryConsume t).2.refillRate = b.refillRate := by
  unfold TokenBucket.tryConsume
  dsimp only
  split <;> rfl

theorem TokenBucket.calls_wait (b : TokenBucket) (ts : List ℚ) :
    ∀ c ∈ b.calls ts, c.wait = ⌈(1 - c.tokens) / b.refillRate * 1000⌉ := by
  induction ts generalizing b with
  | nil => simp [TokenBucket.calls]
  | cons t ts ih =>
    intro c hc
    obtain rfl | hc := List.mem_cons.mp hc
    · simp [TokenBucket.getTimeUntilToken]
    · simpa using ih (b.tryConsume t).2 c hc

namespace InProcessRateBudget

variable (l : InProcessRateBudget) (key : String)

/-- What a key's bucket holds, where it has one; otherwise it is as good as full since any time. -/
def level (start : ℚ) : Level ℚ :=
  match l.buckets.lookup key with
  | some bucket => ⟨bucket.tokens, bucket.at_⟩
  | none => ⟨l.burst, start⟩

variable {l key}

variable (l key) in
theorem refilled_level (hrate : 0 ≤ l.rate) {start t : ℚ} (hstart : start ≤ t) :
    refilled (perMs l.rate l.burst) (l.level key start) t =
      min l.burst (((l.buckets.lookup key).getD ⟨l.burst, t⟩).tokens +
        (t - ((l.buckets.lookup key).getD ⟨l.burst, t⟩).at_) / 1000 * l.rate) := by
  cases hbucket : l.buckets.lookup key with
  | some bucket =>
    simp only [level, hbucket, refilled, perMs, Option.getD_some]
    ring_nf
  | none =>
    have hmore : 0 ≤ (t - start) * (l.rate / 1000) :=
      mul_nonneg (sub_nonneg.mpr hstart) (div_nonneg hrate (by norm_num))
    simp only [level, hbucket, refilled, perMs, Option.getD_none, sub_self, zero_div, zero_mul, add_zero, min_self]
    apply min_eq_left
    linarith

theorem take_level (hrate : 0 ≤ l.rate) {start t : ℚ} (hstart : start ≤ t) :
    (l.take key t).2.buckets.lookup key =
      some ⟨(taken (perMs l.rate l.burst) (l.level key start) t).tokens, t⟩ := by
  have hrefilled := refilled_level l key hrate hstart
  simp only [take, taken, hrefilled]
  split <;> simp [AList.lookup_insert]

theorem level_take (hrate : 0 ≤ l.rate) {start t : ℚ} (hstart : start ≤ t) :
    (l.take key t).2.level key start = (taken (perMs l.rate l.burst) (l.level key start) t).level := by
  simp only [level, take_level hrate hstart, Attempt.level, taken_time]

theorem take_wait (hrate : 0 ≤ l.rate) {start t : ℚ} (hstart : start ≤ t) :
    (l.take key t).1 =
      if (taken (perMs l.rate l.burst) (l.level key start) t).granted then 0
      else ⌈(1 - (taken (perMs l.rate l.burst) (l.level key start) t).tokens) / l.rate * 1000⌉ := by
  have hrefilled := refilled_level l key hrate hstart
  simp only [take, taken, hrefilled]
  split <;> simp

theorem take_granted (hrate : 0 < l.rate) {start t : ℚ} (hstart : start ≤ t) :
    (l.take key t).1 ≤ 0 ↔ (taken (perMs l.rate l.burst) (l.level key start) t).granted = true := by
  rw [take_wait hrate.le hstart]
  cases hg : (taken (perMs l.rate l.burst) (l.level key start) t).granted with
  | true => simp
  | false =>
    have hshort : (taken (perMs l.rate l.burst) (l.level key start) t).tokens < 1 := by
      rw [taken_of_denied hg, ← not_le, ← taken_granted, hg]
      exact Bool.false_ne_true
    have hpos : 0 < (1 - (taken (perMs l.rate l.burst) (l.level key start) t).tokens) / l.rate * 1000 :=
      mul_pos (div_pos (sub_pos.mpr hshort) hrate) (by norm_num)
    simpa using Int.ceil_pos.mpr hpos

@[simp] theorem take_lookup_ne {k : String} {t : ℚ} (hne : key ≠ k) :
    (l.take k t).2.buckets.lookup key = l.buckets.lookup key := by
  simp only [take]
  split <;> simp [AList.lookup_insert_ne hne]

@[simp] theorem take_rate (k : String) (t : ℚ) : (l.take k t).2.rate = l.rate := by
  simp only [take]
  split <;> rfl

@[simp] theorem take_burst (k : String) (t : ℚ) : (l.take k t).2.burst = l.burst := by
  simp only [take]
  split <;> rfl

/-- The times at which a key is asked for. -/
def timesOf (key : String) (requests : List (String × ℚ)) : List ℚ :=
  (requests.filter fun r => r.1 = key).map Prod.snd

variable (l key) in
theorem calls_attempts (hrate : 0 < l.rate) (start : ℚ) {requests : List (String × ℚ)}
    (hstart : ∀ r ∈ requests, start ≤ r.2) :
    (calls key l requests).map (·.toAttempt) =
      attempts (perMs l.rate l.burst) (l.level key start) (timesOf key requests) := by
  induction requests generalizing l with
  | nil => rfl
  | cons r requests ih =>
    have hlater : ∀ r' ∈ requests, start ≤ r'.2 := fun r' hr' => hstart r' (List.mem_cons_of_mem _ hr')
    have hr := hstart r List.mem_cons_self
    have hnext := ih (l := (l.take r.1 r.2).2) (by rwa [take_rate]) hlater
    rw [take_rate, take_burst] at hnext
    by_cases hkey : r.1 = key
    · obtain ⟨k, t⟩ := r
      obtain rfl : k = key := hkey
      have htokens : ((l.take k t).2.buckets.lookup k).map RateBucket.tokens =
          some (taken (perMs l.rate l.burst) (l.level k start) t).tokens := by
        rw [take_level hrate.le hr]
        rfl
      rw [level_take hrate.le hr] at hnext
      simp only [calls, timesOf, List.filter_cons, decide_true, if_true, List.map_cons, attempts]
      rw [List.cons.injEq]
      constructor
      · have hgranted : decide ((l.take k t).1 ≤ 0) = (taken (perMs l.rate l.burst) (l.level k start) t).granted := by
          rw [Bool.eq_iff_iff, decide_eq_true_iff]
          exact take_granted hrate hr
        rw [hgranted, htokens, Option.getD_some]
        exact taken_eq.symm
      · exact hnext
    · have hlevel : (l.take r.1 r.2).2.level key start = l.level key start := by
        simp only [level, take_lookup_ne (Ne.symm hkey), take_burst]
      rw [hlevel] at hnext
      simp only [calls, if_neg hkey, timesOf, List.filter_cons, decide_eq_false hkey, Bool.false_eq_true, if_false]
      exact hnext

theorem calls_wait (hrate : 0 < l.rate) {start : ℚ} {requests : List (String × ℚ)}
    (hstart : ∀ r ∈ requests, start ≤ r.2) :
    ∀ c ∈ calls key l requests, c.granted = false → c.wait = ⌈(1 - c.tokens) / l.rate * 1000⌉ := by
  induction requests generalizing l with
  | nil => simp [calls]
  | cons r requests ih =>
    have hlater : ∀ r' ∈ requests, start ≤ r'.2 := fun r' hr' => hstart r' (List.mem_cons_of_mem _ hr')
    have hnext := ih (l := (l.take r.1 r.2).2) (by rwa [take_rate]) hlater
    rw [take_rate] at hnext
    intro c hc hdenied
    by_cases hkey : r.1 = key
    · simp only [calls, if_pos hkey] at hc
      obtain rfl | hc := List.mem_cons.mp hc
      · obtain ⟨k, t⟩ := r
        obtain rfl : k = key := hkey
        have ht := hstart (k, t) List.mem_cons_self
        have hwaits : ¬ (l.take k t).1 ≤ 0 := of_decide_eq_false hdenied
        rw [take_granted hrate ht] at hwaits
        simp only [take_wait hrate.le ht, take_level hrate.le ht, if_neg hwaits, Option.map_some, Option.getD_some]
      · exact hnext c hc hdenied
    · simp only [calls, if_neg hkey] at hc
      exact hnext c hc hdenied

end InProcessRateBudget

end Buckets

section Limits

variable {rate : ℚ}

theorem TokenBucket.respects_iff (hrate : 0 < rate) :
    (∀ start times, (start :: times).Pairwise (· ≤ ·) →
      RespectsRate rate rate start ((TokenBucket.create rate rate start).calls times)) ↔ 1 ≤ rate := by
  constructor
  · intro h
    by_contra hsmall
    have hlate : (0 : ℚ) ≤ 0 + 1000 / rate := by
      rw [zero_add]
      exact div_nonneg (by norm_num) hrate.le
    have hbad := h 0 [0 + 1000 / rate] (by simpa using hlate)
    have hcalls := (TokenBucket.create rate rate 0).calls_attempts [0 + 1000 / rate]
    exact small_not_respectsRate (not_le.mp hsmall) hcalls hbad
  · intro hone start times htimes
    have hcalls := (TokenBucket.create rate rate start).calls_attempts times
    have hwaits := (TokenBucket.create rate rate start).calls_wait times
    exact respectsRate (s := ⟨rate, start⟩) hrate hone rfl htimes hcalls fun c hc _ => hwaits c hc

theorem InProcessRateBudget.respects_iff (hrate : 0 < rate) (burst : Option ℚ) (key : String) :
    (∀ start requests, (start :: requests.map Prod.snd).Pairwise (· ≤ ·) →
      RespectsRate rate (burst.getD rate) start (calls key (create rate burst) requests)) ↔
    1 ≤ burst.getD rate := by
  constructor
  · intro h
    by_contra hsmall
    have hlate : (0 : ℚ) ≤ 0 + 1000 / rate := by
      rw [zero_add]
      exact div_nonneg (by norm_num) hrate.le
    have hbad := h 0 [(key, 0 + 1000 / rate)] (by simpa using hlate)
    have hlater : ∀ r ∈ [(key, 0 + 1000 / rate)], (0 : ℚ) ≤ r.2 := by simpa using hlate
    have hcalls := calls_attempts (create rate burst) key hrate 0 hlater
    have htimes : timesOf key [(key, 0 + 1000 / rate)] = [0 + 1000 / rate] := by simp [timesOf]
    rw [htimes] at hcalls
    exact small_not_respectsRate (not_le.mp hsmall) hcalls hbad
  · intro hone start requests htimes
    have hstart : ∀ r ∈ requests, start ≤ r.2 := fun r hr =>
      (List.pairwise_cons.mp htimes).1 r.2 (List.mem_map_of_mem hr)
    have hkey : (start :: timesOf key requests).Pairwise (· ≤ ·) :=
      htimes.sublist ((List.filter_sublist.map _).cons_cons start)
    exact respectsRate hrate hone (s := ⟨burst.getD rate, start⟩) rfl hkey
      (calls_attempts (create rate burst) key hrate start hstart) (calls_wait (l := create rate burst) hrate hstart)

end Limits

/-- Both limiters respect a positive rate exactly when their buckets can hold a token. -/
theorem rateLimits_respect_iff (config : ThrottleConfig) (shared : Bool) (tenantId provider : String)
    (burst : Option ℚ) (hrate : 0 < config.requestsPerSecond) :
    ((∀ start times, (start :: times).Pairwise (· ≤ ·) →
        RespectsRate config.requestsPerSecond config.requestsPerSecond start
          (((ThrottleLimiter.create config shared).getBucket tenantId provider start).calls times)) ↔
      1 ≤ config.requestsPerSecond) ∧
    ((∀ start requests, (start :: requests.map Prod.snd).Pairwise (· ≤ ·) →
        RespectsRate config.requestsPerSecond (burst.getD config.requestsPerSecond) start
          (InProcessRateBudget.calls (InProcessRateBudget.bucketKey tenantId provider)
            (.create config.requestsPerSecond burst) requests)) ↔
      1 ≤ burst.getD config.requestsPerSecond) := by
  constructor
  · exact TokenBucket.respects_iff hrate
  · exact InProcessRateBudget.respects_iff hrate burst _

/-- Five requests a second for a limiter, one in two seconds with room for three for a budget. -/
theorem rateLimits_respect_five :
    (∀ start times, (start :: times).Pairwise (· ≤ ·) →
      RespectsRate 5 5 start
        (((ThrottleLimiter.create { requestsPerSecond := 5 } false).getBucket "t" "jmap" start).calls times)) ∧
    ∀ start requests, (start :: requests.map Prod.snd).Pairwise (· ≤ ·) →
      RespectsRate 5 3 start (InProcessRateBudget.calls "t:jmap" (.create 5 (some 3)) requests) := by
  have h := rateLimits_respect_iff { requestsPerSecond := 5 } false "t" "jmap" (some 3) (by norm_num)
  exact ⟨h.1.mpr (by norm_num), h.2.mpr (by norm_num)⟩

/-- Half a request a second: the bucket is full at half a token, and a request after two seconds is refused. -/
theorem half_rate_refuses :
    ¬ RespectsRate (1 / 2) (1 / 2) 0
      (((ThrottleLimiter.create { requestsPerSecond := 1 / 2 } false).getBucket "t" "jmap" 0).calls [2000]) := by
  intro h
  have hcalls : ((ThrottleLimiter.create { requestsPerSecond := 1 / 2 } false).getBucket "t" "jmap" 0).calls [2000] =
      [⟨⟨2000, false, 1 / 2⟩, 1000⟩] := by
    decide +kernel
  rw [hcalls] at h
  have hgranted := h.spaced [] _ [] rfl (by norm_num) (by simp)
  exact Bool.false_ne_true hgranted

end OpenMigrate.Throttle
