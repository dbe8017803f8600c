import Mathlib.Algebra.Order.Field.Basic
import Mathlib.Data.List.Infix
import Mathlib.Tactic.Linarith
import Mathlib.Tactic.Ring

namespace OpenMigrate.Rate

variable {K : Type} [Field K] [LinearOrder K]

/-- A budget of tokens that fill up at a rate, to a burst at most. -/
structure Budget (K : Type) where
  burst : K
  rate : K

/-- How many tokens there were, and when. -/
structure Level (K : Type) where
  tokens : K
  time : K

/-- A request: when it came, whether it was granted, and what it left. -/
structure Attempt (K : Type) where
  time : K
  granted : Bool
  tokens : K
  deriving DecidableEq

variable (b : Budget K)

def refilled (s : Level K) (t : K) : K := min b.burst (s.tokens + (t - s.time) * b.rate)

def taken (s : Level K) (t : K) : Attempt K :=
  if 1 ≤ refilled b s t then ⟨t, true, refilled b s t - 1⟩ else ⟨t, false, refilled b s t⟩

def Attempt.level (a : Attempt K) : Level K := ⟨a.tokens, a.time⟩

/-- The requests of these times, one after the other. -/
def attempts : Level K → List K → List (Attempt K)
  | _, [] => []
  | s, t :: ts => taken b s t :: attempts (taken b s t).level ts

variable {b} {s : Level K} {t : K}

@[simp] theorem taken_time : (taken b s t).time = t := by
  unfold taken
  split <;> rfl

theorem taken_eq : taken b s t = ⟨t, (taken b s t).granted, (taken b s t).tokens⟩ := by
  unfold taken
  split <;> rfl

theorem taken_granted : (taken b s t).granted = true ↔ 1 ≤ refilled b s t := by
  unfold taken
  split <;> simp [*]

theorem taken_of_granted (h : (taken b s t).granted = true) : (taken b s t).tokens = refilled b s t - 1 := by
  rw [taken, if_pos (taken_granted.mp h)]

theorem taken_of_denied (h : (taken b s t).granted = false) : (taken b s t).tokens = refilled b s t := by
  have hno : ¬ 1 ≤ refilled b s t := fun hle => Bool.false_ne_true (h.symm.trans (taken_granted.mpr hle))
  rw [taken, if_neg hno]

theorem refilled_le_burst : refilled b s t ≤ b.burst := min_le_left _ _

theorem refilled_le : refilled b s t ≤ s.tokens + (t - s.time) * b.rate := min_le_right _ _

theorem taken_spends : (taken b s t).tokens + (if (taken b s t).granted then 1 else 0) = refilled b s t := by
  cases hg : (taken b s t).granted with
  | true =>
    rw [taken_of_granted hg, if_pos rfl]
    exact sub_add_cancel _ _
  | false =>
    rw [taken_of_denied hg, if_neg Bool.false_ne_true, add_zero]

theorem attempts_time {ts : List K} {a : Attempt K} (h : a ∈ attempts b s ts) : a.time ∈ ts := by
  induction ts generalizing s with
  | nil => cases h
  | cons t ts ih =>
    obtain rfl | h := List.mem_cons.mp h
    · simp
    · exact List.mem_cons_of_mem t (ih h)

theorem attempts_split {ts : List K} {before after : List (Attempt K)} {a : Attempt K}
    (h : attempts b s ts = before ++ a :: after) :
    ∃ ts₁ ts₂, ts = ts₁ ++ a.time :: ts₂ ∧ after = attempts b a.level ts₂ := by
  induction before generalizing s ts with
  | nil =>
    cases ts with
    | nil => cases h
    | cons t ts =>
      obtain ⟨rfl, rfl⟩ := List.cons.inj h
      exact ⟨[], ts, by simp, rfl⟩
  | cons a' before ih =>
    cases ts with
    | nil => cases h
    | cons t ts =>
      obtain ⟨rfl, hrest⟩ := List.cons.inj h
      obtain ⟨ts₁, ts₂, rfl, hafter⟩ := ih hrest
      exact ⟨t :: ts₁, ts₂, rfl, hafter⟩

/-- A bucket too small for one token grants nothing. -/
theorem denied_of_small (hburst : b.burst < 1) {ts : List K} : ∀ a ∈ attempts b s ts, a.granted = false := by
  induction ts generalizing s with
  | nil => simp [attempts]
  | cons t ts ih =>
    intro a ha
    obtain rfl | ha := List.mem_cons.mp ha
    · rw [← Bool.not_eq_true, taken_granted, not_le]
      exact lt_of_le_of_lt refilled_le_burst hburst
    · exact ih a ha

/-- The requests granted between two times. -/
def grants (from_ until_ : K) (as : List (Attempt K)) : ℕ :=
  as.countP fun a => a.granted && decide (from_ ≤ a.time) && decide (a.time ≤ until_)

omit [Field K] in
theorem grants_cons (from_ until_ : K) (a : Attempt K) (as : List (Attempt K)) (hfrom : from_ ≤ a.time)
    (huntil : a.time ≤ until_) :
    grants from_ until_ (a :: as) = grants from_ until_ as + if a.granted then 1 else 0 := by
  simp [grants, List.countP_cons, hfrom, huntil]

variable [IsStrictOrderedRing K]

/-- The tokens of a level lie between none and the burst. -/
def Within (b : Budget K) (s : Level K) : Prop := 0 ≤ s.tokens ∧ s.tokens ≤ b.burst

theorem le_refilled (hs : Within b s) (hrate : 0 ≤ b.rate) (ht : s.time ≤ t) : s.tokens ≤ refilled b s t := by
  apply le_min hs.2
  have hmore : 0 ≤ (t - s.time) * b.rate := mul_nonneg (sub_nonneg.mpr ht) hrate
  linarith

theorem taken_within (hs : Within b s) (hrate : 0 ≤ b.rate) (ht : s.time ≤ t) : Within b (taken b s t).level := by
  have hlow := le_refilled hs hrate ht
  have hhigh : refilled b s t ≤ b.burst := refilled_le_burst
  have hzero := hs.1
  cases hg : (taken b s t).granted with
  | true =>
    have hone := taken_granted.mp hg
    constructor
    · change 0 ≤ (taken b s t).tokens
      rw [taken_of_granted hg]
      linarith
    · change (taken b s t).tokens ≤ b.burst
      rw [taken_of_granted hg]
      linarith
  | false =>
    constructor
    · change 0 ≤ (taken b s t).tokens
      rw [taken_of_denied hg]
      linarith
    · change (taken b s t).tokens ≤ b.burst
      rw [taken_of_denied hg]
      exact hhigh

theorem attempts_within (hs : Within b s) (hrate : 0 ≤ b.rate) {ts : List K} (hts : (s.time :: ts).Pairwise (· ≤ ·)) :
    ∀ a ∈ attempts b s ts, Within b a.level := by
  induction ts generalizing s with
  | nil => simp [attempts]
  | cons t ts ih =>
    obtain ⟨hfirst, hrest⟩ := List.pairwise_cons.mp hts
    have hnext := taken_within hs hrate (hfirst t List.mem_cons_self)
    intro a ha
    obtain rfl | ha := List.mem_cons.mp ha
    · exact hnext
    · exact ih hnext (by simpa [Attempt.level] using hrest) a ha

section Window

theorem grants_le_tokens (hs : Within b s) (hrate : 0 ≤ b.rate) {ts : List K}
    (hts : (s.time :: ts).Pairwise (· ≤ ·)) (from_ until_ : K) (huntil : s.time ≤ until_) :
    (grants from_ until_ (attempts b s ts) : K) ≤ s.tokens + (until_ - s.time) * b.rate := by
  induction ts generalizing s with
  | nil =>
    have hmore : 0 ≤ (until_ - s.time) * b.rate := mul_nonneg (sub_nonneg.mpr huntil) hrate
    have hzero := hs.1
    simp only [attempts, grants, List.countP_nil, Nat.cast_zero]
    linarith
  | cons t ts ih =>
    obtain ⟨hfirst, hrest⟩ := List.pairwise_cons.mp hts
    have ht := hfirst t List.mem_cons_self
    by_cases hin : t ≤ until_
    · have hnext := ih (taken_within hs hrate ht) (by simpa [Attempt.level] using hrest)
        (by simpa [Attempt.level] using hin)
      have hspent := taken_spends (b := b) (s := s) (t := t)
      have hrefill : refilled b s t ≤ s.tokens + (t - s.time) * b.rate := refilled_le
      have hcons : (grants from_ until_ (attempts b s (t :: ts)) : K) ≤
          grants from_ until_ (attempts b (taken b s t).level ts) + if (taken b s t).granted then 1 else 0 := by
        simp only [attempts, grants, List.countP_cons]
        push_cast
        apply add_le_add_right
        cases (taken b s t).granted <;> simp
        split <;> simp
      simp only [Attempt.level, taken_time] at hnext hcons
      linarith [hnext, hcons, sub_mul until_ t b.rate, sub_mul t s.time b.rate, sub_mul until_ s.time b.rate]
    · -- every request left comes too late
      have hnone : grants from_ until_ (attempts b s (t :: ts)) = 0 := by
        rw [grants, List.countP_eq_zero]
        intro a ha
        have hlate : t ≤ a.time := by
          obtain heq | hmem := List.mem_cons.mp (attempts_time ha)
          · exact heq.ge
          · exact (List.pairwise_cons.mp hrest).1 a.time hmem
        have hafter : ¬ a.time ≤ until_ := fun hle => hin (hlate.trans hle)
        simp [hafter]
      have hmore : 0 ≤ (until_ - s.time) * b.rate := mul_nonneg (sub_nonneg.mpr huntil) hrate
      have hzero := hs.1
      rw [hnone, Nat.cast_zero]
      linarith

theorem grants_le (hs : Within b s) (hrate : 0 ≤ b.rate) {ts : List K} (hts : (s.time :: ts).Pairwise (· ≤ ·))
    (from_ until_ : K) (hwindow : from_ ≤ until_) :
    (grants from_ until_ (attempts b s ts) : K) ≤ b.burst + (until_ - from_) * b.rate := by
  induction ts generalizing s with
  | nil =>
    have hmore : 0 ≤ (until_ - from_) * b.rate := mul_nonneg (sub_nonneg.mpr hwindow) hrate
    have hzero := hs.1.trans hs.2
    simp only [attempts, grants, List.countP_nil, Nat.cast_zero]
    linarith
  | cons t ts ih =>
    obtain ⟨hfirst, hrest⟩ := List.pairwise_cons.mp hts
    have ht := hfirst t List.mem_cons_self
    have hnext := taken_within hs hrate ht
    have htimes : ((taken b s t).level.time :: ts).Pairwise (· ≤ ·) := by simpa [Attempt.level] using hrest
    by_cases hin : from_ ≤ t ∧ t ≤ until_
    · have hlater := grants_le_tokens hnext hrate htimes from_ until_
        (by simpa [Attempt.level] using hin.2)
      have hspent := taken_spends (b := b) (s := s) (t := t)
      have hburst : refilled b s t ≤ b.burst := refilled_le_burst
      have hmeanwhile : (until_ - t) * b.rate ≤ (until_ - from_) * b.rate :=
        mul_le_mul_of_nonneg_right (by linarith [hin.1]) hrate
      rw [attempts, grants_cons from_ until_ _ _ (by simpa using hin.1) (by simpa using hin.2)]
      simp only [Attempt.level, taken_time] at hlater ⊢
      push_cast
      linarith
    · have hskip : grants from_ until_ (attempts b s (t :: ts)) =
          grants from_ until_ (attempts b (taken b s t).level ts) := by
        rw [attempts, grants, grants, List.countP_cons]
        have hout : ((taken b s t).granted && decide (from_ ≤ (taken b s t).time) &&
            decide ((taken b s t).time ≤ until_)) = false := by
          rw [taken_time]
          by_cases hfrom : from_ ≤ t
          · have hlate : ¬ t ≤ until_ := fun hle => hin ⟨hfrom, hle⟩
            rw [decide_eq_false hlate, Bool.and_false]
          · rw [decide_eq_false hfrom, Bool.and_false, Bool.false_and]
        rw [hout, if_neg Bool.false_ne_true, Nat.add_zero]
      rw [hskip]
      exact ih hnext htimes

end Window

section Spaced

/-- The bucket held so many tokens at a time, and none has been taken since. -/
def Filled (b : Budget K) (since tokens : K) (s : Level K) : Prop :=
  since ≤ s.time ∧ min b.burst (tokens + (s.time - since) * b.rate) ≤ s.tokens

variable {since tokens : K}

omit [IsStrictOrderedRing K] in
theorem Filled.start (s : Level K) : Filled b s.time s.tokens s := by
  refine ⟨le_rfl, ?_⟩
  rw [sub_self, zero_mul, add_zero]
  exact min_le_right _ _

theorem Filled.refilled (h : Filled b since tokens s) (hrate : 0 ≤ b.rate) (ht : s.time ≤ t) :
    min b.burst (tokens + (t - since) * b.rate) ≤ refilled b s t := by
  apply le_min (min_le_left _ _)
  have hmore : 0 ≤ (t - s.time) * b.rate := mul_nonneg (sub_nonneg.mpr ht) hrate
  have hsplit : (t - since) * b.rate = (s.time - since) * b.rate + (t - s.time) * b.rate := by ring
  obtain hlow | hlow := le_total b.burst (tokens + (s.time - since) * b.rate)
  · have hfull := h.2
    rw [min_eq_left hlow] at hfull
    exact (min_le_left _ _).trans (by linarith)
  · have hfull := h.2
    rw [min_eq_right hlow] at hfull
    exact (min_le_right _ _).trans (by linarith)

theorem Filled.denied (h : Filled b since tokens s) (hrate : 0 ≤ b.rate) (ht : s.time ≤ t)
    (hno : (taken b s t).granted = false) : Filled b since tokens (taken b s t).level := by
  constructor
  · exact (h.1.trans ht).trans_eq taken_time.symm
  · change _ ≤ (taken b s t).tokens
    rw [taken_of_denied hno, Attempt.level, taken_time]
    exact h.refilled hrate ht

theorem Filled.granted (h : Filled b since tokens s) (hrate : 0 ≤ b.rate) (hburst : 1 ≤ b.burst) (ht : s.time ≤ t)
    (henough : 1 ≤ tokens + (t - since) * b.rate) : (taken b s t).granted = true :=
  taken_granted.mpr ((le_min hburst henough).trans (h.refilled hrate ht))

/-- Refusals lose nothing: once enough has come since, a request is granted. -/
theorem granted_of_filled (h : Filled b since tokens s) (hrate : 0 ≤ b.rate) (hburst : 1 ≤ b.burst) {ts : List K}
    (hts : (s.time :: ts).Pairwise (· ≤ ·)) {before after : List (Attempt K)} {a : Attempt K}
    (hsplit : attempts b s ts = before ++ a :: after) (hdenied : ∀ a' ∈ before, a'.granted = false)
    (henough : 1 ≤ tokens + (a.time - since) * b.rate) : a.granted = true := by
  induction before generalizing s ts with
  | nil =>
    cases ts with
    | nil => cases hsplit
    | cons t ts =>
      obtain ⟨rfl, -⟩ := List.cons.inj hsplit
      rw [taken_time] at henough
      exact h.granted hrate hburst ((List.pairwise_cons.mp hts).1 t List.mem_cons_self) henough
  | cons a' before ih =>
    cases ts with
    | nil => cases hsplit
    | cons t ts =>
      obtain ⟨hfirst, hrest⟩ := List.pairwise_cons.mp hts
      obtain ⟨rfl, htail⟩ := List.cons.inj hsplit
      have hnext := h.denied hrate (hfirst t List.mem_cons_self) (hdenied _ List.mem_cons_self)
      exact ih hnext (by simpa [Attempt.level] using hrest) htail fun x hx => hdenied x (List.mem_cons_of_mem _ hx)

theorem granted_of_spaced (hs : Within b s) (h : Filled b since 0 s) (hrate : 0 ≤ b.rate) (hburst : 1 ≤ b.burst)
    {ts : List K} (hts : (s.time :: ts).Pairwise (· ≤ ·)) {before after : List (Attempt K)} {a : Attempt K}
    (hsplit : attempts b s ts = before ++ a :: after) (hstart : 1 ≤ (a.time - since) * b.rate)
    (hspaced : ∀ a' ∈ before, a'.granted = true → 1 ≤ (a.time - a'.time) * b.rate) : a.granted = true := by
  induction before generalizing s ts since with
  | nil => exact granted_of_filled h hrate hburst hts hsplit (by simp) (by rwa [zero_add])
  | cons a' before ih =>
    cases ts with
    | nil => cases hsplit
    | cons t ts =>
      obtain ⟨hfirst, hrest⟩ := List.pairwise_cons.mp hts
      have ht := hfirst t List.mem_cons_self
      obtain ⟨rfl, htail⟩ := List.cons.inj hsplit
      have hwithin := taken_within hs hrate ht
      have htimes : ((taken b s t).level.time :: ts).Pairwise (· ≤ ·) := by simpa [Attempt.level] using hrest
      have hlater : ∀ x ∈ before, x.granted = true → 1 ≤ (a.time - x.time) * b.rate :=
        fun x hx => hspaced x (List.mem_cons_of_mem _ hx)
      cases hg : (taken b s t).granted with
      | true =>
        have hfresh : Filled b (taken b s t).time 0 (taken b s t).level := by
          refine ⟨le_rfl, ?_⟩
          rw [Attempt.level, sub_self, zero_mul, add_zero]
          exact (min_le_right _ _).trans hwithin.1
        exact ih hwithin hfresh htimes htail (hspaced _ List.mem_cons_self hg) hlater
      | false => exact ih hwithin (h.denied hrate ht hg) htimes htail hstart hlater

theorem granted_of_waited (hrate : 0 ≤ b.rate) (hburst : 1 ≤ b.burst) {ts : List K}
    (hts : (s.time :: ts).Pairwise (· ≤ ·)) {before between after : List (Attempt K)} {a a' : Attempt K}
    (hsplit : attempts b s ts = before ++ a :: (between ++ a' :: after))
    (hdenied : ∀ x ∈ between, x.granted = false) (hwait : 1 ≤ a.tokens + (a'.time - a.time) * b.rate) :
    a'.granted = true := by
  obtain ⟨ts₁, ts₂, rfl, hrest⟩ := attempts_split hsplit
  have htimes : (a.level.time :: ts₂).Pairwise (· ≤ ·) := (hts.of_cons).sublist (List.sublist_append_right ts₁ _)
  exact granted_of_filled (Filled.start a.level) hrate hburst htimes hrest.symm hdenied hwait

end Spaced

section Lazy

/-- The requests of these times where a refusal is not written down. -/
def lazyAttempts (b : Budget K) : Level K → List K → List (Attempt K)
  | _, [] => []
  | s, t :: ts => taken b s t :: lazyAttempts b (if (taken b s t).granted then (taken b s t).level else s) ts

/-- Both levels come to the same from a time on. -/
def SameFrom (b : Budget K) (now : K) (s s' : Level K) : Prop := ∀ t, now ≤ t → refilled b s t = refilled b s' t

variable {now : K} {s' : Level K}

omit [IsStrictOrderedRing K] in
theorem SameFrom.taken (h : SameFrom b now s s') (ht : now ≤ t) : taken b s t = taken b s' t := by
  unfold Rate.taken
  rw [h t ht]

/-- Writing a refusal down changes nothing of what comes later. -/
theorem refilled_denied (hrate : 0 ≤ b.rate) (hno : (taken b s t).granted = false) {u : K} (hu : t ≤ u) :
    refilled b (taken b s t).level u = refilled b s u := by
  have hmore : 0 ≤ (u - t) * b.rate := mul_nonneg (sub_nonneg.mpr hu) hrate
  have hsplit : (u - s.time) * b.rate = (t - s.time) * b.rate + (u - t) * b.rate := by ring
  rw [refilled, Attempt.level, taken_of_denied hno, taken_time, refilled, refilled, hsplit, ← add_assoc]
  obtain hfull | hshort := le_total b.burst (s.tokens + (t - s.time) * b.rate)
  · rw [min_eq_left hfull, min_eq_left (by linarith), min_eq_left (by linarith)]
  · rw [min_eq_right hshort]

theorem lazyAttempts_eq (hrate : 0 ≤ b.rate) {ts : List K} (hts : (now :: ts).Pairwise (· ≤ ·))
    (hsame : SameFrom b now s s') : lazyAttempts b s ts = attempts b s' ts := by
  induction ts generalizing now s s' with
  | nil => rfl
  | cons t ts ih =>
    obtain ⟨hfirst, hrest⟩ := List.pairwise_cons.mp hts
    have htaken := hsame.taken (hfirst t List.mem_cons_self)
    rw [lazyAttempts, attempts, htaken]
    apply congrArg (taken b s' t :: ·)
    apply ih hrest
    cases hg : (taken b s' t).granted with
    | true => exact fun u _ => rfl
    | false =>
      intro u hu
      rw [refilled_denied hrate hg hu]
      exact hsame u ((hfirst t List.mem_cons_self).trans hu)

end Lazy

end OpenMigrate.Rate
