import Mathlib.Algebra.BigOperators.Group.List.Basic
import Mathlib.Algebra.Order.Ring.Int
import Mathlib.Tactic.Common

namespace OpenMigrate.Async

variable {S L I : Type}

/-- One turn of the chosen thread: the shared state and the thread's own are the only ones that change. -/
def turn (step : S → L → I → S × L) (x : List L × S) (ch : ℕ × I) : List L × S :=
  match x.1[ch.1]? with
  | some l => (x.1.set ch.1 (step x.2 l ch.2).2, (step x.2 l ch.2).1)
  | none => x

def turns (step : S → L → I → S × L) (x : List L × S) : List (ℕ × I) → List L × S
  | [] => x
  | ch :: chs => turns step (turn step x ch) chs

def EveryTurn (step : S → L → I → S × L) (G : S → L → I → Prop) (x : List L × S) : List (ℕ × I) → Prop
  | [] => True
  | ch :: chs => (∀ l ∈ x.1[ch.1]?, G x.2 l ch.2) ∧ EveryTurn step G (turn step x ch) chs

variable {step : S → L → I → S × L} {x : List L × S} {ch : ℕ × I}

instance decidableEveryTurn {G : S → L → I → Prop} [∀ s l i, Decidable (G s l i)] :
    (x : List L × S) → (chs : List (ℕ × I)) → Decidable (EveryTurn step G x chs)
  | _, [] => inferInstanceAs (Decidable True)
  | x, ch :: chs =>
    have := decidableEveryTurn (G := G) (turn step x ch) chs
    inferInstanceAs (Decidable ((∀ l ∈ x.1[ch.1]?, G x.2 l ch.2) ∧ EveryTurn step G (turn step x ch) chs))

theorem turn_cases (step : S → L → I → S × L) (x : List L × S) (ch : ℕ × I) :
    x.1[ch.1]? = none ∧ turn step x ch = x ∨
      ∃ l, x.1[ch.1]? = some l ∧
        turn step x ch = (x.1.set ch.1 (step x.2 l ch.2).2, (step x.2 l ch.2).1) := by
  unfold turn
  cases h : x.1[ch.1]? with
  | none => exact .inl ⟨rfl, rfl⟩
  | some l => exact .inr ⟨l, rfl, rfl⟩

theorem turns_append (step : S → L → I → S × L) (x : List L × S) (chs chs' : List (ℕ × I)) :
    turns step x (chs ++ chs') = turns step (turns step x chs) chs' := by
  induction chs generalizing x with
  | nil => rfl
  | cons ch chs ih => exact ih (turn step x ch)

theorem mem_set_of_ne {xs : List L} {j : ℕ} {m l' : L} (hm : m ∈ xs) (hj : xs[j]? ≠ some m) :
    m ∈ xs.set j l' := by
  obtain ⟨k, hk⟩ := List.mem_iff_getElem?.mp hm
  have hne : j ≠ k := by
    rintro rfl
    exact hj hk
  exact List.mem_iff_getElem?.mpr ⟨k, by rw [List.getElem?_set_ne hne, hk]⟩

theorem mem_set_self {xs : List L} {j : ℕ} {l l' : L} (h : xs[j]? = some l) : l' ∈ xs.set j l' := by
  obtain ⟨hj, -⟩ := List.getElem?_eq_some_iff.mp h
  exact List.mem_iff_getElem?.mpr ⟨j, by rw [List.getElem?_set_self hj]⟩

theorem getElem?_set_or {xs : List L} {j k : ℕ} {l' m : L} (hm : (xs.set j l')[k]? = some m) :
    k = j ∧ m = l' ∨ k ≠ j ∧ xs[k]? = some m := by
  by_cases hk : j = k
  · subst hk
    have hlt : j < xs.length := by simpa using (List.getElem?_eq_some_iff.mp hm).1
    rw [List.getElem?_set_self hlt] at hm
    exact .inl ⟨rfl, (Option.some.inj hm).symm⟩
  · rw [List.getElem?_set_ne hk] at hm
    exact .inr ⟨Ne.symm hk, hm⟩

/-- What holds at the start and is kept by every good turn holds in every state of a good run. -/
theorem turns_keeps {G : S → L → I → Prop} {P : List L × S → Prop}
    (hstep : ∀ x (ch : ℕ × I) l, P x → x.1[ch.1]? = some l → G x.2 l ch.2 → P (turn step x ch)) {chs : List (ℕ × I)}
    (hG : EveryTurn step G x chs) (hx : P x) (n : ℕ) : P (turns step x (chs.take n)) := by
  induction chs generalizing x n with
  | nil =>
    rw [List.take_nil]
    exact hx
  | cons ch chs ih =>
    cases n with
    | zero => exact hx
    | succ n =>
      refine ih hG.2 ?_ n
      obtain ⟨-, hsame⟩ | ⟨l, hl, -⟩ := turn_cases step x ch
      · rwa [hsame]
      · exact hstep x ch l hx hl (hG.1 l hl)

/-- Where `P` is kept by the turns that meet `G` and makes them meet `G'`, every turn of such a run meets `G'`. -/
theorem everyTurn_of_keeps {G G' : S → L → I → Prop} {P : List L × S → Prop}
    (hstep : ∀ x (ch : ℕ × I) l, P x → x.1[ch.1]? = some l → G x.2 l ch.2 →
      G' x.2 l ch.2 ∧ P (turn step x ch)) {chs : List (ℕ × I)}
    (hG : EveryTurn step G x chs) (hx : P x) : EveryTurn step G' x chs := by
  induction chs generalizing x with
  | nil => exact trivial
  | cons ch chs ih =>
    have hnow : ∀ l ∈ x.1[ch.1]?, G' x.2 l ch.2 := fun l hl => (hstep x ch l hx hl (hG.1 l hl)).1
    refine ⟨hnow, ih hG.2 ?_⟩
    obtain ⟨-, hsame⟩ | ⟨l, hl, -⟩ := turn_cases step x ch
    · rwa [hsame]
    · exact (hstep x ch l hx hl (hG.1 l hl)).2

theorem everyTurn_congr {G G' : S → L → I → Prop} (h : ∀ s l i, G s l i ↔ G' s l i) (chs : List (ℕ × I)) :
    EveryTurn step G x chs ↔ EveryTurn step G' x chs := by
  induction chs generalizing x with
  | nil => exact Iff.rfl
  | cons ch chs ih =>
    apply and_congr _ ih
    exact forall₂_congr fun l _ => h x.2 l ch.2

theorem turns_related_iff {R : S → S → Prop} (hrefl : ∀ s, R s s) (htrans : ∀ a b c, R a b → R b c → R a c)
    (x : List L × S) (chs : List (ℕ × I)) :
    (∀ n m, n ≤ m → R (turns step x (chs.take n)).2 (turns step x (chs.take m)).2) ↔
      EveryTurn step (fun s l i => R s (step s l i).1) x chs := by
  induction chs generalizing x with
  | nil =>
    simp only [List.take_nil]
    exact ⟨fun _ => trivial, fun _ _ _ _ => hrefl _⟩
  | cons ch chs ih =>
    constructor
    · intro h
      refine ⟨fun l hl => ?_, (ih _).mp fun n m hnm => h (n + 1) (m + 1) (Nat.succ_le_succ hnm)⟩
      have hfirst : R x.2 (turn step x ch).2 := h 0 1 (Nat.zero_le _)
      obtain ⟨hnone, -⟩ | ⟨l', hl', hturn⟩ := turn_cases step x ch
      · rw [hnone] at hl
        cases hl
      · obtain rfl : l' = l := Option.some.inj (hl'.symm.trans hl)
        rwa [hturn] at hfirst
    · rintro ⟨hnow, hrest⟩ n m hnm
      have htail := (ih (turn step x ch)).mpr hrest
      have hfirst : R x.2 (turn step x ch).2 := by
        obtain ⟨-, hsame⟩ | ⟨l, hl, hturn⟩ := turn_cases step x ch
        · rw [hsame]
          exact hrefl _
        · rw [hturn]
          exact hnow l hl
      cases m with
      | zero =>
        obtain rfl := Nat.le_zero.mp hnm
        exact hrefl _
      | succ m =>
        cases n with
        | zero => exact htrans _ _ _ hfirst (htail 0 m (Nat.zero_le m))
        | succ n => exact htail n m (Nat.le_of_succ_le_succ hnm)

/-- Where a turn keeps `P` just when it meets `C`, as long as `Q` holds of the threads, `P` holds of every state of a run
just when every turn meets `C`. -/
theorem turns_keep_iff {Q : List L × S → Prop} {P : S → Prop} {C : S → L → I → Prop}
    (hQ : ∀ x ch, Q x → Q (turn step x ch))
    (hstep : ∀ x (ch : ℕ × I) l, Q x → P x.2 → x.1[ch.1]? = some l → (P (step x.2 l ch.2).1 ↔ C x.2 l ch.2))
    (chs : List (ℕ × I)) (hx : Q x) (hP : P x.2) :
    (∀ n, P (turns step x (chs.take n)).2) ↔ EveryTurn step C x chs := by
  induction chs generalizing x with
  | nil =>
    simp only [List.take_nil]
    exact ⟨fun _ => trivial, fun _ _ => hP⟩
  | cons ch chs ih =>
    constructor
    · intro h
      have hfirst : P (turn step x ch).2 := h 1
      refine ⟨fun l hl => ?_, (ih (hQ x ch hx) hfirst).mp fun n => h (n + 1)⟩
      obtain ⟨hnone, -⟩ | ⟨l', hl', hturn⟩ := turn_cases step x ch
      · rw [hnone] at hl
        cases hl
      · obtain rfl : l' = l := Option.some.inj (hl'.symm.trans hl)
        rw [hturn] at hfirst
        exact (hstep x ch l' hx hP hl').mp hfirst
    · rintro ⟨hnow, hrest⟩ n
      have hfirst : P (turn step x ch).2 := by
        obtain ⟨-, hsame⟩ | ⟨l, hl, hturn⟩ := turn_cases step x ch
        · rwa [hsame]
        · rw [hturn]
          exact (hstep x ch l hx hP hl).mpr (hnow l hl)
      cases n with
      | zero => exact hP
      | succ n => exact (ih (hQ x ch hx) hfirst).mpr hrest n

/-- A run each of whose choices is one that `C` allows in the state it meets. -/
def EveryChoice (step : S → L → I → S × L) (C : List L × S → ℕ × I → Prop) (x : List L × S) : List (ℕ × I) → Prop
  | [] => True
  | ch :: chs => C x ch ∧ EveryChoice step C (turn step x ch) chs

instance decidableEveryChoice {C : List L × S → ℕ × I → Prop} [∀ x ch, Decidable (C x ch)] :
    (x : List L × S) → (chs : List (ℕ × I)) → Decidable (EveryChoice step C x chs)
  | _, [] => inferInstanceAs (Decidable True)
  | x, ch :: chs =>
    have := decidableEveryChoice (C := C) (turn step x ch) chs
    inferInstanceAs (Decidable (C x ch ∧ EveryChoice step C (turn step x ch) chs))

theorem choices_keep {C : List L × S → ℕ × I → Prop} {P : List L × S → Prop}
    (hstep : ∀ x ch, P x → C x ch → P (turn step x ch)) {chs : List (ℕ × I)} (hC : EveryChoice step C x chs) (hx : P x)
    (n : ℕ) : P (turns step x (chs.take n)) := by
  induction chs generalizing x n with
  | nil =>
    rw [List.take_nil]
    exact hx
  | cons ch chs ih =>
    cases n with
    | zero => exact hx
    | succ n => exact ih hC.2 (hstep x ch hx hC.1) n

theorem turns_always {A P : List L × S → Prop}
    (hstep : ∀ x ch, A x → A (turn step x ch) → P x → P (turn step x ch)) {chs : List (ℕ × I)}
    (hA : ∀ n, A (turns step x (chs.take n))) (hx : P x) : P (turns step x chs) := by
  induction chs generalizing x with
  | nil => exact hx
  | cons ch chs ih => exact ih (fun n => hA (n + 1)) (hstep x ch (hA 0) (hA 1) hx)

section Tally

variable (f : L → ℤ)

theorem sum_set (xs : List L) (j : ℕ) (l' : L) {l : L} (hl : xs[j]? = some l) :
    ((xs.set j l').map f).sum + f l = (xs.map f).sum + f l' := by
  induction xs generalizing j with
  | nil => simp at hl
  | cons y ys ih =>
    cases j with
    | zero =>
      simp only [List.getElem?_cons_zero, Option.some.injEq] at hl
      subst hl
      simp only [List.set_cons_zero, List.map_cons, List.sum_cons]
      omega
    | succ j =>
      have hj := ih j (by simpa using hl)
      simp only [List.set_cons_succ, List.map_cons, List.sum_cons]
      omega

theorem sum_eq_count {xs : List L} (h : ∀ l ∈ xs, f l = 0 ∨ f l = 1) :
    (xs.map f).sum = xs.countP (fun l => 0 < f l) := by
  induction xs with
  | nil => rfl
  | cons y ys ih =>
    have hy := h y List.mem_cons_self
    have hys := ih fun l hl => h l (List.mem_cons_of_mem y hl)
    rw [List.map_cons, List.sum_cons, List.countP_cons]
    obtain hy | hy := hy
    · simp [hy, hys]
    · simp [hy, hys]
      omega

theorem set_of_sum_eq_count {xs : List L} (h : ∀ l ∈ xs, f l = 0 ∨ f l = 1) (j : ℕ) {l l' : L} (hl : xs[j]? = some l)
    (heq : ((xs.set j l').map f).sum = (xs.set j l').countP (fun l => 0 < f l)) : f l' = 0 ∨ f l' = 1 := by
  induction xs generalizing j with
  | nil => simp at hl
  | cons y ys ih =>
    have hys : ∀ l ∈ ys, f l = 0 ∨ f l = 1 := fun l hl => h l (List.mem_cons_of_mem y hl)
    cases j with
    | zero =>
      have hcount := sum_eq_count f hys
      simp only [List.set_cons_zero, List.map_cons, List.sum_cons, List.countP_cons, hcount] at heq
      push_cast at heq
      by_cases hpos : 0 < f l'
      · simp only [hpos, decide_true, if_true] at heq
        omega
      · simp only [hpos, decide_false, Bool.false_eq_true, if_false] at heq
        omega
    | succ j =>
      refine ih hys j (by simpa using hl) ?_
      simp only [List.set_cons_succ, List.map_cons, List.sum_cons, List.countP_cons] at heq
      push_cast at heq
      obtain hy | hy := h y List.mem_cons_self
      · simp only [hy, lt_irrefl, decide_false, Bool.false_eq_true, if_false] at heq
        omega
      · simp only [hy, zero_lt_one, decide_true, if_true] at heq
        omega

theorem sum_set_lt {g : L → ℕ} {xs : List L} {j : ℕ} {l l' : L} (hl : xs[j]? = some l) (h : g l' < g l) :
    ((xs.set j l').map g).sum < (xs.map g).sum := by
  induction xs generalizing j with
  | nil => simp at hl
  | cons y ys ih =>
    cases j with
    | zero =>
      simp only [List.getElem?_cons_zero, Option.some.injEq] at hl
      subst hl
      simpa using h
    | succ j =>
      have hj := ih (by simpa using hl)
      simpa using hj

end Tally

end OpenMigrate.Async
