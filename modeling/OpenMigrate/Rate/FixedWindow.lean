import Mathlib.Algebra.Order.Group.Nat
import Mathlib.Data.List.Basic
import Mathlib.Tactic.Common

namespace OpenMigrate.FixedWindow

/-- The grants of one window so far, and when it was opened. -/
structure Window where
  count : ℕ
  startedAt : ℕ
  deriving DecidableEq

variable (length limit : ℕ)

def live (now : ℕ) (w : Window) : Bool := decide (now < w.startedAt + length)

/-- A window counts as long as it lasts. -/
def visible (w : Option Window) (now : ℕ) : Option Window := w.filter (live length now)

/-- A counter that opens a window with the first request it grants, and grants so many in each. -/
def take (w : Option Window) (now : ℕ) : Option Window × Bool :=
  match visible length w now with
  | none => (some ⟨1, now⟩, true)
  | some w => if limit ≤ w.count then (some w, false) else (some ⟨w.count + 1, w.startedAt⟩, true)

def decisions (w : Option Window) : List ℕ → List Bool
  | [] => []
  | now :: rest => (take length limit w now).2 :: decisions (take length limit w now).1 rest

def after (w : Option Window) : List ℕ → Option Window
  | [] => w
  | now :: rest => after (take length limit w now).1 rest

/-- What is granted, each with the opening of its window. -/
def grants (w : Option Window) : List ℕ → List (ℕ × ℕ)
  | [] => []
  | now :: rest =>
    match take length limit w now with
    | (some w, true) => (now, w.startedAt) :: grants (some w) rest
    | (w, _) => grants w rest

/-- A grant of the stretch of one length from `a` on. -/
def inside (a : ℕ) (g : ℕ × ℕ) : Bool := a ≤ g.1 && g.1 < a + length

/-- How a request is met: it opens a window, is refused in a full one, or is counted. -/
inductive Taken (w : Option Window) (now : ℕ) : Option Window × Bool → Prop
  | opens (h : ∀ v ∈ w, v.startedAt + length ≤ now) : Taken w now (some ⟨1, now⟩, true)
  | refused (v : Window) (hw : w = some v) (hlive : now < v.startedAt + length) (hfull : limit ≤ v.count) :
      Taken w now (some v, false)
  | counted (v : Window) (hw : w = some v) (hlive : now < v.startedAt + length) (hroom : v.count < limit) :
      Taken w now (some ⟨v.count + 1, v.startedAt⟩, true)

variable {length limit} {w : Option Window} {now : ℕ} {times : List ℕ}

variable (length limit) in
theorem take_taken (w : Option Window) (now : ℕ) : Taken length limit w now (take length limit w now) := by
  unfold take visible
  cases w with
  | none => exact .opens nofun
  | some v =>
    rw [Option.filter_some]
    by_cases hlive : live length now v = true
    · rw [if_pos hlive]
      dsimp only
      split
      · exact .refused v rfl (of_decide_eq_true hlive) ‹_›
      · exact .counted v rfl (of_decide_eq_true hlive) (not_le.mp ‹_›)
    · rw [if_neg hlive]
      refine .opens fun u hu => ?_
      obtain rfl := Option.some.inj hu
      simpa [live] using hlive

theorem take_visible (w : Option Window) (now : ℕ) :
    take length limit (visible length w now) now = take length limit w now := by
  have hsame : visible length (visible length w now) now = visible length w now := by
    rw [visible, visible, Option.filter_filter]
    simp
  rw [take, hsame, take]

theorem visible_later {later : ℕ} (h : now ≤ later) {w w' : Option Window}
    (hsame : visible length w now = visible length w' now) : visible length w later = visible length w' later := by
  have hagain : ∀ w : Option Window, visible length w later = visible length (visible length w now) later := by
    intro w
    cases w with
    | none => rfl
    | some v =>
      rw [visible, visible, visible, Option.filter_some, Option.filter_some]
      by_cases hlive : live length now v = true
      · rw [if_pos hlive, Option.filter_some]
      · have hdead : ¬ live length later v = true := by
          simp only [live, decide_eq_true_eq] at hlive ⊢
          omega
        rw [if_neg hlive, if_neg hdead]
        rfl
  rw [hagain w, hagain w', hsame]

/-- A window that the next requests may be counted in was opened before them. -/
def Opened (w : Option Window) (times : List ℕ) : Prop := ∀ v ∈ w, ∀ t ∈ times, v.startedAt ≤ t

theorem opened_none (times : List ℕ) : Opened none times := fun v hv => by cases hv

theorem Opened.next (h : Opened w (now :: times)) (hsorted : (now :: times).Pairwise (· ≤ ·)) {r : Option Window × Bool}
    (hr : Taken length limit w now r) : Opened r.1 times := by
  have hlater := (List.pairwise_cons.mp hsorted).1
  cases hr with
  | opens _ =>
    intro u hu t ht
    obtain rfl := Option.some.inj hu
    exact hlater t ht
  | refused v hw _ _ =>
    intro u hu t ht
    exact h u (hw ▸ hu) t (List.mem_cons_of_mem _ ht)
  | counted v hw _ _ =>
    intro u hu t ht
    obtain rfl := Option.some.inj hu
    exact h v hw t (List.mem_cons_of_mem _ ht)

/-- The grants that follow a window are counted in it or come in a later one. -/
theorem grants_start {g : ℕ × ℕ} (hg : g ∈ grants length limit w times) :
    ∀ v ∈ w, g.2 = v.startedAt ∨ v.startedAt + length ≤ g.2 := by
  induction times generalizing w with
  | nil => cases hg
  | cons now rest ih =>
    intro v hv
    have htaken := take_taken length limit w now
    rw [grants] at hg
    generalize take length limit w now = r at htaken hg
    cases htaken with
    | opens h =>
      have hnow := h v hv
      obtain rfl | hg := List.mem_cons.mp hg
      · exact .inr hnow
      · obtain heq | hle := ih hg _ rfl
        · exact .inr (heq ▸ hnow)
        · dsimp only at hle
          omega
    | refused u hw _ _ => exact ih hg v (hw ▸ hv)
    | counted u hw _ _ =>
      obtain rfl : u = v := Option.some.inj (hw ▸ hv)
      obtain rfl | hg := List.mem_cons.mp hg
      · exact .inl rfl
      · exact ih hg ⟨u.count + 1, u.startedAt⟩ rfl

theorem after_start {v : Window} (hafter : after length limit w times = some v) :
    ∀ u ∈ w, v.startedAt = u.startedAt ∨ u.startedAt + length ≤ v.startedAt := by
  induction times generalizing w with
  | nil =>
    intro u hu
    obtain rfl : v = u := Option.some.inj (hafter.symm.trans hu)
    exact .inl rfl
  | cons now rest ih =>
    intro u hu
    have htaken := take_taken length limit w now
    rw [after] at hafter
    generalize take length limit w now = r at htaken hafter
    cases htaken with
    | opens h =>
      have hnow := h u hu
      obtain heq | hle := ih hafter _ rfl
      · exact .inr (heq ▸ hnow)
      · dsimp only at hle
        omega
    | refused v' hw _ _ => exact ih hafter u (hw ▸ hu)
    | counted v' hw _ _ =>
      obtain rfl : v' = u := Option.some.inj (hw ▸ hu)
      exact ih hafter ⟨v'.count + 1, v'.startedAt⟩ rfl

/-- A grant falls into its window. -/
theorem grants_within (hlength : 0 < length) (hopened : Opened w times) (hsorted : times.Pairwise (· ≤ ·)) {g : ℕ × ℕ}
    (hg : g ∈ grants length limit w times) : g.2 ≤ g.1 ∧ g.1 < g.2 + length := by
  induction times generalizing w with
  | nil => cases hg
  | cons now rest ih =>
    have htaken := take_taken length limit w now
    have hnext := hopened.next hsorted htaken
    rw [grants] at hg
    generalize take length limit w now = r at htaken hg hnext
    cases htaken with
    | opens _ =>
      obtain rfl | hg := List.mem_cons.mp hg
      · dsimp only
        omega
      · exact ih hnext hsorted.of_cons hg
    | refused v _ _ _ => exact ih hnext hsorted.of_cons hg
    | counted v hw hlive _ =>
      obtain rfl | hg := List.mem_cons.mp hg
      · exact ⟨hopened v hw now List.mem_cons_self, hlive⟩
      · exact ih hnext hsorted.of_cons hg

variable (length limit) in
theorem grants_ordered (w : Option Window) (times : List ℕ) :
    (grants length limit w times).Pairwise fun e f => f.2 = e.2 ∨ e.2 + length ≤ f.2 := by
  induction times generalizing w with
  | nil => exact .nil
  | cons now rest ih =>
    have htaken := take_taken length limit w now
    rw [grants]
    generalize take length limit w now = r at htaken
    cases htaken with
    | opens _ => exact List.pairwise_cons.mpr ⟨fun g hg => grants_start hg _ rfl, ih _⟩
    | refused v _ _ _ => exact ih _
    | counted v _ _ _ =>
      exact List.pairwise_cons.mpr ⟨fun g hg => grants_start hg ⟨v.count + 1, v.startedAt⟩ rfl, ih _⟩

/-- What a window has granted before. -/
def spent (w : Option Window) (s : ℕ) : ℕ := (w.map fun v => if v.startedAt = s then v.count else 0).getD 0

theorem countP_cons_start (t s s' : ℕ) (gs : List (ℕ × ℕ)) :
    ((t, s') :: gs).countP (fun g => g.2 = s) = gs.countP (fun g => g.2 = s) + if s' = s then 1 else 0 := by
  rw [List.countP_cons]
  congr 1
  simp

/-- In one window the counter grants no more than the limit. -/
theorem grants_count (hlength : 0 < length) (hlimit : 0 < limit) (s : ℕ) (hw : spent w s ≤ limit) :
    (grants length limit w times).countP (fun g => g.2 = s) + spent w s ≤ limit := by
  induction times generalizing w with
  | nil => simpa [grants] using hw
  | cons now rest ih =>
    have htaken := take_taken length limit w now
    rw [grants]
    generalize take length limit w now = r at htaken
    cases htaken with
    | opens h =>
      have hfirst : spent (some ⟨1, now⟩) s ≤ limit := by
        simp only [spent, Option.map_some, Option.getD_some]
        split <;> omega
      have hrest := ih hfirst
      simp only [spent, Option.map_some, Option.getD_some] at hrest
      dsimp only
      rw [countP_cons_start]
      by_cases hs : now = s
      · have hnone : spent w s = 0 := by
          cases w with
          | none => rfl
          | some v =>
            have hv := h v rfl
            have hne : v.startedAt ≠ s := by omega
            simp [spent, hne]
        rw [if_pos hs] at hrest ⊢
        omega
      · rw [if_neg hs] at hrest ⊢
        cases w with
        | none =>
          simp only [spent, Option.map_none, Option.getD_none]
          omega
        | some v =>
          by_cases hv : v.startedAt = s
          · have hzero : (grants length limit (some ⟨1, now⟩) rest).countP (fun g => g.2 = s) = 0 := by
              refine List.countP_eq_zero.mpr fun g hg => ?_
              have hstart := grants_start hg _ rfl
              have hnow := h v rfl
              simp only [decide_eq_true_eq]
              dsimp only at hstart
              omega
            omega
          · have hzero : spent (some v) s = 0 := by simp [spent, hv]
            omega
    | refused v hv _ _ =>
      subst hv
      exact ih hw
    | counted v hv _ hroom =>
      subst hv
      have hcase : spent (some ⟨v.count + 1, v.startedAt⟩) s ≤ limit := by
        simp only [spent, Option.map_some, Option.getD_some]
        split <;> omega
      have hrest := ih hcase
      simp only [spent, Option.map_some, Option.getD_some] at hrest ⊢
      rw [countP_cons_start]
      split <;> split at hrest <;> omega

/-- What a window counts are its grants. -/
theorem after_count (hlength : 0 < length) {v : Window} (hafter : after length limit w times = some v) :
    (grants length limit w times).countP (fun g => g.2 = v.startedAt) + spent w v.startedAt = v.count := by
  induction times generalizing w with
  | nil =>
    obtain rfl : w = some v := hafter
    simp [grants, spent]
  | cons now rest ih =>
    have htaken := take_taken length limit w now
    rw [after] at hafter
    rw [grants]
    generalize take length limit w now = r at htaken hafter
    cases htaken with
    | opens h =>
      have hrest := ih hafter
      have hstart := after_start hafter _ rfl
      have hnone : spent w v.startedAt = 0 := by
        cases w with
        | none => rfl
        | some u =>
          have hu := h u rfl
          have hne : u.startedAt ≠ v.startedAt := by
            dsimp only at hstart
            omega
          simp [spent, hne]
      simp only [spent, Option.map_some, Option.getD_some] at hrest
      dsimp only
      rw [countP_cons_start]
      omega
    | refused u hu _ _ =>
      subst hu
      exact ih hafter
    | counted u hu _ _ =>
      subst hu
      have hrest := ih hafter
      simp only [spent, Option.map_some, Option.getD_some] at hrest ⊢
      rw [countP_cons_start]
      split <;> split at hrest <;> omega

theorem countP_le_add {α : Type} {p q r : α → Bool} {l : List α} (h : ∀ x ∈ l, p x = true → q x = true ∨ r x = true) :
    l.countP p ≤ l.countP q + l.countP r := by
  induction l with
  | nil => exact le_rfl
  | cons x l ih =>
    have hx := h x List.mem_cons_self
    have hl := ih fun y hy => h y (List.mem_cons_of_mem _ hy)
    simp only [List.countP_cons]
    by_cases hp : p x = true
    · obtain hq | hr := hx hp
      · simp only [hp, hq, if_true]
        omega
      · simp only [hp, hr, if_true]
        omega
    · rw [if_neg hp]
      omega

/-- Whatever the times: no stretch of the window's length sees more than twice the limit granted. -/
theorem grants_window (hlength : 0 < length) (hlimit : 0 < limit) (hsorted : times.Pairwise (· ≤ ·)) (a : ℕ) :
    (grants length limit none times).countP (inside length a) ≤ 2 * limit := by
  have hwithin : ∀ g ∈ grants length limit none times, g.2 ≤ g.1 ∧ g.1 < g.2 + length :=
    fun g hg => grants_within hlength (opened_none times) hsorted hg
  have hcount : ∀ s, (grants length limit none times).countP (fun g => g.2 = s) ≤ limit := fun s =>
    grants_count (w := none) hlength hlimit s (Nat.zero_le _)
  have hordered := grants_ordered length limit none times
  generalize grants length limit none times = gs at hwithin hcount hordered ⊢
  -- what falls into the stretch comes from two windows at most: from a third, the second would be longer than it lasts
  have htwo : ∃ s s', ∀ g ∈ gs, inside length a g = true → g.2 = s ∨ g.2 = s' := by
    have hsub := hordered.filter (inside length a)
    cases hinside : gs.filter (inside length a) with
    | nil =>
      refine ⟨0, 0, fun g hg hin => ?_⟩
      have hmem := List.mem_filter.mpr ⟨hg, hin⟩
      rw [hinside] at hmem
      cases hmem
    | cons e rest =>
      rw [hinside, List.pairwise_cons] at hsub
      cases hothers : rest.filter fun g => g.2 ≠ e.2 with
      | nil =>
        refine ⟨e.2, e.2, fun g hg hin => .inl ?_⟩
        have hmem := List.mem_filter.mpr ⟨hg, hin⟩
        rw [hinside] at hmem
        obtain rfl | hmem := List.mem_cons.mp hmem
        · rfl
        · by_contra hne
          have hother : g ∈ rest.filter fun g => g.2 ≠ e.2 := List.mem_filter.mpr ⟨hmem, decide_eq_true hne⟩
          rw [hothers] at hother
          cases hother
      | cons f others =>
        have hpairs := hsub.2.filter fun g => g.2 ≠ e.2
        rw [hothers, List.pairwise_cons] at hpairs
        have hf : f ∈ rest ∧ f.2 ≠ e.2 := by
          have hmem := List.mem_filter.mp (hothers ▸ List.mem_cons_self : f ∈ rest.filter fun g => g.2 ≠ e.2)
          exact ⟨hmem.1, of_decide_eq_true hmem.2⟩
        have he : e ∈ gs ∧ inside length a e = true :=
          List.mem_filter.mp (hinside ▸ List.mem_cons_self)
        refine ⟨e.2, f.2, fun g hg hin => ?_⟩
        have hmem := List.mem_filter.mpr ⟨hg, hin⟩
        rw [hinside] at hmem
        obtain rfl | hmem := List.mem_cons.mp hmem
        · exact .inl rfl
        · by_cases hne : g.2 = e.2
          · exact .inl hne
          · have hother : g ∈ rest.filter fun g => g.2 ≠ e.2 := List.mem_filter.mpr ⟨hmem, decide_eq_true hne⟩
            rw [hothers] at hother
            obtain rfl | hother := List.mem_cons.mp hother
            · exact .inr rfl
            · obtain heq | hlater := hpairs.1 g hother
              · exact .inr heq
              · have hfirst := (hsub.1 f hf.1).resolve_left hf.2
                have heg := hwithin e he.1
                have hgg := hwithin g hg
                simp only [inside, Bool.and_eq_true, decide_eq_true_eq] at he hin
                omega
  obtain ⟨s, s', hcover⟩ := htwo
  have hsum := countP_le_add (p := inside length a) (q := fun g => g.2 = s) (r := fun g => g.2 = s')
    (l := gs) fun g hg hin => by simpa using hcover g hg hin
  have hs := hcount s
  have hs' := hcount s'
  omega

/-- A request is refused only where the limit was granted within the last length. -/
theorem refused_full (hlength : 0 < length) (hsorted : times.Pairwise (· ≤ ·))
    (hrefused : (take length limit (after length limit none times) now).2 = false) :
    limit ≤ (grants length limit none times).countP fun g => now < g.1 + length := by
  have htaken := take_taken length limit (after length limit none times) now
  generalize take length limit (after length limit none times) now = r at htaken hrefused
  cases htaken with
  | opens _ => cases hrefused
  | counted _ _ _ _ => cases hrefused
  | refused v hv hlive hfull =>
    have hcount := after_count hlength hv
    simp only [spent, Option.map_none, Option.getD_none, add_zero] at hcount
    rw [← hcount] at hfull
    refine hfull.trans (List.countP_mono_left fun g hg hstart => ?_)
    have hin := grants_within hlength (opened_none times) hsorted hg
    simp only [decide_eq_true_eq] at hstart ⊢
    omega

end OpenMigrate.FixedWindow
