import Mathlib.Data.List.Perm.Subperm
import Mathlib.Data.List.Count
import Mathlib.Tactic.Common

namespace OpenMigrate.Matching

variable {α β κ : Type} [DecidableEq β] [DecidableEq κ] (f : α → κ) (g : β → κ)

/-- Each element takes the first one left that has its key. -/
def greedy : List α → List β → List (α × β)
  | [], _ => []
  | a :: as, bs =>
    match bs.find? fun b => g b = f a with
    | some b => (a, b) :: greedy as (bs.erase b)
    | none => greedy as bs

/-- The elements for which none is left. -/
def unmatched : List α → List β → List α
  | [], _ => []
  | a :: as, bs =>
    match bs.find? fun b => g b = f a with
    | some b => unmatched as (bs.erase b)
    | none => a :: unmatched as bs

/-- Pairs of one element each, with equal keys. -/
structure IsMatching (as : List α) (bs : List β) (ps : List (α × β)) : Prop where
  left : (ps.map Prod.fst).Subperm as
  right : (ps.map Prod.snd).Subperm bs
  keys : ∀ p ∈ ps, g p.2 = f p.1

variable {f g}

omit [DecidableEq β] in
theorem find?_key {bs : List β} {k : κ} {b : β} (h : (bs.find? fun b => g b = k) = some b) : b ∈ bs ∧ g b = k :=
  ⟨List.mem_of_find?_eq_some h, by simpa using List.find?_some h⟩

theorem greedy_sublist (as : List α) (bs : List β) : ((greedy f g as bs).map Prod.fst).Sublist as := by
  induction as generalizing bs with
  | nil => exact List.Sublist.refl _
  | cons a as ih =>
    rw [greedy]
    split
    · exact (ih _).cons_cons a
    · exact (ih bs).cons a

theorem greedy_subperm (as : List α) (bs : List β) : ((greedy f g as bs).map Prod.snd).Subperm bs := by
  induction as generalizing bs with
  | nil => exact List.nil_subperm
  | cons a as ih =>
    rw [greedy]
    split
    · rename_i b hfind
      obtain ⟨hmem, -⟩ := find?_key hfind
      have hcons : (b :: (greedy f g as (bs.erase b)).map Prod.snd).Subperm (b :: bs.erase b) :=
        (List.subperm_cons b).mpr (ih _)
      exact (List.perm_cons_erase hmem).symm.subperm_left.mp hcons
    · exact ih bs

theorem greedy_keys (as : List α) (bs : List β) : ∀ p ∈ greedy f g as bs, g p.2 = f p.1 := by
  induction as generalizing bs with
  | nil => exact fun p hp => nomatch hp
  | cons a as ih =>
    rw [greedy]
    split
    · rename_i b hfind
      intro p hp
      obtain rfl | hp := List.mem_cons.mp hp
      · exact (find?_key hfind).2
      · exact ih _ p hp
    · exact ih bs

theorem greedy_isMatching (as : List α) (bs : List β) : IsMatching f g as bs (greedy f g as bs) :=
  ⟨(greedy_sublist as bs).subperm, greedy_subperm as bs, greedy_keys as bs⟩

theorem matched_perm (as : List α) (bs : List β) :
    ((greedy f g as bs).map Prod.fst ++ unmatched f g as bs).Perm as := by
  induction as generalizing bs with
  | nil => exact List.Perm.refl _
  | cons a as ih =>
    rw [greedy, unmatched]
    split
    · exact (ih _).cons a
    · exact List.perm_middle.trans ((ih bs).cons a)

theorem countP_erase_key {bs : List β} {b : β} (hmem : b ∈ bs) (k : κ) :
    bs.countP (fun b => g b = k) = (bs.erase b).countP (fun b => g b = k) + if g b = k then 1 else 0 := by
  rw [(List.perm_cons_erase hmem).countP_eq, List.countP_cons]
  simp

/-- Of the pairs with one key there are as many as the fewer of the elements that have it. -/
theorem greedy_count (as : List α) (bs : List β) (k : κ) :
    (greedy f g as bs).countP (fun p => f p.1 = k) =
      min (as.countP fun a => f a = k) (bs.countP fun b => g b = k) := by
  induction as generalizing bs with
  | nil => simp [greedy]
  | cons a as ih =>
    rw [greedy]
    split
    · rename_i b hfind
      obtain ⟨hmem, hkey⟩ := find?_key hfind
      rw [List.countP_cons, ih, List.countP_cons, countP_erase_key hmem k, hkey]
      by_cases hk : f a = k
      · simp [hk]
      · simp [hk]
    · rename_i hnone
      rw [ih, List.countP_cons]
      by_cases hk : f a = k
      · have hzero : bs.countP (fun b => g b = k) = 0 := by
          rw [List.countP_eq_zero]
          intro b hb
          have hno := List.find?_eq_none.mp hnone b hb
          rwa [hk] at hno
        rw [hzero, Nat.min_zero, Nat.min_zero]
      · simp [hk]

omit [DecidableEq β] in
theorem isMatching_count {as : List α} {bs : List β} {ps : List (α × β)} (h : IsMatching f g as bs ps) (k : κ) :
    ps.countP (fun p => f p.1 = k) ≤ min (as.countP fun a => f a = k) (bs.countP fun b => g b = k) := by
  apply Nat.le_min.mpr
  constructor
  · have hleft := h.left.countP_le (fun a => f a = k)
    rwa [List.countP_map] at hleft
  · have hright := h.right.countP_le (fun b => g b = k)
    rw [List.countP_map] at hright
    have hsame : ps.countP (fun p => f p.1 = k) = ps.countP ((fun b => decide (g b = k)) ∘ Prod.snd) := by
      apply List.countP_congr
      intro p hp
      simp [h.keys p hp]
    rwa [hsame]

/-- No one-to-one matching by key has more pairs. -/
theorem greedy_maximum {as : List α} {bs : List β} {ps : List (α × β)} (h : IsMatching f g as bs ps) :
    ps.length ≤ (greedy f g as bs).length := by
  have hsub : (ps.map fun p => f p.1).Subperm ((greedy f g as bs).map fun p => f p.1) := by
    rw [List.subperm_ext_iff]
    intro k _
    have hcount : ∀ l : List (α × β), (l.map fun p => f p.1).count k = l.countP (fun p => f p.1 = k) := by
      intro l
      rw [List.count, List.countP_map]
      rfl
    rw [hcount, hcount, greedy_count]
    exact isMatching_count h k
  simpa using hsub.length_le

end OpenMigrate.Matching
