import Mathlib.Data.List.Basic
import Mathlib.Data.Nat.Notation

namespace OpenMigrate.Joined

variable {α : Type} [DecidableEq α] {sep : α} {begins : List α → Bool}

section Intercalate

omit [DecidableEq α]

theorem intercalate_cons {part : List α} {parts : List (List α)} (h : parts ≠ []) :
    [sep].intercalate (part :: parts) = part ++ sep :: [sep].intercalate parts := by
  rw [List.intercalate_cons_of_ne_nil h, List.append_assoc, List.singleton_append]

theorem intercalate_append {parts parts' : List (List α)} (h : parts ≠ []) (h' : parts' ≠ []) :
    [sep].intercalate (parts ++ parts') = [sep].intercalate parts ++ sep :: [sep].intercalate parts' := by
  induction parts with
  | nil => exact absurd rfl h
  | cons part parts ih =>
    by_cases hparts : parts = []
    · rw [hparts, List.singleton_append, intercalate_cons h', List.intercalate_singleton]
    · rw [List.cons_append, intercalate_cons (List.append_ne_nil_of_left_ne_nil hparts _), ih hparts,
        intercalate_cons hparts, List.append_assoc, List.cons_append]

theorem intercalate_eq_nil {parts : List (List α)} (h : ∀ part ∈ parts, part ≠ []) :
    [sep].intercalate parts = [] ↔ parts = [] := by
  cases parts with
  | nil => simp
  | cons part parts =>
    rw [List.forall_mem_cons] at h
    constructor
    · intro hjoin
      by_cases hparts : parts = []
      · rw [hparts, List.intercalate_singleton] at hjoin
        exact absurd hjoin h.1
      · rw [intercalate_cons hparts] at hjoin
        exact absurd (List.append_eq_nil_iff.mp hjoin).1 h.1
    · intro hcons
      cases hcons

end Intercalate

section Cut

/-- A text, cut at the separators behind which a piece begins. -/
def cut (sep : α) (begins : List α → Bool) : List α → List (List α)
  | [] => [[]]
  | c :: rest =>
    if c = sep ∧ begins rest = true then [] :: cut sep begins rest
    else (cut sep begins rest).modifyHead (c :: ·)

/-- Where a piece begins is seen before the next separator. -/
def SeenBefore (sep : α) (begins : List α → Bool) : Prop :=
  ∀ text rest, begins (text ++ sep :: rest) = begins text

variable {text rest : List α} {texts texts' : List (List α)}

theorem cut_ne_nil (sep : α) (begins : List α → Bool) (text : List α) : cut sep begins text ≠ [] := by
  induction text with
  | nil => exact List.cons_ne_nil _ _
  | cons c text ih =>
    rw [cut]
    split
    · exact List.cons_ne_nil _ _
    · rwa [ne_eq, List.modifyHead_eq_nil_iff]

theorem intercalate_cut (text : List α) : [sep].intercalate (cut sep begins text) = text := by
  induction text with
  | nil => rfl
  | cons c text ih =>
    rw [cut]
    split
    · rename_i h
      rw [intercalate_cons (cut_ne_nil sep begins text), ih, h.1, List.nil_append]
    · obtain ⟨piece, pieces, hcut⟩ := List.exists_cons_of_ne_nil (cut_ne_nil sep begins text)
      rw [hcut] at ih ⊢
      rw [List.modifyHead_cons, List.intercalate_cons_cons_left, ih]

theorem cut_append (hseen : SeenBefore sep begins) (hrest : begins rest = true) (text : List α) :
    cut sep begins (text ++ sep :: rest) = cut sep begins text ++ cut sep begins rest := by
  induction text with
  | nil =>
    have hcut : cut sep begins (sep :: rest) = [] :: cut sep begins rest := by rw [cut, if_pos ⟨rfl, hrest⟩]
    exact hcut
  | cons c text ih =>
    rw [List.cons_append, cut, hseen, ih, cut]
    split
    · rfl
    · obtain ⟨piece, pieces, hcut⟩ := List.exists_cons_of_ne_nil (cut_ne_nil sep begins text)
      rw [hcut, List.cons_append, List.modifyHead_cons, List.modifyHead_cons, List.cons_append]

theorem cut_intercalate (hseen : SeenBefore sep begins) (h : ∀ text ∈ texts, begins text = true) (hne : texts ≠ []) :
    cut sep begins ([sep].intercalate texts) = texts.flatMap (cut sep begins) := by
  induction texts with
  | nil => exact absurd rfl hne
  | cons text texts ih =>
    rw [List.forall_mem_cons] at h
    cases texts with
    | nil => rw [List.intercalate_singleton, List.flatMap_singleton]
    | cons next texts =>
      have hnext : begins ([sep].intercalate (next :: texts)) = true := by
        have hbegins := h.2 next List.mem_cons_self
        by_cases htexts : texts = []
        · rwa [htexts, List.intercalate_singleton]
        · rwa [intercalate_cons htexts, hseen]
      rw [intercalate_cons (List.cons_ne_nil _ _), cut_append hseen hnext, ih h.2 (List.cons_ne_nil _ _)]
      rfl

theorem intercalate_flatMap_cut (begins : List α → Bool) (texts : List (List α)) :
    [sep].intercalate (texts.flatMap (cut sep begins)) = [sep].intercalate texts := by
  induction texts with
  | nil => rfl
  | cons text texts ih =>
    cases texts with
    | nil => rw [List.flatMap_singleton, List.intercalate_singleton, intercalate_cut]
    | cons next texts =>
      have hne : (next :: texts).flatMap (cut sep begins) ≠ [] := by
        rw [List.flatMap_cons]
        exact List.append_ne_nil_of_left_ne_nil (cut_ne_nil sep begins next) _
      rw [List.flatMap_cons, intercalate_append (cut_ne_nil sep begins text) hne, ih, intercalate_cut,
        intercalate_cons (List.cons_ne_nil _ _)]

/-- Two joins are one text where both lists are cut into one list of pieces. -/
theorem intercalate_eq_iff (hseen : SeenBefore sep begins) (hnil : begins [] = false)
    (h : ∀ text ∈ texts, begins text = true) (h' : ∀ text ∈ texts', begins text = true) :
    [sep].intercalate texts = [sep].intercalate texts' ↔
      texts.flatMap (cut sep begins) = texts'.flatMap (cut sep begins) := by
  have hne : ∀ {texts : List (List α)}, (∀ text ∈ texts, begins text = true) → ∀ text ∈ texts, text ≠ [] := by
    rintro texts htexts text hmem rfl
    rw [htexts _ hmem] at hnil
    cases hnil
  constructor
  · intro hjoin
    by_cases hnone : texts = []
    · rw [hnone, List.intercalate_nil] at hjoin
      rw [hnone, (intercalate_eq_nil (hne h')).mp hjoin.symm]
    · have hsome : texts' ≠ [] := by
        rintro rfl
        exact hnone ((intercalate_eq_nil (hne h)).mp hjoin)
      rw [← cut_intercalate hseen h hnone, ← cut_intercalate hseen h' hsome, hjoin]
  · intro hcut
    rw [← intercalate_flatMap_cut begins texts, hcut, intercalate_flatMap_cut]

theorem cut_whole (h : ∀ before rest, text = before ++ sep :: rest → begins rest = false) :
    cut sep begins text = [text] := by
  induction text with
  | nil => rfl
  | cons c text ih =>
    have hc : ¬(c = sep ∧ begins text = true) := by
      rintro ⟨rfl, hbegins⟩
      rw [h [] text rfl] at hbegins
      cases hbegins
    have htext : cut sep begins text = [text] := by
      apply ih
      intro before rest hsplit
      apply h (c :: before) rest
      rw [hsplit, List.cons_append]
    rw [cut, if_neg hc, htext, List.modifyHead_cons]

theorem flatMap_cut_whole (h : ∀ text ∈ texts, cut sep begins text = [text]) :
    texts.flatMap (cut sep begins) = texts := by
  induction texts with
  | nil => rfl
  | cons text texts ih =>
    rw [List.forall_mem_cons] at h
    rw [List.flatMap_cons, h.1, ih h.2, List.singleton_append]

theorem isPrefixOf_append {head : List α} (h : sep ∉ head) (text rest : List α) :
    head.isPrefixOf (text ++ sep :: rest) = head.isPrefixOf text := by
  induction head generalizing text with
  | nil => rw [List.isPrefixOf_nil_left, List.isPrefixOf_nil_left]
  | cons c head ih =>
    rw [List.mem_cons, not_or] at h
    cases text with
    | nil =>
      rw [List.nil_append, List.isPrefixOf_cons_cons, beq_false_of_ne (Ne.symm h.1), Bool.false_and]
      rfl
    | cons d text => rw [List.cons_append, List.isPrefixOf_cons_cons, List.isPrefixOf_cons_cons, ih h.2]

end Cut

end OpenMigrate.Joined
