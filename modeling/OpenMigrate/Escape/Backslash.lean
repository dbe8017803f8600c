import Mathlib.Data.List.Flatten
import Mathlib.Data.List.Infix
import Mathlib.Data.List.Nodup
import Mathlib.Data.Nat.Notation
import Mathlib.Tactic.Common

namespace OpenMigrate.Backslash

/-- `text.replace(/c/g, put)` for one character. -/
def replaceChar (c : Char) (put : List Char) (text : List Char) : List Char :=
  text.flatMap fun d => if d = c then put else [d]

/-- `text.replace(/\\p/g, put)`: a backslash and what `p` takes, read from the left. -/
def replaceEscape (p : Char → Bool) (put : Char) : List Char → List Char
  | '\\' :: c :: rest => if p c then put :: replaceEscape p put rest else '\\' :: replaceEscape p put (c :: rest)
  | c :: rest => c :: replaceEscape p put rest
  | [] => []

/-- What stands behind the backslash. -/
def letter (c : Char) : Char := if c = '\n' then 'n' else c

/-- The text with a backslash before each of these characters. -/
def escaped (left : List Char) (s : List Char) : List Char :=
  s.flatMap fun c => if c ∈ left then ['\\', letter c] else [c]

variable {p : Char → Bool} {put d : Char} {left s : List Char}

theorem escaped_cons (left : List Char) (c : Char) (s : List Char) :
    escaped left (c :: s) = (if c ∈ left then ['\\', letter c] else [c]) ++ escaped left s := rfl

theorem replaceEscape_cons {c : Char} (h : c ≠ '\\') (rest : List Char) :
    replaceEscape p put (c :: rest) = c :: replaceEscape p put rest := by
  rw [replaceEscape]
  intro _ _ hc
  exact absurd hc h

theorem replaceEscape_other {rest : List Char} (h : ∀ c ∈ rest.head?, p c = false) :
    replaceEscape p put ('\\' :: rest) = '\\' :: replaceEscape p put rest := by
  cases rest with
  | nil => rfl
  | cons c rest =>
    rw [replaceEscape, if_neg]
    rw [h c rfl]
    exact Bool.false_ne_true

theorem replaceEscape_found {c : Char} (h : p c = true) (rest : List Char) :
    replaceEscape p put ('\\' :: c :: rest) = put :: replaceEscape p put rest := by
  rw [replaceEscape, if_pos h]

/-- What the pattern takes of the characters that have a backslash is the letter of `d` alone. -/
structure Decodes (p : Char → Bool) (d : Char) (left : List Char) : Prop where
  nodup : d ∉ left
  takes : p (letter d) = true
  leaves : ∀ c ∈ left, p (letter c) = false

theorem letter_eq_backslash {c : Char} (h : letter c = '\\') : c = '\\' := by
  rw [letter] at h
  split at h
  · cases h
  · exact h

/-- Decoding one of several escapes, where no backslash of the text stands before what its pattern takes. -/
theorem replaceEscape_escaped (h : Decodes p d left) (hslash : '\\' ∈ d :: left)
    (hslip : ∀ c, '\\' ∈ left → p c = true → c ∉ d :: left → ¬ ['\\', c] <:+: s) :
    replaceEscape p d (escaped (d :: left) s) = escaped left s := by
  induction s with
  | nil => rfl
  | cons c s ih =>
    have htail := ih fun c' hleft hp hc hin => hslip c' hleft hp hc (hin.trans (List.suffix_cons c s).isInfix)
    rw [escaped_cons, escaped_cons]
    by_cases hd : c = d
    · rw [hd, if_pos List.mem_cons_self, if_neg h.nodup, List.cons_append, List.cons_append, List.nil_append,
        replaceEscape_found h.takes, htail]
      rfl
    · by_cases hc : c ∈ left
      · rw [if_pos (List.mem_cons_of_mem d hc), if_pos hc, List.cons_append, List.cons_append, List.nil_append,
          replaceEscape_other, List.cons_append, List.cons_append, List.nil_append]
        · congr 1
          by_cases hbackslash : letter c = '\\'
          · rw [hbackslash, replaceEscape_other, htail]
            intro e he
            have hself := letter_eq_backslash hbackslash
            cases s with
            | nil => cases he
            | cons c' s =>
              rw [escaped_cons] at he
              by_cases hc' : c' ∈ d :: left
              · rw [if_pos hc'] at he
                cases he
                rw [← hbackslash]
                exact h.leaves c hc
              · rw [if_neg hc'] at he
                cases he
                by_contra hp
                apply hslip e (hself ▸ hc) (by simpa using hp) hc'
                exact ⟨[], s, by rw [hself]; rfl⟩
          · rw [replaceEscape_cons hbackslash, htail]
        · intro e he
          cases he
          exact h.leaves c hc
      · rw [if_neg hc, if_neg (List.not_mem_cons_of_ne_of_not_mem hd hc), List.singleton_append, List.singleton_append,
          replaceEscape_cons, htail]
        rintro rfl
        exact List.not_mem_cons_of_ne_of_not_mem hd hc hslash

theorem replaceChar_flatMap (c : Char) (put : List Char) (f : Char → List Char) (s : List Char) :
    replaceChar c put (s.flatMap f) = s.flatMap fun d => replaceChar c put (f d) := List.flatMap_assoc

theorem escaped_nil (s : List Char) : escaped [] s = s := by
  induction s with
  | nil => rfl
  | cons c s ih =>
    rw [escaped_cons, ih]
    rfl

end OpenMigrate.Backslash
