import OpenMigrate.Escape.Backslash
import OpenMigrate.Text
import Mathlib.Data.List.Count

namespace OpenMigrate.VCardText

open Backslash

section Source

/-- `GraphContactsSource.escapeVCardValue` -/
def escapeVCardValue (value : List Char) : List Char :=
  if value = [] then []
  else
    replaceChar '\r' [] (replaceChar '\n' ['\\', 'n'] (replaceChar ',' ['\\', ',']
      (replaceChar ';' ['\\', ';'] (replaceChar '\\' ['\\', '\\'] value))))

/-- A line end, with a carriage return before it or none, that white space follows. -/
def foldsHere : List Char → Bool
  | '\n' :: c :: _ => whiteSpace c
  | '\r' :: '\n' :: c :: _ => whiteSpace c
  | _ => false

/-- `str.replace(/\r?\n\s+/g, '')`; behind the line end of a fold its white space is passed over. -/
def unfoldFrom : Bool → List Char → List Char
  | _, [] => []
  | skipping, c :: rest =>
    if skipping && whiteSpace c then unfoldFrom true rest
    else if foldsHere (c :: rest) then unfoldFrom (c = '\n') rest
    else c :: unfoldFrom false rest

/-- What `n` takes in a pattern that ignores case. -/
def isLetterN (c : Char) : Bool := c == 'n' || c == 'N'

/-- `CarddavSource.unfoldAndDecode` -/
def unfoldAndDecode (str : List Char) : List Char :=
  replaceEscape (· = '\\') '\\' (replaceEscape (· = ';') ';' (replaceEscape (· = ',') ','
    (replaceEscape isLetterN '\n' (unfoldFrom false str))))

/-- The value of a text in which each escape is decoded once. -/
def decodeOnce : List Char → List Char
  | '\\' :: c :: rest =>
    (if c = 'n' ∨ c = 'N' then ['\n'] else if c ∈ ['\\', ',', ';'] then [c] else ['\\', c]) ++ decodeOnce rest
  | c :: rest => c :: decodeOnce rest
  | [] => []

end Source

section Exact

variable {s : List Char}

/-- A text comes back from its escaped form, each escape of which is decoded once. -/
structure Survives (s : List Char) : Prop where
  back : unfoldAndDecode (escapeVCardValue s) = s
  once : unfoldAndDecode (escapeVCardValue s) = decodeOnce (escapeVCardValue s)

def specials : List Char := ['\n', ',', ';', '\\']

theorem escapeVCardValue_eq (s : List Char) :
    escapeVCardValue s = escaped specials (s.filter (· ≠ '\r')) := by
  rw [escapeVCardValue]
  split
  · rename_i hempty
    rw [hempty]
    rfl
  · clear * -
    simp only [replaceChar]
    induction s with
    | nil => rfl
    | cons c s ih =>
      simp only [List.flatMap_cons, List.flatMap_append, ih]
      by_cases hslash : c = '\\'
      · subst hslash
        rfl
      by_cases hsemi : c = ';'
      · subst hsemi
        rfl
      by_cases hcomma : c = ','
      · subst hcomma
        rfl
      by_cases hline : c = '\n'
      · subst hline
        rfl
      by_cases hcr : c = '\r'
      · subst hcr
        rfl
      simp [hslash, hsemi, hcomma, hline, hcr, escaped_cons, specials]

theorem unfoldFrom_id (h : '\n' ∉ s) : unfoldFrom false s = s := by
  induction s with
  | nil => rfl
  | cons c s ih =>
    have hfolds : foldsHere (c :: s) = false := by
      unfold foldsHere
      split
      · rename_i hcons
        rw [hcons] at h
        exact absurd List.mem_cons_self h
      · rename_i hcons
        rw [hcons] at h
        exact absurd (List.mem_cons_of_mem _ List.mem_cons_self) h
      · rfl
    rw [unfoldFrom, hfolds, ih fun hmem => h (List.mem_cons_of_mem c hmem)]
    rfl

theorem isLetterN_ne {c : Char} (h : isLetterN c = true) : c ∉ specials ∧ c ≠ '\r' := by
  rw [isLetterN, Bool.or_eq_true, beq_iff_eq, beq_iff_eq] at h
  obtain rfl | rfl := h
  · decide
  · decide

theorem newline_not_escaped (s : List Char) : '\n' ∉ escaped specials s := by
  intro hmem
  obtain ⟨c, -, hc⟩ := List.mem_flatMap.mp hmem
  by_cases hspecial : c ∈ specials
  · rw [if_pos hspecial] at hc
    simp only [specials, List.mem_cons, List.not_mem_nil, or_false] at hspecial
    obtain rfl | rfl | rfl | rfl := hspecial <;> simp [letter] at hc
  · rw [if_neg hspecial, List.mem_singleton] at hc
    exact hspecial (hc ▸ List.mem_cons_self)

theorem decodes_newline : Decodes isLetterN '\n' [',', ';', '\\'] := ⟨by decide, rfl, by simp [letter, isLetterN]⟩

theorem decodes_comma : Decodes (· = ',') ',' [';', '\\'] := ⟨by decide, rfl, by simp [letter]⟩

theorem decodes_semicolon : Decodes (· = ';') ';' ['\\'] := ⟨by decide, rfl, by simp [letter]⟩

theorem decodes_backslash : Decodes (· = '\\') '\\' [] := ⟨by decide, rfl, by simp⟩

theorem unfoldAndDecode_escaped (h : ∀ c, isLetterN c = true → ¬ ['\\', c] <:+: s) :
    unfoldAndDecode (escaped specials s) = s := by
  rw [unfoldAndDecode, unfoldFrom_id (newline_not_escaped s), specials,
    replaceEscape_escaped decodes_newline (by decide) fun c _ hc _ => h c hc,
    replaceEscape_escaped decodes_comma (by decide), replaceEscape_escaped decodes_semicolon (by decide),
    replaceEscape_escaped decodes_backslash (by decide), escaped_nil]
  · intro c hleft
    cases hleft
  · intro c _ hc hnot
    rw [of_decide_eq_true hc] at hnot
    exact absurd List.mem_cons_self hnot
  · intro c _ hc hnot
    rw [of_decide_eq_true hc] at hnot
    exact absurd List.mem_cons_self hnot

theorem decodeOnce_escaped (s : List Char) : decodeOnce (escaped specials s) = s := by
  induction s with
  | nil => rfl
  | cons c s ih =>
    rw [escaped_cons]
    by_cases hc : c ∈ specials
    · rw [if_pos hc, List.cons_append, List.cons_append, List.nil_append, decodeOnce, ih]
      simp only [specials, List.mem_cons, List.not_mem_nil, or_false] at hc
      obtain rfl | rfl | rfl | rfl := hc <;> rfl
    · rw [if_neg hc, List.singleton_append, decodeOnce, ih]
      intro _ _ hslash
      rw [hslash] at hc
      exact absurd (by decide) hc

/-- How often a backslash stands before an n. -/
def slips : List Char → ℕ
  | [] => 0
  | c :: rest => (if c = '\\' ∧ rest.head?.any isLetterN = true then 1 else 0) + slips rest

theorem slips_pos {c : Char} (hc : isLetterN c = true) (h : ['\\', c] <:+: s) : 0 < slips s := by
  obtain ⟨front, back, rfl⟩ := h
  induction front with
  | nil =>
    rw [List.nil_append, List.cons_append, slips, if_pos ⟨rfl, by simpa using hc⟩]
    omega
  | cons d front ih =>
    rw [List.cons_append, List.cons_append, slips]
    omega

theorem letter_not_n {c : Char} (hc : c ∈ specials) (hne : c ≠ '\n') : letter c = c ∧ isLetterN c = false := by
  refine ⟨if_neg hne, ?_⟩
  by_contra hn
  exact (isLetterN_ne (by simpa using hn)).1 hc

theorem count_newline (s : List Char) :
    (replaceEscape isLetterN '\n' (escaped specials s)).count '\n' = s.count '\n' + slips s := by
  induction s with
  | nil => rfl
  | cons c s ih =>
    rw [escaped_cons, slips]
    by_cases hc : c ∈ specials
    · rw [if_pos hc, List.cons_append, List.cons_append, List.nil_append]
      by_cases hline : c = '\n'
      · subst hline
        rw [replaceEscape_found rfl, List.count_cons_self, List.count_cons_self, ih, if_neg (by simp)]
        omega
      · obtain ⟨hletter, hn⟩ := letter_not_n hc hline
        rw [hletter, replaceEscape_other (by simpa using hn), List.count_cons_of_ne (by decide),
          List.count_cons_of_ne hline]
        by_cases hslash : c = '\\'
        · subst hslash
          cases s with
          | nil => rfl
          | cons d s =>
            by_cases hd : isLetterN d = true
            · have hplain : replaceEscape isLetterN '\n' (escaped specials (d :: s)) =
                  d :: replaceEscape isLetterN '\n' (escaped specials s) := by
                rw [escaped_cons, if_neg (isLetterN_ne hd).1, List.singleton_append, replaceEscape_cons]
                rintro rfl
                cases hd
              have hd' : d ≠ '\n' := by
                rintro rfl
                cases hd
              rw [hplain, List.count_cons_of_ne hd'] at ih
              rw [escaped_cons, if_neg (isLetterN_ne hd).1, List.singleton_append, replaceEscape_found hd,
                List.count_cons_self, ih, if_pos ⟨rfl, by simpa using hd⟩]
              omega
            · rw [replaceEscape_other, List.count_cons_of_ne (by decide), ih, if_neg (by simpa using hd)]
              · omega
              · intro e he
                rw [escaped_cons] at he
                split at he
                · cases he
                  rfl
                · cases he
                  simpa using hd
        · rw [replaceEscape_cons hslash, List.count_cons_of_ne hline, ih, if_neg fun h => hslash h.1]
          omega
    · have hslash : c ≠ '\\' := by
        rintro rfl
        exact hc (by decide)
      have hline : c ≠ '\n' := by
        rintro rfl
        exact hc (by decide)
      rw [if_neg hc, List.singleton_append, replaceEscape_cons hslash, List.count_cons_of_ne hline,
        List.count_cons_of_ne hline, ih, if_neg fun h => hslash h.1]
      omega

theorem count_kept {c : Char} (hc : c ≠ '\n') (s : List Char) :
    (replaceEscape (· = c) c s).count '\n' = s.count '\n' := by
  fun_induction replaceEscape (· = c) c s with
  | case1 d rest hd ih =>
    have hd' : d ≠ '\n' := by
      rintro rfl
      exact hc (of_decide_eq_true hd).symm
    rw [List.count_cons_of_ne hc, ih, List.count_cons_of_ne (by decide), List.count_cons_of_ne hd']
  | case2 d rest hd ih => rw [List.count_cons, ih, ← List.count_cons]
  | case3 d rest hne ih => rw [List.count_cons, List.count_cons, ih]
  | case4 => rfl

theorem mem_replaceEscape {p : Char → Bool} {put c : Char} (h : c ∈ replaceEscape p put s) : c = put ∨ c ∈ s := by
  fun_induction replaceEscape p put s with
  | case1 d rest hd ih =>
    obtain rfl | h := List.mem_cons.mp h
    · exact .inl rfl
    · exact (ih h).imp_right fun hrest => List.mem_cons_of_mem _ (List.mem_cons_of_mem _ hrest)
  | case2 d rest hd ih =>
    obtain rfl | h := List.mem_cons.mp h
    · exact .inr List.mem_cons_self
    · exact (ih h).imp_right fun hrest => List.mem_cons_of_mem _ hrest
  | case3 d rest hne ih =>
    obtain rfl | h := List.mem_cons.mp h
    · exact .inr List.mem_cons_self
    · exact (ih h).imp_right fun hrest => List.mem_cons_of_mem _ hrest
  | case4 => cases h

theorem filter_return (h : '\r' ∉ s) : s.filter (· ≠ '\r') = s := by
  apply List.filter_eq_self.mpr
  intro c hc
  apply decide_eq_true
  rintro rfl
  exact h hc

theorem carriageReturn_lost (h : '\r' ∈ unfoldAndDecode (escapeVCardValue s)) : False := by
  rw [escapeVCardValue_eq, unfoldAndDecode, unfoldFrom_id (newline_not_escaped _)] at h
  have hmem : '\r' ∈ escaped specials (s.filter (· ≠ '\r')) := by
    obtain h | h := mem_replaceEscape h
    · cases h
    obtain h | h := mem_replaceEscape h
    · cases h
    obtain h | h := mem_replaceEscape h
    · cases h
    obtain h | h := mem_replaceEscape h
    · cases h
    exact h
  obtain ⟨c, hc, hmem⟩ := List.mem_flatMap.mp hmem
  have hne : c ≠ '\r' := of_decide_eq_true (List.mem_filter.mp hc).2
  split at hmem
  · rename_i hspecial
    simp only [specials, List.mem_cons, List.not_mem_nil, or_false] at hspecial
    obtain rfl | rfl | rfl | rfl := hspecial <;> simp [letter] at hmem
  · exact hne (List.mem_singleton.mp hmem).symm

/-- A text survives exactly if it has no carriage return and no backslash before an n. -/
theorem survives_iff (s : List Char) :
    Survives s ↔ '\r' ∉ s ∧ ¬ ['\\', 'n'] <:+: s ∧ ¬ ['\\', 'N'] <:+: s := by
  constructor
  · rintro ⟨hback, -⟩
    have hreturn : '\r' ∉ s := by
      intro hmem
      rw [← hback] at hmem
      exact carriageReturn_lost hmem
    have hfilter := filter_return hreturn
    have hslips : slips s = 0 := by
      have hcount := congrArg (List.count '\n') hback
      rw [escapeVCardValue_eq, hfilter, unfoldAndDecode, unfoldFrom_id (newline_not_escaped _), count_kept (by decide),
        count_kept (by decide), count_kept (by decide), count_newline] at hcount
      omega
    refine ⟨hreturn, ?_, ?_⟩
    · intro hinfix
      exact absurd (slips_pos rfl hinfix) (by omega)
    · intro hinfix
      exact absurd (slips_pos rfl hinfix) (by omega)
  · rintro ⟨hreturn, hsmall, hlarge⟩
    have hfilter := filter_return hreturn
    have hback : unfoldAndDecode (escapeVCardValue s) = s := by
      rw [escapeVCardValue_eq, hfilter]
      apply unfoldAndDecode_escaped
      intro c hc
      rw [isLetterN, Bool.or_eq_true, beq_iff_eq, beq_iff_eq] at hc
      obtain rfl | rfl := hc
      · exact hsmall
      · exact hlarge
    refine ⟨hback, ?_⟩
    rw [hback, escapeVCardValue_eq, hfilter]
    exact (decodeOnce_escaped s).symm

/-- A backslash before an n comes back as a backslash and a line end. -/
theorem folder_name_broken :
    unfoldAndDecode (escapeVCardValue "C:\\new".toList) = "C:\\\new".toList ∧ ¬ Survives "C:\\new".toList := by
  have hread : unfoldAndDecode (escapeVCardValue "C:\\new".toList) = "C:\\\new".toList := by decide
  refine ⟨hread, ?_⟩
  rintro ⟨hback, -⟩
  rw [hread] at hback
  exact absurd hback (by decide)

end Exact

end OpenMigrate.VCardText
