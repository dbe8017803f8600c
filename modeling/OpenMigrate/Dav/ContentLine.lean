import OpenMigrate.Dav.Unfold

namespace OpenMigrate.Dav

section Grammar

/-- What the names of groups, properties and parameters are made of. -/
def isNameChar (c : Char) : Bool := c.isAlphanum || c == '-'

structure Name where
  chars : List Char
  ne_nil : chars ≠ []
  chars_name : ∀ c ∈ chars, isNameChar c = true

/-- A parameter value, as it is or between quotation marks. -/
inductive ParamValue where
  | plain (text : List Char) (h : ∀ c ∈ text, isTerminator c = false ∧ c ∉ ['"', ';', ':', ','])
  | quoted (text : List Char) (h : ∀ c ∈ text, isTerminator c = false ∧ c ≠ '"')

def ParamValue.chars : ParamValue → List Char
  | plain text _ => text
  | quoted text _ => '"' :: (text ++ ['"'])

structure Param where
  name : Name
  values : List ParamValue

def Param.chars (p : Param) : List Char :=
  ';' :: (p.name.chars ++ '=' :: [','].intercalate (p.values.map ParamValue.chars))

/-- A content line, unfolded. -/
structure ContentLine where
  group : Option Name
  name : Name
  params : List Param
  value : List Char
  value_line : ∀ c ∈ value, isTerminator c = false

namespace ContentLine

variable (l : ContentLine)

def groupChars : List Char := (l.group.map fun g => g.chars ++ ['.']).getD []

def paramChars : List Char := l.params.flatMap Param.chars

def head : List Char := l.groupChars ++ l.name.chars

def text : List Char := l.head ++ (l.paramChars ++ ':' :: l.value)

end ContentLine

/-- A content line as it stands in a body: folded, but not before its first character. -/
structure FoldedLine where
  line : ContentLine
  folding : Folding
  plain : folding.plain = line.text
  begins : ∀ e ∈ folding.head?, e.1 = none
  lineEnd : LineEnd

/-- A calendar object or a vCard; its last line may be left open. -/
structure Body where
  lines : List FoldedLine
  last : Option FoldedLine

namespace Body

variable (b : Body)

def all : List FoldedLine := b.lines ++ b.last.toList

/-- The lines one after the other, each shown by `f`. -/
def render (f : FoldedLine → List Char) (e : LineEnd → List Char) : List Char :=
  b.lines.flatMap (fun l => f l ++ e l.lineEnd) ++ b.last.toList.flatMap f

def text : List Char := b.render (fun l => l.folding.folded) LineEnd.chars

end Body

end Grammar

section Chars

variable {c : Char}

theorem isTerminator_of_isBreak (h : isBreak c = true) : isTerminator c = true := by
  simp only [isBreak, Bool.or_eq_true, beq_iff_eq] at h
  obtain rfl | rfl := h
  · rfl
  · rfl

theorem isNameChar_bounds (h : isNameChar c = true) : 45 ≤ c.toNat ∧ c.toNat ≤ 122 := by
  simp only [isNameChar, Char.isAlphanum, Bool.or_eq_true, beq_iff_eq] at h
  delta Char.isAlpha Char.isUpper Char.isLower Char.isDigit at h
  simp only [Bool.or_eq_true, Bool.and_eq_true, decide_eq_true_eq, UInt32.le_iff_toNat_le, ge_iff_le] at h
  have hval : c.val.toNat = c.toNat := rfl
  rw [hval] at h
  obtain ((⟨hlow, hhigh⟩ | ⟨hlow, hhigh⟩) | ⟨hlow, hhigh⟩) | rfl := h
  · exact ⟨le_trans (by decide) hlow, le_trans hhigh (by decide)⟩
  · exact ⟨le_trans (by decide) hlow, le_trans hhigh (by decide)⟩
  · exact ⟨le_trans (by decide) hlow, le_trans hhigh (by decide)⟩
  · decide

theorem isNameChar_plain (h : isNameChar c = true) :
    isTerminator c = false ∧ isBlank c = false ∧ c ≠ ':' ∧ c ≠ ';' ∧ c ≠ '.' := by
  have hne : ∀ d : Char, isNameChar d = false → c ≠ d := by
    rintro d hd rfl
    rw [hd] at h
    cases h
  constructor
  · obtain ⟨hlow, hhigh⟩ := isNameChar_bounds h
    rw [isTerminator, Bool.eq_false_iff]
    intro hmem
    simp only [List.contains_iff_mem, List.mem_cons, List.not_mem_nil, or_false] at hmem
    omega
  constructor
  · simp [isBlank, hne ' ' rfl, hne '\t' rfl]
  exact ⟨hne ':' rfl, hne ';' rfl, hne '.' rfl⟩

theorem ParamValue.chars_line {v : ParamValue} (h : c ∈ v.chars) : isTerminator c = false := by
  cases v with
  | plain text htext => exact (htext c h).1
  | quoted text htext =>
    simp only [ParamValue.chars, List.mem_cons, List.mem_append, List.not_mem_nil, or_false] at h
    obtain rfl | h | rfl := h
    · rfl
    · exact (htext c h).1
    · rfl

theorem Param.chars_line {p : Param} (h : c ∈ p.chars) : isTerminator c = false := by
  rw [Param.chars, List.mem_cons, List.mem_append, List.mem_cons] at h
  obtain rfl | h | rfl | h := h
  · rfl
  · exact (isNameChar_plain (p.name.chars_name c h)).1
  · rfl
  · obtain h | ⟨part, hpart, hc⟩ := mem_intercalate h
    · obtain rfl := List.mem_singleton.mp h
      rfl
    · obtain ⟨v, -, rfl⟩ := List.mem_map.mp hpart
      exact ParamValue.chars_line hc

theorem head_chars {l : ContentLine} (h : c ∈ l.head) : isNameChar c = true ∨ c = '.' := by
  rw [ContentLine.head, List.mem_append, ContentLine.groupChars] at h
  obtain h | h := h
  · cases hgroup : l.group with
    | none =>
      rw [hgroup] at h
      cases h
    | some g =>
      rw [hgroup, Option.map_some, Option.getD_some, List.mem_append, List.mem_singleton] at h
      exact h.imp_left (g.chars_name c)
  · exact .inl (l.name.chars_name c h)

theorem head_plain {l : ContentLine} (h : c ∈ l.head) :
    isTerminator c = false ∧ isBlank c = false ∧ c ≠ ':' ∧ c ≠ ';' := by
  obtain h | rfl := head_chars h
  · obtain ⟨hbreak, hblank, hcolon, hsemi, -⟩ := isNameChar_plain h
    exact ⟨hbreak, hblank, hcolon, hsemi⟩
  · decide

theorem head_ne_nil (l : ContentLine) : l.head ≠ [] := by
  rw [ContentLine.head]
  exact List.append_ne_nil_of_right_ne_nil _ l.name.ne_nil

theorem text_line {l : ContentLine} (h : c ∈ l.text) : isTerminator c = false := by
  rw [ContentLine.text, List.mem_append, List.mem_append, List.mem_cons] at h
  obtain h | h | rfl | h := h
  · exact (head_plain h).1
  · obtain ⟨p, -, hp⟩ := List.mem_flatMap.mp h
    exact Param.chars_line hp
  · rfl
  · exact l.value_line c h

theorem text_break {l : ContentLine} (h : c ∈ l.text) : isBreak c = false := by
  rw [Bool.eq_false_iff]
  intro hbreak
  have hterminator := isTerminator_of_isBreak hbreak
  rw [text_line h] at hterminator
  cases hterminator

theorem tail_head (l : ContentLine) :
    ∃ c rest, l.paramChars ++ ':' :: l.value = c :: rest ∧ (c = ':' ∧ l.params = [] ∧ rest = l.value ∨
      c = ';' ∧ l.params ≠ []) := by
  cases hparams : l.params with
  | nil =>
    rw [ContentLine.paramChars, hparams]
    exact ⟨':', l.value, rfl, .inl ⟨rfl, rfl, rfl⟩⟩
  | cons p params =>
    rw [ContentLine.paramChars, hparams, List.flatMap_cons, Param.chars]
    exact ⟨';', _, rfl, .inr ⟨rfl, List.cons_ne_nil _ _⟩⟩

theorem FoldedLine.folding_cons (l : FoldedLine) :
    ∃ c t, l.folding = (none, c) :: t ∧ isBlank c = false ∧ isBreak c = false := by
  obtain ⟨c, rest, hhead⟩ := List.exists_cons_of_ne_nil (head_ne_nil l.line)
  have hmem : c ∈ l.line.head := by
    rw [hhead]
    exact List.mem_cons_self
  have hblank := (head_plain hmem).2.1
  have hbreak : isBreak c = false := by
    apply text_break (l := l.line)
    rw [ContentLine.text]
    exact List.mem_append_left _ hmem
  have hplain := l.plain
  rw [ContentLine.text, hhead, List.cons_append] at hplain
  cases hfolding : l.folding with
  | nil =>
    rw [hfolding] at hplain
    cases hplain
  | cons e t =>
    obtain ⟨f, d⟩ := e
    rw [hfolding, plain_cons] at hplain
    obtain ⟨rfl, -⟩ := List.cons.inj hplain
    have hnone := l.begins (f, d) (by rw [hfolding]; rfl)
    cases hnone
    exact ⟨d, t, rfl, hblank, hbreak⟩

end Chars

section Render

variable {f f' : FoldedLine → List Char} {e e' : LineEnd → List Char}

/-- No blank and no line end comes first. -/
def Unindented (rest : List Char) : Prop := ∀ c ∈ rest.head?, isBlank c = false ∧ isBreak c = false

theorem render_rewrite {rewrite : List Char → List Char} (b : Body) (hnil : rewrite [] = [])
    (hline : ∀ l n rest, Unindented rest → rewrite (f l ++ (e n ++ rest)) = f' l ++ (e' n ++ rewrite rest))
    (hlast : ∀ l, rewrite (f l) = f' l) (hhead : ∀ l, Unindented (f l) ∧ f l ≠ []) :
    rewrite (b.render f e) = b.render f' e' := by
  have hend : rewrite (b.last.toList.flatMap f) = b.last.toList.flatMap f' := by
    cases b.last with
    | none => exact hnil
    | some l => simpa using hlast l
  have hopen : Unindented (b.last.toList.flatMap f) := by
    cases b.last with
    | none => simp [Unindented]
    | some l => simpa using (hhead l).1
  rw [Body.render, Body.render]
  induction b.lines with
  | nil => exact hend
  | cons l ls ih =>
    have hnext : Unindented (ls.flatMap (fun l => f l ++ e l.lineEnd) ++ b.last.toList.flatMap f) := by
      cases ls with
      | nil => exact hopen
      | cons l' ls =>
        obtain ⟨c, rest, hl⟩ := List.exists_cons_of_ne_nil (hhead l').2
        have hfirst := (hhead l').1
        rw [hl] at hfirst
        intro d hd
        apply hfirst d
        simpa [hl] using hd
    rw [List.flatMap_cons, List.flatMap_cons, List.append_assoc, List.append_assoc, List.append_assoc,
      List.append_assoc, hline _ _ _ hnext, ih]

end Render

end OpenMigrate.Dav
