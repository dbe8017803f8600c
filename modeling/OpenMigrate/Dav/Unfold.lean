import OpenMigrate.Text
import Mathlib.Data.List.Infix
import Mathlib.Tactic.Common

namespace OpenMigrate.Dav

/-- Where `unfoldLines` stands: in text, behind line ends that it holds back, or in the blanks behind them. -/
inductive Unfolding where
  | text
  | breaks (run : List Char)
  | blanks
  deriving DecidableEq

namespace Unfolding

def held : Unfolding → List Char
  | breaks run => run
  | _ => []

def next (s : Unfolding) (c : Char) : Unfolding :=
  if isBreak c then breaks (s.held ++ [c])
  else if isBlank c && s != text then blanks
  else text

/-- Line ends are let go of before a character that is not blank; blanks behind them are left out with them. -/
def emit (s : Unfolding) (c : Char) : List Char :=
  if isBreak c then []
  else if isBlank c && s != text then []
  else s.held ++ [c]

end Unfolding

def unfoldFrom : Unfolding → List Char → List Char
  | s, [] => s.held
  | s, c :: rest => s.emit c ++ unfoldFrom (s.next c) rest

/-- `text.replace(/[\r\n]+[ \t]+/g, '')` -/
def unfoldLines (text : List Char) : List Char := unfoldFrom .text text

section Folding

/-- A fold: a line end, and a space or a tab. -/
structure Fold where
  lineEnd : LineEnd
  tab : Bool

def Fold.chars (f : Fold) : List Char := f.lineEnd.chars ++ [if f.tab then '\t' else ' ']

/-- The characters of a text, each with the fold that is put before it. -/
abbrev Folding := List (Option Fold × Char)

def Folding.plain (t : Folding) : List Char := t.map (·.2)

def Folding.folded (t : Folding) : List Char := t.flatMap fun e => (e.1.map Fold.chars).getD [] ++ [e.2]

/-- Every fold comes behind a character of its line. -/
def Folding.InLines (t : Folding) : Prop :=
  ∀ before f c after, t = before ++ (some f, c) :: after →
    ∃ front d, Folding.plain before = front ++ [d] ∧ isBreak d = false

/-- A line of the text that goes on the line before, so far nothing but blanks. -/
def BlankFold (past : List Char) : Prop :=
  ∃ front c blanks, past = front ++ c :: blanks ∧ isBreak c = true ∧ ∀ b ∈ blanks, isBlank b = true

/-- No fold comes before a blank, but for blanks that the text has in a fold of its own. -/
def Folding.BeforeText (t : Folding) : Prop :=
  ∀ before f c after, t = before ++ (some f, c) :: after → isBlank c = true → BlankFold (Folding.plain before)

end Folding

section States

variable {s : Unfolding} {c : Char} {t : Folding} {past : List Char}

/-- Where `unfoldLines` stands behind a text. -/
def mode (s : Unfolding) (past : List Char) : Unfolding := past.foldl Unfolding.next s

theorem mode_append (c : Char) : mode s (past ++ [c]) = (mode s past).next c := by
  rw [mode, List.foldl_append]
  rfl

theorem isBreak_of_blank (h : isBlank c = true) : isBreak c = false := by
  simp only [isBlank, Bool.or_eq_true, beq_iff_eq] at h
  obtain rfl | rfl := h <;> rfl

@[simp] theorem next_break (h : isBreak c = true) : s.next c = .breaks (s.held ++ [c]) := if_pos h

@[simp] theorem emit_break (h : isBreak c = true) : s.emit c = [] := if_pos h

theorem next_blank (h : isBlank c = true) (hs : s ≠ .text) : s.next c = .blanks := by
  rw [Unfolding.next, if_neg (by rw [isBreak_of_blank h]; exact Bool.false_ne_true), if_pos (by simp [h, hs])]

theorem emit_blank (h : isBlank c = true) (hs : s ≠ .text) : s.emit c = [] := by
  rw [Unfolding.emit, if_neg (by rw [isBreak_of_blank h]; exact Bool.false_ne_true), if_pos (by simp [h, hs])]

@[simp] theorem next_text (hbreak : isBreak c = false) : Unfolding.next .text c = .text := by
  simp [Unfolding.next, hbreak]

@[simp] theorem emit_text (hbreak : isBreak c = false) : Unfolding.emit .text c = [c] := by
  simp [Unfolding.emit, hbreak, Unfolding.held]

theorem next_plain (hbreak : isBreak c = false) (hblank : isBlank c = false) : s.next c = .text := by
  simp [Unfolding.next, hbreak, hblank]

theorem emit_plain (hbreak : isBreak c = false) (hblank : isBlank c = false) : s.emit c = s.held ++ [c] := by
  simp [Unfolding.emit, hbreak, hblank]

/-- In a line `unfoldLines` holds nothing back. -/
def Inside (s : Unfolding) : Prop := s = .text ∨ s = .blanks

theorem Inside.held (h : Inside s) : s.held = [] := by
  obtain rfl | rfl := h <;> rfl

theorem inside_next (h : isBreak c = false) : Inside (s.next c) := by
  rw [Unfolding.next, if_neg (by rw [h]; exact Bool.false_ne_true)]
  split
  · exact .inr rfl
  · exact .inl rfl

theorem Inside.next (h : Inside s) (hblank : isBlank c = false) : s.next c = Unfolding.next .blanks c := by
  obtain rfl | rfl := h
  · simp [Unfolding.next, hblank, Unfolding.held]
  · rfl

theorem Inside.emit (h : Inside s) (hblank : isBlank c = false) : s.emit c = Unfolding.emit .blanks c := by
  obtain rfl | rfl := h
  · simp [Unfolding.emit, hblank, Unfolding.held]
  · rfl

variable (s) in
/-- A fold goes with the line ends before it and the blanks that follow. -/
theorem unfoldFrom_fold (f : Fold) (rest : List Char) :
    unfoldFrom s (f.chars ++ rest) = unfoldFrom .blanks rest := by
  have htab : isBlank (if f.tab then '\t' else ' ') = true := by cases f.tab <;> rfl
  have hblank : ∀ run, unfoldFrom (.breaks run) ((if f.tab then '\t' else ' ') :: rest) = unfoldFrom .blanks rest := by
    intro run
    rw [unfoldFrom, next_blank htab (by simp), emit_blank htab (by simp)]
    rfl
  cases hend : f.lineEnd with
  | crlf =>
    rw [Fold.chars, hend]
    exact hblank _
  | lf =>
    rw [Fold.chars, hend]
    exact hblank _

end States

section Agree

variable {s s' : Unfolding} {t : Folding}

/-- What holds at every fold of a text, with the place `unfoldLines` has come to in the plain text. -/
def AtFolds (P : Unfolding → Char → Prop) (s : Unfolding) (t : Folding) : Prop :=
  ∀ before f c after, t = before ++ (some f, c) :: after → P (mode s (Folding.plain before)) c

theorem AtFolds.head {P : Unfolding → Char → Prop} {f : Fold} {c : Char} (h : AtFolds P s ((some f, c) :: t)) : P s c :=
  h [] f c t rfl

theorem AtFolds.tail {P : Unfolding → Char → Prop} {e : Option Fold × Char} (h : AtFolds P s (e :: t)) :
    AtFolds P (s.next e.2) t :=
  fun before f c after hsplit => h (e :: before) f c after (congrArg (e :: ·) hsplit)

theorem AtFolds.cons {P : Unfolding → Char → Prop} {f : Option Fold} {c : Char} (hhead : ∀ g, f = some g → P s c)
    (htail : AtFolds P (s.next c) t) : AtFolds P s ((f, c) :: t) := by
  intro before g d after hsplit
  cases before with
  | nil =>
    obtain ⟨hentry, -⟩ := List.cons.inj hsplit
    obtain ⟨rfl, rfl⟩ := Prod.mk.inj hentry
    exact hhead g rfl
  | cons e before =>
    obtain ⟨rfl, hrest⟩ := List.cons.inj hsplit
    exact htail before g d after hrest

@[simp] theorem plain_cons (f : Option Fold) (c : Char) : Folding.plain ((f, c) :: t) = c :: t.plain := rfl

@[simp] theorem folded_none (c : Char) : Folding.folded ((none, c) :: t) = c :: t.folded := rfl

@[simp] theorem folded_some (f : Fold) (c : Char) : Folding.folded ((some f, c) :: t) = f.chars ++ c :: t.folded := by
  simp [Folding.folded]

/-- Folds that do not come before a blank of the text go without a trace. -/
theorem unfoldFrom_folded (hin : AtFolds (fun s _ => Inside s) s t)
    (hgood : AtFolds (fun s c => isBlank c = true → s = .blanks) s t) :
    unfoldFrom s t.folded = unfoldFrom s t.plain := by
  induction t generalizing s with
  | nil => rfl
  | cons e t ih =>
    obtain ⟨f, c⟩ := e
    have hrest := ih hin.tail hgood.tail
    cases f with
    | none =>
      rw [folded_none, plain_cons, unfoldFrom, unfoldFrom, hrest]
    | some f =>
      have hs := hin.head
      rw [folded_some, plain_cons, unfoldFrom_fold s, unfoldFrom, unfoldFrom]
      cases hblank : isBlank c with
      | true => rw [← hgood.head hblank, hrest]
      | false => rw [← hs.next hblank, ← hs.emit hblank, hrest]

/-- Whatever the folds, nothing more is left of the folded text, also where a fold came before. -/
theorem unfoldFrom_length_le (hin : AtFolds (fun s _ => Inside s) s t) (hs : s' = s ∨ s = .text ∧ s' = .blanks) :
    (unfoldFrom s' t.folded).length ≤ (unfoldFrom s t.plain).length := by
  induction t generalizing s s' with
  | nil =>
    obtain rfl | ⟨rfl, rfl⟩ := hs
    · exact le_rfl
    · exact le_rfl
  | cons e t ih =>
    obtain ⟨f, c⟩ := e
    -- from the blanks of a fold a blank is lost, and everything else is as in the text
    have hblanks : Inside s → (unfoldFrom .blanks (c :: Folding.folded t)).length ≤
        (unfoldFrom s (c :: Folding.plain t)).length := by
      intro hinside
      rw [unfoldFrom, unfoldFrom, List.length_append, List.length_append]
      cases hblank : isBlank c with
      | true =>
        have hbreak := isBreak_of_blank hblank
        rw [emit_blank hblank (by simp), next_blank hblank (by simp)]
        obtain rfl | rfl := hinside
        · have hrest := ih hin.tail (.inr ⟨next_text hbreak, rfl⟩)
          rw [List.length_nil, Nat.zero_add]
          exact hrest.trans (Nat.le_add_left _ _)
        · have hrest := ih hin.tail (.inl (next_blank hblank (by simp)).symm)
          rw [emit_blank hblank (by simp)]
          exact Nat.add_le_add_left hrest _
      | false =>
        rw [← hinside.next hblank, ← hinside.emit hblank]
        exact Nat.add_le_add_left (ih hin.tail (.inl rfl)) _
    cases f with
    | none =>
      rw [folded_none, plain_cons]
      obtain rfl | ⟨rfl, rfl⟩ := hs
      · rw [unfoldFrom, unfoldFrom, List.length_append, List.length_append]
        exact Nat.add_le_add_left (ih hin.tail (.inl rfl)) _
      · exact hblanks (.inl rfl)
    | some f =>
      have hinside := hin.head
      rw [folded_some, plain_cons, unfoldFrom_fold s']
      exact hblanks hinside

theorem unfoldFrom_blank_lt (hin : AtFolds (fun s _ => Inside s) .text ((none, c) :: t)) (hblank : isBlank c = true) :
    (unfoldFrom .blanks (c :: t.folded)).length < (unfoldFrom .text (c :: t.plain)).length := by
  have hbreak := isBreak_of_blank hblank
  have hrest := unfoldFrom_length_le hin.tail (.inr ⟨next_text hbreak, rfl⟩)
  rw [unfoldFrom, unfoldFrom, emit_blank hblank (by simp), next_blank hblank (by simp), emit_text hbreak]
  rw [List.nil_append, List.singleton_append, List.length_cons]
  exact Nat.lt_succ_of_le hrest

theorem unfoldFrom_length_lt {before after : Folding} {f : Fold} (hsplit : t = before ++ (some f, c) :: after)
    (hin : AtFolds (fun s _ => Inside s) s t) (hblank : isBlank c = true)
    (hmode : mode s before.plain ≠ .blanks) : (unfoldFrom s t.folded).length < (unfoldFrom s t.plain).length := by
  induction before generalizing s t with
  | nil =>
    subst hsplit
    obtain rfl : s = .text := hin.head.resolve_right hmode
    rw [List.nil_append, folded_some, plain_cons, unfoldFrom_fold]
    exact unfoldFrom_blank_lt (AtFolds.cons (by simp) hin.tail) hblank
  | cons e before ih =>
    obtain ⟨g, d⟩ := e
    subst hsplit
    have hlater := ih rfl hin.tail hmode
    have hstep : (unfoldFrom s (d :: Folding.folded (before ++ (some f, c) :: after))).length <
        (unfoldFrom s (d :: Folding.plain (before ++ (some f, c) :: after))).length := by
      rw [unfoldFrom, unfoldFrom, List.length_append, List.length_append]
      exact Nat.add_lt_add_left hlater _
    cases g with
    | none => exact hstep
    | some g =>
      rw [List.cons_append, folded_some, plain_cons, unfoldFrom_fold]
      obtain rfl | rfl := hin.head
      · cases hd : isBlank d with
        | true => exact unfoldFrom_blank_lt (AtFolds.cons (by simp) hin.tail) hd
        | false =>
          have hinside : Inside .text := .inl rfl
          have hsame : unfoldFrom .blanks (d :: Folding.folded (before ++ (some f, c) :: after)) =
              unfoldFrom .text (d :: Folding.folded (before ++ (some f, c) :: after)) := by
            rw [unfoldFrom, unfoldFrom, hinside.next hd, hinside.emit hd]
          rw [hsame]
          exact hstep
      · exact hstep

end Agree

section Modes

variable {past : List Char} {t : Folding}

theorem blankFold_append (c : Char) :
    BlankFold (past ++ [c]) ↔ isBreak c = true ∨ isBlank c = true ∧ BlankFold past := by
  constructor
  · rintro ⟨front, d, blanks, hpast, hd, hblanks⟩
    obtain rfl | ⟨blanks, b, rfl⟩ := List.eq_nil_or_concat' blanks
    · obtain ⟨-, hc⟩ := List.append_inj' hpast rfl
      obtain rfl := List.singleton_inj.mp hc
      exact .inl hd
    · rw [← List.cons_append, ← List.append_assoc] at hpast
      obtain ⟨rfl, hc⟩ := List.append_inj' hpast rfl
      obtain rfl := List.singleton_inj.mp hc
      exact .inr ⟨hblanks c (by simp), front, d, blanks, rfl, hd, fun b' hb' => hblanks b' (by simp [hb'])⟩
  · rintro (hbreak | ⟨hblank, front, d, blanks, rfl, hd, hblanks⟩)
    · exact ⟨past, c, [], rfl, hbreak, by simp⟩
    · refine ⟨front, d, blanks ++ [c], by simp, hd, ?_⟩
      intro b hb
      obtain hb | hb := List.mem_append.mp hb
      · exact hblanks b hb
      · rwa [List.mem_singleton.mp hb]

theorem mode_inside {front : List Char} {d : Char} (hpast : past = front ++ [d]) (hd : isBreak d = false) :
    Inside (mode .text past) := by
  rw [hpast, mode_append]
  exact inside_next hd

theorem mode_not_text (past : List Char) : mode .text past ≠ .text ↔ BlankFold past := by
  induction past using List.reverseRecOn with
  | nil =>
    constructor
    · exact fun h => absurd rfl h
    · rintro ⟨front, c, blanks, h, -⟩
      exact absurd h (by simp)
  | append_singleton past c ih =>
    rw [mode_append, blankFold_append, ← ih]
    cases hbreak : isBreak c with
    | true => simp [hbreak]
    | false =>
      cases hblank : isBlank c with
      | false => simp [next_plain hbreak hblank]
      | true =>
        by_cases htext : mode .text past = .text
        · simp [htext, next_text hbreak]
        · simp [htext, next_blank hblank htext]

theorem atFolds_inside (h : t.InLines) : AtFolds (fun s _ => Inside s) .text t := by
  intro before f c after hsplit
  obtain ⟨front, d, hpast, hd⟩ := h before f c after hsplit
  exact mode_inside hpast hd

theorem beforeText_iff (h : t.InLines) :
    t.BeforeText ↔ AtFolds (fun s c => isBlank c = true → s = .blanks) .text t := by
  have hmodes : ∀ before f c after, t = before ++ (some f, c) :: after →
      (BlankFold (Folding.plain before) ↔ mode .text (Folding.plain before) = .blanks) := by
    intro before f c after hsplit
    rw [← mode_not_text]
    obtain hmode | hmode := atFolds_inside h before f c after hsplit
    · simp [hmode]
    · simp [hmode]
  constructor
  · intro hbefore before f c after hsplit hblank
    exact (hmodes before f c after hsplit).mp (hbefore before f c after hsplit hblank)
  · intro hat before f c after hsplit hblank
    exact (hmodes before f c after hsplit).mpr (hat before f c after hsplit hblank)

end Modes

section Unfolded

/-- A text without folds: no line begins with a blank. -/
def NoFolds (text : List Char) : Prop :=
  ∀ front c b rest, text = front ++ c :: b :: rest → isBreak c = true → isBlank b = false

theorem NoFolds.tail {c : Char} {text : List Char} (h : NoFolds (c :: text)) : NoFolds text :=
  fun front d b rest hsplit => h (c :: front) d b rest (congrArg (c :: ·) hsplit)

/-- Line ends held back are kept where no blank follows. -/
theorem unfoldFrom_noFolds {s : Unfolding} {text : List Char} (hs : s ≠ .blanks)
    (hhead : ∀ b ∈ text.head?, s ≠ .text → isBlank b = false) (h : NoFolds text) :
    unfoldFrom s text = s.held ++ text := by
  induction text generalizing s with
  | nil => rw [unfoldFrom, List.append_nil]
  | cons c text ih =>
    rw [unfoldFrom]
    cases hbreak : isBreak c with
    | true =>
      have hnext : ∀ b ∈ text.head?, isBlank b = false := by
        intro b hb
        obtain ⟨rest, rfl⟩ := List.head?_eq_some_iff.mp hb
        exact h [] c b rest rfl hbreak
      rw [next_break hbreak, emit_break hbreak, ih (by simp) (fun b hb _ => hnext b hb) h.tail]
      simp [Unfolding.held]
    | false =>
      by_cases htext : s = .text
      · rw [htext, next_text hbreak, emit_text hbreak, ih (by simp) (by simp) h.tail]
        rfl
      · have hblank : isBlank c = false := hhead c rfl htext
        rw [next_plain hbreak hblank, emit_plain hbreak hblank, ih (by simp) (by simp) h.tail]
        simp [Unfolding.held]

theorem unfoldLines_noFolds {text : List Char} (h : NoFolds text) : unfoldLines text = text :=
  unfoldFrom_noFolds (by simp) (by simp) h

theorem unfoldLines_folded_iff {t : Folding} (h : t.InLines) :
    unfoldLines t.folded = unfoldLines t.plain ↔ t.BeforeText := by
  rw [beforeText_iff h]
  constructor
  · intro hsame before f c after hsplit hblank
    by_contra hmode
    have hshorter := unfoldFrom_length_lt hsplit (atFolds_inside h) hblank hmode
    exact absurd (congrArg List.length hsame) hshorter.ne
  · exact unfoldFrom_folded (atFolds_inside h)

end Unfolded

/-- `unfoldLines` undoes the folds of a text exactly when none of them comes before a blank of the text, and it leaves
a text without folds as it is. -/
theorem unfoldLines_undoes_iff {t : Folding} (h : t.InLines) :
    (unfoldLines t.folded = unfoldLines t.plain ↔ t.BeforeText) ∧
      ∀ text, NoFolds text → unfoldLines text = text := by
  constructor
  · exact unfoldLines_folded_iff h
  · exact fun text => unfoldLines_noFolds

namespace Sample

/-- A text cut once, behind the character `d` of a line and before `c`. -/
def cut (front : List Char) (d c : Char) (rest : List Char) : Folding :=
  ((front ++ [d]).map fun x => (none, x)) ++ (some ⟨.crlf, false⟩, c) :: rest.map fun x => (none, x)

theorem plain_unfolded (front : List Char) : Folding.plain (front.map fun x => (none, x)) = front := by
  rw [Folding.plain, List.map_map]
  exact List.map_id front

theorem cut_only {front rest : List Char} {d c c' : Char} {f : Fold} {before after : Folding}
    (h : cut front d c rest = before ++ (some f, c') :: after) :
    Folding.plain before = front ++ [d] ∧ c' = c := by
  have hfront : (some f, c') ∉ (front ++ [d]).map fun x => ((none : Option Fold), x) := by simp
  have hrest : (some f, c') ∉ rest.map fun x => ((none : Option Fold), x) := by simp
  obtain ⟨between, hbefore, hafter⟩ | ⟨between, hbefore, hafter⟩ := List.append_eq_append_iff.mp h
  · cases between with
    | nil =>
      obtain ⟨hentry, -⟩ := List.cons.inj hafter
      rw [hbefore, List.append_nil, plain_unfolded]
      exact ⟨rfl, (Prod.mk.inj hentry).2.symm⟩
    | cons e between =>
      have hmem : (some f, c') ∈ rest.map fun x => ((none : Option Fold), x) := by
        rw [(List.cons.inj hafter).2]
        simp
      exact absurd hmem hrest
  · cases between with
    | nil =>
      obtain ⟨hentry, -⟩ := List.cons.inj hafter
      rw [List.append_nil] at hbefore
      rw [← hbefore, plain_unfolded]
      exact ⟨rfl, (Prod.mk.inj hentry).2⟩
    | cons e between =>
      have hmem : (some f, c') ∈ (front ++ [d]).map fun x => ((none : Option Fold), x) := by
        rw [hbefore, ← (List.cons.inj hafter).1]
        simp
      exact absurd hmem hfront

theorem cut_inLines (front rest : List Char) {d : Char} (c : Char) (hd : isBreak d = false) :
    (cut front d c rest).InLines :=
  fun _ _ _ _ h => ⟨front, d, (cut_only h).1, hd⟩

end Sample

/-- `SUMMARY:a b` cut before its last letter. -/
theorem unfoldLines_undoes_text :
    unfoldLines (Sample.cut "SUMMARY:a".toList ' ' 'b' []).folded =
      unfoldLines (Sample.cut "SUMMARY:a".toList ' ' 'b' []).plain := by
  apply (unfoldLines_undoes_iff (Sample.cut_inLines "SUMMARY:a".toList [] 'b' rfl)).1.mpr
  intro before f c after hsplit hblank
  rw [(Sample.cut_only hsplit).2] at hblank
  cases hblank

/-- `SUMMARY:a b` cut before its space: the space is lost. -/
theorem space_lost :
    (Sample.cut "SUMMARY:".toList 'a' ' ' ['b']).InLines ∧
      unfoldLines (Sample.cut "SUMMARY:".toList 'a' ' ' ['b']).folded = "SUMMARY:ab".toList ∧
      unfoldLines (Sample.cut "SUMMARY:".toList 'a' ' ' ['b']).plain = "SUMMARY:a b".toList := by
  refine ⟨Sample.cut_inLines "SUMMARY:".toList ['b'] ' ' rfl, ?_, ?_⟩
  · rfl
  · rfl

end OpenMigrate.Dav
