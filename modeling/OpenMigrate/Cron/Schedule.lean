import OpenMigrate.Text
import Mathlib.Data.List.Forall2
import Mathlib.Tactic.Common

namespace OpenMigrate.Cron

section Source

def nicknames : List String := ["@hourly", "@daily", "@weekly", "@monthly", "@yearly", "@annually"]

structure CronField where
  name : String
  min : ℕ
  max : ℕ

/-- Both 0 and 7 are Sunday. -/
def cronFields : List CronField :=
  [⟨"minute", 0, 59⟩, ⟨"hour", 0, 23⟩, ⟨"day of month", 1, 31⟩, ⟨"month", 1, 12⟩, ⟨"day of week", 0, 7⟩]

/-- `/^\d+$/` -/
def isDigits (s : List Char) : Bool := !s.isEmpty && s.all Char.isDigit

/-- `Number` of digits; it rounds far above every bound. -/
def number (s : List Char) : ℕ := Nat.ofDigitChars 10 s 0

/-- `/^(\d+)(?:-(\d+))?$/`, with the groups. -/
def bounds (base : List Char) : Option (List Char × Option (List Char)) :=
  match base.splitOn '-' with
  | [lo] => if isDigits lo then some (lo, none) else none
  | [lo, hi] => if isDigits lo && isDigits hi then some (lo, some hi) else none
  | _ => none

/-- The checks of a part behind those of its step. -/
def baseProblem (base part : List Char) (field : CronField) : Option String :=
  if base = ['*'] then none
  else
    match bounds base with
    | none =>
      some (s!"the {field.name} field ('{String.ofList part}') is not a number, range, step or '*' — " ++
        "month and weekday names are not supported here, use numbers")
    | some (first, second) =>
      let lo := number first
      let hi := (second.map number).getD lo
      if lo < field.min ∨ field.max < lo ∨ hi < field.min ∨ field.max < hi then
        some s!"the {field.name} field ('{String.ofList part}') is out of range ({field.min}-{field.max})"
      else if hi < lo then
        some s!"the {field.name} field ('{String.ofList part}') has a backwards range ({lo} > {hi})"
      else none

def rangeProblem (part : List Char) (field : CronField) : Option String :=
  let malformed :=
    s!"the {field.name} field ('{String.ofList part}') has a malformed step — use e.g. '*/5' or '1-10/2'"
  match part.splitOn '/' with
  | [base] => baseProblem base part field
  | [base, step] =>
    if step = [] then some malformed
    else if !isDigits step || number step < 1 then
      some s!"the {field.name} field ('{String.ofList part}') has a step that is not a positive number"
    else if base ≠ ['*'] ∧ ((bounds base).bind (·.2)).isNone then
      some (s!"the {field.name} field ('{String.ofList part}') steps from a single number, which the scheduler " ++
        s!"does not accept — use '*/{String.ofList step}' or a range like " ++
        s!"'{String.ofList base}-{field.max}/{String.ofList step}'")
    else baseProblem base part field
  | _ => some malformed

/-- `split(/\s+/)`; a text that is trimmed has nothing empty at its ends. -/
def splitSpaces (trimmed : List Char) : List (List Char) := (trimmed.splitOnP whiteSpace).filter (· ≠ [])

/-- The parts of a field in turn. -/
def fieldProblem (text : List Char) (field : CronField) : Option String :=
  (text.splitOn ',').findSome? fun part =>
    if part = [] then some s!"the {field.name} field ('{String.ofList text}') has an empty list entry"
    else rangeProblem part field

def describeCronScheduleProblem (expression : List Char) : Option String :=
  let trimmed := trim expression
  if trimmed = [] then some "the schedule is empty"
  else if trimmed.head? = some '@' then
    if String.ofList trimmed ∈ nicknames then none
    else some (s!"'{String.ofList trimmed}' is not a known schedule shorthand — expected one of " ++
      ", ".intercalate nicknames)
  else
    let fields := splitSpaces trimmed
    if fields.length ≠ 5 then
      some ("a cron schedule has five fields — minute, hour, day of month, month, day of week — " ++
        s!"separated by spaces; this one has {fields.length}")
    else (cronFields.zip fields).findSome? fun entry => fieldProblem entry.2 entry.1

end Source

section Grammar

@[ext]
structure Digits where
  chars : List Char
  digits : isDigits chars = true

def Digits.value (n : Digits) : ℕ := number n.chars

inductive Base where
  | star
  | number (n : Digits)
  | range (lo hi : Digits)

/-- A part of a list; a number takes no step. -/
@[ext]
structure Part where
  base : Base
  step : Option Digits
  stepped : step.isSome = true → ∀ n, base ≠ .number n

def Base.chars : Base → List Char
  | star => ['*']
  | number n => n.chars
  | range lo hi => lo.chars ++ '-' :: hi.chars

def Part.chars (p : Part) : List Char := p.base.chars ++ (p.step.map fun n => '/' :: n.chars).getD []

def Base.Fits (field : CronField) : Base → Prop
  | star => True
  | number n => field.min ≤ n.value ∧ n.value ≤ field.max
  | range lo hi => field.min ≤ lo.value ∧ lo.value ≤ hi.value ∧ hi.value ≤ field.max

def Part.Fits (field : CronField) (p : Part) : Prop := p.base.Fits field ∧ ∀ n ∈ p.step, 1 ≤ n.value

/-- A field is a list of parts. -/
@[ext]
structure Field where
  parts : List Part
  ne_nil : parts ≠ []

def Field.chars (f : Field) : List Char := [','].intercalate (f.parts.map Part.chars)

/-- Texts with white space between them. -/
inductive Spaced : List (List Char) → List Char → Prop where
  | one (text : List Char) : Spaced [text] text
  | cons {texts : List (List Char)} {rest : List Char} (text space : List Char) (ne_nil : space ≠ [])
      (white : ∀ c ∈ space, whiteSpace c = true) (h : Spaced texts rest) : Spaced (text :: texts) (text ++ (space ++ rest))

/-- The expression is these fields, one for each of the five. -/
def Written (expression : List Char) (fields : List Field) : Prop :=
  fields.length = 5 ∧ Spaced (fields.map Field.chars) (trim expression)

/-- Every number is in the bounds of its field, no range runs backwards, and every step is positive. -/
def InBounds (fields : List Field) : Prop := List.Forall₂ (fun field f => ∀ p ∈ f.parts, p.Fits field) cronFields fields

/-- No step is larger than its field. -/
def StepsFit (size : CronField → ℕ) (fields : List Field) : Prop :=
  List.Forall₂ (fun field f => ∀ p ∈ f.parts, ∀ n ∈ p.step, n.value ≤ size field) cronFields fields

/-- What the scheduler runs. -/
def Runnable (size : CronField → ℕ) (expression : List Char) : Prop :=
  String.ofList (trim expression) ∈ nicknames ∨
    ∃ fields, Written expression fields ∧ InBounds fields ∧ StepsFit size fields

end Grammar

section Parts

variable {field : CronField} {base part text : List Char}

theorem isDigits_iff {s : List Char} : isDigits s = true ↔ s ≠ [] ∧ ∀ c ∈ s, c.isDigit = true := by
  simp [isDigits]

theorem Digits.digit (n : Digits) : ∀ c ∈ n.chars, c.isDigit = true := (isDigits_iff.mp n.digits).2

theorem Digits.ne_nil (n : Digits) : n.chars ≠ [] := (isDigits_iff.mp n.digits).1

theorem Digits.not_mem (n : Digits) {c : Char} (h : c.isDigit = false) : c ∉ n.chars := by
  intro hc
  rw [n.digit c hc] at h
  cases h

theorem bounds_number (n : Digits) : bounds n.chars = some (n.chars, none) := by
  have hsplit : n.chars.splitOn '-' = [n.chars] := List.splitOn_eq_singleton (n.not_mem rfl)
  rw [bounds, hsplit]
  exact if_pos n.digits

theorem bounds_range (lo hi : Digits) : bounds (lo.chars ++ '-' :: hi.chars) = some (lo.chars, some hi.chars) := by
  have hsplit : (lo.chars ++ '-' :: hi.chars).splitOn '-' = [lo.chars, hi.chars] := by
    rw [List.splitOn_append_cons_self_of_not_mem (lo.not_mem rfl), List.splitOn_eq_singleton (hi.not_mem rfl)]
  rw [bounds, hsplit]
  apply if_pos
  rw [lo.digits, hi.digits]
  rfl

theorem bounds_sound {first : List Char} {second : Option (List Char)} (h : bounds base = some (first, second)) :
    (∃ n : Digits, base = n.chars ∧ first = n.chars ∧ second = none) ∨
      ∃ lo hi : Digits, base = lo.chars ++ '-' :: hi.chars ∧ first = lo.chars ∧ second = some hi.chars := by
  have hjoin : ['-'].intercalate (base.splitOn '-') = base := List.intercalate_splitOn '-'
  rw [bounds] at h
  split at h
  · rename_i lo hsplit
    rw [hsplit, List.intercalate_singleton] at hjoin
    split at h
    · rename_i hlo
      cases h
      exact .inl ⟨⟨first, hlo⟩, hjoin.symm, rfl, rfl⟩
    · cases h
  · rename_i lo hi hsplit
    rw [hsplit, List.intercalate_cons_cons, List.intercalate_singleton, List.append_assoc] at hjoin
    split at h
    · rename_i hboth
      rw [Bool.and_eq_true] at hboth
      cases h
      exact .inr ⟨⟨first, hboth.1⟩, ⟨hi, hboth.2⟩, hjoin.symm, rfl, rfl⟩
    · cases h
  · cases h

theorem baseProblem_numbers {first : List Char} {second : Option (List Char)} (hstar : base ≠ ['*'])
    (h : bounds base = some (first, second)) :
    baseProblem base part field = none ↔ field.min ≤ number first ∧
      number first ≤ (second.map number).getD (number first) ∧
        (second.map number).getD (number first) ≤ field.max := by
  rw [baseProblem, if_neg hstar, h]
  dsimp only
  generalize (second.map number).getD (number first) = hi
  constructor
  · intro hnone
    split at hnone
    · cases hnone
    · split at hnone
      · cases hnone
      · omega
  · intro hfits
    rw [if_neg (by omega), if_neg (by omega)]

theorem star_ne (n : Digits) (rest : List Char) : n.chars ++ rest ≠ ['*'] := by
  intro hstar
  obtain ⟨c, chars, hchars⟩ := List.exists_cons_of_ne_nil n.ne_nil
  have hc := n.digit c (by rw [hchars]; exact List.mem_cons_self)
  rw [hchars, List.cons_append] at hstar
  rw [(List.cons.inj hstar).1] at hc
  cases hc

theorem baseProblem_iff : baseProblem base part field = none ↔ ∃ b : Base, b.chars = base ∧ b.Fits field := by
  constructor
  · intro h
    by_cases hstar : base = ['*']
    · exact ⟨.star, hstar.symm, trivial⟩
    · cases hbounds : bounds base with
      | none =>
        rw [baseProblem, if_neg hstar, hbounds] at h
        cases h
      | some found =>
        obtain ⟨first, second⟩ := found
        have hfits := (baseProblem_numbers hstar hbounds).mp h
        obtain ⟨n, hbase, rfl, rfl⟩ | ⟨lo, hi, hbase, rfl, rfl⟩ := bounds_sound hbounds
        · exact ⟨.number n, hbase.symm, hfits.1, hfits.2.2⟩
        · exact ⟨.range lo hi, hbase.symm, hfits⟩
  · rintro ⟨b, rfl, hfits⟩
    cases b with
    | star => exact if_pos rfl
    | number n =>
      have hstar : n.chars ≠ ['*'] := by
        have hne := star_ne n []
        rwa [List.append_nil] at hne
      apply (baseProblem_numbers hstar (bounds_number n)).mpr
      exact ⟨hfits.1, le_refl _, hfits.2⟩
    | range lo hi => exact (baseProblem_numbers (star_ne lo _) (bounds_range lo hi)).mpr hfits

theorem Base.not_mem (b : Base) {c : Char} (h : c.isDigit = false ∧ c ≠ '*' ∧ c ≠ '-') : c ∉ b.chars := by
  cases b with
  | star => simpa [Base.chars] using h.2.1
  | number n => exact n.not_mem h.1
  | range lo hi => simp [Base.chars, lo.not_mem h.1, hi.not_mem h.1, h.2.2]

theorem Base.ne_nil (b : Base) : b.chars ≠ [] := by
  cases b with
  | star => exact List.cons_ne_nil _ _
  | number n => exact n.ne_nil
  | range lo hi => exact List.append_ne_nil_of_left_ne_nil lo.ne_nil _

theorem Part.splits_star (p : Part) (h : p.step = none) : p.chars.splitOn '/' = [p.base.chars] := by
  have hchars : p.chars = p.base.chars := by
    rw [Part.chars, h]
    exact List.append_nil _
  rw [hchars]
  exact List.splitOn_eq_singleton (p.base.not_mem (by decide))

theorem Part.splits_step (p : Part) {n : Digits} (h : p.step = some n) :
    p.chars.splitOn '/' = [p.base.chars, n.chars] := by
  have hchars : p.chars = p.base.chars ++ '/' :: n.chars := by
    rw [Part.chars, h]
    rfl
  rw [hchars, List.splitOn_append_cons_self_of_not_mem (p.base.not_mem (by decide)),
    List.splitOn_eq_singleton (n.not_mem rfl)]

theorem Base.takes_step (b : Base) (h : ∀ n, b ≠ .number n) :
    ¬ (b.chars ≠ ['*'] ∧ ((bounds b.chars).bind (·.2)).isNone = true) := by
  rintro ⟨hstar, hnone⟩
  cases b with
  | star => exact hstar rfl
  | number n => exact h n rfl
  | range lo hi =>
    rw [Base.chars, bounds_range] at hnone
    cases hnone

theorem rangeProblem_iff : rangeProblem part field = none ↔ ∃ p : Part, p.chars = part ∧ p.Fits field := by
  constructor
  · intro h
    have hjoin : ['/'].intercalate (part.splitOn '/') = part := List.intercalate_splitOn '/'
    rw [rangeProblem] at h
    split at h
    · rename_i base hsplit
      rw [hsplit, List.intercalate_singleton] at hjoin
      obtain ⟨b, rfl, hfits⟩ := baseProblem_iff.mp h
      refine ⟨⟨b, none, ?_⟩, ?_, hfits, ?_⟩
      · intro hstep
        cases hstep
      · rw [← hjoin]
        exact List.append_nil _
      · intro n hn
        cases hn
    · rename_i base step hsplit
      rw [hsplit, List.intercalate_cons_cons, List.intercalate_singleton, List.append_assoc] at hjoin
      split at h
      · cases h
      · split at h
        · cases h
        · rename_i hdigits
          split at h
          · cases h
          · rename_i htakes
            obtain ⟨b, rfl, hfits⟩ := baseProblem_iff.mp h
            have hstep : isDigits step = true ∧ 1 ≤ number step := by
              simpa [Nat.one_le_iff_ne_zero] using hdigits
            refine ⟨⟨b, some ⟨step, hstep.1⟩, ?_⟩, hjoin, hfits, ?_⟩
            · rintro - n rfl
              apply htakes
              have hstar := star_ne n []
              rw [List.append_nil] at hstar
              refine ⟨hstar, ?_⟩
              rw [Base.chars, bounds_number]
              rfl
            · intro n hn
              cases hn
              exact hstep.2
    · cases h
  · rintro ⟨p, rfl, hfits⟩
    have hbase : baseProblem p.base.chars p.chars field = none := baseProblem_iff.mpr ⟨p.base, rfl, hfits.1⟩
    rw [rangeProblem]
    cases hstep : p.step with
    | none =>
      rw [p.splits_star hstep]
      exact hbase
    | some n =>
      have hone := hfits.2 n hstep
      have htakes := p.base.takes_step (p.stepped (by rw [hstep]; rfl))
      rw [p.splits_step hstep]
      dsimp only
      rw [if_neg n.ne_nil, if_neg, if_neg htakes]
      · exact hbase
      · have hvalue : ¬ number n.chars < 1 := Nat.not_lt.mpr hone
        simp [n.digits, hvalue]

theorem Base.chars_injective {b b' : Base} (h : b.chars = b'.chars) : b = b' := by
  have hstar (n : Digits) : n.chars ≠ ['*'] := by
    have hne := star_ne n []
    rwa [List.append_nil] at hne
  have hbounds := congrArg bounds h
  cases b with
  | star =>
    cases b' with
    | star => rfl
    | number n => exact absurd h.symm (hstar n)
    | range lo hi => exact absurd h.symm (star_ne lo _)
  | number n =>
    cases b' with
    | star => exact absurd h (hstar n)
    | number n' => exact congrArg Base.number (Digits.ext h)
    | range lo hi =>
      rw [Base.chars, Base.chars, bounds_number, bounds_range] at hbounds
      simp at hbounds
  | range lo hi =>
    cases b' with
    | star => exact absurd h (star_ne lo _)
    | number n =>
      rw [Base.chars, Base.chars, bounds_number, bounds_range] at hbounds
      simp at hbounds
    | range lo' hi' =>
      rw [Base.chars, Base.chars, bounds_range, bounds_range] at hbounds
      simp only [Option.some.injEq, Prod.mk.injEq] at hbounds
      rw [Digits.ext hbounds.1, Digits.ext hbounds.2]

theorem Part.chars_injective {p p' : Part} (h : p.chars = p'.chars) : p = p' := by
  have hsplit := congrArg (List.splitOn '/') h
  have hparts : p.base = p'.base ∧ p.step = p'.step := by
    cases hstep : p.step with
    | none =>
      cases hstep' : p'.step with
      | none =>
        rw [p.splits_star hstep, p'.splits_star hstep'] at hsplit
        exact ⟨Base.chars_injective (List.cons.inj hsplit).1, rfl⟩
      | some n' =>
        rw [p.splits_star hstep, p'.splits_step hstep'] at hsplit
        cases (List.cons.inj hsplit).2
    | some n =>
      cases hstep' : p'.step with
      | none =>
        rw [p.splits_step hstep, p'.splits_star hstep'] at hsplit
        cases (List.cons.inj hsplit).2
      | some n' =>
        rw [p.splits_step hstep, p'.splits_step hstep'] at hsplit
        have htail := (List.cons.inj (List.cons.inj hsplit).2).1
        exact ⟨Base.chars_injective (List.cons.inj hsplit).1, congrArg some (Digits.ext htail)⟩
  exact Part.ext hparts.1 hparts.2

theorem Part.ne_nil (p : Part) : p.chars ≠ [] := List.append_ne_nil_of_left_ne_nil p.base.ne_nil _

theorem Part.not_mem (p : Part) {c : Char} (h : c.isDigit = false ∧ c ≠ '*' ∧ c ≠ '-') (hslash : c ≠ '/') :
    c ∉ p.chars := by
  rw [Part.chars, List.mem_append]
  rintro (hc | hc)
  · exact p.base.not_mem h hc
  · cases hstep : p.step with
    | none =>
      rw [hstep] at hc
      cases hc
    | some n =>
      rw [hstep] at hc
      obtain rfl | hc := List.mem_cons.mp hc
      · exact hslash rfl
      · exact n.not_mem h.1 hc

end Parts

section Fields

variable {field : CronField} {text : List Char}

theorem readings {α β : Type} {chars : α → List Char} {Reads : β → α → Prop} {bs : List β} {texts : List (List Char)}
    (h : List.Forall₂ (fun b text => ∃ a, chars a = text ∧ Reads b a) bs texts) :
    ∃ as : List α, as.map chars = texts ∧ List.Forall₂ Reads bs as := by
  induction h with
  | nil => exact ⟨[], rfl, .nil⟩
  | cons hhead _ ih =>
    obtain ⟨a, rfl, ha⟩ := hhead
    obtain ⟨as, rfl, has⟩ := ih
    exact ⟨a :: as, rfl, .cons ha has⟩

theorem Field.splits (f : Field) : f.chars.splitOn ',' = f.parts.map Part.chars := by
  apply List.splitOn_intercalate
  · intro chars hchars
    obtain ⟨p, -, rfl⟩ := List.mem_map.mp hchars
    exact p.not_mem (by decide) (by decide)
  · intro hnil
    exact f.ne_nil (List.map_eq_nil_iff.mp hnil)

theorem Field.chars_injective {f f' : Field} (h : f.chars = f'.chars) : f = f' := by
  have hsplit := congrArg (List.splitOn ',') h
  rw [f.splits, f'.splits] at hsplit
  have hinjective : Function.Injective Part.chars := by
    intro p p' hp
    exact Part.chars_injective hp
  apply Field.ext
  exact List.map_injective_iff.mpr hinjective hsplit

theorem fieldProblem_iff :
    fieldProblem text field = none ↔ ∃ f : Field, f.chars = text ∧ ∀ p ∈ f.parts, p.Fits field := by
  rw [fieldProblem, List.findSome?_eq_none_iff]
  constructor
  · intro h
    have hparts : List.Forall₂ (fun _ part => ∃ p : Part, p.chars = part ∧ p.Fits field)
        (text.splitOn ',') (text.splitOn ',') := by
      rw [List.forall₂_same]
      intro part hpart
      have hnone := h part hpart
      split at hnone
      · cases hnone
      · exact rangeProblem_iff.mp hnone
    obtain ⟨ps, hps, hfits⟩ := readings hparts
    have hnil : ps ≠ [] := by
      rintro rfl
      exact List.splitOn_ne_nil _ _ hps.symm
    refine ⟨⟨ps, hnil⟩, ?_, ?_⟩
    · rw [Field.chars, hps]
      exact List.intercalate_splitOn _
    · intro p hp
      obtain ⟨i, hi⟩ := List.get_of_mem hp
      rw [List.forall₂_iff_get] at hfits
      rw [← hi]
      exact hfits.2 i.1 (by rw [hfits.1]; exact i.2) i.2
  · rintro ⟨f, rfl, hfits⟩
    rw [f.splits]
    intro part hpart
    obtain ⟨p, hp, rfl⟩ := List.mem_map.mp hpart
    rw [if_neg p.ne_nil]
    exact rangeProblem_iff.mpr ⟨p, rfl, hfits p hp⟩

theorem Field.not_mem (f : Field) {c : Char} (h : c.isDigit = false ∧ c ≠ '*' ∧ c ≠ '-') (hslash : c ≠ '/')
    (hcomma : c ≠ ',') : c ∉ f.chars := by
  intro hc
  obtain hc | ⟨chars, hchars, hc⟩ := mem_intercalate hc
  · exact hcomma (List.mem_singleton.mp hc)
  · obtain ⟨p, -, rfl⟩ := List.mem_map.mp hchars
    exact p.not_mem h hslash hc

theorem Field.chars_ne_nil (f : Field) : f.chars ≠ [] := by
  intro hnil
  have hsplit := f.splits
  rw [hnil] at hsplit
  obtain ⟨p, hp, hchars⟩ := List.mem_map.mp (show [] ∈ f.parts.map Part.chars by
    rw [← hsplit]
    exact List.mem_cons_self)
  exact p.ne_nil hchars

theorem white_apart {c : Char} (h : whiteSpace c = true) :
    (c.isDigit = false ∧ c ≠ '*' ∧ c ≠ '-') ∧ c ≠ '/' ∧ c ≠ ',' := by
  have hbounds := whiteSpace_bounds h
  have hne : ∀ d : Char, 32 < d.toNat ∧ d.toNat < 160 → c ≠ d := by
    rintro d hd rfl
    omega
  have hdigit : c.isDigit = false := by
    rw [Bool.eq_false_iff]
    intro hdigit
    simp only [Char.isDigit_iff_toNat, Char.reduceToNat] at hdigit
    omega
  exact ⟨⟨hdigit, hne _ (by decide), hne _ (by decide)⟩, hne _ (by decide), hne _ (by decide)⟩

theorem Field.not_white (f : Field) : ∀ c ∈ f.chars, whiteSpace c = false := by
  intro c hc
  rw [Bool.eq_false_iff]
  intro hwhite
  obtain ⟨hbase, hslash, hcomma⟩ := white_apart hwhite
  exact f.not_mem hbase hslash hcomma hc

end Fields

section Spaces

variable {text space rest s : List Char} {texts : List (List Char)}

theorem splitSpaces_white (hspace : ∀ c ∈ space, whiteSpace c = true) (rest : List Char) :
    splitSpaces (space ++ rest) = splitSpaces rest := by
  induction space with
  | nil => rfl
  | cons c space ih =>
    have hc := hspace c List.mem_cons_self
    have hmore := ih fun d hd => hspace d (List.mem_cons_of_mem c hd)
    rw [← hmore, splitSpaces, List.cons_append, List.splitOnP_cons_eq_if_modifyHead, if_pos hc]
    rfl

theorem splitSpaces_text (hnil : text ≠ []) (htext : ∀ c ∈ text, whiteSpace c = false) : splitSpaces text = [text] := by
  rw [splitSpaces, List.splitOnP_eq_singleton htext]
  simp [hnil]

theorem splitSpaces_cons (hnil : text ≠ []) (htext : ∀ c ∈ text, whiteSpace c = false) (hne : space ≠ [])
    (hspace : ∀ c ∈ space, whiteSpace c = true) (rest : List Char) :
    splitSpaces (text ++ (space ++ rest)) = text :: splitSpaces rest := by
  cases space with
  | nil => exact absurd rfl hne
  | cons c space =>
    have hc := hspace c List.mem_cons_self
    have hmore := splitSpaces_white (fun d hd => hspace d (List.mem_cons_of_mem c hd)) rest
    rw [← hmore, splitSpaces, List.cons_append, List.splitOnP_append_cons_of_forall_mem htext c hc,
      List.filter_cons_of_pos (by simpa using hnil)]
    rfl

theorem splitSpaces_spaced (h : Spaced texts s) (htexts : ∀ text ∈ texts, text ≠ [] ∧ ∀ c ∈ text, whiteSpace c = false) :
    splitSpaces s = texts := by
  induction h with
  | one text =>
    have htext := htexts text List.mem_cons_self
    exact splitSpaces_text htext.1 htext.2
  | cons text space ne_nil white _ ih =>
    have htext := htexts text List.mem_cons_self
    rw [splitSpaces_cons htext.1 htext.2 ne_nil white, ih fun other hother =>
      htexts other (List.mem_cons_of_mem text hother)]

theorem first_text (hhead : ∀ c ∈ s.head?, whiteSpace c = false) :
    ∃ text space rest, s = text ++ (space ++ rest) ∧ (∀ c ∈ text, whiteSpace c = false) ∧
      (∀ c ∈ space, whiteSpace c = true) ∧ (s ≠ [] → text ≠ []) ∧ (space = [] → rest = []) ∧
        ∀ c ∈ rest.head?, whiteSpace c = false := by
  have hfront := List.takeWhile_append_dropWhile (p := fun c => !whiteSpace c) (l := s)
  have hback := List.takeWhile_append_dropWhile (p := whiteSpace) (l := s.dropWhile fun c => !whiteSpace c)
  refine ⟨s.takeWhile fun c => !whiteSpace c, (s.dropWhile fun c => !whiteSpace c).takeWhile whiteSpace,
    trimStart (s.dropWhile fun c => !whiteSpace c), ?_, ?_, ?_, ?_, ?_, ?_⟩
  · rw [trimStart, hback]
    exact hfront.symm
  · intro c hc
    simpa using List.mem_takeWhile_imp hc
  · intro c hc
    exact List.mem_takeWhile_imp hc
  · intro hnil
    cases s with
    | nil => exact absurd rfl hnil
    | cons c chars =>
      rw [List.takeWhile_cons_of_pos (by simpa using hhead c rfl)]
      exact List.cons_ne_nil _ _
  · intro hspace
    have hhead := List.head?_dropWhile_not (fun c => !whiteSpace c) s
    cases hrest : s.dropWhile fun c => !whiteSpace c with
    | nil => rfl
    | cons c chars =>
      rw [hrest] at hhead hspace
      rw [List.takeWhile_cons_of_pos (by simpa using hhead)] at hspace
      cases hspace
  · exact trimStart_head _

theorem spaced_splitSpaces (n : ℕ) (hlength : s.length ≤ n) (hnil : s ≠ [])
    (hhead : ∀ c ∈ s.head?, whiteSpace c = false) (hlast : ∀ c ∈ s.getLast?, whiteSpace c = false) :
    Spaced (splitSpaces s) s := by
  induction n generalizing s with
  | zero => exact absurd (List.length_eq_zero_iff.mp (Nat.le_zero.mp hlength)) hnil
  | succ n ih =>
    obtain ⟨text, space, rest, rfl, htext, hspace, hne, hrest, hnext⟩ := first_text hhead
    have htext_nil := hne hnil
    by_cases hspace_nil : space = []
    · rw [hspace_nil, hrest hspace_nil, List.append_nil, List.append_nil, splitSpaces_text htext_nil htext]
      exact .one text
    · have hrest_nil : rest ≠ [] := by
        rintro rfl
        obtain ⟨c, hc⟩ := Option.isSome_iff_exists.mp (List.getLast?_isSome.mpr hspace_nil)
        have hdark := hlast c (by simp [List.getLast?_append, hc])
        rw [hspace c (List.mem_of_getLast? hc)] at hdark
        cases hdark
      rw [splitSpaces_cons htext_nil htext hspace_nil hspace]
      apply Spaced.cons text space hspace_nil hspace
      apply ih
      · have hlong := List.length_pos_iff.mpr htext_nil
        rw [List.length_append, List.length_append] at hlength
        omega
      · exact hrest_nil
      · exact hnext
      · intro c hc
        apply hlast
        rw [Option.mem_def] at hc ⊢
        rw [List.getLast?_append, List.getLast?_append, hc]
        rfl

end Spaces

section Accepted

variable {expression : List Char} {fields : List Field}

theorem written_texts (h : Written expression fields) : splitSpaces (trim expression) = fields.map Field.chars := by
  apply splitSpaces_spaced h.2
  intro text htext
  obtain ⟨f, -, rfl⟩ := List.mem_map.mp htext
  exact ⟨f.chars_ne_nil, f.not_white⟩

theorem written_unique {fields' : List Field} (h : Written expression fields) (h' : Written expression fields') :
    fields = fields' := by
  have hinjective : Function.Injective Field.chars := by
    intro f f' hf
    exact Field.chars_injective hf
  apply List.map_injective_iff.mpr hinjective
  rw [← written_texts h, written_texts h']

theorem spaced_begins {texts : List (List Char)} {s : List Char} (h : Spaced texts s) :
    ∃ text rest, texts.head? = some text ∧ s = text ++ rest := by
  cases h with
  | one => exact ⟨s, [], rfl, (List.append_nil s).symm⟩
  | cons text space => exact ⟨text, _, rfl, rfl⟩

theorem written_head (h : Written expression fields) : ∃ c, (trim expression).head? = some c ∧ c ≠ '@' := by
  obtain ⟨text, rest, htext, hs⟩ := spaced_begins h.2
  obtain ⟨f, -, rfl⟩ := List.mem_map.mp (List.mem_of_mem_head? htext)
  obtain ⟨c, chars, hchars⟩ := List.exists_cons_of_ne_nil f.chars_ne_nil
  refine ⟨c, ?_, ?_⟩
  · rw [hs, hchars]
    rfl
  · rintro rfl
    apply f.not_mem (c := '@') (by decide) (by decide) (by decide)
    rw [hchars]
    exact List.mem_cons_self

theorem nickname_head (h : String.ofList (trim expression) ∈ nicknames) : (trim expression).head? = some '@' := by
  have hall : ∀ name ∈ nicknames, name.toList.head? = some '@' := by decide
  have hname := hall _ h
  rwa [String.toList_ofList] at hname

theorem fields_iff (hnil : trim expression ≠ []) :
    ((splitSpaces (trim expression)).length = 5 ∧
        ((cronFields.zip (splitSpaces (trim expression))).findSome? fun entry => fieldProblem entry.2 entry.1) = none) ↔
      ∃ fields, Written expression fields ∧ InBounds fields := by
  constructor
  · rintro ⟨hlength, hnone⟩
    have hfields : List.Forall₂ (fun field text => ∃ f : Field, f.chars = text ∧ ∀ p ∈ f.parts, p.Fits field)
        cronFields (splitSpaces (trim expression)) := by
      rw [List.forall₂_iff_zip]
      refine ⟨hlength.symm, ?_⟩
      intro field text hmem
      exact fieldProblem_iff.mp (List.findSome?_eq_none_iff.mp hnone (field, text) hmem)
    obtain ⟨fields, htexts, hbounds⟩ := readings hfields
    refine ⟨fields, ⟨hbounds.length_eq.symm, ?_⟩, hbounds⟩
    rw [htexts]
    apply spaced_splitSpaces _ (le_refl _) hnil (trim_head expression)
    intro c hc
    rw [List.getLast?_eq_head?_reverse, trim, List.reverse_reverse] at hc
    exact trimStart_head _ c hc
  · rintro ⟨fields, hwritten, hbounds⟩
    rw [written_texts hwritten]
    refine ⟨by rw [List.length_map]; exact hwritten.1, ?_⟩
    rw [List.findSome?_eq_none_iff]
    rintro ⟨field, text⟩ hmem
    rw [List.zip_map_right] at hmem
    obtain ⟨⟨field', f⟩, hentry, heq⟩ := List.mem_map.mp hmem
    cases heq
    exact fieldProblem_iff.mpr ⟨f, rfl, (List.forall₂_iff_zip.mp hbounds).2 hentry⟩

theorem describe_iff (expression : List Char) :
    describeCronScheduleProblem expression = none ↔ String.ofList (trim expression) ∈ nicknames ∨
      ∃ fields, Written expression fields ∧ InBounds fields := by
  rw [describeCronScheduleProblem]
  by_cases hnil : trim expression = []
  · have hneither : ¬ (String.ofList (trim expression) ∈ nicknames ∨
        ∃ fields, Written expression fields ∧ InBounds fields) := by
      rintro (hname | ⟨fields, hwritten, -⟩)
      · have hhead := nickname_head hname
        rw [hnil] at hhead
        cases hhead
      · obtain ⟨c, hhead, -⟩ := written_head hwritten
        rw [hnil] at hhead
        cases hhead
    dsimp only
    rw [if_pos hnil]
    simpa using hneither
  · dsimp only
    rw [if_neg hnil]
    by_cases hat : (trim expression).head? = some '@'
    · have hfields : ¬ ∃ fields, Written expression fields ∧ InBounds fields := by
        rintro ⟨fields, hwritten, -⟩
        obtain ⟨c, hhead, hne⟩ := written_head hwritten
        rw [hhead] at hat
        exact hne (Option.some.inj hat)
      rw [if_pos hat]
      split
      · rename_i hname
        exact ⟨fun _ => .inl hname, fun _ => rfl⟩
      · rename_i hname
        simp [hname, hfields]
    · have hname : String.ofList (trim expression) ∉ nicknames := fun hname => hat (nickname_head hname)
      rw [if_neg hat, ← fields_iff hnil]
      split
      · rename_i hlength
        simp [hname, hlength]
      · rename_i hlength
        simp [hname, not_not.mp hlength]

/-- The one thing that is not checked is a step against the size of its field. -/
theorem accepts_runnable_iff (size : CronField → ℕ) (expression : List Char) :
    (describeCronScheduleProblem expression = none ↔ Runnable size expression) ↔
      ∀ fields, Written expression fields → InBounds fields → StepsFit size fields := by
  rw [describe_iff]
  constructor
  · intro h fields hwritten hbounds
    obtain hname | ⟨fields', hwritten', -, hsteps⟩ := h.mp (.inr ⟨fields, hwritten, hbounds⟩)
    · obtain ⟨c, hhead, hne⟩ := written_head hwritten
      rw [nickname_head hname] at hhead
      exact absurd (Option.some.inj hhead).symm hne
    · rwa [written_unique hwritten hwritten']
  · intro hsteps
    apply or_congr Iff.rfl
    constructor
    · rintro ⟨fields, hwritten, hbounds⟩
      exact ⟨fields, hwritten, hbounds, hsteps fields hwritten hbounds⟩
    · rintro ⟨fields, hwritten, hbounds, -⟩
      exact ⟨fields, hwritten, hbounds⟩

/-- The size of each field, as the scheduler has it. -/
def sizes (field : CronField) : ℕ := if field.name = "day of week" then 7 else field.max + 1 - field.min

/-- Every hundredth minute. -/
def hundredth : Field where
  parts := [⟨.star, some ⟨['1', '0', '0'], rfl⟩, by simp⟩]
  ne_nil := List.cons_ne_nil _ _

theorem step_too_long :
    describeCronScheduleProblem ['*', '/', '1', '0', '0', ' ', '*', ' ', '*', ' ', '*', ' ', '*'] = none ∧
      ¬ Runnable sizes ['*', '/', '1', '0', '0', ' ', '*', ' ', '*', ' ', '*', ' ', '*'] := by
  refine ⟨by decide, ?_⟩
  rintro (hname | ⟨fields, hwritten, -, hsteps⟩)
  · exact absurd hname (by decide)
  · have htexts := written_texts hwritten
    cases hsteps with
    | cons hminute _ =>
      rename_i f _ _
      have hf : f = hundredth := by
        apply Field.chars_injective
        exact (List.cons.inj htexts).1.symm
      rw [hf] at hminute
      exact absurd (hminute _ List.mem_cons_self _ rfl) (by decide)

end Accepted

end OpenMigrate.Cron
