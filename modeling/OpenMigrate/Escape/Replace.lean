import Mathlib.Data.List.Infix
import Mathlib.Tactic.Common

namespace OpenMigrate.Escape

/-- A text as its code units. -/
abbrev Units := List ℕ

def ampersand : ℕ := 38

def semicolon : ℕ := 59

/-- What a replacement puts for what stands between an ampersand and a semicolon; it may fail. -/
abbrev Rule := Units → Option (Option Units)

/-- What stands before the first semicolon. -/
def upTo : Units → Option Units
  | [] => none
  | u :: rest => if u = semicolon then some [] else (upTo rest).map (u :: ·)

/-- What a rule finds behind an ampersand, and how many units it takes. -/
def found (rule : Rule) (rest : Units) : Option (Option Units × ℕ) :=
  (upTo rest).bind fun inner => (rule inner).map fun put => (put, inner.length + 1)

/-- One replacement all over a text, from left to right; `skip` units have been taken already. -/
def replaceFrom (rule : Rule) : ℕ → Units → Option Units
  | _, [] => some []
  | skip + 1, _ :: rest => replaceFrom rule skip rest
  | 0, u :: rest =>
    match if u = ampersand then found rule rest else none with
    | some (put, taken) => put.bind fun put => (replaceFrom rule taken rest).map (put ++ ·)
    | none => (replaceFrom rule 0 rest).map (u :: ·)

def replace (rule : Rule) (text : Units) : Option Units := replaceFrom rule 0 text

/-- Replacements one after the other. -/
def decode (rules : List Rule) (text : Units) : Option Units := rules.foldlM (fun text rule => replace rule text) text

/-- A unit as it is, or a reference that stands for units. -/
structure Ref where
  inner : Units
  units : Units

inductive Token where
  | lit (u : ℕ)
  | ref (r : Ref)

def Token.text : Token → Units
  | lit u => [u]
  | ref r => ampersand :: (r.inner ++ [semicolon])

def Token.units : Token → Units
  | lit u => [u]
  | ref r => r.units

def render (ts : List Token) : Units := ts.flatMap Token.text

def meaning (ts : List Token) : Units := ts.flatMap Token.units

def lits (units : Units) : List Token := units.map Token.lit

/-- The token with its reference decoded, where the rule reads it. -/
def Token.readBy (rule : Rule) : Token → List Token
  | lit u => [lit u]
  | ref r => if (rule r.inner).isSome then lits r.units else [ref r]

/-- The tokens after a rule that decodes what it should. -/
def decodedBy (rule : Rule) (ts : List Token) : List Token := ts.flatMap (Token.readBy rule)

/-- A decoded ampersand stands before units that spell what the rule reads. -/
def Spells (rule : Rule) (ts : List Token) : Prop :=
  ∃ before inner after, ts = before ++ .lit ampersand :: (lits inner ++ .lit semicolon :: after) ∧
    semicolon ∉ inner ∧ (rule inner).isSome = true

/-- The rule spells nothing by accident, and puts what each reference stands for. -/
structure Exact (rule : Rule) (ts : List Token) : Prop where
  spells : ¬ Spells rule ts
  refs : ∀ r, Token.ref r ∈ ts → ∀ put, rule r.inner = some put → put = some r.units

/-- What a rule reads has no ampersand and no semicolon, and is longer than what it puts. -/
structure Rule.Good (rule : Rule) : Prop where
  plain : ∀ inner, (rule inner).isSome = true → ampersand ∉ inner
  short : ∀ inner put, rule inner = some (some put) → put.length < inner.length + 2

/-- A reference that the rule decodes as it should, or to less. -/
structure Ref.Fits (rule : Rule) (r : Ref) : Prop where
  ampersand : ampersand ∉ r.inner
  semicolon : semicolon ∉ r.inner
  put : ∀ put, rule r.inner = some put →
    put = some r.units ∨ ∃ units, put = some units ∧ units.length < r.units.length

section Texts

variable {rule : Rule} {inner rest : Units}

theorem upTo_append (h : semicolon ∉ inner) (rest : Units) : upTo (inner ++ semicolon :: rest) = some inner := by
  induction inner with
  | nil => rfl
  | cons u inner ih =>
    have hu : u ≠ semicolon := fun heq => h (heq ▸ List.mem_cons_self)
    rw [List.cons_append, upTo, if_neg hu, ih fun hmem => h (List.mem_cons_of_mem u hmem)]
    rfl

theorem upTo_split {text : Units} (h : upTo text = some inner) :
    ∃ rest, text = inner ++ semicolon :: rest ∧ semicolon ∉ inner := by
  induction text generalizing inner with
  | nil => cases h
  | cons u text ih =>
    rw [upTo] at h
    by_cases hu : u = semicolon
    · rw [if_pos hu] at h
      obtain rfl := Option.some.inj h
      exact ⟨text, by rw [hu]; rfl, List.not_mem_nil⟩
    · rw [if_neg hu] at h
      obtain ⟨inner', hinner, rfl⟩ := Option.map_eq_some_iff.mp h
      obtain ⟨rest, rfl, hno⟩ := ih hinner
      exact ⟨rest, rfl, by simp [hno, Ne.symm hu]⟩

theorem replaceFrom_drop (skip : ℕ) (text : Units) : replaceFrom rule skip text = replace rule (text.drop skip) := by
  induction skip generalizing text with
  | zero => rfl
  | succ skip ih =>
    cases text with
    | nil => rfl
    | cons u text => exact ih text

theorem replace_plain {u : ℕ} (hu : u ≠ ampersand) (rest : Units) :
    replace rule (u :: rest) = (replace rule rest).map (u :: ·) := by
  rw [replace, replaceFrom, if_neg hu]
  rfl

theorem replace_plains {units : Units} (h : ampersand ∉ units) (rest : Units) :
    replace rule (units ++ rest) = (replace rule rest).map (units ++ ·) := by
  induction units with
  | nil => simp
  | cons u units ih =>
    have hu : u ≠ ampersand := fun heq => h (heq ▸ List.mem_cons_self)
    rw [List.cons_append, replace_plain hu, ih fun hmem => h (List.mem_cons_of_mem u hmem), Option.map_map]
    rfl

theorem replace_found {put : Option Units} (hno : semicolon ∉ inner) (hrule : rule inner = some put) (rest : Units) :
    replace rule (ampersand :: (inner ++ semicolon :: rest)) =
      put.bind fun put => (replace rule rest).map (put ++ ·) := by
  have hfound : found rule (inner ++ semicolon :: rest) = some (put, inner.length + 1) := by
    rw [found, upTo_append hno, Option.bind_some, hrule, Option.map_some]
  have hdrop : (inner ++ semicolon :: rest).drop (inner.length + 1) = rest := by simp
  rw [replace, replaceFrom, if_pos rfl, hfound]
  dsimp only
  rw [replaceFrom_drop, hdrop]

theorem replace_ampersand (h : ∀ inner, upTo rest = some inner → rule inner = none) :
    replace rule (ampersand :: rest) = (replace rule rest).map (ampersand :: ·) := by
  have hfound : found rule rest = none := by
    rw [found]
    cases hup : upTo rest with
    | none => rfl
    | some inner => rw [Option.bind_some, h inner hup, Option.map_none]
  rw [replace, replaceFrom, if_pos rfl, hfound]
  rfl

end Texts

section Tokens

variable {rule : Rule} {ts : List Token} {inner rest : Units}

@[simp] theorem render_lit (u : ℕ) (ts : List Token) : render (.lit u :: ts) = u :: render ts := rfl

@[simp] theorem render_ref (r : Ref) (ts : List Token) :
    render (.ref r :: ts) = ampersand :: (r.inner ++ semicolon :: render ts) := by
  simp [render, Token.text]

@[simp] theorem render_lits (units : Units) (ts : List Token) : render (lits units ++ ts) = units ++ render ts := by
  simp [render, lits, Token.text, List.flatMap_map]

@[simp] theorem meaning_lits (units : Units) (ts : List Token) : meaning (lits units ++ ts) = units ++ meaning ts := by
  simp [meaning, lits, Token.units, List.flatMap_map]

@[simp] theorem meaning_lit (u : ℕ) (ts : List Token) : meaning (.lit u :: ts) = u :: meaning ts := rfl

@[simp] theorem meaning_ref (r : Ref) (ts : List Token) : meaning (.ref r :: ts) = r.units ++ meaning ts := rfl

/-- Units without an ampersand up to a semicolon are units as they are. -/
theorem lits_of_render (h : render ts = inner ++ semicolon :: rest) (hno : ampersand ∉ inner) :
    ∃ after, ts = lits inner ++ .lit semicolon :: after ∧ render after = rest := by
  induction inner generalizing ts with
  | nil =>
    cases ts with
    | nil => cases h
    | cons t ts =>
      cases t with
      | lit u =>
        obtain ⟨rfl, hrest⟩ := List.cons.inj h
        exact ⟨ts, rfl, hrest⟩
      | ref r =>
        rw [render_ref] at h
        exact absurd (List.cons.inj h).1 (by decide)
  | cons u inner ih =>
    cases ts with
    | nil => cases h
    | cons t ts =>
      cases t with
      | lit u' =>
        obtain ⟨rfl, hrest⟩ := List.cons.inj h
        obtain ⟨after, rfl, hafter⟩ := ih hrest fun hmem => hno (List.mem_cons_of_mem u' hmem)
        exact ⟨after, rfl, hafter⟩
      | ref r =>
        rw [render_ref] at h
        exact absurd ((List.cons.inj h).1 ▸ List.mem_cons_self) hno

theorem Spells.cons {t : Token} (h : Spells rule ts) : Spells rule (t :: ts) := by
  obtain ⟨before, inner, after, rfl, hno, hrule⟩ := h
  exact ⟨t :: before, inner, after, rfl, hno, hrule⟩

theorem Exact.tail {t : Token} (h : Exact rule (t :: ts)) : Exact rule ts where
  spells hspells := h.spells hspells.cons
  refs r hr := h.refs r (List.mem_cons_of_mem t hr)

theorem spelled (hgood : rule.Good) (hup : upTo (render ts) = some inner) (hrule : (rule inner).isSome = true) :
    ∃ after, ts = lits inner ++ .lit semicolon :: after ∧ semicolon ∉ inner := by
  obtain ⟨rest, htext, hno⟩ := upTo_split hup
  obtain ⟨after, hts, -⟩ := lits_of_render htext (hgood.plain inner hrule)
  exact ⟨after, hts, hno⟩

theorem replace_exact (hgood : rule.Good) (hfits : ∀ r, Token.ref r ∈ ts → r.Fits rule) (hexact : Exact rule ts) :
    replace rule (render ts) = some (render (decodedBy rule ts)) := by
  induction ts with
  | nil => rfl
  | cons t ts ih =>
    have hrest := ih (fun r hr => hfits r (List.mem_cons_of_mem t hr)) hexact.tail
    cases t with
    | lit u =>
      have hlit : render (decodedBy rule (.lit u :: ts)) = u :: render (decodedBy rule ts) := rfl
      rw [render_lit, hlit]
      by_cases hu : u = ampersand
      · subst hu
        rw [replace_ampersand, hrest]
        · rfl
        · intro inner hup
          by_contra hsome
          obtain ⟨after, rfl, hno⟩ := spelled hgood hup (Option.isSome_iff_ne_none.mpr hsome)
          exact hexact.spells ⟨[], inner, after, rfl, hno, Option.isSome_iff_ne_none.mpr hsome⟩
      · rw [replace_plain hu, hrest]
        rfl
    | ref r =>
      have hr := hfits r List.mem_cons_self
      have hsplit : render (decodedBy rule (.ref r :: ts)) =
          render (Token.readBy rule (.ref r) ++ decodedBy rule ts) := rfl
      rw [render_ref, hsplit, Token.readBy]
      cases hrule : rule r.inner with
      | some put =>
        rw [replace_found hr.semicolon hrule, hexact.refs r List.mem_cons_self put hrule, hrest]
        simp
      | none =>
        rw [replace_ampersand, replace_plains hr.ampersand, replace_plain (by decide), hrest]
        · simp
        · intro inner hup
          rw [upTo_append hr.semicolon] at hup
          rw [← Option.some.inj hup]
          exact hrule

/-- What a replacement makes of tokens, whether it is exact or not. -/
structure Replaced (rule : Rule) (ts ts' : List Token) : Prop where
  refs : ∀ r, Token.ref r ∈ ts' → Token.ref r ∈ ts ∧ rule r.inner = none
  le : (meaning ts').length ≤ (meaning ts).length
  lt : ¬ Exact rule ts → (meaning ts').length < (meaning ts).length

theorem Replaced.keep {ts' : List Token} (h : Replaced rule ts ts') {t : Token}
    (hkeep : ∀ r, Token.ref r = t → rule r.inner = none) (hexact : Exact rule ts → Exact rule (t :: ts)) :
    Replaced rule (t :: ts) (t :: ts') := by
  have hmeaning : ∀ l, (meaning (t :: l)).length = t.units.length + (meaning l).length := fun l => List.length_append
  constructor
  · intro r hr
    obtain hr | hr := List.mem_cons.mp hr
    · exact ⟨hr ▸ List.mem_cons_self, hkeep r hr⟩
    · exact ⟨List.mem_cons_of_mem _ (h.refs r hr).1, (h.refs r hr).2⟩
  · rw [hmeaning, hmeaning]
    exact Nat.add_le_add_left h.le _
  · intro hno
    rw [hmeaning, hmeaning]
    exact Nat.add_lt_add_left (h.lt fun hrest => hno (hexact hrest)) _

theorem Replaced.put {ts' : List Token} (h : Replaced rule ts ts') (head : List Token) {put : Units}
    (hlength : put.length ≤ (meaning head).length)
    (hexact : put.length < (meaning head).length ∨ (Exact rule ts → Exact rule (head ++ ts))) :
    Replaced rule (head ++ ts) (lits put ++ ts') := by
  have hmeaning : meaning (head ++ ts) = meaning head ++ meaning ts := List.flatMap_append
  constructor
  · intro r hr
    obtain hr | hr := List.mem_append.mp hr
    · simp [lits] at hr
    · exact ⟨List.mem_append_right _ (h.refs r hr).1, (h.refs r hr).2⟩
  · rw [meaning_lits, hmeaning, List.length_append, List.length_append]
    exact Nat.add_le_add hlength h.le
  · intro hno
    rw [meaning_lits, hmeaning, List.length_append, List.length_append]
    obtain hless | hexact := hexact
    · exact Nat.add_lt_add_of_lt_of_le hless h.le
    · exact Nat.add_lt_add_of_le_of_lt hlength (h.lt fun hrest => hno (hexact hrest))

theorem exact_nil : Exact rule [] where
  spells := by
    rintro ⟨before, inner, after, h, -⟩
    simp at h
  refs := by simp

theorem exact_lit {u : ℕ} (hu : u = ampersand → ∀ inner, upTo (render ts) = some inner → rule inner = none)
    (h : Exact rule ts) : Exact rule (.lit u :: ts) := by
  constructor
  · rintro ⟨before, inner, after, hsplit, hno, hrule⟩
    cases before with
    | nil =>
      obtain ⟨hlit, rfl⟩ := List.cons.inj hsplit
      obtain rfl := Token.lit.inj hlit
      have hup : upTo (render (lits inner ++ .lit semicolon :: after)) = some inner := by
        rw [render_lits, render_lit, upTo_append hno]
      rw [hu rfl inner hup] at hrule
      cases hrule
    | cons t before =>
      obtain ⟨-, rfl⟩ := List.cons.inj hsplit
      exact h.spells ⟨before, inner, after, rfl, hno, hrule⟩
  · intro r hr
    obtain hr | hr := List.mem_cons.mp hr
    · cases hr
    · exact h.refs r hr

theorem exact_ref {r : Ref} (hr : ∀ put, rule r.inner = some put → put = some r.units) (h : Exact rule ts) :
    Exact rule (.ref r :: ts) := by
  constructor
  · rintro ⟨before, inner, after, hsplit, hno, hrule⟩
    cases before with
    | nil => cases (List.cons.inj hsplit).1
    | cons t before =>
      obtain ⟨-, rfl⟩ := List.cons.inj hsplit
      exact h.spells ⟨before, inner, after, rfl, hno, hrule⟩
  · intro r' hr'
    obtain hr' | hr' := List.mem_cons.mp hr'
    · obtain rfl := Token.ref.inj hr'
      exact hr
    · exact h.refs r' hr'

theorem replaced (hgood : rule.Good) (hfits : ∀ r, Token.ref r ∈ ts → r.Fits rule) {out : Units}
    (h : replace rule (render ts) = some out) : ∃ ts', out = render ts' ∧ Replaced rule ts ts' := by
  induction hn : ts.length using Nat.strong_induction_on generalizing ts out with
  | _ n ih =>
    cases ts with
    | nil =>
      obtain rfl := Option.some.inj h
      exact ⟨[], rfl, by simp, le_rfl, fun hno => absurd exact_nil hno⟩
    | cons t ts =>
      have hrest : ∀ r, Token.ref r ∈ ts → r.Fits rule := fun r hr => hfits r (List.mem_cons_of_mem t hr)
      have hshorter : ts.length < n := by
        rw [← hn, List.length_cons]
        exact Nat.lt_succ_self _
      cases t with
      | lit u =>
        rw [render_lit] at h
        by_cases hkeep : u = ampersand → ∀ inner, upTo (render ts) = some inner → rule inner = none
        · have hstep : replace rule (u :: render ts) = (replace rule (render ts)).map (u :: ·) := by
            by_cases hu : u = ampersand
            · rw [hu]
              exact replace_ampersand (hkeep hu)
            · exact replace_plain hu _
          rw [hstep] at h
          obtain ⟨out', hout, rfl⟩ := Option.map_eq_some_iff.mp h
          obtain ⟨ts', rfl, hts'⟩ := ih _ hshorter hrest hout rfl
          exact ⟨.lit u :: ts', rfl, hts'.keep (by simp) (exact_lit hkeep)⟩
        · -- a decoded ampersand is taken for the start of a reference
          push Not at hkeep
          obtain ⟨rfl, inner, hup, hsome⟩ := hkeep
          obtain ⟨after, rfl, hno⟩ := spelled hgood hup (Option.isSome_iff_ne_none.mpr hsome)
          obtain ⟨put, hrule⟩ := Option.ne_none_iff_exists'.mp hsome
          rw [render_lits, render_lit, replace_found hno hrule] at h
          obtain ⟨units, rfl, h⟩ := Option.bind_eq_some_iff.mp h
          obtain ⟨out', hout, rfl⟩ := Option.map_eq_some_iff.mp h
          have hafter : after.length < n := by
            have hlength : after.length < (lits inner ++ Token.lit semicolon :: after).length := by
              rw [List.length_append, List.length_cons]
              omega
            exact hlength.trans hshorter
          obtain ⟨ts', rfl, hts'⟩ := ih _ hafter (fun r hr => hrest r (by simp [hr])) hout rfl
          have hshort : units.length < (meaning (.lit ampersand :: (lits inner ++ [.lit semicolon]))).length := by
            have hput := hgood.short inner units hrule
            rw [meaning_lit, meaning_lits, meaning_lit, List.length_cons, List.length_append, List.length_cons]
            omega
          have hput := hts'.put _ hshort.le (.inl hshort)
          rw [List.cons_append, List.append_assoc, List.singleton_append] at hput
          exact ⟨lits units ++ ts', (render_lits _ _).symm, hput⟩
      | ref r =>
        have hr := hfits r List.mem_cons_self
        rw [render_ref] at h
        cases hrule : rule r.inner with
        | some put =>
          rw [replace_found hr.semicolon hrule] at h
          obtain ⟨units, rfl, h⟩ := Option.bind_eq_some_iff.mp h
          obtain ⟨out', hout, rfl⟩ := Option.map_eq_some_iff.mp h
          obtain ⟨ts', rfl, hts'⟩ := ih _ hshorter hrest hout rfl
          have hmeaning : meaning [.ref r] = r.units := by simp [meaning, Token.units]
          refine ⟨lits units ++ ts', (render_lits _ _).symm, hts'.put [.ref r] ?_ ?_⟩
          · rw [hmeaning]
            obtain hright | ⟨units', hunits, hless⟩ := hr.put _ hrule
            · rw [Option.some.inj hright]
            · rw [Option.some.inj hunits]
              exact hless.le
          · rw [hmeaning]
            obtain hright | ⟨units', hunits, hless⟩ := hr.put _ hrule
            · right
              apply exact_ref
              intro put hput
              rw [hrule] at hput
              rw [← Option.some.inj hput, hright]
            · left
              rw [Option.some.inj hunits]
              exact hless
        | none =>
          have hstep : replace rule (ampersand :: (r.inner ++ semicolon :: render ts)) =
              (replace rule (render ts)).map (ampersand :: r.inner ++ semicolon :: ·) := by
            rw [replace_ampersand, replace_plains hr.ampersand, replace_plain (by decide), Option.map_map,
              Option.map_map]
            · rfl
            · intro inner hup
              rw [upTo_append hr.semicolon] at hup
              rw [← Option.some.inj hup]
              exact hrule
          rw [hstep] at h
          obtain ⟨out', hout, rfl⟩ := Option.map_eq_some_iff.mp h
          obtain ⟨ts', rfl, hts'⟩ := ih _ hshorter hrest hout rfl
          refine ⟨.ref r :: ts', by simp, hts'.keep ?_ (exact_ref ?_)⟩
          · intro r' hr'
            rw [Token.ref.inj hr']
            exact hrule
          · intro put hput
            rw [hrule] at hput
            cases hput

end Tokens

section Decode

variable {rules : List Rule} {ts : List Token}

theorem render_of_no_refs (h : ∀ r, Token.ref r ∉ ts) : render ts = meaning ts := by
  induction ts with
  | nil => rfl
  | cons t ts ih =>
    have hrest := ih fun r hr => h r (List.mem_cons_of_mem t hr)
    cases t with
    | lit u => rw [render_lit, meaning_lit, hrest]
    | ref r => exact absurd List.mem_cons_self (h r)

theorem meaning_decodedBy (rule : Rule) (ts : List Token) : meaning (decodedBy rule ts) = meaning ts := by
  have hone : ∀ t : Token, meaning (t.readBy rule) = t.units := by
    intro t
    cases t with
    | lit u => rfl
    | ref r =>
      rw [Token.readBy]
      split
      · simpa [meaning, Token.units] using meaning_lits r.units []
      · simp [meaning]
  induction ts with
  | nil => rfl
  | cons t ts ih =>
    have hsplit : meaning (decodedBy rule (t :: ts)) = meaning (t.readBy rule) ++ meaning (decodedBy rule ts) :=
      List.flatMap_append
    rw [hsplit, hone, ih]
    rfl

theorem ref_of_decodedBy {rule : Rule} {r : Ref} (h : Token.ref r ∈ decodedBy rule ts) :
    Token.ref r ∈ ts ∧ rule r.inner = none := by
  obtain ⟨t, ht, hr⟩ := List.mem_flatMap.mp h
  cases t with
  | lit u => simp [Token.readBy] at hr
  | ref r' =>
    rw [Token.readBy] at hr
    split at hr
    · simp [lits] at hr
    · rename_i hno
      obtain rfl := Token.ref.inj (List.mem_singleton.mp hr)
      exact ⟨ht, by simpa using hno⟩

theorem read_later {rule : Rule} {r : Ref} (hread : ∃ rule' ∈ rule :: rules, (rule' r.inner).isSome = true)
    (hnone : rule r.inner = none) : ∃ rule' ∈ rules, (rule' r.inner).isSome = true := by
  obtain ⟨rule', hrule', hsome⟩ := hread
  obtain rfl | hrule' := List.mem_cons.mp hrule'
  · rw [hnone] at hsome
    cases hsome
  · exact ⟨rule', hrule', hsome⟩

theorem decode_length (hgood : ∀ rule ∈ rules, rule.Good)
    (hfits : ∀ r, Token.ref r ∈ ts → ∀ rule ∈ rules, r.Fits rule)
    (hread : ∀ r, Token.ref r ∈ ts → ∃ rule ∈ rules, (rule r.inner).isSome = true) {out : Units}
    (h : decode rules (render ts) = some out) : out.length ≤ (meaning ts).length := by
  induction rules generalizing ts with
  | nil =>
    obtain rfl := Option.some.inj h
    have hno : ∀ r, Token.ref r ∉ ts := by
      intro r hr
      obtain ⟨rule, hrule, -⟩ := hread r hr
      cases hrule
    rw [render_of_no_refs hno]
  | cons rule rules ih =>
    obtain ⟨text, htext, hrest⟩ := Option.bind_eq_some_iff.mp h
    obtain ⟨ts', rfl, hts'⟩ := replaced (hgood rule List.mem_cons_self)
      (fun r hr => hfits r hr rule List.mem_cons_self) htext
    have hle := ih (fun rule' hrule' => hgood rule' (List.mem_cons_of_mem _ hrule'))
      (fun r hr rule' hrule' => hfits r (hts'.refs r hr).1 rule' (List.mem_cons_of_mem _ hrule'))
      (fun r hr => read_later (hread r (hts'.refs r hr).1) (hts'.refs r hr).2) hrest
    exact hle.trans hts'.le

/-- The tokens after rules that decode what they should. -/
def decodedByAll (done : List Rule) (ts : List Token) : List Token := done.foldl (fun ts rule => decodedBy rule ts) ts

/-- Every rule is exact on what the rules before it leave. -/
def AllExact (rules : List Rule) (ts : List Token) : Prop :=
  ∀ done rule later, rules = done ++ rule :: later → Exact rule (decodedByAll done ts)

/-- No rule reads a reference that the decoding before it has made. -/
def NoneSpelled (rules : List Rule) (ts : List Token) : Prop :=
  ∀ done rule later, rules = done ++ rule :: later → ¬ Spells rule (decodedByAll done ts)

/-- No two rules read the same. -/
def Apart (rule rule' : Rule) : Prop := ∀ inner, (rule inner).isSome = true → (rule' inner).isSome = true → False

theorem AllExact.cons {rule : Rule} :
    AllExact (rule :: rules) ts ↔ Exact rule ts ∧ AllExact rules (decodedBy rule ts) := by
  constructor
  · intro h
    exact ⟨h [] rule rules rfl, fun done rule' later hsplit => h (rule :: done) rule' later (congrArg _ hsplit)⟩
  · rintro ⟨hfirst, hrest⟩ done rule' later hsplit
    cases done with
    | nil =>
      obtain ⟨rfl, -⟩ := List.cons.inj hsplit
      exact hfirst
    | cons rule'' done =>
      obtain ⟨rfl, hlater⟩ := List.cons.inj hsplit
      exact hrest done rule' later hlater

/-- Replacements one after the other undo an escaping exactly when every one of them is exact on what the ones before
it leave. -/
theorem decode_iff (hgood : ∀ rule ∈ rules, rule.Good)
    (hfits : ∀ r, Token.ref r ∈ ts → ∀ rule ∈ rules, r.Fits rule)
    (hread : ∀ r, Token.ref r ∈ ts → ∃ rule ∈ rules, (rule r.inner).isSome = true) :
    decode rules (render ts) = some (meaning ts) ↔ AllExact rules ts := by
  induction rules generalizing ts with
  | nil =>
    have hno : ∀ r, Token.ref r ∉ ts := by
      intro r hr
      obtain ⟨rule, hrule, -⟩ := hread r hr
      cases hrule
    constructor
    · intro _ done rule later hsplit
      exact absurd hsplit.symm (by simp)
    · intro _
      rw [← render_of_no_refs hno]
      rfl
  | cons rule rules ih =>
    have hfirst := hgood rule List.mem_cons_self
    have hfirstFits : ∀ r, Token.ref r ∈ ts → r.Fits rule := fun r hr => hfits r hr rule List.mem_cons_self
    have hlater : ∀ rule' ∈ rules, rule'.Good := fun rule' hrule' => hgood rule' (List.mem_cons_of_mem _ hrule')
    have hlaterFits : ∀ r, Token.ref r ∈ ts → ∀ rule' ∈ rules, r.Fits rule' := fun r hr rule' hrule' =>
      hfits r hr rule' (List.mem_cons_of_mem _ hrule')
    rw [AllExact.cons]
    by_cases hexact : Exact rule ts
    · have hstep : decode (rule :: rules) (render ts) = decode rules (render (decodedBy rule ts)) := by
        rw [decode, List.foldlM_cons, replace_exact hfirst hfirstFits hexact]
        rfl
      have hrest := ih hlater
        (fun (r : Ref) (hr : .ref r ∈ decodedBy rule ts) => hlaterFits r (ref_of_decodedBy hr).1)
        (fun r hr => read_later (hread r (ref_of_decodedBy hr).1) (ref_of_decodedBy hr).2)
      rw [meaning_decodedBy] at hrest
      rw [hstep, hrest]
      exact (and_iff_right hexact).symm
    · constructor
      · intro h
        obtain ⟨text, htext, hrest⟩ := Option.bind_eq_some_iff.mp h
        obtain ⟨ts', rfl, hts'⟩ := replaced hfirst hfirstFits htext
        have hle := decode_length hlater (fun r hr => hlaterFits r (hts'.refs r hr).1)
          (fun r hr => read_later (hread r (hts'.refs r hr).1) (hts'.refs r hr).2) hrest
        exact absurd (hle.trans_lt (hts'.lt hexact)) (lt_irrefl _)
      · exact fun h => absurd h.1 hexact

theorem ref_of_decodedByAll {done : List Rule} {r : Ref} (h : Token.ref r ∈ decodedByAll done ts) :
    Token.ref r ∈ ts := by
  induction done generalizing ts with
  | nil => exact h
  | cons rule done ih => exact (ref_of_decodedBy (ih h)).1

theorem ref_stays {done : List Rule} {r : Ref} (hr : Token.ref r ∈ ts) (hdone : ∀ rule ∈ done, rule r.inner = none) :
    Token.ref r ∈ decodedByAll done ts := by
  induction done generalizing ts with
  | nil => exact hr
  | cons rule done ih =>
    apply ih _ fun rule' hrule' => hdone rule' (List.mem_cons_of_mem _ hrule')
    apply List.mem_flatMap.mpr
    refine ⟨.ref r, hr, ?_⟩
    rw [Token.readBy, hdone rule List.mem_cons_self]
    exact List.mem_singleton_self _

/-- Where no two rules read the same, it is enough to look at each reference on its own. -/
theorem allExact_iff (hapart : rules.Pairwise Apart) :
    AllExact rules ts ↔ NoneSpelled rules ts ∧
      ∀ r, Token.ref r ∈ ts → ∀ rule ∈ rules, ∀ put, rule r.inner = some put → put = some r.units := by
  constructor
  · intro h
    refine ⟨fun done rule later hsplit => (h done rule later hsplit).spells, ?_⟩
    intro r hr rule hrule put hput
    obtain ⟨done, later, rfl⟩ := List.append_of_mem hrule
    have hsome : (rule r.inner).isSome = true := by rw [hput]; rfl
    have hdone : ∀ rule' ∈ done, rule' r.inner = none := by
      intro rule' hrule'
      have hdisjoint := (List.pairwise_append.mp hapart).2.2 rule' hrule' rule List.mem_cons_self
      by_contra hread
      exact hdisjoint r.inner (Option.isSome_iff_ne_none.mpr hread) hsome
    exact (h done rule later rfl).refs r (ref_stays hr hdone) put hput
  · rintro ⟨hnone, hrefs⟩ done rule later hsplit
    constructor
    · exact hnone done rule later hsplit
    · intro r hr put hput
      have hrule : rule ∈ rules := by
        rw [hsplit]
        simp
      exact hrefs r (ref_of_decodedByAll hr) rule hrule put hput

end Decode

end OpenMigrate.Escape
