import OpenMigrate.Dav.ContentLine

namespace OpenMigrate.Dav

section Source

/-- The text behind each end of a line. -/
def startsAfter : List Char → List (List Char)
  | [] => []
  | c :: rest => if isTerminator c then rest :: startsAfter rest else startsAfter rest

def starts (text : List Char) : List (List Char) := text :: startsAfter text

/-- The first match of a pattern that begins with `^`. -/
def firstMatch (pattern : List Char → Option (List Char)) (text : List Char) : Option (List Char) :=
  (starts text).findSome? pattern

/-- What stands behind `UID`, in either case. -/
def afterUid (s : List Char) : Option (List Char) :=
  if lower (s.take 3) = ['u', 'i', 'd'] then some (s.drop 3) else none

/-- `UID[:\s]([^\r\n]+)` -/
def uidText (s : List Char) : Option (List Char) :=
  match afterUid s with
  | some (c :: rest) =>
    let text := rest.takeWhile fun d => !isBreak d
    if (c = ':' ∨ whiteSpace c = true) ∧ text ≠ [] then some text else none
  | _ => none

/-- `UID(?:;[^:\r\n]*)?:(.*)$` -/
def uidValue (s : List Char) : Option (List Char) :=
  match afterUid s with
  | some (':' :: rest) => some (rest.takeWhile fun c => !isTerminator c)
  | some (';' :: rest) =>
    match rest.dropWhile fun c => c != ':' && !isBreak c with
    | ':' :: value => some (value.takeWhile fun c => !isTerminator c)
    | _ => none
  | _ => none

/-- `UID:(.*)$` -/
def bareUidValue (s : List Char) : Option (List Char) :=
  match afterUid s with
  | some (':' :: rest) => some (rest.takeWhile fun c => !isTerminator c)
  | _ => none

/-- `replace(/\r\n[ \t]/g, '')` -/
def dropCrlfFolds : List Char → List Char
  | '\r' :: '\n' :: ' ' :: rest => dropCrlfFolds rest
  | '\r' :: '\n' :: '\t' :: rest => dropCrlfFolds rest
  | c :: rest => c :: dropCrlfFolds rest
  | [] => []

/-- `replace(/\n[ \t]/g, '')` -/
def dropLfFolds : List Char → List Char
  | '\n' :: ' ' :: rest => dropLfFolds rest
  | '\n' :: '\t' :: rest => dropLfFolds rest
  | c :: rest => c :: dropLfFolds rest
  | [] => []

/-- `replace(/\r\n/g, '\n')` -/
def crlfToLf : List Char → List Char
  | '\r' :: '\n' :: rest => '\n' :: crlfToLf rest
  | c :: rest => c :: crlfToLf rest
  | [] => []

/-- A UID that is not empty once it is trimmed. -/
def present (text : Option (List Char)) : Option (List Char) := (text.map trim).filter (· ≠ [])

def Caldav.extractUidFromIcalendar (icalendar : List Char) : Option (List Char) :=
  (firstMatch (fun s => uidText (s.dropWhile isBlank)) icalendar).map trim

def Carddav.extractUidFromVcard (vcard : List Char) : Option (List Char) := (firstMatch uidText vcard).map trim

/-- `parseCalendarData` and `parseCalendarObject`: without a UID there is no event. -/
def Caldav.listedUid (body : List Char) : Option (List Char) :=
  (Caldav.extractUidFromIcalendar (unfoldLines body)).filter (· ≠ [])

/-- `parseContactObject`: without a UID there is no contact. -/
def Carddav.listedUid (vcard : List Char) : Option (List Char) :=
  (Carddav.extractUidFromVcard vcard).filter (· ≠ [])

/-- `extractUid` of the multistatus reader. -/
def extractUid (body : List Char) : Option (List Char) :=
  present (firstMatch uidValue (dropLfFolds (dropCrlfFolds body)))

/-- `firstUid` of the orchestration. -/
def firstUid (text : List Char) : Option (List Char) :=
  present (firstMatch bareUidValue (dropLfFolds (crlfToLf text)))

end Source

section Rewritten

variable {c : Char} {t : Folding}

/-- The folds that are line feeds. -/
def Folding.atLf (t : Folding) : Folding := t.map fun e => (e.1.filter (·.lineEnd = .lf), e.2)

/-- The folds with a line feed each. -/
def Folding.withLf (t : Folding) : Folding := t.map fun e => (e.1.map fun f => { f with lineEnd := .lf }, e.2)

theorem plain_atLf (t : Folding) : t.atLf.plain = t.plain := by
  simp [Folding.atLf, Folding.plain, Function.comp_def]

theorem plain_withLf (t : Folding) : t.withLf.plain = t.plain := by
  simp [Folding.withLf, Folding.plain, Function.comp_def]

theorem fold_blank (f : Fold) : isBlank (if f.tab then '\t' else ' ') = true := by
  cases f.tab <;> rfl

theorem isBreak_ne (h : isBreak c = false) : c ≠ '\r' ∧ c ≠ '\n' := by
  constructor
  · rintro rfl
    cases h
  · rintro rfl
    cases h

theorem dropCrlfFolds_cons (h : c ≠ '\r') (rest : List Char) :
    dropCrlfFolds (c :: rest) = c :: dropCrlfFolds rest := by
  rw [dropCrlfFolds]
  · rintro rest' rfl
    exact absurd rfl h
  · rintro rest' rfl
    exact absurd rfl h

theorem dropLfFolds_cons (h : c ≠ '\n') (rest : List Char) : dropLfFolds (c :: rest) = c :: dropLfFolds rest := by
  rw [dropLfFolds]
  · rintro rest' rfl
    exact absurd rfl h
  · rintro rest' rfl
    exact absurd rfl h

theorem crlfToLf_cons (h : c ≠ '\r') (rest : List Char) : crlfToLf (c :: rest) = c :: crlfToLf rest := by
  rw [crlfToLf]
  rintro rest' rfl
  exact absurd rfl h

theorem dropCrlfFolds_line (h : ∀ c ∈ t.plain, isBreak c = false) (rest : List Char) :
    dropCrlfFolds (t.folded ++ rest) = t.atLf.folded ++ dropCrlfFolds rest := by
  induction t with
  | nil => rfl
  | cons e t ih =>
    obtain ⟨f, c⟩ := e
    rw [plain_cons, List.forall_mem_cons] at h
    have hc := (isBreak_ne h.1).1
    have hrest := ih h.2
    cases f with
    | none =>
      rw [folded_none, List.cons_append, dropCrlfFolds_cons hc, hrest]
      exact congrArg (· ++ _) (folded_none c).symm
    | some f =>
      obtain ⟨lineEnd, tab⟩ := f
      cases lineEnd with
      | crlf =>
        have hdrop : dropCrlfFolds (Folding.folded ((some ⟨.crlf, tab⟩, c) :: t) ++ rest) =
            dropCrlfFolds (c :: (Folding.folded t ++ rest)) := by
          cases tab <;> rfl
        rw [hdrop, dropCrlfFolds_cons hc, hrest]
        exact congrArg (· ++ _) (folded_none c).symm
      | lf =>
        have hkeep : dropCrlfFolds (Folding.folded ((some ⟨.lf, tab⟩, c) :: t) ++ rest) =
            (Fold.mk .lf tab).chars ++ dropCrlfFolds (c :: (Folding.folded t ++ rest)) := by
          cases tab <;> rfl
        rw [hkeep, dropCrlfFolds_cons hc, hrest]
        have hfolded := folded_some (t := Folding.atLf t) ⟨.lf, tab⟩ c
        rw [← List.cons_append, ← List.append_assoc]
        exact congrArg (· ++ _) hfolded.symm

theorem dropLfFolds_line (h : ∀ c ∈ t.plain, isBreak c = false) (hlf : ∀ e ∈ t, ∀ f ∈ e.1, f.lineEnd = .lf)
    (rest : List Char) : dropLfFolds (t.folded ++ rest) = t.plain ++ dropLfFolds rest := by
  induction t with
  | nil => rfl
  | cons e t ih =>
    obtain ⟨f, c⟩ := e
    rw [plain_cons, List.forall_mem_cons] at h
    rw [List.forall_mem_cons] at hlf
    have hc := (isBreak_ne h.1).2
    have hrest := ih h.2 hlf.2
    cases f with
    | none => rw [folded_none, List.cons_append, dropLfFolds_cons hc, hrest, plain_cons, List.cons_append]
    | some f =>
      obtain ⟨lineEnd, tab⟩ := f
      obtain rfl : lineEnd = .lf := hlf.1 _ rfl
      have hdrop : dropLfFolds (Folding.folded ((some ⟨.lf, tab⟩, c) :: t) ++ rest) =
          dropLfFolds (c :: (Folding.folded t ++ rest)) := by
        cases tab <;> rfl
      rw [hdrop, dropLfFolds_cons hc, hrest, plain_cons, List.cons_append]

theorem crlfToLf_line (h : ∀ c ∈ t.plain, isBreak c = false) (rest : List Char) :
    crlfToLf (t.folded ++ rest) = t.withLf.folded ++ crlfToLf rest := by
  induction t with
  | nil => rfl
  | cons e t ih =>
    obtain ⟨f, c⟩ := e
    rw [plain_cons, List.forall_mem_cons] at h
    have hc := (isBreak_ne h.1).1
    have hrest := ih h.2
    cases f with
    | none =>
      rw [folded_none, List.cons_append, crlfToLf_cons hc, hrest]
      exact congrArg (· ++ _) (folded_none c).symm
    | some f =>
      have hkeep : crlfToLf (Folding.folded ((some f, c) :: t) ++ rest) =
          ({ f with lineEnd := .lf } : Fold).chars ++ crlfToLf (c :: (Folding.folded t ++ rest)) := by
        obtain ⟨lineEnd, tab⟩ := f
        cases lineEnd <;> cases tab <;> rfl
      rw [hkeep, crlfToLf_cons hc, hrest]
      have hfolded := folded_some (t := Folding.withLf t) { f with lineEnd := .lf } c
      rw [← List.cons_append, ← List.append_assoc]
      exact congrArg (· ++ _) hfolded.symm

theorem atLf_lf : ∀ e ∈ t.atLf, ∀ f ∈ e.1, f.lineEnd = .lf := by
  intro e he f hf
  obtain ⟨e', -, rfl⟩ := List.mem_map.mp he
  have hkept := (Option.mem_filter_iff.mp hf).2
  exact of_decide_eq_true hkept

theorem withLf_lf : ∀ e ∈ t.withLf, ∀ f ∈ e.1, f.lineEnd = .lf := by
  intro e he f hf
  obtain ⟨e', -, rfl⟩ := List.mem_map.mp he
  obtain ⟨f', -, rfl⟩ := Option.map_eq_some_iff.mp hf
  rfl

theorem plain_folding (line : List Char) : Folding.folded (line.map fun c => (none, c)) = line := by
  simp [Folding.folded, List.flatMap_map]

theorem dropCrlfFolds_lineEnd (n : LineEnd) {rest : List Char} (h : Unindented rest) :
    dropCrlfFolds (n.chars ++ rest) = n.chars ++ dropCrlfFolds rest := by
  have hlf : dropCrlfFolds ('\n' :: rest) = '\n' :: dropCrlfFolds rest := dropCrlfFolds_cons (by decide) rest
  cases n with
  | lf => exact hlf
  | crlf =>
    have hcr : dropCrlfFolds ('\r' :: '\n' :: rest) = '\r' :: dropCrlfFolds ('\n' :: rest) := by
      rw [dropCrlfFolds]
      · rintro rest' - hrest
        have hspace := h ' ' (by rw [(List.cons.inj hrest).2]; rfl)
        cases hspace.1
      · rintro rest' - hrest
        have htab := h '\t' (by rw [(List.cons.inj hrest).2]; rfl)
        cases htab.1
    rw [LineEnd.chars, List.cons_append, List.cons_append, List.nil_append, hcr, hlf]
    rfl

theorem dropLfFolds_lf {rest : List Char} (h : Unindented rest) :
    dropLfFolds ('\n' :: rest) = '\n' :: dropLfFolds rest := by
  rw [dropLfFolds]
  · rintro rest' - rfl
    have hspace := h ' ' rfl
    cases hspace.1
  · rintro rest' - rfl
    have htab := h '\t' rfl
    cases htab.1

theorem dropLfFolds_lineEnd (n : LineEnd) {rest : List Char} (h : Unindented rest) :
    dropLfFolds (n.chars ++ rest) = n.chars ++ dropLfFolds rest := by
  cases n with
  | lf => exact dropLfFolds_lf h
  | crlf =>
    rw [LineEnd.chars, List.cons_append, List.cons_append, List.nil_append, dropLfFolds_cons (by decide),
      dropLfFolds_lf h]
    rfl

theorem crlfToLf_lineEnd (n : LineEnd) (rest : List Char) :
    crlfToLf (n.chars ++ rest) = '\n' :: crlfToLf rest := by
  cases n with
  | lf => exact crlfToLf_cons (by decide) rest
  | crlf => rfl

end Rewritten

section Texts

theorem folding_plain (l : FoldedLine) : ∀ c ∈ l.folding.plain, isBreak c = false := by
  rw [l.plain]
  exact fun c => text_break

theorem folded_head {t : Folding} {c : Char} (hc : isBlank c = false ∧ isBreak c = false) :
    Unindented (Folding.folded ((none, c) :: t)) ∧ Folding.folded ((none, c) :: t) ≠ [] := by
  rw [folded_none]
  constructor
  · rintro d ⟨⟩
    exact hc
  · exact List.cons_ne_nil _ _

theorem folding_head (l : FoldedLine) : Unindented l.folding.folded ∧ l.folding.folded ≠ [] := by
  obtain ⟨c, t, hfolding, hc⟩ := l.folding_cons
  rw [hfolding]
  exact folded_head hc

theorem line_head (l : FoldedLine) : Unindented l.line.text ∧ l.line.text ≠ [] := by
  obtain ⟨c, t, hfolding, hc⟩ := l.folding_cons
  rw [← l.plain, hfolding, plain_cons]
  constructor
  · rintro d ⟨⟩
    exact hc
  · exact List.cons_ne_nil _ _

theorem dropFolds_text (b : Body) :
    dropLfFolds (dropCrlfFolds b.text) = b.render (fun l => l.line.text) LineEnd.chars := by
  have hcrlf : dropCrlfFolds b.text = b.render (fun l => l.folding.atLf.folded) LineEnd.chars := by
    apply render_rewrite b rfl
    · intro l n rest hrest
      rw [dropCrlfFolds_line (folding_plain l), dropCrlfFolds_lineEnd n hrest]
    · intro l
      have hline := dropCrlfFolds_line (folding_plain l) []
      rwa [List.append_nil, dropCrlfFolds, List.append_nil] at hline
    · intro l
      obtain ⟨c, t, hfolding, hc⟩ := l.folding_cons
      rw [hfolding]
      exact folded_head hc
  rw [hcrlf]
  have hplain : ∀ l : FoldedLine, ∀ c ∈ l.folding.atLf.plain, isBreak c = false := by
    intro l
    rw [plain_atLf]
    exact folding_plain l
  have hline : ∀ (l : FoldedLine) rest,
      dropLfFolds (l.folding.atLf.folded ++ rest) = l.line.text ++ dropLfFolds rest := by
    intro l rest
    rw [dropLfFolds_line (hplain l) atLf_lf, plain_atLf, l.plain]
  apply render_rewrite b rfl
  · intro l n rest hrest
    rw [hline, dropLfFolds_lineEnd n hrest]
  · intro l
    have hl := hline l []
    rwa [List.append_nil, dropLfFolds, List.append_nil] at hl
  · intro l
    obtain ⟨c, t, hfolding, hc⟩ := l.folding_cons
    rw [hfolding]
    exact folded_head hc

theorem crlfToLf_folded (b : Body) :
    crlfToLf b.text = b.render (fun l => l.folding.withLf.folded) fun _ => ['\n'] := by
  apply render_rewrite b rfl
  · intro l n rest _
    rw [crlfToLf_line (folding_plain l), crlfToLf_lineEnd]
    rfl
  · intro l
    have hline := crlfToLf_line (folding_plain l) []
    rwa [List.append_nil, crlfToLf, List.append_nil] at hline
  · intro l
    obtain ⟨c, t, hfolding, hc⟩ := l.folding_cons
    rw [hfolding]
    exact folded_head hc

theorem crlfToLf_text (b : Body) :
    dropLfFolds (crlfToLf b.text) = b.render (fun l => l.line.text) fun _ => ['\n'] := by
  rw [crlfToLf_folded]
  have hplain : ∀ l : FoldedLine, ∀ c ∈ l.folding.withLf.plain, isBreak c = false := by
    intro l
    rw [plain_withLf]
    exact folding_plain l
  have hline : ∀ (l : FoldedLine) rest,
      dropLfFolds (l.folding.withLf.folded ++ rest) = l.line.text ++ dropLfFolds rest := by
    intro l rest
    rw [dropLfFolds_line (hplain l) withLf_lf, plain_withLf, l.plain]
  apply render_rewrite b rfl
  · intro l n rest hrest
    rw [hline, List.singleton_append, dropLfFolds_lf hrest]
    rfl
  · intro l
    have hl := hline l []
    rwa [List.append_nil, dropLfFolds, List.append_nil] at hl
  · intro l
    obtain ⟨c, t, hfolding, hc⟩ := l.folding_cons
    rw [hfolding]
    exact folded_head hc

theorem crlfToLf_unfolded (b : Body) {f : FoldedLine → List Char} (hplain : ∀ l, ∀ c ∈ f l, isBreak c = false)
    (hhead : ∀ l, Unindented (f l) ∧ f l ≠ []) :
    dropLfFolds (crlfToLf (b.render f LineEnd.chars)) = b.render f fun _ => ['\n'] := by
  have hcrlf : ∀ {line : List Char}, (∀ c ∈ line, isBreak c = false) → ∀ rest,
      crlfToLf (line ++ rest) = line ++ crlfToLf rest := by
    intro line hline rest
    induction line with
    | nil => rfl
    | cons c line ih =>
      rw [List.forall_mem_cons] at hline
      rw [List.cons_append, crlfToLf_cons (isBreak_ne hline.1).1, ih hline.2, List.cons_append]
  have hlf : ∀ {line : List Char}, (∀ c ∈ line, isBreak c = false) → ∀ rest,
      dropLfFolds (line ++ rest) = line ++ dropLfFolds rest := by
    intro line hline rest
    induction line with
    | nil => rfl
    | cons c line ih =>
      rw [List.forall_mem_cons] at hline
      rw [List.cons_append, dropLfFolds_cons (isBreak_ne hline.1).2, ih hline.2, List.cons_append]
  have hends : crlfToLf (b.render f LineEnd.chars) = b.render f fun _ => ['\n'] := by
    apply render_rewrite b rfl
    · intro l n rest _
      rw [hcrlf (hplain l), crlfToLf_lineEnd]
      rfl
    · intro l
      have hl := hcrlf (hplain l) []
      rwa [List.append_nil, crlfToLf, List.append_nil] at hl
    · exact hhead
  rw [hends]
  apply render_rewrite b rfl
  · intro l n rest hrest
    rw [hlf (hplain l), List.singleton_append, dropLfFolds_lf hrest]
    rfl
  · intro l
    have hl := hlf (hplain l) []
    rwa [List.append_nil, dropLfFolds, List.append_nil] at hl
  · exact hhead

end Texts

section Tight

/-- The text without the blanks that follow its folds; `lost` behind a fold and blanks. -/
def Folding.tightFrom : Bool → Folding → List Char
  | _, [] => []
  | lost, (f, c) :: t => if (lost || f.isSome) && isBlank c then tightFrom true t else c :: tightFrom false t

def Folding.tight (t : Folding) : List Char := t.tightFrom false

/-- Where `unfoldLines` stands in a line. -/
def place (lost : Bool) : Unfolding := if lost then .blanks else .text

variable {t : Folding}

theorem unfoldFrom_line (lost : Bool) (h : ∀ c ∈ t.plain, isBreak c = false) :
    ∃ lost', ∀ rest, unfoldFrom (place lost) (t.folded ++ rest) =
      t.tightFrom lost ++ unfoldFrom (place lost') rest := by
  induction t generalizing lost with
  | nil => exact ⟨lost, fun rest => rfl⟩
  | cons e t ih =>
    obtain ⟨f, c⟩ := e
    rw [plain_cons, List.forall_mem_cons] at h
    -- one character, behind a fold and its blanks or not
    have hstep : ∀ lost, (∃ lost', ∀ rest, unfoldFrom (place lost) (c :: (Folding.folded t ++ rest)) =
        (if lost && isBlank c then Folding.tightFrom true t else c :: Folding.tightFrom false t) ++
          unfoldFrom (place lost') rest) := by
      intro lost
      cases hblank : isBlank c with
      | true =>
        cases lost with
        | true =>
          obtain ⟨lost', hrest⟩ := ih true h.2
          refine ⟨lost', fun rest => ?_⟩
          rw [place, if_pos rfl, unfoldFrom, emit_blank hblank (by simp), next_blank hblank (by simp)]
          exact hrest rest
        | false =>
          obtain ⟨lost', hrest⟩ := ih false h.2
          refine ⟨lost', fun rest => ?_⟩
          rw [place, if_neg Bool.false_ne_true, unfoldFrom, emit_text h.1, next_text h.1]
          exact congrArg (c :: ·) (hrest rest)
      | false =>
        obtain ⟨lost', hrest⟩ := ih false h.2
        refine ⟨lost', fun rest => ?_⟩
        have hheld : (place lost).held = [] := by cases lost <;> rfl
        rw [unfoldFrom, emit_plain h.1 hblank, next_plain h.1 hblank, hheld, Bool.and_false]
        exact congrArg (c :: ·) (hrest rest)
    cases f with
    | none =>
      obtain ⟨lost', hrest⟩ := hstep lost
      refine ⟨lost', fun rest => ?_⟩
      rw [folded_none, List.cons_append, hrest, Folding.tightFrom, Option.isSome_none, Bool.or_false]
    | some f =>
      obtain ⟨lost', hrest⟩ := hstep true
      refine ⟨lost', fun rest => ?_⟩
      rw [folded_some, List.append_assoc, unfoldFrom_fold, List.cons_append]
      have hplace := hrest rest
      rw [place, if_pos rfl] at hplace
      rw [hplace, Folding.tightFrom, Option.isSome_some, Bool.or_true]

theorem unfoldFrom_breaks (run : List Char) {rest : List Char} (h : Unindented rest) :
    unfoldFrom (.breaks run) rest = run ++ unfoldLines rest := by
  cases rest with
  | nil => exact (List.append_nil run).symm
  | cons c rest =>
    obtain ⟨hblank, hbreak⟩ := h c rfl
    rw [unfoldLines, unfoldFrom, unfoldFrom, emit_plain hbreak hblank, emit_plain hbreak hblank,
      next_plain hbreak hblank, next_plain hbreak hblank, ← List.append_assoc, ← List.append_assoc]
    rw [Unfolding.held, Unfolding.held, List.append_nil]
    exact fun run => Unfolding.noConfusion

theorem unfoldFrom_lineEnd (lost : Bool) (n : LineEnd) {rest : List Char} (h : Unindented rest) :
    unfoldFrom (place lost) (n.chars ++ rest) = n.chars ++ unfoldLines rest := by
  have hheld : (place lost).held = [] := by cases lost <;> rfl
  cases n with
  | lf =>
    rw [LineEnd.chars, List.singleton_append, unfoldFrom, emit_break (by rfl), next_break (by rfl), hheld]
    exact unfoldFrom_breaks ['\n'] h
  | crlf =>
    rw [LineEnd.chars, List.cons_append, List.singleton_append, unfoldFrom, emit_break (by rfl), next_break (by rfl),
      hheld, unfoldFrom, emit_break (by rfl), next_break (by rfl)]
    exact unfoldFrom_breaks ['\r', '\n'] h

theorem tight_head (l : FoldedLine) : Unindented l.folding.tight ∧ l.folding.tight ≠ [] := by
  obtain ⟨c, t, hfolding, hc⟩ := l.folding_cons
  have htight : l.folding.tight = c :: Folding.tightFrom false t := by
    rw [hfolding, Folding.tight, Folding.tightFrom, hc.1, Bool.and_false]
    rfl
  rw [htight]
  constructor
  · rintro d ⟨⟩
    exact hc
  · exact List.cons_ne_nil _ _

theorem unfoldLines_text (b : Body) : unfoldLines b.text = b.render (fun l => l.folding.tight) LineEnd.chars := by
  apply render_rewrite b rfl
  · intro l n rest hrest
    obtain ⟨lost, hline⟩ := unfoldFrom_line false (folding_plain l)
    exact (hline _).trans (congrArg (_ ++ ·) (unfoldFrom_lineEnd lost n hrest))
  · intro l
    obtain ⟨lost, hline⟩ := unfoldFrom_line false (folding_plain l)
    have hl := hline []
    have hnil : unfoldFrom (place lost) [] = [] := by cases lost <;> rfl
    rwa [List.append_nil, hnil, List.append_nil] at hl
  · exact folding_head

theorem mem_tightFrom {c : Char} {lost : Bool} (h : c ∈ t.tightFrom lost) : c ∈ t.plain := by
  induction t generalizing lost with
  | nil => cases h
  | cons e t ih =>
    obtain ⟨f, d⟩ := e
    rw [Folding.tightFrom] at h
    rw [plain_cons, List.mem_cons]
    split at h
    · exact .inr (ih h)
    · obtain rfl | h := List.mem_cons.mp h
      · exact .inl rfl
      · exact .inr (ih h)

theorem mem_tightFrom_of_plain {c : Char} {lost : Bool} (h : c ∈ t.plain) (hc : isBlank c = false) :
    c ∈ t.tightFrom lost := by
  induction t generalizing lost with
  | nil => cases h
  | cons e t ih =>
    obtain ⟨f, d⟩ := e
    rw [plain_cons, List.mem_cons] at h
    rw [Folding.tightFrom]
    split
    · rename_i hlost
      obtain rfl | h := h
      · rw [hc, Bool.and_false] at hlost
        cases hlost
      · exact ih h
    · rw [List.mem_cons]
      exact h.imp_right ih

theorem tightFrom_append {t : Folding} (t' : Folding) (lost : Bool) (h : ∀ c ∈ t.plain, isBlank c = false)
    (hne : t ≠ []) : Folding.tightFrom lost (t ++ t') = t.plain ++ t'.tight := by
  induction t generalizing lost with
  | nil => exact absurd rfl hne
  | cons e t ih =>
    obtain ⟨f, c⟩ := e
    rw [plain_cons, List.forall_mem_cons] at h
    rw [List.cons_append, Folding.tightFrom, h.1, Bool.and_false, if_neg Bool.false_ne_true, plain_cons,
      List.cons_append]
    cases t with
    | nil => rfl
    | cons e t => rw [ih false h.2 (List.cons_ne_nil e t)]

end Tight

section Reading

variable {p : List Char → Option (List Char)} {q : FoldedLine → Option (List Char)} {f : FoldedLine → List Char}
variable {e : LineEnd → List Char} {c : Char}

/-- The end of a line, or of the text. -/
def AtEnd (rest : List Char) : Prop := ∀ c ∈ rest.head?, isBreak c = true

theorem findSome_starts (p : List Char → Option (List Char)) (text : List Char) :
    (starts text).findSome? p = (p text).or ((startsAfter text).findSome? p) := by
  rw [starts, List.findSome?_cons]
  cases p text <;> rfl

theorem firstMatch_render (b : Body) (hnil : p [] = none)
    (hline : ∀ l ∈ b.all, ∀ rest, AtEnd rest →
      (starts (f l ++ rest)).findSome? p = (q l).or ((startsAfter rest).findSome? p))
    (hend : ∀ n rest, AtEnd (e n ++ rest) ∧ (startsAfter (e n ++ rest)).findSome? p = (starts rest).findSome? p) :
    firstMatch p (b.render f e) = b.all.findSome? q := by
  have hlast : (starts (b.last.toList.flatMap f)).findSome? p = b.last.toList.findSome? q := by
    cases hb : b.last with
    | none =>
      rw [findSome_starts]
      simp [hnil, startsAfter]
    | some l =>
      have hl := hline l (by simp [Body.all, hb]) [] (by simp [AtEnd])
      rw [List.append_nil] at hl
      rw [Option.toList_some, List.flatMap_singleton, hl, List.findSome?_cons]
      cases q l <;> rfl
  have hlines : ∀ l ∈ b.lines, ∀ rest, AtEnd rest →
      (starts (f l ++ rest)).findSome? p = (q l).or ((startsAfter rest).findSome? p) :=
    fun l hl => hline l (List.mem_append_left _ hl)
  rw [firstMatch, Body.render, Body.all]
  generalize b.lines = lines at hlines
  induction lines with
  | nil => exact hlast
  | cons l ls ih =>
    rw [List.forall_mem_cons] at hlines
    obtain ⟨hclosed, hnext⟩ := hend l.lineEnd (ls.flatMap (fun l => f l ++ e l.lineEnd) ++ b.last.toList.flatMap f)
    rw [List.flatMap_cons, List.append_assoc, List.append_assoc, hlines.1 _ hclosed, hnext, ih hlines.2,
      List.cons_append, List.findSome?_cons]
    cases q l <;> rfl

theorem startsAfter_line {line : List Char} (h : ∀ c ∈ line, isTerminator c = false) (rest : List Char) :
    startsAfter (line ++ rest) = startsAfter rest := by
  induction line with
  | nil => rfl
  | cons c line ih =>
    rw [List.forall_mem_cons] at h
    rw [List.cons_append, startsAfter, h.1, if_neg Bool.false_ne_true, ih h.2]

theorem lineEnd_starts (hlf : ∀ rest, p ('\n' :: rest) = none) (n : LineEnd) (rest : List Char) :
    AtEnd (n.chars ++ rest) ∧ (startsAfter (n.chars ++ rest)).findSome? p = (starts rest).findSome? p := by
  cases n with
  | lf => exact ⟨by rintro c ⟨⟩; rfl, rfl⟩
  | crlf =>
    constructor
    · rintro c ⟨⟩
      rfl
    · have hstarts : startsAfter (LineEnd.crlf.chars ++ rest) = ('\n' :: rest) :: starts rest := rfl
      rw [hstarts, List.findSome?_cons, hlf]

theorem line_starts {line : List Char} (h : ∀ c ∈ line, isTerminator c = false) (rest : List Char) :
    (starts (line ++ rest)).findSome? p = (p (line ++ rest)).or ((startsAfter rest).findSome? p) := by
  rw [findSome_starts, startsAfter_line h]

end Reading

section Names

variable {c : Char}

theorem head_not_whiteSpace {l : ContentLine} (h : c ∈ l.head) : whiteSpace c = false := by
  rw [Bool.eq_false_iff]
  intro hwhite
  have hout := whiteSpace_bounds hwhite
  obtain hname | rfl := head_chars h
  · have hin := isNameChar_bounds hname
    omega
  · cases hwhite

/-- A colon or a semicolon. -/
def EndsName (c : Char) : Prop := c = ':' ∨ c = ';'

theorem afterUid_short {before Y : List Char} (h : before.length < 3)
    (hY : ∀ c ∈ Y.head?, c.toLower ∉ ['u', 'i', 'd']) : afterUid (before ++ Y) = none := by
  rw [afterUid, if_neg]
  intro huid
  cases Y with
  | nil =>
    have hlength := congrArg List.length huid
    simp [lower] at hlength
    omega
  | cons c rest =>
    apply hY c rfl
    rw [← huid, lower, List.take_append, List.map_append, List.mem_append]
    right
    obtain ⟨n, hn⟩ : ∃ n, 3 - before.length = n + 1 := ⟨2 - before.length, by omega⟩
    rw [hn, List.take_succ_cons, List.map_cons]
    exact List.mem_cons_self

theorem afterUid_long (a b d : Char) (more : List Char) :
    afterUid (a :: b :: d :: more) = if lower [a, b, d] = ['u', 'i', 'd'] then some more else none := rfl

theorem afterUid_head (head rest : List Char) (hc : EndsName c) :
    (lower head = ['u', 'i', 'd'] ∧ afterUid (head ++ c :: rest) = some (c :: rest)) ∨
      (lower head ≠ ['u', 'i', 'd'] ∧ ∀ d x, afterUid (head ++ c :: rest) = some (d :: x) → d ∈ head) := by
  have hlower : ∀ d ∈ (c :: rest).head?, d.toLower ∉ ['u', 'i', 'd'] := by
    rintro d ⟨⟩
    obtain rfl | rfl := hc <;> decide
  match head with
  | [] | [_] | [_, _] =>
    right
    constructor
    · simp [lower]
    · intro d x hafter
      rw [afterUid_short (by simp) hlower] at hafter
      cases hafter
  | [a, b, d] =>
    rw [List.cons_append, List.cons_append, List.singleton_append, afterUid_long]
    by_cases huid : lower [a, b, d] = ['u', 'i', 'd']
    · rw [if_pos huid]
      exact .inl ⟨huid, rfl⟩
    · rw [if_neg huid]
      exact .inr ⟨huid, by simp⟩
  | a :: b :: d :: x :: more =>
    right
    constructor
    · simp [lower]
    · intro d' x' hafter
      rw [List.cons_append, List.cons_append, List.cons_append, List.cons_append, afterUid_long] at hafter
      split at hafter
      · obtain ⟨rfl, -⟩ := List.cons.inj (Option.some.inj hafter)
        simp
      · cases hafter

end Names

end OpenMigrate.Dav
