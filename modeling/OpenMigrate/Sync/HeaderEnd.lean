import OpenMigrate.Sync.Stamped

namespace OpenMigrate

/-- A line of a header: something, and the line end behind it. -/
structure HeaderLine where
  content : List Char
  lineEnd : LineEnd
  nonempty : content ≠ []
  unbroken : '\n' ∉ content
  cr : lineEnd = .lf → content.getLast? ≠ some '\r'

def HeaderLine.chars (l : HeaderLine) : List Char := l.content ++ l.lineEnd.chars

def headerText (h : List HeaderLine) : List Char := h.flatMap HeaderLine.chars

/-- A header, an empty line and a body. -/
def message (h : List HeaderLine) (blank : LineEnd) (body : List Char) : List Char :=
  headerText h ++ (blank.chars ++ body)

/-- The value of the first `Message-ID` field, which may be blank. -/
def fieldOf (header : List Char) : Option (List Char) :=
  (lines (unfoldHeader false header)).findSome? messageIdOfLine

def HasMessageId (h : List HeaderLine) : Prop := fieldOf (headerText h) ≠ none

/-- An empty line that `findHeaderEnd` knows: there is a line before it, and not a bare LF before a CRLF. -/
def EndFound (h : List HeaderLine) (blank : LineEnd) : Prop :=
  ∃ l, h.getLast? = some l ∧ ¬ (l.lineEnd = .lf ∧ blank = .crlf)

section Section

variable {rest : List Char}

theorem headerSection_next {c : Char} (hcr : ∀ tail, c = '\r' → rest ≠ '\n' :: '\r' :: '\n' :: tail)
    (hlf : ∀ tail, c = '\n' → rest ≠ '\n' :: tail) : headerSection (c :: rest) = c :: headerSection rest := by
  rw [headerSection]
  · exact fun tail hc h => hcr tail hc h
  · exact fun tail hc h => hlf tail hc h

theorem headerSection_content {content : List Char} (hunbroken : '\n' ∉ content)
    (hcr : content.getLast? = some '\r' → ∀ tail, rest ≠ '\n' :: tail) :
    headerSection (content ++ rest) = content ++ headerSection rest := by
  induction content with
  | nil => rfl
  | cons c content ih =>
    have hrest : '\n' ∉ content := fun h => hunbroken (List.mem_cons_of_mem c h)
    have hc : c ≠ '\n' := fun h => hunbroken (h ▸ List.mem_cons_self)
    have hnext : ∀ tail, c = '\r' → content ++ rest ≠ '\n' :: tail := by
      intro tail hreturn
      cases content with
      | nil => exact hcr (by simp [hreturn]) tail
      | cons d content =>
        intro h
        exact hrest ((List.cons.inj h).1 ▸ List.mem_cons_self)
    rw [List.cons_append, headerSection_next (fun tail h => hnext _ h) fun tail h => absurd h hc, ih hrest]
    · rfl
    · intro hlast
      cases content with
      | nil => simp at hlast
      | cons d content => exact hcr (by simpa using hlast)

theorem HeaderLine.section (l : HeaderLine) (rest : List Char) :
    headerSection (l.chars ++ rest) = l.content ++ headerSection (l.lineEnd.chars ++ rest) := by
  rw [HeaderLine.chars, List.append_assoc]
  apply headerSection_content l.unbroken
  intro hlast tail h
  cases hend : l.lineEnd with
  | crlf => simp [hend, LineEnd.chars] at h
  | lf => exact l.cr hend hlast

/-- What no empty line begins with. -/
def NotBlank (rest : List Char) : Prop := (∀ tail, rest ≠ '\n' :: tail) ∧ ∀ tail, rest ≠ '\r' :: '\n' :: tail

theorem LineEnd.section (e : LineEnd) (hrest : NotBlank rest) :
    headerSection (e.chars ++ rest) = e.chars ++ headerSection rest := by
  have hfeed : headerSection ('\n' :: rest) = '\n' :: headerSection rest :=
    headerSection_next (fun tail h => absurd h (by decide)) fun tail _ => hrest.1 tail
  cases e with
  | lf => exact hfeed
  | crlf =>
    have hreturn : headerSection ('\r' :: '\n' :: rest) = '\r' :: headerSection ('\n' :: rest) :=
      headerSection_next (fun tail _ h => hrest.2 tail (List.cons.inj h).2) fun tail h => absurd h (by decide)
    exact hreturn.trans (congrArg _ hfeed)

theorem HeaderLine.notBlank (l : HeaderLine) (rest : List Char) : NotBlank (l.chars ++ rest) := by
  obtain ⟨c, content, hcontent⟩ := List.exists_cons_of_ne_nil l.nonempty
  have hfeed : ∀ d ∈ l.content, d ≠ '\n' := fun d hd h => l.unbroken (h ▸ hd)
  rw [HeaderLine.chars, hcontent]
  constructor
  · intro tail h
    exact hfeed c (by simp [hcontent]) (List.cons.inj h).1
  · intro tail h
    obtain ⟨hreturn, hnext⟩ := List.cons.inj h
    cases content with
    | cons d content => exact hfeed d (by simp [hcontent]) (List.cons.inj hnext).1
    | nil =>
      cases hend : l.lineEnd with
      | crlf => simp [hend, LineEnd.chars] at hnext
      | lf => exact l.cr hend (by simp [hcontent, hreturn])

theorem headerSection_lines (h : List HeaderLine) (l : HeaderLine) (rest : List Char) :
    headerSection (headerText (h ++ [l]) ++ rest) =
      headerText h ++ l.content ++ headerSection (l.lineEnd.chars ++ rest) := by
  induction h with
  | nil => simpa [headerText] using l.section rest
  | cons a h ih =>
    have hnext : NotBlank (headerText (h ++ [l]) ++ rest) := by
      cases h with
      | nil => simpa [headerText] using l.notBlank rest
      | cons b h => simpa [headerText] using b.notBlank (headerText (h ++ [l]) ++ rest)
    have hsplit : headerText (a :: h ++ [l]) ++ rest = a.chars ++ (headerText (h ++ [l]) ++ rest) := by
      simp [headerText]
    rw [hsplit, a.section, a.lineEnd.section hnext, ih]
    simp [headerText, HeaderLine.chars]

end Section

section Fields

theorem readMessageId_field {a b : List Char} (h : fieldOf (headerSection a) = fieldOf (headerSection b)) :
    readMessageId a = readMessageId b := by
  unfold fieldOf at h
  rw [readMessageId, readMessageId, h]

theorem lines_append_break {c : Char} (hc : LineBreak c) (a b : List Char) : lines (a ++ c :: b) = lines a ++ lines b := by
  induction a with
  | nil =>
    rw [List.nil_append, lines_cons_break hc]
    rfl
  | cons d a ih =>
    obtain ⟨line, more, hlines⟩ := List.exists_cons_of_ne_nil (lines_ne_nil a)
    rw [List.cons_append, lines, lines, ih, hlines]
    simp only [List.cons_append]
    split <;> rfl

theorem startsBlank_append (a : List Char) {b : List Char} (hblank : startsBlank b = false) :
    startsBlank (a ++ b) = startsBlank a := by
  cases a with
  | nil => exact hblank
  | cons c a => rfl

theorem startsFold_append (a : List Char) {b : List Char} (hblank : startsBlank b = false)
    (hfold : startsFold b = false) : startsFold (a ++ b) = startsFold a := by
  cases a with
  | nil => exact hfold
  | cons c a =>
    by_cases hc : c = '\n'
    · subst hc
      exact startsBlank_append a hblank
    · simp [startsFold, hc]

theorem unfoldHeader_append_of {skip : Bool} {a b : List Char} (hblank : startsBlank b = false)
    (hfold : startsFold b = false) : unfoldHeader skip (a ++ b) = unfoldHeader skip a ++ unfoldHeader false b := by
  induction a generalizing skip with
  | nil =>
    cases b with
    | nil => rfl
    | cons c b =>
      have hc : isBlank c = false := hblank
      simp [unfoldHeader, hc]
  | cons c a ih =>
    rw [List.cons_append, unfoldHeader, unfoldHeader, startsBlank_append a hblank, startsFold_append a hblank hfold]
    split_ifs
    · exact ih
    · rw [ih, List.cons_append]
    · exact ih
    · rw [ih, List.cons_append]

theorem fieldOf_feed (a : List Char) {b : List Char} (hblank : startsBlank b = false) :
    fieldOf (a ++ '\n' :: b) = (fieldOf a).or (fieldOf b) := by
  have hfeed : unfoldHeader false ('\n' :: b) = '\n' :: unfoldHeader false b := by
    rw [unfoldHeader]
    simp [hblank]
  have hfold : startsFold ('\n' :: b) = false := hblank
  rw [fieldOf, unfoldHeader_append_of rfl hfold, hfeed, lines_append_break (.inl rfl), List.findSome?_append]
  rfl

theorem fieldOf_return (a : List Char) : fieldOf (a ++ ['\r']) = fieldOf a := by
  have hempty : [([] : List Char)].findSome? messageIdOfLine = none := by decide
  rw [fieldOf, unfoldHeader_append_of rfl rfl]
  change (lines (unfoldHeader false a ++ ['\r'])).findSome? messageIdOfLine = _
  rw [lines_append_break (.inr rfl), List.findSome?_append]
  change (fieldOf a).or _ = _
  rw [show lines [] = [[]] from rfl, hempty, Option.or_none]

theorem fieldOf_nil : fieldOf [] = none := by decide

theorem fieldOf_lineEnd (a : List Char) (e : LineEnd) : fieldOf (a ++ e.chars) = fieldOf a := by
  cases e with
  | lf => exact (fieldOf_feed a rfl).trans (by rw [fieldOf_nil, Option.or_none])
  | crlf =>
    have hsplit : a ++ LineEnd.crlf.chars = (a ++ ['\r']) ++ ['\n'] := by simp [LineEnd.chars]
    rw [hsplit, fieldOf_feed _ rfl, fieldOf_return, fieldOf_nil, Option.or_none]

end Fields

section Reads

variable {h : List HeaderLine} {blank : LineEnd}

theorem headerText_append (h : List HeaderLine) (l : HeaderLine) : headerText (h ++ [l]) = headerText h ++ l.content ++ l.lineEnd.chars := by
  simp [headerText, HeaderLine.chars]

theorem headerSection_alone (h : List HeaderLine) (l : HeaderLine) :
    headerSection (headerText (h ++ [l])) = headerText (h ++ [l]) := by
  have hsection := headerSection_lines h l []
  rw [List.append_nil, List.append_nil] at hsection
  rw [hsection, headerText_append]
  cases l.lineEnd <;> rfl

theorem fieldOf_alone (h : List HeaderLine) (l : HeaderLine) :
    fieldOf (headerSection (headerText (h ++ [l]))) = fieldOf (headerText h ++ l.content) := by
  rw [headerSection_alone, headerText_append, fieldOf_lineEnd]

theorem fieldOf_found {l : HeaderLine} (hend : ¬ (l.lineEnd = .lf ∧ blank = .crlf)) (body : List Char) :
    fieldOf (headerSection (message (h ++ [l]) blank body)) = fieldOf (headerText h ++ l.content) := by
  rw [message, headerSection_lines]
  cases hl : l.lineEnd with
  | crlf =>
    cases blank with
    | crlf =>
      have hempty : headerSection (LineEnd.crlf.chars ++ (LineEnd.crlf.chars ++ body)) = [] := rfl
      rw [hempty, List.append_nil]
    | lf =>
      have hreturn : headerSection (LineEnd.crlf.chars ++ (LineEnd.lf.chars ++ body)) = ['\r'] := rfl
      rw [hreturn, fieldOf_return]
  | lf =>
    cases blank with
    | crlf => exact absurd ⟨hl, rfl⟩ hend
    | lf =>
      have hempty : headerSection (LineEnd.lf.chars ++ (LineEnd.lf.chars ++ body)) = [] := rfl
      rw [hempty, List.append_nil]

/-- A bare LF before a CRLF: the section goes on, and a field of the body counts when the header has none. -/
theorem fieldOf_missed {l : HeaderLine} (hl : l.lineEnd = .lf) (body : List Char) :
    fieldOf (headerSection (message (h ++ [l]) .crlf body)) =
      (fieldOf (headerText h ++ l.content)).or (fieldOf (headerSection ('\r' :: '\n' :: body))) := by
  have hblank : startsBlank (headerSection ('\r' :: '\n' :: body)) = false := startsBlank_headerSection _
  have hgoes : headerSection (LineEnd.lf.chars ++ (LineEnd.crlf.chars ++ body)) =
      '\n' :: headerSection ('\r' :: '\n' :: body) := rfl
  rw [message, headerSection_lines, hl, hgoes, fieldOf_feed _ hblank]

/-- A body that starts with the field. -/
def fieldBody : List Char := "Message-ID: <x>".toList

theorem readMessageId_blank (blank : LineEnd) : readMessageId (blank.chars ++ fieldBody) = some "<x>" := by
  cases blank <;> decide

end Reads

/-- `readMessageId` reads the header section alone exactly when it finds the empty line, or the header has the field. -/
theorem readMessageId_header_iff (h : List HeaderLine) (blank : LineEnd) :
    (∀ body, readMessageId (message h blank body) = readMessageId (headerText h)) ↔
      EndFound h blank ∨ HasMessageId h := by
  obtain rfl | ⟨h, l, rfl⟩ := List.eq_nil_or_concat' h
  · have hempty : readMessageId (headerText []) = none := by decide
    constructor
    · intro hall
      have hread := (readMessageId_blank blank).symm.trans (hall fieldBody)
      rw [hempty] at hread
      cases hread
    · rintro (⟨l, hl, -⟩ | hfield)
      · simp at hl
      · exact absurd fieldOf_nil hfield
  · by_cases hend : l.lineEnd = .lf ∧ blank = .crlf
    · obtain ⟨hl, rfl⟩ := hend
      have hown : fieldOf (headerText (h ++ [l])) = fieldOf (headerText h ++ l.content) := by
        rw [← headerSection_alone, fieldOf_alone]
      constructor
      · intro hall
        right
        intro hnone
        rw [hown] at hnone
        have hbody : fieldOf (headerSection (message (h ++ [l]) .crlf fieldBody)) =
            fieldOf (headerSection (LineEnd.crlf.chars ++ fieldBody)) := by
          rw [fieldOf_missed hl, hnone, Option.none_or]
          rfl
        have halone : fieldOf (headerSection (headerText (h ++ [l]))) = fieldOf (headerSection []) := by
          rw [fieldOf_alone, hnone]
          exact fieldOf_nil.symm
        have hread := (readMessageId_field hbody).symm.trans ((hall fieldBody).trans (readMessageId_field halone))
        rw [readMessageId_blank] at hread
        exact absurd hread (by decide)
      · rintro (⟨l', hlast, hend⟩ | hfield)
        · obtain rfl : l = l' := Option.some.inj (List.getLast?_concat.symm.trans hlast)
          exact absurd ⟨hl, rfl⟩ hend
        · intro body
          apply readMessageId_field
          rw [HasMessageId, hown] at hfield
          obtain ⟨value, hvalue⟩ := Option.ne_none_iff_exists'.mp hfield
          rw [fieldOf_missed hl, fieldOf_alone, hvalue, Option.some_or]
    · constructor
      · exact fun _ => .inl ⟨l, List.getLast?_concat, hend⟩
      · intro _ body
        exact readMessageId_field ((fieldOf_found hend body).trans (fieldOf_alone h l).symm)

def Sample.subjectLine : HeaderLine where
  content := "Subject: hi".toList
  lineEnd := .lf
  nonempty := by decide
  unbroken := by decide
  cr := by decide

/-- A header that ends its line with LF, an empty line that ends with CRLF, and an attached message. -/
theorem inner_messageId_read :
    readMessageId (message [Sample.subjectLine] .crlf "Message-ID: <inner>".toList) = some "<inner>" ∧
      readMessageId (message [Sample.subjectLine] .crlf []) = none := by
  constructor
  · decide
  · decide

end OpenMigrate
