import OpenMigrate.Sync.HeaderEnd
import OpenMigrate.Url.Lossy

namespace OpenMigrate.Mail

open Url

section Message

/-- What a header may hold on one line. -/
def LineChar (c : Char) : Prop := c.toNat < 128 ∧ isBreak c = false

/-- What the name of a field is made of. -/
def NameChar (c : Char) : Prop := 33 ≤ c.toNat ∧ c.toNat ≤ 126 ∧ c ≠ ':'

instance : DecidablePred LineChar := fun c => inferInstanceAs (Decidable (c.toNat < 128 ∧ isBreak c = false))

instance : DecidablePred NameChar := fun c => inferInstanceAs (Decidable (33 ≤ c.toNat ∧ c.toNat ≤ 126 ∧ c ≠ ':'))

/-- A field: the rest of its line behind the colon, and the lines that continue it. -/
structure Field where
  name : List Char
  gap : List Char := []
  text : List Char
  folds : List (List Char) := []
  name_ne_nil : name ≠ []
  name_chars : ∀ c ∈ name, NameChar c
  gap_blank : ∀ c ∈ gap, isBlank c = true
  text_chars : ∀ c ∈ text, LineChar c
  folds_chars : ∀ fold ∈ folds, startsBlank fold = true ∧ ∀ c ∈ fold, LineChar c

def Field.line (f : Field) : List Char := f.name ++ f.gap ++ ':' :: f.text

def Field.lines (f : Field) : List (List Char) := f.line :: f.folds

/-- The fields, all lines ended the same way, and behind an empty line the body. -/
structure Message where
  fields : List Field
  eol : LineEnd
  body : Option Bytes
  fields_ne_nil : fields ≠ []

def Message.lines (m : Message) : List (List Char) := m.fields.flatMap Field.lines

/-- Lines with their ends. -/
def ended (eol : LineEnd) (ls : List (List Char)) : List Char := ls.flatMap (· ++ eol.chars)

def Message.bytes (m : Message) : Bytes :=
  utf8 (ended m.eol m.lines) ++ (m.body.map fun b => utf8 m.eol.chars ++ b).getD []

/-- `Buffer.toString('latin1')` -/
def latin1 (bytes : Bytes) : List Char := bytes.map fun b => Char.ofNat b.toNat

end Message

section Decoded

variable {s : List Char}

theorem latin1_ascii (hs : ∀ c ∈ s, c.toNat < 128) (b : Bytes) : latin1 (utf8 s ++ b) = s ++ latin1 b := by
  induction s with
  | nil => rfl
  | cons c s ih =>
    have hc : c.toNat < 128 := hs c List.mem_cons_self
    have hbyte : String.utf8EncodeChar c = [UInt8.ofNat c.toNat] := by
      rw [utf8EncodeChar_eq, if_pos (by omega)]
    have hback : Char.ofNat (UInt8.ofNat c.toNat).toNat = c := by
      rw [UInt8.toNat_ofNat_of_lt' (show c.toNat < 256 by omega), Char.ofNat_toNat]
    have hrest := ih fun d hd => hs d (List.mem_cons_of_mem c hd)
    rw [latin1, utf8_cons, hbyte, List.append_assoc, List.singleton_append, List.map_cons, hback]
    exact congrArg (c :: ·) hrest

theorem lossy_append (s : List Char) (b : Bytes) : lossyDecode none (utf8 s ++ b) = s ++ lossyDecode none b := by
  induction s with
  | nil => rfl
  | cons c s ih => rw [utf8_cons, List.append_assoc, lossy_char, ih, List.cons_append]

/-- A text whose first character is none of a byte order mark keeps it. -/
theorem responseText_append {c : Char} (hc : c.toNat < 128) (b : Bytes) :
    responseText (utf8 (c :: s) ++ b) = c :: (s ++ lossyDecode none b) := by
  have hbyte : String.utf8EncodeChar c = [UInt8.ofNat c.toNat] := by
    rw [utf8EncodeChar_eq, if_pos (by omega)]
  have hmark : utf8 [byteOrderMark] = [0xEF, 0xBB, 0xBF] := by decide
  have hno : ¬ (utf8 [byteOrderMark]).isPrefixOf (utf8 (c :: s) ++ b) = true := by
    rw [hmark, utf8_cons, hbyte, List.isPrefixOf_iff_prefix]
    intro h
    have hhead := (List.cons_prefix_cons.mp h).1
    have hvalue := congrArg UInt8.toNat hhead
    rw [UInt8.toNat_ofNat_of_lt' (show c.toNat < 256 by omega)] at hvalue
    have hlead : (0xEF : UInt8).toNat = 239 := rfl
    omega
  rw [responseText, if_neg hno, lossy_append]
  rfl

end Decoded

section Lines

variable {f : Field} {line : List Char} {c : Char}

/-- A line of a header: not empty, not broken, ASCII. -/
structure IsLine (line : List Char) : Prop where
  ne_nil : line ≠ []
  chars : ∀ c ∈ line, LineChar c

theorem nameChar_line (h : NameChar c) : LineChar c := by
  obtain ⟨hlow, hhigh, -⟩ := h
  constructor
  · omega
  · cases hbreak : isBreak c with
    | false => rfl
    | true =>
      rw [isBreak, Bool.or_eq_true, beq_iff_eq, beq_iff_eq] at hbreak
      rcases hbreak with rfl | rfl <;> exact absurd hlow (by decide)

theorem nameChar_blank (h : NameChar c) : isBlank c = false := by
  have hlow := h.1
  rw [isBlank, Bool.or_eq_false_iff, beq_eq_false_iff_ne, beq_eq_false_iff_ne]
  constructor
  · rintro rfl
    exact absurd hlow (by decide)
  · rintro rfl
    exact absurd hlow (by decide)

theorem blank_cases (h : isBlank c = true) : c = ' ' ∨ c = '\t' := by
  simpa [isBlank] using h

theorem blank_line (h : isBlank c = true) : LineChar c := by
  rcases blank_cases h with rfl | rfl
  · exact ⟨by decide, rfl⟩
  · exact ⟨by decide, rfl⟩

theorem Field.isLine (f : Field) : ∀ line ∈ f.lines, IsLine line := by
  intro line hline
  rcases List.mem_cons.mp hline with rfl | hfold
  · constructor
    · simp [Field.line]
    · intro c hc
      rw [Field.line, List.mem_append, List.mem_append, List.mem_cons] at hc
      rcases hc with (hc | hc) | rfl | hc
      · exact nameChar_line (f.name_chars c hc)
      · exact blank_line (f.gap_blank c hc)
      · exact ⟨by decide, rfl⟩
      · exact f.text_chars c hc
  · obtain ⟨hstarts, hchars⟩ := f.folds_chars line hfold
    constructor
    · rintro rfl
      cases hstarts
    · exact hchars

theorem Message.isLine (m : Message) : ∀ line ∈ m.lines, IsLine line := by
  intro line hline
  obtain ⟨f, -, hf⟩ := List.mem_flatMap.mp hline
  exact f.isLine line hf

theorem Message.lines_ne_nil (m : Message) : m.lines ≠ [] := by
  obtain ⟨f, fields, hfields⟩ := List.exists_cons_of_ne_nil m.fields_ne_nil
  rw [Message.lines, hfields, List.flatMap_cons, Field.lines]
  simp

theorem eol_ascii (eol : LineEnd) : ∀ c ∈ eol.chars, c.toNat < 128 := by
  cases eol with
  | crlf => simp [LineEnd.chars]
  | lf => simp [LineEnd.chars]

theorem ended_ascii {ls : List (List Char)} (hls : ∀ line ∈ ls, IsLine line) (eol : LineEnd) :
    ∀ c ∈ ended eol ls, c.toNat < 128 := by
  intro c hc
  obtain ⟨line, hline, hin⟩ := List.mem_flatMap.mp hc
  rcases List.mem_append.mp hin with hin | hin
  · exact ((hls line hline).chars c hin).1
  · exact eol_ascii eol c hin

theorem ended_append (eol : LineEnd) (ls : List (List Char)) (line : List Char) :
    ended eol (ls ++ [line]) = ended eol ls ++ line ++ eol.chars := by
  simp [ended]

theorem exists_headerLines {ls : List (List Char)} (hls : ∀ line ∈ ls, IsLine line) (eol : LineEnd) :
    ∃ h : List HeaderLine, h.map HeaderLine.content = ls ∧ ∀ l ∈ h, l.lineEnd = eol := by
  induction ls with
  | nil => exact ⟨[], rfl, by simp⟩
  | cons line ls ih =>
    obtain ⟨h, hcontent, hends⟩ := ih fun l hl => hls l (List.mem_cons_of_mem line hl)
    have hline := hls line List.mem_cons_self
    have hfeed : '\n' ∉ line := fun hmem => absurd (hline.chars _ hmem).2 (by decide)
    have hreturn : line.getLast? ≠ some '\r' :=
      fun hlast => absurd (hline.chars _ (List.mem_of_getLast? hlast)).2 (by decide)
    refine ⟨⟨line, eol, hline.ne_nil, hfeed, fun _ => hreturn⟩ :: h, ?_, ?_⟩
    · rw [List.map_cons, hcontent]
    · exact List.forall_mem_cons.mpr ⟨rfl, hends⟩

theorem headerText_eq {h : List HeaderLine} {eol : LineEnd} (hends : ∀ l ∈ h, l.lineEnd = eol) :
    headerText h = ended eol (h.map HeaderLine.content) := by
  induction h with
  | nil => rfl
  | cons l h ih =>
    have hl : l.lineEnd = eol := hends l List.mem_cons_self
    have hrest := ih fun l' hl' => hends l' (List.mem_cons_of_mem l hl')
    rw [headerText] at hrest
    rw [headerText, List.flatMap_cons, hrest, HeaderLine.chars, hl]
    rfl

end Lines

section Read

/-- The text of a field, folds and all. -/
def Field.unfolded (f : Field) : List Char := f.text ++ f.folds.flatMap fun fold => ' ' :: fold.dropWhile isBlank

def Field.isMessageId (f : Field) : Prop := lower f.name = "message-id".toList

instance (f : Field) : Decidable f.isMessageId := inferInstanceAs (Decidable (_ = _))

/-- What the first Message-ID field says, trimmed; nothing where there is none. -/
def Message.fieldText (m : Message) : List Char := trim (((m.fields.find? (·.isMessageId)).map Field.unfolded).getD [])

def idOf (s : List Char) : Option String := if s = [] then none else some (String.ofList s)

theorem readMessageId_eq (rfc822 : List Char) :
    readMessageId rfc822 = idOf (trim ((fieldOf (headerSection rfc822)).getD [])) := by
  have hfield : fieldOf (headerSection rfc822) =
      (OpenMigrate.lines (unfoldHeader false (headerSection rfc822))).findSome? messageIdOfLine := rfl
  rw [readMessageId, hfield]
  cases (OpenMigrate.lines (unfoldHeader false (headerSection rfc822))).findSome? messageIdOfLine with
  | none => rfl
  | some value => simp only [idOf, List.isEmpty_iff, Option.getD_some]

theorem lineChar_unbroken {c : Char} (h : LineChar c) : ¬ LineBreak c := by
  rintro (rfl | rfl)
  · exact absurd h.2 (by decide)
  · exact absurd h.2 (by decide)

theorem unfoldHeader_skip {rest : List Char} (h : startsBlank rest = false) :
    unfoldHeader true rest = unfoldHeader false rest := by
  cases rest with
  | nil => rfl
  | cons c rest =>
    have hc : isBlank c = false := h
    simp [unfoldHeader, hc]

theorem unfoldHeader_blanks {fold rest : List Char} (hfold : ∀ c ∈ fold, LineChar c) (hrest : startsBlank rest = false) :
    unfoldHeader true (fold ++ rest) = fold.dropWhile isBlank ++ unfoldHeader false rest := by
  induction fold with
  | nil => exact unfoldHeader_skip hrest
  | cons c fold ih =>
    by_cases hc : isBlank c = true
    · rw [List.dropWhile_cons_of_pos hc, List.cons_append, unfoldHeader]
      simpa [hc] using ih fun d hd => hfold d (List.mem_cons_of_mem c hd)
    · have hstarts : startsBlank (c :: fold ++ rest) = false := by simpa [startsBlank] using hc
      rw [unfoldHeader_skip hstarts, unfoldHeader_append fun d hd => lineChar_unbroken (hfold d hd),
        List.dropWhile_cons_of_neg hc]

theorem unfoldHeader_fold {fold rest : List Char} (eol : LineEnd) (hstarts : startsBlank fold = true)
    (hfold : ∀ c ∈ fold, LineChar c) (hrest : startsBlank rest = false) :
    unfoldHeader false (eol.chars ++ (fold ++ rest)) = ' ' :: (fold.dropWhile isBlank ++ unfoldHeader false rest) := by
  have hblank : startsBlank (fold ++ rest) = true := by
    cases fold with
    | nil => cases hstarts
    | cons c fold => exact hstarts
  have hfeed : unfoldHeader false ('\n' :: (fold ++ rest)) = ' ' :: (fold.dropWhile isBlank ++ unfoldHeader false rest) := by
    rw [unfoldHeader, ← unfoldHeader_blanks hfold hrest]
    simp [hblank]
  cases eol with
  | lf => exact hfeed
  | crlf =>
    change unfoldHeader false ('\r' :: '\n' :: (fold ++ rest)) = _
    rw [unfoldHeader, ← hfeed]
    simp [startsFold, hblank]

/-- What a field is up to the end of its last line. -/
def Field.content (eol : LineEnd) (f : Field) : List Char := f.line ++ f.folds.flatMap (eol.chars ++ ·)

theorem ended_cons (eol : LineEnd) (line : List Char) (folds : List (List Char)) :
    ended eol (line :: folds) = line ++ folds.flatMap (eol.chars ++ ·) ++ eol.chars := by
  induction folds generalizing line with
  | nil => simp [ended]
  | cons fold folds ih =>
    have hnext := ih fold
    rw [ended] at hnext
    rw [ended, List.flatMap_cons, hnext]
    simp

theorem startsBlank_eol (eol : LineEnd) (rest : List Char) : startsBlank (eol.chars ++ rest) = false := by
  cases eol <;> rfl

theorem unfold_content (eol : LineEnd) (f : Field) :
    unfoldHeader false (f.content eol) = f.name ++ f.gap ++ ':' :: f.unfolded := by
  have hline : ∀ c ∈ f.line, ¬ LineBreak c := fun c hc => lineChar_unbroken ((f.isLine f.line List.mem_cons_self).chars c hc)
  have hfolds : ∀ folds : List (List Char), (∀ fold ∈ folds, startsBlank fold = true ∧ ∀ c ∈ fold, LineChar c) →
      unfoldHeader false (folds.flatMap (eol.chars ++ ·)) = folds.flatMap fun fold => ' ' :: fold.dropWhile isBlank := by
    intro folds h
    induction folds with
    | nil => rfl
    | cons fold folds ih =>
      obtain ⟨hstarts, hchars⟩ := h fold List.mem_cons_self
      have hrest : startsBlank (folds.flatMap (eol.chars ++ ·)) = false := by
        cases folds with
        | nil => rfl
        | cons next folds =>
          rw [List.flatMap_cons, List.append_assoc]
          exact startsBlank_eol eol _
      rw [List.flatMap_cons, List.append_assoc, unfoldHeader_fold eol hstarts hchars hrest,
        ih fun l hl => h l (List.mem_cons_of_mem fold hl)]
      rfl
  rw [Field.content, unfoldHeader_append hline, hfolds f.folds f.folds_chars, Field.line, Field.unfolded]
  simp

theorem dropWhile_gap (f : Field) (value : List Char) : (f.gap ++ ':' :: value).dropWhile isBlank = ':' :: value := by
  have hcolon : isBlank ':' = false := rfl
  rw [List.dropWhile_append_of_pos f.gap_blank, List.dropWhile_cons_of_neg (by simp [hcolon])]

theorem messageIdOfLine_field (f : Field) (value : List Char) :
    messageIdOfLine (f.name ++ f.gap ++ ':' :: value) = if f.isMessageId then some value else none := by
  have hlower : ∀ s : List Char, lower s = "message-id".toList → s.length = 10 := by
    intro s h
    have hlength := congrArg List.length h
    rwa [lower, List.length_map] at hlength
  rw [messageIdOfLine, List.append_assoc]
  by_cases hid : f.isMessageId
  · have hten := hlower f.name hid
    have hname : lower f.name = "message-id".toList := hid
    have htake : (f.name ++ (f.gap ++ ':' :: value)).take 10 = f.name := by rw [← hten, List.take_left]
    have hdrop : (f.name ++ (f.gap ++ ':' :: value)).drop 10 = f.gap ++ ':' :: value := by rw [← hten, List.drop_left]
    rw [htake, hdrop, hname, dropWhile_gap, if_pos hid]
    rfl
  · rw [if_neg hid]
    by_cases hlong : 10 ≤ f.name.length
    · have htake : (f.name ++ (f.gap ++ ':' :: value)).take 10 = f.name.take 10 := List.take_append_of_le_length hlong
      rw [htake, List.drop_append_of_le_length hlong]
      split
      · rename_i hname
        rw [beq_iff_eq] at hname
        cases hmore : f.name.drop 10 with
        | nil =>
          have hall : f.name.take 10 = f.name := by
            rw [← List.take_append_drop 10 f.name, hmore, List.append_nil, List.take_take, Nat.min_self]
          rw [hall] at hname
          exact absurd hname hid
        | cons c more =>
          have hc := f.name_chars c (List.mem_of_mem_drop (hmore ▸ List.mem_cons_self))
          have hblank := nameChar_blank hc
          rw [List.cons_append, List.dropWhile_cons_of_neg (by simp [hblank])]
          split
          · rename_i heq
            exact absurd (List.cons.inj heq).1 hc.2.2
          · rfl
      · rfl
    · -- the tenth character stands behind the name, where none of `message-id` is
      have hmem : ∃ d ∈ (f.name ++ (f.gap ++ ':' :: value)).take 10, isBlank d = true ∨ d = ':' := by
        obtain ⟨d, tail, hd, hkind⟩ : ∃ d tail, f.gap ++ ':' :: value = d :: tail ∧ (isBlank d = true ∨ d = ':') := by
          cases hgap : f.gap with
          | nil => exact ⟨':', value, rfl, .inr rfl⟩
          | cons d gap => exact ⟨d, gap ++ ':' :: value, rfl, .inl (f.gap_blank d (hgap ▸ List.mem_cons_self))⟩
        refine ⟨d, ?_, hkind⟩
        have hroom : 10 - f.name.length = (9 - f.name.length) + 1 := by omega
        rw [hd, List.take_append, hroom, List.take_succ_cons]
        simp
      obtain ⟨d, hd, hkind⟩ := hmem
      rw [if_neg]
      intro hname
      rw [beq_iff_eq] at hname
      have hlow : d.toLower ∈ "message-id".toList := by
        rw [← hname]
        exact List.mem_map_of_mem hd
      rcases hkind with hblank | rfl
      · rcases blank_cases hblank with rfl | rfl
        · exact absurd hlow (by decide)
        · exact absurd hlow (by decide)
      · exact absurd hlow (by decide)

theorem fieldOf_content (eol : LineEnd) (f : Field) :
    fieldOf (f.content eol) = if f.isMessageId then some f.unfolded else none := by
  have hunbroken : ∀ c ∈ f.name ++ f.gap ++ ':' :: f.unfolded, ¬ LineBreak c := by
    intro c hc
    apply lineChar_unbroken
    rw [List.mem_append, List.mem_append, List.mem_cons] at hc
    rcases hc with (hc | hc) | rfl | hc
    · exact nameChar_line (f.name_chars c hc)
    · exact blank_line (f.gap_blank c hc)
    · exact ⟨by decide, rfl⟩
    · rw [Field.unfolded, List.mem_append, List.mem_flatMap] at hc
      rcases hc with hc | ⟨fold, hfold, hc⟩
      · exact f.text_chars c hc
      · rcases List.mem_cons.mp hc with rfl | hc
        · exact ⟨by decide, rfl⟩
        · exact (f.folds_chars fold hfold).2 c ((List.dropWhile_sublist _).subset hc)
  have hlines := lines_append hunbroken []
  rw [List.append_nil] at hlines
  have hone : lines (f.name ++ f.gap ++ ':' :: f.unfolded) = [f.name ++ f.gap ++ ':' :: f.unfolded] := by
    rw [hlines]
    simp [firstLine, lines]
  rw [fieldOf, unfold_content, hone, List.findSome?_cons, messageIdOfLine_field]
  by_cases hid : f.isMessageId
  · rw [if_pos hid]
  · rw [if_neg hid]
    rfl

theorem fieldOf_next (eol : LineEnd) (content : List Char) {rest : List Char} (hrest : startsBlank rest = false) :
    fieldOf (content ++ eol.chars ++ rest) = (fieldOf content).or (fieldOf rest) := by
  cases eol with
  | lf =>
    rw [LineEnd.chars, List.append_assoc]
    exact fieldOf_feed content hrest
  | crlf =>
    have hsplit : content ++ LineEnd.crlf.chars ++ rest = (content ++ ['\r']) ++ '\n' :: rest := by simp [LineEnd.chars]
    rw [hsplit, fieldOf_feed _ hrest, fieldOf_return]

theorem fieldOf_fields (eol : LineEnd) (fields : List Field) :
    fieldOf (ended eol (fields.flatMap Field.lines)) = (fields.find? (·.isMessageId)).map Field.unfolded := by
  induction fields with
  | nil => exact fieldOf_nil
  | cons f fields ih =>
    have hrest : startsBlank (ended eol (fields.flatMap Field.lines)) = false := by
      cases fields with
      | nil => rfl
      | cons g fields =>
        obtain ⟨c, name, hname⟩ := List.exists_cons_of_ne_nil g.name_ne_nil
        have hc := nameChar_blank (g.name_chars c (hname ▸ List.mem_cons_self))
        simp [Field.lines, Field.line, ended, hname, startsBlank, hc]
    have hsplit : ended eol ((f :: fields).flatMap Field.lines) =
        f.content eol ++ eol.chars ++ ended eol (fields.flatMap Field.lines) := by
      rw [Field.content, ← ended_cons]
      simp [ended, Field.lines]
    rw [hsplit, fieldOf_next eol _ hrest, fieldOf_content, ih, List.find?_cons]
    split_ifs with hid
    · simp [hid]
    · simp [hid]

theorem messageId_read (m : Message) : readMessageId (latin1 m.bytes) = idOf m.fieldText := by
  have hascii := ended_ascii m.isLine m.eol
  obtain ⟨h, hcontent, hends⟩ := exists_headerLines m.isLine m.eol
  have hheader := headerText_eq hends
  rw [hcontent] at hheader
  have hne : h ≠ [] := by
    rintro rfl
    exact m.lines_ne_nil hcontent.symm
  obtain ⟨front, l, rfl⟩ := (List.eq_nil_or_concat' h).resolve_left hne
  have hsection : fieldOf (headerSection (latin1 m.bytes)) = fieldOf (headerText front ++ l.content) := by
    rw [Message.bytes, latin1_ascii hascii, ← hheader]
    cases m.body with
    | none =>
      change fieldOf (headerSection (_ ++ [])) = _
      rw [List.append_nil, fieldOf_alone]
    | some b =>
      have hl := hends l (by simp)
      change fieldOf (headerSection (_ ++ latin1 (utf8 m.eol.chars ++ b))) = _
      rw [latin1_ascii (eol_ascii m.eol)]
      apply fieldOf_found
      rw [hl]
      rintro ⟨hlf, hcrlf⟩
      rw [hlf] at hcrlf
      cases hcrlf
  rw [readMessageId_eq, hsection, ← fieldOf_lineEnd _ l.lineEnd, ← headerText_append, hheader, Message.lines,
    fieldOf_fields]
  rfl

end Read

end OpenMigrate.Mail
