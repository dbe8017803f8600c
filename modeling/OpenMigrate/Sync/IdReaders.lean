import OpenMigrate.Sync.MailMessage
import OpenMigrate.Dav.Uid

namespace OpenMigrate.Mail

open Url

section Source

def idPattern : List Char := "message-id:".toList

/-- What stands behind the first `Message-ID:`, in either case. -/
def mention : List Char → Option (List Char)
  | [] => none
  | c :: rest => if lower ((c :: rest).take 11) = idPattern then some ((c :: rest).drop 11) else mention rest

/-- `/Message-ID:\s*([^\r\n]+)/i`, trimmed: where white space alone follows, the match is white space or there is none. -/
def firstMatch (content : List Char) : List Char :=
  match mention content with
  | none => []
  | some rest => trim ((trimStart rest).takeWhile (!isBreak ·))

/-- `replace(/[<>]/g, '')` -/
def withoutAngles (s : List Char) : List Char := s.filter fun c => c != '<' && c != '>'

/-- The reader of the IMAP conventions. -/
def Imap.extractMessageIdFromRfc822 (raw : Bytes) : Option String :=
  idOf (withoutAngles (firstMatch (lossyDecode none raw)))

/-- `slice(0, indexOf(…))` -/
def upTo (needle : List Char) : List Char → Option (List Char)
  | [] => none
  | c :: rest => if needle.isPrefixOf (c :: rest) then some [] else (upTo needle rest).map (c :: ·)

def headerPart (text : List Char) : List Char :=
  match (upTo ['\r', '\n', '\r', '\n'] text).or (upTo ['\n', '\n'] text) with
  | none => text
  | some front => if front = [] then text else front

/-- `split(/\r?\n/)` -/
def splitLines (text : List Char) : List (List Char) := (Dav.crlfToLf text).splitOn '\n'

/-- What the loop sets for a line. -/
def headerEntry (line : List Char) : Option (List Char × List Char) :=
  match line.takeWhile (· != ':'), line.dropWhile (· != ':') with
  | c :: before, ':' :: rest => some (trim (lower (c :: before)), trim rest)
  | _, _ => none

def parseRfc822Headers (rfc822 : Bytes) : List (List Char × List Char) :=
  (splitLines (headerPart (responseText rfc822))).filterMap headerEntry

def entryOf (key : List Char) (e : List Char × List Char) : Option (List Char) := if e.1 = key then some e.2 else none

/-- The reader of the JMAP target: of several entries the last is kept. -/
def Jmap.extractMessageIdFromRfc822 (rfc822 : Bytes) : Option String :=
  idOf (((parseRfc822Headers rfc822).filterMap (entryOf "message-id".toList)).getLast?.getD [])

/-- The id that `ensureMessageId` found. -/
def EnsuredMessageId.existing (e : EnsuredMessageId) : Option String := if e.generated then none else some e.messageId

end Source

section Message

variable (contentHash : List Char → String)

/-- All readers find the same id in a message, or none. -/
structure ReadersAgree (rfc822 : Bytes) : Prop where
  ensured : (EnsuredMessageId.existing (ensureMessageId contentHash (latin1 rfc822))).map normalizeMessageId =
    (readMessageId (latin1 rfc822)).map normalizeMessageId
  imap : (Imap.extractMessageIdFromRfc822 rfc822).map normalizeMessageId =
    (readMessageId (latin1 rfc822)).map normalizeMessageId
  jmap : (Jmap.extractMessageIdFromRfc822 rfc822).map normalizeMessageId =
    (readMessageId (latin1 rfc822)).map normalizeMessageId

/-- What the first line of a field has behind the pattern: all of its text where the pattern ends its name. -/
def Field.mentioned (f : Field) : Option (List Char) :=
  if f.gap = [] ∧ "message-id".toList <:+ lower f.name then some f.text else mention f.text

def heard (line : List Char) : Option (List Char) × List Char := (mention line, line)

def Field.heard (f : Field) : List (Option (List Char) × List Char) := (f.mentioned, f.line) :: f.folds.map Mail.heard

def Message.bodyLines (m : Message) : List (List Char) := (m.body.map fun b => OpenMigrate.lines (lossyDecode none b)).getD []

/-- The first of these lines that says something. -/
def firstSaid (ls : List (List Char)) : List Char := ((ls.map trim).find? (· ≠ [])).getD []

/-- What is said behind the first mention, on its line or on the next that is not blank. -/
def said : List (Option (List Char) × List Char) → List Char
  | [] => []
  | (some rest, _) :: more => firstSaid (rest :: more.map Prod.snd)
  | (none, _) :: more => said more

def Message.mentionText (m : Message) : List Char := said (m.fields.flatMap Field.heard ++ m.bodyLines.map heard)

/-- A line that a Message-ID stands on, alone. -/
def keyed (line : List Char) : Option (List Char) := (headerEntry line).bind (entryOf "message-id".toList)

def Field.entries (f : Field) : List (List Char) :=
  (if f.isMessageId then [trim f.text] else []) ++ f.folds.filterMap keyed

/-- The lines of a body that a CRLFCRLF in it makes part of the header: where lines end with LF. -/
def Message.overrun (m : Message) : List (List Char) :=
  match m.eol, m.body with
  | .lf, some b => ((upTo ['\r', '\n', '\r', '\n'] (lossyDecode none b)).map splitLines).getD []
  | _, _ => []

/-- What the last of the lines says that a Message-ID stands on. -/
def Message.lineText (m : Message) : List Char :=
  (m.fields.flatMap Field.entries ++ m.overrun.filterMap keyed).getLast?.getD []

end Message

section Mention

variable {c : Char} {s : List Char}

theorem mention_cons (c : Char) (rest : List Char) : mention (c :: rest) =
    if lower ((c :: rest).take 11) = idPattern then some ((c :: rest).drop 11) else mention rest := by
  rw [mention]

theorem idPattern_length (h : lower (s.take 11) = idPattern) : 11 ≤ s.length := by
  have hlength := congrArg List.length h
  rw [lower, List.length_map, List.length_take] at hlength
  have hpattern : idPattern.length = 11 := rfl
  omega

theorem mention_suffix {rest : List Char} (h : mention s = some rest) : rest <:+ s := by
  induction s with
  | nil => cases h
  | cons c s ih =>
    rw [mention_cons] at h
    split at h
    · obtain rfl := Option.some.inj h
      exact List.drop_suffix 11 (c :: s)
    · exact (ih h).trans (List.suffix_cons c s)

theorem mention_append_break (hc : isBreak c = true) (a b : List Char) :
    mention (a ++ c :: b) = match mention a with
      | some rest => some (rest ++ c :: b)
      | none => mention b := by
  have hbreak : c = '\r' ∨ c = '\n' := by simpa [isBreak] using hc
  have hlower : c.toLower ∉ idPattern := by rcases hbreak with rfl | rfl <;> decide
  have hbegins : ∀ front : List Char, lower ((front ++ c :: b).take 11) = idPattern → 11 ≤ front.length := by
    intro front h
    by_contra hshort
    apply hlower
    rw [← h]
    apply List.mem_map_of_mem
    have hroom : 11 - front.length = (10 - front.length) + 1 := by omega
    rw [List.take_append, hroom, List.take_succ_cons]
    simp
  induction a with
  | nil =>
    rw [List.nil_append, mention_cons, if_neg]
    · rfl
    · intro h
      exact absurd (hbegins [] h) (by decide)
  | cons d a ih =>
    rw [List.cons_append, mention_cons, mention_cons, ih]
    by_cases hfits : 11 ≤ (d :: a).length
    · rw [← List.cons_append, List.take_append_of_le_length hfits, List.drop_append_of_le_length hfits]
      split_ifs
      · rfl
      · rfl
    · have hlong : lower ((d :: (a ++ c :: b)).take 11) ≠ idPattern := fun h => hfits (hbegins (d :: a) h)
      have hshort : lower ((d :: a).take 11) ≠ idPattern := fun h => hfits (idPattern_length h)
      rw [if_neg hlong, if_neg hshort]

theorem at_colon {a : List Char} (ha : ':' ∉ a) (text : List Char) :
    (a ++ ':' :: text).takeWhile (· != ':') = a ∧ (a ++ ':' :: text).dropWhile (· != ':') = ':' :: text := by
  have hall : ∀ c ∈ a, (c != ':') = true := fun c hc => bne_iff_ne.mpr fun h => ha (h ▸ hc)
  constructor
  · rw [List.takeWhile_append_of_pos hall, List.takeWhile_cons_of_neg (by simp), List.append_nil]
  · rw [List.dropWhile_append_of_pos hall, List.dropWhile_cons_of_neg (by simp)]

theorem mention_colon {a : List Char} (ha : ':' ∉ a) (text : List Char) :
    mention (a ++ ':' :: text) = if "message-id".toList <:+ lower a then some text else mention text := by
  have hpattern : ∀ front : List Char, ':' ∉ front →
      (lower ((front ++ ':' :: text).take 11) = idPattern ↔ lower front = "message-id".toList) := by
    intro front hfront
    constructor
    · intro h
      have hsplit : lower ((front ++ ':' :: text).take 11) = "message-id".toList ++ [':'] := h
      obtain ⟨w, v, htake, hw, hv⟩ := List.map_eq_append_iff.mp hsplit
      obtain ⟨d, rfl, hd⟩ := List.map_eq_singleton_iff.mp hv
      have hcolon : d = ':' := by
        rw [← hd]
        apply (toLower_small _).symm
        rw [hd]
        exact .inr (by decide)
      subst hcolon
      have hno : ':' ∉ w := by
        intro hmem
        have hlow : ':'.toLower ∈ "message-id".toList := hw ▸ List.mem_map_of_mem hmem
        exact absurd hlow (by decide)
      have hwhole : w ++ ':' :: (front ++ ':' :: text).drop 11 = front ++ ':' :: text := by
        have hback := List.take_append_drop 11 (front ++ ':' :: text)
        rw [htake, List.append_assoc] at hback
        exact hback
      have hname := congrArg (List.takeWhile (· != ':')) hwhole
      rw [(at_colon hno _).1, (at_colon hfront _).1] at hname
      rw [← hname]
      exact hw
    · intro h
      have hlength : front.length = 10 := by
        have hten := congrArg List.length h
        rwa [lower, List.length_map] at hten
      have htake : (front ++ ':' :: text).take 11 = front ++ [':'] := by
        rw [List.take_append, hlength]
        simp [hlength]
      rw [htake, lower, List.map_append, ← lower, h]
      decide
  induction a with
  | nil =>
    have hsuffix : ¬ "message-id".toList <:+ lower [] := by decide
    rw [List.nil_append, mention_cons, if_neg hsuffix, if_neg]
    intro h
    exact absurd ((hpattern [] ha).mp h) (by decide)
  | cons d a ih =>
    have hrest : ':' ∉ a := fun h => ha (List.mem_cons_of_mem d h)
    have hfront := hpattern (d :: a) ha
    rw [List.cons_append] at hfront
    rw [List.cons_append, mention_cons, ih hrest]
    by_cases hwhole : lower (d :: a) = "message-id".toList
    · have hlength : (d :: a).length = 10 := by
        have hten := congrArg List.length hwhole
        rwa [lower, List.length_map] at hten
      have hdrop : (d :: (a ++ ':' :: text)).drop 11 = text := by
        have hskip : 11 = (d :: a).length + 1 := by omega
        rw [← List.cons_append, hskip, List.drop_length_add_append]
        rfl
      rw [if_pos (hfront.mpr hwhole), if_pos (hwhole ▸ List.suffix_refl _), hdrop]
    · have hsuffix : "message-id".toList <:+ lower (d :: a) ↔ "message-id".toList <:+ lower a := by
        have hcons : lower (d :: a) = d.toLower :: lower a := rfl
        rw [hcons, List.suffix_cons_iff, ← hcons, or_iff_right fun h => hwhole h.symm]
      rw [if_neg fun h => hwhole (hfront.mp h)]
      simp only [hsuffix]

end Mention

section Said

variable {a b : List Char} {c : Char}

theorem byLines {motive : List Char → Prop} (line : ∀ a, (∀ c ∈ a, isBreak c = false) → motive a)
    (more : ∀ a c b, (∀ d ∈ a, isBreak d = false) → isBreak c = true → motive b → motive (a ++ c :: b)) (t : List Char) :
    motive t := by
  have hfront : ∀ t front : List Char, (∀ c ∈ front, isBreak c = false) → motive (front ++ t) := by
    intro t
    induction t with
    | nil =>
      intro front hfront
      rw [List.append_nil]
      exact line front hfront
    | cons c t ih =>
      intro front hfront
      cases hc : isBreak c with
      | true => exact more front c t hfront hc (ih [] (by simp))
      | false =>
        have hlonger := ih (front ++ [c]) (by simpa [or_imp, forall_and, hc] using hfront)
        rwa [List.append_assoc] at hlonger
  exact hfront t [] (by simp)

theorem break_lineBreak (h : isBreak c = true) : LineBreak c := by
  have hcases : c = '\r' ∨ c = '\n' := by simpa [isBreak] using h
  exact hcases.symm

theorem unbroken_lineBreak (h : isBreak c = false) : ¬ LineBreak c := by
  rintro (rfl | rfl) <;> cases h

theorem lines_unbroken (ha : ∀ c ∈ a, isBreak c = false) : OpenMigrate.lines a = [a] := by
  have hlines := lines_append (fun c hc => unbroken_lineBreak (ha c hc)) []
  rw [List.append_nil] at hlines
  rw [hlines]
  simp [firstLine, OpenMigrate.lines]

theorem lines_line (ha : ∀ c ∈ a, isBreak c = false) (hc : isBreak c = true) (b : List Char) :
    OpenMigrate.lines (a ++ c :: b) = a :: OpenMigrate.lines b := by
  rw [lines_append_break (break_lineBreak hc), lines_unbroken ha]
  rfl

theorem trim_trimStart (s : List Char) : trim (trimStart s) = trim s := by
  rw [trim, trim, trimStart_of_head (trimStart_head s)]

theorem takeWhile_unbroken (ha : ∀ c ∈ a, isBreak c = false) : (trimStart a).takeWhile (!isBreak ·) = trimStart a := by
  apply List.takeWhile_eq_self_iff.mpr
  intro c hc
  rw [ha c ((List.dropWhile_sublist _).subset hc)]
  rfl

theorem firstSaid_cons (line : List Char) (ls : List (List Char)) :
    firstSaid (line :: ls) = if trim line = [] then firstSaid ls else trim line := by
  rw [firstSaid, List.map_cons, List.find?_cons]
  by_cases hblank : trim line = []
  · rw [if_pos hblank]
    simp [hblank, firstSaid]
  · rw [if_neg hblank]
    simp [hblank]

/-- What the group of the pattern matches: the first line that is not blank. -/
theorem matched_eq (t : List Char) : trim ((trimStart t).takeWhile (!isBreak ·)) = firstSaid (OpenMigrate.lines t) := by
  induction t using byLines with
  | line a ha =>
    rw [takeWhile_unbroken ha, trim_trimStart, lines_unbroken ha, firstSaid_cons]
    split
    · assumption
    · rfl
  | more a c b ha hc ih =>
    have hwhite : whiteSpace c = true := by
      have hcases : c = '\r' ∨ c = '\n' := by simpa [isBreak] using hc
      rcases hcases with rfl | rfl <;> decide
    rw [lines_line ha hc, firstSaid_cons]
    by_cases hblank : trim a = []
    · have hall := trim_eq_nil.mp hblank
      have hskip : trimStart (a ++ c :: b) = trimStart b := by
        rw [trimStart, List.dropWhile_append_of_pos hall, List.dropWhile_cons_of_pos hwhite]
        rfl
      rw [hskip, ih, if_pos hblank]
    · have hsome : trimStart a ≠ [] := by
        intro hnil
        apply hblank
        rw [trim, hnil]
        rfl
      have hkeep : trimStart (a ++ c :: b) = trimStart a ++ c :: b := by
        rw [trimStart, List.dropWhile_append, if_neg (by simpa [trimStart] using hsome)]
        rfl
      have hcut : (trimStart a ++ c :: b).takeWhile (!isBreak ·) = trimStart a := by
        have hself := List.takeWhile_eq_self_iff.mp (takeWhile_unbroken ha)
        rw [List.takeWhile_append_of_pos hself, List.takeWhile_cons_of_neg (by simp [hc]), List.append_nil]
      rw [hkeep, hcut, trim_trimStart, if_neg hblank]

theorem firstMatch_eq (t : List Char) : firstMatch t = said ((OpenMigrate.lines t).map heard) := by
  induction t using byLines with
  | line a ha =>
    rw [firstMatch, lines_unbroken ha, List.map_singleton, heard]
    cases hmention : mention a with
    | none => rfl
    | some rest =>
      have hrest : ∀ c ∈ rest, isBreak c = false := by
        intro c hc
        obtain ⟨k, rfl⟩ := mention_suffix hmention
        exact ha c (List.mem_append_right k hc)
      simp only [said]
      rw [matched_eq, lines_unbroken hrest]
      rfl
  | more a c b ha hc ih =>
    rw [firstMatch] at ih
    rw [firstMatch, mention_append_break hc, lines_line ha hc, List.map_cons, heard]
    cases hmention : mention a with
    | none => exact ih
    | some rest =>
      have hrest : ∀ d ∈ rest, isBreak d = false := by
        intro d hd
        obtain ⟨k, rfl⟩ := mention_suffix hmention
        exact ha d (List.mem_append_right k hd)
      have hlines : (OpenMigrate.lines b).map (Prod.snd ∘ heard) = OpenMigrate.lines b := List.map_id _
      simp only [said]
      rw [matched_eq, lines_line hrest hc, List.map_map, hlines]

theorem firstSaid_filter (ls : List (List Char)) : firstSaid (ls.filter (· ≠ [])) = firstSaid ls := by
  induction ls with
  | nil => rfl
  | cons line ls ih =>
    by_cases hline : line = []
    · subst hline
      rw [List.filter_cons_of_neg (by simp), ih, firstSaid_cons, if_pos (by decide)]
    · rw [List.filter_cons_of_pos (by simpa using hline), firstSaid_cons, firstSaid_cons, ih]

/-- Empty lines say nothing. -/
theorem said_filter (ls : List (List Char)) : said ((ls.filter (· ≠ [])).map heard) = said (ls.map heard) := by
  have hsnd : ∀ ls : List (List Char), (ls.map heard).map Prod.snd = ls := fun ls => by
    rw [List.map_map]
    exact List.map_id _
  induction ls with
  | nil => rfl
  | cons line ls ih =>
    by_cases hline : line = []
    · subst hline
      rw [List.filter_cons_of_neg (by simp), ih]
      rfl
    · rw [List.filter_cons_of_pos (by simpa using hline), List.map_cons, List.map_cons, heard]
      cases hmention : mention line with
      | none => exact ih
      | some rest =>
        simp only [said]
        rw [hsnd, hsnd, firstSaid_cons, firstSaid_cons, firstSaid_filter]

theorem lines_eol (eol : LineEnd) (b : List Char) :
    (OpenMigrate.lines (eol.chars ++ b)).filter (· ≠ []) = (OpenMigrate.lines b).filter (· ≠ []) := by
  have hnone : ∀ c ∈ ([] : List Char), isBreak c = false := by simp
  have hfeed : (OpenMigrate.lines ('\n' :: b)).filter (· ≠ []) = (OpenMigrate.lines b).filter (· ≠ []) := by
    rw [← List.nil_append ('\n' :: b), lines_line hnone rfl]
    rfl
  cases eol with
  | lf => exact hfeed
  | crlf =>
    change (OpenMigrate.lines ([] ++ '\r' :: '\n' :: b)).filter _ = _
    rw [lines_line hnone rfl, ← hfeed]
    rfl

theorem lines_ended {ls : List (List Char)} (hls : ∀ line ∈ ls, IsLine line) (eol : LineEnd) (rest : List Char) :
    (OpenMigrate.lines (ended eol ls ++ rest)).filter (· ≠ []) = ls ++ (OpenMigrate.lines rest).filter (· ≠ []) := by
  induction ls with
  | nil => rfl
  | cons line ls ih =>
    have hline := hls line List.mem_cons_self
    have hchars : ∀ c ∈ line, isBreak c = false := fun c hc => (hline.chars c hc).2
    have hrest := ih fun l hl => hls l (List.mem_cons_of_mem line hl)
    have hsplit : ended eol (line :: ls) ++ rest = line ++ (eol.chars ++ (ended eol ls ++ rest)) := by simp [ended]
    have hfirst : ∀ t, (OpenMigrate.lines (line ++ (eol.chars ++ t))).filter (· ≠ []) =
        line :: (OpenMigrate.lines (eol.chars ++ t)).filter (· ≠ []) := by
      intro t
      have hnone : ∀ c ∈ ([] : List Char), isBreak c = false := by simp
      cases eol with
      | lf =>
        change (OpenMigrate.lines (line ++ '\n' :: t)).filter _ = line :: (OpenMigrate.lines ([] ++ '\n' :: t)).filter _
        rw [lines_line hchars rfl, lines_line hnone rfl, List.filter_cons_of_pos (by simpa using hline.ne_nil)]
        rfl
      | crlf =>
        change (OpenMigrate.lines (line ++ '\r' :: '\n' :: t)).filter _ =
          line :: (OpenMigrate.lines ([] ++ '\r' :: '\n' :: t)).filter _
        rw [lines_line hchars rfl, lines_line hnone rfl, List.filter_cons_of_pos (by simpa using hline.ne_nil)]
        rfl
    rw [hsplit, hfirst, lines_eol, hrest, List.cons_append]

theorem gap_suffix {f : Field} : "message-id".toList <:+ lower (f.name ++ f.gap) ↔
    f.gap = [] ∧ "message-id".toList <:+ lower f.name := by
  constructor
  · intro h
    cases hgap : f.gap.reverse with
    | nil =>
      have hnil : f.gap = [] := List.reverse_eq_nil_iff.mp hgap
      rw [hnil, List.append_nil] at h
      exact ⟨hnil, h⟩
    | cons d front =>
      have hsplit : f.gap = front.reverse ++ [d] := by
        rw [← List.reverse_reverse f.gap, hgap, List.reverse_cons]
      have hlast : (lower (f.name ++ f.gap)).getLast? = some d.toLower := by
        rw [hsplit, lower]
        simp
      obtain ⟨before, hbefore⟩ := h
      have hd : some 'd' = some d.toLower := by
        rw [← hlast, ← hbefore, List.getLast?_append_of_ne_nil _ (by decide)]
        rfl
      rcases blank_cases (f.gap_blank d (by simp [hsplit])) with rfl | rfl
      · exact absurd hd (by decide)
      · exact absurd hd (by decide)
  · rintro ⟨hgap, h⟩
    rw [hgap, List.append_nil]
    exact h

theorem Field.no_colon (f : Field) : ':' ∉ f.name ++ f.gap := by
  intro h
  rcases List.mem_append.mp h with h | h
  · exact (f.name_chars _ h).2.2 rfl
  · exact absurd (f.gap_blank _ h) (by decide)

theorem Field.heard_eq (f : Field) : f.lines.map Mail.heard = f.heard := by
  have hline : mention f.line = f.mentioned := by
    rw [Field.line, mention_colon f.no_colon, Field.mentioned]
    simp only [gap_suffix]
  rw [Field.lines, List.map_cons, Field.heard, Mail.heard, hline]

theorem Message.lossy_bytes (m : Message) : lossyDecode none m.bytes =
    ended m.eol m.lines ++ (m.body.map fun b => m.eol.chars ++ lossyDecode none b).getD [] := by
  rw [Message.bytes, lossy_append]
  cases m.body with
  | none => rfl
  | some b =>
    change _ ++ lossyDecode none (utf8 m.eol.chars ++ b) = _
    rw [lossy_append]
    rfl

/-- The IMAP reader takes what the first mention in the message says. -/
theorem imap_reads (m : Message) : Imap.extractMessageIdFromRfc822 m.bytes = idOf (withoutAngles m.mentionText) := by
  have htail : (OpenMigrate.lines ((m.body.map fun b => m.eol.chars ++ lossyDecode none b).getD [])).filter (· ≠ []) =
      m.bodyLines.filter (· ≠ []) := by
    rw [Message.bodyLines]
    cases m.body with
    | none => rfl
    | some b => exact lines_eol m.eol _
  have hheard : m.fields.flatMap Field.heard = m.lines.map heard := by
    rw [Message.lines, List.map_flatMap]
    exact congrArg (m.fields.flatMap ·) (funext fun f => f.heard_eq.symm)
  have hlines : m.lines.filter (· ≠ []) = m.lines := by
    apply List.filter_eq_self.mpr
    intro line hline
    exact decide_eq_true (m.isLine line hline).ne_nil
  have hsaid : firstMatch (lossyDecode none m.bytes) = m.mentionText := by
    rw [firstMatch_eq, ← said_filter, m.lossy_bytes, lines_ended m.isLine, htail, Message.mentionText, hheard,
      ← List.map_append, ← said_filter (m.lines ++ m.bodyLines), List.filter_append, hlines]
  rw [Imap.extractMessageIdFromRfc822, hsaid]

end Said

section Split

variable {rest : List Char}

theorem upTo_skip {n : Char} {needle a : List Char} (ha : ∀ c ∈ a, c ≠ n) (rest : List Char) :
    upTo (n :: needle) (a ++ rest) = (upTo (n :: needle) rest).map (a ++ ·) := by
  induction a with
  | nil =>
    simp
  | cons c a ih =>
    have hc : c ≠ n := ha c List.mem_cons_self
    have hno : ¬ (n :: needle).isPrefixOf (c :: (a ++ rest)) = true := by
      rw [List.isPrefixOf_iff_prefix, List.cons_prefix_cons]
      exact fun h => hc h.1.symm
    rw [List.cons_append, upTo, if_neg hno, ih fun d hd => ha d (List.mem_cons_of_mem c hd), Option.map_map]
    rfl

/-- An empty line behind a line. -/
def blankLine (eol : LineEnd) : List Char := eol.chars ++ eol.chars

theorem upTo_eol (e eol : LineEnd) (hrest : ∀ c ∈ rest.head?, isBreak c = false) :
    upTo (blankLine e) (eol.chars ++ rest) = (upTo (blankLine e) rest).map (eol.chars ++ ·) := by
  have hhead : ∀ tail, rest ≠ '\n' :: tail ∧ rest ≠ '\r' :: tail := by
    intro tail
    constructor
    · rintro rfl
      exact absurd (hrest '\n' rfl) (by decide)
    · rintro rfl
      exact absurd (hrest '\r' rfl) (by decide)
  have hno : ∀ d tail, (d = '\n' ∨ d = '\r') → ¬ (d :: tail) <+: rest := by
    rintro d tail hd ⟨more, rfl⟩
    rcases hd with rfl | rfl
    · exact (hhead _).1 rfl
    · exact (hhead _).2 rfl
  cases e with
  | crlf =>
    cases eol with
    | crlf =>
      have hskip : upTo (blankLine .crlf) (['\n'] ++ rest) = (upTo (blankLine .crlf) rest).map (['\n'] ++ ·) :=
        upTo_skip (by simp) rest
      have hbegin : ¬ (blankLine .crlf).isPrefixOf ('\r' :: (['\n'] ++ rest)) = true := by
        rw [List.isPrefixOf_iff_prefix]
        change ¬ '\r' :: '\n' :: ['\r', '\n'] <+: '\r' :: '\n' :: rest
        rw [List.cons_prefix_cons, List.cons_prefix_cons]
        exact fun h => hno '\r' ['\n'] (.inr rfl) h.2.2
      change upTo (blankLine .crlf) ('\r' :: (['\n'] ++ rest)) = _
      rw [upTo, if_neg hbegin, hskip, Option.map_map]
      rfl
    | lf => exact upTo_skip (by simp [LineEnd.chars]) rest
  | lf =>
    have hbegin : ¬ (blankLine .lf).isPrefixOf ('\n' :: rest) = true := by
      rw [List.isPrefixOf_iff_prefix]
      change ¬ '\n' :: ['\n'] <+: _
      rw [List.cons_prefix_cons]
      exact fun h => hno '\n' [] (.inl rfl) h.2
    have hfeed : upTo (blankLine .lf) ('\n' :: rest) = (upTo (blankLine .lf) rest).map ('\n' :: ·) := by
      rw [upTo, if_neg hbegin]
    cases eol with
    | lf => exact hfeed
    | crlf =>
      have hskip : upTo (blankLine .lf) (['\r'] ++ '\n' :: rest) =
          (upTo (blankLine .lf) ('\n' :: rest)).map (['\r'] ++ ·) :=
        upTo_skip (by simp) _
      change upTo (blankLine .lf) (['\r'] ++ '\n' :: rest) = _
      rw [hskip, hfeed, Option.map_map]
      rfl

theorem IsLine.head {line : List Char} (hline : IsLine line) (rest : List Char) :
    ∀ c ∈ (line ++ rest).head?, isBreak c = false := by
  obtain ⟨d, more, rfl⟩ := List.exists_cons_of_ne_nil hline.ne_nil
  intro c hc
  obtain rfl := Option.some.inj hc
  exact (hline.chars d List.mem_cons_self).2

theorem upTo_line (e : LineEnd) {line : List Char} (hline : IsLine line) (rest : List Char) :
    upTo (blankLine e) (line ++ rest) = (upTo (blankLine e) rest).map (line ++ ·) := by
  have hchars : ∀ c ∈ line, c ≠ '\r' ∧ c ≠ '\n' := fun c hc => Dav.isBreak_ne (hline.chars c hc).2
  cases e with
  | crlf => exact upTo_skip (fun c hc => (hchars c hc).1) rest
  | lf => exact upTo_skip (fun c hc => (hchars c hc).2) rest

theorem upTo_lines (e eol : LineEnd) {front : List (List Char)} {last : List Char} (hfront : ∀ line ∈ front, IsLine line)
    (hlast : IsLine last) (rest : List Char) :
    upTo (blankLine e) (ended eol front ++ last ++ rest) = (upTo (blankLine e) rest).map (ended eol front ++ last ++ ·) := by
  induction front with
  | nil => exact upTo_line e hlast rest
  | cons line front ih =>
    have hline := hfront line List.mem_cons_self
    have htail : ∀ l ∈ front, IsLine l := fun l hl => hfront l (List.mem_cons_of_mem line hl)
    have hsplit : ∀ t : List Char, ended eol (line :: front) ++ last ++ t =
        line ++ (eol.chars ++ (ended eol front ++ last ++ t)) := fun t => by simp [ended]
    have hhead : ∀ c ∈ (ended eol front ++ last ++ rest).head?, isBreak c = false := by
      cases front with
      | nil => exact hlast.head rest
      | cons next front =>
        have hnext := (htail next List.mem_cons_self).head (eol.chars ++ (ended eol front ++ (last ++ rest)))
        simpa [ended] using hnext
    rw [hsplit, upTo_line e hline, upTo_eol e eol hhead, ih htail, Option.map_map, Option.map_map]
    congr 1
    funext t
    exact (hsplit t).symm

theorem crlfToLf_line {line : List Char} (hline : ∀ c ∈ line, isBreak c = false) (rest : List Char) :
    Dav.crlfToLf (line ++ rest) = line ++ Dav.crlfToLf rest := by
  induction line with
  | nil => rfl
  | cons c line ih =>
    have hc := (Dav.isBreak_ne (hline c List.mem_cons_self)).1
    rw [List.cons_append, Dav.crlfToLf_cons hc, ih fun d hd => hline d (List.mem_cons_of_mem c hd), List.cons_append]

theorem splitLines_last {line : List Char} (hline : ∀ c ∈ line, isBreak c = false) : splitLines line = [line] := by
  have hno : ∀ c ∈ line, (c == '\n') = false := fun c hc => beq_eq_false_iff_ne.mpr (Dav.isBreak_ne (hline c hc)).2
  have hcopy := crlfToLf_line hline []
  rw [List.append_nil, Dav.crlfToLf, List.append_nil] at hcopy
  rw [splitLines, hcopy, List.splitOn_eq_splitOnP, List.splitOnP_eq_singleton hno]

theorem splitLines_next {line : List Char} (hline : ∀ c ∈ line, isBreak c = false) (eol : LineEnd) (rest : List Char) :
    splitLines (line ++ (eol.chars ++ rest)) = line :: splitLines rest := by
  have hno : ∀ c ∈ line, (c == '\n') = false := fun c hc => beq_eq_false_iff_ne.mpr (Dav.isBreak_ne (hline c hc)).2
  have heol : Dav.crlfToLf (eol.chars ++ rest) = '\n' :: Dav.crlfToLf rest := by
    cases eol with
    | crlf => rfl
    | lf => exact Dav.crlfToLf_cons (by decide) rest
  rw [splitLines, crlfToLf_line hline, heol, splitLines, List.splitOn_eq_splitOnP, List.splitOn_eq_splitOnP]
  exact List.splitOnP_append_cons_of_forall_mem hno '\n' rfl _

theorem splitLines_ended {ls : List (List Char)} (hls : ∀ line ∈ ls, IsLine line) (eol : LineEnd) (rest : List Char) :
    splitLines (ended eol ls ++ rest) = ls ++ splitLines rest := by
  induction ls with
  | nil => rfl
  | cons line ls ih =>
    have hchars : ∀ c ∈ line, isBreak c = false := fun c hc => ((hls line List.mem_cons_self).chars c hc).2
    have hsplit : ended eol (line :: ls) ++ rest = line ++ (eol.chars ++ (ended eol ls ++ rest)) := by simp [ended]
    rw [hsplit, splitLines_next hchars, ih fun l hl => hls l (List.mem_cons_of_mem line hl), List.cons_append]

theorem keyed_nil : keyed [] = none := rfl

theorem Message.responseText_bytes (m : Message) : responseText m.bytes =
    ended m.eol m.lines ++ (m.body.map fun b => m.eol.chars ++ lossyDecode none b).getD [] := by
  obtain ⟨c, more, htext⟩ : ∃ c more, ended m.eol m.lines = c :: more := by
    apply List.exists_cons_of_ne_nil
    obtain ⟨line, ls, hls⟩ := List.exists_cons_of_ne_nil m.lines_ne_nil
    have hline := (m.isLine line (hls ▸ List.mem_cons_self)).ne_nil
    rw [hls]
    simp [ended, hline]
  have hc : c.toNat < 128 := ended_ascii m.isLine m.eol c (htext ▸ List.mem_cons_self)
  rw [← m.lossy_bytes, Message.bytes, htext, responseText_append hc, lossy_append]
  rfl

/-- The lines that the JMAP reader takes for the header. -/
theorem headerPart_lines (m : Message) :
    (splitLines (headerPart (responseText m.bytes))).filterMap keyed = (m.lines ++ m.overrun).filterMap keyed := by
  have hnil : splitLines [] = [[]] := rfl
  have hone : ∀ ls : List (List Char), (ls ++ [[]]).filterMap keyed = ls.filterMap keyed := by
    intro ls
    rw [List.filterMap_append, List.filterMap_cons_none keyed_nil, List.filterMap_nil, List.append_nil]
  obtain ⟨front, last, hlines⟩ := (List.eq_nil_or_concat' m.lines).resolve_left m.lines_ne_nil
  have hfront : ∀ line ∈ front, IsLine line := fun l hl => m.isLine l (by simp [hlines, hl])
  have hlast : IsLine last := m.isLine last (by simp [hlines])
  have hended : ∀ t : List Char, ended m.eol m.lines ++ t = ended m.eol front ++ last ++ (m.eol.chars ++ t) := by
    intro t
    rw [hlines, ended_append, List.append_assoc]
  have hsome : ∀ t : List Char, ended m.eol front ++ last ++ t ≠ [] := by
    intro t h
    exact hlast.ne_nil (List.append_eq_nil_iff.mp (List.append_eq_nil_iff.mp h).1).2
  have hfound : ∀ e t, upTo (blankLine e) (ended m.eol front ++ last ++ t) =
      (upTo (blankLine e) t).map (ended m.eol front ++ last ++ ·) := fun e t => upTo_lines e m.eol hfront hlast t
  have hheader : splitLines (ended m.eol front ++ last) = m.lines := by
    rw [splitLines_ended hfront, splitLines_last fun c hc => (hlast.chars c hc).2, hlines]
  rw [m.responseText_bytes, hended, headerPart]
  change (splitLines (match (upTo (blankLine .crlf) _).or (upTo (blankLine .lf) _) with
    | none => _
    | some front => if front = [] then _ else front)).filterMap keyed = _
  rw [hfound, hfound]
  cases hbody : m.body with
  | none =>
    have hend : ∀ e, upTo (blankLine e) (m.eol.chars ++ []) = none := by
      intro e
      cases e <;> cases m.eol <;> rfl
    have hover : m.overrun = [] := by
      rw [Message.overrun, hbody]
      cases m.eol <;> rfl
    simp only [Option.map_none, Option.getD_none]
    rw [hend, hend, hover, List.append_nil]
    simp only [Option.map_none, Option.or_none]
    have hwhole : ended m.eol front ++ last ++ m.eol.chars = ended m.eol m.lines ++ [] := by
      rw [hended, List.append_nil]
    rw [hwhole, splitLines_ended m.isLine, hnil, hone, List.append_nil]
  | some b =>
    simp only [Option.map_some, Option.getD_some]
    have hblank : ∀ t, upTo (blankLine m.eol) (m.eol.chars ++ (m.eol.chars ++ t)) = some [] := by
      intro t
      cases m.eol <;> rfl
    cases heol : m.eol with
    | crlf =>
      have hover : m.overrun = [] := by rw [Message.overrun, heol]
      rw [heol] at hblank hsome hheader
      rw [hblank, Option.map_some, Option.some_or]
      simp only
      rw [if_neg (hsome []), List.append_nil, hheader, hover, List.append_nil]
    | lf =>
      have hover : m.overrun =
          ((upTo ['\r', '\n', '\r', '\n'] (lossyDecode none b)).map splitLines).getD [] := by
        rw [Message.overrun, heol, hbody]
      have hskip : upTo (blankLine .crlf) (LineEnd.lf.chars ++ (LineEnd.lf.chars ++ lossyDecode none b)) =
          (upTo (blankLine .crlf) (lossyDecode none b)).map (['\n', '\n'] ++ ·) :=
        upTo_skip (a := ['\n', '\n']) (by simp) _
      have hcrlf : upTo (blankLine .crlf) = upTo ['\r', '\n', '\r', '\n'] := rfl
      rw [heol] at hblank hsome hheader hended
      rw [hblank, hskip, hover, hcrlf]
      cases upTo ['\r', '\n', '\r', '\n'] (lossyDecode none b) with
      | none =>
        simp only [Option.map_none, Option.none_or, Option.map_some, Option.getD_none, List.append_nil]
        have hne := hsome []
        rw [List.append_nil] at hne
        rw [if_neg hne, hheader]
      | some s =>
        simp only [Option.map_some, Option.some_or, Option.getD_some]
        have hback : ended .lf front ++ last ++ (['\n', '\n'] ++ s) = ended .lf m.lines ++ '\n' :: s := (hended _).symm
        have hnone : ∀ c ∈ ([] : List Char), isBreak c = false := by simp
        have hempty : splitLines ('\n' :: s) = [] :: splitLines s := splitLines_next hnone .lf s
        rw [if_neg (hsome _), hback, splitLines_ended m.isLine, hempty, List.filterMap_append,
          List.filterMap_cons_none keyed_nil, List.filterMap_append]

theorem trim_append {a b : List Char} (hb : ∀ c ∈ b, whiteSpace c = true) : trim (a ++ b) = trim a := by
  have hreverse : ∀ s : List Char, trimStart (s ++ b).reverse = trimStart s.reverse := by
    intro s
    rw [List.reverse_append, trimStart, List.dropWhile_append_of_pos fun c hc => hb c (List.mem_reverse.mp hc)]
    rfl
  by_cases hall : ∀ c ∈ a, whiteSpace c = true
  · have hboth : ∀ c ∈ a ++ b, whiteSpace c = true := fun c hc => (List.mem_append.mp hc).elim (hall c) (hb c)
    rw [trim_eq_nil.mpr hall, trim_eq_nil.mpr hboth]
  · have hne : trimStart a ≠ [] := by
      intro hnil
      exact hall (List.dropWhile_eq_nil_iff.mp hnil)
    have hstart : trimStart (a ++ b) = trimStart a ++ b := by
      rw [trimStart, List.dropWhile_append, if_neg (by simpa [trimStart] using hne)]
      rfl
    rw [trim, hstart, hreverse]
    rfl

theorem key_field (f : Field) : trim (lower (f.name ++ f.gap)) = lower f.name := by
  have hgap : ∀ c ∈ lower f.gap, whiteSpace c = true := by
    intro c hc
    obtain ⟨d, hd, rfl⟩ := List.mem_map.mp hc
    rcases blank_cases (f.gap_blank d hd) with rfl | rfl
    · decide
    · decide
  have hname : ∀ c ∈ lower f.name, whiteSpace c = false := by
    intro c hc
    obtain ⟨d, hd, rfl⟩ := List.mem_map.mp hc
    obtain ⟨hlow, hhigh, -⟩ := f.name_chars d hd
    by_contra hwhite
    have hbounds := whiteSpace_bounds (Bool.eq_true_of_not_eq_false hwhite)
    rcases toLower_cases d with hsame | ⟨-, -, hvalue⟩
    · rw [hsame] at hbounds
      omega
    · omega
  have hsplit : lower (f.name ++ f.gap) = lower f.name ++ lower f.gap := List.map_append
  rw [hsplit, trim_append hgap, trim_eq hname]

theorem keyed_line (f : Field) : keyed f.line = if f.isMessageId then some (trim f.text) else none := by
  obtain ⟨c, front, hfront⟩ : ∃ c front, f.name ++ f.gap = c :: front :=
    List.exists_cons_of_ne_nil fun h => f.name_ne_nil (List.append_eq_nil_iff.mp h).1
  have hentry : headerEntry f.line = some (lower f.name, trim f.text) := by
    obtain ⟨hbefore, hbehind⟩ := at_colon f.no_colon f.text
    rw [headerEntry, Field.line, hbefore, hbehind, hfront]
    simp only
    rw [← hfront, key_field]
  rw [keyed, hentry]
  rfl

theorem Field.keyed_lines (f : Field) : f.lines.filterMap keyed = f.entries := by
  rw [Field.lines, List.filterMap_cons, keyed_line, Field.entries]
  by_cases hid : f.isMessageId
  · simp [hid]
  · simp [hid]

/-- The JMAP reader takes the last line of the header that a Message-ID stands on. -/
theorem jmap_reads (m : Message) : Jmap.extractMessageIdFromRfc822 m.bytes = idOf m.lineText := by
  have hentries : m.lines.filterMap keyed = m.fields.flatMap Field.entries := by
    rw [Message.lines, List.filterMap_flatMap]
    exact congrArg (m.fields.flatMap ·) (funext Field.keyed_lines)
  have hparse : (parseRfc822Headers m.bytes).filterMap (entryOf "message-id".toList) =
      (splitLines (headerPart (responseText m.bytes))).filterMap keyed := by
    rw [parseRfc822Headers, List.filterMap_filterMap]
    rfl
  rw [Jmap.extractMessageIdFromRfc822, hparse, headerPart_lines, List.filterMap_append, hentries]
  rfl

end Split

section Agree

variable {s : List Char}

/-- The id that a text gives: what stands between the angle brackets around it, where there are some. -/
def Gives (text id : List Char) : Prop :=
  (∃ inner, trim text = '<' :: (inner ++ ['>']) ∧ inner.any isTerminator = false ∧ id = trim inner) ∨
    (∀ inner, trim text = '<' :: (inner ++ ['>']) → inner.any isTerminator = true) ∧ id = trim text

/-- The first Message-ID field with all its folds, the last line that one stands on, and the first mention of the name
give one id. -/
structure Message.OneId (m : Message) (id : List Char) : Prop where
  field : m.fieldText ≠ [] ∧ Gives m.fieldText id
  line : m.lineText ≠ [] ∧ Gives m.lineText id
  mention : withoutAngles m.mentionText ≠ [] ∧ id = trim (withoutAngles m.mentionText)

/-- There is nothing in any of the places. -/
structure Message.Silent (m : Message) : Prop where
  field : m.fieldText = []
  line : m.lineText = []
  mention : ∀ c ∈ m.mentionText, c = '<' ∨ c = '>'

theorem normalize_bracketed {inner : List Char} (h : trim s = '<' :: (inner ++ ['>'])) :
    normalizeMessageId (String.ofList s) = String.ofList (if inner.any isTerminator then trim s else trim inner) := by
  have hlength : ¬ (trim s).length < 2 := by
    rw [h, List.length_cons, List.length_append, List.length_singleton]
    omega
  have hany : (inner ++ ['>']).any isTerminator = inner.any isTerminator := by
    rw [List.any_append]
    exact Bool.or_false _
  have hreverse : (trim s).reverse = '>' :: ('<' :: inner).reverse := by
    rw [h, ← List.cons_append, List.reverse_append]
    rfl
  rw [normalizeMessageId, String.toList_ofList]
  simp only [hreverse]
  rw [h] at hlength ⊢
  simp only [hlength, hany, false_or, List.dropLast_concat]
  split_ifs
  · rfl
  · rfl

theorem normalize_plain (h : ∀ inner, trim s ≠ '<' :: (inner ++ ['>'])) :
    normalizeMessageId (String.ofList s) = String.ofList (trim s) := by
  rw [normalizeMessageId, String.toList_ofList]
  split
  · rename_i rest front hleft hright
    exfalso
    rw [hleft, List.reverse_cons] at hright
    cases hrest : rest.reverse with
    | nil =>
      rw [hrest] at hright
      exact absurd (List.cons.inj hright).1 (by decide)
    | cons c more =>
      rw [hrest, List.cons_append] at hright
      obtain rfl := (List.cons.inj hright).1
      apply h more.reverse
      rw [hleft, ← List.reverse_reverse rest, hrest, List.reverse_cons]
  · rfl

theorem gives_iff (s id : List Char) : Gives s id ↔ normalizeMessageId (String.ofList s) = String.ofList id := by
  by_cases hbracketed : ∃ inner, trim s = '<' :: (inner ++ ['>'])
  · obtain ⟨inner, hinner⟩ := hbracketed
    have hone : ∀ inner', trim s = '<' :: (inner' ++ ['>']) → inner' = inner := by
      intro inner' h
      exact List.append_cancel_right (List.cons.inj (h.symm.trans hinner)).2
    rw [normalize_bracketed hinner, String.ofList_inj]
    constructor
    · rintro (⟨inner', h, hclean, rfl⟩ | ⟨hbroken, rfl⟩)
      · obtain rfl := hone inner' h
        rw [hclean]
        rfl
      · rw [if_pos (hbroken inner hinner)]
    · intro h
      cases hclean : inner.any isTerminator with
      | true =>
        rw [hclean, if_pos rfl] at h
        exact .inr ⟨fun inner' h' => (hone inner' h').symm ▸ hclean, h.symm⟩
      | false =>
        rw [hclean, if_neg (by decide)] at h
        exact .inl ⟨inner, hinner, hclean, h.symm⟩
  · have hno : ∀ inner, trim s ≠ '<' :: (inner ++ ['>']) := fun inner h => hbracketed ⟨inner, h⟩
    rw [normalize_plain hno, String.ofList_inj]
    constructor
    · rintro (⟨inner, h, -⟩ | ⟨-, rfl⟩)
      · exact absurd h (hno inner)
      · rfl
    · intro h
      exact .inr ⟨fun inner h' => absurd h' (hno inner), h.symm⟩

theorem gives_withoutAngles (text id : List Char) : Gives (withoutAngles text) id ↔ id = trim (withoutAngles text) := by
  have hno : ∀ inner, trim (withoutAngles text) ≠ '<' :: (inner ++ ['>']) := by
    intro inner h
    have hmem : '<' ∈ withoutAngles text := by
      apply (trim_sublist _).subset
      rw [h]
      exact List.mem_cons_self
    exact absurd (List.mem_filter.mp hmem).2 (by decide)
  constructor
  · rintro (⟨inner, h, -⟩ | ⟨-, h⟩)
    · exact absurd h (hno inner)
    · exact h
  · intro h
    exact .inr ⟨fun inner h' => absurd h' (hno inner), h⟩

theorem withoutAngles_nil {text : List Char} : withoutAngles text = [] ↔ ∀ c ∈ text, c = '<' ∨ c = '>' := by
  simp [withoutAngles, List.filter_eq_nil_iff, or_iff_not_imp_left]

theorem idOf_eq_iff (s t : List Char) : (idOf s).map normalizeMessageId = (idOf t).map normalizeMessageId ↔
    s = [] ∧ t = [] ∨ s ≠ [] ∧ t ≠ [] ∧ normalizeMessageId (String.ofList s) = normalizeMessageId (String.ofList t) := by
  rw [idOf, idOf]
  by_cases hs : s = [] <;> by_cases ht : t = [] <;> simp [hs, ht]

theorem existing_eq (contentHash : List Char → String) (rfc822 : List Char) :
    EnsuredMessageId.existing (ensureMessageId contentHash rfc822) = readMessageId rfc822 := by
  cases h : readMessageId rfc822 with
  | none =>
    obtain ⟨eol, -, hensured⟩ := ensureMessageId_of_none contentHash h
    rw [hensured]
    rfl
  | some existing =>
    rw [ensureMessageId_of_some h]
    rfl

/-- The readers agree on a message exactly where its places give one id, or none. -/
theorem readers_agree_iff (contentHash : List Char → String) (m : Message) :
    ReadersAgree contentHash m.bytes ↔ (∃ id, m.OneId id) ∨ m.Silent := by
  have hsplit : ReadersAgree contentHash m.bytes ↔
      (idOf (withoutAngles m.mentionText)).map normalizeMessageId = (idOf m.fieldText).map normalizeMessageId ∧
        (idOf m.lineText).map normalizeMessageId = (idOf m.fieldText).map normalizeMessageId := by
    rw [← messageId_read, ← imap_reads, ← jmap_reads]
    constructor
    · exact fun h => ⟨h.imap, h.jmap⟩
    · exact fun h => ⟨by rw [existing_eq], h.1, h.2⟩
  rw [hsplit, idOf_eq_iff, idOf_eq_iff]
  constructor
  · rintro ⟨⟨hmention, hfield⟩ | ⟨hmention, hfield, hsame⟩, ⟨hline, hnone⟩ | ⟨hline, hsome, hequal⟩⟩
    · exact .inr ⟨hfield, hline, withoutAngles_nil.mp hmention⟩
    · exact absurd hfield hsome
    · exact absurd hnone hfield
    · have hid : ∀ text, normalizeMessageId (String.ofList text) = normalizeMessageId (String.ofList m.fieldText) →
          Gives text (normalizeMessageId (String.ofList m.fieldText)).toList := by
        intro text h
        rw [gives_iff, h, String.ofList_toList]
      exact .inl ⟨_, ⟨hfield, hid _ rfl⟩, ⟨hline, hid _ hequal⟩, hmention, (gives_withoutAngles _ _).mp (hid _ hsame)⟩
  · rintro (⟨id, hfield, hline, hmention⟩ | hsilent)
    · have hid := (gives_iff _ _).mp hfield.2
      have hbehind := (gives_iff _ _).mp ((gives_withoutAngles _ _).mpr hmention.2)
      exact ⟨.inr ⟨hmention.1, hfield.1, hbehind.trans hid.symm⟩,
        .inr ⟨hline.1, hfield.1, ((gives_iff _ _).mp hline.2).trans hid.symm⟩⟩
    · exact ⟨.inl ⟨withoutAngles_nil.mpr hsilent.mention, hsilent.field⟩, .inl ⟨hsilent.line, hsilent.field⟩⟩

end Agree

section Sample

theorem Sample.nameChars {name : List Char} (h : name.all (fun c => decide (NameChar c)) = true) :
    ∀ c ∈ name, NameChar c := fun c hc => of_decide_eq_true (List.all_eq_true.mp h c hc)

theorem Sample.lineChars {text : List Char} (h : text.all (fun c => decide (LineChar c)) = true) :
    ∀ c ∈ text, LineChar c := fun c hc => of_decide_eq_true (List.all_eq_true.mp h c hc)

def Sample.from : Field where
  name := "From".toList
  text := " a@b".toList
  name_ne_nil := by decide
  name_chars := Sample.nameChars (by decide)
  gap_blank := List.all_eq_true.mp (by decide)
  text_chars := Sample.lineChars (by decide)
  folds_chars := List.forall_mem_nil _

/-- A name that takes the line, and the id below. -/
def Sample.foldedField : Field where
  name := "Message-ID".toList
  text := []
  folds := [" <1@b>".toList]
  name_ne_nil := by decide
  name_chars := Sample.nameChars (by decide)
  gap_blank := List.forall_mem_nil _
  text_chars := List.forall_mem_nil _
  folds_chars := List.forall_mem_singleton.mpr ⟨by decide, Sample.lineChars (by decide)⟩

def Sample.folded : Message where
  fields := [Sample.from, Sample.foldedField]
  eol := .crlf
  body := some (utf8 "hi".toList)
  fields_ne_nil := by decide

/-- A folded Message-ID is read, but not by the JMAP target. -/
theorem folded_disagrees : ¬ ∃ contentHash, ReadersAgree contentHash Sample.folded.bytes := by
  rintro ⟨contentHash, h⟩
  have hjmap := h.jmap
  have hfield : Sample.folded.fieldText = "<1@b>".toList := by decide
  have hline : Sample.folded.lineText = [] := by decide
  rw [jmap_reads, messageId_read, hfield, hline] at hjmap
  exact absurd hjmap (by decide)

end Sample

end OpenMigrate.Mail
