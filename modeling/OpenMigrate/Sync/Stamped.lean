import Mathlib.Data.List.TakeWhile
import OpenMigrate.Sync.Reconcile

namespace OpenMigrate

section Text

def LineBreak (c : Char) : Prop := c = '\n' ∨ c = '\r'

theorem lines_ne_nil (s : List Char) : lines s ≠ [] := by
  cases s with
  | nil => simp [lines]
  | cons c rest =>
    rw [lines]
    split
    · simp
    · split <;> simp

def firstLine (s : List Char) : List Char := (lines s).headD []

theorem lines_cons_break {c : Char} (hc : LineBreak c) (rest : List Char) : lines (c :: rest) = [] :: lines rest := by
  rw [lines]
  split
  · rename_i hnil
    exact absurd hnil (lines_ne_nil rest)
  · rename_i line more hlines
    have hbreak : (c == '\n' || c == '\r') = true := by
      rcases hc with rfl | rfl <;> rfl
    rw [if_pos hbreak, hlines]

theorem lines_append {l : List Char} (hl : ∀ c ∈ l, ¬ LineBreak c) (rest : List Char) :
    lines (l ++ rest) = (l ++ firstLine rest) :: (lines rest).tail := by
  induction l with
  | nil =>
    obtain ⟨line, more, hlines⟩ := List.exists_cons_of_ne_nil (lines_ne_nil rest)
    simp [firstLine, hlines]
  | cons c l ih =>
    have hc : (c == '\n' || c == '\r') = false := by
      have hno := hl c List.mem_cons_self
      simpa [LineBreak] using hno
    rw [List.cons_append, lines, ih fun d hd => hl d (List.mem_cons_of_mem _ hd)]
    simp [hc]

theorem firstLine_cons {c : Char} (hc : ¬ LineBreak c) (rest : List Char) :
    firstLine (c :: rest) = c :: firstLine rest := by
  have hlines : lines ([c] ++ rest) = ([c] ++ firstLine rest) :: (lines rest).tail := lines_append (by simpa using hc) rest
  rw [List.singleton_append] at hlines
  rw [firstLine, hlines]
  rfl

theorem trimStart_append {s : List Char} {c : Char} (hc : whiteSpace c = false) (rest : List Char) :
    trimStart (s ++ c :: rest) = trimStart (s ++ [c]) ++ rest := by
  induction s with
  | nil => simp [trimStart, hc]
  | cons d s ih =>
    rw [trimStart, trimStart, List.cons_append, List.cons_append, List.dropWhile_cons, List.dropWhile_cons]
    split
    · exact ih
    · simp

theorem trimStart_append_singleton {l : List Char} {d : Char} (hd : whiteSpace d = false) :
    trimStart (l ++ [d]) = [d] ↔ ∀ c ∈ l, whiteSpace c = true := by
  induction l with
  | nil => simp [trimStart, hd]
  | cons c l ih =>
    rw [trimStart, List.cons_append, List.dropWhile_cons, List.forall_mem_cons]
    by_cases hc : whiteSpace c = true
    · rw [if_pos hc, ← trimStart, ih]
      exact (and_iff_right hc).symm
    · rw [if_neg hc]
      constructor
      · intro h
        simp at h
      · exact fun h => absurd h.1 hc

/-- A text that ends at its brackets keeps its brackets: what follows them matters only if it says something. -/
theorem trim_bracketed {c d : Char} (inner tail : List Char) (hc : whiteSpace c = false) (hd : whiteSpace d = false) :
    trim (' ' :: c :: (inner ++ d :: tail)) = c :: (inner ++ [d]) ↔ trim tail = [] := by
  have hstart : trimStart (' ' :: c :: (inner ++ d :: tail)) = c :: (inner ++ d :: tail) := by
    have hspace : whiteSpace ' ' = true := rfl
    simp [trimStart, hspace, hc]
  have hreverse : (c :: (inner ++ d :: tail)).reverse = tail.reverse ++ d :: (c :: inner).reverse := by simp
  rw [trim, hstart, hreverse, trimStart_append hd, List.reverse_append, List.reverse_reverse, ← List.cons_append,
    List.append_cancel_left_eq, List.reverse_eq_iff, List.reverse_singleton, trimStart_append_singleton hd, trim_eq_nil]
  simp

end Text

section Header

variable {l : List Char}

theorem headerSection_cons {c : Char} (hc : ¬ LineBreak c) (rest : List Char) :
    headerSection (c :: rest) = c :: headerSection rest := by
  rw [LineBreak, not_or] at hc
  rw [headerSection]
  · intro tail hcr
    exact absurd hcr hc.2
  · intro tail hlf
    exact absurd hlf hc.1

theorem headerSection_append (hl : ∀ c ∈ l, ¬ LineBreak c) (rest : List Char) :
    headerSection (l ++ rest) = l ++ headerSection rest := by
  induction l with
  | nil => rfl
  | cons c l ih =>
    rw [List.cons_append, headerSection_cons (hl c List.mem_cons_self), ih fun d hd => hl d (List.mem_cons_of_mem _ hd)]
    rfl

theorem unfoldHeader_append (hl : ∀ c ∈ l, ¬ LineBreak c) (rest : List Char) :
    unfoldHeader false (l ++ rest) = l ++ unfoldHeader false rest := by
  induction l with
  | nil => rfl
  | cons c l ih =>
    have hc := hl c List.mem_cons_self
    rw [LineBreak, not_or] at hc
    rw [List.cons_append, unfoldHeader, ih fun d hd => hl d (List.mem_cons_of_mem _ hd)]
    simp [hc]

theorem startsBlank_headerSection (rfc822 : List Char) : startsBlank (headerSection rfc822) = startsBlank rfc822 := by
  fun_cases headerSection rfc822 with
  | case1 => rfl
  | case2 => rfl
  | case3 => rfl
  | case4 c rest => rfl

/-- The line end a stamp is followed by. -/
def IsEol (eol : List Char) : Prop := eol = ['\r', '\n'] ∨ eol = ['\n']

theorem below_continues {eol rfc822 : List Char} (heol : IsEol eol) (hblank : startsBlank rfc822 = true) :
    unfoldHeader false (headerSection (eol ++ rfc822)) = ' ' :: unfoldHeader true (headerSection rfc822) := by
  obtain ⟨c, rest, rfl⟩ : ∃ c rest, rfc822 = c :: rest := by
    cases rfc822 with
    | nil => simp [startsBlank] at hblank
    | cons c rest => exact ⟨c, rest, rfl⟩
  have hne : c ≠ '\n' ∧ c ≠ '\r' := by
    constructor
    · rintro rfl
      simp [startsBlank, isBlank] at hblank
    · rintro rfl
      simp [startsBlank, isBlank] at hblank
  have hstarts : startsBlank (headerSection (c :: rest)) = true := (startsBlank_headerSection _).trans hblank
  rcases heol with rfl | rfl
  · have hsection : headerSection (['\r', '\n'] ++ c :: rest) = '\r' :: '\n' :: headerSection (c :: rest) := by
      simp [headerSection, hne]
    rw [hsection]
    simp [unfoldHeader, startsFold, hstarts]
  · have hsection : headerSection (['\n'] ++ c :: rest) = '\n' :: headerSection (c :: rest) := by
      simp [headerSection, hne]
    rw [hsection]
    simp [unfoldHeader, hstarts]

theorem headerSection_cases (c : Char) (rest : List Char) :
    headerSection (c :: rest) = [] ∨ headerSection (c :: rest) = c :: headerSection rest := by
  generalize hs : c :: rest = s
  fun_cases headerSection s with
  | case1 => cases hs
  | case2 => exact .inl rfl
  | case3 => exact .inl rfl
  | case4 c' rest' =>
    cases hs
    exact .inr rfl

theorem firstLine_break {c : Char} (hc : LineBreak c) (rest : List Char) : firstLine (c :: rest) = [] := by
  rw [firstLine, lines_cons_break hc]
  rfl

theorem below_leaves {eol rfc822 : List Char} (heol : IsEol eol) (hblank : startsBlank rfc822 = false) :
    firstLine (unfoldHeader false (headerSection (eol ++ rfc822))) = [] := by
  have hstarts : startsBlank (headerSection rfc822) = false := (startsBlank_headerSection _).trans hblank
  have hlf : headerSection ('\n' :: rfc822) = [] ∨ headerSection ('\n' :: rfc822) = '\n' :: headerSection rfc822 :=
    headerSection_cases '\n' rfc822
  have hbelow : unfoldHeader false ('\n' :: headerSection rfc822) = '\n' :: unfoldHeader false (headerSection rfc822) := by
    rw [unfoldHeader]
    simp [hstarts]
  rcases heol with rfl | rfl
  · rw [List.cons_append, List.singleton_append]
    rcases headerSection_cases '\r' ('\n' :: rfc822) with hempty | hsection
    · rw [hempty]
      rfl
    · rw [hsection]
      rcases hlf with hend | hline
      · rw [hend]
        rfl
      · rw [hline, unfoldHeader]
        simp only [startsFold, hstarts, Bool.and_false, Bool.false_eq_true, if_false]
        exact firstLine_break (.inr rfl) _
  · rw [List.singleton_append]
    rcases hlf with hend | hline
    · rw [hend]
      rfl
    · rw [hline, hbelow]
      exact firstLine_break (.inl rfl) _

end Header

section Stamp

variable {contentHash : List Char → String} {rfc822 : List Char}

/-- What `digest('hex')` returns. -/
def HexDigests (contentHash : List Char → String) : Prop :=
  ∀ rfc822, ∀ c ∈ (contentHash rfc822).toList, c.isDigit || (97 ≤ c.toNat && c.toNat ≤ 102) = true

/-- The characters between the brackets of a generated id. -/
def stampInner (contentHash : List Char → String) (rfc822 : List Char) : List Char :=
  (contentHash rfc822).toList ++ '@' :: GENERATED_MESSAGE_ID_DOMAIN.toList

def fieldName : List Char := ['M', 'e', 's', 's', 'a', 'g', 'e', '-', 'I', 'D', ':']

def stampLine (contentHash : List Char → String) (rfc822 : List Char) : List Char :=
  fieldName ++ ' ' :: '<' :: (stampInner contentHash rfc822 ++ ['>'])

theorem generateMessageId_toList (contentHash : List Char → String) (rfc822 : List Char) :
    (generateMessageId contentHash rfc822).toList = '<' :: (stampInner contentHash rfc822 ++ ['>']) := by
  simp [generateMessageId, stampInner]

theorem stampLine_eq : ("Message-ID: " ++ generateMessageId contentHash rfc822).toList = stampLine contentHash rfc822 := by
  rw [String.toList_append, generateMessageId_toList]
  rfl

theorem domain_unbroken : ∀ c ∈ GENERATED_MESSAGE_ID_DOMAIN.toList, ¬ LineBreak c := by
  have hall : GENERATED_MESSAGE_ID_DOMAIN.toList.all (fun c => c != '\n' && c != '\r') = true := by decide
  intro c hc
  have hno := List.all_eq_true.mp hall c hc
  simpa [LineBreak] using hno

theorem stampInner_unbroken (hhex : HexDigests contentHash) (rfc822 : List Char) :
    ∀ c ∈ stampInner contentHash rfc822, ¬ LineBreak c := by
  intro c hc
  rw [stampInner, List.mem_append, List.mem_cons] at hc
  rcases hc with hc | hc | hc
  · rintro (rfl | rfl)
    · exact absurd (hhex rfc822 _ hc) (by decide)
    · exact absurd (hhex rfc822 _ hc) (by decide)
  · rw [hc]
    simp [LineBreak]
  · exact domain_unbroken c hc

theorem stampLine_unbroken (hhex : HexDigests contentHash) (rfc822 : List Char) :
    ∀ c ∈ stampLine contentHash rfc822, ¬ LineBreak c := by
  have hinner := stampInner_unbroken hhex rfc822
  have hfixed : ∀ c ∈ fieldName ++ [' ', '<', '>'], ¬ LineBreak c := by simp [fieldName, LineBreak]
  intro c hc
  by_cases hin : c ∈ stampInner contentHash rfc822
  · exact hinner c hin
  · apply hfixed
    simpa [stampLine, hin] using hc

theorem messageIdOfLine_stamp (tail : List Char) :
    messageIdOfLine (stampLine contentHash rfc822 ++ tail) =
      some (' ' :: '<' :: (stampInner contentHash rfc822 ++ '>' :: tail)) := by
  have hlower : lower ['M', 'e', 's', 's', 'a', 'g', 'e', '-', 'I', 'D'] = "message-id".toList := by decide
  have hblank : isBlank ':' = false := by decide
  simp [messageIdOfLine, stampLine, fieldName, hlower, hblank]

theorem readMessageId_stamp (hhex : HexDigests contentHash) (rest : List Char) :
    readMessageId (stampLine contentHash rfc822 ++ rest) = some (generateMessageId contentHash rfc822) ↔
      trim (firstLine (unfoldHeader false (headerSection rest))) = [] := by
  have hline := stampLine_unbroken hhex rfc822
  have hid := generateMessageId_toList contentHash rfc822
  rw [readMessageId, headerSection_append hline, unfoldHeader_append hline, lines_append hline, List.findSome?_cons,
    messageIdOfLine_stamp]
  generalize firstLine (unfoldHeader false (headerSection rest)) = tail
  have hangle : whiteSpace '<' = false ∧ whiteSpace '>' = false := by decide
  rw [← trim_bracketed (stampInner contentHash rfc822) tail hangle.1 hangle.2, ← hid]
  generalize hvalue : trim (' ' :: '<' :: (stampInner contentHash rfc822 ++ '>' :: tail)) = value
  have hback : String.ofList value = generateMessageId contentHash rfc822 ↔
      value = (generateMessageId contentHash rfc822).toList := by
    constructor
    · intro h
      rw [← h, String.toList_ofList]
    · intro h
      rw [h, String.ofList_toList]
  simp only [hvalue]
  by_cases hempty : value = []
  · simp [hempty, hid]
  · simp [hempty, hback]

/-- The first line of the message is taken for a continuation of the stamp, and says something. -/
def continuesStamp (rfc822 : List Char) : Bool :=
  startsBlank rfc822 && trim (firstLine (unfoldHeader true (headerSection rfc822))) != []

theorem readMessageId_stamped_iff {eol : List Char} (hhex : HexDigests contentHash) (heol : IsEol eol) :
    readMessageId (stampLine contentHash rfc822 ++ eol ++ rfc822) = some (generateMessageId contentHash rfc822) ↔
      continuesStamp rfc822 = false := by
  rw [List.append_assoc, readMessageId_stamp hhex]
  cases hblank : startsBlank rfc822 with
  | false =>
    rw [below_leaves heol hblank]
    simp [continuesStamp, hblank, trim_eq_nil]
  | true =>
    rw [below_continues heol hblank, firstLine_cons (by simp [LineBreak])]
    have hspace : whiteSpace ' ' = true := rfl
    simp [continuesStamp, hblank, trim_eq_nil, hspace]

/-- The message reads back under the id it was given, is given no other one, and is still there. -/
structure KeepsIdentity (contentHash : List Char → String) (rfc822 : List Char) : Prop where
  reads : readMessageId (ensureMessageId contentHash rfc822).rfc822 = some (ensureMessageId contentHash rfc822).messageId
  again : ensureMessageId contentHash (ensureMessageId contentHash rfc822).rfc822 =
    { ensureMessageId contentHash rfc822 with generated := false }
  suffix : rfc822 <:+ (ensureMessageId contentHash rfc822).rfc822

theorem ensureMessageId_of_some {existing : String} (h : readMessageId rfc822 = some existing) :
    ensureMessageId contentHash rfc822 = ⟨rfc822, existing, false⟩ := by
  rw [ensureMessageId, h]

theorem ensureMessageId_of_none (contentHash : List Char → String) (h : readMessageId rfc822 = none) :
    ∃ eol, IsEol eol ∧ ensureMessageId contentHash rfc822 =
      ⟨stampLine contentHash rfc822 ++ eol ++ rfc822, generateMessageId contentHash rfc822, true⟩ := by
  refine ⟨if usesCrLf none rfc822 then ['\r', '\n'] else ['\n'], ?_, ?_⟩
  · split
    · exact .inl rfl
    · exact .inr rfl
  · rw [ensureMessageId, h]
    simp only [stampLine_eq]

theorem keepsIdentity_of_reads
    (h : readMessageId (ensureMessageId contentHash rfc822).rfc822 = some (ensureMessageId contentHash rfc822).messageId) :
    KeepsIdentity contentHash rfc822 := by
  apply KeepsIdentity.mk h
  · rw [ensureMessageId_of_some h]
  · cases hread : readMessageId rfc822 with
    | some existing => exact ⟨[], by rw [ensureMessageId_of_some hread, List.nil_append]⟩
    | none =>
      obtain ⟨eol, -, hstamped⟩ := ensureMessageId_of_none contentHash hread
      rw [hstamped]
      exact List.suffix_append _ _

theorem ensureMessageId_keeps_iff (hhex : HexDigests contentHash) (rfc822 : List Char) :
    KeepsIdentity contentHash rfc822 ↔ (readMessageId rfc822).isSome ∨ continuesStamp rfc822 = false := by
  have hreads : KeepsIdentity contentHash rfc822 ↔
      readMessageId (ensureMessageId contentHash rfc822).rfc822 = some (ensureMessageId contentHash rfc822).messageId :=
    ⟨KeepsIdentity.reads, keepsIdentity_of_reads⟩
  rw [hreads]
  cases hread : readMessageId rfc822 with
  | some existing => simp [ensureMessageId_of_some hread, hread]
  | none =>
    obtain ⟨eol, heol, hstamped⟩ := ensureMessageId_of_none contentHash hread
    rw [hstamped, readMessageId_stamped_iff hhex heol]
    simp

end Stamp

section Sample

def indented : List Char := " Subject: hi\r\n\r\nx".toList

def flush : List Char := "Subject: hi\r\n\r\nx".toList

/-- The digests of the two. -/
def sampleHash (rfc822 : List Char) : String :=
  if rfc822 = indented then "e4133726998856da5695264d8e45661a88bac7a5169a17e477559fe3dfcaeb89"
  else "ba8da6f41d520fc522402c449868cb8c5e8c5072a8a7a50c6341e6425f5e20a7"

theorem indented_loses_identity : ¬ KeepsIdentity sampleHash indented := by
  intro h
  exact absurd h.reads (by decide +kernel)

theorem flush_keeps_identity : KeepsIdentity sampleHash flush := by
  apply (ensureMessageId_keeps_iff ?_ flush).mpr
  · right
    decide +kernel
  · intro rfc822
    apply List.all_eq_true.mp
    unfold sampleHash
    split
    · decide +kernel
    · decide +kernel

end Sample

end OpenMigrate
