import OpenMigrate.Dav.Canonical
import OpenMigrate.Escape.Joined
import Mathlib.Data.Multiset.MapFold

namespace OpenMigrate.Dav

open OpenMigrate.Joined

section Content

/-- The name of a compared property and its value. -/
abbrev Entry := List Char × List Char

def entryText (e : Entry) : List Char := e.1 ++ ':' :: e.2

/-- What a property says, if it is compared and its value is not blank. -/
def entry (k : DavKind) (name value : List Char) : Option Entry :=
  if k.properties.contains (upper name) ∧ trim (unescapeText value) ≠ [] then
    some (upper name, trim (unescapeText value)) else none

def ContentLine.carried (k : DavKind) (l : ContentLine) : Option Entry := entry k l.name.chars l.value

/-- What `canonicalLines` takes from a line: nothing behind a group, and all that stands behind the first colon. -/
def ContentLine.read (k : DavKind) (l : ContentLine) : Option Entry :=
  if l.group.isNone then entry k l.name.chars l.behindColon else none

/-- The content of a body. -/
def Body.carried (k : DavKind) (b : Body) : Multiset Entry := ↑(b.all.filterMap fun l => l.line.carried k)

/-- What `canonicalLines` takes from it. -/
def Body.read (k : DavKind) (b : Body) : Multiset Entry := ↑(b.all.filterMap fun l => l.line.read k)

end Content

section Lines

variable {k : DavKind} {l : ContentLine}

theorem property_chars {name : List Char} (h : name ∈ k.properties) :
    ∀ c ∈ name, isNameChar c = true ∧ c.toUpper = c := by
  have hall : k.properties.all (fun name => name.all fun c => isNameChar c && c.toUpper == c) = true := by
    cases k with
    | calendar => decide
    | contact => decide
  intro c hc
  have hchar := List.all_eq_true.mp (List.all_eq_true.mp hall name h) c hc
  simpa using hchar

theorem property_ne_nil {name : List Char} (h : name ∈ k.properties) : name ≠ [] := by
  have hall : k.properties.all (fun name => !name.isEmpty) = true := by
    cases k with
    | calendar => decide
    | contact => decide
  have hname := List.all_eq_true.mp hall name h
  simpa using hname

theorem upper_dot {s : List Char} (h : upper s ∈ k.properties) : '.' ∉ s := by
  intro hmem
  have hdot := (property_chars h '.' (List.mem_map.mpr ⟨'.', hmem, rfl⟩)).1
  cases hdot

theorem trim_head_eq (l : ContentLine) : trim l.head = l.head := by
  apply trim_eq
  intro c hc
  obtain hc | rfl := head_chars hc
  · exact nameChar_white hc
  · rfl

theorem behind_head (l : ContentLine) :
    ((l.paramChars ++ ':' :: l.value).takeWhile (· != ':')).takeWhile (· != ';') = [] ∧
      (l.paramChars ++ ':' :: l.value).dropWhile (· != ':') = ':' :: l.behindColon := by
  constructor
  · obtain ⟨c, rest, htail, ⟨rfl, -⟩ | ⟨rfl, -⟩⟩ := tail_head l
    · rw [htail]
      rfl
    · rw [htail]
      rfl
  · have hmem : ':' ∈ l.paramChars ++ ':' :: l.value := List.mem_append_right _ List.mem_cons_self
    cases hdrop : (l.paramChars ++ ':' :: l.value).dropWhile (· != ':') with
    | nil =>
      have hnot := List.dropWhile_eq_nil_iff.mp hdrop ':' hmem
      cases hnot
    | cons c rest =>
      have hhead := List.head?_dropWhile_not (· != ':') (l.paramChars ++ ':' :: l.value)
      rw [hdrop] at hhead
      obtain rfl : c = ':' := by simpa using hhead
      rw [ContentLine.behindColon, hdrop, List.tail_cons]

theorem canonicalLine_text (k : DavKind) (l : ContentLine) :
    canonicalLine k.properties l.text = (l.read k).map entryText := by
  obtain ⟨hname, hvalue⟩ := behind_head l
  have hcolon : ∀ c ∈ l.head, (c != ':') = true := fun c hc => bne_iff_ne.mpr (head_plain hc).2.2.1
  have hsemi : ∀ c ∈ l.head, (c != ';') = true := fun c hc => bne_iff_ne.mpr (head_plain hc).2.2.2
  have hbefore : l.text.takeWhile (· != ':') = l.head ++ (l.paramChars ++ ':' :: l.value).takeWhile (· != ':') := by
    rw [ContentLine.text, List.takeWhile_append_of_pos hcolon]
  have hbehind : l.text.dropWhile (· != ':') = ':' :: l.behindColon := by
    rw [ContentLine.text, List.dropWhile_append_of_pos hcolon, hvalue]
  have hread : canonicalLine k.properties l.text =
      if k.properties.contains (upper l.head) ∧ trim (unescapeText l.behindColon) ≠ [] then
        some (upper l.head ++ ':' :: trim (unescapeText l.behindColon)) else none := by
    have hname' : (l.head ++ (l.paramChars ++ ':' :: l.value).takeWhile (· != ':')).takeWhile (· != ';') = l.head := by
      rw [List.takeWhile_append_of_pos hsemi, hname, List.append_nil]
    obtain ⟨c, rest, hhead⟩ := List.exists_cons_of_ne_nil (head_ne_nil l)
    rw [hhead, List.cons_append] at hbefore hname'
    rw [canonicalLine, hbefore, hbehind]
    simp only [hname', ← hhead, trim_head_eq]
  rw [hread, ContentLine.read, entry, ContentLine.head, ContentLine.groupChars]
  cases hgroup : l.group with
  | none =>
    simp only [Option.map_none, Option.getD_none, List.nil_append, Option.isNone_none, if_true]
    split
    · rfl
    · rfl
  | some g =>
    have hdot : upper (g.chars ++ ['.'] ++ l.name.chars) ∉ k.properties := by
      intro h
      apply upper_dot h
      simp
    simp only [Option.map_some, Option.getD_some, Option.isNone_some]
    rw [if_neg fun h => hdot (List.contains_iff_mem.mp h.1)]
    rfl

end Lines

section Order

variable {k : DavKind} {m m' : Multiset Entry} {texts texts' : List (List Char)}

/-- `NAME:` of a compared property stands first. -/
def startsEntry (k : DavKind) (s : List Char) : Bool := k.properties.any fun name => (name ++ [':']).isPrefixOf s

/-- The lines of a content as they are sorted. -/
structure InOrder (texts : List (List Char)) (m : Multiset Entry) : Prop where
  sorted : texts.Pairwise fun a b => codeUnits a ≤ codeUnits b
  lines : (texts : Multiset (List Char)) = m.map entryText

/-- Different contents whose sorted lines are the same once they are cut wherever `NAME:` follows a line feed. -/
def RunTogether (k : DavKind) (m m' : Multiset Entry) : Prop :=
  m ≠ m' ∧ ∃ texts texts', InOrder texts m ∧ InOrder texts' m' ∧
    texts.flatMap (cut '\n' (startsEntry k)) = texts'.flatMap (cut '\n' (startsEntry k))

/-- What can be read from a line. -/
structure Readable (k : DavKind) (e : Entry) : Prop where
  name : e.1 ∈ k.properties
  ne_nil : e.2 ≠ []
  trimmed : trim e.2 = e.2
  chars : ∀ c ∈ e.2, c = '\n' ∨ isTerminator c = false

theorem seenBefore_startsEntry (k : DavKind) : SeenBefore '\n' (startsEntry k) := by
  intro text rest
  have hname : ∀ name ∈ k.properties,
      (name ++ [':']).isPrefixOf (text ++ '\n' :: rest) = (name ++ [':']).isPrefixOf text := by
    intro name hname
    apply isPrefixOf_append
    rw [List.mem_append, List.mem_singleton]
    rintro (hmem | hmem)
    · have hchar := (property_chars hname _ hmem).1
      cases hchar
    · cases hmem
  rw [startsEntry, startsEntry, Bool.eq_iff_iff, List.any_eq_true, List.any_eq_true]
  constructor
  · rintro ⟨name, hmem, hstarts⟩
    exact ⟨name, hmem, (hname name hmem).symm.trans hstarts⟩
  · rintro ⟨name, hmem, hstarts⟩
    exact ⟨name, hmem, (hname name hmem).trans hstarts⟩

theorem startsEntry_text {e : Entry} (h : e.1 ∈ k.properties) : startsEntry k (entryText e) = true := by
  rw [startsEntry, List.any_eq_true]
  refine ⟨e.1, h, ?_⟩
  rw [List.isPrefixOf_iff_prefix, entryText]
  exact ⟨e.2, by simp⟩

theorem startsEntry_nil (k : DavKind) : startsEntry k [] = false := by
  cases k with
  | calendar => decide
  | contact => decide

theorem InOrder.starts (h : InOrder texts m) (hm : ∀ e ∈ m, Readable k e) :
    ∀ text ∈ texts, startsEntry k text = true := by
  intro text htext
  rw [← Multiset.mem_coe, h.lines, Multiset.mem_map] at htext
  obtain ⟨e, he, rfl⟩ := htext
  exact startsEntry_text (hm e he).name

theorem InOrder.unique (h : InOrder texts m) (h' : InOrder texts' m) : texts = texts' := by
  have hperm : texts.Perm texts' := Multiset.coe_eq_coe.mp (h.lines.trans h'.lines.symm)
  apply hperm.eq_of_pairwise _ h.sorted h'.sorted
  intro a b _ _ hab hba
  exact codeUnits_injective (le_antisymm hab hba)

theorem InOrder.content (h : InOrder texts m) (hm : ∀ e ∈ m, Readable k e) (h' : InOrder texts m')
    (hm' : ∀ e ∈ m', Readable k e) : m = m' := by
  have hback : ∀ {m : Multiset Entry}, (∀ e ∈ m, Readable k e) →
      (m.map entryText).map (fun text => (text.takeWhile (· != ':'), (text.dropWhile (· != ':')).tail)) = m := by
    intro m hm
    rw [Multiset.map_map]
    have hid : ∀ e ∈ m, ((fun text : List Char => (text.takeWhile (· != ':'), (text.dropWhile (· != ':')).tail)) ∘
        entryText) e = id e := by
      intro e he
      have hname : ∀ c ∈ e.1, (c != ':') = true := by
        intro c hc
        have hchar := (property_chars (hm e he).name c hc).1
        rw [bne_iff_ne]
        exact (isNameChar_plain hchar).2.2.1
      simp [entryText, List.takeWhile_append_of_pos hname, List.dropWhile_append_of_pos hname]
    rw [Multiset.map_congr rfl hid, Multiset.map_id]
  rw [← hback hm, ← h.lines, h'.lines, hback hm']

theorem intercalate_inOrder (h : InOrder texts m) (hm : ∀ e ∈ m, Readable k e) (h' : InOrder texts' m')
    (hm' : ∀ e ∈ m', Readable k e) :
    ['\n'].intercalate texts = ['\n'].intercalate texts' ↔ m = m' ∨ RunTogether k m m' := by
  have hjoin := intercalate_eq_iff (seenBefore_startsEntry k) (startsEntry_nil k) (h.starts hm) (h'.starts hm')
  constructor
  · intro hsame
    by_cases hm : m = m'
    · exact .inl hm
    · exact .inr ⟨hm, texts, texts', h, h', hjoin.mp hsame⟩
  · rintro (rfl | ⟨-, texts₁, texts₁', h₁, h₁', hcut⟩)
    · rw [h.unique h']
    · rw [hjoin, h.unique h₁, h'.unique h₁', hcut]

end Order

section Bodies

variable {k : DavKind} {b b' : Body}

theorem unescapeText_plain {c : Char} (h : c ≠ '\\') (rest : List Char) :
    unescapeText (c :: rest) = c :: unescapeText rest := by
  rw [unescapeText]
  rintro d rest' rfl
  exact absurd rfl h

theorem unescapeText_escaped {c : Char} (h : c = ',' ∨ c = ';' ∨ c = '\\') (rest : List Char) :
    unescapeText ('\\' :: c :: rest) = c :: unescapeText rest := by
  obtain rfl | rfl | rfl := h
  · rfl
  · rfl
  · rfl

theorem mem_unescapeText {c : Char} {value : List Char} (h : c ∈ unescapeText value) : c = '\n' ∨ c ∈ value := by
  fun_induction unescapeText value with
  | case1 d rest hd ih =>
    obtain rfl | h := List.mem_cons.mp h
    · exact .inl rfl
    · exact (ih h).imp_right fun hmem => List.mem_cons_of_mem _ (List.mem_cons_of_mem _ hmem)
  | case2 d rest _ hd ih =>
    obtain rfl | h := List.mem_cons.mp h
    · exact .inr (List.mem_cons_of_mem _ List.mem_cons_self)
    · exact (ih h).imp_right fun hmem => List.mem_cons_of_mem _ (List.mem_cons_of_mem _ hmem)
  | case3 d rest _ _ ih =>
    obtain rfl | h := List.mem_cons.mp h
    · exact .inr List.mem_cons_self
    · exact (ih h).imp_right (List.mem_cons_of_mem _)
  | case4 d rest _ ih =>
    obtain rfl | h := List.mem_cons.mp h
    · exact .inr List.mem_cons_self
    · exact (ih h).imp_right (List.mem_cons_of_mem _)
  | case5 => cases h

theorem entry_readable {name value : List Char} {e : Entry} (hvalue : ∀ c ∈ value, isTerminator c = false)
    (h : entry k name value = some e) : Readable k e := by
  rw [entry] at h
  split at h
  · rename_i hentry
    cases h
    constructor
    · exact List.contains_iff_mem.mp hentry.1
    · exact hentry.2
    · exact trim_trim _
    · intro c hc
      exact (mem_unescapeText ((trim_sublist _).subset hc)).imp_right (hvalue c)
  · cases h

theorem read_readable : ∀ e ∈ b.read k, Readable k e := by
  intro e he
  rw [Body.read, Multiset.mem_coe, List.mem_filterMap] at he
  obtain ⟨l, -, hread⟩ := he
  rw [ContentLine.read] at hread
  split at hread
  · exact entry_readable (fun c hc => text_line ((behindColon_sublist l.line).subset hc)) hread
  · cases hread

instance : Std.Total fun a b : List Char => codeUnits a ≤ codeUnits b :=
  ⟨fun a b => le_total (codeUnits a) (codeUnits b)⟩

instance : IsTrans (List Char) fun a b => codeUnits a ≤ codeUnits b :=
  ⟨fun _ _ _ => le_trans⟩

theorem canonicalLines_text (k : DavKind) (b : Body) :
    ∃ texts, InOrder texts (b.read k) ∧ canonicalLines b.text k.properties = ['\n'].intercalate texts := by
  refine ⟨_, ⟨List.pairwise_insertionSort _ _, ?_⟩, rfl⟩
  have hpushed : (unfold b.text).filterMap (canonicalLine k.properties) =
      (b.all.filterMap fun l => l.line.read k).map entryText := by
    have hline : (fun l : FoldedLine => canonicalLine k.properties l.line.text) =
        fun l => (l.line.read k).map entryText := funext fun l => canonicalLine_text k l.line
    rw [unfold_text, List.filterMap_map, List.map_filterMap]
    exact congrArg (fun f => b.all.filterMap f) hline
  rw [Multiset.coe_eq_coe.mpr (List.perm_insertionSort _ _), hpushed, Body.read, Multiset.map_coe]

theorem canonicalLines_eq_iff :
    canonicalLines b.text k.properties = canonicalLines b'.text k.properties ↔
      b.read k = b'.read k ∨ RunTogether k (b.read k) (b'.read k) := by
  obtain ⟨texts, h, hb⟩ := canonicalLines_text k b
  obtain ⟨texts', h', hb'⟩ := canonicalLines_text k b'
  rw [hb, hb', intercalate_inOrder h read_readable h' read_readable]

/-- A value with its line feeds and backslashes escaped. -/
def escapeText (value : List Char) : List Char :=
  value.flatMap fun c => if c = '\n' then ['\\', 'n'] else if c = '\\' then ['\\', '\\'] else [c]

theorem unescapeText_escapeText (value : List Char) : unescapeText (escapeText value) = value := by
  induction value with
  | nil => rfl
  | cons c value ih =>
    rw [escapeText, List.flatMap_cons, ← escapeText]
    split
    · rename_i hc
      rw [hc]
      exact congrArg _ ih
    · split
      · rename_i hc
        rw [hc, List.cons_append, List.singleton_append, unescapeText_escaped (.inr (.inr rfl)), ih]
      · rename_i hc
        rw [List.singleton_append, unescapeText_plain hc, ih]

theorem escapeText_line {value : List Char} (h : ∀ c ∈ value, c = '\n' ∨ isTerminator c = false) :
    ∀ c ∈ escapeText value, isTerminator c = false := by
  intro c hc
  obtain ⟨d, hd, hmem⟩ := List.mem_flatMap.mp hc
  split at hmem
  · simp only [List.mem_cons, List.not_mem_nil, or_false] at hmem
    obtain rfl | rfl := hmem
    · rfl
    · rfl
  · rename_i hlf
    split at hmem
    · simp only [List.mem_cons, List.not_mem_nil, or_false, or_self] at hmem
      obtain rfl := hmem
      rfl
    · obtain rfl := List.mem_singleton.mp hmem
      exact (h c hd).resolve_left hlf

theorem exists_line {e : Entry} (h : Readable k e) :
    ∃ l : FoldedLine, l.line.carried k = some e ∧ l.line.read k = some e := by
  let line : ContentLine :=
    { group := none
      name := ⟨e.1, property_ne_nil h.name, fun c hc => (property_chars h.name c hc).1⟩
      params := []
      value := escapeText e.2
      value_line := escapeText_line h.chars }
  have hupper : upper e.1 = e.1 := by
    have hid : ∀ c ∈ e.1, c.toUpper = id c := fun c hc => (property_chars h.name c hc).2
    rw [upper, List.map_congr_left hid, List.map_id]
  have hentry : entry k e.1 (escapeText e.2) = some e := by
    rw [entry, unescapeText_escapeText, h.trimmed, hupper, if_pos ⟨List.contains_iff_mem.mpr h.name, h.ne_nil⟩]
  have hread : line.read k = some e := by
    rw [ContentLine.read, behindColon_bare rfl]
    exact hentry
  have hplain : Folding.plain (line.text.map fun c => (none, c)) = line.text := by
    simp [Folding.plain, Function.comp_def]
  refine ⟨⟨line, line.text.map fun c => (none, c), hplain, ?_, .lf⟩, hentry, hread⟩
  intro f hf
  obtain ⟨c, -, rfl⟩ := List.mem_map.mp (List.mem_of_mem_head? hf)
  rfl

theorem exists_body {m : Multiset Entry} (h : ∀ e ∈ m, Readable k e) :
    ∃ b : Body, b.carried k = m ∧ b.read k = m := by
  have hlines : ∀ es : List Entry, (∀ e ∈ es, Readable k e) → ∃ ls : List FoldedLine,
      ls.filterMap (fun l => l.line.carried k) = es ∧ ls.filterMap (fun l => l.line.read k) = es := by
    intro es hes
    induction es with
    | nil => exact ⟨[], rfl, rfl⟩
    | cons e es ih =>
      rw [List.forall_mem_cons] at hes
      obtain ⟨ls, hcarried, hread⟩ := ih hes.2
      obtain ⟨l, hl, hl'⟩ := exists_line hes.1
      refine ⟨l :: ls, ?_, ?_⟩
      · rw [List.filterMap_cons, hl, hcarried]
      · rw [List.filterMap_cons, hl', hread]
  induction m using Quotient.inductionOn with
  | h es =>
    obtain ⟨ls, hcarried, hread⟩ := hlines es h
    refine ⟨⟨ls, none⟩, ?_, ?_⟩
    · rw [Body.carried, Body.all, Option.toList_none, List.append_nil, hcarried]
      rfl
    · rw [Body.read, Body.all, Option.toList_none, List.append_nil, hread]
      rfl

end Bodies

section Exact

variable {k : DavKind} {b b' : Body}

def DavKind.fingerprint (digest : List Char → List Char) : DavKind → List Char → List Char
  | calendar => calendarFingerprint digest
  | contact => contactFingerprint digest

/-- Canonical lines, and fingerprints where no two texts have one digest, tell the contents apart and nothing else. -/
def Exact (k : DavKind) (b b' : Body) : Prop :=
  (canonicalLines b.text k.properties = canonicalLines b'.text k.properties ↔ b.carried k = b'.carried k) ∧
    ∀ digest, Function.Injective digest →
      (k.fingerprint digest b.text = k.fingerprint digest b'.text ↔ b.carried k = b'.carried k)

theorem fingerprint_eq_iff {digest : List Char → List Char} (hdigest : Function.Injective digest) {s s' : List Char} :
    k.fingerprint digest s = k.fingerprint digest s' ↔
      canonicalLines s k.properties = canonicalLines s' k.properties := by
  cases k with
  | calendar =>
    rw [DavKind.fingerprint, calendarFingerprint, calendarFingerprint, List.append_cancel_left_eq, List.cons_inj_right,
      hdigest.eq_iff]
    rfl
  | contact =>
    rw [DavKind.fingerprint, contactFingerprint, contactFingerprint, List.append_cancel_left_eq, List.cons_inj_right,
      hdigest.eq_iff]
    rfl

theorem exact_iff :
    Exact k b b' ↔
      (canonicalLines b.text k.properties = canonicalLines b'.text k.properties ↔ b.carried k = b'.carried k) := by
  constructor
  · exact And.left
  · intro h
    refine ⟨h, fun digest hdigest => ?_⟩
    rw [fingerprint_eq_iff hdigest, h]

theorem exact_of_read (h : b.read k = b.carried k) (h' : b'.read k = b'.carried k) :
    Exact k b b' ↔ ¬ RunTogether k (b.read k) (b'.read k) := by
  rw [exact_iff, canonicalLines_eq_iff, ← h, ← h']
  constructor
  · rintro hexact hrun
    exact hrun.1 (hexact.mp (.inr hrun))
  · intro hrun
    exact or_iff_left hrun

/-- The content of a body is read from it as it is exactly if, with every body of which that holds, the fingerprints
tell the contents apart unless their lines run together. -/
theorem fingerprint_exact_iff (k : DavKind) (b : Body) :
    b.read k = b.carried k ↔
      ∀ b', b'.read k = b'.carried k → (Exact k b b' ↔ ¬ RunTogether k (b.read k) (b'.read k)) := by
  constructor
  · exact fun h b' h' => exact_of_read h h'
  · intro h
    obtain ⟨b', hcarried, hread⟩ := exists_body (k := k) (m := b.read k) read_readable
    have hexact : Exact k b b' := by
      rw [h b' (hread.trans hcarried.symm), hread]
      exact fun hrun => hrun.1 rfl
    rw [exact_iff, canonicalLines_eq_iff, hread, hcarried] at hexact
    exact (hexact.mp (.inl rfl)).symm

/-- No compared line with a value has a group, none has a colon among its parameters, and no value goes on behind a line
feed as a compared line does. -/
structure Body.Plain (k : DavKind) (b : Body) : Prop where
  group : ∀ l ∈ b.all, l.line.carried k ≠ none → l.line.group = none
  colon : ∀ l ∈ b.all, upper l.line.name.chars ∈ k.properties → l.line.group = none → ':' ∉ l.line.paramChars
  values : ∀ e ∈ b.carried k, ∀ before rest, e.2 = before ++ '\n' :: rest → startsEntry k rest = false

theorem Body.Plain.read (h : b.Plain k) : b.read k = b.carried k := by
  have hline : ∀ l ∈ b.all, l.line.read k = l.line.carried k := by
    intro l hl
    rw [ContentLine.read]
    by_cases hgroup : l.line.group = none
    · rw [hgroup, Option.isNone_none, if_pos rfl, ContentLine.carried]
      by_cases hname : upper l.line.name.chars ∈ k.properties
      · rw [behindColon_value (h.colon l hl hname hgroup)]
      · have hno : ¬ k.properties.contains (upper l.line.name.chars) = true := by
          rwa [List.contains_iff_mem]
        rw [entry, entry, if_neg fun he => hno he.1, if_neg fun he => hno he.1]
    · have hnone : l.line.carried k = none := by
        by_contra hcarried
        exact hgroup (h.group l hl hcarried)
      rw [hnone, if_neg]
      rwa [Option.isNone_iff_eq_none]
  rw [Body.read, Body.carried, List.filterMap_congr hline]

theorem Body.Plain.cut_text (h : b.Plain k) {e : Entry} (he : e ∈ b.carried k) (hname : e.1 ∈ k.properties) :
    cut '\n' (startsEntry k) (entryText e) = [entryText e] := by
  apply cut_whole
  intro before rest hsplit
  -- the line feed stands in the value: no name holds one
  rw [entryText, List.append_eq_append_iff] at hsplit
  obtain ⟨middle, -, hmiddle⟩ | ⟨middle, hbefore, hmiddle⟩ := hsplit
  · cases middle with
    | nil =>
      have hchar := (List.cons.inj hmiddle).1
      cases hchar
    | cons c middle => exact h.values e he middle rest (List.cons.inj hmiddle).2
  · cases middle with
    | nil =>
      have hchar := (List.cons.inj hmiddle).1
      cases hchar
    | cons c middle =>
      have hlf : '\n' ∈ e.1 := by
        rw [hbefore, (List.cons.inj hmiddle).1]
        exact List.mem_append_right _ List.mem_cons_self
      have hchar := (property_chars hname _ hlf).1
      cases hchar

theorem plain_exact (h : b.Plain k) (h' : b'.Plain k) : Exact k b b' := by
  rw [exact_of_read h.read h'.read]
  rintro ⟨hne, texts, texts', htexts, htexts', hcut⟩
  have hwhole : ∀ {b : Body} {texts : List (List Char)}, b.Plain k → InOrder texts (b.read k) →
      texts.flatMap (cut '\n' (startsEntry k)) = texts := by
    intro b texts hb htexts
    apply flatMap_cut_whole
    intro text htext
    rw [← Multiset.mem_coe, htexts.lines, Multiset.mem_map] at htext
    obtain ⟨e, he, rfl⟩ := htext
    exact hb.cut_text (hb.read ▸ he) (read_readable e he).name
  rw [hwhole h htexts, hwhole h' htexts'] at hcut
  rw [← hcut] at htexts'
  exact hne (htexts.content read_readable htexts' read_readable)

end Exact

namespace Sample

def unfolded (line : ContentLine) : FoldedLine where
  line := line
  folding := line.text.map fun c => (none, c)
  plain := by simp [Folding.plain, Function.comp_def]
  begins := by
    intro e he
    obtain ⟨c, -, rfl⟩ := List.mem_map.mp (List.mem_of_mem_head? he)
    rfl
  lineEnd := .crlf

def summaryName : Name := ⟨['S', 'U', 'M', 'M', 'A', 'R', 'Y'], by simp, List.all_eq_true.mp (by decide)⟩

def emailName : Name := ⟨['E', 'M', 'A', 'I', 'L'], by simp, List.all_eq_true.mp (by decide)⟩

def itemName : Name := ⟨['i', 't', 'e', 'm', '1'], by simp, List.all_eq_true.mp (by decide)⟩

def altrepParam : Param :=
  ⟨⟨['A', 'L', 'T', 'R', 'E', 'P'], by simp, List.all_eq_true.mp (by decide)⟩,
    [.quoted ['a', ':', 'b'] (by simp [isTerminator])]⟩

/-- `SUMMARY:c` with the parameters given -/
def summary (params : List Param) : Body :=
  ⟨[unfolded ⟨none, summaryName, params, ['c'], by simp [isTerminator]⟩], none⟩

/-- `item1.EMAIL:e` -/
def email : Body := ⟨[unfolded ⟨some itemName, emailName, [], ['e'], by simp [isTerminator]⟩], none⟩

end Sample

/-- A parameter changes what is read of a summary, and an address behind a group is not read at all. -/
theorem fingerprint_inexact :
    ((Sample.summary [Sample.altrepParam]).carried .calendar = (Sample.summary []).carried .calendar ∧
      canonicalLines (Sample.summary [Sample.altrepParam]).text calendarProperties ≠
        canonicalLines (Sample.summary []).text calendarProperties) ∧
    Sample.email.carried .contact ≠ Body.carried .contact ⟨[], none⟩ ∧
      canonicalLines Sample.email.text contactProperties =
        canonicalLines (Body.text ⟨[], none⟩) contactProperties := by
  decide

end OpenMigrate.Dav
