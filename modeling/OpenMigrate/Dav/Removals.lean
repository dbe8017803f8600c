import OpenMigrate.Dav.MultiStatus

namespace OpenMigrate.Dav.Removals

section Source

/-- `\w` -/
def isWord (c : Char) : Bool := c.isAlphanum || c == '_'

/-- `[A-Za-z][\w-]*` -/
def readable : Option (List Char) → Bool
  | some (c :: rest) => c.isAlpha && rest.all fun c => isWord c || c == '-'
  | _ => false

/-- `<[A-Za-z][\w-]*:name[^>]*>`, by the letters of the tag. -/
def opens (name : List Char) : XmlToken → Bool
  | .opening ns tag attrs => readable ns && name.isPrefixOf (lower (tag.toList ++ attrs))
  | _ => false

/-- `<[A-Za-z][\w-]*:name>` -/
def opensBare (name : List Char) : XmlToken → Bool
  | .opening ns tag attrs => readable ns && lower (tag.toList ++ attrs) == name
  | _ => false

/-- `<\/[A-Za-z][\w-]*:name>` -/
def closes (name : List Char) : XmlToken → Bool
  | .closing ns tag => readable ns && lower tag.toList == name
  | _ => false

/-- The matches of an opening tag, anything, and the first closing tag behind it; `seen` is what stands behind a tag
that is open. -/
def between (name : List Char) : Option (List XmlToken) → List XmlToken → List (List XmlToken)
  | _, [] => []
  | none, t :: rest => between name (if opens name t then some [] else none) rest
  | some seen, t :: rest =>
    if closes name t then seen :: between name none rest else between name (some (seen ++ [t])) rest

/-- `replace(…, '')` of the same matches; `kept` is a tag that is open and what stands behind it. -/
def strip (name : List Char) : Option (List XmlToken) → List XmlToken → List XmlToken
  | kept, [] => kept.getD []
  | none, t :: rest => if opens name t then strip name (some [t]) rest else t :: strip name none rest
  | some kept, t :: rest => if closes name t then strip name none rest else strip name (some (kept ++ [t])) rest

def isText : XmlToken → Bool
  | .text _ => true
  | _ => false

/-- The text between a tag of the one kind and, right behind it, one of the other: of the first such match. -/
def firstText (opens closes : XmlToken → Bool) (some_ : List Char → Bool) : List XmlToken → Option (List Char)
  | [] => none
  | t :: rest =>
    if opens t && (rest.dropWhile isText).head?.any closes && some_ (xmlChars (rest.takeWhile isText)) then
      some (xmlChars (rest.takeWhile isText))
    else firstText opens closes some_ rest

/-- `/\b404\b/`, behind a character. -/
def says404 (before : Option Char) : List Char → Bool
  | [] => false
  | c :: rest =>
    !before.any isWord && ['4', '0', '4'].isPrefixOf (c :: rest) && !((rest.drop 2).head?.any isWord) ||
      says404 (some c) rest

/-- One response of the report. -/
def removedHref (responseXml : List XmlToken) : Option (List Char) :=
  if responseXml = [] then none
  else
    let responseLevel := strip "propstat".toList none responseXml
    match firstText (opens "status".toList) (closes "status".toList) (fun _ => true) responseLevel with
    | none => none
    | some status =>
      if status ≠ [] ∧ says404 none status = true then
        ((firstText (opensBare "href".toList) (closes "href".toList) (· ≠ []) responseXml).map trim).filter (· ≠ [])
      else none

def parseRemovedHrefs (body : List XmlToken) : List (List Char) :=
  (between "response".toList none body).filterMap removedHref

end Source

section Document

/-- An element of the report: its tags are written with the prefix of the document. -/
def element (ns : Option (List Char)) (name : String) (attrs : List Char) (inside : List XmlToken) : List XmlToken :=
  .opening ns name attrs :: (inside ++ [.closing ns name])

/-- A version, a code of three digits, a reason. -/
structure StatusLine where
  major : Char
  minor : Char
  code : List Char
  reason : List Char
  digits : major.isDigit = true ∧ minor.isDigit = true
  three : code.length = 3

def StatusLine.chars (line : StatusLine) : List Char :=
  'H' :: 'T' :: 'T' :: 'P' :: '/' :: line.major :: '.' :: line.minor :: ' ' :: (line.code ++ ' ' :: line.reason)

/-- The letters of a tag behind its prefix. -/
def tag : XmlToken → List Char
  | .opening _ name attrs => lower (name.toList ++ attrs)
  | .closing _ name => lower name.toList
  | .text _ => []

/-- What stands in a property: no tag whose name begins like one of the report's own. -/
def Property (t : XmlToken) : Prop := ¬ "response".toList <+: tag t ∧ ¬ "propstat".toList <+: tag t

/-- What a response is made of. -/
inductive Part where
  | href (attrs text : List Char) (filled : trim text ≠ [])
  | status (attrs : List Char) (line : StatusLine)
  | propstat (attrs : List Char) (inside : List XmlToken) (properties : ∀ t ∈ inside, Property t)
  | description (attrs text : List Char)
  | space (text : List Char)

def Part.tokens (ns : Option (List Char)) : Part → List XmlToken
  | href attrs text _ => element ns "href" attrs [.text text]
  | status attrs line => element ns "status" attrs [.text line.chars]
  | propstat attrs inside _ => element ns "propstat" attrs inside
  | description attrs text => element ns "responsedescription" attrs [.text text]
  | space text => [.text text]

/-- The hrefs, with the attributes of their tags. -/
def Part.href? : Part → Option (List Char × List Char)
  | href attrs text _ => some (attrs, text)
  | _ => none

def Part.line? : Part → Option StatusLine
  | status _ line => some line
  | _ => none

def Part.isPropstat : Part → Bool
  | propstat .. => true
  | _ => false

/-- A response has hrefs, and a status of its own or those of its properties. -/
structure Member where
  space : List Char
  attrs : List Char
  parts : List Part
  hrefs_ne_nil : parts.filterMap Part.href? ≠ []
  one_status : (parts.filterMap Part.line?).length ≤ 1
  no_propstat : parts.filterMap Part.line? ≠ [] → ∀ p ∈ parts, p.isPropstat = false

def Member.hrefs (m : Member) : List (List Char) := (m.parts.filterMap Part.href?).map fun e => trim e.2

def Member.line (m : Member) : Option StatusLine := (m.parts.filterMap Part.line?).head?

def Member.content (m : Member) (ns : Option (List Char)) : List XmlToken := m.parts.flatMap (Part.tokens ns)

/-- The status of the response itself is 404. -/
def Member.removed (m : Member) : Bool := m.line.any fun line => line.code == ['4', '0', '4']

/-- A `sync-collection` report: no href stands in it twice. -/
structure Report where
  prolog : List Char
  ns : Option (List Char)
  attrs : List Char
  members : List Member
  syncToken : List Char
  distinct : (members.flatMap Member.hrefs).Nodup

def Report.tokens (r : Report) : List XmlToken :=
  .text r.prolog :: element r.ns "multistatus" r.attrs
    (r.members.flatMap (fun m => .text m.space :: element r.ns "response" m.attrs (m.content r.ns)) ++
      element r.ns "sync-token" [] [.text r.syncToken])

/-- The hrefs of the members that are gone. -/
def Report.removedHrefs (r : Report) : List (List Char) := (r.members.filter Member.removed).flatMap Member.hrefs

end Document

section Tokens

variable {name : List Char} {o c t : XmlToken} {ts inside seen rest : List XmlToken}

theorem opens_tag (h : opens name t = true) : name <+: tag t := by
  cases t with
  | opening ns n attrs =>
    rw [opens, Bool.and_eq_true] at h
    exact List.isPrefixOf_iff_prefix.mp h.2
  | closing ns n => cases h
  | text chars => cases h

theorem closes_tag (h : closes name t = true) : tag t = name := by
  cases t with
  | opening ns n attrs => cases h
  | closing ns n =>
    rw [closes, Bool.and_eq_true] at h
    exact eq_of_beq h.2
  | text chars => cases h

theorem not_opens (h : ¬ name <+: tag t) : opens name t = false := by
  rw [Bool.eq_false_iff]
  exact fun hopens => h (opens_tag hopens)

theorem not_closes (h : tag t ≠ name) : closes name t = false := by
  rw [Bool.eq_false_iff]
  exact fun hcloses => h (closes_tag hcloses)

theorem between_skip (h : ∀ t ∈ ts, opens name t = false) (rest : List XmlToken) :
    between name none (ts ++ rest) = between name none rest := by
  induction ts with
  | nil => rfl
  | cons t ts ih =>
    rw [List.cons_append, between, h t List.mem_cons_self]
    exact ih fun t' ht' => h t' (List.mem_cons_of_mem t ht')

theorem between_seen (h : ∀ t ∈ inside, closes name t = false) (hc : closes name c = true) (rest : List XmlToken) :
    between name (some seen) (inside ++ c :: rest) = (seen ++ inside) :: between name none rest := by
  induction inside generalizing seen with
  | nil => rw [List.nil_append, between, if_pos hc, List.append_nil]
  | cons t inside ih =>
    have ht : ¬ closes name t = true := by
      rw [h t List.mem_cons_self]
      exact Bool.false_ne_true
    rw [List.cons_append, between, if_neg ht, ih fun t' ht' => h t' (List.mem_cons_of_mem t ht'), List.append_assoc]
    rfl

theorem between_element (ho : opens name o = true) (h : ∀ t ∈ inside, closes name t = false)
    (hc : closes name c = true) (rest : List XmlToken) :
    between name none (o :: (inside ++ [c]) ++ rest) = inside :: between name none rest := by
  rw [List.cons_append, between, if_pos ho, List.append_assoc, List.singleton_append, between_seen h hc]
  rfl

theorem strip_skip (h : ∀ t ∈ ts, opens name t = false) (rest : List XmlToken) :
    strip name none (ts ++ rest) = ts ++ strip name none rest := by
  induction ts with
  | nil => rfl
  | cons t ts ih =>
    have ht : ¬ opens name t = true := by
      rw [h t List.mem_cons_self]
      exact Bool.false_ne_true
    rw [List.cons_append, strip, if_neg ht, ih fun t' ht' => h t' (List.mem_cons_of_mem t ht')]
    rfl

theorem strip_seen (h : ∀ t ∈ inside, closes name t = false) (hc : closes name c = true) (rest : List XmlToken) :
    strip name (some seen) (inside ++ c :: rest) = strip name none rest := by
  induction inside generalizing seen with
  | nil => rw [List.nil_append, strip, if_pos hc]
  | cons t inside ih =>
    have ht : ¬ closes name t = true := by
      rw [h t List.mem_cons_self]
      exact Bool.false_ne_true
    rw [List.cons_append, strip, if_neg ht, ih fun t' ht' => h t' (List.mem_cons_of_mem t ht')]

theorem strip_element (ho : opens name o = true) (h : ∀ t ∈ inside, closes name t = false)
    (hc : closes name c = true) (rest : List XmlToken) :
    strip name none (o :: (inside ++ [c]) ++ rest) = strip name none rest := by
  rw [List.cons_append, strip, if_pos ho, List.append_assoc, List.singleton_append, strip_seen h hc]

variable {opening closing : XmlToken → Bool} {ok : List Char → Bool} {text : List Char}

theorem firstText_skip (h : ∀ t ∈ ts, opening t = false) (rest : List XmlToken) :
    firstText opening closing ok (ts ++ rest) = firstText opening closing ok rest := by
  induction ts with
  | nil => rfl
  | cons t ts ih =>
    rw [List.cons_append, firstText, h t List.mem_cons_self]
    exact ih fun t' ht' => h t' (List.mem_cons_of_mem t ht')

theorem firstText_element (ho : opening o = true) (hc : closing c = true) (hnot : isText c = false) (hok : ok text = true)
    (rest : List XmlToken) : firstText opening closing ok (o :: ([.text text] ++ [c]) ++ rest) = some text := by
  have hc' : ¬ isText c = true := by
    rw [hnot]
    exact Bool.false_ne_true
  have htake : (([XmlToken.text text] ++ [c]) ++ rest).takeWhile isText = [XmlToken.text text] := by
    rw [List.singleton_append, List.cons_append, List.takeWhile_cons_of_pos rfl, List.singleton_append,
      List.takeWhile_cons_of_neg hc']
  have hdrop : (([XmlToken.text text] ++ [c]) ++ rest).dropWhile isText = c :: rest := by
    rw [List.singleton_append, List.cons_append, List.dropWhile_cons_of_pos rfl, List.singleton_append,
      List.dropWhile_cons_of_neg hc']
  have hchars : xmlChars [.text text] = text := List.append_nil _
  rw [List.cons_append, firstText, htake, hdrop, hchars, if_pos]
  simp [ho, hc, hok]

end Tokens

section Members

variable {ns : Option (List Char)} {parts : List Part} {m : Member}

theorem opens_own (h : readable ns = true) (name : String) (attrs : List Char) (hname : lower name.toList = name.toList) :
    opens name.toList (.opening ns name attrs) = true := by
  rw [opens, h, Bool.true_and, List.isPrefixOf_iff_prefix, lower, List.map_append, ← lower, hname]
  exact List.prefix_append _ _

theorem closes_own (h : readable ns = true) (name : String) (hname : lower name.toList = name.toList) :
    closes name.toList (.closing ns name) = true := by
  rw [closes, h, Bool.true_and, hname]
  exact beq_self_eq_true _

theorem mem_textElement {name : String} {attrs text : List Char} {t : XmlToken}
    (h : t ∈ element ns name attrs [.text text]) :
    t = .opening ns name attrs ∨ t = .text text ∨ t = .closing ns name := by
  simpa [element] using h

theorem part_not_closes (p : Part) : ∀ t ∈ p.tokens ns, closes "response".toList t = false := by
  intro t ht
  apply not_closes
  intro htag
  cases p with
  | href attrs text filled =>
    obtain rfl | rfl | rfl := mem_textElement ht <;> simp [tag, lower] at htag
  | status attrs line =>
    obtain rfl | rfl | rfl := mem_textElement ht <;> simp [tag, lower] at htag
  | propstat attrs inside properties =>
    rw [Part.tokens, element, List.mem_cons, List.mem_append, List.mem_singleton] at ht
    obtain rfl | hin | rfl := ht
    · simp [tag, lower] at htag
    · apply (properties t hin).1
      rw [htag]
    · simp [tag, lower] at htag
  | description attrs text =>
    obtain rfl | rfl | rfl := mem_textElement ht <;> simp [tag, lower] at htag
  | space text =>
    rw [List.mem_singleton.mp ht] at htag
    cases htag

theorem not_propstat (p : Part) (h : p.isPropstat = false) : ∀ t ∈ p.tokens ns, opens "propstat".toList t = false := by
  intro t ht
  apply not_opens
  intro htag
  cases p with
  | href attrs text filled =>
    obtain rfl | rfl | rfl := mem_textElement ht <;> simp [tag, lower] at htag
  | status attrs line =>
    obtain rfl | rfl | rfl := mem_textElement ht <;> simp [tag, lower] at htag
  | propstat attrs inside properties => cases h
  | description attrs text =>
    obtain rfl | rfl | rfl := mem_textElement ht <;> simp [tag, lower] at htag
  | space text =>
    rw [List.mem_singleton.mp ht] at htag
    simp [tag] at htag

theorem strip_parts (h : readable ns = true) (parts : List Part) :
    strip "propstat".toList none (parts.flatMap (Part.tokens ns)) =
      (parts.filter fun p => !p.isPropstat).flatMap (Part.tokens ns) := by
  induction parts with
  | nil => rfl
  | cons p parts ih =>
    rw [List.flatMap_cons]
    by_cases hp : p.isPropstat = false
    · rw [strip_skip (not_propstat p hp), ih, List.filter_cons_of_pos (by rw [hp]; rfl), List.flatMap_cons]
    · cases p with
      | propstat attrs inside properties =>
        have hinside : ∀ t ∈ inside, closes "propstat".toList t = false := by
          intro t ht
          apply not_closes
          intro htag
          apply (properties t ht).2
          rw [htag]
        rw [Part.tokens, element,
          strip_element (opens_own h "propstat" attrs rfl) hinside (closes_own h "propstat" rfl), ih]
        rfl
      | _ => exact absurd rfl hp

theorem firstText_status (h : readable ns = true) (hparts : ∀ p ∈ parts, p.isPropstat = false) :
    firstText (opens "status".toList) (closes "status".toList) (fun _ => true) (parts.flatMap (Part.tokens ns)) =
      (parts.filterMap Part.line?).head?.map StatusLine.chars := by
  induction parts with
  | nil => rfl
  | cons p parts ih =>
    have hmore := ih fun p' hp' => hparts p' (List.mem_cons_of_mem p hp')
    have hskip (hname : ∀ t ∈ p.tokens ns, opens "status".toList t = false) (hline : p.line? = none) :
        firstText (opens "status".toList) (closes "status".toList) (fun _ => true)
          ((p :: parts).flatMap (Part.tokens ns)) = ((p :: parts).filterMap Part.line?).head?.map StatusLine.chars := by
      rw [List.flatMap_cons, firstText_skip hname, hmore, List.filterMap_cons, hline]
    cases p with
    | href attrs text filled =>
      apply hskip _ rfl
      intro t ht
      apply not_opens
      obtain rfl | rfl | rfl := mem_textElement ht <;> simp [tag, lower]
    | status attrs line =>
      rw [List.flatMap_cons, Part.tokens, element, firstText_element (opens_own h "status" attrs rfl)
        (closes_own h "status" rfl) rfl rfl]
      rfl
    | propstat attrs inside properties => cases hparts _ List.mem_cons_self
    | description attrs text =>
      apply hskip _ rfl
      intro t ht
      apply not_opens
      obtain rfl | rfl | rfl := mem_textElement ht <;> simp [tag, lower]
    | space text =>
      apply hskip _ rfl
      intro t ht
      rw [List.mem_singleton.mp ht]
      rfl

/-- The first href whose tag is bare. -/
def bareHref (parts : List Part) : Option (List Char) :=
  ((parts.filterMap Part.href?).find? fun e => e.1 = []).map (·.2)

theorem opensBare_href (h : readable ns = true) (attrs : List Char) :
    opensBare "href".toList (.opening ns "href" attrs) = decide (attrs = []) := by
  rw [opensBare, h, Bool.true_and]
  cases attrs with
  | nil => rfl
  | cons c attrs => simp [lower]

theorem not_bare {t : XmlToken} (h : tag t ≠ "href".toList) : opensBare "href".toList t = false := by
  cases t with
  | opening ns name attrs =>
    rw [opensBare, Bool.and_eq_false_iff]
    exact .inr (beq_eq_false_iff_ne.mpr h)
  | closing ns name => rfl
  | text chars => rfl

theorem firstText_href (h : readable ns = true) (hparts : ∀ p ∈ parts, p.isPropstat = false) :
    firstText (opensBare "href".toList) (closes "href".toList) (· ≠ []) (parts.flatMap (Part.tokens ns)) =
      bareHref parts := by
  induction parts with
  | nil => rfl
  | cons p parts ih =>
    have hmore := ih fun p' hp' => hparts p' (List.mem_cons_of_mem p hp')
    have hskip (hname : ∀ t ∈ p.tokens ns, opensBare "href".toList t = false) (hbare : bareHref (p :: parts) = bareHref parts) :
        firstText (opensBare "href".toList) (closes "href".toList) (· ≠ []) ((p :: parts).flatMap (Part.tokens ns)) =
          bareHref (p :: parts) := by
      rw [List.flatMap_cons, firstText_skip hname, hmore, hbare]
    cases p with
    | href attrs text filled =>
      by_cases hattrs : attrs = []
      · have hbare : opensBare "href".toList (.opening ns "href" attrs) = true := by
          rw [opensBare_href h]
          exact decide_eq_true hattrs
        have htext : decide (text ≠ []) = true := by
          rw [decide_eq_true_eq]
          rintro rfl
          exact filled rfl
        rw [List.flatMap_cons, Part.tokens, element,
          firstText_element hbare (closes_own h "href" rfl) rfl htext]
        simp [bareHref, Part.href?, hattrs]
      · apply hskip
        · intro t ht
          obtain rfl | rfl | rfl := mem_textElement ht
          · rw [opensBare_href h]
            exact decide_eq_false hattrs
          · rfl
          · rfl
        · simp [bareHref, Part.href?, hattrs]
    | status attrs line =>
      apply hskip _ rfl
      intro t ht
      apply not_bare
      obtain rfl | rfl | rfl := mem_textElement ht <;> simp [tag, lower]
    | propstat attrs inside properties => cases hparts _ List.mem_cons_self
    | description attrs text =>
      apply hskip _ rfl
      intro t ht
      apply not_bare
      obtain rfl | rfl | rfl := mem_textElement ht <;> simp [tag, lower]
    | space text =>
      apply hskip _ rfl
      intro t ht
      rw [List.mem_singleton.mp ht]
      rfl

theorem bareHref_filled {text : List Char} (h : bareHref parts = some text) : trim text ≠ [] := by
  obtain ⟨e, he, rfl⟩ := Option.map_eq_some_iff.mp h
  obtain ⟨p, -, hp⟩ := List.mem_filterMap.mp (List.mem_of_find?_eq_some he)
  cases p with
  | href attrs text filled =>
    cases hp
    exact filled
  | status attrs line => cases hp
  | propstat attrs inside properties => cases hp
  | description attrs text => cases hp
  | space text => cases hp

theorem content_ne_nil (m : Member) (ns : Option (List Char)) : m.content ns ≠ [] := by
  intro hnil
  apply m.hrefs_ne_nil
  rw [List.filterMap_eq_nil_iff]
  intro p hp
  have htokens := List.flatMap_eq_nil_iff.mp hnil p hp
  cases p with
  | href attrs text filled => cases htokens
  | status attrs line => rfl
  | propstat attrs inside properties => rfl
  | description attrs text => rfl
  | space text => rfl

theorem removedHref_content (h : readable ns = true) (m : Member) :
    removedHref (m.content ns) =
      m.line.bind fun line => if says404 none line.chars = true then (bareHref m.parts).map trim else none := by
  rw [removedHref, if_neg (content_ne_nil m ns), Member.content, strip_parts h]
  cases hline : m.line with
  | none =>
    have hnone : (m.parts.filter fun p => !p.isPropstat).filterMap Part.line? = [] := by
      rw [Member.line, List.head?_eq_none_iff] at hline
      rw [List.filterMap_eq_nil_iff] at hline ⊢
      intro p hp
      exact hline p (List.mem_of_mem_filter hp)
    dsimp only
    rw [firstText_status h (by simp), hnone]
    rfl
  | some line =>
    have hlines : m.parts.filterMap Part.line? ≠ [] := by
      intro hnil
      rw [Member.line, hnil] at hline
      cases hline
    have hparts := m.no_propstat hlines
    have hkeep : (m.parts.filter fun p => !p.isPropstat) = m.parts := by
      rw [List.filter_eq_self]
      intro p hp
      rw [hparts p hp]
      rfl
    dsimp only
    rw [hkeep, firstText_status h hparts, firstText_href h hparts, ← Member.line, hline]
    have hfilled : ((bareHref m.parts).map trim).filter (· ≠ []) = (bareHref m.parts).map trim := by
      cases hbare : bareHref m.parts with
      | none => rfl
      | some text => simp [bareHref_filled hbare]
    have hchars : line.chars ≠ [] := List.cons_ne_nil _ _
    rw [hfilled]
    simp [hchars]

end Members

section Codes

variable {before : Option Char}

theorem says404_blank (before : Option Char) (s t : List Char) :
    says404 before (s ++ ' ' :: t) = (says404 before s || says404 (some ' ') t) := by
  have hblank : isWord ' ' = false := by decide
  induction s generalizing before with
  | nil => simp [says404]
  | cons c s ih =>
    rw [List.cons_append, says404, says404, ih, ← Bool.or_assoc]
    congr 2
    -- the word is three letters long, so it ends before the blank or begins behind it
    match s with
    | [] => simp [List.isPrefixOf]
    | [d] => simp [List.isPrefixOf]
    | [d, e] => simp [List.isPrefixOf, hblank]
    | d :: e :: f :: s => simp [List.isPrefixOf]

theorem says404_code {code : List Char} (h : code.length = 3) : says404 (some ' ') code = (code == ['4', '0', '4']) := by
  have hblank : isWord ' ' = false := by decide
  match code, h with
  | [a, b, c], _ =>
    rw [Bool.eq_iff_iff]
    simp only [says404, hblank, List.isPrefixOf, Option.any_some, Bool.not_false, Bool.true_and, Bool.and_true,
      Bool.and_false, Bool.false_and, Bool.or_false, List.drop_succ_cons, List.drop_zero, List.head?_nil, Option.any_none,
      Bool.and_eq_true, beq_iff_eq, List.cons.injEq, and_true]
    constructor
    · rintro ⟨rfl, rfl, rfl⟩
      exact ⟨rfl, rfl, rfl⟩
    · rintro ⟨rfl, rfl, rfl⟩
      exact ⟨rfl, rfl, rfl⟩

theorem says404_line (line : StatusLine) :
    says404 none line.chars = (line.code == ['4', '0', '4'] || says404 (some ' ') line.reason) := by
  have hsplit : line.chars =
      ['H', 'T', 'T', 'P', '/', line.major, '.', line.minor] ++ ' ' :: (line.code ++ ' ' :: line.reason) := rfl
  have hversion : says404 none ['H', 'T', 'T', 'P', '/', line.major, '.', line.minor] = false := by
    simp [says404, List.isPrefixOf]
  rw [hsplit, says404_blank, says404_blank, hversion, says404_code line.three, Bool.false_or]

end Codes

section Exact

variable {r : Report}

/-- The href of a response that is reported. -/
def Member.reported (m : Member) : List (List Char) :=
  (m.line.bind fun line => if says404 none line.chars = true then (bareHref m.parts).map trim else none).toList

/-- A response that is gone has one href, in a bare tag; of another the reason says no 404, or no tag of an href is bare. -/
def Member.Plain (m : Member) : Prop :=
  if m.removed = true then ∃ text, m.parts.filterMap Part.href? = [([], text)]
  else (∀ line ∈ m.line, says404 (some ' ') line.reason = false) ∨ bareHref m.parts = none

theorem not_response {name : String} (h : ¬ "response".toList <+: lower name.toList) (ns : Option (List Char)) :
    opens "response".toList (.opening ns name []) = false := by
  apply not_opens
  rw [tag, List.append_nil]
  exact h

theorem between_members (h : readable r.ns = true) :
    between "response".toList none r.tokens = r.members.map fun m => m.content r.ns := by
  have htail : between "response".toList none (element r.ns "sync-token" [] [.text r.syncToken] ++
      [.closing r.ns "multistatus"]) = [] := by
    rw [← List.append_nil (_ ++ _), between_skip]
    · rfl
    · intro t ht
      apply not_opens
      simp only [element, List.mem_append, List.mem_cons, List.not_mem_nil, or_false] at ht
      obtain (rfl | rfl | rfl) | rfl := ht <;> simp [tag, lower]
  have hmembers (ms : List Member) : between "response".toList none
      (ms.flatMap (fun m => .text m.space :: element r.ns "response" m.attrs (m.content r.ns)) ++
        (element r.ns "sync-token" [] [.text r.syncToken] ++ [.closing r.ns "multistatus"])) =
      ms.map fun m => m.content r.ns := by
    induction ms with
    | nil => exact htail
    | cons m ms ih =>
      have hinside : ∀ t ∈ m.content r.ns, closes "response".toList t = false := by
        intro t ht
        obtain ⟨p, -, ht⟩ := List.mem_flatMap.mp ht
        exact part_not_closes p t ht
      rw [List.flatMap_cons, List.cons_append, List.cons_append, between, element, List.append_assoc]
      exact (between_element (opens_own h "response" m.attrs rfl) hinside (closes_own h "response" rfl) _).trans
        (congrArg _ ih)
  have hopen : opens "response".toList (.opening r.ns "multistatus" r.attrs) = false := by
    apply not_opens
    simp [tag, lower]
  rw [Report.tokens, between, element, List.append_assoc]
  change between _ (if opens "response".toList (.opening r.ns "multistatus" r.attrs) = true then _ else none) _ = _
  rw [hopen]
  exact hmembers r.members

theorem unreadable_not_opens {ns : Option (List Char)} (h : ¬ readable ns = true) (name : List Char) (tagName : String)
    (attrs : List Char) : opens name (.opening ns tagName attrs) = false := by
  rw [opens, Bool.and_eq_false_iff]
  exact .inl (Bool.eq_false_iff.mpr h)

theorem between_unreadable (h : ¬ readable r.ns = true) : between "response".toList none r.tokens = [] := by
  have helement (name : String) (attrs : List Char) (inside : List XmlToken)
      (hinside : ∀ t ∈ inside, opens "response".toList t = false) :
      ∀ t ∈ element r.ns name attrs inside, opens "response".toList t = false := by
    intro t ht
    rw [element, List.mem_cons, List.mem_append, List.mem_singleton] at ht
    obtain rfl | ht | rfl := ht
    · exact unreadable_not_opens h _ _ _
    · exact hinside t ht
    · rfl
  have htext (chars : List Char) : ∀ t ∈ [XmlToken.text chars], opens "response".toList t = false := by
    intro t ht
    rw [List.mem_singleton.mp ht]
    rfl
  have hpart (p : Part) : ∀ t ∈ p.tokens r.ns, opens "response".toList t = false := by
    cases p with
    | href attrs text filled => exact helement _ _ _ (htext text)
    | status attrs line => exact helement _ _ _ (htext line.chars)
    | propstat attrs inside properties =>
      apply helement
      intro t ht
      exact not_opens (properties t ht).1
    | description attrs text => exact helement _ _ _ (htext text)
    | space text => exact htext text
  have hmember (m : Member) :
      ∀ t ∈ .text m.space :: element r.ns "response" m.attrs (m.content r.ns), opens "response".toList t = false := by
    intro t ht
    obtain rfl | ht := List.mem_cons.mp ht
    · rfl
    · apply helement _ _ _ _ t ht
      intro t ht
      obtain ⟨p, -, ht⟩ := List.mem_flatMap.mp ht
      exact hpart p t ht
  rw [← List.append_nil r.tokens, between_skip]
  · rfl
  · intro t ht
    obtain rfl | ht := List.mem_cons.mp ht
    · rfl
    · apply helement _ _ _ _ t ht
      intro t ht
      obtain ht | ht := List.mem_append.mp ht
      · obtain ⟨m, -, ht⟩ := List.mem_flatMap.mp ht
        exact hmember m t ht
      · exact helement _ _ _ (htext r.syncToken) t ht

theorem parse_members (h : readable r.ns = true) : parseRemovedHrefs r.tokens = r.members.flatMap Member.reported := by
  rw [parseRemovedHrefs, between_members h, List.filterMap_map, List.filterMap_eq_flatMap_toList]
  apply List.flatMap_congr
  intro m _
  rw [Function.comp_apply, removedHref_content h]
  rfl

theorem reported_subset (m : Member) : m.reported ⊆ m.hrefs := by
  intro href hhref
  obtain ⟨line, -, hline⟩ := Option.bind_eq_some_iff.mp (Option.mem_toList.mp hhref)
  split at hline
  · obtain ⟨text, htext, rfl⟩ := Option.map_eq_some_iff.mp hline
    obtain ⟨e, he, rfl⟩ := Option.map_eq_some_iff.mp htext
    exact List.mem_map.mpr ⟨e, List.mem_of_find?_eq_some he, rfl⟩
  · cases hline

theorem reported_eq_iff (m : Member) : m.reported = (if m.removed = true then m.hrefs else []) ↔ m.Plain := by
  rw [Member.Plain]
  cases hline : m.line with
  | none =>
    have hremoved : ¬ m.removed = true := by
      rw [Member.removed, hline]
      exact Bool.false_ne_true
    rw [if_neg hremoved, if_neg hremoved, Member.reported, hline]
    simp
  | some line =>
    have hremoved : m.removed = (line.code == ['4', '0', '4']) := by
      rw [Member.removed, hline]
      rfl
    rw [Member.reported, hline, hremoved]
    dsimp only [Option.bind_some]
    rw [says404_line]
    by_cases hcode : (line.code == ['4', '0', '4']) = true
    · rw [if_pos hcode, if_pos hcode, hcode, Bool.true_or, if_pos rfl]
      constructor
      · intro hsame
        obtain ⟨e, hrefs, hcons⟩ := List.exists_cons_of_ne_nil m.hrefs_ne_nil
        rw [Member.hrefs, hcons, bareHref, hcons] at hsame
        have hlength := congrArg List.length hsame
        have hnil : hrefs = [] := by
          cases hfind : ((e :: hrefs).find? fun e => e.1 = []) <;> simp [hfind] at hlength ⊢
          exact hlength
        rw [hnil] at hsame hcons
        by_cases hattrs : e.1 = []
        · exact ⟨e.2, by rw [hcons, ← hattrs]⟩
        · simp [hattrs] at hsame
      · rintro ⟨text, htext⟩
        rw [Member.hrefs, bareHref, htext]
        rfl
    · rw [if_neg hcode, if_neg hcode, Bool.eq_false_iff.mpr hcode, Bool.false_or]
      by_cases hreason : says404 (some ' ') line.reason = true
      · rw [if_pos hreason]
        simp [hreason]
      · rw [if_neg hreason]
        simp [hreason]

/-- Two lists cut in parts of other letters are the same only part by part. -/
theorem flatMap_eq_iff {α β : Type} [DecidableEq β] {own f g : α → List β} {l : List α} (hnodup : (l.flatMap own).Nodup)
    (hf : ∀ a ∈ l, f a ⊆ own a) (hg : ∀ a ∈ l, g a ⊆ own a) :
    l.flatMap f = l.flatMap g ↔ ∀ a ∈ l, f a = g a := by
  induction l with
  | nil => simp
  | cons a l ih =>
    rw [List.flatMap_cons] at hnodup
    obtain ⟨-, hrest, hapart⟩ := List.nodup_append.mp hnodup
    have hmore := ih hrest (fun b hb => hf b (List.mem_cons_of_mem a hb)) fun b hb => hg b (List.mem_cons_of_mem a hb)
    have hother (k : α → List β) (hk : ∀ b ∈ a :: l, k b ⊆ own b) :
        (k a ++ l.flatMap k).filter (own a).contains = k a := by
      rw [List.filter_append, List.filter_eq_self.mpr, List.filter_eq_nil_iff.mpr, List.append_nil]
      · intro x hx
        obtain ⟨b, hb, hx⟩ := List.mem_flatMap.mp hx
        have hown := List.mem_flatMap.mpr ⟨b, hb, hk b (List.mem_cons_of_mem a hb) hx⟩
        simpa using fun hxa => hapart x hxa x hown rfl
      · intro x hx
        simpa using hk a List.mem_cons_self hx
    rw [List.flatMap_cons, List.flatMap_cons, List.forall_mem_cons, ← hmore]
    constructor
    · intro h
      have hhead := congrArg (List.filter (own a).contains) h
      rw [hother f hf, hother g hg] at hhead
      rw [hhead] at h
      exact ⟨hhead, List.append_cancel_left h⟩
    · rintro ⟨hhead, htail⟩
      rw [hhead, htail]

theorem parseRemovedHrefs_exact_iff (r : Report) :
    parseRemovedHrefs r.tokens = r.removedHrefs ↔
      if readable r.ns = true then ∀ m ∈ r.members, m.Plain else ∀ m ∈ r.members, m.removed = false := by
  split
  · rename_i h
    have hremoved : r.removedHrefs = r.members.flatMap fun m => if m.removed = true then m.hrefs else [] := by
      rw [Report.removedHrefs]
      induction r.members with
      | nil => rfl
      | cons m ms ih =>
        rw [List.filter_cons, List.flatMap_cons, ← ih]
        split
        · rfl
        · rfl
    rw [parse_members h, hremoved, flatMap_eq_iff r.distinct]
    · apply forall₂_congr
      intro m _
      exact reported_eq_iff m
    · intro m _
      exact reported_subset m
    · intro m _
      split
      · exact List.Subset.refl _
      · exact List.nil_subset _
  · rename_i h
    rw [parseRemovedHrefs, between_unreadable h, Report.removedHrefs, List.filterMap_nil, eq_comm, List.flatMap_eq_nil_iff]
    constructor
    · intro hnone m hm
      rw [Bool.eq_false_iff]
      intro hremoved
      apply m.hrefs_ne_nil
      exact List.map_eq_nil_iff.mp (hnone m (List.mem_filter.mpr ⟨hm, hremoved⟩))
    · intro hlive m hm
      obtain ⟨hin, hremoved⟩ := List.mem_filter.mp hm
      rw [hlive m hin] at hremoved
      cases hremoved

def Sample.gone : Member where
  space := []
  attrs := []
  parts := [.href [] ['/', 'a'] (by decide),
    .status [] ⟨'1', '1', ['4', '0', '4'], ['N', 'o', 't', ' ', 'F', 'o', 'u', 'n', 'd'], by decide, rfl⟩]
  hrefs_ne_nil := List.cons_ne_nil _ _
  one_status := Nat.le_refl 1
  no_propstat := by
    intro _ p hp
    obtain rfl | hp := List.mem_cons.mp hp
    · rfl
    · rw [List.mem_singleton.mp hp]
      rfl

/-- The report of one removed member under the default namespace. -/
def Sample.plainReport : Report where
  prolog := []
  ns := none
  attrs := " xmlns=\"DAV:\"".toList
  members := [Sample.gone]
  syncToken := ['2']
  distinct := by decide

theorem default_namespace_unread :
    parseRemovedHrefs Sample.plainReport.tokens = [] ∧ Sample.plainReport.removedHrefs = [['/', 'a']] := by
  decide

end Exact

end OpenMigrate.Dav.Removals
