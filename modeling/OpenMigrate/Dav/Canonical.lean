import OpenMigrate.Dav.UidAgree
import OpenMigrate.Dav.XmlEntities
import OpenMigrate.Dav.MultiStatus
import Mathlib.Data.Char
import Mathlib.Data.List.Lex
import Mathlib.Data.List.Sort

namespace OpenMigrate.Dav

open Escape

section Source

/-- `toUpperCase`, on what the names of properties are made of. -/
def upper (s : List Char) : List Char := s.map Char.toUpper

def calendarProperties : List (List Char) := ["UID", "SUMMARY", "DESCRIPTION", "LOCATION"].map String.toList

def contactProperties : List (List Char) :=
  ["UID", "FN", "N", "EMAIL", "TEL", "ORG", "TITLE", "NOTE"].map String.toList

def DavKind.properties : DavKind → List (List Char)
  | calendar => calendarProperties
  | contact => contactProperties

/-- `replace(/\r/g, '\n')` -/
def crToLf (s : List Char) : List Char := s.map fun c => if c = '\r' then '\n' else c

def unfold (source : List Char) : List (List Char) :=
  ((dropLfFolds (crToLf (crlfToLf source))).splitOn '\n').filter fun line => trim line ≠ []

/-- `replace(/\\([nN,;\\])/g, …)` -/
def unescapeText : List Char → List Char
  | '\\' :: c :: rest =>
    if c = 'n' ∨ c = 'N' then '\n' :: unescapeText rest
    else if c = ',' ∨ c = ';' ∨ c = '\\' then c :: unescapeText rest
    else '\\' :: unescapeText (c :: rest)
  | c :: rest => c :: unescapeText rest
  | [] => []

/-- What the loop pushes for a line. -/
def canonicalLine (properties : List (List Char)) (line : List Char) : Option (List Char) :=
  match line.takeWhile (· != ':'), line.dropWhile (· != ':') with
  | c :: before, ':' :: rest =>
    let name := upper (trim ((c :: before).takeWhile (· != ';')))
    let value := trim (unescapeText rest)
    if properties.contains name ∧ value ≠ [] then some (name ++ ':' :: value) else none
  | _, _ => none

/-- A text as JavaScript compares it. -/
def codeUnits (s : List Char) : Units := s.flatMap fun c => utf16 c.toNat

def canonicalLines (source : List Char) (properties : List (List Char)) : List Char :=
  ['\n'].intercalate
    (((unfold source).filterMap (canonicalLine properties)).insertionSort fun a b => codeUnits a ≤ codeUnits b)

def calendarFingerprint (digest : List Char → List Char) (icalendar : List Char) : List Char :=
  "cal1".toList ++ ':' :: digest (canonicalLines icalendar calendarProperties)

def contactFingerprint (digest : List Char → List Char) (vcard : List Char) : List Char :=
  "card1".toList ++ ':' :: digest (canonicalLines vcard contactProperties)

end Source

section Units

theorem char_bounds (c : Char) : c.toNat < 0xD800 ∨ 0xDFFF < c.toNat ∧ c.toNat < 0x110000 := by
  have hvalid := c.valid
  rwa [UInt32.isValidChar, Nat.isValidChar] at hvalid

/-- The units of a character are not the beginning of another one's. -/
theorem utf16_inj {c d : Char} {us vs : Units} (h : utf16 c.toNat ++ us = utf16 d.toNat ++ vs) : c = d ∧ us = vs := by
  have hc := char_bounds c
  have hd := char_bounds d
  have heq : c.toNat = d.toNat ∧ us = vs := by
    rw [utf16, utf16] at h
    split at h
    · split at h
      · rw [List.singleton_append, List.singleton_append] at h
        exact List.cons.inj h
      · have hfirst := (List.cons.inj h).1
        omega
    · split at h
      · have hfirst := (List.cons.inj h).1
        omega
      · obtain ⟨hfirst, htail⟩ := List.cons.inj h
        obtain ⟨hsecond, hrest⟩ := List.cons.inj htail
        exact ⟨by omega, hrest⟩
  exact ⟨Char.toNat_inj.mp heq.1, heq.2⟩

theorem utf16_ne_nil (n : ℕ) : utf16 n ≠ [] := by
  rw [utf16]
  split
  · exact List.cons_ne_nil _ _
  · exact List.cons_ne_nil _ _

theorem codeUnits_injective : Function.Injective codeUnits := by
  have hcons : ∀ c s, codeUnits (c :: s) = utf16 c.toNat ++ codeUnits s := fun _ _ => List.flatMap_cons
  have hne : ∀ c s, codeUnits (c :: s) ≠ [] := by
    intro c s
    rw [hcons]
    exact List.append_ne_nil_of_left_ne_nil (utf16_ne_nil _) _
  intro a b h
  induction a generalizing b with
  | nil =>
    cases b with
    | nil => rfl
    | cons d b => exact absurd h.symm (hne d b)
  | cons c a ih =>
    cases b with
    | nil => exact absurd h (hne c a)
    | cons d b =>
      rw [hcons, hcons] at h
      obtain ⟨rfl, hrest⟩ := utf16_inj h
      rw [ih hrest]

end Units

section Unfolded

theorem nameChar_white {c : Char} (h : isNameChar c = true) : whiteSpace c = false := by
  have hbounds := isNameChar_bounds h
  rw [Bool.eq_false_iff]
  intro hwhite
  simp only [whiteSpace, Bool.or_eq_true, List.contains_iff_mem, List.mem_cons, List.not_mem_nil, or_false,
    Bool.and_eq_true, decide_eq_true_eq] at hwhite
  omega

theorem crToLf_eq {s : List Char} (h : '\r' ∉ s) : crToLf s = s := by
  have hid : ∀ c ∈ s, (if c = '\r' then '\n' else c) = id c := by
    intro c hc
    rw [if_neg]
    · rfl
    rintro rfl
    exact h hc
  rw [crToLf, List.map_congr_left hid, List.map_id]

theorem mem_folded {t : Folding} {c : Char} (h : c ∈ t.folded) : c ∈ t.plain ∨ ∃ e ∈ t, ∃ f ∈ e.1, c ∈ f.chars := by
  obtain ⟨e, he, hc⟩ := List.mem_flatMap.mp h
  rw [List.mem_append, List.mem_singleton] at hc
  obtain hc | rfl := hc
  · cases hfold : e.1 with
    | none =>
      rw [hfold] at hc
      cases hc
    | some f =>
      rw [hfold] at hc
      exact .inr ⟨e, he, f, hfold, hc⟩
  · exact .inl (List.mem_map_of_mem he)

theorem render_lines (f : FoldedLine → List Char) (b : Body) :
    b.render f (fun _ => ['\n']) = ['\n'].intercalate (b.lines.map f ++ [b.last.toList.flatMap f]) := by
  rw [Body.render]
  induction b.lines with
  | nil => rw [List.flatMap_nil, List.nil_append, List.map_nil, List.nil_append, List.intercalate_singleton]
  | cons l ls ih =>
    rw [List.flatMap_cons, List.map_cons, List.cons_append, List.intercalate_cons_of_ne_nil (by simp), List.append_assoc,
      ih]

theorem no_cr (b : Body) : '\r' ∉ crlfToLf b.text := by
  have hline : ∀ l : FoldedLine, '\r' ∉ l.folding.withLf.folded := by
    intro l hmem
    obtain hmem | ⟨e, he, f, hf, hmem⟩ := mem_folded hmem
    · rw [plain_withLf] at hmem
      have hbreak := folding_plain l _ hmem
      cases hbreak
    · have hlf := withLf_lf e he f hf
      rw [Fold.chars, hlf] at hmem
      cases htab : f.tab with
      | true =>
        rw [htab] at hmem
        exact absurd hmem (by decide)
      | false =>
        rw [htab] at hmem
        exact absurd hmem (by decide)
  rw [crlfToLf_folded, Body.render, List.mem_append, List.mem_flatMap, List.mem_flatMap]
  rintro (⟨l, -, hmem⟩ | ⟨l, -, hmem⟩)
  · rw [List.mem_append] at hmem
    obtain hmem | hmem := hmem
    · exact hline l hmem
    · exact absurd hmem (by decide)
  · exact hline l hmem

theorem text_said (l : ContentLine) : trim l.text ≠ [] := by
  intro hblank
  rw [trim_eq_nil] at hblank
  obtain ⟨c, rest, hname⟩ := List.exists_cons_of_ne_nil l.name.ne_nil
  have hc : c ∈ l.name.chars := by
    rw [hname]
    exact List.mem_cons_self
  have hwhite : whiteSpace c = false := nameChar_white (l.name.chars_name c hc)
  rw [hblank c (by rw [ContentLine.text, ContentLine.head]; simp [hc])] at hwhite
  cases hwhite

theorem unfold_text (b : Body) : unfold b.text = b.all.map (·.line.text) := by
  have hline : ∀ l : FoldedLine, '\n' ∉ l.line.text := by
    intro l hmem
    have hbreak := text_break hmem
    cases hbreak
  have hkept : ∀ ls : List FoldedLine, (ls.map (·.line.text)).filter (fun line => trim line ≠ []) = ls.map (·.line.text) := by
    intro ls
    rw [List.filter_eq_self]
    intro line hmem
    obtain ⟨l, -, rfl⟩ := List.mem_map.mp hmem
    exact decide_eq_true (text_said l.line)
  rw [unfold, crToLf_eq (no_cr b), crlfToLf_text, render_lines, List.splitOn_intercalate, List.filter_append, hkept,
    Body.all, List.map_append]
  · cases b.last with
    | none => rfl
    | some l =>
      rw [Option.toList_some, List.flatMap_singleton]
      exact congrArg (_ ++ ·) (hkept [l])
  · intro line hmem
    rw [List.mem_append, List.mem_singleton] at hmem
    obtain hmem | rfl := hmem
    · obtain ⟨l, -, rfl⟩ := List.mem_map.mp hmem
      exact hline l
    · intro hlf
      obtain ⟨l, -, hmem⟩ := List.mem_flatMap.mp hlf
      exact hline l hmem
  · simp

end Unfolded

end OpenMigrate.Dav
