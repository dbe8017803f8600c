import OpenMigrate.Escape.Replace
import Mathlib.Data.List.Basic

namespace OpenMigrate.Dav

open Escape

section Numbers

/-- The code units of a code point. -/
def utf16 (n : ℕ) : Units :=
  if n < 0x10000 then [n] else [0xD800 + (n - 0x10000) / 0x400, 0xDC00 + (n - 0x10000) % 0x400]

/-- `String.fromCharCode` keeps sixteen bits. -/
def fromCharCode (n : ℕ) : Option Units := some [n % 0x10000]

/-- `String.fromCodePoint` throws above the last code point. -/
def fromCodePoint (n : ℕ) : Option Units := if n ≤ 0x10FFFF then some (utf16 n) else none

def decimalDigit (u : ℕ) : Option ℕ := if 48 ≤ u ∧ u ≤ 57 then some (u - 48) else none

def hexDigit (u : ℕ) : Option ℕ :=
  if 48 ≤ u ∧ u ≤ 57 then some (u - 48)
  else if 65 ≤ u ∧ u ≤ 70 then some (u - 55)
  else if 97 ≤ u ∧ u ≤ 102 then some (u - 87)
  else none

/-- What one or more digits are worth. -/
def digitsValue (base : ℕ) (digit : ℕ → Option ℕ) (us : Units) : Option ℕ :=
  if us = [] then none else (us.mapM digit).map fun ds => ds.foldl (fun n d => base * n + d) 0

end Numbers

inductive XmlName where
  | lt
  | gt
  | amp
  | quot
  | apos
  deriving DecidableEq

namespace XmlName

def units : XmlName → Units
  | lt => [108, 116]
  | gt => [103, 116]
  | amp => [97, 109, 112]
  | quot => [113, 117, 111, 116]
  | apos => [97, 112, 111, 115]

def char : XmlName → Char
  | lt => '<'
  | gt => '>'
  | amp => '&'
  | quot => '"'
  | apos => '\''

end XmlName

/-- One `replace` of a decoder: `&#x…;` (with `[xX]` or not), `&#…;`, or a name (with the flag `i` or not). -/
inductive Replacement where
  | hex (upper : Bool)
  | decimal
  | name (n : XmlName) (ignoreCase : Bool)
  deriving DecidableEq

def lowerUnit (u : ℕ) : ℕ := if 65 ≤ u ∧ u ≤ 90 then u + 32 else u

/-- `number` is what digits of this value are read as: exact as far as numbers are. -/
def Replacement.rule (number : ℕ → ℕ) (fromCode : ℕ → Option Units) : Replacement → Rule
  | hex upper, 35 :: x :: ds =>
    if x = 120 ∨ upper = true ∧ x = 88 then (digitsValue 16 hexDigit ds).map fun n => fromCode (number n) else none
  | decimal, 35 :: ds => (digitsValue 10 decimalDigit ds).map fun n => fromCode (number n)
  | name n ignoreCase, inner =>
    if (if ignoreCase then inner.map lowerUnit else inner) = n.units then some (some [n.char.toNat]) else none
  | _, _ => none

def caldavReplacements : List Replacement :=
  [.hex false, .decimal, .name .lt false, .name .gt false, .name .amp false, .name .quot false, .name .apos false]

def carddavReplacements : List Replacement :=
  [.hex false, .decimal, .name .lt true, .name .gt true, .name .amp true, .name .quot true, .name .apos true]

def trashbinReplacements : List Replacement :=
  [.name .lt false, .name .gt false, .name .quot false, .name .apos false, .decimal, .hex true, .name .amp false]

/-- The CalDAV source's decoder. -/
def Caldav.decodeXmlEntities (number : ℕ → ℕ) (text : Units) : Option Units :=
  decode (caldavReplacements.map (Replacement.rule number fromCharCode)) text

/-- The CardDAV source's decoder. -/
def Carddav.decodeXmlEntities (number : ℕ → ℕ) (text : Units) : Option Units :=
  decode (carddavReplacements.map (Replacement.rule number fromCharCode)) text

/-- The trash-bin reader's decoder. -/
def decodeXml (number : ℕ → ℕ) (text : Units) : Option Units :=
  decode (trashbinReplacements.map (Replacement.rule number fromCodePoint)) text

/-- One character as XML may write it. -/
inductive Escaped where
  | raw (c : Char) (h : c ≠ '&' ∧ c ≠ '<')
  | name (n : XmlName)
  | decimal (digits : Units) (c : Char) (h : digitsValue 10 decimalDigit digits = some c.toNat)
  | hex (digits : Units) (c : Char) (h : digitsValue 16 hexDigit digits = some c.toNat)

namespace Escaped

def char : Escaped → Char
  | raw c _ => c
  | name n => n.char
  | decimal _ c _ => c
  | hex _ c _ => c

def text : Escaped → Units
  | raw c _ => utf16 c.toNat
  | name n => 38 :: (n.units ++ [59])
  | decimal digits _ _ => 38 :: 35 :: (digits ++ [59])
  | hex digits _ _ => 38 :: 35 :: 120 :: (digits ++ [59])

def tokens : Escaped → List Token
  | raw c _ => lits (utf16 c.toNat)
  | name n => [.ref ⟨n.units, [n.char.toNat]⟩]
  | decimal digits c _ => [.ref ⟨35 :: digits, utf16 c.toNat⟩]
  | hex digits c _ => [.ref ⟨35 :: 120 :: digits, utf16 c.toNat⟩]

/-- A numeric reference above the basic plane. -/
def Astral : Escaped → Prop
  | decimal _ c _ => 0x10000 ≤ c.toNat
  | hex _ c _ => 0x10000 ≤ c.toNat
  | _ => False

end Escaped

/-- The characters of a string as JavaScript has them. -/
def unitsOf (es : List Escaped) : Units := es.flatMap fun e => utf16 e.char.toNat

def textOf (es : List Escaped) : Units := es.flatMap Escaped.text

def tokensOf (es : List Escaped) : List Token := es.flatMap Escaped.tokens

section Rules

variable {number : ℕ → ℕ} {fromCode : ℕ → Option Units} {inner : Units} {put : Option Units}

theorem render_tokensOf (es : List Escaped) : render (tokensOf es) = textOf es := by
  have hone : ∀ e : Escaped, render e.tokens = e.text := by
    intro e
    cases e with
    | raw c h => simp [Escaped.tokens, Escaped.text, render, lits, Token.text, List.flatMap_map]
    | name n => simp [Escaped.tokens, Escaped.text, render, Token.text, ampersand, semicolon]
    | decimal digits c h => simp [Escaped.tokens, Escaped.text, render, Token.text, ampersand, semicolon]
    | hex digits c h => simp [Escaped.tokens, Escaped.text, render, Token.text, ampersand, semicolon]
  rw [render, tokensOf, List.flatMap_assoc]
  exact congrArg (es.flatMap ·) (funext hone)

theorem meaning_tokensOf (es : List Escaped) : meaning (tokensOf es) = unitsOf es := by
  have hone : ∀ e : Escaped, meaning e.tokens = utf16 e.char.toNat := by
    intro e
    cases e with
    | raw c h => simp [Escaped.tokens, Escaped.char, meaning, lits, Token.units, List.flatMap_map]
    | name n => cases n <;> rfl
    | decimal digits c h => simp [Escaped.tokens, Escaped.char, meaning, Token.units]
    | hex digits c h => simp [Escaped.tokens, Escaped.char, meaning, Token.units]
  rw [meaning, tokensOf, List.flatMap_assoc]
  exact congrArg (es.flatMap ·) (funext hone)

theorem isSome_of_mapM {digit : ℕ → Option ℕ} {ds values : Units} (h : ds.mapM digit = some values) :
    ∀ u ∈ ds, (digit u).isSome = true := by
  induction ds generalizing values with
  | nil => simp
  | cons d ds ih =>
    rw [List.mapM_cons] at h
    obtain ⟨value, hvalue, h⟩ := Option.bind_eq_some_iff.mp h
    obtain ⟨rest, hrest, -⟩ := Option.bind_eq_some_iff.mp h
    intro u hu
    obtain rfl | hu := List.mem_cons.mp hu
    · rw [hvalue]
      rfl
    · exact ih hrest u hu

theorem digits_of_value {base : ℕ} {digit : ℕ → Option ℕ} {ds : Units} {n : ℕ}
    (h : digitsValue base digit ds = some n) : ds ≠ [] ∧ ∀ u ∈ ds, (digit u).isSome = true := by
  unfold digitsValue at h
  by_cases hnil : ds = []
  · rw [if_pos hnil] at h
    cases h
  · rw [if_neg hnil] at h
    obtain ⟨values, hvalues, -⟩ := Option.map_eq_some_iff.mp h
    exact ⟨hnil, isSome_of_mapM hvalues⟩

theorem decimalDigit_bounds {u : ℕ} (h : (decimalDigit u).isSome = true) : 48 ≤ u ∧ u ≤ 57 := by
  by_contra hno
  rw [decimalDigit, if_neg hno] at h
  cases h

theorem hexDigit_bounds {u : ℕ} (h : (hexDigit u).isSome = true) :
    48 ≤ u ∧ u ≤ 57 ∨ 65 ≤ u ∧ u ≤ 70 ∨ 97 ≤ u ∧ u ≤ 102 := by
  unfold hexDigit at h
  split_ifs at h with hdec hupper hlower
  · exact .inl hdec
  · exact .inr (.inl hupper)
  · exact .inr (.inr hlower)
  · cases h

theorem hex_reads {upper : Bool} (h : (Replacement.hex upper).rule number fromCode inner = some put) :
    ∃ x ds n, inner = 35 :: x :: ds ∧ (x = 120 ∨ x = 88) ∧ digitsValue 16 hexDigit ds = some n ∧
      put = fromCode (number n) := by
  unfold Replacement.rule at h
  split at h
  · rename_i upper' x ds hkind
    split_ifs at h with hx
    obtain ⟨n, hn, rfl⟩ := Option.map_eq_some_iff.mp h
    exact ⟨x, ds, n, rfl, hx.imp_right And.right, hn, rfl⟩
  · cases ‹Replacement.hex upper = _›
  · cases ‹Replacement.hex upper = _›
  · cases h

theorem decimal_reads (h : Replacement.decimal.rule number fromCode inner = some put) :
    ∃ ds n, inner = 35 :: ds ∧ digitsValue 10 decimalDigit ds = some n ∧ put = fromCode (number n) := by
  unfold Replacement.rule at h
  split at h
  · cases ‹Replacement.decimal = _›
  · rename_i ds hkind
    obtain ⟨n, hn, rfl⟩ := Option.map_eq_some_iff.mp h
    exact ⟨ds, n, rfl, hn, rfl⟩
  · cases ‹Replacement.decimal = _›
  · cases h

theorem lowerUnit_name (n : XmlName) : n.units.map lowerUnit = n.units := by
  cases n <;> rfl

theorem name_reads {n : XmlName} {ignoreCase : Bool}
    (h : (Replacement.name n ignoreCase).rule number fromCode inner = some put) :
    inner.map lowerUnit = n.units ∧ put = some [n.char.toNat] := by
  rw [Replacement.rule] at h
  split_ifs at h with hcase hname hname
  · exact ⟨hname, (Option.some.inj h).symm⟩
  · rw [hname]
    exact ⟨lowerUnit_name n, (Option.some.inj h).symm⟩

theorem plain_of_digits {base : ℕ} {digit : ℕ → Option ℕ} {ds : Units} {n u : ℕ}
    (h : digitsValue base digit ds = some n) (hu : digit u = none) : u ∉ ds := by
  intro hmem
  have hsome := (digits_of_value h).2 u hmem
  rw [hu] at hsome
  cases hsome

/-- What a replacement reads. -/
inductive Family where
  | hex
  | decimal
  | name (n : XmlName)
  deriving DecidableEq

def Replacement.family : Replacement → Family
  | hex _ => .hex
  | decimal => .decimal
  | name n _ => .name n

def Family.Has : Family → Units → Prop
  | hex, inner => ∃ x ds, inner = 35 :: x :: ds ∧ (x = 120 ∨ x = 88) ∧ ∀ u ∈ ds, (hexDigit u).isSome = true
  | decimal, inner => ∃ d ds, inner = 35 :: d :: ds ∧ ∀ u ∈ d :: ds, (decimalDigit u).isSome = true
  | name n, inner => inner.map lowerUnit = n.units

theorem family_has {k : Replacement} (h : k.rule number fromCode inner = some put) : k.family.Has inner := by
  cases k with
  | hex upper =>
    obtain ⟨x, ds, n, rfl, hx, hn, -⟩ := hex_reads h
    exact ⟨x, ds, rfl, hx, (digits_of_value hn).2⟩
  | decimal =>
    obtain ⟨ds, n, rfl, hn, -⟩ := decimal_reads h
    obtain ⟨hnil, hdigits⟩ := digits_of_value hn
    obtain ⟨d, ds, rfl⟩ := List.exists_cons_of_ne_nil hnil
    exact ⟨d, ds, rfl, hdigits⟩
  | name n ignoreCase => exact (name_reads h).1

theorem name_head (n : XmlName) (rest : Units) : n.units ≠ 35 :: rest := by
  cases n <;> simp [XmlName.units]

theorem family_unique {f f' : Family} (h : f.Has inner) (h' : f'.Has inner) : f = f' := by
  have hapart : ∀ {x : ℕ}, (x = 120 ∨ x = 88) → (decimalDigit x).isSome = true → False := by
    intro x hx hd
    have hbounds := decimalDigit_bounds hd
    omega
  cases f with
  | hex =>
    obtain ⟨x, ds, rfl, hx, -⟩ := h
    cases f' with
    | hex => rfl
    | decimal =>
      obtain ⟨d, ds', heq, hdigits⟩ := h'
      obtain ⟨rfl, -⟩ := List.cons.inj (List.cons.inj heq).2
      exact absurd (hdigits x List.mem_cons_self) (hapart hx)
    | name n => exact absurd h'.symm (name_head n _)
  | decimal =>
    obtain ⟨d, ds, rfl, hdigits⟩ := h
    cases f' with
    | hex =>
      obtain ⟨x, ds', heq, hx, -⟩ := h'
      obtain ⟨rfl, -⟩ := List.cons.inj (List.cons.inj heq).2
      exact absurd (hdigits d List.mem_cons_self) (hapart hx)
    | decimal => rfl
    | name n => exact absurd h'.symm (name_head n _)
  | name n =>
    cases f' with
    | hex =>
      obtain ⟨x, ds, rfl, -⟩ := h'
      exact absurd h.symm (name_head n _)
    | decimal =>
      obtain ⟨d, ds, rfl, -⟩ := h'
      exact absurd h.symm (name_head n _)
    | name n' =>
      have hunits : n.units = n'.units := h.symm.trans h'
      have hname : n = n' := by
        cases n <;> cases n' <;> first | rfl | cases hunits
      rw [hname]

theorem replacements_apart {ks : List Replacement} (h : (ks.map Replacement.family).Nodup) :
    (ks.map (Replacement.rule number fromCode)).Pairwise Apart := by
  rw [List.pairwise_map]
  apply (List.pairwise_map.mp h).imp
  intro k k' hne inner hread hread'
  obtain ⟨put, hput⟩ := Option.isSome_iff_exists.mp hread
  obtain ⟨put', hput'⟩ := Option.isSome_iff_exists.mp hread'
  exact hne (family_unique (family_has hput) (family_has hput'))

theorem family_plain {f : Family} (h : f.Has inner) :
    ampersand ∉ inner ∧ semicolon ∉ inner ∧ 2 ≤ inner.length := by
  cases f with
  | hex =>
    obtain ⟨x, ds, rfl, hx, hdigits⟩ := h
    have hother : ∀ u, hexDigit u = none → u ≠ 35 → u ≠ 120 → u ≠ 88 → u ∉ 35 :: x :: ds := by
      intro u hu h35 h120 h88 hmem
      simp only [List.mem_cons] at hmem
      obtain rfl | rfl | hmem := hmem
      · exact h35 rfl
      · exact hx.elim h120 h88
      · have hsome := hdigits u hmem
        rw [hu] at hsome
        cases hsome
    exact ⟨hother _ (by decide) (by decide) (by decide) (by decide),
      hother _ (by decide) (by decide) (by decide) (by decide), by simp⟩
  | decimal =>
    obtain ⟨d, ds, rfl, hdigits⟩ := h
    have hother : ∀ u, decimalDigit u = none → u ≠ 35 → u ∉ 35 :: d :: ds := by
      intro u hu h35 hmem
      obtain rfl | hmem := List.mem_cons.mp hmem
      · exact h35 rfl
      · have hsome := hdigits u hmem
        rw [hu] at hsome
        cases hsome
    exact ⟨hother _ (by decide) (by decide), hother _ (by decide) (by decide), by simp⟩
  | name n =>
    have hother : ∀ u, lowerUnit u ∉ n.units → u ∉ inner := by
      intro u hu hmem
      rw [Family.Has] at h
      exact hu (h ▸ List.mem_map_of_mem hmem)
    refine ⟨hother _ ?_, hother _ ?_, ?_⟩
    · cases n <;> decide
    · cases n <;> decide
    · rw [← List.length_map (f := lowerUnit), h]
      cases n <;> decide

/-- What replacements put is short. -/
def Short (fromCode : ℕ → Option Units) : Prop := ∀ n put, fromCode n = some put → put.length ≤ 2

theorem replacement_good (hshort : Short fromCode) (k : Replacement) : (k.rule number fromCode).Good := by
  constructor
  · intro inner hread
    obtain ⟨put, hput⟩ := Option.isSome_iff_exists.mp hread
    exact (family_plain (family_has hput)).1
  · intro inner put hput
    have hlength := (family_plain (family_has hput)).2.2
    have hle : put.length ≤ 2 := by
      cases k with
      | hex upper =>
        obtain ⟨x, ds, n, -, -, -, hcode⟩ := hex_reads hput
        exact hshort _ _ hcode.symm
      | decimal =>
        obtain ⟨ds, n, -, -, hcode⟩ := decimal_reads hput
        exact hshort _ _ hcode.symm
      | name n ignoreCase =>
        rw [Option.some.inj (name_reads hput).2]
        exact Nat.le_succ 1
    omega

end Rules

section References

variable {number : ℕ → ℕ} {fromCode : ℕ → Option Units} {es : List Escaped} {r : Ref}

def Escaped.family : Escaped → Option Family
  | raw _ _ => none
  | name n => some (.name n)
  | decimal _ _ _ => some .decimal
  | hex _ _ _ => some .hex

/-- A reference of an escaped character: what it stands for, its family, and what a replacement of it puts. -/
structure Refers (number : ℕ → ℕ) (fromCode : ℕ → Option Units) (e : Escaped) (f : Family) (r : Ref) : Prop where
  has : f.Has r.inner
  units : r.units = utf16 e.char.toNat
  read : ∀ k : Replacement, k.family = f → ∃ put, k.rule number fromCode r.inner = some put ∧
    if f = .hex ∨ f = .decimal then put = fromCode (number e.char.toNat) else put = some r.units

variable (number fromCode) in
theorem ref_refers {e : Escaped} (h : Token.ref r ∈ e.tokens) :
    ∃ f, e.family = some f ∧ Refers number fromCode e f r := by
  cases e with
  | raw c hc => simp [Escaped.tokens, lits] at h
  | name n =>
    obtain rfl := Token.ref.inj (List.mem_singleton.mp h)
    refine ⟨.name n, rfl, lowerUnit_name n, ?_, ?_⟩
    · cases n <;> rfl
    · intro k hk
      cases k with
      | hex upper => cases hk
      | decimal => cases hk
      | name n' ignoreCase =>
        obtain rfl := Family.name.inj hk
        refine ⟨some [n'.char.toNat], ?_, rfl⟩
        have hname : (if ignoreCase = true then n'.units.map lowerUnit else n'.units) = n'.units := by
          rw [lowerUnit_name, ite_self]
        simp [Replacement.rule, hname]
  | decimal digits c hc =>
    obtain rfl := Token.ref.inj (List.mem_singleton.mp h)
    obtain ⟨hnil, hdigits⟩ := digits_of_value hc
    obtain ⟨d, ds, rfl⟩ := List.exists_cons_of_ne_nil hnil
    refine ⟨.decimal, rfl, ⟨d, ds, rfl, hdigits⟩, rfl, ?_⟩
    intro k hk
    cases k with
    | hex upper => cases hk
    | name n ignoreCase => cases hk
    | decimal =>
      refine ⟨fromCode (number c.toNat), ?_, rfl⟩
      simp [Replacement.rule, hc]
  | hex digits c hc =>
    obtain rfl := Token.ref.inj (List.mem_singleton.mp h)
    refine ⟨.hex, rfl, ⟨120, digits, rfl, .inl rfl, (digits_of_value hc).2⟩, rfl, ?_⟩
    intro k hk
    cases k with
    | decimal => cases hk
    | name n ignoreCase => cases hk
    | hex upper =>
      refine ⟨fromCode (number c.toNat), ?_, rfl⟩
      simp [Replacement.rule, hc]

theorem ref_of_tokensOf (h : Token.ref r ∈ tokensOf es) : ∃ e ∈ es, Token.ref r ∈ e.tokens :=
  List.mem_flatMap.mp h

/-- Numbers are exact below 2^53. -/
def ExactNumbers (number : ℕ → ℕ) : Prop := ∀ n, n < 0x20000000000000 → number n = n

theorem number_char (hnumber : ExactNumbers number) (c : Char) : number c.toNat = c.toNat := by
  apply hnumber
  have hvalid := c.valid
  rw [UInt32.isValidChar, Nat.isValidChar] at hvalid
  change c.val.toNat < 0x20000000000000
  omega

/-- A code that becomes what it stands for, or less. -/
def CodeFits (fromCode : ℕ → Option Units) : Prop :=
  ∀ c : Char, fromCode c.toNat = some (utf16 c.toNat) ∨
    ∃ units, fromCode c.toNat = some units ∧ units.length < (utf16 c.toNat).length

theorem ref_fits (hnumber : ExactNumbers number) (hcode : CodeFits fromCode) (h : Token.ref r ∈ tokensOf es)
    (k : Replacement) : r.Fits (k.rule number fromCode) := by
  obtain ⟨e, -, he⟩ := ref_of_tokensOf h
  obtain ⟨f, -, hrefers⟩ := ref_refers number fromCode he
  obtain ⟨hamp, hsemi, -⟩ := family_plain hrefers.has
  refine ⟨hamp, hsemi, ?_⟩
  intro put hput
  obtain ⟨put', hput', hcases⟩ := hrefers.read k (family_unique (family_has hput) hrefers.has)
  obtain rfl : put = put' := Option.some.inj (hput.symm.trans hput')
  split_ifs at hcases with hnumeric
  · rw [hcases, number_char hnumber, hrefers.units]
    exact hcode e.char
  · exact .inl hcases

/-- A numeric reference becomes the character it stands for. -/
def CodesRight (fromCode : ℕ → Option Units) (es : List Escaped) : Prop :=
  ∀ e ∈ es, (e.family = some .hex ∨ e.family = some .decimal) →
    fromCode e.char.toNat = some (utf16 e.char.toNat)

theorem refs_right_iff (hnumber : ExactNumbers number) {ks : List Replacement}
    (hall : ∀ f, f ∈ ks.map Replacement.family) :
    (∀ r, Token.ref r ∈ tokensOf es → ∀ rule ∈ ks.map (Replacement.rule number fromCode), ∀ put,
      rule r.inner = some put → put = some r.units) ↔ CodesRight fromCode es := by
  constructor
  · intro h e he hnumeric
    obtain ⟨f, hfamily, hf⟩ : ∃ f, e.family = some f ∧ (f = .hex ∨ f = .decimal) := by
      obtain hnumeric | hnumeric := hnumeric
      · exact ⟨.hex, hnumeric, .inl rfl⟩
      · exact ⟨.decimal, hnumeric, .inr rfl⟩
    obtain ⟨r, hr⟩ : ∃ r, Token.ref r ∈ e.tokens := by
      cases e with
      | raw c hc => cases hfamily
      | name n => exact ⟨_, List.mem_singleton_self _⟩
      | decimal digits c hc => exact ⟨_, List.mem_singleton_self _⟩
      | hex digits c hc => exact ⟨_, List.mem_singleton_self _⟩
    obtain ⟨f', hfamily', hrefers⟩ := ref_refers number fromCode hr
    obtain rfl : f = f' := Option.some.inj (hfamily.symm.trans hfamily')
    obtain ⟨k, hk, hkf⟩ := List.mem_map.mp (hall f)
    obtain ⟨put, hput, hcases⟩ := hrefers.read k hkf
    rw [if_pos hf, number_char hnumber] at hcases
    have hright := h r (List.mem_flatMap.mpr ⟨e, he, hr⟩) _ (List.mem_map_of_mem hk) put hput
    rw [← hcases, hright, hrefers.units]
  · intro h r hr rule hrule put hput
    obtain ⟨k, -, rfl⟩ := List.mem_map.mp hrule
    obtain ⟨e, he, hmem⟩ := ref_of_tokensOf hr
    obtain ⟨f, hfamily, hrefers⟩ := ref_refers number fromCode hmem
    obtain ⟨put', hput', hcases⟩ := hrefers.read k (family_unique (family_has hput) hrefers.has)
    obtain rfl : put = put' := Option.some.inj (hput.symm.trans hput')
    split_ifs at hcases with hnumeric
    · rw [hcases, number_char hnumber, hrefers.units]
      apply h e he
      rw [hfamily]
      exact hnumeric.imp (congrArg some) (congrArg some)
    · exact hcases

/-- A decoder of all replacements undoes an escaping exactly when no replacement reads what the ones before it made,
and every numeric reference becomes its character. -/
theorem decoder_undoes_iff (hnumber : ExactNumbers number) (hshort : Short fromCode) (hcode : CodeFits fromCode)
    {ks : List Replacement} (hdistinct : (ks.map Replacement.family).Nodup)
    (hall : ∀ f, f ∈ ks.map Replacement.family) :
    decode (ks.map (Replacement.rule number fromCode)) (textOf es) = some (unitsOf es) ↔
      NoneSpelled (ks.map (Replacement.rule number fromCode)) (tokensOf es) ∧ CodesRight fromCode es := by
  rw [← render_tokensOf, ← meaning_tokensOf, decode_iff, allExact_iff (replacements_apart hdistinct),
    refs_right_iff hnumber hall]
  · intro rule hrule
    obtain ⟨k, -, rfl⟩ := List.mem_map.mp hrule
    exact replacement_good hshort k
  · intro r hr rule hrule
    obtain ⟨k, -, rfl⟩ := List.mem_map.mp hrule
    exact ref_fits hnumber hcode hr k
  · intro r hr
    obtain ⟨e, -, he⟩ := ref_of_tokensOf hr
    obtain ⟨f, -, hrefers⟩ := ref_refers number fromCode he
    obtain ⟨k, hk, hkf⟩ := List.mem_map.mp (hall f)
    obtain ⟨put, hput, -⟩ := hrefers.read k hkf
    exact ⟨_, List.mem_map_of_mem hk, by rw [hput]; rfl⟩

end References

section Decoders

variable {number : ℕ → ℕ} {es : List Escaped}

theorem fromCharCode_short : Short fromCharCode := by
  intro n put h
  rw [← Option.some.inj h]
  exact Nat.le_succ 1

theorem fromCodePoint_short : Short fromCodePoint := by
  intro n put h
  unfold fromCodePoint at h
  split_ifs at h
  rw [← Option.some.inj h, utf16]
  split
  · exact Nat.le_succ 1
  · exact le_rfl

theorem fromCharCode_right_iff (n : ℕ) : fromCharCode n = some (utf16 n) ↔ n < 0x10000 := by
  unfold fromCharCode utf16
  by_cases hn : n < 0x10000
  · simp [hn, Nat.mod_eq_of_lt hn]
  · simp [hn]

theorem fromCharCode_fits : CodeFits fromCharCode := by
  intro c
  by_cases hn : c.toNat < 0x10000
  · exact .inl ((fromCharCode_right_iff _).mpr hn)
  · right
    refine ⟨_, rfl, ?_⟩
    rw [utf16, if_neg hn]
    exact Nat.lt_succ_self 1

theorem fromCodePoint_right (c : Char) : fromCodePoint c.toNat = some (utf16 c.toNat) := by
  have hle : c.toNat ≤ 0x10FFFF := by
    have hvalid := c.valid
    rw [UInt32.isValidChar, Nat.isValidChar] at hvalid
    change c.val.toNat ≤ 0x10FFFF
    omega
  rw [fromCodePoint, if_pos hle]

theorem fromCharCode_codesRight_iff : CodesRight fromCharCode es ↔ ∀ e ∈ es, ¬ e.Astral := by
  apply forall₂_congr
  intro e _
  rw [fromCharCode_right_iff]
  cases e <;> simp [Escaped.family, Escaped.Astral, Escaped.char]

theorem family_mem {ks : List Replacement}
    (h : (ks.map Replacement.family).Perm (caldavReplacements.map Replacement.family)) (f : Family) :
    f ∈ ks.map Replacement.family := by
  rw [h.mem_iff]
  cases f with
  | hex => decide
  | decimal => decide
  | name n => cases n <;> decide

end Decoders

/-- The decoders undo an escaping exactly when no replacement reads what those before it made; those of the CalDAV and
the CardDAV source only where no numeric reference lies above the basic plane. -/
theorem entities_undone_iff (number : ℕ → ℕ) (hnumber : ExactNumbers number) (es : List Escaped) :
    (Caldav.decodeXmlEntities number (textOf es) = some (unitsOf es) ↔
      NoneSpelled (caldavReplacements.map (Replacement.rule number fromCharCode)) (tokensOf es) ∧
        ∀ e ∈ es, ¬ e.Astral) ∧
    (Carddav.decodeXmlEntities number (textOf es) = some (unitsOf es) ↔
      NoneSpelled (carddavReplacements.map (Replacement.rule number fromCharCode)) (tokensOf es) ∧
        ∀ e ∈ es, ¬ e.Astral) ∧
    (decodeXml number (textOf es) = some (unitsOf es) ↔
      NoneSpelled (trashbinReplacements.map (Replacement.rule number fromCodePoint)) (tokensOf es)) := by
  refine ⟨?_, ?_, ?_⟩
  · rw [← fromCharCode_codesRight_iff]
    exact decoder_undoes_iff hnumber fromCharCode_short fromCharCode_fits (by decide) (family_mem (by decide))
  · rw [← fromCharCode_codesRight_iff]
    exact decoder_undoes_iff hnumber fromCharCode_short fromCharCode_fits (by decide) (family_mem (by decide))
  · have hright : CodesRight fromCodePoint es := fun e _ _ => fromCodePoint_right e.char
    have hiff : decodeXml number (textOf es) = some (unitsOf es) ↔
        NoneSpelled (trashbinReplacements.map (Replacement.rule number fromCodePoint)) (tokensOf es) ∧
          CodesRight fromCodePoint es :=
      decoder_undoes_iff hnumber fromCodePoint_short (fun c => .inl (fromCodePoint_right c)) (by decide)
        (family_mem (by decide))
    rw [and_iff_left hright] at hiff
    exact hiff

namespace Sample

/-- The four characters of `&lt;`, escaped once. -/
def escapedLt : List Escaped := [.name .amp, .raw 'l' (by decide), .raw 't' (by decide), .raw ';' (by decide)]

/-- `&quot;` escaped once. -/
def escapedQuot : List Escaped :=
  [.name .amp, .raw 'q' (by decide), .raw 'u' (by decide), .raw 'o' (by decide), .raw 't' (by decide),
    .raw ';' (by decide)]

/-- `&amp;` with its ampersand as a decimal reference. -/
def escapedAmp : List Escaped :=
  [.decimal [51, 56] '&' (by decide), .raw 'a' (by decide), .raw 'm' (by decide), .raw 'p' (by decide),
    .raw ';' (by decide)]

end Sample

theorem escapedLt_undone :
    NoneSpelled (trashbinReplacements.map (Replacement.rule id fromCodePoint)) (tokensOf Sample.escapedLt) := by
  have hexact : ExactNumbers id := fun _ _ => rfl
  exact (entities_undone_iff id hexact Sample.escapedLt).2.2.mp (by decide)

/-- Text that looks like a reference is decoded twice. -/
theorem escapedQuot_decoded_twice :
    Caldav.decodeXmlEntities id (textOf Sample.escapedQuot) = some [34] ∧
      Carddav.decodeXmlEntities id (textOf Sample.escapedQuot) = some [34] ∧
      decodeXml id (textOf Sample.escapedAmp) = some [38] ∧
      unitsOf Sample.escapedQuot = [38, 113, 117, 111, 116, 59] ∧
      unitsOf Sample.escapedAmp = [38, 97, 109, 112, 59] := by
  decide

end OpenMigrate.Dav
