import Mathlib.Algebra.Ring.Nat
import Mathlib.Algebra.BigOperators.Group.List.Basic
import Mathlib.Tactic.Common

namespace OpenMigrate.Url

abbrev Bytes := List UInt8

def utf8 (s : List Char) : Bytes := s.flatMap String.utf8EncodeChar

/-- The text that some bytes are the UTF-8 of. -/
def utf8Decode (bytes : Bytes) : Option (List Char) := bytes.toByteArray.utf8Decode?.map Array.toList

theorem utf8_append (s t : List Char) : utf8 (s ++ t) = utf8 s ++ utf8 t := by
  simp [utf8]

theorem utf8_cons (c : Char) (s : List Char) : utf8 (c :: s) = String.utf8EncodeChar c ++ utf8 s := rfl

theorem utf8Decode_utf8 (s : List Char) : utf8Decode (utf8 s) = some s := by
  have hbytes : (utf8 s).toByteArray = s.utf8Encode := rfl
  simp [utf8Decode, hbytes]

theorem utf8Decode_eq_some {bytes : Bytes} {s : List Char} (h : utf8Decode bytes = some s) : utf8 s = bytes := by
  obtain ⟨chars, hdecode, rfl⟩ := Option.map_eq_some_iff.mp h
  have hvalid : bytes.toByteArray.IsValidUTF8 := by
    rw [← ByteArray.isSome_utf8Decode?_iff, hdecode]
    rfl
  obtain ⟨m, hm⟩ := hvalid
  rw [hm, List.utf8Decode?_utf8Encode, Option.some.injEq] at hdecode
  subst hdecode
  have hlist := congrArg (fun b : ByteArray => b.data.toList) hm
  simpa [List.utf8Encode, utf8] using hlist.symm

theorem utf8_injective {s t : List Char} (h : utf8 s = utf8 t) : s = t := by
  have hs := utf8Decode_utf8 s
  rw [h, utf8Decode_utf8] at hs
  exact (Option.some.inj hs).symm

theorem utf8_eq_cons {s : List Char} {c : Char} {bytes : Bytes} (h : utf8 s = String.utf8EncodeChar c ++ bytes) :
    ∃ m, s = c :: m ∧ utf8 m = bytes := by
  have hjoin : s.utf8Encode = [c].utf8Encode ++ bytes.toByteArray := by
    have hbytes : s.utf8Encode = (utf8 s).toByteArray := rfl
    rw [hbytes, h, List.utf8Encode_singleton]
    simp
  have hvalid : bytes.toByteArray.IsValidUTF8 := by
    rw [← ByteArray.isValidUTF8_utf8Encode_singleton_append_iff (c := c), ← hjoin]
    exact ⟨s, rfl⟩
  obtain ⟨m, hm⟩ := hvalid
  have hm' : utf8 m = bytes := by
    have hlist := congrArg (fun b : ByteArray => b.data.toList) hm
    simpa [List.utf8Encode, utf8] using hlist.symm
  refine ⟨m, utf8_injective ?_, hm'⟩
  rw [h, utf8_cons, hm']

/-- How many bytes a text takes. -/
def size (s : List Char) : ℕ := (utf8 s).length

@[simp]
theorem size_nil : size [] = 0 := rfl

theorem size_append (s t : List Char) : size (s ++ t) = size s + size t := by
  simp [size, utf8_append]

theorem size_cons (c : Char) (s : List Char) : size (c :: s) = c.utf8Size + size s := by
  simp [size, utf8_cons]

theorem size_pos {s : List Char} (h : s ≠ []) : 0 < size s := by
  cases s with
  | nil => exact absurd rfl h
  | cons c s =>
    rw [size_cons]
    exact Nat.add_pos_left c.utf8Size_pos _

theorem size_le_of_sublist {s t : List Char} (h : s.Sublist t) : size s ≤ size t ∧ (size s = size t → s = t) := by
  induction h with
  | slnil => simp
  | cons c hst ih =>
    obtain ⟨hle, -⟩ := ih
    have hpos := c.utf8Size_pos
    rw [size_cons]
    exact ⟨by omega, fun heq => by omega⟩
  | cons_cons c hst ih =>
    obtain ⟨hle, heq⟩ := ih
    simp only [size_cons]
    exact ⟨by omega, fun h => by rw [heq (by omega)]⟩

def hexValue (c : Char) : Option ℕ :=
  if '0' ≤ c ∧ c ≤ '9' then some (c.toNat - 48)
  else if 'a' ≤ c ∧ c ≤ 'f' then some (c.toNat - 87)
  else if 'A' ≤ c ∧ c ≤ 'F' then some (c.toNat - 55)
  else none

/-- An escape, once its percent sign is gone. -/
def escapeTail : List Char → Option UInt8
  | h :: l :: _ =>
    match hexValue h, hexValue l with
    | some a, some b => some (UInt8.ofNat (16 * a + b))
    | _, _ => none
  | _ => none

def hexDigit (n : ℕ) : Char := Char.ofNat (if n < 10 then 48 + n else 55 + n)

def escape (b : UInt8) : List Char := ['%', hexDigit (b.toNat / 16), hexDigit (b.toNat % 16)]

/-- Escapes are the bytes they spell; a percent sign that starts none is left as it is. -/
def percentDecode : List Char → Bytes
  | '%' :: h :: l :: rest =>
    match escapeTail [h, l] with
    | some b => b :: percentDecode rest
    | none => 37 :: percentDecode (h :: l :: rest)
  | c :: rest => String.utf8EncodeChar c ++ percentDecode rest
  | [] => []

def hasEscape : List Char → Bool
  | c :: rest => (c == '%' && (escapeTail rest).isSome) || hasEscape rest
  | [] => false

/-- Every percent sign starts an escape. -/
def wellEscaped : List Char → Bool
  | c :: rest => (c != '%' || (escapeTail rest).isSome) && wellEscaped rest
  | [] => true

/-- `decodeURIComponent`; none where it throws. -/
def decodeURIComponent (s : List Char) : Option (List Char) :=
  if wellEscaped s then utf8Decode (percentDecode s) else none

theorem escapeTail_take (h l : Char) (rest : List Char) : escapeTail (h :: l :: rest) = escapeTail [h, l] := rfl

theorem percentDecode_escape {h l : Char} {b : UInt8} (hb : escapeTail [h, l] = some b) (rest : List Char) :
    percentDecode ('%' :: h :: l :: rest) = b :: percentDecode rest := by
  simp [percentDecode, hb]

theorem percentDecode_cons {c : Char} {rest : List Char} (h : c = '%' → escapeTail rest = none) :
    percentDecode (c :: rest) = String.utf8EncodeChar c ++ percentDecode rest := by
  by_cases hc : c = '%'
  · subst hc
    have hnone := h rfl
    have hbyte : String.utf8EncodeChar '%' = [37] := by decide
    match rest with
    | [] => simp [percentDecode]
    | [_] => simp [percentDecode]
    | h :: l :: rest =>
      rw [escapeTail_take] at hnone
      simp [percentDecode, hnone, hbyte]
  · simp [percentDecode, hc]

/-- What stands at the head of a text with a percent sign: an escape, or nothing that an escape is read from. -/
theorem head_cases (c : Char) (rest : List Char) :
    (∃ h l b rest', c = '%' ∧ rest = h :: l :: rest' ∧ escapeTail [h, l] = some b) ∨
      ((c = '%' → escapeTail rest = none) ∧ hasEscape (c :: rest) = hasEscape rest) := by
  by_cases hc : c = '%' ∧ (escapeTail rest).isSome
  · obtain ⟨rfl, hsome⟩ := hc
    obtain ⟨b, hb⟩ := Option.isSome_iff_exists.mp hsome
    rcases rest with _ | ⟨h, _ | ⟨l, rest⟩⟩
    · cases hb
    · cases hb
    · exact .inl ⟨h, l, b, rest, rfl, rfl, hb⟩
  · refine .inr ⟨fun heq => ?_, ?_⟩
    · simpa [heq] using hc
    · have hfalse : (c == '%' && (escapeTail rest).isSome) = false := by
        rw [← Bool.not_eq_true]
        simpa using hc
      rw [hasEscape, hfalse, Bool.false_or]

theorem percentDecode_of_plain {s : List Char} (h : hasEscape s = false) : percentDecode s = utf8 s := by
  induction s with
  | nil => rfl
  | cons c rest ih =>
    obtain ⟨h', l, b, rest', rfl, rfl, hb⟩ | ⟨hhead, heq⟩ := head_cases c rest
    · rw [← escapeTail_take _ _ rest'] at hb
      simp [hasEscape, hb] at h
    · rw [percentDecode_cons hhead, ih (heq ▸ h), utf8_cons]

theorem percentDecode_length (s : List Char) :
    (percentDecode s).length ≤ size s ∧ ((percentDecode s).length = size s → hasEscape s = false) := by
  induction hn : s.length using Nat.strong_induction_on generalizing s with
  | _ n ih =>
    subst hn
    cases s with
    | nil => exact ⟨le_rfl, fun _ => rfl⟩
    | cons c rest =>
      obtain ⟨h, l, b, rest', rfl, rfl, hb⟩ | ⟨hhead, heq⟩ := head_cases c rest
      · obtain ⟨hle, -⟩ := ih rest'.length (by simp only [List.length_cons]; omega) rest' rfl
        have hh := h.utf8Size_pos
        have hl := l.utf8Size_pos
        rw [percentDecode_escape hb]
        simp only [size_cons, List.length_cons]
        exact ⟨by omega, fun hsize => by omega⟩
      · obtain ⟨hle, hplain⟩ := ih rest.length (by simp) rest rfl
        rw [percentDecode_cons hhead, heq]
        simp only [size_cons, List.length_append, String.length_utf8EncodeChar]
        exact ⟨by omega, fun hsize => hplain (by omega)⟩

section Encode

variable {set : Char → Bool}

/-- Escapes the characters of a set, byte by byte. -/
def percentEncode (set : Char → Bool) (s : List Char) : List Char :=
  s.flatMap fun c => if set c then (String.utf8EncodeChar c).flatMap escape else [c]

theorem percentEncode_cons (c : Char) (s : List Char) : percentEncode set (c :: s) =
    (if set c then (String.utf8EncodeChar c).flatMap escape else [c]) ++ percentEncode set s := rfl

/-- A set that leaves escapes alone. -/
structure KeepsEscapes (set : Char → Bool) : Prop where
  percent : set '%' = false
  hex : ∀ c, (hexValue c).isSome → set c = false

theorem hexValue_hexDigit {n : ℕ} (h : n < 16) : hexValue (hexDigit n) = some n := by
  have hall : ∀ k : Fin 16, hexValue (hexDigit k) = some k.val := by decide
  exact hall ⟨n, h⟩

theorem escapeTail_escape (b : UInt8) : escapeTail [hexDigit (b.toNat / 16), hexDigit (b.toNat % 16)] = some b := by
  have hlt := b.toNat_lt
  have hvalue : 16 * (b.toNat / 16) + b.toNat % 16 = b.toNat := Nat.div_add_mod _ _
  simp [escapeTail, hexValue_hexDigit (show b.toNat / 16 < 16 by omega),
    hexValue_hexDigit (show b.toNat % 16 < 16 by omega), hvalue]

theorem percentDecode_escapes (bytes : Bytes) (rest : List Char) :
    percentDecode (bytes.flatMap escape ++ rest) = bytes ++ percentDecode rest := by
  induction bytes with
  | nil => rfl
  | cons b bytes ih =>
    have hhead : percentDecode (escape b ++ (bytes.flatMap escape ++ rest)) =
        b :: percentDecode (bytes.flatMap escape ++ rest) := percentDecode_escape (escapeTail_escape b) _
    rw [List.flatMap_cons, List.append_assoc, hhead, ih, List.cons_append]

theorem hexValue_percent : hexValue '%' = none := by decide

theorem escapeTail_eq_none {h : Char} (hh : hexValue h = none) (rest : List Char) : escapeTail (h :: rest) = none := by
  cases rest <;> simp [escapeTail, hh]

theorem escapeTail_second {h l : Char} (hl : hexValue l = none) (rest : List Char) :
    escapeTail (h :: l :: rest) = none := by
  cases hh : hexValue h <;> simp [escapeTail, hh, hl]

theorem escape_head (c : Char) (rest : List Char) :
    ∃ tail, (String.utf8EncodeChar c).flatMap escape ++ rest = '%' :: tail := by
  cases hc : String.utf8EncodeChar c with
  | nil => exact absurd hc String.utf8EncodeChar_ne_nil
  | cons b bytes => exact ⟨_, rfl⟩

theorem KeepsEscapes.not_hex (hset : KeepsEscapes set) {c : Char} (h : set c = true) : hexValue c = none := by
  cases hc : hexValue c with
  | none => rfl
  | some v =>
    have hkept := hset.hex c (by rw [hc]; rfl)
    rw [h] at hkept
    cases hkept

theorem escapeTail_encode {s : List Char} (h : escapeTail s = none) :
    escapeTail (percentEncode set s) = none := by
  rcases s with _ | ⟨c, s⟩
  · rfl
  rw [percentEncode_cons]
  by_cases hc : set c = true
  · rw [if_pos hc]
    obtain ⟨tail, htail⟩ := escape_head c (percentEncode set s)
    rw [htail]
    exact escapeTail_eq_none hexValue_percent _
  rw [if_neg hc]
  rcases s with _ | ⟨d, s⟩
  · rfl
  rw [percentEncode_cons]
  by_cases hd : set d = true
  · rw [if_pos hd]
    obtain ⟨tail, htail⟩ := escape_head d (percentEncode set s)
    rw [htail]
    exact escapeTail_second hexValue_percent _
  · rw [if_neg hd]
    exact h

theorem percentDecode_encode (hset : KeepsEscapes set) (s : List Char) :
    percentDecode (percentEncode set s) = percentDecode s := by
  induction hn : s.length using Nat.strong_induction_on generalizing s with
  | _ n ih =>
    subst hn
    cases s with
    | nil => rfl
    | cons c rest =>
      obtain ⟨h, l, b, rest', rfl, rfl, hb⟩ | ⟨hhead, -⟩ := head_cases c rest
      · have hrest := ih rest'.length (by simp only [List.length_cons]; omega) rest' rfl
        have hh : set h = false := by
          by_contra hne
          rw [escapeTail_eq_none (hset.not_hex (by simpa using hne))] at hb
          cases hb
        have hl : set l = false := by
          by_contra hne
          rw [escapeTail_second (hset.not_hex (by simpa using hne))] at hb
          cases hb
        have hencoded : percentEncode set ('%' :: h :: l :: rest') = '%' :: h :: l :: percentEncode set rest' := by
          simp [percentEncode_cons, hset.percent, hh, hl]
        rw [hencoded, percentDecode_escape hb, percentDecode_escape hb, hrest]
      · have hrest := ih rest.length (by simp) rest rfl
        rw [percentDecode_cons hhead, percentEncode_cons]
        by_cases hc : set c = true
        · rw [if_pos hc, percentDecode_escapes, hrest]
        · rw [if_neg hc, List.singleton_append, percentDecode_cons fun heq => escapeTail_encode (hhead heq), hrest]

end Encode

section Spelling

/-- Which bytes a server spells as they are; it escapes the others. -/
structure Spelling where
  literal : UInt8 → Bool
  ascii : ∀ b, literal b = true → b.toNat < 128
  percent : literal 37 = false

def Spelling.spell (S : Spelling) (bytes : Bytes) : List Char :=
  bytes.flatMap fun b => if S.literal b then [Char.ofNat b.toNat] else escape b

variable (S : Spelling)

theorem utf8EncodeChar_ascii {b : UInt8} (h : b.toNat < 128) : String.utf8EncodeChar (Char.ofNat b.toNat) = [b] := by
  have hall : ∀ n : Fin 128, String.utf8EncodeChar (Char.ofNat n) = [UInt8.ofNat n] := by decide +kernel
  have hb := hall ⟨b.toNat, h⟩
  rwa [UInt8.ofNat_toNat] at hb

theorem Spelling.spell_cons (b : UInt8) (bytes : Bytes) :
    S.spell (b :: bytes) = (if S.literal b then [Char.ofNat b.toNat] else escape b) ++ S.spell bytes := rfl

theorem Spelling.ne_percent {b : UInt8} (h : S.literal b = true) : Char.ofNat b.toNat ≠ '%' := by
  intro heq
  have hbytes := utf8EncodeChar_ascii (S.ascii b h)
  rw [heq] at hbytes
  have hb : b = 37 := by
    have hpercent : String.utf8EncodeChar '%' = [37] := by decide
    rw [hpercent] at hbytes
    exact (List.singleton_inj.mp hbytes).symm
  rw [hb, S.percent] at h
  cases h

theorem Spelling.decode (bytes : Bytes) (rest : List Char) :
    percentDecode (S.spell bytes ++ rest) = bytes ++ percentDecode rest := by
  induction bytes with
  | nil => rfl
  | cons b bytes ih =>
    rw [S.spell_cons, List.append_assoc]
    by_cases hb : S.literal b = true
    · rw [if_pos hb, List.singleton_append, percentDecode_cons fun heq => absurd heq (S.ne_percent hb),
        utf8EncodeChar_ascii (S.ascii b hb), ih]
      rfl
    · rw [if_neg hb]
      have hhead : percentDecode (escape b ++ (S.spell bytes ++ rest)) = b :: percentDecode (S.spell bytes ++ rest) :=
        percentDecode_escape (escapeTail_escape b) _
      rw [hhead, ih, List.cons_append]

theorem wellEscaped_cons {c : Char} (h : c ≠ '%') (rest : List Char) : wellEscaped (c :: rest) = wellEscaped rest := by
  simp [wellEscaped, h]

theorem hexDigit_ne_percent {n : ℕ} (h : n < 16) : hexDigit n ≠ '%' := by
  intro heq
  have hvalue := hexValue_hexDigit h
  rw [heq, hexValue_percent] at hvalue
  cases hvalue

theorem wellEscaped_escape (b : UInt8) (rest : List Char) : wellEscaped (escape b ++ rest) = wellEscaped rest := by
  have hlt := b.toNat_lt
  have htail : escapeTail (hexDigit (b.toNat / 16) :: hexDigit (b.toNat % 16) :: rest) = some b := escapeTail_escape b
  change wellEscaped ('%' :: hexDigit (b.toNat / 16) :: hexDigit (b.toNat % 16) :: rest) = _
  rw [wellEscaped, htail, wellEscaped_cons (hexDigit_ne_percent (by omega)),
    wellEscaped_cons (hexDigit_ne_percent (by omega))]
  rfl

theorem Spelling.wellEscaped (bytes : Bytes) (rest : List Char) :
    wellEscaped (S.spell bytes ++ rest) = wellEscaped rest := by
  induction bytes with
  | nil => rfl
  | cons b bytes ih =>
    rw [S.spell_cons, List.append_assoc]
    by_cases hb : S.literal b = true
    · rw [if_pos hb, List.singleton_append, wellEscaped_cons (S.ne_percent hb), ih]
    · rw [if_neg hb, wellEscaped_escape, ih]

end Spelling

end OpenMigrate.Url
