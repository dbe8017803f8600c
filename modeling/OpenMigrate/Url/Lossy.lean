import OpenMigrate.Url.Percent

namespace OpenMigrate.Url

/-- A character of several bytes, as far as it was read: what it may go on with, and how often. -/
structure Unfinished where
  codePoint : ℕ
  needed : ℕ
  lower : ℕ := 0x80
  upper : ℕ := 0xBF

def replacement : Char := Char.ofNat 0xFFFD

def byteOrderMark : Char := Char.ofNat 0xFEFF

/-- A byte between characters: a character of its own, the lead of one, or neither. -/
def leadByte (n : ℕ) : List Char × Option Unfinished :=
  if n ≤ 0x7F then ([Char.ofNat n], none)
  else if 0xC2 ≤ n ∧ n ≤ 0xDF then ([], some { codePoint := n % 32, needed := 1 })
  else if 0xE0 ≤ n ∧ n ≤ 0xEF then
    ([], some ⟨n % 16, 2, if n = 0xE0 then 0xA0 else 0x80, if n = 0xED then 0x9F else 0xBF⟩)
  else if 0xF0 ≤ n ∧ n ≤ 0xF4 then
    ([], some ⟨n % 8, 3, if n = 0xF0 then 0x90 else 0x80, if n = 0xF4 then 0x8F else 0xBF⟩)
  else ([replacement], none)

/-- The UTF-8 decoder of the platform: a character that breaks off becomes one replacement character, and the byte
that broke it is read anew. -/
def lossyDecode : Option Unfinished → Bytes → List Char
  | none, [] => []
  | some _, [] => [replacement]
  | none, b :: rest => (leadByte b.toNat).1 ++ lossyDecode (leadByte b.toNat).2 rest
  | some p, b :: rest =>
    if p.lower ≤ b.toNat ∧ b.toNat ≤ p.upper then
      if p.needed = 1 then Char.ofNat (p.codePoint * 64 + b.toNat % 64) :: lossyDecode none rest
      else lossyDecode (some { codePoint := p.codePoint * 64 + b.toNat % 64, needed := p.needed - 1 }) rest
    else replacement :: ((leadByte b.toNat).1 ++ lossyDecode (leadByte b.toNat).2 rest)

/-- `response.text()`: a byte order mark in front is dropped. -/
def responseText (bytes : Bytes) : List Char :=
  if (utf8 [byteOrderMark]).isPrefixOf bytes then lossyDecode none (bytes.drop (utf8 [byteOrderMark]).length)
  else lossyDecode none bytes

variable {n : ℕ} {rest : Bytes} {bytes : Bytes}

theorem lossy_lead (hn : n < 256) (rest : Bytes) : lossyDecode none (UInt8.ofNat n :: rest) =
    (leadByte n).1 ++ lossyDecode (leadByte n).2 rest := by
  rw [lossyDecode, UInt8.toNat_ofNat_of_lt' hn]

theorem lossy_next {codePoint needed lower upper : ℕ} (hn : n < 64) (hlower : lower ≤ n + 0x80)
    (hupper : n + 0x80 ≤ upper) (rest : Bytes) :
    lossyDecode (some ⟨codePoint, needed, lower, upper⟩) (UInt8.ofNat (n + 0x80) :: rest) =
      if needed = 1 then Char.ofNat (codePoint * 64 + n) :: lossyDecode none rest
      else lossyDecode (some ⟨codePoint * 64 + n, needed - 1, 0x80, 0xBF⟩) rest := by
  have hbyte : (UInt8.ofNat (n + 0x80)).toNat = n + 0x80 := UInt8.toNat_ofNat_of_lt' (show n + 0x80 < 256 by omega)
  have hvalue : (n + 0x80) % 64 = n := by omega
  rw [lossyDecode, hbyte, if_pos ⟨hlower, hupper⟩, hvalue]

theorem lossy_more {codePoint needed lower upper : ℕ} (hn : n < 64) (hlower : lower ≤ n + 0x80)
    (hupper : n + 0x80 ≤ upper) (rest : Bytes) :
    lossyDecode (some ⟨codePoint, needed + 2, lower, upper⟩) (UInt8.ofNat (n + 0x80) :: rest) =
      lossyDecode (some ⟨codePoint * 64 + n, needed + 1, 0x80, 0xBF⟩) rest := by
  rw [lossy_next hn hlower hupper]
  exact if_neg (by omega)

theorem lossy_last {codePoint lower upper : ℕ} (hn : n < 64) (hlower : lower ≤ n + 0x80)
    (hupper : n + 0x80 ≤ upper) (rest : Bytes) :
    lossyDecode (some ⟨codePoint, 1, lower, upper⟩) (UInt8.ofNat (n + 0x80) :: rest) =
      Char.ofNat (codePoint * 64 + n) :: lossyDecode none rest := by
  rw [lossy_next hn hlower hupper]
  exact if_pos rfl

theorem utf8EncodeChar_eq (c : Char) : String.utf8EncodeChar c =
    if c.toNat ≤ 0x7F then [UInt8.ofNat c.toNat]
    else if c.toNat ≤ 0x7FF then [UInt8.ofNat (c.toNat / 64 % 32 + 0xC0), UInt8.ofNat (c.toNat % 64 + 0x80)]
    else if c.toNat ≤ 0xFFFF then
      [UInt8.ofNat (c.toNat / 4096 % 16 + 0xE0), UInt8.ofNat (c.toNat / 64 % 64 + 0x80),
        UInt8.ofNat (c.toNat % 64 + 0x80)]
    else
      [UInt8.ofNat (c.toNat / 262144 % 8 + 0xF0), UInt8.ofNat (c.toNat / 4096 % 64 + 0x80),
        UInt8.ofNat (c.toNat / 64 % 64 + 0x80), UInt8.ofNat (c.toNat % 64 + 0x80)] := rfl

theorem lossy_char (c : Char) (rest : Bytes) : lossyDecode none (String.utf8EncodeChar c ++ rest) = c :: lossyDecode none rest := by
  have hc : Char.ofNat c.toNat = c := Char.ofNat_toNat c
  have hvalid : c.toNat < 0xD800 ∨ 0xDFFF < c.toNat ∧ c.toNat < 0x110000 := c.valid
  rw [utf8EncodeChar_eq]
  generalize c.toNat = n at hc hvalid
  split
  · rename_i hone
    rw [List.singleton_append, lossy_lead (by omega), leadByte, if_pos hone, hc]
    rfl
  · split
    · rename_i htwo
      have hlead : leadByte (n / 64 % 32 + 0xC0) = ([], some ⟨n / 64, 1, 0x80, 0xBF⟩) := by
        rw [leadByte, if_neg (by omega), if_pos (by omega)]
        have hvalue : (n / 64 % 32 + 0xC0) % 32 = n / 64 := by omega
        rw [hvalue]
      have hvalue : n / 64 * 64 + n % 64 = n := by omega
      rw [List.cons_append, List.singleton_append, lossy_lead (by omega), hlead, List.nil_append,
        lossy_last (by omega) (by omega) (by omega), hvalue, hc]
    · split
      · rename_i hthree
        have hlead : leadByte (n / 4096 % 16 + 0xE0) = ([], some ⟨n / 4096, 2,
            if n / 4096 % 16 + 0xE0 = 0xE0 then 0xA0 else 0x80, if n / 4096 % 16 + 0xE0 = 0xED then 0x9F else 0xBF⟩) := by
          rw [leadByte, if_neg (by omega), if_neg (by omega), if_pos (by omega)]
          have hvalue : (n / 4096 % 16 + 0xE0) % 16 = n / 4096 := by omega
          rw [hvalue]
        have hvalue : (n / 4096 * 64 + n / 64 % 64) * 64 + n % 64 = n := by omega
        rw [List.cons_append, List.cons_append, List.singleton_append, lossy_lead (by omega), hlead, List.nil_append]
        rw [lossy_more (by omega) (by split <;> omega) (by split <;> omega),
          lossy_last (by omega) (by omega) (by omega), hvalue, hc]
      · have hlead : leadByte (n / 262144 % 8 + 0xF0) = ([], some ⟨n / 262144, 3,
            if n / 262144 % 8 + 0xF0 = 0xF0 then 0x90 else 0x80, if n / 262144 % 8 + 0xF0 = 0xF4 then 0x8F else 0xBF⟩) := by
          rw [leadByte, if_neg (by omega), if_neg (by omega), if_neg (by omega), if_pos (by omega)]
          have hvalue : (n / 262144 % 8 + 0xF0) % 8 = n / 262144 := by omega
          rw [hvalue]
        have hvalue : ((n / 262144 * 64 + n / 4096 % 64) * 64 + n / 64 % 64) * 64 + n % 64 = n := by omega
        rw [List.cons_append, List.cons_append, List.cons_append, List.singleton_append, lossy_lead (by omega), hlead,
          List.nil_append]
        rw [lossy_more (by omega) (by split <;> omega) (by split <;> omega),
          lossy_more (by omega) (by omega) (by omega), lossy_last (by omega) (by omega) (by omega), hvalue, hc]

theorem lossy_utf8 (s : List Char) : lossyDecode none (utf8 s) = s := by
  induction s with
  | nil => rfl
  | cons c s ih => rw [utf8_cons, lossy_char, ih]

theorem utf8_singleton (c : Char) : utf8 [c] = String.utf8EncodeChar c := by
  rw [utf8_cons]
  exact List.append_nil _

theorem lossy_ne_marked (rest : Bytes) : utf8 (lossyDecode none rest) ≠ utf8 [byteOrderMark] ++ rest := by
  intro h
  rw [utf8_singleton] at h
  obtain ⟨m, hm, hrest⟩ := utf8_eq_cons h
  rw [← hrest, lossy_utf8] at hm
  have hlength := congrArg List.length hm
  rw [List.length_cons] at hlength
  omega

/-- Text that is encoded again is the bytes it was read from exactly where these are UTF-8 without a mark in front. -/
theorem utf8_responseText_iff (bytes : Bytes) :
    utf8 (responseText bytes) = bytes ↔ ∃ s, utf8 s = bytes ∧ s.head? ≠ some byteOrderMark := by
  rw [responseText]
  split
  · rename_i hmark
    obtain ⟨rest, rfl⟩ := List.isPrefixOf_iff_prefix.mp hmark
    rw [List.drop_left]
    constructor
    · intro h
      exact absurd h (lossy_ne_marked rest)
    · rintro ⟨s, hs, hhead⟩
      rw [utf8_singleton] at hs
      obtain ⟨m, rfl, -⟩ := utf8_eq_cons hs
      exact absurd rfl hhead
  · rename_i hmark
    constructor
    · intro h
      refine ⟨_, h, ?_⟩
      intro hhead
      apply hmark
      obtain ⟨m, hm⟩ := List.head?_eq_some_iff.mp hhead
      rw [hm, utf8_cons, ← utf8_singleton] at h
      rw [← h]
      exact List.isPrefixOf_iff_prefix.mpr (List.prefix_append _ _)
    · rintro ⟨s, rfl, -⟩
      rw [lossy_utf8]

end OpenMigrate.Url
