import OpenMigrate.Url.Percent

namespace OpenMigrate.Base64

open Url

/-- The digit of six bits. -/
def digit (n : ℕ) : Char :=
  if n < 26 then Char.ofNat (65 + n)
  else if n < 52 then Char.ofNat (71 + n)
  else if n < 62 then Char.ofNat (n - 4)
  else if n = 62 then '+'
  else '/'

/-- The six bits of a digit of either alphabet. -/
def sextet (c : Char) : Option ℕ :=
  if 65 ≤ c.toNat ∧ c.toNat ≤ 90 then some (c.toNat - 65)
  else if 97 ≤ c.toNat ∧ c.toNat ≤ 122 then some (c.toNat - 71)
  else if 48 ≤ c.toNat ∧ c.toNat ≤ 57 then some (c.toNat + 4)
  else if c = '+' ∨ c = '-' then some 62
  else if c = '/' ∨ c = '_' then some 63
  else none

def sextets : Bytes → List ℕ
  | [] => []
  | [a] => [a.toNat / 4, a.toNat % 4 * 16]
  | [a, b] => [a.toNat / 4, a.toNat % 4 * 16 + b.toNat / 16, b.toNat % 16 * 4]
  | a :: b :: c :: rest =>
    a.toNat / 4 :: (a.toNat % 4 * 16 + b.toNat / 16) :: (b.toNat % 16 * 4 + c.toNat / 64) :: c.toNat % 64 :: sextets rest

def ofSextets : List ℕ → Bytes
  | a :: b :: c :: d :: rest =>
    UInt8.ofNat (a * 4 + b / 16) :: UInt8.ofNat (b % 16 * 16 + c / 4) :: UInt8.ofNat (c % 4 * 64 + d) :: ofSextets rest
  | [a, b, c] => [UInt8.ofNat (a * 4 + b / 16), UInt8.ofNat (b % 16 * 16 + c / 4)]
  | [a, b] => [UInt8.ofNat (a * 4 + b / 16)]
  | _ => []

/-- `Buffer.toString('base64')` -/
def encode (bytes : Bytes) : List Char :=
  (sextets bytes).map digit ++ List.replicate ((3 - bytes.length % 3) % 3) '='

/-- `Buffer.from(text, 'base64')`: it ends at the first padding and passes over what is no digit. -/
def decode (text : List Char) : Bytes := ofSextets ((text.takeWhile (· ≠ '=')).filterMap sextet)

theorem sextet_digit {n : ℕ} (h : n < 64) : sextet (digit n) = some n ∧ digit n ≠ '=' := by
  have hall : ∀ k : Fin 64, sextet (digit k) = some k.1 ∧ digit k ≠ '=' := by decide
  exact hall ⟨n, h⟩

theorem sextets_lt (bytes : Bytes) : ∀ n ∈ sextets bytes, n < 64 := by
  fun_induction sextets bytes with
  | case1 => simp
  | case2 a =>
    have ha := a.toNat_lt
    simp
    omega
  | case3 a b =>
    have ha := a.toNat_lt
    have hb := b.toNat_lt
    simp
    omega
  | case4 a b c rest ih =>
    have ha := a.toNat_lt
    have hb := b.toNat_lt
    have hc := c.toNat_lt
    intro n hn
    simp only [List.mem_cons] at hn
    obtain rfl | rfl | rfl | rfl | hn := hn
    · omega
    · omega
    · omega
    · omega
    · exact ih n hn

theorem ofNat_eq {n : ℕ} {b : UInt8} (h : n = b.toNat) : UInt8.ofNat n = b := by
  rw [h, UInt8.ofNat_toNat]

theorem ofSextets_sextets (bytes : Bytes) : ofSextets (sextets bytes) = bytes := by
  fun_induction sextets bytes with
  | case1 => rfl
  | case2 a =>
    rw [ofSextets, ofNat_eq]
    omega
  | case3 a b =>
    have hb := b.toNat_lt
    rw [ofSextets, ofNat_eq (b := a) (by omega), ofNat_eq (b := b) (by omega)]
  | case4 a b c rest ih =>
    have hb := b.toNat_lt
    have hc := c.toNat_lt
    rw [ofSextets, ih, ofNat_eq (b := a) (by omega), ofNat_eq (b := b) (by omega), ofNat_eq (b := c) (by omega)]

theorem decode_encode (bytes : Bytes) : decode (encode bytes) = bytes := by
  have hdigits : ∀ c ∈ (sextets bytes).map digit, decide (c ≠ '=') = true := by
    intro c hc
    obtain ⟨n, hn, rfl⟩ := List.mem_map.mp hc
    exact decide_eq_true (sextet_digit (sextets_lt bytes n hn)).2
  have hpadding : (List.replicate ((3 - bytes.length % 3) % 3) '=').takeWhile (· ≠ '=') = [] := by
    cases (3 - bytes.length % 3) % 3 <;> rfl
  have hsextets : ((sextets bytes).map digit).filterMap sextet = sextets bytes := by
    rw [List.filterMap_map, List.filterMap_congr (g := some), List.filterMap_some]
    intro n hn
    exact (sextet_digit (sextets_lt bytes n hn)).1
  rw [decode, encode, List.takeWhile_append_of_pos hdigits, hpadding, List.append_nil, hsextets, ofSextets_sextets]

@[simp] theorem encode_nil : encode [] = [] := rfl

theorem encode_eq_nil {bytes : Bytes} : encode bytes = [] ↔ bytes = [] := by
  constructor
  · intro h
    rw [← decode_encode bytes, h]
    rfl
  · rintro rfl
    rfl

end OpenMigrate.Base64
