import OpenMigrate.Url.Lossy
import OpenMigrate.Url.Path

namespace OpenMigrate.Url

section Append

theorem escapeTail_append {a : List Char} (h : (escapeTail a).isSome = true) (b : List Char) :
    escapeTail (a ++ b) = escapeTail a := by
  cases a with
  | nil => cases h
  | cons x a =>
    cases a with
    | nil => cases h
    | cons y rest => rfl

theorem escapeTail_short {rest : List Char} (h : ∀ x y more, rest = x :: y :: more → False) : escapeTail rest = none := by
  cases rest with
  | nil => rfl
  | cons x rest =>
    cases rest with
    | nil => rfl
    | cons y more => exact absurd rfl (h x y more)

theorem wellEscaped_append {a : List Char} (h : wellEscaped a = true) (b : List Char) :
    wellEscaped (a ++ b) = wellEscaped b := by
  induction a with
  | nil => rfl
  | cons c a ih =>
    rw [wellEscaped, Bool.and_eq_true] at h
    obtain ⟨hc, ha⟩ := h
    rw [List.cons_append, wellEscaped, ih ha]
    by_cases hpercent : c = '%'
    · subst hpercent
      have htail : (escapeTail a).isSome = true := by simpa using hc
      rw [escapeTail_append htail, htail, Bool.or_true, Bool.true_and]
    · simp [hpercent]

theorem wellEscaped_tail {c : Char} {a : List Char} (h : wellEscaped (c :: a) = true) : wellEscaped a = true :=
  (Bool.and_eq_true_iff.mp h).2

theorem percentDecode_append {a : List Char} (h : wellEscaped a = true) (b : List Char) :
    percentDecode (a ++ b) = percentDecode a ++ percentDecode b := by
  fun_induction percentDecode a with
  | case1 h' l rest b' hb ih =>
    have hrest : wellEscaped rest = true := wellEscaped_tail (wellEscaped_tail (wellEscaped_tail h))
    change percentDecode ('%' :: h' :: l :: (rest ++ b)) = _
    rw [percentDecode_escape hb, ih hrest, List.cons_append]
  | case2 h' l rest hb ih =>
    rw [wellEscaped, escapeTail_take, hb] at h
    cases h
  | case3 c rest hne ih =>
    have hrest := wellEscaped_tail h
    have hnone : c = '%' → escapeTail rest = none := by
      intro hc
      apply escapeTail_short
      exact fun x y more hrest => hne x y more hc hrest
    have hplain : c = '%' → escapeTail (rest ++ b) = none := by
      intro hc
      rw [wellEscaped, hnone hc, hc] at h
      cases h
    rw [List.cons_append, percentDecode_cons hplain, ih hrest, List.append_assoc]
  | case4 => rfl

theorem decode_nil {s : List Char} (h : percentDecode s = []) : s = [] := by
  cases s with
  | nil => rfl
  | cons c rest =>
    obtain ⟨x, y, b, more, rfl, rfl, hb⟩ | ⟨hhead, -⟩ := head_cases c rest
    · rw [percentDecode_escape hb] at h
      cases h
    · rw [percentDecode_cons hhead] at h
      have hnil := congrArg List.length h
      rw [List.length_append, String.length_utf8EncodeChar] at hnil
      have hpos := c.utf8Size_pos
      simp only [List.length_nil] at hnil
      omega

theorem no_escape {s : List Char} (h : '%' ∉ s) : wellEscaped s = true ∧ percentDecode s = utf8 s := by
  have hplain : wellEscaped s = true ∧ hasEscape s = false := by
    induction s with
    | nil => exact ⟨rfl, rfl⟩
    | cons c s ih =>
      rw [List.mem_cons, not_or] at h
      have hc : c ≠ '%' := fun heq => h.1 heq.symm
      obtain ⟨hwell, hnone⟩ := ih h.2
      rw [wellEscaped_cons hc, hasEscape, hnone]
      exact ⟨hwell, by simp [hc]⟩
  exact ⟨hplain.1, percentDecode_of_plain hplain.2⟩

end Append

section Dots

variable {s : List Char}

theorem encode_dot {c : Char} {more bytes : Bytes} (h : String.utf8EncodeChar c ++ more = 46 :: bytes) :
    c = '.' ∧ more = bytes := by
  have hchar : c.toNat = 46 → c = '.' := fun hn => by rw [← Char.ofNat_toNat c, hn]
  have hbyte : ∀ n, n < 256 → UInt8.ofNat n = 46 → n = 46 := by
    intro n hn heq
    have hvalue := congrArg UInt8.toNat heq
    rwa [UInt8.toNat_ofNat_of_lt' hn] at hvalue
  rw [utf8EncodeChar_eq] at h
  split_ifs at h
  · obtain ⟨hhead, htail⟩ := List.cons.inj h
    exact ⟨hchar (hbyte _ (by omega) hhead), htail⟩
  · have hhead := hbyte _ (by omega) (List.cons.inj h).1
    omega
  · have hhead := hbyte _ (by omega) (List.cons.inj h).1
    omega
  · have hhead := hbyte _ (by omega) (List.cons.inj h).1
    omega

theorem hexValue_cases {c : Char} {n : ℕ} (h : hexValue c = some n) :
    n < 10 ∧ c = Char.ofNat (48 + n) ∨ 10 ≤ n ∧ n < 16 ∧ (c = Char.ofNat (87 + n) ∨ c = Char.ofNat (55 + n)) := by
  have hback : ∀ k, c.toNat = k → c = Char.ofNat k := by
    rintro k rfl
    exact (Char.ofNat_toNat c).symm
  unfold hexValue at h
  split_ifs at h with hdigit hlower hupper
  · obtain rfl := Option.some.inj h
    have hlow : 48 ≤ c.toNat := hdigit.1
    have hhigh : c.toNat ≤ 57 := hdigit.2
    exact .inl ⟨by omega, hback _ (by omega)⟩
  · obtain rfl := Option.some.inj h
    have hlow : 97 ≤ c.toNat := hlower.1
    have hhigh : c.toNat ≤ 102 := hlower.2
    exact .inr ⟨by omega, by omega, .inl (hback _ (by omega))⟩
  · obtain rfl := Option.some.inj h
    have hlow : 65 ≤ c.toNat := hupper.1
    have hhigh : c.toNat ≤ 70 := hupper.2
    exact .inr ⟨by omega, by omega, .inr (hback _ (by omega))⟩

/-- A text that is decoded to a full stop and more begins with one of the spellings of a full stop. -/
theorem decode_dot {bytes : Bytes} (h : percentDecode s = 46 :: bytes) :
    ∃ dot ∈ singleDots, ∃ rest, s = dot ++ rest ∧ percentDecode rest = bytes := by
  cases s with
  | nil => cases h
  | cons c rest =>
    obtain ⟨x, y, b, more, rfl, rfl, hb⟩ | ⟨hhead, -⟩ := head_cases c rest
    · rw [percentDecode_escape hb] at h
      obtain ⟨rfl, hmore⟩ := List.cons.inj h
      have hdot : ['%', x, y] ∈ singleDots := by
        rw [escapeTail] at hb
        cases hx : hexValue x with
        | none => simp [hx] at hb
        | some a =>
          cases hy : hexValue y with
          | none => simp [hx, hy] at hb
          | some d =>
            have hvalue : UInt8.ofNat (16 * a + d) = 46 := by simpa [hx, hy] using hb
            have hax := hexValue_cases hx
            have hdy := hexValue_cases hy
            have hsum : 16 * a + d = 46 := by
              have htoNat := congrArg UInt8.toNat hvalue
              rwa [UInt8.toNat_ofNat_of_lt' (show 16 * a + d < 256 by omega)] at htoNat
            obtain rfl : a = 2 := by omega
            obtain rfl : d = 14 := by omega
            rcases hax with ⟨-, rfl⟩ | ⟨hlow, -⟩
            · rcases hdy with ⟨hlow, -⟩ | ⟨-, -, rfl | rfl⟩
              · omega
              · decide
              · decide
            · omega
      exact ⟨_, hdot, more, rfl, hmore⟩
    · rw [percentDecode_cons hhead] at h
      obtain ⟨rfl, hmore⟩ := encode_dot h
      exact ⟨['.'], by decide, rest, rfl, hmore⟩

def NotDots (s : List Char) : Prop := s ∉ doubleDots ∧ s ∉ singleDots

theorem readPath_notDots {segs : List (List Char)} (hne : segs ≠ []) (h : ∀ s ∈ segs, NotDots s) (path : List (List Char)) :
    readPath path segs = path ++ segs.map (percentEncode pathSet) := by
  obtain ⟨front, last, rfl⟩ := (List.eq_nil_or_concat' segs).resolve_left hne
  have hlast := h last (by simp)
  have hone : ∀ p : List (List Char), readPath p [last] = p ++ [percentEncode pathSet last] := by
    intro p
    rw [readPath, addSegment, if_neg hlast.1, if_neg hlast.2]
  rw [readPath_append (fun s hs => h s (List.mem_append_left _ hs)) (by simp), hone]
  simp

theorem NotDots.nil : NotDots [] := by
  constructor
  · decide
  · decide

/-- The segments that mean a folder by its place are the spellings of one or two full stops. -/
theorem notDots_iff : NotDots s ↔ percentDecode s ≠ utf8 ['.'] ∧ percentDecode s ≠ utf8 ['.', '.'] := by
  have hdouble : ∀ s ∈ doubleDots, percentDecode s = utf8 ['.', '.'] := by decide +kernel
  have hsingle : ∀ s ∈ singleDots, percentDecode s = utf8 ['.'] := by decide +kernel
  have hone : utf8 ['.'] = [46] := by decide
  have htwo : utf8 ['.', '.'] = [46, 46] := by decide
  constructor
  · rintro ⟨hnotDouble, hnotSingle⟩
    constructor
    · intro h
      obtain ⟨dot, hdot, rest, rfl, hrest⟩ := decode_dot (h.trans hone)
      rw [decode_nil hrest, List.append_nil] at hnotSingle
      exact hnotSingle hdot
    · intro h
      obtain ⟨dot, hdot, rest, rfl, hrest⟩ := decode_dot (h.trans htwo)
      obtain ⟨dot', hdot', rest', rfl, hrest'⟩ := decode_dot hrest
      rw [decode_nil hrest', List.append_nil] at hnotDouble
      exact hnotDouble (List.mem_flatMap.mpr ⟨dot, hdot, List.mem_map_of_mem hdot'⟩)
  · rintro ⟨hone, htwo⟩
    exact ⟨fun hs => htwo (hdouble s hs), fun hs => hone (hsingle s hs)⟩

theorem notDots_encode : NotDots (percentEncode pathSet s) ↔ NotDots s := by
  rw [notDots_iff, notDots_iff, percentDecode_encode pathSet_keepsEscapes]

end Dots

end OpenMigrate.Url
