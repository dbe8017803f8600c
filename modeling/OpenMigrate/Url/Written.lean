import OpenMigrate.Url.Decoding

namespace OpenMigrate.Url

section Segments

variable {s : List Char} {c : Char}

theorem mem_splitOnP {t : List Char} (hs : s ∈ t.splitOnP isSlash) : ∀ c ∈ s, isSlash c = false := by
  induction t generalizing s with
  | nil =>
    obtain rfl := List.mem_singleton.mp hs
    simp
  | cons d t ih =>
    by_cases hd : isSlash d = true
    · rw [splitOnP_cons_slash hd] at hs
      obtain rfl | hs := List.mem_cons.mp hs
      · simp
      · exact ih hs
    · rw [Bool.not_eq_true] at hd
      obtain ⟨first, rest, hsplit, hcons⟩ := splitOnP_cons_other hd t
      rw [hcons] at hs
      rw [hsplit] at ih
      obtain rfl | hs := List.mem_cons.mp hs
      · exact List.forall_mem_cons.mpr ⟨hd, ih List.mem_cons_self⟩
      · exact ih (List.mem_cons_of_mem first hs)

theorem mem_escape {b : UInt8} (h : c ∈ escape b) : pathSet c = false ∧ isSlash c = false := by
  have hdigit : ∀ k : Fin 16, pathSet (hexDigit k) = false ∧ isSlash (hexDigit k) = false := by decide
  have hlt := b.toNat_lt
  have hhigh : b.toNat / 16 < 16 := by omega
  have hlow : b.toNat % 16 < 16 := by omega
  obtain rfl | rfl | rfl : c = '%' ∨ c = hexDigit (b.toNat / 16) ∨ c = hexDigit (b.toNat % 16) := by
    simpa [escape] using h
  · decide
  · exact hdigit ⟨_, hhigh⟩
  · exact hdigit ⟨_, hlow⟩

theorem mem_encode (h : c ∈ percentEncode pathSet s) : (∃ b, c ∈ escape b) ∨ c ∈ s ∧ pathSet c = false := by
  obtain ⟨d, hd, hc⟩ := List.mem_flatMap.mp h
  split at hc
  · obtain ⟨b, -, hb⟩ := List.mem_flatMap.mp hc
    exact .inl ⟨b, hb⟩
  · rename_i hkept
    rw [List.mem_singleton.mp hc]
    exact .inr ⟨hd, by simpa using hkept⟩

end Segments

section Path

variable {s : List Char} {path ss : List (List Char)}

theorem mem_addSegment {t : List Char} {last : Bool} (h : s ∈ addSegment last path t) :
    s ∈ path ∨ s = [] ∨ NotDots t ∧ s = percentEncode pathSet t := by
  have hdropped : s ∈ path.dropLast → s ∈ path := fun hs => List.dropLast_subset path hs
  unfold addSegment at h
  split at h
  · split at h
    · obtain hs | hs := List.mem_append.mp h
      · exact .inl (hdropped hs)
      · exact .inr (.inl (List.mem_singleton.mp hs))
    · exact .inl (hdropped h)
  · rename_i hdouble
    split at h
    · split at h
      · obtain hs | hs := List.mem_append.mp h
        · exact .inl hs
        · exact .inr (.inl (List.mem_singleton.mp hs))
      · exact .inl h
    · rename_i hsingle
      obtain hs | hs := List.mem_append.mp h
      · exact .inl hs
      · exact .inr (.inr ⟨⟨hdouble, hsingle⟩, List.mem_singleton.mp hs⟩)

theorem mem_readPath (h : s ∈ readPath path ss) :
    s ∈ path ∨ s = [] ∨ ∃ t ∈ ss, NotDots t ∧ s = percentEncode pathSet t := by
  induction path, ss using readPath.induct with
  | case1 path => exact .inl h
  | case2 path t =>
    refine (mem_addSegment h).imp_right (Or.imp_right ?_)
    rintro ⟨hdots, hs⟩
    exact ⟨t, List.mem_cons_self, hdots, hs⟩
  | case3 path t t' rest ih =>
    obtain hs | hs | ⟨u, hu, hread⟩ := ih h
    · refine (mem_addSegment hs).imp_right (Or.imp_right ?_)
      rintro ⟨hdots, hs⟩
      exact ⟨t, List.mem_cons_self, hdots, hs⟩
    · exact .inr (.inl hs)
    · exact .inr (.inr ⟨u, List.mem_cons_of_mem t hu, hread⟩)

/-- A segment of a path as the parser writes it. -/
structure IsWritten (s : List Char) : Prop where
  plain : ∀ c ∈ s, pathSet c = false ∧ isSlash c = false
  notDots : NotDots s

theorem written_nil : IsWritten [] := ⟨by simp, .nil⟩

theorem pathOf_written {url : List Char} (h : s ∈ pathOf url) : IsWritten s := by
  have hread : ∀ t : List Char, s ∈ readPath [] (t.splitOnP isSlash) → IsWritten s := by
    intro t ht
    obtain hs | rfl | ⟨u, hu, hdots, rfl⟩ := mem_readPath ht
    · cases hs
    · exact written_nil
    · constructor
      · intro c hc
        obtain ⟨b, hb⟩ | ⟨hmem, hkept⟩ := mem_encode hc
        · exact mem_escape hb
        · exact ⟨hkept, mem_splitOnP hu c hmem⟩
      · exact notDots_encode.mpr hdots
  rw [pathOf] at h
  split at h
  · exact hread [] h
  · exact hread _ h

theorem addSegment_spanned (last : Bool) (path : List (List Char)) (hs : percentEncode pathSet s = s) :
    spanned (addSegment last path s) ≤ spanned path + (1 + size s) ∧
      (spanned (addSegment last path s) = spanned path + (1 + size s) → NotDots s) := by
  have happend : ∀ p q : List (List Char), spanned (p ++ q) = spanned p + spanned q := by
    intro p q
    simp [spanned]
  have hdrop : spanned path.dropLast ≤ spanned path := by
    rcases List.eq_nil_or_concat' path with rfl | ⟨front, t, rfl⟩
    · exact le_rfl
    · rw [List.dropLast_concat, happend]
      exact Nat.le_add_right _ _
  have hempty : spanned [[]] = 1 := rfl
  have hone : spanned [s] = 1 + size s := by simp [spanned]
  have hsingle : ∀ t ∈ singleDots, 0 < size t := by decide +kernel
  have hdouble : ∀ t ∈ doubleDots, 0 < size t := by decide +kernel
  unfold addSegment
  by_cases hd : s ∈ doubleDots
  · have hpos := hdouble s hd
    cases last <;> simp only [if_pos hd, if_true, if_false, Bool.false_eq_true, happend] <;>
      exact ⟨by omega, fun h => by omega⟩
  by_cases hsd : s ∈ singleDots
  · have hpos := hsingle s hsd
    cases last <;> simp only [if_neg hd, if_pos hsd, if_true, if_false, Bool.false_eq_true, happend] <;>
      exact ⟨by omega, fun h => by omega⟩
  · rw [if_neg hd, if_neg hsd, happend, hs, hone]
    exact ⟨le_rfl, fun _ => ⟨hd, hsd⟩⟩

/-- Reading segments that are not encoded makes a path no longer than they are, and shorter where one of them is
dots. -/
theorem readPath_spanned (path : List (List Char)) (hss : ∀ s ∈ ss, percentEncode pathSet s = s) :
    spanned (readPath path ss) ≤ spanned path + spanned ss ∧
      (spanned (readPath path ss) = spanned path + spanned ss → ∀ s ∈ ss, NotDots s) := by
  induction path, ss using readPath.induct with
  | case1 path => simp [readPath, spanned]
  | case2 path s =>
    obtain ⟨hle, heq⟩ := addSegment_spanned true path (hss s List.mem_cons_self)
    have hone : spanned [s] = 1 + size s := by simp [spanned]
    rw [readPath, hone]
    refine ⟨hle, fun h => ?_⟩
    simpa using heq h
  | case3 path s s' rest ih =>
    obtain ⟨hle, heq⟩ := ih fun t ht => hss t (List.mem_cons_of_mem s ht)
    obtain ⟨hsle, hseq⟩ := addSegment_spanned false path (hss s List.mem_cons_self)
    rw [readPath, spanned_cons]
    refine ⟨by omega, fun h => ?_⟩
    rw [List.forall_mem_cons]
    exact ⟨hseq (by omega), heq (by omega)⟩

end Path

end OpenMigrate.Url
