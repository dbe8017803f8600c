import OpenMigrate.Url.Percent

namespace OpenMigrate.Url

/-- In a URL of a special scheme a backslash is read as a slash. -/
def isSlash (c : Char) : Bool := c == '/' || c == '\\'

def endsPath (c : Char) : Bool := c == '?' || c == '#'

def isSpace (c : Char) : Bool := c.toNat ≤ 32

def isTabOrNewline (c : Char) : Bool := c == '\t' || c == '\n' || c == '\r'

/-- The path percent-encode set; 96 is the grave accent. -/
def pathSet (c : Char) : Bool :=
  isSpace c || 126 < c.toNat || c == Char.ofNat 96 || ['"', '#', '<', '>', '?', '^', '{', '}'].contains c

def singleDots : List (List Char) := [".", "%2e", "%2E"].map String.toList

def doubleDots : List (List Char) := singleDots.flatMap fun a => singleDots.map (a ++ ·)

/-- What one segment does to the path read so far. A dot segment is one of plain characters and escapes, which
encoding leaves as they are. -/
def addSegment (last : Bool) (path : List (List Char)) (s : List Char) : List (List Char) :=
  if s ∈ doubleDots then if last then path.dropLast ++ [[]] else path.dropLast
  else if s ∈ singleDots then if last then path ++ [[]] else path
  else path ++ [percentEncode pathSet s]

def readPath : List (List Char) → List (List Char) → List (List Char)
  | path, [] => path
  | path, [s] => addSegment true path s
  | path, s :: s' :: rest => readPath (addSegment false path s) (s' :: rest)

/-- A URL as the parser takes it up: no space around it, no tab or newline in it. -/
def clean (url : List Char) : List Char :=
  (((url.dropWhile isSpace).reverse.dropWhile isSpace).reverse).filter fun c => !isTabOrNewline c

/-- What follows the scheme and the authority of a URL of a special scheme. -/
def afterAuthority (url : List Char) : List Char :=
  (((url.dropWhile (· != ':')).drop 1).dropWhile isSlash).dropWhile fun c => !(isSlash c || endsPath c)

def pathOf (url : List Char) : List (List Char) :=
  match (afterAuthority (clean url)).takeWhile fun c => !endsPath c with
  | [] => readPath [] [[]]
  | c :: rest => readPath [] ((if isSlash c then rest else c :: rest).splitOnP isSlash)

def slashed (path : List (List Char)) : List Char := path.flatMap ('/' :: ·)

theorem slashed_cons (s : List Char) (path : List (List Char)) : slashed (s :: path) = '/' :: (s ++ slashed path) := rfl

/-- `new URL(url).pathname` -/
def pathname (url : List Char) : List Char := slashed (pathOf url)

example : pathname "https://host/a b/./c%2E/%2e%2E/d\\e?f".toList = "/a%20b/d/e".toList := by decide +kernel

theorem hexValue_bounds {c : Char} (h : (hexValue c).isSome) :
    (48 ≤ c.toNat ∧ c.toNat ≤ 57) ∨ (65 ≤ c.toNat ∧ c.toNat ≤ 70) ∨ (97 ≤ c.toNat ∧ c.toNat ≤ 102) := by
  unfold hexValue at h
  split at h
  · rename_i hdigit
    exact .inl hdigit
  split at h
  · rename_i hlower
    exact .inr (.inr hlower)
  split at h
  · rename_i hupper
    exact .inr (.inl hupper)
  · cases h

theorem pathSet_keepsEscapes : KeepsEscapes pathSet where
  percent := by decide
  hex c hc := by
    have hbounds := hexValue_bounds hc
    have hne : ∀ d : Char, d.toNat < 48 ∨ (57 < d.toNat ∧ d.toNat < 65) ∨ (70 < d.toNat ∧ d.toNat < 97) ∨
        102 < d.toNat → c ≠ d := by
      rintro d hd rfl
      omega
    have hgrave : c ≠ Char.ofNat 96 := hne _ (by decide)
    have hlist : ∀ d ∈ ['"', '#', '<', '>', '?', '^', '{', '}'], c ≠ d := by
      intro d hd
      apply hne
      simp only [List.mem_cons, List.not_mem_nil, or_false] at hd
      obtain rfl | rfl | rfl | rfl | rfl | rfl | rfl | rfl := hd <;> decide
    simp only [pathSet, isSpace, Bool.or_eq_false_iff, decide_eq_false_iff_not, beq_eq_false_iff_ne, ne_eq]
    refine ⟨⟨⟨by omega, by omega⟩, hgrave⟩, ?_⟩
    rw [← Bool.not_eq_true, List.contains_iff_mem]
    exact fun hmem => hlist c hmem rfl

section Split

theorem splitOnP_cons_slash {c : Char} (h : isSlash c = true) (t : List Char) :
    (c :: t).splitOnP isSlash = [] :: t.splitOnP isSlash := by
  rw [List.splitOnP_cons_eq_if_modifyHead, if_pos h]

theorem splitOnP_cons_other {c : Char} (h : isSlash c = false) (t : List Char) :
    ∃ s rest, t.splitOnP isSlash = s :: rest ∧ (c :: t).splitOnP isSlash = (c :: s) :: rest := by
  cases hsplit : t.splitOnP isSlash with
  | nil => exact absurd hsplit (List.splitOnP_ne_nil _ _)
  | cons s rest =>
    refine ⟨s, rest, rfl, ?_⟩
    rw [List.splitOnP_cons_eq_if_modifyHead, h, hsplit]
    rfl

theorem isSlash_size {c : Char} (h : isSlash c = true) : c.utf8Size = 1 := by
  obtain rfl | rfl : c = '/' ∨ c = '\\' := by simpa [isSlash] using h
  · rfl
  · rfl

/-- The bytes of some segments and of the slash before each. -/
def spanned (path : List (List Char)) : ℕ := (path.map fun s => 1 + size s).sum

theorem spanned_cons (s : List Char) (path : List (List Char)) : spanned (s :: path) = 1 + size s + spanned path := by
  simp [spanned]

theorem spanned_split (t : List Char) : spanned (t.splitOnP isSlash) = 1 + size t := by
  induction t with
  | nil => rfl
  | cons c t ih =>
    by_cases hc : isSlash c = true
    · rw [splitOnP_cons_slash hc, spanned_cons, ih, size_cons, isSlash_size hc, size_nil]
    · obtain ⟨s, rest, hsplit, hcons⟩ := splitOnP_cons_other (by simpa using hc) t
      rw [hsplit, spanned_cons] at ih
      rw [hcons, spanned_cons, size_cons, size_cons]
      omega

/-- Every slash a forward one. -/
def slashes (t : List Char) : List Char := t.map fun c => if isSlash c then '/' else c

theorem slashed_split (t : List Char) : slashed (t.splitOnP isSlash) = '/' :: slashes t := by
  induction t with
  | nil => rfl
  | cons c t ih =>
    by_cases hc : isSlash c = true
    · rw [splitOnP_cons_slash hc, slashed_cons, ih]
      simp [slashes, hc]
    · obtain ⟨s, rest, hsplit, hcons⟩ := splitOnP_cons_other (by simpa using hc) t
      rw [hsplit, slashed_cons, List.cons.injEq] at ih
      rw [hcons, slashed_cons, List.cons_append, ih.2]
      simp [slashes, hc]

theorem size_slashed (path : List (List Char)) : size (slashed path) = spanned path := by
  induction path with
  | nil => rfl
  | cons s path ih =>
    rw [slashed_cons, size_cons, size_append, ih, spanned_cons]
    exact (Nat.add_assoc _ _ _).symm

theorem size_slashes (t : List Char) : size (slashes t) = size t := by
  have hsplit := spanned_split t
  rw [← size_slashed, slashed_split, size_cons] at hsplit
  exact Nat.add_left_cancel hsplit

theorem slashes_eq {t : List Char} (h : '\\' ∉ t) : slashes t = t := by
  have hid : ∀ c ∈ t, (if isSlash c then '/' else c) = id c := by
    intro c hc
    by_cases hslash : isSlash c = true
    · obtain rfl | rfl : c = '/' ∨ c = '\\' := by simpa [isSlash] using hslash
      · rfl
      · exact absurd hc h
    · rw [if_neg hslash, id]
  rw [slashes, List.map_congr_left hid, List.map_id]

theorem not_mem_slashes (t : List Char) : '\\' ∉ slashes t := by
  intro h
  obtain ⟨c, -, hc⟩ := List.mem_map.mp h
  by_cases hslash : isSlash c = true
  · rw [if_pos hslash] at hc
    cases hc
  · rw [if_neg hslash] at hc
    rw [hc] at hslash
    exact hslash rfl

theorem escapeTail_split {t s : List Char} {rest : List (List Char)} (h : t.splitOnP isSlash = s :: rest) :
    escapeTail t = escapeTail s := by
  have hhex : ∀ c, isSlash c = true → hexValue c = none := by
    intro c hc
    obtain rfl | rfl : c = '/' ∨ c = '\\' := by simpa [isSlash] using hc
    · decide
    · decide
  rcases t with _ | ⟨a, t⟩
  · cases h
    rfl
  by_cases ha : isSlash a = true
  · rw [splitOnP_cons_slash ha] at h
    cases h
    exact escapeTail_eq_none (hhex a ha) t
  obtain ⟨s', rest', hsplit, hcons⟩ := splitOnP_cons_other (by simpa using ha) t
  rw [hcons] at h
  cases h
  rcases t with _ | ⟨b, t⟩
  · cases hsplit
    rfl
  by_cases hb : isSlash b = true
  · rw [splitOnP_cons_slash hb] at hsplit
    cases hsplit
    exact escapeTail_second (hhex b hb) t
  · obtain ⟨s'', rest'', -, hcons'⟩ := splitOnP_cons_other (by simpa using hb) t
    rw [hcons'] at hsplit
    cases hsplit
    rfl

/-- No escape runs across a slash. -/
theorem hasEscape_split (t : List Char) : hasEscape t = false ↔ ∀ s ∈ t.splitOnP isSlash, hasEscape s = false := by
  induction t with
  | nil => simp [hasEscape]
  | cons c t ih =>
    by_cases hc : isSlash c = true
    · have hne : c ≠ '%' := by
        rintro rfl
        cases hc
      rw [splitOnP_cons_slash hc, List.forall_mem_cons, ← ih]
      simp [hasEscape, hne]
    · obtain ⟨s, rest, hsplit, hcons⟩ := splitOnP_cons_other (by simpa using hc) t
      rw [hsplit, List.forall_mem_cons] at ih
      rw [hcons, List.forall_mem_cons, hasEscape, hasEscape, Bool.or_eq_false_iff, Bool.or_eq_false_iff, ih,
        escapeTail_split hsplit, and_assoc]

end Split

section Read

/-- The bytes of what some segments decode to and of the slash before each. -/
def decodedSize (path : List (List Char)) : ℕ := (path.map fun s => 1 + (percentDecode s).length).sum

theorem decodedSize_append (p q : List (List Char)) : decodedSize (p ++ q) = decodedSize p + decodedSize q := by
  simp [decodedSize]

theorem decodedSize_dropLast (p : List (List Char)) : decodedSize p.dropLast ≤ decodedSize p := by
  rcases List.eq_nil_or_concat p with rfl | ⟨q, s, rfl⟩
  · exact le_rfl
  · rw [List.concat_eq_append, List.dropLast_concat, decodedSize_append]
    exact Nat.le_add_right _ _

theorem decodedSize_le (p : List (List Char)) : decodedSize p ≤ spanned p ∧
    (decodedSize p = spanned p → ∀ s ∈ p, hasEscape s = false) := by
  induction p with
  | nil => simp [decodedSize, spanned]
  | cons s p ih =>
    obtain ⟨hle, heq⟩ := ih
    obtain ⟨hsle, hseq⟩ := percentDecode_length s
    have hcons : decodedSize (s :: p) = 1 + (percentDecode s).length + decodedSize p := by simp [decodedSize]
    rw [hcons, spanned_cons]
    refine ⟨by omega, fun h => ?_⟩
    rw [List.forall_mem_cons]
    exact ⟨hseq (by omega), heq (by omega)⟩

/-- A segment that is read as it stands. -/
structure Straight (s : List Char) : Prop where
  notDouble : s ∉ doubleDots
  notSingle : s ∉ singleDots
  plain : hasEscape s = false

theorem addSegment_straight {s : List Char} (h : Straight s) (last : Bool) (path : List (List Char)) :
    addSegment last path s = path ++ [percentEncode pathSet s] := by
  rw [addSegment, if_neg h.notDouble, if_neg h.notSingle]

theorem addSegment_size (last : Bool) (path : List (List Char)) (s : List Char) :
    decodedSize (addSegment last path s) ≤ decodedSize path + (1 + size s) ∧
      (decodedSize (addSegment last path s) = decodedSize path + (1 + size s) → Straight s) := by
  have hdrop := decodedSize_dropLast path
  have hempty : decodedSize [[]] = 1 := rfl
  have hsingle : ∀ s ∈ singleDots, 0 < size s := by decide +kernel
  have hdouble : ∀ s ∈ doubleDots, 0 < size s := by decide +kernel
  unfold addSegment
  by_cases hd : s ∈ doubleDots
  · have hpos := hdouble s hd
    cases last <;> simp only [if_pos hd, if_true, if_false, Bool.false_eq_true, decodedSize_append] <;>
      exact ⟨by omega, fun h => by omega⟩
  by_cases hs : s ∈ singleDots
  · have hpos := hsingle s hs
    cases last <;> simp only [if_neg hd, if_pos hs, if_true, if_false, Bool.false_eq_true, decodedSize_append] <;>
      exact ⟨by omega, fun h => by omega⟩
  · obtain ⟨hle, heq⟩ := percentDecode_length s
    have hone : decodedSize [percentEncode pathSet s] = 1 + (percentDecode s).length := by
      simp [decodedSize, percentDecode_encode pathSet_keepsEscapes]
    rw [if_neg hd, if_neg hs, decodedSize_append, hone]
    exact ⟨by omega, fun h => ⟨hd, hs, heq (by omega)⟩⟩

theorem readPath_size (path ss : List (List Char)) :
    decodedSize (readPath path ss) ≤ decodedSize path + spanned ss ∧
      (decodedSize (readPath path ss) = decodedSize path + spanned ss → ∀ s ∈ ss, Straight s) := by
  induction path, ss using readPath.induct with
  | case1 path => simp [readPath, spanned]
  | case2 path s =>
    obtain ⟨hle, heq⟩ := addSegment_size true path s
    have hone : spanned [s] = 1 + size s := by simp [spanned]
    rw [readPath, hone]
    refine ⟨hle, fun h => ?_⟩
    simpa using heq h
  | case3 path s s' rest ih =>
    obtain ⟨hle, heq⟩ := ih
    obtain ⟨hsle, hseq⟩ := addSegment_size false path s
    rw [readPath, spanned_cons]
    refine ⟨by omega, fun h => ?_⟩
    rw [List.forall_mem_cons]
    exact ⟨hseq (by omega), heq (by omega)⟩

theorem readPath_straight {ss : List (List Char)} (h : ∀ s ∈ ss, Straight s) (path : List (List Char)) :
    readPath path ss = path ++ ss.map (percentEncode pathSet) := by
  induction path, ss using readPath.induct with
  | case1 path => simp [readPath]
  | case2 path s => simp [readPath, addSegment_straight (h s List.mem_cons_self)]
  | case3 path s s' rest ih =>
    rw [readPath, ih fun x hx => h x (List.mem_cons_of_mem s hx), addSegment_straight (h s List.mem_cons_self)]
    simp

theorem readPath_append {base ss : List (List Char)} (hbase : ∀ s ∈ base, s ∉ doubleDots ∧ s ∉ singleDots)
    (hss : ss ≠ []) (path : List (List Char)) :
    readPath path (base ++ ss) = readPath (path ++ base.map (percentEncode pathSet)) ss := by
  induction base generalizing path with
  | nil => simp
  | cons s base ih =>
    obtain ⟨hd, hs⟩ := hbase s List.mem_cons_self
    cases hrest : base ++ ss with
    | nil => exact absurd (List.append_eq_nil_iff.mp hrest).2 hss
    | cons s' rest =>
      have hih := ih (fun x hx => hbase x (List.mem_cons_of_mem s hx)) (path ++ [percentEncode pathSet s])
      rw [List.cons_append, hrest, readPath, addSegment, if_neg hd, if_neg hs, ← hrest, hih]
      simp

end Read

end OpenMigrate.Url
