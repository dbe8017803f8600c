import Mathlib.Data.List.TakeWhile
import Mathlib.Data.Nat.Notation

namespace OpenMigrate

def lower (s : List Char) : List Char := s.map Char.toLower

/-- The white space and line ends that `trim` and a pattern's `\s` mean. -/
def whiteSpace (c : Char) : Bool :=
  [0x9, 0xA, 0xB, 0xC, 0xD, 0x20, 0xA0, 0x1680, 0x2028, 0x2029, 0x202F, 0x205F, 0x3000, 0xFEFF].contains c.toNat ||
    0x2000 ≤ c.toNat && c.toNat ≤ 0x200A

def trimStart (s : List Char) : List Char := s.dropWhile whiteSpace

def trim (s : List Char) : List Char := (trimStart (trimStart s).reverse).reverse

theorem trim_eq_nil {s : List Char} : trim s = [] ↔ ∀ c ∈ s, whiteSpace c = true := by
  have hdrop : ∀ l, trimStart l = [] ↔ ∀ c ∈ l, whiteSpace c = true := fun l => by
    rw [trimStart, List.dropWhile_eq_nil_iff]
  rw [trim, List.reverse_eq_nil_iff, hdrop]
  constructor
  · intro h
    have hnil : trimStart s = [] := by
      cases hstart : trimStart s with
      | nil => rfl
      | cons c rest =>
        have hhead := List.head?_dropWhile_not whiteSpace s
        rw [← trimStart, hstart] at hhead
        have hwhite := h c (by rw [hstart]; simp)
        simp [hwhite] at hhead
    exact (hdrop s).mp hnil
  · intro h c hc
    exact h c ((List.dropWhile_sublist _).subset (List.mem_reverse.mp hc))

theorem trimStart_head (s : List Char) : ∀ c ∈ (trimStart s).head?, whiteSpace c = false := by
  intro c hc
  have hhead := List.head?_dropWhile_not whiteSpace s
  rw [← trimStart, Option.mem_def.mp hc] at hhead
  simpa using hhead

theorem trimStart_of_head {s : List Char} (h : ∀ c ∈ s.head?, whiteSpace c = false) : trimStart s = s := by
  cases s with
  | nil => rfl
  | cons c rest =>
    have hc := h c rfl
    simp [trimStart, hc]

theorem trim_eq {s : List Char} (h : ∀ c ∈ s, whiteSpace c = false) : trim s = s := by
  have hreverse : trimStart s.reverse = s.reverse := by
    apply trimStart_of_head
    intro c hc
    exact h c (List.mem_reverse.mp (List.mem_of_mem_head? hc))
  rw [trim, trimStart_of_head fun c hc => h c (List.mem_of_mem_head? hc), hreverse, List.reverse_reverse]

theorem trim_sublist (s : List Char) : (trim s).Sublist s := by
  rw [trim, trimStart, trimStart]
  have hback := (List.dropWhile_sublist (p := whiteSpace) (l := (s.dropWhile whiteSpace).reverse)).reverse
  rw [List.reverse_reverse] at hback
  exact hback.trans (List.dropWhile_sublist _)

theorem trim_head (s : List Char) : ∀ c ∈ (trim s).head?, whiteSpace c = false := by
  intro c hc
  apply trimStart_head s
  obtain ⟨front, hfront⟩ := List.dropWhile_suffix (l := (trimStart s).reverse) whiteSpace
  have hsplit := congrArg List.reverse hfront
  rw [List.reverse_append, List.reverse_reverse, ← trimStart, ← trim] at hsplit
  rw [← hsplit, List.head?_append, Option.mem_def.mp hc]
  rfl

theorem trim_trim (s : List Char) : trim (trim s) = trim s := by
  have hback : trimStart (trim s).reverse = (trim s).reverse := by
    apply trimStart_of_head
    rw [trim, List.reverse_reverse]
    exact trimStart_head _
  rw [trim, trimStart_of_head (trim_head s), hback, List.reverse_reverse]

theorem whiteSpace_bounds {c : Char} (h : whiteSpace c = true) : c.toNat ≤ 32 ∨ 160 ≤ c.toNat := by
  by_contra hno
  have hbounds : 32 < c.toNat ∧ c.toNat < 160 := by omega
  simp only [whiteSpace, Bool.or_eq_true, List.contains_iff_mem, List.mem_cons, List.not_mem_nil, or_false,
    Bool.and_eq_true, decide_eq_true_eq] at h
  omega

theorem toLower_cases (c : Char) : c.toLower = c ∨ 65 ≤ c.toNat ∧ c.toNat ≤ 90 ∧ c.toLower.toNat = c.toNat + 32 := by
  unfold Char.toLower
  split
  · rename_i h
    right
    have hlow : 65 ≤ c.toNat := h.1
    have hhigh : c.toNat ≤ 90 := h.2
    refine ⟨hlow, hhigh, ?_⟩
    change (c.val + _).toNat = c.val.toNat + 32
    have hvalue : c.val.toNat ≤ 90 := hhigh
    have hstep : ('a'.val - 'A'.val).toNat = 32 := by decide
    rw [UInt32.toNat_add]
    omega
  · exact .inl rfl

theorem toLower_small {c : Char} (h : c.toNat < 65 ∨ c.toLower.toNat < 65) : c.toLower = c := by
  rcases toLower_cases c with hsame | ⟨hlow, -, hvalue⟩
  · exact hsame
  · omega

theorem toLower_toLower (c : Char) : c.toLower.toLower = c.toLower := by
  rcases toLower_cases c with hsame | ⟨hlow, hhigh, hvalue⟩
  · rw [hsame, hsame]
  · rcases toLower_cases c.toLower with hsame | ⟨-, hhigh', -⟩
    · exact hsame
    · omega

theorem lower_lower (s : List Char) : lower (lower s) = lower s := by
  rw [lower, lower, List.map_map]
  exact List.map_congr_left fun c _ => toLower_toLower c

theorem whiteSpace_toLower (c : Char) : whiteSpace c.toLower = whiteSpace c := by
  rcases toLower_cases c with hsame | ⟨hlow, hhigh, hvalue⟩
  · rw [hsame]
  · have hblank : ∀ d : Char, 33 ≤ d.toNat → d.toNat < 160 → whiteSpace d = false := by
      intro d hd hd'
      rw [← Bool.not_eq_true]
      intro hwhite
      have hbounds := whiteSpace_bounds hwhite
      omega
    rw [hblank c (by omega) (by omega), hblank c.toLower (by omega) (by omega)]

theorem trim_lower (s : List Char) : trim (lower s) = lower (trim s) := by
  have hstart : ∀ t, trimStart (lower t) = lower (trimStart t) := by
    intro t
    rw [trimStart, lower, List.dropWhile_map]
    exact congrArg (fun p => (t.dropWhile p).map Char.toLower) (funext whiteSpace_toLower)
  have hreverse : ∀ t, (lower t).reverse = lower t.reverse := fun t => List.map_reverse.symm
  rw [trim, hstart, hreverse, hstart, hreverse, ← trim]

theorem mem_intercalate {c : Char} {sep : List Char} {parts : List (List Char)} (h : c ∈ sep.intercalate parts) :
    c ∈ sep ∨ ∃ part ∈ parts, c ∈ part := by
  induction parts with
  | nil => simp at h
  | cons part parts ih =>
    cases parts with
    | nil =>
      rw [List.intercalate_singleton] at h
      exact .inr ⟨part, List.mem_cons_self, h⟩
    | cons next parts =>
      rw [List.intercalate_cons_cons, List.append_assoc, List.mem_append, List.mem_append] at h
      obtain h | h | h := h
      · exact .inr ⟨part, List.mem_cons_self, h⟩
      · exact .inl h
      · exact (ih h).imp_right fun ⟨part', hpart', hc⟩ => ⟨part', List.mem_cons_of_mem _ hpart', hc⟩

def isBlank (c : Char) : Bool := c == ' ' || c == '\t'

def isBreak (c : Char) : Bool := c == '\r' || c == '\n'

/-- Where `^` and `$` see the end of a line under the flag `m`, and where `.` stops. -/
def isTerminator (c : Char) : Bool := [0xA, 0xD, 0x2028, 0x2029].contains c.toNat

/-- The lines of a text, cut at every line feed and every carriage return. -/
def lines : List Char → List (List Char)
  | [] => [[]]
  | c :: rest =>
    match lines rest with
    | [] => [[c]]
    | line :: more => if c == '\n' || c == '\r' then [] :: line :: more else (c :: line) :: more

inductive LineEnd where
  | crlf
  | lf
  deriving DecidableEq

def LineEnd.chars : LineEnd → List Char
  | crlf => ['\r', '\n']
  | lf => ['\n']

end OpenMigrate
