import OpenMigrate.Escape.Joined
import OpenMigrate.Json.Value

namespace OpenMigrate.Json

section Strings

def isHigh (u : ℕ) : Bool := 0xD800 ≤ u && u ≤ 0xDBFF

def isLow (u : ℕ) : Bool := 0xDC00 ≤ u && u ≤ 0xDFFF

def hexDigit (n : ℕ) : ℕ := if n < 10 then 48 + n else 87 + n

def hexValue (u : ℕ) : ℕ := if u < 58 then u - 48 else u - 87

/-- A code unit within quotes; `lone` says that it is half of a surrogate pair without the other half. -/
def quoteUnit (lone : Bool) (u : ℕ) : Units :=
  if u = 8 then [92, 98]
  else if u = 9 then [92, 116]
  else if u = 10 then [92, 110]
  else if u = 12 then [92, 102]
  else if u = 13 then [92, 114]
  else if u = 34 then [92, 34]
  else if u = 92 then [92, 92]
  else if u < 32 ∨ lone = true ∧ u < 0x10000 then
    [92, 117, hexDigit (u / 4096), hexDigit (u / 256 % 16), hexDigit (u / 16 % 16), hexDigit (u % 16)]
  else [u]

/-- The text within the quotes; `paired` says that the unit before was the first half of a pair. -/
def quoteFrom (paired : Bool) : Units → Units
  | [] => []
  | u :: rest =>
    let first := isHigh u && rest.head?.any isLow
    quoteUnit ((isHigh u && !first) || (isLow u && !paired)) u ++ quoteFrom first rest

/-- `JSON.stringify` of a string -/
def quote (s : Units) : Units := 34 :: (quoteFrom false s ++ [34])

/-- One code unit read back from within quotes. -/
def readUnit : Units → Option (ℕ × Units)
  | 92 :: 117 :: a :: b :: c :: d :: rest =>
    some (((hexValue a * 16 + hexValue b) * 16 + hexValue c) * 16 + hexValue d, rest)
  | 92 :: u :: rest =>
    some (if u = 98 then 8 else if u = 116 then 9 else if u = 110 then 10 else if u = 102 then 12
      else if u = 114 then 13 else u, rest)
  | 34 :: _ => none
  | u :: rest => some (u, rest)
  | [] => none

theorem hexValue_hexDigit {n : ℕ} (h : n < 16) : hexValue (hexDigit n) = n := by
  rw [hexValue, hexDigit]
  split <;> split <;> omega

theorem readUnit_quoteUnit (lone : Bool) (u : ℕ) (rest : Units) : readUnit (quoteUnit lone u ++ rest) = some (u, rest) := by
  unfold quoteUnit
  split
  · subst_vars; rfl
  split
  · subst_vars; rfl
  split
  · subst_vars; rfl
  split
  · subst_vars; rfl
  split
  · subst_vars; rfl
  split
  · subst_vars; rfl
  split
  · subst_vars; rfl
  split
  · have hlt : u < 0x10000 := by omega
    have hvalue : ((u / 4096 * 16 + u / 256 % 16) * 16 + u / 16 % 16) * 16 + u % 16 = u := by omega
    simp only [List.cons_append, List.nil_append, readUnit]
    rw [hexValue_hexDigit (by omega), hexValue_hexDigit (by omega), hexValue_hexDigit (by omega),
      hexValue_hexDigit (by omega), hvalue]
  · rw [List.singleton_append, readUnit]
    all_goals
      intros
      simp_all

theorem quoteFrom_injective {s t rest rest' : Units} {p q : Bool}
    (h : quoteFrom p s ++ 34 :: rest = quoteFrom q t ++ 34 :: rest') : s = t ∧ rest = rest' := by
  induction s generalizing t p q with
  | nil =>
    cases t with
    | nil => exact ⟨rfl, (List.cons.inj h).2⟩
    | cons v t =>
      have hread := congrArg readUnit h
      rw [quoteFrom, quoteFrom, List.append_assoc, readUnit_quoteUnit] at hread
      cases hread
  | cons u s ih =>
    have hread := congrArg readUnit h
    rw [quoteFrom, List.append_assoc, readUnit_quoteUnit] at hread
    cases t with
    | nil => cases hread
    | cons v t =>
      rw [quoteFrom, List.append_assoc, readUnit_quoteUnit, Option.some.injEq, Prod.mk.injEq] at hread
      obtain ⟨hs, hrest⟩ := ih hread.2
      exact ⟨by rw [hread.1, hs], hrest⟩

theorem quote_injective {s t rest rest' : Units} (h : quote s ++ rest = quote t ++ rest') : s = t ∧ rest = rest' := by
  rw [quote, quote, List.cons_append, List.cons_append, List.append_assoc, List.append_assoc] at h
  exact quoteFrom_injective (List.cons.inj h).2

end Strings

section Values

def join (parts : List Units) : Units := [44].intercalate parts

def ascii (text : String) : Units := text.toList.map Char.toNat

/-- `JSON.stringify` of a value whose objects list their keys in this order -/
def stringify : Json → Units
  | .null => ascii "null"
  | .bool b => ascii (if b then "true" else "false")
  | .num text => text.1
  | .str s => quote s
  | .arr xs => 91 :: (join (xs.attach.map fun x => stringify x.1) ++ [93])
  | .obj fields => 123 :: (join (fields.attach.map fun f => quote f.1.1 ++ 58 :: stringify f.1.2) ++ [125])
termination_by j => sizeOf j
decreasing_by
  · exact sizeOf_arr x.2
  · exact sizeOf_obj f.2

def stringifyField (f : Units × Json) : Units := quote f.1 ++ 58 :: stringify f.2

theorem stringify_arr (xs : List Json) : stringify (.arr xs) = 91 :: (join (xs.map stringify) ++ [93]) := by
  rw [stringify, List.attach_map_val (f := stringify)]

theorem stringify_obj (fields : Fields) :
    stringify (.obj fields) = 123 :: (join (fields.map stringifyField) ++ [125]) := by
  have hfields := List.attach_map_val (l := fields) (f := stringifyField)
  rw [stringify, ← hfields]
  rfl

/-- What can follow a value: the end of the text, a comma or a closing bracket. -/
def Closes (rest : Units) : Prop := ∀ u ∈ rest.head?, u ∈ [44, 93, 125]

/-- What is written for `x` is written for nothing else, whatever follows it. -/
def Readable {α : Type} (write : α → Units) (x : α) : Prop :=
  ∀ y rest rest', Closes rest → Closes rest' → write x ++ rest = write y ++ rest' → x = y ∧ rest = rest'

/-- What kind of value starts with this unit. -/
def kindOf (u : ℕ) : ℕ :=
  if u = 110 then 0 else if u = 116 ∨ u = 102 then 1 else if u = 34 then 3 else if u = 91 then 4
  else if u = 123 then 5 else 2

def kind : Json → ℕ
  | .null => 0
  | .bool _ => 1
  | .num _ => 2
  | .str _ => 3
  | .arr _ => 4
  | .obj _ => 5

theorem isNumberUnit_iff {u : ℕ} :
    isNumberUnit u = true ↔ 48 ≤ u ∧ u ≤ 57 ∨ u = 43 ∨ u = 45 ∨ u = 46 ∨ u = 69 ∨ u = 101 := by
  simp [isNumberUnit]

theorem stringify_head (j : Json) :
    ∃ u rest, stringify j = u :: rest ∧ kindOf u = kind j ∧ u ∉ [44, 93, 125] := by
  cases j with
  | null => exact ⟨110, ascii "ull", by rw [stringify]; rfl, rfl, by decide⟩
  | bool b =>
    cases b with
    | true => exact ⟨116, ascii "rue", by rw [stringify]; rfl, rfl, by decide⟩
    | false => exact ⟨102, ascii "alse", by rw [stringify]; rfl, rfl, by decide⟩
  | num text =>
    obtain ⟨u, rest, htext⟩ := List.exists_cons_of_ne_nil text.2.1
    have hu := text.2.2 u (htext ▸ List.mem_cons_self)
    rw [isNumberUnit_iff] at hu
    refine ⟨u, rest, by rw [stringify]; exact htext, ?_, ?_⟩
    · rw [kindOf, if_neg (by omega), if_neg (by omega), if_neg (by omega), if_neg (by omega), if_neg (by omega)]
      rfl
    · simp only [List.mem_cons, List.not_mem_nil, or_false]
      omega
  | str s => exact ⟨34, _, by rw [stringify, quote], rfl, by decide⟩
  | arr xs => exact ⟨91, _, by rw [stringify_arr], rfl, by decide⟩
  | obj fields => exact ⟨123, _, by rw [stringify_obj], rfl, by decide⟩

theorem stringifyField_head (f : Units × Json) : ∃ rest, stringifyField f = 34 :: rest := ⟨_, rfl⟩

theorem closes_close {close : ℕ} (h : close ∈ [93, 125]) (rest : Units) : Closes (close :: rest) := by
  intro u hu
  cases hu
  exact List.mem_cons_of_mem _ h

theorem closes_comma (rest : Units) : Closes (44 :: rest) := by
  intro u hu
  cases hu
  exact List.mem_cons_self

section Lists

variable {α : Type} {write : α → Units} {close : ℕ}

theorem join_cons (x : α) (xs : List α) (rest : Units) : join ((x :: xs).map write) ++ close :: rest =
    write x ++ if xs = [] then close :: rest else 44 :: (join (xs.map write) ++ close :: rest) := by
  rw [join, List.map_cons]
  split
  · rename_i hempty
    rw [hempty, List.map_nil, List.intercalate_singleton]
  · rename_i hne
    rw [Joined.intercalate_cons (by simpa using hne), List.append_assoc]
    rfl

theorem join_injective (hclose : close ∈ [93, 125]) (hhead : ∀ x, ∃ u rest, write x = u :: rest ∧ u ∉ [44, 93, 125])
    {xs ys : List α} {rest rest' : Units} (hread : ∀ x ∈ xs, Readable write x)
    (h : join (xs.map write) ++ close :: rest = join (ys.map write) ++ close :: rest') : xs = ys ∧ rest = rest' := by
  have hnil : ∀ (y : α) (ys : List α) (rest rest' : Units),
      join ([].map write) ++ close :: rest ≠ join ((y :: ys).map write) ++ close :: rest' := by
    intro y ys rest rest' heq
    obtain ⟨u, tail, hu, hnot⟩ := hhead y
    rw [join_cons, hu] at heq
    have hself : close = u := (List.cons.inj heq).1
    exact hnot (hself ▸ List.mem_cons_of_mem _ hclose)
  have htail : ∀ (xs : List α) (rest : Units),
      Closes (if xs = [] then close :: rest else 44 :: (join (xs.map write) ++ close :: rest)) := by
    intro xs rest
    split
    · exact closes_close hclose rest
    · exact closes_comma _
  induction xs generalizing ys with
  | nil =>
    cases ys with
    | nil => exact ⟨rfl, (List.cons.inj h).2⟩
    | cons y ys => exact absurd h (hnil y ys rest rest')
  | cons x xs ih =>
    cases ys with
    | nil => exact absurd h.symm (hnil x xs rest' rest)
    | cons y ys =>
      rw [join_cons, join_cons] at h
      obtain ⟨rfl, hrest⟩ := hread x List.mem_cons_self y _ _ (htail xs rest) (htail ys rest') h
      have hne : close ≠ 44 := by
        rintro rfl
        exact absurd hclose (by decide)
      by_cases hxs : xs = [] <;> by_cases hys : ys = []
      · rw [if_pos hxs, if_pos hys] at hrest
        exact ⟨by rw [hxs, hys], (List.cons.inj hrest).2⟩
      · rw [if_pos hxs, if_neg hys] at hrest
        exact absurd (List.cons.inj hrest).1 hne
      · rw [if_neg hxs, if_pos hys] at hrest
        exact absurd (List.cons.inj hrest).1.symm hne
      · rw [if_neg hxs, if_neg hys] at hrest
        obtain ⟨rfl, hend⟩ := ih (fun x hx => hread x (List.mem_cons_of_mem _ hx)) (List.cons.inj hrest).2
        exact ⟨rfl, hend⟩

end Lists

theorem takeWhile_number {text rest : Units} (h : ∀ u ∈ text, isNumberUnit u = true) (hrest : Closes rest) :
    (text ++ rest).takeWhile isNumberUnit = text := by
  have hnone : rest.takeWhile isNumberUnit = [] := by
    cases rest with
    | nil => rfl
    | cons u rest =>
      rw [List.takeWhile_cons_of_neg]
      have hu := hrest u rfl
      simp only [List.mem_cons, List.not_mem_nil, or_false] at hu
      rw [isNumberUnit_iff]
      omega
  rw [List.takeWhile_append_of_pos h, hnone, List.append_nil]

theorem kind_eq {a b : Json} {rest rest' : Units} (h : stringify a ++ rest = stringify b ++ rest') : kind a = kind b := by
  obtain ⟨u, tail, hu, hkind, -⟩ := stringify_head a
  obtain ⟨v, tail', hv, hkind', -⟩ := stringify_head b
  rw [hu, hv] at h
  have huv : u = v := (List.cons.inj h).1
  rw [← hkind, ← hkind', huv]

theorem stringifyField_readable {f : Units × Json} (h : Readable stringify f.2) : Readable stringifyField f := by
  intro g rest rest' hrest hrest' heq
  rw [stringifyField, stringifyField, List.append_assoc, List.append_assoc] at heq
  obtain ⟨hkey, hvalue⟩ := quote_injective heq
  obtain ⟨hself, hend⟩ := h g.2 rest rest' hrest hrest' (List.cons.inj hvalue).2
  exact ⟨Prod.ext hkey hself, hend⟩

theorem stringify_readable (j : Json) : Readable stringify j := by
  induction j using induct with
  | null =>
    intro b rest rest' _ _ h
    have hkind := kind_eq h
    cases b <;> cases hkind
    exact ⟨rfl, List.append_cancel_left h⟩
  | bool b =>
    intro b' rest rest' _ _ h
    have hkind := kind_eq h
    cases b' <;> cases hkind
    rename_i b'
    rw [stringify, stringify] at h
    cases b <;> cases b'
    · exact ⟨rfl, List.append_cancel_left h⟩
    · exact absurd (List.cons.inj h).1 (by decide)
    · exact absurd (List.cons.inj h).1 (by decide)
    · exact ⟨rfl, List.append_cancel_left h⟩
  | num text =>
    intro b rest rest' hrest hrest' h
    have hkind := kind_eq h
    cases b <;> cases hkind
    rename_i text'
    rw [stringify, stringify] at h
    have htext := congrArg (List.takeWhile isNumberUnit) h
    rw [takeWhile_number text.2.2 hrest, takeWhile_number text'.2.2 hrest'] at htext
    rw [htext] at h
    exact ⟨by rw [Subtype.ext htext], List.append_cancel_left h⟩
  | str s =>
    intro b rest rest' _ _ h
    have hkind := kind_eq h
    cases b <;> cases hkind
    rw [stringify, stringify] at h
    obtain ⟨rfl, hrest⟩ := quote_injective h
    exact ⟨rfl, hrest⟩
  | arr xs ih =>
    intro b rest rest' _ _ h
    have hkind := kind_eq h
    cases b <;> cases hkind
    rw [stringify_arr, stringify_arr, List.cons_append, List.cons_append, List.append_assoc, List.append_assoc] at h
    obtain ⟨rfl, hrest⟩ := join_injective (by decide)
      (fun x => by
        obtain ⟨u, tail, hu, -, hnot⟩ := stringify_head x
        exact ⟨u, tail, hu, hnot⟩) ih (List.cons.inj h).2
    exact ⟨rfl, hrest⟩
  | obj fields ih =>
    intro b rest rest' _ _ h
    have hkind := kind_eq h
    cases b <;> cases hkind
    rw [stringify_obj, stringify_obj, List.cons_append, List.cons_append, List.append_assoc, List.append_assoc] at h
    obtain ⟨rfl, hrest⟩ := join_injective (by decide) (fun f => ⟨34, _, rfl, by decide⟩)
      (fun f hf => stringifyField_readable (ih f hf)) (List.cons.inj h).2
    exact ⟨rfl, hrest⟩

theorem stringify_injective {a b : Json} (h : stringify a = stringify b) : a = b := by
  have hread := stringify_readable a b [] [] (fun u hu => by cases hu) (fun u hu => by cases hu)
  rw [List.append_nil, List.append_nil] at hread
  exact (hread h).1

end Values

end OpenMigrate.Json
