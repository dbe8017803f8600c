import Mathlib.Data.List.Lex
import Mathlib.Data.List.Sort
import Mathlib.Order.Lattice
import Mathlib.Tactic.Common

namespace OpenMigrate

/-- A digit, a sign, a point or the letter of an exponent. -/
def isNumberUnit (u : ℕ) : Bool := (48 ≤ u && u ≤ 57) || [43, 45, 46, 69, 101].contains u

/-- A JSON value. Strings are lists of UTF-16 code units, and a number is the text that it is printed as. -/
inductive Json where
  | null
  | bool (b : Bool)
  | num (text : { text : List ℕ // text ≠ [] ∧ ∀ u ∈ text, isNumberUnit u = true })
  | str (s : List ℕ)
  | arr (xs : List Json)
  | obj (fields : List (List ℕ × Json))

namespace Json

abbrev Units := List ℕ

abbrev Fields := List (Units × Json)

theorem sizeOf_arr {x : Json} {xs : List Json} (h : x ∈ xs) : sizeOf x < sizeOf (arr xs) := by
  have hx := List.sizeOf_lt_of_mem h
  simp only [arr.sizeOf_spec]
  omega

theorem sizeOf_obj {f : Units × Json} {fields : Fields} (h : f ∈ fields) : sizeOf f.2 < sizeOf (obj fields) := by
  have hf := List.sizeOf_lt_of_mem h
  have hvalue : sizeOf f = 1 + sizeOf f.1 + sizeOf f.2 := rfl
  simp only [obj.sizeOf_spec]
  omega

/-- Induction over a value and what stands in it. -/
theorem induct {P : Json → Prop} (null : P .null) (bool : ∀ b, P (.bool b)) (num : ∀ text, P (.num text))
    (str : ∀ s, P (.str s)) (arr : ∀ xs : List Json, (∀ x ∈ xs, P x) → P (.arr xs))
    (obj : ∀ fields : Fields, (∀ f ∈ fields, P f.2) → P (.obj fields)) : ∀ j, P j
  | .null => null
  | .bool b => bool b
  | .num text => num text
  | .str s => str s
  | .arr xs => arr xs fun x _ => induct null bool num str arr obj x
  | .obj fields => obj fields fun f _ => induct null bool num str arr obj f.2
termination_by j => sizeOf j
decreasing_by
  · exact sizeOf_arr ‹_›
  · exact sizeOf_obj ‹_›

/-- The fields in the order of their keys' code units. -/
def sortKeys (fields : Fields) : Fields := fields.insertionSort fun f g => f.1 ≤ g.1

theorem mem_sortKeys {fields : Fields} {f : Units × Json} : f ∈ sortKeys fields ↔ f ∈ fields :=
  (List.perm_insertionSort _ fields).mem_iff

/-- A value with the keys of every object in it in order. -/
def normal : Json → Json
  | .arr xs => .arr (xs.attach.map fun x => normal x.1)
  | .obj fields => .obj ((sortKeys fields).attach.map fun f => (f.1.1, normal f.1.2))
  | j => j
termination_by j => sizeOf j
decreasing_by
  · exact sizeOf_arr x.2
  · exact sizeOf_obj (mem_sortKeys.mp f.2)

theorem normal_arr (xs : List Json) : normal (.arr xs) = .arr (xs.map normal) := by
  rw [normal, List.attach_map_val (f := normal)]

theorem normal_obj (fields : Fields) :
    normal (.obj fields) = .obj ((sortKeys fields).map fun f => (f.1, normal f.2)) := by
  rw [normal, List.attach_map_val (f := fun f : Units × Json => (f.1, normal f.2))]

section Lookup

variable {fields fields' : Fields} {k : Units} {j : Json}

theorem lookup_eq_some_iff (h : (fields.map Prod.fst).Nodup) : fields.lookup k = some j ↔ (k, j) ∈ fields := by
  induction fields with
  | nil => simp
  | cons f fields ih =>
    obtain ⟨key, value⟩ := f
    rw [List.map_cons, List.nodup_cons] at h
    rw [List.lookup_cons, List.mem_cons, Prod.mk.injEq]
    by_cases hk : k = key
    · subst hk
      rw [beq_self_eq_true, Option.some.injEq]
      constructor
      · rintro rfl
        exact .inl ⟨rfl, rfl⟩
      · rintro (⟨-, rfl⟩ | hmem)
        · rfl
        · exact absurd (List.mem_map_of_mem hmem) h.1
    · rw [beq_false_of_ne hk, ih h.2]
      constructor
      · exact .inr
      · rintro (⟨heq, -⟩ | hmem)
        · exact absurd heq hk
        · exact hmem

theorem sortKeys_nodup (h : (fields.map Prod.fst).Nodup) : ((sortKeys fields).map Prod.fst).Nodup :=
  ((List.perm_insertionSort _ fields).map Prod.fst).nodup_iff.mpr h

theorem lookup_map (f : Json → Json) (fields : Fields) (k : Units) :
    (fields.map fun e => (e.1, f e.2)).lookup k = (fields.lookup k).map f := by
  induction fields with
  | nil => rfl
  | cons e fields ih =>
    rw [List.map_cons, List.lookup_cons, List.lookup_cons, ih]
    cases k == e.1 <;> rfl

theorem lookup_sortKeys (h : (fields.map Prod.fst).Nodup) (k : Units) :
    (sortKeys fields).lookup k = fields.lookup k := by
  apply Option.ext
  intro j
  rw [lookup_eq_some_iff (sortKeys_nodup h), lookup_eq_some_iff h, mem_sortKeys]

def normalFields (fields : Fields) : Fields := (sortKeys fields).map fun f => (f.1, normal f.2)

theorem normalFields_nodup (h : (fields.map Prod.fst).Nodup) : ((normalFields fields).map Prod.fst).Nodup := by
  rw [normalFields, List.map_map]
  exact sortKeys_nodup h

theorem lookup_normalFields (h : (fields.map Prod.fst).Nodup) (k : Units) :
    (normalFields fields).lookup k = (fields.lookup k).map normal := by
  rw [normalFields, lookup_map, lookup_sortKeys h]

theorem normalFields_sorted (fields : Fields) : (normalFields fields).Pairwise fun f g => f.1 ≤ g.1 := by
  rw [normalFields, List.pairwise_map]
  exact List.pairwise_insertionSort _ fields

theorem normal_obj_eq_iff (h : (fields.map Prod.fst).Nodup) (h' : (fields'.map Prod.fst).Nodup) :
    normal (.obj fields) = normal (.obj fields') ↔
      ∀ k, (fields.lookup k).map normal = (fields'.lookup k).map normal := by
  rw [normal_obj, normal_obj, obj.injEq, ← normalFields, ← normalFields]
  constructor
  · intro heq k
    rw [← lookup_normalFields h, ← lookup_normalFields h', heq]
  · intro hlookup
    have hkeys := normalFields_nodup h
    have hkeys' := normalFields_nodup h'
    have hmem : ∀ f, f ∈ normalFields fields ↔ f ∈ normalFields fields' := by
      intro f
      rw [← lookup_eq_some_iff hkeys, ← lookup_eq_some_iff hkeys', lookup_normalFields h, lookup_normalFields h', hlookup]
    apply List.Perm.eq_of_pairwise _ (normalFields_sorted fields) (normalFields_sorted fields')
    · exact (List.perm_ext_iff_of_nodup hkeys.of_map hkeys'.of_map).mpr hmem
    · intro f g hf hg hle hge
      have hself := (lookup_eq_some_iff hkeys').mpr ((hmem f).mp hf)
      rw [le_antisymm hle hge, (lookup_eq_some_iff hkeys').mpr hg, Option.some.injEq] at hself
      exact Prod.ext (le_antisymm hle hge) hself.symm

end Lookup

end Json

end OpenMigrate
