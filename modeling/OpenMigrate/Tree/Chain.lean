import Mathlib.Tactic.Common

namespace OpenMigrate.Tree

variable {I N : Type}

/-- What a table of parents says of nodes: their names, and what each is in, which is nothing at the top. -/
abbrev Parents (I N : Type) := I → Option (N × Option I)

/-- The names from the top down to a node. -/
inductive Leads (parents : Parents I N) : List N → Option I → Prop
  | top : Leads parents [] none
  | under {P : List N} {parent : Option I} {id : I} {name : N} (above : Leads parents P parent)
      (h : parents id = some (name, parent)) : Leads parents (P ++ [name]) (some id)

/-- A table that says all that another does. -/
def Extends (more parents : Parents I N) : Prop := ∀ id e, parents id = some e → more id = some e

namespace Leads

variable {parents more : Parents I N} {P Q : List N} {id : I} {node : Option I}

theorem mono (hmore : Extends more parents) (h : Leads parents P node) : Leads more P node := by
  induction h with
  | top => exact .top
  | under _ h ih => exact .under ih (hmore _ _ h)

theorem unique (h : Leads parents P node) (h' : Leads parents Q node) : P = Q := by
  induction h generalizing Q with
  | top =>
    cases h'
    rfl
  | under _ h ih =>
    cases h' with
    | under above h' =>
      obtain ⟨rfl, rfl⟩ := Prod.mk.inj (Option.some.inj (h.symm.trans h'))
      rw [ih above]

theorem ne_nil (h : Leads parents P (some id)) : P ≠ [] := by
  cases h with
  | under above h => exact List.append_ne_nil_of_right_ne_nil _ (List.cons_ne_nil _ _)

theorem inj (hunique : ∀ id id' e, parents id = some e → parents id' = some e → id = id') {node' : Option I}
    (h : Leads parents P node) (h' : Leads parents P node') : node = node' := by
  induction h generalizing node' with
  | top =>
    cases hnode : node' with
    | none => rfl
    | some id =>
      rw [hnode] at h'
      exact absurd rfl h'.ne_nil
  | @under P parent id name above hid ih =>
    cases hnode : node' with
    | none =>
      rw [hnode] at h'
      have hnil := h'.unique .top
      exact absurd hnil (List.append_ne_nil_of_right_ne_nil _ (List.cons_ne_nil _ _))
    | some id' =>
      rw [hnode] at h'
      generalize hpath : P ++ [name] = path at h'
      cases h' with
      | under above' hid' =>
        obtain ⟨rfl, hname⟩ := List.append_inj' hpath rfl
        obtain rfl := List.singleton_inj.mp hname
        obtain rfl := ih above'
        rw [hunique _ _ _ hid hid']

end Leads

theorem Extends.refl (parents : Parents I N) : Extends parents parents := fun _ _ h => h

theorem Extends.trans {most more parents : Parents I N} (h : Extends most more) (h' : Extends more parents) :
    Extends most parents := fun id e he => h id e (h' id e he)

end OpenMigrate.Tree
