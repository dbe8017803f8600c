import Mathlib.Data.List.Nodup
import Mathlib.Tactic.Common

namespace OpenMigrate.Tree

/-- A finite forest: each tree has an identifier, a name and items of its own, and other trees inside and beside it. -/
inductive Forest (I N A : Type) where
  | nil
  | cons (id : I) (name : N) (items : List A) (inside beside : Forest I N A)

structure Node (I N A : Type) where
  id : I
  name : N
  items : List A
  inside : Forest I N A

namespace Forest

variable {I N A : Type}

def roots : Forest I N A → List (Node I N A)
  | nil => []
  | cons id name items inside beside => ⟨id, name, items, inside⟩ :: beside.roots

/-- Every node with the names that lead down to it. -/
def located : Forest I N A → List (List N × Node I N A)
  | nil => []
  | cons id name items inside beside =>
    ([name], ⟨id, name, items, inside⟩) :: (inside.located.map fun e => (name :: e.1, e.2)) ++ beside.located

def nodes (F : Forest I N A) : List (Node I N A) := F.located.map (·.2)

def size : Forest I N A → ℕ
  | nil => 0
  | cons _ _ _ inside beside => inside.size + beside.size + 1

def ids (F : Forest I N A) : List I := F.nodes.map (·.id)

variable {F : Forest I N A} {P : List N} {n m : Node I N A}

theorem mem_located_iff :
    (P, n) ∈ F.located ↔ ∃ r ∈ F.roots, P = [r.name] ∧ n = r ∨ ∃ Q, P = r.name :: Q ∧ (Q, n) ∈ r.inside.located := by
  induction F with
  | nil => simp [located, roots]
  | cons id name items inside beside ihInside ihBeside =>
    simp only [located, roots, List.cons_append, List.mem_cons, List.mem_append, List.mem_map, exists_eq_or_imp,
      Prod.mk.injEq]
    rw [ihBeside, ← or_assoc]
    apply or_congr_left
    apply or_congr_right
    constructor
    · rintro ⟨⟨Q, m⟩, hm, rfl, rfl⟩
      exact ⟨Q, rfl, hm⟩
    · rintro ⟨Q, rfl, hm⟩
      exact ⟨(Q, n), hm, rfl, rfl⟩

theorem located_ne_nil (h : (P, n) ∈ F.located) : P ≠ [] := by
  obtain ⟨r, -, ⟨rfl, -⟩ | ⟨Q, rfl, -⟩⟩ := mem_located_iff.mp h <;> exact List.cons_ne_nil _ _

theorem mem_nodes (h : (P, n) ∈ F.located) : n ∈ F.nodes := List.mem_map_of_mem h

theorem exists_located (h : n ∈ F.nodes) : ∃ P, (P, n) ∈ F.located := by
  obtain ⟨⟨P, m⟩, hm, rfl⟩ := List.mem_map.mp h
  exact ⟨P, hm⟩

theorem root_located (h : n ∈ F.roots) : ([n.name], n) ∈ F.located := mem_located_iff.mpr ⟨n, h, .inl ⟨rfl, rfl⟩⟩

theorem inside_located (h : n ∈ F.roots) (hm : (P, m) ∈ n.inside.located) : (n.name :: P, m) ∈ F.located :=
  mem_located_iff.mpr ⟨n, h, .inr ⟨P, rfl, hm⟩⟩

theorem located_append {Q : List N} (h : (P, n) ∈ F.located) (hm : (Q, m) ∈ n.inside.located) :
    (P ++ Q, m) ∈ F.located := by
  induction P generalizing F with
  | nil => exact absurd rfl (located_ne_nil h)
  | cons name P ih =>
    obtain ⟨r, hr, ⟨hP, rfl⟩ | ⟨P', hP, hn⟩⟩ := mem_located_iff.mp h
    · obtain ⟨rfl, rfl⟩ := List.cons.inj hP
      exact inside_located hr hm
    · obtain ⟨rfl, rfl⟩ := List.cons.inj hP
      exact inside_located hr (ih hn)

theorem nodes_inside (h : n ∈ F.nodes) (hm : m ∈ n.inside.nodes) : m ∈ F.nodes := by
  obtain ⟨P, hP⟩ := exists_located h
  obtain ⟨Q, hQ⟩ := exists_located hm
  exact mem_nodes (located_append hP hQ)

theorem roots_nodes (h : n ∈ F.roots) : n ∈ F.nodes := mem_nodes (root_located h)

theorem located_unique (hids : F.ids.Nodup) {Q : List N} (h : (P, n) ∈ F.located) (h' : (Q, m) ∈ F.located)
    (hid : n.id = m.id) : P = Q ∧ n = m := by
  have heq : (P, n) = (Q, m) := by
    apply List.inj_on_of_nodup_map (f := fun e : List N × Node I N A => e.2.id) _ h h' hid
    rwa [ids, nodes, List.map_map] at hids
  exact ⟨congrArg Prod.fst heq, congrArg Prod.snd heq⟩

end Forest

end OpenMigrate.Tree
