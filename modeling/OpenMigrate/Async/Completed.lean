import OpenMigrate.Async.Emits

namespace OpenMigrate.Async

variable {C : Type} {R : C → Type} {E α β : Type}

/-- A command and what was heard of it. -/
abbrev Heard (C : Type) (R : C → Type) (E : Type) := Σ c : C, Except E (R c)

/-- An execution that ends with a value, whatever the answers are: the commands asked, with their answers. -/
inductive Completed : Prog C R E α → List (Heard C R E) → α → Prop
  | ret (a : α) : Completed (.ret a) [] a
  | call (c : C) (k : Except E (R c) → Prog C R E α) (r : Except E (R c)) {heard : List (Heard C R E)} {a : α}
      (h : Completed (k r) heard a) : Completed (.call c k) (⟨c, r⟩ :: heard) a

namespace Completed

variable {p : Prog C R E α} {f : α → Prog C R E β} {heard : List (Heard C R E)} {a : α} {b : β}

theorem of_ret {a' : α} (h : Completed (.ret a : Prog C R E α) heard a') : heard = [] ∧ a' = a := by
  cases h
  exact ⟨rfl, rfl⟩

theorem of_perform {c : C} {a : R c} (h : Completed (Prog.perform c : Prog C R E (R c)) heard a) :
    heard = [⟨c, .ok a⟩] := by
  cases h with
  | call c k r h =>
    cases r with
    | ok a' =>
      obtain ⟨rfl, rfl⟩ := of_ret h
      rfl
    | error e => cases h

theorem of_bind (h : Completed (p.bind f) heard b) :
    ∃ before a after, heard = before ++ after ∧ Completed p before a ∧ Completed (f a) after b := by
  induction p generalizing heard with
  | ret a => exact ⟨[], a, heard, rfl, .ret a, h⟩
  | fail e => cases h
  | call c k ih =>
    cases h with
    | call c k r h =>
      obtain ⟨before, a, after, rfl, hp, hf⟩ := ih r h
      exact ⟨⟨c, r⟩ :: before, a, after, rfl, .call c k r hp, hf⟩

theorem of_perform_bind {c : C} {f : R c → Prog C R E β} (h : Completed ((Prog.perform c).bind f) heard b) :
    ∃ a after, heard = ⟨c, .ok a⟩ :: after ∧ Completed (f a) after b := by
  obtain ⟨before, a, after, rfl, hp, hf⟩ := of_bind h
  rw [of_perform hp]
  exact ⟨a, after, rfl, hf⟩

end Completed

/-- What is left of a program once it has heard these answers. -/
inductive Reaches : Prog C R E α → List (Heard C R E) → Prog C R E α → Prop
  | refl (p : Prog C R E α) : Reaches p [] p
  | call (c : C) (k : Except E (R c) → Prog C R E α) (r : Except E (R c)) {heard : List (Heard C R E)}
      {q : Prog C R E α} (h : Reaches (k r) heard q) : Reaches (.call c k) (⟨c, r⟩ :: heard) q

namespace Reaches

variable {p : Prog C R E α} {f : α → Prog C R E β} {heard : List (Heard C R E)} {e : E}

theorem snoc {c : C} {k : Except E (R c) → Prog C R E α} (h : Reaches p heard (.call c k)) (r : Except E (R c)) :
    Reaches p (heard ++ [⟨c, r⟩]) (k r) := by
  generalize hq : (Prog.call c k : Prog C R E α) = q at h
  induction h with
  | refl p =>
    subst hq
    exact .call c k r (.refl _)
  | call c' k' r' h ih => exact .call c' k' r' (ih hq)

theorem completed {a : α} (h : Reaches p heard (.ret a)) : Completed p heard a := by
  generalize hq : (Prog.ret a : Prog C R E α) = q at h
  induction h with
  | refl p =>
    subst hq
    exact .ret a
  | call c k r h ih => exact .call c k r (ih hq)

theorem of_ret {a : α} (h : Reaches (.ret a : Prog C R E α) heard (.fail e)) : False := nomatch h

theorem of_perform {c : C} (h : Reaches (Prog.perform c : Prog C R E (R c)) heard (.fail e)) :
    heard = [⟨c, .error e⟩] := by
  cases h with
  | call c k r h =>
    cases r with
    | ok a => cases h
    | error e' =>
      cases h
      rfl

theorem of_bind (h : Reaches (p.bind f) heard (.fail e)) :
    Reaches p heard (.fail e) ∨
      ∃ before a after, heard = before ++ after ∧ Completed p before a ∧ Reaches (f a) after (.fail e) := by
  induction p generalizing heard with
  | ret a => exact .inr ⟨[], a, heard, rfl, .ret a, h⟩
  | fail e' =>
    cases h
    exact .inl (.refl _)
  | call c k ih =>
    cases h with
    | call c k r h =>
      obtain h | ⟨before, a, after, rfl, hp, hf⟩ := ih r h
      · exact .inl (.call c _ r h)
      · exact .inr ⟨⟨c, r⟩ :: before, a, after, rfl, .call c _ r hp, hf⟩

end Reaches

namespace Completed

variable {p : Prog C R E α} {f : α → Prog C R E β} {g : E → Prog C R E β} {heard : List (Heard C R E)} {b : β}

theorem of_tryWith (h : Completed (p.tryWith g f) heard b) :
    ∃ before after, heard = before ++ after ∧
      ((∃ a, Completed p before a ∧ Completed (f a) after b) ∨
        ∃ e, Reaches p before (.fail e) ∧ Completed (g e) after b) := by
  induction p generalizing heard with
  | ret a => exact ⟨[], heard, rfl, .inl ⟨a, .ret a, h⟩⟩
  | fail e => exact ⟨[], heard, rfl, .inr ⟨e, .refl _, h⟩⟩
  | call c k ih =>
    cases h with
    | call c k r h =>
      obtain ⟨before, after, rfl, hcase⟩ := ih r h
      refine ⟨⟨c, r⟩ :: before, after, rfl, ?_⟩
      obtain ⟨a, hp, hf⟩ | ⟨e, hp, hg⟩ := hcase
      · exact .inl ⟨a, .call c _ r hp, hf⟩
      · exact .inr ⟨e, .call c _ r hp, hg⟩

end Completed

/-- A program that keeps to a vocabulary has asked nothing else, as long as the answers were those it is prepared for. -/
theorem Reaches.asks {V : Vocabulary C R E} {p q : Prog C R E α} {Q : Except E α → Prop} {heard : List (Heard C R E)}
    (h : Reaches p heard q) (hp : Emits V p Q) (hears : ∀ x ∈ heard, V.hears x.1 x.2) : ∀ x ∈ heard, V.asks x.1 := by
  induction h with
  | refl => simp
  | call c k r h ih =>
    intro x hx
    obtain rfl | hx := List.mem_cons.mp hx
    · exact hp.1
    · exact ih (hp.2 r (hears _ List.mem_cons_self)) (fun y hy => hears y (List.mem_cons_of_mem _ hy)) x hx

theorem Completed.reaches {p : Prog C R E α} {heard : List (Heard C R E)} {a : α} (h : Completed p heard a) :
    Reaches p heard (.ret a) := by
  induction h with
  | ret a => exact .refl _
  | call c k r h ih => exact .call c k r ih

end OpenMigrate.Async
