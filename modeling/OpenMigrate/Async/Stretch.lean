import OpenMigrate.Async.Episodes

namespace OpenMigrate.Async

variable {C : Type} {R : C → Type} {σ E I A α : Type} {m : Machine σ C R E I A}

/-- A stretch of a run: what was heard on the way from one state to another, with acts of the surroundings in
between. -/
inductive Ran (m : Machine σ C R E I A) : σ → List (Option ℕ × Heard C R E) → σ → Prop
  | nil (s : σ) : Ran m s [] s
  | act (a : A) {s t : σ} {hs : List (Option ℕ × Heard C R E)} (h : Ran m (m.act a s) hs t) : Ran m s hs t
  | exec (th : Option ℕ) (c : C) (i : I) {s t : σ} {hs : List (Option ℕ × Heard C R E)}
      (h : Ran m (m.exec c i s).2 hs t) : Ran m s ((th, ⟨c, (m.exec c i s).1⟩) :: hs) t

namespace Ran

variable {s t u : σ} {hs xs ys : List (Option ℕ × Heard C R E)}

theorem of_run (x : Conf C R E α × σ) (chs : List (Choice I A)) :
    Ran m x.2 (heardIn m (m.trace x chs)) (m.run x chs).2 := by
  induction chs generalizing x with
  | nil => exact .nil _
  | cons ch chs ih =>
    have hrest := ih (m.step x ch)
    rw [Machine.trace, heardIn, List.flatMap_append]
    cases he : Machine.event? x ch with
    | none =>
      rw [m.step_snd_none he] at hrest
      exact hrest
    | some ev =>
      obtain ⟨hpre, hpost⟩ := m.step_snd_some he
      rw [hpost] at hrest
      cases ev with
      | act a s =>
        obtain rfl : s = x.2 := hpre
        exact .act a hrest
      | exec th c i s =>
        obtain rfl : s = x.2 := hpre
        exact .exec th c i hrest

theorem split (h : Ran m s (xs ++ ys) t) : ∃ u, Ran m s xs u ∧ Ran m u ys t := by
  generalize hall : xs ++ ys = all at h
  induction h generalizing xs with
  | nil s =>
    obtain ⟨rfl, rfl⟩ := List.append_eq_nil_iff.mp hall
    exact ⟨s, .nil s, .nil s⟩
  | act a h ih =>
    obtain ⟨u, hx, hy⟩ := ih hall
    exact ⟨u, .act a hx, hy⟩
  | @exec th c i s t hs h ih =>
    cases xs with
    | nil =>
      rw [List.nil_append] at hall
      rw [hall]
      exact ⟨s, .nil s, .exec th c i h⟩
    | cons x xs =>
      rw [List.cons_append, List.cons.injEq] at hall
      obtain ⟨rfl, hrest⟩ := hall
      obtain ⟨u, hx, hy⟩ := ih hrest
      exact ⟨u, .exec th c i hx, hy⟩

theorem head {x : Option ℕ × Heard C R E} (h : Ran m s (x :: ys) t) :
    ∃ u i, Ran m s [] u ∧ x.2 = ⟨x.2.1, (m.exec x.2.1 i u).1⟩ ∧ Ran m (m.exec x.2.1 i u).2 ys t := by
  generalize hall : x :: ys = all at h
  induction h with
  | nil s => cases hall
  | act a h ih =>
    obtain ⟨u, i, hu, hx, hrest⟩ := ih hall
    exact ⟨u, i, .act a hu, hx, hrest⟩
  | @exec th c i s t hs h ih =>
    obtain ⟨rfl, rfl⟩ := List.cons.inj hall
    exact ⟨s, i, .nil s, rfl, h⟩

theorem append (hx : Ran m s xs u) (hy : Ran m u ys t) : Ran m s (xs ++ ys) t := by
  induction hx with
  | nil s => exact hy
  | act a h ih => exact .act a (ih hy)
  | exec th c i h ih => exact .exec th c i (ih hy)

theorem at_mem {x : Option ℕ × Heard C R E} (h : Ran m s hs t) (hx : x ∈ hs) :
    ∃ before after u i, hs = before ++ x :: after ∧ Ran m s before u ∧ x.2 = ⟨x.2.1, (m.exec x.2.1 i u).1⟩ ∧
      Ran m (m.exec x.2.1 i u).2 after t := by
  obtain ⟨before, after, rfl⟩ := List.append_of_mem hx
  obtain ⟨v, hbefore, hrest⟩ := h.split
  obtain ⟨u, i, hu, hanswer, hafter⟩ := hrest.head
  have hall := hbefore.append hu
  rw [List.append_nil] at hall
  exact ⟨before, after, u, i, rfl, hall, hanswer, hafter⟩

theorem keeps {P : σ → Prop} {Q : Heard C R E → Prop} (hact : ∀ a s, P s → P (m.act a s))
    (hexec : ∀ c i s, Q ⟨c, (m.exec c i s).1⟩ → P s → P (m.exec c i s).2) (h : Ran m s hs t)
    (hQ : ∀ x ∈ hs, Q x.2) (hs : P s) : P t := by
  induction h with
  | nil s => exact hs
  | act a h ih => exact ih hQ (hact a _ hs)
  | exec th c i h ih =>
    rw [List.forall_mem_cons] at hQ
    exact ih hQ.2 (hexec c i _ hQ.1 hs)

theorem brings {P : σ → Prop} {Q : Heard C R E → Prop} {x : Option ℕ × Heard C R E}
    (hact : ∀ a s, P s → P (m.act a s)) (hexec : ∀ c i s, Q ⟨c, (m.exec c i s).1⟩ → P s → P (m.exec c i s).2)
    (hnow : ∀ i s, x.2 = ⟨x.2.1, (m.exec x.2.1 i s).1⟩ → P (m.exec x.2.1 i s).2) (h : Ran m s hs t)
    (hQ : ∀ x ∈ hs, Q x.2) (hx : x ∈ hs) : P t := by
  obtain ⟨before, after, u, i, rfl, -, hanswer, hafter⟩ := h.at_mem hx
  apply hafter.keeps hact hexec
  · exact fun y hy => hQ y (List.mem_append_right _ (List.mem_cons_of_mem x hy))
  · exact hnow i u hanswer

end Ran

end OpenMigrate.Async
