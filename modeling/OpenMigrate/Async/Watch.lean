import OpenMigrate.Async.Emits

namespace OpenMigrate.Async

open Prog

variable {σ G C : Type} {R : C → Type} {E I A α : Type}

/-- What is noted of the steps of a run, beside the state. -/
structure Watch (σ G C I A : Type) where
  exec : G → C → I → σ → G
  act : G → A → σ → G

namespace Watch

variable (W : Watch σ G C I A) (m : Machine σ C R E I A)

def see (g : G) : Event σ C I A → G
  | .exec _ c i s => W.exec g c i s
  | .act a s => W.act g a s

def after (g : G) (events : List (Event σ C I A)) : G := events.foldl W.see g

def machine : Machine (σ × G) C R E I A where
  exec c i x := ((m.exec c i x.1).1, ((m.exec c i x.1).2, W.exec x.2 c i x.1))
  act a x := (m.act a x.1, W.act x.2 a x.1)

def forget : Event (σ × G) C I A → Event σ C I A
  | .exec th c i x => .exec th c i x.1
  | .act a x => .act a x.1

variable (x : Conf C R E α) (s : σ) (g : G)

theorem event_watched (ch : Choice I A) :
    (Machine.event? (x, (s, g)) ch).map forget = Machine.event? (x, s) ch := by
  cases ch with
  | act a => rfl
  | run j i => simp [Machine.event?, Function.comp_def, forget]

theorem step_watched (ch : Choice I A) :
    (W.machine m).step (x, (s, g)) ch =
      ((m.step (x, s) ch).1, ((m.step (x, s) ch).2, W.after g (Machine.event? (x, s) ch).toList)) := by
  cases ch with
  | act a => rfl
  | run j i =>
    cases x with
    | seq p =>
      cases p with
      | ret a | fail e => rfl
      | call c k =>
        cases c with
        | inl c | inr f => rfl
    | pool ps k =>
      cases hr : ps.result? with
      | some r => simp [Machine.step, Machine.event?, Machine.command?, hr, after]
      | none =>
        cases hj : ps.slots[j]? with
        | none => simp [Machine.step, Machine.event?, Machine.command?, Machine.advance, hr, hj, after]
        | some slot =>
          cases slot with
          | waiting p | done | failed =>
            simp [Machine.step, Machine.event?, Machine.command?, Machine.advance, hr, hj, after]
          | running p =>
            cases p <;> simp [Machine.step, Machine.event?, Machine.command?, Machine.advance, hr, hj, after, see, machine]

theorem run_watched (chs : List (Choice I A)) :
    (W.machine m).run (x, (s, g)) chs =
      ((m.run (x, s) chs).1, ((m.run (x, s) chs).2, W.after g (m.trace (x, s) chs))) := by
  induction chs generalizing x s g with
  | nil => rfl
  | cons ch chs ih =>
    rw [Machine.run, step_watched, ih, Machine.run, Machine.trace]
    simp [after, List.foldl_append]

theorem trace_watched (chs : List (Choice I A)) :
    ((W.machine m).trace (x, (s, g)) chs).map forget = m.trace (x, s) chs := by
  induction chs generalizing x s g with
  | nil => rfl
  | cons ch chs ih =>
    rw [Machine.trace, step_watched, List.map_append, ih, Machine.trace, ← event_watched x s g]
    cases Machine.event? (x, (s, g)) ch <;> rfl

variable {W m x s g}

/-- What is shown of a program beside what is noted of it holds of its runs. -/
theorem good_run {Γ : Rules (σ × G) C I} {Q : Except E α → σ × G → Prop}
    (h : Conf.Good (W.machine m) Γ Q (x, (s, g))) (hQ : ∀ r y z, Q r y → Γ.rely y z → Q r z)
    (hact : ∀ a y, Γ.rely y ((W.machine m).act a y)) {chs : List (Choice I A)}
    (hassume : ∀ th c i y, Event.exec th c i y.1 ∈ m.trace (x, s) chs → Γ.assume c i y) :
    Conf.Good (W.machine m) Γ Q ((m.run (x, s) chs).1, ((m.run (x, s) chs).2, W.after g (m.trace (x, s) chs))) := by
  rw [← run_watched]
  refine (h.run (W.machine m) Q hQ chs fun ev hev => ?_).2
  cases ev with
  | act a y => exact hact a y
  | exec th c i y =>
    refine hassume th c i y ?_
    rw [← trace_watched W m x s g chs]
    exact List.mem_map.mpr ⟨_, hev, rfl⟩

theorem wp_forget {Γ : Rules (σ × G) C I} {Γ' : Rules σ C I} {p : Prog C R E α} {Q : Except E α → σ → Prop}
    (hassume : ∀ c i y, Γ.assume c i y → Γ'.assume c i y.1) (hrely : ∀ y z, Γ.rely y z → Γ'.rely y.1 z.1)
    (hguar : ∀ c y z, Γ'.guar c y.1 z.1 → Γ.guar c y z) {y : σ × G} (h : wp (callSpec m Γ') p Q y.1) :
    wp (callSpec (W.machine m) Γ) p (fun r z => Q r z.1) y := by
  induction p generalizing y with
  | ret a => exact h
  | fail e => exact h
  | call c k ih =>
    intro z hz i hi
    obtain ⟨hg, hk⟩ := h z.1 (hrely y z hz) i (hassume c i z hi)
    exact ⟨hguar c z _ hg, ih _ hk⟩

end Watch

end OpenMigrate.Async
