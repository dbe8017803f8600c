import OpenMigrate.Async.Emits

namespace OpenMigrate.Async

open Prog

variable {σ G C : Type} {R : C → Type} {E I A α : Type}

/-- What a bystander makes of the commands of a program and their answers, and which command it then
lets pass. -/
structure Monitor (G C : Type) (R : C → Type) (E : Type) where
  allows : G → C → Prop
  next : G → (c : C) → Except E (R c) → G

variable (M : Monitor G C R E)

def Monitor.spec : Spec G C R E := fun c K g => M.allows g c ∧ ∀ r, K r (M.next g c r)

theorem Monitor.spec_mono : Spec.Mono M.spec := by
  intro c K K' g hK h
  exact ⟨h.1, fun r => hK r _ (h.2 r)⟩

def Monitor.hear (m : Machine σ C R E I A) (g : G) : Event σ C I A → G
  | .exec _ c i s => M.next g c (m.exec c i s).1
  | .act .. => g

def Monitor.after (m : Machine σ C R E I A) (g : G) (events : List (Event σ C I A)) : G :=
  events.foldl (M.hear m) g

variable {M} {m : Machine σ C R E I A}

/-- A program whose commands keep the monitor satisfied gives only commands that it allows. -/
theorem Monitor.wp_of_emits {V : Vocabulary C R E} {P : G → Prop} (hears : ∀ c r, V.hears c r)
    (hP : ∀ g c, V.asks c → P g → M.allows g c ∧ ∀ r, P (M.next g c r))
    {p : Prog C R E α} {Q : Except E α → Prop} (h : Emits V p Q) {g : G} (hg : P g) :
    wp M.spec p (fun r g => Q r ∧ P g) g := by
  induction p generalizing g with
  | ret a => exact ⟨h, hg⟩
  | fail e => exact ⟨h, hg⟩
  | call c k ih =>
    obtain ⟨hallows, hnext⟩ := hP g c h.1 hg
    exact ⟨hallows, fun r => ih r (h.2 r (hears c r)) (hnext r)⟩

theorem trace_lift_call (c : C) (k : Except E (R c) → Prog C R E α) (s : σ) (j : ℕ) (i : I)
    (chs : List (Choice I A)) :
    m.trace (.seq (Main.lift (.call c k)), s) (.run j i :: chs) =
      .exec none c i s :: m.trace (.seq (Main.lift (k (m.exec c i s).1)), (m.exec c i s).2) chs := rfl

theorem trace_lift_act (p : Prog C R E α) (s : σ) (a : A) (chs : List (Choice I A)) :
    m.trace (.seq (Main.lift p), s) (.act a :: chs) =
      .act a s :: m.trace (.seq (Main.lift p), m.act a s) chs := rfl

/-- A program that only ever gives commands its monitor allows does so in every run. -/
theorem Monitor.allows_of_trace {p : Prog C R E α} {g : G} (h : wp M.spec p (fun _ _ => True) g)
    {s : σ} {chs : List (Choice I A)} {before after : List (Event σ C I A)} {th : Option ℕ} {c : C} {i : I} {t : σ}
    (htrace : m.trace (.seq (Main.lift p), s) chs = before ++ .exec th c i t :: after) :
    M.allows (M.after m g before) c := by
  induction chs generalizing p s g before with
  | nil => simp [Machine.trace] at htrace
  | cons ch chs ih =>
    cases ch with
    | act a =>
      rw [trace_lift_act] at htrace
      cases before with
      | nil => simp at htrace
      | cons ev before =>
        obtain ⟨rfl, hrest⟩ := List.cons.inj htrace
        have hlater := ih h hrest
        exact hlater
    | run j i' =>
      cases p with
      | ret a => exact ih h htrace
      | fail e => exact ih h htrace
      | call c' k =>
        rw [trace_lift_call] at htrace
        cases before with
        | nil =>
          obtain ⟨hev, -⟩ := List.cons.inj htrace
          cases hev
          exact h.1
        | cons ev before =>
          obtain ⟨rfl, hrest⟩ := List.cons.inj htrace
          have hlater := ih (h.2 _) hrest
          exact hlater

end OpenMigrate.Async
