import Mathlib.Data.Nat.Notation
import Mathlib.Logic.Relation
import Mathlib.Tactic.Common

namespace OpenMigrate.Async

/-- An asynchronous program: a value, an exception, or one awaited command and the rest. -/
inductive Prog (C : Type) (R : C → Type) (E α : Type) where
  | ret (a : α)
  | fail (e : E)
  | call (c : C) (k : Except E (R c) → Prog C R E α)

namespace Prog

variable {σ C C' : Type} {R : C → Type} {R' : C' → Type} {E α β : Type}

def bind : Prog C R E α → (α → Prog C R E β) → Prog C R E β
  | ret a, f => f a
  | fail e, _ => fail e
  | call c k, f => call c (fun r => (k r).bind f)

/-- `try p catch h`, continued by `f`, whose own exceptions `h` does not see. -/
def tryWith : Prog C R E α → (E → Prog C R E β) → (α → Prog C R E β) → Prog C R E β
  | ret a, _, f => f a
  | fail e, h, _ => h e
  | call c k, h, f => call c (fun r => (k r).tryWith h f)

def perform (c : C) : Prog C R E (R c) :=
  call c (fun
    | .ok a => ret a
    | .error e => fail e)

def ofExcept : Except E α → Prog C R E α
  | .ok a => ret a
  | .error e => fail e

def hoist (f : (c : C) → (Except E (R c) → Prog C' R' E α) → Prog C' R' E α) :
    Prog C R E α → Prog C' R' E α
  | ret a => ret a
  | fail e => fail e
  | call c k => f c (fun r => (k r).hoist f)

def forEach (xs : List α) (f : α → Prog C R E Unit) : Prog C R E Unit :=
  match xs with
  | [] => ret ()
  | x :: xs => (f x).bind (fun _ => forEach xs f)

instance : Monad (Prog C R E) where
  pure := ret
  bind := bind

@[simp] theorem pure_eq (a : α) : (pure a : Prog C R E α) = ret a := rfl

@[simp] theorem bind_eq (p : Prog C R E α) (f : α → Prog C R E β) : (p >>= f) = p.bind f := rfl

/-- What one command does, as a transformer of what is wanted of its answer. -/
abbrev Spec (σ C : Type) (R : C → Type) (E : Type) :=
  (c : C) → (Except E (R c) → σ → Prop) → σ → Prop

def Spec.Mono (Φ : Spec σ C R E) : Prop :=
  ∀ c (K K' : Except E (R c) → σ → Prop) s, (∀ r t, K r t → K' r t) → Φ c K s → Φ c K' s

def wp (Φ : Spec σ C R E) : Prog C R E α → (Except E α → σ → Prop) → σ → Prop
  | ret a, Q => Q (.ok a)
  | fail e, Q => Q (.error e)
  | call c k, Q => Φ c (fun r => wp Φ (k r) Q)

variable (Φ : Spec σ C R E)

@[simp] theorem wp_ret (a : α) (Q : Except E α → σ → Prop) (s : σ) :
    wp Φ (ret a) Q s ↔ Q (.ok a) s := Iff.rfl

@[simp] theorem wp_fail (e : E) (Q : Except E α → σ → Prop) (s : σ) :
    wp Φ (fail e : Prog C R E α) Q s ↔ Q (.error e) s := Iff.rfl

theorem wp_call (c : C) (k : Except E (R c) → Prog C R E α) (Q : Except E α → σ → Prop) (s : σ) :
    wp Φ (call c k) Q s ↔ Φ c (fun r => wp Φ (k r) Q) s := Iff.rfl

/-- The post-condition under which `f` goes on from the answer and an exception passes through. -/
def andThen (f : α → Prog C R E β) (Q : Except E β → σ → Prop) : Except E α → σ → Prop
  | .ok a => wp Φ (f a) Q
  | .error e => Q (.error e)

def orElse (h : E → Prog C R E β) (f : α → Prog C R E β) (Q : Except E β → σ → Prop) :
    Except E α → σ → Prop
  | .ok a => wp Φ (f a) Q
  | .error e => wp Φ (h e) Q

theorem wp_bind (p : Prog C R E α) (f : α → Prog C R E β) (Q : Except E β → σ → Prop) :
    wp Φ (p.bind f) Q = wp Φ p (andThen Φ f Q) := by
  induction p with
  | ret a => rfl
  | fail e => rfl
  | call c k ih => exact congrArg (Φ c) (funext ih)

theorem wp_tryWith (p : Prog C R E α) (h : E → Prog C R E β) (f : α → Prog C R E β)
    (Q : Except E β → σ → Prop) : wp Φ (p.tryWith h f) Q = wp Φ p (orElse Φ h f Q) := by
  induction p with
  | ret a => rfl
  | fail e => rfl
  | call c k ih => exact congrArg (Φ c) (funext ih)

variable {Φ} in
theorem wp_seq {p : Prog C R E α} {f : α → Prog C R E β} {Q : Except E β → σ → Prop} {s : σ}
    (h : wp Φ p (andThen Φ f Q) s) : wp Φ (p.bind f) Q s := by
  rw [wp_bind]
  exact h

variable {Φ} in
theorem wp_try {p : Prog C R E α} {g : E → Prog C R E β} {f : α → Prog C R E β}
    {Q : Except E β → σ → Prop} {s : σ} (h : wp Φ p (orElse Φ g f Q) s) : wp Φ (p.tryWith g f) Q s := by
  rw [wp_tryWith]
  exact h

theorem wp_perform (c : C) (Q : Except E (R c) → σ → Prop) (s : σ) :
    wp Φ (perform c) Q s ↔ Φ c Q s := by
  have he : (fun r => wp Φ (match r with | .ok a => ret a | .error e => fail e) Q) = Q := by
    funext r
    cases r <;> rfl
  rw [perform, wp_call]
  exact iff_of_eq (congrFun (congrArg (Φ c) he) s)

theorem wp_ofExcept (x : Except E α) (Q : Except E α → σ → Prop) (s : σ) :
    wp Φ (ofExcept x : Prog C R E α) Q s ↔ Q x s := by
  cases x <;> rfl

variable {Φ}

theorem wp_mono (hΦ : Spec.Mono Φ) (p : Prog C R E α) (Q Q' : Except E α → σ → Prop)
    (h : ∀ r t, Q r t → Q' r t) (s : σ) (hp : wp Φ p Q s) : wp Φ p Q' s := by
  induction p generalizing s with
  | ret a => exact h _ _ hp
  | fail e => exact h _ _ hp
  | call c k ih => exact hΦ c _ _ s (fun r t => ih r t) hp

theorem wp_forEach (hΦ : Spec.Mono Φ) (xs : List α) (f : α → Prog C R E Unit) (J : List α → σ → Prop)
    (Q : Except E Unit → σ → Prop) (hnil : ∀ s, J [] s → Q (.ok ()) s)
    (hstep : ∀ x ys s, J (x :: ys) s →
      wp Φ (f x) (fun r t => match r with | .ok _ => J ys t | .error e => Q (.error e) t) s)
    (s : σ) (h : J xs s) : wp Φ (forEach xs f) Q s := by
  induction xs generalizing s with
  | nil => exact hnil s h
  | cons x ys ih =>
    rw [forEach, wp_bind]
    refine wp_mono hΦ _ _ _ ?_ s (hstep x ys s h)
    intro r t ht
    cases r with
    | ok _ => exact ih t ht
    | error e => exact ht

end Prog

end OpenMigrate.Async
