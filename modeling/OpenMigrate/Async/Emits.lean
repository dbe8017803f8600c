import OpenMigrate.Async.RelyGuarantee

namespace OpenMigrate.Async

open Prog

variable {σ S L C : Type} {R : C → Type} {E I A α β : Type}

/-- The commands a program may give, whatever the state, as long as each answer is a possible one. -/
structure Vocabulary (C : Type) (R : C → Type) (E : Type) where
  asks : C → Prop
  hears : (c : C) → Except E (R c) → Prop

variable (V : Vocabulary C R E)

def emitSpec : Spec Unit C R E := fun c K _ => V.asks c ∧ ∀ r, V.hears c r → K r ()

def mainEmitSpec : Spec Unit (Call C R E) (Answer C R E) E
  | .inl c => emitSpec V c
  | .inr f => fun K _ =>
    (∀ p ∈ f.workers, wp (emitSpec V) p (fun _ _ => True) ()) ∧ ∀ r, K r ()

def Emits (p : Prog C R E α) (Q : Except E α → Prop) : Prop :=
  wp (emitSpec V) p (fun r _ => Q r) ()

def MainEmits (p : Main C R E α) (Q : Except E α → Prop) : Prop :=
  wp (mainEmitSpec V) p (fun r _ => Q r) ()

theorem emitSpec_mono : Spec.Mono (emitSpec V) := by
  intro c K K' s hK h
  exact ⟨h.1, fun r hr => hK r () (h.2 r hr)⟩

theorem mainEmitSpec_mono : Spec.Mono (mainEmitSpec V) := by
  intro c K K' s hK h
  cases c with
  | inl c => exact emitSpec_mono V c K K' s hK h
  | inr f => exact ⟨h.1, fun r => hK r () (h.2 r)⟩

variable {V}

namespace Emits

@[simp] theorem ret (a : α) (Q : Except E α → Prop) :
    Emits V (.ret a : Prog C R E α) Q ↔ Q (.ok a) := Iff.rfl

@[simp] theorem fail (e : E) (Q : Except E α → Prop) :
    Emits V (.fail e : Prog C R E α) Q ↔ Q (.error e) := Iff.rfl

theorem call (c : C) (k : Except E (R c) → Prog C R E α) (Q : Except E α → Prop) :
    Emits V (.call c k) Q ↔ V.asks c ∧ ∀ r, V.hears c r → Emits V (k r) Q := Iff.rfl

theorem perform (c : C) (Q : Except E (R c) → Prop) :
    Emits V (Prog.perform c) Q ↔ V.asks c ∧ ∀ r, V.hears c r → Q r := wp_perform _ _ _ _

theorem ofExcept (x : Except E α) (Q : Except E α → Prop) :
    Emits V (Prog.ofExcept x : Prog C R E α) Q ↔ Q x := wp_ofExcept _ _ _ _

theorem mono {p : Prog C R E α} {Q Q' : Except E α → Prop} (h : Emits V p Q)
    (hQ : ∀ r, Q r → Q' r) : Emits V p Q' :=
  wp_mono (emitSpec_mono V) p _ _ (fun r _ => hQ r) () h

theorem weaken {V' : Vocabulary C R E} {p : Prog C R E α} {Q : Except E α → Prop} (h : Emits V p Q)
    (hasks : ∀ c, V.asks c → V'.asks c) (hhears : ∀ c r, V'.hears c r → V.hears c r) : Emits V' p Q := by
  induction p with
  | ret a => exact h
  | fail e => exact h
  | call c k ih => exact ⟨hasks c h.1, fun r hr => ih r (h.2 r (hhears c r hr))⟩

theorem and {V' : Vocabulary C R E} {p : Prog C R E α} {Q : Except E α → Prop} (h : Emits V p Q)
    (h' : Emits V' p (fun _ => True)) :
    Emits ⟨fun c => V.asks c ∧ V'.asks c, fun c r => V.hears c r ∧ V'.hears c r⟩ p Q := by
  induction p with
  | ret a => exact h
  | fail e => exact h
  | call c k ih => exact ⟨⟨h.1, h'.1⟩, fun r hr => ih r (h.2 r hr.1) (h'.2 r hr.2)⟩

theorem bind {p : Prog C R E α} {f : α → Prog C R E β} {Q : Except E β → Prop}
    (P : α → Prop) (h : Emits V p (fun r => match r with | .ok a => P a | .error e => Q (.error e)))
    (hf : ∀ a, P a → Emits V (f a) Q) : Emits V (p.bind f) Q := by
  unfold Emits
  rw [wp_bind]
  refine wp_mono (emitSpec_mono V) p _ _ ?_ () h
  intro r _ hr
  cases r with
  | ok a => exact hf a hr
  | error e => exact hr

theorem seq {p : Prog C R E α} {f : α → Prog C R E β} (h : Emits V p (fun _ => True))
    (hf : ∀ a, Emits V (f a) (fun _ => True)) : Emits V (p.bind f) (fun _ => True) := by
  refine bind (fun _ => True) (h.mono fun r _ => ?_) fun a _ => hf a
  cases r <;> trivial

theorem tryWith {p : Prog C R E α} {g : E → Prog C R E β} {f : α → Prog C R E β}
    {Q : Except E β → Prop} (P : α → Prop) (N : E → Prop)
    (h : Emits V p (fun r => match r with | .ok a => P a | .error e => N e))
    (hg : ∀ e, N e → Emits V (g e) Q) (hf : ∀ a, P a → Emits V (f a) Q) :
    Emits V (p.tryWith g f) Q := by
  unfold Emits
  rw [wp_tryWith]
  refine wp_mono (emitSpec_mono V) p _ _ ?_ () h
  intro r _ hr
  cases r with
  | ok a => exact hf a hr
  | error e => exact hg e hr

theorem attempt {p : Prog C R E α} {g : E → Prog C R E β} {f : α → Prog C R E β}
    (h : Emits V p (fun _ => True)) (hg : ∀ e, Emits V (g e) (fun _ => True))
    (hf : ∀ a, Emits V (f a) (fun _ => True)) : Emits V (p.tryWith g f) (fun _ => True) := by
  refine tryWith (fun _ => True) (fun _ => True) (h.mono fun r _ => ?_) (fun e _ => hg e) fun a _ => hf a
  cases r <;> trivial

theorem forEach {xs : List α} {f : α → Prog C R E Unit} {Q : Except E Unit → Prop}
    (hok : Q (.ok ())) (herr : ∀ e, Q (.error e)) (h : ∀ x ∈ xs, Emits V (f x) (fun _ => True)) :
    Emits V (Prog.forEach xs f) Q := by
  induction xs with
  | nil => exact hok
  | cons x xs ih =>
    refine bind (fun _ => True) ?_ fun _ _ => ih fun y hy => h y (List.mem_cons_of_mem x hy)
    refine (h x List.mem_cons_self).mono fun r _ => ?_
    cases r with
    | ok _ => trivial
    | error e => exact herr e

/-- What every command of the vocabulary keeps and guarantees, a program that keeps to it does, as long as
its answers are what the program is prepared for. -/
theorem wp_of_keeps {m : Machine σ C R E I A} {Γ : Rules σ C I} {Q : Except E α → Prop} (P : σ → Prop)
    (hrely : ∀ s t, P s → Γ.rely s t → P t)
    (hstep : ∀ c i s, V.asks c → Γ.assume c i s → P s →
      V.hears c (m.exec c i s).1 ∧ Γ.guar c s (m.exec c i s).2 ∧ P (m.exec c i s).2)
    {p : Prog C R E α} (h : Emits V p Q) {s : σ} (hs : P s) :
    Prog.wp (callSpec m Γ) p (fun r t => Q r ∧ P t) s := by
  induction p generalizing s with
  | ret a => exact ⟨h, hs⟩
  | fail e => exact ⟨h, hs⟩
  | call c k ih =>
    intro t ht i hi
    obtain ⟨hhears, hg, hP⟩ := hstep c i t h.1 hi (hrely s t hs ht)
    exact ⟨hg, ih _ (h.2 _ hhears) hP⟩

theorem wp {m : Machine σ C R E I A} {Γ : Rules σ C I} {Q : Except E α → Prop} (P : σ → Prop)
    (hears : ∀ c i s, V.hears c (m.exec c i s).1) (hrely : ∀ s t, P s → Γ.rely s t → P t)
    (hstep : ∀ c i s, V.asks c → Γ.assume c i s → P s →
      Γ.guar c s (m.exec c i s).2 ∧ P (m.exec c i s).2)
    {p : Prog C R E α} (h : Emits V p Q) {s : σ} (hs : P s) :
    Prog.wp (callSpec m Γ) p (fun r t => Q r ∧ P t) s :=
  wp_of_keeps P hrely (fun c i t hc hi ht => ⟨hears c i t, hstep c i t hc hi ht⟩) h hs

/-- What is shown of a program under some rules holds together with what all its commands keep. -/
theorem wp_refine {m : Machine σ C R E I A} {Γ Γ' : Rules σ C I} {Q : Except E α → σ → Prop} (P : σ → Prop)
    (hassume : ∀ c i s, Γ'.assume c i s → Γ.assume c i s) (hrely : ∀ s t, Γ'.rely s t → Γ.rely s t)
    (hstable : ∀ s t, P s → Γ'.rely s t → P t)
    (hguar : ∀ c s t, Γ.guar c s t → (P s → P t) → Γ'.guar c s t)
    (hstep : ∀ c i s, V.asks c → Γ.assume c i s → P s → V.hears c (m.exec c i s).1 ∧ P (m.exec c i s).2)
    {p : Prog C R E α} (h : Emits V p (fun _ => True)) {s : σ} (hwp : Prog.wp (callSpec m Γ) p Q s) (hs : P s) :
    Prog.wp (callSpec m Γ') p (fun r t => Q r t ∧ P t) s := by
  induction p generalizing s with
  | ret a => exact ⟨hwp, hs⟩
  | fail e => exact ⟨hwp, hs⟩
  | call c k ih =>
    intro t ht i hi
    have hP : P t := hstable s t hs ht
    obtain ⟨hg, hk⟩ := hwp t (hrely s t ht) i (hassume c i t hi)
    obtain ⟨hhears, hP'⟩ := hstep c i t h.1 (hassume c i t hi) hP
    exact ⟨hguar _ _ _ hg fun _ => hP', ih _ (h.2 _ hhears) hk hP'⟩

end Emits

/-- The same surroundings, in which a step must keep `P`. -/
def Rules.keeping (Γ : Rules σ C I) (P : σ → Prop) : Rules σ C I :=
  { Γ with guar := fun _ s t => P s → P t }

namespace MainEmits

theorem lift {p : Prog C R E α} {Q : Except E α → Prop} (h : Emits V p Q) :
    MainEmits V (Main.lift p) Q := by
  induction p with
  | ret a => exact h
  | fail e => exact h
  | call c k ih => exact ⟨h.1, fun r hr => ih r (h.2 r hr)⟩

theorem weaken {V' : Vocabulary C R E} {p : Main C R E α} {Q : Except E α → Prop} (h : MainEmits V p Q)
    (hasks : ∀ c, V.asks c → V'.asks c) (hhears : ∀ c r, V'.hears c r → V.hears c r) :
    MainEmits V' p Q := by
  induction p with
  | ret a => exact h
  | fail e => exact h
  | call c k ih =>
    cases c with
    | inl c => exact ⟨hasks c h.1, fun r hr => ih r (h.2 r (hhears c r hr))⟩
    | inr f => exact ⟨fun p hp => Emits.weaken (h.1 p hp) hasks hhears, fun r => ih r (h.2 r)⟩

theorem bind {p : Main C R E α} {f : α → Main C R E β} {Q : Except E β → Prop}
    (P : α → Prop)
    (h : MainEmits V p (fun r => match r with | .ok a => P a | .error e => Q (.error e)))
    (hf : ∀ a, P a → MainEmits V (f a) Q) : MainEmits V (p.bind f) Q := by
  unfold MainEmits
  rw [wp_bind]
  refine wp_mono (mainEmitSpec_mono V) p _ _ ?_ () h
  intro r _ hr
  cases r with
  | ok a => exact hf a hr
  | error e => exact hr

theorem seq {p : Main C R E α} {f : α → Main C R E β} (h : MainEmits V p (fun _ => True))
    (hf : ∀ a, MainEmits V (f a) (fun _ => True)) : MainEmits V (p.bind f) (fun _ => True) := by
  refine bind (fun _ => True) ?_ fun a _ => hf a
  refine wp_mono (mainEmitSpec_mono V) p _ _ ?_ () h
  intro r _ _
  cases r <;> trivial

theorem mapWithConcurrency {limit : ℕ} {ws : List (Prog C R E Unit)} {Q : Except E Unit → Prop}
    (hok : Q (.ok ())) (herr : ∀ e, Q (.error e)) (h : ∀ p ∈ ws, Emits V p (fun _ => True)) :
    MainEmits V (Main.mapWithConcurrency limit ws) Q := by
  refine (wp_perform _ _ _ _).mpr ⟨h, ?_⟩
  intro r
  cases r with
  | ok _ => exact hok
  | error e => exact herr e

theorem forEach {xs : List α} {f : α → Main C R E Unit} {Q : Except E Unit → Prop}
    (hok : Q (.ok ())) (herr : ∀ e, Q (.error e)) (h : ∀ x ∈ xs, MainEmits V (f x) (fun _ => True)) :
    MainEmits V (Prog.forEach xs f) Q := by
  induction xs with
  | nil => exact hok
  | cons x xs ih =>
    refine bind (fun _ => True) ?_ fun _ _ => ih fun y hy => h y (List.mem_cons_of_mem x hy)
    refine wp_mono (mainEmitSpec_mono V) _ _ _ ?_ () (h x List.mem_cons_self)
    intro r _ _
    cases r with
    | ok _ => trivial
    | error e => exact herr e

theorem wp_of_keeps {m : Machine σ C R E I A} {Γ : Rules σ C I} {Q : Except E α → Prop} (P : σ → Prop)
    (hrely : ∀ s t, P s → Γ.rely s t → P t)
    (hstep : ∀ c i s, V.asks c → Γ.assume c i s → P s →
      V.hears c (m.exec c i s).1 ∧ Γ.guar c s (m.exec c i s).2 ∧ P (m.exec c i s).2)
    {p : Main C R E α} (h : MainEmits V p Q) {s : σ} (hs : P s) :
    Prog.wp (mainSpec m Γ) p (fun r t => Q r ∧ P t) s := by
  induction p generalizing s with
  | ret a => exact ⟨h, hs⟩
  | fail e => exact ⟨h, hs⟩
  | call c k ih =>
    cases c with
    | inl c =>
      intro t ht i hi
      obtain ⟨hhears, hg, hP⟩ := hstep c i t h.1 hi (hrely s t hs ht)
      exact ⟨hg, ih _ (h.2 _ hhears) hP⟩
    | inr f =>
      intro t ht
      have hkept : P t := hrely s t hs ht
      let D : Γ.Shares :=
        { guar := fun _ s t => P s → P t
          rely := fun _ s t => P s → P t
          refl := fun _ _ h => h
          trans := fun h h' hs => h' (h hs)
          env := fun _ s t h hs => hrely s t hs h }
      have hreach : ∀ u, D.joint.Reach t u → P u := by
        intro u hu
        refine hu.keeps (fun v w hmove hv => ?_) hkept
        obtain hr | ⟨c, hg⟩ := hmove
        · exact hrely v w hv hr
        · exact hg.2 hv
      refine ⟨D, fun _ _ => True, fun _ _ _ _ _ => trivial, fun j p hp => ?_, fun u hu _ => ?_, fun e u hu => ?_⟩
      · refine wp_mono (callSpec_mono _ _) _ _ _ ?_ t
          (Emits.wp_of_keeps (Γ := D.rules j) P (fun v w hv hvw => hvw hv) ?_ (h.1 p (List.mem_of_getElem? hp)) hkept)
        · intro r u _
          cases r <;> trivial
        · intro c i v hc hi hv
          obtain ⟨hhears, hg, hP⟩ := hstep c i v hc hi hv
          exact ⟨hhears, ⟨⟨hg, fun _ => hP⟩, fun _ _ _ => hP⟩, hP⟩
      · exact ih (.ok ()) (h.2 _) (hreach u hu)
      · exact ih (.error e) (h.2 _) (hreach u hu)

theorem wp_keeping {m : Machine σ C R E I A} {Γ : Rules σ C I} {Q : Except E α → σ → Prop} (P : σ → Prop)
    (hrely : ∀ s t, P s → Γ.rely s t → P t)
    (hstep : ∀ c i s, V.asks c → Γ.assume c i s → P s → V.hears c (m.exec c i s).1 ∧ P (m.exec c i s).2)
    {p : Main C R E α} (h : MainEmits V p (fun _ => True)) {s : σ} (hwp : Prog.wp (mainSpec m Γ) p Q s) (hs : P s) :
    Prog.wp (mainSpec m (Γ.keeping P)) p (fun r t => Q r t ∧ P t) s := by
  induction p generalizing s with
  | ret a => exact ⟨hwp, hs⟩
  | fail e => exact ⟨hwp, hs⟩
  | call c k ih =>
    cases c with
    | inl c =>
      intro t ht i hi
      have hP : P t := hrely s t hs ht
      obtain ⟨-, hk⟩ := hwp t ht i hi
      obtain ⟨hhears, hP'⟩ := hstep c i t h.1 hi hP
      exact ⟨fun _ => hP', ih _ (h.2 _ hhears) hk hP'⟩
    | inr f =>
      intro t ht
      have hP : P t := hrely s t hs ht
      obtain ⟨D, post, hpost, hworkers, hok, herr⟩ := hwp t ht
      let D' : (Γ.keeping P).Shares :=
        { guar := fun c s t => Γ.guar c s t ∧ D.guar c s t
          rely := fun j s t => D.rely j s t ∧ (P s → P t)
          refl := fun j s => ⟨D.refl j s, fun h => h⟩
          trans := fun h h' => ⟨D.trans h.1 h'.1, fun hs => h'.2 (h.2 hs)⟩
          env := fun j s t h => ⟨D.env j s t h, fun hs => hrely s t hs h⟩ }
      have hreach : ∀ u, D'.joint.Reach t u → D.joint.Reach t u ∧ P u := by
        intro u hu
        induction hu with
        | refl => exact ⟨.refl, hP⟩
        | tail _ hmove ih =>
          obtain ⟨hR, hv⟩ := ih
          obtain hr | ⟨c, hkeep, hg⟩ := hmove
          · exact ⟨hR.tail (.inl hr), hrely _ _ hv hr⟩
          · exact ⟨hR.tail (.inr ⟨c, hg⟩), hkeep hv⟩
      refine ⟨D', post, fun j s t hs hr => hpost j s t hs hr.1, fun j p hp => ?_, fun u hu hj => ?_, fun e u hu => ?_⟩
      · have hkept : Prog.wp (callSpec m (D'.rules j)) p (fun r t => postOk (post j) r t ∧ P t) t := by
          refine Emits.wp_refine (Γ := D.rules j) P ?_ ?_ ?_ ?_ hstep
            (h.1 p (List.mem_of_getElem? hp)) (hworkers j p hp) hP
          · exact fun c i s h => h
          · exact fun s t h => h.1
          · exact fun s t hs h => h.2 hs
          · rintro c s t ⟨⟨hg, hd⟩, hothers⟩ hkeep
            exact ⟨⟨hkeep, hg, hd⟩, fun i hi => ⟨hothers i hi, hkeep⟩⟩
        exact wp_mono (callSpec_mono _ _) _ _ _ (fun _ _ hr => hr.1) t hkept
      · exact ih (.ok ()) (h.2 _) (hok u (hreach u hu).1 hj) (hreach u hu).2
      · exact ih (.error e) (h.2 _) (herr e u (hreach u hu).1) (hreach u hu).2

end MainEmits

/-- A program that keeps to a vocabulary, and what is true of what it returns. -/
def Yields (V : Vocabulary C R E) (p : Prog C R E α) (P : α → Prop) : Prop := Emits V p fun r => ∀ a, r = .ok a → P a

namespace Yields

variable {p : Prog C R E α} {P : α → Prop} {Q : β → Prop} {f : α → Prog C R E β} {g : E → Prog C R E β}

theorem ret {a : α} (h : P a) : Yields V (.ret a : Prog C R E α) P := by
  intro b hb
  obtain rfl := Except.ok.inj hb
  exact h

theorem fail (e : E) : Yields V (.fail e : Prog C R E α) P := fun _ h => nomatch h

theorem perform {c : C} {P : R c → Prop} (hasks : V.asks c) (hP : ∀ a, V.hears c (.ok a) → P a) :
    Yields V (Prog.perform c) P := by
  apply (Emits.perform c _).mpr
  refine ⟨hasks, ?_⟩
  rintro r hr a rfl
  exact hP a hr

theorem bind (h : Yields V p P) (hf : ∀ a, P a → Yields V (f a) Q) : Yields V (p.bind f) Q := by
  refine Emits.bind P (h.mono fun r hr => ?_) hf
  cases r with
  | ok a => exact hr a rfl
  | error e => exact fun _ h => nomatch h

theorem tryWith (h : Yields V p P) (hg : ∀ e, Yields V (g e) Q) (hf : ∀ a, P a → Yields V (f a) Q) :
    Yields V (p.tryWith g f) Q := by
  refine Emits.tryWith P (fun _ => True) (h.mono fun r hr => ?_) (fun e _ => hg e) hf
  cases r with
  | ok a => exact hr a rfl
  | error e => trivial

theorem weaken {P' : α → Prop} (h : Yields V p P) (hP : ∀ a, P a → P' a) : Yields V p P' :=
  Emits.mono h fun _ hr a ha => hP a (hr a ha)

theorem emits (h : Yields V p P) : Emits V p fun _ => True := Emits.mono h fun _ _ => trivial

end Yields

section Soundness

variable (V)

def Slot.Emits : Slot C R E → Prop
  | .waiting p => OpenMigrate.Async.Emits V p (fun _ => True)
  | .running p => OpenMigrate.Async.Emits V p (fun _ => True)
  | _ => True

def Conf.Emits : Conf C R E α → Prop
  | .seq p => MainEmits V p (fun _ => True)
  | .pool ps k => (∀ slot ∈ ps.slots, slot.Emits V) ∧ ∀ r, MainEmits V (k r) (fun _ => True)

variable {V} (m : Machine σ C R E I A)

theorem startFrom_emits {ws : List (Prog C R E Unit)}
    (h : ∀ p ∈ ws, OpenMigrate.Async.Emits V p (fun _ => True)) (limit : ℕ) :
    ∀ slot ∈ Pool.startFrom limit ws, slot.Emits V := by
  intro slot hslot
  obtain ⟨j, hj⟩ := List.mem_iff_getElem?.mp hslot
  obtain ⟨p, hp, hs⟩ := startFrom_getElem? limit ws j slot hj
  have hmem : p ∈ ws := List.mem_of_getElem? hp
  obtain rfl | rfl := hs <;> exact h p hmem

theorem promote_emits {xs : List (Slot C R E)} (h : ∀ slot ∈ xs, slot.Emits V) :
    ∀ slot ∈ Pool.promote xs, slot.Emits V := by
  intro slot hslot
  obtain ⟨j, hj⟩ := List.mem_iff_getElem?.mp hslot
  obtain hx | ⟨p, hp, rfl⟩ := promote_getElem? xs j slot hj
  · exact h slot (List.mem_of_getElem? hx)
  · have hwait : Slot.Emits V (.waiting p) := h _ (List.mem_of_getElem? hp)
    exact hwait

theorem set_emits {xs : List (Slot C R E)} (h : ∀ slot ∈ xs, slot.Emits V) (j : ℕ)
    {new : Slot C R E} (hnew : new.Emits V) : ∀ slot ∈ xs.set j new, slot.Emits V := by
  intro slot hslot
  obtain hslot | rfl := List.mem_or_eq_of_mem_set hslot
  · exact h slot hslot
  · exact hnew

theorem advance_emits {ps : Pool C R E} (h : ∀ slot ∈ ps.slots, slot.Emits V) {j : ℕ} {i : I} {s : σ}
    (hears : ∀ c k, ps.slots[j]? = some (.running (.call c k)) → V.hears c (m.exec c i s).1) :
    ∀ slot ∈ (m.advance ps j i s).1.slots, slot.Emits V := by
  unfold Machine.advance
  split
  case h_1 =>
    simp only [Pool.finish]
    split
    · exact promote_emits (set_emits h j trivial)
    · exact set_emits h j trivial
  case h_2 => exact set_emits h j trivial
  case h_3 c k hj =>
    have hcall : Slot.Emits V (.running (.call c k)) := h _ (List.mem_of_getElem? hj)
    exact set_emits h j (hcall.2 _ (hears c k hj))
  case h_4 => exact h

theorem Conf.Emits.step {x : Conf C R E α × σ} (h : x.1.Emits V) (ch : Choice I A)
    (hears : ∀ th c i s, Machine.event? x ch = some (.exec th c i s) → V.hears c (m.exec c i s).1) :
    (m.step x ch).1.Emits V := by
  obtain ⟨conf, s⟩ := x
  cases ch with
  | act a => exact h
  | run j i =>
    cases conf with
    | seq p =>
      cases p with
      | ret a => exact h
      | fail e => exact h
      | call c k =>
        cases c with
        | inl c => exact h.2 _ (hears none c i s rfl)
        | inr f => exact ⟨startFrom_emits h.1 _, h.2⟩
    | pool ps k =>
      cases hr : ps.result? with
      | some r => simpa only [Machine.step, hr, Conf.Emits] using h.2 r
      | none =>
        simp only [Machine.step, hr, Conf.Emits]
        refine ⟨advance_emits m h.1 fun c k' hj => ?_, h.2⟩
        exact hears (some j) c i s (by simp [Machine.event?, Machine.command?, hr, hj])

theorem Conf.Emits.event {x : Conf C R E α × σ} (h : x.1.Emits V) {ch : Choice I A}
    {th : Option ℕ} {c : C} {i : I} {s : σ}
    (hev : Machine.event? x ch = some (.exec th c i s)) : V.asks c := by
  obtain ⟨conf, t⟩ := x
  cases ch with
  | act a => simp [Machine.event?] at hev
  | run j i' =>
    cases conf with
    | seq p =>
      cases p with
      | ret a => simp [Machine.event?, Machine.command?] at hev
      | fail e => simp [Machine.event?, Machine.command?] at hev
      | call c' k =>
        cases c' with
        | inr f => simp [Machine.event?, Machine.command?] at hev
        | inl c' =>
          obtain ⟨-, rfl, -, -⟩ : none = th ∧ c' = c ∧ i' = i ∧ t = s := by
            simpa [Machine.event?, Machine.command?] using hev
          exact h.1
    | pool ps k =>
      cases hr : ps.result? with
      | some r => simp [Machine.event?, Machine.command?, hr] at hev
      | none =>
        cases hj : ps.slots[j]? with
        | none => simp [Machine.event?, Machine.command?, hr, hj] at hev
        | some slot =>
          cases slot with
          | waiting p | done | failed => simp [Machine.event?, Machine.command?, hr, hj] at hev
          | running p =>
            cases p with
            | ret a | fail e => simp [Machine.event?, Machine.command?, hr, hj] at hev
            | call c' k' =>
              obtain ⟨-, rfl, -, -⟩ : some j = th ∧ c' = c ∧ i' = i ∧ t = s := by
                simpa [Machine.event?, Machine.command?, hr, hj] using hev
              have hcall : Slot.Emits V (.running (.call c' k')) := h.1 _ (List.mem_of_getElem? hj)
              exact hcall.1

theorem Conf.Emits.trace (hears : ∀ c i s, V.hears c (m.exec c i s).1) {x : Conf C R E α × σ}
    (h : x.1.Emits V) (chs : List (Choice I A)) {th : Option ℕ} {c : C} {i : I} {s : σ} (hmem : Event.exec th c i s ∈ m.trace x chs) :
    V.asks c := by
  induction chs generalizing x with
  | nil => simp [Machine.trace] at hmem
  | cons ch chs ih =>
    simp only [Machine.trace, List.mem_append, Option.mem_toList] at hmem
    obtain hev | hrest := hmem
    · exact h.event hev
    · exact ih (h.step m ch fun _ c i s _ => hears c i s) hrest

/-- A program that keeps to commands which keep `P`, as long as `P` makes their answers what the program
is prepared for, never leaves `P` and never gives another command. -/
theorem Conf.Emits.keeps {P : σ → Prop} {assume : C → I → σ → Prop} (hact : ∀ a s, P s → P (m.act a s))
    (hstep : ∀ c i s, V.asks c → assume c i s → P s → P (m.exec c i s).2)
    (hears : ∀ c i s, V.asks c → assume c i s → P s → V.hears c (m.exec c i s).1)
    {x : Conf C R E α × σ} (h : x.1.Emits V) (hx : P x.2) {chs : List (Choice I A)}
    (hall : ∀ th c i s, Event.exec th c i s ∈ m.trace x chs → assume c i s) :
    P (m.run x chs).2 ∧ ∀ th c i s, Event.exec th c i s ∈ m.trace x chs → V.asks c := by
  induction chs generalizing x with
  | nil => exact ⟨hx, by simp [Machine.trace]⟩
  | cons ch chs ih =>
    simp only [Machine.trace, List.mem_append, Option.mem_toList] at hall ⊢
    have hassume : ∀ th c i s, Machine.event? x ch = some (.exec th c i s) → assume c i s ∧ P s := by
      intro th c i s he
      refine ⟨hall th c i s (.inl he), ?_⟩
      obtain ⟨rfl, -⟩ := m.step_snd_some he
      exact hx
    have hnext : P (m.step x ch).2 := by
      cases he : Machine.event? x ch with
      | none => rwa [m.step_snd_none he]
      | some ev =>
        obtain ⟨hpre, hpost⟩ := m.step_snd_some he
        rw [hpost]
        cases ev with
        | act a s => exact hact a s (by rwa [← hpre] at hx)
        | exec th c i s => exact hstep c i s (h.event he) (hassume th c i s he).1 (hassume th c i s he).2
    have hemits : (m.step x ch).1.Emits V := h.step m ch fun th c i s he =>
      hears c i s (h.event he) (hassume th c i s he).1 (hassume th c i s he).2
    obtain ⟨hP, hasks⟩ := ih hemits hnext fun th c i s hev => hall th c i s (.inr hev)
    refine ⟨hP, ?_⟩
    rintro th c i s (hev | hev)
    · exact h.event hev
    · exact hasks th c i s hev

end Soundness

end OpenMigrate.Async
