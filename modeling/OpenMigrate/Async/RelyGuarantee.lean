import OpenMigrate.Async.Machine

namespace OpenMigrate.Async

open Prog Relation

variable {σ C : Type} {R : C → Type} {E I A α β : Type}

/-- The steps a run is held to, what the surroundings may do meanwhile, and what a command does. -/
structure Rules (σ C I : Type) where
  assume : C → I → σ → Prop
  rely : σ → σ → Prop
  guar : C → σ → σ → Prop
  refl : ∀ s, rely s s
  trans : ∀ {s t u}, rely s t → rely t u → rely s u

namespace Rules

variable (Γ : Rules σ C I)

def Move (s t : σ) : Prop := Γ.rely s t ∨ ∃ c, Γ.guar c s t

def Reach : σ → σ → Prop := ReflTransGen Γ.Move

/-- How the threads of one fork share the state: what each of them does, and what it lets the others do. -/
structure Shares where
  guar : C → σ → σ → Prop
  rely : ℕ → σ → σ → Prop
  refl : ∀ j s, rely j s s
  trans : ∀ {j s t u}, rely j s t → rely j t u → rely j s u
  env : ∀ j s t, Γ.rely s t → rely j s t

variable {Γ}

/-- The rules of the fork seen from outside. -/
def Shares.joint (D : Γ.Shares) : Rules σ C I :=
  { Γ with guar := fun c s t => Γ.guar c s t ∧ D.guar c s t }

/-- The rules of one thread of the fork. -/
def Shares.rules (D : Γ.Shares) (j : ℕ) : Rules σ C I where
  assume := Γ.assume
  rely := D.rely j
  guar c s t := D.joint.guar c s t ∧ ∀ i, i ≠ j → D.rely i s t
  refl := D.refl j
  trans := D.trans

theorem Reach.rely {s t u : σ} (h : Γ.Reach s t) (ht : Γ.rely t u) : Γ.Reach s u :=
  h.tail (.inl ht)

theorem Reach.guar {s t u : σ} {c : C} (h : Γ.Reach s t) (ht : Γ.guar c t u) : Γ.Reach s u :=
  h.tail (.inr ⟨c, ht⟩)

theorem Reach.keeps {P : σ → Prop} (hP : ∀ s t, Γ.Move s t → P s → P t) {s t : σ}
    (h : Γ.Reach s t) (hs : P s) : P t := by
  induction h with
  | refl => exact hs
  | tail _ hm ih => exact hP _ _ hm ih

end Rules

variable (m : Machine σ C R E I A) (Γ : Rules σ C I)

def callSpec : Spec σ C R E := fun c K s =>
  ∀ t, Γ.rely s t → ∀ i, Γ.assume c i t →
    Γ.guar c t (m.exec c i t).2 ∧ K (m.exec c i t).1 (m.exec c i t).2

def postOk (post : σ → Prop) : Except E α → σ → Prop
  | .ok _, s => post s
  | .error _, _ => True

def forkSpec (workers : List (Prog C R E Unit)) (K : Except E Unit → σ → Prop) (s : σ) : Prop :=
  ∃ (D : Γ.Shares) (post : ℕ → σ → Prop),
    (∀ j s t, post j s → D.rely j s t → post j t) ∧
    (∀ j p, workers[j]? = some p → wp (callSpec m (D.rules j)) p (postOk (post j)) s) ∧
    (∀ t, D.joint.Reach s t → (∀ j < workers.length, post j t) → K (.ok ()) t) ∧
    ∀ e t, D.joint.Reach s t → K (.error e) t

def mainSpec : Spec σ (Call C R E) (Answer C R E) E
  | .inl c => callSpec m Γ c
  | .inr f => fun K s => ∀ t, Γ.rely s t → forkSpec m Γ f.workers K t

theorem callSpec_mono : Spec.Mono (callSpec (E := E) m Γ) := by
  intro c K K' s hK h t ht i hi
  obtain ⟨hg, hk⟩ := h t ht i hi
  exact ⟨hg, hK _ _ hk⟩

theorem forkSpec_mono (workers : List (Prog C R E Unit)) (K K' : Except E Unit → σ → Prop) (s : σ)
    (hK : ∀ r t, K r t → K' r t) (h : forkSpec m Γ workers K s) : forkSpec m Γ workers K' s := by
  obtain ⟨D, post, hstable, hworkers, hok, herr⟩ := h
  exact ⟨D, post, hstable, hworkers, fun t ht hp => hK _ _ (hok t ht hp),
    fun e t ht => hK _ _ (herr e t ht)⟩

theorem mainSpec_mono : Spec.Mono (mainSpec (E := E) m Γ) := by
  intro c K K' s hK h
  cases c with
  | inl c => exact callSpec_mono m Γ c K K' s hK h
  | inr f => exact fun t ht => forkSpec_mono m Γ f.workers K K' t hK (h t ht)

variable {Γ}

theorem wp_rely (p : Prog C R E α) (Q : Except E α → σ → Prop)
    (hQ : ∀ r s t, Q r s → Γ.rely s t → Q r t) {s t : σ} (ht : Γ.rely s t)
    (h : wp (callSpec m Γ) p Q s) : wp (callSpec m Γ) p Q t := by
  cases p with
  | ret a => exact hQ _ _ _ h ht
  | fail e => exact hQ _ _ _ h ht
  | call c k => exact fun u hu => h u (Γ.trans ht hu)

theorem wp_main_rely (p : Main C R E α) (Q : Except E α → σ → Prop)
    (hQ : ∀ r s t, Q r s → Γ.rely s t → Q r t) {s t : σ} (ht : Γ.rely s t)
    (h : wp (mainSpec m Γ) p Q s) : wp (mainSpec m Γ) p Q t := by
  cases p with
  | ret a => exact hQ _ _ _ h ht
  | fail e => exact hQ _ _ _ h ht
  | call c k =>
    cases c with
    | inl c => exact fun u hu => h u (Γ.trans ht hu)
    | inr f => exact fun u hu => h u (Γ.trans ht hu)

theorem wp_lift (p : Prog C R E α) (Q : Except E α → σ → Prop) (s : σ) :
    wp (mainSpec m Γ) (Main.lift p) Q s ↔ wp (callSpec m Γ) p Q s := by
  induction p generalizing s with
  | ret a => rfl
  | fail e => rfl
  | call c k ih =>
    have he : (fun r => wp (mainSpec m Γ) (Main.lift (k r)) Q) = fun r => wp (callSpec m Γ) (k r) Q :=
      funext fun r => funext fun t => propext (ih r t)
    exact iff_of_eq (congrFun (congrArg (callSpec m Γ c) he) s)

def Rules.free (Γ : Rules σ C I) : Rules σ C I := { Γ with guar := fun _ _ _ => True }

theorem wp_of_free {p : Prog C R E α} {Q : Except E α → σ → Prop} {s : σ}
    (h : wp (callSpec m Γ.free) p Q s) (hG : wp (callSpec m Γ) p (fun _ _ => True) s) :
    wp (callSpec m Γ) p Q s := by
  induction p generalizing s with
  | ret a => exact h
  | fail e => exact h
  | call c k ih =>
    intro t ht i hi
    obtain ⟨hg, hk⟩ := hG t ht i hi
    exact ⟨hg, ih _ (h t ht i hi).2 hk⟩

theorem wp_weaken {Γ' : Rules σ C I} (hassume : ∀ c i s, Γ'.assume c i s → Γ.assume c i s)
    (hrely : ∀ s t, Γ'.rely s t → Γ.rely s t) (hguar : ∀ c s t, Γ.guar c s t → Γ'.guar c s t)
    {p : Prog C R E α} {Q : Except E α → σ → Prop} {s : σ} (h : wp (callSpec m Γ) p Q s) :
    wp (callSpec m Γ') p Q s := by
  induction p generalizing s with
  | ret a => exact h
  | fail e => exact h
  | call c k ih =>
    intro t ht i hi
    obtain ⟨hg, hk⟩ := h t (hrely s t ht) i (hassume c i t hi)
    exact ⟨hguar _ _ _ hg, ih _ hk⟩

theorem wp_any (hguar : ∀ c s t, Γ.guar c s t) {p : Prog C R E α} {Q : Except E α → σ → Prop}
    (hQ : ∀ r t, Q r t) (s : σ) : wp (callSpec m Γ) p Q s := by
  induction p generalizing s with
  | ret a => exact hQ _ _
  | fail e => exact hQ _ _
  | call c k ih => exact fun t _ i _ => ⟨hguar _ _ _, ih _ _⟩

theorem wp_and {p : Prog C R E α} {Q Q' : Except E α → σ → Prop} {s : σ} (h : wp (callSpec m Γ) p Q s)
    (h' : wp (callSpec m Γ) p Q' s) : wp (callSpec m Γ) p (fun r t => Q r t ∧ Q' r t) s := by
  induction p generalizing s with
  | ret a => exact ⟨h, h'⟩
  | fail e => exact ⟨h, h'⟩
  | call c k ih =>
    intro t ht i hi
    exact ⟨(h t ht i hi).1, ih _ (h t ht i hi).2 (h' t ht i hi).2⟩

theorem callSpec_intro {P : σ → Prop} (hP : ∀ s t, P s → Γ.rely s t → P t) {c : C}
    {K : Except E (R c) → σ → Prop} {s : σ} (hs : P s)
    (h : ∀ t i, P t → Γ.assume c i t →
      Γ.guar c t (m.exec c i t).2 ∧ K (m.exec c i t).1 (m.exec c i t).2) : callSpec m Γ c K s :=
  fun t ht i hi => h t i (hP s t hs ht) hi

section Soundness

variable (Γ) (Q : Except E α → σ → Prop)

def Slot.Good (D : Γ.Shares) (post : ℕ → σ → Prop) (s : σ) (j : ℕ) : Slot C R E → Prop
  | .waiting p => wp (callSpec m (D.rules j)) p (postOk (post j)) s
  | .running p => wp (callSpec m (D.rules j)) p (postOk (post j)) s
  | .done => post j s
  | .failed => True

def Conf.Good : Conf C R E α × σ → Prop
  | (.seq p, s) => wp (mainSpec m Γ) p Q s
  | (.pool ps k, s) =>
    ∃ (D : Γ.Shares) (post : ℕ → σ → Prop),
      (∀ j s t, post j s → D.rely j s t → post j t) ∧
      (∀ j (slot : Slot C R E), ps.slots[j]? = some slot → slot.Good m Γ D post s j) ∧
      (∀ t, D.joint.Reach s t → (∀ j < ps.slots.length, post j t) → wp (mainSpec m Γ) (k (.ok ())) Q t) ∧
      ∀ e t, D.joint.Reach s t → wp (mainSpec m Γ) (k (.error e)) Q t

def Event.Allowed : Event σ C I A → Prop
  | .exec _ c i s => Γ.assume c i s
  | .act a s => Γ.rely s (m.act a s)

def Event.Kept : Event σ C I A → Prop
  | .exec _ c i s => Γ.guar c s (m.exec c i s).2
  | .act a s => Γ.rely s (m.act a s)

variable {Γ}

theorem Slot.Good.rely {D : Γ.Shares} {post : ℕ → σ → Prop}
    (hpost : ∀ j s t, post j s → D.rely j s t → post j t) {s t : σ} {j : ℕ} {slot : Slot C R E}
    (ht : D.rely j s t) (h : slot.Good m Γ D post s j) : slot.Good m Γ D post t j := by
  have hok : ∀ (r : Except E Unit) s t,
      postOk (post j) r s → (D.rules j).rely s t → postOk (post j) r t := by
    intro r s t hr hst
    cases r with
    | ok a => exact hpost j s t hr hst
    | error e => trivial
  cases slot with
  | waiting p => exact wp_rely m p _ hok ht h
  | running p => exact wp_rely m p _ hok ht h
  | done => exact hpost j s t h ht
  | failed => trivial

theorem startFrom_getElem? (limit : ℕ) (ws : List (Prog C R E Unit)) (j : ℕ) (slot : Slot C R E)
    (h : (Pool.startFrom limit ws)[j]? = some slot) :
    ∃ p, ws[j]? = some p ∧ (slot = .waiting p ∨ slot = .running p) := by
  induction ws generalizing limit j with
  | nil => simp [Pool.startFrom] at h
  | cons p ws ih =>
    cases j with
    | zero =>
      simp only [Pool.startFrom, List.getElem?_cons_zero, Option.some.injEq] at h
      refine ⟨p, rfl, ?_⟩
      cases limit with
      | zero => exact .inl h.symm
      | succ n => exact .inr h.symm
    | succ j => exact ih (limit - 1) j (by simpa [Pool.startFrom] using h)

theorem startFrom_length (limit : ℕ) (ws : List (Prog C R E Unit)) :
    (Pool.startFrom limit ws).length = ws.length := by
  induction ws generalizing limit with
  | nil => rfl
  | cons p ws ih => simp [Pool.startFrom, ih]

theorem promote_length (xs : List (Slot C R E)) : (Pool.promote xs).length = xs.length := by
  fun_induction Pool.promote xs <;> simp_all

theorem promote_getElem? (xs : List (Slot C R E)) (j : ℕ) (slot : Slot C R E)
    (h : (Pool.promote xs)[j]? = some slot) :
    xs[j]? = some slot ∨ ∃ p, xs[j]? = some (.waiting p) ∧ slot = .running p := by
  induction xs generalizing j with
  | nil => simp [Pool.promote] at h
  | cons x xs ih =>
    cases x <;> cases j <;> simp_all [Pool.promote]

theorem Conf.Good.start {f : Fork C R E} {k : Except E Unit → Main C R E α} {s : σ}
    (h : forkSpec m Γ f.workers (fun r => wp (mainSpec m Γ) (k r) Q) s) :
    Conf.Good m Γ Q (.pool (Pool.start f) k, s) := by
  obtain ⟨D, post, hstable, hworkers, hok, herr⟩ := h
  refine ⟨D, post, hstable, ?_, ?_, herr⟩
  · intro j slot hslot
    obtain ⟨p, hp, hs⟩ := startFrom_getElem? _ _ j slot hslot
    obtain rfl | rfl := hs <;> exact hworkers j p hp
  · intro t ht hp
    refine hok t ht ?_
    simpa [Pool.start, startFrom_length] using hp

theorem Conf.Good.act {x : Conf C R E α × σ} {a : A}
    (hQ : ∀ r s t, Q r s → Γ.rely s t → Q r t) (ha : Γ.rely x.2 (m.act a x.2))
    (h : Conf.Good m Γ Q x) : Conf.Good m Γ Q (m.step x (.act a)) := by
  obtain ⟨conf, s⟩ := x
  cases conf with
  | seq p => exact wp_main_rely m p Q hQ ha h
  | pool ps k =>
    obtain ⟨D, post, hstable, hslots, hok, herr⟩ := h
    have hreach : ∀ t, D.joint.Reach (m.act a s) t → D.joint.Reach s t := fun t ht =>
      ReflTransGen.head (.inl ha) ht
    exact ⟨D, post, hstable, fun j slot hj => (hslots j slot hj).rely m hstable (D.env j _ _ ha),
      fun t ht => hok t (hreach t ht), fun e t ht => herr e t (hreach t ht)⟩

theorem Conf.Good.result {ps : Pool C R E} {k : Except E Unit → Main C R E α} {s : σ}
    {r : Except E Unit} (hr : ps.result? = some r) (h : Conf.Good m Γ Q (.pool ps k, s)) :
    wp (mainSpec m Γ) (k r) Q s := by
  obtain ⟨D, post, -, hslots, hok, herr⟩ := h
  unfold Pool.result? at hr
  split at hr
  · exact absurd hr (by simp)
  cases he : ps.error with
  | some e =>
    rw [he] at hr
    obtain rfl : Except.error e = r := by simpa using hr
    exact herr e s .refl
  | none =>
    rw [he] at hr
    simp only [Option.ite_none_right_eq_some, Option.some.injEq] at hr
    obtain ⟨hall, rfl⟩ := hr
    refine hok s .refl ?_
    intro j hj
    have hdone := List.all_eq_true.mp hall _ (List.getElem_mem hj)
    have hgood := hslots j _ (List.getElem?_eq_getElem hj)
    cases hslot : ps.slots[j] with
    | done => rwa [hslot] at hgood
    | waiting p => rw [hslot] at hdone; simp [Slot.isDone] at hdone
    | running p => rw [hslot] at hdone; simp [Slot.isDone] at hdone
    | failed => rw [hslot] at hdone; simp [Slot.isDone] at hdone

theorem Conf.Good.finish {ps : Pool C R E} {k : Except E Unit → Main C R E α} {s : σ} {j : ℕ}
    {u : Unit} (hj : ps.slots[j]? = some (.running (.ret u)))
    (h : Conf.Good m Γ Q (.pool ps k, s)) : Conf.Good m Γ Q (.pool (ps.finish j) k, s) := by
  obtain ⟨D, post, hstable, hslots, hok, herr⟩ := h
  have hset : ∀ i (slot : Slot C R E), (ps.slots.set j .done)[i]? = some slot →
      slot.Good m Γ D post s i := by
    intro i slot hi
    by_cases hij : j = i
    · subst hij
      have hlt : j < ps.slots.length := (List.getElem?_eq_some_iff.mp hj).1
      obtain rfl : Slot.done = slot := by simpa [hlt] using hi
      have hret : Slot.Good m Γ D post s j (.running (.ret u)) := hslots j _ hj
      exact hret
    · exact hslots i slot (by simpa [List.getElem?_set_ne hij] using hi)
  have hlen : (ps.finish j).slots.length = ps.slots.length := by
    simp only [Pool.finish]
    split <;> simp [promote_length]
  refine ⟨D, post, hstable, ?_, fun t ht hp => hok t ht (hlen ▸ hp), herr⟩
  intro i slot hi
  simp only [Pool.finish] at hi
  split at hi
  · obtain hi | ⟨p, hp, rfl⟩ := promote_getElem? _ i slot hi
    · exact hset i slot hi
    · have hwait : Slot.Good m Γ D post s i (.waiting p) := hset i _ hp
      exact hwait
  · exact hset i slot hi

theorem Conf.Good.abandon {ps : Pool C R E} {k : Except E Unit → Main C R E α} {s : σ} {j : ℕ}
    {e : E} (h : Conf.Good m Γ Q (.pool ps k, s)) : Conf.Good m Γ Q (.pool (ps.abandon j e) k, s) := by
  obtain ⟨D, post, hstable, hslots, hok, herr⟩ := h
  refine ⟨D, post, hstable, ?_, ?_, herr⟩
  · intro i slot hi
    by_cases hij : j = i
    · subst hij
      obtain ⟨_, rfl⟩ : j < ps.slots.length ∧ Slot.failed = slot := by
        simpa [Pool.abandon, List.getElem?_set] using hi
      trivial
    · exact hslots i slot (by simpa [Pool.abandon, List.getElem?_set_ne hij] using hi)
  · intro t ht hp
    exact hok t ht (by simpa [Pool.abandon] using hp)

theorem Conf.Good.call {ps : Pool C R E} {k : Except E Unit → Main C R E α} {s : σ} {j : ℕ}
    {c : C} {k' : Except E (R c) → Prog C R E Unit} {i : I}
    (hj : ps.slots[j]? = some (.running (.call c k'))) (hi : Γ.assume c i s)
    (h : Conf.Good m Γ Q (.pool ps k, s)) :
    Γ.guar c s (m.exec c i s).2 ∧
      Conf.Good m Γ Q (.pool ⟨ps.slots.set j (.running (k' (m.exec c i s).1)), ps.error⟩ k,
        (m.exec c i s).2) := by
  obtain ⟨D, post, hstable, hslots, hok, herr⟩ := h
  have hrun : wp (callSpec m (D.rules j)) (.call c k') (postOk (post j)) s := hslots j _ hj
  obtain ⟨⟨hg, hothers⟩, hcont⟩ := hrun s (D.refl j s) i hi
  refine ⟨hg.1, D, post, hstable, ?_, ?_, ?_⟩
  · intro n slot hn
    by_cases hjn : j = n
    · subst hjn
      obtain ⟨_, rfl⟩ : j < ps.slots.length ∧ Slot.running (k' (m.exec c i s).1) = slot := by
        simpa [List.getElem?_set] using hn
      exact hcont
    · have hslot := hslots n slot (by simpa [List.getElem?_set_ne hjn] using hn)
      exact hslot.rely m hstable (hothers n (Ne.symm hjn))
  · intro t ht hp
    refine hok t (ReflTransGen.head (.inr ⟨c, hg⟩) ht) ?_
    simpa using hp
  · exact fun e t ht => herr e t (ReflTransGen.head (.inr ⟨c, hg⟩) ht)

theorem Conf.Good.step {x : Conf C R E α × σ} (hQ : ∀ r s t, Q r s → Γ.rely s t → Q r t)
    (ch : Choice I A) (hall : ∀ ev ∈ Machine.event? x ch, ev.Allowed m Γ) (h : Conf.Good m Γ Q x) :
    (∀ ev ∈ Machine.event? x ch, ev.Kept m Γ) ∧ Conf.Good m Γ Q (m.step x ch) := by
  obtain ⟨conf, s⟩ := x
  cases ch with
  | act a =>
    have ha : Γ.rely s (m.act a s) := hall (.act a s) (by simp [Machine.event?])
    refine ⟨?_, h.act m Q hQ ha⟩
    intro ev hev
    obtain rfl : Event.act a s = ev := by simpa [Machine.event?] using hev
    exact ha
  | run j i =>
    cases conf with
    | seq p =>
      cases p with
      | ret a => exact ⟨by simp [Machine.event?, Machine.command?], h⟩
      | fail e => exact ⟨by simp [Machine.event?, Machine.command?], h⟩
      | call c k =>
        cases c with
        | inl c =>
          have hi : Γ.assume c i s := hall (.exec none c i s) (by simp [Machine.event?, Machine.command?])
          obtain ⟨hg, hk⟩ := h s (Γ.refl s) i hi
          refine ⟨?_, hk⟩
          intro ev hev
          obtain rfl : Event.exec none c i s = ev := by
            simpa [Machine.event?, Machine.command?] using hev
          exact hg
        | inr f =>
          exact ⟨by simp [Machine.event?, Machine.command?], Conf.Good.start m Q (h s (Γ.refl s))⟩
    | pool ps k =>
      cases hr : ps.result? with
      | some r =>
        refine ⟨by simp [Machine.event?, Machine.command?, hr], ?_⟩
        simpa only [Machine.step, hr, Conf.Good] using h.result m Q hr
      | none =>
        cases hj : ps.slots[j]? with
        | none =>
          refine ⟨by simp [Machine.event?, Machine.command?, hr, hj], ?_⟩
          simpa only [Machine.step, Machine.advance, hr, hj] using h
        | some slot =>
          cases slot with
          | waiting p =>
            refine ⟨by simp [Machine.event?, Machine.command?, hr, hj], ?_⟩
            simpa only [Machine.step, Machine.advance, hr, hj] using h
          | done =>
            refine ⟨by simp [Machine.event?, Machine.command?, hr, hj], ?_⟩
            simpa only [Machine.step, Machine.advance, hr, hj] using h
          | failed =>
            refine ⟨by simp [Machine.event?, Machine.command?, hr, hj], ?_⟩
            simpa only [Machine.step, Machine.advance, hr, hj] using h
          | running p =>
            cases p with
            | ret u =>
              refine ⟨by simp [Machine.event?, Machine.command?, hr, hj], ?_⟩
              simpa only [Machine.step, Machine.advance, hr, hj] using h.finish m Q hj
            | fail e =>
              refine ⟨by simp [Machine.event?, Machine.command?, hr, hj], ?_⟩
              simpa only [Machine.step, Machine.advance, hr, hj] using h.abandon m Q
            | call c k' =>
              have hev : Machine.event? (A := A) (.pool ps k, s) (.run j i) = some (.exec (some j) c i s) := by
                simp [Machine.event?, Machine.command?, hr, hj]
              obtain ⟨hg, hgood⟩ := h.call m Q hj (hall _ hev)
              refine ⟨?_, by simpa only [Machine.step, Machine.advance, hr, hj] using hgood⟩
              intro ev hmem
              obtain rfl : Event.exec (some j) c i s = ev := by simpa [hev] using hmem
              exact hg

/-- A program shown correct under its rules keeps them, and stays correct, in every run held to them. -/
theorem Conf.Good.run {x : Conf C R E α × σ} (hQ : ∀ r s t, Q r s → Γ.rely s t → Q r t)
    (chs : List (Choice I A)) (hall : ∀ ev ∈ m.trace x chs, ev.Allowed m Γ) (h : Conf.Good m Γ Q x) :
    (∀ ev ∈ m.trace x chs, ev.Kept m Γ) ∧ Conf.Good m Γ Q (m.run x chs) := by
  induction chs generalizing x with
  | nil => exact ⟨by simp [Machine.trace], h⟩
  | cons ch chs ih =>
    simp only [Machine.trace, List.mem_append, Option.mem_toList] at hall
    obtain ⟨hkept, hgood⟩ := h.step m Q hQ ch fun ev hev => hall ev (.inl hev)
    obtain ⟨hkept', hgood'⟩ := ih (fun ev hev => hall ev (.inr hev)) hgood
    refine ⟨?_, hgood'⟩
    simp only [Machine.trace, List.mem_append, Option.mem_toList]
    exact fun ev hev => hev.elim (hkept ev) (hkept' ev)

theorem Event.Kept.move {ev : Event σ C I A} (h : ev.Kept m Γ) : Γ.Move ev.pre (m.post ev) := by
  cases ev with
  | exec th c i s => exact .inr ⟨c, h⟩
  | act a s => exact .inl h

theorem run_reach {x : Conf C R E α × σ} (chs : List (Choice I A))
    (hkept : ∀ ev ∈ m.trace x chs, ev.Kept m Γ) : Γ.Reach x.2 (m.run x chs).2 := by
  induction chs generalizing x with
  | nil => exact .refl
  | cons ch chs ih =>
    simp only [Machine.trace, List.mem_append, Option.mem_toList] at hkept
    have hrest := ih fun ev hev => hkept ev (.inr hev)
    cases hev : Machine.event? x ch with
    | none => rwa [m.step_snd_none hev] at hrest
    | some ev =>
      obtain ⟨hpre, hpost⟩ := m.step_snd_some hev
      rw [hpost] at hrest
      rw [← hpre]
      exact ReflTransGen.head ((hkept ev (.inl hev)).move m) hrest

end Soundness

end OpenMigrate.Async
