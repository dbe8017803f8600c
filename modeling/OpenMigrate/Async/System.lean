import OpenMigrate.Async.Emits

namespace OpenMigrate.Async

variable {S L C : Type} {R : C → Type} {E I A : Type}

/-- Several programs over one shared state, each with variables of its own. -/
abbrev System (C : Type) (R : C → Type) (E S L : Type) := List (Conf C R E Unit × L) × S

namespace Machine

variable (m : Machine (S × L) C R E I A)

def sysStep (x : System C R E S L) (ch : ℕ × Choice I A) : System C R E S L :=
  match x.1[ch.1]? with
  | some (conf, l) =>
    let y := m.step (conf, (x.2, l)) ch.2
    (x.1.set ch.1 (y.1, y.2.2), y.2.1)
  | none => x

def sysRun (x : System C R E S L) : List (ℕ × Choice I A) → System C R E S L
  | [] => x
  | ch :: chs => sysRun (m.sysStep x ch) chs

def sysEvent? (x : System C R E S L) (ch : ℕ × Choice I A) : Option (Event (S × L) C I A) :=
  match x.1[ch.1]? with
  | some (conf, l) => event? (conf, (x.2, l)) ch.2
  | none => none

def sysTrace (x : System C R E S L) : List (ℕ × Choice I A) → List (Event (S × L) C I A)
  | [] => []
  | ch :: chs => (sysEvent? x ch).toList ++ sysTrace (m.sysStep x ch) chs

theorem sysStep_none {x : System C R E S L} {ch : ℕ × Choice I A} (h : sysEvent? x ch = none) :
    (m.sysStep x ch).2 = x.2 := by
  unfold sysStep
  unfold sysEvent? at h
  split
  · rename_i conf l hj
    rw [hj] at h
    have hstep : (m.step (conf, (x.2, l)) ch.2).2 = (x.2, l) := m.step_snd_none h
    exact congrArg Prod.fst hstep
  · rfl

theorem sysStep_some {x : System C R E S L} {ch : ℕ × Choice I A} {ev : Event (S × L) C I A}
    (h : sysEvent? x ch = some ev) : ev.pre.1 = x.2 ∧ (m.sysStep x ch).2 = (m.post ev).1 := by
  unfold sysStep
  unfold sysEvent? at h
  split
  · rename_i conf l hj
    rw [hj] at h
    obtain ⟨hpre, hpost⟩ := m.step_snd_some h
    exact ⟨congrArg Prod.fst hpre, congrArg Prod.fst hpost⟩
  · rename_i hj
    rw [hj] at h
    cases h

end Machine

variable {m : Machine (S × L) C R E I A} {V : Vocabulary C R E}

def Event.Asks (V : Vocabulary C R E) : Event (S × L) C I A → Prop
  | .exec _ c _ _ => V.asks c
  | .act .. => True

theorem sysEvent_asks {x : System C R E S L} (h : ∀ t ∈ x.1, t.1.Emits V) {ch : ℕ × Choice I A}
    {ev : Event (S × L) C I A} (hev : Machine.sysEvent? x ch = some ev) : ev.Asks V := by
  unfold Machine.sysEvent? at hev
  split at hev
  · rename_i conf l hj
    cases ev with
    | exec th c i s => exact Conf.Emits.event (x := (conf, (x.2, l))) (h _ (List.mem_of_getElem? hj)) hev
    | act a s => trivial
  · cases hev

theorem sysStep_emits (hears : ∀ c i s, V.hears c (m.exec c i s).1) {x : System C R E S L}
    (h : ∀ t ∈ x.1, t.1.Emits V) (ch : ℕ × Choice I A) : ∀ t ∈ (m.sysStep x ch).1, t.1.Emits V := by
  unfold Machine.sysStep
  split
  · rename_i conf l hj
    intro t ht
    obtain ht | rfl := List.mem_or_eq_of_mem_set ht
    · exact h t ht
    · exact Conf.Emits.step (x := (conf, (x.2, l))) m (h _ (List.mem_of_getElem? hj)) ch.2 fun _ c i s _ => hears c i s
  · exact h

/-- A property that an event keeps exactly when it is a good one holds in every state of a run
exactly when every event of the run is good. -/
theorem always_iff_events {P : S → Prop} {G : Event (S × L) C I A → Prop}
    (hears : ∀ c i s, V.hears c (m.exec c i s).1)
    (hev : ∀ ev : Event (S × L) C I A, ev.Asks V → P ev.pre.1 → (P (m.post ev).1 ↔ G ev))
    {x : System C R E S L} (hx : ∀ t ∈ x.1, t.1.Emits V) (h0 : P x.2) (chs : List (ℕ × Choice I A)) :
    (∀ n, P (m.sysRun x (chs.take n)).2) ↔ ∀ ev ∈ m.sysTrace x chs, G ev := by
  induction chs generalizing x with
  | nil => simp [Machine.sysRun, Machine.sysTrace, h0]
  | cons ch chs ih =>
    -- the run's states are the start and the states of the run from the first step on
    have hsplit : (∀ n, P (m.sysRun x ((ch :: chs).take n)).2) ↔
        ∀ n, P (m.sysRun (m.sysStep x ch) (chs.take n)).2 := by
      constructor
      · intro h n
        exact h (n + 1)
      · intro h n
        cases n with
        | zero => exact h0
        | succ n => exact h n
    have hstart : (∀ n, P (m.sysRun (m.sysStep x ch) (chs.take n)).2) → P (m.sysStep x ch).2 :=
      fun h => h 0
    have hrest : P (m.sysStep x ch).2 →
        ((∀ n, P (m.sysRun (m.sysStep x ch) (chs.take n)).2) ↔
          ∀ ev ∈ m.sysTrace (m.sysStep x ch) chs, G ev) :=
      fun hP => ih (sysStep_emits hears hx ch) hP
    rw [hsplit]
    simp only [Machine.sysTrace, List.mem_append, Option.mem_toList]
    cases he : Machine.sysEvent? x ch with
    | none =>
      have hP : P (m.sysStep x ch).2 := by rwa [m.sysStep_none he]
      rw [hrest hP]
      simp
    | some ev =>
      obtain ⟨hpre, hpost⟩ := m.sysStep_some he
      have hgood : P (m.sysStep x ch).2 ↔ G ev := by
        rw [hpost]
        exact hev ev (sysEvent_asks hx he) (by rwa [hpre])
      constructor
      · intro h ev' hmem
        have hP := hstart h
        obtain hmem | hmem := hmem
        · obtain rfl : ev = ev' := by simpa using hmem
          exact hgood.mp hP
        · exact (hrest hP).mp h ev' hmem
      · intro h
        have hP : P (m.sysStep x ch).2 := hgood.mpr (h ev (.inl rfl))
        exact (hrest hP).mpr fun ev' hmem => h ev' (.inr hmem)

end OpenMigrate.Async
