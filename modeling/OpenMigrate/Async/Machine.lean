import OpenMigrate.Async.Prog

namespace OpenMigrate.Async

/-- How a command changes the shared state, and what the surroundings do to it on their own. -/
structure Machine (σ C : Type) (R : C → Type) (E I A : Type) where
  exec : (c : C) → I → σ → Except E (R c) × σ
  act : A → σ → σ

/-- A bounded map over workers: at most `limit` of them are in flight at once. -/
structure Fork (C : Type) (R : C → Type) (E : Type) where
  limit : ℕ
  workers : List (Prog C R E Unit)

abbrev Call (C : Type) (R : C → Type) (E : Type) := C ⊕ Fork C R E

abbrev Answer (C : Type) (R : C → Type) (E : Type) : Call C R E → Type
  | .inl c => R c
  | .inr _ => Unit

/-- A program that may also wait for a bounded map. -/
abbrev Main (C : Type) (R : C → Type) (E α : Type) := Prog (Call C R E) (Answer C R E) E α

inductive Slot (C : Type) (R : C → Type) (E : Type) where
  | waiting (p : Prog C R E Unit)
  | running (p : Prog C R E Unit)
  | done
  | failed

structure Pool (C : Type) (R : C → Type) (E : Type) where
  slots : List (Slot C R E)
  error : Option E

inductive Conf (C : Type) (R : C → Type) (E α : Type) where
  | seq (p : Main C R E α)
  | pool (ps : Pool C R E) (k : Except E Unit → Main C R E α)

inductive Choice (I A : Type) where
  | run (thread : ℕ) (input : I)
  | act (a : A)

inductive Event (σ C I A : Type) where
  | exec (thread : Option ℕ) (c : C) (input : I) (pre : σ)
  | act (a : A) (pre : σ)

variable {σ C : Type} {R : C → Type} {E I A α β : Type}

def Event.pre : Event σ C I A → σ
  | .exec _ _ _ s => s
  | .act _ s => s

namespace Main

def lift (p : Prog C R E α) : Main C R E α :=
  p.hoist (fun c k => Prog.call (Sum.inl c) k)

def mapWithConcurrency (limit : ℕ) (workers : List (Prog C R E Unit)) : Main C R E Unit :=
  Prog.perform (Sum.inr ⟨limit, workers⟩ : Call C R E)

end Main

namespace Slot

def isRunning : Slot C R E → Bool
  | running _ => true
  | _ => false

def isDone : Slot C R E → Bool
  | done => true
  | _ => false

end Slot

namespace Pool

def startFrom (limit : ℕ) : List (Prog C R E Unit) → List (Slot C R E)
  | [] => []
  | p :: ps => (match limit with | 0 => .waiting p | _ + 1 => .running p) :: startFrom (limit - 1) ps

def start (f : Fork C R E) : Pool C R E := ⟨startFrom (max 1 f.limit) f.workers, none⟩

def promote : List (Slot C R E) → List (Slot C R E)
  | [] => []
  | .waiting p :: xs => .running p :: xs
  | x :: xs => x :: promote xs

def finish (ps : Pool C R E) (j : ℕ) : Pool C R E :=
  let slots := ps.slots.set j .done
  ⟨if ps.error.isNone then promote slots else slots, ps.error⟩

def abandon (ps : Pool C R E) (j : ℕ) (e : E) : Pool C R E :=
  ⟨ps.slots.set j .failed, ps.error.or (some e)⟩

def result? (ps : Pool C R E) : Option (Except E Unit) :=
  if ps.slots.any Slot.isRunning then none
  else match ps.error with
    | some e => some (.error e)
    | none => if ps.slots.all Slot.isDone then some (.ok ()) else none

end Pool

namespace Machine

variable (m : Machine σ C R E I A)

def advance (ps : Pool C R E) (j : ℕ) (i : I) (s : σ) : Pool C R E × σ :=
  match ps.slots[j]? with
  | some (.running (.ret _)) => (ps.finish j, s)
  | some (.running (.fail e)) => (ps.abandon j e, s)
  | some (.running (.call c k)) =>
    let r := m.exec c i s
    (⟨ps.slots.set j (.running (k r.1)), ps.error⟩, r.2)
  | _ => (ps, s)

def step (x : Conf C R E α × σ) : Choice I A → Conf C R E α × σ
  | .act a => (x.1, m.act a x.2)
  | .run j i =>
    match x.1 with
    | .seq (.ret _) => x
    | .seq (.fail _) => x
    | .seq (.call (.inl c) k) =>
      let r := m.exec c i x.2
      (.seq (k r.1), r.2)
    | .seq (.call (.inr f) k) => (.pool (Pool.start f) k, x.2)
    | .pool ps k =>
      match ps.result? with
      | some r => (.seq (k r), x.2)
      | none =>
        let y := m.advance ps j i x.2
        (.pool y.1 k, y.2)

def run (x : Conf C R E α × σ) : List (Choice I A) → Conf C R E α × σ
  | [] => x
  | ch :: chs => run (m.step x ch) chs

/-- The command the chosen thread is about to perform. -/
def command? (conf : Conf C R E α) (j : ℕ) : Option (Option ℕ × C) :=
  match conf with
  | .seq (.call (.inl c) _) => some (none, c)
  | .pool ps _ =>
    match ps.result?, ps.slots[j]? with
    | none, some (.running (.call c _)) => some (some j, c)
    | _, _ => none
  | _ => none

def event? (x : Conf C R E α × σ) : Choice I A → Option (Event σ C I A)
  | .act a => some (.act a x.2)
  | .run j i => (command? x.1 j).map (fun tc => .exec tc.1 tc.2 i x.2)

def trace (x : Conf C R E α × σ) : List (Choice I A) → List (Event σ C I A)
  | [] => []
  | ch :: chs => (event? x ch).toList ++ trace (m.step x ch) chs

def post : Event σ C I A → σ
  | .exec _ c i s => (m.exec c i s).2
  | .act a s => m.act a s

theorem run_append (x : Conf C R E α × σ) (xs ys : List (Choice I A)) :
    m.run x (xs ++ ys) = m.run (m.run x xs) ys := by
  induction xs generalizing x with
  | nil => rfl
  | cons ch chs ih => exact ih (m.step x ch)

theorem trace_append (x : Conf C R E α × σ) (xs ys : List (Choice I A)) :
    m.trace x (xs ++ ys) = m.trace x xs ++ m.trace (m.run x xs) ys := by
  induction xs generalizing x with
  | nil => rfl
  | cons ch chs ih => simp [trace, run, ih]

theorem trace_split {x : Conf C R E α × σ} {chs : List (Choice I A)} {before after : List (Event σ C I A)}
    {ev : Event σ C I A} (h : m.trace x chs = before ++ ev :: after) :
    ∃ past ch rest, chs = past ++ ch :: rest ∧ m.trace x past = before ∧
      event? (m.run x past) ch = some ev ∧ m.trace (m.step (m.run x past) ch) rest = after := by
  induction chs generalizing x before with
  | nil => simp [trace] at h
  | cons ch chs ih =>
    cases he : event? x ch with
    | none =>
      simp only [trace, he, Option.toList_none, List.nil_append] at h
      obtain ⟨past, ch', rest, rfl, hpast, hev, hrest⟩ := ih h
      exact ⟨ch :: past, ch', rest, rfl, by simpa [trace, he] using hpast, hev, hrest⟩
    | some ev' =>
      simp only [trace, he, Option.toList_some, List.singleton_append] at h
      cases before with
      | nil =>
        obtain ⟨rfl, hrest⟩ := List.cons.inj h
        exact ⟨[], ch, chs, rfl, rfl, he, hrest⟩
      | cons ev'' before =>
        obtain ⟨rfl, hlater⟩ := List.cons.inj h
        obtain ⟨past, ch', rest, rfl, hpast, hev, hrest⟩ := ih hlater
        exact ⟨ch :: past, ch', rest, rfl, by simp [trace, he, hpast], hev, hrest⟩

theorem mem_trace {x : Conf C R E α × σ} {chs : List (Choice I A)} {ev : Event σ C I A}
    (h : ev ∈ m.trace x chs) :
    ∃ before ch after, chs = before ++ ch :: after ∧ event? (m.run x before) ch = some ev := by
  obtain ⟨before, after, hsplit⟩ := List.append_of_mem h
  obtain ⟨past, ch, rest, rfl, -, hev, -⟩ := m.trace_split hsplit
  exact ⟨past, ch, rest, rfl, hev⟩

theorem trace_input {x : Conf C R E α × σ} {chs : List (Choice I A)} {th : Option ℕ} {c : C} {i : I} {s : σ}
    (h : Event.exec th c i s ∈ m.trace x chs) : ∃ j, Choice.run j i ∈ chs := by
  obtain ⟨before, ch, after, rfl, he⟩ := m.mem_trace h
  cases ch with
  | act a => cases he
  | run j i' =>
    obtain ⟨tc, -, htc⟩ := Option.map_eq_some_iff.mp he
    cases htc
    exact ⟨j, by simp⟩

theorem step_snd (x : Conf C R E α × σ) (ch : Choice I A) :
    (m.step x ch).2 = ((event? x ch).map m.post).getD x.2 ∧ ∀ ev ∈ event? x ch, ev.pre = x.2 := by
  obtain ⟨conf, s⟩ := x
  cases ch with
  | act a => simp [step, event?, post, Event.pre]
  | run j i =>
    cases conf with
    | seq p =>
      match p with
      | .ret _ | .fail _ | .call (.inr _) _ => simp [step, event?, command?]
      | .call (.inl c) k => simp [step, event?, command?, post, Event.pre]
    | pool ps k =>
      cases hr : ps.result? with
      | some r => simp [step, event?, command?, hr]
      | none =>
        match hj : ps.slots[j]? with
        | none | some (.waiting _) | some .done | some .failed
        | some (.running (.ret _)) | some (.running (.fail _)) =>
          simp [step, event?, command?, advance, hr, hj]
        | some (.running (.call c k')) =>
          simp [step, event?, command?, advance, hr, hj, post, Event.pre]

theorem step_snd_none {x : Conf C R E α × σ} {ch : Choice I A} (h : event? x ch = none) :
    (m.step x ch).2 = x.2 := by
  rw [(m.step_snd x ch).1, h]
  rfl

theorem step_snd_some {x : Conf C R E α × σ} {ch : Choice I A} {ev : Event σ C I A}
    (h : event? x ch = some ev) : ev.pre = x.2 ∧ (m.step x ch).2 = m.post ev := by
  refine ⟨(m.step_snd x ch).2 ev h, ?_⟩
  rw [(m.step_snd x ch).1, h]
  rfl

theorem run_keeps {P : σ → Prop} {x : Conf C R E α × σ} {chs : List (Choice I A)}
    (h : ∀ ev ∈ m.trace x chs, P ev.pre → P (m.post ev)) (hx : P x.2) : P (m.run x chs).2 := by
  induction chs generalizing x with
  | nil => exact hx
  | cons ch chs ih =>
    simp only [trace, List.mem_append, Option.mem_toList] at h
    refine ih (fun ev hev => h ev (.inr hev)) ?_
    cases he : event? x ch with
    | none => rwa [m.step_snd_none he]
    | some ev =>
      obtain ⟨hpre, hpost⟩ := m.step_snd_some he
      rw [hpost]
      exact h ev (.inl he) (by rwa [hpre])

theorem keeps_pre {P : σ → Prop} {x : Conf C R E α × σ} {chs : List (Choice I A)} {before after : List (Event σ C I A)}
    {ev : Event σ C I A} (h : m.trace x chs = before ++ ev :: after) (hx : P x.2)
    (hbefore : ∀ ev ∈ before, P ev.pre → P (m.post ev)) : P ev.pre := by
  obtain ⟨past, ch, rest, rfl, hpast, he, -⟩ := m.trace_split h
  rw [(m.step_snd_some he).1]
  refine m.run_keeps ?_ hx
  rw [hpast]
  exact hbefore

theorem run_keeps_from {P : σ → Prop} {x : Conf C R E α × σ} {chs : List (Choice I A)}
    (h : ∀ ev ∈ m.trace x chs, P ev.pre → P (m.post ev)) {ev : Event σ C I A} (hev : ev ∈ m.trace x chs)
    (hP : P (m.post ev)) : P (m.run x chs).2 := by
  obtain ⟨before, ch, after, rfl, he⟩ := m.mem_trace hev
  rw [run_append, run]
  rw [trace_append, trace] at h
  refine m.run_keeps (fun ev' hev' => h ev' (by simp [hev'])) ?_
  rw [(m.step_snd_some he).2]
  exact hP

/-- What one event of a run brings about and the events after it keep holds when a later one comes. -/
theorem keeps_between {P : σ → Prop} {x : Conf C R E α × σ} {chs : List (Choice I A)}
    {before since after : List (Event σ C I A)} {first last : Event σ C I A}
    (h : m.trace x chs = before ++ first :: (since ++ last :: after)) (hfirst : P (m.post first))
    (hsince : ∀ ev ∈ since, P ev.pre → P (m.post ev)) : P last.pre := by
  obtain ⟨past, ch, rest, rfl, -, he, hrest⟩ := m.trace_split h
  refine m.keeps_pre hrest ?_ hsince
  rw [(m.step_snd_some he).2]
  exact hfirst

theorem run_keeps_after {P : σ → Prop} {x : Conf C R E α × σ} {chs : List (Choice I A)}
    (h : ∀ ev ∈ m.trace x chs, P ev.pre → P (m.post ev)) {ev : Event σ C I A} (hev : ev ∈ m.trace x chs)
    (hP : P ev.pre) : P (m.run x chs).2 := by
  obtain ⟨before, ch, after, rfl, he⟩ := m.mem_trace hev
  rw [run_append]
  rw [trace_append] at h
  refine m.run_keeps (fun ev' hev' => h ev' (List.mem_append_right _ hev')) ?_
  rw [← (m.step_snd_some he).1]
  exact hP

end Machine

end OpenMigrate.Async
