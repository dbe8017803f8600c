import OpenMigrate.Async.Completed
import OpenMigrate.Async.RelyGuarantee
import Mathlib.Algebra.BigOperators.Group.List.Basic
import Mathlib.Algebra.Ring.Nat

namespace OpenMigrate.Async

variable {C : Type} {R : C → Type} {σ E I A α β : Type}

/-- One step of a program that may wait for a bounded map: a command of its own, or the map with all that
its workers heard, in the order they heard it. -/
inductive Episode (C : Type) (R : C → Type) (E : Type) where
  | asked (c : C) (r : Except E (R c))
  | mapped (f : Fork C R E) (r : Except E Unit) (log : List (ℕ × Heard C R E))

/-- What one thread heard. -/
def ownLog {Th H : Type} [DecidableEq Th] (th : Th) (log : List (Th × H)) : List H :=
  log.filterMap fun e => if e.1 = th then some e.2 else none

section OwnLog

variable {Th H : Type} [DecidableEq Th]

theorem ownLog_append (th : Th) (xs ys : List (Th × H)) : ownLog th (xs ++ ys) = ownLog th xs ++ ownLog th ys :=
  List.filterMap_append

theorem ownLog_self (th : Th) (h : H) : ownLog th [(th, h)] = [h] := by
  simp [ownLog]

theorem ownLog_other {th th' : Th} (hne : th' ≠ th) (h : H) : ownLog th [(th', h)] = [] := by
  simp [ownLog, hne]

theorem sum_range_single (n a x : ℕ) :
    ((List.range n).map fun j => if a = j then x else 0).sum = if a < n then x else 0 := by
  induction n with
  | zero => rfl
  | succ n ih =>
    rw [List.sum_range_succ, ih]
    split_ifs <;> omega

theorem ownLog_sum {n : ℕ} {log : List (ℕ × H)} (hlt : ∀ e ∈ log, e.1 < n) (w : H → ℕ) :
    ((List.range n).map fun j => ((ownLog j log).map w).sum).sum = (log.map fun e => w e.2).sum := by
  induction log with
  | nil =>
    apply List.sum_eq_zero
    intro x hx
    obtain ⟨j, -, rfl⟩ := List.mem_map.mp hx
    rfl
  | cons e log ih =>
    have hhead : ∀ j, ((ownLog j (e :: log)).map w).sum =
        (if e.1 = j then w e.2 else 0) + ((ownLog j log).map w).sum := by
      intro j
      by_cases hj : e.1 = j
      · simp [ownLog, hj]
      · simp [ownLog, hj]
    have hrest := ih fun e' he' => hlt e' (List.mem_cons_of_mem e he')
    simp only [hhead]
    rw [List.sum_map_add, sum_range_single, if_pos (hlt e List.mem_cons_self), hrest, List.map_cons, List.sum_cons]

end OwnLog

namespace Episode

def call : Episode C R E → Heard (Call C R E) (Answer C R E) E
  | asked c r => ⟨.inl c, r⟩
  | mapped f r _ => ⟨.inr f, r⟩

/-- The commands of the episode, each with the thread that asked it. -/
def heard : Episode C R E → List (Option ℕ × Heard C R E)
  | asked c r => [(none, ⟨c, r⟩)]
  | mapped _ _ log => log.map fun e => (some e.1, e.2)

/-- What each worker of the episode heard. -/
def logs : Episode C R E → List (List (Heard C R E))
  | asked .. => []
  | mapped f _ log => (List.range f.workers.length).map fun j => ownLog j log

/-- What the program itself heard. -/
def own : Episode C R E → List (Heard C R E)
  | asked c r => [⟨c, r⟩]
  | mapped .. => []

/-- A map that has succeeded has completed each of its workers. -/
def Sound : Episode C R E → Prop
  | asked .. => True
  | mapped f r log => (∀ e ∈ log, e.1 < f.workers.length) ∧
      (r = .ok () → ∀ j w, f.workers[j]? = some w → Completed w (ownLog j log) ())

theorem heard_sum {e : Episode C R E} (h : e.Sound) (w : Heard C R E → ℕ) :
    (e.heard.map fun x => w x.2).sum = (e.logs.map fun l => (l.map w).sum).sum + (e.own.map w).sum := by
  cases e with
  | asked c r => simp [heard, logs, own]
  | mapped f r log =>
    have hsum := ownLog_sum h.1 w
    simp only [heard, logs, own, List.map_map, Function.comp_def, List.map_nil, List.sum_nil, Nat.add_zero]
    exact hsum.symm

theorem heard_sum_all {es : List (Episode C R E)} (h : ∀ e ∈ es, e.Sound) (w : Heard C R E → ℕ) :
    ((es.flatMap heard).map fun x => w x.2).sum =
      ((es.flatMap logs).map fun l => (l.map w).sum).sum + ((es.flatMap own).map w).sum := by
  induction es with
  | nil => rfl
  | cons e es ih =>
    have hone := heard_sum (h e List.mem_cons_self) w
    have hrest := ih fun e' he' => h e' (List.mem_cons_of_mem e he')
    simp only [List.flatMap_cons, List.map_append, List.sum_append]
    omega

theorem heard_cases {e : Episode C R E} (h : e.Sound) {x : Option ℕ × Heard C R E} (hx : x ∈ e.heard) :
    x.2 ∈ e.own ∨ ∃ l ∈ e.logs, x.2 ∈ l := by
  cases e with
  | asked c r =>
    obtain rfl := List.mem_singleton.mp hx
    exact .inl List.mem_cons_self
  | mapped f r log =>
    obtain ⟨y, hy, rfl⟩ := List.mem_map.mp hx
    refine .inr ⟨ownLog y.1 log, List.mem_map.mpr ⟨y.1, List.mem_range.mpr (h.1 y hy), rfl⟩, ?_⟩
    exact List.mem_filterMap.mpr ⟨y, hy, by simp⟩

theorem mem_own {e : Episode C R E} {x : Heard C R E} (h : x ∈ e.own) : (none, x) ∈ e.heard := by
  cases e with
  | asked c r =>
    obtain rfl := List.mem_singleton.mp h
    exact List.mem_singleton.mpr rfl
  | mapped f r log => cases h

theorem mem_logs {e : Episode C R E} {l : List (Heard C R E)} {x : Heard C R E} (hl : l ∈ e.logs) (hx : x ∈ l) :
    ∃ th, (th, x) ∈ e.heard := by
  cases e with
  | asked c r => cases hl
  | mapped f r log =>
    obtain ⟨j, -, rfl⟩ := List.mem_map.mp hl
    obtain ⟨y, hy, heq⟩ := List.mem_filterMap.mp hx
    split at heq
    · obtain rfl := Option.some.inj heq
      exact ⟨some y.1, List.mem_map.mpr ⟨y, hy, rfl⟩⟩
    · cases heq

end Episode

/-- Where a worker stands that has heard `log`. -/
def Slot.After (w : Prog C R E Unit) (log : List (Heard C R E)) : Slot C R E → Prop
  | .waiting p => p = w ∧ log = []
  | .running p => Reaches w log p
  | .done => Completed w log ()
  | .failed => True

/-- Where a bounded map stands that has heard `log`. -/
structure Pool.After (f : Fork C R E) (ps : Pool C R E) (log : List (ℕ × Heard C R E)) : Prop where
  length : ps.slots.length = f.workers.length
  threads : ∀ e ∈ log, e.1 < f.workers.length
  slots : ∀ j w slot, f.workers[j]? = some w → ps.slots[j]? = some slot → Slot.After w (ownLog j log) slot

namespace Pool.After

variable {f : Fork C R E} {ps : Pool C R E} {log : List (ℕ × Heard C R E)}

theorem start (f : Fork C R E) : Pool.After f (Pool.start f) [] := by
  constructor
  · exact startFrom_length _ _
  · simp
  · intro j w slot hw hslot
    obtain ⟨p, hp, hs⟩ := startFrom_getElem? _ _ j slot hslot
    obtain rfl : p = w := Option.some.inj (hp.symm.trans hw)
    obtain rfl | rfl := hs
    · exact ⟨rfl, rfl⟩
    · exact .refl p

theorem set (h : Pool.After f ps log) {j : ℕ} {slot' : Slot C R E} {more : List (Heard C R E)}
    (hj : j < f.workers.length)
    (hslot : ∀ w, f.workers[j]? = some w → Slot.After w (ownLog j log ++ more) slot') (error : Option E) :
    Pool.After f ⟨ps.slots.set j slot', error⟩ (log ++ more.map (j, ·)) := by
  have hown : ∀ j', ownLog j' (more.map (j, ·)) = if j' = j then more else [] := by
    intro j'
    by_cases hsame : j' = j
    · subst hsame
      simp [ownLog, List.filterMap_map]
    · simp [ownLog, List.filterMap_map, Ne.symm hsame, hsame]
  constructor
  · rw [List.length_set, h.length]
  · intro e he
    obtain he | he := List.mem_append.mp he
    · exact h.threads e he
    · obtain ⟨x, -, rfl⟩ := List.mem_map.mp he
      exact hj
  · intro j' w slot hw hs
    rw [ownLog_append, hown]
    by_cases hsame : j' = j
    · subst hsame
      have hlt : j' < ps.slots.length := h.length.symm ▸ hj
      obtain rfl : slot' = slot := by simpa [List.getElem?_set, hlt] using hs
      simpa using hslot w hw
    · rw [List.getElem?_set_ne (Ne.symm hsame)] at hs
      simpa [hsame] using h.slots j' w slot hw hs

theorem promote (h : Pool.After f ps log) : Pool.After f ⟨Pool.promote ps.slots, ps.error⟩ log := by
  constructor
  · rw [promote_length, h.length]
  · exact h.threads
  · intro j w slot hw hs
    obtain hold | ⟨p, hp, rfl⟩ := promote_getElem? ps.slots j slot hs
    · exact h.slots j w slot hw hold
    · obtain ⟨rfl, hlog⟩ := h.slots j w _ hw hp
      rw [hlog]
      exact .refl p

theorem worker (h : Pool.After f ps log) {j : ℕ} {slot : Slot C R E} (hs : ps.slots[j]? = some slot) :
    ∃ w, f.workers[j]? = some w := by
  have hlt : j < f.workers.length := h.length ▸ (List.getElem?_eq_some_iff.mp hs).1
  exact ⟨f.workers[j], List.getElem?_eq_getElem hlt⟩

/-- What a thread of the pool hears when it is its turn. -/
def turn (m : Machine σ C R E I A) (ps : Pool C R E) (j : ℕ) (i : I) (s : σ) : List (Heard C R E) :=
  match ps.slots[j]? with
  | some (.running (.call c _)) => [⟨c, (m.exec c i s).1⟩]
  | _ => []

theorem advance (m : Machine σ C R E I A) (h : Pool.After f ps log) (j : ℕ) (i : I) (s : σ) :
    Pool.After f (m.advance ps j i s).1 (log ++ (turn m ps j i s).map (j, ·)) := by
  cases hs : ps.slots[j]? with
  | none => simpa [Machine.advance, turn, hs] using h
  | some slot =>
    obtain ⟨w, hw⟩ := h.worker hs
    have hj : j < f.workers.length := (List.getElem?_eq_some_iff.mp hw).1
    have hslot := h.slots j w slot hw hs
    cases slot with
    | waiting p | done | failed => simpa [Machine.advance, turn, hs] using h
    | running p =>
      cases p with
      | ret a =>
        have hdone : Pool.After f ⟨ps.slots.set j .done, ps.error⟩ (log ++ ([] : List (Heard C R E)).map (j, ·)) := by
          apply h.set hj
          intro w' hw'
          obtain rfl : w = w' := Option.some.inj (hw.symm.trans hw')
          rw [List.append_nil]
          exact hslot.completed
        simp only [Machine.advance, turn, hs, Pool.finish]
        split
        · exact hdone.promote
        · exact hdone
      | fail e =>
        simp only [Machine.advance, turn, hs, Pool.abandon]
        have hfailed : ∀ w, f.workers[j]? = some w → Slot.After w (ownLog j log ++ []) (.failed : Slot C R E) :=
          fun _ _ => trivial
        exact h.set hj hfailed _
      | call c k =>
        simp only [Machine.advance, turn, hs]
        apply h.set hj
        intro w' hw'
        obtain rfl : w = w' := Option.some.inj (hw.symm.trans hw')
        exact hslot.snoc _

theorem sound (h : Pool.After f ps log) {r : Except E Unit} (hr : ps.result? = some r) :
    (Episode.mapped f r log).Sound := by
  constructor
  · exact h.threads
  · rintro rfl j w hw
    have hj : j < ps.slots.length := h.length ▸ (List.getElem?_eq_some_iff.mp hw).1
    have hall : ps.slots.all Slot.isDone = true := by
      unfold Pool.result? at hr
      split at hr
      · cases hr
      · split at hr
        · cases hr
        · split at hr
          · assumption
          · cases hr
    have hdone := List.all_eq_true.mp hall _ (List.getElem_mem hj)
    have hslot := h.slots j w _ hw (List.getElem?_eq_getElem hj)
    cases hkind : ps.slots[j] with
    | done =>
      rw [hkind] at hslot
      exact hslot
    | waiting p | running p | failed => simp [hkind, Slot.isDone] at hdone

end Pool.After

/-- What an event has told the thread that asked. -/
def heardAt (m : Machine σ C R E I A) : Event σ C I A → List (Option ℕ × Heard C R E)
  | .exec th c i s => [(th, ⟨c, (m.exec c i s).1⟩)]
  | .act .. => []

def heardIn (m : Machine σ C R E I A) (events : List (Event σ C I A)) : List (Option ℕ × Heard C R E) :=
  events.flatMap (heardAt m)

/-- How a program has come where it stands, having heard all this. -/
def Conf.After (p : Main C R E α) : Conf C R E α → List (Option ℕ × Heard C R E) → Prop
  | .seq q, hs => ∃ es : List (Episode C R E), Reaches p (es.map Episode.call) q ∧ (∀ e ∈ es, e.Sound) ∧
      hs = es.flatMap Episode.heard
  | .pool ps k, hs => ∃ (es : List (Episode C R E)) (f : Fork C R E) (log : List (ℕ × Heard C R E)),
      Reaches p (es.map Episode.call) (.call (.inr f) k) ∧ (∀ e ∈ es, e.Sound) ∧ Pool.After f ps log ∧
      hs = es.flatMap Episode.heard ++ log.map fun e => (some e.1, e.2)

theorem Conf.After.step (m : Machine σ C R E I A) {p : Main C R E α} {x : Conf C R E α × σ}
    {hs : List (Option ℕ × Heard C R E)} (h : x.1.After p hs) (ch : Choice I A) :
    (m.step x ch).1.After p (hs ++ (Machine.event? x ch).toList.flatMap (heardAt m)) := by
  obtain ⟨conf, s⟩ := x
  cases ch with
  | act a =>
    have hnone : (Machine.event? (conf, s) (Choice.act a : Choice I A)).toList.flatMap (heardAt m) = [] := rfl
    rw [hnone, List.append_nil]
    exact h
  | run j i =>
    cases conf with
    | seq q =>
      obtain ⟨es, hreach, hsound, rfl⟩ := h
      cases q with
      | ret a | fail e =>
        refine ⟨es, hreach, hsound, ?_⟩
        simp [Machine.event?, Machine.command?]
      | call c k =>
        cases c with
        | inl c =>
          refine ⟨es ++ [.asked c (m.exec c i s).1], ?_, ?_, ?_⟩
          · rw [List.map_append]
            exact hreach.snoc _
          · intro e he
            obtain he | he := List.mem_append.mp he
            · exact hsound e he
            · obtain rfl := List.mem_singleton.mp he
              trivial
          · simp [Machine.event?, Machine.command?, heardAt, Episode.heard]
        | inr f =>
          refine ⟨es, f, [], hreach, hsound, .start f, ?_⟩
          simp [Machine.event?, Machine.command?]
    | pool ps k =>
      obtain ⟨es, f, log, hreach, hsound, hpool, rfl⟩ := h
      cases hr : ps.result? with
      | some r =>
        simp only [Machine.step, hr, Machine.event?, Machine.command?, Option.map_none, Option.toList_none,
          List.flatMap_nil, List.append_nil]
        refine ⟨es ++ [.mapped f r log], ?_, ?_, ?_⟩
        · rw [List.map_append]
          exact hreach.snoc r
        · intro e he
          obtain he | he := List.mem_append.mp he
          · exact hsound e he
          · obtain rfl := List.mem_singleton.mp he
            exact hpool.sound hr
        · simp [Episode.heard]
      | none =>
        simp only [Machine.step, hr]
        refine ⟨es, f, log ++ (Pool.After.turn m ps j i s).map (j, ·), hreach, hsound, hpool.advance m j i s, ?_⟩
        rw [List.map_append, List.append_assoc]
        congr 2
        cases hs : ps.slots[j]? with
        | none => simp [Machine.event?, Machine.command?, hr, hs, Pool.After.turn]
        | some slot =>
          cases slot with
          | waiting q | done | failed => simp [Machine.event?, Machine.command?, hr, hs, Pool.After.turn]
          | running q => cases q <;> simp [Machine.event?, Machine.command?, hr, hs, Pool.After.turn, heardAt]

theorem Conf.After.run (m : Machine σ C R E I A) {p : Main C R E α} {x : Conf C R E α × σ}
    {hs : List (Option ℕ × Heard C R E)} (h : x.1.After p hs) (chs : List (Choice I A)) :
    (m.run x chs).1.After p (hs ++ heardIn m (m.trace x chs)) := by
  induction chs generalizing x hs with
  | nil =>
    rw [Machine.trace, heardIn, List.flatMap_nil, List.append_nil]
    exact h
  | cons ch chs ih =>
    have hnext := ih (h.step m ch)
    rw [List.append_assoc] at hnext
    rwa [Machine.trace, heardIn, List.flatMap_append]

/-- A run of a program that has ended with a value: episode after episode, each map with all its workers'
executions. -/
structure Ended (p : Main C R E α) (es : List (Episode C R E)) (a : α) : Prop where
  completed : Completed p (es.map Episode.call) a
  sound : ∀ e ∈ es, e.Sound

theorem run_ended (m : Machine σ C R E I A) {p : Main C R E α} {s t : σ} {chs : List (Choice I A)} {a : α}
    (h : m.run (.seq p, s) chs = (.seq (.ret a), t)) :
    ∃ es : List (Episode C R E), Ended p es a ∧ heardIn m (m.trace (.seq p, s) chs) = es.flatMap Episode.heard := by
  have hstart : Conf.After p (.seq p) ([] : List (Option ℕ × Heard C R E)) := ⟨[], .refl p, by simp, rfl⟩
  have hafter := Conf.After.run m (x := (.seq p, s)) hstart chs
  rw [h, List.nil_append] at hafter
  obtain ⟨es, hreach, hsound, heard⟩ := hafter
  exact ⟨es, ⟨hreach.completed, hsound⟩, heard⟩

namespace Ended

theorem of_ret {es : List (Episode C R E)} {a a' : α} (h : Ended (.ret a) es a') : es = [] ∧ a' = a := by
  obtain ⟨hnil, rfl⟩ := Completed.of_ret h.completed
  exact ⟨List.map_eq_nil_iff.mp hnil, rfl⟩

theorem of_bind {p : Main C R E α} {f : α → Main C R E β} {es : List (Episode C R E)} {b : β}
    (h : Ended (p.bind f) es b) : ∃ before a after, es = before ++ after ∧ Ended p before a ∧ Ended (f a) after b := by
  obtain ⟨calls, a, calls', heq, hp, hf⟩ := Completed.of_bind h.completed
  obtain ⟨before, after, rfl, rfl, rfl⟩ := List.map_eq_append_iff.mp heq
  exact ⟨before, a, after, rfl, ⟨hp, fun e he => h.sound e (List.mem_append_left _ he)⟩,
    ⟨hf, fun e he => h.sound e (List.mem_append_right _ he)⟩⟩

theorem of_lift {p : Prog C R E α} {es : List (Episode C R E)} {a : α} (h : Ended (Main.lift p) es a) :
    ∃ heard, Completed p heard a ∧ es = heard.map fun x => .asked x.1 x.2 := by
  induction p generalizing es with
  | ret a' =>
    obtain ⟨rfl, rfl⟩ := of_ret h
    exact ⟨[], .ret _, rfl⟩
  | fail e => cases h.completed
  | call c k ih =>
    obtain ⟨hcompleted, hsound⟩ := h
    generalize hcalls : es.map Episode.call = calls at hcompleted
    cases hcompleted with
    | call c k r hrest =>
      obtain ⟨e, es', rfl, he, rfl⟩ := List.map_eq_cons_iff.mp hcalls
      obtain ⟨heard, hheard, hes⟩ := ih r ⟨hrest, fun e he => hsound e (List.mem_cons_of_mem _ he)⟩
      cases e with
      | asked c' r' =>
        cases he
        refine ⟨⟨c, r⟩ :: heard, .call c _ r hheard, ?_⟩
        rw [hes]
        rfl
      | mapped f r' log => cases he

theorem of_map {limit : ℕ} {ws : List (Prog C R E Unit)} {es : List (Episode C R E)} {u : Unit}
    (h : Ended (Main.mapWithConcurrency limit ws) es u) :
    ∃ log : List (ℕ × Heard C R E), es = [.mapped ⟨limit, ws⟩ (.ok ()) log] ∧
      ∀ j w, ws[j]? = some w → Completed w (ownLog j log) () := by
  obtain ⟨hcompleted, hsound⟩ := h
  have hcalls := Completed.of_perform hcompleted
  obtain ⟨e, es', rfl, he, hnil⟩ := List.map_eq_cons_iff.mp hcalls
  obtain rfl := List.map_eq_nil_iff.mp hnil
  cases e with
  | asked c r => cases he
  | mapped f r log =>
    cases he
    obtain ⟨-, hok⟩ := hsound _ List.mem_cons_self
    exact ⟨log, rfl, hok rfl⟩

theorem of_forEach {xs : List α} {f : α → Main C R E Unit} {es : List (Episode C R E)} {u : Unit}
    (h : Ended (Prog.forEach xs f) es u) :
    ∃ ess : List (List (Episode C R E)), es = ess.flatten ∧ List.Forall₂ (fun x es => Ended (f x) es ()) xs ess := by
  induction xs generalizing es with
  | nil =>
    obtain ⟨rfl, -⟩ := of_ret h
    exact ⟨[], rfl, .nil⟩
  | cons x xs ih =>
    obtain ⟨before, u', after, rfl, hx, hrest⟩ := of_bind h
    obtain ⟨ess, rfl, hall⟩ := ih hrest
    exact ⟨before :: ess, rfl, .cons hx hall⟩

end Ended

end OpenMigrate.Async
