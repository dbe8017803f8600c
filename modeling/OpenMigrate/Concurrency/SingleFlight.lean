import Mathlib.Data.List.Basic
import Mathlib.Logic.Function.Basic
import Mathlib.Logic.Function.Iterate
import Mathlib.Data.Nat.Basic
import Mathlib.Order.Basic
import Mathlib.Tactic.Common

namespace OpenMigrate.SingleFlight

universe u v w

section Source

variable {Key : Type u} {Body : Type v} {ε : Type w}

/-- What a promise settles with. -/
inductive Settled (ε : Type w)
  | fulfilled
  | rejected (reason : ε)
  deriving DecidableEq

/-- How far the task of a flight has come: a task is inside until its call returns a promise or throws, and pending until
that promise settles. -/
inductive Task (ε : Type w)
  | waiting
  | inside
  | pending
  | over (outcome : Settled ε)
  deriving DecidableEq

/-- A promise that `run` returns, with the task it stands for. -/
structure Flight (Key : Type u) (Body : Type v) (ε : Type w) where
  key : Key
  body : Body
  task : Task ε
  watched : Bool
  promise : Option (Settled ε)
  deriving DecidableEq

/-- What the microtasks of a flight do: call the task, call `then` on the promise it returned, settle `p` with what that
promise came to, delete the key. -/
inductive Reaction (Key : Type u) (ε : Type w)
  | call
  | watch
  | follow (outcome : Settled ε)
  | delete (key : Key)
  deriving DecidableEq

structure Job (Key : Type u) (ε : Type w) where
  flight : ℕ
  reaction : Reaction Key ε
  deriving DecidableEq

structure State (Key : Type u) (Body : Type v) (ε : Type w) where
  flights : ℕ → Option (Flight Key Body ε)
  next : ℕ
  inflight : Key → Option ℕ
  queue : List (Job Key ε)

def State.empty : State Key Body ε := ⟨fun _ => none, 0, fun _ => none, []⟩

def Flight.fresh (key : Key) (body : Body) : Flight Key Body ε := ⟨key, body, .waiting, false, none⟩

def State.put (s : State Key Body ε) (id : ℕ) (flight : Flight Key Body ε) (jobs : List (Reaction Key ε)) : State Key Body ε :=
  { s with flights := Function.update s.flights id (some flight), queue := s.queue ++ jobs.map (Job.mk id) }

/-- One call of `run`, with the promise that it returns. -/
def State.run [DecidableEq Key] (s : State Key Body ε) (key : Key) (body : Body) : State Key Body ε × ℕ :=
  match s.inflight key with
  | some existing => (s, existing)
  | none =>
    let p := s.next
    -- The clean-up is registered on `p` here; it is queued when `p` settles.
    ({ s.put p (Flight.fresh key body) [.call] with next := p + 1, inflight := Function.update s.inflight key (some p) }, p)

def State.isRunning (s : State Key Body ε) (key : Key) : Bool := (s.inflight key).isSome

/-- `p` settles, and its first reaction is the clean-up. -/
def State.settle (s : State Key Body ε) (id : ℕ) (flight : Flight Key Body ε) (outcome : Settled ε) : State Key Body ε :=
  s.put id { flight with promise := some outcome } [.delete flight.key]

def State.perform [DecidableEq Key] (s : State Key Body ε) (job : Job Key ε) : State Key Body ε :=
  match s.flights job.flight with
  | none => s
  | some flight =>
    match job.reaction with
    | .call => s.put job.flight { flight with task := .inside } []
    | .watch =>
      match flight.task with
      | .over outcome => s.put job.flight { flight with watched := true } [.follow outcome]
      | _ => s.put job.flight { flight with watched := true } []
    | .follow outcome => s.settle job.flight flight outcome
    | .delete key => { s with inflight := Function.update s.inflight key none }

/-- The first microtask of the queue runs. -/
def State.microtask [DecidableEq Key] (s : State Key Body ε) : State Key Body ε :=
  match s.queue with
  | [] => s
  | job :: rest => { s with queue := rest }.perform job

/-- The call of the task throws, which rejects `p` at once. -/
def State.throws (s : State Key Body ε) (id : ℕ) (reason : ε) : State Key Body ε :=
  match s.flights id with
  | none => s
  | some flight =>
    match flight.task with
    | .inside => s.settle id { flight with task := .over (.rejected reason) } (.rejected reason)
    | _ => s

/-- The call of the task returns a promise, which `p` is resolved with. -/
def State.returns (s : State Key Body ε) (id : ℕ) : State Key Body ε :=
  match s.flights id with
  | none => s
  | some flight =>
    match flight.task with
    | .inside => s.put id { flight with task := .pending } [.watch]
    | _ => s

/-- The promise of the task settles. -/
def State.settles (s : State Key Body ε) (id : ℕ) (outcome : Settled ε) : State Key Body ε :=
  match s.flights id with
  | none => s
  | some flight =>
    match flight.task with
    | .pending => s.put id { flight with task := .over outcome } (if flight.watched then [.follow outcome] else [])
    | _ => s

/-- What happens besides calls of `run`. -/
inductive Progress (ε : Type w)
  | microtask
  | throws (id : ℕ) (reason : ε)
  | returns (id : ℕ)
  | settles (id : ℕ) (outcome : Settled ε)

def State.progress [DecidableEq Key] (s : State Key Body ε) : Progress ε → State Key Body ε
  | .microtask => s.microtask
  | .throws id reason => s.throws id reason
  | .returns id => s.returns id
  | .settles id outcome => s.settles id outcome

inductive Event (Key : Type u) (Body : Type v) (ε : Type w)
  | run (key : Key) (body : Body)
  | progress (what : Progress ε)

def State.step [DecidableEq Key] (s : State Key Body ε) : Event Key Body ε → State Key Body ε
  | .run key body => (s.run key body).1
  | .progress what => s.progress what

/-- A run from a state: calls may come anywhere, between two microtasks and inside a task alike. -/
def State.exec [DecidableEq Key] (s : State Key Body ε) (events : List (Event Key Body ε)) : State Key Body ε :=
  events.foldl State.step s

end Source

section Properties

variable {Key : Type u} {Body : Type v} {ε : Type w}

/-- The microtasks of a flight, in their order. -/
def jobsIn (queue : List (Job Key ε)) (id : ℕ) : List (Job Key ε) := queue.filter (·.flight = id)

def State.jobsOf (s : State Key Body ε) (id : ℕ) : List (Job Key ε) := jobsIn s.queue id

def Flight.running (flight : Flight Key Body ε) : Prop := flight.task = .inside ∨ flight.task = .pending

/-- The promise has settled and its reactions have run. -/
def State.Released (s : State Key Body ε) (id : ℕ) : Prop :=
  ∃ flight outcome, s.flights id = some flight ∧ flight.promise = some outcome ∧ s.jobsOf id = []

variable [DecidableEq Key]

/-- The call starts its own task: a flight that there was not, whose microtask will call the task. -/
def State.Starts (s : State Key Body ε) (key : Key) (body : Body) : Prop :=
  s.flights (s.run key body).2 = none ∧
    (s.run key body).1.flights (s.run key body).2 = some (Flight.fresh key body) ∧
    ⟨(s.run key body).2, .call⟩ ∈ (s.run key body).1.queue

/-- The call starts nothing and gets the promise of a flight of its key that is not released. -/
def State.Joins (s : State Key Body ε) (key : Key) (body : Body) : Prop :=
  (s.run key body).1 = s ∧ ¬ s.Released (s.run key body).2 ∧
    ∃ flight, s.flights (s.run key body).2 = some flight ∧ flight.key = key

/-- What holds in every state of a run. -/
structure State.Sound (s : State Key Body ε) : Prop where
  single : ∀ f g fl gl, s.flights f = some fl → s.flights g = some gl → fl.running → gl.running → fl.key = gl.key → f = g
  joins : ∀ key body, s.Joins key body ∨ s.Starts key body
  result : ∀ key body later, ∃ flight,
    ((s.run key body).1.exec later).flights (s.run key body).2 = some flight ∧ flight.key = key ∧
      ∀ outcome, flight.promise = some outcome → flight.task = .over outcome
  frees : ∀ f fl, s.flights f = some fl → s.Released f → (∀ g gl, f < g → s.flights g = some gl → gl.key ≠ fl.key) →
    ∀ body, s.Starts fl.key body
  drains : ∃ n, (State.microtask^[n] s).queue = []
  unwedged : s.queue = [] → ∀ key, s.isRunning key → ∃ f fl, s.flights f = some fl ∧ fl.key = key ∧ fl.running

end Properties

section Invariant

variable {Key : Type u} {Body : Type v} {ε : Type w} {s : State Key Body ε} {f g : ℕ} {fl gl : Flight Key Body ε} {key : Key}

/-- The stages of a flight, with the microtasks that are queued for it. -/
inductive Stage (f : ℕ) : Flight Key Body ε → List (Job Key ε) → Prop
  | deferred (key : Key) (body : Body) : Stage f (Flight.fresh key body) [⟨f, .call⟩]
  | inside (key : Key) (body : Body) : Stage f ⟨key, body, .inside, false, none⟩ []
  | returned (key : Key) (body : Body) : Stage f ⟨key, body, .pending, false, none⟩ [⟨f, .watch⟩]
  | returnedOver (key : Key) (body : Body) (outcome : Settled ε) :
      Stage f ⟨key, body, .over outcome, false, none⟩ [⟨f, .watch⟩]
  | watched (key : Key) (body : Body) : Stage f ⟨key, body, .pending, true, none⟩ []
  | followed (key : Key) (body : Body) (outcome : Settled ε) :
      Stage f ⟨key, body, .over outcome, true, none⟩ [⟨f, .follow outcome⟩]
  | settled (key : Key) (body : Body) (watched : Bool) (outcome : Settled ε) :
      Stage f ⟨key, body, .over outcome, watched, some outcome⟩ [⟨f, .delete key⟩]
  | released (key : Key) (body : Body) (watched : Bool) (outcome : Settled ε) :
      Stage f ⟨key, body, .over outcome, watched, some outcome⟩ []

def Over (fl : Flight Key Body ε) (jobs : List (Job Key ε)) : Prop := fl.promise.isSome ∧ jobs = []

/-- A key is held by its last flight until that flight is released. -/
structure Inv (s : State Key Body ε) : Prop where
  staged : ∀ f fl, s.flights f = some fl → Stage f fl (s.jobsOf f)
  known : ∀ f, s.flights f = none → s.jobsOf f = []
  fresh : ∀ f, s.next ≤ f → s.flights f = none
  held : ∀ f fl, s.flights f = some fl → (s.inflight fl.key = some f ↔ ¬ Over fl (s.jobsOf f))
  holds : ∀ key f, s.inflight key = some f → ∃ fl, s.flights f = some fl ∧ fl.key = key
  latest : ∀ key f, s.inflight key = some f → ∀ g gl, f < g → s.flights g = some gl → gl.key ≠ key

theorem empty_inv : Inv (State.empty : State Key Body ε) where
  staged f fl hf := by cases hf
  known f _ := rfl
  fresh f _ := rfl
  held f fl hf := by cases hf
  holds key f hf := by cases hf
  latest key f hf := by cases hf

theorem Inv.move (h : Inv s) {fl' : Flight Key Body ε} {queue : List (Job Key ε)} (hf : s.flights f = some fl)
    (hkey : fl'.key = fl.key) (hothers : ∀ g, g ≠ f → jobsIn queue g = s.jobsOf g)
    (hstage : Stage f fl' (jobsIn queue f))
    (hover : Over fl' (jobsIn queue f) ↔ Over fl (s.jobsOf f)) :
    Inv { s with flights := Function.update s.flights f (some fl'), queue := queue } where
  staged g gl hg := by
    by_cases hgf : g = f
    · subst hgf
      obtain rfl : fl' = gl := by simpa using hg
      exact hstage
    · change Stage g gl (jobsIn queue g)
      rw [hothers g hgf]
      exact h.staged g gl ((Function.update_of_ne hgf ..).symm.trans hg)
  known g hg := by
    by_cases hgf : g = f
    · subst hgf
      simp at hg
    · exact (hothers g hgf).trans (h.known g ((Function.update_of_ne hgf ..).symm.trans hg))
  fresh g hg := by
    have hgf : g ≠ f := by
      rintro rfl
      rw [h.fresh g hg] at hf
      cases hf
    exact (Function.update_of_ne hgf ..).trans (h.fresh g hg)
  held g gl hg := by
    by_cases hgf : g = f
    · subst hgf
      obtain rfl : fl' = gl := by simpa using hg
      rw [hkey]
      exact (h.held g fl hf).trans (not_congr hover.symm)
    · change s.inflight gl.key = some g ↔ ¬ Over gl (jobsIn queue g)
      rw [hothers g hgf]
      exact h.held g gl ((Function.update_of_ne hgf ..).symm.trans hg)
  holds key g hg := by
    obtain ⟨gl, hgl, hk⟩ := h.holds key g hg
    by_cases hgf : g = f
    · subst hgf
      obtain rfl : fl = gl := Option.some.inj (hf.symm.trans hgl)
      exact ⟨fl', Function.update_self .., hkey.trans hk⟩
    · exact ⟨gl, (Function.update_of_ne hgf ..).trans hgl, hk⟩
  latest key g hg g' gl' hlt hg' := by
    by_cases hgf : g' = f
    · subst hgf
      obtain rfl : fl' = gl' := by simpa using hg'
      rw [hkey]
      exact h.latest key g hg g' fl hlt hf
    · exact h.latest key g hg g' gl' hlt ((Function.update_of_ne hgf ..).symm.trans hg')

theorem jobsIn_cons_self (f : ℕ) (reaction : Reaction Key ε) (rest : List (Job Key ε)) :
    jobsIn (⟨f, reaction⟩ :: rest) f = ⟨f, reaction⟩ :: jobsIn rest f :=
  List.filter_cons_of_pos (decide_eq_true rfl)

theorem jobsIn_cons_other (reaction : Reaction Key ε) (rest : List (Job Key ε)) (hgf : g ≠ f) :
    jobsIn (⟨f, reaction⟩ :: rest) g = jobsIn rest g :=
  List.filter_cons_of_neg fun h => hgf (of_decide_eq_true h).symm

theorem jobsIn_append_self (queue : List (Job Key ε)) (f : ℕ) (jobs : List (Reaction Key ε)) :
    jobsIn (queue ++ jobs.map (Job.mk f)) f = jobsIn queue f ++ jobs.map (Job.mk f) := by
  rw [jobsIn, List.filter_append, jobsIn, List.append_cancel_left_eq]
  apply List.filter_eq_self.mpr
  intro job hjob
  obtain ⟨reaction, -, rfl⟩ := List.mem_map.mp hjob
  exact decide_eq_true rfl

theorem jobsIn_append_other (queue : List (Job Key ε)) (jobs : List (Reaction Key ε)) (hgf : g ≠ f) :
    jobsIn (queue ++ jobs.map (Job.mk f)) g = jobsIn queue g := by
  rw [jobsIn, List.filter_append, jobsIn]
  apply List.append_right_eq_self.mpr
  apply List.filter_eq_nil_iff.mpr
  intro job hjob
  obtain ⟨reaction, -, rfl⟩ := List.mem_map.mp hjob
  exact fun h => hgf (of_decide_eq_true h).symm

theorem Inv.put (h : Inv s) (hf : s.flights f = some fl) (fl' : Flight Key Body ε) (jobs : List (Reaction Key ε))
    (hkey : fl'.key = fl.key) (hstage : Stage f fl' (s.jobsOf f ++ jobs.map (Job.mk f)))
    (hover : Over fl' (s.jobsOf f ++ jobs.map (Job.mk f)) ↔ Over fl (s.jobsOf f)) : Inv (s.put f fl' jobs) := by
  apply h.move hf hkey
  · intro g hgf
    exact jobsIn_append_other _ _ hgf
  · rw [jobsIn_append_self]
    exact hstage
  · rw [jobsIn_append_self]
    exact hover

/-- The same where the only microtask of the flight has been taken off the queue. -/
theorem Inv.put_rest (h : Inv s) {reaction : Reaction Key ε} {rest : List (Job Key ε)}
    (hqueue : s.queue = ⟨f, reaction⟩ :: rest) (hrest : jobsIn rest f = []) (hf : s.flights f = some fl)
    (fl' : Flight Key Body ε) (jobs : List (Reaction Key ε)) (hkey : fl'.key = fl.key) (hstage : Stage f fl' (jobs.map (Job.mk f)))
    (hover : ¬ Over fl' (jobs.map (Job.mk f))) : Inv ({ s with queue := rest }.put f fl' jobs) := by
  have hown : jobsIn (rest ++ jobs.map (Job.mk f)) f = jobs.map (Job.mk f) := by
    rw [jobsIn_append_self, hrest, List.nil_append]
  have hjobs : s.jobsOf f = [⟨f, reaction⟩] := by
    rw [State.jobsOf, hqueue, jobsIn_cons_self, hrest]
  apply h.move hf hkey
  · intro g hgf
    rw [jobsIn_append_other _ _ hgf, State.jobsOf, hqueue, jobsIn_cons_other _ _ hgf]
  · rw [hown]
    exact hstage
  · rw [hown]
    refine iff_of_false hover ?_
    rintro ⟨-, hnil⟩
    rw [hjobs] at hnil
    cases hnil

theorem over_none {key : Key} {body : Body} {task : Task ε} {watched : Bool} {jobs : List (Job Key ε)} :
    ¬ Over (⟨key, body, task, watched, none⟩ : Flight Key Body ε) jobs := by
  rintro ⟨hsome, -⟩
  cases hsome

theorem over_cons {job : Job Key ε} {jobs : List (Job Key ε)} : ¬ Over fl (job :: jobs) := by
  rintro ⟨-, hnil⟩
  cases hnil

theorem throws_inv (h : Inv s) (reason : ε) : Inv (s.throws f reason) := by
  rw [State.throws]
  cases hf : s.flights f with
  | none => exact h
  | some fl =>
    have hstage := h.staged f fl hf
    generalize hjobs : s.jobsOf f = jobs at hstage
    cases hstage with
    | inside key body =>
      apply h.put hf ⟨key, body, .over (.rejected reason), false, some (.rejected reason)⟩ [.delete key] rfl
      · rw [hjobs]
        exact .settled key body false _
      · rw [hjobs]
        exact iff_of_false over_cons over_none
    | _ => exact h

theorem returns_inv (h : Inv s) : Inv (s.returns f) := by
  rw [State.returns]
  cases hf : s.flights f with
  | none => exact h
  | some fl =>
    have hstage := h.staged f fl hf
    generalize hjobs : s.jobsOf f = jobs at hstage
    cases hstage with
    | inside key body =>
      apply h.put hf ⟨key, body, .pending, false, none⟩ [.watch] rfl
      · rw [hjobs]
        exact .returned key body
      · rw [hjobs]
        exact iff_of_false over_none over_none
    | _ => exact h

theorem settles_inv (h : Inv s) (outcome : Settled ε) : Inv (s.settles f outcome) := by
  rw [State.settles]
  cases hf : s.flights f with
  | none => exact h
  | some fl =>
    have hstage := h.staged f fl hf
    generalize hjobs : s.jobsOf f = jobs at hstage
    cases hstage with
    | returned key body =>
      apply h.put hf ⟨key, body, .over outcome, false, none⟩ [] rfl
      · rw [hjobs]
        exact .returnedOver key body outcome
      · exact iff_of_false over_none over_none
    | watched key body =>
      apply h.put hf ⟨key, body, .over outcome, true, none⟩ [.follow outcome] rfl
      · rw [hjobs]
        exact .followed key body outcome
      · exact iff_of_false over_none over_none
    | _ => exact h

theorem head_stage (h : Inv s) {reaction : Reaction Key ε} {rest : List (Job Key ε)} (hqueue : s.queue = ⟨f, reaction⟩ :: rest) :
    ∃ fl, s.flights f = some fl ∧ Stage f fl (⟨f, reaction⟩ :: jobsIn rest f) := by
  have hjobs : s.jobsOf f = ⟨f, reaction⟩ :: jobsIn rest f := by
    rw [State.jobsOf, hqueue, jobsIn_cons_self]
  cases hf : s.flights f with
  | none =>
    have hnil := h.known f hf
    rw [hjobs] at hnil
    cases hnil
  | some fl => exact ⟨fl, rfl, hjobs ▸ h.staged f fl hf⟩

variable [DecidableEq Key]

theorem delete_inv (h : Inv s) {rest : List (Job Key ε)} (hqueue : s.queue = ⟨f, .delete fl.key⟩ :: rest)
    (hrest : jobsIn rest f = []) (hf : s.flights f = some fl) (hsettled : fl.promise.isSome) (hstage : Stage f fl []) :
    Inv { s with queue := rest, inflight := Function.update s.inflight fl.key none } := by
  have hjobs : s.jobsOf f = [⟨f, .delete fl.key⟩] := by
    rw [State.jobsOf, hqueue, jobsIn_cons_self, hrest]
  have hothers : ∀ g, g ≠ f → jobsIn rest g = s.jobsOf g := by
    intro g hgf
    rw [State.jobsOf, hqueue, jobsIn_cons_other _ _ hgf]
  have hheld : s.inflight fl.key = some f := by
    rw [h.held f fl hf, hjobs]
    exact over_cons
  have hfree : ∀ key g, Function.update s.inflight fl.key none key = some g → key ≠ fl.key ∧ s.inflight key = some g := by
    intro key g hg
    by_cases hkey : key = fl.key
    · subst hkey
      simp at hg
    · exact ⟨hkey, (Function.update_of_ne hkey ..).symm.trans hg⟩
  constructor
  · intro g gl hg
    change Stage g gl (jobsIn rest g)
    by_cases hgf : g = f
    · subst hgf
      obtain rfl : fl = gl := Option.some.inj (hf.symm.trans hg)
      rw [hrest]
      exact hstage
    · rw [hothers g hgf]
      exact h.staged g gl hg
  · intro g hg
    by_cases hgf : g = f
    · subst hgf
      exact hrest
    · exact (hothers g hgf).trans (h.known g hg)
  · exact h.fresh
  · intro g gl hg
    change Function.update s.inflight fl.key none gl.key = some g ↔ ¬ Over gl (jobsIn rest g)
    by_cases hgf : g = f
    · subst hgf
      obtain rfl : fl = gl := Option.some.inj (hf.symm.trans hg)
      rw [Function.update_self, hrest]
      exact iff_of_false (by simp) fun hover => hover ⟨hsettled, rfl⟩
    · rw [hothers g hgf]
      by_cases hkey : gl.key = fl.key
      · have hover : ¬ s.inflight gl.key = some g := by
          rw [hkey, hheld]
          exact fun heq => hgf (Option.some.inj heq).symm
        rw [hkey, Function.update_self]
        exact iff_of_false (by simp) (mt (h.held g gl hg).mpr hover)
      · rw [Function.update_of_ne hkey]
        exact h.held g gl hg
  · intro key g hg
    exact h.holds key g (hfree key g hg).2
  · intro key g hg
    exact h.latest key g (hfree key g hg).2

theorem microtask_inv (h : Inv s) : Inv s.microtask := by
  rw [State.microtask]
  cases hqueue : s.queue with
  | nil => exact h
  | cons job rest =>
    obtain ⟨f, reaction⟩ := job
    obtain ⟨fl, hf, hstage⟩ := head_stage h hqueue
    change Inv (State.perform { s with queue := rest } ⟨f, reaction⟩)
    have hperform : State.flights { s with queue := rest } f = some fl := hf
    rw [State.perform, hperform]
    generalize hrest : jobsIn rest f = later at hstage
    cases hstage with
    | deferred key body => exact h.put_rest hqueue hrest hf ⟨key, body, .inside, false, none⟩ [] rfl (.inside key body) over_none
    | returned key body => exact h.put_rest hqueue hrest hf ⟨key, body, .pending, true, none⟩ [] rfl (.watched key body) over_none
    | returnedOver key body outcome =>
      exact h.put_rest hqueue hrest hf ⟨key, body, .over outcome, true, none⟩ [.follow outcome] rfl
        (.followed key body outcome) over_none
    | followed key body outcome =>
      exact h.put_rest hqueue hrest hf ⟨key, body, .over outcome, true, some outcome⟩ [.delete key] rfl
        (.settled key body true outcome) over_cons
    | settled key body watched outcome => exact delete_inv h hqueue hrest hf rfl (.released key body watched outcome)

theorem run_existing (hkey : s.inflight key = some f) (body : Body) : s.run key body = (s, f) := by
  rw [State.run, hkey]

theorem run_free (hkey : s.inflight key = none) (body : Body) :
    s.run key body = ({ s.put s.next (Flight.fresh key body) [.call] with
      next := s.next + 1, inflight := Function.update s.inflight key (some s.next) }, s.next) := by
  rw [State.run, hkey]

theorem run_inv (h : Inv s) (key : Key) (body : Body) : Inv (s.run key body).1 := by
  cases hkey : s.inflight key with
  | some f =>
    rw [run_existing hkey]
    exact h
  | none =>
    rw [run_free hkey]
    have hnext : s.flights s.next = none := h.fresh s.next le_rfl
    have hnew : jobsIn (s.queue ++ [⟨s.next, .call⟩]) s.next = [⟨s.next, .call⟩] := by
      have hjobs : jobsIn s.queue s.next = [] := h.known s.next hnext
      exact (jobsIn_append_self s.queue s.next [.call]).trans (by rw [hjobs]; rfl)
    have hold : ∀ g, g ≠ s.next → jobsIn (s.queue ++ [⟨s.next, .call⟩]) g = s.jobsOf g := by
      intro g hg
      exact jobsIn_append_other s.queue [.call] hg
    have hflight : ∀ g gl, Function.update s.flights s.next (some (Flight.fresh key body)) g = some gl →
        g = s.next ∧ gl = Flight.fresh key body ∨ g ≠ s.next ∧ s.flights g = some gl := by
      intro g gl hg
      by_cases hgn : g = s.next
      · subst hgn
        rw [Function.update_self] at hg
        exact .inl ⟨rfl, (Option.some.inj hg).symm⟩
      · exact .inr ⟨hgn, (Function.update_of_ne hgn ..).symm.trans hg⟩
    constructor
    · intro g gl hg
      change Stage g gl (jobsIn (s.queue ++ [⟨s.next, .call⟩]) g)
      rcases hflight g gl hg with ⟨rfl, rfl⟩ | ⟨hgn, hg⟩
      · rw [hnew]
        exact .deferred key body
      · rw [hold g hgn]
        exact h.staged g gl hg
    · intro g hg
      have hgn : g ≠ s.next := by
        rintro rfl
        simp [State.put] at hg
      exact (hold g hgn).trans (h.known g ((Function.update_of_ne hgn ..).symm.trans hg))
    · intro g hg
      have hgn : g ≠ s.next := by
        rintro rfl
        exact Nat.not_succ_le_self _ hg
      exact (Function.update_of_ne hgn ..).trans (h.fresh g (Nat.le_of_succ_le hg))
    · intro g gl hg
      change Function.update s.inflight key (some s.next) gl.key = some g ↔ ¬ Over gl (jobsIn (s.queue ++ [⟨s.next, .call⟩]) g)
      rcases hflight g gl hg with ⟨rfl, rfl⟩ | ⟨hgn, hg⟩
      · exact iff_of_true (Function.update_self ..) over_none
      · rw [hold g hgn, ← h.held g gl hg]
        by_cases hkeys : gl.key = key
        · rw [hkeys, Function.update_self, hkey]
          exact iff_of_false (fun heq => hgn (Option.some.inj heq).symm) (by simp)
        · rw [Function.update_of_ne hkeys]
    · intro k g hg
      by_cases hk : k = key
      · subst hk
        obtain rfl : s.next = g := by simpa using hg
        exact ⟨_, Function.update_self .., rfl⟩
      · obtain ⟨gl, hgl, hglk⟩ := h.holds k g ((Function.update_of_ne hk ..).symm.trans hg)
        have hgn : g ≠ s.next := by
          rintro rfl
          rw [hnext] at hgl
          cases hgl
        exact ⟨gl, (Function.update_of_ne hgn ..).trans hgl, hglk⟩
    · intro k g hg g' gl' hlt hg'
      rcases hflight g' gl' hg' with ⟨rfl, rfl⟩ | ⟨hgn, holder⟩
      · rintro rfl
        obtain rfl : s.next = g := by simpa [Flight.fresh] using hg
        exact absurd hlt (lt_irrefl _)
      · by_cases hk : k = key
        · subst hk
          obtain rfl : s.next = g := by simpa using hg
          cases (h.fresh g' hlt.le).symm.trans holder
        · exact h.latest k g ((Function.update_of_ne hk ..).symm.trans hg) g' gl' hlt holder

theorem step_inv (h : Inv s) (event : Event Key Body ε) : Inv (s.step event) := by
  cases event with
  | run key body => exact run_inv h key body
  | progress what =>
    cases what with
    | microtask => exact microtask_inv h
    | throws f reason => exact throws_inv h reason
    | returns f => exact returns_inv h
    | settles f outcome => exact settles_inv h outcome

theorem exec_inv (h : Inv s) (events : List (Event Key Body ε)) : Inv (s.exec events) := by
  induction events generalizing s with
  | nil => exact h
  | cons event later ih => exact ih (step_inv h event)

end Invariant

section Runs

variable {Key : Type u} {Body : Type v} {ε : Type w} {s : State Key Body ε} {f g : ℕ} {fl gl : Flight Key Body ε} {key : Key}

/-- A flight stays the flight of its key and its task. -/
def State.Keeps (s t : State Key Body ε) : Prop :=
  ∀ f fl, s.flights f = some fl → ∃ fl', t.flights f = some fl' ∧ fl'.key = fl.key ∧ fl'.body = fl.body

theorem State.Keeps.refl (s : State Key Body ε) : s.Keeps s := fun _ fl hf => ⟨fl, hf, rfl, rfl⟩

theorem State.Keeps.trans {t r : State Key Body ε} (hst : s.Keeps t) (htr : t.Keeps r) : s.Keeps r := by
  intro f fl hf
  obtain ⟨fl', hf', hkey, hbody⟩ := hst f fl hf
  obtain ⟨fl'', hf'', hkey', hbody'⟩ := htr f fl' hf'
  exact ⟨fl'', hf'', hkey'.trans hkey, hbody'.trans hbody⟩

theorem keeps_put (hf : s.flights f = some fl) {fl' : Flight Key Body ε} (hkey : fl'.key = fl.key) (hbody : fl'.body = fl.body)
    (jobs : List (Reaction Key ε)) : s.Keeps (s.put f fl' jobs) := by
  intro g gl hg
  by_cases hgf : g = f
  · subst hgf
    obtain rfl : fl = gl := Option.some.inj (hf.symm.trans hg)
    exact ⟨fl', Function.update_self .., hkey, hbody⟩
  · exact ⟨gl, (Function.update_of_ne hgf ..).trans hg, rfl, rfl⟩

theorem throws_keeps (s : State Key Body ε) (f : ℕ) (reason : ε) : s.Keeps (s.throws f reason) := by
  rw [State.throws]
  split
  · exact .refl s
  · rename_i fl hf
    split
    · rw [State.settle]
      apply keeps_put hf <;> rfl
    · exact .refl s

theorem returns_keeps (s : State Key Body ε) (f : ℕ) : s.Keeps (s.returns f) := by
  rw [State.returns]
  split
  · exact .refl s
  · rename_i fl hf
    split
    · apply keeps_put hf <;> rfl
    · exact .refl s

theorem settles_keeps (s : State Key Body ε) (f : ℕ) (outcome : Settled ε) : s.Keeps (s.settles f outcome) := by
  rw [State.settles]
  split
  · exact .refl s
  · rename_i fl hf
    split
    · apply keeps_put hf <;> rfl
    · exact .refl s

/-- How many microtasks a microtask still leads to, itself counted. -/
def Reaction.weight : Reaction Key ε → ℕ
  | .call => 1
  | .watch => 3
  | .follow _ => 2
  | .delete _ => 1

def weight : List (Job Key ε) → ℕ
  | [] => 0
  | job :: rest => job.reaction.weight + weight rest

theorem weight_append (queue later : List (Job Key ε)) : weight (queue ++ later) = weight queue + weight later := by
  induction queue with
  | nil => exact (Nat.zero_add _).symm
  | cons job rest ih => rw [List.cons_append, weight, weight, ih, Nat.add_assoc]

theorem stage_running (hstage : Stage f fl (s.jobsOf f)) (hrunning : fl.running) : ¬ Over fl (s.jobsOf f) := by
  rintro ⟨hsome, -⟩
  generalize s.jobsOf f = jobs at hstage
  cases hstage with
  | settled => exact hrunning.elim nofun nofun
  | released => exact hrunning.elim nofun nofun
  | _ => cases hsome

theorem stage_result {jobs : List (Job Key ε)} (hstage : Stage f fl jobs) {outcome : Settled ε}
    (hpromise : fl.promise = some outcome) : fl.task = .over outcome := by
  cases hstage with
  | settled key body watched o =>
    obtain rfl : o = outcome := Option.some.inj hpromise
    rfl
  | released key body watched o =>
    obtain rfl : o = outcome := Option.some.inj hpromise
    rfl
  | _ => cases hpromise

theorem stage_idle (hstage : Stage f fl []) (hover : ¬ Over fl []) : fl.running := by
  generalize hjobs : ([] : List (Job Key ε)) = jobs at hstage hover
  cases hstage with
  | inside => exact .inl rfl
  | watched => exact .inr rfl
  | released => exact absurd ⟨rfl, rfl⟩ hover
  | _ => cases hjobs

theorem released_iff (hf : s.flights f = some fl) : s.Released f ↔ Over fl (s.jobsOf f) := by
  constructor
  · rintro ⟨fl', outcome, hf', hpromise, hjobs⟩
    obtain rfl : fl = fl' := Option.some.inj (hf.symm.trans hf')
    exact ⟨Option.isSome_iff_exists.mpr ⟨outcome, hpromise⟩, hjobs⟩
  · rintro ⟨hsome, hjobs⟩
    obtain ⟨outcome, hpromise⟩ := Option.isSome_iff_exists.mp hsome
    exact ⟨fl, outcome, hf, hpromise, hjobs⟩

/-- The key of a released flight is free if no flight of that key came after it. -/
theorem free_of_released (h : Inv s) (hf : s.flights f = some fl) (hreleased : s.Released f)
    (hlast : ∀ g gl, f < g → s.flights g = some gl → gl.key ≠ fl.key) : s.inflight fl.key = none := by
  cases hkey : s.inflight fl.key with
  | none => rfl
  | some g =>
    obtain ⟨gl, hg, hgl⟩ := h.holds fl.key g hkey
    rcases lt_trichotomy f g with hlt | rfl | hlt
    · exact absurd hgl (hlast g gl hlt hg)
    · exact absurd ((released_iff hf).mp hreleased) ((h.held f fl hf).mp hkey)
    · exact absurd rfl (h.latest fl.key g hkey f fl hlt hf)

variable [DecidableEq Key]

theorem perform_keeps (s : State Key Body ε) (job : Job Key ε) : s.Keeps (s.perform job) := by
  rw [State.perform]
  split
  · exact .refl s
  · rename_i fl hf
    split
    · apply keeps_put hf <;> rfl
    · split
      · apply keeps_put hf <;> rfl
      · apply keeps_put hf <;> rfl
    · rw [State.settle]
      apply keeps_put hf <;> rfl
    · exact .refl s

theorem microtask_keeps (s : State Key Body ε) : s.Keeps s.microtask := by
  rw [State.microtask]
  split
  · exact .refl s
  · rename_i job rest hqueue
    exact perform_keeps { s with queue := rest } job

theorem run_keeps (h : Inv s) (key : Key) (body : Body) : s.Keeps (s.run key body).1 := by
  cases hkey : s.inflight key with
  | some f =>
    rw [run_existing hkey]
    exact .refl s
  | none =>
    rw [run_free hkey]
    intro g gl hg
    have hgn : g ≠ s.next := by
      rintro rfl
      rw [h.fresh s.next le_rfl] at hg
      cases hg
    exact ⟨gl, (Function.update_of_ne hgn ..).trans hg, rfl, rfl⟩

theorem step_keeps (h : Inv s) (event : Event Key Body ε) : s.Keeps (s.step event) := by
  cases event with
  | run key body => exact run_keeps h key body
  | progress what =>
    cases what with
    | microtask => exact microtask_keeps s
    | throws f reason => exact throws_keeps s f reason
    | returns f => exact returns_keeps s f
    | settles f outcome => exact settles_keeps s f outcome

theorem exec_keeps (h : Inv s) (events : List (Event Key Body ε)) : s.Keeps (s.exec events) := by
  induction events generalizing s with
  | nil => exact .refl s
  | cons event later ih => exact (step_keeps h event).trans (ih (step_inv h event))

theorem perform_weight (s : State Key Body ε) (job : Job Key ε) :
    weight (s.perform job).queue < weight s.queue + job.reaction.weight := by
  have hput : ∀ (fl : Flight Key Body ε) (jobs : List (Reaction Key ε)),
      weight (jobs.map (Job.mk job.flight)) < job.reaction.weight →
        weight (s.put job.flight fl jobs).queue < weight s.queue + job.reaction.weight := by
    intro fl jobs hjobs
    rw [State.put, weight_append]
    omega
  have hpos : 0 < job.reaction.weight := by
    cases job.reaction <;> exact Nat.succ_pos _
  rw [State.perform]
  split
  · omega
  · rename_i fl hf
    split
    · rename_i hreaction
      apply hput
      rw [hreaction]
      exact Nat.one_pos
    · rename_i hreaction
      split
      · apply hput
        rw [hreaction]
        exact Nat.lt_succ_self 2
      · apply hput
        rw [hreaction]
        exact Nat.succ_pos 2
    · rename_i outcome hreaction
      apply hput
      rw [hreaction]
      exact Nat.lt_succ_self 1
    · change weight s.queue < weight s.queue + job.reaction.weight
      omega

theorem microtasks_drain (s : State Key Body ε) : ∃ n, (State.microtask^[n] s).queue = [] := by
  induction hweight : weight s.queue using Nat.strongRecOn generalizing s with
  | _ n ih =>
    cases hqueue : s.queue with
    | nil => exact ⟨0, hqueue⟩
    | cons job rest =>
      have hless : weight s.microtask.queue < n := by
        have hperform := perform_weight { s with queue := rest } job
        rw [State.microtask, hqueue, ← hweight, hqueue, weight, Nat.add_comm]
        exact hperform
      obtain ⟨m, hm⟩ := ih _ hless s.microtask rfl
      exact ⟨m + 1, hm⟩

theorem starts_of_free (h : Inv s) (hkey : s.inflight key = none) (body : Body) : s.Starts key body := by
  rw [State.Starts, run_free hkey]
  exact ⟨h.fresh s.next le_rfl, Function.update_self .., List.mem_append_right _ List.mem_cons_self⟩

theorem joins_of_held (h : Inv s) (hkey : s.inflight key = some f) (body : Body) : s.Joins key body := by
  rw [State.Joins, run_existing hkey]
  obtain ⟨fl, hf, rfl⟩ := h.holds key f hkey
  refine ⟨rfl, ?_, fl, hf, rfl⟩
  rw [released_iff hf]
  exact (h.held f fl hf).mp hkey

theorem sound_of_inv (h : Inv s) : s.Sound where
  single f g fl gl hf hg hfr hgr hkeys := by
    have hheld := (h.held f fl hf).mpr (stage_running (h.staged f fl hf) hfr)
    have hheld' := (h.held g gl hg).mpr (stage_running (h.staged g gl hg) hgr)
    rw [hkeys, hheld'] at hheld
    exact (Option.some.inj hheld).symm
  joins key body := by
    cases hkey : s.inflight key with
    | none => exact .inr (starts_of_free h hkey body)
    | some f => exact .inl (joins_of_held h hkey body)
  result key body later := by
    have hrun := run_inv h key body
    have hflight : ∃ fl, (s.run key body).1.flights (s.run key body).2 = some fl ∧ fl.key = key := by
      cases hkey : s.inflight key with
      | none => exact ⟨_, (starts_of_free h hkey body).2.1, rfl⟩
      | some f =>
        rw [run_existing hkey]
        exact h.holds key f hkey
    obtain ⟨fl, hf, hfl⟩ := hflight
    obtain ⟨fl', hf', hkey, -⟩ := exec_keeps hrun later _ fl hf
    exact ⟨fl', hf', hkey.trans hfl, fun _ => stage_result ((exec_inv hrun later).staged _ fl' hf')⟩
  frees f fl hf hreleased hlast body := starts_of_free h (free_of_released h hf hreleased hlast) body
  drains := microtasks_drain s
  unwedged hqueue key hrunning := by
    obtain ⟨f, hkey⟩ := Option.isSome_iff_exists.mp hrunning
    obtain ⟨fl, hf, rfl⟩ := h.holds key f hkey
    have hjobs : s.jobsOf f = [] := by
      rw [State.jobsOf, hqueue]
      rfl
    have hover := (h.held f fl hf).mp hkey
    have hstage := h.staged f fl hf
    rw [hjobs] at hover hstage
    exact ⟨f, fl, hf, rfl, stage_idle hstage hover⟩

theorem exec_sound (events : List (Event Key Body ε)) : ((State.empty : State Key Body ε).exec events).Sound :=
  sound_of_inv (exec_inv empty_inv events)

end Runs

end OpenMigrate.SingleFlight
