import OpenMigrate.Concurrency.SingleFlight

namespace OpenMigrate.InProcessScheduler

open SingleFlight

universe u v w

section Source

variable {Key : Type u} {Body : Type v} {ε : Type w}

structure Schedule (Key : Type u) (Body : Type v) where
  jobId : Key
  task : Body
  stopped : Bool

structure Scheduler (Key : Type u) (Body : Type v) (ε : Type w) where
  sf : SingleFlight.State Key Body ε
  schedules : List (Schedule Key Body)

def Scheduler.new : Scheduler Key Body ε := ⟨.empty, []⟩

def Scheduler.schedule (s : Scheduler Key Body ε) (jobId : Key) (task : Body) : Scheduler Key Body ε :=
  { s with schedules := s.schedules ++ [⟨jobId, task, false⟩] }

def Scheduler.stop (s : Scheduler Key Body ε) (handle : ℕ) : Scheduler Key Body ε :=
  { s with schedules := s.schedules.modify handle fun job => { job with stopped := true } }

variable [DecidableEq Key]

def Scheduler.runOnce (s : Scheduler Key Body ε) (jobId : Key) (task : Body) : Scheduler Key Body ε × ℕ :=
  ({ s with sf := (s.sf.run jobId task).1 }, (s.sf.run jobId task).2)

/-- A tick of the timer, with the promise it awaits; a stopped timer ticks no more. -/
def Scheduler.tick (s : Scheduler Key Body ε) (handle : ℕ) : Scheduler Key Body ε × Option ℕ :=
  match s.schedules[handle]? with
  | none => (s, none)
  | some job =>
    if job.stopped then
      (s, none)
    else
      ({ s with sf := (s.sf.run job.jobId job.task).1 }, some (s.sf.run job.jobId job.task).2)

inductive Happening (Key : Type u) (Body : Type v) (ε : Type w)
  | runOnce (jobId : Key) (task : Body)
  | schedule (jobId : Key) (task : Body)
  | stop (handle : ℕ)
  | tick (handle : ℕ)
  | progress (what : Progress ε)

def Scheduler.step (s : Scheduler Key Body ε) : Happening Key Body ε → Scheduler Key Body ε
  | .runOnce jobId task => (s.runOnce jobId task).1
  | .schedule jobId task => s.schedule jobId task
  | .stop handle => s.stop handle
  | .tick handle => (s.tick handle).1
  | .progress what => { s with sf := s.sf.progress what }

def Scheduler.exec (s : Scheduler Key Body ε) (happenings : List (Happening Key Body ε)) : Scheduler Key Body ε :=
  happenings.foldl Scheduler.step s

end Source

section Runs

variable {Key : Type u} {Body : Type v} {ε : Type w} [DecidableEq Key] {s : Scheduler Key Body ε}

theorem step_refines (s : Scheduler Key Body ε) (happening : Happening Key Body ε) :
    ∃ events : List (Event Key Body ε), (s.step happening).sf = s.sf.exec events := by
  cases happening with
  | runOnce jobId task => exact ⟨[.run jobId task], rfl⟩
  | schedule jobId task => exact ⟨[], rfl⟩
  | stop handle => exact ⟨[], rfl⟩
  | progress what => exact ⟨[.progress what], rfl⟩
  | tick handle =>
    rw [Scheduler.step, Scheduler.tick]
    split
    · exact ⟨[], rfl⟩
    · rename_i job hjob
      split
      · exact ⟨[], rfl⟩
      · exact ⟨[.run job.jobId job.task], rfl⟩

theorem exec_refines (s : Scheduler Key Body ε) (happenings : List (Happening Key Body ε)) :
    ∃ events : List (Event Key Body ε), (s.exec happenings).sf = s.sf.exec events := by
  induction happenings generalizing s with
  | nil => exact ⟨[], rfl⟩
  | cons happening later ih =>
    obtain ⟨first, hfirst⟩ := step_refines s happening
    obtain ⟨rest, hrest⟩ := ih (s.step happening)
    refine ⟨first ++ rest, ?_⟩
    rw [State.exec, List.foldl_append]
    change (Scheduler.exec (s.step happening) later).sf = (s.sf.exec first).exec rest
    rw [hrest, hfirst]

theorem tick_calls {handle : ℕ} {job : Schedule Key Body} (hjob : s.schedules[handle]? = some job) (hrunning : ¬ job.stopped) :
    (s.tick handle).1.sf = (s.sf.run job.jobId job.task).1 ∧ (s.tick handle).2 = some (s.sf.run job.jobId job.task).2 := by
  rw [Scheduler.tick, hjob]
  dsimp only
  rw [if_neg hrunning]
  exact ⟨rfl, rfl⟩

end Runs

section Tests

/-- Two calls join one flight; its task throws at once, and after the clean-up a tick of the same job starts its own. -/
example :
    let s := (Scheduler.new : Scheduler ℕ ℕ ℕ).exec
      [.runOnce 7 0, .schedule 7 1, .tick 0, .progress .microtask, .progress (.throws 0 5), .progress .microtask, .tick 0]
    (s.sf.inflight 7, (s.sf.flights 0).map (·.promise), (s.sf.flights 1).map (·.body)) =
      (some 1, some (some (.rejected 5)), some 1) := by
  decide

end Tests

end OpenMigrate.InProcessScheduler
