import OpenMigrate.Pglite.Isolation

namespace OpenMigrate.Pglite

open Async

variable {Rows Op Value : Type} {Answer : Op → Type}

section Source

def Stage.ended : Stage Op Answer Value → Bool
  | returned _ => true
  | _ => false

/-- How far a call is from its end. -/
def Stage.weight : Stage Op Answer Value → ℕ
  | opening => 3
  | waiting => 2
  | returned _ => 0
  | _ => 1

/-- A call that is over has left its gate shut. -/
def Stuck (x : List (Caller Op Answer Value) × Driver Rows) : Prop :=
  ∃ c ∈ x.1, c.stage.ended = true ∧ ∃ t ∈ c.ticket, x.2.gates[t]? = some false

/-- Some order of turns, each with a statement that runs, brings every call to its end. -/
def CanEnd (perform : Context → (op : Op) → Rows → Except String (Rows × Answer op))
    (x : List (Caller Op Answer Value) × Driver Rows) : Prop :=
  ∃ chs : List (ℕ × Outcome), (∀ ch ∈ chs, ch.2 = .runs) ∧
    ∀ c ∈ (turns (step perform) x chs).1, c.stage.ended = true

/-- With statements that run, a caller that has the connection comes to its end and opens its gate. -/
def Finishes (perform : Context → (op : Op) → Rows → Except String (Rows × Answer op))
    (x : List (Caller Op Answer Value) × Driver Rows) (j : ℕ) (c : Caller Op Answer Value) : Prop :=
  ∃ chs : List (ℕ × Outcome), (∀ ch ∈ chs, ch.2 = .runs) ∧ ∃ result driver,
    turns (step perform) x chs = (x.1.set j { c with stage := .returned result }, driver) ∧
      driver.gates = (x.2.openGate c.ticket).gates

end Source

section Finishing

variable {perform : Context → (op : Op) → Rows → Except String (Rows × Answer op)}
  {x : List (Caller Op Answer Value) × Driver Rows} {driver : Driver Rows} {stage : Stage Op Answer Value} {j : ℕ}
  {c : Caller Op Answer Value}

theorem turn_eq (hj : x.1[j]? = some c) (outcome : Outcome) :
    turn (step perform) x (j, outcome) = (x.1.set j (step perform x.2 c outcome).2, (step perform x.2 c outcome).1) :=
      by
  simp [turn, hj]

theorem Finishes.now (hj : x.1[j]? = some c) (session : Session Rows) (result : Except String Value)
    (hstep : step perform x.2 c .runs =
      ({ x.2 with session := session }.openGate c.ticket, { c with stage := .returned result })) :
    Finishes perform x j c := by
  refine ⟨[(j, .runs)], by simp, result, { x.2 with session := session }.openGate c.ticket, ?_, rfl⟩
  rw [turns, turn_eq hj, hstep]
  rfl

theorem Finishes.later (hj : x.1[j]? = some c) (session : Session Rows) (stage : Stage Op Answer Value)
    (hstep : step perform x.2 c .runs = ({ x.2 with session := session }, { c with stage := stage }))
    (h : Finishes perform (x.1.set j { c with stage := stage }, { x.2 with session := session }) j
      { c with stage := stage }) :
    Finishes perform x j c := by
  obtain ⟨chs, hruns, result, driver', hturns, hopens⟩ := h
  refine ⟨(j, .runs) :: chs, by simpa using hruns, result, driver', ?_, hopens⟩
  rw [turns, turn_eq hj, hstep]
  simpa using hturns

theorem getElem?_set_stage (hj : x.1[j]? = some c) (stage : Stage Op Answer Value) :
    (x.1.set j { c with stage := stage })[j]? = some { c with stage := stage } :=
  List.getElem?_set_self (List.getElem?_eq_some_iff.mp hj).1

theorem rollingBack_finishes {error : String} (hj : x.1[j]? = some c) (hstage : c.stage = .rollingBack error) :
    Finishes perform x j c := by
  refine .now hj { x.2.session with transaction := .none } (.error error) ?_
  simp only [step, hstage]
  rfl

theorem resetting_finishes {result : Except String Value} (hj : x.1[j]? = some c)
    (hstage : c.stage = .resetting result) :
    Finishes perform x j c := by
  refine .now hj (x.2.session.hears (x.2.session.execute .reset) .runs).1 result ?_
  simp only [step, hstage]

theorem committing_finishes {value : Value} (hj : x.1[j]? = some c) (hstage : c.stage = .committing value) :
    Finishes perform x j c := by
  have hcommit : ∃ session, x.2.session.execute .commit = .ok (session, ()) := by
    unfold Session.execute
    cases x.2.session.transaction <;> exact ⟨_, rfl⟩
  obtain ⟨session, hok⟩ := hcommit
  refine .now hj session (.ok value) ?_
  simp only [step, hstage, hok]
  rfl

theorem work_finishes {fn : Prog Op Answer String Value} (hj : x.1[j]? = some c) (hstage : c.stage = work fn) :
    Finishes perform x j c := by
  induction fn generalizing x c with
  | ret value => exact committing_finishes hj hstage
  | fail error => exact rollingBack_finishes hj hstage
  | call op k ih =>
    have hworking : c.stage = .working op k := hstage
    refine .later hj (x.2.session.hears (x.2.session.query perform op) .runs).1
      (work (k (x.2.session.hears (x.2.session.query perform op) .runs).2)) ?_
      (ih (x.2.session.hears (x.2.session.query perform op) .runs).2 (getElem?_set_stage hj _) rfl)
    simp only [step, hworking]

/-- A statement of the wrapper leads to the next stage or to the ROLLBACK. -/
theorem sends_finishes (command : Command) (next : Stage Op Answer Value) (hj : x.1[j]? = some c)
    (hstep : step perform x.2 c .runs = sends x.2 c command .runs next)
    (hnext : ∀ session, Finishes perform (x.1.set j { c with stage := next }, { x.2 with session := session }) j
      { c with stage := next }) : Finishes perform x j c := by
  unfold sends at hstep
  cases hexecute : x.2.session.execute command with
  | ok done =>
    rw [hexecute] at hstep
    exact .later hj done.1 next hstep (hnext done.1)
  | error error =>
    rw [hexecute] at hstep
    exact .later hj x.2.session.spoilt (.rollingBack error) hstep (rollingBack_finishes (getElem?_set_stage hj _) rfl)

theorem set_finishes {settings : List (Setting × String)} (hj : x.1[j]? = some c)
    (hstage : c.stage = c.call.set settings) : Finishes perform x j c := by
  induction settings generalizing x c with
  | nil => exact work_finishes hj hstage
  | cons setting rest ih =>
    refine sends_finishes (.setConfig setting.1 setting.2) (c.call.set rest) hj ?_ fun session =>
      ih (getElem?_set_stage hj _) rfl
    have hsetting : c.stage = .setting setting.1 setting.2 rest := hstage
    simp only [step, hsetting]

theorem begun_finishes {role : Option String} (hj : x.1[j]? = some c) (hstage : c.stage = c.call.begun role) :
    Finishes perform x j c := by
  cases role with
  | none => exact set_finishes hj hstage
  | some role =>
    have hsetting : c.stage = .settingRole role := hstage
    refine sends_finishes (.setLocalRole role) (c.call.set c.call.settings) hj ?_ fun session =>
      set_finishes (getElem?_set_stage hj _) rfl
    simp only [step, hsetting]

theorem holder_finishes (hj : x.1[j]? = some c) (hholds : c.stage.holds = true)
    (hnone : c.stage = .asserting → x.2.session.transaction = .none) : Finishes perform x j c := by
  have hbeginning : ∀ (x : List (Caller Op Answer Value) × Driver Rows) (c : Caller Op Answer Value),
      x.1[j]? = some c → c.stage = .beginning → Finishes perform x j c := fun x c hj hstage =>
    sends_finishes .begin (c.call.begun x.2.role) hj (by simp only [step, hstage]) fun session =>
      begun_finishes (getElem?_set_stage hj _) rfl
  cases hstage : c.stage with
  | opening | waiting | returned =>
    rw [hstage] at hholds
    cases hholds
  | asserting =>
    refine .later hj { x.2.session with rowSecurity := true } .beginning ?_
      (hbeginning _ _ (getElem?_set_stage hj _) rfl)
    simp only [step, hstage, Session.execute, hnone hstage]
    rfl
  | beginning => exact hbeginning x c hj hstage
  | settingRole role =>
    have hbegun : c.stage = c.call.begun (some role) := hstage
    exact begun_finishes hj hbegun
  | setting name value rest =>
    have hset : c.stage = c.call.set ((name, value) :: rest) := hstage
    exact set_finishes hj hset
  | working op k =>
    have hwork : c.stage = work (.call op k) := hstage
    exact work_finishes hj hwork
  | committing value => exact committing_finishes hj hstage
  | rollingBack error => exact rollingBack_finishes hj hstage
  | resetting result => exact resetting_finishes hj hstage

end Finishing

section Ends

variable {perform : Context → (op : Op) → Rows → Except String (Rows × Answer op)}
  {calls : List (TenantCall Op Answer Value)} {rows : Rows} {served : ℕ} {js : List ℕ}
  {x : List (Caller Op Answer Value) × Driver Rows} {j : ℕ} {c : Caller Op Answer Value}

theorem resets_runs (driver : Driver Rows) (c : Caller Op Answer Value) : Resets driver c .runs := fun _ => rfl

theorem turns_ordered {chs : List (ℕ × Outcome)} (h : ∃ served js, Ordered perform calls rows served js x)
    (hruns : ∀ ch ∈ chs, ch.2 = .runs) :
    ∃ served js, Ordered perform calls rows served js (turns (step perform) x chs) := by
  induction chs generalizing x with
  | nil => exact h
  | cons ch chs ih =>
    refine ih ?_ fun ch hch => hruns ch (List.mem_cons_of_mem _ hch)
    obtain ⟨-, hturn⟩ | ⟨c, hc, -⟩ := turn_cases (step perform) x ch
    · rwa [hturn]
    · have hresets : Resets x.2 c ch.2 := by
        rw [hruns ch List.mem_cons_self]
        exact resets_runs x.2 c
      exact (turn_ordered ⟨rfl, h⟩ hc hresets).2

/-- The one turn or the many of a caller that opens its gate, or is not over, or never had one, leave no gate shut. -/
theorem not_stuck_set {c' : Caller Op Answer Value} {driver : Driver Rows} (h : Ordered perform calls rows served js x)
    (hfree : ¬ Stuck x) (hgates : ∀ t < x.2.gates.length, driver.gates[t]? = some false → x.2.gates[t]? = some false)
    (hown : c'.stage.ended = true → ∀ t ∈ c'.ticket, driver.gates[t]? ≠ some false) :
    ¬ Stuck (x.1.set j c', driver) := by
  rintro ⟨d, hd, hended, t, ht, hshut⟩
  obtain hd | rfl := List.mem_or_eq_of_mem_set hd
  · obtain ⟨k, hk⟩ := List.mem_iff_getElem?.mp hd
    have hlt := ((h.placed k d hk).ticket t ht).1
    exact hfree ⟨d, hd, hended, t, ht, hgates t hlt hshut⟩
  · exact hown hended t ht hshut

theorem previous_served (h : Ordered perform calls rows served js x) (hlt : served < x.2.gates.length) :
    x.2.previous (some served) = true := by
  cases served with
  | zero => rfl
  | succ t =>
    simp only [Driver.previous, decide_eq_true_eq]
    rw [h.gates t (Nat.lt_of_succ_lt hlt)]
    simp

/-- Where nobody has the connection, and no gate has been left shut, the one that waits for the last has its turn. -/
theorem exists_next (h : Ordered perform calls rows served js x) (hfree : ¬ Stuck x) (hc : c ∈ x.1)
    (hwaiting : c.stage = .waiting) (hnone : ∀ d ∈ x.1, d.stage.holds = false) :
    ∃ (j : ℕ) (d : Caller Op Answer Value), x.1[j]? = some d ∧ d.stage = .waiting ∧ x.2.previous d.ticket = true := by
  obtain ⟨j, hj⟩ := List.mem_iff_getElem?.mp hc
  obtain ⟨t, ht⟩ := Option.ne_none_iff_exists'.mp ((h.placed j c hj).waiting hwaiting)
  obtain ⟨hlt, hbefore, -⟩ := (h.placed j c hj).ticket t ht
  have hserved : served ≤ t := by
    by_contra hnot
    obtain ⟨result, hreturned⟩ := hbefore (not_le.mp hnot)
    rw [hwaiting] at hreturned
    cases hreturned
  obtain ⟨k, d, hk, hd⟩ := h.owned served (hserved.trans_lt hlt)
  have hmem := List.mem_of_getElem? hk
  refine ⟨k, d, hk, ?_, hd ▸ previous_served h (hserved.trans_lt hlt)⟩
  cases hstage : d.stage with
  | waiting => rfl
  | opening =>
    rw [(h.placed k d hk).opening hstage] at hd
    cases hd
  | returned result =>
    refine absurd ⟨d, hmem, by rw [hstage]; rfl, served, hd, ?_⟩ hfree
    rw [h.gates served (hserved.trans_lt hlt)]
    simp
  | _ =>
    have hholds := hnone d hmem
    rw [hstage] at hholds
    cases hholds

theorem weight_of_holds {stage : Stage Op Answer Value} (h : stage.holds = true) : stage.weight = 1 := by
  cases stage <;> first | rfl | cases h

/-- The first turn of a call, where the database is to be opened or is. -/
theorem opens_runs (driver : Driver Rows) (c : Caller Op Answer Value) :
    (∃ opening, openDriver driver c .runs = takeTicket { driver with opening := opening } c) ∨
      ∃ error, openDriver driver c .runs = (driver, { c with stage := .returned (.error error) }) := by
  unfold openDriver
  match hopening : driver.opening with
  | none => exact .inl ⟨some (.ok ()), rfl⟩
  | some (.ok _) => exact .inl ⟨driver.opening, rfl⟩
  | some (.error error) => exact .inr ⟨error, rfl⟩

/-- Some turns, or many, that bring one call nearer to its end and leave no gate shut. -/
theorem exists_turns (h : Ordered perform calls rows served js x) (hfree : ¬ Stuck x) (hc : c ∈ x.1)
    (hended : c.stage.ended = false) :
    ∃ (chs : List (ℕ × Outcome)) (j : ℕ) (d d' : Caller Op Answer Value) (driver : Driver Rows),
      (∀ ch ∈ chs, ch.2 = .runs) ∧ x.1[j]? = some d ∧ d'.stage.weight < d.stage.weight ∧
        turns (step perform) x chs = (x.1.set j d', driver) ∧ ¬ Stuck (x.1.set j d', driver) := by
  by_cases hholder : ∃ d ∈ x.1, d.stage.holds = true
  · obtain ⟨d, hd, hholds⟩ := hholder
    obtain ⟨k, hk⟩ := List.mem_iff_getElem?.mp hd
    have hplaced := h.placed k d hk
    have hticket := hplaced.holds hholds
    obtain ⟨chs, hruns, result, driver, hturns, hgates⟩ : Finishes perform x k d := by
      refine holder_finishes hk hholds fun hstage => ?_
      have hfits := hplaced.fits
      rw [hstage] at hfits
      exact hfits
    have hopens : driver.gates = x.2.gates.set served true := by
      rw [hgates, hticket]
      rfl
    refine ⟨chs, k, d, _, driver, hruns, hk, ?_, hturns, not_stuck_set h hfree (fun t ht hshut => ?_) fun _ t ht => ?_⟩
    · rw [weight_of_holds hholds]
      exact Nat.zero_lt_one
    · rw [hopens] at hshut
      by_cases hsame : served = t
      · subst hsame
        rw [List.getElem?_set_self ht] at hshut
        cases hshut
      · rwa [List.getElem?_set_ne hsame] at hshut
    · obtain rfl := Option.some.inj (ht.symm.trans hticket)
      rw [hopens, List.getElem?_set_self (hplaced.within hholds)]
      simp
  · have hnone : ∀ d ∈ x.1, d.stage.holds = false := by simpa using hholder
    cases hstage : c.stage with
    | opening =>
      obtain ⟨j, hj⟩ := List.mem_iff_getElem?.mp hc
      have hnoTicket := (h.placed j c hj).opening hstage
      have hstep : step perform x.2 c .runs = openDriver x.2 c .runs := by simp only [step, hstage]
      refine ⟨[(j, .runs)], j, c, (step perform x.2 c .runs).2, (step perform x.2 c .runs).1, by simp, hj, ?_, ?_, ?_⟩
      · rw [hstep]
        obtain ⟨opening, hopens⟩ | ⟨error, hopens⟩ := opens_runs x.2 c <;> rw [hopens, hstage]
        · exact Nat.lt_succ_self 2
        · exact Nat.zero_lt_succ 2
      · exact turn_eq hj .runs
      · rw [hstep]
        obtain ⟨opening, hopens⟩ | ⟨error, hopens⟩ := opens_runs x.2 c <;> rw [hopens]
        · refine not_stuck_set h hfree (fun t ht hshut => ?_) fun hended => ?_
          · simpa [takeTicket, List.getElem?_append_left ht] using hshut
          · cases hended
        · refine not_stuck_set h hfree (fun t _ => id) fun _ t ht => ?_
          cases hnoTicket.symm.trans ht
    | waiting =>
      obtain ⟨j, d, hj, hwaiting, hready⟩ := exists_next h hfree hc hstage hnone
      have hstep : step perform x.2 d .runs = (x.2, { d with stage := .asserting }) := by
        simp only [step, hwaiting, hready, if_true]
      refine ⟨[(j, .runs)], j, d, { d with stage := .asserting }, x.2, by simp, hj, ?_, ?_,
        not_stuck_set h hfree (fun t _ => id) fun hended => ?_⟩
      · rw [hwaiting]
        exact Nat.lt_succ_self 1
      · rw [turns, turn_eq hj, hstep]
        rfl
      · cases hended
    | returned =>
      rw [hstage] at hended
      cases hended
    | _ =>
      have hholds := hnone c hc
      rw [hstage] at hholds
      cases hholds

theorem canEnd_of_not_stuck (h : ∃ served js, Ordered perform calls rows served js x) (hfree : ¬ Stuck x) :
    CanEnd perform x := by
  induction hN : (x.1.map fun c => c.stage.weight).sum using Nat.strong_induction_on generalizing x with
  | _ N ih =>
    by_cases hall : ∀ c ∈ x.1, c.stage.ended = true
    · exact ⟨[], by simp, hall⟩
    · obtain ⟨c, hc, hended⟩ : ∃ c ∈ x.1, c.stage.ended = false := by simpa using hall
      obtain ⟨served, js, hordered⟩ := h
      obtain ⟨chs, j, d, d', driver, hruns, hd, hlt, hturns, hfree'⟩ := exists_turns hordered hfree hc hended
      have hordered' := turns_ordered ⟨served, js, hordered⟩ hruns
      rw [hturns] at hordered'
      have hless : ((x.1.set j d').map fun c => c.stage.weight).sum < N := by
        rw [← hN]
        exact sum_set_lt hd hlt
      obtain ⟨chs', hruns', hends⟩ := ih _ hless hordered' hfree' rfl
      refine ⟨chs ++ chs', fun ch hch => ?_, ?_⟩
      · exact (List.mem_append.mp hch).elim (hruns ch) (hruns' ch)
      · rw [turns_append, hturns]
        exact hends

/-- A gate left shut is the last that callers wait for. -/
theorem stuck_served (h : Ordered perform calls rows served js x) (hstuck : Stuck x) :
    ∃ d ∈ x.1, d.stage.ended = true ∧ d.ticket = some served ∧ served < x.2.gates.length := by
  obtain ⟨d, hd, hended, t, ht, hshut⟩ := hstuck
  obtain ⟨k, hk⟩ := List.mem_iff_getElem?.mp hd
  obtain ⟨hlt, -, hafter⟩ := (h.placed k d hk).ticket t ht
  have hle : served ≤ t := by
    rw [h.gates t hlt] at hshut
    simpa using hshut
  have heq : t = served := by
    by_contra hne
    have hwaiting := hafter (lt_of_le_of_ne hle (Ne.symm hne))
    rw [hwaiting] at hended
    cases hended
  exact ⟨d, hd, hended, heq ▸ ht, heq ▸ hlt⟩

/-- With a gate left shut, no turn brings a call that is not over to its end. -/
theorem stuck_turn (h : Ordered perform calls rows served js x) (hstuck : Stuck x) (hj : x.1[j]? = some c)
    (hended : c.stage.ended = false) :
    Stuck (x.1.set j (step perform x.2 c .runs).2, (step perform x.2 c .runs).1) ∧
      (step perform x.2 c .runs).2.stage.ended = false := by
  obtain ⟨d, hd, hdended, hticket, hlt⟩ := stuck_served h hstuck
  have hne : x.1[j]? ≠ some d := by
    intro hsame
    obtain rfl := Option.some.inj (hj.symm.trans hsame)
    rw [hended] at hdended
    cases hdended
  have hother : c.ticket ≠ some served := by
    intro hc
    obtain ⟨k, hk⟩ := List.mem_iff_getElem?.mp hd
    obtain rfl := h.tickets j k c d hj hk served hc hticket
    exact hne hk
  have hshut : x.2.gates[served]? = some false := by
    rw [h.gates served hlt]
    simp
  cases hstage : c.stage with
  | opening =>
    have hopening := h.opened (List.ne_nil_of_length_pos (Nat.zero_lt_of_lt hlt))
    have hstep : step perform x.2 c .runs = takeTicket x.2 c := by
      simp only [step, hstage, openDriver, hopening]
    rw [hstep]
    refine ⟨⟨d, mem_set_of_ne hd hne, hdended, served, hticket, ?_⟩, rfl⟩
    simpa [takeTicket, List.getElem?_append_left hlt] using hshut
  | waiting =>
    have hready : x.2.previous c.ticket = false := by
      by_contra hready
      exact hother (h.served_of_previous hj hstage (by simpa using hready))
    have hstep : step perform x.2 c .runs = (x.2, c) := by
      simp only [step, hstage, hready, Bool.false_eq_true, if_false]
    rw [hstep]
    exact ⟨⟨d, mem_set_of_ne hd hne, hdended, served, hticket, hshut⟩, hended⟩
  | returned =>
    rw [hstage] at hended
    cases hended
  | _ => exact absurd ((h.placed j c hj).holds (by rw [hstage]; rfl)) hother

theorem not_canEnd (h : ∃ served js, Ordered perform calls rows served js x) (hstuck : Stuck x) (hc : c ∈ x.1)
    (hended : c.stage.ended = false) : ¬ CanEnd perform x := by
  rintro ⟨chs, hruns, hends⟩
  induction chs generalizing x c with
  | nil =>
    have hend := hends c hc
    rw [hended] at hend
    cases hend
  | cons ch chs ih =>
    obtain ⟨j, outcome⟩ := ch
    obtain rfl : outcome = .runs := hruns (j, outcome) List.mem_cons_self
    have hrest : ∀ ch ∈ chs, ch.2 = .runs := fun ch hch => hruns ch (List.mem_cons_of_mem _ hch)
    have hordered : ∃ served js, Ordered perform calls rows served js (turn (step perform) x (j, .runs)) :=
      turns_ordered h (List.forall_mem_singleton.mpr rfl)
    rw [turns] at hends
    obtain ⟨-, hturn⟩ | ⟨d, hj, hturn⟩ := turn_cases (step perform) x (j, .runs)
    · rw [hturn] at hends
      exact ih h hstuck hc hended hrest hends
    · rw [hturn] at hends hordered
      cases hdended : d.stage.ended with
      | true =>
        have hstays : step perform x.2 d .runs = (x.2, d) := by
          cases hstage : d.stage with
          | returned => simp only [step, hstage]
          | _ =>
            rw [hstage] at hdended
            cases hdended
        obtain ⟨hlt, hget⟩ := List.getElem?_eq_some_iff.mp hj
        have hsame : x.1.set j d = x.1 := by rw [← hget, List.set_getElem_self]
        rw [hstays, hsame] at hends
        exact ih h hstuck hc hended hrest hends
      | false =>
        obtain ⟨served, js, hbefore⟩ := h
        obtain ⟨hstuck', hended'⟩ := stuck_turn hbefore hstuck hj hdended
        by_cases hown : x.1[j]? = some c
        · exact ih hordered hstuck' (mem_set_self hj) hended' hrest hends
        · exact ih hordered hstuck' (mem_set_of_ne hc hown) hended hrest hends

end Ends

end OpenMigrate.Pglite
