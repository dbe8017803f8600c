import OpenMigrate.Cutover.Linear

namespace OpenMigrate.Cutover

open Async

inductive OverallStatus where
  | pass
  | warn
  | fail
  deriving DecidableEq

def OverallStatus.name : OverallStatus → String
  | pass => "PASS"
  | warn => "WARN"
  | fail => "FAIL"

/-- What the job reads of the gate's result; `score` is the text `toFixed(3)` writes. -/
structure VerificationResult where
  overallStatus : OverallStatus
  score : String
  totalDiscrepancies : ℕ
  recommendations : List String
  canProceedToCutover : Bool

/-- What one turn meets: a statement's time and failure, and for the gate its result. -/
structure JobTurn extends Turn where
  verification : VerificationResult

/-- Where an execution of the job stands: in one of its three calls of the store, in its sync or gate, or over. -/
inductive Stage where
  | initializing (call : CutoverCall)
  | syncing
  | verifying
  | readying (call : CutoverCall)
  | failing (error : String) (call : CutoverCall)
  | ended (result : Except String CutoverStatus)

def initializing : CutoverCall where
  request := .initializeCutover none (some "trigger-job")

/-- An execution with the options it was given. `startedIn` and `gateFailed` are of the model: the state at its first
statement, and whether it failed by its gate. -/
structure Execution where
  runFinalSync : Bool
  runGate : Bool
  stage : Stage := .initializing initializing
  startedIn : Option CutoverState := none
  gateFailed : Bool := false

/-- The metadata `{ readyAt }` names no field of a status that is stored. -/
def readying : CutoverCall where
  request := .transitionState .readyForCutover (some (.inr {}))

def failing (error : String) (now : Instant) : CutoverCall where
  request := .transitionState .failed (some (.inr {
    failureReason := some error
    others := fun status => { status with failedAt := some now, failureReason := some error } }))

def gateFailure (verification : VerificationResult) : String :=
  let recommendations := "; ".intercalate verification.recommendations
  s!"Cutover verification failed: status={verification.overallStatus.name}, score={verification.score}, discrepancies={verification.totalDiscrepancies}. {recommendations}"

section Stages

variable (mappingId : String) (db : CutoverDb) (e : Execution) (i : JobTurn)

def Execution.toReady : Execution := { e with stage := .readying readying }

def Execution.toGate : Execution := if e.runGate then { e with stage := .verifying } else e.toReady

def Execution.toSync : Execution := if e.runFinalSync then { e with stage := .syncing } else e.toGate

/-- The catch of the task: it marks the cutover FAILED before it throws the error on. -/
def Execution.toFailed (error : String) : Execution := { e with stage := .failing error (failing error i.now) }

def Execution.started (call : CutoverCall) : Execution :=
  match call.state with
  | .start => { e with startedIn := startState db }
  | _ => e

def beginCutover (call : CutoverCall) : CutoverDb × Execution :=
  let r := cutoverStep mappingId db call i.toTurn
  (r.1, match r.2.state with
    | .settled (.ok _) => (e.started db call).toSync
    | .settled (.error error) => (e.started db call).toFailed i error
    | _ => { e.started db call with stage := .initializing r.2 })

def finalSync : Execution :=
  match i.fault with
  | some error => e.toFailed i error
  | none => e.toGate

def gate : Execution :=
  match i.fault with
  | some error => { e with gateFailed := true }.toFailed i error
  | none =>
    if i.verification.overallStatus = .fail || !i.verification.canProceedToCutover then
      { e with gateFailed := true }.toFailed i (gateFailure i.verification)
    else
      e.toReady

def markReady (call : CutoverCall) : CutoverDb × Execution :=
  let r := cutoverStep mappingId db call i.toTurn
  (r.1, match r.2.state with
    | .settled (.ok status) => { e with stage := .ended (.ok status) }
    | .settled (.error error) => e.toFailed i error
    | _ => { e with stage := .readying r.2 })

/-- Best effort: the error that is thrown on is the first one. -/
def markFailed (error : String) (call : CutoverCall) : CutoverDb × Execution :=
  let r := cutoverStep mappingId db call i.toTurn
  (r.1, match r.2.state with
    | .settled _ => { e with stage := .ended (.error error) }
    | _ => { e with stage := .failing error r.2 })

def runCutover : CutoverDb × Execution :=
  match e.stage with
  | .initializing call => beginCutover mappingId db e i call
  | .syncing => (db, finalSync e i)
  | .verifying => (db, gate e i)
  | .readying call => markReady mappingId db e i call
  | .failing error call => markFailed mappingId db e i error call
  | .ended _ => (db, e)

end Stages

/-- An operator's call of the store, or an execution of the job. -/
inductive Party where
  | operator (call : CutoverCall)
  | job (e : Execution)

def partyStep (mappingId : String) (db : CutoverDb) (p : Party) (i : JobTurn) : CutoverDb × Party :=
  match p with
  | .operator call => ((cutoverStep mappingId db call i.toTurn).1, .operator (cutoverStep mappingId db call i.toTurn).2)
  | .job e => ((runCutover mappingId db e i).1, .job (runCutover mappingId db e i).2)

def underWay : CutoverState → Bool
  | .approved | .cutoverInProgress | .gracePeriod => true
  | _ => false

def beforeApproval : CutoverState → Bool
  | .preparing | .readyForCutover => true
  | _ => false

/-- A change of state that an execution may make: it did not start on an approved or running cutover, the cutover is
not approved, and after a failed gate it is not one past READY_FOR_CUTOVER that becomes FAILED. -/
def mayChange (e : Execution) (before after : Option CutoverState) : Bool :=
  !e.startedIn.any underWay && before != some .approved &&
    !(e.gateFailed && after == some .failed && !before.any beforeApproval)

/-- What a turn of an execution leaves of the stored state: all of it, or it has made a change it may make. -/
def Leaves (db : CutoverDb) (r : CutoverDb × Execution) : Prop :=
  startState r.1 = startState db ∨ mayChange r.2 (startState db) (startState r.1) = true

/-- No turn of an execution disturbs the cutover. -/
def Prepares (mappingId : String) (db : CutoverDb) (p : Party) (i : JobTurn) : Prop :=
  match p with
  | .operator _ => True
  | .job e => Leaves db (runCutover mappingId db e i)

instance (mappingId : String) (db : CutoverDb) (p : Party) (i : JobTurn) : Decidable (Prepares mappingId db p i) :=
  match p with
  | .operator _ => inferInstanceAs (Decidable True)
  | .job _ => inferInstanceAs (Decidable (_ ∨ _))

/-- The transition that an execution asks for is one that the table refuses, or one it may make. -/
def harmless (e : Execution) (toState current : CutoverState) : Bool :=
  !isValidTransition current toState || mayChange e (some current) (some toState)

/-- A call of an execution loads a state from which its transition is harmless, and saves over the state it loaded. -/
def loadsHarmless (e : Execution) (toState : CutoverState) (db : CutoverDb) (call : CutoverCall) (i : JobTurn) : Bool :=
  match call.state with
  | .start => (startState db).all (harmless e toState)
  | .logged current _ => i.fault.isSome || startState db == some current.state
  | _ => true

def unopposed (db : CutoverDb) (p : Party) (i : JobTurn) : Bool :=
  match p with
  | .operator _ => true
  | .job e =>
    match e.stage with
    | .initializing call =>
      match call.state with
      | .absent => i.fault.isSome || (startState db).isNone
      | _ => true
    | .readying call => loadsHarmless e .readyForCutover db call i
    | .failing _ call => loadsHarmless e .failed db call i
    | _ => true

section Turns

variable (mappingId : String) {db : CutoverDb} {e : Execution} {i : JobTurn} {call : CutoverCall}
  {toState : CutoverState}

/-- A call of an execution for `toState` that has loaded a state has found its transition valid and harmless. -/
structure Asks (e : Execution) (toState : CutoverState) (call : CutoverCall) : Prop where
  request : ∃ m : Metadata, call.request = .transitionState toState (some (.inr m)) ∧ m.state = none
  loaded : ∀ current, call.state = .loaded current → harmless e toState current.state = true
  logged : ∀ current reason, call.state = .logged current reason → mayChange e (some current.state) (some toState) = true ∧
    isValidTransition current.state toState = true

def Execution.Asks (e : Execution) : Prop :=
  match e.stage with
  | .initializing call =>
    (∃ targetMailServer startedBy, call.request = .initializeCutover targetMailServer startedBy) ∧
      (call.state = .absent → e.startedIn = none)
  | .readying call => Cutover.Asks e .readyForCutover call
  | .failing _ call => Cutover.Asks e .failed call
  | _ => True

theorem Asks.settle (h : Asks e toState call) (result : Except String CutoverStatus) (seen : ℕ) :
    Asks e toState { call with state := .settled result, seen := seen } := by
  constructor
  · exact h.request
  · rintro current ⟨⟩
  · rintro current reason ⟨⟩

theorem fresh_asks (m : Metadata) (hm : m.state = none) :
    Asks e toState { request := .transitionState toState (some (.inr m)) } := by
  constructor
  · exact ⟨m, rfl, hm⟩
  · rintro current ⟨⟩
  · rintro current reason ⟨⟩

theorem logTransition_turn {current : CutoverStatus} {m : Metadata} (h : Asks e toState call)
    (hc : call.state = .loaded current) :
    startState (logTransition db call i.toTurn current toState (some (.inr m))).1 = startState db ∧
      Asks e toState (logTransition db call i.toTurn current toState (some (.inr m))).2 := by
  have hharmless := h.loaded current hc
  unfold logTransition
  split
  · exact ⟨rfl, h.settle _ _⟩
  · rename_i hvalid
    rw [Bool.not_eq_true', Bool.not_eq_false] at hvalid
    rw [harmless, hvalid] at hharmless
    split
    · exact ⟨rfl, h.settle _ _⟩
    · refine ⟨rfl, h.request, ?_, ?_⟩
      · rintro _ ⟨⟩
      · rintro _ _ ⟨⟩
        exact ⟨by simpa using hharmless, hvalid⟩

theorem saveTransition_turn {current : CutoverStatus} {reason : Option String} {m : Metadata}
    (h : Asks e toState call) (hc : call.state = .logged current reason) (hm : m.state = none)
    (hi : loadsHarmless e toState db call i = true) :
    (startState (saveTransition db call i.toTurn current reason toState (some (.inr m))).1 = startState db ∨
      ∃ s, startState db = some s ∧
        startState (saveTransition db call i.toTurn current reason toState (some (.inr m))).1 = some toState ∧
        mayChange e (some s) (some toState) = true) ∧
      Asks e toState (saveTransition db call i.toTurn current reason toState (some (.inr m))).2 := by
  obtain ⟨hmay, hvalid⟩ := h.logged current reason hc
  obtain ⟨updated, hupdated, hto⟩ := updateCutoverStatus_ok reason i.now hvalid
  have hsaved : (assignOf (some (.inr m)) updated).state = toState := by
    rw [assignOf_state, hto, metadataState, hm]
    rfl
  simp only [loadsHarmless, hc, Bool.or_eq_true, beq_iff_eq] at hi
  unfold saveTransition
  rw [hupdated]
  cases hfault : i.fault with
  | some reason => exact ⟨.inl rfl, h.settle _ _⟩
  | none =>
    have hrow : startState db = some current.state := by
      simpa [hfault] using hi
    have hwrote := save_wrote db (assignOf (some (.inr m)) updated) i.now
    rw [hsaved] at hwrote
    exact ⟨.inr ⟨current.state, hrow, hwrote.row, hmay⟩, h.settle _ _⟩

theorem transition_turn (h : Asks e toState call) (hi : loadsHarmless e toState db call i = true) :
    (startState (cutoverStep mappingId db call i.toTurn).1 = startState db ∨
      ∃ s, startState db = some s ∧ startState (cutoverStep mappingId db call i.toTurn).1 = some toState ∧
        mayChange e (some s) (some toState) = true) ∧
      Asks e toState (cutoverStep mappingId db call i.toTurn).2 := by
  obtain ⟨m, hreq, hm⟩ := h.request
  unfold cutoverStep
  rw [hreq]
  dsimp only
  unfold transitionState
  cases hc : call.state with
  | start =>
    dsimp only
    split
    · exact ⟨.inl rfl, h.settle _ _⟩
    · exact ⟨.inl rfl, h.settle _ _⟩
    · rename_i current _ hload
      simp only [loadsHarmless, hc, load_state hload] at hi
      refine ⟨.inl rfl, h.request, ?_, ?_⟩
      · rintro _ ⟨⟩
        exact hi
      · rintro _ _ ⟨⟩
  | loaded current => exact (logTransition_turn h hc).imp .inl id
  | logged current reason => exact saveTransition_turn h hc hm hi
  | absent | saved | settled => exact ⟨.inl rfl, h⟩

theorem initialize_turn {targetMailServer startedBy : Option String}
    (hreq : call.request = .initializeCutover targetMailServer startedBy)
    (hi : call.state = .absent → i.fault.isSome = true ∨ startState db = none) :
    (startState (cutoverStep mappingId db call i.toTurn).1 = startState db ∨
      call.state = .absent ∧ startState db = none ∧
        startState (cutoverStep mappingId db call i.toTurn).1 = some .preparing) ∧
      (cutoverStep mappingId db call i.toTurn).2.request = .initializeCutover targetMailServer startedBy ∧
      ((cutoverStep mappingId db call i.toTurn).2.state = .absent → call.state = .start ∧ startState db = none) := by
  unfold cutoverStep
  rw [hreq]
  dsimp only
  unfold initializeCutover
  cases hc : call.state with
  | start =>
    dsimp only
    split
    · exact ⟨.inl rfl, hreq, nofun⟩
    · exact ⟨.inl rfl, hreq, nofun⟩
    · rename_i hload
      exact ⟨.inl rfl, hreq, fun _ => ⟨rfl, load_none hload⟩⟩
  | absent =>
    dsimp only
    cases hfault : i.fault with
    | some reason => exact ⟨.inl rfl, hreq, nofun⟩
    | none =>
      have hnone : startState db = none := by
        simpa [hfault] using hi hc
      exact ⟨.inr ⟨rfl, hnone, rfl⟩, hreq, nofun⟩
  | saved status =>
    dsimp only
    split
    · exact ⟨.inl rfl, hreq, nofun⟩
    · exact ⟨.inl rfl, hreq, nofun⟩
  | loaded | logged | settled =>
    refine ⟨.inl rfl, hreq, ?_⟩
    dsimp only
    rw [hc]
    exact nofun

theorem Asks.stage (h : Asks e toState call) (stage : Stage) : Asks { e with stage := stage } toState call :=
  ⟨h.request, h.loaded, h.logged⟩

theorem toFailed_asks (e : Execution) (i : JobTurn) (error : String) : (e.toFailed i error).Asks :=
  fresh_asks _ rfl

theorem toReady_asks (e : Execution) : e.toReady.Asks := fresh_asks _ rfl

theorem toGate_asks (e : Execution) : e.toGate.Asks := by
  unfold Execution.toGate
  split
  · exact trivial
  · exact toReady_asks e

theorem toSync_asks (e : Execution) : e.toSync.Asks := by
  unfold Execution.toSync
  split
  · exact trivial
  · exact toGate_asks e

theorem toSync_startedIn (e : Execution) : e.toSync.startedIn = e.startedIn := by
  unfold Execution.toSync Execution.toGate Execution.toReady
  split
  · rfl
  · split <;> rfl

theorem finalSync_asks (e : Execution) (i : JobTurn) : (finalSync e i).Asks := by
  unfold finalSync
  split
  · exact toFailed_asks e i _
  · exact toGate_asks e

theorem gate_asks (e : Execution) (i : JobTurn) : (gate e i).Asks := by
  unfold gate
  split
  · exact toFailed_asks _ i _
  · split
    · exact toFailed_asks _ i _
    · exact toReady_asks e

theorem leaves_of_transition {db' : CutoverDb} {e' : Execution} (hstarted : e'.startedIn = e.startedIn)
    (hgate : e'.gateFailed = e.gateFailed)
    (h : startState db' = startState db ∨
      ∃ s, startState db = some s ∧ startState db' = some toState ∧ mayChange e (some s) (some toState) = true) :
    Leaves db (db', e') := by
  obtain h | ⟨s, hbefore, hafter, hmay⟩ := h
  · exact .inl h
  · right
    dsimp only
    rwa [hbefore, hafter, mayChange, hstarted, hgate]

theorem leaves_of_creation {db' : CutoverDb} {e' : Execution} (hstarted : e'.startedIn = none)
    (hbefore : startState db = none) (hafter : startState db' = some .preparing) : Leaves db (db', e') := by
  right
  dsimp only
  rw [hbefore, hafter, mayChange, hstarted]
  cases e'.gateFailed <;> rfl

theorem started_none (hnone : startState db = none) (hstarted : call.state = .absent → e.startedIn = none)
    (hc : call.state = .start ∨ call.state = .absent) : (Execution.started db e call).startedIn = none := by
  unfold Execution.started
  obtain hc | hc := hc
  · rw [hc]
    exact hnone
  · rw [hc]
    exact hstarted hc

theorem beginCutover_turn {targetMailServer startedBy : Option String}
    (hreq : call.request = .initializeCutover targetMailServer startedBy)
    (hstarted : call.state = .absent → e.startedIn = none)
    (hi : call.state = .absent → i.fault.isSome = true ∨ startState db = none) :
    Leaves db (beginCutover mappingId db e i call) ∧ (beginCutover mappingId db e i call).2.Asks := by
  obtain ⟨hdb, hreq', habsent⟩ := initialize_turn mappingId hreq hi
  have hleaves : ∀ e' : Execution, e'.startedIn = (Execution.started db e call).startedIn →
      Leaves db ((cutoverStep mappingId db call i.toTurn).1, e') := by
    intro e' he'
    obtain hsame | ⟨hc, hbefore, hafter⟩ := hdb
    · exact .inl hsame
    · exact leaves_of_creation (he'.trans (started_none hbefore hstarted (.inr hc))) hbefore hafter
  unfold beginCutover
  dsimp only
  split
  · exact ⟨hleaves _ (toSync_startedIn _), toSync_asks _⟩
  · exact ⟨hleaves _ rfl, toFailed_asks _ i _⟩
  · refine ⟨hleaves _ rfl, ⟨_, _, hreq'⟩, fun hc => ?_⟩
    obtain ⟨hstart, hnone⟩ := habsent hc
    exact started_none hnone hstarted (.inl hstart)

theorem markReady_turn (h : Asks e .readyForCutover call) (hi : loadsHarmless e .readyForCutover db call i = true) :
    Leaves db (markReady mappingId db e i call) ∧ (markReady mappingId db e i call).2.Asks := by
  obtain ⟨hdb, hasks⟩ := transition_turn mappingId h hi
  unfold markReady
  dsimp only
  split
  · exact ⟨leaves_of_transition rfl rfl hdb, trivial⟩
  · exact ⟨leaves_of_transition rfl rfl hdb, toFailed_asks e i _⟩
  · exact ⟨leaves_of_transition rfl rfl hdb, hasks.stage _⟩

theorem markFailed_turn {error : String} (h : Asks e .failed call) (hi : loadsHarmless e .failed db call i = true) :
    Leaves db (markFailed mappingId db e i error call) ∧ (markFailed mappingId db e i error call).2.Asks := by
  obtain ⟨hdb, hasks⟩ := transition_turn mappingId h hi
  unfold markFailed
  dsimp only
  split
  · exact ⟨leaves_of_transition rfl rfl hdb, trivial⟩
  · exact ⟨leaves_of_transition rfl rfl hdb, hasks.stage _⟩

theorem runCutover_turn (h : e.Asks) (hi : unopposed db (.job e) i = true) :
    Leaves db (runCutover mappingId db e i) ∧ (runCutover mappingId db e i).2.Asks := by
  unfold runCutover
  cases hstage : e.stage with
  | initializing call =>
    simp only [Execution.Asks, hstage] at h
    simp only [unopposed, hstage] at hi
    obtain ⟨⟨targetMailServer, startedBy, hreq⟩, hstarted⟩ := h
    apply beginCutover_turn mappingId hreq hstarted
    intro habsent
    simpa [habsent] using hi
  | syncing => exact ⟨.inl rfl, finalSync_asks e i⟩
  | verifying => exact ⟨.inl rfl, gate_asks e i⟩
  | readying call =>
    simp only [Execution.Asks, hstage] at h
    simp only [unopposed, hstage] at hi
    exact markReady_turn mappingId h hi
  | failing error call =>
    simp only [Execution.Asks, hstage] at h
    simp only [unopposed, hstage] at hi
    exact markFailed_turn mappingId h hi
  | ended result => exact ⟨.inl rfl, h⟩

end Turns

/-- Who takes part in a run: operators with their calls, and executions with their options. -/
inductive Arrival where
  | operator (request : CutoverRequest)
  | execution (runFinalSync runGate : Bool)

def Arrival.party : Arrival → Party
  | operator request => .operator { request := request }
  | execution runFinalSync runGate => .job { runFinalSync := runFinalSync, runGate := runGate }

def gathering (row : Option CutoverRow) (events : List CutoverEvent) (arrivals : List Arrival) :
    List Party × CutoverDb :=
  (arrivals.map Arrival.party, { row := row, events := events })

def Party.Asks : Party → Prop
  | operator _ => True
  | job e => e.Asks

theorem partyStep_turn (mappingId : String) {db : CutoverDb} {p : Party} {i : JobTurn} (h : p.Asks)
    (hi : unopposed db p i = true) : Prepares mappingId db p i ∧ (partyStep mappingId db p i).2.Asks := by
  cases p with
  | operator call => exact ⟨trivial, trivial⟩
  | job e => exact runCutover_turn mappingId h hi

theorem arrivals_ask (row : Option CutoverRow) (events : List CutoverEvent) (arrivals : List Arrival) :
    ∀ p ∈ (gathering row events arrivals).1, p.Asks := by
  intro p hp
  obtain ⟨arrival, -, rfl⟩ := List.mem_map.mp hp
  cases arrival with
  | operator request => exact trivial
  | execution runFinalSync runGate => exact ⟨⟨none, some "trigger-job", rfl⟩, nofun⟩

/-- In every interleaving of executions of the job with operators' calls in which every transition of an execution
loads a state it may replace, and saves over the state it loaded, no turn of an execution disturbs the cutover. -/
theorem preparation_disturbs_nothing (mappingId : String) (row : Option CutoverRow) (events : List CutoverEvent)
    (arrivals : List Arrival) (chs : List (ℕ × JobTurn))
    (h : EveryTurn (partyStep mappingId) (fun db p i => unopposed db p i = true) (gathering row events arrivals) chs) :
    EveryTurn (partyStep mappingId) (Prepares mappingId) (gathering row events arrivals) chs := by
  refine everyTurn_of_keeps (P := fun x => ∀ p ∈ x.1, p.Asks) ?_ h (arrivals_ask row events arrivals)
  intro x ch p hx hp hk
  have hturn := partyStep_turn mappingId (hx p (List.mem_of_getElem? hp)) hk
  refine ⟨hturn.1, ?_⟩
  obtain ⟨hnone, -⟩ | ⟨p', hp', hstep⟩ := turn_cases (partyStep mappingId) x ch
  · rw [hp] at hnone
    cases hnone
  · obtain rfl : p = p' := Option.some.inj (hp.symm.trans hp')
    rw [hstep]
    intro m hm
    obtain hm | rfl := List.mem_or_eq_of_mem_set hm
    · exact hx m hm
    · exact hturn.2

namespace Sample

def approved : CutoverRow := { inGrace with state := .approved, phase := .verification }

def passed : VerificationResult := ⟨.pass, "1.000", 0, [], true⟩

/-- A first preparation, and an approval after it. -/
def prepareThenApprove : List (ℕ × JobTurn) :=
  [0, 0, 0, 0, 0, 0, 0, 0, 1, 1, 1].map fun j => (j, ⟨⟨2, none⟩, passed⟩)

def prepareAgain : List (ℕ × JobTurn) := [0, 0, 0, 0, 0, 0].map fun j => (j, ⟨⟨2, none⟩, passed⟩)

end Sample

theorem preparation_before_approval :
    EveryTurn (partyStep "m") (fun db p i => unopposed db p i = true)
      (gathering none [] [.execution true true, .operator (.transitionState .approved none)]) Sample.prepareThenApprove ∧
    EveryTurn (partyStep "m") (Prepares "m")
      (gathering none [] [.execution true true, .operator (.transitionState .approved none)])
      Sample.prepareThenApprove := by
  have hturns : EveryTurn (partyStep "m") (fun db p i => unopposed db p i = true)
      (gathering none [] [.execution true true, .operator (.transitionState .approved none)])
      Sample.prepareThenApprove := by
    decide +kernel
  exact ⟨hturns, preparation_disturbs_nothing "m" none [] _ Sample.prepareThenApprove hturns⟩

/-- The job is started again on an approved cutover, its gate passes, and the approval is gone. -/
theorem preparation_revokes_approval :
    ¬ EveryTurn (partyStep "m") (Prepares "m") (gathering (some Sample.approved) [] [.execution true true])
      Sample.prepareAgain := by
  decide +kernel

end OpenMigrate.Cutover
