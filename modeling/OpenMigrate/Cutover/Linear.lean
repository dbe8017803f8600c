import OpenMigrate.Cutover.Store

namespace OpenMigrate.Cutover

open Async

abbrev Calls := List CutoverCall × CutoverDb

/-- The transitions a sequence of saved states stands for. -/
def transitions : Option CutoverState → List CutoverState → List (Option CutoverState × CutoverState)
  | _, [] => []
  | before, s :: ss => (before, s) :: transitions (some s) ss

/-- A first save is of PREPARING, any other follows VALID_TRANSITIONS. -/
def allowed : Option CutoverState × CutoverState → Bool
  | (none, s) => s == .preparing
  | (some a, b) => isValidTransition a b

def CutoverEvent.transition (e : CutoverEvent) : Option CutoverState × CutoverState := (e.fromState, e.toState)

/-- A call between its two writes. -/
def CutoverCall.inFlight (c : CutoverCall) : Bool :=
  match c.state with
  | .logged .. | .saved _ => true
  | _ => false

def startState (db : CutoverDb) : Option CutoverState := db.row.map (·.state)

/-- What the store shows of a run from `db₀` on: its saves are a path of valid transitions that leaves no terminal
state, the row holds the last of them, and where no call is between its writes, the log is those transitions in order. -/
structure Linear (db₀ : CutoverDb) (x : Calls) : Prop where
  path : ∀ t ∈ transitions (startState db₀) x.2.saves, allowed t = true
  terminal : ∀ a b, (some a, b) ∈ transitions (startState db₀) x.2.saves → VALID_TRANSITIONS a ≠ []
  row : startState x.2 = x.2.saves.getLast?.or (startState db₀)
  log : (∀ c ∈ x.1, c.inFlight = false) →
    x.2.events.map (·.transition) = db₀.events.map (·.transition) ++ transitions (startState db₀) x.2.saves

def metadataState : Option (String ⊕ Metadata) → Option CutoverState
  | some (.inr metadata) => metadata.state
  | _ => none

/-- No other call has written since this one's load when this one writes, a call that has made its first write makes
its second, and the metadata does not replace the state that was asked for. -/
def undisturbed (db : CutoverDb) (c : CutoverCall) (i : Turn) : Bool :=
  match c.request, c.state with
  | .transitionState toState _, .loaded current =>
    !isValidTransition current.state toState || i.fault.isSome || db.writes == c.seen
  | .transitionState toState metadataOrReason, .logged .. =>
    db.writes == c.seen && i.fault.isNone && ((metadataState metadataOrReason).getD toState == toState)
  | .initializeCutover .., .absent => i.fault.isSome || db.writes == c.seen
  | .initializeCutover .., .saved _ => db.writes == c.seen && i.fault.isNone
  | _, _ => true

section Transitions

theorem transitions_append (before : Option CutoverState) (ss : List CutoverState) (s : CutoverState) :
    transitions before (ss ++ [s]) = transitions before ss ++ [(ss.getLast?.or before, s)] := by
  induction ss generalizing before with
  | nil => rfl
  | cons a ss ih =>
    rw [List.cons_append, transitions, transitions, ih, List.cons_append, List.getLast?_cons]
    cases ss.getLast? with
    | none => rfl
    | some b => rfl

theorem valid_source {a b : CutoverState} (h : isValidTransition a b = true) : VALID_TRANSITIONS a ≠ [] := by
  intro hnil
  rw [isValidTransition, hnil] at h
  cases h

end Transitions

section Step

structure Wrote (db db' : CutoverDb) (saved : List CutoverState)
    (logged : List (Option CutoverState × CutoverState)) : Prop where
  saves : db'.saves = db.saves ++ saved
  events : db'.events.map (·.transition) = db.events.map (·.transition) ++ logged
  row : startState db' = saved.getLast?.or (startState db)
  writes : db'.writes = db.writes + 1

/-- What an undisturbed statement of a call does. -/
inductive Does (db : CutoverDb) (c : CutoverCall) : CutoverDb → CutoverCall → Prop
  | rest : Does db c db c
  | settle (h : c.inFlight = false) (r : Except String CutoverStatus) : Does db c db { c with state := .settled r }
  | load {current : CutoverStatus} (h : c.inFlight = false) (hrow : startState db = some current.state) :
    Does db c db { c with state := .loaded current, seen := db.writes }
  | miss (h : c.inFlight = false) (hrow : startState db = none) :
    Does db c db { c with state := .absent, seen := db.writes }
  | log {db' : CutoverDb} {current : CutoverStatus} {toState : CutoverState} {m : Option (String ⊕ Metadata)}
    {reason : Option String} (hreq : c.request = .transitionState toState m) (hc : c.state = .loaded current)
    (hseen : db.writes = c.seen) (hvalid : isValidTransition current.state toState = true)
    (hdb : Wrote db db' [] [(some current.state, toState)]) :
    Does db c db' { c with state := .logged current reason, seen := c.seen + 1 }
  | save {db' : CutoverDb} {current : CutoverStatus} {toState : CutoverState} {m : Option (String ⊕ Metadata)}
    {reason : Option String} {r : Except String CutoverStatus} (hreq : c.request = .transitionState toState m)
    (hc : c.state = .logged current reason) (hseen : db.writes = c.seen) (hdb : Wrote db db' [toState] []) :
    Does db c db' { c with state := .settled r, seen := c.seen + 1 }
  | create {db' : CutoverDb} {status : CutoverStatus} (hc : c.state = .absent) (hseen : db.writes = c.seen)
    (hdb : Wrote db db' [.preparing] []) : Does db c db' { c with state := .saved status, seen := c.seen + 1 }
  | note {db' : CutoverDb} {status : CutoverStatus} {r : Except String CutoverStatus} (hc : c.state = .saved status)
    (hseen : db.writes = c.seen) (hdb : Wrote db db' [] [(none, .preparing)]) :
    Does db c db' { c with state := .settled r, seen := c.seen + 1 }

variable {db : CutoverDb} {c : CutoverCall} {i : Turn}

theorem log_wrote (db : CutoverDb) (event : CutoverEvent) : Wrote db (logCutoverEvent db event) [] [event.transition] := by
  refine ⟨(List.append_nil _).symm, ?_, rfl, rfl⟩
  simp [logCutoverEvent]

theorem save_wrote (db : CutoverDb) (status : CutoverStatus) (now : Instant) :
    Wrote db (saveCutoverState db status now) [status.state] [] :=
  ⟨rfl, (List.append_nil _).symm, rfl, rfl⟩

theorem load_state {current : CutoverStatus} (h : loadCutoverState db = some current) :
    startState db = some current.state := by
  obtain ⟨row, hrow, rfl⟩ := Option.map_eq_some_iff.mp h
  rw [startState, hrow]
  rfl

theorem load_none (h : loadCutoverState db = none) : startState db = none := by
  rw [loadCutoverState, Option.map_eq_none_iff] at h
  rw [startState, h]
  rfl

theorem assignOf_state (m : Option (String ⊕ Metadata)) (status : CutoverStatus) :
    (assignOf m status).state = (metadataState m).getD status.state := by
  match m with
  | none | some (.inl _) | some (.inr _) => rfl

theorem updateCutoverStatus_ok {status : CutoverStatus} {newState : CutoverState} (reason : Option String) (now : Instant)
    (h : isValidTransition status.state newState = true) :
    ∃ updated, updateCutoverStatus status newState reason now = .ok updated ∧ updated.state = newState := by
  unfold updateCutoverStatus
  rw [h]
  exact ⟨_, rfl, rfl⟩

structure CallInv (db : CutoverDb) (c : CutoverCall) : Prop where
  seen : c.seen ≤ db.writes
  loaded : ∀ current, c.state = .loaded current → c.seen = db.writes → startState db = some current.state
  absent : c.state = .absent → c.seen = db.writes → startState db = none
  valid : ∀ current reason toState m, c.state = .logged current reason → c.request = .transitionState toState m →
    isValidTransition current.state toState = true
  logged : ∀ current reason, c.state = .logged current reason → c.seen = db.writes →
    startState db = some current.state

theorem transitionState_does (mappingId : String) {toState : CutoverState} {m : Option (String ⊕ Metadata)}
    (hreq : c.request = .transitionState toState m) (hinv : CallInv db c) (hk : undisturbed db c i = true) :
    Does db c (transitionState mappingId db c i toState m).1 (transitionState mappingId db c i toState m).2 := by
  unfold undisturbed at hk
  unfold transitionState
  rw [hreq] at hk
  cases hc : c.state with
  | start =>
    have hidle : c.inFlight = false := by rw [CutoverCall.inFlight, hc]
    dsimp only
    split
    · exact .settle hidle _
    · exact .settle hidle _
    · rename_i hload
      exact .load hidle (load_state hload)
  | loaded current =>
    have hidle : c.inFlight = false := by rw [CutoverCall.inFlight, hc]
    simp only [hc] at hk
    unfold logTransition
    dsimp only
    split
    · exact .settle hidle _
    rename_i hvalid
    rw [Bool.not_eq_true', Bool.not_eq_false] at hvalid
    split
    · exact .settle hidle _
    · rename_i hfault
      rw [hvalid, hfault] at hk
      exact .log hreq hc (by simpa using hk) hvalid (log_wrote db _)
  | logged current reason =>
    simp only [hc, Bool.and_eq_true, beq_iff_eq, Option.isNone_iff_eq_none] at hk
    obtain ⟨⟨hseen, hfault⟩, hstate⟩ := hk
    obtain ⟨updated, hupdated, hto⟩ := updateCutoverStatus_ok reason i.now (hinv.valid current reason toState m hc hreq)
    have hsaved : (assignOf m updated).state = toState := by rw [assignOf_state, hto, hstate]
    have hwrote := save_wrote db (assignOf m updated) i.now
    rw [hsaved] at hwrote
    unfold saveTransition
    simp only [hupdated, hfault]
    exact .save hreq hc hseen hwrote
  | absent | saved | settled => exact .rest

theorem initializeCutover_does {targetMailServer startedBy : Option String}
    (hreq : c.request = .initializeCutover targetMailServer startedBy) (hk : undisturbed db c i = true) :
    Does db c (initializeCutover db c i targetMailServer startedBy).1
      (initializeCutover db c i targetMailServer startedBy).2 := by
  unfold undisturbed at hk
  unfold initializeCutover
  rw [hreq] at hk
  cases hc : c.state with
  | start =>
    have hidle : c.inFlight = false := by rw [CutoverCall.inFlight, hc]
    dsimp only
    split
    · exact .settle hidle _
    · exact .settle hidle _
    · rename_i hload
      exact .miss hidle (load_none hload)
  | absent =>
    have hidle : c.inFlight = false := by rw [CutoverCall.inFlight, hc]
    simp only [hc] at hk
    dsimp only
    split
    · exact .settle hidle _
    · rename_i hfault
      rw [hfault] at hk
      exact .create hc (by simpa using hk) (save_wrote db _ _)
  | saved status =>
    simp only [hc, Bool.and_eq_true, beq_iff_eq, Option.isNone_iff_eq_none] at hk
    dsimp only
    rw [hk.2]
    exact .note hc hk.1 (log_wrote db _)
  | loaded | logged | settled => exact .rest

theorem step_does (mappingId : String) (hinv : CallInv db c) (hk : undisturbed db c i = true) :
    Does db c (cutoverStep mappingId db c i).1 (cutoverStep mappingId db c i).2 := by
  unfold cutoverStep
  cases hreq : c.request with
  | transitionState toState m => exact transitionState_does mappingId hreq hinv hk
  | initializeCutover targetMailServer startedBy => exact initializeCutover_does hreq hk

end Step

section Invariant

variable {db₀ db db' : CutoverDb} {c c' : CutoverCall} {x : Calls}

theorem CallInv.self (h : CallInv db c) (hd : Does db c db' c') : CallInv db' c' := by
  cases hd with
  | rest => exact h
  | settle => exact ⟨h.seen, by simp, by simp, by simp, by simp⟩
  | load hidle hrow =>
    refine ⟨le_rfl, ?_, by simp, by simp, by simp⟩
    rintro current ⟨⟩ _
    exact hrow
  | miss hidle hrow => exact ⟨le_rfl, by simp, fun _ _ => hrow, by simp, by simp⟩
  | log hreq hc hseen hvalid hdb =>
    have hw := hdb.writes
    refine ⟨by dsimp only; omega, by simp, by simp, ?_, ?_⟩
    · rintro current reason toState m ⟨⟩ hreq'
      rw [hreq] at hreq'
      cases hreq'
      exact hvalid
    · rintro current reason ⟨⟩ _
      rw [hdb.row]
      exact h.loaded _ hc hseen.symm
  | save hreq hc hseen hdb | note hc hseen hdb | create hc hseen hdb =>
    have hw := hdb.writes
    exact ⟨by dsimp only; omega, by simp, by simp, by simp, by simp⟩

theorem Does.store (hd : Does db c db' c') : db' = db ∨ db.writes < db'.writes := by
  cases hd with
  | rest | settle | load | miss => exact .inl rfl
  | log _ _ _ _ hdb | save _ _ _ hdb | create _ _ hdb | note _ _ hdb =>
    have hw := hdb.writes
    exact .inr (by omega)

theorem CallInv.other {m : CutoverCall} (h : CallInv db m) (hd : Does db c db' c') : CallInv db' m := by
  obtain rfl | hlt := hd.store
  · exact h
  · have hstale : m.seen ≠ db'.writes := by
      have hseen := h.seen
      omega
    exact ⟨by have hseen := h.seen; omega, fun _ _ he => absurd he hstale, fun _ he => absurd he hstale, h.valid,
      fun _ _ _ he => absurd he hstale⟩

def Doomed (x : Calls) : Prop := ∃ c ∈ x.1, c.inFlight = true ∧ c.seen < x.2.writes

def LogIs (db₀ db : CutoverDb) (missing extra : List (Option CutoverState × CutoverState)) : Prop :=
  db.events.map (·.transition) ++ missing =
    db₀.events.map (·.transition) ++ transitions (startState db₀) db.saves ++ extra

def Even (db₀ : CutoverDb) (x : Calls) : Prop := (∀ c ∈ x.1, c.inFlight = false) ∧ LogIs db₀ x.2 [] []

/-- One call is between its writes, and the log and the saves differ by its transition. -/
def Pending (db₀ : CutoverDb) (x : Calls) (j : ℕ) (c : CutoverCall) : Prop :=
  x.1[j]? = some c ∧ (∀ k m, k ≠ j → x.1[k]? = some m → m.inFlight = false) ∧
    ((∃ current reason toState m, c.state = .logged current reason ∧ c.request = .transitionState toState m ∧
        LogIs db₀ x.2 [] [(some current.state, toState)]) ∨
      ∃ status, c.state = .saved status ∧ LogIs db₀ x.2 [(none, .preparing)] [])

structure Inv (db₀ : CutoverDb) (x : Calls) : Prop where
  path : ∀ t ∈ transitions (startState db₀) x.2.saves, allowed t = true
  row : startState x.2 = x.2.saves.getLast?.or (startState db₀)
  calls : ∀ c ∈ x.1, CallInv x.2 c
  log : Doomed x ∨ Even db₀ x ∨ ∃ j c, Pending db₀ x j c

theorem Does.wrote (hd : Does db c db' c') : db' = db ∨ ∃ saved logged, Wrote db db' saved logged := by
  cases hd with
  | rest | settle | load | miss => exact .inl rfl
  | log _ _ _ _ hdb | save _ _ _ hdb | create _ _ hdb | note _ _ hdb => exact .inr ⟨_, _, hdb⟩

theorem Does.idle (hd : Does db c db' c') (hidle : c.inFlight = false) :
    db' = db ∧ c'.inFlight = false ∨ db.writes < db'.writes := by
  cases hd with
  | rest => exact .inl ⟨rfl, hidle⟩
  | settle | load | miss => exact .inl ⟨rfl, rfl⟩
  | log _ _ _ _ hdb | save _ _ _ hdb | create _ _ hdb | note _ _ hdb =>
    have hw := hdb.writes
    exact .inr (by omega)

theorem Does.flying (hd : Does db c db' c') (hfl : c.inFlight = true) :
    (db' = db ∧ c' = c) ∨ db.writes = c.seen ∧ c'.inFlight = false := by
  cases hd with
  | rest => exact .inl ⟨rfl, rfl⟩
  | settle hidle | load hidle | miss hidle =>
    rw [hidle] at hfl
    cases hfl
  | log _ hc | create hc =>
    rw [CutoverCall.inFlight, hc] at hfl
    cases hfl
  | save _ _ hseen | note _ hseen => exact .inr ⟨hseen, rfl⟩

theorem path_step (hinv : Inv db₀ x) (hc : c ∈ x.1) (hd : Does x.2 c db' c') :
    ∀ t ∈ transitions (startState db₀) db'.saves, allowed t = true := by
  have hcall := hinv.calls c hc
  cases hd with
  | rest | settle | load | miss => exact hinv.path
  | log _ _ _ _ hdb | note _ _ hdb =>
    rw [hdb.saves, List.append_nil]
    exact hinv.path
  | save hreq hstate hseen hdb =>
    rw [hdb.saves, transitions_append, ← hinv.row, hcall.logged _ _ hstate hseen.symm]
    intro t ht
    obtain ht | ht := List.mem_append.mp ht
    · exact hinv.path t ht
    · rw [List.mem_singleton.mp ht]
      exact hcall.valid _ _ _ _ hstate hreq
  | create hstate hseen hdb =>
    rw [hdb.saves, transitions_append, ← hinv.row, hcall.absent hstate hseen.symm]
    intro t ht
    obtain ht | ht := List.mem_append.mp ht
    · exact hinv.path t ht
    · rw [List.mem_singleton.mp ht]
      rfl

theorem row_step (hinv : Inv db₀ x) (hd : Does x.2 c db' c') :
    startState db' = db'.saves.getLast?.or (startState db₀) := by
  obtain rfl | ⟨saved, logged, hdb⟩ := hd.wrote
  · exact hinv.row
  · rw [hdb.row, hdb.saves, List.getLast?_append, Option.or_assoc, ← hinv.row]

theorem doomed_step {j : ℕ} (h : Doomed x) (hj : x.1[j]? = some c) (hd : Does x.2 c db' c') :
    Doomed (x.1.set j c', db') := by
  obtain ⟨m, hm, hfl, hlt⟩ := h
  have hle : x.2.writes ≤ db'.writes := by
    obtain rfl | hlt' := hd.store
    · exact le_rfl
    · omega
  by_cases hcm : c = m
  · subst hcm
    obtain ⟨rfl, rfl⟩ | ⟨hseen, -⟩ := hd.flying hfl
    · exact ⟨c', mem_set_self hj, hfl, hlt⟩
    · omega
  · refine ⟨m, mem_set_of_ne hm ?_, hfl, by dsimp only; omega⟩
    rw [hj]
    exact fun h => hcm (Option.some.inj h)

theorem idle_set {xs : List CutoverCall} {j : ℕ} (hothers : ∀ k m, k ≠ j → xs[k]? = some m → m.inFlight = false)
    (hc' : c'.inFlight = false) : ∀ m ∈ xs.set j c', m.inFlight = false := by
  intro m hm
  obtain ⟨k, hk⟩ := List.mem_iff_getElem?.mp hm
  by_cases hkj : j = k
  · subst hkj
    obtain ⟨-, rfl⟩ : j < xs.length ∧ c' = m := by simpa [List.getElem?_set] using hk
    exact hc'
  · rw [List.getElem?_set_ne hkj] at hk
    exact hothers k m (Ne.symm hkj) hk

theorem idle_others {xs : List CutoverCall} {j : ℕ} (h : ∀ k m, k ≠ j → xs[k]? = some m → m.inFlight = false) :
    ∀ k m, k ≠ j → (xs.set j c')[k]? = some m → m.inFlight = false := by
  intro k m hkj hk
  rw [List.getElem?_set_ne hkj.symm] at hk
  exact h k m hkj hk

theorem getElem?_set_same {xs : List CutoverCall} {j : ℕ} (hj : xs[j]? = some c) : (xs.set j c')[j]? = some c' := by
  obtain ⟨hlt, -⟩ := List.getElem?_eq_some_iff.mp hj
  exact List.getElem?_set_self hlt

theorem even_step {j : ℕ} (hinv : Inv db₀ x) (h : Even db₀ x) (hj : x.1[j]? = some c) (hd : Does x.2 c db' c') :
    Even db₀ (x.1.set j c', db') ∨ Pending db₀ (x.1.set j c', db') j c' := by
  have hc := List.mem_of_getElem? hj
  have hidle := h.1 c hc
  have hothers : ∀ k m, k ≠ j → x.1[k]? = some m → m.inFlight = false := fun k m _ hk =>
    h.1 m (List.mem_of_getElem? hk)
  have hlog : x.2.events.map (·.transition) ++ [] =
    db₀.events.map (·.transition) ++ transitions (startState db₀) x.2.saves ++ [] := h.2
  rw [List.append_nil, List.append_nil] at hlog
  cases hd with
  | rest => exact .inl ⟨idle_set hothers hidle, h.2⟩
  | settle | load | miss => exact .inl ⟨idle_set hothers rfl, h.2⟩
  | log hreq hstate hseen hvalid hdb =>
    refine .inr ⟨getElem?_set_same hj, idle_others hothers, .inl ⟨_, _, _, _, rfl, hreq, ?_⟩⟩
    rw [LogIs, hdb.events, hdb.saves, List.append_nil, List.append_nil, hlog]
  | create hstate hseen hdb =>
    refine .inr ⟨getElem?_set_same hj, idle_others hothers, .inr ⟨_, rfl, ?_⟩⟩
    have hnone := (hinv.calls c hc).absent hstate hseen.symm
    rw [LogIs, hdb.events, hdb.saves, transitions_append, ← hinv.row, hnone, List.append_nil, List.append_nil, hlog,
      List.append_assoc]
  | save _ hstate | note hstate =>
    rw [CutoverCall.inFlight, hstate] at hidle
    cases hidle

theorem pending_self {j : ℕ} (hinv : Inv db₀ x) (h : Pending db₀ x j c) (hd : Does x.2 c db' c') :
    Even db₀ (x.1.set j c', db') ∨ Pending db₀ (x.1.set j c', db') j c' := by
  obtain ⟨hj, hothers, hlog⟩ := h
  have hcall := hinv.calls c (List.mem_of_getElem? hj)
  have hfl : c.inFlight = true := by
    obtain ⟨_, _, _, _, hstate, -⟩ | ⟨_, hstate, -⟩ := hlog <;> rw [CutoverCall.inFlight, hstate]
  cases hd with
  | rest => exact .inr ⟨getElem?_set_same hj, idle_others hothers, hlog⟩
  | settle hidle | load hidle | miss hidle =>
    rw [hidle] at hfl
    cases hfl
  | log _ hstate | create hstate =>
    rw [CutoverCall.inFlight, hstate] at hfl
    cases hfl
  | save hreq hstate hseen hdb =>
    refine .inl ⟨idle_set hothers rfl, ?_⟩
    have hrow := hcall.logged _ _ hstate hseen.symm
    obtain ⟨current, reason, toState, m, hstate', hreq', hlog⟩ | ⟨_, hstate', -⟩ := hlog
    · rw [hstate] at hstate'
      rw [hreq] at hreq'
      cases hstate'
      cases hreq'
      rw [LogIs, List.append_nil] at hlog
      rw [LogIs, hdb.events, hdb.saves, transitions_append, ← hinv.row, hrow, List.append_nil, List.append_nil, hlog,
        List.append_nil, List.append_assoc]
    · rw [hstate] at hstate'
      cases hstate'
  | note hstate hseen hdb =>
    refine .inl ⟨idle_set hothers rfl, ?_⟩
    obtain ⟨_, _, _, _, hstate', -⟩ | ⟨_, -, hlog⟩ := hlog
    · rw [hstate] at hstate'
      cases hstate'
    · rw [LogIs] at hlog
      rw [LogIs, hdb.events, hdb.saves, List.append_nil x.2.saves, List.append_nil, hlog]

theorem pending_other {j k : ℕ} {m : CutoverCall} (hinv : Inv db₀ x) (h : Pending db₀ x k m) (hjk : j ≠ k)
    (hj : x.1[j]? = some c) (hd : Does x.2 c db' c') :
    Doomed (x.1.set j c', db') ∨ Pending db₀ (x.1.set j c', db') k m := by
  obtain ⟨hk, hothers, hlog⟩ := h
  have hk' : (x.1.set j c')[k]? = some m := by rw [List.getElem?_set_ne hjk, hk]
  obtain ⟨rfl, hidle⟩ | hlt := hd.idle (hothers j c hjk hj)
  · refine .inr ⟨hk', fun n l hn hl => ?_, hlog⟩
    by_cases hnj : n = j
    · subst hnj
      obtain ⟨-, rfl⟩ : n < x.1.length ∧ c' = l := by simpa [List.getElem?_set] using hl
      exact hidle
    · rw [List.getElem?_set_ne (Ne.symm hnj)] at hl
      exact hothers n l hn hl
  · -- another call has come between the two writes of this one
    have hseen := (hinv.calls m (List.mem_of_getElem? hk)).seen
    refine .inl ⟨m, List.mem_of_getElem? hk', ?_, by dsimp only; omega⟩
    obtain ⟨_, _, _, _, hstate, -⟩ | ⟨_, hstate, -⟩ := hlog <;> rw [CutoverCall.inFlight, hstate]

theorem Inv.step {j : ℕ} (hinv : Inv db₀ x) (hj : x.1[j]? = some c) (hd : Does x.2 c db' c') :
    Inv db₀ (x.1.set j c', db') := by
  have hc := List.mem_of_getElem? hj
  refine ⟨path_step hinv hc hd, row_step hinv hd, ?_, ?_⟩
  · intro m hm
    obtain hm | rfl := List.mem_or_eq_of_mem_set hm
    · exact (hinv.calls m hm).other hd
    · exact (hinv.calls c hc).self hd
  · obtain hdoomed | heven | ⟨k, m, hpending⟩ := hinv.log
    · exact .inl (doomed_step hdoomed hj hd)
    · exact .inr ((even_step hinv heven hj hd).imp_right fun h => ⟨j, c', h⟩)
    · by_cases hjk : j = k
      · subst hjk
        obtain rfl : c = m := Option.some.inj (hj.symm.trans hpending.1)
        exact .inr ((pending_self hinv hpending hd).imp_right fun h => ⟨j, c', h⟩)
      · obtain hdoomed | hpending' := pending_other hinv hpending hjk hj hd
        · exact .inl hdoomed
        · exact .inr (.inr ⟨k, m, hpending'⟩)

theorem Inv.linear (h : Inv db₀ x) : Linear db₀ x := by
  refine ⟨h.path, fun a b hmem => valid_source (h.path _ hmem), h.row, fun hidle => ?_⟩
  obtain ⟨c, hc, hfl, -⟩ | heven | ⟨j, c, hj, -, hstate⟩ := h.log
  · rw [hidle c hc] at hfl
    cases hfl
  · simpa only [LogIs, List.append_nil] using heven.2
  · have hno := hidle c (List.mem_of_getElem? hj)
    obtain ⟨_, _, _, _, hstate, -⟩ | ⟨_, hstate, -⟩ := hstate
    · rw [CutoverCall.inFlight, hstate] at hno
      cases hno
    · rw [CutoverCall.inFlight, hstate] at hno
      cases hno

end Invariant

def beginning (row : Option CutoverRow) (events : List CutoverEvent) (requests : List CutoverRequest) : Calls :=
  (requests.map fun request => { request := request }, { row := row, events := events })

theorem beginning_inv (row : Option CutoverRow) (events : List CutoverEvent) (requests : List CutoverRequest) :
    Inv (beginning row events requests).2 (beginning row events requests) := by
  have hcalls : ∀ c ∈ (beginning row events requests).1, c.state = .start ∧ c.seen = 0 := by
    intro c hc
    obtain ⟨request, -, rfl⟩ := List.mem_map.mp hc
    exact ⟨rfl, rfl⟩
  refine ⟨by simp [beginning, transitions], rfl, fun c hc => ?_, .inr (.inl ⟨fun c hc => ?_, ?_⟩)⟩
  · obtain ⟨hstate, hseen⟩ := hcalls c hc
    exact ⟨by rw [hseen]; exact Nat.zero_le _, by simp [hstate], by simp [hstate], by simp [hstate], by simp [hstate]⟩
  · rw [CutoverCall.inFlight, (hcalls c hc).1]
  · simp [LogIs, beginning, transitions]

/-- In every interleaving of any number of calls for one mapping in which every statement is undisturbed, the saved
states are a path of valid transitions that leaves no terminal state, and the log records them in order. -/
theorem cutover_linear (mappingId : String) (row : Option CutoverRow) (events : List CutoverEvent)
    (requests : List CutoverRequest) (chs : List (ℕ × Turn))
    (h : EveryTurn (cutoverStep mappingId) (fun db c i => undisturbed db c i = true)
      (beginning row events requests) chs) (n : ℕ) :
    Linear (beginning row events requests).2
      (turns (cutoverStep mappingId) (beginning row events requests) (chs.take n)) := by
  refine Inv.linear (turns_keeps ?_ h (beginning_inv row events requests) n)
  intro x ch c hinv hc hk
  obtain ⟨hnone, -⟩ | ⟨c', hc', hturn⟩ := turn_cases (cutoverStep mappingId) x ch
  · rw [hc] at hnone
    cases hnone
  · obtain rfl : c = c' := Option.some.inj (hc.symm.trans hc')
    rw [hturn]
    exact hinv.step hc (step_does mappingId (hinv.calls c (List.mem_of_getElem? hc)) hk)

namespace Sample

def inGrace : CutoverRow where
  state := .gracePeriod
  phase := .grace
  verificationStatus := .pass
  verificationReport := "[]"
  gracePeriodStartedAt := some 1
  gracePeriodCompletedAt := none
  targetMailServer := none
  errorMessage := none
  errorDetails := none
  createdAt := 0
  updatedAt := 1

def decisions : List CutoverRequest := [.transitionState .completed none, .transitionState .rolledBack none]

/-- One call after the other, and two that both load before either writes. -/
def oneByOne : List (ℕ × Turn) := [0, 0, 0, 1, 1].map fun j => (j, ⟨2, none⟩)

def overlapping : List (ℕ × Turn) := [0, 1, 0, 0, 1, 1].map fun j => (j, ⟨2, none⟩)

end Sample

theorem cutover_linear_oneByOne :
    EveryTurn (cutoverStep "m") (fun db c i => undisturbed db c i = true)
      (beginning (some Sample.inGrace) [] Sample.decisions) Sample.oneByOne ∧
    Linear (beginning (some Sample.inGrace) [] Sample.decisions).2
      (turns (cutoverStep "m") (beginning (some Sample.inGrace) [] Sample.decisions) (Sample.oneByOne.take 5)) := by
  have hturns : EveryTurn (cutoverStep "m") (fun db c i => undisturbed db c i = true)
      (beginning (some Sample.inGrace) [] Sample.decisions) Sample.oneByOne := by decide +kernel
  exact ⟨hturns, cutover_linear "m" (some Sample.inGrace) [] Sample.decisions Sample.oneByOne hturns 5⟩

/-- Completed and rolled back at once: the second save leaves a terminal state. -/
theorem cutover_overlap_leaves_terminal :
    ¬ Linear (beginning (some Sample.inGrace) [] Sample.decisions).2
      (turns (cutoverStep "m") (beginning (some Sample.inGrace) [] Sample.decisions) Sample.overlapping) := by
  intro h
  have hmem : (some .completed, .rolledBack) ∈ transitions (startState (beginning (some Sample.inGrace) [] Sample.decisions).2)
      (turns (cutoverStep "m") (beginning (some Sample.inGrace) [] Sample.decisions) Sample.overlapping).2.saves := by
    decide +kernel
  exact h.terminal _ _ hmem rfl

end OpenMigrate.Cutover
