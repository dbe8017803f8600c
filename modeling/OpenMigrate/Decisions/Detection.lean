import OpenMigrate.Decisions.Store
import OpenMigrate.Text

namespace OpenMigrate.Decisions

section Source

/-- A `raise` of which no other statement comes in between. -/
def raise (rows : List DecisionRow) (input : RaiseDecisionInput) (now : Instant) :
    List DecisionRow × Except String (DecisionRow × Bool) :=
  match insertDecision rows input now with
  | (rows', some row) => (rows', .ok (row, true))
  | (rows', none) =>
    match rows'.find? input.isOpen with
    | some found => (rows', .ok (found, false))
    | none =>
      match insertDecision rows' input now with
      | (rows'', some row) => (rows'', .ok (row, true))
      | (rows'', none) => (rows'', .error (conflictTwice input))

inductive DirectoryListing where
  | listed (addresses : List String)
  | notEnumerable (reason : String)

structure DetectInput where
  tenantId : String
  listing : DirectoryListing
  covered : List String
  dismissed : List String
  coverageIncomplete : Option String

structure DetectResult where
  decisions : List RaiseDecisionInput
  blindSpot : Option String := none

/-- `address.trim().toLowerCase()` -/
def norm (address : String) : String := String.ofList (lower (trim address.toList))

def newMailbox (tenantId raw : String) : RaiseDecisionInput where
  tenantId := tenantId
  category := .newMailbox
  subjectKey := norm raw
  summary := s!"{String.ofList (trim raw.toList)} exists on the source and no migration covers it. " ++
    "Nothing is being copied from it."
  detail := some [("address", .text (String.ofList (trim raw.toList)))]
  proposedDefault := some "Create a mapping for this mailbox"

/-- The addresses that a decision is raised about; those in `seen` have one. -/
def uncovered (covered dismissed : List String) : List String → List String → List String
  | _, [] => []
  | seen, raw :: rest =>
    if norm raw = "" ∨ norm raw ∈ covered ∨ norm raw ∈ dismissed ∨ norm raw ∈ seen then
      uncovered covered dismissed seen rest
    else raw :: uncovered covered dismissed (norm raw :: seen) rest

def detectNewMailboxes (input : DetectInput) : DetectResult :=
  match input.listing, truthy input.coverageIncomplete with
  | .notEnumerable reason, _ => { decisions := [], blindSpot := some reason }
  | .listed _, some reason => { decisions := [], blindSpot := some reason }
  | .listed addresses, none =>
    { decisions :=
        (uncovered (input.covered.map norm) (input.dismissed.map norm) [] addresses).map (newMailbox input.tenantId) }

inductive PresetAction where
  | auto
  | ask
  deriving DecidableEq

/-- What a run finds outside of the queue, and which of its calls about an address fail. -/
structure Run where
  listing : DirectoryListing
  covered : List String
  coverageIncomplete : Option String
  presetAction : Option PresetAction
  now : Instant
  raiseFails : String → Bool := fun _ => false
  autoResolveFails : String → Bool := fun _ => false

/-- The subjects of the decisions of the category that were dismissed. -/
def dismissedAddresses (tenantId : String) (rows : List DecisionRow) : List String :=
  rows.filterMap fun row =>
    if row.tenantId = tenantId ∧ row.status = .dismissed ∧ row.category = .newMailbox then truthy row.subjectKey
    else none

/-- The table, the rows that the run has created, the decisions that it has told of, and its counts. -/
structure Detection where
  rows : List DecisionRow
  created : List DecisionRow := []
  announced : List RaiseDecisionInput := []
  raised : ℕ := 0
  autoResolved : ℕ := 0
  alreadyPending : ℕ := 0
  failed : ℕ := 0

def presetFacts (subjectKey : String) : Facts :=
  [("closedBy", .text "policy_preset"), ("preset", .other "\x7b\"category\":\"new_mailbox\",\"action\":\"auto\"\x7d"),
    ("subject", .text subjectKey)]

/-- The body of the loop. -/
def detectOne (tenantId : String) (run : Run) (s : Detection) (decision : RaiseDecisionInput) : Detection :=
  if run.raiseFails decision.subjectKey then { s with failed := s.failed + 1 }
  else
    match raise s.rows decision run.now with
    | (rows, .error _) => { s with rows, failed := s.failed + 1 }
    | (rows, .ok (_, false)) => { s with rows, alreadyPending := s.alreadyPending + 1 }
    | (rows, .ok (row, true)) =>
      if run.presetAction.getD .ask = .auto then
        { s with
          rows :=
            if run.autoResolveFails decision.subjectKey then rows
            else (close rows (autoResolve tenantId row.id (presetFacts decision.subjectKey)) run.now).1
          created := s.created ++ [row]
          autoResolved := s.autoResolved + 1 }
      else
        { s with
          rows
          created := s.created ++ [row]
          announced := s.announced ++ [decision]
          raised := s.raised + 1 }

def runNewMailboxDetection (tenantId : String) (run : Run) (rows : List DecisionRow) : Detection :=
  let result := detectNewMailboxes
    { tenantId, listing := run.listing, covered := run.covered, dismissed := dismissedAddresses tenantId rows,
      coverageIncomplete := truthy run.coverageIncomplete }
  match truthy result.blindSpot with
  | some _ => { rows }
  | none => result.decisions.foldl (detectOne tenantId run) { rows }

end Source

section Settled

variable (tenantId : String) (rows : List DecisionRow) (run : Run)

/-- A later run over the same directory, with the same coverage and the same preset. -/
structure Run.Again (run run' : Run) : Prop where
  listing : run'.listing = run.listing
  covered : run'.covered = run.covered
  coverageIncomplete : run'.coverageIncomplete = run.coverageIncomplete
  presetAction : run'.presetAction = run.presetAction

def isAbout (subjectKey : String) (row : DecisionRow) : Prop :=
  row.tenantId = tenantId ∧ row.category = .newMailbox ∧ row.subjectKey = some subjectKey

/-- The run asks about nothing that was answered, and after one in which no raise fails the next creates nothing, tells
of nothing and answers nothing. -/
structure AsksOnce : Prop where
  answered : ∀ row ∈ (runNewMailboxDetection tenantId run rows).created, ∀ subjectKey,
    isAbout tenantId subjectKey row → ∀ row' ∈ rows, isAbout tenantId subjectKey row' → row'.status = .pending
  settled : (runNewMailboxDetection tenantId run rows).failed = 0 → ∀ run', run.Again run' →
    (runNewMailboxDetection tenantId run' (runNewMailboxDetection tenantId run rows).rows).created = [] ∧
    (runNewMailboxDetection tenantId run' (runNewMailboxDetection tenantId run rows).rows).announced = [] ∧
    (runNewMailboxDetection tenantId run' (runNewMailboxDetection tenantId run rows).rows).autoResolved = 0

/-- The mailbox is listed where the run can look, no mapping covers it, and nobody has dismissed it. -/
def Uncovered (subjectKey : String) : Prop :=
  ∃ addresses, run.listing = .listed addresses ∧ truthy run.coverageIncomplete = none ∧
    subjectKey ∈ addresses.map norm ∧ subjectKey ≠ "" ∧ subjectKey ∉ run.covered.map norm ∧
    subjectKey ∉ (dismissedAddresses tenantId rows).map norm

def HasOpen (subjectKey : String) : Prop := ∃ row ∈ rows, isOpenAbout tenantId .newMailbox subjectKey row = true

/-- A decision that the run creates stays open. -/
def Run.KeepsOpen (subjectKey : String) : Prop :=
  run.presetAction.getD .ask = .ask ∨ run.autoResolveFails subjectKey = true

/-- What a run creates is the first decision about its mailbox and, unless a raise of the run fails, stays open. -/
def StaysAsked : Prop :=
  ∀ subjectKey, Uncovered tenantId rows run subjectKey → ¬ HasOpen tenantId rows subjectKey →
    run.raiseFails subjectKey = false → (∀ row ∈ rows, ¬ isAbout tenantId subjectKey row) ∧
      ((∀ subjectKey', Uncovered tenantId rows run subjectKey' → run.raiseFails subjectKey' = false) →
        run.KeepsOpen subjectKey)

end Settled

section Loop

variable {covered dismissed seen addresses : List String} {a : String}

theorem mem_uncovered : a ∈ (uncovered covered dismissed seen addresses).map norm ↔
    a ∈ addresses.map norm ∧ a ≠ "" ∧ a ∉ covered ∧ a ∉ dismissed ∧ a ∉ seen := by
  induction addresses generalizing seen with
  | nil => simp [uncovered]
  | cons raw rest ih =>
    rw [uncovered]
    split
    · rename_i hskip
      rw [ih, List.map_cons, List.mem_cons]
      constructor
      · rintro ⟨hrest, hkept⟩
        exact ⟨.inr hrest, hkept⟩
      · rintro ⟨hfirst | hrest, hne, hcovered, hdismissed, hseen⟩
        · rw [← hfirst] at hskip
          obtain h | h | h | h := hskip
          · exact absurd h hne
          · exact absurd h hcovered
          · exact absurd h hdismissed
          · exact absurd h hseen
        · exact ⟨hrest, hne, hcovered, hdismissed, hseen⟩
    · rename_i hask
      simp only [not_or] at hask
      rw [List.map_cons, List.mem_cons, ih, List.map_cons, List.mem_cons, List.mem_cons, not_or]
      constructor
      · rintro (hfirst | ⟨hrest, hne, hcovered, hdismissed, -, hseen⟩)
        · rw [hfirst]
          exact ⟨.inl rfl, hask⟩
        · exact ⟨.inr hrest, hne, hcovered, hdismissed, hseen⟩
      · rintro ⟨hmem, hne, hcovered, hdismissed, hseen⟩
        by_cases hfirst : a = norm raw
        · exact .inl hfirst
        · exact .inr ⟨hmem.resolve_left hfirst, hne, hcovered, hdismissed, hfirst, hseen⟩

theorem uncovered_nodup (covered dismissed seen addresses : List String) :
    ((uncovered covered dismissed seen addresses).map norm).Nodup := by
  induction addresses generalizing seen with
  | nil => exact List.nodup_nil
  | cons raw rest ih =>
    rw [uncovered]
    split
    · exact ih seen
    · rw [List.map_cons, List.nodup_cons, mem_uncovered]
      exact ⟨fun hmem => hmem.2.2.2.2 List.mem_cons_self, ih _⟩

end Loop

section Raise

variable {rows : List DecisionRow} {input : RaiseDecisionInput} {now : Instant}

theorem raise_open (h : ∃ row ∈ rows, input.isOpen row = true) (now : Instant) :
    ∃ found, raise rows input now = (rows, .ok (found, false)) := by
  obtain ⟨row, hrow, hopen⟩ := h
  cases hfind : rows.find? input.isOpen with
  | none => exact absurd hopen (List.find?_eq_none.mp hfind row hrow)
  | some found =>
    refine ⟨found, ?_⟩
    rw [raise, insertDecision_open ⟨row, hrow, hopen⟩]
    simp only [hfind]

theorem raise_new (h : ∀ row ∈ rows, input.isOpen row = false) (now : Instant) :
    raise rows input now = (rows ++ [input.row (freshId rows) now], .ok (input.row (freshId rows) now, true)) := by
  rw [raise, insertDecision_new h]

theorem step_returned {call : Call} {reply : Except String Reply} (h : call.stage = .returned reply)
    (rows : List DecisionRow) (t : Turn) : step rows call t = (rows, call) := by
  rw [step]
  split <;> simp_all

theorem turns_raise (rows : List DecisionRow) (input : RaiseDecisionInput) (now : Instant) :
    Async.turns step (opening [.raise input], rows) (List.replicate 3 (0, ⟨now, none⟩)) =
      ([⟨.raise input, .returned ((raise rows input now).2.map fun reply => .raised reply.1 reply.2)⟩],
        (raise rows input now).1) := by
  have hturns : ∀ (call : Call) (rows : List DecisionRow) (n : ℕ),
      Async.turns step ([call], rows) (List.replicate (n + 1) (0, ⟨now, none⟩)) =
        Async.turns step ([(step rows call ⟨now, none⟩).2], (step rows call ⟨now, none⟩).1)
          (List.replicate n (0, ⟨now, none⟩)) := fun _ _ _ => rfl
  rw [opening, List.map_singleton, hturns]
  obtain ⟨hopen, hinsert⟩ | ⟨hnew, hinsert⟩ := insertDecision_cases rows input now
  · obtain ⟨row, hrow, hrowOpen⟩ := hopen
    cases hfind : rows.find? input.isOpen with
    | none => exact absurd hrowOpen (List.find?_eq_none.mp hfind row hrow)
    | some found =>
      have hfirst : step rows { request := .raise input } ⟨now, none⟩ = (rows, ⟨.raise input, .reading⟩) := by
        simp only [step, hinsert]
      have hsecond : step rows ⟨.raise input, .reading⟩ ⟨now, none⟩ =
          (rows, ⟨.raise input, .returned (.ok (.raised found false))⟩) := by
        simp only [step, hfind, Call.return]
      rw [hfirst, hturns, hsecond, hturns, step_returned rfl, raise, hinsert]
      simp only [hfind]
      rfl
  · have hfirst : step rows { request := .raise input } ⟨now, none⟩ = (rows ++ [input.row (freshId rows) now],
        ⟨.raise input, .returned (.ok (.raised (input.row (freshId rows) now) true))⟩) := by
      simp only [step, hinsert, Call.return]
    rw [hfirst, hturns, step_returned rfl, hturns, step_returned rfl, raise, hinsert]
    rfl

theorem close_newest {row : DecisionRow} {closing : Closing} (hrow : row.id = freshId rows)
    (hid : closing.decisionId = row.id) (hopen : closing.isOpen row = true) (now : Instant) :
    (close (rows ++ [row]) closing now).1 = rows ++ [closing.set now row] := by
  have hothers : rows.map (fun row => if closing.isOpen row then closing.set now row else row) = rows := by
    conv_rhs => rw [← List.map_id rows]
    apply List.map_congr_left
    intro other hother
    have hlt := lt_freshId hother
    have hclosed : ¬ closing.isOpen other = true := by
      rw [Closing.isOpen_iff]
      intro h
      omega
    exact if_neg hclosed
  rw [close, List.map_append, hothers, List.map_singleton, if_pos hopen]

end Raise

section Run

variable {tenantId a : String} {run : Run} {rows : List DecisionRow} {keys keys' : List String} {s s' s'' : Detection}

/-- What the loop over decisions about these subjects has done. -/
structure Detected (tenantId : String) (run : Run) (keys : List String) (s s' : Detection) : Prop where
  kept : ∀ row ∈ s.created, row ∈ s'.created
  creates : ∀ row ∈ s'.created, row ∈ s.created ∨
    ∃ a ∈ keys, isAbout tenantId a row ∧ ¬ HasOpen tenantId s.rows a ∧ run.raiseFails a = false
  created : ∀ a ∈ keys, ¬ HasOpen tenantId s.rows a → run.raiseFails a = false →
    ∃ row ∈ s'.created, isAbout tenantId a row
  hasOpen : ∀ a, HasOpen tenantId s'.rows a ↔
    HasOpen tenantId s.rows a ∨ a ∈ keys ∧ run.raiseFails a = false ∧ run.KeepsOpen a
  dismissed : dismissedAddresses tenantId s'.rows = dismissedAddresses tenantId s.rows
  failed : s'.failed = s.failed + keys.countP run.raiseFails
  told : s'.announced.length + s'.autoResolved + s.created.length =
    s.announced.length + s.autoResolved + s'.created.length

theorem Detected.nil (s : Detection) : Detected tenantId run [] s s where
  kept := fun _ hrow => hrow
  creates := fun _ hrow => .inl hrow
  created := by simp
  hasOpen := by simp
  dismissed := rfl
  failed := rfl
  told := rfl

theorem Detected.append (h : Detected tenantId run keys s s') (h' : Detected tenantId run keys' s' s'')
    (hdisjoint : ∀ a ∈ keys', a ∉ keys) : Detected tenantId run (keys ++ keys') s s'' := by
  have hopen : ∀ a ∈ keys', HasOpen tenantId s'.rows a ↔ HasOpen tenantId s.rows a := by
    intro a ha
    rw [h.hasOpen a]
    apply or_iff_left
    rintro ⟨hmem, -⟩
    exact hdisjoint a ha hmem
  constructor
  · intro row hrow
    exact h'.kept row (h.kept row hrow)
  · intro row hrow
    obtain hrow | ⟨a, ha, habout, hclosed, hfails⟩ := h'.creates row hrow
    · refine (h.creates row hrow).imp_right ?_
      rintro ⟨a, ha, hcreates⟩
      exact ⟨a, List.mem_append_left _ ha, hcreates⟩
    · rw [hopen a ha] at hclosed
      exact .inr ⟨a, List.mem_append_right _ ha, habout, hclosed, hfails⟩
  · intro a ha hclosed hfails
    obtain ha | ha := List.mem_append.mp ha
    · obtain ⟨row, hrow, habout⟩ := h.created a ha hclosed hfails
      exact ⟨row, h'.kept row hrow, habout⟩
    · rw [← hopen a ha] at hclosed
      exact h'.created a ha hclosed hfails
  · intro a
    rw [h'.hasOpen a, h.hasOpen a, List.mem_append]
    tauto
  · exact h'.dismissed.trans h.dismissed
  · rw [h'.failed, h.failed, List.countP_append]
    omega
  · have htold := h.told
    have htold' := h'.told
    omega

theorem hasOpen_append {row : DecisionRow} : HasOpen tenantId (rows ++ [row]) a ↔
    HasOpen tenantId rows a ∨ isAbout tenantId a row ∧ row.status = .pending := by
  simp only [HasOpen, List.mem_append, List.mem_singleton, or_and_right, exists_or, exists_eq_left, isOpenAbout_iff,
    isAbout, and_assoc]

theorem dismissedAddresses_append {row : DecisionRow} (h : row.status ≠ .dismissed) :
    dismissedAddresses tenantId (rows ++ [row]) = dismissedAddresses tenantId rows := by
  have hrow : ¬ (row.tenantId = tenantId ∧ row.status = .dismissed ∧ row.category = .newMailbox) :=
    fun hrow => h hrow.2.1
  rw [dismissedAddresses, List.filterMap_append, List.filterMap_cons, if_neg hrow]
  exact List.append_nil _

theorem detected_row {row row' : DecisionRow} (habout : isAbout tenantId a row) (habout' : isAbout tenantId a row')
    (hclosed : ¬ HasOpen tenantId s.rows a) (hfails : run.raiseFails a = false)
    (hstatus : row'.status = .pending ↔ run.KeepsOpen a) (hdismissed : row'.status ≠ .dismissed)
    (hrows : s'.rows = s.rows ++ [row']) (hcreated : s'.created = s.created ++ [row]) (hfailed : s'.failed = s.failed)
    (htold : s'.announced.length + s'.autoResolved = s.announced.length + s.autoResolved + 1) :
    Detected tenantId run [a] s s' := by
  constructor
  · intro other hother
    rw [hcreated]
    exact List.mem_append_left _ hother
  · intro other hother
    rw [hcreated, List.mem_append, List.mem_singleton] at hother
    refine hother.imp_right ?_
    rintro rfl
    exact ⟨a, List.mem_singleton_self a, habout, hclosed, hfails⟩
  · intro b hb _ _
    rw [List.mem_singleton.mp hb, hcreated]
    exact ⟨row, List.mem_append_right _ (List.mem_singleton_self row), habout⟩
  · intro b
    rw [hrows, hasOpen_append, hstatus, List.mem_singleton]
    apply or_congr_right
    constructor
    · rintro ⟨hb, hkeeps⟩
      obtain rfl := Option.some.inj (habout'.2.2.symm.trans hb.2.2)
      exact ⟨rfl, hfails, hkeeps⟩
    · rintro ⟨rfl, -, hkeeps⟩
      exact ⟨habout', hkeeps⟩
  · rw [hrows, dismissedAddresses_append hdismissed]
  · rw [hfailed, List.countP_singleton, hfails]
    rfl
  · rw [hcreated, List.length_append, List.length_singleton]
    omega

theorem detected_same (hsame : run.raiseFails a = true ∨ HasOpen tenantId s.rows a) (hrows : s'.rows = s.rows)
    (hcreated : s'.created = s.created) (hfailed : s'.failed = s.failed + [a].countP run.raiseFails)
    (htold : s'.announced.length + s'.autoResolved = s.announced.length + s.autoResolved) :
    Detected tenantId run [a] s s' := by
  constructor
  · intro row hrow
    rw [hcreated]
    exact hrow
  · intro row hrow
    rw [hcreated] at hrow
    exact .inl hrow
  · intro b hb hclosed hcalls
    rw [List.mem_singleton.mp hb] at hclosed hcalls
    obtain hfails | hopen := hsame
    · rw [hfails] at hcalls
      cases hcalls
    · exact absurd hopen hclosed
  · intro b
    rw [hrows, List.mem_singleton]
    refine ⟨.inl, ?_⟩
    rintro (hopen | ⟨rfl, hcalls, -⟩)
    · exact hopen
    · obtain hfails | hopen := hsame
      · rw [hfails] at hcalls
        cases hcalls
      · exact hopen
  · rw [hrows]
  · exact hfailed
  · rw [hcreated]
    omega

theorem detectOne_detected {decision : RaiseDecisionInput} (htenant : decision.tenantId = tenantId)
    (hcategory : decision.category = .newMailbox) (s : Detection) :
    Detected tenantId run [decision.subjectKey] s (detectOne tenantId run s decision) := by
  subst htenant
  have habout : ∀ id, isAbout decision.tenantId decision.subjectKey (decision.row id run.now) :=
    fun _ => ⟨rfl, hcategory, rfl⟩
  have hasOpen : HasOpen decision.tenantId s.rows decision.subjectKey ↔ ∃ row ∈ s.rows, decision.isOpen row = true := by
    rw [HasOpen, RaiseDecisionInput.isOpen, hcategory]
  rw [detectOne]
  by_cases hfails : run.raiseFails decision.subjectKey = true
  · rw [if_pos hfails]
    refine detected_same (.inl hfails) rfl rfl ?_ rfl
    rw [List.countP_singleton, if_pos hfails]
  rw [if_neg hfails]
  rw [Bool.not_eq_true] at hfails
  by_cases hopen : ∃ row ∈ s.rows, decision.isOpen row = true
  · obtain ⟨found, hraise⟩ := raise_open hopen run.now
    rw [hraise]
    refine detected_same (.inr (hasOpen.mpr hopen)) rfl rfl ?_ rfl
    rw [List.countP_singleton, hfails]
    rfl
  have hnew : ∀ row ∈ s.rows, decision.isOpen row = false := by simpa using hopen
  rw [raise_new hnew]
  rw [← hasOpen] at hopen
  dsimp only
  split
  · rename_i hauto
    have htold : s.announced.length + (s.autoResolved + 1) = s.announced.length + s.autoResolved + 1 := by omega
    split
    · rename_i hkept
      exact detected_row (habout _) (habout _) hopen hfails ⟨fun _ => .inr hkept, fun _ => rfl⟩ nofun rfl rfl rfl htold
    · rename_i hclosed
      generalize hclosing : autoResolve decision.tenantId (decision.row (freshId s.rows) run.now).id
        (presetFacts decision.subjectKey) = closing
      have hstatus : closing.status = .autoResolved := by rw [← hclosing]; rfl
      have hopened : closing.isOpen (decision.row (freshId s.rows) run.now) = true := by
        rw [← hclosing]
        exact Closing.isOpen_iff.mpr ⟨rfl, rfl, rfl⟩
      have hclose : (close (s.rows ++ [decision.row (freshId s.rows) run.now]) closing run.now).1 =
          s.rows ++ [closing.set run.now (decision.row (freshId s.rows) run.now)] :=
        close_newest rfl (by rw [← hclosing]; rfl) hopened run.now
      have hkeeps : ¬ run.KeepsOpen decision.subjectKey := by
        rw [Run.KeepsOpen, hauto]
        simp [hclosed]
      have hset : closing.status = .pending ↔ run.KeepsOpen decision.subjectKey :=
        ⟨fun hpending => absurd hpending closing.closes, fun hkept => absurd hkept hkeeps⟩
      have hdismissed : closing.status ≠ .dismissed := by
        rw [hstatus]
        decide
      exact detected_row (habout _) ⟨rfl, hcategory, rfl⟩ hopen hfails hset hdismissed hclose rfl rfl htold
  · rename_i hnotAuto
    have hask : run.presetAction.getD .ask = .ask := by
      cases hpreset : run.presetAction.getD .ask with
      | auto => exact absurd hpreset hnotAuto
      | ask => rfl
    refine detected_row (habout _) (habout _) hopen hfails ⟨fun _ => .inl hask, fun _ => rfl⟩ nofun rfl rfl rfl ?_
    simp only [List.length_append, List.length_singleton]
    omega

theorem detects_detected {decisions : List RaiseDecisionInput}
    (hshape : ∀ d ∈ decisions, ∃ raw, d = newMailbox tenantId raw)
    (hkeys : (decisions.map (·.subjectKey)).Nodup) (s : Detection) :
    Detected tenantId run (decisions.map (·.subjectKey)) s (decisions.foldl (detectOne tenantId run) s) := by
  induction decisions generalizing s with
  | nil => exact .nil s
  | cons decision rest ih =>
    obtain ⟨raw, rfl⟩ := hshape decision List.mem_cons_self
    rw [List.map_cons, List.nodup_cons] at hkeys
    have htenant : (newMailbox tenantId raw).tenantId = tenantId := rfl
    have hfirst : Detected tenantId run [(newMailbox tenantId raw).subjectKey] s
        (detectOne tenantId run s (newMailbox tenantId raw)) := detectOne_detected htenant rfl s
    apply hfirst.append (ih (fun d hd => hshape d (List.mem_cons_of_mem _ hd)) hkeys.2 _)
    rintro a ha hsame
    rw [List.mem_singleton.mp hsame] at ha
    exact hkeys.1 ha

theorem truthy_truthy (text : Option String) : truthy (truthy text) = truthy text := by
  rw [truthy, truthy, Option.filter_filter]
  simp only [Bool.and_self]

theorem detection_loop (tenantId : String) (run : Run) (rows : List DecisionRow) :
    ∃ decisions : List RaiseDecisionInput, (∀ d ∈ decisions, ∃ raw, d = newMailbox tenantId raw) ∧
      (decisions.map (·.subjectKey)).Nodup ∧
      (∀ a, a ∈ decisions.map (·.subjectKey) ↔ Uncovered tenantId rows run a) ∧
      runNewMailboxDetection tenantId run rows = decisions.foldl (detectOne tenantId run) { rows } := by
  have hblind : ∀ result : DetectResult, result.decisions = [] → (match truthy result.blindSpot with
      | some _ => { rows }
      | none => result.decisions.foldl (detectOne tenantId run) { rows } : Detection) = { rows } := by
    intro result hresult
    rw [hresult]
    split <;> rfl
  rw [runNewMailboxDetection, detectNewMailboxes]
  dsimp only
  rw [truthy_truthy]
  cases hlisting : run.listing with
  | notEnumerable reason =>
    refine ⟨[], by simp, List.nodup_nil, ?_, hblind _ rfl⟩
    intro a
    simp [Uncovered, hlisting]
  | listed addresses =>
    cases hincomplete : truthy run.coverageIncomplete with
    | some reason =>
      refine ⟨[], by simp, List.nodup_nil, ?_, hblind _ rfl⟩
      intro a
      simp [Uncovered, hincomplete]
    | none =>
      refine ⟨_, ?_, ?_, ?_, rfl⟩
      · intro d hd
        obtain ⟨raw, -, rfl⟩ := List.mem_map.mp hd
        exact ⟨raw, rfl⟩
      · rw [List.map_map]
        exact uncovered_nodup _ _ _ _
      · intro a
        rw [List.map_map]
        refine mem_uncovered.trans ?_
        simp [Uncovered, hlisting, hincomplete]

/-- What a run does: it creates one decision about each mailbox that has none open and whose raise does not fail. -/
structure Ran (tenantId : String) (run : Run) (rows : List DecisionRow) (s : Detection) : Prop where
  creates : ∀ row ∈ s.created, ∃ a, Uncovered tenantId rows run a ∧ isAbout tenantId a row ∧
    ¬ HasOpen tenantId rows a ∧ run.raiseFails a = false
  created : ∀ a, Uncovered tenantId rows run a → ¬ HasOpen tenantId rows a → run.raiseFails a = false →
    ∃ row ∈ s.created, isAbout tenantId a row
  hasOpen : ∀ a, HasOpen tenantId s.rows a ↔
    HasOpen tenantId rows a ∨ Uncovered tenantId rows run a ∧ run.raiseFails a = false ∧ run.KeepsOpen a
  dismissed : dismissedAddresses tenantId s.rows = dismissedAddresses tenantId rows
  failed : s.failed = 0 ↔ ∀ a, Uncovered tenantId rows run a → run.raiseFails a = false
  told : s.announced.length + s.autoResolved = s.created.length

theorem detection_ran (tenantId : String) (run : Run) (rows : List DecisionRow) :
    Ran tenantId run rows (runNewMailboxDetection tenantId run rows) := by
  obtain ⟨decisions, hshape, hnodup, hkeys, hrun⟩ := detection_loop tenantId run rows
  have h : Detected tenantId run (decisions.map (·.subjectKey)) { rows }
      (runNewMailboxDetection tenantId run rows) := by
    rw [hrun]
    exact detects_detected hshape hnodup _
  constructor
  · intro row hrow
    obtain hnone | ⟨a, ha, hcreates⟩ := h.creates row hrow
    · cases hnone
    · exact ⟨a, (hkeys a).mp ha, hcreates⟩
  · intro a ha
    exact h.created a ((hkeys a).mpr ha)
  · intro a
    rw [h.hasOpen a, hkeys a]
  · exact h.dismissed
  · rw [h.failed, Nat.zero_add, List.countP_eq_zero]
    constructor
    · intro hfails a ha
      simpa using hfails a ((hkeys a).mpr ha)
    · intro hfails a ha
      simp [hfails a ((hkeys a).mp ha)]
  · have htold := h.told
    simpa using htold

theorem Run.Again.uncovered {run' : Run} (h : run.Again run') {rows' : List DecisionRow}
    (hdismissed : dismissedAddresses tenantId rows' = dismissedAddresses tenantId rows) :
    Uncovered tenantId rows' run' a ↔ Uncovered tenantId rows run a := by
  rw [Uncovered, Uncovered, h.listing, h.covered, h.coverageIncomplete, hdismissed]

theorem norm_norm (address : String) : norm (norm address) = norm address := by
  rw [norm, norm, String.toList_ofList, trim_lower, lower_lower, trim_trim]

theorem dismissed_not_uncovered {row : DecisionRow} (hrow : row ∈ rows) (habout : isAbout tenantId a row)
    (hstatus : row.status = .dismissed) : ¬ Uncovered tenantId rows run a := by
  rintro ⟨addresses, -, -, hlisted, hne, -, hdismissed⟩
  apply hdismissed
  obtain ⟨raw, -, rfl⟩ := List.mem_map.mp hlisted
  obtain ⟨htenant, hcategory, hsubject⟩ := habout
  refine List.mem_map.mpr ⟨norm raw, List.mem_filterMap.mpr ⟨row, hrow, ?_⟩, norm_norm raw⟩
  rw [if_pos ⟨htenant, hstatus, hcategory⟩, hsubject, truthy]
  simp [hne]

end Run

section Main

variable {tenantId : String} {rows : List DecisionRow} {run : Run}

/-- A run asks once, and the next one has nothing to do, exactly when what it creates is the first decision about its
mailbox and stays open. -/
theorem detection_asks_once_iff (tenantId : String) (rows : List DecisionRow) (run : Run) :
    AsksOnce tenantId rows run ↔ StaysAsked tenantId rows run := by
  have hran := detection_ran tenantId run rows
  constructor
  · intro h a ha hclosed hfails
    constructor
    · intro row hrow habout
      obtain ⟨row', hrow', habout'⟩ := hran.created a ha hclosed hfails
      have hpending := h.answered row' hrow' a habout' row hrow habout
      exact hclosed ⟨row, hrow, isOpenAbout_iff.mpr ⟨habout.1, habout.2.1, habout.2.2, hpending⟩⟩
    · intro hnone
      -- a second run in which no call fails
      let again : Run := { run with raiseFails := fun _ => false }
      obtain ⟨hcreated, -⟩ := h.settled (hran.failed.mpr hnone) again ⟨rfl, rfl, rfl, rfl⟩
      have hran' := detection_ran tenantId again (runNewMailboxDetection tenantId run rows).rows
      by_contra hkeeps
      have hclosed' : ¬ HasOpen tenantId (runNewMailboxDetection tenantId run rows).rows a := by
        rw [hran.hasOpen a]
        rintro (hopen | ⟨-, -, hkept⟩)
        · exact hclosed hopen
        · exact hkeeps hkept
      have huncovered : Run.Again run again := ⟨rfl, rfl, rfl, rfl⟩
      obtain ⟨row, hrow, -⟩ := hran'.created a ((huncovered.uncovered hran.dismissed).mpr ha) hclosed' rfl
      rw [hcreated] at hrow
      cases hrow
  · intro h
    constructor
    · intro row hrow a habout row' hrow' habout'
      obtain ⟨b, hb, hrowAbout, hclosed, hfails⟩ := hran.creates row hrow
      obtain rfl := Option.some.inj (habout.2.2.symm.trans hrowAbout.2.2)
      exact absurd habout' ((h a hb hclosed hfails).1 row' hrow')
    · intro hfailed run' hagain
      have hran' := detection_ran tenantId run' (runNewMailboxDetection tenantId run rows).rows
      have hnone := hran.failed.mp hfailed
      have hcreated :
          (runNewMailboxDetection tenantId run' (runNewMailboxDetection tenantId run rows).rows).created = [] := by
        apply List.eq_nil_iff_forall_not_mem.mpr
        intro row hrow
        obtain ⟨a, ha, -, hclosed', -⟩ := hran'.creates row hrow
        rw [hagain.uncovered hran.dismissed] at ha
        rw [hran.hasOpen a, not_or] at hclosed'
        obtain ⟨hclosed, hnotKept⟩ := hclosed'
        exact hnotKept ⟨ha, hnone a ha, (h a ha hclosed (hnone a ha)).2 hnone⟩
      have htold := hran'.told
      rw [hcreated, List.length_nil] at htold
      refine ⟨hcreated, ?_, ?_⟩
      · apply List.eq_nil_of_length_eq_zero
        omega
      · omega

/-- A standing rule closes what the first run has created, and the second run creates it again. -/
theorem detection_asks_again :
    ¬ ∀ (tenantId : String) (rows : List DecisionRow) (run : Run), AsksOnce tenantId rows run := by
  intro h
  have honce := h "t" [] {
    listing := .listed ["a"], covered := [], coverageIncomplete := none, presetAction := some .auto, now := 0 }
  have hcreated := (honce.settled (by decide +kernel) _ ⟨rfl, rfl, rfl, rfl⟩).1
  revert hcreated
  decide +kernel

end Main

end OpenMigrate.Decisions
