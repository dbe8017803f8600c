import OpenMigrate.Decisions.Detection

namespace OpenMigrate.Decisions

section Source

inductive GroupStore where
  | hasStore
  | noStore
  | unknown

inductive SharedAddressPattern where
  | sharedS
  | distributionD
  deriving DecidableEq

structure DiscoveredGroup where
  id : String
  address : String
  displayName : Option String := none
  store : GroupStore
  members : DirectoryListing

inductive GroupListing where
  | listed (groups : List DiscoveredGroup)
  | notEnumerable (reason : String)

structure SharedAddressClassification where
  pattern : Option SharedAddressPattern := none
  reason : String

def classifyStoreSignal : GroupStore → SharedAddressClassification
  | .hasStore =>
    { pattern := some .sharedS
      reason := "it has its own message store, so there is a folder tree to copy " ++
        "(§14.1: an M365 group with a store is Pattern S)" }
  | .noStore =>
    { pattern := some .distributionD
      reason := "it has no message store — mail sent to it is delivered into the " ++
        "members’ own mailboxes, so what migrates is the group definition " ++
        "and its member list (§14.1 Pattern D)" }
  | .unknown =>
    { reason := "the source did not say whether this address has its own message " ++
        "store, and the two answers migrate differently: guessing a " ++
        "distribution list would silently leave a mailbox full of mail " ++
        "behind, and guessing a shared mailbox would recreate no group, so " ++
        "mail sent to the address after cutover would reach nobody" }

def classifySharedAddress (group : DiscoveredGroup) : SharedAddressClassification := classifyStoreSignal group.store

def membersUsable (group : DiscoveredGroup) : Bool :=
  match group.members with
  | .listed _ => true
  | .notEnumerable _ => false

/-- The owner's answer, read out of a resolution. -/
def sharedAddressAnswer (resolution : Facts) : Option SharedAddressPattern :=
  match resolution.lookup "pattern" with
  | some (.text value) =>
    if value = "shared_s" then some .sharedS
    else if value = "distribution_d" then some .distributionD
    else none
  | _ => none

def sharedAddressQuestion (group : DiscoveredGroup) : String :=
  let name :=
    match truthy group.displayName with
    | some displayName => s!"{displayName} ({group.address})"
    | none => group.address
  s!"Do recipients jointly handle one shared mailbox at {name}, or should it " ++
    "work as a distribution list where each recipient receives the mail? " ++
    s!"We could not tell from the source: {(classifySharedAddress group).reason}."

inductive GroupStatus where
  | pending
  | created
  | error
  deriving DecidableEq

structure GroupDefRow where
  id : ℕ
  tenantId : String
  sourceConnectionId : String
  address : String
  sourceGroupId : Option String
  displayName : Option String
  pattern : Option SharedAddressPattern
  members : List String
  membersKnown : Bool
  targetGroupRef : Option String := none
  status : GroupStatus := .pending
  deriving DecidableEq

structure RecordGroupInput where
  sourceConnectionId : String
  address : String
  sourceGroupId : Option String := none
  displayName : Option String := none
  pattern : Option SharedAddressPattern := none
  members : List String
  membersKnown : Option Bool := none

/-- The columns of the unique index. -/
def GroupDefRow.isAt (tenantId sourceConnectionId address : String) (row : GroupDefRow) : Bool :=
  row.tenantId == tenantId && row.sourceConnectionId == sourceConnectionId && row.address == address

def freshGroupId (rows : List GroupDefRow) : ℕ := (rows.map (·.id)).foldr max 0 + 1

def RecordGroupInput.row (input : RecordGroupInput) (tenantId : String) (id : ℕ) : GroupDefRow where
  id := id
  tenantId := tenantId
  sourceConnectionId := input.sourceConnectionId
  address := norm input.address
  sourceGroupId := input.sourceGroupId
  displayName := input.displayName
  pattern := input.pattern
  members := input.members
  membersKnown := input.membersKnown.getD true

def RecordGroupInput.refresh (input : RecordGroupInput) (row : GroupDefRow) : GroupDefRow :=
  { row with
    sourceGroupId := input.sourceGroupId
    displayName := input.displayName
    pattern := input.pattern
    members := input.members
    membersKnown := input.membersKnown.getD true }

/-- INSERT … ON CONFLICT DO NOTHING RETURNING. -/
def insertGroup (rows : List GroupDefRow) (tenantId : String) (input : RecordGroupInput) : List GroupDefRow × Bool :=
  if rows.any (GroupDefRow.isAt tenantId input.sourceConnectionId (norm input.address)) then (rows, false)
  else (rows ++ [input.row tenantId (freshGroupId rows)], true)

/-- The store's `upsert`, with what it returns of whether the row was created. -/
def upsert (rows : List GroupDefRow) (tenantId : String) (input : RecordGroupInput) :
    List GroupDefRow × Except String Bool :=
  match insertGroup rows tenantId input with
  | (rows', true) => (rows', .ok true)
  | (rows', false) =>
    if rows'.any (GroupDefRow.isAt tenantId input.sourceConnectionId (norm input.address)) then
      (rows'.map fun row =>
        if row.isAt tenantId input.sourceConnectionId (norm input.address) then input.refresh row else row, .ok false)
    else (rows', .error s!"group_def upsert for {norm input.address} matched no row")

/-- Every row of the tenant with the address, over all of its sources, and their number. -/
def setPattern (rows : List GroupDefRow) (tenantId address : String) (pattern : SharedAddressPattern) :
    List GroupDefRow × ℕ :=
  (rows.map fun row =>
      if row.tenantId = tenantId ∧ row.address = norm address then { row with pattern := some pattern } else row,
    rows.countP fun row => row.tenantId = tenantId ∧ row.address = norm address)

/-- A pass over one source: what it lists, and which of the calls about its groups, by their place in the list, fail. -/
structure Pass where
  tenantId : String
  sourceConnectionId : String
  listing : GroupListing
  now : Instant
  recordFails : ℕ → Bool := fun _ => false
  raiseFails : ℕ → Bool := fun _ => false

def Pass.record (pass : Pass) (group : DiscoveredGroup) : RecordGroupInput where
  sourceConnectionId := pass.sourceConnectionId
  address := group.address
  sourceGroupId := truthy (some group.id)
  displayName := truthy group.displayName
  pattern := (classifySharedAddress group).pattern
  members :=
    match group.members with
    | .listed addresses => addresses
    | .notEnumerable _ => []
  membersKnown := some (membersUsable group)

def Pass.question (pass : Pass) (group : DiscoveredGroup) : RaiseDecisionInput where
  tenantId := pass.tenantId
  category := .sharedAddressPattern
  subjectKey := group.address
  summary := sharedAddressQuestion group
  detail := some ([("address", Value.text group.address)] ++
    (truthy group.displayName).toList.map (fun displayName => ("displayName", Value.text displayName)) ++
    (truthy (some group.id)).toList.map (fun id => ("sourceGroupId", Value.text id)) ++
    [("sourceConnectionId", Value.text pass.sourceConnectionId)])

/-- Both tables, and the summary of a pass. -/
structure GroupDiscovery where
  groups : List GroupDefRow
  decisions : List DecisionRow
  discovered : ℕ := 0
  known : ℕ := 0
  unclassified : ℕ := 0
  asked : ℕ := 0
  alreadyAsked : ℕ := 0
  membersUnknown : ℕ := 0
  failed : ℕ := 0
  blindSpot : Option String := none

/-- What the loop counts once the write has succeeded. -/
def GroupDiscovery.count (s : GroupDiscovery) (group : DiscoveredGroup) (created : Bool) : GroupDiscovery :=
  { s with
    discovered := s.discovered + created.toNat
    known := s.known + (!created).toNat
    unclassified := s.unclassified + (classifySharedAddress group).pattern.isNone.toNat
    membersUnknown := s.membersUnknown + (!membersUsable group).toNat }

/-- The question about a group that was recorded. -/
def GroupDiscovery.ask (s : GroupDiscovery) (pass : Pass) (group : DiscoveredGroup) (i : ℕ) : GroupDiscovery :=
  if (classifySharedAddress group).pattern.isSome then s
  else if pass.raiseFails i then s
  else
    match raise s.decisions (pass.question group) pass.now with
    | (decisions, .error _) => { s with decisions }
    | (decisions, .ok (_, false)) => { s with decisions, alreadyAsked := s.alreadyAsked + 1 }
    | (decisions, .ok (_, true)) => { s with decisions, asked := s.asked + 1 }

/-- The body of the loop. -/
def discoverOne (pass : Pass) (s : GroupDiscovery) (found : DiscoveredGroup × ℕ) : GroupDiscovery :=
  if pass.recordFails found.2 then { s with failed := s.failed + 1 }
  else
    match upsert s.groups pass.tenantId (pass.record found.1) with
    | (groups, .error _) => { s with groups, failed := s.failed + 1 }
    | (groups, .ok created) => (({ s with groups }).count found.1 created).ask pass found.1 found.2

def runGroupDiscovery (pass : Pass) (groups : List GroupDefRow) (decisions : List DecisionRow) : GroupDiscovery :=
  match pass.listing with
  | .notEnumerable reason => { groups, decisions, blindSpot := some reason }
  | .listed found => found.zipIdx.foldl (discoverOne pass) { groups, decisions }

structure Ledger where
  groups : List GroupDefRow
  decisions : List DecisionRow

/-- A request to the resolve route. -/
structure Answer where
  tenantId : String
  decisionId : ℕ
  resolution : Facts
  userId : String
  now : Instant

def Answer.closing (answer : Answer) : Closing :=
  resolve answer.tenantId answer.decisionId answer.resolution answer.userId

/-- The address and the pattern that the route writes, of a decision that it has resolved. -/
def Answer.given (answer : Answer) (s : Ledger) : Option (String × SharedAddressPattern) :=
  match (close s.decisions answer.closing answer.now).2 with
  | some row =>
    if row.category = .sharedAddressPattern then
      match truthy row.subjectKey, sharedAddressAnswer answer.resolution with
      | some subjectKey, some pattern => some (subjectKey, pattern)
      | _, _ => none
    else none
  | none => none

inductive Event where
  | pass (pass : Pass)
  | answer (answer : Answer)

def next (s : Ledger) : Event → Ledger
  | .pass pass =>
    { groups := (runGroupDiscovery pass s.groups s.decisions).groups
      decisions := (runGroupDiscovery pass s.groups s.decisions).decisions }
  | .answer answer =>
    { groups :=
        match answer.given s with
        | some (address, pattern) => (setPattern s.groups answer.tenantId address pattern).1
        | none => s.groups
      decisions := (close s.decisions answer.closing answer.now).1 }

end Source

section Survives

def Pass.groups (pass : Pass) : List DiscoveredGroup :=
  match pass.listing with
  | .listed groups => groups
  | .notEnumerable _ => []

/-- The groups that the pass writes. -/
def Pass.recorded (pass : Pass) : List DiscoveredGroup :=
  (pass.groups.zipIdx.filter fun found => !pass.recordFails found.2).map Prod.fst

def Pass.classifies (pass : Pass) (address : String) : Bool :=
  pass.groups.any fun group => norm group.address == address && (classifySharedAddress group).pattern.isSome

def Pass.records (pass : Pass) (address : String) : Bool :=
  pass.recorded.any fun group => norm group.address == address

def Pass.isOf (pass : Pass) (tenantId sourceConnectionId : String) : Bool :=
  pass.tenantId == tenantId && pass.sourceConnectionId == sourceConnectionId

/-- What an event makes of the owner's answer about an address: it stands until the owner gives another or the source
classifies the address. -/
def stands (tenantId sourceConnectionId address : String) (s : Ledger) (pattern : Option SharedAddressPattern) :
    Event → Option SharedAddressPattern
  | .pass pass => if pass.isOf tenantId sourceConnectionId && pass.classifies address then none else pattern
  | .answer answer =>
    match answer.given s with
    | some (subjectKey, given) => if answer.tenantId = tenantId ∧ norm subjectKey = address then some given else pattern
    | none => pattern

def standing (tenantId sourceConnectionId address : String) :
    Ledger → Option SharedAddressPattern → List Event → Option SharedAddressPattern
  | _, pattern, [] => pattern
  | s, pattern, event :: events =>
    standing tenantId sourceConnectionId address (next s event)
      (stands tenantId sourceConnectionId address s pattern event) events

/-- The rows about the address all hold the pattern. -/
def Holds (tenantId sourceConnectionId address : String) (pattern : SharedAddressPattern) (rows : List GroupDefRow) :
    Prop :=
  ∀ row ∈ rows, row.isAt tenantId sourceConnectionId address = true → row.pattern = some pattern

instance (tenantId sourceConnectionId address : String) (pattern : SharedAddressPattern) (rows : List GroupDefRow) :
    Decidable (Holds tenantId sourceConnectionId address pattern rows) :=
  inferInstanceAs (Decidable (∀ row ∈ rows, _ → _))

/-- No question about the address is new. -/
def AsksNothing (tenantId address : String) (before after : List DecisionRow) : Prop :=
  ∀ row ∈ after, row.tenantId = tenantId → row.category = .sharedAddressPattern →
    row.subjectKey.map norm = some address → row ∈ before

/-- After each pass of the run, an answer that stands is what is stored, and the pass of a source that still does not
classify the address asks nothing about it. -/
def AnswersSurvive (s : Ledger) (events : List Event) : Prop :=
  ∀ (before after : List Event) (pass : Pass), events = before ++ .pass pass :: after →
    ∀ tenantId sourceConnectionId address pattern,
    standing tenantId sourceConnectionId address s none (before ++ [Event.pass pass]) = some pattern →
      Holds tenantId sourceConnectionId address pattern ((before ++ [Event.pass pass]).foldl next s).groups ∧
      (pass.isOf tenantId sourceConnectionId = true →
        AsksNothing tenantId address (before.foldl next s).decisions
          ((before ++ [Event.pass pass]).foldl next s).decisions)

/-- No pass of a source that still does not classify an address with an answer records a group of that address. -/
def NotRecorded (s : Ledger) (events : List Event) : Prop :=
  ∀ (before after : List Event) (pass : Pass), events = before ++ .pass pass :: after →
    ∀ tenantId sourceConnectionId address pattern,
    standing tenantId sourceConnectionId address s none (before ++ [Event.pass pass]) = some pattern →
      pass.isOf tenantId sourceConnectionId = true → pass.records address = false

end Survives

section Rows

variable {rows : List GroupDefRow} {row : GroupDefRow} {tenantId sourceConnectionId address : String}
  {input : RecordGroupInput}

theorem GroupDefRow.isAt_iff : row.isAt tenantId sourceConnectionId address = true ↔
    row.tenantId = tenantId ∧ row.sourceConnectionId = sourceConnectionId ∧ row.address = address := by
  simp [GroupDefRow.isAt, and_assoc]

theorem upsert_cases (rows : List GroupDefRow) (tenantId : String) (input : RecordGroupInput) :
    (upsert rows tenantId input = (rows ++ [input.row tenantId (freshGroupId rows)], .ok true)) ∨
      (∃ row ∈ rows, row.isAt tenantId input.sourceConnectionId (norm input.address) = true) ∧
        upsert rows tenantId input =
          (rows.map fun row =>
              if row.isAt tenantId input.sourceConnectionId (norm input.address) then input.refresh row else row,
            .ok false) := by
  rw [upsert, insertGroup]
  by_cases hkey : rows.any (GroupDefRow.isAt tenantId input.sourceConnectionId (norm input.address)) = true
  · right
    rw [if_pos hkey]
    exact ⟨List.any_eq_true.mp hkey, if_pos hkey⟩
  · left
    rw [if_neg hkey]

theorem RecordGroupInput.row_isAt (input : RecordGroupInput) (tenantId : String) (id : ℕ) :
    (input.row tenantId id).isAt tenantId input.sourceConnectionId (norm input.address) = true :=
  GroupDefRow.isAt_iff.mpr ⟨rfl, rfl, rfl⟩

theorem RecordGroupInput.refresh_isAt (input : RecordGroupInput) (row : GroupDefRow) :
    (input.refresh row).isAt tenantId sourceConnectionId address = row.isAt tenantId sourceConnectionId address := rfl

theorem upsert_other (hrow : row ∈ (upsert rows tenantId input).1)
    (hother : row.isAt tenantId input.sourceConnectionId (norm input.address) = false) : row ∈ rows := by
  obtain hnew | ⟨-, hknown⟩ := upsert_cases rows tenantId input
  · rw [hnew, List.mem_append, List.mem_singleton] at hrow
    obtain hrow | rfl := hrow
    · exact hrow
    · rw [input.row_isAt] at hother
      cases hother
  · rw [hknown] at hrow
    obtain ⟨before, hbefore, rfl⟩ := List.mem_map.mp hrow
    split at hother
    · rename_i hkey
      rw [input.refresh_isAt, hkey] at hother
      cases hother
    · rename_i hkey
      rw [if_neg hkey]
      exact hbefore

/-- A row with the written pattern stands under the key. -/
theorem upsert_written (rows : List GroupDefRow) (tenantId : String) (input : RecordGroupInput) :
    ∃ row ∈ (upsert rows tenantId input).1,
      row.isAt tenantId input.sourceConnectionId (norm input.address) = true ∧ row.pattern = input.pattern := by
  obtain hnew | ⟨⟨row, hrow, hkey⟩, hknown⟩ := upsert_cases rows tenantId input
  · rw [hnew]
    exact ⟨_, List.mem_append_right _ (List.mem_singleton_self _), input.row_isAt tenantId _, rfl⟩
  · rw [hknown]
    refine ⟨input.refresh row, List.mem_map.mpr ⟨row, hrow, if_pos hkey⟩, ?_, rfl⟩
    rw [input.refresh_isAt]
    exact hkey

theorem upsert_keeps (hrow : row ∈ rows)
    (hother : row.isAt tenantId input.sourceConnectionId (norm input.address) = false) :
    row ∈ (upsert rows tenantId input).1 := by
  obtain hnew | ⟨-, hknown⟩ := upsert_cases rows tenantId input
  · rw [hnew]
    exact List.mem_append_left _ hrow
  · rw [hknown]
    refine List.mem_map.mpr ⟨row, hrow, ?_⟩
    rw [hother]
    rfl

theorem setPattern_holds (rows : List GroupDefRow) (tenantId sourceConnectionId subjectKey : String)
    (pattern : SharedAddressPattern) :
    Holds tenantId sourceConnectionId (norm subjectKey) pattern (setPattern rows tenantId subjectKey pattern).1 := by
  intro row hrow hkey
  obtain ⟨before, -, rfl⟩ := List.mem_map.mp hrow
  split at hkey
  · rename_i hset
    rw [if_pos hset]
  · rename_i hset
    obtain ⟨htenant, -, haddress⟩ := GroupDefRow.isAt_iff.mp hkey
    exact absurd ⟨htenant, haddress⟩ hset

theorem setPattern_other {subjectKey : String} {pattern given : SharedAddressPattern}
    (h : Holds tenantId sourceConnectionId address pattern rows) {tenantId' : String}
    (hother : ¬ (tenantId' = tenantId ∧ norm subjectKey = address)) :
    Holds tenantId sourceConnectionId address pattern (setPattern rows tenantId' subjectKey given).1 := by
  intro row hrow hkey
  obtain ⟨before, hbefore, rfl⟩ := List.mem_map.mp hrow
  split at hkey
  · rename_i hset
    obtain ⟨htenant, -, haddress⟩ := GroupDefRow.isAt_iff.mp hkey
    exact absurd ⟨hset.1.symm.trans htenant, hset.2.symm.trans haddress⟩ hother
  · rename_i hset
    rw [if_neg hset]
    exact h before hbefore hkey

end Rows

section Loop

variable {pass : Pass} {s : GroupDiscovery}

/-- What the pass writes of a group. -/
def Pass.write (pass : Pass) (rows : List GroupDefRow) (group : DiscoveredGroup) : List GroupDefRow :=
  (upsert rows pass.tenantId (pass.record group)).1

theorem ask_groups (s : GroupDiscovery) (pass : Pass) (group : DiscoveredGroup) (i : ℕ) :
    (s.ask pass group i).groups = s.groups := by
  rw [GroupDiscovery.ask]
  split
  · rfl
  · split
    · rfl
    · split <;> rfl

theorem discoverOne_groups (pass : Pass) (s : GroupDiscovery) (found : DiscoveredGroup × ℕ) :
    (discoverOne pass s found).groups = if pass.recordFails found.2 then s.groups else pass.write s.groups found.1 := by
  rw [discoverOne, Pass.write]
  split
  · rfl
  · obtain hnew | ⟨-, hknown⟩ := upsert_cases s.groups pass.tenantId (pass.record found.1)
    · rw [hnew]
      exact ask_groups _ _ _ _
    · rw [hknown]
      exact ask_groups _ _ _ _

theorem discovers_groups (pass : Pass) (found : List (DiscoveredGroup × ℕ)) (s : GroupDiscovery) :
    (found.foldl (discoverOne pass) s).groups =
      ((found.filter fun found => !pass.recordFails found.2).map Prod.fst).foldl pass.write s.groups := by
  induction found generalizing s with
  | nil => rfl
  | cons first rest ih =>
    rw [List.foldl_cons, ih, discoverOne_groups, List.filter_cons]
    by_cases hfails : pass.recordFails first.2 = true
    · rw [if_pos hfails, hfails]
      rfl
    · rw [if_neg hfails, if_pos (by simpa using hfails)]
      rfl

/-- A pass writes the groups whose record does not fail, one after another. -/
theorem runGroupDiscovery_groups (pass : Pass) (groups : List GroupDefRow) (decisions : List DecisionRow) :
    (runGroupDiscovery pass groups decisions).groups = pass.recorded.foldl pass.write groups := by
  rw [runGroupDiscovery, Pass.recorded, Pass.groups]
  cases pass.listing with
  | notEnumerable reason => rfl
  | listed found => exact discovers_groups pass found.zipIdx _

theorem mem_raise {rows : List DecisionRow} {input : RaiseDecisionInput} {now : Instant} {row : DecisionRow}
    (h : row ∈ (raise rows input now).1) : row ∈ rows ∨ row.subjectKey = some input.subjectKey := by
  by_cases hopen : ∃ row ∈ rows, input.isOpen row = true
  · obtain ⟨found, hraise⟩ := raise_open hopen now
    rw [hraise] at h
    exact .inl h
  · have hnew : ∀ row ∈ rows, input.isOpen row = false := by simpa using hopen
    rw [raise_new hnew, List.mem_append, List.mem_singleton] at h
    refine h.imp_right ?_
    rintro rfl
    rfl

theorem mem_ask {group : DiscoveredGroup} {i : ℕ} {row : DecisionRow} (h : row ∈ (s.ask pass group i).decisions) :
    row ∈ s.decisions ∨ row.subjectKey = some group.address := by
  rw [GroupDiscovery.ask] at h
  split at h
  · exact .inl h
  · split at h
    · exact .inl h
    · have hraise : row ∈ (raise s.decisions (pass.question group) pass.now).1 → _ := mem_raise
      split at h
      all_goals
        rename_i hreply
        rw [hreply] at hraise
        exact hraise h

theorem mem_discoverOne {found : DiscoveredGroup × ℕ} {row : DecisionRow}
    (h : row ∈ (discoverOne pass s found).decisions) :
    row ∈ s.decisions ∨ pass.recordFails found.2 = false ∧ row.subjectKey = some found.1.address := by
  rw [discoverOne] at h
  split at h
  · exact .inl h
  · rename_i hfails
    rw [Bool.not_eq_true] at hfails
    obtain hnew | ⟨-, hknown⟩ := upsert_cases s.groups pass.tenantId (pass.record found.1)
    · rw [hnew] at h
      exact (mem_ask h).imp_right fun hsubject => ⟨hfails, hsubject⟩
    · rw [hknown] at h
      exact (mem_ask h).imp_right fun hsubject => ⟨hfails, hsubject⟩

theorem mem_discovers {found : List (DiscoveredGroup × ℕ)} {row : DecisionRow}
    (h : row ∈ (found.foldl (discoverOne pass) s).decisions) : row ∈ s.decisions ∨
      ∃ group ∈ (found.filter fun found => !pass.recordFails found.2).map Prod.fst,
        row.subjectKey = some group.address := by
  induction found generalizing s with
  | nil => exact .inl h
  | cons first rest ih =>
    obtain hrow | ⟨group, hgroup, hsubject⟩ := ih h
    · refine (mem_discoverOne hrow).imp_right ?_
      rintro ⟨hfails, hsubject⟩
      have hrecorded : first ∈ (first :: rest).filter fun found => !pass.recordFails found.2 :=
        List.mem_filter.mpr ⟨List.mem_cons_self, by simp [hfails]⟩
      exact ⟨first.1, List.mem_map.mpr ⟨first, hrecorded, rfl⟩, hsubject⟩
    · right
      refine ⟨group, ?_, hsubject⟩
      obtain ⟨other, hother, rfl⟩ := List.mem_map.mp hgroup
      obtain ⟨hmem, hrecorded⟩ := List.mem_filter.mp hother
      exact List.mem_map.mpr ⟨other, List.mem_filter.mpr ⟨List.mem_cons_of_mem _ hmem, hrecorded⟩, rfl⟩

theorem mem_runGroupDiscovery {groups : List GroupDefRow} {decisions : List DecisionRow} {row : DecisionRow}
    (h : row ∈ (runGroupDiscovery pass groups decisions).decisions) :
    row ∈ decisions ∨ ∃ group ∈ pass.recorded, row.subjectKey = some group.address := by
  rw [runGroupDiscovery] at h
  rw [Pass.recorded, Pass.groups]
  cases hlisting : pass.listing with
  | notEnumerable reason =>
    rw [hlisting] at h
    exact .inl h
  | listed found =>
    rw [hlisting] at h
    exact mem_discovers h

end Loop

section Pass

variable {pass : Pass} {rows : List GroupDefRow} {tenantId sourceConnectionId address : String}
  {pattern : SharedAddressPattern} {groups : List DiscoveredGroup}

theorem write_holds (h : Holds tenantId sourceConnectionId address pattern rows) {group : DiscoveredGroup}
    (hother : pass.isOf tenantId sourceConnectionId = true → (norm group.address == address) = false) :
    Holds tenantId sourceConnectionId address pattern (pass.write rows group) := by
  intro row hrow hkey
  refine h row (upsert_other hrow ?_) hkey
  obtain ⟨htenant, hsource, haddress⟩ := GroupDefRow.isAt_iff.mp hkey
  by_contra hsame
  rw [Bool.not_eq_false] at hsame
  obtain ⟨htenant', hsource', haddress'⟩ := GroupDefRow.isAt_iff.mp hsame
  have hof : pass.isOf tenantId sourceConnectionId = true := by
    rw [Pass.isOf, ← htenant, ← hsource, htenant', hsource']
    simp [Pass.record]
  have hne := hother hof
  rw [← haddress, haddress'] at hne
  simp [Pass.record] at hne

theorem writes_hold (h : Holds tenantId sourceConnectionId address pattern rows)
    (hother : pass.isOf tenantId sourceConnectionId = true →
      (groups.any fun group => norm group.address == address) = false) :
    Holds tenantId sourceConnectionId address pattern (groups.foldl pass.write rows) := by
  induction groups generalizing rows with
  | nil => exact h
  | cons first rest ih =>
    rw [List.foldl_cons]
    refine ih (write_holds h fun hof => ?_) fun hof => ?_
    · have hnone := hother hof
      rw [List.any_cons, Bool.or_eq_false_iff] at hnone
      exact hnone.1
    · have hnone := hother hof
      rw [List.any_cons, Bool.or_eq_false_iff] at hnone
      exact hnone.2

theorem runGroupDiscovery_holds (h : Holds tenantId sourceConnectionId address pattern rows)
    (hother : pass.isOf tenantId sourceConnectionId = true → pass.records address = false)
    (decisions : List DecisionRow) :
    Holds tenantId sourceConnectionId address pattern (runGroupDiscovery pass rows decisions).groups := by
  rw [runGroupDiscovery_groups]
  exact writes_hold h hother

theorem runGroupDiscovery_asksNothing (hother : pass.records address = false) (rows : List GroupDefRow)
    (decisions : List DecisionRow) :
    AsksNothing pass.tenantId address decisions (runGroupDiscovery pass rows decisions).decisions := by
  intro row hrow _ _ hsubject
  obtain hold | ⟨group, hgroup, hkey⟩ := mem_runGroupDiscovery hrow
  · exact hold
  · rw [hkey, Option.map_some, Option.some.injEq] at hsubject
    have hrecorded : pass.records address = true := List.any_eq_true.mpr ⟨group, hgroup, by simp [hsubject]⟩
    rw [hrecorded] at hother
    cases hother

/-- No pattern is stored in some row about the address. -/
def Lost (tenantId sourceConnectionId address : String) (rows : List GroupDefRow) : Prop :=
  ∃ row ∈ rows, row.isAt tenantId sourceConnectionId address = true ∧ row.pattern = none

theorem write_lost (h : Lost pass.tenantId pass.sourceConnectionId address rows) {group : DiscoveredGroup}
    (hclassifies : (norm group.address == address && (classifySharedAddress group).pattern.isSome) = false) :
    Lost pass.tenantId pass.sourceConnectionId address (pass.write rows group) := by
  by_cases hsame : norm group.address = address
  · obtain ⟨row, hrow, hkey, hpattern⟩ := upsert_written rows pass.tenantId (pass.record group)
    have hnone : (classifySharedAddress group).pattern = none := by simpa [hsame] using hclassifies
    refine ⟨row, hrow, ?_, hpattern.trans hnone⟩
    rw [← hsame]
    exact hkey
  · obtain ⟨row, hrow, hkey, hpattern⟩ := h
    refine ⟨row, upsert_keeps hrow ?_, hkey, hpattern⟩
    obtain ⟨-, -, haddress⟩ := GroupDefRow.isAt_iff.mp hkey
    rw [Bool.eq_false_iff, Ne, GroupDefRow.isAt_iff]
    rintro ⟨-, -, haddress'⟩
    exact hsame (haddress'.symm.trans haddress)

theorem writes_lost (hclassifies : (groups.any fun group =>
      norm group.address == address && (classifySharedAddress group).pattern.isSome) = false)
    (h : Lost pass.tenantId pass.sourceConnectionId address rows ∨
      (groups.any fun group => norm group.address == address) = true) :
    Lost pass.tenantId pass.sourceConnectionId address (groups.foldl pass.write rows) := by
  induction groups generalizing rows with
  | nil => exact h.resolve_right (by simp)
  | cons first rest ih =>
    rw [List.any_cons, Bool.or_eq_false_iff] at hclassifies
    apply ih hclassifies.2
    obtain hlost | hany := h
    · exact .inl (write_lost hlost hclassifies.1)
    · rw [List.any_cons, Bool.or_eq_true] at hany
      refine hany.imp_left fun hfirst => ?_
      rw [beq_iff_eq] at hfirst
      obtain ⟨row, hrow, hkey, hpattern⟩ := upsert_written rows pass.tenantId (pass.record first)
      have hnone : (classifySharedAddress first).pattern = none := by simpa [hfirst] using hclassifies.1
      refine ⟨row, hrow, ?_, hpattern.trans hnone⟩
      rw [← hfirst]
      exact hkey

theorem recorded_subset {group : DiscoveredGroup} (h : group ∈ pass.recorded) : group ∈ pass.groups := by
  obtain ⟨found, hfound, rfl⟩ := List.mem_map.mp h
  exact List.fst_mem_of_mem_zipIdx (List.mem_filter.mp hfound).1

theorem runGroupDiscovery_lost (hclassifies : pass.classifies address = false) (hrecords : pass.records address = true)
    (rows : List GroupDefRow) (decisions : List DecisionRow) :
    Lost pass.tenantId pass.sourceConnectionId address (runGroupDiscovery pass rows decisions).groups := by
  rw [runGroupDiscovery_groups]
  refine writes_lost ?_ (.inr hrecords)
  rw [Pass.classifies, List.any_eq_false] at hclassifies
  rw [List.any_eq_false]
  intro group hgroup
  exact hclassifies group (recorded_subset hgroup)

end Pass

section Run

variable {tenantId sourceConnectionId address : String} {s : Ledger} {q : Option SharedAddressPattern}
  {events : List Event}

theorem standing_snoc (s : Ledger) (q : Option SharedAddressPattern) (before : List Event) (event : Event) :
    standing tenantId sourceConnectionId address s q (before ++ [event]) =
      stands tenantId sourceConnectionId address (before.foldl next s)
        (standing tenantId sourceConnectionId address s q before) event := by
  induction before generalizing s q with
  | nil => rfl
  | cons first rest ih => exact ih (next s first) _

theorem stands_pass {pass : Pass} {pattern : SharedAddressPattern}
    (h : stands tenantId sourceConnectionId address s q (.pass pass) = some pattern) :
    q = some pattern ∧ (pass.isOf tenantId sourceConnectionId = true → pass.classifies address = false) := by
  rw [stands] at h
  split at h
  · cases h
  · rename_i hclassifies
    refine ⟨h, fun hof => ?_⟩
    simpa [hof] using hclassifies

theorem stands_holds (event : Event)
    (hq : ∀ pattern, q = some pattern → Holds tenantId sourceConnectionId address pattern s.groups)
    (hpass : ∀ pass, event = .pass pass → ∀ pattern,
      stands tenantId sourceConnectionId address s q event = some pattern →
        pass.isOf tenantId sourceConnectionId = true → pass.records address = false)
    (pattern : SharedAddressPattern) (h : stands tenantId sourceConnectionId address s q event = some pattern) :
    Holds tenantId sourceConnectionId address pattern (next s event).groups := by
  cases event with
  | pass pass =>
    obtain ⟨hstands, -⟩ := stands_pass h
    exact runGroupDiscovery_holds (hq pattern hstands) (hpass pass rfl pattern h) s.decisions
  | answer answer =>
    rw [stands] at h
    rw [next]
    dsimp only
    cases hgiven : answer.given s with
    | none =>
      rw [hgiven] at h
      exact hq pattern h
    | some given =>
      rw [hgiven] at h
      dsimp only at h ⊢
      split at h
      · rename_i hsame
        obtain ⟨rfl, rfl⟩ := hsame
        obtain rfl := Option.some.inj h
        exact setPattern_holds s.groups answer.tenantId sourceConnectionId given.1 given.2
      · rename_i hother
        exact setPattern_other (hq pattern h) hother

theorem standing_holds
    (hq : ∀ pattern, q = some pattern → Holds tenantId sourceConnectionId address pattern s.groups)
    (hpass : ∀ (before after : List Event) (pass : Pass), events = before ++ .pass pass :: after → ∀ pattern,
      standing tenantId sourceConnectionId address s q (before ++ [Event.pass pass]) = some pattern →
        pass.isOf tenantId sourceConnectionId = true → pass.records address = false)
    (pattern : SharedAddressPattern) (h : standing tenantId sourceConnectionId address s q events = some pattern) :
    Holds tenantId sourceConnectionId address pattern (events.foldl next s).groups := by
  induction events generalizing s q with
  | nil => exact hq pattern h
  | cons first rest ih =>
    refine ih (stands_holds first hq ?_) ?_ h
    · rintro pass rfl
      exact hpass [] rest pass rfl
    · rintro before after pass rfl
      exact hpass (first :: before) after pass rfl

/-- In any run, from any tables, answers survive the passes of sources that still do not classify the address exactly
when no such pass records a group of it. -/
theorem answers_survive_iff (s : Ledger) (events : List Event) : AnswersSurvive s events ↔ NotRecorded s events := by
  constructor
  · intro h before after pass hevents tenantId sourceConnectionId address pattern hstanding hof
    obtain ⟨hholds, -⟩ := h before after pass hevents tenantId sourceConnectionId address pattern hstanding
    rw [standing_snoc] at hstanding
    have hclassifies := (stands_pass hstanding).2 hof
    by_contra hrecords
    rw [Bool.not_eq_false] at hrecords
    rw [Pass.isOf, Bool.and_eq_true, beq_iff_eq, beq_iff_eq] at hof
    obtain ⟨rfl, rfl⟩ := hof
    rw [List.foldl_append] at hholds
    obtain ⟨row, hrow, hkey, hnone⟩ :=
      runGroupDiscovery_lost hclassifies hrecords (before.foldl next s).groups (before.foldl next s).decisions
    have hpattern := hholds row hrow hkey
    rw [hnone] at hpattern
    cases hpattern
  · intro h before after pass hevents tenantId sourceConnectionId address pattern hstanding
    have hrecords := h before after pass hevents tenantId sourceConnectionId address pattern hstanding
    constructor
    · apply standing_holds _ _ pattern hstanding
      · intro pattern hnone
        cases hnone
      · intro before' after' pass' hbefore pattern' hstanding'
        apply h before' (after' ++ after) pass' _ tenantId sourceConnectionId address pattern' hstanding'
        rw [hevents, ← List.singleton_append, ← List.append_assoc, hbefore, List.append_assoc, List.cons_append]
    · intro hof
      rw [List.foldl_append]
      have hasks :=
        runGroupDiscovery_asksNothing (hrecords hof) (before.foldl next s).groups (before.foldl next s).decisions
      rw [Pass.isOf, Bool.and_eq_true, beq_iff_eq, beq_iff_eq] at hof
      obtain ⟨rfl, -⟩ := hof
      exact hasks

/-- The pass after the answer lists the address as before, and the answer is gone. -/
theorem answers_do_not_survive : ¬ ∀ (s : Ledger) (events : List Event), AnswersSurvive s events := by
  intro h
  have hlost := (h ⟨[], []⟩
    [.pass ⟨"t", "c", .listed [⟨"g", "a", none, .unknown, .listed []⟩], 0, fun _ => false, fun _ => false⟩,
      .answer ⟨"t", 1, [("pattern", .text "shared_s")], "u", 0⟩,
      .pass ⟨"t", "c", .listed [⟨"g", "a", none, .unknown, .listed []⟩], 0, fun _ => false, fun _ => false⟩]
    [.pass ⟨"t", "c", .listed [⟨"g", "a", none, .unknown, .listed []⟩], 0, fun _ => false, fun _ => false⟩,
      .answer ⟨"t", 1, [("pattern", .text "shared_s")], "u", 0⟩] [] _ rfl "t" "c" "a" .sharedS (by decide +kernel)).1
  revert hlost
  decide +kernel

end Run

end OpenMigrate.Decisions
