import OpenMigrate.Ledger.Record
import Mathlib.Data.List.Basic
import Mathlib.Data.List.Nodup
import Mathlib.Data.List.Range
import Mathlib.Tactic.Common

namespace OpenMigrate.Digest

inductive DigestCadence where
  | daily
  | weekly
  deriving DecidableEq

def DigestCadence.name : DigestCadence → String
  | daily => "daily"
  | weekly => "weekly"

structure DigestMapping where
  id : String
  status : String
  deriving DecidableEq

def reportsToDigest (status : String) : Bool := status != "done"

/-- The mappings of a tenant, whose ids are the table's keys. -/
structure DigestTenant where
  mappings : List DigestMapping
  keys : (mappings.map (·.id)).Nodup
  named : ∀ mapping ∈ mappings, mapping.id ≠ ""

/-- A row of the tenant's audit log; the rows are numbered as they come. -/
structure AuditRow where
  id : ℕ
  actor : String
  action : String
  mappingId : Option String
  at_ : Instant
  deriving DecidableEq

structure AuditFilter where
  actor : String
  action : String
  since : Instant
  mappingId : Option String

section Audit

variable (log : List AuditRow)

def recordAuditEvent (now : Instant) (actor action : String) (mappingId : Option String) : List AuditRow :=
  log ++ [⟨log.length, actor, action, mappingId, now⟩]

def AuditFilter.admits (filter : AuditFilter) (row : AuditRow) : Bool :=
  row.actor == filter.actor && row.action == filter.action && decide (filter.since ≤ row.at_) &&
    (truthy filter.mappingId).all fun mappingId => row.mappingId == some mappingId

/-- The rows that `countAuditEvents` counts. -/
def auditEvents (filter : AuditFilter) : List AuditRow := log.filter filter.admits

def countAuditEvents (filter : AuditFilter) : ℕ := (auditEvents log filter).length

def latestAuditEventAt (actor action : String) : Option Instant :=
  ((log.filter fun row => row.actor == actor && row.action == action).map (·.at_)).max?

end Audit

/-- What a digest says of a mapping, the other queues apart. Of the model: the rows that were counted, and how many rows
the log had then. -/
structure MappingAttention where
  mappingId : String
  autoApplied : ℕ
  blind : Bool
  counted : List AuditRow
  upTo : ℕ

/-- A digest that was sent, and how many rows the log had then. -/
structure SentDigest where
  attention : List MappingAttention
  upTo : ℕ

inductive Phase where
  | idle
  | counting (since : Instant) (remaining : List DigestMapping) (attention : List MappingAttention)
  | recording

structure DigestState where
  now : Instant
  audit : List AuditRow := []
  phase : Phase := .idle
  sent : List SentDigest := []

inductive Act where
  | relocation (mappingId : String)
  | read (fails : Bool)
  | count (fails : Bool)
  | send (otherwise : Bool)
  | record

structure Turn where
  elapsed : ℕ
  act : Act

def relocations (since : Instant) (mappingId : String) : AuditFilter where
  actor := "system:auto-apply"
  action := "auto_apply_relocation"
  since := since
  mappingId := some mappingId

def attentionFor (log : List AuditRow) (mapping : DigestMapping) (since : Instant) (fails : Bool) :
    MappingAttention where
  mappingId := mapping.id
  autoApplied := if fails then 0 else countAuditEvents log (relocations since mapping.id)
  blind := fails
  counted := if fails then [] else auditEvents log (relocations since mapping.id)
  upTo := log.length

/-- A message is rendered if a mapping wants attention; `otherwise` tells of all that is not counted here. -/
def rendersDigest (attention : List MappingAttention) (otherwise : Bool) : Bool :=
  otherwise || attention.any fun one => 0 < one.autoApplied || one.blind

def windowStart (log : List AuditRow) (cadence : DigestCadence) (now : Instant) (fails : Bool) : Instant :=
  let since := now - (if cadence = .weekly then 7 else 1) * 24 * 60 * 60 * 1000
  if fails then since
  else (latestAuditEventAt log "system:digest" ("digest_sent_" ++ cadence.name)).getD since

section Steps

variable (tenant : DigestTenant) (cadence : DigestCadence)

/-- A turn: a relocation is applied and audited, or the digest goes on with its next statement. -/
def step (s : DigestState) (t : Turn) : DigestState :=
  let now := s.now + t.elapsed
  match t.act, s.phase with
  | .relocation mappingId, _ =>
    { s with
      now
      audit := recordAuditEvent s.audit now "system:auto-apply" "auto_apply_relocation" (some mappingId) }
  | .read fails, .idle =>
    { s with now, phase := .counting (windowStart s.audit cadence now fails) tenant.mappings [] }
  | .count fails, .counting since (mapping :: remaining) attention =>
    if reportsToDigest mapping.status then
      { s with now, phase := .counting since remaining (attention ++ [attentionFor s.audit mapping since fails]) }
    else { s with now, phase := .counting since remaining attention }
  | .send otherwise, .counting _ [] attention =>
    if rendersDigest attention otherwise then
      { s with now, phase := .recording, sent := s.sent ++ [⟨attention, s.audit.length⟩] }
    else { s with now, phase := .idle }
  | .record, .recording =>
    { s with
      now
      audit := recordAuditEvent s.audit now "system:digest" ("digest_sent_" ++ cadence.name) none
      phase := .idle }
  | _, _ => { s with now }

def run (s : DigestState) (turns : List Turn) : DigestState := turns.foldl (step tenant cadence) s

def EveryTurn (C : DigestState → Turn → Prop) (s : DigestState) : List Turn → Prop
  | [] => True
  | t :: turns => C s t ∧ EveryTurn C (step tenant cadence s t) turns

/-- An auto-applied relocation of a mapping that reports to the digest. -/
def Relocated (row : AuditRow) : Prop :=
  row.actor = "system:auto-apply" ∧ row.action = "auto_apply_relocation" ∧
    ∃ mapping ∈ tenant.mappings, reportsToDigest mapping.status = true ∧ row.mappingId = some mapping.id

def SentDigest.counted (digest : SentDigest) : List AuditRow := digest.attention.flatMap (·.counted)

def timesReported (s : DigestState) (row : AuditRow) : ℕ := (s.sent.flatMap (·.counted)).count row

/-- Every relocation is counted in exactly one sent digest, unless none was sent after it. -/
def ReportedOnce (s : DigestState) : Prop :=
  ∀ row ∈ s.audit, Relocated tenant row → (∃ digest ∈ s.sent, row.id < digest.upTo) → timesReported s row = 1

/-- How many rows the log had when the last digest was sent. -/
def sentUpTo (s : DigestState) : ℕ := (s.sent.getLast?.map (·.upTo)).getD 0

/-- A row is in the window of a mapping: it was there when the mapping was counted, and is not older than `since`. -/
def MappingAttention.Has (one : MappingAttention) (since : Instant) (row : AuditRow) : Prop :=
  row.mappingId = some one.mappingId ∧ one.blind = false ∧ row.id < one.upTo ∧ since ≤ row.at_

instance (one : MappingAttention) (since : Instant) (row : AuditRow) : Decidable (one.Has since row) :=
  inferInstanceAs (Decidable (_ ∧ _ ∧ _ ∧ _))

def Sees (since : Instant) (attention : List MappingAttention) (row : AuditRow) : Prop :=
  ∃ one ∈ attention, one.Has since row

instance (since : Instant) (attention : List MappingAttention) (row : AuditRow) :
    Decidable (Sees since attention row) := inferInstanceAs (Decidable (∃ one ∈ attention, _))

/-- A digest that is going to be sent sees the relocations that came after the last one was sent, and no others. -/
def seesItsOwn (s : DigestState) (t : Turn) : Prop :=
  match t.act, s.phase with
  | .send otherwise, .counting since [] attention =>
    rendersDigest attention otherwise = true →
      ∀ row ∈ s.audit, Relocated tenant row → (Sees since attention row ↔ sentUpTo s ≤ row.id)
  | _, _ => True

end Steps

section Log

variable {log : List AuditRow} {row : AuditRow}

/-- The rows have the numbers from 0 on. -/
def Numbered (log : List AuditRow) : Prop := log.map (·.id) = List.range log.length

theorem numbered_record (h : Numbered log) (now : Instant) (actor action : String) (mappingId : Option String) :
    Numbered (recordAuditEvent log now actor action mappingId) := by
  unfold Numbered recordAuditEvent
  rw [List.map_append, h, List.length_append, List.length_singleton, List.range_succ]
  rfl

theorem numbered_nodup (h : Numbered log) : log.Nodup := by
  apply List.Nodup.of_map (·.id)
  rw [h]
  exact List.nodup_range

theorem numbered_id (h : Numbered log) {i : ℕ} (hi : log[i]? = some row) : row.id = i := by
  have hlt : i < log.length := (List.getElem?_eq_some_iff.mp hi).1
  have hget : (log.map (·.id))[i]? = some row.id := by
    rw [List.getElem?_map, hi]
    rfl
  rw [h, List.getElem?_range hlt, Option.some.injEq] at hget
  exact hget.symm

theorem id_lt_length (h : Numbered log) (hrow : row ∈ log) : row.id < log.length := by
  obtain ⟨i, hi⟩ := List.mem_iff_getElem?.mp hrow
  rw [numbered_id h hi]
  exact (List.getElem?_eq_some_iff.mp hi).1

theorem mem_take_iff (h : Numbered log) (hrow : row ∈ log) (n : ℕ) : row ∈ log.take n ↔ row.id < n := by
  obtain ⟨i, hi⟩ := List.mem_iff_getElem?.mp hrow
  rw [numbered_id h hi]
  constructor
  · intro hmem
    obtain ⟨j, hj⟩ := List.mem_iff_getElem?.mp hmem
    rw [List.getElem?_take] at hj
    split at hj
    · rename_i hlt
      have hsame : j = i := by rw [← numbered_id h hj, numbered_id h hi]
      rwa [← hsame]
    · cases hj
  · intro hlt
    apply List.mem_of_getElem? (i := i)
    rwa [List.getElem?_take_of_lt hlt]

theorem events_count (h : Numbered log) (hrow : row ∈ log) (filter : AuditFilter) (n : ℕ) :
    (auditEvents (log.take n) filter).count row = if filter.admits row = true ∧ row.id < n then 1 else 0 := by
  have hnodup : (auditEvents (log.take n) filter).Nodup :=
    ((numbered_nodup h).sublist (List.take_sublist n log)).filter _
  rw [hnodup.count]
  congr 1
  unfold auditEvents
  rw [List.mem_filter, mem_take_iff h hrow, and_comm]

end Log

section Counting

variable {tenant : DigestTenant} {log : List AuditRow} {row : AuditRow} {since : Instant}
  {attention : List MappingAttention} {remaining : List DigestMapping}

theorem admits_iff (hrow : Relocated tenant row) {mappingId : String} (hnamed : mappingId ≠ "") :
    (relocations since mappingId).admits row = true ↔ row.mappingId = some mappingId ∧ since ≤ row.at_ := by
  obtain ⟨hactor, haction, -⟩ := hrow
  unfold AuditFilter.admits relocations truthy
  simp [hactor, haction, Option.filter, hnamed, and_comm]

/-- What a digest in the making has counted: for each mapping the rows of its window that were there. -/
structure Attended (log : List AuditRow) (since : Instant) (remaining : List DigestMapping)
    (attention : List MappingAttention) : Prop where
  keys : (attention.map (·.mappingId) ++ remaining.map (·.id)).Nodup
  named : ∀ id ∈ attention.map (·.mappingId) ++ remaining.map (·.id), id ≠ ""
  upTo : ∀ one ∈ attention, one.upTo ≤ log.length
  counted : ∀ one ∈ attention,
    one.counted = if one.blind then [] else auditEvents (log.take one.upTo) (relocations since one.mappingId)

theorem Attended.record (h : Attended log since remaining attention) (now : Instant) (actor action : String)
    (mappingId : Option String) :
    Attended (recordAuditEvent log now actor action mappingId) since remaining attention := by
  constructor
  · exact h.keys
  · exact h.named
  · intro one hone
    unfold recordAuditEvent
    rw [List.length_append]
    exact Nat.le_add_right_of_le (h.upTo one hone)
  · intro one hone
    unfold recordAuditEvent
    rw [List.take_append_of_le_length (h.upTo one hone)]
    exact h.counted one hone

theorem attended_start (tenant : DigestTenant) : Attended log since tenant.mappings [] := by
  constructor
  · exact tenant.keys
  · intro id hid
    obtain ⟨mapping, hmapping, rfl⟩ := List.mem_map.mp hid
    exact tenant.named mapping hmapping
  · rintro one ⟨⟩
  · rintro one ⟨⟩

theorem Attended.skip {mapping : DigestMapping} (h : Attended log since (mapping :: remaining) attention) :
    Attended log since remaining attention := by
  have hsub : (attention.map (·.mappingId) ++ remaining.map (·.id)).Sublist
      (attention.map (·.mappingId) ++ (mapping :: remaining).map (·.id)) :=
    (List.sublist_cons_self mapping.id (remaining.map (·.id))).append_left _
  constructor
  · exact h.keys.sublist hsub
  · exact fun id hid => h.named id (hsub.subset hid)
  · exact h.upTo
  · exact h.counted

theorem Attended.count {mapping : DigestMapping} (h : Attended log since (mapping :: remaining) attention)
    (fails : Bool) : Attended log since remaining (attention ++ [attentionFor log mapping since fails]) := by
  have hids : (attention ++ [attentionFor log mapping since fails]).map (·.mappingId) ++ remaining.map (·.id) =
      attention.map (·.mappingId) ++ (mapping :: remaining).map (·.id) := by
    rw [List.map_append, List.append_assoc]
    rfl
  constructor
  · rw [hids]
    exact h.keys
  · rw [hids]
    exact h.named
  · intro one hone
    obtain hone | hone := List.mem_append.mp hone
    · exact h.upTo one hone
    · rw [List.mem_singleton.mp hone]
      exact le_rfl
  · intro one hone
    obtain hone | hone := List.mem_append.mp hone
    · exact h.counted one hone
    · rw [List.mem_singleton.mp hone]
      unfold attentionFor
      rw [List.take_length]

theorem one_count (h : Attended log since remaining attention) (hnumbered : Numbered log) (hmem : row ∈ log)
    (hrow : Relocated tenant row) {one : MappingAttention} (hone : one ∈ attention) :
    one.counted.count row = if one.Has since row then 1 else 0 := by
  have hnamed : one.mappingId ≠ "" := h.named _ (List.mem_append_left _ (List.mem_map_of_mem hone))
  rw [h.counted one hone]
  by_cases hblind : one.blind = true
  · simp [MappingAttention.Has, hblind]
  · rw [if_neg hblind, events_count hnumbered hmem]
    apply if_congr _ rfl rfl
    rw [admits_iff hrow hnamed]
    unfold MappingAttention.Has
    rw [Bool.not_eq_true] at hblind
    constructor
    · rintro ⟨⟨hmapping, hsince⟩, hbefore⟩
      exact ⟨hmapping, hblind, hbefore, hsince⟩
    · rintro ⟨hmapping, -, hbefore, hsince⟩
      exact ⟨⟨hmapping, hsince⟩, hbefore⟩

theorem attention_count {attention : List MappingAttention} (hkeys : (attention.map (·.mappingId)).Nodup)
    (hone : ∀ one ∈ attention, one.counted.count row = if one.Has since row then 1 else 0) :
    (attention.flatMap (·.counted)).count row = if Sees since attention row then 1 else 0 := by
  induction attention with
  | nil => rfl
  | cons one rest ih =>
    rw [List.map_cons, List.nodup_cons] at hkeys
    have hrest := ih hkeys.2 fun other hother => hone other (List.mem_cons_of_mem one hother)
    have hsees : Sees since (one :: rest) row ↔ one.Has since row ∨ Sees since rest row := by
      unfold Sees
      exact List.exists_mem_cons_iff _ _ _
    rw [List.flatMap_cons, List.count_append, hone one List.mem_cons_self, hrest, if_congr hsees rfl rfl]
    by_cases hhas : one.Has since row
    · have hothers : ¬ Sees since rest row := by
        rintro ⟨other, hother, hhas'⟩
        have hsame : one.mappingId = other.mappingId := Option.some.inj (hhas.1.symm.trans hhas'.1)
        apply hkeys.1
        rw [hsame]
        exact List.mem_map_of_mem hother
      rw [if_pos hhas, if_neg hothers, if_pos (.inl hhas)]
    · rw [if_neg hhas, Nat.zero_add]
      simp only [hhas, false_or]

end Counting

section Runs

variable {tenant : DigestTenant} {cadence : DigestCadence} {s : DigestState} {t : Turn}

/-- Each relocation was counted once before the last digest was sent, and not at all since. -/
structure Sound (tenant : DigestTenant) (s : DigestState) : Prop where
  numbered : Numbered s.audit
  before : sentUpTo s ≤ s.audit.length
  upTo : ∀ digest ∈ s.sent, digest.upTo ≤ sentUpTo s
  logged : ∀ digest ∈ s.sent, ∀ row ∈ digest.counted, row ∈ s.audit
  split : ∀ row ∈ s.audit, Relocated tenant row → timesReported s row = if row.id < sentUpTo s then 1 else 0
  attended : ∀ since remaining attention, s.phase = .counting since remaining attention →
    Attended s.audit since remaining attention

theorem Sound.reportedOnce (h : Sound tenant s) : ReportedOnce tenant s := by
  rintro row hmem hrow ⟨digest, hdigest, hlt⟩
  rw [h.split row hmem hrow, if_pos (lt_of_lt_of_le hlt (h.upTo digest hdigest))]

theorem sound_start (tenant : DigestTenant) (now : Instant) : Sound tenant { now := now } := by
  constructor
  · rfl
  · exact le_rfl
  · rintro digest ⟨⟩
  · rintro digest ⟨⟩
  · rintro row ⟨⟩
  · rintro since remaining attention ⟨⟩

theorem Sound.goes (h : Sound tenant s) (now : Instant) {phase : Phase}
    (hphase : ∀ since remaining attention, phase = .counting since remaining attention →
      Attended s.audit since remaining attention) : Sound tenant { s with now := now, phase := phase } :=
  ⟨h.numbered, h.before, h.upTo, h.logged, h.split, hphase⟩

theorem timesReported_record (h : Sound tenant s) (now : Instant) (actor action : String) (mappingId : Option String) :
    timesReported s ⟨s.audit.length, actor, action, mappingId, now⟩ = 0 := by
  apply List.count_eq_zero_of_not_mem
  intro hmem
  obtain ⟨digest, hdigest, hrow⟩ := List.mem_flatMap.mp hmem
  exact absurd (id_lt_length h.numbered (h.logged digest hdigest _ hrow)) (lt_irrefl _)

theorem Sound.record (h : Sound tenant s) (now : Instant) (actor action : String) (mappingId : Option String) :
    Sound tenant { s with now := now, audit := recordAuditEvent s.audit now actor action mappingId } := by
  constructor
  · exact numbered_record h.numbered now actor action mappingId
  · change sentUpTo s ≤ (recordAuditEvent s.audit now actor action mappingId).length
    unfold recordAuditEvent
    rw [List.length_append]
    exact Nat.le_add_right_of_le h.before
  · exact h.upTo
  · exact fun digest hdigest row hrow => List.mem_append_left _ (h.logged digest hdigest row hrow)
  · intro row hmem hrow
    obtain hmem | hmem := List.mem_append.mp hmem
    · exact h.split row hmem hrow
    · rw [List.mem_singleton.mp hmem]
      exact (timesReported_record h now actor action mappingId).trans (if_neg (not_lt.mpr h.before)).symm
  · intro since remaining attention hphase
    exact (h.attended since remaining attention hphase).record now actor action mappingId

theorem timesReported_send (digest : SentDigest) (now : Instant) (phase : Phase) (row : AuditRow) :
    timesReported { s with now := now, phase := phase, sent := s.sent ++ [digest] } row =
      timesReported s row + digest.counted.count row := by
  unfold timesReported
  rw [List.flatMap_append, List.count_append, List.flatMap_singleton]

theorem sentUpTo_send (digest : SentDigest) (now : Instant) (phase : Phase) :
    sentUpTo { s with now := now, phase := phase, sent := s.sent ++ [digest] } = digest.upTo := by
  unfold sentUpTo
  rw [List.getLast?_concat]
  rfl

theorem sound_counted (h : Sound tenant s) {since : Instant} {attention : List MappingAttention}
    (hphase : s.phase = .counting since [] attention) {row : AuditRow} (hmem : row ∈ s.audit)
    (hrow : Relocated tenant row) :
    (attention.flatMap (·.counted)).count row = if Sees since attention row then 1 else 0 := by
  have hattended := h.attended since [] attention hphase
  have hkeys := hattended.keys
  rw [List.map_nil, List.append_nil] at hkeys
  exact attention_count hkeys fun one hone => one_count hattended h.numbered hmem hrow hone

theorem sent_once_iff (h : Sound tenant s) {since : Instant} {attention : List MappingAttention}
    (hphase : s.phase = .counting since [] attention) (now : Instant) {row : AuditRow} (hmem : row ∈ s.audit)
    (hrow : Relocated tenant row) :
    timesReported { s with now := now, phase := .recording, sent := s.sent ++ [⟨attention, s.audit.length⟩] } row = 1 ↔
      (Sees since attention row ↔ sentUpTo s ≤ row.id) := by
  rw [timesReported_send, h.split row hmem hrow]
  change _ + (attention.flatMap (·.counted)).count row = 1 ↔ _
  rw [sound_counted h hphase hmem hrow]
  by_cases hold : row.id < sentUpTo s <;> by_cases hsees : Sees since attention row
  · simp [hold, hsees]
  · simp [hold, hsees]
  · simp [hold, hsees, not_lt.mp hold]
  · simp [hold, hsees, not_lt.mp hold]

theorem Sound.send (h : Sound tenant s) {since : Instant} {attention : List MappingAttention}
    (hphase : s.phase = .counting since [] attention) (now : Instant)
    (hsees : ∀ row ∈ s.audit, Relocated tenant row → (Sees since attention row ↔ sentUpTo s ≤ row.id)) :
    Sound tenant { s with now := now, phase := .recording, sent := s.sent ++ [⟨attention, s.audit.length⟩] } := by
  have hattended := h.attended since [] attention hphase
  constructor
  · exact h.numbered
  · rw [sentUpTo_send]
  · intro digest hdigest
    rw [sentUpTo_send]
    obtain hdigest | hdigest := List.mem_append.mp hdigest
    · exact le_trans (h.upTo digest hdigest) h.before
    · rw [List.mem_singleton.mp hdigest]
  · intro digest hdigest row hrow
    obtain hdigest | hdigest := List.mem_append.mp hdigest
    · exact h.logged digest hdigest row hrow
    · rw [List.mem_singleton.mp hdigest] at hrow
      obtain ⟨one, hone, hcounted⟩ := List.mem_flatMap.mp hrow
      rw [hattended.counted one hone] at hcounted
      split at hcounted
      · cases hcounted
      · exact List.mem_of_mem_take (List.mem_of_mem_filter hcounted)
  · intro row hmem hrow
    rw [sentUpTo_send, if_pos (id_lt_length h.numbered hmem)]
    exact (sent_once_iff h hphase now hmem hrow).mpr (hsees row hmem hrow)
  · rintro since' remaining attention' ⟨⟩

theorem step_sound (h : Sound tenant s) (hsees : seesItsOwn tenant s t) : Sound tenant (step tenant cadence s t) := by
  obtain ⟨elapsed, act⟩ := t
  have hstays : Sound tenant { s with now := s.now + elapsed } := h.goes _ h.attended
  unfold step
  cases act with
  | relocation mappingId => exact h.record _ _ _ _
  | read fails =>
    cases hphase : s.phase with
    | idle =>
      apply h.goes
      rintro since remaining attention ⟨⟩
      exact attended_start tenant
    | counting | recording => rwa [hphase] at hstays
  | count fails =>
    cases hphase : s.phase with
    | counting since remaining attention =>
      cases remaining with
      | nil => rwa [hphase] at hstays
      | cons mapping remaining =>
        have hattended := h.attended since (mapping :: remaining) attention hphase
        dsimp only
        split
        · apply h.goes
          rintro since' remaining' attention' ⟨⟩
          exact hattended.count fails
        · apply h.goes
          rintro since' remaining' attention' ⟨⟩
          exact hattended.skip
    | idle | recording => rwa [hphase] at hstays
  | send otherwise =>
    cases hphase : s.phase with
    | counting since remaining attention =>
      cases remaining with
      | nil =>
        unfold seesItsOwn at hsees
        rw [hphase] at hsees
        dsimp only at hsees ⊢
        split
        · rename_i hrenders
          exact h.send hphase _ (hsees hrenders)
        · apply h.goes
          rintro since' remaining' attention' ⟨⟩
      | cons mapping remaining => rwa [hphase] at hstays
    | idle | recording => rwa [hphase] at hstays
  | record =>
    cases hphase : s.phase with
    | recording =>
      apply (h.record _ _ _ _).goes
      rintro since remaining attention ⟨⟩
    | idle | counting => rwa [hphase] at hstays

theorem step_sees (h : Sound tenant s) (hreported : ReportedOnce tenant (step tenant cadence s t)) :
    seesItsOwn tenant s t := by
  obtain ⟨elapsed, act⟩ := t
  unfold seesItsOwn
  cases act with
  | relocation | read | count | record => trivial
  | send otherwise =>
    cases hphase : s.phase with
    | idle | recording => trivial
    | counting since remaining attention =>
      cases remaining with
      | cons mapping remaining => trivial
      | nil =>
        intro hrenders row hmem hrow
        apply (sent_once_iff h hphase (s.now + elapsed) hmem hrow).mp
        unfold step at hreported
        rw [hphase] at hreported
        dsimp only at hreported
        rw [if_pos hrenders] at hreported
        apply hreported row hmem hrow
        exact ⟨⟨attention, s.audit.length⟩, List.mem_append_right _ List.mem_cons_self, id_lt_length h.numbered hmem⟩

theorem run_reported_iff (h : Sound tenant s) (turns : List Turn) :
    (∀ n, ReportedOnce tenant (run tenant cadence s (turns.take n))) ↔
      EveryTurn tenant cadence (seesItsOwn tenant) s turns := by
  induction turns generalizing s with
  | nil =>
    apply iff_of_true _ trivial
    intro n
    rw [List.take_nil]
    exact h.reportedOnce
  | cons t turns ih =>
    constructor
    · intro hreported
      have hsees : seesItsOwn tenant s t := step_sees h (hreported 1)
      exact ⟨hsees, (ih (step_sound h hsees)).mp fun n => hreported (n + 1)⟩
    · rintro ⟨hsees, hrest⟩ n
      cases n with
      | zero => exact h.reportedOnce
      | succ n => exact (ih (step_sound h hsees)).mpr hrest n

end Runs

/-- In any interleaving of relocations with the digests of one cadence, every relocation is reported in exactly one
digest if and only if every digest that is sent sees those that came since the last one was sent, and no others. -/
theorem reported_once_iff (tenant : DigestTenant) (cadence : DigestCadence) (now : Instant) (turns : List Turn) :
    (∀ n, ReportedOnce tenant (run tenant cadence { now := now } (turns.take n))) ↔
      EveryTurn tenant cadence (seesItsOwn tenant) { now := now } turns :=
  run_reported_iff (sound_start tenant now) turns

namespace Sample

def tenant : DigestTenant where
  mappings := [⟨"m", "active"⟩]
  keys := by decide
  named := by decide

/-- A relocation comes after its mapping was counted and before the digest is sent; the next digest is a day later. -/
def turns : List Turn :=
  [⟨5, .relocation "m"⟩, ⟨1, .read false⟩, ⟨1, .count false⟩, ⟨1, .relocation "m"⟩, ⟨1, .send false⟩, ⟨1, .record⟩,
    ⟨86400000, .read false⟩, ⟨1, .count false⟩, ⟨1, .send true⟩]

end Sample

theorem second_relocation_is_in_no_digest :
    ¬ ∀ n, ReportedOnce Sample.tenant (run Sample.tenant .daily { now := 100000000 } (Sample.turns.take n)) := by
  intro h
  have hreported := h 9 ⟨1, "system:auto-apply", "auto_apply_relocation", some "m", 100000008⟩ (by decide +kernel)
    ⟨rfl, rfl, ⟨"m", "active"⟩, by decide, by decide, rfl⟩ (by decide +kernel)
  exact absurd hreported (by decide +kernel)

end OpenMigrate.Digest
