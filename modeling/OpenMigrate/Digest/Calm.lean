import OpenMigrate.Digest.Runs

namespace OpenMigrate.Digest

section Calm

variable {tenant : DigestTenant} {cadence : DigestCadence} {s : DigestState} {t : Turn}

def lastSentAt (cadence : DigestCadence) (log : List AuditRow) : Option Instant :=
  latestAuditEventAt log "system:digest" ("digest_sent_" ++ cadence.name)

/-- A turn of a calm run: relocations come between digests, what a digest reads does not fail, a first digest's window
reaches back to the first relocation, and a digest is recorded at a later time than its last relocation. -/
def calm (tenant : DigestTenant) (cadence : DigestCadence) (s : DigestState) (t : Turn) : Prop :=
  match t.act, s.phase with
  | .relocation _, phase => phase = .idle
  | .read fails, .idle =>
    fails = false ∧ (lastSentAt cadence s.audit = none → ∀ row ∈ s.audit, Relocated tenant row →
      windowStart s.audit cadence (s.now + t.elapsed) false ≤ row.at_)
  | .count fails, _ => fails = false
  | .record, .recording => 0 < t.elapsed
  | _, _ => True

/-- Between digests the time of the last one parts the relocations that were reported from the others; while a digest is
made, its window has the others, and all that was counted is all there is. -/
structure Calm (tenant : DigestTenant) (cadence : DigestCadence) (s : DigestState) : Prop where
  times : ∀ row ∈ s.audit, row.at_ ≤ s.now
  parted : s.phase ≠ .recording → ∀ row ∈ s.audit, Relocated tenant row →
    (row.id < sentUpTo s ↔ ∃ at_ ∈ lastSentAt cadence s.audit, row.at_ < at_)
  window : ∀ since remaining attention, s.phase = .counting since remaining attention →
    ∀ row ∈ s.audit, Relocated tenant row → (since ≤ row.at_ ↔ sentUpTo s ≤ row.id)
  seen : ∀ since remaining attention, s.phase = .counting since remaining attention →
    ∀ one ∈ attention, one.blind = false ∧ one.upTo = s.audit.length
  listed : ∀ since remaining attention, s.phase = .counting since remaining attention →
    ∀ mapping ∈ tenant.mappings, reportsToDigest mapping.status = true →
      mapping ∈ remaining ∨ mapping.id ∈ attention.map (·.mappingId)
  complete : s.phase = .recording → sentUpTo s = s.audit.length

theorem lastSentAt_relocation (log : List AuditRow) (now : Instant) (mappingId : Option String) :
    lastSentAt cadence (recordAuditEvent log now "system:auto-apply" "auto_apply_relocation" mappingId) =
      lastSentAt cadence log := by
  unfold lastSentAt latestAuditEventAt recordAuditEvent
  rw [List.filter_append, List.filter_cons_of_neg (by simp), List.filter_nil, List.append_nil]

theorem lastSentAt_record {log : List AuditRow} {now : Instant} (htimes : ∀ row ∈ log, row.at_ ≤ now) :
    lastSentAt cadence (recordAuditEvent log now "system:digest" ("digest_sent_" ++ cadence.name) none) =
      some now := by
  unfold lastSentAt latestAuditEventAt recordAuditEvent
  rw [List.filter_append, List.filter_cons_of_pos (by simp), List.filter_nil, List.map_append, List.max?_eq_some_iff]
  constructor
  · exact List.mem_append_right _ (List.mem_singleton.mpr rfl)
  · intro at_ hat
    obtain hat | hat := List.mem_append.mp hat
    · obtain ⟨row, hrow, rfl⟩ := List.mem_map.mp hat
      exact htimes row (List.mem_of_mem_filter hrow)
    · rw [List.mem_singleton.mp hat]

theorem lastSentAt_le (htimes : ∀ row ∈ s.audit, row.at_ ≤ s.now) {at_ : Instant}
    (hat : at_ ∈ lastSentAt cadence s.audit) : at_ ≤ s.now := by
  unfold lastSentAt latestAuditEventAt at hat
  obtain ⟨row, hrow, rfl⟩ := List.mem_map.mp (List.max?_mem hat)
  exact htimes row (List.mem_of_mem_filter hrow)

theorem digest_not_relocated (id : ℕ) (at_ : Instant) :
    ¬ Relocated tenant ⟨id, "system:digest", "digest_sent_" ++ cadence.name, none, at_⟩ := by
  rintro ⟨hactor, -⟩
  change "system:digest" = "system:auto-apply" at hactor
  exact absurd hactor (by decide)

theorem calm_start (now : Instant) : Calm tenant cadence { now := now } := by
  constructor
  · rintro row ⟨⟩
  · rintro _ row ⟨⟩
  · rintro since remaining attention ⟨⟩
  · rintro since remaining attention ⟨⟩
  · rintro since remaining attention ⟨⟩
  · rintro ⟨⟩

theorem calm_sees (hsound : Sound tenant s) (h : Calm tenant cadence s) : seesItsOwn tenant s t := by
  obtain ⟨elapsed, act⟩ := t
  unfold seesItsOwn
  cases act with
  | relocation | read | count | record => trivial
  | send otherwise =>
    cases hphase : s.phase with
    | idle | recording => trivial
    | counting since remaining attention =>
      cases remaining with
      | cons mapping remaining => trivial
      | nil =>
        intro _ row hmem hrow
        rw [← h.window since [] attention hphase row hmem hrow]
        constructor
        · rintro ⟨one, -, -, -, -, hsince⟩
          exact hsince
        · intro hsince
          obtain ⟨-, -, mapping, hmapping, hreports, hid⟩ := hrow
          obtain hremains | hattended := h.listed since [] attention hphase mapping hmapping hreports
          · cases hremains
          · obtain ⟨one, hone, hsame⟩ := List.mem_map.mp hattended
            obtain ⟨hblind, hupTo⟩ := h.seen since [] attention hphase one hone
            refine ⟨one, hone, by rw [hid, hsame], hblind, ?_, hsince⟩
            rw [hupTo]
            exact id_lt_length hsound.numbered hmem

theorem Calm.passes (h : Calm tenant cadence s) (elapsed : ℕ) :
    Calm tenant cadence { s with now := s.now + elapsed } :=
  ⟨fun row hrow => Nat.le_add_right_of_le (h.times row hrow), h.parted, h.window, h.seen, h.listed, h.complete⟩

theorem Calm.relocation (hsound : Sound tenant s) (h : Calm tenant cadence s) (hidle : s.phase = .idle) (elapsed : ℕ)
    (mappingId : Option String) :
    Calm tenant cadence { s with
      now := s.now + elapsed
      audit := recordAuditEvent s.audit (s.now + elapsed) "system:auto-apply" "auto_apply_relocation" mappingId } := by
  constructor
  · intro row hrow
    obtain hrow | hrow := List.mem_append.mp hrow
    · exact Nat.le_add_right_of_le (h.times row hrow)
    · rw [List.mem_singleton.mp hrow]
  · intro _ row hmem hrow
    rw [lastSentAt_relocation]
    obtain hmem | hmem := List.mem_append.mp hmem
    · exact h.parted (by simp [hidle]) row hmem hrow
    · rw [List.mem_singleton.mp hmem]
      apply iff_of_false (not_lt.mpr hsound.before)
      rintro ⟨at_, hat, hlt⟩
      exact absurd (lastSentAt_le h.times hat) (not_le.mpr (lt_of_le_of_lt (Nat.le_add_right _ elapsed) hlt))
  · intro since remaining attention hphase
    rw [hidle] at hphase
    cases hphase
  · intro since remaining attention hphase
    rw [hidle] at hphase
    cases hphase
  · intro since remaining attention hphase
    rw [hidle] at hphase
    cases hphase
  · intro hphase
    rw [hidle] at hphase
    cases hphase

theorem Calm.read (h : Calm tenant cadence s) (hidle : s.phase = .idle) (elapsed : ℕ)
    (hfirst : lastSentAt cadence s.audit = none → ∀ row ∈ s.audit, Relocated tenant row →
      windowStart s.audit cadence (s.now + elapsed) false ≤ row.at_) :
    Calm tenant cadence { s with
      now := s.now + elapsed
      phase := .counting (windowStart s.audit cadence (s.now + elapsed) false) tenant.mappings [] } := by
  have hparted := h.parted (by simp [hidle])
  constructor
  · exact (h.passes elapsed).times
  · exact fun _ => hparted
  · rintro since remaining attention ⟨⟩ row hmem hrow
    change _ ↔ sentUpTo s ≤ row.id
    have hpart := hparted row hmem hrow
    cases hlast : lastSentAt cadence s.audit with
    | none =>
      rw [hlast] at hpart
      apply iff_of_true (hfirst hlast row hmem hrow)
      rw [← not_lt, hpart]
      rintro ⟨at_, ⟨⟩, -⟩
    | some at_ =>
      have hstart : windowStart s.audit cadence (s.now + elapsed) false = at_ := by
        change (lastSentAt cadence s.audit).getD _ = at_
        rw [hlast, Option.getD_some]
      rw [hlast] at hpart
      rw [hstart, ← not_lt, ← not_lt, hpart]
      simp
  · rintro since remaining attention ⟨⟩ one ⟨⟩
  · rintro since remaining attention ⟨⟩ mapping hmapping _
    exact .inl hmapping
  · rintro ⟨⟩

theorem Calm.count (h : Calm tenant cadence s) (elapsed : ℕ) {since : Instant} {mapping : DigestMapping}
    {remaining : List DigestMapping} {attention : List MappingAttention}
    (hphase : s.phase = .counting since (mapping :: remaining) attention) {attention' : List MappingAttention}
    (hseen : ∀ one ∈ attention', one ∈ attention ∨ one = attentionFor s.audit mapping since false)
    (hkept : ∀ one ∈ attention, one ∈ attention')
    (hcounted : reportsToDigest mapping.status = true → mapping.id ∈ attention'.map (·.mappingId)) :
    Calm tenant cadence { s with now := s.now + elapsed, phase := .counting since remaining attention' } := by
  constructor
  · exact (h.passes elapsed).times
  · exact fun _ => h.parted (by simp [hphase])
  · rintro since' remaining' attention'' ⟨⟩
    exact h.window since _ attention hphase
  · rintro since' remaining' attention'' ⟨⟩ one hone
    obtain hone | rfl := hseen one hone
    · exact h.seen since _ attention hphase one hone
    · exact ⟨rfl, rfl⟩
  · rintro since' remaining' attention'' ⟨⟩ other hother hreports
    obtain hremains | hattended := h.listed since _ attention hphase other hother hreports
    · obtain rfl | hremains := List.mem_cons.mp hremains
      · exact .inr (hcounted hreports)
      · exact .inl hremains
    · obtain ⟨one, hone, hsame⟩ := List.mem_map.mp hattended
      exact .inr (List.mem_map.mpr ⟨one, hkept one hone, hsame⟩)
  · rintro ⟨⟩

theorem Calm.record (h : Calm tenant cadence s) (hsound : Sound tenant s) (hphase : s.phase = .recording) {elapsed : ℕ}
    (hlater : 0 < elapsed) :
    Calm tenant cadence { s with
      now := s.now + elapsed
      audit := recordAuditEvent s.audit (s.now + elapsed) "system:digest" ("digest_sent_" ++ cadence.name) none
      phase := .idle } := by
  have htimes : ∀ row ∈ s.audit, row.at_ ≤ s.now + elapsed := (h.passes elapsed).times
  constructor
  · intro row hrow
    obtain hrow | hrow := List.mem_append.mp hrow
    · exact htimes row hrow
    · rw [List.mem_singleton.mp hrow]
  · intro _ row hmem hrow
    rw [lastSentAt_record htimes]
    obtain hmem | hmem := List.mem_append.mp hmem
    · apply iff_of_true
      · exact lt_of_lt_of_eq (id_lt_length hsound.numbered hmem) (h.complete hphase).symm
      · exact ⟨_, rfl, lt_of_le_of_lt (h.times row hmem) (Nat.lt_add_of_pos_right hlater)⟩
    · rw [List.mem_singleton.mp hmem] at hrow
      exact absurd hrow (digest_not_relocated _ _)
  · rintro since remaining attention ⟨⟩
  · rintro since remaining attention ⟨⟩
  · rintro since remaining attention ⟨⟩
  · rintro ⟨⟩

theorem calm_step (hsound : Sound tenant s) (h : Calm tenant cadence s) (hcalm : calm tenant cadence s t) :
    Calm tenant cadence (step tenant cadence s t) := by
  obtain ⟨elapsed, act⟩ := t
  have hpasses := h.passes elapsed
  unfold calm at hcalm
  unfold step
  cases act with
  | relocation mappingId => exact h.relocation hsound hcalm elapsed _
  | read fails =>
    cases hphase : s.phase with
    | idle =>
      rw [hphase] at hcalm
      obtain ⟨rfl, hfirst⟩ := hcalm
      exact h.read hphase elapsed hfirst
    | counting | recording => rwa [hphase] at hpasses
  | count fails =>
    cases hphase : s.phase with
    | counting since remaining attention =>
      cases remaining with
      | nil => rwa [hphase] at hpasses
      | cons mapping remaining =>
        rw [hphase] at hcalm
        obtain rfl : fails = false := hcalm
        dsimp only
        split
        · apply h.count elapsed hphase
          · intro one hone
            obtain hone | hone := List.mem_append.mp hone
            · exact .inl hone
            · exact .inr (List.mem_singleton.mp hone)
          · exact fun one hone => List.mem_append_left _ hone
          · intro _
            rw [List.map_append]
            exact List.mem_append_right _ List.mem_cons_self
        · rename_i hdone
          apply h.count elapsed hphase
          · exact fun one hone => .inl hone
          · exact fun one hone => hone
          · exact fun hreports => absurd hreports hdone
    | idle | recording => rwa [hphase] at hpasses
  | send otherwise =>
    cases hphase : s.phase with
    | counting since remaining attention =>
      cases remaining with
      | nil =>
        have hparted := h.parted (by simp [hphase])
        dsimp only
        split
        · constructor
          · exact hpasses.times
          · exact fun hopen => absurd rfl hopen
          · rintro since' remaining' attention' ⟨⟩
          · rintro since' remaining' attention' ⟨⟩
          · rintro since' remaining' attention' ⟨⟩
          · exact fun _ => sentUpTo_send _ _ _
        · constructor
          · exact hpasses.times
          · exact fun _ => hparted
          · rintro since' remaining' attention' ⟨⟩
          · rintro since' remaining' attention' ⟨⟩
          · rintro since' remaining' attention' ⟨⟩
          · rintro ⟨⟩
      | cons mapping remaining => rwa [hphase] at hpasses
    | idle | recording => rwa [hphase] at hpasses
  | record =>
    cases hphase : s.phase with
    | recording =>
      rw [hphase] at hcalm
      exact h.record hsound hphase hcalm
    | idle | counting => rwa [hphase] at hpasses

theorem calm_everyTurn (hsound : Sound tenant s) (h : Calm tenant cadence s) {turns : List Turn}
    (hcalm : EveryTurn tenant cadence (calm tenant cadence) s turns) :
    EveryTurn tenant cadence (seesItsOwn tenant) s turns := by
  induction turns generalizing s with
  | nil => trivial
  | cons t turns ih =>
    have hsees : seesItsOwn tenant s t := calm_sees hsound h
    exact ⟨hsees, ih (step_sound hsound hsees) (calm_step hsound h hcalm.1) hcalm.2⟩

end Calm

theorem calm_reported_once (tenant : DigestTenant) (cadence : DigestCadence) (now : Instant) (turns : List Turn)
    (hcalm : EveryTurn tenant cadence (calm tenant cadence) { now := now } turns) (n : ℕ) :
    ReportedOnce tenant (run tenant cadence { now := now } (turns.take n)) :=
  (run_reported_iff (sound_start tenant now) turns).mpr
    (calm_everyTurn (sound_start tenant now) (calm_start now) hcalm) n

end OpenMigrate.Digest
