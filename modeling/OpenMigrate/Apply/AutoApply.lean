import OpenMigrate.Apply.Recorded

namespace OpenMigrate

open Async Prog PgLedger

variable {T : TargetApi}

def AUTO_APPLY_RELOCATIONS_CAP : ℕ := 50

structure AppliedRelocation where
  naturalKeyHash : String
  kind : RemovalKind
  deriving DecidableEq

/-- The code under which a candidate is left in the queue: a gate of its own, or the manual path's refusal. -/
inductive ReviewCode where
  | capReached
  | notSurvivedPass
  | hashNotUnique
  | refused (code : ApplyRefusal)
  deriving DecidableEq

structure LeftForReview where
  naturalKeyHash : String
  code : ReviewCode
  reason : String
  deriving DecidableEq

structure AutoApplyRelocationsReport where
  enabled : Bool
  considered : ℕ := 0
  applied : List AppliedRelocation := []
  leftForReview : List LeftForReview := []
  stopped : Option String := none
  deriving DecidableEq

/-- The audit row and the receipt are written to tables of their own, apart from the items. -/
structure AutoApplyDeps (T : TargetApi) extends ApplyDeletionDeps T where
  autoApplyRelocations : Bool
  recordAuditEvent : AppliedRelocation → Task T Unit
  onApplied : Option (AppliedRelocation → Task T Unit)
  recordAuditEvent_asks : ∀ a, Emits targetVocabulary (recordAuditEvent a) (fun _ => True)
  onApplied_asks : ∀ f ∈ onApplied, ∀ a, Emits targetVocabulary (f a) (fun _ => True)

def AutoApplyRelocationsReport.apply (report : AutoApplyRelocationsReport) (a : AppliedRelocation) :
    AutoApplyRelocationsReport :=
  { report with applied := report.applied ++ [a] }

def AutoApplyRelocationsReport.leave (report : AutoApplyRelocationsReport) (naturalKeyHash : String)
    (code : ReviewCode) (reason : String) : AutoApplyRelocationsReport :=
  { report with leftForReview := report.leftForReview ++ [⟨naturalKeyHash, code, reason⟩] }

def ApplyDeletionOutcome.reason : ApplyDeletionOutcome → String
  | .refused _ reason => reason
  | .applied _ => ""

def openRelocations (moves : List ItemMove) : List ItemMove :=
  moves.filter (fun m => m.toNaturalKeyHash.isSome && m.acknowledgedAt.isNone)

/-- How many placed items hold each hash. -/
def hashCount (placed : List PlacedItem) (contentHash : String) : ℕ :=
  placed.countP (fun item => item.contentHash == contentHash)

/-- `row?.contentHash ? (hashCount.get(row.contentHash) ?? 0) : 0` -/
def sharers (placed : List PlacedItem) (row : Option LedgerRecord) : ℕ :=
  match row with
  | some r => if r.contentHash = "" then 0 else hashCount placed r.contentHash
  | none => 0

def survivedPass (passStartedAt : Instant) (move : ItemMove) : Bool :=
  match move.recordedAt with
  | some recordedAt => recordedAt < passStartedAt
  | none => false

section AutoApply

variable (deps : AutoApplyDeps T)

/-- The durable attribution of a removal; a failed audit row does not fail the pass, a failed receipt does. -/
def attribution (a : AppliedRelocation) : Task T Unit :=
  let receipt : Task T Unit :=
    match deps.onApplied with
    | some onApplied => onApplied a
    | none => .ret ()
  (deps.recordAuditEvent a).tryWith (fun _ => receipt) (fun _ => receipt)

def autoApplyRelocation (passStartedAt : Instant) (cap : ℕ) (placed : List PlacedItem) (move : ItemMove)
    (report : AutoApplyRelocationsReport) : Task T AutoApplyRelocationsReport :=
  if cap ≤ report.applied.length then
    .ret (report.leave move.naturalKeyHash .capReached
      (s!"This pass already auto-applied {cap} relocations (the per-pass cap). " ++
      "The rest stay in the queue and the next pass continues."))
  else if !survivedPass passStartedAt move then
    .ret (report.leave move.naturalKeyHash .notSurvivedPass
      ("This relocation was recorded during the current pass. Unattended apply waits one " ++
      "further pass so a correlation born of a flaky listing can self-correct first."))
  else
    (Task.ledger (.find deps.scope move.naturalKeyHash)).bind fun row =>
    if sharers placed row ≠ 2 then
      .ret (report.leave move.naturalKeyHash .hashNotUnique
        (s!"{sharers placed row} items in this migration hold these bytes, and unattended apply requires " ++
        "exactly the pair — the pairing is the whole decision when nobody is looking at the " ++
        "paths. Review it in the Moves queue."))
    else
      (applyRelocation deps.toApplyDeletionDeps move.naturalKeyHash).bind fun
        | .applied kind =>
          (attribution deps ⟨move.naturalKeyHash, kind⟩).bind fun _ =>
          .ret (report.apply ⟨move.naturalKeyHash, kind⟩)
        | .refused code reason => .ret (report.leave move.naturalKeyHash (.refused code) reason)

def autoApplyEach (passStartedAt : Instant) (cap : ℕ) (placed : List PlacedItem) :
    List ItemMove → AutoApplyRelocationsReport → Task T AutoApplyRelocationsReport
  | [], report => .ret report
  | move :: moves, report =>
    (autoApplyRelocation deps passStartedAt cap placed move report).bind
      (autoApplyEach passStartedAt cap placed moves)

def autoApplyRelocations (passStartedAt : Instant) (cap : ℕ := AUTO_APPLY_RELOCATIONS_CAP) :
    Task T AutoApplyRelocationsReport :=
  if !deps.autoApplyRelocations then .ret { enabled := false }
  else
    (Task.ledger (.listMoves deps.scope)).bind fun moves =>
    if (openRelocations moves).isEmpty then .ret { enabled := true }
    else
      (firstRefusal (massDeletionCheck deps.toApplyDeletionDeps)
        (massRelocationCheck deps.toApplyDeletionDeps)).bind fun
        | some breaker =>
          .ret { enabled := true, considered := (openRelocations moves).length, stopped := some breaker.reason }
        | none =>
          (Task.ledger (.placedItems deps.scope)).bind fun placed =>
          autoApplyEach deps passStartedAt cap placed (openRelocations moves)
            { enabled := true, considered := (openRelocations moves).length }

end AutoApply

section Relocated

variable {scope : Scope} {keys : List String} {L L' : Ledger}

/-- Some rows were tombstoned, because their bytes are on the target under another key; nothing else changed. -/
structure Relocated (scope : Scope) (keys : List String) (L L' : Ledger) : Prop where
  elsewhere : ∀ key, (∀ k ∈ keys, key ≠ scope.key k) → L'.lookup key = L.lookup key
  there : ∀ k ∈ keys, ∃ row now, row? L scope k = some row ∧ ours row = true ∧
    row? L' scope k = some (applyRelocationValues now row)

theorem Relocated.refl (scope : Scope) (L : Ledger) : Relocated scope [] L L := ⟨fun _ _ => rfl, by simp⟩

theorem Relocated.row (h : Relocated scope keys L L') (k : String) :
    row? L' scope k = row? L scope k ∨ ∃ row now, row? L scope k = some row ∧ ours row = true ∧
      row? L' scope k = some (applyRelocationValues now row) := by
  by_cases hk : k ∈ keys
  · exact .inr (h.there k hk)
  · have hlookup : L'.lookup (scope.key k) = L.lookup (scope.key k) := by
      apply h.elsewhere
      intro k' hk' he
      have hkeys : k = k' := congrArg ItemKey.naturalKeyHash he
      exact hk (hkeys ▸ hk')
    exact .inl (by rw [row?, row?, hlookup])

theorem Relocated.row_of_fresh (h : Relocated scope keys L L') {k : String} (hk : k ∉ keys) :
    row? L' scope k = row? L scope k := by
  have hlookup : L'.lookup (scope.key k) = L.lookup (scope.key k) := by
    apply h.elsewhere
    intro k' hk' he
    have hkeys : k = k' := congrArg ItemKey.naturalKeyHash he
    exact hk (hkeys ▸ hk')
  rw [row?, row?, hlookup]

theorem Relocated.row_of_ours (h : Relocated scope keys L L') {k : String} {row : ItemRow}
    (hrow : row? L' scope k = some row) (hours : ours row = true) : row? L scope k = some row := by
  obtain he | ⟨row', now, -, -, he⟩ := h.row k
  · exact he ▸ hrow
  · rw [hrow] at he
    cases he
    exact absurd hours (by simp [ours, applyRelocationValues])

theorem Relocated.snoc (h : Relocated scope keys L L') {k : String} (hk : k ∉ keys) {row : ItemRow} {now : Instant}
    (hrow : row? L' scope k = some row) (hours : ours row = true) :
    Relocated scope (keys ++ [k]) L (L'.replace (scope.key k) (applyRelocationValues now row)) := by
  obtain ⟨hlookup, hdomain⟩ := (row?_eq_some L').mp hrow
  constructor
  · intro key hne
    have hkey : scope.key k ≠ key := fun he => hne k (by simp) he.symm
    rw [replace_lookup, if_neg hkey]
    exact h.elsewhere key fun k' hk' => hne k' (by simp [hk'])
  · intro k' hk'
    by_cases he : k' = k
    · subst he
      refine ⟨row, now, (h.row_of_fresh hk).symm.trans hrow, hours, ?_⟩
      rw [row?_eq_some, replace_lookup, if_pos rfl, hlookup]
      exact ⟨rfl, hdomain⟩
    · obtain ⟨row', now', hrow', hours', hthere⟩ := h.there k' (by simpa [he] using hk')
      refine ⟨row', now', hrow', hours', ?_⟩
      have hkey : scope.key k ≠ scope.key k' := fun hkeys => he (congrArg ItemKey.naturalKeyHash hkeys).symm
      rw [row?, replace_lookup, if_neg hkey]
      exact hthere

theorem rows_countP_le {p q : ItemRow → Bool} (h : ∀ k row', row? L' scope k = some row' → q row' = true →
    ∃ row, row? L scope k = some row ∧ p row = true) :
    (rows L' scope).countP (fun e => q e.2) ≤ (rows L scope).countP (fun e => p e.2) := by
  have hnodup : (((rows L' scope).filter (fun e => q e.2)).map (·.1)).Nodup :=
    (rows_keys_nodup L' scope).sublist (List.filter_sublist.map _)
  have hsub : ((rows L' scope).filter (fun e => q e.2)).map (·.1) ⊆
      ((rows L scope).filter (fun e => p e.2)).map (·.1) := by
    intro k hk
    obtain ⟨⟨k', row'⟩, hmem, rfl⟩ := List.mem_map.mp hk
    obtain ⟨hin, hq⟩ := List.mem_filter.mp hmem
    obtain ⟨row, hrow, hp⟩ := h k' row' ((mem_rows L').mp hin) hq
    exact List.mem_map.mpr ⟨(k', row), List.mem_filter.mpr ⟨(mem_rows L).mpr hrow, hp⟩, rfl⟩
  have hlen := (List.subperm_of_subset hnodup hsub).length_le
  simpa [List.countP_eq_length_filter] using hlen

def deletionPending (row : ItemRow) : Bool :=
  (0 < row.absentPasses || row.deletionReportedAt.isSome || row.deletionTrashedAt.isSome) &&
    (row.deletionReportedAt.isSome || row.deletionTrashedAt.isSome ||
      decide (DELETION_CONFIRMATIONS ≤ row.absentPasses)) && row.deletionAcknowledgedAt.isNone

def relocationPending (row : ItemRow) : Bool :=
  row.movedToCollection.isSome && (truthy row.movedToNaturalKeyHash).isSome && row.moveAcknowledgedAt.isNone

theorem placedItems_length (L : Ledger) (scope : Scope) :
    (placedItems L scope).length = (rows L scope).countP (fun e => placed e.2) := by
  simp [placedItems, List.countP_eq_length_filter]

theorem hashCount_eq (L : Ledger) (scope : Scope) (contentHash : String) : hashCount (placedItems L scope) contentHash =
    (rows L scope).countP (fun e => placed e.2 && e.2.contentHash == contentHash) := by
  simp [hashCount, placedItems, List.countP_map, List.countP_filter, Function.comp_def, Bool.and_comm]

theorem pendingDeletions_eq (L : Ledger) (scope : Scope) :
    pendingDeletions L scope = (rows L scope).countP (fun e => deletionPending e.2) := by
  rw [pendingDeletions, listDeletions, ← List.countP_eq_length_filter, List.countP_map, List.countP_filter]
  apply List.countP_congr
  intro e _
  simp only [Function.comp_apply, deletionPending, Bool.and_eq_true]
  tauto

theorem pendingRelocations_eq (L : Ledger) (scope : Scope) :
    pendingRelocations L scope = (rows L scope).countP (fun e => relocationPending e.2) := by
  rw [pendingRelocations, listMoves, ← List.countP_eq_length_filter, List.countP_map,
    (List.perm_insertionSort _ _).countP_eq, List.countP_filter]
  apply List.countP_congr
  intro e _
  simp only [Function.comp_apply, relocationPending, Bool.and_eq_true]
  tauto

theorem Relocated.countP_eq {p : ItemRow → Bool} (h : Relocated scope keys L L')
    (hp : ∀ row now, ours row = true → p (applyRelocationValues now row) = p row) :
    (rows L' scope).countP (fun e => p e.2) = (rows L scope).countP (fun e => p e.2) := by
  apply le_antisymm
  · apply rows_countP_le
    intro k row' hrow' hplaced
    obtain he | ⟨row, now, hrow, hown, he⟩ := h.row k
    · exact ⟨row', he ▸ hrow', hplaced⟩
    · rw [hrow'] at he
      cases he
      exact ⟨row, hrow, hp row now hown ▸ hplaced⟩
  · apply rows_countP_le
    intro k row hrow hplaced
    obtain he | ⟨row', now, hrow', hown, he⟩ := h.row k
    · exact ⟨row, he.trans hrow, hplaced⟩
    · rw [hrow] at hrow'
      cases hrow'
      exact ⟨_, he, (hp row now hown).trans hplaced⟩

theorem placed_relocated {row : ItemRow} (now : Instant) (h : ours row = true) : placed (applyRelocationValues now row) = placed row := by
  simp only [ours, Bool.or_eq_true, beq_iff_eq] at h
  obtain hstatus | hstatus := h <;> (simp only [placed, applyRelocationValues, hstatus]; rfl)

theorem Relocated.placed_length (h : Relocated scope keys L L') :
    (placedItems L' scope).length = (placedItems L scope).length := by
  rw [placedItems_length, placedItems_length]
  apply h.countP_eq
  intro row now hours
  exact placed_relocated now hours

theorem Relocated.pending_le (h : Relocated scope keys L L') {p : ItemRow → Bool}
    (hp : ∀ row now, p (applyRelocationValues now row) = false) :
    (rows L' scope).countP (fun e => p e.2) ≤ (rows L scope).countP (fun e => p e.2) := by
  apply rows_countP_le
  intro k row' hrow' hpending
  obtain he | ⟨row, now, hrow, -, he⟩ := h.row k
  · exact ⟨row', he ▸ hrow', hpending⟩
  · rw [hrow'] at he
    cases he
    exact absurd hpending (by simp [hp])

theorem Relocated.breaker (h : Relocated scope keys L L') (hpasses : BreakerPasses L scope) :
    BreakerPasses L' scope := by
  have hdeletions : pendingDeletions L' scope ≤ pendingDeletions L scope := by
    rw [pendingDeletions_eq, pendingDeletions_eq]
    apply h.pending_le
    intro row now
    -- a row with any claim of a deletion is answered for with the relocation
    simp only [deletionPending, applyRelocationValues]
    cases hreported : row.deletionReportedAt <;> cases htrashed : row.deletionTrashedAt <;>
      by_cases habsent : 0 < row.absentPasses <;> simp [habsent]
  have hrelocations : pendingRelocations L' scope ≤ pendingRelocations L scope := by
    rw [pendingRelocations_eq, pendingRelocations_eq]
    apply h.pending_le
    intro row now
    simp [relocationPending, applyRelocationValues]
  unfold BreakerPasses MassPending MASS_DELETION_FRACTION at *
  rw [h.placed_length]
  omega

end Relocated

section Selected

variable {scope : Scope} {L : Ledger}

theorem listMoves_row {move : ItemMove} (h : move ∈ listMoves L scope) :
    ∃ row, row? L scope move.naturalKeyHash = some row ∧ move.toNaturalKeyHash = truthy row.movedToNaturalKeyHash ∧
      move.recordedAt = row.movedRecordedAt ∧ move.acknowledgedAt = row.moveAcknowledgedAt := by
  obtain ⟨⟨k, row⟩, hmem, rfl⟩ := List.mem_map.mp h
  have hrows := (List.mem_filter.mp ((List.mem_insertionSort _).mp hmem)).1
  exact ⟨row, (mem_rows L).mp hrows, rfl, rfl, rfl⟩

theorem openRelocations_nodup (L : Ledger) (scope : Scope) :
    ((openRelocations (listMoves L scope)).map (·.naturalKeyHash)).Nodup := by
  have hmoves : ((listMoves L scope).map (·.naturalKeyHash)).Nodup := by
    rw [listMoves, List.map_map]
    exact (((List.perm_insertionSort _ _).map _).nodup_iff).mpr
      ((rows_keys_nodup L scope).sublist (List.filter_sublist.map _))
  exact hmoves.sublist (List.filter_sublist.map _)

/-- An open relocation that was recorded before the pass began, of bytes that exactly two placed items hold:
where both have a recorded collection, the row that disappeared and its arrival. -/
structure Selected (L : Ledger) (scope : Scope) (passStartedAt : Instant) (move : ItemMove) (arrivalKey : String)
    (row arrival : ItemRow) : Prop where
  listed : move ∈ openRelocations (listMoves L scope)
  survived : ∃ recordedAt, move.recordedAt = some recordedAt ∧ recordedAt < passStartedAt
  departed : row? L scope move.naturalKeyHash = some row
  moved : move.toNaturalKeyHash = some arrivalKey
  arrived : row? L scope arrivalKey = some arrival
  elsewhere : arrivalKey ≠ move.naturalKeyHash
  written : ours row = true ∧ ours arrival = true
  sameBytes : row.contentHash ≠ "" ∧ arrival.contentHash = row.contentHash
  pair : hashCount (placedItems L scope) row.contentHash = 2
  only : row.collection ≠ "" → arrival.collection ≠ "" → ∀ item ∈ placedItems L scope,
    item.contentHash = row.contentHash → item.naturalKeyHash = move.naturalKeyHash ∨ item.naturalKeyHash = arrivalKey

theorem placed_of_ours {row : ItemRow} (hours : ours row = true) (hcollection : row.collection ≠ "") :
    placed row = true := by
  simp only [ours, Bool.or_eq_true, beq_iff_eq] at hours
  obtain hstatus | hstatus := hours <;> (simp only [placed, hstatus, bne_iff_ne, Bool.and_eq_true]; simp [hcollection])

theorem pair_only {key arrivalKey : String} {row arrival : ItemRow} (hrow : row? L scope key = some row)
    (harrival : row? L scope arrivalKey = some arrival) (hne : arrivalKey ≠ key) (hplaced : placed row = true)
    (hplaced' : placed arrival = true) (hsame : arrival.contentHash = row.contentHash)
    (hpair : hashCount (placedItems L scope) row.contentHash = 2) {item : PlacedItem} (hitem : item ∈ placedItems L scope)
    (hbytes : item.contentHash = row.contentHash) : item.naturalKeyHash = key ∨ item.naturalKeyHash = arrivalKey := by
  let holders := ((rows L scope).filter (fun e => placed e.2 && e.2.contentHash == row.contentHash)).map (·.1)
  have hmem : ∀ {k r}, row? L scope k = some r → placed r = true → r.contentHash = row.contentHash → k ∈ holders := by
    intro k r hr hpl hb
    exact List.mem_map.mpr ⟨(k, r), List.mem_filter.mpr ⟨(mem_rows L).mpr hr, by simp [hpl, hb]⟩, rfl⟩
  have hlength : holders.length ≤ [key, arrivalKey].length := by
    rw [hashCount_eq, List.countP_eq_length_filter] at hpair
    simp only [holders, List.length_map, hpair]
    exact le_refl 2
  have hsub : [key, arrivalKey] ⊆ holders := by
    intro k hk
    obtain rfl | hk := List.mem_cons.mp hk
    · exact hmem hrow hplaced rfl
    · obtain rfl := List.mem_singleton.mp hk
      exact hmem harrival hplaced' hsame
  have hperm := (List.subperm_of_subset (by simpa using hne.symm) hsub).perm_of_length_le hlength
  obtain ⟨⟨k, r⟩, hin, rfl⟩ := List.mem_map.mp hitem
  obtain ⟨hr, hpl⟩ := List.mem_filter.mp hin
  simpa using hperm.mem_iff.mpr (hmem ((mem_rows L).mp hr) hpl hbytes)

theorem survivedPass_iff {passStartedAt : Instant} {move : ItemMove} : survivedPass passStartedAt move = true ↔
    ∃ recordedAt, move.recordedAt = some recordedAt ∧ recordedAt < passStartedAt := by
  cases h : move.recordedAt <;> simp [survivedPass, h]

theorem sharers_two {placed : List PlacedItem} {r : LedgerRecord} (h : sharers placed (some r) = 2) :
    hashCount placed r.contentHash = 2 := by
  simp only [sharers] at h
  split_ifs at h
  exact h

variable {deps : ApplyDeletionDeps T} {keys : List String} {L' : Ledger}

theorem Relocated.selected (h : Relocated deps.scope keys L L') {passStartedAt : Instant} {move : ItemMove}
    (hlisted : move ∈ openRelocations (listMoves L deps.scope)) (hfresh : move.naturalKeyHash ∉ keys)
    (hsurvived : survivedPass passStartedAt move = true)
    (hsharers : sharers (placedItems L deps.scope) (find L' deps.scope move.naturalKeyHash) = 2) {r : LedgerRecord}
    (hchecked : RelocationChecked deps L' move.naturalKeyHash r) :
    ∃ arrivalKey row arrival, Selected L deps.scope passStartedAt move arrivalKey row arrival := by
  obtain ⟨row', hrow', rfl⟩ := find_row hchecked.find
  obtain ⟨arrival, arrivalKey, harrived⟩ := hchecked.arrived
  obtain ⟨arrivalRow, harrivalRow, rfl⟩ := find_row harrived.find
  obtain ⟨hstatus, hhash, hsame⟩ := arrivalCheck_none harrived.checked
  have hours' : ours arrivalRow = true := by
    obtain h | h := hstatus <;> simp only [ItemRow.mapRowToRecord, Option.some.injEq] at h <;> simp [ours, h]
  obtain ⟨row, hrow, hto, -, -⟩ := listMoves_row (List.mem_filter.mp hlisted).1
  have hrows : row' = row := by
    rw [h.row_of_fresh hfresh, hrow] at hrow'
    exact (Option.some.inj hrow').symm
  subst hrows
  have hours : ours row' = true := ours_row hchecked.ours
  have harrival := h.row_of_ours harrivalRow hours'
  rw [hchecked.find] at hsharers
  have hpair := sharers_two hsharers
  refine ⟨arrivalKey, row', arrivalRow, hlisted, survivedPass_iff.mp hsurvived, hrow, ?_, harrival, harrived.elsewhere,
    ⟨hours, hours'⟩, ⟨hhash, hsame⟩, hpair, ?_⟩
  · exact hto.trans harrived.moved
  · intro hcollection hcollection' item hitem hbytes
    exact pair_only hrow harrival harrived.elsewhere (placed_of_ours hours hcollection)
      (placed_of_ours hours' hcollection') hsame hpair hitem hbytes

end Selected

section Run

/-- What an apply of a relocation leaves behind, when nobody else writes the ledger. -/
def Relocates (deps : ApplyDeletionDeps T) (L : Ledger) (key : String) :
    Except PassError ApplyDeletionOutcome → World T → Prop
  | .ok (.applied _), t => ∃ row now, RelocationChecked deps L key (row.mapRowToRecord (deps.scope.key key)) ∧
      row? L deps.scope key = some row ∧
      t.1.ledger = L.replace (deps.scope.key key) (applyRelocationValues now row)
  | .ok (.refused code reason), t => t.1.ledger = L ∧
      (BreakerPasses L deps.scope → ¬ (ApplyDeletionOutcome.refused code reason).IsMass)
  | .error _, t => t.1.ledger = L

theorem alone : LedgerToItself (undisturbed T).free := undisturbed_alone.free

theorem applyRelocation_relocates (deps : ApplyDeletionDeps T) (key : String) (s : World T) :
    wp (callSpec (machine T) (undisturbed T).free) (applyRelocation deps key) (Relocates deps s.1.ledger key) s := by
  apply applyRelocation_rule alone key
  · intro o t ht hrefusal hmass
    cases o with
    | applied kind => exact hrefusal.elim
    | refused code reason => exact ⟨ht, hmass⟩
  · exact fun e t ht => ht
  · intro r kind notRecorded t hchecked ht
    apply free_write (P := fun u : World T => u.1.ledger = s.1.ledger) (fun u v hu (hv : _ = _) => hv.trans hu) ht
    · intro u now hu
      obtain ⟨row, hrow, hhit⟩ := relocatable_of_checked hchecked
      obtain ⟨row', hrow', rfl⟩ := find_row hchecked.find
      obtain rfl : row' = row := Option.some.inj (hrow'.symm.trans hrow)
      have hfilter : (row? s.1.ledger deps.scope key).filter (relocatable s.1.ledger deps.scope key) = some row' := by
        simp [hrow, hhit, Option.filter]
      simp only [PgLedger.exec, update, hu, hfilter, Except.mapError, Option.isSome_some]
      exact ⟨row', now, hchecked, hrow, rfl⟩
    · exact fun u reason hu => hu

variable (deps : AutoApplyDeps T) (L : Ledger) (passStartedAt : Instant) (cap : ℕ)

/-- Wherever a call ends: at most the cap were removed, each of them selected in the ledger the call began with. -/
def Removes (keys : List String) (t : World T) : Prop :=
  keys.length ≤ cap ∧ Relocated deps.scope keys L t.1.ledger ∧ ∀ k ∈ keys, ∃ move arrivalKey row arrival,
    move.naturalKeyHash = k ∧ Selected L deps.scope passStartedAt move arrivalKey row arrival

/-- The code of an item that the mass breaker refused. -/
def ReviewCode.IsMass (code : ReviewCode) : Prop :=
  code = .refused .massDeletionSuspected ∨ code = .refused .massRelocationSuspected

/-- A report and the ledger after some of the candidates. -/
structure Reports (moves : List ItemMove) (report : AutoApplyRelocationsReport) (t : World T) : Prop where
  removes : Removes deps L passStartedAt cap (report.applied.map (·.naturalKeyHash)) t
  fresh : ∀ move ∈ moves, move.naturalKeyHash ∉ report.applied.map (·.naturalKeyHash)
  total : report.considered = report.applied.length + report.leftForReview.length + moves.length
  calm : ∀ item ∈ report.leftForReview, ¬ item.code.IsMass
  going : report.stopped = none

variable {deps L passStartedAt cap}

theorem Removes.congr {keys : List String} {s t : World T} (h : Removes deps L passStartedAt cap keys s)
    (ht : t.1.ledger = s.1.ledger) : Removes deps L passStartedAt cap keys t := ⟨h.1, ht ▸ h.2.1, h.2.2⟩

theorem Reports.congr {moves : List ItemMove} {report : AutoApplyRelocationsReport} {s t : World T}
    (h : Reports deps L passStartedAt cap moves report s) (ht : t.1.ledger = s.1.ledger) :
    Reports deps L passStartedAt cap moves report t :=
  { h with removes := h.removes.congr ht }

theorem Reports.leave {move : ItemMove} {moves : List ItemMove} {report : AutoApplyRelocationsReport} {s : World T}
    (h : Reports deps L passStartedAt cap (move :: moves) report s) {code : ReviewCode} (reason : String)
    (hcode : ¬ code.IsMass) :
    Reports deps L passStartedAt cap moves (report.leave move.naturalKeyHash code reason) s where
  removes := h.removes
  fresh m hm := h.fresh m (List.mem_cons_of_mem move hm)
  total := by
    have htotal := h.total
    simp only [AutoApplyRelocationsReport.leave, List.length_append, List.length_cons, List.length_nil] at htotal ⊢
    omega
  calm := by
    intro item hitem
    obtain hitem | hitem := List.mem_append.mp hitem
    · exact h.calm item hitem
    · obtain rfl := List.mem_singleton.mp hitem
      exact hcode
  going := h.going

theorem Reports.apply {move : ItemMove} {moves : List ItemMove} {report : AutoApplyRelocationsReport} {s t : World T}
    (h : Reports deps L passStartedAt cap (move :: moves) report s) (hcap : report.applied.length < cap)
    (hmoves : ∀ m ∈ moves, m.naturalKeyHash ≠ move.naturalKeyHash) {row arrival : ItemRow} {arrivalKey : String}
    {now : Instant} (hselected : Selected L deps.scope passStartedAt move arrivalKey row arrival)
    (ht : t.1.ledger = s.1.ledger.replace (deps.scope.key move.naturalKeyHash) (applyRelocationValues now row))
    (kind : RemovalKind) :
    Reports deps L passStartedAt cap moves (report.apply ⟨move.naturalKeyHash, kind⟩) t := by
  have hfresh := h.fresh move List.mem_cons_self
  have hkeys : (report.apply ⟨move.naturalKeyHash, kind⟩).applied.map (·.naturalKeyHash) =
      report.applied.map (·.naturalKeyHash) ++ [move.naturalKeyHash] := by
    simp [AutoApplyRelocationsReport.apply]
  have hrow : row? s.1.ledger deps.scope move.naturalKeyHash = some row :=
    (h.removes.2.1.row_of_fresh hfresh).trans hselected.departed
  constructor
  · rw [hkeys, Removes]
    refine ⟨?_, ?_, ?_⟩
    · simpa using Nat.succ_le_of_lt hcap
    · rw [ht]
      exact h.removes.2.1.snoc hfresh hrow hselected.written.1
    · intro k hk
      obtain hk | hk := List.mem_append.mp hk
      · exact h.removes.2.2 k hk
      · obtain rfl := List.mem_singleton.mp hk
        exact ⟨move, arrivalKey, row, arrival, rfl, hselected⟩
  · intro m hm
    rw [hkeys]
    have hne := hmoves m hm
    have hold := h.fresh m (List.mem_cons_of_mem move hm)
    simpa [hne] using hold
  · have htotal := h.total
    simp only [AutoApplyRelocationsReport.apply, List.length_append, List.length_cons, List.length_nil] at htotal ⊢
    omega
  · exact h.calm
  · exact h.going

theorem attribution_asks (a : AppliedRelocation) : Emits targetVocabulary (attribution deps a) (fun _ => True) := by
  have hreceipt : Emits targetVocabulary (match deps.onApplied with | some onApplied => onApplied a | none => .ret ())
      (fun _ => True) := by
    cases hon : deps.onApplied with
    | none => trivial
    | some onApplied => exact deps.onApplied_asks onApplied hon a
  exact Emits.attempt (deps.recordAuditEvent_asks a) (fun _ => hreceipt) (fun _ => hreceipt)

/-- The run has an end in a report, or in an exception with some candidates carried out. -/
def Continues (deps : AutoApplyDeps T) (L : Ledger) (passStartedAt : Instant) (cap : ℕ) (moves : List ItemMove) :
    Except PassError AutoApplyRelocationsReport → World T → Prop
  | .ok report, t => Reports deps L passStartedAt cap moves report t
  | .error _, t => ∃ keys, Removes deps L passStartedAt cap keys t

theorem autoApplyRelocation_wp (hbreaker : BreakerPasses L deps.scope) {move : ItemMove} {moves : List ItemMove}
    (hlisted : move ∈ openRelocations (listMoves L deps.scope))
    (hmoves : ∀ m ∈ moves, m.naturalKeyHash ≠ move.naturalKeyHash) {report : AutoApplyRelocationsReport} {s : World T}
    (h : Reports deps L passStartedAt cap (move :: moves) report s) :
    wp (callSpec (machine T) (undisturbed T).free)
      (autoApplyRelocation deps passStartedAt cap (placedItems L deps.scope) move report)
      (Continues deps L passStartedAt cap moves) s := by
  unfold autoApplyRelocation
  split
  · exact h.leave _ (by simp [ReviewCode.IsMass])
  rename_i hcap
  split
  · exact h.leave _ (by simp [ReviewCode.IsMass])
  rename_i hsurvived
  have hstable : ∀ u v : World T, u.1.ledger = s.1.ledger → (undisturbed T).rely u v → v.1.ledger = s.1.ledger :=
    fun u v hu (hv : _ = _) => hv.trans hu
  apply wp_seq
  apply free_find (P := fun u : World T => u.1.ledger = s.1.ledger) hstable rfl
  · intro t ht
    change wp _ (if _ then _ else _) _ t
    split
    · exact (h.congr ht).leave _ (by simp [ReviewCode.IsMass])
    · rename_i hsharers
      refine wp_seq (wp_mono (callSpec_mono _ _) _ _ _ ?_ t
        (applyRelocation_relocates deps.toApplyDeletionDeps move.naturalKeyHash t))
      intro r u hr
      match r, hr with
      | .error e, hr => exact ⟨_, (h.removes.congr ht).congr hr⟩
      | .ok (.refused code reason), ⟨hu, hmass⟩ =>
        have hpasses : BreakerPasses t.1.ledger deps.scope := ht ▸ h.removes.2.1.breaker hbreaker
        have hcode := hmass hpasses
        exact ((h.congr ht).congr hu).leave _ (by simpa [ReviewCode.IsMass, ApplyDeletionOutcome.IsMass] using hcode)
      | .ok (.applied kind), ⟨row, now, hchecked, hrow, hu⟩ =>
        rw [ht] at hsharers hchecked hrow hu
        obtain ⟨arrivalKey, row', arrival, hselected⟩ := h.removes.2.1.selected hlisted (h.fresh move List.mem_cons_self)
          (by simpa using hsurvived) (by simpa using hsharers) hchecked
        obtain rfl : row' = row := by
          have hsame := (h.removes.2.1.row_of_fresh (h.fresh move List.mem_cons_self)).symm.trans hrow
          exact Option.some.inj (hselected.departed.symm.trans hsame)
        refine wp_seq (target_wp alone (attribution_asks _) fun r v hv => ?_)
        have happlied : Reports deps L passStartedAt cap moves (report.apply ⟨move.naturalKeyHash, kind⟩) v :=
          h.apply (by omega) hmoves hselected (hv.trans hu) kind
        cases r with
        | error e => exact ⟨_, happlied.removes⟩
        | ok _ => exact happlied
  · exact fun t reason ht => ⟨_, h.removes.congr ht⟩

theorem autoApplyEach_wp (hbreaker : BreakerPasses L deps.scope) {moves : List ItemMove}
    (hlisted : ∀ move ∈ moves, move ∈ openRelocations (listMoves L deps.scope))
    (hnodup : (moves.map (·.naturalKeyHash)).Nodup) {report : AutoApplyRelocationsReport} {s : World T}
    (h : Reports deps L passStartedAt cap moves report s) :
    wp (callSpec (machine T) (undisturbed T).free)
      (autoApplyEach deps passStartedAt cap (placedItems L deps.scope) moves report)
      (Continues deps L passStartedAt cap []) s := by
  induction moves generalizing report s with
  | nil => exact h
  | cons move moves ih =>
    rw [List.map_cons, List.nodup_cons] at hnodup
    have hmoves : ∀ m ∈ moves, m.naturalKeyHash ≠ move.naturalKeyHash :=
      fun m hm he => hnodup.1 (List.mem_map.mpr ⟨m, hm, he⟩)
    refine wp_seq (wp_mono (callSpec_mono _ _) _ _ _ ?_ s
      (autoApplyRelocation_wp hbreaker (hlisted move List.mem_cons_self) hmoves h))
    intro r t hr
    cases r with
    | error e => exact hr
    | ok report' => exact ih (fun m hm => hlisted m (List.mem_cons_of_mem move hm)) hnodup.2 hr

/-- How a call ends: in a report, or in an exception that leaves some candidates carried out. -/
def Ends (deps : AutoApplyDeps T) (L : Ledger) (passStartedAt : Instant) (cap : ℕ)
    (r : Except PassError AutoApplyRelocationsReport) (t : World T) : Prop :=
  ∃ keys, Removes deps L passStartedAt cap keys t ∧ ∀ report, r = .ok report →
    report.applied.map (·.naturalKeyHash) = keys ∧
    (report.stopped = none → report.considered = report.applied.length + report.leftForReview.length) ∧
    (BreakerPasses L deps.scope → report.stopped = none) ∧ ∀ item ∈ report.leftForReview, ¬ item.code.IsMass

theorem Removes.none {t : World T} (ht : t.1.ledger = L) : Removes deps L passStartedAt cap [] t := by
  refine ⟨Nat.zero_le cap, ?_, by simp⟩
  rw [ht]
  exact Relocated.refl deps.scope L

theorem Continues.ends {r : Except PassError AutoApplyRelocationsReport} {t : World T}
    (h : Continues deps L passStartedAt cap [] r t) : Ends deps L passStartedAt cap r t := by
  cases r with
  | error e =>
    obtain ⟨keys, hremoves⟩ := h
    refine ⟨keys, hremoves, ?_⟩
    rintro report ⟨⟩
  | ok report =>
    refine ⟨_, h.removes, ?_⟩
    rintro report' ⟨⟩
    exact ⟨rfl, fun _ => h.total, fun _ => h.going, h.calm⟩

theorem autoApplyRelocations_wp (deps : AutoApplyDeps T) (passStartedAt : Instant) (cap : ℕ) (s : World T) :
    wp (callSpec (machine T) (undisturbed T).free) (autoApplyRelocations deps passStartedAt cap)
      (Ends deps s.1.ledger passStartedAt cap) s := by
  have hstable : ∀ u v : World T, u.1.ledger = s.1.ledger → (undisturbed T).rely u v → v.1.ledger = s.1.ledger :=
    fun u v hu (hv : _ = _) => hv.trans hu
  have herror : ∀ e t, t.1.ledger = s.1.ledger → Ends deps s.1.ledger passStartedAt cap (.error e) t := by
    intro e t ht
    refine ⟨[], Removes.none ht, ?_⟩
    rintro report ⟨⟩
  unfold autoApplyRelocations
  split
  · exact ⟨[], Removes.none rfl, by rintro report ⟨⟩; simp⟩
  apply wp_seq
  apply free_read (P := fun u : World T => u.1.ledger = s.1.ledger) hstable rfl (.listMoves deps.scope) (fun _ _ => rfl)
  · intro t ht
    change wp _ (if _ then _ else _) _ t
    rw [ht]
    split
    · exact ⟨[], Removes.none ht, by rintro report ⟨⟩; simp⟩
    -- the breaker, read once off the ledger the call began with
    obtain ⟨verdict, hverdict, -, hbreaker⟩ := breaker_reads deps.toApplyDeletionDeps s.1.ledger
    refine wp_seq (wp_afterReads alone (Raises.firstRefusal (Raises.massDeletionCheck _) (Raises.massRelocationCheck _))
      (fun e u hu => herror e u (hu.trans ht)) fun u hu => ?_)
    rw [ht, hverdict]
    cases verdict with
    | some refusal =>
      refine ⟨[], Removes.none (hu.trans ht), ?_⟩
      rintro report ⟨⟩
      exact ⟨rfl, fun h => absurd h (Option.some_ne_none _),
        fun hpasses => absurd (hbreaker.mpr hpasses) (Option.some_ne_none refusal), by simp⟩
    | none =>
      apply wp_seq
      apply free_read (P := fun v : World T => v.1.ledger = s.1.ledger) hstable (hu.trans ht) (.placedItems deps.scope)
        (fun _ _ => rfl)
      · intro v hv
        change wp _ (autoApplyEach deps passStartedAt cap (placedItems v.1.ledger deps.scope) _ _) _ v
        rw [hv]
        refine wp_mono (callSpec_mono _ _) _ _ _ (fun r x hr => hr.ends) v
          (autoApplyEach_wp (hbreaker.mp rfl) (fun _ hm => hm) (openRelocations_nodup _ _) ?_)
        exact ⟨Removes.none hv, by simp, by simp, by simp, rfl⟩
      · exact fun v reason hv => herror _ v hv
  · exact fun t reason ht => herror _ t ht

namespace Sample

def drive : Scope := ⟨"t", "m", .file⟩

def holder (collection : String) (movedTo : Option String) : ItemRow :=
  { domain := .file, collection := collection, contentHash := "bytes", sizeBytes := none, status := .copied,
    targetRef := collection, sourceVersion := none, targetVersion := none, sourceRefHref := none,
    movedToCollection := movedTo.map (fun _ => "New"), movedToNaturalKeyHash := movedTo
    movedRecordedAt := movedTo.map (fun _ => 1) }

/-- A file that moved from `a` to `b`. -/
def relocatedPair : Ledger :=
  AList.insert (drive.key "a") (holder "Old" (some "b")) (AList.insert (drive.key "b") (holder "New" none) ∅)

/-- The arrival's row has no recorded collection, and a third row holds the same bytes. -/
def thirdHolder : Ledger :=
  AList.insert (drive.key "a") (holder "Old" (some "b")) (AList.insert (drive.key "b") (holder "" none)
    (AList.insert (drive.key "c") (holder "Other" none) ∅))

def autoDeps : AutoApplyDeps portApi where
  toApplyDeletionDeps := portDeps drive true none true
  autoApplyRelocations := true
  recordAuditEvent _ := .ret ()
  onApplied := none
  recordAuditEvent_asks _ := trivial
  onApplied_asks := by simp

def autoRun (L : Ledger) : Conf (Cmd portApi) Cmd.Resp PassError AutoApplyRelocationsReport × World portApi :=
  (machine portApi).run
    (.seq (Main.lift (autoApplyRelocations autoDeps 5)), (⟨L, ∅, ()⟩, PassState.fresh portApi))
    (List.replicate 16 (.run 0 ⟨7, none, (.ok { kind := some .deleted }, .ok true)⟩))

def appliedA : AutoApplyRelocationsReport := { enabled := true, considered := 1, applied := [⟨"a", .deleted⟩] }

end Sample

end Run

end OpenMigrate
