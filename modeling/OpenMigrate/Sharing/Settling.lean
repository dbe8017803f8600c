import OpenMigrate.Sharing.Queue

namespace OpenMigrate.Sharing

open Async

abbrev World := List Caller × Queue

def Queue.rows (queue : Queue) : List ShareGrantRow := Cells.rows queue.cells

/-- What may become of a row: its grant stays, and once it is settled only the time of the last scan changes. -/
structure Follows (row row' : ShareGrantRow) : Prop where
  id : row'.id = row.id
  grant : row'.toShareGrant = row.toShareGrant
  settled : row.state ≠ .opened → row' = row.touch row'.scannedAt

/-- The row is settled as this call has asked; where the call applies it, behind its gates and with its share made. -/
def SettledBy (requests : List Request) (shares : List (ℕ × ℕ)) (row : ShareGrantRow) (j : ℕ) : Prop :=
  ∃ request decision before now, requests[j]? = some request ∧ request.grantId = some row.id ∧
    request.decision = some decision ∧ before.state = .opened ∧
    row = (ShareGrantRow.settle before decision now).touch row.scannedAt ∧
    ∀ deps grantId, request = .apply deps grantId → deps.gate row = none ∧ (j, row.id) ∈ shares

/-- What the answer of a call that has made a share says of its row. -/
def Answer.Tells (rows : List ShareGrantRow) (grantId : ℕ) : Answer → Prop
  | settled row => row.id = grantId
  | refused code _ =>
    code = "target_refused" ∨ code = "already_settled" ∧ ∃ row ∈ rows, row.id = grantId ∧ row.state ≠ .opened
  | refreshed .. => False

def Stage.running : Stage → Bool
  | returned _ | dead => false
  | _ => true

/-- The row that a call has settled and answers with, unless its transaction was aborted. -/
def Caller.got (caller : Caller) : Option ShareGrantRow :=
  match caller.aborted, caller.stage with
  | false, .returned (.ok (.settled row)) => some row
  | _, _ => none

variable (sha256Hex : String → String) (edition : Edition)

/-- What a state of a run and a later one show of the queue. -/
structure SettledOnce (table : ShareTable) (requests : List Request) (x y : World) : Prop where
  ids : (y.2.rows.map (·.id)).Nodup
  hashes : (y.2.rows.map (·.grantHash)).Nodup
  kept : Cells.Later Follows x.2.rows y.2.rows
  settled : ∀ row ∈ y.2.rows, row.state ≠ .opened →
    (∃ row₀ ∈ table.rows, row₀.state ≠ .opened ∧ Follows row₀ row) ∨ ∃ j, SettledBy requests y.2.shares row j
  answered : ∀ (j : ℕ) (call : Caller) row, y.1[j]? = some call → call.got = some row →
    SettledBy requests y.2.shares row j ∧ (∃ row' ∈ y.2.rows, Follows row row') ∧
      ∀ (k : ℕ) (other : Caller) row', y.1[k]? = some other → other.got = some row' → row'.id = row.id → k = j
  refreshed : ∀ (j : ℕ) (call : Caller) opened blindSpots, y.1[j]? = some call →
    call.stage = .returned (.ok (.refreshed opened blindSpots)) →
    ∃ scans grants, requests[j]? = some (.refresh scans) ∧ gather sha256Hex scans = .ok (grants, blindSpots) ∧
      ∀ grant ∈ grants, ∃ row ∈ y.2.rows, row.grantHash = grant.grantHash
  oneShare : (y.2.shares.map Prod.fst).Nodup
  shares : ∀ share ∈ y.2.shares, ∃ deps, requests[share.1]? = some (.apply deps share.2) ∧
    (∃ row ∈ y.2.rows, row.id = share.2 ∧ deps.gate row = none) ∧
    ∀ call answer, y.1[share.1]? = some call → call.stage = .returned (.ok answer) → answer.Tells y.2.rows share.2
  locks : ∀ c ∈ y.2.cells, ∀ j ∈ c.holder, ∃ call, y.1[j]? = some call ∧ call.stage.running = true

section Rows

variable {row row' row'' : ShareGrantRow} {decision : Decision} {now : Instant}

theorem Follows.refl (row : ShareGrantRow) : Follows row row := ⟨rfl, rfl, fun _ => rfl⟩

theorem Follows.touch (row : ShareGrantRow) (now : Instant) : Follows row (row.touch now) := ⟨rfl, rfl, fun _ => rfl⟩

theorem Follows.settle (h : row.state = .opened) (decision : Decision) (now : Instant) :
    Follows row (row.settle decision now) := ⟨rfl, rfl, fun hsettled => absurd h hsettled⟩

theorem Follows.state (h : Follows row row') (hrow : row.state ≠ .opened) : row'.state = row.state := by
  rw [h.settled hrow]
  rfl

theorem Follows.trans (h : Follows row row') (h' : Follows row' row'') : Follows row row'' := by
  refine ⟨h'.id.trans h.id, h'.grant.trans h.grant, fun hrow => ?_⟩
  have hrow' : row'.state ≠ .opened := by rwa [h.state hrow]
  have hlast := h'.settled hrow'
  rw [h.settled hrow] at hlast
  exact hlast

theorem Follows.hash (h : Follows row row') : row.grantHash = row'.grantHash :=
  congrArg ShareGrant.grantHash h.grant.symm

theorem gate_congr (h : row'.toShareGrant = row.toShareGrant) (deps : ApplyShareDeps) : deps.gate row' =
    deps.gate row := by
  unfold ApplyShareDeps.gate
  rw [h]

theorem state_settle (row : ShareGrantRow) (decision : Decision) (now : Instant) :
    (row.settle decision now).state ≠ .opened :=
  decision.settles

theorem SettledBy.settled {requests : List Request} {shares : List (ℕ × ℕ)} {j : ℕ}
    (h : SettledBy requests shares row j) :
    row.state ≠ .opened := by
  obtain ⟨-, decision, before, now, -, -, -, -, hrow, -⟩ := h
  rw [hrow]
  exact decision.settles

theorem SettledBy.follows {requests : List Request} {shares : List (ℕ × ℕ)} {j : ℕ}
    (h : SettledBy requests shares row j) (hrow : Follows row row') : SettledBy requests shares row' j := by
  have heq := hrow.settled h.settled
  obtain ⟨request, decision, before, now, hrequest, hid, hdecision, hopen, hsettle, happly⟩ := h
  refine ⟨request, decision, before, now, hrequest, by rw [hid, hrow.id], hdecision, hopen, ?_, ?_⟩
  · rw [heq]
    rw [hsettle]
    rfl
  · intro deps grantId hdeps
    rw [gate_congr hrow.grant, hrow.id]
    exact happly deps grantId hdeps

theorem SettledBy.mono {requests : List Request} {shares shares' : List (ℕ × ℕ)} {j : ℕ}
    (h : SettledBy requests shares row j)
    (hsub : shares ⊆ shares') : SettledBy requests shares' row j := by
  obtain ⟨request, decision, before, now, hrequest, hid, hdecision, hopen, hsettle, happly⟩ := h
  exact ⟨request, decision, before, now, hrequest, hid, hdecision, hopen, hsettle,
    fun deps grantId hdeps => ⟨(happly deps grantId hdeps).1, hsub (happly deps grantId hdeps).2⟩⟩

end Rows

section Cells

variable {table : ShareTable} {requests : List Request} {queue queue' queue'' : Queue} {session : ℕ}
  {row : ShareGrantRow} {shares : List (ℕ × ℕ)}

/-- A row is open, or was settled before the run, or a call of the run has settled it. -/
def Explained (table : ShareTable) (requests : List Request) (shares : List (ℕ × ℕ)) (row : ShareGrantRow) : Prop :=
  row.state = .opened ∨ (∃ row₀ ∈ table.rows, row₀.state ≠ .opened ∧ Follows row₀ row) ∨
    ∃ j, SettledBy requests shares row j

theorem Explained.touch (h : Explained table requests shares row) (now : Instant) :
    Explained table requests shares (row.touch now) := by
  obtain hopen | ⟨row₀, hrow₀, hsettled, hfollows⟩ | ⟨j, hj⟩ := h
  · exact .inl hopen
  · exact .inr (.inl ⟨row₀, hrow₀, hsettled, hfollows.trans (.touch row now)⟩)
  · exact .inr (.inr ⟨j, hj.follows (.touch row now)⟩)

theorem Explained.mono (h : Explained table requests shares row) {shares' : List (ℕ × ℕ)} (hsub : shares ⊆ shares') :
    Explained table requests shares' row := by
  obtain hopen | hbefore | ⟨j, hj⟩ := h
  · exact .inl hopen
  · exact .inr (.inl hbefore)
  · exact .inr (.inr ⟨j, hj.mono hsub⟩)

/-- The cells of a table whose keys are kept and whose versions are all accounted for. -/
structure Sound (table : ShareTable) (requests : List Request) (queue : Queue) : Prop where
  ids : (queue.cells.map fun c => c.base.id).Nodup
  hashes : (queue.cells.map fun c => c.base.grantHash).Nodup
  follows : ∀ c ∈ queue.cells, Follows c.base c.latest
  base : ∀ c ∈ queue.cells, Explained table requests queue.shares c.base
  latest : ∀ c ∈ queue.cells, Explained table requests queue.shares c.latest

/-- What a statement of one session leaves to the others. -/
structure Moves (session : ℕ) (queue queue' : Queue) : Prop where
  rows : Cells.Later Follows queue.rows queue'.rows
  shares : queue.shares ⊆ queue'.shares
  held : ∀ c ∈ queue.cells, ∀ k ∈ c.holder, k ≠ session → c ∈ queue'.cells
  others : ∀ c ∈ queue'.cells, ∀ k ∈ c.holder, k ≠ session → c ∈ queue.cells

/-- The session holds no lock. -/
def Queue.Free (queue : Queue) (session : ℕ) : Prop := ∀ c ∈ queue.cells, c.holder ≠ some session

theorem later_refl (rows : List ShareGrantRow) : Cells.Later Follows rows rows := fun row hrow => ⟨row, hrow, .refl row⟩

theorem Moves.refl (session : ℕ) (queue : Queue) : Moves session queue queue :=
  ⟨later_refl _, fun _ h => h, fun _ hc _ _ _ => hc, fun _ hc _ _ _ => hc⟩

theorem Moves.trans (h : Moves session queue queue') (h' : Moves session queue' queue'') :
    Moves session queue queue'' := by
  constructor
  · intro row hrow
    obtain ⟨row', hrow', hfollows⟩ := h.rows row hrow
    obtain ⟨row'', hrow'', hfollows'⟩ := h'.rows row' hrow'
    exact ⟨row'', hrow'', hfollows.trans hfollows'⟩
  · exact fun share hshare => h'.shares (h.shares hshare)
  · intro c hc k hk hne
    exact h'.held c (h.held c hc k hk hne) k hk hne
  · intro c hc k hk hne
    exact h.others c (h'.others c hc k hk hne) k hk hne

theorem id_base {row row' : ShareGrantRow} (h : Follows row row') : row.id = row'.id := h.id.symm

theorem commit_sound (h : Sound table requests queue) (session : ℕ) : Sound table requests (queue.commit session) := by
  constructor
  · exact Cells.nodup_commit (·.id) (fun _ _ => id_base) h.follows h.ids
  · exact Cells.nodup_commit (·.grantHash) (fun _ _ => Follows.hash) h.follows h.hashes
  all_goals
    intro c' hc'
    obtain ⟨c, hc, rfl⟩ := List.mem_map.mp hc'
    unfold Cell.commit
    split
  · exact .refl _
  · exact h.follows c hc
  · exact h.latest c hc
  · exact h.base c hc
  · exact h.latest c hc
  · exact h.latest c hc

theorem commit_moves (h : Sound table requests queue) (session : ℕ) : Moves session queue (queue.commit session) := by
  constructor
  · exact Cells.later_commit Follows.refl h.follows
  · exact fun _ hshare => hshare
  · intro c hc k hk hne
    have hother : c.holder ≠ some session := by
      rw [hk]
      exact fun heq => hne (Option.some.inj heq)
    rw [← Cell.commit_other hother]
    exact List.mem_map_of_mem hc
  · intro c' hc' k hk hne
    obtain ⟨c, hc, rfl⟩ := List.mem_map.mp hc'
    obtain ⟨hk, -⟩ := c.holder_commit.mp hk
    have hother : c.holder ≠ some session := by
      rw [hk]
      exact fun heq => hne (Option.some.inj heq)
    rwa [Cell.commit_other hother]

theorem commit_free (queue : Queue) (session : ℕ) : (queue.commit session).Free session := by
  intro c hc hholder
  obtain ⟨c, hc, rfl⟩ := List.mem_map.mp hc
  exact (c.holder_commit.mp hholder).2 rfl

theorem rollback_sound (h : Sound table requests queue) (session : ℕ) : Sound table requests
    (queue.rollback session) := by
  constructor
  · exact h.ids.sublist (Cells.keys_rollback ShareGrantRow.id)
  · exact h.hashes.sublist (Cells.keys_rollback fun row : ShareGrantRow => row.grantHash)
  all_goals
    intro c hc
    obtain ⟨c', hc', hrollback⟩ := List.mem_filterMap.mp hc
    obtain ⟨rfl, -⟩ | ⟨-, row, written, rfl, rfl⟩ := Cell.rollback_cases hrollback
  · exact h.follows _ hc'
  · exact .refl row
  · exact h.base _ hc'
  · exact h.base (.kept row written) hc'
  · exact h.latest _ hc'
  · exact h.base (.kept row written) hc'

theorem rollback_other {c : Cell ShareGrantRow} {k : ℕ} (hk : c.holder = some k) (hne : k ≠ session) :
    c.rollback session = some c := by
  cases c with
  | inserted owner row =>
    obtain rfl := Option.some.inj hk
    exact if_neg hne
  | kept row written =>
    obtain ⟨w, rfl, rfl⟩ := Option.map_eq_some_iff.mp hk
    simp [Cell.rollback, Option.filter, hne]

theorem rollback_moves (queue : Queue) (session : ℕ) : Moves session queue (queue.rollback session) := by
  constructor
  · rw [Queue.rows, Queue.rows, Queue.rollback, Cells.rows_rollback]
    exact later_refl _
  · exact fun _ hshare => hshare
  · intro c hc k hk hne
    exact List.mem_filterMap.mpr ⟨c, hc, rollback_other hk hne⟩
  · intro c hc k hk hne
    obtain ⟨c', hc', hrollback⟩ := List.mem_filterMap.mp hc
    obtain ⟨rfl, -⟩ | ⟨-, row, written, rfl, rfl⟩ := Cell.rollback_cases hrollback
    · exact hc'
    · cases hk

theorem rollback_free (queue : Queue) (session : ℕ) : (queue.rollback session).Free session := by
  intro c hc hholder
  obtain ⟨c', hc', hrollback⟩ := List.mem_filterMap.mp hc
  obtain ⟨rfl, hne⟩ | ⟨-, row, written, rfl, rfl⟩ := Cell.rollback_cases hrollback
  · exact hne hholder
  · cases hholder

def Queue.with (queue : Queue) (cells : List (Cell ShareGrantRow)) : Queue := { queue with cells := cells }

theorem heldByOther_of {c : Cell ShareGrantRow} {k : ℕ} (hk : c.holder = some k) (hne : k ≠ session) :
    c.heldByOther session = true := by
  simp [Cell.heldByOther, hk, hne]

section Writing

variable {p : Cell ShareGrantRow → Bool} {f : ShareGrantRow → ShareGrantRow}

theorem write_sound (h : Sound table requests queue)
    (hf : ∀ c ∈ queue.cells, p c = true → Follows c.latest (f c.latest) ∧ Explained table requests queue.shares
      (f c.latest)) :
    Sound table requests (queue.with (Cells.writeAt queue.cells session p f)) := by
  constructor
  · exact Cells.nodup_writeAt (·.id) (fun _ _ => id_base) (fun c hc hp => (hf c hc hp).1) h.ids
  · exact Cells.nodup_writeAt (·.grantHash) (fun _ _ => Follows.hash) (fun c hc hp => (hf c hc hp).1) h.hashes
  all_goals
    intro c' hc'
    obtain ⟨c, hc, rfl⟩ := List.mem_map.mp hc'
    split
  · rename_i hp
    cases c with
    | inserted owner row => exact .refl _
    | kept row written => exact (h.follows _ hc).trans (hf _ hc hp).1
  · exact h.follows c hc
  · rename_i hp
    cases c with
    | inserted owner row => exact (hf _ hc hp).2
    | kept row written => exact h.base (.kept row written) hc
  · exact h.base c hc
  · rename_i hp
    rw [Cell.latest_write]
    exact (hf c hc hp).2
  · exact h.latest c hc

theorem write_moves (hfree : ∀ c ∈ queue.cells, p c = true → c.heldByOther session = false) :
    Moves session queue (queue.with (Cells.writeAt queue.cells session p f)) := by
  constructor
  · rw [Queue.rows, Queue.rows, Queue.with, Cells.rows_writeAt]
    exact later_refl _
  · exact fun _ hshare => hshare
  · intro c hc k hk hne
    have hp : p c ≠ true := by
      intro hp
      have hother := heldByOther_of hk hne
      rw [hfree c hc hp] at hother
      cases hother
    exact List.mem_map.mpr ⟨c, hc, if_neg hp⟩
  · intro c' hc' k hk hne
    obtain ⟨c, hc, rfl⟩ := List.mem_map.mp hc'
    by_cases hp : p c = true
    · rw [if_pos hp, Cell.holder_write c f (hfree c hc hp)] at hk
      exact absurd (Option.some.inj hk).symm hne
    · rwa [if_neg hp]

end Writing

theorem lt_freshId {cells : List (Cell ShareGrantRow)} {c : Cell ShareGrantRow} (h : c ∈ cells) :
    c.base.id < freshId cells := by
  induction cells with
  | nil => cases h
  | cons first rest ih =>
    have hfresh : freshId (first :: rest) = max first.base.id (freshId rest - 1) + 1 := rfl
    obtain rfl | h := List.mem_cons.mp h
    · omega
    · have hrest := ih h
      omega

theorem nodup_snoc {κ : Type} {key : Cell ShareGrantRow → κ} {cells : List (Cell ShareGrantRow)}
    {c : Cell ShareGrantRow}
    (h : (cells.map key).Nodup) (hnew : ∀ c' ∈ cells, key c' ≠ key c) : ((cells ++ [c]).map key).Nodup := by
  rw [List.map_append, List.nodup_append]
  refine ⟨h, List.nodup_singleton _, ?_⟩
  rintro k hk k' hk' rfl
  obtain ⟨c', hc', rfl⟩ := List.mem_map.mp hk
  exact hnew c' hc' (List.mem_singleton.mp hk')

theorem insert_sound (h : Sound table requests queue) (grant : ShareGrant) (now : Instant)
    (hnew : ∀ c ∈ queue.cells, c.base.grantHash ≠ grant.grantHash) :
    Sound table requests
      (queue.with (queue.cells ++ [.inserted session (grant.row (freshId queue.cells) now)])) := by
  have hold : ∀ {P : Cell ShareGrantRow → Prop}, (∀ c ∈ queue.cells, P c) →
      P (.inserted session (grant.row (freshId queue.cells) now)) →
      ∀ c ∈ queue.cells ++ [.inserted session (grant.row (freshId queue.cells) now)], P c := by
    intro P hP hlast c hc
    obtain hc | hc := List.mem_append.mp hc
    · exact hP c hc
    · rwa [List.mem_singleton.mp hc]
  constructor
  · apply nodup_snoc h.ids
    intro c hc
    exact (lt_freshId hc).ne
  · exact nodup_snoc h.hashes hnew
  · exact hold h.follows (.refl _)
  · exact hold h.base (.inl rfl)
  · exact hold h.latest (.inl rfl)

theorem insert_moves (row : ShareGrantRow) : Moves session queue
    (queue.with (queue.cells ++ [.inserted session row])) := by
  constructor
  · rw [Queue.rows, Queue.rows, Queue.with, Cells.rows_inserted]
    exact later_refl _
  · exact fun _ hshare => hshare
  · exact fun c hc _ _ _ => List.mem_append_left _ hc
  · intro c hc k hk hne
    obtain hc | hc := List.mem_append.mp hc
    · exact hc
    · obtain rfl := List.mem_singleton.mp hc
      exact absurd (Option.some.inj hk).symm hne

theorem share_sound (h : Sound table requests queue) (session grantId : ℕ) :
    Sound table requests (queue.share session grantId) := by
  have hsub : queue.shares ⊆ queue.shares ++ [(session, grantId)] := List.subset_append_left _ _
  exact ⟨h.ids, h.hashes, h.follows, fun c hc => (h.base c hc).mono hsub, fun c hc => (h.latest c hc).mono hsub⟩

theorem share_moves (queue : Queue) (session grantId : ℕ) : Moves session queue (queue.share session grantId) :=
  ⟨later_refl _, List.subset_append_left _ _, fun _ hc _ _ _ => hc, fun _ hc _ _ _ => hc⟩

end Cells

section Statements

variable {table : ShareTable} {requests : List Request} {queue queue' : Queue} {session grantId : ℕ}
    {grant : ShareGrant}
  {decision : Decision} {now : Instant} {row : ShareGrantRow}

theorem upsert_done (h : Sound table requests queue) (hreply : queue.upsert session grant now = .done queue' row) :
    Sound table requests queue' ∧ Moves session queue queue' ∧ queue'.shares = queue.shares ∧
      (∃ c ∈ queue'.cells, c.base.grantHash = grant.grantHash ∧ c.holder = some session) ∧
      ∀ c ∈ queue.cells, c.holder = some session →
        ∃ c' ∈ queue'.cells, c'.base.grantHash = c.base.grantHash ∧ c'.holder = some session := by
  unfold Queue.upsert at hreply
  split at hreply
  · rename_i hnone
    cases hreply
    have hnew : ∀ c ∈ queue.cells, c.base.grantHash ≠ grant.grantHash := by
      intro c hc heq
      have hfind := List.find?_eq_none.mp hnone c hc
      simp [heq] at hfind
    exact ⟨insert_sound h grant now hnew, insert_moves _, rfl,
      ⟨_, List.mem_append_right _ (List.mem_singleton_self _), rfl, rfl⟩,
      fun c hc hholder => ⟨c, List.mem_append_left _ hc, rfl, hholder⟩⟩
  · rename_i c hfind
    split at hreply
    · cases hreply
    · rename_i hother
      cases hreply
      have hc := List.mem_of_find?_eq_some hfind
      have hhash : c.base.grantHash = grant.grantHash := by simpa using List.find?_some hfind
      have hfree : c.heldByOther session = false := by simpa using hother
      have honly : ∀ c' ∈ queue.cells, (c'.base.grantHash == grant.grantHash) = true → c' = c := by
        intro c' hc' hp
        have hhash' : c'.base.grantHash = grant.grantHash := by simpa using hp
        exact Cells.eq_of_key (·.grantHash) h.hashes hc' hc (hhash'.trans hhash.symm)
      have htouched : ∀ c : Cell ShareGrantRow, (c.write session (·.touch now)).base.grantHash = c.base.grantHash := by
        intro c
        cases c with
        | inserted owner row => rfl
        | kept row written => rfl
      have hwritten : c.write session (·.touch now) ∈
          Cells.writeAt queue.cells session (fun c => c.base.grantHash == grant.grantHash) (·.touch now) :=
        List.mem_map.mpr ⟨c, hc, if_pos (by simp [hhash])⟩
      refine ⟨write_sound h fun c' hc' _ => ⟨.touch _ _, (h.latest c' hc').touch now⟩, write_moves ?_, rfl,
        ⟨_, hwritten, (htouched c).trans hhash, Cell.holder_write c _ hfree⟩, fun c' hc' hholder => ?_⟩
      · intro c' hc' hp
        rwa [honly c' hc' hp]
      · by_cases hp : (c'.base.grantHash == grant.grantHash) = true
        · obtain rfl := honly c' hc' hp
          exact ⟨_, hwritten, htouched c', Cell.holder_write c' _ hfree⟩
        · exact ⟨c', List.mem_map.mpr ⟨c', hc', if_neg hp⟩, rfl, hholder⟩

theorem offers_iff {c : Cell ShareGrantRow} :
    offers session grantId c = true ↔ ∃ row, c.sees session = some row ∧ row.id = grantId ∧ row.state = .opened := by
  simp [offers, Option.any_eq_true]

theorem offers_id (h : Sound table requests queue) {c : Cell ShareGrantRow} (hc : c ∈ queue.cells)
    (hoffers : offers session grantId c = true) : c.base.id = grantId := by
  obtain ⟨row, hsees, hid, -⟩ := offers_iff.mp hoffers
  obtain ⟨-, rfl⟩ | hcommitted := Cell.sees_cases hsees
  · rw [← hid]
    exact (h.follows c hc).id.symm
  · cases c with
    | inserted owner row' => cases hcommitted
    | kept row' written =>
      obtain rfl : row' = row := Option.some.inj hcommitted
      exact hid

/-- The row is open, and nobody else has it locked. -/
def Offered (queue : Queue) (session grantId : ℕ) : Prop :=
  ∃ c ∈ queue.cells, offers session grantId c = true ∧ c.heldByOther session = false

theorem decide_done (h : Sound table requests queue) {answer : Option ShareGrantRow}
    (hreply : queue.decideShareGrant session grantId decision now = .done queue' answer) :
    queue' = queue ∧ answer = none ∧ (∀ c ∈ queue.cells, offers session grantId c = false) ∨
      ∃ c ∈ queue.cells, c.latest.state = .opened ∧ c.latest.id = grantId ∧ Offered queue session grantId ∧
        answer = some (c.latest.settle decision now) ∧ Moves session queue queue' ∧ queue'.shares = queue.shares ∧
        (∃ c' ∈ queue'.cells, c'.holder = some session ∧ c'.latest = c.latest.settle decision now) ∧
        (Explained table requests queue.shares (c.latest.settle decision now) → Sound table requests queue') := by
  unfold Queue.decideShareGrant at hreply
  split at hreply
  · rename_i hnone
    cases hreply
    refine .inl ⟨rfl, rfl, fun c hc => ?_⟩
    simpa using List.find?_eq_none.mp hnone c hc
  · rename_i c hfind
    split at hreply
    · cases hreply
    · rename_i hother
      cases hreply
      have hc := List.mem_of_find?_eq_some hfind
      have hoffers := List.find?_some hfind
      have hfree : c.heldByOther session = false := by simpa using hother
      obtain ⟨row, hsees, hid, hopen⟩ := offers_iff.mp hoffers
      obtain rfl := Cell.sees_latest hsees hfree
      have honly : ∀ c' ∈ queue.cells, offers session grantId c' = true → c' = c := by
        intro c' hc' hoffers'
        exact Cells.eq_of_key (·.id) h.ids hc' hc ((offers_id h hc' hoffers').trans (offers_id h hc hoffers).symm)
      refine .inr ⟨c, hc, hopen, hid, ⟨c, hc, hoffers, hfree⟩, rfl, write_moves ?_, rfl, ?_, fun hexplained => ?_⟩
      · intro c' hc' hoffers'
        rwa [honly c' hc' hoffers']
      · exact ⟨c.write session (·.settle decision now), List.mem_map.mpr ⟨c, hc, if_pos hoffers⟩,
          Cell.holder_write c _ hfree,
          Cell.latest_write c _⟩
      · refine write_sound h fun c' hc' hoffers' => ?_
        obtain rfl := honly c' hc' hoffers'
        exact ⟨.settle hopen decision now, hexplained⟩

end Statements

section Callers

variable (table : ShareTable) (requests : List Request)

def Held (queue : Queue) (session : ℕ) (row : ShareGrantRow) : Prop :=
  ∃ c ∈ queue.cells, c.holder = some session ∧ c.latest = row

def Stands (queue : Queue) (row : ShareGrantRow) : Prop := ∃ row' ∈ queue.rows, Follows row row'

def Covered (queue : Queue) (session : ℕ) (grant : ShareGrant) : Prop :=
  ∃ c ∈ queue.cells, c.base.grantHash = grant.grantHash ∧ (c.holder = some session ∨ ∃ row, c.committed = some row)

/-- The row is there, and the gates let it through. -/
def Passed (deps : ApplyShareDeps) (queue : Queue) (grantId : ℕ) : Prop :=
  ∃ row ∈ queue.rows, row.id = grantId ∧ deps.gate row = none

def Answer.Fits (requests : List Request) (queue : Queue) (session : ℕ) (aborted : Bool) (ended : Bool) : Answer → Prop
  | settled row =>
    SettledBy requests queue.shares row session ∧
      (aborted = false → if ended then Stands queue row else Held queue session row)
  | refreshed _ blindSpots =>
    ∃ scans grants, requests[session]? = some (.refresh scans) ∧ gather sha256Hex scans = .ok (grants, blindSpots) ∧
      ∀ grant ∈ grants,
        if ended then ∃ row ∈ queue.rows, row.grantHash = grant.grantHash else aborted = false ∧
          Covered queue session grant
  | refused .. => True

/-- Where a call is, and what the queue has of it. -/
def Stage.Fits (requests : List Request) (queue : Queue) (session : ℕ) (request : Request) (aborted : Bool) : Stage →
    Prop
  | beginning | finding => aborted = false
  | upserting rest _ blindSpots =>
    aborted = false ∧ ∃ scans done, requests[session]? = some (.refresh scans) ∧
      gather sha256Hex scans = .ok (done ++ rest, blindSpots) ∧ ∀ grant ∈ done, Covered queue session grant
  | creating row =>
    aborted = false ∧ ∃ deps, request = .apply deps row.id ∧ deps.gate row = none ∧ Stands queue row
  | settling grantId decision =>
    aborted = false ∧ request.grantId = some grantId ∧ request.decision = some decision ∧
      ∀ deps id, request = .apply deps id → (session, id) ∈ queue.shares ∧ Passed deps queue id
  | auditing row =>
    aborted = false ∧ SettledBy requests queue.shares row session ∧
      if edition.inTransaction then Held queue session row else Stands queue row
  | committing answer => edition.inTransaction = true ∧ answer.Fits sha256Hex requests queue session aborted false
  | returned (.ok answer) => answer.Fits sha256Hex requests queue session aborted true
  | rollingBack _ | returned (.error _) | dead => True

/-- What a call that has made a share knows of its row. -/
def Stage.Knows (rows : List ShareGrantRow) (grantId : ℕ) : Stage → Prop
  | beginning | upserting .. | finding | creating _ => False
  | auditing row => row.id = grantId
  | committing answer | returned (.ok answer) => answer.Tells rows grantId
  | settling .. | rollingBack _ | returned (.error _) | dead => True

/-- Behind a statement that may have written. -/
def Stage.writes : Stage → Bool
  | upserting .. | auditing _ | committing _ | rollingBack _ => true
  | _ => false

def Stage.settled : Stage → Option ShareGrantRow
  | auditing row | committing (.settled row) | returned (.ok (.settled row)) => some row
  | _ => none

/-- The row that a call has settled and not given up. -/
def Caller.stands (caller : Caller) : Option ShareGrantRow := if caller.aborted then none else caller.stage.settled

structure Placed (queue : Queue) (j : ℕ) (call : Caller) : Prop where
  session : call.session = j
  request : requests[j]? = some call.request
  fits : call.stage.Fits sha256Hex edition requests queue j call.request call.aborted
  knows : ∀ share ∈ queue.shares, share.1 = j → call.stage.Knows queue.rows share.2
  free : (edition.inTransaction && call.stage.writes) = false → queue.Free j

/-- What every turn keeps. -/
structure Ordered (x : World) : Prop where
  sound : Sound table requests x.2
  placed : ∀ (j : ℕ) (call : Caller), x.1[j]? = some call → Placed sha256Hex edition requests x.2 j call
  owners : ∀ c ∈ x.2.cells, ∀ k ∈ c.holder, k < x.1.length
  oneShare : (x.2.shares.map Prod.fst).Nodup
  shares : ∀ share ∈ x.2.shares, ∃ deps, requests[share.1]? = some (.apply deps share.2) ∧ Passed deps x.2 share.2
  sole : ∀ (j k : ℕ) (call other : Caller) row row', x.1[j]? = some call → x.1[k]? = some other →
    call.stands = some row → other.stands = some row' → row.id = row'.id → j = k

/-- What one turn of a call comes to. -/
structure Goes (queue : Queue) (j : ℕ) (call : Caller) (out : Queue × Caller) : Prop where
  sound : Sound table requests out.1
  moves : Moves j queue out.1
  placed : Placed sha256Hex edition requests out.1 j out.2
  shares : out.1.shares = queue.shares ∨ ∃ deps grantId, out.1.shares = queue.shares ++ [(j, grantId)] ∧
    (∀ share ∈ queue.shares, share.1 ≠ j) ∧ requests[j]? = some (.apply deps grantId) ∧ Passed deps queue grantId
  stands : ∀ row, out.2.stands = some row → call.stands = some row ∨ Offered queue j row.id

end Callers

section Frame

variable {sha256Hex : String → String} {edition : Edition} {table : ShareTable} {requests : List Request}
  {queue queue' : Queue} {j k : ℕ} {row : ShareGrantRow} {call other : Caller}

theorem Stands.moves (h : Stands queue row) (hmoves : Moves j queue queue') : Stands queue' row := by
  obtain ⟨row', hrow', hfollows⟩ := h
  obtain ⟨row'', hrow'', hfollows'⟩ := hmoves.rows row' hrow'
  exact ⟨row'', hrow'', hfollows.trans hfollows'⟩

theorem Held.moves (h : Held queue k row) (hmoves : Moves j queue queue') (hne : k ≠ j) : Held queue' k row := by
  obtain ⟨c, hc, hholder, hlatest⟩ := h
  exact ⟨c, hmoves.held c hc k hholder hne, hholder, hlatest⟩

theorem hash_moves {hash : String} (h : ∃ row ∈ queue.rows, row.grantHash = hash) (hmoves : Moves j queue queue') :
    ∃ row ∈ queue'.rows, row.grantHash = hash := by
  obtain ⟨row, hrow, hhash⟩ := h
  obtain ⟨row', hrow', hfollows⟩ := hmoves.rows row hrow
  exact ⟨row', hrow', hfollows.hash.symm.trans hhash⟩

theorem covered_of_row {grant : ShareGrant} (h : ∃ row ∈ queue.rows, row.grantHash = grant.grantHash) (j : ℕ) :
    Covered queue j grant := by
  obtain ⟨row, hrow, hhash⟩ := h
  obtain ⟨c, hc, hcommitted⟩ := Cells.mem_rows.mp hrow
  refine ⟨c, hc, ?_, .inr ⟨row, hcommitted⟩⟩
  cases c with
  | inserted owner row' => cases hcommitted
  | kept row' written => rwa [Option.some.inj hcommitted.symm] at hhash

theorem row_of_covered {grant : ShareGrant} {c : Cell ShareGrantRow} (hc : c ∈ queue.cells)
    (hhash : c.base.grantHash = grant.grantHash) (hrow : ∃ row, c.committed = some row) :
    ∃ row ∈ queue.rows, row.grantHash = grant.grantHash := by
  obtain ⟨row, hcommitted⟩ := hrow
  refine ⟨row, Cells.mem_rows.mpr ⟨c, hc, hcommitted⟩, ?_⟩
  cases c with
  | inserted owner row' => cases hcommitted
  | kept row' written => rwa [← Option.some.inj hcommitted]

theorem Covered.moves {grant : ShareGrant} (h : Covered queue k grant) (hmoves : Moves j queue queue') (hne : k ≠ j) :
    Covered queue' k grant := by
  obtain ⟨c, hc, hhash, hholder | hrow⟩ := h
  · exact ⟨c, hmoves.held c hc k hholder hne, hhash, .inl hholder⟩
  · exact covered_of_row (hash_moves (row_of_covered hc hhash hrow) hmoves) k

theorem Passed.moves {deps : ApplyShareDeps} {grantId : ℕ} (h : Passed deps queue grantId)
    (hmoves : Moves j queue queue') :
    Passed deps queue' grantId := by
  obtain ⟨row, hrow, hid, hgate⟩ := h
  obtain ⟨row', hrow', hfollows⟩ := hmoves.rows row hrow
  exact ⟨row', hrow', hfollows.id.trans hid, (gate_congr hfollows.grant deps).trans hgate⟩

theorem Queue.Free.moves (h : queue.Free k) (hmoves : Moves j queue queue') (hne : k ≠ j) : queue'.Free k :=
  fun c hc hholder => h c (hmoves.others c hc k hholder hne) hholder

theorem Answer.Tells.moves {answer : Answer} {grantId : ℕ} (h : answer.Tells queue.rows grantId)
    (hmoves : Moves j queue queue') : answer.Tells queue'.rows grantId := by
  cases answer with
  | refreshed opened blindSpots => exact h
  | settled row => exact h
  | refused code reason =>
    obtain hcode | ⟨hcode, row, hrow, hid, hsettled⟩ := h
    · exact .inl hcode
    · obtain ⟨row', hrow', hfollows⟩ := hmoves.rows row hrow
      refine .inr ⟨hcode, row', hrow', hfollows.id.trans hid, ?_⟩
      rwa [hfollows.state hsettled]

theorem Stage.Knows.moves {stage : Stage} {grantId : ℕ} (h : stage.Knows queue.rows grantId)
    (hmoves : Moves j queue queue') :
    stage.Knows queue'.rows grantId := by
  cases stage with
  | committing answer => exact Answer.Tells.moves h hmoves
  | returned result =>
    cases result with
    | ok answer => exact Answer.Tells.moves h hmoves
    | error e => trivial
  | beginning | upserting | finding | creating | settling | auditing | rollingBack | dead => exact h

theorem Answer.Fits.moves {answer : Answer} {aborted ended : Bool}
    (h : answer.Fits sha256Hex requests queue k aborted ended) (hmoves : Moves j queue queue') (hne : k ≠ j) :
    answer.Fits sha256Hex requests queue' k aborted ended := by
  cases answer with
  | settled row =>
    refine ⟨h.1.mono hmoves.shares, fun haborted => ?_⟩
    have hrow := h.2 haborted
    cases ended with
    | true => exact Stands.moves hrow hmoves
    | false => exact Held.moves hrow hmoves hne
  | refreshed opened blindSpots =>
    obtain ⟨scans, grants, hrequest, hgather, hgrants⟩ := h
    refine ⟨scans, grants, hrequest, hgather, fun grant hgrant => ?_⟩
    have hrow := hgrants grant hgrant
    cases ended with
    | true => exact hash_moves hrow hmoves
    | false => exact ⟨hrow.1, hrow.2.moves hmoves hne⟩
  | refused code reason => trivial

theorem Stage.Fits.moves {stage : Stage} {request : Request} {aborted : Bool}
    (h : stage.Fits sha256Hex edition requests queue k request aborted) (hmoves : Moves j queue queue') (hne : k ≠ j) :
    stage.Fits sha256Hex edition requests queue' k request aborted := by
  cases stage with
  | upserting rest opened blindSpots =>
    obtain ⟨haborted, scans, done, hrequest, hgather, hdone⟩ := h
    exact ⟨haborted, scans, done, hrequest, hgather, fun grant hgrant => (hdone grant hgrant).moves hmoves hne⟩
  | creating row =>
    obtain ⟨haborted, deps, hrequest, hgate, hstands⟩ := h
    exact ⟨haborted, deps, hrequest, hgate, hstands.moves hmoves⟩
  | settling grantId decision =>
    obtain ⟨haborted, hgrantId, hdecision, happly⟩ := h
    exact ⟨haborted, hgrantId, hdecision, fun deps id hdeps =>
      ⟨hmoves.shares (happly deps id hdeps).1, (happly deps id hdeps).2.moves hmoves⟩⟩
  | auditing row =>
    obtain ⟨haborted, hby, hrow⟩ := h
    refine ⟨haborted, hby.mono hmoves.shares, ?_⟩
    split
    · rename_i htransaction
      rw [if_pos htransaction] at hrow
      exact hrow.moves hmoves hne
    · rename_i htransaction
      rw [if_neg htransaction] at hrow
      exact hrow.moves hmoves
  | committing answer => exact ⟨h.1, Answer.Fits.moves h.2 hmoves hne⟩
  | returned result =>
    cases result with
    | ok answer => exact Answer.Fits.moves h hmoves hne
    | error e => trivial
  | beginning | finding | rollingBack | dead => exact h

/-- A turn of one call leaves the others where they are. -/
theorem Placed.moves (h : Placed sha256Hex edition requests queue k other) (hmoves : Moves j queue queue') (hne : k ≠ j)
    (hshares : ∀ share ∈ queue'.shares, share.1 = k → share ∈ queue.shares) :
    Placed sha256Hex edition requests queue' k other := by
  constructor
  · exact h.session
  · exact h.request
  · exact h.fits.moves hmoves hne
  · intro share hshare hk
    exact (h.knows share (hshares share hshare hk) hk).moves hmoves
  · exact fun hfree => (h.free hfree).moves hmoves hne

theorem Placed.stands (h : Placed sha256Hex edition requests queue k other) (hstands : other.stands = some row) :
    row.state ≠ .opened ∧ (Held queue k row ∨ Stands queue row) := by
  have hfits := h.fits
  unfold Caller.stands at hstands
  split at hstands
  · cases hstands
  rename_i haborted
  have haborted' : other.aborted = false := by simpa using haborted
  unfold Stage.settled at hstands
  split at hstands
  · rename_i row' hstage
    obtain rfl := Option.some.inj hstands
    rw [hstage] at hfits
    refine ⟨hfits.2.1.settled, ?_⟩
    have hrow := hfits.2.2
    split at hrow
    · exact .inl hrow
    · exact .inr hrow
  · rename_i row' hstage
    obtain rfl := Option.some.inj hstands
    rw [hstage] at hfits
    exact ⟨hfits.2.1.settled, .inl (hfits.2.2 haborted')⟩
  · rename_i row' hstage
    obtain rfl := Option.some.inj hstands
    rw [hstage] at hfits
    exact ⟨hfits.1.settled, .inr (hfits.2 haborted')⟩
  · cases hstands

/-- A row that one call has settled is offered to no other. -/
theorem not_offered (hsound : Sound table requests queue) (h : Placed sha256Hex edition requests queue k other)
    (hstands : other.stands = some row) (hne : k ≠ j) : ¬ Offered queue j row.id := by
  rintro ⟨c, hc, hoffers, hfree⟩
  have hid := offers_id hsound hc hoffers
  obtain ⟨open_, hsees, -, hopen⟩ := offers_iff.mp hoffers
  have hlatest := Cell.sees_latest hsees hfree
  obtain ⟨hsettled, ⟨c', hc', hholder, hrow⟩ | ⟨row', hrow', hfollows⟩⟩ := h.stands hstands
  · have hbase := (hsound.follows c' hc').id
    rw [hrow] at hbase
    obtain rfl := Cells.eq_of_key (·.id) hsound.ids hc' hc (hbase.symm.trans hid.symm)
    rw [heldByOther_of hholder hne] at hfree
    cases hfree
  · have hsettled' : row'.state ≠ .opened := by rwa [hfollows.state hsettled]
    obtain ⟨c', hc', hcommitted⟩ := Cells.mem_rows.mp hrow'
    have hbase : c'.base = row' := by
      cases c' with
      | inserted owner row => cases hcommitted
      | kept row written => exact Option.some.inj hcommitted
    have hid' : c'.base.id = c.base.id := by rw [hbase, hfollows.id, hid]
    obtain rfl := Cells.eq_of_key (·.id) hsound.ids hc' hc hid'
    have hstate := (hsound.follows _ hc').state (by rwa [hbase])
    rw [hlatest, hopen, hbase] at hstate
    exact hsettled' hstate.symm

end Frame

section Turn

variable {sha256Hex : String → String} {edition : Edition} {table : ShareTable} {requests : List Request}

theorem Goes.ordered {x : World} {j : ℕ} {call : Caller} {out : Queue × Caller}
    (h : Ordered sha256Hex edition table requests x) (hj : x.1[j]? = some call)
    (hgoes : Goes sha256Hex edition table requests x.2 j call out) :
    Ordered sha256Hex edition table requests (x.1.set j out.2, out.1) := by
  have hlt : j < x.1.length := (List.getElem?_eq_some_iff.mp hj).1
  have hnew : ∀ share ∈ out.1.shares, share ∈ x.2.shares ∨ share.1 = j := by
    intro share hshare
    obtain hsame | ⟨deps, grantId, hadd, -⟩ := hgoes.shares
    · rw [hsame] at hshare
      exact .inl hshare
    · rw [hadd, List.mem_append, List.mem_singleton] at hshare
      exact hshare.imp_right (congrArg Prod.fst)
  constructor
  · exact hgoes.sound
  · intro k other hk
    obtain ⟨rfl, rfl⟩ | ⟨hne, hk⟩ := getElem?_set_or hk
    · exact hgoes.placed
    · refine (h.placed k other hk).moves hgoes.moves hne fun share hshare hfst => ?_
      exact (hnew share hshare).resolve_right fun hj' => hne (hfst.symm.trans hj')
  · intro c hc k hk
    rw [List.length_set]
    by_cases hne : k = j
    · rwa [hne]
    · exact h.owners c (hgoes.moves.others c hc k hk hne) k hk
  · obtain hsame | ⟨deps, grantId, hadd, hnone, -⟩ := hgoes.shares
    · rw [hsame]
      exact h.oneShare
    · rw [hadd, List.map_append, List.nodup_append]
      refine ⟨h.oneShare, List.nodup_singleton _, ?_⟩
      rintro k hk k' hk' rfl
      obtain ⟨share, hshare, rfl⟩ := List.mem_map.mp hk
      exact hnone share hshare (List.mem_singleton.mp hk')
  · intro share hshare
    obtain hsame | ⟨deps, grantId, hadd, -, hrequest, hpassed⟩ := hgoes.shares
    · rw [hsame] at hshare
      obtain ⟨deps, hrequest, hpassed⟩ := h.shares share hshare
      exact ⟨deps, hrequest, hpassed.moves hgoes.moves⟩
    · rw [hadd, List.mem_append, List.mem_singleton] at hshare
      obtain hshare | rfl := hshare
      · obtain ⟨deps, hrequest, hpassed⟩ := h.shares share hshare
        exact ⟨deps, hrequest, hpassed.moves hgoes.moves⟩
      · exact ⟨deps, hrequest, hpassed.moves hgoes.moves⟩
  · have hmine : ∀ (k : ℕ) (other : Caller) row row', k ≠ j → x.1[k]? = some other → out.2.stands = some row →
        other.stands = some row' → row.id ≠ row'.id := by
      intro k other row row' hne hk hrow hrow' hid
      obtain hold | hoffered := hgoes.stands row hrow
      · exact hne (h.sole j k call other row row' hj hk hold hrow' hid).symm
      · rw [hid] at hoffered
        exact not_offered h.sound (h.placed k other hk) hrow' hne hoffered
    intro k l other other' row row' hk hl hrow hrow' hid
    obtain ⟨hkj, rfl⟩ | ⟨hnek, hkold⟩ := getElem?_set_or hk
    · obtain ⟨hlj, -⟩ | ⟨hnel, hlold⟩ := getElem?_set_or hl
      · exact hkj.trans hlj.symm
      · exact absurd hid (hmine l other' row row' hnel hlold hrow hrow')
    · obtain ⟨-, rfl⟩ | ⟨-, hlold⟩ := getElem?_set_or hl
      · exact absurd hid.symm (hmine k other row' row hnek hkold hrow' hrow)
      · exact h.sole k l other other' row row' hkold hlold hrow hrow' hid

end Turn

section Stages

variable {sha256Hex : String → String} {edition : Edition} {table : ShareTable} {requests : List Request}
  {queue queue' : Queue} {j grantId : ℕ} {row : ShareGrantRow} {call : Caller} {α : Type} {reply : Reply α}
  {onDone : α → Stage} {onError : String → Stage}

/-- Where a statement of a call may leave the queue, whatever the call hears of it. -/
def Behind (edition : Edition) (queue : Queue) (session : ℕ) (reply : Reply α) (queue' : Queue) : Prop :=
  queue' = queue ∨ ∃ queue'' answer, reply = .done queue'' answer ∧ queue' = edition.done session queue''

inductive Sent (edition : Edition) (queue : Queue) (call : Caller) (reply : Reply α) (onDone : α → Stage)
    (onError : String → Stage) : Queue × Caller → Prop where
  | done (queue' : Queue) (answer : α) (h : reply = .done queue' answer) :
    Sent edition queue call reply onDone onError (edition.done call.session queue',
      { call with stage := onDone answer })
  | waits : Sent edition queue call reply onDone onError (queue, call)
  | refused (error : String) :
    Sent edition queue call reply onDone onError
      (queue.rollback call.session, { call with stage := onError error, aborted := edition.inTransaction })
  | failed (error : String) (queue' : Queue) (h : Behind edition queue call.session reply queue') :
    Sent edition queue call reply onDone onError (queue', { call with stage := onError error })
  | died (queue' : Queue) (h : Behind edition queue call.session reply queue') :
    Sent edition queue call reply onDone onError (queue'.rollback call.session, { call with stage := .dead })

theorem after_behind (haborted : call.aborted = false) :
    Behind edition queue call.session reply (edition.after call queue reply) := by
  unfold Edition.after
  split
  · rename_i queue' answer
    rw [haborted]
    exact .inr ⟨queue', answer, rfl, rfl⟩
  · exact .inl rfl

theorem sends_sent (haborted : call.aborted = false) (outcome : Outcome) :
    Sent edition queue call reply onDone onError (edition.sends queue call reply onDone onError outcome) := by
  cases outcome with
  | runs =>
    unfold Edition.sends
    rw [if_neg (by simp [haborted])]
    cases reply with
    | done queue' answer => exact .done queue' answer rfl
    | waits => exact .waits
  | refused error => exact .refused error
  | unsent error => exact .failed error queue (.inl rfl)
  | unheard error => exact .failed error _ (after_behind haborted)
  | dies carriedOut =>
    cases carriedOut with
    | false => exact .died queue (.inl rfl)
    | true => exact .died _ (after_behind haborted)

theorem done_sound (h : Sound table requests queue) (edition : Edition) (j : ℕ) :
    Sound table requests (edition.done j queue) := by
  unfold Edition.done
  split
  · exact h
  · exact commit_sound h j

theorem done_moves (h : Sound table requests queue) (edition : Edition) (j : ℕ) : Moves j queue
    (edition.done j queue) := by
  unfold Edition.done
  split
  · exact .refl j queue
  · exact commit_moves h j

theorem done_shares (edition : Edition) (j : ℕ) (queue : Queue) : (edition.done j queue).shares = queue.shares := by
  unfold Edition.done
  split
  · rfl
  · rfl

theorem done_auto (h : edition.inTransaction = false) (j : ℕ) (queue : Queue) :
    edition.done j queue = queue.commit j := by simp [Edition.done, h]

theorem done_transaction (h : edition.inTransaction = true) (j : ℕ) (queue : Queue) : edition.done j queue = queue := by
  simp [Edition.done, h]

theorem done_free (h : queue.Free j) (edition : Edition) : (edition.done j queue).Free j := by
  unfold Edition.done
  split
  · exact h
  · exact commit_free queue j

theorem fails_fits (edition : Edition) (error : String) (request : Request) (aborted : Bool) :
    (edition.fails error).Fits sha256Hex edition requests queue j request aborted := by
  unfold Edition.fails
  split <;> trivial

theorem fails_knows (edition : Edition) (error : String) (rows : List ShareGrantRow) (grantId : ℕ) :
    (edition.fails error).Knows rows grantId := by
  unfold Edition.fails
  split <;> trivial

theorem not_stands {stage : Stage} (h : stage.settled = none) {P : ShareGrantRow → Prop} {session : ℕ}
    {request : Request} {aborted : Bool} :
    ∀ row, (Caller.mk session request stage aborted).stands = some row → P row := by
  intro row hrow
  unfold Caller.stands at hrow
  split at hrow
  · cases hrow
  · rw [h] at hrow
    cases hrow

theorem fails_settled (edition : Edition) (error : String) : (edition.fails error).settled = none := by
  unfold Edition.fails
  split <;> rfl

/-- What a statement comes to, from what it leaves, what follows on it and what follows on its error. -/
theorem sends_goes (h : Sound table requests queue) (hcall : Placed sha256Hex edition requests queue j call)
    (haborted : call.aborted = false)
    (hreply : ∀ queue' answer, reply = .done queue' answer →
      Sound table requests queue' ∧ Moves j queue queue' ∧ queue'.shares = queue.shares)
    (hdone : ∀ queue' answer, reply = .done queue' answer →
      Placed sha256Hex edition requests (edition.done j queue') j { call with stage := onDone answer } ∧
        ∀ row, { call with stage := onDone answer }.stands = some row → call.stands = some row ∨ Offered queue j row.id)
    (herror : ∀ error queue' aborted, Moves j queue queue' → queue'.shares = queue.shares →
      (aborted = edition.inTransaction ∧ queue' = queue.rollback j ∨
        aborted = false ∧ Behind edition queue j reply queue') →
      Placed sha256Hex edition requests queue' j { call with stage := onError error, aborted := aborted } ∧
        ∀ row, { call with stage := onError error, aborted := aborted }.stands = some row → call.stands = some row)
    (outcome : Outcome) :
    Goes sha256Hex edition table requests queue j call (edition.sends queue call reply onDone onError outcome) := by
  obtain rfl := hcall.session
  have hbehind : ∀ queue', Behind edition queue call.session reply queue' →
      Sound table requests queue' ∧ Moves call.session queue queue' ∧ queue'.shares = queue.shares := by
    rintro queue' (rfl | ⟨queue'', answer, hdone, rfl⟩)
    · exact ⟨h, .refl _ _, rfl⟩
    · obtain ⟨hsound, hmoves, hshares⟩ := hreply queue'' answer hdone
      exact ⟨done_sound hsound edition _, hmoves.trans (done_moves hsound edition _),
        (done_shares edition _ queue'').trans hshares⟩
  have hsent : Sent edition queue call reply onDone onError (edition.sends queue call reply onDone onError outcome) :=
    sends_sent haborted outcome
  revert hsent
  generalize edition.sends queue call reply onDone onError outcome = out
  intro hsent
  obtain ⟨queue', answer, hanswer⟩ | _ | ⟨error⟩ | ⟨error, queue', hqueue⟩ | ⟨queue', hqueue⟩ := hsent
  · obtain ⟨hsound, hmoves, hshares⟩ := hbehind _ (.inr ⟨queue', answer, hanswer, rfl⟩)
    obtain ⟨hplaced, hstands⟩ := hdone queue' answer hanswer
    exact ⟨hsound, hmoves, hplaced, .inl hshares, hstands⟩
  · exact ⟨h, Moves.refl _ queue, hcall, .inl rfl, fun _ => .inl⟩
  · obtain ⟨hplaced, hstands⟩ := herror error _ edition.inTransaction (rollback_moves queue _) rfl (.inl ⟨rfl, rfl⟩)
    exact ⟨rollback_sound h _, rollback_moves queue _, hplaced, .inl rfl, fun row hrow => .inl (hstands row hrow)⟩
  · obtain ⟨hsound, hmoves, hshares⟩ := hbehind queue' hqueue
    obtain ⟨hplaced, hstands⟩ := herror error queue' false hmoves hshares (.inr ⟨rfl, hqueue⟩)
    rw [← haborted] at hplaced hstands
    exact ⟨hsound, hmoves, hplaced, .inl hshares, fun row hrow => .inl (hstands row hrow)⟩
  · obtain ⟨hsound, hmoves, hshares⟩ := hbehind queue' hqueue
    refine ⟨rollback_sound hsound _, hmoves.trans (rollback_moves queue' _), ?_, .inl hshares, fun row hrow => ?_⟩
    · exact ⟨rfl, hcall.request, trivial, fun _ _ _ => trivial, fun _ => rollback_free queue' _⟩
    · exact (not_stands (P := fun _ => False) rfl row hrow).elim

theorem fails_placed (hcall : Placed sha256Hex edition requests queue j call) {queue'' : Queue} {aborted : Bool}
    (h : aborted = edition.inTransaction ∧ queue'' = queue.rollback j ∨
      aborted = false ∧ Behind edition queue j reply queue'') (error : String) :
    Placed sha256Hex edition requests queue'' j { call with stage := edition.fails error, aborted := aborted } := by
  refine ⟨hcall.session, hcall.request, fails_fits _ _ _ _, fun _ _ _ => fails_knows _ _ _ _, fun hfree => ?_⟩
  have hauto : edition.inTransaction = false := by
    by_contra htransaction
    simp only [Bool.not_eq_false] at htransaction
    simp [Edition.fails, htransaction, Stage.writes] at hfree
  obtain ⟨-, rfl⟩ | ⟨-, rfl | ⟨queue', answer, -, rfl⟩⟩ := h
  · exact rollback_free queue j
  · exact hcall.free (by simp [hauto])
  · rw [done_auto hauto]
    exact commit_free queue' j

/-- A statement whose error ends the call. -/
theorem sends_fails (h : Sound table requests queue) (hcall : Placed sha256Hex edition requests queue j call)
    (haborted : call.aborted = false)
    (hreply : ∀ queue' answer, reply = .done queue' answer →
      Sound table requests queue' ∧ Moves j queue queue' ∧ queue'.shares = queue.shares)
    (hdone : ∀ queue' answer, reply = .done queue' answer →
      Placed sha256Hex edition requests (edition.done j queue') j { call with stage := onDone answer } ∧
        ∀ row, { call with stage := onDone answer }.stands = some row → call.stands = some row ∨ Offered queue j row.id)
    (outcome : Outcome) :
    Goes sha256Hex edition table requests queue j call
      (edition.sends queue call reply onDone edition.fails outcome) := by
  refine sends_goes h hcall haborted hreply hdone (fun error queue' aborted _ _ hqueue => ?_) outcome
  exact ⟨fails_placed hcall hqueue error, not_stands (fails_settled edition error)⟩

end Stages

section Steps

variable {sha256Hex : String → String} {edition : Edition} {table : ShareTable} {requests : List Request}
  {queue queue' : Queue} {j grantId session : ℕ} {row : ShareGrantRow} {call : Caller} {request : Request}
    {aborted : Bool}

/-- The call has made no share yet. -/
def Unshared (queue : Queue) (j : ℕ) : Prop := ∀ share ∈ queue.shares, share.1 ≠ j

theorem Placed.unshared (h : Placed sha256Hex edition requests queue j call)
    (hstage : ∀ rows grantId, ¬ call.stage.Knows rows grantId) : Unshared queue j :=
  fun share hshare hj => hstage _ _ (h.knows share hshare hj)

theorem covered_commit (h : Sound table requests queue) {grant : ShareGrant} (hcovered : Covered queue j grant) :
    ∃ row ∈ (queue.commit j).rows, row.grantHash = grant.grantHash := by
  obtain ⟨c, hc, hhash, hholder | hrow⟩ := hcovered
  · refine ⟨c.latest, Cells.mem_rows.mpr ⟨c.commit j, List.mem_map_of_mem hc, ?_⟩, ?_⟩
    · rw [Cell.commit_own hholder]
      rfl
    · exact (h.follows c hc).hash.symm.trans hhash
  · exact hash_moves (row_of_covered hc hhash hrow) (commit_moves h j)

theorem held_commit (h : Held queue j row) : Stands (queue.commit j) row := by
  obtain ⟨c, hc, hholder, rfl⟩ := h
  refine ⟨c.latest, Cells.mem_rows.mpr ⟨c.commit j, List.mem_map_of_mem hc, ?_⟩, .refl _⟩
  rw [Cell.commit_own hholder]
  rfl

/-- The end of a call on a queue in which its answer holds. -/
theorem finishes_placed (hsession : session = j) (hrequest : requests[j]? = some request) {answer : Answer}
    (hfits : edition.inTransaction = true → answer.Fits sha256Hex requests queue j aborted false)
    (hover : edition.inTransaction = false → answer.Fits sha256Hex requests queue j aborted true ∧ queue.Free j)
    (hknows : ∀ share ∈ queue.shares, share.1 = j → answer.Tells queue.rows share.2) :
    Placed sha256Hex edition requests queue j ⟨session, request, edition.finishes answer, aborted⟩ := by
  unfold Edition.finishes
  split
  · rename_i htransaction
    exact ⟨hsession, hrequest, ⟨htransaction, hfits htransaction⟩, hknows, by simp [htransaction, Stage.writes]⟩
  · rename_i htransaction
    obtain ⟨hanswer, hfree⟩ := hover (by simpa using htransaction)
    exact ⟨hsession, hrequest, hanswer, hknows, fun _ => hfree⟩

theorem refusal_placed (hsession : session = j) (hrequest : requests[j]? = some request) (hfree : queue.Free j)
    {code reason : String}
    (hknows : ∀ share ∈ queue.shares, share.1 = j → (Answer.refused code reason).Tells queue.rows share.2) :
    Placed sha256Hex edition requests queue j ⟨session, request, edition.finishes (.refused code reason), aborted⟩ :=
  finishes_placed hsession hrequest (fun _ => trivial) (fun _ => ⟨trivial, hfree⟩) hknows

theorem upserts_placed (hsession : session = j) (hrequest : requests[j]? = some request) (haborted : aborted = false)
    (hunshared : Unshared queue j)
    {scans : List (Except String PermissionListing)} {done rest : List ShareGrant} {blindSpots : List String}
    (hscans : requests[j]? = some (.refresh scans)) (hgather : gather sha256Hex scans = .ok (done ++ rest, blindSpots))
    (hdone : ∀ grant ∈ done, Covered queue j grant)
    (hauto : edition.inTransaction = false → queue.Free j) (opened : ℕ) :
    Placed sha256Hex edition requests queue j ⟨session, request, edition.upserts opened blindSpots rest, aborted⟩ := by
  cases rest with
  | nil =>
    rw [List.append_nil] at hgather
    refine finishes_placed hsession hrequest ?_ ?_ fun share hshare hj => absurd hj (hunshared share hshare)
    · exact fun _ => ⟨scans, done, hscans, hgather, fun grant hgrant => ⟨haborted, hdone grant hgrant⟩⟩
    · refine fun hfalse => ⟨⟨scans, done, hscans, hgather, fun grant hgrant => ?_⟩, hauto hfalse⟩
      obtain ⟨c, hc, hhash, hholder | hrow⟩ := hdone grant hgrant
      · exact absurd hholder (hauto hfalse c hc)
      · exact row_of_covered hc hhash hrow
  | cons grant rest =>
    refine ⟨hsession, hrequest, ⟨haborted, scans, done, hscans, hgather, hdone⟩, ?_, fun hfree => ?_⟩
    · exact fun share hshare hj => absurd hj (hunshared share hshare)
    · exact hauto (by simpa [Edition.upserts, Stage.writes] using hfree)

theorem starts_placed (hsession : session = j) (hrequest : requests[j]? = some request) (haborted : aborted = false)
    (hunshared : Unshared queue j) (hfree : queue.Free j) :
    Placed sha256Hex edition requests queue j ⟨session, request, edition.starts sha256Hex request, aborted⟩ := by
  have hfinding : Placed sha256Hex edition requests queue j ⟨session, request, .finding, aborted⟩ :=
    ⟨hsession, hrequest, haborted, fun share hshare hj => absurd hj (hunshared share hshare), fun _ => hfree⟩
  cases request with
  | refresh scans =>
    simp only [Edition.starts]
    split
    · rename_i grants blindSpots hgather
      have hall : gather sha256Hex scans = .ok ([] ++ grants, blindSpots) := hgather
      exact upserts_placed hsession hrequest haborted hunshared hrequest hall (fun _ hgrant => by cases hgrant)
        (fun _ => hfree) 0
    · exact ⟨hsession, hrequest, fails_fits _ _ _ _, fun _ _ _ => fails_knows _ _ _ _, fun _ => hfree⟩
  | apply deps grantId => exact hfinding
  | mark decidedBy grantId tick reason => exact hfinding

theorem finishes_settled (edition : Edition) {answer : Answer} (h : ∀ row, answer ≠ .settled row) :
    (edition.finishes answer).settled = none := by
  unfold Edition.finishes
  cases answer with
  | settled row => exact absurd rfl (h row)
  | refreshed | refused => split <;> rfl

theorem upserts_settled (edition : Edition) (opened : ℕ) (blindSpots : List String) (rest : List ShareGrant) :
    (edition.upserts opened blindSpots rest).settled = none := by
  cases rest with
  | nil => exact finishes_settled edition fun _ => Answer.noConfusion
  | cons grant rest => rfl

theorem starts_settled (sha256Hex : String → String) (edition : Edition) (request : Request) :
    (edition.starts sha256Hex request).settled = none := by
  unfold Edition.starts
  split
  · split
    · exact upserts_settled edition _ _ _
    · exact fails_settled edition _
  · rfl

theorem beginning_goes (h : Sound table requests queue) (hcall : Placed sha256Hex edition requests queue j call)
    (hstage : call.stage = .beginning) (turn : Turn) :
    Goes sha256Hex edition table requests queue j call (step sha256Hex edition queue call turn) := by
  have hfits := hcall.fits
  rw [hstage] at hfits
  have hunshared := hcall.unshared (by simp [hstage, Stage.Knows])
  have hfree := hcall.free (by simp [hstage, Stage.writes])
  simp only [step, hstage]
  refine sends_fails h hcall hfits (fun queue' _ hreply => ?_) (fun queue' _ hreply => ?_) turn.outcome
  · cases hreply
    exact ⟨h, .refl j queue, rfl⟩
  · cases hreply
    refine ⟨?_, not_stands (starts_settled sha256Hex edition _)⟩
    · refine starts_placed hcall.session hcall.request hfits ?_ (done_free hfree edition)
      rwa [Unshared, done_shares]

theorem upserting_goes (h : Sound table requests queue) (hcall : Placed sha256Hex edition requests queue j call)
    {grant : ShareGrant} {rest : List ShareGrant} {opened : ℕ} {blindSpots : List String}
    (hstage : call.stage = .upserting (grant :: rest) opened blindSpots) (turn : Turn) :
    Goes sha256Hex edition table requests queue j call (step sha256Hex edition queue call turn) := by
  have hfits := hcall.fits
  rw [hstage] at hfits
  obtain ⟨haborted, scans, done, hscans, hgather, hdone⟩ := hfits
  have hunshared := hcall.unshared (by simp [hstage, Stage.Knows])
  simp only [step, hstage]
  refine sends_fails h hcall haborted (fun queue' row hreply => ?_) (fun queue' row hreply => ?_) turn.outcome
  · rw [hcall.session] at hreply
    obtain ⟨hsound, hmoves, hshares, -⟩ := upsert_done h hreply
    exact ⟨hsound, hmoves, hshares⟩
  · rw [hcall.session] at hreply
    obtain ⟨hsound, hmoves, hshares, ⟨c, hc, hhash, hholder⟩, hkept⟩ := upsert_done h hreply
    have hcovered : ∀ grant' ∈ done ++ [grant], Covered queue' j grant' := by
      intro grant' hgrant'
      obtain hgrant' | hgrant' := List.mem_append.mp hgrant'
      · obtain ⟨c', hc', hhash', hholder' | hrow'⟩ := hdone grant' hgrant'
        · obtain ⟨c'', hc'', hbase, hholder''⟩ := hkept c' hc' hholder'
          exact ⟨c'', hc'', hbase.trans hhash', .inl hholder''⟩
        · exact covered_of_row (hash_moves (row_of_covered hc' hhash' hrow') hmoves) j
      · obtain rfl := List.mem_singleton.mp hgrant'
        exact ⟨c, hc, hhash, .inl hholder⟩
    refine ⟨?_, not_stands (upserts_settled edition _ _ _)⟩
    · have hall : gather sha256Hex scans = .ok ((done ++ [grant]) ++ rest, blindSpots) := by
        rwa [List.append_assoc, List.singleton_append]
      refine upserts_placed hcall.session hcall.request haborted ?_ hscans hall (fun grant' hgrant' => ?_)
        (fun hauto => ?_) _
      · rwa [Unshared, done_shares, hshares]
      · unfold Edition.done
        split
        · exact hcovered grant' hgrant'
        · exact covered_of_row (covered_commit hsound (hcovered grant' hgrant')) j
      · rw [done_auto hauto]
        exact commit_free queue' j

theorem listed_row (h : queue.Free j) {rows : List ShareGrantRow} (hrows : rows = queue.listShareGrants j)
    (hrow : row ∈ rows) : row ∈ queue.rows := by
  rw [hrows] at hrow
  obtain ⟨c, hc, hsees⟩ := List.mem_filterMap.mp hrow
  obtain ⟨hholder, -⟩ | hcommitted := Cell.sees_cases hsees
  · exact absurd hholder (h c hc)
  · exact Cells.mem_rows.mpr ⟨c, hc, hcommitted⟩

theorem gate_refused {deps : ApplyShareDeps} {refusal : Answer} (h : deps.gate row = some refusal) :
    ∃ code reason, refusal = .refused code reason := by
  unfold ApplyShareDeps.gate at h
  split at h
  · exact ⟨_, _, (Option.some.inj h).symm⟩
  split at h
  · exact ⟨_, _, (Option.some.inj h).symm⟩
  split at h
  · exact ⟨_, _, (Option.some.inj h).symm⟩
  split at h
  · exact ⟨_, _, (Option.some.inj h).symm⟩
  · cases h

/-- What follows on `findOpenRow`: a refusal, the share of a row that the gates let through, or the settlement. -/
theorem found_cases (edition : Edition) (hgrantId : request.grantId = some grantId) (rows : List ShareGrantRow) :
    (∃ code reason, edition.found request grantId rows = edition.finishes (.refused code reason)) ∨
      (∃ deps, ∃ row ∈ rows, request = .apply deps row.id ∧ deps.gate row = none ∧
        edition.found request grantId rows = .creating row) ∨
      ∃ decision, request.decision = some decision ∧ (∀ deps id, request ≠ .apply deps id) ∧
        edition.found request grantId rows = .settling grantId decision := by
  unfold Edition.found
  split
  · exact .inl ⟨_, _, rfl⟩
  · rename_i row hfind
    have hid : row.id = grantId := by simpa using List.find?_some hfind
    split
    · exact .inl ⟨_, _, rfl⟩
    · cases request with
      | refresh scans => cases hgrantId
      | apply deps grantId' =>
        obtain rfl : grantId' = grantId := Option.some.inj hgrantId
        cases hgate : deps.gate row with
        | some refusal =>
          obtain ⟨code, reason, rfl⟩ := gate_refused hgate
          exact .inl ⟨code, reason, by simp only [hgate]⟩
        | none =>
          exact .inr (.inl ⟨deps, row, List.mem_of_find?_eq_some hfind, by rw [hid], hgate, by simp only [hgate]⟩)
      | mark decidedBy grantId' tick reason => exact .inr (.inr ⟨_, rfl, fun _ _ => Request.noConfusion, rfl⟩)

theorem found_placed (hsession : session = j) (hrequest : requests[j]? = some request) (haborted : aborted = false)
    (hunshared : Unshared queue j) (hfree : queue.Free j) (hgrantId : request.grantId = some grantId)
    {rows : List ShareGrantRow} (hrows : ∀ row ∈ rows, Stands queue row) :
    Placed sha256Hex edition requests queue j ⟨session, request, edition.found request grantId rows, aborted⟩ := by
  obtain ⟨code, reason, hfound⟩ | ⟨deps, row, hrow, hcall, hgate, hfound⟩ | ⟨decision, hdecision, hmark, hfound⟩ :=
    found_cases edition hgrantId rows
  · rw [hfound]
    exact refusal_placed hsession hrequest hfree fun share hshare hj => absurd hj (hunshared share hshare)
  · rw [hfound]
    refine ⟨hsession, hrequest, ⟨haborted, deps, hcall, hgate, hrows row hrow⟩, ?_, fun _ => hfree⟩
    exact fun share hshare hj => absurd hj (hunshared share hshare)
  · rw [hfound]
    refine ⟨hsession, hrequest, ⟨haborted, hgrantId, hdecision, ?_⟩, ?_, fun _ => hfree⟩
    · exact fun deps id hcall => absurd hcall (hmark deps id)
    · exact fun share hshare hj => absurd hj (hunshared share hshare)

theorem found_settled (edition : Edition) (hgrantId : request.grantId = some grantId) (rows : List ShareGrantRow) :
    (edition.found request grantId rows).settled = none := by
  obtain ⟨code, reason, hfound⟩ | ⟨deps, row, -, -, -, hfound⟩ | ⟨decision, -, -, hfound⟩ :=
    found_cases edition hgrantId rows
  · rw [hfound]
    exact finishes_settled edition fun _ => Answer.noConfusion
  · rw [hfound]
    rfl
  · rw [hfound]
    rfl

theorem finding_goes (h : Sound table requests queue) (hcall : Placed sha256Hex edition requests queue j call)
    (hstage : call.stage = .finding) (turn : Turn) :
    Goes sha256Hex edition table requests queue j call (step sha256Hex edition queue call turn) := by
  have hfits := hcall.fits
  rw [hstage] at hfits
  have hunshared := hcall.unshared (by simp [hstage, Stage.Knows])
  have hfree := hcall.free (by simp [hstage, Stage.writes])
  simp only [step, hstage]
  split
  · rename_i grantId hgrantId
    refine sends_fails h hcall hfits (fun queue' _ hreply => ?_) (fun queue' rows hreply => ?_) turn.outcome
    · cases hreply
      exact ⟨h, .refl j queue, rfl⟩
    · obtain ⟨rfl, hrows⟩ := Reply.done.inj hreply
      rw [hcall.session] at hrows
      have hstands : ∀ row ∈ rows, Stands (edition.done j queue) row := fun row hrow =>
        Stands.moves ⟨row, listed_row hfree hrows.symm hrow, .refl row⟩ (done_moves h edition j)
      have hunshared' : Unshared (edition.done j queue) j := by rwa [Unshared, done_shares]
      refine ⟨found_placed hcall.session hcall.request hfits hunshared' (done_free hfree edition) hgrantId hstands,
        not_stands (found_settled edition hgrantId rows)⟩
  · exact ⟨h, .refl j queue, hcall, .inl rfl, fun _ => .inl⟩

theorem dead_placed (hcall : Placed sha256Hex edition requests queue j call) (hfree : queue'.Free j) :
    Placed sha256Hex edition requests queue' j { call with stage := .dead } :=
  ⟨hcall.session, hcall.request, trivial, fun _ _ _ => trivial, fun _ => hfree⟩

theorem creating_goes (h : Sound table requests queue) (hcall : Placed sha256Hex edition requests queue j call)
    (hstage : call.stage = .creating row) (turn : Turn) :
    Goes sha256Hex edition table requests queue j call (step sha256Hex edition queue call turn) := by
  obtain rfl := hcall.session
  have hfits := hcall.fits
  rw [hstage] at hfits
  obtain ⟨haborted, deps, hrequest, hgate, hstands⟩ := hfits
  have hunshared := hcall.unshared (by simp [hstage, Stage.Knows])
  have hfree := hcall.free (by simp [hstage, Stage.writes])
  have hpassed : Passed deps queue row.id := by
    obtain ⟨row', hrow', hfollows⟩ := hstands
    exact ⟨row', hrow', hfollows.id, (gate_congr hfollows.grant deps).trans hgate⟩
  have hsound := share_sound h call.session row.id
  have hmoves := share_moves queue call.session row.id
  have hshares : ∃ deps grantId, (queue.share call.session row.id).shares = queue.shares ++ [(call.session, grantId)] ∧
      (∀ share ∈ queue.shares, share.1 ≠ call.session) ∧ requests[call.session]? = some (.apply deps grantId) ∧
        Passed deps queue grantId :=
    ⟨deps, row.id, rfl, hunshared, hcall.request.trans (congrArg some hrequest), hpassed⟩
  have hrefused : ∀ reason, (edition.finishes (.refused "target_refused" reason)).settled = none :=
    fun _ => finishes_settled edition fun _ => Answer.noConfusion
  have hdecision : call.request.decision = some deps.decision := by
    rw [hrequest]
    rfl
  simp only [step, hstage, hdecision]
  cases turn.outcome with
  | runs =>
    simp only [Edition.creates]
    refine ⟨hsound, hmoves, ⟨hcall.session, hcall.request, ⟨haborted, ?_, hdecision, ?_⟩, fun _ _ _ => trivial, ?_⟩,
      .inr hshares, not_stands rfl⟩
    · dsimp only
      rw [hrequest]
      rfl
    · intro deps' id hrequest'
      obtain ⟨rfl, rfl⟩ := Request.apply.inj (hrequest.symm.trans hrequest')
      exact ⟨List.mem_append_right _ (List.mem_singleton_self _), hpassed.moves hmoves⟩
    · exact fun _ => hfree
  | refused reason | unsent reason =>
    refine ⟨h, .refl call.session queue, ?_, .inl rfl, not_stands (hrefused reason)⟩
    exact refusal_placed hcall.session hcall.request hfree fun share hshare hj => absurd hj (hunshared share hshare)
  | unheard reason =>
    simp only [Edition.creates]
    refine ⟨hsound, hmoves, ?_, .inr hshares, not_stands (hrefused reason)⟩
    have hshared : (queue.share call.session row.id).Free call.session := hfree
    exact refusal_placed rfl hcall.request hshared fun _ _ _ => .inl rfl
  | dies carriedOut =>
    simp only [Edition.creates]
    cases carriedOut with
    | true =>
      exact ⟨rollback_sound hsound call.session, hmoves.trans (rollback_moves _ call.session), dead_placed hcall
        (rollback_free _ call.session), .inr hshares,
        not_stands rfl⟩
    | false =>
      exact ⟨rollback_sound h call.session, rollback_moves queue call.session, dead_placed hcall
        (rollback_free queue call.session), .inl rfl, not_stands rfl⟩

theorem auditing_placed (hcall : Placed sha256Hex edition requests queue j call)
    (hstage : call.stage = .auditing row) (hmoves : Moves j queue queue') (hshares : queue'.shares = queue.shares)
    {aborted : Bool} (hheld : aborted = false → edition.inTransaction = true → Held queue' j row)
    (hfree : edition.inTransaction = false → queue'.Free j) :
    Placed sha256Hex edition requests queue' j
        { call with stage := edition.finishes (.settled row), aborted := aborted } := by
  have hfits := hcall.fits
  rw [hstage] at hfits
  obtain ⟨-, hby, hrow⟩ := hfits
  have hby' : SettledBy requests queue'.shares row j := by rwa [hshares]
  refine finishes_placed hcall.session hcall.request ?_ ?_ ?_
  · exact fun htransaction => ⟨hby', fun haborted => hheld haborted htransaction⟩
  · intro hauto
    rw [if_neg (by simp [hauto])] at hrow
    exact ⟨⟨hby', fun _ => hrow.moves hmoves⟩, hfree hauto⟩
  · intro share hshare hj
    rw [hshares] at hshare
    have hknows := hcall.knows share hshare hj
    rwa [hstage] at hknows

theorem auditing_goes (h : Sound table requests queue) (hcall : Placed sha256Hex edition requests queue j call)
    (hstage : call.stage = .auditing row) (turn : Turn) :
    Goes sha256Hex edition table requests queue j call (step sha256Hex edition queue call turn) := by
  have hfits := hcall.fits
  rw [hstage] at hfits
  obtain ⟨haborted, -, hrow⟩ := hfits
  have hfree : edition.inTransaction = false → queue.Free j := fun hauto => hcall.free (by simp [hauto])
  have hstands : ∀ aborted row', { call with stage := edition.finishes (.settled row), aborted := aborted }.stands =
    some row' →
      call.stands = some row' := by
    intro aborted row' hrow'
    have hcallstands : call.stands = some row := by simp [Caller.stands, haborted, hstage, Stage.settled]
    rw [hcallstands]
    unfold Edition.finishes Caller.stands at hrow'
    cases aborted with
    | true => cases hrow'
    | false => cases htransaction : edition.inTransaction <;> simpa [htransaction, Stage.settled] using hrow'
  have hdone : ∀ queue', queue' = queue → Held (edition.done j queue') j row ∨ edition.inTransaction = false := by
    rintro queue' rfl
    cases htransaction : edition.inTransaction with
    | false => exact .inr rfl
    | true =>
      rw [if_pos htransaction] at hrow
      rw [done_transaction htransaction]
      exact .inl hrow
  simp only [step, hstage]
  refine sends_goes h hcall haborted (fun queue' _ hreply => ?_) (fun queue' _ hreply => ?_) ?_ turn.outcome
  · cases hreply
    exact ⟨h, .refl j queue, rfl⟩
  · cases hreply
    refine ⟨?_, fun row' hrow' => .inl (hstands call.aborted row' hrow')⟩
    refine auditing_placed hcall hstage (done_moves h edition j) (done_shares edition j queue)
      (fun _ htransaction => ?_) fun hauto => done_free (hfree hauto) edition
    exact (hdone queue rfl).resolve_right (by simp [htransaction])
  · intro error queue' aborted hmoves hshares hqueue
    refine ⟨?_, hstands aborted⟩
    obtain ⟨rfl, rfl⟩ | ⟨rfl, rfl | ⟨queue'', answer, hreply, rfl⟩⟩ := hqueue
    · refine auditing_placed hcall hstage hmoves hshares (fun haborted' htransaction => ?_) fun _ =>
        rollback_free queue j
      rw [haborted'] at htransaction
      cases htransaction
    · refine auditing_placed hcall hstage hmoves hshares (fun _ htransaction => ?_) hfree
      rwa [if_pos htransaction] at hrow
    · cases hreply
      refine auditing_placed hcall hstage hmoves hshares (fun _ htransaction => ?_) fun hauto =>
        done_free (hfree hauto) edition
      exact (hdone queue rfl).resolve_right (by simp [htransaction])

theorem settling_goes (h : Sound table requests queue) (hcall : Placed sha256Hex edition requests queue j call)
    (hrequests : ∀ share ∈ queue.shares, ∃ deps, requests[share.1]? = some (.apply deps share.2) ∧
      Passed deps queue share.2)
    {decision : Decision} (hstage : call.stage = .settling grantId decision) (turn : Turn) :
    Goes sha256Hex edition table requests queue j call (step sha256Hex edition queue call turn) := by
  have hfits := hcall.fits
  rw [hstage] at hfits
  obtain ⟨haborted, hgrantId, hdecision, happly⟩ := hfits
  have hfree := hcall.free (by simp [hstage, Stage.writes])
  have hmine : ∀ share ∈ queue.shares, share.1 = j → share.2 = grantId ∧ ∃ deps, Passed deps queue grantId := by
    intro share hshare hj
    obtain ⟨deps, hrequest, hpassed⟩ := hrequests share hshare
    rw [hj] at hrequest
    have hcallrequest := Option.some.inj (hcall.request.symm.trans hrequest)
    rw [hcallrequest] at hgrantId
    have hid : share.2 = grantId := Option.some.inj hgrantId
    rw [hid] at hpassed
    exact ⟨hid, deps, hpassed⟩
  -- the row that the UPDATE settles is the one that the gates have seen
  have hsettled : ∀ c ∈ queue.cells, c.latest.state = .opened → c.latest.id = grantId →
      SettledBy requests queue.shares (c.latest.settle decision turn.now) j := by
    intro c hc hopen hid
    refine ⟨call.request, decision, c.latest, turn.now, hcall.request, ?_, hdecision, hopen, rfl,
      fun deps id hrequest => ?_⟩
    · rw [hgrantId]
      exact congrArg some hid.symm
    · obtain ⟨hshare, row, hrow, hrowid, hgate⟩ := happly deps id hrequest
      rw [hrequest] at hgrantId
      obtain rfl : id = grantId := Option.some.inj hgrantId
      obtain ⟨c', hc', hcommitted⟩ := Cells.mem_rows.mp hrow
      have hbase : c'.base = row := by
        cases c' with
        | inserted owner row' => cases hcommitted
        | kept row' written => exact Option.some.inj hcommitted
      have hfollows := h.follows c hc
      have hids : c'.base.id = c.base.id := by rw [hbase, hrowid, ← hid, hfollows.id]
      obtain rfl := Cells.eq_of_key (·.id) h.ids hc' hc hids
      rw [hbase] at hfollows
      refine ⟨?_, ?_⟩
      · rw [← hgate]
        exact gate_congr hfollows.grant deps
      · have hid' : (c'.latest.settle decision turn.now).id = id := hid
        rwa [hid']
  simp only [step, hstage, hcall.session]
  refine sends_fails h hcall haborted (fun queue' answer hreply => ?_) (fun queue' answer hreply => ?_) turn.outcome
  · obtain ⟨rfl, -, -⟩ | ⟨c, hc, hopen, hid, -, -, hmoves, hshares, -, hsound⟩ := decide_done h hreply
    · exact ⟨h, .refl j _, rfl⟩
    · exact ⟨hsound (.inr (.inr ⟨j, hsettled c hc hopen hid⟩)), hmoves, hshares⟩
  · obtain ⟨rfl, rfl, hnone⟩ | ⟨c, hc, hopen, hid, hoffered, rfl, hmoves, hshares, ⟨c', hc', hholder, hlatest⟩,
      hsound⟩ :=
      decide_done h hreply
    · refine ⟨?_, not_stands ?_⟩
      · have hknows : ∀ share ∈ (edition.done j queue').shares, share.1 = j →
            (lostRace call.request).Tells (edition.done j queue').rows share.2 := by
          intro share hshare hj
          rw [done_shares] at hshare
          obtain ⟨hid, deps, row, hrow, hrowid, -⟩ := hmine share hshare hj
          have hrowstate : row.state ≠ .opened := by
            intro hopen
            obtain ⟨c, hc, hcommitted⟩ := Cells.mem_rows.mp hrow
            have hoffers := hnone c hc
            have hsees : c.sees j = some row := by rw [Cell.sees, if_neg (hfree c hc), hcommitted]
            rw [offers_iff.mpr ⟨row, hsees, hrowid, hopen⟩] at hoffers
            cases hoffers
          obtain ⟨row', hrow', hfollows⟩ := (done_moves h edition j).rows row hrow
          have htells : ∃ row ∈ (edition.done j queue').rows, row.id = share.2 ∧ row.state ≠ .opened :=
            ⟨row', hrow', by rw [hfollows.id, hrowid, hid], by rwa [hfollows.state hrowstate]⟩
          cases call.request with
          | refresh scans => exact .inr ⟨rfl, htells⟩
          | apply deps id => exact .inr ⟨rfl, htells⟩
          | mark decidedBy id tick reason => exact .inr ⟨rfl, htells⟩
        have hrefused : ∃ code reason, lostRace call.request = .refused code reason := by
          cases call.request with
          | refresh scans => exact ⟨_, _, rfl⟩
          | apply deps id => exact ⟨_, _, rfl⟩
          | mark decidedBy id tick reason => exact ⟨_, _, rfl⟩
        obtain ⟨code, reason, hrace⟩ := hrefused
        rw [hrace] at hknows
        dsimp only
        rw [hrace]
        exact refusal_placed hcall.session hcall.request (done_free hfree edition) hknows
      · apply finishes_settled
        cases call.request <;> exact fun _ => Answer.noConfusion
    · have hby := hsettled c hc hopen hid
      have hheld : Held queue' j (c.latest.settle decision turn.now) := ⟨c', hc', hholder, hlatest⟩
      refine ⟨⟨hcall.session, hcall.request, ⟨haborted, ?_, ?_⟩, ?_, fun hauto => ?_⟩, fun row hrow => .inr ?_⟩
      · rwa [done_shares, hshares]
      · split
        · rename_i htransaction
          rwa [done_transaction htransaction]
        · rename_i htransaction
          rw [done_auto (by simpa using htransaction)]
          exact held_commit hheld
      · intro share hshare hj
        rw [done_shares, hshares] at hshare
        exact hid.trans (hmine share hshare hj).1.symm
      · rw [done_auto (by simpa [Stage.writes] using hauto)]
        exact commit_free queue' j
      · have hrow' : some (c.latest.settle decision turn.now) = some row := by
          simpa [Caller.stands, haborted, Stage.settled] using hrow
        rw [← Option.some.inj hrow']
        have hid' : (c.latest.settle decision turn.now).id = grantId := hid
        rwa [hid']

theorem ends_moves (h : Sound table requests queue) (hsession : call.session = j) :
    Sound table requests (call.ends queue) ∧ Moves j queue (call.ends queue) ∧ (call.ends queue).shares = queue.shares ∧
      (call.ends queue).Free j := by
  unfold Caller.ends
  rw [hsession]
  split
  · exact ⟨rollback_sound h j, rollback_moves queue j, rfl, rollback_free queue j⟩
  · exact ⟨commit_sound h j, commit_moves h j, rfl, commit_free queue j⟩

theorem committing_goes (h : Sound table requests queue) (hcall : Placed sha256Hex edition requests queue j call)
    {answer : Answer} (hstage : call.stage = .committing answer) (turn : Turn) :
    Goes sha256Hex edition table requests queue j call (step sha256Hex edition queue call turn) := by
  obtain rfl := hcall.session
  have hfits := hcall.fits
  rw [hstage] at hfits
  obtain ⟨htransaction, hanswer⟩ := hfits
  obtain ⟨hsound, hmoves, hshares, hfree⟩ := ends_moves h rfl
  have hback : ∀ error queue' aborted,
      Placed sha256Hex edition requests queue' call.session { call with stage := .rollingBack error, aborted :=
        aborted } := by
    intro error queue' aborted
    exact ⟨hcall.session, hcall.request, trivial, fun _ _ _ => trivial, by simp [htransaction, Stage.writes]⟩
  simp only [step, hstage]
  cases turn.outcome with
  | runs =>
    refine ⟨hsound, hmoves, ⟨hcall.session, hcall.request, ?_, ?_, fun _ => hfree⟩, .inl hshares, ?_⟩
    · cases answer with
      | settled row =>
        refine ⟨by rw [commits, hshares]; exact hanswer.1, fun haborted => ?_⟩
        have haborted' : call.aborted = false := haborted
        simp only [commits, Caller.ends, haborted']
        exact held_commit (hanswer.2 haborted)
      | refreshed opened blindSpots =>
        obtain ⟨scans, grants, hscans, hgather, hgrants⟩ := hanswer
        refine ⟨scans, grants, hscans, hgather, fun grant hgrant => ?_⟩
        obtain ⟨haborted, hcovered⟩ := hgrants grant hgrant
        simp only [commits, Caller.ends, haborted]
        exact covered_commit h hcovered
      | refused code reason => trivial
    · intro share hshare hj
      rw [commits, hshares] at hshare
      have hknows := hcall.knows share hshare hj
      rw [hstage] at hknows
      exact Answer.Tells.moves hknows hmoves
    · intro row hrow
      refine .inl ?_
      have hsettled : (Stage.returned (.ok answer)).settled = (Stage.committing answer).settled := by
        cases answer <;> rfl
      rw [Caller.stands, hstage, ← hsettled]
      exact hrow
  | refused error =>
    simp only [commits]
    exact ⟨rollback_sound h call.session, rollback_moves queue call.session, hback error _ true, .inl rfl,
      not_stands rfl⟩
  | unsent error =>
    exact ⟨h, .refl call.session queue, hback error _ call.aborted, .inl rfl,
      not_stands rfl⟩
  | unheard error =>
    exact ⟨hsound, hmoves, hback error _ call.aborted, .inl hshares,
      not_stands rfl⟩
  | dies carriedOut =>
    simp only [commits]
    cases carriedOut with
    | true =>
      exact ⟨rollback_sound hsound call.session, hmoves.trans (rollback_moves _ call.session), dead_placed hcall
        (rollback_free _ call.session), .inl hshares,
        not_stands rfl⟩
    | false =>
      exact ⟨rollback_sound h call.session, rollback_moves queue call.session, dead_placed hcall
        (rollback_free queue call.session), .inl rfl,
        not_stands rfl⟩

theorem rollingBack_goes (h : Sound table requests queue) (hcall : Placed sha256Hex edition requests queue j call)
    {error : String} (hstage : call.stage = .rollingBack error) (turn : Turn) :
    Goes sha256Hex edition table requests queue j call (step sha256Hex edition queue call turn) := by
  obtain rfl := hcall.session
  have hgoes : ∀ stage, stage = .dead ∨ stage = .returned (.error error) →
      Goes sha256Hex edition table requests queue call.session call
        (queue.rollback call.session, { call with stage := stage }) := by
    rintro stage (rfl | rfl)
    all_goals
      refine ⟨rollback_sound h _, rollback_moves queue _,
        ⟨rfl, hcall.request, trivial, fun _ _ _ => trivial, fun _ => rollback_free queue _⟩, .inl rfl, not_stands rfl⟩
  simp only [step, hstage]
  cases turn.outcome with
  | dies carriedOut => exact hgoes _ (.inl rfl)
  | runs | refused | unsent | unheard => exact hgoes _ (.inr rfl)

theorem step_goes {x : World} (h : Ordered sha256Hex edition table requests x) (hj : x.1[j]? = some call)
    (turn : Turn) :
    Goes sha256Hex edition table requests x.2 j call (step sha256Hex edition x.2 call turn) := by
  have hcall := h.placed j call hj
  have hsame : Goes sha256Hex edition table requests x.2 j call (x.2, call) :=
    ⟨h.sound, .refl j x.2, hcall, .inl rfl, fun _ => .inl⟩
  cases hstage : call.stage with
  | beginning => exact beginning_goes h.sound hcall hstage turn
  | upserting rest opened blindSpots =>
    cases rest with
    | nil =>
      simp only [step, hstage]
      exact hsame
    | cons grant rest => exact upserting_goes h.sound hcall hstage turn
  | finding => exact finding_goes h.sound hcall hstage turn
  | creating row => exact creating_goes h.sound hcall hstage turn
  | settling grantId decision => exact settling_goes h.sound hcall h.shares hstage turn
  | auditing row => exact auditing_goes h.sound hcall hstage turn
  | committing answer => exact committing_goes h.sound hcall hstage turn
  | rollingBack error => exact rollingBack_goes h.sound hcall hstage turn
  | returned result =>
    simp only [step, hstage]
    exact hsame
  | dead =>
    simp only [step, hstage]
    exact hsame

end Steps

section Run

variable {sha256Hex : String → String} {edition : Edition} {table : ShareTable} {requests : List Request}

theorem Ordered.turn {x : World} (h : Ordered sha256Hex edition table requests x) (ch : ℕ × Turn) :
    Ordered sha256Hex edition table requests (turn (step sha256Hex edition) x ch) ∧
      Cells.Later Follows x.2.rows (turn (step sha256Hex edition) x ch).2.rows := by
  obtain ⟨-, hsame⟩ | ⟨call, hj, hturn⟩ := turn_cases (step sha256Hex edition) x ch
  · rw [hsame]
    exact ⟨h, later_refl _⟩
  · have hgoes := step_goes h hj ch.2
    rw [hturn]
    exact ⟨hgoes.ordered h hj, hgoes.moves.rows⟩

theorem Ordered.turns {x : World} (h : Ordered sha256Hex edition table requests x) (chs : List (ℕ × Turn)) :
    Ordered sha256Hex edition table requests (turns (step sha256Hex edition) x chs) ∧
      Cells.Later Follows x.2.rows (turns (step sha256Hex edition) x chs).2.rows := by
  induction chs generalizing x with
  | nil => exact ⟨h, later_refl _⟩
  | cons ch chs ih =>
    obtain ⟨hnext, hlater⟩ := h.turn ch
    obtain ⟨hlast, hlater'⟩ := ih hnext
    refine ⟨hlast, fun row hrow => ?_⟩
    obtain ⟨row', hrow', hfollows⟩ := hlater row hrow
    obtain ⟨row'', hrow'', hfollows'⟩ := hlater' row' hrow'
    exact ⟨row'', hrow'', hfollows.trans hfollows'⟩

theorem opening_ordered (sha256Hex : String → String) (edition : Edition) (table : ShareTable)
    (requests : List Request) :
    Ordered sha256Hex edition table requests (table.opening sha256Hex edition requests) := by
  have hcell : ∀ {P : Cell ShareGrantRow → Prop}, (∀ row ∈ table.rows, P (.kept row none)) →
      ∀ c ∈ (table.opening sha256Hex edition requests).2.cells, P c := by
    intro P hP c hc
    obtain ⟨row, hrow, rfl⟩ := List.mem_map.mp hc
    exact hP row hrow
  have hfree : ∀ j, (table.opening sha256Hex edition requests).2.Free j := fun j => hcell fun row _ hholder =>
    by cases hholder
  have hexplained : ∀ row ∈ table.rows, Explained table requests [] row := by
    intro row hrow
    by_cases hopen : row.state = .opened
    · exact .inl hopen
    · exact .inr (.inl ⟨row, hrow, hopen, .refl row⟩)
  constructor
  · refine ⟨?_, ?_, hcell fun row _ => .refl row, hcell hexplained, hcell hexplained⟩
    · rw [ShareTable.opening, List.map_map]
      exact table.ids
    · rw [ShareTable.opening, List.map_map]
      exact table.hashes
  · intro j call hj
    obtain ⟨request, hrequest, rfl⟩ : ∃ request, requests[j]? = some request ∧
        request.caller sha256Hex edition j = call := by simpa [ShareTable.opening] using hj
    have hbefore : Unshared (table.opening sha256Hex edition requests).2 j := fun share hshare => by cases hshare
    unfold Request.caller
    split
    · exact ⟨rfl, hrequest, rfl, fun share hshare hj => absurd hj (hbefore share hshare), fun _ => hfree j⟩
    · exact starts_placed rfl hrequest rfl hbefore (hfree j)
  · refine hcell fun row _ k hk => ?_
    cases hk
  · exact List.nodup_nil
  · intro share hshare
    cases hshare
  · intro j k call other row row' hj _ hrow
    obtain ⟨request, -, rfl⟩ : ∃ request, requests[j]? = some request ∧
        request.caller sha256Hex edition j = call := by simpa [ShareTable.opening] using hj
    unfold Request.caller at hrow
    split at hrow
    · cases hrow
    · exact (not_stands (P := fun _ => False) (starts_settled sha256Hex edition request) row hrow).elim

theorem got_stands {call : Caller} {row : ShareGrantRow} (h : call.got = some row) :
    call.stands = some row ∧ call.aborted = false ∧ call.stage = .returned (.ok (.settled row)) := by
  unfold Caller.got at h
  split at h
  · rename_i row' haborted hstage
    obtain rfl := Option.some.inj h
    exact ⟨by simp [Caller.stands, haborted, hstage, Stage.settled], haborted, hstage⟩
  · cases h

theorem Ordered.settledOnce {x y : World} (h : Ordered sha256Hex edition table requests y)
    (hlater : Cells.Later Follows x.2.rows y.2.rows) : SettledOnce sha256Hex table requests x y := by
  constructor
  · exact Cells.nodup_rows ShareGrantRow.id h.sound.ids
  · exact Cells.nodup_rows (fun row : ShareGrantRow => row.grantHash) h.sound.hashes
  · exact hlater
  · intro row hrow hsettled
    obtain ⟨c, hc, hcommitted⟩ := Cells.mem_rows.mp hrow
    have hbase := h.sound.base c hc
    cases c with
    | inserted owner row' => cases hcommitted
    | kept row' written =>
      obtain rfl := Option.some.inj hcommitted
      exact hbase.resolve_left hsettled
  · intro j call row hj hgot
    obtain ⟨hstands, haborted, hstage⟩ := got_stands hgot
    have hfits := (h.placed j call hj).fits
    rw [hstage] at hfits
    refine ⟨hfits.1, hfits.2 haborted, fun k other row' hk hgot' hid => ?_⟩
    exact h.sole k j other call row' row hk hj (got_stands hgot').1 hstands hid
  · intro j call opened blindSpots hj hstage
    have hfits := (h.placed j call hj).fits
    rw [hstage] at hfits
    exact hfits
  · exact h.oneShare
  · intro share hshare
    obtain ⟨deps, hrequest, hpassed⟩ := h.shares share hshare
    refine ⟨deps, hrequest, hpassed, fun call answer hj hstage => ?_⟩
    have hknows := (h.placed share.1 call hj).knows share hshare rfl
    rw [hstage] at hknows
    exact hknows
  · intro c hc j hj
    obtain ⟨call, hcall⟩ : ∃ call, y.1[j]? = some call := ⟨_, List.getElem?_eq_getElem (h.owners c hc j hj)⟩
    refine ⟨call, hcall, ?_⟩
    by_contra hover
    have hwrites : call.stage.writes = false := by
      cases hstage : call.stage <;> simp_all [Stage.running, Stage.writes]
    exact (h.placed j call hcall).free (by simp [hwrites]) c hc hj

end Run

end OpenMigrate.Sharing
