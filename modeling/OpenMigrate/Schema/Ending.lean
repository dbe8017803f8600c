import OpenMigrate.Schema.Racing

namespace OpenMigrate.Schema

open Async

variable {Version : Type}

section Source

def Stage.ended : Stage Version → Bool
  | returned _ | dead => true
  | _ => false

/-- A bound on the statements that a call still has to send. -/
def Stage.rank (versions : ℕ) : Stage Version → ℕ
  | acquiring => 4 * versions + 6
  | locking => 4 * versions + 5
  | creating => 4 * versions + 4
  | selecting => 4 * versions + 3
  | beginning p _ => 4 * p.rest.length + 6
  | executing p _ => 4 * p.rest.length + 5
  | inserting p _ => 4 * p.rest.length + 4
  | committing p _ => 4 * p.rest.length + 3
  | rollingBack _ _ => 2
  | unlocking _ => 1
  | returned _ | dead => 0

variable [LinearOrder Version]

def Migrator.rank (m : Migrator Version) : ℕ := m.stage.rank m.build.versions.length

/-- On its way to the lock. -/
def Migrator.Wants (m : Migrator Version) : Prop := m.stage = .acquiring ∨ m.connected = true ∧ m.stage = .locking

/-- A call whose driver is not its own to end, and which has not unlocked or cannot, its session being in a transaction
that failed. -/
def Migrator.KeepsLock (db : Database Version) (m : Migrator Version) : Prop :=
  m.build.ownsDriver = false ∧ db.lock = some m.session ∧
    (m.stage.ended = true ∨ m.connected = true ∧ m.transaction = .aborted ∧ ∃ result, m.stage = .unlocking result)

/-- Whoever has the lock is inside, or has returned without unlocking. -/
def Held (x : List (Migrator Version) × Database Version) : Prop :=
  ∀ k ∈ x.2.lock, ∃ m, x.1[k]? = some m ∧ (m.Inside ∨ m.stage.ended = true ∧ m.build.ownsDriver = false)

/-- No call keeps the lock that others want. -/
def Free (x : List (Migrator Version) × Database Version) : Prop :=
  ∀ m ∈ x.1, m.KeepsLock x.2 → ∀ n ∈ x.1, ¬ n.Wants

variable [ToString Version]

/-- Some order of turns, each with a statement that runs, brings every call to its end. -/
def CanEnd (x : List (Migrator Version) × Database Version) : Prop :=
  ∃ chs : List (ℕ × Outcome), (∀ ch ∈ chs, ch.2 = .runs) ∧ ∀ m ∈ (turns step x chs).1, m.stage.ended = true

end Source

section Ranks

theorem inside_not_ended {stage : Stage Version} (h : stage.inside = true) : stage.ended = false := by
  cases stage <;> simp_all [Stage.inside, Stage.ended]

theorem statement_not_ended {stage : Stage Version} {statement : Statement Version}
    (h : stage.statement = some statement) : stage.ended = false := by
  cases stage <;> simp_all [Stage.statement, Stage.ended]

theorem rank_eq_zero {stage : Stage Version} {versions : ℕ} : stage.rank versions = 0 ↔ stage.ended = true := by
  cases stage <;> simp [Stage.rank, Stage.ended]

theorem statement_lock {stage : Stage Version} (h : stage.statement = some .lock) : stage = .locking := by
  cases stage <;> simp_all [Stage.statement]

variable [LinearOrder Version] {db db' : Database Version} {m : Migrator Version}

theorem next_rank (p : Progress Version) (versions : ℕ) : p.next.rank versions ≤ 4 * p.rest.length + 2 := by
  unfold Progress.next
  split
  · rename_i version rest hrest
    simp only [Stage.rank, hrest, List.length_cons]
    omega
  · simp [Stage.rank]

theorem onError_rank {statement : Statement Version} (hstatement : m.stage.statement = some statement)
    (error : String) :
    (m.onError error).rank m.build.versions.length < m.rank := by
  obtain ⟨session, build, stage, connected, transaction⟩ := m
  cases stage <;> simp_all [Migrator.onError, Migrator.rank, Stage.rank, Stage.statement]

theorem arrive_rank (m : Migrator Version) (db : Database Version) (stage : Stage Version) :
    (m.arrive db stage).2.rank = stage.rank m.build.versions.length := by
  unfold Migrator.arrive
  split
  · split <;> rfl
  · rfl

/-- The only statement that waits is the lock, for another session. -/
theorem answer_waits {session : ℕ} {transaction : Transaction Version} {statement : Statement Version}
    (h : answer session db transaction statement = .waits) :
    statement = .lock ∧ ∃ holder, db.lock = some holder ∧ holder ≠ session := by
  unfold answer at h
  split at h
  case h_5 =>
    split at h
    · cases h
    · rename_i holder hlock
      split at h
      · cases h
      · rename_i hother
        exact ⟨rfl, holder, hlock, hother⟩
  all_goals
    first
    | cases h
    | split at h <;> cases h

/-- The lock is free or its own for the session that gets it, and only its holder's unlock gives it back. -/
theorem answer_lock {session : ℕ} {transaction transaction' : Transaction Version} {statement : Statement Version}
    (h : answer session db transaction statement = .done db' transaction') :
    statement = .lock ∧ (∀ holder ∈ db.lock, holder = session) ∧ db'.lock = some session ∨
      statement = .unlock ∧ db' = db.hangUp session ∨ statement ≠ .lock ∧ statement ≠ .unlock ∧ db'.lock = db.lock := by
  unfold answer at h
  split at h
  case h_5 =>
    split at h
    · rename_i hlock
      cases h
      exact .inl ⟨rfl, by simp [hlock], rfl⟩
    · rename_i holder hlock
      split at h
      · rename_i hown
        cases h
        subst hown
        exact .inl ⟨rfl, by simp [hlock], hlock⟩
      · cases h
  all_goals
    first
    | cases h <;> simp
    | (split at h <;> cases h); simp

variable [ToString Version]

theorem selected_rank (build : Build Version) (alreadyApplied : List Version) :
    (build.selected alreadyApplied).rank build.versions.length ≤ 4 * build.versions.length + 2 := by
  have hloop :
      (Progress.next ⟨alreadyApplied, [], build.versions.filter (· ∉ alreadyApplied)⟩).rank build.versions.length ≤
      4 * build.versions.length + 2 := by
    refine (next_rank _ _).trans ?_
    have hle := List.length_filter_le (fun v => decide (v ∉ alreadyApplied)) build.versions
    simp only
    omega
  unfold Build.selected
  split
  · split
    · simp [Stage.rank]
    · exact hloop
  · exact hloop

theorem onDone_rank {statement : Statement Version} (hstatement : m.stage.statement = some statement)
    (db : Database Version) : (m.onDone db).rank m.build.versions.length < m.rank := by
  obtain ⟨session, build, stage, connected, transaction⟩ := m
  cases stage with
  | acquiring | returned | dead => cases hstatement
  | selecting =>
    have hle := selected_rank build db.recorded
    exact Nat.lt_succ_of_le hle
  | committing p version =>
    have hle := next_rank { p with applied := p.applied ++ [version] } build.versions.length
    exact Nat.lt_succ_of_le hle
  | _ => simp [Migrator.onDone, Migrator.rank, Stage.rank]

theorem step_statement {statement : Statement Version} (hstatement : m.stage.statement = some statement)
    (db : Database Version) (outcome : Outcome) :
    step db m outcome = if m.connected = true then m.send db statement outcome else m.sendBroken db outcome := by
  unfold step
  split
  case h_4 => simp only [hstatement]
  all_goals
    rename_i hstage
    rw [hstage] at hstatement
    cases hstatement

/-- A turn in which the statement runs brings the call nearer to its end, or waits for the lock. -/
theorem runs_rank (db : Database Version) (hended : m.stage.ended = false) :
    (step db m .runs).2.rank < m.rank ∨
      m.Wants ∧ step db m .runs = (db, m) ∧ ∃ holder, db.lock = some holder ∧ holder ≠ m.session := by
  cases hstatement : m.stage.statement with
  | none =>
    left
    obtain ⟨session, build, stage, connected, transaction⟩ := m
    cases stage with
    | acquiring => exact Nat.lt_succ_self _
    | returned | dead => cases hended
    | _ => cases hstatement
  | some statement =>
    rw [step_statement hstatement]
    split
    · rename_i hconnected
      cases hanswer : answer m.session db m.transaction statement with
      | waits =>
        obtain ⟨rfl, hholder⟩ := answer_waits hanswer
        refine .inr ⟨.inr ⟨hconnected, statement_lock hstatement⟩, ?_, hholder⟩
        simp only [Migrator.send, hanswer]
      | refused error =>
        left
        simp only [Migrator.send, hanswer, arrive_rank]
        exact onError_rank hstatement error
      | done db' transaction =>
        left
        simp only [Migrator.send, hanswer, arrive_rank]
        exact onDone_rank hstatement db
    · left
      simp only [Migrator.sendBroken, arrive_rank]
      exact onError_rank hstatement _

end Ranks

section Locks

variable {db db' : Database Version}

theorem hangUp_lock {session k : ℕ} : (db.hangUp session).lock = some k ↔ db.lock = some k ∧ k ≠ session := by
  unfold Database.hangUp
  by_cases h : db.lock = some session
  · simp [h]
    omega
  · simp only [h, if_false]
    exact ⟨fun hk => ⟨hk, fun heq => h (heq ▸ hk)⟩, And.left⟩

theorem statement_unlock {stage : Stage Version} (h : stage.statement = some .unlock) :
    ∃ result, stage = .unlocking result := by
  cases stage <;> simp_all [Stage.statement]

variable [LinearOrder Version] {m m₁ : Migrator Version} {stage : Stage Version} {statement : Statement Version}

/-- What a turn of `m` makes of the lock. -/
structure Passed (db db' : Database Version) (m m' : Migrator Version) : Prop where
  others : ∀ k, k ≠ m.session → (db'.lock = some k ↔ db.lock = some k)
  own : db'.lock = some m.session → m'.Inside ∨ m'.stage.ended = true ∧ m.build.ownsDriver = false

theorem lost_others {session k : ℕ} (hk : k ≠ session) (db : Database Version) (transaction : Transaction Version)
    (statement : Statement Version) (carriedOut : Bool) :
    (lost session db transaction statement carriedOut).lock = some k ↔ db.lock = some k := by
  have hhangs : (db.hangUp session).lock = some k ↔ db.lock = some k := by
    rw [hangUp_lock]
    exact and_iff_left hk
  cases carriedOut with
  | false => exact hhangs
  | true =>
    simp only [lost]
    split
    · rename_i db' transaction' hanswer
      rw [hangUp_lock, and_iff_left hk]
      obtain ⟨-, hholder, hlock⟩ | ⟨-, rfl⟩ | ⟨-, -, hlock⟩ := answer_lock hanswer
      · rw [hlock]
        refine ⟨fun h => absurd (Option.some.inj h).symm hk, fun h => absurd (hholder k h) hk⟩
      · exact hhangs
      · rw [hlock]
    · exact hhangs

theorem lost_own (session : ℕ) (db : Database Version) (transaction : Transaction Version)
    (statement : Statement Version) (carriedOut : Bool) :
    (lost session db transaction statement carriedOut).lock ≠ some session := by
  have hhangs : ∀ db : Database Version, (db.hangUp session).lock ≠ some session :=
    fun db h => (hangUp_lock.mp h).2 rfl
  cases carriedOut with
  | false => exact hhangs db
  | true =>
    simp only [lost]
    split
    · exact hhangs _
    · exact hhangs db

theorem onError_inside (hstatement : m.stage.statement = some statement) (hinside : m.stage.inside = true)
    (error : String) :
    (m.onError error).inside = true ∨ ∃ result, m.onError error = .returned result := by
  obtain ⟨session, build, stage, connected, transaction⟩ := m
  cases stage <;> simp_all [Migrator.onError, Stage.inside, Stage.statement]

theorem arrive_passed (hsession : m₁.session = m.session) (hbuild : m₁.build = m.build)
    (hothers : ∀ k, k ≠ m.session → (db'.lock = some k ↔ db.lock = some k))
    (hown : db'.lock = some m.session →
      m₁.connected = true ∧ stage.inside = true ∨ ∃ result, stage = .returned result) :
    Passed db (m₁.arrive db' stage).1 m (m₁.arrive db' stage).2 := by
  unfold Migrator.arrive
  split
  · split
    · refine ⟨fun k hk => ?_, fun hlock => ?_⟩
      · rw [hangUp_lock, hsession, and_iff_left hk]
        exact hothers k hk
      · exact absurd hsession.symm (hangUp_lock.mp hlock).2
    · rename_i howns
      exact ⟨hothers, fun _ => .inr ⟨rfl, by simpa [hbuild] using howns⟩⟩
  · rename_i hreturned
    refine ⟨hothers, fun hlock => .inl ?_⟩
    obtain hin | ⟨result, hresult⟩ := hown hlock
    · exact hin
    · exact absurd hresult (hreturned result)

theorem next_inside (p : Progress Version) : p.next.inside = true := by
  unfold Progress.next
  split <;> rfl

variable [ToString Version]

theorem selected_inside (build : Build Version) (alreadyApplied : List Version) :
    (build.selected alreadyApplied).inside = true := by
  unfold Build.selected
  split
  · split
    · rfl
    · exact next_inside _
  · exact next_inside _

theorem onDone_inside (hstatement : m.stage.statement = some statement) (hunlock : statement ≠ .unlock)
    (db : Database Version) : (m.onDone db).inside = true := by
  obtain ⟨session, build, stage, connected, transaction⟩ := m
  cases stage with
  | acquiring | returned | dead => cases hstatement
  | selecting => exact selected_inside build db.recorded
  | committing => exact next_inside _
  | unlocking => exact absurd (Option.some.inj hstatement).symm hunlock
  | _ => rfl

theorem send_passed (hconnected : m.connected = true) (hstatement : m.stage.statement = some statement)
    (hown : db.lock = some m.session → m.stage.inside = true) (outcome : Outcome) :
    Passed db (m.send db statement outcome).1 m (m.send db statement outcome).2 := by
  have hraises : ∀ error, Passed db (m.send db statement (.raises error)).1 m (m.send db statement (.raises error)).2 :=
    fun error => arrive_passed rfl rfl (fun _ _ => Iff.rfl) fun hlock =>
      (onError_inside hstatement (hown hlock) error).imp_left fun h => ⟨hconnected, h⟩
  cases outcome with
  | runs =>
    cases hanswer : answer m.session db m.transaction statement with
    | waits =>
      simp only [Migrator.send, hanswer]
      exact ⟨fun _ _ => Iff.rfl, fun hlock => .inl ⟨hconnected, hown hlock⟩⟩
    | refused error =>
      simp only [Migrator.send, hanswer]
      exact hraises error
    | done db' transaction =>
      simp only [Migrator.send, hanswer]
      obtain ⟨rfl, hholder, hlock⟩ | ⟨rfl, rfl⟩ | ⟨-, hunlock, hlock⟩ := answer_lock hanswer
      · refine arrive_passed rfl rfl (fun k hk => ?_) fun _ =>
          .inl ⟨hconnected, onDone_inside hstatement (by simp) db⟩
        rw [hlock]
        exact ⟨fun h => absurd (Option.some.inj h).symm hk, fun h => absurd (hholder k h) hk⟩
      · refine arrive_passed rfl rfl (fun k hk => ?_) fun hlock => absurd rfl (hangUp_lock.mp hlock).2
        rw [hangUp_lock, and_iff_left hk]
      · exact arrive_passed rfl rfl (fun k _ => by rw [hlock]) fun _ =>
          .inl ⟨hconnected, onDone_inside hstatement hunlock db⟩
  | raises error => exact hraises error
  | breaks error carriedOut =>
    exact arrive_passed rfl rfl (fun k hk => lost_others hk db _ _ _) fun hlock =>
      absurd hlock (lost_own _ db _ _ _)
  | dies carriedOut =>
    exact ⟨fun k hk => lost_others hk db _ _ _, fun hlock => absurd hlock (lost_own _ db _ _ _)⟩

theorem step_passed (hown : db.lock = some m.session → m.Inside ∨ m.stage.ended = true ∧ m.build.ownsDriver = false)
    (outcome : Outcome) : Passed db (step db m outcome).1 m (step db m outcome).2 := by
  cases hstatement : m.stage.statement with
  | none =>
    obtain ⟨session, build, stage, connected, transaction⟩ := m
    cases stage with
    | acquiring =>
      have hlock : db.lock ≠ some session := by
        intro hlock
        obtain hin | hended := hown hlock
        · cases hin.2
        · cases hended.1
      cases outcome <;> exact ⟨fun _ _ => Iff.rfl, fun h => absurd h hlock⟩
    | returned | dead => exact ⟨fun _ _ => Iff.rfl, hown⟩
    | _ => cases hstatement
  | some statement =>
    have hended := statement_not_ended hstatement
    have hin : db.lock = some m.session → m.Inside := fun hlock =>
      (hown hlock).resolve_right fun h => absurd h.1 (by simp [hended])
    rw [step_statement hstatement]
    split
    · rename_i hconnected
      exact send_passed hconnected hstatement (fun hlock => (hin hlock).2) outcome
    · rename_i hconnected
      have hlock : db.lock ≠ some m.session := fun hlock => hconnected (hin hlock).1
      have harrive : ∀ error, Passed db (m.arrive db (m.onError error)).1 m (m.arrive db (m.onError error)).2 :=
        fun error => arrive_passed rfl rfl (fun _ _ => Iff.rfl) fun h => absurd h hlock
      cases outcome with
      | runs => exact harrive _
      | raises error | breaks error => exact harrive error
      | dies => exact ⟨fun _ _ => Iff.rfl, fun h => absurd h hlock⟩

end Locks

section Turns

variable [LinearOrder Version] {db : Database Version} {m : Migrator Version} {j : ℕ}

theorem Migrator.Wants.not_ended (h : m.Wants) : m.stage.ended = false := by
  obtain h | ⟨-, h⟩ := h <;> rw [h] <;> rfl

theorem Migrator.Inside.not_wants (h : m.Inside) : ¬ m.Wants := by
  obtain ⟨-, h⟩ := h
  rintro (hw | ⟨-, hw⟩) <;> rw [hw] at h <;> cases h

theorem Migrator.KeepsLock.not_wants (h : m.KeepsLock db) : ¬ m.Wants := by
  obtain ⟨-, -, h⟩ := h
  rintro (hw | ⟨-, hw⟩) <;> rw [hw] at h <;> obtain h | ⟨-, -, result, h⟩ := h <;> cases h

theorem arrive_stage (m : Migrator Version) (db : Database Version) (stage : Stage Version) :
    (m.arrive db stage).2.stage = stage := by
  unfold Migrator.arrive
  split
  · split <;> rfl
  · rfl

theorem Migrator.Wants.stage (h : m.Wants) : m.stage = .acquiring ∨ m.stage = .locking := h.imp_right And.right

theorem onError_stage {statement : Statement Version} (hstatement : m.stage.statement = some statement)
    (error : String) :
    m.onError error ≠ .acquiring ∧ m.onError error ≠ .locking := by
  obtain ⟨session, build, stage, connected, transaction⟩ := m
  cases stage <;> simp_all [Migrator.onError, Stage.statement]

theorem Migrator.Wants.not_arrive {m₁ : Migrator Version} {stage : Stage Version}
    (hstage : stage ≠ .acquiring ∧ stage ≠ .locking) : ¬ (m₁.arrive db stage).2.Wants := by
  intro h
  have hor := h.stage
  rw [arrive_stage] at hor
  exact hor.elim hstage.1 hstage.2

theorem arrive_call (m : Migrator Version) (db : Database Version) (stage : Stage Version) :
    (m.arrive db stage).2.session = m.session ∧ (m.arrive db stage).2.build = m.build := by
  unfold Migrator.arrive
  split
  · split <;> exact ⟨rfl, rfl⟩
  · exact ⟨rfl, rfl⟩

theorem arrive_lock {k : ℕ} {stage : Stage Version} (h : (m.arrive db stage).1.lock = some k) : db.lock = some k := by
  unfold Migrator.arrive at h
  split at h
  · split at h
    · exact (hangUp_lock.mp h).1
    · exact h
  · exact h

theorem arrive_transaction {stage : Stage Version} (h : (m.arrive db stage).2.transaction = .aborted) :
    m.transaction = .aborted := by
  unfold Migrator.arrive at h
  split at h
  · split at h
    · cases h
    · exact h
  · exact h

theorem answer_refused {session : ℕ} {transaction : Transaction Version} {statement : Statement Version}
    {error : String}
    (h : answer session db transaction statement = .refused error) :
    statement ≠ .rollback ∧ (transaction = .aborted ∨ ∃ version, statement = .insert version) := by
  unfold answer at h
  split at h
  case h_4 =>
    rename_i hrollback _
    exact ⟨hrollback, .inl rfl⟩
  case h_5 =>
    split at h
    · cases h
    · split at h <;> cases h
  case h_12 | h_13 => exact ⟨by simp, .inr ⟨_, rfl⟩⟩
  all_goals cases h

/-- No statement that is carried out leaves a failed transaction. -/
theorem answer_not_aborted {db' : Database Version} {session : ℕ} {transaction transaction' : Transaction Version}
    {statement : Statement Version} (h : answer session db transaction statement = .done db' transaction') :
    transaction' ≠ .aborted := by
  unfold answer at h
  split at h
  case h_5 =>
    split at h
    · cases h
      assumption
    · split at h
      · cases h
        assumption
      · cases h
  all_goals
    first
    | cases h <;> simp_all
    | (split at h <;> cases h); simp

variable [ToString Version]

theorem onDone_stage {statement : Statement Version} (hstatement : m.stage.statement = some statement)
    (db : Database Version) : m.onDone db ≠ .acquiring ∧ m.onDone db ≠ .locking := by
  by_cases hunlock : statement = .unlock
  · subst hunlock
    obtain ⟨result, hstage⟩ := statement_unlock hstatement
    simp [Migrator.onDone, hstage]
  · have hinside := onDone_inside hstatement hunlock db
    constructor <;> intro h <;> rw [h] at hinside <;> cases hinside

/-- A call that wants the lock wanted it before. -/
theorem wants_of_step (outcome : Outcome) (h : (step db m outcome).2.Wants) : m.Wants := by
  cases hstatement : m.stage.statement with
  | none =>
    obtain ⟨session, build, stage, connected, transaction⟩ := m
    cases stage with
    | acquiring => exact .inl rfl
    | returned | dead => exact h
    | _ => cases hstatement
  | some statement =>
    have hdead : ∀ m' : Migrator Version, m'.stage = .dead → ¬ m'.Wants := fun m' hdead hw => by
      obtain h | h := hw.stage <;> rw [hdead] at h <;> cases h
    rw [step_statement hstatement] at h
    split at h
    · cases outcome with
      | runs =>
        simp only [Migrator.send] at h
        split at h
        · exact h
        · exact absurd h (Migrator.Wants.not_arrive (onError_stage hstatement _))
        · exact absurd h (Migrator.Wants.not_arrive (onDone_stage hstatement db))
      | raises | breaks => exact absurd h (Migrator.Wants.not_arrive (onError_stage hstatement _))
      | dies => exact absurd h (hdead _ rfl)
    · cases outcome with
      | dies => exact absurd h (hdead _ rfl)
      | _ => exact absurd h (Migrator.Wants.not_arrive (onError_stage hstatement _))

/-- While another session has the lock, a call that wants it goes on wanting it. -/
theorem wants_step {holder : ℕ} (h : m.Wants) (hfits : m.connected = true → m.stage.Fits m.build db m.transaction)
    (hlock : db.lock = some holder) (hother : holder ≠ m.session) : (step db m .runs).2.Wants := by
  obtain ⟨session, build, stage, connected, transaction⟩ := m
  obtain rfl | ⟨rfl, rfl⟩ := h
  · exact .inr ⟨rfl, rfl⟩
  · obtain rfl : transaction = .none := hfits rfl
    have hwaits : step db ⟨session, build, .locking, true, .none⟩ .runs =
      (db, ⟨session, build, .locking, true, .none⟩) := by
      simp [step, Stage.statement, Migrator.send, answer, hlock, if_neg hother]
    rw [hwaits]
    exact .inr ⟨rfl, rfl⟩

theorem keepsLock_step (h : m.KeepsLock db) : (step db m .runs).2.KeepsLock (step db m .runs).1 := by
  obtain ⟨session, build, stage, connected, transaction⟩ := m
  obtain ⟨howns, hlock, hended | ⟨rfl, rfl, result, rfl⟩⟩ := h
  · cases stage <;> first | exact ⟨howns, hlock, .inl rfl⟩ | cases hended
  · have hrefused : step db ⟨session, build, .unlocking result, true, .aborted⟩ .runs =
        (db, ⟨session, build, .returned (.error abortedText), true, .aborted⟩) := by
      simpa [step, Stage.statement, Migrator.send, answer, Transaction.spoilt, Migrator.onError,
        Migrator.arrive] using howns
    rw [hrefused]
    exact ⟨howns, hlock, .inl rfl⟩

/-- What keeps the lock after a statement that runs kept it before: the unlock itself is what takes it back. -/
theorem keepsLock_of_step (hsound : Sound db j m) (hin : db.lock = some m.session → m.Inside ∨ m.stage.ended = true)
    (h : (step db m .runs).2.KeepsLock (step db m .runs).1) : m.KeepsLock db := by
  cases hstatement : m.stage.statement with
  | none =>
    obtain ⟨session, build, stage, connected, transaction⟩ := m
    cases stage with
    | acquiring =>
      obtain ⟨-, -, h | ⟨-, -, result, h⟩⟩ := h <;> cases h
    | returned | dead => exact h
    | _ => cases hstatement
  | some statement =>
    have hended := statement_not_ended hstatement
    rw [step_statement hstatement] at h
    split at h
    · rename_i hconnected
      have hfits := hsound.fits hconnected
      cases hanswer : answer m.session db m.transaction statement with
      | waits =>
        simp only [Migrator.send, hanswer] at h
        exact h
      | refused error =>
        simp only [Migrator.send, hanswer] at h
        obtain ⟨howns, hlock, hstage⟩ := h
        rw [(arrive_call _ _ _).2] at howns
        rw [(arrive_call _ _ _).1] at hlock
        rw [arrive_stage] at hstage
        refine ⟨howns, arrive_lock hlock, .inr ⟨hconnected, ?_⟩⟩
        obtain ⟨hrollback, hwhy⟩ := answer_refused hanswer
        have hopen : m.transaction = .none → ∃ version, statement = .insert version := by
          intro hnone
          rw [hnone] at hwhy
          exact hwhy.resolve_left (by simp)
        obtain ⟨session, build, stage, connected, transaction⟩ := m
        cases stage with
        | acquiring | returned | dead => cases hstatement
        | locking | creating | selecting =>
          obtain ⟨version, rfl⟩ := hopen hfits
          cases hstatement
        | beginning p version =>
          obtain ⟨version', rfl⟩ := hopen hfits.1
          cases hstatement
        | executing | inserting | committing => obtain h | ⟨-, -, result, h⟩ := hstage <;> cases h
        | rollingBack => exact absurd (Option.some.inj hstatement).symm hrollback
        | unlocking result =>
          obtain haborted | ⟨version, rfl⟩ := hwhy
          · exact ⟨haborted, result, rfl⟩
          · cases hstatement
      | done db' transaction =>
        simp only [Migrator.send, hanswer] at h
        obtain ⟨-, hlock, hstage⟩ := h
        rw [(arrive_call _ _ _).1] at hlock
        rw [arrive_stage] at hstage
        obtain ⟨hst, -, -⟩ | ⟨-, rfl⟩ | ⟨-, hunlock, -⟩ := answer_lock hanswer
        · obtain ⟨session, build, stage, connected, transaction₀⟩ := m
          obtain rfl : stage = .locking := statement_lock (hst ▸ hstatement)
          obtain h | ⟨-, -, result, h⟩ := hstage <;> cases h
        · exact absurd rfl (hangUp_lock.mp (arrive_lock hlock)).2
        · obtain hend | ⟨-, haborted, -⟩ := hstage
          · rw [inside_not_ended (onDone_inside hstatement hunlock db)] at hend
            cases hend
          · exact absurd (arrive_transaction haborted) (answer_not_aborted hanswer)
    · rename_i hconnected
      obtain ⟨-, hlock, -⟩ := h
      rw [Migrator.sendBroken, (arrive_call _ _ _).1] at hlock
      obtain hinside | hend := hin (arrive_lock hlock)
      · exact absurd hinside.1 hconnected
      · rw [hended] at hend
        cases hend

end Turns

section Runs

variable [LinearOrder Version] {builds : List (Build Version)} {before : Database Version}
  {x : List (Migrator Version) × Database Version}

theorem Raced.eq_of_session (hraced : Raced builds before x) {j : ℕ} {m n : Migrator Version} (hm : x.1[j]? = some m)
    (hn : n ∈ x.1) (h : n.session = m.session) : n = m := by
  obtain ⟨k, hk⟩ := List.mem_iff_getElem?.mp hn
  rw [(hraced.sound k n hk).session, (hraced.sound j m hm).session] at h
  rw [h, hm] at hk
  exact (Option.some.inj hk).symm

theorem Held.own (hheld : Held x) (hraced : Raced builds before x) {j : ℕ} {m : Migrator Version}
    (hm : x.1[j]? = some m)
    (hlock : x.2.lock = some m.session) : m.Inside ∨ m.stage.ended = true ∧ m.build.ownsDriver = false := by
  obtain ⟨n, hn, h⟩ := hheld m.session hlock
  rw [(hraced.sound j m hm).session, hm] at hn
  exact Option.some.inj hn ▸ h

variable [ToString Version]

theorem turn_held (hheld : Held x) (hraced : Raced builds before x) (ch : ℕ × Outcome) : Held (turn step x ch) := by
  obtain ⟨-, hturn⟩ | ⟨m, hm, hturn⟩ := turn_cases step x ch
  · rwa [hturn]
  · have hsound := hraced.sound ch.1 m hm
    have hpassed := step_passed (hheld.own hraced hm) ch.2
    obtain ⟨ran, hmoved⟩ := step_moved hsound ch.2
    have hlt : ch.1 < x.1.length := (List.getElem?_eq_some_iff.mp hm).1
    rw [hturn]
    intro k hk
    by_cases hown : k = m.session
    · refine ⟨(step x.2 m ch.2).2, ?_, ?_⟩
      · rw [hown, hsound.session, List.getElem?_set_self hlt]
      · rw [hmoved.build]
        exact hpassed.own (hown ▸ hk)
    · obtain ⟨n, hn, h⟩ := hheld k ((hpassed.others k hown).mp hk)
      refine ⟨n, ?_, h⟩
      rw [List.getElem?_set_ne fun h => hown (h.symm.trans hsound.session.symm)]
      exact hn

theorem run_held {db : Database Version} (hlock : db.lock = none) (builds : List (Build Version))
    (chs : List (ℕ × Outcome)) : Held (run builds db chs) := by
  have h : Raced builds db (run builds db chs) ∧ Held (run builds db chs) :=
    turns_always (A := fun _ => True) (P := fun x => Raced builds db x ∧ Held x)
      (fun _ ch _ _ h => ⟨turn_raced h.1 ch, turn_held h.2 h.1 ch⟩) (fun _ => trivial)
      ⟨start_raced builds db, fun k hk => by rw [hlock] at hk; cases hk⟩
  exact h.2

theorem turn_free (hfree : Free x) (hheld : Held x) (hraced : Raced builds before x) (j : ℕ) :
    Free (turn step x (j, .runs)) := by
  obtain ⟨-, hturn⟩ | ⟨m, hm, hturn⟩ := turn_cases step x (j, .runs)
  · rwa [hturn]
  · have hmem : m ∈ x.1 := List.mem_of_getElem? hm
    have hpassed := step_passed (hheld.own hraced hm) .runs
    rw [hturn]
    intro n hn hkeeps o ho hwants
    have hkept : ∃ n ∈ x.1, n.KeepsLock x.2 := by
      obtain ⟨k, hk⟩ := List.mem_iff_getElem?.mp hn
      obtain ⟨-, rfl⟩ | ⟨hne, hk⟩ := getElem?_set_or hk
      · exact ⟨m, hmem, keepsLock_of_step (hraced.sound j m hm)
          (fun h => (hheld.own hraced hm h).imp_right And.left) hkeeps⟩
      · refine ⟨n, List.mem_of_getElem? hk, hkeeps.1, (hpassed.others _ fun h => hne ?_).mp hkeeps.2.1, hkeeps.2.2⟩
        rw [(hraced.sound k n hk).session, (hraced.sound j m hm).session] at h
        exact h
    obtain ⟨n, hn, hkeeps⟩ := hkept
    obtain ho | rfl := List.mem_or_eq_of_mem_set ho
    · exact hfree n hn hkeeps o ho hwants
    · exact hfree n hn hkeeps m hmem (wants_of_step .runs hwants)

/-- As long as some call has not ended, one of them has a turn that brings it nearer to its end. -/
theorem exists_runs_rank (hfree : Free x) (hheld : Held x) (hraced : Raced builds before x) {m : Migrator Version}
    (hm : m ∈ x.1) (hended : m.stage.ended = false) :
    ∃ (j : ℕ) (n : Migrator Version), x.1[j]? = some n ∧ (step x.2 n .runs).2.rank < n.rank := by
  obtain ⟨j, hj⟩ := List.mem_iff_getElem?.mp hm
  obtain hlt | ⟨hwants, -, holder, hlock, hother⟩ := runs_rank x.2 hended
  · exact ⟨j, m, hj, hlt⟩
  · obtain ⟨n, hn, hinside | ⟨hend, howns⟩⟩ := hheld holder hlock
    · obtain hlt | ⟨hwants, -⟩ := runs_rank x.2 (inside_not_ended hinside.2)
      · exact ⟨holder, n, hn, hlt⟩
      · exact absurd hwants hinside.not_wants
    · have hkeeps : n.KeepsLock x.2 := ⟨howns, hlock.trans (congrArg some (hraced.sound holder n hn).session.symm),
        .inl hend⟩
      exact absurd hwants (hfree n (List.mem_of_getElem? hn) hkeeps m hm)

theorem canEnd_of_free (hfree : Free x) (hheld : Held x) (hraced : Raced builds before x) : CanEnd x := by
  induction hN : (x.1.map Migrator.rank).sum using Nat.strong_induction_on generalizing x with
  | _ N ih =>
    by_cases hall : ∀ m ∈ x.1, m.stage.ended = true
    · exact ⟨[], by simp, hall⟩
    · obtain ⟨m, hm, hended⟩ : ∃ m ∈ x.1, m.stage.ended = false := by simpa using hall
      obtain ⟨j, n, hn, hlt⟩ := exists_runs_rank hfree hheld hraced hm hended
      have hturn : turn step x (j, .runs) = (x.1.set j (step x.2 n .runs).2, (step x.2 n .runs).1) := by
        simp [turn, hn]
      have hless : ((turn step x (j, .runs)).1.map Migrator.rank).sum < N := by
        rw [hturn, ← hN]
        exact sum_set_lt hn hlt
      obtain ⟨chs, hruns, hends⟩ :=
        ih _ hless (turn_free hfree hheld hraced j) (turn_held hheld hraced _) (turn_raced hraced _) rfl
      refine ⟨(j, .runs) :: chs, ?_, hends⟩
      simpa using hruns

/-- A call that keeps the lock, and one that wants it, stay so. -/
theorem not_canEnd (hraced : Raced builds before x) {m n : Migrator Version} (hm : m ∈ x.1) (hkeeps : m.KeepsLock x.2)
    (hn : n ∈ x.1) (hwants : n.Wants) : ¬ CanEnd x := by
  rintro ⟨chs, hruns, hends⟩
  induction chs generalizing x m n with
  | nil =>
    have hend := hends n hn
    rw [hwants.not_ended] at hend
    cases hend
  | cons ch chs ih =>
    obtain ⟨j, outcome⟩ := ch
    obtain rfl : outcome = .runs := hruns (j, outcome) List.mem_cons_self
    have hrest : ∀ ch ∈ chs, ch.2 = .runs := fun ch hch => hruns ch (List.mem_cons_of_mem _ hch)
    obtain ⟨-, hturn⟩ | ⟨l, hl, hturn⟩ := turn_cases step x (j, .runs)
    · refine ih hraced hm hkeeps hn hwants hrest ?_
      rw [turns, hturn] at hends
      exact hends
    · have hapart : n.session ≠ m.session := by
        obtain ⟨k, hk⟩ := List.mem_iff_getElem?.mp hm
        intro hsame
        obtain rfl := hraced.eq_of_session hk hn hsame
        exact hkeeps.not_wants hwants
      have hraced' := turn_raced hraced (j, .runs)
      rw [turns] at hends
      rw [hturn] at hraced' hends
      obtain ⟨m', hm', hkeeps'⟩ : ∃ m' ∈ x.1.set j (step x.2 l .runs).2, m'.KeepsLock (step x.2 l .runs).1 := by
        by_cases hsame : x.1[j]? = some m
        · obtain rfl := Option.some.inj (hl.symm.trans hsame)
          exact ⟨_, mem_set_self hl, keepsLock_step hkeeps⟩
        · have hother : m.session ≠ l.session := fun h => hsame (hraced.eq_of_session hl hm h ▸ hl)
          refine ⟨m, mem_set_of_ne hm hsame, hkeeps.1, ?_, hkeeps.2.2⟩
          have hpassed : Passed x.2 (step x.2 l .runs).1 l (step x.2 l .runs).2 :=
            step_passed (fun h => absurd (Option.some.inj (hkeeps.2.1.symm.trans h)) hother) .runs
          exact (hpassed.others m.session hother).mpr hkeeps.2.1
      obtain ⟨n', hn', hwants'⟩ : ∃ n' ∈ x.1.set j (step x.2 l .runs).2, n'.Wants := by
        by_cases hsame : x.1[j]? = some n
        · obtain rfl := Option.some.inj (hl.symm.trans hsame)
          exact ⟨_, mem_set_self hl, wants_step hwants (hraced.sound j l hl).fits hkeeps.2.1 (Ne.symm hapart)⟩
        · exact ⟨n, mem_set_of_ne hn hsame, hwants⟩
      exact ih hraced' hm' hkeeps' hn' hwants' hrest hends

/-- Whatever has happened so far, all calls can still end, unless one whose driver is supplied has not unlocked. -/
theorem migrators_end_iff (builds : List (Build Version)) (db : Database Version) (hlock : db.lock = none)
    (chs : List (ℕ × Outcome)) : CanEnd (run builds db chs) ↔ Free (run builds db chs) := by
  constructor
  · intro h m hm hkeeps n hn hwants
    exact not_canEnd (run_raced builds db chs) hm hkeeps hn hwants h
  · exact fun h => canEnd_of_free h (run_held hlock builds chs) (run_raced builds db chs)

/-- Two calls on supplied drivers: the first has heard an error of its unlock, so the second waits for good. -/
theorem supplied_keeps_lock :
    ¬ CanEnd (run [⟨"migrations", [1], List.pairwise_singleton _ _, false⟩,
      ⟨"migrations", [1], List.pairwise_singleton _ _, false⟩]
      ⟨some [1], [1], none⟩ [(0, .runs), (0, .runs), (0, .runs), (0, .runs), (0, .raises "timeout")]) := by
  rw [migrators_end_iff _ _ rfl]
  intro hfree
  refine hfree _ List.mem_cons_self ⟨rfl, rfl, .inl rfl⟩ _ (List.mem_cons_of_mem _ List.mem_cons_self) (.inl rfl)

end Runs

end OpenMigrate.Schema
