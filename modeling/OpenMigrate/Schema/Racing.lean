import OpenMigrate.Schema.Migrate
import Mathlib.Data.List.Infix
import Mathlib.Data.List.Nodup
import Mathlib.Order.MinMax

namespace OpenMigrate.Schema

open Async

variable {Version : Type}

section Source

variable [LinearOrder Version]

def Stage.inside : Stage Version → Bool
  | acquiring | locking | returned _ | dead => false
  | _ => true

/-- Between the lock and the unlock, on a session that is still there. -/
def Migrator.Inside (m : Migrator Version) : Prop := m.connected = true ∧ m.stage.inside = true

def Stage.applied : Stage Version → List Version
  | beginning p _ | executing p _ | inserting p _ | committing p _ => p.applied
  | unlocking (.ok result) | returned (.ok result) => result.applied
  | _ => []

/-- What the database has with the statement of a stage, if it is carried out. -/
def Stage.commits : Stage Version → List Version
  | committing _ version => [version]
  | _ => []

/-- From one state of the database to another these scripts have taken effect, each recorded with it and not before. -/
structure Grown (before after : Database Version) (ran : List Version) : Prop where
  scripts : after.scripts = before.scripts ++ ran
  recorded : after.recorded = before.recorded ++ ran
  nodup : ran.Nodup
  new : ∀ version ∈ ran, version ∉ before.recorded

/-- The build has read what was recorded, has applied the rest of its files in their order, and is up to date. -/
structure Complete (build : Build Version) (db : Database Version) (result : RunMigrationsResult Version) : Prop where
  applied : result.applied = build.versions.filter (· ∉ result.alreadyApplied)
  recorded : result.alreadyApplied ++ result.applied <+: db.recorded
  current : result.currentVersion = build.highestKnown

/-- What a state of a run shows: one migrator at a time, each script once and with its record, by one migrator, and in
the order of the chain that the builds are cut from. -/
structure AppliedOnce (builds : List (Build Version)) (before : Database Version)
    (x : List (Migrator Version) × Database Version) : Prop where
  exclusive : ∀ (j k : ℕ) (m n : Migrator Version), x.1[j]? = some m → x.1[k]? = some n → m.Inside → n.Inside → j = k
  ran : ∃ ran, Grown before x.2 ran ∧ ∀ m ∈ x.1, ∀ version ∈ m.stage.applied, version ∈ ran
  once : ∀ (j k : ℕ) (m n : Migrator Version), x.1[j]? = some m → x.1[k]? = some n →
    ∀ version ∈ m.stage.applied, version ∈ n.stage.applied → j = k
  returned : ∀ m ∈ x.1, ∀ result, m.stage = .returned (.ok result) → Complete m.build x.2 result
  ordered : ∀ chain : List Version, (∀ build ∈ builds, build.versions <+: chain) → before.recorded <+: chain →
    x.2.recorded <+: chain

/-- What the loop has read and done is what the database has, and the upcoming versions are the rest of the files. -/
structure Ready (build : Build Version) (db : Database Version) (p : Progress Version) (upcoming : List Version) :
    Prop where
  recorded : db.recorded = p.alreadyApplied ++ p.applied
  pending : build.versions.filter (· ∉ p.alreadyApplied) = p.applied ++ upcoming
  known : ∀ version ∈ p.alreadyApplied, ∀ highest ∈ build.highestKnown, version ≤ highest

def Stage.Fits (build : Build Version) (db : Database Version) : Stage Version → Transaction Version → Prop
  | acquiring, transaction | locking, transaction | creating, transaction | selecting, transaction =>
    transaction = .none
  | beginning p version, transaction => transaction = .none ∧ Ready build db p (version :: p.rest)
  | executing p version, transaction => transaction = .opened [] [] ∧ Ready build db p (version :: p.rest)
  | inserting p version, transaction => transaction = .opened [version] [] ∧ Ready build db p (version :: p.rest)
  | committing p version, transaction =>
    transaction = .opened [version] [version] ∧ Ready build db p (version :: p.rest)
  | _, _ => True

def Stage.Completes (build : Build Version) (db : Database Version) : Stage Version → Prop
  | unlocking (.ok result) | returned (.ok result) => Complete build db result
  | _ => True

/-- A migrator as the statements of a run leave it. -/
structure Sound (db : Database Version) (j : ℕ) (m : Migrator Version) : Prop where
  session : m.session = j
  files : m.build.versions = [] → m.stage.statement = none ∧ m.stage ≠ .acquiring
  holds : m.Inside → db.lock = some j
  fits : m.connected = true → m.stage.Fits m.build db m.transaction
  completes : m.stage.Completes m.build db

/-- A stage that a migrator can go to, on the database that is there then. -/
structure Leads (db : Database Version) (m : Migrator Version) (ran : List Version) (connected : Bool)
    (transaction : Transaction Version) (stage : Stage Version) : Prop where
  holds : connected = true → stage.inside = true → db.lock = some m.session
  fits : connected = true → stage.Fits m.build db transaction
  completes : stage.Completes m.build db
  applied : ∀ version ∈ stage.applied, version ∈ m.stage.applied ∨ version ∈ ran

/-- What a turn of one migrator does to the database, and what it lets the others rely on. -/
structure Effect (db db' : Database Version) (m : Migrator Version) (ran : List Version) : Prop where
  grown : Grown db db' ran
  inside : ran ≠ [] → m.Inside
  kept : ∀ k, k ≠ m.session → db.lock = some k → db'.lock = some k
  ordered : ∀ chain, m.build.versions <+: chain → db.recorded <+: chain → db'.recorded <+: chain

structure Moved (db db' : Database Version) (j : ℕ) (m m' : Migrator Version) (ran : List Version) : Prop where
  build : m'.build = m.build
  sound : Sound db' j m'
  effect : Effect db db' m ran
  applied : ∀ version ∈ m'.stage.applied, version ∈ m.stage.applied ∨ version ∈ ran

/-- What every turn keeps. -/
structure Raced (builds : List (Build Version)) (before : Database Version)
    (x : List (Migrator Version) × Database Version) : Prop where
  sound : ∀ (j : ℕ) (m : Migrator Version), x.1[j]? = some m → Sound x.2 j m
  shipped : ∀ m ∈ x.1, m.build ∈ builds
  ran : ∃ ran, Grown before x.2 ran ∧ ∀ m ∈ x.1, ∀ version ∈ m.stage.applied, version ∈ ran
  once : ∀ (j k : ℕ) (m n : Migrator Version), x.1[j]? = some m → x.1[k]? = some n →
    ∀ version ∈ m.stage.applied, version ∈ n.stage.applied → j = k
  ordered : ∀ chain : List Version, (∀ build ∈ builds, build.versions <+: chain) → before.recorded <+: chain →
    x.2.recorded <+: chain

end Source

section Growth

variable {before db db' : Database Version} {ran ran' : List Version}

theorem Grown.refl (db : Database Version) : Grown db db [] := ⟨by simp, by simp, List.nodup_nil, by simp⟩

theorem Grown.trans (h : Grown before db ran) (h' : Grown db db' ran') : Grown before db' (ran ++ ran') := by
  refine ⟨?_, ?_, ?_, ?_⟩
  · rw [h'.scripts, h.scripts, List.append_assoc]
  · rw [h'.recorded, h.recorded, List.append_assoc]
  · rw [List.nodup_append]
    refine ⟨h.nodup, h'.nodup, ?_⟩
    rintro v hv w hw rfl
    exact h'.new v hw (h.recorded ▸ List.mem_append_right _ hv)
  · intro v hv
    obtain hv | hv := List.mem_append.mp hv
    · exact h.new v hv
    · exact fun hmem => h'.new v hv (h.recorded ▸ List.mem_append_left _ hmem)

theorem Grown.hangUp (h : Grown before db ran) (session : ℕ) : Grown before (db.hangUp session) ran :=
  ⟨h.scripts, h.recorded, h.nodup, h.new⟩

theorem hangUp_kept {session k : ℕ} (hk : k ≠ session) (h : db.lock = some k) : (db.hangUp session).lock = some k := by
  simp [Database.hangUp, h, hk]

end Growth

section Loop

variable [LinearOrder Version] {db db' : Database Version} {build : Build Version} {p : Progress Version}
  {version : Version} {ran : List Version}

theorem Complete.grown {result : RunMigrationsResult Version} (h : Complete build db result)
    (hgrown : Grown db db' ran) :
    Complete build db' result :=
  ⟨h.applied, h.recorded.trans (hgrown.recorded ▸ List.prefix_append _ _), h.current⟩

theorem Stage.Completes.grown {stage : Stage Version} (h : stage.Completes build db) (hgrown : Grown db db' ran) :
    stage.Completes build db' := by
  unfold Stage.Completes at h ⊢
  split at h
  · exact h.grown hgrown
  · exact h.grown hgrown
  · trivial

theorem Build.nodup (build : Build Version) : build.versions.Nodup := build.sorted.imp fun h => ne_of_lt h

theorem Build.le_highestKnown (h : version ∈ build.versions) : ∀ highest ∈ build.highestKnown, version ≤ highest := by
  intro highest hlast
  obtain ⟨init, hinit⟩ := List.getLast?_eq_some_iff.mp hlast
  rw [hinit] at h
  obtain h | h := List.mem_append.mp h
  · have hsorted := build.sorted
    rw [hinit, List.pairwise_append] at hsorted
    exact le_of_lt (hsorted.2.2 version h highest (List.mem_singleton_self _))
  · exact le_of_eq (List.mem_singleton.mp h)

theorem Ready.fresh (h : Ready build db p (version :: p.rest)) : version ∉ db.recorded := by
  have hmem : version ∈ build.versions.filter (· ∉ p.alreadyApplied) := by
    rw [h.pending]
    simp
  have hnodup : (p.applied ++ version :: p.rest).Nodup := h.pending ▸ build.nodup.filter _
  rw [h.recorded, List.mem_append, not_or]
  refine ⟨by simpa using (List.mem_filter.mp hmem).2, fun happlied => ?_⟩
  rw [List.nodup_append] at hnodup
  exact hnodup.2.2 version happlied version List.mem_cons_self rfl

/-- The highest version of a list in which the build's last file is, and nothing newer. -/
theorem max?_eq_highestKnown {versions : List Version} (hne : build.versions ≠ [])
    (hmem : ∀ version ∈ build.versions, version ∈ versions)
    (hle : ∀ version ∈ versions, ∀ highest ∈ build.highestKnown, version ≤ highest) :
    versions.max? = build.highestKnown := by
  obtain ⟨highest, hlast⟩ : ∃ highest, build.highestKnown = some highest :=
    ⟨_, List.getLast?_eq_some_getLast hne⟩
  rw [hlast, List.max?_eq_some_iff]
  exact ⟨hmem highest (List.mem_of_getLast? hlast), fun version hversion => hle version hversion highest hlast⟩

theorem Ready.complete (hne : build.versions ≠ []) (h : Ready build db p []) :
    Complete build db ⟨p.applied, p.alreadyApplied, (p.alreadyApplied ++ p.applied).max?⟩ := by
  have hpending : p.applied = build.versions.filter (· ∉ p.alreadyApplied) := by
    rw [h.pending, List.append_nil]
  refine ⟨hpending, h.recorded ▸ List.prefix_refl _, max?_eq_highestKnown hne ?_ ?_⟩
  · intro version hversion
    by_cases hknown : version ∈ p.alreadyApplied
    · exact List.mem_append_left _ hknown
    · exact List.mem_append_right _ (hpending ▸ List.mem_filter.mpr ⟨hversion, by simpa using hknown⟩)
  · intro version hversion
    obtain hversion | hversion := List.mem_append.mp hversion
    · exact h.known version hversion
    · rw [hpending] at hversion
      exact Build.le_highestKnown (List.mem_of_mem_filter hversion)

theorem next_fits (hne : build.versions ≠ []) (h : Ready build db p p.rest) :
    p.next.Fits build db .none ∧ p.next.Completes build db ∧ p.next.applied = p.applied := by
  unfold Progress.next
  split
  · rename_i version rest hrest
    rw [hrest] at h
    exact ⟨⟨rfl, h.recorded, h.pending, h.known⟩, trivial, rfl⟩
  · rename_i hrest
    rw [hrest] at h
    exact ⟨trivial, h.complete hne, rfl⟩

variable [ToString Version]

theorem selected_fits (db : Database Version) (hne : build.versions ≠ []) :
    (build.selected db.recorded).Fits build db .none ∧ (build.selected db.recorded).Completes build db ∧
      (build.selected db.recorded).applied = [] := by
  have hloop : (∀ version ∈ db.recorded, ∀ highest ∈ build.highestKnown, version ≤ highest) →
      Ready build db ⟨db.recorded, [], build.versions.filter (· ∉ db.recorded)⟩
        (build.versions.filter (· ∉ db.recorded)) :=
    fun hknown => ⟨by simp, by simp, hknown⟩
  unfold Build.selected
  split
  · rename_i highestApplied hmax
    obtain ⟨-, hle⟩ := List.max?_eq_some_iff.mp hmax
    split
    · exact ⟨trivial, trivial, rfl⟩
    · rename_i hguard
      refine next_fits hne (hloop fun version hversion highest hlast => ?_)
      have hnot : ¬ highest < highestApplied := by
        intro hlt
        apply hguard
        rw [hlast]
        simpa using hlt
      exact (hle version hversion).trans (not_lt.mp hnot)
  · rename_i hmax
    rw [List.max?_eq_none_iff] at hmax
    exact next_fits hne (hloop fun version hversion => by simp [hmax] at hversion)

end Loop

section Answers

variable [LinearOrder Version] {db db' : Database Version} {build : Build Version} {p : Progress Version}
  {version : Version} {transaction transaction' : Transaction Version}

theorem Stage.Fits.recorded {stage : Stage Version} (hrecorded : db'.recorded = db.recorded)
    (h : stage.Fits build db transaction) : stage.Fits build db' transaction := by
  have hready : ∀ {p : Progress Version} {upcoming : List Version}, Ready build db p upcoming →
      Ready build db' p upcoming := fun h => ⟨hrecorded.trans h.recorded, h.pending, h.known⟩
  cases stage with
  | beginning | executing | inserting | committing => exact ⟨h.1, hready h.2⟩
  | _ => exact h

theorem Stage.Fits.outside {stage : Stage Version} (hinside : stage.inside = false)
    (h : stage.Fits build db transaction) : stage.Fits build db' transaction := by
  cases stage with
  | beginning | executing | inserting | committing => cases hinside
  | _ => exact h

theorem filter_notMem_append {xs ys : List Version} (h : (xs ++ ys).Nodup) : (xs ++ ys).filter (· ∉ xs) = ys := by
  rw [List.nodup_append] at h
  rw [List.filter_append, List.filter_eq_nil_iff.mpr (by simp), List.nil_append, List.filter_eq_self]
  intro y hy
  simpa using fun hx => h.2.2 y hx y hy rfl

/-- The builds of one chain differ in their length only, so what the loop applies next is next in the chain. -/
theorem Ready.chain {chain : List Version} (h : Ready build db p (version :: p.rest))
    (hbuild : build.versions <+: chain)
    (hdb : db.recorded <+: chain) : db.recorded ++ [version] <+: chain := by
  have hmem : version ∈ build.versions := by
    apply List.mem_of_mem_filter (p := fun v => v ∉ p.alreadyApplied)
    rw [h.pending]
    simp
  obtain hle | ⟨more, hmore⟩ := List.prefix_or_prefix_of_prefix hbuild hdb
  · exact absurd (hle.subset hmem) h.fresh
  · have hrest : build.versions.filter (· ∉ db.recorded) = version :: p.rest := by
      have hnodup : (p.applied ++ version :: p.rest).Nodup := h.pending ▸ build.nodup.filter _
      rw [← filter_notMem_append hnodup, ← h.pending, List.filter_filter, h.recorded]
      apply List.filter_congr
      simp [Bool.and_comm]
    have hmoreEq : more = version :: p.rest := by
      rw [← hrest, ← hmore, filter_notMem_append (hmore ▸ build.nodup)]
    refine List.IsPrefix.trans ?_ hbuild
    rw [← hmore, hmoreEq]
    exact ⟨p.rest, by simp⟩

theorem committed_grown (h : Ready build db p (version :: p.rest)) :
    Grown db { db with table := some (db.recorded ++ [version]), scripts := db.scripts ++ [version] } [version] :=
  ⟨rfl, rfl, List.nodup_singleton version, fun _ hv => List.mem_singleton.mp hv ▸ h.fresh⟩

/-- A statement that is carried out changes what is recorded at the COMMIT of a version only, and takes no lock away. -/
theorem answer_done {stage : Stage Version} {statement : Statement Version} {session : ℕ}
    (hstatement : stage.statement = some statement) (hfits : stage.Fits build db transaction)
    (h : answer session db transaction statement = .done db' transaction') :
    Grown db db' stage.commits ∧ ∀ k, k ≠ session → db.lock = some k → db'.lock = some k := by
  cases stage with
  | acquiring | returned | dead => cases hstatement
  | locking =>
    obtain rfl : transaction = .none := hfits
    cases hstatement
    simp only [answer] at h
    split at h
    · rename_i hlock
      cases h
      exact ⟨⟨by simp [Stage.commits], by simp [Stage.commits, Database.recorded], List.nodup_nil,
        by simp [Stage.commits]⟩,
        by simp [hlock]⟩
    · split at h
      · cases h
        exact ⟨Grown.refl db, fun _ _ => id⟩
      · cases h
  | creating =>
    obtain rfl : transaction = .none := hfits
    cases hstatement
    cases h
    exact ⟨⟨by simp [Stage.commits], by simp [Stage.commits, Database.recorded], List.nodup_nil,
      by simp [Stage.commits]⟩,
      fun _ _ => id⟩
  | selecting =>
    obtain rfl : transaction = .none := hfits
    cases hstatement
    cases h
    exact ⟨Grown.refl db, fun _ _ => id⟩
  | beginning p version =>
    obtain ⟨rfl, -⟩ := hfits
    cases hstatement
    cases h
    exact ⟨Grown.refl db, fun _ _ => id⟩
  | executing p version =>
    obtain ⟨rfl, -⟩ := hfits
    cases hstatement
    cases h
    exact ⟨Grown.refl db, fun _ _ => id⟩
  | inserting p version =>
    obtain ⟨rfl, hready⟩ := hfits
    cases hstatement
    simp only [answer, List.append_nil] at h
    split at h
    · cases h
    · cases h
      exact ⟨Grown.refl db, fun _ _ => id⟩
  | committing p version =>
    obtain ⟨rfl, hready⟩ := hfits
    cases hstatement
    cases h
    exact ⟨committed_grown hready, fun _ _ => id⟩
  | rollingBack version cause =>
    cases hstatement
    cases transaction <;> cases h <;> exact ⟨Grown.refl db, fun _ _ => id⟩
  | unlocking result =>
    cases hstatement
    cases transaction <;> cases h <;> exact ⟨(Grown.refl db).hangUp session, fun k hk => hangUp_kept hk⟩

end Answers

section Moves

variable [LinearOrder Version] {db db' : Database Version} {m : Migrator Version} {j : ℕ}

/-- An error leads out of the loop, through the ROLLBACK of a version that was begun. -/
theorem onError_leads {statement : Statement Version} (hstatement : m.stage.statement = some statement)
    (hholds : m.Inside → db.lock = some m.session) (connected : Bool)
    (hconnected : connected = true → m.connected = true)
    (transaction : Transaction Version) (error : String) : Leads db m [] connected transaction (m.onError error) := by
  obtain ⟨session, build, stage, open?, transaction₀⟩ := m
  cases stage with
  | acquiring | returned | dead => cases hstatement
  | locking | unlocking => exact ⟨by simp [Migrator.onError, Stage.inside], fun _ => trivial, trivial,
      List.forall_mem_nil _⟩
  | _ => exact ⟨fun h _ => hholds ⟨hconnected h, rfl⟩, fun _ => trivial, trivial, List.forall_mem_nil _⟩

theorem Effect.refl (db : Database Version) (m : Migrator Version) : Effect db db m [] :=
  ⟨Grown.refl db, fun h => absurd rfl h, fun _ _ => id, fun _ _ => id⟩

theorem Effect.hangUp {ran : List Version} (h : Effect db db' m ran) : Effect db (db'.hangUp m.session) m ran :=
  ⟨h.grown.hangUp m.session, h.inside, fun k hk hlock => hangUp_kept hk (h.kept k hk hlock), h.ordered⟩

theorem done_effect {statement : Statement Version} {transaction : Transaction Version}
    (hconnected : m.connected = true) (hstatement : m.stage.statement = some statement)
    (hfits : m.stage.Fits m.build db m.transaction)
    (h : answer m.session db m.transaction statement = .done db' transaction) : Effect db db' m m.stage.commits := by
  obtain ⟨hgrown, hkept⟩ := answer_done hstatement hfits h
  obtain ⟨session, build, stage, open?, transaction₀⟩ := m
  cases stage with
  | committing p version =>
    refine ⟨hgrown, fun _ => ⟨hconnected, rfl⟩, hkept, fun chain hbuild hdb => ?_⟩
    rw [hgrown.recorded]
    exact hfits.2.chain hbuild hdb
  | _ =>
    refine ⟨hgrown, fun h => absurd rfl h, hkept, fun chain hbuild hdb => ?_⟩
    rw [hgrown.recorded]
    simpa [Stage.commits] using hdb

/-- A statement whose session is gone has been carried out or not. -/
theorem lost_effect {statement : Statement Version} (hconnected : m.connected = true)
    (hstatement : m.stage.statement = some statement) (hfits : m.stage.Fits m.build db m.transaction)
      (carriedOut : Bool) :
    ∃ ran, Effect db (lost m.session db m.transaction statement carriedOut) m ran := by
  cases carriedOut with
  | false => exact ⟨[], (Effect.refl db m).hangUp⟩
  | true =>
    simp only [lost]
    split
    · rename_i hanswer
      exact ⟨m.stage.commits, (done_effect hconnected hstatement hfits hanswer).hangUp⟩
    · exact ⟨[], (Effect.refl db m).hangUp⟩

theorem arrive_moved {ran : List Version} {connected : Bool} {transaction : Transaction Version} {stage : Stage Version}
    (hj : m.session = j) (hne : m.build.versions ≠ []) (heffect : Effect db db' m ran)
    (h : Leads db' m ran connected transaction stage) :
    Moved db ({ m with connected := connected, transaction := transaction }.arrive db' stage).1 j m
      ({ m with connected := connected, transaction := transaction }.arrive db' stage).2 ran := by
  have hstays : Moved db db' j m { m with stage := stage, connected := connected, transaction := transaction } ran :=
    ⟨rfl, ⟨hj, fun h => absurd h hne, fun hin => hj ▸ h.holds hin.1 hin.2, h.fits, h.completes⟩, heffect, h.applied⟩
  unfold Migrator.arrive
  split
  · rename_i result
    split
    · refine ⟨rfl, ⟨hj, fun h => absurd h hne, fun hin => ?_, fun hin => ?_, ?_⟩, heffect.hangUp, h.applied⟩
      · cases hin.1
      · cases hin
      · exact h.completes.grown ((Grown.refl db').hangUp m.session)
    · exact hstays
  · exact hstays

theorem dies_moved {ran : List Version} (hj : m.session = j) (hne : m.build.versions ≠ [])
    (heffect : Effect db db' m ran)
    (transaction : Transaction Version) :
    Moved db db' j m { m with stage := .dead, connected := false, transaction := transaction } ran :=
  ⟨rfl, ⟨hj, fun h => absurd h hne, fun hin => absurd hin.1 Bool.false_ne_true, fun h => absurd h Bool.false_ne_true,
    trivial⟩, heffect, List.forall_mem_nil _⟩

theorem Leads.mono {ran : List Version} {transaction : Transaction Version} {stage : Stage Version}
    (h : Leads db m [] false transaction stage) (heffect : Effect db db' m ran) :
      Leads db' m ran false transaction stage :=
  ⟨fun h => absurd h Bool.false_ne_true, fun h => absurd h Bool.false_ne_true, h.completes.grown heffect.grown,
    fun version hversion => (h.applied version hversion).imp_right fun h => absurd h List.not_mem_nil⟩

theorem sendBroken_moved {statement : Statement Version} (h : Sound db j m) (hne : m.build.versions ≠ [])
    (hstatement : m.stage.statement = some statement) (outcome : Outcome) :
    ∃ ran, Moved db (m.sendBroken db outcome).1 j m (m.sendBroken db outcome).2 ran := by
  have hholds : m.Inside → db.lock = some m.session := fun hin => h.session ▸ h.holds hin
  have harrive : ∀ error, Moved db (m.arrive db (m.onError error)).1 j m (m.arrive db (m.onError error)).2 [] :=
    fun error => arrive_moved h.session hne (Effect.refl db m)
      (onError_leads hstatement hholds m.connected id m.transaction error)
  cases outcome with
  | runs => exact ⟨[], harrive _⟩
  | raises error | breaks error => exact ⟨[], harrive error⟩
  | dies =>
    refine ⟨[], rfl, ⟨h.session, fun h => absurd h hne, fun hin => ?_, fun _ => trivial, trivial⟩, Effect.refl db m,
      List.forall_mem_nil _⟩
    cases hin.2

theorem acquire_moved (h : Sound db j m) (hstage : m.stage = .acquiring) (outcome : Outcome) :
    ∃ ran, Moved db (m.acquire db outcome).1 j m (m.acquire db outcome).2 ran := by
  have hne : m.build.versions ≠ [] := fun hnil => (h.files hnil).2 hstage
  refine ⟨[], ?_⟩
  cases outcome with
  | runs =>
    refine ⟨rfl, ⟨h.session, fun h => absurd h hne, fun hin => ?_, fun _ => rfl, trivial⟩, Effect.refl db m,
      List.forall_mem_nil _⟩
    cases hin.2
  | _ =>
    refine ⟨rfl, ⟨h.session, fun h => absurd h hne, fun hin => ?_, fun _ => trivial, trivial⟩, Effect.refl db m,
      List.forall_mem_nil _⟩
    cases hin.2

variable [ToString Version]

theorem onDone_leads {statement : Statement Version} {transaction : Transaction Version} (hsound : Sound db j m)
    (hne : m.build.versions ≠ []) (hconnected : m.connected = true) (hstatement : m.stage.statement = some statement)
    (h : answer m.session db m.transaction statement = .done db' transaction) :
    Leads db' m m.stage.commits true transaction (m.onDone db) := by
  obtain ⟨session, build, stage, open?, transaction₀⟩ := m
  have hfits := hsound.fits hconnected
  have hholds : stage.inside = true → db.lock = some session := fun hinside =>
    (hsound.holds ⟨hconnected, hinside⟩).trans (congrArg some hsound.session.symm)
  cases stage with
  | acquiring | returned | dead => cases hstatement
  | locking =>
    obtain rfl : transaction₀ = .none := hfits
    cases hstatement
    simp only [answer] at h
    refine ⟨fun _ _ => ?_, fun _ => ?_, trivial, List.forall_mem_nil _⟩ <;> split at h
    · cases h
      rfl
    · split at h
      · rename_i hlock hholder
        cases h
        exact hholder ▸ hlock
      · cases h
    · cases h
      rfl
    · split at h <;> cases h
      rfl
  | creating =>
    obtain rfl : transaction₀ = .none := hfits
    cases hstatement
    cases h
    exact ⟨fun _ _ => hholds rfl, fun _ => rfl, trivial, List.forall_mem_nil _⟩
  | selecting =>
    obtain rfl : transaction₀ = .none := hfits
    cases hstatement
    cases h
    obtain ⟨hfits, hcompletes, happlied⟩ := selected_fits db hne
    refine ⟨fun _ _ => hholds rfl, fun _ => hfits, hcompletes, ?_⟩
    change ∀ version ∈ (build.selected db.recorded).applied, _
    rw [happlied]
    exact List.forall_mem_nil _
  | beginning p version =>
    obtain ⟨rfl, hready⟩ := hfits
    cases hstatement
    cases h
    exact ⟨fun _ _ => hholds rfl, fun _ => ⟨rfl, hready⟩, trivial, fun _ => .inl⟩
  | executing p version =>
    obtain ⟨rfl, hready⟩ := hfits
    cases hstatement
    cases h
    exact ⟨fun _ _ => hholds rfl, fun _ => ⟨rfl, hready⟩, trivial, fun _ => .inl⟩
  | inserting p version =>
    obtain ⟨rfl, hready⟩ := hfits
    cases hstatement
    simp only [answer, List.append_nil] at h
    split at h
    · cases h
    · cases h
      exact ⟨fun _ _ => hholds rfl, fun _ => ⟨rfl, hready⟩, trivial, fun _ => .inl⟩
  | committing p version =>
    obtain ⟨rfl, hready⟩ := hfits
    cases hstatement
    cases h
    have hnext : Ready build { db with table := some (db.recorded ++ [version]), scripts := db.scripts ++ [version] }
        { p with applied := p.applied ++ [version] } p.rest := by
      refine ⟨?_, ?_, hready.known⟩
      · change db.recorded ++ [version] = _
        rw [hready.recorded, List.append_assoc]
      · rw [hready.pending, List.append_assoc]
        rfl
    obtain ⟨hfits, hcompletes, happlied⟩ := next_fits hne hnext
    refine ⟨fun _ _ => hholds rfl, fun _ => hfits, hcompletes, ?_⟩
    change ∀ version' ∈ ({ p with applied := p.applied ++ [version] } : Progress Version).next.applied, _
    rw [happlied]
    exact fun _ => List.mem_append.mp
  | rollingBack version cause =>
    refine ⟨fun _ _ => ?_, fun _ => trivial, trivial, List.forall_mem_nil _⟩
    cases hstatement
    cases transaction₀ <;> cases h <;> exact hholds rfl
  | unlocking result =>
    refine ⟨by simp [Migrator.onDone, Stage.inside], fun _ => trivial, ?_, ?_⟩
    · cases hstatement
      have hcompletes := hsound.completes
      cases result with
      | error => trivial
      | ok result =>
        cases transaction₀ <;> cases h <;> exact hcompletes.grown ((Grown.refl db).hangUp session)
    · cases result with
      | error => exact List.forall_mem_nil _
      | ok result => exact fun _ => .inl

theorem send_moved {statement : Statement Version} (h : Sound db j m) (hne : m.build.versions ≠ [])
    (hconnected : m.connected = true) (hstatement : m.stage.statement = some statement) (outcome : Outcome) :
    ∃ ran, Moved db (m.send db statement outcome).1 j m (m.send db statement outcome).2 ran := by
  have hfits := h.fits hconnected
  have hholds : m.Inside → db.lock = some m.session := fun hin => h.session ▸ h.holds hin
  have hraises : ∀ error, ∃ ran, Moved db (m.send db statement (.raises error)).1 j m
      (m.send db statement (.raises error)).2 ran := fun error =>
    ⟨[], arrive_moved h.session hne (Effect.refl db m) (onError_leads hstatement hholds m.connected id _ error)⟩
  cases outcome with
  | runs =>
    simp only [Migrator.send]
    split
    · exact ⟨[], rfl, h, Effect.refl db m, fun _ => .inl⟩
    · exact hraises _
    · rename_i hanswer
      have hleads := onDone_leads h hne hconnected hstatement hanswer
      rw [← hconnected] at hleads
      exact ⟨_, arrive_moved h.session hne (done_effect hconnected hstatement hfits hanswer) hleads⟩
  | raises error => exact hraises error
  | breaks error carriedOut =>
    obtain ⟨ran, heffect⟩ := lost_effect hconnected hstatement hfits carriedOut
    have hleads := onError_leads hstatement hholds false (fun _ => hconnected) .none error
    exact ⟨ran, arrive_moved h.session hne heffect (hleads.mono heffect)⟩
  | dies carriedOut =>
    obtain ⟨ran, heffect⟩ := lost_effect hconnected hstatement hfits carriedOut
    exact ⟨ran, dies_moved h.session hne heffect _⟩

/-- One turn of one migrator, whatever comes of its statement. -/
theorem step_moved (h : Sound db j m) (outcome : Outcome) :
    ∃ ran, Moved db (step db m outcome).1 j m (step db m outcome).2 ran := by
  have hstays : ∃ ran, Moved db db j m m ran := ⟨[], rfl, h, Effect.refl db m, fun _ => .inl⟩
  unfold step
  split
  · rename_i hstage
    exact acquire_moved h hstage outcome
  · exact hstays
  · exact hstays
  · split
    · rename_i hstatement
      have hne : m.build.versions ≠ [] := by
        intro hnil
        rw [(h.files hnil).1] at hstatement
        cases hstatement
      split
      · rename_i hconnected
        exact send_moved h hne hconnected hstatement outcome
      · exact sendBroken_moved h hne hstatement outcome
    · exact hstays

end Moves

section Runs

variable [LinearOrder Version] {builds : List (Build Version)} {before : Database Version}
  {x : List (Migrator Version) × Database Version}

theorem Sound.others {db db' : Database Version} {j k : ℕ} {m n : Migrator Version} {ran : List Version}
    (hm : Sound db j m) (hn : Sound db k n) (hk : k ≠ j) (heffect : Effect db db' m ran) : Sound db' k n := by
  have hkept : n.Inside → db'.lock = some k := fun hin =>
    heffect.kept k (fun h => hk (h.trans hm.session)) (hn.holds hin)
  refine ⟨hn.session, hn.files, hkept, fun hconnected => ?_, hn.completes.grown heffect.grown⟩
  cases hinside : n.stage.inside with
  | false => exact (hn.fits hconnected).outside hinside
  | true =>
    -- The lock is `n`'s, so this turn was not that of a migrator inside, and nothing was recorded.
    have hran : ran = [] := by
      by_contra hran
      have hlock := (hn.holds ⟨hconnected, hinside⟩).symm.trans (hm.holds (heffect.inside hran))
      exact hk (Option.some.inj hlock)
    refine (hn.fits hconnected).recorded ?_
    rw [heffect.grown.recorded, hran, List.append_nil]

theorem start_applied (build : Build Version) (j : ℕ) : (build.start j).stage.applied = [] := by
  unfold Build.start
  split <;> rfl

theorem start_sound (build : Build Version) (db : Database Version) (j : ℕ) : Sound db j (build.start j) := by
  unfold Build.start
  split
  · refine ⟨rfl, fun _ => ⟨rfl, fun h => ?_⟩, fun hin => ?_, fun _ => trivial, trivial⟩
    · cases h
    · cases hin.2
  · rename_i hne
    refine ⟨rfl, fun h => absurd h hne, fun hin => ?_, fun _ => rfl, trivial⟩
    cases hin.2

theorem start_raced (builds : List (Build Version)) (db : Database Version) :
    Raced builds db (builds.mapIdx fun session build => build.start session, db) := by
  have hget : ∀ (j : ℕ) (m : Migrator Version), (builds.mapIdx fun session build => build.start session)[j]? = some m →
      ∃ build ∈ builds, m = build.start j := by
    intro j m hm
    rw [List.getElem?_mapIdx, Option.map_eq_some_iff] at hm
    obtain ⟨build, hbuild, rfl⟩ := hm
    exact ⟨build, List.mem_of_getElem? hbuild, rfl⟩
  have hmem : ∀ m ∈ builds.mapIdx fun session build => build.start session,
      ∃ build ∈ builds, ∃ j, m = build.start j := by
    intro m hm
    obtain ⟨j, hj⟩ := List.mem_iff_getElem?.mp hm
    obtain ⟨build, hbuild, rfl⟩ := hget j m hj
    exact ⟨build, hbuild, j, rfl⟩
  refine ⟨fun j m hm => ?_, fun m hm => ?_, ⟨[], Grown.refl db, fun m hm => ?_⟩, fun j k m n hm => ?_, fun _ _ => id⟩
  · obtain ⟨build, -, rfl⟩ := hget j m hm
    exact start_sound build db j
  · obtain ⟨build, hbuild, j, rfl⟩ := hmem m hm
    exact hbuild
  · obtain ⟨build, -, j, rfl⟩ := hmem m hm
    rw [start_applied]
    exact List.forall_mem_nil _
  · obtain ⟨build, -, rfl⟩ := hget j m hm
    rw [start_applied]
    exact fun _ => List.forall_mem_nil _

variable [ToString Version]

theorem turn_raced (h : Raced builds before x) (ch : ℕ × Outcome) : Raced builds before (turn step x ch) := by
  obtain ⟨-, hturn⟩ | ⟨m, hm, hturn⟩ := turn_cases step x ch
  · rwa [hturn]
  · obtain ⟨ran, hmoved⟩ := step_moved (h.sound ch.1 m hm) ch.2
    obtain ⟨was, hgrown, hwas⟩ := h.ran
    have hmem : m ∈ x.1 := List.mem_of_getElem? hm
    rw [hturn]
    refine ⟨fun k n hn => ?_, fun n hn => ?_, ⟨was ++ ran, hgrown.trans hmoved.effect.grown, fun n hn => ?_⟩,
      fun k l n o hn ho => ?_, fun chain hchain hbefore => ?_⟩
    · obtain ⟨rfl, rfl⟩ | ⟨hk, hn⟩ := getElem?_set_or hn
      · exact hmoved.sound
      · exact (h.sound ch.1 m hm).others (h.sound k n hn) hk hmoved.effect
    · obtain hn | rfl := List.mem_or_eq_of_mem_set hn
      · exact h.shipped n hn
      · exact hmoved.build ▸ h.shipped m hmem
    · obtain hn | rfl := List.mem_or_eq_of_mem_set hn
      · exact fun version hversion => List.mem_append_left _ (hwas n hn version hversion)
      · intro version hversion
        obtain happlied | hran := hmoved.applied version hversion
        · exact List.mem_append_left _ (hwas m hmem version happlied)
        · exact List.mem_append_right _ hran
    · -- What `m` has just applied is not recorded yet, so no other has it.
      have hown : ∀ (k : ℕ) (n : Migrator Version), x.1[k]? = some n → k ≠ ch.1 →
          ∀ version ∈ (step x.2 m ch.2).2.stage.applied, version ∉ n.stage.applied := by
        intro k n hn hk version hversion hother
        obtain happlied | hran := hmoved.applied version hversion
        · exact hk (h.once k ch.1 n m hn hm version hother happlied)
        · refine hmoved.effect.grown.new version hran (hgrown.recorded ▸ List.mem_append_right _ ?_)
          exact hwas n (List.mem_of_getElem? hn) version hother
      obtain ⟨rfl, rfl⟩ | ⟨hk, hn⟩ := getElem?_set_or hn <;> obtain ⟨rfl, rfl⟩ | ⟨hl, ho⟩ := getElem?_set_or ho
      · exact fun _ _ _ => rfl
      · exact fun version hversion hother => absurd hother (hown l o ho hl version hversion)
      · exact fun version hother hversion => absurd hother (hown k n hn hk version hversion)
      · exact h.once k l n o hn ho
    · have hdb := h.ordered chain hchain hbefore
      exact hmoved.effect.ordered chain (hchain m.build (h.shipped m hmem)) hdb

theorem run_raced (builds : List (Build Version)) (db : Database Version) (chs : List (ℕ × Outcome)) :
    Raced builds db (run builds db chs) :=
  turns_always (A := fun _ => True) (P := Raced builds db) (fun _ ch _ _ h => turn_raced h ch) (fun _ => trivial)
    (start_raced builds db)

/-- However the statements of racing processes interleave, and whatever becomes of each, every migration takes effect
once, with its record. -/
theorem migrations_applied_once (builds : List (Build Version)) (db : Database Version) (chs : List (ℕ × Outcome)) :
    AppliedOnce builds db (run builds db chs) := by
  have h := run_raced builds db chs
  refine ⟨fun j k m n hm hn hinm hinn => ?_, h.ran, h.once, fun m hm result hresult => ?_, h.ordered⟩
  · have hlock := ((h.sound j m hm).holds hinm).symm.trans ((h.sound k n hn).holds hinn)
    exact Option.some.inj hlock
  · obtain ⟨j, hj⟩ := List.mem_iff_getElem?.mp hm
    have hcompletes := (h.sound j m hj).completes
    rwa [hresult] at hcompletes

end Runs

end OpenMigrate.Schema
