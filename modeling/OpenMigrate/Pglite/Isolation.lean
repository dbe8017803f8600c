import OpenMigrate.Pglite.Session

namespace OpenMigrate.Pglite

open Async

variable {Rows Op Value α : Type} {Answer : Op → Type}

section Source

variable (perform : Context → (op : Op) → Rows → Except String (Rows × Answer op))

/-- From the `SET row_security` to the end of the call, or of the reset behind it. -/
def Stage.holds : Stage Op Answer Value → Bool
  | opening | waiting | returned _ => false
  | _ => true

/-- Behind the last statement of `fn`. -/
def Stage.ending : Stage Op Answer Value → Bool
  | rollingBack _ | resetting _ | returned _ => true
  | _ => false

/-- What the policies are to see while `fn` runs. -/
def TenantCall.context (role : Option String) (call : TenantCall Op Answer Value) : Context :=
  call.settings.foldl (fun context setting => context.set setting.1 setting.2) ⟨role, fun _ => "", true⟩

/-- A whole call on the rows that are committed: `fn` to its end, under its own context, and nothing of it refused. -/
def Commits (role : Option String) (calls : List (TenantCall Op Answer Value)) (j : ℕ) (before after : Rows) : Prop :=
  ∃ call value, calls[j]? = some call ∧
    TransactionRun (perform (call.context role)) (call.fn, some before) (.ret value, some after)

/-- What a transaction that `fn` has come to has in it, if it has not failed. -/
def Session.pending (session : Session Rows) (context : Context) : Option Rows → Prop
  | some rows => session.transaction = .opened rows context
  | none => session.transaction = .aborted

/-- Statements of `fn` run in their own call's transaction and context, one call at a time; and what is committed is
what whole calls leave one after another, in the order in which they have asked for the connection. -/
structure Isolated (role : Option String) (calls : List (TenantCall Op Answer Value)) (rows : Rows)
    (x : List (Caller Op Answer Value) × Driver Rows) : Prop where
  exclusive : ∀ (j k : ℕ) (c d : Caller Op Answer Value), x.1[j]? = some c → x.1[k]? = some d →
    c.stage.holds = true → d.stage.holds = true → j = k
  working : ∀ (j : ℕ) (c : Caller Op Answer Value), x.1[j]? = some c → ∀ op k, c.stage = .working op k →
    ∃ call, calls[j]? = some call ∧ ∃ now, x.2.session.pending (call.context role) now ∧
      TransactionRun (perform (call.context role)) (call.fn, some x.2.session.rows) (.call op k, now)
  serial : ∃ js, Serial (Commits perform role calls) rows js x.2.session.rows ∧
    (js.Pairwise fun j k => ∃ c d t u, x.1[j]? = some c ∧ x.1[k]? = some d ∧ c.ticket = some t ∧ d.ticket = some u ∧
      t < u) ∧
    ∀ (j : ℕ) (c : Caller Op Answer Value), x.1[j]? = some c → ∀ value, c.stage = .returned (.ok value) →
      j ∈ js ∨ ∃ call before, calls[j]? = some call ∧
        TransactionRun (perform (call.context role)) (call.fn, some before) (.ret value, none)

def Outcome.carriedOut : Outcome → Bool
  | runs | unheard _ => true
  | _ => false

def Stage.isResetting : Stage Op Answer Value → Bool
  | resetting _ => true
  | _ => false

/-- The reset behind a failed ROLLBACK is carried out. -/
def Resets (_ : Driver Rows) (c : Caller Op Answer Value) (outcome : Outcome) : Prop :=
  c.stage.isResetting = true → outcome.carriedOut = true

instance (driver : Driver Rows) (c : Caller Op Answer Value) (outcome : Outcome) : Decidable
    (Resets driver c outcome) :=
  inferInstanceAs (Decidable (_ → _))

/-- Where a call that has the connection is, and what the session has of it. -/
def Stage.Fits (role : Option String) (call : TenantCall Op Answer Value) (session : Session Rows) :
    Stage Op Answer Value → Prop
  | .asserting => session.transaction = .none
  | .beginning => session.transaction = .none ∧ session.rowSecurity = true
  | .settingRole name =>
    role = some name ∧ session.transaction = .opened session.rows ⟨none, fun _ => "", true⟩
  | .setting name value rest =>
    ∃ done, call.settings = done ++ (name, value) :: rest ∧
      session.transaction =
        .opened session.rows (done.foldl (fun context setting => context.set setting.1 setting.2)
          ⟨role, fun _ => "", true⟩)
  | .working op k =>
    ∃ now, session.pending (call.context role) now ∧
      TransactionRun (perform (call.context role)) (call.fn, some session.rows) (.call op k, now)
  | .committing value =>
    ∃ now, session.pending (call.context role) now ∧
      TransactionRun (perform (call.context role)) (call.fn, some session.rows) (.ret value, now)
  | .resetting result => ∃ error, result = .error error
  | _ => True

/-- A caller in a run: `served` gates are open, and the calls of `js` are committed. -/
structure Placed (role : Option String) (calls : List (TenantCall Op Answer Value)) (served : ℕ) (js : List ℕ)
    (driver : Driver Rows) (j : ℕ) (c : Caller Op Answer Value) : Prop where
  call : calls[j]? = some c.call
  ticket : ∀ t ∈ c.ticket, t < driver.gates.length ∧ (t < served → ∃ result, c.stage = .returned result) ∧
    (served < t → c.stage = .waiting)
  opening : c.stage = .opening → c.ticket = none
  waiting : c.stage = .waiting → c.ticket ≠ none
  holds : c.stage.holds = true → c.ticket = some served
  fits : c.stage.Fits perform role c.call driver.session
  committed : j ∈ js → c.ticket ≠ none ∧ c.stage.ending = true
  returned : ∀ value, c.stage = .returned (.ok value) → j ∈ js ∨ ∃ before,
    TransactionRun (perform (c.call.context role)) (c.call.fn, some before) (.ret value, none)

/-- What every turn keeps. -/
structure Ordered (calls : List (TenantCall Op Answer Value)) (rows : Rows) (served : ℕ) (js : List ℕ)
    (x : List (Caller Op Answer Value) × Driver Rows) : Prop where
  placed : ∀ (j : ℕ) (c : Caller Op Answer Value), x.1[j]? = some c → Placed perform x.2.role calls served js x.2 j c
  tickets : ∀ (j k : ℕ) (c d : Caller Op Answer Value), x.1[j]? = some c → x.1[k]? = some d →
    ∀ t ∈ c.ticket, t ∈ d.ticket → j = k
  gates : ∀ t < x.2.gates.length, x.2.gates[t]? = some (decide (t < served))
  served : served ≤ x.2.gates.length
  clean : (∀ c ∈ x.1, c.stage.holds = false) → x.2.session.transaction = .none
  unset : x.2.session.settings = fun _ => ""
  serial : Serial (Commits perform x.2.role calls) rows js x.2.session.rows
  present : ∀ j ∈ js, j < x.1.length
  opened : x.2.gates ≠ [] → x.2.opening = some (.ok ())
  owned : ∀ t < x.2.gates.length, ∃ (j : ℕ) (c : Caller Op Answer Value), x.1[j]? = some c ∧ c.ticket = some t
  inOrder : js.Pairwise fun j k => ∃ c d t u,
    x.1[j]? = some c ∧ x.1[k]? = some d ∧ c.ticket = some t ∧ d.ticket = some u ∧ t < u

/-- What the turn of one caller changes, with the gates that are open and the calls that are committed after it. -/
structure Moves (calls : List (TenantCall Op Answer Value)) (rows : Rows) (served : ℕ) (js : List ℕ)
    (driver driver' : Driver Rows) (j : ℕ) (c c' : Caller Op Answer Value) (served' : ℕ) (js' : List ℕ) : Prop where
  role : driver'.role = driver.role
  gates : ∀ t < driver'.gates.length, driver'.gates[t]? = some (decide (t < served'))
  grows : driver'.gates.length = driver.gates.length ∨
    driver'.gates.length = driver.gates.length + 1 ∧ c'.ticket = some driver.gates.length
  opened : driver'.gates ≠ [] → driver'.opening = some (.ok ())
  within : served' ≤ driver'.gates.length
  advances : served' = served ∨ served' = served + 1 ∧ c.ticket = some served
  committed : js' = js ∨ js' = js ++ [j] ∧ c.ticket = some served ∧ c.stage.ending = false
  session : driver'.session = driver.session ∨ c.stage.holds = true
  ticket : c'.ticket = c.ticket ∨ c.ticket = none ∧ c'.ticket = some driver.gates.length
  placed : Placed perform driver.role calls served' js' driver' j c'
  clean : c'.stage.holds = false →
    driver'.session.transaction = .none ∨ driver'.session = driver.session ∧ c.stage.holds = false
  unset : driver'.session.settings = fun _ => ""
  serial : Serial (Commits perform driver.role calls) rows js' driver'.session.rows

end Source

section Sessions

variable {perform : Context → (op : Op) → Rows → Except String (Rows × Answer op)} {session session' : Session Rows}
  {role : Option String} {call : TenantCall Op Answer Value} {context : Context}

theorem hears_cases (session : Session Rows) (statement : Except String (Session Rows × α)) (outcome : Outcome) :
    (∃ session' a, statement = .ok (session', a) ∧
      (session.hears statement outcome = (session', .ok a) ∨
        ∃ error, session.hears statement outcome = (session', .error error))) ∨
    (∃ error, session.hears statement outcome = (session.spoilt, .error error)) ∨
      ∃ error, session.hears statement outcome = (session, .error error) := by
  cases outcome with
  | runs =>
    cases statement with
    | ok done => exact .inl ⟨done.1, done.2, rfl, .inl rfl⟩
    | error error => exact .inr (.inl ⟨error, rfl⟩)
  | refused error => exact .inr (.inl ⟨error, rfl⟩)
  | unsent error => exact .inr (.inr ⟨error, rfl⟩)
  | unheard error =>
    cases statement with
    | ok done => exact .inl ⟨done.1, done.2, rfl, .inr ⟨error, rfl⟩⟩
    | error error => exact .inr (.inl ⟨error, rfl⟩)

theorem execute_rows {command : Command} (hcommand : command ≠ .commit)
    (h : session.execute command = .ok (session', ())) : session'.rows = session.rows := by
  unfold Session.execute at h
  split at h
  case h_3 => exact absurd rfl hcommand
  case h_4 => split at h <;> cases h <;> rfl
  all_goals
    cases h
    rfl

theorem execute_settings {command : Command} (hunset : session.settings = fun _ => "")
    (h : session.execute command = .ok (session', ())) : session'.settings = fun _ => "" := by
  unfold Session.execute at h
  split at h
  case h_2 =>
    cases h
    simp [hunset]
  case h_3 => split at h <;> cases h <;> exact hunset
  case h_4 => split at h <;> cases h <;> exact hunset
  case h_1 =>
    cases h
    exact hunset

theorem hears_kept (session : Session Rows) {command : Command} (hcommand : command ≠ .commit)
    (hunset : session.settings = fun _ => "") (outcome : Outcome) :
    (session.hears (session.execute command) outcome).1.rows = session.rows ∧
      (session.hears (session.execute command) outcome).1.settings = fun _ => "" := by
  obtain ⟨session', ⟨⟩, hok, h | ⟨error, h⟩⟩ | ⟨error, h⟩ | ⟨error, h⟩ := hears_cases session
    (session.execute command) outcome
  · rw [h]
    exact ⟨execute_rows hcommand hok, execute_settings hunset hok⟩
  · rw [h]
    exact ⟨execute_rows hcommand hok, execute_settings hunset hok⟩
  · rw [h]
    exact ⟨rfl, hunset⟩
  · rw [h]
    exact ⟨rfl, hunset⟩

theorem Stage.Fits.outside {stage : Stage Op Answer Value} (h : stage.holds = false) (session : Session Rows) :
    stage.Fits perform role call session := by
  cases stage <;> trivial

theorem holds_work (fn : Prog Op Answer String Value) : (work fn).holds = true := by
  cases fn <;> rfl

theorem holds_set (call : TenantCall Op Answer Value) (settings : List (Setting × String)) :
    (call.set settings).holds = true := by
  cases settings with
  | nil => exact holds_work call.fn
  | cons setting rest => rfl

theorem holds_begun (call : TenantCall Op Answer Value) (role : Option String) : (call.begun role).holds = true := by
  cases role with
  | none => exact holds_set call call.settings
  | some role => rfl

theorem fits_work {fn : Prog Op Answer String Value} (now : Option Rows)
    (hpending : session.pending (call.context role) now)
    (hrun : TransactionRun (perform (call.context role)) (call.fn, some session.rows) (fn, now)) :
    (work fn).Fits perform role call session := by
  cases fn with
  | ret value => exact ⟨now, hpending, hrun⟩
  | fail error => trivial
  | call op k => exact ⟨now, hpending, hrun⟩

theorem fits_set (done : List (Setting × String)) {rest : List (Setting × String)}
    (hsettings : call.settings = done ++ rest)
    (hopened : session.transaction =
      .opened session.rows (done.foldl (fun context setting => context.set setting.1 setting.2)
        ⟨role, fun _ => "", true⟩)) :
    (call.set rest).Fits perform role call session := by
  cases rest with
  | nil =>
    refine fits_work (some session.rows) ?_ .refl
    rw [List.append_nil] at hsettings
    rw [← hsettings] at hopened
    exact hopened
  | cons setting rest => exact ⟨done, hsettings, hopened⟩

theorem fits_begun (hopened : session.transaction = .opened session.rows ⟨none, fun _ => "", true⟩) :
    (call.begun role).Fits perform role call session := by
  cases role with
  | none => exact fits_set [] rfl hopened
  | some role => exact ⟨rfl, hopened⟩

theorem execute_commit {now : Option Rows} (hpending : session.pending context now) :
    ∃ session', session.execute .commit = .ok (session', ()) ∧ session'.transaction = .none ∧
      session'.settings = session.settings ∧ session'.rows = now.getD session.rows := by
  cases now with
  | none =>
    have haborted : session.transaction = .aborted := hpending
    refine ⟨{ session with transaction := .none }, ?_, rfl, rfl, rfl⟩
    simp [Session.execute, haborted]
  | some rows =>
    have hopened : session.transaction = .opened rows context := hpending
    refine ⟨{ session with rows := rows, transaction := .none, rowSecurity := context.rowSecurity }, ?_, rfl, rfl, rfl⟩
    simp [Session.execute, hopened]

/-- A statement of `fn`, in the transaction of its call or in what is left of it. -/
theorem query_steps {fn : Prog Op Answer String Value} {now : Option Rows} {op : Op}
    {k : Except String (Answer op) → Prog Op Answer String Value} (hpending : session.pending context now)
    (hrun : TransactionRun (perform context) (fn, some session.rows) (.call op k, now)) (outcome : Outcome) :
    (session.hears (session.query perform op) outcome).1.rows = session.rows ∧
      (session.hears (session.query perform op) outcome).1.settings = session.settings ∧
      ∃ now', (session.hears (session.query perform op) outcome).1.pending context now' ∧
        TransactionRun (perform context) (fn, some session.rows)
          (k (session.hears (session.query perform op) outcome).2, now') := by
  obtain ⟨session', a, hok, h⟩ | ⟨error, h⟩ | ⟨error, h⟩ := hears_cases session (session.query perform op) outcome
  · cases now with
    | none =>
      have haborted : session.transaction = .aborted := hpending
      simp [Session.query, haborted] at hok
    | some rows =>
      have hopened : session.transaction = .opened rows context := hpending
      cases hperform : perform context op rows with
      | error error =>
        simp [Session.query, hopened, hperform, Except.map] at hok
      | ok done =>
        simp only [Session.query, hopened, hperform, Except.map, Except.ok.injEq, Prod.mk.injEq] at hok
        obtain ⟨rfl, rfl⟩ := hok
        obtain h | ⟨error, h⟩ := h
        · rw [h]
          exact ⟨rfl, rfl, some done.1, rfl, hrun.tail (.carriedOut hperform)⟩
        · rw [h]
          exact ⟨rfl, rfl, some done.1, rfl, hrun.tail (.unheard hperform error)⟩
  · rw [h]
    refine ⟨rfl, rfl, none, ?_, hrun.tail (.refused now error)⟩
    cases now with
    | none =>
      have haborted : session.transaction = .aborted := hpending
      simp [Session.pending, Session.spoilt, haborted, Transaction.spoilt]
    | some rows =>
      have hopened : session.transaction = .opened rows context := hpending
      simp [Session.pending, Session.spoilt, hopened, Transaction.spoilt]
  · rw [h]
    exact ⟨rfl, rfl, now, hpending, hrun.tail (.unsent now error)⟩

end Sessions

section Turns

variable {perform : Context → (op : Op) → Rows → Except String (Rows × Answer op)}
  {calls : List (TenantCall Op Answer Value)} {rows : Rows} {served served' : ℕ} {js js' : List ℕ}
  {x : List (Caller Op Answer Value) × Driver Rows} {driver driver' : Driver Rows} {j k : ℕ}
  {c c' d : Caller Op Answer Value}

theorem Ordered.eq_of_holds (h : Ordered perform calls rows served js x) (hj : x.1[j]? = some c) (hk : x.1[k]? = some d)
    (hc : c.stage.holds = true) (hd : d.stage.holds = true) : j = k :=
  h.tickets j k c d hj hk served ((h.placed j c hj).holds hc) ((h.placed k d hk).holds hd)

theorem Moves.longer (hmoves : Moves perform calls rows served js driver driver' j c c' served' js') :
    driver.gates.length ≤ driver'.gates.length := by
  obtain h | ⟨h, -⟩ := hmoves.grows <;> omega

theorem Placed.others (h : Ordered perform calls rows served js x) (hj : x.1[j]? = some c)
    (hmoves : Moves perform calls rows served js x.2 driver' j c c' served' js') (hk : x.1[k]? = some d) (hne : k ≠ j) :
    Placed perform driver'.role calls served' js' driver' k d := by
  have hplaced := h.placed k d hk
  have hother : ∀ t, c.ticket = some t → d.ticket ≠ some t := fun t hc hd =>
    hne (h.tickets k j d c hk hj t hd hc)
  have hmem : k ∈ js' → k ∈ js := by
    obtain rfl | ⟨rfl, -, -⟩ := hmoves.committed
    · exact id
    · intro hmem
      obtain hmem | hmem := List.mem_append.mp hmem
      · exact hmem
      · exact absurd (List.mem_singleton.mp hmem) hne
  refine ⟨hplaced.call, fun t ht => ?_, hplaced.opening, hplaced.waiting, fun hholds => ?_, ?_,
    fun hcommitted => hplaced.committed (hmem hcommitted), fun value hvalue => ?_⟩
  · obtain ⟨hlt, hbefore, hafter⟩ := hplaced.ticket t ht
    refine ⟨hlt.trans_le hmoves.longer, fun hearly => ?_, fun hlate => ?_⟩
    · obtain rfl | ⟨rfl, hown⟩ := hmoves.advances
      · exact hbefore hearly
      · obtain hlt | rfl := Nat.lt_succ_iff_lt_or_eq.mp hearly
        · exact hbefore hlt
        · exact absurd ht (hother t hown)
    · obtain rfl | ⟨rfl, -⟩ := hmoves.advances
      · exact hafter hlate
      · exact hafter (Nat.lt_of_succ_lt hlate)
  · obtain rfl | ⟨rfl, hown⟩ := hmoves.advances
    · exact hplaced.holds hholds
    · exact absurd (hplaced.holds hholds) (hother served hown)
  · rw [hmoves.role]
    cases hholds : d.stage.holds with
    | false => exact Stage.Fits.outside hholds _
    | true =>
      obtain hsame | hc := hmoves.session
      · rw [hsame]
        exact hplaced.fits
      · exact absurd (h.eq_of_holds hk hj hholds hc) hne
  · rw [hmoves.role]
    refine (hplaced.returned value hvalue).imp_left fun hold => ?_
    obtain rfl | ⟨rfl, -, -⟩ := hmoves.committed
    · exact hold
    · exact List.mem_append_left _ hold

theorem Moves.look (hj : x.1[j]? = some c) (hmoves : Moves perform calls rows served js x.2 driver' j c c' served' js')
    {t : ℕ} (hk : x.1[k]? = some d) (ht : d.ticket = some t) :
    ∃ d', (x.1.set j c')[k]? = some d' ∧ d'.ticket = some t := by
  by_cases hne : k = j
  · subst hne
    obtain rfl := Option.some.inj (hj.symm.trans hk)
    refine ⟨c', ?_, ?_⟩
    · exact List.getElem?_set_self (List.getElem?_eq_some_iff.mp hj).1
    · obtain hsame | ⟨hnone, -⟩ := hmoves.ticket
      · rwa [hsame]
      · rw [hnone] at ht
        cases ht
  · exact ⟨d, by rwa [List.getElem?_set_ne (Ne.symm hne)], ht⟩

/-- Those who are committed have asked for the connection before the one that has it. -/
theorem Ordered.before (h : Ordered perform calls rows served js x) (hj : x.1[j]? = some c)
    (hc : c.ticket = some served)
    (hending : c.stage.ending = false) (hmem : k ∈ js) :
    ∃ d t, x.1[k]? = some d ∧ d.ticket = some t ∧ t < served := by
  obtain ⟨d, hk⟩ : ∃ d, x.1[k]? = some d := ⟨_, List.getElem?_eq_getElem (h.present k hmem)⟩
  obtain ⟨hsome, hend⟩ := (h.placed k d hk).committed hmem
  obtain ⟨t, ht⟩ := Option.ne_none_iff_exists'.mp hsome
  refine ⟨d, t, hk, ht, ?_⟩
  obtain ⟨-, -, hafter⟩ := (h.placed k d hk).ticket t ht
  obtain hlt | rfl | hgt := lt_trichotomy t served
  · exact hlt
  · obtain rfl := h.tickets j k c d hj hk t hc ht
    obtain rfl := Option.some.inj (hj.symm.trans hk)
    rw [hending] at hend
    cases hend
  · rw [hafter hgt] at hend
    cases hend

theorem Ordered.move (h : Ordered perform calls rows served js x) (hj : x.1[j]? = some c)
    (hmoves : Moves perform calls rows served js x.2 driver' j c c' served' js') :
    Ordered perform calls rows served' js' (x.1.set j c', driver') := by
  refine ⟨fun k d hk => ?_, fun k l d e hk hl t hd he => ?_, hmoves.gates, hmoves.within, fun hnone => ?_, hmoves.unset,
    ?_, fun k hk => ?_, hmoves.opened, fun t ht => ?_, ?_⟩
  · obtain ⟨rfl, rfl⟩ | ⟨hne, hk⟩ := getElem?_set_or hk
    · exact hmoves.role.symm ▸ hmoves.placed
    · exact Placed.others h hj hmoves hk hne
  · -- A ticket that is new is the number of those before it.
    have hown : ∀ (k : ℕ) (d : Caller Op Answer Value), x.1[k]? = some d → k ≠ j → t ∈ c'.ticket → t ∉ d.ticket := by
      intro k d hk hne hc hd
      obtain hsame | ⟨-, hnew⟩ := hmoves.ticket
      · rw [hsame] at hc
        exact hne (h.tickets k j d c hk hj t hd hc)
      · rw [hnew] at hc
        obtain rfl := Option.some.inj hc
        exact lt_irrefl _ ((h.placed k d hk).ticket _ hd).1
    obtain ⟨rfl, rfl⟩ | ⟨hne, hold⟩ := getElem?_set_or hk <;> obtain ⟨rfl, rfl⟩ | ⟨hne', hold'⟩ := getElem?_set_or hl
    · rfl
    · exact absurd he (hown l e hold' hne' hd)
    · exact absurd hd (hown k d hold hne he)
    · exact h.tickets k l d e hold hold' t hd he
  · have hc' := hnone c' (mem_set_self hj)
    obtain hclean | ⟨hsame, hc⟩ := hmoves.clean hc'
    · exact hclean
    · rw [hsame]
      refine h.clean fun d hd => ?_
      by_cases hjd : x.1[j]? = some d
      · exact Option.some.inj (hj.symm.trans hjd) ▸ hc
      · exact hnone d (mem_set_of_ne hd hjd)
  · exact hmoves.role.symm ▸ hmoves.serial
  · rw [List.length_set]
    obtain rfl | ⟨rfl, -, -⟩ := hmoves.committed
    · exact h.present k hk
    · obtain hk | hk := List.mem_append.mp hk
      · exact h.present k hk
      · exact List.mem_singleton.mp hk ▸ (List.getElem?_eq_some_iff.mp hj).1
  · have hold : t < x.2.gates.length → ∃ (k : ℕ) (d : Caller Op Answer Value),
        (x.1.set j c')[k]? = some d ∧ d.ticket = some t := by
      intro hlt
      obtain ⟨k, d, hk, hd⟩ := h.owned t hlt
      obtain ⟨d', hk', hd'⟩ := hmoves.look hj hk hd
      exact ⟨k, d', hk', hd'⟩
    obtain hsame | ⟨hmore, hnew⟩ := hmoves.grows
    · exact hold (hsame ▸ ht)
    · obtain hlt | rfl := Nat.lt_succ_iff_lt_or_eq.mp (hmore ▸ ht)
      · exact hold hlt
      · exact ⟨j, c', List.getElem?_set_self (List.getElem?_eq_some_iff.mp hj).1, hnew⟩
  · have hkept : js.Pairwise fun i k => ∃ c d t u,
        (x.1.set j c')[i]? = some c ∧ (x.1.set j c')[k]? = some d ∧ c.ticket = some t ∧ d.ticket = some u ∧ t < u := by
      refine h.inOrder.imp ?_
      rintro i k ⟨d, e, t, u, hi, hk, ht, hu, hlt⟩
      obtain ⟨d', hd', ht'⟩ := hmoves.look hj hi ht
      obtain ⟨e', he', hu'⟩ := hmoves.look hj hk hu
      exact ⟨d', e', t, u, hd', he', ht', hu', hlt⟩
    obtain rfl | ⟨rfl, hticket, hending⟩ := hmoves.committed
    · exact hkept
    · rw [List.pairwise_append]
      refine ⟨hkept, List.pairwise_singleton _ _, fun k hk l hl => ?_⟩
      obtain rfl := List.mem_singleton.mp hl
      obtain ⟨d, t, hd, ht, hlt⟩ := h.before hj hticket hending hk
      obtain ⟨d', hd', ht'⟩ := hmoves.look hj hd ht
      obtain ⟨e', he', hu'⟩ := hmoves.look hj hj hticket
      exact ⟨d', e', t, served, hd', he', ht', hu', hlt⟩

end Turns

section Steps

variable {perform : Context → (op : Op) → Rows → Except String (Rows × Answer op)}
  {calls : List (TenantCall Op Answer Value)} {rows : Rows} {served : ℕ} {js js' : List ℕ}
  {x : List (Caller Op Answer Value) × Driver Rows} {session : Session Rows} {stage : Stage Op Answer Value} {j : ℕ}
  {c : Caller Op Answer Value}

theorem Placed.within (hplaced : Placed perform x.2.role calls served js x.2 j c) (hholds : c.stage.holds = true) :
    served < x.2.gates.length := (hplaced.ticket served (hplaced.holds hholds)).1

/-- The holder of the connection goes on to another stage with it. -/
theorem Ordered.goes (h : Ordered perform calls rows served js x) (hj : x.1[j]? = some c)
    (hholds : c.stage.holds = true)
    (hcommitted : js' = js ∨ js' = js ++ [j] ∧ c.ticket = some served ∧ c.stage.ending = false)
    (hserial : Serial (Commits perform x.2.role calls) rows js' session.rows)
    (hunset : session.settings = fun _ => "") (hstage : stage.holds = true)
    (hfits : stage.Fits perform x.2.role c.call session) (hending : j ∈ js' → stage.ending = true) :
    Moves perform calls rows served js x.2 { x.2 with session := session } j c { c with stage := stage } served js' :=
      by
  have hplaced := h.placed j c hj
  have hticket := hplaced.holds hholds
  have hreturned : ∀ result, stage ≠ .returned result := by
    rintro result rfl
    cases hstage
  refine ⟨rfl, h.gates, .inl rfl, h.opened, h.served, .inl rfl, hcommitted, .inr hholds, .inl rfl,
    ⟨hplaced.call, fun t ht => ?_, ?_, ?_, fun _ => hticket, hfits, fun hmem => ⟨?_, hending hmem⟩, ?_⟩, ?_, hunset,
      hserial⟩
  · obtain rfl := Option.some.inj (ht.symm.trans hticket)
    exact ⟨hplaced.within hholds, fun hlt => absurd hlt (lt_irrefl _), fun hlt => absurd hlt (lt_irrefl _)⟩
  · rintro rfl
    cases hstage
  · rintro rfl
    cases hstage
  · simp [hticket]
  · exact fun value hvalue => absurd hvalue (hreturned _)
  · intro hnot
    rw [hstage] at hnot
    cases hnot

/-- The holder of the connection opens its gate. -/
theorem Ordered.releases {result : Except String Value} (h : Ordered perform calls rows served js x)
    (hj : x.1[j]? = some c) (hholds : c.stage.holds = true)
    (hcommitted : js' = js ∨ js' = js ++ [j] ∧ c.ticket = some served ∧ c.stage.ending = false)
    (hserial : Serial (Commits perform x.2.role calls) rows js' session.rows)
    (hunset : session.settings = fun _ => "") (hclean : session.transaction = .none)
    (hreturned : ∀ value, result = .ok value → j ∈ js' ∨ ∃ before,
      TransactionRun (perform (c.call.context x.2.role)) (c.call.fn, some before) (.ret value, none)) :
    Moves perform calls rows served js x.2 ({ x.2 with session := session }.openGate c.ticket) j c
      { c with stage := .returned result } (served + 1) js' := by
  have hplaced := h.placed j c hj
  have hticket := hplaced.holds hholds
  have hlt := hplaced.within hholds
  have hgates : ({ x.2 with session := session }.openGate c.ticket) =
      { x.2 with session := session, gates := x.2.gates.set served true } := by
    rw [hticket]
    rfl
  rw [hgates]
  refine ⟨rfl, fun t ht => ?_, .inl ?_, fun hne => h.opened ?_, ?_, .inr ⟨rfl, hticket⟩, hcommitted, .inr hholds,
    .inl rfl,
    ⟨hplaced.call, fun t ht => ?_, ?_, ?_, ?_, trivial, fun _ => ⟨?_, rfl⟩, ?_⟩, fun _ => .inl hclean, hunset, hserial⟩
  · rw [List.length_set] at ht
    by_cases hsame : served = t
    · subst hsame
      rw [List.getElem?_set_self ht]
      simp
    · rw [List.getElem?_set_ne hsame, h.gates t ht]
      congr 1
      simp only [decide_eq_decide]
      omega
  · rw [List.length_set]
  · simpa using hne
  · rw [List.length_set]
    omega
  · obtain rfl := Option.some.inj (ht.symm.trans hticket)
    rw [List.length_set]
    exact ⟨hlt, fun _ => ⟨result, rfl⟩, fun hlt => absurd hlt (Nat.not_succ_lt_self)⟩
  · intro h
    cases h
  · intro h
    cases h
  · intro h
    cases h
  · simp [hticket]
  · rintro value hvalue
    cases hvalue
    exact hreturned value rfl

/-- A turn that leaves the gates and the session alone. -/
theorem Ordered.idles {driver' : Driver Rows} {c' : Caller Op Answer Value} (h : Ordered perform calls rows served js x)
    (hrole : driver'.role = x.2.role) (hgates : driver'.gates = x.2.gates) (hsession : driver'.session = x.2.session)
    (hopening : x.2.gates ≠ [] → driver'.opening = some (.ok ())) (hholds : c.stage.holds = false)
    (hticket : c'.ticket = c.ticket) (hplaced : Placed perform x.2.role calls served js driver' j c') :
    Moves perform calls rows served js x.2 driver' j c c' served js := by
  refine ⟨hrole, ?_, .inl ?_, ?_, ?_, .inl rfl, .inl rfl, .inl hsession, .inl hticket, hplaced,
    fun _ => .inr ⟨hsession, hholds⟩, ?_, ?_⟩
  · rw [hgates]
    exact h.gates
  · rw [hgates]
  · rw [hgates]
    exact hopening
  · rw [hgates]
    exact h.served
  · rw [hsession]
    exact h.unset
  · rw [hsession]
    exact h.serial

theorem Ordered.stays (h : Ordered perform calls rows served js x) (hj : x.1[j]? = some c)
    (hholds : c.stage.holds = false) : Moves perform calls rows served js x.2 x.2 j c c served js :=
  h.idles rfl rfl rfl h.opened hholds rfl (h.placed j c hj)

theorem Ordered.asks (h : Ordered perform calls rows served js x) (hj : x.1[j]? = some c) (hstage : c.stage = .opening)
    {opening : Option (Except String Unit)} (hopening : opening = some (.ok ())) :
    Moves perform calls rows served js x.2 (takeTicket { x.2 with opening := opening } c).1 j c
      (takeTicket { x.2 with opening := opening } c).2 served js := by
  have hplaced := h.placed j c hj
  have hticket := hplaced.opening hstage
  refine ⟨rfl, fun t ht => ?_, .inr ⟨?_, rfl⟩, fun _ => hopening, ?_, .inl rfl, .inl rfl, .inl rfl, .inr ⟨hticket, rfl⟩,
    ⟨hplaced.call, fun t ht => ?_, ?_, ?_, ?_, trivial, fun hmem => ?_, ?_⟩, fun _ => .inr ⟨rfl, ?_⟩, h.unset, h.serial⟩
  · simp only [takeTicket, List.length_append, List.length_singleton] at ht ⊢
    have hserved := h.served
    obtain hlt | rfl := Nat.lt_succ_iff_lt_or_eq.mp ht
    · rw [List.getElem?_append_left hlt, h.gates t hlt]
    · simpa using hserved
  · simp [takeTicket]
  · have hserved := h.served
    simp only [takeTicket, List.length_append]
    omega
  · obtain rfl := Option.some.inj ht
    have hserved := h.served
    simp only [takeTicket, List.length_append, List.length_singleton]
    exact ⟨Nat.lt_succ_self _, fun hlt => absurd hserved (not_le.mpr hlt), fun _ => trivial⟩
  · intro h
    cases h
  · intro _ h
    cases h
  · intro h
    cases h
  · exact absurd hticket (hplaced.committed hmem).1
  · rintro value hvalue
    cases hvalue
  · rw [hstage]
    rfl

theorem Ordered.opens (h : Ordered perform calls rows served js x) (hj : x.1[j]? = some c) (hstage : c.stage = .opening)
    (outcome : Outcome) :
    Moves perform calls rows served js x.2 (openDriver x.2 c outcome).1 j c (openDriver x.2 c outcome).2 served js := by
  have hplaced := h.placed j c hj
  have hticket := hplaced.opening hstage
  have hfails : x.2.opening ≠ some (.ok ()) → ∀ (opening : Option (Except String Unit)) (error : String),
      Moves perform calls rows served js x.2 { x.2 with opening := opening } j c
        { c with stage := .returned (.error error) } served js := by
    intro hnot opening error
    refine h.idles rfl rfl rfl (fun hne => absurd (h.opened hne) hnot) (by rw [hstage]; rfl) rfl
      ⟨hplaced.call, fun t ht => ?_, fun _ => hticket, ?_, ?_, trivial, fun hmem => ?_, ?_⟩
    · cases hticket.symm.trans ht
    · intro h
      cases h
    · intro h
      cases h
    · exact absurd hticket (hplaced.committed hmem).1
    · rintro value hvalue
      cases hvalue
  unfold openDriver
  split
  · rename_i hopening
    exact h.asks hj hstage hopening
  · rename_i hopening
    exact hfails (by simp [hopening]) x.2.opening _
  · exact h.asks hj hstage rfl
  all_goals
    rename_i hopening
    exact hfails (by simp [hopening]) _ _

/-- The gate before one's own is open: every other is through. -/
theorem Ordered.served_of_previous (h : Ordered perform calls rows served js x) (hj : x.1[j]? = some c)
    (hstage : c.stage = .waiting) (hready : x.2.previous c.ticket = true) : c.ticket = some served := by
  have hplaced := h.placed j c hj
  have hnot : ∀ t ∈ c.ticket, ¬ t < served := by
    intro t ht hlt
    obtain ⟨-, hbefore, -⟩ := hplaced.ticket t ht
    obtain ⟨result, hreturned⟩ := hbefore hlt
    rw [hstage] at hreturned
    cases hreturned
  match hticket : c.ticket with
  | none =>
    rw [hticket] at hready
    cases hready
  | some 0 =>
    have hzero := hnot 0 hticket
    congr 1
    omega
  | some (t + 1) =>
    rw [hticket] at hready
    have hopen : x.2.gates[t]? = some true := by simpa [Driver.previous] using hready
    have hlt := (List.getElem?_eq_some_iff.mp hopen).1
    rw [h.gates t hlt] at hopen
    have hpassed : t < served := by simpa using hopen
    have hown := hnot (t + 1) hticket
    congr 1
    omega

theorem Ordered.enters (h : Ordered perform calls rows served js x) (hj : x.1[j]? = some c)
    (hstage : c.stage = .waiting)
    (hready : x.2.previous c.ticket = true) :
    Moves perform calls rows served js x.2 x.2 j c { c with stage := .asserting } served js := by
  have hplaced := h.placed j c hj
  have hticket := h.served_of_previous hj hstage hready
  have hfree : ∀ d ∈ x.1, d.stage.holds = false := by
    intro d hd
    by_contra hholds
    obtain ⟨k, hk⟩ := List.mem_iff_getElem?.mp hd
    have hkd := (h.placed k d hk).holds (by simpa using hholds)
    obtain rfl := h.tickets k j d c hk hj _ hkd hticket
    obtain rfl := Option.some.inj (hj.symm.trans hk)
    exact hholds (by rw [hstage]; rfl)
  refine h.idles rfl rfl rfl h.opened (by rw [hstage]; rfl) rfl
    ⟨hplaced.call, fun t ht => ?_, ?_, ?_, fun _ => hticket, h.clean hfree, fun hmem => ?_, ?_⟩
  · obtain rfl := Option.some.inj (ht.symm.trans hticket)
    exact ⟨(hplaced.ticket _ hticket).1, fun hlt => absurd hlt (lt_irrefl _), fun hlt => absurd hlt (lt_irrefl _)⟩
  · intro h
    cases h
  · intro h
    cases h
  · have hending := (hplaced.committed hmem).2
    rw [hstage] at hending
    cases hending
  · rintro value hvalue
    cases hvalue

theorem Ordered.rejects {error : String} (h : Ordered perform calls rows served js x) (hj : x.1[j]? = some c)
    (hstage : c.stage = .asserting) (hrows : session.rows = x.2.session.rows) (hunset : session.settings = fun _ => "")
    (hclean : session.transaction = .none) :
    Moves perform calls rows served js x.2 { x.2 with session := session } j c
      { c with stage := .returned (.error error) } served js := by
  have hplaced := h.placed j c hj
  have hholds : c.stage.holds = true := by rw [hstage]; rfl
  have hticket := hplaced.holds hholds
  refine ⟨rfl, h.gates, .inl rfl, h.opened, h.served, .inl rfl, .inl rfl, .inr hholds, .inl rfl,
    ⟨hplaced.call, fun t ht => ?_, ?_, ?_, ?_, trivial, fun _ => ⟨?_, rfl⟩, ?_⟩, fun _ => .inl hclean, hunset, ?_⟩
  · obtain rfl := Option.some.inj (ht.symm.trans hticket)
    exact ⟨hplaced.within hholds, fun hlt => absurd hlt (lt_irrefl _), fun hlt => absurd hlt (lt_irrefl _)⟩
  · intro h
    cases h
  · intro h
    cases h
  · intro h
    cases h
  · simp [hticket]
  · rintro value hvalue
    cases hvalue
  · change Serial _ rows js session.rows
    rw [hrows]
    exact h.serial

/-- A statement of the wrapper before `fn`: the next stage is what it leads to, or the ROLLBACK. -/
theorem Ordered.sends {command : Command} {next : Stage Op Answer Value} (h : Ordered perform calls rows served js x)
    (hj : x.1[j]? = some c) (hholds : c.stage.holds = true) (hending : c.stage.ending = false)
    (hcommand : command ≠ .commit) (hnext : next.holds = true)
    (hfits : ∀ session, x.2.session.execute command = .ok (session, ()) → next.Fits perform x.2.role c.call session)
    (outcome : Outcome) :
    Moves perform calls rows served js x.2 (sends x.2 c command outcome next).1 j c (sends x.2 c command outcome next).2
      served js := by
  have hmem : j ∉ js := fun hmem => by
    rw [((h.placed j c hj).committed hmem).2] at hending
    cases hending
  obtain ⟨hrows, hunset⟩ := hears_kept x.2.session hcommand h.unset outcome
  have hgoes : ∀ stage : Stage Op Answer Value, stage.holds = true →
      stage.Fits perform x.2.role c.call (x.2.session.hears (x.2.session.execute command) outcome).1 →
      Moves perform calls rows served js x.2
        { x.2 with session := (x.2.session.hears (x.2.session.execute command) outcome).1 } j c
          { c with stage := stage }
        served js := fun stage hstage hfits =>
    h.goes hj hholds (.inl rfl) (hrows.symm ▸ h.serial) hunset hstage hfits fun h => absurd h hmem
  unfold OpenMigrate.Pglite.sends
  obtain ⟨session, ⟨⟩, hok, heq | ⟨error, heq⟩⟩ | ⟨error, heq⟩ | ⟨error, heq⟩ :=
    hears_cases x.2.session (x.2.session.execute command) outcome
  · rw [heq] at hgoes ⊢
    exact hgoes next hnext (hfits session hok)
  all_goals
    rw [heq] at hgoes ⊢
    exact hgoes (.rollingBack error) rfl trivial

theorem Ordered.asserts (h : Ordered perform calls rows served js x) (hj : x.1[j]? = some c)
    (hstage : c.stage = .asserting)
    (outcome : Outcome) :
    Moves perform calls rows served js x.2 (step perform x.2 c outcome).1 j c
      (step perform x.2 c outcome).2 served js := by
  have hholds : c.stage.holds = true := by rw [hstage]; rfl
  have hmem : j ∉ js := fun hmem => by
    have hending := ((h.placed j c hj).committed hmem).2
    rw [hstage] at hending
    cases hending
  have hnone := (h.placed j c hj).fits
  rw [hstage] at hnone
  have hnone : x.2.session.transaction = .none := hnone
  simp only [step, hstage]
  obtain ⟨session, ⟨⟩, hok, heq⟩ | ⟨error, heq⟩ | ⟨error, heq⟩ :=
    hears_cases x.2.session (x.2.session.execute .rowSecurityOn) outcome
  · simp only [Session.execute, hnone, Except.ok.injEq, Prod.mk.injEq, and_true] at hok
    subst hok
    obtain heq | ⟨error, heq⟩ := heq
    · rw [heq]
      exact h.goes hj hholds (.inl rfl) h.serial h.unset rfl ⟨rfl, rfl⟩ fun h => absurd h hmem
    · rw [heq]
      exact h.rejects hj hstage rfl h.unset rfl
  · rw [heq]
    refine h.rejects hj hstage rfl h.unset ?_
    simp [Session.spoilt, hnone, Transaction.spoilt]
  · rw [heq]
    exact h.rejects hj hstage rfl h.unset hnone

theorem Ordered.works {op : Op} {k : Except String (Answer op) → Prog Op Answer String Value}
    (h : Ordered perform calls rows served js x) (hj : x.1[j]? = some c) (hstage : c.stage = .working op k)
    (outcome : Outcome) :
    Moves perform calls rows served js x.2 (step perform x.2 c outcome).1 j c
      (step perform x.2 c outcome).2 served js := by
  have hplaced := h.placed j c hj
  have hholds : c.stage.holds = true := by rw [hstage]; rfl
  have hmem : j ∉ js := fun hmem => by
    have hending := (hplaced.committed hmem).2
    rw [hstage] at hending
    cases hending
  have hfits := hplaced.fits
  rw [hstage] at hfits
  obtain ⟨now, hpending, hrun⟩ := hfits
  obtain ⟨hrows, hsettings, now', hpending', hrun'⟩ := query_steps hpending hrun outcome
  simp only [step, hstage]
  refine h.goes hj hholds (.inl rfl) (hrows.symm ▸ h.serial) (hsettings.trans h.unset) (holds_work _) ?_
    fun h => absurd h hmem
  refine fits_work now' hpending' ?_
  rw [hrows]
  exact hrun'

theorem Ordered.commits {value : Value} (h : Ordered perform calls rows served js x) (hj : x.1[j]? = some c)
    (hstage : c.stage = .committing value) (outcome : Outcome) :
    ∃ served' js', Moves perform calls rows served js x.2 (step perform x.2 c outcome).1 j c
      (step perform x.2 c outcome).2 served' js' := by
  have hplaced := h.placed j c hj
  have hholds : c.stage.holds = true := by rw [hstage]; rfl
  have hending : c.stage.ending = false := by rw [hstage]; rfl
  have hfits := hplaced.fits
  rw [hstage] at hfits
  obtain ⟨now, hpending, hrun⟩ := hfits
  obtain ⟨session, hexecute, hclean, hsettings, hrows⟩ := execute_commit hpending
  -- The COMMIT makes the call one of those that are committed, unless its transaction has failed.
  obtain ⟨js', hjs, hserial, hreturned⟩ : ∃ js', (js' = js ∨ js' = js ++ [j] ∧ c.ticket = some served ∧
      c.stage.ending = false) ∧ Serial (Commits perform x.2.role calls) rows js' session.rows ∧
      (j ∈ js' ∨ ∃ before, TransactionRun (perform (c.call.context x.2.role)) (c.call.fn, some before)
        (.ret value, none)) := by
    cases now with
    | none => exact ⟨js, .inl rfl, hrows.symm ▸ h.serial, .inr ⟨_, hrun⟩⟩
    | some after =>
      refine ⟨js ++ [j], .inr ⟨rfl, hplaced.holds hholds, hending⟩, ?_, .inl (by simp)⟩
      exact h.serial.snoc ⟨c.call, value, hplaced.call, hrows.symm ▸ hrun⟩
  have hunset : session.settings = fun _ => "" := hsettings.trans h.unset
  have hfails : ∀ error (session : Session Rows), session.rows = x.2.session.rows → (session.settings = fun _ => "") →
      Moves perform calls rows served js x.2 { x.2 with session := session } j c { c with stage := .rollingBack error }
        served js := fun error session hrows hunset =>
    h.goes hj hholds (.inl rfl) (hrows.symm ▸ h.serial) hunset rfl trivial fun _ => rfl
  simp only [step, hstage]
  obtain ⟨session', ⟨⟩, hok, heq | ⟨error, heq⟩⟩ | ⟨error, heq⟩ | ⟨error, heq⟩ :=
    hears_cases x.2.session (x.2.session.execute .commit) outcome
  · obtain ⟨rfl, -⟩ := Prod.mk.inj (Except.ok.inj (hexecute.symm.trans hok))
    rw [heq]
    refine ⟨served + 1, js', h.releases hj hholds hjs hserial hunset hclean fun value' hvalue => ?_⟩
    cases hvalue
    exact hreturned
  · obtain ⟨rfl, -⟩ := Prod.mk.inj (Except.ok.inj (hexecute.symm.trans hok))
    rw [heq]
    exact ⟨served, js', h.goes hj hholds hjs hserial hunset rfl trivial fun _ => rfl⟩
  · rw [heq]
    exact ⟨served, js, hfails error _ rfl h.unset⟩
  · rw [heq]
    exact ⟨served, js, hfails error _ rfl h.unset⟩

theorem Ordered.rollsBack {error : String} (h : Ordered perform calls rows served js x) (hj : x.1[j]? = some c)
    (hstage : c.stage = .rollingBack error) (outcome : Outcome) :
    ∃ served', Moves perform calls rows served js x.2 (step perform x.2 c outcome).1 j c
      (step perform x.2 c outcome).2 served' js := by
  have hholds : c.stage.holds = true := by rw [hstage]; rfl
  have hresets : ∀ session : Session Rows, session.rows = x.2.session.rows → (session.settings = fun _ => "") →
      Moves perform calls rows served js x.2 { x.2 with session := session } j c
        { c with stage := .resetting (.error error) } served js := fun session hrows hunset =>
    h.goes hj hholds (.inl rfl) (hrows.symm ▸ h.serial) hunset rfl ⟨error, rfl⟩ fun _ => rfl
  obtain ⟨hrows, hunset⟩ := hears_kept x.2.session (Command.noConfusion : Command.rollback ≠ .commit) h.unset outcome
  simp only [step, hstage]
  obtain ⟨session', ⟨⟩, hok, heq | ⟨error', heq⟩⟩ | ⟨error', heq⟩ | ⟨error', heq⟩ :=
    hears_cases x.2.session (x.2.session.execute .rollback) outcome
  · rw [heq]
    cases hok
    refine ⟨served + 1, h.releases hj hholds (.inl rfl) h.serial h.unset rfl fun value hvalue => ?_⟩
    cases hvalue
  all_goals
    rw [heq] at hrows hunset ⊢
    exact ⟨served, hresets _ hrows hunset⟩

theorem Ordered.resets {result : Except String Value} (h : Ordered perform calls rows served js x)
    (hj : x.1[j]? = some c)
    (hstage : c.stage = .resetting result) {outcome : Outcome} (hresets : Resets x.2 c outcome) :
    Moves perform calls rows served js x.2 (step perform x.2 c outcome).1 j c
      (step perform x.2 c outcome).2 (served + 1) js := by
  have hholds : c.stage.holds = true := by rw [hstage]; rfl
  have hfits := (h.placed j c hj).fits
  rw [hstage] at hfits
  obtain ⟨error, rfl⟩ := hfits
  have hreset : (x.2.session.hears (x.2.session.execute .reset) outcome).1 =
      { x.2.session with
        transaction := .none
        settings := fun s => if s = .currentTenant then "" else x.2.session.settings s } := by
    have hcarried : outcome.carriedOut = true := hresets (by rw [hstage]; rfl)
    cases outcome <;> first | rfl | cases hcarried
  simp only [step, hstage, hreset]
  refine h.releases hj hholds (.inl rfl) h.serial ?_ rfl fun value hvalue => ?_
  · simp [h.unset]
  · cases hvalue

/-- One turn of one caller. -/
theorem step_moves (h : Ordered perform calls rows served js x) (hj : x.1[j]? = some c) (outcome : Outcome)
    (hresets : Resets x.2 c outcome) :
    ∃ served' js', Moves perform calls rows served js x.2 (step perform x.2 c outcome).1 j c
      (step perform x.2 c outcome).2 served' js' := by
  have hfits := (h.placed j c hj).fits
  cases hstage : c.stage with
  | opening =>
    simp only [step, hstage]
    exact ⟨served, js, h.opens hj hstage outcome⟩
  | waiting =>
    simp only [step, hstage]
    split
    · rename_i hready
      exact ⟨served, js, h.enters hj hstage hready⟩
    · exact ⟨served, js, h.stays hj (by rw [hstage]; rfl)⟩
  | asserting => exact ⟨served, js, h.asserts hj hstage outcome⟩
  | beginning =>
    rw [hstage] at hfits
    obtain ⟨hnone, hsecurity⟩ := hfits
    simp only [step, hstage]
    refine ⟨served, js, h.sends hj (by rw [hstage]; rfl) (by rw [hstage]; rfl) (by simp) (holds_begun _ _)
      (fun session hok => ?_) outcome⟩
    simp only [Session.execute, hnone, Except.ok.injEq, Prod.mk.injEq, and_true] at hok
    subst hok
    have hcontext : x.2.session.context = ⟨none, fun _ => "", true⟩ := by
      rw [Session.context, h.unset, hsecurity]
    refine fits_begun ?_
    simp only [hcontext]
  | settingRole role =>
    rw [hstage] at hfits
    obtain ⟨hrole, hopened⟩ := hfits
    simp only [step, hstage]
    refine ⟨served, js, h.sends hj (by rw [hstage]; rfl) (by rw [hstage]; rfl) (by simp) (holds_set _ _)
      (fun session hok => ?_) outcome⟩
    simp only [Session.execute, hopened, Except.ok.injEq, Prod.mk.injEq, and_true] at hok
    subst hok
    refine fits_set [] rfl ?_
    rw [hrole]
    rfl
  | setting name value rest =>
    rw [hstage] at hfits
    obtain ⟨done, hsettings, hopened⟩ := hfits
    simp only [step, hstage]
    refine ⟨served, js, h.sends hj (by rw [hstage]; rfl) (by rw [hstage]; rfl) (by simp) (holds_set _ _)
      (fun session hok => ?_) outcome⟩
    simp only [Session.execute, hopened, Except.ok.injEq, Prod.mk.injEq, and_true] at hok
    subst hok
    refine fits_set (done ++ [(name, value)]) (by simp [hsettings]) ?_
    simp
  | working op k => exact ⟨served, js, h.works hj hstage outcome⟩
  | committing value => exact h.commits hj hstage outcome
  | rollingBack error =>
    obtain ⟨served', hmoves⟩ := h.rollsBack hj hstage outcome
    exact ⟨served', js, hmoves⟩
  | resetting result => exact ⟨served + 1, js, h.resets hj hstage hresets⟩
  | returned result =>
    simp only [step, hstage]
    exact ⟨served, js, h.stays hj (by rw [hstage]; rfl)⟩

end Steps

section Runs

variable {perform : Context → (op : Op) → Rows → Except String (Rows × Answer op)}
  {calls : List (TenantCall Op Answer Value)} {rows : Rows} {x : List (Caller Op Answer Value) × Driver Rows}

theorem start_ordered (perform : Context → (op : Op) → Rows → Except String (Rows × Answer op)) (role : Option String)
    (rowSecurity : Bool) (calls : List (TenantCall Op Answer Value)) (rows : Rows) :
    Ordered perform calls rows 0 [] (calls.map fun call => { call := call }, pgliteDriver role rows rowSecurity) := by
  have hget : ∀ (j : ℕ) (c : Caller Op Answer Value), (calls.map fun call => { call := call })[j]? = some c →
      ∃ call, calls[j]? = some call ∧ c = { call := call } := by
    intro j c hc
    rw [List.getElem?_map, Option.map_eq_some_iff] at hc
    obtain ⟨call, hcall, rfl⟩ := hc
    exact ⟨call, hcall, rfl⟩
  refine ⟨fun j c hc => ?_, fun j k c d hc hd t ht => ?_, fun t ht => absurd ht (Nat.not_lt_zero t), le_rfl,
    fun _ => rfl, rfl, .nil, fun j hj => absurd hj List.not_mem_nil, fun h => absurd rfl h,
    fun t ht => absurd ht (Nat.not_lt_zero t), List.Pairwise.nil⟩
  · obtain ⟨call, hcall, rfl⟩ := hget j c hc
    refine ⟨hcall, fun t ht => ?_, fun _ => rfl, fun h => ?_, fun h => ?_, trivial, fun h => absurd h List.not_mem_nil,
      fun value hvalue => ?_⟩
    · cases ht
    · cases h
    · cases h
    · cases hvalue
  · obtain ⟨call, -, rfl⟩ := hget j c hc
    cases ht

theorem turn_ordered {role : Option String} {ch : ℕ × Outcome} {c : Caller Op Answer Value}
    (h : x.2.role = role ∧ ∃ served js, Ordered perform calls rows served js x) (hc : x.1[ch.1]? = some c)
    (hresets : Resets x.2 c ch.2) :
    (turn (step perform) x ch).2.role = role ∧ ∃ served js, Ordered perform calls rows served js
      (turn (step perform) x ch) := by
  obtain ⟨hrole, served, js, h⟩ := h
  obtain ⟨served', js', hmoves⟩ := step_moves h hc ch.2 hresets
  have hturn : turn (step perform) x ch = (x.1.set ch.1 (step perform x.2 c ch.2).2, (step perform x.2 c ch.2).1) := by
    simp [turn, hc]
  rw [hturn]
  exact ⟨hmoves.role.trans hrole, served', js', h.move hc hmoves⟩

theorem Ordered.isolated {served : ℕ} {js : List ℕ} (h : Ordered perform calls rows served js x) :
    Isolated perform x.2.role calls rows x := by
  refine ⟨fun j k c d hj hk => h.eq_of_holds hj hk, fun j c hj op k hstage => ?_, js, h.serial, h.inOrder,
    fun j c hj value hvalue => ?_⟩
  · have hfits := (h.placed j c hj).fits
    rw [hstage] at hfits
    exact ⟨c.call, (h.placed j c hj).call, hfits⟩
  · refine ((h.placed j c hj).returned value hvalue).imp_right ?_
    rintro ⟨before, hrun⟩
    exact ⟨c.call, before, (h.placed j c hj).call, hrun⟩

theorem run_ordered {role : Option String} {rowSecurity : Bool} {chs : List (ℕ × Outcome)}
    (hresets : EveryTurn (step perform) Resets
      (calls.map fun call => { call := call }, pgliteDriver role rows rowSecurity) chs) :
    (run perform (pgliteDriver role rows rowSecurity) calls chs).2.role = role ∧
      ∃ served js, Ordered perform calls rows served js (run perform (pgliteDriver role rows rowSecurity) calls chs) :=
        by
  have hkept := turns_keeps (P := fun x => x.2.role = role ∧ ∃ served js, Ordered perform calls rows served js x)
    (fun x ch c h hc hresets => turn_ordered h hc hresets) hresets
    ⟨rfl, 0, [], start_ordered perform role rowSecurity calls rows⟩ chs.length
  rwa [List.take_length] at hkept

/-- Concurrent calls on the one session: each runs whole and as itself, as long as no reset of the session fails. -/
theorem calls_isolated (perform : Context → (op : Op) → Rows → Except String (Rows × Answer op)) (role : Option String)
    (rows : Rows) (rowSecurity : Bool) (calls : List (TenantCall Op Answer Value)) (chs : List (ℕ × Outcome))
    (hresets : EveryTurn (step perform) Resets
      (calls.map fun call => { call := call }, pgliteDriver role rows rowSecurity) chs) :
    Isolated perform role calls rows (run perform (pgliteDriver role rows rowSecurity) calls chs) := by
  obtain ⟨hrole, served, js, h⟩ := run_ordered hresets
  have hisolated := h.isolated
  rw [hrole] at hisolated
  exact hisolated

/-- Rows that carry the tenant they were written for, which the policies let only that tenant write. -/
def writeAs (context : Context) (row : String × String) (rows : List (String × String)) :
    Except String (List (String × String) × Unit) :=
  if context.rowSecurity = true ∧ context.settings .currentTenant ≠ row.1 then
    .error "new row violates row-level security policy"
  else .ok (rows ++ [row], ())

/-- The first tenant's ROLLBACK is not sent, and the reset behind it is, before the second has the connection. -/
theorem two_tenants_isolated :
    Isolated writeAs (some "app_user") [withTenant "a" (.perform ("a", "x")), withTenant "b" (.perform ("b", "y"))] []
      (run writeAs (pgliteDriver (some "app_user") [] false)
        [withTenant "a" (.perform ("a", "x")), withTenant "b" (.perform ("b", "y"))]
        [(0, .runs), (1, .runs), (0, .runs), (1, .runs), (0, .runs), (0, .runs), (0, .runs), (0, .runs), (0, .runs),
          (0, .unsent "interrupted"), (0, .unsent "interrupted"), (1, .runs), (0, .runs), (1, .runs), (1, .runs),
          (1, .runs), (1, .runs), (1, .runs), (1, .runs), (1, .runs)]) :=
  calls_isolated writeAs (some "app_user") [] false _ _ (by decide)

end Runs

end OpenMigrate.Pglite
