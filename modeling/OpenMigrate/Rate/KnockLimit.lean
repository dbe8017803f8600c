import OpenMigrate.Rate.FixedWindow
import Mathlib.Data.List.Nodup

namespace OpenMigrate.KnockLimit

open FixedWindow (Window)

section Source

/-- What `knockLimitFromEnv` lets through. -/
structure KnockLimitConfig where
  windowMs : ℕ
  max : ℕ
  windowMs_pos : 0 < windowMs
  max_pos : 0 < max

def DEFAULT_KNOCK_LIMIT : KnockLimitConfig := ⟨60 * 60 * 1000, 60, by decide, by decide⟩

/-- `windows` -/
abbrev Windows := List (String × Window)

variable (config : KnockLimitConfig)

/-- `now - window.startedAt >= config.windowMs` -/
def expired (now : ℕ) (window : Window) : Bool := decide (window.startedAt + config.windowMs ≤ now)

def current (windows : Windows) (key : String) (now : ℕ) : Windows × Option Window :=
  match windows.lookup key with
  | none => (windows, none)
  | some window =>
    if expired config now window then (windows.filter fun e => e.1 ≠ key, none) else (windows, some window)

/-- The sweep before an insertion. -/
def swept (windows : Windows) (now : ℕ) : Windows :=
  if 10000 < windows.length then windows.filter fun e => !expired config now e.2 else windows

def setWindow (windows : Windows) (key : String) (window : Window) : Windows :=
  windows.map fun e => if e.1 = key then (e.1, window) else e

def take (windows : Windows) (key : String) (now : ℕ) : Windows × Bool :=
  match current config (swept config windows now) key now with
  | (windows, none) => (windows ++ [(key, ⟨1, now⟩)], true)
  | (windows, some window) =>
    if config.max ≤ window.count then (windows, false)
    else (setWindow windows key ⟨window.count + 1, window.startedAt⟩, true)

/-- `Math.ceil((window.startedAt + config.windowMs - now) / 1000)`, at least 1 -/
def retryAfterSeconds (windows : Windows) (key : String) (now : ℕ) : Windows × ℕ :=
  match current config windows key now with
  | (windows, none) => (windows, 0)
  | (windows, some window) => (windows, Nat.max 1 ((window.startedAt + config.windowMs - now + 999) / 1000))

/-- One call of the limiter. -/
structure Knock where
  key : String
  at_ : ℕ
  takes : Bool

inductive Answer where
  | allowed (may : Bool)
  | seconds (n : ℕ)
  deriving DecidableEq

def answer (windows : Windows) (knock : Knock) : Windows × Answer :=
  if knock.takes then
    ((take config windows knock.key knock.at_).1, .allowed (take config windows knock.key knock.at_).2)
  else
    ((retryAfterSeconds config windows knock.key knock.at_).1,
      .seconds (retryAfterSeconds config windows knock.key knock.at_).2)

def answers (windows : Windows) : List Knock → List (Knock × Answer)
  | [] => []
  | knock :: rest => (knock, (answer config windows knock).2) :: answers (answer config windows knock).1 rest

def afterwards (windows : Windows) : List Knock → Windows
  | [] => windows
  | knock :: rest => afterwards (answer config windows knock).1 rest

end Source

section Spec

/-- When a caller asked to proceed. -/
def takesOf (key : String) (knocks : List Knock) : List ℕ :=
  knocks.filterMap fun knock => if knock.key = key ∧ knock.takes = true then some knock.at_ else none

def decidedOf (key : String) (records : List (Knock × Answer)) : List Bool :=
  records.filterMap fun r =>
    match r.2 with
    | .allowed may => if r.1.key = key then some may else none
    | .seconds _ => none

/-- When a caller was let through. -/
def grantedOf (key : String) (records : List (Knock × Answer)) : List ℕ :=
  records.filterMap fun r => if r.1.key = key ∧ r.2 = .allowed true then some r.1.at_ else none

/-- What a caller is told that is refused at this time, who asks again later. -/
structure Told (config : KnockLimitConfig) (windows : Windows) (key : String) (now : ℕ) : Prop where
  some : 1 ≤ (retryAfterSeconds config (take config windows key now).1 key now).2
  late : ∀ later, now + 1000 * (retryAfterSeconds config (take config windows key now).1 key now).2 ≤ later →
    (take config (retryAfterSeconds config (take config windows key now).1 key now).1 key later).2 = true
  early : ∀ later, now ≤ later →
    later ≤ now + 1000 * ((retryAfterSeconds config (take config windows key now).1 key now).2 - 1) →
    (take config (retryAfterSeconds config (take config windows key now).1 key now).1 key later).2 = false

/-- What the limiter does in a run: to each caller it is a counter of its own, whatever the others do and whatever was
swept. -/
structure Limited (config : KnockLimitConfig) (knocks : List Knock) : Prop where
  alone : ∀ key, decidedOf key (answers config [] knocks) =
    FixedWindow.decisions config.windowMs config.max none (takesOf key knocks)
  bounded : ∀ key a, (grantedOf key (answers config [] knocks)).countP (fun t => a ≤ t && t < a + config.windowMs) ≤
    2 * config.max
  earned : ∀ key now, (∀ knock ∈ knocks, knock.at_ ≤ now) → (take config (afterwards config [] knocks) key now).2 = false →
    config.max ≤ (grantedOf key (answers config [] knocks)).countP fun t => now < t + config.windowMs
  told : ∀ key now, (∀ knock ∈ knocks, knock.at_ ≤ now) → (take config (afterwards config [] knocks) key now).2 = false →
    Told config (afterwards config [] knocks) key now
  small : ∀ key now, (take config (afterwards config [] knocks) key now).1.length ≤ 10001 ∨
    ∀ e ∈ (take config (afterwards config [] knocks) key now).1, expired config now e.2 = false

end Spec

section Lookup

variable {α : Type} {key : String} {entries : List (String × α)}

theorem lookup_filter (h : (entries.map Prod.fst).Nodup) (p : String × α → Bool) (key : String) :
    (entries.filter p).lookup key = (entries.lookup key).filter fun a => p (key, a) := by
  induction entries with
  | nil => rfl
  | cons e entries ih =>
    rw [List.map_cons, List.nodup_cons] at h
    obtain ⟨name, a⟩ := e
    have hrest := ih h.2
    rw [List.filter_cons]
    by_cases hkey : key = name
    · subst hkey
      rw [List.lookup_cons_self, Option.filter_some]
      split
      · rw [List.lookup_cons_self]
      · rw [hrest]
        have hnone : entries.lookup key = none := by
          refine List.lookup_eq_none_iff.mpr fun e he => ?_
          rw [bne_iff_ne]
          intro hname
          exact h.1 (List.mem_map.mpr ⟨e, he, hname.symm⟩)
        rw [hnone]
        rfl
    · have hbeq : (key == name) = false := beq_eq_false_iff_ne.mpr hkey
      rw [List.lookup_cons, hbeq]
      split
      · rw [List.lookup_cons, hbeq, hrest]
      · exact hrest

theorem lookup_append (entries : List (String × α)) (key name : String) (a : α) :
    (entries ++ [(name, a)]).lookup key = (entries.lookup key).or (if key = name then some a else none) := by
  rw [List.lookup_append]
  congr 1
  by_cases hkey : key = name
  · rw [hkey, List.lookup_cons_self, if_pos rfl]
  · rw [List.lookup_cons, beq_eq_false_iff_ne.mpr hkey, if_neg hkey]
    rfl

theorem keys_nodup_filter (h : (entries.map Prod.fst).Nodup) (p : String × α → Bool) :
    ((entries.filter p).map Prod.fst).Nodup := h.sublist (List.filter_sublist.map _)

theorem lookup_setWindow (windows : Windows) (key : String) (window : Window) (name : String) :
    (setWindow windows key window).lookup name =
      if name = key then (windows.lookup name).map fun _ => window else windows.lookup name := by
  induction windows with
  | nil =>
    rw [setWindow, List.map_nil, List.lookup_nil]
    split <;> rfl
  | cons e windows ih =>
    obtain ⟨other, w⟩ := e
    rw [setWindow, List.map_cons, ← setWindow]
    by_cases hother : name = other
    · subst hother
      by_cases hname : name = key
      · rw [if_pos hname, if_pos hname, List.lookup_cons_self, List.lookup_cons_self, Option.map_some]
      · rw [if_neg hname, if_neg hname, List.lookup_cons_self, List.lookup_cons_self]
    · have hbeq : (name == other) = false := beq_eq_false_iff_ne.mpr hother
      have hboth : ∀ (v : Window) (rest : Windows), List.lookup name ((other, v) :: rest) = rest.lookup name :=
        fun v rest => by rw [List.lookup_cons, hbeq]
      rw [hboth, ← ih]
      split <;> exact hboth _ _

theorem setWindow_keys (windows : Windows) (key : String) (window : Window) :
    (setWindow windows key window).map Prod.fst = windows.map Prod.fst := by
  rw [setWindow, List.map_map]
  apply List.map_congr_left
  intro e _
  rw [Function.comp_apply]
  split <;> rfl

end Lookup

section Tracks

variable (config : KnockLimitConfig) {windows : Windows}

theorem expired_eq (now : ℕ) (w : Window) :
    expired config now w = !FixedWindow.live config.windowMs now w := by
  rw [expired, FixedWindow.live, ← decide_not]
  exact decide_eq_decide.mpr not_lt.symm

/-- Two maps that differ in windows that are over. -/
structure SameWindows (now : ℕ) (windows windows' : Windows) : Prop where
  nodup : (windows'.map Prod.fst).Nodup
  same : ∀ name, FixedWindow.visible config.windowMs (windows'.lookup name) now =
    FixedWindow.visible config.windowMs (windows.lookup name) now

theorem current_same (h : (windows.map Prod.fst).Nodup) (key : String) (now : ℕ) :
    SameWindows config now windows (current config windows key now).1 ∧
      (current config windows key now).2 = FixedWindow.visible config.windowMs (windows.lookup key) now ∧
      (current config windows key now).1.lookup key = (current config windows key now).2 := by
  unfold current
  cases hkey : windows.lookup key with
  | none => exact ⟨⟨h, fun _ => rfl⟩, rfl, hkey⟩
  | some window =>
    dsimp only
    rw [expired_eq, FixedWindow.visible, Option.filter_some]
    by_cases hlive : FixedWindow.live config.windowMs now window = true
    · rw [hlive, if_pos rfl]
      exact ⟨⟨h, fun _ => rfl⟩, rfl, hkey⟩
    · rw [if_neg hlive, if_pos (by simpa using hlive)]
      refine ⟨⟨keys_nodup_filter h _, fun name => ?_⟩, rfl, ?_⟩
      · rw [lookup_filter h]
        by_cases hname : name = key
        · rw [hname, hkey, FixedWindow.visible, FixedWindow.visible, Option.filter_some, Option.filter_some, if_neg hlive]
          simp
        · have hall : ∀ o : Option Window, (o.filter fun _ => true) = o := fun o => by cases o <;> rfl
          simp [hname, hall]
      · rw [lookup_filter h, hkey]
        simp

theorem swept_same (h : (windows.map Prod.fst).Nodup) (now : ℕ) :
    SameWindows config now windows (swept config windows now) := by
  unfold swept
  split
  · refine ⟨keys_nodup_filter h _, fun name => ?_⟩
    rw [lookup_filter h, FixedWindow.visible, Option.filter_filter]
    congr 1
    funext w
    rw [expired_eq]
    simp
  · exact ⟨h, fun _ => rfl⟩

/-- One call of `take` is one of the caller's counter, and leaves the others. -/
theorem take_same (h : (windows.map Prod.fst).Nodup) (key : String) (now : ℕ) :
    ((take config windows key now).1.map Prod.fst).Nodup ∧
      (take config windows key now).2 = (FixedWindow.take config.windowMs config.max (windows.lookup key) now).2 ∧
      ∀ name, FixedWindow.visible config.windowMs ((take config windows key now).1.lookup name) now =
        FixedWindow.visible config.windowMs
          (if name = key then (FixedWindow.take config.windowMs config.max (windows.lookup key) now).1
            else windows.lookup name) now := by
  have hswept := swept_same config h now
  obtain ⟨hcurrent, hfound, hlookup⟩ := current_same config hswept.nodup key now
  have hsame : ∀ name, FixedWindow.visible config.windowMs
      ((current config (swept config windows now) key now).1.lookup name) now =
        FixedWindow.visible config.windowMs (windows.lookup name) now :=
    fun name => (hcurrent.same name).trans (hswept.same name)
  rw [hswept.same key] at hfound
  unfold take FixedWindow.take
  rw [← hfound]
  have hnodup := hcurrent.nodup
  generalize current config (swept config windows now) key now = r at hfound hlookup hsame hnodup
  obtain ⟨rest, found⟩ := r
  dsimp only at hfound hlookup hsame hnodup ⊢
  cases found with
  | none =>
    refine ⟨?_, rfl, fun name => ?_⟩
    · rw [List.map_append, List.nodup_append]
      refine ⟨hnodup, List.nodup_singleton _, ?_⟩
      intro other hother new hnew heq
      obtain rfl : new = key := List.mem_singleton.mp hnew
      obtain ⟨e, he, rfl⟩ := List.mem_map.mp hother
      have hdiffers := List.lookup_eq_none_iff.mp hlookup e he
      rw [heq, bne_self_eq_false] at hdiffers
      cases hdiffers
    · dsimp only
      rw [lookup_append]
      by_cases hname : name = key
      · rw [if_pos hname, if_pos hname, hname, hlookup]
        rfl
      · rw [if_neg hname, if_neg hname, Option.or_none]
        exact hsame name
  | some window =>
    dsimp only
    split
    · refine ⟨hnodup, rfl, fun name => ?_⟩
      by_cases hname : name = key
      · rw [if_pos hname, hname, hlookup]
      · rw [if_neg hname]
        exact hsame name
    · refine ⟨by rw [setWindow_keys]; exact hnodup, rfl, fun name => ?_⟩
      rw [lookup_setWindow]
      by_cases hname : name = key
      · rw [if_pos hname, if_pos hname, hname, hlookup]
        rfl
      · rw [if_neg hname, if_neg hname]
        exact hsame name

theorem retry_same (h : (windows.map Prod.fst).Nodup) (key : String) (now : ℕ) :
    SameWindows config now windows (retryAfterSeconds config windows key now).1 := by
  have hcurrent := (current_same config h key now).1
  unfold retryAfterSeconds
  split
  · rename_i hfound
    rw [hfound] at hcurrent
    exact hcurrent
  · rename_i hfound
    rw [hfound] at hcurrent
    exact hcurrent

end Tracks

section Run

variable (config : KnockLimitConfig) {windows : Windows} {knocks : List Knock} {key : String} {now : ℕ}
  {w : Option Window}

/-- The map holds the window of a counter that runs beside it. -/
structure Tracks (windows : Windows) (key : String) (w : Option Window) (now : ℕ) : Prop where
  nodup : (windows.map Prod.fst).Nodup
  same : FixedWindow.visible config.windowMs (windows.lookup key) now = FixedWindow.visible config.windowMs w now

variable {config}

theorem Tracks.later {later : ℕ} (h : Tracks config windows key w now) (hlater : now ≤ later) :
    Tracks config windows key w later := ⟨h.nodup, FixedWindow.visible_later hlater h.same⟩

theorem Tracks.take_eq (h : Tracks config windows key w now) :
    FixedWindow.take config.windowMs config.max (windows.lookup key) now =
      FixedWindow.take config.windowMs config.max w now := by
  rw [← FixedWindow.take_visible, h.same, FixedWindow.take_visible]

theorem Tracks.take (h : Tracks config windows key w now) :
    (KnockLimit.take config windows key now).2 = (FixedWindow.take config.windowMs config.max w now).2 ∧
      Tracks config (KnockLimit.take config windows key now).1 key
        (FixedWindow.take config.windowMs config.max w now).1 now := by
  obtain ⟨hnodup, hanswer, hsame⟩ := take_same config h.nodup key now
  have hkey := hsame key
  rw [if_pos rfl, h.take_eq] at hkey
  exact ⟨hanswer.trans (congrArg Prod.snd h.take_eq), hnodup, hkey⟩

theorem Tracks.take_other {name : String} (h : Tracks config windows key w now) (hname : key ≠ name) :
    Tracks config (KnockLimit.take config windows name now).1 key w now := by
  obtain ⟨hnodup, -, hsame⟩ := take_same config h.nodup name now
  have hkey := hsame key
  rw [if_neg hname] at hkey
  exact ⟨hnodup, hkey.trans h.same⟩

theorem Tracks.retry (h : Tracks config windows key w now) (name : String) :
    Tracks config (retryAfterSeconds config windows name now).1 key w now := by
  have hretry := retry_same config h.nodup name now
  exact ⟨hretry.nodup, (hretry.same key).trans h.same⟩

theorem decidedOf_cons (knock : Knock) (a : Answer) (records : List (Knock × Answer)) :
    decidedOf key ((knock, a) :: records) =
      (match a with
        | .allowed may => if knock.key = key then [may] else []
        | .seconds _ => []) ++ decidedOf key records := by
  cases a with
  | allowed may => by_cases hkey : knock.key = key <;> simp [decidedOf, hkey]
  | seconds n => simp [decidedOf]

theorem grantedOf_cons (knock : Knock) (a : Answer) (records : List (Knock × Answer)) :
    grantedOf key ((knock, a) :: records) =
      (if knock.key = key ∧ a = .allowed true then [knock.at_] else []) ++ grantedOf key records := by
  by_cases h : knock.key = key ∧ a = .allowed true <;> simp [grantedOf, h]

theorem takesOf_cons (knock : Knock) (knocks : List Knock) :
    takesOf key (knock :: knocks) =
      (if knock.key = key ∧ knock.takes = true then [knock.at_] else []) ++ takesOf key knocks := by
  by_cases h : knock.key = key ∧ knock.takes = true <;> simp [takesOf, h]

/-- What the run of the limiter has of one caller is the run of the counter. -/
theorem answers_alone (h : Tracks config windows key w now) (hsorted : knocks.Pairwise fun a b => a.at_ ≤ b.at_)
    (hnow : ∀ knock ∈ knocks, now ≤ knock.at_) :
    decidedOf key (answers config windows knocks) =
        FixedWindow.decisions config.windowMs config.max w (takesOf key knocks) ∧
      grantedOf key (answers config windows knocks) =
        (FixedWindow.grants config.windowMs config.max w (takesOf key knocks)).map Prod.fst ∧
      ∀ last, (∀ knock ∈ knocks, knock.at_ ≤ last) → now ≤ last →
        Tracks config (afterwards config windows knocks) key
          (FixedWindow.after config.windowMs config.max w (takesOf key knocks)) last := by
  induction knocks generalizing windows w now with
  | nil => exact ⟨rfl, rfl, fun last _ hlast => h.later hlast⟩
  | cons knock rest ih =>
    obtain ⟨hfirst, hrest⟩ := List.pairwise_cons.mp hsorted
    have hthen := h.later (hnow knock List.mem_cons_self)
    rw [takesOf_cons, answers, decidedOf_cons, grantedOf_cons, afterwards]
    by_cases hours : knock.key = key ∧ knock.takes = true
    · obtain ⟨rfl, htakes⟩ := hours
      obtain ⟨hanswer, hnext⟩ := hthen.take
      have hmade : answer config windows knock = ((KnockLimit.take config windows knock.key knock.at_).1,
          .allowed (KnockLimit.take config windows knock.key knock.at_).2) := if_pos htakes
      obtain ⟨hdecided, hgranted, hafter⟩ := ih hnext hrest hfirst
      rw [hmade, if_pos ⟨rfl, htakes⟩]
      dsimp only
      rw [if_pos rfl, hanswer, List.singleton_append, List.singleton_append, FixedWindow.decisions, FixedWindow.after,
        FixedWindow.grants, hdecided, hgranted]
      refine ⟨rfl, ?_, fun last hall _ => ?_⟩
      · have htaken := FixedWindow.take_taken config.windowMs config.max w knock.at_
        generalize FixedWindow.take config.windowMs config.max w knock.at_ = r at htaken
        cases htaken with
        | opens _ => simp
        | refused v _ _ _ => simp
        | counted v _ _ _ => simp
      · exact hafter last (fun k hk => hall k (List.mem_cons_of_mem _ hk)) (hall knock List.mem_cons_self)
    · have hnext : Tracks config (answer config windows knock).1 key w knock.at_ := by
        unfold answer
        by_cases htakes : knock.takes = true
        · rw [if_pos htakes]
          exact hthen.take_other fun hkey => hours ⟨hkey.symm, htakes⟩
        · rw [if_neg htakes]
          exact hthen.retry knock.key
      obtain ⟨hdecided, hgranted, hafter⟩ := ih hnext hrest hfirst
      have hother : ∀ may, (answer config windows knock).2 = .allowed may → knock.key ≠ key := by
        intro may hmay hkey
        unfold answer at hmay
        by_cases htakes : knock.takes = true
        · exact hours ⟨hkey, htakes⟩
        · rw [if_neg htakes] at hmay
          cases hmay
      rw [if_neg hours, List.nil_append]
      refine ⟨?_, ?_, fun last hall _ => ?_⟩
      · rw [← hdecided]
        cases hanswer : (answer config windows knock).2 with
        | allowed may =>
          dsimp only
          rw [if_neg (hother may hanswer), List.nil_append]
        | seconds n => rw [List.nil_append]
      · rw [← hgranted, if_neg fun hboth => hother true hboth.2 hboth.1, List.nil_append]
      · exact hafter last (fun k hk => hall k (List.mem_cons_of_mem _ hk)) (hall knock List.mem_cons_self)

end Run

section Limited

variable (config : KnockLimitConfig) {windows : Windows} {key : String} {now : ℕ}

theorem current_subset (windows : Windows) (key : String) (now : ℕ) :
    (current config windows key now).1.Sublist windows := by
  unfold current
  split
  · exact List.Sublist.refl _
  · split
    · exact List.filter_sublist
    · exact List.Sublist.refl _

theorem current_live (windows : Windows) (key : String) (now : ℕ) :
    ∀ window, (current config windows key now).2 = some window → expired config now window = false := by
  intro window h
  unfold current at h
  split at h
  · cases h
  · split at h
    · cases h
    · rename_i hlive
      obtain rfl := Option.some.inj h
      simpa using hlive

/-- The sweep keeps the map small, but for callers that all knocked within the window. -/
theorem take_small (windows : Windows) (key : String) (now : ℕ) :
    (take config windows key now).1.length ≤ 10001 ∨
      ∀ e ∈ (take config windows key now).1, expired config now e.2 = false := by
  have hsub := current_subset config (swept config windows now) key now
  have hswept : (swept config windows now).length ≤ 10000 ∨
      ∀ e ∈ swept config windows now, expired config now e.2 = false := by
    unfold swept
    split
    · exact .inr fun e he => by simpa using (List.mem_filter.mp he).2
    · exact .inl (not_lt.mp ‹_›)
  have hlive := current_live config (swept config windows now) key now
  unfold take
  generalize current config (swept config windows now) key now = r at hsub hlive
  obtain ⟨rest, found⟩ := r
  dsimp only at hsub hlive ⊢
  cases found with
  | none =>
    refine hswept.imp (fun hlength => ?_) fun hall e he => ?_
    · have hle := hsub.length_le
      dsimp only
      rw [List.length_append, List.length_singleton]
      omega
    · obtain he | he := List.mem_append.mp he
      · exact hall e (hsub.subset he)
      · obtain rfl := List.mem_singleton.mp he
        have hpos := config.windowMs_pos
        simp only [expired, decide_eq_false_iff_not]
        omega
  | some window =>
    dsimp only
    split
    · exact hswept.imp (fun hlength => (hsub.length_le.trans hlength).trans (Nat.le_succ _))
        fun hall e he => hall e (hsub.subset he)
    · refine hswept.imp (fun hlength => ?_) fun hall e he => ?_
      · have hle := hsub.length_le
        rw [setWindow, List.length_map]
        omega
      · obtain ⟨e', he', rfl⟩ := List.mem_map.mp he
        split
        · exact hlive window rfl
        · exact hall e' (hsub.subset he')

variable {config}

/-- A full window, as a refusal leaves it. -/
structure Full (config : KnockLimitConfig) (windows : Windows) (key : String) (now : ℕ) (v : Window) : Prop where
  found : windows.lookup key = some v
  lasts : now < v.startedAt + config.windowMs
  full : config.max ≤ v.count

theorem refused_full (h : (windows.map Prod.fst).Nodup) (hrefused : (take config windows key now).2 = false) :
    ∃ v, Full config (take config windows key now).1 key now v := by
  have hswept := (swept_same config h now).nodup
  obtain ⟨-, -, hlookup⟩ := current_same config hswept key now
  have hlive := current_live config (swept config windows now) key now
  unfold take at hrefused ⊢
  generalize current config (swept config windows now) key now = r at hrefused hlookup hlive ⊢
  obtain ⟨rest, found⟩ := r
  cases found with
  | none => cases hrefused
  | some window =>
    dsimp only at hrefused hlookup hlive ⊢
    split at hrefused
    · rename_i hfull
      rw [if_pos hfull]
      exact ⟨window, hlookup, by simpa [expired] using hlive window rfl, hfull⟩
    · cases hrefused

theorem Full.retry {v : Window} (h : Full config windows key now v) :
    retryAfterSeconds config windows key now =
      (windows, Nat.max 1 ((v.startedAt + config.windowMs - now + 999) / 1000)) := by
  have hlasts : expired config now v = false := by
    simp only [expired, decide_eq_false_iff_not, not_le]
    exact h.lasts
  rw [retryAfterSeconds, current, h.found]
  dsimp only
  rw [hlasts, if_neg Bool.false_ne_true]

theorem Full.again {v : Window} (h : Full config windows key now v) (hnodup : (windows.map Prod.fst).Nodup)
    (later : ℕ) : (take config windows key later).2 = decide (v.startedAt + config.windowMs ≤ later) := by
  rw [(take_same config hnodup key later).2.1, h.found]
  have htaken := FixedWindow.take_taken config.windowMs config.max (some v) later
  generalize FixedWindow.take config.windowMs config.max (some v) later = r at htaken
  cases htaken with
  | opens hover => exact (decide_eq_true (hover v rfl)).symm
  | refused u hu hlive _ =>
    obtain rfl := Option.some.inj hu
    exact (decide_eq_false (not_le.mpr hlive)).symm
  | counted u hu _ hroom =>
    obtain rfl := Option.some.inj hu
    exact absurd hroom (not_lt.mpr h.full)

/-- Who is refused may come again when he is told, and not a second before. -/
theorem told (h : (windows.map Prod.fst).Nodup) (hrefused : (take config windows key now).2 = false) :
    Told config windows key now := by
  have hnodup := (take_same config h key now).1
  obtain ⟨v, hfull⟩ := refused_full h hrefused
  have hlasts := hfull.lasts
  have hone : 1 ≤ (v.startedAt + config.windowMs - now + 999) / 1000 := by omega
  have hretry := hfull.retry
  rw [show Nat.max 1 _ = _ from max_eq_right hone] at hretry
  refine ⟨?_, fun later hlater => ?_, fun later _ hlater => ?_⟩
  · rw [hretry]
    exact hone
  · rw [hretry] at hlater ⊢
    dsimp only at hlater
    rw [hfull.again hnodup]
    apply decide_eq_true
    omega
  · rw [hretry] at hlater ⊢
    dsimp only at hlater
    rw [hfull.again hnodup]
    apply decide_eq_false
    omega

/-- Over a run whose clock does not go back, each caller has a counter of his own. -/
theorem knocks_limited (config : KnockLimitConfig) (knocks : List Knock)
    (hsorted : knocks.Pairwise fun a b => a.at_ ≤ b.at_) : Limited config knocks := by
  have hempty : ∀ key, Tracks config [] key none 0 := fun key => ⟨List.nodup_nil, rfl⟩
  have halone := fun key => answers_alone (hempty key) hsorted fun _ _ => Nat.zero_le _
  have htimes : ∀ key, (takesOf key knocks).Pairwise (· ≤ ·) := by
    intro key
    refine List.pairwise_filterMap.mpr (hsorted.imp fun {a b} hab t ht t' ht' => ?_)
    split at ht
    · split at ht'
      · obtain rfl := Option.some.inj ht
        obtain rfl := Option.some.inj ht'
        exact hab
      · cases ht'
    · cases ht
  refine ⟨fun key => (halone key).1, fun key a => ?_, fun key now hnow hrefused => ?_, fun key now hnow hrefused => ?_,
    fun key now => take_small config _ key now⟩
  · have hwindow : (FixedWindow.grants config.windowMs config.max none (takesOf key knocks)).countP
        (FixedWindow.inside config.windowMs a) ≤ 2 * config.max :=
      FixedWindow.grants_window config.windowMs_pos config.max_pos (htimes key) a
    rw [(halone key).2.1, List.countP_map]
    exact hwindow
  · have htracks := (halone key).2.2 now hnow (Nat.zero_le _)
    rw [htracks.take.1] at hrefused
    have hfull := FixedWindow.refused_full config.windowMs_pos (htimes key) hrefused
    rw [(halone key).2.1, List.countP_map]
    exact hfull
  · exact told ((halone key).2.2 now hnow (Nat.zero_le _)).nodup hrefused

/-- Of three knocks within the second the third is refused, and another caller is not. -/
theorem knocks_limited_two :
    Limited ⟨1000, 2, by decide, by decide⟩
        [⟨"a", 0, true⟩, ⟨"a", 1, true⟩, ⟨"b", 1, true⟩, ⟨"a", 2, true⟩, ⟨"a", 2, false⟩, ⟨"a", 1002, true⟩] ∧
      decidedOf "a" (answers ⟨1000, 2, by decide, by decide⟩ []
        [⟨"a", 0, true⟩, ⟨"a", 1, true⟩, ⟨"b", 1, true⟩, ⟨"a", 2, true⟩, ⟨"a", 2, false⟩, ⟨"a", 1002, true⟩]) =
          [true, true, false, true] :=
  ⟨knocks_limited _ _ (by simp), by decide⟩

end Limited

end OpenMigrate.KnockLimit
