import Mathlib.Algebra.Order.BigOperators.Group.List
import Mathlib.Algebra.Order.Ring.Nat
import OpenMigrate.Jmap.Mailboxes

namespace OpenMigrate.Jmap

open Async Prog

variable {lower : String → String}

section Tree

/-- The chain of parents above a mailbox spells a path, from its last name up. -/
def Spells (lower : String → String) (boxes : List Mailbox) : List String → Option String → Prop
  | [], place => place = none
  | name :: above, place =>
    ∃ m ∈ boxes, place = some m.id ∧ lower m.name = lower name ∧ Spells lower boxes above m.parentId

variable {boxes boxes' : List Mailbox} {account : Account lower} {path path' : List String} {place place' : Option String}

theorem Spells.mono (h : Spells lower boxes path place) (hsub : boxes ⊆ boxes') : Spells lower boxes' path place := by
  induction path generalizing place with
  | nil => exact h
  | cons name above ih =>
    obtain ⟨m, hm, hplace, hname, habove⟩ := h
    exact ⟨m, hsub hm, hplace, hname, ih habove⟩

theorem Spells.congr (h : Spells lower boxes path place) (hpath : path.map lower = path'.map lower) :
    Spells lower boxes path' place := by
  induction path generalizing path' place with
  | nil =>
    obtain rfl := List.map_eq_nil_iff.mp hpath.symm
    exact h
  | cons name above ih =>
    cases path' with
    | nil => cases hpath
    | cons name' above' =>
      obtain ⟨hname, habove⟩ := List.cons.inj hpath
      obtain ⟨m, hm, hplace, hmname, hmabove⟩ := h
      exact ⟨m, hm, hplace, hmname.trans hname, ih hmabove habove⟩

theorem Spells.unique (h : Spells lower account.boxes path place) (h' : Spells lower account.boxes path' place')
    (hpath : path.map lower = path'.map lower) : place = place' := by
  induction path generalizing path' place place' with
  | nil =>
    obtain rfl := List.map_eq_nil_iff.mp hpath.symm
    exact Eq.trans h (Eq.symm h')
  | cons name above ih =>
    cases path' with
    | nil => cases hpath
    | cons name' above' =>
      obtain ⟨hname, habove⟩ := List.cons.inj hpath
      obtain ⟨m, hm, rfl, hmname, hmabove⟩ := h
      obtain ⟨n, hn, rfl, hnname, hnabove⟩ := h'
      have hparent := ih hmabove hnabove habove
      rw [account.siblings m hm n hn hparent (hmname.trans (hname.trans hnname.symm))]

theorem Spells.determined (h : Spells lower account.boxes path place) (h' : Spells lower account.boxes path' place) :
    path.map lower = path'.map lower := by
  induction path generalizing path' place with
  | nil =>
    cases path' with
    | nil => rfl
    | cons name' above' =>
      obtain ⟨n, -, hplace, -⟩ := h'
      cases hplace.symm.trans h
  | cons name above ih =>
    obtain ⟨m, hm, rfl, hmname, hmabove⟩ := h
    cases path' with
    | nil => cases h'
    | cons name' above' =>
      obtain ⟨n, hn, hplace, hnname, hnabove⟩ := h'
      obtain rfl := account.ids m hm n hn (Option.some.inj hplace)
      rw [List.map_cons, List.map_cons, ih hmabove hnabove, hmname.symm.trans hnname]

theorem Spells.above (below : List String) (h : Spells lower boxes (below ++ path) place) :
    ∃ place', Spells lower boxes path place' := by
  induction below generalizing place with
  | nil => exact ⟨place, h⟩
  | cons name below ih =>
    obtain ⟨m, -, -, -, habove⟩ := h
    exact ih habove

end Tree

/-- A mailbox of the wanted name is under the wanted parent. -/
def At (boxes : List Mailbox) (wanted : Wanted) (lower : String → String) (id : String) : Prop :=
  ∃ m ∈ boxes, m.id = id ∧ m.parentId = wanted.parentId ∧ lower m.name = lower wanted.name

theorem At.mono {boxes boxes' : List Mailbox} {wanted : Wanted} {id : String} (h : At boxes wanted lower id)
    (hsub : boxes ⊆ boxes') : At boxes' wanted lower id := by
  obtain ⟨m, hm, hrest⟩ := h
  exact ⟨m, hsub hm, hrest⟩

section Match

variable {mailboxes : List Mailbox} {name : String} {parentId : Option String} {m : Mailbox}

theorem matchRole_none (mailboxes : List Mailbox) : matchRole lower mailboxes none = none := rfl

theorem matchChild_some (h : matchChild lower mailboxes name parentId none = some m) :
    m ∈ mailboxes ∧ m.parentId = parentId ∧ lower m.name = lower name := by
  have hmem := List.mem_of_find?_eq_some h
  have hm := List.find?_some h
  simp only [Option.isSome_none, Bool.and_false, Bool.false_and, Bool.not_false, Bool.and_true, Bool.and_eq_true,
    beq_iff_eq] at hm
  exact ⟨hmem, hm⟩

theorem matchChild_isSome (hm : m ∈ mailboxes) (hparent : m.parentId = parentId) (hname : lower m.name = lower name) :
    ∃ n, matchChild lower mailboxes name parentId none = some n := by
  apply Option.isSome_iff_exists.mp
  rw [matchChild, List.find?_isSome]
  exact ⟨m, hm, by simp [hparent, hname]⟩

end Match

section Server

variable {S : JmapServer} {wanted : Wanted}

theorem takes_iff (hrole : wanted.role = none) (m : Mailbox) :
    Mailbox.takes lower wanted m = true ↔ m.parentId = wanted.parentId ∧ lower m.name = lower wanted.name := by
  simp only [Mailbox.takes, hrole, Bool.or_eq_true, Bool.and_eq_true, beq_iff_eq]
  constructor
  · rintro (h | ⟨hsome, hnone⟩)
    · exact h
    · rw [hnone] at hsome
      cases hsome
  · exact .inl

theorem create_cases (S : JmapServer) (k : ℕ) (account : Account lower) (wanted : Wanted) :
    (∃ m ∈ account.boxes, Mailbox.takes lower wanted m = true ∧
      S.create k account wanted = ({ notCreated := [S.refusal k m] }, account)) ∨
    ((∀ m ∈ account.boxes, Mailbox.takes lower wanted m ≠ true) ∧ account.has wanted.parentId = true ∧
      (S.create k account wanted).1 = { created := some (S.freshId account.boxes) } ∧
      (S.create k account wanted).2.boxes =
        account.boxes ++ [⟨S.freshId account.boxes, wanted.name, wanted.parentId, wanted.role⟩]) ∨
    account.has wanted.parentId = false ∧
      S.create k account wanted = ({ notCreated := [⟨"invalidProperties", "parentId"⟩] }, account) := by
  unfold JmapServer.create
  split
  · rename_i m h
    exact .inl ⟨m, List.mem_of_find?_eq_some h, List.find?_some h, rfl⟩
  · rename_i h
    split
    · rename_i hparent
      exact .inr (.inl ⟨List.find?_eq_none.mp h, hparent, rfl, rfl⟩)
    · rename_i hparent
      exact .inr (.inr ⟨Bool.not_eq_true _ ▸ hparent, rfl⟩)

theorem create_grows (S : JmapServer) (k : ℕ) (account : Account lower) (wanted : Wanted) :
    account.boxes ⊆ (S.create k account wanted).2.boxes := by
  obtain ⟨m, -, -, hrefused⟩ | ⟨-, -, -, hadded⟩ | ⟨-, hmissing⟩ := create_cases S k account wanted
  · rw [hrefused]
    exact fun _ => id
  · rw [hadded]
    exact List.subset_append_left _ _
  · rw [hmissing]
    exact fun _ => id

end Server

section Writer

variable (S : JmapServer) {s t u : JmapWorld lower} {wanted : Wanted} {there there' : Lasting}

/-- While the writer works, other clients only add mailboxes. -/
def others (lower : String → String) : Rules (JmapWorld lower) MailboxCommand JmapTurn where
  assume _ _ _ := True
  rely s t := s.account.boxes ⊆ t.account.boxes ∧ t.mailboxes = s.mailboxes ∧ t.created = s.created ∧
    t.failures = s.failures
  guar _ _ _ := True
  refl _ := ⟨fun _ => id, rfl, rfl, rfl⟩
  trans h h' := ⟨fun _ hm => h'.1 (h.1 hm), h'.2.1.trans h.2.1, h'.2.2.1.trans h.2.2.1, h'.2.2.2.trans h.2.2.2⟩

def Cached (w : JmapWorld lower) : Prop :=
  ∀ mailboxes, w.mailboxes = some mailboxes → mailboxes ⊆ w.account.boxes

/-- Something that, once in the account, is there for good. -/
structure Lasting where
  holds : List Mailbox → Prop
  mono : ∀ {boxes boxes'}, boxes ⊆ boxes' → holds boxes → holds boxes'

def taken (lower : String → String) (wanted : Wanted) : Lasting where
  holds boxes := ∃ id, At boxes wanted lower id
  mono hsub := fun ⟨id, hid⟩ => ⟨id, hid.mono hsub⟩

def spelled (lower : String → String) (path : List String) : Lasting where
  holds boxes := ∃ place, Spells lower boxes path place
  mono hsub := fun ⟨place, hplace⟩ => ⟨place, hplace.mono hsub⟩

/-- What the writer's requests keep: nothing goes, and nothing is made where it was there. -/
structure Kept (there : Lasting) (s t : JmapWorld lower) : Prop where
  cached : Cached t
  grows : s.account.boxes ⊆ t.account.boxes
  failures : s.failures ≤ t.failures
  created : there.holds s.account.boxes → t.created = s.created

theorem Kept.refl (hs : Cached s) : Kept there s s := ⟨hs, fun _ => id, le_rfl, fun _ => rfl⟩

theorem Kept.trans (h : Kept there s t) (h' : Kept there t u) : Kept there s u where
  cached := h'.cached
  grows _ hm := h'.grows (h.grows hm)
  failures := h.failures.trans h'.failures
  created hs := (h'.created (there.mono h.grows hs)).trans (h.created hs)

theorem Kept.rely (hs : Cached s) (h : (others lower).rely s t) : Kept there s t where
  cached mailboxes hm _ hmem := h.1 (hs mailboxes (h.2.1 ▸ hm) hmem)
  grows := h.1
  failures := h.2.2.2.ge
  created _ := h.2.2.1

/-- An answer, or else a failure of one of the requests. -/
def Answers {α : Type} (there : Lasting) (good : α → JmapWorld lower → Prop) (s : JmapWorld lower) (r : Except String α)
    (t : JmapWorld lower) : Prop :=
  Kept there s t ∧ match r with
    | .ok a => good a t
    | .error _ => s.failures < t.failures

abbrev Does {α : Type} (p : MailboxProg α) (Q : Except String α → JmapWorld lower → Prop) (s : JmapWorld lower) : Prop :=
  wp (callSpec (jmapMachine S) (others lower)) p Q s

theorem Answers.from {α : Type} {good : α → JmapWorld lower → Prop} {r : Except String α} (hst : Kept there s t)
    (h : Answers there good t r u) : Answers there good s r u := by
  obtain ⟨hkept, hr⟩ := h
  refine ⟨hst.trans hkept, ?_⟩
  cases r with
  | ok a => exact hr
  | error e => exact hst.failures.trans_lt hr

variable {S}

theorem does_mono {α : Type} {p : MailboxProg α} {Q Q' : Except String α → JmapWorld lower → Prop}
    (h : ∀ r t, Q r t → Q' r t) (hp : Does S p Q s) : Does S p Q' s :=
  wp_mono (callSpec_mono _ _) p Q Q' h s hp

theorem does_bind {α β : Type} {p : MailboxProg α} {f : α → MailboxProg β} {good : α → JmapWorld lower → Prop}
    {good' : β → JmapWorld lower → Prop} (hp : Does S p (Answers there good s) s)
    (hf : ∀ a t, Kept there s t → good a t → Does S (f a) (Answers there good' t) t) :
    Does S (p.bind f) (Answers there good' s) s := by
  apply wp_seq
  apply does_mono _ hp
  rintro (e | a) t ⟨hkept, hr⟩
  · exact ⟨hkept, hr⟩
  · exact does_mono (fun _ _ h => Answers.from hkept h) (hf a t hkept hr)

theorem does_weaken {α : Type} {p : MailboxProg α} {good good' : α → JmapWorld lower → Prop}
    (h : ∀ a t, good a t → good' a t) (hp : Does S p (Answers there good s) s) : Does S p (Answers there good' s) s := by
  apply does_mono _ hp
  rintro (e | a) t ⟨hkept, hr⟩
  · exact ⟨hkept, hr⟩
  · exact ⟨hkept, h a t hr⟩

theorem cached_does (hs : Cached s) :
    Does S cachedMailboxes (Answers there (fun a t => a = t.mailboxes) s) s := by
  rw [Does, cachedMailboxes, wp_perform]
  intro t ht i _
  exact ⟨trivial, .rely hs ht, rfl⟩

theorem keep_does (hs : Cached s) {mailboxes : List Mailbox} (hm : mailboxes ⊆ s.account.boxes) :
    Does S (keepMailboxes mailboxes) (Answers there (fun _ _ => True) s) s := by
  rw [Does, keepMailboxes, wp_perform]
  intro t ht i _
  have hkept : Kept there s t := .rely hs ht
  refine ⟨trivial, ⟨?_, hkept.grows, hkept.failures, hkept.created⟩, trivial⟩
  intro kept hkeep m hmem
  obtain rfl := Option.some.inj hkeep
  exact hkept.grows (hm hmem)

theorem get_does (hs : Cached s) :
    Does S mailboxGet (Answers there (fun list t => s.account.boxes ⊆ list ∧ list ⊆ t.account.boxes) s) s := by
  rw [Does, mailboxGet, wp_perform]
  intro t ht i _
  have hkept : Kept there s t := .rely hs ht
  refine ⟨trivial, ?_⟩
  unfold jmapMachine mailboxExec
  dsimp only
  split
  · exact ⟨⟨hkept.cached, hkept.grows, hkept.failures.trans (Nat.le_succ _), hkept.created⟩,
      Nat.lt_succ_of_le hkept.failures⟩
  · exact ⟨hkept, hkept.grows, fun _ => id⟩

theorem read_does (hs : Cached s) :
    Does S readMailboxes (Answers there (fun list t => s.account.boxes ⊆ list ∧ list ⊆ t.account.boxes) s) s := by
  apply does_bind (get_does hs)
  rintro list t hkept ⟨hall, hlist⟩
  apply does_bind (keep_does hkept.cached hlist)
  intro _ u hkept' _
  exact ⟨.refl hkept'.cached, hall, fun _ hm => hkept'.grows (hlist hm)⟩

theorem all_does (hs : Cached s) :
    Does S (allMailboxes false) (Answers there (fun list t => list ⊆ t.account.boxes) s) s := by
  rw [allMailboxes, if_neg Bool.false_ne_true]
  apply does_bind (cached_does hs)
  rintro cached t hkept rfl
  cases hcached : t.mailboxes with
  | some mailboxes => exact ⟨.refl hkept.cached, hkept.cached mailboxes hcached⟩
  | none => exact does_weaken (fun _ _ h => h.2) (read_does hkept.cached)

theorem adopt_does (hs : Cached s) (hrole : wanted.role = none) (hat : ∃ id, At s.account.boxes wanted lower id) :
    Does S (adopt lower wanted) (Answers (taken lower wanted) (fun id t => At t.account.boxes wanted lower id) s) s := by
  obtain ⟨_, m, hm, -, hparent, hname⟩ := hat
  apply does_bind (read_does hs)
  rintro fresh t hkept ⟨hall, hfresh⟩
  obtain ⟨n, hn⟩ := matchChild_isSome (hall hm) hparent hname
  obtain ⟨hmem, hnparent, hnname⟩ := matchChild_some hn
  rw [hrole, matchRole_none, Option.none_or, hn]
  exact ⟨.refl hkept.cached, n, hfresh hmem, rfl, hnparent, hnname⟩

theorem remember_does (hs : Cached s) {id : String}
    (hm : ⟨id, wanted.name, wanted.parentId, wanted.role⟩ ∈ s.account.boxes) :
    Does S (remember id wanted) (Answers (taken lower wanted) (fun id t => At t.account.boxes wanted lower id) s) s := by
  have hat : ∀ {u : JmapWorld lower}, s.account.boxes ⊆ u.account.boxes → At u.account.boxes wanted lower id :=
    fun hsub => ⟨_, hsub hm, rfl, rfl, rfl⟩
  apply does_bind (cached_does hs)
  rintro cached t hkept rfl
  cases hcached : t.mailboxes with
  | none => exact ⟨.refl hkept.cached, hat hkept.grows⟩
  | some mailboxes =>
    have hsub : mailboxes ++ [⟨id, wanted.name, wanted.parentId, wanted.role⟩] ⊆ t.account.boxes := by
      intro m hmem
      obtain hmem | hmem := List.mem_append.mp hmem
      · exact hkept.cached mailboxes hcached hmem
      · rw [List.mem_singleton.mp hmem]
        exact hkept.grows hm
    apply does_bind (keep_does hkept.cached hsub)
    intro _ u hkept' _
    exact ⟨.refl hkept'.cached, hat fun _ h => hkept'.grows (hkept.grows h)⟩

theorem fail_kept (hkept : Kept there s t) : Kept there s t.fail :=
  ⟨hkept.cached, hkept.grows, hkept.failures.trans (Nat.le_succ _), hkept.created⟩

/-- Nothing is made at a place that is taken. -/
theorem create_kept (hkept : Kept (taken lower wanted) s t) (hrole : wanted.role = none) (k : ℕ) :
    Kept (taken lower wanted) s (t.create S k wanted) where
  cached mailboxes hm _ hmem := create_grows S k t.account wanted (hkept.cached mailboxes hm hmem)
  grows _ hm := create_grows S k t.account wanted (hkept.grows hm)
  failures := hkept.failures
  created hat := by
    obtain ⟨id, hid⟩ := hat
    obtain ⟨n, hn, -, hparent, hname⟩ := hid.mono hkept.grows
    have hnone : (S.create k t.account wanted).1.created = none := by
      obtain ⟨m, -, -, hrefused⟩ | ⟨hfree, -⟩ | ⟨-, hmissing⟩ := create_cases S k t.account wanted
      · rw [hrefused]
      · exact absurd ((takes_iff hrole n).mpr ⟨hparent, hname⟩) (hfree n hn)
      · rw [hmissing]
    change t.created ++ (S.create k t.account wanted).1.created.toList = s.created
    rw [hnone, Option.toList_none, List.append_nil]
    exact hkept.created ⟨id, hid⟩

theorem has_mono {account account' : Account lower} (hsub : account.boxes ⊆ account'.boxes) {parentId : Option String}
    (h : account.has parentId = true) : account'.has parentId = true := by
  cases parentId with
  | none => rfl
  | some id =>
    simp only [Account.has, Option.all_some, List.any_eq_true] at h ⊢
    obtain ⟨m, hm, hid⟩ := h
    exact ⟨m, hsub hm, hid⟩

theorem createMailbox_does (hs : Cached s) (hrole : wanted.role = none) (hhas : s.account.has wanted.parentId = true) :
    Does S (createMailbox lower wanted) (Answers (taken lower wanted) (fun id t => At t.account.boxes wanted lower id) s) s := by
  apply wp_seq
  rw [mailboxSet, wp_perform]
  intro t ht i _
  have hkept : Kept (taken lower wanted) s t := .rely hs ht
  have hmade := create_kept (S := S) hkept hrole i.refusal
  refine ⟨trivial, ?_⟩
  unfold jmapMachine mailboxExec
  dsimp only
  split
  · split
    · exact ⟨fail_kept hmade, Nat.lt_succ_of_le hmade.failures⟩
    · exact ⟨fail_kept hkept, Nat.lt_succ_of_le hkept.failures⟩
  · refine does_mono (fun _ _ h => Answers.from hmade h) ?_
    have hcreate : (t.create S i.refusal wanted).account = (S.create i.refusal t.account wanted).2 := rfl
    obtain ⟨m, hm, htakes, hrefused⟩ | ⟨-, -, hanswer, hadded⟩ | ⟨hmissing, -⟩ :=
      create_cases S i.refusal t.account wanted
    · obtain ⟨hparent, hname⟩ := (takes_iff hrole m).mp htakes
      have hat : At (t.create S i.refusal wanted).account.boxes wanted lower m.id := by
        rw [hcreate]
        exact ⟨m, create_grows S i.refusal t.account wanted hm, rfl, hparent, hname⟩
      simp only [hrefused, Option.filter_none, List.head?_cons, Option.bind_some, List.any_cons, List.any_nil,
        S.conflicts, Bool.true_or, if_true]
      cases hid : (S.refusal i.refusal m).existingId with
      | some id =>
        obtain rfl := S.honest _ _ _ hid
        exact ⟨.refl hmade.cached, hat⟩
      | none => exact adopt_does hmade.cached hrole ⟨_, hat⟩
    · have hfilter : (some (S.freshId t.account.boxes)).filter (fun id => decide (id ≠ "")) =
          some (S.freshId t.account.boxes) := by
        simp [Option.filter, S.nonempty]
      simp only [hanswer, hfilter]
      apply remember_does hmade.cached
      rw [hcreate, hadded]
      exact List.mem_append_right _ List.mem_cons_self
    · rw [has_mono hkept.grows hhas] at hmissing
      cases hmissing

theorem ensureOneLevel_does (hs : Cached s) (hrole : wanted.role = none)
    (hhas : s.account.has wanted.parentId = true) :
    Does S (ensureOneLevel lower wanted) (Answers (taken lower wanted) (fun id t => At t.account.boxes wanted lower id) s) s := by
  apply does_bind (all_does hs)
  intro mailboxes t hkept hsub
  rw [hrole, matchRole_none]
  dsimp only
  cases hmatch : matchChild lower mailboxes wanted.name wanted.parentId none with
  | some existing =>
    obtain ⟨hmem, hparent, hname⟩ := matchChild_some hmatch
    exact ⟨.refl hkept.cached, existing, hsub hmem, rfl, hparent, hname⟩
  | none => exact createMailbox_does hkept.cached hrole (has_mono hkept.grows hhas)

theorem Answers.where {α : Type} {good : α → JmapWorld lower → Prop} {r : Except String α}
    (hthere : there'.holds s.account.boxes → there.holds s.account.boxes) (h : Answers there good s r t) :
    Answers there' good s r t :=
  ⟨⟨h.1.cached, h.1.grows, h.1.failures, fun hs => h.1.created (hthere hs)⟩, h.2⟩

theorem spells_has {path : List String} {place : Option String} (h : Spells lower s.account.boxes path place) :
    s.account.has place = true := by
  cases path with
  | nil =>
    obtain rfl : place = none := h
    rfl
  | cons name above =>
    obtain ⟨m, hm, rfl, -⟩ := h
    simp only [Account.has, Option.all_some, List.any_eq_true]
    exact ⟨m, hm, beq_self_eq_true _⟩

theorem at_spells {boxes : List Mailbox} {above : List String} {name : String} {parentId : Option String} {id : String}
    (habove : Spells lower boxes above parentId) (h : At boxes ⟨name, parentId, none⟩ lower id) :
    Spells lower boxes (name :: above) (some id) := by
  obtain ⟨m, hm, rfl, hparent, hname⟩ := h
  exact ⟨m, hm, rfl, hname, hparent ▸ habove⟩

theorem spelled_taken {below above : List String} {name : String} {parentId : Option String}
    (habove : Spells lower s.account.boxes above parentId)
    (h : (spelled lower (below ++ name :: above)).holds s.account.boxes) :
    (taken lower ⟨name, parentId, none⟩).holds s.account.boxes := by
  obtain ⟨place, hplace⟩ := h
  obtain ⟨_, m, hm, rfl, hname, hmabove⟩ := hplace.above below
  exact ⟨m.id, m, hm, rfl, hmabove.unique habove rfl, hname⟩

theorem ensureLevels_does (hs : Cached s) {parentId : Option String} {above rest : List String} {id : String}
    (hspells : Spells lower s.account.boxes above parentId) (hid : rest = [] → parentId = some id) :
    Does S (ensureLevels lower none parentId rest id) (Answers (spelled lower (rest.reverse ++ above))
      (fun id t => Spells lower t.account.boxes (rest.reverse ++ above) (some id)) s) s := by
  induction rest generalizing s parentId above id with
  | nil =>
    rw [hid rfl] at hspells
    exact ⟨.refl hs, hspells⟩
  | cons name rest ih =>
    have hlevel : Does S (ensureOneLevel lower ⟨name, parentId, none⟩) (Answers (taken lower ⟨name, parentId, none⟩)
        (fun id t => At t.account.boxes ⟨name, parentId, none⟩ lower id) s) s :=
      ensureOneLevel_does hs rfl (spells_has hspells)
    have hpath : (name :: rest).reverse ++ above = rest.reverse ++ name :: above := by
      rw [List.reverse_cons, List.append_assoc, List.singleton_append]
    rw [hpath]
    unfold ensureLevels
    rw [ite_self]
    apply does_bind (does_mono (fun _ _ h => Answers.where (spelled_taken hspells) h) hlevel)
    intro id' t hkept hat
    exact ih hkept.cached (at_spells (hspells.mono hkept.grows) hat) fun _ => rfl

theorem targetSegments_ne {folder : MailFolder} {segments : List String} (h : targetSegments folder = .ok segments) :
    segments ≠ [] := by
  unfold targetSegments at h
  generalize pathSegments _ = found at h
  dsimp only at h
  by_cases hfound : found = []
  · rw [if_pos hfound] at h
    cases h
  · rw [if_neg hfound] at h
    obtain rfl := Except.ok.inj h
    exact hfound

theorem ensureMailbox_does {folder : MailFolder} (hnormal : SPECIAL_USE_ROLE_MAP folder.specialUse = none)
    (hs : Cached s) :
    Does S (ensureMailbox lower folder) (fun r t => Cached t ∧ s.account.boxes ⊆ t.account.boxes ∧
      ∀ segments, targetSegments folder = .ok segments → Answers (spelled lower segments.reverse)
        (fun id t => Spells lower t.account.boxes segments.reverse (some id)) s r t) s := by
  apply wp_seq
  rw [wp_ofExcept]
  cases hsegments : targetSegments folder with
  | error reason => exact ⟨hs, fun _ => id, nofun⟩
  | ok segments =>
    have hne := targetSegments_ne hsegments
    have hlevels : Does S (ensureLevels lower none none segments "") (Answers (spelled lower (segments.reverse ++ []))
        (fun id t => Spells lower t.account.boxes (segments.reverse ++ []) (some id)) s) s :=
      ensureLevels_does hs rfl fun h => absurd h hne
    rw [List.append_nil] at hlevels
    change Does S (ensureLevels lower (SPECIAL_USE_ROLE_MAP folder.specialUse) none segments "") _ s
    rw [hnormal]
    apply does_mono _ hlevels
    intro r t h
    refine ⟨h.1.cached, h.1.grows, ?_⟩
    intro segments' hsame
    obtain rfl := Except.ok.inj hsame
    exact h

end Writer

section Sequence

abbrev Ensured (lower : String → String) := Played (JmapWorld lower) String String MailFolder

/-- Calls of one writer, one after the other, over an account that other clients add mailboxes to. -/
def ensureAll (S : JmapServer) (account : Account lower) (folders : List MailFolder)
    (turns : List (List Wanted × JmapTurn)) : List (Ensured lower) :=
  playAll (jmapMachine S) (ensureMailbox lower) folders turns { account := account }

/-- A call's mailbox has the folder's path above it, and a call none of whose requests failed has a mailbox. -/
structure Placed (e : Ensured lower) : Prop where
  spells : ∀ segments id, targetSegments e.arg = .ok segments → e.result = .ok id →
    Spells lower e.after.account.boxes segments.reverse (some id)
  answers : ∀ segments, targetSegments e.arg = .ok segments → e.after.failures = e.before.failures →
    ∃ id, e.result = .ok id

/-- Of two calls, the later one finds the mailbox of the earlier one just when the paths are the same, and then it makes
none. -/
structure Agree (e e' : Ensured lower) : Prop where
  same : ∀ segments segments' id id', targetSegments e.arg = .ok segments → targetSegments e'.arg = .ok segments' →
    e.result = .ok id → e'.result = .ok id' → (id = id' ↔ segments.map lower = segments'.map lower)
  made : ∀ segments segments' id, targetSegments e.arg = .ok segments → targetSegments e'.arg = .ok segments' →
    e.result = .ok id → segments.map lower = segments'.map lower → e'.after.created = e'.before.created
  lasts : ∀ segments id, targetSegments e.arg = .ok segments → e.result = .ok id →
    Spells lower e'.after.account.boxes segments.reverse (some id)

variable {S : JmapServer} {account : Account lower} {folders : List MailFolder} {turns : List (List Wanted × JmapTurn)}

def Done (e : Ensured lower) : Prop :=
  e.before.account.boxes ⊆ e.after.account.boxes ∧ ∀ segments, targetSegments e.arg = .ok segments →
    Answers (spelled lower segments.reverse) (fun id t => Spells lower t.account.boxes segments.reverse (some id)) e.before
      e.result e.after

theorem Done.placed {e : Ensured lower} (h : Done e) : Placed e := by
  constructor
  · intro segments id hsegments hresult
    have hanswer := (h.2 segments hsegments).2
    rw [hresult] at hanswer
    exact hanswer
  · intro segments hsegments hfailures
    have hanswer := (h.2 segments hsegments).2
    cases hresult : e.result with
    | ok id => exact ⟨id, rfl⟩
    | error reason =>
      rw [hresult] at hanswer
      exact absurd hfailures hanswer.ne'

theorem Done.agree {e e' : Ensured lower} (h : Done e) (h' : Done e')
    (hle : e.after.account.boxes ⊆ e'.before.account.boxes) : Agree e e' := by
  have hbefore : ∀ segments id, targetSegments e.arg = .ok segments → e.result = .ok id →
      Spells lower e'.before.account.boxes segments.reverse (some id) := fun segments id hsegments hresult =>
    (h.placed.spells segments id hsegments hresult).mono hle
  have hlasts : ∀ segments id, targetSegments e.arg = .ok segments → e.result = .ok id →
      Spells lower e'.after.account.boxes segments.reverse (some id) := fun segments id hsegments hresult =>
    (hbefore segments id hsegments hresult).mono h'.1
  refine ⟨?_, ?_, hlasts⟩
  · intro segments segments' id id' hsegments hsegments' hresult hresult'
    have hspells := hlasts segments id hsegments hresult
    have hspells' := h'.placed.spells segments' id' hsegments' hresult'
    constructor
    · rintro rfl
      have hreverse := hspells.determined hspells'
      rw [List.map_reverse, List.map_reverse] at hreverse
      exact List.reverse_inj.mp hreverse
    · intro hpath
      apply Option.some.inj
      apply hspells.unique hspells'
      rw [List.map_reverse, List.map_reverse, hpath]
  · intro segments segments' id hsegments hsegments' hresult hpath
    apply (h'.2 segments' hsegments').1.created
    refine ⟨some id, (hbefore segments id hsegments hresult).congr ?_⟩
    rw [List.map_reverse, List.map_reverse, hpath]

/-- Over any account and any sequence of folders without a role, whatever other clients add meanwhile and whichever
requests fail. -/
theorem mailboxes_apart (hnormal : ∀ folder ∈ folders, SPECIAL_USE_ROLE_MAP folder.specialUse = none) :
    (∀ e ∈ ensureAll S account folders turns, Placed e) ∧ (ensureAll S account folders turns).Pairwise Agree := by
  have hf : ∀ folder ∈ folders, ∀ s : JmapWorld lower, Cached s → Does S (ensureMailbox lower folder) _ s :=
    fun folder hfolder s hs => ensureMailbox_does (hnormal folder hfolder) hs
  have hstart : Cached ({ account := account } : JmapWorld lower) := nofun
  have hact : ∀ wanted (s : JmapWorld lower), (others lower).rely s ((jmapMachine S).act wanted s) :=
    fun wanted s => ⟨create_grows S 0 s.account wanted, rfl, rfl, rfl⟩
  obtain ⟨hall, hpairs⟩ := playAll_keeps (L := fun s t => s.account.boxes ⊆ t.account.boxes) hact (fun _ _ _ => trivial)
    (fun s _ => id) (fun s t u h h' => List.Subset.trans h h') hf turns hstart
  have hdone : ∀ e ∈ ensureAll S account folders turns, Done e := fun e he => (hall e he).2.2
  constructor
  · exact fun e he => (hdone e he).placed
  · apply hpairs.imp_of_mem
    intro e e' he he' hle
    exact (hdone e he).agree (hdone e' he') hle

end Sequence

namespace Sample

def lowercase (s : String) : String := String.ofList (s.toList.map Char.toLower)

/-- A server whose ids are longer than any it has given. -/
def server : JmapServer where
  freshId boxes := String.ofList (List.replicate ((boxes.map fun m => m.id.length).sum + 1) 'm')
  refusal _ _ := ⟨"invalidProperties", "A mailbox with this name already exists."⟩
  fresh boxes m hm heq := by
    have hle := List.single_le_sum (l := boxes.map fun m => m.id.length) (by simp) _ (List.mem_map_of_mem hm)
    have hlength := congrArg String.length heq
    simp only [String.length_ofList, List.length_replicate] at hlength
    omega
  nonempty boxes h := by
    have hlength := congrArg String.length h
    simp at hlength
  conflicts _ _ := rfl
  honest k m id h := by
    simp [SetError.existingId] at h

def account : Account lowercase where
  boxes := [⟨"i", "Inbox", none, some "inbox"⟩, ⟨"p", "Projects", none, none⟩]
  ids := by decide +kernel
  siblings := by decide +kernel

def folders : List MailFolder := [{ path := "projects/A" }, { path := "Projects / B" }, { path := "projects/A" }]

def turn (others : List Wanted) : List Wanted × JmapTurn := (others, { lost := false })

/-- Another client makes the second folder's mailbox between the writer's read and its request. -/
def turns : List (List Wanted × JmapTurn) :=
  List.replicate 8 (turn []) ++ [turn [⟨"b", some "p", none⟩]] ++ List.replicate 12 (turn [])

end Sample

theorem conflict_is_adopted :
    (ensureAll Sample.server Sample.account Sample.folders Sample.turns).map (fun e => (e.result.toOption, e.after.created)) =
        [(some "mmm", ["mmm"]), (some "mmmmmm", ["mmm"]), (some "mmm", ["mmm"])] ∧
      (∀ e ∈ ensureAll Sample.server Sample.account Sample.folders Sample.turns, Placed e) ∧
      (ensureAll Sample.server Sample.account Sample.folders Sample.turns).Pairwise Agree :=
  ⟨by decide +kernel, mailboxes_apart (by decide)⟩

end OpenMigrate.Jmap
