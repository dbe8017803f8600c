import OpenMigrate.Async.Monitor
import OpenMigrate.Dav.DavApply
import OpenMigrate.Sync.Effect

namespace OpenMigrate.Dav

open Async Prog

variable {e : Endpoint} {α : Type}

/-- The operations on a copy whose version the ledger holds: the rewrites of the three writers, and the
removals. -/
inductive Handling where
  | rewriteObject (K : ObjectKind) (scope : Scope) (collectionId : String) (body : List Char)
    (options : UpsertOptions)
  | rewriteFile (cfg : WebDAVTargetConfig) (sha256Hex : String → String) (fileContentHash : List Char → String)
    (scope : Scope) (raw : RawFileItem) (options : UpsertOptions)
  | removeObject (targetId : String)
  | removeFile (cfg : WebDAVTargetConfig) (targetId : String)

def Handling.program (e : Endpoint) (expected : String) : Handling → DavTask e Unit
  | .rewriteObject K scope collectionId body options =>
    (upsertObject K scope collectionId body
      { options with overwrite := true, expectedTargetVersion := some expected }).bind fun _ => .ret ()
  | .rewriteFile cfg sha256Hex fileContentHash scope raw options =>
    (upsertFile cfg sha256Hex fileContentHash scope raw
      { options with overwrite := true, expectedTargetVersion := some expected }).bind fun _ => .ret ()
  | .removeObject targetId => (Dav.removeObject targetId (some expected)).bind fun _ => .ret ()
  | .removeFile cfg targetId => (Dav.removeFile cfg targetId (some expected)).bind fun _ => .ret ()

abbrev DavEvent (e : Endpoint) := Event (World (api e)) (Cmd (api e)) (Input (api e)) (api e).Act

def Request.replaces : Request → Option String
  | .put path _ _ => some path
  | .putRange path _ _ _ => some path
  | .delete path => some path
  | _ => none

def Delivery.applied : Delivery → Bool
  | .served => true
  | .refused _ applied => applied
  | .lost applied => applied

def resourceAt (w : World (api e)) (path : String) : Option Resource :=
  (Server.resources w.1.target).lookup (urlPath path)

/-- A PUT or a DELETE at the path that takes effect. -/
def ActsOn (path : String) : DavEvent e → Prop
  | .exec _ (.target r) i _ => Request.replaces r = some path ∧ (Weather.delivery i.target).applied
  | _ => False

/-- A read of the version that is answered with one, or with word that there is none. -/
def ReadsVersion (path : String) : DavEvent e → Prop
  | .exec _ (.target r) i _ =>
    r = Request.head path ∧ Weather.delivery i.target = .served ∧ Weather.sendsEtag i.target
  | _ => False

def EditsAt (path : String) : DavEvent e → Prop
  | .act (OwnerAct.put p _) _ => p = urlPath path
  | _ => False

/-- Every PUT and DELETE that takes effect comes after an answered read of the version, with no edit of the
owner's in between. -/
def Attended (trace : List (DavEvent e)) : Prop :=
  ∀ before ev after path, trace = before ++ ev :: after → ActsOn path ev →
    ∃ earlier read since, before = earlier ++ read :: since ∧ ReadsVersion path read ∧
      ∀ ev' ∈ since, ¬ EditsAt path ev'

/-- A version that the ledger expects, or that the operation's own requests have left. -/
def Own (e : Endpoint) (expected : String) (start : ℕ) (r : Resource) : Prop :=
  e.etags.tag r.version = expected ∨ r.author = .migration ∧ start ≤ r.version

def Spares (expected : String) (start : ℕ) (ev : DavEvent e) : Prop :=
  ∀ path r, ActsOn path ev → resourceAt ev.pre path = some r → ¬ Own e expected start r →
    resourceAt ((machine (api e)).post ev) path = some r

section Server

variable {expected path : String} {start : ℕ} {s : Server}

theorem deliver_server (w : Weather) (x : Server × Response) :
    (Endpoint.deliver w s x).2 = s ∨ (Endpoint.deliver w s x).2 = x.1 := by
  unfold Endpoint.deliver
  split
  · exact .inr rfl
  · split
    · exact .inr rfl
    · exact .inl rfl
  · split
    · exact .inr rfl
    · exact .inl rfl

theorem stored_server (w : Weather) (q : String) (body : List Char) :
    (e.stored w s q body).1 = s ∨ (e.stored w s q body).1 = s.write .migration (urlPath q) body := by
  unfold Endpoint.stored
  split
  · exact .inl rfl
  · exact .inr rfl

theorem put_server (w : Weather) (q : String) (body : List Char) (ifNoneMatch : Bool) :
    (e.put w s q body ifNoneMatch).1 = s ∨
      (e.put w s q body ifNoneMatch).1 = s.write .migration (urlPath q) body := by
  unfold Endpoint.put
  split
  · exact .inl rfl
  · exact stored_server w q body

theorem delete_server (q : String) :
    (Endpoint.delete s q).1 = s ∨ (Endpoint.delete s q).1 = s.erase (urlPath q) := by
  unfold Endpoint.delete
  split
  · exact .inr rfl
  · exact .inl rfl

/-- All that a request does to the server: nothing, or it writes one resource, or it takes one away. -/
theorem exec_server (w : Weather) (m : Memory) (r : Request) :
    (e.exec w (s, m) r).2.1 = s ∨ (∃ q body, (e.exec w (s, m) r).2.1 = s.write .migration q body) ∨
      ∃ q, (e.exec w (s, m) r).2.1 = s.erase q := by
  cases r with
  | head q => exact .inl ((deliver_server w _).elim id id)
  | put q body ifNoneMatch =>
    obtain h | h := deliver_server (s := s) w (e.put w s q body ifNoneMatch)
    · exact .inl h
    · obtain hs | hs := put_server (e := e) (s := s) w q body ifNoneMatch
      · exact .inl (h.trans hs)
      · exact .inr (.inl ⟨_, _, h.trans hs⟩)
  | putRange q first total chunk =>
    obtain h | h := deliver_server (s := s) w (e.putRange w s q first chunk)
    · exact .inl h
    · obtain hs | hs := stored_server (e := e) (s := s) w q ((Endpoint.held s q).take first ++ chunk)
      · exact .inl (h.trans hs)
      · exact .inr (.inl ⟨_, _, h.trans hs⟩)
  | delete q =>
    obtain h | h := deliver_server (s := s) w (Endpoint.delete s q)
    · exact .inl h
    · obtain hs | hs := delete_server (s := s) q
      · exact .inl (h.trans hs)
      · exact .inr (.inr ⟨_, h.trans hs⟩)
  | _ => exact .inl rfl

theorem exec_nextVersion (w : Weather) (m : Memory) (r : Request) :
    s.nextVersion ≤ (e.exec w (s, m) r).2.1.nextVersion := by
  obtain h | ⟨q, body, h⟩ | ⟨q, h⟩ := exec_server (e := e) (s := s) w m r <;> rw [h]
  · exact Nat.le_succ _
  · exact Nat.le_refl _

/-- What is at the path is no version of the owner's. -/
def Safe (e : Endpoint) (expected : String) (start : ℕ) (path : String) (s : Server) : Prop :=
  ∀ r, s.resources.lookup path = some r → Own e expected start r

theorem Safe.erase (h : Safe e expected start path s) (q : String) : Safe e expected start path (s.erase q) := by
  intro r hr
  by_cases hq : path = q
  · subst hq
    simp [Server.erase, AList.lookup_erase] at hr
  · rw [Server.erase, AList.lookup_erase_ne hq] at hr
    exact h r hr

theorem Safe.act (h : Safe e expected start path s) {a : OwnerAct} (ha : ∀ body, a ≠ .put path body) :
    Safe e expected start path (s.act a) := by
  cases a with
  | remove q => exact h.erase q
  | put q body =>
    have hq : path ≠ q := by
      rintro rfl
      exact ha body rfl
    intro r hr
    rw [Server.act, Server.write, AList.lookup_insert_ne hq] at hr
    exact h r hr

theorem Safe.exec (h : Safe e expected start path s) (hstart : start ≤ s.nextVersion) (w : Weather) (m : Memory)
    (r : Request) : Safe e expected start path (e.exec w (s, m) r).2.1 := by
  obtain hs | ⟨q, body, hs⟩ | ⟨q, hs⟩ := exec_server (e := e) (s := s) w m r <;> rw [hs]
  · exact h
  · intro r hr
    by_cases hq : path = q
    · subst hq
      simp only [Server.write, AList.lookup_insert, Option.some.injEq] at hr
      subst hr
      exact .inr ⟨rfl, hstart⟩
    · rw [Server.write, AList.lookup_insert_ne hq] at hr
      exact h r hr
  · exact h.erase q

end Server

/-- An answer that names another version than the ledger's. -/
def TellsOther (expected : String) : (c : Cmd (api e)) → Except PassError c.Resp → Prop
  | .target (Request.head _), .ok response =>
    succeeded response ∧ ∃ tag, readEtag response = some tag ∧ tag ≠ expected
  | _, _ => False

/-- Once the version has turned out to be another, nothing is replaced any more. -/
def heedful (e : Endpoint) (expected : String) : Monitor Prop (Cmd (api e)) Cmd.Resp PassError where
  allows told c := told → ∀ r : Request, c = .target r → r.replaces = none
  next told c r := told ∨ TellsOther expected c r

section Heeds

variable {expected : String} {told : Prop}

def unread (e : Endpoint) : Vocabulary (Cmd (api e)) Cmd.Resp PassError where
  asks
    | .target (Request.head _) => False
    | _ => True
  hears _ _ := True

theorem unread_request {r : Request} (hr : ∀ path, r ≠ .head path) :
    Emits (unread e) (request r : DavTask e r.Resp) (fun _ => True) := by
  refine (Emits.perform _ _).mpr ⟨?_, fun _ _ => trivial⟩
  cases r with
  | head path => exact absurd rfl (hr path)
  | _ => trivial

theorem heedful_of_unread {p : DavTask e α} (h : Emits (unread e) p (fun _ => True)) (htold : ¬ told) :
    wp (heedful e expected).spec p (fun _ told => ¬ told) told := by
  refine wp_mono (Monitor.spec_mono _) p _ _ (fun _ _ h => h.2) told
    (Monitor.wp_of_emits (P := fun told : Prop => ¬ told) (fun _ _ => trivial) ?_ h htold)
  intro g c hc hg
  refine ⟨fun hg' => absurd hg' hg, fun r => ?_⟩
  rintro (hg' | htells)
  · exact hg hg'
  · unfold TellsOther at htells
    split at htells
    · exact hc
    · exact htells

theorem retrying_heeds (path : String) (n : ℕ) (htold : ¬ told) :
    wp (heedful e expected).spec (retrying (request (.head path)) n)
      (fun r told => told → ∃ response, r = .ok response ∧ succeeded response ∧
        ∃ tag, readEtag response = some tag ∧ tag ≠ expected) told := by
  induction n generalizing told with
  | zero =>
    refine (wp_perform _ _ _ _).mpr ⟨fun h => absurd h htold, fun r => ?_⟩
    rintro (h | htells)
    · exact absurd h htold
    · cases r with
      | error err => exact htells.elim
      | ok response => exact ⟨response, rfl, htells⟩
  | succ n ih =>
    refine wp_seq ((wp_perform _ _ _ _).mpr ⟨fun h => absurd h htold, fun r => ?_⟩)
    cases r with
    | error err =>
      rintro (h | htells)
      · exact absurd h htold
      · exact htells.elim
    | ok response =>
      simp only [andThen]
      split
      · rename_i hbusy
        refine ih ?_
        rintro (h | htells)
        · exact htold h
        · have hok := htells.1
          simp only [succeeded, isTransientDavStatus, Bool.and_eq_true, Bool.or_eq_true, decide_eq_true_eq,
            beq_iff_eq] at hok hbusy
          omega
      · rintro (h | htells)
        · exact absurd h htold
        · exact ⟨response, rfl, htells⟩

theorem checkOwnership_heeds {path : String} {changed : α} {proceed : DavTask e α}
    (hproceed : Emits (unread e) proceed (fun _ => True)) (htold : ¬ told) :
    wp (heedful e expected).spec (checkOwnership path (some expected) (.ret changed) proceed)
      (fun r told => told → r = .ok changed) told := by
  have hgo : ∀ told : Prop, ¬ told → wp (heedful e expected).spec proceed (fun r told => told → r = .ok changed) told :=
    fun told htold => wp_mono (Monitor.spec_mono _) proceed _ _ (fun _ _ h h' => absurd h' h) told
      (heedful_of_unread hproceed htold)
  refine wp_seq (wp_seq (wp_mono (Monitor.spec_mono _) _ _ _ ?_ told (retrying_heeds path _ htold)))
  intro r told' hr
  cases r with
  | error err =>
    intro h
    obtain ⟨response, hresponse, -⟩ := hr h
    cases hresponse
  | ok response =>
    simp only [andThen, wp_ret]
    split
    · exact fun _ => rfl
    · rename_i hours
      refine hgo told' fun h => ?_
      obtain ⟨response', hresponse, hok, tag, htag, hne⟩ := hr h
      cases hresponse
      rw [if_pos hok, htag] at hours
      simp [ownershipOf, hne.symm] at hours

theorem putWhole_unread (path : String) (body : List Char) (overwrite : Bool) (refusal : String) :
    Emits (unread e) (putWhole path body overwrite refusal : DavTask e Written) (fun _ => True) :=
  putWhole_asks (unread_request (by simp))

theorem afterUpload_heeds {written : Written} {note : DavTask e UpsertResult} {conflict : UpsertResult}
    (hnote : Emits (unread e) note (fun _ => True)) (htold : told → written.conflicted = true) :
    wp (heedful e expected).spec (if written.conflicted then .ret conflict else note) (fun _ _ => True) told := by
  split
  · trivial
  · rename_i hclear
    exact wp_mono (Monitor.spec_mono _) _ _ _ (fun _ _ _ => trivial) told
      (heedful_of_unread hnote fun h => hclear (htold h))

theorem rewriteObject_heeds (K : ObjectKind) (id : String) (body : List Char) (uid : String) (options : UpsertOptions)
    (hexpected : options.expectedTargetVersion = some expected) (htold : ¬ told) :
    wp (heedful e expected).spec (rewriteObject K id body uid options) (fun _ _ => True) told := by
  unfold rewriteObject uploadObject
  rw [hexpected]
  refine wp_seq (wp_mono (Monitor.spec_mono _) _ _ _ ?_ told
    (checkOwnership_heeds (putWhole_unread _ _ _ _) htold))
  intro r told' hr
  cases r with
  | error err => trivial
  | ok written =>
    refine afterUpload_heeds ?_ fun h => ?_
    · exact (noteObject_asks (unread_request (by simp)) (unread_request (by simp))).seq fun _ => trivial
    · rw [Except.ok.inj (hr h)]

theorem rewriteFile_heeds (cfg : WebDAVTargetConfig) (raw : RawFileItem) (options : UpsertOptions)
    (hexpected : options.expectedTargetVersion = some expected) (htold : ¬ told) :
    wp (heedful e expected).spec (rewriteFile cfg raw options) (fun _ _ => True) told := by
  unfold rewriteFile uploadFile
  rw [hexpected]
  refine wp_seq (wp_mono (Monitor.spec_mono _) _ _ _ ?_ told (checkOwnership_heeds ?_ htold))
  · intro r told' hr
    cases r with
    | error err => trivial
    | ok written =>
      refine afterUpload_heeds ?_ fun h => ?_
      · exact (noteFile_asks (unread_request (by simp)) (unread_request (by simp))).seq fun _ => trivial
      · rw [Except.ok.inj (hr h)]
  · split
    · split
      · exact (putChunks_asks (fun _ _ => unread_request (by simp)) _ _ _).seq fun _ => trivial
      · exact putWhole_unread _ _ _ _
    · trivial

theorem removeDavResource_heeds (path : String) (kind : RemovalKind) (htold : ¬ told) :
    wp (heedful e expected).spec (removeDavResource path (some expected) kind) (fun _ _ => True) told := by
  refine wp_mono (Monitor.spec_mono _) _ _ _ (fun _ _ _ => trivial) told (checkOwnership_heeds ?_ htold)
  refine (retrying_asks (unread_request (by simp)) _).seq fun response => ?_
  split
  · trivial
  · split <;> trivial

theorem remove_heeds (targetId what path : String) (kind : RemovalKind) :
    wp (heedful e expected).spec
      (((assertRemovableTargetId targetId what).bind fun _ =>
        removeDavResource path (some expected) kind).bind fun _ => .ret ()) (fun _ _ => True) False := by
  refine wp_seq (wp_seq ?_)
  unfold assertRemovableTargetId
  split
  · trivial
  · simp only [wp_ret, andThen]
    refine wp_mono (Monitor.spec_mono _) _ _ _ ?_ _ (removeDavResource_heeds path kind not_false)
    intro r told' _
    cases r <;> trivial

theorem program_heeds (h : Handling) :
    wp (heedful e expected).spec (h.program e expected) (fun _ _ => True) False := by
  cases h with
  | rewriteObject K scope id body options =>
    refine wp_seq (wp_seq ((wp_ofExcept _ _ _ _).mpr ?_))
    cases extractUidOf K body with
    | error err => trivial
    | ok uid =>
      refine wp_mono (Monitor.spec_mono _) _ _ _ ?_ _ (rewriteObject_heeds K id body uid _ rfl not_false)
      intro r told _
      cases r <;> trivial
  | rewriteFile cfg sha256Hex fileContentHash scope raw options =>
    refine wp_seq (wp_mono (Monitor.spec_mono _) _ _ _ ?_ _ (rewriteFile_heeds cfg raw _ rfl not_false))
    intro r told _
    cases r <;> trivial
  | removeObject targetId => exact remove_heeds _ _ _ _
  | removeFile cfg targetId => exact remove_heeds _ _ _ _

end Heeds

section Run

variable {h : Handling} {expected path : String} {w : World (api e)} {chs : List (Choice (Input (api e)) (api e).Act)}

def Handling.trace (e : Endpoint) (h : Handling) (expected : String) (w : World (api e))
    (chs : List (Choice (Input (api e)) (api e).Act)) : List (DavEvent e) :=
  (machine (api e)).trace (.seq (Main.lift (h.program e expected)), w) chs

def server (w : World (api e)) : Server := w.1.target

theorem post_server (ev : DavEvent e) :
    server ((machine (api e)).post ev) = server ev.pre ∨
      (∃ i m r, server ((machine (api e)).post ev) = (e.exec i (server ev.pre, m) r).2.1) ∨
        ∃ a v, ev = .act a v ∧ server ((machine (api e)).post ev) = (server v).act a := by
  cases ev with
  | act a v => exact .inr (.inr ⟨a, v, rfl, rfl⟩)
  | exec th c i v =>
    obtain ⟨r, rfl⟩ | htarget := exec_target i v c
    · exact .inr (.inl ⟨i.target, v.2.session, r, rfl⟩)
    · exact .inl htarget

theorem post_nextVersion (ev : DavEvent e) :
    (server ev.pre).nextVersion ≤ (server ((machine (api e)).post ev)).nextVersion := by
  obtain h | ⟨i, m, r, h⟩ | ⟨a, v, rfl, h⟩ := post_server ev <;> rw [h]
  · exact exec_nextVersion i m r
  · cases a with
    | put q body => exact Nat.le_succ _
    | remove q => exact Nat.le_refl _

theorem post_safe {start : ℕ} {ev : DavEvent e} (hev : ¬ EditsAt path ev)
    (h : start ≤ (server ev.pre).nextVersion ∧ Safe e expected start (urlPath path) (server ev.pre)) :
    start ≤ (server ((machine (api e)).post ev)).nextVersion ∧
      Safe e expected start (urlPath path) (server ((machine (api e)).post ev)) := by
  refine ⟨Nat.le_trans h.1 (post_nextVersion ev), ?_⟩
  obtain hs | ⟨i, m, r, hs⟩ | ⟨a, v, rfl, hs⟩ := post_server ev <;> rw [hs]
  · exact h.2
  · exact h.2.exec h.1 i m r
  · refine h.2.act ?_
    rintro body rfl
    exact hev rfl

theorem told_stays (m : Machine (World (api e)) (Cmd (api e)) Cmd.Resp PassError (Input (api e)) (api e).Act)
    (evs : List (DavEvent e)) {told : Prop} (htold : told) : (heedful e expected).after m told evs := by
  induction evs generalizing told with
  | nil => exact htold
  | cons ev evs ih =>
    refine ih ?_
    cases ev with
    | act a v => exact htold
    | exec th c i v => exact .inl htold

theorem head_tells {i : Input (api e)} {v : World (api e)} {r : Resource}
    (hserved : Weather.delivery i.target = .served) (hetag : Weather.sendsEtag i.target)
    (hr : resourceAt v path = some r) (hother : e.etags.tag r.version ≠ expected) :
    TellsOther expected (.target (Request.head path) : Cmd (api e)) (v.exec i (.target (Request.head path))).1 := by
  have hhead : (v.exec i (.target (Request.head path))).1 =
      .ok { status := 200, headers := [("ETag", e.etags.header r.version)] } := by
    have hdeliver : (v.exec i (.target (Request.head path))).1 =
        (Endpoint.deliver i.target (server v) (server v, e.head i.target (server v) path)).1.mapError .error := rfl
    have hlookup : (server v).resources.lookup (urlPath path) = some r := hr
    rw [hdeliver]
    simp only [Endpoint.deliver, hserved, Endpoint.head, hlookup, Endpoint.etagHeader, hetag, if_true]
    rfl
  rw [hhead]
  refine ⟨rfl, e.etags.tag r.version, ?_, hother⟩
  have hname : (lower "ETag".toList == "etag".toList) = true := by decide
  simp only [readEtag, List.find?_cons, hname]
  exact e.etags.tag_eq _

/-- In every run of a rewrite or a removal whose requests are attended, no version that the ledger does not
expect is replaced. -/
theorem owner_edit_spared (hattended : Attended (h.trace e expected w chs)) :
    ∀ ev ∈ h.trace e expected w chs, Spares expected (server w).nextVersion ev := by
  intro ev hev path r hacts hr hown
  obtain ⟨before, after, htrace⟩ := List.append_of_mem hev
  obtain ⟨earlier, read, since, rfl, hread, hsince⟩ := hattended before ev after path htrace hacts
  have htrace' : h.trace e expected w chs = earlier ++ read :: (since ++ ev :: after) := by simp [htrace]
  have hstart : (server w).nextVersion ≤ (server read.pre).nextVersion :=
    Machine.keeps_pre (machine (api e)) (P := fun v => (server w).nextVersion ≤ (server v).nextVersion) htrace'
      (Nat.le_refl _) fun ev' _ h' => Nat.le_trans h' (post_nextVersion ev')
  -- had the read named another version, the request would not have been made
  have hsafe : Safe e expected (server w).nextVersion (urlPath path) (server read.pre) := by
    intro r' hr'
    by_contra hother
    have htold : (heedful e expected).after (machine (api e)) False (earlier ++ read :: since) := by
      unfold Monitor.after
      rw [List.foldl_append, List.foldl_cons]
      refine told_stays _ since ?_
      cases read with
      | act a v => exact hread.elim
      | exec th c i v =>
        cases c with
        | target r =>
          obtain ⟨rfl, hserved, hetag⟩ := hread
          exact .inr (head_tells hserved hetag hr' fun htag => hother (.inl htag))
        | _ => exact hread.elim
    cases ev with
    | act a v => exact hacts
    | exec th c i v =>
      cases c with
      | target req =>
        have hnone := Monitor.allows_of_trace (program_heeds h) htrace htold req rfl
        rw [hacts.1] at hnone
        cases hnone
      | _ => exact hacts
  have hread_edits : ¬ EditsAt path read := by
    cases read with
    | act a v => exact hread.elim
    | exec th c i v => exact id
  obtain ⟨-, hown'⟩ := Machine.keeps_between (machine (api e))
    (P := fun v => (server w).nextVersion ≤ (server v).nextVersion ∧
      Safe e expected (server w).nextVersion (urlPath path) (server v))
    htrace' (post_safe hread_edits ⟨hstart, hsafe⟩) fun ev' hev' => post_safe (hsince ev' hev')
  exact absurd (hown' r hr) hown

end Run

namespace Sample

/-- The server holds `a.txt` as we wrote it, under the version `a`. -/
def copied : World (api endpoint) :=
  (⟨∅, ∅, ⟨AList.insert "a.txt" ⟨['x'], 0, .migration⟩ ∅, [], 1⟩⟩, PassState.fresh _)

def rewrite : Handling :=
  .rewriteFile webDAV sha256Hex contentHash ⟨"t", "m", .file⟩ ⟨"a.txt", some ['z']⟩ {}

/-- The owner acts between the read of the version and the PUT. -/
def rewriteTrace (act : OwnerAct) : List (DavEvent endpoint) :=
  rewrite.trace endpoint "a" copied [.run 0 input, .act act, .run 0 input]

theorem rewriteTrace_eq (act : OwnerAct) : ∃ w w' body, rewriteTrace act =
    [.exec none (.target (Request.head "a.txt")) input w, .act act w,
      .exec none (.target (Request.put "a.txt" body false)) input w'] := ⟨_, _, _, rfl⟩

theorem rewriteTrace_attended : Attended (rewriteTrace (.put "b.txt" ['y'])) := by
  obtain ⟨w, w', body, htrace⟩ := rewriteTrace_eq (.put "b.txt" ['y'])
  intro before ev after path hsplit hacts
  rw [htrace] at hsplit
  obtain _ | ⟨ev₀, before⟩ := before
  · obtain ⟨rfl, -⟩ := List.cons.inj hsplit
    cases hacts.1
  obtain ⟨rfl, hrest⟩ := List.cons.inj hsplit
  obtain _ | ⟨ev₁, before⟩ := before
  · obtain ⟨rfl, -⟩ := List.cons.inj hrest
    exact hacts.elim
  obtain ⟨rfl, hlast⟩ := List.cons.inj hrest
  obtain _ | ⟨ev₂, before⟩ := before
  · obtain ⟨rfl, -⟩ := List.cons.inj hlast
    obtain rfl : "a.txt" = path := Option.some.inj hacts.1
    refine ⟨[], _, _, rfl, ⟨rfl, rfl, rfl⟩, fun ev' hev' => ?_⟩
    obtain rfl := List.mem_singleton.mp hev'
    have hother : ¬ "b.txt" = urlPath "a.txt" := by decide
    exact hother
  · obtain ⟨-, hnil⟩ := List.cons.inj hlast
    simp at hnil

theorem owner_edit_spared_other :
    Attended (rewriteTrace (.put "b.txt" ['y'])) ∧
      ∀ ev ∈ rewriteTrace (.put "b.txt" ['y']), Spares "a" 1 ev :=
  ⟨rewriteTrace_attended, owner_edit_spared rewriteTrace_attended⟩

def replaced : DavEvent e → Option (String × Option Resource × Option Resource)
  | .exec th (.target r) i w =>
    if (Weather.delivery i.target).applied then
      (Request.replaces r).map fun path =>
        (path, resourceAt w path, resourceAt ((machine (api e)).post (.exec th (.target r) i w)) path)
    else none
  | _ => none

theorem replaced_eq_some {ev : DavEvent e} {path : String} {r r' : Option Resource}
    (h : replaced ev = some (path, r, r')) :
    ActsOn path ev ∧ resourceAt ev.pre path = r ∧ resourceAt ((machine (api e)).post ev) path = r' := by
  unfold replaced at h
  split at h
  · split at h
    · rename_i happlied
      obtain ⟨path', hpath, heq⟩ := Option.map_eq_some_iff.mp h
      cases heq
      exact ⟨⟨hpath, happlied⟩, rfl, rfl⟩
    · cases h
  · cases h

/-- The owner edits `a.txt` right after its version has been read: the edit is replaced. -/
theorem owner_edit_replaced : ¬ ∀ ev ∈ rewriteTrace (.put "a.txt" ['y']), Spares "a" 1 ev := by
  intro hspares
  have htrace : (rewriteTrace (.put "a.txt" ['y'])).filterMap replaced =
      [("a.txt", some ⟨['y'], 1, .owner⟩, some ⟨['z'], 2, .migration⟩)] := by decide +kernel
  have hmem : ("a.txt", some ⟨['y'], 1, .owner⟩, some ⟨['z'], 2, .migration⟩) ∈
      (rewriteTrace (.put "a.txt" ['y'])).filterMap replaced := by
    rw [htrace]
    exact List.mem_singleton.mpr rfl
  obtain ⟨ev, hev, hreplaced⟩ := List.mem_filterMap.mp hmem
  obtain ⟨hacts, hbefore, hafter⟩ := replaced_eq_some hreplaced
  have hown : ¬ Own endpoint "a" 1 ⟨['y'], 1, .owner⟩ := by
    rintro (htag | ⟨hauthor, -⟩)
    · revert htag
      decide
    · cases hauthor
  have hkept := hspares ev hev "a.txt" _ hacts hbefore hown
  rw [hafter] at hkept
  cases hkept

end Sample

end OpenMigrate.Dav
