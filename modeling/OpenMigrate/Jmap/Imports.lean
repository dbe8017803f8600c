import OpenMigrate.Async.Turns
import OpenMigrate.Jmap.Emails
import OpenMigrate.Sync.IdReaders
import OpenMigrate.Sync.World

namespace OpenMigrate.Jmap.Imports

open Async Emails Url

section Account

/-- What the writer that imported a message knew of the account: the messages below `since` stood there before its
pass, and those in `told` it had been told of when it looked for the key. -/
structure Origin where
  key : List Char
  since : ℕ
  told : List ℕ

/-- A message of the account. -/
structure Held where
  mailboxIds : List { mailboxId : List Char // mailboxId ≠ [] }
  headers : Headers
  size : Option ℕ
  origin : Option Origin

/-- Every message that was ever there, and the numbers of those that are, in the order that `Email/query` lists. -/
structure Account where
  ever : List Held
  listed : List ℕ
  nodup : listed.Nodup
  known : ∀ n ∈ listed, n < ever.length

/-- The server, as the writer relies on it: ids are never reused, the header filter finds at least the messages with
that very Message-ID, and what is declined as a duplicate has the same one. -/
structure Server where
  name : ℕ → List Char
  injective : Function.Injective name
  named : ∀ n, name n ≠ []
  maxLimit : ℕ
  arrange : List Email → List Email
  arranges : ∀ emails, (arrange emails).Perm emails
  mentions : Headers → List Char → Bool
  exact : ∀ headers, messageId headers ≠ [] → mentions headers (messageId headers) = true
  reads : Bytes → Headers
  same : Headers → Bytes → Bool
  same_messageId : ∀ headers raw, same headers raw = true → messageId headers = messageId (reads raw)

variable (server : Server) (account : Account)

def Held.email (held : Held) (n : ℕ) : Email := ⟨server.name n, held.mailboxIds, held.headers, held.size⟩

theorem Account.place_nodup (place : ℕ) :
    (account.listed.take place ++ account.ever.length :: account.listed.drop place).Nodup := by
  rw [List.nodup_middle, List.take_append_drop, List.nodup_cons]
  exact ⟨fun h => lt_irrefl _ (account.known _ h), account.nodup⟩

theorem Account.place_known (place : ℕ) (held : Held) :
    ∀ n ∈ account.listed.take place ++ account.ever.length :: account.listed.drop place, n <
      (account.ever ++ [held]).length := by
  intro n hn
  rw [List.length_append, List.length_singleton]
  rw [List.mem_append, List.mem_cons] at hn
  obtain hn | rfl | hn := hn
  · exact Nat.lt_succ_of_lt (account.known _ (List.mem_of_mem_take hn))
  · exact Nat.lt_succ_self _
  · exact Nat.lt_succ_of_lt (account.known _ (List.mem_of_mem_drop hn))

/-- A message comes at some place of the order; the others keep theirs. -/
def Account.add (held : Held) (place : ℕ) : Account :=
  ⟨account.ever ++ [held], account.listed.take place ++ account.ever.length :: account.listed.drop place,
    account.place_nodup place, account.place_known place held⟩

def Account.remove (n : ℕ) : Account :=
  ⟨account.ever, account.listed.erase n, account.nodup.erase n,
    fun m hm => account.known m (List.mem_of_mem_erase hm)⟩

/-- The messages that are there. -/
def Account.emails (numbers : List ℕ) : List Email :=
  numbers.filterMap fun n => (account.ever[n]?).map fun held => held.email server n

def Account.query (position : ℕ) : List (List Char) :=
  ((account.listed.drop position).take (min LIMIT server.maxLimit)).map server.name

def Account.get (ids : List (List Char)) : List Email :=
  server.arrange ((account.emails server account.listed).filter fun email => ids.contains email.id)

/-- `filter: { header: ["Message-ID", naturalKey] }` -/
def Account.search (naturalKey : List Char) : List (List Char) :=
  ((account.emails server account.listed).filter fun email => server.mentions email.headers naturalKey).map Email.id

/-- The message that the server has instead of this one. -/
def Account.twin (raw : Bytes) : Option (List Char) :=
  ((account.emails server account.listed).find? fun email => server.same email.headers raw).map Email.id

end Account

section Writer

/-- What the others do to the account. -/
inductive Act where
  | deliver (place : ℕ) (held : Held) (foreign : held.origin = none)
  | remove (n : ℕ)

/-- What becomes of a request: it may be carried out without an answer. -/
inductive Reply where
  | done
  | failed (message : String)
  | lost (message : String)
  | notCreated (type : String) (description : String)
  | alreadyExists (description : String) (shown : Bool)

/-- What the others did since the last turn, what becomes of the request of this one, and the place that the order
gives to an import. -/
structure Input where
  acts : List Act
  reply : Reply
  place : ℕ

/-- `keySnapshot`: the position, the ids of a page that is still to be fetched, and the keys so far. -/
inductive Snapshot where
  | absent
  | listing (position : ℕ) (page : Option (List (List Char))) (keys : List (List Char × List Char))
  | ready (keys : Option (List (List Char × List Char)))

/-- The writer of one pass and the account; `since` and `told` are noted for the origins alone. -/
structure Shared where
  account : Account
  connected : Bool
  snapshot : Snapshot
  since : ℕ
  told : List ℕ

inductive Stage where
  | connecting
  | snapshotting
  | querying
  | uploading (told : List ℕ)
  | importing (told : List ℕ)
  | imported (n : ℕ)
  | recovering (description : String)
  | adopting (targetId : List Char)
  | returned (result : Except String UpsertResult)

/-- One `upsertEmail`; `made` is the number of its import. -/
structure Call where
  mailboxId : { mailboxId : List Char // mailboxId ≠ [] }
  raw : Bytes
  stage : Stage
  made : Option ℕ

variable (server : Server)

/-- `messageId`, or nothing. -/
def keyOf (raw : Bytes) : List Char := ((Mail.Jmap.extractMessageIdFromRfc822 raw).map String.toList).getD []

def Call.key (c : Call) : List Char := keyOf c.raw

def Call.to (c : Call) (stage : Stage) : Call := { c with stage := stage }

def Call.throw (c : Call) (message : String) : Call := c.to (.returned (.error message))

def Call.give (c : Call) (targetId : List Char) (created adopted : Bool) : Call :=
  c.to (.returned (.ok { targetId := String.ofList targetId, created := created, adopted := adopted }))

def Shared.act (s : Shared) : Act → Shared
  | .deliver place held _ => { s with account := s.account.add held place }
  | .remove n => { s with account := s.account.remove n }

def Shared.acted (s : Shared) (acts : List Act) : Shared := acts.foldl Shared.act s

/-- The loop of `buildKeySnapshot` over the entries of a page. -/
def addEntries (keys : List (List Char × List Char)) (entries : List TargetEntry) :
    Option (List (List Char × List Char)) :=
  entries.foldlM
    (fun keys entry =>
      let keys := setKey keys entry
      if SNAPSHOT_MAX_ENTRIES < keys.length then none else some keys) keys

/-- The next request of the listing that all calls wait for. -/
def Shared.list (s : Shared) (reply : Reply) (position : ℕ) (page : Option (List (List Char)))
    (keys : List (List Char × List Char)) : Snapshot :=
  match reply, page with
  | .done, none =>
    let ids := s.account.query server position
    if ids = [] then .ready (some keys) else .listing position (some ids) keys
  | .done, some ids =>
    match addEntries keys ((s.account.get server ids).filterMap (entryOf [])) with
    | none => .ready none
    | some keys => if ids.length < LIMIT then .ready (some keys) else .listing (position + LIMIT) none keys
  | _, _ => .ready none

/-- `snapshot?.set(messageId, targetId)` -/
def Snapshot.set (snapshot : Snapshot) (key targetId : List Char) : Snapshot :=
  match snapshot with
  | .ready (some keys) => .ready (some (setKey keys ⟨key, targetId, [], none⟩))
  | snapshot => snapshot

/-- Where a call has a Message-ID, the snapshot learns what it found or made. -/
def Shared.note (s : Shared) (c : Call) (targetId : List Char) : Shared :=
  if c.key = [] then s else { s with snapshot := s.snapshot.set c.key targetId }

def lookupFailed (c : Call) (cause : String) : String :=
  "Email/query lookup failed for Message-ID " ++ String.ofList c.key ++ " in mailbox " ++
    String.ofList c.mailboxId.val ++ "; refusing to treat this as \"not present\" because that would append " ++
      "a duplicate. Cause: " ++
    cause

def importFailed (type description : String) : String :=
  "Failed to import email: " ++ type ++ " - " ++ (if description = "" then "Unknown error" else description)

/-- The message of an error that a reply is, with or without an answer. -/
def Reply.message : Reply → String
  | .failed message | .lost message => message
  | .done | .notCreated _ _ | .alreadyExists _ _ => "Invalid JMAP response format"

def Shared.create (s : Shared) (c : Call) (told : List ℕ) (place : ℕ) : Shared × Call :=
  ({ s with account := s.account.add ⟨[c.mailboxId], server.reads c.raw, some c.raw.length, some
    ⟨c.key, s.since, told⟩⟩ place },
    { c with stage := .imported s.account.ever.length, made := some s.account.ever.length })

/-- A turn of a call, from the end of one wait to the end of the next. -/
def advance (s : Shared) (c : Call) (reply : Reply) (place : ℕ) : Shared × Call :=
  match c.stage with
  | .connecting =>
    let next := c.to (if c.key = [] then .uploading [] else .snapshotting)
    if s.connected then (s, next)
    else match reply with
      | .done => ({ s with connected := true }, next)
      | reply => (s, c.throw reply.message)
  | .snapshotting =>
    match s.snapshot with
    | .absent => ({ s with snapshot := .listing 0 none [] }, c)
    | .listing position page keys => ({ s with snapshot := s.list server reply position page keys }, c)
    | .ready none => (s, c.to .querying)
    | .ready (some keys) =>
      match keys.lookup c.key with
      | some existingId => (s, c.give existingId false true)
      | none => (s, c.to (.uploading s.told))
  | .querying =>
    match reply with
    | .done =>
      match (s.account.search server c.key).head? with
      | some existingId => (s, c.give existingId false true)
      | none => (s, c.to (.uploading s.told))
    | reply => (s, c.throw (lookupFailed c reply.message))
  | .uploading told =>
    match reply with
    | .done => (s, c.to (.importing told))
    | reply => (s, c.throw reply.message)
  | .importing told =>
    match reply with
    | .done | .lost _ => s.create server c told place
    | .failed message => (s, c.throw message)
    | .notCreated type description => (s, c.throw (importFailed type description))
    | .alreadyExists description shown =>
      match s.account.twin server c.raw with
      | none => s.create server c told place
      | some existingId =>
        if shown then (s, c.to (.adopting existingId))
        else if c.key = [] then (s, c.throw (importFailed "alreadyExists" description))
        else (s, c.to (.recovering description))
  | .imported n =>
    match reply with
    | .done => ({ s.note c (server.name n) with told := if c.key = [] then s.told else n :: s.told },
        c.give (server.name n) true false)
    | reply => (s, c.throw reply.message)
  | .recovering description =>
    match reply with
    | .done =>
      match (s.account.search server c.key).head? with
      | some existingId => (s, c.to (.adopting existingId))
      | none => (s, c.throw (importFailed "alreadyExists" description))
    | reply => (s, c.throw (lookupFailed c reply.message))
  | .adopting targetId => (s.note c targetId, c.give targetId false true)
  | .returned _ => (s, c)

def step (s : Shared) (c : Call) (i : Input) : Shared × Call := advance server (s.acted i.acts) c i.reply i.place

/-- What a pass asks of one writer, and in which order its calls take turns. -/
structure Pass where
  asked : List ({ mailboxId : List Char // mailboxId ≠ [] } × Bytes)
  chs : List (ℕ × Input)

def Pass.calls (p : Pass) : List Call := p.asked.map fun a => ⟨a.1, a.2, .connecting, none⟩

def fresh (account : Account) : Shared := ⟨account, false, .absent, account.ever.length, []⟩

/-- A pass, up to its end or to where its process ended. -/
def within (account : Account) (p : Pass) : List Call × Shared := turns (step server) (p.calls, fresh account) p.chs

/-- One pass after another: each has a writer of its own. -/
def passes (account : Account) : List Pass → Account
  | [] => account
  | p :: ps => passes (within server account p).2.account ps

end Writer

section Spec

variable (server : Server)

def Snapshot.isListing : Snapshot → Bool
  | .listing _ _ _ => true
  | .absent | .ready _ => false

def Act.delivers : Act → Bool
  | .deliver _ _ _ => true
  | .remove _ => false

/-- Nothing is removed while the listing goes from page to page. -/
def Steady (s : Shared) (_ : Call) (i : Input) : Prop := s.snapshot.isListing = true → i.acts.all Act.delivers = true

instance (s : Shared) (c : Call) (i : Input) : Decidable (Steady s c i) := inferInstanceAs (Decidable (_ → _))

def SteadyPasses (account : Account) : List Pass → Prop
  | [] => True
  | p :: ps => EveryTurn (step server) Steady (p.calls, fresh account) p.chs ∧
      SteadyPasses (within server account p).2.account ps

/-- The server gives an imported message the Message-ID that the writer reads in it. -/
def ReadsBack (raw : Bytes) : Prop := keyOf raw ≠ [] → messageId (server.reads raw) = keyOf raw

/-- A message that is there under the key, in a mailbox. -/
def Account.Visible (account : Account) (key : List Char) (n : ℕ) : Prop :=
  n ∈ account.listed ∧ ∃ h, account.ever[n]? = some h ∧ messageId h.headers = key ∧ h.mailboxIds ≠ []

/-- Where a message was imported, those that are there under its key came in the same pass, and the writer had not
been told of their import when it looked. -/
def Account.Blind (account : Account) : Prop :=
  ∀ n h o, account.ever[n]? = some h → h.origin = some o → o.key ≠ [] →
    ∀ m < n, account.Visible o.key m → o.since ≤ m ∧ m ∉ o.told

def Account.ours (account : Account) (key : List Char) (n : ℕ) : Bool :=
  ((account.ever[n]?).bind Held.origin).any fun o => o.key = key

/-- No two messages of the pass have one Message-ID. -/
def Pass.distinct (p : Pass) : Prop := p.asked.Pairwise fun a b => keyOf a.2 ≠ [] → keyOf a.2 ≠ keyOf b.2

/-- The id that a call returns is one of the account's: of its own import, or of a message with its Message-ID. -/
structure Answered (account : Account) (c : Call) (r : UpsertResult) : Prop where
  adopted : r.adopted = !r.created
  names : ∃ n h, account.ever[n]? = some h ∧ r.targetId = String.ofList (server.name n) ∧
    (c.key ≠ [] → server.mentions h.headers c.key = true) ∧
    c.made = (if r.created then some n else none) ∧
    (r.created = true → ∃ o, h.origin = some o ∧ o.key = c.key)

structure ImportedOnce (ps : List Pass) (x : List Call × Shared) : Prop where
  blind : x.2.account.Blind
  once : (∀ p ∈ ps, p.distinct) → ∀ key ≠ [], (x.2.account.listed.filter (x.2.account.ours key)).length ≤ 1
  answered : ∀ c ∈ x.1, ∀ r, c.stage = .returned (.ok r) → Answered server x.2.account c r
  told : ∀ c ∈ x.1, ∀ r n, c.stage = .returned (.ok r) → c.key ≠ [] → c.made = some n → n ∈ x.2.told

end Spec

section Later

variable {server : Server} {account account' account'' : Account} {key : List Char} {n m place p : ℕ} {held : Held}

/-- Messages keep their numbers, and one that is gone does not come back. -/
structure Account.Later (account account' : Account) : Prop where
  ever : account.ever <+: account'.ever
  listed : ∀ n < account.ever.length, n ∈ account'.listed → n ∈ account.listed

theorem Account.Later.refl (account : Account) : account.Later account := ⟨List.prefix_rfl, fun _ _ hn => hn⟩

theorem Account.Later.trans (h : account.Later account') (h' : account'.Later account'') : account.Later account'' :=
  ⟨h.ever.trans h'.ever,
    fun n hn hlisted => h.listed n hn (h'.listed n (hn.trans_le h.ever.length_le) hlisted)⟩

theorem Account.Later.get (h : account.Later account') (hn : account.ever[n]? = some held) :
    account'.ever[n]? = some held := by
  obtain ⟨rest, hrest⟩ := h.ever
  rw [← hrest, List.getElem?_append_left (List.getElem?_eq_some_iff.mp hn).1, hn]

theorem Account.Later.get_old (h : account.Later account') (hlt : n < account.ever.length)
    (hn : account'.ever[n]? = some held) : account.ever[n]? = some held := by
  obtain ⟨rest, hrest⟩ := h.ever
  rwa [← hrest, List.getElem?_append_left hlt] at hn

theorem Account.Later.visible (h : account.Later account') (hlt : n < account.ever.length)
    (hn : account'.Visible key n) : account.Visible key n := by
  obtain ⟨hlisted, held, hget, hheld⟩ := hn
  exact ⟨h.listed n hlt hlisted, held, h.get_old hlt hget, hheld⟩

theorem Account.mem_add : n ∈ (account.add held place).listed ↔ n = account.ever.length ∨ n ∈ account.listed := by
  have hsplit : n ∈ account.listed ↔ n ∈ account.listed.take place ∨ n ∈ account.listed.drop place := by
    rw [← List.mem_append, List.take_append_drop]
  rw [hsplit, Account.add, List.mem_append, List.mem_cons]
  tauto

theorem Account.add_get_new : (account.add held place).ever[account.ever.length]? = some held :=
  List.getElem?_concat_length

theorem Account.later_add (account : Account) (held : Held) (place : ℕ) : account.Later (account.add held place) where
  ever := List.prefix_append _ _
  listed n hn hlisted := by
    obtain rfl | hlisted := Account.mem_add.mp hlisted
    · exact absurd hn (lt_irrefl _)
    · exact hlisted

theorem Account.later_remove (account : Account) (n : ℕ) : account.Later (account.remove n) :=
  ⟨List.prefix_rfl, fun _ _ hlisted => List.mem_of_mem_erase hlisted⟩

theorem Account.add_length : (account.add held place).ever.length = account.ever.length + 1 := by
  rw [Account.add, List.length_append, List.length_singleton]

theorem Account.add_cases (hn : n < (account.add held place).ever.length) :
    n < account.ever.length ∨ n = account.ever.length := by
  rw [Account.add_length] at hn
  omega

theorem Account.Visible.lt (h : account.Visible key n) : n < account.ever.length := account.known n h.1

/-- What comes moves the others towards the end. -/
theorem mem_take_insert {l : List ℕ} (hne : m ≠ n) (hm : m ∈ (l.take place ++ n :: l.drop place).take p) :
    m ∈ l.take p := by
  rw [List.take_append, List.mem_append] at hm
  obtain hm | hm := hm
  · rw [List.take_take] at hm
    exact (List.take_subset_take_left l (min_le_left _ _)) hm
  · cases hq : p - (l.take place).length with
    | zero =>
      rw [hq] at hm
      cases hm
    | succ q =>
      rw [hq, List.take_succ_cons, List.mem_cons] at hm
      obtain rfl | hm := hm
      · exact absurd rfl hne
      · have hplace : place < l.length := by
          by_contra hnot
          rw [List.drop_eq_nil_of_le (not_lt.mp hnot), List.take_nil] at hm
          cases hm
        rw [List.length_take] at hq
        rw [List.take_drop] at hm
        refine (List.take_subset_take_left l ?_) (List.mem_of_mem_drop hm)
        omega

end Later

section Invariant

variable (server : Server)

/-- The pages that were asked for reach a message: a page that is not full was the last. -/
def Account.Reached (account : Account) (position : ℕ) (page : Option (List (List Char))) (n : ℕ) : Prop :=
  match page with
  | none => n ∈ account.listed.take position
  | some ids => ids.length < LIMIT ∨ n ∈ account.listed.take (position + LIMIT)

/-- What a snapshot has of the messages that stood before the pass, and of those that the writer was told of. -/
def Snapshot.Tells (account : Account) (since : ℕ) (told : List ℕ) : Snapshot → Prop
  | .absent => told = []
  | .listing position page keys => told = [] ∧ ∀ key ≠ [], ∀ n, account.Visible key n → n < since →
      account.Reached position page n → key ∈ keys.map Prod.fst ∨ server.name n ∈ page.getD []
  | .ready none => True
  | .ready (some keys) => ∀ key ≠ [], ∀ n, account.Visible key n → n < since ∨ n ∈ told → key ∈ keys.map Prod.fst

def Snapshot.keys : Snapshot → List (List Char × List Char)
  | .absent | .ready none => []
  | .listing _ _ keys | .ready (some keys) => keys

/-- An id of a message with this Message-ID. -/
def Account.Names (account : Account) (key targetId : List Char) : Prop :=
  ∃ n h, account.ever[n]? = some h ∧ targetId = server.name n ∧ (key ≠ [] → server.mentions h.headers key = true)

def Shared.Past (s : Shared) : Prop := ∃ keys, s.snapshot = .ready keys

/-- What a call knows that found nothing under its key. -/
structure Shared.Missed (s : Shared) (key : List Char) (told : List ℕ) : Prop where
  bounded : ∀ n ∈ told, n < s.account.ever.length
  missed : ∀ n, s.account.Visible key n → s.since ≤ n ∧ n ∉ told

structure Account.Imported (account : Account) (key : List Char) (n : ℕ) : Prop where
  held : ∃ h, account.ever[n]? = some h ∧ (∃ o, h.origin = some o ∧ o.key = key) ∧
    (key ≠ [] → messageId h.headers = key)

def Call.Standing (s : Shared) (c : Call) : Prop :=
  match c.stage with
  | .connecting => c.made = none
  | .snapshotting => c.key ≠ [] ∧ c.made = none
  | .querying | .recovering _ => c.key ≠ [] ∧ s.Past ∧ c.made = none
  | .uploading told | .importing told => c.made = none ∧ (c.key ≠ [] → s.Past ∧ s.Missed c.key told)
  | .imported n => c.made = some n ∧ (c.key ≠ [] → s.Past) ∧ s.account.Imported c.key n
  | .adopting targetId => c.made = none ∧ (c.key ≠ [] → s.Past) ∧ s.account.Names server c.key targetId
  | .returned (.error _) => True
  | .returned (.ok r) => Answered server s.account c r ∧ (c.key ≠ [] → ∀ n, c.made = some n → n ∈ s.told)

structure Shared.Sound (s : Shared) : Prop where
  since : s.since ≤ s.account.ever.length
  told : ∀ n ∈ s.told, n < s.account.ever.length
  tells : s.snapshot.Tells server s.account s.since s.told
  names : ∀ k ∈ s.snapshot.keys, s.account.Names server k.1 k.2

structure Shared.Moved (s s' : Shared) : Prop where
  later : s.account.Later s'.account
  since : s'.since = s.since
  past : s.Past → s'.Past
  told : ∀ n ∈ s.told, n ∈ s'.told

end Invariant

section Moved

variable {server : Server} {account account' : Account} {s s' s'' : Shared} {c : Call} {key targetId : List Char}
    {n : ℕ}

theorem Shared.Moved.refl (s : Shared) : s.Moved s := ⟨.refl _, rfl, id, fun _ hn => hn⟩

theorem Shared.Moved.trans (h : s.Moved s') (h' : s'.Moved s'') : s.Moved s'' :=
  ⟨h.later.trans h'.later, h'.since.trans h.since, h'.past ∘ h.past, fun n hn => h'.told n (h.told n hn)⟩

theorem Account.Later.names (h : account.Later account') (hnames : account.Names server key targetId) :
    account'.Names server key targetId := by
  obtain ⟨n, held, hget, hid, hmentions⟩ := hnames
  exact ⟨n, held, h.get hget, hid, hmentions⟩

theorem Account.Later.imported (h : account.Later account') (himported : account.Imported key n) :
    account'.Imported key n := by
  obtain ⟨held, hget, hheld⟩ := himported.held
  exact ⟨held, h.get hget, hheld⟩

theorem Account.Later.answered {r : UpsertResult} (h : account.Later account') (hr : Answered server account c r) :
    Answered server account' c r := by
  obtain ⟨hadopted, n, held, hget, hr⟩ := hr
  exact ⟨hadopted, n, held, h.get hget, hr⟩

theorem Shared.Moved.missed {told : List ℕ} (h : s.Moved s') (hsince : s.since ≤ s.account.ever.length)
    (hmissed : s.Missed key told) : s'.Missed key told where
  bounded n hn := (hmissed.bounded n hn).trans_le h.later.ever.length_le
  missed n hn := by
    rw [h.since]
    obtain hlt | hge := lt_or_ge n s.account.ever.length
    · exact hmissed.missed n (h.later.visible hlt hn)
    · exact ⟨hsince.trans hge, fun htold => absurd (hmissed.bounded n htold) (not_lt.mpr hge)⟩

theorem Shared.Moved.standing (h : s.Moved s') (hsince : s.since ≤ s.account.ever.length)
    (hc : c.Standing server s) : c.Standing server s' := by
  unfold Call.Standing at hc ⊢
  split at hc
  · exact hc
  · exact hc
  · exact ⟨hc.1, h.past hc.2.1, hc.2.2⟩
  · exact ⟨hc.1, h.past hc.2.1, hc.2.2⟩
  · exact ⟨hc.1, fun hkey => ⟨h.past (hc.2 hkey).1, h.missed hsince (hc.2 hkey).2⟩⟩
  · exact ⟨hc.1, fun hkey => ⟨h.past (hc.2 hkey).1, h.missed hsince (hc.2 hkey).2⟩⟩
  · exact ⟨hc.1, h.past ∘ hc.2.1, h.later.imported hc.2.2⟩
  · exact ⟨hc.1, h.past ∘ hc.2.1, h.later.names hc.2.2⟩
  · exact trivial
  · exact ⟨h.later.answered hc.1, fun hkey n hn => h.told n (hc.2 hkey n hn)⟩

/-- What comes into the account is no message that a snapshot has to know. -/
theorem tells_add {snapshot : Snapshot} {since : ℕ} {told : List ℕ} (held : Held) (place : ℕ)
    (hsince : since ≤ account.ever.length) (htold : ∀ n ∈ told, n < account.ever.length)
    (h : snapshot.Tells server account since told) :
    snapshot.Tells server (account.add held place) since told := by
  have hlater := account.later_add held place
  match snapshot with
  | .absent => exact h
  | .ready none => exact trivial
  | .ready (some keys) =>
    intro key hkey n hn hknown
    have hlt : n < account.ever.length := by
      obtain hlt | hmem := hknown
      · exact hlt.trans_le hsince
      · exact htold n hmem
    exact h key hkey n (hlater.visible hlt hn) hknown
  | .listing position page keys =>
    refine ⟨h.1, fun key hkey n hn hlt hreached => ?_⟩
    have hold := hlt.trans_le hsince
    refine h.2 key hkey n (hlater.visible hold hn) hlt ?_
    cases page with
    | none => exact mem_take_insert hold.ne hreached
    | some ids =>
      obtain hshort | hmem := hreached
      · exact .inl hshort
      · exact .inr (mem_take_insert hold.ne hmem)

/-- Where no listing is under way, a message that goes was known or not. -/
theorem tells_remove {snapshot : Snapshot} {since : ℕ} {told : List ℕ} (n : ℕ) (hquiet : snapshot.isListing = false)
    (h : snapshot.Tells server account since told) :
    snapshot.Tells server (account.remove n) since told := by
  match snapshot, hquiet with
  | .absent, _ => exact h
  | .ready none, _ => exact trivial
  | .ready (some keys), _ =>
    intro key hkey m hm hknown
    exact h key hkey m ((account.later_remove n).visible hm.lt hm) hknown

theorem Shared.acted_frame (s : Shared) (acts : List Act) : s.Moved (s.acted acts) ∧
    (s.acted acts).snapshot = s.snapshot ∧ (s.acted acts).told = s.told ∧ (s.acted acts).connected = s.connected := by
  induction acts generalizing s with
  | nil => exact ⟨.refl _, rfl, rfl, rfl⟩
  | cons act acts ih =>
    have hone : s.Moved (s.act act) ∧ (s.act act).snapshot = s.snapshot ∧ (s.act act).told = s.told ∧
        (s.act act).connected = s.connected := by
      cases act with
      | deliver place held _ => exact ⟨⟨s.account.later_add held place, rfl, id, fun _ hn => hn⟩, rfl, rfl, rfl⟩
      | remove n => exact ⟨⟨s.account.later_remove n, rfl, id, fun _ hn => hn⟩, rfl, rfl, rfl⟩
    obtain ⟨hmoved, hsnapshot, htold, hconnected⟩ := ih (s.act act)
    exact ⟨hone.1.trans hmoved, hsnapshot.trans hone.2.1, htold.trans hone.2.2.1, hconnected.trans hone.2.2.2⟩

theorem Shared.Sound.act {act : Act} (h : s.Sound server) (hact : s.snapshot.isListing = true → act.delivers = true) :
    (s.act act).Sound server := by
  cases act with
  | deliver place held _ =>
    have hlater := s.account.later_add held place
    exact ⟨h.since.trans hlater.ever.length_le, fun n hn => (h.told n hn).trans_le hlater.ever.length_le,
      tells_add held place h.since h.told h.tells, fun k hk => hlater.names (h.names k hk)⟩
  | remove n =>
    have hquiet : s.snapshot.isListing = false := by
      cases hlisting : s.snapshot.isListing with
      | false => rfl
      | true => exact absurd (hact hlisting) Bool.false_ne_true
    exact ⟨h.since, h.told, tells_remove n hquiet h.tells,
      fun k hk => (s.account.later_remove n).names (h.names k hk)⟩

theorem Shared.Sound.acted {acts : List Act} (h : s.Sound server)
    (hacts : s.snapshot.isListing = true → acts.all Act.delivers = true) : (s.acted acts).Sound server := by
  induction acts generalizing s with
  | nil => exact h
  | cons act acts ih =>
    have hfirst : s.snapshot.isListing = true → act.delivers = true := fun hlisting => by
      have hall := hacts hlisting
      rw [List.all_cons, Bool.and_eq_true] at hall
      exact hall.1
    refine ih (h.act hfirst) fun hlisting => ?_
    have hsame : (s.act act).snapshot = s.snapshot := (s.acted_frame [act]).2.1
    have hall := hacts (hsame ▸ hlisting)
    rw [List.all_cons, Bool.and_eq_true] at hall
    exact hall.2

end Moved

section Listing

variable {server : Server} {account : Account} {s : Shared} {key targetId : List Char}
  {keys keys' : List (List Char × List Char)}

theorem mem_emails {numbers : List ℕ} {email : Email} : email ∈ account.emails server numbers ↔
    ∃ n ∈ numbers, ∃ held, account.ever[n]? = some held ∧ held.email server n = email := by
  simp only [Account.emails, List.mem_filterMap, Option.map_eq_some_iff]

theorem setKey_names {entry : TargetEntry} (hkeys : ∀ k ∈ keys, account.Names server k.1 k.2)
    (hentry : account.Names server entry.naturalKey entry.targetId) :
    ∀ k ∈ setKey keys entry, account.Names server k.1 k.2 := by
  intro k hk
  rw [setKey] at hk
  split at hk
  · obtain ⟨k', hk', rfl⟩ := List.mem_map.mp hk
    split
    · rename_i hsame
      rwa [hsame]
    · exact hkeys k' hk'
  · obtain hk | hk := List.mem_append.mp hk
    · exact hkeys k hk
    · obtain rfl := List.mem_singleton.mp hk
      exact hentry

theorem addEntries_names {entries : List TargetEntry} (hkeys : ∀ k ∈ keys, account.Names server k.1 k.2)
    (hentries : ∀ e ∈ entries, account.Names server e.naturalKey e.targetId)
    (h : addEntries keys entries = some keys') : ∀ k ∈ keys', account.Names server k.1 k.2 := by
  induction entries generalizing keys with
  | nil =>
    cases h
    exact hkeys
  | cons entry entries ih =>
    rw [addEntries, List.foldlM_cons] at h
    obtain ⟨next, hnext, h⟩ := Option.bind_eq_some_iff.mp h
    dsimp only at hnext
    split at hnext
    · cases hnext
    · obtain rfl := Option.some.inj hnext
      exact ih (setKey_names hkeys (hentries entry List.mem_cons_self))
        (fun e he => hentries e (List.mem_cons_of_mem _ he)) h

/-- Whatever the pages hold is an entry of a message that is there. -/
theorem get_names {ids : List (List Char)} {entry : TargetEntry}
    (h : entry ∈ (account.get server ids).filterMap (entryOf [])) :
    account.Names server entry.naturalKey entry.targetId := by
  obtain ⟨email, hemail, hentry⟩ := List.mem_filterMap.mp h
  have hlisted := (List.mem_filter.mp ((server.arranges _).mem_iff.mp hemail)).1
  obtain ⟨n, -, held, hget, rfl⟩ := mem_emails.mp hlisted
  rw [entryOf] at hentry
  split at hentry
  · cases hentry
  · rename_i hkey
    split at hentry
    · cases hentry
    · obtain rfl := Option.some.inj hentry
      exact ⟨n, held, hget, rfl, fun _ => server.exact held.headers hkey⟩

theorem mem_get {ids : List (List Char)} {n : ℕ} (hkey : key ≠ []) (hn : account.Visible key n)
    (hid : server.name n ∈ ids) :
    ∃ entry ∈ (account.get server ids).filterMap (entryOf []), entry.naturalKey = key := by
  obtain ⟨hlisted, held, hget, rfl, hfiled⟩ := hn
  have hmem : held.email server n ∈ account.get server ids := by
    refine (server.arranges _).mem_iff.mpr (List.mem_filter.mpr ⟨mem_emails.mpr ⟨n, hlisted, held, hget, rfl⟩, ?_⟩)
    exact List.contains_iff_mem.mpr hid
  have hbox : entryMailboxId [] (held.email server n) ≠ [] := by
    obtain ⟨box, boxes, hboxes⟩ := List.exists_cons_of_ne_nil hfiled
    rw [entryMailboxId, if_pos rfl, Held.email, hboxes, List.head?_cons, Option.map_some, Option.getD_some]
    exact box.2
  refine ⟨⟨messageId held.headers, server.name n, entryMailboxId [] (held.email server n), held.size⟩,
    List.mem_filterMap.mpr ⟨_, hmem, ?_⟩, rfl⟩
  rw [entryOf, if_neg (show messageId (held.email server n).headers ≠ [] from hkey), if_neg hbox]
  rfl

theorem search_some (h : (account.search server key).head? = some targetId) : account.Names server key targetId := by
  obtain ⟨email, hemail, rfl⟩ := List.mem_map.mp (List.mem_of_mem_head? h)
  obtain ⟨hlisted, hmentions⟩ := List.mem_filter.mp hemail
  obtain ⟨n, -, held, hget, rfl⟩ := mem_emails.mp hlisted
  exact ⟨n, held, hget, rfl, fun _ => hmentions⟩

theorem search_none (h : (account.search server key).head? = none) (hkey : key ≠ []) (n : ℕ) :
    ¬ account.Visible key n := by
  rintro ⟨hlisted, held, hget, rfl, -⟩
  have hnone : account.search server (messageId held.headers) = [] := List.head?_eq_none_iff.mp h
  have hmem : (held.email server n).id ∈ account.search server (messageId held.headers) :=
    List.mem_map_of_mem (List.mem_filter.mpr ⟨mem_emails.mpr ⟨n, hlisted, held, hget, rfl⟩, server.exact _ hkey⟩)
  rw [hnone] at hmem
  cases hmem

theorem twin_names {c : Call} (h : account.twin server c.raw = some targetId) (hreads : ReadsBack server c.raw) :
    account.Names server c.key targetId := by
  obtain ⟨email, hfind, rfl⟩ := Option.map_eq_some_iff.mp h
  have hsame := List.find?_some hfind
  obtain ⟨n, -, held, hget, rfl⟩ := mem_emails.mp (List.mem_of_find?_eq_some hfind)
  refine ⟨n, held, hget, rfl, fun hkey => ?_⟩
  have hid : messageId held.headers = c.key := (server.same_messageId _ _ hsame).trans (hreads hkey)
  rw [← hid]
  apply server.exact
  rwa [hid]

theorem Shared.Sound.list {position : ℕ} {page : Option (List (List Char))} (h : s.Sound server)
    (hsnapshot : s.snapshot = .listing position page keys) (hlimit : LIMIT ≤ server.maxLimit) (reply : Reply) :
    ({ s with snapshot := s.list server reply position page keys } : Shared).Sound server := by
  have htells := h.tells
  have hnames := h.names
  rw [hsnapshot] at htells hnames
  obtain ⟨htold, hcovers⟩ := htells
  unfold Shared.list
  split
  · dsimp only
    split
    · rename_i hids
      refine ⟨h.since, h.told, fun key hkey n hn hknown => ?_, hnames⟩
      have hlt : n < s.since := by
        obtain hlt | hmem := hknown
        · exact hlt
        · rw [htold] at hmem
          cases hmem
      -- an empty page: all that is listed stands before the position
      have hreached : n ∈ s.account.listed.take position := by
        have hempty : (s.account.listed.drop position).take (min LIMIT server.maxLimit) = [] :=
          List.map_eq_nil_iff.mp hids
        rw [min_eq_left hlimit, List.take_eq_nil_iff] at hempty
        have hshort : s.account.listed.length ≤ position := by
          obtain hzero | hnil := hempty
          · cases hzero
          · exact List.drop_eq_nil_iff.mp hnil
        rw [List.take_of_length_le hshort]
        exact hn.1
      obtain hmem | hmem := hcovers key hkey n hn hlt hreached
      · exact hmem
      · cases hmem
    · refine ⟨h.since, h.told, ⟨htold, fun key hkey n hn hlt hreached => ?_⟩, hnames⟩
      have hlisted := hn.1
      rw [← List.take_append_drop position s.account.listed, List.mem_append] at hlisted
      obtain hbefore | hafter := hlisted
      · obtain hmem | hmem := hcovers key hkey n hn hlt hbefore
        · exact .inl hmem
        · cases hmem
      · refine .inr (List.mem_map_of_mem ?_)
        rw [min_eq_left hlimit]
        have hall : (s.account.query server position).length < LIMIT ∨ n ∈ s.account.listed.take (position + LIMIT) :=
          hreached
        rw [Account.query, List.length_map, List.length_take, min_eq_left hlimit] at hall
        obtain hshort | htake := hall
        · rwa [List.take_of_length_le (by omega)]
        · rw [List.take_add, List.mem_append] at htake
          obtain hfront | hpage := htake
          · have hdisjoint : s.account.listed.Nodup := s.account.nodup
            rw [← List.take_append_drop position s.account.listed, List.nodup_append] at hdisjoint
            exact absurd rfl (hdisjoint.2.2 n hfront n hafter)
          · exact hpage
  · rename_i ids
    split
    · exact ⟨h.since, h.told, trivial, fun k hk => by cases hk⟩
    · rename_i keys' hadd
      obtain ⟨hkeep, hall⟩ := snapshot_keys hadd
      have hnames' := addEntries_names hnames (fun e he => get_names he) hadd
      have hcovered : ∀ key ≠ [], ∀ n, s.account.Visible key n → n < s.since →
          s.account.Reached position (some ids) n → key ∈ keys'.map Prod.fst := by
        intro key hkey n hn hlt hreached
        obtain hmem | hmem := hcovers key hkey n hn hlt hreached
        · exact hkeep hmem
        · obtain ⟨entry, hentry, rfl⟩ := mem_get hkey hn hmem
          exact hall entry hentry
      split
      · rename_i hshort
        refine ⟨h.since, h.told, fun key hkey n hn hknown => ?_, hnames'⟩
        obtain hlt | hmem := hknown
        · exact hcovered key hkey n hn hlt (.inl hshort)
        · rw [htold] at hmem
          cases hmem
      · refine ⟨h.since, h.told, ⟨htold, fun key hkey n hn hlt hreached => ?_⟩, hnames'⟩
        exact .inl (hcovered key hkey n hn hlt (.inr hreached))
  · exact ⟨h.since, h.told, trivial, fun k hk => by cases hk⟩

end Listing

section Advance

variable {server : Server} {s s' : Shared} {c c' : Call}

/-- What one turn of a call does to the shared state and to the call. -/
structure Kept (server : Server) (s : Shared) (c : Call) (s' : Shared) (c' : Call) : Prop where
  moved : s.Moved s'
  sound : s'.Sound server
  standing : c'.Standing server s'
  raw : c'.raw = c.raw
  wrote : s'.account = s.account ∧ (∀ n, c.made = some n → c'.made = some n) ∨
    ∃ held place o, s'.account = s.account.add held place ∧ c.made = none ∧
      c'.made = some s.account.ever.length ∧ held.origin = some o ∧ o.key = c.key ∧ o.since = s.since ∧
      (o.key ≠ [] → messageId held.headers = o.key ∧ held.mailboxIds ≠ [] ∧ s.Missed o.key o.told)

theorem Kept.to {stage : Stage} (h : s.Sound server) (hstanding : (c.to stage).Standing server s) :
    Kept server s c s (c.to stage) :=
  ⟨.refl s, h, hstanding, rfl, .inl ⟨rfl, fun _ hn => hn⟩⟩

theorem Kept.snapshot {snapshot : Snapshot} (h : ({ s with snapshot := snapshot } : Shared).Sound server)
    (hpast : ∀ keys, s.snapshot ≠ .ready keys) (hc : c.Standing server s) (hstage : c.stage = .snapshotting) :
    Kept server s c { s with snapshot := snapshot } c where
  moved := ⟨.refl _, rfl, fun ⟨keys, hkeys⟩ => absurd hkeys (hpast keys), fun _ hn => hn⟩
  sound := h
  standing := by
    unfold Call.Standing at hc ⊢
    rw [hstage] at hc ⊢
    exact hc
  raw := rfl
  wrote := .inl ⟨rfl, fun _ hn => hn⟩

theorem Kept.create (h : s.Sound server) (hreads : ReadsBack server c.raw) {told : List ℕ} (place : ℕ)
    (hmade : c.made = none) (hmissed : c.key ≠ [] → s.Past ∧ s.Missed c.key told) :
    Kept server s c (s.create server c told place).1 (s.create server c told place).2 := by
  have hlater := s.account.later_add ⟨[c.mailboxId], server.reads c.raw, some c.raw.length, some
    ⟨c.key, s.since, told⟩⟩ place
  refine ⟨⟨hlater, rfl, id, fun _ hn => hn⟩, ?_, ?_, rfl, .inr ⟨_, place, _, rfl, hmade, rfl, rfl, rfl, rfl, ?_⟩⟩
  · exact ⟨h.since.trans hlater.ever.length_le, fun n hn => (h.told n hn).trans_le hlater.ever.length_le,
      tells_add _ place h.since h.told h.tells, fun k hk => hlater.names (h.names k hk)⟩
  · exact ⟨rfl, fun hkey => (hmissed hkey).1,
      ⟨_, Account.add_get_new, ⟨_, rfl, rfl⟩, fun hkey => hreads hkey⟩⟩
  · exact fun hkey => ⟨hreads hkey, List.cons_ne_nil _ _, (hmissed hkey).2⟩

/-- The snapshot learns a key, and what the writer is told of is a message under it. -/
theorem Shared.Sound.note {targetId : List Char} {told : List ℕ} (h : s.Sound server)
    (hpast : c.key ≠ [] → s.Past) (hnames : s.account.Names server c.key targetId)
    (htold : ∀ n ∈ told, n ∈ s.told ∨ c.key ≠ [] ∧ s.account.Imported c.key n) :
    ({ s.note c targetId with told := told } : Shared).Sound server := by
  have hbounded : ∀ n ∈ told, n < s.account.ever.length := by
    intro n hn
    obtain hmem | ⟨-, himported⟩ := htold n hn
    · exact h.told n hmem
    · obtain ⟨held, hget, -⟩ := himported.held
      exact (List.getElem?_eq_some_iff.mp hget).1
  by_cases hkey : c.key = []
  · have hsame : s.note c targetId = s := if_pos hkey
    have hsub : ∀ n ∈ told, n ∈ s.told := fun n hn => (htold n hn).resolve_right fun hnew => hnew.1 hkey
    rw [hsame]
    refine ⟨h.since, hbounded, ?_, h.names⟩
    have htells := h.tells
    cases hsnapshot : s.snapshot with
    | absent =>
      rw [hsnapshot] at htells
      exact List.eq_nil_iff_forall_not_mem.mpr fun n hn => by
        have hnone := hsub n hn
        rw [show s.told = [] from htells] at hnone
        cases hnone
    | listing position page keys =>
      rw [hsnapshot] at htells
      refine ⟨List.eq_nil_iff_forall_not_mem.mpr fun n hn => ?_, htells.2⟩
      have hnone := hsub n hn
      rw [htells.1] at hnone
      cases hnone
    | ready keys =>
      rw [hsnapshot] at htells
      cases keys with
      | none => exact trivial
      | some keys => exact fun key hne n hn hknown => htells key hne n hn (hknown.imp id (hsub n))
  · obtain ⟨keys, hsnapshot⟩ := hpast hkey
    have hnote : s.note c targetId = { s with snapshot := s.snapshot.set c.key targetId } := if_neg hkey
    have htells := h.tells
    have hsound := h.names
    rw [hsnapshot] at htells hsound
    rw [hnote, hsnapshot]
    cases keys with
    | none => exact ⟨h.since, hbounded, trivial, fun k hk => by cases hk⟩
    | some keys =>
      obtain ⟨hkeep, hnew⟩ := mem_setKey keys ⟨c.key, targetId, [], none⟩
      refine ⟨h.since, hbounded, ?_, setKey_names hsound hnames⟩
      intro key hne n hn hknown
      have hcase : n < s.since ∨ n ∈ s.told ∨ s.account.Imported c.key n := by
        obtain hlt | hmem := hknown
        · exact .inl hlt
        · exact .inr ((htold n hmem).imp id fun hnew => hnew.2)
      obtain hlt | hmem | himported := hcase
      · exact hkeep (htells key hne n hn (.inl hlt))
      · exact hkeep (htells key hne n hn (.inr hmem))
      · obtain ⟨held, hget, -, hid⟩ := himported.held
        obtain ⟨-, held', hget', rfl, -⟩ := hn
        obtain rfl : held = held' := Option.some.inj (hget.symm.trans hget')
        rw [hid hkey]
        exact hnew

theorem note_moved {targetId : List Char} {told : List ℕ} (htold : ∀ n ∈ s.told, n ∈ told) :
    s.Moved { s.note c targetId with told := told } := by
  refine ⟨?_, ?_, ?_, htold⟩
  all_goals unfold Shared.note
  · split <;> exact .refl _
  · split <;> rfl
  · rintro ⟨keys, hkeys⟩
    split
    · exact ⟨keys, hkeys⟩
    · cases keys with
      | none => exact ⟨none, by rw [hkeys]; rfl⟩
      | some keys => exact ⟨some _, by rw [hkeys]; rfl⟩

theorem note_account {targetId : List Char} : (s.note c targetId).account = s.account := by
  unfold Shared.note
  split <;> rfl

theorem Shared.Past.missed (hpast : s.Past) (h : s.Sound server)
    (hmissed : ∀ n, s.account.Visible c.key n → s.since ≤ n ∧ n ∉ s.told) : s.Past ∧ s.Missed c.key s.told :=
  ⟨hpast, h.told, hmissed⟩

/-- The call has an id of a message with its Message-ID, and says so. -/
theorem give_standing {targetId : List Char} (hmade : c.made = none) (hnames : s.account.Names server c.key targetId) :
    (c.give targetId false true).Standing server s := by
  obtain ⟨n, held, hget, rfl, hmentions⟩ := hnames
  refine ⟨⟨rfl, n, held, hget, rfl, hmentions, hmade, fun hfalse => by cases hfalse⟩, fun _ m hm => ?_⟩
  rw [show (c.give (server.name n) false true).made = none from hmade] at hm
  cases hm

theorem advance_snapshotting (h : s.Sound server) (hc : c.Standing server s) (hstage : c.stage = .snapshotting)
    (hlimit : LIMIT ≤ server.maxLimit) (reply : Reply) (place : ℕ) :
    Kept server s c (advance server s c reply place).1 (advance server s c reply place).2 := by
  have hself : c.key ≠ [] ∧ c.made = none := by
    rw [Call.Standing, hstage] at hc
    exact hc
  obtain ⟨hkey, hmade⟩ := hself
  unfold advance
  rw [hstage]
  dsimp only
  split
  · rename_i hsnapshot
    have htells := h.tells
    rw [hsnapshot] at htells
    apply Kept.snapshot _ (fun keys hkeys => by rw [hsnapshot] at hkeys; cases hkeys) hc hstage
    refine ⟨h.since, h.told, ⟨htells, fun key _ n _ _ hreached => ?_⟩, fun k hk => by cases hk⟩
    rw [Account.Reached, List.take_zero] at hreached
    cases hreached
  · rename_i hsnapshot
    exact Kept.snapshot (h.list hsnapshot hlimit reply)
      (fun keys hkeys => by rw [hsnapshot] at hkeys; cases hkeys) hc hstage
  · rename_i hsnapshot
    exact Kept.to h ⟨hkey, ⟨none, hsnapshot⟩, hmade⟩
  · rename_i keys hsnapshot
    have htells := h.tells
    have hnames := h.names
    rw [hsnapshot] at htells hnames
    split
    · rename_i existingId hlookup
      obtain ⟨before, after, hkeys, -⟩ := List.lookup_eq_some_iff.mp hlookup
      have hmem : (c.key, existingId) ∈ keys := by
        rw [hkeys]
        exact List.mem_append_right _ List.mem_cons_self
      exact Kept.to h (give_standing hmade (hnames _ hmem))
    · rename_i hlookup
      refine Kept.to h ⟨hmade, fun _ => Shared.Past.missed ⟨_, hsnapshot⟩ h fun n hn => ?_⟩
      by_contra hknown
      have hmem : c.key ∈ keys.map Prod.fst := by
        apply htells c.key hkey n hn
        by_cases hlt : n < s.since
        · exact .inl hlt
        · exact .inr (by_contra fun hnot => hknown ⟨not_lt.mp hlt, hnot⟩)
      obtain ⟨k, hk, hsame⟩ := List.mem_map.mp hmem
      have hdiffers := List.lookup_eq_none_iff.mp hlookup k hk
      rw [hsame, bne_self_eq_false] at hdiffers
      cases hdiffers

theorem advance_importing {told : List ℕ} (h : s.Sound server) (hreads : ReadsBack server c.raw)
    (hc : c.Standing server s) (hstage : c.stage = .importing told) (reply : Reply) (place : ℕ) :
    Kept server s c (advance server s c reply place).1 (advance server s c reply place).2 := by
  have hself : c.made = none ∧ (c.key ≠ [] → s.Past ∧ s.Missed c.key told) := by
    rw [Call.Standing, hstage] at hc
    exact hc
  obtain ⟨hmade, hmissed⟩ := hself
  unfold advance
  rw [hstage]
  cases reply with
  | done => exact Kept.create h hreads place hmade hmissed
  | lost message => exact Kept.create h hreads place hmade hmissed
  | failed message => exact Kept.to h trivial
  | notCreated type description => exact Kept.to h trivial
  | alreadyExists description shown =>
    dsimp only
    split
    · exact Kept.create h hreads place hmade hmissed
    · rename_i existingId htwin
      split
      · exact Kept.to h ⟨hmade, fun hkey => (hmissed hkey).1, twin_names htwin hreads⟩
      · split
        · exact Kept.to h trivial
        · rename_i hkey
          exact Kept.to h ⟨hkey, (hmissed hkey).1, hmade⟩

theorem advance_imported {n : ℕ} (h : s.Sound server) (hc : c.Standing server s) (hstage : c.stage = .imported n)
    (reply : Reply) (place : ℕ) :
    Kept server s c (advance server s c reply place).1 (advance server s c reply place).2 := by
  have hself : c.made = some n ∧ (c.key ≠ [] → s.Past) ∧ s.account.Imported c.key n := by
    rw [Call.Standing, hstage] at hc
    exact hc
  obtain ⟨hmade, hpast, himported⟩ := hself
  unfold advance
  rw [hstage]
  cases reply with
  | done =>
    obtain ⟨held, hget, horigin, hid⟩ := himported.held
    have hmentions : c.key ≠ [] → server.mentions held.headers c.key = true := by
      intro hkey
      rw [← hid hkey]
      apply server.exact
      rwa [hid hkey]
    have htold : ∀ m ∈ s.told, m ∈ if c.key = [] then s.told else n :: s.told := by
      intro m hm
      split
      · exact hm
      · exact List.mem_cons_of_mem _ hm
    refine ⟨note_moved htold, ?_, ?_, rfl, .inl ⟨note_account, fun _ hn => hn⟩⟩
    · refine h.note hpast ⟨n, held, hget, rfl, hmentions⟩ fun m hm => ?_
      split at hm
      · exact .inl hm
      · rename_i hkey
        obtain rfl | hm := List.mem_cons.mp hm
        · exact .inr ⟨hkey, himported⟩
        · exact .inl hm
    · have hget' : (s.note c (server.name n)).account.ever[n]? = some held := by rwa [note_account]
      refine ⟨⟨rfl, n, held, hget', rfl, hmentions, hmade, fun _ => horigin⟩, fun hkey m hm => ?_⟩
      obtain rfl : n = m := Option.some.inj (hmade.symm.trans hm)
      have hne : c.key ≠ [] := hkey
      dsimp only
      rw [if_neg hne]
      exact List.mem_cons_self
  | failed message => exact Kept.to h trivial
  | lost message => exact Kept.to h trivial
  | notCreated type description => exact Kept.to h trivial
  | alreadyExists description shown => exact Kept.to h trivial

theorem advance_kept (h : s.Sound server) (hreads : ReadsBack server c.raw) (hlimit : LIMIT ≤ server.maxLimit)
    (hc : c.Standing server s) (reply : Reply) (place : ℕ) :
    Kept server s c (advance server s c reply place).1 (advance server s c reply place).2 := by
  cases hstage : c.stage with
  | connecting =>
    have hmade : c.made = none := by
      rw [Call.Standing, hstage] at hc
      exact hc
    have hnext : (c.to (if c.key = [] then .uploading [] else .snapshotting)).Standing server s := by
      by_cases hkey : c.key = []
      · rw [if_pos hkey]
        exact ⟨hmade, fun hne => absurd hkey hne⟩
      · rw [if_neg hkey]
        exact ⟨hkey, hmade⟩
    unfold advance
    rw [hstage]
    dsimp only
    split
    · exact Kept.to h hnext
    · split
      · refine ⟨⟨.refl _, rfl, id, fun _ hn => hn⟩, ⟨h.since, h.told, h.tells, h.names⟩, ?_, rfl,
          .inl ⟨rfl, fun _ hn => hn⟩⟩
        exact Shared.Moved.standing (s := s) ⟨.refl _, rfl, id, fun _ hn => hn⟩ h.since hnext
      · exact Kept.to h trivial
  | snapshotting => exact advance_snapshotting h hc hstage hlimit reply place
  | querying =>
    have hself : c.key ≠ [] ∧ s.Past ∧ c.made = none := by
      rw [Call.Standing, hstage] at hc
      exact hc
    obtain ⟨hkey, hpast, hmade⟩ := hself
    unfold advance
    rw [hstage]
    dsimp only
    split
    · split
      · rename_i existingId hfound
        exact Kept.to h (give_standing hmade (search_some hfound))
      · rename_i hnone
        exact Kept.to h ⟨hmade, fun _ => hpast.missed h fun n hn => absurd hn (search_none hnone hkey n)⟩
    · exact Kept.to h trivial
  | uploading told =>
    have hself : c.made = none ∧ (c.key ≠ [] → s.Past ∧ s.Missed c.key told) := by
      rw [Call.Standing, hstage] at hc
      exact hc
    unfold advance
    rw [hstage]
    dsimp only
    split
    · exact Kept.to h hself
    · exact Kept.to h trivial
  | importing told => exact advance_importing h hreads hc hstage reply place
  | imported n => exact advance_imported h hc hstage reply place
  | recovering description =>
    have hself : c.key ≠ [] ∧ s.Past ∧ c.made = none := by
      rw [Call.Standing, hstage] at hc
      exact hc
    obtain ⟨hkey, hpast, hmade⟩ := hself
    unfold advance
    rw [hstage]
    dsimp only
    split
    · split
      · rename_i existingId hfound
        exact Kept.to h ⟨hmade, fun _ => hpast, search_some hfound⟩
      · exact Kept.to h trivial
    · exact Kept.to h trivial
  | adopting targetId =>
    have hself : c.made = none ∧ (c.key ≠ [] → s.Past) ∧ s.account.Names server c.key targetId := by
      rw [Call.Standing, hstage] at hc
      exact hc
    obtain ⟨hmade, hpast, hnames⟩ := hself
    have htold : (s.note c targetId).told = s.told := by
      unfold Shared.note
      split <;> rfl
    have hsame : s.note c targetId = { s.note c targetId with told := s.told } := by
      rw [← htold]
    unfold advance
    rw [hstage]
    dsimp only
    rw [hsame]
    refine ⟨note_moved fun _ hn => hn, h.note hpast hnames fun _ hn => .inl hn, ?_, rfl,
      .inl ⟨note_account, fun _ hn => hn⟩⟩
    have hmoved : s.Moved { s.note c targetId with told := s.told } := note_moved fun _ hn => hn
    apply hmoved.standing h.since
    exact give_standing hmade hnames
  | returned result =>
    unfold advance
    rw [hstage]
    exact ⟨.refl s, h, hc, rfl, .inl ⟨rfl, fun _ hn => hn⟩⟩

end Advance

section Run

variable {server : Server} {account account' : Account} {ps : List Pass} {p : Pass} {x : List Call × Shared}
  {held : Held} {key : List Char} {n place : ℕ}

/-- A message that was imported under its own Message-ID, into a mailbox. -/
def Account.Owned (account : Account) : Prop :=
  ∀ (n : ℕ) (h : Held) (o : Origin), account.ever[n]? = some h → h.origin = some o → o.key ≠ [] →
    messageId h.headers = o.key ∧ h.mailboxIds ≠ []

/-- Where two of the imports have one Message-ID and the first is there, a pass had it twice. -/
def Account.Blamed (account : Account) (below : ℕ) (ps : List Pass) : Prop :=
  ∀ n < below, ∀ h o, account.ever[n]? = some h → h.origin = some o → o.key ≠ [] →
    ∀ m < n, account.Visible o.key m → account.ours o.key m = true → ∃ q ∈ ps, ¬ q.distinct

structure Account.Settled (account : Account) (ps : List Pass) : Prop where
  blind : account.Blind
  owned : account.Owned
  blamed : account.Blamed account.ever.length ps

structure Running (server : Server) (ps : List Pass) (p : Pass) (x : List Call × Shared) : Prop where
  sound : x.2.Sound server
  standing : ∀ c ∈ x.1, c.Standing server x.2
  asked : x.1.map Call.raw = p.asked.map Prod.snd
  blind : x.2.account.Blind
  owned : x.2.account.Owned
  blamed : x.2.account.Blamed x.2.since ps
  made : ∀ (n : ℕ) (h : Held) (o : Origin), x.2.since ≤ n → x.2.account.ever[n]? = some h → h.origin = some o →
    o.since = x.2.since ∧ ∃ (i : ℕ) (c : Call), x.1[i]? = some c ∧ c.made = some n ∧ c.key = o.key

theorem ours_iff : account.ours key n = true ↔
    ∃ h o, account.ever[n]? = some h ∧ h.origin = some o ∧ o.key = key := by
  rw [Account.ours, Option.any_eq_true]
  constructor
  · rintro ⟨o, ho, hkey⟩
    obtain ⟨h, hget, horigin⟩ := Option.bind_eq_some_iff.mp ho
    exact ⟨h, o, hget, horigin, of_decide_eq_true hkey⟩
  · rintro ⟨h, o, hget, horigin, hkey⟩
    exact ⟨o, Option.bind_eq_some_iff.mpr ⟨h, hget, horigin⟩, decide_eq_true hkey⟩

theorem Account.Later.ours (h : account.Later account') (hlt : n < account.ever.length)
    (hn : account'.ours key n = true) : account.ours key n = true := by
  obtain ⟨held, o, hget, ho⟩ := ours_iff.mp hn
  exact ours_iff.mpr ⟨held, o, h.get_old hlt hget, ho⟩

theorem Account.Later.blamed {below : ℕ} (h : account.Later account') (hbelow : below ≤ account.ever.length)
    (hblamed : account.Blamed below ps) : account'.Blamed below ps := by
  intro n hn held o hget horigin hkey m hm hvisible hours
  have hlt := hn.trans_le hbelow
  exact hblamed n hn held o (h.get_old hlt hget) horigin hkey m hm (h.visible (hm.trans hlt) hvisible)
    (h.ours (hm.trans hlt) hours)

theorem Account.Blind.remove (h : account.Blind) (n : ℕ) : (account.remove n).Blind :=
  fun m held o hget horigin hkey k hk hvisible =>
    h m held o hget horigin hkey k hk ((account.later_remove n).visible hvisible.lt hvisible)

theorem Account.Blind.add (h : account.Blind)
    (hheld : ∀ o, held.origin = some o → o.key ≠ [] → ∀ m, account.Visible o.key m → o.since ≤ m ∧ m ∉ o.told) :
    (account.add held place).Blind := by
  intro n held' o hget horigin hkey m hm hvisible
  have hlater := account.later_add held place
  obtain hlt | rfl := Account.add_cases (List.getElem?_eq_some_iff.mp hget).1
  · exact h n held' o (hlater.get_old hlt hget) horigin hkey m hm (hlater.visible (hm.trans hlt) hvisible)
  · obtain rfl : held = held' := Option.some.inj (Account.add_get_new.symm.trans hget)
    exact hheld o horigin hkey m (hlater.visible hm hvisible)

theorem Account.Owned.add (h : account.Owned)
    (hheld : ∀ o, held.origin = some o → o.key ≠ [] → messageId held.headers = o.key ∧ held.mailboxIds ≠ []) :
    (account.add held place).Owned := by
  intro n held' o hget horigin hkey
  obtain hlt | rfl := Account.add_cases (List.getElem?_eq_some_iff.mp hget).1
  · exact h n held' o ((account.later_add held place).get_old hlt hget) horigin hkey
  · obtain rfl : held = held' := Option.some.inj (Account.add_get_new.symm.trans hget)
    exact hheld o horigin hkey

theorem Running.act {calls : List Call} {s : Shared} {act : Act} (h : Running server ps p (calls, s))
    (hact : s.snapshot.isListing = true → act.delivers = true) : Running server ps p (calls, s.act act) := by
  have hmoved : s.Moved (s.act act) := (s.acted_frame [act]).1
  refine ⟨h.sound.act hact, fun c hc => hmoved.standing h.sound.since (h.standing c hc), h.asked, ?_, ?_,
    ?_, ?_⟩
  · cases act with
    | deliver place held hforeign =>
      exact h.blind.add fun o ho => by
        rw [hforeign] at ho
        cases ho
    | remove n => exact h.blind.remove n
  · cases act with
    | deliver place held hforeign =>
      exact h.owned.add fun o ho => by
        rw [hforeign] at ho
        cases ho
    | remove n => exact h.owned
  · rw [hmoved.since]
    exact hmoved.later.blamed h.sound.since h.blamed
  · intro n held o hn hget horigin
    rw [hmoved.since] at hn ⊢
    cases act with
    | deliver place new hforeign =>
      obtain hlt | rfl := Account.add_cases (List.getElem?_eq_some_iff.mp hget).1
      · exact h.made n held o hn ((s.account.later_add new place).get_old hlt hget) horigin
      · obtain rfl : new = held := Option.some.inj (Account.add_get_new.symm.trans hget)
        rw [hforeign] at horigin
        cases horigin
    | remove m => exact h.made n held o hn hget horigin

theorem Running.acted {calls : List Call} {s : Shared} {acts : List Act} (h : Running server ps p (calls, s))
    (hacts : s.snapshot.isListing = true → acts.all Act.delivers = true) :
    Running server ps p (calls, s.acted acts) := by
  induction acts generalizing s with
  | nil => exact h
  | cons act acts ih =>
    have hall : s.snapshot.isListing = true → act.delivers = true ∧ acts.all Act.delivers = true := fun hlisting => by
      have hboth := hacts hlisting
      rwa [List.all_cons, Bool.and_eq_true] at hboth
    have hsame : (s.act act).snapshot = s.snapshot := (s.acted_frame [act]).2.1
    exact ih (h.act fun hlisting => (hall hlisting).1) fun hlisting => (hall (hsame ▸ hlisting)).2

theorem Running.kept {calls : List Call} {s s' : Shared} {c c' : Call} {j : ℕ} (h : Running server ps p (calls, s))
    (hj : calls[j]? = some c) (hkept : Kept server s c s' c') : Running server ps p (calls.set j c', s') := by
  have hlater := hkept.moved.later
  have hcalls : ∀ (i : ℕ) (d : Call), calls[i]? = some d → ∃ d' : Call, (calls.set j c')[i]? = some d' ∧ d'.raw =
    d.raw ∧
      ∀ n, d.made = some n → d'.made = some n := by
    intro i d hd
    by_cases hij : j = i
    · subst hij
      obtain rfl : c = d := Option.some.inj (hj.symm.trans hd)
      refine ⟨c', List.getElem?_set_self (List.getElem?_eq_some_iff.mp hj).1, hkept.raw, fun n hn => ?_⟩
      obtain ⟨-, hmade⟩ | ⟨_, _, _, -, hnone, -⟩ := hkept.wrote
      · exact hmade n hn
      · rw [hnone] at hn
        cases hn
    · exact ⟨d, by rw [List.getElem?_set_ne hij, hd], rfl, fun _ hn => hn⟩
  refine ⟨hkept.sound, ?_, ?_, ?_, ?_, ?_, ?_⟩
  · intro d hd
    obtain hd | rfl := List.mem_or_eq_of_mem_set hd
    · exact hkept.moved.standing h.sound.since (h.standing d hd)
    · exact hkept.standing
  · rw [← h.asked]
    apply List.ext_getElem?
    intro i
    rw [List.getElem?_map, List.getElem?_map]
    by_cases hij : j = i
    · subst hij
      rw [hj, List.getElem?_set_self (List.getElem?_eq_some_iff.mp hj).1, Option.map_some, Option.map_some, hkept.raw]
    · rw [List.getElem?_set_ne hij]
  · obtain ⟨haccount, -⟩ | ⟨held, place, o, haccount, -, -, horigin, -, hsince, hmissed⟩ := hkept.wrote
    · exact haccount ▸ h.blind
    · change s'.account.Blind
      rw [haccount]
      refine h.blind.add fun o' ho' hne m hm => ?_
      obtain rfl : o = o' := Option.some.inj (horigin.symm.trans ho')
      rw [hsince]
      exact (hmissed hne).2.2.missed m hm
  · obtain ⟨haccount, -⟩ | ⟨held, place, o, haccount, -, -, horigin, hkey, -, hmissed⟩ := hkept.wrote
    · exact haccount ▸ h.owned
    · change s'.account.Owned
      rw [haccount]
      refine h.owned.add fun o' ho' hne => ?_
      obtain rfl : o = o' := Option.some.inj (horigin.symm.trans ho')
      exact ⟨(hmissed hne).1, (hmissed hne).2.1⟩
  · change s'.account.Blamed s'.since ps
    rw [hkept.moved.since]
    exact hlater.blamed h.sound.since h.blamed
  · intro n held o hn hget horigin
    dsimp only at hn hget ⊢
    rw [hkept.moved.since] at hn ⊢
    have hold : ∀ held, s.account.ever[n]? = some held → held.origin = some o →
        o.since = s.since ∧ ∃ (i : ℕ) (d : Call), (calls.set j c')[i]? = some d ∧ d.made = some n ∧ d.key = o.key := by
      intro held hget horigin
      obtain ⟨hsince, i, d, hd, hmade, hkey⟩ := h.made n held o hn hget horigin
      obtain ⟨d', hd', hraw, hkeeps⟩ := hcalls i d hd
      refine ⟨hsince, i, d', hd', hkeeps n hmade, ?_⟩
      rw [← hkey, Call.key, hraw, Call.key]
    obtain ⟨haccount, -⟩ | ⟨new, place, o', haccount, -, hmade, horigin', hkey, hsince, -⟩ := hkept.wrote
    · rw [haccount] at hget
      exact hold held hget horigin
    · rw [haccount] at hget
      obtain hlt | rfl := Account.add_cases (List.getElem?_eq_some_iff.mp hget).1
      · exact hold held ((s.account.later_add new place).get_old hlt hget) horigin
      · obtain rfl : new = held := Option.some.inj (Account.add_get_new.symm.trans hget)
        obtain rfl : o' = o := Option.some.inj (horigin'.symm.trans horigin)
        refine ⟨hsince, j, c', List.getElem?_set_self (List.getElem?_eq_some_iff.mp hj).1, hmade, ?_⟩
        rw [hkey, Call.key, hkept.raw, Call.key]

theorem Running.apart (h : Running server ps p x) (hdistinct : p.distinct) {i i' : ℕ} {c c' : Call}
    (hc : x.1[i]? = some c) (hc' : x.1[i']? = some c') (hkey : c.key ≠ []) (hsame : c.key = c'.key) : i = i' := by
  have hget : ∀ {k : ℕ} {d : Call}, x.1[k]? = some d → ∃ a, p.asked[k]? = some a ∧ keyOf a.2 = d.key := by
    intro k d hd
    have hraw := congrArg (·[k]?) h.asked
    simp only [List.getElem?_map, hd, Option.map_some] at hraw
    obtain ⟨a, ha, hraw⟩ := Option.map_eq_some_iff.mp hraw.symm
    exact ⟨a, ha, congrArg keyOf hraw⟩
  obtain ⟨a, ha, hakey⟩ := hget hc
  obtain ⟨a', ha', hakey'⟩ := hget hc'
  obtain ⟨hi, rfl⟩ := List.getElem?_eq_some_iff.mp ha
  obtain ⟨hi', rfl⟩ := List.getElem?_eq_some_iff.mp ha'
  have hpairs := List.pairwise_iff_getElem.mp hdistinct
  have hequal : keyOf p.asked[i].2 = keyOf p.asked[i'].2 := hakey.trans (hsame.trans hakey'.symm)
  obtain hlt | heq | hgt := lt_trichotomy i i'
  · exact absurd hequal (hpairs i i' hi hi' hlt (hakey ▸ hkey))
  · exact heq
  · exact absurd hequal.symm (hpairs i' i hi' hi hgt (hakey' ▸ hsame ▸ hkey))

/-- What two imports under one Message-ID have in common: a pass that asked for it twice. -/
theorem Running.settled (h : Running server ps p x) : x.2.account.Settled (ps ++ [p]) where
  blind := h.blind
  owned := h.owned
  blamed := by
    intro n hn held o hget horigin hkey m hm hvisible hours
    obtain hlt | hge := lt_or_ge n x.2.since
    · obtain ⟨q, hq, hdistinct⟩ := h.blamed n hlt held o hget horigin hkey m hm hvisible hours
      exact ⟨q, List.mem_append_left _ hq, hdistinct⟩
    · refine ⟨p, List.mem_append_right _ List.mem_cons_self, fun hdistinct => ?_⟩
      obtain ⟨hsince, i, c, hc, hmade, hname⟩ := h.made n held o hge hget horigin
      obtain ⟨held', o', hget', horigin', hkey'⟩ := ours_iff.mp hours
      have hrecent : x.2.since ≤ m := hsince ▸ (h.blind n held o hget horigin hkey m hm hvisible).1
      obtain ⟨-, i', c', hc', hmade', hname'⟩ := h.made m held' o' hrecent hget' horigin'
      have hne : i ≠ i' := by
        rintro rfl
        obtain rfl : c = c' := Option.some.inj (hc.symm.trans hc')
        exact hm.ne (Option.some.inj (hmade'.symm.trans hmade))
      exact hne (h.apart hdistinct hc hc' (hname ▸ hkey) (hname.trans (hkey'.symm.trans hname'.symm)))

theorem Running.turns (hlimit : LIMIT ≤ server.maxLimit) (hreads : ∀ a ∈ p.asked, ReadsBack server a.2)
    (h : Running server ps p x) {chs : List (ℕ × Input)} (hsteady : EveryTurn (step server) Steady x chs) :
    Running server ps p (turns (step server) x chs) := by
  have hstep : ∀ x (ch : ℕ × Input) c, Running server ps p x → x.1[ch.1]? = some c → Steady x.2 c ch.2 →
      Running server ps p (turn (step server) x ch) := by
    rintro ⟨calls, s⟩ ⟨j, i⟩ c hrunning hc hgood
    have hacted := hrunning.acted hgood
    have hmem : c.raw ∈ p.asked.map Prod.snd := by
      rw [← hrunning.asked]
      exact List.mem_map_of_mem (List.mem_of_getElem? hc)
    obtain ⟨a, ha, hraw⟩ := List.mem_map.mp hmem
    have hkept := advance_kept hacted.sound (hraw ▸ hreads a ha) hlimit
      (hacted.standing c (List.mem_of_getElem? hc)) i.reply i.place
    have hnext := hacted.kept hc hkept
    rw [turn, show (calls, s).1[(j, i).1]? = some c from hc]
    exact hnext
  have hkeeps := turns_keeps hstep hsteady h chs.length
  rwa [List.take_length] at hkeeps

theorem Running.start (h : account.Settled ps) : Running server ps p (p.calls, fresh account) where
  sound := ⟨le_refl _, fun n hn => (List.not_mem_nil hn).elim, rfl, fun k hk => (List.not_mem_nil hk).elim⟩
  standing c hc := by
    obtain ⟨a, -, rfl⟩ := List.mem_map.mp hc
    exact rfl
  asked := by rw [Pass.calls, List.map_map]; rfl
  blind := h.blind
  owned := h.owned
  blamed := h.blamed
  made n held o hn hget := absurd (List.getElem?_eq_some_iff.mp hget).1 (not_lt.mpr hn)

theorem within_running (hlimit : LIMIT ≤ server.maxLimit) (hreads : ∀ a ∈ p.asked, ReadsBack server a.2)
    (h : account.Settled ps) (hsteady : EveryTurn (step server) Steady (p.calls, fresh account) p.chs) :
    Running server ps p (within server account p) := (Running.start h).turns hlimit hreads hsteady

theorem passes_settled {more : List Pass} (hlimit : LIMIT ≤ server.maxLimit)
    (hreads : ∀ q ∈ more, ∀ a ∈ q.asked, ReadsBack server a.2) (h : account.Settled ps)
    (hsteady : SteadyPasses server account more) : (passes server account more).Settled (ps ++ more) := by
  induction more generalizing account ps with
  | nil => rwa [List.append_nil]
  | cons q more ih =>
    have hfirst := within_running hlimit (hreads q List.mem_cons_self) h hsteady.1
    rw [List.append_cons]
    exact ih (fun r hr => hreads r (List.mem_cons_of_mem _ hr)) hfirst.settled hsteady.2

theorem Account.Settled.once (h : account.Settled ps) (hdistinct : ∀ q ∈ ps, q.distinct) (hkey : key ≠ []) :
    (account.listed.filter (account.ours key)).length ≤ 1 := by
  have hnone : ∀ n ∈ account.listed.filter (account.ours key), ∀ m ∈ account.listed.filter (account.ours key),
    ¬ m < n := by
    intro n hn m hm hlt
    obtain ⟨held, o, hget, horigin, rfl⟩ := ours_iff.mp (List.mem_filter.mp hn).2
    obtain ⟨hlisted, hours⟩ := List.mem_filter.mp hm
    obtain ⟨held', o', hget', horigin', hsame⟩ := ours_iff.mp hours
    obtain ⟨hid, hfiled⟩ := h.owned m held' o' hget' horigin' (hsame ▸ hkey)
    obtain ⟨q, hq, hnot⟩ := h.blamed n (account.known n (List.mem_filter.mp hn).1) held o hget horigin hkey m hlt
      ⟨hlisted, held', hget', hid.trans hsame, hfiled⟩ hours
    exact hnot (hdistinct q hq)
  have hnodup : (account.listed.filter (account.ours key)).Nodup := account.nodup.filter _
  match hfilter : account.listed.filter (account.ours key) with
  | [] => exact Nat.zero_le 1
  | [_] => exact le_refl 1
  | n :: m :: rest =>
    rw [hfilter] at hnone hnodup
    have hne : n ≠ m := fun heq => (List.nodup_cons.mp hnodup).1 (heq ▸ List.mem_cons_self)
    obtain hlt | hgt := lt_or_gt_of_ne hne
    · exact absurd hlt (hnone m (List.mem_cons_of_mem _ List.mem_cons_self) n List.mem_cons_self)
    · exact absurd hgt (hnone n List.mem_cons_self m (List.mem_cons_of_mem _ List.mem_cons_self))

theorem settled_of_foreign (h : ∀ held ∈ account.ever, held.origin = none) : account.Settled [] := by
  have hnone : ∀ (n : ℕ) (held : Held) (o : Origin), account.ever[n]? = some held → held.origin = some o → False := by
    intro n held o hget horigin
    rw [h held (List.mem_of_getElem? hget)] at horigin
    cases horigin
  exact ⟨fun n held o hget horigin => (hnone n held o hget horigin).elim,
    fun n held o hget horigin => (hnone n held o hget horigin).elim,
    fun n _ held o hget horigin => (hnone n held o hget horigin).elim⟩

theorem steady_append (account : Account) (ps : List Pass) (p : Pass) :
    SteadyPasses server account (ps ++ [p]) ↔ SteadyPasses server account ps ∧
      EveryTurn (step server) Steady (p.calls, fresh (passes server account ps)) p.chs := by
  induction ps generalizing account with
  | nil => exact ⟨fun h => ⟨trivial, h.1⟩, fun h => ⟨h.2, trivial⟩⟩
  | cons q ps ih => exact (and_congr_right fun _ => ih _).trans and_assoc.symm

end Run

section Sample

theorem Sample.name_injective : Function.Injective fun n => List.replicate (n + 1) 'M' := by
  intro n m h
  have hlength := congrArg List.length h
  simpa using hlength

def Sample.server : Server where
  name n := List.replicate (n + 1) 'M'
  injective := Sample.name_injective
  named _ := List.cons_ne_nil _ _
  maxLimit := 500
  arrange := id
  arranges _ := .refl _
  mentions headers key := decide (messageId headers = key)
  exact _ _ := decide_eq_true rfl
  reads raw := .list [("Message-ID".toList, keyOf raw)]
  same _ _ := false
  same_messageId _ _ h := absurd h Bool.false_ne_true

def Sample.empty : Account := ⟨[], [], List.nodup_nil, fun _ hn => absurd hn List.not_mem_nil⟩

def Sample.inbox : { mailboxId : List Char // mailboxId ≠ [] } := ⟨['b'], List.cons_ne_nil _ _⟩

def Sample.raw : Bytes := utf8 "Message-ID: <a@b>\n\nhi".toList

/-- A pass that imports the message and does not learn of it. -/
def Sample.interrupted : Pass := ⟨[(Sample.inbox, Sample.raw)], List.replicate 6 (0, ⟨[], .done, 0⟩)⟩

/-- The next one, in which it is found. -/
def Sample.resumed : Pass := ⟨[(Sample.inbox, Sample.raw)], List.replicate 5 (0, ⟨[], .done, 0⟩)⟩

theorem Sample.readsBack : ReadsBack Sample.server Sample.raw := fun _ => by decide

end Sample

end OpenMigrate.Jmap.Imports
