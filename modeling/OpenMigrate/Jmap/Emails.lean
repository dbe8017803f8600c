import OpenMigrate.Text
import Mathlib.Data.List.Perm.Basic
import Mathlib.Data.List.Nodup
import Mathlib.Tactic.Common

namespace OpenMigrate.Jmap.Emails

section Source

def SNAPSHOT_MAX_ENTRIES : ℕ := 50000

/-- The headers of an answer: a list of names and values, or the record that the source also reads. -/
inductive Headers where
  | list (headers : List (List Char × List Char))
  | record (fields : List (List Char × List Char))

def Headers.all : Headers → List (List Char × List Char)
  | list headers => headers
  | record fields => fields

/-- No id is empty. -/
structure Email where
  id : List Char
  mailboxIds : List { mailboxId : List Char // mailboxId ≠ [] }
  headers : Headers
  size : Option ℕ

structure TargetEntry where
  naturalKey : List Char
  targetId : List Char
  mailboxId : List Char
  sizeBytes : Option ℕ

/-- An account that does not change: what `Email/query` lists, in its order, at most so many at once, and what
`Email/get` answers to these ids, in an order of its own. -/
structure Account where
  messages : List Email
  distinct : (messages.map Email.id).Nodup
  maxLimit : ℕ
  get : List (List Char) → List Email
  gives : ∀ ids, (get ids).Perm (messages.filter fun m => ids.contains m.id)

def LIMIT : ℕ := 100

def messageId (headers : Headers) : List Char :=
  match headers with
  | .list headers => ((headers.find? fun h => lower h.1 = "message-id".toList).map fun h => trim h.2).getD []
  | .record fields =>
    (((fields.lookup "Message-ID".toList).filter (· ≠ [])).or (fields.lookup "message-id".toList)).getD []

/-- The messages that a query lists; an empty id is no filter. -/
def Account.matching (account : Account) (mailboxId : List Char) : List Email :=
  account.messages.filter fun m => mailboxId = [] ∨ (m.mailboxIds.map Subtype.val).contains mailboxId = true

def Account.query (account : Account) (mailboxId : List Char) (position : ℕ) : List (List Char) :=
  (((account.matching mailboxId).drop position).take (min LIMIT account.maxLimit)).map Email.id

def entryMailboxId (mailboxId : List Char) (email : Email) : List Char :=
  if mailboxId = [] then (email.mailboxIds.head?.map Subtype.val).getD [] else mailboxId

def entryOf (mailboxId : List Char) (email : Email) : Option TargetEntry :=
  if messageId email.headers = [] then none
  else if entryMailboxId mailboxId email = [] then none
  else some ⟨messageId email.headers, email.id, entryMailboxId mailboxId email, email.size⟩

def pageEntries (account : Account) (mailboxId : List Char) (position : ℕ) : List TargetEntry :=
  (account.get (account.query mailboxId position)).filterMap (entryOf mailboxId)

def listFrom (account : Account) (mailboxId : List Char) (position : ℕ) : List TargetEntry :=
  if (account.query mailboxId position).length < LIMIT then pageEntries account mailboxId position
  else pageEntries account mailboxId position ++ listFrom account mailboxId (position + LIMIT)
termination_by (account.matching mailboxId).length - position
decreasing_by
  rename_i hfull
  have hlength : (account.query mailboxId position).length ≤ (account.matching mailboxId).length - position := by
    rw [Account.query, List.length_map, List.length_take, List.length_drop]
    exact min_le_right _ _
  rw [LIMIT] at hfull ⊢
  omega

/-- `listEntries`; where a page is empty, the loop ends before it asks for its messages. -/
def listEntries (account : Account) (mailboxId : List Char) : List TargetEntry := listFrom account mailboxId 0

/-- `Map.set` -/
def setKey (keys : List (List Char × List Char)) (entry : TargetEntry) : List (List Char × List Char) :=
  if keys.any (·.1 = entry.naturalKey) then
    keys.map fun k => if k.1 = entry.naturalKey then (k.1, entry.targetId) else k
  else keys ++ [(entry.naturalKey, entry.targetId)]

/-- `buildKeySnapshot`, where the listing succeeds: none where the account has too many messages. -/
def buildKeySnapshot (account : Account) : Option (List (List Char × List Char)) :=
  (listEntries account []).foldlM
    (fun keys entry =>
      let keys := setKey keys entry
      if SNAPSHOT_MAX_ENTRIES < keys.length then none else some keys) []

end Source

section Complete

variable {account : Account} {mailboxId : List Char} {position : ℕ} {m : Email}

/-- A message with a Message-ID that is not blank, and a mailbox. -/
structure Listable (m : Email) : Prop where
  named : ∃ h ∈ m.headers.all, lower h.1 = "message-id".toList ∧ trim h.2 ≠ []
  filed : m.mailboxIds ≠ []

/-- What the pages reach: where the server lists fewer at once than were asked for, the first page alone. -/
def reached (account : Account) (mailboxId : List Char) : List Email :=
  if LIMIT ≤ account.maxLimit then account.matching mailboxId else (account.matching mailboxId).take account.maxLimit

/-- Every listable message is yielded once, and the snapshot of the account holds its key. -/
structure Complete (account : Account) (mailboxId : List Char) : Prop where
  once : ∀ m ∈ account.matching mailboxId, Listable m →
    ((listEntries account mailboxId).map TargetEntry.targetId).count m.id = 1
  known : mailboxId = [] → ∀ keys, buildKeySnapshot account = some keys → ∀ m ∈ account.messages, Listable m →
    messageId m.headers ∈ keys.map Prod.fst

theorem eq_of_id (hm : m ∈ account.messages) {m' : Email} (hm' : m' ∈ account.messages) (h : m.id = m'.id) : m = m' :=
  List.inj_on_of_nodup_map account.distinct hm hm' h

theorem get_perm {page : List Email} (h : page.Sublist account.messages) : (account.get (page.map Email.id)).Perm page := by
  have hnodup : account.messages.Nodup := account.distinct.of_map
  refine (account.gives _).trans ((List.perm_ext_iff_of_nodup (hnodup.filter _) (hnodup.sublist h)).mpr ?_)
  intro m
  rw [List.mem_filter, List.contains_iff_mem, List.mem_map]
  constructor
  · rintro ⟨hm, m', hm', hid⟩
    rwa [← eq_of_id (h.subset hm') hm hid]
  · intro hm
    exact ⟨h.subset hm, m, hm, rfl⟩

theorem pageEntries_perm (account : Account) (mailboxId : List Char) (position : ℕ) :
    (pageEntries account mailboxId position).Perm
      ((((account.matching mailboxId).drop position).take (min LIMIT account.maxLimit)).filterMap (entryOf mailboxId)) := by
  apply List.Perm.filterMap
  apply get_perm
  exact ((List.take_sublist _ _).trans (List.drop_sublist _ _)).trans List.filter_sublist

theorem query_length (account : Account) (mailboxId : List Char) (position : ℕ) :
    (account.query mailboxId position).length =
      min (min LIMIT account.maxLimit) ((account.matching mailboxId).length - position) := by
  rw [Account.query, List.length_map, List.length_take, List.length_drop]

theorem listFrom_full (h : LIMIT ≤ account.maxLimit) (position : ℕ) : (listFrom account mailboxId position).Perm
    (((account.matching mailboxId).drop position).filterMap (entryOf mailboxId)) := by
  fun_induction listFrom account mailboxId position with
  | case1 position hshort =>
    have hpage := pageEntries_perm account mailboxId position
    rw [query_length, min_eq_left h] at hshort
    rwa [min_eq_left h, List.take_of_length_le] at hpage
    rw [List.length_drop]
    omega
  | case2 position hfull ih =>
    have hpage := pageEntries_perm account mailboxId position
    rw [min_eq_left h] at hpage
    have hsplit := List.take_append_drop LIMIT ((account.matching mailboxId).drop position)
    rw [List.drop_drop] at hsplit
    rw [← hsplit, List.filterMap_append]
    exact hpage.append ih

theorem listEntries_perm (account : Account) (mailboxId : List Char) :
    (listEntries account mailboxId).Perm ((reached account mailboxId).filterMap (entryOf mailboxId)) := by
  rw [reached]
  split
  · rename_i hfull
    exact listFrom_full hfull 0
  · rename_i hless
    have hlength := query_length account mailboxId 0
    have hpage := pageEntries_perm account mailboxId 0
    rw [min_eq_right (Nat.le_of_not_le hless), List.drop_zero] at hpage
    rw [listEntries, listFrom, if_pos]
    · exact hpage
    · omega

theorem reached_sublist (account : Account) (mailboxId : List Char) :
    (reached account mailboxId).Sublist (account.matching mailboxId) := by
  rw [reached]
  split
  · exact List.Sublist.refl _
  · exact List.take_sublist _ _

theorem entryOf_targetId {email : Email} {e : TargetEntry} (h : entryOf mailboxId email = some e) :
    e.targetId = email.id ∧ e.naturalKey = messageId email.headers := by
  rw [entryOf] at h
  split at h
  · cases h
  · split at h <;> cases h
    exact ⟨rfl, rfl⟩

theorem entryOf_isSome (mailboxId : List Char) (h : Listable m) :
    (entryOf mailboxId m).isSome = true ↔ messageId m.headers ≠ [] := by
  have hmailbox : entryMailboxId mailboxId m ≠ [] := by
    rw [entryMailboxId]
    split
    · obtain ⟨mailbox, others, hfiled⟩ := List.exists_cons_of_ne_nil h.filed
      rw [hfiled]
      exact mailbox.2
    · assumption
  rw [entryOf, if_neg hmailbox]
  by_cases hempty : messageId m.headers = []
  · simp [hempty]
  · simp [hempty]

theorem listed_ids (account : Account) (mailboxId : List Char) :
    ((listEntries account mailboxId).map TargetEntry.targetId).Perm
      (((reached account mailboxId).filter fun m => (entryOf mailboxId m).isSome).map Email.id) := by
  refine ((listEntries_perm account mailboxId).map _).trans (List.Perm.of_eq ?_)
  generalize reached account mailboxId = messages
  induction messages with
  | nil => rfl
  | cons m messages ih =>
    cases hm : entryOf mailboxId m with
    | none =>
      rw [List.filterMap_cons_none hm, List.filter_cons_of_neg, ih]
      rw [hm]
      exact Bool.false_ne_true
    | some e =>
      rw [List.filterMap_cons_some hm, List.filter_cons_of_pos, List.map_cons, List.map_cons, ih, (entryOf_targetId hm).1]
      rw [hm]
      rfl

theorem count_eq_one_iff (hm : m ∈ account.matching mailboxId) (h : Listable m) :
    ((listEntries account mailboxId).map TargetEntry.targetId).count m.id = 1 ↔
      m ∈ reached account mailboxId ∧ messageId m.headers ≠ [] := by
  have hsublist : ((reached account mailboxId).filter fun m => (entryOf mailboxId m).isSome).Sublist account.messages :=
    (List.filter_sublist.trans (reached_sublist account mailboxId)).trans List.filter_sublist
  have hnodup := account.distinct.sublist (hsublist.map Email.id)
  rw [(listed_ids account mailboxId).count_eq, ← entryOf_isSome mailboxId h]
  constructor
  · intro hone
    obtain ⟨m', hm', hid⟩ := List.mem_map.mp (List.count_pos_iff.mp (hone ▸ Nat.one_pos))
    rw [← eq_of_id (hsublist.subset hm') (List.mem_of_mem_filter hm) hid]
    exact List.mem_filter.mp hm'
  · intro hin
    exact List.count_eq_one_of_mem hnodup (List.mem_map_of_mem (List.mem_filter.mpr hin))

theorem mem_setKey (keys : List (List Char × List Char)) (entry : TargetEntry) :
    keys.map Prod.fst ⊆ (setKey keys entry).map Prod.fst ∧ entry.naturalKey ∈ (setKey keys entry).map Prod.fst := by
  rw [setKey]
  split
  · rename_i hany
    have hkeys : (keys.map fun k => if k.1 = entry.naturalKey then (k.1, entry.targetId) else k).map Prod.fst =
        keys.map Prod.fst := by
      rw [List.map_map]
      apply List.map_congr_left
      intro k _
      rw [Function.comp_apply]
      split <;> rfl
    rw [hkeys]
    obtain ⟨k, hk, hself⟩ := List.any_eq_true.mp hany
    exact ⟨List.Subset.refl _, List.mem_map.mpr ⟨k, hk, of_decide_eq_true hself⟩⟩
  · rw [List.map_append]
    exact ⟨List.subset_append_left _ _, List.mem_append_right _ List.mem_cons_self⟩

theorem snapshot_keys {entries : List TargetEntry} {keys keys' : List (List Char × List Char)}
    (h : entries.foldlM (fun keys entry =>
      if SNAPSHOT_MAX_ENTRIES < (setKey keys entry).length then none else some (setKey keys entry)) keys = some keys') :
    keys.map Prod.fst ⊆ keys'.map Prod.fst ∧ ∀ e ∈ entries, e.naturalKey ∈ keys'.map Prod.fst := by
  induction entries generalizing keys with
  | nil =>
    cases h
    exact ⟨List.Subset.refl _, fun e he => by cases he⟩
  | cons entry entries ih =>
    rw [List.foldlM_cons] at h
    split at h
    · cases h
    · obtain ⟨hkeep, hall⟩ := ih h
      obtain ⟨hset, hnew⟩ := mem_setKey keys entry
      refine ⟨List.Subset.trans hset hkeep, ?_⟩
      intro e he
      obtain rfl | he := List.mem_cons.mp he
      · exact hkeep hnew
      · exact hall e he

/-- The listing is complete exactly if the pages reach every listable message and its Message-ID is read. -/
theorem complete_iff (account : Account) (mailboxId : List Char) : Complete account mailboxId ↔
    ∀ m ∈ account.matching mailboxId, Listable m → m ∈ reached account mailboxId ∧ messageId m.headers ≠ [] := by
  constructor
  · intro h m hm hlistable
    exact (count_eq_one_iff hm hlistable).mp (h.once m hm hlistable)
  · intro h
    refine ⟨fun m hm hlistable => (count_eq_one_iff hm hlistable).mpr (h m hm hlistable), ?_⟩
    rintro rfl keys hkeys m hm hlistable
    have hmatching : m ∈ account.matching [] := List.mem_filter.mpr ⟨hm, by simp⟩
    obtain ⟨hreached, hread⟩ := h m hmatching hlistable
    obtain ⟨e, he⟩ := Option.isSome_iff_exists.mp ((entryOf_isSome [] hlistable).mpr hread)
    have hentry : e ∈ listEntries account [] :=
      (listEntries_perm account []).mem_iff.mpr (List.mem_filterMap.mpr ⟨m, hreached, he⟩)
    rw [← (entryOf_targetId he).2]
    exact (snapshot_keys hkeys).2 e hentry

end Complete

namespace Sample

def message (id name : Char) : Email :=
  ⟨[id], [⟨"inbox".toList, by decide⟩], .list [("Message-ID".toList, [name])], none⟩

/-- A server that lists one message at once. -/
def account : Account where
  messages := [message 'a' '1', message 'b' '2']
  distinct := by decide
  maxLimit := 1
  get ids := [message 'a' '1', message 'b' '2'].filter fun m => ids.contains m.id
  gives _ := List.Perm.refl _

theorem second_unlisted : ¬ Complete account [] := by
  intro h
  have hlistable : Listable (message 'b' '2') := ⟨⟨_, List.mem_cons_self, by decide⟩, by decide⟩
  have hmatching : message 'b' '2' ∈ account.matching [] :=
    List.mem_filter.mpr ⟨List.mem_cons_of_mem _ List.mem_cons_self, rfl⟩
  have hreached := ((count_eq_one_iff hmatching hlistable).mp (h.once _ hmatching hlistable)).1
  exact absurd (List.mem_map_of_mem hreached : (message 'b' '2').id ∈ _) (by decide)

end Sample

end OpenMigrate.Jmap.Emails
