import OpenMigrate.Sync.PassFootprint
import OpenMigrate.Sync.Rules
import OpenMigrate.Dav.DavApply
import OpenMigrate.Verify.Queries

namespace OpenMigrate.Verify

open Async Prog PgLedger

variable {T : TargetApi} (sha256Hex : String → String)

/-- `entries` is what the target's listing yields, `fault` the exception it ends in if it does. -/
structure ReindexDeps where
  tenantId : String
  mappingId : String
  entries : List TargetEntry
  fault : Option PassError := none
  domain : Option Domain := none

structure ReindexResult where
  scanned : ℕ := 0
  adopted : ℕ := 0
  alreadyKnown : ℕ := 0
  deriving DecidableEq

def ReindexDeps.scope (deps : ReindexDeps) : Scope := ⟨deps.tenantId, deps.mappingId, deps.domain.getD .email⟩

def reindexKey (scope : Scope) (entry : TargetEntry) : ItemKey :=
  scope.key (naturalKeyHash sha256Hex entry.naturalKey)

def reindexRecord (scope : Scope) (entry : TargetEntry) : LedgerRecord where
  tenantId := scope.tenantId
  itemType := scope.domain
  mappingId := scope.mappingId
  naturalKeyHash := naturalKeyHash sha256Hex entry.naturalKey
  contentHash := entry.contentHash.getD ""
  targetId := entry.targetId

def reindexEntries (scope : Scope) (fault : Option PassError) :
    List TargetEntry → ReindexResult → Task T ReindexResult
  | [], result =>
    match fault with
    | some e => .fail e
    | none => .ret result
  | entry :: rest, result =>
    (Task.ledger (.find scope (naturalKeyHash sha256Hex entry.naturalKey))).bind fun
      | some _ =>
        reindexEntries scope fault rest
          { result with scanned := result.scanned + 1, alreadyKnown := result.alreadyKnown + 1 }
      | none =>
        (Task.ledger (.recordIfAbsent (reindexRecord sha256Hex scope entry))).bind fun _ =>
        reindexEntries scope fault rest { result with scanned := result.scanned + 1, adopted := result.adopted + 1 }

def reindexFromTarget (deps : ReindexDeps) : Task T ReindexResult :=
  reindexEntries sha256Hex deps.scope deps.fault deps.entries {}

section Rows

variable (scope : Scope)

def reindexRow (entry : TargetEntry) : ItemRow := insertValues (reindexRecord sha256Hex scope entry)

/-- What a reindex over `done` makes of the ledger it found. -/
structure Reindexed (L₀ : Ledger) (done : List TargetEntry) (L : Ledger) : Prop where
  kept : ∀ key row, L₀.lookup key = some row → L.lookup key = some row
  new : ∀ key row, L.lookup key = some row → L₀.lookup key = some row ∨
    ∃ entry ∈ done, key = reindexKey sha256Hex scope entry ∧ row = reindexRow sha256Hex scope entry ∧ L₀.lookup key = none
  found : ∀ entry ∈ done, (row? L scope (naturalKeyHash sha256Hex entry.naturalKey)).isSome

variable {sha256Hex scope} {L₀ L : Ledger} {done : List TargetEntry} {entry : TargetEntry}

theorem Reindexed.refl (L₀ : Ledger) : Reindexed sha256Hex scope L₀ [] L₀ where
  kept _ _ h := h
  new _ _ h := .inl h
  found := by simp

theorem Reindexed.known (h : Reindexed sha256Hex scope L₀ done L)
    (hrow : (row? L scope (naturalKeyHash sha256Hex entry.naturalKey)).isSome) :
    Reindexed sha256Hex scope L₀ (done ++ [entry]) L where
  kept := h.kept
  new key row hlook := (h.new key row hlook).imp_right fun ⟨e, he, hr⟩ => ⟨e, List.mem_append_left _ he, hr⟩
  found e he := by
    obtain he | he := List.mem_append.mp he
    · exact h.found e he
    · rwa [List.mem_singleton.mp he]

theorem Reindexed.insert (h : Reindexed sha256Hex scope L₀ done L)
    (hnone : L.lookup (reindexKey sha256Hex scope entry) = none) :
    Reindexed sha256Hex scope L₀ (done ++ [entry])
      (L.insert (reindexKey sha256Hex scope entry) (reindexRow sha256Hex scope entry)) where
  kept key row hlook := by
    have hL := h.kept key row hlook
    rw [AList.lookup_insert_ne]
    · exact hL
    · rintro rfl
      rw [hnone] at hL
      cases hL
  new key row hlook := by
    by_cases hk : key = reindexKey sha256Hex scope entry
    · subst hk
      rw [AList.lookup_insert, Option.some.injEq] at hlook
      refine .inr ⟨entry, by simp, rfl, hlook.symm, ?_⟩
      cases h₀ : L₀.lookup (reindexKey sha256Hex scope entry) with
      | none => rfl
      | some row₀ =>
        rw [h.kept _ _ h₀] at hnone
        cases hnone
    · rw [AList.lookup_insert_ne hk] at hlook
      exact (h.new key row hlook).imp_right fun ⟨e, he, hr⟩ => ⟨e, List.mem_append_left _ he, hr⟩
  found e he := by
    have hrow : ∀ row : ItemRow, row.domain = scope.domain →
        (L.insert (reindexKey sha256Hex scope entry) (reindexRow sha256Hex scope entry)).lookup
          (reindexKey sha256Hex scope e) = some row →
        (row? (L.insert (reindexKey sha256Hex scope entry) (reindexRow sha256Hex scope entry)) scope
          (naturalKeyHash sha256Hex e.naturalKey)).isSome := by
      intro row hd hlook
      rw [(row?_eq_some _).mpr ⟨hlook, hd⟩]
      rfl
    by_cases hk : reindexKey sha256Hex scope e = reindexKey sha256Hex scope entry
    · refine hrow (reindexRow sha256Hex scope entry) rfl ?_
      rw [hk, AList.lookup_insert]
    · obtain he | he := List.mem_append.mp he
      · obtain ⟨row, hfound⟩ := Option.isSome_iff_exists.mp (h.found e he)
        obtain ⟨hlook, hd⟩ := (row?_eq_some L).mp hfound
        exact hrow row hd (by rw [AList.lookup_insert_ne hk]; exact hlook)
      · exact absurd (by rw [List.mem_singleton.mp he]) hk

theorem exec_recordIfAbsent (now : Instant) (hnone : row? L scope (naturalKeyHash sha256Hex entry.naturalKey) = none) :
    (∃ r, L.lookup (reindexKey sha256Hex scope entry) = none ∧
      PgLedger.exec L now (.recordIfAbsent (reindexRecord sha256Hex scope entry)) =
        (.ok r, L.insert (reindexKey sha256Hex scope entry) (reindexRow sha256Hex scope entry))) ∨
      ∃ e, PgLedger.exec L now (.recordIfAbsent (reindexRecord sha256Hex scope entry)) = (.error e, L) := by
  cases hlook : L.lookup (reindexRecord sha256Hex scope entry).key with
  | none =>
    refine .inl ⟨(reindexRow sha256Hex scope entry).mapRowToRecord (reindexKey sha256Hex scope entry), hlook, ?_⟩
    simp only [PgLedger.exec, recordIfAbsent, hlook]
    rfl
  | some row =>
    have hfind : find L (reindexRecord sha256Hex scope entry).scope
        (reindexRecord sha256Hex scope entry).naturalKeyHash = none := by
      simpa [find, LedgerRecord.scope, reindexRecord] using hnone
    simp [PgLedger.exec, recordIfAbsent, hlook, hfind]

theorem reindexEntries_wp (fault : Option PassError) (rest : List TargetEntry) (result : ReindexResult)
    {w : World T} (h : Reindexed sha256Hex scope L₀ done w.1.ledger) :
    wp (callSpec (machine T) (ownerRules T).free) (reindexEntries sha256Hex scope fault rest result)
      (postOk fun t => Reindexed sha256Hex scope L₀ (done ++ rest) t.1.ledger) w := by
  induction rest generalizing done result w with
  | nil =>
    cases fault with
    | some e => trivial
    | none => simpa [reindexEntries, postOk] using h
  | cons entry rest ih =>
    have hsplit : done ++ entry :: rest = done ++ [entry] ++ rest := by simp
    have hstable : ∀ s t : World T, Reindexed sha256Hex scope L₀ done s.1.ledger → (ownerRules T).rely s t →
        Reindexed sha256Hex scope L₀ done t.1.ledger := by
      intro s t hs ho
      rw [ho.1]
      exact hs
    rw [hsplit]
    refine wp_seq (free_find hstable h ?_ fun _ _ _ => trivial)
    intro t ht
    cases hfind : find t.1.ledger scope (naturalKeyHash sha256Hex entry.naturalKey) with
    | some known =>
      refine ih _ (ht.known ?_)
      simpa [find] using congrArg Option.isSome hfind
    | none =>
      have hrow : row? t.1.ledger scope (naturalKeyHash sha256Hex entry.naturalKey) = none := by
        simpa [find] using hfind
      refine wp_seq (free_write (P := fun u => Reindexed sha256Hex scope L₀ done u.1.ledger ∧
        row? u.1.ledger scope (naturalKeyHash sha256Hex entry.naturalKey) = none) ?_ ⟨ht, hrow⟩ ?_ fun _ _ _ => trivial)
      · intro s u hs ho
        rw [ho.1]
        exact hs
      · rintro u now ⟨hu, hnone⟩
        obtain ⟨r, hr⟩ | ⟨e, he⟩ := exec_recordIfAbsent now hnone
        · rw [hr.2]
          exact ih _ (hu.insert hr.1)
        · rw [he]
          trivial

end Rows

def reindexing (deps : ReindexDeps) (store : Store T) :
    Conf (Cmd T) Cmd.Resp PassError ReindexResult × World T :=
  (.seq (Main.lift (reindexFromTarget sha256Hex deps)), (store, PassState.fresh T))

variable {sha256Hex} in
theorem reindexFromTarget_run {deps : ReindexDeps} {store : Store T} {chs : List (Choice (Input T) T.Act)}
    {result : ReindexResult} {w : World T}
    (hrun : (machine T).run (reindexing sha256Hex deps store) chs = (.seq (.ret result), w)) :
    Reindexed sha256Hex deps.scope store.ledger deps.entries w.1.ledger := by
  have hstart : Reindexed sha256Hex deps.scope store.ledger [] (store, PassState.fresh T).1.ledger :=
    .refl store.ledger
  have hgood : Conf.Good (machine T) (ownerRules T)
      (postOk fun t => Reindexed sha256Hex deps.scope store.ledger deps.entries t.1.ledger)
      (reindexing sha256Hex deps store) :=
    (wp_lift _ _ _ _).mpr (reindexEntries_wp deps.fault deps.entries {} hstart)
  have hend := (hgood.run (machine T) _ ?_ chs ?_).2
  · rw [hrun] at hend
    exact hend
  · intro r s t hr ho
    cases r with
    | error e => trivial
    | ok result =>
      simp only [postOk] at hr ⊢
      have ho' : OwnerOnly s t := ho
      rw [ho'.1]
      exact hr
  · intro ev _
    cases ev with
    | exec th c i s => trivial
    | act a s => exact OwnerOnly.act a s

section Following

variable {Item Folder Raw : Type} (d : DomainSyncDeps T Item Folder Raw)
variable (keys : List String) (version : String → Option String)

/-- A row as a reindex left it, with at most the source's version added. -/
structure UnclaimedRow (scope : Scope) (version : Option String) (row : ItemRow) : Prop where
  domain : row.domain = scope.domain
  status : row.status = .copied
  collection : row.collection = ""
  sourceVersion : row.sourceVersion = none ∨ row.sourceVersion = version

structure UnclaimedRecord (scope : Scope) (key : String) (version : Option String) (known : LedgerRecord) :
    Prop where
  scope : known.scope = scope
  naturalKeyHash : known.naturalKeyHash = key
  status : known.status = some .copied
  collection : known.collection = none
  sourceVersion : known.sourceVersion = none ∨ known.sourceVersion = version

def quietVocabulary : Vocabulary (Cmd T) Cmd.Resp PassError where
  asks
    | .ledger (.recordUpdate r) =>
      r.scope = d.scope ∧ r.status = some .copied ∧ r.collection = none ∧ r.sourceVersion = version r.naturalKeyHash
    | .ledger op => op.OfEnd d
    | .target _ => False
    | .modify f => ∀ v, (f v).created = v.created
    | _ => True
  hears
    | .ledger (.find scope key), r => Cmd.Hears (T := T) (.ledger (.find scope key)) r ∧
      (scope = d.scope → key ∈ keys → ∃ known, r = .ok (some known) ∧
        UnclaimedRecord d.scope key (version key) known)
    | .modify _, r => r = .ok ()
    | c, r => c.Hears r

variable {d keys version} {scope : Scope} {v : Option String}

theorem UnclaimedRow.record {row : ItemRow} (h : UnclaimedRow scope v row) (key : String) :
    UnclaimedRecord scope key v (row.mapRowToRecord (scope.key key)) where
  scope := by simp [LedgerRecord.scope, ItemRow.mapRowToRecord, Scope.key, h.domain]
  naturalKeyHash := rfl
  status := congrArg some h.status
  collection := by simp [ItemRow.mapRowToRecord, truthy, h.collection]
  sourceVersion := h.sourceVersion

theorem UnclaimedRecord.classify_none {key : String} {known : LedgerRecord} (h : UnclaimedRecord scope key v known)
    (path : Option String) : classifyKnownItem known none path = .skip := by
  simp [classifyKnownItem, h.status, h.collection]

theorem UnclaimedRecord.classify {key : String} {known : LedgerRecord} (h : UnclaimedRecord scope key v known)
    (path : Option String) :
    classifyKnownItem known v path = .skip ∨ classifyKnownItem known v path = .recordVersion := by
  cases v with
  | none => exact .inl (h.classify_none path)
  | some v => obtain hv | hv := h.sourceVersion <;> simp [classifyKnownItem, h.status, h.collection, hv]

theorem UnclaimedRow.sets {row : ItemRow} {key : String} (h : UnclaimedRow d.scope (version key) row) {op : LedgerOp}
    (hop : (quietVocabulary d keys version).asks (.ledger op)) (haim : op.aimsAt (d.scope.key key) row.domain)
    (L : Ledger) (now : Instant) : UnclaimedRow d.scope (version key) (op.sets L now row) := by
  cases op with
  | recordUpdate r =>
    obtain ⟨hscope, hstatus, hcollection, hversion⟩ := hop
    have hkey : r.naturalKeyHash = key := by
      obtain ⟨scope', h', hw, hk, -⟩ := haim
      cases hw
      exact (Prod.mk.inj (congrArg (fun k : ItemKey => (k.mappingId, k.naturalKeyHash)) hk)).2
    exact ⟨h.domain, by simp [LedgerOp.sets, updateValues, hstatus], by simp [LedgerOp.sets, updateValues, hcollection, h.collection],
      .inr (by simp [LedgerOp.sets, updateValues, hversion, hkey])⟩
  | clearAbsent | recordReportedDeletion | recordTrashedDeletion =>
    simp only [LedgerOp.sets]
    split
    all_goals exact ⟨h.domain, h.status, h.collection, h.sourceVersion⟩
  | recordMove | clearMove | recordAbsent => exact ⟨h.domain, h.status, h.collection, h.sourceVersion⟩
  | find | findBySourceRef | placedItems => exact h
  | _ => exact hop.elim

section Workers

variable {at_ : Place} {item : Item} {key : String} {known : LedgerRecord}

theorem quiet_modify {f : PassVars → PassVars} (h : ∀ v, (f v).created = v.created) :
    Emits (quietVocabulary d keys version) (Task.modify f) (fun _ => True) :=
  (Emits.perform _ _).mpr ⟨h, fun _ _ => trivial⟩

theorem quiet_ledger {op : LedgerOp} (h : (quietVocabulary d keys version).asks (.ledger op)) :
    Emits (quietVocabulary d keys version) (Task.ledger op) (fun _ => True) :=
  (Emits.perform _ _).mpr ⟨h, fun _ _ => trivial⟩

theorem quiet_find (hkey : key ∈ keys) :
    Emits (quietVocabulary d keys version) (Task.ledger (.find d.scope key))
      (fun r => ∃ known, r = .ok (some known) ∧ UnclaimedRecord d.scope key (version key) known) :=
  (Emits.perform _ _).mpr ⟨trivial, fun _ hr => hr.2 rfl hkey⟩

theorem itemFailed_quiet (ch : String) (e : PassError) :
    Emits (quietVocabulary d keys version) (itemFailed d none ch e) (fun _ => True) := by
  cases e with
  | passAbort message => trivial
  | error reason =>
    refine Emits.seq (quiet_modify fun v => rfl) fun _ => ?_
    refine Emits.seq ((Emits.perform _ _).mpr ⟨trivial, fun _ _ => trivial⟩) fun v => ?_
    split <;> trivial

theorem attempt_quiet {α : Type} {x : Except PassError α} {g : PassError → Task T Unit} {f : α → Task T Unit}
    (hg : ∀ e, Emits (quietVocabulary d keys version) (g e) (fun _ => True))
    (hf : ∀ a, x = .ok a → Emits (quietVocabulary d keys version) (f a) (fun _ => True)) :
    Emits (quietVocabulary d keys version) ((Prog.ofExcept x).tryWith g f) (fun _ => True) := by
  cases x with
  | error e => exact hg e
  | ok a => exact hf a rfl

theorem onKnown_quiet (hversion : d.sourceVersion item = version key)
    (h : UnclaimedRecord d.scope key (version key) known) :
    Emits (quietVocabulary d keys version) (onKnown d at_ item key known) (fun _ => True) := by
  unfold onKnown
  refine Emits.seq ?_ fun _ => ?_
  · split
    · exact quiet_ledger rfl
    · trivial
  rw [hversion]
  obtain hclass | hclass := h.classify (some at_.collectionPath)
  · rw [hclass]
    refine Emits.seq ?_ fun _ => quiet_modify fun v => rfl
    split
    · exact quiet_ledger rfl
    · trivial
  · rw [hclass]
    refine Emits.seq ?_ fun _ => ?_
    · split
      · exact quiet_ledger rfl
      · trivial
    · refine Emits.seq (quiet_ledger ⟨h.scope, h.status, h.collection, ?_⟩) fun _ => quiet_modify fun v => rfl
      rw [hversion, h.naturalKeyHash]

end Workers

variable (d keys version) in
structure Quiet (w : World T) : Prop where
  rows : ∀ key ∈ keys, ∃ row, w.row (d.scope.key key) = some row ∧ UnclaimedRow d.scope (version key) row
  created : w.vars.created = 0

theorem Quiet.exec {c : Cmd T} {i : Input T} {w : World T} (h : Quiet d keys version w)
    (hc : (quietVocabulary d keys version).asks c) : Quiet d keys version (w.exec i c).2 where
  rows key hkey := by
    obtain ⟨row, hrow, hun⟩ := h.rows key hkey
    obtain ⟨-, hsame⟩ | ⟨op, rfl, -, haim, hset⟩ := exec_row_some (i := i) (c := c) hrow
    · exact ⟨row, hsame, hun⟩
    · exact ⟨_, hset, hun.sets hc haim _ _⟩
  created := by
    obtain ⟨f, rfl⟩ | hvars := exec_vars i w c
    · exact (hc w.vars).trans h.created
    · rw [hvars]
      exact h.created

theorem Quiet.hears {c : Cmd T} {i : Input T} {w : World T} (h : Quiet d keys version w) (hf : i.fault = none) :
    (quietVocabulary d keys version).hears c (w.exec i c).1 := by
  have hheard := exec_hears i w c
  cases c with
  | modify f => rfl
  | ledger op =>
    cases op with
    | find scope key =>
      refine ⟨hheard, ?_⟩
      rintro rfl hkey
      obtain ⟨row, hrow, hun⟩ := h.rows key hkey
      refine ⟨_, ?_, hun.record key⟩
      have hfound : row? w.1.ledger d.scope key = some row := (row?_eq_some _).mpr ⟨hrow, hun.domain⟩
      simp [World.exec, World.query, hf, PgLedger.exec, find, hfound, Except.mapError]
    | _ => exact hheard
  | _ => exact hheard

variable [FolderLike Folder]

variable (d keys version) in
def Lists : Prop :=
  ∀ at_ item key, ListedAt d at_ item → HasKey d item key → key ∈ keys ∧ d.sourceVersion item = version key

theorem syncItem_quiet {at_ : Place} {item : Item} (hlisted : ListedAt d at_ item) (hlists : Lists d keys version) :
    Emits (quietVocabulary d keys version) (syncItem d at_ item) (fun _ => True) := by
  unfold syncItem
  split
  · rename_i key hkey
    obtain ⟨hmem, hversion⟩ := hlists at_ item key hlisted (.inl hkey)
    refine Emits.seq (quiet_modify fun v => rfl) fun _ => ?_
    refine Emits.bind (fun found => ∃ known, found = some known ∧
      UnclaimedRecord d.scope key (version key) known) ((quiet_find hmem).mono ?_) ?_
    · rintro r ⟨known, rfl, hknown⟩
      exact ⟨known, rfl, hknown⟩
    · rintro found ⟨known, rfl, hknown⟩
      exact onKnown_quiet hversion hknown
  · rename_i hnone
    refine Emits.seq (quiet_modify fun v => rfl) fun _ => ?_
    refine attempt_quiet (itemFailed_quiet "") fun fetched hfetched => ?_
    refine attempt_quiet (itemFailed_quiet "") fun key hkey => ?_
    have hhas : HasKey d item key := .inr ⟨hnone, fetched, hfetched, hkey⟩
    obtain ⟨hmem, -⟩ := hlists at_ item key hlisted hhas
    refine Emits.tryWith (fun found => ∃ known, found = some known ∧
      UnclaimedRecord d.scope key (version key) known) (fun _ => False) ?_ (fun _ h => h.elim) ?_
    · refine Emits.bind (fun _ => True) ((Emits.perform _ _).mpr ⟨fun v => rfl, ?_⟩) fun _ _ => (quiet_find hmem).mono ?_
      · rintro r rfl
        trivial
      · rintro r ⟨known, rfl, hknown⟩
        exact ⟨known, rfl, hknown⟩
    · rintro found ⟨known, rfl, hknown⟩
      simp only [onKnownAfterFetch, hknown.classify_none]
      exact quiet_modify fun v => rfl

theorem quiet_hosts (hlists : Lists d keys version) : Hosts d (quietVocabulary d keys version) where
  ledger op hop := by
    cases op with
    | recordUpdate => exact hop.elim
    | _ => exact hop
  cursorGet _ := trivial
  cursorSet _ _ _ _ := trivial
  modify f hf v := (hf v).created
  vars := trivial
  hears c r hr := by
    cases c with
    | ledger op =>
      cases op with
      | find => exact hr.1
      | _ => exact hr
    | modify f => trivial
    | _ => exact hr
  worker _ _ hlisted := syncItem_quiet hlisted hlists

theorem runDomainSync_quiet (hlists : Lists d keys version) {w : World T} (hw : Quiet d keys version w)
    {chs : List (Choice (Input T) T.Act)}
    (hall : ∀ th c i s, Event.exec th c i s ∈ (machine T).trace (.seq (runDomainSync d), w) chs → i.fault = none) :
    ((machine T).run (.seq (runDomainSync d), w) chs).2.vars.created = 0 ∧
      ∀ th c i s, Event.exec th (.target c) i s ∉ (machine T).trace (.seq (runDomainSync d), w) chs := by
  have hemits : Conf.Emits (quietVocabulary d keys version) (.seq (runDomainSync d)) :=
    (quiet_hosts hlists).runDomainSync
  obtain ⟨hquiet, hasks⟩ := Conf.Emits.keeps (x := (.seq (runDomainSync d), w)) (machine T)
    (P := Quiet d keys version) (fun a s hs => ⟨hs.rows, hs.created⟩) (fun c i s hc _ hs => hs.exec hc)
    (fun c i s _ hf hs => hs.hears hf) hemits hw hall
  exact ⟨hquiet.created, fun th c i s hev => hasks th _ i s hev⟩

end Following

section Recovery

variable (dataType : DataType) (scope : Scope) (entries : List TargetEntry)

/-- The text the sync loop of a domain hashes. -/
def keyText (rawKey : String) : String :=
  match dataType with
  | .mail => "mid:" ++ normalizeMessageId rawKey
  | .calendar => "cal:" ++ String.ofList (lower rawKey.toList)
  | .contacts => "card:" ++ rawKey
  | .files => "file:" ++ rawKey

def hashedTexts : Set String :=
  {text | ∃ entry ∈ entries, text = keyText .mail entry.naturalKey ∨ text = keyText dataType entry.naturalKey}

/-- Every entry is found under the key its domain's loop computes, and a pass over the same items asks
nothing of the target. -/
structure Recovered (store : Store T) : Prop where
  found : ∀ entry ∈ entries,
    (find store.ledger scope (hashTargetNaturalKey sha256Hex dataType entry.naturalKey)).isSome
  creates : ∀ {Item Folder Raw : Type} [FolderLike Folder] (d : DomainSyncDeps T Item Folder Raw) version chs,
    d.scope = scope → Lists d (targetKeys sha256Hex dataType entries) version →
    (∀ th c i s, Event.exec th c i s ∈
      (machine T).trace (.seq (runDomainSync d), (store, PassState.fresh T)) chs → i.fault = none) →
    ((machine T).run (.seq (runDomainSync d), (store, PassState.fresh T)) chs).2.vars.created = 0 ∧
      ∀ th c i s, Event.exec th (.target c) i s ∉
        (machine T).trace (.seq (runDomainSync d), (store, PassState.fresh T)) chs

variable {sha256Hex dataType scope entries}

theorem hashTargetNaturalKey_eq (rawKey : String) :
    hashTargetNaturalKey sha256Hex dataType rawKey = sha256Hex (keyText dataType rawKey) := by
  cases dataType <;> rfl

theorem keyText_ne_mail (h : dataType ≠ .mail) (rawKey rawKey' : String) :
    keyText dataType rawKey ≠ keyText .mail rawKey' := by
  intro he
  have hchars := congrArg (fun s : String => s.toList.head?) he
  cases dataType with
  | mail => exact h rfl
  | calendar | contacts | files => simp [keyText] at hchars

theorem Reindexed.unclaimed {L : Ledger} (h : Reindexed sha256Hex scope ∅ entries L) {key : String}
    (hkey : key ∈ targetKeys sha256Hex .mail entries) (version : Option String) :
    ∃ row, L.lookup (scope.key key) = some row ∧ UnclaimedRow scope version row := by
  obtain ⟨entry, hentry, rfl⟩ := List.mem_map.mp hkey
  obtain ⟨row, hrow⟩ := Option.isSome_iff_exists.mp (h.found entry hentry)
  obtain ⟨hlook, -⟩ := (row?_eq_some L).mp hrow
  refine ⟨row, hlook, ?_⟩
  obtain h₀ | ⟨entry', -, -, rfl, -⟩ := h.new _ row hlook
  · simp at h₀
  · exact ⟨rfl, rfl, rfl, .inl rfl⟩

theorem Reindexed.recovered {store : Store T} (h : Reindexed sha256Hex scope ∅ entries store.ledger)
    (htype : dataType = .mail ∨ entries = []) : Recovered sha256Hex dataType scope entries store where
  found entry hentry := by
    obtain rfl | rfl := htype
    · simpa [find, hashTargetNaturalKey] using h.found entry hentry
    · cases hentry
  creates d version chs hscope hlists hall := by
    subst hscope
    refine runDomainSync_quiet hlists ⟨fun key hkey => ?_, rfl⟩ hall
    obtain rfl | rfl := htype
    · exact h.unclaimed hkey (version key)
    · cases hkey

theorem Reindexed.key {L : Ledger} (h : Reindexed sha256Hex scope ∅ entries L) {key : String}
    (hfind : (find L scope key).isSome) : ∃ entry ∈ entries, key = sha256Hex (keyText .mail entry.naturalKey) := by
  obtain ⟨known, hknown⟩ := Option.isSome_iff_exists.mp hfind
  obtain ⟨row, hrow, -⟩ := Option.map_eq_some_iff.mp hknown
  obtain ⟨hlook, -⟩ := (row?_eq_some L).mp hrow
  obtain h₀ | ⟨entry, hentry, hkey, -⟩ := h.new _ row hlook
  · simp at h₀
  · exact ⟨entry, hentry, congrArg ItemKey.naturalKeyHash hkey⟩

/-- After a reindex of an empty ledger, the items of a listing are known again to the loop of their
domain if they are mail, and else not one of them is, as long as no two of the hashed texts collide. -/
theorem reindex_recovers_iff {deps : ReindexDeps} (hdomain : deps.scope.domain = mapDataTypeToDomain dataType)
    (hhash : Set.InjOn sha256Hex (hashedTexts dataType deps.entries)) {store : Store T}
    (hempty : store.ledger = ∅) {chs : List (Choice (Input T) T.Act)} {result : ReindexResult}
    (hrun : ((machine T).run (reindexing sha256Hex deps store) chs).1 = .seq (.ret result)) :
    Recovered sha256Hex dataType (scopeOf deps.tenantId deps.mappingId dataType) deps.entries
        ((machine T).run (reindexing sha256Hex deps store) chs).2.1 ↔
      dataType = .mail ∨ deps.entries = [] := by
  have hscope : scopeOf deps.tenantId deps.mappingId dataType = deps.scope := by
    simp [scopeOf, ← hdomain, ReindexDeps.scope]
  have hreindexed := reindexFromTarget_run (Prod.ext hrun rfl)
  rw [hempty] at hreindexed
  rw [hscope]
  constructor
  · intro h
    by_contra hno
    obtain ⟨htype, hentries⟩ := not_or.mp hno
    obtain ⟨entry, hentry⟩ := List.exists_mem_of_ne_nil _ hentries
    obtain ⟨entry', hentry', hkey⟩ := hreindexed.key (h.found entry hentry)
    rw [hashTargetNaturalKey_eq] at hkey
    exact keyText_ne_mail htype _ _ (hhash ⟨entry, hentry, .inr rfl⟩ ⟨entry', hentry', .inl rfl⟩ hkey)
  · exact hreindexed.recovered

end Recovery

section Sample

/-- SHA-256, on the texts that the concrete reindexes hash. -/
def Sample.midDigest : String → String
  | "mid:a@x" => "55b0a176f86b58e54db897de9622f4bad0acc26baa762c8164578edcc9abce6b"
  | "mid:a.txt" => "bd5df195be82c3c1bdba3f6df9468f29293b3df4975c7791fe00106e7b3b42da"
  | s => Dav.Sample.sha256Hex s

def Sample.oneMessage : ReindexDeps where
  tenantId := "t"
  mappingId := "m"
  entries := [⟨"<a@x>", "1", "inbox", none, none⟩]
  domain := some .email

def Sample.oneFile : ReindexDeps where
  tenantId := "t"
  mappingId := "m"
  entries := [⟨"a.txt", "/a.txt", "/", none, some 1⟩]
  domain := some .file

def Sample.threeSteps : List (Choice (Input (Dav.api Dav.Sample.endpoint)) Dav.OwnerAct) :=
  List.replicate 3 (.run 0 Dav.Sample.input)

theorem reindex_recovers_iff_oneMessage :
    Recovered Sample.midDigest .mail (scopeOf "t" "m" .mail) Sample.oneMessage.entries
        ((machine (Dav.api Dav.Sample.endpoint)).run (reindexing Sample.midDigest Sample.oneMessage Dav.Sample.store)
          Sample.threeSteps).2.1 ↔ DataType.mail = .mail ∨ Sample.oneMessage.entries = [] := by
  have hrun : ((machine (Dav.api Dav.Sample.endpoint)).run
      (reindexing Sample.midDigest Sample.oneMessage Dav.Sample.store) Sample.threeSteps).1 =
        .seq (.ret ⟨1, 1, 0⟩) := rfl
  refine reindex_recovers_iff rfl ?_ rfl hrun
  rintro _ ⟨entry, hentry, rfl | rfl⟩ _ ⟨entry', hentry', rfl | rfl⟩ _ <;>
    simp only [Sample.oneMessage, List.mem_singleton] at hentry hentry' <;> subst hentry <;> subst hentry' <;> rfl

theorem reindexed_file_not_found :
    ((machine (Dav.api Dav.Sample.endpoint)).run (reindexing Sample.midDigest Sample.oneFile Dav.Sample.store)
        Sample.threeSteps).1 = .seq (.ret ⟨1, 1, 0⟩) ∧
      ¬ Recovered Sample.midDigest .files (scopeOf "t" "m" .files) Sample.oneFile.entries
        ((machine (Dav.api Dav.Sample.endpoint)).run (reindexing Sample.midDigest Sample.oneFile Dav.Sample.store)
          Sample.threeSteps).2.1 := by
  refine ⟨rfl, fun h => ?_⟩
  have hfound := h.found ⟨"a.txt", "/a.txt", "/", none, some 1⟩ (by simp [Sample.oneFile])
  revert hfound
  decide +kernel

end Sample

end OpenMigrate.Verify
