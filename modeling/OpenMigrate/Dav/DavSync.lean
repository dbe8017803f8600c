import OpenMigrate.Dav.ObjectWriter
import OpenMigrate.Dav.FileWriter
import OpenMigrate.Sync.DomainSync

namespace OpenMigrate.Dav

open Async

variable {e : Endpoint} {α β : Type}

section Asks

variable {scope : Scope} {options : UpsertOptions} {keys : String → Prop}

theorem request_asks (r : Request) :
    Emits (writerVocabulary scope options keys) (request r : DavTask e r.Resp) (fun _ => True) :=
  (Emits.perform _ _).mpr ⟨trivial, fun _ _ => trivial⟩

theorem writer_find (s : Scope) (key : String) :
    Emits (writerVocabulary scope options keys) (Task.ledger (.find s key) : DavTask e _) (fun _ => True) :=
  (Emits.perform _ _).mpr ⟨trivial, fun _ _ => trivial⟩

theorem writer_record {r : LedgerRecord}
    (h : r.scope = scope ∧ (r.status = none ∨ r.status = some .adopted) ∧
      r.sourceVersion = options.sourceVersion ∧ r.collection = options.collection ∧ keys r.naturalKeyHash) :
    Emits (writerVocabulary scope options keys) (Task.ledger (.recordIfAbsent r) : DavTask e _)
      (fun _ => True) :=
  (Emits.perform _ _).mpr ⟨h, fun _ _ => trivial⟩

theorem retrying_asks {V : Vocabulary (Cmd (api e)) Cmd.Resp PassError} {send : DavTask e Response}
    (h : Emits V send (fun _ => True)) (n : ℕ) : Emits V (retrying send n) (fun _ => True) := by
  induction n with
  | zero => exact h
  | succ n ih =>
    refine h.seq fun response => ?_
    split
    · exact ih
    · trivial

theorem checkOwnership_asks {V : Vocabulary (Cmd (api e)) Cmd.Resp PassError} {path : String}
    {expected : Option String} {changed proceed : DavTask e α}
    (hhead : Emits V (request (.head path) : DavTask e Response) (fun _ => True))
    (hchanged : Emits V changed (fun _ => True)) (hproceed : Emits V proceed (fun _ => True)) :
    Emits V (checkOwnership path expected changed proceed) (fun _ => True) := by
  unfold checkOwnership
  split
  · exact hproceed
  · refine Emits.seq ?_ fun current => ?_
    · exact (retrying_asks hhead _).seq fun _ => trivial
    · split
      · exact hchanged
      · exact hproceed

theorem putWhole_asks {V : Vocabulary (Cmd (api e)) Cmd.Resp PassError} {path : String} {body : List Char}
    {overwrite : Bool} {refusal : String}
    (hput : Emits V (request (.put path body (!overwrite)) : DavTask e Response) (fun _ => True)) :
    Emits V (putWhole path body overwrite refusal : DavTask e Written) (fun _ => True) := by
  refine (retrying_asks hput _).seq fun response => ?_
  split
  · split <;> trivial
  · split <;> trivial

theorem uploadObject_asks (K : ObjectKind) (id : String) (body : List Char) (uid : String)
    (overwrite : Bool) (expected : Option String) :
    Emits (writerVocabulary scope options keys) (uploadObject K id body uid overwrite expected : DavTask e _)
      (fun _ => True) :=
  checkOwnership_asks (request_asks _) trivial (putWhole_asks (request_asks _))

theorem noteObject_asks {V : Vocabulary (Cmd (api e)) Cmd.Resp PassError} {id uid path : String}
    (hkeys : Emits V (request (.keysIn id) : DavTask e _) (fun _ => True))
    (hnote : Emits V (request (.noteKey id uid path) : DavTask e Unit) (fun _ => True)) :
    Emits V (noteObject id uid path : DavTask e Unit) (fun _ => True) := by
  refine hkeys.seq fun listed => ?_
  cases listed with
  | none => trivial
  | some _ => exact hnote

theorem upsertObject_asks (K : ObjectKind) (scope : Scope) (id : String) (body : List Char)
    (options : UpsertOptions) (hdomain : K.domain = scope.domain)
    (hkeys : ∀ uid, extractUidOf K body = .ok uid → keys (K.naturalKeyHash uid)) :
    Emits (writerVocabulary scope options keys) (upsertObject K scope id body options : DavTask e _)
      (fun _ => True) := by
  have hscope : (⟨scope.tenantId, scope.mappingId, K.domain⟩ : Scope) = scope := by rw [hdomain]
  refine Emits.bind (fun uid => extractUidOf K body = .ok uid) ?_ fun uid huid => ?_
  · refine (Emits.ofExcept _ _).mpr ?_
    cases extractUidOf K body <;> simp
  split
  · refine (uploadObject_asks K _ _ _ _ _).seq fun written => ?_
    split
    · trivial
    · exact (noteObject_asks (request_asks _) (request_asks _)).seq fun _ => trivial
  refine (writer_find _ _).seq fun known => ?_
  split
  · trivial
  refine Emits.seq ?_ fun existing => ?_
  · refine (request_asks _).seq fun listed => ?_
    cases listed with
    | none => exact request_asks _
    | some _ => trivial
  cases existing with
  | some existingId =>
    exact Emits.seq (writer_record ⟨hscope, .inr rfl, rfl, rfl, hkeys uid huid⟩) fun _ => trivial
  | none =>
    refine (uploadObject_asks K _ _ _ _ _).seq fun written => (noteObject_asks (request_asks _) (request_asks _)).seq fun _ => ?_
    exact Emits.seq (writer_record ⟨hscope, .inl rfl, rfl, rfl, hkeys uid huid⟩) fun _ => trivial

variable (cfg : WebDAVTargetConfig) (sha256Hex : String → String) (fileContentHash : List Char → String)

theorem putChunks_asks {V : Vocabulary (Cmd (api e)) Cmd.Resp PassError} {path : String} {content : List Char}
    (hput : ∀ start chunk,
      Emits V (request (.putRange path start content.length chunk) : DavTask e Response) (fun _ => True))
    (size start n : ℕ) :
    Emits V (putChunks path content size start n : DavTask e Unit) (fun _ => True) := by
  induction n generalizing start with
  | zero => trivial
  | succ n ih =>
    refine (retrying_asks (hput _ _) _).seq fun response => ?_
    split
    · trivial
    · exact ih _

theorem uploadFile_asks (raw : RawFileItem) (overwrite : Bool) (expected : Option String) :
    Emits (writerVocabulary scope options keys) (uploadFile cfg raw overwrite expected : DavTask e Written)
      (fun _ => True) := by
  refine checkOwnership_asks (request_asks _) trivial ?_
  split
  · split
    · exact (putChunks_asks (fun _ _ => request_asks _) _ _ _).seq fun _ => trivial
    · exact putWhole_asks (request_asks _)
  · trivial

theorem noteFile_asks {V : Vocabulary (Cmd (api e)) Cmd.Resp PassError} {path targetId : String}
    (hkeys : Emits V (request .keysUnderRoot : DavTask e _) (fun _ => True))
    (hnote : Emits V (request (.noteRootKey (normalizeRelativePath path) targetId) : DavTask e Unit)
      (fun _ => True)) :
    Emits V (noteFile path targetId : DavTask e Unit) (fun _ => True) := by
  refine hkeys.seq fun listed => ?_
  cases listed with
  | none => trivial
  | some _ => exact hnote

theorem upsertFile_asks (scope : Scope) (raw : RawFileItem) (options : UpsertOptions)
    (hdomain : scope.domain = .file) (hkeys : keys (fileNaturalKeyHash sha256Hex raw.path)) :
    Emits (writerVocabulary scope options keys)
      (upsertFile cfg sha256Hex fileContentHash scope raw options : DavTask e _) (fun _ => True) := by
  have hscope : (⟨scope.tenantId, scope.mappingId, .file⟩ : Scope) = scope := by rw [← hdomain]
  unfold upsertFile
  split
  · refine (uploadFile_asks cfg _ _ _).seq fun written => ?_
    split
    · trivial
    · exact (noteFile_asks (request_asks _) (request_asks _)).seq fun _ => trivial
  refine (writer_find _ _).seq fun known => ?_
  split
  · trivial
  refine (request_asks _).seq fun _ => (request_asks _).seq fun dirs => ?_
  split
  · trivial
  refine Emits.seq ?_ fun existing => ?_
  · refine (request_asks _).seq fun listed => ?_
    cases listed with
    | some _ => trivial
    | none =>
      refine (request_asks _).seq fun found => ?_
      split <;> trivial
  cases existing with
  | some existingId =>
    exact Emits.seq (writer_record ⟨hscope, .inr rfl, rfl, rfl, hkeys⟩) fun _ => trivial
  | none =>
    refine (uploadFile_asks cfg _ _ _).seq fun written => (noteFile_asks (request_asks _) (request_asks _)).seq fun _ => ?_
    exact Emits.seq (writer_record ⟨hscope, .inl rfl, rfl, rfl, hkeys⟩) fun _ => trivial

end Asks

structure CollectionFolder where
  path : String
  name : Option String := none
  deriving DecidableEq

instance : FolderLike CollectionFolder where
  path f := some f.path
  name f := f.name

structure DavSource (Item : Type) where
  listFolders : Except PassError (List CollectionFolder)
  listSince : CollectionFolder → Option String → Except PassError (Listing Item)

/-- What the three wrappers of the loop are given beside their source and their target. -/
structure SyncDeps where
  tenantId : String
  mappingId : String
  cursors : Bool
  concurrency : Option ℕ := none
  onCollision : Option CollisionPolicy := none
  ensureCollection : CollectionFolder → Except PassError String

structure CalendarEvent where
  uid : String
  recurrenceId : Option String := none
  etag : Option String := none
  sourcePath : Option String := none
  deriving DecidableEq

structure RawCalendarEvent where
  item : CalendarEvent
  icalendar : List Char
  deriving DecidableEq

def naturalKeyForCalendar (sha256Hex : String → String) (event : CalendarEvent) : String :=
  calendarNaturalKeyHash sha256Hex
    (match truthy event.recurrenceId with
      | some recurrenceId => event.uid ++ "|" ++ recurrenceId
      | none => event.uid)

def calendarSync (e : Endpoint) (sha256Hex : String → String) (calendarContentHash : List Char → String)
    (deps : SyncDeps) (source : DavSource RawCalendarEvent) :
    DomainSyncDeps (api e) RawCalendarEvent CollectionFolder RawCalendarEvent where
  scope := ⟨deps.tenantId, deps.mappingId, .calendar⟩
  cursors := deps.cursors
  concurrency := deps.concurrency.getD DEFAULT_CONCURRENCY
  listFolders := source.listFolders
  listSince := source.listSince
  fetchRaw item := .ok (item, item.icalendar.length)
  upsert calendarId raw _ options :=
    upsertObject (calDAV sha256Hex calendarContentHash) ⟨deps.tenantId, deps.mappingId, .calendar⟩ calendarId
      raw.icalendar options
  sourceVersion item := item.item.etag
  sourceRef item := item.item.sourcePath
  naturalKey item := some (naturalKeyForCalendar sha256Hex item.item)
  listCollectionKeys := none
  listDiscardedKeys := none
  naturalKeyFromRaw := none
  contentHash raw := calendarContentHash raw.icalendar
  onCollision := deps.onCollision.getD .skip
  ensureCollection := deps.ensureCollection
  upsert_asks _ _ _ _ := upsertObject_asks _ _ _ _ _ rfl fun _ _ => trivial
  listDiscardedKeys_asks := by simp

structure Contact where
  uid : String
  etag : Option String := none
  sourcePath : Option String := none
  deriving DecidableEq

structure RawContact where
  item : Contact
  vcard : List Char
  deriving DecidableEq

def contactSync (e : Endpoint) (sha256Hex : String → String) (contactContentHash : List Char → String)
    (deps : SyncDeps) (source : DavSource RawContact) :
    DomainSyncDeps (api e) RawContact CollectionFolder RawContact where
  scope := ⟨deps.tenantId, deps.mappingId, .contact⟩
  cursors := deps.cursors
  concurrency := deps.concurrency.getD DEFAULT_CONCURRENCY
  listFolders := source.listFolders
  listSince := source.listSince
  fetchRaw item := .ok (item, item.vcard.length)
  upsert folderId raw _ options :=
    upsertObject (cardDAV sha256Hex contactContentHash) ⟨deps.tenantId, deps.mappingId, .contact⟩ folderId
      raw.vcard options
  sourceVersion item := item.item.etag
  sourceRef item := item.item.sourcePath
  naturalKey item := some (contactNaturalKeyHash sha256Hex item.item.uid)
  listCollectionKeys := none
  listDiscardedKeys := none
  naturalKeyFromRaw := none
  contentHash raw := contactContentHash raw.vcard
  onCollision := deps.onCollision.getD .skip
  ensureCollection := deps.ensureCollection
  upsert_asks _ _ _ _ := upsertObject_asks _ _ _ _ _ rfl fun _ _ => trivial
  listDiscardedKeys_asks := by simp

structure FileItem where
  path : String
  size : ℕ
  etag : Option String := none
  sourceRef : String := ""
  content : Option (List Char) := none
  contentHash : Option String := none
  modifiedAt : String := ""
  deriving DecidableEq

structure TrashListing where
  paths : List String
  unnameable : ℕ
  reason : Option String := none

structure FileSource extends DavSource FileItem where
  fetch : FileItem → Except PassError (Option (List Char))
  listKeys : Option (CollectionFolder → Except PassError (List String)) := none
  listTrashedPaths : Option (Except PassError TrashListing) := none

/-- `item.content ?? (await source.fetch(item.item)).content` -/
def FileSource.contentOf (source : FileSource) (item : FileItem) : Except PassError (Option (List Char)) :=
  match item.content with
  | some content => .ok (some content)
  | none => source.fetch item

def FileSource.fetchRaw (source : FileSource) (item : FileItem) : Except PassError (RawFileItem × ℕ) :=
  match source.contentOf item with
  | .error err => .error err
  | .ok none => .error (.error s!"File source returned no content for {item.path}")
  | .ok (some content) =>
    .ok (⟨item.path, some content⟩, if content.length = 0 then item.size else content.length)

def fileSync (e : Endpoint) (cfg : WebDAVTargetConfig) (sha256Hex : String → String)
    (fileContentHash : List Char → String) (deps : SyncDeps) (source : FileSource) :
    DomainSyncDeps (api e) FileItem CollectionFolder RawFileItem where
  scope := ⟨deps.tenantId, deps.mappingId, .file⟩
  cursors := deps.cursors
  concurrency := deps.concurrency.getD DEFAULT_CONCURRENCY
  listFolders := source.listFolders
  listSince := source.listSince
  fetchRaw := source.fetchRaw
  upsert _ raw _ options :=
    upsertFile cfg sha256Hex fileContentHash ⟨deps.tenantId, deps.mappingId, .file⟩ raw options
  sourceVersion item := item.etag
  sourceRef item := (truthy (some item.sourceRef)).or (some item.path)
  naturalKey item := some (fileNaturalKeyHash sha256Hex item.path)
  listCollectionKeys := source.listKeys.map fun listKeys folder =>
    (listKeys folder).map (List.map (fileNaturalKeyHash sha256Hex))
  listDiscardedKeys := source.listTrashedPaths.map fun listing =>
    (Prog.ofExcept listing).bind fun listing =>
    .ret ⟨listing.paths.map (fileNaturalKeyHash sha256Hex), listing.unnameable, truthy listing.reason⟩
  naturalKeyFromRaw := none
  contentHash raw := fileContentHash (raw.content.getD [])
  onCollision := deps.onCollision.getD .skip
  ensureCollection := deps.ensureCollection
  upsert_asks _ _ _ _ := upsertFile_asks _ _ _ _ _ _ rfl trivial
  listDiscardedKeys_asks := by
    intro p hp
    obtain ⟨listing, -, rfl⟩ := Option.map_eq_some_iff.mp hp
    exact Emits.seq ((Emits.ofExcept _ _).mpr trivial) fun _ => trivial

end OpenMigrate.Dav
