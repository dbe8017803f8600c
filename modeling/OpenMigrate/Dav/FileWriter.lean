import OpenMigrate.Dav.Requests

namespace OpenMigrate.Dav

open Async

variable {e : Endpoint}

structure WebDAVTargetConfig where
  chunkedUploads : Bool
  chunkSize : Option ℕ
  removalKind : RemovalKind

structure RawFileItem where
  path : String
  content : Option (List Char)

def fileNaturalKeyHash (sha256Hex : String → String) (path : String) : String := sha256Hex ("file:" ++ path)

/-- `this.config.chunkSize || 10 * 1024 * 1024` -/
def WebDAVTargetConfig.size (cfg : WebDAVTargetConfig) : ℕ :=
  match cfg.chunkSize with
  | some (n + 1) => n + 1
  | _ => 10 * 1024 * 1024

variable (cfg : WebDAVTargetConfig) (sha256Hex : String → String) (fileContentHash : List Char → String)
  (scope : Scope)

/-- The chunks of an upload from one offset on, `n` of them. -/
def putChunks (filePath : String) (content : List Char) (chunkSize : ℕ) : ℕ → ℕ → DavTask e Unit
  | _, 0 => .ret ()
  | start, n + 1 =>
    (requestWithDavRetry (request (.putRange filePath start content.length
      ((content.drop start).take chunkSize)))).bind fun response =>
    if response.status ≠ 200 ∧ response.status ≠ 201 ∧ response.status ≠ 204 then
      .fail (.error s!"Chunked PUT failed for {filePath} with status {response.status}: {response.body}")
    else putChunks filePath content chunkSize (start + chunkSize) n

def uploadFileChunked (filePath : String) (content : List Char) : DavTask e Written :=
  (putChunks filePath content cfg.size 0 ((content.length + cfg.size - 1) / cfg.size)).bind fun _ =>
  .ret { path := filePath }

def refusedFileRewrite (filePath : String) : String :=
  s!"PUT for {filePath} was refused with 412 on a deliberate rewrite. The file was NOT replaced."

def uploadFile (raw : RawFileItem) (overwrite : Bool) (expectedTargetVersion : Option String) :
    DavTask e Written :=
  let filePath := normalizeRelativePath raw.path
  checkOwnership filePath (if overwrite then expectedTargetVersion else none)
    (.ret { path := filePath, conflicted := true })
    (match raw.content with
      | some content =>
        if cfg.chunkedUploads && decide (cfg.size < content.length) then uploadFileChunked cfg filePath content
        else putWhole filePath content overwrite (refusedFileRewrite filePath)
      | none => .ret { path := filePath })

def noteFile (path targetId : String) : DavTask e Unit :=
  (request .keysUnderRoot).bind fun
    | some _ => request (.noteRootKey (normalizeRelativePath path) targetId)
    | none => .ret ()

def findFileByNaturalKey (path : String) : DavTask e (Option String) :=
  let filePath := normalizeRelativePath path
  (request (.propfind filePath)).bind fun
    | some true =>
      .fail (.error s!"Cannot write {filePath}: the target already holds a DIRECTORY at that path.")
    | some false => .ret (some filePath)
    | none => .ret none

def existingFile (path : String) : DavTask e (Option String) :=
  (request .keysUnderRoot).bind fun
    | some keys => .ret (keys.lookup (normalizeRelativePath path))
    | none => findFileByNaturalKey path

def fileRecord (raw : RawFileItem) (targetId : String) (options : UpsertOptions) : LedgerRecord where
  tenantId := scope.tenantId
  itemType := .file
  mappingId := scope.mappingId
  naturalKeyHash := fileNaturalKeyHash sha256Hex raw.path
  contentHash := fileContentHash (raw.content.getD [])
  targetId := targetId
  sizeBytes := some ((raw.content.map List.length).getD 0)
  sourceVersion := options.sourceVersion
  collection := options.collection
  sourceRef := options.sourceRef

def rewriteFile (raw : RawFileItem) (options : UpsertOptions) : DavTask e UpsertResult :=
  (uploadFile cfg raw true options.expectedTargetVersion).bind fun written =>
  if written.conflicted then .ret { targetId := written.path, created := false, conflicted := true }
  else
    (noteFile raw.path written.path).bind fun _ =>
    .ret { targetId := written.path, created := false, updated := true, targetVersion := written.etag }

def adoptFile (raw : RawFileItem) (options : UpsertOptions) (existingId : String) :
    DavTask e UpsertResult :=
  (Task.ledger (.recordIfAbsent
    { fileRecord sha256Hex fileContentHash scope raw existingId options with
      status := some .adopted })).bind fun _ =>
  .ret { targetId := existingId, created := false, adopted := true }

def createFile (raw : RawFileItem) (options : UpsertOptions) : DavTask e UpsertResult :=
  (uploadFile cfg raw false none).bind fun written =>
  (noteFile raw.path written.path).bind fun _ =>
  (Task.ledger (.recordIfAbsent
    { fileRecord sha256Hex fileContentHash scope raw written.path options with
      targetVersion := written.etag })).bind fun _ =>
  .ret { targetId := written.path, created := true, targetVersion := written.etag }

def directoryInTheWay (path : String) : String :=
  s!"Cannot write {path}: the target already holds a DIRECTORY at that path. " ++
    "Writing the file would destroy it, and adopting the directory would record an " ++
    "item that was never copied. Rename the source file and retry, or accept leaving " ++
    "it behind."

def upsertFile (raw : RawFileItem) (options : UpsertOptions) : DavTask e UpsertResult :=
  if options.overwrite then rewriteFile cfg raw options
  else
    (Task.ledger (.find { scope with domain := .file } (fileNaturalKeyHash sha256Hex raw.path))).bind
      fun known =>
    match known.filter (fun r => isOnTarget r.status) with
    | some known => .ret { targetId := known.targetId, created := false }
    | none =>
      (request .keysUnderRoot).bind fun _ =>
      (request .rootDirs).bind fun dirs =>
      if dirs.contains (normalizeRelativePath raw.path) then .fail (.error (directoryInTheWay raw.path))
      else
        (existingFile raw.path).bind fun
          | some existingId => adoptFile sha256Hex fileContentHash scope raw options existingId
          | none => createFile cfg sha256Hex fileContentHash scope raw options

def removeFile (targetId : String) (expectedTargetVersion : Option String) : DavTask e RemovalResult :=
  (assertRemovableTargetId targetId "this file").bind fun _ =>
  removeDavResource (normalizeRelativePath targetId) expectedTargetVersion cfg.removalKind

def hasFile (targetId : String) : DavTask e Bool :=
  (request (.head (normalizeRelativePath targetId))).bind fun response =>
  if response.status = 404 ∨ response.status = 410 then .ret false
  else if succeeded response then .ret true
  else
    .fail (.error (s!"The target could not say whether {targetId} is still there " ++
      s!"(HTTP {response.status}). Nothing was removed."))

end OpenMigrate.Dav
