import OpenMigrate.Dav.Requests

namespace OpenMigrate.Dav

open Async

variable {e : Endpoint}

/-- What sets the CalDAV and the CardDAV writer apart. -/
structure ObjectKind where
  domain : Domain
  extension : String
  missingUid : String
  refusedRewrite : String → String
  naturalKeyHash : String → String
  contentHash : List Char → String

def calendarNaturalKeyHash (sha256Hex : String → String) (uid : String) : String :=
  sha256Hex ("cal:" ++ String.ofList (lower uid.toList))

def contactNaturalKeyHash (sha256Hex : String → String) (uid : String) : String :=
  sha256Hex ("card:" ++ uid)

def calDAV (sha256Hex : String → String) (calendarContentHash : List Char → String) : ObjectKind where
  domain := .calendar
  extension := ".ics"
  missingUid := "Invalid iCalendar data: missing UID"
  refusedRewrite path :=
    s!"PUT for {path} was refused with 412 on a deliberate rewrite. " ++
      "The item was NOT replaced; reporting it as updated would record a copy the target does not hold."
  naturalKeyHash := calendarNaturalKeyHash sha256Hex
  contentHash := calendarContentHash

def cardDAV (sha256Hex : String → String) (contactContentHash : List Char → String) : ObjectKind where
  domain := .contact
  extension := ".vcf"
  missingUid := "Invalid vCard data: missing UID"
  refusedRewrite path :=
    s!"PUT for {path} was refused with 412 on a deliberate rewrite. The item was NOT replaced."
  naturalKeyHash := contactNaturalKeyHash sha256Hex
  contentHash := contactContentHash

/-- The text after the first `UID:`, to the end of its line: `/UID:[^\r\n]+/i`. -/
def matchUid : List Char → Option (List Char)
  | [] => none
  | c :: rest =>
    let line := ((c :: rest).drop 4).takeWhile (fun x => x != '\r' && x != '\n')
    if lower ((c :: rest).take 4) == "uid:".toList && !line.isEmpty then some line else matchUid rest

/-- `extractUidFromIcalendar` and `extractUidFromVcard`: the match split at its colons, second part. -/
def extractUidOf (K : ObjectKind) (body : List Char) : Except PassError String :=
  match matchUid body with
  | none => .error (.error K.missingUid)
  | some line => .ok (String.ofList (trim (line.takeWhile (· != ':'))))

variable (K : ObjectKind) (scope : Scope)

def objectPath (collectionId uid : String) : String := collectionId ++ (uid ++ K.extension)

def uploadObject (collectionId : String) (body : List Char) (uid : String) (overwrite : Bool)
    (expectedTargetVersion : Option String) : DavTask e Written :=
  let path := objectPath K collectionId uid
  checkOwnership path (if overwrite then expectedTargetVersion else none)
    (.ret { path := path, conflicted := true })
    (putWhole path body overwrite (K.refusedRewrite path))

/-- `(await this.keysIn(id))?.set(key, path)` -/
def noteObject (collectionId uid path : String) : DavTask e Unit :=
  (request (.keysIn collectionId)).bind fun
    | some _ => request (.noteKey collectionId uid path)
    | none => .ret ()

def existingObject (collectionId uid : String) : DavTask e (Option String) :=
  (request (.keysIn collectionId)).bind fun
    | some keys => .ret (keys.lookup uid)
    | none => request (.report collectionId uid)

def objectRecord (uid : String) (body : List Char) (targetId : String) (options : UpsertOptions) :
    LedgerRecord where
  tenantId := scope.tenantId
  itemType := K.domain
  mappingId := scope.mappingId
  naturalKeyHash := K.naturalKeyHash uid
  contentHash := K.contentHash body
  targetId := targetId
  sizeBytes := some body.length
  sourceVersion := options.sourceVersion
  collection := options.collection
  sourceRef := options.sourceRef

def rewriteObject (collectionId : String) (body : List Char) (uid : String) (options : UpsertOptions) :
    DavTask e UpsertResult :=
  (uploadObject K collectionId body uid true options.expectedTargetVersion).bind fun written =>
  if written.conflicted then .ret { targetId := written.path, created := false, conflicted := true }
  else
    (noteObject collectionId uid written.path).bind fun _ =>
    .ret { targetId := written.path, created := false, updated := true, targetVersion := written.etag }

def adoptObject (uid : String) (body : List Char) (options : UpsertOptions) (existingId : String) :
    DavTask e UpsertResult :=
  (Task.ledger (.recordIfAbsent
    { objectRecord K scope uid body existingId options with status := some .adopted })).bind fun _ =>
  .ret { targetId := existingId, created := false, adopted := true }

def createObject (collectionId : String) (body : List Char) (uid : String) (options : UpsertOptions) :
    DavTask e UpsertResult :=
  (uploadObject K collectionId body uid false none).bind fun written =>
  (noteObject collectionId uid written.path).bind fun _ =>
  (Task.ledger (.recordIfAbsent
    { objectRecord K scope uid body written.path options with targetVersion := written.etag })).bind fun _ =>
  .ret { targetId := written.path, created := true, targetVersion := written.etag }

/-- `upsertCalendarEvent` and `upsertContact`. -/
def upsertObject (collectionId : String) (body : List Char) (options : UpsertOptions) :
    DavTask e UpsertResult :=
  (Prog.ofExcept (extractUidOf K body)).bind fun uid =>
  if options.overwrite then rewriteObject K collectionId body uid options
  else
    (Task.ledger (.find { scope with domain := K.domain } (K.naturalKeyHash uid))).bind fun known =>
    match known.filter (fun r => isOnTarget r.status) with
    | some known => .ret { targetId := known.targetId, created := false }
    | none =>
      (existingObject collectionId uid).bind fun
        | some existingId => adoptObject K scope uid body options existingId
        | none => createObject K scope collectionId body uid options

def removeObject (targetId : String) (expectedTargetVersion : Option String) : DavTask e RemovalResult :=
  (assertRemovableTargetId targetId "this item").bind fun _ =>
  removeDavResource targetId expectedTargetVersion .deleted

end OpenMigrate.Dav
