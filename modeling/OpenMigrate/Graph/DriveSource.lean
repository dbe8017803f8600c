import OpenMigrate.Dav.WebdavSource

namespace OpenMigrate.Graph

open Dav (CollectionFolder FileItem FileSource collapse)

/-- Deeper than any real drive nests. -/
def MAX_FOLDER_DEPTH : ℕ := 64

structure GraphDriveItem where
  id : String
  name : List Char
  /-- `parentReference?.path` -/
  parentPath : Option (List Char) := none
  size : ℕ := 0
  lastModifiedDateTime : String := ""
  cTag : Option String := none
  quickXorHash : Option String := none
  folder : Bool := false
  deleted : Bool := false

/-- What comes of one listing: its pages, each got at the `@odata.nextLink` of the one before. -/
inductive Pages where
  | failed (status : ℕ) (body : String)
  | last (value : List GraphDriveItem) (deltaLink : Option (List Char))
  | more (value : List GraphDriveItem) (rest : Pages)

/-- The connector's runtime, its `{baseUrl}/me` or `{baseUrl}/users/{address}`, and the service behind them. -/
structure GraphClient where
  scope : List Char
  encodeURIComponent : List Char → List Char
  stringify : FileItem → String
  get : List Char → Pages
  getContent : List Char → Except (ℕ × String) (List Char)

section Paths

/-- What follows the first `root:`. -/
def afterMarker : List Char → Option (List Char)
  | [] => none
  | c :: rest => if ['r', 'o', 'o', 't', ':'].isPrefixOf (c :: rest) then some (rest.drop 4) else afterMarker rest

def resolveDots (segments : List (List Char)) : List (List Char) :=
  segments.foldl (fun resolved segment =>
    if segment = ['.'] ∨ segment = [] then resolved
    else if segment = ['.', '.'] then resolved.dropLast
    else resolved ++ [segment]) []

def normalizePath (path : List Char) : List Char :=
  if path = [] then ['/']
  else
    let slashes := collapse (if path.head? = some '/' then path else '/' :: path)
    let resolved := '/' :: List.intercalate ['/'] (resolveDots (slashes.splitOn '/'))
    let result := if 1 < resolved.length ∧ resolved.getLast? = some '/' then resolved.dropLast else resolved
    if result = [] then ['/'] else result

def itemPath (item : GraphDriveItem) : Option (List Char) :=
  if item.name = [] then none
  else (item.parentPath.bind afterMarker).map fun dir => normalizePath (dir ++ '/' :: item.name)

def cursorTag : List Char := "graph-drive-delta:".toList

def encodeCursor (folderPath deltaLink : List Char) : List Char := cursorTag ++ (folderPath ++ ':' :: deltaLink)

/-- The delta link of a cursor, unless it is none of ours. -/
def decodeCursor (value : List Char) : Option (List Char) :=
  if cursorTag.isPrefixOf value then
    let parts := (value.drop cursorTag.length).splitOn ':'
    if parts.length < 2 then none else some (List.intercalate [':'] (parts.drop 1))
  else none

end Paths

variable (client : GraphClient)

def rootChildren : List Char := client.scope ++ "/drive/root/children".toList

def childrenOf (id : String) : List Char := client.scope ++ "/drive/items/".toList ++ id.toList ++ "/children".toList

def deltaUrl (folderPath : List Char) : List Char :=
  if folderPath = ['/'] ∨ folderPath = [] then client.scope ++ "/drive/root/delta".toList
  else
    client.scope ++ "/drive/root:".toList ++
      List.intercalate ['/'] ((folderPath.splitOn '/').map client.encodeURIComponent) ++ ":/delta".toList

section Walk

variable (descend : GraphDriveItem → Except PassError (List CollectionFolder))

def walkItems : List GraphDriveItem → Except PassError (List CollectionFolder)
  | [] => .ok []
  | item :: rest =>
    if item.folder then (descend item).bind fun found => (walkItems rest).map (found ++ ·) else walkItems rest

def walkPages : Pages → Except PassError (List CollectionFolder)
  | .failed status body => .error (.error s!"Failed to list drive items: {status} - {body}")
  | .last value _ => walkItems descend value
  | .more value rest => (walkItems descend value).bind fun found => (walkPages rest).map (found ++ ·)

end Walk

/-- The walk, with `levels` left before it refuses to go deeper. -/
def walk : ℕ → List Char → List Char → Except PassError (List CollectionFolder)
  | 0, _, at_ => .error (.error (s!"OneDrive folder walk passed {MAX_FOLDER_DEPTH} levels at " ++
      s!"\"{String.ofList at_}\" — refusing to keep recursing."))
  | levels + 1, url, at_ =>
    walkPages (fun item =>
      let path := at_ ++ '/' :: item.name
      (walk levels (childrenOf client item.id) path).map
        (⟨String.ofList path, some (String.ofList item.name)⟩ :: ·)) (client.get url)

def listFolders : Except PassError (List CollectionFolder) :=
  (walk client (MAX_FOLDER_DEPTH + 1) (rootChildren client) []).map (⟨"", none⟩ :: ·)

/-- All the pages of a delta query, and the link of the last one. -/
def readDelta : Pages → Except PassError (List GraphDriveItem × Option (List Char))
  | .failed status body => .error (.error s!"Failed to list drive changes: {status} - {body}")
  | .last value deltaLink => .ok (value, deltaLink)
  | .more value rest => (readDelta rest).map fun r => (value ++ r.1, r.2)

def toFileItem (item : GraphDriveItem) (path : List Char) : FileItem where
  path := String.ofList path
  size := item.size
  sourceRef := item.id
  contentHash := (truthy item.quickXorHash).or item.cTag
  modifiedAt := item.lastModifiedDateTime

/-- What a poll makes of all that its pages held. -/
def driveListing (folder : CollectionFolder) (value : List GraphDriveItem) (lastDeltaLink : Option (List Char)) :
    Listing FileItem where
  items := (value.filter fun item => !item.deleted && !item.folder).filterMap fun item =>
    (itemPath item).map (toFileItem item)
  nextCursor := String.ofList (encodeCursor folder.path.toList (lastDeltaLink.getD []))
  removed := ((value.filter (·.deleted)).map (·.id)).filter (· != "")

def listSince (folder : CollectionFolder) (cursor : Option String) : Except PassError (Listing FileItem) :=
  let deltaLink := cursor.bind fun value => decodeCursor value.toList
  (readDelta (client.get (deltaLink.getD (deltaUrl client folder.path.toList)))).map fun r =>
  driveListing folder r.1 r.2

def fetch (item : FileItem) : Except PassError (Option (List Char)) :=
  if item.sourceRef = "" then .error (.error s!"Item missing sourceRef: {client.stringify item}")
  else
    match client.getContent (client.scope ++ "/drive/items/".toList ++ item.sourceRef.toList ++ "/content".toList) with
    | .ok content => .ok (some content)
    | .error (status, body) => .error (.error s!"Failed to download file: {status} - {body}")

def driveSource : FileSource where
  listFolders := listFolders client
  listSince := listSince client
  fetch := fetch client

end OpenMigrate.Graph
