import OpenMigrate.Dav.DavSync
import OpenMigrate.Text
import Mathlib.Data.List.DropRight

namespace OpenMigrate.Dav

/-- What the connector takes from its runtime: the URL parser, URI decoding, dates and its cursors' coding. -/
structure Runtime where
  /-- `new URL(url).pathname` -/
  pathname : List Char → List Char
  /-- `new URL(path, new URL(base).origin).toString()` -/
  resolve : List Char → List Char → List Char
  decodeURIComponent : List Char → Option (List Char)
  parseDate : String → String
  now : String

structure WebDAVSourceConfig where
  url : List Char
  rootPath : Option (List Char) := none

structure PropfindResponseEntry where
  href : List Char
  displayName : Option String := none
  collection : Bool
  getContentLength : Option ℕ := none
  getLastModified : Option String := none
  getEtag : Option (List Char) := none

structure WebDAVFile where
  path : String
  name : String
  size : ℕ
  modifiedAt : String
  etag : String

/-- What a listing remembers of a folder: three records, newest pair first. -/
structure FolderCursor where
  folder : String
  etags : List (String × String)
  sizes : List (String × ℕ)
  mtimes : List (String × String)

structure FileListing where
  items : List FileItem
  nextCursor : FolderCursor

section Paths

/-- `.replace(/\/+/g, '/')` -/
def collapse : List Char → List Char
  | '/' :: '/' :: rest => collapse ('/' :: rest)
  | c :: rest => c :: collapse rest
  | [] => []

def normalizePath (path : List Char) : List Char :=
  let slashes := collapse (path.map fun c => if c = '\\' then '/' else c)
  let rooted := if slashes.head? = some '/' then slashes else '/' :: slashes
  if rooted ≠ ['/'] ∧ rooted.getLast? = some '/' then rooted.dropLast else rooted

def extractNameFromPath (path : List Char) : List Char :=
  ((((normalizePath path).splitOn '/').filter (· ≠ [])).getLast?).getD "root".toList

def cleanEtag (etag : List Char) : List Char :=
  match trim etag, (trim etag).reverse with
  | '"' :: rest, '"' :: _ => rest.dropLast
  | cleaned, _ => cleaned

variable (js : Runtime) (cfg : WebDAVSourceConfig)

def buildUrl (relativePath : List Char) : List Char :=
  if relativePath = [] then
    if cfg.url.getLast? = some '/' then cfg.url.dropLast else cfg.url
  else
    (if cfg.url.getLast? = some '/' then cfg.url else cfg.url ++ ['/']) ++
      if relativePath.head? = some '/' then relativePath.tail else relativePath

def resolveHref (href : List Char) : List Char :=
  js.resolve cfg.url (if href.head? = some '/' then href else '/' :: href)

def basePathname : List Char :=
  let pathname := js.pathname (buildUrl cfg (cfg.rootPath.getD []))
  if pathname.getLast? = some '/' then pathname else pathname ++ ['/']

def toRelativePath (href : List Char) : Except PassError (List Char) :=
  let pathname := js.pathname (resolveHref js cfg href)
  let base := basePathname js cfg
  let relative :=
    if pathname = base ∨ pathname = base.dropLast then []
    else if base.isPrefixOf pathname then pathname.drop base.length
    else pathname.dropWhile (· == '/')
  match js.decodeURIComponent relative with
  | some decoded => .ok (decoded.rdropWhile (· == '/'))
  | none => .error (.error "URI malformed")

def combineWithRootPath (relativePath : List Char) : List Char :=
  let root := (cfg.rootPath.getD []).rdropWhile (· == '/')
  let rel := relativePath.dropWhile (· == '/')
  if rel = [] then if root = [] then ['/'] else root
  else if root = [] then '/' :: rel else root ++ '/' :: rel

end Paths

section Source

variable (js : Runtime) (cfg : WebDAVSourceConfig)
variable (send : List Char → Except (ℕ × String) (List PropfindResponseEntry))

def parsePropfindEntry (entry : PropfindResponseEntry) : PropfindResponseEntry :=
  { entry with href := normalizePath (trim entry.href) }

/-- A `PROPFIND` of depth 1; `send` is the server, by URL. -/
def performPropfind (path : List Char) : Except PassError (List PropfindResponseEntry) :=
  match send (buildUrl cfg path) with
  | .ok responses => .ok (responses.map parsePropfindEntry)
  | .error (status, body) => .error (.error s!"PROPFIND failed with status {status}: {body}")

def parseFolderFromEntry (entry : PropfindResponseEntry) : Except PassError CollectionFolder :=
  (toRelativePath js cfg entry.href).map fun path =>
    ⟨String.ofList path, (truthy entry.displayName).or (some (String.ofList (extractNameFromPath entry.href)))⟩

/-- `this.config.rootPath || '/'` -/
def WebDAVSourceConfig.root (cfg : WebDAVSourceConfig) : List Char :=
  match cfg.rootPath with
  | none | some [] => ['/']
  | some path => path

def listFolders : Except PassError (List CollectionFolder) :=
  (performPropfind cfg send cfg.root).bind fun responses =>
  (responses.filter (·.collection)).mapM (parseFolderFromEntry js cfg)

/-- The last segment of an href, decoded. -/
def baseName (href : List Char) : Except PassError (List Char) :=
  let pathname := js.pathname (js.resolve "http://localhost".toList href)
  match js.decodeURIComponent (((pathname.splitOn '/').filter (· ≠ [])).getLast?.getD []) with
  | some name => .ok name
  | none => .error (.error "URI malformed")

def parseFileFromEntry (entry : PropfindResponseEntry) : Except PassError WebDAVFile :=
  (baseName js entry.href).bind fun name =>
  (toRelativePath js cfg entry.href).map fun path =>
    { path := String.ofList path
      name := String.ofList name
      size := entry.getContentLength.getD 0
      modifiedAt := (entry.getLastModified.map js.parseDate).getD js.now
      etag := String.ofList (cleanEtag (entry.getEtag.getD [])) }

def hasChanged (cursor : Option FolderCursor) (file : WebDAVFile) : Bool :=
  match cursor with
  | none => true
  | some cursor =>
    match cursor.etags.lookup file.path with
    | some prevEtag =>
      !(prevEtag == file.etag && cursor.sizes.lookup file.path == some file.size &&
        cursor.mtimes.lookup file.path == some file.modifiedAt)
    | none => true

/-- `record[key] = value`: giving the key `__proto__` a text or a number does nothing. -/
def setKey {V : Type} (record : List (String × V)) (key : String) (value : V) : List (String × V) :=
  if key = "__proto__" then record else (key, value) :: record

/-- The record the loop of `buildCursor` fills with what it finds in each file. -/
def recordOf {V : Type} (value : WebDAVFile → Option V) (files : List WebDAVFile) : List (String × V) :=
  files.foldl (fun record file =>
    match value file with
    | some v => setKey record file.path v
    | none => record) []

def buildCursor (folderPath : List Char) (files : List WebDAVFile) : FolderCursor where
  folder := String.ofList folderPath
  etags := recordOf (fun file => if file.etag ≠ "" then some file.etag else none) files
  sizes := recordOf (fun file => some file.size) files
  mtimes := recordOf (fun file => some file.modifiedAt) files

/-- An item without its content, which is fetched on its own; `sourceRef` is the server's href. -/
def fileItem (file : WebDAVFile) (entry : PropfindResponseEntry) : FileItem where
  path := file.path
  size := file.size
  etag := some file.etag
  sourceRef := String.ofList entry.href
  modifiedAt := file.modifiedAt

def listSince (folder : CollectionFolder) (cursor : Option FolderCursor) : Except PassError FileListing :=
  let folderPath := normalizePath folder.path.toList
  (performPropfind cfg send (combineWithRootPath cfg folderPath)).bind fun responses =>
  ((responses.filter (!·.collection)).mapM fun entry =>
    (parseFileFromEntry js cfg entry).map fun file => (file, entry)).map fun files =>
  let changed := files.filter fun e => hasChanged cursor e.1
  ⟨changed.map fun e => fileItem e.1 e.2, buildCursor folderPath (changed.map (·.1))⟩

end Source

end OpenMigrate.Dav
