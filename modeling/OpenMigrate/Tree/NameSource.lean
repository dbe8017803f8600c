import OpenMigrate.Tree.Forest

namespace OpenMigrate.Tree

abbrev Text := List Char

/-- A child of a folder as a listing has it. -/
structure Entry where
  id : String
  name : Text
  deriving DecidableEq

/-- An account whose folders have identifiers and display names, its files at their folders. -/
structure IdTree where
  rootId : String
  files : List Entry
  folders : Forest String Text Entry
  distinct : (rootId :: folders.ids).Nodup

namespace IdTree

variable (t : IdTree)

/-- What the folder of an identifier holds: its files, and the folders inside it. -/
def Holds (id : String) (files : List Entry) (inside : Forest String Text Entry) : Prop :=
  id = t.rootId ∧ files = t.files ∧ inside = t.folders ∨
    ∃ n ∈ t.folders.nodes, id = n.id ∧ files = n.items ∧ inside = n.inside

/-- Every file of the account with the names of the folders that lead to it. -/
def filed : List (List Text × Entry) :=
  t.files.map (fun f => ([], f)) ++ t.folders.located.flatMap fun e => e.2.items.map fun f => (e.1, f)

end IdTree

def entriesOf (F : Forest String Text Entry) : List Entry := F.roots.map fun n => ⟨n.id, n.name⟩

structure RawFileItem where
  path : Text
  name : Text
  sourceRef : String

/-- What the sources of id-based trees share: a root, and a listing of one folder's folders or files. -/
structure NameSource where
  rootId : String
  service : String
  childFolders : String → Except String (List Entry)
  childFiles : String → Except String (List Entry)

def childPath (folderPath name : Text) : Text := if folderPath = [] then name else folderPath ++ '/' :: name

/-- The path that is derived from the names that lead to a folder. -/
def pathOf (names : List Text) : Text := names.foldl childPath []

namespace NameSource

variable (S : NameSource)

def walkChildren (visit : String → Text → Except String (List (Text × String))) (above : Text) :
    List Entry → Except String (List (Text × String))
  | [] => .ok []
  | child :: rest =>
    let path := childPath above child.name
    (visit child.id path).bind fun below =>
      (walkChildren visit above rest).map fun others => (path, child.id) :: below ++ others

/-- The folders under one, depth first, each with the identifier it was derived from. -/
def walk : ℕ → String → Text → Except String (List (Text × String))
  | 0, _, _ => .ok []
  | depth + 1, folderId, path => (S.childFolders folderId).bind (walkChildren (walk depth) path)

def listFolders (depth : ℕ) : Except String (List (Text × String)) :=
  (S.walk depth S.rootId []).map fun below => ([], S.rootId) :: below

def noFolder (segment path : Text) : String :=
  "No folder \"" ++ String.ofList segment ++ "\" under \"" ++ String.ofList path ++ "\" in this " ++ S.service ++ "."

def resolveFrom (path : Text) (current : String) : List Text → Except String String
  | [] => .ok current
  | segment :: rest =>
    (S.childFolders current).bind fun children =>
      match children.find? fun c => c.name = segment with
      | none => .error (S.noFolder segment path)
      | some child => resolveFrom path child.id rest

/-- Walk the derived path back to the id it names. -/
def resolveFolderId (path : Text) : Except String String :=
  if path = [] then .ok S.rootId else S.resolveFrom path S.rootId (path.splitOn '/')

def toFileItem (folderPath : Text) (file : Entry) : RawFileItem where
  path := childPath folderPath file.name
  name := file.name
  sourceRef := file.id

def listSince (folderPath : Text) : Except String (List RawFileItem) :=
  (S.resolveFolderId folderPath).bind fun folderId => (S.childFiles folderId).map (·.map (toFileItem folderPath))

end NameSource

section Drive

/-- The answers of the Drive service, page by page, for an account. -/
structure DriveApi (t : IdTree) where
  pages : String → Bool → List (List Entry)
  folders : ∀ id files inside, t.Holds id files inside → (pages id true).flatten = entriesOf inside
  files : ∀ id files inside, t.Holds id files inside → (pages id false).flatten = files

variable {t : IdTree} (api : DriveApi t)

namespace GoogleDriveSource

def listChildren (folderId : String) (foldersOnly : Bool) : List Entry := (api.pages folderId foldersOnly).flatten

end GoogleDriveSource

def googleDriveSource : NameSource where
  rootId := t.rootId
  service := "Drive"
  childFolders id := .ok (GoogleDriveSource.listChildren api id true)
  childFiles id := .ok (GoogleDriveSource.listChildren api id false)

end Drive

section Box

inductive BoxType where
  | file
  | folder
  | webLink
  deriving DecidableEq

structure BoxItem where
  type : BoxType
  entry : Entry

/-- The answers of the Box service: a folder's page holds its items of every type. -/
structure BoxApi (t : IdTree) where
  pages : String → List (List BoxItem)
  folders : ∀ id files inside, t.Holds id files inside →
    (((pages id).flatten.filter fun item => item.type = .folder).map (·.entry)) = entriesOf inside
  files : ∀ id files inside, t.Holds id files inside →
    (((pages id).flatten.filter fun item => item.type = .file).map (·.entry)) = files

variable {t : IdTree} (api : BoxApi t)

namespace BoxFileSource

def MAX_MARKERS : ℕ := 1000

def notStopping : String :=
  "Box listing did not stop paging after 1000 markers — refusing to treat a partial listing as the folder."

def listChildren (folderId : String) (type : BoxType) : Except String (List BoxItem) :=
  if MAX_MARKERS < (api.pages folderId).length then .error notStopping
  else .ok ((api.pages folderId).flatten.filter fun item => item.type = type)

end BoxFileSource

def boxFileSource : NameSource where
  rootId := t.rootId
  service := "Box"
  childFolders id := (BoxFileSource.listChildren api id .folder).map (·.map (·.entry))
  childFiles id := (BoxFileSource.listChildren api id .file).map (·.map (·.entry))

end Box

end OpenMigrate.Tree
