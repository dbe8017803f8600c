import OpenMigrate.Jmap.Files

namespace OpenMigrate.Jmap

open Async
open Dav (RawFileItem normalizeRelativePath)

section Paths

/-- `split('/')` without the empty segments. -/
def segmentsOf (path : String) : List String :=
  ((path.toList.splitOn '/').filter (· ≠ [])).map String.ofList

/-- The containing directory of a path: all before its last slash. -/
def parentPathOf (path : String) : String :=
  String.ofList (path.toList.reverse.dropWhile (· ≠ '/')).tail.reverse

def lastSegment (path : String) : String := (segmentsOf path).getLast?.getD path

def parentIdFor (nodeId : String) : Option String := if nodeId = "" then none else some nodeId

end Paths

/-- A program of the writer: it talks to nothing but the file account. -/
abbrev FileTask (α : Type) := Prog FileCommand FileCommand.Resp PassError α

def ask (c : FileCommand) : FileTask c.Resp := Prog.perform c

def FileTask.onTarget (S : FileServer) (stringify : String → String) {α : Type} (p : FileTask α) : Task (fileApi S stringify) α :=
  p.hoist fun c k => .call (Cmd.target (T := fileApi S stringify) c) k

def failure (e : Option SetError) : String :=
  ((e.map (·.type)).getD "no id returned") ++
    ((e.bind fun e => if e.description = "" then none else some (" - " ++ e.description)).getD "")

/-- Files what was just created in the tree it was looked for in, where that is still remembered. -/
def rememberNode (snapshot : Option (ℕ × TreeSnapshot)) (path : String) (node : FileNode) : FileTask Unit :=
  match snapshot with
  | none => .ret ()
  | some (generation, _) => ask (.remember generation path node)

def fileInTheWay (walked : String) : String :=
  "Cannot create directory " ++ walked ++ ": the target already holds a FILE at that path. " ++
    "Rename the source folder and retry, or accept leaving it behind."

def directoryRefused (fullPath : String) (e : Option SetError) : String :=
  "FileNode/set could not create directory '" ++ fullPath ++ "': " ++ failure e

/-- One create for a directory, adopting an `alreadyExists`. -/
def createDirectory (name : String) (parentId : Option String) (fullPath : String) (snapshot : Option (ℕ × TreeSnapshot)) :
    FileTask String :=
  (ask (.create ⟨name, parentId, none⟩)).bind fun response =>
  match response.created.filter (· ≠ "") with
  | some id =>
    (rememberNode snapshot fullPath
      { id := id, name := some name, parentId := parentId, nodeType := some "directory" }).bind fun _ => .ret id
  | none =>
    if response.notCreated.map (·.type) = some "alreadyExists" then
      (ask .invalidate).bind fun _ =>
      (ask .tree).bind fun again =>
      match again.bind fun t => t.2.directories.lookup fullPath with
      | some found => .ret found.id
      | none => .fail (.error (directoryRefused fullPath response.notCreated))
    else .fail (.error (directoryRefused fullPath response.notCreated))

/-- The segments from one level on, each looked for before it is created. -/
def ensureSegments : String → Option String → List String → FileTask (Option String)
  | _, parentId, [] => .ret parentId
  | above, parentId, segment :: rest =>
    let walked := if above = "" then segment else above ++ "/" ++ segment
    (ask .tree).bind fun snapshot =>
    match snapshot.bind fun t => t.2.files.lookup walked with
    | some _ => .fail (.error (fileInTheWay walked))
    | none =>
      match snapshot.bind fun t => t.2.directories.lookup walked with
      | some existing => ensureSegments walked (some existing.id) rest
      | none =>
        (createDirectory segment parentId walked snapshot).bind fun id => ensureSegments walked (some id) rest

/-- The node of a directory, each of its segments created where it is missing; none for the root. -/
def ensureDirectoryPath (path : String) : FileTask String :=
  if path = "" then .ret "" else (ensureSegments "" none (segmentsOf path)).bind fun id => .ret (id.getD "")

def ensureDirectory (path : String) : FileTask String := ensureDirectoryPath (normalizeRelativePath path)

def findFileByNaturalKey (naturalKey : String) : FileTask (Option String) :=
  (ask .readTree).bind fun tree =>
  .ret ((tree.files.lookup (normalizeRelativePath naturalKey)).map (·.id))

section Versions

variable (nodeVersion : FileNode → String)

/-- A fingerprint of the node as the server stores it, where it can be read. -/
def storedNodeVersion (targetId : String) : FileTask (Option String) :=
  (ask (.get targetId)).tryWith (fun _ => .ret none) fun response => .ret (response.list.head?.map nodeVersion)

/-- Whether somebody changed the node since that version of it. -/
def editedSince (targetId : String) (expected : Option String) : FileTask Bool :=
  match expected with
  | none => .ret false
  | some version =>
    (storedNodeVersion nodeVersion targetId).bind fun current => .ret (current.isSome && current != some version)

def noNodeToRewrite (naturalKey : String) : String :=
  "Asked to rewrite file " ++ naturalKey ++ ", but no node with that path is on the target. " ++
    "Refusing to create one instead — the caller believes this item was already copied, " ++
    "and quietly disagreeing would hide whatever made that false."

def blankRefused (naturalKey : String) : String :=
  "No content for " ++ naturalKey ++ "; refusing to blank the node on the target."

def updateRefused (targetId naturalKey : String) (e : SetError) : String :=
  "FileNode/set could not update " ++ targetId ++ " (" ++ naturalKey ++ "): " ++ failure (some e)

def fileAt (snapshot : Option (ℕ × TreeSnapshot)) (naturalKey : String) : FileTask (Option String) :=
  match snapshot.bind fun t => t.2.files.lookup naturalKey with
  | some node => .ret (some node.id)
  | none => findFileByNaturalKey naturalKey

def rewriteFile (raw : RawFileItem) (naturalKey : String) (expectedTargetVersion : Option String) :
    FileTask UpsertResult :=
  (ask .tree).bind fun snapshot =>
  (fileAt snapshot naturalKey).bind fun found =>
  match found.filter (· ≠ "") with
  | none => .fail (.error (noNodeToRewrite naturalKey))
  | some targetId =>
    (editedSince nodeVersion targetId expectedTargetVersion).bind fun edited =>
    if edited then .ret { targetId := targetId, created := false, conflicted := true }
    else
      match raw.content with
      | none => .fail (.error (blankRefused naturalKey))
      | some content =>
        (ask (.upload content)).bind fun blobId =>
        (ask (.update targetId blobId)).bind fun response =>
        match response.notUpdated with
        | some e => .fail (.error (updateRefused targetId naturalKey e))
        | none =>
          (storedNodeVersion nodeVersion targetId).bind fun version =>
          .ret { targetId := targetId, created := false, updated := true, targetVersion := version }

def emptyPath : String := "Refusing to write a file with an empty path: it has no natural key."

def directoryInTheWay (naturalKey : String) : String :=
  "Cannot write " ++ naturalKey ++ ": the target already holds a DIRECTORY at that path. " ++
    "Writing the file would destroy it, and adopting the directory would record an item " ++
    "that was never copied. Rename the source file and retry, or accept leaving it behind."

def noContent (naturalKey : String) : String :=
  "No content for " ++ naturalKey ++ "; refusing to create an empty node in its place."

def fileRefused (naturalKey : String) (e : Option SetError) : String :=
  "FileNode/set refused " ++ naturalKey ++ ": " ++ failure e

def existingFile (snapshot : Option (ℕ × TreeSnapshot)) (naturalKey : String) : FileTask (Option String) :=
  match snapshot with
  | some t => .ret ((t.2.files.lookup naturalKey).map (·.id))
  | none => findFileByNaturalKey naturalKey

/-- What the server said of the file to create: its identifier, or that one is there, which is adopted. -/
def settleFile (snapshot : Option (ℕ × TreeSnapshot)) (naturalKey : String) (wanted : NodeCreate)
    (response : NodeSetResponse) : FileTask UpsertResult :=
  match response.created.filter (· ≠ "") with
  | some createdId =>
    (rememberNode snapshot naturalKey
      { id := createdId, name := some wanted.name, parentId := wanted.parentId, nodeType := some "file" }).bind fun _ =>
    (storedNodeVersion nodeVersion createdId).bind fun version =>
    .ret { targetId := createdId, created := true, targetVersion := version }
  | none =>
    if response.notCreated.map (·.type) = some "alreadyExists" then
      (ask .invalidate).bind fun _ =>
      (findFileByNaturalKey naturalKey).bind fun found =>
      match found.filter (· ≠ "") with
      | some id => .ret { targetId := id, created := false, adopted := true }
      | none => .fail (.error (fileRefused naturalKey response.notCreated))
    else .fail (.error (fileRefused naturalKey response.notCreated))

def createFile (snapshot : Option (ℕ × TreeSnapshot)) (raw : RawFileItem) (naturalKey : String) :
    FileTask UpsertResult :=
  (ensureDirectoryPath (parentPathOf naturalKey)).bind fun parentNodeId =>
  match raw.content with
  | none => .fail (.error (noContent naturalKey))
  | some content =>
    (ask (.upload content)).bind fun blobId =>
    (ask (.create ⟨lastSegment naturalKey, parentIdFor parentNodeId, some blobId⟩)).bind
      (settleFile nodeVersion snapshot naturalKey ⟨lastSegment naturalKey, parentIdFor parentNodeId, some blobId⟩)

@[irreducible] def upsertFile (raw : RawFileItem) (options : UpsertOptions) : FileTask UpsertResult :=
  let naturalKey := normalizeRelativePath raw.path
  if naturalKey = "" then .fail (.error emptyPath)
  else if options.overwrite then rewriteFile nodeVersion raw naturalKey options.expectedTargetVersion
  else
    (ask .tree).bind fun snapshot =>
    if (snapshot.bind fun t => t.2.directories.lookup naturalKey).isSome then .fail (.error (directoryInTheWay naturalKey))
    else
      (existingFile snapshot naturalKey).bind fun existing =>
      match existing.filter (· ≠ "") with
      | some id => .ret { targetId := id, created := false, adopted := true }
      | none => createFile nodeVersion snapshot raw naturalKey

def destroyRefused (targetId : String) (e : SetError) : String :=
  "FileNode/set could not destroy " ++ targetId ++ ": " ++ failure (some e)

def neitherDestroyed (targetId : String) : String :=
  "FileNode/set reported neither destroyed nor notDestroyed for " ++ targetId ++ "; refusing to " ++
    "record a removal the server did not confirm."

def removeFile (targetId : String) (expectedTargetVersion : Option String) : FileTask RemovalResult :=
  (editedSince nodeVersion targetId expectedTargetVersion).bind fun edited =>
  if edited then .ret { conflicted := true }
  else
    (ask (.destroy targetId)).bind fun response =>
    match response.notDestroyed with
    | some e => .fail (.error (destroyRefused targetId e))
    | none =>
      if response.destroyed then (ask .invalidate).bind fun _ => .ret { kind := some .deleted }
      else .fail (.error (neitherDestroyed targetId))

end Versions

def neitherThere (targetId : String) : String :=
  "FileNode/get said neither that " ++ targetId ++ " exists nor that it does not, so the target " ++
    "cannot confirm the copy is there. Nothing was removed."

def hasFile (targetId : String) : FileTask Bool :=
  (ask (.get targetId)).bind fun response =>
  if response.list.any fun node => node.id = targetId then .ret true
  else if response.notFound then .ret false
  else .fail (.error (neitherThere targetId))

end OpenMigrate.Jmap
