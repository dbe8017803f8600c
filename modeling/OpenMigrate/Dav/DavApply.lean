import OpenMigrate.Apply.Deletion
import OpenMigrate.Dav.DavSync

namespace OpenMigrate.Dav

open Async

variable {e : Endpoint} {α : Type}

theorem request_targets (r : Request) :
    Emits targetVocabulary (request r : DavTask e r.Resp) (fun _ => True) :=
  (Emits.perform _ _).mpr ⟨trivial, fun _ _ => trivial⟩

theorem removeDavResource_targets (path : String) (expected : Option String) (kind : RemovalKind) :
    Emits targetVocabulary (removeDavResource path expected kind : DavTask e RemovalResult)
      (fun _ => True) := by
  refine checkOwnership_asks (request_targets _) trivial ?_
  refine (retrying_asks (request_targets _) _).seq fun response => ?_
  split
  · trivial
  · split <;> trivial

theorem assertRemovable_targets (targetId what : String) :
    Emits targetVocabulary (assertRemovableTargetId targetId what : DavTask e Unit) (fun _ => True) := by
  unfold assertRemovableTargetId
  split <;> trivial

/-- The apply path over a WebDAV target: it can remove and it can be asked. -/
def fileApply (e : Endpoint) (cfg : WebDAVTargetConfig) (tenantId mappingId : String) (allow : Bool)
    (targetFolderPrefix : Option String) : ApplyDeletionDeps (api e) where
  scope := ⟨tenantId, mappingId, .file⟩
  allowApplyDeletions := allow
  targetFolderPrefix := targetFolderPrefix
  removeItem := some fun targetId expectedVersion _ => removeFile cfg targetId expectedVersion
  hasItem := some fun targetId _ => hasFile targetId
  removeItem_asks := by
    rintro f ⟨⟩ id version collection
    exact (assertRemovable_targets _ _).seq fun _ => removeDavResource_targets _ _ _
  hasItem_asks := by
    rintro f ⟨⟩ id collection
    refine (request_targets _).seq fun response => ?_
    split
    · trivial
    · split <;> trivial

/-- The apply path over a CalDAV or a CardDAV target, which cannot be asked what it holds. -/
def objectApply (e : Endpoint) (scope : Scope) (allow : Bool) (targetFolderPrefix : Option String) :
    ApplyDeletionDeps (api e) where
  scope := scope
  allowApplyDeletions := allow
  targetFolderPrefix := targetFolderPrefix
  removeItem := some fun targetId expectedVersion _ => removeObject targetId expectedVersion
  hasItem := none
  removeItem_asks := by
    rintro f ⟨⟩ id version collection
    exact (assertRemovable_targets _ _).seq fun _ => removeDavResource_targets _ _ _
  hasItem_asks := by simp

namespace Sample

def endpoint : Endpoint := ⟨default, "/remote.php/dav/files/ann"⟩

/-- SHA-256, on the texts that the concrete runs hash. -/
def sha256Hex : String → String
  | "file:a.txt" => "dcb0f282e577c65d860fab7243d004fb3a2774237d722724abc87c020153c7f6"
  | "file:b.txt" => "b0b0efd05c25c6af24547907eefecf590d0a3108278724898c84e03ea4ddfff0"
  | "x" => "2d711642b726b04401627ca9fbac32f5c8530fb1903cc4db02258717921a4881"
  | s => s

def contentHash (content : List Char) : String := sha256Hex (String.ofList content)

def webDAV : WebDAVTargetConfig := ⟨false, none, .deleted⟩

def deps : SyncDeps where
  tenantId := "t"
  mappingId := "m"
  cursors := false
  ensureCollection _ := .ok ""

def store : Store (api endpoint) := ⟨∅, ∅, ⟨∅, [], 0⟩⟩

def input : Input (api endpoint) := ⟨1, none, { delivery := .served }⟩

def file (path : String) : FileItem where
  path := path
  size := 1
  etag := some "1"
  content := some ['x']

def files (paths : List String) : FileSource where
  listFolders := .ok [⟨"", none⟩]
  listSince _ _ := .ok ⟨paths.map file, "1", []⟩
  fetch _ := .ok none

def filePass (paths : List String) : DomainSyncDeps (api endpoint) FileItem CollectionFolder RawFileItem :=
  fileSync endpoint webDAV sha256Hex contentHash deps (files paths)

def apply : ApplyDeletionDeps (api endpoint) := fileApply endpoint webDAV "t" "m" true none

end Sample

end OpenMigrate.Dav
