import OpenMigrate.Jmap.Mailboxes
import OpenMigrate.Sync.Reconcile
import OpenMigrate.Tree.NameSource

namespace OpenMigrate.Graph

open OpenMigrate.Tree (Forest Node Text childPath)

section SpecialUse

/-- `^(head\s?tail)$` over a name in lower case. -/
def spaced (head tail name : Text) : Bool :=
  name == head ++ tail ||
    (head.isPrefixOf name && ((name.drop head.length).head?.any whiteSpace && (name.drop (head.length + 1)) == tail))

/-- The conventions for names, the first that fits deciding. -/
def NAME_TO_SPECIAL_USE : List ((Text → Bool) × SpecialUse) :=
  [ ((· == "inbox".toList), .inbox),
    (fun name => name == "sent".toList || spaced "sent".toList "items".toList name, .sent),
    (fun name => name == "draft".toList || name == "drafts".toList, .drafts),
    (fun name => name == "junk".toList || name == "spam".toList || spaced "bulk".toList "mail".toList name, .junk),
    (fun name => name == "trash".toList || spaced "deleted".toList "items".toList name || name == "bin".toList, .trash),
    ((· == "archive".toList), .archive) ]

def specialUseFromName (name : Text) : SpecialUse :=
  ((NAME_TO_SPECIAL_USE.find? fun e => e.1 ((trim name).map Char.toLower)).map (·.2)).getD .normal

end SpecialUse

structure GraphMailFolder where
  id : String
  displayName : Text
  childFolderCount : Option ℕ

structure GraphMessage where
  id : String
  internetMessageId : Option String := none
  isRead : Bool := false
  isDraft : Bool := false
  /-- `flag?.flagStatus === 'flagged'` -/
  flagged : Bool := false
  /-- `@removed` -/
  removed : Bool := false

structure DeltaPage where
  value : List GraphMessage
  deltaLink : Option Text := none

/-- A fresh delta query over a folder, or one that goes on from a link. -/
inductive DeltaQuery where
  | folder (id : String)
  | link (deltaLink : Text)

/-- A mailbox whose folders have identifiers and display names, its messages in their folders. -/
structure MailTree where
  folders : Forest String Text GraphMessage
  distinct : folders.ids.Nodup
  named : "" ∉ folders.ids
  messages : ((folders.nodes.flatMap (·.items)).map (·.id)).Nodup

def foldersOf (F : Forest String Text GraphMessage) : List GraphMailFolder :=
  F.roots.map fun n => { id := n.id, displayName := n.name, childFolderCount := some n.inside.roots.length }

def linkOf (pages : List DeltaPage) : Option Text :=
  (pages.foldl (fun link page => page.deltaLink <|> link) none).filter (· ≠ [])

/-- The answers of the service for a mailbox: `none` asks for the folders at the top. -/
structure MailApi (t : MailTree) where
  wellKnown : String → Option String
  folderPages : Option String → List (List GraphMailFolder)
  deltaPages : DeltaQuery → List DeltaPage
  top : (folderPages none).flatten = foldersOf t.folders
  inside : ∀ n ∈ t.folders.nodes, (folderPages (some n.id)).flatten = foldersOf n.inside
  held : ∀ n ∈ t.folders.nodes, ((deltaPages (.folder n.id)).flatMap (·.value)).filter (!·.removed) = n.items
  ends : ∀ n ∈ t.folders.nodes, (linkOf (deltaPages (.folder n.id))).isSome

namespace GraphMailSource

variable {t : MailTree} (api : MailApi t)

def WELL_KNOWN_TO_SPECIAL_USE : List (String × SpecialUse) :=
  [ ("inbox", .inbox), ("sentitems", .sent), ("drafts", .drafts), ("archive", .archive), ("junkemail", .junk),
    ("deleteditems", .trash) ]

/-- Of two names for one folder the later sets its role. -/
def roleById (id : String) : Option SpecialUse :=
  (WELL_KNOWN_TO_SPECIAL_USE.reverse.find? fun e => api.wellKnown e.1 = some id).map (·.2)

def toMailFolder (parentPath : Text) (f : GraphMailFolder) : MailFolder where
  path := String.ofList (childPath parentPath f.displayName)
  name := some (String.ofList f.displayName)
  specialUse := (roleById api f.id).getD (specialUseFromName f.displayName)

def queued (parentPath : Text) (f : GraphMailFolder) : Option (Option String × Text) :=
  if 0 < f.childFolderCount.getD 0 then some (some f.id, childPath parentPath f.displayName) else none

/-- Breadth first: the folders of the parent at the head of the queue, and their own folders at its end. -/
def walkQueue : ℕ → List (Option String × Text) → List (MailFolder × String)
  | 0, _ => []
  | _ + 1, [] => []
  | steps + 1, (parent, parentPath) :: queue =>
    let value := (api.folderPages parent).flatten
    value.map (fun f => (toMailFolder api parentPath f, f.id)) ++
      walkQueue steps (queue ++ value.filterMap (queued parentPath))

def listFolders : List (MailFolder × String) := walkQueue api (t.folders.size + 1) [(none, [])]

/-- The map of paths to identifiers that a listing leaves: of two folders with one path it has the later. -/
def folderIds (listed : List (MailFolder × String)) (path : String) : Option String :=
  ((listed.reverse.find? fun e => e.1.path = path).map (·.2)).filter (· ≠ "")

def unknownFolder (path : String) : String :=
  "Graph mail: unknown folder path \"" ++ path ++ "\" (not present in the folder listing)"

/-- The identifier a path had at the last listing, or else has at a new one. -/
def resolveFolderId (listed : List (MailFolder × String)) (path : String) : Except String String :=
  match folderIds listed path <|> folderIds (listFolders api) path with
  | some id => .ok id
  | none => .error (unknownFolder path)

def keywordsFrom (m : GraphMessage) : List MailKeyword :=
  (if m.isRead then [.seen] else []) ++ (if m.flagged then [.flagged] else []) ++ if m.isDraft then [.draft] else []

/-- The header of a message as an item, unless it has no `internetMessageId`. -/
def toMailItem (m : GraphMessage) : Option MailItem :=
  (m.internetMessageId.filter (· ≠ "")).map fun messageId =>
    { messageId := messageId, keywords := keywordsFrom m, sourceRef := m.id }

structure MailListing where
  items : List MailItem
  nextCursor : Text
  unkeyable : ℕ
  removed : List String

def CURSOR_PREFIX : Text := "graph-mail-delta:".toList

def endedWithoutLink (path : String) : String :=
  "Graph mail: delta listing for \"" ++ path ++ "\" ended without a deltaLink"

def listingOf (path : String) (pages : List DeltaPage) : Except String MailListing :=
  let value := pages.flatMap (·.value)
  let kept := value.filter (!·.removed)
  match linkOf pages with
  | none => .error (endedWithoutLink path)
  | some link => .ok {
      items := kept.filterMap toMailItem
      nextCursor := CURSOR_PREFIX ++ link
      unkeyable := (kept.filter fun m => (toMailItem m).isNone).length
      removed := ((value.filter (·.removed)).map (·.id)).filter (· ≠ "") }

def listSince (listed : List (MailFolder × String)) (folder : MailFolder) (cursor : Option Text) :
    Except String MailListing :=
  match cursor.filter CURSOR_PREFIX.isPrefixOf with
  | some value => listingOf folder.path (api.deltaPages (.link (value.drop CURSOR_PREFIX.length)))
  | none => (resolveFolderId api listed folder.path).bind fun folderId =>
      listingOf folder.path (api.deltaPages (.folder folderId))

end GraphMailSource

end OpenMigrate.Graph
