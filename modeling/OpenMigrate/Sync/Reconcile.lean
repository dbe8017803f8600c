import OpenMigrate.Text
import OpenMigrate.Sync.DomainSync

namespace OpenMigrate

open Async

inductive SpecialUse where
  | inbox
  | sent
  | drafts
  | archive
  | junk
  | trash
  | normal
  deriving DecidableEq

def DEFAULT_EXCLUDE_SPECIAL_USE : List SpecialUse := [.trash, .junk]

inductive MailKeyword where
  | seen
  | flagged
  | draft
  | answered
  deriving DecidableEq

structure MailFolder where
  path : String
  name : Option String := none
  specialUse : SpecialUse
  deriving DecidableEq

instance : FolderLike MailFolder where
  path f := some f.path
  name f := f.name

structure MailItem where
  messageId : String
  keywords : List MailKeyword := []
  sourceRef : String
  deriving DecidableEq

section MessageId

/-- The header section: everything before the first empty line. -/
def headerSection : List Char → List Char
  | [] => []
  | '\r' :: '\n' :: '\r' :: '\n' :: _ => []
  | '\n' :: '\n' :: _ => []
  | c :: rest => c :: headerSection rest

def startsBlank : List Char → Bool
  | c :: _ => isBlank c
  | [] => false

def startsFold : List Char → Bool
  | '\n' :: rest => startsBlank rest
  | _ => false

/-- `.replace(/\r?\n[ \t]+/g, ' ')`; `skip` while the blanks of a fold go by. -/
def unfoldHeader (skip : Bool) : List Char → List Char
  | [] => []
  | c :: rest =>
    if skip && isBlank c then unfoldHeader true rest
    else if c == '\n' && startsBlank rest then ' ' :: unfoldHeader true rest
    else if c == '\r' && startsFold rest then unfoldHeader false rest
    else c :: unfoldHeader false rest

/-- The value of a `Message-ID` field: `/^message-id[ \t]*:(.*)$/im` on one line. -/
def messageIdOfLine (line : List Char) : Option (List Char) :=
  if lower (line.take 10) == "message-id".toList then
    match (line.drop 10).dropWhile isBlank with
    | ':' :: value => some value
    | _ => none
  else none

def readMessageId (rfc822 : List Char) : Option String :=
  match (lines (unfoldHeader false (headerSection rfc822))).findSome? messageIdOfLine with
  | some value => if (trim value).isEmpty then none else some (String.ofList (trim value))
  | none => none

def GENERATED_MESSAGE_ID_DOMAIN : String := "generated.openmigrate.invalid"

variable (contentHash : List Char → String)

def generateMessageId (rfc822 : List Char) : String :=
  "<" ++ contentHash rfc822 ++ "@" ++ GENERATED_MESSAGE_ID_DOMAIN ++ ">"

/-- Does the first line end with CRLF? `prev` is the character before. -/
def usesCrLf (prev : Option Char) : List Char → Bool
  | [] => true
  | c :: rest => if c == '\n' then prev == some '\r' else usesCrLf (some c) rest

structure EnsuredMessageId where
  rfc822 : List Char
  messageId : String
  generated : Bool

def ensureMessageId (rfc822 : List Char) : EnsuredMessageId :=
  match readMessageId rfc822 with
  | some existing => ⟨rfc822, existing, false⟩
  | none =>
    let messageId := generateMessageId contentHash rfc822
    let eol := if usesCrLf none rfc822 then ['\r', '\n'] else ['\n']
    ⟨("Message-ID: " ++ messageId).toList ++ eol ++ rfc822, messageId, true⟩

/-- `.trim().replace(/^<(.*)>$/, '$1').trim()` -/
def normalizeMessageId (messageId : String) : String :=
  let trimmed := trim messageId.toList
  match trimmed, trimmed.reverse with
  | '<' :: rest, '>' :: _ =>
    if trimmed.length < 2 ∨ rest.any isTerminator then String.ofList trimmed
    else String.ofList (trim rest.dropLast)
  | _, _ => String.ofList trimmed

def naturalKeyHash (sha256Hex : String → String) (messageId : String) : String :=
  sha256Hex ("mid:" ++ normalizeMessageId messageId)

end MessageId

/-- A key no folder path can be: the bins have their own cursors. -/
def discardedScanCursorKey (collectionPath : String) : String :=
  "\x01discarded\x01" ++ collectionPath

variable {T : TargetApi}

structure SourceConnector where
  listFolders : Except PassError (List MailFolder)
  listSince : MailFolder → Option String → Except PassError (Listing MailItem)
  fetch : MailItem → Except PassError (List Char)

structure ReconcileDeps (T : TargetApi) where
  tenantId : String
  mappingId : String
  cursors : Bool
  concurrency : Option ℕ := none
  excludeSpecialUse : Option (List SpecialUse) := none
  onCollision : Option CollisionPolicy := none
  targetFolderPrefix : Option String := none
  ensureMailbox : MailFolder → Except PassError String
  upsertEmail : String → List Char → List MailKeyword → Task T UpsertResult
  upsertEmail_asks : ∀ id rfc822 keywords,
    Emits targetVocabulary (upsertEmail id rfc822 keywords) (fun _ => True)

section Bins

variable (sha256Hex : String → String) (deps : ReconcileDeps T) (source : SourceConnector)

def excluded : List SpecialUse := deps.excludeSpecialUse.getD DEFAULT_EXCLUDE_SPECIAL_USE

def bins (all : List MailFolder) : List MailFolder :=
  all.filter fun f => f.specialUse == .trash && (excluded deps).contains f.specialUse

def scanKey (bin : MailFolder) : CursorKey :=
  ⟨deps.tenantId, deps.mappingId, discardedScanCursorKey bin.path⟩

def binKeys (items : List MailItem) : List String :=
  (items.filter (fun item => item.messageId != "")).map (fun item => naturalKeyHash sha256Hex item.messageId)

/-- The loop over the bins; each one's cursor moves as soon as it has been listed. -/
def scanBins : List MailFolder → Task T (List String)
  | [] => .ret []
  | bin :: rest =>
    (if deps.cursors then Task.cursorGet (scanKey deps bin) else .ret none).bind fun prev =>
    (Prog.ofExcept (source.listSince bin prev)).bind fun listing =>
    (if deps.cursors then Task.cursorSet (scanKey deps bin) listing.nextCursor else .ret ()).bind fun _ =>
    (scanBins rest).bind fun keys =>
    .ret (binKeys sha256Hex listing.items ++ keys)

def listDiscardedKeys : Task T DiscardedListing :=
  (Prog.ofExcept source.listFolders).bind fun all =>
  (scanBins sha256Hex deps source (bins deps all)).bind fun keys =>
  .ret ⟨keys, 0, none⟩

theorem scanBins_asks (scope : Scope) (ht : scope.tenantId = deps.tenantId)
    (hm : scope.mappingId = deps.mappingId) (xs : List MailFolder) :
    Emits (scanVocabulary scope) (scanBins sha256Hex deps source xs) (fun _ => True) := by
  induction xs with
  | nil => trivial
  | cons bin rest ih =>
    refine Emits.seq ?_ fun prev => ?_
    · split
      · exact (Emits.perform _ _).mpr ⟨trivial, fun _ _ => trivial⟩
      · trivial
    refine Emits.seq ((Emits.ofExcept _ _).mpr trivial) fun listing => ?_
    refine Emits.seq ?_ fun _ => ih.seq fun keys => trivial
    split
    · exact (Emits.perform _ _).mpr ⟨⟨ht.symm, hm.symm⟩, fun _ _ => trivial⟩
    · trivial

end Bins

def shadowPass (sha256Hex : String → String) (contentHash : List Char → String) (deps : ReconcileDeps T)
    (source : SourceConnector) : DomainSyncDeps T MailItem MailFolder (List Char) where
  scope := ⟨deps.tenantId, deps.mappingId, .email⟩
  cursors := deps.cursors
  concurrency := deps.concurrency.getD DEFAULT_CONCURRENCY
  listFolders := source.listFolders.map (List.filter fun f => !(excluded deps).contains f.specialUse)
  listSince := source.listSince
  fetchRaw item := (source.fetch item).map fun rfc822 =>
    let ensured := ensureMessageId contentHash rfc822
    (ensured.rfc822, ensured.rfc822.length)
  upsert mailboxId raw item _ := deps.upsertEmail mailboxId raw item.keywords
  sourceVersion _ := none
  sourceRef item := some item.sourceRef
  naturalKey item := if item.messageId = "" then none else some (naturalKeyHash sha256Hex item.messageId)
  listCollectionKeys := none
  listDiscardedKeys := some (listDiscardedKeys sha256Hex deps source)
  naturalKeyFromRaw := some fun _ raw => .ok (naturalKeyHash sha256Hex (ensureMessageId contentHash raw).messageId)
  contentHash := contentHash
  onCollision := deps.onCollision.getD .skip
  ensureCollection folder :=
    deps.ensureMailbox { folder with path := applyTargetFolderPrefix deps.targetFolderPrefix folder.path }
  upsert_asks id raw item options := by
    refine (deps.upsertEmail_asks id raw item.keywords).weaken ?_ fun _ _ h => h
    intro c hc
    cases c with
    | target => trivial
    | _ => exact hc.elim
  listDiscardedKeys_asks := by
    rintro p ⟨⟩
    refine Emits.seq ((Emits.ofExcept _ _).mpr trivial) fun all => ?_
    exact (scanBins_asks sha256Hex deps source ⟨_, _, .email⟩ rfl rfl _).seq fun _ => trivial

end OpenMigrate
