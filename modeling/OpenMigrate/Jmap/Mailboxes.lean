import OpenMigrate.Text
import OpenMigrate.Async.Solo

namespace OpenMigrate.Jmap

open Async

inductive SpecialUse where
  | inbox
  | sent
  | drafts
  | archive
  | junk
  | trash
  | normal
  deriving DecidableEq

def SPECIAL_USE_ROLE_MAP : SpecialUse → Option String
  | .inbox => some "inbox"
  | .sent => some "sent"
  | .drafts => some "drafts"
  | .archive => some "archive"
  | .junk => some "junk"
  | .trash => some "trash"
  | .normal => none

structure MailFolder where
  path : String
  name : Option String := none
  specialUse : SpecialUse := .normal

structure Mailbox where
  id : String
  name : String
  parentId : Option String
  role : Option String
  deriving DecidableEq

structure SetError where
  type : String
  description : String

structure MailboxSetResponse where
  created : Option String := none
  notCreated : List SetError := []

section Text

def pathSegments (raw : String) : List String :=
  ((raw.toList.splitOn '/').map fun s => String.ofList (trim s)).filter fun s => s ≠ ""

/-- The folder's path as levels of the tree; its name only stands in for a path that is empty. -/
def targetSegments (folder : MailFolder) : Except String (List String) :=
  let segments := pathSegments (if folder.path ≠ "" then folder.path else folder.name.getD "")
  if segments = [] then .error "Cannot place a mailbox for a folder with no path or name" else .ok segments

def quotation : Char := '\x22'

/-- What the pattern takes at one place: the tag, white space, and the identifier between quotation marks. -/
def existingIdHere (s : List Char) : Option (List Char) :=
  match s.dropPrefix? "existingId:".toList with
  | none => none
  | some rest =>
    match rest.dropWhile whiteSpace with
    | [] => none
    | c :: body =>
      let id := body.takeWhile (· ≠ quotation)
      if c = quotation ∧ id ≠ [] ∧ id.length < body.length then some id else none

def existingIdIn : List Char → Option (List Char)
  | [] => none
  | c :: s => (existingIdHere (c :: s)).or (existingIdIn s)

/-- The identifier that an alreadyExists answer names in its description. -/
def SetError.existingId (e : SetError) : Option String :=
  if e.type = "alreadyExists" then (existingIdIn e.description.toList).map String.ofList else none

def SetError.isConflict (e : SetError) : Bool := e.type == "invalidProperties" || e.type == "alreadyExists"

end Text

section Account

variable (lower : String → String)

/-- The mailboxes of an account. No two have one id, and siblings have names that differ by more than letter case. -/
structure Account where
  boxes : List Mailbox
  ids : ∀ m ∈ boxes, ∀ n ∈ boxes, m.id = n.id → m = n
  siblings : ∀ m ∈ boxes, ∀ n ∈ boxes, m.parentId = n.parentId → lower m.name = lower n.name → m = n

/-- How a server gives ids, and how it answers a request for a mailbox that is there. -/
structure JmapServer where
  freshId : List Mailbox → String
  refusal : ℕ → Mailbox → SetError
  fresh : ∀ boxes, ∀ m ∈ boxes, m.id ≠ freshId boxes
  nonempty : ∀ boxes, freshId boxes ≠ ""
  conflicts : ∀ k m, (refusal k m).isConflict = true
  honest : ∀ k m id, (refusal k m).existingId = some id → id = m.id

structure Wanted where
  name : String
  parentId : Option String
  role : Option String := none

variable {lower}

def Mailbox.takes (lower : String → String) (wanted : Wanted) (m : Mailbox) : Bool :=
  m.parentId == wanted.parentId && lower m.name == lower wanted.name || m.role.isSome && m.role == wanted.role

def Account.has (account : Account lower) (parentId : Option String) : Bool :=
  parentId.all fun id => account.boxes.any fun m => m.id == id

def Account.add (account : Account lower) (S : JmapServer) (wanted : Wanted)
    (h : ∀ m ∈ account.boxes, Mailbox.takes lower wanted m ≠ true) : Account lower where
  boxes := account.boxes ++ [⟨S.freshId account.boxes, wanted.name, wanted.parentId, wanted.role⟩]
  ids m hm n hn heq := by
    obtain hm | hm := List.mem_append.mp hm <;> obtain hn | hn := List.mem_append.mp hn
    · exact account.ids m hm n hn heq
    · obtain rfl := List.mem_singleton.mp hn
      exact absurd heq (S.fresh _ m hm)
    · obtain rfl := List.mem_singleton.mp hm
      exact absurd heq.symm (S.fresh _ n hn)
    · rw [List.mem_singleton.mp hm, List.mem_singleton.mp hn]
  siblings m hm n hn hparent hname := by
    obtain hm | hm := List.mem_append.mp hm <;> obtain hn | hn := List.mem_append.mp hn
    · exact account.siblings m hm n hn hparent hname
    · obtain rfl := List.mem_singleton.mp hn
      exact absurd (by simp_all [Mailbox.takes]) (h m hm)
    · obtain rfl := List.mem_singleton.mp hm
      exact absurd (by simp_all [Mailbox.takes]) (h n hn)
    · rw [List.mem_singleton.mp hm, List.mem_singleton.mp hn]

/-- Mailbox/set with one mailbox to create: refused where its place or its role is taken, or its parent is missing. -/
def JmapServer.create (S : JmapServer) (k : ℕ) (account : Account lower) (wanted : Wanted) :
    MailboxSetResponse × Account lower :=
  match h : account.boxes.find? (Mailbox.takes lower wanted) with
  | some m => ({ notCreated := [S.refusal k m] }, account)
  | none =>
    if account.has wanted.parentId then
      ({ created := some (S.freshId account.boxes) }, account.add S wanted (List.find?_eq_none.mp h))
    else
      ({ notCreated := [⟨"invalidProperties", "parentId"⟩] }, account)

end Account

/-- The account, the writer's own list of its mailboxes, and of the model: the ids of the mailboxes that the writer's
requests created, and how many of its requests failed. -/
structure JmapWorld (lower : String → String) where
  account : Account lower
  mailboxes : Option (List Mailbox) := none
  created : List String := []
  failures : ℕ := 0

inductive MailboxCommand where
  | cached
  | keep (mailboxes : List Mailbox)
  | get
  | set (wanted : Wanted)

abbrev MailboxAnswer : MailboxCommand → Type
  | .cached => Option (List Mailbox)
  | .keep _ => Unit
  | .get => List Mailbox
  | .set _ => MailboxSetResponse

/-- What a request meets: it may fail, before the server acts or with the answer lost. -/
structure JmapTurn where
  fault : Option String := none
  lost : Bool := false
  refusal : ℕ := 0

section Machine

variable {lower : String → String} (S : JmapServer)

def JmapWorld.fail (w : JmapWorld lower) : JmapWorld lower := { w with failures := w.failures + 1 }

def JmapWorld.create (w : JmapWorld lower) (k : ℕ) (wanted : Wanted) : JmapWorld lower :=
  { w with
    account := (S.create k w.account wanted).2
    created := w.created ++ (S.create k w.account wanted).1.created.toList }

def mailboxExec : (c : MailboxCommand) → JmapTurn → JmapWorld lower →
    Except String (MailboxAnswer c) × JmapWorld lower
  | .cached, _, w => (.ok w.mailboxes, w)
  | .keep mailboxes, _, w => (.ok (), { w with mailboxes := some mailboxes })
  | .get, i, w =>
    match i.fault with
    | some reason => (.error reason, w.fail)
    | none => (.ok w.account.boxes, w)
  | .set wanted, i, w =>
    match i.fault with
    | some reason => (.error reason, if i.lost then (w.create S i.refusal wanted).fail else w.fail)
    | none => (.ok (S.create i.refusal w.account wanted).1, w.create S i.refusal wanted)

/-- The account's other clients create mailboxes of their own. -/
def jmapMachine : Machine (JmapWorld lower) MailboxCommand MailboxAnswer String JmapTurn Wanted where
  exec := mailboxExec S
  act wanted w := { w with account := (S.create 0 w.account wanted).2 }

end Machine

abbrev MailboxProg (α : Type) := Prog MailboxCommand MailboxAnswer String α

def cachedMailboxes : MailboxProg (Option (List Mailbox)) := Prog.perform MailboxCommand.cached

def keepMailboxes (mailboxes : List Mailbox) : MailboxProg Unit := Prog.perform (MailboxCommand.keep mailboxes)

def mailboxGet : MailboxProg (List Mailbox) := Prog.perform MailboxCommand.get

def mailboxSet (wanted : Wanted) : MailboxProg MailboxSetResponse := Prog.perform (MailboxCommand.set wanted)

section Writer

variable (lower : String → String)

def matchChild (mailboxes : List Mailbox) (name : String) (parentId role : Option String) : Option Mailbox :=
  mailboxes.find? fun m =>
    m.parentId == parentId && lower m.name == lower name &&
      !(m.role.isSome && role.isSome && m.role.map lower != role.map lower)

def matchRole (mailboxes : List Mailbox) (role : Option String) : Option Mailbox :=
  if role.isSome then mailboxes.find? fun m => m.role.map lower == role.map lower else none

def readMailboxes : MailboxProg (List Mailbox) :=
  mailboxGet.bind fun list => (keepMailboxes list).bind fun _ => .ret list

def allMailboxes (refresh : Bool) : MailboxProg (List Mailbox) :=
  if refresh then readMailboxes
  else
    cachedMailboxes.bind fun cached =>
      match cached with
      | some mailboxes => .ret mailboxes
      | none => readMailboxes

/-- After a conflict the account is read again, and what is at the place is adopted. -/
def adopt (wanted : Wanted) : MailboxProg String :=
  (allMailboxes true).bind fun fresh =>
    match (matchRole lower fresh wanted.role).or (matchChild lower fresh wanted.name wanted.parentId wanted.role) with
    | some adopted => .ret adopted.id
    | none => .fail "Failed to create mailbox"

def remember (createdId : String) (wanted : Wanted) : MailboxProg String :=
  cachedMailboxes.bind fun cached =>
    match cached with
    | none => .ret createdId
    | some mailboxes =>
      (keepMailboxes (mailboxes ++ [⟨createdId, wanted.name, wanted.parentId, wanted.role⟩])).bind fun _ =>
        .ret createdId

def createMailbox (wanted : Wanted) : MailboxProg String :=
  (mailboxSet wanted).bind fun answer =>
    match answer.created.filter (· ≠ "") with
    | some createdId => remember createdId wanted
    | none =>
      match answer.notCreated.head?.bind SetError.existingId with
      | some id => .ret id
      | none =>
        if answer.notCreated.any SetError.isConflict then adopt lower wanted
        else .fail "Failed to create mailbox"

def ensureOneLevel (wanted : Wanted) : MailboxProg String :=
  (allMailboxes false).bind fun mailboxes =>
    match matchRole lower mailboxes wanted.role with
    | some byRole => .ret byRole.id
    | none =>
      match matchChild lower mailboxes wanted.name wanted.parentId wanted.role with
      | some existing => .ret existing.id
      | none => createMailbox lower wanted

/-- The levels from the top down, each under the one before; only a leaf at the root asks for the role. -/
def ensureLevels (role : Option String) : Option String → List String → String → MailboxProg String
  | _, [], id => .ret id
  | parentId, name :: rest, _ =>
    (ensureOneLevel lower ⟨name, parentId, if rest = [] ∧ parentId = none then role else none⟩).bind fun id =>
      ensureLevels role (some id) rest id

def ensureMailbox (folder : MailFolder) : MailboxProg String :=
  (Prog.ofExcept (targetSegments folder) : MailboxProg (List String)).bind fun segments =>
    ensureLevels lower (SPECIAL_USE_ROLE_MAP folder.specialUse) none segments ""

end Writer

end OpenMigrate.Jmap
