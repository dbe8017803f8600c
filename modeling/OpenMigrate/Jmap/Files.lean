import OpenMigrate.Dav.DavSync
import OpenMigrate.Jmap.FilePath
import OpenMigrate.Jmap.Mailboxes

namespace OpenMigrate.Jmap

open OpenMigrate.Tree

/-- A node as it comes off the wire. -/
structure FileNode where
  id : String
  parentId : Option String := none
  name : Option String := none
  nodeType : Option String := none
  blobId : Option String := none
  size : Option ℕ := none
  deriving DecidableEq

inductive NodeKind where
  | file
  | directory
  deriving DecidableEq

structure TreeSnapshot where
  nodes : List FileNodeRef
  files : AList (fun _ : String => FileNode)
  directories : AList (fun _ : String => FileNode)

section Reading

variable (stringify : String → String)

def noName (id : String) : String :=
  "FileNode " ++ id ++ " on the target has no name; it cannot be keyed for " ++
    "verification, and keying it by its JMAP id would report a file that IS there as " ++ "missing."

def notKeyed (id reason : String) : String :=
  "Cannot key FileNode " ++ id ++ " on the target: " ++ reason ++ " Nothing on this account " ++
    "can be compared against the ledger until that is resolved."

def noKind (id quoted : String) : String :=
  "FileNode " ++ id ++ " reports nodeType " ++ quoted ++ ", which is neither " ++
    "'file' nor 'directory'. Guessing would either skip a file forever or write over a " ++ "directory, so this refuses."

/-- File or directory, refusing to guess. -/
def nodeKind (node : FileNode) : Except String NodeKind :=
  if node.nodeType = some "file" then .ok .file
  else if node.nodeType = some "directory" then .ok .directory
  else .error (noKind node.id ((node.nodeType.map stringify).getD "undefined"))

def toRef (node : FileNode) : Except String FileNodeRef :=
  match node.name with
  | some name => .ok ⟨node.id, name, node.parentId⟩
  | none => .error (noName node.id)

/-- Each node filed under its path, the later of two that have one path. -/
def keyNodes (refs : List FileNodeRef) : List FileNode → TreeSnapshot → Except String TreeSnapshot
  | [], tree => .ok tree
  | node :: rest, tree =>
    (nodeKind stringify node).bind fun kind =>
      match reconstructFileNodePath stringify (fileNodeIndex refs) node.id with
      | .error reason => .error (notKeyed node.id reason)
      | .ok path =>
        match kind with
        | .directory => keyNodes refs rest { tree with directories := tree.directories.insert path node }
        | .file => keyNodes refs rest { tree with files := tree.files.insert path node }

/-- The account's whole tree, keyed the way the ledger does. -/
def readTree (raw : List FileNode) : Except String TreeSnapshot :=
  (raw.mapM toRef).bind fun refs => keyNodes stringify refs raw ⟨refs, ∅, ∅⟩

end Reading

structure NodeCreate where
  name : String
  parentId : Option String
  blobId : Option String := none

structure NodeSetResponse where
  created : Option String := none
  notCreated : Option SetError := none
  notUpdated : Option SetError := none
  destroyed : Bool := false
  notDestroyed : Option SetError := none

structure NodeGetResponse where
  list : List FileNode := []
  notFound : Bool := false

section Account

/-- All the nodes an account has ever had, and those of them that are gone. A node keeps its name and its parent. -/
structure FileAccount where
  ever : List FileNode
  gone : List String := []
  distinct : (ever.map (·.id)).Nodup
  named : ∀ node ∈ ever, node.id ≠ ""

/-- How a server gives identifiers. -/
structure FileServer where
  freshId : List FileNode → String
  fresh : ∀ nodes, ∀ node ∈ nodes, node.id ≠ freshId nodes
  nonempty : ∀ nodes, freshId nodes ≠ ""

namespace FileAccount

variable (account : FileAccount)

def nodes : List FileNode := account.ever.filter fun node => node.id ∉ account.gone

def find (id : String) : Option FileNode := account.nodes.find? fun node => node.id = id

/-- A node that is there under the same parent with the same name. -/
def taken (wanted : NodeCreate) : Bool :=
  account.nodes.any fun node => node.parentId == wanted.parentId && node.name == some wanted.name

def has (parentId : Option String) : Bool :=
  parentId.all fun id => account.nodes.any fun node => node.id == id && node.nodeType == some "directory"

def newNode (S : FileServer) (wanted : NodeCreate) : FileNode where
  id := S.freshId account.ever
  parentId := wanted.parentId
  name := some wanted.name
  nodeType := some (if wanted.blobId.isSome then "file" else "directory")
  blobId := wanted.blobId

def add (S : FileServer) (wanted : NodeCreate) : FileAccount where
  ever := account.ever ++ [account.newNode S wanted]
  gone := account.gone
  distinct := by
    rw [List.map_append, List.map_singleton]
    apply List.Nodup.append account.distinct (List.nodup_singleton _)
    intro id hid hnew
    obtain ⟨node, hnode, rfl⟩ := List.mem_map.mp hid
    exact S.fresh _ node hnode (List.mem_singleton.mp hnew)
  named := by
    intro node hnode
    obtain hnode | hnode := List.mem_append.mp hnode
    · exact account.named node hnode
    · rw [List.mem_singleton.mp hnode]
      exact S.nonempty _

def edit (id blobId : String) : FileAccount where
  ever := account.ever.map fun node => if node.id = id then { node with blobId := some blobId } else node
  gone := account.gone
  distinct := by
    have hids : (account.ever.map fun node => if node.id = id then { node with blobId := some blobId } else node).map (·.id) =
        account.ever.map (·.id) := by
      rw [List.map_map]
      apply List.map_congr_left
      intro node _
      simp only [Function.comp_apply]
      split <;> rfl
    rw [hids]
    exact account.distinct
  named := by
    intro node hnode
    obtain ⟨node', hnode', rfl⟩ := List.mem_map.mp hnode
    have hnamed := account.named node' hnode'
    split <;> exact hnamed

def remove (id : String) : FileAccount := { account with gone := id :: account.gone }

/-- FileNode/set with one node to create: refused where its place is taken, or its parent is no directory. -/
def create (S : FileServer) (refusal : Option SetError) (wanted : NodeCreate) : NodeSetResponse × FileAccount :=
  match refusal with
  | some e => ({ notCreated := some e }, account)
  | none =>
    if account.taken wanted then ({ notCreated := some ⟨"alreadyExists", ""⟩ }, account)
    else if account.has wanted.parentId then ({ created := some (S.freshId account.ever) }, account.add S wanted)
    else ({ notCreated := some ⟨"invalidProperties", "parentId"⟩ }, account)

def update (refusal : Option SetError) (id blobId : String) : NodeSetResponse × FileAccount :=
  match refusal.or (if (account.find id).isSome then none else some ⟨"notFound", ""⟩) with
  | some e => ({ notUpdated := some e }, account)
  | none => ({}, account.edit id blobId)

def destroy (refusal : Option SetError) (id : String) : NodeSetResponse × FileAccount :=
  match refusal.or (if (account.find id).isSome then none else some ⟨"notFound", ""⟩) with
  | some e => ({ notDestroyed := some e }, account)
  | none => ({ destroyed := true }, account.remove id)

def get (id : String) : NodeGetResponse :=
  match account.find id with
  | some node => { list := [node] }
  | none => { notFound := true }

end FileAccount

end Account

/-- What other clients of the account do: they add nodes, change what is in them, and remove them. -/
inductive FileAct where
  | add (wanted : NodeCreate)
  | edit (id blobId : String)
  | remove (id : String)

inductive FileCommand where
  | tree
  | readTree
  | invalidate
  | remember (generation : ℕ) (path : String) (node : FileNode)
  | create (wanted : NodeCreate)
  | update (id blobId : String)
  | destroy (id : String)
  | get (id : String)
  | upload (content : List Char)

abbrev FileCommand.Resp : FileCommand → Type
  | .tree => Option (ℕ × TreeSnapshot)
  | .readTree => TreeSnapshot
  | .invalidate => Unit
  | .remember .. => Unit
  | .create _ => NodeSetResponse
  | .update .. => NodeSetResponse
  | .destroy _ => NodeSetResponse
  | .get _ => NodeGetResponse
  | .upload _ => String

/-- What a request meets: it may fail, before the server acts or with the answer lost, or be refused. -/
structure FileTurn where
  fault : Option String := none
  lost : Bool := false
  refusal : Option SetError := none
  blobId : String := "blob"

/-- What a writer remembers: its last reading of the tree, `none` where that failed, and how many there were. -/
structure FileMemory where
  treeSnapshot : Option (Option TreeSnapshot) := none
  generation : ℕ := 0

section Machine

variable (S : FileServer) (stringify : String → String)

def remembered (path : String) (node : FileNode) (tree : TreeSnapshot) : TreeSnapshot :=
  let known : TreeSnapshot := { tree with nodes := tree.nodes ++ [⟨node.id, node.name.getD "", node.parentId⟩] }
  match nodeKind stringify node with
  | .ok .directory => { known with directories := known.directories.insert path node }
  | _ => { known with files := known.files.insert path node }

/-- A change that the server makes unless the request fails on its way there. -/
def delivered {α : Type} (i : FileTurn) (account : FileAccount) (answer : α × FileAccount) : Except String α × FileAccount :=
  match i.fault with
  | some reason => (.error reason, if i.lost then answer.2 else account)
  | none => (.ok answer.1, answer.2)

def readOnce (i : FileTurn) (account : FileAccount) : Except String TreeSnapshot :=
  match i.fault with
  | some reason => .error reason
  | none => readTree stringify account.nodes

def fileExec : (c : FileCommand) → FileTurn → FileAccount × FileMemory → Except String c.Resp × (FileAccount × FileMemory)
  | .tree, i, (account, memory) =>
    match memory.treeSnapshot with
    | some cached => (.ok (cached.map fun tree => (memory.generation, tree)), account, memory)
    | none =>
      let read := (readOnce stringify i account).toOption
      (.ok (read.map fun tree => (memory.generation + 1, tree)), account,
        { treeSnapshot := some read, generation := memory.generation + 1 })
  | .readTree, i, (account, memory) => (readOnce stringify i account, account, memory)
  | .invalidate, _, (account, memory) => (.ok (), account, { memory with treeSnapshot := none })
  | .remember generation path node, _, (account, memory) =>
    (.ok (), account, if memory.generation = generation then
      { memory with treeSnapshot := memory.treeSnapshot.map (Option.map (remembered stringify path node)) } else memory)
  | .create wanted, i, (account, memory) =>
    let made := delivered i account (account.create S i.refusal wanted)
    (made.1, made.2, memory)
  | .update id blobId, i, (account, memory) =>
    let made := delivered i account (account.update i.refusal id blobId)
    (made.1, made.2, memory)
  | .destroy id, i, (account, memory) =>
    let made := delivered i account (account.destroy i.refusal id)
    (made.1, made.2, memory)
  | .get id, i, (account, memory) =>
    let made := delivered i account (account.get id, account)
    (made.1, made.2, memory)
  | .upload _, i, (account, memory) =>
    let made := delivered i account (i.blobId, account)
    (made.1, made.2, memory)

/-- The node that a command adds for a file, whether or not its answer arrives. -/
def madeBy : FileCommand → FileTurn → FileAccount → Option String
  | .create wanted, i, account =>
    if wanted.blobId.isSome && (i.fault.isNone || i.lost) then (account.create S i.refusal wanted).1.created else none
  | _, _, _ => none

def FileAccount.act (account : FileAccount) : FileAct → FileAccount
  | .add wanted => (account.create S none wanted).2
  | .edit id blobId => account.edit id blobId
  | .remove id => account.remove id

def fileApi : TargetApi where
  State := FileAccount
  Session := FileMemory
  Cmd := FileCommand
  Resp := FileCommand.Resp
  Inp := FileTurn
  Act := FileAct
  exec := fileExec S stringify
  act a account := account.act S a
  fresh := {}

end Machine

end OpenMigrate.Jmap
