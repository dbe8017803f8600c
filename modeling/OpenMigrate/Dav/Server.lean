import OpenMigrate.Dav.Uid
import OpenMigrate.Dav.Version
import OpenMigrate.Sync.World

namespace OpenMigrate.Dav

inductive Author where
  | owner
  | migration
  deriving DecidableEq

/-- A resource: its body, one character for each byte or code unit, which write left it, and whose. -/
structure Resource where
  body : List Char
  version : ℕ
  author : Author
  deriving DecidableEq

structure Server where
  resources : AList (fun _ : String => Resource)
  directories : List String
  nextVersion : ℕ

/-- How a server spells its versions; no two of them read back the same. -/
structure EtagScheme where
  header : ℕ → String
  tag : ℕ → String
  tag_eq : ∀ v, etagText (header v) = some (tag v)
  tag_injective : ∀ v w, tag v = tag w → v = w

theorem etagText_replicate (n : ℕ) :
    etagText (String.ofList (List.replicate (n + 1) 'a')) = some (String.ofList (List.replicate (n + 1) 'a')) := by
  have hstart : ∀ k, trimStart (List.replicate k 'a') = List.replicate k 'a' := by
    intro k
    cases k with
    | zero => rfl
    | succ k => simp [trimStart, List.replicate_succ, show whiteSpace 'a' = false from by decide]
  have htrim : trim (List.replicate (n + 1) 'a') = List.replicate (n + 1) 'a' := by
    simp [trim, hstart]
  have hweak : stripWeak (List.replicate (n + 1) 'a') = List.replicate (n + 1) 'a' := by
    cases n with
    | zero => rfl
    | succ n => simp [stripWeak, List.replicate_succ]
  have hquotes : stripQuotes (List.replicate (n + 1) 'a') = List.replicate (n + 1) 'a' := by
    simp [stripQuotes, List.replicate_succ, ← List.replicate_succ']
  rw [etagText, String.toList_ofList, htrim, hweak, hquotes]
  rfl

/-- Versions spelled in unary. -/
instance : Inhabited EtagScheme where
  default :=
    { header := fun v => String.ofList (List.replicate (v + 1) 'a')
      tag := fun v => String.ofList (List.replicate (v + 1) 'a')
      tag_eq := etagText_replicate
      tag_injective := by
        intro v w h
        have hlen := congrArg List.length (String.ofList_injective h)
        simpa using hlen }

/-- An answer that says neither "done" nor "gone" nor "already there". -/
structure Refusal where
  status : ℕ
  isError : 400 ≤ status
  notGone : status ≠ 404 ∧ status ≠ 410
  notThere : status ≠ 412

/-- What becomes of one request: whether the server acts on it, and what the client hears. -/
inductive Delivery where
  | served
  | refused (r : Refusal) (applied : Bool)
  | lost (applied : Bool)

structure Weather where
  delivery : Delivery := .served
  sendsEtag : Bool := true
  listed : ℕ := 0

inductive OwnerAct where
  | put (path : String) (body : List Char)
  | remove (path : String)

abbrev Snapshot := AList (fun _ : String => String)

/-- What one writer instance remembers: the listings it has taken and the directories they showed. -/
structure Memory where
  collectionKeys : AList (fun _ : String => Option Snapshot)
  rootKeys : Option (Option Snapshot)
  rootDirs : List String

namespace Server

variable (s : Server)

def write (author : Author) (path : String) (body : List Char) : Server :=
  { s with
    resources := s.resources.insert path ⟨body, s.nextVersion, author⟩
    nextVersion := s.nextVersion + 1 }

def erase (path : String) : Server := { s with resources := s.resources.erase path }

def act : OwnerAct → Server
  | .put path body => s.write .owner path body
  | .remove path => s.erase path

end Server

end OpenMigrate.Dav
