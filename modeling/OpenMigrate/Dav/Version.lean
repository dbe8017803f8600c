import OpenMigrate.Text

namespace OpenMigrate.Dav

structure Response where
  status : ℕ
  headers : List (String × String) := []
  body : String := ""
  deriving DecidableEq

/-- `.replace(/^W\//i, '')` -/
def stripWeak : List Char → List Char
  | c :: '/' :: rest => if c.toLower = 'w' then rest else c :: '/' :: rest
  | s => s

/-- `.replace(/^"|"$/g, '')` -/
def stripQuotes (s : List Char) : List Char :=
  let s := match s with
    | '"' :: rest => rest
    | s => s
  match s.reverse with
  | '"' :: rest => rest.reverse
  | _ => s

def etagText (value : String) : Option String :=
  match stripQuotes (stripWeak (trim value.toList)) with
  | [] => none
  | s => some (String.ofList s)

def readEtag (response : Response) : Option String :=
  match response.headers.find? (fun h => lower h.1.toList == "etag".toList) with
  | some h => etagText h.2
  | none => none

inductive OwnershipVerdict where
  | ours
  | changed
  deriving DecidableEq

def ownershipOf (expected current : Option String) : OwnershipVerdict :=
  match expected, current with
  | some e, some c => if e = c then .ours else .changed
  | _, _ => .ours

def succeeded (response : Response) : Bool := 200 ≤ response.status && response.status < 300

def isTransientDavStatus (status : ℕ) : Bool := 500 ≤ status || status == 423 || status == 429

end OpenMigrate.Dav
