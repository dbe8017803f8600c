import OpenMigrate.Dav.Api

namespace OpenMigrate.Dav

open Async

variable {e : Endpoint}

abbrev DavTask (e : Endpoint) (α : Type) := Task (api e) α

def request (r : Request) : DavTask e r.Resp := Task.target (T := api e) r

/-- `send`, and up to `n` more times while the answer says the server is busy. -/
def retrying (send : DavTask e Response) : ℕ → DavTask e Response
  | 0 => send
  | n + 1 => send.bind fun response =>
    if isTransientDavStatus response.status then retrying send n else .ret response

def DEFAULT_ATTEMPTS : ℕ := 5

def requestWithDavRetry (send : DavTask e Response) : DavTask e Response :=
  retrying send (DEFAULT_ATTEMPTS - 1)

def currentEtag (path : String) : DavTask e (Option String) :=
  (requestWithDavRetry (request (.head path))).bind fun response =>
  .ret (if succeeded response then readEtag response else none)

structure Written where
  path : String
  etag : Option String := none
  conflicted : Bool := false
  deriving DecidableEq

/-- The ownership check both rewrites and removals make before they act. -/
def checkOwnership (path : String) (expected : Option String) (changed proceed : DavTask e α) : DavTask e α :=
  match expected with
  | none => proceed
  | some version =>
    (currentEtag path).bind fun current =>
    match ownershipOf (some version) current with
    | .changed => changed
    | .ours => proceed

/-- The whole-body PUT of the three writers; they differ in what they say of a refused rewrite. -/
def putWhole (path : String) (body : List Char) (overwrite : Bool) (refusedRewrite : String) :
    DavTask e Written :=
  (requestWithDavRetry (request (.put path body (!overwrite)))).bind fun response =>
  if response.status = 412 then
    if overwrite then .fail (.error refusedRewrite) else .ret { path := path }
  else if response.status ≠ 201 ∧ response.status ≠ 204 then
    .fail (.error s!"PUT failed for {path} with status {response.status}: {response.body}")
  else .ret { path := path, etag := readEtag response }

def assertRemovableTargetId (targetId what : String) : DavTask e Unit :=
  if trim targetId.toList = [] then
    .fail (.error (s!"Refusing to remove {what}: the ledger holds no target handle for it. " ++
      "An empty handle would address the collection itself, and deleting a " ++
      "container is never what a single-item removal meant. Nothing was changed."))
  else .ret ()

def removeDavResource (path : String) (expectedTargetVersion : Option String) (kind : RemovalKind) :
    DavTask e RemovalResult :=
  checkOwnership path expectedTargetVersion (.ret { conflicted := true })
    ((requestWithDavRetry (request (.delete path))).bind fun response =>
      if response.status = 404 ∨ response.status = 410 then .ret { kind := some .deleted }
      else if response.status < 200 ∨ 300 ≤ response.status then
        .fail (.error (s!"DELETE {path} failed with status {response.status}" ++
          (if response.body = "" then "" else s!": {String.ofList (response.body.toList.take 200)}")))
      else .ret { kind := some kind })

end OpenMigrate.Dav
