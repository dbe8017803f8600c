import OpenMigrate.Dav.Server

namespace OpenMigrate.Dav

open Async

inductive Request where
  | head (path : String)
  | put (path : String) (body : List Char) (ifNoneMatch : Bool)
  | putRange (path : String) (start total : ℕ) (chunk : List Char)
  | delete (path : String)
  | keysIn (collectionId : String)
  | noteKey (collectionId naturalKey targetId : String)
  | report (collectionId naturalKey : String)
  | keysUnderRoot
  | noteRootKey (naturalKey targetId : String)
  | rootDirs
  | propfind (path : String)

abbrev Request.Resp : Request → Type
  | .head _ => Response
  | .put .. => Response
  | .putRange .. => Response
  | .delete _ => Response
  | .keysIn _ => Option Snapshot
  | .noteKey .. => Unit
  | .report .. => Option String
  | .keysUnderRoot => Option Snapshot
  | .noteRootKey .. => Unit
  | .rootDirs => List String
  | .propfind _ => Option Bool

/-- A path as the endpoint sees it: `buildUrl` drops the leading slashes. -/
def urlPath (path : String) : String := String.ofList (path.toList.dropWhile (· == '/'))

/-- `path.replace(/\\/g, '/').replace(/^\/+|\/+$/g, '')` -/
def normalizeRelativePath (path : String) : String :=
  let slashes := path.toList.map (fun c => if c = '\\' then '/' else c)
  String.ofList (((slashes.dropWhile (· == '/')).reverse.dropWhile (· == '/')).reverse)

structure Endpoint where
  etags : EtagScheme
  hrefBase : String

namespace Endpoint

variable (e : Endpoint) (w : Weather) (s : Server)

def etagHeader (version : ℕ) : List (String × String) :=
  if w.sendsEtag then [("ETag", e.etags.header version)] else []

def deliver (served : Server × Response) : Except String Response × Server :=
  match w.delivery with
  | .served => (.ok served.2, served.1)
  | .refused r applied => (.ok { status := r.status }, if applied then served.1 else s)
  | .lost applied => (.error "fetch failed", if applied then served.1 else s)

def head (path : String) : Response :=
  match s.resources.lookup (urlPath path) with
  | some r => { status := 200, headers := e.etagHeader w r.version }
  | none => { status := if urlPath path ∈ s.directories then 200 else 404 }

/-- The answer to a request that replaces or creates the resource at a path. -/
def stored (path : String) (body : List Char) : Server × Response :=
  if urlPath path ∈ s.directories then (s, { status := 405 })
  else
    (s.write .migration (urlPath path) body,
      { status := if (s.resources.lookup (urlPath path)).isSome then 204 else 201
        headers := e.etagHeader w s.nextVersion })

def put (path : String) (body : List Char) (ifNoneMatch : Bool) : Server × Response :=
  if ifNoneMatch && (s.resources.lookup (urlPath path)).isSome then (s, { status := 412 })
  else e.stored w s path body

def held (path : String) : List Char := ((s.resources.lookup (urlPath path)).map (·.body)).getD []

def putRange (path : String) (start : ℕ) (chunk : List Char) : Server × Response :=
  e.stored w s path ((held s path).take start ++ chunk)

def delete (path : String) : Server × Response :=
  match s.resources.lookup (urlPath path) with
  | some _ => (s.erase (urlPath path), { status := 204 })
  | none => (s, { status := 404 })

def href (path : String) : String := e.hrefBase ++ "/" ++ path

def isIn (collectionId path : String) : Bool := (urlPath collectionId).toList.isPrefixOf path.toList

def objectsIn (collectionId : String) : List (String × Resource) :=
  (s.resources.entries.filter (fun r => isIn collectionId r.1)).map (fun r => (r.1, r.2))

/-- The listing of a collection by UID; one object without a UID makes the listing fail. -/
def listObjects (collectionId : String) : Option Snapshot :=
  (objectsIn s collectionId).foldr (fun r keys =>
    match extractUid r.2.body, keys with
    | some uid, some keys => some (keys.insert (String.ofList uid) (e.href r.1))
    | _, _ => none) (some ∅)

def listRoot : Snapshot := s.resources.entries.foldr (fun r keys => keys.insert r.1 r.1) ∅

def served : Bool :=
  match w.delivery with
  | .served => true
  | _ => false

def keysIn (m : Memory) (collectionId : String) : Option Snapshot × Memory :=
  match m.collectionKeys.lookup collectionId with
  | some keys => (keys, m)
  | none =>
    let keys := if served w then e.listObjects s collectionId else none
    (keys, { m with collectionKeys := m.collectionKeys.insert collectionId keys })

def keysUnderRoot (m : Memory) : Option Snapshot × Memory :=
  match m.rootKeys with
  | some keys => (keys, m)
  | none =>
    if served w then
      (some (listRoot s), { m with rootKeys := some (some (listRoot s)), rootDirs := s.directories })
    else
      (none, { m with rootKeys := some none, rootDirs := s.directories.take w.listed })

def contains (text s : List Char) : Bool := s.tails.any (fun t => text.isPrefixOf t)

/-- The per-item existence check: objects whose UID matches the text, by an href that spells it. -/
def report (collectionId naturalKey : String) : Except String (Option String) :=
  match w.delivery with
  | .served =>
    .ok (((objectsIn s collectionId).filter (fun r =>
      ((extractUid r.2.body).map (fun uid => contains (lower naturalKey.toList) (lower uid))).getD
        false)).map (fun r => e.href r.1) |>.find? (fun h => contains naturalKey.toList h.toList))
  | .refused .. => .ok none
  | .lost _ => .error "fetch failed"

def propfind (path : String) : Option Bool :=
  if served w then
    if urlPath path ∈ s.directories then some true
    else if (s.resources.lookup (urlPath path)).isSome then some false
    else none
  else none

def noteKey (m : Memory) (collectionId naturalKey targetId : String) : Memory :=
  match m.collectionKeys.lookup collectionId with
  | some (some keys) =>
    { m with collectionKeys := m.collectionKeys.insert collectionId (some (keys.insert naturalKey targetId)) }
  | _ => m

def noteRootKey (m : Memory) (naturalKey targetId : String) : Memory :=
  match m.rootKeys with
  | some (some keys) => { m with rootKeys := some (some (keys.insert naturalKey targetId)) }
  | _ => m

def exec (w : Weather) (x : Server × Memory) : (r : Request) → Except String r.Resp × (Server × Memory)
  | .head path => let a := deliver w x.1 (x.1, e.head w x.1 path); (a.1, a.2, x.2)
  | .put path body ifNoneMatch => let a := deliver w x.1 (e.put w x.1 path body ifNoneMatch); (a.1, a.2, x.2)
  | .putRange path start _ chunk => let a := deliver w x.1 (e.putRange w x.1 path start chunk); (a.1, a.2, x.2)
  | .delete path => let a := deliver w x.1 (delete x.1 path); (a.1, a.2, x.2)
  | .keysIn collectionId => let a := e.keysIn w x.1 x.2 collectionId; (.ok a.1, x.1, a.2)
  | .noteKey collectionId key targetId => (.ok (), x.1, noteKey x.2 collectionId key targetId)
  | .report collectionId key => (e.report w x.1 collectionId key, x)
  | .keysUnderRoot => let a := keysUnderRoot w x.1 x.2; (.ok a.1, x.1, a.2)
  | .noteRootKey key targetId => (.ok (), x.1, noteRootKey x.2 key targetId)
  | .rootDirs => (.ok x.2.rootDirs, x)
  | .propfind path => (.ok (propfind w x.1 path), x)

end Endpoint

def api (e : Endpoint) : TargetApi where
  State := Server
  Session := Memory
  Cmd := Request
  Resp := Request.Resp
  Inp := Weather
  Act := OwnerAct
  exec r w x := e.exec w x r
  act a s := s.act a
  fresh := ⟨∅, none, []⟩

end OpenMigrate.Dav
