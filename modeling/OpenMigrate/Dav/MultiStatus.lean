import OpenMigrate.Dav.Href
import OpenMigrate.Dav.Uid
import OpenMigrate.Dav.XmlEntities

namespace OpenMigrate.Dav

open Escape

section Tokens

/-- A 207 body as its tags and the text between them; `ns` is the prefix that a server writes for a namespace. -/
inductive XmlToken where
  | opening (ns : Option (List Char)) (name : String) (attrs : List Char)
  | closing (ns : Option (List Char)) (name : String)
  | text (chars : List Char)

def qualified (ns : Option (List Char)) (name : String) : List Char :=
  (ns.map fun ns => ns ++ [':']).getD [] ++ name.toList

def XmlToken.chars : XmlToken → List Char
  | opening ns name attrs => '<' :: (qualified ns name ++ attrs ++ ['>'])
  | closing ns name => '<' :: '/' :: (qualified ns name ++ ['>'])
  | text chars => chars

def xmlChars (ts : List XmlToken) : List Char := ts.flatMap XmlToken.chars

/-- `(?:\s[^>]*)?` -/
def isAttrs : List Char → Bool
  | [] => true
  | c :: _ => whiteSpace c

/-- The matches of `elementPattern(localName, 'g')`: what stands between the tags. `seen` is what has been read of an
element that is open. -/
def elementsFrom (localName : String) : Option (List XmlToken) → List XmlToken → List (List XmlToken)
  | _, [] => []
  | none, .opening _ name attrs :: rest =>
    elementsFrom localName (if name = localName ∧ isAttrs attrs = true then some [] else none) rest
  | none, _ :: rest => elementsFrom localName none rest
  | some seen, .closing ns name :: rest =>
    if name = localName then seen :: elementsFrom localName none rest
    else elementsFrom localName (some (seen ++ [.closing ns name])) rest
  | some seen, t :: rest => elementsFrom localName (some (seen ++ [t])) rest

def firstElementText (xml : List XmlToken) (localName : String) : Option (List XmlToken) :=
  (elementsFrom localName none xml).head?

/-- One `<response>` of a 207 body. -/
structure MultiStatusResponse where
  href : List Char
  xml : List XmlToken

def parseMultiStatus (xml : List XmlToken) : List MultiStatusResponse :=
  (elementsFrom "response" none xml).filterMap fun block =>
    (firstElementText block "href").map fun href => { href := trim (xmlChars href), xml := block }

/-- `/<D:href>([^<]+)<\/D:href>/g` -/
def hrefMatches : List XmlToken → List (List Char)
  | .opening ns name attrs :: .text href :: .closing ns' name' :: rest =>
    if (ns = some ['D'] ∧ name = "href" ∧ attrs = []) ∧ href ≠ [] ∧ ns' = some ['D'] ∧ name' = "href" then
      href :: hrefMatches rest
    else hrefMatches rest
  | _ :: rest => hrefMatches rest
  | [] => []

end Tokens

section Unescape

def unescapeXmlReplacements : List Replacement :=
  [.name .lt false, .name .gt false, .name .quot false, .name .apos false, .decimal, .name .amp false]

/-- `String.fromCodePoint`, by code points. -/
def codePoint (n : ℕ) : Option Units := if n ≤ 0x10FFFF then some [n] else none

/-- XML has no reference to half a surrogate pair. -/
def toChar (n : ℕ) : Option Char := if h : n.isValidChar then some (Char.ofNatAux n h) else none

/-- `/^\s*<!\[CDATA\[([\s\S]*?)\]\]>\s*$/` -/
def unwrapCdata (text : List Char) : List Char :=
  let inner := (trim text).drop 9
  if "<![CDATA[".toList <+: trim text ∧ "]]>".toList <:+ inner then inner.take (inner.length - 3) else text

def unescapeXml (number : ℕ → ℕ) (text : List Char) : Option (List Char) :=
  (decode (unescapeXmlReplacements.map (Replacement.rule number codePoint)) ((unwrapCdata text).map Char.toNat)).bind
    fun units => units.mapM toChar

end Unescape

section Writer

/-- The CalDAV and the CardDAV writer differ in the name of the element that holds an object. -/
inductive DavKind where
  | calendar
  | contact

def DavKind.data : DavKind → String
  | calendar => "calendar-data"
  | contact => "address-data"

abbrev TargetKeys := AList fun _ : List Char => List Char

/-- What `listEventsIn` and `listContactsIn` yield for a response, set by `keysIn`: none where they throw. -/
def putKey (number : ℕ → ℕ) (kind : DavKind) (keys : TargetKeys) (item : MultiStatusResponse) : Option TargetKeys :=
  match firstElementText item.xml kind.data with
  | none => some keys
  | some data =>
    match (unescapeXml number (xmlChars data)).bind extractUid, decodeHref item.href with
    | some uid, .ok targetId => some (keys.insert uid targetId)
    | _, _ => none

def keysOf (number : ℕ → ℕ) (kind : DavKind) (body : List XmlToken) : Option TargetKeys :=
  (parseMultiStatus body).foldlM (putKey number kind) ∅

/-- `if (existingId)`, where it comes from the snapshot. -/
def existsByKeys (keys : TargetKeys) (uid : List Char) : Bool := (keys.lookup uid).any (· ≠ [])

/-- `parseMultiStatusResponse` -/
def parseMultiStatusResponse (response : List XmlToken) (searchUid : List Char) : Option (List Char) :=
  (hrefMatches response).find? fun href => searchUid <:+: href

/-- `if (existingId)`, where it comes from the request for one item. -/
def existsByReport (response : List XmlToken) (uid : List Char) : Bool :=
  (parseMultiStatusResponse response uid).any (· ≠ [])

end Writer

end OpenMigrate.Dav
