import OpenMigrate.Graph.ContactCard
import OpenMigrate.Graph.Delta
import OpenMigrate.Tree.Covered

namespace OpenMigrate.Graph.Contacts

open Delta

section Source

def foldersMark : List Char := "/contactFolders/".toList

def contactsMark : List Char := "/contacts/".toList

/-- A folder's identifier is not empty and has no slash. -/
structure GraphContactFolder where
  id : List Char
  name : List Char
  ne_nil : id ≠ []
  plain : '/' ∉ id

structure ContactFolder where
  path : List Char
  name : List Char

def toContactFolder (folder : GraphContactFolder) : ContactFolder where
  path := foldersMark ++ folder.id
  name := folder.name

structure Contact where
  uid : List Char
  name : List Char
  sourcePath : List Char
  photo : Option Photo
  vcard : List (List Char)

structure Listing where
  items : List Contact
  nextCursor : List Char
  removed : List (List Char)

structure PhotoAnswer where
  status : ℕ
  contentType : Option (List Char)
  body : List Char

/-- The service as the source sees it: the pages from a URL on, and what it answers for a photo, if it answers. -/
structure Client where
  scope : List Char
  stringify : Contact → String
  get : List Char → Paging GraphContact
  photo : List Char → Option PhotoAnswer

variable (client : Client)

def extractFolderIdFromFolder (folder : ContactFolder) : List Char :=
  (idBehind foldersMark folder.path).getD (if folder.name = [] then "contacts".toList else folder.name)

def startsLine (c : Char) : Bool := [0xA, 0xD, 0x2028, 0x2029].contains c.toNat

/-- `vcard.match(/^UID:(.+)$/m)` -/
def extractUidFromVCard (vcard : List Char) : List Char :=
  (((vcard.splitOnP startsLine).filter fun line => "UID:".toList.isPrefixOf line && line.length != 4).head?.map
    (·.drop 4)).getD []

def sourcePath (folderId id : List Char) : List Char :=
  foldersMark ++ folderId ++ contactsMark ++ id

/-- The item of a contact, with its card but no photo, unless the mapping throws. -/
def toItem (folderId : List Char) (contact : GraphContact) : Option Contact :=
  (mapToVCard4 contact none).map fun vcard =>
    { uid := extractUidFromVCard (textOf vcard)
      name := ((truthy contact.displayName).or (truthy contact.givenName)).getD "Unknown".toList
      sourcePath := sourcePath folderId contact.id
      photo := none
      vcard := vcard }

def folderUrl (folderId : List Char) : List Char :=
  client.scope ++ foldersMark ++ folderId ++ "/contacts".toList

/-- A contact whose mapping throws is passed over. -/
def listSince (folder : ContactFolder) (cursor : Option (List Char)) : Except String Listing :=
  let folderId := extractFolderIdFromFolder folder
  (readPages contacts (String.ofList folder.path) MAX_DELTA_PAGES
    (client.get (firstUrl contacts (folderUrl client folderId) cursor))).map fun r =>
  { items := r.1.filterMap (toItem folderId)
    nextCursor := Delta.encodeCursor contacts folder.path (r.2.getD [])
    removed := [] }

/-- `path.match(/\/contactFolders\/([^/]+)\/contacts\/([^/]+)$/)` -/
def partsOf (path : List Char) : Option (List Char × List Char) :=
  match (path.splitOn '/').reverse with
  | contactId :: inside :: folderId :: root :: _ :: _ =>
    if inside = "contacts".toList ∧ root = "contactFolders".toList ∧ contactId ≠ [] ∧ folderId ≠ [] then
      some (folderId, contactId)
    else none
  | _ => none

def photoUrl (folderId id : List Char) : List Char :=
  folderUrl client folderId ++ '/' :: (id ++ "/photo/$value".toList)

def photoMimeType (contentType : Option (List Char)) : List Char :=
  ((truthy contentType).filter fun type => "image/".toList.isPrefixOf type).getD "image/jpeg".toList

/-- The photo that is fetched for a contact, if one comes. -/
def fetchPhoto (folderId id : List Char) : Option Photo :=
  (client.photo (photoUrl client folderId id)).bind fun answer =>
    if answer.status = 200 ∧ answer.body ≠ [] then some ⟨answer.body, photoMimeType answer.contentType⟩ else none

/-- The card is made anew from the identifier and the photo. -/
def fetch (item : Contact) : Except String Contact :=
  if item.sourcePath = [] then .error s!"Contact missing sourcePath: {client.stringify item}"
  else
    match partsOf item.sourcePath with
    | none => .error s!"Invalid sourcePath format: {String.ofList item.sourcePath}"
    | some (folderId, contactId) =>
      let photo := fetchPhoto client folderId contactId
      match mapToVCard4 { id := contactId } photo with
      | none => .error "Cannot read properties of null (reading 'type')"
      | some vcard => .ok { item with photo := photo.or item.photo, vcard := vcard }

end Source

section Whole

open VCardText

variable {client : Client} {folder : GraphContactFolder} {cursor : Option (List Char)} {listing : Listing}
  {folderId id : List Char} {contact : GraphContact} {item : Contact}

/-- What the pages report from the cursor on. -/
def reported (client : Client) (folder : GraphContactFolder) (cursor : Option (List Char)) : List GraphContact :=
  (client.get (firstUrl contacts (folderUrl client folder.id) cursor)).values

/-- A removed contact is reported as one and not listed, and the card that is fetched for a listed contact has every
line of its card in the listing, and its photo where one comes. -/
structure Whole (client : Client) (folder : GraphContactFolder) (reported : List GraphContact) (listing : Listing) :
    Prop where
  gone : ∀ contact ∈ reported, contact.removed = true →
    contact.id ∈ listing.removed ∧ ∀ item ∈ listing.items, item.sourcePath ≠ sourcePath folder.id contact.id
  whole : ∀ contact ∈ reported, ∀ item, toItem folder.id contact = some item →
    ∃ fetched, fetch client item = .ok fetched ∧ (∀ line ∈ item.vcard, line ∈ fetched.vcard) ∧
      ∀ photo, fetchPhoto client folder.id contact.id = some photo → photoLine photo ∈ fetched.vcard

/-- A contact with no null among its addresses and websites. -/
structure Mapped (contact : GraphContact) : Prop where
  emails : none ∉ contact.emailAddresses.getD []
  websites : none ∉ contact.websites.getD []

theorem extractFolderId (folder : GraphContactFolder) :
    extractFolderIdFromFolder (toContactFolder folder) = folder.id := by
  have hmark : foldersMark ≠ [] := by decide
  rw [extractFolderIdFromFolder, toContactFolder, idBehind_marker hmark folder.ne_nil folder.plain, Option.getD_some]

theorem sourcePath_split (folderId id : List Char) : (sourcePath folderId id).splitOn '/' =
    [] :: "contactFolders".toList :: (folderId.splitOn '/' ++ "contacts".toList :: id.splitOn '/') := by
  have hfolders : foldersMark = [] ++ '/' :: ("contactFolders".toList ++ ['/']) := by decide
  have hcontacts : contactsMark = '/' :: ("contacts".toList ++ ['/']) := by decide
  have hpath : sourcePath folderId id =
      [] ++ '/' :: ("contactFolders".toList ++ '/' :: (folderId ++ '/' :: ("contacts".toList ++ '/' :: id))) := by
    rw [sourcePath, hfolders, hcontacts]
    simp only [List.append_assoc, List.cons_append, List.nil_append]
  rw [hpath, List.splitOn_append_cons_self, List.splitOn_append_cons_self, List.splitOn_append_cons_self,
    List.splitOn_append_cons_self]
  rfl

theorem partsOf_eq (hplain : '/' ∉ folderId) (hslash : '/' ∉ id) : partsOf (sourcePath folderId id) =
    if id ≠ [] ∧ folderId ≠ [] then some (folderId, id) else none := by
  rw [partsOf, sourcePath_split, List.splitOn_eq_singleton hplain, List.splitOn_eq_singleton hslash]
  apply if_congr _ rfl rfl
  simp

theorem partsOf_plain {path : List Char} (h : partsOf path = some (folderId, id)) : id ≠ [] ∧ '/' ∉ id := by
  rw [partsOf] at h
  split at h
  · rename_i contactId inside folderId' root above tail hsplit
    split at h
    · rename_i hparts
      cases h
      refine ⟨hparts.2.2.1, Tree.splitOn_slashless (s := path) ?_⟩
      rw [← List.mem_reverse, hsplit]
      exact List.mem_cons_self
    · cases h
  · cases h

theorem slash_mem_escape (s : List Char) : '/' ∈ escapeVCardValue s ↔ '/' ∈ s := by
  rw [escapeVCardValue_eq, Backslash.escaped, List.mem_flatMap]
  constructor
  · rintro ⟨c, hc, hslash⟩
    have hmem := (List.mem_filter.mp hc).1
    split at hslash
    · rename_i hspecial
      simp only [List.mem_cons, List.not_mem_nil, or_false] at hslash
      obtain hslash | hslash := hslash
      · cases hslash
      · rw [Backslash.letter] at hslash
        split at hslash
        · cases hslash
        · rwa [hslash]
    · rwa [List.mem_singleton.mp hslash]
  · intro hmem
    exact ⟨'/', List.mem_filter.mpr ⟨hmem, rfl⟩, List.mem_singleton.mpr rfl⟩

theorem fetch_of_parts (client : Client) (hpath : item.sourcePath ≠ [])
    (hparts : partsOf item.sourcePath = some (folderId, id)) :
    ∃ fetched, fetch client item = .ok fetched ∧ fetched.vcard = bareLines id (fetchPhoto client folderId id) := by
  rw [fetch, if_neg hpath, hparts]
  dsimp only
  rw [mapToVCard4_bare]
  exact ⟨_, rfl, rfl⟩

theorem fetch_ok {fetched : Contact} (h : fetch client item = .ok fetched) :
    ∃ folderId id, partsOf item.sourcePath = some (folderId, id) ∧
      fetched.vcard = bareLines id (fetchPhoto client folderId id) := by
  rw [fetch] at h
  split at h
  · cases h
  · rename_i hpath
    split at h
    · cases h
    · rename_i folderId id hparts
      dsimp only at h
      rw [mapToVCard4_bare] at h
      cases h
      exact ⟨folderId, id, hparts, rfl⟩

theorem toItem_eq (h : toItem folderId contact = some item) :
    item.sourcePath = sourcePath folderId contact.id ∧ mapToVCard4 contact none = some item.vcard := by
  obtain ⟨vcard, hvcard, rfl⟩ := Option.map_eq_some_iff.mp h
  exact ⟨rfl, hvcard⟩

theorem sourcePath_ne_nil : sourcePath folderId id ≠ [] := by
  have hmark : foldersMark ≠ [] := by decide
  rw [sourcePath, List.append_assoc, List.append_assoc]
  exact List.append_ne_nil_of_left_ne_nil hmark _

theorem uid_mem {lines : List (List Char)} (h : mapToVCard4 contact none = some lines) :
    textLine "UID" contact.id ∈ lines := by
  obtain ⟨mapping, hmapping, rfl⟩ := Option.map_eq_some_iff.mp h
  obtain ⟨email, url, -, -, rfl⟩ := mapContactToVCardFields_eq hmapping
  simp [cardLines, fieldsOf]

theorem kept_iff (h : toItem folder.id contact = some item) :
    (∃ fetched, fetch client item = .ok fetched ∧ (∀ line ∈ item.vcard, line ∈ fetched.vcard) ∧
      ∀ photo, fetchPhoto client folder.id contact.id = some photo → photoLine photo ∈ fetched.vcard) ↔
      contact.id ≠ [] ∧ '/' ∉ contact.id ∧ Bare contact := by
  obtain ⟨hpath, hcard⟩ := toItem_eq h
  constructor
  · rintro ⟨fetched, hfetched, hlines, -⟩
    obtain ⟨folderId, id, hparts, hvcard⟩ := fetch_ok hfetched
    rw [hvcard] at hlines
    obtain ⟨-, hslash⟩ := partsOf_plain hparts
    have huid := eq_of_bare List.mem_cons_self (hlines _ (uid_mem hcard))
      ((propertyOf_append rfl (.inl rfl) _).trans (propertyOf_append rfl (.inl rfl) _).symm)
    have hescape : escapeVCardValue contact.id = escapeVCardValue id :=
      List.append_cancel_left huid |> List.tail_eq_of_cons_eq
    have hplain : '/' ∉ contact.id := by
      rw [← slash_mem_escape, hescape, slash_mem_escape]
      exact hslash
    rw [hpath, partsOf_eq folder.plain hplain] at hparts
    split at hparts
    · rename_i hne
      cases hparts
      exact ⟨hne.1, hplain, (bare_iff hcard).mp hlines⟩
    · cases hparts
  · rintro ⟨hne, hslash, hbare⟩
    have hparts : partsOf item.sourcePath = some (folder.id, contact.id) := by
      rw [hpath, partsOf_eq folder.plain hslash]
      exact if_pos ⟨hne, folder.ne_nil⟩
    obtain ⟨fetched, hfetched, hvcard⟩ := fetch_of_parts client (hpath ▸ sourcePath_ne_nil) hparts
    refine ⟨fetched, hfetched, ?_, ?_⟩
    · rw [hvcard]
      exact (bare_iff hcard).mpr hbare
    · intro photo hphoto
      rw [hvcard, hphoto, bareLines, Option.map_some, Option.toList_some]
      exact List.mem_append_left _ (List.mem_append_right _ List.mem_cons_self)

theorem mapM_isSome {V W : Type} {g : V → W} (l : List (Option V)) :
    (l.mapM fun value : Option V => value.map g).isSome = true ↔ none ∉ l := by
  induction l with
  | nil => simp
  | cons value l ih =>
    rw [List.mapM_cons, List.mem_cons, not_or, ← ih]
    cases value with
    | none => simp
    | some v => cases l.mapM fun value : Option V => value.map g <;> simp

theorem mapped_iff (folderId : List Char) (contact : GraphContact) :
    (toItem folderId contact).isSome = true ↔ Mapped contact := by
  have hfields : (toItem folderId contact).isSome = true ↔
      (mapEmailsToVCard contact).isSome = true ∧ (mapUrlsToVCard contact).isSome = true := by
    rw [toItem, mapToVCard4, mapContactToVCardFields]
    cases mapEmailsToVCard contact <;> cases mapUrlsToVCard contact <;> simp
  rw [hfields, mapEmailsToVCard, mapUrlsToVCard, mapM_isSome, mapM_isSome]
  constructor
  · rintro ⟨hemails, hwebsites⟩
    exact ⟨hemails, hwebsites⟩
  · intro h
    exact ⟨h.emails, h.websites⟩

theorem listSince_eq (h : listSince client (toContactFolder folder) cursor = .ok listing) :
    listing.items = (reported client folder cursor).filterMap (toItem folder.id) ∧ listing.removed = [] := by
  rw [listSince, extractFolderId] at h
  cases hpages : readPages contacts (String.ofList (toContactFolder folder).path) MAX_DELTA_PAGES
      (client.get (firstUrl contacts (folderUrl client folder.id) cursor)) with
  | error e =>
    rw [hpages] at h
    cases h
  | ok r =>
    rw [hpages] at h
    cases h
    rw [reported, ← readPages_values hpages]
    exact ⟨rfl, rfl⟩

/-- A listing is whole exactly if the pages report no removal, and every contact that is listed is bare. -/
theorem whole_iff (h : listSince client (toContactFolder folder) cursor = .ok listing) :
    Whole client folder (reported client folder cursor) listing ↔
      ∀ contact ∈ reported client folder cursor, contact.removed = false ∧
        (Mapped contact → contact.id ≠ [] ∧ '/' ∉ contact.id ∧ Bare contact) := by
  obtain ⟨-, hremoved⟩ := listSince_eq h
  constructor
  · intro hwhole contact hcontact
    constructor
    · cases hgone : contact.removed with
      | false => rfl
      | true =>
        obtain ⟨hreported, -⟩ := hwhole.gone contact hcontact hgone
        rw [hremoved] at hreported
        cases hreported
    · intro hmapped
      obtain ⟨item, hitem⟩ := Option.isSome_iff_exists.mp ((mapped_iff folder.id contact).mpr hmapped)
      exact (kept_iff hitem).mp (hwhole.whole contact hcontact item hitem)
  · intro hall
    refine ⟨?_, ?_⟩
    · intro contact hcontact hgone
      rw [(hall contact hcontact).1] at hgone
      cases hgone
    · intro contact hcontact item hitem
      have hmapped := (mapped_iff folder.id contact).mp (by rw [hitem]; rfl)
      exact (kept_iff hitem).mpr ((hall contact hcontact).2 hmapped)

end Whole

namespace Sample

def folder : GraphContactFolder := ⟨"f".toList, "Contacts".toList, by decide, by decide⟩

/-- A service that answers one page, and no photo. -/
def client (value : List GraphContact) : Client where
  scope := "https://graph.microsoft.com/v1.0/me".toList
  stringify _ := ""
  get _ := .last value (some "d".toList)
  photo _ := none

def listing (value : List GraphContact) : Listing where
  items := value.filterMap (toItem folder.id)
  nextCursor := Delta.encodeCursor contacts (toContactFolder folder).path "d".toList
  removed := []

theorem listed (value : List GraphContact) :
    listSince (client value) (toContactFolder folder) none = .ok (listing value) := by
  rw [listSince, extractFolderId]
  rfl

theorem bare_whole : Whole (client [{ id := "c".toList }]) folder (reported (client [{ id := "c".toList }]) folder none)
    (listing [{ id := "c".toList }]) := by
  apply (whole_iff (listed [{ id := "c".toList }])).mpr
  intro contact hcontact
  obtain rfl := List.mem_singleton.mp hcontact
  refine ⟨rfl, fun _ => ⟨by decide, by decide, ?_⟩⟩
  constructor <;> decide

def gone : List GraphContact := [{ id := "c".toList, removed := true }]

/-- A contact that was removed stands among the items, as one without a name. -/
theorem removed_listed :
    listSince (client gone) (toContactFolder folder) none = .ok (listing gone) ∧
      (listing gone).items.map Contact.name = ["Unknown".toList] ∧
      ¬ Whole (client gone) folder (reported (client gone) folder none) (listing gone) := by
  refine ⟨listed gone, ?_, ?_⟩
  · rw [listing, gone, List.filterMap_cons, toItem, mapToVCard4_bare]
    rfl
  intro h
  exact absurd (h.gone _ List.mem_cons_self rfl).1 List.not_mem_nil

end Sample

end OpenMigrate.Graph.Contacts
