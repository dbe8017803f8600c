import OpenMigrate.Graph.VCardText

namespace OpenMigrate.Graph.Contacts

open VCardText

section Source

structure GraphPhysicalAddress where
  street : Option (List Char) := none
  city : Option (List Char) := none
  state : Option (List Char) := none
  postalCode : Option (List Char) := none
  countryOrRegion : Option (List Char) := none

structure GraphEmailAddress where
  address : List Char
  type : Option (List Char) := none

structure GraphWebsite where
  address : List Char
  type : Option (List Char) := none

/-- A contact, or the entry that is left of one that was removed (`@removed`). A property is `none` where it is absent
or null, and so is an entry of a list of addresses or websites that is null. -/
structure GraphContact where
  id : List Char
  removed : Bool := false
  displayName : Option (List Char) := none
  givenName : Option (List Char) := none
  surname : Option (List Char) := none
  middleName : Option (List Char) := none
  jobTitle : Option (List Char) := none
  companyName : Option (List Char) := none
  department : Option (List Char) := none
  businessPhones : Option (List (List Char)) := none
  mobilePhone : Option (List Char) := none
  homePhones : Option (List (List Char)) := none
  otherPhones : Option (List (List Char)) := none
  businessAddress : Option GraphPhysicalAddress := none
  homeAddress : Option GraphPhysicalAddress := none
  otherAddress : Option GraphPhysicalAddress := none
  emailAddresses : Option (List (Option GraphEmailAddress)) := none
  personalNotes : Option (List Char) := none
  categories : Option (List (List Char)) := none
  birthday : Option (List Char) := none
  websites : Option (List (Option GraphWebsite)) := none

structure Photo where
  data : List Char
  mimeType : List Char

/-- A property with its parameter `TYPE`. -/
structure Typed (V : Type) where
  type : List Char
  value : V

structure VCardAddress where
  street : List Char
  city : List Char
  region : List Char
  postal : List Char
  country : List Char

structure VCardFieldMapping where
  uid : List Char
  fn : List Char
  family : List Char
  given : List Char
  additional : List (List Char)
  org : Option (List Char × Option (List Char))
  title : Option (List Char)
  tel : List (Typed (List Char))
  email : List (Typed (List Char))
  adr : List (Typed VCardAddress)
  url : List (Typed (List Char))
  note : Option (List Char)
  bday : Option (List Char)
  photo : Option Photo
  categories : Option (List (List Char))

/-- A text that is there and not empty. -/
def truthy (text : Option (List Char)) : Option (List Char) := text.filter (· ≠ [])

def buildFormattedName (displayName : Option (List Char)) (givenName familyName : List Char) : List Char :=
  match truthy displayName with
  | some name => name
  | none =>
    if givenName ≠ [] ∧ familyName ≠ [] then givenName ++ ' ' :: familyName
    else if givenName ≠ [] then givenName
    else if familyName ≠ [] then familyName
    else "Unknown".toList

def typedAs (type : String) (values : Option (List (List Char))) : List (Typed (List Char)) :=
  (values.getD []).map fun value => ⟨type.toList, value⟩

def mapPhonesToVCard (contact : GraphContact) : List (Typed (List Char)) :=
  typedAs "work" contact.businessPhones ++ typedAs "cell" ((truthy contact.mobilePhone).map fun phone => [phone]) ++
    typedAs "home" contact.homePhones ++ typedAs "other" contact.otherPhones

/-- The type in lower case where it is a known one. -/
def mapType (known : List String) (graphType : Option (List Char)) : List Char :=
  ((known.map String.toList).find? fun type => (graphType.map lower) = some type).getD "other".toList

def mapEmailType : Option (List Char) → List Char := mapType ["home", "work"]

def mapUrlType : Option (List Char) → List Char := mapType ["home", "work", "profile"]

/-- No entries where one of the addresses is null: the mapping throws. -/
def mapEmailsToVCard (contact : GraphContact) : Option (List (Typed (List Char))) :=
  (contact.emailAddresses.getD []).mapM fun email => email.map fun email => ⟨mapEmailType email.type, email.address⟩

def mapAddress (type : String) (address : Option GraphPhysicalAddress) : List (Typed VCardAddress) :=
  (address.map fun address =>
    ⟨type.toList, ⟨address.street.getD [], address.city.getD [], address.state.getD [], address.postalCode.getD [],
      address.countryOrRegion.getD []⟩⟩).toList

def mapAddressesToVCard (contact : GraphContact) : List (Typed VCardAddress) :=
  mapAddress "work" contact.businessAddress ++ mapAddress "home" contact.homeAddress ++
    mapAddress "other" contact.otherAddress

def mapUrlsToVCard (contact : GraphContact) : Option (List (Typed (List Char))) :=
  (contact.websites.getD []).mapM fun website => website.map fun website => ⟨mapUrlType website.type, website.address⟩

def fieldsOf (contact : GraphContact) (photo : Option Photo) (email url : List (Typed (List Char))) :
    VCardFieldMapping where
  uid := contact.id
  fn := buildFormattedName contact.displayName (contact.givenName.getD []) (contact.surname.getD [])
  family := contact.surname.getD []
  given := contact.givenName.getD []
  additional := (truthy contact.middleName).toList
  org := (truthy contact.companyName).map fun name => (name, contact.department)
  title := contact.jobTitle
  tel := mapPhonesToVCard contact
  email := email
  adr := mapAddressesToVCard contact
  url := url
  note := contact.personalNotes
  bday := contact.birthday
  photo := photo
  categories := contact.categories

/-- The fields of a card, with the photo that was fetched, unless the mapping throws. -/
def mapContactToVCardFields (contact : GraphContact) (photo : Option Photo) : Option VCardFieldMapping :=
  (mapEmailsToVCard contact).bind fun email => (mapUrlsToVCard contact).map (fieldsOf contact photo email)

def typedLine (name : String) (entry : Typed (List Char)) : List Char :=
  name.toList ++ ';' :: ("TYPE=".toList ++ entry.type ++ ':' :: escapeVCardValue entry.value)

def addressLine (adr : Typed VCardAddress) : List Char :=
  "ADR".toList ++ ';' :: ("TYPE=".toList ++ adr.type ++ ":;;".toList ++
    [';'].intercalate ([adr.value.street, adr.value.city, adr.value.region, adr.value.postal, adr.value.country].map
      escapeVCardValue))

def textLine (name : String) (value : List Char) : List Char := name.toList ++ ':' :: escapeVCardValue value

def orgLine (org : List Char × Option (List Char)) : List Char :=
  "ORG".toList ++ ':' :: (escapeVCardValue org.1 ++
    ((truthy org.2).map fun department => ';' :: escapeVCardValue department).getD [])

def nameLine (mapping : VCardFieldMapping) : List Char :=
  "N".toList ++ ':' :: (escapeVCardValue mapping.family ++ ';' :: (escapeVCardValue mapping.given ++
    ';' :: (escapeVCardValue ([' '].intercalate mapping.additional) ++ ";;".toList)))

def photoLine (photo : Photo) : List Char :=
  "PHOTO".toList ++ ';' :: ("ENCODING=base64;TYPE=".toList ++ photo.mimeType ++ ':' :: photo.data)

def categoriesLine (categories : List (List Char)) : List Char :=
  "CATEGORIES".toList ++ ':' :: [','].intercalate (categories.map escapeVCardValue)

/-- The lines of a card, which a carriage return and a line feed join. -/
def cardLines (mapping : VCardFieldMapping) : List (List Char) :=
  ["BEGIN:VCARD".toList, "VERSION:4.0".toList, textLine "UID" mapping.uid, textLine "FN" mapping.fn,
    nameLine mapping] ++
    (mapping.org.map orgLine).toList ++
    ((truthy mapping.title).map (textLine "TITLE")).toList ++
    mapping.tel.map (typedLine "TEL") ++
    mapping.email.map (typedLine "EMAIL") ++
    mapping.adr.map addressLine ++
    mapping.url.map (typedLine "URL") ++
    ((truthy mapping.note).map (textLine "NOTE")).toList ++
    ((truthy mapping.bday).map (textLine "BDAY")).toList ++
    (mapping.photo.map photoLine).toList ++
    ((mapping.categories.filter (· ≠ [])).map categoriesLine).toList ++
    ["END:VCARD".toList]

def mapToVCard4 (contact : GraphContact) (photo : Option Photo) : Option (List (List Char)) :=
  (mapContactToVCardFields contact photo).map cardLines

def textOf (lines : List (List Char)) : List Char := "\r\n".toList.intercalate lines

end Source

section Bare

variable {contact : GraphContact} {mapping : VCardFieldMapping} {photo : Option Photo} {id line own : List Char}

/-- A contact of which the card has nothing but an identifier; a carriage return is not written. -/
structure Bare (contact : GraphContact) : Prop where
  fn : escapeVCardValue (buildFormattedName contact.displayName (contact.givenName.getD []) (contact.surname.getD [])) =
    "Unknown".toList
  family : escapeVCardValue (contact.surname.getD []) = []
  given : escapeVCardValue (contact.givenName.getD []) = []
  additional : escapeVCardValue (contact.middleName.getD []) = []
  texts : ∀ text ∈ [contact.companyName, contact.jobTitle, contact.mobilePhone, contact.personalNotes,
    contact.birthday], truthy text = none
  lists : ∀ list ∈ [contact.businessPhones, contact.homePhones, contact.otherPhones, contact.categories],
    list.getD [] = []
  addresses : ∀ address ∈ [contact.businessAddress, contact.homeAddress, contact.otherAddress], address.isNone = true
  emails : contact.emailAddresses.getD [] = []
  websites : contact.websites.getD [] = []

/-- The name that a line begins with. -/
def propertyOf (line : List Char) : List Char := line.takeWhile fun c => c ≠ ':' ∧ c ≠ ';'

/-- The lines of a bare card that are its own. -/
def ownLines (id : List Char) : List (List Char) := [textLine "UID" id, "FN:Unknown".toList, "N:;;;;".toList]

def bareLines (id : List Char) (photo : Option Photo) : List (List Char) :=
  ["BEGIN:VCARD".toList, "VERSION:4.0".toList] ++ ownLines id ++ (photo.map photoLine).toList ++ ["END:VCARD".toList]

theorem mapToVCard4_bare (id : List Char) (removed : Bool) (photo : Option Photo) :
    mapToVCard4 { id := id, removed := removed } photo = some (bareLines id photo) := by
  cases photo <;> rfl

theorem propertyOf_append {name : List Char} (h : (name.all fun c => c ≠ ':' ∧ c ≠ ';') = true) {c : Char}
    (hc : c = ':' ∨ c = ';') (rest : List Char) : propertyOf (name ++ c :: rest) = name := by
  rw [propertyOf, List.takeWhile_append_of_pos, List.takeWhile_cons_of_neg, List.append_nil]
  · obtain rfl | rfl := hc <;> decide
  · intro d hd
    exact List.all_eq_true.mp h d hd

theorem ownLines_names (id : List Char) : (ownLines id).map propertyOf = ["UID", "FN", "N"].map String.toList := by
  have huid : propertyOf (textLine "UID" id) = "UID".toList := propertyOf_append rfl (.inl rfl) _
  rw [ownLines, List.map_cons, huid]
  rfl

def frameNames : List (List Char) := ["BEGIN", "VERSION", "PHOTO", "END"].map String.toList

theorem bareLines_cases (h : line ∈ bareLines id photo) : propertyOf line ∈ frameNames ∨ line ∈ ownLines id := by
  rw [bareLines, List.mem_append, List.mem_append, List.mem_append] at h
  obtain ((h | h) | h) | h := h
  · simp only [List.mem_cons, List.not_mem_nil, or_false] at h
    obtain rfl | rfl := h
    · exact .inl (by decide)
    · exact .inl (by decide)
  · exact .inr h
  · obtain ⟨p, hp, rfl⟩ := List.mem_map.mp (by rwa [Option.toList_map] at h)
    have hname : propertyOf (photoLine p) = "PHOTO".toList := propertyOf_append rfl (.inr rfl) _
    rw [hname]
    exact .inl (by decide)
  · obtain rfl := List.mem_singleton.mp h
    exact .inl (by decide)

theorem propertyOf_bare (h : line ∈ bareLines id photo) :
    propertyOf line ∈ frameNames ++ ["UID", "FN", "N"].map String.toList := by
  obtain h | h := bareLines_cases h
  · exact List.mem_append_left _ h
  · rw [← ownLines_names id]
    exact List.mem_append_right _ (List.mem_map_of_mem h)

theorem eq_of_bare (hown : own ∈ ownLines id) (h : line ∈ bareLines id photo)
    (hname : propertyOf line = propertyOf own) : line = own := by
  have hnames := ownLines_names id
  obtain h | h := bareLines_cases h
  · have hother : propertyOf own ∈ ["UID", "FN", "N"].map String.toList := by
      rw [← hnames]
      exact List.mem_map_of_mem hown
    rw [hname] at h
    exact absurd hother (List.disjoint_of_nodup_append (by decide : (frameNames ++ _).Nodup) h)
  · have hnodup : ((ownLines id).map propertyOf).Nodup := by
      rw [hnames]
      decide
    exact List.inj_on_of_nodup_map hnodup h hown hname

theorem absent {lines : List (List Char)} {name : List Char} (hname : ∀ line ∈ lines, propertyOf line = name)
    (hother : name ∉ frameNames ++ ["UID", "FN", "N"].map String.toList)
    (h : ∀ line ∈ lines, line ∈ bareLines id photo) : lines = [] := by
  rw [List.eq_nil_iff_forall_not_mem]
  intro line hline
  have hbare := propertyOf_bare (h line hline)
  rw [hname line hline] at hbare
  exact hother hbare

theorem filter_eq_none {V : Type} {list : Option (List V)} : list.filter (· ≠ []) = none ↔ list.getD [] = [] := by
  cases list <;> simp

theorem mapM_eq_nil {α β : Type} {f : α → Option β} {l : List α} (h : l.mapM f = some []) : l = [] := by
  cases l with
  | nil => rfl
  | cons a l =>
    rw [List.mapM_cons] at h
    cases ha : f a with
    | none =>
      rw [ha] at h
      cases h
    | some b =>
      cases hl : l.mapM f with
      | none =>
        rw [ha, hl] at h
        cases h
      | some bs =>
        rw [ha, hl] at h
        cases h

theorem nameLine_bare {mapping : VCardFieldMapping} (h : nameLine mapping = "N:;;;;".toList) :
    escapeVCardValue mapping.family = [] ∧ escapeVCardValue mapping.given = [] ∧
      escapeVCardValue ([' '].intercalate mapping.additional) = [] := by
  have hlength := congrArg List.length h
  simp only [nameLine, List.length_append, List.length_cons] at hlength
  refine ⟨List.eq_nil_of_length_eq_zero ?_, List.eq_nil_of_length_eq_zero ?_, List.eq_nil_of_length_eq_zero ?_⟩ <;>
    simp at hlength <;> omega

theorem mapContactToVCardFields_eq (h : mapContactToVCardFields contact photo = some mapping) :
    ∃ email url, mapEmailsToVCard contact = some email ∧ mapUrlsToVCard contact = some url ∧
      mapping = fieldsOf contact photo email url := by
  rw [mapContactToVCardFields] at h
  obtain ⟨email, hemail, h⟩ := Option.bind_eq_some_iff.mp h
  obtain ⟨url, hurl, rfl⟩ := Option.map_eq_some_iff.mp h
  exact ⟨email, url, hemail, hurl, rfl⟩

theorem absent_option {V : Type} {value : Option V} {show_ : V → List Char} {name : List Char}
    (hname : ∀ v, propertyOf (show_ v) = name) (hother : name ∉ frameNames ++ ["UID", "FN", "N"].map String.toList)
    (h : ∀ line ∈ (value.map show_).toList, line ∈ bareLines id photo) : value = none := by
  have hnil : (value.map show_).toList = [] := by
    apply absent _ hother h
    intro line hline
    rw [Option.toList_map] at hline
    obtain ⟨v, -, rfl⟩ := List.mem_map.mp hline
    exact hname v
  cases value with
  | none => rfl
  | some v => cases hnil

theorem absent_list {V : Type} {values : List V} {show_ : V → List Char} {name : List Char}
    (hname : ∀ v, propertyOf (show_ v) = name) (hother : name ∉ frameNames ++ ["UID", "FN", "N"].map String.toList)
    (h : ∀ line ∈ values.map show_, line ∈ bareLines id photo) : values = [] := by
  apply List.map_eq_nil_iff.mp
  apply absent _ hother h
  intro line hline
  obtain ⟨v, -, rfl⟩ := List.mem_map.mp hline
  exact hname v

theorem typedAs_eq_nil {type : String} {values : Option (List (List Char))} :
    typedAs type values = [] ↔ values.getD [] = [] := by
  rw [typedAs, List.map_eq_nil_iff]

theorem phones_eq_nil : mapPhonesToVCard contact = [] ↔ truthy contact.mobilePhone = none ∧
    ∀ list ∈ [contact.businessPhones, contact.homePhones, contact.otherPhones], list.getD [] = [] := by
  have hmobile : ((truthy contact.mobilePhone).map fun phone => [phone]).getD [] = [] ↔
      truthy contact.mobilePhone = none := by
    cases truthy contact.mobilePhone <;> simp
  rw [mapPhonesToVCard, List.append_eq_nil_iff, List.append_eq_nil_iff, List.append_eq_nil_iff, typedAs_eq_nil,
    typedAs_eq_nil, typedAs_eq_nil, typedAs_eq_nil, hmobile]
  simp only [List.forall_mem_cons, List.not_mem_nil, false_imp_iff, forall_const, and_true]
  constructor
  · rintro ⟨⟨⟨hbusiness, hmobile⟩, hhome⟩, hother⟩
    exact ⟨hmobile, hbusiness, hhome, hother⟩
  · rintro ⟨hmobile, hbusiness, hhome, hother⟩
    exact ⟨⟨⟨hbusiness, hmobile⟩, hhome⟩, hother⟩

theorem addresses_eq_nil : mapAddressesToVCard contact = [] ↔
    ∀ address ∈ [contact.businessAddress, contact.homeAddress, contact.otherAddress], address.isNone = true := by
  have hnil : ∀ type address, mapAddress type address = [] ↔ address.isNone = true := by
    intro type address
    cases address <;> simp [mapAddress]
  rw [mapAddressesToVCard, List.append_eq_nil_iff, List.append_eq_nil_iff, hnil, hnil, hnil, and_assoc]
  simp only [List.forall_mem_cons, List.not_mem_nil, false_imp_iff, forall_const, and_true]

theorem additional_eq_nil {middleName : Option (List Char)} :
    escapeVCardValue ([' '].intercalate (truthy middleName).toList) = [] ↔
      escapeVCardValue (middleName.getD []) = [] := by
  cases hmiddle : truthy middleName with
  | none =>
    rw [filter_eq_none.mp hmiddle]
    rfl
  | some name =>
    obtain ⟨rfl, -⟩ := Option.filter_eq_some_iff.mp hmiddle
    rw [Option.toList_some, List.intercalate_singleton]
    rfl

/-- A card has nothing that a bare card does not have exactly if its contact is bare. -/
theorem bare_iff {lines : List (List Char)} (h : mapToVCard4 contact none = some lines) :
    (∀ line ∈ lines, line ∈ bareLines contact.id photo) ↔ Bare contact := by
  obtain ⟨mapping, hmapping, rfl⟩ := Option.map_eq_some_iff.mp h
  obtain ⟨email, url, hemail, hurl, rfl⟩ := mapContactToVCardFields_eq hmapping
  simp only [cardLines, fieldsOf, List.forall_mem_append]
  constructor
  · rintro ⟨⟨⟨⟨⟨⟨⟨⟨⟨⟨⟨hown, horg⟩, htitle⟩, htel⟩, hemails⟩, hadr⟩, hurls⟩, hnote⟩, hbday⟩, -⟩, hcategories⟩, -⟩
    simp only [List.forall_mem_cons] at hown
    obtain ⟨-, -, -, hfn, hn, -⟩ := hown
    have hfn := eq_of_bare (List.mem_cons_of_mem _ List.mem_cons_self) hfn (propertyOf_append rfl (.inl rfl) _)
    have hn := eq_of_bare (List.mem_cons_of_mem _ (List.mem_cons_of_mem _ List.mem_cons_self)) hn
      (propertyOf_append rfl (.inl rfl) _)
    obtain ⟨hfamily, hgiven, hadditional⟩ := nameLine_bare hn
    have horg := absent_option (fun _ => propertyOf_append rfl (.inl rfl) _) (by decide) horg
    have horg := Option.map_eq_none_iff.mp horg
    have htitle := absent_option (fun _ => propertyOf_append rfl (.inl rfl) _) (by decide) htitle
    have hnote := absent_option (fun _ => propertyOf_append rfl (.inl rfl) _) (by decide) hnote
    have hbday := absent_option (fun _ => propertyOf_append rfl (.inl rfl) _) (by decide) hbday
    have hcategories := absent_option (fun _ => propertyOf_append rfl (.inl rfl) _) (by decide) hcategories
    have htel := absent_list (fun _ => propertyOf_append rfl (.inr rfl) _) (by decide) htel
    have hemails := absent_list (fun _ => propertyOf_append rfl (.inr rfl) _) (by decide) hemails
    have hadr := absent_list (fun _ => propertyOf_append rfl (.inr rfl) _) (by decide) hadr
    have hurls := absent_list (fun _ => propertyOf_append rfl (.inr rfl) _) (by decide) hurls
    obtain ⟨hmobile, hphones⟩ := phones_eq_nil.mp htel
    refine ⟨List.append_cancel_left hfn |> List.tail_eq_of_cons_eq, hfamily, hgiven,
      additional_eq_nil.mp hadditional, ?_, ?_, addresses_eq_nil.mp hadr, ?_, ?_⟩
    · simp only [List.forall_mem_cons, List.not_mem_nil, false_imp_iff, forall_const, and_true]
      exact ⟨horg, htitle, hmobile, hnote, hbday⟩
    · obtain ⟨hbusiness, hrest⟩ := List.forall_mem_cons.mp hphones
      obtain ⟨hhome, hrest⟩ := List.forall_mem_cons.mp hrest
      obtain ⟨hother, -⟩ := List.forall_mem_cons.mp hrest
      simp only [List.forall_mem_cons, List.not_mem_nil, false_imp_iff, forall_const, and_true]
      refine ⟨hbusiness, hhome, hother, ?_⟩
      exact filter_eq_none.mp hcategories
    · rw [hemails] at hemail
      exact mapM_eq_nil hemail
    · rw [hurls] at hurl
      exact mapM_eq_nil hurl
  · intro hbare
    rw [mapEmailsToVCard, hbare.emails] at hemail
    rw [mapUrlsToVCard, hbare.websites] at hurl
    obtain rfl : [] = email := Option.some.inj hemail
    obtain rfl : [] = url := Option.some.inj hurl
    have htexts := hbare.texts
    have hlists := hbare.lists
    simp only [List.forall_mem_cons, List.not_mem_nil, false_imp_iff, forall_const, and_true] at htexts hlists
    obtain ⟨horg, htitle, hmobile, hnote, hbday⟩ := htexts
    obtain ⟨hbusiness, hhome, hother, hcategories⟩ := hlists
    have htel : mapPhonesToVCard contact = [] := by
      apply phones_eq_nil.mpr
      simp only [List.forall_mem_cons, List.not_mem_nil, false_imp_iff, forall_const, and_true]
      exact ⟨hmobile, hbusiness, hhome, hother⟩
    have hcategories := filter_eq_none.mpr hcategories
    rw [htel, horg, htitle, hnote, hbday, hcategories, addresses_eq_nil.mpr hbare.addresses]
    have hn : nameLine (fieldsOf contact none [] []) = "N:;;;;".toList := by
      rw [nameLine, fieldsOf, hbare.family, hbare.given, additional_eq_nil.mpr hbare.additional]
      rfl
    have hfn : textLine "FN" (fieldsOf contact none [] []).fn = "FN:Unknown".toList := by
      rw [fieldsOf, textLine, hbare.fn]
      rfl
    simp only [Option.map_none, Option.toList_none, List.map_nil, List.forall_mem_cons, List.not_mem_nil, false_imp_iff,
      forall_const, and_true]
    have hown : ∀ line ∈ ownLines contact.id, line ∈ bareLines contact.id photo := by
      intro line hline
      exact List.mem_append_left _ (List.mem_append_left _ (List.mem_append_right _ hline))
    refine ⟨⟨List.mem_cons_self, List.mem_cons_of_mem _ List.mem_cons_self, hown _ List.mem_cons_self, ?_, ?_⟩, ?_⟩
    · exact hown _ (List.mem_cons_of_mem _ (hfn ▸ List.mem_cons_self))
    · exact hown _ (List.mem_cons_of_mem _ (List.mem_cons_of_mem _ (hn ▸ List.mem_cons_self)))
    · exact List.mem_append_right _ List.mem_cons_self

end Bare

end OpenMigrate.Graph.Contacts
