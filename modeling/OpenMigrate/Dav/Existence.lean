import OpenMigrate.Dav.MultiStatus

namespace OpenMigrate.Dav

open Url

/-- An object of the target's collection, as a 207 body spells it. -/
structure TargetObject where
  href : List Char
  href_ne : trim href ≠ []
  data : List Char

/-- How a server answers: the prefixes it writes, whether a listing shows the collection itself, whether a REPORT
without a `Depth` header reaches the objects, and which of them its `text-match` takes. -/
structure TargetServer where
  ns : Option (List Char)
  dataNs : Option (List Char)
  attrs : List Char
  isAttrs : Dav.isAttrs attrs = true
  own : Option (List Char)
  reaches : Bool
  textMatch : TargetObject → List Char → Bool

namespace TargetServer

variable (S : TargetServer) (kind : DavKind)

/-- What stands in the `<response>` of an object. -/
def block (o : TargetObject) : List XmlToken :=
  [.opening S.ns "href" [], .text o.href, .closing S.ns "href", .opening S.ns "propstat" [], .opening S.ns "prop" [],
    .opening S.dataNs kind.data S.attrs, .text o.data, .closing S.dataNs kind.data, .closing S.ns "prop",
    .opening S.ns "status" [], .text "HTTP/1.1 200 OK".toList, .closing S.ns "status", .closing S.ns "propstat"]

def ownBlock (href : List Char) : List XmlToken := [.opening S.ns "href" [], .text href, .closing S.ns "href"]

def response (block : List XmlToken) : List XmlToken :=
  .opening S.ns "response" [] :: (block ++ [.closing S.ns "response"])

def multistatus (blocks : List (List XmlToken)) : List XmlToken :=
  .opening S.ns "multistatus" [] :: (blocks.flatMap S.response ++ [.closing S.ns "multistatus"])

/-- The answer to the listing, with `Depth: 1`. -/
def listing (objects : List TargetObject) : List XmlToken :=
  S.multistatus (S.own.toList.map S.ownBlock ++ objects.map (S.block kind))

/-- The answer to the request for one UID, without a `Depth`. -/
def query (objects : List TargetObject) (uid : List Char) : List XmlToken :=
  S.multistatus ((if S.reaches then objects.filter (S.textMatch · uid) else []).map (S.block kind))

end TargetServer

section Bodies

variable (S : TargetServer) (kind : DavKind)

theorem elementsFrom_inside {localName : String} (seen : List XmlToken) {block : List XmlToken}
    (h : ∀ ns, XmlToken.closing ns localName ∉ block) (ns : Option (List Char)) (rest : List XmlToken) :
    elementsFrom localName (some seen) (block ++ .closing ns localName :: rest) =
      (seen ++ block) :: elementsFrom localName none rest := by
  induction block generalizing seen with
  | nil => simp [elementsFrom]
  | cons t block ih =>
    have hblock : ∀ ns, XmlToken.closing ns localName ∉ block := fun ns hmem => h ns (List.mem_cons_of_mem _ hmem)
    have hstep : elementsFrom localName (some seen) (t :: (block ++ .closing ns localName :: rest)) =
        elementsFrom localName (some (seen ++ [t])) (block ++ .closing ns localName :: rest) := by
      cases t with
      | opening ns' name attrs => rfl
      | text chars => rfl
      | closing ns' name =>
        have hname : name ≠ localName := by
          rintro rfl
          exact h ns' List.mem_cons_self
        rw [elementsFrom, if_neg hname]
    rw [List.cons_append, hstep, ih _ hblock, List.append_assoc]
    rfl

theorem elements_multistatus {blocks : List (List XmlToken)}
    (h : ∀ block ∈ blocks, ∀ ns, XmlToken.closing ns "response" ∉ block) :
    elementsFrom "response" none (S.multistatus blocks) = blocks := by
  have hblocks : ∀ rest, elementsFrom "response" none (blocks.flatMap S.response ++ rest) =
      blocks ++ elementsFrom "response" none rest := by
    intro rest
    induction blocks with
    | nil => rfl
    | cons block blocks ih =>
      rw [List.forall_mem_cons] at h
      rw [List.flatMap_cons, TargetServer.response, List.append_assoc, List.cons_append, List.append_assoc,
        elementsFrom, if_pos ⟨rfl, rfl⟩, List.singleton_append, elementsFrom_inside _ h.1, ih h.2]
      rfl
  have hopen : elementsFrom "response" none (S.multistatus blocks) =
      elementsFrom "response" none (blocks.flatMap S.response ++ [.closing S.ns "multistatus"]) := by
    rw [TargetServer.multistatus, elementsFrom, if_neg (by simp)]
  rw [hopen, hblocks]
  exact List.append_nil blocks

theorem block_open (o : TargetObject) (ns : Option (List Char)) : XmlToken.closing ns "response" ∉ S.block kind o := by
  cases kind <;> simp [TargetServer.block, DavKind.data]

theorem ownBlock_open (href : List Char) (ns : Option (List Char)) :
    XmlToken.closing ns "response" ∉ S.ownBlock href := by
  simp [TargetServer.ownBlock]

theorem block_href (o : TargetObject) : firstElementText (S.block kind o) "href" = some [.text o.href] := rfl

theorem block_data (o : TargetObject) : firstElementText (S.block kind o) kind.data = some [.text o.data] := by
  cases kind <;> simp [firstElementText, TargetServer.block, elementsFrom, S.isAttrs, DavKind.data]

theorem ownBlock_data (href : List Char) : firstElementText (S.ownBlock href) kind.data = none := by
  cases kind <;> rfl

theorem ownBlock_href (href : List Char) : firstElementText (S.ownBlock href) "href" = some [.text href] := rfl

theorem xmlChars_text (chars : List Char) : xmlChars [.text chars] = chars := List.append_nil chars

theorem parse_listing (objects : List TargetObject) :
    parseMultiStatus (S.listing kind objects) =
      (S.own.toList.map fun href => ⟨trim href, S.ownBlock href⟩) ++
        objects.map fun o => ⟨trim o.href, S.block kind o⟩ := by
  have hclosed : ∀ block ∈ S.own.toList.map S.ownBlock ++ objects.map (S.block kind), ∀ ns,
      XmlToken.closing ns "response" ∉ block := by
    intro block hblock ns
    obtain hblock | hblock := List.mem_append.mp hblock
    · obtain ⟨href, -, rfl⟩ := List.mem_map.mp hblock
      exact ownBlock_open S href ns
    · obtain ⟨o, -, rfl⟩ := List.mem_map.mp hblock
      exact block_open S kind o ns
  rw [parseMultiStatus, TargetServer.listing, elements_multistatus S hclosed, List.filterMap_append,
    List.filterMap_map, List.filterMap_map]
  have hown : ∀ href, ((firstElementText (S.ownBlock href) "href").map fun text =>
      (⟨trim (xmlChars text), S.ownBlock href⟩ : MultiStatusResponse)) = some ⟨trim href, S.ownBlock href⟩ := by
    intro href
    rw [ownBlock_href, Option.map_some, xmlChars_text]
  have hobject : ∀ o, ((firstElementText (S.block kind o) "href").map fun text =>
      (⟨trim (xmlChars text), S.block kind o⟩ : MultiStatusResponse)) = some ⟨trim o.href, S.block kind o⟩ := by
    intro o
    rw [block_href, Option.map_some, xmlChars_text]
  simp only [Function.comp_def, hown, hobject, List.filterMap_eq_map']

theorem hrefMatches_block (o : TargetObject) (rest : List XmlToken) :
    hrefMatches (S.response (S.block kind o) ++ rest) =
      (if S.ns = some ['D'] ∧ o.href ≠ [] then [o.href] else []) ++ hrefMatches rest := by
  have hdata : kind.data ≠ "href" := by cases kind <;> simp [DavKind.data]
  by_cases h : S.ns = some ['D'] ∧ o.href ≠ []
  · simp [TargetServer.response, TargetServer.block, hrefMatches, h, hdata]
  · have hno : ¬ (S.ns = some ['D'] ∧ ¬ o.href = [] ∧ S.ns = some ['D']) := fun hs => h ⟨hs.1, hs.2.1⟩
    simp [TargetServer.response, TargetServer.block, hrefMatches, hdata, h, hno]

theorem hrefMatches_multistatus (objects : List TargetObject) :
    hrefMatches (S.multistatus (objects.map (S.block kind))) =
      if S.ns = some ['D'] then objects.map TargetObject.href else [] := by
  have hne : ∀ o : TargetObject, o.href ≠ [] := by
    intro o hnil
    apply o.href_ne
    rw [hnil]
    rfl
  have hobjects : hrefMatches ((objects.map (S.block kind)).flatMap S.response ++ [.closing S.ns "multistatus"]) =
      if S.ns = some ['D'] then objects.map TargetObject.href else [] := by
    induction objects with
    | nil => simp [hrefMatches]
    | cons o objects ih =>
      rw [List.map_cons, List.flatMap_cons, List.append_assoc, hrefMatches_block, ih]
      by_cases hns : S.ns = some ['D']
      · simp [hns, hne]
      · simp [hns]
  rw [← hobjects, TargetServer.multistatus]
  cases objects with
  | nil => simp [hrefMatches]
  | cons o objects => simp [TargetServer.response, hrefMatches]

end Bodies

section Keys

variable {number : ℕ → ℕ}

theorem percentDecode_ne_nil {s : List Char} (h : s ≠ []) : percentDecode s ≠ [] := by
  obtain ⟨c, rest, rfl⟩ := List.exists_cons_of_ne_nil h
  obtain ⟨h', l, b, rest', rfl, rfl, hb⟩ | ⟨hhead, -⟩ := head_cases c rest
  · rw [percentDecode_escape hb]
    exact List.cons_ne_nil _ _
  · rw [percentDecode_cons hhead]
    exact List.append_ne_nil_of_left_ne_nil (String.utf8EncodeChar_ne_nil) _

theorem decodeHref_ne_nil {href targetId : List Char} (h : decodeHref href = .ok targetId) (hne : href ≠ []) :
    targetId ≠ [] := by
  rw [decodeHref] at h
  cases hdecode : decodeURIComponent href with
  | none =>
    rw [hdecode] at h
    cases h
  | some decoded =>
    rw [hdecode] at h
    obtain rfl := Except.ok.inj h
    rw [decodeURIComponent] at hdecode
    split at hdecode
    · rintro rfl
      exact percentDecode_ne_nil hne (utf8Decode_eq_some hdecode).symm
    · cases hdecode

/-- The UID of an object, as the writer reads it. -/
def TargetObject.uid (number : ℕ → ℕ) (o : TargetObject) : Option (List Char) :=
  (unescapeXml number o.data).bind extractUid

/-- An object that the listing can key. -/
def TargetObject.Listed (number : ℕ → ℕ) (o : TargetObject) : Prop :=
  (∃ uid, o.uid number = some uid) ∧ ∃ targetId, decodeHref (trim o.href) = .ok targetId

theorem existsByKeys_insert {keys : TargetKeys} {uid targetId : List Char} (h : targetId ≠ []) (uid' : List Char) :
    existsByKeys (keys.insert uid targetId) uid' = true ↔ uid = uid' ∨ existsByKeys keys uid' = true := by
  by_cases heq : uid' = uid
  · subst heq
    simp [existsByKeys, h]
  · simp [existsByKeys, AList.lookup_insert_ne heq, Ne.symm heq]

/-- One object of the listing, in `keysIn`. -/
def note (number : ℕ → ℕ) (keys : TargetKeys) (o : TargetObject) : Option TargetKeys :=
  match o.uid number, decodeHref (trim o.href) with
  | some uid, .ok targetId => some (keys.insert uid targetId)
  | _, _ => none

theorem keysOf_listing (kind : DavKind) (S : TargetServer) (objects : List TargetObject) :
    keysOf number kind (S.listing kind objects) = objects.foldlM (note number) ∅ := by
  have hown : S.own.toList.foldlM (fun keys href => putKey number kind keys ⟨trim href, S.ownBlock href⟩)
      (∅ : TargetKeys) = some ∅ := by
    cases S.own with
    | none => rfl
    | some href =>
      rw [Option.toList_some, List.foldlM_cons, putKey, ownBlock_data]
      rfl
  have hobject : ∀ keys (o : TargetObject),
      putKey number kind keys ⟨trim o.href, S.block kind o⟩ = note number keys o := by
    intro keys o
    rw [putKey, block_data]
    dsimp only
    rw [xmlChars_text]
    rfl
  have hobjects : (objects.map fun o => (⟨trim o.href, S.block kind o⟩ : MultiStatusResponse)).foldlM
      (putKey number kind) ∅ = objects.foldlM (note number) ∅ := by
    rw [List.foldlM_map]
    simp only [hobject]
  rw [keysOf, parse_listing, List.foldlM_append, List.foldlM_map, hown]
  exact hobjects

theorem note_some {keys keys' : TargetKeys} {o : TargetObject} (h : note number keys o = some keys') :
    o.Listed number ∧ ∀ uid, existsByKeys keys' uid = true ↔ o.uid number = some uid ∨ existsByKeys keys uid = true := by
  rw [note] at h
  split at h
  · rename_i uid targetId huid hdecode
    obtain rfl := Option.some.inj h
    refine ⟨⟨⟨uid, huid⟩, targetId, hdecode⟩, ?_⟩
    intro uid'
    rw [existsByKeys_insert (decodeHref_ne_nil hdecode o.href_ne), huid, Option.some.injEq]
  · cases h

theorem note_listed (keys : TargetKeys) {o : TargetObject} (h : o.Listed number) : ∃ keys', note number keys o = some keys' := by
  obtain ⟨⟨uid, huid⟩, targetId, hdecode⟩ := h
  exact ⟨keys.insert uid targetId, by rw [note, huid, hdecode]⟩

theorem keys_found {objects : List TargetObject} {keys keys' : TargetKeys}
    (h : objects.foldlM (note number) keys = some keys') :
    (∀ o ∈ objects, o.Listed number) ∧
      ∀ uid, existsByKeys keys' uid = true ↔ (∃ o ∈ objects, o.uid number = some uid) ∨ existsByKeys keys uid = true := by
  induction objects generalizing keys with
  | nil =>
    obtain rfl := Option.some.inj h
    simp
  | cons o objects ih =>
    rw [List.foldlM_cons] at h
    obtain ⟨next, hnext, h⟩ := Option.bind_eq_some_iff.mp h
    obtain ⟨hlisted, hstep⟩ := note_some hnext
    obtain ⟨hrest, hkeys⟩ := ih h
    constructor
    · rw [List.forall_mem_cons]
      exact ⟨hlisted, hrest⟩
    · intro uid
      rw [hkeys, hstep, List.exists_mem_cons_iff]
      exact or_left_comm.trans or_assoc.symm

theorem keys_listed {objects : List TargetObject} (keys : TargetKeys) (h : ∀ o ∈ objects, o.Listed number) :
    ∃ keys', objects.foldlM (note number) keys = some keys' := by
  induction objects generalizing keys with
  | nil => exact ⟨keys, rfl⟩
  | cons o objects ih =>
    rw [List.forall_mem_cons] at h
    obtain ⟨next, hnext⟩ := note_listed keys h.1
    obtain ⟨keys', hkeys⟩ := ih next h.2
    exact ⟨keys', by rw [List.foldlM_cons, hnext]; exact hkeys⟩

end Keys

section Agreement

variable {S : TargetServer} {objects : List TargetObject} {uid : List Char}

theorem existsByReport_query (kind : DavKind) :
    existsByReport (S.query kind objects uid) uid = true ↔
      S.ns = some ['D'] ∧ S.reaches = true ∧ ∃ o ∈ objects, S.textMatch o uid = true ∧ uid <:+: o.href := by
  have hne : ∀ o : TargetObject, o.href ≠ [] := by
    intro o hnil
    apply o.href_ne
    rw [hnil]
    rfl
  rw [existsByReport, parseMultiStatusResponse, TargetServer.query, hrefMatches_multistatus, Option.any_eq_true]
  by_cases hns : S.ns = some ['D']
  · rw [if_pos hns, List.find?_map]
    by_cases hreaches : S.reaches = true
    · rw [if_pos hreaches]
      constructor
      · rintro ⟨href, hhref, -⟩
        obtain ⟨o, hfound, rfl⟩ := Option.map_eq_some_iff.mp hhref
        obtain ⟨hmem, htaken⟩ := List.mem_filter.mp (List.mem_of_find?_eq_some hfound)
        have hinfix := List.find?_some hfound
        exact ⟨hns, hreaches, o, hmem, htaken, of_decide_eq_true hinfix⟩
      · rintro ⟨-, -, o, hmem, htaken, hinfix⟩
        cases hfound : (objects.filter (S.textMatch · uid)).find? ((fun href => decide (uid <:+: href)) ∘
          TargetObject.href) with
        | none =>
          have hno := List.find?_eq_none.mp hfound o (List.mem_filter.mpr ⟨hmem, htaken⟩)
          exact absurd (decide_eq_true hinfix) hno
        | some o' => exact ⟨o'.href, rfl, by simp [hne]⟩
    · rw [if_neg hreaches]
      simp [hreaches]
  · rw [if_neg hns]
    simp [hns]

end Agreement

/-- What the writer says of an item is the same by the snapshot and by the request for it, where there is a snapshot;
and neither says that an item exists whose UID no object has. -/
def ExistenceAgrees (number : ℕ → ℕ) (kind : DavKind) (S : TargetServer) (objects : List TargetObject)
    (uid : List Char) : Prop :=
  ∀ keys, keysOf number kind (S.listing kind objects) = some keys →
    existsByKeys keys uid = existsByReport (S.query kind objects uid) uid ∧
      ((existsByKeys keys uid = true ∨ existsByReport (S.query kind objects uid) uid = true) →
        ∃ o ∈ objects, o.uid number = some uid)

namespace Sample

/-- The object `abc`, at an href that spells its UID. -/
def abcObject : TargetObject where
  href := "/abc.ics".toList
  href_ne := by decide
  data := "UID:abc".toList

/-- A server that writes `D:`, and whose `text-match` takes every UID that the text is part of. -/
def server : TargetServer where
  ns := some ['D']
  dataNs := some ['C']
  attrs := []
  isAttrs := rfl
  own := none
  reaches := true
  textMatch o uid := ((o.uid id).map fun u => decide (uid <:+: u)).getD false

end Sample

theorem Sample.abcObject_listed : Sample.abcObject.Listed id := by
  have hdecode : decodeURIComponent "/abc.ics".toList = some "/abc.ics".toList := by
    rw [decodeURIComponent, percentDecode_of_plain (by decide), utf8Decode_utf8, if_pos (by decide)]
  have htrim : trim Sample.abcObject.href = "/abc.ics".toList := by decide
  refine ⟨⟨"abc".toList, by decide⟩, "/abc.ics".toList, ?_⟩
  rw [htrim, decodeHref, hdecode]

end OpenMigrate.Dav
