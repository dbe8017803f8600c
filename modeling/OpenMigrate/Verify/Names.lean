import OpenMigrate.Dav.Href

namespace OpenMigrate.Verify

open Url Dav

/-- A path made of names, none of which means a folder by its place. -/
def IsFilePath (path : List Char) : Prop :=
  ∃ names : NamePath, names ≠ [] ∧ (∀ name ∈ names, IsName name ∧ name ≠ ['.'] ∧ name ≠ ['.', '.']) ∧ path = joinPath names

/-- A collection's path as the writers have it: a slash at either end, and something between. -/
def IsCollectionId (id : String) : Prop :=
  ∃ body : List Char, body ≠ [] ∧ body.head? ≠ some '/' ∧ id.toList = '/' :: (body ++ ['/'])

variable (E : EndpointUrl) (S : Spelling)

/-- The resource a file's PUT names. -/
def fileResource (path : List Char) : List Bytes :=
  requested (Writer.buildUrl E.text (normalizeRelativePath (String.ofList path)).toList)

/-- The resource an event's or a contact's PUT names. -/
def objectResource (K : ObjectKind) (collectionId uid : String) : List Bytes :=
  requested (Writer.buildUrl E.text (objectPath K collectionId uid).toList)

def collectionResource (collectionId : String) : List Bytes :=
  requested (Writer.buildUrl E.text collectionId.toList)

/-- What a listing of the target makes of a resource. -/
def readBack (resource : List Bytes) : Except String (Option (List Char)) :=
  hrefRelativeTo (reported S resource) (Writer.buildUrl E.text [])

structure FilesSurvive (p q : List Char) : Prop where
  apart : fileResource E p ≠ fileResource E q
  left : readBack E S (fileResource E p) = .ok (some p)
  right : readBack E S (fileResource E q) = .ok (some q)

/-- Where an object is in its collection, from the endpoint's URL down. -/
def objectName (K : ObjectKind) (collectionId uid : String) : List Char := (urlPath (objectPath K collectionId uid)).toList

def Inside (collectionId : String) (resource : List Bytes) : Prop :=
  ∃ rest, rest ≠ [] ∧ resource = (collectionResource E collectionId).dropLast ++ rest

structure ObjectSurvives (K : ObjectKind) (collectionId uid : String) : Prop where
  inside : Inside E collectionId (objectResource E K collectionId uid)
  back : readBack E S (objectResource E K collectionId uid) = .ok (some (objectName K collectionId uid))

structure ObjectsSurvive (K : ObjectKind) (collectionId u v : String) : Prop where
  apart : objectResource E K collectionId u ≠ objectResource E K collectionId v
  left : ObjectSurvives E S K collectionId u
  right : ObjectSurvives E S K collectionId v

/-- The endpoint's own path holds no escape. -/
def PlainEndpoint : Prop := ∀ s ∈ E.path, hasEscape s = false

variable {E S}

section Files

variable {path : List Char}

theorem normalize_toList (path : List Char) :
    (normalizeRelativePath (String.ofList path)).toList = dropSlashes ((slashes path).dropWhile (· == '/')) := by
  have hmap : path.map (fun c => if c = '\\' then '/' else c) = slashes path := by
    refine List.map_congr_left fun c _ => ?_
    by_cases hc : c = '/'
    · simp [hc, isSlash]
    · by_cases hb : c = '\\' <;> simp [hc, hb, isSlash]
  simp only [normalizeRelativePath, String.toList_ofList, hmap]
  rfl

theorem normalize_ends (path : List Char) :
    (normalizeRelativePath (String.ofList path)).toList.head? ≠ some '/' ∧
      (normalizeRelativePath (String.ofList path)).toList.getLast? ≠ some '/' := by
  rw [normalize_toList]
  generalize hs : (slashes path).dropWhile (· == '/') = s
  have hhead : s.head? ≠ some '/' := by
    rw [← hs]
    intro h
    have hne := List.head?_dropWhile_not (· == '/') (slashes path)
    rw [h] at hne
    simp at hne
  constructor
  · intro h
    obtain ⟨tail, htail⟩ := dropSlashes_prefix s
    cases hd : dropSlashes s with
    | nil =>
      rw [hd] at h
      cases h
    | cons c rest =>
      rw [hd] at h htail
      apply hhead
      rw [← htail]
      exact h
  · rw [List.getLast?_eq_head?_reverse, dropSlashes, List.reverse_reverse]
    intro h
    have hne := List.head?_dropWhile_not (· == '/') s.reverse
    rw [h] at hne
    simp at hne

theorem dropWhile_head {t : List Char} (h : t.head? ≠ some '/') : t.dropWhile (· == '/') = t := by
  cases t with
  | nil => rfl
  | cons c rest => rw [List.dropWhile_cons_of_neg (by simpa using h)]

theorem fileResource_eq (path : List Char) : fileResource E path = requested (E.origin ++ slashed E.path ++
    '/' :: (normalizeRelativePath (String.ofList path)).toList) := by
  rw [fileResource, Writer.buildUrl, dropSlash_text, dropWhile_head (normalize_ends path).1]

theorem splitOnP_joinPath {names : NamePath} (hne : names ≠ []) (h : ∀ name ∈ names, ∀ c ∈ name, isSlash c = false) :
    (joinPath names).splitOnP isSlash = names := by
  induction names with
  | nil => exact absurd rfl hne
  | cons name names ih =>
    have hname : name.splitOnP isSlash = [name] := List.splitOnP_eq_singleton (h name List.mem_cons_self)
    cases names with
    | nil => rw [joinPath_singleton, hname]
    | cons name' names =>
      have hrest := ih (by simp) fun n hn => h n (List.mem_cons_of_mem name hn)
      rw [joinPath_cons name (by simp), List.splitOnP_append_cons _ _ rfl, hname, hrest]
      rfl

theorem IsFilePath.noDots (h : IsFilePath path) (hback : '\\' ∉ path) : NoDots path := by
  obtain ⟨names, hne, hnames, rfl⟩ := h
  have hslashless : ∀ name ∈ names, ∀ c ∈ name, isSlash c = false := by
    intro name hname c hc
    rw [← Bool.not_eq_true]
    intro hslash
    obtain rfl | rfl : c = '/' ∨ c = '\\' := by simpa [isSlash] using hslash
    · exact (hnames name hname).1.2 hc
    · exact hback (mem_joinPath_of_mem hname hc)
  intro s hs
  rw [splitOnP_joinPath hne hslashless] at hs
  exact (hnames s hs).2

theorem IsFilePath.ends (h : IsFilePath path) :
    path.head? ≠ some '/' ∧ ∃ c, path.getLast? = some c ∧ c ≠ '/' := by
  obtain ⟨names, hne, hnames, rfl⟩ := h
  obtain ⟨⟨c, hc, hcne⟩, hlast⟩ := joinPath_ends hne fun name hname => (hnames name hname).1
  refine ⟨?_, hlast⟩
  rw [hc]
  exact fun heq => hcne (Option.some.inj heq)

theorem normalize_spelled (h : IsFilePath path) (hback : '\\' ∉ path) :
    (normalizeRelativePath (String.ofList path)).toList = path := by
  obtain ⟨hhead, c, hlast, hc⟩ := h.ends
  rw [normalize_toList, slashes_eq hback, dropWhile_head hhead, dropSlashes_eq]
  rw [hlast]
  exact fun heq => hc (Option.some.inj heq)

theorem file_back_iff (h : IsFilePath path) :
    readBack E S (fileResource E path) = .ok (some path) ↔ PlainEndpoint E ∧ Spelled path := by
  obtain ⟨hhead, hends⟩ := h.ends
  constructor
  · intro hback
    have hne : path ≠ [] := by
      rintro rfl
      obtain ⟨c, hc, -⟩ := hends
      cases hc
    have hsub : (normalizeRelativePath (String.ofList path)).toList.Sublist (slashes path) := by
      rw [normalize_toList]
      exact (dropSlashes_sublist _).trans (List.dropWhile_suffix _).sublist
    have hsize := (size_le_of_sublist hsub).1
    rw [size_slashes] at hsize
    rw [fileResource_eq, requested, pathOf_origin] at hback
    obtain ⟨-, -, -, heq⟩ := of_readBack hsize hne hback
    have hslash : '\\' ∉ path := by
      rw [heq]
      exact not_mem_slashes _
    rw [normalize_spelled h hslash, ← pathOf_origin, ← requested] at hback
    obtain ⟨hE, hp, -⟩ := (readBack_iff hhead hends).mp hback
    exact ⟨hE, hp⟩
  · rintro ⟨hE, hp⟩
    rw [fileResource_eq, normalize_spelled h hp.backslash]
    exact (readBack_iff hhead hends).mpr ⟨hE, hp, h.noDots hp.backslash⟩

end Files

section Objects

variable {K : ObjectKind} {collectionId : String}

theorem objectName_eq {body : List Char} (hhead : body.head? ≠ some '/') (hne : body ≠ [])
    (hid : collectionId.toList = '/' :: (body ++ ['/'])) (uid : String) :
    objectName K collectionId uid = body ++ '/' :: (uid.toList ++ K.extension.toList) := by
  have htext : (objectPath K collectionId uid).toList = '/' :: (body ++ '/' :: (uid.toList ++ K.extension.toList)) := by
    simp [objectPath, hid]
  rw [objectName, urlPath, String.toList_ofList, htext, List.dropWhile_cons_of_pos (by decide)]
  apply dropWhile_head
  cases body with
  | nil => exact absurd rfl hne
  | cons c rest => exact hhead

theorem objectResource_eq (uid : String) : objectResource E K collectionId uid =
    requested (E.origin ++ slashed E.path ++ '/' :: objectName K collectionId uid) := by
  rw [objectResource, Writer.buildUrl, dropSlash_text, objectName, urlPath, String.toList_ofList]

theorem collection_inside {body rest : List Char} (hhead : body.head? ≠ some '/') (hne : body ≠ [])
    (hid : collectionId.toList = '/' :: (body ++ ['/'])) (hx : Spelled (body ++ '/' :: rest))
    (hdots : NoDots (body ++ '/' :: rest)) :
    Inside E collectionId (requested (E.origin ++ slashed E.path ++ '/' :: (body ++ '/' :: rest))) := by
  have hsplit : (body ++ '/' :: rest).splitOnP isSlash = body.splitOnP isSlash ++ rest.splitOnP isSlash :=
    List.splitOnP_append_cons _ _ rfl
  have hbody : Spelled (body ++ ['/']) := by
    refine ⟨⟨fun c hc => ?_, fun c hc => ?_⟩, fun hmem => hx.backslash ?_, ?_⟩
    · refine hx.clear.plain c ?_
      simp only [List.mem_append, List.mem_cons, List.not_mem_nil, or_false] at hc ⊢
      exact hc.imp_right .inl
    · rw [List.getLast?_concat, Option.some.injEq] at hc
      subst hc
      decide
    · simp only [List.mem_append, List.mem_cons, List.not_mem_nil, or_false] at hmem ⊢
      exact hmem.imp_right .inl
    · have hplain := (hasEscape_split _).mp hx.plain
      rw [hsplit] at hplain
      rw [hasEscape_split, List.splitOnP_append_cons _ _ rfl]
      intro s hs
      obtain hs | hs := List.mem_append.mp hs
      · exact hplain s (List.mem_append_left _ hs)
      · have hnil : s = [] := List.mem_singleton.mp hs
        rw [hnil]
        rfl
  have hbodyDots : NoDots (body ++ ['/']) := by
    intro s hs
    rw [List.splitOnP_append_cons _ _ rfl] at hs
    obtain hs | hs := List.mem_append.mp hs
    · exact hdots s (by rw [hsplit]; exact List.mem_append_left _ hs)
    · have hnil : s = [] := List.mem_singleton.mp hs
      rw [hnil]
      exact ⟨by simp, by simp⟩
  have hcollection : collectionResource E collectionId = (E.path ++ body.splitOnP isSlash ++ [[]]).map percentDecode := by
    have hdrop : (body ++ ['/']).dropWhile (· == '/') = body ++ ['/'] := by
      apply dropWhile_head
      cases body with
      | nil => exact absurd rfl hne
      | cons c rest => exact hhead
    rw [collectionResource, Writer.buildUrl, dropSlash_text, hid, List.dropWhile_cons_of_pos (by decide), hdrop,
      requested_plain hbody hbodyDots, List.splitOnP_append_cons _ _ rfl, List.append_assoc]
    rfl
  refine ⟨(rest.splitOnP isSlash).map percentDecode, by simp [List.splitOnP_ne_nil], ?_⟩
  rw [requested_plain hx hdots, hsplit, hcollection, ← List.map_dropLast, List.dropLast_concat, ← List.append_assoc,
    List.map_append]

theorem object_survives_iff (hK : K.extension = ".ics" ∨ K.extension = ".vcf") (hid : IsCollectionId collectionId)
    (uid : String) : ObjectSurvives E S K collectionId uid ↔
      PlainEndpoint E ∧ Spelled (objectName K collectionId uid) ∧ NoDots (objectName K collectionId uid) := by
  obtain ⟨body, hne, hhead, hid⟩ := hid
  have hname := objectName_eq (K := K) hhead hne hid uid
  have hheadName : (objectName K collectionId uid).head? ≠ some '/' := by
    rw [hname]
    cases body with
    | nil => exact absurd rfl hne
    | cons c rest => exact hhead
  have hends : ∃ c, (objectName K collectionId uid).getLast? = some c ∧ c ≠ '/' := by
    have hext : ∃ init c, K.extension.toList = init ++ [c] ∧ c ≠ '/' := by
      obtain h | h := hK
      · exact ⟨['.', 'i', 'c'], 's', by rw [h]; rfl, by decide⟩
      · exact ⟨['.', 'v', 'c'], 'f', by rw [h]; rfl, by decide⟩
    obtain ⟨init, c, hext, hc⟩ := hext
    refine ⟨c, ?_, hc⟩
    rw [hname, hext]
    simp [List.getLast?_append, List.getLast?_cons]
  have hback := readBack_iff (E := E) (S := S) hheadName hends
  rw [← objectResource_eq] at hback
  constructor
  · intro h
    exact hback.mp h.back
  · intro h
    refine ⟨?_, hback.mpr h⟩
    rw [objectResource_eq, hname]
    rw [hname] at h
    exact collection_inside hhead hne hid h.2.1 h.2.2

theorem objectName_injective (hid : IsCollectionId collectionId) {u v : String}
    (h : objectName K collectionId u = objectName K collectionId v) : u = v := by
  obtain ⟨body, hne, hhead, hid⟩ := hid
  rw [objectName_eq hhead hne hid, objectName_eq hhead hne hid] at h
  have hrest := List.append_cancel_left h
  rw [List.cons.injEq] at hrest
  exact String.toList_injective (List.append_cancel_right hrest.2)

end Objects

variable (E S) in
/-- Two names survive just where the endpoint's path and both names are spelled as they are. -/
theorem names_survive :
    (∀ p q, IsFilePath p → IsFilePath q → p ≠ q →
      (FilesSurvive E S p q ↔ PlainEndpoint E ∧ Spelled p ∧ Spelled q)) ∧
    ∀ (K : ObjectKind) (collectionId u v : String), K.extension = ".ics" ∨ K.extension = ".vcf" →
      IsCollectionId collectionId → u ≠ v →
      (ObjectsSurvive E S K collectionId u v ↔ PlainEndpoint E ∧
        (Spelled (objectName K collectionId u) ∧ NoDots (objectName K collectionId u)) ∧
        Spelled (objectName K collectionId v) ∧ NoDots (objectName K collectionId v)) := by
  constructor
  · intro p q hp hq hne
    have hleft := file_back_iff (E := E) (S := S) hp
    have hright := file_back_iff (E := E) (S := S) hq
    constructor
    · intro h
      exact ⟨(hleft.mp h.left).1, (hleft.mp h.left).2, (hright.mp h.right).2⟩
    · rintro ⟨hE, hsp, hsq⟩
      have hbackp := hleft.mpr ⟨hE, hsp⟩
      have hbackq := hright.mpr ⟨hE, hsq⟩
      refine ⟨fun hsame => hne ?_, hbackp, hbackq⟩
      rw [hsame, hbackq] at hbackp
      exact (Option.some.inj (Except.ok.inj hbackp)).symm
  · intro K collectionId u v hK hid hne
    have hleft := object_survives_iff (E := E) (S := S) hK hid u
    have hright := object_survives_iff (E := E) (S := S) hK hid v
    constructor
    · intro h
      exact ⟨(hleft.mp h.left).1, (hleft.mp h.left).2, (hright.mp h.right).2⟩
    · rintro ⟨hE, hu, hv⟩
      have hbacku := hleft.mpr ⟨hE, hu⟩
      have hbackv := hright.mpr ⟨hE, hv⟩
      refine ⟨fun hsame => hne ?_, hbacku, hbackv⟩
      have hback := hbacku.back
      rw [hsame, hbackv.back] at hback
      exact (objectName_injective hid (Option.some.inj (Except.ok.inj hback))).symm

section Sample

def Sample.endpointUrl : EndpointUrl where
  scheme := "https".toList
  host := "cloud.example".toList
  path := ["dav".toList]
  slash := true
  isHttp := by decide +kernel
  hasHost := by decide +kernel
  isHost c hc := by
    have hall : "cloud.example".toList.all (fun c => !isSpace c && (!isSlash c && !endsPath c)) = true := by decide +kernel
    simpa using List.all_eq_true.mp hall c hc
  isPath s hs := by
    rw [List.mem_singleton.mp hs]
    refine ⟨by decide +kernel, fun c hc => ?_, by decide +kernel⟩
    have hall : "dav".toList.all (fun c => !pathSet c && !isSlash c) = true := by decide +kernel
    simpa using List.all_eq_true.mp hall c hc

/-- Letters and digits stand for themselves. -/
def Sample.spelling : Spelling where
  literal b := (48 ≤ b.toNat && b.toNat ≤ 57) || (65 ≤ b.toNat && b.toNat ≤ 90) || (97 ≤ b.toNat && b.toNat ≤ 122)
  ascii b hb := by
    simp only [Bool.or_eq_true, Bool.and_eq_true, decide_eq_true_eq] at hb
    omega
  percent := by decide

theorem Sample.isFilePath {name : List Char} (h : name ≠ [] ∧ '/' ∉ name) (hdots : name ≠ ['.'] ∧ name ≠ ['.', '.']) :
    IsFilePath name := by
  refine ⟨[name], by simp, fun n hn => ?_, (joinPath_singleton name).symm⟩
  rw [List.mem_singleton.mp hn]
  exact ⟨h, hdots⟩

theorem Sample.spelled {name : List Char} {c : Char} (hlast : name.getLast? = some c) (hc : isSpace c = false)
    (hplain : name.all (fun c => !isTabOrNewline c && !endsPath c) = true) (hback : '\\' ∉ name)
    (hescape : hasEscape name = false) : Spelled name := by
  refine ⟨⟨fun d hd => ?_, fun d hd => ?_⟩, hback, hescape⟩
  · simpa using List.all_eq_true.mp hplain d hd
  · rw [hlast, Option.some.injEq] at hd
    exact hd ▸ hc

/-- A space, a lone percent sign and a letter beyond ASCII all come back. -/
theorem names_survive_plain :
    FilesSurvive Sample.endpointUrl Sample.spelling "100% a".toList "é".toList ∧
      ObjectsSurvive Sample.endpointUrl Sample.spelling (calDAV id String.ofList) "/calendars/" "a/b" "urn:b" := by
  have hE : PlainEndpoint Sample.endpointUrl := by
    intro s hs
    rw [List.mem_singleton.mp hs]
    decide +kernel
  constructor
  · refine ((names_survive Sample.endpointUrl Sample.spelling).1 _ _ (Sample.isFilePath ?_ ?_) (Sample.isFilePath ?_ ?_) ?_).mpr
      ⟨hE, Sample.spelled (c := 'a') ?_ ?_ ?_ ?_ ?_, Sample.spelled (c := 'é') ?_ ?_ ?_ ?_ ?_⟩ <;> decide +kernel
  · have hid : IsCollectionId "/calendars/" := ⟨"calendars".toList, by decide +kernel, by decide +kernel, by decide +kernel⟩
    refine ((names_survive Sample.endpointUrl Sample.spelling).2 (calDAV id String.ofList) _ _ _ (.inl rfl) hid ?_).mpr
      ⟨hE, ⟨Sample.spelled (c := 's') ?_ ?_ ?_ ?_ ?_, ?_⟩, Sample.spelled (c := 's') ?_ ?_ ?_ ?_ ?_, ?_⟩ <;> decide +kernel

/-- Two files are sent to one resource: the URL ends at the number sign. -/
theorem names_collide :
    IsFilePath "a#b".toList ∧ IsFilePath "a#c".toList ∧ "a#b".toList ≠ "a#c".toList ∧
      fileResource Sample.endpointUrl "a#b".toList = fileResource Sample.endpointUrl "a#c".toList := by
  refine ⟨Sample.isFilePath ?_ ?_, Sample.isFilePath ?_ ?_, ?_, ?_⟩ <;> decide +kernel

end Sample

end OpenMigrate.Verify
