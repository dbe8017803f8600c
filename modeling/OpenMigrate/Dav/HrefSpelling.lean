import OpenMigrate.Dav.SpelledPaths
import OpenMigrate.Url.Written

namespace OpenMigrate.Dav

open Url

open Relisting (Origin IsDots slashed_join)

section Hrefs

/-- A path without the empty segments at its end. -/
def trunk (path : NamePath) : NamePath := (path.reverse.dropWhile List.isEmpty).reverse

/-- The path of a base URL, as the URL parser writes it. -/
def basePath (baseUrl : List Char) : NamePath := trunk (pathOf baseUrl)

/-- Names, none of which means a folder by its place. -/
structure RelativePath where
  names : NamePath
  isNames : ∀ name ∈ names, IsName name ∧ ¬ IsDots name

def RelativePath.text (p : RelativePath) : List Char := joinPath p.names

/-- The resource that a path below the base names. -/
def below (baseUrl : List Char) (p : RelativePath) : List Bytes :=
  (basePath baseUrl).map percentDecode ++ p.names.map utf8

/-- An absolute URL or an absolute path that denotes a resource: its segments decode to the resource's. What is not
escaped in it may be any character that the URL parser neither takes away nor reads as an end of the segment. -/
structure Href (resource : List Bytes) where
  origin : Option Origin
  segments : NamePath
  slash : Bool
  escaped : ∀ s ∈ segments, wellEscaped s = true
  whole : ∀ s ∈ segments, ∀ c ∈ s, isSlash c = false
  clear : Clear (slashed segments)
  absolute : origin = none → segments = [] → slash = true
  decodes : segments.map percentDecode = resource

variable {resource : List Bytes}

def Href.front (h : Href resource) : List Char := (h.origin.map Origin.text).getD []

def Href.tail (h : Href resource) : List Char := if h.slash then ['/'] else []

def Href.text (h : Href resource) : List Char := h.front ++ slashed h.segments ++ h.tail

end Hrefs

section Decode

variable {resource : List Bytes} {s : List Char} {path : NamePath}

theorem decode_slashed (h : ∀ s ∈ path, wellEscaped s = true) :
    wellEscaped (slashed path) = true ∧ percentDecode (slashed path) = wire (path.map percentDecode) := by
  induction path with
  | nil => exact ⟨rfl, rfl⟩
  | cons s path ih =>
    rw [List.forall_mem_cons] at h
    obtain ⟨hwell, hdecode⟩ := ih h.2
    rw [slashed_cons, wellEscaped_cons (by decide), wellEscaped_append h.1, hwell,
      percentDecode_cons fun heq => absurd heq (by decide), percentDecode_append h.1, hdecode]
    exact ⟨rfl, rfl⟩

theorem origin_plain (o : Origin) : '%' ∉ o.text := by
  have hscheme : ∀ scheme ∈ ["http", "https"].map String.toList, '%' ∉ scheme := by decide
  rw [Origin.text, List.mem_append, not_or]
  refine ⟨hscheme o.scheme o.isHttp, ?_⟩
  simpa using o.plainHost

theorem Href.front_plain (h : Href resource) : '%' ∉ h.front := by
  rw [Href.front]
  cases h.origin with
  | none => exact List.not_mem_nil
  | some o => exact origin_plain o

theorem Href.decoded (h : Href resource) :
    wellEscaped h.text = true ∧ percentDecode h.text = utf8 h.front ++ wire resource ++ utf8 h.tail := by
  obtain ⟨hfront, hfrontDecode⟩ := no_escape h.front_plain
  have htail : '%' ∉ h.tail := by
    rw [Href.tail]
    split
    · decide
    · exact List.not_mem_nil
  obtain ⟨hend, hendDecode⟩ := no_escape htail
  obtain ⟨hpath, hpathDecode⟩ := decode_slashed h.escaped
  rw [Href.text, List.append_assoc, wellEscaped_append hfront, wellEscaped_append hpath, percentDecode_append hfront,
    percentDecode_append hpath, hfrontDecode, hpathDecode, hendDecode, h.decodes, List.append_assoc]
  exact ⟨hend, rfl⟩

theorem decodeHref_text (h : Href resource) {d : List Char} (hd : utf8 d = wire resource) :
    decodeHref h.text = .ok (h.front ++ d ++ h.tail) := by
  obtain ⟨hwell, hbytes⟩ := h.decoded
  rw [decodeHref, decodeURIComponent, if_pos hwell, hbytes, ← hd, ← utf8_append, ← utf8_append, utf8Decode_utf8]

theorem decodeHref_path {h : Href resource} (hfront : h.front = []) (htail : h.tail = []) {d : List Char}
    (hd : decodeHref h.text = .ok d) : utf8 d = wire resource := by
  obtain ⟨hwell, hbytes⟩ := h.decoded
  rw [hfront, htail] at hbytes
  have hwire : percentDecode h.text = wire resource := by
    rw [hbytes]
    exact List.append_nil _
  rw [decodeHref, decodeURIComponent, if_pos hwell, hwire] at hd
  cases hdecode : utf8Decode (wire resource) with
  | none =>
    rw [hdecode] at hd
    cases hd
  | some text =>
    rw [hdecode] at hd
    cases hd
    exact utf8Decode_eq_some hdecode

end Decode

section Relative

variable {B names : NamePath} {n d href baseUrl : List Char}

/-- What `hrefRelativeTo` makes of the two paths. -/
def relativeTo (basePath normalizedHref : List Char) : Option (List Char) :=
  if basePath = [] ∨ basePath = ['/'] then some (normalizedHref.dropWhile (· == '/'))
  else if normalizedHref = basePath then some []
  else if (basePath ++ ['/']).isPrefixOf normalizedHref then some (normalizedHref.drop (basePath.length + 1))
  else none

def isHttp (decoded : List Char) : Bool :=
  "http://".toList.isPrefixOf decoded || "https://".toList.isPrefixOf decoded

theorem hrefRelativeTo_decoded (h : decodeHref href = .ok d) : hrefRelativeTo href baseUrl =
    .ok (relativeTo (dropSlashes (pathname baseUrl)) (dropSlashes (if isHttp d then pathname d else d))) := by
  rw [hrefRelativeTo, h]
  rfl

theorem dropSlashes_append (s : List Char) : dropSlashes (s ++ ['/']) = dropSlashes s := by
  rw [dropSlashes, dropSlashes, List.reverse_append, List.reverse_singleton, List.singleton_append,
    List.dropWhile_cons_of_pos (by decide)]

theorem dropSlashes_last (s : List Char) : (dropSlashes s).getLast? ≠ some '/' := by
  rw [List.getLast?_eq_head?_reverse, dropSlashes, List.reverse_reverse]
  intro h
  have hne := List.head?_dropWhile_not (· == '/') s.reverse
  rw [h] at hne
  simp at hne

theorem trunk_append_nil (path : NamePath) : trunk (path ++ [[]]) = trunk path := by
  rw [trunk, trunk, List.reverse_append, List.reverse_singleton, List.singleton_append,
    List.dropWhile_cons_of_pos (by rfl)]

theorem trunk_append_name {s : List Char} (hs : s ≠ []) (path : NamePath) : trunk (path ++ [s]) = path ++ [s] := by
  have hempty : ¬ s.isEmpty = true := by simpa using hs
  rw [trunk, List.reverse_append, List.reverse_singleton, List.singleton_append, List.dropWhile_cons_of_neg hempty,
    List.reverse_cons, List.reverse_reverse]

theorem trunk_subset {s : List Char} {path : NamePath} (h : s ∈ trunk path) : s ∈ path :=
  List.mem_reverse.mp ((List.dropWhile_suffix _).subset (List.mem_reverse.mp h))

theorem trunk_cases (path : NamePath) : trunk path = [] ∨ ∃ front s, s ≠ [] ∧ trunk path = front ++ [s] := by
  induction path using List.reverseRecOn with
  | nil => exact .inl rfl
  | append_singleton path s ih =>
    by_cases hs : s = []
    · rw [hs, trunk_append_nil]
      exact ih
    · exact .inr ⟨path, s, hs, trunk_append_name hs path⟩

theorem dropSlashes_slashed {path : NamePath} (h : ∀ s ∈ path, '/' ∉ s) :
    dropSlashes (slashed path) = slashed (trunk path) := by
  induction path using List.reverseRecOn with
  | nil => rfl
  | append_singleton path s ih =>
    by_cases hs : s = []
    · have hpath := ih fun t ht => h t (List.mem_append_left _ ht)
      rw [hs, trunk_append_nil, slashed_append, ← hpath]
      exact dropSlashes_append _
    · rw [trunk_append_name hs]
      apply dropSlashes_eq
      rw [slashed_append, slashed_cons]
      have hend : (slashed path ++ '/' :: (s ++ slashed [])).getLast? = s.getLast? := by
        have hlast : s.getLast?.isSome = true := by simpa using hs
        obtain ⟨c, hc⟩ := Option.isSome_iff_exists.mp hlast
        rw [hc]
        simp [slashed, List.getLast?_append, List.getLast?_cons, hc]
      rw [hend]
      intro hlast
      exact h s (by simp) (List.mem_of_getLast? hlast)

theorem slashed_trunk_ne (path : NamePath) : slashed (trunk path) ≠ ['/'] := by
  obtain hnil | ⟨front, s, hs, htrunk⟩ := trunk_cases path
  · rw [hnil]
    exact (List.cons_ne_nil _ _).symm
  · rw [htrunk, slashed_append, slashed_cons]
    intro h
    have hlen := congrArg List.length h
    have hpos := List.length_pos_of_ne_nil hs
    simp at hlen
    omega

theorem relativeTo_root (n : List Char) : relativeTo (slashed []) n = some (n.dropWhile (· == '/')) := rfl

theorem relativeTo_folder {path : NamePath} (hne : trunk path ≠ []) (n : List Char) :
    relativeTo (slashed (trunk path)) n = if n = slashed (trunk path) then some []
      else if (slashed (trunk path) ++ ['/']).isPrefixOf n then some (n.drop ((slashed (trunk path)).length + 1))
      else none := by
  rw [relativeTo, if_neg]
  rintro (hnil | hslash)
  · exact hne (slashed_eq_nil.mp hnil)
  · exact slashed_trunk_ne path hslash

theorem joinPath_head (hnames : ∀ name ∈ names, IsName name) :
    (joinPath names).dropWhile (· == '/') = joinPath names := by
  by_cases hne : names = []
  · rw [hne]
    rfl
  · obtain ⟨⟨c, hhead, hc⟩, -⟩ := joinPath_ends hne hnames
    cases hjoin : joinPath names with
    | nil => rfl
    | cons d rest =>
      rw [hjoin, List.head?_cons, Option.some.injEq] at hhead
      rw [List.dropWhile_cons_of_neg (by simpa [hhead] using hc)]

theorem relativeTo_below (path : NamePath) (hnames : ∀ name ∈ names, IsName name) :
    relativeTo (slashed (trunk path)) (slashed (trunk path ++ names)) = some (joinPath names) := by
  by_cases hnil : names = []
  · rw [hnil, List.append_nil]
    by_cases hpath : trunk path = []
    · rw [hpath]
      rfl
    · rw [relativeTo_folder hpath, if_pos rfl]
      rfl
  rw [slashed_append, slashed_join hnil]
  by_cases hpath : trunk path = []
  · rw [hpath, relativeTo_root]
    change some (('/' :: joinPath names).dropWhile (· == '/')) = _
    rw [List.dropWhile_cons_of_pos (by decide), joinPath_head hnames]
  · have hne : slashed (trunk path) ++ '/' :: joinPath names ≠ slashed (trunk path) := by simp
    have hprefix :
        (slashed (trunk path) ++ ['/']).isPrefixOf (slashed (trunk path) ++ '/' :: joinPath names) = true := by
      rw [List.isPrefixOf_iff_prefix]
      exact ⟨joinPath names, by simp⟩
    rw [relativeTo_folder hpath, if_neg hne, if_pos hprefix]
    simp

theorem relativeTo_size {path : NamePath} {x : List Char} (hnames : ∀ name ∈ names, IsName name)
    (hx : ∀ c ∈ x.head?, c = '/')
    (h : relativeTo (slashed (trunk path)) (dropSlashes x) = some (joinPath names)) :
    size (slashed (trunk path)) + size (slashed names) ≤ size x ∧ ∀ c ∈ joinPath names, c ∈ x := by
  obtain ⟨back, hback⟩ := dropSlashes_prefix x
  have hsize := (size_le_of_sublist (dropSlashes_sublist x)).1
  have hmem : ∀ c ∈ dropSlashes x, c ∈ x := fun c hc => (dropSlashes_sublist x).subset hc
  by_cases hpath : trunk path = []
  · rw [hpath, relativeTo_root, Option.some.injEq] at h
    rw [← h, hpath]
    refine ⟨?_, fun c hc => hmem c ((List.dropWhile_suffix _).subset hc)⟩
    by_cases hnil : names = []
    · rw [hnil]
      exact Nat.zero_le _
    · rw [slashed_join hnil, ← h]
      cases hdrop : dropSlashes x with
      | nil =>
        rw [hdrop] at h
        obtain ⟨⟨c, hhead, -⟩, -⟩ := joinPath_ends hnil hnames
        rw [← h] at hhead
        cases hhead
      | cons c rest =>
        rw [hdrop, List.cons_append] at hback
        obtain rfl := hx c (by rw [← hback]; rfl)
        rw [List.dropWhile_cons_of_pos (by decide), size_cons]
        have hrest := (size_le_of_sublist (List.dropWhile_suffix (l := rest) (· == '/')).sublist).1
        rw [hdrop, size_cons] at hsize
        change 0 + (_ + _) ≤ _
        omega
  · rw [relativeTo_folder hpath] at h
    split at h
    · rename_i hsame
      have hjoin := Option.some.inj h
      have hnil : names = [] := by
        by_contra hne
        obtain ⟨⟨c, hhead, -⟩, -⟩ := joinPath_ends hne hnames
        rw [← hjoin] at hhead
        cases hhead
      rw [← hjoin, hnil, ← hsame]
      exact ⟨hsize, by simp⟩
    split at h
    · rename_i hprefix
      obtain ⟨rest, hrest⟩ := List.isPrefixOf_iff_prefix.mp hprefix
      rw [← hrest, List.drop_append_of_le_length (by simp), List.drop_of_length_le (by simp), List.nil_append,
        Option.some.injEq] at h
      have hslashed : size (slashed names) ≤ size ('/' :: joinPath names) := by
        by_cases hnil : names = []
        · rw [hnil]
          exact Nat.zero_le _
        · rw [slashed_join hnil]
      rw [← hrest, h, size_append, size_append] at hsize
      rw [size_cons] at hslashed
      have hone : size ['/'] = Char.utf8Size '/' := rfl
      refine ⟨by omega, fun c hc => hmem c ?_⟩
      rw [← hrest, h]
      exact List.mem_append_right _ hc
    · cases h

end Relative

section Wire

variable {baseUrl : List Char} {p : RelativePath}

theorem wire_append (left right : List Bytes) : wire (left ++ right) = wire left ++ wire right := List.flatMap_append

theorem wire_names (names : NamePath) : wire (names.map utf8) = utf8 (slashed names) := by
  induction names with
  | nil => rfl
  | cons name names ih =>
    rw [List.map_cons, wire, List.flatMap_cons, ← wire, ih, slashed_cons, utf8_cons, utf8_append]
    rfl

theorem wire_below (hplain : ∀ s ∈ basePath baseUrl, hasEscape s = false) :
    utf8 (slashed (basePath baseUrl ++ p.names)) = wire (below baseUrl p) := by
  rw [below, wire_append, wire_plain hplain, wire_names, slashed_append, utf8_append]

theorem wire_below_length :
    (wire (below baseUrl p)).length = decodedSize (basePath baseUrl) + size (slashed p.names) := by
  rw [below, wire_append, List.length_append, wire_length, wire_names]
  rfl

theorem basePath_written {s : List Char} (h : s ∈ basePath baseUrl) : IsWritten s := pathOf_written (trunk_subset h)

theorem slash_not_mem {s : List Char} (h : IsWritten s) : '/' ∉ s := by
  intro hslash
  obtain ⟨-, hno⟩ := h.plain _ hslash
  cases hno

theorem base_slashed (baseUrl : List Char) : dropSlashes (pathname baseUrl) = slashed (basePath baseUrl) :=
  dropSlashes_slashed fun _ hs => slash_not_mem (pathOf_written hs)

theorem slashed_head (path : NamePath) : ∀ c ∈ (slashed path).head?, c = '/' := by
  cases path with
  | nil => simp [slashed]
  | cons s path => simp [slashed]

theorem isHttp_path {x : List Char} (hx : ∀ c ∈ x.head?, c = '/') : isHttp x = false := by
  cases x with
  | nil => decide
  | cons c x =>
    obtain rfl := hx c rfl
    rfl

theorem isHttp_origin (o : Origin) (x : List Char) : isHttp (o.text ++ x) = true := by
  have hscheme : o.scheme = "http".toList ∨ o.scheme = "https".toList := by simpa using o.isHttp
  rw [isHttp, Bool.or_eq_true, List.isPrefixOf_iff_prefix, List.isPrefixOf_iff_prefix, Origin.text]
  refine hscheme.imp ?_ ?_
  · intro hhttp
    rw [hhttp]
    exact ⟨o.host ++ x, by simp⟩
  · intro hhttps
    rw [hhttps]
    exact ⟨o.host ++ x, by simp⟩

end Wire

section Origins

variable {K : NamePath}

theorem root_path : ∀ s ∈ ([] : NamePath), IsUrlSegment s := by simp

theorem https_isHttp : "https".toList ∈ ["http", "https"].map String.toList := by decide

/-- An origin as the URL of a server's root. -/
def rootOf (o : Origin) : EndpointUrl where
  scheme := o.scheme
  host := o.host
  path := []
  slash := false
  isHttp := o.isHttp
  hasHost := o.isHost.nonempty
  isHost c hc := by
    obtain ⟨-, -, hend, hspace, -⟩ := Relisting.plain_char (o.isHost.plain c hc)
    exact ⟨hspace, (o.isHost.plain c hc).2, hend⟩
  isPath := root_path

theorem rootOf_origin (o : Origin) : (rootOf o).origin = o.text := rfl

theorem pathOf_slashed (o : Origin) (hne : K ≠ []) (h : ∀ s ∈ K, ∀ c ∈ s, pathSet c = false ∧ isSlash c = false) :
    pathOf (o.text ++ slashed K) = readPath [] K := by
  have hslashes : ∀ s ∈ K, ∀ c ∈ s, isSlash c = false := fun s hs c hc => (h s hs c hc).2
  rw [slashed_join hne, ← rootOf_origin, Relisting.pathOf_front, Relisting.heard_plain h,
    Relisting.split_join hne hslashes]

theorem pathname_slashed (o : Origin) (h : ∀ s ∈ K, ∀ c ∈ s, pathSet c = false ∧ isSlash c = false)
    (hdots : ∀ s ∈ K, NotDots s) : dropSlashes (pathname (o.text ++ slashed K)) = dropSlashes (slashed K) := by
  by_cases hne : K = []
  · have hroot : pathOf (o.text ++ slashed []) = [[]] := by
      rw [← rootOf_origin]
      exact (congrArg pathOf (List.append_nil _)).trans Relisting.pathOf_bare
    rw [hne, pathname, hroot]
    rfl
  · rw [pathname, pathOf_slashed o hne h, readPath_notDots hne hdots, Relisting.encode_plain h, List.nil_append]

end Origins

section Denotes

variable {baseUrl : List Char} {p : RelativePath}

theorem below_notDots {bytes : Bytes} (h : bytes ∈ below baseUrl p) : bytes ≠ utf8 ['.'] ∧ bytes ≠ utf8 ['.', '.'] := by
  obtain h | h := List.mem_append.mp h
  · obtain ⟨s, hs, rfl⟩ := List.mem_map.mp h
    exact notDots_iff.mp (basePath_written hs).notDots
  · obtain ⟨name, hname, rfl⟩ := List.mem_map.mp h
    have hdots := (p.isNames name hname).2
    exact ⟨fun heq => hdots (.inl (utf8_injective heq)), fun heq => hdots (.inr (utf8_injective heq))⟩

theorem Href.denotes (h : Href (below baseUrl p)) (o : Origin) (hne : h.segments ≠ []) :
    requested (o.text ++ slashed h.segments) = below baseUrl p := by
  have hclear := h.clear
  rw [slashed_join hne] at hclear
  have hheard : heard (joinPath h.segments) = joinPath h.segments := by
    apply (heard_eq_iff _).mpr
    constructor
    · exact fun c hc => hclear.plain c (List.mem_cons_of_mem _ hc)
    · intro c hc
      apply hclear.last
      rw [List.getLast?_cons, hc]
      rfl
  have hdots : ∀ s ∈ h.segments, NotDots s := by
    intro s hs
    have hbelow : percentDecode s ∈ below baseUrl p := by
      rw [← h.decodes]
      exact List.mem_map_of_mem hs
    exact notDots_iff.mpr (below_notDots hbelow)
  have hself : (h.segments.map (percentEncode pathSet)).map percentDecode = h.segments.map percentDecode := by
    rw [List.map_map]
    exact List.map_congr_left fun s _ => percentDecode_encode pathSet_keepsEscapes s
  rw [requested, slashed_join hne, ← rootOf_origin, Relisting.pathOf_front, hheard, Relisting.split_join hne h.whole,
    readPath_notDots hne hdots, List.nil_append, hself, h.decodes]

end Denotes

section Alike

variable {baseUrl : List Char} {p : RelativePath} {resource : List Bytes}

/-- The parser leaves every part of the path as it is: the base's shows no escape, and the names are spelled as they
are. -/
structure SpelledAsIs (baseUrl : List Char) (p : RelativePath) : Prop where
  base : ∀ s ∈ basePath baseUrl, hasEscape s = false
  names : ∀ name ∈ p.names, IsUrlSegment name

theorem SpelledAsIs.plain (h : SpelledAsIs baseUrl p) :
    ∀ s ∈ basePath baseUrl ++ p.names, (∀ c ∈ s, pathSet c = false ∧ isSlash c = false) ∧ NotDots s := by
  intro s hs
  obtain hs | hs := List.mem_append.mp hs
  · exact ⟨(basePath_written hs).plain, (basePath_written hs).notDots⟩
  · exact ⟨(h.names s hs).plain, (h.names s hs).notDots⟩

theorem trunk_below (baseUrl : List Char) (p : RelativePath) :
    trunk (basePath baseUrl ++ p.names) = basePath baseUrl ++ p.names := by
  rcases List.eq_nil_or_concat' p.names with hnil | ⟨front, name, hnames⟩
  · rw [hnil, List.append_nil, basePath]
    obtain htrunk | ⟨front, s, hs, htrunk⟩ := trunk_cases (pathOf baseUrl)
    · rw [htrunk]
      rfl
    · rw [htrunk, trunk_append_name hs]
  · have hname : name ≠ [] := (p.isNames name (by rw [hnames]; simp)).1.1
    rw [hnames, ← List.append_assoc, trunk_append_name hname]

theorem Href.path (h : Href (below baseUrl p)) (hspelled : SpelledAsIs baseUrl p) {decoded : List Char}
    (hdecoded : decoded = h.front ++ slashed (basePath baseUrl ++ p.names) ++ h.tail) :
    dropSlashes (if isHttp decoded then pathname decoded else decoded) = slashed (basePath baseUrl ++ p.names) := by
  have htail : ∃ K : NamePath, slashed (basePath baseUrl ++ p.names) ++ h.tail = slashed K ∧
      (∀ s ∈ K, (∀ c ∈ s, pathSet c = false ∧ isSlash c = false) ∧ NotDots s) ∧
        trunk K = basePath baseUrl ++ p.names := by
    rw [Href.tail]
    split
    · refine ⟨basePath baseUrl ++ p.names ++ [[]], (slashed_append (basePath baseUrl ++ p.names) [[]]).symm, ?_, ?_⟩
      · intro s hs
        obtain hs | hs := List.mem_append.mp hs
        · exact hspelled.plain s hs
        · rw [List.mem_singleton.mp hs]
          exact ⟨by simp, .nil⟩
      · rw [trunk_append_nil, trunk_below]
    · exact ⟨_, List.append_nil _, hspelled.plain, trunk_below baseUrl p⟩
  obtain ⟨K, hK, hplain, htrunk⟩ := htail
  have hdropped : dropSlashes (slashed K) = slashed (basePath baseUrl ++ p.names) := by
    rw [dropSlashes_slashed, htrunk]
    intro s hs hslash
    obtain ⟨-, hno⟩ := (hplain s hs).1 _ hslash
    cases hno
  rw [List.append_assoc, hK] at hdecoded
  rw [hdecoded, Href.front]
  cases h.origin with
  | none =>
    have hpath : isHttp (slashed K) = false := isHttp_path (slashed_head K)
    change dropSlashes (if isHttp (slashed K) then _ else slashed K) = _
    rw [hpath]
    exact hdropped
  | some o =>
    change dropSlashes (if isHttp (o.text ++ slashed K) then pathname (o.text ++ slashed K) else _) = _
    rw [isHttp_origin, if_pos rfl, pathname_slashed o (fun s hs => (hplain s hs).1) fun s hs => (hplain s hs).2]
    exact hdropped

theorem hrefRelativeTo_spelled (hspelled : SpelledAsIs baseUrl p) (h : Href (below baseUrl p)) :
    hrefRelativeTo h.text baseUrl = .ok (some p.text) := by
  have hbelow := relativeTo_below (pathOf baseUrl) fun name hname => (p.isNames name hname).1
  rw [hrefRelativeTo_decoded (decodeHref_text h (wire_below hspelled.base)), h.path hspelled rfl, base_slashed]
  exact congrArg Except.ok hbelow

/-- A server that escapes every byte. -/
def escapesAll : Spelling where
  literal _ := false
  ascii _ h := absurd h (by simp)
  percent := rfl

theorem mem_spell {bytes : Bytes} {c : Char} (h : c ∈ escapesAll.spell bytes) :
    pathSet c = false ∧ isSlash c = false := by
  obtain ⟨b, -, hb⟩ := List.mem_flatMap.mp h
  exact mem_escape hb

/-- The href of a resource with every byte of its segments escaped. -/
def escapedHref (origin : Option Origin) (h : origin = none → resource ≠ []) : Href resource where
  origin := origin
  segments := resource.map escapesAll.spell
  slash := false
  escaped s hs := by
    obtain ⟨bytes, -, rfl⟩ := List.mem_map.mp hs
    have hwell := escapesAll.wellEscaped bytes []
    rwa [List.append_nil] at hwell
  whole s hs c hc := by
    obtain ⟨bytes, -, rfl⟩ := List.mem_map.mp hs
    exact (mem_spell hc).2
  clear := by
    have hchars : ∀ c ∈ slashed (resource.map escapesAll.spell),
        isTabOrNewline c = false ∧ endsPath c = false ∧ isSpace c = false := by
      intro c hc
      obtain rfl | ⟨s, hs, hc⟩ := mem_slashed hc
      · decide
      · obtain ⟨bytes, -, rfl⟩ := List.mem_map.mp hs
        obtain ⟨-, -, hend, hspace, -⟩ := Relisting.plain_char (mem_spell hc)
        exact ⟨not_tab_of_not_space hspace, hend, hspace⟩
    exact ⟨fun c hc => ⟨(hchars c hc).1, (hchars c hc).2.1⟩, fun c hc => (hchars c (List.mem_of_getLast? hc)).2.2⟩
  absolute hnone hnil := absurd (List.map_eq_nil_iff.mp hnil) (h hnone)
  decodes := by
    have hself : (resource.map escapesAll.spell).map percentDecode = resource.map id := by
      rw [List.map_map]
      apply List.map_congr_left
      intro bytes _
      have hdecode := escapesAll.decode bytes []
      rw [List.append_nil] at hdecode
      exact hdecode.trans (List.append_nil _)
    rw [hself, List.map_id]

/-- A base whose path is read back from an absolute path shows no escape. -/
theorem base_plain (h : ∀ h : Href (below baseUrl p), hrefRelativeTo h.text baseUrl = .ok (some p.text)) :
    ∀ s ∈ basePath baseUrl, hasEscape s = false := by
  by_cases hnil : basePath baseUrl = []
  · simp [hnil]
  have hne : below baseUrl p ≠ [] := by simp [below, hnil]
  have hread := h (escapedHref none fun _ => hne)
  cases hdecode : decodeHref (escapedHref none fun _ => hne).text with
  | error e =>
    rw [hrefRelativeTo, hdecode] at hread
    cases hread
  | ok d =>
    have hd := decodeHref_path rfl rfl hdecode
    have hhttp : isHttp d = false := by
      rw [isHttp, not_http hd "http://" rfl, not_http hd "https://" rfl]
      rfl
    have hhead : ∀ c ∈ d.head?, c = '/' := by
      intro c hc
      cases d with
      | nil => cases hc
      | cons a d =>
        obtain rfl := Option.some.inj hc
        cases hresource : below baseUrl p with
        | nil => exact absurd hresource hne
        | cons bytes rest =>
          rw [hresource] at hd
          have hslash : utf8 (a :: d) = String.utf8EncodeChar '/' ++ (bytes ++ wire rest) := hd
          obtain ⟨m, hm, -⟩ := utf8_eq_cons hslash
          exact (List.cons.inj hm).1
    rw [hrefRelativeTo_decoded hdecode, hhttp, base_slashed, Except.ok.injEq] at hread
    obtain ⟨hsize, -⟩ := relativeTo_size (fun name hname => (p.isNames name hname).1) hhead hread
    have hlen : (wire (below baseUrl p)).length = _ := wire_below_length
    rw [← hd] at hlen
    obtain ⟨-, heq⟩ := decodedSize_le (basePath baseUrl)
    have hspanned := size_slashed (basePath baseUrl)
    obtain ⟨hle, -⟩ := decodedSize_le (basePath baseUrl)
    have hdsize : size d = (utf8 d).length := rfl
    exact heq (by rw [basePath] at *; omega)

/-- A server. -/
def someOrigin : Origin where
  scheme := "https".toList
  host := ['h']
  isHttp := https_isHttp
  isHost := by
    refine ⟨by decide, ?_, by decide⟩
    intro c hc
    rw [List.mem_singleton.mp hc]
    decide
  plainHost := by decide

theorem names_spelled (hplain : ∀ s ∈ basePath baseUrl, hasEscape s = false)
    (h : ∀ h : Href (below baseUrl p), hrefRelativeTo h.text baseUrl = .ok (some p.text)) :
    ∀ name ∈ p.names, IsUrlSegment name := by
  by_cases hnil : p.names = []
  · simp [hnil]
  have hread := h (escapedHref (some someOrigin) nofun)
  rw [hrefRelativeTo_decoded (decodeHref_text (escapedHref (some someOrigin) nofun) (wire_below hplain)), base_slashed,
    Except.ok.injEq] at hread
  change relativeTo (slashed (basePath baseUrl)) (dropSlashes (if isHttp (someOrigin.text ++
    slashed (basePath baseUrl ++ p.names) ++ []) then pathname (someOrigin.text ++
      slashed (basePath baseUrl ++ p.names) ++ []) else _)) = some (joinPath p.names) at hread
  rw [List.append_nil, isHttp_origin, if_pos rfl] at hread
  obtain ⟨hsize, hchars⟩ := relativeTo_size (fun name hname => (p.isNames name hname).1) (slashed_head _) hread
  have hnames : ∀ name ∈ p.names, ∀ c ∈ name, pathSet c = false ∧ isSlash c = false := by
    intro name hname c hc
    obtain rfl | ⟨s, hs, hmem⟩ := mem_slashed (hchars c (mem_joinPath_of_mem hname hc))
    · exact absurd hc (p.isNames name hname).1.2
    · exact (pathOf_written hs).plain c hmem
  have hall : ∀ s ∈ basePath baseUrl ++ p.names, ∀ c ∈ s, pathSet c = false ∧ isSlash c = false := by
    intro s hs
    obtain hs | hs := List.mem_append.mp hs
    · exact (basePath_written hs).plain
    · exact hnames s hs
  have hne : basePath baseUrl ++ p.names ≠ [] := by simp [hnil]
  obtain ⟨hle, hdots⟩ := readPath_spanned [] fun s hs => percentEncode_id fun c hc => (hall s hs c hc).1
  have hpath := size_slashed (pathOf (someOrigin.text ++ slashed (basePath baseUrl ++ p.names)))
  rw [pathOf_slashed someOrigin hne hall] at hpath
  have hlong := size_slashed (basePath baseUrl ++ p.names)
  rw [slashed_append, size_append] at hlong
  rw [pathOf_slashed someOrigin hne hall, hpath] at hsize
  change size (slashed (basePath baseUrl)) + _ ≤ _ at hsize
  have hzero : spanned [] = 0 := rfl
  have hnotDots := hdots (by omega)
  intro name hname
  exact ⟨(p.isNames name hname).1.1, hnames name hname, hnotDots name (List.mem_append_right _ hname)⟩

/-- Whatever way the hrefs of a path are spelled, the path is read from them, exactly when the parser leaves every part
of it as it is. -/
theorem hrefRelativeTo_alike_iff (baseUrl : List Char) (p : RelativePath) :
    (∀ h : Href (below baseUrl p), hrefRelativeTo h.text baseUrl = .ok (some p.text)) ↔ SpelledAsIs baseUrl p := by
  constructor
  · intro h
    have hplain := base_plain h
    exact ⟨hplain, names_spelled hplain h⟩
  · exact hrefRelativeTo_spelled

/-- A base with an escape in its path, and an href spelled as the base is. -/
theorem hrefs_not_alike : ¬ ∀ (baseUrl : List Char) (p : RelativePath) (h : Href (below baseUrl p)),
    hrefRelativeTo h.text baseUrl = .ok (some p.text) := by
  intro h
  have hwhole : ["My%20Files".toList, "a.txt".toList].all (fun s => s.all fun c => !isSlash c) = true := by
    decide +kernel
  have hclear : (slashed ["My%20Files".toList, "a.txt".toList]).all
      (fun c => !isTabOrNewline c && !endsPath c) = true := by decide +kernel
  have hnames : ∀ name ∈ ["a.txt".toList], IsName name ∧ ¬ IsDots name := by
    intro name hname
    rw [List.mem_singleton.mp hname]
    exact ⟨⟨by decide, by decide⟩, by rintro (hdot | hdots) <;> contradiction⟩
  have hdecodes : ["My%20Files".toList, "a.txt".toList].map percentDecode =
      (basePath "https://cloud/My%20Files/".toList).map percentDecode ++ ["a.txt".toList].map utf8 := by decide +kernel
  have hread : hrefRelativeTo ("/My%20Files/a.txt".toList ++ []) "https://cloud/My%20Files/".toList =
      .ok (some "a.txt".toList) :=
    h "https://cloud/My%20Files/".toList ⟨["a.txt".toList], hnames⟩
      { origin := none
        segments := ["My%20Files".toList, "a.txt".toList]
        slash := false
        escaped := by decide +kernel
        whole := fun s hs c hc => by simpa using List.all_eq_true.mp (List.all_eq_true.mp hwhole s hs) c hc
        clear := ⟨fun c hc => by simpa using List.all_eq_true.mp hclear c hc, fun c hc => by
          obtain rfl : 't' = c := Option.some.inj hc
          decide⟩
        absolute := nofun
        decodes := hdecodes }
  revert hread
  decide +kernel

end Alike

end OpenMigrate.Dav
