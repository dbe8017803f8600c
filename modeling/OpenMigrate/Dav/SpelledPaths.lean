import OpenMigrate.Dav.Href
import OpenMigrate.Url.Decoding

namespace OpenMigrate.Dav.Relisting

open Url

section Source

/-- The origin of a URL in the parser's own spelling. -/
def originOf (url : List Char) : List Char :=
  url.takeWhile (· != ':') ++ ':' :: '/' :: '/' ::
    (((url.dropWhile (· != ':')).drop 1).dropWhile isSlash).takeWhile fun c => !(isSlash c || endsPath c)

/-- The connector's surroundings: the platform's URL parser and decoding. What `new URL(path, origin)` reads is the
origin and the path behind it. -/
def platform : Runtime where
  pathname := pathname
  resolve base path := originOf base ++ path
  decodeURIComponent := decodeURIComponent
  parseDate date := date
  now := ""

theorem platform_pathname (url : List Char) : platform.pathname url = pathname url := rfl

theorem platform_resolve (base path : List Char) : platform.resolve base path = originOf base ++ path := rfl

/-- The URL that `listSince` asks for a folder. -/
def requestUrl (cfg : WebDAVSourceConfig) (folderPath : List Char) : List Char :=
  buildUrl cfg (combineWithRootPath cfg (normalizePath folderPath))

/-- The path that an entry of a listing gets by its href. -/
def pathOfHref (cfg : WebDAVSourceConfig) (href : List Char) : Except PassError (List Char) :=
  toRelativePath platform cfg (normalizePath (trim href))

end Source

section Server

/-- One of the ways to write a name as a segment of a URL. -/
structure Spells (segment name : List Char) : Prop where
  plain : ∀ c ∈ segment, pathSet c = false ∧ isSlash c = false
  escaped : wellEscaped segment = true
  decodes : percentDecode segment = utf8 name

def IsDots (name : List Char) : Prop := name = ['.'] ∨ name = ['.', '.']

/-- The configured root: a folder of the server, spelled by the URL of the account and the root path. -/
structure Root where
  endpoint : EndpointUrl
  under : NamePath
  rootPath : Option (List Char)
  isUnder : ∀ s ∈ under, IsUrlSegment s
  isRoot : under = [] ∧ (rootPath = none ∨ rootPath = some [] ∨ rootPath = some ['/']) ∨
    under ≠ [] ∧ ∃ lead trail : Bool, rootPath =
      some ((if lead then ['/'] else []) ++ joinPath under ++ if trail then ['/'] else [])
  names : NamePath
  isNames : ∀ name ∈ names, IsName name ∧ ¬ IsDots name
  spelled : List.Forall₂ Spells (endpoint.path ++ under) names

def Root.config (R : Root) : WebDAVSourceConfig where
  url := R.endpoint.text
  rootPath := R.rootPath

def Root.path (R : Root) : NamePath := R.endpoint.path ++ R.under

/-- The scheme and the host of an absolute URL. -/
structure Origin where
  scheme : List Char
  host : List Char
  isHttp : scheme ∈ ["http", "https"].map String.toList
  isHost : IsUrlSegment host
  plainHost : '%' ∉ host

def Origin.text (o : Origin) : List Char := o.scheme ++ ':' :: '/' :: '/' :: o.host

/-- A resource below the root, by its names, and the href that the server writes for it. -/
structure Resource (R : Root) where
  names : NamePath
  isNames : ∀ name ∈ names, IsName name
  origin : Option Origin
  base : List (List Char)
  tail : List (List Char)
  slash : Bool
  spellsBase : List.Forall₂ Spells base R.names
  spellsTail : List.Forall₂ Spells tail names
  absolute : origin = none → base ++ tail = [] → slash = true

variable {R : Root}

def Resource.href (r : Resource R) : List Char :=
  (r.origin.map Origin.text).getD [] ++ slashed (r.base ++ r.tail) ++ if r.slash then ['/'] else []

/-- The href is an absolute path, and spells the root as the configuration does. -/
def Resource.Local (r : Resource R) : Prop := r.origin = none ∧ r.base = R.path

/-- A folder and what it holds. -/
structure Folder (R : Root) where
  self : Resource R
  members : List (Resource R)
  below : ∀ m ∈ members, m.names ≠ [] ∧ m.names.dropLast = self.names

/-- What a URL names: its segments, decoded; a slash at its end says nothing. -/
def denoted (url : List Char) : List Bytes :=
  if (requested url).getLast? = some [] then (requested url).dropLast else requested url

/-- The folder has its path, is asked for under its own URL, and its members have their paths. -/
structure ListedAgain (F : Folder R) : Prop where
  path : pathOfHref R.config F.self.href = .ok (joinPath F.self.names)
  request : ∀ path, pathOfHref R.config F.self.href = .ok path →
    denoted (requestUrl R.config path) = (R.names ++ F.self.names).map utf8
  members : ∀ m ∈ F.members, pathOfHref R.config m.href = .ok (joinPath m.names)

end Server

section Segments

variable {segs : NamePath} {s name : List Char}

/-- What a segment of an href is: something, and nothing that the URL parser changes, but for dots. -/
structure IsSegment (s : List Char) : Prop where
  ne_nil : s ≠ []
  plain : ∀ c ∈ s, pathSet c = false ∧ isSlash c = false

theorem plain_char {c : Char} (h : pathSet c = false ∧ isSlash c = false) :
    c ≠ '/' ∧ c ≠ '\\' ∧ endsPath c = false ∧ isSpace c = false ∧ whiteSpace c = false := by
  obtain ⟨hset, hslash⟩ := h
  simp only [pathSet, Bool.or_eq_false_iff, decide_eq_false_iff_not] at hset
  obtain ⟨⟨⟨hspace, hhigh⟩, -⟩, hlist⟩ := hset
  rw [isSlash, Bool.or_eq_false_iff, beq_eq_false_iff_ne, beq_eq_false_iff_ne] at hslash
  refine ⟨hslash.1, hslash.2, ?_, hspace, ?_⟩
  · rw [endsPath, Bool.or_eq_false_iff, beq_eq_false_iff_ne, beq_eq_false_iff_ne]
    constructor
    · rintro rfl
      exact absurd hlist (by decide)
    · rintro rfl
      exact absurd hlist (by decide)
  · by_contra hwhite
    have hbounds := whiteSpace_bounds (Bool.eq_true_of_not_eq_false hwhite)
    simp only [isSpace, decide_eq_false_iff_not] at hspace
    omega

theorem IsSegment.isName (h : IsSegment s) : IsName s := ⟨h.ne_nil, fun hc => (plain_char (h.plain _ hc)).1 rfl⟩

theorem Spells.isSegment (h : Spells s name) (hname : name ≠ []) : IsSegment s := by
  refine ⟨?_, h.plain⟩
  rintro rfl
  apply hname
  exact utf8_injective h.decodes.symm

theorem Spells.notDots (h : Spells s name) (hname : ¬ IsDots name) : NotDots s := by
  rw [notDots_iff, h.decodes]
  exact ⟨fun heq => hname (.inl (utf8_injective heq)), fun heq => hname (.inr (utf8_injective heq))⟩

theorem slashed_join (h : segs ≠ []) : slashed segs = '/' :: joinPath segs := by
  induction segs with
  | nil => exact absurd rfl h
  | cons s segs ih =>
    rw [slashed_cons]
    cases segs with
    | nil => rw [joinPath_singleton, slashed, List.flatMap_nil, List.append_nil]
    | cons t segs => rw [ih (by simp), joinPath_cons s (by simp)]

theorem decode_joined {names : NamePath} (h : List.Forall₂ Spells segs names) :
    wellEscaped (joinPath segs) = true ∧ percentDecode (joinPath segs) = utf8 (joinPath names) := by
  induction h with
  | nil => exact ⟨rfl, rfl⟩
  | @cons s name segs names hs hrest ih =>
    cases hrest with
    | nil =>
      rw [joinPath_singleton, joinPath_singleton]
      exact ⟨hs.escaped, hs.decodes⟩
    | cons ht hmore =>
      rw [joinPath_cons s (by simp), joinPath_cons name (by simp), wellEscaped_append hs.escaped,
        percentDecode_append hs.escaped, wellEscaped_cons (by decide), percentDecode_cons fun h => absurd h (by decide),
        ih.2, hs.decodes, utf8_append, utf8_cons]
      exact ⟨ih.1, rfl⟩

theorem join_chars (h : ∀ s ∈ segs, IsSegment s) :
    ∀ c ∈ slashed segs, c ≠ '\\' ∧ endsPath c = false ∧ isSpace c = false ∧ whiteSpace c = false := by
  intro c hc
  rcases mem_slashed hc with rfl | ⟨s, hs, hc⟩
  · decide
  · exact (plain_char ((h s hs).plain c hc)).2

theorem slashed_last (hne : segs ≠ []) (h : ∀ s ∈ segs, IsSegment s) :
    ∃ c, (slashed segs).getLast? = some c ∧ c ≠ '/' := by
  obtain ⟨-, c, hlast, hc⟩ := joinPath_ends hne fun s hs => (h s hs).isName
  rw [slashed_join hne]
  refine ⟨c, ?_, hc⟩
  rw [List.getLast?_cons, hlast]
  rfl

theorem slashed_single (h : ∀ s ∈ segs, IsSegment s) : Single (slashed segs) := by
  by_cases hne : segs = []
  · rw [hne]
    exact List.isChain_nil
  · obtain ⟨⟨c, hhead, hc⟩, -⟩ := joinPath_ends hne fun s hs => (h s hs).isName
    rw [slashed_join hne]
    apply (joinPath_single fun s hs => (h s hs).isName).cons
    rintro y hy ⟨-, rfl⟩
    rw [hhead] at hy
    exact hc (Option.some.inj hy)

theorem slashed_single_end (h : ∀ s ∈ segs, IsSegment s) (slash : Bool) :
    Single (slashed segs ++ if slash then ['/'] else []) := by
  cases slash with
  | false => simpa using slashed_single h
  | true =>
    apply (slashed_single h).append (List.isChain_singleton _)
    rintro x hx y - ⟨rfl, -⟩
    by_cases hne : segs = []
    · rw [hne] at hx
      cases hx
    · obtain ⟨c, hlast, hc⟩ := slashed_last hne h
      rw [hlast] at hx
      exact hc (Option.some.inj hx)

/-- A path as the connector keeps it. -/
def pathText (segs : NamePath) : List Char := if segs = [] then ['/'] else slashed segs

theorem drop_end (h : ∀ s ∈ segs, IsSegment s) {slash : Bool} (hslash : segs = [] → slash = true) {rooted : List Char}
    (hrooted : rooted = slashed segs ++ if slash then ['/'] else []) :
    (if rooted ≠ ['/'] ∧ rooted.getLast? = some '/' then rooted.dropLast else rooted) = pathText segs := by
  subst hrooted
  rw [pathText]
  by_cases hne : segs = []
  · rw [hne, hslash hne]
    decide
  · obtain ⟨c, hlast, hc⟩ := slashed_last hne h
    have hslashed : slashed segs ≠ [] := by
      rw [slashed_join hne]
      simp
    rw [if_neg hne]
    cases slash with
    | false =>
      have hplain : (slashed segs ++ if false = true then ['/'] else []) = slashed segs := by simp
      rw [hplain, if_neg]
      rintro ⟨-, hend⟩
      rw [hlast] at hend
      exact hc (Option.some.inj hend)
    | true =>
      have hmore : slashed segs ++ ['/'] ≠ ['/'] := by simpa using hslashed
      have hend : (slashed segs ++ ['/']).getLast? = some '/' := by simp
      rw [if_pos rfl, if_pos ⟨hmore, hend⟩, List.dropLast_concat]

end Segments

section Hrefs

variable {R : Root} (r : Resource R)

/-- The segments of an href as `normalizePath` leaves it: of an absolute URL the scheme and the host are two. -/
def Resource.segments : NamePath :=
  (r.origin.map fun o => [o.scheme ++ [':'], o.host]).getD [] ++ (r.base ++ r.tail)

theorem Origin.scheme_segment (o : Origin) : IsSegment (o.scheme ++ [':']) := by
  have hboth : ∀ scheme ∈ ["http", "https"].map String.toList,
      (scheme ++ [':']).all (fun c => pathSet c == false && isSlash c == false) = true := by decide
  refine ⟨by simp, fun c hc => ?_⟩
  simpa using List.all_eq_true.mp (hboth o.scheme o.isHttp) c hc

theorem forall₂_segments {segs names : NamePath} (h : List.Forall₂ Spells segs names) (hnames : ∀ name ∈ names, name ≠ []) :
    ∀ s ∈ segs, IsSegment s := by
  induction h with
  | nil => simp
  | cons hs hrest ih =>
    rw [List.forall_mem_cons] at hnames ⊢
    exact ⟨hs.isSegment hnames.1, ih hnames.2⟩

theorem Resource.path_segments : ∀ s ∈ r.base ++ r.tail, IsSegment s := by
  intro s hs
  rcases List.mem_append.mp hs with hs | hs
  · exact forall₂_segments r.spellsBase (fun name hname => (R.isNames name hname).1.1) s hs
  · exact forall₂_segments r.spellsTail (fun name hname => (r.isNames name hname).1) s hs

theorem Resource.isSegment : ∀ s ∈ r.segments, IsSegment s := by
  intro s hs
  rw [Resource.segments] at hs
  rcases List.mem_append.mp hs with hs | hs
  · cases horigin : r.origin with
    | none => simp [horigin] at hs
    | some o =>
      have hcases : s = o.scheme ++ [':'] ∨ s = o.host := by simpa [horigin] using hs
      rcases hcases with rfl | rfl
      · exact o.scheme_segment
      · exact ⟨o.isHost.nonempty, o.isHost.plain⟩
  · exact r.path_segments s hs

theorem collapse_front {a : List Char} (ha : '/' ∉ a) (b : List Char) : collapse (a ++ b) = a ++ collapse b := by
  induction a with
  | nil => rfl
  | cons c a ih =>
    have hc : c ≠ '/' := fun h => ha (h ▸ List.mem_cons_self)
    rw [List.cons_append, collapse, ih fun h => ha (List.mem_cons_of_mem c h)]
    · rfl
    · rintro rest heq
      exact absurd heq hc

theorem Resource.normalized : normalizePath (trim r.href) = pathText r.segments := by
  have hpath := r.path_segments
  have hchars := join_chars hpath
  have hend : ∀ c ∈ (if r.slash then ['/'] else []), c ≠ '\\' ∧ whiteSpace c = false := by
    intro c hc
    split at hc
    · obtain rfl := List.mem_singleton.mp hc
      decide
    · cases hc
  cases horigin : r.origin with
  | none =>
    have hhref : r.href = slashed (r.base ++ r.tail) ++ if r.slash then ['/'] else [] := by
      rw [Resource.href, horigin]
      rfl
    have hsegments : r.segments = r.base ++ r.tail := by
      rw [Resource.segments, horigin]
      rfl
    have hall : ∀ c ∈ r.href, c ≠ '\\' ∧ whiteSpace c = false := by
      intro c hc
      rw [hhref] at hc
      rcases List.mem_append.mp hc with hc | hc
      · exact ⟨(hchars c hc).1, (hchars c hc).2.2.2⟩
      · exact hend c hc
    have hsingle : Single r.href := hhref ▸ slashed_single_end hpath r.slash
    have hhead : r.href.head? = some '/' := by
      rw [hhref]
      by_cases hne : r.base ++ r.tail = []
      · rw [hne, r.absolute horigin hne]
        rfl
      · rw [slashed_join hne]
        rfl
    rw [trim_eq fun c hc => (hall c hc).2, normalizePath, map_slashes fun h => (hall _ h).1 rfl, collapse_eq hsingle]
    simp only [hhead, if_true]
    rw [hsegments]
    exact drop_end hpath (r.absolute horigin) hhref
  | some o =>
    have hhost : IsSegment o.host := ⟨o.isHost.nonempty, o.isHost.plain⟩
    have hinner : ∀ s ∈ o.host :: (r.base ++ r.tail), IsSegment s := List.forall_mem_cons.mpr ⟨hhost, hpath⟩
    have hscheme := o.scheme_segment
    have hhref : r.href = o.scheme ++ [':'] ++ '/' :: (slashed (o.host :: (r.base ++ r.tail)) ++ if r.slash then ['/'] else []) := by
      rw [Resource.href, horigin, slashed_cons]
      simp [Origin.text]
    have hsegments : r.segments = (o.scheme ++ [':']) :: o.host :: (r.base ++ r.tail) := by
      rw [Resource.segments, horigin]
      rfl
    have hall : ∀ c ∈ r.href, c ≠ '\\' ∧ whiteSpace c = false := by
      intro c hc
      rw [hhref] at hc
      rcases List.mem_append.mp hc with hc | hc
      · exact (plain_char (hscheme.plain c hc)).2.imp_right fun h => h.2.2
      rcases List.mem_cons.mp hc with rfl | hc
      · decide
      rcases List.mem_append.mp hc with hc | hc
      · have hplain := join_chars hinner c hc
        exact ⟨hplain.1, hplain.2.2.2⟩
      · exact hend c hc
    have hcollapse : collapse r.href = o.scheme ++ [':'] ++ (slashed (o.host :: (r.base ++ r.tail)) ++ if r.slash then ['/'] else []) := by
      have hdouble : ∀ t : List Char, collapse ('/' :: '/' :: t) = collapse ('/' :: t) := fun t => by rw [collapse]
      have hsingle := slashed_single_end hinner r.slash
      rw [slashed_cons, List.cons_append] at hsingle
      rw [hhref, collapse_front hscheme.isName.2, slashed_cons, List.cons_append, hdouble, collapse_eq hsingle]
    have hhead : (collapse r.href).head? ≠ some '/' := by
      rw [hcollapse, List.head?_append_of_ne_nil _ hscheme.ne_nil]
      intro h
      exact hscheme.isName.2 (List.mem_of_mem_head? h)
    rw [trim_eq fun c hc => (hall c hc).2, normalizePath, map_slashes fun h => (hall _ h).1 rfl]
    simp only [hhead, if_false]
    rw [hsegments]
    have hrooted : '/' :: collapse r.href =
        slashed ((o.scheme ++ [':']) :: o.host :: (r.base ++ r.tail)) ++ if r.slash then ['/'] else [] := by
      rw [hcollapse, slashed_cons (o.scheme ++ [':'])]
      simp
    exact drop_end (hsegments ▸ r.isSegment) (fun h => absurd h (by simp)) hrooted

end Hrefs

section Read

variable {E : EndpointUrl} {segs : NamePath}

theorem encode_plain (h : ∀ s ∈ segs, ∀ c ∈ s, pathSet c = false ∧ isSlash c = false) :
    segs.map (percentEncode pathSet) = segs := by
  have hself : segs.map (percentEncode pathSet) = segs.map id :=
    List.map_congr_left fun s hs => percentEncode_id fun c hc => (h s hs c hc).1
  rw [hself, List.map_id]

theorem heard_plain (h : ∀ s ∈ segs, ∀ c ∈ s, pathSet c = false ∧ isSlash c = false) :
    heard (joinPath segs) = joinPath segs := by
  have hchars : ∀ c ∈ joinPath segs, isTabOrNewline c = false ∧ endsPath c = false ∧ isSpace c = false := by
    intro c hc
    rcases mem_joinPath hc with rfl | ⟨s, hs, hc⟩
    · decide
    · obtain ⟨-, -, hend, hspace, -⟩ := plain_char (h s hs c hc)
      exact ⟨not_tab_of_not_space hspace, hend, hspace⟩
  apply (heard_eq_iff _).mpr
  constructor
  · exact fun c hc => ⟨(hchars c hc).1, (hchars c hc).2.1⟩
  · exact fun c hc => (hchars c (List.mem_of_getLast? hc)).2.2

theorem split_join (hne : segs ≠ []) (h : ∀ s ∈ segs, ∀ c ∈ s, isSlash c = false) :
    (joinPath segs).splitOnP isSlash = segs := by
  obtain ⟨front, last, rfl⟩ := (List.eq_nil_or_concat' segs).resolve_left hne
  have hfront : ∀ s ∈ front, ∀ c ∈ s, isSlash c = false := fun s hs => h s (List.mem_append_left _ hs)
  have hsplit := splitOnP_slashed hfront last
  have hlast : last.splitOnP isSlash = [last] := List.splitOnP_eq_singleton (h last (by simp))
  have hjoin : slashed front ++ '/' :: last = '/' :: joinPath (front ++ [last]) := by
    rw [← slashed_join hne, slashed_append]
    simp [slashed]
  rw [hjoin, splitOnP_cons_slash rfl, hlast, List.cons.injEq] at hsplit
  exact hsplit.2

theorem pathOf_front (x : List Char) : pathOf (E.origin ++ '/' :: x) = readPath [] ((heard x).splitOnP isSlash) := by
  have hread := pathOf_origin (E := { E with path := [], isPath := by simp }) x
  have hnil : slashed ([] : NamePath) = [] := rfl
  rw [hnil, List.append_nil] at hread
  exact hread

theorem pathOf_segments (h : ∀ s ∈ segs, IsSegment s) (hdots : ∀ s ∈ segs, NotDots s) :
    pathOf (E.origin ++ pathText segs) = if segs = [] then [[]] else segs := by
  by_cases hne : segs = []
  · rw [hne, pathText, if_pos rfl, if_pos rfl, pathOf_front]
    rfl
  · have hslashes : ∀ s ∈ segs, ∀ c ∈ s, isSlash c = false := fun s hs c hc => ((h s hs).plain c hc).2
    have hplain : ∀ s ∈ segs, ∀ c ∈ s, pathSet c = false ∧ isSlash c = false := fun s hs => (h s hs).plain
    rw [pathText, if_neg hne, if_neg hne, slashed_join hne, pathOf_front, heard_plain hplain, split_join hne hslashes,
      readPath_notDots hne hdots, encode_plain hplain, List.nil_append]

theorem pathname_segments (h : ∀ s ∈ segs, IsSegment s) (hdots : ∀ s ∈ segs, NotDots s) :
    pathname (E.origin ++ pathText segs) = pathText segs := by
  rw [pathname, pathOf_segments h hdots, pathText]
  split
  · rfl
  · rfl

theorem afterAuthority_bare : afterAuthority E.origin = [] := by
  have hfront := afterAuthority_front (E := E) []
  rwa [List.append_nil, List.dropWhile_nil] at hfront

theorem clean_bare : clean E.origin = E.origin := by
  have hchars : ∀ c ∈ E.origin, isSpace c = false := by
    intro c hc
    have hcases : c ∈ E.scheme ∨ c = ':' ∨ c = '/' ∨ c = '/' ∨ c ∈ E.host := by simpa [EndpointUrl.origin] using hc
    obtain h | rfl | rfl | rfl | h := hcases
    · exact (scheme_chars c h).2
    · decide
    · decide
    · decide
    · exact (E.isHost c h).1
  have hkeep : ∀ s : List Char, (∀ c ∈ s, isSpace c = false) → s.dropWhile isSpace = s := by
    intro s hs
    cases s with
    | nil => rfl
    | cons c s => rw [List.dropWhile_cons_of_neg (by simp [hs c List.mem_cons_self])]
  rw [clean, hkeep _ hchars, hkeep _ fun c hc => hchars c (List.mem_reverse.mp hc), List.reverse_reverse]
  exact List.filter_eq_self.mpr fun c hc => by simp [mem_origin hc]

theorem pathOf_bare : pathOf E.origin = [[]] := by
  rw [pathOf, clean_bare, afterAuthority_bare]
  rfl

theorem originOf_text : originOf E.text = E.origin := by
  have hrest : ∃ rest, E.text = E.scheme ++ ':' :: '/' :: '/' :: (E.host ++ rest) ∧
      ∀ c ∈ rest.head?, isSlash c = true := by
    refine ⟨slashed E.path ++ if E.slash then ['/'] else [], ?_, ?_⟩
    · rw [EndpointUrl.text, EndpointUrl.origin]
      simp
    · intro c hc
      cases hpath : E.path with
      | nil =>
        rw [hpath] at hc
        cases hslash : E.slash with
        | false => simp [hslash, slashed] at hc
        | true =>
          obtain rfl : '/' = c := by simpa [hslash, slashed] using hc
          rfl
      | cons s path =>
        rw [hpath] at hc
        obtain rfl : '/' = c := by simpa [slashed] using hc
        rfl
  obtain ⟨rest, htext, hstop⟩ := hrest
  have hscheme : ∀ c ∈ E.scheme, (c != ':') = true := fun c hc => by simpa using (scheme_chars c hc).1
  have hhost : ∀ c ∈ E.host, (!(isSlash c || endsPath c)) = true := fun c hc => by simp [(E.isHost c hc).2]
  obtain ⟨d, host, hd⟩ := List.exists_cons_of_ne_nil E.hasHost
  have hfirst : isSlash d = false := (E.isHost d (hd ▸ List.mem_cons_self)).2.1
  have hbehind : rest.takeWhile (fun c => !(isSlash c || endsPath c)) = [] := by
    cases rest with
    | nil => rfl
    | cons c rest =>
      have hc : isSlash c = true := hstop c rfl
      rw [List.takeWhile_cons_of_neg (by simp [hc])]
  have htaken : ((('/' :: '/' :: (E.host ++ rest)).dropWhile isSlash).takeWhile fun c => !(isSlash c || endsPath c)) = E.host := by
    rw [List.dropWhile_cons_of_pos (by decide), List.dropWhile_cons_of_pos (by decide), hd, List.cons_append,
      List.dropWhile_cons_of_neg (by simp [hfirst]), ← List.cons_append, ← hd,
      List.takeWhile_append_of_pos hhost, hbehind, List.append_nil]
  rw [originOf, htext, List.takeWhile_append_of_pos hscheme, List.dropWhile_append_of_pos hscheme,
    List.takeWhile_cons_of_neg (by simp), List.dropWhile_cons_of_neg (by simp), List.drop_one, List.tail_cons, htaken]
  simp [EndpointUrl.origin]

end Read

end OpenMigrate.Dav.Relisting
