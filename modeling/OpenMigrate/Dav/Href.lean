import OpenMigrate.Dav.ObjectWriter
import OpenMigrate.Dav.WebdavTree
import OpenMigrate.Url.Path

namespace OpenMigrate.Dav

open Url

section Source

/-- `replace(/\/$/, '')` -/
def dropSlash (s : List Char) : List Char :=
  match s.reverse with
  | '/' :: rest => rest.reverse
  | _ => s

/-- `replace(/\/+$/, '')` -/
def dropSlashes (s : List Char) : List Char := (s.reverse.dropWhile (· == '/')).reverse

def Writer.buildUrl (configUrl path : List Char) : List Char := dropSlash configUrl ++ '/' :: path.dropWhile (· == '/')

def decodeHref (href : List Char) : Except String (List Char) :=
  match decodeURIComponent href with
  | some decoded => .ok decoded
  | none => .error s!"Cannot decode DAV href: {String.ofList href}"

def hrefRelativeTo (href baseUrl : List Char) : Except String (Option (List Char)) :=
  match decodeHref href with
  | .error e => .error e
  | .ok decoded =>
    let hrefPath :=
      if "http://".toList.isPrefixOf decoded || "https://".toList.isPrefixOf decoded then pathname decoded else decoded
    let basePath := dropSlashes (pathname baseUrl)
    let normalizedHref := dropSlashes hrefPath
    .ok (if basePath = [] ∨ basePath = ['/'] then some (normalizedHref.dropWhile (· == '/'))
      else if normalizedHref = basePath then some []
      else if (basePath ++ ['/']).isPrefixOf normalizedHref then some (normalizedHref.drop (basePath.length + 1))
      else none)

end Source

/-- A segment that the URL parser leaves as it is. -/
structure IsUrlSegment (s : List Char) : Prop where
  nonempty : s ≠ []
  plain : ∀ c ∈ s, pathSet c = false ∧ isSlash c = false
  notDots : s ∉ doubleDots ∧ s ∉ singleDots

/-- `config.url`: an `http` or `https` URL without query or fragment, in the parser's own spelling. -/
structure EndpointUrl where
  scheme : List Char
  host : List Char
  path : NamePath
  slash : Bool
  isHttp : scheme ∈ ["http", "https"].map String.toList
  hasHost : host ≠ []
  isHost : ∀ c ∈ host, isSpace c = false ∧ isSlash c = false ∧ endsPath c = false
  isPath : ∀ s ∈ path, IsUrlSegment s

namespace EndpointUrl

variable (E : EndpointUrl)

def origin : List Char := E.scheme ++ ':' :: '/' :: '/' :: E.host

def text : List Char := E.origin ++ slashed E.path ++ if E.slash then ['/'] else []

end EndpointUrl

/-- What a request names: the segments of its URL, decoded. -/
def requested (url : List Char) : List Bytes := (pathOf url).map percentDecode

/-- How a server spells a resource in its answers. -/
def reported (S : Spelling) (resource : List Bytes) : List Char := resource.flatMap fun s => '/' :: S.spell s

section Heard

/-- What is left of the end of a URL once it is cleaned and cut at a query or a fragment. -/
def heard (x : List Char) : List Char :=
  (((x.reverse.dropWhile isSpace).reverse).filter fun c => !isTabOrNewline c).takeWhile fun c => !endsPath c

theorem rdropWhile_sublist (p : Char → Bool) (x : List Char) : (x.reverse.dropWhile p).reverse.Sublist x := by
  have h := (List.dropWhile_suffix (l := x.reverse) p).sublist.reverse
  rwa [List.reverse_reverse] at h

theorem heard_sublist (x : List Char) : (heard x).Sublist x :=
  (List.takeWhile_prefix _).sublist.trans (List.filter_sublist.trans (rdropWhile_sublist _ _))

/-- A text of which the URL parser takes nothing away. -/
structure Clear (x : List Char) : Prop where
  plain : ∀ c ∈ x, isTabOrNewline c = false ∧ endsPath c = false
  last : ∀ c, x.getLast? = some c → isSpace c = false

theorem heard_eq_iff (x : List Char) : heard x = x ↔ Clear x := by
  have hsub := rdropWhile_sublist isSpace x
  constructor
  · intro h
    have hfull : (x.reverse.dropWhile isSpace).reverse = x := by
      apply hsub.eq_of_length_le
      calc x.length = (heard x).length := by rw [h]
        _ ≤ _ := ((List.takeWhile_prefix _).sublist.trans List.filter_sublist).length_le
    constructor
    · intro c hc
      rw [← h] at hc
      have hcut := List.mem_takeWhile_imp hc
      have hclean := (List.mem_filter.mp ((List.takeWhile_prefix _).sublist.subset hc)).2
      simpa [Bool.and_comm] using And.intro hclean hcut
    · intro c hc
      rw [List.getLast?_eq_head?_reverse] at hc
      by_contra hspace
      cases hrev : x.reverse with
      | nil =>
        rw [hrev] at hc
        cases hc
      | cons d rest =>
        rw [hrev, List.head?_cons, Option.some.injEq] at hc
        subst hc
        have hlen := congrArg List.length hfull
        have hdrop := (List.dropWhile_suffix (l := rest) isSpace).length_le
        have hx : x.length = rest.length + 1 := by
          have hlenRev : x.reverse.length = x.length := List.length_reverse
          rw [← hlenRev, hrev, List.length_cons]
        rw [hrev, List.dropWhile_cons_of_pos (by simpa using hspace), List.length_reverse, hx] at hlen
        omega
  · rintro ⟨hplain, hlast⟩
    have hfull : (x.reverse.dropWhile isSpace).reverse = x := by
      cases hrev : x.reverse with
      | nil => simpa using hrev
      | cons d rest =>
        have hd : isSpace d = false := hlast d (by rw [List.getLast?_eq_head?_reverse, hrev]; rfl)
        rw [List.dropWhile_cons_of_neg (by simp [hd]), ← hrev, List.reverse_reverse]
    have hfilter : x.filter (fun c => !isTabOrNewline c) = x :=
      List.filter_eq_self.mpr fun c hc => by simp [(hplain c hc).1]
    rw [heard, hfull, hfilter]
    exact List.takeWhile_eq_self_iff.mpr fun c hc => by simp [(hplain c hc).2]

end Heard

section Parse

theorem not_tab_of_not_space {c : Char} (h : isSpace c = false) : isTabOrNewline c = false := by
  rw [← Bool.not_eq_true] at h ⊢
  refine fun htab => h ?_
  obtain (rfl | rfl) | rfl : (c = '\t' ∨ c = '\n') ∨ c = '\r' := by simpa [isTabOrNewline] using htab
  all_goals decide

theorem IsUrlSegment.char {s : List Char} (h : IsUrlSegment s) {c : Char} (hc : c ∈ s) :
    isSpace c = false ∧ isSlash c = false ∧ endsPath c = false := by
  obtain ⟨hset, hslash⟩ := h.plain c hc
  have hspace : isSpace c = false := by
    rw [← Bool.not_eq_true] at hset ⊢
    exact fun hsp => hset (by simp [pathSet, hsp])
  refine ⟨hspace, hslash, ?_⟩
  rw [← Bool.not_eq_true] at hset ⊢
  refine fun hend => hset ?_
  obtain rfl | rfl : c = '?' ∨ c = '#' := by simpa [endsPath] using hend
  all_goals decide

theorem percentEncode_id {s : List Char} (h : ∀ c ∈ s, pathSet c = false) : percentEncode pathSet s = s := by
  induction s with
  | nil => rfl
  | cons c s ih =>
    rw [percentEncode_cons, h c List.mem_cons_self, ih fun d hd => h d (List.mem_cons_of_mem c hd)]
    rfl

variable {E : EndpointUrl}

theorem mem_slashed {path : List (List Char)} {c : Char} (h : c ∈ slashed path) : c = '/' ∨ ∃ s ∈ path, c ∈ s := by
  obtain ⟨s, hs, hc⟩ := List.mem_flatMap.mp h
  obtain rfl | hc := List.mem_cons.mp hc
  · exact .inl rfl
  · exact .inr ⟨s, hs, hc⟩

theorem mem_path {c : Char} (h : c ∈ slashed E.path) : endsPath c = false ∧ isTabOrNewline c = false := by
  obtain rfl | ⟨s, hs, hc⟩ := mem_slashed h
  · decide
  · obtain ⟨hspace, -, hend⟩ := (E.isPath s hs).char hc
    exact ⟨hend, not_tab_of_not_space hspace⟩

theorem scheme_chars : ∀ c ∈ E.scheme, c ≠ ':' ∧ isSpace c = false := by
  have hall : ∀ s ∈ ["http", "https"].map String.toList, s.all (fun c => c != ':' && !isSpace c) = true := by decide +kernel
  intro c hc
  simpa using List.all_eq_true.mp (hall _ E.isHttp) c hc

theorem scheme_ne : E.scheme ≠ [] := by
  have hall : ∀ s ∈ ["http", "https"].map String.toList, s ≠ [] := by decide +kernel
  exact hall _ E.isHttp

theorem mem_origin {c : Char} (h : c ∈ E.origin) : isTabOrNewline c = false := by
  have hcases : c ∈ E.scheme ∨ c = ':' ∨ c = '/' ∨ c = '/' ∨ c ∈ E.host := by simpa [EndpointUrl.origin] using h
  obtain h | rfl | rfl | rfl | h := hcases
  · exact not_tab_of_not_space (scheme_chars c h).2
  · decide
  · decide
  · decide
  · exact not_tab_of_not_space (E.isHost c h).1

theorem trunk_last : ∃ c, (E.origin ++ slashed E.path).getLast? = some c ∧ c ≠ '/' := by
  have hlast : ∀ s : List Char, s ≠ [] → (∀ c ∈ s, isSlash c = false) → ∃ c, s.getLast? = some c ∧ c ≠ '/' := by
    intro s hs hslash
    refine ⟨s.getLast hs, List.getLast?_eq_some_getLast hs, ?_⟩
    rintro heq
    have hno := hslash _ (List.getLast_mem hs)
    rw [heq] at hno
    cases hno
  rcases List.eq_nil_or_concat E.path with hpath | ⟨init, s, hpath⟩
  · obtain ⟨c, hc, hne⟩ := hlast E.host E.hasHost fun c hc => (E.isHost c hc).2.1
    refine ⟨c, ?_, hne⟩
    rw [hpath, EndpointUrl.origin]
    simp [slashed, List.getLast?_append, List.getLast?_cons, hc]
  · have hs := E.isPath s (by rw [hpath]; simp)
    obtain ⟨c, hc, hne⟩ := hlast s hs.nonempty fun c hc => (hs.plain c hc).2
    refine ⟨c, ?_, hne⟩
    rw [hpath]
    simp [slashed, List.getLast?_append, List.getLast?_cons, hc]

theorem dropSlash_text : dropSlash E.text = E.origin ++ slashed E.path := by
  obtain ⟨c, hc, hne⟩ := trunk_last (E := E)
  unfold EndpointUrl.text
  by_cases hslash : E.slash = true
  · rw [if_pos hslash]
    simp [dropSlash]
  · rw [if_neg hslash, List.append_nil, dropSlash]
    rw [List.getLast?_eq_head?_reverse] at hc
    split
    · rename_i rest hrev
      rw [hrev, List.head?_cons, Option.some.injEq] at hc
      exact absurd hc.symm hne
    · rfl

theorem clean_buildUrl (x : List Char) : clean (E.origin ++ slashed E.path ++ '/' :: x) =
    E.origin ++ slashed E.path ++ '/' :: ((x.reverse.dropWhile isSpace).reverse).filter fun c => !isTabOrNewline c := by
  have hhead : (E.origin ++ slashed E.path ++ '/' :: x).dropWhile isSpace = E.origin ++ slashed E.path ++ '/' :: x := by
    cases hs : E.scheme with
    | nil => exact absurd hs scheme_ne
    | cons c scheme =>
      have hc := (scheme_chars (E := E) c (by rw [hs]; exact List.mem_cons_self)).2
      simp [EndpointUrl.origin, hs, hc]
  have htail : ((E.origin ++ slashed E.path ++ '/' :: x).reverse.dropWhile isSpace).reverse =
      E.origin ++ slashed E.path ++ '/' :: (x.reverse.dropWhile isSpace).reverse := by
    have hslash : isSpace '/' = false := by decide
    simp [List.dropWhile_append, hslash]
  have hfilter : (E.origin ++ slashed E.path).filter (fun c => !isTabOrNewline c) = E.origin ++ slashed E.path := by
    refine List.filter_eq_self.mpr fun c hc => ?_
    obtain hc | hc := List.mem_append.mp hc
    · simp [mem_origin hc]
    · simp [(mem_path hc).2]
  rw [clean, hhead, htail, List.filter_append, hfilter, List.filter_cons_of_pos (by decide)]

theorem afterAuthority_front (y : List Char) :
    afterAuthority (E.origin ++ y) = y.dropWhile fun c => !(isSlash c || endsPath c) := by
  have hscheme : (E.origin ++ y).dropWhile (· != ':') = ':' :: '/' :: '/' :: (E.host ++ y) := by
    rw [EndpointUrl.origin, List.append_assoc, List.dropWhile_append_of_pos]
    · simp
    · exact fun c hc => by simpa using (scheme_chars c hc).1
  rw [afterAuthority, hscheme, List.drop_one, List.tail_cons, List.dropWhile_cons_of_pos (by decide),
    List.dropWhile_cons_of_pos (by decide)]
  cases hhost : E.host with
  | nil => exact absurd hhost E.hasHost
  | cons c host =>
    have hchars : ∀ d ∈ c :: host, isSlash d = false ∧ endsPath d = false := fun d hd => (E.isHost d (hhost ▸ hd)).2
    rw [List.cons_append, List.dropWhile_cons_of_neg (by simp [(hchars c List.mem_cons_self).1]), ← List.cons_append,
      List.dropWhile_append_of_pos fun d hd => by simp [hchars d hd]]

theorem afterAuthority_origin (y : List Char) : afterAuthority (E.origin ++ slashed E.path ++ '/' :: y) =
    slashed E.path ++ '/' :: y := by
  have hrest : ∃ rest, slashed E.path ++ '/' :: y = '/' :: rest := by
    cases E.path with
    | nil => exact ⟨_, rfl⟩
    | cons s path => exact ⟨_, rfl⟩
  obtain ⟨rest, hrest⟩ := hrest
  rw [List.append_assoc, afterAuthority_front, hrest, List.dropWhile_cons_of_neg (by decide)]

theorem splitOnP_slashed {path : List (List Char)} (h : ∀ s ∈ path, ∀ c ∈ s, isSlash c = false) (y : List Char) :
    (slashed path ++ '/' :: y).splitOnP isSlash = [] :: (path ++ y.splitOnP isSlash) := by
  induction path with
  | nil => exact splitOnP_cons_slash rfl y
  | cons s path ih =>
    have hrest := ih fun t ht => h t (List.mem_cons_of_mem s ht)
    have hs : s.splitOnP isSlash = [s] := List.splitOnP_eq_singleton (h s List.mem_cons_self)
    have hhead : ∃ rest, slashed path ++ '/' :: y = '/' :: rest := by
      cases path with
      | nil => exact ⟨_, rfl⟩
      | cons t path => exact ⟨_, rfl⟩
    obtain ⟨rest, hhead⟩ := hhead
    rw [hhead, splitOnP_cons_slash rfl, List.cons.injEq] at hrest
    have hcons : slashed (s :: path) ++ '/' :: y = '/' :: (s ++ '/' :: rest) := by
      rw [slashed_cons, List.cons_append, List.append_assoc, hhead]
    rw [hcons, splitOnP_cons_slash rfl, List.splitOnP_append_cons _ _ rfl, hs, hrest.2]
    rfl

theorem pathOf_origin (x : List Char) :
    pathOf (E.origin ++ slashed E.path ++ '/' :: x) = readPath E.path ((heard x).splitOnP isSlash) := by
  have hcut : (slashed E.path ++ '/' :: ((x.reverse.dropWhile isSpace).reverse).filter fun c => !isTabOrNewline c).takeWhile
      (fun c => !endsPath c) = slashed E.path ++ '/' :: heard x := by
    rw [List.takeWhile_append_of_pos fun c hc => by simp [(mem_path hc).1], List.takeWhile_cons_of_pos (by decide)]
    rfl
  have hslashless : ∀ s ∈ E.path, ∀ c ∈ s, isSlash c = false := fun s hs c hc => ((E.isPath s hs).plain c hc).2
  have hsplit := splitOnP_slashed hslashless (heard x)
  have hread : readPath [] (E.path ++ (heard x).splitOnP isSlash) = readPath E.path ((heard x).splitOnP isSlash) := by
    have hself : E.path.map (percentEncode pathSet) = E.path.map id :=
      List.map_congr_left fun s hs => percentEncode_id fun c hc => ((E.isPath s hs).plain c hc).1
    rw [readPath_append (fun s hs => (E.isPath s hs).notDots) (List.splitOnP_ne_nil _ _), List.nil_append, hself, List.map_id]
  have hhead : ∃ rest, slashed E.path ++ '/' :: heard x = '/' :: rest := by
    cases E.path with
    | nil => exact ⟨_, rfl⟩
    | cons s path => exact ⟨_, rfl⟩
  obtain ⟨rest, hhead⟩ := hhead
  rw [hhead, splitOnP_cons_slash rfl, List.cons.injEq] at hsplit
  unfold pathOf
  rw [clean_buildUrl, afterAuthority_origin, hcut, hhead]
  change readPath [] (rest.splitOnP isSlash) = _
  rw [hsplit.2, hread]

end Parse

section Relative

variable {E : EndpointUrl} {S : Spelling}

/-- A resource as one run of bytes, a slash before each segment. -/
def wire (resource : List Bytes) : Bytes := resource.flatMap (47 :: ·)

theorem decode_reported (resource : List Bytes) :
    wellEscaped (reported S resource) = true ∧ percentDecode (reported S resource) = wire resource := by
  induction resource with
  | nil => exact ⟨rfl, rfl⟩
  | cons s rest ih =>
    have hcons : reported S (s :: rest) = '/' :: (S.spell s ++ reported S rest) := rfl
    rw [hcons, wellEscaped_cons (by decide), Spelling.wellEscaped, percentDecode_cons fun h => absurd h (by decide),
      Spelling.decode, ih.2]
    exact ⟨ih.1, rfl⟩

theorem wire_length (path : List (List Char)) : (wire (path.map percentDecode)).length = decodedSize path := by
  induction path with
  | nil => rfl
  | cons s path ih =>
    rw [List.map_cons, wire, List.flatMap_cons, ← wire, List.length_append, ih, List.length_cons]
    simp [decodedSize, Nat.add_comm]

theorem wire_plain {path : List (List Char)} (h : ∀ s ∈ path, hasEscape s = false) :
    wire (path.map percentDecode) = utf8 (slashed path) := by
  induction path with
  | nil => rfl
  | cons s path ih =>
    rw [List.map_cons, wire, List.flatMap_cons, ← wire, ih fun t ht => h t (List.mem_cons_of_mem s ht),
      percentDecode_of_plain (h s List.mem_cons_self), slashed_cons, utf8_cons, utf8_append]
    rfl

theorem dropSlashes_eq {s : List Char} (h : s.getLast? ≠ some '/') : dropSlashes s = s := by
  rw [List.getLast?_eq_head?_reverse] at h
  unfold dropSlashes
  cases hrev : s.reverse with
  | nil => simpa using hrev
  | cons c rest =>
    rw [hrev, List.head?_cons, ne_eq, Option.some.injEq] at h
    rw [List.dropWhile_cons_of_neg (by simpa using h), ← hrev, List.reverse_reverse]

theorem dropSlashes_slash {s : List Char} (h : s.getLast? ≠ some '/') : dropSlashes (s ++ ['/']) = s := by
  have hs := dropSlashes_eq h
  unfold dropSlashes at hs ⊢
  rw [List.reverse_append, List.reverse_singleton, List.singleton_append, List.dropWhile_cons_of_pos (by decide)]
  exact hs

theorem dropSlashes_sublist (s : List Char) : (dropSlashes s).Sublist s := rdropWhile_sublist _ s

theorem path_last : (slashed E.path).getLast? ≠ some '/' := by
  obtain ⟨c, hc, hne⟩ := trunk_last (E := E)
  intro hlast
  rw [List.getLast?_append, hlast, Option.some_or, Option.some.injEq] at hc
  exact hne hc.symm

theorem slashed_append (p q : List (List Char)) : slashed (p ++ q) = slashed p ++ slashed q := by
  simp [slashed]

theorem basePath_eq : dropSlashes (pathname (Writer.buildUrl E.text [])) = slashed E.path := by
  have hnil : Straight [] := ⟨by decide +kernel, by decide +kernel, rfl⟩
  have hpath : pathOf (Writer.buildUrl E.text []) = E.path ++ [[]] := by
    rw [Writer.buildUrl, dropSlash_text, List.dropWhile_nil, pathOf_origin]
    exact readPath_straight (fun s hs => (List.mem_singleton.mp hs) ▸ hnil) E.path
  rw [pathname, hpath, slashed_append]
  exact dropSlashes_slash path_last

theorem slashed_eq_nil {path : List (List Char)} : slashed path = [] ↔ path = [] := by
  cases path <;> simp [slashed]

theorem slashed_ne_slash : slashed E.path ≠ ['/'] := by
  intro h
  have hlast := path_last (E := E)
  rw [h] at hlast
  exact hlast rfl

theorem not_http {d : List Char} {resource : List Bytes} (h : utf8 d = wire resource) (s : String)
    (hs : s.toList.head? = some 'h') : s.toList.isPrefixOf d = false := by
  rw [← Bool.not_eq_true, List.isPrefixOf_iff_prefix]
  rintro ⟨rest, rfl⟩
  cases hl : s.toList with
  | nil =>
    rw [hl] at hs
    cases hs
  | cons c tail =>
    rw [hl, List.head?_cons, Option.some.injEq] at hs
    rw [hl, hs, List.cons_append, utf8_cons] at h
    cases resource with
    | nil => cases h
    | cons seg rest => cases h

theorem hrefRelativeTo_reported {resource : List Bytes} {d : List Char} (h : utf8 d = wire resource) :
    hrefRelativeTo (reported S resource) (Writer.buildUrl E.text []) =
      .ok (if E.path = [] then some ((dropSlashes d).dropWhile (· == '/'))
        else if dropSlashes d = slashed E.path then some []
        else if (slashed E.path ++ ['/']).isPrefixOf (dropSlashes d) then
          some ((dropSlashes d).drop ((slashed E.path).length + 1))
        else none) := by
  have hdecode : decodeHref (reported S resource) = .ok d := by
    obtain ⟨hwell, hbytes⟩ := decode_reported (S := S) resource
    rw [decodeHref, decodeURIComponent, if_pos hwell, hbytes, ← h, utf8Decode_utf8]
  have hbase : (slashed E.path = [] ∨ slashed E.path = ['/']) ↔ E.path = [] := by
    rw [slashed_eq_nil]
    exact or_iff_left slashed_ne_slash
  have hhttp : ("http://".toList.isPrefixOf d || "https://".toList.isPrefixOf d) = false := by
    rw [not_http h "http://" rfl, not_http h "https://" rfl]
    rfl
  simp only [hrefRelativeTo, hdecode, basePath_eq, hhttp, hbase, if_false, Bool.false_eq_true]

theorem dropSlashes_prefix (s : List Char) : dropSlashes s <+: s := by
  rw [← List.reverse_suffix, dropSlashes, List.reverse_reverse]
  exact List.dropWhile_suffix _

variable {x p : List Char}

theorem of_hrefRelativeTo {resource : List Bytes} (hp : p ≠ [])
    (h : hrefRelativeTo (reported S resource) (Writer.buildUrl E.text []) = .ok (some p)) :
    ∃ m, utf8 (slashed E.path ++ '/' :: m) = wire resource ∧ p.Sublist m := by
  obtain ⟨hwell, hbytes⟩ := decode_reported (S := S) resource
  cases hdecode : utf8Decode (wire resource) with
  | none =>
    have herror : decodeHref (reported S resource) = .error s!"Cannot decode DAV href: {String.ofList (reported S resource)}" := by
      rw [decodeHref, decodeURIComponent, if_pos hwell, hbytes, hdecode]
    simp only [hrefRelativeTo, herror] at h
    cases h
  | some d =>
    have hd := utf8Decode_eq_some hdecode
    rw [hrefRelativeTo_reported hd, Except.ok.injEq] at h
    obtain ⟨tail, htail⟩ := dropSlashes_prefix d
    by_cases hpath : E.path = []
    · rw [if_pos hpath, Option.some.injEq] at h
      cases hdrop : dropSlashes d with
      | nil =>
        rw [hdrop] at h
        exact absurd h.symm hp
      | cons c rest =>
        have hfirst : ∃ bytes, wire resource = String.utf8EncodeChar '/' ++ bytes := by
          cases resource with
          | nil =>
            have hnil : d = [] := utf8_injective hd
            rw [hnil] at hdrop
            cases hdrop
          | cons s rest => exact ⟨_, rfl⟩
        obtain ⟨bytes, hfirst⟩ := hfirst
        obtain ⟨m, rfl, -⟩ := utf8_eq_cons (hd.trans hfirst)
        rw [hdrop, List.cons_append, List.cons.injEq] at htail
        obtain ⟨rfl, rfl⟩ := htail
        rw [hdrop, List.dropWhile_cons_of_pos (by decide)] at h
        refine ⟨rest ++ tail, ?_, ?_⟩
        · rw [hpath]
          exact hd
        · rw [← h]
          exact (List.dropWhile_suffix _).sublist.trans (List.sublist_append_left _ _)
    rw [if_neg hpath] at h
    split at h
    · exact absurd (Option.some.inj h).symm hp
    split at h
    · rename_i hprefix
      obtain ⟨rest, hrest⟩ := List.isPrefixOf_iff_prefix.mp hprefix
      rw [← hrest, List.drop_append_of_le_length (by simp), List.drop_of_length_le (by simp), List.nil_append,
        Option.some.injEq] at h
      subst h
      refine ⟨rest ++ tail, ?_, List.sublist_append_left _ _⟩
      rw [← hd, ← htail, ← hrest]
      simp
    · cases h

/-- What a name is read back from: below a path without escapes, itself, but for its backslashes. -/
theorem of_readBack (hsize : size x ≤ size p) (hp : p ≠ [])
    (h : hrefRelativeTo (reported S ((readPath E.path ((heard x).splitOnP isSlash)).map percentDecode))
      (Writer.buildUrl E.text []) = .ok (some p)) :
    (∀ s ∈ E.path, hasEscape s = false) ∧ heard x = x ∧ (∀ s ∈ x.splitOnP isSlash, Straight s) ∧ p = slashes x := by
  obtain ⟨m, hm, hsub⟩ := of_hrefRelativeTo hp h
  have hlen := congrArg List.length hm
  change size (slashed E.path ++ '/' :: m) = _ at hlen
  rw [wire_length, size_append, size_cons, size_slashed] at hlen
  obtain ⟨hread, hstraight⟩ := readPath_size E.path ((heard x).splitOnP isSlash)
  rw [spanned_split] at hread hstraight
  obtain ⟨hheard, hheard_eq⟩ := size_le_of_sublist (heard_sublist x)
  obtain ⟨hbase, hbase_eq⟩ := decodedSize_le E.path
  obtain ⟨hpm, hpm_eq⟩ := size_le_of_sublist hsub
  have hslash : Char.utf8Size '/' = 1 := rfl
  have hplain := hbase_eq (by omega)
  have hx := hheard_eq (by omega)
  have hsegments := hstraight (by omega)
  rw [hx] at hsegments
  refine ⟨hplain, hx, hsegments, ?_⟩
  have hpath : (readPath E.path ((heard x).splitOnP isSlash)).map percentDecode =
      (E.path ++ x.splitOnP isSlash).map percentDecode := by
    rw [hx, readPath_straight hsegments, List.map_append, List.map_append, List.map_map]
    exact congrArg _ (List.map_congr_left fun s _ => percentDecode_encode pathSet_keepsEscapes s)
  have hall : ∀ s ∈ E.path ++ x.splitOnP isSlash, hasEscape s = false := by
    intro s hs
    obtain hs | hs := List.mem_append.mp hs
    · exact hplain s hs
    · exact (hsegments s hs).plain
  rw [hpath, wire_plain hall, slashed_append, slashed_split] at hm
  have hrest := List.append_cancel_left (utf8_injective hm)
  rw [List.cons.injEq] at hrest
  rw [← hrest.2]
  refine hpm_eq ?_
  rw [hrest.2, size_slashes]
  have hms : size m = size x := by rw [hrest.2, size_slashes]
  omega

/-- A name that a URL spells as it is. -/
structure Spelled (t : List Char) : Prop where
  clear : Clear t
  backslash : '\\' ∉ t
  plain : hasEscape t = false

/-- No segment of the text means a folder by its place. -/
def NoDots (t : List Char) : Prop := ∀ s ∈ t.splitOnP isSlash, s ≠ ['.'] ∧ s ≠ ['.', '.']

instance (t : List Char) : Decidable (NoDots t) :=
  inferInstanceAs (Decidable (∀ s ∈ t.splitOnP isSlash, s ≠ ['.'] ∧ s ≠ ['.', '.']))

theorem straight_of_plain {s : List Char} (hplain : hasEscape s = false) (h : s ≠ ['.'] ∧ s ≠ ['.', '.']) : Straight s := by
  have hsingle : ∀ t ∈ singleDots, hasEscape t = false → t = ['.'] := by decide +kernel
  have hdouble : ∀ t ∈ doubleDots, hasEscape t = false → t = ['.', '.'] := by decide +kernel
  exact ⟨fun hmem => h.2 (hdouble s hmem hplain), fun hmem => h.1 (hsingle s hmem hplain), hplain⟩

theorem dots_of_straight {s : List Char} (h : Straight s) : s ≠ ['.'] ∧ s ≠ ['.', '.'] := by
  constructor
  · rintro rfl
    exact h.notSingle (by decide +kernel)
  · rintro rfl
    exact h.notDouble (by decide +kernel)

theorem pathOf_plain (hx : Spelled x) (hdots : NoDots x) :
    pathOf (E.origin ++ slashed E.path ++ '/' :: x) = E.path ++ (x.splitOnP isSlash).map (percentEncode pathSet) := by
  have hsegments := (hasEscape_split x).mp hx.plain
  rw [pathOf_origin, (heard_eq_iff x).mpr hx.clear]
  exact readPath_straight (fun s hs => straight_of_plain (hsegments s hs) (hdots s hs)) E.path

theorem requested_plain (hx : Spelled x) (hdots : NoDots x) :
    requested (E.origin ++ slashed E.path ++ '/' :: x) = (E.path ++ x.splitOnP isSlash).map percentDecode := by
  rw [requested, pathOf_plain hx hdots, List.map_append, List.map_append, List.map_map]
  exact congrArg _ (List.map_congr_left fun s _ => percentDecode_encode pathSet_keepsEscapes s)

theorem readBack_plain (hE : ∀ s ∈ E.path, hasEscape s = false) (hx : Spelled x) (hdots : NoDots x)
    (hends : ∃ c, x.getLast? = some c ∧ c ≠ '/') (hhead : x.head? ≠ some '/') :
    hrefRelativeTo (reported S (requested (E.origin ++ slashed E.path ++ '/' :: x))) (Writer.buildUrl E.text []) =
      .ok (some x) := by
  obtain ⟨c, hlast, hc⟩ := hends
  have hall : ∀ s ∈ E.path ++ x.splitOnP isSlash, hasEscape s = false := by
    intro s hs
    obtain hs | hs := List.mem_append.mp hs
    · exact hE s hs
    · exact (hasEscape_split x).mp hx.plain s hs
  have hwire : utf8 (slashed E.path ++ '/' :: x) = wire ((E.path ++ x.splitOnP isSlash).map percentDecode) := by
    rw [wire_plain hall, slashed_append, slashed_split, slashes_eq hx.backslash]
  have hdrop : dropSlashes (slashed E.path ++ '/' :: x) = slashed E.path ++ '/' :: x := by
    refine dropSlashes_eq fun hend => hc ?_
    rw [List.getLast?_append, List.getLast?_cons, hlast] at hend
    simpa using hend
  rw [requested_plain hx hdots, hrefRelativeTo_reported hwire, hdrop]
  by_cases hpath : E.path = []
  · rw [if_pos hpath, hpath]
    change Except.ok (some (('/' :: x).dropWhile (· == '/'))) = _
    rw [List.dropWhile_cons_of_pos (by decide)]
    cases x with
    | nil => rfl
    | cons d rest => rw [List.dropWhile_cons_of_neg (by simpa using hhead)]
  · have hne : slashed E.path ++ '/' :: x ≠ slashed E.path := by simp
    have hprefix : (slashed E.path ++ ['/']).isPrefixOf (slashed E.path ++ '/' :: x) = true := by
      rw [List.isPrefixOf_iff_prefix]
      exact ⟨x, by simp⟩
    have hrest : (slashed E.path ++ '/' :: x).drop ((slashed E.path).length + 1) = x := by simp
    rw [if_neg hpath, if_neg hne, if_pos hprefix, hrest]

/-- A name is read back just where every part of its URL is spelled as it is. -/
theorem readBack_iff (hhead : x.head? ≠ some '/') (hends : ∃ c, x.getLast? = some c ∧ c ≠ '/') :
    hrefRelativeTo (reported S (requested (E.origin ++ slashed E.path ++ '/' :: x))) (Writer.buildUrl E.text []) =
      .ok (some x) ↔ (∀ s ∈ E.path, hasEscape s = false) ∧ Spelled x ∧ NoDots x := by
  constructor
  · intro h
    have hne : x ≠ [] := by
      rintro rfl
      obtain ⟨c, hc, -⟩ := hends
      cases hc
    rw [requested, pathOf_origin] at h
    obtain ⟨hE, hheard, hsegments, hx⟩ := of_readBack le_rfl hne h
    refine ⟨hE, ⟨(heard_eq_iff x).mp hheard, ?_, (hasEscape_split x).mpr fun s hs => (hsegments s hs).plain⟩,
      fun s hs => dots_of_straight (hsegments s hs)⟩
    rw [hx]
    exact not_mem_slashes x
  · rintro ⟨hE, hx, hdots⟩
    exact readBack_plain hE hx hdots hends hhead

end Relative

end OpenMigrate.Dav
