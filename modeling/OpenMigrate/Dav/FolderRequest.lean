import OpenMigrate.Dav.SpelledPaths

namespace OpenMigrate.Dav.Relisting

open Url

section Config

variable (R : Root)

theorem Root.path_url : ∀ s ∈ R.path, IsUrlSegment s := by
  intro s hs
  rcases List.mem_append.mp hs with hs | hs
  · exact R.endpoint.isPath s hs
  · exact R.isUnder s hs

theorem Root.path_segments : ∀ s ∈ R.path, IsSegment s :=
  fun s hs => ⟨(R.path_url s hs).nonempty, (R.path_url s hs).plain⟩

/-- The URL of the configured root. -/
def Root.whole : EndpointUrl := { R.endpoint with path := R.path, isPath := R.path_url }

theorem Root.whole_origin : R.whole.origin = R.endpoint.origin := rfl

theorem Root.buildUrl_some {p : List Char} (hp : p ≠ []) : buildUrl R.config p =
    R.endpoint.origin ++ slashed R.endpoint.path ++ '/' :: if p.head? = some '/' then p.tail else p := by
  have htext : (if R.config.url.getLast? = some '/' then R.config.url else R.config.url ++ ['/']) =
      R.endpoint.origin ++ slashed R.endpoint.path ++ ['/'] := by
    obtain ⟨c, hlast, hc⟩ := trunk_last (E := R.endpoint)
    change (if R.endpoint.text.getLast? = some '/' then R.endpoint.text else R.endpoint.text ++ ['/']) = _
    rw [EndpointUrl.text]
    cases R.endpoint.slash with
    | true =>
      rw [if_pos (by simp)]
      rfl
    | false =>
      have hplain : (R.endpoint.origin ++ slashed R.endpoint.path ++ if false = true then ['/'] else []) =
          R.endpoint.origin ++ slashed R.endpoint.path := by simp
      rw [hplain, hlast, if_neg]
      exact fun h => hc (Option.some.inj h)
  rw [buildUrl, if_neg hp, htext, List.append_assoc]
  rfl

theorem Root.buildUrl_nil : buildUrl R.config [] = R.endpoint.origin ++ slashed R.endpoint.path := by
  obtain ⟨c, hlast, hc⟩ := trunk_last (E := R.endpoint)
  rw [buildUrl, if_pos rfl]
  change (if R.endpoint.text.getLast? = some '/' then R.endpoint.text.dropLast else R.endpoint.text) = _
  rw [EndpointUrl.text]
  cases R.endpoint.slash with
  | true =>
    rw [if_pos (by simp), if_pos rfl, List.dropLast_concat]
  | false =>
    have hplain : (R.endpoint.origin ++ slashed R.endpoint.path ++ if false = true then ['/'] else []) =
        R.endpoint.origin ++ slashed R.endpoint.path := by simp
    rw [hplain, hlast, if_neg]
    exact fun h => hc (Option.some.inj h)

theorem under_ends (hne : R.under ≠ []) : (∃ c, (joinPath R.under).head? = some c ∧ c ≠ '/') ∧
    ∃ c, (joinPath R.under).getLast? = some c ∧ c ≠ '/' :=
  joinPath_ends hne fun s hs =>
    ⟨(R.isUnder s hs).nonempty, fun hc => (plain_char ((R.isUnder s hs).plain _ hc)).1 rfl⟩

theorem Root.path_join (hne : R.under ≠ []) : slashed R.path = slashed R.endpoint.path ++ '/' :: joinPath R.under := by
  rw [Root.path, slashed_append, slashed_join hne]

theorem Root.rootPath_trimmed : R.under = [] ∧ (R.rootPath.getD []).rdropWhile (· == '/') = [] ∨
    R.under ≠ [] ∧ ∃ lead : Bool, (R.rootPath.getD []).rdropWhile (· == '/') =
      (if lead then ['/'] else []) ++ joinPath R.under := by
  rcases R.isRoot with ⟨hnil, hroot | hroot | hroot⟩ | ⟨hne, lead, trail, hroot⟩
  · exact .inl ⟨hnil, by rw [hroot]; rfl⟩
  · exact .inl ⟨hnil, by rw [hroot]; rfl⟩
  · exact .inl ⟨hnil, by rw [hroot]; rfl⟩
  · obtain ⟨-, c, hlast, hc⟩ := under_ends R hne
    have hend : ((if lead then ['/'] else []) ++ joinPath R.under).getLast? = some c := by
      have hjoin : joinPath R.under ≠ [] := by
        intro h
        rw [h] at hlast
        cases hlast
      rw [List.getLast?_append_of_ne_nil _ hjoin, hlast]
    have hkeep : ((if lead then ['/'] else []) ++ joinPath R.under).rdropWhile (· == '/') =
        (if lead then ['/'] else []) ++ joinPath R.under := by
      apply List.rdropWhile_eq_self_iff.mpr
      intro hl
      rw [List.getLast?_eq_some_getLast hl] at hend
      rw [Option.some.inj hend]
      simpa using hc
    refine .inr ⟨hne, lead, ?_⟩
    rw [hroot]
    cases trail with
    | false =>
      simpa using hkeep
    | true =>
      rw [if_pos rfl, Option.getD_some, List.rdropWhile_concat_pos _ _ _ (by simp)]
      exact hkeep

theorem Root.buildUrl_under (hne : R.under ≠ []) (lead : Bool) (rest : List Char) :
    buildUrl R.config ((if lead then ['/'] else []) ++ joinPath R.under ++ rest) =
      R.endpoint.origin ++ slashed R.path ++ rest := by
  obtain ⟨⟨c, hhead, hc⟩, -⟩ := under_ends R hne
  obtain ⟨tail, hjoin⟩ : ∃ tail, joinPath R.under = c :: tail := List.head?_eq_some_iff.mp hhead
  rw [R.path_join hne, hjoin]
  cases lead with
  | true =>
    rw [R.buildUrl_some (by simp)]
    simp
  | false =>
    rw [R.buildUrl_some (by simp)]
    simp [hc]

theorem Root.buildUrl_root : ∃ slash : Bool, buildUrl R.config (R.rootPath.getD []) =
    R.endpoint.origin ++ slashed R.path ++ if slash then ['/'] else [] := by
  rcases R.isRoot with ⟨hnil, hroot⟩ | ⟨hne, lead, trail, hroot⟩
  · have hpath : R.path = R.endpoint.path := by rw [Root.path, hnil, List.append_nil]
    rw [hpath]
    rcases hroot with hroot | hroot | hroot
    · refine ⟨false, ?_⟩
      rw [hroot, Option.getD_none, R.buildUrl_nil]
      simp
    · refine ⟨false, ?_⟩
      rw [hroot, Option.getD_some, R.buildUrl_nil]
      simp
    · refine ⟨true, ?_⟩
      rw [hroot, Option.getD_some, R.buildUrl_some (by simp)]
      rfl
  · refine ⟨trail, ?_⟩
    rw [hroot, Option.getD_some, R.buildUrl_under hne]

theorem Root.pathOf_root (slash : Bool) : pathOf (R.endpoint.origin ++ slashed R.path ++ if slash then ['/'] else []) =
    if slash ∨ R.path = [] then R.path ++ [[]] else R.path := by
  cases slash with
  | true =>
    have hnil : NotDots [] := by
      constructor
      · decide
      · decide
    rw [if_pos rfl, if_pos (.inl rfl)]
    change pathOf (R.whole.origin ++ slashed R.whole.path ++ '/' :: []) = _
    rw [pathOf_origin]
    exact readPath_notDots (by simp) (fun s hs => by
      rw [List.mem_singleton.mp hs]
      exact hnil) _
  | false =>
    have hplain : (R.endpoint.origin ++ slashed R.path ++ if false = true then ['/'] else []) =
        R.endpoint.origin ++ slashed R.path := by simp
    rw [hplain]
    by_cases hne : R.path = []
    · rw [hne, if_pos (.inr rfl), List.nil_append]
      change pathOf (R.endpoint.origin ++ []) = _
      rw [List.append_nil, pathOf_bare]
    · have hread := pathOf_segments (E := R.endpoint) R.path_segments fun s hs => (R.path_url s hs).notDots
      rw [pathText, if_neg hne, if_neg hne] at hread
      rw [hread, if_neg (by simpa using hne)]

theorem Root.basePathname_eq : basePathname platform R.config = slashed R.path ++ ['/'] := by
  obtain ⟨slash, hbuild⟩ := R.buildUrl_root
  have hread : platform.pathname (buildUrl R.config (R.config.rootPath.getD [])) =
      slashed (if slash ∨ R.path = [] then R.path ++ [[]] else R.path) := by
    change pathname (buildUrl R.config (R.rootPath.getD [])) = _
    rw [hbuild, pathname, R.pathOf_root]
  have hend : slashed (R.path ++ [[]]) = slashed R.path ++ ['/'] := by rw [slashed_append]; rfl
  unfold basePathname
  simp only [hread]
  by_cases hslash : slash = true ∨ R.path = []
  · rw [if_pos hslash, hend, if_pos (by simp)]
  · rw [if_neg hslash, if_neg]
    exact path_last (E := R.whole)

theorem Root.requestUrl_some {folderPath rel : List Char} (hrel : (normalizePath folderPath).dropWhile (· == '/') = rel)
    (hne : rel ≠ []) : requestUrl R.config folderPath = R.endpoint.origin ++ slashed R.path ++ '/' :: rel := by
  rw [requestUrl, combineWithRootPath]
  simp only [hrel, hne, if_false]
  change buildUrl R.config (if (R.rootPath.getD []).rdropWhile (· == '/') = [] then '/' :: rel
    else (R.rootPath.getD []).rdropWhile (· == '/') ++ '/' :: rel) = _
  rcases R.rootPath_trimmed with ⟨hnil, htrim⟩ | ⟨hunder, lead, htrim⟩
  · rw [htrim, if_pos rfl, R.buildUrl_some (by simp), Root.path, hnil, List.append_nil]
    rfl
  · have hsome : (if lead then ['/'] else []) ++ joinPath R.under ≠ [] := by
      obtain ⟨⟨c, hhead, -⟩, -⟩ := under_ends R hunder
      intro h
      rw [(List.append_eq_nil_iff.mp h).2] at hhead
      cases hhead
    rw [htrim, if_neg hsome, R.buildUrl_under hunder]

theorem Root.requestUrl_root {folderPath : List Char} (hrel : (normalizePath folderPath).dropWhile (· == '/') = []) :
    ∃ slash : Bool, requestUrl R.config folderPath =
      R.endpoint.origin ++ slashed R.path ++ if slash then ['/'] else [] := by
  rw [requestUrl, combineWithRootPath]
  simp only [hrel, if_true]
  change ∃ slash : Bool, buildUrl R.config (if (R.rootPath.getD []).rdropWhile (· == '/') = [] then ['/']
    else (R.rootPath.getD []).rdropWhile (· == '/')) = _
  rcases R.rootPath_trimmed with ⟨hnil, htrim⟩ | ⟨hunder, lead, htrim⟩
  · refine ⟨true, ?_⟩
    rw [htrim, if_pos rfl, R.buildUrl_some (by simp), Root.path, hnil, List.append_nil]
    rfl
  · have hsome : (if lead then ['/'] else []) ++ joinPath R.under ≠ [] := by
      obtain ⟨⟨c, hhead, -⟩, -⟩ := under_ends R hunder
      intro h
      rw [(List.append_eq_nil_iff.mp h).2] at hhead
      cases hhead
    have hbuild := R.buildUrl_under hunder lead []
    rw [List.append_nil, List.append_nil] at hbuild
    refine ⟨false, ?_⟩
    rw [htrim, if_neg hsome, hbuild]
    simp

end Config

section Request

variable (R : Root) {names : NamePath}

theorem collapse_sublist (l : List Char) : (collapse l).Sublist l := by
  fun_induction collapse l with
  | case1 rest ih => exact ih.cons _
  | case2 c rest hne ih => exact ih.cons_cons c
  | case3 => exact .slnil

theorem slashes_conv (l : List Char) : (l.map fun c => if c = '\\' then '/' else c) = slashes l := by
  apply List.map_congr_left
  intro c _
  by_cases hc : c = '/'
  · subst hc
    decide
  · simp [isSlash, hc]

theorem relative_sublist (x : List Char) : ((normalizePath x).dropWhile (· == '/')).Sublist (slashes x) := by
  have hfull : (normalizePath x).Sublist ('/' :: slashes x) := by
    have hrooted : ∀ l : List Char, (if l.head? = some '/' then l else '/' :: l).Sublist ('/' :: l) := by
      intro l
      split
      · exact List.sublist_cons_self _ _
      · exact List.Sublist.refl _
    have hmore := (hrooted (collapse (slashes x))).trans ((collapse_sublist (slashes x)).cons_cons '/')
    have hdrop : ∀ l : List Char, (if l ≠ ['/'] ∧ l.getLast? = some '/' then l.dropLast else l).Sublist l := by
      intro l
      split
      · exact List.dropLast_sublist l
      · exact List.Sublist.refl l
    rw [normalizePath, slashes_conv]
    exact (hdrop _).trans hmore
  obtain ⟨tail, hnormal⟩ := List.head?_eq_some_iff.mp (normalizePath_head x)
  rw [hnormal] at hfull ⊢
  rw [List.dropWhile_cons_of_pos (by simp)]
  exact (List.dropWhile_sublist _).trans (List.cons_sublist_cons.mp hfull)

theorem Root.decoded : R.path.map percentDecode = R.names.map utf8 := by
  have hspelled := R.spelled
  rw [← Root.path] at hspelled
  generalize R.path = path at hspelled
  generalize R.names = names at hspelled
  induction hspelled with
  | nil => rfl
  | cons hs _ ih => rw [List.map_cons, List.map_cons, hs.decodes, ih]

theorem utf8_ne_nil {name : List Char} (h : name ≠ []) : utf8 name ≠ [] := fun hnil => h (utf8_injective (t := []) hnil)

theorem denoted_of_requested {url : List Char} {resource : NamePath} (hnames : ∀ name ∈ resource, name ≠ [])
    (h : requested url = resource.map utf8 ∨ requested url = resource.map utf8 ++ [[]]) :
    denoted url = resource.map utf8 := by
  rw [denoted]
  rcases h with h | h
  · rw [if_neg]
    · exact h
    · intro hlast
      rw [h] at hlast
      obtain ⟨name, hname, hnil⟩ := List.mem_map.mp (List.mem_of_getLast? hlast)
      exact utf8_ne_nil (hnames name hname) hnil
  · rw [h, if_pos (by simp), List.dropLast_concat]

theorem Root.denoted_root {folderPath : List Char} (hrel : (normalizePath folderPath).dropWhile (· == '/') = []) :
    denoted (requestUrl R.config folderPath) = R.names.map utf8 := by
  obtain ⟨slash, hurl⟩ := R.requestUrl_root hrel
  apply denoted_of_requested fun name hname => (R.isNames name hname).1.1
  rw [hurl, requested, R.pathOf_root, ← R.decoded]
  split
  · rw [List.map_append]
    exact .inr rfl
  · exact .inl rfl

theorem wire_names (names : NamePath) : (wire (names.map utf8)).length = spanned names := by
  induction names with
  | nil => rfl
  | cons name names ih =>
    rw [List.map_cons, wire, List.flatMap_cons, ← wire, List.length_append, ih, spanned_cons, List.length_cons, size]
    omega

theorem size_join (hne : names ≠ []) : spanned names = 1 + size (joinPath names) := by
  have hslash : Char.utf8Size '/' = 1 := rfl
  rw [← size_slashed, slashed_join hne, size_cons, hslash]

/-- A request names the folder only if nothing of its path is read otherwise than it stands. -/
theorem Root.of_requested (hne : names ≠ []) {rel : List Char}
    (hsub : rel.Sublist (slashes (joinPath names))) {more : List Bytes}
    (h : requested (R.endpoint.origin ++ slashed R.path ++ '/' :: rel) = (R.names ++ names).map utf8 ++ more) :
    rel = joinPath names ∧ Spelled (joinPath names) ∧ NoDots (joinPath names) := by
  have hread : pathOf (R.endpoint.origin ++ slashed R.path ++ '/' :: rel) =
      readPath R.path ((heard rel).splitOnP isSlash) := pathOf_origin (E := R.whole) rel
  have hlen := congrArg (fun q => (wire q).length) h
  have hwire : (wire ((R.names ++ names).map utf8 ++ more)).length =
      decodedSize R.path + spanned names + (wire more).length := by
    rw [List.map_append, ← R.decoded, wire, List.flatMap_append, List.flatMap_append, ← wire, ← wire, ← wire,
      List.length_append, List.length_append, wire_length, wire_names]
  simp only [requested, wire_length, hread] at hlen
  rw [hwire, size_join hne] at hlen
  obtain ⟨hle, hstraight⟩ := readPath_size R.path ((heard rel).splitOnP isSlash)
  rw [spanned_split] at hle hstraight
  obtain ⟨hheard, hheard_eq⟩ := size_le_of_sublist (heard_sublist rel)
  obtain ⟨hrel, -⟩ := size_le_of_sublist hsub
  rw [size_slashes] at hrel
  have hself := hheard_eq (by omega)
  have hsegments := hstraight (by omega)
  have hmore : more = [] := by
    cases more with
    | nil => rfl
    | cons s more =>
      have hpos : 0 < (wire (s :: more)).length := by simp [wire]
      omega
  rw [hself] at hread hsegments
  have hsplit : rel.splitOnP isSlash = names := by
    have hsame : (R.path ++ rel.splitOnP isSlash).map percentDecode = (R.names ++ names).map utf8 := by
      rw [requested, hread, readPath_straight hsegments, hmore, List.append_nil] at h
      rw [← h, List.map_append, List.map_append, List.map_map]
      exact congrArg _ (List.map_congr_left fun s _ => (percentDecode_encode pathSet_keepsEscapes s).symm)
    rw [List.map_append, List.map_append, R.decoded] at hsame
    have hplain : (rel.splitOnP isSlash).map percentDecode = (rel.splitOnP isSlash).map utf8 :=
      List.map_congr_left fun s hs => percentDecode_of_plain (hsegments s hs).plain
    rw [List.append_cancel_left_eq, hplain] at hsame
    exact List.map_injective_iff.mpr (fun _ _ => utf8_injective) hsame
  have hback : '\\' ∉ rel := fun hmem => not_mem_slashes _ (hsub.subset hmem)
  have hjoin : rel = joinPath names := by
    have htext := slashed_split rel
    rw [hsplit, slashed_join hne, slashes_eq hback, List.cons.injEq] at htext
    exact htext.2.symm
  subst hjoin
  refine ⟨rfl, ⟨(heard_eq_iff _).mp hself, hback, ?_⟩, fun s hs => dots_of_straight (hsegments s hs)⟩
  exact (hasEscape_split _).mpr fun s hs => (hsegments s hs).plain

theorem spelled_nil : Spelled [] ∧ NoDots [] := by
  refine ⟨⟨⟨by simp, by simp⟩, by simp, rfl⟩, ?_⟩
  decide

theorem Root.request_iff (hnames : ∀ name ∈ names, IsName name) :
    denoted (requestUrl R.config (joinPath names)) = (R.names ++ names).map utf8 ↔
      Spelled (joinPath names) ∧ NoDots (joinPath names) := by
  by_cases hne : names = []
  · subst hne
    rw [List.append_nil]
    exact iff_of_true (R.denoted_root (by decide)) spelled_nil
  have hresource : ∀ name ∈ R.names ++ names, name ≠ [] := by
    intro name hname
    rcases List.mem_append.mp hname with hname | hname
    · exact (R.isNames name hname).1.1
    · exact (hnames name hname).1
  constructor
  · intro h
    by_cases hrel : (normalizePath (joinPath names)).dropWhile (· == '/') = []
    · rw [R.denoted_root hrel] at h
      have hlen := congrArg List.length h
      simp only [List.length_map, List.length_append] at hlen
      have hpos := List.length_pos_of_ne_nil hne
      omega
    · rw [R.requestUrl_some rfl hrel, denoted] at h
      have hsub := relative_sublist (joinPath names)
      split at h
      · rename_i hlast
        obtain ⟨front, hfront⟩ := List.getLast?_eq_some_iff.mp hlast
        rw [hfront, List.dropLast_concat] at h
        rw [h] at hfront
        exact (R.of_requested hne hsub hfront).2
      · exact (R.of_requested hne hsub (by rw [h, List.append_nil])).2
  · rintro ⟨hspelled, hdots⟩
    obtain ⟨⟨c, hhead, hc⟩, d, hlast, hd⟩ := joinPath_ends hne hnames
    have hnormal : normalizePath (joinPath names) = '/' :: joinPath names := by
      have hsingle := joinPath_single hnames
      have hrooted : ¬ (joinPath names).head? = some '/' := by
        rw [hhead]
        exact fun h => hc (Option.some.inj h)
      have hend : ¬ ('/' :: joinPath names).getLast? = some '/' := by
        rw [List.getLast?_cons, hlast]
        exact fun h => hd (Option.some.inj h)
      simp only [normalizePath, map_slashes hspelled.backslash, collapse_eq hsingle, hrooted, if_false, hend, and_false]
    have hrel : (normalizePath (joinPath names)).dropWhile (· == '/') = joinPath names := by
      rw [hnormal, List.dropWhile_cons_of_pos (by simp)]
      obtain ⟨tail, htail⟩ := List.head?_eq_some_iff.mp hhead
      rw [htail, List.dropWhile_cons_of_neg (by simpa using hc)]
    have hsome : joinPath names ≠ [] := by
      intro h
      rw [h] at hhead
      cases hhead
    have hslashes : ∀ name ∈ names, ∀ c ∈ name, isSlash c = false := by
      intro name hname c hc
      have hin : c ∈ slashed names := List.mem_flatMap.mpr ⟨name, hname, List.mem_cons_of_mem _ hc⟩
      rw [slashed_join hne] at hin
      rw [isSlash, Bool.or_eq_false_iff, beq_eq_false_iff_ne, beq_eq_false_iff_ne]
      constructor
      · rintro rfl
        exact (hnames name hname).2 hc
      · rintro rfl
        rcases List.mem_cons.mp hin with h | h
        · cases h
        · exact hspelled.backslash h
    have hsplit := split_join hne hslashes
    have hplain : names.map percentDecode = names.map utf8 := by
      apply List.map_congr_left
      intro name hname
      exact percentDecode_of_plain ((hasEscape_split _).mp hspelled.plain name (hsplit.symm ▸ hname))
    apply denoted_of_requested hresource
    left
    rw [R.requestUrl_some hrel hsome]
    change requested (R.whole.origin ++ slashed R.whole.path ++ '/' :: joinPath names) = _
    rw [requested_plain hspelled hdots, hsplit, List.map_append, List.map_append, hplain]
    exact congrArg (· ++ _) R.decoded

end Request

end OpenMigrate.Dav.Relisting
