import OpenMigrate.Dav.FolderRequest

namespace OpenMigrate.Dav.Relisting

open Url

section Paths

variable {R : Root} {segs names : NamePath} {s name : List Char}

theorem Spells.notDots_iff (h : Spells s name) : NotDots s ↔ ¬ IsDots name := by
  have hname : ∀ t, utf8 name = utf8 t ↔ name = t := fun t => ⟨fun heq => utf8_injective heq, congrArg utf8⟩
  rw [Url.notDots_iff, h.decodes, IsDots, not_or, Ne, Ne, hname, hname]

theorem spells_self (hplain : ∀ c ∈ s, pathSet c = false ∧ isSlash c = false) (hpercent : '%' ∉ s) : Spells s s := by
  obtain ⟨hescaped, hdecodes⟩ := no_escape hpercent
  exact ⟨hplain, hescaped, hdecodes⟩

theorem forall₂_named (h : List.Forall₂ Spells segs names) (hnames : ∀ name ∈ names, IsName name) :
    ∀ s ∈ segs, ∃ name, Spells s name ∧ IsName name := by
  induction h with
  | nil => simp
  | cons hs _ ih =>
    rw [List.forall_mem_cons] at hnames ⊢
    exact ⟨⟨_, hs, hnames.1⟩, ih hnames.2⟩

theorem Resource.named (r : Resource R) : ∀ s ∈ r.segments, ∃ name, Spells s name ∧ IsName name := by
  intro s hs
  have hseg := r.isSegment s hs
  rw [Resource.segments] at hs
  rcases List.mem_append.mp hs with horigin | hs
  · cases ho : r.origin with
    | none => simp [ho] at horigin
    | some o =>
      have hcases : s = o.scheme ++ [':'] ∨ s = o.host := by simpa [ho] using horigin
      have hpercent : '%' ∉ s := by
        rcases hcases with rfl | rfl
        · have hboth : ∀ scheme ∈ ["http", "https"].map String.toList, '%' ∉ scheme ++ [':'] := by decide
          exact hboth o.scheme o.isHttp
        · exact o.plainHost
      exact ⟨s, spells_self hseg.plain hpercent, hseg.isName⟩
  · rcases List.mem_append.mp hs with hs | hs
    · exact forall₂_named r.spellsBase (fun name hname => (R.isNames name hname).1) s hs
    · exact forall₂_named r.spellsTail r.isNames s hs

/-- An empty segment, where a path ends in a slash. -/
def ending (slash : Bool) : NamePath := if slash then [[]] else []

theorem readPath_kept (hsegs : ∀ s ∈ segs, IsSegment s) {path : NamePath} (hpath : ∀ s ∈ path, NotDots s) :
    ∃ kept slash, readPath path segs = kept ++ ending slash ∧ ∀ s ∈ kept, (s ∈ path ∨ s ∈ segs) ∧ NotDots s := by
  have hadd : ∀ last path s, IsSegment s → (∀ t ∈ path, NotDots t) →
      ∃ kept slash, addSegment last path s = kept ++ ending slash ∧ (last = false → slash = false) ∧
        ∀ t ∈ kept, (t ∈ path ∨ t = s) ∧ NotDots t := by
    intro last path s hs hpath
    have hdrop : ∀ t ∈ path.dropLast, (t ∈ path ∨ t = s) ∧ NotDots t := fun t ht =>
      ⟨.inl (List.mem_of_mem_dropLast ht), hpath t (List.mem_of_mem_dropLast ht)⟩
    have hkeep : ∀ t ∈ path, (t ∈ path ∨ t = s) ∧ NotDots t := fun t ht => ⟨.inl ht, hpath t ht⟩
    by_cases hdouble : s ∈ doubleDots
    · refine ⟨path.dropLast, last, ?_, id, hdrop⟩
      rw [addSegment, if_pos hdouble]
      cases last with
      | true => rfl
      | false => simp [ending]
    by_cases hsingle : s ∈ singleDots
    · refine ⟨path, last, ?_, id, hkeep⟩
      rw [addSegment, if_neg hdouble, if_pos hsingle]
      cases last with
      | true => rfl
      | false => simp [ending]
    · refine ⟨path ++ [s], false, ?_, fun _ => rfl, ?_⟩
      · rw [addSegment, if_neg hdouble, if_neg hsingle, percentEncode_id fun c hc => (hs.plain c hc).1]
        simp [ending]
      · intro t ht
        rcases List.mem_append.mp ht with ht | ht
        · exact hkeep t ht
        · obtain rfl := List.mem_singleton.mp ht
          exact ⟨.inr rfl, hdouble, hsingle⟩
  induction path, segs using readPath.induct with
  | case1 path => exact ⟨path, false, by simp [readPath, ending], fun s hs => ⟨.inl hs, hpath s hs⟩⟩
  | case2 path s =>
    obtain ⟨kept, slash, hread, -, hkept⟩ := hadd true path s (hsegs s List.mem_cons_self) hpath
    exact ⟨kept, slash, hread, fun t ht => ⟨(hkept t ht).1.imp_right fun h => List.mem_singleton.mpr h, (hkept t ht).2⟩⟩
  | case3 path s s' rest ih =>
    obtain ⟨kept, slash, hread, hslash, hkept⟩ := hadd false path s (hsegs s List.mem_cons_self) hpath
    have hnone : addSegment false path s = kept := by
      rw [hread, hslash rfl]
      simp [ending]
    rw [hnone] at ih
    obtain ⟨kept', slash', hread', hkept'⟩ := ih (fun t ht => hsegs t (List.mem_cons_of_mem s ht)) fun t ht => (hkept t ht).2
    refine ⟨kept', slash', ?_, ?_⟩
    · rw [readPath, hnone, hread']
    · intro t ht
      obtain ⟨hmem, hdots⟩ := hkept' t ht
      refine ⟨?_, hdots⟩
      rcases hmem with hmem | hmem
      · rcases (hkept t hmem).1 with hin | rfl
        · exact .inl hin
        · exact .inr List.mem_cons_self
      · exact .inr (List.mem_cons_of_mem s hmem)

theorem pathOf_href (E : EndpointUrl) (hsegs : ∀ s ∈ segs, IsSegment s) :
    ∃ kept slash, pathOf (E.origin ++ pathText segs) = kept ++ ending slash ∧ ∀ s ∈ kept, s ∈ segs ∧ NotDots s := by
  by_cases hne : segs = []
  · refine ⟨[], true, ?_, by simp⟩
    rw [hne, pathText, if_pos rfl, pathOf_front]
    rfl
  · have hslashes : ∀ s ∈ segs, ∀ c ∈ s, isSlash c = false := fun s hs c hc => ((hsegs s hs).plain c hc).2
    have hnone : ∀ s ∈ ([] : NamePath), NotDots s := by simp
    obtain ⟨kept, slash, hread, hkept⟩ := readPath_kept hsegs hnone
    refine ⟨kept, slash, ?_, fun s hs => ⟨(hkept s hs).1.resolve_left (by simp), (hkept s hs).2⟩⟩
    rw [pathText, if_neg hne, slashed_join hne, pathOf_front, heard_plain fun s hs => (hsegs s hs).plain,
      split_join hne hslashes, hread]

end Paths

section Relative

variable (R : Root) {kept : NamePath}

/-- The segments of a path behind those of the root; all of them where it is not below the root. -/
def Root.behind (kept : NamePath) : NamePath := if R.path <+: kept then kept.drop R.path.length else kept

/-- What `toRelativePath` decodes. -/
def Root.relative (pathname : List Char) : List Char :=
  if pathname = slashed R.path ++ ['/'] ∨ pathname = slashed R.path then []
  else if (slashed R.path ++ ['/']).isPrefixOf pathname then pathname.drop (slashed R.path ++ ['/']).length
  else pathname.dropWhile (· == '/')

theorem split_path (hkept : ∀ s ∈ kept, IsSegment s) (slash : Bool) :
    (slashed (kept ++ ending slash)).splitOnP isSlash = [] :: (kept ++ ending slash) := by
  have hslashes : ∀ s ∈ kept, ∀ c ∈ s, isSlash c = false := fun s hs c hc => ((hkept s hs).plain c hc).2
  cases slash with
  | true =>
    rw [slashed_append]
    exact splitOnP_slashed hslashes []
  | false =>
    have hplain : kept ++ ending false = kept := List.append_nil kept
    rw [hplain]
    by_cases hne : kept = []
    · rw [hne]
      rfl
    · rw [slashed_join hne, splitOnP_cons_slash rfl, split_join hne hslashes]

theorem slashed_inj {p q : NamePath} {a b : Bool} (hp : ∀ s ∈ p, IsSegment s) (hq : ∀ s ∈ q, IsSegment s)
    (h : slashed (p ++ ending a) = slashed (q ++ ending b)) : p ++ ending a = q ++ ending b := by
  have hsplit := congrArg (List.splitOnP isSlash) h
  rw [split_path hp, split_path hq] at hsplit
  exact (List.cons.inj hsplit).2

theorem Root.relative_eq (hkept : ∀ s ∈ kept, IsSegment s) (slash : Bool) :
    R.relative (slashed (kept ++ ending slash)) =
      joinPath (R.behind kept) ++ if R.behind kept ≠ [] ∧ slash = true then ['/'] else [] := by
  have hroot : slashed R.path ++ ['/'] = slashed (R.path ++ ending true) := by
    rw [slashed_append]
    rfl
  have hbare : slashed R.path = slashed (R.path ++ ending false) := by simp [ending]
  have htext : ∀ p : NamePath, slashed (p ++ ending slash) = slashed p ++ if slash then ['/'] else [] := by
    intro p
    rw [slashed_append]
    cases slash with
    | true => rfl
    | false => rfl
  by_cases hbelow : R.path <+: kept
  · obtain ⟨more, rfl⟩ := hbelow
    have hbehind : R.behind (R.path ++ more) = more := by
      rw [Root.behind, if_pos (List.prefix_append _ _), List.drop_left]
    rw [hbehind]
    by_cases hmore : more = []
    · subst hmore
      have hone : slashed (R.path ++ [] ++ ending slash) = slashed R.path ++ ['/'] ∨
          slashed (R.path ++ [] ++ ending slash) = slashed R.path := by
        rw [List.append_nil]
        cases slash with
        | true => exact .inl hroot.symm
        | false => exact .inr hbare.symm
      rw [Root.relative, if_pos hone]
      simp [joinPath]
    · have hsplit : slashed (R.path ++ more ++ ending slash) =
          slashed R.path ++ ['/'] ++ (joinPath more ++ if slash then ['/'] else []) := by
        rw [htext, slashed_append, slashed_join hmore]
        simp
      have hjoin : joinPath more ≠ [] := by
        obtain ⟨⟨c, hhead, -⟩, -⟩ := joinPath_ends hmore fun s hs => (hkept s (List.mem_append_right _ hs)).isName
        intro h
        rw [h] at hhead
        cases hhead
      have hlength := List.length_pos_of_ne_nil hjoin
      have hno : ¬ (slashed (R.path ++ more ++ ending slash) = slashed R.path ++ ['/'] ∨
          slashed (R.path ++ more ++ ending slash) = slashed R.path) := by
        rw [hsplit]
        rintro (h | h)
        · have hlen := congrArg List.length h
          simp only [List.length_append, List.length_singleton] at hlen
          omega
        · have hlen := congrArg List.length h
          simp only [List.length_append, List.length_singleton] at hlen
          omega
      have hfront : (slashed R.path ++ ['/']).isPrefixOf (slashed (R.path ++ more ++ ending slash)) = true := by
        rw [hsplit, List.isPrefixOf_iff_prefix]
        exact List.prefix_append _ _
      rw [Root.relative, if_neg hno, if_pos hfront, hsplit, List.drop_left]
      simp [hmore]
  · have hbehind : R.behind kept = kept := if_neg hbelow
    have hroots := R.path_segments
    have hno : ¬ (slashed (kept ++ ending slash) = slashed R.path ++ ['/'] ∨
        slashed (kept ++ ending slash) = slashed R.path) := by
      rintro (h | h)
      · rw [hroot] at h
        have hsame := slashed_inj hkept hroots h
        cases slash with
        | true => exact hbelow (List.append_cancel_right hsame ▸ List.prefix_refl _)
        | false =>
          have hplain : kept ++ ending false = kept := List.append_nil kept
          rw [hplain] at hsame
          exact hbelow (hsame ▸ List.prefix_append _ _)
      · rw [hbare] at h
        have hsame := slashed_inj hkept hroots h
        have hplain : R.path ++ ending false = R.path := List.append_nil _
        rw [hplain] at hsame
        cases slash with
        | true =>
          have hempty : [] ∈ R.path := hsame ▸ List.mem_append_right kept List.mem_cons_self
          exact (hroots [] hempty).ne_nil rfl
        | false =>
          have hself : kept ++ ending false = kept := List.append_nil kept
          exact hbelow (hself ▸ hsame ▸ List.prefix_refl _)
    have hfront : ¬ (slashed R.path ++ ['/']).isPrefixOf (slashed (kept ++ ending slash)) = true := by
      rw [List.isPrefixOf_iff_prefix]
      rintro ⟨rest, h⟩
      have hsplit := congrArg (List.splitOnP isSlash) h
      have hslashes : ∀ s ∈ R.path, ∀ c ∈ s, isSlash c = false := fun s hs c hc => ((hroots s hs).plain c hc).2
      rw [split_path hkept, List.append_assoc, List.singleton_append, splitOnP_slashed hslashes] at hsplit
      have hsame := (List.cons.inj hsplit).2
      obtain ⟨init, last, hrest⟩ := (List.eq_nil_or_concat' (rest.splitOnP isSlash)).resolve_left (List.splitOnP_ne_nil _ _)
      cases slash with
      | true =>
        rw [hrest, ← List.append_assoc] at hsame
        exact hbelow ((List.append_inj_left' hsame rfl) ▸ List.prefix_append _ _)
      | false =>
        have hplain : kept ++ ending false = kept := List.append_nil kept
        rw [hplain] at hsame
        exact hbelow (hsame ▸ List.prefix_append _ _)
    rw [Root.relative, if_neg hno, if_neg hfront, hbehind, htext]
    by_cases hne : kept = []
    · subst hne
      cases slash with
      | true => rfl
      | false => rfl
    · obtain ⟨⟨c, hhead, hc⟩, -⟩ := joinPath_ends hne fun s hs => (hkept s hs).isName
      obtain ⟨tail, hjoin⟩ := List.head?_eq_some_iff.mp hhead
      rw [slashed_join hne, hjoin, List.cons_append, List.dropWhile_cons_of_pos (by simp), List.cons_append,
        List.dropWhile_cons_of_neg (by simpa using hc)]
      simp [hne]

end Relative

section Listing

variable {R : Root} {segs names : NamePath}

theorem joinPath_injective {p q : NamePath} (hp : ∀ name ∈ p, IsName name) (hq : ∀ name ∈ q, IsName name)
    (h : joinPath p = joinPath q) : p = q := by
  have hnil : ∀ p : NamePath, (∀ name ∈ p, IsName name) → joinPath p = [] → p = [] := by
    intro p hp hjoin
    by_contra hne
    obtain ⟨⟨c, hhead, -⟩, -⟩ := joinPath_ends hne hp
    rw [hjoin] at hhead
    cases hhead
  by_cases hpnil : p = []
  · subst hpnil
    exact (hnil q hq h.symm).symm
  by_cases hqnil : q = []
  · subst hqnil
    exact absurd (hnil p hp h) hpnil
  have hsplit : ∀ p : NamePath, p ≠ [] → (∀ name ∈ p, IsName name) → (joinPath p).splitOn '/' = p := by
    intro p hne hp
    exact List.splitOn_intercalate '/' (fun name hname => (hp name hname).2) hne
  rw [← hsplit p hpnil hp, h, hsplit q hqnil hq]

theorem forall₂_unique {ns : NamePath} (h : List.Forall₂ Spells segs names) (h' : List.Forall₂ Spells segs ns) :
    ns = names := by
  induction h generalizing ns with
  | nil =>
    cases h'
    rfl
  | cons hs _ ih =>
    obtain ⟨n, rest, hn, hrest, rfl⟩ := List.forall₂_cons_left_iff.mp h'
    rw [ih hrest, utf8_injective (hn.decodes.symm.trans hs.decodes)]

theorem exists_names (h : ∀ s ∈ segs, (∃ name, Spells s name ∧ IsName name) ∧ NotDots s) :
    ∃ ns, List.Forall₂ Spells segs ns ∧ ∀ name ∈ ns, IsName name ∧ ¬ IsDots name := by
  induction segs with
  | nil => exact ⟨[], .nil, by simp⟩
  | cons s segs ih =>
    rw [List.forall_mem_cons] at h
    obtain ⟨⟨⟨name, hspells, hname⟩, hdots⟩, hrest⟩ := h
    obtain ⟨ns, hns, hnames⟩ := ih hrest
    refine ⟨name :: ns, .cons hspells hns, ?_⟩
    rw [List.forall_mem_cons]
    exact ⟨⟨hname, hspells.notDots_iff.mp hdots⟩, hnames⟩

theorem behind_subset {kept : NamePath} : ∀ s ∈ R.behind kept, s ∈ kept := by
  intro s hs
  rw [Root.behind] at hs
  split at hs
  · exact List.mem_of_mem_drop hs
  · exact hs

theorem toRelativePath_some {href text path : List Char}
    (htext : platform.pathname (resolveHref platform R.config href) = text)
    (hpath : decodeURIComponent (R.relative text) = some path) :
    toRelativePath platform R.config href = .ok (path.rdropWhile (· == '/')) := by
  have hdecode : platform.decodeURIComponent (R.relative text) = some path := hpath
  rw [Root.relative] at hdecode
  rw [toRelativePath]
  simp only [htext, R.basePathname_eq, List.dropLast_concat, hdecode]

theorem toRelativePath_text {kept : NamePath} {slash : Bool} {ns : NamePath} (hkept : ∀ s ∈ kept, IsSegment s)
    (hread : pathOf (R.endpoint.origin ++ pathText segs) = kept ++ ending slash)
    (hspells : List.Forall₂ Spells (R.behind kept) ns) (hns : ∀ name ∈ ns, IsName name) :
    toRelativePath platform R.config (pathText segs) = .ok (joinPath ns) := by
  have hhead : (pathText segs).head? = some '/' := by
    rw [pathText]
    split
    · rfl
    · rename_i hne
      rw [slashed_join hne]
      rfl
  have hpathname : platform.pathname (resolveHref platform R.config (pathText segs)) = slashed (kept ++ ending slash) := by
    have horigin : originOf R.config.url = R.endpoint.origin := originOf_text
    rw [resolveHref, if_pos hhead, platform_resolve, platform_pathname, horigin, pathname, hread]
  have hrelative := R.relative_eq hkept slash
  obtain ⟨hescaped, hdecoded⟩ := decode_joined hspells
  have hdecode : ∀ e : Bool, decodeURIComponent (joinPath (R.behind kept) ++ if e then ['/'] else []) =
      some (joinPath ns ++ if e then ['/'] else []) := by
    intro e
    have hend : wellEscaped (if e then ['/'] else []) = true ∧
        percentDecode (if e then ['/'] else []) = utf8 (if e then ['/'] else []) := by
      cases e with
      | true => decide
      | false => decide
    rw [decodeURIComponent, if_pos (by rw [wellEscaped_append hescaped]; exact hend.1), percentDecode_append hescaped,
      hdecoded, hend.2, ← utf8_append, utf8Decode_utf8]
  have hself : (joinPath ns).rdropWhile (· == '/') = joinPath ns := by
    apply List.rdropWhile_eq_self_iff.mpr
    intro hne
    have hnil : ns ≠ [] := by
      rintro rfl
      exact hne rfl
    obtain ⟨-, c, hlast, hc⟩ := joinPath_ends hnil hns
    rw [List.getLast?_eq_some_getLast hne] at hlast
    rw [Option.some.inj hlast]
    simpa using hc
  have hdrop : ∀ e : Bool, (joinPath ns ++ if e then ['/'] else []).rdropWhile (· == '/') = joinPath ns := by
    intro e
    cases e with
    | true => rw [if_pos rfl, List.rdropWhile_concat_pos _ _ _ (by simp), hself]
    | false =>
      have hplain : (joinPath ns ++ if false = true then ['/'] else []) = joinPath ns := by simp
      rw [hplain, hself]
  have hbool : (if R.behind kept ≠ [] ∧ slash = true then ['/'] else []) =
      if decide (R.behind kept ≠ [] ∧ slash = true) = true then ['/'] else ([] : List Char) := by simp
  rw [hbool] at hrelative
  rw [toRelativePath_some hpathname (hrelative ▸ hdecode _), hdrop]

theorem Resource.path_eq (r : Resource R) : ∃ kept ns, List.Forall₂ Spells (R.behind kept) ns ∧
    (∀ name ∈ ns, IsName name ∧ ¬ IsDots name) ∧ pathOfHref R.config r.href = .ok (joinPath ns) ∧
    ((∀ s ∈ r.segments, NotDots s) → kept = r.segments) := by
  obtain ⟨kept, slash, hread, hkept⟩ := pathOf_href R.endpoint r.isSegment
  have hsegments : ∀ s ∈ kept, IsSegment s := fun s hs => r.isSegment s (hkept s hs).1
  have hspelled : ∀ s ∈ R.behind kept, (∃ name, Spells s name ∧ IsName name) ∧ NotDots s := fun s hs =>
    ⟨r.named s (hkept s (behind_subset s hs)).1, (hkept s (behind_subset s hs)).2⟩
  obtain ⟨ns, hns, hnames⟩ := exists_names hspelled
  refine ⟨kept, ns, hns, hnames, ?_, ?_⟩
  · rw [pathOfHref, r.normalized]
    exact toRelativePath_text hsegments hread hns fun name hname => (hnames name hname).1
  · intro hdots
    rw [pathOf_segments r.isSegment hdots] at hread
    by_cases hne : r.segments = []
    · rw [hne]
      apply List.eq_nil_iff_forall_not_mem.mpr
      intro s hs
      have hin := (hkept s hs).1
      rw [hne] at hin
      cases hin
    · rw [if_neg hne] at hread
      cases slash with
      | false => exact (hread.trans (List.append_nil kept)).symm
      | true =>
        have hempty : [] ∈ r.segments := hread ▸ List.mem_append_right kept List.mem_cons_self
        exact absurd rfl (r.isSegment [] hempty).ne_nil

theorem forall₂_notDots (h : List.Forall₂ Spells segs names) (hnames : ∀ name ∈ names, ¬ IsDots name) :
    ∀ s ∈ segs, NotDots s := by
  induction h with
  | nil => simp
  | cons hs _ ih =>
    rw [List.forall_mem_cons] at hnames ⊢
    exact ⟨hs.notDots hnames.1, ih hnames.2⟩

theorem Resource.notDots (r : Resource R) (h : ∀ name ∈ r.names, ¬ IsDots name) : ∀ s ∈ r.segments, NotDots s := by
  intro s hs
  rw [Resource.segments] at hs
  rcases List.mem_append.mp hs with hs | hs
  · cases ho : r.origin with
    | none => simp [ho] at hs
    | some o =>
      have hcases : s = o.scheme ++ [':'] ∨ s = o.host := by simpa [ho] using hs
      rcases hcases with rfl | rfl
      · have hboth : ∀ scheme ∈ ["http", "https"].map String.toList,
            scheme ++ [':'] ∉ doubleDots ∧ scheme ++ [':'] ∉ singleDots := by decide +kernel
        exact hboth o.scheme o.isHttp
      · exact o.isHost.notDots
  · rcases List.mem_append.mp hs with hs | hs
    · exact forall₂_notDots r.spellsBase (fun name hname => (R.isNames name hname).2) s hs
    · exact forall₂_notDots r.spellsTail h s hs

/-- An href gives the resource its path exactly where it is spelled from the configured root on. -/
theorem Resource.path_iff (r : Resource R) : pathOfHref R.config r.href = .ok (joinPath r.names) ↔
    r.Local ∧ ∀ name ∈ r.names, ¬ IsDots name := by
  obtain ⟨kept, ns, hspells, hnames, hpath, hkept⟩ := r.path_eq
  rw [hpath, Except.ok.injEq]
  have hlengths := r.spellsBase.length_eq
  have hroot := R.spelled.length_eq
  rw [← Root.path] at hroot
  constructor
  · intro h
    obtain rfl := joinPath_injective (fun name hname => (hnames name hname).1) r.isNames h
    have hdots : ∀ name ∈ r.names, ¬ IsDots name := fun name hname => (hnames name hname).2
    obtain rfl := hkept (r.notDots hdots)
    have hlength := hspells.length_eq
    rw [← r.spellsTail.length_eq, Root.behind] at hlength
    refine ⟨?_, hdots⟩
    by_cases hbelow : R.path <+: r.segments
    · rw [if_pos hbelow, List.length_drop] at hlength
      obtain ⟨more, hmore⟩ := hbelow
      cases ho : r.origin with
      | none =>
        have hsegments : r.segments = r.base ++ r.tail := by
          rw [Resource.segments, ho]
          rfl
        rw [hsegments] at hmore
        exact ⟨ho, (List.append_inj_left hmore (by omega)).symm⟩
      | some o =>
        have hsegments : r.segments.length = 2 + (r.base.length + r.tail.length) := by
          rw [Resource.segments, ho]
          simp only [Option.map_some, Option.getD_some, List.length_append, List.length_cons, List.length_nil]
        omega
    · rw [if_neg hbelow, Resource.segments, List.length_append, List.length_append] at hlength
      have hnil : R.path = [] := List.length_eq_zero_iff.mp (by omega)
      rw [hnil] at hbelow
      exact absurd (List.nil_prefix) hbelow
  · rintro ⟨⟨horigin, hbase⟩, hdots⟩
    obtain rfl := hkept (r.notDots hdots)
    have hsegments : r.segments = R.path ++ r.tail := by
      rw [Resource.segments, horigin, hbase]
      rfl
    rw [hsegments, Root.behind, if_pos (List.prefix_append _ _), List.drop_left] at hspells
    rw [forall₂_unique r.spellsTail hspells]

/-- What makes a folder of the source one that is listed again: hrefs that are absolute paths and spell the root as
the configuration does, no name that is a dot or two, and a path that a URL spells as it is. -/
structure Folder.Plain (F : Folder R) : Prop where
  hrefs : ∀ r ∈ F.self :: F.members, r.Local
  dots : ∀ r ∈ F.self :: F.members, ∀ name ∈ r.names, ¬ IsDots name
  spelled : Spelled (joinPath F.self.names)

theorem noDots_of_names {F : Folder R} (hspelled : Spelled (joinPath F.self.names))
    (hdots : ∀ name ∈ F.self.names, ¬ IsDots name) : NoDots (joinPath F.self.names) := by
  intro s hs
  by_cases hne : F.self.names = []
  · rw [hne] at hs
    have hempty : s = [] := by simpa [joinPath] using hs
    rw [hempty]
    decide
  · have hslashes : ∀ name ∈ F.self.names, ∀ c ∈ name, isSlash c = false := by
      intro name hname c hc
      have hin : c ∈ slashed F.self.names := List.mem_flatMap.mpr ⟨name, hname, List.mem_cons_of_mem _ hc⟩
      rw [slashed_join hne] at hin
      rw [isSlash, Bool.or_eq_false_iff, beq_eq_false_iff_ne, beq_eq_false_iff_ne]
      constructor
      · rintro rfl
        exact (F.self.isNames name hname).2 hc
      · rintro rfl
        rcases List.mem_cons.mp hin with h | h
        · cases h
        · exact hspelled.backslash h
    rw [split_join hne hslashes] at hs
    have hname := hdots s hs
    rw [IsDots, not_or] at hname
    exact hname

end Listing

namespace Sample

theorem plain_of_all {s : List Char} (h : s.all (fun c => pathSet c == false && isSlash c == false) = true) :
    ∀ c ∈ s, pathSet c = false ∧ isSlash c = false := by
  intro c hc
  simpa using List.all_eq_true.mp h c hc

theorem dav_segment : IsUrlSegment "dav".toList :=
  ⟨by decide, plain_of_all (by decide +kernel), by decide +kernel⟩

theorem dav_spells : Spells "dav".toList "dav".toList := spells_self dav_segment.plain (by decide)

def endpoint : EndpointUrl where
  scheme := "http".toList
  host := ['h']
  path := ["dav".toList]
  slash := false
  isHttp := List.mem_cons_self
  hasHost := by decide
  isHost := List.forall_mem_singleton.mpr (by decide)
  isPath := List.forall_mem_singleton.mpr dav_segment

def root : Root where
  endpoint := endpoint
  under := []
  rootPath := none
  isUnder := List.forall_mem_nil _
  isRoot := .inl ⟨rfl, .inl rfl⟩
  names := ["dav".toList]
  isNames := List.forall_mem_singleton.mpr ⟨⟨by decide, by decide⟩, by simp [IsDots]⟩
  spelled := .cons dav_spells .nil

/-- A folder with a number sign in its name, in an href that spells it. -/
def numbered : Folder root where
  self := {
    names := ["a#b".toList]
    isNames := List.forall_mem_singleton.mpr ⟨by decide, by decide⟩
    origin := none
    base := ["dav".toList]
    tail := ["a%23b".toList]
    slash := true
    spellsBase := .cons dav_spells .nil
    spellsTail := .cons ⟨plain_of_all (by decide +kernel), by decide, by decide⟩ .nil
    absolute := fun _ _ => rfl }
  members := []
  below := List.forall_mem_nil _

end Sample

end OpenMigrate.Dav.Relisting
