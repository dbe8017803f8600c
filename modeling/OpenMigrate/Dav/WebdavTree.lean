import OpenMigrate.Dav.WebdavSource
import Mathlib.Data.List.Chain

namespace OpenMigrate.Dav

/-- A path as the names on it, from the configured root down. -/
abbrev NamePath := List (List Char)

def joinPath (p : NamePath) : List Char := List.intercalate ['/'] p

section Text

def Single (l : List Char) : Prop := l.IsChain fun a b => ¬ (a = '/' ∧ b = '/')

def IsName (name : List Char) : Prop := name ≠ [] ∧ '/' ∉ name

theorem collapse_eq {l : List Char} (h : Single l) : collapse l = l := by
  fun_induction collapse l with
  | case1 rest ih => simp [Single] at h
  | case2 c rest hne ih => rw [ih (List.IsChain.tail h)]
  | case3 => rfl

theorem map_slashes {l : List Char} (h : '\\' ∉ l) : (l.map fun c => if c = '\\' then '/' else c) = l := by
  have hid : ∀ c ∈ l, (if c = '\\' then '/' else c) = id c := by
    intro c hc
    refine if_neg ?_
    rintro rfl
    exact h hc
  rw [List.map_congr_left hid, List.map_id]

theorem normalizePath_absolute {l : List Char} (hhead : l.head? = some '/') (hback : '\\' ∉ l) (hsingle : Single l) :
    normalizePath l = if l ≠ ['/'] ∧ l.getLast? = some '/' then l.dropLast else l := by
  simp only [normalizePath, map_slashes hback, collapse_eq hsingle, hhead, ↓reduceIte]

theorem normalizePath_self {l : List Char} {c : Char} (hhead : l.head? = some '/') (hback : '\\' ∉ l)
    (hsingle : Single l) (hlast : l.getLast? = some c) (hc : c ≠ '/') : normalizePath l = l := by
  rw [normalizePath_absolute hhead hback hsingle]
  refine if_neg fun hif => hc ?_
  rw [hlast] at hif
  exact Option.some.inj hif.2

theorem normalizePath_slash {l : List Char} {c : Char} (hhead : l.head? = some '/') (hback : '\\' ∉ l)
    (hsingle : Single l) (hlast : l.getLast? = some c) (hc : c ≠ '/') : normalizePath (l ++ ['/']) = l := by
  have hne : l ≠ [] := by
    rintro rfl
    cases hhead
  have hslash : Single (l ++ ['/']) := by
    refine hsingle.append (List.isChain_singleton _) ?_
    rintro x hx y - ⟨rfl, -⟩
    rw [hlast] at hx
    exact hc (Option.some.inj hx)
  rw [normalizePath_absolute (by rw [List.head?_append_of_ne_nil _ hne, hhead]) (by simpa using hback) hslash, if_pos]
  · simp
  · exact ⟨by simpa using hne, by simp⟩

theorem normalizePath_head (l : List Char) : (normalizePath l).head? = some '/' := by
  unfold normalizePath
  extract_lets slashes rooted
  have hrooted : rooted.head? = some '/' := by
    unfold rooted
    split
    · assumption
    · rfl
  split
  · rename_i hif
    cases hr : rooted with
    | nil => rw [hr] at hrooted; cases hrooted
    | cons c rest =>
      cases rest with
      | nil => rw [hr] at hrooted hif; simp_all
      | cons d rest => rw [hr] at hrooted; simpa using hrooted
  · exact hrooted

theorem Single.of_not_mem {l : List Char} (h : '/' ∉ l) : Single l := by
  induction l with
  | nil => exact List.isChain_nil
  | cons c rest ih =>
    rw [List.mem_cons, not_or] at h
    exact (ih h.2).cons fun y _ hy => h.1 hy.1.symm

variable {p : NamePath}

theorem joinPath_cons (name : List Char) (hp : p ≠ []) : joinPath (name :: p) = name ++ '/' :: joinPath p := by
  cases p with
  | nil => exact absurd rfl hp
  | cons a p => simp [joinPath, List.intercalate]

theorem joinPath_singleton (name : List Char) : joinPath [name] = name := by simp [joinPath, List.intercalate]

theorem mem_joinPath {c : Char} (hc : c ∈ joinPath p) : c = '/' ∨ ∃ name ∈ p, c ∈ name := by
  induction p with
  | nil => simp [joinPath] at hc
  | cons name p ih =>
    cases p with
    | nil =>
      rw [joinPath_singleton] at hc
      exact .inr ⟨name, by simp, hc⟩
    | cons a p =>
      rw [joinPath_cons name (by simp), List.mem_append, List.mem_cons] at hc
      obtain hc | rfl | hc := hc
      · exact .inr ⟨name, by simp, hc⟩
      · exact .inl rfl
      · exact (ih hc).imp_right fun ⟨n, hn, hc⟩ => ⟨n, List.mem_cons_of_mem _ hn, hc⟩

theorem mem_joinPath_of_mem {names : NamePath} {name : List Char} {c : Char} (hname : name ∈ names) (hc : c ∈ name) :
    c ∈ joinPath names := by
  induction names with
  | nil => cases hname
  | cons first names ih =>
    cases names with
    | nil =>
      rw [joinPath_singleton, ← List.mem_singleton.mp hname]
      exact hc
    | cons second names =>
      rw [joinPath_cons first (by simp), List.mem_append, List.mem_cons]
      obtain rfl | hrest := List.mem_cons.mp hname
      · exact .inl hc
      · exact .inr (.inr (ih hrest))

theorem joinPath_ends (hp : p ≠ []) (hnames : ∀ name ∈ p, IsName name) :
    (∃ c, (joinPath p).head? = some c ∧ c ≠ '/') ∧ ∃ c, (joinPath p).getLast? = some c ∧ c ≠ '/' := by
  have hname : ∀ name : List Char, IsName name →
      (∃ c, name.head? = some c ∧ c ≠ '/') ∧ ∃ c, name.getLast? = some c ∧ c ≠ '/' := by
    rintro name ⟨hne, hslash⟩
    refine ⟨⟨name.head hne, List.head?_eq_some_head hne, ?_⟩, name.getLast hne, List.getLast?_eq_some_getLast hne, ?_⟩
    · exact fun he => hslash (he ▸ List.head_mem hne)
    · exact fun he => hslash (he ▸ List.getLast_mem hne)
  induction p with
  | nil => exact absurd rfl hp
  | cons name p ih =>
    obtain ⟨⟨c, hc, hcne⟩, hlast⟩ := hname name (hnames name (by simp))
    cases p with
    | nil =>
      rw [joinPath_singleton]
      exact ⟨⟨c, hc, hcne⟩, hlast⟩
    | cons a p =>
      obtain ⟨-, d, hd, hdne⟩ := ih (by simp) fun n hn => hnames n (List.mem_cons_of_mem _ hn)
      rw [joinPath_cons name (by simp)]
      refine ⟨⟨c, ?_, hcne⟩, d, ?_, hdne⟩
      · rw [List.head?_append_of_ne_nil _ (hnames name (by simp)).1, hc]
      · rw [List.getLast?_append_of_ne_nil _ (by simp), List.getLast?_cons, hd]
        rfl

theorem joinPath_single (hnames : ∀ name ∈ p, IsName name) : Single (joinPath p) := by
  induction p with
  | nil => exact List.isChain_nil
  | cons name p ih =>
    have hname := hnames name (by simp)
    cases p with
    | nil =>
      rw [joinPath_singleton]
      exact .of_not_mem hname.2
    | cons a p =>
      have hrest : ∀ n ∈ a :: p, IsName n := fun n hn => hnames n (List.mem_cons_of_mem _ hn)
      obtain ⟨⟨c, hc, hcne⟩, -⟩ := joinPath_ends (by simp) hrest
      rw [joinPath_cons name (by simp)]
      refine (Single.of_not_mem hname.2).append ((ih hrest).cons ?_) ?_
      · rintro y hy ⟨-, rfl⟩
        rw [hc] at hy
        exact hcne (Option.some.inj hy)
      · rintro x hx y - ⟨rfl, -⟩
        exact hname.2 (List.mem_of_getLast? hx)

theorem count_joinPath (hp : p ≠ []) (hnames : ∀ name ∈ p, IsName name) :
    (joinPath p).count '/' + 1 = p.length := by
  induction p with
  | nil => exact absurd rfl hp
  | cons name p ih =>
    have hzero : name.count '/' = 0 := List.count_eq_zero.mpr (hnames name (by simp)).2
    cases p with
    | nil => simp [joinPath_singleton, hzero]
    | cons a p =>
      have hrest := ih (by simp) fun n hn => hnames n (List.mem_cons_of_mem _ hn)
      rw [joinPath_cons name (by simp), List.count_append, List.count_cons_self, hzero, List.length_cons, ← hrest]
      omega

end Text

structure SourceResource where
  collection : Bool
  size : ℕ := 0
  etag : Option (List Char) := none
  modified : Option String := none

/-- A finite tree, by the paths of all that is in it; only folders hold anything. -/
structure FileTree where
  resources : List (NamePath × SourceResource)
  unique : (resources.map (·.1)).Nodup
  named : ∀ e ∈ resources, e.1 ≠ [] ∧ ∀ name ∈ e.1, IsName name
  parent : ∀ e ∈ resources, e.1.dropLast = [] ∨ ∃ r, (e.1.dropLast, r) ∈ resources ∧ r.collection = true

namespace FileTree

variable (t : FileTree)

def IsFolder (p : NamePath) : Prop := p = [] ∨ ∃ r, (p, r) ∈ t.resources ∧ r.collection = true

def isFolder (p : NamePath) : Bool := p.isEmpty || t.resources.any fun e => e.1 == p && e.2.collection

def IsFile (p : NamePath) : Prop := ∃ r, (p, r) ∈ t.resources ∧ r.collection = false

def children (p : NamePath) : List (NamePath × SourceResource) := t.resources.filter fun e => e.1.dropLast == p

theorem isFolder_iff {p : NamePath} : t.isFolder p = true ↔ t.IsFolder p := by
  simp only [isFolder, IsFolder, Bool.or_eq_true, List.isEmpty_iff, List.any_eq_true, Bool.and_eq_true, beq_iff_eq, Prod.exists]
  constructor
  · rintro (h | ⟨q, r, hmem, rfl, hr⟩)
    · exact .inl h
    · exact .inr ⟨r, hmem, hr⟩
  · rintro (h | ⟨r, hmem, hr⟩)
    · exact .inl h
    · exact .inr ⟨p, r, hmem, rfl, hr⟩

end FileTree

/-- A server's own choices: how it writes a name in an href, whether the root's href ends in a slash, and
what it serves at a URL. -/
structure WebdavServer where
  encode : List Char → List Char
  rootSlash : Bool
  resource? : List Char → Option NamePath

section Server

variable (base : List Char) (server : WebdavServer) (t : FileTree)

def hrefOf (p : NamePath) (collection : Bool) : List Char :=
  if p = [] then if server.rootSlash then base else base.dropLast
  else base ++ joinPath (p.map server.encode) ++ if collection then ['/'] else []

def responseOf (e : NamePath × SourceResource) : PropfindResponseEntry where
  href := hrefOf base server e.1 e.2.collection
  collection := e.2.collection
  getContentLength := if e.2.collection then none else some e.2.size
  getLastModified := e.2.modified
  getEtag := e.2.etag

/-- A `PROPFIND` of depth 1: the resource itself, and what it holds if it is a folder. -/
def serve (url : List Char) : Except (ℕ × String) (List PropfindResponseEntry) :=
  match server.resource? url with
  | some p =>
    if t.isFolder p then
      .ok (responseOf base server (p, { collection := true }) :: (t.children p).map (responseOf base server))
    else .ok ((t.resources.filter fun e => e.1 == p).map (responseOf base server))
  | none => .error (404, "Not Found")

end Server

section Listing

variable (js : Runtime) (cfg : WebDAVSourceConfig) (server : WebdavServer) (t : FileTree)

def rooted (p : NamePath) : List Char :=
  let root := (cfg.rootPath.getD []).rdropWhile (· == '/')
  if p = [] then if root = [] then ['/'] else root else root ++ '/' :: joinPath p

def plainHref (p : NamePath) : List Char :=
  if p = [] then if basePathname js cfg = ['/'] then ['/'] else (basePathname js cfg).dropLast
  else basePathname js cfg ++ joinPath (p.map server.encode)

/-- What the connector's surroundings are for a tree: the hrefs are absolute and encoded, the runtime reads
them back, and the URL of a folder's path is served with that folder. -/
structure Surroundings : Prop where
  base_head : (basePathname js cfg).head? = some '/'
  base_single : Single (basePathname js cfg)
  base_chars : ∀ c ∈ basePathname js cfg, c ≠ '\\' ∧ whiteSpace c = false
  encoded : ∀ e ∈ t.resources, ∀ name ∈ e.1,
    IsName (server.encode name) ∧ ∀ c ∈ server.encode name, c ≠ '\\' ∧ whiteSpace c = false
  decoded : ∀ e ∈ t.resources, js.decodeURIComponent (joinPath (e.1.map server.encode)) = some (joinPath e.1)
  decoded_name : ∀ e ∈ t.resources, ∀ name ∈ e.1, js.decodeURIComponent (server.encode name) = some name
  decoded_nil : js.decodeURIComponent [] = some []
  pathname_root : js.pathname (js.resolve cfg.url (plainHref js cfg server [])) = plainHref js cfg server []
  pathname : ∀ from_ ∈ [cfg.url, "http://localhost".toList], ∀ e ∈ t.resources,
    js.pathname (js.resolve from_ (plainHref js cfg server e.1)) = plainHref js cfg server e.1
  folder_chars : ∀ p, t.IsFolder p → ∀ name ∈ p, '\\' ∉ name
  reaches_root : server.resource? (buildUrl cfg cfg.root) = some []
  reaches : ∀ p, t.IsFolder p → server.resource? (buildUrl cfg (rooted cfg p)) = some p

variable {js cfg server t}

theorem base_last : (basePathname js cfg).getLast? = some '/' := by
  unfold basePathname
  dsimp only
  split
  · assumption
  · simp

theorem base_ne_nil : basePathname js cfg ≠ [] := by
  intro hnil
  have hlast : (basePathname js cfg).getLast? = some '/' := base_last
  rw [hnil] at hlast
  cases hlast

theorem base_split : (basePathname js cfg).dropLast ++ ['/'] = basePathname js cfg := by
  have hlast : (basePathname js cfg).getLast? = some '/' := base_last
  rw [List.getLast?_eq_some_getLast base_ne_nil, Option.some.injEq] at hlast
  rw [← hlast]
  exact List.dropLast_append_getLast base_ne_nil

namespace Surroundings

variable (h : Surroundings js cfg server t) {e : NamePath × SourceResource}
include h

theorem names_encoded (he : e ∈ t.resources) : ∀ name ∈ e.1.map server.encode, IsName name := by
  intro name hname
  obtain ⟨n, hn, rfl⟩ := List.mem_map.mp hname
  exact (h.encoded e he n hn).1

theorem encoded_chars (he : e ∈ t.resources) :
    ∀ c ∈ joinPath (e.1.map server.encode), c ≠ '\\' ∧ whiteSpace c = false := by
  intro c hc
  obtain rfl | ⟨name, hname, hc⟩ := mem_joinPath hc
  · decide
  · obtain ⟨n, hn, rfl⟩ := List.mem_map.mp hname
    exact (h.encoded e he n hn).2 c hc

theorem plain_chars (he : e ∈ t.resources) :
    ∀ c ∈ basePathname js cfg ++ joinPath (e.1.map server.encode), c ≠ '\\' ∧ whiteSpace c = false := by
  intro c hc
  exact (List.mem_append.mp hc).elim (h.base_chars c) (h.encoded_chars he c)

theorem plain_single (he : e ∈ t.resources) : Single (basePathname js cfg ++ joinPath (e.1.map server.encode)) := by
  have hne : e.1.map server.encode ≠ [] := by simpa using (t.named e he).1
  obtain ⟨⟨c, hc, hcne⟩, -⟩ := joinPath_ends hne (h.names_encoded he)
  refine h.base_single.append (joinPath_single (h.names_encoded he)) ?_
  rintro x - y hy ⟨-, rfl⟩
  rw [hc] at hy
  exact hcne (Option.some.inj hy)

theorem normalize_href (he : e ∈ t.resources) (collection : Bool) :
    normalizePath (trim (hrefOf (basePathname js cfg) server e.1 collection)) = plainHref js cfg server e.1 := by
  have hpath : e.1 ≠ [] := (t.named e he).1
  have hne : e.1.map server.encode ≠ [] := by simpa using hpath
  obtain ⟨-, c, hlast, hcne⟩ := joinPath_ends hne (h.names_encoded he)
  have hjoin : joinPath (e.1.map server.encode) ≠ [] := by
    intro hnil
    rw [hnil] at hlast
    cases hlast
  have hhead : (basePathname js cfg ++ joinPath (e.1.map server.encode)).head? = some '/' := by
    rw [List.head?_append_of_ne_nil _ base_ne_nil, h.base_head]
  have hend : (basePathname js cfg ++ joinPath (e.1.map server.encode)).getLast? = some c := by
    rw [List.getLast?_append_of_ne_nil _ hjoin, hlast]
  have hchars := h.plain_chars he
  have hback : '\\' ∉ basePathname js cfg ++ joinPath (e.1.map server.encode) := fun hmem => (hchars _ hmem).1 rfl
  simp only [hrefOf, plainHref, hpath, ↓reduceIte]
  cases collection with
  | false =>
    simp only [Bool.false_eq_true, ↓reduceIte, List.append_nil]
    rw [trim_eq fun d hd => (hchars d hd).2]
    exact normalizePath_self hhead hback (h.plain_single he) hend hcne
  | true =>
    simp only [↓reduceIte]
    rw [trim_eq]
    · exact normalizePath_slash hhead hback (h.plain_single he) hend hcne
    · intro d hd
      obtain hd | hd := List.mem_append.mp hd
      · exact (hchars d hd).2
      · rw [List.mem_singleton.mp hd]
        rfl

theorem normalize_root :
    normalizePath (trim (hrefOf (basePathname js cfg) server [] true)) = plainHref js cfg server [] := by
  simp only [hrefOf, plainHref, ↓reduceIte]
  by_cases hbase : basePathname js cfg = ['/']
  · cases server.rootSlash <;> rw [hbase] <;> decide
  · have hsplit : (basePathname js cfg).dropLast ++ ['/'] = basePathname js cfg := base_split
    generalize hl : (basePathname js cfg).dropLast = l at hsplit ⊢
    have hne : l ≠ [] := by
      rintro rfl
      exact hbase hsplit.symm
    have hsingle : Single (l ++ ['/']) := hsplit ▸ h.base_single
    have hchars : ∀ c ∈ l, c ≠ '\\' ∧ whiteSpace c = false := by
      intro c hc
      exact h.base_chars c (hsplit ▸ List.mem_append_left _ hc)
    have hhead : l.head? = some '/' := by
      have hh := h.base_head
      rwa [← hsplit, List.head?_append_of_ne_nil _ hne] at hh
    obtain ⟨hleft, -, hjoint⟩ := List.isChain_append.mp hsingle
    have hlast : l.getLast hne ≠ '/' := fun he =>
      hjoint _ (List.getLast?_eq_some_getLast hne) '/' rfl ⟨he, rfl⟩
    have hback : '\\' ∉ l := fun hmem => (hchars _ hmem).1 rfl
    rw [if_neg hbase]
    cases server.rootSlash with
    | false =>
      rw [if_neg (by simp), trim_eq fun c hc => (hchars c hc).2]
      exact normalizePath_self hhead hback hleft (List.getLast?_eq_some_getLast hne) hlast
    | true =>
      rw [if_pos rfl, trim_eq fun c hc => (h.base_chars c hc).2, ← hsplit]
      exact normalizePath_slash hhead hback hleft (List.getLast?_eq_some_getLast hne) hlast

theorem relative_root : toRelativePath js cfg (plainHref js cfg server []) = .ok [] := by
  have hhead : (plainHref js cfg server []).head? = some '/' := by
    rw [← h.normalize_root]
    exact normalizePath_head _
  have hroot : plainHref js cfg server [] = basePathname js cfg ∨
      plainHref js cfg server [] = (basePathname js cfg).dropLast := by
    simp only [plainHref, ↓reduceIte]
    split
    · rename_i hbase
      exact .inl hbase.symm
    · exact .inr rfl
  simp only [toRelativePath, resolveHref, hhead, ↓reduceIte, h.pathname_root, hroot, h.decoded_nil]
  rfl

theorem relative_href (he : e ∈ t.resources) :
    toRelativePath js cfg (plainHref js cfg server e.1) = .ok (joinPath e.1) := by
  obtain ⟨hpath, hnames⟩ := t.named e he
  have hplain : plainHref js cfg server e.1 = basePathname js cfg ++ joinPath (e.1.map server.encode) :=
    if_neg hpath
  have hhead : (plainHref js cfg server e.1).head? = some '/' := by
    rw [hplain, List.head?_append_of_ne_nil _ base_ne_nil, h.base_head]
  have hjoin : joinPath (e.1.map server.encode) ≠ [] := by
    obtain ⟨⟨c, hc, -⟩, -⟩ := joinPath_ends (by simpa using hpath) (h.names_encoded he)
    intro hnil
    rw [hnil] at hc
    cases hc
  have hroot : ¬ (plainHref js cfg server e.1 = basePathname js cfg ∨
      plainHref js cfg server e.1 = (basePathname js cfg).dropLast) := by
    have hlen := List.length_pos_of_ne_nil hjoin
    rw [hplain]
    rintro (heq | heq) <;> have hlens := congrArg List.length heq <;>
      simp only [List.length_append, List.length_dropLast] at hlens <;> omega
  have hprefix : (basePathname js cfg).isPrefixOf (plainHref js cfg server e.1) = true := by
    rw [hplain, List.isPrefixOf_iff_prefix]
    exact List.prefix_append _ _
  have hdrop : (plainHref js cfg server e.1).drop (basePathname js cfg).length = joinPath (e.1.map server.encode) := by
    rw [hplain, List.drop_left]
  obtain ⟨-, c, hlast, hcne⟩ := joinPath_ends hpath hnames
  simp only [toRelativePath, resolveHref, hhead, ↓reduceIte, h.pathname cfg.url (by simp) e he, hroot, hprefix, hdrop, h.decoded e he]
  rw [List.rdropWhile_eq_self_iff.mpr]
  intro hne
  rw [List.getLast?_eq_some_getLast hne, Option.some.injEq] at hlast
  simpa [hlast] using hcne

theorem combine_folder {p : NamePath} (hp : t.IsFolder p) :
    combineWithRootPath cfg (normalizePath (joinPath p)) = rooted cfg p := by
  have hback := h.folder_chars p hp
  obtain rfl | ⟨r, hr, -⟩ := hp
  · rfl
  · obtain ⟨hpath, hnames⟩ := t.named _ hr
    obtain ⟨⟨a, ha, hane⟩, b, hb, hbne⟩ := joinPath_ends hpath hnames
    have hnoback : '\\' ∉ joinPath p := by
      intro hmem
      obtain hslash | ⟨name, hname, hmem⟩ := mem_joinPath hmem
      · exact absurd hslash (by decide)
      · exact hback name hname hmem
    have hnormal : normalizePath (joinPath p) = '/' :: joinPath p := by
      have hhead : ¬ (joinPath p).head? = some '/' := by
        rw [ha]
        exact fun heq => hane (Option.some.inj heq)
      have hlast : ¬ ('/' :: joinPath p).getLast? = some '/' := by
        rw [List.getLast?_cons, hb]
        exact fun heq => hbne (Option.some.inj heq)
      simp only [normalizePath, map_slashes hnoback, collapse_eq (joinPath_single hnames), hhead, ↓reduceIte, hlast,
        and_false]
    cases hj : joinPath p with
    | nil =>
      rw [hj] at ha
      cases ha
    | cons d rest =>
      rw [hj, List.head?_cons, Option.some.injEq] at ha
      subst ha
      rw [hj] at hnormal
      simp only [combineWithRootPath, hnormal, rooted, hpath, ↓reduceIte, hj]
      simp only [List.dropWhile_cons, BEq.rfl, ↓reduceIte, beq_iff_eq, hane, reduceCtorEq]
      split
      · rename_i hroot
        rw [hroot]
        rfl
      · rfl

theorem base_name (he : e ∈ t.resources) : ∃ name, baseName js (plainHref js cfg server e.1) = .ok name := by
  obtain ⟨hpath, -⟩ := t.named e he
  have hplain : plainHref js cfg server e.1 =
      (basePathname js cfg).dropLast ++ '/' :: joinPath (e.1.map server.encode) := by
    rw [plainHref, if_neg hpath]
    conv_lhs => rw [← base_split]
    simp
  have hsplit : (plainHref js cfg server e.1).splitOn '/' =
      (basePathname js cfg).dropLast.splitOn '/' ++ e.1.map server.encode := by
    rw [hplain, List.splitOn_append_cons_self, joinPath, List.splitOn_intercalate]
    · exact fun l hl => (h.names_encoded he l hl).2
    · simpa using hpath
  have hfilter : (e.1.map server.encode).filter (· ≠ []) = e.1.map server.encode :=
    List.filter_eq_self.mpr fun l hl => by simpa using (h.names_encoded he l hl).1
  have hlast : (((plainHref js cfg server e.1).splitOn '/').filter (· ≠ [])).getLast? =
      some (server.encode (e.1.getLast hpath)) := by
    rw [hsplit, List.filter_append, hfilter, List.getLast?_append_of_ne_nil _ (by simpa using hpath),
      List.getLast?_map, List.getLast?_eq_some_getLast hpath]
    rfl
  refine ⟨e.1.getLast hpath, ?_⟩
  simp only [baseName, h.pathname "http://localhost".toList (by simp) e he, hlast, Option.getD_some]
  rw [h.decoded_name e he _ (List.getLast_mem hpath)]

end Surroundings

theorem mapM_ok {α β γ : Type} {f : α → Except PassError β} {g : α → γ} {g' : β → γ} {l : List α}
    (h : ∀ a ∈ l, ∃ b, f a = .ok b ∧ g' b = g a) : ∃ bs, l.mapM f = .ok bs ∧ bs.map g' = l.map g := by
  induction l with
  | nil => exact ⟨[], rfl, rfl⟩
  | cons a l ih =>
    obtain ⟨b, hb, hg⟩ := h a List.mem_cons_self
    obtain ⟨bs, hbs, hrest⟩ := ih fun a ha => h a (List.mem_cons_of_mem _ ha)
    refine ⟨b :: bs, ?_, by rw [List.map_cons, List.map_cons, hg, hrest]⟩
    rw [List.mapM_cons, hb]
    change (do let rest ← l.mapM f; pure (b :: rest)) = _
    rw [hbs]
    rfl

section Requests

variable (h : Surroundings js cfg server t)
include h

def keptEntry (js : Runtime) (cfg : WebDAVSourceConfig) (server : WebdavServer) (e : NamePath × SourceResource) :
    PropfindResponseEntry :=
  { responseOf (basePathname js cfg) server e with href := plainHref js cfg server e.1 }

theorem Surroundings.propfind {path : List Char} {p : NamePath} (hp : t.IsFolder p)
    (hurl : server.resource? (buildUrl cfg path) = some p) :
    performPropfind cfg (serve (basePathname js cfg) server t) path =
      .ok (((p, { collection := true }) :: t.children p).map (keptEntry js cfg server)) := by
  have hself : parsePropfindEntry (responseOf (basePathname js cfg) server (p, { collection := true })) =
      keptEntry js cfg server (p, { collection := true }) := by
    obtain rfl | ⟨r, hr, -⟩ := hp
    · simp only [parsePropfindEntry, keptEntry, responseOf, h.normalize_root]
    · simp only [parsePropfindEntry, keptEntry, responseOf, h.normalize_href hr true]
  have hchildren : ∀ e ∈ t.children p,
      parsePropfindEntry (responseOf (basePathname js cfg) server e) = keptEntry js cfg server e := by
    intro e he
    simp only [parsePropfindEntry, keptEntry, responseOf, h.normalize_href (List.mem_of_mem_filter he)]
  simp only [performPropfind, serve, hurl, t.isFolder_iff.mpr hp, ↓reduceIte, List.map_cons, List.map_map, hself]
  exact congrArg (fun l => Except.ok (_ :: l)) (List.map_congr_left hchildren)

theorem Surroundings.folders_listed : ∃ folders,
    listFolders js cfg (serve (basePathname js cfg) server t) = .ok folders ∧
      folders.map (·.path) =
        "" :: ((t.children []).filter (·.2.collection)).map fun e => String.ofList (joinPath e.1) := by
  have hfind := h.propfind (.inl rfl) h.reaches_root
  have hfilter : ((([], { collection := true }) :: t.children []).map (keptEntry js cfg server)).filter (·.collection) =
      (([], { collection := true }) :: (t.children []).filter (·.2.collection)).map (keptEntry js cfg server) := by
    rw [List.filter_map, List.filter_cons_of_pos rfl]
    rfl
  have hparse : ∀ e ∈ ([], { collection := true }) :: (t.children []).filter (·.2.collection),
      ∃ folder, parseFolderFromEntry js cfg (keptEntry js cfg server e) = .ok folder ∧
        folder.path = String.ofList (joinPath e.1) := by
    intro e he
    have hrel : toRelativePath js cfg (plainHref js cfg server e.1) = .ok (joinPath e.1) := by
      obtain rfl | he := List.mem_cons.mp he
      · exact h.relative_root
      · exact h.relative_href (List.mem_of_mem_filter (List.mem_of_mem_filter he))
    have hok : toRelativePath js cfg (keptEntry js cfg server e).href = .ok (joinPath e.1) := hrel
    unfold parseFolderFromEntry
    rw [hok]
    exact ⟨_, rfl, rfl⟩
  obtain ⟨folders, hfolders, hpaths⟩ := mapM_ok hparse
  refine ⟨folders, ?_, hpaths⟩
  rw [listFolders, hfind]
  change List.mapM (parseFolderFromEntry js cfg) (List.filter _ _) = _
  rw [hfilter, List.mapM_map]
  exact hfolders

theorem Surroundings.items_listed {folder : CollectionFolder} {p : NamePath} (hp : t.IsFolder p)
    (hfolder : folder.path = String.ofList (joinPath p)) : ∃ listing,
    listSince js cfg (serve (basePathname js cfg) server t) folder none = .ok listing ∧
      listing.items.map (·.path) =
        ((t.children p).filter (!·.2.collection)).map fun e => String.ofList (joinPath e.1) := by
  have hpath : folder.path.toList = joinPath p := by rw [hfolder, String.toList_ofList]
  have hurl : server.resource? (buildUrl cfg (combineWithRootPath cfg (normalizePath folder.path.toList))) = some p := by
    rw [hpath, h.combine_folder hp]
    exact h.reaches p hp
  have hfind := h.propfind hp hurl
  have hfilter : (((p, { collection := true }) :: t.children p).map (keptEntry js cfg server)).filter (!·.collection) =
      ((t.children p).filter (!·.2.collection)).map (keptEntry js cfg server) := by
    rw [List.filter_map, List.filter_cons_of_neg (by simp [keptEntry, responseOf])]
    rfl
  have hparse : ∀ e ∈ (t.children p).filter (!·.2.collection), ∃ file,
      (parseFileFromEntry js cfg (keptEntry js cfg server e)).map (fun file => (file, keptEntry js cfg server e)) =
        .ok file ∧ file.1.path = String.ofList (joinPath e.1) := by
    intro e he
    have hmem : e ∈ t.resources := List.mem_of_mem_filter (List.mem_of_mem_filter he)
    obtain ⟨name, hname⟩ := h.base_name hmem
    have hname' : baseName js (keptEntry js cfg server e).href = .ok name := hname
    have hrel : toRelativePath js cfg (keptEntry js cfg server e).href = .ok (joinPath e.1) := h.relative_href hmem
    unfold parseFileFromEntry
    rw [hname', hrel]
    exact ⟨_, rfl, rfl⟩
  obtain ⟨files, hfiles, hpaths⟩ := mapM_ok hparse
  refine ⟨⟨files.map fun e => fileItem e.1 e.2,
    buildCursor (normalizePath folder.path.toList) (files.map (·.1))⟩, ?_, ?_⟩
  · rw [listSince, hfind]
    change Except.map _ (List.mapM _ (List.filter _ _)) = _
    rw [hfilter, List.mapM_map]
    have hfiles' : List.mapM ((fun entry => (parseFileFromEntry js cfg entry).map fun file => (file, entry)) ∘
        keptEntry js cfg server) ((t.children p).filter (!·.2.collection)) = .ok files := hfiles
    rw [hfiles']
    simp [Except.map, hasChanged]
  · rw [← hpaths, List.map_map]
    rfl

end Requests

variable (js cfg server t) in
/-- Every folder is listed without fail, and the paths of the items are those of `files`. -/
def ListsExactly (files : NamePath → Prop) : Prop :=
  ∃ folders, listFolders js cfg (serve (basePathname js cfg) server t) = .ok folders ∧
    (∀ folder ∈ folders, ∃ listing,
      listSince js cfg (serve (basePathname js cfg) server t) folder none = .ok listing) ∧
    ∀ path, (∃ folder ∈ folders, ∃ listing,
        listSince js cfg (serve (basePathname js cfg) server t) folder none = .ok listing ∧
          ∃ item ∈ listing.items, item.path = path) ↔
      ∃ p, files p ∧ path = String.ofList (joinPath p)

theorem Surroundings.listed (h : Surroundings js cfg server t) :
    ListsExactly js cfg server t fun p => t.IsFile p ∧ p.length ≤ 2 := by
  obtain ⟨folders, hfolders, hpaths⟩ := h.folders_listed
  -- the folders are those of depth at most one
  have hfolder : ∀ folder ∈ folders, ∃ p, t.IsFolder p ∧ p.length ≤ 1 ∧ folder.path = String.ofList (joinPath p) := by
    intro folder hmem
    have hpath : folder.path ∈ folders.map (·.path) := List.mem_map_of_mem hmem
    rw [hpaths] at hpath
    obtain hroot | hchild := List.mem_cons.mp hpath
    · exact ⟨[], .inl rfl, by simp, hroot⟩
    · obtain ⟨e, he, heq⟩ := List.mem_map.mp hchild
      obtain ⟨hmem', hcoll⟩ := List.mem_filter.mp he
      obtain ⟨hres, hdrop⟩ := List.mem_filter.mp hmem'
      have hlen : e.1.length - 1 = 0 := by
        rw [← List.length_dropLast, eq_of_beq hdrop]
        rfl
      exact ⟨e.1, .inr ⟨e.2, hres, hcoll⟩, by omega, heq.symm⟩
  -- and the folder of every resource of depth at most two is among them
  have hparent : ∀ {p : NamePath} {r : SourceResource}, (p, r) ∈ t.resources → p.length ≤ 2 →
      ∃ folder ∈ folders, t.IsFolder p.dropLast ∧ folder.path = String.ofList (joinPath p.dropLast) := by
    intro p r hres hlen
    have hlisted : ∀ path ∈ folders.map (·.path), ∃ folder ∈ folders, folder.path = path :=
      fun path hpath => List.mem_map.mp hpath
    rw [hpaths] at hlisted
    obtain hnil | ⟨r', hr', hcoll⟩ := t.parent _ hres
    · obtain ⟨folder, hmem, heq⟩ := hlisted "" (by simp)
      exact ⟨folder, hmem, .inl hnil, by simp only at hnil; rw [hnil, heq]; rfl⟩
    · have hdrop : p.dropLast.dropLast = [] := by
        refine List.eq_nil_of_length_eq_zero ?_
        simp only [List.length_dropLast]
        omega
      obtain ⟨folder, hmem, heq⟩ := hlisted (String.ofList (joinPath p.dropLast)) (List.mem_cons_of_mem _
        (List.mem_map.mpr ⟨(p.dropLast, r'), List.mem_filter.mpr ⟨List.mem_filter.mpr
          ⟨hr', by simpa using hdrop⟩, hcoll⟩, rfl⟩))
      exact ⟨folder, hmem, .inr ⟨r', hr', hcoll⟩, heq⟩
  refine ⟨folders, hfolders, ?_, ?_⟩
  · intro folder hmem
    obtain ⟨p, hp, -, heq⟩ := hfolder folder hmem
    obtain ⟨listing, hlisting, -⟩ := h.items_listed hp heq
    exact ⟨listing, hlisting⟩
  · intro path
    constructor
    · rintro ⟨folder, hmem, listing, hlisting, item, hitem, rfl⟩
      obtain ⟨p, hp, hlen, heq⟩ := hfolder folder hmem
      obtain ⟨listing', hlisting', hitems⟩ := h.items_listed hp heq
      rw [hlisting, Except.ok.injEq] at hlisting'
      subst hlisting'
      have hpath : item.path ∈ listing.items.map (·.path) := List.mem_map_of_mem hitem
      rw [hitems] at hpath
      obtain ⟨e, he, heq⟩ := List.mem_map.mp hpath
      obtain ⟨hmem', hfile⟩ := List.mem_filter.mp he
      obtain ⟨hres, hdrop⟩ := List.mem_filter.mp hmem'
      have hlen' : e.1.length - 1 = p.length := by
        rw [← List.length_dropLast, eq_of_beq hdrop]
      exact ⟨e.1, ⟨⟨e.2, hres, by simpa using hfile⟩, by omega⟩, heq.symm⟩
    · rintro ⟨p, ⟨⟨r, hres, hr⟩, hlen⟩, rfl⟩
      obtain ⟨folder, hmem, hp, heq⟩ := hparent hres hlen
      obtain ⟨listing, hlisting, hitems⟩ := h.items_listed hp heq
      have hchild : String.ofList (joinPath p) ∈ listing.items.map (·.path) := by
        rw [hitems]
        exact List.mem_map.mpr ⟨(p, r), List.mem_filter.mpr ⟨List.mem_filter.mpr ⟨hres, by simp⟩, by simp [hr]⟩, rfl⟩
      obtain ⟨item, hitem, hpath⟩ := List.mem_map.mp hchild
      exact ⟨folder, hmem, listing, hlisting, item, hitem, hpath⟩

theorem Surroundings.depth (h : Surroundings js cfg server t) (hall : ListsExactly js cfg server t t.IsFile)
    {p : NamePath} (hp : t.IsFile p) : p.length ≤ 2 := by
  obtain ⟨folders, hfolders, -, hpaths⟩ := h.listed
  obtain ⟨folders', hfolders', -, hall⟩ := hall
  rw [hfolders, Except.ok.injEq] at hfolders'
  subst hfolders'
  obtain ⟨q, ⟨⟨r, hq, -⟩, hlen⟩, hjoin⟩ := (hpaths _).mp ((hall _).mpr ⟨p, hp, rfl⟩)
  obtain ⟨r', hp', -⟩ := hp
  -- a path has as many names as its text has slashes, and one
  have hcount := congrArg (List.count '/') (String.ofList_injective hjoin)
  have hp1 := count_joinPath (t.named _ hp').1 (t.named _ hp').2
  have hq1 := count_joinPath (t.named _ hq).1 (t.named _ hq).2
  simp only at hp1 hq1
  omega

end Listing

namespace Sample

def runtime : Runtime where
  pathname url := (url.drop 7).dropWhile (· != '/')
  resolve base path := base.take 7 ++ (base.drop 7).takeWhile (· != '/') ++ path
  decodeURIComponent := some
  parseDate := id
  now := "2026-01-01T00:00:00.000Z"

def drive : WebDAVSourceConfig := { url := "http://h/dav".toList }

def driveServer : WebdavServer where
  encode := id
  rootSlash := true
  resource? url :=
    if url = "http://h/dav/".toList then some []
    else if url = "http://h/dav/d".toList then some [['d']]
    else if url = "http://h/dav/d/e".toList then some [['d'], ['e']]
    else none

def flatTree : FileTree where
  resources := [([['a']], { collection := false }), ([['d']], { collection := true }), ([['d'], ['b']], { collection := false })]
  unique := by decide
  named := by simp [IsName]
  parent := by simp

def deepTree : FileTree where
  resources := [([['d']], { collection := true }), ([['d'], ['e']], { collection := true }),
    ([['d'], ['e'], ['c']], { collection := false })]
  unique := by decide
  named := by simp [IsName]
  parent := by simp

theorem base_drive : basePathname runtime drive = "/dav/".toList := by decide

theorem surroundings {t : FileTree}
    (hchars : ∀ e ∈ t.resources, ∀ name ∈ e.1, ∀ c ∈ name, c ≠ '\\' ∧ whiteSpace c = false)
    (hreach : ∀ e ∈ t.resources, e.2.collection = true →
      driveServer.resource? (buildUrl drive (rooted drive e.1)) = some e.1) :
    Surroundings runtime drive driveServer t where
  base_head := by rw [base_drive]; rfl
  base_single := by rw [base_drive]; simp [Single]
  base_chars := by rw [base_drive]; simp [whiteSpace]
  encoded e he name hname := ⟨(t.named e he).2 name hname, hchars e he name hname⟩
  decoded e _ := by
    have hencode : e.1.map driveServer.encode = e.1 := List.map_id e.1
    rw [hencode]
    rfl
  decoded_name _ _ _ _ := rfl
  decoded_nil := rfl
  pathname_root := by decide
  pathname from_ hfrom e he := by
    have hplain : ∃ rest, plainHref runtime drive driveServer e.1 = '/' :: rest := by
      refine ⟨"dav/".toList ++ joinPath (e.1.map driveServer.encode), ?_⟩
      rw [plainHref, if_neg (t.named e he).1, base_drive]
      rfl
    obtain ⟨rest, hrest⟩ := hplain
    rw [hrest]
    simp only [List.mem_cons, List.not_mem_nil, or_false] at hfrom
    obtain rfl | rfl := hfrom <;> rfl
  folder_chars p hp name hname hmem := by
    obtain rfl | ⟨r, hr, -⟩ := hp
    · cases hname
    · exact (hchars _ hr name hname _ hmem).1 rfl
  reaches_root := by decide
  reaches p hp := by
    obtain rfl | ⟨r, hr, hcoll⟩ := hp
    · decide
    · exact hreach _ hr hcoll

theorem flat_surroundings : Surroundings runtime drive driveServer flatTree :=
  surroundings (by simp [whiteSpace, flatTree]) (by decide)

theorem deep_surroundings : Surroundings runtime drive driveServer deepTree :=
  surroundings (by simp [whiteSpace, deepTree]) (by decide)

end Sample

end OpenMigrate.Dav
