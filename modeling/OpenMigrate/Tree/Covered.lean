import OpenMigrate.Tree.NameSource

namespace OpenMigrate.Tree

/-- Every file is listed, distinct files under distinct paths, and a path leads back to the folder it was derived from. -/
structure Covered (S : NameSource) (t : IdTree) : Prop where
  resolves : ∀ P n, (P, n) ∈ t.folders.located → S.resolveFolderId (pathOf P) = .ok n.id
  covers : ∃ folders, S.listFolders (t.folders.size + 1) = .ok folders ∧ ∀ P f, (P, f) ∈ t.filed →
    ∃ folder ∈ folders, ∃ items, S.listSince folder.1 = .ok items ∧ ∃ item ∈ items, item.sourceRef = f.id
  distinct : ∀ folders, S.listFolders (t.folders.size + 1) = .ok folders → ∀ e ∈ folders, ∀ e' ∈ folders,
    ∀ items items', S.listSince e.1 = .ok items → S.listSince e'.1 = .ok items' →
    ∀ i ∈ items, ∀ j ∈ items', i.sourceRef ≠ j.sourceRef → i.path ≠ j.path

/-- No folder has a slash in its name, none at the top has an empty name, no two have the same names from the top down,
and no two files do once a slash in a file's name counts as one more level. -/
structure Plain (t : IdTree) : Prop where
  slashless : ∀ P n, (P, n) ∈ t.folders.located → ∀ name ∈ P, '/' ∉ name
  named : ∀ P n, (P, n) ∈ t.folders.located → P ≠ [[]]
  apart : ∀ P n m, (P, n) ∈ t.folders.located → (P, m) ∈ t.folders.located → n.id = m.id
  files : ∀ P Q f g, (P, f) ∈ t.filed → (Q, g) ∈ t.filed → f.id ≠ g.id →
    P ++ f.name.splitOn '/' ≠ Q ++ g.name.splitOn '/'

/-- What a source's listings say of an account: a folder's own, wherever it can be listed at all. -/
structure Serves (S : NameSource) (t : IdTree) (listable : String → Prop) : Prop where
  root : S.rootId = t.rootId
  folders : ∀ id files inside, t.Holds id files inside → listable id → S.childFolders id = .ok (entriesOf inside)
  files : ∀ id files inside, t.Holds id files inside → listable id → S.childFiles id = .ok files
  refuses : ∀ id files inside, t.Holds id files inside → ¬ listable id → ∃ reason, S.childFolders id = .error reason

section Paths

variable {P Q : List Text} {above name : Text}

theorem splitOn_injective {s s' : Text} (h : s.splitOn '/' = s'.splitOn '/') : s = s' := by
  have hs : List.intercalate ['/'] (s.splitOn '/') = s := List.intercalate_splitOn '/'
  rw [← hs, h, List.intercalate_splitOn]

theorem childPath_ne_nil (habove : above ≠ []) (name : Text) : childPath above name ≠ [] := by
  rw [childPath, if_neg habove]
  exact List.append_ne_nil_of_right_ne_nil _ (List.cons_ne_nil _ _)

theorem foldl_ne_nil (habove : above ≠ []) (P : List Text) : P.foldl childPath above ≠ [] := by
  induction P generalizing above with
  | nil => exact habove
  | cons name P ih => exact ih (childPath_ne_nil habove name)

theorem splitOn_foldl (habove : above ≠ []) (P : List Text) :
    (P.foldl childPath above).splitOn '/' = above.splitOn '/' ++ P.flatMap fun name => name.splitOn '/' := by
  induction P generalizing above with
  | nil => simp
  | cons name P ih =>
    rw [List.foldl_cons, ih (childPath_ne_nil habove name), childPath, if_neg habove, List.splitOn_append_cons_self,
      List.flatMap_cons, List.append_assoc]

/-- A path splits into the names it was derived from, each at its own slashes. -/
theorem splitOn_pathOf (hname : name ≠ []) (P : List Text) :
    (pathOf (name :: P)).splitOn '/' = (name :: P).flatMap fun name => name.splitOn '/' := by
  rw [pathOf, List.foldl_cons, childPath, if_pos rfl, splitOn_foldl hname, List.flatMap_cons]

theorem flatMap_splitOn (h : ∀ name ∈ P, '/' ∉ name) : (P.flatMap fun name => name.splitOn '/') = P := by
  induction P with
  | nil => rfl
  | cons name P ih =>
    rw [List.flatMap_cons, List.splitOn_eq_singleton (h name List.mem_cons_self),
      ih fun n hn => h n (List.mem_cons_of_mem name hn), List.singleton_append]

theorem splitOn_slashless {s name : Text} (h : name ∈ s.splitOn '/') : '/' ∉ name := by
  induction s generalizing name with
  | nil =>
    rw [List.splitOn_nil] at h
    rw [List.mem_singleton.mp h]
    exact List.not_mem_nil
  | cons c s ih =>
    rw [List.splitOn_cons_eq_if_modifyHead] at h
    split at h
    · obtain rfl | h := List.mem_cons.mp h
      · exact List.not_mem_nil
      · exact ih h
    · rename_i hc
      cases hs : s.splitOn '/' with
      | nil => exact absurd hs (List.splitOn_ne_nil '/' s)
      | cons first rest =>
        rw [hs, List.modifyHead_cons] at h
        rw [hs] at ih
        obtain rfl | h := List.mem_cons.mp h
        · intro hmem
          obtain rfl | hmem := List.mem_cons.mp hmem
          · exact hc (beq_self_eq_true _)
          · exact ih List.mem_cons_self hmem
        · exact ih (List.mem_cons_of_mem first h)

end Paths

section Walk

variable {S : NameSource} {t : IdTree} {listable : String → Prop} {F : Forest String Text Entry} {above : Text} {depth : ℕ}

def derived (F : Forest String Text Entry) (above : Text) : List (Text × String) :=
  F.located.map fun e => (e.1.foldl childPath above, e.2.id)

theorem holds_node {n : Node String Text Entry} (h : n ∈ t.folders.nodes) : t.Holds n.id n.items n.inside :=
  .inr ⟨n, h, rfl, rfl, rfl⟩

theorem derived_cons (id : String) (name : Text) (items : List Entry) (inside beside : Forest String Text Entry)
    (above : Text) : derived (.cons id name items inside beside) above =
      (childPath above name, id) :: derived inside (childPath above name) ++ derived beside above := by
  simp [derived, Forest.located, Function.comp_def]

theorem nodes_cons (id : String) (name : Text) (items : List Entry) (inside beside : Forest String Text Entry) :
    (Forest.cons id name items inside beside).nodes = ⟨id, name, items, inside⟩ :: inside.nodes ++ beside.nodes := by
  simp [Forest.nodes, Forest.located, Function.comp_def]

theorem walkChildren_ok (hS : Serves S t listable) (hF : ∀ n ∈ F.nodes, n ∈ t.folders.nodes ∧ listable n.id)
    (hdepth : F.size ≤ depth) :
    NameSource.walkChildren (S.walk depth) above (entriesOf F) = .ok (derived F above) := by
  induction F generalizing above depth with
  | nil => rfl
  | cons id name items inside beside ihInside ihBeside =>
    rw [nodes_cons] at hF
    obtain ⟨hnode, hlistable⟩ := hF _ List.mem_cons_self
    have hinside : ∀ n ∈ inside.nodes, n ∈ t.folders.nodes ∧ listable n.id := fun n hn =>
      hF n (List.mem_append_left _ (List.mem_cons_of_mem _ hn))
    have hbeside : ∀ n ∈ beside.nodes, n ∈ t.folders.nodes ∧ listable n.id := fun n hn =>
      hF n (List.mem_append_right _ hn)
    simp only [Forest.size] at hdepth
    have hlevel : S.walk depth id (childPath above name) = .ok (derived inside (childPath above name)) := by
      cases depth with
      | zero => omega
      | succ depth =>
        have hchildren : S.childFolders id = .ok (entriesOf inside) := hS.folders _ _ _ (holds_node hnode) hlistable
        rw [NameSource.walk, hchildren]
        exact ihInside hinside (by omega)
    have hrest : NameSource.walkChildren (S.walk depth) above (entriesOf beside) = .ok (derived beside above) :=
      ihBeside hbeside (by omega)
    change NameSource.walkChildren (S.walk depth) above (⟨id, name⟩ :: entriesOf beside) = _
    rw [derived_cons, NameSource.walkChildren]
    simp only [hlevel, hrest]
    rfl

theorem walkChildren_listable (hS : Serves S t listable) (hF : ∀ n ∈ F.nodes, n ∈ t.folders.nodes)
    (hdepth : F.size ≤ depth) {found : List (Text × String)}
    (h : NameSource.walkChildren (S.walk depth) above (entriesOf F) = .ok found) : ∀ n ∈ F.nodes, listable n.id := by
  induction F generalizing above depth found with
  | nil =>
    intro n hn
    cases hn
  | cons id name items inside beside ihInside ihBeside =>
    rw [nodes_cons] at hF
    have hnode := hF _ List.mem_cons_self
    have hinside : ∀ n ∈ inside.nodes, n ∈ t.folders.nodes := fun n hn =>
      hF n (List.mem_append_left _ (List.mem_cons_of_mem _ hn))
    have hbeside : ∀ n ∈ beside.nodes, n ∈ t.folders.nodes := fun n hn => hF n (List.mem_append_right _ hn)
    simp only [Forest.size] at hdepth
    change NameSource.walkChildren (S.walk depth) above (⟨id, name⟩ :: entriesOf beside) = _ at h
    rw [NameSource.walkChildren] at h
    cases hvisit : S.walk depth id (childPath above name) with
    | error reason =>
      simp only [hvisit] at h
      cases h
    | ok below =>
      cases hrest : NameSource.walkChildren (S.walk depth) above (entriesOf beside) with
      | error reason =>
        simp only [hvisit, hrest] at h
        cases h
      | ok others =>
        have hown : listable id ∧ ∀ n ∈ inside.nodes, listable n.id := by
          cases depth with
          | zero => omega
          | succ depth =>
            rw [NameSource.walk] at hvisit
            by_cases hlistable : listable id
            · have hchildren : S.childFolders id = .ok (entriesOf inside) :=
                hS.folders _ _ _ (holds_node hnode) hlistable
              rw [hchildren] at hvisit
              exact ⟨hlistable, ihInside hinside (by omega) hvisit⟩
            · obtain ⟨reason, hreason⟩ := hS.refuses _ _ _ (holds_node hnode) hlistable
              rw [hreason] at hvisit
              cases hvisit
        intro n hn
        rw [nodes_cons] at hn
        obtain hn | hn := List.mem_append.mp hn
        · obtain rfl | hn := List.mem_cons.mp hn
          · exact hown.1
          · exact hown.2 n hn
        · exact ihBeside hbeside (by omega) hrest n hn

theorem listFolders_ok (hS : Serves S t listable) (hall : ∀ id files inside, t.Holds id files inside → listable id) :
    S.listFolders (t.folders.size + 1) = .ok (([], t.rootId) :: derived t.folders []) := by
  have hroot : t.Holds S.rootId t.files t.folders := .inl ⟨hS.root, rfl, rfl⟩
  have hwalk : NameSource.walkChildren (S.walk t.folders.size) [] (entriesOf t.folders) = .ok (derived t.folders []) :=
    walkChildren_ok hS (fun n hn => ⟨hn, hall _ _ _ (holds_node hn)⟩) (Nat.le_refl _)
  rw [NameSource.listFolders, NameSource.walk, hS.folders _ _ _ hroot (hall _ _ _ hroot)]
  simp only [Except.bind, hwalk, hS.root]
  rfl

theorem listFolders_listable (hS : Serves S t listable) {folders : List (Text × String)}
    (h : S.listFolders (t.folders.size + 1) = .ok folders) (id : String) (files : List Entry)
    (inside : Forest String Text Entry) (hholds : t.Holds id files inside) : listable id := by
  have hroot : t.Holds S.rootId t.files t.folders := .inl ⟨hS.root, rfl, rfl⟩
  rw [NameSource.listFolders, NameSource.walk] at h
  by_cases hlistable : listable S.rootId
  · rw [hS.folders _ _ _ hroot hlistable] at h
    obtain ⟨rfl, -, -⟩ | ⟨n, hn, rfl, -, -⟩ := hholds
    · rwa [hS.root] at hlistable
    · cases hwalk : NameSource.walkChildren (S.walk t.folders.size) [] (entriesOf t.folders) with
      | error reason =>
        simp only [Except.bind, hwalk] at h
        cases h
      | ok found => exact walkChildren_listable hS (fun _ => id) (Nat.le_refl _) hwalk n hn
  · obtain ⟨reason, hreason⟩ := hS.refuses _ _ _ hroot hlistable
    rw [hreason] at h
    cases h

end Walk

section Resolve

variable {S : NameSource} {t : IdTree} {listable : String → Prop} {F : Forest String Text Entry}
  {current id : String} {files : List Entry} {path : Text} {segments : List Text} {n m : Node String Text Entry}

theorem holds_nodes (h : t.Holds current files F) (hn : n ∈ F.nodes) : n ∈ t.folders.nodes := by
  obtain ⟨-, -, rfl⟩ | ⟨r, hr, -, -, rfl⟩ := h
  · exact hn
  · exact Forest.nodes_inside hr hn

theorem node_unique (hn : n ∈ t.folders.nodes) (hm : m ∈ t.folders.nodes) (hid : n.id = m.id) : n = m := by
  obtain ⟨P, hP⟩ := Forest.exists_located hn
  obtain ⟨Q, hQ⟩ := Forest.exists_located hm
  exact (Forest.located_unique (List.nodup_cons.mp t.distinct).2 hP hQ hid).2

theorem mem_entriesOf {child : Entry} (h : child ∈ entriesOf F) : ∃ r ∈ F.roots, child = ⟨r.id, r.name⟩ := by
  obtain ⟨r, hr, rfl⟩ := List.mem_map.mp h
  exact ⟨r, hr, rfl⟩

theorem resolveFrom_sound (hS : Serves S t listable) (hall : ∀ id files inside, t.Holds id files inside → listable id)
    (hholds : t.Holds current files F) (h : S.resolveFrom path current segments = .ok id) :
    segments = [] ∨ ∃ n, (segments, n) ∈ F.located ∧ n.id = id := by
  induction segments generalizing current files F with
  | nil => exact .inl rfl
  | cons segment rest ih =>
    right
    rw [NameSource.resolveFrom, hS.folders _ _ _ hholds (hall _ _ _ hholds)] at h
    simp only [Except.bind] at h
    cases hfind : (entriesOf F).find? fun c => c.name = segment with
    | none =>
      simp only [hfind] at h
      cases h
    | some child =>
      simp only [hfind] at h
      obtain ⟨r, hr, rfl⟩ := mem_entriesOf (List.mem_of_find?_eq_some hfind)
      obtain rfl : r.name = segment := by simpa using List.find?_some hfind
      have hnode := holds_nodes hholds (Forest.roots_nodes hr)
      obtain rfl | ⟨n, hn, hid⟩ := ih (holds_node hnode) h
      · exact ⟨r, Forest.root_located hr, Except.ok.inj h⟩
      · exact ⟨n, Forest.inside_located hr hn, hid⟩

theorem resolveFrom_total (hS : Serves S t listable) (hall : ∀ id files inside, t.Holds id files inside → listable id)
    (hholds : t.Holds current files F)
    (hapart : ∀ P n m, (P, n) ∈ F.located → (P, m) ∈ F.located → n.id = m.id) (hn : (segments, n) ∈ F.located) :
    S.resolveFrom path current segments = .ok n.id := by
  induction segments generalizing current files F with
  | nil => exact absurd rfl (Forest.located_ne_nil hn)
  | cons segment rest ih =>
    obtain ⟨r, hr, hrest⟩ := Forest.mem_located_iff.mp hn
    have hname : r.name = segment := by
      obtain ⟨hP, -⟩ | ⟨Q, hP, -⟩ := hrest
      · exact (List.cons.inj hP).1.symm
      · exact (List.cons.inj hP).1.symm
    subst hname
    have hsome : ∃ child, ((entriesOf F).find? fun c => c.name = r.name) = some child := by
      apply Option.isSome_iff_exists.mp
      rw [List.find?_isSome]
      exact ⟨⟨r.id, r.name⟩, List.mem_map_of_mem hr, decide_eq_true rfl⟩
    obtain ⟨child, hfind⟩ := hsome
    obtain ⟨r', hr', rfl⟩ := mem_entriesOf (List.mem_of_find?_eq_some hfind)
    have hname' : r'.name = r.name := by simpa using List.find?_some hfind
    have hid := hapart _ _ _ (hname' ▸ Forest.root_located hr') (Forest.root_located hr)
    have hsame := node_unique (holds_nodes hholds (Forest.roots_nodes hr')) (holds_nodes hholds (Forest.roots_nodes hr)) hid
    subst hsame
    rw [NameSource.resolveFrom, hS.folders _ _ _ hholds (hall _ _ _ hholds)]
    simp only [Except.bind, hfind]
    obtain ⟨hP, rfl⟩ | ⟨Q, hP, hQ⟩ := hrest
    · obtain ⟨-, rfl⟩ := List.cons.inj hP
      rfl
    · obtain ⟨-, rfl⟩ := List.cons.inj hP
      apply ih (holds_node (holds_nodes hholds (Forest.roots_nodes hr))) _ hQ
      exact fun P n m hn hm => hapart _ _ _ (Forest.inside_located hr hn) (Forest.inside_located hr hm)

end Resolve

section Iff

variable {S : NameSource} {t : IdTree} {listable : String → Prop} {P Q : List Text} {f : Entry}
  {n m : Node String Text Entry}

def Resolves (S : NameSource) (t : IdTree) : Prop :=
  ∀ P n, (P, n) ∈ t.folders.located → S.resolveFolderId (pathOf P) = .ok n.id

theorem named_head (hplain : Plain t) {name : Text} (h : (name :: P, n) ∈ t.folders.located) : name ≠ [] := by
  obtain ⟨r, hr, hrest⟩ := Forest.mem_located_iff.mp h
  have hname : r.name = name := by
    obtain ⟨hP, -⟩ | ⟨Q, hP, -⟩ := hrest
    · exact (List.cons.inj hP).1.symm
    · exact (List.cons.inj hP).1.symm
  rintro rfl
  exact hplain.named _ _ (Forest.root_located hr) (by rw [hname])

theorem splitOn_located (hplain : Plain t) (h : (P, n) ∈ t.folders.located) :
    pathOf P ≠ [] ∧ (pathOf P).splitOn '/' = P := by
  cases P with
  | nil => exact absurd rfl (Forest.located_ne_nil h)
  | cons name P =>
    have hname := named_head hplain h
    constructor
    · rw [pathOf, List.foldl_cons, childPath, if_pos rfl]
      exact foldl_ne_nil hname P
    · rw [splitOn_pathOf hname, flatMap_splitOn (hplain.slashless _ _ h)]

theorem plain_resolves (hS : Serves S t listable) (hall : ∀ id files inside, t.Holds id files inside → listable id)
    (hplain : Plain t) : Resolves S t := by
  intro P n h
  obtain ⟨hne, hsplit⟩ := splitOn_located hplain h
  rw [NameSource.resolveFolderId, if_neg hne, hsplit]
  exact resolveFrom_total hS hall (.inl ⟨hS.root, rfl, rfl⟩) hplain.apart h

theorem resolves_split (hS : Serves S t listable) (hall : ∀ id files inside, t.Holds id files inside → listable id)
    (hresolves : Resolves S t) (h : (P, n) ∈ t.folders.located) : pathOf P ≠ [] ∧ (pathOf P).splitOn '/' = P := by
  have hresolved := hresolves P n h
  have hne : pathOf P ≠ [] := by
    intro hnil
    rw [NameSource.resolveFolderId, if_pos hnil, hS.root] at hresolved
    apply (List.nodup_cons.mp t.distinct).1
    rw [Except.ok.inj hresolved]
    exact List.mem_map_of_mem (Forest.mem_nodes h)
  refine ⟨hne, ?_⟩
  rw [NameSource.resolveFolderId, if_neg hne] at hresolved
  obtain hnil | ⟨m, hm, hid⟩ := resolveFrom_sound hS hall (.inl ⟨hS.root, rfl, rfl⟩) hresolved
  · exact absurd hnil (List.splitOn_ne_nil _ _)
  · exact (Forest.located_unique (List.nodup_cons.mp t.distinct).2 hm h hid).1

theorem mem_filed : (P, f) ∈ t.filed ↔ P = [] ∧ f ∈ t.files ∨ ∃ n, (P, n) ∈ t.folders.located ∧ f ∈ n.items := by
  simp only [IdTree.filed, List.mem_append, List.mem_map, List.mem_flatMap, Prod.mk.injEq, Prod.exists]
  constructor
  · rintro (⟨f', hf', rfl, rfl⟩ | ⟨P', n, hn, f', hf', rfl, rfl⟩)
    · exact .inl ⟨rfl, hf'⟩
    · exact .inr ⟨n, hn, hf'⟩
  · rintro (⟨rfl, hf⟩ | ⟨n, hn, hf⟩)
    · exact .inl ⟨f, hf, rfl, rfl⟩
    · exact .inr ⟨P, n, hn, f, hf, rfl, rfl⟩

theorem listSince_root (hS : Serves S t listable) (hall : ∀ id files inside, t.Holds id files inside → listable id) :
    S.listSince [] = .ok (t.files.map (NameSource.toFileItem [])) := by
  have hroot : t.Holds S.rootId t.files t.folders := .inl ⟨hS.root, rfl, rfl⟩
  rw [NameSource.listSince, NameSource.resolveFolderId, if_pos rfl]
  simp only [Except.bind, hS.files _ _ _ hroot (hall _ _ _ hroot)]
  rfl

theorem listSince_located (hS : Serves S t listable) (hall : ∀ id files inside, t.Holds id files inside → listable id)
    (hresolves : Resolves S t) (h : (P, n) ∈ t.folders.located) :
    S.listSince (pathOf P) = .ok (n.items.map (NameSource.toFileItem (pathOf P))) := by
  have hnode := holds_node (Forest.mem_nodes h)
  rw [NameSource.listSince, hresolves P n h]
  simp only [Except.bind, hS.files _ _ _ hnode (hall _ _ _ hnode)]
  rfl

theorem filed_listed (hS : Serves S t listable) (hall : ∀ id files inside, t.Holds id files inside → listable id)
    (hresolves : Resolves S t) (h : (P, f) ∈ t.filed) :
    ∃ folder ∈ ([], t.rootId) :: derived t.folders [], folder.1 = pathOf P ∧
      ∃ items, S.listSince folder.1 = .ok items ∧ NameSource.toFileItem (pathOf P) f ∈ items := by
  obtain ⟨rfl, hf⟩ | ⟨n, hn, hf⟩ := mem_filed.mp h
  · exact ⟨_, List.mem_cons_self, rfl, _, listSince_root hS hall, List.mem_map_of_mem hf⟩
  · refine ⟨(pathOf P, n.id), List.mem_cons_of_mem _ ?_, rfl, _, listSince_located hS hall hresolves hn,
      List.mem_map_of_mem hf⟩
    exact List.mem_map.mpr ⟨_, hn, rfl⟩

theorem listed_filed (hS : Serves S t listable) (hall : ∀ id files inside, t.Holds id files inside → listable id)
    (hresolves : Resolves S t) {e : Text × String} (he : e ∈ ([], t.rootId) :: derived t.folders [])
    {items : List RawFileItem} (hitems : S.listSince e.1 = .ok items) {i : RawFileItem} (hi : i ∈ items) :
    ∃ P f, (P, f) ∈ t.filed ∧ i = NameSource.toFileItem (pathOf P) f := by
  obtain rfl | he := List.mem_cons.mp he
  · obtain rfl := Except.ok.inj ((listSince_root hS hall).symm.trans hitems)
    obtain ⟨f, hf, rfl⟩ := List.mem_map.mp hi
    exact ⟨[], f, mem_filed.mpr (.inl ⟨rfl, hf⟩), rfl⟩
  · obtain ⟨⟨P, n⟩, hn, rfl⟩ := List.mem_map.mp he
    obtain rfl := Except.ok.inj ((listSince_located hS hall hresolves hn).symm.trans hitems)
    obtain ⟨f, hf, rfl⟩ := List.mem_map.mp hi
    exact ⟨P, f, mem_filed.mpr (.inr ⟨n, hn, hf⟩), rfl⟩

theorem splitOn_filed (hsplit : ∀ P n, (P, n) ∈ t.folders.located → pathOf P ≠ [] ∧ (pathOf P).splitOn '/' = P)
    (h : (P, f) ∈ t.filed) : (childPath (pathOf P) f.name).splitOn '/' = P ++ f.name.splitOn '/' := by
  obtain ⟨rfl, -⟩ | ⟨n, hn, -⟩ := mem_filed.mp h
  · rfl
  · obtain ⟨hne, hnames⟩ := hsplit P n hn
    rw [childPath, if_neg hne, List.splitOn_append_cons_self, hnames]

theorem covered_iff (hS : Serves S t listable) :
    Covered S t ↔ Plain t ∧ ∀ id files inside, t.Holds id files inside → listable id := by
  constructor
  · intro h
    obtain ⟨folders, hfolders, -⟩ := h.covers
    have hall := listFolders_listable hS hfolders
    obtain rfl := Except.ok.inj ((listFolders_ok hS hall).symm.trans hfolders)
    have hsplit : ∀ P n, (P, n) ∈ t.folders.located → pathOf P ≠ [] ∧ (pathOf P).splitOn '/' = P :=
      fun P n hn => resolves_split hS hall h.resolves hn
    refine ⟨⟨?_, ?_, ?_, ?_⟩, hall⟩
    · intro P n hn name hname
      rw [← (hsplit P n hn).2] at hname
      exact splitOn_slashless hname
    · rintro P n hn rfl
      exact (hsplit _ n hn).1 rfl
    · intro P n m hn hm
      exact Except.ok.inj ((h.resolves P n hn).symm.trans (h.resolves P m hm))
    · intro P Q f g hf hg hid heq
      obtain ⟨e, he, -, items, hitems, hi⟩ := filed_listed hS hall h.resolves hf
      obtain ⟨e', he', -, items', hitems', hj⟩ := filed_listed hS hall h.resolves hg
      apply h.distinct _ hfolders e he e' he' items items' hitems hitems' _ hi _ hj hid
      apply splitOn_injective
      exact (splitOn_filed hsplit hf).trans (heq.trans (splitOn_filed hsplit hg).symm)
  · rintro ⟨hplain, hall⟩
    have hresolves := plain_resolves hS hall hplain
    have hsplit : ∀ P n, (P, n) ∈ t.folders.located → pathOf P ≠ [] ∧ (pathOf P).splitOn '/' = P :=
      fun P n hn => splitOn_located hplain hn
    refine ⟨hresolves, ⟨_, listFolders_ok hS hall, ?_⟩, ?_⟩
    · intro P f hf
      obtain ⟨folder, hfolder, -, items, hitems, hi⟩ := filed_listed hS hall hresolves hf
      exact ⟨folder, hfolder, items, hitems, _, hi, rfl⟩
    · intro folders hfolders e he e' he' items items' hitems hitems' i hi j hj hid hpath
      obtain rfl := Except.ok.inj ((listFolders_ok hS hall).symm.trans hfolders)
      obtain ⟨P, f, hf, rfl⟩ := listed_filed hS hall hresolves he hitems hi
      obtain ⟨Q, g, hg, rfl⟩ := listed_filed hS hall hresolves he' hitems' hj
      apply hplain.files P Q f g hf hg hid
      exact (splitOn_filed hsplit hf).symm.trans ((congrArg (List.splitOn '/') hpath).trans (splitOn_filed hsplit hg))

end Iff

section Sources

variable {t : IdTree}

theorem drive_serves (api : DriveApi t) : Serves (googleDriveSource api) t fun _ => True where
  root := rfl
  folders id files inside h _ := congrArg Except.ok (api.folders id files inside h)
  files id files inside h _ := congrArg Except.ok (api.files id files inside h)
  refuses _ _ _ _ h := absurd trivial h

/-- A Box folder is listed if its pages come to an end within a thousand markers. -/
def BoxApi.Listable (api : BoxApi t) (id : String) : Prop := (api.pages id).length ≤ BoxFileSource.MAX_MARKERS

theorem box_serves (api : BoxApi t) : Serves (boxFileSource api) t api.Listable where
  root := rfl
  folders id files inside h hlist := by
    rw [← api.folders id files inside h]
    simp only [boxFileSource, BoxFileSource.listChildren, if_neg (Nat.not_lt.mpr hlist)]
    rfl
  files id files inside h hlist := by
    have hfiles := api.files id files inside h
    simp only [boxFileSource, BoxFileSource.listChildren, if_neg (Nat.not_lt.mpr hlist)]
    exact congrArg Except.ok hfiles
  refuses id files inside _ hlist := by
    refine ⟨BoxFileSource.notStopping, ?_⟩
    simp only [boxFileSource, BoxFileSource.listChildren, if_pos (Nat.lt_of_not_le hlist)]
    rfl

end Sources


end OpenMigrate.Tree
