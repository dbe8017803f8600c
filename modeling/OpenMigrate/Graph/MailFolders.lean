import OpenMigrate.Graph.MailSource
import OpenMigrate.Tree.Covered

namespace OpenMigrate.Graph

open OpenMigrate.Tree GraphMailSource

section Levels

variable {P Q : List Text}

/-- The names of a path: those that lead to the folder, each cut at its own slashes. -/
def levels (P : List Text) : List Text := (P.dropWhile (· = [])).flatMap fun name => name.splitOn '/'

theorem pathOf_dropWhile (P : List Text) : pathOf P = pathOf (P.dropWhile (· = [])) := by
  induction P with
  | nil => rfl
  | cons name P ih =>
    by_cases hname : name = []
    · rw [List.dropWhile_cons_of_pos (by simpa using hname), ← ih, hname]
      rfl
    · rw [List.dropWhile_cons_of_neg (by simpa using hname)]

theorem levels_eq (P : List Text) :
    pathOf P = [] ∧ levels P = [] ∨ levels P ≠ [] ∧ (pathOf P).splitOn '/' = levels P ∧ pathOf P ≠ [] := by
  rw [pathOf_dropWhile, levels]
  cases hdrop : P.dropWhile (· = []) with
  | nil => exact .inl ⟨rfl, rfl⟩
  | cons name rest =>
    have hname : name ≠ [] := by
      intro hnil
      have hhead := List.head_dropWhile_not (fun name : Text => decide (name = [])) (l := P) (by simp [hdrop])
      simp [hdrop, hnil] at hhead
    right
    refine ⟨?_, splitOn_pathOf hname rest, ?_⟩
    · rw [List.flatMap_cons]
      exact List.append_ne_nil_of_left_ne_nil (List.splitOn_ne_nil _ _) _
    · rw [pathOf, List.foldl_cons, childPath, if_pos rfl]
      exact foldl_ne_nil hname rest

theorem pathOf_eq_iff : pathOf P = pathOf Q ↔ levels P = levels Q := by
  constructor
  · intro h
    obtain ⟨hP, hP'⟩ | ⟨-, hP, hP'⟩ := levels_eq P <;> obtain ⟨hQ, hQ'⟩ | ⟨-, hQ, hQ'⟩ := levels_eq Q
    · rw [hP', hQ']
    · exact absurd (h.symm.trans hP) hQ'
    · exact absurd (h.trans hQ) hP'
    · rw [← hP, ← hQ, h]
  · intro h
    obtain ⟨hP, hP'⟩ | ⟨hne, hP, -⟩ := levels_eq P <;> obtain ⟨hQ, hQ'⟩ | ⟨hne', hQ, -⟩ := levels_eq Q
    · rw [hP, hQ]
    · exact absurd (h.symm.trans hP') hne'
    · exact absurd (h.trans hQ') hne
    · apply splitOn_injective
      rw [hP, hQ, h]

end Levels

section Walk

variable {t : MailTree} (api : MailApi t)

/-- A listing still to come: whose it is, under which path, and the folders that it has. -/
structure Pending where
  parent : Option String
  parentPath : Text
  folders : Forest String Text GraphMessage

def Pending.Served (q : Pending) : Prop :=
  (api.folderPages q.parent).flatten = foldersOf q.folders ∧ ∀ n ∈ q.folders.nodes, n ∈ t.folders.nodes

/-- How many listings there are in all with these first. -/
def work : List Pending → ℕ
  | [] => 0
  | q :: pending => q.folders.size + 1 + work pending

def below (parentPath : Text) (F : Forest String Text GraphMessage) : List Pending :=
  (F.roots.filter fun n => 0 < n.inside.roots.length).map fun n => ⟨some n.id, childPath parentPath n.name, n.inside⟩

variable {api}

theorem work_append (pending later : List Pending) : work (pending ++ later) = work pending + work later := by
  induction pending with
  | nil => simp [work]
  | cons q pending ih =>
    simp only [List.cons_append, work, ih]
    omega

theorem work_below (parentPath : Text) (F : Forest String Text GraphMessage) : work (below parentPath F) ≤ F.size := by
  induction F with
  | nil => rfl
  | cons id name items inside beside _ ih =>
    simp only [below, Forest.roots, Forest.size] at ih ⊢
    by_cases hinside : 0 < inside.roots.length
    · rw [List.filter_cons_of_pos (by simpa using hinside), List.map_cons, work]
      simp only
      omega
    · rw [List.filter_cons_of_neg (by simpa using hinside)]
      omega

theorem queued_foldersOf (parentPath : Text) (F : Forest String Text GraphMessage) :
    (foldersOf F).filterMap (queued parentPath) = (below parentPath F).map fun q => (q.parent, q.parentPath) := by
  simp only [foldersOf, below, List.filterMap_map, List.map_map]
  induction F.roots with
  | nil => rfl
  | cons n roots ih =>
    by_cases hinside : 0 < n.inside.roots.length
    · rw [List.filter_cons_of_pos (by simpa using hinside), List.map_cons, ← ih, List.filterMap_cons]
      simp only [Function.comp_apply, queued, Option.getD_some, if_pos hinside]
    · rw [List.filter_cons_of_neg (by simpa using hinside), ← ih, List.filterMap_cons]
      simp only [Function.comp_apply, queued, Option.getD_some, if_neg hinside]

theorem below_served {q : Pending} (hq : q.Served api) : ∀ r ∈ below q.parentPath q.folders, r.Served api := by
  intro r hr
  obtain ⟨n, hn, rfl⟩ := List.mem_map.mp hr
  have hnode := hq.2 n (Forest.roots_nodes (List.mem_filter.mp hn).1)
  exact ⟨api.inside n hnode, fun m hm => Forest.nodes_inside hnode hm⟩

/-- A folder of a listing still to come: its path and identifier. -/
def Lists (q : Pending) (path : Text) (id : String) : Prop :=
  ∃ P n, (P, n) ∈ q.folders.located ∧ path = P.foldl childPath q.parentPath ∧ id = n.id

theorem lists_iff {q : Pending} {path : Text} {id : String} :
    Lists q path id ↔ (∃ n ∈ q.folders.roots, path = childPath q.parentPath n.name ∧ id = n.id) ∨
      ∃ r ∈ below q.parentPath q.folders, Lists r path id := by
  constructor
  · rintro ⟨P, n, hn, rfl, rfl⟩
    obtain ⟨r, hr, ⟨rfl, rfl⟩ | ⟨P, rfl, hP⟩⟩ := Forest.mem_located_iff.mp hn
    · exact .inl ⟨n, hr, rfl, rfl⟩
    · right
      refine ⟨⟨some r.id, childPath q.parentPath r.name, r.inside⟩, ?_, P, n, hP, rfl, rfl⟩
      apply List.mem_map_of_mem (List.mem_filter.mpr ⟨hr, _⟩)
      apply decide_eq_true
      obtain ⟨s, hs, -⟩ := Forest.mem_located_iff.mp hP
      exact List.length_pos_of_mem hs
  · rintro (⟨n, hn, rfl, rfl⟩ | ⟨r, hr, P, m, hm, rfl, rfl⟩)
    · exact ⟨[n.name], n, Forest.root_located hn, rfl, rfl⟩
    · obtain ⟨n, hn, rfl⟩ := List.mem_map.mp hr
      exact ⟨n.name :: P, m, Forest.inside_located (List.mem_filter.mp hn).1 hm, rfl, rfl⟩

/-- With steps enough the walk lists the folders of every listing in the queue. -/
theorem mem_walkQueue {steps : ℕ} {pending : List Pending} (hserved : ∀ q ∈ pending, q.Served api)
    (hsteps : work pending ≤ steps) (path : Text) (id : String) :
    (∃ e ∈ walkQueue api steps (pending.map fun q => (q.parent, q.parentPath)),
      e.1.path = String.ofList path ∧ e.2 = id) ↔ ∃ q ∈ pending, Lists q path id := by
  induction steps generalizing pending with
  | zero =>
    cases pending with
    | nil => simp [walkQueue]
    | cons q pending => simp [work] at hsteps
  | succ steps ih =>
    cases pending with
    | nil => simp [walkQueue]
    | cons q pending =>
      have hq := hserved q List.mem_cons_self
      have hrest : ∀ r ∈ pending ++ below q.parentPath q.folders, r.Served api := by
        intro r hr
        obtain hr | hr := List.mem_append.mp hr
        · exact hserved r (List.mem_cons_of_mem q hr)
        · exact below_served hq r hr
      have hwork : work (pending ++ below q.parentPath q.folders) ≤ steps := by
        have hbelow := work_below q.parentPath q.folders
        rw [work] at hsteps
        rw [work_append]
        omega
      have htail := ih hrest hwork
      rw [List.map_cons, walkQueue, hq.1]
      simp only [queued_foldersOf, ← List.map_append]
      constructor
      · rintro ⟨e, he, hpath, hid⟩
        obtain he | he := List.mem_append.mp he
        · obtain ⟨f, hf, rfl⟩ := List.mem_map.mp he
          obtain ⟨n, hn, rfl⟩ := List.mem_map.mp hf
          refine ⟨q, List.mem_cons_self, lists_iff.mpr (.inl ⟨n, hn, ?_, hid.symm⟩)⟩
          exact (String.ofList_injective hpath).symm
        · obtain ⟨r, hr, hlists⟩ := htail.mp ⟨e, he, hpath, hid⟩
          obtain hr | hr := List.mem_append.mp hr
          · exact ⟨r, List.mem_cons_of_mem q hr, hlists⟩
          · exact ⟨q, List.mem_cons_self, lists_iff.mpr (.inr ⟨r, hr, hlists⟩)⟩
      · rintro ⟨r, hr, hlists⟩
        have hlater : (∃ s ∈ pending ++ below q.parentPath q.folders, Lists s path id) ∨
            ∃ n ∈ q.folders.roots, path = childPath q.parentPath n.name ∧ id = n.id := by
          obtain rfl | hr := List.mem_cons.mp hr
          · obtain hroot | ⟨s, hs, hlists⟩ := lists_iff.mp hlists
            · exact .inr hroot
            · exact .inl ⟨s, List.mem_append_right _ hs, hlists⟩
          · exact .inl ⟨r, List.mem_append_left _ hr, hlists⟩
        obtain hlater | ⟨n, hn, rfl, rfl⟩ := hlater
        · obtain ⟨e, he, hpath, hid⟩ := htail.mpr hlater
          exact ⟨e, List.mem_append_right _ he, hpath, hid⟩
        · refine ⟨_, List.mem_append_left _ (List.mem_map_of_mem (List.mem_map_of_mem hn)), rfl, rfl⟩

theorem mem_listFolders {path : Text} {id : String} :
    (∃ e ∈ GraphMailSource.listFolders api, e.1.path = String.ofList path ∧ e.2 = id) ↔
      ∃ P n, (P, n) ∈ t.folders.located ∧ path = pathOf P ∧ id = n.id := by
  have hserved : ∀ q ∈ [Pending.mk none [] t.folders], q.Served api := by
    intro q hq
    obtain rfl := List.mem_singleton.mp hq
    exact ⟨api.top, fun n hn => hn⟩
  have hwork : work [Pending.mk none [] t.folders] ≤ t.folders.size + 1 := Nat.le_refl _
  have hwalk := mem_walkQueue hserved hwork path id
  simp only [List.mem_singleton, exists_eq_left] at hwalk
  exact hwalk

end Walk

section Iff

variable {t : MailTree} {api : MailApi t} {listed : List (MailFolder × String)} {P Q : List Text}
  {n : Node String Text GraphMessage} {m : GraphMessage}

/-- What a source has of the folders: nothing as yet, or its last listing. -/
def Remembered (api : MailApi t) (listed : List (MailFolder × String)) : Prop :=
  listed = [] ∨ listed = GraphMailSource.listFolders api

/-- Every message is listed, and a path leads back to the folder it was derived from. -/
structure MailCovered (api : MailApi t) : Prop where
  resolves : ∀ listed, Remembered api listed → ∀ P n, (P, n) ∈ t.folders.located →
    resolveFolderId api listed (String.ofList (pathOf P)) = .ok n.id
  covers : ∀ listed, Remembered api listed → ∀ n ∈ t.folders.nodes, ∀ m ∈ n.items,
    ∃ e ∈ GraphMailSource.listFolders api, ∃ listing, GraphMailSource.listSince api listed e.1 none = .ok listing ∧
      ∃ item ∈ listing.items, item.sourceRef = m.id

/-- No two folders have the same names once each is cut at its slashes, and every message has an `internetMessageId`. -/
structure MailPlain (t : MailTree) : Prop where
  apart : ∀ P Q n m, (P, n) ∈ t.folders.located → (Q, m) ∈ t.folders.located → levels P = levels Q → n.id = m.id
  keyed : ∀ n ∈ t.folders.nodes, ∀ m ∈ n.items, (m.internetMessageId.filter (· ≠ "")).isSome

theorem folderIds_located {id : String}
    (h : folderIds (GraphMailSource.listFolders api) (String.ofList (pathOf P)) = some id) :
    ∃ Q n, (Q, n) ∈ t.folders.located ∧ pathOf P = pathOf Q ∧ id = n.id := by
  obtain ⟨hid, -⟩ := Option.filter_eq_some_iff.mp h
  obtain ⟨e, hfind, rfl⟩ := Option.map_eq_some_iff.mp hid
  apply mem_listFolders.mp
  refine ⟨e, List.mem_reverse.mp (List.mem_of_find?_eq_some hfind), ?_, rfl⟩
  simpa using List.find?_some hfind

theorem folderIds_isSome (h : (P, n) ∈ t.folders.located) :
    ∃ id, folderIds (GraphMailSource.listFolders api) (String.ofList (pathOf P)) = some id := by
  obtain ⟨e, he, hpath, -⟩ := mem_listFolders.mpr ⟨P, n, h, rfl, rfl⟩
  have hsome : ((GraphMailSource.listFolders api).reverse.find? fun e => e.1.path = String.ofList (pathOf P)).isSome := by
    rw [List.find?_isSome]
    exact ⟨e, List.mem_reverse.mpr he, decide_eq_true hpath⟩
  obtain ⟨e', hfind⟩ := Option.isSome_iff_exists.mp hsome
  have hmem : ∃ Q m, (Q, m) ∈ t.folders.located ∧ pathOf P = pathOf Q ∧ e'.2 = m.id := by
    apply mem_listFolders.mp
    refine ⟨e', List.mem_reverse.mp (List.mem_of_find?_eq_some hfind), ?_, rfl⟩
    simpa using List.find?_some hfind
  obtain ⟨Q, m, hm, -, hid⟩ := hmem
  refine ⟨e'.2, Option.filter_eq_some_iff.mpr ⟨Option.map_eq_some_iff.mpr ⟨e', hfind, rfl⟩, ?_⟩⟩
  apply decide_eq_true
  intro hempty
  apply t.named
  rw [← hempty, hid]
  exact List.mem_map_of_mem (Forest.mem_nodes hm)

theorem resolveFolderId_eq (hlisted : Remembered api listed) (h : (P, n) ∈ t.folders.located) :
    ∃ Q m, (Q, m) ∈ t.folders.located ∧ pathOf P = pathOf Q ∧
      resolveFolderId api listed (String.ofList (pathOf P)) = .ok m.id := by
  have hsome : ∃ id, folderIds (GraphMailSource.listFolders api) (String.ofList (pathOf P)) = some id :=
    folderIds_isSome h
  obtain ⟨id, hid⟩ := hsome
  obtain ⟨Q, m, hm, hpath, rfl⟩ := folderIds_located hid
  refine ⟨Q, m, hm, hpath, ?_⟩
  obtain rfl | rfl := hlisted
  · rw [resolveFolderId, hid]
    rfl
  · rw [resolveFolderId, hid]
    rfl

theorem listSince_of_resolves (hn : n ∈ t.folders.nodes) {folder : MailFolder}
    (h : resolveFolderId api listed folder.path = .ok n.id) :
    ∃ listing, GraphMailSource.listSince api listed folder none = .ok listing ∧
      listing.items = n.items.filterMap toMailItem := by
  obtain ⟨link, hlink⟩ := Option.isSome_iff_exists.mp (api.ends n hn)
  rw [GraphMailSource.listSince, Option.filter_none]
  simp only [h, Except.bind, listingOf, hlink]
  exact ⟨_, rfl, by rw [api.held n hn]⟩

theorem message_unique {n' : Node String Text GraphMessage} {m' : GraphMessage} (hn : n ∈ t.folders.nodes)
    (hm : m ∈ n.items) (hn' : n' ∈ t.folders.nodes) (hm' : m' ∈ n'.items) (hid : m.id = m'.id) : m = m' :=
  List.inj_on_of_nodup_map t.messages (List.mem_flatMap.mpr ⟨n, hn, hm⟩) (List.mem_flatMap.mpr ⟨n', hn', hm'⟩) hid

theorem toMailItem_isSome : (toMailItem m).isSome = (m.internetMessageId.filter (· ≠ "")).isSome := Option.isSome_map

theorem mailCovered_iff : MailCovered api ↔ MailPlain t := by
  constructor
  · intro h
    constructor
    · intro P Q n m hn hm hlevels
      have hP := h.resolves [] (.inl rfl) P n hn
      have hQ := h.resolves [] (.inl rfl) Q m hm
      rw [pathOf_eq_iff.mpr hlevels] at hP
      exact Except.ok.inj (hP.symm.trans hQ)
    · intro n hn m hm
      obtain ⟨e, he, listing, hlisting, item, hitem, hid⟩ := h.covers [] (.inl rfl) n hn m hm
      obtain ⟨P, n', hn', hpath, -⟩ := mem_listFolders.mp ⟨e, he, (String.ofList_toList).symm, rfl⟩
      have hresolved := h.resolves [] (.inl rfl) P n' hn'
      rw [← hpath, String.ofList_toList] at hresolved
      obtain ⟨listing', hlisting', hitems⟩ := listSince_of_resolves (Forest.mem_nodes hn') hresolved
      obtain rfl := Except.ok.inj (hlisting'.symm.trans hlisting)
      rw [hitems] at hitem
      obtain ⟨m', hm', hitem'⟩ := List.mem_filterMap.mp hitem
      have href : item.sourceRef = m'.id := by
        obtain ⟨messageId, -, rfl⟩ := Option.map_eq_some_iff.mp hitem'
        rfl
      obtain rfl := message_unique hn hm (Forest.mem_nodes hn') hm' (hid.symm.trans href)
      rw [← toMailItem_isSome, hitem']
      rfl
  · intro h
    have hresolves : ∀ listed, Remembered api listed → ∀ P n, (P, n) ∈ t.folders.located →
        resolveFolderId api listed (String.ofList (pathOf P)) = .ok n.id := by
      intro listed hlisted P n hn
      obtain ⟨Q, m, hm, hpath, hresolved⟩ := resolveFolderId_eq hlisted hn
      rw [hresolved, h.apart P Q n m hn hm (pathOf_eq_iff.mp hpath)]
    refine ⟨hresolves, ?_⟩
    intro listed hlisted n hn m hm
    obtain ⟨P, hP⟩ := Forest.exists_located hn
    obtain ⟨e, he, hpath, -⟩ := mem_listFolders.mpr ⟨P, n, hP, rfl, rfl⟩
    have hresolved := hresolves listed hlisted P n hP
    rw [← hpath] at hresolved
    obtain ⟨listing, hlisting, hitems⟩ := listSince_of_resolves hn hresolved
    have hkeyed := h.keyed n hn m hm
    rw [← toMailItem_isSome] at hkeyed
    obtain ⟨item, hitem⟩ := Option.isSome_iff_exists.mp hkeyed
    refine ⟨e, he, listing, hlisting, item, ?_, ?_⟩
    · rw [hitems]
      exact List.mem_filterMap.mpr ⟨m, hm, hitem⟩
    · obtain ⟨messageId, -, rfl⟩ := Option.map_eq_some_iff.mp hitem
      rfl

end Iff

section Sources

/-- A Drive or a Box account is covered where names tell its folders and its files apart, at Box if no folder takes over a
thousand markers to list; a mailbox where paths tell its folders apart and each message has an `internetMessageId`. -/
theorem folders_covered_iff {drive box : IdTree} {mail : MailTree} (driveApi : DriveApi drive) (boxApi : BoxApi box)
    (mailApi : MailApi mail) :
    (Covered (googleDriveSource driveApi) drive ↔ Plain drive) ∧
      (Covered (boxFileSource boxApi) box ↔
        Plain box ∧ ∀ id files inside, box.Holds id files inside → boxApi.Listable id) ∧
      (MailCovered mailApi ↔ MailPlain mail) := by
  refine ⟨?_, covered_iff (box_serves boxApi), mailCovered_iff⟩
  rw [covered_iff (drive_serves driveApi)]
  exact and_iff_left fun _ _ _ _ => trivial

def slashed : IdTree where
  rootId := "root"
  files := []
  folders := .cons "a" "x/y".toList [⟨"f", "f".toList⟩] .nil .nil
  distinct := by decide

def slashedApi : DriveApi slashed where
  pages id foldersOnly :=
    if id = "root" then if foldersOnly then [entriesOf slashed.folders] else [[]]
    else if foldersOnly then [[]] else [[⟨"f", "f".toList⟩]]
  folders := by
    rintro id files inside (⟨rfl, -, rfl⟩ | ⟨n, hn, rfl, -, rfl⟩)
    · rfl
    · obtain rfl := List.mem_singleton.mp hn
      rfl
  files := by
    rintro id files inside (⟨rfl, rfl, -⟩ | ⟨n, hn, rfl, rfl, -⟩)
    · rfl
    · obtain rfl := List.mem_singleton.mp hn
      rfl

/-- The path of a folder named `x/y` does not lead back to it. -/
theorem slashed_is_not_covered : ¬ Covered (googleDriveSource slashedApi) slashed := by
  intro h
  have hresolved := h.resolves ["x/y".toList] ⟨"a", "x/y".toList, [⟨"f", "f".toList⟩], .nil⟩ List.mem_cons_self
  exact absurd hresolved (by decide)

end Sources

end OpenMigrate.Graph
