import OpenMigrate.Graph.DriveSource
import OpenMigrate.Dav.WebdavTree
import OpenMigrate.Sync.Steady

namespace OpenMigrate.Graph

open Dav (NamePath joinPath IsName Single CollectionFolder FileItem)

section Text

/-- The service takes no name with a slash or a colon in it, and none that means a folder by its place. -/
structure IsDriveName (name : List Char) : Prop where
  isName : IsName name
  colon : ':' ∉ name
  dot : name ≠ ['.']
  dots : name ≠ ['.', '.']

def drivePath (p : NamePath) : List Char := p.flatMap ('/' :: ·)

variable {p q : NamePath}

theorem drivePath_append (name : List Char) : drivePath (p ++ [name]) = drivePath p ++ '/' :: name := by
  simp [drivePath]

theorem drivePath_eq (hp : p ≠ []) : drivePath p = '/' :: joinPath p := by
  induction p with
  | nil => exact absurd rfl hp
  | cons name p ih =>
    cases p with
    | nil => simp [drivePath, Dav.joinPath_singleton]
    | cons next rest =>
      have hrest := ih (by simp)
      rw [Dav.joinPath_cons name (by simp)]
      simp only [drivePath, List.flatMap_cons] at hrest ⊢
      rw [hrest]
      rfl

theorem drivePath_split (hp : p ≠ []) (hnames : ∀ name ∈ p, IsDriveName name) : (drivePath p).splitOn '/' = [] :: p := by
  have hslash : ∀ name ∈ p, '/' ∉ name := fun name hname => (hnames name hname).isName.2
  have hcons : drivePath p = [] ++ '/' :: joinPath p := drivePath_eq hp
  rw [hcons, List.splitOn_append_cons_self_of_not_mem (by simp), joinPath, List.splitOn_intercalate _ hslash hp]

theorem drivePath_injective (hp : ∀ name ∈ p, IsDriveName name) (hq : ∀ name ∈ q, IsDriveName name)
    (h : drivePath p = drivePath q) : p = q := by
  by_cases hpn : p = []
  · subst hpn
    by_cases hqn : q = []
    · exact hqn.symm
    · rw [drivePath_eq hqn] at h
      cases h
  · by_cases hqn : q = []
    · subst hqn
      rw [drivePath_eq hpn] at h
      cases h
    · have hsplit := congrArg (List.splitOn '/') h
      rw [drivePath_split hpn hp, drivePath_split hqn hq] at hsplit
      exact (List.cons.inj hsplit).2

theorem drivePath_colon (hp : ∀ name ∈ p, IsDriveName name) : ':' ∉ drivePath p := by
  intro hmem
  obtain ⟨name, hname, hc⟩ := List.mem_flatMap.mp hmem
  rcases List.mem_cons.mp hc with hc | hc
  · exact absurd hc (by decide)
  · exact (hp name hname).colon hc

theorem drivePath_ne_root (hp : p ≠ []) (hnames : ∀ name ∈ p, IsDriveName name) : drivePath p ≠ ['/'] := by
  intro heq
  have hsplit := drivePath_split hp hnames
  rw [heq] at hsplit
  have hname : IsDriveName [] := hnames [] (by
    have hsingle : (['/'] : List Char).splitOn '/' = [[], []] := by decide
    rw [hsingle] at hsplit
    rw [← (List.cons.inj hsplit).2]
    simp)
  exact hname.isName.1 rfl

theorem resolveDots_eq (hnames : ∀ name ∈ p, IsDriveName name) : resolveDots ([] :: p) = p := by
  have hfold : ∀ resolved : NamePath, p.foldl (fun resolved segment =>
      if segment = ['.'] ∨ segment = [] then resolved
      else if segment = ['.', '.'] then resolved.dropLast
      else resolved ++ [segment]) resolved = resolved ++ p := by
    induction p with
    | nil => simp
    | cons name p ih =>
      intro resolved
      have hname := hnames name List.mem_cons_self
      have hdot : ¬ (name = ['.'] ∨ name = []) := fun h => h.elim hname.dot hname.isName.1
      rw [List.foldl_cons, if_neg hdot, if_neg hname.dots, ih fun n hn => hnames n (List.mem_cons_of_mem name hn)]
      simp
  simpa [resolveDots] using hfold []

theorem drivePath_single (hnames : ∀ name ∈ p, IsDriveName name) : Single (drivePath p) := by
  by_cases hp : p = []
  · subst hp
    exact List.isChain_nil
  · have hnames' : ∀ name ∈ p, IsName name := fun name hname => (hnames name hname).isName
    obtain ⟨⟨c, hc, hcne⟩, -⟩ := Dav.joinPath_ends hp hnames'
    rw [drivePath_eq hp]
    refine (Dav.joinPath_single hnames').cons ?_
    rintro y hy ⟨-, rfl⟩
    rw [hc] at hy
    exact hcne (Option.some.inj hy)

theorem normalizePath_drivePath (hp : p ≠ []) (hnames : ∀ name ∈ p, IsDriveName name) :
    normalizePath (drivePath p) = drivePath p := by
  obtain ⟨-, c, hlast, hcne⟩ := Dav.joinPath_ends hp fun name hname => (hnames name hname).isName
  have hcons := drivePath_eq hp
  have hne : drivePath p ≠ [] := by simp [hcons]
  have hhead : (drivePath p).head? = some '/' := by simp [hcons]
  have hend : (drivePath p).getLast? ≠ some '/' := by
    rw [hcons, List.getLast?_cons, hlast]
    exact fun heq => hcne (Option.some.inj heq)
  have hresolved : '/' :: List.intercalate ['/'] (resolveDots ((drivePath p).splitOn '/')) = drivePath p := by
    rw [drivePath_split hp hnames, resolveDots_eq hnames, hcons]
    rfl
  simp only [normalizePath, hne, ↓reduceIte, hhead, Dav.collapse_eq (drivePath_single hnames), hresolved, hend, and_false]

theorem afterMarker_eq {address : List Char} (h : ':' ∉ address) (rest : List Char) :
    afterMarker (address ++ ['r', 'o', 'o', 't', ':'] ++ rest) = some rest := by
  induction address with
  | nil => simp [afterMarker]
  | cons c address ih =>
    have hc : ':' ∉ c :: address := h
    rw [List.mem_cons, not_or] at h
    have hprefix : ¬ ['r', 'o', 'o', 't', ':'].isPrefixOf (c :: (address ++ ['r', 'o', 'o', 't', ':'] ++ rest)) = true := by
      intro hp
      obtain ⟨tail, htail⟩ := List.isPrefixOf_iff_prefix.mp hp
      -- up to the first colon, the one text is longer than the other
      have htake := congrArg (List.takeWhile (· != ':')) htail
      have hleft : (c :: (address ++ ['r', 'o', 'o', 't', ':'] ++ rest)).takeWhile (· != ':') =
          (c :: address) ++ ['r', 'o', 'o', 't'] := by
        have hassoc : c :: (address ++ ['r', 'o', 'o', 't', ':'] ++ rest) =
            (c :: address) ++ ('r' :: 'o' :: 'o' :: 't' :: ':' :: rest) := by simp
        rw [hassoc, List.takeWhile_append_of_pos]
        · simp
        · intro a ha
          simp only [bne_iff_ne, ne_eq]
          rintro rfl
          exact hc ha
      rw [hleft] at htake
      have hlen := congrArg List.length htake
      simp at hlen
    rw [List.cons_append, List.cons_append, afterMarker, if_neg hprefix]
    exact ih h.2

theorem decodeCursor_encodeCursor {folderPath : List Char} (h : ':' ∉ folderPath) (deltaLink : List Char) :
    decodeCursor (encodeCursor folderPath deltaLink) = some deltaLink := by
  have htag : cursorTag.isPrefixOf (encodeCursor folderPath deltaLink) = true :=
    List.isPrefixOf_iff_prefix.mpr (List.prefix_append _ _)
  have hdrop : (encodeCursor folderPath deltaLink).drop cursorTag.length = folderPath ++ ':' :: deltaLink := by
    rw [encodeCursor, List.drop_left]
  have hne : deltaLink.splitOn ':' ≠ [] := List.splitOn_ne_nil _ _
  have hlen : ¬ (folderPath :: deltaLink.splitOn ':').length < 2 := by
    have hpos := List.length_pos_of_ne_nil hne
    simp only [List.length_cons]
    omega
  simp only [decodeCursor, htag, ↓reduceIte, hdrop, List.splitOn_append_cons_self_of_not_mem h, hlen, List.drop_succ_cons,
    List.drop_zero, List.intercalate_splitOn]

end Text

structure DriveEntry where
  id : String
  folder : Bool

/-- A drive as it is, by the paths of all that is on it; only folders hold anything. -/
structure DriveTree where
  entries : List (NamePath × DriveEntry)
  named : ∀ e ∈ entries, e.1 ≠ [] ∧ ∀ name ∈ e.1, IsDriveName name
  parent : ∀ e ∈ entries, e.1.dropLast = [] ∨ ∃ r, (e.1.dropLast, r) ∈ entries ∧ r.folder = true

namespace DriveTree

variable (t : DriveTree)

def IsFolder (p : NamePath) : Prop := p = [] ∨ ∃ r, (p, r) ∈ t.entries ∧ r.folder = true

def IsFile (p : NamePath) : Prop := ∃ r, (p, r) ∈ t.entries ∧ r.folder = false

/-- All files lie in the root, and no folder is deeper than the walk goes. -/
structure Flat : Prop where
  files : ∀ p, t.IsFile p → p.length = 1
  folders : ∀ p, t.IsFolder p → p.length ≤ MAX_FOLDER_DEPTH

variable {t} {p q : NamePath}

theorem folder_names (hp : t.IsFolder p) : ∀ name ∈ p, IsDriveName name := by
  rcases hp with rfl | ⟨r, hr, -⟩
  · simp
  · exact (t.named _ hr).2

theorem file_names (hp : t.IsFile p) : p ≠ [] ∧ ∀ name ∈ p, IsDriveName name := by
  obtain ⟨r, hr, -⟩ := hp
  exact t.named _ hr

theorem file_parent (hp : t.IsFile p) : t.IsFolder p.dropLast := by
  obtain ⟨r, hr, -⟩ := hp
  exact t.parent _ hr

theorem folder_prefix (hq : t.IsFolder q) (hpq : p <+: q) : t.IsFolder p := by
  induction q using List.reverseRecOn with
  | nil =>
    obtain rfl := List.prefix_nil.mp hpq
    exact hq
  | append_singleton q name ih =>
    rcases List.prefix_concat_iff.mp hpq with heq | hpq
    · rw [heq]
      exact hq
    · refine ih ?_ hpq
      rcases hq with hnil | ⟨r, hr, -⟩
      · simp at hnil
      · have hparent := t.parent _ hr
        simpa [IsFolder] using hparent

end DriveTree

/-- What the service says of an entry, addressed somehow in front of `root:`. -/
structure Reports (e : NamePath × DriveEntry) (item : GraphDriveItem) : Prop where
  id : item.id = e.2.id
  name : e.1.getLast? = some item.name
  parentPath : ∃ address, ':' ∉ address ∧
    item.parentPath = some (address ++ ['r', 'o', 'o', 't', ':'] ++ drivePath e.1.dropLast)
  folder : item.folder = e.2.folder
  deleted : item.deleted = false

/-- An item of a delta under `p`: some folder, or an entry below `p`. -/
def ReportsBelow (t : DriveTree) (p : NamePath) (item : GraphDriveItem) : Prop :=
  item.deleted = false ∧ (item.folder = true ∨ ∃ e ∈ t.entries, p <+: e.1 ∧ p ≠ e.1 ∧ Reports e item)

def childrenUrl (client : GraphClient) (p : NamePath) (id : String) : List Char :=
  if p = [] then rootChildren client else childrenOf client id

/-- A drive on which nothing changes: a folder's children are listed, its delta is all that lies below it,
and `issued` has the links by which the delta of a folder goes on. -/
structure AtRest (client : GraphClient) (t : DriveTree) (issued : NamePath → List Char → Prop) : Prop where
  children : ∀ p r, p = [] ∨ (p, r) ∈ t.entries ∧ r.folder = true → ∃ value link,
    readDelta (client.get (childrenUrl client p r.id)) = .ok (value, link) ∧
    (∀ item ∈ value, ∃ e ∈ t.entries, e.1.dropLast = p ∧ Reports e item) ∧
    ∀ e ∈ t.entries, e.1.dropLast = p → ∃ item ∈ value, Reports e item
  delta : ∀ p, t.IsFolder p → ∃ value link,
    readDelta (client.get (deltaUrl client (drivePath p))) = .ok (value, some link) ∧ issued p link ∧
    (∀ item ∈ value, ReportsBelow t p item) ∧
    ∀ e ∈ t.entries, p <+: e.1 → p ≠ e.1 → ∃ item ∈ value, Reports e item
  again : ∀ p, t.IsFolder p → ∀ link, issued p link → ∃ value link',
    readDelta (client.get link) = .ok (value, some link') ∧ issued p link' ∧ ∀ item ∈ value, ReportsBelow t p item

section Items

variable {t : DriveTree} {client : GraphClient} {issued : NamePath → List Char → Prop} {p : NamePath}

theorem itemPath_of_reports {e : NamePath × DriveEntry} (he : e ∈ t.entries) {item : GraphDriveItem}
    (h : Reports e item) : itemPath item = some (drivePath e.1) := by
  obtain ⟨hp, hnames⟩ := t.named e he
  obtain ⟨address, hcolon, hparent⟩ := h.parentPath
  have hlast : e.1.getLast hp = item.name := by
    have hname := h.name
    rw [List.getLast?_eq_some_getLast hp] at hname
    exact Option.some.inj hname
  have hname : item.name ≠ [] := by
    rw [← hlast]
    exact (hnames _ (List.getLast_mem hp)).isName.1
  have hpath : drivePath e.1.dropLast ++ '/' :: item.name = drivePath e.1 := by
    rw [← drivePath_append, ← hlast, List.dropLast_append_getLast hp]
  rw [itemPath, if_neg hname, hparent, Option.bind_some, afterMarker_eq hcolon, Option.map_some, hpath,
    normalizePath_drivePath hp hnames]

theorem mem_listed {value : List GraphDriveItem} (h : ∀ item ∈ value, ReportsBelow t p item) {file : FileItem}
    (hfile : file ∈ (value.filter fun item => !item.deleted && !item.folder).filterMap fun item =>
      (itemPath item).map (toFileItem item)) :
    ∃ q, t.IsFile q ∧ p <+: q ∧ p ≠ q ∧ file.path = String.ofList (drivePath q) := by
  obtain ⟨item, hitem, hpath⟩ := List.mem_filterMap.mp hfile
  obtain ⟨hmem, hkept⟩ := List.mem_filter.mp hitem
  simp only [Bool.and_eq_true, Bool.not_eq_true'] at hkept
  obtain ⟨-, hfolder | ⟨e, he, hbelow, hne, hreports⟩⟩ := h item hmem
  · rw [hkept.2] at hfolder
    cases hfolder
  · rw [itemPath_of_reports he hreports, Option.map_some, Option.some.injEq] at hpath
    refine ⟨e.1, ⟨e.2, he, ?_⟩, hbelow, hne, ?_⟩
    · rw [← hreports.folder, hkept.2]
    · rw [← hpath]
      rfl

theorem listed_of_reports {value : List GraphDriveItem} {e : NamePath × DriveEntry} (he : e ∈ t.entries)
    (hfile : e.2.folder = false) {item : GraphDriveItem} (hitem : item ∈ value) (h : Reports e item) :
    ∃ file ∈ (value.filter fun item => !item.deleted && !item.folder).filterMap fun item =>
      (itemPath item).map (toFileItem item), file.path = String.ofList (drivePath e.1) := by
  have hkept : item ∈ value.filter fun item => !item.deleted && !item.folder := by
    refine List.mem_filter.mpr ⟨hitem, ?_⟩
    rw [h.deleted, h.folder, hfile]
    rfl
  refine ⟨toFileItem item (drivePath e.1), List.mem_filterMap.mpr ⟨item, hkept, ?_⟩, rfl⟩
  rw [itemPath_of_reports he h, Option.map_some]

variable {q : NamePath} {folder : CollectionFolder}

/-- What a poll of a folder brings: files below it, and a cursor to go on from. -/
structure Listed (t : DriveTree) (issued : NamePath → List Char → Prop) (p : NamePath) (listing : Listing FileItem) :
    Prop where
  below : ∀ file ∈ listing.items, ∃ q, t.IsFile q ∧ p <+: q ∧ p ≠ q ∧ file.path = String.ofList (drivePath q)
  next : ∃ link, issued p link ∧ listing.nextCursor = String.ofList (encodeCursor (drivePath p) link)

/-- The first poll of a folder brings every file at any depth below it. -/
theorem listSince_first (h : AtRest client t issued) (hp : t.IsFolder p) (hpath : folder.path = String.ofList (drivePath p)) :
    ∃ listing, listSince client folder none = .ok listing ∧ Listed t issued p listing ∧
      ∀ q, t.IsFile q → p <+: q → p ≠ q → ∃ file ∈ listing.items, file.path = String.ofList (drivePath q) := by
  obtain ⟨value, link, hread, hissued, hbelow, hall⟩ := h.delta p hp
  have hpath' : folder.path.toList = drivePath p := by rw [hpath, String.toList_ofList]
  refine ⟨driveListing folder value (some link), ?_, ⟨fun file hfile => mem_listed hbelow hfile, link, hissued, ?_⟩,
    fun q hq hpq hne => ?_⟩
  · simp only [listSince, Option.bind_none, Option.getD_none, hpath', hread, Except.map]
  · rw [driveListing, hpath', Option.getD_some]
  · obtain ⟨r, hr, hfile⟩ := hq
    obtain ⟨item, hitem, hreports⟩ := hall (q, r) hr hpq hne
    exact listed_of_reports hr hfile hitem hreports

theorem listSince_again (h : AtRest client t issued) (hp : t.IsFolder p) (hpath : folder.path = String.ofList (drivePath p))
    {link : List Char} (hlink : issued p link) :
    ∃ listing, listSince client folder (some (String.ofList (encodeCursor (drivePath p) link))) = .ok listing ∧
      Listed t issued p listing := by
  obtain ⟨value, link', hread, hissued, hbelow⟩ := h.again p hp link hlink
  have hpath' : folder.path.toList = drivePath p := by rw [hpath, String.toList_ofList]
  have hdecode := decodeCursor_encodeCursor (drivePath_colon (DriveTree.folder_names hp)) link
  refine ⟨driveListing folder value (some link'), ?_, ⟨fun file hfile => mem_listed hbelow hfile, link', hissued, ?_⟩⟩
  · simp only [listSince, Option.bind_some, String.toList_ofList, hdecode, Option.getD_some, hread, Except.map]
  · rw [driveListing, hpath', Option.getD_some]

end Items

section Walk

variable {descend : GraphDriveItem → Except PassError (List CollectionFolder)}

theorem walkItems_append (value rest : List GraphDriveItem) :
    walkItems descend (value ++ rest) =
      (walkItems descend value).bind fun found => (walkItems descend rest).map (found ++ ·) := by
  induction value with
  | nil =>
    cases hrest : walkItems descend rest <;> simp [walkItems, Except.bind, Except.map, hrest]
  | cons item value ih =>
    simp only [List.cons_append, walkItems, ih]
    split
    · cases descend item <;> cases walkItems descend value <;> cases walkItems descend rest <;>
        simp [Except.bind, Except.map]
    · rfl

theorem walkPages_eq {pages : Pages} {value : List GraphDriveItem} {link : Option (List Char)}
    (h : readDelta pages = .ok (value, link)) : walkPages descend pages = walkItems descend value := by
  induction pages generalizing value link with
  | failed status body => cases h
  | last value' link' =>
    obtain ⟨rfl, rfl⟩ := Prod.mk.inj (Except.ok.inj h)
    rfl
  | more value' rest ih =>
    cases hrest : readDelta rest with
    | error e =>
      rw [readDelta, hrest] at h
      cases h
    | ok r =>
      rw [readDelta, hrest] at h
      obtain ⟨rfl, rfl⟩ := Prod.mk.inj (Except.ok.inj h)
      rw [walkPages, ih hrest, walkItems_append]

theorem walkItems_ok {value : List GraphDriveItem}
    (h : ∀ item ∈ value, item.folder = true → ∃ found, descend item = .ok found) :
    ∃ folders, walkItems descend value = .ok folders ∧ ∀ folder, folder ∈ folders ↔
      ∃ item ∈ value, item.folder = true ∧ ∃ found, descend item = .ok found ∧ folder ∈ found := by
  induction value with
  | nil => exact ⟨[], rfl, by simp⟩
  | cons item value ih =>
    obtain ⟨folders, hfolders, hmem⟩ := ih fun i hi => h i (List.mem_cons_of_mem item hi)
    cases hfolder : item.folder with
    | false =>
      refine ⟨folders, ?_, fun folder => ?_⟩
      · rw [walkItems, hfolder, if_neg (by simp), hfolders]
      · rw [hmem]
        simp [hfolder]
    | true =>
      obtain ⟨found, hfound⟩ := h item List.mem_cons_self hfolder
      refine ⟨found ++ folders, ?_, fun folder => ?_⟩
      · rw [walkItems, hfolder, if_pos rfl, hfound, hfolders]
        rfl
      · rw [List.mem_append, hmem]
        simp [hfolder, hfound]

theorem walkItems_error {value : List GraphDriveItem} {item : GraphDriveItem} (hitem : item ∈ value)
    (hfolder : item.folder = true) {e : PassError} (h : descend item = .error e) :
    ∃ e', walkItems descend value = .error e' := by
  induction value with
  | nil => cases hitem
  | cons next value ih =>
    rcases List.mem_cons.mp hitem with rfl | hitem
    · refine ⟨e, ?_⟩
      rw [walkItems, hfolder, if_pos rfl, h]
      rfl
    · obtain ⟨e', he'⟩ := ih hitem
      rw [walkItems, he']
      split
      · cases hnext : descend next with
        | error e'' => exact ⟨e'', rfl⟩
        | ok found => exact ⟨e', rfl⟩
      · exact ⟨e', rfl⟩

variable {t : DriveTree} {client : GraphClient} {issued : NamePath → List Char → Prop} {p q : NamePath}

variable (client) in
theorem descend_eq {e : NamePath × DriveEntry} (he : e ∈ t.entries) {item : GraphDriveItem} (h : Reports e item) :
    drivePath e.1.dropLast ++ '/' :: item.name = drivePath e.1 ∧
      childrenOf client item.id = childrenUrl client e.1 e.2.id := by
  obtain ⟨hp, -⟩ := t.named e he
  have hname := h.name
  rw [List.getLast?_eq_some_getLast hp, Option.some.injEq] at hname
  constructor
  · rw [← drivePath_append, ← hname, List.dropLast_append_getLast hp]
  · rw [childrenUrl, if_neg hp, h.id]

theorem walk_ok (h : AtRest client t issued) {levels : ℕ} {r : DriveEntry}
    (hp : p = [] ∨ (p, r) ∈ t.entries ∧ r.folder = true)
    (hdepth : ∀ q, t.IsFolder q → p <+: q → q.length < p.length + levels) :
    ∃ folders, walk client levels (childrenUrl client p r.id) (drivePath p) = .ok folders ∧
      (∀ folder ∈ folders, ∃ q, q ≠ [] ∧ t.IsFolder q ∧ folder.path = String.ofList (drivePath q)) ∧
      ∀ q, t.IsFolder q → p <+: q → p ≠ q → ∃ folder ∈ folders, folder.path = String.ofList (drivePath q) := by
  induction levels generalizing p r with
  | zero =>
    have hself : t.IsFolder p := hp.imp_right fun hr => ⟨r, hr⟩
    exact absurd (hdepth p hself (List.prefix_refl p)) (by omega)
  | succ levels ih =>
    obtain ⟨value, link, hread, hof, hall⟩ := h.children p r hp
    have hdown : ∀ item ∈ value, item.folder = true → ∃ e ∈ t.entries, e.1.dropLast = p ∧ e.2.folder = true ∧
        Reports e item ∧ ∃ folders,
          walk client levels (childrenOf client item.id) (drivePath p ++ '/' :: item.name) = .ok folders ∧
          (∀ folder ∈ folders, ∃ q, q ≠ [] ∧ t.IsFolder q ∧ folder.path = String.ofList (drivePath q)) ∧
          ∀ q, t.IsFolder q → e.1 <+: q → e.1 ≠ q → ∃ folder ∈ folders, folder.path = String.ofList (drivePath q) := by
      intro item hitem hfolder
      obtain ⟨e, he, hdrop, hreports⟩ := hof item hitem
      have hfolder' : e.2.folder = true := hreports.folder ▸ hfolder
      obtain ⟨hpath, hurl⟩ := descend_eq client he hreports
      have hlen : e.1.length = p.length + 1 := by
        have hpos := List.length_pos_of_ne_nil (t.named e he).1
        rw [← hdrop, List.length_dropLast]
        omega
      have hnext := ih (p := e.1) (r := e.2) (.inr ⟨he, hfolder'⟩) fun q hq hprefix => by
        have hpq : p <+: q := hdrop ▸ (List.dropLast_prefix e.1).trans hprefix
        have hlt := hdepth q hq hpq
        omega
      rw [hurl, ← hdrop, hpath]
      exact ⟨e, he, rfl, hfolder', hreports, hnext⟩
    have hdescend : ∀ item ∈ value, item.folder = true → ∃ found,
        (walk client levels (childrenOf client item.id) (drivePath p ++ '/' :: item.name)).map
          (⟨String.ofList (drivePath p ++ '/' :: item.name), some (String.ofList item.name)⟩ :: ·) = .ok found := by
      intro item hitem hfolder
      obtain ⟨-, -, -, -, -, folders, hfolders, -⟩ := hdown item hitem hfolder
      rw [hfolders]
      exact ⟨_, rfl⟩
    obtain ⟨folders, hfolders, hmem⟩ := walkItems_ok hdescend
    refine ⟨folders, ?_, fun folder hfolder => ?_, fun q hq hprefix hne => ?_⟩
    · rw [walk, walkPages_eq hread]
      exact hfolders
    · obtain ⟨item, hitem, hisfolder, found, hfound, hin⟩ := (hmem folder).mp hfolder
      obtain ⟨e, he, hdrop, hfolder', hreports, below, hbelow, hof', -⟩ := hdown item hitem hisfolder
      rw [hbelow] at hfound
      obtain rfl := Except.ok.inj hfound
      rcases List.mem_cons.mp hin with rfl | hin
      · refine ⟨e.1, (t.named e he).1, .inr ⟨e.2, he, hfolder'⟩, ?_⟩
        have hpath := (descend_eq client he hreports).1
        rw [hdrop] at hpath
        exact congrArg String.ofList hpath
      · exact hof' folder hin
    · -- the next folder on the way down to `q` is one of the children
      obtain ⟨rest, rfl⟩ := hprefix
      cases rest with
      | nil => simp at hne
      | cons name rest =>
        have hchild : t.IsFolder (p ++ [name]) := DriveTree.folder_prefix hq ⟨rest, by simp⟩
        rcases hchild with hnil | ⟨s, hs, hisfolder⟩
        · simp at hnil
        · obtain ⟨item, hitem, hreports⟩ := hall (p ++ [name], s) hs (by simp)
          have hfolder : item.folder = true := hreports.folder.trans hisfolder
          obtain ⟨e, he, hdrop, -, hreports', below, hbelow, -, hin⟩ := hdown item hitem hfolder
          have hsame : e.1 = p ++ [name] := by
            have hname := hreports'.name
            rw [List.getLast?_eq_some_getLast (t.named e he).1] at hname
            have hname' := hreports.name
            rw [List.getLast?_concat, ← hname, Option.some.injEq] at hname'
            rw [← List.dropLast_append_getLast (t.named e he).1, hdrop, ← hname']
          have hfound : ∀ folder, folder = ⟨String.ofList (drivePath p ++ '/' :: item.name), some (String.ofList item.name)⟩ ∨
              folder ∈ below → folder ∈ folders := by
            intro folder hin
            refine (hmem folder).mpr ⟨item, hitem, hfolder, _, by rw [hbelow]; rfl, ?_⟩
            exact List.mem_cons.mpr hin
          by_cases hrest : rest = []
          · subst hrest
            have hpath := (descend_eq client he hreports').1
            rw [hdrop, hsame] at hpath
            exact ⟨_, hfound _ (.inl rfl), congrArg String.ofList hpath⟩
          · have hprefix : e.1 <+: p ++ name :: rest := by
              rw [hsame]
              exact ⟨rest, by simp⟩
            have hne' : e.1 ≠ p ++ name :: rest := by
              rw [hsame]
              simpa using Ne.symm hrest
            obtain ⟨folder, hfolder, hpath⟩ := hin _ hq hprefix hne'
            exact ⟨folder, hfound folder (.inr hfolder), hpath⟩

theorem walk_deep (h : AtRest client t issued) {levels : ℕ} {r : DriveEntry}
    (hp : p = [] ∨ (p, r) ∈ t.entries ∧ r.folder = true) (hq : t.IsFolder q) (hpq : p <+: q)
    (hdeep : p.length + levels ≤ q.length) :
    ∃ e, walk client levels (childrenUrl client p r.id) (drivePath p) = .error e := by
  induction levels generalizing p r with
  | zero => exact ⟨_, rfl⟩
  | succ levels ih =>
    obtain ⟨value, link, hread, -, hall⟩ := h.children p r hp
    obtain ⟨rest, rfl⟩ := hpq
    cases rest with
    | nil =>
      simp only [List.append_nil] at hdeep
      omega
    | cons name rest =>
      have hchild : t.IsFolder (p ++ [name]) := DriveTree.folder_prefix hq ⟨rest, by simp⟩
      rcases hchild with hnil | ⟨s, hs, hisfolder⟩
      · simp at hnil
      · obtain ⟨item, hitem, hreports⟩ := hall (p ++ [name], s) hs (by simp)
        obtain ⟨hpath, hurl⟩ := descend_eq client hs hreports
        obtain ⟨e, he⟩ := ih (p := p ++ [name]) (r := s) (.inr ⟨hs, hisfolder⟩) ⟨rest, by simp⟩ (by
          simp only [List.length_append, List.length_cons, List.length_nil] at hdeep ⊢
          omega)
        rw [List.dropLast_concat] at hpath
        rw [walk, walkPages_eq hread]
        refine walkItems_error (e := e) hitem (hreports.folder.trans hisfolder) ?_
        dsimp only
        rw [hurl, hpath, he]
        rfl

/-- The name under which a folder's files are recorded. -/
def driveCollection (p : NamePath) : String := if p = [] then "/" else String.ofList (drivePath p)

theorem driveCollection_injective (hp : ∀ name ∈ p, IsDriveName name) (hq : ∀ name ∈ q, IsDriveName name)
    (h : driveCollection p = driveCollection q) : p = q := by
  have hroot : ∀ r : NamePath, r ≠ [] → (∀ name ∈ r, IsDriveName name) → String.ofList (drivePath r) ≠ "/" := by
    intro r hr hnames heq
    refine drivePath_ne_root hr hnames ?_
    rw [← String.toList_ofList (l := drivePath r), heq]
    rfl
  unfold driveCollection at h
  split at h
  · split at h
    · simp_all
    · rename_i hqn
      exact absurd h.symm (hroot q hqn hq)
  · split at h
    · rename_i hpn _
      exact absurd h (hroot p hpn hp)
    · exact drivePath_injective hp hq (String.ofList_injective h)

theorem listFolders_ok (h : AtRest client t issued) (hdepth : ∀ p, t.IsFolder p → p.length ≤ MAX_FOLDER_DEPTH) :
    ∃ folders, listFolders client = .ok folders ∧
      (∀ folder ∈ folders, ∃ q, t.IsFolder q ∧ folder.path = String.ofList (drivePath q) ∧
        collectionPath folder = driveCollection q) ∧
      ∀ q, t.IsFolder q → ∃ folder ∈ folders, folder.path = String.ofList (drivePath q) := by
  have hlevels : ∀ q, t.IsFolder q → [] <+: q → q.length < ([] : NamePath).length + (MAX_FOLDER_DEPTH + 1) := by
    intro q hq _
    have hle := hdepth q hq
    simp only [List.length_nil]
    omega
  obtain ⟨folders, hfolders, hof, hall⟩ := walk_ok h (r := ⟨"", true⟩) (.inl rfl) hlevels
  have hwalk : walk client (MAX_FOLDER_DEPTH + 1) (rootChildren client) [] = .ok folders := hfolders
  refine ⟨⟨"", none⟩ :: folders, ?_, fun folder hfolder => ?_, fun q hq => ?_⟩
  · rw [listFolders, hwalk]
    rfl
  · rcases List.mem_cons.mp hfolder with rfl | hfolder
    · exact ⟨[], .inl rfl, rfl, rfl⟩
    · obtain ⟨q, hne, hq, hpath⟩ := hof folder hfolder
      have htruthy : truthy (FolderLike.path folder) = some (String.ofList (drivePath q)) := by
        have hpath' : FolderLike.path folder = some (String.ofList (drivePath q)) := congrArg some hpath
        rw [hpath', truthy, Option.filter_eq_some_iff]
        refine ⟨rfl, ?_⟩
        simp [drivePath_eq hne]
      refine ⟨q, hq, hpath, ?_⟩
      rw [collectionPath, htruthy, driveCollection, if_neg hne]
      rfl
  · by_cases hnil : q = []
    · subst hnil
      exact ⟨⟨"", none⟩, List.mem_cons_self, rfl⟩
    · obtain ⟨folder, hfolder, hpath⟩ := hall q hq List.nil_prefix (Ne.symm hnil)
      exact ⟨folder, List.mem_cons_of_mem _ hfolder, hpath⟩

theorem listFolders_depth (h : AtRest client t issued) {folders : List CollectionFolder}
    (hfolders : listFolders client = .ok folders) (hp : t.IsFolder p) : p.length ≤ MAX_FOLDER_DEPTH := by
  by_contra hdeep
  have hpast : ([] : NamePath).length + (MAX_FOLDER_DEPTH + 1) ≤ p.length := by
    simp only [List.length_nil]
    omega
  obtain ⟨e, he⟩ := walk_deep h (r := ⟨"", true⟩) (.inl rfl) hp List.nil_prefix hpast
  have hwalk : walk client (MAX_FOLDER_DEPTH + 1) (rootChildren client) [] = .error e := he
  rw [listFolders, hwalk] at hfolders
  cases hfolders

end Walk

end OpenMigrate.Graph
