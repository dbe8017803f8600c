import OpenMigrate.Graph.DriveTree
import OpenMigrate.Dav.DavApply

namespace OpenMigrate.Graph

open Async PgLedger
open Dav (NamePath CollectionFolder FileItem RawFileItem Endpoint WebDAVTargetConfig SyncDeps api fileSync fileNaturalKeyHash)

variable (t : DriveTree) (issued : NamePath → List Char → Prop)

/-- Each file is listed under its own folder and under no other. -/
def ListsOnce (client : GraphClient) : Prop :=
  ∃ folders, listFolders client = .ok folders ∧ ∀ p, t.IsFile p →
    (∃ folder ∈ folders, folder.path = String.ofList (drivePath p.dropLast)) ∧
    ∀ folder ∈ folders,
      (∃ listing, listSince client folder none = .ok listing ∧
        ∃ file ∈ listing.items, file.path = String.ofList (drivePath p)) ↔
      folder.path = String.ofList (drivePath p.dropLast)

/-- Nothing in the ledger has moved, and the pass has no move to report. -/
def Moveless {T : TargetApi} (scope : Scope) (w : World T) : Prop :=
  (∀ key row, row? w.1.ledger scope key = some row → row.movedToCollection = none) ∧ w.vars.moves = []

/-- A mapping of which nothing is known yet. -/
structure Untouched {T : TargetApi} (scope : Scope) (store : Store T) : Prop where
  rows : ∀ key, row? store.ledger scope key = none
  cursors : ∀ path, store.cursors.lookup (cursorKey scope path) = none

/-- However many passes are made over the drive, and wherever one stops, there is no move. -/
def NeverMoves : Prop :=
  ∀ (e : Endpoint) (cfg : WebDAVTargetConfig) (sha256Hex : String → String) (fileContentHash : List Char → String)
    (deps : SyncDeps) (passes : List (Pass (api e) FileItem CollectionFolder RawFileItem))
    (p : Pass (api e) FileItem CollectionFolder RawFileItem) (store : Store (api e)),
    Untouched ⟨deps.tenantId, deps.mappingId, .file⟩ store →
    (∀ q ∈ p :: passes, ∃ client, AtRest client t issued ∧
      q.deps = fileSync e cfg sha256Hex fileContentHash deps (driveSource client)) →
    Moveless ⟨deps.tenantId, deps.mappingId, .file⟩ (p.ending (afterPasses passes store))

variable {t issued} {client : GraphClient}

section Lists

theorem listsOnce_of_flat (h : AtRest client t issued) (hflat : t.Flat) : ListsOnce t client := by
  obtain ⟨folders, hfolders, hof, hall⟩ := listFolders_ok h hflat.folders
  refine ⟨folders, hfolders, fun p hp => ⟨hall _ (DriveTree.file_parent hp), fun folder hfolder => ?_⟩⟩
  have hlen := hflat.files p hp
  have hroot : p.dropLast = [] := List.eq_nil_of_length_eq_zero (by simp [hlen])
  have hpne : p ≠ [] := (DriveTree.file_names hp).1
  constructor
  · rintro ⟨listing, hlisting, file, hfile, hpath⟩
    obtain ⟨q, hq, hqpath, -⟩ := hof folder hfolder
    obtain ⟨listing', hlisting', hlisted, -⟩ := listSince_first h hq hqpath
    rw [hlisting', Except.ok.injEq] at hlisting
    subst hlisting
    obtain ⟨r, hr, hqr, hne, hrpath⟩ := hlisted.below file hfile
    have hrp : r = p := by
      refine drivePath_injective (DriveTree.file_names hr).2 (DriveTree.file_names hp).2 ?_
      exact String.ofList_injective (hrpath.symm.trans hpath)
    subst hrp
    -- nothing is above a file of the root but the root
    have hlt : q.length < r.length := by
      refine Nat.lt_of_le_of_ne hqr.length_le fun heq => hne ?_
      exact hqr.eq_of_length heq
    have hqnil : q = [] := List.eq_nil_of_length_eq_zero (by omega)
    rw [hqpath, hqnil, hroot]
  · intro hpath
    rw [hroot] at hpath
    obtain ⟨listing, hlisting, -, hin⟩ := listSince_first h (.inl rfl) hpath
    exact ⟨listing, hlisting, hin p hp List.nil_prefix (Ne.symm hpne)⟩

theorem flat_of_listsOnce (h : AtRest client t issued) (hlists : ListsOnce t client) : t.Flat := by
  obtain ⟨folders, hfolders, hfiles⟩ := hlists
  have hdepth : ∀ p, t.IsFolder p → p.length ≤ MAX_FOLDER_DEPTH := fun p hp => listFolders_depth h hfolders hp
  refine ⟨fun p hp => ?_, hdepth⟩
  obtain ⟨folders', hfolders', -, hall⟩ := listFolders_ok h hdepth
  rw [hfolders, Except.ok.injEq] at hfolders'
  subst hfolders'
  -- the delta of the root brings the file, wherever it lies
  obtain ⟨hpne, hnames⟩ := DriveTree.file_names hp
  obtain ⟨root, hroot, hrootpath⟩ := hall [] (.inl rfl)
  obtain ⟨listing, hlisting, -, hin⟩ := listSince_first h (.inl rfl) hrootpath
  have hown := ((hfiles p hp).2 root hroot).mp ⟨listing, hlisting, hin p hp List.nil_prefix (Ne.symm hpne)⟩
  have hdrop : [] = p.dropLast := by
    refine drivePath_injective (by simp) (fun name hname => hnames name (List.dropLast_subset p hname)) ?_
    exact String.ofList_injective (hrootpath.symm.trans hown)
  have hlen := congrArg List.length hdrop
  have hpos := List.length_pos_of_ne_nil hpne
  simp only [List.length_nil, List.length_dropLast] at hlen
  omega

end Lists

section Passes

variable {e : Endpoint} {cfg : WebDAVTargetConfig} {sha256Hex : String → String} {fileContentHash : List Char → String}
  {deps : SyncDeps}

/-- What a flat drive shows: its files, in its root. -/
def driveShows (sha256Hex : String → String) (t : DriveTree) (collection key : String) : Prop :=
  collection = "/" ∧ ∃ p, t.IsFile p ∧ key = fileNaturalKeyHash sha256Hex (String.ofList (drivePath p))

/-- A folder's cursor is one that its own delta gave out. -/
def drivePolls (t : DriveTree) (issued : NamePath → List Char → Prop) (path : String) (prev : Option String) : Prop :=
  ∀ p, t.IsFolder p → driveCollection p = path →
    prev = none ∨ ∃ link, issued p link ∧ prev = some (String.ofList (encodeCursor (drivePath p) link))

theorem driveShows_root {p : NamePath} (hflat : t.Flat) (hp : t.IsFile p) {q : NamePath} (hqp : q <+: p) (hne : q ≠ p) :
    driveShows sha256Hex t (driveCollection q) (fileNaturalKeyHash sha256Hex (String.ofList (drivePath p))) := by
  have hlen := hflat.files p hp
  have hlt : q.length < p.length := by
    refine Nat.lt_of_le_of_ne hqp.length_le fun heq => hne ?_
    exact hqp.eq_of_length heq
  have hqnil : q = [] := List.eq_nil_of_length_eq_zero (by omega)
  subst hqnil
  exact ⟨rfl, p, hp, rfl⟩

theorem polled (h : AtRest client t issued) {folder : CollectionFolder} {p : NamePath} (hp : t.IsFolder p)
    (hpath : folder.path = String.ofList (drivePath p)) {prev : Option String}
    (hpoll : drivePolls t issued (driveCollection p) prev) :
    ∃ listing, listSince client folder prev = .ok listing ∧ Listed t issued p listing := by
  rcases hpoll p hp rfl with rfl | ⟨link, hlink, rfl⟩
  · obtain ⟨listing, hlisting, hlisted, -⟩ := listSince_first h hp hpath
    exact ⟨listing, hlisting, hlisted⟩
  · exact listSince_again h hp hpath hlink

theorem drive_steady (h : AtRest client t issued) (hflat : t.Flat) :
    Steady (fileSync e cfg sha256Hex fileContentHash deps (driveSource client)) (driveShows sha256Hex t)
      (drivePolls t issued) := by
  obtain ⟨folders, hfolders, hof, hall⟩ := listFolders_ok h hflat.folders
  constructor
  · rintro c c' key ⟨rfl, -⟩ ⟨rfl, -⟩
    rfl
  · rintro at_ item ⟨folders', folder, prev, listing, hfolders', hfolder, hpoll, hlisting, hitem, -, hat⟩ key hkey
    have hsame : folders = folders' := Except.ok.inj (hfolders.symm.trans hfolders')
    subst hsame
    obtain ⟨p, hp, hpath, hcollection⟩ := hof folder (List.mem_of_getElem? hfolder)
    rw [hcollection] at hpoll hat
    obtain ⟨listing', hlisting', hlisted⟩ := polled h hp hpath hpoll
    have hsame : listing = listing' := Except.ok.inj (hlisting.symm.trans hlisting')
    subst hsame
    obtain ⟨q, hq, hpq, hne, hqpath⟩ := hlisted.below item (List.mem_of_getElem? hitem)
    have hkey' : fileNaturalKeyHash sha256Hex item.path = key := by
      rcases hkey with hkey | ⟨hnone, -⟩
      · exact Option.some.inj hkey
      · cases hnone
    rw [hat, ← hkey', hqpath]
    exact driveShows_root hflat hq hpq hne
  · intro at_ item _ fetched hfetched id options
    have hraw : fetched.1.path = item.path := by
      simp only [fileSync, Dav.FileSource.fetchRaw] at hfetched
      split at hfetched
      · cases hfetched
      · cases hfetched
      · obtain rfl := Except.ok.inj hfetched
        rfl
    refine Dav.upsertFile_asks _ _ _ _ _ _ rfl (.inl ?_)
    rw [hraw]
    rfl
  · exact fun path p _ _ => .inl rfl
  · intro folders' folder prev listing hfolders' hfolder hpoll hlisting
    have hsame : folders = folders' := Except.ok.inj (hfolders.symm.trans hfolders')
    subst hsame
    obtain ⟨p, hp, hpath, hcollection⟩ := hof folder hfolder
    rw [hcollection] at hpoll ⊢
    obtain ⟨listing', hlisting', hlisted⟩ := polled h hp hpath hpoll
    have hsame : listing = listing' := Except.ok.inj (hlisting.symm.trans hlisting')
    subst hsame
    intro q hq hqp
    obtain rfl := driveCollection_injective (DriveTree.folder_names hq) (DriveTree.folder_names hp) hqp
    obtain ⟨link, hissued, hnext⟩ := hlisted.next
    exact .inr ⟨link, hissued, congrArg some hnext⟩
  · rintro - folders' hfolders' c key ⟨rfl, p, hp, rfl⟩
    have hsame : folders = folders' := Except.ok.inj (hfolders.symm.trans hfolders')
    subst hsame
    obtain ⟨folder, hfolder, hpath⟩ := hall [] (.inl rfl)
    obtain ⟨q, hq, hqpath, hcollection⟩ := hof folder hfolder
    have hqnil : q = [] := by
      refine drivePath_injective (DriveTree.folder_names hq) (by simp) ?_
      exact String.ofList_injective (hqpath.symm.trans hpath)
    subst hqnil
    refine ⟨folder, hfolder, hcollection, fun listing hlisting => ?_⟩
    obtain ⟨listing', hlisting', -, hin⟩ := listSince_first h hq hqpath
    have hsame : listing = listing' := Except.ok.inj (hlisting.symm.trans hlisting')
    subst hsame
    obtain ⟨file, hfile, hfilepath⟩ := hin p hp List.nil_prefix (Ne.symm (DriveTree.file_names hp).1)
    refine ⟨file, hfile, ?_⟩
    rw [← hfilepath]
    rfl
  · rintro p ⟨⟩

theorem neverMoves_of_flat (hflat : t.Flat) : NeverMoves t issued := by
  intro e cfg sha256Hex fileContentHash deps passes p store hstore hpasses
  have hsteady : ∀ q ∈ p :: passes, q.deps.scope = ⟨deps.tenantId, deps.mappingId, .file⟩ ∧
      Steady q.deps (driveShows sha256Hex t) (drivePolls t issued) := by
    intro q hq
    obtain ⟨client, hrest, hdeps⟩ := hpasses q hq
    rw [hdeps]
    exact ⟨rfl, drive_steady hrest hflat⟩
  have hstart : Calm ⟨deps.tenantId, deps.mappingId, .file⟩ (driveShows sha256Hex t) (drivePolls t issued)
      ((store, PassState.fresh (api e)) : World (api e)) := by
    refine ⟨fun key row hrow => ?_, fun path q _ _ => .inl ?_, rfl⟩
    · have hnone := hstore.rows key
      exact absurd (hrow.symm.trans hnone) (by simp)
    · exact hstore.cursors path
  have hbefore := passes_calm (fun q hq => hsteady q (List.mem_cons_of_mem p hq)) hstart
  obtain ⟨hscope, hp⟩ := hsteady p List.mem_cons_self
  rw [← hscope] at hbefore ⊢
  have hcalm := pass_calm hp hbefore
  exact ⟨fun key row hrow => (hcalm.rows key row hrow).2, hcalm.moves⟩

end Passes

/-- A drive at rest is listed without doubles, and meets no move, exactly when all its files lie in its root. -/
theorem drive_at_rest_iff (h : AtRest client t issued) : ListsOnce t client ∧ NeverMoves t issued ↔ t.Flat := by
  constructor
  · exact fun hboth => flat_of_listsOnce h hboth.1
  · exact fun hflat => ⟨listsOnce_of_flat h hflat, neverMoves_of_flat hflat⟩

namespace Sample

def sha256Hex : String → String
  | "file:/a.txt" => "4e10be0b025ec4952fff372a1f9357aa962f3dc5939dd3c3d63e331222f1a004"
  | "file:/d/a.txt" => "a5edbaa002d3a0b845590d23358584cb92a71662abe629719aff4923af2b4ede"
  | s => Dav.Sample.sha256Hex s

def me : List Char := "https://graph.microsoft.com/v1.0/me".toList

def answering (responses : List (List Char × Pages)) : GraphClient where
  scope := me
  encodeURIComponent := id
  stringify item := item.path
  get url := (responses.lookup url).getD (.failed 404 "itemNotFound")
  getContent _ := .ok ['x']

def document (id : String) (folder : List Char) : GraphDriveItem where
  id := id
  name := "a.txt".toList
  parentPath := some ("/drive/root:".toList ++ folder)
  size := 1
  quickXorHash := some "eA=="

def folderItem : GraphDriveItem where
  id := "D"
  name := ['d']
  parentPath := some "/drive/root:".toList
  folder := true

def rootLink : List Char := me ++ "/drive/root/delta?token=1".toList

def folderLink : List Char := me ++ "/drive/root:/d:/delta?token=1".toList

def links (p : NamePath) (link : List Char) : Prop := p = [] ∧ link = rootLink ∨ p = [['d']] ∧ link = folderLink

/-- One document, in the root. -/
def flatDrive : DriveTree where
  entries := [(["a.txt".toList], ⟨"A", false⟩)]
  named := by
    intro e he
    rw [List.mem_singleton.mp he]
    exact ⟨by decide, fun name hname => List.mem_singleton.mp hname ▸ ⟨⟨by decide, by decide⟩, by decide, by decide, by decide⟩⟩
  parent := by simp

def flatClient : GraphClient :=
  answering [(me ++ "/drive/root/children".toList, .last [document "A" []] none),
    (me ++ "/drive/root/delta".toList, .last [document "A" []] (some rootLink)), (rootLink, .last [] (some rootLink))]

/-- The same document, in a folder of the root. -/
def nestedDrive : DriveTree where
  entries := [([['d']], ⟨"D", true⟩), ([['d'], "a.txt".toList], ⟨"A", false⟩)]
  named := by
    have hd : IsDriveName ['d'] := ⟨⟨by decide, by decide⟩, by decide, by decide, by decide⟩
    have ha : IsDriveName "a.txt".toList := ⟨⟨by decide, by decide⟩, by decide, by decide, by decide⟩
    intro e he
    simp only [List.mem_cons, List.not_mem_nil, or_false] at he
    rcases he with rfl | rfl
    · exact ⟨by simp, by simpa using hd⟩
    · exact ⟨by simp, by simpa using ⟨hd, ha⟩⟩
  parent := by simp

def nestedClient : GraphClient :=
  answering [(me ++ "/drive/root/children".toList, .last [folderItem] none),
    (me ++ "/drive/items/D/children".toList, .last [document "A" "/d".toList] none),
    (me ++ "/drive/root/delta".toList, .last [folderItem, document "A" "/d".toList] (some rootLink)),
    (me ++ "/drive/root:/d:/delta".toList, .last [folderItem, document "A" "/d".toList] (some folderLink)),
    (rootLink, .last [] (some rootLink)), (folderLink, .last [] (some folderLink))]

theorem reports_document (id : String) (p : NamePath) :
    Reports (p ++ ["a.txt".toList], ⟨id, false⟩) (document id (drivePath p)) where
  id := rfl
  name := by simp [document]
  parentPath := ⟨"/drive/".toList, by decide, by simp [document]⟩
  folder := rfl
  deleted := rfl

theorem reports_folder : Reports ([['d']], ⟨"D", true⟩) folderItem where
  id := rfl
  name := rfl
  parentPath := ⟨"/drive/".toList, by decide, by simp [folderItem, drivePath]⟩
  folder := rfl
  deleted := rfl

theorem flat_atRest : AtRest flatClient flatDrive links := by
  have hdoc := reports_document "A" []
  have hentries : ∀ e ∈ flatDrive.entries, e = (["a.txt".toList], ⟨"A", false⟩) := fun e he => List.mem_singleton.mp he
  have hfolders : ∀ p, flatDrive.IsFolder p → p = [] := by
    rintro p (hnil | ⟨r, hr, hfolder⟩)
    · exact hnil
    · cases hentries _ hr
      cases hfolder
  constructor
  · rintro p r (rfl | ⟨hr, hfolder⟩)
    · refine ⟨[document "A" []], none, rfl, fun item hitem => ?_, fun e he _ => ?_⟩
      · exact ⟨_, List.mem_singleton_self _, rfl, List.mem_singleton.mp hitem ▸ hdoc⟩
      · rw [hentries e he]
        exact ⟨_, List.mem_singleton_self _, hdoc⟩
    · cases hentries _ hr
      cases hfolder
  · intro p hp
    obtain rfl := hfolders p hp
    refine ⟨[document "A" []], rootLink, rfl, .inl ⟨rfl, rfl⟩, fun item hitem => ?_, fun e he _ _ => ?_⟩
    · rw [List.mem_singleton.mp hitem]
      exact ⟨rfl, .inr ⟨_, List.mem_singleton_self _, List.nil_prefix, by simp, hdoc⟩⟩
    · rw [hentries e he]
      exact ⟨_, List.mem_singleton_self _, hdoc⟩
  · intro p hp link hlink
    obtain rfl := hfolders p hp
    rcases hlink with ⟨-, rfl⟩ | ⟨hne, -⟩
    · exact ⟨[], rootLink, rfl, .inl ⟨rfl, rfl⟩, by simp⟩
    · simp at hne

theorem nested_atRest : AtRest nestedClient nestedDrive links := by
  have hdoc := reports_document "A" [['d']]
  have hfolder := reports_folder
  have hentries : ∀ e ∈ nestedDrive.entries, e = ([['d']], ⟨"D", true⟩) ∨ e = ([['d'], "a.txt".toList], ⟨"A", false⟩) := by
    simp [nestedDrive]
  have hfolders : ∀ p r, (p, r) ∈ nestedDrive.entries → r.folder = true → p = [['d']] ∧ r = ⟨"D", true⟩ := by
    intro p r hr hisfolder
    rcases hentries _ hr with heq | heq
    · cases heq
      exact ⟨rfl, rfl⟩
    · cases heq
      cases hisfolder
  have hbelow : ∀ p, p = [] ∨ p = [['d']] → ∀ item ∈ [folderItem, document "A" "/d".toList],
      ReportsBelow nestedDrive p item := by
    intro p hp item hitem
    simp only [List.mem_cons, List.not_mem_nil, or_false] at hitem
    rcases hitem with rfl | rfl
    · exact ⟨rfl, .inl rfl⟩
    · refine ⟨rfl, .inr ⟨([['d'], "a.txt".toList], ⟨"A", false⟩), by simp [nestedDrive], ?_, ?_, hdoc⟩⟩
      · rcases hp with rfl | rfl
        · exact List.nil_prefix
        · exact ⟨["a.txt".toList], rfl⟩
      · rcases hp with rfl | rfl <;> simp
  have hall : ∀ e ∈ nestedDrive.entries, ∃ item ∈ [folderItem, document "A" "/d".toList], Reports e item := by
    intro e he
    rcases hentries e he with rfl | rfl
    · exact ⟨folderItem, by simp, hfolder⟩
    · exact ⟨document "A" "/d".toList, by simp, hdoc⟩
  constructor
  · rintro p r (rfl | ⟨hr, hisfolder⟩)
    · refine ⟨[folderItem], none, rfl, fun item hitem => ?_, fun e he hdrop => ?_⟩
      · rw [List.mem_singleton.mp hitem]
        exact ⟨([['d']], ⟨"D", true⟩), by simp [nestedDrive], rfl, hfolder⟩
      · rcases hentries e he with rfl | rfl
        · exact ⟨_, List.mem_singleton_self _, hfolder⟩
        · simp at hdrop
    · obtain ⟨rfl, rfl⟩ := hfolders p r hr hisfolder
      refine ⟨[document "A" "/d".toList], none, rfl, fun item hitem => ?_, fun e he hdrop => ?_⟩
      · rw [List.mem_singleton.mp hitem]
        exact ⟨([['d'], "a.txt".toList], ⟨"A", false⟩), by simp [nestedDrive], rfl, hdoc⟩
      · rcases hentries e he with rfl | rfl
        · simp at hdrop
        · exact ⟨_, List.mem_singleton_self _, hdoc⟩
  · rintro p (rfl | ⟨r, hr, hisfolder⟩)
    · exact ⟨[folderItem, document "A" "/d".toList], rootLink, rfl, .inl ⟨rfl, rfl⟩, hbelow _ (.inl rfl),
        fun e he _ _ => hall e he⟩
    · obtain ⟨rfl, -⟩ := hfolders p r hr hisfolder
      exact ⟨[folderItem, document "A" "/d".toList], folderLink, rfl, .inr ⟨rfl, rfl⟩, hbelow _ (.inr rfl),
        fun e he _ _ => hall e he⟩
  · rintro p - link (⟨rfl, rfl⟩ | ⟨rfl, rfl⟩)
    · exact ⟨[], rootLink, rfl, .inl ⟨rfl, rfl⟩, by simp⟩
    · exact ⟨[], folderLink, rfl, .inr ⟨rfl, rfl⟩, by simp⟩

theorem flatDrive_flat : flatDrive.Flat := by
  constructor
  · rintro p ⟨r, hr, -⟩
    cases List.mem_singleton.mp hr
    rfl
  · rintro p (rfl | ⟨r, hr, hfolder⟩)
    · simp
    · cases List.mem_singleton.mp hr
      cases hfolder

def nestedPass : Pass (api Dav.Sample.endpoint) FileItem CollectionFolder RawFileItem where
  deps := fileSync Dav.Sample.endpoint Dav.Sample.webDAV sha256Hex Dav.Sample.contentHash Dav.Sample.deps
    (driveSource nestedClient)
  choices := List.replicate 60 (.run 0 Dav.Sample.input)

theorem nestedPass_moves : (nestedPass.ending Dav.Sample.store).vars.moves =
    [⟨.file, "a5edbaa002d3a0b845590d23358584cb92a71662abe629719aff4923af2b4ede", "/", "/d", none, none, none⟩] := by
  decide +kernel

end Sample

theorem flat_drive_at_rest : ListsOnce Sample.flatDrive Sample.flatClient ∧ NeverMoves Sample.flatDrive Sample.links :=
  (drive_at_rest_iff Sample.flat_atRest).mpr Sample.flatDrive_flat

/-- A document in a folder is listed under the root as well, and the first pass reports it as moved. -/
theorem nested_drive_moves : AtRest Sample.nestedClient Sample.nestedDrive Sample.links ∧
    ¬ ListsOnce Sample.nestedDrive Sample.nestedClient ∧ ¬ NeverMoves Sample.nestedDrive Sample.links := by
  refine ⟨Sample.nested_atRest, fun hlists => ?_, fun hnever => ?_⟩
  · have hfile : Sample.nestedDrive.IsFile [['d'], "a.txt".toList] := ⟨⟨"A", false⟩, by simp [Sample.nestedDrive], rfl⟩
    have hlen := (flat_of_listsOnce Sample.nested_atRest hlists).files _ hfile
    simp at hlen
  · have hstore : Untouched (⟨"t", "m", .file⟩ : Scope) Dav.Sample.store := ⟨fun _ => rfl, fun _ => rfl⟩
    have hmoveless := hnever _ _ _ _ Dav.Sample.deps [] Sample.nestedPass Dav.Sample.store hstore fun q hq => by
      rw [List.mem_singleton.mp hq]
      exact ⟨Sample.nestedClient, Sample.nested_atRest, rfl⟩
    have hmoves := hmoveless.2
    rw [afterPasses_nil, Sample.nestedPass_moves] at hmoves
    cases hmoves

end OpenMigrate.Graph
