import OpenMigrate.Dav.DavApply
import OpenMigrate.Jmap.FileTree

namespace OpenMigrate.Files

open Async Jmap
open Dav (Request FileItem CollectionFolder RawFileItem FileSource SyncDeps WebDAVTargetConfig fileNaturalKeyHash
  normalizeRelativePath)
open OpenMigrate.Tree (Parents Leads Extends)

section Setting

/-- What a configuration may hold where the prefix is looked for. -/
inductive Setting where
  | absent
  | text (value : String)
  | other

def trimSlashes (s : List Char) : List Char := ((s.dropWhile (· == '/')).reverse.dropWhile (· == '/')).reverse

def notText : String := "targetFolderPrefix: must be a string when present"

def hasBackslash : String :=
  "targetFolderPrefix: use '/' as the separator — a backslash is a literal character " ++
    "on the servers this writes to, not a path boundary."

def hasEscape (value : String) : String :=
  "targetFolderPrefix: \x22" ++ value ++ "\x22 contains an empty, '.' or '..' segment. The prefix is " ++
    "a folder path under the target account root, and those segments would escape or " ++ "mangle it."

def parseTargetFolderPrefix : Setting → Except String (Option String)
  | .absent => .ok none
  | .other => .error notText
  | .text value =>
    let trimmed := trimSlashes value.toList
    if trimmed = [] then .ok none
    else if '\\' ∈ trimmed then .error hasBackslash
    else if (trimmed.splitOn '/').any fun s => s == [] || s == ['.'] || s == ['.', '.'] then .error (hasEscape value)
    else .ok (some (String.ofList trimmed))

/-- The names a path is read as on either target. -/
def segments (path : String) : List String := segmentsOf (normalizeRelativePath path)

end Setting

section Segments

variable {s t : List Char}

def parts (s : List Char) : List (List Char) := (s.splitOn '/').filter (· ≠ [])

theorem parts_append (s t : List Char) : parts (s ++ '/' :: t) = parts s ++ parts t := by
  rw [parts, List.splitOn_append_cons_self, List.filter_append]
  rfl

theorem parts_slash (s : List Char) : parts ('/' :: s) = parts s := parts_append [] s

theorem parts_concat_slash (s : List Char) : parts (s ++ ['/']) = parts s := by
  rw [parts_append, show parts [] = [] from rfl, List.append_nil]

theorem parts_dropWhile (s : List Char) : parts (s.dropWhile (· == '/')) = parts s := by
  induction s with
  | nil => rfl
  | cons c s ih =>
    by_cases hc : c = '/'
    · subst hc
      rw [parts_slash, ← ih]
      rfl
    · rw [List.dropWhile_cons_of_neg (by simpa using hc)]

theorem parts_dropWhile_reverse (s : List Char) : parts (s.dropWhile (· == '/')).reverse = parts s.reverse := by
  induction s with
  | nil => rfl
  | cons c s ih =>
    by_cases hc : c = '/'
    · subst hc
      rw [List.reverse_cons, parts_concat_slash, ← ih]
      rfl
    · rw [List.dropWhile_cons_of_neg (by simpa using hc)]

theorem parts_trimSlashes (s : List Char) : parts (trimSlashes s) = parts s := by
  rw [trimSlashes, parts_dropWhile_reverse, List.reverse_reverse, parts_dropWhile]

def straight (c : Char) : Char := if c = '\\' then '/' else c

theorem segments_eq (path : String) : segments path = (parts (path.toList.map straight)).map String.ofList := by
  have hpath : (normalizeRelativePath path).toList = trimSlashes (path.toList.map straight) := by
    rw [normalizeRelativePath, String.toList_ofList]
    rfl
  rw [segments, segmentsOf, hpath]
  exact congrArg (List.map String.ofList) (parts_trimSlashes _)

theorem segments_append (a b : String) : segments (a ++ "/" ++ b) = segments a ++ segments b := by
  have hjoin : (a ++ "/" ++ b).toList.map straight = a.toList.map straight ++ '/' :: b.toList.map straight := by
    simp [straight]
  rw [segments_eq, hjoin, parts_append, List.map_append, ← segments_eq, ← segments_eq]

variable {pre path : String}

theorem segments_prefixed (hpre : pre ≠ "") :
    segments (applyTargetFolderPrefix (some pre) path) = segments pre ++ segments path := by
  have htruthy : truthy (some pre) = some pre := by simp [truthy, hpre]
  rw [applyTargetFolderPrefix, htruthy]
  by_cases hpath : path = ""
  · subst hpath
    exact (List.append_nil _).symm
  · simp only [if_neg hpath]
    exact segments_append pre path

theorem segments_of_parse {setting : Setting} (h : parseTargetFolderPrefix setting = .ok (some pre)) :
    pre ≠ "" ∧ segments pre ≠ [] := by
  cases setting with
  | absent => cases h
  | other => cases h
  | text value =>
    unfold parseTargetFolderPrefix at h
    by_cases hempty : trimSlashes value.toList = []
    · simp only [if_pos hempty, Except.ok.injEq, reduceCtorEq] at h
    · by_cases hback : '\\' ∈ trimSlashes value.toList
      · simp only [if_neg hempty, if_pos hback, reduceCtorEq] at h
      · by_cases hescape : ((trimSlashes value.toList).splitOn '/').any fun s => s == [] || s == ['.'] || s == ['.', '.']
        · simp only [if_neg hempty, if_neg hback, if_pos hescape, reduceCtorEq] at h
        · simp only [if_neg hempty, if_neg hback, if_neg hescape, Except.ok.injEq, Option.some.injEq] at h
          subst h
          constructor
          · intro hnil
            apply hempty
            simpa using congrArg String.toList hnil
          · have hstraight : (trimSlashes value.toList).map straight = trimSlashes value.toList := by
              apply (List.map_congr_left fun c hc => ?_).trans (List.map_id _)
              have hne : c ≠ '\\' := fun heq => hback (heq ▸ hc)
              rw [straight, if_neg hne]
              rfl
            rw [segments_eq, String.toList_ofList, hstraight]
            intro hnil
            obtain ⟨first, rest, hsplit⟩ := List.exists_cons_of_ne_nil (List.splitOn_ne_nil '/' (trimSlashes value.toList))
            have hfirst : first ≠ [] := by
              rintro rfl
              apply hescape
              rw [hsplit]
              rfl
            rw [List.map_eq_nil_iff, parts, hsplit, List.filter_cons_of_pos (by simpa using hfirst)] at hnil
            cases hnil

end Segments

section Pass

variable {T : TargetApi}

/-- A target of files, as the sync of files sees it. -/
structure FileTarget (T : TargetApi) where
  upsertFile : Scope → RawFileItem → UpsertOptions → Task T UpsertResult
  asks : ∀ scope raw options, scope.domain = .file →
    Emits (writerVocabulary scope options fun _ => True) (upsertFile scope raw options) fun _ => True

def webdav (e : Dav.Endpoint) (cfg : WebDAVTargetConfig) (sha256Hex : String → String)
    (fileContentHash : List Char → String) : FileTarget (Dav.api e) where
  upsertFile scope raw options := Dav.upsertFile cfg sha256Hex fileContentHash scope raw options
  asks _ _ _ h := Dav.upsertFile_asks _ _ _ _ _ _ h trivial

def jmap (S : FileServer) (stringify : String → String) (nodeVersion : FileNode → String) :
    FileTarget (fileApi S stringify) where
  upsertFile _ raw options := (Jmap.upsertFile nodeVersion raw options).onTarget S stringify
  asks _ _ _ _ := onTarget_writer _

/-- What `runFileSync` is given beside its source and its target. -/
structure FileSyncDeps where
  tenantId : String
  mappingId : String
  cursors : Bool
  concurrency : Option ℕ := none
  onCollision : Option CollisionPolicy := none
  targetFolderPrefix : Option String := none
  ensureDirectory : CollectionFolder → Except PassError String

/-- The directories of a mapping are made under its prefix. -/
def FileSyncDeps.syncDeps (deps : FileSyncDeps) : SyncDeps where
  tenantId := deps.tenantId
  mappingId := deps.mappingId
  cursors := deps.cursors
  concurrency := deps.concurrency
  onCollision := deps.onCollision
  ensureCollection folder :=
    deps.ensureDirectory { folder with path := applyTargetFolderPrefix deps.targetFolderPrefix folder.path }

def runFileSync (target : FileTarget T) (sha256Hex : String → String) (fileContentHash : List Char → String)
    (deps : FileSyncDeps) (source : FileSource) : DomainSyncDeps T FileItem CollectionFolder RawFileItem where
  scope := ⟨deps.tenantId, deps.mappingId, .file⟩
  cursors := deps.cursors
  concurrency := deps.concurrency.getD DEFAULT_CONCURRENCY
  listFolders := source.listFolders
  listSince := source.listSince
  fetchRaw := source.fetchRaw
  upsert _ raw _ options := target.upsertFile ⟨deps.tenantId, deps.mappingId, .file⟩ raw options
  sourceVersion item := item.etag
  sourceRef item := (truthy (some item.sourceRef)).or (some item.path)
  naturalKey item := some (fileNaturalKeyHash sha256Hex item.path)
  listCollectionKeys := source.listKeys.map fun listKeys folder =>
    (listKeys folder).map (List.map (fileNaturalKeyHash sha256Hex))
  listDiscardedKeys := source.listTrashedPaths.map fun listing =>
    (Prog.ofExcept listing).bind fun listing =>
    .ret ⟨listing.paths.map (fileNaturalKeyHash sha256Hex), listing.unnameable, truthy listing.reason⟩
  naturalKeyFromRaw := none
  contentHash raw := fileContentHash (raw.content.getD [])
  onCollision := deps.onCollision.getD .skip
  ensureCollection := deps.syncDeps.ensureCollection
  upsert_asks _ _ _ _ := target.asks _ _ _ rfl
  listDiscardedKeys_asks := by
    intro p hp
    obtain ⟨listing, -, rfl⟩ := Option.map_eq_some_iff.mp hp
    exact Emits.seq ((Emits.ofExcept _ _).mpr trivial) fun _ => trivial

theorem runFileSync_webdav (e : Dav.Endpoint) (cfg : WebDAVTargetConfig) (sha256Hex : String → String)
    (fileContentHash : List Char → String) (deps : FileSyncDeps) (source : FileSource) :
    runFileSync (webdav e cfg sha256Hex fileContentHash) sha256Hex fileContentHash deps source =
      Dav.fileSync e cfg sha256Hex fileContentHash deps.syncDeps source := rfl

/-- Where a request puts a file, if it does. -/
def putAt : Request → Option (List String)
  | .put path .. => some (segmentsOf path)
  | .putRange path .. => some (segmentsOf path)
  | _ => none

/-- A copy at the names `loc` is where the prefix says: at the prefix and its source path, in the directory that is made
for its folder, which is the collection that a removal of it addresses. -/
structure Lands (pre : String) (call : WriterCall FileItem RawFileItem) (loc : List String) : Prop where
  placed : loc = segments (applyTargetFolderPrefix (some pre) call.item.path)
  inside : ∀ collection ∈ call.options.collection, segments (applyTargetFolderPrefix (some pre) collection) <+: loc
  addressed : ∀ collection ∈ call.options.collection,
    loc.dropLast = segments (applyTargetFolderPrefix (some pre) collection)

theorem not_lands {setting : Setting} {pre : String} {call : WriterCall FileItem RawFileItem}
    (h : parseTargetFolderPrefix setting = .ok (some pre)) : ¬ Lands pre call (segments call.item.path) := by
  rintro ⟨hplaced, -, -⟩
  obtain ⟨hpre, hsegments⟩ := segments_of_parse h
  rw [segments_prefixed hpre] at hplaced
  have hlength := congrArg List.length hplaced
  rw [List.length_append] at hlength
  have hpos := List.length_pos_of_ne_nil hsegments
  omega

variable {sha256Hex : String → String} {fileContentHash : List Char → String} {deps : FileSyncDeps} {source : FileSource}

theorem made_path {target : FileTarget T} {call : WriterCall FileItem RawFileItem}
    (h : Made (runFileSync target sha256Hex fileContentHash deps source) call) : call.raw.path = call.item.path := by
  obtain ⟨at_, size, rewriteOf, -, -, hfetch, -⟩ := h
  change source.fetchRaw call.item = _ at hfetch
  unfold FileSource.fetchRaw at hfetch
  cases hcontent : source.contentOf call.item with
  | error e =>
    rw [hcontent] at hfetch
    cases hfetch
  | ok content =>
    cases content with
    | none =>
      rw [hcontent] at hfetch
      cases hfetch
    | some content =>
      simp only [hcontent, Except.ok.injEq, Prod.mk.injEq] at hfetch
      rw [← hfetch.1]

/-- A run of a pass whose requests say which call of the writer they are for. -/
abbrev fileRun (target : FileTarget T) (sha256Hex : String → String) (fileContentHash : List Char → String)
    (deps : FileSyncDeps) (source : FileSource) (choices : List (Choice (Input (T.tagged FileItem RawFileItem)) T.Act)) :
    Pass (T.tagged FileItem RawFileItem) FileItem CollectionFolder RawFileItem :=
  ⟨(runFileSync target sha256Hex fileContentHash deps source).tagged, choices⟩

end Pass

section Webdav

variable {e : Dav.Endpoint} {cfg : WebDAVTargetConfig} {sha256Hex : String → String} {fileContentHash : List Char → String}
  {deps : FileSyncDeps} {source : FileSource}

/-- The requests of a writer of a file at `path`. -/
abbrev putsAt (e : Dav.Endpoint) (path : String) : Vocabulary (Cmd (Dav.api e)) Cmd.Resp PassError :=
  requests (T := Dav.api e) (fun r => ∀ loc ∈ putAt r, loc = segments path) fun _ _ => True

theorem request_puts {path : String} {r : Request} (h : ∀ loc ∈ putAt r, loc = segments path) :
    Emits (putsAt e path) (Dav.request r : Dav.DavTask e r.Resp) fun _ => True :=
  (Emits.perform _ _).mpr ⟨h, fun _ _ => trivial⟩

theorem other_puts {path : String} {r : Request} (h : putAt r = none) :
    Emits (putsAt e path) (Dav.request r : Dav.DavTask e r.Resp) fun _ => True := by
  apply request_puts
  intro loc hloc
  rw [h] at hloc
  cases hloc

theorem put_puts (path : String) (body : List Char) (ifNoneMatch : Bool) :
    Emits (putsAt e path) (Dav.request (.put (normalizeRelativePath path) body ifNoneMatch) : Dav.DavTask e _)
      fun _ => True := by
  apply request_puts
  intro loc hloc
  exact (Option.some.inj hloc).symm

theorem putRange_puts (path : String) (start total : ℕ) (chunk : List Char) :
    Emits (putsAt e path) (Dav.request (.putRange (normalizeRelativePath path) start total chunk) : Dav.DavTask e _)
      fun _ => True := by
  apply request_puts
  intro loc hloc
  exact (Option.some.inj hloc).symm

theorem uploadFile_puts (raw : RawFileItem) (overwrite : Bool) (expected : Option String) :
    Emits (putsAt e raw.path) (Dav.uploadFile cfg raw overwrite expected : Dav.DavTask e _) fun _ => True := by
  have hchanged : Emits (putsAt e raw.path) (.ret { path := normalizeRelativePath raw.path, conflicted := true } :
      Dav.DavTask e Dav.Written) fun _ => True := trivial
  apply Dav.checkOwnership_asks (other_puts rfl) hchanged
  cases raw.content with
  | none => trivial
  | some content =>
    by_cases hchunked : (cfg.chunkedUploads && decide (cfg.size < content.length)) = true
    · simp only [if_pos hchunked]
      exact (Dav.putChunks_asks (fun _ _ => putRange_puts raw.path _ _ _) _ _ _).seq fun _ => trivial
    · simp only [if_neg hchunked]
      exact Dav.putWhole_asks (put_puts raw.path _ _)

theorem noteFile_puts (path targetId : String) :
    Emits (putsAt e path) (Dav.noteFile path targetId : Dav.DavTask e Unit) fun _ => True :=
  Dav.noteFile_asks (other_puts rfl) (other_puts rfl)

theorem existingFile_puts (path : String) :
    Emits (putsAt e path) (Dav.existingFile path : Dav.DavTask e _) fun _ => True := by
  apply (other_puts rfl).seq
  intro listed
  cases listed with
  | some keys => trivial
  | none =>
    apply (other_puts rfl).seq
    intro found
    cases found with
    | none => trivial
    | some isDirectory => cases isDirectory <;> trivial

theorem upsertFile_puts (scope : Scope) (raw : RawFileItem) (options : UpsertOptions) :
    Emits (putsAt e raw.path) (Dav.upsertFile cfg sha256Hex fileContentHash scope raw options : Dav.DavTask e _)
      fun _ => True := by
  unfold Dav.upsertFile
  by_cases hoverwrite : options.overwrite = true
  · simp only [if_pos hoverwrite]
    apply (uploadFile_puts raw _ _).seq
    intro written
    by_cases hconflicted : written.conflicted = true
    · simp only [if_pos hconflicted]
      trivial
    · simp only [if_neg hconflicted]
      exact (noteFile_puts _ _).seq fun _ => trivial
  · simp only [if_neg hoverwrite]
    apply (requests_ledger _).seq
    intro known
    cases known.filter fun r => isOnTarget r.status with
    | some row => trivial
    | none =>
      apply (other_puts rfl).seq
      intro _
      apply (other_puts rfl).seq
      intro dirs
      by_cases hdirectory : dirs.contains (normalizeRelativePath raw.path) = true
      · simp only [if_pos hdirectory]
        trivial
      · simp only [if_neg hdirectory]
        apply (existingFile_puts raw.path).seq
        intro existing
        cases existing with
        | some existingId => exact (requests_ledger _).seq fun _ => trivial
        | none =>
          apply (uploadFile_puts raw _ _).seq
          intro written
          apply (noteFile_puts _ _).seq
          intro _
          exact (requests_ledger _).seq fun _ => trivial

variable (e cfg sha256Hex fileContentHash deps source) in
/-- What a pass asks of a WebDAV target. -/
abbrev webdavRequests : Vocabulary (Cmd ((Dav.api e).tagged FileItem RawFileItem)) Cmd.Resp PassError :=
  requests (T := (Dav.api e).tagged FileItem RawFileItem)
    (Asked (runFileSync (webdav e cfg sha256Hex fileContentHash) sha256Hex fileContentHash deps source)
      fun call r => ∀ loc ∈ putAt r, loc = segments call.raw.path) fun _ _ => True

theorem webdav_placed {store : Store ((Dav.api e).tagged FileItem RawFileItem)}
    {choices : List (Choice (Input ((Dav.api e).tagged FileItem RawFileItem)) (Dav.api e).Act)} {th : Option ℕ}
    {c : Option (WriterCall FileItem RawFileItem) × Request} {i : Input ((Dav.api e).tagged FileItem RawFileItem)}
    {s : World ((Dav.api e).tagged FileItem RawFileItem)} {loc : List String}
    (h : Event.exec th (.target (T := (Dav.api e).tagged FileItem RawFileItem) c) i s ∈
      (fileRun (webdav e cfg sha256Hex fileContentHash) sha256Hex fileContentHash deps source choices).trace store)
    (hloc : putAt c.2 = some loc) : ∃ call, c.1 = some call ∧ loc = segments call.item.path := by
  have hwriter : ∀ call, Made (runFileSync (webdav e cfg sha256Hex fileContentHash) sha256Hex fileContentHash deps source) call →
      Emits (putsAt e call.raw.path) (Dav.upsertFile cfg sha256Hex fileContentHash ⟨deps.tenantId, deps.mappingId, .file⟩
        call.raw call.options) fun _ => True := fun call _ => upsertFile_puts _ _ _
  have hstart : Conf.Emits (webdavRequests e cfg sha256Hex fileContentHash deps source)
      ((fileRun (webdav e cfg sha256Hex fileContentHash) sha256Hex fileContentHash deps source choices).start store).1 :=
    runDomainSync_requests hwriter
  have hheard : ∀ c i w, (webdavRequests e cfg sha256Hex fileContentHash deps source).hears c (World.exec i w c).1 :=
    fun c i w => requests_heard (fun _ _ => trivial) c i w
  obtain ⟨call, hcall, hmade, hput⟩ := Conf.Emits.trace (machine _) hheard hstart choices h
  refine ⟨call, hcall, ?_⟩
  rw [hput loc hloc, made_path hmade]

end Webdav

section Jmap

variable {S : FileServer} {stringify : String → String} {nodeVersion : FileNode → String} {sha256Hex : String → String}
  {fileContentHash : List Char → String} {deps : FileSyncDeps} {source : FileSource}

theorem exec_everParents (c : Cmd ((fileApi S stringify).tagged FileItem RawFileItem))
    (i : Input ((fileApi S stringify).tagged FileItem RawFileItem))
    (s : World ((fileApi S stringify).tagged FileItem RawFileItem)) :
    Extends (s.exec i c).2.1.target.everParents s.1.target.everParents := by
  obtain ⟨⟨call, r⟩, rfl⟩ | htarget := exec_target i s c
  · exact FileAccount.exec_extends r i.target s.1.target s.2.session
  · rw [htarget]
    exact .refl _

theorem act_everParents (a : FileAct) (s : World ((fileApi S stringify).tagged FileItem RawFileItem)) :
    Extends ((machine ((fileApi S stringify).tagged FileItem RawFileItem)).act a s).1.target.everParents
      s.1.target.everParents :=
  FileAccount.act_extends a

variable (S stringify nodeVersion sha256Hex fileContentHash deps source) in
/-- What a pass asks of a JMAP target whose nodes end up where `F` says. -/
abbrev jmapRequests (F : Parents String String) :
    Vocabulary (Cmd ((fileApi S stringify).tagged FileItem RawFileItem)) Cmd.Resp PassError :=
  requests (T := (fileApi S stringify).tagged FileItem RawFileItem)
    (Asked (runFileSync (jmap S stringify nodeVersion) sha256Hex fileContentHash deps source)
      fun call => FileCommand.Asked F (normalizeRelativePath call.raw.path)) fun c => FileCommand.Heard F c.2

theorem exec_recalls {F : Parents String String} {c : Cmd ((fileApi S stringify).tagged FileItem RawFileItem)}
    {i : Input ((fileApi S stringify).tagged FileItem RawFileItem)}
    {s : World ((fileApi S stringify).tagged FileItem RawFileItem)}
    (hc : (jmapRequests S stringify nodeVersion sha256Hex fileContentHash deps source F).asks c)
    (hF : Extends F (s.exec i c).2.1.target.everParents) (hs : Recalls F s.2.session) :
    Recalls F (s.exec i c).2.2.session := by
  cases c with
  | target r =>
    obtain ⟨tag, r⟩ := r
    obtain ⟨call, -, -, hasked⟩ := hc
    exact Recalls.exec hs hasked hF
  | ledger op =>
    simp only [World.exec, World.query]
    cases i.fault with
    | some reason => exact hs
    | none => exact hs
  | cursorGet key =>
    simp only [World.exec, World.query]
    cases i.fault with
    | some reason => exact hs
    | none => exact hs
  | cursorSet key value =>
    simp only [World.exec, World.query]
    cases i.fault with
    | some reason => exact hs
    | none => exact hs
  | modify | vars => exact hs

theorem exec_heard {F : Parents String String} {c : Cmd ((fileApi S stringify).tagged FileItem RawFileItem)}
    {i : Input ((fileApi S stringify).tagged FileItem RawFileItem)}
    {s : World ((fileApi S stringify).tagged FileItem RawFileItem)}
    (hF : Extends F (s.exec i c).2.1.target.everParents) (hs : Recalls F s.2.session) :
    (jmapRequests S stringify nodeVersion sha256Hex fileContentHash deps source F).hears c (s.exec i c).1 := by
  cases c with
  | target r => exact Recalls.hears hs r.2 hF
  | ledger op => exact exec_hears i s (.ledger op)
  | cursorGet | cursorSet | modify | vars => trivial

/-- Nothing moves once it is there, so the end says of every earlier state where its nodes are. -/
theorem jmap_extends {p : Pass ((fileApi S stringify).tagged FileItem RawFileItem) FileItem CollectionFolder RawFileItem}
    {store : Store ((fileApi S stringify).tagged FileItem RawFileItem)}
    {ev : Event (World ((fileApi S stringify).tagged FileItem RawFileItem)) _ _ _} (hev : ev ∈ p.trace store) :
    Extends (p.ending store).1.target.everParents
      ((machine ((fileApi S stringify).tagged FileItem RawFileItem)).post ev).1.target.everParents := by
  refine (machine ((fileApi S stringify).tagged FileItem RawFileItem)).run_keeps_from
    (P := fun u : World ((fileApi S stringify).tagged FileItem RawFileItem) => Extends u.1.target.everParents
      ((machine ((fileApi S stringify).tagged FileItem RawFileItem)).post ev).1.target.everParents)
    (fun ev' _ hpre => ?_) hev (Extends.refl _)
  cases ev' with
  | act a w => exact (act_everParents a w).trans hpre
  | exec th c i w => exact (exec_everParents c i w).trans hpre

theorem jmap_writer {F : Parents String String} (hnamed : F "" = none) (raw : RawFileItem) (options : UpsertOptions) :
    Emits (requests (T := fileApi S stringify) (FileCommand.Asked F (normalizeRelativePath raw.path)) (FileCommand.Heard F))
      ((Jmap.upsertFile nodeVersion raw options).onTarget S stringify) fun _ => True :=
  onTarget_requests (upsertFile_yields hnamed raw options).emits

/-- What the nodes of every state agree with, the requests of a pass agree with. -/
theorem jmap_asks {F : Parents String String} {store : Store ((fileApi S stringify).tagged FileItem RawFileItem)}
    {choices : List (Choice (Input ((fileApi S stringify).tagged FileItem RawFileItem)) (fileApi S stringify).Act)}
    (hnamed : F "" = none) (hextends : ∀ th c i w, Event.exec th c i w ∈
      (fileRun (jmap S stringify nodeVersion) sha256Hex fileContentHash deps source choices).trace store →
      Extends F (World.exec i w c).2.1.target.everParents) :
    ∀ th c i w, Event.exec th c i w ∈
      (fileRun (jmap S stringify nodeVersion) sha256Hex fileContentHash deps source choices).trace store →
      (jmapRequests S stringify nodeVersion sha256Hex fileContentHash deps source F).asks c := by
  have hstart : Conf.Emits (jmapRequests S stringify nodeVersion sha256Hex fileContentHash deps source F)
      ((fileRun (jmap S stringify nodeVersion) sha256Hex fileContentHash deps source choices).start store).1 := by
    have hwriter : ∀ call, Made (runFileSync (jmap S stringify nodeVersion) sha256Hex fileContentHash deps source) call →
        Emits (requests (T := fileApi S stringify) (FileCommand.Asked F (normalizeRelativePath call.raw.path))
          (FileCommand.Heard F)) ((Jmap.upsertFile nodeVersion call.raw call.options).onTarget S stringify) fun _ => True := by
      intro call _
      apply jmap_writer hnamed
    have hrun := runDomainSync_requests (d := runFileSync (jmap S stringify nodeVersion) sha256Hex fileContentHash deps source)
      hwriter
    exact hrun
  have hcached : Recalls F ((fileRun (jmap S stringify nodeVersion) sha256Hex fileContentHash deps source choices).start
      store).2.2.session := by
    intro tree htree
    cases htree
  have hkeeps := Conf.Emits.keeps (machine ((fileApi S stringify).tagged FileItem RawFileItem))
    (P := fun w => Recalls F w.2.session) (fun _ _ hs => hs) (fun _ _ _ hc hF hs => exec_recalls hc hF hs)
    (fun _ _ _ _ hF hs => exec_heard hF hs) hstart hcached hextends
  exact hkeeps.2

theorem jmap_placed {store : Store ((fileApi S stringify).tagged FileItem RawFileItem)}
    {choices : List (Choice (Input ((fileApi S stringify).tagged FileItem RawFileItem)) (fileApi S stringify).Act)}
    {th : Option ℕ} {c : Option (WriterCall FileItem RawFileItem) × FileCommand}
    {i : Input ((fileApi S stringify).tagged FileItem RawFileItem)}
    {s : World ((fileApi S stringify).tagged FileItem RawFileItem)} {id : String}
    (h : Event.exec th (.target (T := (fileApi S stringify).tagged FileItem RawFileItem) c) i s ∈
      (fileRun (jmap S stringify nodeVersion) sha256Hex fileContentHash deps source choices).trace store)
    (hmade : madeBy S c.2 i.target s.1.target = some id) : ∃ call, c.1 = some call ∧
      Leads ((fileRun (jmap S stringify nodeVersion) sha256Hex fileContentHash deps source choices).ending
        store).1.target.everParents (segments call.item.path) (some id) := by
  obtain ⟨call, hcall, hcallMade, hasked⟩ := jmap_asks (FileAccount.everParents_blank _) (fun _ _ _ _ => jmap_extends) _ _ _ _ h
  obtain ⟨wanted, hwanted, hblob, hparents⟩ := FileAccount.madeBy_parents stringify s.2.session hmade
  rw [hwanted] at hasked
  obtain ⟨P, hP, hpath⟩ := hasked hblob
  refine ⟨call, hcall, ?_⟩
  rw [← made_path hcallMade, segments, ← hpath]
  exact .under hP (jmap_extends h id _ hparents)

end Jmap

/-- Under a prefix no file is written where the prefix says, on either target: each goes to its source path. -/
theorem no_copy_lands {setting : Setting} {pre : String} (h : parseTargetFolderPrefix setting = .ok (some pre))
    (deps : FileSyncDeps) (_ : deps.targetFolderPrefix = some pre) (source : FileSource) (sha256Hex : String → String)
    (fileContentHash : List Char → String) :
    (∀ (e : Dav.Endpoint) (cfg : WebDAVTargetConfig) (store : Store ((Dav.api e).tagged FileItem RawFileItem))
        (choices : List (Choice (Input ((Dav.api e).tagged FileItem RawFileItem)) (Dav.api e).Act)) (th : Option ℕ)
        (c : Option (WriterCall FileItem RawFileItem) × Request) (i : Input ((Dav.api e).tagged FileItem RawFileItem))
        (s : World ((Dav.api e).tagged FileItem RawFileItem)) (loc : List String),
      Event.exec th (.target (T := (Dav.api e).tagged FileItem RawFileItem) c) i s ∈
        (fileRun (webdav e cfg sha256Hex fileContentHash) sha256Hex fileContentHash deps source choices).trace store →
      putAt c.2 = some loc → ∃ call, c.1 = some call ∧ loc = segments call.item.path ∧ ¬ Lands pre call loc) ∧
    (∀ (S : FileServer) (stringify : String → String) (nodeVersion : FileNode → String)
        (store : Store ((fileApi S stringify).tagged FileItem RawFileItem))
        (choices : List (Choice (Input ((fileApi S stringify).tagged FileItem RawFileItem)) (fileApi S stringify).Act))
        (th : Option ℕ) (c : Option (WriterCall FileItem RawFileItem) × FileCommand)
        (i : Input ((fileApi S stringify).tagged FileItem RawFileItem))
        (s : World ((fileApi S stringify).tagged FileItem RawFileItem)) (id : String),
      Event.exec th (.target (T := (fileApi S stringify).tagged FileItem RawFileItem) c) i s ∈
        (fileRun (jmap S stringify nodeVersion) sha256Hex fileContentHash deps source choices).trace store →
      madeBy S c.2 i.target s.1.target = some id → ∃ call, c.1 = some call ∧
        Leads ((fileRun (jmap S stringify nodeVersion) sha256Hex fileContentHash deps source choices).ending
          store).1.target.everParents (segments call.item.path) (some id) ∧
        ∀ loc, Leads ((fileRun (jmap S stringify nodeVersion) sha256Hex fileContentHash deps source choices).ending
          store).1.target.everParents loc (some id) → ¬ Lands pre call loc) := by
  constructor
  · intro e cfg store choices th c i s loc hev hloc
    obtain ⟨call, hcall, hpath⟩ := webdav_placed hev hloc
    refine ⟨call, hcall, hpath, ?_⟩
    rw [hpath]
    exact not_lands h
  · intro S stringify nodeVersion store choices th c i s id hev hmade
    obtain ⟨call, hcall, hleads⟩ := jmap_placed hev hmade
    refine ⟨call, hcall, hleads, fun loc hloc => ?_⟩
    rw [hloc.unique hleads]
    exact not_lands h

namespace Sample

def deps : FileSyncDeps where
  tenantId := "t"
  mappingId := "m"
  cursors := false
  targetFolderPrefix := some "Files"
  ensureDirectory folder := .ok folder.path

def store : Store ((Dav.api Dav.Sample.endpoint).tagged FileItem RawFileItem) := ⟨∅, ∅, ⟨∅, [], 0⟩⟩

def choices : List (Choice (Input ((Dav.api Dav.Sample.endpoint).tagged FileItem RawFileItem))
    (Dav.api Dav.Sample.endpoint).Act) :=
  List.replicate 40 (.run 0 ⟨1, none, { delivery := .served }⟩)

/-- A pass over one file, `a.txt`, under the prefix `Files`. -/
def run : Pass ((Dav.api Dav.Sample.endpoint).tagged FileItem RawFileItem) FileItem CollectionFolder RawFileItem :=
  fileRun (webdav Dav.Sample.endpoint Dav.Sample.webDAV Dav.Sample.sha256Hex Dav.Sample.contentHash) Dav.Sample.sha256Hex
    Dav.Sample.contentHash deps (Dav.Sample.files ["a.txt"]) choices

def put : Event (World ((Dav.api Dav.Sample.endpoint).tagged FileItem RawFileItem))
    (Cmd ((Dav.api Dav.Sample.endpoint).tagged FileItem RawFileItem)) (Input ((Dav.api Dav.Sample.endpoint).tagged FileItem RawFileItem))
    (Dav.api Dav.Sample.endpoint).Act → Option (List String)
  | .exec _ (.target c) _ _ => putAt c.2
  | _ => none

theorem run_puts : (run.trace store).filterMap put = [["a.txt"]] := by
  decide +kernel

theorem run_put : ∃ th c i s, Event.exec th (.target (T := (Dav.api Dav.Sample.endpoint).tagged FileItem RawFileItem) c) i s ∈
    run.trace store ∧ putAt c.2 = some ["a.txt"] := by
  have hmem : ["a.txt"] ∈ (run.trace store).filterMap put := by
    rw [run_puts]
    exact List.mem_singleton_self _
  obtain ⟨ev, hev, hput⟩ := List.mem_filterMap.mp hmem
  cases ev with
  | act a s => cases hput
  | exec th c i s =>
    cases c with
    | target c => exact ⟨th, c, i, s, hev, hput⟩
    | ledger | cursorGet | cursorSet | modify | vars => cases hput

end Sample

theorem no_copy_of_sample_lands : ∃ th c i s call,
    Event.exec th (.target (T := (Dav.api Dav.Sample.endpoint).tagged FileItem RawFileItem) c) i s ∈
      Sample.run.trace Sample.store ∧ putAt c.2 = some ["a.txt"] ∧ c.1 = some call ∧ ¬ Lands "Files" call ["a.txt"] := by
  obtain ⟨th, c, i, s, hev, hput⟩ := Sample.run_put
  have haccepted : parseTargetFolderPrefix (.text "Files") = .ok (some "Files") := by decide
  obtain ⟨call, hcall, -, hlands⟩ := (no_copy_lands haccepted Sample.deps rfl _ _ _).1 _ _ _ _ _ _ _ _ _ hev hput
  exact ⟨th, c, i, s, call, hev, hput, hcall, hlands⟩

/-- The mapping puts everything under `Files`, and its file `a.txt` is put at `a.txt`. -/
theorem copy_beside_the_prefix : parseTargetFolderPrefix (.text "/Files/") = .ok (some "Files") ∧
    ∃ th c i s call, Event.exec th (.target (T := (Dav.api Dav.Sample.endpoint).tagged FileItem RawFileItem) c) i s ∈
      Sample.run.trace Sample.store ∧ putAt c.2 = some ["a.txt"] ∧ c.1 = some call ∧
      segments (applyTargetFolderPrefix (some "Files") call.item.path) = ["Files", "a.txt"] ∧ ¬ Lands "Files" call ["a.txt"] := by
  have haccepted : parseTargetFolderPrefix (.text "/Files/") = .ok (some "Files") := by decide
  refine ⟨haccepted, ?_⟩
  obtain ⟨th, c, i, s, hev, hput⟩ := Sample.run_put
  obtain ⟨call, hcall, hpath⟩ := webdav_placed hev hput
  have hunder : segments (applyTargetFolderPrefix (some "Files") call.item.path) = ["Files", "a.txt"] := by
    rw [segments_prefixed (by decide), ← hpath]
    decide
  have hbeside : ¬ Lands "Files" call ["a.txt"] := by
    rw [hpath]
    exact not_lands haccepted
  exact ⟨th, c, i, s, call, hev, hput, hcall, hunder, hbeside⟩

end OpenMigrate.Files
