import OpenMigrate.Dav.WebdavTree

namespace OpenMigrate.Dav

/-- One poll of a folder: the runtime, whose clock goes on, and what the server answers. -/
structure Poll where
  js : Runtime
  send : List Char → Except (ℕ × String) (List PropfindResponseEntry)

section Polls

variable (cfg : WebDAVSourceConfig) (folder : CollectionFolder)

/-- The files the folder holds at a poll, as the connector reads them. -/
def Poll.files (p : Poll) : Except PassError (List (WebDAVFile × PropfindResponseEntry)) :=
  (performPropfind cfg p.send (combineWithRootPath cfg (normalizePath folder.path.toList))).bind fun responses =>
  (responses.filter (!·.collection)).mapM fun entry =>
    (parseFileFromEntry p.js cfg entry).map fun file => (file, entry)

/-- What each poll returns when it is given the cursor of the poll before. -/
def polled : Option FolderCursor → List Poll → List (Except PassError (List FileItem))
  | _, [] => []
  | cursor, p :: ps =>
    match listSince p.js cfg p.send folder cursor with
    | .ok listing => .ok listing.items :: polled (some listing.nextCursor) ps
    | .error e => .error e :: polled cursor ps

/-- Added or changed since the folder held these files; a change gives a new etag. -/
def changedSince (before : Option (List WebDAVFile)) (file : WebDAVFile) : Bool :=
  match before with
  | none => true
  | some files => !files.any fun g => g.path == file.path && g.etag == file.etag

/-- What was added or changed at each poll since the poll before. -/
def changes : Option (List WebDAVFile) → List Poll → List (Except PassError (List FileItem))
  | _, [] => []
  | before, p :: ps =>
    match p.files cfg folder with
    | .ok files =>
      .ok ((files.filter fun e => changedSince before e.1).map fun e => fileItem e.1 e.2) ::
        changes (some (files.map (·.1))) ps
    | .error e => .error e :: changes before ps

/-- The file `g` of one poll can be known again in the file `f` of the next: it was new or changed at its poll, it
has an etag, and its size and date stay. -/
structure KnownAgain (old : Option (List WebDAVFile)) (g f : WebDAVFile) : Prop where
  changed : changedSince old g = true
  path : f.path ≠ "__proto__"
  etag : f.etag ≠ ""
  size : g.size = f.size
  modifiedAt : g.modifiedAt = f.modifiedAt

/-- Whatever stays as it is from one poll to the next can be known again. -/
def AllKnownAgain : (old before : Option (List WebDAVFile)) → List Poll → Prop
  | _, _, [] => True
  | old, before, p :: ps =>
    match p.files cfg folder with
    | .ok files =>
      (∀ f ∈ files.map (·.1), ∀ g ∈ before.getD [], g.path = f.path → g.etag = f.etag → KnownAgain old g f) ∧
        AllKnownAgain before (some (files.map (·.1))) ps
    | .error _ => AllKnownAgain old before ps

end Polls

section Records

variable {V : Type} {value : WebDAVFile → Option V} {files : List WebDAVFile} {p : String}

theorem lookup_setKey_self (record : List (String × V)) {key : String} (hkey : key ≠ "__proto__") (v : V) :
    (setKey record key v).lookup key = some v := by
  rw [setKey, if_neg hkey, List.lookup_cons_self]

theorem lookup_setKey_ne (record : List (String × V)) {key p : String} (hne : p ≠ key) (v : V) :
    (setKey record key v).lookup p = record.lookup p := by
  unfold setKey
  split
  · rfl
  · rw [List.lookup_cons, beq_eq_false_iff_ne.mpr hne]

theorem lookup_setKey_proto (record : List (String × V)) (key : String) (v : V) :
    (setKey record key v).lookup "__proto__" = record.lookup "__proto__" := by
  by_cases hkey : key = "__proto__"
  · rw [setKey, if_pos hkey]
  · exact lookup_setKey_ne record (Ne.symm hkey) v

theorem recordOf_append (f : WebDAVFile) :
    recordOf value (files ++ [f]) =
      match value f with
      | some v => setKey (recordOf value files) f.path v
      | none => recordOf value files := by
  rw [recordOf, List.foldl_append]
  rfl

theorem lookup_recordOf_proto : (recordOf value files).lookup "__proto__" = none := by
  induction files using List.reverseRecOn with
  | nil => rfl
  | append_singleton files f ih =>
    rw [recordOf_append]
    cases value f with
    | none => exact ih
    | some v =>
      dsimp only
      rw [lookup_setKey_proto, ih]

theorem lookup_recordOf_absent (habsent : ∀ f ∈ files, f.path ≠ p) : (recordOf value files).lookup p = none := by
  induction files using List.reverseRecOn with
  | nil => rfl
  | append_singleton files f ih =>
    have hrest := ih fun g hg => habsent g (List.mem_append_left _ hg)
    have hf : f.path ≠ p := habsent f (by simp)
    rw [recordOf_append]
    cases value f with
    | none => exact hrest
    | some v =>
      dsimp only
      rw [lookup_setKey_ne _ (Ne.symm hf), hrest]

variable (value) in
theorem lookup_recordOf (hunique : (files.map (·.path)).Nodup) {f : WebDAVFile} (hf : f ∈ files)
    (hpath : f.path ≠ "__proto__") : (recordOf value files).lookup f.path = value f := by
  induction files using List.reverseRecOn with
  | nil => cases hf
  | append_singleton files g ih =>
    rw [List.map_append, List.nodup_append] at hunique
    obtain ⟨hrest, -, hdisjoint⟩ := hunique
    rw [recordOf_append]
    obtain hf | hf := List.mem_append.mp hf
    · have hne : f.path ≠ g.path := hdisjoint f.path (List.mem_map_of_mem hf) g.path (by simp)
      cases value g with
      | none => exact ih hrest hf
      | some v =>
        dsimp only
        rw [lookup_setKey_ne _ hne, ih hrest hf]
    · obtain rfl := List.mem_singleton.mp hf
      cases hv : value f with
      | none =>
        apply lookup_recordOf_absent
        intro f' hf' heq
        exact hdisjoint f'.path (List.mem_map_of_mem hf') f.path (by simp) heq
      | some v => exact lookup_setKey_self _ hpath v

end Records

section Step

variable {folderPath : List Char} {returned : List WebDAVFile} {f : WebDAVFile}

theorem hasChanged_iff (hunique : (returned.map (·.path)).Nodup) :
    hasChanged (some (buildCursor folderPath returned)) f = false ↔
      ∃ g ∈ returned, g.path = f.path ∧ g.etag = f.etag ∧ f.path ≠ "__proto__" ∧ f.etag ≠ "" ∧ g.size = f.size ∧
        g.modifiedAt = f.modifiedAt := by
  by_cases hproto : f.path = "__proto__"
  · simp [hasChanged, buildCursor, hproto, lookup_recordOf_proto]
  · by_cases hhere : ∃ g ∈ returned, g.path = f.path
    · obtain ⟨g, hg, hpath⟩ := hhere
      have hgproto : g.path ≠ "__proto__" := fun h => hproto (hpath.symm.trans h)
      have honly : ∀ g' ∈ returned, g'.path = f.path → g' = g := fun g' hg' hpath' =>
        List.inj_on_of_nodup_map hunique hg' hg (hpath'.trans hpath.symm)
      have hetag := lookup_recordOf (fun file => if file.etag ≠ "" then some file.etag else none) hunique hg hgproto
      have hsize := lookup_recordOf (fun file => some file.size) hunique hg hgproto
      have hmtime := lookup_recordOf (fun file => some file.modifiedAt) hunique hg hgproto
      rw [hpath] at hetag hsize hmtime
      have hown : hasChanged (some (buildCursor folderPath returned)) f = false ↔
          g.etag ≠ "" ∧ g.etag = f.etag ∧ g.size = f.size ∧ g.modifiedAt = f.modifiedAt := by
        simp only [hasChanged, buildCursor, hetag, hsize, hmtime]
        by_cases hempty : g.etag = ""
        · simp [hempty]
        · simp [hempty, and_assoc]
      rw [hown]
      constructor
      · rintro ⟨hne, heq, hs, hm⟩
        exact ⟨g, hg, hpath, heq, hproto, heq ▸ hne, hs, hm⟩
      · rintro ⟨g', hg', hpath', heq, -, hne, hs, hm⟩
        obtain rfl := honly g' hg' hpath'
        exact ⟨heq ▸ hne, heq, hs, hm⟩
    · have habsent : ∀ g ∈ returned, g.path ≠ f.path := fun g hg hpath => hhere ⟨g, hg, hpath⟩
      have hchanged : hasChanged (some (buildCursor folderPath returned)) f = true := by
        simp only [hasChanged, buildCursor, lookup_recordOf_absent habsent]
      rw [hchanged]
      constructor
      · exact fun h => absurd h Bool.true_eq_false_eq_False
      · rintro ⟨g, hg, hpath, -⟩
        exact absurd hpath (habsent g hg)

theorem changedSince_iff {files : List WebDAVFile} :
    changedSince (some files) f = false ↔ ∃ g ∈ files, g.path = f.path ∧ g.etag = f.etag := by
  simp [changedSince]

theorem filter_map_eq_iff {α β : Type} {asked due : α → Bool} (item : α → β) {l : List α}
    (hnone : ∀ x ∈ l, due x = true → asked x = true) :
    (l.filter asked).map item = (l.filter due).map item ↔ ∀ x ∈ l, due x = false → asked x = false := by
  constructor
  · intro h
    have hlength : (l.filter asked).length = (l.filter due).length := by
      simpa using congrArg List.length h
    have htwice : l.filter due = (l.filter asked).filter due := by
      rw [List.filter_filter]
      apply List.filter_congr
      intro x hx
      cases hdue : due x with
      | true => rw [hnone x hx hdue, Bool.and_true]
      | false => rw [Bool.false_and]
    have hsub : (l.filter due).Sublist (l.filter asked) := htwice ▸ List.filter_sublist
    have heq := hsub.eq_of_length hlength.symm
    intro x hx hno
    by_contra hyes
    have hmem : x ∈ l.filter due := heq ▸ List.mem_filter.mpr ⟨hx, Bool.not_eq_false _ ▸ hyes⟩
    exact Bool.false_ne_true (hno.symm.trans (List.of_mem_filter hmem))
  · intro h
    apply congrArg
    apply List.filter_congr
    intro x hx
    cases hdue : due x with
    | true => exact hnone x hx hdue
    | false => exact h x hx hdue

/-- The cursor after a poll that returned what had changed. -/
def cursorAfter (folderPath : List Char) (old before : Option (List WebDAVFile)) : Option FolderCursor :=
  before.map fun files => buildCursor folderPath (files.filter (changedSince old))

variable {old before : Option (List WebDAVFile)}

variable (old) in
theorem cursorAfter_unique (hunique : ((before.getD []).map (·.path)).Nodup) {files : List WebDAVFile}
    (hbefore : before = some files) : ((files.filter (changedSince old)).map (·.path)).Nodup := by
  subst hbefore
  exact hunique.sublist (List.filter_sublist.map _)

theorem hasChanged_of_changed (hunique : ((before.getD []).map (·.path)).Nodup) (hdue : changedSince before f = true) :
    hasChanged (cursorAfter folderPath old before) f = true := by
  cases hbefore : before with
  | none => rfl
  | some files =>
    by_contra hmissed
    have hleft : hasChanged (some (buildCursor folderPath (files.filter (changedSince old)))) f = false :=
      Bool.not_eq_true _ ▸ hmissed
    obtain ⟨g, hg, hpath, hetag, -⟩ := (hasChanged_iff (cursorAfter_unique old hunique hbefore)).mp hleft
    have hsame := changedSince_iff.mpr ⟨g, List.mem_of_mem_filter hg, hpath, hetag⟩
    rw [hbefore, hsame] at hdue
    cases hdue

theorem left_iff (hunique : ((before.getD []).map (·.path)).Nodup) :
    (changedSince before f = false → hasChanged (cursorAfter folderPath old before) f = false) ↔
      ∀ g ∈ before.getD [], g.path = f.path → g.etag = f.etag → KnownAgain old g f := by
  cases hbefore : before with
  | none => simp [changedSince]
  | some files =>
    have hreturned := cursorAfter_unique old hunique hbefore
    rw [hbefore] at hunique
    constructor
    · intro h g hg hpath hetag
      obtain ⟨g', hg', hpath', -, hproto, hne, hsize, hmtime⟩ :=
        (hasChanged_iff hreturned).mp (h (changedSince_iff.mpr ⟨g, hg, hpath, hetag⟩))
      obtain ⟨hmem, hchanged⟩ := List.mem_filter.mp hg'
      obtain rfl : g' = g := List.inj_on_of_nodup_map hunique hmem hg (hpath'.trans hpath.symm)
      exact ⟨hchanged, hproto, hne, hsize, hmtime⟩
    · intro h hsame
      obtain ⟨g, hg, hpath, hetag⟩ := changedSince_iff.mp hsame
      have hknown := h g hg hpath hetag
      have hmem : g ∈ files.filter (changedSince old) := List.mem_filter.mpr ⟨hg, hknown.changed⟩
      exact (hasChanged_iff hreturned).mpr
        ⟨g, hmem, hpath, hetag, hknown.path, hknown.etag, hknown.size, hknown.modifiedAt⟩

end Step

section Runs

variable {cfg : WebDAVSourceConfig} {folder : CollectionFolder}

theorem listSince_eq (p : Poll) (cursor : Option FolderCursor) :
    listSince p.js cfg p.send folder cursor = (p.files cfg folder).map fun files =>
      ⟨(files.filter fun e => hasChanged cursor e.1).map fun e => fileItem e.1 e.2,
        buildCursor (normalizePath folder.path.toList)
          ((files.filter fun e => hasChanged cursor e.1).map (·.1))⟩ := by
  unfold listSince Poll.files
  dsimp only
  generalize performPropfind cfg p.send (combineWithRootPath cfg (normalizePath folder.path.toList)) = responses
  cases responses <;> rfl

/-- A folder holds one file of each path at every poll. -/
def OneFileAPath (cfg : WebDAVSourceConfig) (folder : CollectionFolder) (ps : List Poll) : Prop :=
  ∀ p ∈ ps, ∀ files, p.files cfg folder = .ok files → (files.map (·.1.path)).Nodup

theorem polled_iff {ps : List Poll} (hps : OneFileAPath cfg folder ps) (old before : Option (List WebDAVFile))
    (hunique : ((before.getD []).map (·.path)).Nodup) :
    polled cfg folder (cursorAfter (normalizePath folder.path.toList) old before) ps = changes cfg folder before ps ↔
      AllKnownAgain cfg folder old before ps := by
  induction ps generalizing old before with
  | nil => simp [polled, changes, AllKnownAgain]
  | cons p ps ih =>
    have hrest : OneFileAPath cfg folder ps := fun q hq => hps q (List.mem_cons_of_mem p hq)
    rw [polled, changes, AllKnownAgain, listSince_eq]
    cases hfiles : p.files cfg folder with
    | error e =>
      simpa [Except.map] using ih hrest old before hunique
    | ok files =>
      have hone : (((some (files.map (·.1))).getD []).map WebDAVFile.path).Nodup := by
        simpa [Function.comp_def] using hps p List.mem_cons_self files hfiles
      have hnext := ih hrest before _ hone
      have hpoll : ((files.filter fun e => hasChanged (cursorAfter (normalizePath folder.path.toList) old before) e.1).map
            fun e => fileItem e.1 e.2) =
          ((files.filter fun e => changedSince before e.1).map fun e => fileItem e.1 e.2) ↔
          ∀ f ∈ files.map (·.1), ∀ g ∈ before.getD [], g.path = f.path → g.etag = f.etag → KnownAgain old g f := by
        rw [filter_map_eq_iff _ fun e _ => hasChanged_of_changed hunique, List.forall_mem_map]
        exact forall₂_congr fun e _ => left_iff hunique
      simp only [Except.map, List.cons.injEq, Except.ok.injEq, hpoll]
      apply and_congr_right
      intro hknown
      have hsame : ∀ e ∈ files, hasChanged (cursorAfter (normalizePath folder.path.toList) old before) e.1 =
          changedSince before e.1 := by
        intro e he
        cases hdue : changedSince before e.1 with
        | true => exact hasChanged_of_changed hunique hdue
        | false => exact (left_iff hunique).mpr (hknown e.1 (List.mem_map_of_mem he)) hdue
      rw [← hnext, List.filter_congr hsame, cursorAfter, Option.map_some, List.filter_map]
      rfl

/-- Polls return what was added or changed since the poll before, and nothing else, exactly when no file stays as it
is for longer than one poll and each that stays has an etag and keeps its size and date. -/
theorem polls_exact_iff {ps : List Poll} (hps : OneFileAPath cfg folder ps) :
    polled cfg folder none ps = changes cfg folder none ps ↔ AllKnownAgain cfg folder none none ps :=
  polled_iff hps none none List.nodup_nil

end Runs

namespace Sample

def top : CollectionFolder := ⟨"", none⟩

def entryOf (etag : List Char) : PropfindResponseEntry where
  href := "/dav/a".toList
  collection := false
  getContentLength := some 3
  getLastModified := some "2026-01-01T00:00:00.000Z"
  getEtag := some etag

/-- A poll that finds one file, with this etag. -/
def pollOf (etag : List Char) : Poll := ⟨runtime, fun _ => .ok [entryOf etag]⟩

def fileOf (etag : String) : WebDAVFile := ⟨"a", "a", 3, "2026-01-01T00:00:00.000Z", etag⟩

theorem files_one : (pollOf ['1']).files drive top = .ok [(fileOf "1", entryOf ['1'])] := by rfl

theorem files_two : (pollOf ['2']).files drive top = .ok [(fileOf "2", entryOf ['2'])] := by rfl

theorem polls_exact_iff_changed :
    polled drive top none [pollOf ['1'], pollOf ['1'], pollOf ['2']] =
      changes drive top none [pollOf ['1'], pollOf ['1'], pollOf ['2']] := by
  have hone : OneFileAPath drive top [pollOf ['1'], pollOf ['1'], pollOf ['2']] := by
    intro p hp files hfiles
    simp only [List.mem_cons, List.not_mem_nil, or_false, or_self_left] at hp
    obtain rfl | rfl := hp
    · obtain rfl := Except.ok.inj (files_one.symm.trans hfiles)
      exact List.nodup_singleton _
    · obtain rfl := Except.ok.inj (files_two.symm.trans hfiles)
      exact List.nodup_singleton _
  rw [polls_exact_iff hone]
  have hknown : KnownAgain none (fileOf "1") (fileOf "1") := ⟨rfl, by decide, by decide, rfl, rfl⟩
  simpa [AllKnownAgain, files_one, files_two, fileOf] using hknown

/-- A file that never changes: the third poll returns it again. -/
theorem unchanged_file_returned :
    polled drive top none [pollOf ['1'], pollOf ['1'], pollOf ['1']] ≠
      changes drive top none [pollOf ['1'], pollOf ['1'], pollOf ['1']] := by
  intro h
  have hpolled : (polled drive top none [pollOf ['1'], pollOf ['1'], pollOf ['1']]).map
      (fun items => items.toOption.map List.length) = [some 1, some 0, some 1] := by rfl
  have hdue : (changes drive top none [pollOf ['1'], pollOf ['1'], pollOf ['1']]).map
      (fun items => items.toOption.map List.length) = [some 1, some 0, some 0] := by rfl
  rw [h, hdue] at hpolled
  simp at hpolled

end Sample

end OpenMigrate.Dav
