import OpenMigrate.Graph.DriveMoves
import OpenMigrate.Sync.Handles
import OpenMigrate.Verify.History

namespace OpenMigrate.Verify

open Async PgLedger

variable {T : TargetApi} {Item Folder Raw : Type} [FolderLike Folder]

/-- What a round lists of one mapping's domain. -/
def Round.listed (scope : Scope) (store : Store (T.observed Item Raw)) : Round T Item Folder Raw → List (String × String)
  | .pass d choices => if d.scope = scope then (⟨d.observed, choices⟩ : Pass _ _ _ _).listed store else []
  | _ => []

/-- What the rounds list, in their order. -/
def listedOver (scope : Scope) (store : Store (T.observed Item Raw)) :
    List (Round T Item Folder Raw) → List (String × String)
  | [] => []
  | r :: rounds => r.listed scope store ++ listedOver scope (r.ending store) rounds

/-- Whatever has happened to the ledger before: a pass that looks up each handle its source reports removed
while only the row it was last listed at carries it, and nothing is listed there, marks what went away. -/
theorem reported_removals_marked {store : Store (T.observed Item Raw)} {before : List (Round T Item Folder Raw)}
    {d : DomainSyncDeps T Item Folder Raw} {choices : Choices T Item Raw}
    (htold : ∀ th ref i w, Event.exec th (.ledger (.findBySourceRef d.scope ref)) i w ∈
        (⟨d.observed, choices⟩ : Pass _ _ _ _).trace (after store before) →
      Told d.scope
        (lastKey (listedOver d.scope store before ++ (⟨d.observed, choices⟩ : Pass _ _ _ _).listed (after store before)) ref)
        ((⟨d.observed, choices⟩ : Pass _ _ _ _).listed (after store before)) ref w) :
    MarksWhatWent (listedOver d.scope store before) ⟨d.observed, choices⟩ (after store before) := marks_what_went htold

section Sample

open OpenMigrate.Graph Dav

def Sample.hash : String → String
  | "file:/b.txt" => "870e4cd9f2c41d0b9aaba320056ebe63808bfa78ce91b35527fb041666700481"
  | "file:/c.txt" => "d0d9eabe9aaec8b19ac41d0c4ec34fc2ce391ebf4b1e87b756deaef43f4ef174"
  | s => Graph.Sample.sha256Hex s

def Sample.live (id name : String) : GraphDriveItem := { Graph.Sample.document id [] with name := name.toList }

def Sample.gone (id : String) : GraphDriveItem where
  id := id
  name := []
  deleted := true

def Sample.link (n : ℕ) : List Char := Graph.Sample.me ++ "/drive/root/delta?token=".toList ++ [Nat.digitChar n]

/-- A drive whose root has these changes to tell of, one poll after the other. -/
def Sample.telling (changes : List (List GraphDriveItem)) : GraphClient :=
  Graph.Sample.answering ((Graph.Sample.me ++ "/drive/root/children".toList, .last [] none) ::
    changes.zipIdx.map fun e =>
      (if e.2 = 0 then Graph.Sample.me ++ "/drive/root/delta".toList else Sample.link e.2, .last e.1 (some (Sample.link (e.2 + 1)))))

def Sample.polling (changes : List (List GraphDriveItem)) :
    DomainSyncDeps (api Dav.Sample.endpoint) FileItem CollectionFolder RawFileItem :=
  fileSync Dav.Sample.endpoint Dav.Sample.webDAV Sample.hash Dav.Sample.contentHash { Dav.Sample.deps with cursors := true }
    (driveSource (Sample.telling changes))

def Sample.inTurn (n : ℕ) : Choices (api Dav.Sample.endpoint) FileItem RawFileItem :=
  (List.replicate n [.run 0 ⟨1, none, { delivery := .served }⟩, .run 1 ⟨1, none, { delivery := .served }⟩]).flatten

def Sample.polls (n : ℕ) (changes : List (List GraphDriveItem)) :
    List (Round (api Dav.Sample.endpoint) FileItem CollectionFolder RawFileItem) :=
  List.replicate n (.pass (Sample.polling changes) (Sample.inTurn 25))

def Sample.lastPoll (changes : List (List GraphDriveItem)) : Pass Sample.Api FileItem CollectionFolder RawFileItem :=
  ⟨(Sample.polling changes).observed, Sample.inTurn 25⟩

/-- A file that stays where it is until it is deleted. -/
def Sample.staying : List (List GraphDriveItem) := [[Sample.live "A" "a.txt"], [Sample.gone "A"]]

/-- A file that is moved, takes the place of another, and is deleted. -/
def Sample.wandering : List (List GraphDriveItem) :=
  [[Sample.live "A" "a.txt", Sample.live "Y" "c.txt"], [Sample.live "A" "b.txt"],
    [Sample.live "A" "c.txt", Sample.gone "Y"], [Sample.gone "A"]]

def Sample.fileScope : Scope := ⟨"t", "m", .file⟩

structure Sample.Lookup where
  ref : String
  rows : List (String × ItemStatus × Option String)
  seen : List String
  deriving DecidableEq

def Sample.lookupOf : Event (World Sample.Api) (Cmd Sample.Api) (Input Sample.Api) OwnerAct → Option Sample.Lookup
  | .exec _ (.ledger (.findBySourceRef _ ref)) _ w =>
    some ⟨ref, (rows w.1.ledger Sample.fileScope).map fun e => (e.1, e.2.status, e.2.sourceRefHref), seenAnywhere w.vars⟩
  | _ => none

/-- The polls are computed once for all that is asked of them. -/
theorem Sample.staying_ended :
    ((Sample.lastPoll Sample.staying).trace (after Sample.filesStore (Sample.polls 1 Sample.staying))).filterMap
        Sample.lookupOf = [⟨"A", [(Sample.hash "file:/a.txt", .copied, some "A")], []⟩] ∧
      listedOver Sample.fileScope Sample.filesStore (Sample.polls 1 Sample.staying) =
        [("A", Sample.hash "file:/a.txt")] ∧
      (Sample.lastPoll Sample.staying).listed (after Sample.filesStore (Sample.polls 1 Sample.staying)) = [] := by
  decide +kernel

theorem reported_removals_marked_staying :
    MarksWhatWent (listedOver Sample.fileScope Sample.filesStore (Sample.polls 1 Sample.staying))
      (Sample.lastPoll Sample.staying) (after Sample.filesStore (Sample.polls 1 Sample.staying)) := by
  obtain ⟨hlookups, hbefore, hnow⟩ := Sample.staying_ended
  refine reported_removals_marked (d := Sample.polling Sample.staying) fun th ref i w hev => ?_
  have hlookup : (⟨ref, (rows w.1.ledger Sample.fileScope).map fun e => (e.1, e.2.status, e.2.sourceRefHref),
      seenAnywhere w.vars⟩ : Sample.Lookup) ∈ ((Sample.lastPoll Sample.staying).trace
        (after Sample.filesStore (Sample.polls 1 Sample.staying))).filterMap Sample.lookupOf :=
    List.mem_filterMap.mpr ⟨_, hev, rfl⟩
  rw [hlookups, List.mem_singleton, Sample.Lookup.mk.injEq] at hlookup
  obtain ⟨rfl, hrows, hseen⟩ := hlookup
  have honly : ∀ key status carried, handleOf Sample.fileScope w.1.ledger key = some (status, carried) →
      key = Sample.hash "file:/a.txt" ∧ carried = some "A" := by
    intro key status carried hhandle
    obtain ⟨row, hrow, rfl, rfl⟩ := handleOf_eq_some.mp hhandle
    have hmem : (key, row.status, row.sourceRefHref) ∈
        (rows w.1.ledger Sample.fileScope).map fun e => (e.1, e.2.status, e.2.sourceRefHref) :=
      List.mem_map.mpr ⟨(key, row), (mem_rows _).mpr hrow, rfl⟩
    rw [hrows, List.mem_singleton] at hmem
    simp only [Prod.mk.injEq] at hmem
    exact ⟨hmem.1, hmem.2.2⟩
  constructor
  · intro key hkey status carried hhandle _
    obtain ⟨rfl, rfl⟩ := honly key status carried hhandle
    refine ⟨⟨by decide, rfl, fun other status' hother => (honly other status' _ hother).1⟩, ?_⟩
    rw [hseen]
    exact List.not_mem_nil
  · intro place hplace
    have hnone : ("A", place) ∈ ([] : List (String × String)) := by
      rw [← hnow]
      exact hplace
    exact absurd hnone List.not_mem_nil

theorem Sample.wandering_ended :
    ((Sample.lastPoll Sample.wandering).ending
        (after Sample.filesStore (Sample.polls 3 Sample.wandering))).vars.stage = .resolved ∧
      "A" ∈ ((Sample.lastPoll Sample.wandering).ending
        (after Sample.filesStore (Sample.polls 3 Sample.wandering))).vars.reportedRemovals ∧
      (row? ((Sample.lastPoll Sample.wandering).ending
        (after Sample.filesStore (Sample.polls 3 Sample.wandering))).1.ledger Sample.fileScope
          (Sample.hash "file:/c.txt")).map (fun row => (row.status, row.deletionReportedAt)) = some (.copied, none) ∧
      lastKey (listedOver Sample.fileScope Sample.filesStore (Sample.polls 3 Sample.wandering) ++
        (Sample.lastPoll Sample.wandering).listed (after Sample.filesStore (Sample.polls 3 Sample.wandering))) "A" =
          some (Sample.hash "file:/c.txt") := by
  decide +kernel

theorem wrong_row_marked :
    ¬ MarksWhatWent (listedOver Sample.fileScope Sample.filesStore (Sample.polls 3 Sample.wandering))
      (Sample.lastPoll Sample.wandering) (after Sample.filesStore (Sample.polls 3 Sample.wandering)) := by
  intro h
  obtain ⟨hstage, hreported, hrow, hlast⟩ := Sample.wandering_ended
  obtain ⟨row, hlook, hcols⟩ := Option.map_eq_some_iff.mp hrow
  simp only [Prod.mk.injEq] at hcols
  obtain ⟨hstatus, hunmarked⟩ := hcols
  exact h.marks hstage "A" hreported _ hlast row hlook (by rw [hstatus]; rfl) hunmarked

end Sample

end OpenMigrate.Verify
