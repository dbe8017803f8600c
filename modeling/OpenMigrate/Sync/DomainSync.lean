import OpenMigrate.Sync.Item

namespace OpenMigrate

open Async

variable {T : TargetApi}

structure DomainSyncResult where
  vars : PassVars
  deletions : List ItemDeletion

def newSet (xs : List String) : List String :=
  xs.foldl (fun acc x => if x ∈ acc then acc else acc ++ [x]) []

def seenAnywhere (v : PassVars) : List String := v.seenByCollection.map (·.2)

/-- Turns the server's own removal reports into deletions on the ledger. -/
def resolveReportedRemovals (scope : Scope) (seen : List String) :
    List String → List String → Task T (List ItemDeletion)
  | [], _ => .ret []
  | href :: rest, done =>
    (Task.ledger (.findBySourceRef scope href)).bind fun
      | none => resolveReportedRemovals scope seen rest done
      | some row =>
        if !isOnTarget row.status || seen.contains row.naturalKeyHash || done.contains row.naturalKeyHash then
          resolveReportedRemovals scope seen rest done
        else
          (Task.ledger (.recordReportedDeletion scope row.naturalKeyHash)).bind fun recorded =>
          (resolveReportedRemovals scope seen rest (row.naturalKeyHash :: done)).bind fun out =>
          if !recorded || row.deletionAcknowledgedAt.isSome then .ret out
          else
            .ret (⟨scope.domain, row.naturalKeyHash, row.collection.getD "", row.absentPasses.getD 0, true,
              .reported, none⟩ :: out)

/-- Records the items we copied that are now sitting in the owner's bin. -/
def resolveDiscardedItems (scope : Scope) (seen : List String) : List String → Task T (List ItemDeletion)
  | [] => .ret []
  | key :: rest =>
    if seen.contains key then resolveDiscardedItems scope seen rest
    else
      (Task.ledger (.find scope key)).bind fun
        | none => resolveDiscardedItems scope seen rest
        | some row =>
          if !isOnTarget row.status then resolveDiscardedItems scope seen rest
          else
            (Task.ledger (.recordTrashedDeletion scope key)).bind fun recorded =>
            (resolveDiscardedItems scope seen rest).bind fun out =>
            if !recorded || row.deletionAcknowledgedAt.isSome then .ret out
            else
              .ret (⟨scope.domain, key, row.collection.getD "", row.absentPasses.getD 0, true, .trashed,
                none⟩ :: out)

structure PathKeyedMoves where
  moves : List ItemMove := []
  deletions : List ItemDeletion := []
  drift : ℕ := 0

def PathKeyedMoves.addMove (m : ItemMove) (x : PathKeyedMoves) : PathKeyedMoves :=
  { x with moves := m :: x.moves }

def PathKeyedMoves.addDrift (d : Option ItemDeletion) (x : PathKeyedMoves) : PathKeyedMoves :=
  { x with drift := x.drift + 1, deletions := d.toList ++ x.deletions }

def rememberedMove (scope : Scope) (row : PlacedItem) (dest : String) : ItemMove :=
  ⟨scope.domain, row.naturalKeyHash, row.collection, dest, row.movedToNaturalKeyHash, none, none⟩

/-- The walk over the placed rows; `arrivals` is what is left of the items created this pass. -/
def walkPlaced (scope : Scope) (seen : List (String × String)) :
    List PlacedItem → List CreatedItem → Task T PathKeyedMoves
  | [], _ => .ret {}
  | row :: rest, arrivals =>
    if row.deletionAppliedAt ≠ none then walkPlaced scope seen rest arrivals
    else if seen.contains (row.collection, row.naturalKeyHash) then
      (if row.movedToCollection ≠ none then Task.ledger (.clearMove scope row.naturalKeyHash)
        else .ret ()).bind fun _ =>
      (if row.absentPasses ≠ 0 then Task.ledger (.clearAbsent scope row.naturalKeyHash) else .ret ()).bind
        fun _ =>
      walkPlaced scope seen rest arrivals
    else
      match row.movedToCollection with
      | some dest =>
        (walkPlaced scope seen rest arrivals).bind fun out =>
        .ret (if row.moveAcknowledgedAt.isNone then out.addMove (rememberedMove scope row dest) else out)
      | none =>
        match arrivals.find? (fun c => row.contentHash != "" && c.contentHash == row.contentHash) with
        | some arrival =>
          (Task.ledger (.recordMove scope row.naturalKeyHash arrival.collection
            (some arrival.naturalKeyHash))).bind fun _ =>
          (walkPlaced scope seen rest (arrivals.erase arrival)).bind fun out =>
          .ret (out.addMove ⟨scope.domain, row.naturalKeyHash, row.collection, arrival.collection,
            some arrival.naturalKeyHash, none, none⟩)
        | none =>
          (Task.ledger (.recordAbsent scope row.naturalKeyHash)).bind fun absentPasses =>
          (walkPlaced scope seen rest arrivals).bind fun out =>
          .ret (out.addDrift
            (if DELETION_CONFIRMATIONS ≤ absentPasses ∧ row.deletionAcknowledgedAt = none then
              some ⟨scope.domain, row.naturalKeyHash, row.collection, absentPasses, true, .inferred, none⟩
            else none))

def detectPathKeyedMoves (scope : Scope) (v : PassVars) : Task T PathKeyedMoves :=
  (Task.ledger (.placedItems scope)).bind fun placed =>
  walkPlaced scope v.seenByCollection placed (v.createdThisPass.filter (·.contentHash != ""))

variable {Item Folder Raw : Type} [FolderLike Folder] (d : DomainSyncDeps T Item Folder Raw)

def collectionPath (folder : Folder) : String :=
  ((truthy (FolderLike.path folder)).or (truthy (FolderLike.name folder))).getD "/"

theorem collectionPath_ne (folder : Folder) : collectionPath folder ≠ "" := by
  rw [collectionPath]
  cases hchosen : (truthy (FolderLike.path folder)).or (truthy (FolderLike.name folder)) with
  | none => simp
  | some path =>
    have htruthy : ∀ o : Option String, truthy o = some path → path ≠ "" := by
      intro o ho
      simpa using (Option.filter_eq_some_iff.mp ho).2
    rw [Option.getD_some]
    obtain h | ⟨-, h⟩ := Option.or_eq_some_iff.mp hchosen
    · exact htruthy _ h
    · exact htruthy _ h

def cursorKey (scope : Scope) (folderPath : String) : CursorKey :=
  ⟨scope.tenantId, scope.mappingId, folderPath⟩

def previousCursor (folder : Folder) : Task T (Option String) :=
  if d.cursors then Task.cursorGet (cursorKey d.scope (collectionPath folder)) else .ret none

def enumerateCollection (folder : Folder) (prev : Option String) : Task T Unit :=
  match d.listCollectionKeys with
  | some listCollectionKeys =>
    match listCollectionKeys folder with
    | .ok keys =>
      Task.modify fun v =>
        { v with seenByCollection := v.seenByCollection ++ keys.map (fun k => (collectionPath folder, k)) }
    | .error _ => Task.modify fun v => { v with fullyEnumerated := false }
  | none => if prev ≠ none then Task.modify (fun v => { v with fullyEnumerated := false }) else .ret ()

def place (folder : Folder) (n : ℕ) (collectionId : String) (index : ℕ) : Place :=
  ⟨n, index, collectionId, collectionPath folder⟩

def workers (folder : Folder) (n : ℕ) (collectionId : String) (items : List Item) : List (Task T Unit) :=
  items.zipIdx.map fun e => syncItem d (place folder n collectionId e.2) e.1

def advanceCursor (folder : Folder) (nextCursor : String) : Task T Unit :=
  Task.vars.bind fun v =>
  if d.cursors && !v.failures.any (fun f => !f.needsDecision) then
    Task.cursorSet (cursorKey d.scope (collectionPath folder)) nextCursor
  else .ret ()

def syncFolder (folder : Folder) (n : ℕ) : MainTask T Unit :=
  (Main.lift (Prog.ofExcept (d.ensureCollection folder))).bind fun collectionId =>
  (Main.lift (previousCursor d folder)).bind fun prev =>
  (Main.lift (Prog.ofExcept (d.listSince folder prev))).bind fun listing =>
  (Main.lift (Task.modify fun v =>
    { v with stage := .folder n, reportedRemovals := v.reportedRemovals ++ listing.removed })).bind fun _ =>
  (Main.lift (enumerateCollection d folder prev)).bind fun _ =>
  (Main.mapWithConcurrency d.concurrency (workers d folder n collectionId listing.items)).bind fun _ =>
  Main.lift (advanceCursor d folder listing.nextCursor)

def syncFolders : MainTask T Unit :=
  (Main.lift (Prog.ofExcept d.listFolders)).bind fun folders =>
  Prog.forEach folders.zipIdx fun e => syncFolder d e.1 e.2

def resolveRemovals : Task T Unit :=
  Task.vars.bind fun v =>
  (resolveReportedRemovals d.scope (seenAnywhere v) (newSet v.reportedRemovals) []).bind fun reported =>
  Task.modify fun v => { v with deletions := v.deletions ++ reported, stage := .resolved }

def noteDiscarded (discarded : DiscardedListing) : Task T Unit :=
  (if 0 < discarded.unnameable then
    Task.modify (fun v => { v with unplaceableDiscards := some (discarded.unnameable, truthy discarded.reason) })
  else .ret ()).bind fun _ =>
  Task.vars.bind fun v =>
  (resolveDiscardedItems d.scope (seenAnywhere v) (newSet discarded.keys)).bind fun trashed =>
  Task.modify fun v => { v with deletions := v.deletions ++ trashed }

def readBins : Task T Unit :=
  match d.listDiscardedKeys with
  | none => .ret ()
  | some listDiscardedKeys => listDiscardedKeys.tryWith (fun _ => .ret ()) (noteDiscarded d)

def detectMoves : Task T Unit :=
  Task.vars.bind fun v =>
  if d.scope.domain = .file ∧ v.fullyEnumerated then
    (detectPathKeyedMoves d.scope v).bind fun found =>
    Task.modify fun v =>
      { v with
        moved := v.moved + found.moves.length
        moves := v.moves ++ found.moves
        deletions := v.deletions ++ found.deletions
        drift := v.drift + found.drift }
  else .ret ()

def Evidence.rank : Evidence → ℕ
  | .reported => 3
  | .trashed => 2
  | .inferred => 1

def keepStrongest (held : List ItemDeletion) (x : ItemDeletion) : List ItemDeletion :=
  match held with
  | [] => [x]
  | y :: ys =>
    if y.naturalKeyHash = x.naturalKeyHash then
      { (if y.evidence.rank < x.evidence.rank then x else y) with
        absentPasses := max x.absentPasses y.absentPasses } :: ys
    else y :: keepStrongest ys x

def passResult (v : PassVars) : DomainSyncResult := ⟨v, v.deletions.foldl keepStrongest []⟩

def runDomainSync : MainTask T DomainSyncResult :=
  (syncFolders d).bind fun _ =>
  (Main.lift (resolveRemovals d)).bind fun _ =>
  (Main.lift (readBins d)).bind fun _ =>
  (Main.lift (detectMoves d)).bind fun _ =>
  (Main.lift Task.vars).bind fun v =>
  .ret (passResult v)

end OpenMigrate
