import OpenMigrate.Async.Watch
import OpenMigrate.Sync.Reconcile
import OpenMigrate.Sync.Removal

namespace OpenMigrate

open Async Prog PgLedger

variable {T : TargetApi} {scope : Scope}

section Marking

def statusOf (scope : Scope) (key : String) (L : Ledger) : Option ItemStatus := (row? L scope key).map (·.status)

theorem recordTrashedDeletion_status (L : Ledger) (now : Instant) (key key' : String) :
    statusOf scope key' (exec L now (.recordTrashedDeletion scope key)).2 = statusOf scope key' L := by
  unfold statusOf row?
  cases hr : L.lookup (scope.key key') with
  | none =>
    obtain hnone | ⟨row, hins, -⟩ := exec_lookup_none L now (.recordTrashedDeletion scope key) hr
    · rw [hnone]
    · cases hins
  | some row =>
    obtain ⟨-, hsame⟩ | ⟨-, hset⟩ := exec_lookup_some L now (.recordTrashedDeletion scope key) hr
    · rw [hsame]
    · rw [hset]
      simp only [LedgerOp.sets]
      split
      · rfl
      · by_cases hd : row.domain = scope.domain <;> simp [Option.filter, hd]

/-- While what was found in the bins is resolved: no row comes, goes or changes its status. -/
structure Marking (scope : Scope) (v : PassVars) (ρ : String → Option ItemStatus) (done : List String)
    (w : World T) : Prop where
  vars : w.vars = v
  status : ∀ key, statusOf scope key w.1.ledger = ρ key
  done : ∀ key ∈ done, Signalled .trashed scope key w.1.ledger

def Trashed (scope : Scope) (seen keys : List String) (ρ : String → Option ItemStatus) (L : Ledger) : Prop :=
  ∀ key ∈ keys, ∀ status, ρ key = some status → isOnTarget (some status) = true → key ∉ seen →
    Signalled .trashed scope key L

variable {v : PassVars} {ρ : String → Option ItemStatus}

theorem Marking.owner {done : List String} {s t : World T} (h : Marking scope v ρ done s) (ho : OwnerOnly s t) :
    Marking scope v ρ done t where
  vars := ho.vars.trans h.vars
  status key := by rw [ho.1]; exact h.status key
  done key hkey := by rw [ho.1]; exact h.done key hkey

theorem resolveDiscardedItems_marks (seen keys : List String) {done : List String} {s : World T}
    (hs : Marking scope v ρ done s) :
    wp (callSpec (machine T) (ownerRules T).free) (resolveDiscardedItems scope seen keys)
      (postOk fun t => Marking scope v ρ done t ∧ Trashed scope seen keys ρ t.1.ledger) s := by
  induction keys generalizing done s with
  | nil => exact ⟨hs, by simp [Trashed]⟩
  | cons key rest ih =>
    have hstable : ∀ s t : World T, Marking scope v ρ done s → (ownerRules T).rely s t → Marking scope v ρ done t :=
      fun _ _ h ho => h.owner ho
    -- what the rest leaves is enough when this key needs nothing, or is done already
    have hrest : ∀ t : World T, Marking scope v ρ done t →
        (∀ status, ρ key = some status → isOnTarget (some status) = true → key ∉ seen → key ∈ done) →
        wp (callSpec (machine T) (ownerRules T).free) (resolveDiscardedItems scope seen rest)
          (postOk fun t => Marking scope v ρ done t ∧ Trashed scope seen (key :: rest) ρ t.1.ledger) t := by
      intro t ht hdone
      refine wp_mono (callSpec_mono _ _) _ _ _ ?_ t (ih ht)
      intro r u hu
      cases r with
      | error e => trivial
      | ok out =>
        refine ⟨hu.1, fun k hk status hρ hon hseen => ?_⟩
        obtain rfl | hk := List.mem_cons.mp hk
        · exact hu.1.done k (hdone status hρ hon hseen)
        · exact hu.2 k hk status hρ hon hseen
    unfold resolveDiscardedItems
    split
    · rename_i hseen
      exact hrest s hs fun _ _ _ hunseen => absurd (List.contains_iff_mem.mp hseen) hunseen
    refine wp_seq (free_find hstable hs ?_ fun _ _ _ => trivial)
    intro t ht
    have hρ := ht.status key
    unfold statusOf at hρ
    cases hrow : row? t.1.ledger scope key with
    | none =>
      have hfind : find t.1.ledger scope key = none := by rw [find, hrow]; rfl
      rw [hrow] at hρ
      rw [hfind]
      exact hrest t ht fun status h => by rw [← hρ] at h; cases h
    | some row =>
      have hfind : find t.1.ledger scope key = some (row.mapRowToRecord (scope.key key)) := by rw [find, hrow]; rfl
      rw [hrow, Option.map_some] at hρ
      rw [hfind]
      change wp _ (if _ then _ else _) _ t
      split
      · rename_i hoff
        refine hrest t ht fun status h hon _ => ?_
        rw [← hρ] at h
        cases h
        simp [ItemRow.mapRowToRecord, hon] at hoff
      · refine wp_seq (free_write hstable ht ?_ fun _ _ _ => trivial)
        intro u now hu
        obtain ⟨row', hrow', -⟩ := Option.map_eq_some_iff.mp ((hu.status key).trans hρ.symm)
        have hmark : Signalled .trashed scope key (exec u.1.ledger now (.recordTrashedDeletion scope key)).2 :=
          record_signals hrow' now
        have hafter : Marking scope v ρ (key :: done)
            (u.setLedger (exec u.1.ledger now (.recordTrashedDeletion scope key)).2) := by
          refine ⟨hu.vars, fun k => ?_, fun k hk => ?_⟩
          · exact (recordTrashedDeletion_status u.1.ledger now key k).trans (hu.status k)
          · obtain rfl | hk := List.mem_cons.mp hk
            · exact hmark
            · exact ledger_signalled (hu.done k hk) (by simp [LedgerOp.clears])
        refine wp_seq (wp_mono (callSpec_mono _ _) _ _ _ ?_ _ (ih hafter))
        intro r x hx
        cases r with
        | error e => trivial
        | ok out =>
          have hpost : Marking scope v ρ done x ∧ Trashed scope seen (key :: rest) ρ x.1.ledger := by
            refine ⟨⟨hx.1.vars, hx.1.status, fun k hk => hx.1.done k (List.mem_cons_of_mem _ hk)⟩, ?_⟩
            intro k hk status hρ' hon hseen
            obtain rfl | hk := List.mem_cons.mp hk
            · exact hx.1.done k List.mem_cons_self
            · exact hx.2 k hk status hρ' hon hseen
          change wp _ (if _ then _ else _) _ x
          split <;> exact hpost

end Marking

section Scan

variable (sha256Hex : String → String) (deps : ReconcileDeps T) (source : SourceConnector)

/-- Storing this cursor moves a bin's past a message of the key. -/
def AdvancesPast (key : String) : Cmd T → Input T → World T → Prop
  | .cursorSet ck _, i, w =>
    i.fault = none ∧ w.vars.stage = .resolved ∧ ∃ all bin listing, source.listFolders = .ok all ∧ bin ∈ bins deps all ∧
      ck = scanKey deps bin ∧ source.listSince bin (w.cursor ck) = .ok listing ∧ key ∈ binKeys sha256Hex listing.items
  | _, _, _ => False

/-- A step of the scan at which nothing is thrown. -/
def Untroubled : Cmd T → Input T → World T → Prop
  | .cursorGet ck, i, w =>
    w.vars.stage = .resolved → i.fault = none ∧ ∀ all bin, source.listFolders = .ok all → bin ∈ bins deps all →
      ck = scanKey deps bin → ∃ listing, source.listSince bin (w.cursor ck) = .ok listing
  | .cursorSet .., i, w => w.vars.stage = .resolved → i.fault = none
  | _, _, _ => True

/-- Bins of one path are one bin. -/
def BinsByPath : Prop :=
  ∀ all bin bin', source.listFolders = .ok all → bin ∈ bins deps all → bin' ∈ bins deps all →
    bin.path = bin'.path → bin = bin'

def binWatch : Watch (World T) (String → Prop) (Cmd T) (Input T) T.Act where
  exec past c i w key := past key ∨ AdvancesPast sha256Hex deps source key c i w
  act past _ _ := past

def scanRules : Rules (World T × (String → Prop)) (Cmd T) (Input T) where
  assume c i x := Untroubled deps source c i x.1
  rely x y := OwnerOnly x.1 y.1 ∧ y.2 = x.2
  guar _ _ _ := True
  refl x := ⟨.refl x.1, rfl⟩
  trans h h' := ⟨h.1.trans h'.1, h'.2.trans h.2⟩

variable {sha256Hex deps source}

theorem scanKey_path {bin bin' : MailFolder} (h : scanKey deps bin = scanKey deps bin') : bin.path = bin'.path :=
  (String.append_right_inj _).mp (congrArg CursorKey.folderPath h)

theorem scanBins_wp {all : List MailFolder} (hall : source.listFolders = .ok all) (hpath : BinsByPath deps source)
    (hcursors : deps.cursors = true) (xs : List MailFolder) (hxs : ∀ bin ∈ xs, bin ∈ bins deps all)
    {x : World T × (String → Prop)} (hstage : x.1.vars.stage = .resolved) :
    wp (callSpec ((binWatch sha256Hex deps source).machine (machine T)) (scanRules deps source))
      (scanBins sha256Hex deps source xs)
      (fun r y => ∃ keys, r = .ok keys ∧ ∀ key, y.2 key → x.2 key ∨ key ∈ keys) x := by
  induction xs generalizing x with
  | nil => exact ⟨[], rfl, fun key h => .inl h⟩
  | cons bin rest ih =>
    have hbin := hxs bin List.mem_cons_self
    simp only [scanBins, hcursors, if_true]
    refine wp_seq ((wp_perform _ _ _ _).mpr fun y hy i hi => ⟨trivial, ?_⟩)
    have hstage' : y.1.vars.stage = .resolved := by
      rw [hy.1.vars]
      exact hstage
    obtain ⟨hfault, hlisted⟩ := hi hstage'
    obtain ⟨listing, hlisting⟩ := hlisted all bin hall hbin rfl
    have hget : ((binWatch sha256Hex deps source).machine (machine T)).exec (.cursorGet (scanKey deps bin)) i y =
        (.ok (y.1.cursor (scanKey deps bin)),
          (y.1, (binWatch sha256Hex deps source).exec y.2 (.cursorGet (scanKey deps bin)) i y.1)) := by
      simp [Watch.machine, machine, World.exec, World.query, hfault]
    rw [hget]
    refine wp_seq ((wp_ofExcept _ _ _ _).mpr ?_)
    rw [hlisting]
    refine wp_seq ((wp_perform _ _ _ _).mpr fun z hz i' hi' => ⟨trivial, ?_⟩)
    have hstage'' : z.1.vars.stage = .resolved := by
      rw [hz.1.vars]
      exact hstage'
    have hset : ((binWatch sha256Hex deps source).machine (machine T)).exec
        (.cursorSet (scanKey deps bin) listing.nextCursor) i' z =
        (.ok (), (({ z.1.1 with cursors := z.1.1.cursors.insert (scanKey deps bin) listing.nextCursor }, z.1.2),
          (binWatch sha256Hex deps source).exec z.2 (.cursorSet (scanKey deps bin) listing.nextCursor) i' z.1)) := by
      simp [Watch.machine, machine, World.exec, World.query, hi' hstage'']
    rw [hset]
    refine wp_seq (wp_mono (callSpec_mono _ _) _ _ _ ?_ _
      (ih (fun b hb => hxs b (List.mem_cons_of_mem _ hb)) hstage''))
    rintro r u ⟨keys, rfl, hkeys⟩
    refine ⟨_, rfl, fun key hkey => ?_⟩
    obtain (hpast | ⟨-, -, all', bin', listing', hall', hbin', hkey', hlisting', hmem⟩) | hrest := hkeys key hkey
    · -- noted before this bin's cursor moved
      rw [hz.2] at hpast
      obtain hpast | hget := hpast
      · rw [hy.2] at hpast
        exact .inl hpast
      · exact hget.elim
    · rw [hall] at hall'
      cases hall'
      obtain rfl := hpath all bin bin' hall hbin hbin' (scanKey_path hkey')
      rw [hz.1.cursor] at hlisting'
      rw [hlisting] at hlisting'
      cases hlisting'
      exact .inr (List.mem_append_left _ hmem)
    · exact .inr (List.mem_append_right _ hrest)

theorem scanBins_silent (hcursors : deps.cursors = false) (xs : List MailFolder) :
    Emits (⟨fun _ => False, fun _ _ => True⟩ : Vocabulary (Cmd T) Cmd.Resp PassError)
      (scanBins sha256Hex deps source xs) (fun _ => True) := by
  induction xs with
  | nil => trivial
  | cons bin rest ih =>
    simp only [scanBins, hcursors, Bool.false_eq_true, if_false]
    refine Emits.seq trivial fun prev => Emits.seq ((Emits.ofExcept _ _).mpr trivial) fun listing => ?_
    exact Emits.seq trivial fun _ => ih.seq fun keys => trivial

theorem listDiscardedKeys_wp (hpath : BinsByPath deps source) {x : World T × (String → Prop)}
    (hstage : x.1.vars.stage = .resolved) (hx : ∀ key, ¬ x.2 key) :
    wp (callSpec ((binWatch sha256Hex deps source).machine (machine T)) (scanRules deps source))
      (listDiscardedKeys sha256Hex deps source)
      (fun r y => (∀ key, ¬ y.2 key) ∨ ∃ discarded, r = .ok discarded ∧ ∀ key, y.2 key → key ∈ discarded.keys) x := by
  refine wp_seq ((wp_ofExcept _ _ _ _).mpr ?_)
  cases hall : source.listFolders with
  | error e => exact .inl hx
  | ok all =>
  cases hcursors : deps.cursors with
  | true =>
    refine wp_seq (wp_mono (callSpec_mono _ _) _ _ _ ?_ x
      (scanBins_wp hall hpath hcursors (bins deps all) (fun _ h => h) hstage))
    rintro r y ⟨keys, rfl, hkeys⟩
    exact .inr ⟨_, rfl, fun key hkey => (hkeys key hkey).resolve_left (hx key)⟩
  | false =>
    refine wp_seq (wp_mono (callSpec_mono _ _) _ _ _ ?_ x
      (Emits.wp_of_keeps (fun y => ∀ key, ¬ y.2 key) (fun y z h ho => ?_) ?_ (scanBins_silent hcursors _) hx))
    · rintro r y ⟨-, hy⟩
      cases r <;> exact .inl hy
    · rw [ho.2]
      exact h
    · rintro c i y ⟨⟩

end Scan

section Passes

variable {sha256Hex : String → String} {contentHash : List Char → String} {deps : ReconcileDeps T}
  {source : SourceConnector}

/-- Every key noted is that of a row that is off the target, or was listed, or carries the mark. -/
def Binned (scope : Scope) (x : World T × (String → Prop)) : Prop :=
  ∀ key, x.2 key → key ∉ seenAnywhere x.1.vars → ∀ status, statusOf scope key x.1.1.ledger = some status →
    isOnTarget (some status) = true → Signalled .trashed scope key x.1.1.ledger

theorem Binned.rely {x y : World T × (String → Prop)} (h : Binned scope x) (ho : (scanRules deps source).rely x y) :
    Binned scope y := by
  intro key hkey hseen status hstatus hon
  rw [ho.2] at hkey
  rw [ho.1.vars] at hseen
  rw [ho.1.1] at hstatus ⊢
  exact h key hkey hseen status hstatus hon

theorem Binned.vars {x : World T × (String → Prop)} (h : Binned scope x) (i : Input T) :
    Binned scope (((binWatch sha256Hex deps source).machine (machine T)).exec .vars i x).2 := by
  rintro key (hkey | hkey)
  · exact h key hkey
  · exact hkey.elim

variable {Item Folder Raw : Type} {d : DomainSyncDeps T Item Folder Raw}

theorem noteDiscarded_marks (discarded : DiscardedListing) (s : World T) :
    wp (callSpec (machine T) (ownerRules T).free) (noteDiscarded d discarded)
      (postOk fun t => Trashed d.scope (seenAnywhere t.vars) discarded.keys
        (fun key => statusOf d.scope key t.1.ledger) t.1.ledger) s := by
  have hany : ∀ s t : World T, True → (ownerRules T).rely s t → True := fun _ _ _ _ => trivial
  have hresolve : ∀ t : World T, wp (callSpec (machine T) (ownerRules T).free)
      (Task.vars.bind fun v =>
        (resolveDiscardedItems d.scope (seenAnywhere v) (newSet discarded.keys)).bind fun trashed =>
        Task.modify fun v => { v with deletions := v.deletions ++ trashed })
      (postOk fun t => Trashed d.scope (seenAnywhere t.vars) discarded.keys
        (fun key => statusOf d.scope key t.1.ledger) t.1.ledger) t := by
    intro t
    refine wp_seq (free_vars hany trivial fun u _ => ?_)
    have hstart : Marking d.scope u.vars (fun key => statusOf d.scope key u.1.ledger) [] u :=
      ⟨rfl, fun _ => rfl, by simp⟩
    refine wp_seq (wp_mono (callSpec_mono _ _) _ _ _ ?_ u (resolveDiscardedItems_marks _ _ hstart))
    intro r x hx
    cases r with
    | error e => trivial
    | ok trashed =>
      obtain ⟨hmarking, htrashed⟩ := hx
      intro y hy i _
      refine ⟨trivial, ?_⟩
      have hy' := hmarking.owner hy
      intro key hkey status hstatus hon hseen
      change statusOf d.scope key y.1.ledger = some status at hstatus
      change key ∉ seenAnywhere y.vars at hseen
      rw [hy'.status key] at hstatus
      rw [hy'.vars] at hseen
      rw [← hy.1] at htrashed
      exact htrashed key ((mem_newSet _ _).mpr hkey) status hstatus hon hseen
  refine wp_seq ?_
  split
  · exact free_modify hany trivial fun t _ => hresolve _
  · exact hresolve s

theorem end_notes {c : Cmd T} (hc : (endVocabulary d False fun _ => True).asks c) {i : Input T}
    {x : World T × (String → Prop)} {key : String}
    (h : (((binWatch sha256Hex deps source).machine (machine T)).exec c i x).2.2 key) : x.2 key := by
  obtain h | h := h
  · exact h
  · cases c with
    | cursorSet ck value => exact hc.1.elim
    | _ => exact h.elim

theorem readBins_binned (hpath : BinsByPath deps source) {x : World T × (String → Prop)}
    (hstage : x.1.vars.stage = .resolved) (hx : ∀ key, ¬ x.2 key) :
    wp (callSpec ((binWatch sha256Hex deps source).machine (machine T)) (scanRules deps source))
      (readBins (shadowPass sha256Hex contentHash deps source))
      (postOk (Binned (shadowPass sha256Hex contentHash deps source).scope)) x := by
  refine wp_try (wp_mono (callSpec_mono _ _) _ _ _ ?_ x (listDiscardedKeys_wp hpath hstage hx))
  intro r y hy
  cases r with
  | error e =>
    obtain hnone | ⟨discarded, hok, -⟩ := hy
    · exact fun key hkey => absurd hkey (hnone key)
    · cases hok
  | ok discarded =>
    have hkeys : ∀ key, y.2 key → key ∈ discarded.keys := by
      intro key hkey
      obtain hnone | ⟨discarded', hok, hkeys⟩ := hy
      · exact absurd hkey (hnone key)
      · cases hok
        exact hkeys key hkey
    have hmarks := Watch.wp_forget (W := binWatch sha256Hex deps source) (Γ := scanRules deps source) (fun _ _ _ _ => trivial)
      (fun _ _ h => h.1) (fun _ _ _ _ => trivial)
      (noteDiscarded_marks (d := shadowPass sha256Hex contentHash deps source) discarded y.1)
    have hemits : Emits (endVocabulary (shadowPass sha256Hex contentHash deps source) False fun _ => True)
        (noteDiscarded (shadowPass sha256Hex contentHash deps source) discarded) (fun _ => True) :=
      noteDiscarded_emits discarded
    have hnoted : wp (callSpec ((binWatch sha256Hex deps source).machine (machine T)) (scanRules deps source))
        (noteDiscarded (shadowPass sha256Hex contentHash deps source) discarded)
        (fun _ z => True ∧ ∀ key, z.2 key → key ∈ discarded.keys) y := by
      refine Emits.wp_of_keeps (fun z : World T × (String → Prop) => ∀ key, z.2 key → key ∈ discarded.keys)
        (fun z u h ho => ?_) (fun c i z hc _ hz => ?_) hemits hkeys
      · rw [ho.2]
        exact h
      · exact ⟨exec_hears i z.1 c, trivial, fun key hkey => hz key (end_notes hc hkey)⟩
    refine wp_mono (callSpec_mono _ _) _ _ _ ?_ y (wp_and _ hmarks hnoted)
    rintro r z ⟨hz, -, hin⟩
    cases r with
    | error e => trivial
    | ok _ => exact fun key hkey hseen status hstatus hon => hz key (hin key hkey) status hstatus hon hseen

def Unscanned (x : World T × (String → Prop)) : Prop := x.1.vars.stage ≠ .resolved ∧ ∀ key, ¬ x.2 key

/-- What is asked before the bins are read: nothing that would take the pass as far as that. -/
def earlyVocabulary (T : TargetApi) : Vocabulary (Cmd T) Cmd.Resp PassError where
  asks
    | .modify f => ∀ v, (f v).stage = .resolved → v.stage = .resolved
    | _ => True
  hears := Cmd.Hears

theorem early_unscanned {c : Cmd T} (hc : (earlyVocabulary T).asks c) {i : Input T} {x : World T × (String → Prop)}
    (hx : Unscanned x) : Unscanned (((binWatch sha256Hex deps source).machine (machine T)).exec c i x).2 := by
  constructor
  · obtain ⟨f, rfl⟩ | hvars := exec_vars i x.1 c
    · exact fun h => hx.1 (hc _ h)
    · intro h
      change (x.1.exec i c).2.vars.stage = .resolved at h
      rw [hvars] at h
      exact hx.1 h
  · rintro key (hkey | hkey)
    · exact hx.2 key hkey
    · cases c with
      | cursorSet ck value => exact hx.1 hkey.2.1
      | _ => exact hkey

theorem early_hosts {Item Folder Raw : Type} [FolderLike Folder] (d : DomainSyncDeps T Item Folder Raw) :
    FolderHosts d (earlyVocabulary T) where
  cursorGet _ := trivial
  cursorSet _ _ _ _ := trivial
  modify _ hf v hv := (hf v).stage hv
  vars := trivial
  worker at_ item _ := by
    refine (syncItem_emits (recordsUnder_any d item)).weaken ?_ fun _ _ h => h
    intro c hc
    cases c with
    | modify f =>
      intro v hv
      rwa [← (hc v).stage]
    | ledger | target | vars => trivial
    | cursorGet | cursorSet => exact hc.elim

theorem resolveRemovals_unscanned {d : DomainSyncDeps T MailItem MailFolder (List Char)} {x : World T × (String → Prop)}
    (hx : ∀ key, ¬ x.2 key) :
    wp (callSpec ((binWatch sha256Hex deps source).machine (machine T)) (scanRules deps source)) (resolveRemovals d)
      (postOk fun y => y.1.vars.stage = .resolved ∧ ∀ key, ¬ y.2 key) x := by
  refine wp_seq ((wp_perform _ _ _ _).mpr fun y hy i _ => ⟨trivial, ?_⟩)
  have hy' : ∀ key, ¬ y.2 key := by
    rw [hy.2]
    exact hx
  have hemits : Emits (endVocabulary d False fun _ => True)
      (resolveReportedRemovals d.scope (seenAnywhere y.1.vars) (newSet y.1.vars.reportedRemovals) []) (fun _ => True) :=
    resolveReportedRemovals_emits _ _ _
  have hnone : ∀ key, ¬ (((binWatch sha256Hex deps source).machine (machine T)).exec .vars i y).2.2 key := by
    rintro key (hkey | hkey)
    · exact hy' key hkey
    · exact hkey
  refine wp_seq (wp_mono (callSpec_mono _ _) _ _ _ ?_ _
    (Emits.wp_of_keeps (fun z => ∀ key, ¬ z.2 key) (fun z u h ho => ?_) (fun c i z hc _ hz => ?_) hemits hnone))
  · rintro r z ⟨-, hz⟩
    cases r with
    | error e => trivial
    | ok reported =>
      intro u hu i' _
      refine ⟨trivial, rfl, ?_⟩
      rintro key (hkey | hkey)
      · rw [hu.2] at hkey
        exact hz key hkey
      · exact hkey
  · rw [ho.2]
    exact h
  · exact ⟨exec_hears i z.1 c, trivial, fun key hkey => hz key (end_notes hc hkey)⟩

theorem runDomainSync_binned (hpath : BinsByPath deps source) (store : Store T) :
    wp (mainSpec ((binWatch sha256Hex deps source).machine (machine T)) (scanRules deps source))
      (runDomainSync (shadowPass sha256Hex contentHash deps source))
      (postOk (Binned (shadowPass sha256Hex contentHash deps source).scope))
      ((store, PassState.fresh T), fun _ => False) := by
  have hfresh : Unscanned (((store, PassState.fresh T), fun _ => False) : World T × (String → Prop)) :=
    ⟨by simp [World.vars, PassState.fresh], fun _ h => h⟩
  refine wp_seq (wp_mono (mainSpec_mono _ _) _ _ _ ?_ _
    (MainEmits.wp_of_keeps Unscanned (fun x y h ho => ?_)
      (fun c i x hc _ hx => ⟨exec_hears i x.1 c, trivial, early_unscanned hc hx⟩)
      (early_hosts (shadowPass sha256Hex contentHash deps source)).syncFolders hfresh))
  · rintro r x ⟨-, hx⟩
    cases r with
    | error e => trivial
    | ok _ =>
    refine wp_seq ((wp_lift _ _ _ _).mpr (wp_mono (callSpec_mono _ _) _ _ _ ?_ x (resolveRemovals_unscanned hx.2)))
    intro r y hy
    cases r with
    | error e => trivial
    | ok _ =>
    refine wp_seq ((wp_lift _ _ _ _).mpr (wp_mono (callSpec_mono _ _) _ _ _ ?_ y (readBins_binned hpath hy.1 hy.2)))
    intro r z hz
    cases r with
    | error e => trivial
    | ok _ =>
    -- what is left reads the variables and changes nothing
    refine wp_seq ((wp_lift _ _ _ _).mpr (wp_seq ((wp_perform _ _ _ _).mpr fun u hu i _ => ⟨trivial, ?_⟩)))
    have hu' : Binned (shadowPass sha256Hex contentHash deps source).scope
        (((binWatch sha256Hex deps source).machine (machine T)).exec .vars i u).2 := (Binned.rely hz hu).vars i
    change wp _ (if _ then _ else _) _ _
    rw [if_neg (by simp [shadowPass])]
    refine wp_seq ((wp_lift _ _ _ _).mpr ((wp_perform _ _ _ _).mpr fun t ht i' _ => ⟨trivial, ?_⟩))
    exact (hu'.rely ht).vars i'
  · refine ⟨?_, ?_⟩
    · rw [ho.1.vars]
      exact h.1
    · rw [ho.2]
      exact h.2

theorem after_past {evs : List (Event (World T) (Cmd T) (Input T) T.Act)} {past : String → Prop} {key : String}
    (h : past key ∨ ∃ th c i w, Event.exec th c i w ∈ evs ∧ AdvancesPast sha256Hex deps source key c i w) :
    (binWatch sha256Hex deps source).after past evs key := by
  induction evs generalizing past with
  | nil => exact h.resolve_right (by simp)
  | cons ev evs ih =>
    refine ih ?_
    obtain hpast | ⟨th, c, i, w, hmem, hadvances⟩ := h
    · cases ev with
      | act a w => exact .inl hpast
      | exec th c i w => exact .inl (.inl hpast)
    · obtain rfl | hmem := List.mem_cons.mp hmem
      · exact .inl (.inr hadvances)
      · exact .inr ⟨th, c, i, w, hmem, hadvances⟩

structure MailPass (T : TargetApi) where
  deps : ReconcileDeps T
  source : SourceConnector
  choices : List (Choice (Input T) T.Act)

namespace MailPass

variable (sha256Hex : String → String) (contentHash : List Char → String) (p : MailPass T) (store : Store T)

def pass : Pass T MailItem MailFolder (List Char) where
  deps := shadowPass sha256Hex contentHash p.deps p.source
  choices := p.choices

/-- The pass moved the cursor of one of the bins past a message of the key. -/
def AdvancedPast (key : String) : Prop :=
  ∃ th c i w, Event.exec th c i w ∈ (p.pass sha256Hex contentHash).trace store ∧
    OpenMigrate.AdvancesPast sha256Hex p.deps p.source key c i w

/-- The pass reads the bins without an exception and comes to its end. -/
structure ReadsBins : Prop where
  untroubled : ∀ th c i w, Event.exec th c i w ∈ (p.pass sha256Hex contentHash).trace store →
    Untroubled p.deps p.source c i w
  ends : ∃ result, ((machine T).run ((p.pass sha256Hex contentHash).start store) p.choices).1 = .seq (.ret result)

variable {sha256Hex contentHash p store}

theorem ReadsBins.binned (h : p.ReadsBins sha256Hex contentHash store) (hpath : BinsByPath p.deps p.source) :
    Binned (shadowPass sha256Hex contentHash p.deps p.source).scope
      ((p.pass sha256Hex contentHash).ending store, (binWatch sha256Hex p.deps p.source).after (fun _ => False)
        ((p.pass sha256Hex contentHash).trace store)) := by
  have hstart : Conf.Good ((binWatch sha256Hex p.deps p.source).machine (machine T)) (scanRules p.deps p.source)
      (postOk (Binned (shadowPass sha256Hex contentHash p.deps p.source).scope))
      (.seq (runDomainSync (shadowPass sha256Hex contentHash p.deps p.source)),
        ((store, PassState.fresh T), fun _ => False)) := runDomainSync_binned hpath store
  have hgood : Conf.Good ((binWatch sha256Hex p.deps p.source).machine (machine T)) (scanRules p.deps p.source)
      (postOk (Binned (shadowPass sha256Hex contentHash p.deps p.source).scope))
      (((machine T).run ((p.pass sha256Hex contentHash).start store) p.choices).1,
        ((p.pass sha256Hex contentHash).ending store, (binWatch sha256Hex p.deps p.source).after (fun _ => False)
          ((p.pass sha256Hex contentHash).trace store))) := by
    refine Watch.good_run hstart (fun r y z hr ho => ?_) (fun a y => ⟨OwnerOnly.act a y.1, rfl⟩)
      fun th c i y hev => h.untroubled th c i y.1 hev
    cases r with
    | error e => trivial
    | ok _ => exact Binned.rely hr ho
  obtain ⟨result, hend⟩ := h.ends
  rw [hend] at hgood
  exact hgood

end MailPass

/-- From any store: what a pass found in a bin of an item on the target stays on its row until the item is
listed again, as long as the pass reads all the bins, comes to its end and has not listed the item itself. -/
theorem bin_signal_kept (p : MailPass T) (later : List (Pass T MailItem MailFolder (List Char))) (store : Store T)
    (hpath : BinsByPath p.deps p.source) (hreads : p.ReadsBins sha256Hex contentHash store) {key : String}
    (hadvanced : p.AdvancedPast sha256Hex contentHash store key) {row : ItemRow}
    (hrow : row? ((p.pass sha256Hex contentHash).ending store).1.ledger ⟨p.deps.tenantId, p.deps.mappingId, .email⟩ key =
      some row) (hon : isOnTarget (some row.status) = true)
    (hfresh : key ∉ seenAnywhere ((p.pass sha256Hex contentHash).ending store).vars)
    (hunlisted : EachPass (fun q s => key ∉ seenAnywhere (q.ending s).vars) later
      ((p.pass sha256Hex contentHash).ending store).1) :
    Signalled .trashed ⟨p.deps.tenantId, p.deps.mappingId, .email⟩ key
      (afterPasses (p.pass sha256Hex contentHash :: later) store).ledger := by
  have hsig := hreads.binned hpath key (after_past (.inr hadvanced)) hfresh row.status
    (congrArg (Option.map ItemRow.status) hrow) hon
  have hkept := passes_signalled hunlisted hsig
  exact hkept

end Passes

section Sample

open Dav

/-- SHA-256, on the text that the concrete passes hash. -/
def midDigest : String → String
  | "mid:1@x" => "bf074ab6ccea04e6f64a23f02fb45615798487404e9c5f14047683d479179706"
  | s => Sample.sha256Hex s

def letter : MailItem where
  messageId := "<1@x>"
  sourceRef := "INBOX:1"

def letterKey : String := midDigest "mid:1@x"

def binAt (path : String) : MailFolder where
  path := path
  specialUse := .trash

/-- An inbox and two bins: the first holds `binned` up to a position, the second is empty or cannot be listed. -/
def mailbox (live binned : List MailItem) (position : String) (second : Except PassError Unit) : SourceConnector where
  listFolders := .ok [inbox, binAt "Trash", binAt "Deleted"]
  listSince folder cursor :=
    if folder.path = "Trash" then .ok ⟨if cursor = some position then [] else binned, position, []⟩
    else if folder.path = "Deleted" then second.map fun _ => ⟨[], "1", []⟩
    else .ok ⟨live, "1", []⟩
  fetch _ := .ok "Message-ID: <1@x>\r\n\r\nx".toList

def readMail (source : SourceConnector) : MailPass (api Sample.endpoint) :=
  ⟨mailDeps, source, List.replicate 30 (.run 0 Sample.input)⟩

def MailPass.sample (p : MailPass (api Sample.endpoint)) : Pass (api Sample.endpoint) MailItem MailFolder (List Char) :=
  p.pass midDigest Sample.contentHash

def copiedLetter : Store (api Sample.endpoint) :=
  ((readMail (mailbox [letter] [] "1" (.ok ()))).sample.ending Sample.store).1

def binnedLetter (second : Except PassError Unit) : MailPass (api Sample.endpoint) :=
  readMail (mailbox [] [letter] "2" second)

def broken : Except PassError Unit := .error (.error "connection reset")

theorem mailbox_byPath (live binned : List MailItem) (position : String) (second : Except PassError Unit) :
    BinsByPath mailDeps (mailbox live binned position second) := by
  rintro all bin bin' ⟨⟩ hbin hbin' hpath
  have hbins : bins mailDeps [inbox, binAt "Trash", binAt "Deleted"] = [binAt "Trash", binAt "Deleted"] := by decide
  rw [hbins] at hbin hbin'
  simp only [List.mem_cons, List.not_mem_nil, or_false] at hbin hbin'
  obtain rfl | rfl := hbin <;> obtain rfl | rfl := hbin'
  · rfl
  · revert hpath
    decide
  · revert hpath
    decide
  · rfl

theorem readMail_untroubled (live binned : List MailItem) (position : String) (store : Store (api Sample.endpoint))
    {th : Option ℕ} {c : Cmd (api Sample.endpoint)} {i : Input (api Sample.endpoint)} {w : World (api Sample.endpoint)}
    (hev : Event.exec th c i w ∈ (readMail (mailbox live binned position (.ok ()))).sample.trace store) :
    Untroubled mailDeps (mailbox live binned position (.ok ())) c i w := by
  obtain ⟨j, hj⟩ := (machine (api Sample.endpoint)).trace_input hev
  have hi : i = Sample.input := by
    have hch := List.eq_of_mem_replicate hj
    cases hch
    rfl
  subst hi
  cases c with
  | cursorSet ck value => exact fun _ => rfl
  | cursorGet ck =>
    refine fun _ => ⟨rfl, fun all bin _ _ _ => ?_⟩
    simp only [mailbox]
    split
    · exact ⟨_, rfl⟩
    · split
      · exact ⟨_, rfl⟩
      · exact ⟨_, rfl⟩
  | _ => trivial

def scanOf : Event (World T) (Cmd T) (Input T) T.Act → Option (CursorKey × Option String × Stage × Bool)
  | .exec _ (.cursorSet key _) i w => some (key, w.cursor key, w.vars.stage, i.fault.isNone)
  | _ => none

theorem binnedLetter_advances {second : Except PassError Unit}
    (h : (scanKey mailDeps (binAt "Trash"), some "1", .resolved, true) ∈
      ((binnedLetter second).sample.trace copiedLetter).filterMap scanOf) :
    (binnedLetter second).AdvancedPast midDigest Sample.contentHash copiedLetter letterKey := by
  obtain ⟨ev, hev, hf⟩ := List.mem_filterMap.mp h
  unfold scanOf at hf
  split at hf
  · rename_i th key value i w
    simp only [Option.some.injEq, Prod.mk.injEq, Option.isNone_iff_eq_none] at hf
    obtain ⟨hkey, hcursor, hstage, hfault⟩ := hf
    have hbin : binAt "Trash" ∈ bins mailDeps [inbox, binAt "Trash", binAt "Deleted"] := by decide
    refine ⟨th, _, i, w, hev, hfault, hstage, _, binAt "Trash", ⟨[letter], "2", []⟩, rfl, hbin, hkey, ?_, ?_⟩
    · rw [hcursor]
      rfl
    · exact List.mem_singleton.mpr rfl
  · cases hf

def comesToItsEnd : Conf C R E α → Bool
  | .seq (.ret _) => true
  | _ => false

theorem comesToItsEnd_ret {conf : Conf C R E α} (h : comesToItsEnd conf = true) : ∃ a, conf = .seq (.ret a) := by
  unfold comesToItsEnd at h
  split at h
  · exact ⟨_, rfl⟩
  · cases h

theorem binnedLetter_unmarked {L : Ledger}
    (h : (L.lookup ⟨"t", "m", letterKey⟩).map (·.deletionTrashedAt) = some none) :
    ¬ Signalled .trashed ⟨"t", "m", .email⟩ letterKey L := by
  rintro ⟨row, hrow, hmark⟩
  obtain ⟨hlook, -⟩ := (row?_eq_some L).mp hrow
  have hnone : some row.deletionTrashedAt = some none := by
    rw [← h]
    exact (congrArg (Option.map ItemRow.deletionTrashedAt) hlook).symm
  exact hmark (Option.some.inj hnone)

/-- Both bins can be read. -/
theorem bin_signal_kept_letter :
    Signalled .trashed ⟨"t", "m", .email⟩ letterKey
      (afterPasses [(binnedLetter (.ok ())).sample, (binnedLetter (.ok ())).sample] copiedLetter).ledger := by
  have hstatus : statusOf ⟨"t", "m", .email⟩ letterKey ((binnedLetter (.ok ())).sample.ending copiedLetter).1.ledger =
      some .copied := by decide +kernel
  obtain ⟨row, hrow, hcopied⟩ := Option.map_eq_some_iff.mp hstatus
  have hreads : (binnedLetter (.ok ())).ReadsBins midDigest Sample.contentHash copiedLetter :=
    ⟨fun th c i w hev => readMail_untroubled _ _ _ _ hev, comesToItsEnd_ret (by decide +kernel)⟩
  exact bin_signal_kept (binnedLetter (.ok ())) [(binnedLetter (.ok ())).sample] copiedLetter (mailbox_byPath _ _ _ _)
    hreads (binnedLetter_advances (by decide +kernel)) hrow (by rw [hcopied]; rfl) (by decide +kernel)
    ⟨by decide +kernel, trivial⟩

/-- The second bin cannot be listed: the cursor of the first has moved past the letter, whose mark is not set
then, nor by the next pass, which reads both. -/
theorem bin_signal_lost :
    (binnedLetter broken).AdvancedPast midDigest Sample.contentHash copiedLetter letterKey ∧
      statusOf ⟨"t", "m", .email⟩ letterKey ((binnedLetter broken).sample.ending copiedLetter).1.ledger = some .copied ∧
      EachPass (fun q s => letterKey ∉ seenAnywhere (q.ending s).vars)
        [(binnedLetter broken).sample, (binnedLetter (.ok ())).sample] copiedLetter ∧
      ¬ Signalled .trashed ⟨"t", "m", .email⟩ letterKey (afterPasses [(binnedLetter broken).sample] copiedLetter).ledger ∧
      ¬ Signalled .trashed ⟨"t", "m", .email⟩ letterKey
        (afterPasses [(binnedLetter broken).sample, (binnedLetter (.ok ())).sample] copiedLetter).ledger :=
  ⟨binnedLetter_advances (by decide +kernel), by decide +kernel, ⟨by decide +kernel, by decide +kernel, trivial⟩,
    binnedLetter_unmarked (by decide +kernel), binnedLetter_unmarked (by decide +kernel)⟩

end Sample

end OpenMigrate
