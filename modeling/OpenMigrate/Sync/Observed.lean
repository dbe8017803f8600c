import OpenMigrate.Sync.Footprint

namespace OpenMigrate

open Async

variable {T : TargetApi} {Item Folder Raw α β : Type}

/-- What the loop hands the writer. -/
structure WriterCall (Item Raw : Type) where
  collectionId : String
  raw : Raw
  item : Item
  options : UpsertOptions

/-- The target `T`, told of each call of its writer before the writer does anything. -/
def TargetApi.observed (T : TargetApi) (Item Raw : Type) : TargetApi where
  State := T.State
  Session := T.Session
  Cmd := T.Cmd ⊕ WriterCall Item Raw
  Resp
    | .inl c => T.Resp c
    | .inr _ => Unit
  Inp := T.Inp
  Act := T.Act
  exec
    | .inl c => T.exec c
    | .inr _ => fun _ s => (.ok (), s)
  act := T.act
  fresh := T.fresh

def Cmd.called (call : WriterCall Item Raw) : Cmd (T.observed Item Raw) :=
  .target (Sum.inr call : T.Cmd ⊕ WriterCall Item Raw)

def Cmd.observed (Item Raw : Type) : Cmd T → Cmd (T.observed Item Raw)
  | .ledger op => .ledger op
  | .target c => .target (Sum.inl c : T.Cmd ⊕ WriterCall Item Raw)
  | .cursorGet key => .cursorGet key
  | .cursorSet key value => .cursorSet key value
  | .modify f => .modify f
  | .vars => .vars

/-- Gives a command to the observed target as it would be given to `T`. -/
def Cmd.relay (Item Raw : Type) : (c : Cmd T) → (Except PassError c.Resp → Task (T.observed Item Raw) α) →
    Task (T.observed Item Raw) α
  | .ledger op, k => .call (.ledger op) k
  | .target c, k => .call (.target (Sum.inl c : T.Cmd ⊕ WriterCall Item Raw)) k
  | .cursorGet key, k => .call (.cursorGet key) k
  | .cursorSet key value, k => .call (.cursorSet key value) k
  | .modify f, k => .call (.modify f) k
  | .vars, k => .call .vars k

def Task.observed (Item Raw : Type) (p : Task T α) : Task (T.observed Item Raw) α := p.hoist (Cmd.relay Item Raw)

/-- Takes the calls out of a program again. -/
def Cmd.unheard : (c : Cmd (T.observed Item Raw)) → (Except PassError c.Resp → Task T α) → Task T α
  | .ledger op, k => .call (.ledger op) k
  | .target (.inl c), k => .call (.target c) k
  | .target (.inr _), k => k (.ok ())
  | .cursorGet key, k => .call (.cursorGet key) k
  | .cursorSet key value, k => .call (.cursorSet key value) k
  | .modify f, k => .call (.modify f) k
  | .vars, k => .call .vars k

def Task.unobserved (p : Task (T.observed Item Raw) α) : Task T α := p.hoist Cmd.unheard

theorem Task.unobserved_observed (p : Task T α) : Task.unobserved (Task.observed Item Raw p) = p := by
  induction p with
  | ret a => rfl
  | fail e => rfl
  | call c k ih =>
    have hk : (fun r => Task.unobserved (Task.observed Item Raw (k r))) = k := funext ih
    cases c <;> exact congrArg _ hk

theorem hears_ledger {T' : TargetApi} {op : LedgerOp} {r : Except PassError op.Resp}
    (h : Cmd.Hears (T := T') (.ledger op) r) : Cmd.Hears (T := T) (.ledger op) r := by
  cases op with
  | find scope key | findBySourceRef scope ref =>
    cases r with
    | error e => trivial
    | ok row => cases row <;> exact h
  | _ => simp [Cmd.Hears]

theorem Task.observed_emits {V : Vocabulary (Cmd T) Cmd.Resp PassError}
    {V' : Vocabulary (Cmd (T.observed Item Raw)) Cmd.Resp PassError}
    (hasks : ∀ c, V.asks c → V'.asks (c.observed Item Raw)) (hV : ∀ c r, c.Hears r → V.hears c r)
    (hV' : ∀ c r, V'.hears c r → c.Hears r) {p : Task T α} {Q : Except PassError α → Prop} (hp : Emits V p Q) :
    Emits V' (Task.observed Item Raw p) Q := by
  induction p with
  | ret a => exact hp
  | fail e => exact hp
  | call c k ih =>
    have hc := hasks c hp.1
    cases c with
    | ledger op => exact ⟨hc, fun r hr => ih r (hp.2 r (hV _ r (hears_ledger (hV' (.ledger op) r hr))))⟩
    | target | cursorGet | cursorSet | modify | vars =>
      refine ⟨hc, fun r _ => ih r (hp.2 r (hV _ _ ?_))⟩
      simp [Cmd.Hears]

/-- A pass whose every call of the writer shows. -/
def DomainSyncDeps.observed (d : DomainSyncDeps T Item Folder Raw) :
    DomainSyncDeps (T.observed Item Raw) Item Folder Raw where
  scope := d.scope
  cursors := d.cursors
  concurrency := d.concurrency
  listFolders := d.listFolders
  listSince := d.listSince
  fetchRaw := d.fetchRaw
  upsert id raw item options :=
    (Prog.perform (Cmd.called ⟨id, raw, item, options⟩)).bind fun _ =>
    Task.observed Item Raw (d.upsert id raw item options)
  sourceVersion := d.sourceVersion
  sourceRef := d.sourceRef
  naturalKey := d.naturalKey
  listCollectionKeys := d.listCollectionKeys
  listDiscardedKeys := d.listDiscardedKeys.map (Task.observed Item Raw)
  naturalKeyFromRaw := d.naturalKeyFromRaw
  contentHash := d.contentHash
  onCollision := d.onCollision
  ensureCollection := d.ensureCollection
  upsert_asks id raw item options := by
    refine Emits.seq ((Emits.perform _ _).mpr ⟨trivial, fun _ _ => trivial⟩) fun _ => ?_
    refine Task.observed_emits ?_ (fun _ _ h => h) (fun _ _ h => h) (d.upsert_asks id raw item options)
    intro c hc
    cases c with
    | ledger op => cases op <;> exact hc
    | _ => exact hc
  listDiscardedKeys_asks := by
    intro p hp
    obtain ⟨scan, hscan, rfl⟩ := Option.map_eq_some_iff.mp hp
    refine Task.observed_emits ?_ (fun _ _ h => h) (fun _ _ h => h) (d.listDiscardedKeys_asks scan hscan)
    intro c hc
    cases c <;> exact hc

theorem unobserved_upsert (d : DomainSyncDeps T Item Folder Raw) (id : String) (raw : Raw) (item : Item)
    (options : UpsertOptions) : Task.unobserved (d.observed.upsert id raw item options) = d.upsert id raw item options :=
  Task.unobserved_observed _

end OpenMigrate
