import Mathlib.Logic.Function.Basic
import Mathlib.Data.List.Basic
import Mathlib.Tactic.Common

namespace OpenMigrate.Sessions

universe u v w x

section Source

variable {Conn : Type u} {Part : Type v} {Val : Part → Type w} {L : Type x}

/-- A database in parts, each with its own kind of content. -/
abbrev Data (Val : Part → Type w) := ∀ part, Val part

/-- A connection has no transaction, one with what it has written so far, or one that an error has spoilt. -/
inductive Session (Val : Part → Type w)
  | idle
  | opened (written : List (Sigma Val))
  | aborted

structure World (Conn : Type u) (Val : Part → Type w) where
  committed : Data Val
  sessions : Conn → Session Val

/-- A statement that writes one part, from what its session sees; the client goes on with what it learns. -/
structure Write (Val : Part → Type w) (L : Type x) where
  part : Part
  value : L → Data Val → Val part
  learns : L → Data Val → L

inductive Statement (Val : Part → Type w) (L : Type x)
  | begin
  | write (what : Write Val L)
  | commit
  | rollback

/-- What comes of a statement that is sent: it runs, it raises, or the process is gone before. -/
inductive Outcome
  | runs
  | raises
  | dies
  deriving DecidableEq

variable [DecidableEq Part] [DecidableEq Conn]

def overlay (written : List (Sigma Val)) (data : Data Val) : Data Val :=
  written.foldl (fun data value => Function.update data value.1 value.2) data

def World.view (world : World Conn Val) (conn : Conn) : Data Val :=
  match world.sessions conn with
  | .opened written => overlay written world.committed
  | _ => world.committed

def World.set (world : World Conn Val) (conn : Conn) (session : Session Val) : World Conn Val :=
  { world with sessions := Function.update world.sessions conn session }

/-- An error spoils the transaction of the session, if it has one. -/
def World.spoil (world : World Conn Val) (conn : Conn) : World Conn Val :=
  match world.sessions conn with
  | .opened _ => world.set conn .aborted
  | _ => world

/-- A statement on a connection; in a spoilt transaction all but its end raise. -/
def World.exec (world : World Conn Val) (conn : Conn) (known : L) : Statement Val L → Option (World Conn Val × L)
  | .begin =>
    match world.sessions conn with
    | .idle => some (world.set conn (.opened []), known)
    | .opened _ => some (world, known)
    | .aborted => none
  | .write what =>
    let view := world.view conn
    match world.sessions conn with
    | .idle =>
      some ({ world with committed := Function.update world.committed what.part (what.value known view) }, what.learns known view)
    | .opened written =>
      some (world.set conn (.opened (written ++ [⟨what.part, what.value known view⟩])), what.learns known view)
    | .aborted => none
  | .commit =>
    match world.sessions conn with
    | .opened written => some ({ world.set conn .idle with committed := overlay written world.committed }, known)
    | _ => some (world.set conn .idle, known)
  | .rollback => some (world.set conn .idle, known)

/-- How a run of statements ends: at its end, with the statement of some place in it raising, or with the process. -/
inductive Ending
  | completed
  | raised (place : ℕ)
  | died

/-- Statements in their order, each on the connection it is given; the first that raises ends the run. -/
def World.runFrom (conn : ℕ → Conn) (outcome : ℕ → Outcome) :
    ℕ → List (Statement Val L) → World Conn Val → L → World Conn Val × L × Ending
  | _, [], world, known => (world, known, .completed)
  | i, statement :: rest, world, known =>
    match outcome i with
    | .dies => (world, known, .died)
    | .raises => (world.spoil (conn i), known, .raised i)
    | .runs =>
      match world.exec (conn i) known statement with
      | some next => runFrom conn outcome (i + 1) rest next.1 next.2
      | none => (world.spoil (conn i), known, .raised i)

end Source

section Parts

variable {Conn : Type u} {Part : Type v} {Val : Part → Type w} {L : Type x} [DecidableEq Part]
  {written : List (Sigma Val)} {data : Data Val} {part : Part}

theorem overlay_append (written : List (Sigma Val)) (value : Sigma Val) (data : Data Val) :
    overlay (written ++ [value]) data = Function.update (overlay written data) value.1 value.2 := by
  rw [overlay, List.foldl_append]
  rfl

theorem overlay_other (hwritten : ∀ value ∈ written, value.1 ≠ part) (data : Data Val) : overlay written data part = data part := by
  induction written generalizing data with
  | nil => rfl
  | cons value later ih =>
    have hlater := ih (fun value hvalue => hwritten value (List.mem_cons_of_mem _ hvalue)) (Function.update data value.1 value.2)
    exact hlater.trans (Function.update_of_ne (hwritten value List.mem_cons_self).symm _ _)

theorem overlay_congr {data' : Data Val} (h : data part = data' part) (written : List (Sigma Val)) :
    overlay written data part = overlay written data' part := by
  induction written generalizing data data' with
  | nil => exact h
  | cons value later ih =>
    apply ih
    dsimp only
    by_cases hpart : part = value.1
    · subst hpart
      rw [Function.update_self, Function.update_self]
    · rw [Function.update_of_ne hpart, Function.update_of_ne hpart, h]

end Parts

section Spoilt

variable {Conn : Type u} {Part : Type v} {Val : Part → Type w} [DecidableEq Conn]

theorem spoil_committed (world : World Conn Val) (conn : Conn) : (world.spoil conn).committed = world.committed := by
  rw [World.spoil]
  split <;> rfl

end Spoilt

section Runs

variable {Conn : Type u} {Part : Type v} {Val : Part → Type w} {L : Type x} [DecidableEq Part] [DecidableEq Conn]
  {outcome : ℕ → Outcome} {world : World Conn Val} {known : L} {holder : Conn} {written : List (Sigma Val)}

/-- One connection has a transaction, the others have none. -/
structure Held (holder : Conn) (written : List (Sigma Val)) (world : World Conn Val) : Prop where
  opened : world.sessions holder = .opened written
  idle : ∀ conn, conn ≠ holder → world.sessions conn = .idle

theorem Held.exec_here (h : Held holder written world) (s : Write Val L) (known : L) : ∃ next,
    world.exec holder known (.write s) = some (next, s.learns known (overlay written world.committed)) ∧
      Held holder (written ++ [⟨s.part, s.value known (overlay written world.committed)⟩]) next ∧
      next.committed = world.committed := by
  have hview : world.view holder = overlay written world.committed := by
    rw [World.view, h.opened]
  refine ⟨world.set holder (.opened (written ++ [⟨s.part, s.value known (overlay written world.committed)⟩])), ?_, ⟨?_, ?_⟩, rfl⟩
  · rw [World.exec, h.opened, hview]
  · exact Function.update_self ..
  · intro conn hconn
    exact (Function.update_of_ne hconn ..).trans (h.idle conn hconn)

theorem Held.exec_there (h : Held holder written world) {conn : Conn} (hconn : conn ≠ holder) (s : Write Val L) (known : L) :
    ∃ next, world.exec conn known (.write s) = some (next, s.learns known world.committed) ∧ Held holder written next ∧
      next.committed = Function.update world.committed s.part (s.value known world.committed) := by
  have hview : world.view conn = world.committed := by
    rw [World.view, h.idle conn hconn]
  refine ⟨{ world with committed := Function.update world.committed s.part (s.value known world.committed) }, ?_,
    ⟨h.opened, h.idle⟩, rfl⟩
  rw [World.exec, h.idle conn hconn, hview]

/-- All statements from a place on, so many and one more, run. -/
def AllRun (outcome : ℕ → Outcome) (first count : ℕ) : Prop := ∀ k, k ≤ count → outcome (first + k) = .runs

theorem allRun_succ {first count : ℕ} : AllRun outcome first (count + 1) ↔ outcome first = .runs ∧ AllRun outcome (first + 1) count := by
  constructor
  · intro h
    refine ⟨h 0 (Nat.zero_le _), ?_⟩
    intro k hk
    have hnext := h (k + 1) (by omega)
    rwa [show first + (k + 1) = first + 1 + k by omega] at hnext
  · rintro ⟨hfirst, hlater⟩ k hk
    cases k with
    | zero => exact hfirst
    | succ k =>
      rw [show first + (k + 1) = first + 1 + k by omega]
      exact hlater k (by omega)

theorem allRun_zero {first : ℕ} : AllRun outcome first 0 ↔ outcome first = .runs := by
  constructor
  · intro h
    exact h 0 (Nat.le_refl 0)
  · intro h k hk
    obtain rfl : k = 0 := by omega
    exact h

/-- A part that the rest of a transaction does not write: what the transaction holds of it is committed with the COMMIT. -/
theorem Held.run_rest {part : Part} (h : Held holder written world) (conn : ℕ → Conn) (outcome : ℕ → Outcome) (known : L) (first : ℕ) (rest : List (Write Val L))
    (hrest : ∀ s ∈ rest, s.part ≠ part) :
    (AllRun outcome first rest.length ∧ conn (first + rest.length) = holder →
      (World.runFrom conn outcome first (rest.map .write ++ [.commit]) world known).1.committed part =
        overlay written world.committed part) ∧
    (¬ (AllRun outcome first rest.length ∧ conn (first + rest.length) = holder) →
      (World.runFrom conn outcome first (rest.map .write ++ [.commit]) world known).1.committed part = world.committed part) := by
  induction rest generalizing first world known written with
  | nil =>
    rw [List.map_nil, List.nil_append, List.length_nil, Nat.add_zero, allRun_zero, World.runFrom]
    cases houtcome : outcome first with
    | dies => exact ⟨fun hrun => (nomatch hrun.1), fun _ => rfl⟩
    | raises => exact ⟨fun hrun => (nomatch hrun.1), fun _ => congrFun (spoil_committed world _) part⟩
    | runs =>
      dsimp only
      by_cases hconn : conn first = holder
      · rw [hconn, World.exec, h.opened]
        exact ⟨fun _ => rfl, fun hnot => absurd ⟨rfl, rfl⟩ hnot⟩
      · rw [World.exec, h.idle _ hconn]
        exact ⟨fun hrun => absurd hrun.2 hconn, fun _ => rfl⟩
  | cons s rest ih =>
    have hpart := hrest s List.mem_cons_self
    have hlater : ∀ s ∈ rest, s.part ≠ part := fun s hs => hrest s (List.mem_cons_of_mem _ hs)
    have hplace : first + (rest.length + 1) = first + 1 + rest.length := by omega
    rw [List.map_cons, List.cons_append, List.length_cons, allRun_succ, hplace, World.runFrom]
    cases houtcome : outcome first with
    | dies => exact ⟨fun hrun => (nomatch hrun.1.1), fun _ => rfl⟩
    | raises => exact ⟨fun hrun => (nomatch hrun.1.1), fun _ => congrFun (spoil_committed world _) part⟩
    | runs =>
      dsimp only
      by_cases hconn : conn first = holder
      · obtain ⟨next, hexec, hheld, hcommitted⟩ := h.exec_here s known
        have hsame : ∀ value, overlay (written ++ [⟨s.part, value⟩]) world.committed part = overlay written world.committed part := by
          intro value
          rw [overlay_append]
          exact Function.update_of_ne (Ne.symm hpart) ..
        obtain ⟨hall, hnot⟩ := ih hheld (s.learns known (overlay written world.committed)) (first + 1) hlater
        rw [hcommitted, hsame] at hall
        rw [hcommitted] at hnot
        rw [hconn, hexec]
        exact ⟨fun hrun => hall ⟨hrun.1.2, hrun.2⟩, fun hrun => hnot fun hboth => hrun ⟨⟨rfl, hboth.1⟩, hboth.2⟩⟩
      · obtain ⟨next, hexec, hheld, hcommitted⟩ := h.exec_there hconn s known
        have hpartSame : next.committed part = world.committed part := by
          rw [hcommitted]
          exact Function.update_of_ne (Ne.symm hpart) ..
        obtain ⟨hall, hnot⟩ := ih hheld (s.learns known world.committed) (first + 1) hlater
        rw [overlay_congr hpartSame] at hall
        rw [hpartSame] at hnot
        rw [hexec]
        exact ⟨fun hrun => hall ⟨hrun.1.2, hrun.2⟩, fun hrun => hnot fun hboth => hrun ⟨⟨rfl, hboth.1⟩, hboth.2⟩⟩

/-- The write at a place of a run takes effect: it runs, on another connection than the transaction's, or on that one and
so does a COMMIT that the run reaches. -/
def TakesEffect (conn : ℕ → Conn) (outcome : ℕ → Outcome) (holder : Conn) (first place last : ℕ) : Prop :=
  AllRun outcome first place ∧
    (conn (first + place) ≠ holder ∨ AllRun outcome first last ∧ conn (first + last) = holder)

/-- What a part that is written once comes to. -/
structure Written (s : Write Val L) (before after : Val s.part) (effect : Prop) : Prop where
  done : effect → ∃ known view, view s.part = before ∧ after = s.value known view
  kept : ¬ effect → after = before

theorem Held.run_write (h : Held holder written world) (conn : ℕ → Conn) (outcome : ℕ → Outcome) (known : L) (first : ℕ) (earlier : List (Write Val L)) (s : Write Val L)
    (later : List (Write Val L)) (hearlier : ∀ r ∈ earlier, r.part ≠ s.part) (hlater : ∀ r ∈ later, r.part ≠ s.part)
    (hwritten : ∀ value ∈ written, value.1 ≠ s.part) :
    Written s (world.committed s.part)
      ((World.runFrom conn outcome first ((earlier ++ s :: later).map .write ++ [.commit]) world known).1.committed s.part)
      (TakesEffect conn outcome holder first earlier.length (earlier.length + 1 + later.length)) := by
  induction earlier generalizing first world known written with
  | nil =>
    have hplace : first + (0 + 1 + later.length) = first + 1 + later.length := by omega
    rw [List.nil_append, List.map_cons, List.cons_append, List.length_nil, TakesEffect, hplace, Nat.add_zero, allRun_zero,
      Nat.zero_add, Nat.add_comm 1, allRun_succ, World.runFrom]
    cases houtcome : outcome first with
    | dies => exact ⟨fun hrun => (nomatch hrun.1), fun _ => rfl⟩
    | raises => exact ⟨fun hrun => (nomatch hrun.1), fun _ => congrFun (spoil_committed world _) s.part⟩
    | runs =>
      dsimp only
      by_cases hconn : conn first = holder
      · obtain ⟨next, hexec, hheld, hcommitted⟩ := h.exec_here s known
        obtain ⟨hall, hnot⟩ := hheld.run_rest conn outcome
          (s.learns known (overlay written world.committed)) (first + 1) later hlater
        rw [overlay_append, Function.update_self] at hall
        rw [hcommitted] at hnot
        rw [hconn, hexec]
        constructor
        · rintro ⟨-, hother | ⟨⟨-, hlast⟩, hcommit⟩⟩
          · exact absurd rfl hother
          · exact ⟨known, _, overlay_other hwritten world.committed, hall ⟨hlast, hcommit⟩⟩
        · intro hno
          exact hnot fun hboth => hno ⟨rfl, .inr ⟨⟨rfl, hboth.1⟩, hboth.2⟩⟩
      · obtain ⟨next, hexec, hheld, hcommitted⟩ := h.exec_there hconn s known
        obtain ⟨hall, hnot⟩ := hheld.run_rest conn outcome (s.learns known world.committed) (first + 1) later hlater
        have hvalue : next.committed s.part = s.value known world.committed := by
          rw [hcommitted]
          exact Function.update_self ..
        rw [overlay_other hwritten, hvalue] at hall
        rw [hvalue] at hnot
        rw [hexec]
        refine ⟨fun _ => ⟨known, world.committed, rfl, ?_⟩, fun hno => absurd ⟨rfl, .inl hconn⟩ hno⟩
        by_cases hlast : AllRun outcome (first + 1) later.length ∧ conn (first + 1 + later.length) = holder
        · exact hall hlast
        · exact hnot hlast
  | cons r earlier ih =>
    have hpart := hearlier r List.mem_cons_self
    have hrest : ∀ r ∈ earlier, r.part ≠ s.part := fun r hr => hearlier r (List.mem_cons_of_mem _ hr)
    have heffect : TakesEffect conn outcome holder first (earlier.length + 1) (earlier.length + 1 + 1 + later.length) ↔
        outcome first = .runs ∧ TakesEffect conn outcome holder (first + 1) earlier.length (earlier.length + 1 + later.length) := by
      have hplace : first + (earlier.length + 1) = first + 1 + earlier.length := by omega
      have hlast : first + (earlier.length + 1 + 1 + later.length) = first + 1 + (earlier.length + 1 + later.length) := by omega
      have hcount : earlier.length + 1 + 1 + later.length = earlier.length + 1 + later.length + 1 := by omega
      rw [TakesEffect, TakesEffect, hplace, hlast, allRun_succ, hcount, allRun_succ]
      tauto
    rw [List.cons_append, List.map_cons, List.cons_append, List.length_cons, World.runFrom]
    cases houtcome : outcome first with
    | dies => exact ⟨fun hrun => (nomatch houtcome.symm.trans (heffect.mp hrun).1), fun _ => rfl⟩
    | raises =>
      exact ⟨fun hrun => (nomatch houtcome.symm.trans (heffect.mp hrun).1), fun _ => congrFun (spoil_committed world _) s.part⟩
    | runs =>
      dsimp only
      by_cases hconn : conn first = holder
      · obtain ⟨next, hexec, hheld, hcommitted⟩ := h.exec_here r known
        have hwritten' : ∀ value ∈ written ++ [⟨r.part, r.value known (overlay written world.committed)⟩], value.1 ≠ s.part := by
          intro value hvalue
          rcases List.mem_append.mp hvalue with hvalue | hvalue
          · exact hwritten value hvalue
          · obtain rfl := List.mem_singleton.mp hvalue
            exact hpart
        have hrun := ih hheld (r.learns known (overlay written world.committed)) (first + 1) hrest hwritten'
        rw [hcommitted] at hrun
        rw [hconn, hexec]
        exact ⟨fun heff => hrun.done (heffect.mp heff).2, fun hno => hrun.kept fun heff => hno (heffect.mpr ⟨houtcome, heff⟩)⟩
      · obtain ⟨next, hexec, hheld, hcommitted⟩ := h.exec_there hconn r known
        have hrun := ih hheld (r.learns known world.committed) (first + 1) hrest hwritten
        have hsame : next.committed s.part = world.committed s.part := by
          rw [hcommitted]
          exact Function.update_of_ne (Ne.symm hpart) ..
        rw [hsame] at hrun
        rw [hexec]
        exact ⟨fun heff => hrun.done (heffect.mp heff).2, fun hno => hrun.kept fun heff => hno (heffect.mpr ⟨houtcome, heff⟩)⟩

/-- A transaction as a client sends it: BEGIN, its writes, COMMIT. -/
def transaction (writes : List (Write Val L)) : List (Statement Val L) := .begin :: (writes.map .write ++ [.commit])

/-- What a transaction leaves of a part that one of its writes is about, when its statements may run on any connection. -/
theorem transaction_write (hidle : ∀ conn, world.sessions conn = .idle) (conn : ℕ → Conn) (outcome : ℕ → Outcome) (known : L)
    (earlier : List (Write Val L)) (s : Write Val L) (later : List (Write Val L)) (hearlier : ∀ r ∈ earlier, r.part ≠ s.part)
    (hlater : ∀ r ∈ later, r.part ≠ s.part) :
    Written s (world.committed s.part)
      ((World.runFrom conn outcome 0 (transaction (earlier ++ s :: later)) world known).1.committed s.part)
      (outcome 0 = .runs ∧ TakesEffect conn outcome (conn 0) 1 earlier.length (earlier.length + 1 + later.length)) := by
  rw [transaction, World.runFrom]
  cases houtcome : outcome 0 with
  | dies => exact ⟨fun heff => (nomatch heff.1), fun _ => rfl⟩
  | raises => exact ⟨fun heff => (nomatch heff.1), fun _ => congrFun (spoil_committed world _) s.part⟩
  | runs =>
    have hheld : Held (conn 0) [] (world.set (conn 0) (.opened [])) := by
      refine ⟨Function.update_self .., ?_⟩
      intro other hother
      exact (Function.update_of_ne hother ..).trans (hidle other)
    dsimp only
    rw [World.exec, hidle]
    have hrun := hheld.run_write conn outcome known 1 earlier s later hearlier hlater nofun
    exact ⟨fun heff => hrun.done heff.2, fun hno => hrun.kept fun heff => hno ⟨rfl, heff⟩⟩

end Runs

end OpenMigrate.Sessions
