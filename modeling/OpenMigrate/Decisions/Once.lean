import OpenMigrate.Decisions.Store

namespace OpenMigrate.Decisions

open Async

abbrev World := List Call × List DecisionRow

/-- The row that a call which answers got back. -/
def Call.got (call : Call) : Option DecisionRow :=
  match call.stage with
  | .returned (.ok (.answered decision)) => decision
  | _ => none

def Call.Running (call : Call) : Prop := ∀ reply, call.stage ≠ .returned reply

/-- The row holds the answer that the call gave. -/
def Call.Stored (call : Call) (row : DecisionRow) : Prop :=
  ∃ closing, call.request = .close closing ∧ row.tenantId = closing.tenantId ∧ row.id = closing.decisionId ∧
    row.status = closing.status ∧ row.resolution = closing.resolution ∧ row.resolvedBy = some closing.by_

/-- One call has its answer to the decision stored, and it alone has got the row back. -/
def AnsweredBy (x : World) (id : ℕ) : Prop :=
  ∃! j : ℕ, ∃ call row, x.1[j]? = some call ∧ call.got = some row ∧ row.id = id ∧ row ∈ x.2 ∧ call.Stored row

/-- Between two states the UPDATE of a call that closes this decision has run. -/
def Answers (x y : World) (row : DecisionRow) : Prop :=
  ∃ (j : ℕ) (call call' : Call) (closing : Closing) (reply : Reply), x.1[j]? = some call ∧ call.Running ∧
    call.request = .close closing ∧ closing.isOpen row = true ∧ y.1[j]? = some call' ∧
      call'.stage = .returned (.ok reply)

/-- What a state of a run and a later one show: one open row for a subject, of several answers to an open decision one
that is stored and returned, and nothing closed that changes. -/
structure AnsweredOnce (x y : World) : Prop where
  onePending : OnePending x.2
  got : ∀ call ∈ x.1, ∀ row, call.got = some row → AnsweredBy x row.id
  answered : ∀ row ∈ x.2, row.status = .pending → Answers x y row → row ∉ y.2 ∧ AnsweredBy y row.id
  stays : ∀ row ∈ x.2, row.status = .pending → row ∈ y.2 ∨ AnsweredBy y row.id
  closed : ∀ row ∈ x.2, row.status ≠ .pending → row ∈ y.2

def run (table : DecisionTable) (requests : List Request) (chs : List (ℕ × Turn)) : World :=
  turns step (opening requests, table.rows) chs

/-- A call that raises returns a row that was open after one of its own statements. -/
def RaisesOpen (table : DecisionTable) (requests : List Request) (chs : List (ℕ × Turn)) : Prop :=
  ∀ (j : ℕ) (call : Call) (input : RaiseDecisionInput) (reply : Reply), (run table requests chs).1[j]? = some call →
    call.request = .raise input → call.stage = .returned (.ok reply) →
      ∃ row created k, reply = .raised row created ∧ input.isOpen row = true ∧ chs[k]?.map Prod.fst = some j ∧
        row ∈ (run table requests (chs.take (k + 1))).2

/-- What holds of the table and of the calls after any statements: a call that got a row back has its answer stored
there, and no two calls got the same decision. -/
structure Consistent (x : World) : Prop where
  ids : (x.2.map (·.id)).Nodup
  onePending : OnePending x.2
  stored : ∀ call ∈ x.1, ∀ row, call.got = some row → row ∈ x.2 ∧ call.Stored row
  sole : ∀ (j j' : ℕ) (call call' : Call) (row row' : DecisionRow), x.1[j]? = some call → x.1[j']? = some call' →
    call.got = some row → call'.got = some row' → row.id = row'.id → j = j'

/-- What becomes of a world: what is closed stays as it is, what is open stays open or some call has got it, and a call
whose UPDATE ran in between leaves nothing open behind it. -/
structure Later (x y : World) : Prop where
  closed : ∀ row ∈ x.2, row.status ≠ .pending → row ∈ y.2
  returned : ∀ (j : ℕ) (call : Call) reply, x.1[j]? = some call → call.stage = .returned reply → y.1[j]? = some call
  requests : ∀ (j : ℕ) (call : Call), x.1[j]? = some call →
    ∃ call' : Call, y.1[j]? = some call' ∧ call'.request = call.request
  pending : ∀ row ∈ x.2, row.status = .pending →
    row ∈ y.2 ∨ ∃ call ∈ y.1, ∃ row', call.got = some row' ∧ row'.id = row.id
  answered : ∀ (j : ℕ) (call call' : Call) closing reply, x.1[j]? = some call → call.Running →
    call.request = .close closing → y.1[j]? = some call' → call'.stage = .returned (.ok reply) →
    ∀ row ∈ x.2, closing.isOpen row = true → row ∉ y.2

section Step

variable {rows : List DecisionRow} {call : Call}

/-- What a statement of a call does. -/
inductive Does (rows : List DecisionRow) (call : Call) : List DecisionRow × Call → Prop where
  | ended (reply : Except String Reply) (h : call.stage = .returned reply) : Does rows call (rows, call)
  | goes (input : RaiseDecisionInput) (hrequest : call.request = .raise input) (h : call.Running) (stage : Stage)
    (hstage : stage = .reading ∨ stage = .retrying) : Does rows call (rows, { call with stage := stage })
  | fails (h : call.Running) (e : String) : Does rows call (rows, call.return (.error e))
  | finds (input : RaiseDecisionInput) (hrequest : call.request = .raise input) (h : call.Running) (found : DecisionRow)
    (hfound : found ∈ rows) (hopen : input.isOpen found = true) :
    Does rows call (rows, call.return (.ok (.raised found false)))
  | inserts (input : RaiseDecisionInput) (hrequest : call.request = .raise input) (h : call.Running) (now : Instant)
    (hnew : ∀ row ∈ rows, input.isOpen row = false) :
    Does rows call
      (rows ++ [input.row (freshId rows) now], call.return (.ok (.raised (input.row (freshId rows) now) true)))
  | closes (closing : Closing) (hrequest : call.request = .close closing) (h : call.Running) (now : Instant) :
    Does rows call ((close rows closing now).1, call.return (.ok (.answered (close rows closing now).2)))

theorem running_of_stage {stage : Stage} (hstage : call.stage = stage) (h : ∀ reply, stage ≠ .returned reply) :
    call.Running := by
  intro reply heq
  exact h reply (hstage.symm.trans heq)

theorem step_does (rows : List DecisionRow) (call : Call) (turn : Turn) : Does rows call (step rows call turn) := by
  unfold step
  split
  · rename_i reply hstage
    exact .ended reply hstage
  · rename_i hrunning
    exact .fails hrunning _
  · rename_i input _ hrequest hstage
    have hrunning := running_of_stage hstage (by simp)
    obtain ⟨-, hinsert⟩ | ⟨hnew, hinsert⟩ := insertDecision_cases rows input turn.now
    · rw [hinsert]
      exact .goes input hrequest hrunning _ (.inl rfl)
    · rw [hinsert]
      exact .inserts input hrequest hrunning turn.now hnew
  · rename_i input _ hrequest hstage
    have hrunning := running_of_stage hstage (by simp)
    cases hfind : rows.find? input.isOpen with
    | none => exact .goes input hrequest hrunning _ (.inr rfl)
    | some found =>
      exact .finds input hrequest hrunning found (List.mem_of_find?_eq_some hfind) (List.find?_some hfind)
  · rename_i input _ hrequest hstage
    have hrunning := running_of_stage hstage (by simp)
    obtain ⟨-, hinsert⟩ | ⟨hnew, hinsert⟩ := insertDecision_cases rows input turn.now
    · rw [hinsert]
      exact .fails hrunning _
    · rw [hinsert]
      exact .inserts input hrequest hrunning turn.now hnew
  · rename_i closing _ hrequest hrunning
    exact .closes closing hrequest hrunning turn.now

theorem got_running (h : call.Running) : call.got = none := by
  unfold Call.got
  split
  · rename_i decision hstage
    exact absurd hstage (h _)
  · rfl

theorem Call.Stored.closed {row : DecisionRow} (h : call.Stored row) : row.status ≠ .pending := by
  obtain ⟨closing, -, -, -, hstatus, -⟩ := h
  rw [hstatus]
  exact closing.closes

theorem isOpen_closed {closing : Closing} {row : DecisionRow} (h : row.status ≠ .pending) :
    closing.isOpen row = false := by
  rw [← Bool.not_eq_true, Closing.isOpen_iff]
  exact fun hopen => h hopen.2.2

end Step

section Turn

variable {x y z : World} {j : ℕ} {call call' : Call} {rows : List DecisionRow}

theorem getElem?_set_cases {k : ℕ} {other : Call} (h : (x.1.set j call')[k]? = some other) :
    k = j ∧ other = call' ∨ k ≠ j ∧ x.1[k]? = some other := by
  by_cases hk : j = k
  · subst hk
    have hlt : j < x.1.length := by simpa using (List.getElem?_eq_some_iff.mp h).1
    rw [List.getElem?_set_self hlt] at h
    exact .inl ⟨rfl, (Option.some.inj h).symm⟩
  · rw [List.getElem?_set_ne hk] at h
    exact .inr ⟨Ne.symm hk, h⟩

theorem Consistent.quiet (h : Consistent x) (hj : x.1[j]? = some call) (hids : (rows.map (·.id)).Nodup)
    (hone : OnePending rows) (hkept : ∀ row ∈ x.2, row.status ≠ .pending → row ∈ rows)
    (hgot : call'.got = none ∨ call' = call) : Consistent (x.1.set j call', rows) := by
  have hold : ∀ (k : ℕ) (other : Call) (row : DecisionRow), (x.1.set j call')[k]? = some other →
      other.got = some row → x.1[k]? = some other := by
    intro k other row hother hrow
    obtain ⟨rfl, rfl⟩ | ⟨-, hother⟩ := getElem?_set_cases hother
    · obtain hnone | rfl := hgot
      · rw [hnone] at hrow
        cases hrow
      · exact hj
    · exact hother
  constructor
  · exact hids
  · exact hone
  · intro other hother row hrow
    obtain ⟨k, hk⟩ := List.mem_iff_getElem?.mp hother
    obtain ⟨hmem, hstored⟩ := h.stored other (List.mem_of_getElem? (hold k other row hk hrow)) row hrow
    exact ⟨hkept row hmem hstored.closed, hstored⟩
  · intro k k' other other' row row' hk hk' hrow hrow' hid
    exact h.sole k k' other other' row row' (hold k other row hk hrow) (hold k' other' row' hk' hrow') hrow hrow' hid

theorem closed_mem_close {closing : Closing} {now : Instant} {row : DecisionRow} (hrow : row ∈ rows)
    (hclosed : row.status ≠ .pending) : row ∈ (close rows closing now).1 := mem_close hrow (isOpen_closed hclosed)

theorem Consistent.closes (h : Consistent x) (hj : x.1[j]? = some call) {closing : Closing}
    (hrequest : call.request = .close closing) (now : Instant) :
    Consistent (x.1.set j (call.return (.ok (.answered (close x.2 closing now).2))), (close x.2 closing now).1) := by
  have hids := ids_close h.ids closing now
  have hone := onePending_close h.onePending closing now
  have hkept : ∀ row ∈ x.2, row.status ≠ .pending → row ∈ (close x.2 closing now).1 :=
    fun row hrow hclosed => closed_mem_close hrow hclosed
  cases hfound : (close x.2 closing now).2 with
  | none => exact h.quiet hj hids hone hkept (.inl rfl)
  | some row =>
    obtain ⟨before, hbefore, hopen, rfl⟩ := close_returned hfound
    -- whoever else got a row got one that was closed before
    have hother : ∀ other ∈ x.1, ∀ row, other.got = some row → row.id ≠ before.id := by
      intro other hmem row hrow hid
      obtain ⟨hstored, hanswer⟩ := h.stored other hmem row hrow
      obtain rfl := eq_of_id h.ids hstored hbefore hid
      exact hanswer.closed (Closing.isOpen_iff.mp hopen).2.2
    have hnew : ∀ row, (call.return (.ok (.answered (some (closing.set now before))))).got = some row →
        row = closing.set now before := fun row hrow => (Option.some.inj hrow).symm
    constructor
    · exact hids
    · exact hone
    · intro other hmem row hrow
      obtain ⟨k, hk⟩ := List.mem_iff_getElem?.mp hmem
      obtain ⟨-, rfl⟩ | ⟨-, hk⟩ := getElem?_set_cases hk
      · obtain rfl := hnew row hrow
        obtain ⟨htenant, hid, -⟩ := Closing.isOpen_iff.mp hopen
        exact ⟨set_mem_close hbefore hopen, closing, hrequest, htenant, hid, rfl, rfl, rfl⟩
      · obtain ⟨hstored, hanswer⟩ := h.stored other (List.mem_of_getElem? hk) row hrow
        exact ⟨hkept row hstored hanswer.closed, hanswer⟩
    · intro k k' other other' row row' hk hk' hrow hrow' hid
      obtain ⟨hj, rfl⟩ | ⟨-, hold⟩ := getElem?_set_cases hk
      · obtain ⟨hj', -⟩ | ⟨-, hold'⟩ := getElem?_set_cases hk'
        · exact hj.trans hj'.symm
        · obtain rfl := hnew row hrow
          exact absurd hid.symm (hother other' (List.mem_of_getElem? hold') row' hrow')
      · obtain ⟨-, rfl⟩ | ⟨-, hold'⟩ := getElem?_set_cases hk'
        · obtain rfl := hnew row' hrow'
          exact absurd hid (hother other (List.mem_of_getElem? hold) row hrow)
        · exact h.sole k k' other other' row row' hold hold' hrow hrow' hid

theorem Consistent.does (h : Consistent x) (hj : x.1[j]? = some call) {out : List DecisionRow × Call}
    (hdoes : Does x.2 call out) : Consistent (x.1.set j out.2, out.1) := by
  cases hdoes with
  | ended reply hstage => exact h.quiet hj h.ids h.onePending (fun _ hrow _ => hrow) (.inr rfl)
  | goes input hrequest hrunning stage hstage =>
    apply h.quiet hj h.ids h.onePending (fun _ hrow _ => hrow)
    obtain rfl | rfl := hstage <;> exact .inl rfl
  | fails hrunning e => exact h.quiet hj h.ids h.onePending (fun _ hrow _ => hrow) (.inl rfl)
  | finds input hrequest hrunning found hfound hopen =>
    exact h.quiet hj h.ids h.onePending (fun _ hrow _ => hrow) (.inl rfl)
  | inserts input hrequest hrunning now hnew =>
    exact h.quiet hj (ids_insert h.ids input now) (onePending_insert h.onePending hnew _ now)
      (fun _ hrow _ => List.mem_append_left _ hrow) (.inl rfl)
  | closes closing hrequest hrunning now => exact h.closes hj hrequest now

theorem does_returned {out : List DecisionRow × Call} (hdoes : Does rows call out) {reply : Except String Reply}
    (hreply : call.stage = .returned reply) : out.2 = call := by
  cases hdoes with
  | ended => rfl
  | goes _ _ hrunning | fails hrunning | finds _ _ hrunning | inserts _ _ hrunning | closes _ _ hrunning =>
    exact absurd hreply (hrunning reply)

theorem does_request {out : List DecisionRow × Call} (hdoes : Does rows call out) : out.2.request = call.request := by
  cases hdoes <;> rfl

theorem open_not_mem_close {closing : Closing} {row : DecisionRow} (hopen : closing.isOpen row = true) (now : Instant) :
    row ∉ (close rows closing now).1 := by
  intro hmem
  obtain ⟨before, -, hbefore⟩ := List.mem_map.mp hmem
  by_cases h : closing.isOpen before = true
  · rw [if_pos h] at hbefore
    have hstatus : closing.status = .pending := by
      rw [← (Closing.isOpen_iff.mp hopen).2.2, ← hbefore]
      rfl
    exact closing.closes hstatus
  · rw [if_neg h] at hbefore
    rw [hbefore] at h
    exact h hopen

theorem does_pending (h : Consistent x) (hj : x.1[j]? = some call) {out : List DecisionRow × Call}
    (hdoes : Does x.2 call out) {row : DecisionRow} (hrow : row ∈ x.2) :
    row ∈ out.1 ∨ ∃ call ∈ x.1.set j out.2, ∃ row', call.got = some row' ∧ row'.id = row.id := by
  cases hdoes with
  | ended | goes | fails | finds => exact .inl hrow
  | inserts => exact .inl (List.mem_append_left _ hrow)
  | closes closing hrequest hrunning now =>
    by_cases hopen : closing.isOpen row = true
    · exact .inr ⟨_, mem_set_self hj, closing.set now row, close_found h.ids hrow hopen now, rfl⟩
    · exact .inl (mem_close hrow (by simpa using hopen))

theorem does_closed {out : List DecisionRow × Call} (hdoes : Does rows call out) {row : DecisionRow} (hrow : row ∈ rows)
    (hclosed : row.status ≠ .pending) : row ∈ out.1 := by
  cases hdoes with
  | ended | goes | fails | finds => exact hrow
  | inserts => exact List.mem_append_left _ hrow
  | closes closing hrequest hrunning now => exact closed_mem_close hrow hclosed

theorem does_answered {out : List DecisionRow × Call} (hdoes : Does rows call out) (hrunning : call.Running)
    {closing : Closing} (hrequest : call.request = .close closing) {reply : Reply}
    (hreply : out.2.stage = .returned (.ok reply)) {row : DecisionRow} (hopen : closing.isOpen row = true) :
    row ∉ out.1 := by
  cases hdoes with
  | ended _ hstage => exact absurd hstage (hrunning _)
  | goes _ hraise => exact absurd (hraise.symm.trans hrequest) (by simp)
  | fails => exact absurd hreply (by simp [Call.return])
  | finds _ hraise => exact absurd (hraise.symm.trans hrequest) (by simp)
  | inserts _ hraise => exact absurd (hraise.symm.trans hrequest) (by simp)
  | closes closing' hrequest' _ now =>
    obtain rfl := Request.close.inj (hrequest'.symm.trans hrequest)
    exact open_not_mem_close hopen now

theorem Consistent.later (h : Consistent x) (hj : x.1[j]? = some call) {out : List DecisionRow × Call}
    (hdoes : Does x.2 call out) : Later x (x.1.set j out.2, out.1) := by
  have hlt : j < x.1.length := (List.getElem?_eq_some_iff.mp hj).1
  have hset : (x.1.set j out.2)[j]? = some out.2 := List.getElem?_set_self hlt
  constructor
  · intro row hrow hclosed
    exact does_closed hdoes hrow hclosed
  · intro k other reply hk hreply
    by_cases hkj : j = k
    · subst hkj
      obtain rfl := Option.some.inj (hj.symm.trans hk)
      rw [hset, does_returned hdoes hreply]
    · exact (List.getElem?_set_ne hkj).trans hk
  · intro k other hk
    by_cases hkj : j = k
    · subst hkj
      obtain rfl := Option.some.inj (hj.symm.trans hk)
      exact ⟨out.2, hset, does_request hdoes⟩
    · exact ⟨other, (List.getElem?_set_ne hkj).trans hk, rfl⟩
  · intro row hrow _
    exact does_pending h hj hdoes hrow
  · intro k other other' closing reply hk hrunning hrequest hk' hreply row hrow hopen
    obtain ⟨rfl, rfl⟩ | ⟨-, hsame⟩ := getElem?_set_cases hk'
    · obtain rfl := Option.some.inj (hj.symm.trans hk)
      exact does_answered hdoes hrunning hrequest hreply hopen
    · obtain rfl := Option.some.inj (hsame.symm.trans hk)
      exact absurd hreply (hrunning _)

theorem Later.refl (x : World) : Later x x := by
  refine ⟨fun _ hrow _ => hrow, fun _ _ _ hj _ => hj, fun _ call hj => ⟨call, hj, rfl⟩, fun _ hrow _ => .inl hrow, ?_⟩
  intro j call call' closing reply hj hrunning _ hj' hreply
  obtain rfl := Option.some.inj (hj.symm.trans hj')
  exact absurd hreply (hrunning _)

theorem Consistent.turn (h : Consistent x) (ch : ℕ × Turn) :
    Consistent (turn step x ch) ∧ Later x (turn step x ch) := by
  obtain ⟨-, hsame⟩ | ⟨call, hj, hturn⟩ := turn_cases step x ch
  · rw [hsame]
    exact ⟨h, .refl x⟩
  · rw [hturn]
    have hdoes := step_does x.2 call ch.2
    exact ⟨h.does hj hdoes, h.later hj hdoes⟩

end Turn

section Run

variable {x y z : World}

theorem got_stage {call : Call} {row : DecisionRow} (h : call.got = some row) :
    call.stage = .returned (.ok (.answered (some row))) := by
  unfold Call.got at h
  split at h
  · rename_i decision hstage
    rw [hstage, h]
  · cases h

theorem Later.gone (hxy : Later x y) (hy : Consistent y) (hyz : Later y z) (hz : Consistent z) {row : DecisionRow}
    (hrow : row ∈ x.2) (hpending : row.status = .pending) (hgone : row ∉ y.2) : row ∉ z.2 := by
  obtain hmem | ⟨call, hcall, row', hgot, hid⟩ := hxy.pending row hrow hpending
  · exact absurd hmem hgone
  · obtain ⟨hstored, hanswer⟩ := hy.stored call hcall row' hgot
    intro hmem
    obtain rfl := eq_of_id hz.ids (hyz.closed row' hstored hanswer.closed) hmem hid
    exact hanswer.closed hpending

theorem Later.trans (hxy : Later x y) (hy : Consistent y) (hyz : Later y z) (hz : Consistent z) : Later x z := by
  constructor
  · intro row hrow hclosed
    exact hyz.closed row (hxy.closed row hrow hclosed) hclosed
  · intro j call reply hj hreply
    exact hyz.returned j call reply (hxy.returned j call reply hj hreply) hreply
  · intro j call hj
    obtain ⟨call', hj', hrequest'⟩ := hxy.requests j call hj
    obtain ⟨call'', hj'', hrequest''⟩ := hyz.requests j call' hj'
    exact ⟨call'', hj'', hrequest''.trans hrequest'⟩
  · intro row hrow hpending
    obtain hmem | ⟨call, hcall, row', hgot, hid⟩ := hxy.pending row hrow hpending
    · exact hyz.pending row hmem hpending
    · obtain ⟨j, hj⟩ := List.mem_iff_getElem?.mp hcall
      have hlast := hyz.returned j call _ hj (got_stage hgot)
      exact .inr ⟨call, List.mem_of_getElem? hlast, row', hgot, hid⟩
  · intro j call call'' closing reply hj hrunning hrequest hj'' hreply row hrow hopen
    obtain ⟨-, -, hpending⟩ := Closing.isOpen_iff.mp hopen
    obtain ⟨call', hj', hrequest'⟩ := hxy.requests j call hj
    by_cases hrow' : row ∈ y.2
    · by_cases hrunning' : call'.Running
      · have hrequest'' := hrequest'.trans hrequest
        exact hyz.answered j call' call'' closing reply hj' hrunning' hrequest'' hj'' hreply row hrow' hopen
      · obtain ⟨reply', hreply'⟩ : ∃ reply', call'.stage = .returned reply' := by simpa [Call.Running] using hrunning'
        obtain rfl := Option.some.inj ((hyz.returned j call' reply' hj' hreply').symm.trans hj'')
        exact absurd hrow' (hxy.answered j call call' closing reply hj hrunning hrequest hj' hreply row hrow hopen)
    · exact hxy.gone hy hyz hz hrow hpending hrow'

theorem Consistent.turns (h : Consistent x) (chs : List (ℕ × Turn)) :
    Consistent (turns step x chs) ∧ Later x (turns step x chs) := by
  induction chs generalizing x with
  | nil => exact ⟨h, .refl x⟩
  | cons ch chs ih =>
    obtain ⟨hnext, hlater⟩ := h.turn ch
    obtain ⟨hlast, hlast'⟩ := ih hnext
    exact ⟨hlast, hlater.trans hnext hlast' hlast⟩

theorem consistent_opening (table : DecisionTable) (requests : List Request) :
    Consistent (opening requests, table.rows) := by
  have hnone : ∀ call ∈ opening requests, call.got = none := by
    intro call hcall
    obtain ⟨request, -, rfl⟩ := List.mem_map.mp hcall
    rfl
  constructor
  · exact table.ids
  · exact table.onePending
  · intro call hcall row hgot
    rw [hnone call hcall] at hgot
    cases hgot
  · intro j j' call call' row row' hj _ hgot
    rw [hnone call (List.mem_of_getElem? hj)] at hgot
    cases hgot

theorem Consistent.answeredBy (h : Consistent x) {call : Call} (hcall : call ∈ x.1) {row : DecisionRow}
    (hgot : call.got = some row) : AnsweredBy x row.id := by
  obtain ⟨j, hj⟩ := List.mem_iff_getElem?.mp hcall
  obtain ⟨hmem, hstored⟩ := h.stored call hcall row hgot
  refine ⟨j, ⟨call, row, hj, hgot, rfl, hmem, hstored⟩, ?_⟩
  rintro j' ⟨call', row', hj', hgot', hid, -, -⟩
  exact h.sole j' j call' call row' row hj' hj hgot' hgot hid

theorem Later.answeredOnce (hx : Consistent x) (h : Later x y) (hy : Consistent y) : AnsweredOnce x y := by
  have hgone : ∀ row ∈ x.2, row.status = .pending → row ∈ y.2 ∨ AnsweredBy y row.id := by
    intro row hrow hpending
    refine (h.pending row hrow hpending).imp_right ?_
    rintro ⟨call, hcall, row', hgot, hid⟩
    rw [← hid]
    exact hy.answeredBy hcall hgot
  constructor
  · exact hx.onePending
  · intro call hcall row hgot
    exact hx.answeredBy hcall hgot
  · rintro row hrow hpending ⟨j, call, call', closing, reply, hj, hrunning, hrequest, hopen, hj', hreply⟩
    have hmem := h.answered j call call' closing reply hj hrunning hrequest hj' hreply row hrow hopen
    exact ⟨hmem, (hgone row hrow hpending).resolve_left hmem⟩
  · exact hgone
  · exact h.closed

theorem does_raised {rows : List DecisionRow} {call : Call} {out : List DecisionRow × Call} (hdoes : Does rows call out)
    (hrunning : call.Running) {input : RaiseDecisionInput} (hrequest : call.request = .raise input) {reply : Reply}
    (hreply : out.2.stage = .returned (.ok reply)) :
    ∃ row created, reply = .raised row created ∧ input.isOpen row = true ∧ row ∈ out.1 := by
  have hsame : ∀ input', call.request = .raise input' → input' = input :=
    fun input' h => Request.raise.inj (h.symm.trans hrequest)
  cases hdoes with
  | ended _ hstage => exact absurd hstage (hrunning _)
  | goes _ _ _ stage hstage =>
    change stage = _ at hreply
    obtain rfl | rfl := hstage <;> cases hreply
  | fails => cases hreply
  | finds input' hrequest' _ found hfound hopen =>
    obtain rfl := hsame input' hrequest'
    cases hreply
    exact ⟨found, false, rfl, hopen, hfound⟩
  | inserts input' hrequest' _ now hnew =>
    obtain rfl := hsame input' hrequest'
    cases hreply
    exact ⟨_, true, rfl, input'.row_isOpen _ now, by simp⟩
  | closes _ hrequest' => exact absurd (hrequest'.symm.trans hrequest) (by simp)

theorem turns_request {j : ℕ} {call : Call} (chs : List (ℕ × Turn)) (hj : (turns step x chs).1[j]? = some call) :
    ∃ start : Call, x.1[j]? = some start ∧ start.request = call.request := by
  induction chs generalizing x with
  | nil => exact ⟨call, hj, rfl⟩
  | cons ch chs ih =>
    obtain ⟨next, hnext, hrequest⟩ := ih hj
    obtain ⟨-, hsame⟩ | ⟨first, hch, hturn⟩ := turn_cases step x ch
    · rw [hsame] at hnext
      exact ⟨next, hnext, hrequest⟩
    rw [hturn] at hnext
    obtain ⟨rfl, rfl⟩ | ⟨-, hnext⟩ := getElem?_set_cases hnext
    · exact ⟨first, hch, (does_request (step_does x.2 first ch.2)).symm.trans hrequest⟩
    · exact ⟨next, hnext, hrequest⟩

theorem turns_returned {j : ℕ} {call : Call} {reply : Except String Reply} (hj : x.1[j]? = some call)
    (hreply : call.stage = .returned reply) (chs : List (ℕ × Turn)) : (turns step x chs).1[j]? = some call := by
  induction chs generalizing x with
  | nil => exact hj
  | cons ch chs ih =>
    apply ih
    obtain ⟨-, hsame⟩ | ⟨next, hch, hturn⟩ := turn_cases step x ch
    · rw [hsame]
      exact hj
    rw [hturn]
    by_cases hother : ch.1 = j
    · rw [hother, hj, Option.some.injEq] at hch
      subst hch
      have hlt := (List.getElem?_eq_some_iff.mp hj).1
      rw [hother, does_returned (step_does x.2 call ch.2) hreply, List.getElem?_set_self hlt]
    · exact (List.getElem?_set_ne hother).trans hj

theorem turns_raised {j : ℕ} {call call' : Call} {input : RaiseDecisionInput} {reply : Reply} (hj : x.1[j]? = some call)
    (hrunning : call.Running) (hrequest : call.request = .raise input) (chs : List (ℕ × Turn))
    (hj' : (turns step x chs).1[j]? = some call') (hreply : call'.stage = .returned (.ok reply)) :
    ∃ row created k, reply = .raised row created ∧ input.isOpen row = true ∧ chs[k]?.map Prod.fst = some j ∧
      row ∈ (turns step x (chs.take (k + 1))).2 := by
  induction chs generalizing x call with
  | nil =>
    obtain rfl := Option.some.inj (hj.symm.trans hj')
    exact absurd hreply (hrunning _)
  | cons ch chs ih =>
    have hlater : ∀ {next : Call}, (turn step x ch).1[j]? = some next → next.Running → next.request = .raise input →
        ∃ row created k, reply = .raised row created ∧ input.isOpen row = true ∧
          (ch :: chs)[k]?.map Prod.fst = some j ∧ row ∈ (turns step x ((ch :: chs).take (k + 1))).2 := by
      intro next hnext hrunning' hrequest'
      obtain ⟨row, created, k, hrow⟩ := ih hnext hrunning' hrequest' hj'
      exact ⟨row, created, k + 1, hrow⟩
    obtain ⟨-, hsame⟩ | ⟨next, hch, hturn⟩ := turn_cases step x ch
    · exact hlater (by rw [hsame]; exact hj) hrunning hrequest
    by_cases hother : ch.1 = j
    · rw [hother, hj, Option.some.injEq] at hch
      subst hch
      have hdoes := step_does x.2 call ch.2
      have hlt : j < x.1.length := (List.getElem?_eq_some_iff.mp hj).1
      have hset : (turn step x ch).1[j]? = some (step x.2 call ch.2).2 := by
        rw [hturn, hother]
        exact List.getElem?_set_self hlt
      by_cases hdone : (step x.2 call ch.2).2.Running
      · exact hlater hset hdone ((does_request hdoes).trans hrequest)
      · obtain ⟨reply', hreply'⟩ : ∃ reply', (step x.2 call ch.2).2.stage = .returned reply' := by
          simpa [Call.Running] using hdone
        obtain rfl := Option.some.inj ((turns_returned hset hreply' chs).symm.trans hj')
        obtain ⟨row, created, hraised, hopen, hmem⟩ := does_raised hdoes hrunning hrequest hreply
        refine ⟨row, created, 0, hraised, hopen, congrArg some hother, ?_⟩
        change row ∈ (turn step x ch).2
        rw [hturn]
        exact hmem
    · apply hlater _ hrunning hrequest
      rw [hturn]
      exact (List.getElem?_set_ne hother).trans hj

end Run

/-- In any interleaving of the statements of any calls: at most one row is open about a subject, of several answers to a
decision one is stored and only its caller gets the row, a closed row stays as it is, and a raise returns a row that was
open while it ran, or throws. -/
theorem decisions_answered_once (table : DecisionTable) (requests : List Request) (before after : List (ℕ × Turn)) :
    AnsweredOnce (run table requests before) (run table requests (before ++ after)) ∧
      RaisesOpen table requests before := by
  constructor
  · obtain ⟨hx, -⟩ := (consistent_opening table requests).turns before
    obtain ⟨hy, hlater⟩ := hx.turns after
    rw [← turns_append] at hy hlater
    exact hlater.answeredOnce hx hy
  · intro j call input reply hj hrequest hreply
    obtain ⟨start, hstart, hsame⟩ := turns_request before hj
    obtain ⟨request, -, rfl⟩ := List.mem_map.mp (List.mem_of_getElem? hstart)
    exact turns_raised hstart (by simp [Call.Running]) (hsame.trans hrequest) before hj hreply

end OpenMigrate.Decisions
