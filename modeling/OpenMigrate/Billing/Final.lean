import OpenMigrate.Billing.Routes

namespace OpenMigrate.Billing

open Async

/-- What a paid or void invoice settles: its status, its amounts, its payment and the payment's date. -/
structure Settlement where
  id : String
  status : InvoiceStatus
  subtotal : ℤ
  taxRate : ℚ
  taxAmount : ℤ
  total : ℤ
  currency : String
  paymentId : Option ℕ
  paidAt : Option Instant
  deriving DecidableEq

def Invoice.settlement (invoice : Invoice) : Settlement where
  id := invoice.id
  status := invoice.status
  subtotal := invoice.subtotal
  taxRate := invoice.taxRate
  taxAmount := invoice.taxAmount
  total := invoice.total
  currency := invoice.currency
  paymentId := invoice.paymentId
  paidAt := invoice.paidAt

/-- An invoice that was paid or void is still the same. -/
def KeepsFinal (db db' : BillingDb) : Prop :=
  ∀ invoice ∈ db.invoice, invoice.status.final = true →
    ∃ invoice' ∈ db'.invoice, invoice'.settlement = invoice.settlement

/-- The two updates that do not look at the status they replace: the pay route's meets no paid or void invoice, and the
webhook's meets none but one that has the status and payment date it writes. -/
def sparesFinal (db : BillingDb) (r : Route) (i : BillingTurn) : Bool :=
  match r with
  | .pay ⟨invoiceId, .created _⟩ =>
    i.fault.isSome || (selectInvoice db invoiceId).all fun invoice => !invoice.status.final
  | .webhook ⟨_, .matched payment nextStatus⟩ =>
    i.fault.isSome || (selectInvoice db payment.invoiceId).all fun invoice =>
      !invoice.status.final || nextStatus == invoice.status &&
        invoice.paidAt == if nextStatus = .paid then some (payment.paidAt.getD i.now) else none
  | _ => true

section Steps

variable {db db' : BillingDb} {i : BillingTurn} {r : Route}

theorem keepsFinal_refl (db : BillingDb) : KeepsFinal db db := fun invoice h _ => ⟨invoice, h, rfl⟩

theorem keepsFinal_trans (a b c : BillingDb) (hab : KeepsFinal a b) (hbc : KeepsFinal b c) : KeepsFinal a c := by
  intro invoice h hfinal
  obtain ⟨invoice', h', hsame'⟩ := hab invoice h hfinal
  have hstatus : invoice'.status = invoice.status := congrArg Settlement.status hsame'
  obtain ⟨invoice'', h'', hsame''⟩ := hbc invoice' h' (by rwa [hstatus])
  exact ⟨invoice'', h'', hsame''.trans hsame'⟩

theorem keepsFinal_of_invoice (h : db'.invoice = db.invoice) : KeepsFinal db db' := by
  intro invoice hmem _
  exact ⟨invoice, h ▸ hmem, rfl⟩

theorem generate_keepsFinal (db : BillingDb) (g : Generation) (i : BillingTurn) :
    KeepsFinal db (generateInvoiceForPeriod db g i).1 := by
  have hupsert : ∀ cost, KeepsFinal db (upsertInvoice db g i cost).1 := by
    intro cost invoice hmem hfinal
    rw [Option.mem_def] at hmem
    unfold upsertInvoice
    simp only [hmem, hfinal, if_true]
    exact ⟨invoice, rfl, rfl⟩
  unfold generateInvoiceForPeriod
  split
  all_goals first
    | exact keepsFinal_refl db
    | exact hupsert _
    | (split
       all_goals first
        | exact keepsFinal_refl db
        | (split <;> exact keepsFinal_refl db))

theorem update_keepsFinal_iff (invoiceId : String) (set : Invoice → Invoice) :
    KeepsFinal db (updateInvoice db invoiceId set) ↔
      ∀ invoice ∈ selectInvoice db invoiceId, invoice.status.final = true →
        (set invoice).settlement = invoice.settlement := by
  unfold KeepsFinal updateInvoice selectInvoice
  cases db.invoice with
  | none => simp
  | some invoice =>
    by_cases hid : invoice.id = invoiceId
    · simp [hid]
    · simp [hid]

theorem pay_keepsFinal_iff (db : BillingDb) (p : PayRequest) (i : BillingTurn) :
    KeepsFinal db (payInvoice db p i).1 ↔ sparesFinal db (.pay p) i = true := by
  obtain ⟨invoiceId, state⟩ := p
  unfold payInvoice
  cases state with
  | start =>
    apply iff_of_true _ rfl
    apply keepsFinal_of_invoice
    cases i.fault with
    | some reason => rfl
    | none =>
      dsimp only
      split <;> rfl
  | found invoice =>
    apply iff_of_true _ rfl
    apply keepsFinal_of_invoice
    cases i.fault <;> rfl
  | created payment =>
    unfold sparesFinal
    cases i.fault with
    | some reason => exact iff_of_true (keepsFinal_refl db) rfl
    | none =>
      dsimp only
      rw [update_keepsFinal_iff]
      have hchanged : ∀ invoice : Invoice, invoice.status.final = true →
          (sentInvoice i payment invoice).settlement ≠ invoice.settlement := by
        intro invoice hfinal hsame
        have hstatus : InvoiceStatus.sent = invoice.status := congrArg Settlement.status hsame
        rw [← hstatus] at hfinal
        cases hfinal
      constructor
      · intro h
        simp only [Option.isSome_none, Bool.false_or, Option.all_eq_true, Bool.not_eq_true']
        intro invoice hmem
        by_contra hfinal
        rw [Bool.not_eq_false] at hfinal
        exact hchanged invoice hfinal (h invoice hmem hfinal)
      · intro h invoice hmem hfinal
        simp only [Option.isSome_none, Bool.false_or, Option.all_eq_true, Bool.not_eq_true'] at h
        rw [h invoice hmem] at hfinal
        cases hfinal
  | done status => exact iff_of_true (keepsFinal_refl db) rfl

theorem settled_same_iff (payment : Payment) (nextStatus : InvoiceStatus) (invoice : Invoice) :
    (settledInvoice i payment nextStatus invoice).settlement = invoice.settlement ↔
      nextStatus = invoice.status ∧
        invoice.paidAt = if nextStatus = .paid then some (payment.paidAt.getD i.now) else none := by
  simp [settledInvoice, Invoice.settlement, eq_comm]

theorem webhook_keepsFinal_iff (db : BillingDb) (w : Webhook) (i : BillingTurn) :
    KeepsFinal db (processWebhook db w i).1 ↔ sparesFinal db (.webhook w) i = true := by
  obtain ⟨paymentId, state⟩ := w
  unfold processWebhook
  cases state with
  | start =>
    apply iff_of_true _ rfl
    apply keepsFinal_of_invoice
    cases i.fault with
    | some reason => rfl
    | none =>
      dsimp only
      split
      · rfl
      · split <;> rfl
  | fetched payment nextStatus =>
    apply iff_of_true _ rfl
    apply keepsFinal_of_invoice
    cases i.fault with
    | some reason => rfl
    | none =>
      dsimp only
      split
      · rfl
      · split <;> rfl
  | matched payment nextStatus =>
    unfold sparesFinal
    cases i.fault with
    | some reason => exact iff_of_true (keepsFinal_refl db) rfl
    | none =>
      have hanswer : KeepsFinal db (answer (updateInvoice db payment.invoiceId (settledInvoice i payment nextStatus))
          ⟨paymentId, .matched payment nextStatus⟩ nextStatus).1 ↔
          KeepsFinal db (updateInvoice db payment.invoiceId (settledInvoice i payment nextStatus)) := Iff.rfl
      dsimp only
      rw [hanswer, update_keepsFinal_iff]
      simp only [settled_same_iff, Option.isSome_none, Bool.false_or, Option.all_eq_true, Bool.or_eq_true,
        Bool.not_eq_true', Bool.and_eq_true, beq_iff_eq, Option.mem_def]
      apply forall₂_congr
      intro invoice _
      cases invoice.status.final <;> simp
  | answered status => exact iff_of_true (keepsFinal_refl db) rfl

theorem route_keepsFinal_iff (db : BillingDb) (r : Route) (i : BillingTurn) :
    KeepsFinal db (routeStep db r i).1 ↔ sparesFinal db r i = true := by
  cases r with
  | generate g => exact iff_of_true (generate_keepsFinal db g i) rfl
  | pay p => exact pay_keepsFinal_iff db p i
  | webhook w => exact webhook_keepsFinal_iff db w i
  | provider => exact iff_of_true (keepsFinal_of_invoice rfl) rfl

end Steps

/-- Once an invoice is paid or void in a run, it stays what it is. -/
def FinalStays (x : List Route × BillingDb) (chs : List (ℕ × BillingTurn)) : Prop :=
  ∀ n m, n ≤ m → KeepsFinal (turns routeStep x (chs.take n)).2 (turns routeStep x (chs.take m)).2

/-- In any interleaving of generations, pay requests, webhooks and the provider's reports, a paid or void invoice is
final if and only if no update of the pay route meets one, and no update of a webhook meets one that it changes. -/
theorem final_stays_iff (x : List Route × BillingDb) (chs : List (ℕ × BillingTurn)) :
    FinalStays x chs ↔ EveryTurn routeStep (fun db r i => sparesFinal db r i = true) x chs := by
  unfold FinalStays
  rw [turns_related_iff keepsFinal_refl keepsFinal_trans]
  exact everyTurn_congr route_keepsFinal_iff chs

namespace Sample

def paidInvoice : Invoice where
  id := "i"
  periodEnd := 30
  status := .paid
  subtotal := 999
  taxRate := VAT_RATE
  taxAmount := 210
  total := 1209
  paymentId := some 0
  paidAt := some 5
  metadata := .mollieInvoiceId 0
  updatedAt := 5

/-- A pay request for an invoice that is paid. -/
def payAgain : List Route × BillingDb :=
  ([.pay { invoiceId := "i" }], { invoice := some paidInvoice, payments := [⟨"i", 1209, .paid, some 5⟩] })

def payTurns : List (ℕ × BillingTurn) := [(0, { now := 6 }), (0, { now := 6 }), (0, { now := 6 })]

end Sample

theorem paid_invoice_is_sent_again : ¬ FinalStays Sample.payAgain Sample.payTurns := by
  intro h
  obtain ⟨invoice, hmem, hsame⟩ := h 0 3 (by decide) Sample.paidInvoice rfl rfl
  have hstatus : (turns routeStep Sample.payAgain (Sample.payTurns.take 3)).2.invoice.map (·.status) = some .sent := by
    decide +kernel
  rw [Option.mem_def.mp hmem, Option.map_some, Option.some.injEq] at hstatus
  have hpaid : invoice.status = .paid := congrArg Settlement.status hsame
  rw [hstatus] at hpaid
  cases hpaid

end OpenMigrate.Billing
