import OpenMigrate.Async.Turns
import OpenMigrate.Billing.Metering

namespace OpenMigrate.Billing

open Async

inductive InvoiceStatus where
  | draft
  | sent
  | paid
  | overdue
  | void
  deriving DecidableEq

inductive PaymentStatus where
  | opened
  | canceled
  | paid
  | failed
  | expired
  | pending
  | authorized
  deriving DecidableEq

structure PricingConfig where
  baseFee : ℕ
  storagePricePerGB : ℕ
  egressPricePerGB : ℕ
  computePricePerHour : ℕ
  deriving DecidableEq

structure CostByDriver where
  base : ℤ
  storage : ℤ
  egress : ℤ
  compute : ℤ
  deriving DecidableEq

structure Cost where
  subtotal : ℤ
  tax : ℤ
  total : ℤ
  costByDriver : CostByDriver
  deriving DecidableEq

inductive InvoiceMetadata where
  | generated (costByDriver : CostByDriver) (generatedAt : Instant)
  | mollieInvoiceId (payment : ℕ)
  deriving DecidableEq

/-- The invoice row of the one tenant and period; money is in cents, payments are numbered by the provider. -/
structure Invoice where
  id : String
  periodEnd : Instant
  status : InvoiceStatus := .draft
  subtotal : ℤ
  taxRate : ℚ
  taxAmount : ℤ
  total : ℤ
  currency : String := "EUR"
  paymentId : Option ℕ := none
  paidAt : Option Instant := none
  metadata : InvoiceMetadata
  updatedAt : Instant
  deriving DecidableEq

structure Payment where
  invoiceId : String
  amount : ℤ
  status : PaymentStatus := .opened
  paidAt : Option Instant := none
  deriving DecidableEq

/-- The invoice table of the tenant's period, and the provider's payments. `acknowledged` is of the model: the payments
of which a webhook that read them as paid was answered. -/
structure BillingDb where
  invoice : Option Invoice := none
  payments : List Payment := []
  acknowledged : List ℕ := []

structure GeneratedInvoice where
  id : String
  status : InvoiceStatus
  subtotal : ℤ
  taxAmount : ℤ
  total : ℤ
  currency : String
  costByDriver : CostByDriver
  locked : Bool

inductive GenerationState where
  | start
  | costed (cost : Cost)
  | unlocked (cost : Cost)
  | skipped (cost : Cost)
  | done (result : Except String GeneratedInvoice)

structure Generation where
  periodEnd : Instant
  state : GenerationState := .start

inductive PayState where
  | start
  | found (invoice : Invoice)
  | created (payment : ℕ)
  | done (status : ℕ)

structure PayRequest where
  invoiceId : String
  state : PayState := .start

inductive WebhookState where
  | start
  | fetched (payment : Payment) (nextStatus : InvoiceStatus)
  | matched (payment : Payment) (nextStatus : InvoiceStatus)
  | answered (status : ℕ)

structure Webhook where
  paymentId : ℕ
  state : WebhookState := .start

/-- What one turn meets: the time, whether its statement or call raises, the usage and prices a generation reads, the id
a new row gets, and what the provider makes of a payment. -/
structure BillingTurn where
  now : Instant
  fault : Option String := none
  usage : UsageMetricsResult := ⟨0, 0, 0, 0⟩
  pricing : PricingConfig := ⟨999, 10, 20, 5⟩
  freshId : String := "i"
  report : ℕ × PaymentStatus × Option Instant := (0, .opened, none)

inductive Route where
  | generate (g : Generation)
  | pay (p : PayRequest)
  | webhook (w : Webhook)
  | provider

def VAT_RATE : ℚ := 21 / 100

def BYTES_PER_GB : ℕ := 1000000000

def calculateCost (usage : UsageMetricsResult) (pricing : PricingConfig) : Cost :=
  let storage := Math.round ((usage.storageBytes : ℚ) / BYTES_PER_GB * pricing.storagePricePerGB)
  let egress := Math.round ((usage.egressBytes : ℚ) / BYTES_PER_GB * pricing.egressPricePerGB)
  let compute := Math.round (usage.computeHours * pricing.computePricePerHour)
  let subtotal := pricing.baseFee + storage + egress + compute
  let tax := Math.round (subtotal * VAT_RATE)
  { subtotal, tax, total := subtotal + tax, costByDriver := { base := pricing.baseFee, storage, egress, compute } }

def InvoiceStatus.final : InvoiceStatus → Bool
  | .paid | .void => true
  | _ => false

def invoiceStatusFor : PaymentStatus → Option InvoiceStatus
  | .paid => some .paid
  | .failed | .canceled | .expired => some .void
  | _ => none

section Generate

variable (db : BillingDb) (g : Generation) (i : BillingTurn)

def generated (id : String) (status : InvoiceStatus) (cost : Cost) (locked : Bool) : GeneratedInvoice where
  id := id
  status := status
  subtotal := cost.subtotal
  taxAmount := cost.tax
  total := cost.total
  currency := "EUR"
  costByDriver := cost.costByDriver
  locked := locked

def draftInvoice (cost : Cost) : Invoice where
  id := i.freshId
  periodEnd := g.periodEnd
  subtotal := cost.subtotal
  taxRate := VAT_RATE
  taxAmount := cost.tax
  total := cost.total
  metadata := .generated cost.costByDriver i.now
  updatedAt := i.now

def refreshed (cost : Cost) (invoice : Invoice) : Invoice :=
  { invoice with
    subtotal := cost.subtotal
    taxRate := VAT_RATE
    taxAmount := cost.tax
    total := cost.total
    metadata := .generated cost.costByDriver i.now
    updatedAt := i.now }

/-- The upsert, with its guard: a row that is paid or void is not updated, and none is returned. -/
def upsertInvoice (cost : Cost) : BillingDb × Generation :=
  match db.invoice with
  | none =>
    ({ db with invoice := some (draftInvoice g i cost) },
      { g with state := .done (.ok (generated i.freshId .draft cost false)) })
  | some invoice =>
    if invoice.status.final then
      (db, { g with state := .skipped cost })
    else
      ({ db with invoice := some (refreshed i cost invoice) },
        { g with state := .done (.ok (generated invoice.id invoice.status cost false)) })

def generateInvoiceForPeriod : BillingDb × Generation :=
  match g.state, i.fault with
  | .done _, _ => (db, g)
  | _, some reason => (db, { g with state := .done (.error reason) })
  | .start, none => (db, { g with state := .costed (calculateCost i.usage i.pricing) })
  | .costed cost, none =>
    match db.invoice with
    | some invoice =>
      if invoice.status.final then
        (db, { g with state := .done (.ok (generated invoice.id invoice.status cost true)) })
      else
        (db, { g with state := .unlocked cost })
    | none => (db, { g with state := .unlocked cost })
  | .unlocked cost, none => upsertInvoice db g i cost
  | .skipped cost, none =>
    match db.invoice with
    | some invoice => (db, { g with state := .done (.ok (generated invoice.id invoice.status cost true)) })
    | none => (db, { g with state := .done (.error "invoice upsert returned no row") })

end Generate

section Pay

variable (db : BillingDb) (p : PayRequest) (i : BillingTurn)

def selectInvoice (invoiceId : String) : Option Invoice := db.invoice.filter fun invoice => invoice.id == invoiceId

/-- UPDATE … WHERE id = invoiceId. -/
def updateInvoice (invoiceId : String) (set : Invoice → Invoice) : BillingDb :=
  { db with invoice := db.invoice.map fun invoice => if invoice.id == invoiceId then set invoice else invoice }

def sentInvoice (payment : ℕ) (invoice : Invoice) : Invoice :=
  { invoice with
    status := .sent
    paymentId := some payment
    metadata := .mollieInvoiceId payment
    updatedAt := i.now }

/-- The route reads the invoice, whatever its status, creates a payment of its total, and stores it in the row. -/
def payInvoice : BillingDb × PayRequest :=
  match p.state, i.fault with
  | .done _, _ => (db, p)
  | _, some _ => (db, { p with state := .done 500 })
  | .start, none =>
    match selectInvoice db p.invoiceId with
    | none => (db, { p with state := .done 404 })
    | some invoice => (db, { p with state := .found invoice })
  | .found invoice, none =>
    ({ db with payments := db.payments ++ [{ invoiceId := p.invoiceId, amount := invoice.total }] },
      { p with state := .created db.payments.length })
  | .created payment, none => (updateInvoice db p.invoiceId (sentInvoice i payment), { p with state := .done 200 })

end Pay

section Notify

variable (db : BillingDb) (w : Webhook) (i : BillingTurn)

/-- The payment's invoice, if it holds the payment's id. -/
def selectHolder (payment : Payment) (paymentId : ℕ) : Option Invoice :=
  (selectInvoice db payment.invoiceId).filter fun invoice => invoice.paymentId == some paymentId

def answer (nextStatus : InvoiceStatus) : BillingDb × Webhook :=
  ({ db with acknowledged := if nextStatus = .paid then w.paymentId :: db.acknowledged else db.acknowledged },
    { w with state := .answered 200 })

def settledInvoice (payment : Payment) (nextStatus : InvoiceStatus) (invoice : Invoice) : Invoice :=
  { invoice with
    status := nextStatus
    paidAt := if nextStatus = .paid then some (payment.paidAt.getD i.now) else none
    updatedAt := i.now }

/-- The webhook fetches the payment, looks for the invoice that holds its id, and updates it unless it is paid or void
already; it is answered whether or not an invoice was found. -/
def processWebhook : BillingDb × Webhook :=
  match w.state, i.fault with
  | .answered _, _ => (db, w)
  | _, some _ => (db, { w with state := .answered 500 })
  | .start, none =>
    match db.payments[w.paymentId]? with
    | none => (db, { w with state := .answered 500 })
    | some payment =>
      match invoiceStatusFor payment.status with
      | none => (db, { w with state := .answered 200 })
      | some nextStatus => (db, { w with state := .fetched payment nextStatus })
  | .fetched payment nextStatus, none =>
    match selectHolder db payment w.paymentId with
    | none => answer db w nextStatus
    | some invoice =>
      if invoice.status.final then answer db w nextStatus
      else (db, { w with state := .matched payment nextStatus })
  | .matched payment nextStatus, none =>
    answer (updateInvoice db payment.invoiceId (settledInvoice i payment nextStatus)) w nextStatus

end Notify

/-- The provider reports a new status of a payment. -/
def reportPayment (db : BillingDb) (i : BillingTurn) : BillingDb :=
  match i.report with
  | (payment, status, paidAt) =>
    { db with payments := db.payments.modify payment fun p => { p with status := status, paidAt := paidAt } }

def routeStep (db : BillingDb) (r : Route) (i : BillingTurn) : BillingDb × Route :=
  match r with
  | .generate g => ((generateInvoiceForPeriod db g i).1, .generate (generateInvoiceForPeriod db g i).2)
  | .pay p => ((payInvoice db p i).1, .pay (payInvoice db p i).2)
  | .webhook w => ((processWebhook db w i).1, .webhook (processWebhook db w i).2)
  | .provider => (reportPayment db i, .provider)

end OpenMigrate.Billing
