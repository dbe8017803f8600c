import OpenMigrate.Billing.Final

namespace OpenMigrate.Billing

open Async

/-- A payment whose paid report was answered is what its invoice says: paid, by this payment, with its amount in full. -/
def Settles (db : BillingDb) (k : ℕ) : Prop :=
  ∃ payment invoice, db.payments[k]? = some payment ∧ db.invoice = some invoice ∧ invoice.id = payment.invoiceId ∧
    invoice.status = .paid ∧ invoice.paymentId = some k ∧ invoice.total = payment.amount

def PaidOnce (payments : List Payment) : Prop :=
  ∀ (j k : ℕ) (a b : Payment), payments[j]? = some a → payments[k]? = some b → a.status = .paid → b.status = .paid →
    a.invoiceId = b.invoiceId → j = k

/-- Money received is money invoiced, and no two payments of one invoice are paid. -/
structure Received (db : BillingDb) : Prop where
  settles : ∀ k ∈ db.acknowledged, Settles db k
  once : PaidOnce db.payments

/-- No other payment of the invoice of payment `k` is paid. -/
def unpaidElsewhere (db : BillingDb) (k : ℕ) : Bool :=
  (db.payments[k]?).all fun payment => db.payments.zipIdx.all fun (other, j) =>
    j == k || other.status != .paid || other.invoiceId != payment.invoiceId

/-- What keeps money and invoices together. The provider reports a payment as paid only while no other payment of the
invoice is; a webhook that read its payment as paid finds the invoice with its id, which is paid already in full or is
paid in full by its update; and once a paid report was answered, the row is updated neither by the pay route nor by the
webhook of another outcome. -/
def agrees (db : BillingDb) (r : Route) (i : BillingTurn) : Bool :=
  match r with
  | .provider => i.report.2.1 != .paid || unpaidElsewhere db i.report.1
  | .pay ⟨invoiceId, .created _⟩ => i.fault.isSome || db.acknowledged.isEmpty || (selectInvoice db invoiceId).isNone
  | .webhook ⟨k, .fetched payment nextStatus⟩ =>
    i.fault.isSome || nextStatus != .paid ||
      (selectHolder db payment k).any fun invoice =>
        !invoice.status.final || invoice.status == .paid && invoice.total == payment.amount
  | .webhook ⟨k, .matched payment nextStatus⟩ =>
    i.fault.isSome ||
      if nextStatus = .paid then
        (selectHolder db payment k).any fun invoice => invoice.total == payment.amount
      else
        db.acknowledged.isEmpty || (selectInvoice db payment.invoiceId).isNone
  | _ => true

section Payments

variable {db db' : BillingDb}

/-- Payments keep their number, their invoice and their amount. -/
def PaymentsKept (db db' : BillingDb) : Prop :=
  ∀ (k : ℕ) (payment : Payment), db.payments[k]? = some payment →
    ∃ payment', db'.payments[k]? = some payment' ∧ payment'.invoiceId = payment.invoiceId ∧
      payment'.amount = payment.amount

theorem paymentsKept_refl (h : db'.payments = db.payments) : PaymentsKept db db' := by
  intro k payment hk
  exact ⟨payment, by rwa [h], rfl, rfl⟩

theorem generate_payments (db : BillingDb) (g : Generation) (i : BillingTurn) :
    (generateInvoiceForPeriod db g i).1.payments = db.payments ∧
      (generateInvoiceForPeriod db g i).1.acknowledged = db.acknowledged := by
  unfold generateInvoiceForPeriod upsertInvoice
  repeat' split
  all_goals exact ⟨rfl, rfl⟩

theorem pay_payments (db : BillingDb) (p : PayRequest) (i : BillingTurn) :
    PaymentsKept db (payInvoice db p i).1 := by
  unfold payInvoice
  split
  · exact paymentsKept_refl rfl
  · exact paymentsKept_refl rfl
  · split <;> exact paymentsKept_refl rfl
  · intro k payment hk
    obtain ⟨hlt, -⟩ := List.getElem?_eq_some_iff.mp hk
    exact ⟨payment, by rwa [List.getElem?_append_left hlt], rfl, rfl⟩
  · exact paymentsKept_refl rfl

theorem webhook_payments (db : BillingDb) (w : Webhook) (i : BillingTurn) :
    (processWebhook db w i).1.payments = db.payments := by
  unfold processWebhook
  repeat' split
  all_goals rfl

theorem report_getElem? (db : BillingDb) (i : BillingTurn) (k : ℕ) :
    (reportPayment db i).payments[k]? = (db.payments[k]?).map fun payment =>
      if i.report.1 = k then { payment with status := i.report.2.1, paidAt := i.report.2.2 } else payment := by
  unfold reportPayment
  dsimp only
  rw [List.getElem?_modify]
  cases db.payments[k]? <;> rfl

theorem report_payments (db : BillingDb) (i : BillingTurn) : PaymentsKept db (reportPayment db i) := by
  intro k payment hk
  rw [report_getElem?, hk]
  refine ⟨_, rfl, ?_, ?_⟩
  · split <;> rfl
  · split <;> rfl

theorem route_payments (db : BillingDb) (r : Route) (i : BillingTurn) : PaymentsKept db (routeStep db r i).1 := by
  cases r with
  | generate g => exact paymentsKept_refl (generate_payments db g i).1
  | pay p => exact pay_payments db p i
  | webhook w => exact paymentsKept_refl (webhook_payments db w i)
  | provider => exact report_payments db i

end Payments

section Steps

variable {db db' : BillingDb} {i : BillingTurn}

theorem settles_of_keepsFinal {k : ℕ} (h : Settles db k) (hpayments : PaymentsKept db db') (hfinal : KeepsFinal db db') :
    Settles db' k := by
  obtain ⟨payment, invoice, hpayment, hinvoice, hid, hstatus, hpaid, htotal⟩ := h
  obtain ⟨payment', hpayment', hid', hamount'⟩ := hpayments k payment hpayment
  obtain ⟨invoice', hinvoice', hsame⟩ := hfinal invoice hinvoice (by rw [hstatus]; rfl)
  refine ⟨payment', invoice', hpayment', hinvoice', ?_, ?_, ?_, ?_⟩
  · rw [hid', ← hid]
    exact congrArg Settlement.id hsame
  · rw [← hstatus]
    exact congrArg Settlement.status hsame
  · rw [← hpaid]
    exact congrArg Settlement.paymentId hsame
  · rw [hamount', ← htotal]
    exact congrArg Settlement.total hsame

theorem received_of_keepsFinal (h : Received db) (hacknowledged : db'.acknowledged = db.acknowledged)
    (hpayments : PaymentsKept db db') (hfinal : KeepsFinal db db') (honce : PaidOnce db'.payments) : Received db' := by
  constructor
  · intro k hk
    rw [hacknowledged] at hk
    exact settles_of_keepsFinal (h.settles k hk) hpayments hfinal
  · exact honce

theorem received_generate (h : Received db) (g : Generation) : Received (generateInvoiceForPeriod db g i).1 := by
  obtain ⟨hpayments, hacknowledged⟩ := generate_payments db g i
  apply received_of_keepsFinal h hacknowledged (paymentsKept_refl hpayments) (generate_keepsFinal db g i)
  rw [hpayments]
  exact h.once

theorem unpaidElsewhere_iff (db : BillingDb) (k : ℕ) : unpaidElsewhere db k = true ↔
    ∀ (j : ℕ) (a b : Payment), db.payments[j]? = some a → db.payments[k]? = some b → a.status = .paid →
      a.invoiceId = b.invoiceId → j = k := by
  unfold unpaidElsewhere
  simp only [Option.all_eq_true, List.all_eq_true, Bool.or_eq_true, beq_iff_eq, bne_iff_ne, Prod.forall,
    List.mem_zipIdx_iff_getElem?]
  constructor
  · intro h j a b ha hb hpaid hid
    obtain (hj | hstatus) | hother := h b hb a j ha
    · exact hj
    · exact absurd hpaid hstatus
    · exact absurd hid hother
  · intro h b hb a j ha
    by_cases hpaid : a.status = .paid
    · by_cases hid : a.invoiceId = b.invoiceId
      · exact .inl (.inl (h j a b ha hb hpaid hid))
      · exact .inr hid
    · exact .inl (.inr hpaid)

theorem report_once_iff (h : PaidOnce db.payments) :
    PaidOnce (reportPayment db i).payments ↔ i.report.2.1 ≠ .paid ∨ unpaidElsewhere db i.report.1 = true := by
  rw [unpaidElsewhere_iff]
  constructor
  · intro hafter
    by_contra hnot
    rw [not_or, not_not] at hnot
    obtain ⟨hpaid, hnot⟩ := hnot
    apply hnot
    intro j a b ha hb hstatus hid
    by_contra hne
    refine hne (hafter j i.report.1 a { b with status := i.report.2.1, paidAt := i.report.2.2 } ?_ ?_ hstatus hpaid hid)
    · rw [report_getElem?, ha, Option.map_some, if_neg (Ne.symm hne)]
    · rw [report_getElem?, hb, Option.map_some, if_pos rfl]
  · intro hcond j k a b ha hb hpa hpb hid
    rw [report_getElem?, Option.map_eq_some_iff] at ha hb
    obtain ⟨a, ha, rfl⟩ := ha
    obtain ⟨b, hb, rfl⟩ := hb
    by_cases hj : i.report.1 = j
    · rw [if_pos hj] at hpa hid
      by_cases hk : i.report.1 = k
      · exact hj.symm.trans hk
      · rw [if_neg hk] at hpb hid
        have hother := hcond.resolve_left fun hne => hne hpa
        exact ((hother k b a hb (hj ▸ ha) hpb hid.symm).trans hj).symm
    · rw [if_neg hj] at hpa hid
      by_cases hk : i.report.1 = k
      · rw [if_pos hk] at hpb hid
        have hother := hcond.resolve_left fun hne => hne hpb
        exact (hother j a b ha (hk ▸ hb) hpa hid).trans hk
      · rw [if_neg hk] at hpb hid
        exact h j k a b ha hb hpa hpb hid

theorem received_provider_iff (h : Received db) :
    Received (reportPayment db i) ↔ agrees db .provider i = true := by
  have hagrees : agrees db .provider i = true ↔ i.report.2.1 ≠ .paid ∨ unpaidElsewhere db i.report.1 = true := by
    simp [agrees]
  rw [hagrees, ← report_once_iff h.once]
  constructor
  · exact fun hafter => hafter.once
  · exact received_of_keepsFinal h rfl (report_payments db i) (keepsFinal_of_invoice rfl)

theorem settles_invoice {k : ℕ} (h : Settles db k) : ∃ invoice, db.invoice = some invoice ∧ invoice.status = .paid := by
  obtain ⟨_, invoice, -, hinvoice, -, hstatus, -⟩ := h
  exact ⟨invoice, hinvoice, hstatus⟩

theorem received_update_iff (h : Received db) (invoiceId : String) (set : Invoice → Invoice)
    (hset : ∀ invoice, (set invoice).status ≠ .paid) :
    Received (updateInvoice db invoiceId set) ↔ db.acknowledged = [] ∨ selectInvoice db invoiceId = none := by
  constructor
  · intro hafter
    cases hack : db.acknowledged with
    | nil => exact .inl rfl
    | cons k ks =>
      right
      obtain ⟨invoice, hinvoice, -⟩ := settles_invoice (h.settles k (by rw [hack]; exact List.mem_cons_self))
      obtain ⟨invoice', hinvoice', hpaid⟩ := settles_invoice (hafter.settles k (by
        show k ∈ db.acknowledged
        rw [hack]
        exact List.mem_cons_self))
      rw [updateInvoice, hinvoice, Option.map_some, Option.some.injEq] at hinvoice'
      rw [selectInvoice, hinvoice, Option.filter_eq_none_iff]
      rintro _ ⟨⟩ hid
      rw [if_pos hid] at hinvoice'
      rw [← hinvoice'] at hpaid
      exact hset invoice hpaid
  · rintro (hnone | hnone)
    · refine ⟨fun k hk => ?_, h.once⟩
      have hk' : k ∈ db.acknowledged := hk
      rw [hnone] at hk'
      cases hk'
    · have hfinal : KeepsFinal db (updateInvoice db invoiceId set) := by
        rw [update_keepsFinal_iff, hnone]
        rintro _ ⟨⟩
      exact received_of_keepsFinal h rfl (paymentsKept_refl rfl) hfinal h.once

theorem paidOnce_append {payments : List Payment} (h : PaidOnce payments) {payment : Payment}
    (hopen : payment.status ≠ .paid) : PaidOnce (payments ++ [payment]) := by
  have hold : ∀ (k : ℕ) (a : Payment), (payments ++ [payment])[k]? = some a → a.status = .paid →
      payments[k]? = some a := by
    intro k a ha hpaid
    rw [List.getElem?_append] at ha
    split at ha
    · exact ha
    · obtain rfl := List.mem_singleton.mp (List.mem_of_getElem? ha)
      exact absurd hpaid hopen
  intro j k a b ha hb hpa hpb
  exact h j k a b (hold j a ha hpa) (hold k b hb hpb) hpa hpb

theorem received_pay_iff (h : Received db) (p : PayRequest) :
    Received (payInvoice db p i).1 ↔ agrees db (.pay p) i = true := by
  obtain ⟨invoiceId, state⟩ := p
  unfold payInvoice
  cases state with
  | start =>
    apply iff_of_true _ rfl
    cases i.fault with
    | some reason => exact h
    | none =>
      dsimp only
      split <;> exact h
  | found invoice =>
    apply iff_of_true _ rfl
    cases i.fault with
    | some reason => exact h
    | none =>
      have hkept := pay_payments db ⟨invoiceId, .found invoice⟩ { i with fault := none }
      have honce : PaidOnce (db.payments ++ [⟨invoiceId, invoice.total, .opened, none⟩]) :=
        paidOnce_append h.once (by rintro ⟨⟩)
      exact received_of_keepsFinal h rfl hkept (keepsFinal_of_invoice rfl) honce
  | created payment =>
    unfold agrees
    cases i.fault with
    | some reason => exact iff_of_true h rfl
    | none =>
      dsimp only
      rw [received_update_iff h invoiceId (sentInvoice i payment) (by rintro _ ⟨⟩)]
      simp
  | done status => exact iff_of_true h rfl

/-- What a webhook fetched is the provider's payment, but for its status. -/
def Fetched (db : BillingDb) (w : Webhook) (payment : Payment) : Prop :=
  ∃ p, db.payments[w.paymentId]? = some p ∧ p.invoiceId = payment.invoiceId ∧ p.amount = payment.amount

def Webhook.Knows (db : BillingDb) (w : Webhook) : Prop :=
  match w.state with
  | .fetched payment _ | .matched payment _ => Fetched db w payment
  | _ => True

theorem selectHolder_iff {payment : Payment} {k : ℕ} {invoice : Invoice} :
    selectHolder db payment k = some invoice ↔
      db.invoice = some invoice ∧ invoice.id = payment.invoiceId ∧ invoice.paymentId = some k := by
  unfold selectHolder selectInvoice
  rw [Option.filter_eq_some_iff, Option.filter_eq_some_iff, and_assoc, beq_iff_eq, beq_iff_eq]

theorem settles_iff {w : Webhook} {payment : Payment} (h : Fetched db w payment) : Settles db w.paymentId ↔
    ∃ invoice, selectHolder db payment w.paymentId = some invoice ∧ invoice.status = .paid ∧
      invoice.total = payment.amount := by
  obtain ⟨p, hp, hid, hamount⟩ := h
  constructor
  · rintro ⟨p', invoice, hp', hinvoice, hid', hstatus, hpaid, htotal⟩
    obtain rfl : p = p' := Option.some.inj (hp.symm.trans hp')
    exact ⟨invoice, selectHolder_iff.mpr ⟨hinvoice, hid'.trans hid, hpaid⟩, hstatus, htotal.trans hamount⟩
  · rintro ⟨invoice, hholder, hstatus, htotal⟩
    obtain ⟨hinvoice, hid', hpaid⟩ := selectHolder_iff.mp hholder
    exact ⟨p, invoice, hp, hinvoice, hid'.trans hid.symm, hstatus, hpaid, htotal.trans hamount.symm⟩

theorem received_answer_iff (db : BillingDb) (w : Webhook) (nextStatus : InvoiceStatus) :
    Received (answer db w nextStatus).1 ↔ Received db ∧ (nextStatus = .paid → Settles db w.paymentId) := by
  have hsettles : ∀ k, Settles (answer db w nextStatus).1 k ↔ Settles db k := fun _ => Iff.rfl
  have hacknowledged : (answer db w nextStatus).1.acknowledged =
      if nextStatus = .paid then w.paymentId :: db.acknowledged else db.acknowledged := rfl
  constructor
  · rintro ⟨hall, honce⟩
    rw [hacknowledged] at hall
    refine ⟨⟨fun k hk => hall k ?_, honce⟩, fun hpaid => hall _ ?_⟩
    · split
      · exact List.mem_cons_of_mem _ hk
      · exact hk
    · rw [if_pos hpaid]
      exact List.mem_cons_self
  · rintro ⟨⟨hall, honce⟩, hpaid⟩
    refine ⟨fun k hk => (hsettles k).mpr ?_, honce⟩
    rw [hacknowledged] at hk
    split at hk
    · obtain rfl | hk := List.mem_cons.mp hk
      · exact hpaid ‹_›
      · exact hall k hk
    · exact hall k hk

theorem selectHolder_update (payment : Payment) (k : ℕ) (set : Invoice → Invoice)
    (hset : ∀ invoice, (set invoice).id = invoice.id ∧ (set invoice).paymentId = invoice.paymentId) :
    selectHolder (updateInvoice db payment.invoiceId set) payment k = (selectHolder db payment k).map set := by
  unfold selectHolder selectInvoice updateInvoice
  cases db.invoice with
  | none => rfl
  | some invoice =>
    obtain ⟨hid, hpaid⟩ := hset invoice
    by_cases h : invoice.id = payment.invoiceId
    · by_cases hk : invoice.paymentId = some k
      · simp [Option.filter_some, h, hk, hid, hpaid]
      · simp [Option.filter_some, h, hk, hid, hpaid]
    · simp [Option.filter_some, h]

theorem settles_update_iff {w : Webhook} {payment : Payment} (hfetched : Fetched db w payment) :
    Settles (updateInvoice db payment.invoiceId (settledInvoice i payment .paid)) w.paymentId ↔
      ∃ invoice, selectHolder db payment w.paymentId = some invoice ∧ invoice.total = payment.amount := by
  have hfetched' : Fetched (updateInvoice db payment.invoiceId (settledInvoice i payment .paid)) w payment := hfetched
  rw [settles_iff hfetched', selectHolder_update payment w.paymentId (settledInvoice i payment .paid) fun _ => ⟨rfl, rfl⟩]
  constructor
  · rintro ⟨_, hholder, -, htotal⟩
    obtain ⟨invoice, hinvoice, rfl⟩ := Option.map_eq_some_iff.mp hholder
    exact ⟨invoice, hinvoice, htotal⟩
  · rintro ⟨invoice, hholder, htotal⟩
    exact ⟨settledInvoice i payment .paid invoice, by rw [hholder]; rfl, rfl, htotal⟩

theorem received_settled (h : Received db) {w : Webhook} {payment : Payment} (hfetched : Fetched db w payment)
    (hsettled : Settles (updateInvoice db payment.invoiceId (settledInvoice i payment .paid)) w.paymentId) :
    Received (updateInvoice db payment.invoiceId (settledInvoice i payment .paid)) := by
  refine ⟨fun k hk => ?_, h.once⟩
  obtain ⟨invoice, hholder, -⟩ := (settles_update_iff hfetched).mp hsettled
  obtain ⟨hinvoice, -, hpaid⟩ := selectHolder_iff.mp hholder
  -- the one row holds the id of every payment that was answered as paid
  obtain ⟨_, invoice', -, hinvoice', -, -, hpaid', -⟩ := h.settles k hk
  obtain rfl : invoice = invoice' := Option.some.inj (hinvoice.symm.trans hinvoice')
  obtain rfl : w.paymentId = k := Option.some.inj (hpaid.symm.trans hpaid')
  exact hsettled

theorem received_fetched_iff (h : Received db) {w : Webhook} {payment : Payment} {nextStatus : InvoiceStatus}
    (hw : w.state = .fetched payment nextStatus) (hfetched : Fetched db w payment) (hfault : i.fault = none) :
    Received (processWebhook db w i).1 ↔ nextStatus = .paid → ∃ invoice, selectHolder db payment w.paymentId = some invoice ∧
      (invoice.status.final = true → invoice.status = .paid ∧ invoice.total = payment.amount) := by
  unfold processWebhook
  rw [hw, hfault]
  dsimp only
  split
  · rename_i hnone
    rw [received_answer_iff, settles_iff hfetched, hnone]
    simp [h]
  · rename_i invoice hholder
    split
    · rename_i hfinal
      rw [received_answer_iff, settles_iff hfetched, hholder]
      simp [h, hfinal]
    · rename_i hfinal
      apply iff_of_true h
      exact fun _ => ⟨invoice, hholder, fun hf => absurd hf hfinal⟩

theorem received_matched_iff (h : Received db) {w : Webhook} {payment : Payment} {nextStatus : InvoiceStatus}
    (hw : w.state = .matched payment nextStatus) (hfetched : Fetched db w payment) (hfault : i.fault = none) :
    Received (processWebhook db w i).1 ↔
      if nextStatus = .paid then
        ∃ invoice, selectHolder db payment w.paymentId = some invoice ∧ invoice.total = payment.amount
      else
        db.acknowledged = [] ∨ selectInvoice db payment.invoiceId = none := by
  unfold processWebhook
  rw [hw, hfault]
  dsimp only
  rw [received_answer_iff]
  split
  · rename_i hpaid
    subst hpaid
    rw [← settles_update_iff hfetched]
    exact ⟨fun h' => h'.2 rfl, fun hsettled => ⟨received_settled h hfetched hsettled, fun _ => hsettled⟩⟩
  · rename_i hpaid
    rw [← received_update_iff h payment.invoiceId (settledInvoice i payment nextStatus) fun _ => hpaid]
    exact ⟨fun h' => h'.1, fun h' => ⟨h', fun hp => absurd hp hpaid⟩⟩

theorem received_webhook_iff (h : Received db) (w : Webhook) (hw : w.Knows db) :
    Received (processWebhook db w i).1 ↔ agrees db (.webhook w) i = true := by
  obtain ⟨paymentId, state⟩ := w
  cases hfault : i.fault with
  | some reason =>
    have hsame : (processWebhook db ⟨paymentId, state⟩ i).1 = db := by
      unfold processWebhook
      cases state <;> simp [hfault]
    rw [hsame]
    apply iff_of_true h
    unfold agrees
    cases state <;> simp [hfault]
  | none =>
    cases state with
    | start =>
      apply iff_of_true _ rfl
      unfold processWebhook
      rw [hfault]
      dsimp only
      split
      · exact h
      · split <;> exact h
    | fetched payment nextStatus =>
      rw [received_fetched_iff h rfl hw hfault]
      simp only [agrees, hfault, Option.isSome_none, Bool.false_or, Bool.or_eq_true, bne_iff_ne, Option.any_eq_true,
        Bool.not_eq_true', Bool.and_eq_true, beq_iff_eq]
      rw [imp_iff_not_or]
      apply or_congr Iff.rfl
      apply exists_congr
      intro invoice
      apply and_congr Iff.rfl
      cases invoice.status.final <;> simp
    | matched payment nextStatus =>
      rw [received_matched_iff h rfl hw hfault]
      by_cases hpaid : nextStatus = .paid
      · simp [agrees, hfault, hpaid, Option.any_eq_true]
      · simp [agrees, hfault, hpaid]
    | answered status => exact iff_of_true h rfl

end Steps

section Runs

variable {db : BillingDb} {i : BillingTurn}

def Route.Knows (db : BillingDb) : Route → Prop
  | .webhook w => w.Knows db
  | _ => True

theorem Fetched.kept {db' : BillingDb} {w : Webhook} {payment : Payment} (h : Fetched db w payment)
    (hkept : PaymentsKept db db') : Fetched db' w payment := by
  obtain ⟨p, hp, hid, hamount⟩ := h
  obtain ⟨p', hp', hid', hamount'⟩ := hkept _ p hp
  exact ⟨p', hp', hid'.trans hid, hamount'.trans hamount⟩

theorem knows_kept {db' : BillingDb} {r : Route} (h : r.Knows db) (hkept : PaymentsKept db db') : r.Knows db' := by
  cases r with
  | generate | pay | provider => exact trivial
  | webhook w =>
    obtain ⟨paymentId, state⟩ := w
    cases state with
    | start | answered => exact trivial
    | fetched payment nextStatus | matched payment nextStatus => exact Fetched.kept h hkept

theorem webhook_knows {w : Webhook} (h : w.Knows db) : (processWebhook db w i).2.Knows db := by
  obtain ⟨paymentId, state⟩ := w
  unfold processWebhook
  cases i.fault with
  | some reason =>
    cases state <;> exact trivial
  | none =>
    cases state with
    | start =>
      dsimp only
      split
      · exact trivial
      · rename_i payment hpayment
        split
        · exact trivial
        · exact ⟨payment, hpayment, rfl, rfl⟩
    | fetched payment nextStatus =>
      dsimp only
      split
      · exact trivial
      · split
        · exact trivial
        · exact h
    | matched payment nextStatus | answered status => exact trivial

theorem route_knows {r : Route} (h : r.Knows db) : (routeStep db r i).2.Knows (routeStep db r i).1 := by
  apply knows_kept _ (route_payments db r i)
  cases r with
  | generate | pay | provider => exact trivial
  | webhook w => exact webhook_knows h

theorem route_received_iff (h : Received db) {r : Route} (hr : r.Knows db) :
    Received (routeStep db r i).1 ↔ agrees db r i = true := by
  cases r with
  | generate g => exact iff_of_true (received_generate h g) rfl
  | pay p => exact received_pay_iff h p
  | webhook w => exact received_webhook_iff h w hr
  | provider => exact received_provider_iff h

end Runs

inductive BillingRequest where
  | generate (periodEnd : Instant)
  | pay (invoiceId : String)
  | webhook (paymentId : ℕ)
  | provider

def BillingRequest.route : BillingRequest → Route
  | generate periodEnd => .generate { periodEnd := periodEnd }
  | pay invoiceId => .pay { invoiceId := invoiceId }
  | webhook paymentId => .webhook { paymentId := paymentId }
  | provider => .provider

/-- A period before its first invoice, with the requests that will come. -/
def opening (requests : List BillingRequest) : List Route × BillingDb := (requests.map BillingRequest.route, {})

theorem opening_knows (requests : List BillingRequest) : ∀ r ∈ (opening requests).1, r.Knows (opening requests).2 := by
  intro r hr
  obtain ⟨request, -, rfl⟩ := List.mem_map.mp hr
  cases request <;> exact trivial

theorem knows_step (x : List Route × BillingDb) (ch : ℕ × BillingTurn) (hx : ∀ r ∈ x.1, r.Knows x.2) :
    ∀ r ∈ (turn routeStep x ch).1, r.Knows (turn routeStep x ch).2 := by
  obtain ⟨-, hsame⟩ | ⟨r, hr, hturn⟩ := turn_cases routeStep x ch
  · rwa [hsame]
  · rw [hturn]
    intro m hm
    obtain hm | rfl := List.mem_or_eq_of_mem_set hm
    · exact knows_kept (hx m hm) (route_payments x.2 r ch.2)
    · exact route_knows (hx r (List.mem_of_getElem? hr))

/-- In any interleaving of generations, pay requests, webhooks and the provider's reports, every state agrees with the
money received if and only if every turn agrees. -/
theorem money_received_iff (requests : List BillingRequest) (chs : List (ℕ × BillingTurn)) :
    (∀ n, Received (turns routeStep (opening requests) (chs.take n)).2) ↔
      EveryTurn routeStep (fun db r i => agrees db r i = true) (opening requests) chs := by
  apply turns_keep_iff knows_step _ chs (opening_knows requests)
  · exact ⟨nofun, nofun⟩
  · intro x ch r hx hP hr
    exact route_received_iff hP (hx r (List.mem_of_getElem? hr))

namespace Sample

/-- Two pay requests for one invoice, and the webhook of the first payment once it is paid. -/
def requests : List BillingRequest := [.generate 30, .pay "i", .pay "i", .provider, .webhook 0]

def twoPayments : List (ℕ × BillingTurn) :=
  [0, 0, 0, 1, 1, 1, 2, 2, 2, 3, 4, 4].map fun j => (j, { now := 6, report := (0, .paid, some 6) })

end Sample

/-- The second payment's id replaced the first one's, and the first payment's webhook is answered without an invoice. -/
theorem replaced_payment_is_lost :
    ¬ ∀ n, Received (turns routeStep (opening Sample.requests) (Sample.twoPayments.take n)).2 := by
  intro h
  obtain ⟨_, invoice, -, hinvoice, -, hstatus, -⟩ := (h 12).settles 0 (by decide +kernel)
  have hsent : (turns routeStep (opening Sample.requests) (Sample.twoPayments.take 12)).2.invoice.map (·.status) =
      some .sent := by
    decide +kernel
  rw [hinvoice, Option.map_some, hstatus] at hsent
  cases hsent

end OpenMigrate.Billing
