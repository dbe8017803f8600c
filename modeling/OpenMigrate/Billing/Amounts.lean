import OpenMigrate.Billing.Routes
import Mathlib.Tactic.NormNum

namespace OpenMigrate.Billing

open Async

/-- The usage that the billing service prices and the usage route shows. -/
structure UsageMetrics where
  storageUsedGB : ℚ
  egressGB : ℚ
  computeHours : ℚ
  syncCount : ℚ

namespace Service

structure Cost where
  baseFee : ℤ
  storage : ℤ
  egress : ℤ
  compute : ℤ
  subtotal : ℤ
  taxRate : ℚ
  tax : ℤ
  total : ℤ
  deriving DecidableEq

def calculateCost (metrics : UsageMetrics) (pricing : PricingConfig) : Cost :=
  let storageCost := Math.round (metrics.storageUsedGB * pricing.storagePricePerGB)
  let egressCost := Math.round (metrics.egressGB * pricing.egressPricePerGB)
  let computeCost := Math.round (metrics.computeHours * pricing.computePricePerHour)
  let subtotal := pricing.baseFee + storageCost + egressCost + computeCost
  let tax := Math.round (subtotal * VAT_RATE)
  { baseFee := pricing.baseFee
    storage := storageCost
    egress := egressCost
    compute := computeCost
    subtotal
    taxRate := VAT_RATE
    tax
    total := subtotal + tax }

/-- What a generation keeps of a cost. -/
def Cost.invoiced (cost : Cost) : Billing.Cost where
  subtotal := cost.subtotal
  tax := cost.tax
  total := cost.total
  costByDriver := {
    base := cost.baseFee
    storage := cost.storage
    egress := cost.egress
    compute := cost.compute }

end Service

def usageMetrics (bytesPerGB : ℕ) (metrics : UsageMetricsResult) : UsageMetrics where
  storageUsedGB := metrics.storageBytes / bytesPerGB
  egressGB := metrics.egressBytes / bytesPerGB
  computeHours := metrics.computeHours
  syncCount := metrics.apiCallCount

/-- The cost that the usage route answers. -/
def currentCost (metrics : UsageMetricsResult) (pricing : PricingConfig) : Service.Cost :=
  Service.calculateCost (usageMetrics (1024 * 1024 * 1024) metrics) pricing

theorem calculateCost_eq (usage : UsageMetricsResult) (pricing : PricingConfig) :
    calculateCost usage pricing = (Service.calculateCost (usageMetrics BYTES_PER_GB usage) pricing).invoiced := rfl

section Rounding

theorem round_eq_iff (x : ℚ) (n : ℤ) : Math.round x = n ↔ (n : ℚ) - 1 / 2 ≤ x ∧ x < n + 1 / 2 := by
  unfold Math.round
  rw [Int.floor_eq_iff]
  constructor
  · rintro ⟨hle, hlt⟩
    exact ⟨by linarith, by linarith⟩
  · rintro ⟨hle, hlt⟩
    exact ⟨by linarith, by linarith⟩

theorem round_div_eq_iff {a : ℚ} (ha : 0 < a) (x : ℚ) (n : ℤ) :
    Math.round (x / a) = n ↔ ((n : ℚ) - 1 / 2) * a ≤ x ∧ x < (n + 1 / 2) * a := by
  rw [round_eq_iff, le_div_iff₀ ha, div_lt_iff₀ ha]

/-- An amount is rounded alike in a greater and a smaller unit when no half of a cent comes between. -/
theorem round_div_eq_round_div_iff {a b x : ℚ} (hb : 0 < b) (hba : b ≤ a) (hx : 0 ≤ x) :
    Math.round (x / a) = Math.round (x / b) ↔
      ∃ n : ℤ, ((n : ℚ) - 1 / 2) * a ≤ x ∧ x < (n + 1 / 2) * b := by
  have ha : 0 < a := lt_of_lt_of_le hb hba
  constructor
  · intro h
    exact ⟨Math.round (x / b), ((round_div_eq_iff ha x _).mp h).1, ((round_div_eq_iff hb x _).mp rfl).2⟩
  · rintro ⟨n, hle, hlt⟩
    have hpos : (0 : ℚ) < n + 1 / 2 := by
      by_contra hneg
      have hmul : ((n : ℚ) + 1 / 2) * b ≤ 0 := mul_nonpos_of_nonpos_of_nonneg (not_lt.mp hneg) hb.le
      linarith
    have hn : (0 : ℤ) ≤ n := by
      have hlt' : (-1 : ℚ) < n := by linarith
      have hcast : (-1 : ℤ) < n := by exact_mod_cast hlt'
      omega
    have habove : x < ((n : ℚ) + 1 / 2) * a := lt_of_lt_of_le hlt (mul_le_mul_of_nonneg_left hba hpos.le)
    have hbelow : ((n : ℚ) - 1 / 2) * b ≤ x := by
      obtain rfl | hone := hn.eq_or_lt
      · have hnonpos : (((0 : ℤ) : ℚ) - 1 / 2) * b ≤ 0 := by
          apply mul_nonpos_of_nonpos_of_nonneg _ hb.le
          norm_num
        exact le_trans hnonpos hx
      · have hhalf : (0 : ℚ) ≤ n - 1 / 2 := by
          have hcast : (1 : ℚ) ≤ n := by exact_mod_cast hone
          linarith
        exact le_trans (mul_le_mul_of_nonneg_left hba hhalf) hle
    rw [(round_div_eq_iff ha x n).mpr ⟨hle, habove⟩, (round_div_eq_iff hb x n).mpr ⟨hbelow, hlt⟩]

end Rounding

/-- No half of a cent lies between the price of the bytes in units of 1024³ and their price in units of 10⁹. -/
def AlikeInUnits (bytes price : ℕ) : Prop :=
  ∃ n : ℤ, ((n : ℚ) - 1 / 2) * (1024 * 1024 * 1024) ≤ bytes * price ∧ (bytes : ℚ) * price < (n + 1 / 2) * 1000000000

theorem alikeInUnits_small {bytes price : ℕ} (h : AlikeInUnits bytes price) : bytes * price < 14500000000 := by
  obtain ⟨n, hle, hlt⟩ := h
  have hn : n < 15 := by
    by_contra hge
    have hcast : (15 : ℚ) ≤ n := by exact_mod_cast not_lt.mp hge
    linarith
  have hcast : (n : ℚ) ≤ 14 := by exact_mod_cast Int.lt_add_one_iff.mp hn
  have hbound : (bytes : ℚ) * price < 14500000000 := by linarith
  exact_mod_cast hbound

theorem storage_alike_iff (bytes price : ℕ) :
    Math.round ((bytes : ℚ) / ((1024 * 1024 * 1024 : ℕ) : ℚ) * price) =
      Math.round ((bytes : ℚ) / BYTES_PER_GB * price) ↔ AlikeInUnits bytes price := by
  have hgreater : ((1024 * 1024 * 1024 : ℕ) : ℚ) = 1024 * 1024 * 1024 := by norm_num
  have hsmaller : (BYTES_PER_GB : ℚ) = 1000000000 := by
    unfold BYTES_PER_GB
    norm_num
  rw [hgreater, hsmaller, div_mul_eq_mul_div, div_mul_eq_mul_div]
  apply round_div_eq_round_div_iff
  · norm_num
  · norm_num
  · positivity

theorem currentCost_iff (usage : UsageMetricsResult) (pricing : PricingConfig) :
    (currentCost usage pricing).invoiced = calculateCost usage pricing ↔
      AlikeInUnits usage.storageBytes pricing.storagePricePerGB ∧
        AlikeInUnits usage.egressBytes pricing.egressPricePerGB := by
  rw [← storage_alike_iff, ← storage_alike_iff]
  constructor
  · intro h
    exact ⟨congrArg (·.costByDriver.storage) h, congrArg (·.costByDriver.egress) h⟩
  · rintro ⟨hstorage, hegress⟩
    unfold currentCost Service.calculateCost calculateCost usageMetrics
    dsimp only
    rw [hstorage, hegress]
    rfl

/-- A row has the amounts of a cost. -/
def Invoice.Holds (invoice : Invoice) (cost : Cost) : Prop :=
  invoice.subtotal = cost.subtotal ∧ invoice.taxAmount = cost.tax ∧ invoice.total = cost.total

instance (invoice : Invoice) (cost : Cost) : Decidable (invoice.Holds cost) := inferInstanceAs (Decidable (_ ∧ _ ∧ _))

/-- The row with the id that a generation returns has the amounts that it returns. -/
def Stored (db : BillingDb) (result : GeneratedInvoice) : Prop :=
  ∃ invoice ∈ db.invoice, invoice.id = result.id ∧ invoice.subtotal = result.subtotal ∧
    invoice.taxAmount = result.taxAmount ∧ invoice.total = result.total

/-- A turn that reads usage and prices computes the cost that the usage route answers of them, and a turn that returns
an invoice leaves its row with the amounts returned. -/
def AmountsAgree (db : BillingDb) (r : Route) (i : BillingTurn) : Prop :=
  ∀ g, r = .generate g →
    (∀ cost, g.state = .start → (generateInvoiceForPeriod db g i).2.state = .costed cost →
      (currentCost i.usage i.pricing).invoiced = cost) ∧
    ∀ result, (∀ before, g.state ≠ .done before) → (generateInvoiceForPeriod db g i).2.state = .done (.ok result) →
      Stored (generateInvoiceForPeriod db g i).1 result

/-- What makes the amounts agree: the usage is alike in both units, and a paid or void row that a generation meets has
the amounts already, as has the row that it reads again. -/
def alike (db : BillingDb) (r : Route) (i : BillingTurn) : Prop :=
  match r with
  | .generate ⟨_, .start⟩ =>
    i.fault = none → AlikeInUnits i.usage.storageBytes i.pricing.storagePricePerGB ∧
      AlikeInUnits i.usage.egressBytes i.pricing.egressPricePerGB
  | .generate ⟨_, .costed cost⟩ =>
    i.fault = none → ∀ invoice ∈ db.invoice, invoice.status.final = true → invoice.Holds cost
  | .generate ⟨_, .skipped cost⟩ => i.fault = none → ∀ invoice ∈ db.invoice, invoice.Holds cost
  | _ => True

section Turns

variable {db : BillingDb} {i : BillingTurn}

theorem stored_generated_iff {invoice : Invoice} (hmem : db.invoice = some invoice) (cost : Cost) (locked : Bool) :
    Stored db (generated invoice.id invoice.status cost locked) ↔ invoice.Holds cost := by
  unfold Stored generated
  rw [hmem]
  constructor
  · rintro ⟨invoice', hinvoice, -, hamounts⟩
    cases hinvoice
    exact hamounts
  · intro hamounts
    exact ⟨invoice, rfl, rfl, hamounts⟩

theorem upsert_stored (g : Generation) (cost : Cost) {result : GeneratedInvoice}
    (hdone : (upsertInvoice db g i cost).2.state = .done (.ok result)) :
    Stored (upsertInvoice db g i cost).1 result := by
  unfold upsertInvoice at hdone ⊢
  cases hinvoice : db.invoice with
  | none =>
    rw [hinvoice] at hdone
    cases hdone
    exact ⟨draftInvoice g i cost, rfl, rfl, rfl, rfl, rfl⟩
  | some invoice =>
    rw [hinvoice] at hdone
    dsimp only at hdone ⊢
    by_cases hfinal : invoice.status.final
    · rw [if_pos hfinal] at hdone
      cases hdone
    · rw [if_neg hfinal] at hdone ⊢
      cases hdone
      exact ⟨refreshed i cost invoice, rfl, rfl, rfl, rfl, rfl⟩

theorem raises_state (db : BillingDb) (g : Generation) {reason : String} (hfault : i.fault = some reason) :
    generateInvoiceForPeriod db g i = (db, g) ∨
      generateInvoiceForPeriod db g i = (db, { g with state := .done (.error reason) }) := by
  obtain ⟨periodEnd, state⟩ := g
  unfold generateInvoiceForPeriod
  rw [hfault]
  cases state with
  | done before => exact .inl rfl
  | start | costed | unlocked | skipped => exact .inr rfl

theorem raises_agrees (g : Generation) {reason : String} (hfault : i.fault = some reason) :
    AmountsAgree db (.generate g) i := by
  intro g' hg'
  cases hg'
  obtain hsame | hended := raises_state db g hfault
  · rw [hsame]
    constructor
    · intro cost hstart hcosted
      rw [hstart] at hcosted
      cases hcosted
    · intro result hopen hdone
      exact absurd hdone (hopen _)
  · rw [hended]
    constructor
    · intro cost _ hcosted
      cases hcosted
    · intro result _ hdone
      cases hdone

theorem generation_agrees_iff (g : Generation) : AmountsAgree db (.generate g) i ↔ alike db (.generate g) i := by
  cases hfault : i.fault with
  | some reason =>
    apply iff_of_true (raises_agrees g hfault)
    obtain ⟨periodEnd, state⟩ := g
    unfold alike
    rw [hfault]
    cases state <;> simp
  | none =>
    obtain ⟨periodEnd, state⟩ := g
    unfold AmountsAgree alike
    simp only [Route.generate.injEq, forall_eq']
    unfold generateInvoiceForPeriod
    rw [hfault]
    cases state with
    | start => simp [currentCost_iff]
    | costed cost =>
      dsimp only
      cases hinvoice : db.invoice with
      | none => simp
      | some invoice =>
        -- a row that is paid or void is returned with the amounts just computed
        by_cases hfinal : invoice.status.final = true
        · simp [hfinal, stored_generated_iff hinvoice]
        · simp [hfinal]
    | unlocked cost =>
      apply iff_of_true _ trivial
      constructor
      · intro priced hstart
        cases hstart
      · intro result _ hdone
        exact upsert_stored _ cost hdone
    | skipped cost =>
      dsimp only
      cases hinvoice : db.invoice with
      | none => simp
      | some invoice => simp [stored_generated_iff hinvoice]
    | done result => simp

theorem route_agrees_iff (db : BillingDb) (r : Route) (i : BillingTurn) : AmountsAgree db r i ↔ alike db r i := by
  cases r with
  | generate g => exact generation_agrees_iff g
  | pay | webhook | provider => exact iff_of_true (fun g hg => by cases hg) trivial

end Turns

/-- In any interleaving of generations, pay requests, webhooks and the provider's reports, what the usage route shows,
what a generation computes and returns, and what the invoice's row has agree if and only if every turn is alike. -/
theorem amounts_agree_iff (x : List Route × BillingDb) (chs : List (ℕ × BillingTurn)) :
    EveryTurn routeStep AmountsAgree x chs ↔ EveryTurn routeStep alike x chs :=
  everyTurn_congr route_agrees_iff chs

namespace Sample

/-- The invoice of the base fee, which is paid. -/
def settled : Invoice where
  id := "i"
  periodEnd := 30
  status := .paid
  subtotal := 999
  taxRate := VAT_RATE
  taxAmount := 210
  total := 1209
  metadata := .mollieInvoiceId 0
  updatedAt := 5

def generation : List Route × BillingDb := ([.generate { periodEnd := 30 }], { invoice := some settled })

/-- A generation reads a hundred gigabytes. -/
def stored : List (ℕ × BillingTurn) := [(0, { now := 6, usage := ⟨100000000000, 100000000000, 0, 0⟩ })]

/-- It reads a hundred hours that came after the payment, and then the invoice. -/
def computed : List (ℕ × BillingTurn) := [(0, { now := 6, usage := ⟨0, 0, 100, 1⟩ }), (0, { now := 6 })]

end Sample

/-- The usage route shows 931 cents for the storage that is invoiced at 1000, and the paid invoice of 1209 cents is
returned with a total of 1814. -/
theorem amounts_differ :
    ¬ EveryTurn routeStep AmountsAgree Sample.generation Sample.stored ∧
      ¬ EveryTurn routeStep AmountsAgree Sample.generation Sample.computed := by
  constructor
  · rintro ⟨hturn, -⟩
    have hcost := (hturn _ rfl _ rfl).1 _ rfl rfl
    have hstorage := congrArg (·.costByDriver.storage) hcost
    exact absurd hstorage (by decide +kernel)
  · rintro ⟨-, hturn, -⟩
    have hopen : ∀ before : Except String GeneratedInvoice,
        GenerationState.costed (calculateCost ⟨0, 0, 100, 1⟩ ⟨999, 10, 20, 5⟩) ≠ .done before := by
      intro before h
      cases h
    obtain ⟨invoice, hmem, -, -, -, htotal⟩ := (hturn _ rfl _ rfl).2 _ hopen rfl
    cases hmem
    exact absurd htotal (by decide +kernel)

end OpenMigrate.Billing
