import Mathlib.Data.List.Infix
import OpenMigrate.Text

namespace OpenMigrate.Dns

section Source

structure Resolver where
  name : String
  url : String
  deriving DecidableEq

/-- Public DNS resolvers for consensus checking (DoH endpoints). -/
def PUBLIC_DNS_RESOLVERS : List Resolver :=
  [⟨"Cloudflare", "https://cloudflare-dns.com/dns-query"⟩, ⟨"Google", "https://dns.google/query"⟩,
    ⟨"Quad9", "https://dns.quad9.net/dns-query"⟩]

inductive DnsRecordType
  | A | AAAA | MX | TXT | CNAME | NS | SOA | SRV | PTR
  deriving DecidableEq

/-- An entry of the JSON field Answer. -/
structure Answer where
  data : Option (List Char)
  rdata : Option (List Char)

/-- What comes of one request: it throws, its status is no success, or its body is read. -/
inductive Response
  | failed (message : Option String)
  | refused (status : ℕ) (statusText : String)
  | answered (answers : List Answer)

/-- What the requests of one check are answered with. -/
abbrev Network := Resolver → List Char → DnsRecordType → Response

structure ResolverResult where
  resolver : String
  success : Bool
  records : List (List Char)
  error : Option String

def text (s : Option (List Char)) : Option (List Char) := s.filter (!·.isEmpty)

def Answer.record (answer : Answer) : Option (List Char) :=
  ((text answer.data).or (text answer.rdata)).map (·.filter (· ≠ '"'))

def queryDoh (fetch : Network) (resolver : Resolver) (domain : List Char) (recordType : DnsRecordType) : ResolverResult :=
  match fetch resolver domain recordType with
  | .failed message => ⟨resolver.name, false, [], some (message.getD "Unknown error")⟩
  | .refused status statusText => ⟨resolver.name, false, [], some ("HTTP " ++ toString status ++ ": " ++ statusText)⟩
  | .answered answers =>
    let records := answers.filterMap Answer.record
    ⟨resolver.name, !records.isEmpty, records, none⟩

structure DnsVerificationResult where
  success : Bool
  recordType : String
  expected : List String
  found : List (List Char)
  missing : List String
  warnings : List String
  resolverResults : List (String × ResolverResult)
  consensus : Bool

/-- The part that the four checks share: all resolvers are asked, and the records of one kind are collected in a set. -/
structure Survey where
  resolverResults : List (String × ResolverResult)
  consensus : Bool
  found : List (List Char)

def survey (fetch : Network) (domain : List Char) (recordType : DnsRecordType) (kind : List Char → Bool) : Survey :=
  let results := PUBLIC_DNS_RESOLVERS.map (queryDoh fetch · domain recordType)
  let successfulResolvers := results.filter (·.success)
  { resolverResults := results.map fun result => (result.resolver, result)
    consensus := 2 ≤ successfulResolvers.length
    found := (successfulResolvers.flatMap (·.records.filter kind)).eraseDups }

def Survey.has (s : Survey) : Bool := 0 < s.found.length

def startsWith (start record : List Char) : Bool := start.isPrefixOf record

def includes (record value : List Char) : Bool := value <:+: record

def isSpf : List Char → Bool := startsWith ['v', '=', 's', 'p', 'f', '1']

def isDkim : List Char → Bool := startsWith ['v', '=', 'D', 'K', 'I', 'M', '1']

def isDmarc : List Char → Bool := startsWith ['v', '=', 'D', 'M', 'A', 'R', 'C', '1']

def verifyMX (fetch : Network) (domain : List Char) : DnsVerificationResult :=
  let s := survey fetch domain .MX fun _ => true
  let success := s.consensus && s.has
  { success := success
    recordType := "MX"
    expected := []
    found := s.found
    missing := if success then [] else ["MX records not found"]
    warnings := if success then [] else ["No MX records"]
    resolverResults := s.resolverResults
    consensus := s.consensus }

def verifySPF (fetch : Network) (domain : List Char) (expectedSender : Option (List Char)) : DnsVerificationResult :=
  let s := survey fetch domain .TXT isSpf
  let sender := text expectedSender
  { success := s.consensus && s.has
    recordType := "SPF"
    expected := sender.elim [] fun sender => ["v=spf1 includes " ++ String.ofList sender]
    found := s.found
    missing := if s.has then [] else ["No SPF record"]
    warnings :=
      if !s.has then
        ["No SPF record found"]
      else
        sender.elim [] fun sender =>
          if s.found.any (includes · sender) then [] else ["Expected sender \"" ++ String.ofList sender ++ "\" not found"]
    resolverResults := s.resolverResults
    consensus := s.consensus }

def dkimDomain (domain selector : List Char) : List Char := selector ++ "._domainkey.".toList ++ domain

def verifyDKIM (fetch : Network) (domain selector : List Char) : DnsVerificationResult :=
  let s := survey fetch (dkimDomain domain selector) .TXT isDkim
  { success := s.consensus && s.has
    recordType := "DKIM"
    expected := ["v=DKIM1"]
    found := s.found
    missing := if s.has then [] else ["No DKIM for " ++ String.ofList selector]
    warnings := if s.has then [] else ["DKIM not configured for " ++ String.ofList selector]
    resolverResults := s.resolverResults
    consensus := s.consensus }

def dmarcDomain (domain : List Char) : List Char := "_dmarc.".toList ++ domain

/-- The first match of `p=(none|quarantine|reject)`. -/
def policy : List Char → Option String
  | [] => none
  | c :: rest =>
    (["none", "quarantine", "reject"].find? fun value => startsWith ('p' :: '=' :: value.toList) (c :: rest)).or (policy rest)

def verifyDMARC (fetch : Network) (domain : List Char) : DnsVerificationResult :=
  let s := survey fetch (dmarcDomain domain) .TXT isDmarc
  { success := s.consensus && s.has
    recordType := "DMARC"
    expected := ["v=DMARC1"]
    found := s.found
    missing := if s.has then [] else ["No DMARC"]
    warnings :=
      if s.has && s.found.head?.bind policy == some "none" then
        ["DMARC policy is \"none\""]
      else if s.has then [] else ["DMARC not configured"]
    resolverResults := s.resolverResults
    consensus := s.consensus }

structure Expected where
  type : String
  value : List Char

/-- One round of `checkPropagation` for one expected record; the checks it calls never throw. -/
def recordFound (fetch : Network) (domain : List Char) (expected : Expected) : Bool :=
  if expected.type = "MX" then
    let result := verifyMX fetch domain
    result.consensus && result.found.any (includes · expected.value)
  else if expected.type = "TXT" then
    let result := verifySPF fetch domain none
    result.consensus && result.found.any (includes · expected.value)
  else
    true

/-- What the requests are answered with, by attempt and by place in the list of expected records. -/
abbrev Rounds := ℕ → ℕ → Network

def allFound (rounds : Rounds) (domain : List Char) (expectedRecords : List Expected) (attempt : ℕ) : Bool :=
  expectedRecords.zipIdx.all fun (expected, i) => recordFound (rounds attempt i) domain expected

/-- The value that is returned, and how many times it has waited for `backoffMs`. -/
structure Polled where
  propagated : Bool
  waits : ℕ
  deriving DecidableEq

/-- The loop from an attempt on, with so many attempts left. -/
def poll (found : ℕ → Bool) (attempt : ℕ) : ℕ → Polled
  | 0 => ⟨false, 0⟩
  | left + 1 =>
    if found attempt then
      ⟨true, 0⟩
    else if left = 0 then
      ⟨false, 0⟩
    else
      let later := poll found (attempt + 1) left
      ⟨later.propagated, later.waits + 1⟩

def checkPropagation (rounds : Rounds) (domain : List Char) (expectedRecords : List Expected) (maxAttempts : ℕ) : Polled :=
  poll (allFound rounds domain expectedRecords) 1 maxAttempts

end Source

section Properties

/-- The resolvers that answer with a record of this sort. -/
def returning (fetch : Network) (domain : List Char) (recordType : DnsRecordType) (sort : List Char → Bool) : List Resolver :=
  PUBLIC_DNS_RESOLVERS.filter fun resolver => (queryDoh fetch resolver domain recordType).records.any sort

def hostName (name : List Char) : List Char := lower (if name.getLast? = some '.' then name.dropLast else name)

/-- The words of a record; the last one of an MX record is its host. -/
def words (record : List Char) : List (List Char) := (record.splitOn ' ').filter (!·.isEmpty)

/-- The record is the expected one: an MX record by the whole name of its host, a text by itself or one of its words. -/
def isMx (value record : List Char) : Bool := (words record).getLast?.map hostName == some (hostName value)

def isText (value record : List Char) : Bool := record == value || (words record).contains value

/-- The resolvers that have returned an expected record; for a type that is never asked for, none has. -/
def returned (fetch : Network) (domain : List Char) (expected : Expected) : List Resolver :=
  if expected.type = "MX" then
    returning fetch domain .MX (isMx expected.value)
  else if expected.type = "TXT" then
    returning fetch domain .TXT (isText expected.value)
  else
    []

/-- A success is never the word of one resolver. -/
structure RealConsensus (fetch : Network) (rounds : Rounds) (domain selector : List Char) (expectedSender : Option (List Char))
    (expectedRecords : List Expected) (maxAttempts : ℕ) : Prop where
  propagation : (checkPropagation rounds domain expectedRecords maxAttempts).propagated = true →
    ∀ i expected, expectedRecords[i]? = some expected →
      2 ≤ (returned (rounds ((checkPropagation rounds domain expectedRecords maxAttempts).waits + 1) i) domain expected).length
  spf : (verifySPF fetch domain expectedSender).success = true → 2 ≤ (returning fetch domain .TXT isSpf).length
  dkim : (verifyDKIM fetch domain selector).success = true →
    2 ≤ (returning fetch (dkimDomain domain selector) .TXT isDkim).length
  dmarc : (verifyDMARC fetch domain).success = true → 2 ≤ (returning fetch (dmarcDomain domain) .TXT isDmarc).length

/-- One resolver alone returns a record of the kind, and another answers with something else. -/
def LoneAnswer (fetch : Network) (domain : List Char) (kind : List Char → Bool) : Prop :=
  (returning fetch domain .TXT kind).length = 1 ∧ 2 ≤ (returning fetch domain .TXT fun _ => true).length

/-- Two resolvers answer, and some answer contains the value. -/
def Convinces (fetch : Network) (domain : List Char) (expected : Expected) : Prop :=
  (expected.type = "MX" → 2 ≤ (returning fetch domain .MX fun _ => true).length ∧
    0 < (returning fetch domain .MX fun record => includes record expected.value).length) ∧
  (expected.type = "TXT" → 2 ≤ (returning fetch domain .TXT fun _ => true).length ∧
    0 < (returning fetch domain .TXT fun record => isSpf record && includes record expected.value).length)

/-- The first attempt in which each expected record convinces. -/
def Decides (rounds : Rounds) (domain : List Char) (expectedRecords : List Expected) (attempt : ℕ) : Prop :=
  (∀ i expected, expectedRecords[i]? = some expected → Convinces (rounds attempt i) domain expected) ∧
    ∀ earlier, 1 ≤ earlier → earlier < attempt →
      ∃ i expected, expectedRecords[i]? = some expected ∧ ¬ Convinces (rounds earlier i) domain expected

end Properties

section Checks

variable {fetch : Network} {rounds : Rounds} {domain selector : List Char} {expectedSender : Option (List Char)}
  {expectedRecords : List Expected} {maxAttempts : ℕ} {recordType : DnsRecordType} {kind : List Char → Bool}

theorem queryDoh_success (resolver : Resolver) :
    (queryDoh fetch resolver domain recordType).success = (queryDoh fetch resolver domain recordType).records.any fun _ => true := by
  rw [queryDoh]
  cases fetch resolver domain recordType with
  | failed message => rfl
  | refused status statusText => rfl
  | answered answers =>
    dsimp only
    cases answers.filterMap Answer.record <;> rfl

theorem successful_eq : (PUBLIC_DNS_RESOLVERS.map (queryDoh fetch · domain recordType)).filter (·.success) =
    (returning fetch domain recordType fun _ => true).map (queryDoh fetch · domain recordType) := by
  rw [List.filter_map, returning]
  congr 2
  funext resolver
  exact queryDoh_success resolver

theorem survey_consensus : (survey fetch domain recordType kind).consensus = true ↔
    2 ≤ (returning fetch domain recordType fun _ => true).length := by
  rw [survey]
  dsimp only
  rw [successful_eq, List.length_map, decide_eq_true_iff]

theorem mem_found {record : List Char} : record ∈ (survey fetch domain recordType kind).found ↔
    kind record = true ∧ ∃ resolver ∈ PUBLIC_DNS_RESOLVERS, record ∈ (queryDoh fetch resolver domain recordType).records := by
  rw [survey]
  dsimp only
  rw [successful_eq, List.mem_eraseDups, List.mem_flatMap]
  constructor
  · rintro ⟨result, hresult, hrecord⟩
    obtain ⟨resolver, hresolver, rfl⟩ := List.mem_map.mp hresult
    obtain ⟨hmem, hkind⟩ := List.mem_filter.mp hrecord
    exact ⟨hkind, resolver, List.mem_of_mem_filter hresolver, hmem⟩
  · rintro ⟨hkind, resolver, hresolver, hmem⟩
    refine ⟨_, List.mem_map_of_mem (List.mem_filter.mpr ⟨hresolver, ?_⟩), List.mem_filter.mpr ⟨hmem, hkind⟩⟩
    exact List.any_eq_true.mpr ⟨record, hmem, rfl⟩

theorem returning_pos : 0 < (returning fetch domain recordType kind).length ↔
    ∃ resolver ∈ PUBLIC_DNS_RESOLVERS, ∃ record ∈ (queryDoh fetch resolver domain recordType).records, kind record = true := by
  rw [List.length_pos_iff_exists_mem]
  apply exists_congr
  intro resolver
  rw [returning, List.mem_filter, List.any_eq_true]

theorem found_any (test : List Char → Bool) : (survey fetch domain recordType kind).found.any test = true ↔
    0 < (returning fetch domain recordType fun record => kind record && test record).length := by
  rw [List.any_eq_true, returning_pos]
  constructor
  · rintro ⟨record, hrecord, htest⟩
    obtain ⟨hkind, resolver, hresolver, hmem⟩ := mem_found.mp hrecord
    exact ⟨resolver, hresolver, record, hmem, Bool.and_eq_true_iff.mpr ⟨hkind, htest⟩⟩
  · rintro ⟨resolver, hresolver, record, hmem, hboth⟩
    obtain ⟨hkind, htest⟩ := Bool.and_eq_true_iff.mp hboth
    exact ⟨record, mem_found.mpr ⟨hkind, resolver, hresolver, hmem⟩, htest⟩

theorem survey_has : (survey fetch domain recordType kind).has = true ↔ 0 < (returning fetch domain recordType kind).length := by
  rw [Survey.has, decide_eq_true_iff, List.length_pos_iff_exists_mem, returning_pos]
  constructor
  · rintro ⟨record, hrecord⟩
    obtain ⟨hkind, resolver, hresolver, hmem⟩ := mem_found.mp hrecord
    exact ⟨resolver, hresolver, record, hmem, hkind⟩
  · rintro ⟨resolver, hresolver, record, hmem, hkind⟩
    exact ⟨record, mem_found.mpr ⟨hkind, resolver, hresolver, hmem⟩⟩

/-- Where a survey succeeds, it has the support of two resolvers unless one of them stands alone. -/
theorem survey_supported : (((survey fetch domain .TXT kind).consensus && (survey fetch domain .TXT kind).has) = true →
    2 ≤ (returning fetch domain .TXT kind).length) ↔ ¬ LoneAnswer fetch domain kind := by
  rw [Bool.and_eq_true, survey_consensus, survey_has, LoneAnswer]
  omega

theorem recordFound_iff (expected : Expected) : recordFound fetch domain expected = true ↔ Convinces fetch domain expected := by
  rw [recordFound, Convinces]
  split
  · rename_i htype
    have hother : ¬ expected.type = "TXT" := by
      rw [htype]
      decide
    rw [verifyMX]
    dsimp only
    rw [Bool.and_eq_true, survey_consensus, found_any]
    exact ⟨fun h => ⟨fun _ => h, fun hText => absurd hText hother⟩, fun h => h.1 htype⟩
  · rename_i htype
    split
    · rename_i hText
      rw [verifySPF]
      dsimp only
      rw [Bool.and_eq_true, survey_consensus, found_any]
      exact ⟨fun h => ⟨fun hMx => absurd hMx htype, fun _ => h⟩, fun h => h.2 hText⟩
    · rename_i hText
      exact iff_of_true rfl ⟨fun hMx => absurd hMx htype, fun h => absurd h hText⟩

theorem allFound_iff (attempt : ℕ) : allFound rounds domain expectedRecords attempt = true ↔
    ∀ i expected, expectedRecords[i]? = some expected → Convinces (rounds attempt i) domain expected := by
  rw [allFound, List.all_eq_true]
  constructor
  · intro h i expected hi
    exact (recordFound_iff expected).mp (h (expected, i) (List.mem_zipIdx_iff_getElem?.mpr hi))
  · rintro h ⟨expected, i⟩ hmem
    exact (recordFound_iff expected).mpr (h i expected (List.mem_zipIdx_iff_getElem?.mp hmem))

theorem poll_true (found : ℕ → Bool) (attempt left k : ℕ) : poll found attempt left = ⟨true, k⟩ ↔
    k < left ∧ found (attempt + k) = true ∧ ∀ j, j < k → found (attempt + j) = false := by
  induction left generalizing attempt k with
  | zero => simp [poll]
  | succ left ih =>
    rw [poll]
    split
    · rename_i hfound
      cases k with
      | zero => simpa using hfound
      | succ k =>
        refine iff_of_false (by simp) ?_
        rintro ⟨-, -, hearlier⟩
        have hfirst := hearlier 0 (Nat.succ_pos k)
        rw [Nat.add_zero, hfound] at hfirst
        cases hfirst
    · rename_i hfound
      have hfalse : found attempt = false := by simpa using hfound
      split
      · rename_i hleft
        refine iff_of_false (by simp) ?_
        rintro ⟨hk, hlast, -⟩
        obtain rfl : k = 0 := by omega
        exact hfound hlast
      · rename_i hleft
        cases k with
        | zero =>
          refine iff_of_false (by simp) ?_
          rintro ⟨-, hlast, -⟩
          exact hfound hlast
        | succ k =>
          have hstep : poll found attempt.succ left = ⟨true, k⟩ ↔ _ := ih attempt.succ k
          have hshift : ∀ j, attempt.succ + j = attempt + (j + 1) := by omega
          constructor
          · intro heq
            have hlater : poll found (attempt + 1) left = ⟨true, k⟩ := by
              cases hpoll : poll found (attempt + 1) left
              simp_all
            obtain ⟨hk, hlast, hearlier⟩ := hstep.mp hlater
            refine ⟨by omega, hshift k ▸ hlast, ?_⟩
            intro j hj
            cases j with
            | zero => exact hfalse
            | succ j => exact hshift j ▸ hearlier j (by omega)
          · rintro ⟨hk, hlast, hearlier⟩
            have hlater : poll found (attempt + 1) left = ⟨true, k⟩ := by
              refine hstep.mpr ⟨by omega, (hshift k).symm ▸ hlast, ?_⟩
              intro j hj
              exact (hshift j).symm ▸ hearlier (j + 1) (by omega)
            rw [hlater]

theorem checkPropagation_decides {attempt : ℕ} :
    checkPropagation rounds domain expectedRecords maxAttempts = ⟨true, attempt⟩ ↔
      attempt < maxAttempts ∧ Decides rounds domain expectedRecords (attempt + 1) := by
  rw [checkPropagation, poll_true, Decides, Nat.add_comm 1 attempt, allFound_iff]
  apply and_congr_right
  intro hattempt
  apply and_congr_right
  intro hfound
  constructor
  · intro hearlier earlier hone hless
    have hfalse := hearlier (earlier - 1) (by omega)
    rw [show 1 + (earlier - 1) = earlier by omega, ← Bool.not_eq_true, allFound_iff] at hfalse
    push Not at hfalse
    exact hfalse
  · intro hearlier j hj
    obtain ⟨i, expected, hi, hnot⟩ := hearlier (1 + j) (by omega) (by omega)
    rw [← Bool.not_eq_true, allFound_iff]
    exact fun h => hnot (h i expected hi)

theorem realConsensus_iff : RealConsensus fetch rounds domain selector expectedSender expectedRecords maxAttempts ↔
    (∀ attempt, 1 ≤ attempt → attempt ≤ maxAttempts → Decides rounds domain expectedRecords attempt →
      ∀ i expected, expectedRecords[i]? = some expected → 2 ≤ (returned (rounds attempt i) domain expected).length) ∧
    ¬ LoneAnswer fetch domain isSpf ∧ ¬ LoneAnswer fetch (dkimDomain domain selector) isDkim ∧
      ¬ LoneAnswer fetch (dmarcDomain domain) isDmarc := by
  constructor
  · intro h
    refine ⟨?_, survey_supported.mp h.spf, survey_supported.mp h.dkim, survey_supported.mp h.dmarc⟩
    intro attempt hone hmax hdecides i expected hi
    have hpolled : checkPropagation rounds domain expectedRecords maxAttempts = ⟨true, attempt - 1⟩ :=
      checkPropagation_decides.mpr ⟨by omega, (Nat.sub_add_cancel hone).symm ▸ hdecides⟩
    have hreturned := h.propagation (congrArg Polled.propagated hpolled) i expected hi
    rw [hpolled, Nat.sub_add_cancel hone] at hreturned
    exact hreturned
  · rintro ⟨hpropagation, hspf, hdkim, hdmarc⟩
    refine ⟨?_, survey_supported.mpr hspf, survey_supported.mpr hdkim, survey_supported.mpr hdmarc⟩
    intro htrue i expected hi
    obtain ⟨hless, hdecides⟩ := checkPropagation_decides.mp (show checkPropagation rounds domain expectedRecords maxAttempts =
      ⟨true, (checkPropagation rounds domain expectedRecords maxAttempts).waits⟩ by rw [← htrue])
    exact hpropagation _ (Nat.succ_pos _) hless hdecides i expected hi

end Checks

section Examples

/-- Cloudflare has the new mail host, Google still has the old one, Quad9 gives no answer. -/
def Sample.fetch : Network := fun resolver _ recordType =>
  if recordType = .MX then
    if resolver.name = "Cloudflare" then
      .answered [⟨some ['1', ' ', 'n', 'e', 'w'], none⟩]
    else if resolver.name = "Google" then
      .answered [⟨some ['1', ' ', 'o', 'l', 'd'], none⟩]
    else
      .failed none
  else
    .answered []

theorem Sample.one_resolver_suffices :
    ¬ RealConsensus Sample.fetch (fun _ _ => Sample.fetch) ['d'] ['s'] none [⟨"MX", ['n', 'e', 'w']⟩] 1 := by
  intro h
  have hreturned := h.propagation (by decide) 0 ⟨"MX", ['n', 'e', 'w']⟩ rfl
  revert hreturned
  decide

end Examples

end OpenMigrate.Dns
