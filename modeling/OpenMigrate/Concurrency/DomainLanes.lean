import OpenMigrate.Concurrency.Lanes

namespace OpenMigrate.Lanes

section Source

inductive SyncDomain where
  | email
  | calendar
  | contact
  | file
  deriving DecidableEq

/-- What `endpointHost` reads of the configuration of a source or a target. -/
structure Endpoint where
  url : Option String := none
  baseUrl : Option String := none
  host : Option String := none

structure DomainConfig where
  source : Option Endpoint := none
  target : Option Endpoint := none

structure DomainsConfig where
  mail : Option DomainConfig := none
  calendar : Option DomainConfig := none
  contacts : Option DomainConfig := none
  files : Option DomainConfig := none

structure MappingConfig where
  source : Endpoint
  target : Endpoint
  domains : Option DomainsConfig := none

-- `new URL(raw).host`, unless that throws
variable (hostOfUrl : String → Option String)

def endpointHost (e : Endpoint) : Option String :=
  match (e.url.or e.baseUrl).filter (· ≠ "") with
  | some raw => hostOfUrl raw
  | none => e.host

def configFor (config : MappingConfig) : SyncDomain → Option DomainConfig
  | .email => config.domains.bind DomainsConfig.mail
  | .calendar => config.domains.bind DomainsConfig.calendar
  | .contact => config.domains.bind DomainsConfig.contacts
  | .file => config.domains.bind DomainsConfig.files

def sourceHost (config : MappingConfig) (domain : SyncDomain) : Option String :=
  endpointHost hostOfUrl (((configFor config domain).bind DomainConfig.source).getD config.source)

def targetHost (config : MappingConfig) (domain : SyncDomain) : Option String :=
  endpointHost hostOfUrl (((configFor config domain).bind DomainConfig.target).getD config.target)

def hosts (config : MappingConfig) (domain : SyncDomain) : List String :=
  [sourceHost hostOfUrl config domain, targetHost hostOfUrl config domain].filterMap id

def planDomainLanes (config : MappingConfig) (domains : List SyncDomain) : List (List SyncDomain) :=
  planLanes (hosts hostOfUrl config) domains

end Source

section Components

open Relation

variable {D H : Type} {hostsOf : D → List H} {domains : List D} {a b f d : D}

def Shares (hostsOf : D → List H) (a b : D) : Prop := ∃ h ∈ hostsOf a, h ∈ hostsOf b

/-- A chain of domains of the list, each of which shares a host with the next. -/
def Chain (hostsOf : D → List H) (domains : List D) : D → D → Prop :=
  ReflTransGen fun a b => a ∈ domains ∧ b ∈ domains ∧ Shares hostsOf a b

/-- The lanes are the components of the list: a partition of it, in the caller's order within each lane. -/
structure Components (hostsOf : D → List H) (domains : List D) (lanes : List (List D)) : Prop where
  perm : lanes.flatten.Perm domains
  nonempty : ∀ lane ∈ lanes, lane ≠ []
  connected : ∀ a ∈ domains, ∀ b ∈ domains,
    (∃ lane ∈ lanes, a ∈ lane ∧ b ∈ lane) ↔ Chain hostsOf domains a b
  apart : lanes.Pairwise fun lane lane' => ∀ a ∈ lane, ∀ b ∈ lane', ¬ Shares hostsOf a b
  order : ∀ lane ∈ lanes, lane.Sublist domains

theorem Chain.joined (h : Chain hostsOf domains a b) : Joined hostsOf domains a b := by
  refine ReflTransGen.mono ?_ _ _ h
  rintro x y ⟨hx, hy, host, hhost, hhost'⟩
  exact ⟨hx, hy, .shares hhost hhost'⟩

theorem Joined.chain (hplaced : ∀ d ∈ domains, hostsOf d ≠ []) (h : Joined hostsOf domains a b) :
    Chain hostsOf domains a b := by
  refine ReflTransGen.mono ?_ _ _ h
  rintro x y ⟨hx, hy, hjoins⟩
  cases hjoins with
  | shares hhost hhost' => exact ⟨hx, hy, _, hhost, hhost'⟩
  | left hnone _ => exact absurd hnone (hplaced x hx)
  | right _ hnone => exact absurd hnone (hplaced y hy)

theorem joined_first (hf : domains.head? = some f) (h : Joined hostsOf domains f d) :
    hostsOf d = [] ∨ Chain hostsOf domains f d := by
  induction h with
  | refl => exact .inr .refl
  | @tail x y _ hstep ih =>
    obtain ⟨hx, hy, hjoins⟩ := hstep
    cases hjoins with
    | shares hhost hhost' =>
      obtain hnone | hchain := ih
      · rw [hnone] at hhost
        cases hhost
      · exact .inr (hchain.tail ⟨hx, hy, _, hhost, hhost'⟩)
    | left _ hfirst =>
      obtain rfl : y = f := Option.some.inj (hfirst.symm.trans hf)
      exact .inr .refl
    | right _ hnone => exact .inl hnone

end Components

section Domains

variable {hostOfUrl : String → Option String} {config : MappingConfig} {domains : List SyncDomain}

theorem hosts_eq_nil {d : SyncDomain} : hosts hostOfUrl config d = [] ↔
    sourceHost hostOfUrl config d = none ∧ targetHost hostOfUrl config d = none := by
  rw [hosts]
  cases sourceHost hostOfUrl config d <;> cases targetHost hostOfUrl config d <;> simp

theorem planDomainLanes_components (hnodup : domains.Nodup)
    (hknown : ∀ d ∈ domains,
      (sourceHost hostOfUrl config d).isSome = true ∨ (targetHost hostOfUrl config d).isSome = true) :
    Components (hosts hostOfUrl config) domains (planDomainLanes hostOfUrl config domains) := by
  have hplaced : ∀ d ∈ domains, hosts hostOfUrl config d ≠ [] := by
    intro d hd hnone
    obtain ⟨hsource, htarget⟩ := hosts_eq_nil.mp hnone
    obtain h | h := hknown d hd
    · rw [hsource] at h
      cases h
    · rw [htarget] at h
      cases h
  refine ⟨planLanes_perm _ _, fun lane hlane => (mem_planLanes.mp hlane).1, ?_, ?_, fun lane => planLanes_order hnodup⟩
  · intro a ha b _
    exact (same_lane_iff ha).trans ⟨Joined.chain hplaced, Chain.joined⟩
  · apply (planLanes_apart (hosts hostOfUrl config) domains).imp
    rintro lane lane' h a ha b hb ⟨host, hhost, hhost'⟩
    exact h a ha b hb host hhost hhost'

/-- One of the hosts of the domain is not known. -/
def Unknown (hostOfUrl : String → Option String) (config : MappingConfig) (d : SyncDomain) : Prop :=
  sourceHost hostOfUrl config d = none ∨ targetHost hostOfUrl config d = none

/-- Every domain with a host that is not known shares its lane with all the others. -/
def RunsAlone (hostOfUrl : String → Option String) (config : MappingConfig) (domains : List SyncDomain) : Prop :=
  ∀ d ∈ domains, Unknown hostOfUrl config d → ∀ d' ∈ domains,
    ∃ lane ∈ planDomainLanes hostOfUrl config domains, d ∈ lane ∧ d' ∈ lane

/-- A domain whose hosts cannot all be named shares its lane with the others exactly if there is none, or all domains
with hosts hang together with the first of the list. -/
theorem runsAlone_iff (hostOfUrl : String → Option String) (config : MappingConfig) (domains : List SyncDomain) :
    RunsAlone hostOfUrl config domains ↔
      (∀ d ∈ domains, ¬ Unknown hostOfUrl config d) ∨
        ∀ f ∈ domains.head?, ∀ d ∈ domains,
          hosts hostOfUrl config d = [] ∨ Chain (hosts hostOfUrl config) domains f d := by
  constructor
  · intro h
    by_cases hunknown : ∃ u ∈ domains, Unknown hostOfUrl config u
    · right
      obtain ⟨u, hu, hnot⟩ := hunknown
      intro f hf d hd
      have hjoined : ∀ d' ∈ domains, Joined (hosts hostOfUrl config) domains u d' :=
        fun d' hd' => (same_lane_iff hu).mp (h u hu hnot d' hd')
      exact joined_first hf ((hjoined f (List.mem_of_mem_head? hf)).symm.trans (hjoined d hd))
    · left
      intro d hd hnot
      exact hunknown ⟨d, hd, hnot⟩
  · rintro (hknown | hall) d hd hnot d' hd'
    · exact absurd hnot (hknown d hd)
    · obtain ⟨f, rest, rfl⟩ := List.exists_cons_of_ne_nil (List.ne_nil_of_mem hd)
      have hjoined : ∀ e ∈ f :: rest, Joined (hosts hostOfUrl config) (f :: rest) f e := by
        intro e he
        obtain hnone | hchain := hall f rfl e he
        · exact .single ⟨List.mem_cons_self, he, .right rfl hnone⟩
        · exact hchain.joined
      exact (same_lane_iff hd).mpr ((hjoined d hd).symm.trans (hjoined d' hd'))

end Domains

namespace Sample

/-- The host is what the URL says. -/
def hostOfUrl (url : String) : Option String := some url

/-- Mail goes from one server to another, calendars from a file to the second server, and contacts elsewhere. -/
def config : MappingConfig where
  source := { host := some "imap.a" }
  target := { host := some "imap.b" }
  domains := some
    { calendar := some { source := some {}, target := some { host := some "dav.c" } }
      contacts := some { source := some { host := some "dav.d" }, target := some { host := some "dav.c" } } }

theorem two_lanes : Components (hosts hostOfUrl config) [.email, .contact]
    (planDomainLanes hostOfUrl config [.email, .contact]) := by
  apply planDomainLanes_components (by decide)
  intro d hd
  obtain rfl | hd := List.mem_cons.mp hd
  · exact .inl rfl
  · obtain rfl := List.mem_singleton.mp hd
    exact .inl rfl

/-- The calendar's source has no host that is known, and it runs beside the mail. -/
theorem unknown_beside : ¬ RunsAlone hostOfUrl config [.email, .calendar] := by
  intro h
  obtain ⟨lane, hlane, hcalendar, hemail⟩ := h .calendar (by decide) (.inl rfl) .email (by decide)
  have hlanes : planDomainLanes hostOfUrl config [.email, .calendar] = [[.email], [.calendar]] := by decide
  rw [hlanes] at hlane
  obtain rfl | hlane := List.mem_cons.mp hlane
  · exact absurd hcalendar (by decide)
  · obtain rfl := List.mem_singleton.mp hlane
    exact absurd hemail (by decide)

end Sample

end OpenMigrate.Lanes
