import Mathlib.Data.List.Dedup
import Mathlib.Data.List.Perm.Basic
import Mathlib.Data.List.Sort
import Mathlib.Logic.Relation
import Mathlib.Order.Lattice
import Mathlib.Tactic.Common

namespace OpenMigrate.Lanes

universe u v

variable {D : Type u} {H : Type v}

section Source

variable [DecidableEq D] [DecidableEq H]

/-- The lanes so far, and the number of the lane that has claimed a host. -/
structure Plan (D : Type u) (H : Type v) where
  laneOfHost : H → Option ℕ
  lanes : List (List D)

def Plan.empty : Plan D H := ⟨fun _ => none, []⟩

def renumber (lane other i : ℕ) : ℕ := if i = other then lane else if other < i then i - 1 else i

/-- One lane is merged into another, and the lanes behind it are numbered anew. -/
def Plan.merge (lane : ℕ) (plan : Plan D H) (other : ℕ) : Plan D H where
  laneOfHost h := (plan.laneOfHost h).map (renumber lane other)
  lanes := (plan.lanes.modify lane (· ++ (plan.lanes[other]?).getD [])).eraseIdx other

def Plan.push (plan : Plan D H) (lane : ℕ) (domain : D) (hosts : List H) : Plan D H where
  laneOfHost h := if h ∈ hosts then some lane else plan.laneOfHost h
  lanes := plan.lanes.modify lane (· ++ [domain])

/-- The lanes that the hosts of a domain are claimed by, or the first lane for a domain without hosts. -/
def Plan.unique (plan : Plan D H) (hosts : List H) : List ℕ :=
  (if hosts = [] then [0] else hosts.filterMap plan.laneOfHost).dedup.insertionSort (· ≤ ·)

def Plan.place (plan : Plan D H) (domain : D) (hosts : List H) : Plan D H :=
  let opened := if hosts = [] ∧ plan.lanes = [] then { plan with lanes := [[]] } else plan
  match opened.unique hosts with
  | [] => { opened with lanes := opened.lanes ++ [[]] }.push opened.lanes.length domain hosts
  | lane :: others => (others.reverse.foldl (Plan.merge lane) opened).push lane domain hosts

/-- The last place of a domain in the list. -/
def rank (domains : List D) (d : D) : ℕ := domains.length - 1 - domains.reverse.idxOf d

def planLanes (hostsOf : D → List H) (domains : List D) : List (List D) :=
  ((domains.foldl (fun plan d => plan.place d (hostsOf d)) Plan.empty).lanes.map fun lane =>
    lane.insertionSort fun a b => rank domains a ≤ rank domains b).filter (· ≠ [])

end Source

section Sound

open Relation

variable {hostsOf : D → List H} {domains done : List D} {plan : Plan D H} {d : D} {lane other : ℕ} {others : List ℕ}
  {O : List D}

/-- Two domains that share a host, or a domain without hosts and the first of the list. -/
inductive Joins (hostsOf : D → List H) (domains : List D) (a b : D) : Prop where
  | shares {h : H} (ha : h ∈ hostsOf a) (hb : h ∈ hostsOf b)
  | left (ha : hostsOf a = []) (hb : domains.head? = some b)
  | right (ha : domains.head? = some a) (hb : hostsOf b = [])

/-- A chain of domains of the list, each joined with the next. -/
def Joined (hostsOf : D → List H) (domains : List D) : D → D → Prop :=
  ReflTransGen fun a b => a ∈ domains ∧ b ∈ domains ∧ Joins hostsOf domains a b

theorem Joins.symm {a b : D} (h : Joins hostsOf domains a b) : Joins hostsOf domains b a := by
  cases h with
  | shares ha hb => exact .shares hb ha
  | left ha hb => exact .right hb ha
  | right ha hb => exact .left hb ha

theorem Joined.symm {a b : D} (h : Joined hostsOf domains a b) : Joined hostsOf domains b a := by
  induction h with
  | refl => exact .refl
  | tail _ hstep ih =>
    obtain ⟨ha, hb, hjoins⟩ := hstep
    exact .head ⟨hb, ha, hjoins.symm⟩ ih

/-- The domains placed so far lie in the lanes, each host with the lane that has claimed it, and domains of one lane
are joined. -/
structure Plan.Sound (hostsOf : D → List H) (domains done : List D) (plan : Plan D H) : Prop where
  perm : plan.lanes.flatten.Perm done
  claimed : ∀ i lane, plan.lanes[i]? = some lane → ∀ a ∈ lane, ∀ h ∈ hostsOf a, plan.laneOfHost h = some i
  claims : ∀ h i, plan.laneOfHost h = some i → ∃ lane, plan.lanes[i]? = some lane ∧ ∃ a ∈ lane, h ∈ hostsOf a
  joined : ∀ lane ∈ plan.lanes, ∀ a ∈ lane, ∀ b ∈ lane, Joined hostsOf domains a b
  first : ∀ f ∈ done.head?, ∃ lane, plan.lanes[0]? = some lane ∧ f ∈ lane
  unplaced : ∀ i lane, plan.lanes[i]? = some lane → ∀ a ∈ lane, hostsOf a = [] → i = 0

theorem flatten_modify {lanes : List (List D)} {lane : List D} {i : ℕ} (h : lanes[i]? = some lane) (ds : List D) :
    (lanes.modify i (· ++ ds)).flatten.Perm (lanes.flatten ++ ds) := by
  induction lanes generalizing i with
  | nil => cases h
  | cons first rest ih =>
    cases i with
    | zero =>
      rw [List.modify_zero_cons, List.flatten_cons, List.flatten_cons, List.append_assoc, List.append_assoc]
      exact List.Perm.append_left _ List.perm_append_comm
    | succ i =>
      rw [List.modify_succ_cons, List.flatten_cons, List.flatten_cons, List.append_assoc]
      exact List.Perm.append_left _ (ih h)

theorem flatten_eraseIdx {lanes : List (List D)} {lane : List D} {i : ℕ} (h : lanes[i]? = some lane) :
    ((lanes.eraseIdx i).flatten ++ lane).Perm lanes.flatten := by
  induction lanes generalizing i with
  | nil => cases h
  | cons first rest ih =>
    cases i with
    | zero =>
      cases h
      rw [List.eraseIdx_cons_zero, List.flatten_cons]
      exact List.perm_append_comm
    | succ i =>
      rw [List.eraseIdx_cons_succ, List.flatten_cons, List.flatten_cons, List.append_assoc]
      exact List.Perm.append_left _ (ih h)

theorem getElem?_push {lanes : List (List D)} (i : ℕ) (ds : List D) (j : ℕ) :
    (lanes.modify i (· ++ ds))[j]? = if j = i then lanes[i]?.map (· ++ ds) else lanes[j]? := by
  by_cases h : j = i
  · subst h
    simp
  · rw [if_neg h, List.getElem?_modify]
    simp [Ne.symm h]

theorem renumber_other (lane other : ℕ) : renumber lane other other = lane := if_pos rfl

theorem renumber_lt {i : ℕ} (h : i < other) : renumber lane other i = i := by
  rw [renumber, if_neg (by omega), if_neg (by omega)]

theorem renumber_gt {i : ℕ} (h : other < i) : renumber lane other i = i - 1 := by
  rw [renumber, if_neg (by omega), if_pos h]

theorem merge_lanes (hlt : lane < other) (hother : plan.lanes[other]? = some O) (i : ℕ) :
    (plan.merge lane other).lanes[renumber lane other i]? =
      if i = lane ∨ i = other then plan.lanes[lane]?.map (· ++ O) else plan.lanes[i]? := by
  rw [Plan.merge, List.getElem?_eraseIdx, hother, Option.getD_some]
  obtain hi | rfl | hi := lt_trichotomy i other
  · rw [renumber_lt hi, if_pos hi, getElem?_push]
    by_cases hlane : i = lane
    · rw [if_pos hlane, if_pos (.inl hlane)]
    · rw [if_neg hlane, if_neg (by omega)]
  · rw [renumber_other, if_pos hlt, getElem?_push, if_pos rfl, if_pos (.inr rfl)]
  · have hback : i - 1 + 1 = i := by omega
    rw [renumber_gt hi, if_neg (by omega), hback, getElem?_push, if_neg (by omega), if_neg (by omega)]

theorem renumber_surjective (lane other j : ℕ) : ∃ i, renumber lane other i = j ∧ i ≠ other := by
  by_cases hj : j < other
  · exact ⟨j, renumber_lt hj, by omega⟩
  · exact ⟨j + 1, renumber_gt (by omega), by omega⟩

theorem merge_host (h : H) :
    (plan.merge lane other).laneOfHost h = (plan.laneOfHost h).map (renumber lane other) := rfl

theorem flatten_merge {L : List D} (hlt : lane < other) (hlane : plan.lanes[lane]? = some L)
    (hother : plan.lanes[other]? = some O) : (plan.merge lane other).lanes.flatten.Perm plan.lanes.flatten := by
  have hkept : (plan.lanes.modify lane (· ++ O))[other]? = some O := by
    rw [getElem?_push, if_neg (by omega), hother]
  apply (List.perm_append_right_iff O).mp
  rw [Plan.merge, hother, Option.getD_some]
  exact (flatten_eraseIdx hkept).trans (flatten_modify hlane O)

theorem Plan.Sound.merge (h : plan.Sound hostsOf domains done) (hlt : lane < other) {L : List D}
    (hlane : plan.lanes[lane]? = some L) (hother : plan.lanes[other]? = some O)
    (hjoined : ∀ a ∈ L, ∀ b ∈ O, Joined hostsOf domains a b) : (plan.merge lane other).Sound hostsOf domains done := by
  have hlanes := merge_lanes hlt hother
  rw [hlane, Option.map_some] at hlanes
  have hkept : ∀ (i : ℕ) (K : List D), plan.lanes[i]? = some K →
      ∃ K' : List D, (plan.merge lane other).lanes[renumber lane other i]? = some K' ∧ K ⊆ K' := by
    intro i K hK
    rw [hlanes]
    split
    · rename_i hi
      refine ⟨L ++ O, rfl, ?_⟩
      obtain rfl | rfl := hi
      · rw [hlane] at hK
        cases hK
        exact List.subset_append_left _ _
      · rw [hother] at hK
        cases hK
        exact List.subset_append_right _ _
    · exact ⟨K, hK, List.Subset.refl _⟩
  have hfrom : ∀ j K', (plan.merge lane other).lanes[j]? = some K' →
      j = lane ∧ K' = L ++ O ∨ ∃ i, renumber lane other i = j ∧ plan.lanes[i]? = some K' := by
    intro j K' hK'
    obtain ⟨i, rfl, hi⟩ := renumber_surjective lane other j
    rw [hlanes] at hK'
    by_cases hself : i = lane
    · subst hself
      rw [if_pos (.inl rfl)] at hK'
      exact .inl ⟨renumber_lt hlt, (Option.some.inj hK').symm⟩
    · rw [if_neg (by omega)] at hK'
      exact .inr ⟨i, rfl, hK'⟩
  refine ⟨(flatten_merge hlt hlane hother).trans h.perm, ?_, ?_, ?_, ?_, ?_⟩
  · intro j K' hK' a ha host hhost
    obtain ⟨rfl, rfl⟩ | ⟨i, rfl, hi⟩ := hfrom j K' hK'
    · obtain ha | ha := List.mem_append.mp ha
      · rw [merge_host, h.claimed j L hlane a ha host hhost, Option.map_some, renumber_lt hlt]
      · rw [merge_host, h.claimed other O hother a ha host hhost, Option.map_some, renumber_other]
    · rw [merge_host, h.claimed i K' hi a ha host hhost, Option.map_some]
  · intro host j hj
    obtain ⟨i, hi, rfl⟩ := Option.map_eq_some_iff.mp hj
    obtain ⟨K, hK, a, ha, hhost⟩ := h.claims host i hi
    obtain ⟨K', hK', hsub⟩ := hkept i K hK
    exact ⟨K', hK', a, hsub ha, hhost⟩
  · intro K' hK' a ha b hb
    obtain ⟨j, hj⟩ := List.mem_iff_getElem?.mp hK'
    obtain ⟨-, rfl⟩ | ⟨i, -, hi⟩ := hfrom j K' hj
    · obtain ha | ha := List.mem_append.mp ha <;> obtain hb | hb := List.mem_append.mp hb
      · exact h.joined L (List.mem_of_getElem? hlane) a ha b hb
      · exact hjoined a ha b hb
      · exact (hjoined b hb a ha).symm
      · exact h.joined O (List.mem_of_getElem? hother) a ha b hb
    · exact h.joined K' (List.mem_of_getElem? hi) a ha b hb
  · intro f hf
    obtain ⟨K, hK, hmem⟩ := h.first f hf
    obtain ⟨K', hK', hsub⟩ := hkept 0 K hK
    rw [renumber_lt (by omega)] at hK'
    exact ⟨K', hK', hsub hmem⟩
  · intro j K' hK' a ha hnone
    obtain ⟨rfl, rfl⟩ | ⟨i, rfl, hi⟩ := hfrom j K' hK'
    · obtain ha | ha := List.mem_append.mp ha
      · exact h.unplaced j L hlane a ha hnone
      · have hzero := h.unplaced other O hother a ha hnone
        omega
    · rw [h.unplaced i K' hi a ha hnone, renumber_lt (by omega)]

/-- The lanes that a domain meets: one, and others behind it that are to be merged into it, the last first. -/
structure Plan.Met (hostsOf : D → List H) (domains : List D) (plan : Plan D H) (lane : ℕ) (others : List ℕ) (d : D)
    (hosts : List H) : Prop where
  descending : others.Pairwise (· > ·)
  behind : ∀ other ∈ others, lane < other
  found : ∀ i ∈ lane :: others, ∃ K, plan.lanes[i]? = some K ∧ ∀ a ∈ K, Joined hostsOf domains a d
  claimed : ∀ h ∈ hosts, ∀ i, plan.laneOfHost h = some i → i ∈ lane :: others

theorem Plan.Met.merge {hosts : List H} (h : plan.Sound hostsOf domains done)
    (hmet : plan.Met hostsOf domains lane (other :: others) d hosts) :
    (plan.merge lane other).Sound hostsOf domains done ∧
      (plan.merge lane other).Met hostsOf domains lane others d hosts := by
  have hlt := hmet.behind other List.mem_cons_self
  have hless : ∀ i ∈ others, i < other := (List.pairwise_cons.mp hmet.descending).1
  obtain ⟨L, hlane, hL⟩ := hmet.found lane List.mem_cons_self
  obtain ⟨O, hother, hO⟩ := hmet.found other (List.mem_cons_of_mem _ List.mem_cons_self)
  have hlanes := merge_lanes hlt hother
  rw [hlane, Option.map_some] at hlanes
  refine ⟨h.merge hlt hlane hother fun a ha b hb => (hL a ha).trans (hO b hb).symm, ?_⟩
  refine ⟨(List.pairwise_cons.mp hmet.descending).2, fun o ho => hmet.behind o (List.mem_cons_of_mem _ ho), ?_, ?_⟩
  · intro i hi
    have hsmall : i < other := by
      obtain rfl | hi := List.mem_cons.mp hi
      · exact hlt
      · exact hless i hi
    have hat := hlanes i
    rw [renumber_lt hsmall] at hat
    by_cases hself : i = lane
    · rw [if_pos (.inl hself)] at hat
      refine ⟨L ++ O, hat, fun a ha => ?_⟩
      obtain ha | ha := List.mem_append.mp ha
      · exact hL a ha
      · exact hO a ha
    · rw [if_neg (by omega)] at hat
      rw [hat]
      apply hmet.found i
      obtain rfl | hi := List.mem_cons.mp hi
      · exact absurd rfl hself
      · exact List.mem_cons_of_mem _ (List.mem_cons_of_mem _ hi)
  · intro host hhost i hi
    obtain ⟨j, hj, rfl⟩ := Option.map_eq_some_iff.mp hi
    obtain rfl | hj := List.mem_cons.mp (hmet.claimed host hhost j hj)
    · rw [renumber_lt hlt]
      exact List.mem_cons_self
    · obtain rfl | hj := List.mem_cons.mp hj
      · rw [renumber_other]
        exact List.mem_cons_self
      · rw [renumber_lt (hless j hj)]
        exact List.mem_cons_of_mem _ hj

theorem Plan.Met.merge_all {hosts : List H} (h : plan.Sound hostsOf domains done)
    (hmet : plan.Met hostsOf domains lane others d hosts) :
    (others.foldl (Plan.merge lane) plan).Sound hostsOf domains done ∧
      (others.foldl (Plan.merge lane) plan).Met hostsOf domains lane [] d hosts := by
  induction others generalizing plan with
  | nil => exact ⟨h, hmet⟩
  | cons other others ih =>
    obtain ⟨hsound, hmet⟩ := hmet.merge h
    exact ih hsound hmet

theorem Plan.Sound.opened (h : plan.Sound hostsOf domains done) :
    ({ plan with lanes := plan.lanes ++ [[]] } : Plan D H).Sound hostsOf domains done := by
  have hold : ∀ (i : ℕ) (K : List D), (plan.lanes ++ [[]])[i]? = some K → K = [] ∨ plan.lanes[i]? = some K := by
    intro i K hK
    rw [List.getElem?_append] at hK
    split at hK
    · exact .inr hK
    · exact .inl (List.mem_singleton.mp (List.mem_of_getElem? hK))
  have hkept : ∀ (i : ℕ) (K : List D), plan.lanes[i]? = some K → (plan.lanes ++ [[]])[i]? = some K := by
    intro i K hK
    rw [List.getElem?_append_left (List.getElem?_eq_some_iff.mp hK).1, hK]
  refine ⟨?_, ?_, ?_, ?_, ?_, ?_⟩
  · rw [List.flatten_append]
    simpa using h.perm
  · intro i K hK a ha
    obtain rfl | hK := hold i K hK
    · cases ha
    · exact h.claimed i K hK a ha
  · intro host i hi
    obtain ⟨K, hK, ha⟩ := h.claims host i hi
    exact ⟨K, hkept i K hK, ha⟩
  · intro K hK a ha
    obtain hK | hK := List.mem_append.mp hK
    · exact h.joined K hK a ha
    · rw [List.mem_singleton.mp hK] at ha
      cases ha
  · intro f hf
    obtain ⟨K, hK, hmem⟩ := h.first f hf
    exact ⟨K, hkept 0 K hK, hmem⟩
  · intro i K hK a ha
    obtain rfl | hK := hold i K hK
    · cases ha
    · exact h.unplaced i K hK a ha

theorem mem_unique (plan : Plan D H) (hosts : List H) (i : ℕ) :
    i ∈ plan.unique hosts ↔ hosts = [] ∧ i = 0 ∨ hosts ≠ [] ∧ ∃ h ∈ hosts, plan.laneOfHost h = some i := by
  rw [Plan.unique, List.mem_insertionSort, List.mem_dedup]
  split
  · simp_all
  · rw [List.mem_filterMap]
    simp_all

theorem unique_sorted {hosts : List H} (h : plan.unique hosts = lane :: others) :
    others.reverse.Pairwise (· > ·) ∧ ∀ other ∈ others, lane < other := by
  have hnodup : (lane :: others).Nodup := by
    rw [← h]
    exact (List.perm_insertionSort _ _).nodup_iff.mpr (List.nodup_dedup _)
  have hsorted : (lane :: others).Pairwise (· ≤ ·) := by
    rw [← h]
    exact List.pairwise_insertionSort _ _
  have hlt : (lane :: others).Pairwise (· < ·) := by
    apply (hsorted.and hnodup).imp
    rintro a b ⟨hle, hne⟩
    exact lt_of_le_of_ne hle hne
  obtain ⟨hbehind, hothers⟩ := List.pairwise_cons.mp hlt
  exact ⟨List.pairwise_reverse.mpr hothers, hbehind⟩

variable [DecidableEq H]

theorem Plan.Sound.push (h : plan.Sound hostsOf domains done) (hfirst : done = [] ∨ hostsOf d = [] → lane = 0)
    (hmet : plan.Met hostsOf domains lane [] d (hostsOf d)) :
    (plan.push lane d (hostsOf d)).Sound hostsOf domains (done ++ [d]) := by
  obtain ⟨L, hlane, hL⟩ := hmet.found lane List.mem_cons_self
  have hclaimed : ∀ host ∈ hostsOf d, ∀ i, plan.laneOfHost host = some i → i = lane := by
    intro host hhost i hi
    exact List.mem_singleton.mp (hmet.claimed host hhost i hi)
  have hlanes : ∀ j, (plan.push lane d (hostsOf d)).lanes[j]? =
      if j = lane then some (L ++ [d]) else plan.lanes[j]? := by
    intro j
    rw [Plan.push, getElem?_push, hlane, Option.map_some]
  have hkept : ∀ (i : ℕ) (K : List D), plan.lanes[i]? = some K →
      ∃ K' : List D, (plan.push lane d (hostsOf d)).lanes[i]? = some K' ∧ K ⊆ K' := by
    intro i K hK
    rw [hlanes]
    split
    · rename_i hi
      rw [hi, hlane] at hK
      cases hK
      exact ⟨_, rfl, List.subset_append_left _ _⟩
    · exact ⟨K, hK, List.Subset.refl _⟩
  have hfrom : ∀ j K', (plan.push lane d (hostsOf d)).lanes[j]? = some K' →
      j = lane ∧ K' = L ++ [d] ∨ j ≠ lane ∧ plan.lanes[j]? = some K' := by
    intro j K' hK'
    rw [hlanes] at hK'
    split at hK'
    · exact .inl ⟨‹_›, (Option.some.inj hK').symm⟩
    · exact .inr ⟨‹_›, hK'⟩
  refine ⟨(flatten_modify hlane [d]).trans (h.perm.append_right [d]), ?_, ?_, ?_, ?_, ?_⟩
  · intro j K' hK' a ha host hhost
    rw [Plan.push]
    obtain ⟨rfl, rfl⟩ | ⟨hne, hj⟩ := hfrom j K' hK'
    · by_cases hnew : host ∈ hostsOf d
      · exact if_pos hnew
      · apply (if_neg hnew).trans
        obtain ha | ha := List.mem_append.mp ha
        · exact h.claimed j L hlane a ha host hhost
        · rw [List.mem_singleton.mp ha] at hhost
          exact absurd hhost hnew
    · have hold := h.claimed j K' hj a ha host hhost
      apply (if_neg ?_).trans hold
      intro hnew
      exact hne (hclaimed host hnew j hold)
  · intro host j hj
    by_cases hnew : host ∈ hostsOf d
    · obtain rfl : lane = j := Option.some.inj ((if_pos hnew).symm.trans hj)
      exact ⟨L ++ [d], by rw [hlanes, if_pos rfl], d, List.mem_append_right _ List.mem_cons_self, hnew⟩
    · obtain ⟨K, hK, a, ha, hhost⟩ := h.claims host j ((if_neg hnew).symm.trans hj)
      obtain ⟨K', hK', hsub⟩ := hkept j K hK
      exact ⟨K', hK', a, hsub ha, hhost⟩
  · intro K' hK' a ha b hb
    obtain ⟨j, hj⟩ := List.mem_iff_getElem?.mp hK'
    obtain ⟨-, rfl⟩ | ⟨-, hj⟩ := hfrom j K' hj
    · have hself : ∀ c ∈ L ++ [d], Joined hostsOf domains c d := by
        intro c hc
        obtain hc | hc := List.mem_append.mp hc
        · exact hL c hc
        · rw [List.mem_singleton.mp hc]
          exact .refl
      exact (hself a ha).trans (hself b hb).symm
    · exact h.joined K' (List.mem_of_getElem? hj) a ha b hb
  · intro f hf
    by_cases hdone : done = []
    · rw [hdone] at hf
      obtain rfl : d = f := Option.some.inj hf
      exact ⟨L ++ [d], by rw [hlanes, if_pos (hfirst (.inl hdone)).symm], List.mem_append_right _ List.mem_cons_self⟩
    · rw [List.head?_append_of_ne_nil _ hdone] at hf
      obtain ⟨K, hK, hmem⟩ := h.first f hf
      obtain ⟨K', hK', hsub⟩ := hkept 0 K hK
      exact ⟨K', hK', hsub hmem⟩
  · intro j K' hK' a ha hnone
    obtain ⟨rfl, rfl⟩ | ⟨-, hj⟩ := hfrom j K' hK'
    · obtain ha | ha := List.mem_append.mp ha
      · exact h.unplaced j L hlane a ha hnone
      · rw [List.mem_singleton.mp ha] at hnone
        exact hfirst (.inr hnone)
    · exact h.unplaced j K' hj a ha hnone

theorem Plan.Met.place (hmet : plan.Met hostsOf domains lane others d (hostsOf d)) (h : plan.Sound hostsOf domains done)
    (hfirst : done = [] ∨ hostsOf d = [] → lane = 0) :
    ((others.foldl (Plan.merge lane) plan).push lane d (hostsOf d)).Sound hostsOf domains (done ++ [d]) := by
  obtain ⟨hsound, hmet⟩ := hmet.merge_all h
  exact hsound.push hfirst hmet

theorem Plan.Sound.place (h : plan.Sound hostsOf domains done) (hstart : done = [] → plan.lanes = [])
    (hsub : done ++ [d] ⊆ domains) (hhead : (done ++ [d]).head? = domains.head?) :
    (plan.place d (hostsOf d)).Sound hostsOf domains (done ++ [d]) := by
  have hd : d ∈ domains := hsub (List.mem_append_right _ List.mem_cons_self)
  have hdone : ∀ (i : ℕ) (K : List D), plan.lanes[i]? = some K → ∀ a ∈ K, a ∈ domains := by
    intro i K hK a ha
    exact hsub (List.mem_append_left _ (h.perm.subset (List.mem_flatten.mpr ⟨K, List.mem_of_getElem? hK, ha⟩)))
  have hnone : ∀ host i, plan.laneOfHost host = some i → done ≠ [] := by
    intro host i hi hnil
    obtain ⟨K, hK, -⟩ := h.claims host i hi
    rw [hstart hnil] at hK
    cases hK
  rw [Plan.place]
  by_cases hhosts : hostsOf d = []
  · have hunique : ∀ plan : Plan D H, plan.unique (hostsOf d) = [0] := by
      intro plan
      rw [Plan.unique, if_pos hhosts]
      rfl
    have hclaimed : ∀ (plan : Plan D H), ∀ host ∈ hostsOf d, ∀ i, plan.laneOfHost host = some i → i ∈ [0] := by
      intro plan host hhost
      rw [hhosts] at hhost
      cases hhost
    by_cases hlanes : plan.lanes = []
    · have hopened := h.opened
      rw [hlanes, List.nil_append] at hopened
      rw [if_pos ⟨hhosts, hlanes⟩, hunique]
      have hmet : ({ plan with lanes := [[]] } : Plan D H).Met hostsOf domains 0 [] d (hostsOf d) := by
        refine ⟨List.Pairwise.nil, fun _ ho => absurd ho List.not_mem_nil, ?_, hclaimed _⟩
        intro i hi
        obtain rfl := List.mem_singleton.mp hi
        exact ⟨[], rfl, fun _ ha => absurd ha List.not_mem_nil⟩
      exact hmet.place hopened fun _ => rfl
    · have hne : done ≠ [] := fun hnil => hlanes (hstart hnil)
      rw [if_neg fun hboth => hlanes hboth.2, hunique]
      have hmet : plan.Met hostsOf domains 0 [] d (hostsOf d) := by
        refine ⟨List.Pairwise.nil, fun _ ho => absurd ho List.not_mem_nil, ?_, hclaimed _⟩
        intro i hi
        obtain rfl := List.mem_singleton.mp hi
        obtain ⟨f, rest, rfl⟩ := List.exists_cons_of_ne_nil hne
        obtain ⟨K, hK, hf⟩ := h.first f rfl
        refine ⟨K, hK, fun a ha => ?_⟩
        exact (h.joined K (List.mem_of_getElem? hK) a ha f hf).tail
          ⟨hdone 0 K hK f hf, hd, .right hhead.symm hhosts⟩
      exact hmet.place h fun _ => rfl
  · rw [if_neg fun hboth => hhosts hboth.1]
    cases hunique : plan.unique (hostsOf d) with
    | nil =>
      have hclaimed : ∀ host ∈ hostsOf d, ∀ i, plan.laneOfHost host = some i → False := by
        intro host hhost i hi
        have hmem : i ∈ plan.unique (hostsOf d) := (mem_unique plan _ i).mpr (.inr ⟨hhosts, host, hhost, hi⟩)
        rw [hunique] at hmem
        cases hmem
      have hmet : ({ plan with lanes := plan.lanes ++ [[]] } : Plan D H).Met hostsOf domains plan.lanes.length [] d
          (hostsOf d) := by
        refine ⟨List.Pairwise.nil, fun _ ho => absurd ho List.not_mem_nil, ?_, ?_⟩
        · intro i hi
          obtain rfl := List.mem_singleton.mp hi
          refine ⟨[], ?_, fun _ ha => absurd ha List.not_mem_nil⟩
          rw [List.getElem?_append_right (le_refl _), Nat.sub_self]
          rfl
        · intro host hhost i hi
          exact (hclaimed host hhost i hi).elim
      apply hmet.place h.opened
      rintro (hnil | hnil)
      · rw [hstart hnil]
        rfl
      · exact absurd hnil hhosts
    | cons lane others =>
      obtain ⟨hdescending, hbehind⟩ := unique_sorted hunique
      have hmem : ∀ i, i ∈ lane :: others ↔ ∃ host ∈ hostsOf d, plan.laneOfHost host = some i := by
        intro i
        rw [← hunique, mem_unique]
        simp [hhosts]
      obtain ⟨host, -, hhost⟩ := (hmem lane).mp List.mem_cons_self
      refine Plan.Met.place ⟨hdescending, fun o ho => hbehind o (List.mem_reverse.mp ho), ?_, ?_⟩ h
        fun hnil => hnil.elim (fun hnil => absurd hnil (hnone host lane hhost)) fun hnil => absurd hnil hhosts
      · intro i hi
        have hi : i ∈ lane :: others := by simpa using hi
        obtain ⟨host, hhost, hat⟩ := (hmem i).mp hi
        obtain ⟨K, hK, b, hb, hshared⟩ := h.claims host i hat
        refine ⟨K, hK, fun a ha => ?_⟩
        exact (h.joined K (List.mem_of_getElem? hK) a ha b hb).tail
          ⟨hdone i K hK b hb, hd, .shares hshared hhost⟩
      · intro host hhost i hi
        have hin := (hmem i).mpr ⟨host, hhost, hi⟩
        simpa using hin

theorem Plan.Sound.place_all (h : plan.Sound hostsOf domains done) (hstart : done = [] → plan.lanes = [])
    {rest : List D} (hsplit : done ++ rest = domains) :
    (rest.foldl (fun plan d => plan.place d (hostsOf d)) plan).Sound hostsOf domains domains := by
  induction rest generalizing plan done with
  | nil =>
    rw [List.append_nil] at hsplit
    exact hsplit ▸ h
  | cons d rest ih =>
    have hsplit' : done ++ [d] ++ rest = domains := by rw [List.append_assoc, List.singleton_append, hsplit]
    have hne : done ++ [d] ≠ [] := List.append_ne_nil_of_right_ne_nil _ (List.cons_ne_nil d [])
    apply ih (h.place hstart ?_ ?_) (fun hnil => absurd hnil hne) hsplit'
    · rw [← hsplit']
      exact List.subset_append_left _ _
    · rw [← hsplit', List.head?_append_of_ne_nil _ hne]

theorem planned_sound (hostsOf : D → List H) (domains : List D) :
    (domains.foldl (fun plan d => plan.place d (hostsOf d)) Plan.empty).Sound hostsOf domains domains := by
  have hempty : (Plan.empty : Plan D H).Sound hostsOf domains [] := by
    refine ⟨List.Perm.refl _, ?_, ?_, ?_, ?_, ?_⟩
    · intro i K hK
      cases hK
    · intro host i hi
      cases hi
    · intro K hK
      cases hK
    · intro f hf
      cases hf
    · intro i K hK
      cases hK
  exact hempty.place_all (fun _ => rfl) (List.nil_append domains)

variable [DecidableEq D] {a b : D}

/-- The lanes before they are sorted. -/
def planned (hostsOf : D → List H) (domains : List D) : Plan D H :=
  domains.foldl (fun plan d => plan.place d (hostsOf d)) Plan.empty

theorem mem_planLanes {lane : List D} : lane ∈ planLanes hostsOf domains ↔
    lane ≠ [] ∧ ∃ K ∈ (planned hostsOf domains).lanes,
      K.insertionSort (fun a b => rank domains a ≤ rank domains b) = lane := by
  rw [planLanes, List.mem_filter, List.mem_map, decide_eq_true_eq, and_comm]
  rfl

theorem same_lane (a b : D) : (∃ lane ∈ planLanes hostsOf domains, a ∈ lane ∧ b ∈ lane) ↔
    ∃ K ∈ (planned hostsOf domains).lanes, a ∈ K ∧ b ∈ K := by
  constructor
  · rintro ⟨lane, hlane, ha, hb⟩
    obtain ⟨-, K, hK, rfl⟩ := mem_planLanes.mp hlane
    rw [List.mem_insertionSort] at ha hb
    exact ⟨K, hK, ha, hb⟩
  · rintro ⟨K, hK, ha, hb⟩
    refine ⟨_, mem_planLanes.mpr ⟨?_, K, hK, rfl⟩, ?_⟩
    · exact List.ne_nil_of_mem ((List.mem_insertionSort _).mpr ha)
    · exact ⟨(List.mem_insertionSort _).mpr ha, (List.mem_insertionSort _).mpr hb⟩

/-- Domains of the list are in one lane exactly if a chain of the list joins them. -/
theorem same_lane_iff (ha : a ∈ domains) :
    (∃ lane ∈ planLanes hostsOf domains, a ∈ lane ∧ b ∈ lane) ↔ Joined hostsOf domains a b := by
  have hsound := planned_sound hostsOf domains
  rw [same_lane]
  constructor
  · rintro ⟨K, hK, ha, hb⟩
    exact hsound.joined K hK a ha b hb
  · intro h
    obtain ⟨K, hK, hin⟩ := List.mem_flatten.mp (hsound.perm.symm.subset ha)
    refine ⟨K, hK, hin, ?_⟩
    obtain ⟨i, hi⟩ := List.mem_iff_getElem?.mp hK
    induction h with
    | refl => exact hin
    | @tail x y _ hstep hx =>
      obtain ⟨-, hy, hjoins⟩ := hstep
      obtain ⟨K', hK', hin'⟩ := List.mem_flatten.mp (hsound.perm.symm.subset hy)
      obtain ⟨j, hj⟩ := List.mem_iff_getElem?.mp hK'
      cases hjoins with
      | shares hx' hy' =>
        have hclaim := hsound.claimed i K hi x hx _ hx'
        rw [hsound.claimed j K' hj y hin' _ hy'] at hclaim
        obtain rfl := Option.some.inj hclaim
        rw [hi] at hj
        cases hj
        exact hin'
      | left hx' hy' =>
        obtain ⟨K₀, hK₀, hmem⟩ := hsound.first y hy'
        rw [hsound.unplaced i K hi x hx hx', hK₀] at hi
        cases hi
        exact hmem
      | right hx' hy' =>
        obtain ⟨K₀, hK₀, hmem⟩ := hsound.first x hx'
        rw [hsound.unplaced j K' hj y hin' hy'] at hj
        have hzero : i = 0 := by
          by_cases hnone : hostsOf x = []
          · exact hsound.unplaced i K hi x hx hnone
          · obtain ⟨host, hhost⟩ := List.exists_mem_of_ne_nil _ hnone
            have hclaim := hsound.claimed i K hi x hx host hhost
            rw [hsound.claimed 0 K₀ hK₀ x hmem host hhost] at hclaim
            exact (Option.some.inj hclaim).symm
        rw [hzero, hj] at hi
        cases hi
        exact hin'

omit [DecidableEq D] in
theorem host_lane {i j : ℕ} {K K' : List D} (hi : (planned hostsOf domains).lanes[i]? = some K)
    (hj : (planned hostsOf domains).lanes[j]? = some K') (ha : a ∈ K) (hb : b ∈ K') {host : H}
    (hhost : host ∈ hostsOf a) (hhost' : host ∈ hostsOf b) : i = j := by
  have hsound := planned_sound hostsOf domains
  have hclaim := hsound.claimed i K hi a ha host hhost
  rw [hsound.claimed j K' hj b hb host hhost'] at hclaim
  exact (Option.some.inj hclaim).symm

theorem rank_getElem (hnodup : domains.Nodup) {i : ℕ} (hi : i < domains.length) : rank domains domains[i] = i := by
  have hback : domains.reverse[domains.length - 1 - i]? = some domains[i] := by
    rw [List.getElem?_reverse (by omega), List.getElem?_eq_some_iff]
    refine ⟨by omega, ?_⟩
    congr 1
    omega
  obtain ⟨hlt, hat⟩ := List.getElem?_eq_some_iff.mp hback
  have hindex := (List.nodup_reverse.mpr hnodup).idxOf_getElem _ hlt
  rw [hat] at hindex
  rw [rank, hindex]
  omega

theorem rank_injective (hnodup : domains.Nodup) (ha : a ∈ domains) (hb : b ∈ domains)
    (h : rank domains a = rank domains b) : a = b := by
  obtain ⟨i, hi, rfl⟩ := List.mem_iff_getElem.mp ha
  obtain ⟨j, hj, rfl⟩ := List.mem_iff_getElem.mp hb
  rw [rank_getElem hnodup hi, rank_getElem hnodup hj] at h
  subst h
  rfl

theorem pairwise_rank (hnodup : domains.Nodup) : domains.Pairwise fun a b => rank domains a ≤ rank domains b := by
  rw [List.pairwise_iff_getElem]
  intro i j hi hj hlt
  rw [rank_getElem hnodup hi, rank_getElem hnodup hj]
  exact hlt.le

theorem sorted_sublist (hnodup : domains.Nodup) {K : List D} (hK : K.Nodup) (hsub : K ⊆ domains) :
    (K.insertionSort fun a b => rank domains a ≤ rank domains b).Sublist domains := by
  have : Std.Total fun a b => rank domains a ≤ rank domains b := ⟨fun a b => le_total _ _⟩
  have : IsTrans D fun a b => rank domains a ≤ rank domains b := ⟨fun a b c => le_trans⟩
  have hperm : (K.insertionSort fun a b => rank domains a ≤ rank domains b).Perm (domains.filter (· ∈ K)) := by
    apply (List.perm_insertionSort _ K).trans
    apply (List.perm_ext_iff_of_nodup hK (hnodup.filter _)).mpr
    intro a
    rw [List.mem_filter, decide_eq_true_eq]
    exact ⟨fun ha => ⟨hsub ha, ha⟩, fun ha => ha.2⟩
  have hsorted := List.pairwise_insertionSort (fun a b => rank domains a ≤ rank domains b) K
  have heq : (K.insertionSort fun a b => rank domains a ≤ rank domains b) = domains.filter (· ∈ K) := by
    refine List.Perm.eq_of_pairwise ?_ hsorted ((pairwise_rank hnodup).filter _) hperm
    intro a b ha hb hab hba
    have ha := hsub ((List.mem_insertionSort _).mp ha)
    exact rank_injective hnodup ha (List.mem_filter.mp hb).1 (le_antisymm hab hba)
  rw [heq]
  exact List.filter_sublist

theorem planLanes_perm (hostsOf : D → List H) (domains : List D) :
    (planLanes hostsOf domains).flatten.Perm domains := by
  have hsorted : ∀ lanes : List (List D), ((lanes.map fun lane =>
      lane.insertionSort fun a b => rank domains a ≤ rank domains b).filter (· ≠ [])).flatten.Perm lanes.flatten := by
    intro lanes
    induction lanes with
    | nil => exact List.Perm.refl _
    | cons lane lanes ih =>
      have hlane := List.perm_insertionSort (fun a b => rank domains a ≤ rank domains b) lane
      rw [List.map_cons, List.filter_cons]
      split
      · exact hlane.append ih
      · rename_i hnil
        have hnil : (lane.insertionSort fun a b => rank domains a ≤ rank domains b) = [] := by simpa using hnil
        rw [hnil] at hlane
        rw [List.flatten_cons, List.nil_perm.mp hlane]
        exact ih
  exact (hsorted _).trans (planned_sound hostsOf domains).perm

theorem planLanes_apart (hostsOf : D → List H) (domains : List D) :
    (planLanes hostsOf domains).Pairwise fun lane lane' => ∀ a ∈ lane, ∀ b ∈ lane', ∀ h ∈ hostsOf a, h ∉ hostsOf b := by
  apply List.Pairwise.filter
  rw [List.pairwise_map, List.pairwise_iff_getElem]
  intro i j hi hj hlt a ha b hb host hhost hhost'
  rw [List.mem_insertionSort] at ha hb
  have hsame := host_lane (List.getElem?_eq_getElem hi) (List.getElem?_eq_getElem hj) ha hb hhost hhost'
  omega

theorem planLanes_order (hnodup : domains.Nodup) {lane : List D} (h : lane ∈ planLanes hostsOf domains) :
    lane.Sublist domains := by
  obtain ⟨-, K, hK, rfl⟩ := mem_planLanes.mp h
  have hperm := (planned_sound hostsOf domains).perm
  have hflat := hperm.nodup_iff.mpr hnodup
  apply sorted_sublist hnodup ((List.nodup_flatten.mp hflat).1 K hK)
  intro a ha
  exact hperm.subset (List.mem_flatten.mpr ⟨K, hK, ha⟩)

end Sound

end OpenMigrate.Lanes
