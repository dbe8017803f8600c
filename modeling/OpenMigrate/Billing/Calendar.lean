import Mathlib.Data.Nat.Notation
import Mathlib.Data.Nat.SuccPred
import Mathlib.Order.SuccPred.IntervalSucc
import Mathlib.Order.SuccPred.Archimedean
import Mathlib.Tactic.Common

namespace OpenMigrate.Calendar

/-- A leap year of the Gregorian calendar. -/
def leap (year : ℕ) : Bool := year % 4 == 0 && (year % 100 != 0 || year % 400 == 0)

/-- The length of a month, January being 0. -/
def daysIn (year month : ℕ) : ℕ :=
  match month with
  | 1 => if leap year then 29 else 28
  | 3 | 5 | 8 | 10 => 30
  | _ => 31

/-- The days from 1 January 1970 to the first day of the `k`-th month after it. -/
def firstDay : ℕ → ℕ
  | 0 => 0
  | k + 1 => firstDay k + daysIn (1970 + k / 12) (k % 12)

def dayMs : ℕ := 24 * 60 * 60 * 1000

def monthStart (k : ℕ) : ℕ := firstDay k * dayMs

/-- A month that is written `YYYY-MM`, not before 1970. -/
@[ext] structure Month where
  year : ℕ
  month : ℕ
  since : 1970 ≤ year
  fourDigits : year < 10000
  first : 1 ≤ month
  last : month ≤ 12
  deriving DecidableEq

namespace Month

def index (M : Month) : ℕ := 12 * (M.year - 1970) + (M.month - 1)

def start (M : Month) : ℕ := monthStart M.index

def stop (M : Month) : ℕ := monthStart (M.index + 1)

/-- The midnight with which the last day of a month begins. -/
def lastMidnight (M : Month) : ℕ := (firstDay (M.index + 1) - 1) * dayMs

def Has (M : Month) (t : ℕ) : Prop := t ∈ Set.Ico M.start M.stop

end Month

theorem daysIn_ge (year month : ℕ) : 28 ≤ daysIn year month := by
  unfold daysIn
  split
  · split <;> omega
  all_goals omega

theorem firstDay_lt (k : ℕ) : firstDay k < firstDay (k + 1) := by
  have h := daysIn_ge (1970 + k / 12) (k % 12)
  rw [firstDay]
  omega

theorem firstDay_strictMono : StrictMono firstDay := strictMono_nat_of_lt_succ firstDay_lt

theorem dayMs_pos : 0 < dayMs := by
  unfold dayMs
  omega

theorem monthStart_strictMono : StrictMono monthStart := fun _ _ h =>
  Nat.mul_lt_mul_of_pos_right (firstDay_strictMono h) dayMs_pos

example : monthStart (12 * (2026 - 1970) + 7) = 1785542400000 := by decide +kernel

section Partition

theorem exists_month (t : ℕ) : ∃ k, t ∈ Set.Ico (monthStart k) (monthStart (k + 1)) := by
  have hunbounded : ¬ BddAbove (Set.range monthStart) := by
    rintro ⟨b, hb⟩
    have hle : monthStart (b + 1) ≤ b := hb ⟨b + 1, rfl⟩
    have hge : b + 1 ≤ monthStart (b + 1) := monthStart_strictMono.id_le (b + 1)
    omega
  have hall : ⋃ k, Set.Ico (monthStart k) (monthStart (Order.succ k)) = Set.Ici (monthStart ⊥) :=
    iUnion_Ico_map_succ_eq_Ici (fun k => monthStart_strictMono.monotone bot_le) hunbounded
  have hmem : t ∈ Set.Ici (monthStart ⊥) := by
    change 0 * dayMs ≤ t
    rw [Nat.zero_mul]
    exact Nat.zero_le t
  rw [← hall, Set.mem_iUnion] at hmem
  exact hmem

theorem month_unique {k k' t : ℕ} (h : t ∈ Set.Ico (monthStart k) (monthStart (k + 1)))
    (h' : t ∈ Set.Ico (monthStart k') (monthStart (k' + 1))) : k = k' := by
  by_contra hne
  have hdisjoint := monthStart_strictMono.monotone.pairwise_disjoint_on_Ico_succ hne
  exact Set.disjoint_left.mp hdisjoint h h'

end Partition

namespace Month

variable {M M' : Month} {t : ℕ}

theorem index_injective : Function.Injective index := by
  intro M M' h
  have hM := M.since
  have hM' := M'.since
  have hfirst := M.first
  have hfirst' := M'.first
  have hlast := M.last
  have hlast' := M'.last
  unfold index at h
  apply Month.ext <;> omega

theorem has_unique (h : M.Has t) (h' : M'.Has t) : M = M' := index_injective (month_unique h h')

theorem start_le_lastMidnight (M : Month) : M.start ≤ M.lastMidnight := by
  apply Nat.mul_le_mul_right
  have h := firstDay_lt M.index
  omega

theorem lastMidnight_lt_stop (M : Month) : M.lastMidnight < M.stop := by
  apply Nat.mul_lt_mul_of_pos_right _ dayMs_pos
  have h := firstDay_lt M.index
  omega

/-- The month with an index, in the years of four digits. -/
def ofIndex (k : ℕ) (h : k < 12 * 8030) : Month where
  year := 1970 + k / 12
  month := k % 12 + 1
  since := by omega
  fourDigits := by omega
  first := by omega
  last := by omega

theorem ofIndex_index (k : ℕ) (h : k < 12 * 8030) : (ofIndex k h).index = k := by
  change 12 * (1970 + k / 12 - 1970) + (k % 12 + 1 - 1) = k
  omega

theorem existsUnique_has (h : t < monthStart (12 * 8030)) : ∃! M : Month, M.Has t := by
  obtain ⟨k, hk⟩ := exists_month t
  have hlt : k < 12 * 8030 := monthStart_strictMono.lt_iff_lt.mp (lt_of_le_of_lt hk.1 h)
  refine ⟨ofIndex k hlt, ?_, fun M' h' => ?_⟩
  · change t ∈ Set.Ico (monthStart (ofIndex k hlt).index) (monthStart ((ofIndex k hlt).index + 1))
    rwa [ofIndex_index]
  · apply index_injective
    rw [ofIndex_index]
    exact month_unique h' hk

end Month

end OpenMigrate.Calendar
