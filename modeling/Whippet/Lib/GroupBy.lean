import Mathlib.Algebra.BigOperators.Group.Multiset.Basic
import Mathlib.Algebra.Order.BigOperators.Group.Multiset
import Mathlib.Algebra.Order.Group.Int
import Mathlib.Data.Finset.Card
import Mathlib.Data.Multiset.Count
import Mathlib.Data.Multiset.Filter

/-! Rows grouped by a key: how many there are, what they total and how many members they have. -/
namespace Whippet.Lib

variable {ρ κ μ : Type*} [DecidableEq κ]

def groupRows (key : ρ → κ) (k : κ) (s : Multiset ρ) : Multiset ρ := s.filter fun r => key r = k

def groupCount (key : ρ → κ) (k : κ) (s : Multiset ρ) : ℕ := (groupRows key k s).card

def groupTotal (key : ρ → κ) (value : ρ → ℤ) (k : κ) (s : Multiset ρ) : ℤ := ((groupRows key k s).map value).sum

def memberCount [DecidableEq μ] (key : ρ → κ) (member : ρ → μ) (k : κ) (m : μ) (s : Multiset ρ) : ℕ :=
  ((groupRows key k s).map member).count m

def groupMembers [DecidableEq μ] (key : ρ → κ) (member : ρ → μ) (k : κ) (s : Multiset ρ) : ℕ :=
  ((groupRows key k s).map member).toFinset.card

variable {key : ρ → κ} {k : κ} {s : Multiset ρ} {r : ρ}

theorem mem_groupRows {r : ρ} : r ∈ groupRows key k s ↔ r ∈ s ∧ key r = k := Multiset.mem_filter

theorem groupRows_cons_self (h : key r = k) : groupRows key k (r ::ₘ s) = r ::ₘ groupRows key k s :=
  Multiset.filter_cons_of_pos _ h

theorem groupRows_cons_ne (h : key r ≠ k) : groupRows key k (r ::ₘ s) = groupRows key k s :=
  Multiset.filter_cons_of_neg _ h

theorem groupCount_eq_zero : groupCount key k s = 0 ↔ ∀ r ∈ s, key r ≠ k := by
  rw [groupCount, Multiset.card_eq_zero, groupRows, Multiset.filter_eq_nil]

theorem groupCount_cons_self (h : key r = k) : groupCount key k (r ::ₘ s) = groupCount key k s + 1 := by
  rw [groupCount, groupRows_cons_self h, Multiset.card_cons, groupCount]

theorem groupTotal_cons_self {value : ρ → ℤ} (h : key r = k) :
    groupTotal key value k (r ::ₘ s) = value r + groupTotal key value k s := by
  rw [groupTotal, groupRows_cons_self h, Multiset.map_cons, Multiset.sum_cons, groupTotal]

theorem groupTotal_nonneg {value : ρ → ℤ} (h : ∀ r ∈ s, 0 ≤ value r) : 0 ≤ groupTotal key value k s := by
  apply Multiset.sum_nonneg
  intro v hv
  obtain ⟨r, hr, rfl⟩ := Multiset.mem_map.mp hv
  exact h r (mem_groupRows.mp hr).1

theorem groupTotal_mono {value : ρ → ℤ} {s t : Multiset ρ} (hst : s ≤ t) (h : ∀ r ∈ t, 0 ≤ value r) :
    groupTotal key value k s ≤ groupTotal key value k t := by
  obtain ⟨u, rfl⟩ := Multiset.le_iff_exists_add.mp hst
  have hu : 0 ≤ groupTotal key value k u := by
    apply groupTotal_nonneg
    intro r hr
    exact h r (Multiset.mem_add.mpr (Or.inr hr))
  have hsum : groupTotal key value k (s + u) = groupTotal key value k s + groupTotal key value k u := by
    simp only [groupTotal, groupRows, Multiset.filter_add, Multiset.map_add, Multiset.sum_add]
  omega

variable [DecidableEq μ] {member : ρ → μ} {m : μ}

theorem memberCount_cons_self (h : key r = k) :
    memberCount key member k m (r ::ₘ s) = memberCount key member k m s + if member r = m then 1 else 0 := by
  simp only [memberCount, groupRows_cons_self h, Multiset.map_cons, Multiset.count_cons, eq_comm]

theorem memberCount_cons_ne (h : key r ≠ k) :
    memberCount key member k m (r ::ₘ s) = memberCount key member k m s := by
  rw [memberCount, groupRows_cons_ne h, memberCount]

theorem memberCount_eq_zero : memberCount key member k m s = 0 ↔ ∀ r ∈ s, key r = k → member r ≠ m := by
  rw [memberCount, Multiset.count_eq_zero, Multiset.mem_map]
  constructor
  · intro h r hr hk hm
    exact h ⟨r, mem_groupRows.mpr ⟨hr, hk⟩, hm⟩
  · rintro h ⟨r, hr, hm⟩
    exact h r (mem_groupRows.mp hr).1 (mem_groupRows.mp hr).2 hm

theorem memberCount_of_groupCount_eq_zero (h : groupCount key k s = 0) (m : μ) :
    memberCount key member k m s = 0 := by
  rw [memberCount_eq_zero]
  intro r hr hk
  exact absurd hk (groupCount_eq_zero.mp h r hr)

theorem groupMembers_cons_self (h : key r = k) : groupMembers key member k (r ::ₘ s) =
    groupMembers key member k s + if memberCount key member k (member r) s = 0 then 1 else 0 := by
  rw [groupMembers, groupRows_cons_self h, Multiset.map_cons, Multiset.toFinset_cons, groupMembers, memberCount]
  by_cases hm : member r ∈ (groupRows key k s).map member
  · rw [Finset.insert_eq_of_mem (Multiset.mem_toFinset.mpr hm),
      if_neg (mt Multiset.count_eq_zero.mp (not_not.mpr hm)), add_zero]
  · rw [Finset.card_insert_of_notMem (mt Multiset.mem_toFinset.mp hm), if_pos (Multiset.count_eq_zero.mpr hm)]

end Whippet.Lib
