import Mathlib.Algebra.BigOperators.Group.Multiset.Basic
import Mathlib.Algebra.Order.BigOperators.Group.Multiset
import Mathlib.Algebra.Order.Group.Int
import Mathlib.Data.Finmap
import Mathlib.Data.Int.Basic

/-! Sums over the entries of a finite map. -/
namespace Whippet.Lib

variable {α β : Type*}

def finmapSum (f : β → ℤ) (m : Finmap fun _ : α => β) : ℤ := (m.entries.map fun e => f e.2).sum

variable [DecidableEq α]

/-- What the entry of `a`, if there is one, adds to the sum. -/
def entryValue (f : β → ℤ) (m : Finmap fun _ : α => β) (a : α) : ℤ := ((m.lookup a).map f).getD 0

variable {m : Finmap fun _ : α => β}

theorem finmapSum_insert_of_notMem (f : β → ℤ) {a : α} (b : β) (h : a ∉ m) :
    finmapSum f (m.insert a b) = finmapSum f m + f b := by
  rw [finmapSum, finmapSum, Finmap.entries_insert_of_notMem h, Multiset.map_cons, Multiset.sum_cons, add_comm]

theorem finmapSum_erase (f : β → ℤ) (m : Finmap fun _ : α => β) (a : α) :
    finmapSum f (m.erase a) = finmapSum f m - entryValue f m a := by
  cases h : m.lookup a with
  | none =>
    have herase : m.erase a = m := by
      apply Finmap.ext_lookup
      intro x
      by_cases hx : x = a
      · rw [hx, Finmap.lookup_erase, h]
      · rw [Finmap.lookup_erase_ne hx]
    simp [herase, entryValue, h]
  | some b =>
    have hinsert : (m.erase a).insert a b = m := by
      apply Finmap.ext_lookup
      intro x
      by_cases hx : x = a
      · rw [hx, Finmap.lookup_insert, h]
      · rw [Finmap.lookup_insert_of_ne _ hx, Finmap.lookup_erase_ne hx]
    have hsum := finmapSum_insert_of_notMem f b (Finmap.notMem_erase_self (a := a) (s := m))
    rw [hinsert] at hsum
    simp only [entryValue, h, Option.map_some, Option.getD_some]
    omega

theorem finmapSum_insert (f : β → ℤ) (m : Finmap fun _ : α => β) (a : α) (b : β) :
    finmapSum f (m.insert a b) = finmapSum f m - entryValue f m a + f b := by
  have hinsert : (m.erase a).insert a b = m.insert a b := by
    apply Finmap.ext_lookup
    intro x
    by_cases hx : x = a
    · rw [hx, Finmap.lookup_insert, Finmap.lookup_insert]
    · rw [Finmap.lookup_insert_of_ne _ hx, Finmap.lookup_insert_of_ne _ hx, Finmap.lookup_erase_ne hx]
  rw [← hinsert, finmapSum_insert_of_notMem f b Finmap.notMem_erase_self, finmapSum_erase]

variable {f : β → ℤ}

theorem finmapSum_nonneg (h : ∀ a b, m.lookup a = some b → 0 ≤ f b) :
    0 ≤ finmapSum f m := by
  apply Multiset.sum_nonneg
  intro v hv
  obtain ⟨⟨a, b⟩, he, rfl⟩ := Multiset.mem_map.mp hv
  exact h a b (Finmap.lookup_eq_some_iff.mpr he)

theorem finmapSum_eq_zero (h : ∀ a b, m.lookup a = some b → f b = 0) :
    finmapSum f m = 0 := by
  apply Multiset.sum_eq_zero
  intro v hv
  obtain ⟨⟨a, b⟩, he, rfl⟩ := Multiset.mem_map.mp hv
  exact h a b (Finmap.lookup_eq_some_iff.mpr he)

theorem le_finmapSum (h : ∀ a b, m.lookup a = some b → 0 ≤ f b) {a : α}
    {b : β} (hb : m.lookup a = some b) : f b ≤ finmapSum f m := by
  have hrest : 0 ≤ finmapSum f (m.erase a) := by
    apply finmapSum_nonneg
    intro x c hc
    apply h x
    by_cases hx : x = a
    · rw [hx, Finmap.lookup_erase] at hc
      contradiction
    · rwa [Finmap.lookup_erase_ne hx] at hc
  rw [finmapSum_erase, entryValue, hb, Option.map_some, Option.getD_some] at hrest
  omega

end Whippet.Lib
