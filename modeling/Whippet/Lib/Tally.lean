import Mathlib.Algebra.BigOperators.Group.List.Basic
import Mathlib.Algebra.Order.BigOperators.Group.List
import Mathlib.Algebra.Ring.Int.Defs

/-! Values held under keys, and the total of one key. -/
namespace Whippet.Lib

variable {κ : Type*} [DecidableEq κ]

def tally (key : κ) (l : List (κ × ℤ)) : ℤ := ((l.filter fun p => p.1 = key).map Prod.snd).sum

@[simp] theorem tally_nil (key : κ) : tally key [] = 0 := rfl

theorem tally_cons (key : κ) (p : κ × ℤ) (l : List (κ × ℤ)) :
    tally key (p :: l) = (if p.1 = key then p.2 else 0) + tally key l := by
  unfold tally
  by_cases h : p.1 = key <;> simp [h]

theorem tally_append (key : κ) (l l' : List (κ × ℤ)) : tally key (l ++ l') = tally key l + tally key l' := by
  simp [tally]

theorem tally_nonneg (key : κ) {l : List (κ × ℤ)} (h : ∀ p ∈ l, p.1 = key → 0 ≤ p.2) : 0 ≤ tally key l := by
  apply List.sum_nonneg
  intro v hv
  obtain ⟨p, hp, rfl⟩ := List.mem_map.mp hv
  obtain ⟨hmem, hkey⟩ := List.mem_filter.mp hp
  exact h p hmem (of_decide_eq_true hkey)

theorem tally_eq_zero (key : κ) {l : List (κ × ℤ)} (h : ∀ p ∈ l, p.1 ≠ key) : tally key l = 0 := by
  have hnil : l.filter (fun p => p.1 = key) = [] := by
    rw [List.filter_eq_nil_iff]
    intro p hp
    simpa using h p hp
  simp [tally, hnil]

end Whippet.Lib
