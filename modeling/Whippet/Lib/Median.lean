import Mathlib.Data.List.Sort

/-! The element at a position of a sorted list, by counting. -/
namespace Whippet.Lib

section
variable {α : Type*} [LinearOrder α]

theorem getElem_le_iff_of_pairwise {l : List α} (hl : l.Pairwise (· ≤ ·)) {i : ℕ} (hi : i < l.length) (t : α) :
    l[i] ≤ t ↔ i < l.countP (· ≤ t) := by
  induction l generalizing i with
  | nil => simp at hi
  | cons a l ih =>
    rw [List.pairwise_cons] at hl
    obtain ⟨hle, hl⟩ := hl
    by_cases ha : a ≤ t
    · rw [List.countP_cons_of_pos (by simpa using ha)]
      cases i with
      | zero => simpa using ha
      | succ i =>
        have hi' : i < l.length := by simpa using hi
        rw [List.getElem_cons_succ, ih hl hi']
        omega
    · have hnone : l.countP (· ≤ t) = 0 := by
        rw [List.countP_eq_zero]
        intro b hb
        have hlt : t < b := lt_of_lt_of_le (not_le.mp ha) (hle b hb)
        simpa using hlt
      rw [List.countP_cons_of_neg (by simpa using ha), hnone]
      cases i with
      | zero => simpa using ha
      | succ i =>
        have hi' : i < l.length := by simpa using hi
        rw [List.getElem_cons_succ, ih hl hi', hnone]
        omega

theorem getD_insertionSort_le_iff {l : List α} {i : ℕ} (hi : i < l.length) (d t : α) :
    (l.insertionSort (· ≤ ·)).getD i d ≤ t ↔ i < l.countP (· ≤ t) := by
  have hlen : i < (l.insertionSort (· ≤ ·)).length := by rwa [List.length_insertionSort]
  rw [List.getD_eq_getElem?_getD, List.getElem?_eq_getElem hlen, Option.getD_some,
    getElem_le_iff_of_pairwise (List.pairwise_insertionSort _ l) hlen, (List.perm_insertionSort _ l).countP_eq]

end
end Whippet.Lib
