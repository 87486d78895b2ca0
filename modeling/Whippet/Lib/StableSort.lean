import Mathlib.Data.List.Sort
import Mathlib.Order.Defs.LinearOrder
import Mathlib.Data.List.Induction

/-! The in-place insertion sort, which sinks each entry past its greater neighbours on the left, is the stable sort of
`List.insertionSort`. -/
namespace Whippet.Lib

section
variable {α : Type*} (gt : α → α → Prop) [DecidableRel gt]

/-- The entry moves left past its greater neighbours; the nearest neighbour heads the list. -/
def sinkLeft (x : α) : List α → List α
  | [] => [x]
  | y :: done => if gt y x then y :: sinkLeft x done else x :: y :: done

/-- The sort by adjacent swaps. What is done already is held last entry first. -/
def swapSort (entries : List α) : List α := (entries.foldl (fun done x => sinkLeft gt x done) []).reverse

end

section
variable {α : Type*} (r : α → α → Prop) [DecidableRel r] {x : α} {entries : List α}

theorem orderedInsert_append_singleton {y : α} (h : r x y) :
    (entries ++ [y]).orderedInsert r x = entries.orderedInsert r x ++ [y] := by
  induction entries with
  | nil => simp [List.orderedInsert_cons, h]
  | cons b entries ih =>
    simp only [List.cons_append, List.orderedInsert_cons, ih]
    split_ifs <;> rfl

theorem orderedInsert_last (h : ∀ b ∈ entries, ¬ r x b) : entries.orderedInsert r x = entries ++ [x] := by
  induction entries with
  | nil => rfl
  | cons b entries ih =>
    obtain ⟨hb, hrest⟩ := List.forall_mem_cons.mp h
    rw [List.orderedInsert_cons, if_neg hb, ih hrest, List.cons_append]

end

section
variable {α κ : Type*} [LinearOrder κ] (key : α → κ)

theorem orderedInsert_comm (a x : α) (entries : List α) :
    (entries.orderedInsert (fun a b => key a < key b) x).orderedInsert (fun a b => key a ≤ key b) a =
      (entries.orderedInsert (fun a b => key a ≤ key b) a).orderedInsert (fun a b => key a < key b) x := by
  induction entries with
  | nil =>
    simp only [List.orderedInsert_nil, List.orderedInsert_cons, ← not_lt]
    split_ifs <;> rfl
  | cons b entries ih =>
    by_cases hx : key x < key b <;> by_cases ha : key a ≤ key b
    · by_cases hax : key a ≤ key x
      · simp [List.orderedInsert_cons, hx, ha, hax, not_lt.mpr hax]
      · simp [List.orderedInsert_cons, hx, ha, hax, not_le.mp hax]
    · have hax : ¬ key a ≤ key x := fun h => ha (h.trans hx.le)
      simp [List.orderedInsert_cons, hx, ha, hax]
    · have hax : ¬ key x < key a := fun h => hx (h.trans_le ha)
      simp [List.orderedInsert_cons, hx, ha, hax]
    · simp [List.orderedInsert_cons, hx, ha, ih]

theorem insertionSort_append_singleton (entries : List α) (x : α) :
    (entries ++ [x]).insertionSort (fun a b => key a ≤ key b) =
      (entries.insertionSort fun a b => key a ≤ key b).orderedInsert (fun a b => key a < key b) x := by
  induction entries with
  | nil => rfl
  | cons a entries ih => rw [List.cons_append, List.insertionSort_cons, ih, orderedInsert_comm, List.insertionSort_cons]

variable {key} {gt : α → α → Prop} [DecidableRel gt] (hgt : ∀ a b, gt a b ↔ key b < key a)
include hgt

theorem sinkLeft_reverse (x : α) {entries : List α} (hsorted : entries.Pairwise fun a b => key a ≤ key b) :
    (sinkLeft gt x entries.reverse).reverse = entries.orderedInsert (fun a b => key a < key b) x := by
  induction entries using List.reverseRecOn with
  | nil => rfl
  | append_singleton entries y ih =>
    obtain ⟨hentries, -, hle⟩ := List.pairwise_append.mp hsorted
    simp only [List.mem_singleton, forall_eq] at hle
    rw [List.reverse_append, List.reverse_singleton, List.singleton_append, sinkLeft]
    by_cases hyx : gt y x
    · rw [if_pos hyx, List.reverse_cons, ih hentries,
        orderedInsert_append_singleton (fun a b => key a < key b) ((hgt y x).mp hyx)]
    · have hlast : ∀ b ∈ entries ++ [y], ¬ key x < key b := by
        have hy : key y ≤ key x := not_lt.mp fun h => hyx ((hgt y x).mpr h)
        intro b hb
        rcases List.mem_append.mp hb with hb | hb
        · exact not_lt.mpr ((hle b hb).trans hy)
        · rw [List.mem_singleton.mp hb]
          exact not_lt.mpr hy
      rw [if_neg hyx, orderedInsert_last _ hlast]
      simp

theorem swapSort_eq (entries : List α) : swapSort gt entries = entries.insertionSort fun a b => key a ≤ key b := by
  induction entries using List.reverseRecOn with
  | nil => rfl
  | append_singleton entries x ih =>
    have hdone : entries.foldl (fun done x => sinkLeft gt x done) [] =
        (entries.insertionSort fun a b => key a ≤ key b).reverse := by rw [← ih, swapSort, List.reverse_reverse]
    have : Std.Total fun a b => key a ≤ key b := ⟨fun a b => le_total _ _⟩
    have : IsTrans α fun a b => key a ≤ key b := ⟨fun a b c => le_trans⟩
    rw [insertionSort_append_singleton, ← sinkLeft_reverse hgt x (List.pairwise_insertionSort _ entries), swapSort,
      List.foldl_append, hdone]
    rfl

end

end Whippet.Lib
