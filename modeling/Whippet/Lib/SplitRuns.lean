import Mathlib.Data.List.Basic

/-! Lists cut at the runs of separators in them, and joined with one separator in each gap. -/
namespace Whippet.Lib

variable {α : Type*} (p : α → Bool)

/-- The pieces between the runs of separators. A run at either end leaves an empty piece there. -/
def splitRuns : List α → List (List α)
  | [] => [[]]
  | a :: l =>
    if p a then (if l.head?.any p then splitRuns l else [] :: splitRuns l)
    else (splitRuns l).modifyHead (a :: ·)

variable {p} {l piece : List α} {pieces : List (List α)} {sep : α}

theorem splitRuns_append (h : ∀ a ∈ piece, p a = false) :
    splitRuns p (piece ++ l) = (splitRuns p l).modifyHead (piece ++ ·) := by
  induction piece with
  | nil => cases hl : splitRuns p l <;> simp [hl]
  | cons a piece ih =>
    obtain ⟨ha, hpiece⟩ := List.forall_mem_cons.mp h
    rw [List.cons_append, splitRuns, ha, if_neg Bool.false_ne_true, ih hpiece]
    cases splitRuns p l <;> rfl

theorem splitRuns_ne_nil (l : List α) : splitRuns p l ≠ [] := by
  induction l with
  | nil => simp [splitRuns]
  | cons a l ih =>
    rw [splitRuns]
    split_ifs
    · exact ih
    · simp
    · simpa using ih

theorem mem_splitRuns {a : α} (ha : a ∈ l) (hp : p a = false) : ∃ piece ∈ splitRuns p l, a ∈ piece := by
  induction l with
  | nil => simp at ha
  | cons b l ih =>
    rw [splitRuns]
    by_cases hb : p b = true
    · have hmem : a ∈ l := (List.mem_cons.mp ha).resolve_left fun h => by simp [h, hb] at hp
      obtain ⟨piece, hpiece, hapiece⟩ := ih hmem
      refine ⟨piece, ?_, hapiece⟩
      rw [if_pos hb]
      split_ifs
      · exact hpiece
      · exact List.mem_cons_of_mem _ hpiece
    · rw [if_neg hb]
      obtain ⟨first, rest, hl⟩ := List.exists_cons_of_ne_nil (splitRuns_ne_nil (p := p) l)
      rw [hl] at ih ⊢
      rw [List.modifyHead_cons]
      rcases List.mem_cons.mp ha with rfl | ha
      · exact ⟨a :: first, List.mem_cons_self, List.mem_cons_self⟩
      · obtain ⟨piece, hpiece, hapiece⟩ := ih ha
        rcases List.mem_cons.mp hpiece with rfl | hrest
        · exact ⟨b :: piece, List.mem_cons_self, List.mem_cons_of_mem _ hapiece⟩
        · exact ⟨piece, List.mem_cons_of_mem _ hrest, hapiece⟩

section
variable (h : ∀ piece ∈ pieces, piece ≠ [] ∧ ∀ a ∈ piece, p a = false)
include h

theorem head_intercalate : ∀ a ∈ ([sep].intercalate pieces).head?, p a = false := by
  cases pieces with
  | nil => simp [List.intercalate]
  | cons piece pieces =>
    obtain ⟨hne, hpiece⟩ := h piece List.mem_cons_self
    obtain ⟨b, piece, rfl⟩ := List.exists_cons_of_ne_nil hne
    have hhead : ([sep].intercalate ((b :: piece) :: pieces)).head? = some b := by
      cases pieces <;> simp [List.intercalate]
    intro a ha
    obtain rfl := Option.some.inj (hhead.symm.trans ha)
    exact hpiece b List.mem_cons_self

theorem getLast_intercalate : ∀ a ∈ ([sep].intercalate pieces).getLast?, p a = false := by
  induction pieces with
  | nil => simp [List.intercalate]
  | cons piece pieces ih =>
    obtain ⟨⟨-, hpiece⟩, hrest⟩ := List.forall_mem_cons.mp h
    cases pieces with
    | nil =>
      intro a ha
      rw [List.intercalate_singleton] at ha
      exact hpiece a (List.mem_of_getLast? ha)
    | cons next pieces =>
      have hne : [sep].intercalate (next :: pieces) ≠ [] := by
        have := (h next (by simp)).1
        cases pieces <;> simp [List.intercalate, this]
      obtain ⟨a, ha⟩ := Option.ne_none_iff_exists'.mp (mt List.getLast?_eq_none_iff.mp hne)
      intro b hb
      rw [List.intercalate_cons_cons, List.append_assoc, List.getLast?_append, List.getLast?_append, ha] at hb
      exact ih hrest b (ha.trans hb)

theorem splitRuns_intercalate (hsep : p sep = true) (hpieces : pieces ≠ []) :
    splitRuns p ([sep].intercalate pieces) = pieces := by
  induction pieces with
  | nil => exact absurd rfl hpieces
  | cons piece pieces ih =>
    obtain ⟨⟨-, hpiece⟩, hrest⟩ := List.forall_mem_cons.mp h
    cases pieces with
    | nil =>
      have hlast := splitRuns_append (l := []) hpiece
      simpa [splitRuns, List.intercalate] using hlast
    | cons next pieces =>
      have hhead : ([sep].intercalate (next :: pieces)).head?.any p = false := by
        rw [Option.any_eq_false]
        exact head_intercalate hrest
      rw [List.intercalate_cons_cons, List.append_assoc, splitRuns_append hpiece, List.singleton_append, splitRuns,
        if_pos hsep, hhead, if_neg Bool.false_ne_true, ih hrest (List.cons_ne_nil _ _), List.modifyHead_cons,
        List.append_nil]

end
end Whippet.Lib
