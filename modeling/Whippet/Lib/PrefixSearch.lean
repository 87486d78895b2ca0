import Mathlib.Data.List.Basic

/-! A loop that takes entries from the front of a list until what it has taken will do. -/
namespace Whippet.Lib

section
variable {α β : Type*}

/-- The first answer for the entries taken so far and one or more that follow. -/
def searchPrefix (stop? : List α → Option β) : List α → List α → Option β
  | _, [] => none
  | taken, x :: rest => (stop? (taken ++ [x])).or (searchPrefix stop? (taken ++ [x]) rest)

variable {stop? : List α → Option β} {taken rest : List α}

theorem searchPrefix_isSome :
    (searchPrefix stop? taken rest).isSome ↔ ∃ more, more <+: rest ∧ more ≠ [] ∧ (stop? (taken ++ more)).isSome := by
  induction rest generalizing taken with
  | nil => simp [searchPrefix]
  | cons x rest ih =>
    rw [searchPrefix, Option.isSome_or, Bool.or_eq_true, ih]
    constructor
    · rintro (h | ⟨more, hmore, -, h⟩)
      · exact ⟨[x], by simp, by simp, h⟩
      · exact ⟨x :: more, by simpa using hmore, by simp, by simpa using h⟩
    · rintro ⟨more, hmore, hne, h⟩
      obtain ⟨a, more, rfl⟩ := List.exists_cons_of_ne_nil hne
      obtain ⟨rfl, hpre⟩ := List.cons_prefix_cons.mp hmore
      rcases eq_or_ne more [] with rfl | hne
      · exact .inl h
      · exact .inr ⟨more, hpre, hne, by simpa using h⟩

/-- Two searches whose answers correspond on every run of entries find corresponding answers. -/
theorem searchPrefix_map {α' β' : Type*} {stop' : List α' → Option β'} (f : α → α') (g : β → β')
    (h : ∀ more, more <+: rest → stop' ((taken ++ more).map f) = (stop? (taken ++ more)).map g) :
    searchPrefix stop' (taken.map f) (rest.map f) = (searchPrefix stop? taken rest).map g := by
  induction rest generalizing taken with
  | nil => rfl
  | cons x rest ih =>
    have hstop : stop' (taken.map f ++ [f x]) = (stop? (taken ++ [x])).map g := by simpa using h [x] (by simp)
    have hrest : searchPrefix stop' ((taken ++ [x]).map f) (rest.map f) = (searchPrefix stop? (taken ++ [x]) rest).map g :=
      ih fun more hmore => by simpa using h (x :: more) (by simpa using hmore)
    rw [List.map_cons, searchPrefix, hstop, searchPrefix, Option.map_or]
    congr 1
    simpa using hrest

end

end Whippet.Lib
