import Mathlib.Data.List.Basic

/-! Lists whose entries need the keys of others: taking entries away together with all that need them. -/
namespace Whippet.Lib

variable {α κ : Type*} (key : α → κ) (needs : α → List κ)

/-- A part of a list in which nothing has lost a key it needs, the listed keys apart. -/
structure Keeps (lost : List κ) (l l' : List α) : Prop where
  sub : ∀ a ∈ l', a ∈ l
  needed : ∀ a ∈ l', ∀ k ∈ needs a, k ∈ l.map key → k ∈ l'.map key ∨ k ∈ lost

section
variable [DecidableEq κ]

def needsAny (keys : List κ) (a : α) : Bool := (needs a).any (· ∈ keys)

/-- Take away what needs one of the keys, then what needs one of the entries taken away, and so on. There are at most
as many rounds as entries. -/
def removeDependents : ℕ → List κ → List α → List α
  | 0, _, l => l
  | n + 1, keys, l =>
    let children := l.filter (needsAny needs keys)
    if children = [] then l
    else removeDependents n (children.map key) (l.filter fun a => !needsAny needs keys a)

/-- Take away the entries with these keys and all that depend on them. -/
def removeWithDependents (roots : List κ) (l : List α) : List α :=
  let rest := l.filter fun a => key a ∉ roots
  removeDependents key needs (rest.length + 1) roots rest

end

variable {key needs} {lost lost' : List κ} {l l' l'' : List α}

theorem Keeps.refl : Keeps key needs [] l l := ⟨fun _ => id, fun _ _ _ _ => Or.inl⟩

theorem Keeps.trans (h : Keeps key needs lost l l') (h' : Keeps key needs lost' l' l'') :
    Keeps key needs (lost ++ lost') l l'' where
  sub a ha := h.sub a (h'.sub a ha)
  needed a ha k hk hmem := by
    rcases h.needed a (h'.sub a ha) k hk hmem with hkept | hlost
    · exact (h'.needed a ha k hk hkept).imp id fun hlost => List.mem_append_right _ hlost
    · exact Or.inr (List.mem_append_left _ hlost)

variable [DecidableEq κ]

theorem needsAny_eq_false {keys : List κ} {a : α} : needsAny needs keys a = false ↔ ∀ k ∈ needs a, k ∉ keys := by
  simp [needsAny]

theorem keeps_filter_key (roots : List κ) : Keeps key needs roots l (l.filter fun a => key a ∉ roots) where
  sub _ ha := (List.mem_filter.mp ha).1
  needed a ha k hk hmem := by
    obtain ⟨b, hb, rfl⟩ := List.mem_map.mp hmem
    by_cases hroot : key b ∈ roots
    · exact Or.inr hroot
    · exact Or.inl (List.mem_map_of_mem (List.mem_filter.mpr ⟨hb, by simpa using hroot⟩))

theorem length_filter_not_lt {p : α → Bool} (h : l.filter p ≠ []) : (l.filter fun a => !p a).length < l.length := by
  have hsum := List.length_eq_length_filter_add (l := l) p
  have hpos : 0 < (l.filter p).length := List.length_pos_iff.mpr h
  have hnot : (l.filter fun a => !p a).length = (l.filter (! p ·)).length := rfl
  omega

/-- With enough rounds nothing that is left needs the keys or an entry taken away. -/
theorem removeDependents_spec {n : ℕ} {keys : List κ} (hn : l.length < n) :
    Keeps key needs [] l (removeDependents key needs n keys l) ∧
      ∀ a ∈ removeDependents key needs n keys l, ∀ k ∈ needs a, k ∉ keys := by
  induction n generalizing keys l with
  | zero => omega
  | succ n ih =>
    unfold removeDependents
    dsimp only
    split_ifs with hnil
    · refine ⟨.refl, fun a ha => needsAny_eq_false.mp ?_⟩
      simpa using List.filter_eq_nil_iff.mp hnil a ha
    · have hlen : (l.filter fun a => !needsAny needs keys a).length < n := by
        have := length_filter_not_lt hnil
        omega
      obtain ⟨hkeeps, hfree⟩ := @ih _ ((l.filter (needsAny needs keys)).map key) hlen
      have hrest : ∀ a ∈ removeDependents key needs n ((l.filter (needsAny needs keys)).map key)
          (l.filter fun a => !needsAny needs keys a), needsAny needs keys a = false := by
        intro a ha
        simpa using (List.mem_filter.mp (hkeeps.sub a ha)).2
      refine ⟨⟨fun a ha => (List.mem_filter.mp (hkeeps.sub a ha)).1, ?_⟩, fun a ha => needsAny_eq_false.mp (hrest a ha)⟩
      intro a ha k hk hmem
      obtain ⟨b, hb, rfl⟩ := List.mem_map.mp hmem
      cases hneeds : needsAny needs keys b with
      | true =>
        exact absurd (List.mem_map_of_mem (List.mem_filter.mpr ⟨hb, hneeds⟩)) (hfree a ha _ hk)
      | false =>
        refine hkeeps.needed a ha _ hk (List.mem_map_of_mem (List.mem_filter.mpr ⟨hb, ?_⟩))
        simp [hneeds]

theorem removeDependents_sublist (n : ℕ) (keys : List κ) (l : List α) :
    (removeDependents key needs n keys l).Sublist l := by
  induction n generalizing keys l with
  | zero => exact .refl l
  | succ n ih =>
    unfold removeDependents
    dsimp only
    split_ifs
    · exact .refl l
    · exact (ih _ _).trans List.filter_sublist

theorem removeWithDependents_sublist (roots : List κ) (l : List α) :
    (removeWithDependents key needs roots l).Sublist l :=
  (removeDependents_sublist _ _ _).trans List.filter_sublist

theorem removeWithDependents_spec (roots : List κ) :
    Keeps key needs [] l (removeWithDependents key needs roots l) ∧
      ∀ a ∈ removeWithDependents key needs roots l, key a ∉ roots ∧ ∀ k ∈ needs a, k ∉ roots := by
  obtain ⟨hkeeps, hfree⟩ := @removeDependents_spec _ _ key needs (l.filter fun a => key a ∉ roots) _ _ roots
    (Nat.lt_succ_self _)
  have hboth := (keeps_filter_key roots).trans hkeeps
  refine ⟨⟨hboth.sub, ?_⟩, ?_⟩
  · intro a ha k hk hmem
    refine (hboth.needed a ha k hk hmem).imp id fun hlost => ?_
    rw [List.append_nil] at hlost
    exact absurd hlost (hfree a ha k hk)
  · intro a ha
    exact ⟨by simpa using (List.mem_filter.mp (hkeeps.sub a ha)).2, hfree a ha⟩

end Whippet.Lib
