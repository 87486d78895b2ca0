import Mathlib.Data.List.DropRight
import Mathlib.Data.List.TakeWhile

/-! Hosts and ports of addresses and the trimming of texts, as the Go standard library has them. -/
namespace Whippet.Lib

section
variable {α : Type} {p : α → Bool} {t l r : List α} {sep : α}

def splitLast [DecidableEq α] (sep : α) : List α → Option (List α × List α)
  | [] => none
  | c :: t =>
    match splitLast sep t with
    | some (l, r) => some (c :: l, r)
    | none => if c = sep then some ([], t) else none

theorem splitLast_eq_none [DecidableEq α] : splitLast sep t = none ↔ sep ∉ t := by
  induction t with
  | nil => simp [splitLast]
  | cons c t ih =>
    rw [splitLast, List.mem_cons, not_or, ← ih, ← ne_eq, ne_comm]
    split <;> simp_all

theorem splitLast_append [DecidableEq α] (l : List α) (h : sep ∉ r) : splitLast sep (l ++ sep :: r) = some (l, r) := by
  induction l with
  | nil => rw [List.nil_append, splitLast, splitLast_eq_none.mpr h, if_pos rfl]
  | cons c l ih => rw [List.cons_append, splitLast, ih]

theorem splitLast_spec [DecidableEq α] (h : splitLast sep t = some (l, r)) : t = l ++ sep :: r ∧ sep ∉ r := by
  induction t generalizing l r with
  | nil => cases h
  | cons c t ih =>
    rw [splitLast] at h
    split at h
    · rename_i l' r' hrest
      obtain ⟨rfl, hsep⟩ := ih hrest
      cases h
      exact ⟨rfl, hsep⟩
    · rename_i hrest
      obtain ⟨rfl, heq⟩ := Option.ite_none_right_eq_some.mp h
      cases heq
      exact ⟨rfl, splitLast_eq_none.mp hrest⟩

def strip (p : α → Bool) (t : List α) : List α := (t.dropWhile p).rdropWhile p

theorem rdropWhile_append_cons {c : α} (l r : List α) (hc : p c = false) :
    (l ++ c :: r).rdropWhile p = l ++ c :: r.rdropWhile p := by
  rw [List.rdropWhile, List.rdropWhile, List.reverse_append, List.reverse_cons, List.append_assoc, List.dropWhile_append]
  split
  · rename_i hempty
    rw [List.isEmpty_iff.mp hempty]
    simp [hc]
  · simp

theorem strip_append_cons {c : α} (hhead : ∀ d ∈ l.head?, p d = false) (hc : p c = false) :
    strip p (l ++ c :: r) = l ++ c :: r.rdropWhile p := by
  have hleft : (l ++ c :: r).dropWhile p = l ++ c :: r := by
    cases l with
    | nil => simp [hc]
    | cons d l => simp [hhead d rfl]
  rw [strip, hleft, rdropWhile_append_cons l r hc]

theorem strip_eq_self (h : ∀ c ∈ t, p c = false) : strip p t = t := by
  induction t using List.reverseRecOn with
  | nil => rfl
  | append_singleton t c _ =>
    rw [strip_append_cons (fun d hd => h d (by simp [List.mem_of_mem_head? hd])) (h c (by simp))]
    simp

theorem strip_strip (p : α → Bool) (t : List α) : strip p (strip p t) = strip p t := by
  cases hrest : t.dropWhile p with
  | nil => simp [strip, hrest]
  | cons c rest =>
    have hc := List.head_dropWhile_not p (l := t) (by simp [hrest])
    simp only [hrest, List.head_cons] at hc
    have hstrip : strip p t = c :: rest.rdropWhile p := by
      rw [strip, hrest]
      exact rdropWhile_append_cons [] rest hc
    rw [hstrip]
    have hagain := strip_append_cons (l := []) (r := rest.rdropWhile p) (by simp) hc
    rwa [List.rdropWhile_idempotent, List.nil_append] at hagain

theorem getLast?_strip (p : α → Bool) (t : List α) : (strip p t).getLast? = t.reverse.find? fun c => !p c := by
  have hlead : (t.takeWhile p).reverse.find? (fun c => !p c) = none := by
    simp only [List.find?_eq_none, List.mem_reverse]
    intro c hc
    simp [List.mem_takeWhile_imp hc]
  rw [strip, List.rdropWhile, List.getLast?_reverse]
  nth_rewrite 2 [← List.takeWhile_append_dropWhile (p := p) (l := t)]
  rw [List.reverse_append, List.find?_append, hlead, Option.or_none, List.find?_eq_head?_dropWhile_not]
  simp

end

/-- The host that an address with a port has before its last colon. -/
def hostBefore? : List Char → Option (List Char)
  | '[' :: rest =>
    if rest.getLast? = some ']' ∧ '[' ∉ rest ∧ ']' ∉ rest.dropLast then some rest.dropLast else none
  | before => if ':' ∈ before ∨ '[' ∈ before ∨ ']' ∈ before then none else some before

def splitHostPort? (t : List Char) : Option (List Char × List Char) := do
  let (before, port) ← splitLast ':' t
  if '[' ∈ port ∨ ']' ∈ port then none else (hostBefore? before).map (·, port)

/-- The host of an address, or the address itself where it has no port. -/
def hostOf (t : List Char) : List Char := ((splitHostPort? t).map (·.1)).getD t

end Whippet.Lib
