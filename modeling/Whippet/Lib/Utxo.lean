import Mathlib.Data.List.Basic

/-! Ledgers of unspent outputs over arbitrary transactions, outpoints and outputs. -/
namespace Whippet.Lib

/-- What a transaction spends, and what it creates under which outpoint. -/
structure Utxo (T P O : Type*) where
  spends : T → List P
  creates : T → P → Option O

namespace Utxo

variable {T P O : Type*} (M : Utxo T P O)

def apply [DecidableEq P] (view : P → Option O) (tx : T) (q : P) : Option O :=
  match M.creates tx q with
  | some o => some o
  | none => if q ∈ M.spends tx then none else view q

/-- The transaction spends what is unspent and creates under outpoints that the history has not used. -/
structure Admissible (hist : List T) (view : P → Option O) (tx : T) : Prop where
  available : ∀ q ∈ M.spends tx, ∃ o, view q = some o
  fresh : ∀ q o, M.creates tx q = some o → ∀ tx' ∈ hist, M.creates tx' q = none

/-- What is unspent was created and not spent; an outpoint is created once. -/
structure Ledger (hist : List T) (view : P → Option O) : Prop where
  created : ∀ q o, view q = some o → ∃ tx ∈ hist, M.creates tx q = some o
  spent : ∀ tx ∈ hist, ∀ q ∈ M.spends tx, view q = none
  known : ∀ tx ∈ hist, ∀ q ∈ M.spends tx, ∃ tx' ∈ hist, ∃ o, M.creates tx' q = some o
  unique : ∀ tx ∈ hist, ∀ tx' ∈ hist, ∀ q o o', M.creates tx q = some o → M.creates tx' q = some o' → o = o'

variable {M} {hist : List T} {view : P → Option O} {tx : T}

theorem ledger_nil : M.Ledger [] fun _ => none := by
  constructor <;> simp

theorem Admissible.not_creates (ha : M.Admissible hist view tx) {q : P} {o : O}
    (hq : ∃ tx' ∈ hist, M.creates tx' q = some o) : M.creates tx q = none := by
  obtain ⟨tx', hmem, ho⟩ := hq
  cases h : M.creates tx q with
  | none => rfl
  | some o' =>
    have hnone := ha.fresh q o' h tx' hmem
    rw [ho] at hnone
    contradiction

/-- The view has all that was created and not spent, and nothing was spent twice. -/
structure Exact (M : Utxo T P O) (hist : List T) (view : P → Option O) : Prop extends M.Ledger hist view where
  unspent : ∀ tx ∈ hist, ∀ q o, M.creates tx q = some o → (∀ tx' ∈ hist, q ∉ M.spends tx') → view q = some o
  once : (hist.flatMap M.spends).Nodup

theorem Exact.view_iff (h : M.Exact hist view) {q : P} {o : O} :
    view q = some o ↔ (∃ tx ∈ hist, M.creates tx q = some o) ∧ ∀ tx ∈ hist, q ∉ M.spends tx := by
  constructor
  · intro hq
    refine ⟨h.created q o hq, fun tx hmem hspent => ?_⟩
    rw [h.spent tx hmem q hspent] at hq
    contradiction
  · rintro ⟨⟨tx, hmem, hc⟩, hnot⟩
    exact h.unspent tx hmem q o hc hnot

variable [DecidableEq P]

theorem apply_of_creates {q : P} {o : O} (h : M.creates tx q = some o) : M.apply view tx q = some o := by
  simp [apply, h]

theorem apply_of_not_creates {q : P} (h : M.creates tx q = none) :
    M.apply view tx q = if q ∈ M.spends tx then none else view q := by
  simp [apply, h]

theorem Ledger.step (h : M.Ledger hist view) (ha : M.Admissible hist view tx) :
    M.Ledger (hist ++ [tx]) (M.apply view tx) := by
  -- an outpoint spent up to now was created in the history
  have hknown : ∀ tx' ∈ hist ++ [tx], ∀ q ∈ M.spends tx', ∃ tx'' ∈ hist, ∃ o, M.creates tx'' q = some o := by
    intro tx' hmem q hq
    rcases List.mem_append.mp hmem with hold | hnew
    · exact h.known tx' hold q hq
    · obtain rfl := List.mem_singleton.mp hnew
      obtain ⟨o, ho⟩ := ha.available q hq
      obtain ⟨tx'', hmem'', ho''⟩ := h.created q o ho
      exact ⟨tx'', hmem'', o, ho''⟩
  constructor
  case created =>
    intro q o hq
    cases hc : M.creates tx q with
    | some o' =>
      rw [apply_of_creates hc, Option.some.injEq] at hq
      exact ⟨tx, by simp, hq ▸ hc⟩
    | none =>
      rw [apply_of_not_creates hc] at hq
      split_ifs at hq
      obtain ⟨tx', hmem, ho⟩ := h.created q o hq
      exact ⟨tx', List.mem_append_left _ hmem, ho⟩
  case spent =>
    intro tx' hmem q hq
    obtain ⟨tx'', hmem'', o, ho⟩ := hknown tx' hmem q hq
    rw [apply_of_not_creates (ha.not_creates ⟨tx'', hmem'', ho⟩)]
    split_ifs with hspent
    · rfl
    · rcases List.mem_append.mp hmem with hold | hnew
      · exact h.spent tx' hold q hq
      · obtain rfl := List.mem_singleton.mp hnew
        contradiction
  case known =>
    intro tx' hmem q hq
    obtain ⟨tx'', hmem'', ho⟩ := hknown tx' hmem q hq
    exact ⟨tx'', List.mem_append_left _ hmem'', ho⟩
  case unique =>
    intro tx₁ h₁ tx₂ h₂ q o₁ o₂ ho₁ ho₂
    simp only [List.mem_append, List.mem_singleton] at h₁ h₂
    rcases h₁ with h₁ | rfl <;> rcases h₂ with h₂ | rfl
    · exact h.unique tx₁ h₁ tx₂ h₂ q o₁ o₂ ho₁ ho₂
    · rw [ha.not_creates ⟨tx₁, h₁, ho₁⟩] at ho₂
      contradiction
    · rw [ha.not_creates ⟨tx₂, h₂, ho₂⟩] at ho₁
      contradiction
    · exact Option.some.inj (ho₁.symm.trans ho₂)

theorem Ledger.apply_eq (h : M.Ledger hist view) (ha : M.Admissible hist view tx) {q : P} {o : O}
    (hq : view q = some o) (hnot : q ∉ M.spends tx) : M.apply view tx q = some o := by
  rw [apply_of_not_creates (ha.not_creates (h.created q o hq)), if_neg hnot, hq]

theorem Ledger.view_eq (h : M.Ledger hist view) (ha : M.Admissible hist view tx) {q : P} {o : O}
    (hq : q ∈ M.spends tx) (ho : ∃ tx' ∈ hist ++ [tx], M.creates tx' q = some o) : view q = some o := by
  obtain ⟨o', ho'⟩ := ha.available q hq
  obtain ⟨tx₁, h₁, hc₁⟩ := h.created q o' ho'
  obtain ⟨tx₂, h₂, hc₂⟩ := ho
  rw [ho', (h.step ha).unique tx₁ (List.mem_append_left _ h₁) tx₂ h₂ q o' o hc₁ hc₂]

theorem Exact.step (h : M.Exact hist view) (ha : M.Admissible hist view tx) (hnodup : (M.spends tx).Nodup) :
    M.Exact (hist ++ [tx]) (M.apply view tx) where
  toLedger := h.toLedger.step ha
  unspent tx' hmem q o hc hnot := by
    rcases List.mem_append.mp hmem with hold | hnew
    · have hview := h.unspent tx' hold q o hc fun t ht => hnot t (List.mem_append_left _ ht)
      exact h.toLedger.apply_eq ha hview (hnot tx (by simp))
    · rw [List.mem_singleton.mp hnew] at hc
      exact apply_of_creates hc
  once := by
    rw [List.flatMap_append, List.flatMap_singleton]
    refine List.nodup_append.mpr ⟨h.once, hnodup, ?_⟩
    -- what was spent before is no longer there to be spent
    rintro q hq _ hq' rfl
    obtain ⟨t, ht, hspent⟩ := List.mem_flatMap.mp hq
    obtain ⟨o, ho⟩ := ha.available q hq'
    rw [h.spent t ht q hspent] at ho
    contradiction

end Utxo
end Whippet.Lib
