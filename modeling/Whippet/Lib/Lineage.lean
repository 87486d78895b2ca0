import Mathlib.Data.Int.Order.Basic
import Whippet.Lib.Utxo

/-! Lineages of outputs in a ledger. A root founds a lineage when it is spent; positions hold it. -/
namespace Whippet.Lib

/-- A ledger whose outputs may be the root of a lineage or a position in one. A root may be spent only
when it is admitted. -/
structure LineageModel (T P O K : Type*) extends Utxo T P O where
  root : P → O → Option K
  holds : O → Option K
  admits : O → Prop

namespace LineageModel

variable {T P O K : Type*} (M : LineageModel T P O K)

/-- The output belongs to the lineage, as its root or as a position. -/
def Belongs (k : K) (p : P) (o : O) : Prop := M.root p o = some k ∨ M.holds o = some k

/-- Every lineage created by the transaction is one it spends from. -/
def Backed (view : P → Option O) (tx : T) : Prop :=
  ∀ q o k, M.creates tx q = some o → M.holds o = some k →
    ∃ p ∈ M.spends tx, ∃ o', view p = some o' ∧ M.Belongs k p o'

/-- Every root the transaction spends is admitted. -/
def Admitted (view : P → Option O) (tx : T) : Prop :=
  ∀ p ∈ M.spends tx, ∀ o k, view p = some o → M.root p o = some k → M.admits o

/-- Every lineage the transaction spends from has a new position. -/
def Continued (view : P → Option O) (tx : T) : Prop :=
  ∀ p ∈ M.spends tx, ∀ o k, view p = some o → M.Belongs k p o →
    ∃ q o', M.creates tx q = some o' ∧ M.holds o' = some k

/-- A root that the history created and spent. -/
structure SpentRoot (hist : List T) (k : K) (p : P) (o : O) : Prop where
  root : M.root p o = some k
  created : ∃ tx ∈ hist, M.creates tx p = some o
  spent : ∃ tx ∈ hist, p ∈ M.spends tx

/-- Positions have a spent root, and the lineage of a spent root has an unspent position. -/
structure Lineages (hist : List T) (view : P → Option O) : Prop extends M.Ledger hist view where
  admitted : ∀ k p o, M.SpentRoot hist k p o → M.admits o
  backed : ∀ tx ∈ hist, ∀ q o k, M.creates tx q = some o → M.holds o = some k →
    ∃ p o', M.SpentRoot hist k p o'
  alive : ∀ k p o, M.SpentRoot hist k p o → ∃ q o', view q = some o' ∧ M.holds o' = some k

variable {M} {hist : List T} {view : P → Option O} {tx : T} {k : K} {p : P} {o : O}

theorem not_spentRoot_nil : ¬ M.SpentRoot [] k p o := by
  intro h
  obtain ⟨tx, hmem, -⟩ := h.spent
  simp at hmem

theorem lineages_nil (h : M.Ledger [] view) : M.Lineages [] view where
  toLedger := h
  admitted := fun _ _ _ hroot => absurd hroot not_spentRoot_nil
  backed := by simp
  alive := fun _ _ _ hroot => absurd hroot not_spentRoot_nil

theorem SpentRoot.mono (h : M.SpentRoot hist k p o) (later : List T) : M.SpentRoot (hist ++ later) k p o where
  root := h.root
  created := let ⟨tx, hmem, hc⟩ := h.created; ⟨tx, List.mem_append_left _ hmem, hc⟩
  spent := let ⟨tx, hmem, hs⟩ := h.spent; ⟨tx, List.mem_append_left _ hmem, hs⟩

theorem spentRoot_of_spends (hl : M.Ledger hist view) (hp : p ∈ M.spends tx) (ho : view p = some o)
    (hroot : M.root p o = some k) : M.SpentRoot (hist ++ [tx]) k p o where
  root := hroot
  created := let ⟨tx', hmem, hc⟩ := hl.created p o ho; ⟨tx', List.mem_append_left _ hmem, hc⟩
  spent := ⟨tx, by simp, hp⟩

theorem SpentRoot.cases [DecidableEq P] (hl : M.Ledger hist view) (ha : M.Admissible hist view tx)
    (h : M.SpentRoot (hist ++ [tx]) k p o) :
    (p ∈ M.spends tx ∧ view p = some o) ∨ (p ∉ M.spends tx ∧ M.SpentRoot hist k p o) := by
  by_cases hp : p ∈ M.spends tx
  · exact Or.inl ⟨hp, hl.view_eq ha hp h.created⟩
  · right
    obtain ⟨tx₁, h₁, hspent⟩ := h.spent
    have hold₁ : tx₁ ∈ hist := by
      rcases List.mem_append.mp h₁ with hold | hnew
      · exact hold
      · exact absurd (List.mem_singleton.mp hnew ▸ hspent) hp
    obtain ⟨tx₂, h₂, hc⟩ := h.created
    obtain ⟨tx₃, h₃, o₃, hc₃⟩ := hl.known tx₁ hold₁ p hspent
    have hold₂ : tx₂ ∈ hist := by
      rcases List.mem_append.mp h₂ with hold | hnew
      · exact hold
      · rw [List.mem_singleton.mp hnew, ha.not_creates ⟨tx₃, h₃, hc₃⟩] at hc
        contradiction
    exact ⟨hp, h.root, ⟨tx₂, hold₂, hc⟩, ⟨tx₁, hold₁, hspent⟩⟩

theorem Lineages.step [DecidableEq P] (h : M.Lineages hist view) (ha : M.Admissible hist view tx)
    (hb : M.Backed view tx) (had : M.Admitted view tx) (hc : M.Continued view tx) : M.Lineages (hist ++ [tx]) (M.apply view tx) where
  toLedger := h.toLedger.step ha
  admitted := by
    intro k p o hroot
    rcases hroot.cases h.toLedger ha with ⟨hp, hview⟩ | ⟨-, hold⟩
    · exact had p hp o k hview hroot.root
    · exact h.admitted k p o hold
  backed := by
    intro tx' hmem q o k hcreate hhold
    rcases List.mem_append.mp hmem with hold | hnew
    · obtain ⟨p, o', hroot⟩ := h.backed tx' hold q o k hcreate hhold
      exact ⟨p, o', hroot.mono [tx]⟩
    · rw [List.mem_singleton.mp hnew] at hcreate
      obtain ⟨p, hp, o', ho', hroot | hpos⟩ := hb q o k hcreate hhold
      · exact ⟨p, o', spentRoot_of_spends h.toLedger hp ho' hroot⟩
      · obtain ⟨tx'', hmem'', hc''⟩ := h.created p o' ho'
        obtain ⟨r, o'', hroot⟩ := h.backed tx'' hmem'' p o' k hc'' hpos
        exact ⟨r, o'', hroot.mono [tx]⟩
  alive := by
    intro k p o hroot
    -- whatever the transaction takes from the lineage it gives back a position of
    have hrenew : ∀ q ∈ M.spends tx, ∀ o, view q = some o → M.Belongs k q o →
        ∃ q o', M.apply view tx q = some o' ∧ M.holds o' = some k := by
      intro q hq o ho hbel
      obtain ⟨r, o', hcreate, hhold⟩ := hc q hq o k ho hbel
      exact ⟨r, o', Utxo.apply_of_creates hcreate, hhold⟩
    rcases hroot.cases h.toLedger ha with ⟨hp, hview⟩ | ⟨hp, hold⟩
    · exact hrenew p hp o hview (Or.inl hroot.root)
    · obtain ⟨q, o', hq, hhold⟩ := h.alive k p o hold
      by_cases hspent : q ∈ M.spends tx
      · exact hrenew q hspent o' hq (Or.inr hhold)
      · exact ⟨q, o', h.toLedger.apply_eq ha hq hspent, hhold⟩

section totals
variable (M) (value : O → ℤ)

/-- Different roots of the history found different lineages. -/
def RootsDistinct (hist : List T) : Prop :=
  ∀ k p o p' o', (∃ tx ∈ hist, M.creates tx p = some o) → (∃ tx ∈ hist, M.creates tx p' = some o') →
    M.root p o = some k → M.root p' o' = some k → p = p'

/-- How a transaction moves the totals of the lineages. Only spending a root can raise one, and a lineage
without positions gets at most the value of its root. -/
structure Moves (view : P → Option O) (tx : T) (before after : K → ℤ) : Prop where
  kept : ∀ k, (∀ p ∈ M.spends tx, ∀ o, view p = some o → M.root p o ≠ some k) → after k ≤ before k
  issued : ∀ k, ∀ p ∈ M.spends tx, ∀ o, view p = some o → M.root p o = some k →
    (∀ q o', view q = some o' → M.holds o' ≠ some k) → after k ≤ value o

/-- The total of a lineage stays within the value of its spent root. -/
def Capped (hist : List T) (total : K → ℤ) : Prop := ∀ k p o, M.SpentRoot hist k p o → total k ≤ value o

variable {M} {value} {before after : K → ℤ}

theorem Lineages.total_le (h : M.Lineages hist view) (hd : M.RootsDistinct hist)
    (hm : M.Moves value view tx before after) (hroot : M.SpentRoot hist k p o) :
    after k ≤ before k := by
  apply hm.kept k
  intro p' hp' o' ho' hroot'
  obtain ⟨tx', hmem, hspent⟩ := hroot.spent
  have heq : p' = p := hd k p' o' p o (h.created p' o' ho') hroot.created hroot' hroot.root
  rw [heq, h.spent tx' hmem p hspent] at ho'
  contradiction

theorem Capped.step [DecidableEq P] (hcap : M.Capped value hist before) (h : M.Lineages hist view)
    (hd : M.RootsDistinct hist) (ha : M.Admissible hist view tx) (hm : M.Moves value view tx before after) :
    M.Capped value (hist ++ [tx]) after := by
  intro k p o hroot
  rcases hroot.cases h.toLedger ha with ⟨hp, hview⟩ | ⟨-, hold⟩
  · apply hm.issued k p hp o hview hroot.root
    -- a position of the lineage would have a spent root, which can only be `p`, still unspent
    intro q o' hq hhold
    obtain ⟨tx', hmem, hc⟩ := h.created q o' hq
    obtain ⟨p', o'', hroot'⟩ := h.backed tx' hmem q o' k hc hhold
    have heq : p' = p := hd k p' o'' p o hroot'.created (h.created p o hview) hroot'.root hroot.root
    obtain ⟨tx'', hmem'', hspent⟩ := hroot'.spent
    rw [h.spent tx'' hmem'' p (heq ▸ hspent)] at hview
    contradiction
  · exact le_trans (h.total_le hd hm hold) (hcap k p o hold)

end totals

section descent
variable (M) (checked : T → Prop)

/-- The second outpoint is reached from the first by spends within one lineage. -/
inductive Descends (hist : List T) (k : K) (p : P) : P → Prop
  | refl : Descends hist k p p
  | step (q r : P) (tx : T) (o : O) : Descends hist k p q → tx ∈ hist → q ∈ M.spends tx →
      M.creates tx r = some o → M.holds o = some k → Descends hist k p r

/-- Where the positions of a lineage can begin: at an admitted root spent by a checked transaction, or at
a position made by an unchecked one. -/
def Source (hist : List T) (k : K) (p : P) : Prop :=
  (∃ o, M.root p o = some k ∧ M.admits o ∧ (∃ tx ∈ hist, M.creates tx p = some o) ∧
      ∃ tx ∈ hist, checked tx ∧ p ∈ M.spends tx) ∨
    ∃ tx ∈ hist, ¬ checked tx ∧ ∃ o, M.creates tx p = some o ∧ M.holds o = some k

/-- Every position of the history descends from a source. -/
def Traced (hist : List T) : Prop :=
  ∀ tx ∈ hist, ∀ q o k, M.creates tx q = some o → M.holds o = some k →
    ∃ p, M.Source checked hist k p ∧ M.Descends hist k p q

variable {M} {checked}

theorem Descends.mono {q : P} (h : M.Descends hist k p q) (later : List T) : M.Descends (hist ++ later) k p q := by
  induction h with
  | refl => exact .refl
  | step q r tx o _ hmem hs hc hh ih => exact .step q r tx o ih (List.mem_append_left _ hmem) hs hc hh

theorem Source.mono (h : M.Source checked hist k p) (later : List T) : M.Source checked (hist ++ later) k p := by
  rcases h with ⟨o, hroot, had, ⟨tx, hmem, hc⟩, tx', hmem', hch, hs⟩ | ⟨tx, hmem, hch, hpos⟩
  · exact Or.inl ⟨o, hroot, had, ⟨tx, List.mem_append_left _ hmem, hc⟩, tx', List.mem_append_left _ hmem', hch, hs⟩
  · exact Or.inr ⟨tx, List.mem_append_left _ hmem, hch, hpos⟩

theorem Traced.step (ht : M.Traced checked hist) (hl : M.Ledger hist view)
    (hcheck : checked tx → M.Backed view tx ∧ M.Admitted view tx) : M.Traced checked (hist ++ [tx]) := by
  intro tx' hmem q o k hcreate hhold
  rcases List.mem_append.mp hmem with hold | hnew
  · obtain ⟨p, hsource, hdesc⟩ := ht tx' hold q o k hcreate hhold
    exact ⟨p, hsource.mono [tx], hdesc.mono [tx]⟩
  · obtain rfl := List.mem_singleton.mp hnew
    by_cases hc : checked tx'
    · obtain ⟨hb, had⟩ := hcheck hc
      obtain ⟨p, hp, o', ho', hroot | hpos⟩ := hb q o k hcreate hhold
      · have hspent := spentRoot_of_spends hl hp ho' hroot
        refine ⟨p, Or.inl ⟨o', hroot, had p hp o' k ho' hroot, hspent.created, tx', by simp, hc, hp⟩, ?_⟩
        exact .step p q tx' o .refl (by simp) hp hcreate hhold
      · obtain ⟨tx₁, h₁, hc₁⟩ := hl.created p o' ho'
        obtain ⟨r, hsource, hdesc⟩ := ht tx₁ h₁ p o' k hc₁ hpos
        exact ⟨r, hsource.mono [tx'], .step p q tx' o (hdesc.mono [tx']) (by simp) hp hcreate hhold⟩
    · exact ⟨q, Or.inr ⟨tx', by simp, hc, o, hcreate, hhold⟩, .refl⟩

end descent

end LineageModel
end Whippet.Lib
