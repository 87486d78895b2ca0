import Whippet.Consensus.Params

/-! The search for the parameters of a height finds the last ones that have come into use. -/
namespace Whippet.Consensus

def ParamsTree.toList : ParamsTree → List Params
  | .null => []
  | .node params pLeft pRight => pLeft.toList ++ params :: pRight.toList

/-- A search tree with distinct heights. -/
def ParamsTree.Ordered (tree : ParamsTree) : Prop :=
  tree.toList.Pairwise fun p q => p.nHeightEffective < q.nHeightEffective

def CChainParams.tree (params : CChainParams) : ParamsTree := .node params.root params.pLeft params.pRight

instance (tree : ParamsTree) : Decidable tree.Ordered := inferInstanceAs (Decidable (List.Pairwise _ _))

/-- Of the entries in use at a height, the one that came into use last. -/
def IsLastEffective (entries : List Params) (nTargetHeight : ℕ) (params : Params) : Prop :=
  params ∈ entries ∧ params.nHeightEffective ≤ nTargetHeight ∧
    ∀ p ∈ entries, p.nHeightEffective ≤ nTargetHeight → p = params ∨ p.nHeightEffective < params.nHeightEffective

section
variable {params : Params} {pLeft pRight tree : ParamsTree} {nTargetHeight : ℕ}

theorem ParamsTree.ordered_node : (ParamsTree.node params pLeft pRight).Ordered ↔
    pLeft.Ordered ∧ pRight.Ordered ∧ (∀ p ∈ pLeft.toList, p.nHeightEffective < params.nHeightEffective) ∧
      ∀ p ∈ pRight.toList, params.nHeightEffective < p.nHeightEffective := by
  simp only [ParamsTree.Ordered, ParamsTree.toList, List.pairwise_append, List.pairwise_cons, List.mem_cons]
  constructor
  · rintro ⟨hleft, ⟨hroot, hright⟩, hcross⟩
    exact ⟨hleft, hright, fun p hp => hcross p hp params (.inl rfl), hroot⟩
  · rintro ⟨hleft, hright, hbelow, habove⟩
    refine ⟨hleft, ⟨habove, hright⟩, ?_⟩
    rintro p hp q (rfl | hq)
    · exact hbelow p hp
    · exact (hbelow p hp).trans (habove q hq)

theorem ParamsTree.getConsensus_mem (tree : ParamsTree) (nTargetHeight : ℕ) (this : Params) :
    tree.getConsensus nTargetHeight this ∈ tree.toList ∨ tree.getConsensus nTargetHeight this = this := by
  induction tree generalizing this with
  | null => exact .inr rfl
  | node params pLeft pRight ihLeft ihRight =>
    left
    simp only [ParamsTree.getConsensus, ParamsTree.toList, List.mem_append, List.mem_cons]
    split_ifs
    · exact (ihLeft params).elim .inl (.inr ∘ .inl)
    · exact (ihRight params).elim (.inr ∘ .inr) (.inr ∘ .inl)
    · exact .inr (.inl rfl)
    · exact .inr (.inl rfl)

/-- Where no entry of the right branch is in use, its candidate is dropped or is the node itself. -/
theorem ParamsTree.candidate_dropped (hnone : ∀ p ∈ pRight.toList, nTargetHeight < p.nHeightEffective)
    (hle : (pRight.getConsensus nTargetHeight params).nHeightEffective ≤ nTargetHeight) :
    pRight.getConsensus nTargetHeight params = params := by
  rcases pRight.getConsensus_mem nTargetHeight params with hmem | heq
  · exact absurd (hnone _ hmem) (not_lt.mpr hle)
  · exact heq

theorem isLastEffective_root (hle : params.nHeightEffective ≤ nTargetHeight)
    (hbelow : ∀ p ∈ pLeft.toList, p.nHeightEffective < params.nHeightEffective)
    (hnone : ∀ p ∈ pRight.toList, nTargetHeight < p.nHeightEffective) :
    IsLastEffective (ParamsTree.node params pLeft pRight).toList nTargetHeight params := by
  refine ⟨by simp [ParamsTree.toList], hle, fun p hp hpn => ?_⟩
  simp only [ParamsTree.toList, List.mem_append, List.mem_cons] at hp
  rcases hp with hp | rfl | hp
  · exact .inr (hbelow p hp)
  · exact .inl rfl
  · exact absurd (hnone p hp) (not_lt.mpr hpn)

theorem ParamsTree.getConsensus_isLastEffective (this : Params) (hordered : tree.Ordered)
    (hex : ∃ p ∈ tree.toList, p.nHeightEffective ≤ nTargetHeight) :
    IsLastEffective tree.toList nTargetHeight (tree.getConsensus nTargetHeight this) := by
  induction tree generalizing this with
  | null => simp [ParamsTree.toList] at hex
  | node params pLeft pRight ihLeft ihRight =>
    obtain ⟨hleft, hright, hbelow, habove⟩ := ParamsTree.ordered_node.mp hordered
    simp only [ParamsTree.getConsensus]
    split_ifs with hlt hgt hcand
    · -- the node and its right branch are not in use yet
      have hlate : ∀ p ∈ params :: pRight.toList, nTargetHeight < p.nHeightEffective :=
        List.forall_mem_cons.mpr ⟨hlt, fun p hp => hlt.trans (habove p hp)⟩
      have hin : ∀ p ∈ (ParamsTree.node params pLeft pRight).toList, p.nHeightEffective ≤ nTargetHeight →
          p ∈ pLeft.toList := by
        intro p hp hpn
        exact (List.mem_append.mp hp).resolve_right fun hr => absurd (hlate p hr) (not_lt.mpr hpn)
      obtain ⟨p, hp, hpn⟩ := hex
      obtain ⟨hmem, hle, hmax⟩ := ihLeft params hleft ⟨p, hin p hp hpn, hpn⟩
      exact ⟨List.mem_append_left _ hmem, hle, fun q hq hqn => hmax q (hin q hq hqn) hqn⟩
    · by_cases hsome : ∃ p ∈ pRight.toList, p.nHeightEffective ≤ nTargetHeight
      · obtain ⟨hmem, hle, hmax⟩ := ihRight params hright hsome
        have hroot := habove _ hmem
        refine ⟨by simp [ParamsTree.toList, hmem], hle, fun q hq hqn => ?_⟩
        simp only [ParamsTree.toList, List.mem_append, List.mem_cons] at hq
        rcases hq with hq | rfl | hq
        · exact .inr ((hbelow q hq).trans hroot)
        · exact .inr hroot
        · exact hmax q hq hqn
      · push Not at hsome
        rw [ParamsTree.candidate_dropped hsome hcand]
        exact isLastEffective_root hgt.le hbelow hsome
    · -- a candidate that is not in use means that no entry of the right branch is
      have hnone : ∀ p ∈ pRight.toList, nTargetHeight < p.nHeightEffective := by
        by_contra hsome
        push Not at hsome
        exact hcand (ihRight params hright hsome).2.1
      exact isLastEffective_root hgt.le hbelow hnone
    · have heq : params.nHeightEffective = nTargetHeight := by omega
      exact isLastEffective_root heq.le hbelow fun p hp => heq ▸ habove p hp

end

/-- The parameters of a height are those that came into use last, whatever the shape of the tree. -/
theorem getConsensus_isPredecessor (params : CChainParams) (nTargetHeight : ℕ) (hordered : params.tree.Ordered)
    (hex : ∃ p ∈ params.tree.toList, p.nHeightEffective ≤ nTargetHeight) :
    IsLastEffective params.tree.toList nTargetHeight (params.getConsensus nTargetHeight) :=
  ParamsTree.getConsensus_isLastEffective params.root hordered hex

/-- The main network between its second and third change of parameters. -/
theorem getConsensus_isPredecessor_main : mainParams.getConsensus 90000 = MainParams.chainIdFixConsensus ∧
    IsLastEffective mainParams.tree.toList 90000 MainParams.chainIdFixConsensus := by
  have heq : mainParams.getConsensus 90000 = MainParams.chainIdFixConsensus := by decide +kernel
  refine ⟨heq, ?_⟩
  rw [← heq]
  exact getConsensus_isPredecessor mainParams 90000 (by decide +kernel) (by decide +kernel)

end Whippet.Consensus
