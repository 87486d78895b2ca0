import Whippet.Consensus.Params

/-! The proof-of-work and merge-mining fields of `Consensus::Params`, with the values of the main network. -/
namespace Whippet.Consensus
open Primitives

/-- `Consensus::Params` with the fields that difficulty and proof of work read. -/
structure PowParams extends Params where
  powLimit : Uint256
  nPowTargetSpacing : ℤ
  nPowTargetTimespan : ℤ
  fDigishieldDifficultyCalculation : Bool
  fLWMADifficultyCalculation : Bool
  nAuxpowChainId : Int32
  fStrictChainId : Bool
  deriving DecidableEq, Repr

def PowParams.difficultyAdjustmentInterval (params : PowParams) : ℤ :=
  params.nPowTargetTimespan.tdiv params.nPowTargetSpacing

namespace MainPow

def consensus : PowParams where
  toParams := MainParams.consensus
  powLimit := uint256S 0x0000ffffffffffffffffffffffffffffffffffffffffffffffffffffffffffff
  nPowTargetSpacing := 6
  nPowTargetTimespan := 4 * 60 * 60
  fDigishieldDifficultyCalculation := false
  fLWMADifficultyCalculation := false
  nAuxpowChainId := 0x0062
  fStrictChainId := true

def digishieldConsensus : PowParams :=
  { consensus with
    toParams := MainParams.digishieldConsensus, fLWMADifficultyCalculation := true, nPowTargetTimespan := 60 }

def chainIdFixConsensus : PowParams :=
  { digishieldConsensus with toParams := MainParams.chainIdFixConsensus, nAuxpowChainId := 0x5750 }

def minSpacingConsensus : PowParams := { chainIdFixConsensus with toParams := MainParams.minSpacingConsensus }

def auxpowConsensus : PowParams := { minSpacingConsensus with toParams := MainParams.auxpowConsensus }

def lwma : List PowParams := [digishieldConsensus, chainIdFixConsensus, minSpacingConsensus, auxpowConsensus]

end MainPow

theorem getConsensus_mem_lwma {nTargetHeight : ℕ} (h : 240 ≤ nTargetHeight) :
    mainParams.getConsensus nTargetHeight ∈ MainPow.lwma.map PowParams.toParams := by
  have hmem : ∀ params ∈ [MainParams.digishieldConsensus, MainParams.chainIdFixConsensus,
      MainParams.minSpacingConsensus, MainParams.auxpowConsensus], params ∈ MainPow.lwma.map PowParams.toParams := by
    decide
  have hroot := hmem MainParams.digishieldConsensus (by simp)
  have hright : mainParams.pRight.All (· ∈ MainPow.lwma.map PowParams.toParams) :=
    ⟨hmem _ (by simp), trivial, hmem _ (by simp), trivial, hmem _ (by simp), trivial, trivial⟩
  have hheight : ¬ nTargetHeight < mainParams.root.nHeightEffective := Nat.not_lt.mpr h
  rw [CChainParams.getConsensus, ParamsTree.getConsensus, if_neg hheight]
  dsimp only
  split_ifs
  · exact ParamsTree.getConsensus_of_all nTargetHeight hright hroot
  · exact hroot
  · exact hroot

end Whippet.Consensus
