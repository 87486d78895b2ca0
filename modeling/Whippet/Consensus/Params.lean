import Whippet.Primitives.Block
import Whippet.Script.CScript

/-! Consensus parameters by height, the networks' values and the block subsidy. -/
namespace Whippet.Consensus
open Lib Primitives

/-- `Consensus::Params`, the fields that connecting a block and choosing its time read. -/
structure Params where
  hashGenesisBlock : Uint256
  nSubsidyHalvingInterval : ℕ
  bip34Height : ℕ
  bip34Hash : Uint256
  bip65Height : ℕ
  bip66Height : ℕ
  uapMintHeight : ℕ
  nCoinbaseMaturity : ℕ
  fSimplifiedRewards : Bool
  nMinBlockSpacing : ℤ
  nHeightEffective : ℕ
  deriving DecidableEq, Repr

/-- The tree behind the pointers `pLeft` and `pRight`. -/
inductive ParamsTree
  | null
  | node (params : Params) (pLeft pRight : ParamsTree)
  deriving DecidableEq, Repr

/-- `Params::GetConsensus`. The call is made on `this` when the pointer is null. -/
def ParamsTree.getConsensus (nTargetHeight : ℕ) : ParamsTree → Params → Params
  | .null, this => this
  | .node params pLeft pRight, _ =>
    if nTargetHeight < params.nHeightEffective then pLeft.getConsensus nTargetHeight params
    else if nTargetHeight > params.nHeightEffective then
      let candidate := pRight.getConsensus nTargetHeight params
      -- a candidate that is not yet effective is dropped
      if candidate.nHeightEffective ≤ nTargetHeight then candidate else params
    else params

def ParamsTree.All (P : Params → Prop) : ParamsTree → Prop
  | .null => True
  | .node params pLeft pRight => P params ∧ pLeft.All P ∧ pRight.All P

theorem ParamsTree.getConsensus_of_all {P : Params → Prop} (nTargetHeight : ℕ) {tree : ParamsTree} {this : Params}
    (h : tree.All P) (hthis : P this) : P (tree.getConsensus nTargetHeight this) := by
  induction tree generalizing this with
  | null => exact hthis
  | node params pLeft pRight ihLeft ihRight =>
    obtain ⟨hparams, hleft, hright⟩ := h
    simp only [ParamsTree.getConsensus]
    split_ifs
    · exact ihLeft hleft hparams
    · exact ihRight hright hparams
    · exact hparams
    · exact hparams

/-- `CChainParams`: the root of the tree and its branches. -/
structure CChainParams where
  root : Params
  pLeft : ParamsTree
  pRight : ParamsTree
  deriving DecidableEq, Repr

def CChainParams.getConsensus (params : CChainParams) (nTargetHeight : ℕ) : Params :=
  (ParamsTree.node params.root params.pLeft params.pRight).getConsensus nTargetHeight params.root

/-- A `uint256S` literal: the digits are read from the most significant end. -/
def uint256S (n : ℕ) : Uint256 := ⟨leBytes 32 n, leBytes_length 32 n⟩

namespace MainParams

def consensus : Params where
  hashGenesisBlock := uint256S 0x863714e1c1a15526a0081a35097c56e28dbd43ef97f76fec0ccd5a7510326292
  nSubsidyHalvingInterval := 1000000
  bip34Height := 1034383
  bip34Hash := uint256S 0x80d1364201e5df97e696c03bdd24dc885e8617b9de51e453c10a4f629b1e797a
  bip65Height := 3464751
  bip66Height := 1034383
  uapMintHeight := 82000
  nCoinbaseMaturity := 30
  fSimplifiedRewards := false
  nMinBlockSpacing := 6
  nHeightEffective := 0

def digishieldConsensus : Params :=
  { consensus with nHeightEffective := 240, fSimplifiedRewards := true, nCoinbaseMaturity := 240 }

def chainIdFixConsensus : Params := { digishieldConsensus with nHeightEffective := 80000 }

def minSpacingConsensus : Params := { chainIdFixConsensus with nHeightEffective := 100000, nMinBlockSpacing := 4 }

def auxpowConsensus : Params := { minSpacingConsensus with nHeightEffective := 371337 }

end MainParams

def mainParams : CChainParams where
  root := MainParams.digishieldConsensus
  pLeft := .node MainParams.consensus .null .null
  pRight := .node MainParams.chainIdFixConsensus .null
    (.node MainParams.minSpacingConsensus .null (.node MainParams.auxpowConsensus .null .null))

namespace RegTestParams

def consensus : Params where
  hashGenesisBlock := uint256S 0x2fd0127392635992184580433b3fc43eeaa5e8a40220d751ba39b742e9488ce0
  nSubsidyHalvingInterval := 150
  bip34Height := 100000000
  bip34Hash := Uint256.zero
  bip65Height := 1351
  bip66Height := 1251
  uapMintHeight := 0
  nCoinbaseMaturity := 60
  fSimplifiedRewards := true
  nMinBlockSpacing := 0
  nHeightEffective := 0

def digishieldConsensus : Params := { consensus with nHeightEffective := 10 }

def auxpowConsensus : Params := { digishieldConsensus with nHeightEffective := 20 }

def chainIdFixConsensus : Params := { auxpowConsensus with nHeightEffective := 80000 }

end RegTestParams

def regTestParams : CChainParams where
  root := RegTestParams.digishieldConsensus
  pLeft := .node RegTestParams.consensus .null .null
  pRight := .node RegTestParams.auxpowConsensus .null (.node RegTestParams.chainIdFixConsensus .null .null)

/-- `UpdateUAPMintHeight`, which writes the base parameters only. -/
def CChainParams.updateUAPMintHeight (params : CChainParams) (nHeight : ℕ) : CChainParams :=
  match params.pLeft with
  | .null => params
  | .node base pLeft pRight =>
    { params with pLeft := .node { base with uapMintHeight := nHeight } pLeft pRight }

def genesisOutputScript : Bytes :=
  Script.pushData (beBytes 65
    0x040184710fa689ad5023690c80f3a49c8f13f8d45b8c857fbcbc8bc4a8e4d3eb4b10f4d4604fa08dce601aaf0f470216fe1b51850b4acf21b179c45070ac7b03a9) ++
    [Script.opCheckSig]

/-- `CreateGenesisBlock`. The coinbase carries the text `YouMustWhippet`. -/
def createGenesisBlock (crypto : Crypto) (nTime nNonce nBits : UInt32) (nVersion : Int32) (genesisReward : Int64) :
    CBlock :=
  let txNew : CTransaction := {
    nVersion := 1
    vin := [⟨⟨Uint256.zero, 0xffffffff⟩,
      Script.pushInt64 486604799 ++ Script.pushData (Script.serialize 4) ++
        Script.pushData (beBytes 14 0x596f754d75737457686970706574), CTxIn.sequenceFinal, []⟩]
    vout := [⟨genesisReward, genesisOutputScript⟩]
    nLockTime := 0 }
  { nVersion := nVersion, hashPrevBlock := Uint256.zero, hashMerkleRoot := (computeMerkleRoot crypto [crypto.txid txNew]).1
    nTime := nTime, nBits := nBits, nNonce := nNonce, auxpow := [], vtx := [txNew] }

def regTestGenesis (crypto : Crypto) : CBlock := createGenesisBlock crypto 1767254400 1 0x207fffff 1 7600000000

example : (Crypto.recorded []).blockHash (regTestGenesis (Crypto.recorded [])).toCBlockHeader =
    (regTestParams.getConsensus 0).hashGenesisBlock := by decide +kernel

/-- The seed of the old rewards: digits 7 to 13 of the previous block's hash as it is printed. -/
def rewardSeed (prevHash : Uint256) : ℕ := leNat prevHash.bytes / 16 ^ 50 % 16 ^ 7

/-- `GetWhippetBlockSubsidy`. `generateMTRandom` is the Mersenne Twister draw from `[1, range]`. -/
def getWhippetBlockSubsidy (generateMTRandom : ℕ → ℤ → ℤ) (nHeight : ℕ) (consensusParams : Params)
    (prevHash : Uint256) : ℤ :=
  let halvings := nHeight / consensusParams.nSubsidyHalvingInterval
  if !consensusParams.fSimplifiedRewards then
    let maxReward : ℤ := (1000000 / 2 ^ halvings : ℕ) - 1
    (1 + generateMTRandom (rewardSeed prevHash) maxReward) * coin
  else if nHeight < 4500 then 500000 * coin / 2 ^ halvings
  else if nHeight < 6 * consensusParams.nSubsidyHalvingInterval then 50000 * coin / 2 ^ halvings
  else 1000 * coin

end Whippet.Consensus
