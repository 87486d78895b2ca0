import Mathlib.Data.List.Sort
import Whippet.Primitives.Transaction

/-! Block headers, blocks and the Merkle root of their transactions. -/
namespace Whippet.Primitives
open Lib

/-- `CBlockHeader`. The merge-mining proof is kept in its serialised form, empty when there is none. -/
structure CBlockHeader where
  nVersion : Int32
  hashPrevBlock : Uint256
  hashMerkleRoot : Uint256
  nTime : UInt32
  nBits : UInt32
  nNonce : UInt32
  auxpow : Bytes
  deriving DecidableEq, Repr

def CBlockHeader.serializePure (header : CBlockHeader) : Bytes :=
  writeInt32 header.nVersion ++ header.hashPrevBlock.bytes ++ header.hashMerkleRoot.bytes ++
    writeUInt32 header.nTime ++ writeUInt32 header.nBits ++ writeUInt32 header.nNonce

structure CBlock extends CBlockHeader where
  vtx : List CTransaction
  deriving DecidableEq, Repr

def CBlock.serialize (block : CBlock) (allowWitness : Bool) : Bytes :=
  block.serializePure ++ block.auxpow ++ writeVector (fun tx => tx.serialize allowWitness) block.vtx

section
variable (crypto : Crypto)

def Crypto.blockHash (header : CBlockHeader) : Uint256 := crypto.hash256 header.serializePure

def Crypto.merkleParent (left right : Uint256) : Uint256 := crypto.hash256 (left.bytes ++ right.bytes)

/-- One leaf of the first loop of `MerkleComputation`. `inner` has an entry at the levels whose bit is set
in the number of leaves so far. The flag tells whether two equal nodes were joined. -/
def merkleAdd : List (Option Uint256) → Uint256 → List (Option Uint256) × Bool
  | [], h => ([some h], false)
  | none :: inner, h => (some h :: inner, false)
  | some left :: inner, h =>
    let (inner', mutated) := merkleAdd inner (crypto.merkleParent left h)
    (none :: inner', left == h || mutated)

/-- Its sweep over the levels above the node `h`. A level without an entry stops the propagation, and the
node is then joined with itself. -/
def merkleSweep : Bool → List (Option Uint256) → Uint256 → Uint256
  | _, [], h => h
  | true, none :: inner, h => merkleSweep false inner h
  | true, some left :: inner, h => merkleSweep true inner (crypto.merkleParent left h)
  | false, none :: inner, h => merkleSweep false inner (crypto.merkleParent h h)
  | false, some left :: inner, h =>
    merkleSweep true inner (crypto.merkleParent left (crypto.merkleParent h h))

/-- The sweep starts at the lowest level that has an entry. -/
def merkleFinish : List (Option Uint256) → Uint256
  | [] => Uint256.zero
  | none :: inner => merkleFinish inner
  | some h :: inner => merkleSweep crypto false inner h

/-- `ComputeMerkleRoot`: the root, and whether the tree was mutated. -/
def computeMerkleRoot (leaves : List Uint256) : Uint256 × Bool :=
  let (inner, mutated) := leaves.foldl (fun (inner, mutated) leaf =>
    let (inner', mutated') := merkleAdd crypto inner leaf
    (inner', mutated || mutated')) ([], false)
  (merkleFinish crypto inner, mutated)

def blockMerkleRoot (block : CBlock) : Uint256 × Bool := computeMerkleRoot crypto (block.vtx.map crypto.txid)

end

/-- `CBlockIndex` of a block in the active chain, as far as block connection reads its ancestors. -/
structure CBlockIndex where
  hash : Uint256
  nVersion : Int32
  nTime : UInt32
  deriving DecidableEq, Repr

def Crypto.blockIndex (crypto : Crypto) (header : CBlockHeader) : CBlockIndex :=
  ⟨crypto.blockHash header, header.nVersion, header.nTime⟩

/-- `GetMedianTimePast` of the last block of a chain: the median of at most eleven block times. -/
def getMedianTimePast (chain : List CBlockIndex) : ℕ :=
  let times := ((chain.reverse.take 11).map fun index => index.nTime.toNat).insertionSort (· ≤ ·)
  times.getD (times.length / 2) 0

end Whippet.Primitives
