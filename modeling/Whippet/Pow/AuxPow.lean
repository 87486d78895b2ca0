import Whippet.Consensus.PowParams
import Whippet.Lib.Checked
import Whippet.Lib.MerklePath

/-! Merge mining: `CAuxPow::check` ties the hash of a block to the coinbase of a block of the parent chain. -/
namespace Whippet.Pow
open Lib Primitives Consensus

structure CPureBlockHeader where
  nVersion : Int32
  hashPrevBlock : Uint256
  hashMerkleRoot : Uint256
  nTime : UInt32
  nBits : UInt32
  nNonce : UInt32
  deriving DecidableEq, Repr

def CPureBlockHeader.getChainId (header : CPureBlockHeader) : Int32 := header.nVersion >>> 16

/-- `CAuxPow`, with the fields of `CMerkleTx` that the check reads. -/
structure CAuxPow where
  tx : CTransaction
  vMerkleBranch : List Uint256
  nIndex : Int32
  vChainMerkleBranch : List Uint256
  nChainIndex : Int32
  parentBlock : CPureBlockHeader
  deriving DecidableEq, Repr

inductive AuxPowError
  | notGenerate
  | parentHasOurChainId
  | chainBranchTooLong
  | merkleRootIncorrect
  | noInputs
  | missingRoot
  | multipleHeaders
  | headerNotBeforeRoot
  | rootNotEarly
  | missingSizeAndNonce
  | wrongSize
  | wrongIndex
  deriving DecidableEq, Repr

def AuxPowError.message : AuxPowError → String
  | .notGenerate => "AuxPow is not a generate"
  | .parentHasOurChainId => "Aux POW parent has our chain ID"
  | .chainBranchTooLong => "Aux POW chain merkle branch too long"
  | .merkleRootIncorrect => "Aux POW merkle root incorrect"
  | .noInputs => "Aux POW coinbase has no inputs"
  | .missingRoot => "Aux POW missing chain merkle root in parent coinbase"
  | .multipleHeaders => "Multiple merged mining headers in coinbase"
  | .headerNotBeforeRoot => "Merged mining header is not just before chain merkle root"
  | .rootNotEarly => "Aux POW chain merkle root must start in the first 20 bytes of the parent coinbase"
  | .missingSizeAndNonce => "Aux POW missing chain merkle tree size and nonce in parent coinbase"
  | .wrongSize => "Aux POW merkle branch size does not match parent coinbase"
  | .wrongIndex => "Aux POW wrong index"

/-- The bytes `fa be` and `mm`. -/
def pchMergedMiningHeader : Bytes := [0xfa, 0xbe, 0x6d, 0x6d]

/-- `std::search`: the first place where `pattern` starts, if there is one. -/
def search (script pattern : Bytes) : Option ℕ :=
  (List.range script.length).find? fun i => pattern.isPrefixOf (script.drop i)

def readUInt32At (script : Bytes) (pc : ℕ) : UInt32 := .ofNat (leNat ((script.drop pc).take 4))

def getExpectedIndex (nNonce : UInt32) (nChainId : Int32) (h : ℕ) : Int32 :=
  let rand := nNonce * 1103515245 + 12345
  let rand := rand + nChainId.toUInt32
  let rand := rand * 1103515245 + 12345
  (rand % (1 <<< UInt32.ofNat h)).toInt32

section
variable (crypto : Crypto)

def checkMerkleBranchLoop (hash : Uint256) : List Uint256 → Int32 → Uint256
  | [], _ => hash
  | it :: vMerkleBranch, nIndex =>
    let hash := if nIndex &&& 1 ≠ 0 then crypto.merkleParent it hash else crypto.merkleParent hash it
    checkMerkleBranchLoop hash vMerkleBranch (nIndex >>> 1)

def checkMerkleBranch (hash : Uint256) (vMerkleBranch : List Uint256) (nIndex : Int32) : Uint256 :=
  if nIndex = -1 then Uint256.zero else checkMerkleBranchLoop crypto hash vMerkleBranch nIndex

def CAuxPow.check (auxpow : CAuxPow) (hashAuxBlock : Uint256) (nChainId : Int32) (params : PowParams) :
    Except AuxPowError Unit := do
  failIf (auxpow.nIndex ≠ 0) .notGenerate
  failIf (params.fStrictChainId ∧ auxpow.parentBlock.getChainId = nChainId) .parentHasOurChainId
  failIf (auxpow.vChainMerkleBranch.length > 30) .chainBranchTooLong
  let nRootHash := checkMerkleBranch crypto hashAuxBlock auxpow.vChainMerkleBranch auxpow.nChainIndex
  let vchRootHash := nRootHash.bytes.reverse
  failIf (checkMerkleBranch crypto (crypto.txid auxpow.tx) auxpow.vMerkleBranch auxpow.nIndex ≠
    auxpow.parentBlock.hashMerkleRoot) .merkleRootIncorrect
  let txin ← orFail .noInputs auxpow.tx.vin.head?
  let script := txin.scriptSig
  let pc ← orFail .missingRoot (search script vchRootHash)
  match search script pchMergedMiningHeader with
  | some pcHead => do
    failIf ((search (script.drop (pcHead + 1)) pchMergedMiningHeader).isSome) .multipleHeaders
    failIf (pcHead + pchMergedMiningHeader.length ≠ pc) .headerNotBeforeRoot
  | none => failIf (pc > 20) .rootNotEarly
  let pc := pc + vchRootHash.length
  failIf (script.length < pc + 8) .missingSizeAndNonce
  let merkleHeight := auxpow.vChainMerkleBranch.length
  failIf (readUInt32At script pc ≠ 1 <<< UInt32.ofNat merkleHeight) .wrongSize
  failIf (auxpow.nChainIndex ≠ getExpectedIndex (readUInt32At script (pc + 4)) nChainId merkleHeight) .wrongIndex

/-- The branch with the side of the node at each level. -/
def branchPath : List Uint256 → Int32 → List (Bool × Uint256)
  | [], _ => []
  | it :: vMerkleBranch, nIndex => (nIndex &&& 1 ≠ 0, it) :: branchPath vMerkleBranch (nIndex >>> 1)

def CAuxPow.chainPairs (auxpow : CAuxPow) (hashAuxBlock : Uint256) : List (Uint256 × Uint256) :=
  climbPairs crypto.merkleParent hashAuxBlock (branchPath auxpow.vChainMerkleBranch auxpow.nChainIndex)

end

section
variable {crypto : Crypto}

theorem checkMerkleBranchLoop_eq_climb (hash : Uint256) (vMerkleBranch : List Uint256) (nIndex : Int32) :
    checkMerkleBranchLoop crypto hash vMerkleBranch nIndex =
      climb crypto.merkleParent hash (branchPath vMerkleBranch nIndex) := by
  induction vMerkleBranch generalizing hash nIndex with
  | nil => rfl
  | cons it vMerkleBranch ih =>
    rw [checkMerkleBranchLoop, branchPath, climb, ih, joined]
    by_cases hside : nIndex &&& 1 ≠ 0 <;> simp [hside]

theorem branchPath_sides {a b : List Uint256} (nIndex : Int32) (h : a.length = b.length) :
    (branchPath a nIndex).map Prod.fst = (branchPath b nIndex).map Prod.fst := by
  induction a generalizing b nIndex with
  | nil =>
    obtain rfl : b = [] := List.length_eq_zero_iff.mp h.symm
    rfl
  | cons x a ih =>
    cases b with
    | nil => cases h
    | cons y b =>
      rw [branchPath, branchPath, List.map_cons, List.map_cons, ih _ (Nat.succ.inj h)]

variable {script : Bytes} {pc : ℕ}

theorem search_eq_some {pattern : Bytes} (h : search script pattern = some pc) :
    pattern = (script.drop pc).take pattern.length := by
  have hprefix := List.find?_some h
  exact List.prefix_iff_eq_take.mp (List.isPrefixOf_iff_prefix.mp hprefix)

theorem search_isSome {pattern : Bytes} (hne : pattern ≠ []) (h : pattern <:+: script) :
    (search script pattern).isSome = true := by
  obtain ⟨before, after, rfl⟩ := h
  rw [search, List.find?_isSome]
  refine ⟨before.length, ?_, ?_⟩
  · have hpos := List.length_pos_of_ne_nil hne
    simp only [List.mem_range, List.length_append]
    omega
  · rw [List.append_assoc, List.drop_left]
    exact List.isPrefixOf_iff_prefix.mpr (List.prefix_append pattern after)

theorem shiftLeft_inj {m n : ℕ} (hm : m ≤ 30) (hn : n ≤ 30)
    (h : (1 : UInt32) <<< UInt32.ofNat m = 1 <<< UInt32.ofNat n) : m = n := by
  have hall : ∀ m n : Fin 31, (1 : UInt32) <<< UInt32.ofNat m = 1 <<< UInt32.ofNat n → m = n := by decide +kernel
  exact congrArg Fin.val (hall ⟨m, by omega⟩ ⟨n, by omega⟩ h)

/-- What a check that succeeds has found behind the header in the coinbase script. -/
structure CAuxPow.Anchored (crypto : Crypto) (auxpow : CAuxPow) (hashAuxBlock : Uint256) (nChainId : Int32)
    (script : Bytes) (pc : ℕ) : Prop where
  height_le : auxpow.vChainMerkleBranch.length ≤ 30
  root : (checkMerkleBranch crypto hashAuxBlock auxpow.vChainMerkleBranch auxpow.nChainIndex).bytes.reverse =
    (script.drop pc).take 32
  size : readUInt32At script (pc + 32) = 1 <<< UInt32.ofNat auxpow.vChainMerkleBranch.length
  index : auxpow.nChainIndex =
    getExpectedIndex (readUInt32At script (pc + 32 + 4)) nChainId auxpow.vChainMerkleBranch.length

variable {nChainId : Int32}

theorem CAuxPow.check_eq_ok {auxpow : CAuxPow} {hashAuxBlock : Uint256} {params : PowParams}
    (h : auxpow.check crypto hashAuxBlock nChainId params = .ok ()) {txin : CTxIn}
    (htx : auxpow.tx.vin.head? = some txin) {pcHead : ℕ}
    (hhead : search txin.scriptSig pchMergedMiningHeader = some pcHead) :
    auxpow.Anchored crypto hashAuxBlock nChainId txin.scriptSig (pcHead + 4) := by
  simp only [check, bind_eq_ok, failIf_eq_ok, orFail_eq_ok, htx, Option.some.injEq] at h
  obtain ⟨-, -, -, -, -, hheight, -, -, txin', rfl, pc, hpc, h⟩ := h
  rw [hhead] at h
  simp only [bind_eq_ok, failIf_eq_ok, List.length_reverse, Uint256.size_eq, not_not] at h
  obtain ⟨-, -, -, rfl, -, -, -, hsize, hindex⟩ := h
  refine ⟨Nat.le_of_not_lt hheight, ?_, hsize, hindex⟩
  have hroot := search_eq_some hpc
  rwa [List.length_reverse, Uint256.size_eq] at hroot

/-- The branch is followed, and not answered with zero: no expected index is `-1`. -/
theorem CAuxPow.Anchored.nChainIndex_ne {auxpow : CAuxPow} {hashAuxBlock : Uint256}
    (h : auxpow.Anchored crypto hashAuxBlock nChainId script pc) : auxpow.nChainIndex ≠ -1 := by
  intro hindex
  have hsize : ∀ n : Fin 31, 0 < ((1 : UInt32) <<< UInt32.ofNat n).toNat ∧
      ((1 : UInt32) <<< UInt32.ofNat n).toNat ≤ 2 ^ 30 := by decide +kernel
  obtain ⟨hpos, hle⟩ := hsize ⟨auxpow.vChainMerkleBranch.length, Nat.lt_succ_of_le h.height_le⟩
  have hrand := congrArg (fun n => n.toUInt32.toNat) (h.index.symm.trans hindex)
  simp only [getExpectedIndex, UInt32.toUInt32_toInt32, UInt32.toNat_mod] at hrand
  have hlt : (-1 : Int32).toUInt32.toNat < 2 ^ 30 := hrand ▸ (Nat.mod_lt _ hpos).trans_le hle
  exact absurd hlt (by decide)

theorem CAuxPow.Anchored.hash_eq {pairs : Set (Uint256 × Uint256)}
    (hinj : Set.InjOn (Function.uncurry crypto.merkleParent) pairs) {a b : CAuxPow} {hashA hashB : Uint256}
    (ha : a.Anchored crypto hashA nChainId script pc)
    (hb : b.Anchored crypto hashB nChainId script pc) (hpa : ∀ p ∈ a.chainPairs crypto hashA, p ∈ pairs)
    (hpb : ∀ p ∈ b.chainPairs crypto hashB, p ∈ pairs) : hashA = hashB := by
  have hheight : a.vChainMerkleBranch.length = b.vChainMerkleBranch.length :=
    shiftLeft_inj ha.height_le hb.height_le (ha.size.symm.trans hb.size)
  have hindex : a.nChainIndex = b.nChainIndex := by rw [ha.index, hb.index, hheight]
  have hroot := List.reverse_injective (ha.root.trans hb.root.symm)
  rw [checkMerkleBranch, checkMerkleBranch, if_neg ha.nChainIndex_ne, if_neg hb.nChainIndex_ne,
    checkMerkleBranchLoop_eq_climb, checkMerkleBranchLoop_eq_climb] at hroot
  refine climb_inj hinj ?_ hpa hpb (Uint256.mk.injEq .. ▸ hroot)
  rw [hindex]
  exact branchPath_sides _ hheight

/-- Merge-mined work counts once: a coinbase that contains the merged-mining header proves one block of a chain at most,
by whatever branches and parent header. The Merkle hash need only be injective on the pairs that are hashed. -/
theorem auxpow_counts_once (crypto : Crypto) (pairs : Set (Uint256 × Uint256))
    (hinj : Set.InjOn (Function.uncurry crypto.merkleParent) pairs) (tx : CTransaction) (nChainId : Int32)
    (hheader : ∀ txin ∈ tx.vin.head?, pchMergedMiningHeader <:+: txin.scriptSig) :
    { hashAuxBlock | ∃ (auxpow : CAuxPow) (params : PowParams), auxpow.tx = tx ∧
      auxpow.check crypto hashAuxBlock nChainId params = .ok () ∧
      ∀ p ∈ auxpow.chainPairs crypto hashAuxBlock, p ∈ pairs }.Subsingleton := by
  rintro hashA ⟨a, paramsA, rfl, ha, hpa⟩ hashB ⟨b, paramsB, htx, hb, hpb⟩
  cases hvin : a.tx.vin.head? with
  | none => simp [CAuxPow.check, hvin, orFail] at ha
  | some txin =>
    obtain ⟨pcHead, hhead⟩ := Option.isSome_iff_exists.mp (search_isSome (by decide) (hheader txin hvin))
    have hatA := CAuxPow.check_eq_ok ha hvin hhead
    have hatB := CAuxPow.check_eq_ok hb (htx ▸ hvin) hhead
    exact hatA.hash_eq hinj hatB hpa hpb

def sampleHash : Uint256 := Uint256.one

def sampleBranch : List Uint256 := [Uint256.zero]

def sampleCoinbase : CTransaction where
  nVersion := 1
  vin := [{
    prevout := ⟨Uint256.zero, 0xffffffff⟩
    scriptSig := [0x51] ++ pchMergedMiningHeader ++
      (checkMerkleBranch (.recorded []) sampleHash sampleBranch 1).bytes.reverse ++ leBytes 4 2 ++ leBytes 4 1
    nSequence := CTxIn.sequenceFinal
    scriptWitness := [] }]
  vout := []
  nLockTime := 0

def sampleAuxPow : CAuxPow where
  tx := sampleCoinbase
  vMerkleBranch := []
  nIndex := 0
  vChainMerkleBranch := sampleBranch
  nChainIndex := 1
  parentBlock := ⟨0x620001, Uint256.zero, (Crypto.recorded []).txid sampleCoinbase, 0, 0, 0⟩

theorem auxpow_counts_once_sample :
    sampleAuxPow.check (.recorded []) sampleHash 0x5750 MainPow.chainIdFixConsensus = .ok () ∧
      { hashAuxBlock | ∃ (auxpow : CAuxPow) (params : PowParams), auxpow.tx = sampleCoinbase ∧
        auxpow.check (.recorded []) hashAuxBlock 0x5750 params = .ok () ∧
        ∀ p ∈ auxpow.chainPairs (.recorded []) hashAuxBlock,
          p ∈ ({(Uint256.zero, Uint256.one)} : Set (Uint256 × Uint256)) }.Subsingleton := by
  refine ⟨by decide +kernel, auxpow_counts_once (.recorded []) _ (Set.injOn_singleton _ _) sampleCoinbase 0x5750 ?_⟩
  intro txin htxin
  cases htxin
  exact ⟨[0x51], _, rfl⟩

end
end Whippet.Pow
