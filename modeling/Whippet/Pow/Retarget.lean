import Whippet.Consensus.PowParams
import Whippet.Pow.ArithUint256

/-! `CalculateWhippetNextWorkRequired` and `CheckProofOfWork`. -/
namespace Whippet.Pow
open Lib Primitives Consensus ArithUint256

/-- `CBlockIndex` as far as the retarget reads it. A chain is listed from its tip down. -/
structure BlockWork where
  nTime : UInt32
  nBits : UInt32
  deriving DecidableEq, Repr

def BlockWork.getBlockTime (block : BlockWork) : ℤ := block.nTime.toNat

/-- `arith_uint256(uint64_t)` of a signed number. -/
def ofInt64 (n : ℤ) : ArithUint256 := .ofNat 256 (UInt64.ofInt n).toNat

structure LwmaSums where
  sumTarget : ArithUint256
  sumTime : ℤ
  j : ℤ
  deriving DecidableEq, Repr

def lwmaSolveTime (T : ℤ) (block pprev : BlockWork) : ℤ :=
  let solvetime := block.getBlockTime - pprev.getBlockTime
  let solvetime := if solvetime > T * 6 then T * 6 else solvetime
  if solvetime < -6 * T then T.tdiv 6 else solvetime

/-- The loop over `n` blocks, which ends early at the first block of the chain. -/
def lwmaLoop (T divisor : ℤ) : ℕ → List BlockWork → LwmaSums → Option LwmaSums
  | n + 1, block :: pprev :: chain, sums => do
    let j := sums.j + 1
    let sumTime := sums.sumTime + lwmaSolveTime T block pprev * j
    let share ← div? (setCompact block.nBits).value (ofInt64 divisor)
    lwmaLoop T divisor n (pprev :: chain) ⟨sums.sumTarget + share, sumTime, j⟩
  | _, _, sums => some sums

section
variable (params : PowParams)

def lwmaK : ℤ :=
  let N := params.difficultyAdjustmentInterval
  (N * (N + 1) * params.nPowTargetSpacing).tdiv 2

def lwmaSums (chain : List BlockWork) : Option LwmaSums :=
  let N := params.difficultyAdjustmentInterval
  lwmaLoop params.nPowTargetSpacing (lwmaK params * N) N.toNat chain ⟨0, 0, 0⟩

/-- The next target before it is limited. The multiplication takes the time sum as a 32-bit word. -/
def lwmaNextTarget (sums : LwmaSums) : ArithUint256 := mulUInt32 sums.sumTarget (UInt32.ofInt sums.sumTime)

/-- A target that is not above `powLimit`, in compact form. -/
def limitTarget (target : ArithUint256) : UInt32 :=
  let bnPowLimit := uintToArith256 params.powLimit
  getCompact (if target > bnPowLimit then bnPowLimit else target) false

def calculateWhippetNextWorkRequired (pindexLast : BlockWork) (ancestors : List BlockWork) (nFirstBlockTime : ℤ) :
    Option UInt32 :=
  let nHeight := ancestors.length + 1
  let retargetTimespan := params.nPowTargetTimespan
  let nActualTimespan := pindexLast.getBlockTime - nFirstBlockTime
  if params.fLWMADifficultyCalculation then
    if ancestors = [] then some pindexLast.nBits
    else do
      let sums ← lwmaSums params (pindexLast :: ancestors)
      if sums.j < params.difficultyAdjustmentInterval - 1 then some pindexLast.nBits
      else some (limitTarget params (lwmaNextTarget sums))
  else do
    let (nModulatedTimespan, nMinTimespan, nMaxTimespan) :=
      if params.fDigishieldDifficultyCalculation then
        (retargetTimespan + (nActualTimespan - retargetTimespan).tdiv 8, retargetTimespan - retargetTimespan.tdiv 4,
          retargetTimespan + retargetTimespan.tdiv 2)
      else if nHeight > 10000 then (nActualTimespan, retargetTimespan.tdiv 4, retargetTimespan * 4)
      else if nHeight > 5000 then (nActualTimespan, retargetTimespan.tdiv 8, retargetTimespan * 4)
      else (nActualTimespan, retargetTimespan.tdiv 16, retargetTimespan * 4)
    let nModulatedTimespan :=
      if nModulatedTimespan < nMinTimespan then nMinTimespan
      else if nModulatedTimespan > nMaxTimespan then nMaxTimespan
      else nModulatedTimespan
    let bnNew := mulUInt32 (setCompact pindexLast.nBits).value (UInt32.ofInt nModulatedTimespan)
    let bnNew ← div? bnNew (ofInt64 retargetTimespan)
    some (limitTarget params bnNew)

def checkProofOfWork (hash : Uint256) (nBits : UInt32) : Bool :=
  let bnTarget := setCompact nBits
  if bnTarget.fNegative ∨ bnTarget.value = 0 ∨ bnTarget.fOverflow ∨ bnTarget.value > uintToArith256 params.powLimit then
    false
  else if uintToArith256 hash > bnTarget.value then false
  else true

end
end Whippet.Pow
