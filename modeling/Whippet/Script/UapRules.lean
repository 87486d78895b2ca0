import Whippet.Lib.Checked
import Whippet.Lib.Tally
import Whippet.Script.Checker

/-! The covenant's rules about the spending transaction: lineage, conservation and the one-shot rule. -/
namespace Whippet.Script
open Lib Primitives

/-- What identifies a token: the multiplier and the lineage origin. -/
abbrev UapLineage := ℤ × Bytes

instance : LawfulBEq UapLineage := inferInstance

def uapOriginFromOutpoint (crypto : Crypto) (outpoint : COutPoint) : Bytes :=
  (crypto.sha256 (outpoint.hash.bytes ++ leBytes 4 outpoint.n.toNat)).bytes

/-- The origin an output has when it is spent at `prevout`: a mint heads its own lineage, a transfer
carries the origin in its script. -/
def inputLineage (crypto : Crypto) (f : UapOutput) (prevout : COutPoint) : Bytes :=
  if f.isMint then uapOriginFromOutpoint crypto prevout else f.origin

/-- What the input loop of `CheckUapOutputConservation` has collected. -/
structure InputTally where
  setInputLineages : List UapLineage
  nValueIn : ℤ

/-- What its output loop has collected. -/
structure OutputTally where
  nValueOut : ℤ
  fHasMatchingCovenantOutput : Bool

section
variable (crypto : Crypto) (checker : TransactionSignatureChecker) (mult : ℤ) (origin : Bytes)

def tallyInput (t : InputTally) (i : ℕ) : Except ScriptError InputTally := do
  let prevScript ← orFail .uapInputUnreadable (checker.getInputScriptPubKey? i)
  match parseUapOutputScript? prevScript with
  | none => .ok t
  | some f =>
    let txin ← orFail .uapNoTxContext checker.txTo.vin[i]?
    let inLineage := inputLineage crypto f txin.prevout
    let t := { t with setInputLineages := (getInt f.multiplier, inLineage) :: t.setInputLineages }
    if f.multiplier ≠ mult ∨ inLineage ≠ origin then .ok t
    else do
      let inAmount ← orFail .uapInputUnreadable (checker.getInputAmount? i)
      failIf (inAmount.toInt < 0 ∨ t.nValueIn > maxMoney - inAmount.toInt) .uapValueOverflow
      .ok { t with nValueIn := t.nValueIn + inAmount.toInt }

/-- One iteration of the output loop. A foreign lineage is left to the check its own input runs. -/
def tallyOutput (setInputLineages : List UapLineage) (t : OutputTally) (out : CTxOut) :
    Except ScriptError OutputTally :=
  match parseUapOutputScript? out.scriptPubKey with
  | none => .ok t
  | some f =>
    if f.isMint then .error .uapMintShapedOutput
    else if f.multiplier ≠ mult ∨ f.origin ≠ origin then do
      failIf ((getInt f.multiplier, f.origin) ∉ setInputLineages) .uapUnbackedLineageOutput
      .ok t
    else do
      failIf (out.nValue.toInt < 0 ∨ t.nValueOut > maxMoney - out.nValue.toInt) .uapValueOverflow
      .ok ⟨t.nValueOut + out.nValue.toInt, true⟩

def checkUapOutputConservation : Except ScriptError Unit := do
  failIf (checker.txTo.vout = []) .uapNoTxContext
  let tin ← (List.range checker.txTo.vin.length).foldlM (tallyInput crypto checker mult origin) ⟨[], 0⟩
  let tout ← checker.txTo.vout.foldlM (tallyOutput mult origin tin.setInputLineages) ⟨0, false⟩
  failIf (tout.fHasMatchingCovenantOutput = false) .uapLineageNotContinued
  failIf (tout.nValueOut > tin.nValueIn) .uapConservationViolation

end

/-- One iteration of `CheckUapOneShot`. -/
def checkSibling (checker : TransactionSignatureChecker) (nInSelf i : ℕ) : Except ScriptError Unit :=
  if i = nInSelf then .ok ()
  else do
    let prevScript ← orFail .uapInputUnreadable (checker.getInputScriptPubKey? i)
    failIf ((parseUapOutputScript? prevScript).isSome) .uapOneShotViolation

def checkUapOneShot (checker : TransactionSignatureChecker) (nInSelf : ℕ) : Except ScriptError Unit :=
  (List.range checker.txTo.vin.length).forM (checkSibling checker nInSelf)

end Whippet.Script
