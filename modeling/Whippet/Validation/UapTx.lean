import Whippet.Script.CovenantSpend
import Whippet.Validation.Coins

/-! The UAP rules of one transaction: what it may create, and what running its inputs' scripts conserves. -/
namespace Whippet.Validation
open Lib Primitives Script

inductive RejectCode
  | none | malformed | invalid | obsolete | duplicate | nonstandard | insufficientFee | checkpoint
  | highFee | alreadyKnown | conflict
  deriving DecidableEq, Repr

/-- What a failed check leaves in `CValidationState`. -/
structure Reject where
  nDoS : ℕ
  code : RejectCode
  reason : String
  corruptionPossible : Bool := false
  deriving DecidableEq, Repr

def dos (nDoS : ℕ) (reason : String) : Reject := { nDoS := nDoS, code := .invalid, reason := reason }

def isTransferOutput (out : CTxOut) : Bool :=
  (parseUapOutputScript? out.scriptPubKey).any fun f => !f.isMint

def isMintOutput (out : CTxOut) : Bool :=
  (parseUapOutputScript? out.scriptPubKey).any fun f => f.isMint

section
variable (crypto : Crypto)

/-- One iteration of the input loop of `CheckUapOutputCreation`. A missing prevout fails closed. -/
def collectLineage (view : CCoinsView) (setInputLineages : List UapLineage) (txin : CTxIn) :
    Except Reject (List UapLineage) := do
  let out ← orFail (dos 100 "bad-txns-uap-creation-missing-prevout") (view.output? txin.prevout)
  match parseUapOutputScript? out.scriptPubKey with
  | none => .ok setInputLineages
  | some f => .ok ((getInt f.multiplier, inputLineage crypto f txin.prevout) :: setInputLineages)

def checkTransferOutput (setInputLineages : List UapLineage) (out : CTxOut) : Except Reject Unit :=
  match parseUapOutputScript? out.scriptPubKey with
  | none => .ok ()
  | some f =>
    if f.isMint then .ok ()
    else failIf ((getInt f.multiplier, f.origin) ∉ setInputLineages) (dos 100 "bad-txns-uap-output-without-input")

def checkUapOutputCreation (tx : CTransaction) (view : CCoinsView) : Except Reject Unit :=
  if !tx.vout.any isTransferOutput then .ok ()
  else do
    let setInputLineages ← (if tx.isCoinBase then [] else tx.vin).foldlM (collectLineage crypto view) []
    tx.vout.forM (checkTransferOutput setInputLineages)

/-- What `CScriptCheck` records of an input's previous output, available or not. -/
def prevOutput (view : CCoinsView) (txin : CTxIn) : CTxOut := (view.output? txin.prevout).getD CTxOut.null

def scriptChecker (view : CCoinsView) (tx : CTransaction) (nIn : ℕ) (amount : Int64) :
    TransactionSignatureChecker where
  txTo := tx
  nIn := nIn
  amount := amount
  vPrevScriptPubKeys := some (tx.vin.map fun txin => (prevOutput view txin).scriptPubKey)
  vPrevAmounts := some (tx.vin.map fun txin => (prevOutput view txin).nValue)

/-- `CScriptCheck`: the script of input `nIn` against the output it spends. -/
def scriptCheck (flags : ScriptFlags) (view : CCoinsView) (tx : CTransaction) (nIn : ℕ) :
    Except ScriptError Unit := do
  let txin ← orFail .unknownError tx.vin[nIn]?
  let out ← orFail .unknownError (view.output? txin.prevout)
  verifyScript crypto flags (scriptChecker view tx nIn out.nValue) txin.scriptSig out.scriptPubKey
    txin.scriptWitness

/-- A UAP-shaped output that a transaction spends. -/
structure UapInput where
  prevout : COutPoint
  fields : UapOutput
  value : ℤ
  deriving DecidableEq, Repr

/-- The lineage it belongs to; a mint heads the lineage of its own outpoint. -/
def UapInput.lineage (i : UapInput) : UapLineage := (i.fields.multiplier, inputLineage crypto i.fields i.prevout)

def uapInput? (view : CCoinsView) (txin : CTxIn) : Option UapInput := do
  let out ← view.output? txin.prevout
  let f ← parseUapOutputScript? out.scriptPubKey
  some ⟨txin.prevout, f, out.nValue.toInt⟩

/-- The UAP-shaped inputs of a transaction. A coinbase spends nothing. -/
def uapInputs (view : CCoinsView) (tx : CTransaction) : List UapInput :=
  (if tx.isCoinBase then [] else tx.vin).filterMap (uapInput? view)

def inputPositions (view : CCoinsView) (tx : CTransaction) : List (UapLineage × ℤ) :=
  (uapInputs view tx).map fun i => (i.lineage crypto, i.value)

end

def transferPosition? (out : CTxOut) : Option (UapLineage × ℤ) := do
  let f ← parseUapOutputScript? out.scriptPubKey
  if f.isMint then none else some ((f.multiplier, f.origin), out.nValue.toInt)

def transferOutputs (tx : CTransaction) : List (UapLineage × ℤ) := tx.vout.filterMap transferPosition?

end Whippet.Validation
