import Whippet.Consensus.Params
import Whippet.Validation.UapTx

/-! The checks of one transaction, alone and against the coins it spends. -/
namespace Whippet.Validation
open Lib Primitives Script Consensus

def maxBlockBaseSize : ℕ := 1000000

def maxBlockSigOpsCost : ℕ := 80000

def witnessScaleFactor : ℕ := 4

/-- A failed assertion or an exception, neither of which leaves a reason in the state. -/
def thrown (what : String) : Reject := { nDoS := 0, code := .none, reason := what }

def addOutputValue (nValueOut : ℤ) (txout : CTxOut) : Except Reject ℤ := do
  failIf (txout.nValue.toInt < 0) (dos 100 "bad-txns-vout-negative")
  failIf (txout.nValue.toInt > maxMoney) (dos 100 "bad-txns-vout-toolarge")
  failIf (moneyRange (nValueOut + txout.nValue.toInt) = false) (dos 100 "bad-txns-txouttotal-toolarge")
  .ok (nValueOut + txout.nValue.toInt)

def checkPrevouts (tx : CTransaction) : Except Reject Unit :=
  if tx.isCoinBase then
    tx.vin.forM fun txin =>
      failIf (txin.scriptSig.length < 2 ∨ txin.scriptSig.length > 100) (dos 100 "bad-cb-length")
  else tx.vin.forM fun txin => failIf (txin.prevout.isNull = true) (dos 10 "bad-txns-prevout-null")

def checkTransaction (tx : CTransaction) (fCheckDuplicateInputs : Bool) : Except Reject Unit := do
  failIf (tx.vin = []) (dos 10 "bad-txns-vin-empty")
  failIf (tx.vout = []) (dos 10 "bad-txns-vout-empty")
  failIf ((tx.serialize false).length > maxBlockBaseSize) (dos 100 "bad-txns-oversize")
  let _ ← tx.vout.foldlM addOutputValue 0
  failIf (fCheckDuplicateInputs = true ∧ ¬ (tx.vin.map CTxIn.prevout).Nodup) (dos 100 "bad-txns-inputs-duplicate")
  checkPrevouts tx

/-- What every transaction that passes `CheckTransaction` satisfies. -/
structure BasicChecks (tx : CTransaction) : Prop where
  vin_ne_nil : tx.vin ≠ []
  vout_ne_nil : tx.vout ≠ []
  size_le : (tx.serialize false).length ≤ maxBlockBaseSize
  value_nonneg : ∀ out ∈ tx.vout, 0 ≤ out.nValue.toInt

theorem basicChecks_of_checkTransaction {tx : CTransaction} {fCheckDuplicateInputs : Bool}
    (h : checkTransaction tx fCheckDuplicateInputs = .ok ()) : BasicChecks tx := by
  simp only [checkTransaction, bind_eq_ok, failIf_eq_ok] at h
  obtain ⟨_, hvin, _, hvout, _, hsize, total, hfold, -⟩ := h
  refine ⟨hvin, hvout, by omega, ?_⟩
  refine foldlM_ok (P := fun done _ => ∀ out ∈ done, 0 ≤ out.nValue.toInt) hfold (by simp) ?_
  intro done txout t t' _ hdone hstep out hout
  simp only [addOutputValue, bind_eq_ok, failIf_eq_ok] at hstep
  obtain ⟨_, hnonneg, -⟩ := hstep
  rcases List.mem_append.mp hout with hold | hnew
  · exact hdone out hold
  · rw [List.mem_singleton.mp hnew]
    omega

/-- `CTransaction::GetValueOut`; `none` is the exception it throws. -/
def getValueOut? (tx : CTransaction) : Option ℤ :=
  tx.vout.foldlM (fun nValueOut txout =>
    let total := nValueOut + txout.nValue.toInt
    if !moneyRange txout.nValue.toInt || !moneyRange total then none else some total) 0

def getLegacySigOpCount (tx : CTransaction) : ℕ :=
  (tx.vin.map fun txin => getSigOpCount txin.scriptSig false).sum +
    (tx.vout.map fun txout => getSigOpCount txout.scriptPubKey false).sum

/-- `GetP2SHSigOpCount`, on inputs that are available. -/
def getP2SHSigOpCount (tx : CTransaction) (inputs : CCoinsView) : ℕ :=
  if tx.isCoinBase then 0
  else (tx.vin.map fun txin =>
    let prevScript := (prevOutput inputs txin).scriptPubKey
    if isPayToScriptHash prevScript then getSigOpCountP2SH prevScript txin.scriptSig else 0).sum

def witnessSigOps (witversion : ℕ) (witprogram : Bytes) (witness : List Bytes) : ℕ :=
  if witversion = 0 then
    if witprogram.length = 20 then 1
    else if witprogram.length = 32 then (witness.getLast?.map fun subscript => getSigOpCount subscript true).getD 0
    else 0
  else 0

def countWitnessSigOps (scriptSig scriptPubKey : Bytes) (witness : List Bytes) (flags : ScriptFlags) : ℕ :=
  if !flags.witness then 0
  else
    match isWitnessProgram? scriptPubKey with
    | some (witversion, witprogram) => witnessSigOps witversion witprogram witness
    | none =>
      if isPayToScriptHash scriptPubKey && isPushOnly scriptSig then
        match (lastPushLoop (scriptSig.length + 1) [] scriptSig).bind isWitnessProgram? with
        | some (witversion, witprogram) => witnessSigOps witversion witprogram witness
        | none => 0
      else 0

def getTransactionSigOpCost (tx : CTransaction) (inputs : CCoinsView) (flags : ScriptFlags) : ℕ :=
  let nSigOps := getLegacySigOpCount tx * witnessScaleFactor
  if tx.isCoinBase then nSigOps
  else
    nSigOps + (if flags.p2sh then getP2SHSigOpCount tx inputs * witnessScaleFactor else 0) +
      (tx.vin.map fun txin =>
        countWitnessSigOps txin.scriptSig (prevOutput inputs txin).scriptPubKey txin.scriptWitness flags).sum

def checkTxInput (params : CChainParams) (inputs : CCoinsView) (nSpendHeight : ℕ) (nValueIn : ℤ) (txin : CTxIn) :
    Except Reject ℤ := do
  let coins ← orFail (thrown "assert(coins)") (inputs.lookup txin.prevout.hash)
  failIf (coins.fCoinBase = true ∧
      (nSpendHeight : ℤ) - coins.nHeight < (params.getConsensus coins.nHeight).nCoinbaseMaturity)
    { nDoS := 0, code := .invalid, reason := "bad-txns-premature-spend-of-coinbase" }
  let out ← orFail (thrown "coins->vout[prevout.n]") (coins.output? txin.prevout.n)
  let total := nValueIn + out.nValue.toInt
  failIf (moneyRange out.nValue.toInt = false ∨ moneyRange total = false)
    (dos 100 "bad-txns-inputvalues-outofrange")
  .ok total

def checkTxInputs (params : CChainParams) (tx : CTransaction) (inputs : CCoinsView) (nSpendHeight : ℕ) :
    Except Reject Unit := do
  failIf (inputs.haveInputs tx = false) { nDoS := 0, code := .none, reason := "" }
  let nValueIn ← tx.vin.foldlM (checkTxInput params inputs nSpendHeight) 0
  let nValueOut ← orFail (thrown "GetValueOut: value out of range") (getValueOut? tx)
  failIf (nValueIn < nValueOut) (dos 100 "bad-txns-in-belowout")
  failIf (nValueIn - nValueOut < 0) (dos 100 "bad-txns-fee-negative")
  failIf (moneyRange (nValueIn - nValueOut) = false) (dos 100 "bad-txns-fee-outofrange")

/-- `ScriptErrorString`. It has no text for a stack that is not clean. -/
def scriptErrorString : ScriptError → String
  | .evalFalse => "Script evaluated without error but finished with a false/empty top stack element"
  | .verify => "Script failed an OP_VERIFY operation"
  | .equalVerify => "Script failed an OP_EQUALVERIFY operation"
  | .checkMultiSigVerify => "Script failed an OP_CHECKMULTISIGVERIFY operation"
  | .checkSigVerify => "Script failed an OP_CHECKSIGVERIFY operation"
  | .numEqualVerify => "Script failed an OP_NUMEQUALVERIFY operation"
  | .scriptSize => "Script is too big"
  | .pushSize => "Push value size limit exceeded"
  | .opCount => "Operation limit exceeded"
  | .stackSize => "Stack size limit exceeded"
  | .sigCount => "Signature count negative or greater than pubkey count"
  | .pubkeyCount => "Pubkey count negative or limit exceeded"
  | .badOpcode => "Opcode missing or not understood"
  | .disabledOpcode => "Attempted to use a disabled opcode"
  | .invalidStackOperation => "Operation not valid with the current stack size"
  | .invalidAltStackOperation => "Operation not valid with the current altstack size"
  | .opReturn => "OP_RETURN was encountered"
  | .unbalancedConditional => "Invalid OP_IF construction"
  | .negativeLockTime => "Negative locktime"
  | .unsatisfiedLockTime => "Locktime requirement not satisfied"
  | .sigHashType => "Signature hash type missing or not understood"
  | .sigDer => "Non-canonical DER signature"
  | .minimalData => "Data push larger than necessary"
  | .sigPushOnly => "Only non-push operators allowed in signatures"
  | .sigHighS => "Non-canonical signature: S value is unnecessarily high"
  | .sigNullDummy => "Dummy CHECKMULTISIG argument must be zero"
  | .minimalIf => "OP_IF/NOTIF argument must be minimal"
  | .sigNullFail => "Signature must be zero for failed CHECK(MULTI)SIG operation"
  | .discourageUpgradableNops => "NOPx reserved for soft-fork upgrades"
  | .discourageUpgradableWitnessProgram => "Witness version reserved for soft-fork upgrades"
  | .pubkeyType => "Public key is neither compressed or uncompressed"
  | .witnessProgramWrongLength => "Witness program has incorrect length"
  | .witnessProgramWitnessEmpty => "Witness program was passed an empty witness"
  | .witnessProgramMismatch => "Witness program hash mismatch"
  | .witnessMalleated => "Witness requires empty scriptSig"
  | .witnessMalleatedP2SH => "Witness requires only-redeemscript scriptSig"
  | .witnessUnexpected => "Witness provided for non-witness script"
  | .witnessPubkeyType => "Using non-compressed keys in segwit"
  | .uapNoTxContext => "UAP covenant check requires the spending transaction, which is not available here"
  | .uapInputUnreadable => "UAP covenant check could not read an input's scriptPubKey or amount"
  | .uapValueOverflow => "Arithmetic overflow computing a UAP covenant value"
  | .uapMintShapedOutput =>
    "A spend may not create a new UAP mint output; only spending a fresh outpoint may originate a lineage"
  | .uapUnbackedLineageOutput => "Output names a UAP lineage with no corresponding input in this transaction"
  | .uapLineageNotContinued => "No output continues the UAP lineage being spent"
  | .uapConservationViolation => "UAP lineage outputs exceed its inputs"
  | .uapOneShotViolation => "A UAP mint's other inputs may not themselves spend a UAP position"
  | .uapMintEntryFee => "UAP mint does not meet the minimum entry fee"
  | .uapOriginSize => "UAP transfer origin is not exactly 32 bytes"
  | .uapMultiplierRange => "UAP multiplier is out of range"
  | .uapVirtualBalanceBound => "UAP virtual balance exceeds the maximum"
  | .cleanStack | .unknownError => "unknown error"

/-- `flags & ~STANDARD_NOT_MANDATORY_VERIFY_FLAGS`. -/
def dropNotMandatory (flags : ScriptFlags) : ScriptFlags :=
  { p2sh := flags.p2sh, sigPushOnly := flags.sigPushOnly, uapMint := flags.uapMint }

/-- The script of one input in `CheckInputs`, with what a failure is reported as. -/
def checkInputScript (crypto : Crypto) (flags : ScriptFlags) (inputs : CCoinsView) (tx : CTransaction) (i : ℕ) :
    Except Reject Unit :=
  match scriptCheck crypto flags inputs tx i with
  | .ok () => .ok ()
  | .error serror =>
    if dropNotMandatory flags ≠ flags ∧ scriptCheck crypto (dropNotMandatory flags) inputs tx i = .ok () then
      .error { nDoS := 0, code := .nonstandard
               reason := "non-mandatory-script-verify-flag (" ++ scriptErrorString serror ++ ")" }
    else .error (dos 100 ("mandatory-script-verify-flag-failed (" ++ scriptErrorString serror ++ ")"))

/-- `CheckInputs`, the scripts checked one after another. -/
def checkInputs (crypto : Crypto) (params : CChainParams) (tx : CTransaction) (inputs : CCoinsView)
    (fScriptChecks : Bool) (flags : ScriptFlags) (nSpendHeight : ℕ) : Except Reject Unit :=
  if tx.isCoinBase then .ok ()
  else do
    checkTxInputs params tx inputs nSpendHeight
    if fScriptChecks then (List.range tx.vin.length).forM (checkInputScript crypto flags inputs tx) else .ok ()

def isFinalTx (tx : CTransaction) (nBlockHeight nBlockTime : ℕ) : Bool :=
  let nLockTime := tx.nLockTime.toNat
  nLockTime = 0 ∨
    nLockTime < (if (nLockTime : ℤ) < TransactionSignatureChecker.lockTimeThreshold then nBlockHeight
      else nBlockTime) ∨
    ∀ txin ∈ tx.vin, txin.nSequence = CTxIn.sequenceFinal

end Whippet.Validation
