import Whippet.Lib.Counted
import Whippet.Script.Interpreter

/-! `EvalScript` with a checker that counts the calls of its `CheckSig`. The answers may be any. -/
namespace Whippet.Script
open Lib Primitives

section
variable (crypto : Crypto) (flags : ScriptFlags) (checker : TransactionSignatureChecker) (sigversion : SigVersion)
  (checkSig : Bytes → Bytes → Bytes → SigVersion → Bool)

def countCheckSig (isVerify : Bool) (s : ScriptState) : Counted ScriptError ScriptState :=
  match s.stack with
  | vchPubKey :: vchSig :: st => do
    let scriptCode := dropSignature sigversion s.pbegincodehash vchSig
    .lift (checkSignatureEncoding crypto vchSig flags)
    .lift (checkPubKeyEncoding vchPubKey flags sigversion)
    let fSuccess ← .call (checkSig vchSig vchPubKey scriptCode sigversion)
    .lift do
      failIf (!fSuccess ∧ flags.nullFail ∧ vchSig ≠ []) .sigNullFail
      if isVerify then do
        failIf (!fSuccess) .checkSigVerify
        .ok { s with stack := st }
      else .ok { s with stack := boolVch fSuccess :: st }
  | _ => .lift (.error .invalidStackOperation)

def countMultiSigLoop (scriptCode : Bytes) : List Bytes → List Bytes → Counted ScriptError Bool
  | [], _ => pure true
  | _ :: _, [] => pure false
  | vchSig :: sigs, vchPubKey :: keys => do
    .lift (checkSignatureEncoding crypto vchSig flags)
    .lift (checkPubKeyEncoding vchPubKey flags sigversion)
    let fOk ← .call (checkSig vchSig vchPubKey scriptCode sigversion)
    let left := if fOk then sigs else vchSig :: sigs
    if left.length > keys.length then pure false else countMultiSigLoop scriptCode left keys

def countCheckMultiSig (isVerify : Bool) (s : ScriptState) : Counted ScriptError ScriptState :=
  match s.stack with
  | [] => .lift (.error .invalidStackOperation)
  | top :: st => do
    let nKeysNum ← .lift (scriptNum flags top defaultMaxNumSize)
    let nKeysCount := getInt nKeysNum
    .lift (failIf (nKeysCount < 0 ∨ nKeysCount > maxPubkeysPerMultisig) .pubkeyCount)
    let nKeys := nKeysCount.toNat
    let nOpCount := s.nOpCount + nKeys
    .lift (failIf (nOpCount > maxOpsPerScript) .opCount)
    let vchSigsCount ← .lift (orFail .invalidStackOperation st[nKeys]?)
    let nSigsNum ← .lift (scriptNum flags vchSigsCount defaultMaxNumSize)
    let nSigsCount := getInt nSigsNum
    .lift (failIf (nSigsCount < 0 ∨ nSigsCount > nKeysCount) .sigCount)
    let sigsAndRest := st.drop (nKeys + 1)
    let sigs := sigsAndRest.take nSigsCount.toNat
    let dummy ← .lift (orFail .invalidStackOperation sigsAndRest[nSigsCount.toNat]?)
    let scriptCode := sigs.foldl (dropSignature sigversion) s.pbegincodehash
    let fSuccess ← countMultiSigLoop crypto flags sigversion checkSig scriptCode sigs (st.take nKeys)
    .lift do
      failIf (!fSuccess ∧ flags.nullFail ∧ ∃ sig ∈ sigs, sig ≠ []) .sigNullFail
      failIf (flags.nullDummy ∧ dummy ≠ []) .sigNullDummy
      let st := sigsAndRest.drop (nSigsCount.toNat + 1)
      if isVerify then do
        failIf (!fSuccess) .checkMultiSigVerify
        .ok { s with stack := st, nOpCount := nOpCount }
      else .ok { s with stack := boolVch fSuccess :: st, nOpCount := nOpCount }

def countCovenant (isMint : Bool) (scriptCode vchSig vchPubKey : Bytes) (multiplier : ℤ) (scriptOrigin : Bytes) :
    Counted ScriptError Unit := do
  .lift (failIf (!isValidSignatureEncoding vchSig ∨ (vchSig ≠ [] ∧ !(isLowDERSignature crypto vchSig).isOk) ∨
    !isDefinedHashtypeSignature vchSig) .sigDer)
  .lift (failIf (vchPubKey.length ≠ 33 ∧ vchPubKey.length ≠ 65) .pubkeyType)
  let fSuccess ← .call (checkSig vchSig vchPubKey scriptCode sigversion)
  .lift do
    failIf (!fSuccess) .sigNullFail
    let txin ← orFail .uapNoTxContext checker.txTo.vin[checker.nIn]?
    let nValueIn := checker.amount.toInt
    failIf (isMint ∧ nValueIn < 1000 * coin) .uapMintEntryFee
    failIf (!isMint ∧ scriptOrigin.length ≠ uapOriginSize) .uapOriginSize
    failIf (multiplier < 0 ∨ multiplier > maxUapMultiplier) .uapMultiplierRange
    let baseCoin := nValueIn.tdiv coin
    let mult := getInt multiplier
    failIf (mult > 0 ∧ baseCoin > 0 ∧ baseCoin > 2 ^ 48 / mult) .uapVirtualBalanceBound
    (if isMint then checkUapOneShot checker checker.nIn else .ok ())
    let lineage := if isMint then uapOriginFromOutpoint crypto txin.prevout else scriptOrigin
    checkUapOutputConservation crypto checker multiplier lineage

def countRunCovenant (isMint : Bool) (s : ScriptState) (scriptOrigin vchMultiplier vchPubKey vchSig : Bytes)
    (st : List Bytes) : Counted ScriptError ScriptState := do
  let multiplier ← .lift (scriptNum flags vchMultiplier defaultMaxNumSize)
  let scriptCode := dropSignature sigversion s.pbegincodehash vchSig
  countCovenant crypto checker sigversion checkSig isMint scriptCode vchSig vchPubKey multiplier scriptOrigin
  return { s with stack := boolVch true :: st }

def countMint (isMint : Bool) (s : ScriptState) : Counted ScriptError ScriptState :=
  if !flags.uapMint then .lift (.error .badOpcode)
  else
    match isMint, s.stack with
    | true, vchMultiplier :: vchPubKey :: vchSig :: st =>
      countRunCovenant crypto flags checker sigversion checkSig true s [] vchMultiplier vchPubKey vchSig st
    | false, scriptOrigin :: vchMultiplier :: vchPubKey :: vchSig :: st =>
      countRunCovenant crypto flags checker sigversion checkSig false s scriptOrigin vchMultiplier vchPubKey vchSig st
    | _, _ => .lift (.error .invalidStackOperation)

/-- The body of the switch. Only these instructions call `CheckSig`. -/
def countInstr (script : Bytes) (fExec : Bool) (s : ScriptState) : Instr → Counted ScriptError ScriptState
  | .checkSig isVerify => countCheckSig crypto flags sigversion checkSig isVerify s
  | .checkMultiSig isVerify => countCheckMultiSig crypto flags sigversion checkSig isVerify s
  | .mint isMint => countMint crypto flags checker sigversion checkSig isMint s
  | instr => .lift (execInstr crypto flags checker sigversion script fExec s instr)

def countOp (script : Bytes) (op : ScriptOp) (s : ScriptState) : Counted ScriptError ScriptState :=
  let fExec := s.vfExec.all id
  if fExec ∧ op.opcode ≤ opPushData4 then
    .lift do
      failIf (flags.minimalData ∧ !checkMinimalPush op.data op.opcode) .minimalData
      .ok { s with stack := op.data :: s.stack }
  else if fExec ∨ isConditional op.opcode then do
    let instr ← .lift (orFail .badOpcode (decodeInstr? op.opcode))
    countInstr crypto flags checker sigversion checkSig script fExec s instr
  else pure s

def countStep (script : Bytes) (s : ScriptState) : Counted ScriptError ScriptState := do
  let op ← .lift (orFail .badOpcode (getOp? s.pc))
  .lift (failIf (op.data.length > maxScriptElementSize) .pushSize)
  let nOpCount := if op16 < op.opcode then s.nOpCount + 1 else s.nOpCount
  .lift (failIf (op16 < op.opcode ∧ nOpCount > maxOpsPerScript) .opCount)
  .lift (failIf (isDisabled op.opcode) .disabledOpcode)
  let s ← countOp crypto flags checker sigversion checkSig script op { s with pc := op.rest, nOpCount := nOpCount }
  .lift (checkStackSize s)

def countLoop (script : Bytes) : ℕ → ScriptState → Counted ScriptError ScriptState
  | 0, s => .lift (if s.pc = [] then .ok s else .error .unknownError)
  | fuel + 1, s =>
    if s.pc = [] then pure s
    else do
      let s ← countStep crypto flags checker sigversion checkSig script s
      countLoop script fuel s

/-- `EvalScript`: its result, and how often it has called `CheckSig`. -/
def countScript (stack : List Bytes) (script : Bytes) : Counted ScriptError (List Bytes) := do
  .lift (failIf (script.length > maxScriptSize) .scriptSize)
  let s ← countLoop crypto flags checker sigversion checkSig script script.length ⟨script, script, stack, [], [], 0⟩
  .lift do
    failIf (s.vfExec ≠ []) .unbalancedConditional
    .ok s.stack

end

section
variable {crypto : Crypto} {flags : ScriptFlags} {checker : TransactionSignatureChecker} {sigversion : SigVersion}

theorem result_countCheckSig (isVerify : Bool) (s : ScriptState) :
    (countCheckSig crypto flags sigversion (checker.checkSig crypto) isVerify s).result =
      execCheckSig crypto flags checker sigversion isVerify s := by
  obtain ⟨pc, pbegincodehash, stack, altstack, vfExec, nOpCount⟩ := s
  rcases stack with - | ⟨vchPubKey, - | ⟨vchSig, st⟩⟩
  · rfl
  · rfl
  · simp only [countCheckSig, execCheckSig, Counted.result_bind, Counted.result_lift, Counted.result_call, ok_bind]

theorem result_countMultiSigLoop (scriptCode : Bytes) (sigs keys : List Bytes) :
    (countMultiSigLoop crypto flags sigversion (checker.checkSig crypto) scriptCode sigs keys).result =
      checkMultiSigLoop crypto flags checker sigversion scriptCode sigs keys := by
  induction keys generalizing sigs with
  | nil => cases sigs <;> rfl
  | cons key keys ih =>
    cases sigs with
    | nil => rfl
    | cons sig sigs =>
      simp only [countMultiSigLoop, checkMultiSigLoop, Counted.result_bind, Counted.result_lift, Counted.result_call,
        ok_bind, apply_ite Counted.result, ih, Counted.result_pure]

theorem result_countCheckMultiSig (isVerify : Bool) (s : ScriptState) :
    (countCheckMultiSig crypto flags sigversion (checker.checkSig crypto) isVerify s).result =
      execCheckMultiSig crypto flags checker sigversion isVerify s := by
  obtain ⟨pc, pbegincodehash, stack, altstack, vfExec, nOpCount⟩ := s
  cases stack with
  | nil => rfl
  | cons top st =>
    simp only [countCheckMultiSig, execCheckMultiSig, Counted.result_bind, Counted.result_lift, result_countMultiSigLoop]

theorem result_countCovenant (isMint : Bool) (scriptCode vchSig vchPubKey : Bytes) (multiplier : ℤ)
    (scriptOrigin : Bytes) :
    (countCovenant crypto checker sigversion (checker.checkSig crypto) isMint scriptCode vchSig vchPubKey multiplier
      scriptOrigin).result =
      checkCovenant crypto checker sigversion isMint scriptCode vchSig vchPubKey multiplier scriptOrigin := by
  simp only [countCovenant, checkCovenant, Counted.result_bind, Counted.result_lift, Counted.result_call, ok_bind]

theorem result_countRunCovenant (isMint : Bool) (s : ScriptState)
    (scriptOrigin vchMultiplier vchPubKey vchSig : Bytes) (st : List Bytes) :
    (countRunCovenant crypto flags checker sigversion (checker.checkSig crypto) isMint s scriptOrigin vchMultiplier
      vchPubKey vchSig st).result =
      runCovenant crypto flags checker sigversion isMint s scriptOrigin vchMultiplier vchPubKey vchSig st := by
  simp only [countRunCovenant, runCovenant, Counted.result_bind, Counted.result_lift, result_countCovenant,
    Counted.result_pure]

theorem result_countMint (isMint : Bool) (s : ScriptState) :
    (countMint crypto flags checker sigversion (checker.checkSig crypto) isMint s).result =
      execMint crypto flags checker sigversion isMint s := by
  obtain ⟨pc, pbegincodehash, stack, altstack, vfExec, nOpCount⟩ := s
  cases hflag : flags.uapMint with
  | false => simp [countMint, execMint, hflag]
  | true =>
    cases isMint with
    | true =>
      rcases stack with - | ⟨a, - | ⟨b, - | ⟨c, st⟩⟩⟩ <;>
        simp [countMint, execMint, hflag, result_countRunCovenant]
    | false =>
      rcases stack with - | ⟨a, - | ⟨b, - | ⟨c, - | ⟨d, st⟩⟩⟩⟩ <;>
        simp [countMint, execMint, hflag, result_countRunCovenant]

theorem result_countInstr (script : Bytes) (fExec : Bool) (s : ScriptState) (instr : Instr) :
    (countInstr crypto flags checker sigversion (checker.checkSig crypto) script fExec s instr).result =
      execInstr crypto flags checker sigversion script fExec s instr := by
  cases instr with
  | checkSig isVerify => exact result_countCheckSig isVerify s
  | checkMultiSig isVerify => exact result_countCheckMultiSig isVerify s
  | mint isMint => exact result_countMint isMint s
  | _ => rfl

theorem result_countOp (script : Bytes) (op : ScriptOp) (s : ScriptState) :
    (countOp crypto flags checker sigversion (checker.checkSig crypto) script op s).result =
      execOp crypto flags checker sigversion script op s := by
  simp only [countOp, execOp, apply_ite Counted.result, Counted.result_bind, Counted.result_lift, Counted.result_pure,
    result_countInstr]

theorem result_countStep (script : Bytes) (s : ScriptState) :
    (countStep crypto flags checker sigversion (checker.checkSig crypto) script s).result =
      evalStep crypto flags checker sigversion script s := by
  simp only [countStep, evalStep, Counted.result_bind, Counted.result_lift, result_countOp]

theorem result_countLoop (script : Bytes) (fuel : ℕ) (s : ScriptState) :
    (countLoop crypto flags checker sigversion (checker.checkSig crypto) script fuel s).result =
      evalLoop crypto flags checker sigversion script fuel s := by
  induction fuel generalizing s with
  | zero => rfl
  | succ fuel ih =>
    simp only [countLoop, evalLoop, apply_ite Counted.result, Counted.result_bind, Counted.result_pure, result_countStep,
      ih]

theorem result_countScript (stack : List Bytes) (script : Bytes) :
    (countScript crypto flags checker sigversion (checker.checkSig crypto) stack script).result =
      evalScript crypto flags checker sigversion stack script := by
  simp only [countScript, evalScript, Counted.result_bind, Counted.result_lift, result_countLoop]

end
end Whippet.Script
