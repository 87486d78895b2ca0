import Whippet.Script.Instr
import Whippet.Script.Scan
import Whippet.Script.UapRules

/-! `EvalScript` and `VerifyScript`. -/
namespace Whippet.Script
open Lib Primitives

/-- The locals of `EvalScript`. Stacks have their top at the head; iterators are the bytes ahead of them. -/
structure ScriptState where
  pc : Bytes
  pbegincodehash : Bytes
  stack : List Bytes
  altstack : List Bytes
  vfExec : List Bool
  nOpCount : ℕ
  deriving DecidableEq, Repr

section
variable (crypto : Crypto) (flags : ScriptFlags) (checker : TransactionSignatureChecker)
  (sigversion : SigVersion)

/-- The `CScriptNum` constructor; what it throws is caught around the loop. -/
def scriptNum (vch : Bytes) (maxNumSize : ℕ) : Except ScriptError ℤ :=
  orFail .unknownError (scriptNum? vch flags.minimalData maxNumSize)

/-- The code a signature covers. Scripts before segwit drop the signature itself. -/
def dropSignature (scriptCode vchSig : Bytes) : Bytes :=
  match sigversion with
  | .base => findAndDelete scriptCode (pushData vchSig)
  | .witnessV0 => scriptCode

def execUpgradableNop (s : ScriptState) : Except ScriptError ScriptState := do
  failIf flags.discourageUpgradableNops .discourageUpgradableNops
  .ok s

def execCheckLockTimeVerify (s : ScriptState) : Except ScriptError ScriptState :=
  if !flags.checkLockTimeVerify then execUpgradableNop flags s
  else
    match s.stack with
    | [] => .error .invalidStackOperation
    | top :: _ => do
      let nLockTime ← scriptNum flags top 5
      failIf (nLockTime < 0) .negativeLockTime
      failIf (!checker.checkLockTime nLockTime) .unsatisfiedLockTime
      .ok s

def execCheckSequenceVerify (s : ScriptState) : Except ScriptError ScriptState :=
  if !flags.checkSequenceVerify then execUpgradableNop flags s
  else
    match s.stack with
    | [] => .error .invalidStackOperation
    | top :: _ => do
      let nSequence ← scriptNum flags top 5
      failIf (nSequence < 0) .negativeLockTime
      if TransactionSignatureChecker.sequenceDisabled nSequence.toNat then .ok s
      else do
        failIf (!checker.checkSequence nSequence.toNat) .unsatisfiedLockTime
        .ok s

/-- `OP_IF` and `OP_NOTIF`, which also open a branch that is not executed. -/
def execIf (isNotIf fExec : Bool) (s : ScriptState) : Except ScriptError ScriptState :=
  if !fExec then .ok { s with vfExec := false :: s.vfExec }
  else
    match s.stack with
    | [] => .error .unbalancedConditional
    | vch :: st => do
      failIf (sigversion = .witnessV0 ∧ flags.minimalIf ∧ vch ≠ [] ∧ vch ≠ [1]) .minimalIf
      .ok { s with stack := st, vfExec := (castToBool vch != isNotIf) :: s.vfExec }

def execPickRoll (isRoll : Bool) (s : ScriptState) : Except ScriptError ScriptState :=
  match s.stack with
  | top :: st =>
    if st = [] then .error .invalidStackOperation
    else do
      let n := getInt (← scriptNum flags top defaultMaxNumSize)
      failIf (n < 0 ∨ n ≥ st.length) .invalidStackOperation
      .ok { s with stack := st.getD n.toNat [] :: if isRoll then st.eraseIdx n.toNat else st }
  | [] => .error .invalidStackOperation

def execEqual (isVerify : Bool) (s : ScriptState) : Except ScriptError ScriptState :=
  match s.stack with
  | vch2 :: vch1 :: st =>
    if isVerify then do
      failIf (vch1 ≠ vch2) .equalVerify
      .ok { s with stack := st }
    else .ok { s with stack := boolVch (vch1 = vch2) :: st }
  | _ => .error .invalidStackOperation

def execUnary (op : UnaryOp) (s : ScriptState) : Except ScriptError ScriptState :=
  match s.stack with
  | top :: st => do
    let bn ← scriptNum flags top defaultMaxNumSize
    .ok { s with stack := serialize (unaryNum bn op) :: st }
  | [] => .error .invalidStackOperation

def execBinary (op : BinaryOp) (s : ScriptState) : Except ScriptError ScriptState :=
  match s.stack with
  | top2 :: top1 :: st => do
    let bn1 ← scriptNum flags top1 defaultMaxNumSize
    let bn2 ← scriptNum flags top2 defaultMaxNumSize
    .ok { s with stack := serialize (binaryNum bn1 bn2 op) :: st }
  | _ => .error .invalidStackOperation

def execVerify (e : ScriptError) (s : ScriptState) : Except ScriptError ScriptState :=
  match s.stack with
  | top :: st => do
    failIf (!castToBool top) e
    .ok { s with stack := st }
  | [] => .error .invalidStackOperation

def execWithin (s : ScriptState) : Except ScriptError ScriptState :=
  match s.stack with
  | top3 :: top2 :: top1 :: st => do
    let bn1 ← scriptNum flags top1 defaultMaxNumSize
    let bn2 ← scriptNum flags top2 defaultMaxNumSize
    let bn3 ← scriptNum flags top3 defaultMaxNumSize
    .ok { s with stack := boolVch (bn2 ≤ bn1 ∧ bn1 < bn3) :: st }
  | _ => .error .invalidStackOperation

def execCheckSig (isVerify : Bool) (s : ScriptState) : Except ScriptError ScriptState :=
  match s.stack with
  | vchPubKey :: vchSig :: st => do
    let scriptCode := dropSignature sigversion s.pbegincodehash vchSig
    checkSignatureEncoding crypto vchSig flags
    checkPubKeyEncoding vchPubKey flags sigversion
    let fSuccess := checker.checkSig crypto vchSig vchPubKey scriptCode sigversion
    failIf (!fSuccess ∧ flags.nullFail ∧ vchSig ≠ []) .sigNullFail
    if isVerify then do
      failIf (!fSuccess) .checkSigVerify
      .ok { s with stack := st }
    else .ok { s with stack := boolVch fSuccess :: st }
  | _ => .error .invalidStackOperation

/-- The loop of `OP_CHECKMULTISIG` over the signatures and keys that are left. -/
def checkMultiSigLoop (scriptCode : Bytes) : List Bytes → List Bytes → Except ScriptError Bool
  | [], _ => .ok true
  | _ :: _, [] => .ok false
  | vchSig :: sigs, vchPubKey :: keys => do
    checkSignatureEncoding crypto vchSig flags
    checkPubKeyEncoding vchPubKey flags sigversion
    let left := if checker.checkSig crypto vchSig vchPubKey scriptCode sigversion then sigs else vchSig :: sigs
    if left.length > keys.length then .ok false else checkMultiSigLoop scriptCode left keys

/-- `OP_CHECKMULTISIG` on the stack `n key₁ … keyₙ m sig₁ … sigₘ dummy`, top first. -/
def execCheckMultiSig (isVerify : Bool) (s : ScriptState) : Except ScriptError ScriptState :=
  match s.stack with
  | [] => .error .invalidStackOperation
  | top :: st => do
    let nKeysCount := getInt (← scriptNum flags top defaultMaxNumSize)
    failIf (nKeysCount < 0 ∨ nKeysCount > maxPubkeysPerMultisig) .pubkeyCount
    let nKeys := nKeysCount.toNat
    let nOpCount := s.nOpCount + nKeys
    failIf (nOpCount > maxOpsPerScript) .opCount
    let vchSigsCount ← orFail .invalidStackOperation st[nKeys]?
    let nSigsCount := getInt (← scriptNum flags vchSigsCount defaultMaxNumSize)
    failIf (nSigsCount < 0 ∨ nSigsCount > nKeysCount) .sigCount
    let sigsAndRest := st.drop (nKeys + 1)
    let sigs := sigsAndRest.take nSigsCount.toNat
    let dummy ← orFail .invalidStackOperation sigsAndRest[nSigsCount.toNat]?
    let scriptCode := sigs.foldl (dropSignature sigversion) s.pbegincodehash
    let fSuccess ← checkMultiSigLoop crypto flags checker sigversion scriptCode sigs (st.take nKeys)
    failIf (!fSuccess ∧ flags.nullFail ∧ ∃ sig ∈ sigs, sig ≠ []) .sigNullFail
    failIf (flags.nullDummy ∧ dummy ≠ []) .sigNullDummy
    let st := sigsAndRest.drop (nSigsCount.toNat + 1)
    if isVerify then do
      failIf (!fSuccess) .checkMultiSigVerify
      .ok { s with stack := st, nOpCount := nOpCount }
    else .ok { s with stack := boolVch fSuccess :: st, nOpCount := nOpCount }

/-- What `OP_MINT` and `OP_MINT_TRANSFER` require once their operands are read. -/
def checkCovenant (isMint : Bool) (scriptCode vchSig vchPubKey : Bytes) (multiplier : ℤ) (scriptOrigin : Bytes) :
    Except ScriptError Unit := do
  failIf (!isValidSignatureEncoding vchSig ∨ (vchSig ≠ [] ∧ !(isLowDERSignature crypto vchSig).isOk) ∨
    !isDefinedHashtypeSignature vchSig) .sigDer
  failIf (vchPubKey.length ≠ 33 ∧ vchPubKey.length ≠ 65) .pubkeyType
  failIf (!checker.checkSig crypto vchSig vchPubKey scriptCode sigversion) .sigNullFail
  let txin ← orFail .uapNoTxContext checker.txTo.vin[checker.nIn]?
  let nValueIn := checker.amount.toInt
  failIf (isMint ∧ nValueIn < 1000 * coin) .uapMintEntryFee
  failIf (!isMint ∧ scriptOrigin.length ≠ uapOriginSize) .uapOriginSize
  failIf (multiplier < 0 ∨ multiplier > maxUapMultiplier) .uapMultiplierRange
  let baseCoin := nValueIn.tdiv coin
  let mult := getInt multiplier
  failIf (mult > 0 ∧ baseCoin > 0 ∧ baseCoin > 2 ^ 48 / mult) .uapVirtualBalanceBound
  (if isMint then checkUapOneShot checker checker.nIn else .ok ())
  let lineage := if isMint then uapOriginFromOutpoint crypto txin.prevout else scriptOrigin
  checkUapOutputConservation crypto checker multiplier lineage

/-- `OP_MINT` and `OP_MINT_TRANSFER` with their operands taken off the stack. -/
def runCovenant (isMint : Bool) (s : ScriptState) (scriptOrigin vchMultiplier vchPubKey vchSig : Bytes)
    (st : List Bytes) : Except ScriptError ScriptState := do
  let multiplier ← scriptNum flags vchMultiplier defaultMaxNumSize
  let scriptCode := dropSignature sigversion s.pbegincodehash vchSig
  checkCovenant crypto checker sigversion isMint scriptCode vchSig vchPubKey multiplier scriptOrigin
  .ok { s with stack := boolVch true :: st }

/-- `OP_MINT` and `OP_MINT_TRANSFER`. Only a transfer has an origin on the stack. -/
def execMint (isMint : Bool) (s : ScriptState) : Except ScriptError ScriptState :=
  if !flags.uapMint then .error .badOpcode
  else
    match isMint, s.stack with
    | true, vchMultiplier :: vchPubKey :: vchSig :: st =>
      runCovenant crypto flags checker sigversion true s [] vchMultiplier vchPubKey vchSig st
    | false, scriptOrigin :: vchMultiplier :: vchPubKey :: vchSig :: st =>
      runCovenant crypto flags checker sigversion false s scriptOrigin vchMultiplier vchPubKey vchSig st
    | _, _ => .error .invalidStackOperation

/-- `OP_INSPECT`'s virtual balance: the value times the multiplier the output itself declares. -/
def virtualBalance (out : CTxOut) : Except ScriptError Bytes :=
  match parseUapOutputScript? out.scriptPubKey with
  | none => .ok (serialize 0)
  | some f => do
    let balance := out.nValue.toInt * getInt f.multiplier
    failIf (balance < -2 ^ 63 ∨ balance ≥ 2 ^ 63) .uapValueOverflow
    .ok (serialize balance)

def inspectOutput (sel : ℤ) (out : CTxOut) : Except ScriptError Bytes :=
  if sel = 10 then .ok (serialize out.nValue.toInt)
  else if sel = 11 then virtualBalance out
  else .ok out.scriptPubKey

def execInspect (s : ScriptState) : Except ScriptError ScriptState :=
  match s.stack with
  | [] => .error .invalidStackOperation
  | top :: st => do
    let sel := getInt (← scriptNum flags top defaultMaxNumSize)
    if sel = 0 then .ok { s with stack := serialize checker.txTo.nVersion.toInt :: st }
    else if sel = 1 then .ok { s with stack := serialize checker.nIn :: st }
    else if sel = 2 then .ok { s with stack := serialize checker.txTo.vin.length :: st }
    else if sel = 3 then .ok { s with stack := serialize checker.txTo.vout.length :: st }
    else if sel = 10 ∨ sel = 11 ∨ sel = 12 then
      match st with
      | [] => .error .invalidStackOperation
      | vchIndex :: st => do
        let index := getInt (← scriptNum flags vchIndex defaultMaxNumSize)
        failIf (index < 0) .invalidStackOperation
        let out ← orFail .invalidStackOperation checker.txTo.vout[index.toNat]?
        .ok { s with stack := (← inspectOutput sel out) :: st }
    else .error .invalidStackOperation

def execInstr (script : Bytes) (fExec : Bool) (s : ScriptState) : Instr → Except ScriptError ScriptState
  | .num n => .ok { s with stack := serialize n :: s.stack }
  | .nop => .ok s
  | .upgradableNop => execUpgradableNop flags s
  | .checkLockTimeVerify => execCheckLockTimeVerify flags checker s
  | .checkSequenceVerify => execCheckSequenceVerify flags checker s
  | .ifNotIf isNotIf => execIf flags sigversion isNotIf fExec s
  | .elseOp =>
    match s.vfExec with
    | [] => .error .unbalancedConditional
    | b :: vfExec => .ok { s with vfExec := (!b) :: vfExec }
  | .endIf =>
    match s.vfExec with
    | [] => .error .unbalancedConditional
    | _ :: vfExec => .ok { s with vfExec := vfExec }
  | .verify => execVerify .verify s
  | .ret => .error .opReturn
  | .toAltStack =>
    match s.stack with
    | [] => .error .invalidStackOperation
    | x :: st => .ok { s with stack := st, altstack := x :: s.altstack }
  | .fromAltStack =>
    match s.altstack with
    | [] => .error .invalidAltStackOperation
    | x :: st => .ok { s with stack := x :: s.stack, altstack := st }
  | .stack op => do
    let st ← execStack op s.stack
    .ok { s with stack := st }
  | .pickRoll isRoll => execPickRoll flags isRoll s
  | .equal isVerify => execEqual isVerify s
  | .unary op => execUnary flags op s
  | .binary op => execBinary flags op s
  | .numEqualVerify => do
    let s ← execBinary flags .numEqual s
    execVerify .numEqualVerify s
  | .within => execWithin flags s
  | .hash op =>
    match s.stack with
    | [] => .error .invalidStackOperation
    | vch :: st => .ok { s with stack := hashVch crypto vch op :: st }
  | .codeSeparator => .ok { s with pbegincodehash := s.pc }
  | .checkSig isVerify => execCheckSig crypto flags checker sigversion isVerify s
  | .checkMultiSig isVerify => execCheckMultiSig crypto flags checker sigversion isVerify s
  | .mint isMint => execMint crypto flags checker sigversion isMint s
  | .inspect => execInspect flags checker s
  | .inspectSelf => .ok { s with stack := script :: s.stack }

/-- `OP_IF` to `OP_ENDIF`, which are looked at in branches that are not executed too. -/
def isConditional (opcode : UInt8) : Bool := 0x63 ≤ opcode ∧ opcode ≤ 0x68

def execOp (script : Bytes) (op : ScriptOp) (s : ScriptState) : Except ScriptError ScriptState :=
  let fExec := s.vfExec.all id
  if fExec ∧ op.opcode ≤ opPushData4 then do
    failIf (flags.minimalData ∧ !checkMinimalPush op.data op.opcode) .minimalData
    .ok { s with stack := op.data :: s.stack }
  else if fExec ∨ isConditional op.opcode then do
    let instr ← orFail .badOpcode (decodeInstr? op.opcode)
    execInstr crypto flags checker sigversion script fExec s instr
  else .ok s

def checkStackSize (s : ScriptState) : Except ScriptError ScriptState := do
  failIf (s.stack.length + s.altstack.length > 1000) .stackSize
  .ok s

def evalStep (script : Bytes) (s : ScriptState) : Except ScriptError ScriptState := do
  let op ← orFail .badOpcode (getOp? s.pc)
  failIf (op.data.length > maxScriptElementSize) .pushSize
  let nOpCount := if op16 < op.opcode then s.nOpCount + 1 else s.nOpCount
  failIf (op16 < op.opcode ∧ nOpCount > maxOpsPerScript) .opCount
  failIf (isDisabled op.opcode) .disabledOpcode
  let s ← execOp crypto flags checker sigversion script op { s with pc := op.rest, nOpCount := nOpCount }
  checkStackSize s

/-- The loop of `EvalScript`. Every iteration reads at least one byte. -/
def evalLoop (script : Bytes) : ℕ → ScriptState → Except ScriptError ScriptState
  | 0, s => if s.pc = [] then .ok s else .error .unknownError
  | fuel + 1, s =>
    if s.pc = [] then .ok s
    else do
      let s ← evalStep crypto flags checker sigversion script s
      evalLoop script fuel s

def evalScript (stack : List Bytes) (script : Bytes) : Except ScriptError (List Bytes) := do
  failIf (script.length > maxScriptSize) .scriptSize
  let s ← evalLoop crypto flags checker sigversion script script.length ⟨script, script, stack, [], [], 0⟩
  failIf (s.vfExec ≠ []) .unbalancedConditional
  .ok s.stack

end

section
variable (crypto : Crypto) (flags : ScriptFlags) (checker : TransactionSignatureChecker)

/-- The script and the stack a version 0 witness program stands for. -/
def witnessScript (witness : List Bytes) (program : Bytes) : Except ScriptError (Bytes × List Bytes) :=
  if program.length = 32 then do
    let script ← orFail .witnessProgramWitnessEmpty witness.getLast?
    failIf ((crypto.sha256 script).bytes ≠ program) .witnessProgramMismatch
    .ok (script, witness.dropLast.reverse)
  else if program.length = 20 then do
    failIf (witness.length ≠ 2) .witnessProgramMismatch
    .ok ([0x76, opHash160] ++ pushData program ++ [0x88, opCheckSig], witness.reverse)
  else .error .witnessProgramWrongLength

def verifyWitnessProgram (witness : List Bytes) (witversion : ℕ) (program : Bytes) : Except ScriptError Unit :=
  if witversion = 0 then do
    let (scriptPubKey, stack) ← witnessScript crypto witness program
    failIf (∃ vch ∈ stack, vch.length > maxScriptElementSize) .pushSize
    let stack ← evalScript crypto flags checker .witnessV0 stack scriptPubKey
    failIf (stack.length ≠ 1) .evalFalse
    failIf (!castToBool (stack.headD [])) .evalFalse
  else failIf flags.discourageUpgradableWitnessProgram .discourageUpgradableWitnessProgram

/-- The witness part of `VerifyScript`, run for the output script and for a redeem script. It returns the
stack and whether there was a witness program; the stack is then cut to one element. -/
def verifyWitness (witness : List Bytes) (scriptSig expected : Bytes) (malleated : ScriptError)
    (script : Bytes) (stack : List Bytes) (hadWitness : Bool) : Except ScriptError (List Bytes × Bool) :=
  if !flags.witness then .ok (stack, hadWitness)
  else
    match isWitnessProgram? script with
    | none => .ok (stack, hadWitness)
    | some (witversion, program) => do
      failIf (scriptSig ≠ expected) malleated
      verifyWitnessProgram crypto flags checker witness witversion program
      .ok ([stack.getLastD []], true)

/-- The script-hash part of `VerifyScript`. A failed assertion is an unknown error. -/
def verifyP2SH (witness : List Bytes) (scriptSig scriptPubKey : Bytes) (stackCopy stack : List Bytes)
    (hadWitness : Bool) : Except ScriptError (List Bytes × Bool) :=
  if flags.p2sh ∧ isPayToScriptHash scriptPubKey then do
    failIf (!isPushOnly scriptSig) .sigPushOnly
    match stackCopy with
    | [] => .error .unknownError
    | pubKey2 :: st =>
      let stack ← evalScript crypto flags checker .base st pubKey2
      failIf (!castToBool (stack.headD [])) .evalFalse
      verifyWitness crypto flags checker witness scriptSig (pushData pubKey2) .witnessMalleatedP2SH pubKey2 stack
        hadWitness
  else .ok (stack, hadWitness)

def verifyScript (scriptSig scriptPubKey : Bytes) (witness : List Bytes) : Except ScriptError Unit := do
  failIf (flags.sigPushOnly ∧ !isPushOnly scriptSig) .sigPushOnly
  let stackCopy ← evalScript crypto flags checker .base [] scriptSig
  let stack ← evalScript crypto flags checker .base stackCopy scriptPubKey
  failIf (!castToBool (stack.headD [])) .evalFalse
  let (stack, hadWitness) ←
    verifyWitness crypto flags checker witness scriptSig [] .witnessMalleated scriptPubKey stack false
  let (stack, hadWitness) ←
    verifyP2SH crypto flags checker witness scriptSig scriptPubKey stackCopy stack hadWitness
  failIf (flags.cleanStack ∧ (!flags.p2sh ∨ !flags.witness)) .unknownError
  failIf (flags.cleanStack ∧ stack.length ≠ 1) .cleanStack
  failIf (flags.witness ∧ !flags.p2sh) .unknownError
  failIf (flags.witness ∧ !hadWitness ∧ witness ≠ []) .witnessUnexpected

end
end Whippet.Script
