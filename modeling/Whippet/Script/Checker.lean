import Whippet.Script.SigHash
import Whippet.Script.UapScript

/-! Verification flags, script errors, signature encodings and `TransactionSignatureChecker`. -/
namespace Whippet.Script
open Lib Primitives

/-- `SCRIPT_VERIFY_*`, one field a bit. -/
structure ScriptFlags where
  p2sh : Bool := false
  strictEnc : Bool := false
  derSig : Bool := false
  lowS : Bool := false
  nullDummy : Bool := false
  sigPushOnly : Bool := false
  minimalData : Bool := false
  discourageUpgradableNops : Bool := false
  cleanStack : Bool := false
  checkLockTimeVerify : Bool := false
  checkSequenceVerify : Bool := false
  witness : Bool := false
  discourageUpgradableWitnessProgram : Bool := false
  minimalIf : Bool := false
  nullFail : Bool := false
  witnessPubkeyType : Bool := false
  uapMint : Bool := false
  deriving DecidableEq, Repr

def mandatoryScriptVerifyFlags : ScriptFlags := { p2sh := true }

def standardScriptVerifyFlags : ScriptFlags :=
  { mandatoryScriptVerifyFlags with
    derSig := true, strictEnc := true, minimalData := true, nullDummy := true, discourageUpgradableNops := true,
    cleanStack := true, minimalIf := true, nullFail := true, checkLockTimeVerify := true,
    checkSequenceVerify := true, lowS := true, witness := true, discourageUpgradableWitnessProgram := true,
    witnessPubkeyType := true }

/-- The flags `ConnectBlock` passes, by which of the later rules are active. `IsWitnessEnabled` is false. -/
def blockScriptFlags (derSig checkLockTimeVerify uapMint checkSequenceVerify : Bool) : ScriptFlags :=
  { p2sh := true, derSig := derSig, checkLockTimeVerify := checkLockTimeVerify, uapMint := uapMint,
    checkSequenceVerify := checkSequenceVerify }

/-- `ScriptError`, without `SCRIPT_ERR_OK`. -/
inductive ScriptError
  | unknownError | evalFalse | opReturn
  | scriptSize | pushSize | opCount | stackSize | sigCount | pubkeyCount
  | verify | equalVerify | checkMultiSigVerify | checkSigVerify | numEqualVerify
  | badOpcode | disabledOpcode | invalidStackOperation | invalidAltStackOperation | unbalancedConditional
  | negativeLockTime | unsatisfiedLockTime
  | sigHashType | sigDer | minimalData | sigPushOnly | sigHighS | sigNullDummy | pubkeyType | cleanStack
  | minimalIf | sigNullFail
  | discourageUpgradableNops | discourageUpgradableWitnessProgram
  | witnessProgramWrongLength | witnessProgramWitnessEmpty | witnessProgramMismatch | witnessMalleated
  | witnessMalleatedP2SH | witnessUnexpected | witnessPubkeyType
  | uapNoTxContext | uapInputUnreadable | uapValueOverflow | uapMintShapedOutput | uapUnbackedLineageOutput
  | uapLineageNotContinued | uapConservationViolation | uapOneShotViolation | uapMintEntryFee | uapOriginSize
  | uapMultiplierRange | uapVirtualBalanceBound
  deriving DecidableEq, Repr

/-- `CastToBool`. Negative zero is false. -/
def castToBool : Bytes → Bool
  | [] => false
  | [b] => b ≠ 0 ∧ b ≠ 0x80
  | b :: rest => b ≠ 0 ∨ castToBool rest

def isCompressedOrUncompressedPubKey (vchPubKey : Bytes) : Bool :=
  match vchPubKey.head? with
  | some 0x04 => vchPubKey.length = 65
  | some 0x02 | some 0x03 => vchPubKey.length = 33
  | _ => false

def isCompressedPubKey (vchPubKey : Bytes) : Bool :=
  vchPubKey.length = 33 ∧ (vchPubKey.head? = some 0x02 ∨ vchPubKey.head? = some 0x03)

/-- `IsValidSignatureEncoding`, strict DER followed by the hash type. -/
def isValidSignatureEncoding (sig : Bytes) : Bool :=
  if sig.length < 9 then false
  else if sig.length > 73 then false
  else if sig.getD 0 0 ≠ 0x30 then false
  else if (sig.getD 1 0).toNat ≠ sig.length - 3 then false
  else
    let lenR := (sig.getD 3 0).toNat
    if 5 + lenR ≥ sig.length then false
    else
      let lenS := (sig.getD (5 + lenR) 0).toNat
      if lenR + lenS + 7 ≠ sig.length then false
      else if sig.getD 2 0 ≠ 0x02 then false
      else if lenR = 0 then false
      else if signBit (sig.getD 4 0) then false
      else if lenR > 1 ∧ sig.getD 4 0 = 0 ∧ ¬ signBit (sig.getD 5 0) then false
      else if sig.getD (lenR + 4) 0 ≠ 0x02 then false
      else if lenS = 0 then false
      else if signBit (sig.getD (lenR + 6) 0) then false
      else if lenS > 1 ∧ sig.getD (lenR + 6) 0 = 0 ∧ ¬ signBit (sig.getD (lenR + 7) 0) then false
      else true

def isLowDERSignature (crypto : Crypto) (vchSig : Bytes) : Except ScriptError Unit :=
  if !isValidSignatureEncoding vchSig then .error .sigDer
  else if !crypto.checkLowS vchSig.dropLast then .error .sigHighS
  else .ok ()

def isDefinedHashtypeSignature (vchSig : Bytes) : Bool :=
  match vchSig.getLast? with
  | none => false
  | some back =>
    let nHashType := back &&& ~~~0x80
    ¬ (nHashType < 1 ∨ nHashType > 3)

def checkSignatureEncoding (crypto : Crypto) (vchSig : Bytes) (flags : ScriptFlags) : Except ScriptError Unit :=
  if vchSig = [] then .ok ()
  else if (flags.derSig || flags.lowS || flags.strictEnc) && !isValidSignatureEncoding vchSig then .error .sigDer
  else
    match if flags.lowS then isLowDERSignature crypto vchSig else .ok () with
    | .error e => .error e
    | .ok () => if flags.strictEnc && !isDefinedHashtypeSignature vchSig then .error .sigHashType else .ok ()

def checkPubKeyEncoding (vchPubKey : Bytes) (flags : ScriptFlags) (sigversion : SigVersion) :
    Except ScriptError Unit :=
  if flags.strictEnc && !isCompressedOrUncompressedPubKey vchPubKey then .error .pubkeyType
  else if flags.witnessPubkeyType && sigversion = .witnessV0 && !isCompressedPubKey vchPubKey then
    .error .witnessPubkeyType
  else .ok ()

/-- `CPubKey::GetLen`. -/
def pubKeyLen (header : UInt8) : ℕ :=
  if header = 2 ∨ header = 3 then 33 else if header = 4 ∨ header = 6 ∨ header = 7 then 65 else 0

def isValidPubKey (vchPubKey : Bytes) : Bool :=
  match vchPubKey.head? with
  | none => false
  | some header => pubKeyLen header ≠ 0 ∧ pubKeyLen header = vchPubKey.length

/-- `TransactionSignatureChecker`. The previous outputs are parallel to the inputs where they are known. -/
structure TransactionSignatureChecker where
  txTo : CTransaction
  nIn : ℕ
  amount : Int64
  vPrevScriptPubKeys : Option (List Bytes)
  vPrevAmounts : Option (List Int64)

namespace TransactionSignatureChecker
variable (checker : TransactionSignatureChecker)

def getInputScriptPubKey? (nIndex : ℕ) : Option Bytes := checker.vPrevScriptPubKeys.bind (·[nIndex]?)

def getInputAmount? (nIndex : ℕ) : Option Int64 := checker.vPrevAmounts.bind (·[nIndex]?)

/-- `CheckSig`: the hash type is the last byte of the signature. -/
def checkSig (crypto : Crypto) (vchSigIn vchPubKey scriptCode : Bytes) (sigversion : SigVersion) : Bool :=
  if !isValidPubKey vchPubKey then false
  else
    match vchSigIn.getLast? with
    | none => false
    | some nHashType =>
      let sighash := signatureHash crypto scriptCode checker.txTo checker.nIn (UInt32.ofNat nHashType.toNat)
        checker.amount sigversion
      crypto.verify vchPubKey sighash vchSigIn.dropLast

def lockTimeThreshold : ℤ := 500000000

def checkLockTime (nLockTime : ℤ) : Bool :=
  let txLockTime : ℤ := checker.txTo.nLockTime.toNat
  if ¬ ((txLockTime < lockTimeThreshold ∧ nLockTime < lockTimeThreshold) ∨
      (txLockTime ≥ lockTimeThreshold ∧ nLockTime ≥ lockTimeThreshold)) then false
  else if nLockTime > txLockTime then false
  else
    match checker.txTo.vin[checker.nIn]? with
    | none => false
    | some txin => txin.nSequence ≠ CTxIn.sequenceFinal

def sequenceLockTimeTypeFlag : ℕ := 2 ^ 22

def sequenceMask : ℕ := sequenceLockTimeTypeFlag ||| 0xffff

def sequenceDisabled (nSequence : ℕ) : Bool := nSequence.testBit 31

/-- `CheckSequence`, called with a non-negative operand. -/
def checkSequence (nSequence : ℕ) : Bool :=
  match checker.txTo.vin[checker.nIn]? with
  | none => false
  | some txin =>
    let txToSequence := txin.nSequence.toNat
    if checker.txTo.nVersion.toUInt32 < 2 then false
    else if sequenceDisabled txToSequence then false
    else
      let txToSequenceMasked := txToSequence &&& sequenceMask
      let nSequenceMasked := nSequence &&& sequenceMask
      if ¬ ((txToSequenceMasked < sequenceLockTimeTypeFlag ∧ nSequenceMasked < sequenceLockTimeTypeFlag) ∨
          (txToSequenceMasked ≥ sequenceLockTimeTypeFlag ∧ nSequenceMasked ≥ sequenceLockTimeTypeFlag)) then false
      else !(nSequenceMasked > txToSequenceMasked)

end TransactionSignatureChecker
end Whippet.Script
