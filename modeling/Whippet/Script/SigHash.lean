import Whippet.Primitives.Transaction
import Whippet.Script.CScript

/-! `SignatureHash`: the bytes a signature commits to. -/
namespace Whippet.Script
open Lib Primitives

def sigHashAll : UInt32 := 1
def sigHashNone : UInt32 := 2
def sigHashSingle : UInt32 := 3
def sigHashAnyoneCanPay : UInt32 := 0x80

inductive SigVersion
  | base
  | witnessV0
  deriving DecidableEq, Repr

def anyoneCanPay (nHashType : UInt32) : Bool := nHashType &&& sigHashAnyoneCanPay != 0

def hashSingle (nHashType : UInt32) : Bool := nHashType &&& 0x1f == sigHashSingle

def hashNone (nHashType : UInt32) : Bool := nHashType &&& 0x1f == sigHashNone

theorem hashSingle_iff (nHashType : UInt32) : hashSingle nHashType = true ↔ nHashType &&& 0x1f = 3 := beq_iff_eq

theorem hashNone_iff (nHashType : UInt32) : hashNone nHashType = true ↔ nHashType &&& 0x1f = 2 := beq_iff_eq

/-- The first walk of `SerializeScriptCode`. -/
def countCodeSeparators : ℕ → Bytes → ℕ
  | 0, _ => 0
  | fuel + 1, it =>
    match getOp it with
    | .error _ => 0
    | .ok op => (if op.opcode = opCodeSeparator then 1 else 0) + countCodeSeparators fuel op.rest

/-- The second walk of `SerializeScriptCode`, from `itBegin` with the iterator at `it`. A script that ends
inside a push is written up to where the failed read left the iterator. -/
def writeScriptCode : ℕ → Bytes → Bytes → Bytes
  | 0, _, _ => []
  | fuel + 1, itBegin, it =>
    match getOp it with
    | .ok op =>
      if op.opcode = opCodeSeparator then
        itBegin.take (itBegin.length - op.rest.length - 1) ++ writeScriptCode fuel op.rest op.rest
      else writeScriptCode fuel itBegin op.rest
    | .error it => if itBegin ≠ [] then itBegin.take (itBegin.length - it.length) else []

def serializeScriptCode (scriptCode : Bytes) : Bytes :=
  writeCompactSize (scriptCode.length - countCodeSeparators (scriptCode.length + 1) scriptCode) ++
    writeScriptCode (scriptCode.length + 1) scriptCode scriptCode

section
variable (scriptCode : Bytes) (txTo : CTransaction) (nIn : ℕ) (nHashType : UInt32)

def serializeInput (nInput : ℕ) : Bytes :=
  let nInput := if anyoneCanPay nHashType then nIn else nInput
  match txTo.vin[nInput]? with
  | none => []
  | some txin =>
    txin.prevout.serialize ++
      (if nInput ≠ nIn then writeBytes [] else serializeScriptCode scriptCode) ++
      (if nInput ≠ nIn ∧ (hashSingle nHashType ∨ hashNone nHashType) then writeUInt32 0
        else writeUInt32 txin.nSequence)

def serializeOutput (nOutput : ℕ) : Bytes :=
  if hashSingle nHashType ∧ nOutput ≠ nIn then CTxOut.null.serialize
  else
    match txTo.vout[nOutput]? with
    | none => []
    | some out => out.serialize

/-- `CTransactionSignatureSerializer::Serialize`. -/
def serializeForSignature : Bytes :=
  let nInputs := if anyoneCanPay nHashType then 1 else txTo.vin.length
  let nOutputs := if hashNone nHashType then 0 else if hashSingle nHashType then nIn + 1 else txTo.vout.length
  writeInt32 txTo.nVersion ++
    writeCompactSize nInputs ++
    (List.range nInputs).flatMap (serializeInput scriptCode txTo nIn nHashType) ++
    writeCompactSize nOutputs ++
    (List.range nOutputs).flatMap (serializeOutput txTo nIn nHashType) ++
    writeUInt32 txTo.nLockTime

/-- What `SignatureHash` hashes for `SIGVERSION_BASE`; `none` where it returns the constant one. -/
def signaturePreimage? : Option Bytes :=
  if nIn ≥ txTo.vin.length then none
  else if hashSingle nHashType ∧ nIn ≥ txTo.vout.length then none
  else some (serializeForSignature scriptCode txTo nIn nHashType ++ writeUInt32 nHashType)

end

def getPrevoutHash (crypto : Crypto) (txTo : CTransaction) : Uint256 :=
  crypto.hash256 (txTo.vin.flatMap fun txin => txin.prevout.serialize)

def getSequenceHash (crypto : Crypto) (txTo : CTransaction) : Uint256 :=
  crypto.hash256 (txTo.vin.flatMap fun txin => writeUInt32 txin.nSequence)

def getOutputsHash (crypto : Crypto) (txTo : CTransaction) : Uint256 :=
  crypto.hash256 (txTo.vout.flatMap CTxOut.serialize)

/-- What `SignatureHash` hashes for `SIGVERSION_WITNESS_V0`. -/
def witnessPreimage (crypto : Crypto) (scriptCode : Bytes) (txTo : CTransaction) (nIn : ℕ) (nHashType : UInt32)
    (amount : Int64) : Bytes :=
  let plain := !hashSingle nHashType && !hashNone nHashType
  let hashPrevouts := if anyoneCanPay nHashType then Uint256.zero else getPrevoutHash crypto txTo
  let hashSequence :=
    if !anyoneCanPay nHashType && plain then getSequenceHash crypto txTo else Uint256.zero
  let hashOutputs :=
    if plain then getOutputsHash crypto txTo
    else
      match txTo.vout[nIn]? with
      | some out => if hashSingle nHashType then crypto.hash256 out.serialize else Uint256.zero
      | none => Uint256.zero
  let input :=
    match txTo.vin[nIn]? with
    | none => []
    | some txin =>
      txin.prevout.serialize ++ writeBytes scriptCode ++ writeInt64 amount ++ writeUInt32 txin.nSequence
  writeInt32 txTo.nVersion ++ hashPrevouts.bytes ++ hashSequence.bytes ++ input ++ hashOutputs.bytes ++
    writeUInt32 txTo.nLockTime ++ writeUInt32 nHashType

def signatureHash (crypto : Crypto) (scriptCode : Bytes) (txTo : CTransaction) (nIn : ℕ) (nHashType : UInt32)
    (amount : Int64) (sigversion : SigVersion) : Uint256 :=
  match sigversion with
  | .witnessV0 => crypto.hash256 (witnessPreimage crypto scriptCode txTo nIn nHashType amount)
  | .base =>
    match signaturePreimage? scriptCode txTo nIn nHashType with
    | none => Uint256.one
    | some preimage => crypto.hash256 preimage

end Whippet.Script
