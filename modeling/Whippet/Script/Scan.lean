import Whippet.Script.CScript

/-! The members of `CScript` that walk over a script or test its shape. -/
namespace Whippet.Script
open Lib

/-- The inner loop of `FindAndDelete`: the position after the copies of `b` and how many there were. -/
def skipCopies (b : Bytes) : ℕ → Bytes → Bytes × ℕ
  | 0, pc => (pc, 0)
  | fuel + 1, pc =>
    if b.isPrefixOf pc then
      let (pc, nFound) := skipCopies b fuel (pc.drop b.length)
      (pc, nFound + 1)
    else (pc, 0)

/-- The outer loop of `FindAndDelete`. What lies between `pc2` and `pc` is kept. -/
def findAndDeleteLoop (b : Bytes) : ℕ → Bytes → Bytes → ℕ → Bytes → Bytes × ℕ
  | 0, result, pc2, nFound, _ => (result ++ pc2, nFound)
  | fuel + 1, result, pc2, nFound, pc =>
    let result := result ++ pc2.take (pc2.length - pc.length)
    let (pc, n) := skipCopies b pc.length pc
    match getOp pc with
    | .ok op => findAndDeleteLoop b fuel result pc (nFound + n) op.rest
    | .error _ => (result ++ pc, nFound + n)

/-- `CScript::FindAndDelete`: the script it leaves. -/
def findAndDelete (script b : Bytes) : Bytes :=
  if b = [] then script
  else
    let (result, nFound) := findAndDeleteLoop b (script.length + 1) [] script 0 script
    if nFound > 0 then result else script

def isPushOnlyLoop : ℕ → Bytes → Bool
  | 0, pc => pc.isEmpty
  | fuel + 1, pc =>
    match pc, getOp pc with
    | [], _ => true
    | _, .error _ => false
    | _, .ok op => if op16 < op.opcode then false else isPushOnlyLoop fuel op.rest

/-- `CScript::IsPushOnly`. `OP_RESERVED` counts as a push. -/
def isPushOnly (script : Bytes) : Bool := isPushOnlyLoop script.length script

def isPayToScriptHash (script : Bytes) : Bool :=
  script.length = 23 ∧ script[0]? = some opHash160 ∧ script[1]? = some 0x14 ∧ script[22]? = some opEqual

/-- `CScript::IsWitnessProgram`: the version and the program. -/
def isWitnessProgram? (script : Bytes) : Option (ℕ × Bytes) :=
  match script with
  | version :: size :: program =>
    if script.length < 4 ∨ script.length > 42 then none
    else if size.toNat + 2 = script.length then (decodeOpN? version).map fun v => (v, program)
    else none
  | _ => none

def isUnspendable (script : Bytes) : Bool := script.head? = some opReturn ∨ script.length > maxScriptSize

def opSigOpCount (fAccurate : Bool) (lastOpcode opcode : UInt8) : ℕ :=
  if opcode = opCheckSig ∨ opcode = opCheckSigVerify ∨ opcode = opMint ∨ opcode = opMintTransfer then 1
  else if opcode = opCheckMultiSig ∨ opcode = opCheckMultiSigVerify then
    if fAccurate ∧ op1 ≤ lastOpcode ∧ lastOpcode ≤ op16 then (decodeOpN? lastOpcode).getD 0
    else maxPubkeysPerMultisig
  else 0

def getSigOpCountLoop (fAccurate : Bool) : ℕ → UInt8 → Bytes → ℕ
  | 0, _, _ => 0
  | fuel + 1, lastOpcode, pc =>
    match getOp pc with
    | .error _ => 0
    | .ok op => opSigOpCount fAccurate lastOpcode op.opcode + getSigOpCountLoop fAccurate fuel op.opcode op.rest

/-- `CScript::GetSigOpCount(bool)`. -/
def getSigOpCount (script : Bytes) (fAccurate : Bool) : ℕ :=
  getSigOpCountLoop fAccurate (script.length + 1) opInvalidOpcode script

def lastPushLoop : ℕ → Bytes → Bytes → Option Bytes
  | 0, data, _ => some data
  | fuel + 1, data, pc =>
    match pc, getOp pc with
    | [], _ => some data
    | _, .error _ => none
    | _, .ok op => if op16 < op.opcode then none else lastPushLoop fuel op.data op.rest

/-- `CScript::GetSigOpCount(const CScript&)`, called on the `scriptPubKey`. -/
def getSigOpCountP2SH (script scriptSig : Bytes) : ℕ :=
  if !isPayToScriptHash script then getSigOpCount script true
  else
    match lastPushLoop (scriptSig.length + 1) [] scriptSig with
    | none => 0
    | some subscript => getSigOpCount subscript true

end Whippet.Script
