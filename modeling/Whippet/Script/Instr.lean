import Whippet.Script.Checker

/-! The instructions `EvalScript` switches on, and their effect where it depends on the stack alone. -/
namespace Whippet.Script
open Lib Primitives

inductive StackOp
  | twoDrop | twoDup | threeDup | twoOver | twoRot | twoSwap | ifDup | depth | drop | dup | nip | over | rot
  | swap | tuck | size
  deriving DecidableEq, Repr

inductive UnaryOp
  | oneAdd | oneSub | negate | abs | not | zeroNotEqual
  deriving DecidableEq, Repr

inductive BinaryOp
  | add | sub | boolAnd | boolOr | numEqual | numNotEqual | lessThan | greaterThan | lessThanOrEqual
  | greaterThanOrEqual | min | max
  deriving DecidableEq, Repr

inductive HashOp
  | ripemd160 | sha1 | sha256 | hash160 | hash256
  deriving DecidableEq, Repr

/-- The cases of the switch. A case that tests its opcode again has that test as an argument. -/
inductive Instr
  | num (n : ℤ)
  | nop
  | upgradableNop
  | checkLockTimeVerify
  | checkSequenceVerify
  | ifNotIf (isNotIf : Bool)
  | elseOp
  | endIf
  | verify
  | ret
  | toAltStack
  | fromAltStack
  | stack (op : StackOp)
  | pickRoll (isRoll : Bool)
  | equal (isVerify : Bool)
  | unary (op : UnaryOp)
  | binary (op : BinaryOp)
  | numEqualVerify
  | within
  | hash (op : HashOp)
  | codeSeparator
  | checkSig (isVerify : Bool)
  | checkMultiSig (isVerify : Bool)
  | mint (isMint : Bool)
  | inspect
  | inspectSelf
  deriving DecidableEq, Repr

/-- The opcodes from `OP_NOP` on that the switch has a case for. -/
def opcodeTable : List (UInt8 × Instr) :=
  [(0x61, .nop), (0x63, .ifNotIf false), (0x64, .ifNotIf true), (0x67, .elseOp), (0x68, .endIf), (0x69, .verify),
    (opReturn, .ret), (0x6b, .toAltStack), (0x6c, .fromAltStack), (0x6d, .stack .twoDrop), (0x6e, .stack .twoDup),
    (0x6f, .stack .threeDup), (0x70, .stack .twoOver), (0x71, .stack .twoRot), (0x72, .stack .twoSwap),
    (0x73, .stack .ifDup), (0x74, .stack .depth), (0x75, .stack .drop), (0x76, .stack .dup), (0x77, .stack .nip),
    (0x78, .stack .over), (0x79, .pickRoll false), (0x7a, .pickRoll true), (0x7b, .stack .rot),
    (0x7c, .stack .swap), (0x7d, .stack .tuck), (0x82, .stack .size), (opEqual, .equal false),
    (0x88, .equal true), (0x8b, .unary .oneAdd), (0x8c, .unary .oneSub), (0x8f, .unary .negate),
    (0x90, .unary .abs), (0x91, .unary .not), (0x92, .unary .zeroNotEqual), (0x93, .binary .add),
    (0x94, .binary .sub), (0x9a, .binary .boolAnd), (0x9b, .binary .boolOr), (0x9c, .binary .numEqual),
    (0x9d, .numEqualVerify), (0x9e, .binary .numNotEqual), (0x9f, .binary .lessThan),
    (0xa0, .binary .greaterThan), (0xa1, .binary .lessThanOrEqual), (0xa2, .binary .greaterThanOrEqual),
    (0xa3, .binary .min), (0xa4, .binary .max), (0xa5, .within), (0xa6, .hash .ripemd160), (0xa7, .hash .sha1),
    (0xa8, .hash .sha256), (opHash160, .hash .hash160), (0xaa, .hash .hash256), (opCodeSeparator, .codeSeparator),
    (opCheckSig, .checkSig false), (opCheckSigVerify, .checkSig true), (opCheckMultiSig, .checkMultiSig false),
    (opCheckMultiSigVerify, .checkMultiSig true), (0xb0, .upgradableNop), (0xb1, .checkLockTimeVerify),
    (0xb2, .checkSequenceVerify), (0xb3, .upgradableNop), (0xb4, .upgradableNop), (opMint, .mint true),
    (0xb6, .inspectSelf), (0xb7, .inspect), (0xb8, .upgradableNop), (0xb9, .upgradableNop),
    (opMintTransfer, .mint false)]

/-- The case of the switch an opcode selects; `none` is the default case. -/
def decodeInstr? (opcode : UInt8) : Option Instr :=
  if opcode = op1Negate ∨ (op1 ≤ opcode ∧ opcode ≤ op16) then
    some (.num ((opcode.toNat : ℤ) - ((op1.toNat : ℤ) - 1)))
  else opcodeTable.lookup opcode

/-- `OP_CAT`, `OP_SUBSTR`, `OP_LEFT`, `OP_RIGHT`, `OP_INVERT`, `OP_AND`, `OP_OR`, `OP_XOR`, `OP_2MUL`, `OP_2DIV`,
`OP_MUL`, `OP_DIV`, `OP_MOD`, `OP_LSHIFT` and `OP_RSHIFT`. -/
def isDisabled (opcode : UInt8) : Bool :=
  [0x7e, 0x7f, 0x80, 0x81, 0x83, 0x84, 0x85, 0x86, 0x8d, 0x8e, 0x95, 0x96, 0x97, 0x98, 0x99].contains opcode

/-- `vchTrue` or `vchFalse`. -/
def boolVch (b : Bool) : Bytes := if b then [1] else []

/-- The instructions that rearrange the stack, whose top is the head of the list. -/
def execStack : StackOp → List Bytes → Except ScriptError (List Bytes)
  | .twoDrop, _ :: _ :: st => .ok st
  | .twoDup, x2 :: x1 :: st => .ok (x2 :: x1 :: x2 :: x1 :: st)
  | .threeDup, x3 :: x2 :: x1 :: st => .ok (x3 :: x2 :: x1 :: x3 :: x2 :: x1 :: st)
  | .twoOver, x4 :: x3 :: x2 :: x1 :: st => .ok (x2 :: x1 :: x4 :: x3 :: x2 :: x1 :: st)
  | .twoRot, x6 :: x5 :: x4 :: x3 :: x2 :: x1 :: st => .ok (x2 :: x1 :: x6 :: x5 :: x4 :: x3 :: st)
  | .twoSwap, x4 :: x3 :: x2 :: x1 :: st => .ok (x2 :: x1 :: x4 :: x3 :: st)
  | .ifDup, x :: st => .ok (if castToBool x then x :: x :: st else x :: st)
  | .depth, st => .ok (serialize st.length :: st)
  | .drop, _ :: st => .ok st
  | .dup, x :: st => .ok (x :: x :: st)
  | .nip, x2 :: _ :: st => .ok (x2 :: st)
  | .over, x2 :: x1 :: st => .ok (x1 :: x2 :: x1 :: st)
  | .rot, x3 :: x2 :: x1 :: st => .ok (x1 :: x3 :: x2 :: st)
  | .swap, x2 :: x1 :: st => .ok (x1 :: x2 :: st)
  | .tuck, x2 :: x1 :: st => .ok (x2 :: x1 :: x2 :: st)
  | .size, x :: st => .ok (serialize x.length :: x :: st)
  | _, _ => .error .invalidStackOperation

def boolNum (b : Bool) : ℤ := if b then 1 else 0

def unaryNum (bn : ℤ) : UnaryOp → ℤ
  | .oneAdd => bn + 1
  | .oneSub => bn - 1
  | .negate => -bn
  | .abs => if bn < 0 then -bn else bn
  | .not => boolNum (bn = 0)
  | .zeroNotEqual => boolNum (bn ≠ 0)

def binaryNum (bn1 bn2 : ℤ) : BinaryOp → ℤ
  | .add => bn1 + bn2
  | .sub => bn1 - bn2
  | .boolAnd => boolNum (bn1 ≠ 0 ∧ bn2 ≠ 0)
  | .boolOr => boolNum (bn1 ≠ 0 ∨ bn2 ≠ 0)
  | .numEqual => boolNum (bn1 = bn2)
  | .numNotEqual => boolNum (bn1 ≠ bn2)
  | .lessThan => boolNum (bn1 < bn2)
  | .greaterThan => boolNum (bn1 > bn2)
  | .lessThanOrEqual => boolNum (bn1 ≤ bn2)
  | .greaterThanOrEqual => boolNum (bn1 ≥ bn2)
  | .min => if bn1 < bn2 then bn1 else bn2
  | .max => if bn1 > bn2 then bn1 else bn2

def hashVch (crypto : Crypto) (vch : Bytes) : HashOp → Bytes
  | .ripemd160 => crypto.ripemd160 vch
  | .sha1 => crypto.sha1 vch
  | .sha256 => (crypto.sha256 vch).bytes
  | .hash160 => crypto.hash160 vch
  | .hash256 => (crypto.hash256 vch).bytes

end Whippet.Script
