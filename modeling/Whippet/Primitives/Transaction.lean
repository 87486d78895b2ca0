import Whippet.Lib.Sha256

/-! Transactions and their wire format. Amounts, versions and indices have the machine types of the node. -/
namespace Whippet.Primitives
open Lib

def coin : ℤ := 100000000

def maxMoney : ℤ := 10000000000 * coin

def moneyRange (nValue : ℤ) : Bool := 0 ≤ nValue ∧ nValue ≤ maxMoney

/-- A `uint256` blob in internal byte order. -/
structure Uint256 where
  bytes : Bytes
  size_eq : bytes.length = 32
  deriving DecidableEq, Repr

def Uint256.zero : Uint256 := ⟨List.replicate 32 0, rfl⟩

def Uint256.ofByte (b : UInt8) : Uint256 := ⟨List.replicate 32 b, List.length_replicate⟩

def Uint256.one : Uint256 := ⟨1 :: List.replicate 31 0, rfl⟩

@[ext] structure COutPoint where
  hash : Uint256
  n : UInt32
  deriving DecidableEq, Repr

def COutPoint.isNull (p : COutPoint) : Bool := p.hash == Uint256.zero && p.n == 0xffffffff

structure CTxIn where
  prevout : COutPoint
  scriptSig : Bytes
  nSequence : UInt32
  scriptWitness : List Bytes
  deriving DecidableEq, Repr

def CTxIn.sequenceFinal : UInt32 := 0xffffffff

structure CTxOut where
  nValue : Int64
  scriptPubKey : Bytes
  deriving DecidableEq, Repr

def CTxOut.null : CTxOut := ⟨-1, []⟩

def CTxOut.isNull (out : CTxOut) : Bool := out.nValue == -1

structure CTransaction where
  nVersion : Int32
  vin : List CTxIn
  vout : List CTxOut
  nLockTime : UInt32
  deriving DecidableEq, Repr

def CTransaction.isCoinBase (tx : CTransaction) : Bool :=
  match tx.vin with
  | [txin] => txin.prevout.isNull
  | _ => false

def writeCompactSize (size : ℕ) : Bytes :=
  if size < 253 then [UInt8.ofNat size]
  else if size ≤ 0xffff then 253 :: leBytes 2 size
  else if size ≤ 0xffffffff then 254 :: leBytes 4 size
  else 255 :: leBytes 8 size

def writeUInt32 (n : UInt32) : Bytes := leBytes 4 n.toNat

def writeInt32 (n : Int32) : Bytes := leBytes 4 n.toUInt32.toNat

def writeInt64 (n : Int64) : Bytes := leBytes 8 n.toUInt64.toNat

def writeBytes (b : Bytes) : Bytes := writeCompactSize b.length ++ b

def writeVector {α : Type} (write : α → Bytes) (v : List α) : Bytes :=
  writeCompactSize v.length ++ v.flatMap write

def COutPoint.serialize (p : COutPoint) : Bytes := p.hash.bytes ++ writeUInt32 p.n

def CTxIn.serialize (txin : CTxIn) : Bytes :=
  txin.prevout.serialize ++ writeBytes txin.scriptSig ++ writeUInt32 txin.nSequence

def CTxOut.serialize (out : CTxOut) : Bytes := writeInt64 out.nValue ++ writeBytes out.scriptPubKey

def CTransaction.hasWitness (tx : CTransaction) : Bool := tx.vin.any fun txin => !txin.scriptWitness.isEmpty

/-- `SerializeTransaction`, in the extended format when witnesses are allowed and present. -/
def CTransaction.serialize (tx : CTransaction) (allowWitness : Bool) : Bytes :=
  if allowWitness && tx.hasWitness then
    writeInt32 tx.nVersion ++ writeCompactSize 0 ++ [1] ++ writeVector CTxIn.serialize tx.vin ++
      writeVector CTxOut.serialize tx.vout ++
      tx.vin.flatMap (fun txin => writeVector writeBytes txin.scriptWitness) ++ writeUInt32 tx.nLockTime
  else
    writeInt32 tx.nVersion ++ writeVector CTxIn.serialize tx.vin ++ writeVector CTxOut.serialize tx.vout ++
      writeUInt32 tx.nLockTime

/-- The hash functions and the elliptic curve the node links against. -/
structure Crypto where
  sha256 : Bytes → Uint256
  ripemd160 : Bytes → Bytes
  sha1 : Bytes → Bytes
  /-- `CPubKey::Verify` on a key of valid size, a hash and a DER signature without its hash type. -/
  verify : Bytes → Uint256 → Bytes → Bool
  /-- `CPubKey::CheckLowS` on a DER signature without its hash type. -/
  checkLowS : Bytes → Bool

def Crypto.hash256 (crypto : Crypto) (b : Bytes) : Uint256 := crypto.sha256 (crypto.sha256 b).bytes

def Crypto.hash160 (crypto : Crypto) (b : Bytes) : Bytes := crypto.ripemd160 (crypto.sha256 b).bytes

/-- `CTransaction::GetHash`, the txid. -/
def Crypto.txid (crypto : Crypto) (tx : CTransaction) : Uint256 := crypto.hash256 (tx.serialize false)

/-- The node's cryptography as far as one run uses it: SHA-256, and the signatures that verify in the run,
each with its key and the hash it signs. The run hashes with nothing else. -/
def Crypto.recorded (signatures : List (Bytes × Bytes × Bytes)) : Crypto where
  sha256 b := ⟨Sha256.hash b, Sha256.hash_length b⟩
  ripemd160 _ := List.replicate 20 0
  sha1 _ := List.replicate 20 0
  verify pubkey hash sig := (pubkey, hash.bytes, sig) ∈ signatures
  checkLowS sig := signatures.any fun r => r.2.2 = sig

end Whippet.Primitives
