import Whippet.Ports.SigHash

/-! `deserializeTx` of the wallet library, which reads back what the node serializes, and so the wire format
determines what is written. -/
namespace Whippet.Ports
open Lib Primitives

namespace UapJs

def maxSafeInteger : ℤ := 2 ^ 53 - 1

/-- `readVarInt`: the number and the bytes after it. -/
def readVarInt : Bytes → Except String (ℕ × Bytes)
  | [] => .error "truncated transaction: varint"
  | first :: bytes =>
    if first < 0xfd then .ok (first.toNat, bytes)
    else if first = 0xfd then orFail "truncated transaction: varint (0xfd)" (readLe? 2 bytes)
    else if first = 0xfe then orFail "truncated transaction: varint (0xfe)" (readLe? 4 bytes)
    else do
      let (big, bytes) ← orFail "truncated transaction: varint (0xff)" (readLe? 8 bytes)
      failIf (big > maxSafeInteger) "varint too large to represent exactly as a JS number"
      return (big, bytes)

def readUint32LE (bytes : Bytes) : Except String (ℕ × Bytes) :=
  orFail "truncated transaction: uint32" (readLe? 4 bytes)

def asInt64 (n : ℕ) : ℤ := if n < 2 ^ 63 then n else n - 2 ^ 64

def readInt64LE (bytes : Bytes) : Except String (ℤ × Bytes) := do
  let (n, bytes) ← orFail "truncated transaction: int64" (readLe? 8 bytes)
  failIf (asInt64 n > maxSafeInteger ∨ asInt64 n < -maxSafeInteger)
    "output value cannot be represented exactly as a JS number"
  return (asInt64 n, bytes)

def readSlice (error : String) (n : ℕ) (bytes : Bytes) : Except String (Bytes × Bytes) :=
  if bytes.length < n then .error error else .ok (bytes.take n, bytes.drop n)

def readScript (error : String) (bytes : Bytes) : Except String (Bytes × Bytes) := do
  let (size, bytes) ← readVarInt bytes
  readSlice error size bytes

def readTxIn (bytes : Bytes) : Except String (TxIn × Bytes) := do
  let (txidLE, bytes) ← readSlice "truncated transaction: input txid" 32 bytes
  let (vout, bytes) ← readUint32LE bytes
  let (scriptSig, bytes) ← readScript "truncated transaction: input scriptSig" bytes
  let (sequence, bytes) ← readUint32LE bytes
  return (⟨hexEncode txidLE.reverse, vout, some scriptSig, some sequence⟩, bytes)

def readTxOut (bytes : Bytes) : Except String (PortTxOut × Bytes) := do
  let (value, bytes) ← readInt64LE bytes
  let (scriptPubKey, bytes) ← readScript "truncated transaction: output scriptPubKey" bytes
  return (⟨value, scriptPubKey⟩, bytes)

def readMany {α : Type} (read : Bytes → Except String (α × Bytes)) : ℕ → Bytes → Except String (List α × Bytes)
  | 0, bytes => .ok ([], bytes)
  | n + 1, bytes => do
    let (a, bytes) ← read bytes
    let (as, bytes) ← readMany read n bytes
    return (a :: as, bytes)

def deserializeTx (data : Bytes) : Except String Tx := do
  let (version, bytes) ← readUint32LE data
  let (vinCount, bytes) ← readVarInt bytes
  let (vin, bytes) ← readMany readTxIn vinCount bytes
  let (voutCount, bytes) ← readVarInt bytes
  let (vout, bytes) ← readMany readTxOut voutCount bytes
  let (locktime, bytes) ← readUint32LE bytes
  failIf (bytes ≠ []) ("trailing bytes after transaction: " ++ toString bytes.length ++ " unconsumed of " ++
    toString data.length)
  return ⟨some version, vin, vout, some locktime⟩

def txidFromBytes (crypto : Crypto) (data : Bytes) : List Char := hexEncode (crypto.hash256 data).bytes.reverse

def serializeTx (tx : Tx) : Except String Bytes := Ports.serializeTx errors tx.normalize

/-- The input that the node reads where the library has written this one. -/
def toTxIn (vin : PortTxIn) : Except String CTxIn := do
  let hash ← txidBytes errors vin.txid
  if h : hash.length = 32 then return ⟨⟨⟨hash, h⟩, vin.vout⟩, vin.scriptSig, vin.sequence, []⟩
  else .error (errors.txidSize hash.length)

/-- The transaction that the node reads where the library has written this one. -/
def toTransaction (tx : Tx) : Except String CTransaction := do
  let vin ← tx.normalize.vin.mapM toTxIn
  return {
    nVersion := tx.normalize.version.toInt32
    vin := vin
    vout := tx.normalize.vout.map fun out => ⟨Int64.ofInt out.value, out.scriptPubKey⟩
    nLockTime := tx.normalize.locktime }

end UapJs

variable {b : Bytes} {n : ℕ} {errors : PortErrors}

theorem encodeVarInt_eq_ok (h : encodeVarInt errors n = .ok b) :
    n < 2 ^ 32 ∧ b = writeCompactSize n := by
  have hlt : n < 2 ^ 32 := by
    by_contra hge
    rw [encodeVarInt, if_neg (by omega), if_neg (by omega), if_neg (by omega)] at h
    cases h
  rw [encodeVarInt_eq errors hlt] at h
  exact ⟨hlt, (Except.ok.inj h).symm⟩

theorem encodeInt64LE_eq (v : ℤ) : encodeInt64LE v = writeInt64 (Int64.ofInt v) := by
  have hnat : (Int64.ofInt v).toUInt64.toNat = (v % 2 ^ 64).toNat := BitVec.toNat_ofInt v
  rw [encodeInt64LE, writeInt64, hnat]

theorem txidBytes_length {txid : List Char} (h : txidBytes errors txid = .ok b) :
    b.length = 32 := by
  simp only [txidBytes, bind_eq_ok] at h
  obtain ⟨raw, -, h⟩ := h
  split_ifs at h with hlen
  rw [← Except.ok.inj h, List.length_reverse]
  exact not_not.mp hlen

theorem serializeTxIn_eq_ok {vin : PortTxIn} (hlen : vin.scriptSigLength = none)
    (h : serializeTxIn UapJs.errors vin = .ok b) : ∃ txin, UapJs.toTxIn vin = .ok txin ∧ b = txin.serialize := by
  simp only [serializeTxIn, bind_eq_ok, pure_eq_ok, hlen, Option.getD_none] at h
  obtain ⟨hash, hhash, size, hsize, rfl⟩ := h
  have h32 := txidBytes_length hhash
  obtain ⟨-, rfl⟩ := encodeVarInt_eq_ok hsize
  refine ⟨_, by rw [UapJs.toTxIn, hhash, ok_bind, dif_pos h32]; rfl, ?_⟩
  simp only [CTxIn.serialize, COutPoint.serialize, writeBytes, List.append_assoc]
  rfl

theorem serializeTxOut_eq_ok {out : PortTxOut} (h : serializeTxOut errors out = .ok b) :
    b = CTxOut.serialize ⟨Int64.ofInt out.value, out.scriptPubKey⟩ := by
  simp only [serializeTxOut, bind_eq_ok, pure_eq_ok] at h
  obtain ⟨size, hsize, rfl⟩ := h
  obtain ⟨-, rfl⟩ := encodeVarInt_eq_ok hsize
  rw [CTxOut.serialize, encodeInt64LE_eq, writeBytes, List.append_assoc]

theorem mapM_eq_ok_flatten {α β : Type} {write : α → Except String Bytes} {read : α → Except String β}
    {bytes : β → Bytes} {l : List α}
    (h : ∀ a ∈ l, ∀ b, write a = .ok b → ∃ c, read a = .ok c ∧ b = bytes c) {bs : List Bytes}
    (hwrite : l.mapM write = .ok bs) : ∃ cs, l.mapM read = .ok cs ∧ cs.length = l.length ∧ bs.flatten = cs.flatMap bytes := by
  induction l generalizing bs with
  | nil =>
    obtain rfl : [] = bs := Except.ok.inj hwrite
    exact ⟨[], rfl, rfl, rfl⟩
  | cons a l ih =>
    rw [List.forall_mem_cons] at h
    rw [List.mapM_cons, bind_eq_ok] at hwrite
    obtain ⟨b, hb, hwrite⟩ := hwrite
    rw [bind_eq_ok] at hwrite
    obtain ⟨bs', hbs', hcons⟩ := hwrite
    obtain rfl : b :: bs' = bs := Except.ok.inj hcons
    obtain ⟨c, hc, rfl⟩ := h.1 b hb
    obtain ⟨cs, hcs, hlen, hflat⟩ := ih h.2 hbs'
    refine ⟨c :: cs, ?_, by simp [hlen], by simp [hflat]⟩
    rw [List.mapM_cons, hc, hcs]
    rfl

theorem serializeTx_eq_ok {tx : UapJs.Tx} {bytes : Bytes} (h : UapJs.serializeTx tx = .ok bytes) :
    ∃ txTo, UapJs.toTransaction tx = .ok txTo ∧ bytes = txTo.serialize false := by
  simp only [UapJs.serializeTx, serializeTx, bind_eq_ok, pure_eq_ok] at h
  obtain ⟨nIns, hnIns, ins, hins, nOuts, hnOuts, outs, houts, rfl⟩ := h
  have hwriteIn : ∀ vin ∈ tx.normalize.vin, ∀ b, serializeTxIn UapJs.errors vin = .ok b →
      ∃ txin, UapJs.toTxIn vin = .ok txin ∧ b = txin.serialize := by
    intro vin hmem b
    obtain ⟨vin', -, rfl⟩ := List.mem_map.mp hmem
    exact serializeTxIn_eq_ok rfl
  have hwriteOut : ∀ out ∈ tx.normalize.vout, ∀ b, serializeTxOut UapJs.errors out = .ok b →
      ∃ c, (Except.ok ⟨Int64.ofInt out.value, out.scriptPubKey⟩ : Except String CTxOut) = .ok c ∧ b = c.serialize :=
    fun out _ b hb => ⟨_, rfl, serializeTxOut_eq_ok hb⟩
  obtain ⟨vin, hvin, hvinLen, hinsEq⟩ := mapM_eq_ok_flatten hwriteIn hins
  obtain ⟨vout, hvout, hvoutLen, houtsEq⟩ := mapM_eq_ok_flatten hwriteOut houts
  rw [mapM_ok fun out _ => rfl] at hvout
  obtain rfl := Except.ok.inj hvout
  obtain ⟨-, rfl⟩ := encodeVarInt_eq_ok hnIns
  obtain ⟨-, rfl⟩ := encodeVarInt_eq_ok hnOuts
  refine ⟨_, by rw [UapJs.toTransaction, hvin, ok_bind]; rfl, ?_⟩
  have hversion : writeInt32 tx.normalize.version.toInt32 = encodeUint32LE tx.normalize.version := by
    simp [writeInt32, encodeUint32LE]
  simp only [CTransaction.serialize, Bool.false_and, Bool.false_eq_true, if_false, writeVector, hvinLen, hvoutLen,
    hinsEq, houtsEq, hversion, List.append_assoc]
  rfl

theorem readVarInt_writeCompactSize (h : n < 2 ^ 53) (rest : Bytes) :
    UapJs.readVarInt (writeCompactSize n ++ rest) = .ok (n, rest) := by
  unfold writeCompactSize
  split_ifs with h1 h2 h3
  · have hn : (UInt8.ofNat n).toNat = n := by simp; omega
    have hlt : UInt8.ofNat n < 0xfd := by
      rw [UInt8.lt_iff_toNat_lt, hn]
      exact h1
    rw [List.singleton_append, UapJs.readVarInt, if_pos hlt, hn]
  · have hread := readLe?_append (w := 2) (n := n) rest (by omega)
    rw [List.cons_append, UapJs.readVarInt, if_neg (by decide), if_pos rfl, hread]
    rfl
  · have hread := readLe?_append (w := 4) (n := n) rest (by omega)
    rw [List.cons_append, UapJs.readVarInt, if_neg (by decide), if_neg (by decide), if_pos rfl, hread]
    rfl
  · have hread := readLe?_append (w := 8) (n := n) rest (by omega)
    have hsafe : ¬ (n : ℤ) > UapJs.maxSafeInteger := by
      unfold UapJs.maxSafeInteger
      omega
    rw [List.cons_append, UapJs.readVarInt, if_neg (by decide), if_neg (by decide), if_neg (by decide), hread]
    simp only [orFail, ok_bind, failIf_neg hsafe]
    rfl

theorem writeCompactSize_append_inj {m : ℕ} {x y : Bytes} (hm : m < 2 ^ 53) (hn : n < 2 ^ 53)
    (h : writeCompactSize m ++ x = writeCompactSize n ++ y) : m = n ∧ x = y := by
  have hread := readVarInt_writeCompactSize hm x
  rw [h, readVarInt_writeCompactSize hn y] at hread
  obtain ⟨rfl, rfl⟩ := Prod.mk.inj (Except.ok.inj hread)
  exact ⟨rfl, rfl⟩

theorem writeBytes_append_inj {a x y : Bytes} (ha : a.length < 2 ^ 53) (hb : b.length < 2 ^ 53)
    (h : writeBytes a ++ x = writeBytes b ++ y) : a = b ∧ x = y := by
  simp only [writeBytes, List.append_assoc] at h
  obtain ⟨hlen, hrest⟩ := writeCompactSize_append_inj ha hb h
  exact List.append_inj hrest hlen

theorem readUint32LE_append (n : UInt32) (rest : Bytes) :
    UapJs.readUint32LE (writeUInt32 n ++ rest) = .ok (n.toNat, rest) := by
  rw [UapJs.readUint32LE, writeUInt32, readLe?_append rest n.toNat_lt]
  rfl

theorem readSlice_append {error : String} (h : b.length = n) (rest : Bytes) :
    UapJs.readSlice error n (b ++ rest) = .ok (b, rest) := by
  subst h
  simp [UapJs.readSlice]

theorem readScript_writeBytes {error : String} (h : b.length < 2 ^ 53) (rest : Bytes) :
    UapJs.readScript error (writeBytes b ++ rest) = .ok (b, rest) := by
  rw [UapJs.readScript, writeBytes, List.append_assoc, readVarInt_writeCompactSize h, ok_bind]
  exact readSlice_append rfl rest

theorem asInt64_toNat (v : Int64) : UapJs.asInt64 v.toUInt64.toNat = v.toInt := by
  have hlt := v.toUInt64.toNat_lt
  have hbits : v.toInt = (v.toUInt64.toNat : ℤ).bmod (2 ^ 64) := by
    rw [← Int64.toInt_toBitVec, BitVec.toInt_eq_toNat_bmod]
    rfl
  rw [hbits, Int.bmod_def, UapJs.asInt64]
  split_ifs <;> omega

variable {rest : Bytes}

/-- An amount is read back, unless it is refused because a double does not hold it. -/
theorem readInt64LE_append {v : Int64} {r : ℤ × Bytes}
    (h : UapJs.readInt64LE (writeInt64 v ++ rest) = .ok r) : r = (v.toInt, rest) := by
  rw [UapJs.readInt64LE, writeInt64, readLe?_append rest v.toUInt64.toNat_lt] at h
  simp only [orFail, ok_bind, bind_eq_ok, pure_eq_ok, asInt64_toNat] at h
  obtain ⟨_, _, rfl⟩ := h
  rfl

theorem readMany_flatMap {α β : Type} {read : Bytes → Except String (β × Bytes)} {write : α → Bytes} {f : α → β}
    {l : List α} (hread : ∀ a ∈ l, ∀ rest r, read (write a ++ rest) = .ok r → r = (f a, rest))
    {r : List β × Bytes} (h : UapJs.readMany read l.length (l.flatMap write ++ rest) = .ok r) :
    r = (l.map f, rest) := by
  induction l generalizing r with
  | nil => exact (Except.ok.inj h).symm
  | cons a l ih =>
    rw [List.forall_mem_cons] at hread
    simp only [List.length_cons, UapJs.readMany, List.flatMap_cons, List.append_assoc, bind_eq_ok, pure_eq_ok] at h
    obtain ⟨r₁, h₁, r₂, h₂, rfl⟩ := h
    obtain rfl := hread.1 _ r₁ h₁
    obtain rfl := ih hread.2 h₂
    rfl

theorem readTxIn_serialize {txin : CTxIn} (h : txin.scriptSig.length < 2 ^ 32) (rest : Bytes) :
    UapJs.readTxIn (txin.serialize ++ rest) =
      .ok (⟨displayHash txin.prevout.hash, txin.prevout.n.toNat, some txin.scriptSig, some txin.nSequence.toNat⟩, rest) := by
  simp only [UapJs.readTxIn, CTxIn.serialize, COutPoint.serialize, List.append_assoc,
    readSlice_append txin.prevout.hash.size_eq, ok_bind, readUint32LE_append,
    readScript_writeBytes (show txin.scriptSig.length < 2 ^ 53 by omega)]
  rfl

theorem readTxOut_serialize {out : CTxOut} (h : out.scriptPubKey.length < 2 ^ 32)
    {r : PortTxOut × Bytes} (hread : UapJs.readTxOut (out.serialize ++ rest) = .ok r) :
    r = (⟨out.nValue.toInt, out.scriptPubKey⟩, rest) := by
  simp only [UapJs.readTxOut, CTxOut.serialize, List.append_assoc, bind_eq_ok, pure_eq_ok] at hread
  obtain ⟨r₁, h₁, r₂, h₂, rfl⟩ := hread
  obtain rfl := readInt64LE_append h₁
  rw [readScript_writeBytes (by omega)] at h₂
  obtain rfl := Except.ok.inj h₂
  rfl

/-- Sizes as the node's types have them: a script counts its bytes in 32 bits, and a transaction has fewer
inputs and outputs than that. -/
structure Sized (tx : CTransaction) : Prop where
  vin_lt : tx.vin.length < 2 ^ 32
  vout_lt : tx.vout.length < 2 ^ 32
  scriptSig_lt : ∀ txin ∈ tx.vin, txin.scriptSig.length < 2 ^ 32
  scriptPubKey_lt : ∀ out ∈ tx.vout, out.scriptPubKey.length < 2 ^ 32

theorem deserializeTx_serialize {tx : CTransaction} (hsized : Sized tx) {parsed : UapJs.Tx}
    (h : UapJs.deserializeTx (tx.serialize false) = .ok parsed) :
    parsed = {
      version := some (tx.nVersion.toUInt32.toNat : ℤ)
      vin := tx.vin.map fun txin =>
        ⟨displayHash txin.prevout.hash, txin.prevout.n.toNat, some txin.scriptSig, some txin.nSequence.toNat⟩
      vout := tx.vout.map fun out => ⟨out.nValue.toInt, out.scriptPubKey⟩
      locktime := some tx.nLockTime.toNat } := by
  have hversion : writeInt32 tx.nVersion = writeUInt32 tx.nVersion.toUInt32 := rfl
  have hvin := hsized.vin_lt
  have hvout := hsized.vout_lt
  simp only [UapJs.deserializeTx, CTransaction.serialize, Bool.false_and, Bool.false_eq_true, if_false, hversion,
    writeVector, List.append_assoc, readUint32LE_append, ok_bind,
    readVarInt_writeCompactSize (show tx.vin.length < 2 ^ 53 by omega), bind_eq_ok] at h
  obtain ⟨ins, hins, h⟩ := h
  obtain rfl := readMany_flatMap (fun txin htxin rest r hr =>
    (Except.ok.inj ((readTxIn_serialize (hsized.scriptSig_lt txin htxin) rest).symm.trans hr)).symm) hins
  simp only [readVarInt_writeCompactSize (show tx.vout.length < 2 ^ 53 by omega), Except.ok.injEq, exists_eq_left'] at h
  obtain ⟨outs, houts, h⟩ := h
  obtain rfl := readMany_flatMap (fun out hout rest r => readTxOut_serialize (hsized.scriptPubKey_lt out hout)) houts
  have hlock := readUint32LE_append tx.nLockTime []
  rw [List.append_nil] at hlock
  simp only [hlock, Except.ok.injEq, exists_eq_left', failIf_eq_ok, pure_eq_ok] at h
  obtain ⟨_, _, rfl⟩ := h
  rfl

end Whippet.Ports
