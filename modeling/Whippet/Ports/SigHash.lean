import Whippet.Lib.Checked
import Whippet.Lib.Double
import Whippet.Lib.Hex
import Whippet.Script.SigHash

/-! `signatureHash` of the wallet library and `SignatureHash` of the Go package. Both rebuild the
transaction that is signed and reserialize it; they differ in the types of the fields and the error texts. -/
namespace Whippet.Ports
open Lib Primitives

/-- A step of the opcode walk. A failed step still says how far the walk got. -/
structure Step where
  ok : Bool
  pos : ℕ
  opcode : Option UInt8
  deriving DecidableEq, Repr

/-- The size of the push at `pc` and the position after its length bytes. -/
def nextSize? (script : Bytes) (opcode : UInt8) (pc : ℕ) : Option (ℕ × ℕ) :=
  if opcode = 0x4c then (readLe? 1 (script.drop pc)).map fun r => (r.1, pc + 1)
  else if opcode = 0x4d then (readLe? 2 (script.drop pc)).map fun r => (r.1, pc + 2)
  else if opcode = 0x4e then (readLe? 4 (script.drop pc)).map fun r => (r.1, pc + 4)
  else some (opcode.toNat, pc)

def nextOp (script : Bytes) (pc : ℕ) : Step :=
  match script[pc]? with
  | none => ⟨false, pc, none⟩
  | some opcode =>
    if opcode ≤ 0x4e then
      match nextSize? script opcode (pc + 1) with
      | none => ⟨false, pc + 1, some opcode⟩
      | some (size, pc) =>
        if script.length - pc < size then ⟨false, pc, some opcode⟩ else ⟨true, pc + size, some opcode⟩
    else ⟨true, pc + 1, some opcode⟩

def slice (script : Bytes) (start stop : ℕ) : Bytes := (script.drop start).take (stop - start)

/-- The loop of `serializeScriptCode`, with the runs written so far and the separators dropped so far. -/
def scriptCodeLoop (script : Bytes) : ℕ → ℕ → ℕ → Bytes → ℕ → Bytes × ℕ
  | 0, _, _, runs, separators => (runs, separators)
  | fuel + 1, pc, start, runs, separators =>
    let step := nextOp script pc
    if !step.ok then
      (if start ≠ script.length then runs ++ slice script start step.pos else runs, separators)
    else if step.opcode = some 0xab then
      scriptCodeLoop script fuel step.pos step.pos (runs ++ slice script start (step.pos - 1)) (separators + 1)
    else scriptCodeLoop script fuel step.pos start runs separators

/-- `serializeScriptCode`: the bytes and the declared length. -/
def serializeScriptCode (scriptCode : Bytes) : Bytes × ℕ :=
  let r := scriptCodeLoop scriptCode (scriptCode.length + 1) 0 0 [] 0
  (r.1, scriptCode.length - r.2)

structure PortTxIn where
  txid : List Char
  vout : UInt32
  scriptSig : Bytes
  scriptSigLength : Option ℕ
  sequence : UInt32
  deriving DecidableEq, Repr

structure PortTxOut where
  value : ℤ
  scriptPubKey : Bytes
  deriving DecidableEq, Repr

/-- A transaction of the ports, with the txids in display order. -/
structure PortTx where
  version : UInt32
  vin : List PortTxIn
  vout : List PortTxOut
  locktime : UInt32
  deriving DecidableEq, Repr

/-- How a port reads hexadecimal text, and the texts it throws or panics with. -/
structure PortErrors where
  varint : String
  hexToBytes : List Char → Except String Bytes
  hexToBytes_hexEncode : ∀ b, hexToBytes (hexEncode b) = .ok b
  txidSize : ℕ → String

section
variable (errors : PortErrors)

def encodeVarInt (n : ℕ) : Except String Bytes :=
  if n < 0xfd then .ok [UInt8.ofNat n]
  else if n ≤ 0xffff then .ok (0xfd :: leBytes 2 n)
  else if n ≤ 0xffffffff then .ok (0xfe :: leBytes 4 n)
  else .error errors.varint

def encodeUint32LE (n : UInt32) : Bytes := leBytes 4 n.toNat

def encodeInt64LE (n : ℤ) : Bytes := leBytes 8 (n % 2 ^ 64).toNat

def txidBytes (txid : List Char) : Except String Bytes := do
  let b ← errors.hexToBytes txid
  if b.length ≠ 32 then .error (errors.txidSize b.length) else .ok b.reverse

def serializeTxIn (vin : PortTxIn) : Except String Bytes := do
  let txid ← txidBytes errors vin.txid
  let size ← encodeVarInt errors (vin.scriptSigLength.getD vin.scriptSig.length)
  return txid ++ encodeUint32LE vin.vout ++ size ++ vin.scriptSig ++ encodeUint32LE vin.sequence

def serializeTxOut (vout : PortTxOut) : Except String Bytes := do
  let size ← encodeVarInt errors vout.scriptPubKey.length
  return encodeInt64LE vout.value ++ size ++ vout.scriptPubKey

def serializeTx (tx : PortTx) : Except String Bytes := do
  let nIns ← encodeVarInt errors tx.vin.length
  let ins ← tx.vin.mapM (serializeTxIn errors)
  let nOuts ← encodeVarInt errors tx.vout.length
  let outs ← tx.vout.mapM (serializeTxOut errors)
  return encodeUint32LE tx.version ++ nIns ++ ins.flatten ++ nOuts ++ outs.flatten ++
    encodeUint32LE tx.locktime

def signedInputs (signed : Bytes × ℕ) (tx : PortTx) (nIn : ℕ) (hashType : UInt32) : List PortTxIn :=
  let inputIndices := if hashType &&& 0x80 != 0 then [nIn] else List.range tx.vin.length
  inputIndices.filterMap fun i => tx.vin[i]?.map fun vin =>
    let zeroSequence := i ≠ nIn ∧ (hashType &&& 0x1f = 3 ∨ hashType &&& 0x1f = 2)
    { txid := vin.txid
      vout := vin.vout
      scriptSig := if i = nIn then signed.1 else []
      scriptSigLength := if i = nIn then some signed.2 else none
      sequence := if zeroSequence then 0 else vin.sequence }

def signedOutputs (tx : PortTx) (nIn : ℕ) (hashType : UInt32) : List PortTxOut :=
  if hashType &&& 0x1f = 2 then []
  else if hashType &&& 0x1f = 3 then List.replicate nIn ⟨-1, []⟩ ++ tx.vout[nIn]?.toList
  else tx.vout

/-- What a port's signature hash hashes; `none` where it returns the degenerate hash. -/
def signaturePreimage (scriptCode : Bytes) (tx : PortTx) (nIn : ℕ) (hashType : UInt32) :
    Except String (Option Bytes) :=
  if nIn ≥ tx.vin.length then .ok none
  else if hashType &&& 0x1f = 3 ∧ nIn ≥ tx.vout.length then .ok none
  else do
    let signed := serializeScriptCode scriptCode
    let tx' : PortTx :=
      { version := tx.version
        vin := signedInputs signed tx nIn hashType
        vout := signedOutputs tx nIn hashType
        locktime := tx.locktime }
    let bytes ← serializeTx errors tx'
    return some (bytes ++ encodeUint32LE hashType)

end

/-- The JavaScript transaction object. A missing field takes the default of `serializeTx`. -/
structure UapJs.TxIn where
  txid : List Char
  vout : ℤ
  scriptSig : Option Bytes
  sequence : Option ℤ
  deriving DecidableEq, Repr

structure UapJs.Tx where
  version : Option ℤ
  vin : List UapJs.TxIn
  vout : List PortTxOut
  locktime : Option ℤ
  deriving DecidableEq, Repr

/-- The 32 bits the byte expressions of `encodeUint32LE` see of a number. -/
def UapJs.toUint32 (n : ℤ) : UInt32 := UInt32.ofNat (n % 2 ^ 32).toNat

def UapJs.Tx.normalize (tx : UapJs.Tx) : PortTx where
  version := if tx.version.getD 0 = 0 then 1 else UapJs.toUint32 (tx.version.getD 0)
  vin := tx.vin.map fun vin =>
    { txid := vin.txid
      vout := UapJs.toUint32 vin.vout
      scriptSig := vin.scriptSig.getD []
      scriptSigLength := none
      sequence := UapJs.toUint32 (vin.sequence.getD 0xffffffff) }
  vout := tx.vout
  locktime := UapJs.toUint32 (tx.locktime.getD 0)

def UapJs.isWhitespace (c : Char) : Bool :=
  c.toNat ∈ [0x20, 0xa0, 0x1680, 0x2028, 0x2029, 0x202f, 0x205f, 0x3000, 0xfeff] ∨ (0x09 ≤ c.toNat ∧ c.toNat ≤ 0x0d) ∨
    (0x2000 ≤ c.toNat ∧ c.toNat ≤ 0x200a)

/-- The byte that `parseInt` of two characters is stored as. What is not a number is stored as zero. -/
def UapJs.parseByte (c d : Char) : UInt8 :=
  match hexValue? c, hexValue? d with
  | some hi, some lo => UInt8.ofNat (16 * hi + lo)
  | some hi, none => UInt8.ofNat hi
  | none, some lo =>
    if UapJs.isWhitespace c ∨ c = '+' then UInt8.ofNat lo else if c = '-' then -UInt8.ofNat lo else 0
  | none, none => 0

/-- `hexToBytes`, which only refuses an odd number of characters. -/
def UapJs.hexToBytes : List Char → Except String Bytes
  | [] => .ok []
  | [_] => .error "invalid hex string"
  | c :: d :: cs => do
    let bs ← UapJs.hexToBytes cs
    return UapJs.parseByte c d :: bs

theorem UapJs.hexToBytes_hexEncode (b : Bytes) : UapJs.hexToBytes (hexEncode b) = .ok b := by
  induction b with
  | nil => rfl
  | cons x b ih =>
    have hx := x.toNat_lt
    have hhi := hexValue?_hexChar (n := x.toNat / 16) (by omega)
    have hlo := hexValue?_hexChar (n := x.toNat % 16) (by omega)
    have hbyte : UapJs.parseByte (hexChar (x.toNat / 16)) (hexChar (x.toNat % 16)) = x := by
      rw [UapJs.parseByte, hhi, hlo]
      dsimp only
      rw [Nat.div_add_mod]
      simp
    rw [hexEncode, UapJs.hexToBytes, ih, hbyte]
    rfl

def UapJs.errors : PortErrors where
  varint := "varint too large for this helper"
  hexToBytes := UapJs.hexToBytes
  hexToBytes_hexEncode := UapJs.hexToBytes_hexEncode
  txidSize n := "txid must be exactly 32 bytes, got " ++ toString n

/-- `signatureHash` of the wallet library, up to the final double hash. -/
def UapJs.signaturePreimage (scriptCode : Bytes) (tx : UapJs.Tx) (nIn : ℕ) (hashType : UInt32) :
    Except String (Option Bytes) :=
  Ports.signaturePreimage UapJs.errors scriptCode tx.normalize nIn hashType

def Uaptx.errors : PortErrors where
  varint := "uaptx: varint too large for this helper"
  hexToBytes txid := orFail "uaptx: invalid txid hex" (hexDecode? txid)
  hexToBytes_hexEncode b := by rw [hexDecode?_hexEncode]; rfl
  txidSize n := "uaptx: txid is " ++ toString n ++ " bytes, must be 32"

/-- `SignatureHash` of the Go package, up to the final double hash. A version of zero stands for one. -/
def Uaptx.signaturePreimage (scriptCode : Bytes) (tx : PortTx) (nIn : ℕ) (hashType : UInt32) :
    Except String (Option Bytes) :=
  Ports.signaturePreimage Uaptx.errors scriptCode
    { tx with version := if tx.version = 0 then 1 else tx.version } nIn hashType

def degenerateHash : Uint256 := ⟨[1] ++ List.replicate 31 0, rfl⟩

def finishHash (crypto : Crypto) : Option Bytes → Uint256
  | none => degenerateHash
  | some preimage => crypto.hash256 preimage

def UapJs.signatureHash (crypto : Crypto) (scriptCode : Bytes) (tx : UapJs.Tx) (nIn : ℕ) (hashType : UInt32) :
    Except String Uint256 :=
  (UapJs.signaturePreimage scriptCode tx nIn hashType).map (finishHash crypto)

def Uaptx.signatureHash (crypto : Crypto) (scriptCode : Bytes) (tx : PortTx) (nIn : ℕ) (hashType : UInt32) :
    Except String Uint256 :=
  (Uaptx.signaturePreimage scriptCode tx nIn hashType).map (finishHash crypto)

def displayHash (hash : Uint256) : List Char := hexEncode hash.bytes.reverse

def UapJs.ofTransaction (tx : CTransaction) : UapJs.Tx where
  version := some tx.nVersion.toInt
  vin := tx.vin.map fun txin =>
    { txid := displayHash txin.prevout.hash
      vout := txin.prevout.n.toNat
      scriptSig := some txin.scriptSig
      sequence := some txin.nSequence.toNat }
  vout := tx.vout.map fun out => ⟨intToDouble out.nValue.toInt, out.scriptPubKey⟩
  locktime := some tx.nLockTime.toNat

def Uaptx.ofTransaction (tx : CTransaction) : PortTx where
  version := tx.nVersion.toUInt32
  vin := tx.vin.map fun txin =>
    { txid := displayHash txin.prevout.hash
      vout := txin.prevout.n
      scriptSig := txin.scriptSig
      scriptSigLength := none
      sequence := txin.nSequence }
  vout := tx.vout.map fun out => ⟨out.nValue.toInt, out.scriptPubKey⟩
  locktime := tx.nLockTime

theorem mapM_ok {α β : Type} {f : α → Except String β} {g : α → β} {l : List α}
    (h : ∀ a ∈ l, f a = .ok (g a)) : l.mapM f = .ok (l.map g) := by
  induction l with
  | nil => rfl
  | cons a l ih =>
    have hl := ih fun b hb => h b (List.mem_cons_of_mem a hb)
    rw [List.mapM_cons, h a List.mem_cons_self, hl]
    rfl

theorem encodeVarInt_eq (errors : PortErrors) {n : ℕ} (h : n < 2 ^ 32) :
    encodeVarInt errors n = .ok (writeCompactSize n) := by
  unfold encodeVarInt writeCompactSize
  split_ifs
  · rfl
  · rfl
  · rfl
  · omega

theorem encodeInt64LE_toInt (v : Int64) : encodeInt64LE v.toInt = writeInt64 v := by
  have hmod : v.toInt % 2 ^ 64 = v.toUInt64.toNat := by
    have hlt := v.toUInt64.toNat_lt
    have hbits : v.toInt = (v.toUInt64.toNat : ℤ).bmod (2 ^ 64) := by
      rw [← Int64.toInt_toBitVec, BitVec.toInt_eq_toNat_bmod]
      rfl
    rw [hbits, Int.bmod_def]
    split_ifs <;> omega
  rw [encodeInt64LE, hmod, writeInt64, Int.toNat_natCast]

theorem toUint32_natCast (n : UInt32) : UapJs.toUint32 (n.toNat : ℤ) = n := by
  have hlt := n.toNat_lt
  have hmod : ((n.toNat : ℤ) % 2 ^ 32).toNat = n.toNat := by omega
  rw [UapJs.toUint32, hmod]
  simp

theorem toUint32_toInt (n : Int32) : UapJs.toUint32 n.toInt = n.toUInt32 := by
  have hlt := n.toUInt32.toNat_lt
  have hbits : n.toInt = (n.toUInt32.toNat : ℤ).bmod (2 ^ 32) := by
    rw [← Int32.toInt_toBitVec, BitVec.toInt_eq_toNat_bmod]
    rfl
  have hmod : (n.toInt % 2 ^ 32).toNat = n.toUInt32.toNat := by
    rw [hbits, Int.bmod_def]
    split_ifs <;> omega
  rw [UapJs.toUint32, hmod]
  simp

theorem txidBytes_displayHash (errors : PortErrors) (hash : Uint256) :
    txidBytes errors (displayHash hash) = .ok hash.bytes := by
  have hlen : ¬ hash.bytes.reverse.length ≠ 32 := by simp [hash.size_eq]
  rw [txidBytes, displayHash, errors.hexToBytes_hexEncode, ok_bind, if_neg hlen, List.reverse_reverse]

theorem readLe?_map_pos {script : Bytes} {pc w : ℕ} (h : pc ≤ script.length) :
    (readLe? w (script.drop pc)).map (fun r => (r.1, pc + w)) =
      (readLe? w (script.drop pc)).map fun r => (r.1, script.length - r.2.length) := by
  unfold readLe?
  split_ifs with hlen
  · rfl
  · simp only [List.length_drop] at hlen
    have hpos : script.length - (script.length - (pc + w)) = pc + w := by omega
    simp only [Option.map_some, List.drop_drop, List.length_drop, hpos]

theorem nextSize?_eq {script : Bytes} {opcode : UInt8} {pc : ℕ} (hop : opcode ≤ Script.opPushData4)
    (h : pc ≤ script.length) :
    nextSize? script opcode pc =
      (Script.readPushSize? opcode (script.drop pc)).map fun r => (r.1, script.length - r.2.length) := by
  rcases Script.push_cases hop with h1 | rfl | rfl | rfl
  · have hpos : script.length - (script.length - pc) = pc := by omega
    rw [nextSize?, Script.readPushSize?, if_pos h1, if_neg (Script.ne_of_lt_opPushData1 h1 (by decide)),
      if_neg (Script.ne_of_lt_opPushData1 h1 (by decide)), if_neg (Script.ne_of_lt_opPushData1 h1 (by decide)),
      Option.map_some, List.length_drop, hpos]
  all_goals exact readLe?_map_pos h

theorem nextOp_spec {script : Bytes} {pc : ℕ} (h : pc ≤ script.length) :
    (∃ op pos, Script.getOp (script.drop pc) = .ok op ∧ nextOp script pc = ⟨true, pos, some op.opcode⟩ ∧
      op.rest = script.drop pos ∧ pc < pos ∧ pos ≤ script.length) ∨
    (∃ pos opcode, Script.getOp (script.drop pc) = .error (script.drop pos) ∧
      nextOp script pc = ⟨false, pos, opcode⟩ ∧ pc ≤ pos ∧ pos ≤ script.length) := by
  by_cases hend : pc = script.length
  · refine Or.inr ⟨pc, none, ?_, ?_, le_rfl, h⟩
    · simp [hend, Script.getOp]
    · simp [nextOp, hend]
  have hlt : pc < script.length := by omega
  have hget : script[pc]? = some script[pc] := List.getElem?_eq_getElem hlt
  rw [List.drop_eq_getElem_cons hlt]
  by_cases hop : script[pc] ≤ Script.opPushData4
  · have hop' : script[pc] ≤ 0x4e := hop
    simp only [nextOp, hget, if_pos hop', nextSize?_eq hop (show pc + 1 ≤ script.length by omega)]
    rw [Script.getOp, if_pos hop]
    cases hsize : Script.readPushSize? script[pc] (script.drop (pc + 1)) with
    | none =>
      exact Or.inr ⟨pc + 1, some script[pc], rfl, rfl, by omega, by omega⟩
    | some r =>
      obtain ⟨size, tail⟩ := r
      obtain ⟨used, htail⟩ := Script.readPushSize?_suffix hsize
      have hlen := congrArg List.length htail
      simp only [List.length_append, List.length_drop] at hlen
      have hpos : script.length - tail.length = pc + 1 + used.length := by omega
      have hdrop : tail = script.drop (pc + 1 + used.length) := by
        rw [← List.drop_drop, htail, List.drop_left]
      simp only [Option.map_some, hpos]
      have hleft : script.length - (pc + 1 + used.length) = tail.length := by omega
      rw [hleft]
      split_ifs with hshort
      · exact Or.inr ⟨_, _, by rw [← hdrop], rfl, by omega, by omega⟩
      · refine Or.inl ⟨_, _, rfl, rfl, ?_, by omega, by omega⟩
        rw [← List.drop_drop, ← hdrop]
  · have hop' : ¬ script[pc] ≤ 0x4e := hop
    refine Or.inl ⟨_, pc + 1, Script.getOp_of_gt _ hop, ?_, rfl, by omega, by omega⟩
    simp [nextOp, hget, hop']

/-- The one loop of the ports computes what the two walks of the node compute. -/
theorem scriptCodeLoop_eq (script : Bytes) (fuel pc start : ℕ) (runs : Bytes) (separators : ℕ)
    (hstart : start ≤ pc) (hpc : pc ≤ script.length) :
    scriptCodeLoop script fuel pc start runs separators =
      (runs ++ Script.writeScriptCode fuel (script.drop start) (script.drop pc),
        separators + Script.countCodeSeparators fuel (script.drop pc)) := by
  induction fuel generalizing pc start runs separators with
  | zero => simp [scriptCodeLoop, Script.writeScriptCode, Script.countCodeSeparators]
  | succ fuel ih =>
    simp only [scriptCodeLoop, Script.writeScriptCode, Script.countCodeSeparators]
    rcases nextOp_spec hpc with ⟨op, pos, hop, hnext, hrest, hlt, hpos⟩ | ⟨pos, opcode, hop, hnext, hle, hpos⟩
    · rw [hop, hnext]
      simp only [Bool.not_true, Bool.false_eq_true, if_false, Option.some.injEq, hrest]
      by_cases hcode : op.opcode = Script.opCodeSeparator
      · have hcode' : op.opcode = 0xab := hcode
        have hrun : slice script start (pos - 1) =
            (script.drop start).take ((script.drop start).length - (script.drop pos).length - 1) := by
          rw [slice, List.length_drop, List.length_drop]
          congr 1
          omega
        rw [if_pos hcode', if_pos hcode, if_pos hcode, ih _ _ _ _ le_rfl hpos, hrun, List.append_assoc,
          Nat.add_assoc]
      · have hcode' : ¬ op.opcode = 0xab := hcode
        rw [if_neg hcode', if_neg hcode, if_neg hcode, ih _ _ _ _ (by omega) hpos, Nat.zero_add]
    · rw [hop, hnext]
      have hnil : script.drop start ≠ [] ↔ start ≠ script.length := by
        rw [Ne, List.drop_eq_nil_iff]
        omega
      have hrun : slice script start pos =
          (script.drop start).take ((script.drop start).length - (script.drop pos).length) := by
        rw [slice, List.length_drop, List.length_drop]
        congr 1
        omega
      simp only [Bool.not_false, if_true, hnil, hrun, Nat.add_zero]
      split_ifs <;> simp

theorem serializeScriptCode_eq (scriptCode : Bytes) :
    Script.serializeScriptCode scriptCode =
      writeCompactSize (serializeScriptCode scriptCode).2 ++ (serializeScriptCode scriptCode).1 := by
  have hloop := scriptCodeLoop_eq scriptCode (scriptCode.length + 1) 0 0 [] 0 le_rfl (Nat.zero_le _)
  simp only [List.drop_zero, List.nil_append, Nat.zero_add] at hloop
  simp only [Script.serializeScriptCode, serializeScriptCode, hloop]

/-- Sizes as the node's types have them: a script counts its bytes in 32 bits and a deserialized
transaction has fewer inputs and outputs than that. -/
structure SizesFit (scriptCode : Bytes) (tx : CTransaction) : Prop where
  scriptCode_lt : scriptCode.length < 2 ^ 32
  vin_lt : tx.vin.length < 2 ^ 32
  vout_lt : tx.vout.length < 2 ^ 32
  scriptPubKey_lt : ∀ out ∈ tx.vout, out.scriptPubKey.length < 2 ^ 32

theorem serializeTxIn_signed (errors : PortErrors) (scriptCode : Bytes) (txin : CTxIn) (sequence : UInt32)
    (h : scriptCode.length < 2 ^ 32) :
    serializeTxIn errors
        { txid := displayHash txin.prevout.hash
          vout := txin.prevout.n
          scriptSig := (serializeScriptCode scriptCode).1
          scriptSigLength := some (serializeScriptCode scriptCode).2
          sequence := sequence } =
      .ok (txin.prevout.serialize ++ Script.serializeScriptCode scriptCode ++ writeUInt32 sequence) := by
  have hlen : (serializeScriptCode scriptCode).2 < 2 ^ 32 := (Nat.sub_le _ _).trans_lt h
  rw [serializeTxIn, txidBytes_displayHash, Option.getD_some, encodeVarInt_eq errors hlen,
    serializeScriptCode_eq scriptCode, ← List.append_assoc]
  rfl

theorem serializeTxIn_blank (errors : PortErrors) (txin : CTxIn) (sequence : UInt32) :
    serializeTxIn errors
        { txid := displayHash txin.prevout.hash
          vout := txin.prevout.n
          scriptSig := []
          scriptSigLength := none
          sequence := sequence } =
      .ok (txin.prevout.serialize ++ writeBytes [] ++ writeUInt32 sequence) := by
  rw [serializeTxIn, txidBytes_displayHash]
  simp [encodeVarInt, COutPoint.serialize, writeBytes, writeCompactSize, encodeUint32LE, writeUInt32]

theorem mapM_filterMap_ok {α : Type} {f : ℕ → Option α} {write : α → Except String Bytes} {bytes : ℕ → Bytes}
    {l : List ℕ} (h : ∀ i ∈ l, ∃ a, f i = some a ∧ write a = .ok (bytes i)) :
    (l.filterMap f).mapM write = .ok (l.map bytes) ∧ (l.filterMap f).length = l.length := by
  induction l with
  | nil => exact ⟨rfl, rfl⟩
  | cons i l ih =>
    obtain ⟨a, ha, hwrite⟩ := h i List.mem_cons_self
    obtain ⟨hmap, hlen⟩ := ih fun j hj => h j (List.mem_cons_of_mem i hj)
    rw [List.filterMap_cons_some ha, List.mapM_cons, hwrite, hmap]
    exact ⟨rfl, by simp [hlen]⟩

section
variable (errors : PortErrors) (scriptCode : Bytes) (tx : CTransaction) (nIn : ℕ) (hashType : UInt32)

def signedIndices (tx : CTransaction) (nIn : ℕ) (hashType : UInt32) : List ℕ :=
  if hashType &&& 0x80 != 0 then [nIn] else List.range tx.vin.length

theorem signedInputs_ok (hfit : SizesFit scriptCode tx) (hnIn : nIn < tx.vin.length) :
    (signedInputs (serializeScriptCode scriptCode) (Uaptx.ofTransaction tx) nIn hashType).mapM
        (serializeTxIn errors) =
      .ok ((signedIndices tx nIn hashType).map (Script.serializeInput scriptCode tx nIn hashType)) ∧
    (signedInputs (serializeScriptCode scriptCode) (Uaptx.ofTransaction tx) nIn hashType).length =
      (signedIndices tx nIn hashType).length := by
  have hidx : (if hashType &&& 0x80 != 0 then [nIn] else List.range (Uaptx.ofTransaction tx).vin.length) =
      signedIndices tx nIn hashType := by
    simp [signedIndices, Uaptx.ofTransaction]
  unfold signedInputs
  simp only [hidx]
  apply mapM_filterMap_ok
  intro i hi
  have hlt : i < tx.vin.length ∧ (Script.anyoneCanPay hashType = true → i = nIn) := by
    unfold signedIndices at hi
    split_ifs at hi with hacp
    · obtain rfl : i = nIn := by simpa using hi
      exact ⟨hnIn, fun _ => rfl⟩
    · exact ⟨by simpa using hi, fun h => absurd h hacp⟩
  have hinput : (if Script.anyoneCanPay hashType then nIn else i) = i := by
    split_ifs with hacp
    · exact (hlt.2 hacp).symm
    · rfl
  have hget : tx.vin[i]? = some tx.vin[i] := List.getElem?_eq_getElem hlt.1
  have hport : (Uaptx.ofTransaction tx).vin[i]? = some
      { txid := displayHash tx.vin[i].prevout.hash
        vout := tx.vin[i].prevout.n
        scriptSig := tx.vin[i].scriptSig
        scriptSigLength := none
        sequence := tx.vin[i].nSequence } := by
    simp [Uaptx.ofTransaction, hget]
  refine ⟨_, by rw [hport, Option.map_some], ?_⟩
  simp only [Script.serializeInput, hinput, hget]
  by_cases hsigned : i = nIn
  · simp only [hsigned, ne_eq, not_true, false_and, if_true, if_false]
    exact serializeTxIn_signed errors scriptCode _ _ hfit.scriptCode_lt
  · simp only [hsigned, ne_eq, not_false_iff, true_and, if_true, if_false, serializeTxIn_blank]
    simp only [Script.hashSingle_iff, Script.hashNone_iff]
    split_ifs <;> rfl

theorem flatMap_serializeInput :
    ((signedIndices tx nIn hashType).map (Script.serializeInput scriptCode tx nIn hashType)).flatten =
      (List.range (if Script.anyoneCanPay hashType then 1 else tx.vin.length)).flatMap
        (Script.serializeInput scriptCode tx nIn hashType) ∧
    (signedIndices tx nIn hashType).length = if Script.anyoneCanPay hashType then 1 else tx.vin.length := by
  by_cases hacp : Script.anyoneCanPay hashType = true
  · have hacp' : (hashType &&& 0x80 != 0) = true := hacp
    simp [signedIndices, hacp, hacp', Script.serializeInput]
  · have hacp' : ¬ (hashType &&& 0x80 != 0) = true := hacp
    rw [signedIndices, if_neg hacp', if_neg hacp, List.flatMap_def]
    exact ⟨rfl, by simp⟩

theorem serializeTxOut_ok {out : PortTxOut} (h : out.scriptPubKey.length < 2 ^ 32) :
    serializeTxOut errors out = .ok (encodeInt64LE out.value ++ writeBytes out.scriptPubKey) := by
  rw [serializeTxOut, encodeVarInt_eq errors h, writeBytes, ← List.append_assoc]
  rfl

theorem flatMap_range_getElem? {α : Type} (l : List α) (f : α → Bytes) :
    (List.range l.length).flatMap (fun i => (l[i]?).elim [] f) = l.flatMap f := by
  induction l with
  | nil => rfl
  | cons a l ih =>
    rw [List.length_cons, List.range_succ_eq_map, List.flatMap_cons, List.flatMap_map, List.flatMap_cons, ← ih]
    simp

theorem signedOutputs_ok (hfit : SizesFit scriptCode tx)
    (hnOut : Script.hashSingle hashType = true → nIn < tx.vout.length) :
    ∃ outs, (signedOutputs (Uaptx.ofTransaction tx) nIn hashType).mapM (serializeTxOut errors) = .ok outs ∧
      (signedOutputs (Uaptx.ofTransaction tx) nIn hashType).length =
        (if Script.hashNone hashType then 0 else if Script.hashSingle hashType then nIn + 1
          else tx.vout.length) ∧
      outs.flatten =
        (List.range (if Script.hashNone hashType then 0 else if Script.hashSingle hashType then nIn + 1
          else tx.vout.length)).flatMap (Script.serializeOutput tx nIn hashType) := by
  have hwrite (out : CTxOut) :
      encodeInt64LE out.nValue.toInt ++ writeBytes out.scriptPubKey = out.serialize := by
    rw [encodeInt64LE_toInt, CTxOut.serialize]
  have hnull : encodeInt64LE (-1) ++ writeBytes [] = CTxOut.null.serialize := by
    rw [← hwrite]
    rfl
  by_cases hnone : Script.hashNone hashType = true
  · have hnone' := (Script.hashNone_iff hashType).mp hnone
    refine ⟨[], ?_, ?_, ?_⟩
    · rw [signedOutputs, if_pos hnone']
      rfl
    · rw [signedOutputs, if_pos hnone', if_pos hnone]
      rfl
    · rw [if_pos hnone]
      rfl
  have hnone' := mt (Script.hashNone_iff hashType).mpr hnone
  by_cases hsingle : Script.hashSingle hashType = true
  · have hsingle' := (Script.hashSingle_iff hashType).mp hsingle
    have hlt := hnOut hsingle
    have hget : tx.vout[nIn]? = some tx.vout[nIn] := List.getElem?_eq_getElem hlt
    have hport : (Uaptx.ofTransaction tx).vout[nIn]?.toList =
        [⟨tx.vout[nIn].nValue.toInt, tx.vout[nIn].scriptPubKey⟩] := by
      simp [Uaptx.ofTransaction, hget]
    rw [if_neg hnone, if_pos hsingle, signedOutputs, if_neg hnone', if_pos hsingle', hport]
    refine ⟨_, mapM_ok fun out hout => serializeTxOut_ok errors ?_, by simp, ?_⟩
    · rcases List.mem_append.mp hout with hmem | hmem
      · rw [List.eq_of_mem_replicate hmem]
        simp
      · rw [List.mem_singleton.mp hmem]
        exact hfit.scriptPubKey_lt _ (List.getElem_mem hlt)
    · have hbefore : (List.range nIn).map (Script.serializeOutput tx nIn hashType) =
          List.replicate nIn CTxOut.null.serialize := by
        rw [List.eq_replicate_iff]
        refine ⟨by simp, ?_⟩
        intro b hb
        obtain ⟨i, hi, rfl⟩ := List.mem_map.mp hb
        have hne : i ≠ nIn := (List.mem_range.mp hi).ne
        simp [Script.serializeOutput, hsingle, hne]
      have hlast : Script.serializeOutput tx nIn hashType nIn = tx.vout[nIn].serialize := by
        simp [Script.serializeOutput, hget]
      rw [List.flatMap_def, List.range_succ, List.map_append, List.map_append, hbefore, List.map_replicate,
        List.map_singleton, List.map_singleton, hlast, hnull, hwrite]
  · have hsingle' := mt (Script.hashSingle_iff hashType).mpr hsingle
    rw [if_neg hnone, if_neg hsingle, signedOutputs, if_neg hnone', if_neg hsingle']
    refine ⟨_, mapM_ok fun out hout => serializeTxOut_ok errors ?_, by simp [Uaptx.ofTransaction], ?_⟩
    · obtain ⟨out', hout', rfl⟩ := List.mem_map.mp hout
      exact hfit.scriptPubKey_lt out' hout'
    · have hout : Script.serializeOutput tx nIn hashType = fun i => (tx.vout[i]?).elim [] CTxOut.serialize := by
        funext i
        rw [Script.serializeOutput, if_neg fun h => hsingle h.1]
        cases tx.vout[i]? <;> rfl
      rw [hout, flatMap_range_getElem?, List.flatMap_def, Uaptx.ofTransaction, List.map_map]
      congr 1
      exact List.map_congr_left fun out _ => hwrite out

theorem signaturePreimage_ofTransaction (hfit : SizesFit scriptCode tx) :
    signaturePreimage errors scriptCode (Uaptx.ofTransaction tx) nIn hashType =
      .ok (Script.signaturePreimage? scriptCode tx nIn hashType) := by
  have hins : (Uaptx.ofTransaction tx).vin.length = tx.vin.length := by simp [Uaptx.ofTransaction]
  have houts : (Uaptx.ofTransaction tx).vout.length = tx.vout.length := by simp [Uaptx.ofTransaction]
  unfold signaturePreimage Script.signaturePreimage?
  rw [hins, houts]
  by_cases hnIn : nIn ≥ tx.vin.length
  · rw [if_pos hnIn, if_pos hnIn]
  by_cases hnOut : Script.hashSingle hashType = true ∧ nIn ≥ tx.vout.length
  · rw [if_neg hnIn, if_neg hnIn, if_pos hnOut, if_pos ⟨(Script.hashSingle_iff hashType).mp hnOut.1, hnOut.2⟩]
  have hnOut' : ¬ (hashType &&& 0x1f = 3 ∧ nIn ≥ tx.vout.length) :=
    fun h => hnOut ⟨(Script.hashSingle_iff hashType).mpr h.1, h.2⟩
  rw [if_neg hnIn, if_neg hnIn, if_neg hnOut, if_neg hnOut']
  have hsingle : Script.hashSingle hashType = true → nIn < tx.vout.length :=
    fun h => not_le.mp fun hge => hnOut ⟨h, hge⟩
  obtain ⟨hmapIn, hlenIn⟩ := signedInputs_ok errors scriptCode tx nIn hashType hfit (not_le.mp hnIn)
  obtain ⟨hflatIn, hcountIn⟩ := flatMap_serializeInput scriptCode tx nIn hashType
  obtain ⟨outs, hmapOut, hlenOut, hflatOut⟩ := signedOutputs_ok errors scriptCode tx nIn hashType hfit hsingle
  have hfewIn : (if Script.anyoneCanPay hashType then 1 else tx.vin.length) < 2 ^ 32 := by
    have hvin := hfit.vin_lt
    split_ifs <;> omega
  have hfewOut : (if Script.hashNone hashType then 0 else if Script.hashSingle hashType then nIn + 1
      else tx.vout.length) < 2 ^ 32 := by
    have hvout := hfit.vout_lt
    split_ifs with h1 h2
    · omega
    · have hlt := hsingle h2
      omega
    · omega
  have hserialize : serializeTx errors
      { version := (Uaptx.ofTransaction tx).version
        vin := signedInputs (serializeScriptCode scriptCode) (Uaptx.ofTransaction tx) nIn hashType
        vout := signedOutputs (Uaptx.ofTransaction tx) nIn hashType
        locktime := (Uaptx.ofTransaction tx).locktime } =
      .ok (Script.serializeForSignature scriptCode tx nIn hashType) := by
    simp only [serializeTx, hlenIn, hcountIn, encodeVarInt_eq errors hfewIn, hmapIn, hlenOut,
      encodeVarInt_eq errors hfewOut, hmapOut, Script.serializeForSignature]
    change Except.ok _ = Except.ok _
    rw [hflatIn, hflatOut]
    rfl
  dsimp only
  rw [hserialize]
  rfl

theorem UapJs.normalize_ofTransaction (hversion : tx.nVersion ≠ 0)
    (hvalue : ∀ out ∈ tx.vout, out.nValue.toInt.natAbs < 2 ^ 53) :
    (UapJs.ofTransaction tx).normalize = Uaptx.ofTransaction tx := by
  have hne : tx.nVersion.toInt ≠ 0 := by
    intro h
    exact hversion (Int32.toInt_inj.mp h)
  have hvin : ((UapJs.ofTransaction tx).normalize).vin = (Uaptx.ofTransaction tx).vin := by
    simp only [UapJs.Tx.normalize, UapJs.ofTransaction, Uaptx.ofTransaction, List.map_map]
    apply List.map_congr_left
    intro txin _
    simp [toUint32_natCast]
  have hvout : ((UapJs.ofTransaction tx).normalize).vout = (Uaptx.ofTransaction tx).vout := by
    simp only [UapJs.Tx.normalize, UapJs.ofTransaction, Uaptx.ofTransaction]
    apply List.map_congr_left
    intro out hout
    rw [(intToDouble_eq (hvalue out hout)).mpr rfl]
  have hver : ((UapJs.ofTransaction tx).normalize).version = (Uaptx.ofTransaction tx).version := by
    simp only [UapJs.Tx.normalize, UapJs.ofTransaction, Uaptx.ofTransaction, Option.getD_some, if_neg hne,
      toUint32_toInt]
  have hlock : ((UapJs.ofTransaction tx).normalize).locktime = (Uaptx.ofTransaction tx).locktime := by
    simp only [UapJs.Tx.normalize, UapJs.ofTransaction, Uaptx.ofTransaction, Option.getD_some,
      toUint32_natCast]
  cases hl : (UapJs.ofTransaction tx).normalize
  cases hr : Uaptx.ofTransaction tx
  simp_all

theorem Uaptx.signaturePreimage_eq (hfit : SizesFit scriptCode tx) (hversion : tx.nVersion ≠ 0) :
    Uaptx.signaturePreimage scriptCode (Uaptx.ofTransaction tx) nIn hashType =
      .ok (Script.signaturePreimage? scriptCode tx nIn hashType) := by
  have hne : (Uaptx.ofTransaction tx).version ≠ 0 := by
    intro h
    exact hversion (congrArg Int32.ofUInt32 h)
  rw [Uaptx.signaturePreimage, if_neg hne]
  exact signaturePreimage_ofTransaction Uaptx.errors scriptCode tx nIn hashType hfit

theorem UapJs.signaturePreimage_eq (hfit : SizesFit scriptCode tx) (hversion : tx.nVersion ≠ 0)
    (hvalue : ∀ out ∈ tx.vout, out.nValue.toInt.natAbs < 2 ^ 53) :
    UapJs.signaturePreimage scriptCode (UapJs.ofTransaction tx) nIn hashType =
      .ok (Script.signaturePreimage? scriptCode tx nIn hashType) := by
  rw [UapJs.signaturePreimage, UapJs.normalize_ofTransaction tx hversion hvalue]
  exact signaturePreimage_ofTransaction UapJs.errors scriptCode tx nIn hashType hfit

theorem finishHash_eq (crypto : Crypto) (amount : Int64) :
    finishHash crypto (Script.signaturePreimage? scriptCode tx nIn hashType) =
      Script.signatureHash crypto scriptCode tx nIn hashType amount .base := by
  unfold Script.signatureHash
  cases Script.signaturePreimage? scriptCode tx nIn hashType <;> rfl

/-- The wallet library and the Go package hash the preimage of the node's legacy signature hash, and
return its constant one exactly where the node does. -/
theorem signatureHash_ports_agree (hfit : SizesFit scriptCode tx) (hversion : tx.nVersion ≠ 0)
    (hvalue : ∀ out ∈ tx.vout, out.nValue.toInt.natAbs < 2 ^ 53) :
    UapJs.signaturePreimage scriptCode (UapJs.ofTransaction tx) nIn hashType =
      .ok (Script.signaturePreimage? scriptCode tx nIn hashType) ∧
    Uaptx.signaturePreimage scriptCode (Uaptx.ofTransaction tx) nIn hashType =
      .ok (Script.signaturePreimage? scriptCode tx nIn hashType) ∧
    ∀ (crypto : Crypto) (amount : Int64),
      UapJs.signatureHash crypto scriptCode (UapJs.ofTransaction tx) nIn hashType =
        .ok (Script.signatureHash crypto scriptCode tx nIn hashType amount .base) ∧
      Uaptx.signatureHash crypto scriptCode (Uaptx.ofTransaction tx) nIn hashType =
        .ok (Script.signatureHash crypto scriptCode tx nIn hashType amount .base) := by
  have hjs := UapJs.signaturePreimage_eq scriptCode tx nIn hashType hfit hversion hvalue
  have hgo := Uaptx.signaturePreimage_eq scriptCode tx nIn hashType hfit hversion
  refine ⟨hjs, hgo, ?_⟩
  intro crypto amount
  rw [UapJs.signatureHash, Uaptx.signatureHash, hjs, hgo, ← finishHash_eq]
  exact ⟨rfl, rfl⟩

end

def sampleSpend : CTransaction where
  nVersion := 1
  vin := [⟨⟨⟨List.replicate 32 0x5a, rfl⟩, 7⟩, [], 0xfffffffe, []⟩]
  vout := [⟨100000000, [0x51]⟩, ⟨250, []⟩]
  nLockTime := 9

/-- The scripts agree on a code separator followed by a push that ends early. -/
theorem signatureHash_ports_agree_truncated :
    UapJs.signaturePreimage [0x51, 0xab, 0x05, 0x01] (UapJs.ofTransaction sampleSpend) 0 0x83 =
      .ok (Script.signaturePreimage? [0x51, 0xab, 0x05, 0x01] sampleSpend 0 0x83) :=
  (signatureHash_ports_agree [0x51, 0xab, 0x05, 0x01] sampleSpend 0 0x83
    ⟨by decide, by decide, by decide, by decide⟩ (by decide) (by decide +kernel)).1

end Whippet.Ports
