import Whippet.Ports.Deserialize

/-! `serializeTx` and `deserializeTx` of the wallet library as inverses of each other. The reader takes length prefixes
that the writer never writes, and the writer puts a version of one where the version is zero. -/
namespace Whippet.Ports
open Lib Primitives

namespace UapJs

/-- Whether the length prefix at the front is one that `encodeVarInt` writes: the shortest form, never the longest. -/
def minimalVarInt : Bytes → Bool
  | [] => false
  | first :: bytes =>
    if first < 0xfd then true
    else if first = 0xfd then (readLe? 2 bytes).any fun r => 0xfd ≤ r.1
    else if first = 0xfe then (readLe? 4 bytes).any fun r => 0xffff < r.1
    else false

def minimalTxIn (bytes : Bytes) : Bool := minimalVarInt (bytes.drop 36)

def minimalTxOut (bytes : Bytes) : Bool := minimalVarInt (bytes.drop 8)

def minimalMany {α : Type} (minimal : Bytes → Bool) (read : Bytes → Except String (α × Bytes)) : ℕ → Bytes → Bool
  | 0, _ => true
  | n + 1, bytes => minimal bytes &&
    match read bytes with
    | .error _ => false
    | .ok (_, bytes) => minimalMany minimal read n bytes

/-- Whether all the length prefixes that `deserializeTx` reads are minimal. -/
def minimalPrefixes (data : Bytes) : Bool :=
  minimalVarInt (data.drop 4) &&
    match readVarInt (data.drop 4) with
    | .error _ => false
    | .ok (vinCount, bytes) => minimalMany minimalTxIn readTxIn vinCount bytes &&
      match readMany readTxIn vinCount bytes with
      | .error _ => false
      | .ok (_, bytes) => minimalVarInt bytes &&
        match readVarInt bytes with
        | .error _ => false
        | .ok (voutCount, bytes) => minimalMany minimalTxOut readTxOut voutCount bytes

def IsUint32 (n : ℤ) : Prop := 0 ≤ n ∧ n < 2 ^ 32

/-- An input with every field given, and the txid as it is displayed. -/
structure TxIn.Legacy (vin : TxIn) : Prop where
  txid : ∃ hash : Bytes, hash.length = 32 ∧ vin.txid = hexEncode hash
  vout : IsUint32 vin.vout
  scriptSig : ∃ scriptSig, vin.scriptSig = some scriptSig
  sequence : ∃ n, vin.sequence = some n ∧ IsUint32 n

/-- A transaction object with fields of 32 bits and values that a double holds exactly. -/
structure Tx.Legacy (tx : Tx) : Prop where
  version : ∃ n, tx.version = some n ∧ IsUint32 n
  vin : ∀ vin ∈ tx.vin, vin.Legacy
  vout : ∀ out ∈ tx.vout, -maxSafeInteger ≤ out.value ∧ out.value ≤ maxSafeInteger
  locktime : ∃ n, tx.locktime = some n ∧ IsUint32 n

/-- Lengths that `encodeVarInt` writes. -/
structure Tx.Countable (tx : Tx) : Prop where
  vin : tx.vin.length < 2 ^ 32
  scriptSig : ∀ vin ∈ tx.vin, (vin.scriptSig.getD []).length < 2 ^ 32
  vout : tx.vout.length < 2 ^ 32
  scriptPubKey : ∀ out ∈ tx.vout, out.scriptPubKey.length < 2 ^ 32

def writeTxIn (vin : TxIn) : Except String Bytes :=
  serializeTxIn errors
    { txid := vin.txid
      vout := toUint32 vin.vout
      scriptSig := vin.scriptSig.getD []
      scriptSigLength := none
      sequence := toUint32 (vin.sequence.getD 0xffffffff) }

end UapJs

/-- A reader finds what the writer has written of a valid value. The writer restores what the reader has read, where
the prefixes were minimal. -/
structure Inverse {α : Type} (valid : α → Prop) (read : Bytes → Except String (α × Bytes))
    (write : α → Except String Bytes) (minimal : Bytes → Bool) : Prop where
  read_write : ∀ {a : α} {w : Bytes} (rest : Bytes), valid a → write a = .ok w →
    read (w ++ rest) = .ok (a, rest) ∧ minimal (w ++ rest) = true
  write_read : ∀ {b : Bytes} {a : α} {rest : Bytes}, read b = .ok (a, rest) →
    valid a ∧ (minimal b = true → ∃ w, write a = .ok w ∧ b = w ++ rest)

theorem inverse_varInt : Inverse (fun _ => True) UapJs.readVarInt (encodeVarInt UapJs.errors) UapJs.minimalVarInt where
  read_write := by
    intro n w rest _ hw
    obtain ⟨hlt, rfl⟩ := encodeVarInt_eq_ok hw
    refine ⟨readVarInt_writeCompactSize (by omega) rest, ?_⟩
    unfold writeCompactSize
    split_ifs with h1 h2 h3
    · have hfirst : UInt8.ofNat n < 0xfd := by
        rw [UInt8.lt_iff_toNat_lt, UInt8.toNat_ofNat']
        change n % 256 < 253
        omega
      simp [UapJs.minimalVarInt, hfirst]
    · have hread := readLe?_append (w := 2) (n := n) rest (by omega)
      have hge : 253 ≤ n := by omega
      simp [UapJs.minimalVarInt, hread, hge]
    · have hread := readLe?_append (w := 4) (n := n) rest (by omega)
      have hge : 65535 < n := by omega
      simp [UapJs.minimalVarInt, hread, hge]
    · omega
  write_read := by
    intro b n rest hread
    refine ⟨trivial, fun hmin => ?_⟩
    cases b with
    | nil => cases hread
    | cons first bytes =>
      simp only [UapJs.readVarInt] at hread
      simp only [UapJs.minimalVarInt] at hmin
      split_ifs at hread hmin with h1 h2 h3
      · obtain ⟨rfl, rfl⟩ := Prod.mk.inj (Except.ok.inj hread)
        have hlt : first.toNat < 0xfd := h1
        exact ⟨[first], by rw [encodeVarInt, if_pos hlt]; simp, rfl⟩
      · obtain ⟨r, hr, hge⟩ := Option.any_eq_true _ _ |>.mp hmin
        obtain rfl := Option.some.inj (hr.symm.trans (orFail_eq_ok.mp hread))
        obtain ⟨hlt, rfl⟩ := readLe?_eq_some hr
        have hn : 0xfd ≤ n := of_decide_eq_true hge
        refine ⟨0xfd :: leBytes 2 n, ?_, by rw [h2]; rfl⟩
        rw [encodeVarInt, if_neg (by omega), if_pos (by omega)]
      · obtain ⟨r, hr, hgt⟩ := Option.any_eq_true _ _ |>.mp hmin
        obtain rfl := Option.some.inj (hr.symm.trans (orFail_eq_ok.mp hread))
        obtain ⟨hlt, rfl⟩ := readLe?_eq_some hr
        have hn : 0xffff < n := of_decide_eq_true hgt
        refine ⟨0xfe :: leBytes 4 n, ?_, by rw [h3]; rfl⟩
        rw [encodeVarInt, if_neg (by omega), if_neg (by omega), if_pos (by omega)]

theorem toUint32_toNat {n : ℤ} (h : UapJs.IsUint32 n) : ((UapJs.toUint32 n).toNat : ℤ) = n := by
  obtain ⟨h0, h1⟩ := h
  rw [UapJs.toUint32, UInt32.toNat_ofNat']
  omega

theorem encodeUint32LE_eq_zero {n : ℤ} (h : UapJs.IsUint32 n) :
    encodeUint32LE (UapJs.toUint32 n) = [0, 0, 0, 0] ↔ n = 0 := by
  constructor
  · intro henc
    have hnat := toUint32_toNat h
    have hle := leNat_leBytes_of_lt (w := 4) (UapJs.toUint32 n).toNat_lt
    rw [show leBytes 4 (UapJs.toUint32 n).toNat = [0, 0, 0, 0] from henc] at hle
    have hzero : leNat [0, 0, 0, 0] = 0 := by decide
    omega
  · rintro rfl
    decide

theorem readUint32LE_toUint32 {n : ℤ} (h : UapJs.IsUint32 n) (rest : Bytes) :
    UapJs.readUint32LE (encodeUint32LE (UapJs.toUint32 n) ++ rest) = .ok (n.toNat, rest) := by
  have hn := toUint32_toNat h
  have hread : UapJs.readUint32LE (encodeUint32LE (UapJs.toUint32 n) ++ rest) =
      .ok ((UapJs.toUint32 n).toNat, rest) := readUint32LE_append _ rest
  rw [hread]
  congr 2
  omega

theorem readUint32LE_eq_ok {b rest : Bytes} {n : ℕ} (h : UapJs.readUint32LE b = .ok (n, rest)) :
    UapJs.IsUint32 n ∧ b = encodeUint32LE (UapJs.toUint32 n) ++ rest := by
  obtain ⟨hlt, rfl⟩ := readLe?_eq_some (orFail_eq_ok.mp h)
  have hn : UapJs.IsUint32 n := ⟨by omega, by omega⟩
  refine ⟨hn, ?_⟩
  rw [encodeUint32LE, Int.ofNat_inj.mp (toUint32_toNat hn)]

theorem readSlice_eq_ok {error : String} {n : ℕ} {b slice rest : Bytes} (h : UapJs.readSlice error n b = .ok (slice, rest)) :
    slice.length = n ∧ b = slice ++ rest := by
  unfold UapJs.readSlice at h
  split_ifs at h with hlen
  obtain ⟨rfl, rfl⟩ := Prod.mk.inj (Except.ok.inj h)
  exact ⟨by rw [List.length_take]; omega, (List.take_append_drop n b).symm⟩

def writeScript (script : Bytes) : Except String Bytes := do
  let size ← encodeVarInt UapJs.errors script.length
  return size ++ script

theorem inverse_script (error : String) :
    Inverse (fun _ => True) (UapJs.readScript error) writeScript UapJs.minimalVarInt where
  read_write := by
    intro script w rest _ hw
    simp only [writeScript, bind_eq_ok, pure_eq_ok] at hw
    obtain ⟨size, hsize, rfl⟩ := hw
    obtain ⟨hread, hmin⟩ := inverse_varInt.read_write (script ++ rest) trivial hsize
    rw [List.append_assoc]
    refine ⟨?_, hmin⟩
    rw [UapJs.readScript, hread, ok_bind]
    exact readSlice_append rfl rest
  write_read := by
    intro b script rest hread
    refine ⟨trivial, fun hmin => ?_⟩
    simp only [UapJs.readScript, bind_eq_ok] at hread
    obtain ⟨⟨n, bytes⟩, hn, hslice⟩ := hread
    obtain ⟨rfl, rfl⟩ := readSlice_eq_ok hslice
    obtain ⟨size, hsize, rfl⟩ := (inverse_varInt.write_read hn).2 hmin
    exact ⟨size ++ script, by rw [writeScript, hsize]; rfl, by rw [List.append_assoc]⟩

theorem inverse_txIn : Inverse UapJs.TxIn.Legacy UapJs.readTxIn UapJs.writeTxIn UapJs.minimalTxIn where
  read_write := by
    intro vin w rest hvin hw
    obtain ⟨hash, hlen, htxid⟩ := hvin.txid
    obtain ⟨scriptSig, hscript⟩ := hvin.scriptSig
    obtain ⟨sequence, hsequence, hseq⟩ := hvin.sequence
    obtain ⟨txid, vout, script, seq⟩ := vin
    dsimp only at htxid hscript hsequence
    subst htxid hscript hsequence
    have htxidBytes : txidBytes UapJs.errors (hexEncode hash) = .ok hash.reverse := by
      rw [txidBytes, UapJs.errors.hexToBytes_hexEncode, ok_bind, if_neg (not_not.mpr hlen)]
    simp only [UapJs.writeTxIn, serializeTxIn, htxidBytes, ok_bind, bind_eq_ok, pure_eq_ok, Option.getD_none,
      Option.getD_some] at hw
    obtain ⟨size, hsize, rfl⟩ := hw
    have hwrite : writeScript scriptSig = .ok (size ++ scriptSig) := by rw [writeScript, hsize]; rfl
    have hrev : hash.reverse.length = 32 := by rw [List.length_reverse, hlen]
    obtain ⟨hread, hmin⟩ := (inverse_script "truncated transaction: input scriptSig").read_write
      (encodeUint32LE (UapJs.toUint32 sequence) ++ rest) trivial hwrite
    have hsplit : hash.reverse ++ encodeUint32LE (UapJs.toUint32 vout) ++ size ++ scriptSig ++
        encodeUint32LE (UapJs.toUint32 sequence) ++ rest = hash.reverse ++ (encodeUint32LE (UapJs.toUint32 vout) ++
          (size ++ scriptSig ++ (encodeUint32LE (UapJs.toUint32 sequence) ++ rest))) := by
      simp only [List.append_assoc]
    rw [hsplit]
    constructor
    · simp only [UapJs.readTxIn, readSlice_append hrev, ok_bind, readUint32LE_toUint32 hvin.vout, hread,
        readUint32LE_toUint32 hseq, List.reverse_reverse, Int.toNat_of_nonneg hvin.vout.1, Int.toNat_of_nonneg hseq.1]
      rfl
    · have hdrop : (hash.reverse ++ (encodeUint32LE (UapJs.toUint32 vout) ++
          (size ++ scriptSig ++ (encodeUint32LE (UapJs.toUint32 sequence) ++ rest)))).drop 36 =
            size ++ scriptSig ++ (encodeUint32LE (UapJs.toUint32 sequence) ++ rest) := by
        rw [← List.append_assoc]
        exact List.drop_left' (by rw [List.length_append, hrev, encodeUint32LE, leBytes_length])
      rw [UapJs.minimalTxIn, hdrop]
      exact hmin
  write_read := by
    intro b vin rest hread
    simp only [UapJs.readTxIn, bind_eq_ok, pure_eq_ok, Prod.mk.injEq] at hread
    obtain ⟨⟨txidLE, b₁⟩, htxid, ⟨vout, b₂⟩, hvout, ⟨scriptSig, b₃⟩, hscript, ⟨sequence, b₄⟩, hsequence, rfl, rfl⟩ := hread
    obtain ⟨hlen, rfl⟩ := readSlice_eq_ok htxid
    obtain ⟨hvout32, rfl⟩ := readUint32LE_eq_ok hvout
    obtain ⟨hsequence32, rfl⟩ := readUint32LE_eq_ok hsequence
    refine ⟨⟨⟨txidLE.reverse, by rw [List.length_reverse, hlen], rfl⟩, hvout32, ⟨scriptSig, rfl⟩,
      ⟨sequence, rfl, hsequence32⟩⟩, fun hmin => ?_⟩
    have hdrop : (txidLE ++ (encodeUint32LE (UapJs.toUint32 vout) ++ b₂)).drop 36 = b₂ := by
      rw [← List.append_assoc]
      exact List.drop_left' (by rw [List.length_append, hlen, encodeUint32LE, leBytes_length])
    rw [UapJs.minimalTxIn, hdrop] at hmin
    obtain ⟨w, hw, rfl⟩ := ((inverse_script _).write_read hscript).2 hmin
    simp only [writeScript, bind_eq_ok, pure_eq_ok] at hw
    obtain ⟨size, hsize, rfl⟩ := hw
    have htxidBytes : txidBytes UapJs.errors (hexEncode txidLE.reverse) = .ok txidLE := by
      rw [txidBytes, UapJs.errors.hexToBytes_hexEncode, ok_bind, if_neg (by simp [hlen]), List.reverse_reverse]
    simp only [UapJs.writeTxIn, serializeTxIn, htxidBytes, ok_bind, Option.getD_none, Option.getD_some, hsize]
    exact ⟨_, rfl, by simp only [List.append_assoc]⟩

theorem encodeInt64LE_length (v : ℤ) : (encodeInt64LE v).length = 8 := leBytes_length _ _

theorem readInt64LE_encode {v : ℤ} (h0 : -UapJs.maxSafeInteger ≤ v) (h1 : v ≤ UapJs.maxSafeInteger) (rest : Bytes) :
    UapJs.readInt64LE (encodeInt64LE v ++ rest) = .ok (v, rest) := by
  unfold UapJs.maxSafeInteger at h0 h1
  have hint : UapJs.asInt64 (v % 2 ^ 64).toNat = v := by
    unfold UapJs.asInt64
    split_ifs <;> omega
  have hread : readLe? 8 (encodeInt64LE v ++ rest) = some ((v % 2 ^ 64).toNat, rest) :=
    readLe?_append rest (by omega)
  rw [UapJs.readInt64LE, hread]
  simp only [orFail, ok_bind, hint]
  rw [failIf_neg (by unfold UapJs.maxSafeInteger; omega)]
  rfl

theorem readInt64LE_eq_ok {b rest : Bytes} {v : ℤ} (h : UapJs.readInt64LE b = .ok (v, rest)) :
    (-UapJs.maxSafeInteger ≤ v ∧ v ≤ UapJs.maxSafeInteger) ∧ b = encodeInt64LE v ++ rest := by
  simp only [UapJs.readInt64LE, bind_eq_ok, pure_eq_ok, orFail_eq_ok, failIf_eq_ok, Prod.mk.injEq] at h
  obtain ⟨⟨n, bytes⟩, hread, _, hsafe, rfl, rfl⟩ := h
  obtain ⟨hlt, rfl⟩ := readLe?_eq_some hread
  rw [not_or, not_lt, not_lt] at hsafe
  refine ⟨⟨hsafe.2, hsafe.1⟩, ?_⟩
  have hn : (UapJs.asInt64 n % 2 ^ 64).toNat = n := by
    unfold UapJs.asInt64
    split_ifs <;> omega
  rw [encodeInt64LE, hn]

theorem inverse_txOut : Inverse (fun out => -UapJs.maxSafeInteger ≤ out.value ∧ out.value ≤ UapJs.maxSafeInteger)
    UapJs.readTxOut (serializeTxOut UapJs.errors) UapJs.minimalTxOut where
  read_write := by
    intro out w rest hout hw
    simp only [serializeTxOut, bind_eq_ok, pure_eq_ok] at hw
    obtain ⟨size, hsize, rfl⟩ := hw
    have hwrite : writeScript out.scriptPubKey = .ok (size ++ out.scriptPubKey) := by rw [writeScript, hsize]; rfl
    obtain ⟨hread, hmin⟩ := (inverse_script "truncated transaction: output scriptPubKey").read_write rest trivial hwrite
    have hsplit : encodeInt64LE out.value ++ size ++ out.scriptPubKey ++ rest =
        encodeInt64LE out.value ++ (size ++ out.scriptPubKey ++ rest) := by
      simp only [List.append_assoc]
    rw [hsplit]
    constructor
    · simp only [UapJs.readTxOut, readInt64LE_encode hout.1 hout.2, ok_bind, hread]
      rfl
    · rw [UapJs.minimalTxOut, List.drop_left' (encodeInt64LE_length _)]
      exact hmin
  write_read := by
    intro b out rest hread
    simp only [UapJs.readTxOut, bind_eq_ok, pure_eq_ok, Prod.mk.injEq] at hread
    obtain ⟨⟨value, b₁⟩, hvalue, ⟨scriptPubKey, b₂⟩, hscript, rfl, rfl⟩ := hread
    obtain ⟨hsafe, rfl⟩ := readInt64LE_eq_ok hvalue
    refine ⟨hsafe, fun hmin => ?_⟩
    rw [UapJs.minimalTxOut, List.drop_left' (encodeInt64LE_length _)] at hmin
    obtain ⟨w, hw, rfl⟩ := ((inverse_script _).write_read hscript).2 hmin
    simp only [writeScript, bind_eq_ok, pure_eq_ok] at hw
    obtain ⟨size, hsize, rfl⟩ := hw
    simp only [serializeTxOut, hsize, ok_bind]
    exact ⟨_, rfl, by simp only [List.append_assoc]⟩

section
variable {α : Type} {valid : α → Prop} {read : Bytes → Except String (α × Bytes)} {write : α → Except String Bytes}
  {minimal : Bytes → Bool}

theorem Inverse.read_write_many (h : Inverse valid read write minimal) {l : List α} {ws : List Bytes} (rest : Bytes)
    (hl : ∀ a ∈ l, valid a) (hw : l.mapM write = .ok ws) :
    UapJs.readMany read l.length (ws.flatten ++ rest) = .ok (l, rest) ∧
      UapJs.minimalMany minimal read l.length (ws.flatten ++ rest) = true := by
  induction l generalizing ws with
  | nil =>
    obtain rfl : [] = ws := Except.ok.inj hw
    exact ⟨rfl, rfl⟩
  | cons a l ih =>
    rw [List.forall_mem_cons] at hl
    simp only [List.mapM_cons, bind_eq_ok, pure_eq_ok] at hw
    obtain ⟨w, hwa, ws, hws, rfl⟩ := hw
    obtain ⟨hread, hmin⟩ := h.read_write (ws.flatten ++ rest) hl.1 hwa
    obtain ⟨hreads, hmins⟩ := ih hl.2 hws
    rw [List.flatten_cons, List.append_assoc, List.length_cons]
    constructor
    · simp only [UapJs.readMany, hread, ok_bind, hreads]
      rfl
    · simp only [UapJs.minimalMany, hmin, hread, hmins, Bool.and_self]

theorem Inverse.write_read_many (h : Inverse valid read write minimal) {n : ℕ} {b rest : Bytes} {l : List α}
    (hread : UapJs.readMany read n b = .ok (l, rest)) : l.length = n ∧ (∀ a ∈ l, valid a) ∧
      (UapJs.minimalMany minimal read n b = true → ∃ ws, l.mapM write = .ok ws ∧ b = ws.flatten ++ rest) := by
  induction n generalizing b l with
  | zero =>
    obtain ⟨rfl, rfl⟩ := Prod.mk.inj (Except.ok.inj hread)
    exact ⟨rfl, by simp, fun _ => ⟨[], rfl, rfl⟩⟩
  | succ n ih =>
    simp only [UapJs.readMany, bind_eq_ok, pure_eq_ok, Prod.mk.injEq] at hread
    obtain ⟨⟨a, b₁⟩, ha, ⟨as, b₂⟩, has, rfl, rfl⟩ := hread
    obtain ⟨hvalid, hwrite⟩ := h.write_read ha
    obtain ⟨hlen, hvalids, hwrites⟩ := ih has
    refine ⟨by simp [hlen], List.forall_mem_cons.mpr ⟨hvalid, hvalids⟩, fun hmin => ?_⟩
    simp only [UapJs.minimalMany, ha, Bool.and_eq_true] at hmin
    obtain ⟨w, hw, rfl⟩ := hwrite hmin.1
    obtain ⟨ws, hws, rfl⟩ := hwrites hmin.2
    refine ⟨w :: ws, ?_, by simp⟩
    rw [List.mapM_cons, hw, hws]
    rfl

end

theorem mapM_mem_ok {α β : Type} {f : α → Except String β} {l : List α} {bs : List β} (h : l.mapM f = .ok bs) {a : α}
    (ha : a ∈ l) : ∃ b, f a = .ok b := by
  induction l generalizing bs with
  | nil => cases ha
  | cons x l ih =>
    simp only [List.mapM_cons, bind_eq_ok] at h
    obtain ⟨b, hb, bs, hbs, -⟩ := h
    rcases List.mem_cons.mp ha with rfl | ha
    · exact ⟨b, hb⟩
    · exact ih hbs ha

theorem mapM_exists_ok {α β : Type} {f : α → Except String β} {l : List α} (h : ∀ a ∈ l, ∃ b, f a = .ok b) :
    ∃ bs, l.mapM f = .ok bs := by
  induction l with
  | nil => exact ⟨[], rfl⟩
  | cons a l ih =>
    rw [List.forall_mem_cons] at h
    obtain ⟨b, hb⟩ := h.1
    obtain ⟨bs, hbs⟩ := ih h.2
    exact ⟨b :: bs, by rw [List.mapM_cons, hb, hbs]; rfl⟩

section
variable {tx : UapJs.Tx} {data : Bytes}

theorem serializeTx_parts (h : UapJs.serializeTx tx = .ok data) : ∃ nIns ins nOuts outs,
    encodeVarInt UapJs.errors tx.vin.length = .ok nIns ∧ tx.vin.mapM UapJs.writeTxIn = .ok ins ∧
    encodeVarInt UapJs.errors tx.vout.length = .ok nOuts ∧ tx.vout.mapM (serializeTxOut UapJs.errors) = .ok outs ∧
    data = encodeUint32LE tx.normalize.version ++ (nIns ++ (ins.flatten ++ (nOuts ++ (outs.flatten ++
      encodeUint32LE tx.normalize.locktime)))) := by
  simp only [UapJs.serializeTx, serializeTx, bind_eq_ok, pure_eq_ok] at h
  obtain ⟨nIns, hnIns, ins, hins, nOuts, hnOuts, outs, houts, rfl⟩ := h
  have hvin : tx.vin.mapM UapJs.writeTxIn = .ok ins := by
    rw [← hins, UapJs.Tx.normalize, List.mapM_map]
    rfl
  rw [UapJs.Tx.normalize, List.length_map] at hnIns
  exact ⟨nIns, ins, nOuts, outs, hnIns, hvin, hnOuts, houts, by simp only [List.append_assoc]⟩

theorem serializeTx_of_parts {nIns nOuts : Bytes} {ins outs : List Bytes}
    (hnIns : encodeVarInt UapJs.errors tx.vin.length = .ok nIns) (hins : tx.vin.mapM UapJs.writeTxIn = .ok ins)
    (hnOuts : encodeVarInt UapJs.errors tx.vout.length = .ok nOuts)
    (houts : tx.vout.mapM (serializeTxOut UapJs.errors) = .ok outs) : UapJs.serializeTx tx =
      .ok (encodeUint32LE tx.normalize.version ++ (nIns ++ (ins.flatten ++ (nOuts ++ (outs.flatten ++
        encodeUint32LE tx.normalize.locktime))))) := by
  have hvin : tx.normalize.vin.mapM (serializeTxIn UapJs.errors) = .ok ins := by
    rw [← hins, UapJs.Tx.normalize, List.mapM_map]
    rfl
  have hlen : tx.normalize.vin.length = tx.vin.length := by rw [UapJs.Tx.normalize, List.length_map]
  have hvout : tx.normalize.vout = tx.vout := rfl
  rw [UapJs.serializeTx, serializeTx, hlen, hnIns, hvin, hvout, hnOuts, houts]
  simp only [ok_bind, List.append_assoc]
  rfl

theorem deserializeTx_serializeTx (htx : tx.Legacy) (h : UapJs.serializeTx tx = .ok data) :
    UapJs.deserializeTx data = .ok { tx with version := some tx.normalize.version.toNat } ∧
      UapJs.minimalPrefixes data = true := by
  obtain ⟨locktime, hlocktime, hlock⟩ := htx.locktime
  obtain ⟨nIns, ins, nOuts, outs, hnIns, hins, hnOuts, houts, rfl⟩ := serializeTx_parts h
  have hnormal : tx.normalize.locktime = UapJs.toUint32 locktime := by rw [UapJs.Tx.normalize, hlocktime]; rfl
  have hend := readUint32LE_toUint32 hlock []
  rw [List.append_nil, ← hnormal] at hend
  have hversion : ∀ rest, UapJs.readUint32LE (encodeUint32LE tx.normalize.version ++ rest) =
      .ok (tx.normalize.version.toNat, rest) := readUint32LE_append _
  have hdrop : ∀ rest, (encodeUint32LE tx.normalize.version ++ rest).drop 4 = rest := fun rest =>
    List.drop_left' (leBytes_length _ _)
  obtain ⟨hreadOuts, hminOuts⟩ := inverse_txOut.read_write_many (encodeUint32LE tx.normalize.locktime) htx.vout houts
  obtain ⟨hreadNOuts, hminNOuts⟩ := inverse_varInt.read_write
    (outs.flatten ++ encodeUint32LE tx.normalize.locktime) trivial hnOuts
  obtain ⟨hreadIns, hminIns⟩ := inverse_txIn.read_write_many
    (nOuts ++ (outs.flatten ++ encodeUint32LE tx.normalize.locktime)) htx.vin hins
  obtain ⟨hreadNIns, hminNIns⟩ := inverse_varInt.read_write
    (ins.flatten ++ (nOuts ++ (outs.flatten ++ encodeUint32LE tx.normalize.locktime))) trivial hnIns
  constructor
  · simp only [UapJs.deserializeTx, hversion, ok_bind, hreadNIns, hreadIns, hreadNOuts, hreadOuts, hend]
    rw [failIf_neg (by simp), hlocktime, Int.toNat_of_nonneg hlock.1]
    rfl
  · simp only [UapJs.minimalPrefixes, hdrop, hminNIns, hreadNIns, hminIns, hreadIns, hminNOuts, hreadNOuts, hminOuts,
      Bool.and_self]

theorem countable_of_serializeTx (h : UapJs.serializeTx tx = .ok data) : tx.Countable := by
  obtain ⟨nIns, ins, nOuts, outs, hnIns, hins, hnOuts, houts, -⟩ := serializeTx_parts h
  refine ⟨(encodeVarInt_eq_ok hnIns).1, fun vin hvin => ?_, (encodeVarInt_eq_ok hnOuts).1, fun out hout => ?_⟩
  · obtain ⟨w, hw⟩ := mapM_mem_ok hins hvin
    simp only [UapJs.writeTxIn, serializeTxIn, bind_eq_ok] at hw
    obtain ⟨-, -, size, hsize, -⟩ := hw
    exact (encodeVarInt_eq_ok hsize).1
  · obtain ⟨w, hw⟩ := mapM_mem_ok houts hout
    simp only [serializeTxOut, bind_eq_ok] at hw
    obtain ⟨size, hsize, -⟩ := hw
    exact (encodeVarInt_eq_ok hsize).1

theorem serializeTx_of_countable (htx : tx.Legacy) (h : tx.Countable) : ∃ data, UapJs.serializeTx tx = .ok data := by
  have hins : ∀ vin ∈ tx.vin, ∃ w, UapJs.writeTxIn vin = .ok w := by
    intro vin hvin
    obtain ⟨hash, hlen, htxid⟩ := (htx.vin vin hvin).txid
    have htxidBytes : txidBytes UapJs.errors vin.txid = .ok hash.reverse := by
      rw [htxid, txidBytes, UapJs.errors.hexToBytes_hexEncode, ok_bind, if_neg (not_not.mpr hlen)]
    simp only [UapJs.writeTxIn, serializeTxIn, htxidBytes, ok_bind, Option.getD_none,
      encodeVarInt_eq UapJs.errors (h.scriptSig vin hvin)]
    exact ⟨_, rfl⟩
  have houts : ∀ out ∈ tx.vout, ∃ w, serializeTxOut UapJs.errors out = .ok w := by
    intro out hout
    rw [serializeTxOut, encodeVarInt_eq UapJs.errors (h.scriptPubKey out hout)]
    exact ⟨_, rfl⟩
  obtain ⟨ins, hins⟩ := mapM_exists_ok hins
  obtain ⟨outs, houts⟩ := mapM_exists_ok houts
  exact ⟨_, serializeTx_of_parts (encodeVarInt_eq UapJs.errors h.vin) hins (encodeVarInt_eq UapJs.errors h.vout) houts⟩

theorem serializeTx_deserializeTx (h : UapJs.deserializeTx data = .ok tx) : tx.Legacy ∧
    (∃ rest, data = encodeUint32LE (UapJs.toUint32 (tx.version.getD 0)) ++ rest ∧
      (UapJs.minimalPrefixes data = true → UapJs.serializeTx tx = .ok (encodeUint32LE tx.normalize.version ++ rest))) := by
  simp only [UapJs.deserializeTx, bind_eq_ok, failIf_eq_ok, pure_eq_ok] at h
  obtain ⟨⟨version, b₁⟩, hversion, ⟨vinCount, b₂⟩, hvinCount, ⟨vin, b₃⟩, hvin, ⟨voutCount, b₄⟩, hvoutCount,
    ⟨vout, b₅⟩, hvout, ⟨locktime, b₆⟩, hlocktime, _, hend, rfl⟩ := h
  obtain ⟨hversion32, rfl⟩ := readUint32LE_eq_ok hversion
  obtain ⟨hlocktime32, rfl⟩ := readUint32LE_eq_ok hlocktime
  obtain rfl : b₆ = [] := not_not.mp hend
  obtain ⟨hvinLen, hvinValid, hvinWrite⟩ := inverse_txIn.write_read_many hvin
  obtain ⟨hvoutLen, hvoutValid, hvoutWrite⟩ := inverse_txOut.write_read_many hvout
  refine ⟨⟨⟨version, rfl, hversion32⟩, hvinValid, hvoutValid, ⟨locktime, rfl, hlocktime32⟩⟩, b₁, rfl, fun hmin => ?_⟩
  have hdrop : (encodeUint32LE (UapJs.toUint32 version) ++ b₁).drop 4 = b₁ := List.drop_left' (leBytes_length _ _)
  simp only [UapJs.minimalPrefixes, hdrop, hvinCount, hvin, hvoutCount, Bool.and_eq_true] at hmin
  obtain ⟨hminVin, hminIns, hminVout, hminOuts⟩ := hmin
  obtain ⟨nOuts, hnOuts, rfl⟩ := (inverse_varInt.write_read hvoutCount).2 hminVout
  obtain ⟨nIns, hnIns, rfl⟩ := (inverse_varInt.write_read hvinCount).2 hminVin
  obtain ⟨ins, hins, rfl⟩ := hvinWrite hminIns
  obtain ⟨outs, houts, rfl⟩ := hvoutWrite hminOuts
  subst hvinLen hvoutLen
  rw [serializeTx_of_parts hnIns hins hnOuts houts, List.append_nil]
  rfl

theorem normalize_version_eq (htx : tx.Legacy) :
    some (tx.normalize.version.toNat : ℤ) = tx.version ↔ tx.version ≠ some 0 := by
  obtain ⟨n, hn, h32⟩ := htx.version
  rw [hn, Option.some.injEq, Ne, Option.some.injEq]
  by_cases h0 : n = 0
  · subst h0
    have hone : tx.normalize.version = 1 := by simp [UapJs.Tx.normalize, hn]
    simp [hone]
  · have hnormal : tx.normalize.version = UapJs.toUint32 n := by simp [UapJs.Tx.normalize, hn, h0]
    simp [hnormal, toUint32_toNat h32, h0]

end

/-- A transaction object is read back from what is written of it exactly if its version is not zero and its lengths can
be written. What is read from bytes is written as those bytes exactly if their version is not zero and every length
prefix in them is minimal. -/
theorem tx_codec_inverse_iff (tx : UapJs.Tx) :
    (tx.Legacy →
      ((UapJs.serializeTx tx >>= UapJs.deserializeTx) = .ok tx ↔ tx.version ≠ some 0 ∧ tx.Countable)) ∧
    ∀ data : Bytes, UapJs.deserializeTx data = .ok tx →
      (UapJs.serializeTx tx = .ok data ↔ data.take 4 ≠ [0, 0, 0, 0] ∧ UapJs.minimalPrefixes data = true) := by
  refine ⟨fun htx => ⟨fun h => ?_, fun ⟨hversion, hcount⟩ => ?_⟩, fun data h => ?_⟩
  · obtain ⟨data, hdata, hread⟩ := bind_eq_ok.mp h
    refine ⟨(normalize_version_eq htx).mp ?_, countable_of_serializeTx hdata⟩
    rw [(deserializeTx_serializeTx htx hdata).1] at hread
    exact congrArg UapJs.Tx.version (Except.ok.inj hread)
  · obtain ⟨data, hdata⟩ := serializeTx_of_countable htx hcount
    rw [hdata, ok_bind, (deserializeTx_serializeTx htx hdata).1, (normalize_version_eq htx).mpr hversion]
  · obtain ⟨htx, rest, rfl, hwrite⟩ := serializeTx_deserializeTx h
    obtain ⟨n, hn, h32⟩ := htx.version
    have htake : (encodeUint32LE (UapJs.toUint32 n) ++ rest).take 4 = encodeUint32LE (UapJs.toUint32 n) :=
      List.take_left' (leBytes_length _ _)
    rw [hn, Option.getD_some] at h hwrite ⊢
    rw [htake, Ne, encodeUint32LE_eq_zero h32]
    constructor
    · intro hdata
      obtain ⟨hread, hmin⟩ := deserializeTx_serializeTx htx hdata
      have hversion := congrArg UapJs.Tx.version (Except.ok.inj (hread.symm.trans h))
      have hne := (normalize_version_eq htx).mp hversion
      rw [hn, Ne, Option.some.injEq] at hne
      exact ⟨hne, hmin⟩
    · rintro ⟨hne, hmin⟩
      have hnormal : tx.normalize.version = UapJs.toUint32 n := by simp [UapJs.Tx.normalize, hn, hne]
      rw [hwrite hmin, hnormal]

def sampleTx : UapJs.Tx where
  version := some 1
  vin := [⟨hexEncode (List.replicate 32 0x11), 0, some [0x51], some 0xffffffff⟩]
  vout := [⟨100000000, [0x6a]⟩]
  locktime := some 0

def sampleTxBytes : Bytes :=
  [1, 0, 0, 0, 1] ++ List.replicate 32 0x11 ++ [0, 0, 0, 0, 1, 0x51, 255, 255, 255, 255, 1, 0, 225, 245, 5, 0, 0, 0, 0, 1,
    0x6a, 0, 0, 0, 0]

theorem tx_codec_inverse_sample : (UapJs.serializeTx sampleTx >>= UapJs.deserializeTx) = .ok sampleTx ∧
    UapJs.deserializeTx sampleTxBytes = .ok sampleTx ∧ UapJs.serializeTx sampleTx = .ok sampleTxBytes := by
  have hlegacy : sampleTx.Legacy := by
    refine ⟨⟨1, rfl, by decide, by decide⟩, ?_, by decide, ⟨0, rfl, by decide, by decide⟩⟩
    refine List.forall_mem_singleton.mpr ⟨⟨_, by decide, rfl⟩, ⟨by decide, by decide⟩, ⟨_, rfl⟩, _, rfl, ?_⟩
    exact ⟨by decide, by decide⟩
  have hcount : sampleTx.Countable := ⟨by decide, by decide, by decide, by decide⟩
  have hread : UapJs.deserializeTx sampleTxBytes = .ok sampleTx := by decide +kernel
  exact ⟨((tx_codec_inverse_iff sampleTx).1 hlegacy).mpr ⟨by decide, hcount⟩, hread,
    ((tx_codec_inverse_iff sampleTx).2 sampleTxBytes hread).mpr (by decide +kernel)⟩

/-- A count of no inputs in three bytes is read and written back in one, and a version of zero is written as one. -/
theorem tx_codec_not_inverse :
    (∃ tx, UapJs.deserializeTx [1, 0, 0, 0, 0xfd, 0, 0, 0, 0, 0, 0, 0] = .ok tx ∧ tx.Legacy ∧
      UapJs.serializeTx tx = .ok [1, 0, 0, 0, 0, 0, 0, 0, 0, 0]) ∧
    ∃ tx : UapJs.Tx, tx.Legacy ∧ tx.version = some 0 ∧
      (UapJs.serializeTx tx >>= UapJs.deserializeTx) = .ok { tx with version := some 1 } := by
  have hzero : UapJs.IsUint32 0 := ⟨by decide, by decide⟩
  refine ⟨⟨⟨some 1, [], [], some 0⟩, by decide +kernel, ?_, by decide +kernel⟩, ⟨some 0, [], [], some 0⟩, ?_, rfl,
    by decide +kernel⟩
  · exact ⟨⟨1, rfl, by decide, by decide⟩, by simp, by simp, ⟨0, rfl, hzero⟩⟩
  · exact ⟨⟨0, rfl, hzero⟩, by simp, by simp, ⟨0, rfl, hzero⟩⟩

end Whippet.Ports
