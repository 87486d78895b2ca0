import Whippet.Ports.PaymentSpec

/-! How many bytes a transaction takes, and what its signatures add to them. -/
namespace Whippet.Ports
open Lib Primitives

def varIntSize (n : ℕ) : ℕ := (writeCompactSize n).length

theorem varIntSize_small {n : ℕ} (h : n < 253) : varIntSize n = 1 := by
  rw [varIntSize, writeCompactSize, if_pos h]
  rfl

theorem varIntSize_le (n : ℕ) : varIntSize n ≤ 9 := by
  unfold varIntSize writeCompactSize
  split_ifs <;> simp [leBytes_length]

def UapJs.TxIn.size (vin : UapJs.TxIn) : ℕ :=
  40 + varIntSize (vin.scriptSig.getD []).length + (vin.scriptSig.getD []).length

def PortTxOut.size (out : PortTxOut) : ℕ := 8 + varIntSize out.scriptPubKey.length + out.scriptPubKey.length

theorem writeTxIn_length {vin : UapJs.TxIn} {b : Bytes} (h : UapJs.writeTxIn vin = .ok b) : b.length = vin.size := by
  simp only [UapJs.writeTxIn, serializeTxIn, bind_eq_ok, pure_eq_ok] at h
  obtain ⟨txid, htxid, size, hsize, rfl⟩ := h
  obtain ⟨-, rfl⟩ := encodeVarInt_eq_ok hsize
  simp only [List.length_append, txidBytes_length htxid, encodeUint32LE, leBytes_length, UapJs.TxIn.size, varIntSize,
    Option.getD_none]
  omega

theorem serializeTxOut_length {errors : PortErrors} {out : PortTxOut} {b : Bytes} (h : serializeTxOut errors out = .ok b) :
    b.length = out.size := by
  simp only [serializeTxOut, bind_eq_ok, pure_eq_ok] at h
  obtain ⟨size, hsize, rfl⟩ := h
  obtain ⟨-, rfl⟩ := encodeVarInt_eq_ok hsize
  simp only [List.length_append, encodeInt64LE, leBytes_length, PortTxOut.size, varIntSize]

theorem mapM_map {α β γ : Type} {f : α → Except String β} {g : β → γ} {g' : α → γ} {l : List α}
    (hf : ∀ a ∈ l, ∀ b, f a = .ok b → g b = g' a) {bs : List β} (h : l.mapM f = .ok bs) : bs.map g = l.map g' := by
  induction l generalizing bs with
  | nil =>
    obtain rfl : [] = bs := Except.ok.inj h
    rfl
  | cons a l ih =>
    obtain ⟨hhead, htail⟩ := List.forall_mem_cons.mp hf
    simp only [List.mapM_cons, bind_eq_ok, pure_eq_ok] at h
    obtain ⟨b, hb, bs, hbs, rfl⟩ := h
    rw [List.map_cons, List.map_cons, hhead b hb, ih htail hbs]

namespace UapJs

def Tx.size (tx : Tx) : ℕ :=
  8 + varIntSize tx.vin.length + (tx.vin.map TxIn.size).sum + varIntSize tx.vout.length + (tx.vout.map PortTxOut.size).sum

theorem serializeTx_length {tx : Tx} {raw : Bytes} (h : serializeTx tx = .ok raw) : raw.length = tx.size := by
  obtain ⟨nIns, ins, nOuts, outs, hnIns, hins, hnOuts, houts, rfl⟩ := serializeTx_parts h
  obtain ⟨-, rfl⟩ := encodeVarInt_eq_ok hnIns
  obtain ⟨-, rfl⟩ := encodeVarInt_eq_ok hnOuts
  have hinsLen : ins.flatten.length = (tx.vin.map TxIn.size).sum := by
    rw [List.length_flatten, mapM_map (fun _ _ _ => writeTxIn_length) hins]
  have houtsLen : outs.flatten.length = (tx.vout.map PortTxOut.size).sum := by
    rw [List.length_flatten, mapM_map (fun _ _ _ => serializeTxOut_length) houts]
  simp only [List.length_append, encodeUint32LE, leBytes_length, hinsLen, houtsLen, Tx.size, varIntSize]
  omega

theorem encodable_of_serializeTx {tx : Tx} {raw : Bytes} (h : serializeTx tx = .ok raw) : Encodable tx := by
  have hcount := countable_of_serializeTx h
  obtain ⟨nIns, ins, nOuts, outs, hnIns, hins, hnOuts, houts, rfl⟩ := serializeTx_parts h
  refine ⟨hcount.vin, fun vin hvin => ?_, hcount.vout, hcount.scriptPubKey⟩
  obtain ⟨w, hw⟩ := mapM_mem_ok hins hvin
  simp only [writeTxIn, serializeTxIn, bind_eq_ok] at hw
  obtain ⟨hash, hhash, -⟩ := hw
  exact ⟨hash, hhash⟩

def Tx.unsigned (tx : Tx) : Tx := { tx with vin := tx.vin.map fun vin => { vin with scriptSig := none } }

theorem unsigned_modify (tx : Tx) (i : ℕ) (scriptSig : Bytes) :
    Tx.unsigned { tx with vin := tx.vin.modify i fun vin => { vin with scriptSig := some scriptSig } } = tx.unsigned := by
  rw [Tx.unsigned, Tx.unsigned, Tx.mk.injEq]
  refine ⟨rfl, ?_, rfl, rfl⟩
  apply List.ext_getElem
  · simp
  · intro j hj hj'
    simp only [List.getElem_map, List.getElem_modify]
    split_ifs <;> rfl

theorem signatureHash_unsigned (crypto : Crypto) (code : Bytes) (tx : Tx) (nIn : ℕ) (hashType : UInt32) :
    signatureHash crypto code tx.unsigned nIn hashType = signatureHash crypto code tx nIn hashType := by
  have hlen : tx.unsigned.normalize.vin.length = tx.normalize.vin.length := by simp [Tx.unsigned, Tx.normalize]
  have hins : ∀ signed, signedInputs signed tx.unsigned.normalize nIn hashType =
      signedInputs signed tx.normalize nIn hashType := by
    intro signed
    unfold signedInputs
    dsimp only
    rw [hlen]
    congr 1
    funext i
    simp only [Tx.unsigned, Tx.normalize, List.getElem?_map, Option.map_map]
    rfl
  unfold signatureHash signaturePreimage Ports.signaturePreimage
  dsimp only
  rw [hlen, hins]
  rfl

theorem signatureHash_congr {crypto : Crypto} {code : Bytes} {tx tx' : Tx} (h : tx'.unsigned = tx.unsigned) (nIn : ℕ)
    (hashType : UInt32) : signatureHash crypto code tx' nIn hashType = signatureHash crypto code tx nIn hashType := by
  rw [← signatureHash_unsigned, h, signatureHash_unsigned]

theorem pushData_short {data : Bytes} (h : data.length < 0x4c) :
    pushData data = .ok ([UInt8.ofNat data.length] ++ data) := if_pos h

section
variable {crypto : Crypto} {secp secp' : Secp} {code privKey pubKey : Bytes} {tx tx' : Tx} {i : ℕ} {b : Bytes}

theorem pushSignature (hsecp : secp.Short) (hash : Uint256) (privKey : Bytes) :
    ∃ b, pushData (secp.signSync hash privKey ++ [(1 : UInt32).toUInt8]) = .ok b ∧
      b.length = (secp.signSync hash privKey).length + 2 := by
  have hshort := hsecp hash privKey
  refine ⟨_, pushData_short (by rw [List.length_append, List.length_singleton]; omega), ?_⟩
  simp only [List.length_append, List.length_singleton]
  omega

theorem signSpend_length (hsecp : secp.Short) (h : signSpend crypto secp code privKey tx i 1 = .ok b) :
    ∃ hash, b.length = (secp.signSync hash privKey).length + 2 := by
  rw [signSpend, bind_eq_ok] at h
  obtain ⟨hash, -, hpush⟩ := h
  obtain ⟨b', hb', hlen⟩ := pushSignature hsecp hash privKey
  obtain rfl := Except.ok.inj (hb'.symm.trans hpush)
  exact ⟨hash, hlen⟩

theorem signP2PKHInput_length (hsecp : secp.Short) (hkey : pubKey.length = 33)
    (h : signP2PKHInput crypto secp code privKey pubKey tx i 1 = .ok b) :
    ∃ hash, b.length = (secp.signSync hash privKey).length + 36 := by
  simp only [signP2PKHInput, bind_eq_ok, pure_eq_ok] at h
  obtain ⟨hash, -, signature, hsig, key, hpush, rfl⟩ := h
  obtain ⟨b', hb', hlen⟩ := pushSignature hsecp hash privKey
  obtain rfl := Except.ok.inj (hb'.symm.trans hsig)
  rw [pushData_short (by omega)] at hpush
  obtain rfl := Except.ok.inj hpush
  refine ⟨hash, ?_⟩
  simp only [List.length_append, List.length_singleton, hlen, hkey]

theorem signSpend_transfer (hsecp : secp'.Short) (htx : tx'.unsigned = tx.unsigned)
    (h : signSpend crypto secp code privKey tx i 1 = .ok b) : ∃ b', signSpend crypto secp' code privKey tx' i 1 = .ok b' := by
  rw [signSpend, bind_eq_ok] at h
  obtain ⟨hash, hhash, -⟩ := h
  obtain ⟨b', hb', -⟩ := pushSignature hsecp hash privKey
  exact ⟨b', by rw [signSpend, signatureHash_congr htx, hhash, ok_bind, hb']⟩

theorem signP2PKHInput_transfer (hsecp : secp'.Short) (htx : tx'.unsigned = tx.unsigned)
    (h : signP2PKHInput crypto secp code privKey pubKey tx i 1 = .ok b) :
    ∃ b', signP2PKHInput crypto secp' code privKey pubKey tx' i 1 = .ok b' := by
  simp only [signP2PKHInput, bind_eq_ok, pure_eq_ok] at h
  obtain ⟨hash, hhash, -, -, key, hkey, -⟩ := h
  obtain ⟨b', hb', -⟩ := pushSignature hsecp hash privKey
  exact ⟨b' ++ key, by rw [signP2PKHInput, signatureHash_congr htx, hhash, ok_bind, hb', ok_bind, hkey]; rfl⟩

theorem signInputs_transfer (hsecp : secp'.Short) {inputs : List PaymentInput} (htx : tx'.unsigned = tx.unsigned)
    {out : Tx} (h : signInputs crypto secp inputs i tx = .ok out) :
    ∃ out', signInputs crypto secp' inputs i tx' = .ok out' := by
  induction inputs generalizing i tx tx' with
  | nil => exact ⟨tx', rfl⟩
  | cons input inputs ih =>
    simp only [signInputs, bind_eq_ok] at h
    obtain ⟨b, hb, h⟩ := h
    obtain ⟨b', hb'⟩ := signP2PKHInput_transfer hsecp htx hb
    obtain ⟨out', hout'⟩ := ih (by rw [unsigned_modify tx' i b', unsigned_modify, htx]) h
    exact ⟨out', by rw [signInputs, hb', ok_bind, hout']⟩

theorem modify_append {α : Type} (done rest : List α) (a : α) (f : α → α) :
    (done ++ a :: rest).modify done.length f = done ++ f a :: rest := by
  induction done with
  | nil => rfl
  | cons d done ih => rw [List.cons_append, List.length_cons, List.modify_succ_cons, ih, List.cons_append]

theorem signInputs_vin {inputs : List PaymentInput} {done rest : List TxIn} (hlen : rest.length = inputs.length)
    (hvin : tx.vin = done ++ rest) (h : signInputs crypto secp inputs done.length tx = .ok tx') :
    ∃ signed, tx'.vin = done ++ signed ∧ signed.length = inputs.length ∧ ∀ vin ∈ signed, ∃ input ∈ inputs, ∃ tx j,
      signP2PKHInput crypto secp input.scriptCode input.privKey input.pubKey tx j 1 = .ok (vin.scriptSig.getD []) := by
  induction inputs generalizing done rest tx with
  | nil =>
    obtain rfl := Except.ok.inj h
    obtain rfl := List.length_eq_zero_iff.mp hlen
    exact ⟨[], hvin, rfl, by simp⟩
  | cons input inputs ih =>
    obtain ⟨vin, rest, rfl⟩ := List.exists_cons_of_length_eq_add_one hlen
    simp only [signInputs, bind_eq_ok] at h
    obtain ⟨b, hb, h⟩ := h
    have hpos : done.length + 1 = (done ++ [{ vin with scriptSig := some b }]).length := by simp
    rw [hvin, modify_append, hpos] at h
    obtain ⟨signed, hsigned, hcount, hscripts⟩ := ih (by simpa using hlen) (by simp) h
    refine ⟨{ vin with scriptSig := some b } :: signed, by simpa using hsigned, by simp [hcount], ?_⟩
    intro w hw
    rcases List.mem_cons.mp hw with rfl | hw
    · exact ⟨input, List.mem_cons_self, tx, done.length, hb⟩
    · obtain ⟨input', hinput', hrest⟩ := hscripts w hw
      exact ⟨input', List.mem_cons_of_mem _ hinput', hrest⟩

theorem signInputs_size (hsecp : secp.Short) {inputs : List PaymentInput}
    (hkeys : ∀ input ∈ inputs, input.privKey = privKey ∧ input.pubKey = pubKey) (hpub : pubKey.length = 33)
    (done : List TxIn) {rest : List TxIn} (hlen : rest.length = inputs.length) (hvin : tx.vin = done ++ rest)
    (h : signInputs crypto secp inputs done.length tx = .ok tx') :
    ∃ (signed : List TxIn) (sigs : List ℕ), tx'.vin = done ++ signed ∧ signed.length = inputs.length ∧
      sigs.length = inputs.length ∧ (∀ s ∈ sigs, ∃ hash, s = (secp.signSync hash privKey).length) ∧
      (signed.map TxIn.size).sum = 77 * inputs.length + sigs.sum := by
  obtain ⟨signed, hsigned, hcount, hscripts⟩ := signInputs_vin hlen hvin h
  have hsig : ∀ vin ∈ signed, ∃ hash, (vin.scriptSig.getD []).length = (secp.signSync hash privKey).length + 36 := by
    intro vin hmem
    obtain ⟨input, hinput, tx, j, hsign⟩ := hscripts vin hmem
    obtain ⟨hpriv, hkey⟩ := hkeys input hinput
    rw [hpriv, hkey] at hsign
    exact signP2PKHInput_length hsecp hpub hsign
  refine ⟨signed, signed.map fun vin => (vin.scriptSig.getD []).length - 36, hsigned, hcount, ?_, ?_, ?_⟩
  · rw [List.length_map, hcount]
  · intro s hs
    obtain ⟨vin, hmem, rfl⟩ := List.mem_map.mp hs
    obtain ⟨hash, hlength⟩ := hsig vin hmem
    exact ⟨hash, by omega⟩
  · have hsize : signed.map TxIn.size = signed.map fun vin => 77 + ((vin.scriptSig.getD []).length - 36) := by
      refine List.map_congr_left fun vin hmem => ?_
      obtain ⟨hash, hlength⟩ := hsig vin hmem
      have hshort := hsecp hash privKey
      rw [TxIn.size, varIntSize_small (by omega)]
      omega
    rw [hsize, List.sum_map_add, ← hcount]
    simp [mul_comm]

end

end UapJs

end Whippet.Ports
