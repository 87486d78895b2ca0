import Whippet.Ports.Payment
import Whippet.Ports.TxCodec

/-! What coin selection and signing do: the selection is the shortest run of the cheapest coins that covers the amount
and its fee, and signing changes nothing but the input scripts. -/
namespace Whippet.Ports.UapJs
open Lib Primitives

def totalValue (inputs : List PaymentInput) : ℤ := (inputs.map (·.value)).sum

@[simp] theorem totalValue_nil : totalValue [] = 0 := rfl

@[simp] theorem totalValue_append (a b : List PaymentInput) : totalValue (a ++ b) = totalValue a + totalValue b := by
  simp [totalValue]

@[simp] theorem totalValue_singleton (a : PaymentInput) : totalValue [a] = a.value := by simp [totalValue]

variable {inputs : List PaymentInput}

theorem totalValue_nonneg (h : ∀ a ∈ inputs, 0 ≤ a.value) : 0 ≤ totalValue inputs := by
  refine List.sum_nonneg fun v hv => ?_
  obtain ⟨a, ha, rfl⟩ := List.mem_map.mp hv
  exact h a ha

/-- The inputs cover the amount and the fee that their number asks for. -/
def Target.Enough (target : Target) (inputs : List PaymentInput) : Prop :=
  target.amount + target.fee inputs.length (totalValue inputs) ≤ totalValue inputs

instance (target : Target) (inputs : List PaymentInput) : Decidable (target.Enough inputs) :=
  inferInstanceAs (Decidable (_ ≤ _))

def Target.chosen (target : Target) (inputs : List PaymentInput) : Selection :=
  let fee := target.fee inputs.length (totalValue inputs)
  ⟨inputs, totalValue inputs, totalValue inputs - target.amount - fee, fee⟩

/-- Amounts that doubles add up exactly. -/
structure SafeInputs (inputs : List PaymentInput) : Prop where
  nonneg : ∀ a ∈ inputs, 0 ≤ a.value
  total_lt : totalValue inputs < 2 ^ 53

theorem fee_pos (size : ℕ) (feeRate : ℚ) : recommendedMinTxFee ≤ feeFor size feeRate := le_max_right _ _

theorem feeFor_eq {size : ℕ} {k : ℤ} (hk : 0 < k) (hsize : 0 < size) (hlt : k * size < 2 ^ 53) :
    feeFor size k = max ⌈((k * size : ℤ) : ℚ) / 1000⌉ recommendedMinTxFee := by
  have hpos : 0 < k * size := by positivity
  have hexact : toDouble (size * (k : ℚ)) = ((k * size : ℤ) : ℚ) := by
    rw [show (size : ℚ) * k = ((k * size : ℤ) : ℚ) by push_cast; ring]
    exact toDouble_intCast (by rw [abs_of_pos hpos]; exact hlt)
  rw [feeFor, hexact]
  congr 1
  exact_mod_cast ceil_toDouble_div hpos hlt (show 0 < 1000 by omega)

theorem ceil_div_thousand (n : ℤ) : ⌈(n : ℚ) / 1000⌉ = (n + 999) / 1000 := by
  have h : ⌈(n : ℚ) / (1000 : ℕ)⌉ = -(-n / (1000 : ℕ)) := Rat.ceil_intCast_div_natCast n 1000
  push_cast at h
  rw [h]
  omega

theorem Target.fee_pos (target : Target) (n : ℕ) (total : ℤ) : recommendedMinTxFee ≤ target.fee n total :=
  UapJs.fee_pos _ _

section
variable {target : Target}

theorem selectLoop_cons (hamount : 0 ≤ target.amount) {selected sorted : List PaymentInput} {input : PaymentInput}
    (hsafe : SafeInputs (selected ++ input :: sorted)) :
    selectLoop target selected (totalValue selected) (input :: sorted) =
      if target.Enough (selected ++ [input]) then .ok (target.chosen (selected ++ [input]))
      else selectLoop target (selected ++ [input]) (totalValue (selected ++ [input])) sorted := by
  have hsplit : totalValue (selected ++ input :: sorted) = totalValue selected + input.value + totalValue sorted := by
    simp [totalValue, add_assoc]
  have hselected : 0 ≤ totalValue selected := totalValue_nonneg fun a ha => hsafe.nonneg a (by simp [ha])
  have hinput : 0 ≤ input.value := hsafe.nonneg input (by simp)
  have hsorted : 0 ≤ totalValue sorted := totalValue_nonneg fun a ha => hsafe.nonneg a (by simp [ha])
  have hlt := hsafe.total_lt
  have htotal : intToDouble (totalValue selected + input.value) = totalValue (selected ++ [input]) := by
    rw [intToDouble_of_lt (by omega), totalValue_append, totalValue_singleton]
  have hnonneg : 0 ≤ totalValue (selected ++ [input]) := by simp; omega
  have hsmall : totalValue (selected ++ [input]) < 2 ^ 53 := by simp; omega
  rw [selectLoop]
  simp only [htotal, ge_iff_le, intToDouble_le hnonneg hsmall]
  by_cases henough : target.Enough (selected ++ [input])
  · have hfee := target.fee_pos (selected ++ [input]).length (totalValue (selected ++ [input]))
    have hle : target.amount + target.fee (selected ++ [input]).length (totalValue (selected ++ [input])) ≤
      totalValue (selected ++ [input]) := henough
    have hpos : 0 < recommendedMinTxFee := by decide
    rw [if_pos hle, if_pos henough, intToDouble_of_lt (n := totalValue (selected ++ [input]) - target.amount) (by omega),
      intToDouble_of_lt (by omega)]
    rfl
  · rw [if_neg henough]
    exact if_neg henough

theorem selectLoop_cases (hamount : 0 ≤ target.amount) (selected : List PaymentInput) {sorted : List PaymentInput}
    (hsafe : SafeInputs (selected ++ sorted)) :
    (∃ more, more <+: sorted ∧ more ≠ [] ∧ target.Enough (selected ++ more) ∧
      (∀ p, p <+: more → p ≠ [] → target.Enough (selected ++ p) → p = more) ∧
      selectLoop target selected (totalValue selected) sorted = .ok (target.chosen (selected ++ more))) ∨
    ((∀ p, p <+: sorted → p ≠ [] → ¬ target.Enough (selected ++ p)) ∧
      ∃ e, selectLoop target selected (totalValue selected) sorted = .error e) := by
  induction sorted generalizing selected with
  | nil => exact .inr ⟨fun p hp hne => absurd (List.prefix_nil.mp hp) hne, _, rfl⟩
  | cons input sorted ih =>
    rw [selectLoop_cons hamount hsafe]
    by_cases henough : target.Enough (selected ++ [input])
    · refine .inl ⟨[input], by simp, by simp, henough, ?_, if_pos henough⟩
      intro p hp hne _
      obtain ⟨rest, hrest⟩ := hp
      cases p with
      | nil => exact absurd rfl hne
      | cons a p => simp_all
    · rw [if_neg henough]
      have hsafe' : SafeInputs (selected ++ [input] ++ sorted) := by simpa using hsafe
      rcases ih _ hsafe' with ⟨more, hmore, hne, hcovers, hfirst, hrun⟩ | ⟨hnone, hrun⟩
      · refine .inl ⟨input :: more, by simpa using hmore, by simp, by simpa using hcovers, ?_, by simpa using hrun⟩
        intro p hp hpne hpenough
        obtain ⟨a, p, rfl⟩ := List.exists_cons_of_ne_nil hpne
        obtain ⟨rfl, hpre⟩ := List.cons_prefix_cons.mp hp
        rcases eq_or_ne p [] with rfl | hp0
        · exact absurd hpenough henough
        · rw [hfirst p hpre hp0 (by simpa using hpenough)]
      · refine .inr ⟨fun p hp hpne hpenough => ?_, hrun⟩
        obtain ⟨a, p, rfl⟩ := List.exists_cons_of_ne_nil hpne
        obtain ⟨rfl, hpre⟩ := List.cons_prefix_cons.mp hp
        rcases eq_or_ne p [] with rfl | hp0
        · exact henough hpenough
        · exact hnone p hpre hp0 (by simpa using hpenough)

end

theorem sortInputs_perm (inputs : List PaymentInput) : (sortInputs inputs).Perm inputs := List.perm_insertionSort _ _

theorem SafeInputs.sort (h : SafeInputs inputs) : SafeInputs (sortInputs inputs) := by
  have hperm := sortInputs_perm inputs
  refine ⟨fun a ha => h.nonneg a (hperm.mem_iff.mp ha), ?_⟩
  rw [totalValue, (hperm.map _).sum_eq]
  exact h.total_lt

theorem SafeInputs.total_lt_of_run {s : List PaymentInput} (h : SafeInputs inputs) (hs : s <+: inputs) :
    totalValue s < 2 ^ 53 := by
  obtain ⟨rest, rfl⟩ := hs
  have hrest : 0 ≤ totalValue rest := totalValue_nonneg fun a ha => h.nonneg a (List.mem_append_right s ha)
  have hlt := h.total_lt
  rw [totalValue_append] at hlt
  omega

theorem selectCoins_cases (target : Target) (hamount : 0 ≤ target.amount)
    (hsafe : SafeInputs inputs) :
    (∃ s, s <+: sortInputs inputs ∧ s ≠ [] ∧ target.Enough s ∧ (∀ p, p <+: s → p ≠ [] → target.Enough p → p = s) ∧
      selectCoins inputs target = .ok (target.chosen s)) ∨
    ((∀ p, p <+: sortInputs inputs → p ≠ [] → ¬ target.Enough p) ∧ ∃ e, selectCoins inputs target = .error e) :=
  selectLoop_cases hamount [] hsafe.sort

def TxIn.outpoint (vin : TxIn) : List Char × ℤ := (vin.txid, vin.vout)

theorem map_outpoint_modify (vins : List TxIn) (i : ℕ) (scriptSig : Bytes) :
    (vins.modify i fun vin => { vin with scriptSig := some scriptSig }).map TxIn.outpoint = vins.map TxIn.outpoint := by
  apply List.ext_getElem
  · simp
  · intro j hj hj'
    simp only [List.getElem_map, List.getElem_modify]
    split_ifs <;> rfl

variable {tx tx' : Tx} {secp : Secp} {i : ℕ} {crypto : Crypto}

theorem signInputs_frame (h : signInputs crypto secp inputs i tx = .ok tx') :
    tx'.vout = tx.vout ∧ tx'.vin.map TxIn.outpoint = tx.vin.map TxIn.outpoint := by
  induction inputs generalizing i tx with
  | nil =>
    obtain rfl := Except.ok.inj h
    exact ⟨rfl, rfl⟩
  | cons input inputs ih =>
    simp only [signInputs, bind_eq_ok] at h
    obtain ⟨scriptSig, -, h⟩ := h
    obtain ⟨hvout, hvin⟩ := ih h
    exact ⟨hvout, hvin.trans (map_outpoint_modify _ _ _)⟩

theorem signInputs_length_le (bound : ℕ) (hsign : ∀ input ∈ inputs, ∀ tx i b,
      signP2PKHInput crypto secp input.scriptCode input.privKey input.pubKey tx i 1 = .ok b → b.length ≤ bound)
    (htx : ∀ vin ∈ tx.vin, (vin.scriptSig.getD []).length ≤ bound) (h : signInputs crypto secp inputs i tx = .ok tx') :
    ∀ vin ∈ tx'.vin, (vin.scriptSig.getD []).length ≤ bound := by
  induction inputs generalizing i tx with
  | nil =>
    obtain rfl := Except.ok.inj h
    exact htx
  | cons input inputs ih =>
    obtain ⟨hhead, htail⟩ := List.forall_mem_cons.mp hsign
    simp only [signInputs, bind_eq_ok] at h
    obtain ⟨scriptSig, hsig, h⟩ := h
    refine ih htail ?_ h
    intro vin hvin
    obtain ⟨j, hj, rfl⟩ := List.getElem_of_mem hvin
    dsimp only at hj ⊢
    rw [List.getElem_modify]
    split_ifs
    · exact hhead _ _ _ hsig
    · exact htx _ (List.getElem_mem _)

/-- A transaction whose parts have the sizes that the serializer writes. -/
structure Encodable (tx : Tx) : Prop where
  vin_lt : tx.vin.length < 2 ^ 32
  txid : ∀ vin ∈ tx.vin, ∃ hash, txidBytes errors vin.txid = .ok hash
  vout_lt : tx.vout.length < 2 ^ 32
  script_lt : ∀ out ∈ tx.vout, out.scriptPubKey.length < 2 ^ 32

theorem serializeTxIn_isOk {vin : PortTxIn} {hash : Bytes} (htxid : txidBytes errors vin.txid = .ok hash)
    (hlen : vin.scriptSigLength.getD vin.scriptSig.length < 2 ^ 32) : ∃ b, serializeTxIn errors vin = .ok b :=
  ⟨_, by rw [serializeTxIn, htxid, ok_bind, encodeVarInt_eq errors hlen]; rfl⟩

theorem serializeTxOut_isOk {out : PortTxOut} (hlen : out.scriptPubKey.length < 2 ^ 32) :
    ∃ b, serializeTxOut errors out = .ok b :=
  ⟨_, by rw [serializeTxOut, encodeVarInt_eq errors hlen]; rfl⟩

theorem serializeTx_isOk {tx : PortTx} (hvin : tx.vin.length < 2 ^ 32) (hvout : tx.vout.length < 2 ^ 32)
    (hins : ∀ vin ∈ tx.vin, ∃ b, serializeTxIn errors vin = .ok b)
    (houts : ∀ out ∈ tx.vout, out.scriptPubKey.length < 2 ^ 32) : ∃ b, Ports.serializeTx errors tx = .ok b := by
  obtain ⟨ins, hins⟩ := mapM_exists_ok hins
  obtain ⟨outs, houts⟩ := mapM_exists_ok fun out hout => serializeTxOut_isOk (houts out hout)
  exact ⟨_, by rw [Ports.serializeTx, encodeVarInt_eq errors hvin, ok_bind, hins, ok_bind, encodeVarInt_eq errors hvout,
    ok_bind, houts]; rfl⟩

theorem signatureHash_isOk (crypto : Crypto) {code : Bytes} (hcode : code.length < 2 ^ 32) (htx : Encodable tx)
    (nIn : ℕ) : ∃ hash, signatureHash crypto code tx nIn 1 = .ok hash := by
  suffices h : ∃ preimage, signaturePreimage code tx nIn 1 = .ok preimage by
    obtain ⟨preimage, h⟩ := h
    exact ⟨_, by rw [signatureHash, h]; rfl⟩
  unfold signaturePreimage Ports.signaturePreimage
  split_ifs with hin hsingle
  · exact ⟨none, rfl⟩
  · exact ⟨none, rfl⟩
  · have hacp : ((1 : UInt32) &&& 0x80 != 0) = false := by decide
    have hlen : (signedInputs (serializeScriptCode code) tx.normalize nIn 1).length < 2 ^ 32 := by
      refine lt_of_le_of_lt (List.length_filterMap_le _ _) ?_
      simpa [hacp, Tx.normalize] using htx.vin_lt
    have hins : ∀ vin ∈ signedInputs (serializeScriptCode code) tx.normalize nIn 1,
        ∃ b, serializeTxIn errors vin = .ok b := by
      intro vin hvin
      obtain ⟨i, -, hi⟩ := List.mem_filterMap.mp hvin
      obtain ⟨v, hv, rfl⟩ := Option.map_eq_some_iff.mp hi
      obtain ⟨w, hw, rfl⟩ := List.mem_map.mp (List.mem_of_getElem? hv)
      obtain ⟨hash, hhash⟩ := htx.txid w hw
      refine serializeTxIn_isOk hhash ?_
      dsimp only
      split_ifs
      · simp only [Option.getD_some, serializeScriptCode]
        omega
      · simp
    have houts : signedOutputs tx.normalize nIn 1 = tx.vout := rfl
    have hserialized : ∃ b, Ports.serializeTx errors ⟨tx.normalize.version,
        signedInputs (serializeScriptCode code) tx.normalize nIn 1, tx.vout, tx.normalize.locktime⟩ = .ok b :=
      serializeTx_isOk hlen htx.vout_lt hins htx.script_lt
    obtain ⟨b, hb⟩ := hserialized
    exact ⟨_, by simp only [houts, hb, ok_bind]; rfl⟩

theorem Encodable.congr (h : Encodable tx) (hvout : tx'.vout = tx.vout)
    (hvin : tx'.vin.map TxIn.outpoint = tx.vin.map TxIn.outpoint) : Encodable tx' := by
  have hlen : tx'.vin.length = tx.vin.length := by simpa using congrArg List.length hvin
  refine ⟨hlen ▸ h.vin_lt, ?_, hvout ▸ h.vout_lt, hvout ▸ h.script_lt⟩
  intro vin hmem
  have houtpoint : vin.outpoint ∈ tx.vin.map TxIn.outpoint := hvin ▸ List.mem_map_of_mem hmem
  obtain ⟨w, hw, heq⟩ := List.mem_map.mp houtpoint
  have htxid : w.txid = vin.txid := congrArg Prod.fst heq
  exact htxid ▸ h.txid w hw

theorem pushData_isOk (data : Bytes) (h : data.length ≤ 0xffff) :
    ∃ b, pushData data = .ok b ∧ b.length ≤ data.length + 3 := by
  unfold pushData
  split_ifs
  · exact ⟨_, rfl, by simp⟩
  · exact ⟨_, rfl, by simp⟩
  · exact ⟨_, rfl, by simp⟩

theorem pushMultiplier_isOk {m : ℤ} (h0 : 0 ≤ m) (h1 : m ≤ 2147483647) :
    ∃ b, pushMultiplier m = .ok b ∧ 1 ≤ b.length ∧ b.length ≤ 5 := by
  unfold pushMultiplier
  rw [if_neg (by omega)]
  split_ifs
  · exact ⟨_, rfl, by simp, by simp⟩
  · exact ⟨_, rfl, by simp, by simp⟩
  · have hlen := Script.serialize_length_le (show m.natAbs < 2 ^ 31 by omega)
    rw [scriptNumBytes_eq, pushData, if_pos (by omega)]
    exact ⟨_, rfl, by simp, by simp; omega⟩

theorem buildMintScript_isOk {pubkey : Bytes} (hkey : pubkey.length = 33 ∨ pubkey.length = 65) {m : ℤ} (h0 : 0 ≤ m)
    (h1 : m ≤ 2147483647) : ∃ script, buildMintScript pubkey m = .ok script ∧ script.length ≤ 74 := by
  obtain ⟨key, hpush, hlen⟩ := pushData_isOk pubkey (by omega)
  obtain ⟨mult, hmult, -, hmultLen⟩ := pushMultiplier_isOk h0 h1
  refine ⟨_, by rw [buildMintScript, hpush, ok_bind, hmult]; rfl, ?_⟩
  simp only [List.length_append, List.length_singleton]
  omega

/-- The signatures of the module fit in the space that the estimates leave for one. -/
def Secp.Short (secp : Secp) : Prop := ∀ hash privKey, (secp.signSync hash privKey).length ≤ 72

theorem signP2PKHInput_length_le (hsecp : secp.Short) {code privKey pubKey : Bytes}
    (hkey : pubKey.length ≤ 65) {b : Bytes}
    (h : signP2PKHInput crypto secp code privKey pubKey tx i 1 = .ok b) : b.length ≤ 144 := by
  simp only [signP2PKHInput, bind_eq_ok, pure_eq_ok] at h
  obtain ⟨hash, -, signature, hsig, key, hpush, rfl⟩ := h
  have hshort := hsecp hash privKey
  obtain ⟨b, hb, hlen⟩ := pushData_isOk (secp.signSync hash privKey ++ [(1 : UInt32).toUInt8]) (by simp; omega)
  obtain ⟨k, hk, hklen⟩ := pushData_isOk pubKey (by omega)
  obtain rfl := Except.ok.inj (hb.symm.trans hsig)
  obtain rfl := Except.ok.inj (hk.symm.trans hpush)
  simp only [List.length_append, List.length_singleton] at hlen ⊢
  omega

theorem signInputs_isOk (crypto : Crypto) (hsecp : secp.Short)
    (hinputs : ∀ input ∈ inputs, input.scriptCode.length < 2 ^ 32 ∧ input.pubKey.length ≤ 65)
    (htx : Encodable tx) : ∃ tx', signInputs crypto secp inputs i tx = .ok tx' := by
  induction inputs generalizing i tx with
  | nil => exact ⟨tx, rfl⟩
  | cons input inputs ih =>
    obtain ⟨⟨hcode, hkey⟩, htail⟩ := List.forall_mem_cons.mp hinputs
    obtain ⟨hash, hhash⟩ := signatureHash_isOk crypto hcode htx i
    have hshort := hsecp hash input.privKey
    obtain ⟨signature, hsig, -⟩ :=
      pushData_isOk (secp.signSync hash input.privKey ++ [(1 : UInt32).toUInt8]) (by simp; omega)
    obtain ⟨key, hpush, -⟩ := pushData_isOk input.pubKey (by omega)
    have hsign : signP2PKHInput crypto secp input.scriptCode input.privKey input.pubKey tx i 1 = .ok (signature ++ key) := by
      rw [signP2PKHInput, hhash, ok_bind, hsig, ok_bind, hpush]
      rfl
    have hnext : Encodable
        { tx with vin := tx.vin.modify i fun vin => { vin with scriptSig := some (signature ++ key) } } :=
      htx.congr rfl (map_outpoint_modify _ _ _)
    obtain ⟨tx', h⟩ := ih htail (i := i + 1) hnext
    exact ⟨tx', by rw [signInputs, hsign, ok_bind, h]⟩

theorem serializeTx_signed (htx : Encodable tx) (hsig : ∀ vin ∈ tx.vin, (vin.scriptSig.getD []).length < 2 ^ 32) :
    ∃ b, serializeTx tx = .ok b := by
  refine serializeTx_isOk (by simpa [Tx.normalize] using htx.vin_lt) htx.vout_lt ?_ htx.script_lt
  intro vin hvin
  obtain ⟨w, hw, rfl⟩ := List.mem_map.mp hvin
  obtain ⟨hash, hhash⟩ := htx.txid w hw
  exact serializeTxIn_isOk hhash (hsig w hw)

end Whippet.Ports.UapJs
