import Whippet.Web.Transfer

/-! What a plan of `planTransfer` says: the checks it passed, and the funding it selected. -/
namespace Whippet.Web
open Lib Primitives Ports
open Indexer (Text)
open Ports.UapJs (feeFor defaultDustLimit defaultHardDustLimit)

theorem normalizePubKey_length {isPoint : Bytes → Bool} {value : ByteField} {key : Bytes}
    (h : normalizePubKey isPoint value = some key) :
    value.bytes? = some key ∧ (key.length = 33 ∨ key.length = 65) := by
  obtain ⟨hbytes, hshape⟩ := Option.filter_eq_some_iff.mp h
  simp only [decide_eq_true_eq] at hshape
  exact ⟨hbytes, by tauto⟩

/-- A selection of funding inputs: enough for its fee, and the rest is change or more fee. -/
structure FundingSpec (feeRate : ℚ) (nCovenantOutputs : ℕ) (funding : Funding) : Prop where
  nonempty : funding.selected ≠ []
  total : funding.total = sumDouble (funding.selected.map (·.value))
  enough : transferFee feeRate nCovenantOutputs funding.selected.length ≤ funding.total
  rest : (funding.change = 0 ∧ funding.fee = funding.total) ∨
    (defaultDustLimit ≤ funding.change ∧ funding.fee = transferFee feeRate nCovenantOutputs funding.selected.length ∧
      funding.change = intToDouble (funding.total - funding.fee))

theorem sumDouble_concat (values : List ℤ) (value : ℤ) :
    sumDouble (values ++ [value]) = intToDouble (sumDouble values + value) := by
  simp [sumDouble]

theorem fundingLoop_eq_ok {feeRate : ℚ} {nCovenantOutputs : ℕ} (selected : List Utxo) {sorted : List Utxo} {funding : Funding}
    (h : fundingLoop feeRate nCovenantOutputs selected (sumDouble (selected.map (·.value))) sorted = .ok funding) :
    (∀ u ∈ funding.selected, u ∈ selected ∨ u ∈ sorted) ∧ FundingSpec feeRate nCovenantOutputs funding := by
  induction sorted generalizing selected with
  | nil => cases h
  | cons utxo sorted ih =>
    have htotal : intToDouble (sumDouble (selected.map (·.value)) + utxo.value) =
        sumDouble ((selected ++ [utxo]).map (·.value)) := by
      rw [List.map_append, List.map_singleton, sumDouble_concat]
    have hstep : ∀ u ∈ selected ++ [utxo], u ∈ selected ∨ u ∈ utxo :: sorted := by
      intro u hu
      rw [List.mem_append, List.mem_singleton] at hu
      rcases hu with hu | rfl
      · exact .inl hu
      · exact .inr List.mem_cons_self
    rw [fundingLoop] at h
    dsimp only at h
    rw [htotal] at h
    split_ifs at h with henough hdust
    · obtain rfl := Except.ok.inj h
      exact ⟨hstep, by simp, rfl, henough, .inl ⟨rfl, rfl⟩⟩
    · obtain rfl := Except.ok.inj h
      exact ⟨hstep, by simp, rfl, henough, .inr ⟨not_lt.mp hdust, rfl, rfl⟩⟩
    · obtain ⟨hmem, hspec⟩ := ih _ h
      refine ⟨fun u hu => ?_, hspec⟩
      rcases hmem u hu with hu | hu
      · exact hstep u hu
      · exact .inr (List.mem_cons_of_mem _ hu)

theorem selectFunding_eq_ok {fundingUtxos : List (Option Utxo)} {feeRate : ℚ} {nCovenantOutputs : ℕ} {funding : Funding}
    (h : selectFunding fundingUtxos feeRate nCovenantOutputs = .ok funding) :
    (∀ u ∈ funding.selected, some u ∈ fundingUtxos ∧ 0 < u.value) ∧ FundingSpec feeRate nCovenantOutputs funding := by
  unfold selectFunding at h
  dsimp only at h
  split_ifs at h
  obtain ⟨hmem, hspec⟩ := fundingLoop_eq_ok [] h
  refine ⟨fun u hu => ?_, hspec⟩
  have hsorted := (hmem u hu).resolve_left (by simp)
  rw [List.mem_insertionSort, List.mem_filter, List.mem_filterMap] at hsorted
  obtain ⟨⟨o, ho, rfl⟩, hpos⟩ := hsorted
  exact ⟨ho, of_decide_eq_true hpos⟩

structure Checked (crypto : Crypto) (isPoint : Bytes → Bool) (input : TransferInput) (p : PositionRecord)
    (own toKey : Bytes) (m v a : ℤ) (r : ℚ) : Prop where
  position : input.position = some p
  txid : p.txid.length = 64
  vout : ∃ n, p.vout = some n ∧ 0 ≤ n
  value : p.value = some v
  value_pos : 0 < v
  value_le : v ≤ maxSafeSats
  multiplier : p.multiplier = some m
  multiplier_nonneg : 0 ≤ m
  multiplier_le : m ≤ maxMultiplier
  owner : p.pubkey.bytes? = some own
  own_length : own.length = 33 ∨ own.length = 65
  to_bytes : input.toPubKey.bytes? = some toKey
  to_length : toKey.length = 33 ∨ toKey.length = 65
  script : p.scriptHex.given = true →
    ∃ script, validatePositionScript p.scriptHex (some own) (some m) p.isMint = .ok script
  amount : input.amountSats = some a
  amount_min : defaultHardDustLimit ≤ a
  amount_le : a ≤ v
  remainder : v - a = 0 ∨ defaultHardDustLimit ≤ v - a
  rate : input.feeRate = some r
  rate_pos : 0 < r

theorem of_ite_eq_nil {c : Prop} [Decidable c] {e : FieldError} (h : (if c then [] else [e]) = []) : c := by
  by_contra hc
  rw [if_neg hc] at h
  cases h

theorem not_of_ite_eq_nil {c : Prop} [Decidable c] {e : FieldError} (h : (if c then [e] else []) = []) : ¬ c := by
  intro hc
  rw [if_pos hc] at h
  cases h

theorem PositionRecord.scriptErrors_eq_nil {isPoint : Bytes → Bool} {p : PositionRecord} {own : Bytes} {m : ℤ}
    (howner : p.owner? isPoint = some own) (hmult : p.multiplier? = some m) (h : p.scriptErrors isPoint = []) :
    p.scriptHex.given = true → ∃ script, validatePositionScript p.scriptHex (some own) (some m) p.isMint = .ok script := by
  intro hgiven
  simp only [PositionRecord.scriptErrors, hgiven, Bool.not_true, Bool.false_eq_true, if_false, howner, hmult] at h
  cases hvalid : validatePositionScript p.scriptHex (some own) (some m) p.isMint with
  | error message => simp [hvalid] at h
  | ok script => exact ⟨script, rfl⟩

theorem splitErrors_eq_nil {a v : ℤ} (h0 : 0 < a) (hv : v ≤ maxSafeSats) (h : TransferInput.splitErrors a v = []) :
    a ≤ v ∧ defaultHardDustLimit ≤ a ∧ (v - a = 0 ∨ defaultHardDustLimit ≤ v - a) := by
  have hmax : maxSafeSats = 2 ^ 53 - 1 := rfl
  have hle : ¬ a > v := by
    intro hgt
    rw [TransferInput.splitErrors, if_pos hgt] at h
    cases h
  rw [TransferInput.splitErrors, if_neg hle, intToDouble_of_lt (n := v - a) (by omega), List.append_eq_nil_iff] at h
  have hmin := not_of_ite_eq_nil h.1
  have hdust := not_of_ite_eq_nil h.2
  exact ⟨by omega, by omega, by omega⟩

theorem planTransfer_eq_ok {crypto : Crypto} {isPoint : Bytes → Bool} {input : TransferInput} {plan : TransferPlan}
    (h : planTransfer crypto isPoint input = .ok plan) : ∃ p own toKey m v a r funding,
      Checked crypto isPoint input p own toKey m v a r ∧
      selectFunding input.fundingUtxos r (if v - a > 0 then 2 else 1) = .ok funding ∧
      plan = transferPlan p own toKey m v a r funding := by
  unfold planTransfer at h
  split at h
  swap
  · cases h
  rename_i p v m own toKey a r herrors hp hv hm hown hto ha hr
  rw [hp, Option.bind_some] at hv hm
  simp only [TransferInput.errors, List.append_eq_nil_iff] at herrors
  obtain ⟨⟨⟨⟨⟨hposition, hownership⟩, -⟩, -⟩, hamount⟩, hfunding⟩ := herrors
  simp only [TransferInput.positionErrors, hp, PositionRecord.errors, List.append_eq_nil_iff] at hposition
  obtain ⟨⟨⟨⟨⟨⟨htxid, hvout⟩, -⟩, -⟩, -⟩, howner⟩, hscript⟩ := hposition
  obtain ⟨hvalue, hvalueRange⟩ := Option.filter_eq_some_iff.mp hv
  obtain ⟨hmult, hmultRange⟩ := Option.filter_eq_some_iff.mp hm
  simp only [decide_eq_true_eq] at hvalueRange hmultRange
  obtain ⟨-, hownLength⟩ := normalizePubKey_length hown
  obtain ⟨htoBytes, htoLength⟩ := normalizePubKey_length hto
  -- The position is addressed to the wallet's own key.
  obtain ⟨o, ho⟩ : ∃ o, p.owner? isPoint = some o := by
    unfold PositionRecord.ownerErrors at howner
    unfold PositionRecord.owner?
    split_ifs at howner with hgiven hnone
    rw [if_pos (by simpa using hgiven)]
    exact Option.ne_none_iff_exists'.mp (by simpa using hnone)
  obtain rfl : o = own := by
    simp only [TransferInput.ownershipErrors, hown, hp, Option.bind_some, ho, Option.any_some] at hownership
    split_ifs at hownership with hne
    simpa using hne
  have hownBytes : p.pubkey.bytes? = some o := by
    unfold PositionRecord.owner? at ho
    split_ifs at ho
    exact (normalizePubKey_length ho).1
  have ha0 : 0 < a := by
    simp only [TransferInput.amountErrors, ha] at hamount
    split_ifs at hamount
    omega
  have hsplit : TransferInput.splitErrors a v = [] := by
    simp only [TransferInput.amountErrors, ha, hp, Option.bind_some, hv] at hamount
    split_ifs at hamount
    exact hamount
  obtain ⟨hle, hmin, hrest⟩ := splitErrors_eq_nil ha0 hvalueRange.2 hsplit
  have hmax : maxSafeSats = 2 ^ 53 - 1 := rfl
  dsimp only at h
  rw [intToDouble_of_lt (n := v - a) (by omega)] at h
  obtain ⟨n, hn, hn0⟩ : ∃ n, p.vout = some n ∧ 0 ≤ n := by
    have := of_ite_eq_nil hvout
    rw [Option.any_eq_true] at this
    obtain ⟨n, hn, hn0⟩ := this
    exact ⟨n, hn, of_decide_eq_true hn0⟩
  have hrate : 0 < r := by
    rw [TransferInput.fundingErrors, List.append_eq_nil_iff, hr] at hfunding
    simpa using of_ite_eq_nil hfunding.1
  cases hsel : selectFunding input.fundingUtxos r (if v - a > 0 then 2 else 1) with
  | error message =>
    rw [hsel] at h
    cases h
  | ok funding =>
    rw [hsel] at h
    exact ⟨p, o, toKey, m, v, a, r, funding, ⟨hp, (of_ite_eq_nil htxid).2, ⟨n, hn, hn0⟩, hvalue, hvalueRange.1,
      hvalueRange.2, hmult, hmultRange.1, hmultRange.2, hownBytes, hownLength, htoBytes, htoLength,
      PositionRecord.scriptErrors_eq_nil ho hm hscript, ha, hmin, hle, hrest, hr, hrate⟩, hsel, (Except.ok.inj h).symm⟩

end Whippet.Web
