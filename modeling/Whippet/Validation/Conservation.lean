import Whippet.Validation.UapTx

/-! Conservation of every lineage by a transaction whose scripts and created outputs are accepted. -/
namespace Whippet.Validation
open Lib Primitives Script

section
variable {crypto : Crypto} {view : CCoinsView} {tx : CTransaction}

theorem parse_null : parseUapOutputScript? CTxOut.null.scriptPubKey = none := by decide

variable {f : UapOutput}

theorem wellFormed_of_parse {script : Bytes} (h : parseUapOutputScript? script = some f) :
    f.WellFormed := (parseUapOutputScript?_eq_some.mp h).1

theorem getInt_of_parse {script : Bytes} (h : parseUapOutputScript? script = some f) :
    getInt f.multiplier = f.multiplier :=
  getInt_multiplier (wellFormed_of_parse h).multiplier_nonneg (wellFormed_of_parse h).multiplier_le

theorem uapInput?_eq (txin : CTxIn) :
    uapInput? view txin = (parseUapOutputScript? (prevOutput view txin).scriptPubKey).map fun f =>
      ⟨txin.prevout, f, (prevOutput view txin).nValue.toInt⟩ := by
  unfold uapInput? prevOutput
  cases hout : view.output? txin.prevout with
  | none => simp [parse_null]
  | some out => cases hf : parseUapOutputScript? out.scriptPubKey <;> simp [hf]

def positionsOf (crypto : Crypto) (view : CCoinsView) (vin : List CTxIn) : List (UapLineage × ℤ) :=
  (vin.filterMap (uapInput? view)).map fun i => (i.lineage crypto, i.value)

theorem positionsOf_concat (vin : List CTxIn) (txin : CTxIn) :
    positionsOf crypto view (vin ++ [txin]) =
      positionsOf crypto view vin ++ ((uapInput? view txin).map fun i => (i.lineage crypto, i.value)).toList := by
  unfold positionsOf
  cases h : uapInput? view txin <;> simp [h]

variable {i nIn : ℕ} {amount : Int64} {key : UapLineage} {txin : CTxIn}

theorem tallyInput_eq_ok {t t' : InputTally} (hi : tx.vin[i]? = some txin)
    (h : tallyInput crypto (scriptChecker view tx nIn amount) key.1 key.2 t i = .ok t') :
    (∀ k, k ∈ t'.setInputLineages ↔
      k ∈ t.setInputLineages ∨ ∃ inp, uapInput? view txin = some inp ∧ k = inp.lineage crypto) ∧
    t'.nValueIn = t.nValueIn +
      tally key ((uapInput? view txin).map fun inp => (inp.lineage crypto, inp.value)).toList := by
  have hscript : (scriptChecker view tx nIn amount).getInputScriptPubKey? i =
      some (prevOutput view txin).scriptPubKey := by
    simp [TransactionSignatureChecker.getInputScriptPubKey?, scriptChecker, hi]
  have hamount : (scriptChecker view tx nIn amount).getInputAmount? i = some (prevOutput view txin).nValue := by
    simp [TransactionSignatureChecker.getInputAmount?, scriptChecker, hi]
  have hvin : (scriptChecker view tx nIn amount).txTo.vin[i]? = some txin := hi
  rw [uapInput?_eq]
  simp only [tallyInput, hscript, hvin, orFail, ok_bind] at h
  cases hf : parseUapOutputScript? (prevOutput view txin).scriptPubKey with
  | none =>
    simp only [hf, Except.ok.injEq] at h
    subst h
    simp
  | some f =>
    simp only [hf, getInt_of_parse hf, hamount, ok_bind] at h
    have hkey : ¬ (f.multiplier ≠ key.1 ∨ inputLineage crypto f txin.prevout ≠ key.2) ↔
        (f.multiplier, inputLineage crypto f txin.prevout) = key := by
      rw [Prod.ext_iff]
      tauto
    split_ifs at h with hne
    · have hother : (f.multiplier, inputLineage crypto f txin.prevout) ≠ key := fun he => (hkey.mpr he) hne
      simp only [Except.ok.injEq] at h
      subst h
      simp [UapInput.lineage, tally_cons, hother, or_comm]
    · have hown := hkey.mp hne
      simp only [bind_eq_ok, failIf_eq_ok, Except.ok.injEq] at h
      obtain ⟨_, _, rfl⟩ := h
      simp [UapInput.lineage, tally_cons, hown, or_comm]

theorem tallyInputs_eq_ok {t : InputTally}
    (h : (List.range tx.vin.length).foldlM (tallyInput crypto (scriptChecker view tx nIn amount) key.1 key.2)
      ⟨[], 0⟩ = .ok t) :
    (∀ k, k ∈ t.setInputLineages ↔ k ∈ (positionsOf crypto view tx.vin).map Prod.fst) ∧
      t.nValueIn = tally key (positionsOf crypto view tx.vin) := by
  refine foldlM_range_ok (P := fun done t =>
    (∀ k, k ∈ t.setInputLineages ↔ k ∈ (positionsOf crypto view done).map Prod.fst) ∧
      t.nValueIn = tally key (positionsOf crypto view done)) h ⟨by simp [positionsOf], rfl⟩ ?_
  rintro done i txin t t' hi ⟨hkeys, hvalue⟩ hstep
  obtain ⟨hkeys', hvalue'⟩ := tallyInput_eq_ok hi hstep
  rw [positionsOf_concat]
  constructor
  · intro k
    rw [hkeys', hkeys]
    cases uapInput? view txin <;> simp [eq_comm]
  · rw [hvalue', hvalue, tally_append]

variable {lineages : List UapLineage}

theorem tallyOutput_eq_ok {t t' : OutputTally} {out : CTxOut}
    (h : tallyOutput key.1 key.2 lineages t out = .ok t') :
    isMintOutput out = false ∧
      t'.nValueOut = t.nValueOut + tally key (transferPosition? out).toList ∧
      (t'.fHasMatchingCovenantOutput = true →
        t.fHasMatchingCovenantOutput = true ∨ ∃ p, transferPosition? out = some p ∧ p.1 = key) := by
  unfold tallyOutput at h
  unfold isMintOutput transferPosition?
  cases hf : parseUapOutputScript? out.scriptPubKey with
  | none =>
    simp only [hf, Except.ok.injEq] at h
    subst h
    simp
  | some f =>
    simp only [hf, getInt_of_parse hf] at h
    have hkey : ¬ (f.multiplier ≠ key.1 ∨ f.origin ≠ key.2) ↔ (f.multiplier, f.origin) = key := by
      rw [Prod.ext_iff]
      tauto
    split_ifs at h with hm hne
    · have hother : (f.multiplier, f.origin) ≠ key := fun he => (hkey.mpr he) hne
      simp only [bind_eq_ok, failIf_eq_ok, Except.ok.injEq, not_not] at h
      obtain ⟨_, _, rfl⟩ := h
      simp [hm, tally_cons, hother]
    · have hown := hkey.mp hne
      simp only [bind_eq_ok, failIf_eq_ok, Except.ok.injEq] at h
      obtain ⟨_, _, rfl⟩ := h
      simp [hm, tally_cons, hown]

theorem tallyOutputs_eq_ok {t : OutputTally} {vout : List CTxOut}
    (h : vout.foldlM (tallyOutput key.1 key.2 lineages) ⟨0, false⟩ = .ok t) :
    (∀ out ∈ vout, isMintOutput out = false) ∧
      t.nValueOut = tally key (vout.filterMap transferPosition?) ∧
      (t.fHasMatchingCovenantOutput = true → ∃ p ∈ vout.filterMap transferPosition?, p.1 = key) := by
  refine foldlM_ok (P := fun done t => (∀ out ∈ done, isMintOutput out = false) ∧
      t.nValueOut = tally key (done.filterMap transferPosition?) ∧
      (t.fHasMatchingCovenantOutput = true → ∃ p ∈ done.filterMap transferPosition?, p.1 = key)) h
    (by simp) ?_
  rintro done out t t' _ ⟨hmint, hvalue, hmatch⟩ hstep
  obtain ⟨hmint', hvalue', hmatch'⟩ := tallyOutput_eq_ok hstep
  have hconcat : (done ++ [out]).filterMap transferPosition? =
      done.filterMap transferPosition? ++ (transferPosition? out).toList := by
    cases hp : transferPosition? out <;> simp [hp]
  rw [hconcat]
  refine ⟨?_, ?_, ?_⟩
  · intro o ho
    rcases List.mem_append.mp ho with ho | ho
    · exact hmint o ho
    · rwa [List.mem_singleton.mp ho]
  · rw [hvalue', hvalue, tally_append]
  · intro ht
    rcases hmatch' ht with hold | ⟨p, hp, hkey⟩
    · obtain ⟨p, hp, hkey⟩ := hmatch hold
      exact ⟨p, List.mem_append_left _ hp, hkey⟩
    · exact ⟨p, List.mem_append_right _ (Option.mem_toList.mpr hp), hkey⟩

theorem conservation_spec (key : UapLineage)
    (h : checkUapOutputConservation crypto (scriptChecker view tx nIn amount) key.1 key.2 = .ok ()) :
    (∀ out ∈ tx.vout, isMintOutput out = false) ∧
      (∃ p ∈ transferOutputs tx, p.1 = key) ∧
      tally key (transferOutputs tx) ≤ tally key (positionsOf crypto view tx.vin) := by
  simp only [checkUapOutputConservation, bind_eq_ok, failIf_eq_ok] at h
  obtain ⟨_, _, tin, hin, tout, hout, _, hmatch, hle⟩ := h
  obtain ⟨-, hvalueIn⟩ := tallyInputs_eq_ok hin
  obtain ⟨hmint, hvalueOut, hcontinued⟩ := tallyOutputs_eq_ok hout
  refine ⟨hmint, hcontinued (by simpa using hmatch), ?_⟩
  change _ = tally key (transferOutputs tx) at hvalueOut
  omega

theorem inputPositions_eq : inputPositions crypto view tx =
    positionsOf crypto view (if tx.isCoinBase then [] else tx.vin) := rfl

theorem collectLineage_eq_ok {lineages' : List UapLineage}
    (h : collectLineage crypto view lineages txin = .ok lineages') :
    ∀ k ∈ lineages', k ∈ lineages ∨ ∃ inp, uapInput? view txin = some inp ∧ k = inp.lineage crypto := by
  simp only [collectLineage, bind_eq_ok, orFail_eq_ok] at h
  obtain ⟨out, hout, h⟩ := h
  intro k hk
  cases hf : parseUapOutputScript? out.scriptPubKey with
  | none =>
    simp only [hf, Except.ok.injEq] at h
    exact Or.inl (h ▸ hk)
  | some f =>
    simp only [hf, getInt_of_parse hf, Except.ok.injEq] at h
    subst h
    rcases List.mem_cons.mp hk with rfl | hk
    · exact Or.inr ⟨⟨txin.prevout, f, out.nValue.toInt⟩, by simp [uapInput?, hout, hf], rfl⟩
    · exact Or.inl hk

theorem creation_spec (h : checkUapOutputCreation crypto tx view = .ok ()) :
    ∀ p ∈ transferOutputs tx, p.1 ∈ (inputPositions crypto view tx).map Prod.fst := by
  intro p hp
  obtain ⟨out, hout, hpos⟩ := List.mem_filterMap.mp hp
  obtain ⟨f, hf, hkey⟩ := Option.bind_eq_some_iff.mp hpos
  have hmint : ¬ f.isMint = true := by
    intro hm
    simp [hm] at hkey
  rw [if_neg hmint, Option.some.injEq] at hkey
  have hany : ¬ (!tx.vout.any isTransferOutput) = true := by
    have hmem : tx.vout.any isTransferOutput = true :=
      List.any_eq_true.mpr ⟨out, hout, by simp [isTransferOutput, hf, hmint]⟩
    simp [hmem]
  rw [checkUapOutputCreation, if_neg hany] at h
  simp only [bind_eq_ok] at h
  obtain ⟨lineages, hfold, hcheck⟩ := h
  have hmem : ∀ k ∈ lineages, k ∈ (inputPositions crypto view tx).map Prod.fst := by
    rw [inputPositions_eq]
    refine foldlM_ok (P := fun done ls => ∀ k ∈ ls, k ∈ (positionsOf crypto view done).map Prod.fst) hfold
      (by simp) ?_
    intro done txin ls ls' _ hdone hstep k hk
    rw [positionsOf_concat, List.map_append, List.mem_append]
    rcases collectLineage_eq_ok hstep k hk with hk | ⟨inp, hinp, rfl⟩
    · exact Or.inl (hdone k hk)
    · right
      simp [hinp]
  have hthis := forM_eq_ok.mp hcheck out hout
  simp only [checkTransferOutput, hf, if_neg hmint, getInt_of_parse hf, failIf_eq_ok, not_not] at hthis
  rw [← hkey]
  exact hmem _ hthis

theorem covenant_of_scriptCheck {flags : ScriptFlags} (hflags : flags.uapMint = true)
    {out : CTxOut} (hi : tx.vin[i]? = some txin) (hout : view.output? txin.prevout = some out)
    (hf : parseUapOutputScript? out.scriptPubKey = some f) (h : scriptCheck crypto flags view tx i = .ok ()) :
    (f.isMint = true → 1000 * coin ≤ out.nValue.toInt) ∧
      out.nValue.toInt / coin * f.multiplier ≤ 2 ^ 48 ∧
      (f.isMint = true → checkUapOneShot (scriptChecker view tx i out.nValue) i = .ok ()) ∧
      checkUapOutputConservation crypto (scriptChecker view tx i out.nValue) f.multiplier
        (inputLineage crypto f txin.prevout) = .ok () := by
  obtain ⟨hwf, hscript⟩ := parseUapOutputScript?_eq_some.mp hf
  simp only [scriptCheck, hi, hout, orFail, ok_bind, hscript] at h
  obtain ⟨-, _, _, stack, hstack, _⟩ := (verifyScript_uapScript hwf).mp h
  obtain ⟨sig, st, -, -, hcheck, -⟩ := (evalScript_uapScript hwf hflags).mp hstack
  obtain ⟨-, -, hfee, hvirtual, hone, txin', htxin', hcons⟩ := (checkCovenant_eq_ok hwf).mp hcheck
  obtain rfl : txin' = txin := Option.some.inj (htxin'.symm.trans hi)
  exact ⟨hfee, hvirtual, hone, hcons⟩

theorem filterMap_eq_singleton {α β : Type*} {f : α → Option β} {l : List α} {a : α} {b : β}
    (hi : l[i]? = some a) (hb : f a = some b) (hothers : ∀ j c, j ≠ i → l[j]? = some c → f c = none) :
    l.filterMap f = [b] := by
  obtain ⟨hlt, rfl⟩ := List.getElem?_eq_some_iff.mp hi
  have hsplit : l = l.take i ++ l[i] :: l.drop (i + 1) := by simp
  have hbefore : (l.take i).filterMap f = [] := by
    rw [List.filterMap_eq_nil_iff]
    intro c hc
    obtain ⟨j, hj, rfl⟩ := List.getElem_of_mem hc
    rw [List.length_take] at hj
    refine hothers j _ (by omega) ?_
    rw [List.getElem?_eq_getElem (by omega), List.getElem_take]
  have hafter : (l.drop (i + 1)).filterMap f = [] := by
    rw [List.filterMap_eq_nil_iff]
    intro c hc
    obtain ⟨j, hj, rfl⟩ := List.getElem_of_mem hc
    rw [List.length_drop] at hj
    refine hothers (i + 1 + j) _ (by omega) ?_
    rw [List.getElem?_eq_getElem (by omega), List.getElem_drop]
  rw [hsplit, List.filterMap_append, hbefore, List.filterMap_cons, hb, hafter]
  rfl

theorem uapInputs_of_oneShot {inp : UapInput}
    (hi : tx.vin[i]? = some txin) (hinp : uapInput? view txin = some inp)
    (h : checkUapOneShot (scriptChecker view tx i amount) i = .ok ()) :
    tx.vin.filterMap (uapInput? view) = [inp] := by
  refine filterMap_eq_singleton hi hinp ?_
  intro j txin' hne hj
  obtain ⟨prevScript, hprev, hnone⟩ :=
    checkUapOneShot_eq_ok.mp h j (List.getElem?_eq_some_iff.mp hj).1 hne
  have hscript : prevScript = (prevOutput view txin').scriptPubKey := by
    simpa [TransactionSignatureChecker.getInputScriptPubKey?, scriptChecker, hj, eq_comm] using hprev
  rw [uapInput?_eq, ← hscript, hnone]
  rfl

end

/-- What the UAP rules make true of a transaction against the view it spends from. -/
structure Conserves (crypto : Crypto) (view : CCoinsView) (tx : CTransaction) : Prop where
  bounded : ∀ key, tally key (transferOutputs tx) ≤ tally key (inputPositions crypto view tx)
  backed : ∀ p ∈ transferOutputs tx, p.1 ∈ (inputPositions crypto view tx).map Prod.fst
  continued : ∀ p ∈ inputPositions crypto view tx, p.1 ∈ (transferOutputs tx).map Prod.fst
  noMint : uapInputs view tx ≠ [] → ∀ out ∈ tx.vout, isMintOutput out = false
  mintAlone : ∀ inp ∈ uapInputs view tx, inp.fields.isMint = true → uapInputs view tx = [inp]
  entryFee : ∀ inp ∈ uapInputs view tx, inp.fields.isMint = true → 1000 * coin ≤ inp.value
  virtualBalance : ∀ inp ∈ uapInputs view tx, inp.value / coin * inp.fields.multiplier ≤ 2 ^ 48

section
variable {crypto : Crypto} {view : CCoinsView} {tx : CTransaction}

theorem mem_uapInputs {inp : UapInput} (h : inp ∈ uapInputs view tx) :
    tx.isCoinBase = false ∧ ∃ (i : ℕ) (txin : CTxIn) (out : CTxOut), tx.vin[i]? = some txin ∧
      view.output? txin.prevout = some out ∧ parseUapOutputScript? out.scriptPubKey = some inp.fields ∧
      inp.prevout = txin.prevout ∧ inp.value = out.nValue.toInt ∧ uapInput? view txin = some inp := by
  unfold uapInputs at h
  split_ifs at h with hcb
  · simp at h
  · obtain ⟨txin, hmem, hinp⟩ := List.mem_filterMap.mp h
    obtain ⟨i, hi⟩ := List.mem_iff_getElem?.mp hmem
    have hparts := hinp
    simp only [uapInput?, Option.bind_eq_bind, Option.bind_eq_some_iff, Option.some.injEq] at hparts
    obtain ⟨out, hout, f, hf, rfl⟩ := hparts
    exact ⟨by simpa using hcb, i, txin, out, hi, hout, hf, rfl, rfl, hinp⟩

theorem uapInputs_of_not_coinBase (h : tx.isCoinBase = false) :
    uapInputs view tx = tx.vin.filterMap (uapInput? view) := by
  simp [uapInputs, h]

theorem inputPositions_of_not_coinBase (h : tx.isCoinBase = false) :
    inputPositions crypto view tx = positionsOf crypto view tx.vin := by
  simp [inputPositions_eq, h]

theorem checked_of_verify {flags : ScriptFlags} (hflags : flags.uapMint = true)
    (hverify : tx.isCoinBase = false → ∀ i < tx.vin.length, scriptCheck crypto flags view tx i = .ok ())
    {inp : UapInput} (h : inp ∈ uapInputs view tx) :
    (inp.fields.isMint = true → 1000 * coin ≤ inp.value ∧ uapInputs view tx = [inp]) ∧
      inp.value / coin * inp.fields.multiplier ≤ 2 ^ 48 ∧
      (∀ out ∈ tx.vout, isMintOutput out = false) ∧
      (∃ p ∈ transferOutputs tx, p.1 = inp.lineage crypto) ∧
      tally (inp.lineage crypto) (transferOutputs tx) ≤
        tally (inp.lineage crypto) (inputPositions crypto view tx) := by
  obtain ⟨hcb, i, txin, out, hi, hout, hf, hprev, hvalue, hinp⟩ := mem_uapInputs h
  obtain ⟨hfee, hvirtual, hone, hcons⟩ :=
    covenant_of_scriptCheck hflags hi hout hf (hverify hcb i (List.getElem?_eq_some_iff.mp hi).1)
  obtain ⟨hmint, hcontinued, hbounded⟩ := conservation_spec (_, _) hcons
  rw [inputPositions_of_not_coinBase hcb, uapInputs_of_not_coinBase hcb, hvalue]
  rw [← hprev] at hcontinued hbounded
  refine ⟨?_, hvirtual, hmint, hcontinued, hbounded⟩
  intro hm
  exact ⟨hfee hm, uapInputs_of_oneShot hi hinp (hone hm)⟩

/-- A transaction that passes the creation rule and whose scripts pass conserves every lineage. -/
theorem conserves_of_checks {flags : ScriptFlags} (hflags : flags.uapMint = true)
    (hcreate : checkUapOutputCreation crypto tx view = .ok ())
    (hverify : tx.isCoinBase = false → ∀ i < tx.vin.length, scriptCheck crypto flags view tx i = .ok ()) :
    Conserves crypto view tx := by
  have hbacked := creation_spec hcreate
  have hinput {p : UapLineage × ℤ} (hp : p ∈ inputPositions crypto view tx) :
      ∃ inp ∈ uapInputs view tx, p = (inp.lineage crypto, inp.value) := by
    obtain ⟨inp, hmem, heq⟩ := List.mem_map.mp hp
    exact ⟨inp, hmem, heq.symm⟩
  constructor
  case bounded =>
    intro key
    by_cases hkey : key ∈ (inputPositions crypto view tx).map Prod.fst
    · obtain ⟨p, hp, rfl⟩ := List.mem_map.mp hkey
      obtain ⟨inp, hmem, rfl⟩ := hinput hp
      exact (checked_of_verify hflags hverify hmem).2.2.2.2
    · rw [tally_eq_zero key fun p hp heq => hkey (heq ▸ hbacked p hp),
        tally_eq_zero key fun p hp heq => hkey (heq ▸ List.mem_map_of_mem hp)]
  case backed => exact hbacked
  case continued =>
    intro p hp
    obtain ⟨inp, hmem, rfl⟩ := hinput hp
    obtain ⟨q, hq, heq⟩ := (checked_of_verify hflags hverify hmem).2.2.2.1
    exact List.mem_map.mpr ⟨q, hq, heq⟩
  case noMint =>
    intro hne
    obtain ⟨inp, hmem⟩ := List.exists_mem_of_ne_nil _ hne
    exact (checked_of_verify hflags hverify hmem).2.2.1
  case mintAlone => exact fun inp hmem hm => ((checked_of_verify hflags hverify hmem).1 hm).2
  case entryFee => exact fun inp hmem hm => ((checked_of_verify hflags hverify hmem).1 hm).1
  case virtualBalance => exact fun inp hmem => (checked_of_verify hflags hverify hmem).2.1

end

/-- Per-transaction conservation of every lineage. -/
theorem lineage_conservation (crypto : Crypto) (flags : ScriptFlags) (view : CCoinsView) (tx : CTransaction)
    (hflags : flags.uapMint = true) (hcreate : checkUapOutputCreation crypto tx view = .ok ())
    (hverify : tx.isCoinBase = false → ∀ i < tx.vin.length, scriptCheck crypto flags view tx i = .ok ()) :
    (∀ key, tally key (transferOutputs tx) ≤ tally key (inputPositions crypto view tx)) ∧
      (∀ key, (∀ p ∈ inputPositions crypto view tx, p.1 ≠ key) → ∀ p ∈ transferOutputs tx, p.1 ≠ key) ∧
      (∀ key, (∃ p ∈ inputPositions crypto view tx, p.1 = key) → ∃ p ∈ transferOutputs tx, p.1 = key) ∧
      (uapInputs view tx ≠ [] → ∀ out ∈ tx.vout, isMintOutput out = false) ∧
      (∀ inp ∈ uapInputs view tx, inp.fields.isMint = true →
        uapInputs view tx = [inp] ∧ 1000 * coin ≤ inp.value) := by
  have h := conserves_of_checks hflags hcreate hverify
  refine ⟨h.bounded, ?_, ?_, h.noMint, fun inp hmem hm => ⟨h.mintAlone inp hmem hm, h.entryFee inp hmem hm⟩⟩
  · intro key hnone p hp heq
    obtain ⟨q, hq, hkey⟩ := List.mem_map.mp (h.backed p hp)
    exact hnone q hq (hkey.trans heq)
  · rintro key ⟨p, hp, hkey⟩
    obtain ⟨q, hq, heq⟩ := List.mem_map.mp (h.continued p hp)
    exact ⟨q, hq, heq.trans hkey⟩

def mintView : CCoinsView :=
  Finmap.singleton (.ofByte 0x11)
    ⟨false, [⟨100000000000, uapScript ⟨mintKey, 5, [], true⟩⟩], 1, 1⟩

theorem lineage_conservation_mint :
    scriptCheck mintCrypto (blockScriptFlags true true true true) mintView mintSpend.txTo 0 = .ok () ∧
      ∀ key, tally key (transferOutputs mintSpend.txTo) ≤
        tally key (inputPositions mintCrypto mintView mintSpend.txTo) := by
  have hcheck : scriptCheck mintCrypto (blockScriptFlags true true true true) mintView mintSpend.txTo 0 =
      .ok () := by
    decide +kernel
  refine ⟨hcheck, (lineage_conservation mintCrypto (blockScriptFlags true true true true) mintView mintSpend.txTo
    rfl (by decide +kernel) ?_).1⟩
  intro _ i hi
  have hlen : mintSpend.txTo.vin.length = 1 := rfl
  obtain rfl : i = 0 := by omega
  exact hcheck

end Whippet.Validation
