import Whippet.Validation.Conservation

/-! Transactions that spend one covenant beside ordinary outputs. For these the UAP rules come down to a statement about
the covenant outputs. -/
namespace Whippet.Validation
open Lib Primitives Script

/-- The first input spends the covenant, and every other input an ordinary output. -/
structure SoleCovenant (view : CCoinsView) (tx : CTransaction) (inp : UapInput) : Prop where
  inputs : ∃ txin vin, tx.vin = txin :: vin ∧ uapInput? view txin = some inp ∧
    ∀ t ∈ vin, ∃ out, view.output? t.prevout = some out ∧ parseUapOutputScript? out.scriptPubKey = none
  not_null : inp.prevout.isNull = false
  value_nonneg : 0 ≤ inp.value
  value_le : inp.value ≤ maxMoney

/-- `CheckUapOutputCreation`, and the one-shot and conservation checks that the covenant at input 0 runs. -/
structure UapRules (crypto : Crypto) (view : CCoinsView) (tx : CTransaction) (inp : UapInput) : Prop where
  creation : checkUapOutputCreation crypto tx view = .ok ()
  oneShot : checkUapOneShot (scriptChecker view tx 0 (Int64.ofInt inp.value)) 0 = .ok ()
  conservation : checkUapOutputConservation crypto (scriptChecker view tx 0 (Int64.ofInt inp.value))
    (inp.lineage crypto).1 (inp.lineage crypto).2 = .ok ()

/-- The outputs continue one lineage with at most this value, and touch no other token. -/
structure Continues (key : UapLineage) (value : ℤ) (vout : List CTxOut) : Prop where
  no_mint : ∀ out ∈ vout, isMintOutput out = false
  lineage : ∀ p ∈ vout.filterMap transferPosition?, p.1 = key
  nonneg : ∀ p ∈ vout.filterMap transferPosition?, 0 ≤ p.2
  continued : vout.filterMap transferPosition? ≠ []
  value_le : ((vout.filterMap transferPosition?).map Prod.snd).sum ≤ value

section
variable {crypto : Crypto} {view : CCoinsView} {tx : CTransaction} {inp : UapInput}

theorem transferPosition?_eq_some {out : CTxOut} {p : UapLineage × ℤ} :
    transferPosition? out = some p ↔ ∃ f, parseUapOutputScript? out.scriptPubKey = some f ∧ f.isMint = false ∧
      p = ((f.multiplier, f.origin), out.nValue.toInt) := by
  unfold transferPosition?
  cases parseUapOutputScript? out.scriptPubKey with
  | none => simp
  | some f =>
    cases hm : f.isMint with
    | true => simp [hm]
    | false =>
      rw [Option.bind_eq_bind, Option.bind_some, hm, if_neg Bool.false_ne_true, Option.some.injEq]
      constructor
      · rintro rfl
        exact ⟨f, rfl, hm, rfl⟩
      · rintro ⟨g, hg, -, rfl⟩
        rw [Option.some.inj hg]

theorem continues_cons_iff {key : UapLineage} {value v : ℤ} {out : CTxOut} {vout : List CTxOut}
    (hpos : transferPosition? out = some (key, v)) (hmint : isMintOutput out = false) :
    Continues key value (out :: vout) ↔ (∀ o ∈ vout, isMintOutput o = false) ∧
      (∀ p ∈ vout.filterMap transferPosition?, p.1 = key ∧ 0 ≤ p.2) ∧ 0 ≤ v ∧
      v + ((vout.filterMap transferPosition?).map Prod.snd).sum ≤ value := by
  have hcons := List.filterMap_cons_some (l := vout) hpos
  constructor
  · rintro ⟨hnone, hlineage, hnonneg, -, hle⟩
    rw [hcons, List.forall_mem_cons] at hlineage hnonneg
    rw [hcons, List.map_cons, List.sum_cons] at hle
    exact ⟨(List.forall_mem_cons.mp hnone).2, fun p hp => ⟨hlineage.2 p hp, hnonneg.2 p hp⟩, hnonneg.1, hle⟩
  · rintro ⟨hnone, hothers, hnonneg, hle⟩
    refine ⟨List.forall_mem_cons.mpr ⟨hmint, hnone⟩, ?_, ?_, ?_, ?_⟩ <;> rw [hcons]
    · exact List.forall_mem_cons.mpr ⟨rfl, fun p hp => (hothers p hp).1⟩
    · exact List.forall_mem_cons.mpr ⟨hnonneg, fun p hp => (hothers p hp).2⟩
    · exact List.cons_ne_nil _ _
    · rwa [List.map_cons, List.sum_cons]

theorem foldlM_unchanged {ε σ α : Type} {step : σ → α → Except ε σ} {s : σ} {l : List α}
    (h : ∀ a ∈ l, step s a = .ok s) : l.foldlM step s = .ok s := by
  induction l with
  | nil => rfl
  | cons a l ih =>
    obtain ⟨ha, hl⟩ := List.forall_mem_cons.mp h
    rw [List.foldlM_cons, ha, ok_bind, ih hl]

theorem SoleCovenant.isCoinBase_eq (h : SoleCovenant view tx inp) : tx.isCoinBase = false := by
  obtain ⟨txin, vin, hvin, hinp, -⟩ := h.inputs
  have hprevout : txin.prevout = inp.prevout := by
    simp only [uapInput?, Option.bind_eq_bind, Option.bind_eq_some_iff, Option.some.injEq] at hinp
    obtain ⟨out, -, f, -, rfl⟩ := hinp
    rfl
  rw [CTransaction.isCoinBase, hvin]
  cases vin with
  | nil => exact (congrArg COutPoint.isNull hprevout).trans h.not_null
  | cons => rfl

theorem getInputScriptPubKey?_eq {i : ℕ} {amount : Int64} {t : CTxIn} (hi : tx.vin[i]? = some t) :
    (scriptChecker view tx 0 amount).getInputScriptPubKey? i = some (prevOutput view t).scriptPubKey := by
  simp [TransactionSignatureChecker.getInputScriptPubKey?, scriptChecker, hi]

theorem SoleCovenant.sibling (h : SoleCovenant view tx inp) {i : ℕ} {t : CTxIn} (hi : tx.vin[i + 1]? = some t) :
    parseUapOutputScript? (prevOutput view t).scriptPubKey = none := by
  obtain ⟨txin, vin, hvin, -, hothers⟩ := h.inputs
  rw [hvin, List.getElem?_cons_succ] at hi
  obtain ⟨out, hout, hparse⟩ := hothers t (List.mem_of_getElem? hi)
  rw [prevOutput, hout]
  exact hparse

theorem SoleCovenant.oneShot (h : SoleCovenant view tx inp) (amount : Int64) :
    checkUapOneShot (scriptChecker view tx 0 amount) 0 = .ok () := by
  refine forM_eq_ok.mpr fun i hi => ?_
  rw [List.mem_range] at hi
  unfold checkSibling
  cases i with
  | zero => rfl
  | succ i =>
    have hget : tx.vin[i + 1]? = some tx.vin[i + 1] := List.getElem?_eq_getElem hi
    rw [if_neg (Nat.succ_ne_zero i), getInputScriptPubKey?_eq hget, orFail, ok_bind, h.sibling hget]
    rfl

theorem SoleCovenant.tallyInputs (h : SoleCovenant view tx inp) (amount : Int64) :
    (List.range tx.vin.length).foldlM (tallyInput crypto (scriptChecker view tx 0 amount) (inp.lineage crypto).1
      (inp.lineage crypto).2) ⟨[], 0⟩ = .ok ⟨[inp.lineage crypto], inp.value⟩ := by
  obtain ⟨txin, vin, hvin, hinp, -⟩ := h.inputs
  have hfirst : tx.vin[0]? = some txin := by rw [hvin]; rfl
  rw [uapInput?_eq, Option.map_eq_some_iff] at hinp
  obtain ⟨f, hf, rfl⟩ := hinp
  have hamount : (scriptChecker view tx 0 amount).getInputAmount? 0 = some (prevOutput view txin).nValue := by
    simp [TransactionSignatureChecker.getInputAmount?, scriptChecker, hfirst]
  have h0 : 0 ≤ (prevOutput view txin).nValue.toInt := h.value_nonneg
  have h1 : (prevOutput view txin).nValue.toInt ≤ maxMoney := h.value_le
  have hstart : tallyInput crypto (scriptChecker view tx 0 amount) f.multiplier (inputLineage crypto f txin.prevout)
      ⟨[], 0⟩ 0 = .ok ⟨[(f.multiplier, inputLineage crypto f txin.prevout)], (prevOutput view txin).nValue.toInt⟩ := by
    have hchecked : ¬ ((prevOutput view txin).nValue.toInt < 0 ∨ 0 > maxMoney - (prevOutput view txin).nValue.toInt) := by
      omega
    have hvin0 : (scriptChecker view tx 0 amount).txTo.vin[0]? = some txin := hfirst
    simp only [tallyInput, getInputScriptPubKey?_eq hfirst, hf, hvin0, hamount, orFail, ok_bind, getInt_of_parse hf,
      ne_eq, not_true_eq_false, or_self, if_false, failIf_neg hchecked, zero_add]
  rw [hvin, List.length_cons, List.range_succ_eq_map, List.foldlM_cons]
  change (tallyInput crypto (scriptChecker view tx 0 amount) f.multiplier (inputLineage crypto f txin.prevout) _ _ >>= _) = _
  rw [hstart, ok_bind]
  refine foldlM_unchanged fun i hi => ?_
  obtain ⟨j, hj, rfl⟩ := List.mem_map.mp hi
  have hlt : j + 1 < tx.vin.length := by
    rw [hvin, List.length_cons]
    exact Nat.succ_lt_succ (List.mem_range.mp hj)
  have hget : tx.vin[j + 1]? = some tx.vin[j + 1] := List.getElem?_eq_getElem hlt
  simp only [tallyInput, getInputScriptPubKey?_eq hget, h.sibling hget, orFail, ok_bind]

theorem tallyOutput_sole {key : UapLineage} {t t' : OutputTally} {out : CTxOut}
    (h : tallyOutput key.1 key.2 [key] t out = .ok t') :
    ∀ p, transferPosition? out = some p → p.1 = key ∧ 0 ≤ p.2 := by
  intro p hp
  obtain ⟨f, hf, hmint, rfl⟩ := transferPosition?_eq_some.mp hp
  simp only [tallyOutput, hf, hmint, Bool.false_eq_true, if_false, getInt_of_parse hf] at h
  split_ifs at h with hne
  · have hother : (f.multiplier, f.origin) ∉ [key] := by
      rw [List.mem_singleton, Prod.ext_iff]
      tauto
    rw [failIf_pos hother] at h
    cases h
  · simp only [bind_eq_ok, failIf_eq_ok, Except.ok.injEq] at h
    obtain ⟨⟨⟩, hchecked, -⟩ := h
    rw [not_or, not_ne_iff, not_ne_iff] at hne
    exact ⟨Prod.ext hne.1 hne.2, by omega⟩

theorem tallyOutputs_of_continues (key : UapLineage) {vout : List CTxOut} (hmint : ∀ out ∈ vout, isMintOutput out = false)
    (hlineage : ∀ p ∈ vout.filterMap transferPosition?, p.1 = key)
    (hnonneg : ∀ p ∈ vout.filterMap transferPosition?, 0 ≤ p.2) {t : OutputTally}
    (hle : t.nValueOut + ((vout.filterMap transferPosition?).map Prod.snd).sum ≤ maxMoney) :
    ∃ found, vout.foldlM (tallyOutput key.1 key.2 [key]) t =
        .ok ⟨t.nValueOut + ((vout.filterMap transferPosition?).map Prod.snd).sum, found⟩ ∧
      (found = true ↔ t.fHasMatchingCovenantOutput = true ∨ vout.filterMap transferPosition? ≠ []) := by
  induction vout generalizing t with
  | nil => exact ⟨t.fHasMatchingCovenantOutput, by simp [Pure.pure, Except.pure], by simp⟩
  | cons out vout ih =>
    obtain ⟨hout, hrest⟩ := List.forall_mem_cons.mp hmint
    rw [List.foldlM_cons]
    cases hp : transferPosition? out with
    | none =>
      have hstep : tallyOutput key.1 key.2 [key] t out = .ok t := by
        unfold tallyOutput
        cases hf : parseUapOutputScript? out.scriptPubKey with
        | none => rfl
        | some f =>
          cases hm : f.isMint with
          | true => simp [isMintOutput, hf, hm] at hout
          | false =>
            have := transferPosition?_eq_some.mpr ⟨f, hf, hm, rfl⟩
            rw [hp] at this
            cases this
      rw [List.filterMap_cons_none hp] at hlineage hnonneg hle ⊢
      rw [hstep, ok_bind]
      exact ih hrest hlineage hnonneg hle
    | some p =>
      rw [List.filterMap_cons_some hp] at hlineage hnonneg hle ⊢
      obtain ⟨hkey, hlineages⟩ := List.forall_mem_cons.mp hlineage
      obtain ⟨hvalue, hnonnegs⟩ := List.forall_mem_cons.mp hnonneg
      rw [List.map_cons, List.sum_cons] at hle
      have hsum : 0 ≤ ((vout.filterMap transferPosition?).map Prod.snd).sum := by
        refine List.sum_nonneg fun v hv => ?_
        obtain ⟨q, hq, rfl⟩ := List.mem_map.mp hv
        exact hnonnegs q hq
      obtain ⟨f, hf, hm, rfl⟩ := transferPosition?_eq_some.mp hp
      dsimp only at hkey hvalue hle
      have hstep : tallyOutput key.1 key.2 [key] t out = .ok ⟨t.nValueOut + out.nValue.toInt, true⟩ := by
        have hsame : ¬ (f.multiplier ≠ key.1 ∨ f.origin ≠ key.2) := by simp [← hkey]
        have hchecked : ¬ (out.nValue.toInt < 0 ∨ t.nValueOut > maxMoney - out.nValue.toInt) := by omega
        simp only [tallyOutput, hf, hm, Bool.false_eq_true, if_false, if_neg hsame, failIf_neg hchecked, ok_bind]
      obtain ⟨found, hrun, hfound⟩ := ih hrest hlineages hnonnegs
        (t := ⟨t.nValueOut + out.nValue.toInt, true⟩) (by dsimp only; omega)
      refine ⟨found, ?_, by simpa using hfound⟩
      rw [hstep, ok_bind, hrun, List.map_cons, List.sum_cons, add_assoc]

theorem SoleCovenant.collectLineages (h : SoleCovenant view tx inp) :
    tx.vin.foldlM (collectLineage crypto view) [] = .ok [inp.lineage crypto] := by
  obtain ⟨txin, vin, hvin, hinp, hothers⟩ := h.inputs
  simp only [uapInput?, Option.bind_eq_bind, Option.bind_eq_some_iff, Option.some.injEq] at hinp
  obtain ⟨out, hout, f, hf, rfl⟩ := hinp
  have hfirst : collectLineage crypto view [] txin = .ok [(f.multiplier, inputLineage crypto f txin.prevout)] := by
    simp only [collectLineage, hout, orFail, ok_bind, hf, getInt_of_parse hf]
  rw [hvin, List.foldlM_cons, hfirst, ok_bind]
  refine foldlM_unchanged fun t ht => ?_
  obtain ⟨out', hout', hparse⟩ := hothers t ht
  simp only [collectLineage, hout', orFail, ok_bind, hparse]

theorem SoleCovenant.creation (h : SoleCovenant view tx inp)
    (hlineage : ∀ p ∈ tx.vout.filterMap transferPosition?, p.1 = inp.lineage crypto) :
    checkUapOutputCreation crypto tx view = .ok () := by
  unfold checkUapOutputCreation
  split_ifs with hany hcoinbase
  · rfl
  · rw [h.isCoinBase_eq] at hcoinbase
    cases hcoinbase
  · rw [h.collectLineages, ok_bind]
    refine forM_eq_ok.mpr fun out hout => ?_
    unfold checkTransferOutput
    cases hf : parseUapOutputScript? out.scriptPubKey with
    | none => rfl
    | some f =>
      cases hm : f.isMint with
      | true => simp [hm]
      | false =>
        have hpos := transferPosition?_eq_some.mpr ⟨f, hf, hm, rfl⟩
        have hkey := hlineage _ (List.mem_filterMap.mpr ⟨out, hout, hpos⟩)
        dsimp only at hkey
        have hmem : ¬ (getInt f.multiplier, f.origin) ∉ [inp.lineage crypto] := by
          rw [getInt_of_parse hf, hkey]
          simp
        simp only [hm, Bool.false_eq_true, if_false, failIf_neg hmem]

theorem tally_of_forall {key : UapLineage} {l : List (UapLineage × ℤ)} (h : ∀ p ∈ l, p.1 = key) :
    tally key l = (l.map Prod.snd).sum := by
  rw [tally, List.filter_eq_self.mpr fun p hp => decide_eq_true (h p hp)]

theorem SoleCovenant.rules_iff (h : SoleCovenant view tx inp) :
    UapRules crypto view tx inp ↔ Continues (inp.lineage crypto) inp.value tx.vout := by
  constructor
  · intro hrules
    obtain ⟨hmint, ⟨p, hp, -⟩, -⟩ := conservation_spec _ hrules.conservation
    have hloops := hrules.conservation
    simp only [checkUapOutputConservation, bind_eq_ok, failIf_eq_ok] at hloops
    obtain ⟨⟨⟩, -, tin, hin, tout, hout, ⟨⟩, -, hle⟩ := hloops
    obtain rfl := Except.ok.inj ((h.tallyInputs _).symm.trans hin)
    have hpositions : ∀ p ∈ tx.vout.filterMap transferPosition?, p.1 = inp.lineage crypto ∧ 0 ≤ p.2 := by
      refine foldlM_ok (P := fun done _ => ∀ p ∈ done.filterMap transferPosition?, p.1 = inp.lineage crypto ∧ 0 ≤ p.2)
        hout (by simp) ?_
      intro done out t t' _ hdone hstep p hp
      rw [List.filterMap_append, List.mem_append] at hp
      rcases hp with hp | hp
      · exact hdone p hp
      · obtain ⟨out', hout', hpos⟩ := List.mem_filterMap.mp hp
        rw [List.mem_singleton.mp hout'] at hpos
        exact tallyOutput_sole hstep p hpos
    refine ⟨hmint, fun p hp => (hpositions p hp).1, fun p hp => (hpositions p hp).2, List.ne_nil_of_mem hp, ?_⟩
    obtain ⟨-, hvalue, -⟩ := tallyOutputs_eq_ok hout
    change _ = tally _ (tx.vout.filterMap transferPosition?) at hvalue
    rw [tally_of_forall fun p hp => (hpositions p hp).1] at hvalue
    dsimp only at hle
    omega
  · intro hcont
    refine ⟨h.creation hcont.lineage, h.oneShot _, ?_⟩
    have hle := hcont.value_le
    have hmax := h.value_le
    obtain ⟨found, hrun, hfound⟩ := tallyOutputs_of_continues (inp.lineage crypto) hcont.no_mint hcont.lineage
      hcont.nonneg (t := ⟨0, false⟩) (by dsimp only; omega)
    have hne : tx.vout ≠ [] := fun hnil => hcont.continued (by rw [hnil]; rfl)
    simp only [checkUapOutputConservation, bind_eq_ok, failIf_eq_ok]
    refine ⟨⟨⟩, hne, _, h.tallyInputs _, _, hrun, ⟨⟩, ?_, ?_⟩
    · rw [hfound.mpr (.inr hcont.continued)]
      exact Bool.true_eq_false_eq_False
    · dsimp only
      omega

end
end Whippet.Validation
