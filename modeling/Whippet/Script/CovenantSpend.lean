import Whippet.Script.CovenantExec

/-! Spending a covenant with one signature: `VerifyScript` decides exactly the published rules. -/
namespace Whippet.Script
open Lib Primitives

/-- `scriptSig` is one operation, a push of `sig` in its minimal form. -/
def IsMinimalPush (scriptSig sig : Bytes) : Prop :=
  ∃ op, getOp scriptSig = .ok op ∧ op.rest = [] ∧
    ((op.opcode ≤ opPushData4 ∧ op.data = sig ∧ checkMinimalPush sig op.opcode = true) ∨
      ((op.opcode = op1Negate ∨ (op1 ≤ op.opcode ∧ op.opcode ≤ op16)) ∧
        sig = serialize ((op.opcode.toNat : ℤ) - ((op1.toNat : ℤ) - 1))))

section
variable {crypto : Crypto} {flags : ScriptFlags} {checker : TransactionSignatureChecker}

variable {mult : ℤ}

theorem getInputScriptPubKey?_of_conservation {origin : Bytes}
    (h : checkUapOutputConservation crypto checker mult origin = .ok ()) {i : ℕ}
    (hi : i < checker.txTo.vin.length) : ∃ prevScript, checker.getInputScriptPubKey? i = some prevScript := by
  simp only [checkUapOutputConservation, bind_eq_ok] at h
  obtain ⟨_, _, t, hrun, _⟩ := h
  have hall : ∀ j ∈ List.range checker.txTo.vin.length, ∃ prevScript,
      checker.getInputScriptPubKey? j = some prevScript := by
    refine foldlM_ok (P := fun done _ => ∀ j ∈ done, ∃ prevScript,
      checker.getInputScriptPubKey? j = some prevScript) hrun (by simp) ?_
    intro done j t t' _ hdone hstep k hk
    rcases List.mem_append.mp hk with hk | hk
    · exact hdone k hk
    · obtain rfl : k = j := by simpa using hk
      simp only [tallyInput, bind_eq_ok, orFail_eq_ok] at hstep
      obtain ⟨prevScript, hprev, _⟩ := hstep
      exact ⟨prevScript, hprev⟩
  exact hall i (List.mem_range.mpr hi)

theorem checkUapOneShot_eq_ok {nInSelf : ℕ} :
    checkUapOneShot checker nInSelf = .ok () ↔
      ∀ i < checker.txTo.vin.length, i ≠ nInSelf →
        ∃ prevScript, checker.getInputScriptPubKey? i = some prevScript ∧
          parseUapOutputScript? prevScript = none := by
  unfold checkUapOneShot
  rw [forM_eq_ok]
  simp only [List.mem_range]
  refine forall₂_congr fun i _ => ?_
  unfold checkSibling
  split_ifs with hself
  · simp [hself]
  · simp [hself]

/-- With the other rules of a spend, the one-shot rule is that no sibling input is a covenant. -/
theorem checkUapOneShot_of_conservation {origin : Bytes}
    (h : checkUapOutputConservation crypto checker mult origin = .ok ()) {nInSelf : ℕ} :
    checkUapOneShot checker nInSelf = .ok () ↔
      ∀ i < checker.txTo.vin.length, i ≠ nInSelf → ∀ prevScript,
        checker.getInputScriptPubKey? i = some prevScript → parseUapOutputScript? prevScript = none := by
  rw [checkUapOneShot_eq_ok]
  refine forall₃_congr fun i hi _ => ?_
  obtain ⟨prevScript, hprev⟩ := getInputScriptPubKey?_of_conservation h hi
  simp [hprev]

theorem virtualBalance_iff {nValue : ℤ} (hmult : 0 ≤ mult) :
    ¬ (mult > 0 ∧ nValue.tdiv coin > 0 ∧ nValue.tdiv coin > 2 ^ 48 / mult) ↔ nValue / coin * mult ≤ 2 ^ 48 := by
  have hcoin : (0 : ℤ) < coin := by decide
  rcases lt_or_ge nValue 0 with hneg | hnonneg
  · have hopp : 0 ≤ (-nValue).tdiv coin := Int.tdiv_nonneg (by omega) hcoin.le
    have htdiv : nValue.tdiv coin ≤ 0 := by
      rw [Int.neg_tdiv] at hopp
      omega
    have hdiv : nValue / coin ≤ 0 := (Int.ediv_lt_of_lt_mul hcoin (by omega)).le
    have hprod : nValue / coin * mult ≤ 0 := mul_nonpos_of_nonpos_of_nonneg hdiv hmult
    constructor
    · intro _
      omega
    · intro _ h
      omega
  · rw [Int.tdiv_eq_ediv_of_nonneg hnonneg]
    have hdiv : 0 ≤ nValue / coin := Int.ediv_nonneg hnonneg hcoin.le
    rcases eq_or_lt_of_le hmult with rfl | hpos
    · simp
    · rw [← Int.le_ediv_iff_mul_le hpos]
      have hquot : (0 : ℤ) ≤ 2 ^ 48 / mult := Int.ediv_nonneg (by decide) hmult
      omega

theorem isLowDERSignature_isOk {vchSig : Bytes} :
    (isLowDERSignature crypto vchSig).isOk = true ↔
      isValidSignatureEncoding vchSig = true ∧ crypto.checkLowS vchSig.dropLast = true := by
  unfold isLowDERSignature
  split_ifs with h1 h2 <;> simp_all [Except.isOk, Except.toBool]

theorem getInt_multiplier {m : ℤ} (h0 : 0 ≤ m) (h1 : m ≤ maxUapMultiplier) : getInt m = m := by
  unfold maxUapMultiplier at h1
  rw [getInt, if_neg (by omega), if_neg (by omega)]

variable {f : UapOutput} {sig : Bytes}

theorem checkCovenant_eq_ok (hf : f.WellFormed) {sigversion : SigVersion} {scriptCode : Bytes} :
    checkCovenant crypto checker sigversion f.isMint scriptCode sig f.pubkey f.multiplier f.origin = .ok () ↔
      (isValidSignatureEncoding sig = true ∧ crypto.checkLowS sig.dropLast = true ∧
        isDefinedHashtypeSignature sig = true) ∧
      checker.checkSig crypto sig f.pubkey scriptCode sigversion = true ∧
      (f.isMint = true → 1000 * coin ≤ checker.amount.toInt) ∧
      checker.amount.toInt / coin * f.multiplier ≤ 2 ^ 48 ∧
      (f.isMint = true → checkUapOneShot checker checker.nIn = .ok ()) ∧
      ∃ txin, checker.txTo.vin[checker.nIn]? = some txin ∧
        checkUapOutputConservation crypto checker f.multiplier (inputLineage crypto f txin.prevout) = .ok () := by
  have hkey : ¬ (f.pubkey.length ≠ 33 ∧ f.pubkey.length ≠ 65) := by
    rcases hf.pubkey_size with h | h <;> omega
  have horigin : ¬ ((!f.isMint) = true ∧ f.origin.length ≠ uapOriginSize) := by
    rintro ⟨hm, hne⟩
    exact hne (hf.origin_size (by simpa using hm))
  have hrange : ¬ (f.multiplier < 0 ∨ f.multiplier > maxUapMultiplier) := by
    have := hf.multiplier_nonneg
    have := hf.multiplier_le
    omega
  have hsig : ¬ ((!isValidSignatureEncoding sig) = true ∨
      (sig ≠ [] ∧ (!(isLowDERSignature crypto sig).isOk) = true) ∨ (!isDefinedHashtypeSignature sig) = true) ↔
      isValidSignatureEncoding sig = true ∧ crypto.checkLowS sig.dropLast = true ∧
        isDefinedHashtypeSignature sig = true := by
    have hnil : isValidSignatureEncoding [] = false := by decide
    have hlow := @isLowDERSignature_isOk crypto sig
    by_cases hempty : sig = []
    · subst hempty
      simp [hnil]
    · simp only [Bool.not_eq_true', not_or, not_and, Bool.not_eq_false, ne_eq, hempty, not_false_eq_true,
        true_implies, hlow]
      tauto
  have hmult := getInt_multiplier hf.multiplier_nonneg hf.multiplier_le
  simp only [checkCovenant, failIf_neg hkey, failIf_neg horigin, failIf_neg hrange, hmult, ok_bind, bind_eq_ok,
    failIf_eq_ok, orFail_eq_ok, hsig, virtualBalance_iff hf.multiplier_nonneg, exists_const]
  constructor
  · rintro ⟨hencoding, hcheck, txin, htxin, hfee, hvirtual, _, hone, hcons⟩
    refine ⟨hencoding, by simpa using hcheck, ?_, hvirtual, ?_, txin, htxin, hcons⟩
    · intro hm
      by_contra hlt
      exact hfee ⟨hm, by omega⟩
    · intro hm
      rwa [if_pos hm] at hone
  · rintro ⟨hencoding, hcheck, hfee, hvirtual, hone, txin, htxin, hcons⟩
    refine ⟨hencoding, by simpa using hcheck, txin, htxin, ?_, hvirtual, (), ?_, hcons⟩
    · rintro ⟨hm, hlt⟩
      have := hfee hm
      omega
    · split_ifs with hm
      · exact hone hm
      · rfl

theorem checkUapOutputConservation_ne {e : ScriptError} (mult : ℤ) (origin : Bytes)
    (he : e ∉ [ScriptError.uapNoTxContext, .uapInputUnreadable, .uapValueOverflow, .uapMintShapedOutput,
      .uapUnbackedLineageOutput, .uapLineageNotContinued, .uapConservationViolation]) :
    checkUapOutputConservation crypto checker mult origin ≠ .error e := by
  simp only [List.mem_cons, List.not_mem_nil, or_false, not_or] at he
  obtain ⟨hctx, hread, hover, hmint, hback, hcont, hcons⟩ := he
  refine bind_ne_error (failIf_ne_error fun _ => Ne.symm hctx) fun _ => bind_ne_error ?_ fun _ =>
    bind_ne_error ?_ fun _ => bind_ne_error (failIf_ne_error fun _ => Ne.symm hcont) fun _ =>
      failIf_ne_error fun _ => Ne.symm hcons
  · apply foldlM_ne_error
    intro t i
    refine bind_ne_error (orFail_ne_error (Ne.symm hread) _) fun prevScript => ?_
    split
    · simp
    · refine bind_ne_error (orFail_ne_error (Ne.symm hctx) _) fun txin => ?_
      dsimp only
      split_ifs
      · simp
      · exact bind_ne_error (orFail_ne_error (Ne.symm hread) _) fun amount =>
          bind_ne_error (failIf_ne_error fun _ => Ne.symm hover) fun _ => by simp
  · apply foldlM_ne_error
    intro t out
    unfold tallyOutput
    split
    · simp
    · split_ifs
      · simpa using Ne.symm hmint
      · exact bind_ne_error (failIf_ne_error fun _ => Ne.symm hback) fun _ => by simp
      · exact bind_ne_error (failIf_ne_error fun _ => Ne.symm hover) fun _ => by simp

theorem checkCovenant_not_refused (hf : f.WellFormed)
    (h : checker.amount.toInt / coin * f.multiplier ≤ 2 ^ 48) (sigversion : SigVersion) (scriptCode sig : Bytes)
    {e : ScriptError} (he : e = .uapMultiplierRange ∨ e = .uapVirtualBalanceBound) :
    checkCovenant crypto checker sigversion false scriptCode sig f.pubkey f.multiplier f.origin ≠ .error e := by
  have hmult := getInt_multiplier hf.multiplier_nonneg hf.multiplier_le
  have hrange : ¬ (f.multiplier < 0 ∨ f.multiplier > maxUapMultiplier) := by
    have h0 := hf.multiplier_nonneg
    have h1 := hf.multiplier_le
    omega
  have hbound := (virtualBalance_iff hf.multiplier_nonneg).mpr h
  rw [← hmult] at hbound
  refine bind_ne_error (failIf_ne_error fun _ => ?_) fun _ => bind_ne_error (failIf_ne_error fun _ => ?_) fun _ =>
    bind_ne_error (failIf_ne_error fun _ => ?_) fun _ => bind_ne_error (orFail_ne_error ?_ _) fun txin =>
    bind_ne_error (failIf_ne_error fun _ => ?_) fun _ => bind_ne_error (failIf_ne_error fun _ => ?_) fun _ =>
    bind_ne_error (failIf_ne_error fun hc => absurd hc hrange) fun _ =>
    bind_ne_error (failIf_ne_error fun hc => absurd hc hbound) fun _ => bind_ne_error (by simp) fun _ =>
    checkUapOutputConservation_ne f.multiplier f.origin ?_
  all_goals rcases he with rfl | rfl <;> decide

variable {scriptSig : Bytes}

theorem evalStep_minimalPush {script : Bytes} (h : IsMinimalPush scriptSig sig) {s : ScriptState}
    (hpc : s.pc = scriptSig) (hexec : s.vfExec = []) (hlen : sig.length ≤ maxScriptElementSize) :
    evalStep crypto flags checker .base script s = pushElement s sig [] := by
  obtain ⟨op, hop, hrest, ⟨hle, rfl, hmin⟩ | ⟨hnum, rfl⟩⟩ := h
  · rw [← hrest]
    exact evalStep_push (hpc ▸ hop) hle hexec hlen hmin
  · exact evalStep_num (hpc ▸ getOp_last hop (not_push_of_num hnum) hrest) hnum hexec

theorem length_of_isMinimalPush (h : IsMinimalPush scriptSig sig) :
    1 ≤ scriptSig.length ∧ scriptSig.length ≤ sig.length + 5 := by
  obtain ⟨op, hop, hrest, ⟨hle, rfl, hmin⟩ | ⟨hnum, rfl⟩⟩ := h
  · obtain ⟨-, -, hpc⟩ := getOp_minimal hop hle hmin
    have hheader := pushHeader_length op.data.length
    rw [hpc, hrest, List.append_nil, pushData, List.length_append]
    omega
  · rw [getOp_last hop (not_push_of_num hnum) hrest, List.length_singleton]
    omega

theorem evalScript_minimalPush (h : IsMinimalPush scriptSig sig)
    (hlen : sig.length ≤ maxScriptElementSize) {out : List Bytes} :
    evalScript crypto flags checker .base [] scriptSig = .ok out ↔ out = [sig] := by
  obtain ⟨hpos, hsize⟩ := length_of_isMinimalPush h
  have hne : scriptSig ≠ [] := List.length_pos_iff.mp hpos
  obtain ⟨fuel, hfuel⟩ : ∃ fuel, scriptSig.length = fuel + 1 := ⟨scriptSig.length - 1, by omega⟩
  have hok : ¬ scriptSig.length > maxScriptSize := by
    unfold maxScriptSize
    unfold maxScriptElementSize at hlen
    omega
  have hstep := fun s hpc hexec =>
    @evalStep_minimalPush crypto flags checker sig scriptSig scriptSig h s hpc hexec hlen
  unfold evalScript
  rw [failIf_neg hok, ok_bind, hfuel, evalLoop_step hne, hstep _ rfl rfl]
  simp [pushElement, checkStackSize, evalLoop_nil, eq_comm]

theorem sig_length_of_evalScript (h : IsMinimalPush scriptSig sig) {out : List Bytes}
    (heval : evalScript crypto flags checker .base [] scriptSig = .ok out) :
    sig.length ≤ maxScriptElementSize := by
  have hpos := (length_of_isMinimalPush h).1
  have hne : scriptSig ≠ [] := List.length_pos_iff.mp hpos
  obtain ⟨fuel, hfuel⟩ : ∃ fuel, scriptSig.length = fuel + 1 := ⟨scriptSig.length - 1, by omega⟩
  obtain ⟨op, hop, hrest, ⟨hle, rfl, hmin⟩ | ⟨hnum, rfl⟩⟩ := h
  · rw [evalScript, hfuel, evalLoop_step hne] at heval
    simp only [bind_eq_ok] at heval
    obtain ⟨_, _, _, ⟨_, hstep, _⟩, _⟩ := heval
    exact data_length_of_evalStep hop hstep
  · have hlt := op.opcode.toNat_lt
    have habs : ((op.opcode.toNat : ℤ) - ((op1.toNat : ℤ) - 1)).natAbs < 2 ^ 31 := by
      change ((op.opcode.toNat : ℤ) - (0x51 - 1)).natAbs < 2 ^ 31
      omega
    exact le_trans (serialize_length_le habs) (by decide)

theorem uapScript_head (hf : f.WellFormed) :
    ∃ tail, uapScript f = UInt8.ofNat f.pubkey.length :: tail ∧
      (f.pubkey.length = 33 ∨ f.pubkey.length = 65) := by
  have hheader : pushHeader f.pubkey.length = [UInt8.ofNat f.pubkey.length] := by
    rw [pushHeader, toNat_opPushData1, if_pos (by rcases hf.pubkey_size with h | h <;> omega)]
  rw [uapScript_eq, pushData, hheader]
  exact ⟨_, rfl, hf.pubkey_size⟩

theorem isWitnessProgram?_uapScript (hf : f.WellFormed) :
    isWitnessProgram? (uapScript f) = none := by
  obtain ⟨tail, heq, hsize⟩ := uapScript_head hf
  have hdecode : decodeOpN? (UInt8.ofNat f.pubkey.length) = none := by
    rcases hsize with h | h <;> rw [h] <;> decide
  rw [heq]
  unfold isWitnessProgram?
  split
  · rename_i version size program hcons
    obtain ⟨rfl, -⟩ := List.cons.inj hcons
    split_ifs <;> simp [hdecode]
  · rfl

theorem isPayToScriptHash_uapScript (hf : f.WellFormed) :
    isPayToScriptHash (uapScript f) = false := by
  obtain ⟨tail, heq, hsize⟩ := uapScript_head hf
  have hne : UInt8.ofNat f.pubkey.length ≠ opHash160 := by
    rcases hsize with h | h <;> rw [h] <;> decide
  simp [isPayToScriptHash, heq, hne]

theorem verifyScript_uapScript (hf : f.WellFormed) {witness : List Bytes} :
    verifyScript crypto flags checker scriptSig (uapScript f) witness = .ok () ↔
      ¬ (flags.sigPushOnly = true ∧ (!isPushOnly scriptSig) = true) ∧
      ∃ stackCopy, evalScript crypto flags checker .base [] scriptSig = .ok stackCopy ∧
      ∃ stack, evalScript crypto flags checker .base stackCopy (uapScript f) = .ok stack ∧
        castToBool (stack.headD []) = true ∧
        ¬ (flags.cleanStack = true ∧ ((!flags.p2sh) = true ∨ (!flags.witness) = true)) ∧
        ¬ (flags.cleanStack = true ∧ stack.length ≠ 1) ∧
        ¬ (flags.witness = true ∧ (!flags.p2sh) = true) ∧
        ¬ (flags.witness = true ∧ witness ≠ []) := by
  have hwitness (stack : List Bytes) : verifyWitness crypto flags checker witness scriptSig []
      .witnessMalleated (uapScript f) stack false = .ok (stack, false) := by
    unfold verifyWitness
    rw [isWitnessProgram?_uapScript hf]
    split_ifs <;> rfl
  have hp2sh (stackCopy stack : List Bytes) : verifyP2SH crypto flags checker witness scriptSig (uapScript f)
      stackCopy stack false = .ok (stack, false) := by
    unfold verifyP2SH
    rw [isPayToScriptHash_uapScript hf, if_neg (by simp)]
  simp only [verifyScript, bind_eq_ok, failIf_eq_ok, exists_const, hwitness, hp2sh, ok_bind]
  simp

end

/-- The published rules for spending the covenant `script`, with fields `f`, at `prevout` with signature `sig`. -/
structure CovenantRules (crypto : Crypto) (checker : TransactionSignatureChecker) (script sig : Bytes)
    (f : UapOutput) (prevout : COutPoint) : Prop where
  strictDer : isValidSignatureEncoding sig = true
  lowS : crypto.checkLowS sig.dropLast = true
  hashType : isDefinedHashtypeSignature sig = true
  signature : checker.checkSig crypto sig f.pubkey (findAndDelete script (pushData sig)) .base = true
  entryFee : f.isMint = true → 1000 * coin ≤ checker.amount.toInt
  virtualBalance : checker.amount.toInt / coin * f.multiplier ≤ 2 ^ 48
  oneShot : f.isMint = true → ∀ i < checker.txTo.vin.length, i ≠ checker.nIn → ∀ prevScript,
    checker.getInputScriptPubKey? i = some prevScript → parseUapOutputScript? prevScript = none
  conservation :
    checkUapOutputConservation crypto checker f.multiplier (inputLineage crypto f prevout) = .ok ()

section
variable {crypto : Crypto} {flags : ScriptFlags} {checker : TransactionSignatureChecker}

variable {sig : Bytes} {f : UapOutput} {txin : CTxIn}

theorem checkCovenant_iff_rules (hf : f.WellFormed) {script : Bytes}
    (htxin : checker.txTo.vin[checker.nIn]? = some txin) :
    checkCovenant crypto checker .base f.isMint (dropSignature .base script sig) sig f.pubkey f.multiplier
        f.origin = .ok () ↔ CovenantRules crypto checker script sig f txin.prevout := by
  rw [checkCovenant_eq_ok hf]
  constructor
  · rintro ⟨⟨hder, hlow, htype⟩, hcheck, hfee, hvirtual, hone, txin', htxin', hcons⟩
    obtain rfl : txin' = txin := Option.some.inj (htxin'.symm.trans htxin)
    exact ⟨hder, hlow, htype, hcheck, hfee, hvirtual,
      fun hm => (checkUapOneShot_of_conservation hcons).mp (hone hm), hcons⟩
  · intro h
    exact ⟨⟨h.strictDer, h.lowS, h.hashType⟩, h.signature, h.entryFee, h.virtualBalance,
      fun hm => (checkUapOneShot_of_conservation h.conservation).mpr (h.oneShot hm), txin, htxin, h.conservation⟩

theorem length_of_isValidSignatureEncoding (h : isValidSignatureEncoding sig = true) :
    sig.length ≤ 73 := by
  by_contra hlong
  rw [isValidSignatureEncoding, if_neg (by omega), if_pos (by omega)] at h
  cases h

theorem covenantRules_of_verifyScript (hf : f.WellFormed) {scriptSig : Bytes}
    {witness : List Bytes} (hsig : IsMinimalPush scriptSig sig) (htxin : checker.txTo.vin[checker.nIn]? = some txin)
    (h : verifyScript crypto flags checker scriptSig (uapScript f) witness = .ok ()) :
    CovenantRules crypto checker (uapScript f) sig f txin.prevout := by
  obtain ⟨_, stackCopy, hcopy, stack, hstack, _⟩ := (verifyScript_uapScript hf).mp h
  have hlen := sig_length_of_evalScript hsig hcopy
  obtain rfl := (evalScript_minimalPush hsig hlen).mp hcopy
  obtain ⟨sig', st, hcons, _, hcheck, _⟩ := (evalScript_uapScript hf (uapMint_of_evalScript hf hstack)).mp hstack
  obtain ⟨rfl, -⟩ := List.cons.inj hcons
  exact (checkCovenant_iff_rules hf htxin).mp hcheck

/-- Any flags that `VerifyScript` does not assert against decide a covenant the same way. -/
theorem verifyScript_minimalPush (hf : f.WellFormed) {scriptSig : Bytes}
    (hsig : IsMinimalPush scriptSig sig) (htxin : checker.txTo.vin[checker.nIn]? = some txin)
    (hmint : flags.uapMint = true) (hpush : flags.sigPushOnly = false)
    (hclean : flags.cleanStack = true → flags.p2sh = true ∧ flags.witness = true)
    (hwitness : flags.witness = true → flags.p2sh = true) :
    verifyScript crypto flags checker scriptSig (uapScript f) [] = .ok () ↔
      CovenantRules crypto checker (uapScript f) sig f txin.prevout := by
  constructor
  · exact covenantRules_of_verifyScript hf hsig htxin
  · intro hrules
    rw [verifyScript_uapScript hf]
    have hlen : sig.length ≤ maxScriptElementSize :=
      le_trans (length_of_isValidSignatureEncoding hrules.strictDer) (by decide)
    have hroom : f.operands.length + [sig].length ≤ 1000 := by
      unfold UapOutput.operands
      split_ifs <;> simp
    refine ⟨by simp [hpush], [sig], (evalScript_minimalPush hsig hlen).mpr rfl, [boolVch true],
      (evalScript_uapScript hf hmint).mpr
        ⟨sig, [], rfl, hroom, (checkCovenant_iff_rules hf htxin).mpr hrules, rfl⟩, by decide, ?_, by simp, ?_, by simp⟩
    · rintro ⟨hc, hor⟩
      simp [hclean hc] at hor
    · rintro ⟨hw, hp⟩
      simp [hwitness hw] at hp

end

/-- `VerifyScript` of a covenant decides exactly the published rules, for the flags of a block and for the
flags of the mempool. -/
theorem verifyScript_covenant (crypto : Crypto) (checker : TransactionSignatureChecker) (flags : ScriptFlags)
    (script scriptSig sig : Bytes) (f : UapOutput) (txin : CTxIn)
    (hflags : (∃ derSig checkLockTimeVerify checkSequenceVerify,
        flags = blockScriptFlags derSig checkLockTimeVerify true checkSequenceVerify) ∨
      flags = { standardScriptVerifyFlags with uapMint := true })
    (hparse : parseUapOutputScript? script = some f) (hsig : IsMinimalPush scriptSig sig)
    (htxin : checker.txTo.vin[checker.nIn]? = some txin) :
    verifyScript crypto flags checker scriptSig script [] = .ok () ↔
      CovenantRules crypto checker script sig f txin.prevout := by
  obtain ⟨hf, rfl⟩ := parseUapOutputScript?_eq_some.mp hparse
  rcases hflags with ⟨derSig, cltv, csv, rfl⟩ | rfl
  · exact verifyScript_minimalPush hf hsig htxin rfl rfl (by simp [blockScriptFlags]) (by simp [blockScriptFlags])
  · exact verifyScript_minimalPush hf hsig htxin rfl rfl (fun _ => ⟨rfl, rfl⟩) (fun _ => rfl)

def mintKey : Bytes := beBytes 33 0x0279be667ef9dcbbac55a06295ce870b07029bfcdb2dce28d959f2815b16f81798

def mintSig : Bytes :=
  beBytes 70 0x304402207ce9d6f01c6bf5c6e09736360b6cd98eba2e1b7bbfe829b07d9091adf21f58160220350f06861b6c5ce715d11c3740388dcb2cc7ffe871f63a3a314bf6472deae130

def mintSpend : TransactionSignatureChecker where
  txTo := {
    nVersion := 1
    vin := [⟨⟨.ofByte 0x11, 0⟩, pushData (mintSig ++ [1]), 0xffffffff, []⟩]
    vout := [⟨100000000000, uapScript
      ⟨mintKey, 5, beBytes 32 0x075fce99a18c5a946572efe571afdbc79505361d2e43f8ed10b9b4c47f64538e, false⟩⟩]
    nLockTime := 0 }
  nIn := 0
  amount := 100000000000
  vPrevScriptPubKeys := some [uapScript ⟨mintKey, 5, [], true⟩]
  vPrevAmounts := some [100000000000]

def mintCrypto : Crypto := Crypto.recorded
  [(mintKey, beBytes 32 0x285eb30de2ad79b91e343461b379c7f643f4fedc08bc0ac538372e65b9ce4656, mintSig)]

theorem verifyScript_covenant_mint :
    verifyScript mintCrypto { standardScriptVerifyFlags with uapMint := true } mintSpend
      (pushData (mintSig ++ [1])) (uapScript ⟨mintKey, 5, [], true⟩) [] = .ok () := by
  have hsig : IsMinimalPush (pushData (mintSig ++ [1])) (mintSig ++ [1]) :=
    ⟨⟨71, mintSig ++ [1], []⟩, by decide +kernel, rfl, Or.inl (by decide +kernel)⟩
  refine (verifyScript_covenant _ mintSpend _ _ _ _ ⟨mintKey, 5, [], true⟩ _ (Or.inr rfl) (by decide +kernel)
    hsig rfl).mpr ?_
  refine ⟨by decide +kernel, by decide +kernel, by decide +kernel, by decide +kernel, by decide +kernel,
    by decide +kernel, ?_, by decide +kernel⟩
  intro _ i hi hne
  exact absurd (Nat.lt_one_iff.mp hi) hne

end Whippet.Script
