import Whippet.Script.CountedEval
import Whippet.Script.StackBound

/-! A run of `EvalScript` calls `CheckSig` at most as often as `GetSigOpCount` counts. The count looks at the opcode
before `OP_CHECKMULTISIG`, and the run at what is on the stack, so the run is followed together with that opcode. -/
namespace Whippet.Script
open Lib Primitives

section
variable {crypto : Crypto} {flags : ScriptFlags} {checker : TransactionSignatureChecker} {sigversion : SigVersion}
  {checkSig : Bytes → Bytes → Bytes → SigVersion → Bool} {script : Bytes} {fExec : Bool} {s t : ScriptState}

/-- Every way through a computation that succeeds ends with the iterator where it was. -/
def KeepsPc (s : ScriptState) (x : Except ScriptError ScriptState) : Prop := ∀ t, x = .ok t → t.pc = s.pc

theorem keepsPc_error (e : ScriptError) : KeepsPc s (.error e) := by
  intro t h
  cases h

theorem keepsPc_ok (h : t.pc = s.pc) : KeepsPc s (.ok t) := by
  intro t' h'
  cases h'
  exact h

theorem KeepsPc.bind {α : Type} {x : Except ScriptError α} {f : α → Except ScriptError ScriptState}
    (h : ∀ a, x = .ok a → KeepsPc s (f a)) : KeepsPc s (x >>= f) := by
  intro t ht
  obtain ⟨a, hx, ha⟩ := bind_eq_ok.mp ht
  exact h a hx t ha

theorem KeepsPc.ite {c : Prop} [Decidable c] {x y : Except ScriptError ScriptState} (hx : KeepsPc s x)
    (hy : KeepsPc s y) : KeepsPc s (if c then x else y) := by
  split_ifs
  · exact hx
  · exact hy

theorem keepsPc_execUpgradableNop : KeepsPc s (execUpgradableNop flags s) := .bind fun _ _ => keepsPc_ok rfl

theorem keepsPc_execCheckLockTimeVerify : KeepsPc s (execCheckLockTimeVerify flags checker s) := by
  unfold execCheckLockTimeVerify
  refine .ite keepsPc_execUpgradableNop ?_
  split
  · exact keepsPc_error _
  · exact .bind fun _ _ => .bind fun _ _ => .bind fun _ _ => keepsPc_ok rfl

theorem keepsPc_execCheckSequenceVerify : KeepsPc s (execCheckSequenceVerify flags checker s) := by
  unfold execCheckSequenceVerify
  refine .ite keepsPc_execUpgradableNop ?_
  split
  · exact keepsPc_error _
  · exact .bind fun _ _ => .bind fun _ _ => .ite (keepsPc_ok rfl) (.bind fun _ _ => keepsPc_ok rfl)

theorem keepsPc_execIf (isNotIf : Bool) : KeepsPc s (execIf flags sigversion isNotIf fExec s) := by
  unfold execIf
  refine .ite (keepsPc_ok rfl) ?_
  split
  · exact keepsPc_error _
  · exact .bind fun _ _ => keepsPc_ok rfl

theorem keepsPc_execPickRoll (isRoll : Bool) : KeepsPc s (execPickRoll flags isRoll s) := by
  unfold execPickRoll
  split
  · exact .ite (keepsPc_error _) (.bind fun _ _ => .bind fun _ _ => keepsPc_ok rfl)
  · exact keepsPc_error _

theorem keepsPc_execEqual (isVerify : Bool) : KeepsPc s (execEqual isVerify s) := by
  unfold execEqual
  split
  · exact .ite (.bind fun _ _ => keepsPc_ok rfl) (keepsPc_ok rfl)
  · exact keepsPc_error _

theorem keepsPc_execUnary (op : UnaryOp) : KeepsPc s (execUnary flags op s) := by
  unfold execUnary
  split
  · exact .bind fun _ _ => keepsPc_ok rfl
  · exact keepsPc_error _

theorem keepsPc_execBinary (op : BinaryOp) : KeepsPc s (execBinary flags op s) := by
  unfold execBinary
  split
  · exact .bind fun _ _ => .bind fun _ _ => keepsPc_ok rfl
  · exact keepsPc_error _

theorem keepsPc_execVerify (e : ScriptError) : KeepsPc s (execVerify e s) := by
  unfold execVerify
  split
  · exact .bind fun _ _ => keepsPc_ok rfl
  · exact keepsPc_error _

theorem keepsPc_execWithin : KeepsPc s (execWithin flags s) := by
  unfold execWithin
  split
  · exact .bind fun _ _ => .bind fun _ _ => .bind fun _ _ => keepsPc_ok rfl
  · exact keepsPc_error _

theorem keepsPc_execInspect : KeepsPc s (execInspect flags checker s) := by
  unfold execInspect
  split
  · exact keepsPc_error _
  · refine .bind fun _ _ => .ite (keepsPc_ok rfl) (.ite (keepsPc_ok rfl) (.ite (keepsPc_ok rfl)
      (.ite (keepsPc_ok rfl) (.ite ?_ (keepsPc_error _)))))
    split
    · exact keepsPc_error _
    · exact .bind fun _ _ => .bind fun _ _ => .bind fun _ _ => .bind fun _ _ => keepsPc_ok rfl

theorem keepsPc_countCheckSig (isVerify : Bool) :
    KeepsPc s (countCheckSig crypto flags sigversion checkSig isVerify s).result := by
  unfold countCheckSig
  split
  · simp only [Counted.result_bind, Counted.result_lift]
    exact .bind fun _ _ => .bind fun _ _ => .bind fun _ _ => .bind fun _ _ =>
      .ite (.bind fun _ _ => keepsPc_ok rfl) (keepsPc_ok rfl)
  · exact keepsPc_error _

theorem keepsPc_countCheckMultiSig (isVerify : Bool) :
    KeepsPc s (countCheckMultiSig crypto flags sigversion checkSig isVerify s).result := by
  unfold countCheckMultiSig
  split
  · exact keepsPc_error _
  · simp only [Counted.result_bind, Counted.result_lift]
    exact .bind fun _ _ => .bind fun _ _ => .bind fun _ _ => .bind fun _ _ => .bind fun _ _ => .bind fun _ _ =>
      .bind fun _ _ => .bind fun _ _ => .bind fun _ _ => .bind fun _ _ =>
        .ite (.bind fun _ _ => keepsPc_ok rfl) (keepsPc_ok rfl)

theorem keepsPc_countMint (isMint : Bool) :
    KeepsPc s (countMint crypto flags checker sigversion checkSig isMint s).result := by
  unfold countMint
  split
  · exact keepsPc_error _
  · split
    · simp only [countRunCovenant, Counted.result_bind, Counted.result_lift]
      exact .bind fun _ _ => .bind fun _ _ => keepsPc_ok rfl
    · simp only [countRunCovenant, Counted.result_bind, Counted.result_lift]
      exact .bind fun _ _ => .bind fun _ _ => keepsPc_ok rfl
    · exact keepsPc_error _

theorem keepsPc_countInstr (instr : Instr) :
    KeepsPc s (countInstr crypto flags checker sigversion checkSig script fExec s instr).result := by
  cases instr with
  | checkSig isVerify => exact keepsPc_countCheckSig isVerify
  | checkMultiSig isVerify => exact keepsPc_countCheckMultiSig isVerify
  | mint isMint => exact keepsPc_countMint isMint
  | num n => exact keepsPc_ok rfl
  | nop => exact keepsPc_ok rfl
  | upgradableNop => exact keepsPc_execUpgradableNop
  | checkLockTimeVerify => exact keepsPc_execCheckLockTimeVerify
  | checkSequenceVerify => exact keepsPc_execCheckSequenceVerify
  | ifNotIf isNotIf => exact keepsPc_execIf isNotIf
  | verify => exact keepsPc_execVerify _
  | ret => exact keepsPc_error _
  | stack op => exact .bind fun _ _ => keepsPc_ok rfl
  | pickRoll isRoll => exact keepsPc_execPickRoll isRoll
  | equal isVerify => exact keepsPc_execEqual isVerify
  | unary op => exact keepsPc_execUnary op
  | binary op => exact keepsPc_execBinary op
  | numEqualVerify =>
    intro t ht
    obtain ⟨mid, hmid, ht⟩ := bind_eq_ok.mp ht
    rw [keepsPc_execVerify _ t ht, keepsPc_execBinary _ mid hmid]
  | within => exact keepsPc_execWithin
  | codeSeparator => exact keepsPc_ok rfl
  | inspect => exact keepsPc_execInspect
  | inspectSelf => exact keepsPc_ok rfl
  | elseOp | endIf | toAltStack | fromAltStack | hash =>
    simp only [countInstr, execInstr, Counted.result_lift]
    split
    · exact keepsPc_error _
    · exact keepsPc_ok rfl

theorem calls_countCheckSig_le (isVerify : Bool) :
    (countCheckSig crypto flags sigversion checkSig isVerify s).calls ≤ 1 := by
  unfold countCheckSig
  split
  · exact Counted.calls_lift_bind_le fun _ _ => Counted.calls_lift_bind_le fun _ _ =>
      Counted.calls_bind_le_left (Nat.le_refl 1) fun _ => rfl
  · exact Nat.zero_le 1

theorem calls_countMultiSigLoop_le (scriptCode : Bytes) (sigs keys : List Bytes) :
    (countMultiSigLoop crypto flags sigversion checkSig scriptCode sigs keys).calls ≤ keys.length := by
  induction keys generalizing sigs with
  | nil => cases sigs <;> exact Nat.le_refl 0
  | cons key keys ih =>
    cases sigs with
    | nil => exact Nat.zero_le _
    | cons sig sigs =>
      rw [countMultiSigLoop, List.length_cons, Nat.add_comm]
      refine Counted.calls_lift_bind_le fun _ _ => Counted.calls_lift_bind_le fun _ _ =>
        Counted.calls_bind_le (Nat.le_refl 1) fun fOk _ => ?_
      generalize (if fOk then sigs else sig :: sigs) = left
      dsimp only
      split_ifs
      · exact Nat.zero_le _
      · exact ih _

/-- `OP_CHECKMULTISIG` checks one signature against each key at most, and the stack says how many keys there are. -/
theorem calls_countCheckMultiSig_le (isVerify : Bool) {n : ℕ}
    (h : ∀ top, s.stack.head? = some top → getInt (setVch top) ≤ maxPubkeysPerMultisig → getInt (setVch top) ≤ n) :
    (countCheckMultiSig crypto flags sigversion checkSig isVerify s).calls ≤ n := by
  unfold countCheckMultiSig
  split
  · exact Nat.zero_le n
  · next top st hs =>
    refine Counted.calls_lift_bind_le fun nKeysNum hnum => Counted.calls_lift_bind_le fun _ hcount =>
      Counted.calls_lift_bind_le fun _ _ => Counted.calls_lift_bind_le fun _ _ => Counted.calls_lift_bind_le fun _ _ =>
      Counted.calls_lift_bind_le fun _ _ => Counted.calls_lift_bind_le fun _ _ =>
      Counted.calls_bind_le_left ((calls_countMultiSigLoop_le _ _ _).trans ?_) fun _ => rfl
    obtain ⟨-, rfl⟩ := scriptNum_eq_ok hnum
    have hle := failIf_eq_ok.mp hcount
    have hn := h top (by rw [hs]; rfl) (by omega)
    have htake := List.length_take_le (getInt (setVch top)).toNat st
    omega

theorem calls_countCovenant_le (isMint : Bool) (scriptCode vchSig vchPubKey : Bytes) (multiplier : ℤ)
    (scriptOrigin : Bytes) :
    (countCovenant crypto checker sigversion checkSig isMint scriptCode vchSig vchPubKey multiplier
      scriptOrigin).calls ≤ 1 :=
  Counted.calls_lift_bind_le fun _ _ => Counted.calls_lift_bind_le fun _ _ =>
    Counted.calls_bind_le_left (Nat.le_refl 1) fun _ => rfl

theorem calls_countMint_le (isMint : Bool) :
    (countMint crypto flags checker sigversion checkSig isMint s).calls ≤ 1 := by
  have hrun : ∀ scriptOrigin vchMultiplier vchPubKey vchSig st, (countRunCovenant crypto flags checker sigversion
      checkSig isMint s scriptOrigin vchMultiplier vchPubKey vchSig st).calls ≤ 1 := by
    intro scriptOrigin vchMultiplier vchPubKey vchSig st
    exact Counted.calls_lift_bind_le fun _ _ =>
      Counted.calls_bind_le_left (calls_countCovenant_le _ _ _ _ _ _) fun _ => rfl
  unfold countMint
  split
  · exact Nat.zero_le 1
  · split
    · exact hrun _ _ _ _ _
    · exact hrun _ _ _ _ _
    · exact Nat.zero_le 1

/-- The opcodes of the instructions that check signatures. -/
def hasSigOpcode (opcode : UInt8) : Instr → Bool
  | .checkSig _ => opcode = opCheckSig ∨ opcode = opCheckSigVerify
  | .checkMultiSig _ => opcode = opCheckMultiSig ∨ opcode = opCheckMultiSigVerify
  | .mint _ => opcode = opMint ∨ opcode = opMintTransfer
  | _ => true

variable {opcode : UInt8}

theorem hasSigOpcode_of_decodeInstr? {instr : Instr} (h : decodeInstr? opcode = some instr) :
    hasSigOpcode opcode instr = true := by
  have htable : ∀ entry ∈ opcodeTable, hasSigOpcode entry.1 entry.2 = true := by decide +kernel
  rw [decodeInstr?] at h
  split_ifs at h
  · cases h
    rfl
  · obtain ⟨before, after, hsplit, -⟩ := List.lookup_eq_some_iff.mp h
    exact htable (opcode, instr) (by rw [hsplit]; exact List.mem_append_cons_self)

theorem decodeInstr?_checkSig {isVerify : Bool}
    (h : decodeInstr? opcode = some (.checkSig isVerify)) : opcode = opCheckSig ∨ opcode = opCheckSigVerify :=
  of_decide_eq_true (hasSigOpcode_of_decodeInstr? h)

theorem decodeInstr?_checkMultiSig {isVerify : Bool}
    (h : decodeInstr? opcode = some (.checkMultiSig isVerify)) :
    opcode = opCheckMultiSig ∨ opcode = opCheckMultiSigVerify :=
  of_decide_eq_true (hasSigOpcode_of_decodeInstr? h)

theorem decodeInstr?_mint {isMint : Bool} (h : decodeInstr? opcode = some (.mint isMint)) :
    opcode = opMint ∨ opcode = opMintTransfer :=
  of_decide_eq_true (hasSigOpcode_of_decodeInstr? h)

theorem decodeInstr?_num (h : op1 ≤ opcode ∧ opcode ≤ op16) :
    ∃ n : ℕ, decodeOpN? opcode = some n ∧ decodeInstr? opcode = some (.num n) ∧ getInt (setVch (serialize n)) = n := by
  have hall : ∀ opcode : UInt8, op1 ≤ opcode ∧ opcode ≤ op16 →
      decodeOpN? opcode = some (opcode.toNat - 80) ∧
        decodeInstr? opcode = some (.num (opcode.toNat - 80 : ℕ)) ∧
        getInt (setVch (serialize (opcode.toNat - 80 : ℕ))) = (opcode.toNat - 80 : ℕ) :=
    forall_uint8 (by decide +kernel)
  exact ⟨_, hall opcode h⟩

/-- After `OP_1` to `OP_16` in a branch that runs, the top of the stack is that number. -/
def Aligned (lastOpcode : UInt8) (s : ScriptState) : Prop :=
  ∀ n, op1 ≤ lastOpcode ∧ lastOpcode ≤ op16 → decodeOpN? lastOpcode = some n → s.vfExec.all id = true →
    s.stack.head? = some (serialize n)

variable {lastOpcode : UInt8}

theorem calls_countInstr_le {instr : Instr} (hdecode : decodeInstr? opcode = some instr)
    (hexec : s.vfExec.all id = true ∨ isConditional opcode = true) (hs : Aligned lastOpcode s) :
    (countInstr crypto flags checker sigversion checkSig script fExec s instr).calls ≤
      opSigOpCount true lastOpcode opcode := by
  cases instr with
  | checkSig isVerify =>
    have hcount : opSigOpCount true lastOpcode opcode = 1 := by
      obtain rfl | rfl := decodeInstr?_checkSig hdecode <;> rfl
    rw [hcount]
    exact calls_countCheckSig_le isVerify
  | mint isMint =>
    have hcount : opSigOpCount true lastOpcode opcode = 1 := by
      obtain rfl | rfl := decodeInstr?_mint hdecode <;> rfl
    rw [hcount]
    exact calls_countMint_le isMint
  | checkMultiSig isVerify =>
    have hcount : opSigOpCount true lastOpcode opcode =
        if op1 ≤ lastOpcode ∧ lastOpcode ≤ op16 then (decodeOpN? lastOpcode).getD 0 else maxPubkeysPerMultisig := by
      obtain rfl | rfl := decodeInstr?_checkMultiSig hdecode
      all_goals
        rw [opSigOpCount, if_neg (by decide), if_pos (by decide)]
        simp only [true_and]
    have hall : s.vfExec.all id = true := by
      obtain rfl | rfl := decodeInstr?_checkMultiSig hdecode
      all_goals exact hexec.resolve_right (by decide)
    rw [hcount]
    split_ifs with hlast
    · -- The key count is the number the opcode before has pushed.
      obtain ⟨n, hn, -, hnum⟩ := decodeInstr?_num hlast
      rw [hn]
      refine calls_countCheckMultiSig_le isVerify fun top htop _ => ?_
      rw [hs n hlast hn hall] at htop
      cases htop
      exact hnum.le
    · exact calls_countCheckMultiSig_le isVerify fun top _ hle => hle
  | _ => exact Nat.zero_le _

variable {op : ScriptOp}

theorem calls_countOp_le (hs : Aligned lastOpcode s) :
    (countOp crypto flags checker sigversion checkSig script op s).calls ≤ opSigOpCount true lastOpcode op.opcode := by
  rw [countOp]
  split_ifs with hpush hexec
  · exact Nat.zero_le _
  · refine Counted.calls_lift_bind_le fun instr hinstr => ?_
    exact calls_countInstr_le (orFail_eq_ok.mp hinstr) hexec hs
  · exact Nat.zero_le _

theorem keepsPc_countOp (op : ScriptOp) :
    KeepsPc s (countOp crypto flags checker sigversion checkSig script op s).result := by
  rw [countOp]
  split_ifs with hpush hexec
  · exact .bind fun _ _ => keepsPc_ok rfl
  · rw [Counted.result_bind]
    exact .bind fun instr _ => keepsPc_countInstr instr
  · exact keepsPc_ok rfl

theorem aligned_countOp
    (h : (countOp crypto flags checker sigversion checkSig script op s).result = .ok t) : Aligned op.opcode t := by
  intro n hnum hn hall
  obtain ⟨m, hm, hdecode, -⟩ := decodeInstr?_num hnum
  obtain rfl : m = n := Option.some.inj (hm.symm.trans hn)
  have hgt : ¬ op.opcode ≤ opPushData4 := fun hle => absurd (UInt8.le_trans hnum.1 hle) (by decide)
  rw [countOp, if_neg fun hpush => hgt hpush.2] at h
  split_ifs at h with hexec
  · rw [hdecode] at h
    cases h
    rfl
  · cases h
    exact absurd (.inl hall) hexec

theorem calls_countStep_le (hop : getOp s.pc = .ok op) (hs : Aligned lastOpcode s) :
    (countStep crypto flags checker sigversion checkSig script s).calls ≤ opSigOpCount true lastOpcode op.opcode := by
  rw [countStep]
  refine Counted.calls_lift_bind_le fun op' hop' => ?_
  obtain rfl : op = op' := by
    rw [orFail_eq_ok, getOp?_eq_some, hop] at hop'
    exact Except.ok.inj hop'
  refine Counted.calls_lift_bind_le fun _ _ => Counted.calls_lift_bind_le fun _ _ =>
    Counted.calls_lift_bind_le fun _ _ => Counted.calls_bind_le_left ?_ fun _ => rfl
  exact calls_countOp_le hs

theorem countStep_eq_ok (h : (countStep crypto flags checker sigversion checkSig script s).result = .ok t) :
    ∃ op, getOp s.pc = .ok op ∧ t.pc = op.rest ∧ Aligned op.opcode t := by
  simp only [countStep, Counted.result_bind, Counted.result_lift, bind_eq_ok, orFail_eq_ok, getOp?_eq_some] at h
  obtain ⟨op, hop, -, -, -, -, -, -, u, hu, ht⟩ := h
  obtain ⟨-, rfl⟩ : _ ∧ u = t := by simpa [checkStackSize, bind_eq_ok] using ht
  exact ⟨op, hop, keepsPc_countOp op u hu, aligned_countOp hu⟩

/-- Along the loop, what is left of the script bounds the calls that are still to come. -/
theorem calls_countLoop_le (fuel : ℕ) {fuel' : ℕ} (hs : Aligned lastOpcode s)
    (hfuel : s.pc.length < fuel') :
    (countLoop crypto flags checker sigversion checkSig script fuel s).calls ≤
      getSigOpCountLoop true fuel' lastOpcode s.pc := by
  induction fuel generalizing s lastOpcode fuel' with
  | zero => exact Nat.zero_le _
  | succ fuel ih =>
    obtain ⟨fuel', rfl⟩ : ∃ n, fuel' = n + 1 := ⟨fuel' - 1, by omega⟩
    rw [countLoop]
    split_ifs with hpc
    · exact Nat.zero_le _
    · cases hop : getOp s.pc with
      | error rest =>
        -- Both loops stop where no operation can be read.
        have hnone : getOp? s.pc = none := by
          cases h : getOp? s.pc with
          | none => rfl
          | some op => rw [getOp?_eq_some, hop] at h; cases h
        have hzero : (countStep crypto flags checker sigversion checkSig script s).calls = 0 ∧
            (countStep crypto flags checker sigversion checkSig script s).result = .error .badOpcode := by
          rw [countStep, hnone]
          exact ⟨rfl, rfl⟩
        have hle : (countStep crypto flags checker sigversion checkSig script s >>=
            countLoop crypto flags checker sigversion checkSig script fuel).calls ≤ 0 + 0 := by
          refine Counted.calls_bind_le hzero.1.le fun t ht => ?_
          rw [hzero.2] at ht
          cases ht
        exact hle.trans (Nat.zero_le _)
      | ok op =>
        rw [getSigOpCountLoop, hop]
        refine Counted.calls_bind_le (calls_countStep_le hop hs) fun t ht => ?_
        obtain ⟨op', hop', hrest, haligned⟩ := countStep_eq_ok ht
        obtain rfl : op = op' := Except.ok.inj (hop.symm.trans hop')
        rw [← hrest]
        have hlt := getOp_rest_lt hop
        exact ih haligned (by rw [hrest]; omega)

theorem aligned_invalidOpcode : Aligned opInvalidOpcode s := by
  intro n hnum
  exact absurd hnum (by decide)

/-- `EvalScript` with a checker that counts its calls does what it does without, and no answers the checker could give
make it call `CheckSig` more often than `GetSigOpCount(true)` counts. -/
theorem checkSig_calls_le_sigOpCount (crypto : Crypto) (flags : ScriptFlags) (checker : TransactionSignatureChecker)
    (sigversion : SigVersion) (stack : List Bytes) (script : Bytes) :
    (countScript crypto flags checker sigversion (checker.checkSig crypto) stack script).result =
        evalScript crypto flags checker sigversion stack script ∧
      ∀ checkSig : Bytes → Bytes → Bytes → SigVersion → Bool,
        (countScript crypto flags checker sigversion checkSig stack script).calls ≤ getSigOpCount script true := by
  refine ⟨result_countScript stack script, fun checkSig => ?_⟩
  rw [countScript]
  refine Counted.calls_lift_bind_le fun _ _ => Counted.calls_bind_le_left ?_ fun _ => rfl
  exact calls_countLoop_le _ aligned_invalidOpcode (Nat.lt_succ_self _)

end
end Whippet.Script
