import Whippet.Script.Execution

/-! Running a covenant: `EvalScript` on a mint or transfer output succeeds exactly when the covenant's own
checks pass. -/
namespace Whippet.Script
open Lib Primitives

section
variable {crypto : Crypto} {flags : ScriptFlags} {checker : TransactionSignatureChecker}
  {sigversion : SigVersion} {script : Bytes}

def UapOutput.operands (f : UapOutput) : List Bytes :=
  if f.isMint then [serialize f.multiplier, f.pubkey] else [f.origin, serialize f.multiplier, f.pubkey]

def uapOpcode (isMint : Bool) : UInt8 := if isMint then opMint else opMintTransfer

theorem decodeInstr?_uapOpcode (isMint : Bool) : decodeInstr? (uapOpcode isMint) = some (.mint isMint) := by
  cases isMint <;> decide

theorem getOp_uapOpcode (isMint : Bool) : getOp [uapOpcode isMint] = .ok ⟨uapOpcode isMint, [], []⟩ := by
  cases isMint <;> decide

theorem isDisabled_uapOpcode (isMint : Bool) : isDisabled (uapOpcode isMint) = false := by
  cases isMint <;> decide

theorem not_push_uapOpcode (isMint : Bool) : ¬ uapOpcode isMint ≤ opPushData4 := by
  cases isMint <;> decide

variable {t s : ScriptState}

theorem evalLoop_pushElement {data rest : Bytes} (hpc : s.pc ≠ [])
    (hstep : evalStep crypto flags checker sigversion script s = pushElement s data rest) (fuel : ℕ) :
    evalLoop crypto flags checker sigversion script (fuel + 1) s = .ok t ↔
      s.stack.length + 1 + s.altstack.length ≤ 1000 ∧
        evalLoop crypto flags checker sigversion script fuel
          { s with pc := rest, stack := data :: s.stack } = .ok t := by
  rw [evalLoop_step hpc, hstep]
  simp [pushElement, checkStackSize]

variable {m : ℤ}

theorem scriptNum_serialize (h0 : 0 ≤ m) (h1 : m ≤ maxUapMultiplier) :
    scriptNum flags (serialize m) defaultMaxNumSize = .ok m := by
  have hlen : (serialize m).length ≤ 4 := serialize_length_le (by unfold maxUapMultiplier at h1; omega)
  rw [scriptNum, orFail_eq_ok, scriptNum?_eq_some]
  exact ⟨hlen, fun _ => isMinimalNum_serialize m, setVch_serialize m⟩

theorem runCovenant_eq_ok {isMint : Bool} {origin pubkey sig : Bytes}
    {st : List Bytes} (h0 : 0 ≤ m) (h1 : m ≤ maxUapMultiplier) :
    runCovenant crypto flags checker sigversion isMint s origin (serialize m) pubkey sig st = .ok t ↔
      checkCovenant crypto checker sigversion isMint (dropSignature sigversion s.pbegincodehash sig) sig pubkey m
          origin = .ok () ∧
        t = { s with stack := boolVch true :: st } := by
  simp only [runCovenant, scriptNum_serialize h0 h1, ok_bind, bind_eq_ok, Except.ok.injEq]
  constructor
  · rintro ⟨_, hcheck, ht⟩
    exact ⟨hcheck, ht.symm⟩
  · rintro ⟨hcheck, ht⟩
    exact ⟨(), hcheck, ht.symm⟩

variable {f : UapOutput} {stack : List Bytes}

theorem execMint_operands (hf : f.WellFormed) (hflag : flags.uapMint = true) (hstack : s.stack = f.operands ++ stack) :
    execMint crypto flags checker sigversion f.isMint s = .ok t ↔
      ∃ sig st, stack = sig :: st ∧
        checkCovenant crypto checker sigversion f.isMint (dropSignature sigversion s.pbegincodehash sig) sig
          f.pubkey f.multiplier f.origin = .ok () ∧
        t = { s with stack := boolVch true :: st } := by
  obtain ⟨pubkey, multiplier, origin, isMint⟩ := f
  have h0 : 0 ≤ multiplier := hf.multiplier_nonneg
  have h1 : multiplier ≤ maxUapMultiplier := hf.multiplier_le
  cases isMint with
  | true =>
    obtain rfl : origin = [] := hf.origin_mint rfl
    cases stack with
    | nil => simp [execMint, hflag, hstack, UapOutput.operands]
    | cons sig st => simp [execMint, hflag, hstack, UapOutput.operands, runCovenant_eq_ok h0 h1]
  | false =>
    cases stack with
    | nil => simp [execMint, hflag, hstack, UapOutput.operands]
    | cons sig st => simp [execMint, hflag, hstack, UapOutput.operands, runCovenant_eq_ok h0 h1]

theorem evalLoop_uapOpcode {isMint : Bool} (hpc : s.pc = [uapOpcode isMint])
    (hexec : s.vfExec = []) (hcount : s.nOpCount = 0) (fuel : ℕ) :
    evalLoop crypto flags checker sigversion script (fuel + 1) s = .ok t ↔
      ∃ u, execMint crypto flags checker sigversion isMint { s with pc := [], nOpCount := 1 } = .ok u ∧
        u.stack.length + u.altstack.length ≤ 1000 ∧
        evalLoop crypto flags checker sigversion script fuel u = .ok t := by
  have hget : getOp? s.pc = some ⟨uapOpcode isMint, [], []⟩ := by
    rw [hpc]
    exact getOp?_eq_some.mpr (getOp_uapOpcode isMint)
  have hgt : op16 < uapOpcode isMint := by cases isMint <;> decide
  have hstep : evalStep crypto flags checker sigversion script s =
      execMint crypto flags checker sigversion isMint { s with pc := [], nOpCount := 1 } >>= checkStackSize := by
    simp [evalStep, hget, orFail, hgt, hcount, isDisabled_uapOpcode, execOp, hexec, not_push_uapOpcode,
      decodeInstr?_uapOpcode, execInstr, maxOpsPerScript]
  rw [evalLoop_step (by simp [hpc]), hstep]
  simp only [bind_eq_ok, checkStackSize, failIf_eq_ok, Except.ok.injEq]
  constructor
  · rintro ⟨_, ⟨u, hu, _, hsize, rfl⟩, ht⟩
    exact ⟨u, hu, by omega, ht⟩
  · rintro ⟨u, hu, hsize, ht⟩
    exact ⟨u, ⟨u, hu, ⟨⟩, by omega, rfl⟩, ht⟩

theorem evalLoop_covenant (hf : f.WellFormed) (hflag : flags.uapMint = true)
    (hpc : s.pc = [uapOpcode f.isMint]) (hstack : s.stack = f.operands ++ stack)
    (halt : s.altstack = []) (hexec : s.vfExec = []) (hcount : s.nOpCount = 0) (hroom : s.stack.length ≤ 1000)
    (fuel : ℕ) :
    evalLoop crypto flags checker sigversion script (fuel + 1) s = .ok t ↔
      ∃ sig st, stack = sig :: st ∧
        checkCovenant crypto checker sigversion f.isMint (dropSignature sigversion s.pbegincodehash sig) sig
          f.pubkey f.multiplier f.origin = .ok () ∧
        t = { s with pc := [], nOpCount := 1, stack := boolVch true :: st } := by
  rw [evalLoop_uapOpcode hpc hexec hcount]
  have hstack' : ({ s with pc := [], nOpCount := 1 } : ScriptState).stack = f.operands ++ stack := hstack
  constructor
  · rintro ⟨u, hu, _, ht⟩
    obtain ⟨sig, st, hst, hcheck, rfl⟩ := (execMint_operands hf hflag hstack').mp hu
    rw [evalLoop_nil rfl, Except.ok.injEq] at ht
    exact ⟨sig, st, hst, hcheck, ht.symm⟩
  · rintro ⟨sig, st, hst, hcheck, ht⟩
    refine ⟨t, (execMint_operands hf hflag hstack').mpr ⟨sig, st, hst, hcheck, ht⟩, ?_, ?_⟩
    · rw [hstack, hst, List.length_append, List.length_cons] at hroom
      simp only [ht, halt, List.length_cons, List.length_nil]
      omega
    · rw [evalLoop_nil (by rw [ht])]

theorem pushHeader_length (size : ℕ) : 1 ≤ (pushHeader size).length ∧ (pushHeader size).length ≤ 5 := by
  unfold pushHeader
  split_ifs <;> simp

theorem pushInt64_length (h0 : 0 ≤ m) (h1 : m ≤ maxUapMultiplier) :
    1 ≤ (pushInt64 m).length ∧ (pushInt64 m).length ≤ 9 := by
  have hlen : (serialize m).length ≤ 4 := serialize_length_le (by unfold maxUapMultiplier at h1; omega)
  have hheader := pushHeader_length (serialize m).length
  unfold pushInt64
  split_ifs
  · simp
  · simp
  · rw [pushData, List.length_append]
    omega

theorem uapScript_eq (f : UapOutput) :
    uapScript f = pushData f.pubkey ++ (pushInt64 f.multiplier ++
      ((if f.isMint then [] else pushData f.origin) ++ [uapOpcode f.isMint])) := by
  unfold uapScript uapOpcode
  cases f.isMint <;> simp

theorem uapScript_length (hf : f.WellFormed) :
    4 ≤ (uapScript f).length ∧ (uapScript f).length ≤ maxScriptSize := by
  have hkey := pushHeader_length f.pubkey.length
  have horigin := pushHeader_length f.origin.length
  have hmult := pushInt64_length hf.multiplier_nonneg hf.multiplier_le
  have hsize := hf.pubkey_size
  have hosize := hf.origin_size
  rw [uapScript_eq]
  cases hm : f.isMint with
  | true => simp [pushData, maxScriptSize]; omega
  | false =>
    simp [hm, uapOriginSize] at hosize
    simp [pushData, maxScriptSize]
    omega

theorem pushData_append_ne_nil (data rest : Bytes) : pushData data ++ rest ≠ [] := by
  intro h
  have hheader := (pushHeader_length data.length).1
  rw [pushData, List.append_assoc] at h
  rw [(List.append_eq_nil_iff.mp h).1] at hheader
  exact absurd hheader (by decide)

theorem pushInt64_append_ne_nil (h0 : 0 ≤ m) (h1 : m ≤ maxUapMultiplier) (rest : Bytes) :
    pushInt64 m ++ rest ≠ [] := by
  intro h
  have hmult := (pushInt64_length h0 h1).1
  rw [(List.append_eq_nil_iff.mp h).1] at hmult
  exact absurd hmult (by decide)

theorem evalLoop_operands (hf : f.WellFormed) (stack : List Bytes) (begin : Bytes) (t : ScriptState)
    (fuel : ℕ) : ∃ fuel',
      evalLoop crypto flags checker sigversion script (fuel + 4) ⟨uapScript f, begin, stack, [], [], 0⟩ = .ok t ↔
        f.operands.length + stack.length ≤ 1000 ∧ evalLoop crypto flags checker sigversion script (fuel' + 1)
          ⟨[uapOpcode f.isMint], begin, f.operands ++ stack, [], [], 0⟩ = .ok t := by
  have hkey : f.pubkey.length ≤ maxScriptElementSize := by
    rcases hf.pubkey_size with h | h <;> rw [h] <;> decide
  have hsmall : ¬ HasSmallIntOpcode f.pubkey := by
    apply not_hasSmallIntOpcode_of_length
    rcases hf.pubkey_size with h | h <;> omega
  rw [uapScript_eq, evalLoop_pushElement (pushData_append_ne_nil _ _) (evalStep_pushData rfl rfl hkey hsmall),
    evalLoop_pushElement (pushInt64_append_ne_nil hf.multiplier_nonneg hf.multiplier_le _)
      (evalStep_pushInt64 rfl rfl hf.multiplier_nonneg hf.multiplier_le)]
  by_cases hm : f.isMint = true
  · have hops : f.operands = [serialize f.multiplier, f.pubkey] := by simp [UapOutput.operands, hm]
    rw [if_pos hm, List.nil_append, hops]
    refine ⟨fuel + 1, ?_, ?_⟩
    · rintro ⟨_, hroom, hrun⟩
      exact ⟨by simp at hroom ⊢; omega, hrun⟩
    · rintro ⟨hroom, hrun⟩
      simp only [List.length_cons, List.length_nil] at hroom
      exact ⟨by simp; omega, by simp; omega, hrun⟩
  · have hops : f.operands = [f.origin, serialize f.multiplier, f.pubkey] := by simp [UapOutput.operands, hm]
    have hsize : f.origin.length = 32 := hf.origin_size (by simpa using hm)
    have horigin : ¬ HasSmallIntOpcode f.origin := not_hasSmallIntOpcode_of_length (by omega)
    rw [if_neg hm, hops, evalLoop_pushElement (pushData_append_ne_nil _ _)
      (evalStep_pushData rfl rfl (by rw [hsize]; decide) horigin)]
    refine ⟨fuel, ?_, ?_⟩
    · rintro ⟨_, _, hroom, hrun⟩
      exact ⟨by simp at hroom ⊢; omega, hrun⟩
    · rintro ⟨hroom, hrun⟩
      simp only [List.length_cons, List.length_nil] at hroom
      exact ⟨by simp; omega, by simp; omega, by simp; omega, hrun⟩

theorem evalLoop_uapScript (hf : f.WellFormed) (hflag : flags.uapMint = true) {begin : Bytes} (fuel : ℕ) :
    evalLoop crypto flags checker sigversion script (fuel + 4) ⟨uapScript f, begin, stack, [], [], 0⟩ = .ok t ↔
      ∃ sig st, stack = sig :: st ∧ f.operands.length + stack.length ≤ 1000 ∧
        checkCovenant crypto checker sigversion f.isMint (dropSignature sigversion begin sig) sig
          f.pubkey f.multiplier f.origin = .ok () ∧
        t = ⟨[], begin, boolVch true :: st, [], [], 1⟩ := by
  obtain ⟨fuel', hpushes⟩ := evalLoop_operands hf stack begin t fuel
  rw [hpushes]
  constructor
  · rintro ⟨hroom, hrun⟩
    rw [evalLoop_covenant hf hflag rfl rfl rfl rfl rfl (by simpa using hroom)] at hrun
    obtain ⟨sig, st, hst, hcheck, ht⟩ := hrun
    exact ⟨sig, st, hst, hroom, hcheck, ht⟩
  · rintro ⟨sig, st, hst, hroom, hcheck, ht⟩
    refine ⟨hroom, ?_⟩
    rw [evalLoop_covenant hf hflag rfl rfl rfl rfl rfl (by simpa using hroom)]
    exact ⟨sig, st, hst, hcheck, ht⟩

theorem evalScript_uapScript (hf : f.WellFormed) (hflag : flags.uapMint = true) {out : List Bytes} :
    evalScript crypto flags checker sigversion stack (uapScript f) = .ok out ↔
      ∃ sig st, stack = sig :: st ∧ f.operands.length + stack.length ≤ 1000 ∧
        checkCovenant crypto checker sigversion f.isMint (dropSignature sigversion (uapScript f) sig) sig
          f.pubkey f.multiplier f.origin = .ok () ∧
        out = boolVch true :: st := by
  obtain ⟨hlo, hhi⟩ := uapScript_length hf
  obtain ⟨fuel, hfuel⟩ : ∃ fuel, (uapScript f).length = fuel + 4 := ⟨(uapScript f).length - 4, by omega⟩
  simp only [evalScript, bind_eq_ok, failIf_eq_ok, Except.ok.injEq]
  rw [hfuel]
  constructor
  · rintro ⟨_, _, t, hrun, _, _, hout⟩
    obtain ⟨sig, st, hst, hroom, hcheck, rfl⟩ := (evalLoop_uapScript hf hflag fuel).mp hrun
    exact ⟨sig, st, hst, hroom, hcheck, hout.symm⟩
  · rintro ⟨sig, st, hst, hroom, hcheck, hout⟩
    refine ⟨⟨⟩, by omega, _, (evalLoop_uapScript hf hflag fuel).mpr ⟨sig, st, hst, hroom, hcheck, rfl⟩, ⟨⟩, ?_, ?_⟩
    · simp
    · exact hout.symm

theorem uapMint_of_evalScript (hf : f.WellFormed) {out : List Bytes}
    (h : evalScript crypto flags checker sigversion stack (uapScript f) = .ok out) : flags.uapMint = true := by
  obtain ⟨hlo, -⟩ := uapScript_length hf
  obtain ⟨fuel, hfuel⟩ : ∃ fuel, (uapScript f).length = fuel + 4 := ⟨(uapScript f).length - 4, by omega⟩
  simp only [evalScript, bind_eq_ok, hfuel] at h
  obtain ⟨_, _, t, hrun, _⟩ := h
  obtain ⟨fuel', hpushes⟩ := evalLoop_operands hf stack (uapScript f) t fuel
  obtain ⟨u, hu, -⟩ := (evalLoop_uapOpcode rfl rfl rfl _).mp (hpushes.mp hrun).2
  by_contra hoff
  unfold execMint at hu
  rw [if_pos (by simpa using hoff)] at hu
  cases hu

end
end Whippet.Script
