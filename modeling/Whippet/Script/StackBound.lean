import Whippet.Script.Execution

/-! The size of the elements on the stacks of `EvalScript`. -/
namespace Whippet.Script
open Lib Primitives

/-- Every element of both stacks keeps the limit that `EvalScript` sets for pushes. -/
structure ScriptState.Bounded (s : ScriptState) : Prop where
  stack : ∀ x ∈ s.stack, x.length ≤ maxScriptElementSize
  altstack : ∀ x ∈ s.altstack, x.length ≤ maxScriptElementSize

/-- The digests of the hash opcodes have their sizes, and the context its node's integer types. -/
structure ContextFits (crypto : Crypto) (checker : TransactionSignatureChecker) : Prop where
  ripemd160_length : ∀ b, (crypto.ripemd160 b).length = 20
  sha1_length : ∀ b, (crypto.sha1 b).length = 20
  nIn_lt : checker.nIn < 2 ^ 32
  vin_lt : checker.txTo.vin.length < 2 ^ 32
  vout_lt : checker.txTo.vout.length < 2 ^ 32

/-- The next operation copies these bytes from the transaction or the script to the stack. -/
inductive Inspects (checker : TransactionSignatureChecker) (script : Bytes) (s : ScriptState) : Bytes → Prop
  | self {op : ScriptOp} : getOp? s.pc = some op → s.vfExec.all id = true →
      decodeInstr? op.opcode = some .inspectSelf → Inspects checker script s script
  | output {op : ScriptOp} {selector vchIndex : Bytes} {st : List Bytes} {out : CTxOut} : getOp? s.pc = some op →
      s.vfExec.all id = true → decodeInstr? op.opcode = some .inspect → s.stack = selector :: vchIndex :: st →
      setVch selector = 12 → checker.txTo.vout[(getInt (setVch vchIndex)).toNat]? = some out →
      Inspects checker script s out.scriptPubKey

theorem length_serialize_le {value : ℤ} {w : ℕ} (h : value.natAbs < 256 ^ w) : (serialize value).length ≤ w + 1 := by
  by_cases hzero : value = 0
  · simp [hzero]
  obtain ⟨lo, back, hbytes, -⟩ := minimalBytes_concat (n := value.natAbs) (by omega)
  have hlen := length_minimalBytes_le h
  rw [hbytes, List.length_append, List.length_singleton] at hlen
  by_cases hb : 128 ≤ back.toNat
  · rw [serialize_high hbytes hb]
    simp
    omega
  · rw [serialize_low hbytes (by omega)]
    simp
    omega

theorem serialize_small {value : ℤ} (h : value.natAbs < 2 ^ 64) : (serialize value).length ≤ maxScriptElementSize :=
  le_trans (length_serialize_le (w := 8) (by omega)) (by decide)

theorem boolVch_small (b : Bool) : (boolVch b).length ≤ maxScriptElementSize := by
  cases b <;> decide

theorem natAbs_setVch_lt (vch : Bytes) : (setVch vch).natAbs < 256 ^ vch.length := by
  have hlt := leNat_lt vch
  unfold setVch
  split
  · simp
  · split_ifs
    · omega
    · simpa using hlt

section
variable {crypto : Crypto} {flags : ScriptFlags} {checker : TransactionSignatureChecker} {sigversion : SigVersion}
  {script : Bytes} {s t : ScriptState}

variable {n : ℤ}

theorem scriptNum_eq_ok {vch : Bytes} {size : ℕ} (h : scriptNum flags vch size = .ok n) :
    vch.length ≤ size ∧ setVch vch = n := by
  rw [scriptNum, orFail_eq_ok, scriptNum?_eq_some] at h
  exact ⟨h.1, h.2.2⟩

theorem natAbs_of_scriptNum {vch : Bytes} (h : scriptNum flags vch defaultMaxNumSize = .ok n) :
    n.natAbs < 2 ^ 32 := by
  obtain ⟨hlen, rfl⟩ := scriptNum_eq_ok h
  calc (setVch vch).natAbs < 256 ^ vch.length := natAbs_setVch_lt vch
    _ ≤ 256 ^ 4 := Nat.pow_le_pow_right (by decide) hlen
    _ = 2 ^ 32 := by decide

theorem natAbs_unaryNum {bn : ℤ} (h : bn.natAbs < 2 ^ 32) (op : UnaryOp) : (unaryNum bn op).natAbs < 2 ^ 64 := by
  cases op <;> simp only [unaryNum, boolNum] <;> (try split_ifs) <;> omega

theorem natAbs_binaryNum {bn1 bn2 : ℤ} (h1 : bn1.natAbs < 2 ^ 32) (h2 : bn2.natAbs < 2 ^ 32) (op : BinaryOp) :
    (binaryNum bn1 bn2 op).natAbs < 2 ^ 64 := by
  cases op <;> simp only [binaryNum, boolNum] <;> (try split_ifs) <;> omega

variable {x : Bytes}

theorem ScriptState.Bounded.push (h : s.Bounded) (hx : x.length ≤ maxScriptElementSize) :
    ScriptState.Bounded { s with stack := x :: s.stack } :=
  ⟨List.forall_mem_cons.mpr ⟨hx, h.stack⟩, h.altstack⟩

variable {st : List Bytes}

theorem ScriptState.Bounded.pop (h : s.Bounded) (hst : ∀ x ∈ st, x ∈ s.stack) {vfExec : List Bool}
    {nOpCount : ℕ} : ScriptState.Bounded { s with stack := st, vfExec := vfExec, nOpCount := nOpCount } :=
  ⟨fun x hx => h.stack x (hst x hx), h.altstack⟩

theorem ScriptState.Bounded.popPush (h : s.Bounded) (hst : ∀ x ∈ st, x ∈ s.stack)
    (hx : x.length ≤ maxScriptElementSize) {nOpCount : ℕ} :
    ScriptState.Bounded { s with stack := x :: st, nOpCount := nOpCount } :=
  (h.pop hst).push hx

theorem execStack_small {op : StackOp} {st' : List Bytes} (h : execStack op st = .ok st')
    (hst : ∀ x ∈ st, x.length ≤ maxScriptElementSize) (hroom : st'.length ≤ 1000) :
    ∀ x ∈ st', x.length ≤ maxScriptElementSize := by
  unfold execStack at h
  split at h
  all_goals cases h
  all_goals simp only [List.forall_mem_cons] at hst ⊢
  case h_7 x st =>
    split_ifs <;> simp only [List.forall_mem_cons] <;> tauto
  case h_8 =>
    refine ⟨serialize_small ?_, hst⟩
    simp only [List.length_cons] at hroom
    omega
  case h_16 x st =>
    refine ⟨serialize_small ?_, hst⟩
    have := hst.1
    unfold maxScriptElementSize at this
    omega
  all_goals tauto

theorem execUpgradableNop_eq_ok (h : execUpgradableNop flags s = .ok t) : t = s := by
  simp only [execUpgradableNop, bind_eq_ok, Except.ok.injEq] at h
  obtain ⟨_, _, h⟩ := h
  exact h.symm

theorem execCheckLockTimeVerify_eq_ok (h : execCheckLockTimeVerify flags checker s = .ok t) : t = s := by
  unfold execCheckLockTimeVerify at h
  split_ifs at h
  · exact execUpgradableNop_eq_ok h
  · split at h
    · cases h
    · simp only [bind_eq_ok, Except.ok.injEq] at h
      obtain ⟨_, _, _, _, _, _, h⟩ := h
      exact h.symm

theorem execCheckSequenceVerify_eq_ok (h : execCheckSequenceVerify flags checker s = .ok t) : t = s := by
  unfold execCheckSequenceVerify at h
  split_ifs at h
  · exact execUpgradableNop_eq_ok h
  · split at h
    · cases h
    · simp only [bind_eq_ok] at h
      obtain ⟨_, _, _, _, h⟩ := h
      split_ifs at h
      · exact (Except.ok.inj h).symm
      · simp only [bind_eq_ok, Except.ok.injEq] at h
        obtain ⟨_, _, h⟩ := h
        exact h.symm

theorem execIf_bounded {isNotIf fExec : Bool} (hs : s.Bounded) (h : execIf flags sigversion isNotIf fExec s = .ok t) :
    t.Bounded := by
  unfold execIf at h
  split_ifs at h
  · cases h
    exact ⟨hs.stack, hs.altstack⟩
  · cases hstack : s.stack with
    | nil =>
      rw [hstack] at h
      cases h
    | cons vch st =>
      simp only [hstack, bind_eq_ok, Except.ok.injEq] at h
      obtain ⟨_, _, rfl⟩ := h
      exact hs.pop fun x hx => by simp [hstack, hx]

theorem execVerify_bounded {e : ScriptError} (hs : s.Bounded) (h : execVerify e s = .ok t) : t.Bounded := by
  unfold execVerify at h
  cases hstack : s.stack with
  | nil =>
    rw [hstack] at h
    cases h
  | cons top st =>
    simp only [hstack, bind_eq_ok, Except.ok.injEq] at h
    obtain ⟨_, _, rfl⟩ := h
    exact hs.pop fun x hx => by simp [hstack, hx]

theorem execPickRoll_bounded {isRoll : Bool} (hs : s.Bounded) (h : execPickRoll flags isRoll s = .ok t) :
    t.Bounded := by
  unfold execPickRoll at h
  cases hstack : s.stack with
  | nil =>
    rw [hstack] at h
    cases h
  | cons top st =>
    simp only [hstack] at h
    by_cases hnil : st = []
    · rw [if_pos hnil] at h
      cases h
    rw [if_neg hnil] at h
    simp only [bind_eq_ok, Except.ok.injEq] at h
    obtain ⟨n, _, _, _, rfl⟩ := h
    have hst := hs.stack
    rw [hstack, List.forall_mem_cons] at hst
    refine ⟨List.forall_mem_cons.mpr ⟨?_, ?_⟩, hs.altstack⟩
    · rw [List.getD_eq_getElem?_getD]
      cases hget : st[(getInt n).toNat]? with
      | none => simp
      | some x => exact hst.2 x (List.mem_of_getElem? hget)
    · intro x hx
      split_ifs at hx
      · exact hst.2 x (List.mem_of_mem_eraseIdx hx)
      · exact hst.2 x hx

variable {isVerify : Bool}

theorem execEqual_bounded (hs : s.Bounded) (h : execEqual isVerify s = .ok t) : t.Bounded := by
  unfold execEqual at h
  split at h
  · rename_i vch2 vch1 st hstack
    have hst : ∀ x ∈ st, x ∈ s.stack := fun x hx => by simp [hstack, hx]
    split_ifs at h
    · simp only [bind_eq_ok, Except.ok.injEq] at h
      obtain ⟨_, _, rfl⟩ := h
      exact hs.pop hst
    · cases h
      exact hs.popPush hst (boolVch_small _)
  · cases h

theorem execUnary_bounded {op : UnaryOp} (hs : s.Bounded) (h : execUnary flags op s = .ok t) : t.Bounded := by
  unfold execUnary at h
  split at h
  · rename_i top st hstack
    simp only [bind_eq_ok, Except.ok.injEq] at h
    obtain ⟨bn, hbn, rfl⟩ := h
    have hsmall := serialize_small (natAbs_unaryNum (natAbs_of_scriptNum hbn) op)
    exact hs.popPush (fun x hx => by simp [hstack, hx]) hsmall
  · cases h

theorem execBinary_bounded {op : BinaryOp} (hs : s.Bounded) (h : execBinary flags op s = .ok t) : t.Bounded := by
  unfold execBinary at h
  split at h
  · rename_i top2 top1 st hstack
    simp only [bind_eq_ok, Except.ok.injEq] at h
    obtain ⟨bn1, hbn1, bn2, hbn2, rfl⟩ := h
    have hsmall := serialize_small (natAbs_binaryNum (natAbs_of_scriptNum hbn1) (natAbs_of_scriptNum hbn2) op)
    exact hs.popPush (fun x hx => by simp [hstack, hx]) hsmall
  · cases h

theorem execWithin_bounded (hs : s.Bounded) (h : execWithin flags s = .ok t) : t.Bounded := by
  unfold execWithin at h
  split at h
  · rename_i top3 top2 top1 st hstack
    simp only [bind_eq_ok, Except.ok.injEq] at h
    obtain ⟨bn1, _, bn2, _, bn3, _, rfl⟩ := h
    exact hs.popPush (fun x hx => by simp [hstack, hx]) (boolVch_small _)
  · cases h

theorem execCheckSig_bounded (hs : s.Bounded)
    (h : execCheckSig crypto flags checker sigversion isVerify s = .ok t) : t.Bounded := by
  unfold execCheckSig at h
  split at h
  · rename_i vchPubKey vchSig st hstack
    have hst : ∀ x ∈ st, x ∈ s.stack := fun x hx => by simp [hstack, hx]
    simp only [bind_eq_ok] at h
    obtain ⟨_, _, _, _, _, _, h⟩ := h
    split_ifs at h
    · simp only [bind_eq_ok, Except.ok.injEq] at h
      obtain ⟨_, _, rfl⟩ := h
      exact hs.pop hst
    · cases h
      exact hs.popPush hst (boolVch_small _)
  · cases h

theorem execCheckMultiSig_bounded (hs : s.Bounded)
    (h : execCheckMultiSig crypto flags checker sigversion isVerify s = .ok t) : t.Bounded := by
  unfold execCheckMultiSig at h
  cases hstack : s.stack with
  | nil =>
    rw [hstack] at h
    cases h
  | cons top st =>
    simp only [hstack, bind_eq_ok] at h
    obtain ⟨nKeys, _, _, _, _, _, _, _, nSigs, _, _, _, _, _, fSuccess, _, _, _, _, _, h⟩ := h
    have hrest : ∀ x ∈ (st.drop ((getInt nKeys).toNat + 1)).drop ((getInt nSigs).toNat + 1), x ∈ s.stack :=
      fun x hx => by simp [hstack, List.mem_of_mem_drop (List.mem_of_mem_drop hx)]
    split_ifs at h
    · simp only [bind_eq_ok, Except.ok.injEq] at h
      obtain ⟨_, _, rfl⟩ := h
      exact hs.pop hrest
    · cases h
      exact hs.popPush hrest (boolVch_small _)

theorem execMint_bounded {isMint : Bool} (hs : s.Bounded)
    (h : execMint crypto flags checker sigversion isMint s = .ok t) : t.Bounded := by
  have hrun {isMint : Bool} {origin multiplier pubkey sig : Bytes} {st : List Bytes}
      (hrun : runCovenant crypto flags checker sigversion isMint s origin multiplier pubkey sig st = .ok t)
      (hst : ∀ x ∈ st, x ∈ s.stack) : t.Bounded := by
    simp only [runCovenant, bind_eq_ok, Except.ok.injEq] at hrun
    obtain ⟨_, _, _, _, rfl⟩ := hrun
    exact hs.popPush hst (boolVch_small _)
  unfold execMint at h
  split at h
  · cases h
  · split at h
    · rename_i hstack
      exact hrun h fun x hx => by simp [hstack, hx]
    · rename_i hstack
      exact hrun h fun x hx => by simp [hstack, hx]
    · cases h

theorem hashVch_small (hfits : ContextFits crypto checker) (vch : Bytes) (op : HashOp) :
    (hashVch crypto vch op).length ≤ maxScriptElementSize := by
  cases op with
  | ripemd160 => exact le_trans (hfits.ripemd160_length vch).le (by decide)
  | sha1 => exact le_trans (hfits.sha1_length vch).le (by decide)
  | sha256 => exact le_trans (crypto.sha256 vch).size_eq.le (by decide)
  | hash160 => exact le_trans (hfits.ripemd160_length _).le (by decide)
  | hash256 => exact le_trans (crypto.hash256 vch).size_eq.le (by decide)

theorem virtualBalance_small {out : CTxOut} (h : virtualBalance out = .ok x) :
    x.length ≤ maxScriptElementSize := by
  unfold virtualBalance at h
  split at h
  · cases h
    decide
  · simp only [bind_eq_ok, failIf_eq_ok, Except.ok.injEq] at h
    obtain ⟨_, hrange, rfl⟩ := h
    apply serialize_small
    omega

theorem execInspect_eq_ok (hfits : ContextFits crypto checker) (hs : s.Bounded)
    (h : execInspect flags checker s = .ok t) :
    t.Bounded ∨ ∃ selector vchIndex st out, s.stack = selector :: vchIndex :: st ∧ setVch selector = 12 ∧
      checker.txTo.vout[(getInt (setVch vchIndex)).toNat]? = some out ∧
      t = { s with stack := out.scriptPubKey :: st } ∧ (out.scriptPubKey.length ≤ maxScriptElementSize → t.Bounded) := by
  have hversion : checker.txTo.nVersion.toInt.natAbs < 2 ^ 64 := by
    have hlo := checker.txTo.nVersion.le_toInt
    have hhi := checker.txTo.nVersion.toInt_lt
    omega
  have hnIn := hfits.nIn_lt
  have hvin := hfits.vin_lt
  have hvout := hfits.vout_lt
  unfold execInspect at h
  cases hstack : s.stack with
  | nil =>
    rw [hstack] at h
    cases h
  | cons top st =>
    have hnumber {n : ℤ} (hn : n.natAbs < 2 ^ 64) : ScriptState.Bounded { s with stack := serialize n :: st } :=
      hs.popPush (fun x hx => by simp [hstack, hx]) (serialize_small hn)
    simp only [hstack, bind_eq_ok] at h
    obtain ⟨sel, hsel, h⟩ := h
    split_ifs at h with h0 h1 h2 h3 hindexed
    · cases h
      exact Or.inl (hnumber hversion)
    · cases h
      exact Or.inl (hnumber (by omega))
    · cases h
      exact Or.inl (hnumber (by omega))
    · cases h
      exact Or.inl (hnumber (by omega))
    · cases st with
      | nil => cases h
      | cons vchIndex st =>
        simp only [bind_eq_ok, orFail_eq_ok, Except.ok.injEq] at h
        obtain ⟨index, hindex, _, _, out, hout, x, hx, rfl⟩ := h
        have hbounded (hsmall : x.length ≤ maxScriptElementSize) : ScriptState.Bounded { s with stack := x :: st } :=
          hs.popPush (fun x hx => by simp [hstack, hx]) hsmall
        obtain ⟨-, rfl⟩ := scriptNum_eq_ok hsel
        obtain ⟨-, rfl⟩ := scriptNum_eq_ok hindex
        unfold inspectOutput at hx
        split_ifs at hx with h10 h11
        · cases hx
          have hlo := out.nValue.le_toInt
          have hhi := out.nValue.toInt_lt
          exact Or.inl (hbounded (serialize_small (by omega)))
        · exact Or.inl (hbounded (virtualBalance_small hx))
        · cases hx
          have h12 : getInt (setVch top) = 12 := by tauto
          have hsel12 : setVch top = 12 := by
            unfold getInt at h12
            split_ifs at h12 <;> omega
          exact Or.inr ⟨top, vchIndex, st, out, rfl, hsel12, hout, rfl, hbounded⟩

variable {opcode : UInt8}

theorem num_of_decodeInstr? (h : decodeInstr? opcode = some (.num n)) : n.natAbs < 2 ^ 64 := by
  unfold decodeInstr? at h
  split_ifs at h
  · obtain rfl := Instr.num.inj (Option.some.inj h)
    have hlt := opcode.toNat_lt
    change ((opcode.toNat : ℤ) - (0x51 - 1)).natAbs < 2 ^ 64
    omega
  · obtain ⟨before, after, htable, -⟩ := List.lookup_eq_some_iff.mp h
    have hmem : (opcode, Instr.num n) ∈ opcodeTable := by simp [htable]
    have hnone : ∀ p ∈ opcodeTable, (p.2 matches .num _) = false := by decide
    exact absurd (hnone _ hmem) (by simp)

theorem execInstr_bounded {fExec : Bool} {instr : Instr} (hfits : ContextFits crypto checker) (hs : s.Bounded)
    (hnum : ∀ n, instr = .num n → n.natAbs < 2 ^ 64) (hinspect : instr ≠ .inspect) (hself : instr ≠ .inspectSelf)
    (hroom : t.stack.length ≤ 1000) (h : execInstr crypto flags checker sigversion script fExec s instr = .ok t) :
    t.Bounded := by
  cases instr with
  | num n =>
    cases h
    exact hs.push (serialize_small (hnum n rfl))
  | nop =>
    cases h
    exact hs
  | upgradableNop => exact execUpgradableNop_eq_ok h ▸ hs
  | checkLockTimeVerify => exact execCheckLockTimeVerify_eq_ok h ▸ hs
  | checkSequenceVerify => exact execCheckSequenceVerify_eq_ok h ▸ hs
  | ifNotIf isNotIf => exact execIf_bounded hs h
  | elseOp =>
    simp only [execInstr] at h
    split at h
    · cases h
    · cases h
      exact ⟨hs.stack, hs.altstack⟩
  | endIf =>
    simp only [execInstr] at h
    split at h
    · cases h
    · cases h
      exact ⟨hs.stack, hs.altstack⟩
  | verify => exact execVerify_bounded hs h
  | ret => cases h
  | toAltStack =>
    simp only [execInstr] at h
    split at h
    · cases h
    · rename_i x st hstack
      cases h
      have hst := hs.stack
      rw [hstack, List.forall_mem_cons] at hst
      exact ⟨hst.2, List.forall_mem_cons.mpr ⟨hst.1, hs.altstack⟩⟩
  | fromAltStack =>
    simp only [execInstr] at h
    split at h
    · cases h
    · rename_i x st hstack
      cases h
      have hst := hs.altstack
      rw [hstack, List.forall_mem_cons] at hst
      exact ⟨List.forall_mem_cons.mpr ⟨hst.1, hs.stack⟩, hst.2⟩
  | stack op =>
    simp only [execInstr, bind_eq_ok, Except.ok.injEq] at h
    obtain ⟨st, hst, rfl⟩ := h
    exact ⟨execStack_small hst hs.stack hroom, hs.altstack⟩
  | pickRoll isRoll => exact execPickRoll_bounded hs h
  | equal isVerify => exact execEqual_bounded hs h
  | unary op => exact execUnary_bounded hs h
  | binary op => exact execBinary_bounded hs h
  | numEqualVerify =>
    simp only [execInstr, bind_eq_ok] at h
    obtain ⟨u, hu, h⟩ := h
    exact execVerify_bounded (execBinary_bounded hs hu) h
  | within => exact execWithin_bounded hs h
  | hash op =>
    simp only [execInstr] at h
    split at h
    · cases h
    · rename_i vch st hstack
      cases h
      have hst := hs.stack
      rw [hstack, List.forall_mem_cons] at hst
      exact ⟨List.forall_mem_cons.mpr ⟨hashVch_small hfits vch op, hst.2⟩, hs.altstack⟩
  | codeSeparator =>
    cases h
    exact ⟨hs.stack, hs.altstack⟩
  | checkSig isVerify => exact execCheckSig_bounded hs h
  | checkMultiSig isVerify => exact execCheckMultiSig_bounded hs h
  | mint isMint => exact execMint_bounded hs h
  | inspect => exact absurd rfl hinspect
  | inspectSelf => exact absurd rfl hself

theorem evalStep_eq_ok (h : evalStep crypto flags checker sigversion script s = .ok t) :
    ∃ op nOpCount, getOp? s.pc = some op ∧ op.data.length ≤ maxScriptElementSize ∧
      execOp crypto flags checker sigversion script op { s with pc := op.rest, nOpCount := nOpCount } = .ok t ∧
      t.stack.length + t.altstack.length ≤ 1000 := by
  simp only [evalStep, checkStackSize, bind_eq_ok, orFail_eq_ok, failIf_eq_ok, Except.ok.injEq] at h
  obtain ⟨op, hop, _, hlen, _, _, _, _, u, hu, _, hsize, rfl⟩ := h
  exact ⟨op, _, hop, by omega, hu, by omega⟩

theorem decodeInstr?_of_push (h : opcode ≤ opPushData4) : decodeInstr? opcode = none := by
  refine forall_uint8 (P := fun b => b ≤ opPushData4 → decodeInstr? b = none) ?_ opcode h
  decide +kernel

theorem not_inspect_of_isConditional (h : isConditional opcode = true) :
    decodeInstr? opcode ≠ some .inspect ∧ decodeInstr? opcode ≠ some .inspectSelf := by
  refine forall_uint8 (P := fun b => isConditional b = true →
    decodeInstr? b ≠ some .inspect ∧ decodeInstr? b ≠ some .inspectSelf) ?_ opcode h
  decide +kernel

theorem execOp_eq_ok {op : ScriptOp} (h : execOp crypto flags checker sigversion script op s = .ok t) :
    t = { s with stack := op.data :: s.stack } ∨ t = s ∨
      ∃ instr, decodeInstr? op.opcode = some instr ∧ (s.vfExec.all id = true ∨ isConditional op.opcode = true) ∧
        execInstr crypto flags checker sigversion script (s.vfExec.all id) s instr = .ok t := by
  simp only [execOp] at h
  split_ifs at h with hpush hrun
  · simp only [bind_eq_ok, Except.ok.injEq] at h
    obtain ⟨_, _, h⟩ := h
    exact Or.inl h.symm
  · simp only [bind_eq_ok, orFail_eq_ok] at h
    obtain ⟨instr, hinstr, h⟩ := h
    exact Or.inr (Or.inr ⟨instr, hinstr, hrun, h⟩)
  · exact Or.inr (Or.inl (Except.ok.inj h).symm)

theorem evalStep_bounded (hfits : ContextFits crypto checker) (hs : s.Bounded)
    (hsmall : ∀ x, Inspects checker script s x → x.length ≤ maxScriptElementSize)
    (h : evalStep crypto flags checker sigversion script s = .ok t) : t.Bounded := by
  obtain ⟨op, nOpCount, hop, hlen, hexec, hsize⟩ := evalStep_eq_ok h
  have hs' : ScriptState.Bounded { s with pc := op.rest, nOpCount := nOpCount } := ⟨hs.stack, hs.altstack⟩
  rcases execOp_eq_ok hexec with rfl | rfl | ⟨instr, hinstr, hrun, hexec⟩
  · exact hs'.push hlen
  · exact hs'
  · have hall : instr = .inspect ∨ instr = .inspectSelf → s.vfExec.all id = true := by
      intro hinspect
      rcases hrun with hall | hcond
      · exact hall
      · have hne := not_inspect_of_isConditional hcond
        rw [hinstr] at hne
        rcases hinspect with rfl | rfl
        · exact absurd rfl hne.1
        · exact absurd rfl hne.2
    by_cases hinspect : instr = .inspect
    · subst hinspect
      rcases execInspect_eq_ok hfits hs' hexec with hbounded | ⟨selector, vchIndex, st, out, hstack, h12, hout, -, hcopy⟩
      · exact hbounded
      · exact hcopy (hsmall _ (.output hop (hall (Or.inl rfl)) hinstr hstack h12 hout))
    · by_cases hself : instr = .inspectSelf
      · subst hself
        cases hexec
        exact hs'.push (hsmall _ (.self hop (hall (Or.inr rfl)) hinstr))
      · exact execInstr_bounded hfits hs' (fun n hn => num_of_decodeInstr? (hn ▸ hinstr)) hinspect hself (by omega) hexec

theorem execOp_of_all {op : ScriptOp} {instr : Instr} (hall : s.vfExec.all id = true)
    (hinstr : decodeInstr? op.opcode = some instr) :
    execOp crypto flags checker sigversion script op s =
      execInstr crypto flags checker sigversion script true s instr := by
  have hpush : ¬ op.opcode ≤ opPushData4 := by
    intro hle
    rw [decodeInstr?_of_push hle] at hinstr
    cases hinstr
  simp [execOp, hall, hpush, hinstr, orFail]

theorem execInspect_copies {selector vchIndex : Bytes} {out : CTxOut}
    (hstack : s.stack = selector :: vchIndex :: st) (h12 : setVch selector = 12)
    (hout : checker.txTo.vout[(getInt (setVch vchIndex)).toNat]? = some out)
    (h : execInspect flags checker s = .ok t) : t.stack = out.scriptPubKey :: st := by
  simp only [execInspect, hstack, bind_eq_ok] at h
  obtain ⟨sel, hsel, h⟩ := h
  obtain ⟨-, rfl⟩ := scriptNum_eq_ok hsel
  have hget : getInt 12 = 12 := by decide
  simp only [h12, hget, show ¬ (12 : ℤ) = 0 by decide, show ¬ (12 : ℤ) = 1 by decide, show ¬ (12 : ℤ) = 2 by decide,
    show ¬ (12 : ℤ) = 3 by decide, or_true, if_true, if_false, bind_eq_ok, orFail_eq_ok, Except.ok.injEq] at h
  obtain ⟨index, hindex, _, _, out', hout', x, hx, rfl⟩ := h
  obtain ⟨-, rfl⟩ := scriptNum_eq_ok hindex
  obtain rfl := Option.some.inj (hout.symm.trans hout')
  obtain rfl : out.scriptPubKey = x := Except.ok.inj hx
  rfl

theorem evalStep_inspects (hinspects : Inspects checker script s x)
    (h : evalStep crypto flags checker sigversion script s = .ok t) : x ∈ t.stack := by
  obtain ⟨op, nOpCount, hop, -, hexec, -⟩ := evalStep_eq_ok h
  cases hinspects with
  | self hop' hall hinstr =>
    obtain rfl := Option.some.inj (hop.symm.trans hop')
    rw [execOp_of_all (s := { s with pc := op.rest, nOpCount := nOpCount }) hall hinstr] at hexec
    cases hexec
    exact List.mem_cons_self
  | output hop' hall hinstr hstack h12 hout =>
    obtain rfl := Option.some.inj (hop.symm.trans hop')
    rw [execOp_of_all (s := { s with pc := op.rest, nOpCount := nOpCount }) hall hinstr] at hexec
    rw [execInspect_copies (s := { s with pc := op.rest, nOpCount := nOpCount }) hstack h12 hout hexec]
    exact List.mem_cons_self

end

section
variable (crypto : Crypto) (flags : ScriptFlags) (checker : TransactionSignatureChecker) (sigversion : SigVersion)

/-- The states at the head of the loop of `EvalScript`, on a script it does not refuse for its size. -/
inductive EvalReaches (stack : List Bytes) (script : Bytes) : ScriptState → Prop
  | start : script.length ≤ maxScriptSize → EvalReaches stack script ⟨script, script, stack, [], [], 0⟩
  | step {s t : ScriptState} : EvalReaches stack script s → s.pc ≠ [] →
      evalStep crypto flags checker sigversion script s = .ok t → EvalReaches stack script t

end

section
variable {crypto : Crypto} {flags : ScriptFlags} {checker : TransactionSignatureChecker} {sigversion : SigVersion}
  {stack : List Bytes} {script : Bytes}

theorem EvalReaches.evalLoop {fuel : ℕ} {s t : ScriptState}
    (hs : EvalReaches crypto flags checker sigversion stack script s)
    (h : evalLoop crypto flags checker sigversion script fuel s = .ok t) :
    EvalReaches crypto flags checker sigversion stack script t := by
  induction fuel generalizing s with
  | zero =>
    unfold Script.evalLoop at h
    split_ifs at h
    exact Except.ok.inj h ▸ hs
  | succ fuel ih =>
    unfold Script.evalLoop at h
    split_ifs at h with hpc
    · exact Except.ok.inj h ▸ hs
    · simp only [bind_eq_ok] at h
      obtain ⟨u, hu, h⟩ := h
      exact ih (.step hs hpc hu) h

theorem EvalReaches.bounded (hfits : ContextFits crypto checker)
    (hstack : ∀ x ∈ stack, x.length ≤ maxScriptElementSize)
    (hsmall : ∀ s t, EvalReaches crypto flags checker sigversion stack script s →
      evalStep crypto flags checker sigversion script s = .ok t → ∀ x, Inspects checker script s x →
        x.length ≤ maxScriptElementSize) {s : ScriptState}
    (hs : EvalReaches crypto flags checker sigversion stack script s) : s.Bounded := by
  induction hs with
  | start => exact ⟨hstack, by simp⟩
  | step hs _ hstep ih => exact evalStep_bounded hfits ih (hsmall _ _ hs hstep) hstep

end

/-- Both stacks hold elements of at most 520 bytes all along `EvalScript`, exactly when no step copies more than that
from the transaction or the script. Then the stack it returns holds such elements too. -/
theorem stack_elements_bounded_iff (crypto : Crypto) (flags : ScriptFlags) (checker : TransactionSignatureChecker)
    (sigversion : SigVersion) (stack : List Bytes) (script : Bytes) (hfits : ContextFits crypto checker)
    (hstack : ∀ x ∈ stack, x.length ≤ maxScriptElementSize) :
    ((∀ s, EvalReaches crypto flags checker sigversion stack script s → s.Bounded) ↔
      ∀ s t, EvalReaches crypto flags checker sigversion stack script s →
        evalStep crypto flags checker sigversion script s = .ok t → ∀ x, Inspects checker script s x →
          x.length ≤ maxScriptElementSize) ∧
    ((∀ s, EvalReaches crypto flags checker sigversion stack script s → s.Bounded) →
      ∀ out, evalScript crypto flags checker sigversion stack script = .ok out →
        ∀ x ∈ out, x.length ≤ maxScriptElementSize) := by
  refine ⟨⟨?_, ?_⟩, ?_⟩
  · intro hbounded s t hs hstep x hx
    have hpc : s.pc ≠ [] := by
      intro hnil
      obtain ⟨op, -, hop, -⟩ := evalStep_eq_ok hstep
      rw [hnil] at hop
      cases hop
    exact (hbounded t (.step hs hpc hstep)).stack x (evalStep_inspects hx hstep)
  · intro hsmall s hs
    exact hs.bounded hfits hstack hsmall
  · intro hbounded out hout
    simp only [evalScript, bind_eq_ok, failIf_eq_ok, Except.ok.injEq] at hout
    obtain ⟨_, hsize, t, hrun, _, _, rfl⟩ := hout
    exact (hbounded t ((EvalReaches.start (not_lt.mp hsize)).evalLoop hrun)).stack

def inspectedSpend : TransactionSignatureChecker where
  txTo := {
    nVersion := 1
    vin := [⟨⟨.ofByte 0x11, 0⟩, [], 0xffffffff, []⟩]
    vout := [⟨100000000, [0x51]⟩]
    nLockTime := 0 }
  nIn := 0
  amount := 100000000
  vPrevScriptPubKeys := none
  vPrevAmounts := none

theorem inspectedSpend_fits : ContextFits (Crypto.recorded []) inspectedSpend where
  ripemd160_length _ := List.length_replicate
  sha1_length _ := List.length_replicate
  nIn_lt := by decide
  vin_lt := by decide
  vout_lt := by decide

/-- `OP_INSPECT_SELF` in a script of one byte. -/
theorem stack_elements_bounded_self :
    ∃ s, EvalReaches (Crypto.recorded []) (blockScriptFlags true true true true) inspectedSpend .base [] [0xb6] s ∧
      s.stack = [[0xb6]] ∧ s.Bounded := by
  have hbounded := (stack_elements_bounded_iff (Crypto.recorded []) (blockScriptFlags true true true true) inspectedSpend
    .base [] [0xb6] inspectedSpend_fits (by simp)).1.mpr ?_
  · have hrun : evalLoop (Crypto.recorded []) (blockScriptFlags true true true true) inspectedSpend .base [0xb6] 1
        ⟨[0xb6], [0xb6], [], [], [], 0⟩ = .ok ⟨[], [0xb6], [[0xb6]], [], [], 1⟩ := by decide +kernel
    have hreach := (EvalReaches.start (by decide)).evalLoop hrun
    exact ⟨_, hreach, rfl, hbounded _ hreach⟩
  · intro s t _ _ x hx
    cases hx with
    | self => decide
    | output _ _ _ _ _ hout =>
      rw [List.mem_singleton.mp (List.mem_of_getElem? hout)]
      decide

def inspectsItself : Bytes := [0x4d, 0x08, 0x02] ++ List.replicate 520 1 ++ [0x75, 0xb6]

/-- The node accepts a spend of the script, and has had an element of 525 bytes on the stack. -/
theorem stack_element_too_large :
    verifyScript (Crypto.recorded []) (blockScriptFlags true true true true) inspectedSpend [] inspectsItself [] =
        .ok () ∧
      ∃ s, EvalReaches (Crypto.recorded []) (blockScriptFlags true true true true) inspectedSpend .base [] inspectsItself s ∧
        ∃ x ∈ s.stack, x.length = 525 := by
  have hrun : evalLoop (Crypto.recorded []) (blockScriptFlags true true true true) inspectedSpend .base inspectsItself
      inspectsItself.length ⟨inspectsItself, inspectsItself, [], [], [], 0⟩ =
        .ok ⟨[], inspectsItself, [inspectsItself], [], [], 2⟩ := by decide +kernel
  have hsize : inspectsItself.length ≤ maxScriptSize := by decide +kernel
  exact ⟨by decide +kernel, _, (EvalReaches.start hsize).evalLoop hrun, inspectsItself, List.mem_cons_self,
    by decide +kernel⟩

end Whippet.Script
