import Whippet.Script.Interpreter

/-! How `EvalScript` moves over data pushes, and what it leaves of the iterator and the operation count. -/
namespace Whippet.Script
open Lib Primitives

section
variable {crypto : Crypto} {flags : ScriptFlags} {checker : TransactionSignatureChecker}
  {sigversion : SigVersion} {script : Bytes}

def pushElement (s : ScriptState) (data rest : Bytes) : Except ScriptError ScriptState :=
  checkStackSize { s with pc := rest, stack := data :: s.stack }

variable {s : ScriptState}

theorem evalLoop_nil (h : s.pc = []) (fuel : ℕ) :
    evalLoop crypto flags checker sigversion script fuel s = .ok s := by
  cases fuel <;> simp [evalLoop, h]

theorem evalLoop_step (h : s.pc ≠ []) (fuel : ℕ) :
    evalLoop crypto flags checker sigversion script (fuel + 1) s =
      evalStep crypto flags checker sigversion script s >>=
        evalLoop crypto flags checker sigversion script fuel := by
  simp [evalLoop, h]

variable {opcode : UInt8}

theorem not_counted (h : opcode ≤ op16) : ¬ op16 < opcode := UInt8.not_lt.mpr h

theorem not_disabled (h : opcode ≤ op16) : isDisabled opcode = false := by
  have key : ∀ n : Fin 256, UInt8.ofNat n ≤ op16 → isDisabled (UInt8.ofNat n) = false := by
    decide +kernel
  exact forall_uint8 (P := fun b => b ≤ op16 → isDisabled b = false) key opcode h

theorem le_op16 (h : opcode ≤ opPushData4) : opcode ≤ op16 := by
  rw [UInt8.le_iff_toNat_le] at h ⊢
  change _ ≤ 0x4e at h
  change _ ≤ 0x60
  omega

variable {op : ScriptOp}

theorem data_length_of_evalStep {t : ScriptState} (hop : getOp s.pc = .ok op)
    (h : evalStep crypto flags checker sigversion script s = .ok t) :
    op.data.length ≤ maxScriptElementSize := by
  simp only [evalStep, getOp?_eq_some.mpr hop, orFail, ok_bind, bind_eq_ok, failIf_eq_ok] at h
  obtain ⟨_, hlen, _⟩ := h
  omega

theorem evalStep_of_le_op16 (hop : getOp s.pc = .ok op)
    (hlen : op.data.length ≤ maxScriptElementSize) (hle : op.opcode ≤ op16) :
    evalStep crypto flags checker sigversion script s =
      execOp crypto flags checker sigversion script op { s with pc := op.rest } >>= checkStackSize := by
  have hget : getOp? s.pc = some op := getOp?_eq_some.mpr hop
  have hcount := not_counted hle
  have hdis : ¬ isDisabled op.opcode = true := by rw [not_disabled hle]; decide
  have hsize : ¬ op.data.length > maxScriptElementSize := by omega
  simp only [evalStep, hget, orFail, ok_bind, failIf_neg hsize, if_neg hcount, failIf_neg hdis,
    failIf_neg (show ¬ (op16 < op.opcode ∧ s.nOpCount > maxOpsPerScript) from fun h => hcount h.1)]

theorem evalStep_push (hop : getOp s.pc = .ok op)
    (hle : op.opcode ≤ opPushData4) (hexec : s.vfExec = []) (hlen : op.data.length ≤ maxScriptElementSize)
    (hmin : checkMinimalPush op.data op.opcode = true) :
    evalStep crypto flags checker sigversion script s = pushElement s op.data op.rest := by
  rw [evalStep_of_le_op16 hop hlen (le_op16 hle)]
  simp [execOp, hexec, hle, hmin, pushElement]

theorem not_push_of_num (h : opcode = op1Negate ∨ (op1 ≤ opcode ∧ opcode ≤ op16)) :
    ¬ opcode ≤ opPushData4 := by
  rcases h with rfl | ⟨hlo, -⟩
  · decide
  · exact fun hle => not_op1_le_of_le hle hlo

variable {rest : Bytes}

theorem evalStep_num (hpc : s.pc = opcode :: rest)
    (hop : opcode = op1Negate ∨ (op1 ≤ opcode ∧ opcode ≤ op16)) (hexec : s.vfExec = []) :
    evalStep crypto flags checker sigversion script s =
      pushElement s (serialize ((opcode.toNat : ℤ) - ((op1.toNat : ℤ) - 1))) rest := by
  have hgt := not_push_of_num hop
  have hle : opcode ≤ op16 := by
    rcases hop with rfl | ⟨-, hhi⟩
    · decide
    · exact hhi
  have hget : getOp s.pc = .ok ⟨opcode, [], rest⟩ := by rw [hpc, getOp_of_gt rest hgt]
  rw [evalStep_of_le_op16 hget (by simp) hle]
  simp [execOp, hexec, hgt, decodeInstr?, hop, orFail, execInstr, pushElement]

theorem evalStep_pushData {data : Bytes} (hpc : s.pc = pushData data ++ rest)
    (hexec : s.vfExec = []) (hlen : data.length ≤ maxScriptElementSize) (hsmall : ¬ HasSmallIntOpcode data) :
    evalStep crypto flags checker sigversion script s = pushElement s data rest := by
  have hlt : data.length < 2 ^ 32 := lt_of_le_of_lt hlen (by decide)
  have hget : getOp s.pc = .ok ⟨pushOpcode data.length, data, rest⟩ := by rw [hpc, getOp_pushData rest hlt]
  exact evalStep_push hget (pushOpcode_le _) hexec hlen (checkMinimalPush_pushOpcode hsmall)

theorem evalStep_pushInt64 {m : ℤ} (hpc : s.pc = pushInt64 m ++ rest)
    (hexec : s.vfExec = []) (h0 : 0 ≤ m) (h1 : m ≤ maxUapMultiplier) :
    evalStep crypto flags checker sigversion script s = pushElement s (serialize m) rest := by
  by_cases hsmall : 1 ≤ m ∧ m ≤ 16
  · have hnat : (UInt8.ofNat (m.toNat + 0x50)).toNat = m.toNat + 0x50 := toNat_ofNat (by omega)
    have hrange : op1 ≤ UInt8.ofNat (m.toNat + 0x50) ∧ UInt8.ofNat (m.toNat + 0x50) ≤ op16 := by
      rw [UInt8.le_iff_toNat_le, UInt8.le_iff_toNat_le, hnat]
      change 0x51 ≤ _ ∧ _ ≤ 0x60
      omega
    have hvalue : ((m.toNat + 0x50 : ℕ) : ℤ) - ((op1.toNat : ℤ) - 1) = m := by
      change _ - ((0x51 : ℤ) - 1) = m
      omega
    rw [pushInt64_small hsmall] at hpc
    rw [evalStep_num hpc (Or.inr hrange) hexec, hnat, hvalue]
    rfl
  have hlen : (serialize m).length ≤ 4 := serialize_length_le (by unfold maxUapMultiplier at h1; omega)
  have hnot : ¬ HasSmallIntOpcode (serialize m) := by
    intro hs
    have := setVch_of_hasSmallIntOpcode hs
    rw [setVch_serialize] at this
    omega
  have hpush : pushInt64 m = pushData (serialize m) := by
    rcases eq_or_lt_of_le h0 with h | h
    · rw [← h]
      rfl
    · exact pushInt64_large (by omega)
  rw [hpush] at hpc
  exact evalStep_pushData hpc hexec (le_trans hlen (by decide)) hnot

end
end Whippet.Script
