import Whippet.Script.CovenantExec

/-! `OP_INSPECT` on a covenant output: the virtual balance is reported whenever 64 bits hold it, and the bound that a
spend of the position is held to does not say that they do. -/
namespace Whippet.Script
open Lib Primitives

theorem getInt_of_range {n : ℤ} (h0 : 0 ≤ n) (h1 : n < 2 ^ 31) : getInt n = n := by
  unfold getInt
  rw [if_neg (by omega), if_neg (by omega)]

theorem virtualBalance_covenant {out : CTxOut} {f : UapOutput} (hparse : parseUapOutputScript? out.scriptPubKey = some f)
    (hvalue : 0 ≤ out.nValue.toInt) : virtualBalance out =
      if out.nValue.toInt * f.multiplier < 2 ^ 63 then .ok (serialize (out.nValue.toInt * f.multiplier))
      else .error .uapValueOverflow := by
  obtain ⟨hf, -⟩ := parseUapOutputScript?_eq_some.mp hparse
  have h0 := hf.multiplier_nonneg
  have h1 : f.multiplier ≤ 2 ^ 31 - 1 := hf.multiplier_le
  have hprod : 0 ≤ out.nValue.toInt * f.multiplier := mul_nonneg hvalue h0
  simp only [virtualBalance, hparse, getInt_of_range h0 (by omega)]
  split_ifs with hfits
  · rw [failIf_neg (by omega)]
    rfl
  · rw [failIf_pos (by omega)]
    rfl

/-- With selector 11 and the index of a covenant output, `OP_INSPECT` pushes the value times the multiplier if 64 bits
hold it, and reports an overflow otherwise. -/
theorem inspect_reports_virtualBalance (flags : ScriptFlags) (checker : TransactionSignatureChecker) (s : ScriptState)
    (st : List Bytes) (index : ℕ) (out : CTxOut) (f : UapOutput) (hindex : index < 2 ^ 31)
    (hout : checker.txTo.vout[index]? = some out) (hparse : parseUapOutputScript? out.scriptPubKey = some f)
    (hvalue : 0 ≤ out.nValue.toInt) (hstack : s.stack = serialize 11 :: serialize index :: st) :
    execInspect flags checker s =
      if out.nValue.toInt * f.multiplier < 2 ^ 63 then
        .ok { s with stack := serialize (out.nValue.toInt * f.multiplier) :: st }
      else .error .uapValueOverflow := by
  have hsel : scriptNum flags (serialize 11) defaultMaxNumSize = .ok 11 :=
    scriptNum_serialize (by decide) (by decide)
  have hnum : scriptNum flags (serialize index) defaultMaxNumSize = .ok (index : ℤ) :=
    scriptNum_serialize (by omega) (by change (index : ℤ) ≤ 2 ^ 31 - 1; omega)
  have hget : getInt index = index := getInt_of_range (by omega) (by omega)
  have hget11 : getInt 11 = 11 := getInt_of_range (by decide) (by decide)
  have hnonneg : ¬ (index : ℤ) < 0 := by omega
  simp only [execInspect, hstack, hsel, hnum, ok_bind, hget, hget11, inspectOutput, failIf_neg hnonneg,
    Int.toNat_natCast, hout, orFail, virtualBalance_covenant hparse hvalue, Int.reduceEq, if_false, or_true, true_or,
    if_true]
  split_ifs <;> rfl

def overflowSpend : TransactionSignatureChecker where
  txTo := {
    nVersion := 1
    vin := [⟨⟨.ofByte 0x11, 0⟩, [], 0xffffffff, []⟩]
    vout := [⟨100000000000, uapScript ⟨2 :: List.replicate 32 0x11, 2147483647, List.replicate 32 0xab, false⟩⟩,
      ⟨100000000000, uapScript ⟨2 :: List.replicate 32 0x11, 1000, List.replicate 32 0xab, false⟩⟩]
    nLockTime := 0 }
  nIn := 0
  amount := 200000000000
  vPrevScriptPubKeys := none
  vPrevAmounts := none

/-- The balance of the second output, in a script of its own. -/
theorem inspect_reports_virtualBalance_small :
    execInspect (blockScriptFlags true true true true) overflowSpend ⟨[], [], [serialize 11, serialize 1], [], [], 0⟩ =
      .ok ⟨[], [], [serialize 100000000000000], [], [], 0⟩ := by
  rw [inspect_reports_virtualBalance (blockScriptFlags true true true true) overflowSpend _ [] 1 _
    ⟨2 :: List.replicate 32 0x11, 1000, List.replicate 32 0xab, false⟩ (by decide) rfl (by decide +kernel)
    (by decide +kernel) rfl]
  decide +kernel

/-- A thousand coins times the largest multiplier is within the bound for a spend, and `OP_INSPECT` fails on it. -/
theorem inspect_fails_within_bound : ∃ out f,
    overflowSpend.txTo.vout[0]? = some out ∧ parseUapOutputScript? out.scriptPubKey = some f ∧
    moneyRange out.nValue.toInt = true ∧ out.nValue.toInt / coin * f.multiplier ≤ 2 ^ 48 ∧
    execInspect (blockScriptFlags true true true true) overflowSpend ⟨[], [], [serialize 11, serialize 0], [], [], 0⟩ =
      .error .uapValueOverflow := by
  refine ⟨_, ⟨2 :: List.replicate 32 0x11, 2147483647, List.replicate 32 0xab, false⟩, rfl, ?_⟩
  decide +kernel

end Whippet.Script
