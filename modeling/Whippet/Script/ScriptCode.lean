import Whippet.Script.Scan
import Whippet.Script.SigHash
import Whippet.Script.UapScript

/-! Scripts made of whole instructions: what `FindAndDelete` leaves of them, and what a signature commits to. -/
namespace Whippet.Script
open Lib Primitives

/-- The bytes of one instruction other than a code separator, whatever follows them. -/
def IsInstr (chunk : Bytes) : Prop :=
  ∃ opcode data, opcode ≠ opCodeSeparator ∧ ∀ rest, getOp (chunk ++ rest) = .ok ⟨opcode, data, rest⟩

/-- Instructions one after the other, up to the end of the script. -/
def WholeScript (script : Bytes) : Prop := ∃ chunks : List Bytes, (∀ c ∈ chunks, IsInstr c) ∧ script = chunks.flatten

theorem IsInstr.ne_nil {chunk : Bytes} (h : IsInstr chunk) : chunk ≠ [] := by
  obtain ⟨opcode, data, -, hop⟩ := h
  rintro rfl
  exact nomatch hop []

theorem isInstr_pushData {data : Bytes} (h : data.length < 2 ^ 32) : IsInstr (pushData data) := by
  refine ⟨pushOpcode data.length, data, ?_, fun rest => getOp_pushData rest h⟩
  intro heq
  have hle := pushOpcode_le data.length
  rw [heq] at hle
  exact absurd hle (by decide)

theorem isInstr_opcode {opcode : UInt8} (hpush : ¬ opcode ≤ opPushData4) (hsep : opcode ≠ opCodeSeparator) :
    IsInstr [opcode] :=
  ⟨opcode, [], hsep, fun rest => getOp_of_gt rest hpush⟩

theorem isInstr_pushInt64 {m : ℤ} (h0 : 0 ≤ m) (h1 : m ≤ maxUapMultiplier) : IsInstr (pushInt64 m) := by
  rcases lt_trichotomy m 0 with h | rfl | h
  · omega
  · rw [pushInt64_zero]
    exact isInstr_pushData (by decide)
  · by_cases hsmall : m ≤ 16
    · rw [pushInt64_small ⟨by omega, hsmall⟩]
      interval_cases m <;> exact isInstr_opcode (by decide) (by decide)
    · rw [pushInt64_large (by omega)]
      have hlen := serialize_length_le (show m.natAbs < 2 ^ 31 by unfold maxUapMultiplier at h1; omega)
      exact isInstr_pushData (by omega)

theorem wholeScript_nil : WholeScript [] := ⟨[], by simp, rfl⟩

theorem IsInstr.wholeScript {chunk : Bytes} (h : IsInstr chunk) : WholeScript chunk :=
  ⟨[chunk], by simpa using h, by simp⟩

theorem WholeScript.append {a b : Bytes} (ha : WholeScript a) (hb : WholeScript b) : WholeScript (a ++ b) := by
  obtain ⟨as, has, rfl⟩ := ha
  obtain ⟨bs, hbs, rfl⟩ := hb
  exact ⟨as ++ bs, List.forall_mem_append.mpr ⟨has, hbs⟩, by simp⟩

theorem WholeScript.cases {script : Bytes} (h : WholeScript script) :
    script = [] ∨ ∃ chunk rest, IsInstr chunk ∧ WholeScript rest ∧ script = chunk ++ rest := by
  obtain ⟨chunks, hchunks, rfl⟩ := h
  cases chunks with
  | nil => exact Or.inl rfl
  | cons chunk chunks =>
    rw [List.forall_mem_cons] at hchunks
    exact Or.inr ⟨chunk, chunks.flatten, hchunks.1, ⟨chunks, hchunks.2, rfl⟩, rfl⟩

theorem wholeScript_uapScript {f : UapOutput} (hf : f.WellFormed) : WholeScript (uapScript f) := by
  have hkey : IsInstr (pushData f.pubkey) := isInstr_pushData (by rcases hf.pubkey_size with h | h <;> omega)
  have hmult := isInstr_pushInt64 hf.multiplier_nonneg hf.multiplier_le
  refine (hkey.wholeScript.append hmult.wholeScript).append ?_
  cases hmint : f.isMint with
  | true => exact (isInstr_opcode (by decide) (by decide)).wholeScript
  | false =>
    have horigin : f.origin.length = 32 := hf.origin_size hmint
    exact (isInstr_pushData (by omega)).wholeScript.append (isInstr_opcode (by decide) (by decide)).wholeScript

section
variable {b : Bytes}

theorem WholeScript.skipCopies (hb : IsInstr b) {pc : Bytes} (h : WholeScript pc) (fuel : ℕ) :
    WholeScript (skipCopies b fuel pc).1 := by
  induction fuel generalizing pc with
  | zero => exact h
  | succ fuel ih =>
    unfold Script.skipCopies
    split_ifs with hcopy
    · obtain ⟨t, rfl⟩ := List.isPrefixOf_iff_prefix.mp hcopy
      rw [List.drop_left]
      apply ih
      obtain ⟨opcode, data, -, hop⟩ := hb
      rcases h.cases with hnil | ⟨chunk, rest, ⟨opcode', data', -, hop'⟩, hrest, heq⟩
      · exact nomatch hnil ▸ hop t
      · have hsame := hop t
        rw [heq, hop' rest] at hsame
        obtain rfl : rest = t := congrArg ScriptOp.rest (Except.ok.inj hsame)
        exact hrest
    · exact h

theorem WholeScript.findAndDeleteLoop (hb : IsInstr b) {result pre pc : Bytes} (hresult : WholeScript result)
    (hpre : WholeScript pre) (hpc : WholeScript pc) (fuel nFound : ℕ) :
    WholeScript (findAndDeleteLoop b fuel result (pre ++ pc) nFound pc).1 := by
  induction fuel generalizing result pre pc nFound with
  | zero => exact hresult.append (hpre.append hpc)
  | succ fuel ih =>
    unfold Script.findAndDeleteLoop
    have htake : (pre ++ pc).take ((pre ++ pc).length - pc.length) = pre := by simp
    have hskip := hpc.skipCopies hb pc.length
    simp only [htake]
    generalize Script.skipCopies b pc.length pc = skipped at hskip ⊢
    obtain ⟨pc', n⟩ := skipped
    dsimp only at hskip ⊢
    rcases hskip.cases with rfl | ⟨chunk, rest, hchunk, hrest, rfl⟩
    · rw [getOp_nil]
      exact (hresult.append hpre).append wholeScript_nil
    · obtain ⟨opcode, data, hsep, hop⟩ := hchunk
      rw [hop rest]
      exact ih (hresult.append hpre) (IsInstr.wholeScript ⟨opcode, data, hsep, hop⟩) hrest (nFound + n)

theorem WholeScript.findAndDelete {script : Bytes} (h : WholeScript script) (hb : IsInstr b) :
    WholeScript (findAndDelete script b) := by
  unfold Script.findAndDelete
  have hloop := WholeScript.findAndDeleteLoop hb wholeScript_nil wholeScript_nil h (script.length + 1) 0
  simp only [List.nil_append] at hloop
  generalize Script.findAndDeleteLoop b (script.length + 1) [] script 0 script = r at hloop ⊢
  obtain ⟨result, nFound⟩ := r
  dsimp only at hloop ⊢
  split_ifs <;> assumption

end

theorem countCodeSeparators_whole {chunks : List Bytes} (h : ∀ c ∈ chunks, IsInstr c) (fuel : ℕ) :
    countCodeSeparators fuel chunks.flatten = 0 := by
  induction chunks generalizing fuel with
  | nil => cases fuel <;> rfl
  | cons chunk chunks ih =>
    cases fuel with
    | zero => rfl
    | succ fuel =>
      rw [List.forall_mem_cons] at h
      obtain ⟨opcode, data, hsep, hop⟩ := h.1
      rw [countCodeSeparators, List.flatten_cons, hop]
      simp only [if_neg hsep, ih h.2 fuel]

theorem writeScriptCode_whole {chunks : List Bytes} (h : ∀ c ∈ chunks, IsInstr c) (pre : Bytes) {fuel : ℕ}
    (hfuel : chunks.length < fuel) : writeScriptCode fuel (pre ++ chunks.flatten) chunks.flatten = pre ++ chunks.flatten := by
  induction chunks generalizing fuel pre with
  | nil =>
    obtain ⟨fuel, rfl⟩ : ∃ n, fuel = n + 1 := ⟨fuel - 1, by omega⟩
    simp only [List.flatten_nil, List.append_nil, writeScriptCode, getOp_nil, List.length_nil, Nat.sub_zero,
      List.take_length]
    split_ifs with hne
    · rfl
    · exact (not_not.mp hne).symm
  | cons chunk chunks ih =>
    obtain ⟨fuel, rfl⟩ : ∃ n, fuel = n + 1 := ⟨fuel - 1, by omega⟩
    rw [List.forall_mem_cons] at h
    obtain ⟨opcode, data, hsep, hop⟩ := h.1
    rw [List.flatten_cons, writeScriptCode, hop]
    dsimp only
    rw [if_neg hsep, ← List.append_assoc]
    exact ih h.2 (pre ++ chunk) (by simp only [List.length_cons] at hfuel; omega)

theorem serializeScriptCode_whole {script : Bytes} (h : WholeScript script) :
    serializeScriptCode script = writeBytes script := by
  obtain ⟨chunks, hchunks, rfl⟩ := h
  have hlen : chunks.length ≤ chunks.flatten.length := by
    induction chunks with
    | nil => simp
    | cons chunk chunks ih =>
      rw [List.forall_mem_cons] at hchunks
      have hpos := List.length_pos_iff.mpr hchunks.1.ne_nil
      have := ih hchunks.2
      simp only [List.flatten_cons, List.length_append, List.length_cons]
      omega
  have hwrite := writeScriptCode_whole hchunks [] (Nat.lt_succ_of_le hlen)
  rw [List.nil_append] at hwrite
  rw [serializeScriptCode, countCodeSeparators_whole hchunks, hwrite, Nat.sub_zero, writeBytes]

end Whippet.Script
