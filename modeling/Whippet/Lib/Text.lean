import Whippet.Lib.Hex

/-! Texts joined by a separator, and their UTF-8 bytes. -/
namespace Whippet.Lib

theorem append_separator_inj {α : Type*} {a : α} {x x' y y' : List α} (hy : a ∉ y) (hy' : a ∉ y')
    (h : x ++ [a] ++ y = x' ++ [a] ++ y') : x = x' ∧ y = y' := by
  rw [← List.append_cons, ← List.append_cons] at h
  rcases List.append_eq_append_iff.mp h with ⟨c, hx', hrest⟩ | ⟨c, hx, hrest⟩
  · cases c with
    | nil =>
      rw [List.nil_append, List.cons.injEq] at hrest
      exact ⟨by rw [hx', List.append_nil], hrest.2⟩
    | cons b c =>
      rw [List.cons_append, List.cons.injEq] at hrest
      exact absurd (by simp [hrest.2]) hy
  · cases c with
    | nil =>
      rw [List.nil_append, List.cons.injEq] at hrest
      exact ⟨by rw [hx, List.append_nil], hrest.2.symm⟩
    | cons b c =>
      rw [List.cons_append, List.cons.injEq] at hrest
      exact absurd (by simp [hrest.2]) hy'

theorem flatMap_utf8EncodeChar_injective :
    Function.Injective fun l : List Char => l.flatMap String.utf8EncodeChar := by
  intro l l' h
  have hdecode : l.utf8Encode.utf8Decode? = l'.utf8Encode.utf8Decode? :=
    congrArg (fun bs : List UInt8 => bs.toByteArray.utf8Decode?) h
  rw [List.utf8Decode?_utf8Encode, List.utf8Decode?_utf8Encode, Option.some.injEq] at hdecode
  simpa using congrArg Array.toList hdecode

theorem hexValue?_of_mem_hexDecode? {text : List Char} {bs : Bytes} (h : hexDecode? text = some bs) {c : Char}
    (hc : c ∈ text) : (hexValue? c).isSome = true := by
  induction text using hexDecode?.induct generalizing bs with
  | case1 => simp at hc
  | case2 => simp [hexDecode?] at h
  | case3 c₁ c₂ cs ih =>
    unfold hexDecode? at h
    obtain ⟨hi, hhi, h⟩ := Option.bind_eq_some_iff.mp h
    obtain ⟨lo, hlo, h⟩ := Option.bind_eq_some_iff.mp h
    obtain ⟨rest, hrest, -⟩ := Option.bind_eq_some_iff.mp h
    simp only [List.mem_cons] at hc
    rcases hc with rfl | rfl | hc
    · simp [hhi]
    · simp [hlo]
    · exact ih hrest hc

theorem newline_notMem_of_hexDecode? {text : List Char} {bs : Bytes} (h : hexDecode? text = some bs) : '\n' ∉ text := by
  intro hmem
  have hdigit := hexValue?_of_mem_hexDecode? h hmem
  revert hdigit
  decide

end Whippet.Lib
