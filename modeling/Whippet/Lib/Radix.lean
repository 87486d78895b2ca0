import Mathlib.Data.Nat.Digits.Lemmas

/-! Numbers in positional notation, most significant digit first, and the change of radix that keeps leading zeros. -/
namespace Whippet.Lib

def radixDigits (b n : ℕ) : List ℕ := (Nat.digits b n).reverse

def radixValue (b : ℕ) (digits : List ℕ) : ℕ := Nat.ofDigits b digits.reverse

def leadingZeros (digits : List ℕ) : ℕ := (digits.takeWhile (· = 0)).length

/-- The digits in another radix, with as many leading zeros. -/
def reradix (b c : ℕ) (digits : List ℕ) : List ℕ :=
  List.replicate (leadingZeros digits) 0 ++ radixDigits c (radixValue b digits)

section
variable {b c n : ℕ} {digits : List ℕ}

theorem radixDigits_zero (b : ℕ) : radixDigits b 0 = [] := by simp [radixDigits]

theorem radixDigits_of_pos (hb : 1 < b) (hn : n ≠ 0) : radixDigits b n = radixDigits b (n / b) ++ [n % b] := by
  rw [radixDigits, Nat.digits_def' hb (by omega), List.reverse_cons, radixDigits]

theorem radixValue_append_singleton (b : ℕ) (digits : List ℕ) (d : ℕ) :
    radixValue b (digits ++ [d]) = b * radixValue b digits + d := by
  rw [radixValue, List.reverse_append, List.reverse_singleton, List.singleton_append, Nat.ofDigits_cons, radixValue,
    Nat.add_comm]

theorem radixValue_eq_foldl (b : ℕ) (digits : List ℕ) : radixValue b digits = digits.foldl (fun n d => b * n + d) 0 := by
  induction digits using List.reverseRecOn with
  | nil => rfl
  | append_singleton digits d ih => rw [radixValue_append_singleton, List.foldl_append, ih]; rfl

theorem radixValue_lt (hb : 1 < b) (h : ∀ d ∈ digits, d < b) : radixValue b digits < b ^ digits.length := by
  have := Nat.ofDigits_lt_base_pow_length hb (l := digits.reverse) fun d hd => h d (List.mem_reverse.mp hd)
  rwa [List.length_reverse] at this

theorem radixValue_radixDigits (b n : ℕ) : radixValue b (radixDigits b n) = n := by
  rw [radixValue, radixDigits, List.reverse_reverse, Nat.ofDigits_digits]

theorem radixDigits_lt (hb : 1 < b) : ∀ d ∈ radixDigits b n, d < b :=
  fun _ hd => Nat.digits_lt_base hb (List.mem_reverse.mp hd)

theorem radixDigits_head (b n : ℕ) : ∀ d ∈ (radixDigits b n).head?, d ≠ 0 := by
  intro d hd
  rw [radixDigits, List.head?_reverse] at hd
  by_cases hn : n = 0
  · simp [hn] at hd
  · have hne : Nat.digits b n ≠ [] := Nat.digits_ne_nil_iff_ne_zero.mpr hn
    rw [List.getLast?_eq_some_getLast hne] at hd
    obtain rfl := Option.some.inj hd
    exact Nat.getLast_digit_ne_zero b hn

theorem radixValue_replicate_append (b k : ℕ) (digits : List ℕ) :
    radixValue b (List.replicate k 0 ++ digits) = radixValue b digits := by
  rw [radixValue, List.reverse_append, List.reverse_replicate, Nat.ofDigits_append_replicate_zero, radixValue]

theorem leadingZeros_append (k : ℕ) (h : ∀ d ∈ digits.head?, d ≠ 0) :
    leadingZeros (List.replicate k 0 ++ digits) = k := by
  induction k with
  | zero =>
    cases digits with
    | nil => rfl
    | cons d digits => simp [leadingZeros, h d rfl]
  | succ k ih =>
    rw [List.replicate_succ, List.cons_append, leadingZeros, List.takeWhile_cons_of_pos (by simp), List.length_cons]
    exact congrArg (· + 1) ih

theorem radixDigits_radixValue (hb : 1 < b) (h : ∀ d ∈ digits, d < b) (hhead : ∀ d ∈ digits.head?, d ≠ 0) :
    radixDigits b (radixValue b digits) = digits := by
  rw [radixDigits, radixValue, Nat.digits_ofDigits b hb, List.reverse_reverse]
  · exact fun d hd => h d (List.mem_reverse.mp hd)
  · intro hne
    rw [List.getLast_reverse]
    exact hhead _ (List.head?_eq_some_head _)

theorem replicate_leadingZeros_append (hb : 1 < b) (h : ∀ d ∈ digits, d < b) :
    List.replicate (leadingZeros digits) 0 ++ radixDigits b (radixValue b digits) = digits := by
  induction digits with
  | nil => simp [leadingZeros, radixValue, radixDigits_zero]
  | cons d digits ih =>
    by_cases hd : d = 0
    · subst hd
      have hzeros : leadingZeros (0 :: digits) = leadingZeros digits + 1 := by
        rw [leadingZeros, List.takeWhile_cons_of_pos (by simp), List.length_cons, leadingZeros]
      have hvalue : radixValue b (0 :: digits) = radixValue b digits := radixValue_replicate_append b 1 digits
      rw [hzeros, hvalue, List.replicate_succ, List.cons_append, ih (List.forall_mem_cons.mp h).2]
    · have hzeros : leadingZeros (d :: digits) = 0 := by simp [leadingZeros, hd]
      rw [hzeros, List.replicate_zero, List.nil_append, radixDigits_radixValue hb h (by simpa using hd)]

theorem reradix_lt (hc : 1 < c) : ∀ d ∈ reradix b c digits, d < c := by
  intro d hd
  rcases List.mem_append.mp hd with hd | hd
  · rw [List.eq_of_mem_replicate hd]
    omega
  · exact radixDigits_lt hc d hd

theorem leadingZeros_reradix (b c : ℕ) (digits : List ℕ) : leadingZeros (reradix b c digits) = leadingZeros digits :=
  leadingZeros_append _ (radixDigits_head c _)

theorem radixValue_reradix (b c : ℕ) (digits : List ℕ) : radixValue c (reradix b c digits) = radixValue b digits := by
  rw [reradix, radixValue_replicate_append, radixValue_radixDigits]

theorem reradix_reradix (hb : 1 < b) (c : ℕ) (h : ∀ d ∈ digits, d < b) :
    reradix c b (reradix b c digits) = digits := by
  rw [reradix, leadingZeros_reradix, radixValue_reradix, replicate_leadingZeros_append hb h]

end

end Whippet.Lib
