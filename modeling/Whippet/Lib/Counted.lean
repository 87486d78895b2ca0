import Whippet.Lib.Checked

/-! Computations that may fail and that count the calls they make. The count of a failed computation is kept. -/
namespace Whippet.Lib

universe u v

/-- A result and the number of calls that were made for it. -/
structure Counted (ε : Type u) (α : Type v) where
  result : Except ε α
  calls : ℕ

namespace Counted
variable {ε : Type u} {α β : Type v}

instance : Monad (Counted ε) where
  pure a := ⟨.ok a, 0⟩
  bind x f :=
    match x.result with
    | .error e => ⟨.error e, x.calls⟩
    | .ok a => ⟨(f a).result, x.calls + (f a).calls⟩

def lift (x : Except ε α) : Counted ε α := ⟨x, 0⟩

def call (answer : α) : Counted ε α := ⟨.ok answer, 1⟩

@[simp] theorem result_pure (a : α) : (pure a : Counted ε α).result = .ok a := rfl

@[simp] theorem result_lift (x : Except ε α) : (lift x).result = x := rfl

@[simp] theorem result_call (answer : α) : (call answer : Counted ε α).result = .ok answer := rfl

@[simp] theorem calls_pure (a : α) : (pure a : Counted ε α).calls = 0 := rfl

@[simp] theorem calls_lift (x : Except ε α) : (lift x).calls = 0 := rfl

@[simp] theorem calls_call (answer : α) : (call answer : Counted ε α).calls = 1 := rfl

@[simp] theorem result_bind (x : Counted ε α) (f : α → Counted ε β) :
    (x >>= f).result = x.result >>= fun a => (f a).result := by
  obtain ⟨x, n⟩ := x
  cases x <;> rfl

theorem calls_bind_le {x : Counted ε α} {f : α → Counted ε β} {m n : ℕ} (hx : x.calls ≤ m)
    (hf : ∀ a, x.result = .ok a → (f a).calls ≤ n) : (x >>= f).calls ≤ m + n := by
  obtain ⟨x, k⟩ := x
  cases x with
  | error e => exact Nat.le_add_right_of_le hx
  | ok a => exact Nat.add_le_add hx (hf a rfl)

theorem calls_lift_bind_le {x : Except ε α} {f : α → Counted ε β} {n : ℕ} (hf : ∀ a, x = .ok a → (f a).calls ≤ n) :
    (lift x >>= f).calls ≤ n := by
  have hle := calls_bind_le (x := lift x) (Nat.le_refl 0) hf
  rwa [Nat.zero_add] at hle

theorem calls_bind_le_left {x : Counted ε α} {f : α → Counted ε β} {n : ℕ} (hx : x.calls ≤ n)
    (hf : ∀ a, (f a).calls = 0) : (x >>= f).calls ≤ n :=
  calls_bind_le hx fun a _ => Nat.le_of_eq (hf a)

end Counted
end Whippet.Lib
