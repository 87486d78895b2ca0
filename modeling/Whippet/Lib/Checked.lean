import Mathlib.Data.List.Basic
import Mathlib.Data.List.Induction

/-! Computations that stop at the first failed check. -/
namespace Whippet.Lib

universe u v
variable {ε : Type u} {α σ : Type v}

/-- A check that ends the computation with `e` when `c` holds. -/
def failIf (c : Prop) [Decidable c] (e : ε) : Except ε PUnit.{v + 1} := if c then .error e else .ok ⟨⟩

/-- A lookup that ends the computation with `e` when there is no value. -/
def orFail (e : ε) : Option α → Except ε α
  | none => .error e
  | some a => .ok a

@[simp] theorem ok_bind {β : Type v} (a : α) (f : α → Except ε β) : (Except.ok a >>= f) = f a := rfl

@[simp] theorem error_bind {β : Type v} (e : ε) (f : α → Except ε β) : (Except.error e >>= f) = .error e := rfl

variable {c : Prop}

theorem failIf_pos [Decidable c] (h : c) (e : ε) : failIf c e = .error e := if_pos h

theorem failIf_neg [Decidable c] (h : ¬ c) (e : ε) : failIf c e = .ok ⟨⟩ := if_neg h

@[simp] theorem failIf_false [Decidable False] (e : ε) : failIf False e = .ok ⟨⟩ := failIf_neg not_false e

variable {x : Except ε α}

@[simp] theorem bind_eq_ok {β : Type v} {f : α → Except ε β} {b : β} :
    (x >>= f) = .ok b ↔ ∃ a, x = .ok a ∧ f a = .ok b := by
  cases x with
  | error e => simp [Bind.bind, Except.bind]
  | ok a => simp [Bind.bind, Except.bind]

variable {a : α}

@[simp] theorem pure_eq_ok {b : α} : (pure a : Except ε α) = .ok b ↔ a = b := by
  simp [Pure.pure, Except.pure]

variable {e : ε}

@[simp] theorem failIf_eq_ok [Decidable c] {u : PUnit.{v + 1}} :
    failIf c e = .ok u ↔ ¬ c := by
  unfold failIf
  split_ifs with h <;> simp [h]

@[simp] theorem orFail_eq_ok {o : Option α} : orFail e o = .ok a ↔ o = some a := by
  cases o <;> simp [orFail]

theorem toOption_eq_some : x.toOption = some a ↔ x = .ok a := by
  cases x <;> simp [Except.toOption]

theorem bind_ne_error {β : Type v} {f : α → Except ε β} (hx : x ≠ .error e)
    (hf : ∀ a, f a ≠ .error e) : (x >>= f) ≠ .error e := by
  cases x with
  | error e' =>
    rw [error_bind]
    simpa using hx
  | ok a => exact hf a

theorem failIf_ne_error [Decidable c] {e' : ε} (h : c → e ≠ e') :
    (failIf c e : Except ε PUnit.{v + 1}) ≠ .error e' := by
  unfold failIf
  split_ifs with hc
  · simpa using h hc
  · simp

theorem orFail_ne_error {e' : ε} (h : e ≠ e') (o : Option α) : orFail e o ≠ .error e' := by
  cases o with
  | none => simpa [orFail] using h
  | some a => simp [orFail]

variable {β : Type*} {f : σ → β → Except ε σ}

theorem foldlM_ne_error (h : ∀ s b, f s b ≠ .error e) (l : List β) (s : σ) : l.foldlM f s ≠ .error e := by
  induction l generalizing s with
  | nil => simp [Pure.pure, Except.pure]
  | cons b l ih =>
    rw [List.foldlM_cons]
    exact bind_ne_error (h s b) ih

variable {l : List β}

theorem forM_eq_ok {f : β → Except ε PUnit.{v + 1}} {u : PUnit.{v + 1}} :
    l.forM f = .ok u ↔ ∀ b ∈ l, f b = .ok ⟨⟩ := by
  induction l with
  | nil => simp
  | cons b l ih =>
    change (f b >>= fun _ => l.forM f) = .ok u ↔ _
    simp only [bind_eq_ok, ih, List.forall_mem_cons]
    exact ⟨fun ⟨_, hb, hl⟩ => ⟨hb, hl⟩, fun ⟨hb, hl⟩ => ⟨⟨⟩, hb, hl⟩⟩

variable {s s' : σ} {P : List β → σ → Prop}

/-- The run rule of a checked loop: what holds before it and is kept by each completed iteration holds
after it. `P` may speak of the elements done so far. -/
theorem foldlM_split_ok (run : l.foldlM f s = .ok s') (init : P [] s)
    (step : ∀ done b rest s s', done ++ b :: rest = l → P done s → f s b = .ok s' → P (done ++ [b]) s') :
    P l s' := by
  suffices h : ∀ rest done s, done ++ rest = l → P done s → rest.foldlM f s = .ok s' → P l s' from
    h l [] s rfl init run
  intro rest
  induction rest with
  | nil =>
    intro done s hl hs run
    obtain rfl : s = s' := by simpa using run
    simpa [← hl] using hs
  | cons b rest ih =>
    intro done s hl hs run
    rw [List.foldlM_cons, bind_eq_ok] at run
    obtain ⟨t, hstep, run⟩ := run
    exact ih (done ++ [b]) t (by simpa using hl) (step done b rest s t hl hs hstep) run

theorem foldlM_ok (run : l.foldlM f s = .ok s') (init : P [] s)
    (step : ∀ done b s s', b ∈ l → P done s → f s b = .ok s' → P (done ++ [b]) s') : P l s' := by
  apply foldlM_split_ok run init
  intro done b rest s s' hl
  exact step done b s s' (by simp [← hl])

theorem foldlM_rel {τ : Type v} {g : τ → β → Except ε τ} {R : σ → τ → Prop} {t : τ}
    (run : l.foldlM f s = .ok s') (init : R s t)
    (step : ∀ b ∈ l, ∀ s t s', R s t → f s b = .ok s' → ∃ t', g t b = .ok t' ∧ R s' t') :
    ∃ t', l.foldlM g t = .ok t' ∧ R s' t' := by
  induction l generalizing s t with
  | nil =>
    obtain rfl : s = s' := by simpa using run
    exact ⟨t, rfl, init⟩
  | cons b l ih =>
    rw [List.foldlM_cons, bind_eq_ok] at run
    obtain ⟨s₁, hs, run⟩ := run
    obtain ⟨t₁, ht, hrel⟩ := step b List.mem_cons_self s t s₁ init hs
    obtain ⟨t', hrun, hend⟩ := ih run hrel fun c hc => step c (List.mem_cons_of_mem b hc)
    exact ⟨t', by rw [List.foldlM_cons, ht, ok_bind, hrun], hend⟩

theorem foldlM_range_ok {f : σ → ℕ → Except ε σ}
    (run : (List.range l.length).foldlM f s = .ok s') (init : P [] s)
    (step : ∀ done i b s s', l[i]? = some b → P done s → f s i = .ok s' → P (done ++ [b]) s') : P l s' := by
  induction l using List.reverseRecOn generalizing s' with
  | nil =>
    obtain rfl : s = s' := by simpa using run
    exact init
  | append_singleton l b ih =>
    rw [List.length_append, List.length_singleton, List.range_succ, List.foldlM_append, bind_eq_ok] at run
    obtain ⟨t, hfirst, hlast⟩ := run
    have hstep : f t l.length = .ok s' := by simpa using hlast
    refine step l l.length b t s' (by simp) (ih hfirst ?_) hstep
    intro done i c s s' hi
    apply step
    rw [List.getElem?_append_left (List.getElem?_eq_some_iff.mp hi).1, hi]

end Whippet.Lib
