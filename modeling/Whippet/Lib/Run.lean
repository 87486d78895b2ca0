import Mathlib.Data.List.Basic
import Mathlib.Data.List.Induction

/-! Runs of a state machine whose events have to be admissible in the state they find. -/
namespace Whippet.Lib

variable {σ ε : Type*} (step : σ → ε → σ) (ok : σ → ε → Prop)

def run (s : σ) (events : List ε) : σ := events.foldl step s

/-- Each event is admissible in the state that the events before it lead to. -/
def Admissible : σ → List ε → Prop
  | _, [] => True
  | s, e :: events => ok s e ∧ Admissible (step s e) events

variable {step ok} {s : σ} {e : ε} {events : List ε}

instance Admissible.decidable [∀ s e, Decidable (ok s e)] : ∀ s events, Decidable (Admissible step ok s events)
  | _, [] => inferInstanceAs (Decidable True)
  | s, e :: events =>
    have := Admissible.decidable (step s e) events
    inferInstanceAs (Decidable (ok s e ∧ Admissible step ok (step s e) events))

@[simp] theorem run_nil : run step s [] = s := rfl

@[simp] theorem run_cons : run step s (e :: events) = run step (step s e) events := rfl

theorem run_append (events' : List ε) : run step s (events ++ events') = run step (run step s events) events' :=
  List.foldl_append

theorem admissible_append {events' : List ε} : Admissible step ok s (events ++ events') ↔
    Admissible step ok s events ∧ Admissible step ok (run step s events) events' := by
  induction events generalizing s with
  | nil => simp [Admissible]
  | cons e events ih => simp only [List.cons_append, Admissible, ih, run_cons, and_assoc]

theorem Admissible.and {ok' : σ → ε → Prop} (h : Admissible step ok s events) (h' : Admissible step ok' s events) :
    Admissible step (fun s e => ok s e ∧ ok' s e) s events := by
  induction events generalizing s with
  | nil => trivial
  | cons e events ih => exact ⟨⟨h.1, h'.1⟩, ih h.2 h'.2⟩

theorem admissible_of_forall {Q : ε → Prop} (h : ∀ e ∈ events, Q e) (s : σ) : Admissible step (fun _ e => Q e) s events := by
  induction events generalizing s with
  | nil => trivial
  | cons e events ih =>
    rw [List.forall_mem_cons] at h
    exact ⟨h.1, ih h.2 (step s e)⟩

/-- The run rule: what holds before the run and is kept by every admissible event holds after it. `P` may
speak of the events so far. -/
theorem run_invariant {P : List ε → σ → Prop} (init : P [] s)
    (keep : ∀ done s e, P done s → ok s e → P (done ++ [e]) (step s e))
    (h : Admissible step ok s events) : P events (run step s events) := by
  induction events using List.reverseRecOn with
  | nil => exact init
  | append_singleton events e ih =>
    obtain ⟨hdone, hlast⟩ := admissible_append.mp h
    rw [run_append]
    exact keep events _ e (ih hdone) hlast.1

theorem foldl_frame {α γ : Type*} {f : σ → α → σ} (g : σ → γ) (h : ∀ s a, g (f s a) = g s) (l : List α) (s : σ) :
    g (l.foldl f s) = g s := by
  induction l generalizing s with
  | nil => rfl
  | cons a l ih => rw [List.foldl_cons, ih, h]

end Whippet.Lib
