import Whippet.Indexer.LiveIndex
import Whippet.Indexer.OrderRun

/-! What any sequence of calls leaves in memory and in the database, whichever calls to the store fail. -/
namespace Whippet.Indexer
open Lib Primitives

namespace LiveIndex

section
variable (crypto : Crypto) (ec : Btcec)

def runCalls (s : LiveIndex) (calls : List (Event × Faults String)) : LiveIndex :=
  run (fun s call => (s.step crypto ec call).1) s calls

/-- The calls that succeed, in order, with the last nonce each of them finds taken. -/
def succeeded : LiveIndex → List (Event × Faults String) → List (Event × ℤ)
  | _, [] => []
  | s, call :: calls =>
    let r := s.step crypto ec call
    if r.2 then (call.1, s.lastCancelNonce) :: succeeded r.1 calls else succeeded r.1 calls

/-- A call without faults, in a process that has taken nonces up to `call.2`. -/
def perform (idx : Index) (call : Event × ℤ) : Index := Index.step crypto ec { idx with lastCancelNonce := call.2 } call.1

end

section
variable {crypto : Crypto} {ec : Btcec} {s : LiveIndex}

theorem loaded_run (h : loadMeta s.db.2 = s.md) (calls : List (Event × Faults String)) :
    loadMeta (runCalls crypto ec s calls).db.2 = (runCalls crypto ec s calls).md := by
  induction calls generalizing s with
  | nil => exact h
  | cons call calls ih =>
    apply ih
    have hatomic := @step_atomic crypto ec s call
    cases hr : (s.step crypto ec call).2 with
    | true => exact (hatomic.performed hr).loaded h
    | false => rw [(hatomic.failed hr).db, (hatomic.failed hr).md, h]

theorem step_of_latched (h : s.storeErr ≠ none) (call : Event × Faults String) : (s.step crypto ec call).2 = false := by
  have hatomic := @step_atomic crypto ec s call
  by_contra hne
  exact h (hatomic.performed (by simpa using hne)).storeErr

theorem db_of_latched (h : s.storeErr ≠ none) (calls : List (Event × Faults String)) :
    (runCalls crypto ec s calls).db = s.db := by
  induction calls generalizing s with
  | nil => rfl
  | cons call calls ih =>
    have hfailed := (@step_atomic crypto ec s call).failed (step_of_latched h call)
    exact (ih (hfailed.latched h)).trans hfailed.db

/-- The index of the model without faults, whatever error is latched and whatever nonces are taken. -/
def Same (idx : Index) (s : LiveIndex) : Prop :=
  idx = { s.index with storeErr := none, lastCancelNonce := idx.lastCancelNonce }

theorem Failed.same {idx : Index} {s' : LiveIndex} (hfailed : Failed s s') (h : Same idx s) : Same idx s' := by
  unfold Same at h ⊢
  obtain ⟨htip, hhash, hpruned⟩ := Meta.mk.inj hfailed.md
  rw [h]
  simp only [index, hfailed.db, hfailed.reorgWindow, htip, hhash, hpruned]

theorem Performed.same {idx : Index} {s' : LiveIndex} {e : Event} (hperformed : Performed crypto ec s e s')
    (h : Same idx s) : Same (perform crypto ec idx (e, s.lastCancelNonce)) s' := by
  have hidx : { idx with lastCancelNonce := s.lastCancelNonce } = s.index := by
    rw [h]
    simp only [LiveIndex.index, hperformed.storeErr]
  unfold perform
  rw [hidx, ← hperformed.index]
  simp only [Same, LiveIndex.index, hperformed.storeErr']

theorem same_run {idx : Index} (h : Same idx s) (calls : List (Event × Faults String)) :
    Same (run (perform crypto ec) idx (succeeded crypto ec s calls)) (runCalls crypto ec s calls) := by
  induction calls generalizing s idx with
  | nil => exact h
  | cons call calls ih =>
    have hatomic := @step_atomic crypto ec s call
    unfold succeeded
    cases hr : (s.step crypto ec call).2 with
    | true =>
      simp only [hr, if_true]
      exact ih ((hatomic.performed hr).same h)
    | false =>
      simp only [hr, Bool.false_eq_true, if_false]
      exact ih ((hatomic.failed hr).same h)

end
end LiveIndex

open LiveIndex

/-- After any calls under any faults, what is in memory is what would be loaded, the tables are those that the
calls that succeeded make, each publication with the nonce it was given, and after a failed block call nothing
is persisted any more. -/
theorem store_faults_atomic (crypto : Crypto) (ec : Btcec) (db : Database) (reorgWindow : ℤ)
    (calls : List (Event × Faults String)) :
    let s₀ := loadIndex db reorgWindow
    let s := runCalls crypto ec s₀ calls
    let idx := run (perform crypto ec) s₀.index (succeeded crypto ec s₀ calls)
    loadMeta s.db.2 = ⟨s.tipHeight, s.tipHash, s.prunedBelow⟩ ∧
      s.db.1 = idx.store ∧ s.tipHeight = idx.tipHeight ∧ s.tipHash = idx.tipHash ∧ s.prunedBelow = idx.prunedBelow ∧
      ∀ done call later, calls = done ++ call :: later → blockCall call.1 = true →
        ((runCalls crypto ec s₀ done).step crypto ec call).2 = false → s.db = (runCalls crypto ec s₀ done).db := by
  intro s₀ s idx
  have hsame : Same idx s := same_run (by rfl) calls
  refine ⟨loaded_run rfl calls, ?_, ?_, ?_, ?_, ?_⟩
  · rw [hsame]
    rfl
  · rw [hsame]
    rfl
  · rw [hsame]
    rfl
  · rw [hsame]
    rfl
  · intro done call later hcalls hblock hfail
    have hatomic := @step_atomic crypto ec (runCalls crypto ec s₀ done) call
    have hrun : s = runCalls crypto ec ((runCalls crypto ec s₀ done).step crypto ec call).1 later := by
      change runCalls crypto ec s₀ calls = _
      rw [hcalls, runCalls, run_append]
      rfl
    rw [hrun, db_of_latched (hatomic.latches hfail hblock)]
    exact (hatomic.failed hfail).db

def failAt (n : ℕ) : Faults String := fun k => if k = n then some "disk I/O error" else none

def noFaults : Faults String := fun _ => none

/-- A publication whose commit fails takes a nonce, and so the next one is not stored as it would be without it. -/
theorem store_faults_take_nonce :
    let s₀ := loadIndex ({}, ∅) 15000
    let calls := [(.applyBlock (sampleBlock '0' 0 [] [sampleMint]), noFaults), (.publishOrder sampleOrder sampleClock, failAt 4),
      (.publishOrder sampleOrder sampleClock, noFaults)]
    let s := runCalls (Crypto.recorded []) (Btcec.recorded []) s₀ calls
    let idx := run (Index.step (Crypto.recorded []) (Btcec.recorded [])) s₀.index
      ((succeeded (Crypto.recorded []) (Btcec.recorded []) s₀ calls).map Prod.fst)
    (succeeded (Crypto.recorded []) (Btcec.recorded []) s₀ calls).length = 2 ∧
      (s.db.1.orders.lookup sampleOrder.key).map Order.cancelNonce = some (sampleClock.unixNano + 1) ∧
      (idx.store.orders.lookup sampleOrder.key).map Order.cancelNonce = some sampleClock.unixNano := by
  decide +kernel

end Whippet.Indexer
