import Whippet.Indexer.StoreFaults
import Whippet.Indexer.SyncRun

/-! The rollback loop of `syncOnce` over a store that may fail: how often it goes round. -/
namespace Whippet.Indexer
open Lib Primitives

/-- What one iteration of the loop meets: the node's answer, whether the two reads of the store succeed, and the
faults of the transaction it may run. -/
structure WalkMoment where
  nodeHash : Option Text
  hashReadOk : Bool
  undoReadOk : Bool
  faults : Faults String

section
variable (startHeight : ℤ)

/-- One iteration: the index after it, and whether the loop goes round again. -/
def walkStep (m : WalkMoment) (s : LiveIndex) : LiveIndex × Bool :=
  if s.tipHeight < startHeight then (s, false)
  else
    match m.nodeHash with
    | none => (s, false)
    | some nodeHash =>
      let ourHash := if m.hashReadOk then s.index.hashAtHeight? s.tipHeight else none
      if ourHash = some nodeHash then (s, false)
      else if ourHash = none ∧ s.index.isPruned s.tipHeight = false then (s, false)
      else if (m.undoReadOk && s.index.canUndo s.tipHeight) = false then (s.reset m.faults, false)
      else (s.undoBlock s.tipHeight m.faults, true)

/-- Whether the loop is left within `n` iterations. -/
def exitsWithin : ℕ → (ℕ → WalkMoment) → LiveIndex → Bool
  | 0, _, _ => false
  | n + 1, moments, s =>
    let r := walkStep startHeight (moments 0) s
    !r.2 || exitsWithin n (fun k => moments (k + 1)) r.1

end

section
variable {startHeight : ℤ} {s : LiveIndex} {m : WalkMoment}

theorem walkStep_continues (h : (walkStep startHeight m s).2 = true) :
    startHeight ≤ s.tipHeight ∧ s.index.canUndo s.tipHeight = true ∧
      (walkStep startHeight m s).1 = s.undoBlock s.tipHeight m.faults := by
  by_cases htip : s.tipHeight < startHeight
  · simp [walkStep, htip] at h
  · cases hn : m.nodeHash with
    | none => simp [walkStep, htip, hn] at h
    | some nodeHash =>
      simp only [walkStep, if_neg htip, hn] at h ⊢
      generalize (if m.hashReadOk then s.index.hashAtHeight? s.tipHeight else none) = ourHash at h ⊢
      by_cases hagree : ourHash = some nodeHash
      · simp [hagree] at h
      · rw [if_neg hagree] at h ⊢
        by_cases habsent : ourHash = none ∧ s.index.isPruned s.tipHeight = false
        · simp [habsent] at h
        · rw [if_neg habsent] at h ⊢
          by_cases hundo : (m.undoReadOk && s.index.canUndo s.tipHeight) = false
          · simp [hundo] at h
          · rw [if_neg hundo]
            simp only [Bool.and_eq_false_iff, not_or, Bool.not_eq_false] at hundo
            exact ⟨by omega, hundo.2, rfl⟩

def Undoable (startHeight : ℤ) (s : LiveIndex) : Prop :=
  startHeight ≤ s.tipHeight ∧ s.index.canUndo s.tipHeight = true

def undone : (ℕ → Faults String) → LiveIndex → ℕ → LiveIndex
  | _, s, 0 => s
  | faults, s, i + 1 => undone (fun k => faults (k + 1)) (s.undoBlock s.tipHeight (faults 0)) i

theorem undone_succ (faults : ℕ → Faults String) (s : LiveIndex) (i : ℕ) : undone faults s (i + 1) =
    (undone faults s i).undoBlock (undone faults s i).tipHeight (faults i) := by
  induction i generalizing faults s with
  | zero => rfl
  | succ i ih => exact ih (fun k => faults (k + 1)) _

theorem undoBlock_tip_cases (s : LiveIndex) (faults : Faults String) (hcan : s.index.canUndo s.tipHeight = true) :
    (s.undoBlock s.tipHeight faults).storeErr = none ∧ (s.undoBlock s.tipHeight faults).tipHeight = s.tipHeight - 1 ∨
      ∃ e, s.undoBlock s.tipHeight faults = { s with storeErr := some e } := by
  have hcases : (∃ e, s.undoBlock s.tipHeight faults = { s with storeErr := some e }) ∨ _ :=
    LiveIndex.write_cases (F := fun t md => .ok (t.undoBlock s.tipHeight md)) fun n t md => StoreTx.undoBlock_follows md
  rcases hcases with hfail | ⟨herr, t, md, hundo, hwrite⟩
  · exact Or.inr hfail
  · obtain ⟨ch, hlog⟩ := Option.isSome_iff_exists.mp hcan
    have hmd : md.tipHeight = s.tipHeight - 1 := by
      have hlog' : s.db.1.undoLog? s.tipHeight = some ch := hlog
      simp only [Store.undoBlock, hlog', LiveIndex.md, if_true, Except.ok.injEq, Prod.mk.injEq] at hundo
      rw [← hundo.2]
    refine Or.inl ?_
    unfold LiveIndex.undoBlock
    rw [hwrite]
    exact ⟨herr, hmd⟩

/-- Each undo the loop can be brought to commits. -/
def Writable (startHeight : ℤ) (faults : ℕ → Faults String) (s : LiveIndex) : Prop :=
  ∀ i, (∀ j ≤ i, Undoable startHeight (undone faults s j)) → (undone faults s (i + 1)).storeErr = none

variable {faults : ℕ → Faults String}

theorem writable_of_no_fault (herr : s.storeErr = none) (hnone : ∀ i k, faults i k = none) :
    Writable startHeight faults s := by
  have hok : ∀ i, (undone faults s i).storeErr = none := by
    intro i
    induction i with
    | zero => exact herr
    | succ i ih =>
      rw [undone_succ]
      exact LiveIndex.write_commits (fun n t md => StoreTx.undoBlock_follows md) (hnone i) ih rfl
  intro i _
  exact hok (i + 1)

theorem Writable.tail (h : Writable startHeight faults s) (hs : Undoable startHeight s) :
    Writable startHeight (fun k => faults (k + 1)) (s.undoBlock s.tipHeight (faults 0)) := by
  intro i hi
  apply h (i + 1)
  intro j hj
  cases j with
  | zero => exact hs
  | succ j => exact hi j (by omega)

/-- While no write fails, the loop is left after at most one iteration for each height it can undo and one more. -/
theorem exitsWithin_of_writable {moments : ℕ → WalkMoment} (h : Writable startHeight (fun i => (moments i).faults) s)
    {n : ℕ} (hn : max 1 (s.tipHeight - startHeight + 2) ≤ n) : exitsWithin startHeight n moments s = true := by
  induction n generalizing s moments with
  | zero => omega
  | succ n ih =>
    unfold exitsWithin
    dsimp only
    cases hcont : (walkStep startHeight (moments 0) s).2 with
    | false => rfl
    | true =>
      obtain ⟨htip, hcan, hnext⟩ := walkStep_continues hcont
      have hok := h 0 fun j hj => by
        obtain rfl : j = 0 := by omega
        exact ⟨htip, hcan⟩
      rcases undoBlock_tip_cases s (moments 0).faults hcan with ⟨-, htip'⟩ | ⟨e, hfail⟩
      · rw [Bool.not_true, Bool.false_or, hnext]
        refine ih (h.tail ⟨htip, hcan⟩) ?_
        rw [htip']
        omega
      · simp [undone, hfail] at hok

theorem walkStep_of_disagree (hs : Undoable startHeight s) {nodeHash : Text}
    (hne : s.index.hashAtHeight? s.tipHeight ≠ some nodeHash) (faults : Faults String) :
    walkStep startHeight ⟨some nodeHash, true, true, faults⟩ s = (s.undoBlock s.tipHeight faults, true) := by
  obtain ⟨htip, hcan⟩ := hs
  have hrecord : s.index.hashAtHeight? s.tipHeight ≠ none := by
    unfold Index.canUndo Store.undoLog? at hcan
    unfold Index.hashAtHeight?
    cases hrow : s.index.store.heights.lookup s.tipHeight with
    | none => simp [hrow] at hcan
    | some row => simp
  simp only [walkStep, if_neg (not_lt.mpr htip), if_true, if_neg hne, hrecord, false_and, if_false, hcan,
    Bool.and_self, Bool.true_eq_false]

theorem undoable_undone {i : ℕ}
    (hbefore : ∀ j ≤ i, Undoable startHeight (undone faults s j)) (hfail : (undone faults s (i + 1)).storeErr ≠ none)
    (k : ℕ) : Undoable startHeight (undone faults s k) ∧ (i < k → (undone faults s k).storeErr ≠ none) := by
  induction k with
  | zero => exact ⟨hbefore 0 (by omega), by omega⟩
  | succ k ih =>
    obtain ⟨hk, herr⟩ := ih
    rw [undone_succ]
    rcases undoBlock_tip_cases (undone faults s k) (faults k) hk.2 with ⟨hok, -⟩ | ⟨e, hstuck⟩
    · -- an undo that commits comes before the first that fails
      have hle : k < i := by
        by_contra hlt
        rcases Nat.lt_or_eq_of_le (not_lt.mp hlt) with hlt | rfl
        · refine herr hlt ?_
          unfold LiveIndex.undoBlock LiveIndex.write at hok
          cases hlatched : (undone faults s k).storeErr with
          | none => rfl
          | some e => simp [hlatched] at hok
        · rw [undone_succ] at hfail
          exact hfail hok
      have hnext := hbefore (k + 1) (by omega)
      rw [undone_succ] at hnext
      exact ⟨hnext, by omega⟩
    · rw [hstuck]
      exact ⟨hk, by simp⟩

def disagreeing (faults : ℕ → Faults String) (s : LiveIndex) (k : ℕ) : WalkMoment :=
  let hash := (undone faults s k).index.hashAtHeight? (undone faults s k).tipHeight
  ⟨some ('x' :: hash.getD []), true, true, faults k⟩

theorem spins_of_disagreeing (h : ∀ k, Undoable startHeight (undone faults s k)) (n : ℕ) :
    exitsWithin startHeight n (disagreeing faults s) s = false := by
  induction n generalizing s faults with
  | zero => rfl
  | succ n ih =>
    have hne : s.index.hashAtHeight? s.tipHeight ≠ some ('x' :: (s.index.hashAtHeight? s.tipHeight).getD []) := by
      cases s.index.hashAtHeight? s.tipHeight with
      | none => simp
      | some hash =>
        intro heq
        have hlen := congrArg List.length (Option.some.inj heq)
        simp at hlen
    have hstep : walkStep startHeight (disagreeing faults s 0) s = (s.undoBlock s.tipHeight (faults 0), true) :=
      walkStep_of_disagree (h 0) hne (faults 0)
    unfold exitsWithin
    dsimp only
    rw [hstep]
    exact ih fun k => h (k + 1)

end

/-- Whatever the node answers and whichever reads fail, the rollback loop is left within `tip - startHeight + 2`
iterations (one if the tip is below the start), exactly when the store takes every undo the loop can be brought to. -/
theorem reorg_walk_terminates_iff (startHeight : ℤ) (s : LiveIndex) (faults : ℕ → Faults String) :
    (∀ moments : ℕ → WalkMoment, (∀ i, (moments i).faults = faults i) →
        exitsWithin startHeight (max 1 (s.tipHeight - startHeight + 2)).toNat moments s = true) ↔
      Writable startHeight faults s := by
  constructor
  · intro h
    by_contra hw
    simp only [Writable, not_forall] at hw
    obtain ⟨i, hbefore, hfail⟩ := hw
    have hspin := spins_of_disagreeing (fun k => (undoable_undone hbefore hfail k).1)
      (max 1 (s.tipHeight - startHeight + 2)).toNat
    rw [h (disagreeing faults s) fun i => rfl] at hspin
    cases hspin
  · intro hw moments hfaults
    obtain rfl : (fun i => (moments i).faults) = faults := funext hfaults
    exact exitsWithin_of_writable hw (by omega)

theorem undoBlock_of_begin_fails {s : LiveIndex} {faults : Faults String} {e : String} (hfault : faults 0 = some e)
    (height : ℤ) : ∃ e', s.undoBlock height faults = { s with storeErr := some e' } := by
  unfold LiveIndex.undoBlock LiveIndex.write transact beginTx
  cases herr : s.storeErr with
  | some e' => exact ⟨e', congrArg (fun err => { s with storeErr := err }) herr⟩
  | none =>
    refine ⟨e, ?_⟩
    simp only [hfault, error_bind]

/-- When the undo cannot even begin, the loop asks for the same block for ever. -/
theorem spins_of_begin_fails {startHeight : ℤ} {s : LiveIndex} {nodeHash : Text} {faults : Faults String} {e : String}
    (hs : Undoable startHeight s) (hne : s.index.hashAtHeight? s.tipHeight ≠ some nodeHash) (hfault : faults 0 = some e)
    (n : ℕ) : exitsWithin startHeight n (fun _ => ⟨some nodeHash, true, true, faults⟩) s = false := by
  induction n generalizing s with
  | zero => rfl
  | succ n ih =>
    obtain ⟨e', hstuck⟩ := undoBlock_of_begin_fails (s := s) hfault s.tipHeight
    unfold exitsWithin
    dsimp only
    rw [walkStep_of_disagree hs hne faults, hstuck]
    exact ih hs hne

/-- Two blocks are indexed, the node has another block at height 1, and no transaction can begin. -/
theorem reorg_walk_spins :
    let s := LiveIndex.runCalls (Crypto.recorded []) (Btcec.recorded []) (loadIndex ({}, ∅) 15000)
      [(.applyBlock sampleGenesis, noFaults), (.applyBlock sampleMintBlock, noFaults)]
    s.storeErr = none ∧ s.tipHeight = 1 ∧
      ∀ n, exitsWithin 0 n (fun _ => ⟨some (sampleTxid '3'), true, true, failAt 0⟩) s = false := by
  intro s
  have htip : s.storeErr = none ∧ s.tipHeight = 1 := by decide +kernel
  have hundoable : s.index.canUndo s.tipHeight = true := by decide +kernel
  have hhash : s.index.hashAtHeight? s.tipHeight ≠ some (sampleTxid '3') := by decide +kernel
  refine ⟨htip.1, htip.2, fun n => spins_of_begin_fails ⟨?_, hundoable⟩ hhash rfl n⟩
  rw [htip.2]
  decide

end Whippet.Indexer
