import Whippet.Indexer.Replay

/-! After any applications and rollbacks the index is the one that the surviving blocks alone would give, and
its lineage summaries are recomputations. -/
namespace Whippet.Indexer
open Lib Primitives Script

/-- The blocks that are applied and not rolled back. -/
def survive (chain : List RPCBlock) : Event → List RPCBlock
  | .applyBlock block => chain ++ [block]
  | .undoBlock _ => chain.dropLast
  | .reset => []
  | _ => chain

def survivors (events : List Event) : List RPCBlock := events.foldl survive []

/-- The block is the next one above the tip; the first block of an index may have any height. -/
def Index.Extends (s : Index) (block : RPCBlock) : Prop :=
  block.height = s.tipHeight + 1 ∨ (s.tipHeight < 0 ∧ 0 ≤ block.height)

variable (crypto : Crypto) (ec : Btcec) (reorgWindow : ℤ)

/-- Blocks extend the tip with fresh transactions that the store takes, and a rollback takes the tip, whose
log is there. Orders come and go as they like. -/
def ChainEvent (s : Index) : Event → Prop
  | .applyBlock block =>
    s.Extends block ∧ FreshTxids s.store.core block.tx ∧ (s.applyBlock crypto block).storeErr = none
  | .undoBlock height => height = s.tipHeight ∧ s.canUndo height = true
  | _ => True

/-- The lineages stay sound through the block. -/
def SoundEvent (s : Index) : Event → Prop
  | .applyBlock block => SoundBlock crypto block.height ⟨s.store, {}⟩ block.tx
  | _ => True

instance (s : Index) (block : RPCBlock) : Decidable (s.Extends block) := inferInstanceAs (Decidable (_ ∨ _))

instance (s : Index) : ∀ e, Decidable (ChainEvent crypto s e)
  | .applyBlock _ => inferInstanceAs (Decidable (_ ∧ _ ∧ _))
  | .undoBlock _ => inferInstanceAs (Decidable (_ ∧ _))
  | .reset | .publishOrder .. | .adoptMirroredOrder .. | .cancelOrder .. => inferInstanceAs (Decidable True)

instance (s : Index) : ∀ e, Decidable (SoundEvent crypto s e)
  | .applyBlock block => inferInstanceAs (Decidable (SoundBlock crypto block.height ⟨s.store, {}⟩ block.tx))
  | .undoBlock _ | .reset | .publishOrder .. | .adoptMirroredOrder .. | .cancelOrder .. =>
    inferInstanceAs (Decidable True)

def indexAfter (events : List Event) : Index := run (Index.step crypto ec) (newIndex reorgWindow) events

/-- The index that the blocks alone give. -/
def replay (chain : List RPCBlock) : Index := indexAfter crypto ec reorgWindow (chain.map .applyBlock)

/-- What holds of an index whose surviving chain is `chain`. -/
structure ChainInv (chain : List RPCBlock) (s : Index) : Prop where
  storeErr : s.storeErr = none
  rows : ∀ n, (replay crypto ec reorgWindow (chain.take n)).store.core.RowsOk
  tip : -1 ≤ s.tipHeight
  core : s.store.core = (replay crypto ec reorgWindow chain).store.core
  replayable : Admissible (Index.step crypto ec) (ChainEvent crypto) (newIndex reorgWindow) (chain.map .applyBlock)
  numbered : ∀ (i : ℕ) block, chain[i]? = some block →
    0 ≤ block.height ∧ block.height + chain.length = s.tipHeight + i + 1
  recorded : ∀ h, s.store.heights.lookup h ≠ none → ∃ block ∈ chain, block.height = h
  logs : ∀ (i : ℕ) block, chain[i]? = some block → ∀ row, s.store.heights.lookup block.height = some row →
    row.hash = block.hash ∧ ∀ ch, row.undo = some ch →
      Logged ch (replay crypto ec reorgWindow (chain.take i)).store.core
        (replay crypto ec reorgWindow (chain.take (i + 1))).store.core
  tipHash : ∀ block, chain.getLast? = some block → s.store.heights.lookup s.tipHeight ≠ none →
    s.tipHash = block.hash

variable {crypto ec reorgWindow} {chain : List RPCBlock} {s : Index} {block : RPCBlock}

theorem replay_append (chain : List RPCBlock) (block : RPCBlock) : replay crypto ec reorgWindow (chain ++ [block]) =
    (replay crypto ec reorgWindow chain).applyBlock crypto block := by
  rw [replay, indexAfter, List.map_append, run_append]
  rfl

theorem replayable_append : Admissible (Index.step crypto ec) (ChainEvent crypto) (newIndex reorgWindow)
      ((chain ++ [block]).map .applyBlock) ↔
    Admissible (Index.step crypto ec) (ChainEvent crypto) (newIndex reorgWindow) (chain.map .applyBlock) ∧
      ChainEvent crypto (replay crypto ec reorgWindow chain) (.applyBlock block) := by
  rw [List.map_append, admissible_append]
  exact and_congr_right fun _ => and_iff_left trivial

theorem replay_tip (h : ChainEvent crypto (replay crypto ec reorgWindow chain) (.applyBlock block)) :
    (replay crypto ec reorgWindow (chain ++ [block])).storeErr = none ∧
      (replay crypto ec reorgWindow (chain ++ [block])).tipHeight = block.height ∧
      (replay crypto ec reorgWindow (chain ++ [block])).tipHash = block.hash := by
  obtain ⟨t, heights, prunedBelow, herr, -, -, heq⟩ := applyBlock_ok h.2.2
  rw [replay_append, heq]
  exact ⟨herr, rfl, rfl⟩

theorem replay_storeErr
    (h : Admissible (Index.step crypto ec) (ChainEvent crypto) (newIndex reorgWindow) (chain.map .applyBlock)) :
    (replay crypto ec reorgWindow chain).storeErr = none := by
  rcases List.eq_nil_or_concat' chain with rfl | ⟨pre, block, rfl⟩
  · rfl
  · exact (replay_tip (replayable_append.mp h).2).1

theorem getElem?_concat {i : ℕ} {b : RPCBlock} (h : (chain ++ [block])[i]? = some b) :
    chain[i]? = some b ∨ (i = chain.length ∧ b = block) := by
  rw [List.getElem?_append] at h
  split_ifs at h with hlt
  · exact Or.inl h
  · obtain ⟨hzero, hb⟩ := List.getElem?_eq_some_iff.mp h
    refine Or.inr ⟨?_, ?_⟩
    · simp only [List.length_singleton] at hzero
      omega
    · simpa using hb.symm

theorem forall_take_concat {P : List RPCBlock → Prop} (h : ∀ n, P (chain.take n)) (hall : P (chain ++ [block])) (n : ℕ) :
    P ((chain ++ [block]).take n) := by
  by_cases hn : n ≤ chain.length
  · rw [List.take_append_of_le_length hn]
    exact h n
  · rwa [List.take_of_length_le (by simpa using Nat.lt_of_not_le hn)]

theorem ChainInv.rowsOk (h : ChainInv crypto ec reorgWindow chain s) : s.store.core.RowsOk := by
  rw [h.core, ← List.take_length (l := chain)]
  exact h.rows chain.length

theorem ChainInv.getLast (h : ChainInv crypto ec reorgWindow chain s) (hlast : chain.getLast? = some block) :
    block.height = s.tipHeight ∧ 0 ≤ block.height := by
  rw [List.getLast?_eq_getElem?] at hlast
  have hlen : chain.length ≠ 0 := by
    intro hzero
    simp [List.length_eq_zero_iff.mp hzero] at hlast
  obtain ⟨hnonneg, hheight⟩ := h.numbered _ _ hlast
  exact ⟨by omega, hnonneg⟩

theorem ChainInv.replay_extends (h : ChainInv crypto ec reorgWindow chain s) (hext : s.Extends block) :
    (replay crypto ec reorgWindow chain).Extends block := by
  have htip := h.tip
  rcases List.eq_nil_or_concat' chain with rfl | ⟨pre, last, rfl⟩
  · refine Or.inr ⟨show (-1 : ℤ) < 0 by decide, ?_⟩
    rcases hext with heq | ⟨-, hnonneg⟩
    · omega
    · exact hnonneg
  · obtain ⟨hlast, hnonneg⟩ := h.getLast List.getLast?_concat
    have hreplay := (replay_tip (replayable_append.mp h.replayable).2).2.1
    unfold Index.Extends at hext ⊢
    omega

theorem ChainInv.replay_event (h : ChainInv crypto ec reorgWindow chain s)
    (hev : ChainEvent crypto s (.applyBlock block)) :
    ChainEvent crypto (replay crypto ec reorgWindow chain) (.applyBlock block) := by
  obtain ⟨hext, hfresh, hok⟩ := hev
  refine ⟨h.replay_extends hext, h.core ▸ hfresh, ?_⟩
  exact (applyBlock_congr h.core (replay_storeErr h.replayable) hok).1

theorem ChainInv.applyBlock (h : ChainInv crypto ec reorgWindow chain s)
    (hev : ChainEvent crypto s (.applyBlock block)) :
    ChainInv crypto ec reorgWindow (chain ++ [block]) (s.applyBlock crypto block) := by
  obtain ⟨hext, hfresh, hok⟩ := hev
  have hcore : (s.applyBlock crypto block).store.core =
      (replay crypto ec reorgWindow (chain ++ [block])).store.core := by
    rw [replay_append]
    exact (applyBlock_congr h.core (replay_storeErr h.replayable) hok).2
  have hreplayable := replayable_append.mpr ⟨h.replayable, h.replay_event ⟨hext, hfresh, hok⟩⟩
  obtain ⟨t, heights, prunedBelow, herr, hrun, hrecorded, heq⟩ := applyBlock_ok hok
  have hblock : BlockInv s.store.core t := BlockInv.txs h.rowsOk rfl hfresh hrun
  -- no block of the chain shares the new block's height
  have hheight : ∀ (i : ℕ) b, chain[i]? = some b →
      0 ≤ block.height ∧ b.height + chain.length = block.height + i := by
    intro i b hi
    have hnum := h.numbered i b hi
    have hlen := (List.getElem?_eq_some_iff.mp hi).1
    unfold Index.Extends at hext
    omega
  have hnonneg : 0 ≤ block.height := by
    have htip := h.tip
    unfold Index.Extends at hext
    omega
  rw [heq] at hcore ⊢
  refine ⟨herr, forall_take_concat (P := fun c => (replay crypto ec reorgWindow c).store.core.RowsOk) h.rows
    (hcore ▸ hblock.rows), ?_, hcore, hreplayable, ?_, ?_, ?_, ?_⟩
  · change -1 ≤ block.height
    omega
  · intro i b hi
    simp only [List.length_append, List.length_singleton]
    rcases getElem?_concat hi with hold | ⟨rfl, rfl⟩
    · obtain ⟨-, hnum⟩ := hheight i b hold
      exact ⟨(h.numbered i b hold).1, by omega⟩
    · exact ⟨hnonneg, by omega⟩
  · intro k hk
    by_cases hkb : k = block.height
    · exact ⟨block, by simp, hkb.symm⟩
    · obtain ⟨row, hrow⟩ := Option.ne_none_iff_exists'.mp hk
      obtain ⟨b, hb, hbk⟩ := h.recorded k (by simp [hrecorded.other k row hkb hrow])
      exact ⟨b, by simp [hb], hbk⟩
  · intro i b hi row hrow
    rcases getElem?_concat hi with hold | ⟨rfl, rfl⟩
    · have hlen := (List.getElem?_eq_some_iff.mp hold).1
      have hne : b.height ≠ block.height := by
        have := hheight i b hold
        omega
      rw [List.take_append_of_le_length (by omega), List.take_append_of_le_length (by omega)]
      exact h.logs i b hold row (hrecorded.other _ row hne hrow)
    · obtain rfl := Option.some.inj (hrecorded.own.symm.trans hrow)
      refine ⟨rfl, ?_⟩
      intro ch hch
      obtain rfl := Option.some.inj hch
      rw [List.take_left, List.take_of_length_le (by simp), ← hcore, ← h.core]
      exact hblock.logged
  · intro b hb _
    rw [List.getLast?_concat] at hb
    obtain rfl := Option.some.inj hb
    rfl

theorem ChainInv.tipLog (h : ChainInv crypto ec reorgWindow chain s) (hundo : s.canUndo s.tipHeight = true) :
    ∃ pre last ch, chain = pre ++ [last] ∧ last.height = s.tipHeight ∧ s.store.undoLog? s.tipHeight = some ch ∧
      Logged ch (replay crypto ec reorgWindow pre).store.core s.store.core := by
  obtain ⟨ch, hlog⟩ := Option.isSome_iff_exists.mp hundo
  obtain ⟨row, hrow, hch⟩ := Option.bind_eq_some_iff.mp hlog
  obtain ⟨last, hmem, hlast⟩ := h.recorded s.tipHeight (by simp [hrow])
  obtain ⟨i, hi⟩ := List.getElem?_of_mem hmem
  have hend : i + 1 = chain.length := by
    have := (h.numbered i last hi).2
    omega
  have hlogged := (h.logs i last hi row (hlast ▸ hrow)).2 ch hch
  rw [hend, List.take_length, ← h.core] at hlogged
  refine ⟨chain.take i, last, ch, ?_, hlast, hlog, hlogged⟩
  conv_lhs => rw [← List.take_length (l := chain), ← hend, List.take_add_one, hi, Option.toList_some]

theorem ChainInv.undoBlock (h : ChainInv crypto ec reorgWindow chain s) (hundo : s.canUndo s.tipHeight = true) :
    ChainInv crypto ec reorgWindow chain.dropLast (s.undoBlock s.tipHeight) := by
  obtain ⟨pre, last, ch, rfl, hlast, hlog, hlogged⟩ := h.tipLog hundo
  have hlower : ∀ k row, (s.store.heights.erase s.tipHeight).lookup k = some row →
      k ≠ s.tipHeight ∧ s.store.heights.lookup k = some row := by
    intro k row hk
    rw [Table.lookup_erase_eq] at hk
    split_ifs at hk with hkt
    exact ⟨hkt, hk⟩
  have hkept : ∀ (j : ℕ) b, pre[j]? = some b → j < pre.length ∧ (pre ++ [last])[j]? = some b := by
    intro j b hj
    have hlt := (List.getElem?_eq_some_iff.mp hj).1
    exact ⟨hlt, (List.getElem?_append_left hlt).trans hj⟩
  have hnumbered : ∀ (j : ℕ) b, pre[j]? = some b → 0 ≤ b.height ∧ b.height + pre.length = s.tipHeight + j := by
    intro j b hj
    obtain ⟨hnonneg, hnum⟩ := h.numbered j b (hkept j b hj).2
    simp only [List.length_append, List.length_singleton] at hnum
    exact ⟨hnonneg, by omega⟩
  rw [undoBlock_tip h.storeErr hlog, List.dropLast_concat]
  refine ⟨h.storeErr, ?_, ?_, hlogged.undo h.rowsOk, (replayable_append.mp h.replayable).1, ?_, ?_, ?_, ?_⟩
  · intro n
    have hrows := h.rows (min n pre.length)
    rwa [List.take_append_of_le_length (min_le_right _ _), ← List.take_take, List.take_length] at hrows
  · have := (h.getLast List.getLast?_concat).2
    change -1 ≤ s.tipHeight - 1
    omega
  · intro j b hj
    obtain ⟨hnonneg, hnum⟩ := hnumbered j b hj
    refine ⟨hnonneg, ?_⟩
    change _ = s.tipHeight - 1 + j + 1
    omega
  · intro k hk
    obtain ⟨row, hrow⟩ := Option.ne_none_iff_exists'.mp hk
    obtain ⟨hkt, hrow⟩ := hlower k row hrow
    obtain ⟨b, hb, hbk⟩ := h.recorded k (by simp [hrow])
    rw [List.mem_append, List.mem_singleton] at hb
    rcases hb with hb | rfl
    · exact ⟨b, hb, hbk⟩
    · exact absurd (hbk.symm.trans hlast) hkt
  · intro j b hj row hrow
    obtain ⟨hlt, hb⟩ := hkept j b hj
    have hlogs := h.logs j b hb row (hlower _ row hrow).2
    rwa [List.take_append_of_le_length (by omega), List.take_append_of_le_length (by omega)] at hlogs
  · intro b hb hne
    obtain ⟨row, hrow⟩ := Option.ne_none_iff_exists'.mp hne
    obtain ⟨-, hrow⟩ := hlower _ row hrow
    rw [List.getLast?_eq_getElem?] at hb
    have hheight : s.tipHeight - 1 = b.height := by
      have hlt := (hkept _ b hb).1
      have hnum := (hnumbered _ b hb).2
      omega
    simp only [hrow, Option.map_some, Option.getD_some]
    exact (h.logs _ b (hkept _ b hb).2 row (hheight ▸ hrow)).1

/-- Two states of the index that differ in the order relay at most. -/
def Index.SameChain (s s' : Index) : Prop :=
  ∃ orders tombstones nonce, s' = { s with
    store := { s.store with orders := orders, tombstones := tombstones }, lastCancelNonce := nonce }

theorem sameChain_publishOrder (s : Index) (o : Order) (fromMirror : Bool) (clock : Clock) :
    s.SameChain (match s.publishOrder o fromMirror clock with
      | .ok (idx, _) => idx
      | .error _ => s) := by
  cases h : s.publishOrder o fromMirror clock with
  | error e => exact ⟨_, _, _, rfl⟩
  | ok r =>
    obtain ⟨pos, -, -, -, -, -, -, hstore⟩ := publishOrder_ok h
    dsimp only
    rw [hstore]
    cases fromMirror <;> exact ⟨_, _, _, rfl⟩

theorem sameChain_cancelOrder (s : Index) (txid : Text) (vout : UInt32) (sig : Text) (clock : Clock) :
    s.SameChain (match s.cancelOrder crypto ec txid vout sig clock with
      | .ok idx => idx
      | .error _ => s) := by
  cases h : s.cancelOrder crypto ec txid vout sig clock with
  | error e => exact ⟨_, _, _, rfl⟩
  | ok s' =>
    obtain ⟨o, -, -, -, hstore⟩ := cancelOrder_ok h
    dsimp only
    rw [hstore]
    exact ⟨_, _, _, rfl⟩

theorem ChainInv.sameChain {s' : Index} (h : ChainInv crypto ec reorgWindow chain s) (hsame : s.SameChain s') :
    ChainInv crypto ec reorgWindow chain s' := by
  obtain ⟨orders, tombstones, nonce, rfl⟩ := hsame
  exact ⟨h.storeErr, h.rows, h.tip, h.core, h.replayable, h.numbered, h.recorded, h.logs, h.tipHash⟩

theorem Core.RowsOk.empty : Core.RowsOk ⟨∅, ∅⟩ :=
  ⟨Table.Keyed.empty, Table.Keyed.empty, fun k pos h => by simp at h, fun k pos h => by simp at h⟩

theorem ChainInv.empty (herr : s.storeErr = none) (hstore : ∃ tombstones, s.store = { tombstones := tombstones })
    (htip : s.tipHeight = -1) : ChainInv crypto ec reorgWindow [] s := by
  obtain ⟨tombstones, hstore⟩ := hstore
  refine ⟨herr, ?_, by omega, by rw [hstore]; rfl, trivial, by simp, ?_, by simp, by simp⟩
  · intro n
    rw [List.take_nil]
    exact Core.RowsOk.empty
  · rw [hstore]
    simp

theorem ChainInv.step {e : Event} (h : ChainInv crypto ec reorgWindow chain s) (hev : ChainEvent crypto s e) :
    ChainInv crypto ec reorgWindow (survive chain e) (Index.step crypto ec s e) := by
  cases e with
  | applyBlock block => exact h.applyBlock hev
  | undoBlock height =>
    obtain ⟨rfl, hundo⟩ := hev
    exact h.undoBlock hundo
  | reset =>
    have hreset : s.reset = { s with store := s.store.truncate, tipHeight := -1, tipHash := [], prunedBelow := 0 } := by
      simp [Index.reset, h.storeErr]
    refine ChainInv.empty ?_ ⟨s.store.tombstones, ?_⟩ ?_ <;> simp only [Index.step, hreset]
    · exact h.storeErr
    · rfl
  | publishOrder o clock => exact h.sameChain (sameChain_publishOrder s o false clock)
  | adoptMirroredOrder o clock => exact h.sameChain (sameChain_publishOrder s o true clock)
  | cancelOrder txid vout sig clock => exact h.sameChain (sameChain_cancelOrder s txid vout sig clock)

theorem chainInv_run {events : List Event}
    (h : Admissible (Index.step crypto ec) (ChainEvent crypto) (newIndex reorgWindow) events) :
    ChainInv crypto ec reorgWindow (survivors events) (indexAfter crypto ec reorgWindow events) := by
  refine run_invariant (P := fun done s => ChainInv crypto ec reorgWindow (survivors done) s) ?_ ?_ h
  · exact ChainInv.empty rfl ⟨∅, rfl⟩ rfl
  · intro done s e hinv hev
    rw [survivors, List.foldl_append]
    exact hinv.step hev

end Whippet.Indexer
