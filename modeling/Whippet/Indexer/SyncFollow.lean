import Whippet.Indexer.SyncOnce

/-! When a call of `syncOnce` brings the index to the node's tip. -/
namespace Whippet.Indexer
open Lib Primitives Script

section
variable (crypto : Crypto) (startHeight : ℤ)

def Numbered (known : RPCBlock → Prop) (chain : List RPCBlock) : Prop :=
  (∀ b ∈ chain, known b) ∧ ∀ (i : ℕ) b, chain[i]? = some b → b.height = i

/-- The node may move to another chain at any moment, and any call or read may fail. -/
def Served (known : RPCBlock → Prop) (_ : SyncState) : SyncEvent → Prop
  | .reorganise chain => Numbered known chain
  | .tick _ => True

/-- What the records of heights tell about the tip, whichever blocks are indexed. -/
structure Recorded (idx : Index) : Prop where
  storeErr : idx.storeErr = none
  low : -1 ≤ idx.tipHeight
  kept : ∀ h, startHeight ≤ h → h ≤ idx.tipHeight → idx.prunedBelow ≤ h → idx.canUndo h = true
  tip : ∀ row, idx.store.heights.lookup idx.tipHeight = some row → idx.tipHash = row.hash

/-- What each step of `syncOnce` can rely on when the node moves as it likes. -/
def ServedPc (s : SyncState) : SyncPc → Prop
  | .idle _ | .walk _ => True
  | .compare _ tip _ => tip = s.idx.tipHeight ∧ startHeight ≤ tip
  | .fetch _ next => next = s.idx.nextHeight startHeight
  | .block _ next hash => next = s.idx.nextHeight startHeight ∧ ∃ b ∈ s.node.known, b.hash = hash ∧ b.height = next

structure ServedInv (known : RPCBlock → Prop) (s : SyncState) : Prop where
  idx : Recorded startHeight s.idx
  chain : Numbered known s.node.chain
  known : ∀ b ∈ s.node.known, known b
  has : ∀ b ∈ s.node.chain, b ∈ s.node.known
  pc : ServedPc startHeight s s.pc

end

section
variable {crypto : Crypto} {startHeight : ℤ} {idx : Index} {block : RPCBlock}

theorem canUndo_iff {h : ℤ} : idx.canUndo h = true ↔ ∃ row, idx.store.heights.lookup h = some row ∧ row.undo ≠ none := by
  unfold Index.canUndo Store.undoLog?
  cases idx.store.heights.lookup h with
  | none => simp
  | some row => simp [Option.isSome_iff_ne_none]

theorem Recorded.applyBlock (h : Recorded startHeight idx) (hheight : block.height = idx.nextHeight startHeight)
    (hstart : 0 ≤ startHeight) (hok : (idx.applyBlock crypto block).storeErr = none) :
    Recorded startHeight (idx.applyBlock crypto block) ∧ (idx.applyBlock crypto block).tipHeight = block.height ∧
      (idx.applyBlock crypto block).tipHash = block.hash := by
  have hlow := h.low
  obtain ⟨t, heights, prunedBelow, -, -, hrecorded, heq⟩ := applyBlock_ok hok
  have htip : (idx.applyBlock crypto block).tipHeight = block.height := by rw [heq]
  have hhash : (idx.applyBlock crypto block).tipHash = block.hash := by rw [heq]
  have hown : (idx.applyBlock crypto block).store.heights.lookup block.height = some ⟨block.hash, some t.change⟩ := by
    rw [heq]
    exact hrecorded.own
  refine ⟨⟨hok, ?_, ?_, ?_⟩, htip, hhash⟩
  · rw [htip, hheight]
    unfold Index.nextHeight
    split_ifs <;> omega
  · intro k hk hktip hpruned
    rw [htip] at hktip
    by_cases hkb : k = block.height
    · exact canUndo_iff.mpr ⟨_, hkb ▸ hown, by simp⟩
    · -- a lower height was kept before, and the window still keeps it
      have hkold : k ≤ idx.tipHeight := by
        unfold Index.nextHeight at hheight
        split_ifs at hheight <;> omega
      obtain ⟨row, ⟨hsame, hheights⟩ | ⟨-, hcutoff, hsame, hheights⟩⟩ := applyBlock_prune hok
      · obtain ⟨row', hrow, hundo⟩ := canUndo_iff.mp (h.kept k hk hkold (hsame ▸ hpruned))
        refine canUndo_iff.mpr ⟨row', ?_, hundo⟩
        rw [hheights, Table.lookup_insert_eq, if_neg hkb, hrow]
      · rw [hsame] at hpruned
        obtain ⟨row', hrow, hundo⟩ := canUndo_iff.mp (h.kept k hk hkold (by omega))
        refine canUndo_iff.mpr ⟨row', ?_, hundo⟩
        rw [hheights, Table.lookup_deleteWhere, if_neg (by omega), Table.lookup_insert_eq, if_neg hkb, hrow]
  · intro row hrow
    rw [htip, hown] at hrow
    rw [hhash, ← Option.some.inj hrow]

theorem Recorded.undoBlock (h : Recorded startHeight idx) (hstart : 0 ≤ startHeight) (htip : startHeight ≤ idx.tipHeight)
    (hcan : idx.canUndo idx.tipHeight = true) :
    Recorded startHeight (idx.undoBlock idx.tipHeight) ∧ (idx.undoBlock idx.tipHeight).tipHeight = idx.tipHeight - 1 := by
  obtain ⟨ch, hlog⟩ := Option.isSome_iff_exists.mp hcan
  have hlow := h.low
  rw [undoBlock_tip h.storeErr hlog]
  refine ⟨⟨h.storeErr, ?_, ?_, ?_⟩, rfl⟩
  · change -1 ≤ idx.tipHeight - 1
    omega
  · intro k hk hktip hpruned
    change k ≤ idx.tipHeight - 1 at hktip
    obtain ⟨row, hrow, hundo⟩ := canUndo_iff.mp (h.kept k hk (by omega) hpruned)
    refine canUndo_iff.mpr ⟨row, ?_, hundo⟩
    change (idx.store.heights.erase idx.tipHeight).lookup k = some row
    rw [Table.lookup_erase_eq, if_neg (by omega), hrow]
  · intro row hrow
    change (idx.store.heights.erase idx.tipHeight).lookup (idx.tipHeight - 1) = some row at hrow
    rw [Table.lookup_erase_eq, if_neg (by omega)] at hrow
    change ((idx.store.heights.lookup (idx.tipHeight - 1)).map HeightRow.hash).getD [] = row.hash
    rw [hrow]
    rfl

theorem Recorded.reset (h : Recorded startHeight idx) (hstart : 0 ≤ startHeight) : Recorded startHeight idx.reset := by
  have hreset : idx.reset = { idx with store := idx.store.truncate, tipHeight := -1, tipHash := [], prunedBelow := 0 } := by
    simp [Index.reset, h.storeErr]
  rw [hreset]
  refine ⟨h.storeErr, le_refl _, ?_, ?_⟩
  · intro k hk hktip
    change k ≤ -1 at hktip
    omega
  · intro row hrow
    change (∅ : Table ℤ HeightRow).lookup (-1) = some row at hrow
    simp at hrow

end

section
variable {crypto : Crypto} {startHeight : ℤ} {known : RPCBlock → Prop} {s : SyncState}

theorem recorded_newIndex (hstart : 0 ≤ startHeight) (reorgWindow : ℤ) : Recorded startHeight (newIndex reorgWindow) := by
  refine ⟨rfl, le_refl _, ?_, ?_⟩
  · intro k hk hktip
    change k ≤ -1 at hktip
    omega
  · intro row hrow
    change (∅ : Table ℤ HeightRow).lookup (-1) = some row at hrow
    simp at hrow

theorem ServedInv.walk (h : ServedInv startHeight known s) (m : Moment) (nodeHeight : ℤ) :
    ServedInv startHeight known (syncWalk startHeight m nodeHeight s) := by
  unfold syncWalk
  by_cases htip : s.idx.tipHeight < startHeight
  · rw [if_pos htip]
    exact ⟨h.idx, h.chain, h.known, h.has, rfl⟩
  · rw [if_neg htip]
    split
    · exact ⟨h.idx, h.chain, h.known, h.has, trivial⟩
    · exact ⟨h.idx, h.chain, h.known, h.has, rfl, by omega⟩

variable {nodeHeight : ℤ}

theorem ServedInv.compare (h : ServedInv startHeight known s) (hstart : 0 ≤ startHeight) (m : Moment) {tip : ℤ}
    {nodeHash : Text} (htip : tip = s.idx.tipHeight) (habove : startHeight ≤ tip) :
    ServedInv startHeight known (syncCompare startHeight m nodeHeight tip nodeHash s) := by
  subst htip
  unfold syncCompare
  dsimp only
  generalize (if m.hashReadOk then s.idx.hashAtHeight? s.idx.tipHeight else none) = ourHash
  split_ifs with hagree habsent hundo
  · exact ⟨h.idx, h.chain, h.known, h.has, rfl⟩
  · exact ⟨h.idx, h.chain, h.known, h.has, rfl⟩
  · exact ⟨h.idx.reset hstart, h.chain, h.known, h.has, rfl⟩
  · have hcan : s.idx.canUndo s.idx.tipHeight = true := by
      simp only [Bool.and_eq_false_iff, not_or, Bool.not_eq_false] at hundo
      exact hundo.2
    exact ⟨(h.idx.undoBlock hstart habove hcan).1, h.chain, h.known, h.has, trivial⟩

variable {node : Node} {hash : Text}

theorem Node.getBlockHash?_eq_some {height : ℤ} (h : node.getBlockHash? height = some hash) :
    ∃ b, node.chain[height.toNat]? = some b ∧ 0 ≤ height ∧ b.hash = hash := by
  unfold Node.getBlockHash? at h
  split_ifs at h with hneg
  obtain ⟨b, hb, hhash⟩ := Option.map_eq_some_iff.mp h
  exact ⟨b, hb, by omega, hhash⟩

variable {next : ℤ}

theorem ServedInv.fetch (h : ServedInv startHeight known s) (m : Moment)
    (hnext : next = s.idx.nextHeight startHeight) :
    ServedInv startHeight known (syncFetch m nodeHeight next s) := by
  unfold syncFetch
  by_cases hdone : nodeHeight < next
  · rw [if_pos hdone]
    exact ⟨h.idx, h.chain, h.known, h.has, trivial⟩
  · rw [if_neg hdone]
    split
    · exact ⟨h.idx, h.chain, h.known, h.has, trivial⟩
    · next hash hrpc =>
      have hhash : s.node.getBlockHash? next = some hash := by
        split_ifs at hrpc
        exact hrpc
      obtain ⟨b, hb, hpos, rfl⟩ := Node.getBlockHash?_eq_some hhash
      have hheight := h.chain.2 _ b hb
      refine ⟨h.idx, h.chain, h.known, h.has, hnext, b, h.has b (List.mem_of_getElem? hb), rfl, by omega⟩

theorem ServedInv.served (hknown : ConsistentHashes known) (h : ServedInv startHeight known s)
    (hnamed : ∃ b ∈ s.node.known, b.hash = hash ∧ b.height = next) {block : RPCBlock}
    (hserved : s.node.getBlockVerbose? hash = some block) : known block ∧ block.height = next ∧ block.hash = hash := by
  obtain ⟨b, hb, hhash, hheight⟩ := hnamed
  have hmem := List.mem_of_find?_eq_some hserved
  have hblock : block.hash = hash := by simpa using List.find?_some hserved
  have heq := hknown block b (h.known block hmem) (h.known b hb) (hblock.trans hhash.symm)
  exact ⟨h.known block hmem, by rw [heq, hheight], hblock⟩

theorem exists_foldlM_ok {σ α ε : Type} {f : σ → α → Except ε σ} {l : List α} (h : ∀ a ∈ l, ∀ s, ∃ s', f s a = .ok s')
    (s : σ) : ∃ s', l.foldlM f s = .ok s' := by
  induction l generalizing s with
  | nil => exact ⟨s, rfl⟩
  | cons a l ih =>
    rw [List.forall_mem_cons] at h
    obtain ⟨s', hs'⟩ := h.1 s
    obtain ⟨t, ht⟩ := ih h.2 s'
    exact ⟨t, by rw [List.foldlM_cons, hs', Whippet.Lib.ok_bind, ht]⟩

/-- The store takes every block that can be served. -/
def Applies (crypto : Crypto) (known : RPCBlock → Prop) : Prop :=
  ∀ b, known b → ∀ t, ∃ t', applyTxs crypto b.height t b.tx = .ok t'

/-- The only thing the store refuses is a transaction id that is not 32 bytes in hex. -/
theorem applies_of_txids (h : ∀ b, known b → ∀ tx ∈ b.tx, (hexDecode? tx.txid).map List.length = some 32) :
    Applies crypto known := by
  intro b hb t
  refine exists_foldlM_ok ?_ t
  intro tx htx t
  refine exists_foldlM_ok ?_ _
  intro vout _ t
  unfold applyVout
  cases covenantOf? vout with
  | none => cases parseP2PKHScript? vout.scriptPubKey <;> exact ⟨_, rfl⟩
  | some parsed =>
    obtain ⟨origin, horigin⟩ : ∃ origin, originOf crypto tx vout parsed = .ok origin := by
      obtain ⟨raw, hraw, hlength⟩ := Option.map_eq_some_iff.mp (h b hb tx htx)
      unfold originOf uapOriginFromOutpoint
      simp only [hraw, hlength, ne_eq, not_true_eq_false, if_false]
      split_ifs <;> exact ⟨_, rfl⟩
    simp only [positionOf, horigin]
    exact ⟨_, rfl⟩

theorem storeErr_applyBlock {idx : Index} {block : RPCBlock} (happlies : Applies crypto known) (hb : known block)
    (herr : idx.storeErr = none) : (idx.applyBlock crypto block).storeErr = none := by
  obtain ⟨t, ht⟩ := happlies block hb ⟨idx.store, {}⟩
  unfold Index.applyBlock Index.write Store.applyBlock
  simp only [herr, ht, ok_bind]
  split_ifs <;> rfl

theorem ServedInv.apply (hknown : ConsistentHashes known) (happlies : Applies crypto known) (hstart : 0 ≤ startHeight)
    (h : ServedInv startHeight known s) (m : Moment)
    (hnext : next = s.idx.nextHeight startHeight) (hnamed : ∃ b ∈ s.node.known, b.hash = hash ∧ b.height = next) :
    ServedInv startHeight known (syncBlock crypto m nodeHeight next hash s) := by
  unfold syncBlock
  split
  · exact ⟨h.idx, h.chain, h.known, h.has, trivial⟩
  · next block hrpc =>
    have hserved : s.node.getBlockVerbose? hash = some block := by
      split_ifs at hrpc
      exact hrpc
    obtain ⟨hb, hheight, -⟩ := h.served hknown hnamed hserved
    have hok := storeErr_applyBlock happlies hb h.idx.storeErr
    obtain ⟨hidx, htip, -⟩ := h.idx.applyBlock (hheight.trans hnext) hstart hok
    simp only [hok, if_true]
    refine ⟨hidx, h.chain, h.known, h.has, ?_⟩
    change next + 1 = (s.idx.applyBlock crypto block).nextHeight startHeight
    have hpos : 0 ≤ next := by
      have hlow := h.idx.low
      rw [hnext]
      unfold Index.nextHeight
      split_ifs <;> omega
    unfold Index.nextHeight
    rw [htip, hheight, if_neg (by omega)]

theorem ServedInv.step (hknown : ConsistentHashes known) (happlies : Applies crypto known) (hstart : 0 ≤ startHeight)
    (h : ServedInv startHeight known s) {e : SyncEvent} (hev : Served known s e) :
    ServedInv startHeight known (syncStep crypto startHeight s e) := by
  have hpcOk := h.pc
  cases e with
  | reorganise chain =>
    refine ⟨h.idx, hev, ?_, fun b hb => List.mem_append_left _ hb, ?_⟩
    · intro b hb
      rcases List.mem_append.mp hb with hb | hb
      · exact hev.1 b hb
      · exact h.known b hb
    · change ServedPc startHeight _ s.pc
      cases hpc : s.pc with
      | block nodeHeight next hash =>
        rw [hpc] at hpcOk
        obtain ⟨hnext, b, hb, hnamed⟩ := hpcOk
        exact ⟨hnext, b, List.mem_append_right _ hb, hnamed⟩
      | idle ok => trivial
      | walk nodeHeight => trivial
      | compare nodeHeight tip nodeHash =>
        rw [hpc] at hpcOk
        exact hpcOk
      | fetch nodeHeight next =>
        rw [hpc] at hpcOk
        exact hpcOk
  | tick m =>
    unfold syncStep syncTick
    cases hpc : s.pc with
    | idle ok =>
      dsimp only
      split_ifs
      · exact ⟨h.idx, h.chain, h.known, h.has, trivial⟩
      · exact ⟨h.idx, h.chain, h.known, h.has, trivial⟩
    | walk nodeHeight => exact h.walk m nodeHeight
    | compare nodeHeight tip nodeHash =>
      rw [hpc] at hpcOk
      exact h.compare hstart m hpcOk.1 hpcOk.2
    | fetch nodeHeight next =>
      rw [hpc] at hpcOk
      exact h.fetch m hpcOk
    | block nodeHeight next hash =>
      rw [hpc] at hpcOk
      exact h.apply hknown happlies hstart m hpcOk.1 hpcOk.2

theorem servedInv_run (hknown : ConsistentHashes known) (happlies : Applies crypto known) (hstart : 0 ≤ startHeight)
    {reorgWindow : ℤ} {events : List SyncEvent}
    (h : Admissible (syncStep crypto startHeight) (Served known) { idx := newIndex reorgWindow } events) :
    ServedInv startHeight known (run (syncStep crypto startHeight) { idx := newIndex reorgWindow } events) := by
  refine run_invariant (P := fun _ s => ServedInv startHeight known s) ?_ ?_ h
  · exact ⟨recorded_newIndex hstart reorgWindow, ⟨by simp, by simp⟩, by simp, by simp, trivial⟩
  · intro _ s e hinv hev
    exact hinv.step hknown happlies hstart hev

structure AtTip (node : Node) (idx : Index) : Prop where
  height : idx.tipHeight = node.getBlockCount
  hash : node.getBlockHash? node.getBlockCount = some idx.tipHash

/-- `syncOnce` returns without error, with the node's tip. -/
def CatchesUp (crypto : Crypto) (startHeight : ℤ) (s : SyncState) : Prop :=
  ∃ fuel t, syncOnce? crypto startHeight fuel s = some t ∧ t.pc = .idle true ∧ AtTip s.node t.idx

theorem CatchesUp.of_tick (hpc : ∀ ok, (syncTick crypto startHeight s {}).pc ≠ .idle ok)
    (h : CatchesUp crypto startHeight (syncTick crypto startHeight s {})) : CatchesUp crypto startHeight s := by
  obtain ⟨fuel, t, hrun, hret, htip⟩ := h
  refine ⟨fuel + 1, t, ?_, hret, syncTick_node crypto startHeight s {} ▸ htip⟩
  unfold syncOnce?
  dsimp only
  split
  · next ok hidle => exact absurd hidle (hpc ok)
  · exact hrun

theorem Node.getBlockHash?_of_le {height : ℤ} (hpos : 0 ≤ height) (hle : height ≤ node.getBlockCount) :
    ∃ b ∈ node.chain, node.getBlockHash? height = some b.hash ∧ node.chain[height.toNat]? = some b := by
  unfold Node.getBlockCount at hle
  have hget : node.chain[height.toNat]? = some (node.chain.get ⟨height.toNat, by omega⟩) :=
    List.getElem?_eq_getElem (by omega)
  refine ⟨_, List.mem_of_getElem? hget, ?_, hget⟩
  unfold Node.getBlockHash?
  rw [if_neg (by omega), hget]
  rfl

theorem Node.getBlockVerbose?_of_mem {b : RPCBlock} (hb : b ∈ node.known) :
    ∃ block, node.getBlockVerbose? b.hash = some block := by
  apply Option.isSome_iff_exists.mp
  unfold Node.getBlockVerbose?
  rw [List.find?_isSome]
  exact ⟨b, hb, by simp⟩

theorem ServedInv.applies (hknown : ConsistentHashes known) (happlies : Applies crypto known) (hstart : 0 ≤ startHeight)
    (h : ServedInv startHeight known s) (hpc : s.pc = .fetch s.node.getBlockCount next)
    (hle : next ≤ s.node.getBlockCount)
    (hrest : ∀ s', ServedInv startHeight known s' → s'.node = s.node →
      s'.pc = .fetch s.node.getBlockCount (next + 1) → s'.idx.tipHeight = next →
      s.node.getBlockHash? next = some s'.idx.tipHash → CatchesUp crypto startHeight s') :
    CatchesUp crypto startHeight s := by
  have hnext : next = s.idx.nextHeight startHeight := by
    have hpcOk := h.pc
    rw [hpc] at hpcOk
    exact hpcOk
  have hpos : 0 ≤ next := by
    have hlow := h.idx.low
    rw [hnext]
    unfold Index.nextHeight
    split_ifs <;> omega
  obtain ⟨b, hb, hhash, hget⟩ := Node.getBlockHash?_of_le hpos hle
  have hnamed : syncTick crypto startHeight s {} = { s with pc := .block s.node.getBlockCount next b.hash } := by
    simp only [syncTick, hpc, syncFetch, if_neg (not_lt.mpr hle), if_true, hhash]
  have hinv : ServedInv startHeight known (syncTick crypto startHeight s {}) :=
    h.step hknown happlies hstart (e := .tick {}) trivial
  refine CatchesUp.of_tick (by simp [hnamed]) ?_
  rw [hnamed] at hinv ⊢
  obtain ⟨block, hserved⟩ := Node.getBlockVerbose?_of_mem (h.has b hb)
  have hheight := h.chain.2 _ b hget
  obtain ⟨hblock, hblockHeight, hblockHash⟩ :=
    h.served hknown ⟨b, h.has b hb, rfl, show b.height = next by omega⟩ hserved
  have hok := storeErr_applyBlock happlies hblock h.idx.storeErr
  obtain ⟨-, htip, htipHash⟩ := h.idx.applyBlock (hblockHeight.trans hnext) hstart hok
  have happlied : syncTick crypto startHeight { s with pc := .block s.node.getBlockCount next b.hash } {} =
      { s with idx := s.idx.applyBlock crypto block, pc := .fetch s.node.getBlockCount (next + 1) } := by
    simp only [syncTick, syncBlock, if_true, hserved, hok]
  have hinv' : ServedInv startHeight known
      (syncTick crypto startHeight { s with pc := .block s.node.getBlockCount next b.hash } {}) :=
    hinv.step hknown happlies hstart (e := .tick {}) trivial
  refine CatchesUp.of_tick (by simp [happlied]) ?_
  rw [happlied] at hinv' ⊢
  refine hrest _ hinv' rfl rfl (htip.trans hblockHeight) ?_
  rw [hhash]
  exact congrArg some (htipHash.trans hblockHash).symm

theorem ServedInv.fetches (hknown : ConsistentHashes known) (happlies : Applies crypto known) (hstart : 0 ≤ startHeight)
    (h : ServedInv startHeight known s) (hpc : s.pc = .fetch s.node.getBlockCount next)
    (hdone : s.node.getBlockCount < next → AtTip s.node s.idx) : CatchesUp crypto startHeight s := by
  -- by induction on the number of blocks that are still to be applied
  induction hn : (s.node.getBlockCount + 1 - next).toNat generalizing s next with
  | zero =>
    have hlt : s.node.getBlockCount < next := by omega
    have hreturns : syncTick crypto startHeight s {} = { s with pc := .idle true } := by
      simp only [syncTick, hpc, syncFetch, if_pos hlt]
    refine ⟨1, { s with pc := .idle true }, ?_, rfl, hdone hlt⟩
    unfold syncOnce?
    rw [hreturns]
  | succ n ih =>
    refine h.applies hknown happlies hstart hpc (by omega) ?_
    intro s' hinv hnode hpc' htip hhash
    rw [← hnode] at hpc' hhash
    refine ih hinv hpc' ?_ (by rw [hnode]; omega)
    intro hlt
    have hlast : next = s'.node.getBlockCount := by
      rw [hnode] at hlt ⊢
      omega
    exact ⟨htip.trans hlast, hlast ▸ hhash⟩

theorem Recorded.not_absent {idx : Index} (h : Recorded startHeight idx) (habove : startHeight ≤ idx.tipHeight)
    (hpruned : idx.isPruned idx.tipHeight = false) : idx.hashAtHeight? idx.tipHeight ≠ none := by
  simp only [Index.isPruned, decide_eq_false_iff_not, not_lt] at hpruned
  obtain ⟨row, hrow, -⟩ := canUndo_iff.mp (h.kept _ habove (le_refl _) hpruned)
  simp [Index.hashAtHeight?, hrow]

/-- What the body of the rollback loop does when every read succeeds: it agrees with the node, starts over, or
takes the tip back. -/
theorem ServedInv.compare_cases (h : ServedInv startHeight known s) (habove : startHeight ≤ s.idx.tipHeight)
    (nodeHeight : ℤ) (nodeHash : Text) :
    (s.idx.tipHash = nodeHash ∧ syncCompare startHeight {} nodeHeight s.idx.tipHeight nodeHash s =
        { s with pc := .fetch nodeHeight (s.idx.nextHeight startHeight) }) ∨
      syncCompare startHeight {} nodeHeight s.idx.tipHeight nodeHash s =
        { s with idx := s.idx.reset, pc := .fetch nodeHeight (s.idx.reset.nextHeight startHeight) } ∨
      (s.idx.canUndo s.idx.tipHeight = true ∧ syncCompare startHeight {} nodeHeight s.idx.tipHeight nodeHash s =
        { s with idx := s.idx.undoBlock s.idx.tipHeight, pc := .walk nodeHeight }) := by
  unfold syncCompare
  simp only [if_true, Bool.true_and]
  by_cases hagree : s.idx.hashAtHeight? s.idx.tipHeight = some nodeHash
  · left
    obtain ⟨row, hrow, hhash⟩ := Option.map_eq_some_iff.mp hagree
    exact ⟨(h.idx.tip row hrow).trans hhash, if_pos hagree⟩
  · have hthere : ¬(s.idx.hashAtHeight? s.idx.tipHeight = none ∧ s.idx.isPruned s.idx.tipHeight = false) :=
      fun hne => h.idx.not_absent habove hne.2 hne.1
    rw [if_neg hagree, if_neg hthere]
    cases hcan : s.idx.canUndo s.idx.tipHeight with
    | false => exact Or.inr (Or.inl (if_pos rfl))
    | true => exact Or.inr (Or.inr ⟨rfl, if_neg (by simp)⟩)

/-- The rollback loop is left at the fork point, at the start height or with an empty index, and the second loop
goes on from there. -/
theorem ServedInv.walks (hknown : ConsistentHashes known) (happlies : Applies crypto known) (hstart : 0 ≤ startHeight)
    (h : ServedInv startHeight known s) (hpc : s.pc = .walk s.node.getBlockCount)
    (hnode : startHeight ≤ s.node.getBlockCount) (htip : s.idx.tipHeight ≤ s.node.getBlockCount) :
    CatchesUp crypto startHeight s := by
  -- by induction on the number of heights that can be taken back
  induction hn : (s.idx.tipHeight + 1 - startHeight).toNat generalizing s with
  | zero =>
    have hlt : s.idx.tipHeight < startHeight := by omega
    have hleft : syncTick crypto startHeight s {} =
        { s with pc := .fetch s.node.getBlockCount (s.idx.nextHeight startHeight) } := by
      simp only [syncTick, hpc, syncWalk, if_pos hlt]
    have hinv := h.step hknown happlies hstart (e := .tick {}) trivial
    refine CatchesUp.of_tick (by simp [hleft]) ?_
    rw [syncStep, hleft] at hinv
    rw [hleft]
    refine hinv.fetches hknown happlies hstart rfl ?_
    intro hdone
    change s.node.getBlockCount < s.idx.nextHeight startHeight at hdone
    unfold Index.nextHeight at hdone
    split_ifs at hdone <;> omega
  | succ n ih =>
    have habove : startHeight ≤ s.idx.tipHeight := by omega
    obtain ⟨b, -, hhash, -⟩ := Node.getBlockHash?_of_le (hstart.trans habove) htip
    have hasked : syncTick crypto startHeight s {} =
        { s with pc := .compare s.node.getBlockCount s.idx.tipHeight b.hash } := by
      simp only [syncTick, hpc, syncWalk, if_neg (not_lt.mpr habove), if_true, hhash]
    have hinv := h.step hknown happlies hstart (e := .tick {}) trivial
    refine CatchesUp.of_tick (by simp [hasked]) ?_
    rw [syncStep, hasked] at hinv
    rw [hasked]
    have hinv' := hinv.step hknown happlies hstart (e := .tick {}) trivial
    rw [syncStep] at hinv'
    rcases hinv.compare_cases habove s.node.getBlockCount b.hash with ⟨hagree, heq⟩ | heq | ⟨hcan, heq⟩
    · refine CatchesUp.of_tick (by simp [syncTick, heq]) ?_
      simp only [syncTick, heq] at hinv' ⊢
      refine hinv'.fetches hknown happlies hstart rfl ?_
      intro hdone
      change s.node.getBlockCount < s.idx.nextHeight startHeight at hdone
      have hlast : s.idx.tipHeight = s.node.getBlockCount := by
        unfold Index.nextHeight at hdone
        split_ifs at hdone <;> omega
      exact ⟨hlast, by rw [← hlast, hhash]; exact congrArg some hagree.symm⟩
    · refine CatchesUp.of_tick (by simp [syncTick, heq]) ?_
      simp only [syncTick, heq] at hinv' ⊢
      refine hinv'.fetches hknown happlies hstart rfl ?_
      intro hdone
      have hempty : s.idx.reset.tipHeight = -1 := by simp [Index.reset, h.idx.storeErr]
      change s.node.getBlockCount < s.idx.reset.nextHeight startHeight at hdone
      unfold Index.nextHeight at hdone
      split_ifs at hdone <;> omega
    · have hlower := (h.idx.undoBlock hstart habove hcan).2
      refine CatchesUp.of_tick (by simp [syncTick, heq]) ?_
      simp only [syncTick, heq] at hinv' ⊢
      refine ih hinv' rfl hnode ?_ ?_
      · change (s.idx.undoBlock s.idx.tipHeight).tipHeight ≤ s.node.getBlockCount
        omega
      · change ((s.idx.undoBlock s.idx.tipHeight).tipHeight + 1 - startHeight).toNat = n
        omega

theorem not_catchesUp_of_above (hidle : ∃ ok, s.pc = .idle ok) (habove : s.node.getBlockCount < s.idx.tipHeight)
    (hnode : startHeight ≤ s.node.getBlockCount) (hstart : 0 ≤ startHeight) : ¬ CatchesUp crypto startHeight s := by
  have hpos : 0 ≤ s.idx.tipHeight := hstart.trans (hnode.trans habove.le)
  have hnone : s.node.getBlockHash? s.idx.tipHeight = none := by
    unfold Node.getBlockHash?
    unfold Node.getBlockCount at habove
    rw [if_neg (by omega), List.getElem?_eq_none (by omega)]
    rfl
  have hfails : syncTick crypto startHeight { s with pc := .walk s.node.getBlockCount } {} = { s with pc := .idle false } := by
    simp only [syncTick, syncWalk, if_neg (show ¬ s.idx.tipHeight < startHeight by omega), if_true, hnone]
  rintro ⟨fuel, t, hrun, hret, -⟩
  rw [returns_error_of_walk hidle hfails hrun] at hret
  simp at hret

end

/-- After any earlier syncs, against a node that moved as it liked, one more call of `syncOnce` returns without
error and with the node's tip exactly if the indexed tip is not above it (and the start height is a height). -/
theorem syncOnce_follows_node_iff (crypto : Crypto) (startHeight reorgWindow : ℤ) (known : RPCBlock → Prop)
    (hknown : ConsistentHashes known) (happlies : Applies crypto known) (events : List SyncEvent)
    (h : Admissible (syncStep crypto startHeight) (Served known) { idx := newIndex reorgWindow } events)
    (hidle : ∃ ok, (run (syncStep crypto startHeight) { idx := newIndex reorgWindow } events).pc = .idle ok)
    (chain : List RPCBlock) (hchain : Numbered known chain) (hstart : startHeight < chain.length) :
    let s := syncStep crypto startHeight (run (syncStep crypto startHeight) { idx := newIndex reorgWindow } events)
      (.reorganise chain)
    CatchesUp crypto startHeight s ↔ 0 ≤ startHeight ∧ s.idx.tipHeight ≤ s.node.getBlockCount := by
  intro s
  have hnode : startHeight ≤ s.node.getBlockCount := by
    change startHeight ≤ (chain.length : ℤ) - 1
    omega
  have hidle : ∃ ok, s.pc = .idle ok := hidle
  rcases lt_or_ge startHeight 0 with hneg | hpos
  · have hnever : NeverStarts s := (neverStarts_run hneg reorgWindow events).step hneg _
    refine iff_of_false ?_ (by omega)
    rintro ⟨fuel, t, hrun, hret, -⟩
    rw [hnever.returns_error hneg hidle hrun] at hret
    simp at hret
  · constructor
    · intro hup
      refine ⟨hpos, ?_⟩
      by_contra habove
      exact not_catchesUp_of_above hidle (not_le.mp habove) hnode hpos hup
    · rintro ⟨-, htip⟩
      have hinv : ServedInv startHeight known s := (servedInv_run hknown happlies hpos h).step hknown happlies hpos hchain
      have hbegins : syncTick crypto startHeight s {} = _ := syncTick_idle hidle
      refine CatchesUp.of_tick (by simp [hbegins]) ?_
      rw [hbegins]
      exact ServedInv.walks hknown happlies hpos ⟨hinv.idx, hinv.chain, hinv.known, hinv.has, trivial⟩ rfl hnode htip

theorem Numbered.take {known : RPCBlock → Prop} {chain : List RPCBlock} (h : Numbered known chain) (n : ℕ) :
    Numbered known (chain.take n) := by
  refine ⟨fun b hb => h.1 b (List.mem_of_mem_take hb), ?_⟩
  intro i b hb
  rw [List.getElem?_take] at hb
  split_ifs at hb
  exact h.2 i b hb

theorem sampleLonger_consistent : ConsistentHashes (· ∈ sampleLonger) := by
  have hnodup : (sampleLonger.map RPCBlock.hash).Nodup := by decide +kernel
  exact fun b b' hb hb' => List.inj_on_of_nodup_map hnodup hb hb'

theorem sampleLonger_numbered : Numbered (· ∈ sampleLonger) sampleLonger := by
  refine ⟨fun b hb => hb, ?_⟩
  rintro (- | - | - | i) b hb
  all_goals simp [sampleLonger] at hb
  all_goals rw [← hb]; rfl

theorem sampleLonger_applies : Applies (Crypto.recorded []) (· ∈ sampleLonger) :=
  applies_of_txids (by decide +kernel)

theorem sampleSync_served : Admissible (syncStep (Crypto.recorded []) 0) (Served (· ∈ sampleLonger))
    { idx := newIndex 15000 } (sampleSync ++ [.tick {}]) :=
  ⟨sampleLonger_numbered.take 2, trivial, trivial, trivial, trivial, trivial, trivial, trivial, trivial⟩

/-- One more block is followed. -/
theorem syncOnce_follows_longer :
    let s := syncStep (Crypto.recorded []) 0
      (run (syncStep (Crypto.recorded []) 0) { idx := newIndex 15000 } (sampleSync ++ [.tick {}])) (.reorganise sampleLonger)
    s.idx.tipHeight = 1 ∧ s.node.getBlockCount = 2 ∧ CatchesUp (Crypto.recorded []) 0 s := by
  have hidle : ∃ ok, (run (syncStep (Crypto.recorded []) 0) { idx := newIndex 15000 } (sampleSync ++ [.tick {}])).pc =
      .idle ok := ⟨true, by decide +kernel⟩
  have htip : (run (syncStep (Crypto.recorded []) 0) { idx := newIndex 15000 } (sampleSync ++ [.tick {}])).idx.tipHeight =
      1 := by decide +kernel
  have hiff := syncOnce_follows_node_iff (Crypto.recorded []) 0 15000 (· ∈ sampleLonger) sampleLonger_consistent
    sampleLonger_applies (sampleSync ++ [.tick {}]) sampleSync_served
  replace hiff := hiff hidle sampleLonger sampleLonger_numbered (by decide)
  generalize run (syncStep (Crypto.recorded []) 0) { idx := newIndex 15000 } (sampleSync ++ [.tick {}]) = s at htip hiff ⊢
  refine ⟨htip, rfl, hiff.mpr ⟨le_refl 0, ?_⟩⟩
  exact htip.trans_le (show (1 : ℤ) ≤ 2 by decide)

/-- The node gives up the block with the mint. The index asks for the node's hash at height 1, gets an error and
returns it, with the tip where it was. -/
theorem syncOnce_stuck_above_node :
    let s := syncStep (Crypto.recorded []) 0
      (run (syncStep (Crypto.recorded []) 0) { idx := newIndex 15000 } (sampleSync ++ [.tick {}]))
      (.reorganise [sampleGenesis])
    s.pc = .idle true ∧ s.node.getBlockCount = 0 ∧
      (syncOnce? (Crypto.recorded []) 0 2 s).map (fun t => (t.pc, t.idx.tipHeight, t.idx.tipHash)) =
        some (.idle false, 1, sampleTxid '1') := by
  decide +kernel

end Whippet.Indexer
