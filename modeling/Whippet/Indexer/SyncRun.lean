import Whippet.Indexer.Sync

/-! While the node stands still during each run of `syncOnce`, the indexed blocks are a linked chain. -/
namespace Whippet.Indexer
open Lib Primitives Script

section
variable {crypto : Crypto} {s : Index} {block : RPCBlock} {indexed : List RPCBlock}

theorem applyBlock_prune (hok : (s.applyBlock crypto block).storeErr = none) : ∃ row,
    ((s.applyBlock crypto block).prunedBelow = s.prunedBelow ∧
      (s.applyBlock crypto block).store.heights = s.store.heights.insert block.height row) ∨
    (0 < s.reorgWindow ∧ s.prunedBelow ≤ block.height - s.reorgWindow ∧
      (s.applyBlock crypto block).prunedBelow = block.height - s.reorgWindow + 1 ∧
      (s.applyBlock crypto block).store.heights =
        Table.deleteWhere (· < block.height - s.reorgWindow + 1) (s.store.heights.insert block.height row)) := by
  obtain ⟨t, -, -, herr, hrun, -, -⟩ := applyBlock_ok hok
  have hheights : t.store.heights = s.store.heights := applyTxs_heights hrun
  refine ⟨⟨block.hash, some t.change⟩, ?_⟩
  unfold Index.applyBlock Index.write
  simp only [herr, Store.applyBlock, hrun, ok_bind]
  split_ifs with hprune
  · right
    refine ⟨hprune.1, hprune.2, rfl, ?_⟩
    rw [← hheights]
    rfl
  · left
    refine ⟨rfl, ?_⟩
    rw [← hheights]
    rfl

/-- The records of the indexed blocks are those at or above `prunedBelow`. -/
structure PruneInv (indexed : List RPCBlock) (s : Index) : Prop where
  below : ∀ h row, s.store.heights.lookup h = some row → s.prunedBelow ≤ h
  kept : ∀ b ∈ indexed, s.prunedBelow ≤ b.height → s.store.heights.lookup b.height ≠ none
  tip : s.prunedBelow ≤ s.tipHeight + 1

theorem PruneInv.applyBlock (h : PruneInv indexed s) (hext : s.Extends block)
    (hok : (s.applyBlock crypto block).storeErr = none) :
    PruneInv (indexed ++ [block]) (s.applyBlock crypto block) := by
  have htip : (s.applyBlock crypto block).tipHeight = block.height := by
    obtain ⟨t, heights, prunedBelow, -, -, -, heq⟩ := applyBlock_ok hok
    rw [heq]
  have hbelow : s.prunedBelow ≤ block.height := by
    have := h.tip
    unfold Index.Extends at hext
    omega
  obtain ⟨row, ⟨hpruned, hheights⟩ | ⟨hwindow, hcutoff, hpruned, hheights⟩⟩ := applyBlock_prune hok
  · refine ⟨?_, ?_, ?_⟩
    · intro k row' hrow
      rw [hheights, Table.lookup_insert_eq] at hrow
      rw [hpruned]
      split_ifs at hrow with hk
      · omega
      · exact h.below k row' hrow
    · intro b hb hheight
      rw [hheights, Table.lookup_insert_eq]
      split_ifs with hk
      · simp
      · rcases List.mem_append.mp hb with hold | hnew
        · exact h.kept b hold (hpruned ▸ hheight)
        · exact absurd (by rw [List.mem_singleton.mp hnew]) hk
    · rw [htip, hpruned]
      omega
  · refine ⟨?_, ?_, ?_⟩
    · intro k row' hrow
      rw [hheights, Table.lookup_deleteWhere] at hrow
      rw [hpruned]
      split_ifs at hrow with hk
      omega
    · intro b hb hheight
      rw [hpruned] at hheight
      rw [hheights, Table.lookup_deleteWhere, if_neg (by omega), Table.lookup_insert_eq]
      split_ifs with hk
      · simp
      · rcases List.mem_append.mp hb with hold | hnew
        · exact h.kept b hold (by omega)
        · exact absurd (by rw [List.mem_singleton.mp hnew]) hk
    · rw [htip, hpruned]
      omega

theorem PruneInv.undoBlock (h : PruneInv indexed s) (herr : s.storeErr = none) (hundo : s.canUndo s.tipHeight = true)
    (hdistinct : ∀ b ∈ indexed.dropLast, b.height ≠ s.tipHeight) :
    PruneInv indexed.dropLast (s.undoBlock s.tipHeight) := by
  obtain ⟨ch, hlog⟩ := Option.isSome_iff_exists.mp hundo
  obtain ⟨row, hrow, -⟩ := Option.bind_eq_some_iff.mp hlog
  have htip := h.below s.tipHeight row hrow
  rw [undoBlock_tip herr hlog]
  refine ⟨?_, ?_, ?_⟩
  · intro k row' hrow'
    simp only [Table.lookup_erase_eq] at hrow'
    split_ifs at hrow'
    exact h.below k row' hrow'
  · intro b hb hheight
    simp only [Table.lookup_erase_eq, if_neg (hdistinct b hb)]
    exact h.kept b (List.mem_of_mem_dropLast hb) hheight
  · change s.prunedBelow ≤ s.tipHeight - 1 + 1
    omega

theorem PruneInv.reset (herr : s.storeErr = none) : PruneInv [] s.reset := by
  refine ⟨?_, ?_, ?_⟩ <;> simp [Index.reset, herr, Store.truncate]

end

def ConsistentHashes (known : RPCBlock → Prop) : Prop := ∀ b b', known b → known b' → b.hash = b'.hash → b = b'

def Linked (chain : List RPCBlock) : Prop :=
  ∀ (i : ℕ) b b', chain[i]? = some b → chain[i + 1]? = some b' → b'.previousBlockHash = b.hash

/-- A chain of the node that an index can be built from. -/
structure NodeOk (crypto : Crypto) (ec : Btcec) (reorgWindow : ℤ) (startHeight : ℕ) (known : RPCBlock → Prop)
    (chain : List RPCBlock) : Prop where
  known : ∀ b ∈ chain, known b
  linked : Linked chain
  numbered : ∀ (i : ℕ) b, chain[i]? = some b → b.height = i
  indexable : Admissible (Index.step crypto ec) (fun s e => ChainEvent crypto s e ∧ SoundEvent crypto s e)
    (newIndex reorgWindow) ((chain.drop startHeight).map .applyBlock)

section
variable {known : RPCBlock → Prop} {indexed chain : List RPCBlock} {startHeight : ℕ}

/-- Two linked chains that agree in one block agree below it. -/
theorem eq_below_of_linked (hknown : ConsistentHashes known) (hindexed : Linked indexed) (hchain : Linked chain)
    (hindexedKnown : ∀ b ∈ indexed, known b) (hchainKnown : ∀ b ∈ chain, known b) {n : ℕ}
    (hn : n < indexed.length) (htop : indexed[n]? = chain[startHeight + n]?) :
    ∀ i ≤ n, indexed[i]? = chain[startHeight + i]? := by
  intro i hi
  induction hi using Nat.decreasingInduction with
  | self => exact htop
  | of_succ i hin ih =>
    have hb' : indexed[i + 1]? = some (indexed.get ⟨i + 1, by omega⟩) := List.getElem?_eq_getElem (by omega)
    have hb : indexed[i]? = some (indexed.get ⟨i, by omega⟩) := List.getElem?_eq_getElem (by omega)
    have hc' : chain[startHeight + i + 1]? = some (indexed.get ⟨i + 1, by omega⟩) := ih.symm.trans hb'
    have hlt := (List.getElem?_eq_some_iff.mp hc').1
    have hc : chain[startHeight + i]? = some (chain.get ⟨startHeight + i, by omega⟩) := List.getElem?_eq_getElem (by omega)
    have hhash := (hindexed i _ _ hb hb').symm.trans (hchain _ _ _ hc hc')
    rw [hb, hc, hknown _ _ (hindexedKnown _ (List.mem_of_getElem? hb)) (hchainKnown _ (List.mem_of_getElem? hc)) hhash]

end

section
variable (crypto : Crypto) (ec : Btcec) (reorgWindow : ℤ) (startHeight : ℕ) (known : RPCBlock → Prop)

/-- The index holds the linked blocks `indexed` from the start height on. -/
structure Indexed (indexed : List RPCBlock) (idx : Index) : Prop where
  chain : ChainInv crypto ec reorgWindow indexed idx
  lineage : LineageInv crypto ec reorgWindow indexed idx
  prune : PruneInv indexed idx
  known : ∀ b ∈ indexed, known b
  linked : Linked indexed
  first : ∀ b, indexed[0]? = some b → b.height = (startHeight : ℤ)
  empty : indexed = [] → idx.tipHeight = -1 ∨ idx.tipHeight = startHeight - 1

/-- The indexed blocks are the node's up to `next`, and the record of the last one is there. -/
structure Caught (indexed : List RPCBlock) (s : SyncState) (next : ℤ) : Prop where
  next : next = startHeight + indexed.length
  blocks : indexed <+: s.node.chain.drop startHeight
  recorded : indexed ≠ [] → s.idx.store.heights.lookup s.idx.tipHeight ≠ none

/-- What `syncOnce` knows at each of its calls. -/
def PcOk (indexed : List RPCBlock) (s : SyncState) : SyncPc → Prop
  | .idle _ => True
  | .walk nodeHeight => nodeHeight = s.node.getBlockCount
  | .compare nodeHeight tip nodeHash => nodeHeight = s.node.getBlockCount ∧ tip = s.idx.tipHeight ∧ startHeight ≤ tip ∧
      s.node.getBlockHash? tip = some nodeHash
  | .fetch nodeHeight next => nodeHeight = s.node.getBlockCount ∧ Caught startHeight indexed s next
  | .block nodeHeight next hash => nodeHeight = s.node.getBlockCount ∧ Caught startHeight indexed s next ∧
      next ≤ nodeHeight ∧ s.node.getBlockHash? next = some hash

structure SyncInv (indexed : List RPCBlock) (s : SyncState) : Prop where
  idx : Indexed crypto ec reorgWindow startHeight known indexed s.idx
  node : NodeOk crypto ec reorgWindow startHeight known s.node.chain
  nodeKnown : ∀ b ∈ s.node.known, known b
  nodeHas : ∀ b ∈ s.node.chain, b ∈ s.node.known
  pc : PcOk startHeight indexed s s.pc

/-- The node only moves between two runs of `syncOnce`, to chains an index can be built from, and the reads of
recorded hashes succeed. -/
def Steady (s : SyncState) : SyncEvent → Prop
  | .reorganise chain => (∃ ok, s.pc = .idle ok) ∧ NodeOk crypto ec reorgWindow startHeight known chain
  | .tick m => m.hashReadOk = true

end

section
variable {crypto : Crypto} {ec : Btcec} {reorgWindow : ℤ} {startHeight : ℕ} {known : RPCBlock → Prop}
  {indexed chain : List RPCBlock} {idx : Index} {block : RPCBlock} {s : SyncState}

theorem Indexed.tipHeight (h : Indexed crypto ec reorgWindow startHeight known indexed idx) (hne : indexed ≠ []) :
    idx.tipHeight + 1 = startHeight + indexed.length := by
  obtain ⟨b, rest, rfl⟩ := List.exists_cons_of_ne_nil hne
  have hnum := (h.chain.numbered 0 b rfl).2
  have hfirst := h.first b rfl
  omega

theorem Indexed.nextHeight (h : Indexed crypto ec reorgWindow startHeight known indexed idx) :
    idx.nextHeight startHeight = startHeight + indexed.length := by
  unfold Index.nextHeight
  by_cases hne : indexed = []
  · rcases h.empty hne with htip | htip <;> split_ifs <;> simp only [hne, List.length_nil] <;> omega
  · have htip := h.tipHeight hne
    have hpos := List.length_pos_of_ne_nil hne
    split_ifs <;> omega

theorem Indexed.nil (hstore : ∃ tombstones, idx.store = { tombstones := tombstones }) (herr : idx.storeErr = none)
    (htip : idx.tipHeight = -1) (hpruned : idx.prunedBelow = 0) :
    Indexed crypto ec reorgWindow startHeight known [] idx := by
  refine ⟨ChainInv.empty herr hstore htip, ?_, ?_, by simp, ?_, by simp, fun _ => Or.inl htip⟩
  · obtain ⟨tombstones, hstore⟩ := hstore
    apply LineageInv.empty <;> rw [hstore]
  · obtain ⟨tombstones, hstore⟩ := hstore
    refine ⟨?_, by simp, by omega⟩
    rw [hstore]
    simp
  · intro i b b' hb
    simp at hb

theorem Indexed.reset (h : Indexed crypto ec reorgWindow startHeight known indexed idx) :
    Indexed crypto ec reorgWindow startHeight known [] idx.reset := by
  have hreset : idx.reset = { idx with store := idx.store.truncate, tipHeight := -1, tipHash := [], prunedBelow := 0 } := by
    simp [Index.reset, h.chain.storeErr]
  rw [hreset]
  exact Indexed.nil ⟨idx.store.tombstones, rfl⟩ h.chain.storeErr rfl rfl

theorem Indexed.undoBlock (h : Indexed crypto ec reorgWindow startHeight known indexed idx)
    (hundo : idx.canUndo idx.tipHeight = true) :
    Indexed crypto ec reorgWindow startHeight known indexed.dropLast (idx.undoBlock idx.tipHeight) := by
  have hkept : ∀ (i : ℕ) b, indexed.dropLast[i]? = some b → i + 1 < indexed.length ∧ indexed[i]? = some b := by
    intro i b hi
    rw [List.getElem?_dropLast] at hi
    split_ifs at hi with hlt
    exact ⟨by omega, hi⟩
  refine ⟨h.chain.undoBlock hundo, h.lineage.undoBlock h.chain hundo, ?_, ?_, ?_, ?_, ?_⟩
  · apply h.prune.undoBlock h.chain.storeErr hundo
    intro b hb
    obtain ⟨i, hi⟩ := List.getElem?_of_mem hb
    obtain ⟨hlt, hi⟩ := hkept i b hi
    have := (h.chain.numbered i b hi).2
    omega
  · intro b hb
    exact h.known b (List.mem_of_mem_dropLast hb)
  · intro i b b' hb hb'
    exact h.linked i b b' (hkept i b hb).2 (hkept _ b' hb').2
  · intro b hb
    exact h.first b (hkept 0 b hb).2
  · intro hnil
    obtain ⟨pre, last, ch, hsplit, -, hlog, -⟩ := h.chain.tipLog hundo
    have htip := h.tipHeight (by simp [hsplit])
    rw [hsplit, List.dropLast_concat] at hnil
    rw [hsplit, hnil] at htip
    rw [undoBlock_tip h.chain.storeErr hlog]
    simp only [List.nil_append, List.length_singleton] at htip
    right
    change idx.tipHeight - 1 = startHeight - 1
    omega

theorem getElem?_of_prefix_drop {l : List RPCBlock} {n i : ℕ} {b : RPCBlock} (h : l <+: chain.drop n)
    (hi : l[i]? = some b) : chain[n + i]? = some b := by
  obtain ⟨rest, hrest⟩ := h
  rw [← List.getElem?_drop, ← hrest, List.getElem?_append_left (List.getElem?_eq_some_iff.mp hi).1, hi]

theorem Linked.of_prefix_drop {l : List RPCBlock} {n : ℕ} (h : Linked chain) (hl : l <+: chain.drop n) : Linked l := by
  intro i b b' hb hb'
  have hnext := getElem?_of_prefix_drop hl hb'
  exact h (n + i) b b' (getElem?_of_prefix_drop hl hb) hnext

theorem Indexed.chainEvent (h : Indexed crypto ec reorgWindow startHeight known indexed idx)
    (hnode : NodeOk crypto ec reorgWindow startHeight known chain)
    (hnext : indexed ++ [block] <+: chain.drop startHeight) :
    ChainEvent crypto idx (.applyBlock block) ∧ SoundEvent crypto idx (.applyBlock block) ∧
      block.height = startHeight + indexed.length := by
  have hheight : block.height = startHeight + indexed.length := by
    have hget : chain[startHeight + indexed.length]? = some block :=
      getElem?_of_prefix_drop hnext List.getElem?_concat_length
    rw [hnode.numbered _ _ hget]
    push_cast
    rfl
  obtain ⟨rest, hrest⟩ := hnext
  have hindexable := hnode.indexable
  rw [← hrest, List.map_append, admissible_append, List.map_append, admissible_append] at hindexable
  obtain ⟨⟨-, hfresh, hok⟩, hsound⟩ := hindexable.1.2.1
  refine ⟨⟨?_, ?_, ?_⟩, ?_, hheight⟩
  · have htip := h.tipHeight
    have hempty := h.empty
    unfold Index.Extends
    by_cases hne : indexed = []
    · simp only [hne, List.length_nil] at hheight
      rcases hempty hne with htip | htip <;> omega
    · have := htip hne
      omega
  · rw [h.chain.core]
    exact hfresh
  · exact (applyBlock_congr h.chain.core.symm h.chain.storeErr hok).1
  · exact soundBlock_congr h.chain.core.symm hsound

theorem Indexed.applyBlock (h : Indexed crypto ec reorgWindow startHeight known indexed idx)
    (hnode : NodeOk crypto ec reorgWindow startHeight known chain)
    (hnext : indexed ++ [block] <+: chain.drop startHeight) :
    Indexed crypto ec reorgWindow startHeight known (indexed ++ [block]) (idx.applyBlock crypto block) := by
  obtain ⟨hev, hsound, hheight⟩ := h.chainEvent hnode hnext
  refine ⟨h.chain.applyBlock hev, h.lineage.applyBlock h.chain hev hsound, h.prune.applyBlock hev.1 hev.2.2, ?_,
    hnode.linked.of_prefix_drop hnext, ?_, by simp⟩
  · intro b hb
    exact hnode.known b (List.mem_of_mem_drop (hnext.subset hb))
  · intro b hb
    rw [hnode.numbered _ _ (getElem?_of_prefix_drop hnext hb)]
    rfl

theorem Indexed.parent (h : Indexed crypto ec reorgWindow startHeight known indexed idx)
    (hnode : NodeOk crypto ec reorgWindow startHeight known chain)
    (hnext : indexed ++ [block] <+: chain.drop startHeight) (habove : startHeight < block.height)
    (hrecorded : indexed ≠ [] → idx.store.heights.lookup idx.tipHeight ≠ none) :
    block.previousBlockHash = idx.tipHash := by
  obtain ⟨-, -, hheight⟩ := h.chainEvent hnode hnext
  have hne : indexed ≠ [] := by
    rintro rfl
    simp only [List.length_nil] at hheight
    omega
  obtain ⟨pre, last, rfl⟩ := (List.eq_nil_or_concat' indexed).resolve_left hne
  have hlinked := hnode.linked.of_prefix_drop hnext pre.length last block (by simp) (by simp)
  rw [hlinked]
  exact (h.chain.tipHash last List.getLast?_concat (hrecorded hne)).symm

/-- Where the recorded hash at the tip is the node's, everything indexed is the node's. -/
theorem Indexed.fork_point (hknown : ConsistentHashes known)
    (h : Indexed crypto ec reorgWindow startHeight known indexed idx)
    (hnode : NodeOk crypto ec reorgWindow startHeight known chain) {node : Node} (hchain : node.chain = chain)
    (htip : startHeight ≤ idx.tipHeight) {hash : Text} (hours : idx.hashAtHeight? idx.tipHeight = some hash)
    (htheirs : node.getBlockHash? idx.tipHeight = some hash) : indexed <+: chain.drop startHeight := by
  subst hchain
  have hne : indexed ≠ [] := by
    rintro rfl
    rcases h.empty rfl with htip' | htip' <;> omega
  obtain ⟨pre, last, rfl⟩ := (List.eq_nil_or_concat' indexed).resolve_left hne
  have hlen := h.tipHeight hne
  simp only [List.length_append, List.length_singleton] at hlen
  obtain ⟨row, hrow, hrowHash⟩ := Option.map_eq_some_iff.mp hours
  have hlast := (h.chain.getLast List.getLast?_concat).1
  have hlastHash := (h.chain.logs pre.length last (by simp) row (hlast ▸ hrow)).1
  unfold Node.getBlockHash? at htheirs
  rw [if_neg (by omega)] at htheirs
  obtain ⟨theirs, htheirs, htheirsHash⟩ := Option.map_eq_some_iff.mp htheirs
  have hindex : idx.tipHeight.toNat = startHeight + pre.length := by omega
  rw [hindex] at htheirs
  have hsame : last = theirs := by
    refine hknown _ _ (h.known last (by simp)) (hnode.known theirs (List.mem_of_getElem? htheirs)) ?_
    rw [← hlastHash, hrowHash, htheirsHash]
  have htop : (pre ++ [last])[pre.length]? = node.chain[startHeight + pre.length]? := by
    rw [htheirs, ← hsame]
    simp
  have hbelow := eq_below_of_linked hknown h.linked hnode.linked h.known hnode.known (by simp) htop
  rw [List.prefix_iff_eq_take]
  apply List.ext_getElem?
  intro i
  rw [List.getElem?_take, List.getElem?_drop]
  split_ifs with hi
  · exact hbelow i (by simp at hi; omega)
  · exact List.getElem?_eq_none (by omega)

theorem SyncInv.served (hknown : ConsistentHashes known) (h : SyncInv crypto ec reorgWindow startHeight known indexed s)
    {next : ℤ} {hash : Text} (hcaught : Caught startHeight indexed s next)
    (hhash : s.node.getBlockHash? next = some hash) (hserved : s.node.getBlockVerbose? hash = some block) :
    indexed ++ [block] <+: s.node.chain.drop startHeight := by
  unfold Node.getBlockHash? at hhash
  rw [if_neg (by rw [hcaught.next]; omega)] at hhash
  obtain ⟨theirs, htheirs, htheirsHash⟩ := Option.map_eq_some_iff.mp hhash
  have hindex : next.toNat = startHeight + indexed.length := by
    rw [hcaught.next]
    omega
  rw [hindex] at htheirs
  have hblockHash : block.hash = hash := by simpa using List.find?_some hserved
  have hsame : block = theirs :=
    hknown _ _ (h.nodeKnown block (List.mem_of_find?_eq_some hserved)) (h.node.known theirs (List.mem_of_getElem? htheirs))
      (hblockHash.trans htheirsHash.symm)
  obtain ⟨rest, hrest⟩ := hcaught.blocks
  rw [← List.getElem?_drop, ← hrest, List.getElem?_append_right (le_refl _), Nat.sub_self] at htheirs
  obtain ⟨first, rest, rfl⟩ : ∃ first tail, rest = first :: tail := by
    cases rest with
    | nil => simp at htheirs
    | cons first tail => exact ⟨first, tail, rfl⟩
  obtain rfl : first = theirs := by simpa using htheirs
  exact ⟨rest, by rw [← hrest, hsame, List.append_assoc, List.singleton_append]⟩

theorem SyncInv.walk (h : SyncInv crypto ec reorgWindow startHeight known indexed s) (m : Moment) :
    SyncInv crypto ec reorgWindow startHeight known indexed (syncWalk startHeight m s.node.getBlockCount s) := by
  unfold syncWalk
  by_cases htip : s.idx.tipHeight < startHeight
  · rw [if_pos htip]
    refine ⟨h.idx, h.node, h.nodeKnown, h.nodeHas, rfl, h.idx.nextHeight, ?_, ?_⟩
    all_goals
      have hnil : indexed = [] := by
        by_contra hne
        have := h.idx.tipHeight hne
        have := List.length_pos_of_ne_nil hne
        omega
    · rw [hnil]
      exact List.nil_prefix
    · exact fun hne => absurd hnil hne
  · rw [if_neg htip]
    split
    · exact ⟨h.idx, h.node, h.nodeKnown, h.nodeHas, trivial⟩
    · next nodeHash hrpc =>
      refine ⟨h.idx, h.node, h.nodeKnown, h.nodeHas, rfl, rfl, by omega, ?_⟩
      split_ifs at hrpc
      exact hrpc

theorem SyncInv.compare (hknown : ConsistentHashes known)
    (h : SyncInv crypto ec reorgWindow startHeight known indexed s) {m : Moment} (hread : m.hashReadOk = true)
    {tip : ℤ} {nodeHash : Text} (htip : tip = s.idx.tipHeight) (hstart : startHeight ≤ tip)
    (htheirs : s.node.getBlockHash? tip = some nodeHash) : ∃ indexed',
    SyncInv crypto ec reorgWindow startHeight known indexed' (syncCompare startHeight m s.node.getBlockCount tip nodeHash s) := by
  subst htip
  unfold syncCompare
  simp only [hread, if_true]
  split_ifs with hagree habsent hundo
  · obtain ⟨row, hrow, -⟩ := Option.map_eq_some_iff.mp hagree
    refine ⟨indexed, h.idx, h.node, h.nodeKnown, h.nodeHas, rfl, h.idx.nextHeight, ?_, ?_⟩
    · exact h.idx.fork_point hknown h.node rfl hstart hagree htheirs
    · exact fun _ => by simp [hrow]
  · -- a block of the index without a record has been pruned
    exfalso
    have hne : indexed ≠ [] := by
      rintro rfl
      rcases h.idx.empty rfl with htip' | htip' <;> omega
    obtain ⟨pre, last, rfl⟩ := (List.eq_nil_or_concat' indexed).resolve_left hne
    have hlast := (h.idx.chain.getLast List.getLast?_concat).1
    have hpruned : s.idx.prunedBelow ≤ last.height := by
      have := habsent.2
      simp only [Index.isPruned, decide_eq_false_iff_not, not_lt] at this
      omega
    have hkept := h.idx.prune.kept last (by simp) hpruned
    rw [hlast] at hkept
    exact hkept (by simpa [Index.hashAtHeight?] using habsent.1)
  · refine ⟨[], h.idx.reset, h.node, h.nodeKnown, h.nodeHas, rfl, ?_, List.nil_prefix, by simp⟩
    simpa using h.idx.reset.nextHeight
  · have hcan : s.idx.canUndo s.idx.tipHeight = true := by
      simp only [Bool.and_eq_false_iff, not_or, Bool.not_eq_false] at hundo
      exact hundo.2
    exact ⟨indexed.dropLast, h.idx.undoBlock hcan, h.node, h.nodeKnown, h.nodeHas, rfl⟩

theorem SyncInv.fetch (h : SyncInv crypto ec reorgWindow startHeight known indexed s) (m : Moment) {next : ℤ}
    (hcaught : Caught startHeight indexed s next) :
    SyncInv crypto ec reorgWindow startHeight known indexed (syncFetch m s.node.getBlockCount next s) := by
  unfold syncFetch
  by_cases hnext : s.node.getBlockCount < next
  · rw [if_pos hnext]
    exact ⟨h.idx, h.node, h.nodeKnown, h.nodeHas, trivial⟩
  · rw [if_neg hnext]
    split
    · exact ⟨h.idx, h.node, h.nodeKnown, h.nodeHas, trivial⟩
    · next hash hrpc =>
      refine ⟨h.idx, h.node, h.nodeKnown, h.nodeHas, rfl, ⟨hcaught.next, hcaught.blocks, hcaught.recorded⟩, by omega, ?_⟩
      split_ifs at hrpc
      exact hrpc

theorem SyncInv.apply (hknown : ConsistentHashes known)
    (h : SyncInv crypto ec reorgWindow startHeight known indexed s) (m : Moment) {next : ℤ} {hash : Text}
    (hcaught : Caught startHeight indexed s next) (hhash : s.node.getBlockHash? next = some hash) : ∃ indexed',
    SyncInv crypto ec reorgWindow startHeight known indexed' (syncBlock crypto m s.node.getBlockCount next hash s) := by
  unfold syncBlock
  split
  · exact ⟨indexed, h.idx, h.node, h.nodeKnown, h.nodeHas, trivial⟩
  · next block hrpc =>
    have hserved : s.node.getBlockVerbose? hash = some block := by
      split_ifs at hrpc
      exact hrpc
    have hnext := h.served hknown hcaught hhash hserved
    have hidx := h.idx.applyBlock h.node hnext
    have hok := hidx.chain.storeErr
    refine ⟨indexed ++ [block], ?_⟩
    simp only [hok, if_true]
    refine ⟨hidx, h.node, h.nodeKnown, h.nodeHas, rfl, ?_, hnext, ?_⟩
    · rw [hcaught.next]
      simp only [List.length_append, List.length_singleton]
      push_cast
      omega
    · intro _
      obtain ⟨t, heights, prunedBelow, -, -, hrecorded, heq⟩ := applyBlock_ok hok
      change (s.idx.applyBlock crypto block).store.heights.lookup (s.idx.applyBlock crypto block).tipHeight ≠ none
      rw [heq]
      exact ne_of_eq_of_ne hrecorded.own (Option.some_ne_none _)

theorem SyncInv.step (hknown : ConsistentHashes known)
    (h : SyncInv crypto ec reorgWindow startHeight known indexed s) {e : SyncEvent}
    (hev : Steady crypto ec reorgWindow startHeight known s e) :
    ∃ indexed', SyncInv crypto ec reorgWindow startHeight known indexed' (syncStep crypto startHeight s e) := by
  have hpcOk := h.pc
  cases e with
  | reorganise chain =>
    obtain ⟨⟨ok, hpc⟩, hnode⟩ := hev
    refine ⟨indexed, h.idx, hnode, ?_, ?_, ?_⟩
    · intro b hb
      rcases List.mem_append.mp hb with hb | hb
      · exact hnode.known b hb
      · exact h.nodeKnown b hb
    · intro b hb
      exact List.mem_append_left _ hb
    · change PcOk startHeight indexed _ s.pc
      rw [hpc]
      trivial
  | tick m =>
    unfold syncStep syncTick
    cases hpc : s.pc with
    | idle ok =>
      refine ⟨indexed, ?_⟩
      dsimp only
      split_ifs
      · exact ⟨h.idx, h.node, h.nodeKnown, h.nodeHas, rfl⟩
      · exact ⟨h.idx, h.node, h.nodeKnown, h.nodeHas, trivial⟩
    | walk nodeHeight =>
      rw [hpc] at hpcOk
      obtain rfl := hpcOk
      exact ⟨indexed, h.walk m⟩
    | compare nodeHeight tip nodeHash =>
      rw [hpc] at hpcOk
      obtain ⟨rfl, htip, hstart, htheirs⟩ := hpcOk
      exact h.compare hknown hev htip hstart htheirs
    | fetch nodeHeight next =>
      rw [hpc] at hpcOk
      obtain ⟨rfl, hcaught⟩ := hpcOk
      exact ⟨indexed, h.fetch m hcaught⟩
    | block nodeHeight next hash =>
      rw [hpc] at hpcOk
      obtain ⟨rfl, hcaught, -, hhash⟩ := hpcOk
      exact h.apply hknown m hcaught hhash

theorem syncInv_run (hknown : ConsistentHashes known) {events : List SyncEvent}
    (h : Admissible (syncStep crypto startHeight) (Steady crypto ec reorgWindow startHeight known)
      { idx := newIndex reorgWindow } events) : ∃ indexed, SyncInv crypto ec reorgWindow startHeight known indexed
        (run (syncStep crypto startHeight) { idx := newIndex reorgWindow } events) := by
  refine run_invariant (P := fun _ s => ∃ indexed, SyncInv crypto ec reorgWindow startHeight known indexed s) ?_ ?_ h
  · refine ⟨[], Indexed.nil ⟨∅, rfl⟩ rfl rfl rfl, ⟨by simp, ?_, by simp, ?_⟩, by simp, by simp, trivial⟩
    · intro i b b' hb
      simp at hb
    · rw [List.drop_nil]
      trivial
  · rintro - s e ⟨indexed, hinv⟩ hev
    exact hinv.step hknown hev

theorem SyncInv.commits (hknown : ConsistentHashes known)
    (h : SyncInv crypto ec reorgWindow startHeight known indexed s) {e : SyncEvent} (hcommits : commits? s e = some block)
    (habove : startHeight < block.height) : block.previousBlockHash = s.idx.tipHash := by
  cases e with
  | reorganise chain => simp [commits?] at hcommits
  | tick m =>
    unfold commits? at hcommits
    have hpcOk := h.pc
    cases hpc : s.pc with
    | block nodeHeight next hash =>
      simp only [hpc] at hcommits
      rw [hpc] at hpcOk
      obtain ⟨-, hcaught, -, hhash⟩ := hpcOk
      split_ifs at hcommits
      exact h.idx.parent h.node (h.served hknown hcaught hhash hcommits) habove hcaught.recorded
    | _ => simp [hpc] at hcommits

theorem SyncInv.returned (h : SyncInv crypto ec reorgWindow startHeight known indexed s) {e : SyncEvent}
    (hbusy : ∀ ok, s.pc ≠ .idle ok) (hreturn : (syncStep crypto startHeight s e).pc = .idle true) :
    (syncStep crypto startHeight s e).idx = s.idx ∧ (syncStep crypto startHeight s e).node = s.node ∧
      indexed = s.node.chain.drop startHeight ∧
      (indexed ≠ [] → s.idx.store.heights.lookup s.idx.tipHeight ≠ none) := by
  have hpcOk := h.pc
  cases e with
  | reorganise chain => exact absurd hreturn (hbusy true)
  | tick m =>
    unfold syncStep syncTick at hreturn ⊢
    cases hpc : s.pc with
    | idle ok => exact absurd hpc (hbusy ok)
    | walk nodeHeight =>
      simp only [hpc, syncWalk] at hreturn
      repeat' split at hreturn
      all_goals cases hreturn
    | compare nodeHeight tip nodeHash =>
      simp only [hpc, syncCompare] at hreturn
      repeat' split at hreturn
      all_goals cases hreturn
    | block nodeHeight next hash =>
      simp only [hpc, syncBlock] at hreturn
      repeat' split at hreturn
      all_goals cases hreturn
    | fetch nodeHeight next =>
      rw [hpc] at hpcOk
      obtain ⟨rfl, hcaught⟩ := hpcOk
      simp only [hpc, syncFetch] at hreturn ⊢
      by_cases hnext : s.node.getBlockCount < next
      · rw [if_pos hnext]
        refine ⟨rfl, rfl, ?_, hcaught.recorded⟩
        apply hcaught.blocks.eq_of_length_le
        rw [List.length_drop]
        have := hcaught.next
        unfold Node.getBlockCount at hnext
        omega
      · rw [if_neg hnext] at hreturn
        split at hreturn <;> cases hreturn

end

def sampleGenesis : RPCBlock := sampleBlock '0' 0 [] []

def sampleMintBlock : RPCBlock := sampleBlock '1' 1 (sampleTxid '0') [sampleMint]

def sampleSync : List SyncEvent := .reorganise [sampleGenesis, sampleMintBlock] :: List.replicate 6 (.tick {})

def sampleNode (b : RPCBlock) : Prop := b = sampleGenesis ∨ b = sampleMintBlock

theorem sampleNode_consistent : ConsistentHashes sampleNode := by
  have hne : sampleGenesis.hash ≠ sampleMintBlock.hash := by decide
  rintro b b' (rfl | rfl) (rfl | rfl) hhash
  · rfl
  · exact absurd hhash hne
  · exact absurd hhash.symm hne
  · rfl

theorem sampleNode_ok :
    NodeOk (Crypto.recorded []) (Btcec.recorded []) 15000 0 sampleNode [sampleGenesis, sampleMintBlock] := by
  refine ⟨by simp [sampleNode], ?_, ?_, by decide +kernel⟩
  · rintro (- | - | i) b b' hb hb'
    · obtain rfl : sampleGenesis = b := by simpa using hb
      obtain rfl : sampleMintBlock = b' := by simpa using hb'
      rfl
    · simp at hb'
    · simp at hb
  · rintro (- | - | i) b hb
    · obtain rfl : sampleGenesis = b := by simpa using hb
      rfl
    · obtain rfl : sampleMintBlock = b := by simpa using hb
      rfl
    · simp at hb

theorem sampleSync_steady : Admissible (syncStep (Crypto.recorded []) ((0 : ℕ) : ℤ))
    (Steady (Crypto.recorded []) (Btcec.recorded []) 15000 0 sampleNode) { idx := newIndex 15000 }
    (sampleSync ++ [.tick {}]) :=
  ⟨⟨⟨false, rfl⟩, sampleNode_ok⟩, rfl, rfl, rfl, rfl, rfl, rfl, rfl, trivial⟩

def sampleLonger : List RPCBlock := [sampleGenesis, sampleMintBlock, sampleBlock '2' 2 (sampleTxid '1') []]

def sampleBranch : List RPCBlock :=
  [sampleGenesis, sampleBlock '3' 1 (sampleTxid '0') [], sampleBlock '4' 2 (sampleTxid '3') []]

/-- The index agrees with the node on the mint. Then the node moves to the other branch, just before it is
asked for the hash of the next block. -/
def sampleRace : List SyncEvent :=
  sampleSync ++ .tick {} :: .reorganise sampleLonger :: List.replicate 3 (.tick {}) ++
    .reorganise sampleBranch :: [.tick {}]

end Whippet.Indexer
