import Whippet.Indexer.OrderAuthority

/-! The pending set: the mempool poller `UpdatePendingSpends` next to any number of `NotePendingSpends` calls. -/
namespace Whippet.Indexer
open Lib Primitives Script

structure MempoolNode where
  mempool : List RPCTx := []
  confirmed : List RPCTx := []

namespace MempoolNode

def getRawMempool (node : MempoolNode) : List Text := node.mempool.map RPCTx.txid

/-- `getrawtransaction`, which finds unconfirmed and confirmed transactions. -/
def getRawTransaction? (node : MempoolNode) (txid : Text) : Option RPCTx :=
  (node.mempool ++ node.confirmed).find? fun tx => tx.txid = txid

/-- The transaction waits in the mempool, and it is the one that spends the outpoint. -/
def Holds (node : MempoolNode) (txid : Text) (k : Outpoint) : Prop :=
  txid ∈ node.getRawMempool ∧ ∀ tx ∈ node.mempool ++ node.confirmed, tx.txid = txid ↔ k ∈ tx.spends

instance (node : MempoolNode) (txid : Text) (k : Outpoint) : Decidable (node.Holds txid k) :=
  inferInstanceAs (Decidable (_ ∧ _))

end MempoolNode

def pendingSpendsByTxid (pending : Table Outpoint Text) (txid : Text) : Table Outpoint Text :=
  if txid = [] then ∅ else Table.deleteWhere (fun k => pending.lookup k ≠ some txid) pending

def Store.knownUnspent (t : Store) (k : Outpoint) : Bool := (t.positions.lookup k).any fun pos => !pos.spent

/-- The variables of a poll in its loop: the transactions to come, and the inputs to come of the current one. -/
structure Poll where
  todo : List Text
  current : Text := []
  inputs : List Outpoint := []
  carryForward : Table Outpoint Text
  newPending : Table Outpoint Text := ∅
  seen : Table Outpoint Bool := ∅
  txCache : Table Text RPCTx := ∅

namespace Poll

/-- A failed read of the store counts as an unknown position, and the answer is kept for the rest of the poll. -/
def isKnownUnspentPosition (p : Poll) (t : Store) (readOk : Bool) (k : Outpoint) : Bool :=
  match p.seen.lookup k with
  | some v => v
  | none => readOk && t.knownUnspent k

def input (p : Poll) (t : Store) (readOk : Bool) (k : Outpoint) (rest : List Outpoint) : Poll :=
  let v := p.isKnownUnspentPosition t readOk k
  { p with
    inputs := rest, seen := p.seen.insert k v,
    newPending := if v then p.newPending.insert k p.current else p.newPending }

/-- The next transaction. One that cannot be fetched keeps the entries it already has. -/
def fetch (p : Poll) (node : MempoolNode) (rpcOk : Bool) (txid : Text) (rest : List Text) : Poll :=
  match (p.txCache.lookup txid).or (if rpcOk then node.getRawTransaction? txid else none) with
  | some tx =>
    { p with todo := rest, current := txid, inputs := tx.spends, txCache := p.txCache.insert txid tx }
  | none => { p with todo := rest, newPending := pendingSpendsByTxid p.carryForward txid ∪ p.newPending }

end Poll

/-- Where the poller is, between two of its calls. -/
inductive PollPc
  | idle
  | listed (txids : List Text)
  | scan (p : Poll)

/-- A `NotePendingSpends` call in flight: the inputs to come, and a position that is about to be set. -/
structure NoteCall where
  txid : Text
  inputs : List Outpoint
  found : Option Outpoint := none

structure PendingState where
  node : MempoolNode := {}
  idx : Index
  poll : PollPc := .idle
  notes : Table ℕ NoteCall := ∅

def Index.setPendingSpend (idx : Index) (k : Outpoint) (txid : Text) : Index :=
  { idx with pendingSpends := idx.pendingSpends.insert k txid }

/-- The next call of `UpdatePendingSpends`. The set is replaced as a whole at the end. -/
def pollTick (s : PendingState) (rpcOk readOk : Bool) : PendingState :=
  match s.poll with
  | .idle => if rpcOk then { s with poll := .listed s.node.getRawMempool } else s
  | .listed txids => { s with poll := .scan { todo := txids, carryForward := s.idx.pendingSpends } }
  | .scan p =>
    match p.inputs, p.todo with
    | k :: rest, _ => { s with poll := .scan (p.input s.idx.store readOk k rest) }
    | [], txid :: rest => { s with poll := .scan (p.fetch s.node rpcOk txid rest) }
    | [], [] => { s with idx := { s.idx with pendingSpends := p.newPending }, poll := .idle }

/-- `NotePendingSpends` is called and fetches the transaction; without it the call returns its error. -/
def noteStart (s : PendingState) (id : ℕ) (txid : Text) (rpcOk : Bool) : PendingState :=
  match s.notes.lookup id, if rpcOk then s.node.getRawTransaction? txid else none with
  | none, some tx => { s with notes := s.notes.insert id { txid := txid, inputs := tx.spends } }
  | _, _ => s

def noteTick (s : PendingState) (id : ℕ) (readOk : Bool) : PendingState :=
  match s.notes.lookup id with
  | none => s
  | some note =>
    match note.found, note.inputs with
    | some k, _ =>
      { s with idx := s.idx.setPendingSpend k note.txid, notes := s.notes.insert id { note with found := none } }
    | none, k :: rest =>
      let found := if readOk && s.idx.store.knownUnspent k then some k else none
      { s with notes := s.notes.insert id { note with inputs := rest, found := found } }
    | none, [] => { s with notes := s.notes.erase id }

/-- Either the node or the index moves on, or the poller or one of the calls takes its next step. -/
inductive PendingEvent
  | node (node : MempoolNode)
  | index (e : Event)
  | poll (rpcOk readOk : Bool)
  | call (id : ℕ) (txid : Text) (rpcOk : Bool)
  | note (id : ℕ) (readOk : Bool)

def pendingStep (crypto : Crypto) (ec : Btcec) (s : PendingState) : PendingEvent → PendingState
  | .node node => { s with node := node }
  | .index e => { s with idx := Index.step crypto ec s.idx e }
  | .poll rpcOk readOk => pollTick s rpcOk readOk
  | .call id txid rpcOk => noteStart s id txid rpcOk
  | .note id readOk => noteTick s id readOk

namespace PendingEvent

def isPoll : PendingEvent → Bool
  | .poll _ _ => true
  | _ => false

def readsOk : PendingEvent → Bool
  | .poll _ readOk => readOk
  | .note _ readOk => readOk
  | _ => true

end PendingEvent

def pendingAfter (crypto : Crypto) (ec : Btcec) (reorgWindow : ℤ) (events : List PendingEvent) : PendingState :=
  run (pendingStep crypto ec) { idx := newIndex reorgWindow } events

/-- No call for another transaction is about to set the outpoint. -/
def NotesQuiet (txid : Text) (k : Outpoint) (notes : Table ℕ NoteCall) : Prop :=
  ∀ id note, notes.lookup id = some note → note.txid ≠ txid → k ∉ note.inputs ∧ note.found ≠ some k

/-- The poll will put the outpoint into the new set: its transaction is still to come, or the input is, or the
entry is there. -/
structure Poll.Keeps (txid : Text) (k : Outpoint) (p : Poll) : Prop where
  carried : p.carryForward.lookup k = some txid
  seen : p.seen.lookup k ≠ some false
  cached : ∀ id tx, p.txCache.lookup id = some tx → (id = txid ↔ k ∈ tx.spends)
  inputs : k ∈ p.inputs → p.current = txid
  due : txid ∈ p.todo ∨ k ∈ p.inputs ∨ p.newPending.lookup k = some txid

def PollPc.Keeps (txid : Text) (k : Outpoint) : PollPc → Prop
  | .idle => True
  | .listed txids => txid ∈ txids
  | .scan p => p.Keeps txid k

/-- The outpoint is pending, and nothing in flight will drop it. -/
structure PendingState.Held (txid : Text) (k : Outpoint) (s : PendingState) : Prop where
  pending : s.idx.pendingSpends.lookup k = some txid
  poll : s.poll.Keeps txid k
  notes : NotesQuiet txid k s.notes

section
variable {crypto : Crypto} {ec : Btcec} {txid : Text} {k : Outpoint} {s : PendingState} {p : Poll}

theorem Store.knownUnspent_iff {t : Store} : t.knownUnspent k = true ↔ t.Unspent k := by
  unfold Store.knownUnspent Store.Unspent
  cases t.positions.lookup k <;> simp

instance (t : Store) : Decidable (t.Unspent k) := decidable_of_iff _ Store.knownUnspent_iff

variable {node : MempoolNode}

theorem MempoolNode.Holds.fetched {id : Text} {tx : RPCTx} (h : node.Holds txid k)
    (hfetch : node.getRawTransaction? id = some tx) : id = txid ↔ k ∈ tx.spends := by
  have hid : tx.txid = id := by simpa using List.find?_some hfetch
  rw [← hid]
  exact h.2 tx (List.mem_of_find?_eq_some hfetch)

theorem MempoolNode.Holds.visible (h : node.Holds txid k) :
    ∃ tx, node.getRawTransaction? txid = some tx ∧ k ∈ tx.spends := by
  obtain ⟨tx, hmem, rfl⟩ := List.mem_map.mp h.1
  have hsome : (node.getRawTransaction? tx.txid).isSome = true :=
    List.find?_isSome.mpr ⟨tx, List.mem_append_left _ hmem, by simp⟩
  obtain ⟨tx', htx'⟩ := Option.isSome_iff_exists.mp hsome
  exact ⟨tx', htx', (h.fetched htx').mp rfl⟩

theorem lookup_pendingSpendsByTxid {pending : Table Outpoint Text} (hne : txid ≠ [])
    (h : pending.lookup k = some txid) : (pendingSpendsByTxid pending txid).lookup k = some txid := by
  rw [pendingSpendsByTxid, if_neg hne, Table.lookup_deleteWhere, if_neg (not_not.mpr h), h]

theorem lookup_pendingSpendsByTxid_of_ne {pending : Table Outpoint Text} {id : Text} (hne : id ≠ txid)
    (h : pending.lookup k = some txid) : (pendingSpendsByTxid pending id).lookup k = none := by
  unfold pendingSpendsByTxid
  split_ifs
  · exact Finmap.lookup_empty k
  · rw [Table.lookup_deleteWhere, if_pos]
    rw [h]
    exact fun heq => hne (Option.some.inj heq).symm

theorem Poll.Keeps.input {t : Store} {k' : Outpoint} {rest : List Outpoint} (h : p.Keeps txid k)
    (hunspent : t.Unspent k) (hinputs : p.inputs = k' :: rest) : (p.input t true k' rest).Keeps txid k := by
  have hin := h.inputs
  have hdue := h.due
  rw [hinputs] at hin hdue
  by_cases hk : k = k'
  · subst hk
    have hv : p.isKnownUnspentPosition t true k = true := by
      unfold Poll.isKnownUnspentPosition
      cases hseen : p.seen.lookup k with
      | none => simp [Store.knownUnspent_iff.mpr hunspent]
      | some v =>
        cases v with
        | true => rfl
        | false => exact absurd hseen h.seen
    refine ⟨h.carried, ?_, h.cached, fun hmem => hin (List.mem_cons_of_mem k hmem), ?_⟩
    · simp [Poll.input, hv]
    · simp [Poll.input, hv, hin List.mem_cons_self]
  · refine ⟨h.carried, ?_, h.cached, fun hmem => hin (List.mem_cons_of_mem k' hmem), ?_⟩
    · simpa only [Poll.input, Table.lookup_insert_eq, if_neg hk] using h.seen
    · have hnew : (p.input t true k' rest).newPending.lookup k = p.newPending.lookup k := by
        unfold Poll.input
        dsimp only
        split_ifs
        · rw [Table.lookup_insert_eq, if_neg hk]
        · rfl
      rw [hnew]
      simpa only [Poll.input, List.mem_cons, hk, false_or] using hdue

variable {rpcOk : Bool}

theorem Poll.Keeps.fetch {id : Text} {rest : List Text} (h : p.Keeps txid k)
    (hne : txid ≠ []) (hholds : node.Holds txid k) (hinputs : p.inputs = []) (htodo : p.todo = id :: rest) :
    (p.fetch node rpcOk id rest).Keeps txid k := by
  have hdue := h.due
  rw [htodo, hinputs] at hdue
  unfold Poll.fetch
  split
  · next tx htx =>
    have hiff : id = txid ↔ k ∈ tx.spends := by
      rcases Option.or_eq_some_iff.mp htx with hcached | ⟨-, hfetched⟩
      · exact h.cached id tx hcached
      · split_ifs at hfetched
        exact hholds.fetched hfetched
    refine ⟨h.carried, h.seen, ?_, hiff.mpr, ?_⟩
    · intro id' tx' hlookup
      rw [Table.lookup_insert_eq] at hlookup
      split_ifs at hlookup with hid
      · obtain rfl := Option.some.inj hlookup
        rw [hid, hiff]
      · exact h.cached id' tx' hlookup
    · rcases hdue with hmem | hmem | hnew
      · rcases List.mem_cons.mp hmem with heq | hlater
        · exact Or.inr (Or.inl (hiff.mp heq.symm))
        · exact Or.inl hlater
      · simp at hmem
      · exact Or.inr (Or.inr hnew)
  · refine ⟨h.carried, h.seen, h.cached, h.inputs, ?_⟩
    by_cases hid : id = txid
    · -- the transaction cannot be fetched, and keeps the entry it has
      have hcarried := lookup_pendingSpendsByTxid hne h.carried
      have hmem : k ∈ pendingSpendsByTxid p.carryForward txid := Finmap.mem_iff.mpr ⟨txid, hcarried⟩
      rw [hid, Finmap.lookup_union_left hmem]
      exact Or.inr (Or.inr hcarried)
    · have hother := lookup_pendingSpendsByTxid_of_ne hid h.carried
      rw [Finmap.lookup_union_right (Finmap.lookup_eq_none.mp hother)]
      rcases hdue with hmem | hmem | hnew
      · rcases List.mem_cons.mp hmem with heq | hlater
        · exact absurd heq.symm hid
        · exact Or.inl hlater
      · simp at hmem
      · exact Or.inr (Or.inr hnew)

theorem PendingState.Held.pollTick (h : s.Held txid k) (hne : txid ≠ [])
    (hholds : s.node.Holds txid k) (hunspent : s.idx.store.Unspent k) : (pollTick s rpcOk true).Held txid k := by
  have hpoll := h.poll
  unfold Indexer.pollTick
  cases hpc : s.poll with
  | idle =>
    cases rpcOk with
    | true => exact ⟨h.pending, hholds.1, h.notes⟩
    | false => exact h
  | listed txids =>
    rw [hpc] at hpoll
    refine ⟨h.pending, ⟨h.pending, ?_, ?_, ?_, Or.inl hpoll⟩, h.notes⟩
    · simp
    · simp
    · simp
  | scan p =>
    rw [hpc] at hpoll
    dsimp only
    split
    · next k' rest hinputs => exact ⟨h.pending, hpoll.input hunspent hinputs, h.notes⟩
    · next id rest hinputs htodo => exact ⟨h.pending, hpoll.fetch hne hholds hinputs htodo, h.notes⟩
    · next hinputs htodo =>
      have hdue := hpoll.due
      rw [hinputs, htodo] at hdue
      simp only [List.not_mem_nil, false_or] at hdue
      exact ⟨hdue, trivial, h.notes⟩

variable {note : NoteCall}

theorem NotesQuiet.insert {notes : Table ℕ NoteCall} (h : NotesQuiet txid k notes) (id : ℕ)
    (hnote : note.txid ≠ txid → k ∉ note.inputs ∧ note.found ≠ some k) : NotesQuiet txid k (notes.insert id note) := by
  intro id' note' hlookup
  rw [Table.lookup_insert_eq] at hlookup
  split_ifs at hlookup
  · obtain rfl := Option.some.inj hlookup
    exact hnote
  · exact h id' note' hlookup

variable {id : ℕ}

theorem NotesQuiet.noteStart {txid' : Text} (h : NotesQuiet txid k s.notes)
    (hholds : s.node.Holds txid k) : NotesQuiet txid k (noteStart s id txid' rpcOk).notes := by
  unfold Indexer.noteStart
  split
  · next tx _ hfetch =>
    apply h.insert id
    intro hne
    split_ifs at hfetch
    exact ⟨fun hmem => hne ((hholds.fetched hfetch).mpr hmem), nofun⟩
  · exact h

theorem noteStart_idx (s : PendingState) (id : ℕ) (txid : Text) (rpcOk : Bool) :
    (noteStart s id txid rpcOk).idx = s.idx := by
  unfold noteStart
  split <;> rfl

variable {readOk : Bool}

theorem NotesQuiet.noteTick (h : NotesQuiet txid k s.notes) :
    NotesQuiet txid k (noteTick s id readOk).notes := by
  unfold Indexer.noteTick
  split
  · exact h
  · next note hnote =>
    have hquiet := h id note hnote
    split
    · apply h.insert id
      intro hne
      exact ⟨(hquiet hne).1, nofun⟩
    · next k' rest hfound hinputs =>
      apply h.insert id
      intro hne
      have hnot := (hquiet hne).1
      rw [hinputs, List.mem_cons, not_or] at hnot
      refine ⟨hnot.2, ?_⟩
      split_ifs
      · exact fun heq => hnot.1 (Option.some.inj heq).symm
      · nofun
    · intro id' note' hlookup
      rw [Table.lookup_erase_eq] at hlookup
      split_ifs at hlookup
      exact h id' note' hlookup

theorem noteTick_pending (h : NotesQuiet txid k s.notes)
    (hpending : s.idx.pendingSpends.lookup k = some txid) :
    (noteTick s id readOk).idx.pendingSpends.lookup k = some txid := by
  unfold noteTick
  split
  · exact hpending
  · next note hnote =>
    split
    · next k' hfound =>
      simp only [Index.setPendingSpend, Table.lookup_insert_eq]
      split_ifs with hk
      · by_contra hne
        exact (h id note hnote fun heq => hne (congrArg some heq)).2 (hk ▸ hfound)
      · exact hpending
    · exact hpending
    · exact hpending

theorem noteTick_poll (s : PendingState) (id : ℕ) (readOk : Bool) : (noteTick s id readOk).poll = s.poll := by
  unfold noteTick
  split
  · rfl
  · split <;> rfl

theorem noteStart_poll (s : PendingState) (id : ℕ) (txid : Text) (rpcOk : Bool) :
    (noteStart s id txid rpcOk).poll = s.poll := by
  unfold noteStart
  split <;> rfl

theorem Index.write_pendingSpends (idx : Index) (fn : Store → Meta → Except String (Store × Meta)) :
    (idx.write fn).pendingSpends = idx.pendingSpends := by
  unfold Index.write
  split
  · rfl
  · split <;> rfl

theorem Index.SameChain.pendingSpends {idx idx' : Index} (h : idx.SameChain idx') :
    idx'.pendingSpends = idx.pendingSpends := by
  obtain ⟨_, _, _, rfl⟩ := h
  rfl

theorem Index.step_pendingSpends (idx : Index) (e : Event) :
    (Index.step crypto ec idx e).pendingSpends = idx.pendingSpends := by
  cases e with
  | applyBlock block => exact idx.write_pendingSpends _
  | undoBlock height => exact idx.write_pendingSpends _
  | reset =>
    unfold Index.step Index.reset
    dsimp only
    split <;> rfl
  | publishOrder o clock => exact (sameChain_publishOrder idx o false clock).pendingSpends
  | adoptMirroredOrder o clock => exact (sameChain_publishOrder idx o true clock).pendingSpends
  | cancelOrder txid vout sig clock => exact (sameChain_cancelOrder idx txid vout sig clock).pendingSpends

/-- The transaction waits, its position is unspent, and the step reads the store without a failure. -/
def Watched (txid : Text) (k : Outpoint) (s : PendingState) (e : PendingEvent) : Prop :=
  s.node.Holds txid k ∧ s.idx.store.Unspent k ∧ e.readsOk = true

instance (s : PendingState) (e : PendingEvent) : Decidable (Watched txid k s e) := inferInstanceAs (Decidable (_ ∧ _))

theorem PendingState.Held.step {e : PendingEvent} (h : s.Held txid k) (hne : txid ≠ []) (hev : Watched txid k s e) :
    (pendingStep crypto ec s e).Held txid k := by
  obtain ⟨hholds, hunspent, hreads⟩ := hev
  cases e with
  | node node => exact ⟨h.pending, h.poll, h.notes⟩
  | index e =>
    refine ⟨?_, h.poll, h.notes⟩
    rw [pendingStep, Index.step_pendingSpends]
    exact h.pending
  | poll rpcOk readOk =>
    obtain rfl : readOk = true := hreads
    exact h.pollTick hne hholds hunspent
  | call id txid' rpcOk =>
    refine ⟨?_, ?_, h.notes.noteStart hholds⟩
    · rw [pendingStep, noteStart_idx]
      exact h.pending
    · rw [pendingStep, noteStart_poll]
      exact h.poll
  | note id readOk =>
    refine ⟨noteTick_pending h.notes h.pending, ?_, h.notes.noteTick⟩
    rw [pendingStep, noteTick_poll]
    exact h.poll

/-- While the call runs and the poller rests: the call has the outpoint before it, or has set it. -/
structure PendingState.Noting (id : ℕ) (txid : Text) (k : Outpoint) (s : PendingState) : Prop where
  poll : s.poll = .idle
  notes : NotesQuiet txid k s.notes
  due : (∃ note, s.notes.lookup id = some note ∧ note.txid = txid ∧ (k ∈ note.inputs ∨ note.found = some k)) ∨
    s.idx.pendingSpends.lookup k = some txid

theorem PendingState.Noting.start (hidle : s.poll = .idle) (hquiet : NotesQuiet txid k s.notes)
    (hfree : s.notes.lookup id = none) (hholds : s.node.Holds txid k) : (noteStart s id txid true).Noting id txid k := by
  obtain ⟨tx, htx, hspends⟩ := hholds.visible
  refine ⟨(noteStart_poll s id txid true).trans hidle, hquiet.noteStart hholds, Or.inl ?_⟩
  simp only [noteStart, hfree, htx, if_true]
  exact ⟨_, Finmap.lookup_insert _, rfl, Or.inl hspends⟩

theorem PendingState.Noting.held (h : s.Noting id txid k) (hreturned : s.notes.lookup id = none) :
    s.Held txid k := by
  refine ⟨?_, h.poll ▸ trivial, h.notes⟩
  rcases h.due with ⟨note, hnote, -⟩ | hpending
  · rw [hreturned] at hnote
    cases hnote
  · exact hpending

theorem noteStart_lookup {id' : ℕ} {txid' : Text} (h : s.notes.lookup id = some note) :
    (noteStart s id' txid' rpcOk).notes.lookup id = some note := by
  unfold noteStart
  split
  · next tx hfree _ =>
    have hid : id ≠ id' := by
      rintro rfl
      rw [h] at hfree
      cases hfree
    rw [Table.lookup_insert_eq, if_neg hid, h]
  · exact h

theorem noteTick_lookup_of_ne {id' : ℕ} (hid : id ≠ id') :
    (noteTick s id' readOk).notes.lookup id = s.notes.lookup id := by
  unfold noteTick
  split
  · rfl
  · split
    · rw [Table.lookup_insert_eq, if_neg hid]
    · rw [Table.lookup_insert_eq, if_neg hid]
    · rw [Table.lookup_erase_eq, if_neg hid]

theorem noteTick_due (hunspent : s.idx.store.Unspent k)
    (hnote : s.notes.lookup id = some note) (htxid : note.txid = txid)
    (hdue : k ∈ note.inputs ∨ note.found = some k) :
    (∃ note', (noteTick s id true).notes.lookup id = some note' ∧ note'.txid = txid ∧
      (k ∈ note'.inputs ∨ note'.found = some k)) ∨ (noteTick s id true).idx.pendingSpends.lookup k = some txid := by
  unfold noteTick
  rw [hnote]
  dsimp only
  split
  · next k' hfound =>
    rw [hfound] at hdue
    rcases hdue with hmem | heq
    · exact Or.inl ⟨_, Finmap.lookup_insert _, htxid, Or.inl hmem⟩
    · right
      rw [Option.some.inj heq, ← htxid]
      exact Finmap.lookup_insert _
  · next k' rest hfound hinputs =>
    rw [hfound, hinputs] at hdue
    refine Or.inl ⟨_, Finmap.lookup_insert _, htxid, ?_⟩
    rcases hdue with hmem | heq
    · rcases List.mem_cons.mp hmem with rfl | hlater
      · simp [Store.knownUnspent_iff.mpr hunspent]
      · exact Or.inl hlater
    · cases heq
  · next hfound hinputs =>
    rw [hfound, hinputs] at hdue
    simp at hdue

theorem PendingState.Noting.step {e : PendingEvent} (h : s.Noting id txid k) (hev : Watched txid k s e)
    (hrest : e.isPoll = false) : (pendingStep crypto ec s e).Noting id txid k := by
  obtain ⟨hholds, hunspent, hreads⟩ := hev
  cases e with
  | node node => exact ⟨h.poll, h.notes, h.due⟩
  | index e =>
    refine ⟨h.poll, h.notes, ?_⟩
    rw [pendingStep, Index.step_pendingSpends]
    exact h.due
  | poll rpcOk readOk => cases hrest
  | call id' txid' rpcOk =>
    refine ⟨(noteStart_poll s id' txid' rpcOk).trans h.poll, h.notes.noteStart hholds, ?_⟩
    rw [pendingStep, noteStart_idx]
    apply h.due.imp_left
    rintro ⟨note, hnote, hrest⟩
    exact ⟨note, noteStart_lookup hnote, hrest⟩
  | note id' readOk =>
    obtain rfl : readOk = true := hreads
    refine ⟨(noteTick_poll s id' true).trans h.poll, h.notes.noteTick, ?_⟩
    rcases h.due with ⟨note, hnote, htxid, hdue⟩ | hpending
    · by_cases hid : id = id'
      · subst hid
        exact noteTick_due hunspent hnote htxid hdue
      · exact Or.inl ⟨note, (noteTick_lookup_of_ne hid).trans hnote, htxid, hdue⟩
    · exact Or.inr (noteTick_pending h.notes hpending)

theorem pollTick_store (s : PendingState) (rpcOk readOk : Bool) : (pollTick s rpcOk readOk).idx.store = s.idx.store := by
  unfold pollTick
  split
  · split_ifs <;> rfl
  · rfl
  · split <;> rfl

theorem noteTick_store (s : PendingState) (id : ℕ) (readOk : Bool) : (noteTick s id readOk).idx.store = s.idx.store := by
  unfold noteTick
  split
  · rfl
  · split <;> rfl

theorem relayOk_pendingRun (events : List PendingEvent) (h : s.idx.store.RelayOk) :
    (run (pendingStep crypto ec) s events).idx.store.RelayOk := by
  refine List.foldlRecOn (motive := fun s : PendingState => s.idx.store.RelayOk) events _ h ?_
  intro s hs e _
  cases e with
  | node node => exact hs
  | index e => exact hs.step (storeStep e)
  | poll rpcOk readOk =>
    rw [pendingStep, pollTick_store]
    exact hs
  | call id txid rpcOk =>
    rw [pendingStep, noteStart_idx]
    exact hs
  | note id readOk =>
    rw [pendingStep, noteTick_store]
    exact hs

theorem not_listed_of_pending {idx : Index} (hrelay : idx.store.RelayOk) (h : idx.pendingSpends.lookup k = some txid)
    (multiplier : Option ℤ) : ∀ o ∈ idx.listOrders multiplier, o.key ≠ k := by
  intro o ho hkey
  obtain ⟨⟨k', stored⟩, hentry, hopen⟩ := (Multiset.mem_filterMap _ _).mp ho
  have hstored := hrelay.book.orders_keyed k' stored (Finmap.lookup_eq_some_iff.mpr hentry)
  unfold Store.openOrder? at hopen
  cases hpos : idx.store.positions.lookup k' with
  | none => simp [hpos] at hopen
  | some pos =>
    simp only [hpos] at hopen
    split_ifs at hopen with hexcluded
    obtain rfl := Option.some.inj hopen
    have hk : k' = k := hstored.symm.trans hkey
    rw [hk, h] at hexcluded
    exact hexcluded (Or.inr (Or.inr rfl))

end

/-- When no poll overlaps a `NotePendingSpends` call and no call for a conflicting transaction is in flight, the
positions that the transaction spends are pending from the call's return on, for as long as the transaction waits
in the mempool, and their orders are not served. -/
theorem noted_spend_stays_pending (crypto : Crypto) (ec : Btcec) (reorgWindow : ℤ)
    (before during after : List PendingEvent) (id : ℕ) (txid : Text) (k : Outpoint) (hne : txid ≠ [])
    (hidle : (pendingAfter crypto ec reorgWindow before).poll = .idle)
    (hquiet : NotesQuiet txid k (pendingAfter crypto ec reorgWindow before).notes)
    (hfree : (pendingAfter crypto ec reorgWindow before).notes.lookup id = none)
    (hholds : (pendingAfter crypto ec reorgWindow before).node.Holds txid k)
    (hduring : Admissible (pendingStep crypto ec) (fun s e => Watched txid k s e ∧ e.isPoll = false)
      (pendingAfter crypto ec reorgWindow (before ++ [.call id txid true])) during)
    (hreturned : (pendingAfter crypto ec reorgWindow (before ++ [.call id txid true] ++ during)).notes.lookup id = none)
    (hafter : Admissible (pendingStep crypto ec) (Watched txid k)
      (pendingAfter crypto ec reorgWindow (before ++ [.call id txid true] ++ during)) after) :
    let s := pendingAfter crypto ec reorgWindow (before ++ [.call id txid true] ++ during ++ after)
    s.idx.pendingSpends.lookup k = some txid ∧ ∀ multiplier, ∀ o ∈ s.idx.listOrders multiplier, o.key ≠ k := by
  have hempty : (newIndex reorgWindow).store.RelayOk := relayOk_indexAfter crypto ec reorgWindow []
  have hrelay : (pendingAfter crypto ec reorgWindow (before ++ [.call id txid true] ++ during ++ after)).idx.store.RelayOk :=
    relayOk_pendingRun _ hempty
  simp only [pendingAfter, run_append] at hidle hquiet hfree hholds hduring hreturned hafter hrelay ⊢
  have hnoting := run_invariant (P := fun _ s => s.Noting id txid k)
    (PendingState.Noting.start hidle hquiet hfree hholds) (fun _ s e h hev => h.step hev.1 hev.2) hduring
  have hheld := run_invariant (P := fun _ s => s.Held txid k) (hnoting.held hreturned)
    (fun _ s e h hev => h.step hne hev) hafter
  exact ⟨hheld.pending, not_listed_of_pending hrelay hheld.pending⟩

def sampleBook : List PendingEvent := sampleOffer.map .index ++ [.node ⟨[], [sampleMint]⟩]

def sampleTaken : PendingEvent := .node ⟨[sampleMove], [sampleMint]⟩

def sampleNote : List PendingEvent := [.note 0 true, .note 0 true, .note 0 true]

def samplePoll : List PendingEvent := [.poll true true, .poll true true, .poll false true, .poll true true]

theorem noted_spend_stays_pending_fetch_fails :
    (pendingAfter (Crypto.recorded []) (Btcec.recorded []) 15000
      (sampleBook ++ [sampleTaken] ++ [.call 0 sampleMove.txid true] ++ sampleNote ++ samplePoll)).idx.pendingSpends.lookup
        sampleOrder.key = some sampleMove.txid := by
  have hnotes : (pendingAfter (Crypto.recorded []) (Btcec.recorded []) 15000 (sampleBook ++ [sampleTaken])).notes = ∅ := rfl
  have hquiet : NotesQuiet sampleMove.txid sampleOrder.key
      (pendingAfter (Crypto.recorded []) (Btcec.recorded []) 15000 (sampleBook ++ [sampleTaken])).notes := by
    intro id note hlookup
    rw [hnotes, Finmap.lookup_empty] at hlookup
    cases hlookup
  exact (noted_spend_stays_pending (Crypto.recorded []) (Btcec.recorded []) 15000 (sampleBook ++ [sampleTaken]) sampleNote
    samplePoll 0 sampleMove.txid sampleOrder.key (by decide) rfl hquiet (by decide +kernel) (by decide +kernel)
    (by decide +kernel) (by decide +kernel) (by decide +kernel)).1

/-- A poll lists the mempool before the taker's transaction reaches it, and replaces the set after the call has
returned: the order is served again while the transaction waits in the mempool. -/
theorem noted_spend_forgotten :
    let noted := sampleBook ++ [.poll true true, sampleTaken, .call 0 sampleMove.txid true] ++ sampleNote
    let s := pendingAfter (Crypto.recorded []) (Btcec.recorded []) 15000 noted
    let s' := pendingAfter (Crypto.recorded []) (Btcec.recorded []) 15000 (noted ++ [.poll true true, .poll true true])
    s.notes.lookup 0 = none ∧ s.idx.pendingSpends.lookup sampleOrder.key = some sampleMove.txid ∧
      Admissible (pendingStep (Crypto.recorded []) (Btcec.recorded [])) (Watched sampleMove.txid sampleOrder.key) s
        [.poll true true, .poll true true] ∧
      s'.node.Holds sampleMove.txid sampleOrder.key ∧ s'.idx.store.Unspent sampleOrder.key ∧
      s'.idx.pendingSpends.lookup sampleOrder.key = none ∧ sampleOrder.key ∈ (s'.idx.listOrders none).map Order.key := by
  decide +kernel

end Whippet.Indexer
