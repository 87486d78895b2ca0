import Whippet.Indexer.Aggregates

/-! The synchronisation loop `syncOnce` against a node that may reorganise between any two of its calls. -/
namespace Whippet.Indexer
open Lib Primitives Script

structure Node where
  chain : List RPCBlock := []
  known : List RPCBlock := []

def Node.getBlockCount (node : Node) : ℤ := node.chain.length - 1

/-- `getblockhash`, which fails above the tip. -/
def Node.getBlockHash? (node : Node) (height : ℤ) : Option Text :=
  if height < 0 then none else node.chain[height.toNat]?.map RPCBlock.hash

/-- `getblock`, which also finds blocks that are off the active chain. -/
def Node.getBlockVerbose? (node : Node) (hash : Text) : Option RPCBlock := node.known.find? fun b => b.hash = hash

/-- Where `syncOnce` is, between two of its calls. -/
inductive SyncPc
  /-- Not running; says whether the last run returned without error. -/
  | idle (ok : Bool)
  | walk (nodeHeight : ℤ)
  | compare (nodeHeight tip : ℤ) (nodeHash : Text)
  | fetch (nodeHeight next : ℤ)
  | block (nodeHeight next : ℤ) (hash : Text)
  deriving DecidableEq

/-- Whether the call to the node and the two reads of the store succeed at this moment. -/
structure Moment where
  rpcOk : Bool := true
  hashReadOk : Bool := true
  undoReadOk : Bool := true

structure SyncState where
  node : Node := {}
  idx : Index
  pc : SyncPc := .idle false

def Index.nextHeight (startHeight : ℤ) (idx : Index) : ℤ :=
  if idx.tipHeight < 0 then startHeight else idx.tipHeight + 1

section
variable (crypto : Crypto) (startHeight : ℤ)

/-- The head of the rollback loop: stop below the start height, else ask the node for its hash at the tip. -/
def syncWalk (m : Moment) (nodeHeight : ℤ) (s : SyncState) : SyncState :=
  if s.idx.tipHeight < startHeight then { s with pc := .fetch nodeHeight (s.idx.nextHeight startHeight) }
  else
    match if m.rpcOk then s.node.getBlockHash? s.idx.tipHeight else none with
    | none => { s with pc := .idle false }
    | some nodeHash => { s with pc := .compare nodeHeight s.idx.tipHeight nodeHash }

/-- The body of the rollback loop. A failed read of the store looks like an absent record. -/
def syncCompare (m : Moment) (nodeHeight tip : ℤ) (nodeHash : Text) (s : SyncState) : SyncState :=
  let ourHash := if m.hashReadOk then s.idx.hashAtHeight? tip else none
  if ourHash = some nodeHash then { s with pc := .fetch nodeHeight (s.idx.nextHeight startHeight) }
  else if ourHash = none ∧ s.idx.isPruned tip = false then
    { s with pc := .fetch nodeHeight (s.idx.nextHeight startHeight) }
  else if (m.undoReadOk && s.idx.canUndo tip) = false then
    { s with idx := s.idx.reset, pc := .fetch nodeHeight (s.idx.reset.nextHeight startHeight) }
  else { s with idx := s.idx.undoBlock tip, pc := .walk nodeHeight }

def syncFetch (m : Moment) (nodeHeight next : ℤ) (s : SyncState) : SyncState :=
  if nodeHeight < next then { s with pc := .idle true }
  else
    match if m.rpcOk then s.node.getBlockHash? next else none with
    | none => { s with pc := .idle false }
    | some hash => { s with pc := .block nodeHeight next hash }

/-- The block is fetched by its hash and applied. Nothing compares its parent with the tip. -/
def syncBlock (m : Moment) (nodeHeight next : ℤ) (hash : Text) (s : SyncState) : SyncState :=
  match if m.rpcOk then s.node.getBlockVerbose? hash else none with
  | none => { s with pc := .idle false }
  | some block =>
    let idx := s.idx.applyBlock crypto block
    if idx.storeErr = none then { s with idx := idx, pc := .fetch nodeHeight (next + 1) }
    else { s with idx := idx, pc := .idle false }

def syncTick (s : SyncState) (m : Moment) : SyncState :=
  match s.pc with
  | .idle _ => if m.rpcOk then { s with pc := .walk s.node.getBlockCount } else { s with pc := .idle false }
  | .walk nodeHeight => syncWalk startHeight m nodeHeight s
  | .compare nodeHeight tip nodeHash => syncCompare startHeight m nodeHeight tip nodeHash s
  | .fetch nodeHeight next => syncFetch m nodeHeight next s
  | .block nodeHeight next hash => syncBlock crypto m nodeHeight next hash s

/-- Either the node moves to another chain, or the indexer makes its next call. -/
inductive SyncEvent
  | reorganise (chain : List RPCBlock)
  | tick (m : Moment)

def syncStep (s : SyncState) : SyncEvent → SyncState
  | .reorganise chain => { s with node := ⟨chain, chain ++ s.node.known⟩ }
  | .tick m => syncTick crypto startHeight s m

/-- The block that the next call gives to `ApplyBlock`. -/
def commits? (s : SyncState) : SyncEvent → Option RPCBlock
  | .reorganise _ => none
  | .tick m =>
    match s.pc with
    | .block _ _ hash => if m.rpcOk then s.node.getBlockVerbose? hash else none
    | _ => none

end
end Whippet.Indexer
