import Whippet.Faucet.Handler
import Whippet.Lib.Checked
import Whippet.Lib.Int64

/-! The liquidity engine of the faucet: which orders it buys, by what the indexer serves and its own ledger says. -/
namespace Whippet.Faucet
open Lib
open Indexer (Text decimal)

/-- What the engine reads of a lineage. `supply` counts token units. -/
structure TokenInfo where
  origin : Text
  multiplier : Int64
  supply : Int64
  holders : Int64
  deriving DecidableEq

structure Order where
  txid : Text
  vout : UInt32
  paymentValue : Int64
  backingValue : Int64
  origin : Text
  deriving DecidableEq

structure Purchase where
  origin : Text
  txidVout : Text
  amount : Int64
  timestamp : ℤ
  deriving DecidableEq

/-- The engine and its ledger, with the clock in nanoseconds and the orders that were bought. -/
structure Engine where
  now : ℤ
  dailySpendCap : Int64
  tokens : Text → Option TokenInfo := fun _ => none
  orders : List Order := []
  purchases : List Purchase := []
  bought : List Order := []

/-- The map that `ReloadFromIndexer` fills; a later entry replaces an earlier one of the same origin. -/
def tokenMap (tokens : List TokenInfo) : Text → Option TokenInfo :=
  tokens.foldl (fun known t origin => if origin = t.origin then some t else known origin) fun _ => none

/-- One row more in a `SUM`, which fails where the sum leaves 64 bits. -/
def addAmount? (total : Int64) (row : Purchase) : Option Int64 :=
  let sum := total.toInt + row.amount.toInt
  if -2 ^ 63 ≤ sum ∧ sum < 2 ^ 63 then some (Int64.ofInt sum) else none

/-- `SUM(amount)`. No rows add up to `NULL`, which is read as zero. -/
def sumAmounts? (rows : List Purchase) : Option Int64 := rows.foldlM addAmount? 0

/-- How the queries of one evaluation fail, if they do. -/
structure QueryErrors where
  purchaseCount : Option String := none
  cumulativeSpend : Option String := none
  dailySpend : Option String := none

def query {α : Type} (error : Option String) (answer : Except String α) : Except String α :=
  match error with
  | some e => .error e
  | none => answer

namespace Engine
variable (engine : Engine)

def getPurchaseCount (origin : Text) : ℕ := engine.purchases.countP fun row => row.origin = origin

def getCumulativeSpend (origin : Text) : Except String Int64 :=
  orFail "integer overflow" (sumAmounts? (engine.purchases.filter fun row => row.origin = origin))

def rowsToday : List Purchase := engine.purchases.filter fun row => row.timestamp ≥ startOfDay (unix engine.now)

def getDailySpend : Except String Int64 := orFail "integer overflow" (sumAmounts? engine.rowsToday)

end Engine

def TokenInfo.maxSpendPerLineage (token : TokenInfo) : Int64 := token.supply / token.multiplier * 20 / 100

/-- `IsEligible`: an error is the reason why not. -/
def Engine.isEligible (engine : Engine) (order : Order) (errors : QueryErrors) : Except String Unit := do
  failIf (order.paymentValue > order.backingValue) "payment_value exceeds backing_value"
  failIf (order.backingValue ≤ 0) "backing_value must be positive"
  let token ← orFail "lineage origin not found" (engine.tokens order.origin)
  failIf (token.holders < 2) "token has fewer than 2 holders"
  let purchaseCount ← (query errors.purchaseCount (.ok (engine.getPurchaseCount order.origin))).mapError
    ("failed to check purchase count: " ++ ·)
  failIf (purchaseCount ≥ 4) "lineage has reached maximum of 4 purchases"
  let cumulativeSpend ← (query errors.cumulativeSpend (engine.getCumulativeSpend order.origin)).mapError
    ("failed to check cumulative spend: " ++ ·)
  failIf (token.multiplier ≤ 0) "token multiplier is not positive"
  failIf (cumulativeSpend + order.paymentValue > token.maxSpendPerLineage) "purchase would exceed 20% of supply cap"
  let dailySpend ← (query errors.dailySpend engine.getDailySpend).mapError ("failed to check daily spend: " ++ ·)
  failIf (dailySpend + order.paymentValue > engine.dailySpendCap) "purchase would exceed daily spend cap"

def Engine.recordPurchase (engine : Engine) (origin : Text) (order : Order) : Engine :=
  let outpoint := order.txid ++ ':' :: decimal order.vout.toNat
  { engine with
    purchases := engine.purchases ++ [⟨origin, outpoint, order.paymentValue, unix engine.now⟩]
    bought := engine.bought ++ [order] }

namespace Liquidity

/-- Time passes, the indexer is read, or an order is evaluated and, if it is eligible, bought some time later. -/
inductive Event
  | wait (nanos : ℕ)
  | reload (tokens : List TokenInfo) (orders : List Order)
  | evaluate (i : ℕ) (errors : QueryErrors) (elapsed : ℕ)

def step (s : Engine) : Event → Engine
  | .wait nanos => { s with now := s.now + nanos }
  | .reload tokens orders => { s with tokens := tokenMap tokens, orders := orders }
  | .evaluate i errors elapsed =>
    match s.orders[i]? with
    | none => s
    | some order =>
      match s.isEligible order errors with
      | .error _ => s
      | .ok _ => { s with now := s.now + elapsed }.recordPurchase order.origin order

/-- The engine before its first purchase. -/
structure Fresh (s : Engine) : Prop where
  cap_pos : 0 < s.dailySpendCap.toInt
  purchases : s.purchases = []
  bought : s.bought = []

def spentOn (day : ℤ) (rows : List Purchase) : ℤ :=
  ((rows.filter fun row => row.timestamp / 86400 = day).map fun row => max row.amount.toInt 0).sum

/-- The caps that the engine promises. -/
structure WithinCaps (s : Engine) : Prop where
  daily : ∀ day, spentOn day s.purchases ≤ s.dailySpendCap.toInt
  par : ∀ order ∈ s.bought, order.paymentValue ≤ order.backingValue
  lineage : ∀ origin, s.getPurchaseCount origin ≤ 4

end Liquidity

end Whippet.Faucet
