import Whippet.Indexer.Orders

/-! The POST handler of the faucet, one step for each query, clock reading and node call. -/
namespace Whippet.Faucet
open Indexer (Text decimal)

/-- A claim as it reaches the handler, with the address that `clientIP` finds. -/
structure Post where
  address : Text
  ip : Text
  ua : Text
  cookie : Option Text
  deriving DecidableEq, Repr

/-- What the rate limit knows the client by. Without a cookie it is the empty text. -/
def Post.faucetID (r : Post) : Text := r.cookie.getD []

structure Row where
  ip : Text
  ua : Text
  cookie : Text
  address : Text
  timestamp : ℤ
  deriving DecidableEq, Repr

structure Config where
  faucetAmount : Option Text
  dailyClaimLimit : Option Text
  deriving DecidableEq, Repr

def atoi? (text : Text) : Option ℤ :=
  let (negative, digits) := match text with
    | '-' :: digits => (true, digits)
    | '+' :: digits => (false, digits)
    | digits => (false, digits)
  if digits = [] ∨ digits.all Char.isDigit = false then none
  else
    let n : ℤ := Nat.ofDigitChars 10 digits 0
    let n := if negative then -n else n
    if -2 ^ 63 ≤ n ∧ n < 2 ^ 63 then some n else none

/-- `getDailyClaimLimit`, where the query itself succeeds. -/
def Config.limit? (config : Config) : Option ℤ := config.dailyClaimLimit.bind atoi?

/-- Where a handler is. A clock is read in a step of its own, since time passes before the query that uses it. -/
inductive Pc (α : Type)
  | validateAddress
  | readCutoff
  | countIp (cutoff : ℤ)
  | countCookie (cutoff : ℤ)
  | getDailyClaimLimit
  | readToday (dailyLimit : ℤ)
  | getClaimsToday (dailyLimit startOfDay : ℤ)
  | getFaucetAmount
  | sendToAddress (faucetAmount : α)
  | readTimestamp (txid : Text)
  | logRequest (txid : Text) (timestamp : ℤ)
  /-- The response is written. A page is told by its transaction id. -/
  | done (status : ℕ) (body : String)
  deriving DecidableEq, Repr

structure Proc (α : Type) where
  post : Post
  pc : Pc α
  deriving DecidableEq, Repr

/-- A successful `SendToAddress`: when it was, in Unix seconds, and for which request. -/
structure Send (α : Type) where
  time : ℤ
  amount : α
  address : Text
  ip : Text
  cookie : Option Text
  deriving DecidableEq, Repr

/-- The faucet: the clock in nanoseconds, the database, the handlers that were started, the cookies set so far, and
what the node has sent. -/
structure State (α : Type) where
  now : ℤ
  config : Config
  requests : List Row := []
  procs : List (Proc α) := []
  issued : List Text := []
  sends : List (Send α) := []

/-- What a call of a step answers: whether it succeeds, the verdict of `validateaddress`, and the transaction id of
`sendtoaddress`. -/
structure Answer where
  ok : Bool := true
  isValid : Bool := true
  txid : Text := []

def unix (nanos : ℤ) : ℤ := nanos / 10 ^ 9

def startOfDay (seconds : ℤ) : ℤ := seconds / 86400 * 86400

def tooSoon {α : Type} : Pc α := .done 429 "You can only request coins once every 24 hours."

section
variable {α : Type} (parseFloat? : Text → Option α)

/-- The next step of a handler, and where it is then. -/
def handle (s : State α) (r : Post) (answer : Answer) : Pc α → State α × Pc α
  | .validateAddress =>
    if answer.ok = false then (s, .done 500 "Node error checking address")
    else if answer.isValid = false then (s, .done 400 "Invalid address")
    else
      match r.cookie with
      | some _ => (s, .readCutoff)
      | none => ({ s with issued := s.issued ++ [decimal s.now] }, .readCutoff)
  | .readCutoff => (s, .countIp (unix (s.now - 24 * 3600 * 10 ^ 9)))
  | .countIp cutoff =>
    let count := s.requests.countP fun row => row.ip = r.ip ∧ row.timestamp > cutoff
    if answer.ok = false ∨ count > 0 then (s, tooSoon)
    else if r.faucetID ≠ [] then (s, .countCookie cutoff)
    else (s, .getDailyClaimLimit)
  | .countCookie cutoff =>
    let count := s.requests.countP fun row => row.cookie = r.faucetID ∧ row.timestamp > cutoff
    if answer.ok = false ∨ count > 0 then (s, tooSoon) else (s, .getDailyClaimLimit)
  | .getDailyClaimLimit =>
    match if answer.ok then s.config.limit? else none with
    | none => (s, .done 500 "Daily claim limit not configured.")
    | some dailyLimit => (s, .readToday dailyLimit)
  | .readToday dailyLimit => (s, .getClaimsToday dailyLimit (startOfDay (unix s.now)))
  | .getClaimsToday dailyLimit startOfDay =>
    let claimsToday := s.requests.countP fun row => row.timestamp ≥ startOfDay
    if answer.ok = false then (s, .done 500 "Failed to check daily claims.")
    else if claimsToday ≥ dailyLimit then
      (s, .done 429 "Faucet daily claim limit reached. Try again after midnight UTC.")
    else (s, .getFaucetAmount)
  | .getFaucetAmount =>
    match if answer.ok then s.config.faucetAmount.bind parseFloat? else none with
    | none => (s, .done 500 "Faucet amount not configured.")
    | some faucetAmount => (s, .sendToAddress faucetAmount)
  | .sendToAddress faucetAmount =>
    if answer.ok = false then (s, .done 500 "Error sending coins")
    else ({ s with sends := s.sends ++ [⟨unix s.now, faucetAmount, r.address, r.ip, r.cookie⟩] }, .readTimestamp answer.txid)
  | .readTimestamp txid => (s, .logRequest txid (unix s.now))
  | .logRequest txid timestamp =>
    -- a failed insert is only written to the log
    let row := ⟨r.ip, r.ua, r.faucetID, r.address, timestamp⟩
    ((if answer.ok then { s with requests := s.requests ++ [row] } else s), .done 200 (String.ofList txid))
  | .done status body => (s, .done status body)

/-- Time passes, a claim arrives, or some handler makes its next step. -/
inductive Event
  | wait (nanos : ℕ)
  | post (r : Post)
  | step (i : ℕ) (answer : Answer)

def step (s : State α) : Event → State α
  | .wait nanos => { s with now := s.now + nanos }
  | .post r => { s with procs := s.procs ++ [⟨r, .validateAddress⟩] }
  | .step i answer =>
    match s.procs[i]? with
    | none => s
    | some p =>
      let (s', pc) := handle parseFloat? s p.post answer p.pc
      { s' with procs := s.procs.set i ⟨p.post, pc⟩ }

end

/-- The limits that the faucet promises. -/
structure Limited {α : Type} (s : State α) : Prop where
  daily : ∀ limit, s.config.limit? = some limit → ∀ day, s.sends.countP (fun x => x.time / 86400 = day) ≤ limit.toNat
  perIp : ∀ ip t, s.sends.countP (fun x => x.ip = ip ∧ t ≤ x.time ∧ x.time < t + 86400) ≤ 1
  perCookie : ∀ value ∈ s.issued, ∀ t,
    s.sends.countP (fun x => x.cookie = some value ∧ t ≤ x.time ∧ x.time < t + 86400) ≤ 1

end Whippet.Faucet
