import Whippet.Faucet.Liquidity
import Whippet.Lib.Run
import Mathlib.Algebra.Order.BigOperators.Group.List

/-! The caps of the liquidity engine hold where no order that is evaluated asks for a negative payment, or for one that
takes the day's sum out of 64 bits. -/
namespace Whippet.Faucet.Liquidity
open Lib
open Indexer (Text)

def totalAmount (rows : List Purchase) : ℤ := (rows.map (·.amount.toInt)).sum

theorem toInt_addAmount {total next : Int64} {row : Purchase} (h : addAmount? total row = some next) :
    next.toInt = total.toInt + row.amount.toInt := by
  unfold addAmount? at h
  obtain ⟨⟨h0, h1⟩, hnext⟩ := Option.ite_none_right_eq_some.mp h
  obtain rfl := Option.some.inj hnext
  exact Int64.toInt_ofInt_of_le h0 h1

theorem toInt_sumAmounts {rows : List Purchase} {total : Int64} (h : sumAmounts? rows = some total) :
    total.toInt = totalAmount rows := by
  suffices hsum : ∀ start, rows.foldlM addAmount? start = some total → total.toInt = start.toInt + totalAmount rows by
    simpa using hsum 0 h
  clear h
  induction rows with
  | nil =>
    intro start h
    obtain rfl := Option.some.inj h
    simp [totalAmount]
  | cons row rows ih =>
    intro start h
    rw [List.foldlM_cons, Option.bind_eq_bind, Option.bind_eq_some_iff] at h
    obtain ⟨next, hnext, hrest⟩ := h
    rw [ih _ hrest, toInt_addAmount hnext]
    simp only [totalAmount, List.map_cons, List.sum_cons]
    omega

structure Eligible (s : Engine) (order : Order) : Prop where
  par : order.paymentValue ≤ order.backingValue
  lineage : s.getPurchaseCount order.origin < 4
  daily : ∃ dailySpend, sumAmounts? s.rowsToday = some dailySpend ∧ dailySpend + order.paymentValue ≤ s.dailySpendCap

theorem query_mapError_eq_ok {α : Type} {error : Option String} {answer : Except String α} {f : String → String} {a : α} :
    (query error answer).mapError f = .ok a ↔ error = none ∧ answer = .ok a := by
  cases error with
  | none => cases answer <;> simp [query, Except.mapError]
  | some e => simp [query, Except.mapError]

theorem isEligible_eq_ok {s : Engine} {order : Order} {errors : QueryErrors} {u : Unit}
    (h : s.isEligible order errors = .ok u) : Eligible s order := by
  simp only [Engine.isEligible, bind_eq_ok, failIf_eq_ok, orFail_eq_ok, query_mapError_eq_ok, Engine.getDailySpend] at h
  obtain ⟨-, hpar, -, -, token, -, -, -, count, ⟨-, hcount⟩, -, hmany, spend, -, -, -, -, -, daily, ⟨-, hdaily⟩, hcap⟩ := h
  obtain rfl := Except.ok.inj hcount
  exact ⟨Int64.not_lt.mp hpar, not_le.mp hmany, daily, hdaily, Int64.not_lt.mp hcap⟩

/-- What a step does to the ledger: nothing, or it adds the purchase of an eligible order. -/
inductive StepCase (s : Engine) : Event → Engine → Prop
  | keep {e : Event} {s' : Engine} (purchases : s'.purchases = s.purchases) (bought : s'.bought = s.bought)
      (cap : s'.dailySpendCap = s.dailySpendCap) : StepCase s e s'
  | buy {i : ℕ} {errors : QueryErrors} {elapsed : ℕ} {order : Order} (hget : s.orders[i]? = some order)
      (heligible : Eligible s order) :
      StepCase s (.evaluate i errors elapsed) ({ s with now := s.now + elapsed }.recordPurchase order.origin order)

theorem step_cases (s : Engine) (e : Event) : StepCase s e (step s e) := by
  cases e with
  | wait nanos => exact .keep rfl rfl rfl
  | reload tokens orders => exact .keep rfl rfl rfl
  | evaluate i errors elapsed =>
    have hself : StepCase s (.evaluate i errors elapsed) s := .keep rfl rfl rfl
    simp only [step]
    split
    next => exact hself
    next order hget =>
      split
      next => exact hself
      next heligible => exact .buy hget (isEligible_eq_ok heligible)

/-- The order that is evaluated asks for no negative payment, and for none that takes the day's sum out of 64 bits. -/
def Sane (s : Engine) : Event → Prop
  | .wait _ | .reload .. => True
  | .evaluate i _ _ => ∀ order ∈ s.orders[i]?, 0 ≤ order.paymentValue.toInt ∧
      totalAmount s.rowsToday + order.paymentValue.toInt < 2 ^ 63

instance (s : Engine) : ∀ e, Decidable (Sane s e)
  | .wait _ | .reload .. => inferInstanceAs (Decidable True)
  | .evaluate i _ _ => inferInstanceAs (Decidable (∀ order ∈ s.orders[i]?, _ ∧ _))

structure Bounded (s : Engine) : Prop where
  par : ∀ order ∈ s.bought, order.paymentValue ≤ order.backingValue
  lineage : ∀ origin, s.getPurchaseCount origin ≤ 4

theorem Bounded.step {s : Engine} (h : Bounded s) (e : Event) : Bounded (step s e) := by
  generalize hs : Liquidity.step s e = s'
  have hcase := step_cases s e
  rw [hs] at hcase
  cases hcase with
  | keep purchases bought cap =>
    refine ⟨bought ▸ h.par, ?_⟩
    unfold Engine.getPurchaseCount
    rw [purchases]
    exact h.lineage
  | @buy i errors elapsed order hget heligible =>
    refine ⟨?_, ?_⟩
    · intro o ho
      rcases List.mem_append.mp ho with ho | ho
      · exact h.par o ho
      · rw [List.mem_singleton.mp ho]
        exact heligible.par
    · intro origin
      have hold := h.lineage origin
      have hnew := heligible.lineage
      unfold Engine.getPurchaseCount at hold hnew ⊢
      simp only [Engine.recordPurchase, List.countP_append, List.countP_singleton]
      split_ifs with horigin
      · simp only [decide_eq_true_eq] at horigin
        rw [horigin] at hnew
        omega
      · omega

/-- The ledger of a run of sane steps. -/
structure Ledger (s : Engine) : Prop where
  nonneg : ∀ row ∈ s.purchases, 0 ≤ row.amount.toInt
  daily : ∀ day, spentOn day s.purchases ≤ s.dailySpendCap.toInt

theorem unix_mono {a b : ℤ} (h : a ≤ b) : unix a ≤ unix b := Int.ediv_le_ediv (by norm_num) h

theorem spentOn_nonneg (day : ℤ) (rows : List Purchase) : 0 ≤ spentOn day rows := by
  refine List.sum_nonneg fun v hv => ?_
  obtain ⟨row, -, rfl⟩ := List.mem_map.mp hv
  exact le_max_right _ _

theorem spentOn_append (day : ℤ) (rows : List Purchase) (row : Purchase) : spentOn day (rows ++ [row]) =
    spentOn day rows + if row.timestamp / 86400 = day then max row.amount.toInt 0 else 0 := by
  simp only [spentOn, List.filter_append, List.map_append, List.sum_append]
  by_cases h : row.timestamp / 86400 = day <;> simp [h]

theorem spentOn_le_rowsToday {s : Engine} (hnonneg : ∀ row ∈ s.purchases, 0 ≤ row.amount.toInt) {day : ℤ}
    (hday : unix s.now / 86400 ≤ day) : spentOn day s.purchases ≤ totalAmount s.rowsToday := by
  have hmax : spentOn day s.purchases =
      ((s.purchases.filter fun row => row.timestamp / 86400 = day).map (·.amount.toInt)).sum := by
    unfold spentOn
    congr 1
    apply List.map_congr_left
    intro row hrow
    exact max_eq_left (hnonneg row (List.mem_of_mem_filter hrow))
  have hsub : (s.purchases.filter fun row => row.timestamp / 86400 = day).Sublist s.rowsToday := by
    apply List.monotone_filter_right
    intro row hrow
    have hrow := of_decide_eq_true hrow
    refine decide_eq_true ?_
    unfold startOfDay
    omega
  rw [hmax]
  refine (hsub.map (·.amount.toInt)).sum_le_sum fun v hv => ?_
  obtain ⟨row, hrow, rfl⟩ := List.mem_map.mp hv
  exact hnonneg row (List.mem_of_mem_filter hrow)

theorem Ledger.step {s : Engine} (h : Ledger s) {e : Event} (hsane : Sane s e) : Ledger (step s e) := by
  generalize hs : Liquidity.step s e = s'
  have hcase := step_cases s e
  rw [hs] at hcase
  cases hcase with
  | keep purchases bought cap =>
    refine ⟨purchases ▸ h.nonneg, ?_⟩
    rw [purchases, cap]
    exact h.daily
  | @buy i errors elapsed order hget heligible =>
    obtain ⟨hpay, hsum⟩ := hsane order hget
    have hlater : unix s.now ≤ unix (s.now + elapsed) := unix_mono (by omega)
    refine ⟨?_, ?_⟩
    · intro row hrow
      rcases List.mem_append.mp hrow with hrow | hrow
      · exact h.nonneg row hrow
      · rw [List.mem_singleton.mp hrow]
        exact hpay
    · intro day
      have hold := h.daily day
      simp only [Engine.recordPurchase, spentOn_append]
      split_ifs with hday
      · obtain ⟨dailySpend, hdaily, hcap⟩ := heligible.daily
        have hspent : spentOn day s.purchases ≤ totalAmount s.rowsToday := by
          refine spentOn_le_rowsToday h.nonneg ?_
          rw [← hday]
          exact Int.ediv_le_ediv (by norm_num) hlater
        have h0 : 0 ≤ totalAmount s.rowsToday := (spentOn_nonneg day s.purchases).trans hspent
        have htotal := toInt_add_eq (toInt_sumAmounts hdaily) rfl (by omega) hsum
        rw [int64_le_iff htotal rfl] at hcap
        rw [max_eq_left hpay]
        omega
      · omega

/-- In every run of sane steps the caps hold; par and the four purchases of a lineage hold in every run. -/
theorem liquidity_caps_hold {s : Engine} (hfresh : Fresh s) (events : List Event) :
    (Admissible step Sane s events → WithinCaps (run step s events)) ∧
      (∀ order ∈ (run step s events).bought, order.paymentValue ≤ order.backingValue) ∧
      ∀ origin, (run step s events).getPurchaseCount origin ≤ 4 := by
  have hbounded : Bounded (run step s events) := by
    refine run_invariant (P := fun _ s => Bounded s) ?_ (fun _ s e h _ => h.step e)
      (admissible_of_forall (Q := fun _ => True) (fun _ _ => trivial) s)
    exact ⟨by simp [hfresh.bought], by simp [Engine.getPurchaseCount, hfresh.purchases]⟩
  refine ⟨fun hsane => ?_, hbounded.par, hbounded.lineage⟩
  have hledger : Ledger (run step s events) := by
    refine run_invariant (P := fun _ s => Ledger s) ?_ (fun _ s e h hsane => h.step hsane) hsane
    exact ⟨by simp [hfresh.purchases], by simp [hfresh.purchases, spentOn, hfresh.cap_pos.le]⟩
  exact ⟨hledger.daily, hbounded.par, hbounded.lineage⟩

namespace CapSample

def engine : Engine := ⟨0, 1000, fun _ => none, [], [], []⟩

def token : TokenInfo := ⟨[], 1, 1000000, 2⟩

def orders (payments : List Int64) : List Order := payments.map fun payment => ⟨[], 0, payment, 2000, []⟩

def events (payments : List Int64) : List Event :=
  [.reload [token] (orders payments), .evaluate 0 {} 0, .wait 1, .evaluate 1 {} 1]

theorem fresh : Fresh engine := ⟨by decide, rfl, rfl⟩

end CapSample

open CapSample

/-- A negative payment makes room for one above the cap. -/
theorem liquidity_cap_exceeded :
    Fresh engine ∧ ¬ spentOn 0 (run step engine (events [-500, 1500])).purchases ≤ engine.dailySpendCap.toInt :=
  ⟨fresh, by decide +kernel⟩

/-- Two purchases that use up the cap. -/
theorem liquidity_caps_hold_exact :
    (run step engine (events [400, 600])).bought.length = 2 ∧ WithinCaps (run step engine (events [400, 600])) :=
  ⟨by decide +kernel, (liquidity_caps_hold fresh (events [400, 600])).1 (by decide +kernel)⟩

end Whippet.Faucet.Liquidity
