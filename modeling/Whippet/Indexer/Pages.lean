import Mathlib.Data.Finset.Sort
import Mathlib.Data.List.Lex
import Whippet.Indexer.Amount
import Whippet.Indexer.CancelNonce

/-! The order list as the relay serves it: sorted by key, one page at a time. -/
namespace Whippet.Indexer
open Lib Primitives

def defaultPageLimit : ℤ := 500

def maxPageLimit : ℤ := 1000

structure Page where
  limit : ℤ
  offset : ℤ
  deriving DecidableEq, Repr

namespace Page

def unlimited (p : Page) : Prop := p.limit ≤ 0

instance (p : Page) : Decidable p.unlimited := inferInstanceAs (Decidable (p.limit ≤ 0))

/-- The rows that `LIMIT` and `OFFSET` of `sqlSuffix` leave, one more than the page holds. -/
def window {α : Type} (p : Page) (rows : List α) : List α :=
  if p.unlimited then rows else (rows.drop p.offset.toNat).take (p.limit + 1).toNat

/-- `truncate`: the page, and whether there are rows after it. -/
def truncate {α : Type} (p : Page) (rows : List α) : List α × Bool :=
  if p.unlimited ∨ rows.length ≤ p.limit then (rows, false) else (rows.take p.limit.toNat, true)

theorem truncate_window {α : Type} {p : Page} (hlimit : 0 < p.limit) (rows : List α) :
    (p.truncate (p.window rows)).1 = (rows.drop p.offset.toNat).take p.limit.toNat := by
  have hlimited : ¬ p.unlimited := not_le.mpr hlimit
  rw [truncate, window, if_neg hlimited]
  split_ifs with hshort
  · have hlength := hshort.resolve_left hlimited
    rw [List.length_take] at hlength
    rw [List.take_of_length_le (by omega), List.take_of_length_le (by omega)]
  · rw [List.take_take, min_eq_left (by omega)]

end Page

/-- The parameters of a request for orders, empty where the client does not give them. -/
structure OrdersQuery where
  multiplier : Text := []
  limit : Text := []
  offset : Text := []

def pageErrorMessage : String := "invalid limit or offset: limit must be 1..1000, offset must be >= 0"

/-- The value of a parameter within its bounds, or what stands for it when it is not given. -/
def pageParam (text : Text) (default : ℤ) (valid : ℤ → Bool) : Except String ℤ :=
  if text = [] then .ok default else orFail pageErrorMessage ((parseInt? text).filter valid)

/-- `parsePage`, with the text that the handler answers a bad parameter with. -/
def parsePage (query : OrdersQuery) : Except String Page := do
  let limit ← pageParam query.limit defaultPageLimit fun n => 1 ≤ n ∧ n ≤ maxPageLimit
  let offset ← pageParam query.offset 0 fun n => 0 ≤ n
  return ⟨limit, offset⟩

def parseMultiplier (text : Text) : Except String (Option ℤ) :=
  if text = [] then .ok none else (orFail "invalid multiplier" (parseInt? text)).map some

/-- What the database compares of a key: the bytes of its text. -/
def Outpoint.sortKey (k : Outpoint) : List ℕ :=
  ((k.txid ++ [':'] ++ decimal k.vout.toNat).flatMap String.utf8EncodeChar).map UInt8.toNat

def Outpoint.before (a b : Outpoint) : Prop := a.sortKey ≤ b.sortKey

theorem colon_notMem_decimal (n : ℕ) : ':' ∉ decimal n := by
  rw [decimal, if_neg (by omega)]
  intro hmem
  have hdigit := Nat.isDigit_of_mem_toDigits (by decide) (by decide) hmem
  revert hdigit
  decide

theorem Outpoint.sortKey_injective : Function.Injective Outpoint.sortKey := by
  intro a b h
  have hbytes := List.map_injective_iff.mpr (fun x y hxy => UInt8.toNat_inj.mp hxy) h
  obtain ⟨htxid, hvout⟩ :=
    append_separator_inj (colon_notMem_decimal _) (colon_notMem_decimal _) (flatMap_utf8EncodeChar_injective hbytes)
  have hvout : a.vout.toNat = b.vout.toNat := by exact_mod_cast decimal_injective hvout
  exact Outpoint.ext htxid (UInt32.toNat_inj.mp hvout)

instance : DecidableRel Outpoint.before := fun a b => inferInstanceAs (Decidable (a.sortKey ≤ b.sortKey))

instance : IsTrans Outpoint Outpoint.before := ⟨fun a b _ hab hbc => le_trans (show a.sortKey ≤ b.sortKey from hab) hbc⟩

instance : Std.Antisymm Outpoint.before := ⟨fun _ _ hab hba => Outpoint.sortKey_injective (le_antisymm hab hba)⟩

instance : Std.Total Outpoint.before := ⟨fun a b => le_total a.sortKey b.sortKey⟩

namespace Store

def orderRows (t : Store) (multiplier : Option ℤ) (excluded : Outpoint → Bool) : List Order :=
  (t.orders.keys.sort Outpoint.before).filterMap fun k =>
    (t.orders.lookup k).bind (t.openOrder? multiplier excluded k)

def listOrdersPage (t : Store) (multiplier : Option ℤ) (excluded : Outpoint → Bool) (page : Page) : List Order × Bool :=
  page.truncate (page.window (t.orderRows multiplier excluded))

end Store

namespace Index

def isPendingSpend (idx : Index) (k : Outpoint) : Bool := (idx.pendingSpends.lookup k).isSome

def listOrdersPage (idx : Index) (multiplier : Option ℤ) (page : Page) : List Order × Bool :=
  idx.store.listOrdersPage multiplier idx.isPendingSpend page

/-- A page of orders, and what the headers say about it. -/
structure OrdersReply where
  page : Page
  hasMore : Bool
  orders : List Order

def getOrders (idx : Index) (query : OrdersQuery) : Except String OrdersReply := do
  let multiplier ← parseMultiplier query.multiplier
  let page ← parsePage query
  let (orders, hasMore) := idx.listOrdersPage multiplier page
  return ⟨page, hasMore, orders⟩

end Index

section
variable {t : Store} {idx : Index} {multiplier : Option ℤ} {excluded : Outpoint → Bool} {o : Order} {k : Outpoint}

theorem mem_orderRows : o ∈ t.orderRows multiplier excluded ↔
    ∃ k row, t.orders.lookup k = some row ∧ t.openOrder? multiplier excluded k row = some o := by
  simp only [Store.orderRows, List.mem_filterMap, Finset.mem_sort, Finmap.mem_keys, Option.bind_eq_some_iff]
  exact ⟨fun ⟨k, _, h⟩ => ⟨k, h⟩, fun ⟨k, row, hrow, h⟩ => ⟨k, Finmap.mem_iff.mpr ⟨row, hrow⟩, row, hrow, h⟩⟩

theorem mem_orderRows_iff_listOrders :
    o ∈ idx.store.orderRows multiplier idx.isPendingSpend ↔ o ∈ idx.listOrders multiplier := by
  rw [mem_orderRows, Index.listOrders, Multiset.mem_filterMap]
  constructor
  · rintro ⟨k, row, hrow, h⟩
    exact ⟨⟨k, row⟩, Finmap.lookup_eq_some_iff.mp hrow, h⟩
  · rintro ⟨⟨k, row⟩, hrow, h⟩
    exact ⟨k, row, Finmap.lookup_eq_some_iff.mpr hrow, h⟩

end
end Whippet.Indexer
