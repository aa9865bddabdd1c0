import Mathlib.Data.List.Induction
import TradingLab.Accounting.Journal
import TradingLab.Portfolio.Identity

open ptl.oms ptl.portfolio
open Std (TreeMap)

namespace ptl.accounting

/-! ### One fill -/

/-- The matcher's running position is the book's: the same quantity, and the
same average cost while there is one. -/
structure Mirrors (o : Open) (p : Position) : Prop where
  qty_eq : o.qty = p.quantity
  avg_eq : p.quantity ≠ 0 → o.avg = p.average_cost

/-- The profit of the trade a fill closes, if it closes one. -/
def tradePnl (trade : Option Trade) : Notional := trade.elim 0 Trade.gross_pnl

def tradeCosts (trade : Option Trade) : Notional := trade.elim 0 Trade.costs

theorem Mirrors.basis_eq {o : Open} {p : Position} (hmirrors : Mirrors o p) :
    o.avg * o.qty = p.average_cost * p.quantity := by
  rw [hmirrors.qty_eq]
  by_cases hflat : p.quantity = 0
  · rw [hflat, mul_zero, mul_zero]
  · rw [hmirrors.avg_eq hflat]

/-- A fill moves the matcher and the book alike, and the trade it closes earns
what the book realises. -/
theorem Mirrors.matchFill {o : Open} {p : Position} (hmirrors : Mirrors o p) (f : Fill) :
    Mirrors (o.matchFill f).1 (p.apply f).2 ∧ tradePnl (o.matchFill f).2 = (p.apply f).1 := by
  have hdelta := f.signed_quantity_ne_zero
  have hbasis := hmirrors.basis_eq
  have hqty := hmirrors.qty_eq
  simp only [Open.matchFill, Position.apply, Position.realizedBy, hqty]
  by_cases hopens : p.quantity = 0 ∨ (p.quantity > 0 ↔ f.signed_quantity > 0)
  · have hafter := add_ne_zero_of_opens hdelta hopens
    rw [if_pos hopens, if_pos hopens]
    refine ⟨⟨rfl, fun _ => ?_⟩, rfl⟩
    simp only [Position.nextCost, if_pos hopens, hafter, ne_eq, not_false_eq_true, if_true, if_false]
    rw [← hqty, hbasis, hqty]
  · have hq : p.quantity ≠ 0 := fun hflat => hopens (.inl hflat)
    have havg := hmirrors.avg_eq hq
    rw [if_neg hopens, if_neg hopens]
    by_cases hreverses : |f.signed_quantity| > |p.quantity|
    · rw [if_pos hreverses]
      refine ⟨⟨rfl, fun hafter => ?_⟩, by rw [tradePnl, Option.elim_some, havg]⟩
      simp only [Position.nextCost, if_neg hopens, if_neg hafter, if_pos hreverses]
    · rw [if_neg hreverses]
      by_cases hcloses : p.quantity + f.signed_quantity = 0
      · rw [if_pos hcloses]
        exact ⟨⟨rfl, fun hafter => absurd hcloses hafter⟩, by rw [tradePnl, Option.elim_some, havg]⟩
      · rw [if_neg hcloses]
        refine ⟨⟨rfl, fun _ => ?_⟩, by rw [tradePnl, Option.elim_some, havg]⟩
        simp only [Position.nextCost, if_neg hopens, if_neg hreverses, if_neg hcloses]
        exact havg

/-- A split that changes no quantity changes nothing the matcher can see. -/
theorem Mirrors.apply_split {o : Open} {p : Position} {ratio : Rat} (hmirrors : Mirrors o p)
    (hflat : ratio = 1 ∨ p.quantity = 0) : Mirrors o (p.apply_split ratio) := by
  unfold Position.apply_split
  split
  · exact hmirrors
  · rcases hflat with rfl | hzero
    · refine ⟨?_, fun hopen => ?_⟩
      · simpa using hmirrors.qty_eq
      · simpa using hmirrors.avg_eq (by simpa using hopen)
    · refine ⟨?_, fun hopen => ?_⟩
      · simpa [hzero] using hmirrors.qty_eq
      · exact absurd (by simp [hzero]) hopen

/-- Every cost of a fill goes to the trade it closes or stays with the open
quantity. -/
theorem Open.matchFill_costs (o : Open) (f : Fill) :
    tradeCosts (o.matchFill f).2 + (o.matchFill f).1.costs = o.costs + f.total_cost := by
  simp only [Open.matchFill]
  by_cases hopens : o.qty = 0 ∨ (o.qty > 0 ↔ f.signed_quantity > 0)
  · rw [if_pos hopens, tradeCosts, Option.elim_none, zero_add]
  · have hq : |o.qty| > 0 := abs_pos.mpr fun hflat => hopens (.inl hflat)
    have hwhole : ∀ {closing : Rat}, closing = |o.qty| →
        (if |o.qty| > 0 then closing / |o.qty| else 1) = 1 := by
      rintro closing rfl
      rw [if_pos hq, div_self (ne_of_gt hq)]
    rw [if_neg hopens]
    by_cases hreverses : |f.signed_quantity| > |o.qty|
    · rw [if_pos hreverses, tradeCosts, Option.elim_some, hwhole (min_eq_right (le_of_lt hreverses)),
        mul_one, add_zero]
    · rw [if_neg hreverses]
      by_cases hcloses : o.qty + f.signed_quantity = 0
      · have hneg : f.signed_quantity = -o.qty := by linarith
        have hsame : min |f.signed_quantity| |o.qty| = |o.qty| := by rw [hneg, abs_neg, min_self]
        rw [if_pos hcloses, tradeCosts, Option.elim_some, hwhole hsame, mul_one, add_zero]
      · rw [if_neg hcloses, tradeCosts, Option.elim_some]
        ring

theorem Open.matchFill_instrument {o : Open} {f : Fill} {trade : Trade}
    (htrade : (o.matchFill f).2 = some trade) : trade.instrument = f.instrument := by
  simp only [Open.matchFill] at htrade
  split at htrade
  · cases htrade
  · split at htrade
    · cases htrade
      rfl
    · split at htrade
      · cases htrade
        rfl
      · cases htrade
        rfl

/-! ### All fills -/

/-- The profit of an instrument's trades. -/
def pnlOf (trades : List Trade) (instrument : InstrumentId) : Notional :=
  ((trades.filter fun t => t.instrument = instrument).map Trade.gross_pnl).sum

/-- The costs of all trades. -/
def costsOf (trades : List Trade) : Notional := (trades.map Trade.costs).sum

/-- The costs still attached to open quantity. -/
def Matching.openCosts (m : Matching) : Notional := Table.sum (fun _ o => o.costs) m.open_

theorem matchFills_append (fs : List Fill) (f : Fill) :
    matchFills (fs ++ [f]) = (matchFills fs).step f := by
  rw [matchFills, List.foldl_append]
  rfl

theorem Matching.step_held (m : Matching) (f : Fill) (instrument : InstrumentId) :
    (m.step f).held instrument =
      if f.instrument = instrument then ((m.held f.instrument).matchFill f).1
      else m.held instrument := by
  simp only [Matching.step, Matching.held, Table.getElem?_insert_eq_ite]
  split <;> rfl

theorem Matching.step_pnlOf (m : Matching) (f : Fill) (instrument : InstrumentId) :
    pnlOf (m.step f).trades instrument = pnlOf m.trades instrument +
      if f.instrument = instrument then tradePnl ((m.held f.instrument).matchFill f).2 else 0 := by
  simp only [Matching.step, pnlOf, List.filter_append, List.map_append, List.sum_append]
  congr 1
  cases htrade : ((m.held f.instrument).matchFill f).2 with
  | none => simp [tradePnl]
  | some trade =>
    have hinstrument := Open.matchFill_instrument htrade
    by_cases hsame : f.instrument = instrument
    · simp [hinstrument, hsame, tradePnl]
    · simp [hinstrument, hsame]

theorem Matching.step_costs (m : Matching) (f : Fill) :
    costsOf (m.step f).trades + (m.step f).openCosts = costsOf m.trades + m.openCosts + f.total_cost := by
  have hone := (m.held f.instrument).matchFill_costs f
  have hopen : (m.step f).openCosts =
      m.openCosts - (m.held f.instrument).costs + ((m.held f.instrument).matchFill f).1.costs := by
    simp only [Matching.openCosts, Matching.step, Matching.held]
    cases hheld : m.open_[f.instrument]? with
    | none => rw [Table.sum_insert_new _ _ hheld, Option.getD_none, sub_zero]
    | some old => rw [Table.sum_insert_existing _ _ hheld, Option.getD_some]
  have htrades : costsOf (m.step f).trades =
      costsOf m.trades + tradeCosts ((m.held f.instrument).matchFill f).2 := by
    simp only [costsOf, Matching.step, List.map_append, List.sum_append]
    congr 1
    cases ((m.held f.instrument).matchFill f).2 with
    | none => rfl
    | some trade => simp [tradeCosts]
  rw [htrades, hopen]
  linarith

/-- The costs of all fills are on trades or attached to open quantity. -/
theorem matchFills_costs (fs : List Fill) :
    costsOf (matchFills fs).trades + (matchFills fs).openCosts = (fs.map Fill.total_cost).sum := by
  induction fs using List.reverseRecOn with
  | nil => exact zero_add _
  | append_singleton fs f ih =>
    rw [matchFills_append, Matching.step_costs, ih, List.map_append, List.sum_append]
    simp

end ptl.accounting
