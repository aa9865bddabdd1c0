import Mathlib.Algebra.Order.Ring.Abs
import TradingLab.Accounting.Journal
import TradingLab.Execution.Broker.Remainders

/-! What fills do to a quantity held, and what the fills of one order leave of
it when that order is to close it. -/

open ptl.oms ptl.execution

namespace ptl.accounting

/-- What some fills add to the quantity held of an instrument. -/
def net (fs : List Fill) (instrument : InstrumentId) : Qty :=
  (fs.map fun f => if f.instrument = instrument then f.signed_quantity else 0).sum

@[simp] theorem net_nil (i : InstrumentId) : net [] i = 0 := rfl

theorem net_cons (f : Fill) (fs : List Fill) (i : InstrumentId) :
    net (f :: fs) i = (if f.instrument = i then f.signed_quantity else 0) + net fs i := rfl

theorem net_append (fs gs : List Fill) (i : InstrumentId) : net (fs ++ gs) i = net fs i + net gs i := by
  simp [net]

theorem net_concat (fs : List Fill) (f : Fill) (i : InstrumentId) :
    net (fs ++ [f]) i = net fs i + if f.instrument = i then f.signed_quantity else 0 := by
  rw [net_append, net_cons, net_nil, add_zero]

/-- The side that takes from a quantity held. -/
def closingSide (held : Qty) : Side := if 0 < held then .Sell else .Buy

theorem mul_signed_of_closing {held : Qty} {f : Fill} (hside : f.side = closingSide held) :
    held * f.signed_quantity = -(|held| * f.quantity) := by
  unfold closingSide at hside
  split at hside
  · rename_i hlong
    rw [Fill.signed_quantity_sell hside, abs_of_pos hlong, mul_neg]
  · rename_i hshort
    rw [Fill.signed_quantity_buy hside, abs_of_nonpos (not_lt.mp hshort), neg_mul, neg_neg]

theorem mul_signed_of_adding {held : Qty} {f : Fill} (hside : f.side ≠ closingSide held) :
    held * f.signed_quantity = |held| * f.quantity := by
  unfold closingSide at hside
  split at hside
  · rename_i hlong
    have hbuy : f.side = .Buy := by
      cases hcase : f.side with
      | Buy => rfl
      | Sell => exact absurd hcase hside
    rw [Fill.signed_quantity_buy hbuy, abs_of_pos hlong]
  · rename_i hshort
    have hsell : f.side = .Sell := by
      cases hcase : f.side with
      | Buy => exact absurd hcase hside
      | Sell => rfl
    rw [Fill.signed_quantity_sell hsell, abs_of_nonpos (not_lt.mp hshort), mul_neg, neg_mul]

section Closing

variable {held : Qty} {i : InstrumentId} {c : OrderId} {fs : List Fill}

/-- Where no other order takes from it, the closing order's own fills are all that
takes. -/
theorem mul_net_ge (hcloses : ∀ f ∈ fs, f.order_id = c → f.instrument = i ∧ f.side = closingSide held)
    (hothers : ∀ f ∈ fs, f.instrument = i → f.order_id ≠ c → f.side ≠ closingSide held) :
    -(|held| * filledBy fs c) ≤ held * net fs i := by
  induction fs with
  | nil => simp
  | cons f fs ih =>
    have hrest := ih (fun g hg => hcloses g (List.mem_cons_of_mem _ hg))
      (fun g hg => hothers g (List.mem_cons_of_mem _ hg))
    rw [filledBy_cons, net_cons]
    by_cases hid : f.order_id = c
    · obtain ⟨hinstrument, hside⟩ := hcloses f List.mem_cons_self hid
      have hmoved := mul_signed_of_closing hside
      rw [if_pos hid, if_pos hinstrument]
      linarith
    · rw [if_neg hid, zero_add]
      by_cases hinstrument : f.instrument = i
      · have hmoved := mul_signed_of_adding (hothers f List.mem_cons_self hinstrument hid)
        have hadds : 0 ≤ |held| * f.quantity := mul_nonneg (abs_nonneg _) f.quantity_pos.le
        rw [if_pos hinstrument]
        linarith
      · rw [if_neg hinstrument, zero_add]
        exact hrest

/-- Where no other order fills at all, nothing else moves it. -/
theorem mul_net_eq (hcloses : ∀ f ∈ fs, f.order_id = c → f.instrument = i ∧ f.side = closingSide held)
    (halone : ∀ f ∈ fs, f.instrument = i → f.order_id = c) :
    held * net fs i = -(|held| * filledBy fs c) := by
  induction fs with
  | nil => simp
  | cons f fs ih =>
    have hrest := ih (fun g hg => hcloses g (List.mem_cons_of_mem _ hg))
      (fun g hg => halone g (List.mem_cons_of_mem _ hg))
    rw [filledBy_cons, net_cons]
    by_cases hid : f.order_id = c
    · obtain ⟨hinstrument, hside⟩ := hcloses f List.mem_cons_self hid
      have hmoved := mul_signed_of_closing hside
      rw [if_pos hid, if_pos hinstrument]
      linarith
    · have hinstrument : f.instrument ≠ i := fun heq => hid (halone f List.mem_cons_self heq)
      rw [if_neg hid, if_neg hinstrument, zero_add, zero_add]
      exact hrest

/-- A quantity is not reversed by an order that has filled no more than it. -/
theorem held_not_reversed (hcloses : ∀ f ∈ fs, f.order_id = c → f.instrument = i ∧ f.side = closingSide held)
    (hothers : ∀ f ∈ fs, f.instrument = i → f.order_id ≠ c → f.side ≠ closingSide held)
    (hfilled : filledBy fs c ≤ |held|) : 0 ≤ held * (held + net fs i) := by
  have htaken := mul_net_ge hcloses hothers
  have hbound : |held| * filledBy fs c ≤ |held| * |held| := mul_le_mul_of_nonneg_left hfilled (abs_nonneg _)
  have hsquare : held * held = |held| * |held| := (abs_mul_abs_self held).symm
  rw [mul_add]
  linarith

/-- A quantity is gone when the one order that fills has filled all of it. -/
theorem held_closed (hcloses : ∀ f ∈ fs, f.order_id = c → f.instrument = i ∧ f.side = closingSide held)
    (halone : ∀ f ∈ fs, f.instrument = i → f.order_id = c) (hfilled : filledBy fs c = |held|)
    (hheld : held ≠ 0) : held + net fs i = 0 := by
  have htaken := mul_net_eq hcloses halone
  have hsquare : held * held = |held| * |held| := (abs_mul_abs_self held).symm
  have hzero : held * (held + net fs i) = 0 := by
    rw [mul_add, htaken, hfilled]
    linarith
  exact (mul_eq_zero.mp hzero).resolve_left hheld

end Closing

end ptl.accounting
