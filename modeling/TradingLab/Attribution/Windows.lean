import Mathlib.Tactic.Linarith
import Mathlib.Tactic.Ring
import TradingLab.Portfolio.Portfolio

open ptl.oms ptl.portfolio

namespace ptl.attribution

/-- A contribution is positive in every field, so costs are negative. -/
structure PnlDecomposition where
  period_begin : Timestamp := kNoTimestamp
  period_end : Timestamp := kNoTimestamp
  realized : Notional := 0
  unrealized : Notional := 0
  commission : Notional := 0
  exchange_fees : Notional := 0
  slippage : Notional := 0
  borrow : Notional := 0
  carry : Notional := 0
  cash_drag : Notional := 0
  deriving DecidableEq, Repr

def PnlDecomposition.total_costs (d : PnlDecomposition) : Notional :=
  d.commission + d.exchange_fees + d.slippage + d.borrow + d.carry + d.cash_drag

def PnlDecomposition.gross_pnl (d : PnlDecomposition) : Notional := d.realized + d.unrealized

def PnlDecomposition.net_pnl (d : PnlDecomposition) : Notional := d.gross_pnl + d.total_costs

def PnlDecomposition.residual (d : PnlDecomposition) (reported_equity_change : Notional) : Notional :=
  reported_equity_change - d.net_pnl

def PnlDecomposition.closes (d : PnlDecomposition) (reported_equity_change : Notional)
    (tolerance : Rat := 1e-6) : Bool :=
  let r := d.residual reported_equity_change
  is_finite r && decide (|r| ≤ tolerance)

/-- Annualised rates. -/
structure FinancingRates where
  borrow_rate : Rat := 0
  margin_rate : Rat := 0
  cash_rate : Rat := 0
  opportunity_rate : Rat := 0
  deriving DecidableEq, Repr

/-- Of a year of 365 days and a quarter, in nanoseconds. -/
def year_fraction (begin_ end_ : Timestamp) : Rat :=
  if ¬ is_set begin_ ∨ ¬ is_set end_ ∨ end_ ≤ begin_ then 0
  else ((end_ - begin_ : Int) : Rat) / (365.25 * 24 * 3600 * 1e9)

/-- Slippage against the arrival price, in currency. -/
def slippage_cost (fill : Fill) : Notional :=
  if is_finite fill.slippage_bps ∧ 0 < fill.arrival_price then
    fill.slippage_bps * 1e-4 * fill.arrival_price * fill.quantity
  else 0

/-- The fills a period is charged for, of those it is handed. -/
def charged (begin_ end_ : EquityPoint) (fills : List Fill) : List Fill :=
  fills.filter fun fill => ¬ (fill.fill_time < begin_.ts ∨ end_.ts < fill.fill_time)

structure PnlAttributor where
  rates : FinancingRates := {}

/-- What holding the positions of the first point costs and earns. -/
def PnlAttributor.financing (a : PnlAttributor) (begin_ : EquityPoint) (years : Rat)
    (out : PnlDecomposition) : PnlDecomposition :=
  if years ≤ 0 then out
  else
    let gross := begin_.gross_exposure
    let short_notional := max 0 ((gross - begin_.net_exposure) * 0.5)
    let borrowed := max 0 (gross - begin_.equity)
    let financing_cost := borrowed * a.rates.margin_rate * years
    let cash_interest := max 0 begin_.cash * a.rates.cash_rate * years
    { out with
      borrow := -short_notional * a.rates.borrow_rate * years
      carry := cash_interest - financing_cost
      cash_drag :=
        if 0 < a.rates.opportunity_rate ∧ 0 < begin_.equity then
          -max 0 (begin_.equity - gross) * a.rates.opportunity_rate * years
        else out.cash_drag }

def PnlAttributor.decompose_period (a : PnlAttributor) (begin_ end_ : EquityPoint) (fills : List Fill) :
    Result PnlDecomposition :=
  if ¬ is_set begin_.ts ∨ ¬ is_set end_.ts then
    .error (make_error .InvalidArgument "equity observations must carry timestamps")
  else if end_.ts < begin_.ts then
    .error (make_error .InvalidArgument "period end precedes its beginning"
      (to_iso8601 end_.ts ++ " < " ++ to_iso8601 begin_.ts))
  else
    let out : PnlDecomposition := {
      period_begin := begin_.ts
      period_end := end_.ts
      realized := end_.realized_pnl - begin_.realized_pnl
      unrealized := end_.unrealized_pnl - begin_.unrealized_pnl
      commission := -((charged begin_ end_ fills).map Fill.commission).sum
      exchange_fees := -((charged begin_ end_ fills).map Fill.exchange_fee).sum
      slippage := -((charged begin_ end_ fills).map slippage_cost).sum }
    let out := a.financing begin_ (year_fraction begin_.ts end_.ts) out
    if ¬ ([out.realized, out.unrealized, out.commission, out.exchange_fees, out.slippage, out.borrow, out.carry,
        out.cash_drag].all fun v => is_finite v) then
      .error (make_error .InvalidArgument "P&L decomposition produced a non-finite term")
    else .ok out

/-- One period after the other. Each takes the fills up to its end, and leaves
the later ones to the next. -/
def PnlAttributor.decompose_periods (a : PnlAttributor) :
    List EquityPoint → List Fill → Result (List PnlDecomposition)
  | begin_ :: end_ :: curve, sorted =>
    let window := sorted.takeWhile fun fill => fill.fill_time ≤ end_.ts
    match a.decompose_period begin_ end_ window with
    | .error err => .error err
    | .ok period =>
      match a.decompose_periods (end_ :: curve) (sorted.dropWhile fun fill => fill.fill_time ≤ end_.ts) with
      | .error err => .error err
      | .ok periods => .ok (period :: periods)
  | _, _ => .ok []

/-- The sort is stable. -/
def PnlAttributor.decompose_series (a : PnlAttributor) (curve : List EquityPoint) (fills : List Fill) :
    Result (List PnlDecomposition) :=
  if curve.length < 2 then
    .error (make_error .InvalidArgument "P&L decomposition needs at least two equity observations")
  else a.decompose_periods curve (fills.mergeSort fun x y => x.fill_time ≤ y.fill_time)

/-- Sum a series into one decomposition covering the whole span. -/
def aggregate (periods : List PnlDecomposition) : PnlDecomposition :=
  match periods.head?, periods.getLast? with
  | some front, some back => {
      period_begin := front.period_begin
      period_end := back.period_end
      realized := (periods.map PnlDecomposition.realized).sum
      unrealized := (periods.map PnlDecomposition.unrealized).sum
      commission := (periods.map PnlDecomposition.commission).sum
      exchange_fees := (periods.map PnlDecomposition.exchange_fees).sum
      slippage := (periods.map PnlDecomposition.slippage).sum
      borrow := (periods.map PnlDecomposition.borrow).sum
      carry := (periods.map PnlDecomposition.carry).sum
      cash_drag := (periods.map PnlDecomposition.cash_drag).sum }
  | _, _ => {}

/-! ### Prefixes of a sorted list -/

section Prefixes

variable {A : Type*} {p : A → Bool} {l : List A}

/-- Where a property never comes back once it is lost, its prefix is all that
has it. -/
theorem takeWhile_eq_filter (hclosed : l.Pairwise fun a b => p b = true → p a = true) :
    l.takeWhile p = l.filter p := by
  induction l with
  | nil => rfl
  | cons a l ih =>
    obtain ⟨hhead, htail⟩ := List.pairwise_cons.mp hclosed
    cases ha : p a with
    | true => rw [List.takeWhile_cons_of_pos ha, List.filter_cons_of_pos ha, ih htail]
    | false =>
      have hnone : l.filter p = [] := List.filter_eq_nil_iff.mpr fun b hb hpb => by
        rw [hhead b hb hpb] at ha
        cases ha
      rw [List.takeWhile_cons_of_neg (by simp [ha]), List.filter_cons_of_neg (by simp [ha]), hnone]

theorem dropWhile_eq_filter (hclosed : l.Pairwise fun a b => p b = true → p a = true) :
    l.dropWhile p = l.filter fun a => !p a := by
  induction l with
  | nil => rfl
  | cons a l ih =>
    obtain ⟨hhead, htail⟩ := List.pairwise_cons.mp hclosed
    cases ha : p a with
    | true => rw [List.dropWhile_cons_of_pos ha, List.filter_cons_of_neg (by simp [ha]), ih htail]
    | false =>
      have hall : (a :: l).filter (fun b => !p b) = a :: l := by
        refine List.filter_eq_self.mpr fun b hb => ?_
        rcases List.mem_cons.mp hb with rfl | hb
        · rw [ha]
          rfl
        · cases hpb : p b with
          | true =>
            rw [hhead b hb hpb] at ha
            cases ha
          | false => rfl
      rw [List.dropWhile_cons_of_neg (by simp [ha]), hall]

theorem filter_congr_iff {q : A → Bool} (hiff : ∀ a ∈ l, p a = true ↔ q a = true) : l.filter p = l.filter q :=
  List.filter_congr fun a ha => Bool.eq_iff_iff.mpr (hiff a ha)

end Prefixes

/-! ### What each period is charged for -/

/-- The fills after one time, up to another. -/
def between (first last : Timestamp) (fills : List Fill) : List Fill :=
  fills.filter fun f => first < f.fill_time ∧ f.fill_time ≤ last

/-- The costs of a decomposition are those of these fills. -/
structure PnlDecomposition.Charges (d : PnlDecomposition) (fills : List Fill) : Prop where
  commission_eq : d.commission = -(fills.map Fill.commission).sum
  exchange_fees_eq : d.exchange_fees = -(fills.map Fill.exchange_fee).sum
  slippage_eq : d.slippage = -(fills.map slippage_cost).sum

theorem PnlDecomposition.Charges.perm {d : PnlDecomposition} {fs fs' : List Fill} (hcharges : d.Charges fs)
    (hperm : fs.Perm fs') : d.Charges fs' where
  commission_eq := by rw [hcharges.commission_eq, (hperm.map _).sum_eq]
  exchange_fees_eq := by rw [hcharges.exchange_fees_eq, (hperm.map _).sum_eq]
  slippage_eq := by rw [hcharges.slippage_eq, (hperm.map _).sum_eq]

/-- The decomposition of one period without financing. -/
structure PnlDecomposition.Spans (d : PnlDecomposition) (begin_ end_ : EquityPoint) (fills : List Fill) : Prop
    extends d.Charges fills where
  realized_eq : d.realized = end_.realized_pnl - begin_.realized_pnl
  unrealized_eq : d.unrealized = end_.unrealized_pnl - begin_.unrealized_pnl
  unfinanced : d.borrow = 0 ∧ d.carry = 0 ∧ d.cash_drag = 0

theorem sum_total_cost (fs : List Fill) :
    (fs.map Fill.total_cost).sum = (fs.map Fill.commission).sum + (fs.map Fill.exchange_fee).sum :=
  List.sum_map_add

/-- What is left unexplained where the equity moved by the profits and by some
costs: the costs charged and the slippage, less the costs there were. -/
theorem PnlDecomposition.Spans.residual_eq {d : PnlDecomposition} {b e : EquityPoint} {fs : List Fill}
    (hspans : d.Spans b e fs) {costs : Notional}
    (hequity : e.equity - b.equity =
      (e.realized_pnl - b.realized_pnl) + (e.unrealized_pnl - b.unrealized_pnl) - costs) :
    d.residual (e.equity - b.equity) =
      (fs.map Fill.total_cost).sum + (fs.map slippage_cost).sum - costs := by
  obtain ⟨hborrow, hcarry, hdrag⟩ := hspans.unfinanced
  rw [PnlDecomposition.residual, PnlDecomposition.net_pnl, PnlDecomposition.gross_pnl,
    PnlDecomposition.total_costs, hspans.realized_eq, hspans.unrealized_eq, hspans.commission_eq,
    hspans.exchange_fees_eq, hspans.slippage_eq, hborrow, hcarry, hdrag, hequity, sum_total_cost]
  ring

section Periods

variable {begin_ end_ : EquityPoint} {fills : List Fill}

theorem financing_none (years : Rat) {out : PnlDecomposition}
    (hnone : out.borrow = 0 ∧ out.carry = 0 ∧ out.cash_drag = 0) :
    ({} : PnlAttributor).financing begin_ years out = out := by
  obtain ⟨hborrow, hcarry, hdrag⟩ := hnone
  unfold PnlAttributor.financing
  split
  · rfl
  · simp only [mul_zero, zero_mul, sub_zero, lt_self_iff_false, false_and, if_false]
    nth_rewrite 1 [← hborrow]
    rw [← hcarry]

variable (fills) in
/-- Without financing a period of two points in order is always decomposed. -/
theorem decompose_period_ok (hbegin : is_set begin_.ts = true) (hend : is_set end_.ts = true)
    (horder : begin_.ts ≤ end_.ts) :
    ∃ d, ({} : PnlAttributor).decompose_period begin_ end_ fills = .ok d ∧
      d.Spans begin_ end_ (charged begin_ end_ fills) := by
  unfold PnlAttributor.decompose_period
  rw [if_neg (by simp [hbegin, hend]), if_neg (not_lt.mpr horder)]
  dsimp only
  rw [financing_none _ ⟨rfl, rfl, rfl⟩, if_neg (by simp [is_finite])]
  exact ⟨_, rfl, ⟨rfl, rfl, rfl⟩, rfl, rfl, rfl, rfl, rfl⟩

/-- Each decomposition is of its period of the curve, and charges its window. -/
inductive SpansAll (fills : List Fill) : List EquityPoint → List PnlDecomposition → Prop
  | last {p : EquityPoint} : SpansAll fills [p] []
  | cons {b e : EquityPoint} {curve : List EquityPoint} {d : PnlDecomposition} {ds : List PnlDecomposition}
      (hspans : d.Spans b e (between b.ts e.ts fills)) (hrest : SpansAll fills (e :: curve) ds) :
      SpansAll fills (b :: e :: curve) (d :: ds)

end Periods

section Series

/-- Up to the end of a period a sorted cursor holds the fills it is charged for. -/
theorem charged_takeWhile {begin_ end_ : EquityPoint} {sorted rest : List Fill}
    (hclosed : rest.Pairwise fun x y => decide (y.fill_time ≤ end_.ts) = true →
      decide (x.fill_time ≤ end_.ts) = true)
    (hfrom : rest.filter (fun f => begin_.ts ≤ f.fill_time) = sorted.filter fun f => begin_.ts < f.fill_time) :
    charged begin_ end_ (rest.takeWhile fun f => f.fill_time ≤ end_.ts) = between begin_.ts end_.ts sorted := by
  calc charged begin_ end_ (rest.takeWhile fun f => f.fill_time ≤ end_.ts)
      = (rest.filter fun f => begin_.ts ≤ f.fill_time).filter fun f => f.fill_time ≤ end_.ts := by
        rw [takeWhile_eq_filter hclosed, charged, List.filter_filter, List.filter_filter]
        exact filter_congr_iff fun f _ => by
          simp only [Bool.and_eq_true, decide_eq_true_eq, not_or, not_lt]
          exact ⟨fun h => ⟨h.2, h.1.1⟩, fun h => ⟨⟨h.2, h.1⟩, h.1⟩⟩
    _ = between begin_.ts end_.ts sorted := by
        rw [hfrom, between, List.filter_filter]
        exact filter_congr_iff fun f _ => by
          simp only [Bool.and_eq_true, decide_eq_true_eq]
          exact and_comm

/-- After it the cursor holds the fills of the next, none at its beginning. -/
theorem later_dropWhile {begin_ end_ : EquityPoint} {sorted rest : List Fill}
    (hclosed : rest.Pairwise fun x y => decide (y.fill_time ≤ end_.ts) = true →
      decide (x.fill_time ≤ end_.ts) = true) (hnext : begin_.ts ≤ end_.ts)
    (hfrom : rest.filter (fun f => begin_.ts ≤ f.fill_time) = sorted.filter fun f => begin_.ts < f.fill_time) :
    (rest.dropWhile fun f => f.fill_time ≤ end_.ts).filter (fun f => end_.ts ≤ f.fill_time) =
      sorted.filter fun f => end_.ts < f.fill_time := by
  calc (rest.dropWhile fun f => f.fill_time ≤ end_.ts).filter (fun f => end_.ts ≤ f.fill_time)
      = (rest.filter fun f => begin_.ts ≤ f.fill_time).filter fun f => end_.ts < f.fill_time := by
        rw [dropWhile_eq_filter hclosed, List.filter_filter, List.filter_filter]
        exact filter_congr_iff fun f _ => by
          simp only [Bool.and_eq_true, decide_eq_true_eq, Bool.not_eq_true', decide_eq_false_iff_not, not_le]
          exact ⟨fun h => ⟨h.2, hnext.trans h.1⟩, fun h => ⟨le_of_lt h.1, h.1⟩⟩
    _ = sorted.filter fun f => end_.ts < f.fill_time := by
        rw [hfrom, List.filter_filter]
        exact filter_congr_iff fun f _ => by
          simp only [Bool.and_eq_true, decide_eq_true_eq]
          exact ⟨And.left, fun h => ⟨h, hnext.trans_lt h⟩⟩

/-- The cursor over the sorted fills hands each period those after its
beginning, where none of the fills it starts with is at the beginning itself. -/
theorem decompose_periods_ok {sorted : List Fill} (hsorted : sorted.Pairwise fun x y => x.fill_time ≤ y.fill_time)
    {curve : List EquityPoint} {begin_ : EquityPoint} {rest : List Fill}
    (hset : ∀ p ∈ begin_ :: curve, is_set p.ts = true)
    (horder : (begin_ :: curve).IsChain fun p q => p.ts ≤ q.ts)
    (hrest : rest.Sublist sorted)
    (hfrom : rest.filter (fun f => begin_.ts ≤ f.fill_time) = sorted.filter fun f => begin_.ts < f.fill_time) :
    ∃ ds, ({} : PnlAttributor).decompose_periods (begin_ :: curve) rest = .ok ds ∧
      SpansAll sorted (begin_ :: curve) ds := by
  induction curve generalizing begin_ rest with
  | nil => exact ⟨[], rfl, .last⟩
  | cons end_ curve ih =>
    obtain ⟨hnext, horder⟩ := List.isChain_cons_cons.mp horder
    have hclosed : rest.Pairwise fun x y => decide (y.fill_time ≤ end_.ts) = true →
        decide (x.fill_time ≤ end_.ts) = true := by
      refine (hsorted.sublist hrest).imp fun hle hy => ?_
      exact decide_eq_true (hle.trans (of_decide_eq_true hy))
    obtain ⟨d, hd, hspans⟩ := decompose_period_ok (rest.takeWhile fun f => f.fill_time ≤ end_.ts)
      (hset begin_ List.mem_cons_self) (hset end_ (List.mem_cons_of_mem _ List.mem_cons_self)) hnext
    have hwindow := charged_takeWhile hclosed hfrom
    have hlater := later_dropWhile hclosed hnext hfrom
    obtain ⟨ds, hds, hall⟩ := ih (fun p hp => hset p (List.mem_cons_of_mem _ hp)) horder
      ((List.dropWhile_sublist _).trans hrest) hlater
    refine ⟨d :: ds, ?_, .cons (hwindow ▸ hspans) hall⟩
    simp only [PnlAttributor.decompose_periods, hd, hds]

theorem SpansAll.length_eq {fills : List Fill} {curve : List EquityPoint} {ds : List PnlDecomposition}
    (hall : SpansAll fills curve ds) : ds.length + 1 = curve.length := by
  induction hall with
  | last => rfl
  | cons _ _ ih =>
    rw [List.length_cons, ih]
    rfl

/-- The sort moves no fill to another window. -/
theorem SpansAll.perm {fills fills' : List Fill} {curve : List EquityPoint} {ds : List PnlDecomposition}
    (hall : SpansAll fills curve ds) (hperm : fills.Perm fills') : SpansAll fills' curve ds := by
  induction hall with
  | last => exact .last
  | cons hspans _ ih =>
    refine .cons { hspans with toCharges := ?_ } ih
    exact hspans.toCharges.perm (hperm.filter _)

theorem SpansAll.at {fills : List Fill} {curve : List EquityPoint} {ds : List PnlDecomposition}
    (hall : SpansAll fills curve ds) {k : Nat} {b e : EquityPoint} {d : PnlDecomposition}
    (hb : curve[k]? = some b) (he : curve[k + 1]? = some e) (hd : ds[k]? = some d) :
    d.Spans b e (between b.ts e.ts fills) := by
  induction hall generalizing k with
  | last => cases hd
  | cons hspans _ ih =>
    cases k with
    | zero =>
      cases hb
      cases he
      cases hd
      exact hspans
    | succ k => exact ih hb he hd

/-- A curve in order, whose first point no fill falls on, is decomposed: each
period charges the fills after its beginning, up to its end. -/
theorem decompose_series_ok {curve : List EquityPoint} {fills : List Fill} (htwo : 2 ≤ curve.length)
    (hset : ∀ p ∈ curve, is_set p.ts = true) (horder : curve.IsChain fun p q => p.ts ≤ q.ts)
    (hfirst : ∀ p ∈ curve.head?, ∀ f ∈ fills, f.fill_time ≠ p.ts) :
    ∃ ds, ({} : PnlAttributor).decompose_series curve fills = .ok ds ∧ SpansAll fills curve ds := by
  cases curve with
  | nil => simp at htwo
  | cons begin_ curve =>
    let sorted := fills.mergeSort fun x y => x.fill_time ≤ y.fill_time
    have hperm : sorted.Perm fills := List.mergeSort_perm _ _
    have hsorted : sorted.Pairwise fun x y => x.fill_time ≤ y.fill_time := by
      have hpairwise : sorted.Pairwise fun x y => decide (x.fill_time ≤ y.fill_time) = true := List.pairwise_mergeSort
        (fun x y z hxy hyz => decide_eq_true ((of_decide_eq_true hxy).trans (of_decide_eq_true hyz)))
        (fun x y => by simpa using le_total x.fill_time y.fill_time) fills
      exact hpairwise.imp of_decide_eq_true
    have hfrom : sorted.filter (fun f => begin_.ts ≤ f.fill_time) =
        sorted.filter fun f => begin_.ts < f.fill_time := by
      refine filter_congr_iff fun f hf => ?_
      have hne := hfirst begin_ rfl f (hperm.subset hf)
      simp only [decide_eq_true_eq]
      exact ⟨fun h => lt_of_le_of_ne h (Ne.symm hne), le_of_lt⟩
    obtain ⟨ds, hds, hall⟩ := decompose_periods_ok hsorted hset horder (List.Sublist.refl _) hfrom
    refine ⟨ds, ?_, hall.perm hperm⟩
    rw [PnlAttributor.decompose_series, if_neg (not_lt.mpr htwo)]
    exact hds

end Series

end ptl.attribution
