import Mathlib.Tactic.Ring
import TradingLab.Machine
import TradingLab.Oms.OrderManager
import TradingLab.Risk.RiskManager

open ptl.oms ptl.portfolio

namespace ptl.risk

/-! ### Filling approved orders -/

/-- A whole order filled at this price, free of costs. -/
def fillAt (order : Order) (price : Price) (hprice : 0 < price) : Fill where
  order_id := order.id
  parent_id := order.parent_id
  instrument := order.instrument
  side := order.side
  price
  quantity := order.quantity
  commission := 0
  exchange_fee := 0
  liquidity := .Taker
  times := order.times
  arrival_price := price
  price_pos := hprice
  quantity_pos := order.quantity_pos
  chain_valid := order.chain_valid

/-- An order the gate was asked about, with what it was told. -/
abbrev Request := Order × RiskContext

/-- What a request is worth at its reference price. -/
def Request.notional (l : Request) : Notional := l.1.quantity * l.2.reference_price

def Request.signedNotional (l : Request) : Notional := l.1.signed_quantity * l.2.reference_price

/-- What a request adds to an instrument's position. -/
def Request.adds (l : Request) (instrument : InstrumentId) : Qty :=
  if l.1.instrument = instrument then l.1.signed_quantity else 0

/-- The portfolio once all requests are filled at their reference prices. -/
def fillAll : Portfolio → List Request → Option Portfolio
  | pf, [] => some pf
  | pf, l :: ls =>
    if hprice : 0 < l.2.reference_price then
      match pf.apply (fillAt l.1 l.2.reference_price hprice) with
      | (.ok _, pf) => fillAll pf ls
      | (.error _, _) => none
    else none

/-- The instrument of a request is valued at the reference price of its
check, whatever is held of it. -/
def Portfolio.MarkedAt (pf : Portfolio) (l : Request) : Prop :=
  ∀ pos, pf.mark_for l.1.instrument pos = l.2.reference_price

theorem value_of_flat {pos : Position} {mark : Price} (value : Position → Price → Notional)
    (hflat : pos.is_flat = true → value pos mark = 0) :
    (if pos.is_flat then 0 else value pos mark) = value pos mark := by
  split
  · exact (hflat ‹_›).symm
  · rfl

theorem market_value_of_flat {pos : Position} {mark : Price} :
    (if pos.is_flat then 0 else pos.market_value mark) = pos.market_value mark := by
  refine value_of_flat Position.market_value fun hflat => ?_
  have hzero : pos.quantity = 0 := by simpa [Position.is_flat] using hflat
  rw [Position.market_value, hzero, zero_mul]

theorem gross_of_flat {pos : Position} {mark : Price} :
    (if pos.is_flat then 0 else pos.gross_exposure mark) = pos.gross_exposure mark := by
  refine value_of_flat Position.gross_exposure fun hflat => ?_
  have hzero : pos.quantity = 0 := by simpa [Position.is_flat] using hflat
  rw [Position.gross_exposure, hzero, abs_zero, zero_mul]

section Fill

variable {pf pf' : Portfolio} {l : Request} {done : Bool} {hprice : 0 < l.2.reference_price}

theorem fillAt_signed : (fillAt l.1 l.2.reference_price hprice).signed_quantity = l.1.signed_quantity :=
  rfl

/-- What a fill at the mark leaves unchanged, and how it moves the totals. -/
structure Portfolio.FilledAt (pf pf' : Portfolio) (ls : List Request) : Prop where
  keyed : pf'.Keyed
  mark_for_eq : ∀ instrument pos, pf'.mark_for instrument pos = pf.mark_for instrument pos
  settled_eq : ∀ instrument,
    pf'.settledQuantity instrument =
      pf.settledQuantity instrument + (ls.map fun l => l.adds instrument).sum
  cash_eq : pf'.cash = pf.cash - (ls.map Request.signedNotional).sum
  net_eq : pf'.net_exposure = pf.net_exposure + (ls.map Request.signedNotional).sum
  gross_le : pf'.gross_exposure ≤ pf.gross_exposure + (ls.map Request.notional).sum

theorem Portfolio.filledAt_one (hkeyed : pf.Keyed) (hmarked : Portfolio.MarkedAt pf l)
    (happly : pf.apply (fillAt l.1 l.2.reference_price hprice) = (.ok done, pf')) :
    Portfolio.FilledAt pf pf' [l] := by
  have hsettled := Portfolio.settledQuantity_apply happly
  have hpf := Portfolio.apply_ok happly
  have hheld := hkeyed.held l.1.instrument
  have hnext : ((pf.held l.1.instrument).apply (fillAt l.1 l.2.reference_price hprice)).2.instrument =
      l.1.instrument := hheld
  have hmark : ∀ instrument pos, pf'.mark_for instrument pos = pf.mark_for instrument pos := by
    intro instrument pos
    rw [hpf]
    rfl
  have hpositions : pf'.positions = pf.positions.insert l.1.instrument
      ((pf.held l.1.instrument).apply (fillAt l.1 l.2.reference_price hprice)).2 := by
    rw [hpf]
    rfl
  refine ⟨hkeyed.insert hnext hpositions, hmark, fun instrument => ?_, ?_, ?_, ?_⟩
  · rw [hsettled instrument]
    simp only [List.map_cons, List.map_nil, List.sum_cons, List.sum_nil, add_zero, Request.adds]
    rfl
  · rw [hpf]
    simp only [List.map_cons, List.map_nil, List.sum_cons, List.sum_nil, add_zero,
      Request.signedNotional, Fill.cash_delta_eq, fillAt_signed]
    simp only [fillAt, Fill.total_cost]
    ring
  · simp only [Portfolio.net_exposure, Portfolio.position_value_eq_sum, market_value_of_flat, hmark,
      hpositions]
    rw [pf.sum_insert (fun pos => pos.market_value (pf.mark_for pos.instrument pos)) _ _ (zero_mul _)]
    simp only [Position.apply, hheld, hmarked _, Position.market_value, fillAt_signed, List.map_cons,
      List.map_nil, List.sum_cons, List.sum_nil, Request.signedNotional]
    ring
  · simp only [Portfolio.gross_exposure_eq_sum, gross_of_flat, hmark, hpositions]
    rw [pf.sum_insert (fun pos => pos.gross_exposure (pf.mark_for pos.instrument pos)) _ _
      (by simp [Position.gross_exposure])]
    simp only [Position.apply, hheld, hmarked _, Position.gross_exposure, fillAt_signed, List.map_cons,
      List.map_nil, List.sum_cons, List.sum_nil, Request.notional]
    have htriangle := abs_add_le (pf.held l.1.instrument).quantity l.1.signed_quantity
    have hsize : |l.1.signed_quantity| = l.1.quantity := by
      have hpos := l.1.quantity_pos
      unfold Order.signed_quantity
      cases l.1.side with
      | Buy => rw [sign_of_buy, Int.cast_one, mul_one, abs_of_pos hpos]
      | Sell => rw [sign_of_sell, Int.cast_neg, Int.cast_one, mul_neg_one, abs_neg, abs_of_pos hpos]
    have hscaled := mul_le_mul_of_nonneg_right htriangle (le_of_lt hprice)
    rw [hsize] at hscaled
    linarith

theorem Portfolio.FilledAt.trans {ls : List Request} {mid : Portfolio}
    (hfirst : Portfolio.FilledAt pf mid [l]) (hrest : Portfolio.FilledAt mid pf' ls) :
    Portfolio.FilledAt pf pf' (l :: ls) := by
  have hcash := hfirst.cash_eq
  have hnet := hfirst.net_eq
  have hgross := hfirst.gross_le
  simp only [List.map_cons, List.map_nil, List.sum_cons, List.sum_nil, add_zero] at hcash hnet hgross
  refine ⟨hrest.keyed, fun instrument pos => ?_, fun instrument => ?_, ?_, ?_, ?_⟩
  · rw [hrest.mark_for_eq, hfirst.mark_for_eq]
  · rw [hrest.settled_eq, hfirst.settled_eq]
    simp only [List.map_cons, List.map_nil, List.sum_cons, List.sum_nil]
    ring
  · rw [hrest.cash_eq, hcash, List.map_cons, List.sum_cons]
    ring
  · rw [hrest.net_eq, hnet, List.map_cons, List.sum_cons]
    ring
  · have htail := hrest.gross_le
    rw [List.map_cons, List.sum_cons]
    linarith

/-- Filling requests at the marks moves quantities, cash and net exposure by
their sums, and gross exposure by no more than their worth. -/
theorem fillAll_filledAt {ls : List Request} (hkeyed : pf.Keyed)
    (hmarked : ∀ l ∈ ls, Portfolio.MarkedAt pf l) (hfilled : fillAll pf ls = some pf') :
    Portfolio.FilledAt pf pf' ls := by
  induction ls generalizing pf with
  | nil =>
    cases hfilled
    exact ⟨hkeyed, fun _ _ => rfl, fun _ => (add_zero _).symm, (sub_zero _).symm, (add_zero _).symm,
      le_of_eq (add_zero _).symm⟩
  | cons l ls ih =>
    simp only [fillAll] at hfilled
    split at hfilled
    · split at hfilled
      · rename_i happly
        have hfirst := Portfolio.filledAt_one hkeyed (hmarked l List.mem_cons_self) happly
        refine hfirst.trans (ih hfirst.keyed (fun l' hl' pos => ?_) hfilled)
        rw [hfirst.mark_for_eq]
        exact hmarked l' (List.mem_cons_of_mem _ hl') pos
      · cases hfilled
    · cases hfilled

end Fill

/-! ### Bursts -/

/-- The order manager of a burst, and the requests approved so far. -/
structure Burst where
  oms : OrderManager
  approved : List Request := []

section Gate

variable (r : RiskManager) (pf : Portfolio)

/-- The gate approves the next order and the order is submitted, while the
portfolio stays as it is. -/
def Burst.step (s : Burst) (l : Request) : Option Burst :=
  if (r.check l.1 pf s.oms l.2).approved then
    match s.oms.submit l.1 with
    | (.ok _, oms) => some { oms, approved := s.approved ++ [l] }
    | (.error _, _) => none
  else none

/-- Any burst of approved orders over one portfolio, starting with no order
in flight. -/
def burstMachine : Machine Burst Request where
  Init s := s.approved = [] ∧
    ∀ (id : OrderId) (rec : OrderRecord), s.oms.records[id]? = some rec → is_terminal rec.state = true
  step := Burst.step r pf

/-- The checks that read the settled portfolio only would hold with the orders
in flight counted, and the portfolio is marked where the gate was told. -/
structure Burst.Counts (s : Burst) (l : Request) : Prop where
  marked : Portfolio.MarkedAt pf l
  gross : pf.gross_exposure + ((s.approved ++ [l]).map Request.notional).sum ≤
    r.limits.max_gross_leverage * pf.equity
  net : |pf.net_exposure + ((s.approved ++ [l]).map Request.signedNotional).sum| ≤
    r.limits.max_net_leverage * pf.equity
  cash : (∀ l' ∈ s.approved ++ [l], l'.1.side = .Buy) →
    ((s.approved ++ [l]).map Request.signedNotional).sum ≤ pf.buying_power

/-- What a burst has established about the requests it approved. -/
structure Burst.Sound (s : Burst) : Prop where
  exposure : ∀ instrument,
    s.oms.exposure_of instrument = (s.approved.map fun l => l.adds instrument).sum
  marked : ∀ l ∈ s.approved, Portfolio.MarkedAt pf l
  priced : ∀ l ∈ s.approved, 0 < l.2.reference_price
  gross : s.approved ≠ [] → pf.gross_exposure + (s.approved.map Request.notional).sum ≤
    r.limits.max_gross_leverage * pf.equity
  net : s.approved ≠ [] → |pf.net_exposure + (s.approved.map Request.signedNotional).sum| ≤
    r.limits.max_net_leverage * pf.equity
  cash : s.approved ≠ [] → (∀ l ∈ s.approved, l.1.side = .Buy) →
    (s.approved.map Request.signedNotional).sum ≤ pf.buying_power
  position : ∀ l ∈ s.approved,
    |(pf.settledQuantity l.1.instrument + s.oms.exposure_of l.1.instrument) * l.2.reference_price| ≤
        r.limits.max_position_notional ∧
      |(pf.settledQuantity l.1.instrument + s.oms.exposure_of l.1.instrument) * l.2.reference_price| ≤
        r.limits.max_concentration * pf.equity

variable {r pf}

/-- A submitted order counts in full from then on. -/
theorem exposure_of_submit {m : OrderManager} {order : Order} (hnew : m.submitError order = none)
    (instrument : InstrumentId) :
    (m.submit order).2.exposure_of instrument =
      m.exposure_of instrument + if order.instrument = instrument then order.signed_quantity else 0 := by
  rw [OrderManager.exposure_of_eq_sum, OrderManager.exposure_of_eq_sum,
    OrderManager.submit_accepted hnew,
    Table.sum_insert_new _ _ (OrderManager.fresh_of_submitError hnew)]
  congr 1
  unfold OrderRecord.exposure OrderRecord.remaining Order.signed_quantity
  by_cases hsame : order.instrument = instrument
  · simp [hsame, is_terminal]
  · simp [hsame]

theorem Burst.sound_init {s : Burst} (hinit : (burstMachine r pf).Init s) : Burst.Sound r pf s := by
  obtain ⟨hnone, hterminal⟩ := hinit
  have hmem : ∀ l, l ∉ s.approved := fun l hl => by
    rw [hnone] at hl
    cases hl
  refine ⟨fun instrument => ?_, fun l hl => absurd hl (hmem l), fun l hl => absurd hl (hmem l),
    fun hsome => absurd hnone hsome, fun hsome => absurd hnone hsome,
    fun hsome => absurd hnone hsome, fun l hl => absurd hl (hmem l)⟩
  have hzero : ∀ (id : OrderId) (rec : OrderRecord), s.oms.records[id]? = some rec →
      rec.exposure instrument = 0 := by
    intro id rec hrec
    rw [OrderRecord.exposure, if_pos (.inr (hterminal id rec hrec))]
  rw [hnone, OrderManager.exposure_of_eq_sum, Table.sum_congr hzero]
  simp [Table.sum]

theorem Burst.step_some {s t : Burst} {l : Request} (hstep : Burst.step r pf s l = some t) :
    r.Passes l.1 pf s.oms l.2 ∧ s.oms.submitError l.1 = none ∧
      t = { oms := (s.oms.submit l.1).2, approved := s.approved ++ [l] } := by
  unfold Burst.step at hstep
  split at hstep
  · rename_i happroved
    refine ⟨RiskManager.check_approved happroved, ?_⟩
    cases hrefused : s.oms.submitError l.1 with
    | some err => simp [OrderManager.submit, hrefused] at hstep
    | none =>
      rw [OrderManager.submit_accepted hrefused] at hstep ⊢
      simp only [Option.some.injEq] at hstep
      exact ⟨rfl, hstep.symm⟩
  · cases hstep

theorem Burst.sound_step {s t : Burst} {l : Request} (hequity : 0 < pf.equity)
    (hsound : Burst.Sound r pf s) (hcounts : Burst.Counts r pf s l)
    (hstep : Burst.step r pf s l = some t) : Burst.Sound r pf t := by
  obtain ⟨hpasses, hnew, rfl⟩ := Burst.step_some hstep
  have hexposure := exposure_of_submit hnew
  have hmem : ∀ {P : Request → Prop}, (∀ l' ∈ s.approved, P l') → P l → ∀ l' ∈ s.approved ++ [l], P l' := by
    intro P hold hlast l' hl'
    rcases List.mem_append.mp hl' with hl' | hl'
    · exact hold l' hl'
    · rw [List.mem_singleton.mp hl']
      exact hlast
  have hprojected : pf.settledQuantity l.1.instrument +
      (s.oms.submit l.1).2.exposure_of l.1.instrument = projected l.1 pf s.oms := by
    rw [hexposure, if_pos rfl, projected, add_assoc]
  have hlast : |(pf.settledQuantity l.1.instrument +
        (s.oms.submit l.1).2.exposure_of l.1.instrument) * l.2.reference_price| ≤
        r.limits.max_position_notional ∧
      |(pf.settledQuantity l.1.instrument +
        (s.oms.submit l.1).2.exposure_of l.1.instrument) * l.2.reference_price| ≤
        r.limits.max_concentration * pf.equity := by
    rw [hprojected]
    exact ⟨hpasses.position_notional, (div_le_iff₀ hequity).mp (hpasses.concentration hequity)⟩
  refine ⟨fun instrument => ?_, hmem hsound.marked hcounts.marked, hmem hsound.priced hpasses.priced,
    fun _ => hcounts.gross, fun _ => hcounts.net, fun _ => hcounts.cash, hmem (fun l' hl' => ?_) hlast⟩
  · rw [hexposure, hsound.exposure, List.map_append, List.sum_append]
    simp only [List.map_cons, List.map_nil, List.sum_cons, List.sum_nil, add_zero, Request.adds]
  · by_cases hsame : l.1.instrument = l'.1.instrument
    · -- One instrument has one mark, so both requests were checked at one price.
      have hprice : l'.2.reference_price = l.2.reference_price := by
        have hold := hsound.marked l' hl' { instrument := l.1.instrument }
        have hnow := hcounts.marked { instrument := l.1.instrument }
        rw [← hsame] at hold
        exact hold.symm.trans hnow
      rw [← hsame, hprice]
      exact hlast
    · rw [hexposure, if_neg hsame, add_zero]
      exact hsound.position l' hl'

theorem burstMachine_sound {s : Burst} (hequity : 0 < pf.equity)
    (hreach : (burstMachine r pf).Reaches (Burst.Counts r pf) s) : Burst.Sound r pf s :=
  hreach.invariant (I := Burst.Sound r pf) (fun _ => Burst.sound_init)
    fun _ _ _ _ hsound hcounts hstep => Burst.sound_step hequity hsound hcounts hstep

theorem Portfolio.FilledAt.equity_eq {ls : List Request} {pf' : Portfolio}
    (hfilled : Portfolio.FilledAt pf pf' ls) : pf'.equity = pf.equity := by
  have hnet := hfilled.net_eq
  simp only [Portfolio.net_exposure] at hnet
  rw [Portfolio.equity, Portfolio.equity, hfilled.cash_eq, hnet]
  ring

/-- A request to buy takes cash. -/
theorem Request.signedNotional_pos {l : Request} (hbuy : l.1.side = .Buy)
    (hprice : 0 < l.2.reference_price) : 0 < l.signedNotional := by
  have hpos := l.1.quantity_pos
  unfold Request.signedNotional Order.signed_quantity
  rw [hbuy, sign_of_buy, Int.cast_one, mul_one]
  exact mul_pos hpos hprice

end Gate

/-! ### One order and five -/

/-- A million in cash, and five instruments marked at 100. -/
def fiveMarked : Portfolio :=
  [0, 1, 2, 3, 4].foldl (fun pf instrument => pf.mark_last instrument 100) (Portfolio.new {})

/-- A request to buy a quarter of a million of an instrument. -/
def quarterOf (id : OrderId) (instrument : InstrumentId)
    (h : (Order.market id instrument .Buy 2500 { decision_time := 0 }).toOption.isSome = true :=
      by decide +kernel) : Request :=
  (Result.value (Order.market id instrument .Buy 2500 { decision_time := 0 }) h,
    { now := 0, reference_price := 100, peak_equity := 1000000 })

def firstQuarter : Request := quarterOf 1 0

def fiveQuarters : List Request := [firstQuarter, quarterOf 2 1, quarterOf 3 2, quarterOf 4 3, quarterOf 5 4]

theorem fiveMarked_keyed : fiveMarked.Keyed := fun _ _ hpos => nomatch hpos

theorem emptyBurst_init (r : RiskManager) (pf : Portfolio) :
    (burstMachine r pf).Init { oms := {} } :=
  ⟨rfl, fun _ _ hrec => nomatch hrec⟩

theorem firstQuarter_counts : Burst.Counts {} fiveMarked { oms := {} } firstQuarter where
  marked pos := Portfolio.mark_for_of_marks (by decide +kernel) pos
  gross := by decide +kernel
  net := by decide +kernel
  cash _ := by decide +kernel

end ptl.risk
