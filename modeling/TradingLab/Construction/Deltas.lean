import TradingLab.Construction.Rebalance
import TradingLab.Oms.Order

/-! Which trades a plan makes, and which of them become orders. -/

open ptl.oms ptl.portfolio ptl.execution
open Std (TreeMap)

namespace ptl.construction

/-- What a settled position is short of its target. -/
def missing (targets : TargetPortfolio) (pf : Portfolio) (instrument : InstrumentId) : Qty :=
  targets.wanted instrument - pf.settledQuantity instrument

/-- Enough is missing to be worth a trade at a price. -/
structure RebalanceConfig.Worth (cfg : RebalanceConfig) (equity : Notional) (missing : Qty) (price : Price) :
    Prop where
  nonzero : missing ≠ 0
  drifted : cfg.mode = .Partial → cfg.drift_threshold ≤ |missing| * price / equity
  large : cfg.min_trade_notional ≤ |missing| * price
  lot : cfg.lot_size ≤ |missing|

open RebalanceConfig

instance (cfg : RebalanceConfig) (equity : Notional) (missing : Qty) (price : Price) :
    Decidable (cfg.Worth equity missing price) :=
  decidable_of_iff (missing ≠ 0 ∧ (cfg.mode = .Partial → cfg.drift_threshold ≤ |missing| * price / equity) ∧
    cfg.min_trade_notional ≤ |missing| * price ∧ cfg.lot_size ≤ |missing|)
    ⟨fun ⟨hnonzero, hdrifted, hlarge, hlot⟩ => ⟨hnonzero, hdrifted, hlarge, hlot⟩,
      fun ⟨hnonzero, hdrifted, hlarge, hlot⟩ => ⟨hnonzero, hdrifted, hlarge, hlot⟩⟩

/-- The instrument is traded: it has a price, and enough is missing. -/
def RebalanceConfig.Trades (cfg : RebalanceConfig) (targets : TargetPortfolio) (pf : Portfolio)
    (instrument : InstrumentId) : Prop :=
  ∃ price ∈ tradePrice targets pf instrument, cfg.Worth pf.equity (missing targets pf instrument) price

instance (cfg : RebalanceConfig) (targets : TargetPortfolio) (pf : Portfolio) (instrument : InstrumentId) :
    Decidable (cfg.Trades targets pf instrument) :=
  match hprice : tradePrice targets pf instrument with
  | none => isFalse fun ⟨price, hsome, _⟩ => by
    rw [hprice] at hsome
    cases hsome
  | some price =>
    decidable_of_iff (cfg.Worth pf.equity (missing targets pf instrument) price)
      ⟨fun hworth => ⟨price, hprice, hworth⟩, fun ⟨other, hother, hworth⟩ => by
        rw [hprice] at hother
        cases hother
        exact hworth⟩

/-- A trade of what is missing, rounded, at a price. -/
structure RebalanceTrade.Makes (t : RebalanceTrade) (cfg : RebalanceConfig) (targets : TargetPortfolio)
    (pf : Portfolio) (price : Price) : Prop where
  made : t.skipped = false
  price_eq : t.reference_price = price
  delta_eq : t.delta_quantity = toLots cfg.lot_size (missing targets pf t.instrument)
  side_eq : t.side = if missing targets pf t.instrument ≥ 0 then .Buy else .Sell
  notional_eq : t.notional = |t.delta_quantity| * price

section Trades

variable {cfg : RebalanceConfig} {targets : TargetPortfolio} {pf : Portfolio}

/-- A trade is settled as made when it is worth making, and as skipped when it
is not. -/
theorem RebalanceConfig.settle_cases (cfg : RebalanceConfig) (targets : TargetPortfolio) (pf : Portfolio)
    (trade : RebalanceTrade) (hopen : trade.skipped = false)
    (hdelta : trade.delta_quantity = missing targets pf trade.instrument)
    (hside : trade.side = if missing targets pf trade.instrument ≥ 0 then .Buy else .Sell)
    (hnotional : trade.notional = |trade.delta_quantity| * trade.reference_price)
    (hdrift : trade.drift = trade.notional / pf.equity) :
    ((cfg.settle trade).skipped = true ∧
        ¬ cfg.Worth pf.equity (missing targets pf trade.instrument) trade.reference_price) ∨
      ((cfg.settle trade).Makes cfg targets pf trade.reference_price ∧
        cfg.Worth pf.equity (missing targets pf trade.instrument) trade.reference_price) := by
  have hskip : ∀ reason, (trade.skip reason).skipped = true := fun _ => rfl
  unfold settle
  split
  · rename_i hnothing
    rw [hdelta] at hnothing
    exact .inl ⟨hskip _, fun hworth => hworth.nonzero hnothing⟩
  · rename_i hsome
    split
    · rename_i hdrifted
      rw [hdrift, hnotional, hdelta] at hdrifted
      exact .inl ⟨hskip _, fun hworth => not_lt.mpr (hworth.drifted hdrifted.1) hdrifted.2⟩
    · rename_i hdrifted
      rw [hdrift, hnotional, hdelta] at hdrifted
      have henough : cfg.mode = .Partial →
          cfg.drift_threshold ≤ |missing targets pf trade.instrument| * trade.reference_price / pf.equity :=
        fun hmode => not_lt.mp fun hlow => hdrifted ⟨hmode, hlow⟩
      split
      · rename_i hsmall
        rw [hnotional, hdelta] at hsmall
        exact .inl ⟨hskip _, fun hworth => not_lt.mpr hworth.large hsmall⟩
      · rename_i hlarge
        rw [hnotional, hdelta, not_lt] at hlarge
        split
        · rename_i hlot
          dsimp only
          rw [hdelta]
          split
          · rename_i hrounded
            rw [toLots_eq_zero_iff hlot] at hrounded
            exact .inl ⟨hskip _, fun hworth => not_lt.mpr hworth.lot hrounded⟩
          · rename_i hrounded
            rw [toLots_eq_zero_iff hlot, not_lt] at hrounded
            exact .inr ⟨⟨hopen, rfl, rfl, hside, rfl⟩, ⟨hdelta ▸ hsome, henough, hlarge, hrounded⟩⟩
        · rename_i hlot
          have hunrounded := toLots_of_nonpos (not_lt.mp hlot) (missing targets pf trade.instrument)
          refine .inr ⟨⟨hopen, rfl, hdelta.trans hunrounded.symm, hside, hnotional⟩, ⟨hdelta ▸ hsome, henough,
            hlarge, ?_⟩⟩
          exact (not_lt.mp hlot).trans (abs_nonneg _)

@[simp] theorem RebalanceConfig.settle_instrument (trade : RebalanceTrade) :
    (cfg.settle trade).instrument = trade.instrument := by
  unfold settle RebalanceTrade.skip
  dsimp only
  repeat' split
  all_goals rfl

@[simp] theorem RebalanceConfig.planTrade_instrument (cfg : RebalanceConfig) (targets : TargetPortfolio)
    (pf : Portfolio) (instrument : InstrumentId) :
    (cfg.planTrade targets pf instrument).instrument = instrument := by
  unfold planTrade
  split
  · rfl
  · exact cfg.settle_instrument _

/-- The trade of an instrument is made when the instrument is traded, and
skipped when it is not. -/
theorem RebalanceConfig.planTrade_cases (cfg : RebalanceConfig) (targets : TargetPortfolio) (pf : Portfolio)
    (instrument : InstrumentId) :
    ((cfg.planTrade targets pf instrument).skipped = true ∧ ¬ cfg.Trades targets pf instrument) ∨
      ∃ price ∈ tradePrice targets pf instrument,
        (cfg.planTrade targets pf instrument).Makes cfg targets pf price ∧ cfg.Trades targets pf instrument := by
  unfold planTrade RebalanceConfig.Trades
  cases tradePrice targets pf instrument with
  | none =>
    refine .inl ⟨rfl, ?_⟩
    rintro ⟨price, hsome, -⟩
    cases hsome
  | some price =>
    have hcases := cfg.settle_cases targets pf (deltaTrade targets pf instrument price) rfl rfl rfl rfl rfl
    obtain ⟨hskipped, hnot⟩ | ⟨hmakes, hworth⟩ := hcases
    · refine .inl ⟨hskipped, ?_⟩
      rintro ⟨other, hother, hworth⟩
      cases hother
      exact hnot hworth
    · exact .inr ⟨price, rfl, hmakes, ⟨price, rfl, hworth⟩⟩

end Trades

/-! ### Plans and orders -/

/-- What the trades of a pass turn over. -/
def RebalanceConfig.turnover (cfg : RebalanceConfig) (targets : TargetPortfolio) (pf : Portfolio) : Notional :=
  (((instrument_universe targets pf).keys.filter fun i => cfg.Trades targets pf i).map fun i =>
    |toLots cfg.lot_size (missing targets pf i)| * (tradePrice targets pf i).getD 0).sum

/-- The prices an order needs beside its reference price are positive. -/
def RebalanceConfig.Priced (cfg : RebalanceConfig) (direction : Int) (price : Price) : Prop :=
  match cfg.order_type with
  | .Market => True
  | .Limit => 0 < apply_bps price cfg.limit_offset_bps (-direction)
  | .Stop => 0 < apply_bps price cfg.limit_offset_bps direction
  | .StopLimit =>
    0 < apply_bps price cfg.limit_offset_bps direction ∧
      0 < apply_bps (apply_bps price cfg.limit_offset_bps direction) cfg.limit_offset_bps direction

/-- A pass over these targets trades: it may, something is worth trading, no
more is turned over than allowed, and all of it can be ordered. -/
structure RebalanceConfig.WillTrade (cfg : RebalanceConfig) (targets : TargetPortfolio) (pf : Portfolio)
    (now : Timestamp) : Prop where
  equity : 0 < pf.equity
  worthwhile : ∃ i ∈ (instrument_universe targets pf).keys, cfg.Trades targets pf i
  turnover : 0 < cfg.max_turnover_per_rebalance →
    cfg.turnover targets pf ≤ cfg.max_turnover_per_rebalance * pf.equity
  decided : is_set now = true
  orderable : ∀ i ∈ (instrument_universe targets pf).keys, cfg.Trades targets pf i → i ≠ kInvalidInstrument ∧
    ∀ price ∈ tradePrice targets pf i, cfg.Priced (if missing targets pf i ≥ 0 then 1 else -1) price

/-- The next ids are ids of orders, so the counter has not run out. -/
def Supplies {E : Type} (next_id : E → OrderId × E) : Nat → E → Prop
  | 0, _ => True
  | n + 1, e => (next_id e).1 ≠ kNoOrder ∧ Supplies next_id n (next_id e).2

theorem Supplies.mono {E : Type} {next_id : E → OrderId × E} {n m : Nat} {e : E} (hless : n ≤ m)
    (hsupplies : Supplies next_id m e) : Supplies next_id n e := by
  induction n generalizing m e with
  | zero => trivial
  | succ n ih =>
    obtain ⟨m, rfl⟩ : ∃ k, m = k + 1 := ⟨m - 1, by omega⟩
    exact ⟨hsupplies.1, ih (by omega) hsupplies.2⟩

section Orders

variable {cfg : RebalanceConfig} {targets : TargetPortfolio} {pf : Portfolio} {t : RebalanceTrade}
  {price : Price} {now : Timestamp} {id : OrderId} {o : Order}

/-- What is worth trading is not rounded away. -/
theorem RebalanceConfig.Worth.rounded_ne_zero {equity : Notional} {missing : Qty}
    (hworth : cfg.Worth equity missing price) : toLots cfg.lot_size missing ≠ 0 := by
  rcases lt_or_ge 0 cfg.lot_size with hlot | hlot
  · rw [ne_eq, toLots_eq_zero_iff hlot, not_lt]
    exact hworth.lot
  · rw [toLots_of_nonpos hlot]
    exact hworth.nonzero

theorem RebalanceTrade.Makes.delta_ne_zero (hmakes : t.Makes cfg targets pf price)
    (htrades : cfg.Trades targets pf t.instrument) : t.delta_quantity ≠ 0 := by
  obtain ⟨_, -, hworth⟩ := htrades
  rw [hmakes.delta_eq]
  exact hworth.rounded_ne_zero

/-- The direction a trade is ordered in is that of what is missing. -/
theorem RebalanceTrade.Makes.direction (hmakes : t.Makes cfg targets pf price) :
    (if t.side = .Buy then 1 else -1 : Int) = if missing targets pf t.instrument ≥ 0 then 1 else -1 := by
  rw [hmakes.side_eq]
  split <;> rfl

/-- A trade that is made becomes an order when its instrument and its prices
allow one. -/
theorem RebalanceTrade.Makes.orderOf_iff (hmakes : t.Makes cfg targets pf price)
    (htrades : cfg.Trades targets pf t.instrument) :
    (∃ o, cfg.orderOf t now id = .ok o) ↔ id ≠ kNoOrder ∧ t.instrument ≠ kInvalidInstrument ∧
      is_set now = true ∧ cfg.Priced (if missing targets pf t.instrument ≥ 0 then 1 else -1) price := by
  have hquantity : 0 < |t.delta_quantity| := abs_pos.mpr (hmakes.delta_ne_zero htrades)
  have hchain := validate_chain_decision now
  rw [← hmakes.direction, ← hmakes.price_eq]
  unfold RebalanceConfig.orderOf RebalanceConfig.Priced
  cases cfg.order_type with
  | Market =>
    simp only [Order.market, Order.make_iff, hquantity, hchain, true_and, checkPrice_absent,
      OrderType.needs_limit, OrderType.needs_stop]
    simp
  | Limit =>
    simp only [Order.limit, Order.make_iff, hquantity, hchain, true_and, checkPrice_absent, checkPrice_some,
      OrderType.needs_limit, OrderType.needs_stop]
    simp
  | Stop =>
    simp only [Order.stop, Order.make_iff, hquantity, hchain, true_and, checkPrice_absent, checkPrice_some,
      OrderType.needs_limit, OrderType.needs_stop]
    simp
  | StopLimit =>
    simp only [Order.stop_limit, Order.make_iff, hquantity, hchain, true_and, checkPrice_some,
      OrderType.needs_limit, OrderType.needs_stop]
    simp
    tauto

theorem RebalanceConfig.orderOf_ok (cfg : RebalanceConfig) (horder : cfg.orderOf t now id = .ok o) :
    o.id = id ∧ o.instrument = t.instrument ∧ o.side = t.side ∧ o.quantity = |t.delta_quantity| := by
  unfold orderOf at horder
  dsimp only at horder
  split at horder
  all_goals
    obtain ⟨hid, -, hinstrument, hside, hquantity⟩ := Order.make_ok horder
    exact ⟨hid, hinstrument, hside, hquantity⟩

/-- The size of the delta and the side of the trade come back to the delta. -/
theorem RebalanceTrade.Makes.signed_delta (hmakes : t.Makes cfg targets pf price) :
    |t.delta_quantity| * (sign_of t.side : Rat) = t.delta_quantity := by
  rw [hmakes.side_eq, hmakes.delta_eq]
  have hbelow := le_toLots cfg.lot_size (missing targets pf t.instrument)
  have habove := toLots_le cfg.lot_size (missing targets pf t.instrument)
  split
  · rename_i hsign
    rw [min_eq_left hsign] at hbelow
    simp [abs_of_nonneg hbelow]
  · rename_i hsign
    rw [max_eq_left (not_le.mp hsign).le] at habove
    simp [abs_of_nonpos habove]

/-- The order of a trade is for its instrument and its signed delta. -/
theorem RebalanceTrade.Makes.orderOf_eq (hmakes : t.Makes cfg targets pf price)
    (horder : cfg.orderOf t now id = .ok o) :
    o.instrument = t.instrument ∧ o.signed_quantity = t.delta_quantity := by
  obtain ⟨-, hinstrument, hside, hquantity⟩ := cfg.orderOf_ok horder
  refine ⟨hinstrument, ?_⟩
  rw [Order.signed_quantity, hside, hquantity, hmakes.signed_delta]

end Orders

section Loop

variable {E : Type} {cfg : RebalanceConfig} {now : Timestamp} {next_id : E → OrderId × E}
  {trades : List RebalanceTrade} {e : E}

/-- Orders that are generated are those of the trades that are made, one for
one. -/
theorem RebalanceConfig.ordersOf_ok {orders : List Order}
    (hok : (cfg.ordersOf now next_id trades e).1 = .ok orders) :
    List.Forall₂ (fun t o => ∃ id made, cfg.orderOf t now id = .ok made ∧
      o = made.with_arrival_price t.reference_price) (trades.filter fun t => ¬ t.skipped) orders := by
  induction trades generalizing e orders with
  | nil =>
    cases hok
    exact .nil
  | cons t trades ih =>
    unfold ordersOf at hok
    split at hok
    · rename_i hskipped
      rw [List.filter_cons_of_neg (by simpa using hskipped)]
      exact ih hok
    · rename_i hmade
      rw [List.filter_cons_of_pos (by simpa using hmade)]
      dsimp only at hok
      split at hok
      · cases hok
      · rename_i made hmake
        generalize hrest : cfg.ordersOf now next_id trades (next_id e).2 = answer at hok
        obtain ⟨rest, e'⟩ := answer
        cases rest with
        | error err => cases hok
        | ok rest =>
          cases hok
          exact .cons ⟨_, made, hmake, rfl⟩ (ih (by rw [hrest]))

/-- Where orders are generated, each trade that is made could be ordered. -/
theorem RebalanceConfig.orderOf_of_ordersOf {orders : List Order} {t : RebalanceTrade}
    (hok : (cfg.ordersOf now next_id trades e).1 = .ok orders) (ht : t ∈ trades) (hmade : t.skipped = false) :
    ∃ id o, cfg.orderOf t now id = .ok o := by
  have hforall := cfg.ordersOf_ok hok
  have hmem : t ∈ trades.filter fun t => ¬ t.skipped := List.mem_filter.mpr ⟨ht, by simpa using hmade⟩
  clear hok
  generalize trades.filter (fun t => ¬ t.skipped) = made at hforall hmem
  induction hforall with
  | nil => cases hmem
  | cons hhead _ ih =>
    obtain rfl | hmem := List.mem_cons.mp hmem
    · obtain ⟨id, o, hmake, -⟩ := hhead
      exact ⟨id, o, hmake⟩
    · exact ih hmem

/-- Where every trade that is made can be ordered under any id, orders are
generated. -/
theorem RebalanceConfig.ordersOf_total
    (horderable : ∀ t ∈ trades, t.skipped = false → ∀ id, id ≠ kNoOrder → ∃ o, cfg.orderOf t now id = .ok o)
    (hsupplies : Supplies next_id (trades.filter fun t => ¬ t.skipped).length e) :
    ∃ orders, (cfg.ordersOf now next_id trades e).1 = .ok orders := by
  induction trades generalizing e with
  | nil => exact ⟨[], rfl⟩
  | cons t trades ih =>
    have hothers := fun u hu => horderable u (List.mem_cons_of_mem _ hu)
    unfold ordersOf
    split
    · rename_i hskipped
      rw [List.filter_cons_of_neg (by simpa using hskipped)] at hsupplies
      exact ih hothers hsupplies
    · rename_i hmade
      rw [List.filter_cons_of_pos (by simpa using hmade)] at hsupplies
      obtain ⟨made, hmake⟩ := horderable t List.mem_cons_self (by simpa using hmade) _ hsupplies.1
      obtain ⟨rest, hrest⟩ := ih hothers hsupplies.2
      dsimp only
      rw [hmake]
      generalize cfg.ordersOf now next_id trades (next_id e).2 = answer at hrest ⊢
      obtain ⟨_, e'⟩ := answer
      cases hrest
      exact ⟨_, rfl⟩

/-- Orders that are generated had an id each. -/
theorem RebalanceConfig.supplies_of_ordersOf {orders : List Order}
    (hok : (cfg.ordersOf now next_id trades e).1 = .ok orders) :
    Supplies next_id (trades.filter fun t => ¬ t.skipped).length e := by
  induction trades generalizing e orders with
  | nil => trivial
  | cons t trades ih =>
    unfold ordersOf at hok
    split at hok
    · rename_i hskipped
      rw [List.filter_cons_of_neg (by simpa using hskipped)]
      exact ih hok
    · rename_i hmade
      rw [List.filter_cons_of_pos (by simpa using hmade)]
      dsimp only at hok
      split at hok
      · cases hok
      · rename_i made hmake
        generalize hrest : cfg.ordersOf now next_id trades (next_id e).2 = answer at hok
        obtain ⟨rest, e'⟩ := answer
        cases rest with
        | error err => cases hok
        | ok rest =>
          refine ⟨?_, ih (by rw [hrest])⟩
          rw [← (cfg.orderOf_ok hmake).1]
          exact made.id_valid

/-- What taking an id leaves alone, generating orders leaves alone. -/
theorem RebalanceConfig.ordersOf_keeps {B : Type} {f : E → B} (hnext : ∀ e, f (next_id e).2 = f e) :
    f (cfg.ordersOf now next_id trades e).2 = f e := by
  induction trades generalizing e with
  | nil => rfl
  | cons t trades ih =>
    unfold ordersOf
    split
    · exact ih
    · dsimp only
      split
      · exact hnext e
      · have hrest := @ih (next_id e).2
        generalize cfg.ordersOf now next_id trades (next_id e).2 = answer at hrest ⊢
        obtain ⟨result, e'⟩ := answer
        cases result with
        | error err => exact hrest.trans (hnext e)
        | ok orders => exact hrest.trans (hnext e)

end Loop

/-- Every targeted instrument is among those looked at. -/
theorem mem_universe_of_target {targets : TargetPortfolio} {pf : Portfolio} {i : InstrumentId}
    {t : TargetPosition} (htarget : targets.targets[i]? = some t) :
    i ∈ (instrument_universe targets pf).keys := by
  have hkey : i ∈ targets.targets :=
    TreeMap.mem_iff_isSome_getElem?.mpr (by rw [htarget]; rfl)
  rw [TreeMap.mem_keys, instrument_universe, Table.mem_foldl_insert, Table.mem_foldl_insert]
  exact .inr (.inl (TreeMap.mem_keys.mpr hkey))

section Plan

variable {r : RebalanceEngine} {targets : TargetPortfolio} {pf : Portfolio} {plan : RebalancePlan}
  {now : Timestamp}

/-- The trade planned for every held or targeted instrument. -/
def RebalanceEngine.trades (r : RebalanceEngine) (targets : TargetPortfolio) (pf : Portfolio) :
    List RebalanceTrade :=
  (instrument_universe targets pf).keys.map fun instrument => r.cfg.planTrade targets pf instrument

open RebalanceEngine

/-- Every trade of a plan is the made or skipped trade of its instrument. -/
theorem RebalanceEngine.trade_cases {t : RebalanceTrade} (ht : t ∈ r.trades targets pf) :
    t.instrument ∈ (instrument_universe targets pf).keys ∧
      ((t.skipped = true ∧ ¬ r.cfg.Trades targets pf t.instrument) ∨
        ∃ price ∈ tradePrice targets pf t.instrument,
          t.Makes r.cfg targets pf price ∧ r.cfg.Trades targets pf t.instrument) := by
  obtain ⟨i, hi, rfl⟩ := List.mem_map.mp ht
  rw [planTrade_instrument]
  exact ⟨hi, r.cfg.planTrade_cases targets pf i⟩

/-- A trade that is not skipped is made at the price of its instrument. -/
theorem RebalanceEngine.makes_of_mem {t : RebalanceTrade} (ht : t ∈ r.trades targets pf)
    (hmade : t.skipped = false) :
    ∃ price ∈ tradePrice targets pf t.instrument,
      t.Makes r.cfg targets pf price ∧ r.cfg.Trades targets pf t.instrument := by
  obtain ⟨-, ⟨hskipped, -⟩ | hmakes⟩ := trade_cases ht
  · rw [hskipped] at hmade
    cases hmade
  · exact hmakes

/-- A trade is made exactly when its instrument is traded. -/
theorem RebalanceEngine.skipped_iff {t : RebalanceTrade} (ht : t ∈ r.trades targets pf) :
    t.skipped = false ↔ r.cfg.Trades targets pf t.instrument := by
  obtain ⟨-, ⟨hskipped, hnot⟩ | ⟨price, -, hmakes, htrades⟩⟩ := trade_cases ht
  · simp [hskipped, hnot]
  · simp [hmakes.made, htrades]

/-- The trades that are made are those of the instruments that are traded. -/
theorem RebalanceEngine.made_trades :
    (r.trades targets pf).filter (fun t => ¬ t.skipped) =
      ((instrument_universe targets pf).keys.filter fun i => r.cfg.Trades targets pf i).map
        fun i => r.cfg.planTrade targets pf i := by
  unfold trades
  rw [List.filter_map]
  congr 1
  refine List.filter_congr fun i _ => ?_
  obtain ⟨hskipped, hnot⟩ | ⟨price, -, hmakes, htrades⟩ := r.cfg.planTrade_cases targets pf i
  · simp [hskipped, hnot]
  · simp [hmakes.made, htrades]

/-- How many trades a pass makes. -/
def RebalanceConfig.tradeCount (cfg : RebalanceConfig) (targets : TargetPortfolio) (pf : Portfolio) : Nat :=
  ((instrument_universe targets pf).keys.filter fun i => cfg.Trades targets pf i).length

theorem RebalanceEngine.length_made :
    ((r.trades targets pf).filter fun t => ¬ t.skipped).length = r.cfg.tradeCount targets pf := by
  rw [made_trades, List.length_map, tradeCount]

theorem RebalanceEngine.turnover_eq :
    (((r.trades targets pf).filter fun t => ¬ t.skipped).map RebalanceTrade.notional).sum =
      r.cfg.turnover targets pf := by
  rw [made_trades, turnover, List.map_map]
  congr 1
  refine List.map_congr_left fun i hi => ?_
  have htraded : r.cfg.Trades targets pf i := by simpa using (List.mem_filter.mp hi).2
  obtain ⟨-, hnot⟩ | ⟨price, hprice, hmakes, -⟩ := r.cfg.planTrade_cases targets pf i
  · exact absurd htraded hnot
  · have hprice' : tradePrice targets pf i = some price := hprice
    rw [Function.comp_apply, hmakes.notional_eq, hmakes.delta_eq, planTrade_instrument, hprice',
      Option.getD_some]

/-- What a plan that is made holds, and when one is made. -/
theorem RebalanceEngine.plan_ok (hplan : r.plan targets pf = .ok plan) :
    plan.trades = r.trades targets pf ∧ 0 < pf.equity ∧ (0 < r.cfg.max_turnover_per_rebalance →
      r.cfg.turnover targets pf ≤ r.cfg.max_turnover_per_rebalance * pf.equity) ∧
      plan.skipped = (r.trades targets pf).countP fun t => t.skipped := by
  unfold RebalanceEngine.plan at hplan
  dsimp only at hplan
  split at hplan
  · cases hplan
  · rename_i hrich
    have hequity : 0 < pf.equity := by simpa using hrich
    split at hplan
    · cases hplan
    · rename_i hturnover
      cases hplan
      refine ⟨rfl, hequity, fun hlimited => ?_, rfl⟩
      have hwithin := not_lt.mp fun hover => hturnover ⟨hlimited, hover⟩
      rw [← turnover_eq]
      exact (div_le_iff₀ hequity).mp hwithin

theorem RebalanceEngine.plan_of_turnover (hequity : 0 < pf.equity)
    (hturnover : 0 < r.cfg.max_turnover_per_rebalance →
      r.cfg.turnover targets pf ≤ r.cfg.max_turnover_per_rebalance * pf.equity) :
    ∃ plan, r.plan targets pf = .ok plan := by
  unfold plan
  dsimp only
  rw [if_neg (by simpa using hequity)]
  split
  · rename_i hover
    have hwithin := hturnover hover.1
    rw [← turnover_eq, ← div_le_iff₀ hequity] at hwithin
    exact absurd hover.2 (not_lt.mpr hwithin)
  · exact ⟨_, rfl⟩

/-- A plan has something actionable when an instrument is traded. -/
theorem RebalanceEngine.actionable_ne_zero (hplan : r.plan targets pf = .ok plan) :
    plan.actionable ≠ 0 ↔ ∃ i ∈ (instrument_universe targets pf).keys, r.cfg.Trades targets pf i := by
  rw [RebalancePlan.actionable, (plan_ok hplan).1, ← Nat.pos_iff_ne_zero, List.countP_pos_iff]
  constructor
  · rintro ⟨t, ht, hmade⟩
    have hopen : t.skipped = false := by simpa using hmade
    exact ⟨t.instrument, (trade_cases ht).1, (skipped_iff ht).mp hopen⟩
  · rintro ⟨i, hi, htrades⟩
    have ht : r.cfg.planTrade targets pf i ∈ r.trades targets pf := List.mem_map_of_mem hi
    have hmade := (skipped_iff ht).mpr (by rwa [planTrade_instrument])
    exact ⟨_, ht, by simpa using hmade⟩

section Pass

variable {E : Type} {next_id : E → OrderId × E} {e : E} {orders : List Order}

theorem RebalanceEngine.to_orders_ok (hok : (r.to_orders plan now next_id e).1 = .ok orders) :
    is_set now = true ∧ r.to_orders plan now next_id e = r.cfg.ordersOf now next_id plan.trades e := by
  unfold to_orders at hok ⊢
  split at hok
  · cases hok
  · rename_i hdecided
    exact ⟨by simpa using hdecided, if_neg hdecided⟩

theorem RebalanceEngine.to_orders_keeps {B : Type} {f : E → B} (hnext : ∀ e, f (next_id e).2 = f e) :
    f (r.to_orders plan now next_id e).2 = f e := by
  unfold to_orders
  split
  · rfl
  · exact ordersOf_keeps hnext

/-- A pass that has orders to hand over trades. -/
theorem RebalanceEngine.willTrade_of_orders (hplan : r.plan targets pf = .ok plan) (hworth : plan.actionable ≠ 0)
    (hok : (r.to_orders plan now next_id e).1 = .ok orders) : r.cfg.WillTrade targets pf now := by
  obtain ⟨htrades, hequity, hturnover, -⟩ := plan_ok hplan
  obtain ⟨hdecided, heq⟩ := to_orders_ok hok
  refine ⟨hequity, (actionable_ne_zero hplan).mp hworth, hturnover, hdecided, fun i hi htraded => ?_⟩
  rw [heq, htrades] at hok
  obtain ⟨-, hnot⟩ | ⟨price, hprice, hmakes, -⟩ := r.cfg.planTrade_cases targets pf i
  · exact absurd htraded hnot
  · have hinstrument := r.cfg.planTrade_instrument targets pf i
    obtain ⟨id, o, hmake⟩ := orderOf_of_ordersOf hok (List.mem_map_of_mem hi) hmakes.made
    obtain ⟨-, hvalid, -, hpriced⟩ := (hmakes.orderOf_iff (by rwa [hinstrument])).mp ⟨o, hmake⟩
    rw [hinstrument] at hvalid hpriced
    refine ⟨hvalid, fun other hother => ?_⟩
    cases Option.some.inj (hprice.symm.trans hother)
    exact hpriced

/-- A pass that trades has orders to hand over, while there are ids for them. -/
theorem RebalanceEngine.orders_of_willTrade (hwill : r.cfg.WillTrade targets pf now)
    (hsupplies : Supplies next_id (r.cfg.tradeCount targets pf) e) :
    ∃ plan orders, r.plan targets pf = .ok plan ∧ plan.actionable ≠ 0 ∧
      (r.to_orders plan now next_id e).1 = .ok orders := by
  obtain ⟨plan, hplan⟩ := plan_of_turnover hwill.equity hwill.turnover
  obtain ⟨htrades, -⟩ := plan_ok hplan
  have horderable : ∀ t ∈ r.trades targets pf, t.skipped = false →
      ∀ id, id ≠ kNoOrder → ∃ o, r.cfg.orderOf t now id = .ok o := by
    intro t ht hmade id hid
    obtain ⟨price, hprice, hmakes, htraded⟩ := makes_of_mem ht hmade
    obtain ⟨hvalid, hpriced⟩ := hwill.orderable _ (trade_cases ht).1 htraded
    exact (hmakes.orderOf_iff htraded).mpr ⟨hid, hvalid, hwill.decided, hpriced price hprice⟩
  obtain ⟨orders, horders⟩ := ordersOf_total horderable
    (by rwa [length_made])
  refine ⟨plan, orders, hplan, (actionable_ne_zero hplan).mpr hwill.worthwhile, ?_⟩
  rw [to_orders, if_neg (by simp [hwill.decided]), htrades]
  exact horders

/-- As many orders as trades that are made. -/
theorem RebalanceEngine.to_orders_length (hok : (r.to_orders plan now next_id e).1 = .ok orders) :
    orders.length = plan.actionable := by
  obtain ⟨-, heq⟩ := to_orders_ok hok
  rw [heq] at hok
  rw [← (r.cfg.ordersOf_ok hok).length_eq, RebalancePlan.actionable, List.countP_eq_length_filter]

/-- What a quantity is missing after rounding, where it is traded. -/
def RebalanceConfig.ordered (cfg : RebalanceConfig) (targets : TargetPortfolio) (pf : Portfolio)
    (i : InstrumentId) : Qty :=
  if i ∈ (instrument_universe targets pf).keys ∧ cfg.Trades targets pf i then
    toLots cfg.lot_size (missing targets pf i) else 0

/-- The orders of a plan are those of the instruments that are traded, each for
what is missing of it, rounded. -/
theorem RebalanceEngine.to_orders_eq (hplan : r.plan targets pf = .ok plan)
    (hok : (r.to_orders plan now next_id e).1 = .ok orders) :
    orders.map (fun o => (o.instrument, o.signed_quantity)) =
      ((instrument_universe targets pf).keys.filter fun i => r.cfg.Trades targets pf i).map
        fun i => (i, toLots r.cfg.lot_size (missing targets pf i)) := by
  obtain ⟨htrades, -⟩ := plan_ok hplan
  obtain ⟨-, heq⟩ := to_orders_ok hok
  rw [heq, htrades] at hok
  have hordered : orders.map (fun o => (o.instrument, o.signed_quantity)) =
      ((r.trades targets pf).filter fun t => ¬ t.skipped).map
        fun t => (t.instrument, toLots r.cfg.lot_size (missing targets pf t.instrument)) := by
    have hforall := r.cfg.ordersOf_ok hok
    have hmade : ∀ t ∈ (r.trades targets pf).filter fun t => ¬ t.skipped,
        ∃ price, t.Makes r.cfg targets pf price := by
      intro t ht
      obtain ⟨ht, hopen⟩ := List.mem_filter.mp ht
      obtain ⟨price, -, hmakes, -⟩ := makes_of_mem ht (by simpa using hopen)
      exact ⟨price, hmakes⟩
    clear hok
    generalize (r.trades targets pf).filter (fun t => ¬ t.skipped) = made at hforall hmade
    induction hforall with
    | nil => rfl
    | @cons t o _ _ hhead _ ih =>
      obtain ⟨id, order, hmake, rfl⟩ := hhead
      obtain ⟨price, hmakes⟩ := hmade t List.mem_cons_self
      obtain ⟨hinstrument, hsigned⟩ := hmakes.orderOf_eq hmake
      rw [List.map_cons, List.map_cons, ih fun t ht => hmade t (List.mem_cons_of_mem _ ht)]
      congr 1
      exact Prod.ext hinstrument (hsigned.trans hmakes.delta_eq)
  rw [hordered, made_trades, List.map_map]
  refine List.map_congr_left fun i _ => ?_
  rw [Function.comp_apply, planTrade_instrument]

/-- The orders of one instrument come to what was missing of it. -/
theorem RebalanceEngine.to_orders_quantity (hplan : r.plan targets pf = .ok plan)
    (hok : (r.to_orders plan now next_id e).1 = .ok orders) (i : InstrumentId) :
    (orders.map fun o => if o.instrument = i then o.signed_quantity else 0).sum =
      r.cfg.ordered targets pf i := by
  have hquantity := congrArg (List.map fun entry : InstrumentId × Qty => if entry.1 = i then entry.2 else 0)
    (to_orders_eq hplan hok)
  rw [List.map_map, List.map_map] at hquantity
  simp only [Function.comp_def] at hquantity
  rw [hquantity, ordered]
  have hkeys := Table.nodup_keys (instrument_universe targets pf)
  rw [List.sum_map_eq_nsmul_single i]
  · simp only [if_true]
    split
    · rename_i htraded
      rw [List.count_eq_one_of_mem (hkeys.filter _) (List.mem_filter.mpr ⟨htraded.1, by simpa using htraded.2⟩),
        one_nsmul]
    · rename_i hnot
      rw [List.count_eq_zero_of_not_mem fun hi => hnot (by simpa using hi), zero_nsmul]
  · intro k hk _
    simp [hk]

end Pass

end Plan

end ptl.construction
