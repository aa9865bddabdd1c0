import TradingLab.Construction.Deltas
import TradingLab.Engine.Sink
import TradingLab.Pipeline.TradingPipeline

/-! A rebalance and the orders already on their way. It orders what the settled
positions are missing, so what is still working is ordered once more. -/

open ptl.oms ptl.portfolio ptl.engine ptl.execution ptl.construction
open Std (TreeMap)

namespace ptl.pipeline

variable {R : Type}

/-- The targets of one pass. -/
def TradingPipeline.targets (p : TradingPipeline) (pf : Portfolio) (now : Timestamp) (flatten : Bool) :
    TargetPortfolio :=
  (p.build_targets pf now flatten).targets

open TradingPipeline

/-- Orders handed to the sink so far. -/
def TradingPipeline.handed (p : TradingPipeline) : Nat := p.stats.orders_submitted + p.stats.orders_rejected

/-- The pass skips no trade, and none of its orders is refused. -/
structure TradingPipeline.AllOut (p : TradingPipeline) (e : Engine R) (now : Timestamp) (flatten : Bool) :
    Prop where
  planned : ∃ plan orders, p.rebalancer.plan (p.targets e.pf now flatten) e.pf = .ok plan ∧ plan.skipped = 0 ∧
    (p.rebalancer.to_orders plan now Engine.next_order_id e).1 = .ok orders
  taken : (p.rebalance e now flatten).1.stats.orders_rejected = p.stats.orders_rejected

/-- What is held and what is on its way come to the target, within a lot. -/
def ReachesTargets (targets : TargetPortfolio) (lot_size : Rat) (e : Engine R) : Prop :=
  ∀ (i : InstrumentId) t, targets.targets[i]? = some t →
    |e.pf.settledQuantity i + e.oms.exposure_of i - t.target_quantity| ≤ max 0 lot_size

/-- A second pass at the same instant hands nothing more over. -/
def TradingPipeline.NoFurther (p : TradingPipeline) (e : Engine R) (now : Timestamp) (flatten : Bool) : Prop :=
  ((p.rebalance e now flatten).1.rebalance (p.rebalance e now flatten).2 now flatten).1.handed =
    (p.rebalance e now flatten).1.handed

/-- The counter has ids for the orders of two passes. -/
def HasIds (targets : TargetPortfolio) (e : Engine R) : Prop :=
  0 < e.oms.next.toNat ∧
    e.oms.next.toNat + 2 * (instrument_universe targets e.pf).keys.length < 2 ^ 64

/-! ### Orders through the sink -/

/-- What handing over orders changes, from a pipeline and an engine to others. -/
structure Submitted (orders : List Order) (p : TradingPipeline) (e : Engine R) (p' : TradingPipeline)
    (e' : Engine R) : Prop where
  same : p' = { p with stats := p'.stats }
  handed_eq : p'.handed = p.handed + orders.length
  rejected_le : p.stats.orders_rejected ≤ p'.stats.orders_rejected
  pf_eq : e'.pf = e.pf
  exposure_eq : p'.stats.orders_rejected = p.stats.orders_rejected → ∀ i, e'.oms.exposure_of i =
    e.oms.exposure_of i + (orders.map fun o => if o.instrument = i then o.signed_quantity else 0).sum
  below : ∀ bound, bound < 2 ^ 64 → e.Below bound → (∀ o ∈ orders, o.id.toNat < bound) → e'.Below bound

theorem submit_order_submitted (p : TradingPipeline) (e : Engine R) (order : Order) :
    Submitted [order] p e (submit_order (p, e) order).1
      (submit_order (p, e) order).2 := by
  have hpf := e.submit_pf order
  have hexposure : ∀ id, (e.submit order).1 = .ok id → ∀ i, (e.submit order).2.oms.exposure_of i =
      e.oms.exposure_of i + if order.instrument = i then order.signed_quantity else 0 :=
    fun _ hok => e.submit_exposure hok
  have hbelow : ∀ bound, e.Below bound → order.id.toNat < bound → bound < 2 ^ 64 →
      (e.submit order).2.Below bound := fun _ he => he.submit
  unfold submit_order
  dsimp only
  generalize e.submit order = answer at hpf hexposure hbelow
  obtain ⟨result, e'⟩ := answer
  cases result with
  | ok id =>
    refine ⟨rfl, ?_, le_rfl, hpf, fun _ i => ?_, fun bound hbound he hids => ?_⟩
    · change p.stats.orders_submitted + 1 + p.stats.orders_rejected = _
      rw [List.length_singleton, handed]
      omega
    · rw [List.map_singleton, List.sum_singleton]
      exact hexposure id rfl i
    · exact hbelow bound he (hids order List.mem_cons_self) hbound
  | error err =>
    refine ⟨rfl, ?_, Nat.le_succ _, hpf, fun hnone => absurd hnone (Nat.succ_ne_self _), fun bound hbound he hids => ?_⟩
    · change p.stats.orders_submitted + (p.stats.orders_rejected + 1) = _
      rw [List.length_singleton, handed]
      omega
    · exact hbelow bound he (hids order List.mem_cons_self) hbound

theorem submit_orders_submitted (orders : List Order) (p : TradingPipeline) (e : Engine R) :
    Submitted orders p e (orders.foldl submit_order (p, e)).1
      (orders.foldl submit_order (p, e)).2 := by
  induction orders generalizing p e with
  | nil => exact ⟨rfl, rfl, le_rfl, rfl, fun _ _ => (add_zero _).symm, fun _ _ he _ => he⟩
  | cons order orders ih =>
    have hone := submit_order_submitted p e order
    have hrest := ih (submit_order (p, e) order).1 (submit_order (p, e) order).2
    rw [List.foldl_cons]
    generalize submit_order (p, e) order = first at hone hrest
    obtain ⟨p₁, e₁⟩ := first
    generalize orders.foldl submit_order (p₁, e₁) = final at hrest
    obtain ⟨p₂, e₂⟩ := final
    refine ⟨?_, ?_, hone.rejected_le.trans hrest.rejected_le, hrest.pf_eq.trans hone.pf_eq, fun hnone i => ?_,
      fun bound hbound he hids => ?_⟩
    · rw [hrest.same, hone.same]
    · rw [hrest.handed_eq, hone.handed_eq, List.length_singleton]
      rw [List.length_cons]
      omega
    · have hfirst := hone.rejected_le
      have hsecond := hrest.rejected_le
      rw [hrest.exposure_eq (by omega) i, hone.exposure_eq (by omega) i, List.map_singleton, List.sum_singleton,
        List.map_cons, List.sum_cons, add_assoc]
    · exact hrest.below bound hbound
        (hone.below bound hbound he fun o ho => hids o (by simp_all)) fun o ho => hids o (List.mem_cons_of_mem _ ho)

/-- The ids that orders take are below the counter, which moves on by no more
than one for each trade. -/
theorem ordersOf_below (cfg : RebalanceConfig) (now : Timestamp) {trades : List RebalanceTrade} {e : Engine R}
    {bound : Nat} (hbelow : e.Below bound) (hbound : bound + trades.length < 2 ^ 64) :
    (cfg.ordersOf now Engine.next_order_id trades e).2.Below (bound + trades.length) ∧
      ∀ orders, (cfg.ordersOf now Engine.next_order_id trades e).1 = .ok orders →
        ∀ o ∈ orders, o.id.toNat < bound + trades.length := by
  induction trades generalizing e bound with
  | nil =>
    refine ⟨hbelow, fun orders hok o ho => ?_⟩
    cases hok
    cases ho
  | cons t trades ih =>
    rw [List.length_cons] at hbound ⊢
    unfold RebalanceConfig.ordersOf
    split
    · obtain ⟨hrest, hids⟩ := ih hbelow (by omega)
      refine ⟨⟨hrest.positive, hrest.below.trans (by omega)⟩, fun orders hok o ho => ?_⟩
      have hid := hids orders hok o ho
      omega
    · obtain ⟨-, hid, hnext⟩ := hbelow.next_order_id (by omega)
      obtain ⟨hrest, hids⟩ := ih hnext (by omega)
      dsimp only
      split
      · refine ⟨⟨hnext.positive, hnext.below.trans (by omega)⟩, fun orders hok => ?_⟩
        cases hok
      · rename_i made hmake
        obtain ⟨hmade, -⟩ := cfg.orderOf_ok hmake
        generalize cfg.ordersOf now Engine.next_order_id trades e.next_order_id.2 = answer at hrest hids
        obtain ⟨result, e'⟩ := answer
        have hlater : e'.Below (bound + (trades.length + 1)) :=
          ⟨hrest.positive, hrest.below.trans (by omega)⟩
        cases result with
        | error err =>
          refine ⟨hlater, fun orders hok => ?_⟩
          cases hok
        | ok others =>
          refine ⟨hlater, fun orders hok o ho => ?_⟩
          cases hok
          obtain rfl | ho := List.mem_cons.mp ho
          · change made.id.toNat < _
            rw [hmade]
            omega
          · have hother := hids others rfl o ho
            omega

theorem supplies_of_below {e : Engine R} {bound n : Nat} (hbelow : e.Below bound) (hbound : bound + n < 2 ^ 64) :
    Supplies Engine.next_order_id n e := by
  induction n generalizing e bound with
  | zero => trivial
  | succ n ih =>
    obtain ⟨hid, -, hnext⟩ := hbelow.next_order_id (by omega)
    exact ⟨hid, ih hnext (by omega)⟩

/-! ### One pass -/

section Pass

variable {p : TradingPipeline} {e : Engine R} {now : Timestamp} {flatten : Bool}

/-- A pass hands nothing over, or hands over the orders of its plan. -/
theorem TradingPipeline.rebalance_cases (p : TradingPipeline) (e : Engine R) (now : Timestamp) (flatten : Bool) :
    ((∃ stats, (p.rebalance e now flatten).1 = { p with stats }) ∧
        (p.rebalance e now flatten).1.handed = p.handed ∧ (p.rebalance e now flatten).2.pf = e.pf ∧
        ∀ plan orders, p.rebalancer.plan (p.targets e.pf now flatten) e.pf = .ok plan → plan.actionable ≠ 0 →
          (p.rebalancer.to_orders plan now Engine.next_order_id e).1 ≠ .ok orders) ∨
      ∃ plan orders, p.rebalancer.plan (p.targets e.pf now flatten) e.pf = .ok plan ∧ plan.actionable ≠ 0 ∧
        (p.rebalancer.to_orders plan now Engine.next_order_id e).1 = .ok orders ∧
          Submitted orders p (p.rebalancer.to_orders plan now Engine.next_order_id e).2
            (p.rebalance e now flatten).1 (p.rebalance e now flatten).2 ∧
          ∃ p₁, (p.rebalance e now flatten).2 = (orders.foldl submit_order
            (p₁, (p.rebalancer.to_orders plan now Engine.next_order_id e).2)).2 := by
  generalize hpass : p.rebalance e now flatten = pass
  unfold rebalance at hpass
  dsimp only at hpass
  split at hpass
  · rename_i hpoor
    subst hpass
    refine .inl ⟨⟨p.stats, rfl⟩, rfl, rfl, fun plan orders hplan => ?_⟩
    rw [RebalanceEngine.plan, if_pos hpoor] at hplan
    cases hplan
  · cases hplan : p.rebalancer.plan (p.targets e.pf now flatten) e.pf with
    | error err =>
      rw [targets] at hplan
      rw [hplan] at hpass
      subst hpass
      refine .inl ⟨⟨p.stats, rfl⟩, rfl, rfl, fun plan orders hnone => ?_⟩
      cases hnone
    | ok plan =>
      rw [targets] at hplan
      rw [hplan] at hpass
      dsimp only at hpass
      split at hpass
      · rename_i hidle
        subst hpass
        refine .inl ⟨⟨p.stats, rfl⟩, rfl, rfl, fun other orders hother hworth => ?_⟩
        cases hother
        exact absurd hidle hworth
      · rename_i hworth
        have hpf : (p.rebalancer.to_orders plan now Engine.next_order_id e).2.pf = e.pf :=
          RebalanceEngine.to_orders_keeps (f := Engine.pf) fun _ => rfl
        generalize hanswer : p.rebalancer.to_orders plan now Engine.next_order_id e = answer at hpass hpf
        obtain ⟨result, e₁⟩ := answer
        cases result with
        | error err =>
          subst hpass
          refine .inl ⟨⟨_, rfl⟩, rfl, hpf, fun other orders hother _ => ?_⟩
          cases hother
          rw [hanswer]
          exact fun herror => by cases herror
        | ok orders =>
          dsimp only at hpass
          refine .inr ⟨plan, orders, rfl, hworth, by rw [hanswer], ?_⟩
          rw [hanswer, ← hpass]
          obtain ⟨hsame, hhanded, hrejected, hkeeps, hexposure, hbelow⟩ := submit_orders_submitted orders _ _
          refine ⟨⟨?_, hhanded, hrejected, hkeeps, hexposure, hbelow⟩, _, rfl⟩
          dsimp only [note_leverage]
          rw [hsame]

/-- A pass that trades, or not. -/
abbrev TradingPipeline.Trades (p : TradingPipeline) (pf : Portfolio) (now : Timestamp) (flatten : Bool) : Prop :=
  p.rebalancer.cfg.WillTrade (p.targets pf now flatten) pf now

theorem TradingPipeline.rebalance_keeps (p : TradingPipeline) (e : Engine R) (now : Timestamp) (flatten : Bool) :
    (∃ stats, (p.rebalance e now flatten).1 = { p with stats }) ∧ (p.rebalance e now flatten).2.pf = e.pf := by
  obtain ⟨hsame, -, hpf, -⟩ | ⟨plan, orders, -, -, -, hsubmitted, -⟩ := p.rebalance_cases e now flatten
  · exact ⟨hsame, hpf⟩
  · exact ⟨⟨_, hsubmitted.same⟩,
      hsubmitted.pf_eq.trans (RebalanceEngine.to_orders_keeps (f := Engine.pf) fun _ => rfl)⟩

theorem TradingPipeline.handed_of_not_trades (hidle : ¬ p.Trades e.pf now flatten) :
    (p.rebalance e now flatten).1.handed = p.handed := by
  obtain ⟨-, hhanded, -⟩ | ⟨plan, orders, hplan, hworth, hok, -⟩ := p.rebalance_cases e now flatten
  · exact hhanded
  · exact absurd (RebalanceEngine.willTrade_of_orders hplan hworth hok) hidle

/-- A pass that trades hands over the orders of its plan. -/
theorem TradingPipeline.rebalance_of_trades (htrades : p.Trades e.pf now flatten)
    (hsupplies : Supplies Engine.next_order_id
      (instrument_universe (p.targets e.pf now flatten) e.pf).keys.length e) :
    ∃ plan orders, p.rebalancer.plan (p.targets e.pf now flatten) e.pf = .ok plan ∧ plan.actionable ≠ 0 ∧
      (p.rebalancer.to_orders plan now Engine.next_order_id e).1 = .ok orders ∧
        Submitted orders p (p.rebalancer.to_orders plan now Engine.next_order_id e).2
          (p.rebalance e now flatten).1 (p.rebalance e now flatten).2 := by
  obtain ⟨-, -, -, hnone⟩ | ⟨plan, orders, hplan, hworth, hok, hsubmitted, -⟩ := p.rebalance_cases e now flatten
  · obtain ⟨plan, orders, hplan, hworth, hok⟩ := RebalanceEngine.orders_of_willTrade htrades
      (hsupplies.mono (List.length_filter_le _ _))
    exact absurd hok (hnone plan orders hplan hworth)
  · exact ⟨plan, orders, hplan, hworth, hok, hsubmitted⟩

theorem TradingPipeline.handed_of_trades (htrades : p.Trades e.pf now flatten)
    (hsupplies : Supplies Engine.next_order_id
      (instrument_universe (p.targets e.pf now flatten) e.pf).keys.length e) :
    p.handed < (p.rebalance e now flatten).1.handed := by
  obtain ⟨plan, orders, -, hworth, hok, hsubmitted⟩ := rebalance_of_trades htrades hsupplies
  have hmany := RebalanceEngine.to_orders_length hok
  rw [hsubmitted.handed_eq]
  omega

/-- One pass takes no more ids than it looks at instruments. -/
theorem TradingPipeline.rebalance_below {bound : Nat} (htrades : p.Trades e.pf now flatten) (hbelow : e.Below bound)
    (hbound : bound + (instrument_universe (p.targets e.pf now flatten) e.pf).keys.length < 2 ^ 64) :
    (p.rebalance e now flatten).2.Below
      (bound + (instrument_universe (p.targets e.pf now flatten) e.pf).keys.length) := by
  obtain ⟨plan, orders, hplan, -, hok, hsubmitted⟩ :=
    rebalance_of_trades htrades (supplies_of_below hbelow hbound)
  obtain ⟨hplanned, -⟩ := RebalanceEngine.plan_ok hplan
  have hlength : plan.trades.length = (instrument_universe (p.targets e.pf now flatten) e.pf).keys.length := by
    rw [hplanned, RebalanceEngine.trades, List.length_map]
  obtain ⟨-, heq⟩ := RebalanceEngine.to_orders_ok hok
  rw [heq] at hok hsubmitted
  rw [← hlength] at hbound ⊢
  obtain ⟨htaken, hids⟩ := ordersOf_below p.rebalancer.cfg now hbelow hbound
  exact hsubmitted.below _ hbound htaken (hids orders hok)

/-- A second pass hands over more exactly when the first one trades. -/
theorem TradingPipeline.noFurther_iff (hids : HasIds (p.targets e.pf now flatten) e) :
    p.NoFurther e now flatten ↔ ¬ p.Trades e.pf now flatten := by
  obtain ⟨⟨stats, hsame⟩, hpf⟩ := p.rebalance_keeps e now flatten
  have hagain : (p.rebalance e now flatten).1.Trades (p.rebalance e now flatten).2.pf now flatten ↔
      p.Trades e.pf now flatten := by
    rw [hsame, hpf]
    rfl
  constructor
  · intro hnone htrades
    have hbelow : e.Below e.oms.next.toNat := ⟨hids.1, le_rfl⟩
    have hroom := hids.2
    have hlater := rebalance_below htrades hbelow (by omega)
    have hmore := handed_of_trades (hagain.mpr htrades) (supplies_of_below hlater (by
      rw [hsame, hpf]
      change _ + (instrument_universe (p.targets e.pf now flatten) e.pf).keys.length < _
      omega))
    exact absurd hnone hmore.ne'
  · intro hidle
    exact handed_of_not_trades fun htrades => hidle (hagain.mp htrades)

/-- Where everything goes out, every target is traded. -/
theorem TradingPipeline.AllOut.traded (hout : p.AllOut e now flatten) {i : InstrumentId} {t : TargetPosition}
    (htarget : (p.targets e.pf now flatten).targets[i]? = some t) :
    ∃ plan orders, p.rebalancer.plan (p.targets e.pf now flatten) e.pf = .ok plan ∧ plan.actionable ≠ 0 ∧
      (p.rebalancer.to_orders plan now Engine.next_order_id e).1 = .ok orders ∧
        p.rebalancer.cfg.ordered (p.targets e.pf now flatten) e.pf i =
          toLots p.rebalancer.cfg.lot_size (missing (p.targets e.pf now flatten) e.pf i) := by
  obtain ⟨plan, orders, hplan, hskipped, hok⟩ := hout.planned
  obtain ⟨-, -, -, hcount⟩ := RebalanceEngine.plan_ok hplan
  have hkey : i ∈ (instrument_universe (p.targets e.pf now flatten) e.pf).keys := mem_universe_of_target htarget
  have htraded : p.rebalancer.cfg.Trades (p.targets e.pf now flatten) e.pf i := by
    have ht : p.rebalancer.cfg.planTrade (p.targets e.pf now flatten) e.pf i ∈
        p.rebalancer.trades (p.targets e.pf now flatten) e.pf := List.mem_map_of_mem hkey
    rw [hcount, List.countP_eq_zero] at hskipped
    have hmade := (RebalanceEngine.skipped_iff ht).mp (by simpa using hskipped _ ht)
    rwa [RebalanceConfig.planTrade_instrument] at hmade
  exact ⟨plan, orders, hplan, (RebalanceEngine.actionable_ne_zero hplan).mpr ⟨i, hkey, htraded⟩, hok,
    if_pos ⟨hkey, htraded⟩⟩

/-- Where everything goes out, what is on its way grows by all that is
missing, rounded. -/
theorem TradingPipeline.AllOut.exposure (hout : p.AllOut e now flatten) {i : InstrumentId} {t : TargetPosition}
    (htarget : (p.targets e.pf now flatten).targets[i]? = some t) :
    (p.rebalance e now flatten).2.oms.exposure_of i = e.oms.exposure_of i +
      toLots p.rebalancer.cfg.lot_size (missing (p.targets e.pf now flatten) e.pf i) := by
  obtain ⟨plan, orders, hplan, hworth, hok, hordered⟩ := hout.traded htarget
  obtain ⟨-, -, -, hnone⟩ | ⟨_, _, hplan', -, hok', hsubmitted, -⟩ := p.rebalance_cases e now flatten
  · exact absurd hok (hnone plan orders hplan hworth)
  · cases hplan.symm.trans hplan'
    cases hok.symm.trans hok'
    have hkept : (p.rebalancer.to_orders plan now Engine.next_order_id e).2.oms.exposure_of i =
        e.oms.exposure_of i :=
      RebalanceEngine.to_orders_keeps (f := fun e : Engine R => e.oms.exposure_of i) fun _ => rfl
    rw [hsubmitted.exposure_eq hout.taken i, hkept, RebalanceEngine.to_orders_quantity hplan hok, hordered]

/-- Where everything goes out, the target is missed by what was already on its
way and what rounding dropped. -/
theorem TradingPipeline.AllOut.reaches_iff (hout : p.AllOut e now flatten) :
    ReachesTargets (p.targets e.pf now flatten) p.rebalancer.cfg.lot_size (p.rebalance e now flatten).2 ↔
      ∀ (i : InstrumentId) t, (p.targets e.pf now flatten).targets[i]? = some t →
        |e.oms.exposure_of i - (missing (p.targets e.pf now flatten) e.pf i -
          toLots p.rebalancer.cfg.lot_size (missing (p.targets e.pf now flatten) e.pf i))| ≤
          max 0 p.rebalancer.cfg.lot_size := by
  obtain ⟨-, hpf⟩ := p.rebalance_keeps e now flatten
  refine forall_congr' fun i => forall_congr' fun t => forall_congr' fun htarget => ?_
  have hwanted : (p.targets e.pf now flatten).wanted i = t.target_quantity := by
    rw [TargetPortfolio.wanted, htarget]
    rfl
  rw [hpf, hout.exposure htarget, missing, hwanted]
  have hmissed : e.pf.settledQuantity i +
      (e.oms.exposure_of i + toLots p.rebalancer.cfg.lot_size (t.target_quantity - e.pf.settledQuantity i)) -
        t.target_quantity =
      e.oms.exposure_of i - (t.target_quantity - e.pf.settledQuantity i -
        toLots p.rebalancer.cfg.lot_size (t.target_quantity - e.pf.settledQuantity i)) := by
    ring
  rw [hmissed]

end Pass

/-- A pass that trades is repeated by a second one, and one that hands over
everything misses its targets by what was on its way before it. -/
theorem TradingPipeline.rebalance_in_flight (p : TradingPipeline) (e : Engine R) (now : Timestamp)
    (flatten : Bool) (hids : HasIds (p.targets e.pf now flatten) e) :
    (((p.AllOut e now flatten → ReachesTargets (p.targets e.pf now flatten) p.rebalancer.cfg.lot_size
          (p.rebalance e now flatten).2) ∧ p.NoFurther e now flatten) ↔
        ¬ p.rebalancer.cfg.WillTrade (p.targets e.pf now flatten) e.pf now) ∧
      (p.AllOut e now flatten →
        (ReachesTargets (p.targets e.pf now flatten) p.rebalancer.cfg.lot_size (p.rebalance e now flatten).2 ↔
          ∀ (i : InstrumentId) t, (p.targets e.pf now flatten).targets[i]? = some t →
            |e.oms.exposure_of i - (missing (p.targets e.pf now flatten) e.pf i -
              toLots p.rebalancer.cfg.lot_size (missing (p.targets e.pf now flatten) e.pf i))| ≤
              max 0 p.rebalancer.cfg.lot_size)) := by
  refine ⟨⟨fun hmeets => (noFurther_iff hids).mp hmeets.2, fun hidle => ?_⟩,
    fun hout => hout.reaches_iff⟩
  refine ⟨fun hout i t htarget => ?_, (noFurther_iff hids).mpr hidle⟩
  obtain ⟨plan, orders, hplan, hworth, hok, -⟩ := hout.traded htarget
  exact absurd (RebalanceEngine.willTrade_of_orders hplan hworth hok) hidle

/-! ### A signal acted on twice -/

/-- An engine that has just seen its first bar. -/
def quotedEngine : Engine Unit :=
  (((engineMachine Unit replay).exec (flatSession [barOf 1 1000000]) [.arrive]).get (by decide +kernel)).engine

/-- The pipeline and the engine after its first pass, which orders a hundred
shares. -/
def firstPass : TradingPipeline × Engine Unit := (sharesPipeline 100).rebalance quotedEngine 1 false

theorem TradingPipeline.rebalance_in_flight_quoted :
    HasIds ((sharesPipeline 100).targets quotedEngine.pf 1 false) quotedEngine ∧
      (((((sharesPipeline 100).AllOut quotedEngine 1 false →
          ReachesTargets ((sharesPipeline 100).targets quotedEngine.pf 1 false)
            (sharesPipeline 100).rebalancer.cfg.lot_size firstPass.2) ∧
          (sharesPipeline 100).NoFurther quotedEngine 1 false) ↔
        ¬ (sharesPipeline 100).rebalancer.cfg.WillTrade
          ((sharesPipeline 100).targets quotedEngine.pf 1 false) quotedEngine.pf 1)) := by
  have hids : HasIds ((sharesPipeline 100).targets quotedEngine.pf 1 false) quotedEngine := by
    unfold HasIds
    decide +kernel
  exact ⟨hids, ((sharesPipeline 100).rebalance_in_flight quotedEngine 1 false hids).1⟩

/-- The second pass orders the hundred shares again: two hundred are on their
way, and a hundred are wanted. -/
theorem TradingPipeline.rebalance_orders_twice :
    ¬ (sharesPipeline 100).NoFurther quotedEngine 1 false ∧ firstPass.1.AllOut firstPass.2 1 false ∧
      ¬ ReachesTargets (firstPass.1.targets firstPass.2.pf 1 false) firstPass.1.rebalancer.cfg.lot_size
        (firstPass.1.rebalance firstPass.2 1 false).2 := by
  refine ⟨?_, ⟨?_, by decide +kernel⟩, ?_⟩
  · unfold TradingPipeline.NoFurther
    decide +kernel
  · have hplanned : (firstPass.1.rebalancer.plan (firstPass.1.targets firstPass.2.pf 1 false)
        firstPass.2.pf).toOption.map (fun plan => (plan.skipped,
          (firstPass.1.rebalancer.to_orders plan 1 Engine.next_order_id firstPass.2).1.toOption.isSome)) =
        some (0, true) := by decide +kernel
    obtain ⟨plan, hplan, hshown⟩ := Option.map_eq_some_iff.mp hplanned
    obtain ⟨hskipped, hsome⟩ := Prod.mk.inj hshown
    obtain ⟨orders, horders⟩ := Option.isSome_iff_exists.mp hsome
    exact ⟨plan, orders, Result.toOption_eq_some.mp hplan, hskipped, Result.toOption_eq_some.mp horders⟩
  · intro hreaches
    have htarget : ((firstPass.1.targets firstPass.2.pf 1 false).targets[(0 : InstrumentId)]?).map
        TargetPosition.target_quantity = some 100 := by decide +kernel
    obtain ⟨t, ht, hquantity⟩ := Option.map_eq_some_iff.mp htarget
    have hmissed := hreaches 0 t ht
    rw [hquantity] at hmissed
    revert hmissed
    decide +kernel

end ptl.pipeline
