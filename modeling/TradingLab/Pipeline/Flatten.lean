import TradingLab.Construction.Replan
import TradingLab.Pipeline.Exposure
import TradingLab.Pipeline.InFlight

/-! The pass before the close. It is a rebalance to targets of zero, so a position
is closed when an ordinary rebalance would have traded all of it. -/

open ptl.oms ptl.portfolio ptl.engine ptl.execution ptl.signal ptl.sizing ptl.construction
open Std (TreeMap)

namespace ptl.pipeline

open TradingPipeline

variable {R : Type}

/-- A position that is held and has a mark. -/
structure Exposed (pf : Portfolio) (i : InstrumentId) (pos : Position) : Prop where
  held : pf.position i = some pos
  not_flat : pos.is_flat = false
  marked : (pf.mark_price i).isSome

/-- An order filled in full. -/
structure FilledInFull (o : Order) (f : Fill) : Prop where
  instrument_eq : f.instrument = o.instrument
  side_eq : f.side = o.side
  quantity_eq : f.quantity = o.quantity

/-- Every marked position has one order, for all of it. When the orders fill, in
any order and at any price, no marked position is left. -/
structure Flattens (pf : Portfolio) (orders : List Order) : Prop where
  one_each : ∀ i pos, Exposed pf i pos →
    ∃ o, orders.filter (fun o => o.instrument = i) = [o] ∧ o.signed_quantity = -pos.quantity
  none_left : ∀ filled fills pf', filled.Perm orders → List.Forall₂ FilledInFull filled fills →
    applyFills pf fills = some pf' → ∀ i, Open pf' i → pf.mark_price i = none

/-- The orders a pass hands over. -/
def TradingPipeline.outgoing (p : TradingPipeline) (e : Engine R) (now : Timestamp) (flatten : Bool) :
    List Order :=
  match p.rebalancer.plan (p.targets e.pf now flatten) e.pf with
  | .error _ => []
  | .ok plan => ((p.rebalancer.to_orders plan now Engine.next_order_id e).1.toOption).getD []

/-! ### When a position is closed -/

section Exits

variable (p : TradingPipeline) (pf : Portfolio) (now : Timestamp) (i : InstrumentId)

/-- The price a position is closed at: the last close while a signal holds, or
else the mark. -/
def TradingPipeline.exitPrice : Option Price :=
  match p.latest_signals[i]?, p.state[i]? with
  | some sig, some st =>
    if 0 < st.last_close ∧ ¬ (is_set sig.expires_at ∧ now > sig.expires_at) ∧ i ≠ kInvalidInstrument then
      some st.last_close
    else pf.mark_price i
  | _, _ => pf.mark_price i

/-- Closing the position is worth a trade. -/
def TradingPipeline.Exits : Prop :=
  ∃ price ∈ p.exitPrice pf now i, p.rebalancer.cfg.Worth pf.equity (-pf.settledQuantity i) price

instance : Decidable (p.Exits pf now i) :=
  inferInstanceAs (Decidable (∃ price ∈ p.exitPrice pf now i, _))

/-- The positions worth closing. -/
def TradingPipeline.exits : List InstrumentId := pf.positions.keys.filter fun i => p.Exits pf now i

/-- What closing them turns over. -/
def TradingPipeline.exitTurnover : Notional :=
  ((p.exits pf now).map fun i =>
    |toLots p.rebalancer.cfg.lot_size (-pf.settledQuantity i)| * (p.exitPrice pf now i).getD 0).sum

end Exits

/-- The positions worth closing may all be closed in one pass, and can be
ordered. -/
structure TradingPipeline.CanExit (p : TradingPipeline) (e : Engine R) (now : Timestamp) : Prop where
  turnover : 0 < p.rebalancer.cfg.max_turnover_per_rebalance →
    p.exitTurnover e.pf now ≤ p.rebalancer.cfg.max_turnover_per_rebalance * e.pf.equity
  decided : is_set now = true
  orderable : ∀ i ∈ p.exits e.pf now, i ≠ kInvalidInstrument ∧ ∀ price ∈ p.exitPrice e.pf now i,
    p.rebalancer.cfg.Priced (if -e.pf.settledQuantity i ≥ 0 then 1 else -1) price
  ids : Supplies Engine.next_order_id (p.exits e.pf now).length e

/-- Each marked position is worth closing and is of whole lots, and they can be
closed together. -/
structure TradingPipeline.ClosesOut (p : TradingPipeline) (e : Engine R) (now : Timestamp) : Prop where
  each : ∀ i pos, Exposed e.pf i pos → p.Exits e.pf now i ∧
    toLots p.rebalancer.cfg.lot_size (-pos.quantity) = -pos.quantity
  together : (∃ i pos, Exposed e.pf i pos) → p.CanExit e now

section Targets

variable {p : TradingPipeline} {pf : Portfolio} {now : Timestamp} {i : InstrumentId} {sig : Signal}

/-- The target of a pass before the close, if the signal makes one. -/
def TradingPipeline.flatTarget (p : TradingPipeline) (now : Timestamp) (i : InstrumentId) (sig : Signal) :
    Option TargetPosition :=
  match p.state[i]? with
  | none => none
  | some st =>
    if 0 < st.last_close ∧ ¬ (is_set sig.expires_at ∧ now > sig.expires_at) ∧ i ≠ kInvalidInstrument then
      some (targetOf i st sig {})
    else none

theorem TradingPipeline.build_target_flat {b : Building} (hnew : b.targets.targets[i]? = none) :
    (p.build_target pf now true b i sig).targets.targets[i]? = p.flatTarget now i sig := by
  unfold build_target flatTarget
  cases p.state[i]? with
  | none => exact hnew
  | some st =>
    dsimp only
    split
    · rename_i hworthless
      rw [if_neg fun hlive => absurd hlive.1 (not_lt.mpr hworthless)]
      exact hnew
    · rename_i hworth
      split
      · rename_i hexpired
        rw [if_neg fun hlive => hlive.2.1 hexpired]
        exact hnew
      · rename_i hlive
        rw [if_pos rfl, claim]
        by_cases hinvalid : i = kInvalidInstrument
        · have hrefused : b.targets.set (targetOf i st sig {}) = (.error (bad "target has no instrument"), b.targets) :=
            if_pos hinvalid
          rw [hrefused, if_neg fun hgood => hgood.2.2 hinvalid]
          exact hnew
        · rw [set_of_new (t := targetOf i st sig {}) hinvalid (not_le.mp hworth) hnew,
            if_pos ⟨not_le.mp hworth, hlive, hinvalid⟩]
          exact Table.getElem?_insert_self _ _ _

theorem TradingPipeline.build_target_other {b : Building} {key : InstrumentId} (hother : key ≠ i) :
    (p.build_target pf now true b key sig).targets.targets[i]? = b.targets.targets[i]? := by
  unfold build_target
  split
  · rfl
  · rename_i st _
    split
    · rfl
    · split
      · rfl
      · dsimp only
        obtain heq | ⟨t, -, -, -, heq⟩ := p.claim_cases key st sig (if true then {} else _) b
        · exact congrArg (fun b : Building => b.targets.targets[i]?) heq
        · exact (congrArg (fun b : Building => b.targets.targets[i]?) heq).trans
            (Table.getElem?_insert_of_ne _ _ hother)

theorem TradingPipeline.build_flat_other {entries : List (InstrumentId × Signal)} {b : Building}
    (hnone : i ∉ entries.map Prod.fst) :
    (entries.foldl (fun b entry => p.build_target pf now true b entry.1 entry.2) b).targets.targets[i]? =
      b.targets.targets[i]? := by
  induction entries generalizing b with
  | nil => rfl
  | cons entry entries ih =>
    rw [List.map_cons, List.mem_cons, not_or] at hnone
    exact (ih hnone.2).trans (build_target_other (Ne.symm hnone.1))

theorem TradingPipeline.build_flat {entries : List (InstrumentId × Signal)} {b : Building}
    (hdistinct : (entries.map Prod.fst).Nodup) (hnew : b.targets.targets[i]? = none)
    (hsignal : (i, sig) ∈ entries) :
    (entries.foldl (fun b entry => p.build_target pf now true b entry.1 entry.2) b).targets.targets[i]? =
      p.flatTarget now i sig := by
  induction entries generalizing b with
  | nil => cases hsignal
  | cons entry entries ih =>
    obtain ⟨hfirst, hdistinct⟩ := List.nodup_cons.mp hdistinct
    rcases List.mem_cons.mp hsignal with rfl | hlater
    · exact (build_flat_other hfirst).trans (build_target_flat hnew)
    · have hother : entry.1 ≠ i := by
        rintro rfl
        exact hfirst (List.mem_map.mpr ⟨_, hlater, rfl⟩)
      exact ih hdistinct ((build_target_other hother).trans hnew) hlater

/-- The targets of a pass before the close are those of its signals. -/
theorem TradingPipeline.targets_flat (p : TradingPipeline) (pf : Portfolio) (now : Timestamp) (i : InstrumentId) :
    (p.targets pf now true).targets[i]? = p.latest_signals[i]?.bind (p.flatTarget now i) := by
  have hempty : (∅ : TreeMap InstrumentId TargetPosition)[i]? = none := TreeMap.getElem?_emptyc
  rw [targets, build_targets, TreeMap.foldl_eq_foldl_toList]
  cases hsignal : p.latest_signals[i]? with
  | none =>
    refine (build_flat_other ?_).trans hempty
    rw [TreeMap.map_fst_toList_eq_keys, TreeMap.mem_keys, TreeMap.mem_iff_isSome_getElem?, hsignal]
    exact Bool.false_ne_true
  | some sig =>
    refine build_flat ?_ hempty (TreeMap.mem_toList_iff_getElem?_eq_some.mpr hsignal)
    rw [TreeMap.map_fst_toList_eq_keys]
    exact Table.nodup_keys _

/-- Nothing is wanted before the close. -/
theorem TradingPipeline.missing_flat (p : TradingPipeline) (pf : Portfolio) (now : Timestamp) (i : InstrumentId) :
    missing (p.targets pf now true) pf i = -pf.settledQuantity i := by
  have hwanted : (p.targets pf now true).wanted i = 0 := by
    rw [TargetPortfolio.wanted, p.targets_flat]
    cases p.latest_signals[i]? with
    | none => rfl
    | some sig =>
      rw [Option.bind_some, flatTarget]
      repeat' split
      all_goals rfl
  rw [missing, hwanted, zero_sub]

theorem TradingPipeline.tradePrice_flat (p : TradingPipeline) (pf : Portfolio) (now : Timestamp) (i : InstrumentId) :
    tradePrice (p.targets pf now true) pf i = p.exitPrice pf now i := by
  rw [tradePrice, p.targets_flat, exitPrice]
  cases p.latest_signals[i]? with
  | none => rfl
  | some sig =>
    rw [Option.bind_some, flatTarget]
    cases p.state[i]? with
    | none => rfl
    | some st =>
      dsimp only
      by_cases hlive : 0 < st.last_close ∧ ¬ (is_set sig.expires_at ∧ now > sig.expires_at) ∧ i ≠ kInvalidInstrument
      · rw [if_pos hlive, if_pos hlive]
        rfl
      · rw [if_neg hlive, if_neg hlive]

theorem TradingPipeline.trades_flat (p : TradingPipeline) (pf : Portfolio) (now : Timestamp) (i : InstrumentId) :
    p.rebalancer.cfg.Trades (p.targets pf now true) pf i ↔ p.Exits pf now i := by
  rw [RebalanceConfig.Trades, TradingPipeline.Exits, p.tradePrice_flat, p.missing_flat]

/-- What is traded before the close is what is worth closing. -/
theorem TradingPipeline.exits_perm (p : TradingPipeline) (pf : Portfolio) (now : Timestamp) :
    ((instrument_universe (p.targets pf now true) pf).keys.filter fun i =>
      p.rebalancer.cfg.Trades (p.targets pf now true) pf i).Perm (p.exits pf now) := by
  refine (List.perm_ext_iff_of_nodup ((Table.nodup_keys _).filter _) ((Table.nodup_keys _).filter _)).mpr fun i => ?_
  simp only [List.mem_filter, decide_eq_true_eq, p.trades_flat]
  refine and_congr_left fun hexits => iff_of_true ?_ ?_
  · exact ((p.trades_flat pf now i).mpr hexits).mem_universe
  · obtain ⟨_, -, hworth⟩ := hexits
    rw [TreeMap.mem_keys]
    by_contra hnone
    refine hworth.nonzero ?_
    rw [Portfolio.settledQuantity, Portfolio.position, TreeMap.getElem?_eq_none hnone, Option.elim_none, neg_zero]

theorem TradingPipeline.turnover_flat (p : TradingPipeline) (pf : Portfolio) (now : Timestamp) :
    p.rebalancer.cfg.turnover (p.targets pf now true) pf = p.exitTurnover pf now := by
  rw [RebalanceConfig.turnover, ((p.exits_perm pf now).map _).sum_eq, exitTurnover]
  congr 1
  refine List.map_congr_left fun i _ => ?_
  rw [p.missing_flat, p.tradePrice_flat]

theorem TradingPipeline.mem_exits : i ∈ p.exits pf now ↔ p.Exits pf now i := by
  rw [← (p.exits_perm pf now).mem_iff, List.mem_filter, decide_eq_true_eq, p.trades_flat]
  exact and_iff_right_of_imp fun hexits => ((p.trades_flat pf now i).mpr hexits).mem_universe

/-- The pass before the close trades when something is worth closing, and all of
it can be closed. -/
theorem TradingPipeline.canExit_iff {e : Engine R} (hequity : 0 < e.pf.equity) (hsome : p.exits e.pf now ≠ []) :
    p.CanExit e now ↔ p.rebalancer.cfg.WillTrade (p.targets e.pf now true) e.pf now ∧
      Supplies Engine.next_order_id (p.rebalancer.cfg.tradeCount (p.targets e.pf now true) e.pf) e := by
  have hcount : p.rebalancer.cfg.tradeCount (p.targets e.pf now true) e.pf = (p.exits e.pf now).length :=
    (p.exits_perm e.pf now).length_eq
  rw [hcount]
  constructor
  · intro hcan
    obtain ⟨i, hi⟩ := List.exists_mem_of_ne_nil _ hsome
    have htrades := (p.trades_flat e.pf now i).mpr (mem_exits.mp hi)
    refine ⟨⟨hequity, ⟨i, htrades.mem_universe, htrades⟩, ?_, hcan.decided, fun i _ htraded => ?_⟩, hcan.ids⟩
    · rw [p.turnover_flat]
      exact hcan.turnover
    · rw [p.tradePrice_flat, p.missing_flat]
      exact hcan.orderable i (mem_exits.mpr ((p.trades_flat e.pf now i).mp htraded))
  · rintro ⟨hwill, hids⟩
    refine ⟨?_, hwill.decided, fun i hi => ?_, hids⟩
    · rw [← p.turnover_flat]
      exact hwill.turnover
    · have htrades := (p.trades_flat e.pf now i).mpr (mem_exits.mp hi)
      rw [← p.tradePrice_flat, ← p.missing_flat]
      exact hwill.orderable i htrades.mem_universe htrades

end Targets

/-! ### The orders of the pass -/

section Orders

variable {p : TradingPipeline} {e : Engine R} {now : Timestamp} {flatten : Bool} {i : InstrumentId}

theorem TradingPipeline.outgoing_of_ok {plan : RebalancePlan} {orders : List Order}
    (hplan : p.rebalancer.plan (p.targets e.pf now flatten) e.pf = .ok plan)
    (hok : (p.rebalancer.to_orders plan now Engine.next_order_id e).1 = .ok orders) :
    p.outgoing e now flatten = orders := by
  rw [outgoing, hplan]
  dsimp only
  rw [hok]
  rfl

/-- Orders that go out come of a plan. -/
theorem TradingPipeline.planned_of_outgoing (hsome : p.outgoing e now flatten ≠ []) :
    ∃ plan, p.rebalancer.plan (p.targets e.pf now flatten) e.pf = .ok plan ∧ plan.actionable ≠ 0 ∧
      (p.rebalancer.to_orders plan now Engine.next_order_id e).1 = .ok (p.outgoing e now flatten) := by
  cases hplan : p.rebalancer.plan (p.targets e.pf now flatten) e.pf with
  | error err =>
    rw [outgoing, hplan] at hsome
    exact absurd rfl hsome
  | ok plan =>
    cases hok : (p.rebalancer.to_orders plan now Engine.next_order_id e).1 with
    | error err =>
      rw [outgoing, hplan] at hsome
      dsimp only at hsome
      rw [hok] at hsome
      exact absurd rfl hsome
    | ok orders =>
      rw [outgoing_of_ok hplan hok] at hsome ⊢
      refine ⟨plan, rfl, ?_, hok⟩
      rw [← RebalanceEngine.to_orders_length hok]
      exact fun hnone => hsome (List.length_eq_zero_iff.mp hnone)

/-- A pass hands its orders over, one after the other, to an engine with the
portfolio it looked at. -/
theorem TradingPipeline.rebalance_hands_over (p : TradingPipeline) (e : Engine R) (now : Timestamp) (flatten : Bool) :
    ∃ p₁ e₁, e₁.pf = e.pf ∧
      (p.rebalance e now flatten).2 = ((p.outgoing e now flatten).foldl submit_order (p₁, e₁)).2 := by
  obtain ⟨-, -, hpf, hnone⟩ | ⟨plan, orders, hplan, -, hok, -, p₁, hpass⟩ := p.rebalance_cases e now flatten
  · refine ⟨p, (p.rebalance e now flatten).2, hpf, ?_⟩
    have hidle : p.outgoing e now flatten = [] := by
      by_contra hsome
      obtain ⟨plan, hplan, hworth, hok⟩ := planned_of_outgoing hsome
      exact hnone plan _ hplan hworth hok
    rw [hidle]
    rfl
  · refine ⟨p₁, (p.rebalancer.to_orders plan now Engine.next_order_id e).2,
      RebalanceEngine.to_orders_keeps (f := Engine.pf) fun _ => rfl, ?_⟩
    rw [outgoing_of_ok hplan hok]
    exact hpass

/-- The orders before the close are of what is worth closing, one each. -/
theorem TradingPipeline.outgoing_flat (hsome : p.outgoing e now true ≠ []) :
    ((p.outgoing e now true).map fun o => (o.instrument, o.signed_quantity)).Perm
      ((p.exits e.pf now).map fun i => (i, toLots p.rebalancer.cfg.lot_size (-e.pf.settledQuantity i))) := by
  obtain ⟨plan, hplan, -, hok⟩ := planned_of_outgoing hsome
  rw [RebalanceEngine.to_orders_eq hplan hok]
  refine ((p.exits_perm e.pf now).map _).trans (.of_eq (List.map_congr_left fun i _ => ?_))
  rw [p.missing_flat]

theorem TradingPipeline.outgoing_distinct :
    ((p.outgoing e now true).map Order.instrument).Nodup := by
  by_cases hsome : p.outgoing e now true = []
  · rw [hsome]
    exact List.nodup_nil
  · have hperm := (outgoing_flat hsome).map Prod.fst
    rw [List.map_map, List.map_map] at hperm
    refine hperm.nodup_iff.mpr ?_
    rw [show Prod.fst ∘ _ = id from rfl, List.map_id]
    exact (Table.nodup_keys _).filter _

theorem TradingPipeline.outgoing_signed {o : Order} (ho : o ∈ p.outgoing e now true) :
    p.Exits e.pf now o.instrument ∧
      o.signed_quantity = toLots p.rebalancer.cfg.lot_size (-e.pf.settledQuantity o.instrument) := by
  have hmem := (outgoing_flat (List.ne_nil_of_mem ho)).mem_iff.mp (List.mem_map_of_mem ho)
  obtain ⟨i, hi, heq⟩ := List.mem_map.mp hmem
  obtain ⟨rfl, hsigned⟩ := Prod.mk.inj heq
  exact ⟨mem_exits.mp hi, hsigned.symm⟩

theorem TradingPipeline.outgoing_of_exits (hsome : p.outgoing e now true ≠ []) (hexits : p.Exits e.pf now i) :
    ∃ o ∈ p.outgoing e now true, o.instrument = i := by
  have hmem := (outgoing_flat hsome).mem_iff.mpr
    (List.mem_map_of_mem (mem_exits.mpr hexits))
  obtain ⟨o, ho, heq⟩ := List.mem_map.mp hmem
  exact ⟨o, ho, (Prod.mk.inj heq).1⟩

end Orders

/-! ### What the orders leave -/

/-- Of distinct keys, each is found once. -/
theorem filter_key_eq {α κ : Type} [DecidableEq κ] {key : α → κ} {l : List α} (hdistinct : (l.map key).Nodup)
    {a : α} (ha : a ∈ l) : (l.filter fun b => key b = key a) = [a] := by
  induction l with
  | nil => cases ha
  | cons b l ih =>
    obtain ⟨hfirst, hdistinct⟩ := List.nodup_cons.mp hdistinct
    rcases List.mem_cons.mp ha with rfl | hlater
    · have hnone : (l.filter fun b => key b = key a) = [] := by
        refine List.filter_eq_nil_iff.mpr fun b hb heq => hfirst ?_
        exact List.mem_map.mpr ⟨b, hb, of_decide_eq_true heq⟩
      rw [List.filter_cons_of_pos (by simp), hnone]
    · have hother : key b ≠ key a := fun heq => hfirst (List.mem_map.mpr ⟨a, hlater, heq.symm⟩)
      rw [List.filter_cons_of_neg (by simpa using hother), ih hdistinct hlater]

theorem FilledInFull.signed_eq {o : Order} {f : Fill} (hfilled : FilledInFull o f) :
    f.signed_quantity = o.signed_quantity := by
  rw [Fill.signed_quantity, Order.signed_quantity, hfilled.side_eq, hfilled.quantity_eq]

/-- Orders of what is held, one for each marked position and for all of it, leave
no marked position. -/
theorem Flattens.of_one_each {pf : Portfolio} {orders : List Order}
    (hdistinct : (orders.map Order.instrument).Nodup) (hheld : ∀ o ∈ orders, Open pf o.instrument)
    (hone : ∀ i pos, Exposed pf i pos → ∃ o ∈ orders, o.instrument = i ∧ o.signed_quantity = -pos.quantity) :
    Flattens pf orders := by
  refine ⟨fun i pos hexposed => ?_, fun filled fills pf' hperm hforall happlied i hopen => ?_⟩
  · obtain ⟨o, ho, rfl, hsigned⟩ := hone i pos hexposed
    exact ⟨o, filter_key_eq hdistinct ho, hsigned⟩
  · have hsame : fills.map (fun f => (f.instrument, f.signed_quantity)) =
        filled.map fun o => (o.instrument, o.signed_quantity) := by
      rw [eq_comm, ← List.forall₂_eq_eq_eq, List.forall₂_map_left_iff, List.forall₂_map_right_iff]
      exact hforall.imp fun o f hfilled => Prod.ext hfilled.instrument_eq.symm hfilled.signed_eq.symm
    have hentries := hperm.map fun o => (o.instrument, o.signed_quantity)
    rw [← hsame] at hentries
    have hfills : (fills.map Fill.instrument).Nodup := by
      have hinstruments := hentries.map Prod.fst
      rw [List.map_map, List.map_map] at hinstruments
      exact hinstruments.nodup_iff.mpr hdistinct
    by_contra hmarked
    -- A marked position that was open has an order, which filled.
    have hclosed : Open pf i → ∃ f ∈ fills, f.instrument = i ∧ pf.settledQuantity i + f.signed_quantity = 0 := by
      rintro ⟨pos, hpos, hopen⟩
      obtain ⟨o, ho, rfl, hsigned⟩ := hone i pos ⟨hpos, hopen, Option.isSome_iff_ne_none.mpr hmarked⟩
      obtain ⟨f, hf, heq⟩ := List.mem_map.mp (hentries.mem_iff.mpr
        (List.mem_map_of_mem (f := fun o : Order => (o.instrument, o.signed_quantity)) ho))
      obtain ⟨hinstrument, hquantity⟩ := Prod.mk.inj heq
      refine ⟨f, hf, hinstrument, ?_⟩
      rw [hquantity, hsigned, Portfolio.settledQuantity, hpos, Option.elim_some, add_neg_cancel]
    by_cases hfill : ∃ f ∈ fills, f.instrument = i
    · obtain ⟨f, hf, rfl⟩ := hfill
      obtain ⟨o, ho, heq⟩ := List.mem_map.mp (hentries.mem_iff.mp
        (List.mem_map_of_mem (f := fun f : Fill => (f.instrument, f.signed_quantity)) hf))
      have hheld := hheld o ho
      rw [(Prod.mk.inj heq).1] at hheld
      obtain ⟨g, hg, hsame, hzero⟩ := hclosed hheld
      have hmoved := applyFills_quantity hfills hg happlied
      rw [hsame, hzero] at hmoved
      exact open_iff.mp hopen hmoved
    · have hkept := settledQuantity_congr (applyFills_position
        (fun f hf hsame => hfill ⟨f, hf, hsame⟩) happlied)
      rw [open_iff, hkept, ← open_iff] at hopen
      obtain ⟨f, hf, hsame, -⟩ := hclosed hopen
      exact hfill ⟨f, hf, hsame⟩

section Close

variable {p : TradingPipeline} {e : Engine R} {now : Timestamp}

/-- What is worth closing is held. -/
theorem TradingPipeline.Exits.held {i : InstrumentId} (hexits : p.Exits e.pf now i) : Open e.pf i := by
  obtain ⟨_, -, hworth⟩ := hexits
  exact open_iff.mpr fun hflat => hworth.nonzero (by rw [hflat, neg_zero])

theorem Exposed.settled {pf : Portfolio} {i : InstrumentId} {pos : Position} (hexposed : Exposed pf i pos) :
    pf.settledQuantity i = pos.quantity := by
  rw [Portfolio.settledQuantity, hexposed.held, Option.elim_some]

theorem TradingPipeline.ClosesOut.flattens (hequity : 0 < e.pf.equity) (hcloses : p.ClosesOut e now) :
    Flattens e.pf (p.outgoing e now true) := by
  refine .of_one_each outgoing_distinct
    (fun o ho => (outgoing_signed ho).1.held) fun i pos hexposed => ?_
  obtain ⟨hexits, hlots⟩ := hcloses.each i pos hexposed
  have hsome : p.exits e.pf now ≠ [] := List.ne_nil_of_mem (mem_exits.mpr hexits)
  obtain ⟨hwill, hids⟩ := (canExit_iff hequity hsome).mp (hcloses.together ⟨i, pos, hexposed⟩)
  obtain ⟨plan, orders, hplan, hworth, hok⟩ := RebalanceEngine.orders_of_willTrade hwill hids
  have hout := outgoing_of_ok hplan hok
  have hsent : p.outgoing e now true ≠ [] := by
    rw [hout, ← List.length_pos_iff, RebalanceEngine.to_orders_length hok]
    exact Nat.pos_of_ne_zero hworth
  obtain ⟨o, ho, rfl⟩ := outgoing_of_exits hsent hexits
  refine ⟨o, ho, rfl, ?_⟩
  rw [(outgoing_signed ho).2, hexposed.settled, hlots]

theorem Flattens.closesOut (hequity : 0 < e.pf.equity) (hflattens : Flattens e.pf (p.outgoing e now true)) :
    p.ClosesOut e now := by
  have heach : ∀ i pos, Exposed e.pf i pos → ∃ o ∈ p.outgoing e now true, o.instrument = i ∧
      o.signed_quantity = -pos.quantity := by
    intro i pos hexposed
    obtain ⟨o, hfilter, hsigned⟩ := hflattens.one_each i pos hexposed
    obtain ⟨ho, hinstrument⟩ := List.mem_filter.mp (hfilter ▸ List.mem_singleton_self o)
    exact ⟨o, ho, of_decide_eq_true hinstrument, hsigned⟩
  refine ⟨fun i pos hexposed => ?_, fun ⟨i, pos, hexposed⟩ => ?_⟩
  · obtain ⟨o, ho, rfl, hsigned⟩ := heach i pos hexposed
    obtain ⟨hexits, hlots⟩ := outgoing_signed ho
    rw [hsigned, hexposed.settled] at hlots
    exact ⟨hexits, hlots.symm⟩
  · obtain ⟨o, ho, -⟩ := heach i pos hexposed
    have hsome : p.exits e.pf now ≠ [] :=
      List.ne_nil_of_mem (mem_exits.mpr (outgoing_signed ho).1)
    obtain ⟨plan, hplan, hworth, hok⟩ := planned_of_outgoing (List.ne_nil_of_mem ho)
    refine (canExit_iff hequity hsome).mpr ⟨RebalanceEngine.willTrade_of_orders hplan hworth hok, ?_⟩
    obtain ⟨-, heq⟩ := RebalanceEngine.to_orders_ok hok
    rw [heq, (RebalanceEngine.plan_ok hplan).1] at hok
    rw [← RebalanceEngine.length_made]
    exact RebalanceConfig.supplies_of_ordersOf hok

end Close

/-- The close hands over the orders of a rebalance to zero. They flatten the book
when each marked position is worth a trade, is of whole lots, and all of them fit
into one pass. -/
theorem TradingPipeline.on_session_close_flattens_iff (p : TradingPipeline) (e : Engine R) (now : Timestamp)
    (hflatten : p.flatten_at_session_close = true) (hequity : 0 < e.pf.equity) :
    (∃ p₁ e₁, e₁.pf = e.pf ∧
      (p.on_session_close e now).2 = ((p.outgoing e now true).foldl submit_order (p₁, e₁)).2) ∧
      (Flattens e.pf (p.outgoing e now true) ↔ p.ClosesOut e now) := by
  refine ⟨?_, fun hflattens => hflattens.closesOut hequity, fun hcloses => hcloses.flattens hequity⟩
  rw [on_session_close, if_neg (by simpa using hflatten)]
  exact p.rebalance_hands_over e now true

/-! ### Two books at the close -/

/-- An engine that holds ten thousand shares and cash. -/
def holdingEngine (cash : Notional) : Engine Unit := { quotedEngine with pf := { sampleBook with cash } }

theorem holdingEngine_exposed {cash : Notional} {i : InstrumentId} {pos : Position}
    (hexposed : Exposed (holdingEngine cash).pf i pos) :
    i = 0 ∧ pos = { instrument := 0, quantity := 10000, average_cost := 100 } := by
  have hheld : (TreeMap.insert (∅ : TreeMap InstrumentId Position) 0
      { instrument := 0, quantity := 10000, average_cost := 100 })[i]? = some pos := hexposed.held
  obtain ⟨rfl, rfl⟩ | ⟨-, hnone⟩ := Table.getElem?_insert_eq_some.mp hheld
  · exact ⟨rfl, rfl⟩
  · rw [TreeMap.getElem?_emptyc] at hnone
    cases hnone

/-- Half of the book is within the turnover limit. -/
theorem TradingPipeline.on_session_close_flattens_half :
    Flattens (holdingEngine 1000000).pf ((sharesPipeline 100).outgoing (holdingEngine 1000000) 1 true) := by
  have hexits : (sharesPipeline 100).exits (holdingEngine 1000000).pf 1 = [0] := by decide +kernel
  refine ((sharesPipeline 100).on_session_close_flattens_iff (holdingEngine 1000000) 1 rfl
    (by decide +kernel)).2.mpr ⟨fun i pos hexposed => ?_, fun _ => ⟨?_, ?_, ?_, ?_⟩⟩
  · obtain ⟨rfl, rfl⟩ := holdingEngine_exposed hexposed
    decide +kernel
  · decide +kernel
  · decide +kernel
  · intro i hi
    rw [hexits, List.mem_singleton] at hi
    subst hi
    exact ⟨by decide +kernel, fun _ _ => trivial⟩
  · rw [hexits]
    exact ⟨by decide +kernel, trivial⟩

/-- All of the book is not, and nothing is closed. -/
theorem TradingPipeline.on_session_close_leaves_book :
    (sharesPipeline 100).on_session_open.flatten_at_session_close = true ∧ 0 < (holdingEngine 0).pf.equity ∧
      Exposed (holdingEngine 0).pf 0 { instrument := 0, quantity := 10000, average_cost := 100 } ∧
      ((sharesPipeline 100).on_session_open.on_session_close (holdingEngine 0) 1).1.handed = 0 ∧
      (sharesPipeline 100).on_session_open.outgoing (holdingEngine 0) 1 true = [] ∧
      ¬ Flattens (holdingEngine 0).pf ((sharesPipeline 100).on_session_open.outgoing (holdingEngine 0) 1 true) := by
  have hnone : (sharesPipeline 100).on_session_open.outgoing (holdingEngine 0) 1 true = [] :=
    List.isEmpty_iff.mp (by decide +kernel)
  have hexposed : Exposed (holdingEngine 0).pf 0 { instrument := 0, quantity := 10000, average_cost := 100 } :=
    ⟨by decide +kernel, by decide +kernel, by decide +kernel⟩
  refine ⟨rfl, by decide +kernel, hexposed, by decide +kernel, hnone, fun hflattens => ?_⟩
  obtain ⟨o, hfilter, -⟩ := hflattens.one_each _ _ hexposed
  rw [hnone] at hfilter
  cases hfilter

end ptl.pipeline
