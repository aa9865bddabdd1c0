import TradingLab.Execution.Broker.Matching

/-! A call that fails on the way. The orders before the one whose fill cannot be built were
matched already, the others were not looked at. -/

open ptl.oms

namespace ptl.execution

variable {R : Type}

theorem make_fill_isOk_iff {costs : ICostModel R} {order : Order} {price : Price} {qty : Qty}
    {now : Timestamp} {liquidity : Liquidity} :
    (∃ f, make_fill costs order price qty now liquidity = .ok f) ↔
      0 < price ∧ 0 < qty ∧ validate_chain { order.times with fill_time := now } = none := by
  unfold make_fill
  split
  · rename_i hprice
    simp only [is_finite, not_true_eq_false, false_or] at hprice
    constructor
    · rintro ⟨f, hf⟩
      cases hf
    · exact fun hvalid => absurd hvalid.1 (not_lt.mpr hprice)
  · rename_i hprice
    split
    · rename_i hqty
      simp only [is_finite, not_true_eq_false, false_or] at hqty
      constructor
      · rintro ⟨f, hf⟩
        cases hf
      · exact fun hvalid => absurd hvalid.2.1 (not_lt.mpr hqty)
    · rename_i hqty
      split
      · rename_i hchain
        constructor
        · rintro ⟨f, hf⟩
          cases hf
        · intro hvalid
          rw [hvalid.2.2] at hchain
          cases hchain
      · rename_i hchain
        exact ⟨fun _ => ⟨pos_of_checked hprice, pos_of_checked hqty, hchain⟩, fun _ => ⟨_, rfl⟩⟩

/-! ### Where a call stops -/

/-- What a completed visit leaves in the list. -/
def Visit.leaves (v : Visit R) : List PendingOrder :=
  match v.decision with
  | .keep p => [p]
  | .erase => []
  | .execute p allowed => (p.after_fill allowed).toList

/-- The order of a visit whose fill failed. Its stop may have been triggered. -/
def Visit.stands (v : Visit R) : PendingOrder :=
  match v.decision with
  | .execute p _ => p
  | _ => v.found

/-- The order was found, and left, as it was. -/
def Visit.Untouched (v : Visit R) : Prop := v.decision = .keep v.found

section Stops

variable (costs : ICostModel R) (state : MarketState) (now : Timestamp)

/-- Whether the fill of an execution can be built: its price is positive and the
stages of its order stay in order. -/
def Visit.fillable (v : Visit R) : Bool :=
  match v.decision with
  | .execute p allowed =>
    decide (0 < fillPrice costs state p.order.side allowed (costs.stochastic_slippage v.rng).1) &&
      (validate_chain { p.order.times with fill_time := now }).isNone
  | _ => true

/-- The visits before the first that fails. -/
def completed (vs : List (Visit R)) : List (Visit R) := vs.takeWhile fun v => v.fillable costs state now

/-- The visit that fails, and those that never take place. -/
def abandoned (vs : List (Visit R)) : List (Visit R) := vs.dropWhile fun v => v.fillable costs state now

end Stops

/-- The orders of the abandoned visits. -/
def standing : List (Visit R) → List PendingOrder
  | [] => []
  | v :: vs => v.stands :: vs.map Visit.found

section Loop

variable {costs : ICostModel R} {cfg : FillConfig} {instrument : InstrumentId} {state : MarketState}
  {now : Timestamp}

variable (costs cfg instrument state now) in
theorem visits_found {budget : Rat} {rng : R} (ps : List PendingOrder) :
    (visits costs cfg instrument state now budget rng ps).map Visit.found = ps := by
  induction ps generalizing budget rng with
  | nil => rfl
  | cons p ps ih =>
    cases hdecision : p.decision cfg instrument state now budget with
    | keep p' => rw [visits_keep hdecision, List.map_cons, ih]
    | erase => rw [visits_erase hdecision, List.map_cons, ih]
    | execute p' allowed => rw [visits_execute hdecision, List.map_cons, ih]

/-- Each decision was made about the order found, with the budget found. -/
theorem visits_decided {budget : Rat} {rng : R} {ps : List PendingOrder} {v : Visit R}
    (hv : v ∈ visits costs cfg instrument state now budget rng ps) :
    v.found.decision cfg instrument state now v.budget = v.decision := by
  induction ps generalizing budget rng with
  | nil => cases hv
  | cons p ps ih =>
    cases hdecision : p.decision cfg instrument state now budget with
    | keep p' =>
      rw [visits_keep hdecision] at hv
      rcases List.mem_cons.mp hv with rfl | hv
      · exact hdecision
      · exact ih hv
    | erase =>
      rw [visits_erase hdecision] at hv
      rcases List.mem_cons.mp hv with rfl | hv
      · exact hdecision
      · exact ih hv
    | execute p' allowed =>
      rw [visits_execute hdecision] at hv
      rcases List.mem_cons.mp hv with rfl | hv
      · exact hdecision
      · exact ih hv

theorem fillable_of_execute (costs : ICostModel R) {p q : PendingOrder} {budget : Rat} {allowed : Qty} (rng : R)
    (hdecision : p.decision cfg instrument state now budget = .execute q allowed) :
    Visit.fillable costs state now { found := p, budget, rng, decision := .execute q allowed } = true ↔
      ∃ f, make_fill costs q.order
        (fillPrice costs state q.order.side allowed (costs.stochastic_slippage rng).1) allowed now
        .Taker = .ok f := by
  have hpos := (PendingOrder.executes_of_decision hdecision).allowed_pos
  rw [make_fill_isOk_iff]
  simp only [Visit.fillable, Bool.and_eq_true, decide_eq_true_eq, Option.isNone_iff_eq_none, hpos, true_and]

theorem execute_error {m m' : MatchState R} {p : PendingOrder} {allowed : Qty} {e : Error}
    (hexecute : execute costs state now m p allowed = (.error e, m')) :
    ¬ ∃ f, make_fill costs p.order
        (fillPrice costs state p.order.side allowed (costs.stochastic_slippage m.slippage_rng).1)
        allowed now .Taker = .ok f := by
  rintro ⟨f, hmade⟩
  unfold fillPrice chargedBps at hmade
  simp [execute, hmade] at hexecute

theorem Result.map_error_iff {A B : Type} {r : Result A} {g : A → B} :
    (∃ e, r.map g = .error e) ↔ ∃ e, r = .error e := by
  cases r with
  | error e => exact ⟨fun _ => ⟨e, rfl⟩, fun _ => ⟨e, rfl⟩⟩
  | ok a => exact ⟨fun ⟨e, he⟩ => (by cases he), fun ⟨e, he⟩ => (by cases he)⟩

theorem Result.error_of_toOption {A : Type} {r : Result A} (hnone : r.toOption.isNone = true) :
    ∃ e, r = .error e := by
  cases r with
  | error e => exact ⟨e, rfl⟩
  | ok a => cases hnone

/-- The list after the loop: what the completed visits leave, then the orders
of the abandoned ones. The loop fails exactly when there are such. -/
theorem matchLoop_pending (m : MatchState R) (ps : List PendingOrder) :
    (matchLoop costs cfg instrument state now m ps).2.1 =
        (completed costs state now
          (visits costs cfg instrument state now m.remaining_participation m.slippage_rng ps)).flatMap
            Visit.leaves ++
          standing (abandoned costs state now
            (visits costs cfg instrument state now m.remaining_participation m.slippage_rng ps)) ∧
      ((∃ e, (matchLoop costs cfg instrument state now m ps).1 = .error e) ↔
        abandoned costs state now
          (visits costs cfg instrument state now m.remaining_participation m.slippage_rng ps) ≠ []) := by
  induction ps generalizing m with
  | nil => exact ⟨rfl, fun ⟨e, he⟩ => (by cases he), fun hne => absurd rfl hne⟩
  | cons p ps ih =>
    simp only [matchLoop]
    have hdecision := p.decide_fst cfg instrument state now m.remaining_participation m.stats
    revert hdecision
    rcases p.decide cfg instrument state now m.remaining_participation m.stats with ⟨decision, stats⟩
    intro hdecision
    cases decision with
    | keep p' =>
      obtain ⟨hrest, hfails⟩ := ih { m with stats }
      rw [visits_keep hdecision.symm]
      exact ⟨congrArg (p' :: ·) hrest, hfails⟩
    | erase =>
      rw [visits_erase hdecision.symm]
      exact ih { m with stats }
    | execute p' allowed =>
      rw [visits_execute hdecision.symm]
      have hbuilt := fillable_of_execute costs m.slippage_rng hdecision.symm
      cases hexecute : execute costs state now { m with stats } p' allowed with
      | mk result after =>
        cases result with
        | error e =>
          -- The order stays as the decision left it, and so does the rest.
          have hunbuilt := fun hfillable => execute_error hexecute (hbuilt.mp hfillable)
          simp only [hexecute, completed, abandoned, List.takeWhile_cons_of_neg hunbuilt,
            List.dropWhile_cons_of_neg hunbuilt, List.flatMap_nil, List.nil_append, standing, Visit.stands,
            visits_found]
          exact ⟨trivial, fun _ => List.cons_ne_nil _ _, fun _ => ⟨e, rfl⟩⟩
        | ok f =>
          obtain ⟨hfill, hbudget, hrng⟩ := execute_ok hexecute
          obtain ⟨hrest, hfails⟩ := ih after
          have hfillable := hbuilt.mpr ⟨f, hfill⟩
          rw [hbudget, hrng] at hrest hfails
          simp only [hexecute, completed, abandoned, List.takeWhile_cons_of_pos hfillable,
            List.dropWhile_cons_of_pos hfillable, List.flatMap_cons] at hrest hfails ⊢
          refine ⟨?_, Result.map_error_iff.trans hfails⟩
          rw [hrest, List.append_assoc]
          rfl

/-- A visit leaves the order as it was found exactly when it keeps it
untouched: an execution counts as filled. -/
theorem Visit.leaves_iff {v : Visit R}
    (hdecided : v.found.decision cfg instrument state now v.budget = v.decision) :
    v.leaves = [v.found] ↔ v.Untouched := by
  unfold Visit.leaves Visit.Untouched
  cases hdecision : v.decision with
  | keep p => simp
  | erase => simp
  | execute p allowed =>
    have hexecutes := PendingOrder.executes_of_decision (hdecided.trans hdecision)
    refine ⟨fun hleaves => ?_, fun hkeeps => (by cases hkeeps)⟩
    have hkept : p.after_fill allowed = some v.found :=
      Option.toList_eq_singleton_iff.mp hleaves
    have hfilled := congrArg PendingOrder.filled (PendingOrder.after_fill_some hkept).1
    simp only [hexecutes.carries.filled_eq] at hfilled
    exact absurd hexecutes.allowed_pos (by linarith)

/-- What a visit leaves is the order it found. -/
theorem Visit.leaves_order {v : Visit R}
    (hdecided : v.found.decision cfg instrument state now v.budget = v.decision) {p : PendingOrder}
    (hleft : p ∈ v.leaves) : p.order = v.found.order := by
  unfold Visit.leaves at hleft
  cases hdecision : v.decision with
  | keep q =>
    rw [hdecision] at hleft
    rw [List.mem_singleton.mp hleft]
    exact (PendingOrder.carries_of_decision (hdecided.trans hdecision)).order_eq
  | erase =>
    rw [hdecision] at hleft
    exact absurd hleft List.not_mem_nil
  | execute q allowed =>
    rw [hdecision] at hleft
    rw [(PendingOrder.after_fill_some (Option.mem_toList.mp hleft)).1]
    exact (PendingOrder.executes_of_decision (hdecided.trans hdecision)).carries.order_eq

theorem Visit.stands_order {v : Visit R}
    (hdecided : v.found.decision cfg instrument state now v.budget = v.decision) :
    v.stands.order = v.found.order := by
  unfold Visit.stands
  cases hdecision : v.decision with
  | keep q => rfl
  | erase => rfl
  | execute q allowed => exact (PendingOrder.executes_of_decision (hdecided.trans hdecision)).carries.order_eq

theorem Visit.leaves_length (v : Visit R) : v.leaves.length ≤ 1 := by
  unfold Visit.leaves
  split
  · exact le_refl _
  · exact Nat.zero_le _
  · exact Option.length_toList_le

end Loop

section Replacing

variable {A B : Type} {f : A → List B} {g : A → B} {xs : List A}

theorem length_flatMap_le (hshort : ∀ x ∈ xs, (f x).length ≤ 1) : (xs.flatMap f).length ≤ xs.length := by
  induction xs with
  | nil => exact le_refl _
  | cons x xs ih =>
    have hhead := hshort x List.mem_cons_self
    have htail := ih fun y hy => hshort y (List.mem_cons_of_mem _ hy)
    simp only [List.flatMap_cons, List.length_append, List.length_cons]
    omega

/-- A list whose elements are each replaced by at most one is unchanged only
where every one is replaced by itself. -/
theorem flatMap_append_eq_iff (hshort : ∀ x ∈ xs, (f x).length ≤ 1) {ys zs : List B}
    (hlength : ys.length = zs.length) :
    xs.flatMap f ++ ys = xs.map g ++ zs ↔ (∀ x ∈ xs, f x = [g x]) ∧ ys = zs := by
  induction xs with
  | nil => simp
  | cons x xs ih =>
    have hhead := hshort x List.mem_cons_self
    have htail : ∀ y ∈ xs, (f y).length ≤ 1 := fun y hy => hshort y (List.mem_cons_of_mem _ hy)
    rw [List.forall_mem_cons, and_assoc, ← ih htail, List.flatMap_cons, List.map_cons, List.append_assoc]
    constructor
    · intro hsame
      -- Nothing was dropped, since the lengths agree.
      have hcount := congrArg List.length hsame
      have hrest := length_flatMap_le htail
      simp only [List.length_append, List.length_cons, List.length_map, List.cons_append] at hcount
      obtain ⟨a, ha⟩ := List.length_eq_one_iff.mp (show (f x).length = 1 by omega)
      rw [ha, List.singleton_append, List.cons_append] at hsame
      obtain ⟨rfl, htails⟩ := List.cons.inj hsame
      exact ⟨ha, htails⟩
    · rintro ⟨hx, hsame⟩
      rw [hx, List.singleton_append, hsame, List.cons_append]

end Replacing

/-! ### A call that fails -/

section Call

variable (b : BrokerSimulator R) (instrument : InstrumentId) (state : MarketState) (now : Timestamp)

/-- The visits a call completes. -/
def BrokerSimulator.completed : List (Visit R) :=
  execution.completed b.costs state now (b.visits instrument state now)

/-- The visit at which a call fails, and those after it. -/
def BrokerSimulator.abandoned : List (Visit R) :=
  execution.abandoned b.costs state now (b.visits instrument state now)

/-- Nothing was done before the failure, if there is one: every order before it
was left as found, and no stop was triggered at it. -/
def BrokerSimulator.FailsUntouched : Prop :=
  ∀ v ∈ (b.abandoned instrument state now).head?,
    (∀ u ∈ b.completed instrument state now, u.Untouched) ∧ v.stands = v.found

theorem BrokerSimulator.on_market_pending :
    (b.on_market instrument state now).2.pending =
      (b.completed instrument state now).flatMap Visit.leaves ++ standing (b.abandoned instrument state now) :=
  (matchLoop_pending _ _).1

theorem BrokerSimulator.on_market_error_iff :
    (∃ e, (b.on_market instrument state now).1 = .error e) ↔ b.abandoned instrument state now ≠ [] :=
  (matchLoop_pending _ _).2

theorem BrokerSimulator.pending_found :
    b.pending = (b.completed instrument state now).map Visit.found ++
      (b.abandoned instrument state now).map Visit.found := by
  rw [← List.map_append, BrokerSimulator.completed, BrokerSimulator.abandoned, execution.completed,
    execution.abandoned, List.takeWhile_append_dropWhile]
  exact (visits_found _ _ _ _ _ b.pending).symm

/-- A call that fails leaves the pending orders as they were exactly when
nothing was done before the failure. -/
theorem BrokerSimulator.error_unchanged_iff :
    ((∃ e, (b.on_market instrument state now).1 = .error e) →
        (b.on_market instrument state now).2.pending = b.pending) ↔
      b.FailsUntouched instrument state now := by
  rw [b.on_market_error_iff, b.on_market_pending, BrokerSimulator.FailsUntouched]
  cases habandoned : b.abandoned instrument state now with
  | nil => simp
  | cons v vs =>
    have hfound := b.pending_found instrument state now
    have hdecided : ∀ u ∈ b.completed instrument state now, u.leaves = [u.found] ↔ u.Untouched :=
      fun u hu => Visit.leaves_iff (visits_decided (List.takeWhile_subset _ hu))
    rw [habandoned] at hfound
    rw [hfound, flatMap_append_eq_iff (fun u _ => u.leaves_length) (by simp [standing])]
    simp only [standing, List.map_cons, List.cons.injEq, and_true, List.head?_cons, Option.mem_some_iff,
      forall_eq', ne_eq, reduceCtorEq, not_false_eq_true, true_imp_iff]
    exact and_congr_left' (forall₂_congr hdecided)

end Call

/-- A venue whose half-spread is the whole price, with a buy and a sell of ten
waiting. -/
def buyThenSell : BrokerSimulator Unit :=
  let b : BrokerSimulator Unit := {
    costs := flatCosts 10000, latency := flatLatency, latency_rng := (), slippage_rng := ()
    fill_cfg := { max_participation_rate := 1 } }
  (((b.submit 0 dayBuy).2).submit 0 daySell).2

/-- A call that fails after an execution: the buy is filled and gone, the price
of the sell comes out at zero, and the caller is told of neither. -/
theorem BrokerSimulator.error_loses_fill :
    ¬ ∀ (b : BrokerSimulator Unit) (instrument : InstrumentId) (state : MarketState) (now : Timestamp),
      (∃ e, (b.on_market instrument state now).1 = .error e) →
        (b.on_market instrument state now).2.pending = b.pending := by
  intro hunchanged
  let bar : MarketState := { bid := 100, ask := 100, interval_volume := 1000 }
  have hfails : ∃ e, (buyThenSell.on_market 0 bar 2000000).1 = .error e :=
    Result.error_of_toOption (by decide +kernel)
  have hsame := congrArg List.length (hunchanged buyThenSell 0 bar 2000000 hfails)
  exact absurd hsame (by decide +kernel)

end ptl.execution
