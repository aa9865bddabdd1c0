import TradingLab.Attribution.Windows

open ptl.oms ptl.portfolio

namespace ptl.attribution

/-! ### One period -/

/-- A decomposition but for its financing. -/
structure PnlDecomposition.Measures (d : PnlDecomposition) (begin_ end_ : EquityPoint) (fills : List Fill) : Prop
    extends d.Charges fills where
  realized_eq : d.realized = end_.realized_pnl - begin_.realized_pnl
  unrealized_eq : d.unrealized = end_.unrealized_pnl - begin_.unrealized_pnl

/-- Financing is kept apart from what was traded. -/
theorem PnlDecomposition.Measures.financing {d : PnlDecomposition} {begin_ end_ : EquityPoint} {fills : List Fill}
    (hmeasures : d.Measures begin_ end_ fills) (a : PnlAttributor) (point : EquityPoint) (years : Rat) :
    (a.financing point years d).Measures begin_ end_ fills := by
  unfold PnlAttributor.financing
  split
  · exact hmeasures
  · exact ⟨⟨hmeasures.commission_eq, hmeasures.exchange_fees_eq, hmeasures.slippage_eq⟩, hmeasures.realized_eq,
      hmeasures.unrealized_eq⟩

/-- At whatever rates, a period of two dated points in order is decomposed. -/
theorem decompose_period_measures (a : PnlAttributor) {begin_ end_ : EquityPoint}
    (hbegin : is_set begin_.ts = true) (hend : is_set end_.ts = true) (horder : begin_.ts ≤ end_.ts)
    (fills : List Fill) :
    ∃ d, a.decompose_period begin_ end_ fills = .ok d ∧ d.Measures begin_ end_ (charged begin_ end_ fills) := by
  unfold PnlAttributor.decompose_period
  rw [if_neg (by simp [hbegin, hend]), if_neg (not_lt.mpr horder)]
  dsimp only
  rw [if_neg (by simp [is_finite])]
  exact ⟨_, rfl, PnlDecomposition.Measures.financing ⟨⟨rfl, rfl, rfl⟩, rfl, rfl⟩ a begin_ _⟩

/-! ### The windows of a series -/

/-- The fills in the order the series goes through them. -/
def by_time (fills : List Fill) : List Fill := fills.mergeSort fun x y => x.fill_time ≤ y.fill_time

theorem by_time_perm (fills : List Fill) : (by_time fills).Perm fills := List.mergeSort_perm _ _

theorem by_time_sorted (fills : List Fill) : (by_time fills).Pairwise fun x y => x.fill_time ≤ y.fill_time := by
  have hpairwise : (by_time fills).Pairwise fun x y => decide (x.fill_time ≤ y.fill_time) = true :=
    List.pairwise_mergeSort
      (fun x y z hxy hyz => decide_eq_true ((of_decide_eq_true hxy).trans (of_decide_eq_true hyz)))
      (fun x y => by simpa using le_total x.fill_time y.fill_time) fills
  exact hpairwise.imp of_decide_eq_true

/-- What each period of a series charges, of the fills the cursor hands it. -/
def charged_windows : List EquityPoint → List Fill → List (List Fill)
  | begin_ :: end_ :: curve, sorted =>
    charged begin_ end_ (sorted.takeWhile fun fill => fill.fill_time ≤ end_.ts) ::
      charged_windows (end_ :: curve) (sorted.dropWhile fun fill => fill.fill_time ≤ end_.ts)
  | _, _ => []

/-- Up to a time, then after it. -/
theorem filter_split_perm {first middle last : Timestamp} (hfirst : first ≤ middle) (hlast : middle ≤ last)
    (fills : List Fill) :
    ((fills.filter fun f => first ≤ f.fill_time ∧ f.fill_time ≤ middle) ++
        fills.filter fun f => middle < f.fill_time ∧ f.fill_time ≤ last).Perm
      (fills.filter fun f => first ≤ f.fill_time ∧ f.fill_time ≤ last) := by
  have hbefore : (fills.filter fun f => first ≤ f.fill_time ∧ f.fill_time ≤ middle) =
      (fills.filter fun f => first ≤ f.fill_time ∧ f.fill_time ≤ last).filter fun f => f.fill_time ≤ middle := by
    rw [List.filter_filter]
    exact filter_congr_iff fun f _ => by
      simp only [Bool.and_eq_true, decide_eq_true_eq]
      exact ⟨fun h => ⟨h.2, h.1, h.2.trans hlast⟩, fun h => ⟨h.2.1, h.1⟩⟩
  have hafter : (fills.filter fun f => middle < f.fill_time ∧ f.fill_time ≤ last) =
      (fills.filter fun f => first ≤ f.fill_time ∧ f.fill_time ≤ last).filter fun f => !decide (f.fill_time ≤ middle) := by
    rw [List.filter_filter]
    exact filter_congr_iff fun f _ => by
      simp only [Bool.and_eq_true, decide_eq_true_eq, Bool.not_eq_true', decide_eq_false_iff_not, not_le]
      exact ⟨fun h => ⟨h.1, hfirst.trans (le_of_lt h.1), h.2⟩, fun h => ⟨h.1, h.2.2⟩⟩
  rw [hbefore, hafter]
  exact List.filter_append_perm _ _

/-- No period ends after the last point. -/
theorem le_last_of_chain {p last : EquityPoint} {curve : List EquityPoint}
    (horder : (p :: curve).IsChain fun p q => p.ts ≤ q.ts) (hlast : (p :: curve).getLast? = some last) :
    p.ts ≤ last.ts := by
  induction curve generalizing p with
  | nil =>
    cases hlast
    exact le_refl _
  | cons q curve ih =>
    obtain ⟨hnext, hrest⟩ := List.isChain_cons_cons.mp horder
    exact hnext.trans (ih hrest hlast)

/-- The windows share out the fills of the whole span: the first takes those at its
beginning, and the others those after theirs. -/
theorem charged_windows_perm {begin_ last : EquityPoint} {curve : List EquityPoint} {sorted : List Fill}
    (hcurve : curve ≠ []) (hsorted : sorted.Pairwise fun x y => x.fill_time ≤ y.fill_time)
    (horder : (begin_ :: curve).IsChain fun p q => p.ts ≤ q.ts) (hlast : (begin_ :: curve).getLast? = some last) :
    (charged_windows (begin_ :: curve) sorted).flatten.Perm
      (sorted.filter fun f => begin_.ts ≤ f.fill_time ∧ f.fill_time ≤ last.ts) := by
  induction curve generalizing begin_ sorted with
  | nil => exact absurd rfl hcurve
  | cons end_ curve ih =>
    obtain ⟨hnext, hrest⟩ := List.isChain_cons_cons.mp horder
    have hend : end_.ts ≤ last.ts := le_last_of_chain hrest hlast
    have hclosed : sorted.Pairwise fun x y => decide (y.fill_time ≤ end_.ts) = true →
        decide (x.fill_time ≤ end_.ts) = true :=
      hsorted.imp fun hle hy => decide_eq_true (hle.trans (of_decide_eq_true hy))
    have hwindow : charged begin_ end_ (sorted.takeWhile fun f => f.fill_time ≤ end_.ts) =
        sorted.filter fun f => begin_.ts ≤ f.fill_time ∧ f.fill_time ≤ end_.ts := by
      rw [takeWhile_eq_filter hclosed, charged, List.filter_filter]
      exact filter_congr_iff fun f _ => by
        simp only [Bool.and_eq_true, decide_eq_true_eq, not_or, not_lt]
        exact ⟨And.left, fun h => ⟨h, h.2⟩⟩
    have hlater : (charged_windows (end_ :: curve) (sorted.dropWhile fun f => f.fill_time ≤ end_.ts)).flatten.Perm
        (sorted.filter fun f => end_.ts < f.fill_time ∧ f.fill_time ≤ last.ts) := by
      by_cases hmore : curve = []
      · subst hmore
        obtain rfl : end_ = last := by simpa using hlast
        have hnone : (sorted.filter fun f => end_.ts < f.fill_time ∧ f.fill_time ≤ end_.ts) = [] :=
          List.filter_eq_nil_iff.mpr fun f _ h => by
            obtain ⟨hafter, hbefore⟩ := of_decide_eq_true h
            exact absurd hafter (not_lt.mpr hbefore)
        rw [hnone]
        exact List.Perm.nil
      · have hlater : (sorted.dropWhile fun f => f.fill_time ≤ end_.ts).Pairwise fun x y =>
            x.fill_time ≤ y.fill_time := hsorted.sublist (List.dropWhile_sublist _)
        have hperm := ih hmore hlater hrest hlast
        rw [dropWhile_eq_filter hclosed, List.filter_filter] at hperm
        rw [dropWhile_eq_filter hclosed]
        refine hperm.trans (List.Perm.of_eq (filter_congr_iff fun f _ => ?_))
        simp only [Bool.and_eq_true, decide_eq_true_eq, Bool.not_eq_true', decide_eq_false_iff_not, not_le]
        exact ⟨fun h => ⟨h.2, h.1.2⟩, fun h => ⟨⟨le_of_lt h.1, h.2⟩, h.1⟩⟩
    rw [charged_windows, List.flatten_cons, hwindow]
    exact (hlater.append_left _).trans (filter_split_perm hnext hend sorted)

/-! ### The series -/

/-- Each decomposition is of its period, and charges its window. -/
inductive MeasuresAll : List EquityPoint → List (List Fill) → List PnlDecomposition → Prop
  | last {p : EquityPoint} : MeasuresAll [p] [] []
  | cons {b e : EquityPoint} {curve : List EquityPoint} {w : List Fill} {ws : List (List Fill)}
      {d : PnlDecomposition} {ds : List PnlDecomposition} (hmeasures : d.Measures b e w)
      (hrest : MeasuresAll (e :: curve) ws ds) : MeasuresAll (b :: e :: curve) (w :: ws) (d :: ds)

theorem decompose_periods_measures (a : PnlAttributor) {begin_ : EquityPoint} {curve : List EquityPoint}
    (hset : ∀ p ∈ begin_ :: curve, is_set p.ts = true)
    (horder : (begin_ :: curve).IsChain fun p q => p.ts ≤ q.ts) (sorted : List Fill) :
    ∃ ds, a.decompose_periods (begin_ :: curve) sorted = .ok ds ∧
      MeasuresAll (begin_ :: curve) (charged_windows (begin_ :: curve) sorted) ds := by
  induction curve generalizing begin_ sorted with
  | nil => exact ⟨[], rfl, .last⟩
  | cons end_ curve ih =>
    obtain ⟨hnext, hrest⟩ := List.isChain_cons_cons.mp horder
    obtain ⟨d, hd, hmeasures⟩ := decompose_period_measures a (hset begin_ List.mem_cons_self)
      (hset end_ (List.mem_cons_of_mem _ List.mem_cons_self)) hnext
      (sorted.takeWhile fun f => f.fill_time ≤ end_.ts)
    obtain ⟨ds, hds, hall⟩ := ih (fun p hp => hset p (List.mem_cons_of_mem _ hp)) hrest
      (sorted.dropWhile fun f => f.fill_time ≤ end_.ts)
    refine ⟨d :: ds, ?_, .cons hmeasures hall⟩
    simp only [PnlAttributor.decompose_periods, hd, hds]

theorem MeasuresAll.charges {curve : List EquityPoint} {ws : List (List Fill)} {ds : List PnlDecomposition}
    (hall : MeasuresAll curve ws ds) : List.Forall₂ PnlDecomposition.Charges ds ws := by
  induction hall with
  | last => exact .nil
  | cons hmeasures _ ih => exact .cons hmeasures.toCharges ih

/-- The windows of a series add up to the span of its curve. -/
theorem MeasuresAll.sum {curve : List EquityPoint} {ws : List (List Fill)} {ds : List PnlDecomposition}
    (hall : MeasuresAll curve ws ds) {first last : EquityPoint} (hfirst : curve.head? = some first)
    (hlast : curve.getLast? = some last) :
    (ds.map PnlDecomposition.realized).sum = last.realized_pnl - first.realized_pnl ∧
      (ds.map PnlDecomposition.unrealized).sum = last.unrealized_pnl - first.unrealized_pnl ∧
      (ds.map PnlDecomposition.commission).sum = -(ws.flatten.map Fill.commission).sum ∧
      (ds.map PnlDecomposition.exchange_fees).sum = -(ws.flatten.map Fill.exchange_fee).sum ∧
      (ds.map PnlDecomposition.slippage).sum = -(ws.flatten.map slippage_cost).sum := by
  induction hall generalizing first with
  | last =>
    cases hfirst
    cases hlast
    simp
  | cons hmeasures _ ih =>
    cases hfirst
    obtain ⟨hrealized, hunrealized, hcommission, hfees, hslippage⟩ := ih rfl hlast
    simp only [List.map_cons, List.sum_cons, List.flatten_cons, List.map_append, List.sum_append, neg_add]
    rw [hrealized, hunrealized, hcommission, hfees, hslippage, hmeasures.realized_eq, hmeasures.unrealized_eq,
      hmeasures.commission_eq, hmeasures.exchange_fees_eq, hmeasures.slippage_eq]
    refine ⟨?_, ?_, rfl, rfl, rfl⟩
    · ring
    · ring

theorem MeasuresAll.ne_nil {b e : EquityPoint} {curve : List EquityPoint} {ws : List (List Fill)}
    {ds : List PnlDecomposition} (hall : MeasuresAll (b :: e :: curve) ws ds) : ds ≠ [] := by
  cases hall
  exact List.cons_ne_nil _ _

/-- Two decompositions agree in all but financing. -/
structure PnlDecomposition.SameTrading (d d' : PnlDecomposition) : Prop where
  realized_eq : d.realized = d'.realized
  unrealized_eq : d.unrealized = d'.unrealized
  commission_eq : d.commission = d'.commission
  exchange_fees_eq : d.exchange_fees = d'.exchange_fees
  slippage_eq : d.slippage = d'.slippage

theorem aggregate_of_ne_nil {ds : List PnlDecomposition} (hsome : ds ≠ []) :
    ∃ front back, aggregate ds = {
      period_begin := front
      period_end := back
      realized := (ds.map PnlDecomposition.realized).sum
      unrealized := (ds.map PnlDecomposition.unrealized).sum
      commission := (ds.map PnlDecomposition.commission).sum
      exchange_fees := (ds.map PnlDecomposition.exchange_fees).sum
      slippage := (ds.map PnlDecomposition.slippage).sum
      borrow := (ds.map PnlDecomposition.borrow).sum
      carry := (ds.map PnlDecomposition.carry).sum
      cash_drag := (ds.map PnlDecomposition.cash_drag).sum } := by
  rw [aggregate, List.head?_eq_some_head hsome, List.getLast?_eq_some_getLast hsome]
  exact ⟨_, _, rfl⟩

/-- Attribution is additive over time. The periods of a curve charge between them the
fills from its first point to its last, each once, and no others; and what they trade
adds up to what one period from the first point to the last does. -/
theorem decompose_series_additive (a : PnlAttributor) {curve : List EquityPoint} {first last : EquityPoint}
    (htwo : 2 ≤ curve.length) (hset : ∀ p ∈ curve, is_set p.ts = true)
    (horder : curve.IsChain fun p q => p.ts ≤ q.ts) (hfirst : curve.head? = some first)
    (hlast : curve.getLast? = some last) (fills : List Fill) :
    ∃ ds whole, a.decompose_series curve fills = .ok ds ∧ a.decompose_period first last fills = .ok whole ∧
      (aggregate ds).SameTrading whole ∧
      List.Forall₂ PnlDecomposition.Charges ds (charged_windows curve (by_time fills)) ∧
      (charged_windows curve (by_time fills)).flatten.Perm
        (fills.filter fun f => first.ts ≤ f.fill_time ∧ f.fill_time ≤ last.ts) := by
  obtain ⟨end_, rest, rfl⟩ : ∃ end_ rest, curve = first :: end_ :: rest := by
    cases curve with
    | nil => cases hfirst
    | cons begin_ curve =>
      cases hfirst
      cases curve with
      | nil => simp at htwo
      | cons end_ rest => exact ⟨end_, rest, rfl⟩
  obtain ⟨ds, hds, hall⟩ := decompose_periods_measures a hset horder (by_time fills)
  obtain ⟨whole, hwhole, hmeasures⟩ := decompose_period_measures a (hset first List.mem_cons_self)
    (hset last (List.mem_of_getLast? hlast)) (le_last_of_chain horder hlast) fills
  have hshared : (charged_windows (first :: end_ :: rest) (by_time fills)).flatten.Perm
      (fills.filter fun f => first.ts ≤ f.fill_time ∧ f.fill_time ≤ last.ts) :=
    (charged_windows_perm (List.cons_ne_nil end_ rest) (by_time_sorted fills) horder hlast).trans
      ((by_time_perm fills).filter _)
  have hspan : charged first last fills =
      fills.filter fun f => first.ts ≤ f.fill_time ∧ f.fill_time ≤ last.ts :=
    filter_congr_iff fun f _ => by simp only [decide_eq_true_eq, not_or, not_lt]
  obtain ⟨front, back, haggregate⟩ := aggregate_of_ne_nil hall.ne_nil
  obtain ⟨hrealized, hunrealized, hcommission, hfees, hslippage⟩ := hall.sum hfirst hlast
  rw [hspan] at hmeasures
  refine ⟨ds, whole, ?_, hwhole, ?_, hall.charges, hshared⟩
  · rw [PnlAttributor.decompose_series, if_neg (not_lt.mpr htwo)]
    exact hds
  · rw [haggregate]
    refine ⟨hrealized.trans hmeasures.realized_eq.symm, hunrealized.trans hmeasures.unrealized_eq.symm, ?_, ?_, ?_⟩
    · exact hcommission.trans (by rw [hmeasures.commission_eq, (hshared.map Fill.commission).sum_eq])
    · exact hfees.trans (by rw [hmeasures.exchange_fees_eq, (hshared.map Fill.exchange_fee).sum_eq])
    · exact hslippage.trans (by rw [hmeasures.slippage_eq, (hshared.map slippage_cost).sum_eq])

theorem only_filled_valid (ts : Timestamp) : validate_chain { fill_time := ts } = none := by
  unfold validate_chain
  rw [if_neg (by simp [is_set, kNoTimestamp]), List.findSome?_eq_none_iff]
  -- No edge joins two stages that are set.
  intro edge hedge
  simp only [kEdges, List.mem_cons, List.not_mem_nil, or_false] at hedge
  obtain rfl | rfl | rfl | rfl | rfl | rfl | rfl := hedge <;>
    exact if_neg (by simp [LifecycleTimes.at, is_set])

theorem one_share : (0 : Rat) < 1 := one_pos

/-- A share bought at a time. -/
def boughtAt (ts : Timestamp) : Fill where
  order_id := 1
  parent_id := 1
  instrument := 1
  side := .Buy
  price := 1
  quantity := 1
  commission := 1
  exchange_fee := 0
  liquidity := .Taker
  times := { fill_time := ts }
  arrival_price := 1
  price_pos := one_share
  quantity_pos := one_share
  chain_valid := only_filled_valid ts

/-- Two fills at one repeated time, one before the curve and one after it. -/
theorem decompose_series_additive_repeated :
    ∃ ds whole, ({ rates := { borrow_rate := 1 } } : PnlAttributor).decompose_series
        [{ ts := 1, realized_pnl := 1 }, { ts := 1, realized_pnl := 3 }, { ts := 5, realized_pnl := 4 }]
        [boughtAt 9, boughtAt 1, boughtAt 0, boughtAt 5] = .ok ds ∧
      ({ rates := { borrow_rate := 1 } } : PnlAttributor).decompose_period
        { ts := 1, realized_pnl := 1 } { ts := 5, realized_pnl := 4 } [boughtAt 9, boughtAt 1, boughtAt 0, boughtAt 5] =
          .ok whole ∧ (aggregate ds).SameTrading whole := by
  have horder : ([{ ts := 1, realized_pnl := 1 }, { ts := 1, realized_pnl := 3 }, { ts := 5, realized_pnl := 4 }] :
      List EquityPoint).IsChain fun p q => p.ts ≤ q.ts := by decide
  obtain ⟨ds, whole, hds, hwhole, hsame, -, -⟩ := decompose_series_additive { rates := { borrow_rate := 1 } }
    (by decide) (by decide) horder rfl rfl [boughtAt 9, boughtAt 1, boughtAt 0, boughtAt 5]
  exact ⟨ds, whole, hds, hwhole, hsame⟩

end ptl.attribution
