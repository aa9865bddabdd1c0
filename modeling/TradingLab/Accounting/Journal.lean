import Mathlib.Tactic.Ring
import TradingLab.Portfolio.Portfolio

open ptl.oms ptl.portfolio
open Std (TreeMap)

namespace ptl.accounting

inductive EntryKind where
  | OrderSubmitted
  | OrderRejected
  | OrderCancelled
  | FillReceived
  | Dividend
  | Split
  | Mark
  | RiskRejection
  deriving DecidableEq, Repr

structure JournalEntry where
  ts : Timestamp := kNoTimestamp
  kind : EntryKind := .Mark
  order_id : OrderId := kNoOrder
  instrument : InstrumentId := kInvalidInstrument
  side : Side := .Buy
  quantity : Qty := 0
  price : Price := 0
  cash_delta : Notional := 0
  cost : Notional := 0
  detail : String := ""
  deriving DecidableEq, Repr

/-- A round trip matched from fills. -/
structure Trade where
  instrument : InstrumentId
  direction : Side
  opened : Timestamp
  closed : Timestamp
  quantity : Qty
  entry_price : Price
  exit_price : Price
  gross_pnl : Notional
  costs : Notional
  deriving DecidableEq, Repr

structure Journal where
  entries : List JournalEntry := []
  fills : List Fill := []
  trades : List Trade := []

/-- An entry stamped before the last one is refused. -/
def Journal.append (j : Journal) (entry : JournalEntry) : Result Bool × Journal :=
  if (j.entries.getLast?).any fun last => entry.ts < last.ts then
    (.error (make_error .ValidationFailed "journal entry moves backwards in time"
      (to_iso8601 entry.ts)), j)
  else (.ok true, { j with entries := j.entries ++ [entry] })

def fillEntry (fill : Fill) : JournalEntry where
  ts := fill.fill_time
  kind := .FillReceived
  order_id := fill.order_id
  instrument := fill.instrument
  side := fill.side
  quantity := fill.quantity
  price := fill.price
  cash_delta := fill.cash_delta
  cost := fill.total_cost

/-- The answer of `append` is dropped; the fill is kept either way. -/
def Journal.record_fill (j : Journal) (fill : Fill) : Journal :=
  let j := (j.append (fillEntry fill)).2
  { j with fills := j.fills ++ [fill] }

def Journal.record_risk_rejection (j : Journal) (ts : Timestamp) (instrument : InstrumentId)
    (reason : String) : Journal :=
  (j.append { ts, kind := .RiskRejection, instrument, detail := reason }).2

/-- The running position of the matcher, one for each instrument. -/
structure Open where
  qty : Qty := 0
  avg : Price := 0
  opened : Timestamp := kNoTimestamp
  costs : Notional := 0
  deriving DecidableEq, Repr

/-- One fill against the running position: the new running position, and the
    trade it closes if it goes the other way. -/
def Open.matchFill (o : Open) (f : Fill) : Open × Option Trade :=
  let delta := f.signed_quantity
  let px := f.price
  if o.qty = 0 ∨ (o.qty > 0 ↔ delta > 0) then
    let denom := o.qty + delta
    ({
      qty := denom
      avg := if denom ≠ 0 then (o.avg * o.qty + px * delta) / denom else o.avg
      opened := if o.qty = 0 then f.fill_time else o.opened
      costs := o.costs + f.total_cost }, none)
  else
    let closing := min |delta| |o.qty|
    let direction : Rat := if o.qty > 0 then 1 else -1
    let share := if |o.qty| > 0 then closing / |o.qty| else 1
    let trade : Trade := {
      instrument := f.instrument
      direction := if o.qty > 0 then .Buy else .Sell
      opened := o.opened
      closed := f.fill_time
      quantity := closing
      entry_price := o.avg
      exit_price := px
      gross_pnl := (px - o.avg) * closing * direction
      costs := o.costs * share + f.total_cost }
    let costs := o.costs * (1 - share)
    let after := o.qty + delta
    if |delta| > |o.qty| then
      ({ qty := after, avg := px, opened := f.fill_time, costs := 0 }, some trade)
    else if after = 0 then ({ o with qty := after, avg := 0, costs := 0 }, some trade)
    else ({ o with qty := after, costs }, some trade)

/-- The variables of the matching loop: running positions and closed trades. -/
structure Matching where
  open_ : TreeMap InstrumentId Open := ∅
  trades : List Trade := []

def Matching.held (m : Matching) (instrument : InstrumentId) : Open :=
  (m.open_[instrument]?).getD {}

def Matching.step (m : Matching) (f : Fill) : Matching :=
  let (o, trade) := (m.held f.instrument).matchFill f
  { open_ := m.open_.insert f.instrument o, trades := m.trades ++ trade.toList }

def matchFills (fills : List Fill) : Matching := fills.foldl Matching.step {}

def Journal.match_trades (j : Journal) : Journal := { j with trades := (matchFills j.fills).trades }

structure Reconciliation where
  gross_pnl : Notional := 0
  spread_cost : Notional := 0
  impact_and_slippage : Notional := 0
  commissions_and_fees : Notional := 0
  financing : Notional := 0
  other : Notional := 0
  net_pnl : Notional := 0
  reported_net : Notional := 0
  deriving DecidableEq, Repr

def Reconciliation.residual (r : Reconciliation) : Notional := r.net_pnl - r.reported_net

def Reconciliation.balances (r : Reconciliation) (tolerance : Rat := 1e-6) : Bool :=
  is_finite r.residual && decide (|r.residual| ≤ tolerance)

/-- Gross is the reported net plus the costs, and net is gross less them. -/
def Journal.reconcile (j : Journal) (pf : Portfolio) : Reconciliation :=
  let commissions := j.fills.foldl (fun total f => total + f.total_cost) 0
  let slippage := j.fills.foldl (fun total f =>
    let bps := f.slippage_bps
    if is_finite bps then total + bps * 1e-4 * f.arrival_price * f.quantity else total) 0
  let reported_net := pf.realized_pnl + pf.unrealized_pnl
  let gross_pnl := reported_net + commissions
  {
    reported_net, gross_pnl
    commissions_and_fees := commissions
    impact_and_slippage := slippage
    net_pnl := gross_pnl - 0 - commissions - 0 - 0 }

/-! ### Appending -/

theorem Journal.append_fills (j : Journal) (entry : JournalEntry) : (j.append entry).2.fills = j.fills := by
  unfold Journal.append
  split <;> rfl

theorem Journal.record_fill_fills (j : Journal) (fill : Fill) :
    (j.record_fill fill).fills = j.fills ++ [fill] := by
  simp only [Journal.record_fill, Journal.append_fills]

theorem Journal.record_risk_rejection_fills (j : Journal) (ts : Timestamp) (instrument : InstrumentId)
    (reason : String) : (j.record_risk_rejection ts instrument reason).fills = j.fills :=
  j.append_fills _

/-- No entry of the journal is stamped later than this. -/
def Journal.EndsBy (j : Journal) (ts : Timestamp) : Prop := ∀ last ∈ j.entries.getLast?, last.ts ≤ ts

def Journal.entriesOf (j : Journal) (kind : EntryKind) : List JournalEntry :=
  j.entries.filter fun entry => entry.kind = kind

/-- An entry that is not stamped before the last one is kept. -/
theorem Journal.append_ok {j : Journal} {entry : JournalEntry} (hends : j.EndsBy entry.ts) :
    (j.append entry).2 = { j with entries := j.entries ++ [entry] } := by
  have hforward : ¬ (j.entries.getLast?.any fun last => entry.ts < last.ts) = true := by
    rw [Option.any_eq_true]
    rintro ⟨last, hlast, hback⟩
    exact absurd (hends last hlast) (not_le.mpr (of_decide_eq_true hback))
  rw [Journal.append, if_neg hforward]

theorem Journal.endsBy_append {j : Journal} {entry : JournalEntry} {ts : Timestamp}
    (hends : j.EndsBy entry.ts) (hts : entry.ts ≤ ts) : (j.append entry).2.EndsBy ts := by
  rw [Journal.append_ok hends, Journal.EndsBy, List.getLast?_concat]
  rintro last ⟨⟩
  exact hts

theorem Journal.entriesOf_append {j : Journal} {entry : JournalEntry} (hends : j.EndsBy entry.ts)
    (kind : EntryKind) : (j.append entry).2.entriesOf kind =
      j.entriesOf kind ++ if entry.kind = kind then [entry] else [] := by
  rw [Journal.append_ok hends, Journal.entriesOf, List.filter_append]
  congr 1
  by_cases hkind : entry.kind = kind <;> simp [hkind]

/-! What the reconciliation can see. The gross figure is derived from the net one and the
costs that are then taken off it, so nothing about the fills is left in the residual. -/

/-- The cost of all recorded fills. -/
def Journal.total_fill_cost (j : Journal) : Notional := (j.fills.map Fill.total_cost).sum

/-- The two conditions behind `RunSummary::reconciled`. -/
def Reconciled (j : Journal) (pf : Portfolio) : Prop :=
  (j.reconcile pf).balances = true ∧ pf.identity_holds = true

/-- The two ledgers saw the same costs, within the tolerance. -/
def CostsAgree (j : Journal) (pf : Portfolio) : Prop := |j.total_fill_cost - pf.total_costs| ≤ 1e-6

/-- The costs added for the gross figure are the costs taken off again. -/
theorem Journal.reconcile_residual (j : Journal) (pf : Portfolio) : (j.reconcile pf).residual = 0 := by
  simp only [Reconciliation.residual, Journal.reconcile]
  ring

/-- Every pair of ledgers passes. -/
theorem reconciled_always (j : Journal) (pf : Portfolio) : Reconciled j pf := by
  constructor
  · rw [Reconciliation.balances, Journal.reconcile_residual]
    decide +kernel
  · unfold Portfolio.identity_holds Portfolio.equity
    simp only [is_finite_eq_true, sub_self, abs_zero, Bool.true_and, decide_eq_true_eq]
    norm_num

theorem Journal.record_fill_cost (j : Journal) (f : Fill) :
    (j.record_fill f).total_fill_cost = j.total_fill_cost + f.total_cost := by
  rw [Journal.total_fill_cost, Journal.record_fill_fills, List.map_append, List.sum_append, List.map_singleton,
    List.sum_singleton]
  rfl

/-- A passed reconciliation tells that the ledgers saw the same costs only of
those that did anyway. A fill that one ledger takes and the other does not
moves their costs apart by its own, and the run stays reconciled. -/
theorem Journal.reconcile_detects_iff (j : Journal) (pf : Portfolio) :
    ((Reconciled j pf → CostsAgree j pf) ↔ CostsAgree j pf) ∧
      (∀ f pf', pf.apply f = (.ok true, pf') → Reconciled j pf' ∧
        j.total_fill_cost - pf'.total_costs = j.total_fill_cost - pf.total_costs - f.total_cost) ∧
      ∀ f, Reconciled (j.record_fill f) pf ∧
        (j.record_fill f).total_fill_cost - pf.total_costs =
          j.total_fill_cost - pf.total_costs + f.total_cost := by
  refine ⟨⟨fun hdetects => hdetects (reconciled_always j pf), fun hagree _ => hagree⟩, ?_, ?_⟩
  · intro f pf' happly
    refine ⟨reconciled_always j pf', ?_⟩
    rw [Portfolio.apply_ok happly]
    ring
  · intro f
    refine ⟨reconciled_always _ pf, ?_⟩
    rw [j.record_fill_cost f]
    ring

/-- A fill with a commission of one, booked by the portfolio and recorded by
nobody, in a run that counts as reconciled. -/
theorem Journal.reconcile_misses_fill :
    ¬ ∀ (j : Journal) (pf : Portfolio), Reconciled j pf → CostsAgree j pf := by
  intro hdetects
  have hagree := hdetects {} ((Portfolio.new {}).apply (sampleFill 1 .Buy 10 100 1)).2 (reconciled_always _ _)
  unfold CostsAgree at hagree
  exact absurd hagree (by decide +kernel)

end ptl.accounting
