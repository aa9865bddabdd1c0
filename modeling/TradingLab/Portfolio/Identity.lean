import Mathlib.Tactic.FieldSimp
import Mathlib.Tactic.Ring
import TradingLab.Machine
import TradingLab.Portfolio.Portfolio

open ptl.oms
open Std (TreeMap)

namespace ptl.portfolio

/-! ### One position -/

/-- The sign of a quantity times its size. -/
theorem abs_mul_direction {q : Rat} (hq : q ≠ 0) : |q| * (if q > 0 then 1 else -1) = q := by
  rcases lt_or_gt_of_ne hq with hneg | hpos
  · rw [abs_of_neg hneg, if_neg (not_lt.mpr (le_of_lt hneg))]
    linarith
  · rw [abs_of_pos hpos, if_pos hpos]
    linarith

/-- A fill that does not open or add goes the other way. -/
theorem abs_mul_direction_of_opposite {q delta : Rat} (hq : q ≠ 0) (hdelta : delta ≠ 0)
    (hopposite : ¬ (q > 0 ↔ delta > 0)) : |delta| * (if q > 0 then 1 else -1) = -delta := by
  rcases lt_or_gt_of_ne hq with hneg | hpos
  · have hdeltapos : delta > 0 := by
      by_contra hnot
      exact hopposite (iff_of_false (not_lt.mpr (le_of_lt hneg)) hnot)
    rw [abs_of_pos hdeltapos, if_neg (not_lt.mpr (le_of_lt hneg))]
    linarith
  · have hdeltaneg : delta < 0 := by
      refine lt_of_le_of_ne (not_lt.mp fun hdeltapos => hopposite (iff_of_true hpos hdeltapos)) hdelta
    rw [abs_of_neg hdeltaneg, if_pos hpos]
    linarith

/-- Opening and adding never end flat. -/
theorem add_ne_zero_of_opens {q delta : Rat} (hdelta : delta ≠ 0)
    (hopens : q = 0 ∨ (q > 0 ↔ delta > 0)) : q + delta ≠ 0 := by
  intro hafter
  rcases hopens with hflat | hsame
  · rw [hflat, zero_add] at hafter
    exact hdelta hafter
  · have hneg : q = -delta := by linarith
    rw [hneg] at hsame
    rcases lt_or_gt_of_ne hdelta with hlt | hgt
    · exact absurd (hsame.mp (by linarith)) (not_lt.mpr (le_of_lt hlt))
    · exact absurd (hsame.mpr hgt) (not_lt.mpr (by linarith))

/-- The basis after a fill is the basis before it, the money traded and the
profit realised: in opening, adding, reducing, closing and reversing alike. -/
theorem Position.nextCost_mul (p : Position) {delta : Rat} (px : Rat) (hdelta : delta ≠ 0) :
    p.nextCost delta px * (p.quantity + delta) =
      p.basis + px * delta + p.realizedBy delta px := by
  unfold Position.nextCost Position.realizedBy Position.basis
  dsimp only
  by_cases hopens : p.quantity = 0 ∨ (p.quantity > 0 ↔ delta > 0)
  · have hafter := add_ne_zero_of_opens hdelta hopens
    simp only [if_pos hopens, hafter, if_false, ne_eq, not_false_eq_true, if_true]
    rw [div_mul_cancel₀ _ hafter, add_zero]
  · have hq : p.quantity ≠ 0 := fun hflat => hopens (.inl hflat)
    have hopposite : ¬ (p.quantity > 0 ↔ delta > 0) := fun hsame => hopens (.inr hsame)
    have hwhole := abs_mul_direction hq
    have hpart := abs_mul_direction_of_opposite hq hdelta hopposite
    simp only [if_neg hopens]
    by_cases hafter : p.quantity + delta = 0
    · have hneg : delta = -p.quantity := by linarith
      simp only [hneg, abs_neg, min_self, mul_assoc, hwhole]
      ring
    · simp only [hafter, if_false]
      by_cases hreverses : |delta| > |p.quantity|
      · simp only [if_pos hreverses, min_eq_right (le_of_lt hreverses), mul_assoc, hwhole]
        ring
      · simp only [if_neg hreverses, min_eq_left (not_lt.mp hreverses), mul_assoc, hpart]
        ring

theorem Position.basis_apply (p : Position) (fill : Fill) :
    (p.apply fill).2.basis =
      p.basis + fill.price * fill.signed_quantity + (p.apply fill).1 :=
  p.nextCost_mul fill.price fill.signed_quantity_ne_zero

theorem Position.basis_apply_split (p : Position) (ratio : Rat) :
    (p.apply_split ratio).basis = p.basis := by
  unfold Position.apply_split
  split
  · rfl
  · rename_i hratio
    have hne : ratio ≠ 0 := by
      rintro rfl
      exact hratio (.inr (le_refl _))
    simp only [Position.basis]
    field_simp

/-- The value of a position is its basis and its unrealised profit. -/
theorem Position.market_value_eq (p : Position) (mark : Price) :
    p.market_value mark = p.basis + p.unrealized_pnl mark := by
  unfold Position.market_value Position.basis Position.unrealized_pnl
  split
  · rename_i hflat
    have hzero : p.quantity = 0 := by simpa [Position.is_flat] using hflat
    rw [hzero]
    ring
  · ring

/-! ### The whole portfolio -/

/-- The money all positions were bought for, signed. -/
def Portfolio.basis (pf : Portfolio) : Notional := Table.sum (fun _ pos => pos.basis) pf.positions

theorem Position.basis_of_flat {p : Position} (hflat : p.is_flat = true) : p.basis = 0 := by
  have hzero : p.quantity = 0 := by simpa [Position.is_flat] using hflat
  rw [Position.basis, hzero, mul_zero]

/-- The value of the positions is what they were bought for and what they
gained since, whatever marks they are valued at. -/
theorem Portfolio.position_value_eq (pf : Portfolio) :
    pf.position_value = pf.basis + pf.unrealized_pnl := by
  rw [Portfolio.position_value_eq_sum, Portfolio.unrealized_pnl_eq_sum, Portfolio.basis, ← Table.sum_add]
  congr 1
  funext _ pos
  split
  · rename_i hflat
    rw [Position.basis_of_flat hflat, add_zero]
  · exact pos.market_value_eq _

/-- Writing one position changes the basis by the difference to the position
that was held, flat if there was none. -/
theorem Portfolio.basis_of_insert (pf : Portfolio) {pf' : Portfolio} {instrument : InstrumentId}
    {pos : Position} (hinsert : pf'.positions = pf.positions.insert instrument pos) :
    pf'.basis = pf.basis - (pf.held instrument).basis + pos.basis := by
  rw [Portfolio.basis, hinsert]
  exact pf.sum_insert Position.basis instrument pos (mul_zero _)

/-- The operations of a portfolio. -/
inductive Operation where
  | apply (fill : Fill)
  | apply_split (instrument : InstrumentId) (ratio : Rat)
  | apply_dividend (instrument : InstrumentId) (per_share : Notional)
  | mark (instrument : InstrumentId) (bid ask : Price)
  | mark_last (instrument : InstrumentId) (last : Price)

/-- A portfolio and the dividend cash credited to it so far. -/
structure Ledger where
  pf : Portfolio
  dividends : Notional := 0

def Ledger.operate (s : Ledger) : Operation → Ledger
  | .apply fill => { s with pf := (s.pf.apply fill).2 }
  | .apply_split instrument ratio => { s with pf := (s.pf.apply_split instrument ratio).2 }
  | .apply_dividend instrument per_share => {
      pf := (s.pf.apply_dividend instrument per_share).2
      dividends := s.dividends + s.pf.dividendLeg instrument per_share }
  | .mark instrument bid ask => { s with pf := s.pf.mark instrument bid ask }
  | .mark_last instrument last => { s with pf := s.pf.mark_last instrument last }

/-- A portfolio as it was built, then any operations, refused or not. -/
def ledgerMachine : Machine Ledger Operation where
  Init s := s.dividends = 0 ∧ s.pf = Portfolio.new s.pf.cfg
  step s o := some (s.operate o)

/-- Cash and basis together hold the initial cash, the profit realised and the
dividends, less the costs. -/
def Ledger.Balanced (s : Ledger) : Prop :=
  s.pf.cash + s.pf.basis =
    s.pf.cfg.initial_cash + s.pf.realized_pnl - s.pf.total_costs + s.dividends

theorem Ledger.balanced_apply {s : Ledger} (hbalanced : s.Balanced) (fill : Fill) :
    (s.operate (.apply fill)).Balanced := by
  have hbasis := (s.pf.held fill.instrument).basis_apply fill
  have hcash := fill.cash_delta_eq
  simp only [Ledger.Balanced, Ledger.operate, Portfolio.apply, is_finite_eq_true, not_true_eq_false,
    or_self, if_false] at hbalanced ⊢
  split
  · -- A refused short leaves the position as it was held.
    rw [s.pf.basis_of_insert rfl]
    dsimp only
    linarith
  · rw [s.pf.basis_of_insert rfl]
    dsimp only
    linarith

theorem Ledger.balanced_apply_split {s : Ledger} (hbalanced : s.Balanced) (instrument : InstrumentId)
    (ratio : Rat) : (s.operate (.apply_split instrument ratio)).Balanced := by
  simp only [Ledger.Balanced, Ledger.operate, Portfolio.apply_split] at hbalanced ⊢
  split
  · exact hbalanced
  · cases hheld : s.pf.positions[instrument]? with
    | none => exact hbalanced
    | some pos =>
      have hbasis := pos.basis_apply_split ratio
      rw [s.pf.basis_of_insert rfl, Portfolio.held_of_some hheld]
      dsimp only
      linarith

theorem Ledger.balanced_apply_dividend {s : Ledger} (hbalanced : s.Balanced)
    (instrument : InstrumentId) (per_share : Notional) :
    (s.operate (.apply_dividend instrument per_share)).Balanced := by
  simp only [Ledger.Balanced, Ledger.operate, Portfolio.apply_dividend, Portfolio.dividendLeg]
    at hbalanced ⊢
  cases hheld : s.pf.positions[instrument]? with
  | none => simpa only [add_zero] using hbalanced
  | some pos =>
    simp only [Portfolio.basis] at hbalanced ⊢
    linarith

theorem ledgerMachine_balanced {s : Ledger} (hreach : ledgerMachine.Reachable s) : s.Balanced := by
  refine hreach.invariant (I := Ledger.Balanced) ?_ ?_
  · rintro s ⟨hdividends, hnew⟩
    rw [Ledger.Balanced, hdividends, hnew]
    simp [Portfolio.new, Portfolio.basis]
  · intro s o t _ hbalanced _ hstep
    cases hstep
    cases o with
    | apply fill => exact Ledger.balanced_apply hbalanced fill
    | apply_split instrument ratio => exact Ledger.balanced_apply_split hbalanced instrument ratio
    | apply_dividend instrument per_share =>
      exact Ledger.balanced_apply_dividend hbalanced instrument per_share
    | mark instrument bid ask => exact hbalanced
    | mark_last instrument last => exact hbalanced

/-- The accounting identity, after any operations on any instruments and under
any marks: equity is the initial cash, the profit realised and unrealised and
the dividends, less the costs. -/
theorem ledgerMachine_identity {s : Ledger} (hreach : ledgerMachine.Reachable s) :
    s.pf.equity = s.pf.cfg.initial_cash + s.pf.realized_pnl + s.pf.unrealized_pnl -
      s.pf.total_costs + s.dividends := by
  have hbalanced := ledgerMachine_balanced hreach
  have hvalue := s.pf.position_value_eq
  simp only [Ledger.Balanced] at hbalanced
  rw [Portfolio.equity, hvalue]
  linarith

/-- Ten shares bought, split, marked up and sold through zero. -/
def reversedLedger : Ledger :=
  [.apply (sampleFill 1 .Buy 10 100 1), .apply_split 0 2, .apply_dividend 0 3, .mark 0 60 61,
    .apply (sampleFill 2 .Sell 25 58 1)].foldl Ledger.operate { pf := Portfolio.new {} }

theorem ledgerMachine_identity_reversed :
    reversedLedger.pf.equity =
      reversedLedger.pf.cfg.initial_cash + reversedLedger.pf.realized_pnl +
        reversedLedger.pf.unrealized_pnl - reversedLedger.pf.total_costs + reversedLedger.dividends := by
  have hinit : ledgerMachine.Init { pf := Portfolio.new {} } := ⟨rfl, rfl⟩
  exact ledgerMachine_identity (.foldl (fun _ _ => rfl) (.init hinit) _)

end ptl.portfolio
