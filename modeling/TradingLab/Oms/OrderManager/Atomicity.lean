import TradingLab.Machine
import TradingLab.Oms.OrderManager

open Std (TreeMap)

namespace ptl.oms

/-- The calls that change an order manager. -/
inductive Call where
  | next_id
  | submit (order : Order)
  | transition (id : OrderId) (target : OrderState) (reason : String)
  | apply_fill (fill : Fill)
  | cancel_replace (original : OrderId) (replacement : Order)

def errorOf {T : Type} : Result T → Option Error
  | .error e => some e
  | .ok _ => none

/-- A call's error, if it returns one, and the manager it leaves. -/
def OrderManager.call (m : OrderManager) : Call → Option Error × OrderManager
  | .next_id => (none, m.next_id.2)
  | .submit order => (errorOf (m.submit order).1, (m.submit order).2)
  | .transition id target reason =>
    (errorOf (m.transition id target reason).1, (m.transition id target reason).2)
  | .apply_fill fill => (errorOf (m.apply_fill fill).1, (m.apply_fill fill).2)
  | .cancel_replace original replacement =>
    (errorOf (m.cancel_replace original replacement).1, (m.cancel_replace original replacement).2)

open OrderManager

/-- An order manager as the source builds and uses it: empty, then any calls,
    succeeding or not. -/
def managerMachine : Machine OrderManager Call where
  Init m := m = {}
  step m c := some (m.call c).2

/-- A call that returns an error leaves the manager as it was. -/
def OrderManager.AtomicAt (m : OrderManager) (c : Call) : Prop :=
  ∀ e, (m.call c).1 = some e → (m.call c).2 = m

/-- No fill passes its checks while the order was never acknowledged, and no
    replacement is refused after its original was cancelled. -/
def OrderManager.NoLateFailure (m : OrderManager) : Call → Prop
  | .apply_fill fill =>
    ∀ rec, m.records[fill.order_id]? = some rec → rec.state = .New → rec.fillError fill ≠ none
  | .cancel_replace original replacement =>
    ∀ rec, m.records[original]? = some rec → is_terminal rec.state = false →
      replacement.instrument = rec.order.instrument → replacement.side = rec.order.side →
      m.submitError replacement = none
  | _ => True

theorem OrderManager.submit_atomic (m : OrderManager) (order : Order) :
    m.AtomicAt (.submit order) := by
  intro e herror
  cases hrefused : m.submitError order with
  | none => simp [call, submit, hrefused, errorOf] at herror
  | some _ => simp [call, submit, hrefused]

theorem OrderManager.transition_atomic (m : OrderManager) (id : OrderId) (target : OrderState)
    (reason : String) : m.AtomicAt (.transition id target reason) := by
  intro e herror
  simp only [call, transition] at herror ⊢
  cases hrec : m.records[id]? with
  | none => rfl
  | some rec =>
    simp only [hrec] at herror ⊢
    by_cases hlegal : is_legal_transition rec.state target = true
    · simp [hlegal, errorOf] at herror
    · simp [hlegal]

theorem OrderManager.apply_fill_atomic_iff (m : OrderManager) (fill : Fill) :
    m.AtomicAt (.apply_fill fill) ↔ m.NoLateFailure (.apply_fill fill) := by
  constructor
  · intro hatomic rec hrec hnew hchecks
    obtain ⟨⟨e, herror⟩, hwritten⟩ := apply_fill_new hrec hchecks hnew
    have hsame := hatomic e (by simp [call, herror, errorOf])
    simp only [call] at hsame
    rw [hsame, hrec] at hwritten
    have hfilled : rec.filled_quantity = rec.filled_quantity + fill.quantity :=
      congrArg OrderRecord.filled_quantity (Option.some.inj hwritten)
    have hpos := fill.quantity_pos
    linarith
  · intro hlate e herror
    simp only [call] at herror ⊢
    cases hrec : m.records[fill.order_id]? with
    | none => simp [apply_fill, hrec]
    | some rec =>
      cases hchecks : rec.fillError fill with
      | some _ => simp [apply_fill, hrec, hchecks]
      | none =>
        have hsent : rec.state ≠ .New := fun hnew => hlate rec hrec hnew hchecks
        have haccepts := (rec.accepts_iff fill).mpr ⟨hchecks, hsent⟩
        rw [apply_fill_accepted hrec haccepts] at herror
        cases herror

/-- Past its guards, `cancel_replace` cancels the original and then submits. -/
theorem OrderManager.cancel_replace_eq {m : OrderManager} {original : OrderId}
    {replacement : Order} {rec : OrderRecord} (hrec : m.records[original]? = some rec)
    (hlive : is_terminal rec.state = false)
    (hinstrument : replacement.instrument = rec.order.instrument)
    (hside : replacement.side = rec.order.side) :
    m.cancel_replace original replacement =
      submit
        { m with records := (m.records.insert original
            { rec with state := .Cancelled, reject_reason := "replaced" }) } replacement := by
  simp [cancel_replace, transition, hrec, hlive, hinstrument, hside,
    is_legal_cancel hlive]

/-- Rewriting a record that exists does not change which submissions are
refused. -/
theorem OrderManager.submitError_insert {m : OrderManager} {id : OrderId} {rec rec' : OrderRecord}
    (hrec : m.records[id]? = some rec) (order : Order) :
    ({ m with records := m.records.insert id rec' } : OrderManager).submitError order =
      m.submitError order := by
  have hcontains (k : OrderId) : (m.records.insert id rec').contains k = m.records.contains k := by
    rw [Bool.eq_iff_iff, ← TreeMap.mem_iff_contains, ← TreeMap.mem_iff_contains, TreeMap.mem_insert]
    constructor
    · rintro (heq | hmem)
      · rw [← Std.LawfulEqOrd.eq_of_compare heq, TreeMap.mem_iff_isSome_getElem?, hrec]
        rfl
      · exact hmem
    · exact Or.inr
  simp only [submitError, hcontains]

theorem OrderManager.cancel_replace_atomic_iff (m : OrderManager) (original : OrderId)
    (replacement : Order) :
    m.AtomicAt (.cancel_replace original replacement) ↔
      m.NoLateFailure (.cancel_replace original replacement) := by
  constructor
  · intro hatomic rec hrec hlive hinstrument hside
    by_contra hrefused
    obtain ⟨e, herror⟩ := Option.ne_none_iff_exists'.mp hrefused
    have hcall := cancel_replace_eq hrec hlive hinstrument hside
    rw [submit, submitError_insert hrec, herror] at hcall
    have hsame := hatomic e (by simp [call, hcall, errorOf])
    simp only [call, hcall] at hsame
    have hlookup := congrArg (fun m' : OrderManager => m'.records[original]?) hsame
    simp only [Table.getElem?_insert_self, hrec, Option.some.injEq] at hlookup
    have hstate := congrArg OrderRecord.state hlookup
    rw [← hstate] at hlive
    cases hlive
  · intro hlate e herror
    simp only [call] at herror ⊢
    cases hrec : m.records[original]? with
    | none => simp [cancel_replace, hrec]
    | some rec =>
      by_cases hguard : is_terminal rec.state = false ∧
          replacement.instrument = rec.order.instrument ∧ replacement.side = rec.order.side
      · obtain ⟨hlive, hinstrument, hside⟩ := hguard
        have haccepted := hlate rec hrec hlive hinstrument hside
        rw [cancel_replace_eq hrec hlive hinstrument hside, submit,
          submitError_insert hrec, haccepted] at herror
        cases herror
      · by_cases hterminal : is_terminal rec.state = true
        · simp [cancel_replace, hrec, hterminal]
        · simp only [Bool.not_eq_true] at hterminal
          have hmismatch : replacement.instrument ≠ rec.order.instrument ∨
              replacement.side ≠ rec.order.side := by
            rw [← not_and_or]
            exact fun hmatch => hguard ⟨hterminal, hmatch⟩
          simp [cancel_replace, hrec, hterminal, hmismatch]

/-- A failed call changes nothing exactly when neither late failure is in play:
a checked fill of an order still `New`, and a refused replacement of an order
that could be cancelled. -/
theorem OrderManager.atomic_iff_no_late_failure (m : OrderManager) (c : Call) :
    m.AtomicAt c ↔ m.NoLateFailure c := by
  cases c with
  | next_id => simp [OrderManager.AtomicAt, OrderManager.NoLateFailure, call]
  | submit order => exact iff_of_true (m.submit_atomic order) trivial
  | transition id target reason => exact iff_of_true (m.transition_atomic id target reason) trivial
  | apply_fill fill => exact m.apply_fill_atomic_iff fill
  | cancel_replace original replacement => exact m.cancel_replace_atomic_iff original replacement

/-- A reachable manager where both late failures happen. An order is filled
before it was acknowledged: the fill is refused and its amounts stay. The same
order is replaced by itself: the replacement is refused as a duplicate and the
original stays cancelled. -/
theorem OrderManager.late_failures :
    ∃ m, managerMachine.Reachable m ∧ ¬ m.AtomicAt (.apply_fill (sampleFill 1 .Buy 4 99)) ∧
      ¬ m.AtomicAt (.cancel_replace 1 dayBuy) := by
  refine ⟨(({} : OrderManager).submit dayBuy).2,
    .step (.init rfl) trivial (l := .submit dayBuy) rfl, ?_, ?_⟩
  · rw [apply_fill_atomic_iff]
    intro hlate
    exact hlate { order := dayBuy } rfl rfl (by decide +kernel)
  · rw [cancel_replace_atomic_iff]
    intro hlate
    have hrefused := hlate { order := dayBuy } rfl rfl rfl rfl
    cases hrefused

end ptl.oms
