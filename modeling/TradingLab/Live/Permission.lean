import TradingLab.Live.Run
import TradingLab.Paper.Run

/-! Orders at the venue's simulator while a session does not permit trading. -/

open ptl.oms ptl.portfolio ptl.market ptl.risk ptl.execution ptl.accounting ptl.storage ptl.engine
  ptl.paper

namespace ptl.live

variable {R S T F : Type} {fmt : DoubleFormat Rat} {fs : IFileSystem F} {transport : ILiveTransport T}
  {translator : IOrderTranslator}

/-! ### What the broker's poll does to the list -/

/-- A booked report completes an order or leaves some of it. -/
theorem idsOf_updateFirst_sublist (id : OrderId) (quantity : Qty) (ps : List PendingOrder) :
    (idsOf (updateFirst id (PendingOrder.after_external · quantity) ps)).Sublist (idsOf ps) := by
  induction ps with
  | nil => exact List.Sublist.slnil
  | cons p ps ih =>
    unfold updateFirst
    split
    · unfold PendingOrder.after_external
      split
      · exact List.sublist_cons_self _ _
      · exact List.Sublist.refl _
    · exact ih.cons_cons _

variable (translator) in
theorem LiveBroker.apply_pending (b : LiveBroker R T) (m : BrokerMessage) :
    (idsOf (b.apply translator m).2.simulator.pending).Sublist (idsOf b.simulator.pending) := by
  rcases b.apply_cases translator m with hsame | ⟨id, -, -, -, hpending⟩ | ⟨u, p, f, -, hfilled⟩
  · rw [hsame.pending_eq]
  · rw [hpending]
    unfold BrokerSimulator.cancel
    split
    · exact List.eraseP_sublist.map _
    · exact List.Sublist.refl _
  · rw [hfilled.pending_eq]
    exact idsOf_updateFirst_sublist _ _ _

variable (translator) in
theorem LiveBroker.applyAll_pending (b : LiveBroker R T) (batch : List BrokerMessage) :
    (idsOf (b.applyAll translator batch).2.simulator.pending).Sublist (idsOf b.simulator.pending) := by
  induction batch generalizing b with
  | nil => exact List.Sublist.refl _
  | cons m rest ih =>
    have hfewer := b.apply_pending translator m
    unfold LiveBroker.applyAll
    revert hfewer
    rcases b.apply translator m with ⟨result, b'⟩
    intro hfewer
    cases result with
    | error e => exact hfewer
    | ok fill => exact (ih b').trans hfewer

/-- The venue's messages take orders off the list and put none on it. -/
theorem LiveSession.collect_pending (p : LiveSession R T F) :
    (idsOf (p.collect transport translator).2.engine.broker.pending).Sublist
      (idsOf p.engine.broker.pending) := by
  have hfewer := (p.liveBroker.drained transport).applyAll_pending translator
    (p.liveBroker.batch transport)
  unfold LiveSession.collect
  rw [LiveBroker.poll_eq]
  revert hfewer
  rcases (p.liveBroker.drained transport).applyAll translator (p.liveBroker.batch transport) with ⟨fills, b⟩
  intro hfewer
  cases fills with
  | error e => exact hfewer
  | ok fills => exact hfewer

/-! ### Every run -/

/-- In a step that began in another phase than running, the strategy's orders are
turned down on their way. -/
def LiveRun.TurnsDown (r : LiveRun R T F) : LiveMove T → Prop
  | .engine (.submit order) => r.opening.permitted = false → ¬ r.session.engine.Admits order
  | _ => True

/-- Since the last step began, if it did not begin running, no order has entered
the venue's list. -/
def LiveRun.Respects (r : LiveRun R T F) : Prop :=
  r.opening.Respects r.session.engine.broker.pending

theorem liveMachine_respects {r : LiveRun R T F}
    (hreach : (liveMachine fmt fs transport translator R).Reaches LiveRun.TurnsDown r) : r.Respects := by
  refine hreach.invariant ?_ ?_
  · rintro r ⟨p, -, -, -, -, -, rfl⟩
    nofun
  · intro r l t _ hrespects hturned hstep
    obtain ⟨delivers, rfl⟩ | ⟨hsame, hopening⟩ | ⟨hsame, hopening⟩ | ⟨rfl, rfl⟩ | ⟨rfl, rfl⟩ |
      ⟨handling, a, x, rfl, hmoved, rfl⟩ := LiveRun.step_cases hstep
    · nofun
    · rw [LiveRun.Respects, hsame.rests.broker_eq, hopening]
      exact fun _ => List.Sublist.refl _
    · rw [LiveRun.Respects, hsame.rests.broker_eq, hopening]
      exact hrespects
    · exact hrespects.sublist r.session.collect_pending
    · exact hrespects
    · intro hforbidden
      have hopening : (r.turned a x).opening = r.opening := by cases a <;> rfl
      have hengine : (r.turned a x).session.engine = x.engine := by cases a <;> rfl
      rw [hopening] at hforbidden ⊢
      rw [hengine]
      have hfewer := Session.step_pending hmoved fun order ha => by
        subst ha
        exact hturned hforbidden
      exact hfewer.trans (hrespects hforbidden)

instance (r : LiveRun R T F) (l : LiveMove T) : Decidable (r.TurnsDown l) :=
  match l with
  | .engine (.submit order) =>
    inferInstanceAs (Decidable (r.opening.permitted = false → ¬ r.session.engine.Admits order))
  | .engine .arrive | .engine (.cancel _) | .engine .next_order_id | .engine .settle | .start _ | .halt _
  | .resume | .request_stop | .persist | .reconcile | .shutdown | .kill _ | .elsewhere _ _ | .enter
  | .collect | .pump | .between | .leave => inferInstanceAs (Decidable True)

instance {Q : Type} (r : PaperRun R Q F) (l : PaperMove Q) : Decidable (r.TurnsDown l) :=
  match l with
  | .engine (.submit order) =>
    inferInstanceAs (Decidable (r.opening.permitted = false → ¬ r.session.engine.Admits order))
  | .engine .arrive | .engine (.cancel _) | .engine .next_order_id | .engine .settle | .start _ | .pause _
  | .resume | .request_stop | .persist | .daily_reset _ | .shutdown | .kill _ | .enter | .between
  | .leave => inferInstanceAs (Decidable True)

end ptl.live
