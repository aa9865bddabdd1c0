import TradingLab.Algo.Turns

/-! The children of an executor's plans: known to the order manager, each of
one plan, and every fill that waits a child's. -/

open ptl.oms ptl.engine ptl.execution

namespace ptl.algo

variable {R Q : Type} {source : IMarketDataSource Q}

/-- The plans, the map from children to plans, the venue's orders and the fills
that wait are of one mind about whose child is whose. -/
structure Sound (x : Executor) (e : Engine R) (inbox : List Fill) : Prop where
  agreed : e.Agreed
  keyed : ∀ (k : OrderId) plan, x.plans[k]? = some plan → plan.parent_id = k ∧ k ≠ 0
  routed : ∀ c k : OrderId,
    x.child_to_parent[c]? = some k ↔ ∃ plan, x.plans[k]? = some plan ∧ c ∈ plan.children
  known : ∀ c k : OrderId, x.child_to_parent[c]? = some k → e.Known c
  distinct : ∀ (k : OrderId) plan, x.plans[k]? = some plan → plan.children.Nodup
  parent : ∀ p ∈ e.broker.pending, ∀ k : OrderId,
    x.child_to_parent[p.order.id]? = some k → p.order.parent_id = k
  waiting : ∀ f ∈ inbox, 0 < f.quantity ∧ x.child_to_parent[f.order_id]? = some f.parent_id
  own : ∀ (k : OrderId) plan c, x.plans[k]? = some plan → plan.working_child = some c → c ∈ plan.children

namespace Sound

variable {x : Executor} {e : Engine R} {inbox : List Fill}

/-- A child has one plan. -/
theorem unique (hsound : Sound x e inbox) {k k' : OrderId} {plan plan' : ExecutionPlan} {c : OrderId}
    (hplan : x.plans[k]? = some plan) (hplan' : x.plans[k']? = some plan') (hc : c ∈ plan.children)
    (hc' : c ∈ plan'.children) : k = k' := by
  have hk := (hsound.routed c k).mpr ⟨plan, hplan, hc⟩
  have hk' := (hsound.routed c k').mpr ⟨plan', hplan', hc'⟩
  exact Option.some.inj (hk.symm.trans hk')

theorem child_known (hsound : Sound x e inbox) {k : OrderId} {plan : ExecutionPlan} {c : OrderId}
    (hplan : x.plans[k]? = some plan) (hc : c ∈ plan.children) : e.Known c :=
  hsound.known c k ((hsound.routed c k).mpr ⟨plan, hplan, hc⟩)

/-- A plan rewritten with the children it has, and a working child that is one
of them. -/
theorem rewrite (hsound : Sound x e inbox) {key : OrderId} {plan plan' : ExecutionPlan}
    (stats : ExecutionStatistics) (hplan : x.plans[key]? = some plan)
    (hparent : plan'.parent_id = plan.parent_id) (hchildren : plan'.children = plan.children)
    (hworking : plan'.working_child = none ∨ plan'.working_child = plan.working_child) :
    Sound { x with plans := x.plans.insert key plan', stats } e inbox := by
  refine ⟨hsound.agreed, fun k other hother => ?_, fun c k => ?_, hsound.known, fun k other hother => ?_,
    hsound.parent, hsound.waiting, fun k other c hother hc => ?_⟩
  · obtain ⟨rfl, rfl⟩ | ⟨-, hother⟩ := Table.getElem?_insert_eq_some.mp hother
    · rw [hparent]
      exact hsound.keyed key plan hplan
    · exact hsound.keyed k other hother
  · rw [hsound.routed c k]
    by_cases hsame : key = k
    · subst hsame
      simp [hplan, hchildren]
    · simp [Table.getElem?_insert_of_ne _ _ hsame]
  · obtain ⟨rfl, rfl⟩ | ⟨-, hother⟩ := Table.getElem?_insert_eq_some.mp hother
    · rw [hchildren]
      exact hsound.distinct key plan hplan
    · exact hsound.distinct k other hother
  · obtain ⟨rfl, rfl⟩ | ⟨-, hother⟩ := Table.getElem?_insert_eq_some.mp hother
    · rw [hchildren]
      rcases hworking with hnone | hsame
      · rw [hnone] at hc
        cases hc
      · exact hsound.own key plan c hplan (hsame ▸ hc)
    · exact hsound.own k other c hother hc

/-- Counting changes nothing, nor does an engine that keeps what it knew. -/
theorem shrink (hsound : Sound x e inbox) {e' : Engine R} {fs : List Fill} (stats : ExecutionStatistics)
    (hagreed : e'.Agreed) (hshrinks : e.Shrinks e' fs) :
    Sound { x with stats } e' (inbox ++ x.ownFills fs) := by
  refine ⟨hagreed, hsound.keyed, hsound.routed, fun c k hc => hshrinks.known c (hsound.known c k hc),
    hsound.distinct, fun q hq k hk => ?_, fun f hf => ?_, hsound.own⟩
  · obtain ⟨p, hp, hsame⟩ := hshrinks.order_of_rest q hq
    rw [hsame] at hk ⊢
    exact hsound.parent p hp k hk
  · rcases List.mem_append.mp hf with hf | hf
    · exact hsound.waiting f hf
    · obtain ⟨hf, hchild⟩ := List.mem_filter.mp hf
      obtain ⟨hpositive, p, hp, hid, hparent⟩ := hshrinks.order_of_fill f hf
      obtain ⟨k, hk⟩ := Option.isSome_iff_exists.mp hchild
      rw [hid] at hk
      rw [hid, hparent, hsound.parent p hp k hk]
      exact ⟨hpositive, hk⟩

/-- An order of somebody else's is nobody's child. -/
theorem enter (hsound : Sound x e inbox) {e' : Engine R} {order : Order} (hagreed : e'.Agreed)
    (henters : e.Enters e' order) : Sound x e' inbox := by
  refine ⟨hagreed, hsound.keyed, hsound.routed,
    fun c k hc => (henters.known c).mpr (.inr (hsound.known c k hc)), hsound.distinct, fun q hq k hk => ?_,
    hsound.waiting, hsound.own⟩
  obtain ⟨p, hpending, hid, -⟩ := henters.pending_eq
  rw [hpending] at hq
  rcases List.mem_append.mp hq with hq | hq
  · exact hsound.parent q hq k hk
  · rw [List.mem_singleton.mp hq, hid] at hk
    exact absurd (hsound.known _ k hk) henters.new

/-- A child that is sent is its plan's. -/
theorem send (hsound : Sound x e inbox) {e' : Engine R} {key : OrderId} {plan : ExecutionPlan} {order : Order}
    {stats : ExecutionStatistics} {state : ExecutionState} (hplan : x.plans[key]? = some plan)
    (hparent : order.parent_id = plan.parent_id) (henters : e.Enters e' order) (hagreed : e'.Agreed) :
    Sound { x with
      plans := x.plans.insert key { plan.emitted order.id with state }
      child_to_parent := x.child_to_parent.insert order.id plan.parent_id
      stats } e' inbox := by
  obtain ⟨hkey, hset⟩ := hsound.keyed key plan hplan
  have hfresh : ∀ {k : OrderId} {other : ExecutionPlan}, x.plans[k]? = some other →
      order.id ∉ other.children :=
    fun hother hc => henters.new (hsound.child_known hother hc)
  have hold : ∀ {c k : OrderId}, x.child_to_parent[c]? = some k → order.id ≠ c := by
    intro c k hc heq
    exact henters.new (heq ▸ hsound.known c k hc)
  refine ⟨hagreed, fun k other hother => ?_, fun c k => ?_, fun c k hc => ?_, fun k other hother => ?_,
    fun q hq k hk => ?_, fun f hf => ?_, fun k other c hother hc => ?_⟩
  · obtain ⟨rfl, rfl⟩ | ⟨-, hother⟩ := Table.getElem?_insert_eq_some.mp hother
    · exact ⟨hkey, hset⟩
    · exact hsound.keyed k other hother
  · by_cases hnew : order.id = c
    · subst hnew
      rw [Table.getElem?_insert_self, hkey, Option.some.injEq]
      constructor
      · rintro rfl
        exact ⟨_, Table.getElem?_insert_self _ _ _, by simp [ExecutionPlan.emitted]⟩
      · rintro ⟨other, hother, hc⟩
        obtain ⟨hsame, -⟩ | ⟨-, hother⟩ := Table.getElem?_insert_eq_some.mp hother
        · exact hsame
        · exact absurd hc (hfresh hother)
    · rw [Table.getElem?_insert_of_ne _ _ hnew, hsound.routed c k]
      by_cases hsame : key = k
      · subst hsame
        simp [hplan, ExecutionPlan.emitted, Ne.symm hnew]
      · simp [Table.getElem?_insert_of_ne _ _ hsame]
  · rw [henters.known c]
    obtain ⟨hnew, -⟩ | ⟨-, hc⟩ := Table.getElem?_insert_eq_some.mp hc
    · exact .inl hnew.symm
    · exact .inr (hsound.known c k hc)
  · obtain ⟨rfl, rfl⟩ | ⟨-, hother⟩ := Table.getElem?_insert_eq_some.mp hother
    · refine List.Nodup.append (hsound.distinct key plan hplan) (List.nodup_singleton _) ?_
      simpa using hfresh hplan
    · exact hsound.distinct k other hother
  · obtain ⟨p, hpending, hid, hp, -⟩ := henters.pending_eq
    rw [hpending] at hq
    rcases List.mem_append.mp hq with hq | hq
    · have hlive : e.Known q.order.id := hsound.agreed.known (List.mem_map_of_mem hq)
      have hother : order.id ≠ q.order.id := fun heq => henters.new (heq ▸ hlive)
      refine hsound.parent q hq k ?_
      rwa [← Table.getElem?_insert_of_ne _ plan.parent_id hother]
    · obtain rfl := List.mem_singleton.mp hq
      rw [hid] at hk
      dsimp only at hk
      rw [Table.getElem?_insert_self] at hk
      rw [hp, hparent]
      exact Option.some.inj hk
  · obtain ⟨hpositive, hchild⟩ := hsound.waiting f hf
    exact ⟨hpositive, Table.getElem?_insert_eq_some.mpr (.inr ⟨hold hchild, hchild⟩)⟩
  · obtain ⟨rfl, rfl⟩ | ⟨-, hother⟩ := Table.getElem?_insert_eq_some.mp hother
    · cases hc
      exact List.mem_append_right _ (List.mem_singleton_self _)
    · exact hsound.own k other c hother hc

theorem opened (hsound : Sound x e inbox) {parent_id : OrderId} {request : ExecutionRequest}
    {schedule : ExecutionSchedule} {arrival_price : Price} {stats : ExecutionStatistics} (hset : parent_id ≠ 0)
    (hnew : x.plans[parent_id]? = none) :
    Sound { x with
      plans := x.plans.insert parent_id (.new request parent_id schedule arrival_price)
      stats } e inbox := by
  refine ⟨hsound.agreed, fun k other hother => ?_, fun c k => ?_, hsound.known, fun k other hother => ?_,
    hsound.parent, hsound.waiting, fun k other c hother hc => ?_⟩
  · obtain ⟨rfl, rfl⟩ | ⟨-, hother⟩ := Table.getElem?_insert_eq_some.mp hother
    · exact ⟨rfl, hset⟩
    · exact hsound.keyed k other hother
  · rw [hsound.routed c k]
    by_cases hsame : parent_id = k
    · subst hsame
      simp [hnew, ExecutionPlan.new]
    · simp [Table.getElem?_insert_of_ne _ _ hsame]
  · obtain ⟨rfl, rfl⟩ | ⟨-, hother⟩ := Table.getElem?_insert_eq_some.mp hother
    · exact List.nodup_nil
    · exact hsound.distinct k other hother
  · obtain ⟨rfl, rfl⟩ | ⟨-, hother⟩ := Table.getElem?_insert_eq_some.mp hother
    · cases hc
    · exact hsound.own k other c hother hc

/-- A fill that waits is taken by the plan whose child it fills. -/
theorem on_fill (hsound : Sound x e inbox) {f : Fill} {rest : List Fill} (hinbox : inbox = f :: rest) :
    ∃ plan, x.plans[f.parent_id]? = some plan ∧ f.order_id ∈ plan.children ∧ 0 < f.quantity ∧
      (x.on_fill f).2 =
        if (plan.filled_by f).progress.complete plan.request.parent.quantity then
          x.completed f.parent_id (plan.filled_by f) f.fill_time
        else { x with plans := x.plans.insert f.parent_id (plan.filled_by f) } := by
  obtain ⟨hpositive, hchild⟩ := hsound.waiting f (hinbox ▸ List.mem_cons_self)
  obtain ⟨plan, hplan, hmem⟩ := (hsound.routed _ _).mp hchild
  have hset := (hsound.keyed _ plan hplan).2
  refine ⟨plan, hplan, hmem, hpositive, ?_⟩
  have hkey : x.parent_key f = .ok f.parent_id := by
    rw [Executor.parent_key, if_neg hset]
  simp only [Executor.on_fill, hkey, hplan, if_neg (not_le.mpr hpositive)]
  have hsame : (plan.filled_by f).request = plan.request := rfl
  rw [hsame]
  split <;> rfl

theorem tail (hsound : Sound x e inbox) {f : Fill} {rest : List Fill} (hinbox : inbox = f :: rest) :
    Sound x e rest :=
  { hsound with waiting := fun g hg => hsound.waiting g (hinbox ▸ List.mem_cons_of_mem _ hg) }

theorem after_fill (hsound : Sound x e inbox) {f : Fill} {rest : List Fill} (hinbox : inbox = f :: rest) :
    Sound (x.on_fill f).2 e rest := by
  obtain ⟨plan, hplan, -, -, heq⟩ := hsound.on_fill hinbox
  have hworking : (plan.filled_by f).working_child = none ∨
      (plan.filled_by f).working_child = plan.working_child := by
    dsimp only [ExecutionPlan.filled_by]
    split
    · exact .inl rfl
    · exact .inr rfl
  rw [heq]
  split
  · exact (hsound.tail hinbox).rewrite _ hplan rfl rfl hworking
  · exact (hsound.tail hinbox).rewrite _ hplan rfl rfl hworking

end Sound

/-- Every turn of the executor keeps its children in order. -/
theorem Turn.sound {x x' : Executor} {e e' : Engine R} {inbox : List Fill} (hturn : Turn x e x' e')
    (hsound : Sound x e inbox) : Sound x' e' inbox := by
  cases hturn with
  | refused rejected hshrinks hagreed _ =>
    have hkept := hsound.shrink { x.stats with child_orders_rejected := rejected }
      (hagreed hsound.agreed) hshrinks
    simpa [Executor.ownFills] using hkept
  | opened schedule arrival_price hset hnew _ => exact hsound.opened hset hnew
  | completed finished hplan _ _ => exact hsound.rewrite _ hplan rfl rfl (.inr rfl)
  | emitted _ hplan _ _ _ _ _ _ hparent henters hagreed =>
    exact hsound.send hplan hparent henters (hagreed hsound.agreed)
  | @withdrawn key plan state finished hplan _ _ =>
    have hrewritten : Sound { x with
        plans := x.plans.insert key { plan with working_child := none, state, finished }
        stats := x.stats.withdrew state } e inbox :=
      hsound.rewrite _ hplan rfl rfl (.inl rfl)
    cases hworking : plan.working_child with
    | none => exact hrewritten
    | some c =>
      have hcancelled := hrewritten.shrink (x.stats.withdrew state)
        (Engine.agreed_cancel hsound.agreed c) (Engine.cancel_shrinks hsound.agreed c).1
      simpa [Executor.ownFills, withdraw, engineSink] using hcancelled

/-- In every run of an executor its children are in order. -/
theorem deskMachine_sound {d : Desk R Q} {G : Desk R Q → DeskMove → Prop}
    (hreach : (deskMachine R source).Reaches G d) : Sound d.executor d.session.engine d.inbox := by
  refine hreach.invariant (I := fun d => Sound d.executor d.session.engine d.inbox) ?_ ?_
  · rintro d hinit
    have hnone : ∀ k : OrderId, d.executor.plans[k]? = none := by simp [hinit.plans_empty]
    have hchild : ∀ c : OrderId, d.executor.child_to_parent[c]? = none := by simp [hinit.children_empty]
    have hempty : d.session.engine.broker.pending = [] := hinit.session.fresh.pending_empty
    constructor
    · rw [Engine.Agreed, hempty]
      exact ⟨List.nodup_nil, fun p hp => absurd hp List.not_mem_nil⟩
    all_goals simp [hnone, hchild, hempty, hinit.inbox_empty]
  · intro d l t _ hsound _ hstep
    obtain ⟨a, session, rfl, hsession, rfl⟩ | ⟨f, rest, rfl, hinbox, rfl⟩ | ⟨x, e, hturns, rfl⟩ :=
      Desk.step_cases hstep
    · obtain ⟨hagreed, ⟨order, rfl, henters⟩ | ⟨hshrinks, -⟩⟩ := Desk.engine_effect hsound.agreed hsession
      · simpa [Desk.dispatched, Executor.ownFills] using hsound.enter hagreed henters
      · exact hsound.shrink _ hagreed hshrinks
    · exact hsound.after_fill hinbox
    · exact hturns.invariant (I := fun x e => Sound x e d.inbox)
        (fun x e x' e' hs hturn => hturn.sound hs) hsound

end ptl.algo
