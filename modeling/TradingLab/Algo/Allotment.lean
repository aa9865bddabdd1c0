import TradingLab.Algo.Tracking

/-! What is filled over all children of a parent, against what the parent asked
for. -/

open ptl.oms ptl.market ptl.engine ptl.execution

namespace ptl.algo

variable {R Q : Type} {source : IMarketDataSource Q}

/-- What is filled over all children of a plan. -/
def ExecutionPlan.executed (plan : ExecutionPlan) (e : Engine R) : Qty := (plan.children.map e.filledOf).sum

open ExecutionPlan

/-- What is filled over all children of a plan, and what may still be. -/
def ExecutionPlan.committed (plan : ExecutionPlan) (e : Engine R) : Qty :=
  (plan.children.map e.committed).sum

/-- What of that the executor was not told yet. -/
def ExecutionPlan.untold (plan : ExecutionPlan) (inbox : List Fill) : Qty :=
  (plan.children.map (filledBy inbox)).sum

/-- The progress of a plan is what its children have, less what waits. -/
structure ExecutionPlan.Booked (plan : ExecutionPlan) (e : Engine R) (inbox : List Fill) : Prop where
  filled_eq : plan.progress.filled + plan.untold inbox = plan.executed e
  remaining_eq : plan.progress.remaining = max 0 (plan.request.parent.quantity - plan.progress.filled)

/-- Every plan of an executor is booked. -/
def AllBooked (x : Executor) (e : Engine R) (inbox : List Fill) : Prop :=
  ∀ (k : OrderId) plan, x.plans[k]? = some plan → plan.Booked e inbox

section Books

variable {x x' : Executor} {e e' : Engine R} {inbox : List Fill}

theorem ExecutionPlan.Booked.congr {plan plan' : ExecutionPlan} (hbooked : plan.Booked e inbox)
    (hrequest : plan'.request = plan.request) (hprogress : plan'.progress = plan.progress)
    (hchildren : plan'.children = plan.children) : plan'.Booked e inbox := by
  obtain ⟨hfilled, hremaining⟩ := hbooked
  constructor
  · rw [untold, executed, hprogress, hchildren]
    exact hfilled
  · rw [hrequest, hprogress]
    exact hremaining

/-- Fills that are dispatched wait to be handed over. -/
theorem AllBooked.shrink {fs : List Fill} (hsound : Sound x e inbox) (hbooked : AllBooked x e inbox)
    (hshrinks : e.Shrinks e' fs) : AllBooked x e' (inbox ++ x.ownFills fs) := by
  intro k plan hplan
  have hown : ∀ c ∈ plan.children, filledBy (x.ownFills fs) c = filledBy fs c := by
    intro c hc
    have hchild := (hsound.routed c k).mpr ⟨plan, hplan, hc⟩
    rw [filledBy, filledBy, Executor.ownFills, List.filter_filter]
    congr 2
    refine List.filter_congr fun f _ => ?_
    by_cases hid : f.order_id = c
    · simp [hid, hchild]
    · simp [hid]
  have huntold : plan.untold (inbox ++ x.ownFills fs) = plan.untold inbox + (plan.children.map (filledBy fs)).sum := by
    rw [untold, untold, ← List.sum_map_add]
    congr 1
    exact List.map_congr_left fun c hc => by rw [filledBy_append, hown c hc]
  have hexecuted : plan.executed e' = plan.executed e + (plan.children.map (filledBy fs)).sum := by
    rw [executed, executed, ← List.sum_map_add]
    congr 1
    exact List.map_congr_left fun c _ => hshrinks.filled_eq c
  obtain ⟨hfilled, hremaining⟩ := hbooked k plan hplan
  refine ⟨?_, hremaining⟩
  rw [huntold, hexecuted, ← hfilled, add_assoc]

/-- Moves of the engine that fill nothing. -/
theorem AllBooked.of_filled_eq (hbooked : AllBooked x e inbox) (hsame : ∀ id, e'.filledOf id = e.filledOf id) :
    AllBooked x e' inbox := by
  intro k plan hplan
  obtain ⟨hfilled, hremaining⟩ := hbooked k plan hplan
  refine ⟨?_, hremaining⟩
  rw [hfilled, executed, executed]
  congr 1
  exact List.map_congr_left fun c _ => (hsame c).symm

theorem Turn.booked (hturn : Turn x e x' e') (hsound : Sound x e inbox) (hbooked : AllBooked x e inbox) :
    AllBooked x' e' inbox := by
  cases hturn with
  | refused rejected hshrinks _ _ => exact hbooked.of_filled_eq hshrinks.filled_same
  | opened schedule arrival_price hset hnew hpositive =>
    intro k other hother
    obtain ⟨rfl, rfl⟩ | ⟨-, hother⟩ := Table.getElem?_insert_eq_some.mp hother
    · constructor
      · exact add_zero _
      · dsimp only [new]
        rw [sub_zero, max_eq_right hpositive.le]
    · exact hbooked k other hother
  | completed finished hplan _ _ =>
    intro k other hother
    obtain ⟨rfl, rfl⟩ | ⟨-, hother⟩ := Table.getElem?_insert_eq_some.mp hother
    · exact (hbooked _ _ hplan).congr rfl rfl rfl
    · exact hbooked k other hother
  | @emitted _ key plan algorithm ctx child order _ hplan _ _ _ _ _ _ _ henters _ =>
    intro k other hother
    obtain ⟨rfl, rfl⟩ | ⟨-, hother⟩ := Table.getElem?_insert_eq_some.mp hother
    · obtain ⟨hfilled, hremaining⟩ := hbooked.of_filled_eq henters.filled_eq key plan hplan
      refine ⟨?_, hremaining⟩
      have hunfilled : e'.filledOf order.id = 0 :=
        (henters.filled_eq order.id).trans (Engine.filledOf_of_not_known henters.new)
      have hwaits : filledBy inbox order.id = 0 := by
        refine filledBy_of_forall_ne fun f hf hid => henters.new ?_
        exact hid ▸ hsound.known _ _ (hsound.waiting f hf).2
      simpa [ExecutionPlan.untold, ExecutionPlan.executed, ExecutionPlan.emitted, hunfilled, hwaits]
        using hfilled
    · exact hbooked.of_filled_eq henters.filled_eq k other hother
  | @withdrawn key plan state finished hplan _ _ =>
    have hsame := (withdraw_shrinks hsound.agreed plan.working_child).filled_same
    intro k other hother
    obtain ⟨rfl, rfl⟩ | ⟨-, hother⟩ := Table.getElem?_insert_eq_some.mp hother
    · exact (hbooked.of_filled_eq hsame _ _ hplan).congr rfl rfl rfl
    · exact hbooked.of_filled_eq hsame k other hother

/-- A fill that is handed over is booked, once. -/
theorem AllBooked.on_fill {f : Fill} {rest : List Fill} (hsound : Sound x e inbox) (hbooked : AllBooked x e inbox)
    (hinbox : inbox = f :: rest) : AllBooked (x.on_fill f).2 e rest := by
  obtain ⟨plan, hplan, hmem, -, heq⟩ := hsound.on_fill hinbox
  have hfilled : (plan.filled_by f).Booked e rest := by
    obtain ⟨hfilled, -⟩ := hbooked _ plan hplan
    refine ⟨?_, rfl⟩
    rw [hinbox, untold, sum_filledBy_cons (hsound.distinct _ plan hplan), if_pos hmem] at hfilled
    calc plan.progress.filled + f.quantity + plan.untold rest
        = plan.progress.filled + (f.quantity + plan.untold rest) := add_assoc _ _ _
      _ = plan.executed e := hfilled
  have hothers : ∀ (k : OrderId) other, f.parent_id ≠ k → x.plans[k]? = some other → other.Booked e rest := by
    intro k other hne hother
    obtain ⟨hfilled, hremaining⟩ := hbooked k other hother
    have hforeign : f.order_id ∉ other.children := fun hc => hne (hsound.unique hplan hother hmem hc)
    rw [hinbox, untold, sum_filledBy_cons (hsound.distinct k other hother), if_neg hforeign,
      zero_add] at hfilled
    exact ⟨hfilled, hremaining⟩
  rw [heq]
  intro k other hother
  split at hother <;> obtain ⟨rfl, rfl⟩ | ⟨hne, hother⟩ := Table.getElem?_insert_eq_some.mp hother
  · exact hfilled.congr rfl rfl rfl
  · exact hothers k other hne hother
  · exact hfilled
  · exact hothers k other hne hother

end Books

/-- In every run of an executor the plans are booked. -/
theorem deskMachine_booked {G : Desk R Q → DeskMove → Prop} {d : Desk R Q}
    (hreach : (deskMachine R source).Reaches G d) : AllBooked d.executor d.session.engine d.inbox := by
  refine hreach.invariant (I := fun d => AllBooked d.executor d.session.engine d.inbox) ?_ ?_
  · intro d hinit k plan hplan
    simp [hinit.plans_empty] at hplan
  · intro d l t hd hbooked _ hstep
    have hsound := deskMachine_sound hd
    obtain ⟨a, session, rfl, hsession, rfl⟩ | ⟨f, rest, rfl, hinbox, rfl⟩ | ⟨x, e, hturns, rfl⟩ :=
      Desk.step_cases hstep
    · obtain ⟨-, ⟨order, rfl, henters⟩ | ⟨hshrinks, -⟩⟩ := Desk.engine_effect hsound.agreed hsession
      · simpa [Desk.dispatched, Executor.ownFills] using hbooked.of_filled_eq henters.filled_eq
      · exact hbooked.shrink hsound hshrinks
    · exact hbooked.on_fill hsound hinbox
    · exact (hturns.invariant (I := fun x e => Sound x e d.inbox ∧ AllBooked x e d.inbox)
        (fun x e x' e' hs hturn => ⟨hturn.sound hs.1, hturn.booked hs.1 hs.2⟩) ⟨hsound, hbooked⟩).2

/-! ### The cap -/

/-- A fill is handed over only when it is the last its order will ever have. -/
def Desk.HandsOverLast (d : Desk R Q) : DeskMove → Prop
  | .on_fill => ∀ f ∈ d.inbox.head?, ¬ d.session.engine.Live f.order_id ∧
      ∀ g ∈ d.inbox.tail, g.order_id ≠ f.order_id
  | _ => True

instance (d : Desk R Q) : (l : DeskMove) → Decidable (d.HandsOverLast l)
  | .on_fill =>
    inferInstanceAs (Decidable (∀ f ∈ d.inbox.head?, ¬ d.session.engine.Live f.order_id ∧
      ∀ g ∈ d.inbox.tail, g.order_id ≠ f.order_id))
  | .engine _ | .submit _ _ _ | .on_market _ _ | .cancel _ | .expire_stale _ => isTrue trivial

theorem Desk.HandsOverLast.done {d : Desk R Q} {l : DeskMove} (hlast : d.HandsOverLast l) :
    d.HandsOverDone l := by
  cases l with
  | on_fill => exact fun f hf => (hlast f hf).1
  | engine _ => trivial
  | submit _ _ _ => trivial
  | on_market _ _ => trivial
  | cancel _ => trivial
  | expire_stale _ => trivial

/-- Of a plan that is worked only the working child's fills wait. -/
def Attended (x : Executor) (inbox : List Fill) : Prop :=
  ∀ (k : OrderId) plan, x.plans[k]? = some plan → is_terminal plan.state = false →
    ∀ f ∈ inbox, f.order_id ∈ plan.children → plan.working_child = some f.order_id

/-- No plan's children are filled, or may be filled, beyond its parent. -/
def Capped (x : Executor) (e : Engine R) : Prop :=
  ∀ (k : OrderId) plan, x.plans[k]? = some plan → plan.committed e ≤ plan.request.parent.quantity

section Cap

variable {x x' : Executor} {e e' : Engine R} {inbox : List Fill}

/-- Fills that are dispatched are of orders that rested. -/
theorem Attended.shrink {fs : List Fill} (hattended : Attended x inbox) (hwatched : Watched x e)
    (hshrinks : e.Shrinks e' fs) : Attended x (inbox ++ x.ownFills fs) := by
  intro k plan hplan hopen f hf hc
  rcases List.mem_append.mp hf with hf | hf
  · exact hattended k plan hplan hopen f hf hc
  · obtain ⟨-, p, hp, hid, -⟩ := hshrinks.order_of_fill f (List.mem_of_mem_filter hf)
    refine hwatched k plan hplan _ hc ?_
    rw [hid]
    exact List.mem_map_of_mem hp

theorem Turn.attended (hturn : Turn x e x' e') (hattended : Attended x inbox) : Attended x' inbox := by
  cases hturn with
  | refused rejected _ _ _ => exact hattended
  | opened schedule arrival_price hset hnew _ =>
    intro k other hother hopen f hf hc
    obtain ⟨rfl, rfl⟩ | ⟨-, hother⟩ := Table.getElem?_insert_eq_some.mp hother
    · cases hc
    · exact hattended k other hother hopen f hf hc
  | completed finished hplan _ _ =>
    intro k other hother hopen f hf hc
    obtain ⟨rfl, rfl⟩ | ⟨-, hother⟩ := Table.getElem?_insert_eq_some.mp hother
    · cases hopen
    · exact hattended k other hother hopen f hf hc
  | @emitted _ key plan algorithm ctx child order _ hplan hworked _ hidle _ _ _ _ henters _ =>
    intro k other hother hopen f hf hc
    obtain ⟨rfl, rfl⟩ | ⟨-, hother⟩ := Table.getElem?_insert_eq_some.mp hother
    · rcases List.mem_append.mp hc with hc | hc
      · -- Nothing of an idle plan waits.
        have hworking := hattended key plan hplan hworked f hf hc
        rw [hidle] at hworking
        cases hworking
      · rw [List.mem_singleton.mp hc]
        rfl
    · exact hattended k other hother hopen f hf hc
  | withdrawn finished hplan _ hstate =>
    intro k other hother hopen f hf hc
    obtain ⟨rfl, rfl⟩ | ⟨-, hother⟩ := Table.getElem?_insert_eq_some.mp hother
    · rcases hstate with rfl | rfl <;> cases hopen
    · exact hattended k other hother hopen f hf hc

/-- The last fill of a child releases it, and nothing of the plan waits any
more. -/
theorem Attended.on_fill {f : Fill} {rest : List Fill} (hsound : Sound x e inbox)
    (hattended : Attended x inbox) (hinbox : inbox = f :: rest) (hlast : ∀ g ∈ rest, g.order_id ≠ f.order_id) :
    Attended (x.on_fill f).2 rest := by
  obtain ⟨plan, hplan, hmem, -, heq⟩ := hsound.on_fill hinbox
  have hothers : ∀ (k : OrderId) other, x.plans[k]? = some other → is_terminal other.state = false →
      ∀ g ∈ rest, g.order_id ∈ other.children → other.working_child = some g.order_id :=
    fun k other hother hopen g hg => hattended k other hother hopen g (hinbox ▸ List.mem_cons_of_mem _ hg)
  rw [heq]
  intro k other hother hopen g hg hc
  split at hother <;> obtain ⟨rfl, rfl⟩ | ⟨hne, hother⟩ := Table.getElem?_insert_eq_some.mp hother
  · cases hopen
  · exact hothers k other hother hopen g hg hc
  · have hworking := hattended _ plan hplan hopen f (hinbox ▸ List.mem_cons_self) hmem
    rw [hothers _ plan hplan hopen g hg hc] at hworking
    exact absurd (Option.some.inj hworking) (hlast g hg)
  · exact hothers k other hother hopen g hg hc

theorem Capped.shrink {fs : List Fill} (hcapped : Capped x e) (hshrinks : e.Shrinks e' fs) : Capped x e' := by
  intro k plan hplan
  have hless : plan.committed e' ≤ plan.committed e :=
    List.sum_le_sum fun c _ => hshrinks.committed_le c
  exact hless.trans (hcapped k plan hplan)

/-- An order that enters is committed to no plan whose child it is not. -/
theorem ExecutionPlan.committed_enters {order : Order} (hsound : Sound x e inbox) (henters : e.Enters e' order)
    {k : OrderId} {plan : ExecutionPlan} (hplan : x.plans[k]? = some plan) :
    plan.committed e' = plan.committed e := by
  refine congrArg List.sum (List.map_congr_left fun c hc => ?_)
  rw [henters.committed_eq hsound.agreed, if_neg]
  rintro rfl
  exact henters.new (hsound.child_known hplan hc)

/-- An idle plan's children are filled what its progress says, and that is all
they will be. -/
theorem ExecutionPlan.committed_idle {k : OrderId} {plan : ExecutionPlan} (hwatched : Watched x e)
    (hattended : Attended x inbox) (hbooked : AllBooked x e inbox) (hplan : x.plans[k]? = some plan)
    (hopen : is_terminal plan.state = false) (hidle : plan.working_child = none) :
    plan.committed e = plan.progress.filled := by
  have hdead : ∀ c ∈ plan.children, ¬ e.Live c := by
    intro c hc hlive
    have hworking := hwatched k plan hplan c hc hlive
    rw [hidle] at hworking
    cases hworking
  have hquiet : ∀ c ∈ plan.children, filledBy inbox c = 0 := by
    intro c hc
    refine filledBy_of_forall_ne ?_
    rintro f hf rfl
    have hworking := hattended k plan hplan hopen f hf hc
    rw [hidle] at hworking
    cases hworking
  have huntold : plan.untold inbox = 0 := by
    refine List.sum_eq_zero fun q hq => ?_
    obtain ⟨c, hc, rfl⟩ := List.mem_map.mp hq
    exact hquiet c hc
  calc plan.committed e
      = plan.executed e :=
        congrArg List.sum (List.map_congr_left fun c hc => Engine.committed_of_not_live (hdead c hc))
    _ = plan.progress.filled := by rw [← (hbooked k plan hplan).filled_eq, huntold, add_zero]

theorem Turn.capped (hturn : Turn x e x' e')
    (hbuiltIn : ∀ algorithm, x.algorithm = some algorithm → BuiltIn algorithm) (hsound : Sound x e inbox)
    (hwatched : Watched x e) (hattended : Attended x inbox) (hbooked : AllBooked x e inbox)
    (hcapped : Capped x e) : Capped x' e' := by
  cases hturn with
  | refused rejected hshrinks _ _ => exact hcapped.shrink hshrinks
  | opened schedule arrival_price hset hnew hpositive =>
    intro k other hother
    obtain ⟨rfl, rfl⟩ | ⟨-, hother⟩ := Table.getElem?_insert_eq_some.mp hother
    · exact hpositive.le
    · exact hcapped k other hother
  | completed finished hplan _ _ =>
    intro k other hother
    obtain ⟨rfl, rfl⟩ | ⟨-, hother⟩ := Table.getElem?_insert_eq_some.mp hother
    · have hkept := hcapped _ _ hplan
      exact hkept
    · exact hcapped k other hother
  | @emitted _ key plan algorithm ctx child order _ hplan hopen _ hidle halgorithm hchild hquantity _
      henters _ =>
    intro k other hother
    obtain ⟨rfl, rfl⟩ | ⟨-, hother⟩ := Table.getElem?_insert_eq_some.mp hother
    · have hfilled := committed_idle hwatched hattended hbooked hplan hopen hidle
      have hremaining := (hbooked key plan hplan).remaining_eq
      have hroom : plan.progress.filled ≤ plan.request.parent.quantity := hfilled ▸ hcapped key plan hplan
      have hwithin : child.quantity ≤ plan.progress.remaining := by
        refine ((hbuiltIn algorithm halgorithm).child_within ?_ hchild).quantity_le
        rw [hremaining]
        exact le_max_left _ _
      rw [hremaining, max_eq_right (sub_nonneg.mpr hroom), ← hquantity] at hwithin
      have hentered : e'.committed order.id = order.quantity := by
        rw [henters.committed_eq hsound.agreed, if_pos rfl]
      have hold := committed_enters hsound henters hplan
      calc ((plan.children ++ [order.id]).map e'.committed).sum
          = plan.committed e' + order.quantity := by
            rw [List.map_append, List.sum_append, List.map_singleton, List.sum_singleton, hentered]
            rfl
        _ = plan.progress.filled + order.quantity := by rw [hold, hfilled]
        _ ≤ plan.request.parent.quantity := by linarith
    · rw [committed_enters hsound henters hother]
      exact hcapped k other hother
  | @withdrawn key plan state finished hplan _ _ =>
    have hkept := hcapped.shrink (withdraw_shrinks hsound.agreed plan.working_child)
    have hown := hkept key plan hplan
    intro k other hother
    obtain ⟨rfl, rfl⟩ | ⟨-, hother⟩ := Table.getElem?_insert_eq_some.mp hother
    · exact hown
    · exact hkept k other hother

theorem Capped.on_fill {f : Fill} {rest : List Fill} (hsound : Sound x e inbox) (hcapped : Capped x e)
    (hinbox : inbox = f :: rest) : Capped (x.on_fill f).2 e := by
  obtain ⟨plan, hplan, -, -, heq⟩ := hsound.on_fill hinbox
  have hown := hcapped _ plan hplan
  rw [heq]
  intro k other hother
  split at hother <;> obtain ⟨rfl, rfl⟩ | ⟨-, hother⟩ := Table.getElem?_insert_eq_some.mp hother
  · exact hown
  · exact hcapped k other hother
  · exact hown
  · exact hcapped k other hother

end Cap

/-- Where every fill that is handed over is its order's last, only the working
child's fills wait. -/
theorem deskMachine_attended {G : Desk R Q → DeskMove → Prop} (hlast : ∀ d l, G d l → d.HandsOverLast l)
    {d : Desk R Q} (hreach : (deskMachine R source).Reaches G d) : Attended d.executor d.inbox := by
  refine hreach.invariant (I := fun d => Attended d.executor d.inbox) ?_ ?_
  · intro d hinit k plan hplan
    simp [hinit.plans_empty] at hplan
  · intro d l t hd hattended hguard hstep
    have hsound := deskMachine_sound hd
    have hwatched := deskMachine_watched (fun d l hG => (hlast d l hG).done) hd
    obtain ⟨a, session, rfl, hsession, rfl⟩ | ⟨f, rest, rfl, hinbox, rfl⟩ | ⟨x, e, hturns, rfl⟩ :=
      Desk.step_cases hstep
    · obtain ⟨-, ⟨order, rfl, henters⟩ | ⟨hshrinks, -⟩⟩ := Desk.engine_effect hsound.agreed hsession
      · simpa [Desk.dispatched, Executor.ownFills] using hattended
      · exact hattended.shrink hwatched hshrinks
    · have hfinal := hlast _ _ hguard
      simp only [Desk.HandsOverLast, hinbox, List.head?_cons, Option.mem_some_iff, forall_eq'] at hfinal
      exact hattended.on_fill hsound hinbox hfinal.2
    · exact hturns.invariant (I := fun x _ => Attended x d.inbox)
        (fun x e x' e' hs hturn => hturn.attended hs) hattended

theorem Executor.on_fill_algorithm (x : Executor) (f : Fill) : (x.on_fill f).2.algorithm = x.algorithm := by
  unfold Executor.on_fill
  split
  · rfl
  · split
    · rfl
    · split
      · rfl
      · dsimp only
        split <;> rfl

/-- No move exchanges the algorithm. -/
theorem Desk.step_algorithm {d t : Desk R Q} {l : DeskMove} (hstep : d.step source l = some t) :
    t.executor.algorithm = d.executor.algorithm := by
  obtain ⟨a, session, -, -, rfl⟩ | ⟨f, rest, -, -, rfl⟩ | ⟨x, e, hturns, rfl⟩ := Desk.step_cases hstep
  · rfl
  · exact d.executor.on_fill_algorithm f
  · exact hturns.algorithm_eq

theorem deskMachine_capped {G : Desk R Q → DeskMove → Prop} (hlast : ∀ d l, G d l → d.HandsOverLast l)
    {d : Desk R Q} (hreach : (deskMachine R source).Reaches G d) :
    (∀ algorithm, d.executor.algorithm = some algorithm → BuiltIn algorithm) →
      Capped d.executor d.session.engine := by
  refine hreach.invariant (I := fun d => (∀ algorithm, d.executor.algorithm = some algorithm →
    BuiltIn algorithm) → Capped d.executor d.session.engine) ?_ ?_
  · intro d hinit _ k plan hplan
    simp [hinit.plans_empty] at hplan
  · intro d l t hd ih _ hstep hbuiltIn
    rw [Desk.step_algorithm hstep] at hbuiltIn
    have hcapped := ih hbuiltIn
    have hsound := deskMachine_sound hd
    obtain ⟨a, session, rfl, hsession, rfl⟩ | ⟨f, rest, rfl, hinbox, rfl⟩ | ⟨x, e, hturns, rfl⟩ :=
      Desk.step_cases hstep
    · obtain ⟨-, ⟨order, rfl, henters⟩ | ⟨hshrinks, -⟩⟩ := Desk.engine_effect hsound.agreed hsession
      · intro k plan hplan
        rw [committed_enters hsound henters hplan]
        exact hcapped k plan hplan
      · exact hcapped.shrink hshrinks
    · exact hcapped.on_fill hsound hinbox
    · have hwatched := deskMachine_watched (fun d l hG => (hlast d l hG).done) hd
      refine (hturns.invariant (I := fun x e => x.algorithm = d.executor.algorithm ∧ Sound x e d.inbox ∧
        Watched x e ∧ Attended x d.inbox ∧ AllBooked x e d.inbox ∧ Capped x e) ?_
        ⟨rfl, hsound, hwatched, deskMachine_attended hlast hd, deskMachine_booked hd, hcapped⟩).2.2.2.2.2
      rintro x e x' e' ⟨hsame, hs, hw, ha, hb, hc⟩ hturn
      refine ⟨hturn.algorithm_eq.trans hsame, hturn.sound hs, hturn.watched hs hw, hturn.attended ha,
        hturn.booked hs hb, hturn.capped ?_ hs hw ha hb hc⟩
      rw [hsame]
      exact hbuiltIn

/-- What is filled over all children of a parent is within its quantity, to the
tolerance of a completed execution. -/
def Desk.WithinParents (d : Desk R Q) : Prop :=
  ∀ entry ∈ d.executor.plans.toList,
    entry.2.executed d.session.engine ≤ entry.2.request.parent.quantity + 1e-9

instance (d : Desk R Q) : Decidable d.WithinParents :=
  inferInstanceAs (Decidable (∀ entry ∈ d.executor.plans.toList,
    entry.2.executed d.session.engine ≤ entry.2.request.parent.quantity + 1e-9))

/-- An executor with one of the six algorithms that is told of every child's
last fill only never executes more than a parent asked for. -/
theorem deskMachine_within_parents {d : Desk R Q} {algorithm : IExecutionAlgorithm}
    (hbuiltIn : BuiltIn algorithm) (halgorithm : d.executor.algorithm = some algorithm)
    (hreach : (deskMachine R source).Reaches Desk.HandsOverLast d) : d.WithinParents := by
  have hcapped := deskMachine_capped (fun _ _ hlast => hlast) hreach fun a ha => by
    rw [halgorithm] at ha
    cases ha
    exact hbuiltIn
  have hagreed := (deskMachine_sound hreach).agreed
  rintro ⟨k, plan⟩ hentry
  have hcap := hcapped k plan (Std.TreeMap.mem_toList_iff_getElem?_eq_some.mp hentry)
  have hless : plan.executed d.session.engine ≤ plan.committed d.session.engine :=
    List.sum_le_sum fun c _ => Engine.filledOf_le_committed hagreed c
  dsimp only
  linarith

theorem Desk.exec_algorithm {d t : Desk R Q} {ls : List DeskMove}
    (hexec : (deskMachine R source).exec d ls = some t) : t.executor.algorithm = d.executor.algorithm := by
  induction ls generalizing d with
  | nil =>
    cases hexec
    rfl
  | cons l ls ih =>
    simp only [Machine.exec] at hexec
    split at hexec
    · rename_i u hstep
      exact (ih hexec).trans (Desk.step_algorithm hstep)
    · cases hexec

/-- What is filled over the children of each plan. -/
def Desk.executed (d : Desk R Q) : List Qty :=
  d.executor.plans.toList.map fun entry => entry.2.executed d.session.engine

/-- A child is filled at once, told of, and nothing is sent after it. -/
theorem deskMachine_within_parents_full_fill : ∃ d : Desk Unit ReplaySource,
    d.executed = [10] ∧ d.WithinParents := by
  obtain ⟨d, hexec, hshown⟩ := Option.map_eq_some_iff.mp
    (show ((deskMachine Unit replay).exec (flatDesk [barOf 1 1000, barOf 2000000 1000])
      (sendFirstChild ++ fillOnce ++ [.on_market 0 (openMarket 2000000)])).map Desk.executed = some [10] by
        decide +kernel)
  have hreach := (flatDesk_reached (G := Desk.HandsOverLast) _ _ _).exec (by decide +kernel) hexec
  exact ⟨d, hshown, deskMachine_within_parents .immediate (Desk.exec_algorithm hexec) hreach⟩

/-- A child of ten shares is filled five and released, the next one is sent for
the five that are left, and the event after fills the rest of both. -/
theorem deskMachine_exceeds_parent : ∃ d : Desk Unit ReplaySource,
    (deskMachine Unit replay).Reachable d ∧ d.executor.algorithm = some ImmediateAlgorithm ∧
      ¬ d.WithinParents := by
  obtain ⟨d, hexec, hshown⟩ := Option.map_eq_some_iff.mp
    (show ((deskMachine Unit replay).exec (flatDesk [barOf 1 1000, barOf 2000000 100, barOf 6000000 1000])
      (sendFirstChild ++ fillOnce ++ [.on_market 0 (openMarket 2000000), .engine .settle, .engine .arrive])).map
        (fun d => decide d.WithinParents) = some false by decide +kernel)
  refine ⟨d, ?_, Desk.exec_algorithm hexec, by simpa using hshown⟩
  exact (flatDesk_reached _ _ _).exec (Machine.along_of_forall (fun _ _ => trivial) _ _) hexec

end ptl.algo
