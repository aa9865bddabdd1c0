import TradingLab.Algo.Allotment

/-! Executions that are over: their state, their place in the counters, and
what of them rests. -/

open ptl.oms ptl.market ptl.engine ptl.execution

namespace ptl.algo

variable {R Q : Type} {source : IMarketDataSource Q}

/-- How many plans are open. -/
def Executor.openCount (x : Executor) : Int :=
  Table.sum (fun _ plan => if is_terminal plan.state then 0 else 1) x.plans

theorem Executor.active_length (x : Executor) : (x.active.length : Int) = x.openCount := by
  unfold Executor.active Executor.openCount Table.sum
  rw [List.length_map]
  induction x.plans.toList with
  | nil => rfl
  | cons entry entries ih =>
    rw [List.map_cons, List.sum_cons, ← ih]
    cases hopen : is_terminal entry.2.state with
    | true =>
      rw [List.filter_cons_of_neg (by simp [hopen])]
      simp only [hopen, if_true, zero_add]
    | false =>
      rw [List.filter_cons_of_pos (by simp [hopen]), List.length_cons]
      simp only [hopen, Bool.false_eq_true, if_false]
      push_cast
      ring

/-- Every execution that was started is open or was counted out once. -/
def Executor.Counts (x : Executor) : Prop :=
  (x.stats.executions_started : Int) = x.openCount + x.stats.executions_completed +
    x.stats.executions_cancelled + x.stats.executions_expired

/-- A plan that is over has no working child. -/
def Idle (x : Executor) : Prop :=
  ∀ (k : OrderId) plan, x.plans[k]? = some plan → is_terminal plan.state = true → plan.working_child = none

/-- A plan that is open though its parent is done has sent nothing. -/
def Prompt (x : Executor) : Prop :=
  ∀ (k : OrderId) plan, x.plans[k]? = some plan → is_terminal plan.state = false →
    plan.progress.complete plan.request.parent.quantity = true → plan.children = []

/-- A plan that is over stays as it is. -/
def Absorbs (x x' : Executor) : Prop :=
  ∀ (k : OrderId) plan, x.plans[k]? = some plan → is_terminal plan.state = true →
    ∃ plan', x'.plans[k]? = some plan' ∧ plan'.state = plan.state

section Turns

variable {x x' : Executor} {e e' : Engine R} {inbox : List Fill}

theorem Absorbs.refl (x : Executor) : Absorbs x x := fun _ plan hplan _ => ⟨plan, hplan, rfl⟩

theorem Absorbs.trans {y : Executor} (hfirst : Absorbs x y) (hsecond : Absorbs y x') : Absorbs x x' := by
  intro k plan hplan hdone
  obtain ⟨between, hbetween, hsame⟩ := hfirst k plan hplan hdone
  obtain ⟨last, hlast, hlast_same⟩ := hsecond k between hbetween (hsame ▸ hdone)
  exact ⟨last, hlast, hlast_same.trans hsame⟩

/-- Writing a plan that was open, or was not there, changes none that is
over. -/
theorem Absorbs.of_insert {key : OrderId} {written : ExecutionPlan}
    (hopen : ∀ plan, x.plans[key]? = some plan → is_terminal plan.state = false)
    (hplans : x'.plans = x.plans.insert key written) : Absorbs x x' := by
  intro k plan hplan hdone
  have hne : key ≠ k := by
    rintro rfl
    rw [hopen plan hplan] at hdone
    cases hdone
  exact ⟨plan, by rw [hplans, Table.getElem?_insert_of_ne _ _ hne, hplan], rfl⟩

theorem Turn.absorbs (hturn : Turn x e x' e') : Absorbs x x' := by
  cases hturn with
  | refused rejected _ _ _ => exact .refl x
  | opened schedule arrival_price _ hnew _ =>
    refine .of_insert (fun plan hplan => ?_) rfl
    rw [hnew] at hplan
    cases hplan
  | completed finished hplan hopen _ =>
    refine .of_insert (fun other hother => ?_) rfl
    rw [hplan] at hother
    cases hother
    exact hopen
  | emitted _ hplan hopen _ _ _ _ _ _ _ _ =>
    refine .of_insert (fun other hother => ?_) rfl
    rw [hplan] at hother
    cases hother
    exact hopen
  | withdrawn finished hplan hopen _ =>
    refine .of_insert (fun other hother => ?_) rfl
    rw [hplan] at hother
    cases hother
    exact hopen

theorem Turns.absorbs (hturns : Turns x e x' e') : Absorbs x x' :=
  hturns.invariant (I := fun y _ => Absorbs x y) (fun _ _ _ _ hbefore hturn => hbefore.trans hturn.absorbs)
    (.refl x)

/-- Rewriting a plan moves the number of open plans by its own two states. -/
theorem Executor.openCount_rewrite {key : OrderId} {plan : ExecutionPlan} (plan' : ExecutionPlan)
    (stats : ExecutionStatistics) (routes : Std.TreeMap OrderId OrderId)
    (hplan : x.plans[key]? = some plan) :
    Executor.openCount { x with
      plans := x.plans.insert key plan', child_to_parent := routes, stats } =
      x.openCount - (if is_terminal plan.state then 0 else 1) + if is_terminal plan'.state then 0 else 1 :=
  Table.sum_insert_existing _ plan' hplan

theorem Turn.counts (hturn : Turn x e x' e') (hcounts : x.Counts) : x'.Counts := by
  cases hturn with
  | refused rejected _ _ _ => exact hcounts
  | @opened request parent_id schedule arrival_price hset hnew _ =>
    have hone : Executor.openCount { x with
        plans := x.plans.insert parent_id (.new request parent_id schedule arrival_price)
        stats := { x.stats with executions_started := x.stats.executions_started + 1 } } =
        x.openCount + 1 := Table.sum_insert_new _ _ hnew
    unfold Executor.Counts at hcounts ⊢
    rw [hone]
    push_cast
    omega
  | @completed key plan finished hplan hopen _ =>
    have hone := Executor.openCount_rewrite { plan with state := .Completed, finished }
      { x.stats with executions_completed := x.stats.executions_completed + 1 } x.child_to_parent hplan
    rw [hopen] at hone
    unfold Executor.Counts at hcounts ⊢
    unfold Executor.completed
    rw [hone]
    simp only [is_terminal]
    push_cast
    simp
    omega
  | @emitted _ key plan algorithm ctx child order emitted hplan hopen _ _ _ _ _ _ _ _ =>
    have hone := Executor.openCount_rewrite { plan.emitted order.id with state := .Working }
      { x.stats with child_orders_emitted := emitted } (x.child_to_parent.insert order.id plan.parent_id) hplan
    rw [hopen] at hone
    unfold Executor.Counts at hcounts ⊢
    rw [hone]
    simp [is_terminal]
    omega
  | @withdrawn key plan state finished hplan hopen hstate =>
    have hone := Executor.openCount_rewrite { plan with working_child := none, state, finished }
      (x.stats.withdrew state) x.child_to_parent hplan
    rw [hopen] at hone
    unfold Executor.Counts at hcounts ⊢
    rw [hone]
    rcases hstate with rfl | rfl
    · simp [is_terminal, ExecutionStatistics.withdrew]
      omega
    · simp [is_terminal, ExecutionStatistics.withdrew]
      omega

theorem Turn.idle (hturn : Turn x e x' e') (hsound : Sound x e inbox) (hprompt : Prompt x) (hidle : Idle x) :
    Idle x' := by
  cases hturn with
  | refused rejected _ _ _ => exact hidle
  | opened schedule arrival_price _ hnew _ =>
    intro k other hother hdone
    obtain ⟨rfl, rfl⟩ | ⟨-, hother⟩ := Table.getElem?_insert_eq_some.mp hother
    · rfl
    · exact hidle k other hother hdone
  | @completed key plan finished hplan hopen hcomplete =>
    intro k other hother hdone
    obtain ⟨rfl, rfl⟩ | ⟨-, hother⟩ := Table.getElem?_insert_eq_some.mp hother
    · -- Done before it was looked at, it has sent nothing that could work.
      have hnothing := hprompt key plan hplan hopen hcomplete
      cases hworking : plan.working_child with
      | none => rfl
      | some c =>
        have hchild := hsound.own key plan c hplan hworking
        rw [hnothing] at hchild
        cases hchild
    · exact hidle k other hother hdone
  | emitted _ hplan _ _ _ _ _ _ _ _ _ =>
    intro k other hother hdone
    obtain ⟨rfl, rfl⟩ | ⟨-, hother⟩ := Table.getElem?_insert_eq_some.mp hother
    · cases hdone
    · exact hidle k other hother hdone
  | withdrawn finished hplan _ _ =>
    intro k other hother hdone
    obtain ⟨rfl, rfl⟩ | ⟨-, hother⟩ := Table.getElem?_insert_eq_some.mp hother
    · rfl
    · exact hidle k other hother hdone

theorem Turn.prompt (hturn : Turn x e x' e') (hprompt : Prompt x) : Prompt x' := by
  cases hturn with
  | refused rejected _ _ _ => exact hprompt
  | opened schedule arrival_price _ hnew _ =>
    intro k other hother hopen hcomplete
    obtain ⟨rfl, rfl⟩ | ⟨-, hother⟩ := Table.getElem?_insert_eq_some.mp hother
    · rfl
    · exact hprompt k other hother hopen hcomplete
  | completed finished hplan _ _ =>
    intro k other hother hopen hcomplete
    obtain ⟨rfl, rfl⟩ | ⟨-, hother⟩ := Table.getElem?_insert_eq_some.mp hother
    · cases hopen
    · exact hprompt k other hother hopen hcomplete
  | @emitted _ key plan algorithm ctx child order _ hplan _ hincomplete _ _ _ _ _ _ _ =>
    intro k other hother hopen hcomplete
    obtain ⟨rfl, rfl⟩ | ⟨-, hother⟩ := Table.getElem?_insert_eq_some.mp hother
    · have hbefore : plan.progress.complete plan.request.parent.quantity = true := hcomplete
      rw [hincomplete] at hbefore
      cases hbefore
    · exact hprompt k other hother hopen hcomplete
  | withdrawn finished hplan _ hstate =>
    intro k other hother hopen hcomplete
    obtain ⟨rfl, rfl⟩ | ⟨-, hother⟩ := Table.getElem?_insert_eq_some.mp hother
    · rcases hstate with rfl | rfl <;> cases hopen
    · exact hprompt k other hother hopen hcomplete

/-- A fill that completes a plan is counted, and so is one that does not. -/
theorem Prompt.on_fill {f : Fill} {rest : List Fill} (hsound : Sound x e inbox) (hprompt : Prompt x)
    (hinbox : inbox = f :: rest) : Prompt (x.on_fill f).2 := by
  obtain ⟨plan, hplan, -, -, heq⟩ := hsound.on_fill hinbox
  rw [heq]
  intro k other hother hopen hcomplete
  split at hother
  · obtain ⟨rfl, rfl⟩ | ⟨-, hother⟩ := Table.getElem?_insert_eq_some.mp hother
    · cases hopen
    · exact hprompt k other hother hopen hcomplete
  · rename_i hincomplete
    obtain ⟨rfl, rfl⟩ | ⟨-, hother⟩ := Table.getElem?_insert_eq_some.mp hother
    · exact absurd hcomplete hincomplete
    · exact hprompt k other hother hopen hcomplete

/-- The last fill of a plan's working child leaves the plan none. -/
theorem Idle.on_fill {f : Fill} {rest : List Fill} (hsound : Sound x e inbox) (hattended : Attended x inbox)
    (hidle : Idle x) (hinbox : inbox = f :: rest) : Idle (x.on_fill f).2 := by
  obtain ⟨plan, hplan, hmem, -, heq⟩ := hsound.on_fill hinbox
  have hreleased : (plan.filled_by f).working_child = none := by
    rw [ExecutionPlan.filled_by]
    dsimp only
    cases hopen : is_terminal plan.state with
    | true =>
      rw [hidle _ plan hplan hopen]
      split <;> rfl
    | false => rw [if_pos (hattended _ plan hplan hopen f (hinbox ▸ List.mem_cons_self) hmem)]
  rw [heq]
  intro k other hother hdone
  split at hother <;> obtain ⟨rfl, rfl⟩ | ⟨-, hother⟩ := Table.getElem?_insert_eq_some.mp hother
  · exact hreleased
  · exact hidle k other hother hdone
  · exact hreleased
  · exact hidle k other hother hdone

/-- The fill does not complete a plan that is over. -/
def Executor.LeavesOver (x : Executor) (f : Fill) : Prop :=
  ∀ plan ∈ x.plans[f.parent_id]?, is_terminal plan.state = true →
    plan.progress.filled + f.quantity + 1e-9 < plan.request.parent.quantity

instance (x : Executor) (f : Fill) : Decidable (x.LeavesOver f) :=
  inferInstanceAs (Decidable (∀ plan ∈ x.plans[f.parent_id]?, is_terminal plan.state = true →
    plan.progress.filled + f.quantity + 1e-9 < plan.request.parent.quantity))

theorem Executor.LeavesOver.incomplete {f : Fill} {plan : ExecutionPlan} (hleaves : x.LeavesOver f)
    (hplan : x.plans[f.parent_id]? = some plan) (hdone : is_terminal plan.state = true) :
    (plan.filled_by f).progress.complete plan.request.parent.quantity = false := by
  have hshort := hleaves plan hplan hdone
  rw [ExecutionProgress.complete]
  exact decide_eq_false (not_le.mpr hshort)

theorem Executor.Counts.on_fill {f : Fill} {rest : List Fill} (hsound : Sound x e inbox)
    (hcounts : x.Counts) (hinbox : inbox = f :: rest) (hleaves : x.LeavesOver f) :
    (x.on_fill f).2.Counts := by
  obtain ⟨plan, hplan, -, -, heq⟩ := hsound.on_fill hinbox
  rw [heq]
  unfold Executor.Counts at hcounts ⊢
  split
  · rename_i hcomplete
    have hopen : is_terminal plan.state = false := by
      cases hstate : is_terminal plan.state with
      | false => rfl
      | true =>
        rw [hleaves.incomplete hplan hstate] at hcomplete
        cases hcomplete
    have hone := Executor.openCount_rewrite { plan.filled_by f with state := .Completed, finished := f.fill_time }
      { x.stats with executions_completed := x.stats.executions_completed + 1 } x.child_to_parent hplan
    rw [hopen] at hone
    unfold Executor.completed
    rw [hone]
    simp [is_terminal]
    omega
  · have hone := Executor.openCount_rewrite (plan.filled_by f) x.stats x.child_to_parent hplan
    have hsame : (plan.filled_by f).state = plan.state := rfl
    rw [hsame] at hone
    rw [hone]
    dsimp only
    omega

theorem Absorbs.on_fill {f : Fill} {rest : List Fill} (hsound : Sound x e inbox) (hinbox : inbox = f :: rest)
    (hleaves : x.LeavesOver f) : Absorbs x (x.on_fill f).2 := by
  obtain ⟨plan, hplan, -, -, heq⟩ := hsound.on_fill hinbox
  rw [heq]
  intro k other hother hdone
  by_cases hsame : f.parent_id = k
  · subst hsame
    rw [hplan] at hother
    cases hother
    rw [if_neg (by rw [hleaves.incomplete hplan hdone]; exact Bool.false_ne_true)]
    exact ⟨_, Table.getElem?_insert_self _ _ _, rfl⟩
  · refine ⟨other, ?_, rfl⟩
    split
    · exact (Table.getElem?_insert_of_ne _ _ hsame).trans hother
    · exact (Table.getElem?_insert_of_ne _ _ hsame).trans hother

end Turns

/-! ### Runs -/

/-- A fill is handed over only when it is the last its order will ever have,
and does not complete an execution that is over. -/
def Desk.HandsOverLate (d : Desk R Q) : DeskMove → Prop
  | .on_fill => d.HandsOverLast .on_fill ∧ ∀ f ∈ d.inbox.head?, d.executor.LeavesOver f
  | _ => True

instance (d : Desk R Q) : (l : DeskMove) → Decidable (d.HandsOverLate l)
  | .on_fill =>
    inferInstanceAs (Decidable (d.HandsOverLast .on_fill ∧ ∀ f ∈ d.inbox.head?, d.executor.LeavesOver f))
  | .engine _ | .submit _ _ _ | .on_market _ _ | .cancel _ | .expire_stale _ => isTrue trivial

theorem Desk.HandsOverLate.last {d : Desk R Q} {l : DeskMove} (hlate : d.HandsOverLate l) :
    d.HandsOverLast l := by
  cases l with
  | on_fill => exact hlate.1
  | engine _ => trivial
  | submit _ _ _ => trivial
  | on_market _ _ => trivial
  | cancel _ => trivial
  | expire_stale _ => trivial

theorem deskMachine_prompt {G : Desk R Q → DeskMove → Prop} {d : Desk R Q}
    (hreach : (deskMachine R source).Reaches G d) : Prompt d.executor := by
  refine hreach.invariant (I := fun d => Prompt d.executor) ?_ ?_
  · intro d hinit k plan hplan
    simp [hinit.plans_empty] at hplan
  · intro d l t hd hprompt _ hstep
    obtain ⟨a, session, rfl, -, rfl⟩ | ⟨f, rest, rfl, hinbox, rfl⟩ | ⟨x, e, hturns, rfl⟩ :=
      Desk.step_cases hstep
    · exact hprompt
    · exact hprompt.on_fill (deskMachine_sound hd) hinbox
    · exact hturns.invariant (I := fun x _ => Prompt x) (fun x e x' e' hs hturn => hturn.prompt hs) hprompt

theorem deskMachine_idle {G : Desk R Q → DeskMove → Prop} (hlast : ∀ d l, G d l → d.HandsOverLast l)
    {d : Desk R Q} (hreach : (deskMachine R source).Reaches G d) : Idle d.executor := by
  refine hreach.invariant (I := fun d => Idle d.executor) ?_ ?_
  · intro d hinit k plan hplan
    simp [hinit.plans_empty] at hplan
  · intro d l t hd hidle _ hstep
    have hsound := deskMachine_sound hd
    obtain ⟨a, session, rfl, -, rfl⟩ | ⟨f, rest, rfl, hinbox, rfl⟩ | ⟨x, e, hturns, rfl⟩ :=
      Desk.step_cases hstep
    · exact hidle
    · exact hidle.on_fill hsound (deskMachine_attended hlast hd) hinbox
    · exact (hturns.invariant (I := fun x e => Sound x e d.inbox ∧ Prompt x ∧ Idle x)
        (fun x e x' e' hs hturn =>
          ⟨hturn.sound hs.1, hturn.prompt hs.2.1, hturn.idle hs.1 hs.2.1 hs.2.2⟩)
        ⟨hsound, deskMachine_prompt hd, hidle⟩).2.2

theorem Desk.HandsOverLate.leaves {d : Desk R Q} {f : Fill} {rest : List Fill}
    (hlate : d.HandsOverLate .on_fill) (hinbox : d.inbox = f :: rest) : d.executor.LeavesOver f := by
  refine hlate.2 f ?_
  rw [hinbox]
  rfl

theorem deskMachine_counts {d : Desk R Q}
    (hreach : (deskMachine R source).Reaches Desk.HandsOverLate d) : d.executor.Counts := by
  refine hreach.invariant (I := fun d => d.executor.Counts) ?_ ?_
  · intro d hinit
    rw [Executor.Counts, Executor.openCount, hinit.plans_empty, hinit.stats_empty]
    rfl
  · intro d l t hd hcounts hguard hstep
    obtain ⟨a, session, rfl, -, rfl⟩ | ⟨f, rest, rfl, hinbox, rfl⟩ | ⟨x, e, hturns, rfl⟩ :=
      Desk.step_cases hstep
    · exact hcounts
    · exact hcounts.on_fill (deskMachine_sound hd) hinbox (Desk.HandsOverLate.leaves hguard hinbox)
    · exact hturns.invariant (I := fun x _ => x.Counts) (fun x e x' e' hs hturn => hturn.counts hs) hcounts

/-- No move changes the state of an execution that is over. -/
def Desk.Absorbs (source : IMarketDataSource Q) (d : Desk R Q) : Prop :=
  ∀ l t, d.HandsOverLate l → d.step source l = some t → algo.Absorbs d.executor t.executor

/-- Every execution that was started is active or was counted once as over. -/
def Desk.CountsOnce (d : Desk R Q) : Prop :=
  d.executor.stats.executions_started = d.executor.active.length + d.executor.stats.executions_completed +
    d.executor.stats.executions_cancelled + d.executor.stats.executions_expired

/-- No child of an execution that is over rests. -/
def Desk.LeavesNothing (d : Desk R Q) : Prop :=
  ∀ entry ∈ d.executor.plans.toList, is_terminal entry.2.state = true →
    ∀ c ∈ entry.2.children, ¬ d.session.engine.Live c

instance (d : Desk R Q) : Decidable d.CountsOnce :=
  inferInstanceAs (Decidable (d.executor.stats.executions_started = d.executor.active.length +
    d.executor.stats.executions_completed + d.executor.stats.executions_cancelled +
      d.executor.stats.executions_expired))

instance (d : Desk R Q) : Decidable d.LeavesNothing :=
  have (entry : OrderId × ExecutionPlan) : Decidable (∀ c ∈ entry.2.children, ¬ d.session.engine.Live c) :=
    List.decidableBAll _ _
  inferInstanceAs (Decidable (∀ entry ∈ d.executor.plans.toList, is_terminal entry.2.state = true →
    ∀ c ∈ entry.2.children, ¬ d.session.engine.Live c))

/-- An executor that is told of every child's last fill only, and of none that
completes what is already over, keeps its finished executions finished, counts
each once and leaves nothing of them at the venue. -/
theorem deskMachine_finishes {d : Desk R Q}
    (hreach : (deskMachine R source).Reaches Desk.HandsOverLate d) :
    d.Absorbs source ∧ d.CountsOnce ∧ d.LeavesNothing := by
  have hsound := deskMachine_sound hreach
  refine ⟨fun l t hguard hstep => ?_, ?_, ?_⟩
  · obtain ⟨a, session, rfl, -, rfl⟩ | ⟨f, rest, rfl, hinbox, rfl⟩ | ⟨x, e, hturns, rfl⟩ :=
      Desk.step_cases hstep
    · exact .refl _
    · exact .on_fill hsound hinbox (Desk.HandsOverLate.leaves hguard hinbox)
    · exact hturns.absorbs
  · have hcounts := deskMachine_counts hreach
    have hactive := d.executor.active_length
    unfold Executor.Counts at hcounts
    unfold Desk.CountsOnce
    omega
  · rintro ⟨k, plan⟩ hentry hdone c hc hlive
    have hplan := Std.TreeMap.mem_toList_iff_getElem?_eq_some.mp hentry
    have hworking := deskMachine_watched (fun _ _ hlate => hlate.last.done) hreach k plan hplan c hc hlive
    rw [deskMachine_idle (fun _ _ => Desk.HandsOverLate.last) hreach k plan hplan hdone] at hworking
    cases hworking

/-- A parent is cancelled while its child rests, and so is the child. -/
theorem deskMachine_finishes_cancel : ∃ d : Desk Unit ReplaySource,
    d.executor.stats.executions_cancelled = 1 ∧ d.Absorbs replay ∧ d.CountsOnce ∧ d.LeavesNothing := by
  obtain ⟨d, hd, hshown⟩ := (flatDesk_reached (G := Desk.HandsOverLate) [barOf 1 1000] ImmediateAlgorithm
    (by decide +kernel)).exec_map (sendFirstChild ++ [.cancel 1])
    (fun d => d.executor.stats.executions_cancelled) (b := 1) (by decide +kernel) (by decide +kernel)
  exact ⟨d, hshown, deskMachine_finishes hd⟩

/-- The state of the execution of order 1. -/
def Desk.stateOfFirst (d : Desk R Q) : Option ExecutionState :=
  (d.executor.plans[(1 : OrderId)]?).map ExecutionPlan.state

/-- A parent is cancelled after its child was filled in part. The rest of the
child stays at the venue, and the fill of it completes what was cancelled. -/
theorem deskMachine_outlives_cancel :
    (∃ d : Desk Unit ReplaySource, (deskMachine Unit replay).Reachable d ∧ ¬ d.LeavesNothing) ∧
    (∃ d : Desk Unit ReplaySource, (deskMachine Unit replay).Reachable d ∧ ¬ d.CountsOnce) ∧
    ∃ d t : Desk Unit ReplaySource, (deskMachine Unit replay).Reachable d ∧
      d.step replay .on_fill = some t ∧ d.stateOfFirst = some .Cancelled ∧ t.stateOfFirst = some .Completed := by
  have hstart := flatDesk_reached (G := fun _ _ => True)
    [barOf 1 1000, barOf 2000000 100, barOf 6000000 1000] ImmediateAlgorithm (by decide +kernel)
  have hfree : ∀ d ls, (deskMachine Unit replay).Along (fun _ _ => True) d ls :=
    fun d ls => Machine.along_of_forall (fun _ _ => trivial) d ls
  refine ⟨?_, ?_, ?_⟩
  · obtain ⟨d, hd, hshown⟩ := hstart.exec_map (sendFirstChild ++ fillOnce ++ [.cancel 1])
      (fun d => decide d.LeavesNothing) (b := false) (hfree _ _) (by decide +kernel)
    exact ⟨d, hd, by simpa using hshown⟩
  · obtain ⟨d, hd, hshown⟩ := hstart.exec_map (sendFirstChild ++ fillOnce ++ [.cancel 1] ++ fillOnce)
      (fun d => decide d.CountsOnce) (b := false) (hfree _ _) (by decide +kernel)
    exact ⟨d, hd, by simpa using hshown⟩
  · obtain ⟨d, hd, hshown⟩ := hstart.exec_map
      (sendFirstChild ++ fillOnce ++ [.cancel 1, .engine .settle, .engine .arrive])
      (fun d => (d.stateOfFirst, (d.step replay .on_fill).map Desk.stateOfFirst))
      (b := (some .Cancelled, some (some .Completed))) (hfree _ _) (by decide +kernel)
    obtain ⟨hbefore, hafter⟩ := Prod.mk.inj hshown
    obtain ⟨t, hstep, ht⟩ := Option.map_eq_some_iff.mp hafter
    exact ⟨d, t, hd, hstep, hbefore, ht⟩

end ptl.algo
