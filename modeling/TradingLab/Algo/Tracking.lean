import TradingLab.Algo.Children

/-! Whether an executor knows which of its children rest: the working child of
a plan against the orders at the venue. -/

open ptl.oms ptl.market ptl.engine ptl.execution

namespace ptl.algo

variable {R Q : Type} {source : IMarketDataSource Q}

/-- A child that rests is its plan's working child. -/
def Watched (x : Executor) (e : Engine R) : Prop :=
  ∀ (k : OrderId) plan, x.plans[k]? = some plan → ∀ c ∈ plan.children, e.Live c → plan.working_child = some c

/-- A working child rests, or a fill of it waits. -/
def Followed (x : Executor) (e : Engine R) (inbox : List Fill) : Prop :=
  ∀ (k : OrderId) plan, x.plans[k]? = some plan → ∀ c, plan.working_child = some c →
    e.Live c ∨ ∃ f ∈ inbox, f.order_id = c

section Steps

variable {x x' : Executor} {e e' : Engine R} {inbox : List Fill}

theorem Watched.shrink {fs : List Fill} (hwatched : Watched x e) (hshrinks : e.Shrinks e' fs) :
    Watched x e' :=
  fun k plan hplan c hc hlive => hwatched k plan hplan c hc (hshrinks.live hlive)

/-- An order of somebody else's is no child. -/
theorem Watched.enter {order : Order} (hsound : Sound x e inbox) (hwatched : Watched x e)
    (henters : e.Enters e' order) : Watched x e' := by
  intro k plan hplan c hc hlive
  rcases henters.live_iff.mp hlive with hold | rfl
  · exact hwatched k plan hplan c hc hold
  · exact absurd (hsound.child_known hplan hc) henters.new

/-- After a plan's working child is withdrawn none of its children rests. -/
theorem Watched.withdraw_dead {key : OrderId} {plan : ExecutionPlan} (hsound : Sound x e inbox)
    (hwatched : Watched x e) (hplan : x.plans[key]? = some plan) {c : OrderId} (hc : c ∈ plan.children) :
    ¬ (withdraw engineSink e plan.working_child).Live c := by
  intro hlive
  cases hworking : plan.working_child with
  | none =>
    rw [hworking] at hlive
    have hbefore := hwatched key plan hplan c hc hlive
    rw [hworking] at hbefore
    cases hbefore
  | some w =>
    rw [hworking] at hlive
    obtain ⟨hshrinks, hdead, -⟩ := Engine.cancel_shrinks hsound.agreed w
    have hbefore := hwatched key plan hplan c hc (hshrinks.live hlive)
    rw [hworking] at hbefore
    cases hbefore
    exact hdead hlive

/-- Withdrawing a plan's working child leaves the orders of other plans. -/
theorem withdraw_live {key other : OrderId} {plan plan' : ExecutionPlan} (hsound : Sound x e inbox)
    (hplan : x.plans[key]? = some plan) (hplan' : x.plans[other]? = some plan') (hne : key ≠ other)
    {c : OrderId} (hc : c ∈ plan'.children) :
    (withdraw engineSink e plan.working_child).Live c ↔ e.Live c := by
  cases hworking : plan.working_child with
  | none => rfl
  | some w =>
    refine (Engine.cancel_shrinks hsound.agreed w).2.2 c ?_
    rintro rfl
    exact hne (hsound.unique hplan hplan' (hsound.own key plan c hplan hworking) hc)

theorem withdraw_shrinks (hagreed : e.Agreed) (working : Option OrderId) :
    e.Shrinks (withdraw engineSink e working) [] := by
  cases working with
  | none => exact .of_same rfl fun _ => rfl
  | some c => exact (Engine.cancel_shrinks hagreed c).1

theorem Turn.watched (hturn : Turn x e x' e') (hsound : Sound x e inbox) (hwatched : Watched x e) :
    Watched x' e' := by
  cases hturn with
  | refused rejected hshrinks _ _ => exact hwatched.shrink hshrinks
  | opened schedule arrival_price hset hnew _ =>
    intro k plan hplan c hc hlive
    obtain ⟨rfl, rfl⟩ | ⟨-, hplan⟩ := Table.getElem?_insert_eq_some.mp hplan
    · cases hc
    · exact hwatched k plan hplan c hc hlive
  | completed finished hplan _ _ =>
    intro k other hother c hc hlive
    obtain ⟨rfl, rfl⟩ | ⟨-, hother⟩ := Table.getElem?_insert_eq_some.mp hother
    · exact hwatched _ _ hplan c hc hlive
    · exact hwatched k other hother c hc hlive
  | @emitted _ key plan algorithm ctx child order _ hplan _ _ hidle _ _ _ _ henters _ =>
    intro k other hother c hc hlive
    have hbefore := henters.live_iff.mp hlive
    obtain ⟨rfl, rfl⟩ | ⟨-, hother⟩ := Table.getElem?_insert_eq_some.mp hother
    · -- An idle plan has no child that rests, so the one that does is the new one.
      rcases List.mem_append.mp hc with hc | hc
      · rcases hbefore with hold | rfl
        · have hworking := hwatched key plan hplan c hc hold
          rw [hidle] at hworking
          cases hworking
        · rfl
      · rw [List.mem_singleton.mp hc]
        rfl
    · rcases hbefore with hold | rfl
      · exact hwatched k other hother c hc hold
      · exact absurd (hsound.child_known hother hc) henters.new
  | withdrawn finished hplan _ _ =>
    intro k other hother c hc hlive
    obtain ⟨rfl, rfl⟩ | ⟨-, hother⟩ := Table.getElem?_insert_eq_some.mp hother
    · exact absurd hlive (hwatched.withdraw_dead hsound hplan hc)
    · exact hwatched k other hother c hc ((withdraw_shrinks hsound.agreed _).live hlive)

/-- A fill of an order that no longer rests releases no child that does. -/
theorem Watched.on_fill {f : Fill} {rest : List Fill} (hsound : Sound x e inbox) (hwatched : Watched x e)
    (hinbox : inbox = f :: rest) (hdone : ¬ e.Live f.order_id) : Watched (x.on_fill f).2 e := by
  obtain ⟨plan, hplan, -, -, heq⟩ := hsound.on_fill hinbox
  have hkept : ∀ c ∈ plan.children, e.Live c → (plan.filled_by f).working_child = some c := by
    intro c hc hlive
    have hworking := hwatched _ plan hplan c hc hlive
    have hother : ¬ plan.working_child = some f.order_id := by
      rw [hworking]
      rintro ⟨⟩
      exact hdone hlive
    rw [ExecutionPlan.filled_by]
    dsimp only
    rw [if_neg hother, hworking]
  rw [heq]
  intro k other hother c hc hlive
  split at hother <;> obtain ⟨rfl, rfl⟩ | ⟨-, hother⟩ := Table.getElem?_insert_eq_some.mp hother
  · exact hkept c hc hlive
  · exact hwatched k other hother c hc hlive
  · exact hkept c hc hlive
  · exact hwatched k other hother c hc hlive

theorem Turn.followed (hturn : Turn x e x' e') (hsound : Sound x e inbox) (hfollowed : Followed x e inbox) :
    Followed x' e' inbox := by
  cases hturn with
  | refused rejected _ _ hlive =>
    intro k plan hplan c hc
    exact (hfollowed k plan hplan c hc).imp_left (hlive c)
  | opened schedule arrival_price hset hnew _ =>
    intro k plan hplan c hc
    obtain ⟨rfl, rfl⟩ | ⟨-, hplan⟩ := Table.getElem?_insert_eq_some.mp hplan
    · cases hc
    · exact hfollowed k plan hplan c hc
  | completed finished hplan _ _ =>
    intro k other hother c hc
    obtain ⟨rfl, rfl⟩ | ⟨-, hother⟩ := Table.getElem?_insert_eq_some.mp hother
    · exact hfollowed _ _ hplan c hc
    · exact hfollowed k other hother c hc
  | @emitted _ key plan algorithm ctx child order _ hplan _ _ hidle _ _ _ _ henters _ =>
    intro k other hother c hc
    obtain ⟨rfl, rfl⟩ | ⟨-, hother⟩ := Table.getElem?_insert_eq_some.mp hother
    · cases hc
      exact .inl (henters.live_iff.mpr (.inr rfl))
    · exact (hfollowed k other hother c hc).imp_left fun hlive => henters.live_iff.mpr (.inl hlive)
  | withdrawn finished hplan _ _ =>
    intro k other hother c hc
    obtain ⟨rfl, rfl⟩ | ⟨hne, hother⟩ := Table.getElem?_insert_eq_some.mp hother
    · cases hc
    · have hown := hsound.own k other c hother hc
      exact (hfollowed k other hother c hc).imp_left (withdraw_live hsound hplan hother hne hown).mpr

/-- A move of the engine that removes no working child loses none. -/
theorem Followed.shrink {fs : List Fill} {removed : List OrderId} (hsound : Sound x e inbox)
    (hfollowed : Followed x e inbox)
    (hfate : ∀ id, e.Live id → e'.Live id ∨ (∃ f ∈ fs, f.order_id = id) ∨ id ∈ removed)
    (hkept : ∀ (k : OrderId) plan c, x.plans[k]? = some plan → plan.working_child = some c → e.Live c →
      c ∉ removed) :
    Followed x e' (inbox ++ x.ownFills fs) := by
  intro k plan hplan c hc
  rcases hfollowed k plan hplan c hc with hlive | ⟨f, hf, hid⟩
  · rcases hfate c hlive with hrests | ⟨f, hf, hid⟩ | hremoved
    · exact .inl hrests
    · have hchild := (hsound.routed c k).mpr ⟨plan, hplan, hsound.own k plan c hplan hc⟩
      refine .inr ⟨f, List.mem_append_right _ (List.mem_filter.mpr ⟨hf, ?_⟩), hid⟩
      rw [hid, hchild]
      rfl
    · exact absurd hremoved (hkept k plan c hplan hc hlive)
  · exact .inr ⟨f, List.mem_append_left _ hf, hid⟩

/-- What still works after a fill waits behind it. -/
theorem Followed.on_fill {f : Fill} {rest : List Fill} (hsound : Sound x e inbox)
    (hfollowed : Followed x e inbox) (hinbox : inbox = f :: rest) : Followed (x.on_fill f).2 e rest := by
  obtain ⟨plan, hplan, hmem, -, heq⟩ := hsound.on_fill hinbox
  have hbehind : ∀ c, c ≠ f.order_id → (e.Live c ∨ ∃ g ∈ inbox, g.order_id = c) →
      e.Live c ∨ ∃ g ∈ rest, g.order_id = c := by
    rintro c hne (hlive | ⟨g, hg, rfl⟩)
    · exact .inl hlive
    · rw [hinbox] at hg
      rcases List.mem_cons.mp hg with rfl | hg
      · exact absurd rfl hne
      · exact .inr ⟨g, hg, rfl⟩
  have hkept : ∀ c, (plan.filled_by f).working_child = some c → e.Live c ∨ ∃ g ∈ rest, g.order_id = c := by
    intro c hc
    rw [ExecutionPlan.filled_by] at hc
    dsimp only at hc
    split at hc
    · cases hc
    · rename_i hother
      refine hbehind c ?_ (hfollowed _ plan hplan c hc)
      rintro rfl
      exact hother hc
  have hothers : ∀ (k : OrderId) other c, f.parent_id ≠ k → x.plans[k]? = some other →
      other.working_child = some c → e.Live c ∨ ∃ g ∈ rest, g.order_id = c := by
    intro k other c hne hother hc
    refine hbehind c ?_ (hfollowed k other hother c hc)
    rintro rfl
    exact hne (hsound.unique hplan hother hmem (hsound.own k other _ hother hc))
  rw [heq]
  intro k other hother c hc
  split at hother <;> obtain ⟨rfl, rfl⟩ | ⟨hne, hother⟩ := Table.getElem?_insert_eq_some.mp hother
  · exact hkept c hc
  · exact hothers k other c hne hother hc
  · exact hkept c hc
  · exact hothers k other c hne hother hc

end Steps

/-! ### Runs -/

/-- A fill is handed over only when its order no longer rests. -/
def Desk.HandsOverDone (d : Desk R Q) : DeskMove → Prop
  | .on_fill => ∀ f ∈ d.inbox.head?, ¬ d.session.engine.Live f.order_id
  | _ => True

/-- Where fills are handed over when their orders no longer rest, a child that
rests is its plan's working child. -/
theorem deskMachine_watched {G : Desk R Q → DeskMove → Prop} (hdone : ∀ d l, G d l → d.HandsOverDone l)
    {d : Desk R Q} (hreach : (deskMachine R source).Reaches G d) : Watched d.executor d.session.engine := by
  refine hreach.invariant (I := fun d => Watched d.executor d.session.engine) ?_ ?_
  · intro d hinit k plan hplan
    simp [hinit.plans_empty] at hplan
  · intro d l t hd hwatched hguard hstep
    have hsound := deskMachine_sound hd
    obtain ⟨a, session, rfl, hsession, rfl⟩ | ⟨f, rest, rfl, hinbox, rfl⟩ | ⟨x, e, hturns, rfl⟩ :=
      Desk.step_cases hstep
    · obtain ⟨-, ⟨order, -, henters⟩ | ⟨hshrinks, -⟩⟩ := Desk.engine_effect hsound.agreed hsession
      · exact hwatched.enter hsound henters
      · exact hwatched.shrink hshrinks
    · refine hwatched.on_fill hsound hinbox (hdone _ _ hguard f ?_)
      rw [hinbox]
      rfl
    · exact (hturns.invariant (I := fun x e => Sound x e d.inbox ∧ Watched x e)
        (fun x e x' e' hs hturn => ⟨hturn.sound hs.1, hturn.watched hs.1 hs.2⟩) ⟨hsound, hwatched⟩).2

/-- A fill is handed over only when its order no longer rests, and no working
child that rests is taken off the venue without a fill by anybody but the
executor. -/
def Desk.KeepsTrack (source : IMarketDataSource Q) (d : Desk R Q) : DeskMove → Prop
  | .engine a =>
    ∀ entry ∈ d.executor.plans.toList, ∀ c ∈ entry.2.working_child, d.session.engine.Live c →
      c ∉ d.removed source a
  | .on_fill => d.HandsOverDone .on_fill
  | _ => True

instance (d : Desk R Q) : (l : DeskMove) → Decidable (d.HandsOverDone l)
  | .on_fill => inferInstanceAs (Decidable (∀ f ∈ d.inbox.head?, ¬ d.session.engine.Live f.order_id))
  | .engine _ | .submit _ _ _ | .on_market _ _ | .cancel _ | .expire_stale _ => isTrue trivial

instance (d : Desk R Q) : (l : DeskMove) → Decidable (d.KeepsTrack source l)
  | .engine a =>
    -- not by enumerating every id there is
    have (entry : OrderId × ExecutionPlan) : Decidable (∀ c ∈ entry.2.working_child,
        d.session.engine.Live c → c ∉ d.removed source a) := Option.decidableForallMem _
    inferInstanceAs (Decidable (∀ entry ∈ d.executor.plans.toList, ∀ c ∈ entry.2.working_child,
      d.session.engine.Live c → c ∉ d.removed source a))
  | .on_fill => inferInstanceAs (Decidable (d.HandsOverDone .on_fill))
  | .submit _ _ _ | .on_market _ _ | .cancel _ | .expire_stale _ => isTrue trivial

theorem Desk.KeepsTrack.done {d : Desk R Q} {l : DeskMove} (hkeeps : d.KeepsTrack source l) :
    d.HandsOverDone l := by
  cases l with
  | on_fill => exact hkeeps
  | engine _ => trivial
  | submit _ _ _ => trivial
  | on_market _ _ => trivial
  | cancel _ => trivial
  | expire_stale _ => trivial

theorem deskMachine_followed {d : Desk R Q}
    (hreach : (deskMachine R source).Reaches (Desk.KeepsTrack source) d) :
    Followed d.executor d.session.engine d.inbox := by
  refine hreach.invariant (I := fun d => Followed d.executor d.session.engine d.inbox) ?_ ?_
  · intro d hinit k plan hplan
    simp [hinit.plans_empty] at hplan
  · intro d l t hd hfollowed hguard hstep
    have hsound := deskMachine_sound hd
    obtain ⟨a, session, rfl, hsession, rfl⟩ | ⟨f, rest, rfl, hinbox, rfl⟩ | ⟨x, e, hturns, rfl⟩ :=
      Desk.step_cases hstep
    · obtain ⟨-, ⟨order, rfl, henters⟩ | ⟨-, hfate⟩⟩ := Desk.engine_effect hsound.agreed hsession
      · intro k plan hplan c hc
        have hlive := (hfollowed k plan hplan c hc).imp_left fun hlive => henters.live_iff.mpr (.inl hlive)
        simpa [Desk.dispatched, Executor.ownFills] using hlive
      · refine hfollowed.shrink hsound hfate fun k plan c hplan hc => ?_
        exact hguard ⟨k, plan⟩ (Std.TreeMap.mem_toList_iff_getElem?_eq_some.mpr hplan) c hc
    · exact hfollowed.on_fill hsound hinbox
    · exact (hturns.invariant (I := fun x e => Sound x e d.inbox ∧ Followed x e d.inbox)
        (fun x e x' e' hs hturn => ⟨hturn.sound hs.1, hturn.followed hs.1 hs.2⟩) ⟨hsound, hfollowed⟩).2

/-- With every fill handed over, the working child of a plan is its child that
rests, and it has no working child if none does. -/
def Desk.Tracks (d : Desk R Q) : Prop :=
  d.inbox = [] → ∀ entry ∈ d.executor.plans.toList, ∀ c : OrderId,
    entry.2.working_child = some c ↔ c ∈ entry.2.children ∧ d.session.engine.Live c

/-- No plan has two children that rest. -/
def Desk.RestsOne (d : Desk R Q) : Prop :=
  ∀ entry ∈ d.executor.plans.toList, ∀ c ∈ entry.2.children, ∀ c' ∈ entry.2.children,
    d.session.engine.Live c → d.session.engine.Live c' → c = c'

/-- An executor that is told of a child's fills only once the child is done, and
whose working children leave the venue by nothing but fills and itself, knows
which children rest. -/
theorem deskMachine_tracks {d : Desk R Q}
    (hreach : (deskMachine R source).Reaches (Desk.KeepsTrack source) d) : d.Tracks ∧ d.RestsOne := by
  have hsound := deskMachine_sound hreach
  have hwatched := deskMachine_watched (fun _ _ => Desk.KeepsTrack.done) hreach
  have hfollowed := deskMachine_followed hreach
  constructor
  · rintro hempty ⟨k, plan⟩ hentry c
    have hplan := Std.TreeMap.mem_toList_iff_getElem?_eq_some.mp hentry
    constructor
    · intro hc
      refine ⟨hsound.own k plan c hplan hc, (hfollowed k plan hplan c hc).resolve_right ?_⟩
      rw [hempty]
      rintro ⟨f, hf, -⟩
      cases hf
    · rintro ⟨hc, hlive⟩
      exact hwatched k plan hplan c hc hlive
  · rintro ⟨k, plan⟩ hentry c hc c' hc' hlive hlive'
    have hplan := Std.TreeMap.mem_toList_iff_getElem?_eq_some.mp hentry
    have hworking := hwatched k plan hplan c hc hlive
    exact Option.some.inj (hworking.symm.trans (hwatched k plan hplan c' hc' hlive'))

/-- Where a child is filled at once the working child is right at every turn. -/
theorem deskMachine_tracks_full_fill : ∃ d, (deskMachine Unit replay).Reaches (Desk.KeepsTrack replay) d ∧
    (d.executor.plans[(1 : OrderId)]?).map (fun plan => (plan.working_child, plan.children)) =
      some (none, [2]) ∧ d.Tracks ∧ d.RestsOne := by
  obtain ⟨d, hd, hplan⟩ := (flatDesk_reached (G := Desk.KeepsTrack replay)
    [barOf 1 1000, barOf 2000000 1000] ImmediateAlgorithm (by decide +kernel)).exec_map
    (sendFirstChild ++ fillOnce)
    (fun d => (d.executor.plans[(1 : OrderId)]?).map fun plan => (plan.working_child, plan.children))
    (b := some (none, [2])) (by decide +kernel) (by decide +kernel)
  exact ⟨d, hd, hplan, deskMachine_tracks hd⟩

/-- A child of ten shares is filled five, and its plan has no working child
while the other five rest. -/
theorem deskMachine_loses_partial : ∃ d, (deskMachine Unit replay).Reachable d ∧ ¬ d.Tracks := by
  obtain ⟨d, hd, hshown⟩ := (flatDesk_reached [barOf 1 1000, barOf 2000000 100] ImmediateAlgorithm
    (by decide +kernel)).exec_map (sendFirstChild ++ fillOnce)
    (fun d => (d.inbox.length, (d.executor.plans[(1 : OrderId)]?).map fun plan =>
      (plan.working_child, plan.children), decide (d.session.engine.Live 2)))
    (b := (0, some (none, [2]), true)) (Machine.along_of_forall (fun _ _ => trivial) _ _) (by decide +kernel)
  simp only [Prod.mk.injEq, Option.map_eq_some_iff, decide_eq_true_eq] at hshown
  obtain ⟨hempty, ⟨plan, hplan, hworking, hchildren⟩, hlive⟩ := hshown
  refine ⟨d, hd, fun htracks => ?_⟩
  have hentry := Std.TreeMap.mem_toList_iff_getElem?_eq_some.mpr hplan
  have hright := (htracks (List.length_eq_zero_iff.mp hempty) _ hentry 2).mpr
    ⟨by rw [hchildren]; exact List.mem_singleton_self _, hlive⟩
  rw [hworking] at hright
  cases hright

end ptl.algo
