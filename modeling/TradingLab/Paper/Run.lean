import TradingLab.Core.Numbers
import TradingLab.Engine.Moves
import TradingLab.Paper.Drive

/-! The runs of a paper session: any calls in any order, and inside a step the
engine's moves, whatever the events are and whatever the strategy does. -/

open ptl.oms ptl.portfolio ptl.market ptl.risk ptl.execution ptl.accounting ptl.storage ptl.engine

namespace ptl.paper

variable {R S Q F : Type}

/-- Where a session is: between two calls, in a step between or inside events,
or in a step after an event. -/
inductive Stage where
  | rest
  | turn (handling : Option MarketEvent)
  | settled

/-- A session with the step it is in, and how that step began. -/
structure PaperRun (R Q F : Type) where
  session : PaperSession R Q F
  stage : Stage := .rest
  opening : Opening := {}

inductive PaperMove (Q : Type) where
  | start (answer : Result Unit)
  | pause (reason : String)
  | resume
  | request_stop
  | persist
  | daily_reset (now : Timestamp)
  | shutdown
  | kill (source : Q)
  | enter
  | engine (a : Action)
  | between
  | leave

variable (fmt : DoubleFormat Rat) (fs : IFileSystem F) (source : IMarketDataSource Q)

/-- A call between two steps, whatever it returns. -/
def PaperRun.call (r : PaperRun R Q F) (p : PaperSession R Q F) : Option (PaperRun R Q F) :=
  match r.stage with
  | .rest => some { r with session := p }
  | _ => none

/-- A move of the engine inside a step. The loop of the step asks for no event
once a stop was requested. -/
def PaperRun.turn (r : PaperRun R Q F) (handling : Option MarketEvent) (a : Action) :
    Option (PaperRun R Q F) :=
  if handling.isNone ∧ r.session.stop_requested then none
  else
    match Session.step source { engine := r.session.engine, source := r.session.source, handling } a with
    | none => none
    | some t =>
      some { r with
        session := { r.session with engine := t.engine, source := t.source }
        stage := match a with
          | .settle => .settled
          | _ => .turn t.handling }

/-- One move. A process that is killed leaves its artifacts to a new one. Moves
that would end the step with an engine's error are refused: the session is
over. -/
def PaperRun.step (r : PaperRun R Q F) : PaperMove Q → Option (PaperRun R Q F)
  | .start answer => r.call (r.session.start fmt fs (starts answer) ()).2.1
  | .pause reason => r.call (r.session.pause reason)
  | .resume => r.call r.session.resume.2
  | .request_stop => r.call r.session.request_stop
  | .persist => r.call (r.session.persist fmt fs).2
  | .daily_reset now => r.call (r.session.daily_reset fmt fs now).2
  | .shutdown => r.call (r.session.shutdown fmt fs (starts (.ok ())) ()).2.1
  | .kill source => some { session := { r.session.rebuilt with source } }
  | .enter =>
    match r.stage with
    | .rest =>
      if (r.session.phase = .Running ∨ r.session.phase = .Paused) ∧ r.session.emplaced then
        some { r with
          stage := .turn none
          opening := {
            permitted := r.session.trading_permitted
            pending := idsOf r.session.engine.broker.pending } }
      else none
    | _ => none
  | .engine a =>
    match r.stage with
    | .turn handling => r.turn source handling a
    | _ => none
  | .between =>
    match r.stage with
    | .settled =>
      let (result, session) := r.session.between fmt fs
      some { r with
        session
        stage := match result with
          | .ok _ => .turn none
          | .error _ => .rest }
    | _ => none
  | .leave =>
    match r.stage with
    | .turn none => some { r with stage := .rest }
    | _ => none

/-- A session that was just built. -/
def PaperRun.Initial (r : PaperRun R Q F) : Prop :=
  ∃ p : PaperSession R Q F, p.phase = .Created ∧ p.emplaced = false ∧ p.engine.Fresh ∧ r = { session := p }

def paperMachine (R : Type) : Machine (PaperRun R Q F) (PaperMove Q) where
  Init := PaperRun.Initial
  step := PaperRun.step fmt fs source

/-! ### What a call leaves alone -/

variable {fmt fs source}

theorem PaperSession.daily_reset_broker (p : PaperSession R Q F) (now : Timestamp) :
    (p.daily_reset fmt fs now).2.engine.broker = p.engine.broker := by
  unfold PaperSession.daily_reset
  split
  · rename_i hpersist
    obtain ⟨artifacts, persists, rfl⟩ := PaperSession.persist_eq hpersist
    rfl
  · rename_i hpersist
    obtain ⟨artifacts, persists, rfl⟩ := PaperSession.persist_eq hpersist
    rfl

theorem PaperSession.recover_keeps {p p' : PaperSession R Q F} (hrecover : p.recover fmt fs = .ok p') :
    p'.engine = p.engine ∧ p'.source = p.source := by
  unfold PaperSession.recover at hrecover
  split at hrecover
  · cases hrecover
    exact ⟨rfl, rfl⟩
  · split at hrecover
    · cases hrecover
    · split at hrecover
      · cases hrecover
      · split at hrecover
        · cases hrecover
        · cases hrecover
          exact ⟨rfl, rfl⟩

theorem PaperSession.start_broker (strategy : IStrategy S) (p : PaperSession R Q F) (s : S) :
    (p.start fmt fs strategy s).2.1.engine.broker = p.engine.broker := by
  unfold PaperSession.start
  split
  · rfl
  · dsimp only
    split
    · rfl
    · rename_i p' hrecover
      have hbroker : p'.engine.broker = p.engine.broker := by
        rw [(PaperSession.recover_keeps hrecover).1]
      split
      · exact hbroker
      · rename_i w hbegin
        dsimp only
        rw [World.begin_engine hbegin]
        exact hbroker

theorem PaperSession.shutdown_broker (strategy : IStrategy S) (p : PaperSession R Q F) (s : S) :
    (p.shutdown fmt fs strategy s).2.1.engine.broker = p.engine.broker := by
  unfold PaperSession.shutdown
  split
  · rfl
  · dsimp only
    split
    · rename_i hpersist
      obtain ⟨artifacts, persists, rfl⟩ := PaperSession.persist_eq hpersist
      split <;> rfl
    · rename_i hpersist
      obtain ⟨artifacts, persists, rfl⟩ := PaperSession.persist_eq hpersist
      split <;> rfl

/-- A move replaces the session, begins a step, moves the engine, or is none of
the venue's business. -/
theorem PaperRun.step_cases {r t : PaperRun R Q F} {l : PaperMove Q} (hstep : r.step fmt fs source l = some t) :
    (∃ replays, t = { session := { r.session.rebuilt with source := replays } }) ∨
    (t.session = r.session ∧ t.opening =
      { permitted := r.session.trading_permitted, pending := idsOf r.session.engine.broker.pending }) ∨
    (t.session.engine.broker = r.session.engine.broker ∧ t.opening = r.opening) ∨
    (∃ handling a x, l = .engine a ∧ t.opening = r.opening ∧
      Session.step source { engine := r.session.engine, source := r.session.source, handling } a = some x ∧
      t.session.engine = x.engine) := by
  have hcall : ∀ p : PaperSession R Q F, p.engine.broker = r.session.engine.broker → r.call p = some t →
      t.session.engine.broker = r.session.engine.broker ∧ t.opening = r.opening := by
    intro p hbroker hcalled
    unfold PaperRun.call at hcalled
    split at hcalled
    · cases hcalled
      exact ⟨hbroker, rfl⟩
    · cases hcalled
  cases l with
  | start answer => exact .inr (.inr (.inl (hcall _ (PaperSession.start_broker _ _ _) hstep)))
  | pause reason =>
    refine .inr (.inr (.inl (hcall _ ?_ hstep)))
    unfold PaperSession.pause
    split <;> rfl
  | resume =>
    refine .inr (.inr (.inl (hcall _ ?_ hstep)))
    unfold PaperSession.resume
    split <;> rfl
  | request_stop => exact .inr (.inr (.inl (hcall r.session.request_stop rfl hstep)))
  | persist =>
    refine .inr (.inr (.inl (hcall _ ?_ hstep)))
    cases hpersist : r.session.persist fmt fs with
    | mk result p =>
      obtain ⟨artifacts, persists, rfl⟩ := PaperSession.persist_eq hpersist
      rfl
  | daily_reset now => exact .inr (.inr (.inl (hcall _ (PaperSession.daily_reset_broker _ _) hstep)))
  | shutdown => exact .inr (.inr (.inl (hcall _ (PaperSession.shutdown_broker _ _ _) hstep)))
  | kill replays =>
    cases hstep
    exact .inl ⟨replays, rfl⟩
  | enter =>
    simp only [PaperRun.step] at hstep
    split at hstep
    · split at hstep
      · cases hstep
        exact .inr (.inl ⟨rfl, rfl⟩)
      · cases hstep
    · cases hstep
  | engine a =>
    simp only [PaperRun.step] at hstep
    split at hstep
    · rename_i handling hturn
      unfold PaperRun.turn at hstep
      split at hstep
      · cases hstep
      · split at hstep
        · cases hstep
        · rename_i x hmoved
          cases hstep
          exact .inr (.inr (.inr ⟨handling, a, x, rfl, rfl, hmoved, rfl⟩))
    · cases hstep
  | between =>
    simp only [PaperRun.step] at hstep
    split at hstep
    · cases hbetween : r.session.between fmt fs with
      | mk result p =>
        obtain ⟨risk, hengine⟩ := (PaperSession.between_rests hbetween).engine_eq
        rw [hbetween] at hstep
        cases hstep
        exact .inr (.inr (.inl ⟨by rw [hengine], rfl⟩))
    · cases hstep
  | leave =>
    simp only [PaperRun.step] at hstep
    split at hstep
    · cases hstep
      exact .inr (.inr (.inl ⟨rfl, rfl⟩))
    · cases hstep

/-! ### Orders that enter while trading is not permitted -/

/-- In a step that began without permission, the strategy's orders are turned
down on their way. -/
def PaperRun.TurnsDown (r : PaperRun R Q F) : PaperMove Q → Prop
  | .engine (.submit order) => r.opening.permitted = false → ¬ r.session.engine.Admits order
  | _ => True

/-- Since the last step began, if it began without permission, no order has
entered the venue's list. -/
def PaperRun.Respects (r : PaperRun R Q F) : Prop :=
  r.opening.Respects r.session.engine.broker.pending

theorem paperMachine_respects {r : PaperRun R Q F}
    (hreach : (paperMachine fmt fs source R).Reaches PaperRun.TurnsDown r) : r.Respects := by
  refine hreach.invariant ?_ ?_
  · rintro r ⟨p, -, -, -, rfl⟩
    nofun
  · intro r l t _ hrespects hturned hstep
    obtain ⟨replays, rfl⟩ | ⟨hsession, hopening⟩ | ⟨hbroker, hopening⟩ |
      ⟨handling, a, x, rfl, hopening, hmoved, hengine⟩ := PaperRun.step_cases hstep
    · nofun
    · rw [PaperRun.Respects, hsession, hopening]
      exact fun _ => List.Sublist.refl _
    · rw [PaperRun.Respects, hbroker, hopening]
      exact hrespects
    · intro hforbidden
      rw [hopening] at hforbidden ⊢
      have hfewer := Session.step_pending hmoved fun order ha => by
        subst ha
        exact hturned hforbidden
      rw [hengine]
      exact hfewer.trans (hrespects hforbidden)

/-! ### The executable step stays inside the machine -/

variable {strategy : IStrategy S}

theorem PaperRun.sink_reachable {p : PaperSession R Q F} {o : Opening} {ev : MarketEvent} {calls : List Action}
    {x : Session R Q} (hcalls : ∀ a ∈ calls, a.isSink = true)
    (hexec : (engineMachine R source).exec
      { engine := p.engine, source := p.source, handling := some ev } calls = some x)
    (hreach : (paperMachine fmt fs source R).Reachable
      { session := p, stage := .turn (some ev), opening := o }) :
    (paperMachine fmt fs source R).Reachable
      { session := { p with engine := x.engine, source := x.source }, stage := .turn x.handling,
        opening := o } := by
  induction calls generalizing p with
  | nil =>
    cases hexec
    exact hreach
  | cons a calls ih =>
    obtain ⟨hsink, hrest⟩ := List.forall_mem_cons.mp hcalls
    simp only [Machine.exec] at hexec
    split at hexec
    · rename_i t hstep
      have hstep' : Session.step source
          { engine := p.engine, source := p.source, handling := some ev } a = some t := hstep
      have hhandling : t.handling = some ev := Session.sink_handling hstep' hsink
      have hmoved : (paperMachine fmt fs source R).Reachable
          { session := { p with engine := t.engine, source := t.source }, stage := .turn (some ev),
            opening := o } := by
        refine hreach.step trivial (l := .engine a) ?_
        simp only [paperMachine, PaperRun.step, PaperRun.turn, Option.isNone_some, Bool.false_eq_true,
          false_and, if_false, hstep', hhandling]
        cases a with
        | settle => cases hsink
        | arrive => cases hsink
        | submit order => rfl
        | cancel id => rfl
        | next_order_id => rfl
      have hsame : t = { engine := t.engine, source := t.source, handling := some ev } := by
        rw [← hhandling]
      rw [hsame] at hexec
      exact ih (p := { p with engine := t.engine, source := t.source }) hrest hexec hmoved
    · cases hexec

/-- An event of the loop is a move of arrival, the sink moves of its callback and
a move of settlement. -/
theorem PaperRun.event_reachable {p : PaperSession R Q F} {s : S} {o : Opening} {w : World R S Q}
    (hstop : p.stop_requested = false) (hnext : (p.world s).next strategy source = .ok (some w))
    (hreach : (paperMachine fmt fs source R).Reachable { session := p, stage := .turn none, opening := o }) :
    (paperMachine fmt fs source R).Reachable
      { session := { p with engine := w.engine, source := w.source }, stage := .settled, opening := o } := by
  obtain ⟨ev, e₁, e₂, calls, hcalls, harrive, hexec, hsettle⟩ := World.next_exec hnext
  have harrive' : Session.step source { engine := p.engine, source := p.source, handling := none } .arrive =
      some { engine := e₁, source := w.source, handling := some ev } := harrive
  have harrived : (paperMachine fmt fs source R).Reachable
      { session := { p with engine := e₁, source := w.source }, stage := .turn (some ev), opening := o } := by
    refine hreach.step trivial (l := .engine .arrive) ?_
    simp only [paperMachine, PaperRun.step, PaperRun.turn, hstop, Bool.false_eq_true, and_false, if_false,
      harrive']
  have hcalled := PaperRun.sink_reachable (p := { p with engine := e₁, source := w.source }) hcalls hexec
    harrived
  refine hcalled.step trivial (l := .engine .settle) ?_
  simp only [paperMachine, PaperRun.step, PaperRun.turn, Option.isNone_some, Bool.false_eq_true, false_and,
    if_false, hsettle, World.session]

theorem PaperRun.advance_reachable {n made : Nat} {p p' : PaperSession R Q F} {s s' : S} {o : Opening}
    (hadvance : p.advance fmt fs strategy source n s = (.ok made, p', s'))
    (hreach : (paperMachine fmt fs source R).Reachable { session := p, stage := .turn none, opening := o }) :
    (paperMachine fmt fs source R).Reachable { session := p', stage := .turn none, opening := o } := by
  induction n generalizing p s made with
  | zero =>
    cases hadvance
    exact hreach
  | succ n ih =>
    rw [PaperSession.advance] at hadvance
    split at hadvance
    · cases hadvance
      exact hreach
    · rename_i hstop
      split at hadvance
      · cases hadvance
      · cases hadvance
      · cases hadvance
        exact hreach
      · rename_i made w hstep
        have hsettled := PaperRun.event_reachable (by simpa using hstop) (World.next_of_step hstep) hreach
        split at hadvance
        · cases hadvance
        · rename_i done p₁ hbetween
          have hbooked : (paperMachine fmt fs source R).Reachable
              { session := p₁, stage := .turn none, opening := o } := by
            refine hsettled.step trivial (l := .between) ?_
            simp only [paperMachine, PaperRun.step, hbetween]
          cases hrest : p₁.advance fmt fs strategy source n w.strategy with
          | mk processed rest =>
            rw [hrest] at hadvance
            cases processed with
            | error failure => cases hadvance
            | ok processed =>
              cases hadvance
              exact ih hrest hbooked

/-- A call of `step` that returns a count is a run of the machine. -/
theorem PaperSession.step_reachable {max_events made : Nat} {p p' : PaperSession R Q F} {s s' : S}
    {o : Opening} (hstep : p.step fmt fs strategy source s max_events = (.ok made, p', s'))
    (hreach : (paperMachine fmt fs source R).Reachable { session := p, opening := o }) :
    ∃ o', (paperMachine fmt fs source R).Reachable { session := p', opening := o' } := by
  unfold PaperSession.step at hstep
  split at hstep
  · cases hstep
  · rename_i hphase
    split at hstep
    · cases hstep
    · rename_i hemplaced
      have hopen : (p.phase = .Running ∨ p.phase = .Paused) ∧ p.emplaced = true :=
        ⟨or_iff_not_imp_left.mpr (by simpa using hphase), by simpa using hemplaced⟩
      have hentered : (paperMachine fmt fs source R).Reachable
          { session := p, stage := .turn none,
            opening := {
              permitted := p.trading_permitted
              pending := idsOf p.engine.broker.pending } } := by
        refine hreach.step trivial (l := .enter) ?_
        simp only [paperMachine, PaperRun.step, if_pos hopen]
      have hended := PaperRun.advance_reachable hstep hentered
      exact ⟨_, hended.step trivial (l := .leave) rfl⟩

theorem twoBars_reaches {G : PaperRun Unit ReplaySource (List (String × String)) → PaperMove ReplaySource → Prop} :
    (paperMachine wholeDoubles memoryFiles replay Unit).Reaches G { session := twoBars } :=
  .init ⟨twoBars, rfl, rfl, ⟨rfl, rfl, rfl, rfl⟩, rfl⟩

end ptl.paper
