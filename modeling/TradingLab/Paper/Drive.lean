import TradingLab.Core.Numbers
import TradingLab.Engine.Drive
import TradingLab.Engine.Run
import TradingLab.Paper.Session

open ptl.oms ptl.portfolio ptl.market ptl.risk ptl.execution ptl.accounting ptl.storage ptl.engine

namespace ptl.paper

variable {R S Q F : Type} {fmt : DoubleFormat Rat} {fs : IFileSystem F}

/-! ### Between two events -/

/-- What the session's bookkeeping leaves alone. Of the engine it touches the
risk manager's tallies only, and those only on a day roll. -/
structure PaperSession.Rests (p p' : PaperSession R Q F) : Prop where
  source_eq : p'.source = p.source
  config_eq : p'.config = p.config
  phase_eq : p'.phase = p.phase
  stop_requested_eq : p'.stop_requested = p.stop_requested
  emplaced_eq : p'.emplaced = p.emplaced
  engine_eq : ∃ risk, p'.engine = { p.engine with risk }
  undisturbed : p.config.daily_reset = false → p'.engine = p.engine

theorem PaperSession.Rests.refl (p : PaperSession R Q F) : p.Rests p :=
  ⟨rfl, rfl, rfl, rfl, rfl, ⟨p.engine.risk, rfl⟩, fun _ => rfl⟩

theorem PaperSession.Rests.trans {p p' p'' : PaperSession R Q F} (hfirst : p.Rests p')
    (hsecond : p'.Rests p'') : p.Rests p'' where
  source_eq := hsecond.source_eq.trans hfirst.source_eq
  config_eq := hsecond.config_eq.trans hfirst.config_eq
  phase_eq := hsecond.phase_eq.trans hfirst.phase_eq
  stop_requested_eq := hsecond.stop_requested_eq.trans hfirst.stop_requested_eq
  emplaced_eq := hsecond.emplaced_eq.trans hfirst.emplaced_eq
  engine_eq := by
    obtain ⟨risk, hengine⟩ := hfirst.engine_eq
    obtain ⟨risk', hengine'⟩ := hsecond.engine_eq
    exact ⟨risk', by rw [hengine', hengine]⟩
  undisturbed hoff :=
    (hsecond.undisturbed (hfirst.config_eq ▸ hoff)).trans (hfirst.undisturbed hoff)

/-- Persisting touches the artifacts and what counts them. -/
theorem PaperSession.persist_eq {p p' : PaperSession R Q F} {result : Result Bool}
    (hpersist : p.persist fmt fs = (result, p')) :
    ∃ artifacts persists,
      p' = { p with artifacts, sequence := p.sequence + 1, stats := { p.stats with persists } } := by
  unfold PaperSession.persist at hpersist
  cases hput : p.artifacts.put fs p.key (p.record.to_json fmt) with
  | mk written artifacts =>
    rw [hput] at hpersist
    cases written with
    | error e =>
      cases hpersist
      exact ⟨artifacts, p.stats.persists, rfl⟩
    | ok path =>
      cases hpersist
      exact ⟨artifacts, p.stats.persists + 1, rfl⟩

theorem PaperSession.persist_rests {p p' : PaperSession R Q F} {result : Result Bool}
    (hpersist : p.persist fmt fs = (result, p')) : p.Rests p' := by
  obtain ⟨artifacts, persists, rfl⟩ := PaperSession.persist_eq hpersist
  exact ⟨rfl, rfl, rfl, rfl, rfl, ⟨p.engine.risk, rfl⟩, fun _ => rfl⟩

theorem PaperSession.roll_rests {p p' : PaperSession R Q F} {result : Result Bool}
    (hroll : p.roll fmt fs = (result, p')) : p.Rests p' := by
  unfold PaperSession.roll at hroll
  split at hroll
  · rename_i hday
    obtain ⟨hon, -⟩ := hday
    unfold PaperSession.daily_reset at hroll
    split at hroll
    · rename_i hpersist
      cases hroll
      exact PaperSession.persist_rests hpersist
    · rename_i done saved hpersist
      cases hroll
      have hrests := PaperSession.persist_rests hpersist
      obtain ⟨risk, hengine⟩ := hrests.engine_eq
      refine ⟨hrests.source_eq, hrests.config_eq, hrests.phase_eq, hrests.stop_requested_eq,
        hrests.emplaced_eq, ⟨{ saved.engine.risk with rejections := ∅ }, ?_⟩, ?_⟩
      · dsimp only
        rw [hengine]
      · intro hoff
        rw [hoff] at hon
        cases hon
  · cases hroll
    exact .refl p

theorem PaperSession.between_rests {p p' : PaperSession R Q F} {result : Result Bool}
    (hbetween : p.between fmt fs = (result, p')) : p.Rests p' := by
  have htally : p.Rests p.tally := ⟨rfl, rfl, rfl, rfl, rfl, ⟨p.engine.risk, rfl⟩, fun _ => rfl⟩
  unfold PaperSession.between at hbetween
  split at hbetween
  · rename_i hroll
    cases hbetween
    exact htally.trans (PaperSession.roll_rests hroll)
  · rename_i hroll
    have hrolled := htally.trans (PaperSession.roll_rests hroll)
    split at hbetween
    · exact hrolled.trans (PaperSession.persist_rests hbetween)
    · cases hbetween
      exact hrolled

/-! ### The run, one event at a time -/

variable (fmt fs) (strategy : IStrategy S) (source : IMarketDataSource Q)

/-- One event through the session, and what it does after it. -/
def PaperSession.next (ps : PaperSession R Q F × S) : Except Failure (Option (PaperSession R Q F × S)) :=
  if ps.1.stop_requested then .ok none
  else
    match (ps.1.world ps.2).step strategy source 1 with
    | .error failure => .error failure
    | .ok (0, _) => .ok none
    | .ok (_ + 1, w) =>
      match { ps.1 with engine := w.engine, source := w.source }.between fmt fs with
      | (.error e, _) => .error (.returned e)
      | (.ok _, p) => .ok (some (p, w.strategy))

variable {fmt fs strategy source}

variable (fmt fs strategy source) in
/-- The loop of `step` is a chunk: its count and its failure always, the
session and the strategy where it did not fail. -/
theorem PaperSession.advance_chunk (n : Nat) (p : PaperSession R Q F) (s : S) :
    (p.advance fmt fs strategy source n s).1 =
        (Driver.chunk (PaperSession.next fmt fs strategy source) n (p, s)).map Prod.fst ∧
      ∀ made ps, Driver.chunk (PaperSession.next fmt fs strategy source) n (p, s) = .ok (made, ps) →
        (p.advance fmt fs strategy source n s).2 = ps := by
  induction n generalizing p s with
  | zero =>
    refine ⟨rfl, ?_⟩
    intro made ps hchunk
    cases hchunk
    rfl
  | succ n ih =>
    by_cases hstop : p.stop_requested = true
    · have hnext : PaperSession.next fmt fs strategy source (p, s) = .ok none := if_pos hstop
      rw [PaperSession.advance, if_pos hstop, Driver.chunk_exhausted hnext]
      refine ⟨rfl, ?_⟩
      intro made ps hchunk
      cases hchunk
      rfl
    · rw [PaperSession.advance, if_neg hstop]
      cases hstep : (p.world s).step strategy source 1 with
      | error failure =>
        have hnext : PaperSession.next fmt fs strategy source (p, s) = .error failure := by
          rw [PaperSession.next, if_neg hstop, hstep]
        rw [Driver.chunk_failed hnext]
        cases failure <;> exact ⟨rfl, fun _ _ hchunk => nomatch hchunk⟩
      | ok stepped =>
        obtain ⟨stepped, w⟩ := stepped
        cases stepped with
        | zero =>
          have hnext : PaperSession.next fmt fs strategy source (p, s) = .ok none := by
            rw [PaperSession.next, if_neg hstop, hstep]
          rw [Driver.chunk_exhausted hnext]
          refine ⟨rfl, ?_⟩
          intro made ps hchunk
          cases hchunk
          rfl
        | succ stepped =>
          cases hbetween : { p with engine := w.engine, source := w.source }.between fmt fs with
          | mk result p' =>
            cases result with
            | error e =>
              have hnext : PaperSession.next fmt fs strategy source (p, s) = .error (.returned e) := by
                simp only [PaperSession.next, if_neg hstop, hstep, hbetween]
              rw [Driver.chunk_failed hnext]
              simp only [hbetween]
              exact ⟨rfl, fun _ _ hchunk => nomatch hchunk⟩
            | ok done =>
              have hnext : PaperSession.next fmt fs strategy source (p, s) =
                  .ok (some (p', w.strategy)) := by
                simp only [PaperSession.next, if_neg hstop, hstep, hbetween]
              obtain ⟨hcount, hstate⟩ := ih p' w.strategy
              rw [Driver.chunk_step hnext]
              simp only [hbetween]
              constructor
              · rw [hcount]
                cases Driver.chunk (PaperSession.next fmt fs strategy source) n (p', w.strategy) <;> rfl
              · intro made ps hchunk
                cases hrest : Driver.chunk (PaperSession.next fmt fs strategy source) n
                    (p', w.strategy) with
                | error failure =>
                  rw [hrest] at hchunk
                  cases hchunk
                | ok after =>
                  rw [hrest] at hchunk
                  cases hchunk
                  exact hstate _ _ hrest

/-- A session that may go on: running, over an engine that was begun. -/
structure PaperSession.Going (p : PaperSession R Q F) : Prop where
  running : p.phase = .Running
  unstopped : p.stop_requested = false
  emplaced : p.emplaced = true
  started : p.engine.started = true

theorem PaperSession.next_eq {p : PaperSession R Q F} (hgoing : p.Going) (s : S) :
    PaperSession.next fmt fs strategy source (p, s) =
      match (p.world s).next strategy source with
      | .error failure => .error failure
      | .ok none => .ok none
      | .ok (some w) =>
        match { p with engine := w.engine, source := w.source }.between fmt fs with
        | (.error e, _) => .error (.returned e)
        | (.ok _, p) => .ok (some (p, w.strategy)) := by
  have hstarted : (p.world s).engine.started = true := hgoing.started
  simp only [PaperSession.next, hgoing.unstopped, Bool.false_eq_true, if_false, World.step_one hstarted]
  cases (p.world s).next strategy source with
  | error failure => rfl
  | ok o => cases o <;> rfl

theorem PaperSession.Going.next {p p' : PaperSession R Q F} {s s' : S} (hgoing : p.Going)
    (hnext : PaperSession.next fmt fs strategy source (p, s) = .ok (some (p', s'))) : p'.Going := by
  rw [PaperSession.next_eq hgoing] at hnext
  cases hworld : (p.world s).next strategy source with
  | error failure =>
    rw [hworld] at hnext
    cases hnext
  | ok o =>
    cases o with
    | none =>
      rw [hworld] at hnext
      cases hnext
    | some w =>
      simp only [hworld] at hnext
      cases hbetween : { p with engine := w.engine, source := w.source }.between fmt fs with
      | mk result after =>
        have hrests := PaperSession.between_rests hbetween
        rw [hbetween] at hnext
        cases result with
        | error e => cases hnext
        | ok done =>
          cases hnext
          obtain ⟨risk, hengine⟩ := hrests.engine_eq
          refine ⟨hrests.phase_eq.trans hgoing.running,
            hrests.stop_requested_eq.trans hgoing.unstopped, hrests.emplaced_eq.trans hgoing.emplaced, ?_⟩
          rw [hengine]
          exact (World.next_advances hworld).started_eq.trans hgoing.started

variable (fmt fs strategy source) in
/-- The loop of `run` drains the session in chunks of 64 events. -/
theorem PaperSession.drive_drain {p : PaperSession R Q F} (hgoing : p.Going) (fuel : Nat) (s : S) :
    (p.drive fmt fs strategy source fuel s).map Prod.fst =
        (Driver.drain (PaperSession.next fmt fs strategy source) 64 fuel (p, s)).map
          (Except.map fun _ => ()) ∧
      ∀ ps, Driver.drain (PaperSession.next fmt fs strategy source) 64 fuel (p, s) = some (.ok ps) →
        p.drive fmt fs strategy source fuel s = some (.ok (), ps) := by
  induction fuel generalizing p s with
  | zero =>
    refine ⟨rfl, ?_⟩
    intro ps hdrain
    cases hdrain
  | succ fuel ih =>
    have hgo : ¬ (p.stop_requested = true ∨ is_terminal p.phase = true) := by
      rw [hgoing.unstopped, hgoing.running]
      decide
    have hstep : p.step fmt fs strategy source s 64 = p.advance fmt fs strategy source 64 s := by
      rw [PaperSession.step, hgoing.running, hgoing.emplaced, if_neg (by simp), if_neg (by simp)]
    obtain ⟨hcount, hstate⟩ := PaperSession.advance_chunk fmt fs strategy source 64 p s
    rw [PaperSession.drive, if_neg hgo, hstep, Driver.drain]
    cases hchunk : Driver.chunk (PaperSession.next fmt fs strategy source) 64 (p, s) with
    | error failure =>
      rw [hchunk] at hcount
      cases hadvance : p.advance fmt fs strategy source 64 s with
      | mk result rest =>
        rw [hadvance] at hcount
        cases hcount
        refine ⟨rfl, ?_⟩
        intro ps hdrain
        cases hdrain
    | ok made =>
      obtain ⟨made, ps⟩ := made
      have hafter := hstate _ _ hchunk
      rw [hchunk] at hcount
      cases hadvance : p.advance fmt fs strategy source 64 s with
      | mk result rest =>
        rw [hadvance] at hcount hafter
        have hrest : rest = ps := hafter
        obtain ⟨p', s'⟩ := ps
        cases hcount
        rw [hrest]
        cases made with
        | zero =>
          refine ⟨rfl, ?_⟩
          intro ps hdrain
          cases hdrain
          rfl
        | succ made =>
          have hkept : p'.Going :=
            Driver.chunk_invariant (I := fun ps : PaperSession R Q F × S => ps.1.Going)
              (fun _ _ hgoing hnext => hgoing.next hnext) hgoing hchunk
          exact ih hkept s'

theorem PaperSession.drains_of_drive {fuel : Nat} {p p' : PaperSession R Q F} {s s' : S} (hgoing : p.Going)
    (hdrive : p.drive fmt fs strategy source fuel s = some (.ok (), p', s')) :
    Driver.Drains (PaperSession.next fmt fs strategy source) (p, s) (.ok (p', s')) := by
  obtain ⟨hresult, hstate⟩ := PaperSession.drive_drain fmt fs strategy source hgoing fuel s
  rw [hdrive] at hresult
  cases hdrain : Driver.drain (PaperSession.next fmt fs strategy source) 64 fuel (p, s) with
  | none =>
    rw [hdrain] at hresult
    cases hresult
  | some r =>
    cases r with
    | error failure =>
      rw [hdrain] at hresult
      cases hresult
    | ok ps =>
      have hsame := hstate ps hdrain
      rw [hdrive] at hsame
      cases hsame
      exact .of_drain hdrain

theorem PaperSession.drive_of_fails {p : PaperSession R Q F} {s : S} {failure : Failure} (hgoing : p.Going)
    (hdrains : Driver.Drains (PaperSession.next fmt fs strategy source) (p, s) (.error failure)) :
    ∃ fuel p' s', p.drive fmt fs strategy source fuel s = some (.error failure, p', s') := by
  obtain ⟨fuel, hdrain⟩ := hdrains.drain 63
  obtain ⟨hresult, -⟩ := PaperSession.drive_drain fmt fs strategy source hgoing fuel s
  rw [hdrain] at hresult
  obtain ⟨⟨result, p', s'⟩, hdrive, hfailed⟩ := Option.map_eq_some_iff.mp hresult
  exact ⟨fuel, p', s', by rw [hdrive, show result = .error failure from hfailed]⟩

/-- The session a restart would build. -/
def PaperSession.rebuilt (p : PaperSession R Q F) : PaperSession R Q F where
  config := p.config
  engine :=
    { clock := p.engine.clock
      broker := { p.engine.broker with pending := [] }
      pf := Portfolio.new p.engine.pf.cfg
      risk := { limits := p.engine.risk.limits } }
  source := p.source
  account := p.account
  artifacts := p.artifacts

/-! ### A concrete session -/

/-- A session in memory over an engine with flat costs and a replay of these
events. -/
def flatPaper (events : List MarketEvent) (config : SessionConfig := {})
    (h : (ReplaySource.create events (some 0)).toOption.isSome = true := by decide +kernel) :
    PaperSession Unit ReplaySource (List (String × String)) where
  config
  engine := (flatSession events {} {} h).engine
  source := (flatSession events {} {} h).source
  artifacts := { root := "", files := [] }

/-- A strategy that submits an order on its first bar. -/
def submitsOnce (order : Order) : IStrategy Bool where
  on_bar _ submitted := if submitted then .done true else .submit order fun _ => .done true

/-- Two bars, the second of which fills an order of the first. -/
def twoBars : PaperSession Unit ReplaySource (List (String × String)) :=
  flatPaper [barOf 0 1000, barOf 2000000 1000] { daily_reset := false }

end ptl.paper

namespace ptl.paper

variable {R S Q F : Type} {fmt : DoubleFormat Rat} {fs : IFileSystem F} {strategy : IStrategy S}
  {source : IMarketDataSource Q}

/-- A session that may go on, beside a backtest at the same point. -/
structure Mirrors (ps : PaperSession R Q F × S) (w : World R S Q) : Prop where
  going : ps.1.Going
  daily_reset_off : ps.1.config.daily_reset = false
  world_eq : ps.1.world ps.2 = w

variable (fmt fs) in
/-- Event for event the session does what the backtest does, unless it fails
to write its record. -/
theorem mirrors_follows :
    Driver.Follows (PaperSession.next fmt fs strategy source) (World.next (R := R) strategy source)
      (Mirrors (F := F)) := by
  rintro ⟨p, s⟩ w ⟨hgoing, hoff, rfl⟩ o hnext
  have hpaper := hnext
  rw [PaperSession.next_eq hgoing] at hnext
  cases hworld : (p.world s).next strategy source with
  | error failure =>
    rw [hworld] at hnext
    cases hnext
  | ok moved =>
    rw [hworld] at hnext
    cases moved with
    | none =>
      cases hnext
      exact ⟨none, rfl, .none⟩
    | some w =>
      dsimp only at hnext
      cases hbetween : { p with engine := w.engine, source := w.source }.between fmt fs with
      | mk result p' =>
        have hrests := PaperSession.between_rests hbetween
        rw [hbetween] at hnext
        cases result with
        | error e => cases hnext
        | ok done =>
          cases hnext
          have hengine : p'.engine = w.engine := hrests.undisturbed hoff
          have hsource : p'.source = w.source := hrests.source_eq
          refine ⟨some w, rfl, .some ⟨hgoing.next hpaper, ?_, ?_⟩⟩
          · rw [hrests.config_eq]
            exact hoff
          · rw [PaperSession.world, hengine, hsource]

variable (fmt strategy) in
/-- A session begun with nothing to recover stands where a backtest over the
same collaborators begins. -/
theorem PaperSession.start_begins {p : PaperSession R Q F} (hcreated : p.phase = .Created)
    (hnothing : p.artifacts.contains fs p.key = false) (s : S) :
    (∃ e p' s', p.start fmt fs strategy s = (.error e, p', s') ∧
      ({ engine := freshEngine p.engine, strategy := s, source := p.source } : World R S Q).begin strategy =
        .error e) ∨
    ∃ p' w, p.start fmt fs strategy s = (.ok true, p', w.strategy) ∧
      ({ engine := freshEngine p.engine, strategy := s, source := p.source } : World R S Q).begin strategy =
        .ok w ∧
      p'.phase = .Running ∧ p'.emplaced = true ∧ p'.stop_requested = p.stop_requested ∧
      p'.config = p.config ∧ p'.world w.strategy = w := by
  have hrecover : ({ p with connected := true } : PaperSession R Q F).recover fmt fs =
      .ok { p with connected := true } := by
    have hcontains : ({ p with connected := true } : PaperSession R Q F).artifacts.contains fs
        ({ p with connected := true } : PaperSession R Q F).key = false := hnothing
    rw [PaperSession.recover, hcontains, if_pos (by simp)]
  unfold PaperSession.start
  rw [if_neg (not_not.mpr hcreated)]
  simp only [hrecover, PaperSession.world]
  cases hbegin : ({ engine := freshEngine p.engine, strategy := s, source := p.source } :
      World R S Q).begin strategy with
  | error e => exact .inl ⟨e, _, _, rfl, rfl⟩
  | ok w =>
    refine .inr ⟨_, w, rfl, rfl, rfl, rfl, rfl, rfl, ?_⟩
    have hsource : w.source = p.source := by
      unfold World.begin at hbegin
      split at hbegin
      · cases hbegin
      · cases hbegin
        rfl
    rw [← hsource]

/-- The close-out of a running session is the backtest's. -/
theorem PaperSession.shutdown_finishes {p p' : PaperSession R Q F} {s s' : S} {done : Bool}
    (hgoing : p.Going) (hshutdown : p.shutdown fmt fs strategy s = (.ok done, p', s')) :
    p'.engine = ((p.world s).finish strategy).2.engine ∧
      s' = ((p.world s).finish strategy).2.strategy := by
  have hopen : ¬ is_terminal p.phase = true := by
    rw [hgoing.running]
    decide
  unfold PaperSession.shutdown at hshutdown
  rw [if_neg hopen] at hshutdown
  simp only [hgoing.emplaced, if_true] at hshutdown
  split at hshutdown
  · cases hshutdown
  · rename_i hpersist
    cases hshutdown
    obtain ⟨artifacts, persists, rfl⟩ := PaperSession.persist_eq hpersist
    exact ⟨rfl, rfl⟩

/-- A run of a session with nothing to recover that ends well leaves the book,
the order manager, the journal and the venue as a backtest over the same
source leaves them, and where the backtest fails the session fails. -/
theorem PaperSession.run_refines {p : PaperSession R Q F} {s : S} (hcreated : p.phase = .Created)
    (hunstopped : p.stop_requested = false) (hoff : p.config.daily_reset = false)
    (hnothing : p.artifacts.contains fs p.key = false) (fuel : Nat) :
    (∀ stats p' s', p.run fmt fs strategy source s fuel = some (.ok stats, p', s') →
      ∃ fuel' summary w',
        ({ engine := freshEngine p.engine, strategy := s, source := p.source } : World R S Q).run strategy
          source fuel' = some (.ok (summary, w')) ∧
        p'.engine.pf = w'.engine.pf ∧ p'.engine.oms = w'.engine.oms ∧
        p'.engine.journal = w'.engine.journal ∧ p'.engine.broker.pending = w'.engine.broker.pending ∧
        s' = w'.strategy) ∧
    (∀ failure,
      ({ engine := freshEngine p.engine, strategy := s, source := p.source } : World R S Q).run strategy
        source fuel = some (.error failure) →
      ∃ fuel' failure' p' s', p.run fmt fs strategy source s fuel' = some (.error failure', p', s')) := by
  obtain ⟨e, p₁, s₁, hstart, hbegin⟩ | ⟨p₁, w, hstart, hbegin, hphase, hemplaced, hstop, hconfig, hworld⟩ :=
    PaperSession.start_begins fmt strategy hcreated hnothing s
  · constructor
    · intro stats p' s' hrun
      rw [PaperSession.run, if_pos hcreated, hstart] at hrun
      cases hrun
    · intro failure hrun
      exact ⟨0, .returned e, p₁, s₁, by rw [PaperSession.run, if_pos hcreated, hstart]⟩
  · have hengine : p₁.engine = w.engine := congrArg World.engine hworld
    have hstarted : w.engine.started = true := by rw [World.begin_engine hbegin]; rfl
    have hgoing : p₁.Going := ⟨hphase, hstop.trans hunstopped, hemplaced, hengine ▸ hstarted⟩
    have hmirrors : Mirrors (p₁, w.strategy) w := ⟨hgoing, hconfig ▸ hoff, hworld⟩
    constructor
    · intro stats p' s' hrun
      rw [PaperSession.run, if_pos hcreated, hstart] at hrun
      dsimp only at hrun
      split at hrun
      · cases hrun
      · cases hrun
      · rename_i p₂ s₂ hdrive
        split at hrun
        · cases hrun
        · rename_i hshutdown
          cases hrun
          obtain ⟨w₂, hdrains, hgoing₂, -, rfl⟩ :=
            (mirrors_follows fmt fs).drains (PaperSession.drains_of_drive hgoing hdrive) hmirrors
          obtain ⟨fuel', hdrain⟩ := (World.drain_iff hstarted _).mpr hdrains
          obtain ⟨hengine', hstrategy⟩ := PaperSession.shutdown_finishes hgoing₂ hshutdown
          refine ⟨fuel', ((p₂.world s₂).finish strategy).1, ((p₂.world s₂).finish strategy).2,
            by rw [World.run, hbegin]; simp only [hdrain], ?_⟩
          rw [hengine', hstrategy]
          exact ⟨rfl, rfl, rfl, rfl, rfl⟩
    · intro failure hrun
      rw [World.run, hbegin] at hrun
      dsimp only at hrun
      split at hrun
      · cases hrun
      · rename_i hdrain
        have hdrains := (World.drain_iff hstarted _).mp ⟨fuel, hdrain⟩
        obtain ⟨failure', hfails⟩ := (mirrors_follows fmt fs).fails hdrains hmirrors
        obtain ⟨fuel', p', s', hdrive⟩ := PaperSession.drive_of_fails hgoing hfails
        refine ⟨fuel', failure', p', s', ?_⟩
        rw [PaperSession.run, if_pos hcreated, hstart]
        simp only [hdrive]
      · cases hrun

/-- Two bars behind a clock that is ahead of both. -/
def lateClock : PaperSession Unit ReplaySource (List (String × String)) :=
  { twoBars with engine := { twoBars.engine with clock := 1 } }

/-- The ten shares the session bought are the backtest's, and the clock that
stops the backtest stops the session. -/
theorem PaperSession.run_refines_buy :
    (∃ fuel summary w',
      ({ engine := freshEngine twoBars.engine, strategy := false, source := twoBars.source } :
        World Unit Bool ReplaySource).run (submitsOnce dayBuy) replay fuel = some (.ok (summary, w')) ∧
      (w'.engine.pf.positions[(0 : InstrumentId)]?).map Position.quantity = some 10) ∧
    ∃ fuel failure p' s',
      lateClock.run wholeDoubles memoryFiles (submitsOnce dayBuy) replay false fuel =
        some (.error failure, p', s') := by
  constructor
  · obtain ⟨⟨result, p', s'⟩, hrun, hshown⟩ := Option.map_eq_some_iff.mp
      (show (twoBars.run wholeDoubles memoryFiles (submitsOnce dayBuy) replay false 3).map
          (fun r => (r.1.toOption.isSome,
            (r.2.1.engine.pf.positions[(0 : InstrumentId)]?).map Position.quantity)) =
        some (true, some 10) by decide +kernel)
    cases result with
    | error failure => cases congrArg Prod.fst hshown
    | ok stats =>
      obtain ⟨fuel, summary, w', hbacktest, hpf, -⟩ :=
        (PaperSession.run_refines rfl rfl rfl (by decide +kernel) 3).1 stats p' s' hrun
      exact ⟨fuel, summary, w', hbacktest, hpf ▸ congrArg Prod.snd hshown⟩
  · obtain ⟨result, hrun, hfailed⟩ := Option.map_eq_some_iff.mp
      (show (({ engine := freshEngine lateClock.engine, strategy := false, source := lateClock.source } :
          World Unit Bool ReplaySource).run (submitsOnce dayBuy) replay 1).map
            (fun r => r.toOption.isNone) = some true by decide +kernel)
    cases result with
    | ok ended => cases hfailed
    | error failure =>
      exact (PaperSession.run_refines rfl rfl rfl (by decide +kernel) 1).2 failure hrun

end ptl.paper
