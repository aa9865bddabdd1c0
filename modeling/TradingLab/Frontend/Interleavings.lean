import TradingLab.Frontend.SessionDriver

/-! Every interleaving of request handlers with the driver thread. What a
handler checked may have gone stale by the time its command is applied. -/

open ptl

namespace app.engine

variable {B K : Type}

/-- What a backend does to its session: it refuses a second one, and whatever
fails leaves none running that was not. -/
structure SessionBackend.Lifecycle (backend : SessionBackend B K) (runs : B → Prop) : Prop where
  refuses_second : ∀ kwargs b, runs b →
    (backend.session_start kwargs b).1.toOption.isSome = false ∧ runs (backend.session_start kwargs b).2
  started : ∀ kwargs b, (backend.session_start kwargs b).1.toOption.isSome = true →
    runs (backend.session_start kwargs b).2
  start_failed : ∀ kwargs b, ¬ runs b → (backend.session_start kwargs b).1.toOption.isSome = false →
    ¬ runs (backend.session_start kwargs b).2
  stopped : ∀ b, ¬ runs (backend.session_stop b).2
  stepped : ∀ n b, runs b → (backend.session_step n b).1.toOption.isSome = true →
    runs (backend.session_step n b).2
  step_failed : ∀ n b, (backend.session_step n b).1.toOption.isSome = false → ¬ runs (backend.session_step n b).2
  trade_keeps : ∀ command b, runs (backend.trade command b).2 ↔ runs b

/-- The turn acts on a check that still holds: a lifecycle command is applied
where it is allowed, and `shutdown` writes over ERROR. -/
def SessionDriver.Timely (s : SessionDriver B K) : Turn K → Prop
  | .drain =>
    match s.commands with
    | (_, .start _) :: _ => transition_allowed s.state .STARTING = true
    | (_, .stop) :: _ => transition_allowed s.state .STOPPING = true
    | _ => True
  | .resume i _ =>
    match s.handlers[i]? with
    | some (.force _) => s.state = .ERROR
    | _ => True
  | _ => True

instance (s : SessionDriver B K) (turn : Turn K) : Decidable (s.Timely turn) := by
  unfold SessionDriver.Timely
  split
  · split <;> infer_instance
  · split <;> infer_instance
  · infer_instance

/-- What the state says of the backend's session. -/
structure SessionDriver.Sound (runs : B → Prop) (s : SessionDriver B K) : Prop where
  running : s.state = .RUNNING → runs s.backend ∨ s.forced = true
  stopped : s.state = .STOPPED → ¬ runs s.backend
  error : s.state = .ERROR → ¬ runs s.backend

/-- A change of the state is an edge, or a failed step or a forced write. -/
def Changes (turn : Turn K) (current target : SessionState) : Prop :=
  current = target ∨ transition_allowed current target = true ∨
    (turn = .advance ∧ current = .RUNNING ∧ target = .ERROR) ∨
      ((∃ i timeout, turn = .resume i timeout) ∧ current = .ERROR ∧ target = .RUNNING)

/-- The state while a lifecycle command is applied, and with none. -/
structure SessionDriver.Kept (runs : B → Prop) (s : SessionDriver B K) : Prop where
  starting : ∀ ticket kwargs, s.applying = some (ticket, .start kwargs) → s.state = .STARTING ∧ ¬ runs s.backend
  stopping : ∀ ticket, s.applying = some (ticket, .stop) → s.state = .STOPPING
  idle : s.applying = none → s.state ≠ .STARTING ∧ s.state ≠ .STOPPING
  sound : s.Sound runs

section Kept

variable {runs : B → Prop} {s : SessionDriver B K}

theorem SessionDriver.Kept.of_idle (hidle : s.applying = none)
    (hstate : s.state ≠ .STARTING ∧ s.state ≠ .STOPPING) (hsound : s.Sound runs) : s.Kept runs := by
  refine ⟨fun ticket kwargs happlying => ?_, fun ticket happlying => ?_, fun _ => hstate, hsound⟩
  all_goals
    rw [hidle] at happlying
    cases happlying

theorem SessionDriver.Kept.of_starting {ticket : Nat} {kwargs : K}
    (happlying : s.applying = some (ticket, .start kwargs)) (hstate : s.state = .STARTING)
    (hnone : ¬ runs s.backend) : s.Kept runs := by
  refine ⟨fun _ _ _ => ⟨hstate, hnone⟩, fun ticket hother => ?_, fun hidle => ?_, ⟨?_, ?_, ?_⟩⟩
  · rw [happlying] at hother
    cases hother
  · rw [happlying] at hidle
    cases hidle
  all_goals
    rw [hstate]
    exact SessionState.noConfusion

theorem SessionDriver.Kept.of_stopping {ticket : Nat} (happlying : s.applying = some (ticket, .stop))
    (hstate : s.state = .STOPPING) : s.Kept runs := by
  refine ⟨fun ticket kwargs hother => ?_, fun _ _ => hstate, fun hidle => ?_, ⟨?_, ?_, ?_⟩⟩
  · rw [happlying] at hother
    cases hother
  · rw [happlying] at hidle
    cases hidle
  all_goals
    rw [hstate]
    exact SessionState.noConfusion

/-- A session runs in RUNNING, and none in the states that close or fail. -/
theorem SessionDriver.Sound.of_running (hstate : s.state = .RUNNING) (hruns : runs s.backend ∨ s.forced = true) :
    s.Sound runs := by
  refine ⟨fun _ => hruns, ?_, ?_⟩
  all_goals
    rw [hstate]
    exact SessionState.noConfusion

theorem SessionDriver.Sound.of_none (hstate : s.state ≠ .RUNNING) (hnone : ¬ runs s.backend) : s.Sound runs :=
  ⟨fun hrunning => absurd hrunning hstate, fun _ => hnone, fun _ => hnone⟩

end Kept

section Turn

variable {backend : SessionBackend B K} {runs : B → Prop} {s t : SessionDriver B K}

/-- What a turn does: it keeps what is known, and changes the state as it may. -/
structure SessionDriver.Moves (runs : B → Prop) (turn : Turn K) (s t : SessionDriver B K) : Prop where
  kept : t.Kept runs
  changes : Changes turn s.state t.state

/-- A turn of a handler that writes nothing leaves the session as it is. -/
theorem SessionDriver.Kept.congr (hkept : s.Kept runs) {turn : Turn K} (hstate : t.state = s.state)
    (happlying : t.applying = s.applying) (hruns : runs t.backend ↔ runs s.backend) (hforced : t.forced = s.forced) :
    s.Moves runs turn t := by
  refine ⟨⟨fun ticket kwargs h => ?_, fun ticket h => ?_, fun h => ?_, ⟨fun h => ?_, fun h => ?_, fun h => ?_⟩⟩,
    .inl hstate.symm⟩
  · rw [hstate, hruns]
    exact hkept.starting ticket kwargs (happlying ▸ h)
  · rw [hstate]
    exact hkept.stopping ticket (happlying ▸ h)
  · rw [hstate]
    exact hkept.idle (happlying ▸ h)
  · rw [hruns, hforced]
    exact hkept.sound.running (hstate ▸ h)
  · rw [hruns]
    exact hkept.sound.stopped (hstate ▸ h)
  · rw [hruns]
    exact hkept.sound.error (hstate ▸ h)

theorem SessionDriver.resume_moves (hkept : s.Kept runs) {i : Nat} {timeout : Bool}
    (htimely : s.Timely (.resume i timeout)) (hresume : s.resume i timeout = some t) :
    s.Moves runs (.resume i timeout) t := by
  unfold SessionDriver.resume at hresume
  unfold SessionDriver.Timely at htimely
  split at hresume
  · cases hresume
  · cases hresume
  · cases hresume
    exact hkept.congr rfl rfl Iff.rfl rfl
  · rename_i k hforce
    cases hresume
    simp only [hforce] at htimely
    refine ⟨⟨fun ticket kwargs happlying => ?_, fun ticket happlying => ?_, fun _ => ⟨?_, ?_⟩,
      ⟨fun _ => .inr rfl, ?_, ?_⟩⟩, .inr (.inr (.inr ⟨⟨i, timeout, rfl⟩, htimely, rfl⟩))⟩
    · rw [(hkept.starting ticket kwargs happlying).1] at htimely
      cases htimely
    · rw [hkept.stopping ticket happlying] at htimely
      cases htimely
    all_goals exact SessionState.noConfusion
  · cases hresume
    exact hkept.congr rfl rfl Iff.rfl rfl
  · split at hresume
    · cases hresume
      exact hkept.congr rfl rfl Iff.rfl rfl
    · obtain ⟨answer, -, rfl⟩ := Option.map_eq_some_iff.mp hresume
      exact hkept.congr rfl rfl Iff.rfl rfl
  · split at hresume
    · cases hresume
      exact hkept.congr rfl rfl Iff.rfl rfl
    · split at hresume
      · cases hresume
        exact hkept.congr rfl rfl Iff.rfl rfl
      · cases hresume

theorem SessionDriver.drain_moves (hbackend : backend.Lifecycle runs) (hkept : s.Kept runs)
    (htimely : s.Timely .drain) (hdrain : s.drain backend = some t) : s.Moves runs .drain t := by
  unfold SessionDriver.drain at hdrain
  unfold SessionDriver.Timely at htimely
  split at hdrain
  · rename_i hfree hqueue
    cases hdrain
    simp only [hqueue] at htimely
    have hnone : ¬ runs s.backend := by
      cases hstate : s.state with
      | STOPPED => exact hkept.sound.stopped hstate
      | ERROR => exact hkept.sound.error hstate
      | STARTING => simp [hstate, transition_allowed, LEGAL] at htimely
      | RUNNING => simp [hstate, transition_allowed, LEGAL] at htimely
      | STOPPING => simp [hstate, transition_allowed, LEGAL] at htimely
    exact ⟨.of_starting rfl rfl hnone, .inr (.inl htimely)⟩
  · rename_i hfree hqueue
    cases hdrain
    simp only [hqueue] at htimely
    exact ⟨.of_stopping rfl rfl, .inr (.inl htimely)⟩
  · cases hdrain
    exact hkept.congr rfl rfl (hbackend.trade_keeps _ _) rfl
  · cases hdrain

theorem SessionDriver.finish_moves (hbackend : backend.Lifecycle runs) (hkept : s.Kept runs)
    (hfinish : s.finish backend = some t) : s.Moves runs .finish t := by
  -- A call that answers reaches its state, and one that raises is an error.
  have hclose : ∀ (ticket : Nat) (call : Result Bool × B) (reached : SessionState),
      transition_allowed s.state reached = true → transition_allowed s.state .ERROR = true →
      reached ≠ .STARTING ∧ reached ≠ .STOPPING →
      (call.1.toOption.isSome = true → (reached = .RUNNING ∧ runs call.2) ∨ (reached ≠ .RUNNING ∧ ¬ runs call.2)) →
      (call.1.toOption.isSome = false → ¬ runs call.2) →
      s.Moves runs .finish { s with
        applying := none
        forced := false
        backend := call.2
        state := if call.1.toOption.isSome then reached else .ERROR
        done := (ticket, call.1.map Bool.toNat) :: s.done } := by
    rintro ticket ⟨result, b⟩ reached hreached herror hresting hanswered hraised
    cases result with
    | error err =>
      exact ⟨.of_idle rfl ⟨SessionState.noConfusion, SessionState.noConfusion⟩
        (.of_none SessionState.noConfusion (hraised rfl)), .inr (.inl herror)⟩
    | ok answer =>
      obtain ⟨hrunning, hruns⟩ | ⟨hclosed, hnone⟩ := hanswered rfl
      · exact ⟨.of_idle rfl hresting (.of_running hrunning (.inl hruns)), .inr (.inl hreached)⟩
      · exact ⟨.of_idle rfl hresting (.of_none hclosed hnone), .inr (.inl hreached)⟩
  unfold SessionDriver.finish at hfinish
  dsimp only at hfinish
  split at hfinish
  · rename_i ticket kwargs happlying
    cases hfinish
    obtain ⟨hstate, hnone⟩ := hkept.starting ticket kwargs happlying
    exact hclose ticket _ .RUNNING (by rw [hstate]; rfl) (by rw [hstate]; rfl) (by decide)
      (fun hok => .inl ⟨rfl, hbackend.started kwargs s.backend hok⟩) (hbackend.start_failed kwargs s.backend hnone)
  · rename_i ticket happlying
    cases hfinish
    have hstate := hkept.stopping ticket happlying
    have hstopped := hbackend.stopped s.backend
    exact hclose ticket _ .STOPPED (by rw [hstate]; rfl) (by rw [hstate]; rfl) (by decide)
      (fun _ => .inr ⟨by decide, hstopped⟩) fun _ => hstopped
  · cases hfinish

theorem SessionDriver.advance_moves {step_size : Nat} (hbackend : backend.Lifecycle runs) (hkept : s.Kept runs)
    (hadvance : s.advance backend step_size = some t) : s.Moves runs .advance t := by
  unfold SessionDriver.advance at hadvance
  split at hadvance
  · cases hadvance
  · rename_i hfree
    split at hadvance
    · cases hadvance
      exact hkept.congr rfl rfl Iff.rfl rfl
    · rename_i hrunning
      have hstate : s.state = .RUNNING := not_not.mp hrunning
      have hidle : s.applying = none := by simpa using hfree
      have hstepped := hbackend.stepped step_size s.backend
      have hfailed := hbackend.step_failed step_size s.backend
      generalize backend.session_step step_size s.backend = answer at hadvance hstepped hfailed
      obtain ⟨result, b⟩ := answer
      cases result with
      | error err =>
        cases hadvance
        have hsound : SessionDriver.Sound runs { s with backend := b, state := .ERROR, forced := false } :=
          .of_none SessionState.noConfusion (hfailed rfl)
        exact ⟨.of_idle hidle ⟨SessionState.noConfusion, SessionState.noConfusion⟩ hsound,
          .inr (.inr (.inl ⟨rfl, hstate, rfl⟩))⟩
      | ok events =>
        cases hadvance
        have hsound : SessionDriver.Sound runs { s with backend := b } :=
          .of_running hstate ((hkept.sound.running hstate).imp_left fun hruns => hstepped hruns rfl)
        exact ⟨.of_idle hidle (hkept.idle hidle) hsound, .inl rfl⟩

theorem SessionDriver.step_moves {step_size : Nat} {turn : Turn K} (hbackend : backend.Lifecycle runs)
    (hkept : s.Kept runs) (htimely : s.Timely turn) (hstep : s.step backend step_size turn = some t) :
    s.Moves runs turn t := by
  cases turn with
  | arrive request =>
    cases hstep
    exact hkept.congr rfl rfl Iff.rfl rfl
  | resume i timeout => exact SessionDriver.resume_moves hkept htimely hstep
  | drain => exact SessionDriver.drain_moves hbackend hkept htimely hstep
  | finish => exact SessionDriver.finish_moves hbackend hkept hstep
  | advance => exact SessionDriver.advance_moves hbackend hkept hstep

end Turn

/-- Where every turn acts on a check that still holds, the state changes along
the edges but for failed steps and forced writes, and RUNNING means a session
that runs unless it was forced; STOPPED and ERROR mean none. -/
theorem driverMachine_sound {backend : SessionBackend B K} {runs : B → Prop} {step_size : Nat}
    (hbackend : backend.Lifecycle runs) {s : SessionDriver B K}
    (hreach : (driverMachine backend runs step_size).Reaches SessionDriver.Timely s) :
    s.Sound runs ∧ ∀ turn t, s.Timely turn → s.step backend step_size turn = some t →
      Changes turn s.state t.state := by
  have hkept : s.Kept runs := by
    refine hreach.invariant (I := SessionDriver.Kept runs) ?_ ?_
    · rintro s ⟨b, rfl, hnone⟩
      exact .of_idle rfl ⟨SessionState.noConfusion, SessionState.noConfusion⟩
        (.of_none SessionState.noConfusion hnone)
    · intro s turn t _ hkept htimely hstep
      exact (SessionDriver.step_moves hbackend hkept htimely hstep).kept
  exact ⟨hkept.sound, fun turn t htimely hstep => (SessionDriver.step_moves hbackend hkept htimely hstep).changes⟩

end app.engine
