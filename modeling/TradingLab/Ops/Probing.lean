import TradingLab.Core.Types
import TradingLab.Machine

namespace ptl.ops

/-! ### The breaker -/

inductive BreakerState where
  | Closed
  | Open
  | HalfOpen
  deriving DecidableEq, Repr

structure CircuitBreakerConfig where
  failure_threshold : Nat := 5
  rate_threshold : Rat := 1 / 2
  rate_minimum_samples : Nat := 20
  window : Nat := 100
  open_duration : Duration := 30 * 10 ^ 9
  probes_to_close : Nat := 3

/-- The window has the newest outcome last; `true` is a success. -/
structure CircuitBreaker where
  state : BreakerState := .Closed
  window : List Bool := []
  consecutive_failures : Nat := 0
  probe_successes : Nat := 0
  trips : Nat := 0
  opened_at : Timestamp := kNoTimestamp
  deriving DecidableEq

namespace CircuitBreaker

variable (config : CircuitBreakerConfig) (now : Timestamp)

/-- Whether an operation may proceed, and the breaker after the question. -/
def allow (b : CircuitBreaker) : Bool × CircuitBreaker :=
  match b.state with
  | .Closed => (true, b)
  | .Open =>
    if is_set b.opened_at ∧ is_set now ∧ now - b.opened_at ≥ config.open_duration then
      (true, { b with state := .HalfOpen, probe_successes := 0 })
    else (false, b)
  | .HalfOpen => (true, b)

/-- The window after one more outcome. -/
def pushed (window : List Bool) (success : Bool) : List Bool :=
  let window := window ++ [success]
  if window.length > config.window then window.drop 1 else window

def record_success (b : CircuitBreaker) : CircuitBreaker :=
  let b := { b with consecutive_failures := 0, window := pushed config b.window true }
  if b.state = .HalfOpen then
    let b := { b with probe_successes := b.probe_successes + 1 }
    if b.probe_successes ≥ config.probes_to_close then
      { b with state := .Closed, window := [], probe_successes := 0 }
    else b
  else b

def trip (b : CircuitBreaker) : CircuitBreaker :=
  { b with state := .Open, opened_at := now, trips := b.trips + 1, probe_successes := 0 }

def failure_rate (b : CircuitBreaker) : Rat :=
  if b.window.isEmpty then 0 else b.window.count false / b.window.length

def record_failure (b : CircuitBreaker) : CircuitBreaker :=
  let b := { b with
    consecutive_failures := b.consecutive_failures + 1
    window := pushed config b.window false }
  if b.state = .HalfOpen then b.trip now
  else if b.state ≠ .Closed then b
  else if b.consecutive_failures ≥ config.failure_threshold then b.trip now
  else if b.window.length ≥ config.rate_minimum_samples ∧ b.failure_rate ≥ config.rate_threshold then b.trip now
  else b

/-! What each call can do. -/

theorem allow_cases (b : CircuitBreaker) :
    (b.state ≠ .Open ∧ b.allow config now = (true, b)) ∨
      (b.state = .Open ∧ b.allow config now = (false, b)) ∨
      (b.state = .Open ∧ config.open_duration ≤ now - b.opened_at ∧
        b.allow config now = (true, { b with state := .HalfOpen, probe_successes := 0 })) := by
  unfold allow
  cases hstate : b.state with
  | Closed => exact .inl ⟨by decide, rfl⟩
  | HalfOpen => exact .inl ⟨by decide, rfl⟩
  | Open =>
    by_cases helapsed : is_set b.opened_at ∧ is_set now ∧ now - b.opened_at ≥ config.open_duration
    · exact .inr (.inr ⟨rfl, helapsed.2.2, if_pos helapsed⟩)
    · exact .inr (.inl ⟨rfl, if_neg helapsed⟩)

theorem record_success_cases (b : CircuitBreaker) :
    (b.record_success config).opened_at = b.opened_at ∧ (b.record_success config).trips = b.trips ∧
      ((b.state = .HalfOpen ∧ (b.record_success config).state = .Closed ∧
          config.probes_to_close ≤ b.probe_successes + 1) ∨
        ((b.record_success config).state = b.state ∧
          (b.record_success config).probe_successes ≤ b.probe_successes + 1)) := by
  unfold record_success
  by_cases hstate : b.state = .HalfOpen
  · by_cases hprobes : b.probe_successes + 1 ≥ config.probes_to_close
    · simp [hstate, hprobes]
    · simp [hstate, hprobes]
  · simp [hstate]

/-- A failure trips the breaker, or leaves its state alone; a probing breaker is
tripped. -/
theorem record_failure_cases (b : CircuitBreaker) :
    (b.state ≠ .Open ∧ (b.record_failure config now).state = .Open ∧
        (b.record_failure config now).opened_at = now ∧ (b.record_failure config now).trips = b.trips + 1) ∨
      (b.state ≠ .HalfOpen ∧ (b.record_failure config now).state = b.state ∧
        (b.record_failure config now).opened_at = b.opened_at ∧
        (b.record_failure config now).trips = b.trips) := by
  simp only [record_failure]
  split
  · rename_i hstate
    exact .inl ⟨by rw [hstate]; decide, rfl, rfl, rfl⟩
  rename_i hprobing
  split
  · exact .inr ⟨hprobing, rfl, rfl, rfl⟩
  rename_i hclosed
  have hopen : b.state ≠ .Open := by
    rw [not_not.mp hclosed]
    decide
  split
  · exact .inl ⟨hopen, rfl, rfl, rfl⟩
  split
  · exact .inl ⟨hopen, rfl, rfl, rfl⟩
  · exact .inr ⟨hprobing, rfl, rfl, rfl⟩

end CircuitBreaker

/-! ### The breaker over its calls -/

inductive Operation where
  | allow
  | record_success
  | record_failure
  deriving DecidableEq

structure BreakerCall where
  now : Timestamp
  operation : Operation

/-- Whether a call was granted, and the breaker after it. An outcome is not
granted anything. -/
def BreakerCall.run (config : CircuitBreakerConfig) (b : CircuitBreaker) (call : BreakerCall) :
    Bool × CircuitBreaker :=
  match call.operation with
  | .allow => b.allow config call.now
  | .record_success => (false, b.record_success config)
  | .record_failure => (false, b.record_failure config call.now)

/-- A breaker with what an observer of its calls keeps: the time of the last
call and of the latest trip, the grants without an outcome, and the outcomes
since the breaker last left `Open`. -/
structure Watched where
  breaker : CircuitBreaker := {}
  clock : Option Timestamp := none
  latest_trip : Option Timestamp := none
  outstanding : Nat := 0
  successes : Nat := 0
  failures : Nat := 0

/-- The outcomes since `Open` was left, after a call. -/
def counted (before after : BreakerState) (counts : Bool) (count : Nat) : Nat :=
  if before = .Open ∧ after ≠ .Open then 0 else if counts then count + 1 else count

def Watched.next (config : CircuitBreakerConfig) (w : Watched) (call : BreakerCall) : Watched :=
  let granted := (call.run config w.breaker).1
  let after := (call.run config w.breaker).2
  { breaker := after
    clock := some call.now
    latest_trip := if after.trips > w.breaker.trips then some call.now else w.latest_trip
    outstanding :=
      if call.operation = .allow then if granted then w.outstanding + 1 else w.outstanding
      else w.outstanding - 1
    successes := counted w.breaker.state after.state (call.operation = .record_success) w.successes
    failures := counted w.breaker.state after.state (call.operation = .record_failure) w.failures }

/-- A new breaker, and then any calls while the clock is set and not turned back. -/
def breakerMachine (config : CircuitBreakerConfig) : Machine Watched BreakerCall where
  Init := fun w => w = {}
  step := fun w call =>
    if is_set call.now ∧ w.clock.all (· ≤ call.now) then some (w.next config call) else none

/-- No grant before the open period has passed since the latest trip. -/
def Watched.Rested (config : CircuitBreakerConfig) (w : Watched) : Prop :=
  ∀ call w', (breakerMachine config).step w call = some w' → (call.run config w.breaker).1 = true →
    ∀ tripped, w.latest_trip = some tripped → tripped + config.open_duration ≤ call.now

/-- At most one probe at a time. -/
def Watched.Single (w : Watched) : Prop :=
  w.breaker.state = .HalfOpen → w.outstanding ≤ 1

/-- The breaker closes only after enough successes, and no failure, since it
left `Open`. -/
def Watched.Earned (config : CircuitBreakerConfig) (w : Watched) : Prop :=
  ∀ call w', (breakerMachine config).step w call = some w' → w.breaker.state ≠ .Closed →
    w'.breaker.state = .Closed → config.probes_to_close ≤ w'.successes ∧ w'.failures = 0

/-- A grant while the breaker is not closed finds no other grant outstanding. -/
def Alone (config : CircuitBreakerConfig) (w : Watched) (call : BreakerCall) : Prop :=
  w.breaker.state ≠ .Closed → (call.run config w.breaker).1 = true → w.outstanding = 0

variable {config : CircuitBreakerConfig}

/-! ### What the observer knows of the breaker -/

structure Watched.Tracked (config : CircuitBreakerConfig) (w : Watched) : Prop where
  opened : ∀ tripped, w.latest_trip = some tripped → w.breaker.opened_at = tripped
  waited : ∀ tripped, w.latest_trip = some tripped → w.breaker.state ≠ .Open →
    ∃ last, w.clock = some last ∧ tripped + config.open_duration ≤ last
  probing : w.breaker.state = .HalfOpen → w.breaker.probe_successes ≤ w.successes ∧ w.failures = 0

theorem breakerMachine_step {w w' : Watched} {call : BreakerCall}
    (hstep : (breakerMachine config).step w call = some w') :
    (∀ last, w.clock = some last → last ≤ call.now) ∧ w' = w.next config call := by
  simp only [breakerMachine] at hstep
  split at hstep
  · rename_i hclock
    refine ⟨fun last hlast => ?_, (Option.some.inj hstep).symm⟩
    have hle := hclock.2
    rw [hlast, Option.all_some] at hle
    exact of_decide_eq_true hle
  · cases hstep

section Step

variable {w : Watched} (now : Timestamp)

/-- What an observer has after a call that trips nothing and does not leave
`Open`. -/
theorem Watched.next_same (operation : Operation)
    (htrips : (BreakerCall.run config w.breaker ⟨now, operation⟩).2.trips = w.breaker.trips)
    (hstays : w.breaker.state = .Open → (BreakerCall.run config w.breaker ⟨now, operation⟩).2.state = .Open) :
    (w.next config ⟨now, operation⟩).latest_trip = w.latest_trip ∧
      (w.next config ⟨now, operation⟩).successes =
        (if operation = .record_success then w.successes + 1 else w.successes) ∧
      (w.next config ⟨now, operation⟩).failures =
        (if operation = .record_failure then w.failures + 1 else w.failures) := by
  have hleft : ¬ (w.breaker.state = .Open ∧ (BreakerCall.run config w.breaker ⟨now, operation⟩).2.state ≠ .Open) :=
    fun h => h.2 (hstays h.1)
  simp only [Watched.next, counted, if_neg hleft, htrips, lt_irrefl, if_false, decide_eq_true_eq, and_self]

/-- The clock moves on while the breaker is not tripped again. -/
theorem Watched.Tracked.later (htracked : w.Tracked config) (hclock : ∀ last, w.clock = some last → last ≤ now)
    {tripped : Timestamp} (hlatest : w.latest_trip = some tripped) (hstate : w.breaker.state ≠ .Open) :
    tripped + config.open_duration ≤ now := by
  obtain ⟨last, hlast, hle⟩ := htracked.waited tripped hlatest hstate
  exact hle.trans (hclock last hlast)

theorem Watched.Tracked.allow (htracked : w.Tracked config) (hclock : ∀ last, w.clock = some last → last ≤ now) :
    (w.next config ⟨now, .allow⟩).Tracked config := by
  have hrun : BreakerCall.run config w.breaker ⟨now, .allow⟩ = w.breaker.allow config now := rfl
  obtain ⟨hopen, hallow⟩ | ⟨hopen, hallow⟩ | ⟨hopen, helapsed, hallow⟩ := w.breaker.allow_cases config now
  · obtain ⟨hlatest, hsuccesses, hfailures⟩ := w.next_same now .allow
      (by rw [hrun, hallow]) (fun h => absurd h hopen)
    have hbreaker : (w.next config ⟨now, .allow⟩).breaker = w.breaker := congrArg Prod.snd hallow
    refine ⟨?_, ?_, ?_⟩
    · rw [hlatest, hbreaker]
      exact htracked.opened
    · rw [hlatest]
      exact fun tripped htripped _ => ⟨now, rfl, htracked.later now hclock htripped hopen⟩
    · rw [hbreaker, hsuccesses, hfailures]
      exact htracked.probing
  · obtain ⟨hlatest, _, _⟩ := w.next_same now .allow
      (by rw [hrun, hallow]) (fun h => by rw [hrun, hallow]; exact h)
    have hbreaker : (w.next config ⟨now, .allow⟩).breaker = w.breaker := congrArg Prod.snd hallow
    refine ⟨?_, ?_, ?_⟩
    · rw [hlatest, hbreaker]
      exact htracked.opened
    · rw [hbreaker]
      exact fun _ _ hnot => absurd hopen hnot
    · rw [hbreaker, hopen]
      exact fun h => by cases h
  · have hbreaker : (w.next config ⟨now, .allow⟩).breaker =
        { w.breaker with state := .HalfOpen, probe_successes := 0 } := congrArg Prod.snd hallow
    have hlatest : (w.next config ⟨now, .allow⟩).latest_trip = w.latest_trip := by
      simp only [next, hrun, hallow, gt_iff_lt, lt_irrefl, if_false]
    refine ⟨?_, ?_, fun _ => ?_⟩
    · rw [hlatest, hbreaker]
      exact htracked.opened
    · rw [hlatest]
      intro tripped htripped _
      rw [htracked.opened tripped htripped] at helapsed
      exact ⟨now, rfl, le_sub_iff_add_le'.mp helapsed⟩
    · rw [hbreaker]
      refine ⟨Nat.zero_le _, ?_⟩
      simp [next, hrun, hallow, counted, hopen]

theorem Watched.Tracked.success (htracked : w.Tracked config) (hclock : ∀ last, w.clock = some last → last ≤ now) :
    (w.next config ⟨now, .record_success⟩).Tracked config := by
  obtain ⟨hopened, htrips, hcases⟩ := w.breaker.record_success_cases config
  have hstays : w.breaker.state = .Open → (w.breaker.record_success config).state = .Open := by
    intro hopen
    obtain ⟨hprobing, _⟩ | ⟨hsame, _⟩ := hcases
    · exact absurd (hopen.symm.trans hprobing) (by decide)
    · exact hsame.trans hopen
  obtain ⟨hlatest, hsuccesses, hfailures⟩ := w.next_same now .record_success htrips hstays
  have hbreaker : (w.next config ⟨now, .record_success⟩).breaker = w.breaker.record_success config := rfl
  refine ⟨?_, ?_, ?_⟩
  · rw [hlatest, hbreaker, hopened]
    exact htracked.opened
  · rw [hlatest, hbreaker]
    intro tripped htripped hnot
    exact ⟨now, rfl, htracked.later now hclock htripped fun hopen => hnot (hstays hopen)⟩
  · rw [hbreaker, hsuccesses, hfailures]
    intro hprobing
    obtain ⟨_, hclosed, _⟩ | ⟨hsame, hprobes⟩ := hcases
    · exact absurd (hclosed.symm.trans hprobing) (by decide)
    · obtain ⟨hle, hnone⟩ := htracked.probing (hsame.symm.trans hprobing)
      exact ⟨hprobes.trans (Nat.succ_le_succ hle), hnone⟩

theorem Watched.Tracked.failure (htracked : w.Tracked config) (hclock : ∀ last, w.clock = some last → last ≤ now) :
    (w.next config ⟨now, .record_failure⟩).Tracked config := by
  have hbreaker : (w.next config ⟨now, .record_failure⟩).breaker = w.breaker.record_failure config now := rfl
  obtain ⟨_, hopen, hopened, htrips⟩ | ⟨hprobing, hsame, hopened, htrips⟩ :=
    w.breaker.record_failure_cases config now
  · have hlatest : (w.next config ⟨now, .record_failure⟩).latest_trip = some now := by
      have hmore : (w.breaker.record_failure config now).trips > w.breaker.trips := by
        rw [htrips]
        exact Nat.lt_succ_self _
      exact if_pos hmore
    refine ⟨?_, ?_, ?_⟩
    · rw [hlatest, hbreaker, hopened]
      exact fun _ h => Option.some.inj h
    · rw [hbreaker, hopen]
      exact fun _ _ hnot => absurd rfl hnot
    · rw [hbreaker, hopen]
      exact fun h => by cases h
  · obtain ⟨hlatest, _, _⟩ := w.next_same now .record_failure htrips fun h => hsame.trans h
    refine ⟨?_, ?_, ?_⟩
    · rw [hlatest, hbreaker, hopened]
      exact htracked.opened
    · rw [hlatest, hbreaker, hsame]
      exact fun tripped htripped hnot => ⟨now, rfl, htracked.later now hclock htripped hnot⟩
    · rw [hbreaker, hsame]
      exact fun h => absurd h hprobing

end Step

theorem Watched.Tracked.step {w w' : Watched} {call : BreakerCall} (htracked : w.Tracked config)
    (hstep : (breakerMachine config).step w call = some w') : w'.Tracked config := by
  obtain ⟨hclock, rfl⟩ := breakerMachine_step hstep
  obtain ⟨now, operation⟩ := call
  cases operation with
  | allow => exact htracked.allow now hclock
  | record_success => exact htracked.success now hclock
  | record_failure => exact htracked.failure now hclock

theorem Watched.tracked_of_reachable {w : Watched} (hreach : (breakerMachine config).Reachable w) :
    w.Tracked config := by
  refine hreach.invariant ?_ fun _ _ _ _ htracked _ hstep => htracked.step hstep
  rintro w rfl
  refine ⟨fun _ h => ?_, fun _ h => ?_, fun h => ?_⟩ <;> cases h

/-! ### The three guarantees -/

theorem Watched.Tracked.rested {w : Watched} (htracked : w.Tracked config) : w.Rested config := by
  rintro ⟨now, operation⟩ w' hstep hgranted tripped htripped
  obtain ⟨hclock, rfl⟩ := breakerMachine_step hstep
  cases operation with
  | record_success => cases hgranted
  | record_failure => cases hgranted
  | allow =>
    obtain ⟨hopen, _⟩ | ⟨_, hallow⟩ | ⟨_, helapsed, _⟩ := w.breaker.allow_cases config now
    · exact htracked.later now hclock htripped hopen
    · exact absurd ((congrArg Prod.fst hallow).symm.trans hgranted) Bool.false_ne_true
    · rw [htracked.opened tripped htripped] at helapsed
      exact le_sub_iff_add_le'.mp helapsed

theorem Watched.Tracked.earned {w : Watched} (htracked : w.Tracked config) : w.Earned config := by
  rintro ⟨now, operation⟩ w' hstep hnot hclosed
  obtain ⟨_, rfl⟩ := breakerMachine_step hstep
  cases operation with
  | allow =>
    have hbreaker : (w.next config ⟨now, .allow⟩).breaker = (w.breaker.allow config now).2 := rfl
    rw [hbreaker] at hclosed
    obtain ⟨_, hallow⟩ | ⟨_, hallow⟩ | ⟨_, _, hallow⟩ := w.breaker.allow_cases config now
    · exact absurd (by rwa [hallow] at hclosed) hnot
    · exact absurd (by rwa [hallow] at hclosed) hnot
    · rw [hallow] at hclosed
      cases hclosed
  | record_failure =>
    obtain ⟨_, hopen, _⟩ | ⟨_, hsame, _⟩ := w.breaker.record_failure_cases config now
    · exact absurd (hopen.symm.trans hclosed) (by decide)
    · exact absurd (hsame.symm.trans hclosed) hnot
  | record_success =>
    obtain ⟨_, htrips, ⟨hprobing, _, hprobes⟩ | ⟨hsame, _⟩⟩ := w.breaker.record_success_cases config
    · have hstays : w.breaker.state = .Open → (w.breaker.record_success config).state = .Open := by
        rw [hprobing]
        exact fun h => by cases h
      obtain ⟨_, hsuccesses, hfailures⟩ := w.next_same now .record_success htrips hstays
      obtain ⟨hle, hnone⟩ := htracked.probing hprobing
      rw [hsuccesses, hfailures]
      exact ⟨hprobes.trans (Nat.succ_le_succ hle), hnone⟩
    · exact absurd (hsame.symm.trans hclosed) hnot

/-- A call that keeps probes alone leaves at most one outstanding. -/
theorem Watched.Single.step {w w' : Watched} {call : BreakerCall} (hsingle : w.Single) (halone : Alone config w call)
    (hstep : (breakerMachine config).step w call = some w') : w'.Single := by
  obtain ⟨_, rfl⟩ := breakerMachine_step hstep
  obtain ⟨now, operation⟩ := call
  intro hprobing
  cases operation with
  | allow =>
    have hbreaker : (w.next config ⟨now, .allow⟩).breaker = (w.breaker.allow config now).2 := rfl
    have houtstanding : (w.next config ⟨now, .allow⟩).outstanding =
        if (w.breaker.allow config now).1 then w.outstanding + 1 else w.outstanding := rfl
    rw [hbreaker] at hprobing
    rw [houtstanding]
    by_cases hgranted : (w.breaker.allow config now).1 = true
    · have hclosed : w.breaker.state ≠ .Closed := by
        intro hclosed
        have hsame : w.breaker.allow config now = (true, w.breaker) := by rw [CircuitBreaker.allow, hclosed]
        rw [hsame, hclosed] at hprobing
        cases hprobing
      rw [if_pos hgranted, halone hclosed hgranted]
    · rw [if_neg hgranted]
      refine hsingle ?_
      obtain ⟨_, hallow⟩ | ⟨_, hallow⟩ | ⟨_, _, hallow⟩ := w.breaker.allow_cases config now
      · rwa [hallow] at hprobing
      · rwa [hallow] at hprobing
      · exact absurd (congrArg Prod.fst hallow) hgranted
  | record_success =>
    obtain ⟨_, _, ⟨_, hclosed, _⟩ | ⟨hsame, _⟩⟩ := w.breaker.record_success_cases config
    · exact absurd (hclosed.symm.trans hprobing) (by decide)
    · exact (Nat.sub_le _ _).trans (hsingle (hsame.symm.trans hprobing))
  | record_failure =>
    obtain ⟨_, hopen, _⟩ | ⟨_, hsame, _⟩ := w.breaker.record_failure_cases config now
    · exact absurd (hopen.symm.trans hprobing) (by decide)
    · exact (Nat.sub_le _ _).trans (hsingle (hsame.symm.trans hprobing))

/-- A grant next to another one leaves two probes outstanding. -/
theorem Watched.not_single_of_not_alone {w w' : Watched} {call : BreakerCall} (hnot : ¬ Alone config w call)
    (hstep : (breakerMachine config).step w call = some w') : ¬ w'.Single := by
  obtain ⟨_, rfl⟩ := breakerMachine_step hstep
  obtain ⟨now, operation⟩ := call
  simp only [Alone, Classical.not_imp] at hnot
  obtain ⟨hclosed, hgranted, hsome⟩ := hnot
  cases operation with
  | record_success => cases hgranted
  | record_failure => cases hgranted
  | allow =>
    have hbreaker : (w.next config ⟨now, .allow⟩).breaker = (w.breaker.allow config now).2 := rfl
    have houtstanding : (w.next config ⟨now, .allow⟩).outstanding = w.outstanding + 1 := if_pos hgranted
    intro hsingle
    have hprobing : (w.next config ⟨now, .allow⟩).breaker.state = .HalfOpen := by
      rw [hbreaker]
      obtain ⟨hopen, hallow⟩ | ⟨_, hallow⟩ | ⟨_, _, hallow⟩ := w.breaker.allow_cases config now
      · rw [hallow]
        cases hstate : w.breaker.state with
        | Closed => exact absurd hstate hclosed
        | Open => exact absurd hstate hopen
        | HalfOpen => rfl
      · exact absurd ((congrArg Prod.fst hallow).symm.trans hgranted) Bool.false_ne_true
      · rw [hallow]
    have hle := hsingle hprobing
    omega

/-- In every run nothing is granted before the open period has passed, and the
breaker closes only after its successes. It probes one at a time as long as no
call is granted next to another one, and no longer. -/
theorem breakerMachine_safe (config : CircuitBreakerConfig) :
    (∀ w, (breakerMachine config).Reachable w → w.Rested config ∧ w.Earned config) ∧
      (∀ w, (breakerMachine config).Reaches (Alone config) w → w.Single) ∧
      ∀ w, (breakerMachine config).Reachable w → ∀ call w', (breakerMachine config).step w call = some w' →
        ¬ Alone config w call → ¬ w'.Single := by
  refine ⟨fun w hreach => ?_, fun w hreach => ?_, fun w _ call w' hstep hnot =>
    w.not_single_of_not_alone hnot hstep⟩
  · have htracked := Watched.tracked_of_reachable hreach
    exact ⟨htracked.rested, htracked.earned⟩
  · refine hreach.invariant ?_ fun _ _ _ _ hsingle halone hstep => hsingle.step halone hstep
    rintro w rfl
    exact fun h => by cases h

/-- Five failures trip the breaker, and half a minute later two calls are
granted before either has an outcome. -/
theorem breakerMachine_unsafe : ¬ ∀ (config : CircuitBreakerConfig) (w : Watched),
    (breakerMachine config).Reachable w → w.Rested config ∧ w.Single ∧ w.Earned config := by
  intro hsafe
  let calls : List BreakerCall :=
    List.replicate 5 ⟨0, .record_failure⟩ ++ List.replicate 2 ⟨30 * 10 ^ 9, .allow⟩
  obtain ⟨w, hreach, hw⟩ := Machine.Reaches.exec_map (M := breakerMachine {}) (G := fun _ _ => True)
    (.init rfl) calls (fun w => (w.breaker.state, w.outstanding)) (b := (.HalfOpen, 2))
    (Machine.along_of_forall (fun _ _ => trivial) _ _) (by decide +kernel)
  obtain ⟨hstate, houtstanding⟩ := Prod.mk.inj hw
  have hle := (hsafe {} w hreach).2.1 hstate
  rw [houtstanding] at hle
  exact absurd hle (by decide)

end ptl.ops
