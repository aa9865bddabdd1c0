import Mathlib.Data.List.Basic
import TradingLab.Core.Types

namespace ptl.ops

inductive ServiceState where
  | Stopped
  | Starting
  | Running
  | Draining
  | Stopping
  | Failed
  deriving DecidableEq, Repr

def ServiceState.to_string : ServiceState → String
  | .Stopped => "stopped"
  | .Starting => "starting"
  | .Running => "running"
  | .Draining => "draining"
  | .Stopping => "stopping"
  | .Failed => "failed"

structure SupervisorConfig where
  drain_timeout : Duration := 30 * 10 ^ 9
  auto_restart : Bool := true
  max_restarts : Nat := 3
  restart_window : Duration := 600 * 10 ^ 9
  deriving DecidableEq, Repr

structure ServiceSupervisor where
  state : ServiceState := .Stopped
  reason : String := ""
  restarts : List Timestamp := []
  drain_began : Timestamp := kNoTimestamp
  deriving DecidableEq, Repr

namespace ServiceSupervisor

variable (config : SupervisorConfig) (now : Timestamp) (s : ServiceSupervisor)

def start : Result Unit × ServiceSupervisor :=
  if s.state = .Running then (.ok (), s)
  else if s.state = .Draining ∨ s.state = .Stopping then
    (.error (bad "cannot start while shutting down; wait for the drain to complete"), s)
  else (.ok (), { s with state := .Running, reason := "" })

def begin_drain (reason : String) : Result Unit × ServiceSupervisor :=
  if s.state ≠ .Running then
    (.error (bad ("only a running service can drain; this one is " ++ s.state.to_string)), s)
  else (.ok (), { s with state := .Draining, reason, drain_began := now })

/-- The timeout is a backstop. -/
def drain_complete (in_flight : Nat) : Bool :=
  if s.state ≠ .Draining then true
  else if in_flight = 0 then true
  else if ¬ is_set s.drain_began ∨ ¬ is_set now then false
  else now - s.drain_began ≥ config.drain_timeout

def stop : ServiceSupervisor := if s.state = .Stopped then s else { s with state := .Stopped }

/-- Restarts are counted over a window. -/
def prune_restarts : ServiceSupervisor :=
  if ¬ is_set now then s
  else { s with restarts := s.restarts.filter fun t => ¬ t < now - config.restart_window }

def record_failure (reason : String) : ServiceSupervisor :=
  prune_restarts config now { s with state := .Failed, reason, restarts := s.restarts ++ [now] }

def should_restart : Bool := config.auto_restart ∧ s.state = .Failed ∧ s.restarts.length ≤ config.max_restarts

end ServiceSupervisor

/-- What may be asked of a supervisor. -/
inductive Call where
  | start
  | begin_drain (reason : String)
  | stop
  | record_failure (reason : String)
  deriving DecidableEq, Repr

def Call.fails : Call → Bool
  | .record_failure _ => true
  | _ => false

/-- A call ends a drain. -/
def Call.ends : Call → Bool
  | .stop | .record_failure _ => true
  | _ => false

namespace ServiceSupervisor

variable (config : SupervisorConfig)

def call (s : ServiceSupervisor) (x : Timestamp × Call) : ServiceSupervisor :=
  match x.2 with
  | .start => s.start.2
  | .begin_drain reason => (s.begin_drain x.1 reason).2
  | .stop => s.stop
  | .record_failure reason => s.record_failure config x.1 reason

def run (s : ServiceSupervisor) (calls : List (Timestamp × Call)) : ServiceSupervisor := calls.foldl (call config) s

/-- The times of the failures after which a restart was called for. -/
def permitted : ServiceSupervisor → List (Timestamp × Call) → List Timestamp
  | _, [] => []
  | s, x :: rest =>
    (if x.2.fails ∧ (s.call config x).should_restart config then [x.1] else []) ++ permitted (s.call config x) rest

end ServiceSupervisor

open ServiceSupervisor

def failures (calls : List (Timestamp × Call)) : List Timestamp := (calls.filter fun x => x.2.fails).map Prod.fst

/-- The times in the window that ends now. -/
def recent (config : SupervisorConfig) (now : Timestamp) (times : List Timestamp) : List Timestamp :=
  times.filter fun t => now - config.restart_window ≤ t

/-- The times in the window that begins with one. -/
def within (config : SupervisorConfig) (first : Timestamp) (times : List Timestamp) : List Timestamp :=
  times.filter fun t => first ≤ t ∧ t ≤ first + config.restart_window

/-! ### The window of restarts -/

section Window

variable {config : SupervisorConfig} {s : ServiceSupervisor} {failed allowed : List Timestamp} {now : Timestamp}

/-- A later window holds nothing that an earlier one does not. -/
theorem recent_recent {times : List Timestamp} {later : Timestamp} (hle : now ≤ later) :
    recent config later (recent config now times) = recent config later times := by
  rw [recent, recent, recent, List.filter_filter]
  refine List.filter_congr fun t _ => ?_
  by_cases hin : later - config.restart_window ≤ t
  · have hin' : now - config.restart_window ≤ t := (sub_le_sub_right hle _).trans hin
    simp [hin, hin']
  · simp [hin]

/-- What counts is what failed within the window, and no window holds too many failures
after which a restart was called for. -/
structure Budgeted (config : SupervisorConfig) (failed allowed : List Timestamp) (s : ServiceSupervisor) : Prop where
  counted : ∀ now, (∀ t ∈ failed, t ≤ now) → recent config now s.restarts = recent config now failed
  sublist : allowed.Sublist failed
  budget : ∀ first, (within config first allowed).length ≤ config.max_restarts

theorem Budgeted.fresh : Budgeted config [] [] {} where
  counted := fun _ _ => rfl
  sublist := .refl _
  budget := fun _ => Nat.zero_le _

theorem restarts_of_failure (h : Budgeted config failed allowed s) (hset : is_set now = true)
    (hlast : ∀ t ∈ failed, t ≤ now) (reason : String) :
    (s.record_failure config now reason).restarts = recent config now (failed ++ [now]) := by
  have hpruned : (s.record_failure config now reason).restarts = recent config now (s.restarts ++ [now]) := by
    simp only [record_failure, prune_restarts, hset, not_true_eq_false, if_false,
      recent, not_lt]
  rw [hpruned]
  simp only [recent, List.filter_append]
  exact congrArg (· ++ _) (h.counted now hlast)

theorem should_restart_of_failure (h : Budgeted config failed allowed s) (hset : is_set now = true)
    (hlast : ∀ t ∈ failed, t ≤ now) (reason : String) :
    (s.record_failure config now reason).should_restart config = true ↔
      config.auto_restart = true ∧ (recent config now (failed ++ [now])).length ≤ config.max_restarts := by
  have hstate : (s.record_failure config now reason).state = .Failed := by
    unfold record_failure prune_restarts
    split <;> rfl
  rw [should_restart, restarts_of_failure h hset hlast, hstate, decide_eq_true_iff]
  exact and_congr_right fun _ => and_iff_right rfl

/-- One call keeps to the budget. -/
theorem Budgeted.call (h : Budgeted config failed allowed s) {x : Timestamp × Call} (hset : is_set x.1 = true)
    (hlast : ∀ t ∈ failed, t ≤ x.1) :
    Budgeted config (failed ++ failures [x])
      (allowed ++ if x.2.fails ∧ (s.call config x).should_restart config then [x.1] else []) (s.call config x) := by
  obtain ⟨now, c⟩ := x
  have hquiet : ∀ {s' : ServiceSupervisor}, s'.restarts = s.restarts → Budgeted config failed allowed s' :=
    fun hsame => ⟨hsame ▸ h.counted, h.sublist, h.budget⟩
  cases c with
  | start =>
    simpa [failures, Call.fails] using hquiet (by
      unfold ServiceSupervisor.call start
      dsimp only
      split_ifs <;> rfl)
  | begin_drain reason =>
    simpa [failures, Call.fails] using hquiet (by
      unfold ServiceSupervisor.call begin_drain
      dsimp only
      split_ifs <;> rfl)
  | stop =>
    simpa [failures, Call.fails] using hquiet (by
      unfold ServiceSupervisor.call stop
      dsimp only
      split_ifs <;> rfl)
  | record_failure reason =>
    have hrestarts := restarts_of_failure h hset hlast reason
    have hverdict := should_restart_of_failure h hset hlast reason
    show Budgeted config (failed ++ [now]) (allowed ++ if _ ∧ _ then [now] else []) (s.record_failure config now reason)
    refine ⟨fun later hlater => ?_, ?_, fun first => ?_⟩
    · rw [hrestarts, recent_recent (hlater now (by simp))]
    · refine h.sublist.append ?_
      split
      · exact .refl _
      · exact List.nil_sublist _
    · by_cases hfails : (s.record_failure config now reason).should_restart config = true
      · rw [if_pos ⟨rfl, hfails⟩]
        by_cases hin : first ≤ now ∧ now ≤ first + config.restart_window
        · -- All that is in the window is recent now.
          refine le_trans ?_ (hverdict.mp hfails).2
          refine List.Sublist.length_le ?_
          refine List.Sublist.trans ?_ ((h.sublist.append_right [now]).filter _)
          rw [within]
          refine List.monotone_filter_right _ fun t ht => ?_
          simp only [decide_eq_true_eq] at ht ⊢
          exact (sub_le_iff_le_add.mpr hin.2).trans ht.1
        · rw [within, List.filter_append, List.filter_cons_of_neg (by simpa using hin), List.filter_nil,
            List.append_nil]
          exact h.budget first
      · rw [if_neg fun hboth => hfails hboth.2, List.append_nil]
        exact h.budget first

/-- A run keeps to the budget. -/
theorem Budgeted.run (h : Budgeted config failed allowed s) {calls : List (Timestamp × Call)}
    (hset : ∀ x ∈ calls, is_set x.1 = true) (hlast : ∀ x ∈ calls, ∀ t ∈ failed, t ≤ x.1)
    (hchron : calls.Pairwise fun x y => x.1 ≤ y.1) :
    Budgeted config (failed ++ failures calls) (allowed ++ s.permitted config calls) (s.run config calls) := by
  induction calls generalizing s failed allowed with
  | nil => simpa [failures, permitted, run] using h
  | cons x rest ih =>
    obtain ⟨hfirst, hrest⟩ := List.pairwise_cons.mp hchron
    have hnext := h.call (hset x List.mem_cons_self) (hlast x List.mem_cons_self)
    have hlater : ∀ y ∈ rest, ∀ t ∈ failed ++ failures [x], t ≤ y.1 := by
      intro y hy t ht
      rcases List.mem_append.mp ht with ht | ht
      · exact hlast y (List.mem_cons_of_mem _ hy) t ht
      · obtain ⟨z, hz, rfl⟩ := List.mem_map.mp ht
        obtain rfl := List.mem_singleton.mp (List.mem_of_mem_filter hz)
        exact hfirst y hy
    have hrun := ih hnext (fun y hy => hset y (List.mem_cons_of_mem _ hy)) hlater hrest
    have hfailures : failures (x :: rest) = failures [x] ++ failures rest := by
      rw [failures, failures, failures, ← List.map_append, ← List.filter_append]
      rfl
    rw [hfailures, ← List.append_assoc, permitted, ← List.append_assoc]
    exact hrun

end Window

/-! ### The drain -/

section Drain

variable {config : SupervisorConfig}

/-- A drain that began stays what it is until a call ends it. -/
theorem run_drains {s : ServiceSupervisor} (hstate : s.state = .Draining) {calls : List (Timestamp × Call)}
    (hgoing : ∀ x ∈ calls, x.2.ends = false) : s.run config calls = s := by
  induction calls with
  | nil => rfl
  | cons x rest ih =>
    have hstill : s.call config x = s := by
      have hends := hgoing x List.mem_cons_self
      obtain ⟨now, c⟩ := x
      cases c with
      | start => simp [call, start, hstate]
      | begin_drain reason => simp [call, begin_drain, hstate]
      | stop => cases hends
      | record_failure reason => cases hends
    show (s.call config x).run config rest = s
    rw [hstill]
    exact ih fun y hy => hgoing y (List.mem_cons_of_mem _ hy)

end Drain

/-- With a clock that is set and never runs backwards: a restart is called for after a failure
exactly while no more failures than allowed lie in the window before it, so no window at all
holds more such failures than allowed. A drain refuses every start until it is stopped or
fails, and it is complete when nothing is in flight or its time is up. -/
theorem supervisor_sound (config : SupervisorConfig) (calls : List (Timestamp × Call))
    (hset : ∀ x ∈ calls, is_set x.1 = true) (hchron : calls.Pairwise fun x y => x.1 ≤ y.1) :
    (∀ before now reason, before ++ [(now, .record_failure reason)] <+: calls →
      ((run config {} (before ++ [(now, .record_failure reason)])).should_restart config = true ↔
        config.auto_restart = true ∧ (recent config now (failures before ++ [now])).length ≤ config.max_restarts)) ∧
    (∀ first, (within config first (permitted config {} calls)).length ≤ config.max_restarts) ∧
    ∀ before began reason draining, before ++ (began, .begin_drain reason) :: draining <+: calls →
      (run config {} before).state = .Running → (∀ x ∈ draining, x.2.ends = false) →
        let s := run config {} (before ++ (began, .begin_drain reason) :: draining)
        s.state = .Draining ∧ (∃ err, s.start = (.error err, s)) ∧
          ∀ now in_flight, is_set now = true →
            (s.drain_complete config now in_flight = true ↔ in_flight = 0 ∨ config.drain_timeout ≤ now - began) := by
  refine ⟨fun before now reason hearlier => ?_, fun first => ?_, fun before began reason draining hearlier => ?_⟩
  · have hmem : ∀ x ∈ before ++ [(now, Call.record_failure reason)], is_set x.1 = true :=
      fun x hx => hset x (hearlier.subset hx)
    have hpairs := List.pairwise_append.mp (hchron.sublist hearlier.sublist)
    have hbudget : Budgeted config (failures before) _ _ :=
      Budgeted.fresh.run (fun x hx => hmem x (List.mem_append_left _ hx)) (fun _ _ => nofun) hpairs.1
    have hlast : ∀ t ∈ failures before, t ≤ now := by
      intro t ht
      obtain ⟨x, hx, rfl⟩ := List.mem_map.mp ht
      exact hpairs.2.2 x (List.mem_of_mem_filter hx) _ List.mem_cons_self
    rw [run, List.foldl_append]
    exact should_restart_of_failure hbudget (hmem (now, .record_failure reason) (by simp)) hlast reason
  · exact (Budgeted.fresh.run hset (fun _ _ => nofun) hchron).budget first
  · intro hrunning hgoing s
    have hbegan : is_set began = true :=
      hset (began, .begin_drain reason) (hearlier.subset (List.mem_append_right _ List.mem_cons_self))
    have hs : s = { run config {} before with
        state := .Draining, reason, drain_began := began } := by
      show List.foldl _ _ _ = _
      rw [List.foldl_append, List.foldl_cons]
      have hbegin :
          call config (run config {} before) (began, .begin_drain reason) =
          { run config {} before with state := .Draining, reason, drain_began := began } := by
        simp [call, begin_drain, hrunning]
      exact (congrArg (fun s => run config s draining) hbegin).trans (run_drains rfl hgoing)
    rw [hs]
    refine ⟨rfl, ⟨_, rfl⟩, fun now in_flight hnow => ?_⟩
    by_cases hnone : in_flight = 0
    · simp [drain_complete, hnone]
    · simp [drain_complete, hnone, hnow, hbegan]

/-- Three failures in two seconds, when one restart is allowed within ten. -/
def crashing : List (Timestamp × Call) :=
  [(0, .start), (0, .record_failure "crash"), (1000000000, .record_failure "crash"),
    (2000000000, .record_failure "crash")]

theorem supervisor_sound_crashing :
    (within { max_restarts := 1, restart_window := 10000000000 } 0
      (permitted { max_restarts := 1, restart_window := 10000000000 } {} crashing)).length ≤ 1 :=
  (supervisor_sound { max_restarts := 1, restart_window := 10000000000 } crashing (by decide) (by decide)).2.1 0

end ptl.ops
