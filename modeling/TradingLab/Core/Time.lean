import TradingLab.Core.Types
import TradingLab.Skipping

namespace ptl

inductive Stage where
  | ExchangeTime
  | ReceiveTime
  | FeatureEndTime
  | DecisionTime
  | SubmittedTime
  | ArrivalTime
  | FillTime
  | AckTime
  deriving DecidableEq, Repr

def Stage.to_string : Stage → String
  | .ExchangeTime => "exchange_time"
  | .ReceiveTime => "receive_time"
  | .FeatureEndTime => "feature_end_time"
  | .DecisionTime => "decision_time"
  | .SubmittedTime => "submitted_time"
  | .ArrivalTime => "arrival_time"
  | .FillTime => "fill_time"
  | .AckTime => "ack_time"

structure EventTime where
  exchange_time : Timestamp := kNoTimestamp
  receive_time : Timestamp := kNoTimestamp
  deriving DecidableEq, Repr

/-- A stage not yet reached holds `kNoTimestamp`. -/
structure LifecycleTimes where
  exchange_time : Timestamp := kNoTimestamp
  receive_time : Timestamp := kNoTimestamp
  feature_end_time : Timestamp := kNoTimestamp
  decision_time : Timestamp := kNoTimestamp
  submitted_time : Timestamp := kNoTimestamp
  arrival_time : Timestamp := kNoTimestamp
  fill_time : Timestamp := kNoTimestamp
  ack_time : Timestamp := kNoTimestamp
  deriving DecidableEq, Repr

def LifecycleTimes.at (t : LifecycleTimes) : Stage → Timestamp
  | .ExchangeTime => t.exchange_time
  | .ReceiveTime => t.receive_time
  | .FeatureEndTime => t.feature_end_time
  | .DecisionTime => t.decision_time
  | .SubmittedTime => t.submitted_time
  | .ArrivalTime => t.arrival_time
  | .FillTime => t.fill_time
  | .AckTime => t.ack_time

inductive ChainRule where
  | Monotonic
  | StrictlyAfter
  deriving DecidableEq, Repr

structure ChainViolation where
  earlier : Stage
  later : Stage
  earlier_ts : Timestamp
  later_ts : Timestamp
  rule : ChainRule
  deriving DecidableEq, Repr

def ChainViolation.describe (v : ChainViolation) : String :=
  v.later.to_string ++
    (if v.rule = .StrictlyAfter then " must be strictly after " else " must be at or after ") ++
    v.earlier.to_string ++ ": " ++ to_iso8601 v.later_ts ++ " vs " ++ to_iso8601 v.earlier_ts ++
    (if v.rule = .StrictlyAfter ∧ v.later_ts = v.earlier_ts then
      "  [same-bar execution: a decision cannot fill at the price that produced it]"
    else "")

/-- The adjacent stages, each to be no earlier than the one before it. -/
def kEdges : List (Stage × Stage) :=
  [(.ExchangeTime, .ReceiveTime), (.ReceiveTime, .FeatureEndTime),
    (.FeatureEndTime, .DecisionTime), (.DecisionTime, .SubmittedTime),
    (.SubmittedTime, .ArrivalTime), (.ArrivalTime, .FillTime), (.FillTime, .AckTime)]

/-- The strict rule between decision and arrival is tested first, then the
    adjacent stages that are set. -/
def validate_chain (t : LifecycleTimes) : Option ChainViolation :=
  if is_set t.decision_time ∧ is_set t.arrival_time ∧ t.arrival_time ≤ t.decision_time then
    some ⟨.DecisionTime, .ArrivalTime, t.decision_time, t.arrival_time, .StrictlyAfter⟩
  else
    kEdges.findSome? fun (a, b) =>
      if is_set (t.at a) ∧ is_set (t.at b) ∧ t.at b < t.at a then
        some ⟨a, b, t.at a, t.at b, .Monotonic⟩
      else none

/-- The stages of a lifecycle, in their order. -/
def stages : List Stage :=
  [.ExchangeTime, .ReceiveTime, .FeatureEndTime, .DecisionTime, .SubmittedTime, .ArrivalTime,
    .FillTime, .AckTime]

/-- The edges tested are those between neighbouring stages. -/
theorem kEdges_eq_neighbours : kEdges = stages.zip stages.tail := rfl

def LifecycleTimes.populated (t : LifecycleTimes) : List Stage :=
  stages.filter fun s => is_set (t.at s)

/-- The stages that are set never go back in time, and the order arrives
strictly after it was decided. -/
structure LifecycleTimes.WellOrdered (t : LifecycleTimes) : Prop where
  ordered : t.populated.Pairwise fun a b => t.at a ≤ t.at b
  delayed : is_set t.decision_time → is_set t.arrival_time → t.decision_time < t.arrival_time

/-- `y` is the next stage set after `x`, the stages of `gap` are unset, and `y`
is earlier than `x`. -/
structure LifecycleTimes.Inverted (t : LifecycleTimes) (x : Stage) (gap : List Stage) (y : Stage) :
    Prop where
  follows : Skipping.Follows (fun s => is_set (t.at s) = true) stages x gap y
  earlier : t.at y < t.at x

/-- The order arrives no later than it was decided. -/
def LifecycleTimes.SameBar (t : LifecycleTimes) : Prop :=
  is_set t.decision_time ∧ is_set t.arrival_time ∧ t.arrival_time ≤ t.decision_time

theorem wellOrdered_iff {t : LifecycleTimes} :
    t.WellOrdered ↔ ¬ t.SameBar ∧ ∀ x gap y, ¬ t.Inverted x gap y := by
  have hchain : (t.populated.Pairwise fun a b => t.at a ≤ t.at b) ↔
      ∀ x gap y, Skipping.Follows (fun s => is_set (t.at s) = true) stages x gap y →
        t.at x ≤ t.at y := by
    have htrans : IsTrans Stage fun a b => t.at a ≤ t.at b := ⟨fun a b c hab hbc => le_trans hab hbc⟩
    rw [← List.isChain_iff_pairwise, ← Skipping.isChain_filter_iff]
    simp only [LifecycleTimes.populated, Bool.decide_eq_true]
  constructor
  · rintro ⟨hordered, hdelayed⟩
    refine ⟨fun hsame => ?_, fun x gap y hinverted => ?_⟩
    · exact absurd (hdelayed hsame.1 hsame.2.1) (not_lt.mpr hsame.2.2)
    · exact absurd (hchain.mp hordered x gap y hinverted.follows) (not_le.mpr hinverted.earlier)
  · rintro ⟨hsame, hinverted⟩
    refine ⟨hchain.mpr fun x gap y hfollows => ?_, fun hdecision harrival => ?_⟩
    · exact not_lt.mp fun hearlier => hinverted x gap y ⟨hfollows, hearlier⟩
    · exact not_le.mp fun hle => hsame ⟨hdecision, harrival, hle⟩

/-- The check passes when neither its strict rule nor any of its edges fails. -/
theorem validate_chain_eq_none_iff {t : LifecycleTimes} :
    validate_chain t = none ↔ ¬ t.SameBar ∧ ∀ x y, ¬ t.Inverted x [] y := by
  have hedges : (∀ x y, ¬ t.Inverted x [] y) ↔ ∀ e ∈ kEdges,
      ¬ (is_set (t.at e.1) = true ∧ is_set (t.at e.2) = true ∧ t.at e.2 < t.at e.1) := by
    rw [kEdges_eq_neighbours]
    constructor
    · rintro hall ⟨x, y⟩ hmem ⟨hx, hy, hearlier⟩
      exact hall x y ⟨Skipping.follows_nil_iff.mpr ⟨hmem, hx, hy⟩, hearlier⟩
    · rintro hall x y ⟨hfollows, hearlier⟩
      obtain ⟨hmem, hx, hy⟩ := Skipping.follows_nil_iff.mp hfollows
      exact hall (x, y) hmem ⟨hx, hy, hearlier⟩
  rw [hedges, validate_chain]
  by_cases hsame : t.SameBar
  · rw [if_pos (by simpa [LifecycleTimes.SameBar] using hsame)]
    simp [hsame]
  · rw [if_neg (by simpa [LifecycleTimes.SameBar] using hsame), List.findSome?_eq_none_iff]
    simp [hsame]

/-- A chain in order passes: the edges are among the pairs that follow each other. -/
theorem validate_chain_of_wellOrdered {t : LifecycleTimes} (hordered : t.WellOrdered) :
    validate_chain t = none := by
  obtain ⟨hsame, hinverted⟩ := wellOrdered_iff.mp hordered
  exact validate_chain_eq_none_iff.mpr ⟨hsame, fun x y => hinverted x [] y⟩

/-- The check finds the order of a chain exactly when no two stages are
inverted across unset ones, or it has something else to find: two neighbouring
stages inverted, or an arrival no later than the decision. -/
theorem validate_chain_complete_iff (t : LifecycleTimes) :
    (validate_chain t = none ↔ t.WellOrdered) ↔
      ((∃ x gap y, gap ≠ [] ∧ t.Inverted x gap y) →
        (∃ x y, t.Inverted x [] y) ∨ t.SameBar) := by
  constructor
  · rintro hcomplete ⟨x, gap, y, hgap, hinverted⟩
    by_contra hnone
    push Not at hnone
    have hvalid : validate_chain t = none :=
      validate_chain_eq_none_iff.mpr ⟨hnone.2, fun a b => hnone.1 a b⟩
    exact (wellOrdered_iff.mp (hcomplete.mp hvalid)).2 x gap y hinverted
  · intro hcondition
    refine ⟨fun hvalid => ?_, validate_chain_of_wellOrdered⟩
    obtain ⟨hsame, hedges⟩ := validate_chain_eq_none_iff.mp hvalid
    refine wellOrdered_iff.mpr ⟨hsame, fun x gap y hinverted => ?_⟩
    by_cases hgap : gap = []
    · subst gap
      exact hedges x y hinverted
    · rcases hcondition ⟨x, gap, y, hgap, hinverted⟩ with ⟨a, b, hedge⟩ | hbar
      · exact hedges a b hedge
      · exact hsame hbar

/-- Features that end before the exchange stamped the event pass while the
receive stage between them is unset. -/
theorem validate_chain_incomplete :
    ¬ ∀ t : LifecycleTimes, validate_chain t = none ↔ t.WellOrdered := by
  intro hall
  let t : LifecycleTimes := { exchange_time := 5, feature_end_time := 3 }
  have hordered := ((hall t).mp (by decide)).ordered
  have hpopulated : t.populated = [.ExchangeTime, .FeatureEndTime] := by decide
  rw [hpopulated] at hordered
  have hle : t.at .ExchangeTime ≤ t.at .FeatureEndTime := by simpa using hordered
  exact absurd hle (by decide)

end ptl
