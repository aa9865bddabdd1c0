import Mathlib.Algebra.Order.Field.Rat
import Mathlib.Tactic.Linarith
import Mathlib.Tactic.Positivity
import TradingLab.Signal.Signal

namespace ptl.signal

/-! ### Predictions -/

/-- One instant's worth of everything a generator may see. -/
structure GeneratorInput where
  as_of : Timestamp := kNoTimestamp
  instrument : InstrumentId := kInvalidInstrument
  prediction : Rat := 0
  prediction_time : Timestamp := kNoTimestamp
  volatility : Rat := 0
  costs : CostEstimate := {}
  deriving DecidableEq, Repr

inductive PredictionKind where
  | Regression
  | Probability
  deriving DecidableEq, Repr

structure GeneratorConfig where
  kind : PredictionKind := .Regression
  horizon : Duration := 900000000000
  entry_threshold : Rat := 0
  probability_return_scale : Rat := 0.001
  direction_multiplier : Rat := 1
  allow_short : Bool := true
  deriving DecidableEq, Repr

/-- Every generator runs this before anything else. -/
def check_causality (input : GeneratorInput) : Result Bool :=
  if ¬ is_set input.as_of then .error (bad "generator input has no decision time")
  else if input.instrument = kInvalidInstrument then .error (bad "generator input has no instrument")
  else if ¬ is_finite input.prediction then .error (bad "prediction is not finite")
  else if is_set input.prediction_time ∧ input.as_of < input.prediction_time then
    .error (bad "prediction is stamped after the decision it informs"
      (to_iso8601 input.prediction_time ++ " > " ++ to_iso8601 input.as_of))
  else .ok true

/-- Direction and confidence from a raw prediction. -/
structure Interpretation where
  direction : Direction := .Flat
  expected_return : Rat := 0
  confidence : Rat := 0
  deriving DecidableEq, Repr

/-- `std::clamp` to the unit interval. -/
def unit_clamp (x : Rat) : Rat := max 0 (min x 1)

/-- The view before the check on shorting. -/
def interpret_raw (input : GeneratorInput) (cfg : GeneratorConfig) : Interpretation :=
  let raw := input.prediction * cfg.direction_multiplier
  match cfg.kind with
  | .Probability =>
    let centred := raw - 1 / 2
    -- An exact coin flip is flat, whatever the threshold.
    if centred = 0 then {}
    else if |centred| < cfg.entry_threshold then {}
    else
      { direction := if 0 < centred then .Long else .Short
        expected_return := centred * 2 * cfg.probability_return_scale
        confidence := unit_clamp (|centred| * 2) }
  | .Regression =>
    if raw = 0 then {}
    else if |raw| < cfg.entry_threshold then {}
    else
      let sigma := if 0 < input.volatility then input.volatility else 1
      { direction := if 0 < raw then .Long else .Short
        expected_return := raw
        confidence := unit_clamp (|raw| / sigma) }

/-- Shorting disabled means flat, not long. -/
def interpret (input : GeneratorInput) (cfg : GeneratorConfig) : Interpretation :=
  let out := interpret_raw input cfg
  if out.direction = .Short ∧ ¬ cfg.allow_short then {} else out

/-! ### Generators -/

inductive EnsembleMethod where
  | WeightedAverage
  | Voting
  | ConfidenceWeighted
  deriving DecidableEq, Repr

/-- The weight of an ensemble's member. -/
abbrev Weight := { w : Rat // 0 < w }

/-- A generator: a model's, a rule's, or one made of others. -/
inductive Generator where
  | model (model_id : UInt64) (cfg : GeneratorConfig)
  | rule (model_id : UInt64) (cfg : GeneratorConfig)
  | ensemble (model_id : UInt64) (method : EnsembleMethod) (horizon : Duration) (members : List (Generator × Weight))

/-- What the votes of an ensemble add up to. -/
structure Tally where
  total_weight : Rat := 0
  weighted_return : Rat := 0
  weighted_confidence : Rat := 0
  long_weight : Rat := 0
  short_weight : Rat := 0
  deriving DecidableEq, Repr

def Tally.count (method : EnsembleMethod) (t : Tally) (vote : Signal × Weight) : Tally :=
  let v := vote.1
  -- An uncertain member contributes little without needing a hand-tuned weight.
  let w : Rat := if method = .ConfidenceWeighted then vote.2 * v.confidence else vote.2
  { total_weight := t.total_weight + w
    weighted_return := t.weighted_return + v.expected_return * w
    weighted_confidence := t.weighted_confidence + v.confidence * w
    long_weight := if v.direction = .Long then t.long_weight + w else t.long_weight
    short_weight := if v.direction = .Short then t.short_weight + w else t.short_weight }

def tally (method : EnsembleMethod) (votes : List (Signal × Weight)) : Tally := votes.foldl (Tally.count method) {}

/-- The side with more weight, and none on a tie. -/
def Tally.winner (t : Tally) : Direction :=
  if t.short_weight < t.long_weight then .Long
  else if t.long_weight < t.short_weight then .Short
  else .Flat

/-- The view of an ensemble. -/
def Tally.view (method : EnsembleMethod) (t : Tally) : Interpretation :=
  let expected_return := t.weighted_return / t.total_weight
  match method with
  | .Voting =>
    { direction := t.winner
      expected_return
      confidence := unit_clamp (max t.long_weight t.short_weight / t.total_weight) }
  | _ =>
    { direction := if 0 < expected_return then .Long else if expected_return < 0 then .Short else .Flat
      expected_return
      confidence := unit_clamp (t.weighted_confidence / t.total_weight) }

/-- A view as a signal. -/
def signal_of (model_id : UInt64) (horizon : Duration) (view : Interpretation) (input : GeneratorInput) :
    Result Signal :=
  if view.direction = .Flat then .ok (Signal.flat input.as_of input.instrument model_id)
  else
    Signal.create input.as_of input.instrument view.direction view.expected_return view.confidence horizon
      model_id input.costs

/-- The signal of an ensemble, on the votes of its members. -/
def combine (model_id : UInt64) (method : EnsembleMethod) (horizon : Duration) (votes : List (Signal × Weight))
    (input : GeneratorInput) : Result Signal :=
  let t := tally method votes
  if t.total_weight ≤ 0 then .ok (Signal.flat input.as_of input.instrument model_id)
  else signal_of model_id horizon (t.view method) input

/-- The same for a model and a rule. -/
def generate_interpreted (model_id : UInt64) (cfg : GeneratorConfig) (input : GeneratorInput) : Result Signal :=
  match check_causality input with
  | .error e => .error e
  | .ok _ => signal_of model_id cfg.horizon (interpret input cfg) input

namespace Generator

/-- A member that is none, or whose weight is not positive, is refused. -/
def add (members : List (Generator × Weight)) (member : Option Generator) (weight : Rat) :
    Result (List (Generator × Weight)) :=
  match member with
  | none => .error (bad "ensemble member is null")
  | some g =>
    if hweight : ¬ is_finite weight ∨ weight ≤ 0 then .error (bad "ensemble member weight must be positive")
    else .ok (members ++ [(g, ⟨weight, pos_of_checked hweight⟩)])

mutual

def generate : Generator → GeneratorInput → Result Signal
  | .model model_id cfg, input => generate_interpreted model_id cfg input
  | .rule model_id cfg, input => generate_interpreted model_id cfg input
  | .ensemble model_id method horizon members, input =>
    match check_causality input with
    | .error e => .error e
    | .ok _ =>
      if members.isEmpty then .error (bad "ensemble has no members")
      else
        match votes members input with
        | .error e => .error e
        | .ok votes => combine model_id method horizon votes input

/-- Every member's signal on the same input, in order; the first refusal ends
it. -/
def votes : List (Generator × Weight) → GeneratorInput → Result (List (Signal × Weight))
  | [], _ => .ok []
  | (g, w) :: rest, input =>
    match generate g input with
    | .error e => .error e
    | .ok s =>
      match votes rest input with
      | .error e => .error e
      | .ok others => .ok ((s, w) :: others)

end

end Generator

/-! ### Directions and returns -/

/-- A return in the direction stated. -/
structure Direction.Agrees (direction : Direction) (expected_return : Rat) : Prop where
  long : direction = .Long → 0 < expected_return
  short : direction = .Short → expected_return < 0

/-- A signal whose direction is that of its expected return; where its net edge is
positive, trading in that direction is expected to cover its costs. -/
structure Signal.Coherent (s : Signal) : Prop where
  agrees : s.direction.Agrees s.expected_return
  covers : 0 < s.net_edge → s.costs.total < s.direction.sign_of * s.expected_return

theorem Direction.agrees_flat (x : Rat) : Direction.Flat.Agrees x := ⟨fun h => (nomatch h), fun h => (nomatch h)⟩

theorem Direction.Agrees.div {d : Direction} {x y : Rat} (hy : 0 < y) : d.Agrees (x / y) ↔ d.Agrees x := by
  have hpos : 0 < x / y ↔ 0 < x := div_pos_iff_of_pos_right hy
  have hneg : x / y < 0 ↔ x < 0 := by rw [div_lt_iff₀ hy, zero_mul]
  exact ⟨fun h => ⟨fun hd => hpos.mp (h.long hd), fun hd => hneg.mp (h.short hd)⟩,
    fun h => ⟨fun hd => hpos.mpr (h.long hd), fun hd => hneg.mpr (h.short hd)⟩⟩

theorem Signal.coherent_iff (s : Signal) : s.Coherent ↔ s.direction.Agrees s.expected_return := by
  refine ⟨Signal.Coherent.agrees, fun hagrees => ⟨hagrees, fun hedge => ?_⟩⟩
  rw [s.net_edge_eq, netEdge] at hedge
  cases hdirection : s.direction with
  | Flat =>
    rw [hdirection, if_pos rfl] at hedge
    exact absurd hedge (lt_irrefl _)
  | Long =>
    have hpos := hagrees.long hdirection
    rw [hdirection, if_neg (by decide), abs_of_pos hpos] at hedge
    simpa [Direction.sign_of] using sub_pos.mp hedge
  | Short =>
    have hneg := hagrees.short hdirection
    rw [hdirection, if_neg (by decide), abs_of_neg hneg] at hedge
    simpa [Direction.sign_of] using sub_pos.mp hedge

/-! ### Views -/

theorem unit_clamp_mem (x : Rat) : ¬ (unit_clamp x < 0 ∨ unit_clamp x > 1) := by
  have hlow : 0 ≤ unit_clamp x := le_max_left _ _
  have hhigh : unit_clamp x ≤ 1 := max_le zero_le_one (min_le_right _ _)
  rintro (hneg | hbig)
  · exact absurd hneg (not_lt.mpr hlow)
  · exact absurd hbig (not_lt.mpr hhigh)

/-- The direction of a number's sign agrees with it, and with its positive
multiples. -/
theorem Direction.agrees_sign {x scale : Rat} (hne : x ≠ 0) (hscale : 0 < scale) :
    (if 0 < x then Direction.Long else Direction.Short).Agrees (x * scale) := by
  by_cases hpos : 0 < x
  · rw [if_pos hpos]
    exact ⟨fun _ => mul_pos hpos hscale, fun h => (nomatch h)⟩
  · rw [if_neg hpos]
    have hneg : x < 0 := lt_of_le_of_ne (not_lt.mp hpos) hne
    exact ⟨fun h => (nomatch h), fun _ => mul_neg_of_neg_of_pos hneg hscale⟩

/-- A prediction is read in its own direction. -/
theorem interpret_raw_agrees (input : GeneratorInput) {cfg : GeneratorConfig}
    (hscale : 0 < cfg.probability_return_scale) :
    (interpret_raw input cfg).direction.Agrees (interpret_raw input cfg).expected_return := by
  unfold interpret_raw
  cases cfg.kind with
  | Probability =>
    by_cases hcoin : input.prediction * cfg.direction_multiplier - 1 / 2 = 0
    · simp only [if_pos hcoin]
      exact Direction.agrees_flat _
    simp only [if_neg hcoin]
    split
    · exact Direction.agrees_flat _
    · have hsign := Direction.agrees_sign hcoin (mul_pos two_pos hscale)
      rw [← mul_assoc] at hsign
      exact hsign
  | Regression =>
    by_cases hzero : input.prediction * cfg.direction_multiplier = 0
    · simp only [if_pos hzero]
      exact Direction.agrees_flat _
    simp only [if_neg hzero]
    split
    · exact Direction.agrees_flat _
    · have hsign := Direction.agrees_sign hzero one_pos
      rw [mul_one] at hsign
      exact hsign

theorem interpret_agrees (input : GeneratorInput) {cfg : GeneratorConfig} (hscale : 0 < cfg.probability_return_scale) :
    (interpret input cfg).direction.Agrees (interpret input cfg).expected_return := by
  by_cases hshort : (interpret_raw input cfg).direction = .Short ∧ ¬ cfg.allow_short
  · simp only [interpret, if_pos hshort]
    exact Direction.agrees_flat _
  · simp only [interpret, if_neg hshort]
    exact interpret_raw_agrees input hscale

/-- A mean, weighted by confidence or not, is read in its own direction. -/
theorem view_agrees {method : EnsembleMethod} (hmethod : method ≠ .Voting) (t : Tally) :
    (t.view method).direction.Agrees (t.view method).expected_return := by
  have hmean : ∀ x : Rat, (if 0 < x then Direction.Long else if x < 0 then .Short else .Flat).Agrees x := by
    intro x
    split
    · rename_i hpos
      exact ⟨fun _ => hpos, fun h => (nomatch h)⟩
    split
    · rename_i hneg
      exact ⟨fun h => (nomatch h), fun _ => hneg⟩
    · exact Direction.agrees_flat _
  cases method with
  | Voting => exact absurd rfl hmethod
  | WeightedAverage => exact hmean _
  | ConfidenceWeighted => exact hmean _

/-! ### Signals -/

theorem create_ok {as_of : Timestamp} {instrument : InstrumentId} {direction : Direction}
    {expected_return confidence : Rat} {horizon : Duration} {model_id : UInt64} {costs : CostEstimate} {s : Signal}
    (hs : Signal.create as_of instrument direction expected_return confidence horizon model_id costs = .ok s) :
    s.direction = direction ∧ s.expected_return = expected_return := by
  unfold Signal.create at hs
  split at hs
  · exact nomatch hs
  split at hs
  · exact nomatch hs
  split at hs
  · exact nomatch hs
  split at hs
  · exact nomatch hs
  split at hs
  · exact nomatch hs
  split at hs
  · exact nomatch hs
  split at hs
  · exact nomatch hs
  obtain rfl := Except.ok.inj hs
  exact ⟨rfl, rfl⟩

/-- A signal takes its direction and its return from the view. -/
theorem signal_of_ok {model_id : UInt64} {horizon : Duration} {view : Interpretation} {input : GeneratorInput}
    {s : Signal} (hs : signal_of model_id horizon view input = .ok s) :
    s.direction = view.direction ∧ (view.direction ≠ .Flat → s.expected_return = view.expected_return) := by
  unfold signal_of at hs
  split at hs
  · rename_i hflat
    obtain rfl := Except.ok.inj hs
    exact ⟨hflat.symm, fun hne => absurd hflat hne⟩
  · obtain ⟨hdirection, hreturn⟩ := create_ok hs
    exact ⟨hdirection, fun _ => hreturn⟩

theorem coherent_of_view {model_id : UInt64} {horizon : Duration} {view : Interpretation} {input : GeneratorInput}
    (hview : view.direction.Agrees view.expected_return) {s : Signal}
    (hs : signal_of model_id horizon view input = .ok s) : s.Coherent := by
  obtain ⟨hdirection, hreturn⟩ := signal_of_ok hs
  rw [Signal.coherent_iff, hdirection]
  constructor
  · intro hlong
    rw [hreturn (by rw [hlong]; decide)]
    exact hview.long hlong
  · intro hshort
    rw [hreturn (by rw [hshort]; decide)]
    exact hview.short hshort

/-- What `Signal.create` asks beyond what the view provides. -/
structure Emits (model_id : UInt64) (horizon : Duration) (input : GeneratorInput) : Prop where
  causal : check_causality input = .ok true
  horizon : 0 < horizon
  identified : model_id ≠ 0
  costs : 0 ≤ input.costs.total

theorem check_causality_ok {input : GeneratorInput} {b : Bool} (hok : check_causality input = .ok b) :
    check_causality input = .ok true ∧ is_set input.as_of = true ∧ input.instrument ≠ kInvalidInstrument := by
  have hall := hok
  unfold check_causality at hall
  split at hall
  · exact nomatch hall
  split at hall
  · exact nomatch hall
  split at hall
  · exact nomatch hall
  split at hall
  · exact nomatch hall
  rename_i hset hinstrument _ _
  exact ⟨hok.trans (congrArg Except.ok (Except.ok.inj hall).symm), not_not.mp hset, hinstrument⟩

/-- A view with a direction and a clamped confidence becomes a signal just when
nothing else is wrong. -/
theorem signal_of_isOk_iff {model_id : UInt64} {horizon : Duration} {view : Interpretation} {input : GeneratorInput}
    (hcausal : check_causality input = .ok true) (hdirection : view.direction ≠ .Flat) {x : Rat}
    (hconfidence : view.confidence = unit_clamp x) :
    (∃ s, signal_of model_id horizon view input = .ok s) ↔ Emits model_id horizon input := by
  obtain ⟨-, hset, hinstrument⟩ := check_causality_ok hcausal
  have hunit : ¬ (¬ is_finite view.confidence ∨ view.confidence < 0 ∨ view.confidence > 1) := by
    rw [hconfidence]
    simpa using unit_clamp_mem x
  rw [signal_of, if_neg hdirection, Signal.create, if_neg (not_not.mpr hset), if_neg hinstrument,
    if_neg (by simp), if_neg hunit]
  constructor
  · rintro ⟨s, hs⟩
    split at hs
    · exact nomatch hs
    split at hs
    · exact nomatch hs
    split at hs
    · exact nomatch hs
    rename_i hhorizon hidentified hcosts
    exact ⟨hcausal, not_le.mp hhorizon, hidentified, by simpa using hcosts⟩
  · rintro ⟨-, hhorizon, hidentified, hcosts⟩
    have hnonneg : ¬ (¬ is_finite input.costs.total ∨ input.costs.total < 0) := by simpa using hcosts
    rw [dif_neg (not_le.mpr hhorizon), if_neg hidentified, if_neg hnonneg]
    exact ⟨_, rfl⟩

/-! ### Ensembles -/

/-- Votes weigh more than nothing. -/
theorem tally_total_pos {votes : List (Signal × Weight)} (hne : votes ≠ []) : 0 < (tally .Voting votes).total_weight := by
  have hgrow : ∀ (votes : List (Signal × Weight)) (t : Tally),
      t.total_weight ≤ (votes.foldl (Tally.count .Voting) t).total_weight := by
    intro votes
    induction votes with
    | nil => exact fun t => le_refl _
    | cons vote votes ih =>
      intro t
      have hstep : t.total_weight ≤ (Tally.count .Voting t vote).total_weight :=
        le_add_of_nonneg_right vote.2.2.le
      exact hstep.trans (ih _)
  obtain ⟨vote, rest, rfl⟩ := List.exists_cons_of_ne_nil hne
  have hfirst : 0 < (Tally.count .Voting {} vote).total_weight := by
    have hweight := vote.2.2
    simpa [Tally.count] using hweight
  exact hfirst.trans_le (hgrow rest _)

namespace Generator

/-- Every probability in the tree is scaled by a positive return. -/
inductive Scaled : Generator → Prop where
  | model {model_id : UInt64} {cfg : GeneratorConfig} (hscale : 0 < cfg.probability_return_scale) :
      Scaled (.model model_id cfg)
  | rule {model_id : UInt64} {cfg : GeneratorConfig} (hscale : 0 < cfg.probability_return_scale) :
      Scaled (.rule model_id cfg)
  | ensemble {model_id : UInt64} {method : EnsembleMethod} {horizon : Duration}
      {members : List (Generator × Weight)} (hmembers : ∀ member ∈ members, Scaled member.1) :
      Scaled (.ensemble model_id method horizon members)

/-- Where a voting ensemble would emit a signal, the weighted returns of its
members' signals add up to the side with more weight. -/
def VotesAgree : Generator → GeneratorInput → Prop
  | .ensemble model_id .Voting horizon members, input =>
    ∀ vs, votes members input = .ok vs → Emits model_id horizon input →
      (tally .Voting vs).winner.Agrees (tally .Voting vs).weighted_return
  | _, _ => True

theorem generate_ensemble_ok {model_id : UInt64} {method : EnsembleMethod} {horizon : Duration}
    {members : List (Generator × Weight)} {input : GeneratorInput} {s : Signal} :
    generate (.ensemble model_id method horizon members) input = .ok s ↔
      check_causality input = .ok true ∧ members ≠ [] ∧
        ∃ vs, votes members input = .ok vs ∧ combine model_id method horizon vs input = .ok s := by
  rw [generate]
  cases hcausal : check_causality input with
  | error e => simp
  | ok b =>
    have htrue : b = true := Except.ok.inj (hcausal.symm.trans (check_causality_ok hcausal).1)
    cases members with
    | nil => simp
    | cons member members =>
      cases hvotes : votes (member :: members) input with
      | error e => simp
      | ok vs => simp [htrue]

theorem votes_ne_nil {members : List (Generator × Weight)} {input : GeneratorInput} {vs : List (Signal × Weight)}
    (hvotes : votes members input = .ok vs) (hne : members ≠ []) : vs ≠ [] := by
  obtain ⟨member, rest, rfl⟩ := List.exists_cons_of_ne_nil hne
  rw [votes] at hvotes
  split at hvotes
  · exact nomatch hvotes
  split at hvotes
  · exact nomatch hvotes
  · obtain rfl := Except.ok.inj hvotes
    exact List.cons_ne_nil _ _

theorem combine_voting {model_id : UInt64} {horizon : Duration} {vs : List (Signal × Weight)} {input : GeneratorInput}
    (hne : vs ≠ []) :
    combine model_id .Voting horizon vs input = signal_of model_id horizon ((tally .Voting vs).view .Voting) input :=
  if_neg (not_le.mpr (tally_total_pos hne))

/-- A generator's signals are coherent just when its votes agree. -/
theorem generate_coherent_iff (g : Generator) (input : GeneratorInput) (hscaled : g.Scaled) :
    (∀ s, g.generate input = .ok s → s.Coherent) ↔ g.VotesAgree input := by
  have hleaf : ∀ {model_id : UInt64} {cfg : GeneratorConfig}, 0 < cfg.probability_return_scale →
      ∀ s, generate_interpreted model_id cfg input = .ok s → s.Coherent := by
    intro model_id cfg hscale s hs
    rw [generate_interpreted] at hs
    split at hs
    · exact nomatch hs
    · exact coherent_of_view (interpret_agrees input hscale) hs
  cases hscaled with
  | model hscale => exact iff_of_true (fun s hs => hleaf hscale s (generate.eq_1 .. ▸ hs)) trivial
  | rule hscale => exact iff_of_true (fun s hs => hleaf hscale s (generate.eq_2 .. ▸ hs)) trivial
  | @ensemble model_id method horizon members hmembers =>
    by_cases hmethod : method = .Voting
    · subst hmethod
      constructor
      · intro hcoherent vs hvotes hemits
        by_cases hflat : (tally .Voting vs).winner = .Flat
        · rw [hflat]
          exact Direction.agrees_flat _
        have hmembers : members ≠ [] := by
          rintro rfl
          obtain rfl := Except.ok.inj hvotes
          exact hflat rfl
        have hne := votes_ne_nil hvotes hmembers
        have hdirected : ((tally .Voting vs).view .Voting).direction ≠ .Flat := hflat
        obtain ⟨s, hs⟩ := (signal_of_isOk_iff hemits.causal hdirected rfl).mpr hemits
        obtain ⟨hdirection, hreturn⟩ := signal_of_ok hs
        have hs := hs
        rw [← combine_voting hne] at hs
        have hagrees := (hcoherent s (generate_ensemble_ok.mpr ⟨hemits.causal, hmembers, vs, hvotes, hs⟩)).agrees
        rw [hdirection, hreturn hflat] at hagrees
        exact (Direction.Agrees.div (tally_total_pos hne)).mp hagrees
      · intro hagree s hs
        obtain ⟨hcausal, hmembers, vs, hvotes, hcombine⟩ := generate_ensemble_ok.mp hs
        have hne := votes_ne_nil hvotes hmembers
        rw [combine_voting hne] at hcombine
        refine coherent_of_view ?_ hcombine
        by_cases hflat : (tally .Voting vs).winner = .Flat
        · rw [show ((tally .Voting vs).view .Voting).direction = .Flat from hflat]
          exact Direction.agrees_flat _
        have hemits := (signal_of_isOk_iff hcausal hflat rfl).mp ⟨s, hcombine⟩
        exact (Direction.Agrees.div (tally_total_pos hne)).mpr (hagree vs hvotes hemits)
    · have htrivial : VotesAgree (.ensemble model_id method horizon members) input := by
        cases method with
        | Voting => exact absurd rfl hmethod
        | WeightedAverage => trivial
        | ConfidenceWeighted => trivial
      refine iff_of_true (fun s hs => ?_) htrivial
      obtain ⟨_, _, vs, _, hcombine⟩ := generate_ensemble_ok.mp hs
      rw [combine] at hcombine
      split at hcombine
      · obtain rfl := Except.ok.inj hcombine
        exact (Signal.coherent_iff _).mpr (Direction.agrees_flat _)
      · exact coherent_of_view (view_agrees hmethod _) hcombine

/-! ### Two weak votes against a strong one -/

/-- Two members follow a prediction, and one of the same weight expects ten times
as much the other way. -/
def outvoted : Generator :=
  .ensemble 4 .Voting (15 * 60000000000) [(.model 1 {}, ⟨1, by decide⟩), (.model 2 {}, ⟨1, by decide⟩),
    (.rule 3 { direction_multiplier := -10 }, ⟨1, by decide⟩)]

def risingInput : GeneratorInput where
  as_of := 1
  instrument := 0
  prediction := 1 / 1000

theorem outvoted_scaled : outvoted.Scaled := by
  refine .ensemble fun member hmem => ?_
  rcases List.mem_cons.mp hmem with rfl | hmem
  · exact .model (by decide +kernel)
  rcases List.mem_cons.mp hmem with rfl | hmem
  · exact .model (by decide +kernel)
  obtain rfl := List.mem_singleton.mp hmem
  exact .rule (by decide +kernel)

/-- The majority is long, and the expected return is negative. -/
theorem outvoted_incoherent :
    ¬ ∀ (g : Generator) (input : GeneratorInput), g.Scaled → ∀ s, g.generate input = .ok s → s.Coherent := by
  intro hall
  have hany : ((outvoted.generate risingInput).toOption.any fun s =>
      s.direction = .Long ∧ ¬ 0 < s.expected_return) = true := by decide +kernel
  obtain ⟨s, hs, hopposite⟩ := Option.any_eq_true _ _ |>.mp hany
  obtain ⟨hlong, hneg⟩ := of_decide_eq_true hopposite
  exact hneg ((hall _ _ outvoted_scaled s (Result.toOption_eq_some.mp hs)).agrees.long hlong)

theorem outvoted_coherent_iff :
    (∀ s, outvoted.generate risingInput = .ok s → s.Coherent) ↔ outvoted.VotesAgree risingInput :=
  generate_coherent_iff outvoted risingInput outvoted_scaled

end Generator

end ptl.signal
