import TradingLab.Signal.Signal

open ptl.market

namespace ptl.signal

/-! ### Histories -/

/-- A signal with the context it is judged in, at a decision time: a generator
refuses an input that has none. -/
structure Decision where
  signalled : Signal
  context : FilterContext
  timed : is_set context.now = true

namespace Decision

def now (d : Decision) : Timestamp := d.context.now

def instrument (d : Decision) : InstrumentId := d.signalled.instrument

/-- A signal that is a trade, and passes every filter but the cooldown. -/
def Eligible (cfg : FilterConfig) (calendar : Option Calendar) (d : Decision) : Prop :=
  d.signalled.is_flat = false ∧ (check_conditions cfg d.signalled d.context calendar).passed = true

instance (cfg : FilterConfig) (calendar : Option Calendar) (d : Decision) : Decidable (d.Eligible cfg calendar) :=
  inferInstanceAs (Decidable (_ ∧ _))

/-- An earlier decision of the same instrument, less than a cooldown before. -/
def Recent (cfg : FilterConfig) (earlier d : Decision) : Prop :=
  earlier.instrument = d.instrument ∧ d.now - earlier.now < cfg.cooldown

instance (cfg : FilterConfig) (earlier d : Decision) : Decidable (earlier.Recent cfg d) :=
  inferInstanceAs (Decidable (_ ∧ _))

end Decision

namespace Cooldown

variable (cfg : FilterConfig) (calendar : Option Calendar)

/-- The chain after a history, its newest decision first. -/
def after : List Decision → SignalFilterChain
  | [] => { cfg := cfg }
  | d :: past =>
    let c := after past
    c.record d.instrument (c.evaluate d.signalled d.context calendar) d.now

/-- What is decided of a signal after a history. -/
def verdict (past : List Decision) (d : Decision) : FilterDecision :=
  (after cfg calendar past).evaluate d.signalled d.context calendar

/-- The trades accepted in a history. -/
def accepted : List Decision → List Decision
  | [] => []
  | d :: past =>
    if d.signalled.is_flat = false ∧ (verdict cfg calendar past d).passed then d :: accepted past else accepted past

/-- What a cooldown is for: of the signals that are eligible trades, those with
no other of them less than a cooldown before. -/
def trades : List Decision → List Decision
  | [] => []
  | d :: past =>
    if d.Eligible cfg calendar ∧ ∀ t ∈ trades past, ¬ t.Recent cfg d then d :: trades past else trades past

/-- Times do not decrease along a history. -/
def Ordered (history : List Decision) : Prop := history.Pairwise fun newer older => older.now ≤ newer.now

@[simp] theorem after_cfg (past : List Decision) : (after cfg calendar past).cfg = cfg := by
  induction past with
  | nil => rfl
  | cons d past ih => exact ih

/-! ### The clock of an instrument -/

/-- The clock shows the latest decision that was flat or accepted, and no trade
accepted is later. -/
structure Clocked (past : List Decision) : Prop where
  newest : ∀ instrument last, (after cfg calendar past).last_accepted[instrument]? = some last →
    ∃ d ∈ past, d.instrument = instrument ∧ d.now = last ∧
      (d.signalled.is_flat = true ∨ d ∈ accepted cfg calendar past)
  covers : ∀ d ∈ past, d.signalled.is_flat = true ∨ d ∈ accepted cfg calendar past →
    ∃ last, (after cfg calendar past).last_accepted[d.instrument]? = some last ∧ d.now ≤ last

variable {cfg calendar}

theorem accepted_subset {past : List Decision} {d : Decision} (hmem : d ∈ accepted cfg calendar past) : d ∈ past := by
  induction past with
  | nil => exact hmem
  | cons x past ih =>
    rw [accepted] at hmem
    split at hmem
    · rcases List.mem_cons.mp hmem with rfl | hold
      · exact List.mem_cons_self
      · exact List.mem_cons_of_mem _ (ih hold)
    · exact List.mem_cons_of_mem _ (ih hmem)

theorem accepted_of_cons {past : List Decision} {x d : Decision} (hmem : d ∈ accepted cfg calendar past) :
    d ∈ accepted cfg calendar (x :: past) := by
  rw [accepted]
  split
  · exact List.mem_cons_of_mem _ hmem
  · exact hmem

theorem verdict_flat {past : List Decision} {d : Decision} (hflat : d.signalled.is_flat = true) :
    (verdict cfg calendar past d).passed = true := by
  rw [verdict, SignalFilterChain.evaluate_flat hflat]
  rfl

/-- Among a history's decisions the one just made is accepted, when it passed. -/
theorem accepted_self {past : List Decision} {d : Decision} (hpassed : (verdict cfg calendar past d).passed = true) :
    d.signalled.is_flat = true ∨ d ∈ accepted cfg calendar (d :: past) := by
  cases hflat : d.signalled.is_flat with
  | true => exact .inl rfl
  | false =>
    right
    rw [accepted, if_pos ⟨hflat, hpassed⟩]
    exact List.mem_cons_self

theorem clocked {past : List Decision} (hordered : Ordered past) : Clocked cfg calendar past := by
  induction past with
  | nil =>
    refine ⟨fun instrument last hlast => ?_, fun d hmem => absurd hmem List.not_mem_nil⟩
    exact absurd hlast (by simp [after])
  | cons x past ih =>
    obtain ⟨hlatest, hpast⟩ := List.pairwise_cons.mp hordered
    have hclock := ih hpast
    cases hpassed : (verdict cfg calendar past x).passed with
    | false =>
      have hsame : (after cfg calendar (x :: past)).last_accepted = (after cfg calendar past).last_accepted :=
        SignalFilterChain.record_of_rejected _ _ hpassed
      have haccepted : accepted cfg calendar (x :: past) = accepted cfg calendar past := by
        rw [accepted, if_neg fun hnew => absurd (hpassed.symm.trans hnew.2) (by decide)]
      constructor
      · intro instrument last hlast
        rw [hsame] at hlast
        obtain ⟨d, hmem, hinstrument, hnow, hkind⟩ := hclock.newest instrument last hlast
        exact ⟨d, List.mem_cons_of_mem _ hmem, hinstrument, hnow, haccepted ▸ hkind⟩
      · intro d hmem hkind
        rw [haccepted] at hkind
        rw [hsame]
        rcases List.mem_cons.mp hmem with rfl | hmem
        · -- A rejected signal is neither flat nor an accepted trade by this decision.
          rcases hkind with hflat | hold
          · exact absurd (hpassed.symm.trans (verdict_flat hflat)) (by decide)
          · exact hclock.covers d (accepted_subset hold) (.inr hold)
        · exact hclock.covers d hmem hkind
    | true =>
      have hinsert : (after cfg calendar (x :: past)).last_accepted =
          (after cfg calendar past).last_accepted.insert x.instrument x.now :=
        SignalFilterChain.record_of_passed _ _ hpassed
      constructor
      · intro instrument last hlast
        rw [hinsert, Table.getElem?_insert_eq_ite] at hlast
        split at hlast
        · rename_i hinstrument
          exact ⟨x, List.mem_cons_self, hinstrument, Option.some.inj hlast, accepted_self hpassed⟩
        · obtain ⟨d, hmem, hinstrument, hnow, hkind⟩ := hclock.newest instrument last hlast
          exact ⟨d, List.mem_cons_of_mem _ hmem, hinstrument, hnow, hkind.imp_right accepted_of_cons⟩
      · intro d hmem hkind
        rw [hinsert, Table.getElem?_insert_eq_ite]
        have hle : d.now ≤ x.now := by
          rcases List.mem_cons.mp hmem with rfl | hmem
          · exact le_refl _
          · exact hlatest d hmem
        by_cases hinstrument : x.instrument = d.instrument
        · rw [if_pos hinstrument]
          exact ⟨x.now, rfl, hle⟩
        · rw [if_neg hinstrument]
          rcases List.mem_cons.mp hmem with rfl | hmem
          · exact absurd rfl hinstrument
          · refine hclock.covers d hmem (hkind.imp_right fun hnew => ?_)
            rw [accepted] at hnew
            split at hnew
            · rcases List.mem_cons.mp hnew with rfl | hold
              · exact absurd rfl hinstrument
              · exact hold
            · exact hnew

/-! ### What is decided -/

theorem not_flat_of_cooldown {past : List Decision} {d : Decision}
    (hreason : (verdict cfg calendar past d).reason = .CooldownActive) : d.signalled.is_flat = false := by
  cases hflat : d.signalled.is_flat with
  | false => rfl
  | true =>
    rw [verdict, SignalFilterChain.evaluate_flat hflat] at hreason
    exact nomatch hreason

theorem verdict_of_eligible {past : List Decision} {d : Decision} (heligible : d.Eligible cfg calendar) :
    verdict cfg calendar past d = (after cfg calendar past).check_cooldown d.instrument d.now := by
  obtain ⟨hflat, hconditions⟩ := heligible
  refine SignalFilterChain.evaluate_cooldown hflat ?_
  rw [after_cfg]
  exact hconditions

/-- A trade that passed passed every filter. -/
theorem eligible_of_passed {past : List Decision} {d : Decision} (hflat : d.signalled.is_flat = false)
    (hpassed : (verdict cfg calendar past d).passed = true) : d.Eligible cfg calendar := by
  refine ⟨hflat, ?_⟩
  cases hconditions : (check_conditions cfg d.signalled d.context calendar).passed with
  | true => rfl
  | false =>
    rw [← after_cfg cfg calendar past] at hconditions
    rw [verdict, SignalFilterChain.evaluate_conditions hflat hconditions] at hpassed
    exact hconditions.symm.trans hpassed

theorem cooldown_iff {past : List Decision} {d : Decision} :
    (verdict cfg calendar past d).reason = .CooldownActive ↔
      d.Eligible cfg calendar ∧ (verdict cfg calendar past d).passed = false := by
  constructor
  · intro hreason
    have hflat := not_flat_of_cooldown hreason
    refine ⟨⟨hflat, ?_⟩, ?_⟩
    · cases hconditions : (check_conditions cfg d.signalled d.context calendar).passed with
      | true => rfl
      | false =>
        rw [← after_cfg cfg calendar past] at hconditions
        rw [verdict, SignalFilterChain.evaluate_conditions hflat hconditions] at hreason
        exact absurd hreason (SignalFilterChain.check_conditions_reason _ _ _ _)
    · rw [FilterDecision.passed, hreason]
      rfl
  · rintro ⟨heligible, hrejected⟩
    rw [verdict_of_eligible heligible] at hrejected ⊢
    unfold SignalFilterChain.check_cooldown at hrejected ⊢
    split at hrejected
    · exact absurd hrejected (by decide)
    split at hrejected
    · rename_i hactive
      exact congrArg FilterDecision.reason (if_pos hactive)
    · exact absurd hrejected (by decide)

/-- A trade passes the cooldown when nothing flat or accepted is less than a
cooldown before it. -/
theorem passed_iff {past : List Decision} (hordered : Ordered past) {d : Decision}
    (heligible : d.Eligible cfg calendar) :
    (verdict cfg calendar past d).passed = true ↔
      ∀ earlier ∈ past, earlier.signalled.is_flat = true ∨ earlier ∈ accepted cfg calendar past →
        ¬ earlier.Recent cfg d := by
  have hclock : Clocked cfg calendar _ := clocked hordered
  rw [verdict_of_eligible heligible]
  unfold SignalFilterChain.check_cooldown
  rw [after_cfg]
  constructor
  · rintro hpassed earlier hmem hkind ⟨hinstrument, hrecent⟩
    obtain ⟨last, hlast, hle⟩ := hclock.covers earlier hmem hkind
    obtain ⟨newest, _, _, hnow, _⟩ := hclock.newest _ last hlast
    have hset : is_set last = true := hnow ▸ newest.timed
    rw [hinstrument] at hlast
    have hclose : d.now - last < cfg.cooldown := lt_of_le_of_lt (Int.sub_le_sub_left hle _) hrecent
    rw [hlast] at hpassed
    simp only [if_pos (And.intro hset hclose)] at hpassed
    exact absurd hpassed Bool.false_ne_true
  · intro hnone
    split
    · rfl
    · rename_i last hlast
      obtain ⟨earlier, hmem, hinstrument, hnow, hkind⟩ := hclock.newest _ last hlast
      have hpast := hnone earlier hmem hkind
      rw [if_neg fun hactive => hpast ⟨hinstrument, hnow ▸ hactive.2⟩]
      rfl

/-! ### The law -/

variable (cfg calendar)

/-- What the cooldown promises of a history. -/
structure Law (history : List Decision) : Prop where
  spaced : (accepted cfg calendar history).Pairwise fun newer older =>
    newer.instrument = older.instrument → cfg.cooldown ≤ newer.now - older.now
  flat : ∀ d past, (d :: past) <:+ history → d.signalled.is_flat = true → (verdict cfg calendar past d).passed = true
  complete : ∀ d past, (d :: past) <:+ history → (verdict cfg calendar past d).reason = .CooldownActive →
    ∃ t ∈ accepted cfg calendar past, t.Recent cfg d

/-- An eligible trade less than a cooldown after a flat signal is so after a trade
as well. -/
def Undelayed (past : List Decision) (d : Decision) : Prop :=
  d.Eligible cfg calendar → (∃ f ∈ past, f.signalled.is_flat = true ∧ f.Recent cfg d) →
    ∃ t ∈ trades cfg calendar past, t.Recent cfg d

variable {cfg calendar}

/-- Accepted trades of one instrument are a cooldown apart, whatever comes
between them. -/
theorem accepted_spaced {history : List Decision} (hordered : Ordered history) :
    (accepted cfg calendar history).Pairwise fun newer older =>
      newer.instrument = older.instrument → cfg.cooldown ≤ newer.now - older.now := by
  induction history with
  | nil => exact List.Pairwise.nil
  | cons d past ih =>
    obtain ⟨-, hpast⟩ := List.pairwise_cons.mp hordered
    rw [accepted]
    split
    · rename_i hnew
      refine List.pairwise_cons.mpr ⟨fun older hmem hinstrument => ?_, ih hpast⟩
      have hnone := (passed_iff hpast (eligible_of_passed hnew.1 hnew.2)).mp hnew.2
      by_contra hnot
      exact hnone older (accepted_subset hmem) (.inr hmem) ⟨hinstrument.symm, Int.not_le.mp hnot⟩
    · exact ih hpast

/-- Where no flat signal delays a trade, the trades accepted are the ones a
cooldown is for. -/
theorem accepted_eq_trades {history : List Decision} (hordered : Ordered history)
    (hundelayed : ∀ d past, (d :: past) <:+ history → Undelayed cfg calendar past d) :
    accepted cfg calendar history = trades cfg calendar history := by
  induction history with
  | nil => rfl
  | cons d past ih =>
    obtain ⟨-, hpast⟩ := List.pairwise_cons.mp hordered
    have hsame := ih hpast fun x older hsuffix => hundelayed x older (hsuffix.trans (List.suffix_cons d past))
    have hstep : (d.signalled.is_flat = false ∧ (verdict cfg calendar past d).passed = true) ↔
        d.Eligible cfg calendar ∧ ∀ t ∈ trades cfg calendar past, ¬ t.Recent cfg d := by
      constructor
      · rintro ⟨hflat, hpassed⟩
        have heligible := eligible_of_passed hflat hpassed
        refine ⟨heligible, fun t hmem => ?_⟩
        rw [← hsame] at hmem
        exact (passed_iff hpast heligible).mp hpassed t (accepted_subset hmem) (.inr hmem)
      · rintro ⟨heligible, hnone⟩
        refine ⟨heligible.1, (passed_iff hpast heligible).mpr fun earlier hmem hkind hrecent => ?_⟩
        rcases hkind with hflat | haccepted
        · obtain ⟨t, htrade, hclose⟩ := hundelayed d past List.suffix_rfl heligible ⟨earlier, hmem, hflat, hrecent⟩
          exact hnone t htrade hclose
        · exact hnone earlier (hsame ▸ haccepted) hrecent
    rw [accepted, trades, hsame]
    exact if_congr hstep rfl rfl

/-- The cooldown keeps its promise over a history just when no flat signal in it
delays a trade. -/
theorem law_iff {history : List Decision} (hordered : Ordered history) :
    Law cfg calendar history ↔ ∀ d past, (d :: past) <:+ history → Undelayed cfg calendar past d := by
  constructor
  · intro hlaw
    induction history with
    | nil => exact fun d past hsuffix => absurd (List.suffix_nil.mp hsuffix) (List.cons_ne_nil _ _)
    | cons x history ih =>
      obtain ⟨-, hrest⟩ := List.pairwise_cons.mp hordered
      have hinner : ∀ {d past}, (d :: past) <:+ history → (d :: past) <:+ x :: history :=
        fun hsuffix => hsuffix.trans (List.suffix_cons x history)
      have hbefore := ih hrest {
        spaced := accepted_spaced hrest
        flat := fun d past hsuffix => hlaw.flat d past (hinner hsuffix)
        complete := fun d past hsuffix => hlaw.complete d past (hinner hsuffix) }
      intro d past hsuffix
      rcases List.suffix_cons_iff.mp hsuffix with hwhole | hin
      · obtain ⟨rfl, rfl⟩ := List.cons_eq_cons.mp hwhole
        rintro heligible ⟨f, hmem, hflat, hrecent⟩
        have hrejected : (verdict cfg calendar past d).passed = false := by
          rw [Bool.eq_false_iff]
          exact fun hpassed => (passed_iff hrest heligible).mp hpassed f hmem (.inl hflat) hrecent
        rw [← accepted_eq_trades hrest hbefore]
        exact hlaw.complete d past hsuffix (cooldown_iff.mpr ⟨heligible, hrejected⟩)
      · exact hbefore d past hin
  · intro hundelayed
    refine ⟨accepted_spaced hordered, fun d past _ hflat => verdict_flat hflat, fun d past hsuffix hreason => ?_⟩
    have hpast : Ordered past := (List.pairwise_cons.mp (hordered.sublist hsuffix.sublist)).2
    obtain ⟨heligible, hrejected⟩ := cooldown_iff.mp hreason
    have hsome : ¬ ∀ earlier ∈ past, earlier.signalled.is_flat = true ∨ earlier ∈ accepted cfg calendar past →
        ¬ earlier.Recent cfg d :=
      fun hnone => absurd ((passed_iff hpast heligible).mpr hnone) (by simp [hrejected])
    have hsame := accepted_eq_trades hpast fun x older hin =>
      hundelayed x older (hin.trans ((List.suffix_cons d past).trans hsuffix))
    push Not at hsome
    obtain ⟨earlier, hmem, hkind, hrecent⟩ := hsome
    rcases hkind with hflat | haccepted
    · rw [hsame]
      exact hundelayed d past hsuffix heligible ⟨earlier, hmem, hflat, hrecent⟩
    · exact ⟨earlier, haccepted, hrecent⟩

/-! ### A flat signal and a trade a minute later -/

def flatDecision : Decision where
  signalled := Signal.flat 1 0 1
  context := { now := 1, has_market_data := true }
  timed := rfl

def longDecision : Decision where
  signalled := Result.value (Signal.create (1 + minutes 1) 0 .Long 0.01 0.9 (minutes 15) 1)
  context := { now := 1 + minutes 1, has_market_data := true }
  timed := rfl

theorem flat_then_long_ordered : Ordered [longDecision, flatDecision] :=
  List.pairwise_pair.mpr (by decide)

/-- The trade is the first of its instrument, and the flat signal delays it. -/
theorem flat_signal_delays_trade :
    ¬ ∀ (cfg : FilterConfig) (calendar : Option Calendar) (history : List Decision),
      Ordered history → Law cfg calendar history := by
  intro hall
  have hlaw := hall {} none [longDecision, flatDecision] flat_then_long_ordered
  have hreason : (verdict {} none [flatDecision] longDecision).reason = .CooldownActive := by decide +kernel
  obtain ⟨t, hmem, -⟩ := hlaw.complete longDecision [flatDecision] List.suffix_rfl hreason
  exact absurd hmem List.not_mem_nil

theorem law_iff_flat_then_long :
    Law {} none [longDecision, flatDecision] ↔ ∀ d past, (d :: past) <:+ [longDecision, flatDecision] →
      Undelayed {} none past d :=
  law_iff flat_then_long_ordered

end Cooldown

end ptl.signal
