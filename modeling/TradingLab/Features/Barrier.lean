import TradingLab.Features.CrossSectional

namespace ptl.features

structure UniverseMember where
  instrument : InstrumentId := kInvalidInstrument
  sector : Int := -1
  is_market_proxy : Bool := false
  deriving DecidableEq, Repr

structure CrossSectionalConfig where
  universe_ : List UniverseMember
  winsorize_inputs : Bool := true
  winsor_lower : Rat := 0.01
  winsor_upper : Rat := 0.99
  sector_neutral : Bool := false
  require_complete_universe : Bool := true
  deriving DecidableEq, Repr

structure CrossSectionalRow where
  instrument : InstrumentId := kInvalidInstrument
  feature_end_time : Timestamp := kNoTimestamp
  market_relative_return : Rat := 0
  sector_relative_return : Rat := 0
  return_rank : Rat := 0.5
  return_zscore : Rat := 0
  volume_rank : Rat := 0.5
  ready : Bool := false
  deriving DecidableEq, Repr

structure Contribution where
  instrument : InstrumentId := kInvalidInstrument
  sector : Int := -1
  log_return : Rat := 0
  volume : Rat := 0
  is_proxy : Bool := false
  deriving DecidableEq, Repr

/-- The index it is stored under. -/
def Contribution.key (c : Contribution) : Nat := c.instrument.toNat

/-! ### The stage -/

/-- The contributions are ordered by instrument, one of each, and there are none
without a bar. -/
structure CrossSectionalStage where
  cfg : CrossSectionalConfig
  pending : List Contribution := []
  bar_time : Timestamp := kNoTimestamp
  ordered : pending.Pairwise fun a b => a.key < b.key
  waiting : ¬ is_set bar_time → pending = []

/-- What one call hands over; a number that is not finite is left out. -/
structure Contributed where
  instrument : InstrumentId
  log_return : Option Rat
  volume : Option Rat
  deriving DecidableEq, Repr

def UniverseMember.contribution (member : UniverseMember) (c : Contributed) : Contribution where
  instrument := c.instrument
  sector := member.sector
  log_return := c.log_return.getD 0
  volume := c.volume.getD 0
  is_proxy := member.is_market_proxy

namespace CrossSectionalStage

def new (cfg : CrossSectionalConfig) : CrossSectionalStage where
  cfg := cfg
  ordered := List.Pairwise.nil
  waiting _ := rfl

def clear (s : CrossSectionalStage) : CrossSectionalStage := new s.cfg

/-- Takes the time of a bar. -/
def adopt (s : CrossSectionalStage) (feature_end_time : Timestamp) (hset : is_set feature_end_time) :
    CrossSectionalStage :=
  { s with bar_time := feature_end_time, waiting := fun hunset => absurd hset hunset }

/-- Keeps a contribution of an instrument that has none yet. -/
def emplace (s : CrossSectionalStage) (c : Contribution) (hset : is_set s.bar_time)
    (hnew : ∀ p ∈ s.pending, p.key ≠ c.key) : CrossSectionalStage :=
  { s with
    pending := s.pending.orderedInsert (fun a b => a.key ≤ b.key) c
    ordered := Ranking.pairwise_orderedInsert s.ordered hnew
    waiting := fun hunset => absurd hset hunset }

/-- The bar's time is taken before the instrument is looked up. -/
def contribute (s : CrossSectionalStage) (feature_end_time : Timestamp) (c : Contributed) :
    Result Bool × CrossSectionalStage :=
  if hset : ¬ is_set feature_end_time then
    (.error (bad "cross-sectional contribution has no feature_end_time"), s)
  else if is_set s.bar_time ∧ feature_end_time ≠ s.bar_time then
    (.error (bad "cross-sectional contribution is not from the current bar"
      (to_iso8601 feature_end_time ++ " vs " ++ to_iso8601 s.bar_time)), s)
  else
    let s := s.adopt feature_end_time (not_not.mp hset)
    match s.cfg.universe_.find? fun m => m.instrument = c.instrument with
    | none => (.error (bad "instrument is not a member of the configured universe"), s)
    | some member =>
      if hnew : ∀ p ∈ s.pending, p.key ≠ c.instrument.toNat then
        (.ok true, s.emplace (member.contribution c) (not_not.mp hset) hnew)
      else (.error (bad "duplicate cross-sectional contribution for one bar"), s)

def market_return (s : CrossSectionalStage) : Option Rat := (s.pending.find? fun c => c.is_proxy).map (·.log_return)

/-! ### The cross-section -/

variable (sqrt : Rat → Rat)

/-- The returns, clipped if the configuration says so. -/
def work (s : CrossSectionalStage) : List Rat :=
  let returns := s.pending.map (·.log_return)
  if s.cfg.winsorize_inputs then winsorize returns s.cfg.winsor_lower s.cfg.winsor_upper else returns

/-- In the order of the instruments. -/
def rows (s : CrossSectionalStage) : List CrossSectionalRow :=
  let relative := match s.market_return with
    | some proxy => s.work.map fun v => v - proxy
    | none => demean s.work
  let sector_relative :=
    if s.cfg.sector_neutral then group_demean s.work (s.pending.map (·.sector)) else relative
  let ranks := percentile_ranks s.work
  let zscores := cross_sectional_zscore sqrt s.work
  let vol_ranks := percentile_ranks (s.pending.map (·.volume))
  s.pending.zipIdx.map fun (c, i) => {
    instrument := c.instrument
    feature_end_time := s.bar_time
    market_relative_return := relative.getD i 0
    sector_relative_return := sector_relative.getD i 0
    return_rank := ranks.getD i 0
    return_zscore := zscores.getD i 0
    volume_rank := vol_ranks.getD i 0
    ready := true }

/-- Nothing is cleared where there is nothing to compute. -/
def compute (s : CrossSectionalStage) : Result (List CrossSectionalRow) × CrossSectionalStage :=
  if s.pending.isEmpty then (.ok [], s)
  else if s.cfg.require_complete_universe ∧ s.pending.length ≠ s.cfg.universe_.length then
    (.error (bad ("incomplete cross-section: " ++ toString s.pending.length ++ " of " ++
      toString s.cfg.universe_.length ++ " contributed")), s)
  else (.ok (s.rows sqrt), s.clear)

/-! ### What a call comes to -/

variable {s t : CrossSectionalStage} {feature_end_time : Timestamp} {c : Contributed}

theorem ext_of_perm (hcfg : s.cfg = t.cfg) (hbar : s.bar_time = t.bar_time) (hpending : s.pending.Perm t.pending) :
    s = t := by
  obtain ⟨cfg, pending, bar_time, hordered, _⟩ := s
  obtain ⟨cfg', pending', bar_time', hordered', _⟩ := t
  obtain rfl : cfg = cfg' := hcfg
  obtain rfl : bar_time = bar_time' := hbar
  obtain rfl : pending = pending' :=
    List.Perm.eq_of_pairwise (fun a b _ _ hab hba => absurd hab (lt_asymm hba)) hordered hordered' hpending
  rfl

theorem adopt_eq_iff (hset : is_set feature_end_time) :
    s.adopt feature_end_time hset = s ↔ feature_end_time = s.bar_time :=
  ⟨fun hsame => congrArg bar_time hsame, fun hbar => ext_of_perm rfl hbar (List.Perm.refl _)⟩

/-- Where nothing is refused for its time, the time is the bar's if there is one. -/
theorem time_eq_of_current (hcurrent : ¬ (is_set s.bar_time ∧ feature_end_time ≠ s.bar_time))
    (hbar : is_set s.bar_time) : feature_end_time = s.bar_time :=
  not_not.mp fun hne => hcurrent ⟨hbar, hne⟩

/-- Only an instrument outside the universe, as the first of a bar, leaves a trace
of a refused call. -/
theorem contribute_error_unchanged_iff :
    (∀ e, (s.contribute feature_end_time c).1 = .error e → (s.contribute feature_end_time c).2 = s) ↔
      ¬ (¬ is_set s.bar_time ∧ is_set feature_end_time ∧ ∀ m ∈ s.cfg.universe_, m.instrument ≠ c.instrument) := by
  rw [contribute]
  split
  · rename_i hunset
    exact iff_of_true (fun _ _ => rfl) fun ⟨_, hset, _⟩ => hunset hset
  rename_i hset
  split
  · rename_i hlate
    exact iff_of_true (fun _ _ => rfl) fun ⟨hbar, _, _⟩ => hbar hlate.1
  rename_i hcurrent
  dsimp only
  split
  · rename_i hnone
    have houtside : ∀ m ∈ s.cfg.universe_, m.instrument ≠ c.instrument := fun m hm hsame =>
      List.find?_eq_none.mp hnone m hm (decide_eq_true hsame)
    constructor
    · rintro hsame ⟨hbar, -, -⟩
      have htime := (adopt_eq_iff (not_not.mp hset)).mp (hsame _ rfl)
      exact hbar (htime ▸ not_not.mp hset)
    · intro hnot e _
      have hbar : is_set s.bar_time := not_not.mp fun hbar => hnot ⟨hbar, not_not.mp hset, houtside⟩
      exact (adopt_eq_iff (not_not.mp hset)).mpr (time_eq_of_current hcurrent hbar)
  · rename_i member hmember
    have hinside : ¬ ∀ m ∈ s.cfg.universe_, m.instrument ≠ c.instrument := fun houtside =>
      houtside member (List.mem_of_find?_eq_some hmember) (by simpa using List.find?_some hmember)
    refine iff_of_true (fun e herror => ?_) fun ⟨_, _, houtside⟩ => hinside houtside
    split at herror
    · exact nomatch herror
    · rename_i hduplicate
      rw [dif_neg hduplicate]
      have hbar : is_set s.bar_time := by
        by_contra hbar
        refine hduplicate fun p hp => ?_
        rw [show (s.adopt feature_end_time _).pending = [] from s.waiting hbar] at hp
        exact nomatch hp
      exact (adopt_eq_iff (not_not.mp hset)).mpr (time_eq_of_current hcurrent hbar)

/-- The stage after a contribution that is accepted. -/
def accepted (s : CrossSectionalStage) (feature_end_time : Timestamp) (c : Contributed) : Option CrossSectionalStage :=
  match s.contribute feature_end_time c with
  | (.ok _, t) => some t
  | (.error _, _) => none

theorem accepted_iff : s.accepted feature_end_time c = some t ↔
    is_set feature_end_time ∧ (is_set s.bar_time → feature_end_time = s.bar_time) ∧
      ∃ member, s.cfg.universe_.find? (fun m => m.instrument = c.instrument) = some member ∧
        (∀ p ∈ s.pending, p.key ≠ c.instrument.toNat) ∧ t.cfg = s.cfg ∧ t.bar_time = feature_end_time ∧
        t.pending.Perm (member.contribution c :: s.pending) := by
  rw [accepted, contribute]
  by_cases hset : is_set feature_end_time
  swap
  · rw [dif_pos hset]
    exact iff_of_false (nomatch ·) fun h => hset h.1
  rw [dif_neg (not_not.mpr hset)]
  by_cases hcurrent : is_set s.bar_time ∧ feature_end_time ≠ s.bar_time
  · rw [if_pos hcurrent]
    exact iff_of_false (nomatch ·) fun h => hcurrent.2 (h.2.1 hcurrent.1)
  rw [if_neg hcurrent]
  have htime := time_eq_of_current hcurrent
  dsimp only
  split
  · rename_i hcontribute
    split at hcontribute
    · exact nomatch hcontribute
    · rename_i member hmember
      split at hcontribute
      · rename_i hnew
        obtain rfl := (Prod.mk.inj hcontribute).2
        have hinserted := List.perm_orderedInsert (fun a b : Contribution => a.key ≤ b.key) (member.contribution c)
          s.pending
        constructor
        · intro hsome
          obtain rfl := Option.some.inj hsome
          exact ⟨hset, htime, member, hmember, hnew, rfl, rfl, hinserted⟩
        · rintro ⟨-, -, member', hfound, -, hcfg, hbar, hpending⟩
          obtain rfl := Option.some.inj (hmember.symm.trans hfound)
          exact congrArg some (ext_of_perm hcfg.symm hbar.symm (hinserted.trans hpending.symm))
      · exact nomatch hcontribute
  · rename_i hcontribute
    refine iff_of_false (nomatch ·) fun ⟨_, _, member, hfound, hnew, _⟩ => ?_
    split at hcontribute
    · rename_i hnone
      exact nomatch hnone.symm.trans hfound
    · split at hcontribute
      · exact nomatch hcontribute
      · rename_i hduplicate
        exact hduplicate hnew

theorem exists_accepted {member : UniverseMember} (hset : is_set feature_end_time)
    (htime : is_set s.bar_time → feature_end_time = s.bar_time)
    (hmember : s.cfg.universe_.find? (fun m => m.instrument = c.instrument) = some member)
    (hnew : ∀ p ∈ s.pending, p.key ≠ c.instrument.toNat) : ∃ t, s.accepted feature_end_time c = some t := by
  have hinserted := List.perm_orderedInsert (fun a b : Contribution => a.key ≤ b.key) (member.contribution c) s.pending
  exact ⟨(s.adopt feature_end_time hset).emplace (member.contribution c) hset hnew,
    accepted_iff.mpr ⟨hset, htime, member, hmember, hnew, rfl, rfl, hinserted⟩⟩

/-! ### Contributions of one bar, in any order -/

/-- The stage after contributions that are all accepted, one after the other. -/
def accepted_all (s : CrossSectionalStage) (feature_end_time : Timestamp) :
    List Contributed → Option CrossSectionalStage
  | [] => some s
  | c :: cs => (s.accepted feature_end_time c).bind fun s => s.accepted_all feature_end_time cs

/-- Two contributions can be swapped. -/
theorem accepted_swap {a b : Contributed} {sa sab : CrossSectionalStage} (ha : s.accepted feature_end_time a = some sa)
    (hb : sa.accepted feature_end_time b = some sab) :
    ∃ sb, s.accepted feature_end_time b = some sb ∧ sb.accepted feature_end_time a = some sab := by
  obtain ⟨hset, htime, ma, hma, hnewa, hcfga, hbara, hpendinga⟩ := accepted_iff.mp ha
  obtain ⟨-, -, mb, hmb, hnewb, hcfgb, hbarb, hpendingb⟩ := accepted_iff.mp hb
  have hne : a.instrument.toNat ≠ b.instrument.toNat :=
    hnewb (ma.contribution a) (hpendinga.mem_iff.mpr List.mem_cons_self)
  have hnewb' : ∀ p ∈ s.pending, p.key ≠ b.instrument.toNat := fun p hp =>
    hnewb p (hpendinga.mem_iff.mpr (List.mem_cons_of_mem _ hp))
  rw [hcfga] at hmb
  obtain ⟨sb, hsb⟩ := exists_accepted hset htime hmb hnewb'
  obtain ⟨-, -, mb', hmb', -, hcfgb', hbarb', hpendingb'⟩ := accepted_iff.mp hsb
  obtain rfl := Option.some.inj (hmb.symm.trans hmb')
  have hnewa' : ∀ p ∈ sb.pending, p.key ≠ a.instrument.toNat := by
    intro p hp
    obtain rfl | hold := List.mem_cons.mp (hpendingb'.mem_iff.mp hp)
    · exact hne.symm
    · exact hnewa p hold
  refine ⟨sb, hsb, accepted_iff.mpr ⟨hset, fun _ => hbarb'.symm, ma, hcfgb'.symm ▸ hma, hnewa', ?_, hbarb, ?_⟩⟩
  · rw [hcfgb, hcfga, hcfgb']
  · have hswapped := List.Perm.swap (ma.contribution a) (mb.contribution b) s.pending
    exact hpendingb.trans ((hpendinga.cons _).trans (hswapped.trans (hpendingb'.symm.cons _)))

theorem accepted_all_perm {cs cs' : List Contributed} (hperm : cs.Perm cs') :
    ∀ {s : CrossSectionalStage}, s.accepted_all feature_end_time cs = some t →
      s.accepted_all feature_end_time cs' = some t := by
  induction hperm with
  | nil => exact id
  | cons c _ ih =>
    intro s hall
    obtain ⟨u, hc, hrest⟩ := Option.bind_eq_some_iff.mp hall
    exact Option.bind_eq_some_iff.mpr ⟨u, hc, ih hrest⟩
  | swap a b cs =>
    intro s hall
    obtain ⟨u, hb, hrest⟩ := Option.bind_eq_some_iff.mp hall
    obtain ⟨v, ha, hcs⟩ := Option.bind_eq_some_iff.mp hrest
    obtain ⟨u', ha', hb'⟩ := accepted_swap hb ha
    exact Option.bind_eq_some_iff.mpr ⟨u', ha', Option.bind_eq_some_iff.mpr ⟨v, hb', hcs⟩⟩
  | trans _ _ ih₁ ih₂ => exact fun hall => ih₂ (ih₁ hall)

/-! ### The ranks in a cross-section -/

/-- What two lists made from one show at its places. -/
theorem zipIdx_map_getD {A B C : Type} (f g : A → B) (h : A → B → B → C) (l : List A) (default : B) :
    (l.zipIdx.map fun e => h e.1 ((l.map f).getD e.2 default) ((l.map g).getD e.2 default)) =
      l.map fun a => h a (f a) (g a) := by
  refine List.ext_getElem (by rw [List.length_map, List.length_map, List.length_zipIdx]) fun i hi hi' => ?_
  have hplace : i < l.length := by rwa [List.length_map] at hi'
  simp [hplace]

/-- An instrument with its ranks. -/
def ranks_of (r : CrossSectionalRow) : InstrumentId × Rat × Rat := (r.instrument, r.return_rank, r.volume_rank)

/-- What a return among others is clipped to. -/
def clipped (cfg : CrossSectionalConfig) (returns : List Rat) : Rat → Rat :=
  if cfg.winsorize_inputs then winsorized returns cfg.winsor_lower cfg.winsor_upper else id

/-- The ranks of a contribution among others. -/
def ranks_among (cfg : CrossSectionalConfig) (pending : List Contribution) (c : Contribution) : Rat × Rat :=
  (percentile ((pending.map (·.log_return)).map (clipped cfg (pending.map (·.log_return))))
      (clipped cfg (pending.map (·.log_return)) c.log_return),
    percentile (pending.map (·.volume)) c.volume)

theorem work_eq (s : CrossSectionalStage) :
    s.work = (s.pending.map (·.log_return)).map (clipped s.cfg (s.pending.map (·.log_return))) := by
  rw [work]
  unfold clipped
  split
  · exact winsorize_eq _ _ _
  · exact (List.map_id _).symm

theorem rows_ranks (sqrt : Rat → Rat) (s : CrossSectionalStage) :
    (s.rows sqrt).map ranks_of =
      s.pending.map fun c => (c.instrument, ranks_among s.cfg s.pending c) := by
  have hranks : percentile_ranks s.work = s.pending.map fun c => (ranks_among s.cfg s.pending c).1 := by
    rw [percentile_ranks_eq, work_eq, List.map_map, List.map_map]
    rfl
  have hvolumes : percentile_ranks (s.pending.map (·.volume)) =
      s.pending.map fun c => (ranks_among s.cfg s.pending c).2 := by
    rw [percentile_ranks_eq, List.map_map]
    rfl
  rw [rows]
  dsimp only
  rw [hranks, hvolumes, List.map_map]
  exact zipIdx_map_getD (fun c => (ranks_among s.cfg s.pending c).1) (fun c => (ranks_among s.cfg s.pending c).2)
    (fun c rank volume_rank => (c.instrument, rank, volume_rank)) s.pending 0

theorem ranks_among_perm (cfg : CrossSectionalConfig) {pending pending' : List Contribution}
    (hperm : pending.Perm pending') : ranks_among cfg pending = ranks_among cfg pending' := by
  have hreturns := hperm.map (·.log_return)
  have hvolumes := hperm.map (·.volume)
  have hclipped : clipped cfg (pending.map (·.log_return)) = clipped cfg (pending'.map (·.log_return)) := by
    rw [clipped, clipped, winsorized_perm hreturns]
  funext c
  rw [ranks_among, ranks_among, hclipped, percentile_perm (hreturns.map _), percentile_perm hvolumes]

/-! ### Relabelling -/

section Relabelling

variable (label : InstrumentId → InstrumentId)

def relabelled_member (m : UniverseMember) : UniverseMember := { m with instrument := label m.instrument }

def relabelled_config (cfg : CrossSectionalConfig) : CrossSectionalConfig :=
  { cfg with universe_ := cfg.universe_.map (relabelled_member label) }

def relabelled_call (c : Contributed) : Contributed := { c with instrument := label c.instrument }

def relabelled (c : Contribution) : Contribution := { c with instrument := label c.instrument }

/-- The same stage under other labels. -/
structure Relabels (s t : CrossSectionalStage) : Prop where
  cfg_eq : t.cfg = relabelled_config label s.cfg
  bar_time_eq : t.bar_time = s.bar_time
  pending_perm : t.pending.Perm (s.pending.map (relabelled label))

variable {label}

theorem find?_relabelled (hlabel : Function.Injective label) (universe_ : List UniverseMember)
    (instrument : InstrumentId) :
    (universe_.map (relabelled_member label)).find? (fun m => m.instrument = label instrument) =
      (universe_.find? fun m => m.instrument = instrument).map (relabelled_member label) := by
  rw [List.find?_map]
  congr 2
  funext m
  exact decide_eq_decide.mpr hlabel.eq_iff

theorem Relabels.accepted (hlabel : Function.Injective label) {s' : CrossSectionalStage} (hsame : Relabels label s s')
    (haccepted : s.accepted feature_end_time c = some t) :
    ∃ t', s'.accepted feature_end_time (relabelled_call label c) = some t' ∧ Relabels label t t' := by
  obtain ⟨hset, htime, member, hmember, hnew, hcfg, hbar, hpending⟩ := accepted_iff.mp haccepted
  have hmember' : s'.cfg.universe_.find? (fun m => m.instrument = (relabelled_call label c).instrument) =
      some (relabelled_member label member) := by
    rw [hsame.cfg_eq]
    exact (find?_relabelled hlabel s.cfg.universe_ c.instrument).trans (by rw [hmember]; rfl)
  have hnew' : ∀ p ∈ s'.pending, p.key ≠ (relabelled_call label c).instrument.toNat := by
    intro p hp hkey
    obtain ⟨q, hq, rfl⟩ := List.mem_map.mp (hsame.pending_perm.mem_iff.mp hp)
    exact hnew q hq (congrArg UInt32.toNat (hlabel (UInt32.toNat_inj.mp hkey)))
  obtain ⟨t', ht'⟩ := exists_accepted hset (hsame.bar_time_eq ▸ htime) hmember' hnew'
  obtain ⟨-, -, member', hfound, -, hcfg', hbar', hpending'⟩ := accepted_iff.mp ht'
  obtain rfl := Option.some.inj (hmember'.symm.trans hfound)
  refine ⟨t', ht', ?_, hbar'.trans hbar.symm, ?_⟩
  · rw [hcfg', hsame.cfg_eq, hcfg]
  · exact hpending'.trans ((hsame.pending_perm.cons _).trans (hpending.map (relabelled label)).symm)

theorem Relabels.accepted_all (hlabel : Function.Injective label) {cs : List Contributed} :
    ∀ {s s' : CrossSectionalStage}, Relabels label s s' → s.accepted_all feature_end_time cs = some t →
      ∃ t', s'.accepted_all feature_end_time (cs.map (relabelled_call label)) = some t' ∧ Relabels label t t' := by
  induction cs with
  | nil =>
    intro s s' hsame hall
    obtain rfl := Option.some.inj hall
    exact ⟨s', rfl, hsame⟩
  | cons c cs ih =>
    intro s s' hsame hall
    obtain ⟨u, hc, hrest⟩ := Option.bind_eq_some_iff.mp hall
    obtain ⟨u', hc', hsame'⟩ := hsame.accepted hlabel hc
    obtain ⟨t', hrest', ht'⟩ := ih hsame' hrest
    exact ⟨t', Option.bind_eq_some_iff.mpr ⟨u', hc', hrest'⟩, ht'⟩

/-- The same cross-section under other labels has the same ranks under them. -/
theorem Relabels.ranks {s' : CrossSectionalStage} (hsame : Relabels label s s') (sqrt : Rat → Rat) :
    ((s'.rows sqrt).map ranks_of).Perm (((s.rows sqrt).map ranks_of).map fun r => (label r.1, r.2)) := by
  have hreturns : (s.pending.map (relabelled label)).map (·.log_return) = s.pending.map (·.log_return) := List.map_map
  have hvolumes : (s.pending.map (relabelled label)).map (·.volume) = s.pending.map (·.volume) := List.map_map
  have hranks : ∀ c, ranks_among s'.cfg s'.pending (relabelled label c) = ranks_among s.cfg s.pending c := by
    intro c
    rw [ranks_among_perm _ hsame.pending_perm, hsame.cfg_eq, ranks_among, ranks_among, hreturns, hvolumes]
    rfl
  rw [rows_ranks, rows_ranks, List.map_map]
  refine (hsame.pending_perm.map _).trans (List.Perm.of_eq ?_)
  rw [List.map_map]
  refine List.map_congr_left fun c _ => ?_
  exact congrArg (Prod.mk (label c.instrument)) (hranks c)

theorem Relabels.compute {s' : CrossSectionalStage} (hsame : Relabels label s s') (sqrt : Rat → Rat)
    {rows : List CrossSectionalRow} (hrows : (s.compute sqrt).1 = .ok rows) :
    ∃ rows', (s'.compute sqrt).1 = .ok rows' ∧
      (rows'.map ranks_of).Perm ((rows.map ranks_of).map fun r => (label r.1, r.2)) := by
  have hempty : s'.pending.isEmpty = s.pending.isEmpty :=
    hsame.pending_perm.isEmpty_eq.trans List.isEmpty_map
  have hlength : s'.pending.length = s.pending.length := hsame.pending_perm.length_eq.trans (List.length_map _)
  have huniverse : s'.cfg.universe_.length = s.cfg.universe_.length := by
    rw [hsame.cfg_eq]
    exact List.length_map _
  have hcomplete : s'.cfg.require_complete_universe = s.cfg.require_complete_universe := by
    rw [hsame.cfg_eq]
    rfl
  rw [CrossSectionalStage.compute] at hrows
  rw [CrossSectionalStage.compute, hempty, hlength, huniverse, hcomplete]
  split at hrows
  · rename_i hnone
    obtain rfl := Except.ok.inj hrows
    rw [if_pos hnone]
    exact ⟨[], rfl, List.Perm.refl _⟩
  · rename_i hsome
    rw [if_neg hsome]
    split at hrows
    · exact nomatch hrows
    · rename_i hready
      obtain rfl := Except.ok.inj hrows
      rw [if_neg hready]
      exact ⟨_, rfl, hsame.ranks sqrt⟩

end Relabelling

/-! ### The barrier -/

/-- A refused call leaves the stage as it was unless its instrument is unknown and
it is the first of a bar. The order of what is accepted does not matter, nor what
the instruments are called. -/
theorem barrier_iff (s : CrossSectionalStage) (sqrt : Rat → Rat) :
    (∀ feature_end_time c,
      (∀ e, (s.contribute feature_end_time c).1 = .error e → (s.contribute feature_end_time c).2 = s) ↔
        ¬ (¬ is_set s.bar_time ∧ is_set feature_end_time ∧ ∀ m ∈ s.cfg.universe_, m.instrument ≠ c.instrument)) ∧
    (∀ feature_end_time cs cs' t, cs.Perm cs' → s.accepted_all feature_end_time cs = some t →
      ∃ t', s.accepted_all feature_end_time cs' = some t' ∧ t'.compute sqrt = t.compute sqrt) ∧
    ∀ (label : InstrumentId → InstrumentId) feature_end_time cs s' t, Function.Injective label → Relabels label s s' →
      s.accepted_all feature_end_time cs = some t →
      ∃ t', s'.accepted_all feature_end_time (cs.map (relabelled_call label)) = some t' ∧
        ∀ rows, (t.compute sqrt).1 = .ok rows → ∃ rows', (t'.compute sqrt).1 = .ok rows' ∧
          (rows'.map ranks_of).Perm ((rows.map ranks_of).map fun r => (label r.1, r.2)) := by
  refine ⟨fun _ _ => contribute_error_unchanged_iff, ?_, ?_⟩
  · exact fun _ _ _ t hperm hall => ⟨t, accepted_all_perm hperm hall, rfl⟩
  · intro label feature_end_time cs s' t hlabel hsame hall
    obtain ⟨t', hall', hsame'⟩ := hsame.accepted_all hlabel hall
    exact ⟨t', hall', fun rows hrows => hsame'.compute sqrt hrows⟩

/-- Two instruments. -/
def pair : CrossSectionalConfig := { universe_ := [{ instrument := 1 }, { instrument := 2, sector := 3 }] }

def calls : List Contributed := [⟨2, some 0.5, some 7⟩, ⟨1, none, some 9⟩]

theorem barrier_iff_pair : ∃ t, (new pair).accepted_all 5 calls.reverse = some t := by
  have hsome : ((new pair).accepted_all 5 calls).isSome = true := by decide
  obtain ⟨t, hall⟩ := Option.isSome_iff_exists.mp hsome
  obtain ⟨t', hall', -⟩ := (barrier_iff (new pair) id).2.1 5 calls calls.reverse t calls.reverse_perm.symm hall
  exact ⟨t', hall'⟩

/-- An unknown instrument sets the time of the bar, and the next call is refused. -/
theorem unknown_instrument_sets_bar_time :
    ¬ ∀ (s : CrossSectionalStage) (feature_end_time : Timestamp) (c : Contributed) (e : Error),
      (s.contribute feature_end_time c).1 = .error e → (s.contribute feature_end_time c).2 = s := by
  intro hall
  have hsame := hall (new pair) 5 ⟨9, none, none⟩
  rw [contribute_error_unchanged_iff] at hsame
  exact hsame ⟨by decide, by decide, by decide⟩

end CrossSectionalStage

end ptl.features
