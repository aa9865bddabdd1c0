import TradingLab.Strategy.Registry

open Std (TreeMap TransOrd TransCmp)
open Relation (ReflTransGen TransGen)

namespace ptl.strategy

/-! ### The latest version -/

/-- A registered descriptor of an id. -/
def StrategyRegistry.Registered (r : StrategyRegistry) (id : StrategyId) (d : StrategyDescriptor) : Prop :=
  d.id = id ∧ r.find id d.version = some d

theorem StrategyRegistry.registered_of_mem (r : StrategyRegistry) {id : StrategyId} {key : Key}
    {d : StrategyDescriptor} (hmem : (key, d) ∈ r.descriptors.toList) (hid : key.1 = id.value) :
    r.Registered id d := by
  have hlookup := TreeMap.mem_toList_iff_getElem?_eq_some.mp hmem
  have hkey := r.keyed key d hlookup
  have hvalue : d.id = id := StrategyId.ext ((congrArg Prod.fst hkey).trans hid)
  refine ⟨hvalue, ?_⟩
  subst hvalue
  rw [← hkey] at hlookup
  exact hlookup

/-- What the loop of `latest` holds after a list of entries: nothing while there was
no entry of the id, and else one that none of them is above. -/
structure Best (id : StrategyId) (entries : List (Key × StrategyDescriptor))
    (best : Option StrategyDescriptor) : Prop where
  none_of : best = none → ∀ e ∈ entries, e.1.1 ≠ id.value
  among : ∀ d, best = some d → ∃ e ∈ entries, e.1.1 = id.value ∧ e.2 = d
  above : ∀ d, best = some d → ∀ e ∈ entries, e.1.1 = id.value → (compare e.2.version d.version).isLE

section Best

variable {id : StrategyId} {entries : List (Key × StrategyDescriptor)} {best : Option StrategyDescriptor}
  {key : Key} {d : StrategyDescriptor}

/-- An entry that no earlier one is above takes over. -/
theorem Best.replace (hid : key.1 = id.value)
    (hover : ∀ e ∈ entries, e.1.1 = id.value → (compare e.2.version d.version).isLE) :
    Best id (entries ++ [(key, d)]) (some d) where
  none_of := fun h => by cases h
  among := by
    rintro _ ⟨⟩
    exact ⟨(key, d), by simp, hid, rfl⟩
  above := by
    rintro _ ⟨⟩ e he hother
    obtain he | he := List.mem_append.mp he
    · exact hover e he hother
    · rw [List.mem_singleton.mp he]
      exact Std.ReflCmp.isLE_rfl

/-- An entry of another id, or below the best one, changes nothing. -/
theorem Best.keep (hbest : Best id entries best)
    (hunder : key.1 = id.value → ∃ b, best = some b ∧ (compare d.version b.version).isLE) :
    Best id (entries ++ [(key, d)]) best where
  none_of := by
    intro h e he
    obtain he | he := List.mem_append.mp he
    · exact hbest.none_of h e he
    · rw [List.mem_singleton.mp he]
      intro hid
      obtain ⟨b, hb, _⟩ := hunder hid
      cases h.symm.trans hb
  among := by
    intro b hb
    obtain ⟨e, he, hfound⟩ := hbest.among b hb
    exact ⟨e, List.mem_append_left _ he, hfound⟩
  above := by
    intro b hb e he hother
    obtain he | he := List.mem_append.mp he
    · exact hbest.above b hb e he hother
    · rw [List.mem_singleton.mp he] at hother ⊢
      obtain ⟨b', hb', hle⟩ := hunder hother
      obtain rfl : b' = b := Option.some.inj (hb'.symm.trans hb)
      exact hle

theorem Best.step (hbest : Best id entries best) (key : Key) (d : StrategyDescriptor) :
    Best id (entries ++ [(key, d)]) (keep_latest id best key d) := by
  unfold keep_latest
  by_cases hid : key.1 = id.value
  · rw [if_neg (not_not.mpr hid)]
    cases best with
    | none => exact .replace hid fun e he hother => absurd hother (hbest.none_of rfl e he)
    | some b =>
      dsimp only
      by_cases hless : compare b.version d.version = .lt
      · rw [if_pos hless]
        exact .replace hid fun e he hother =>
          TransCmp.isLE_trans (hbest.above b rfl e he hother) (by rw [hless]; rfl)
      · rw [if_neg hless]
        refine hbest.keep fun _ => ⟨b, rfl, ?_⟩
        rw [← Std.OrientedCmp.isGE_iff_isLE]
        cases hcompare : compare b.version d.version with
        | lt => exact absurd hcompare hless
        | eq => rfl
        | gt => rfl
  · rw [if_pos hid]
    exact hbest.keep fun h => absurd h hid

end Best

theorem StrategyRegistry.latest_best (r : StrategyRegistry) (id : StrategyId) :
    Best id r.descriptors.toList (r.latest id) := by
  rw [latest, TreeMap.foldl_eq_foldl_toList]
  have hgen : ∀ (rest before : List (Key × StrategyDescriptor)) (best : Option StrategyDescriptor),
      Best id before best →
        Best id (before ++ rest) (rest.foldl (fun best e => keep_latest id best e.1 e.2) best) := by
    intro rest
    induction rest with
    | nil => intro before best hbest; simpa using hbest
    | cons e rest ih =>
      intro before best hbest
      have hstep := ih _ _ (hbest.step e.1 e.2)
      rwa [List.append_assoc, List.singleton_append] at hstep
  have hempty : Best id [] none := ⟨fun _ e he => absurd he List.not_mem_nil, fun d h => (by cases h),
    fun d h => (by cases h)⟩
  simpa using hgen r.descriptors.toList [] none hempty

/-- The latest version of an id is registered, and no other is above it. -/
theorem StrategyRegistry.latest_eq_some (r : StrategyRegistry) {id : StrategyId} {d : StrategyDescriptor}
    (hlatest : r.latest id = some d) : r.Registered id d ∧
      ∀ d', r.Registered id d' → (compare d'.version d.version).isLE := by
  have hbest := r.latest_best id
  obtain ⟨e, he, hid, rfl⟩ := hbest.among d hlatest
  refine ⟨r.registered_of_mem he hid, fun d' hd' => ?_⟩
  have hmem := TreeMap.mem_toList_iff_getElem?_eq_some.mpr hd'.2
  exact hbest.above _ hlatest _ hmem rfl

/-! ### The graph of ids -/

variable (r : StrategyRegistry) (root : StrategyDescriptor)

/-- What an id depends on: the root as it was asked for, every other id at its
latest registered version. -/
def StrategyRegistry.deps (id : StrategyId) : Option (List StrategyId) :=
  if id = root.id then some root.depends_on else (r.latest id).map (·.depends_on)

/-- A walk as a search of that graph. -/
def Walk.search (w : Walk) : DepthFirst.Search StrategyId where
  stack := w.stack.map fun f => ⟨f.descriptor.id, f.descriptor.depends_on.drop f.next⟩
  mark := w.mark
  ordered := w.ordered

def Walk.start : Walk where
  stack := [{ descriptor := root }]
  mark := Function.update (fun _ => .unseen) root.id .visiting
  ordered := []

/-- The walk goes along with the search. The root is never looked up again,
since it was seen from the start. -/
structure Along (w : Walk) (s : DepthFirst.Search StrategyId) : Prop where
  search : w.search = s
  rooted : w.mark root.id ≠ .unseen

variable {r root}

theorem Along.initial : Along root (Walk.start root) (DepthFirst.start root.id root.depends_on) where
  search := rfl
  rooted := by simp [Walk.start]

theorem update_seen {mark : StrategyId → DepthFirst.Mark} (hrooted : mark root.id ≠ .unseen) (id : StrategyId)
    {seen : DepthFirst.Mark} (hseen : seen ≠ .unseen) : Function.update mark id seen root.id ≠ .unseen := by
  by_cases hid : root.id = id
  · rw [hid, Function.update_self]
    exact hseen
  · rw [Function.update_of_ne hid]
    exact hrooted

/-- A turn of the loop is a turn of the search, or both fail. -/
theorem Along.turn {w : Walk} {s : DepthFirst.Search StrategyId} (halong : Along root w s) :
    (∃ o o', r.turn w = .ok o ∧ DepthFirst.turn (r.deps root) s = .ok o' ∧ Option.Rel (Along root) o o') ∨
      ∃ e f, r.turn w = .error e ∧ DepthFirst.turn (r.deps root) s = .error f := by
  obtain ⟨rfl, hrooted⟩ := halong
  obtain ⟨stack, mark, ordered⟩ := w
  cases stack with
  | nil => exact .inl ⟨none, none, rfl, rfl, .none⟩
  | cons frame below =>
    obtain ⟨d, next⟩ := frame
    cases hnext : d.depends_on[next]? with
    | none =>
      have hdrop : d.depends_on.drop next = [] := List.drop_eq_nil_of_le (List.getElem?_eq_none_iff.mp hnext)
      refine .inl ⟨some ⟨below, Function.update mark d.id .done, ordered ++ [d.id]⟩, some _, ?_, ?_, .some ⟨rfl, ?_⟩⟩
      · simp only [StrategyRegistry.turn, hnext]
      · simp only [Walk.search, List.map_cons, hdrop, DepthFirst.turn]
      · exact update_seen hrooted d.id (by decide)
    | some dependency =>
      have hdrop : d.depends_on.drop next = dependency :: d.depends_on.drop (next + 1) := by
        obtain ⟨hlt, hget⟩ := List.getElem?_eq_some_iff.mp hnext
        rw [List.drop_eq_getElem_cons hlt, hget]
      simp only [StrategyRegistry.turn, hnext, Walk.search, List.map_cons, hdrop, DepthFirst.turn]
      cases hmark : mark dependency with
      | visiting => exact .inr ⟨_, _, rfl, rfl⟩
      | done => exact .inl ⟨_, _, rfl, rfl, .some ⟨rfl, hrooted⟩⟩
      | unseen =>
        have hother : dependency ≠ root.id := fun heq => hrooted (heq ▸ hmark)
        cases hlatest : r.latest dependency with
        | none =>
          have hdeps : r.deps root dependency = none := by
            rw [StrategyRegistry.deps, if_neg hother, hlatest, Option.map_none]
          simp only [hdeps]
          exact .inr ⟨_, _, rfl, rfl⟩
        | some found =>
          have hdeps : r.deps root dependency = some found.depends_on := by
            rw [StrategyRegistry.deps, if_neg hother, hlatest, Option.map_some]
          have hid : found.id = dependency := (r.latest_eq_some hlatest).1.1
          simp only [hdeps]
          refine .inl ⟨_, _, rfl, rfl, .some ⟨?_, update_seen hrooted dependency (by decide)⟩⟩
          simp [Walk.search, hid]

/-- The loop follows the search, and the search the loop. -/
theorem turn_follows : Driver.Follows r.turn (DepthFirst.turn (r.deps root)) (Along root) := by
  intro w s halong o hturn
  obtain ⟨o', o'', hok, hok', hrel⟩ | ⟨e, f, hfail, _⟩ := halong.turn (r := r)
  · rw [hturn] at hok
    cases hok
    exact ⟨o'', hok', hrel⟩
  · rw [hturn] at hfail
    cases hfail

theorem search_follows : Driver.Follows (DepthFirst.turn (r.deps root)) r.turn fun s w => Along root w s := by
  intro s w halong o hturn
  obtain ⟨o', o'', hok, hok', hrel⟩ | ⟨e, f, _, hfail⟩ := halong.turn (r := r)
  · rw [hturn] at hok'
    cases hok'
    refine ⟨o', hok, ?_⟩
    cases hrel with
    | none => exact .none
    | some h => exact .some h
  · rw [hturn] at hfail
    cases hfail

/-! ### The walk ends -/

/-- The ids that are registered at some version. -/
def StrategyRegistry.known (r : StrategyRegistry) : Finset StrategyId :=
  (r.descriptors.toList.map fun e => e.2.id).toFinset

theorem StrategyRegistry.mem_known (r : StrategyRegistry) {id : StrategyId} {d : StrategyDescriptor}
    (hregistered : r.Registered id d) : id ∈ r.known := by
  have hmem := TreeMap.mem_toList_iff_getElem?_eq_some.mpr hregistered.2
  exact List.mem_toFinset.mpr (List.mem_map.mpr ⟨_, hmem, hregistered.1⟩)

/-- What an id depends on is what a descriptor registered under it says. -/
theorem StrategyRegistry.registered_of_deps {id : StrategyId} {ds : List StrategyId}
    (hroot : r.Registered root.id root) (hdeps : r.deps root id = some ds) :
    ∃ d, r.Registered id d ∧ d.depends_on = ds := by
  unfold StrategyRegistry.deps at hdeps
  split at hdeps
  · rename_i hid
    exact ⟨root, hid ▸ hroot, Option.some.inj hdeps⟩
  · obtain ⟨d, hlatest, hds⟩ := Option.map_eq_some_iff.mp hdeps
    exact ⟨d, (r.latest_eq_some hlatest).1, hds⟩

theorem StrategyRegistry.depends_on_le (r : StrategyRegistry) {id : StrategyId} {d : StrategyDescriptor}
    (hregistered : r.Registered id d) :
    d.depends_on.length ≤ r.descriptors.foldl (fun total _ d => total + d.depends_on.length) 0 := by
  have htotal := Table.foldl_eq_sum (fun (_ : Key) (d : StrategyDescriptor) => d.depends_on.length) r.descriptors
  rw [htotal, Table.sum]
  have hmem := TreeMap.mem_toList_iff_getElem?_eq_some.mpr hregistered.2
  exact List.single_le_sum (fun _ _ => Nat.zero_le _) _ (List.mem_map.mpr ⟨_, hmem, rfl⟩)

/-- The fuel is more than there is to do at the start. -/
theorem StrategyRegistry.work_lt_turns (hroot : r.Registered root.id root) :
    DepthFirst.work (r.deps root) r.known (DepthFirst.start root.id root.depends_on) < r.turns := by
  have hlength := r.depends_on_le hroot
  unfold turns
  generalize htotal : r.descriptors.foldl (fun total _ d => total + d.depends_on.length) 0 = total at hlength ⊢
  have hweight : ∀ a ∈ r.known.filter fun a =>
      (DepthFirst.start root.id root.depends_on).mark a = .unseen,
      DepthFirst.weight (r.deps root) a ≤ total + 2 := by
    intro a _
    unfold DepthFirst.weight
    cases hdeps : r.deps root a with
    | none => simp
    | some ds =>
      obtain ⟨d, hd, rfl⟩ := StrategyRegistry.registered_of_deps hroot hdeps
      have hle := r.depends_on_le hd
      rw [htotal] at hle
      simpa using hle
  have hsum := Finset.sum_le_card_nsmul _ _ _ hweight
  have hcard : (r.known.filter fun a =>
      (DepthFirst.start root.id root.depends_on).mark a = .unseen).card ≤ r.descriptors.size := by
    refine (Finset.card_filter_le _ _).trans ((List.toFinset_card_le _).trans ?_)
    rw [List.length_map, TreeMap.length_toList]
  have hproduct := Nat.mul_le_mul_right (total + 2) hcard
  rw [nsmul_eq_mul, Nat.cast_id] at hsum
  have hstack : ((DepthFirst.start root.id root.depends_on).stack.map fun f => f.rest.length + 1).sum =
      root.depends_on.length + 1 := by simp [DepthFirst.start]
  rw [DepthFirst.work, hstack]
  refine lt_of_le_of_lt (Nat.add_le_add_right (hsum.trans hproduct) _) ?_
  rw [Nat.add_mul]
  omega

/-- The fuel suffices: the walk comes to a result. -/
theorem StrategyRegistry.walk_ends (hroot : r.Registered root.id root) :
    ∃ result, Driver.drain r.turn 1 r.turns (Walk.start root) = some result := by
  have hknown : ∀ a, (r.deps root a).isSome → a ∈ r.known := by
    intro a hsome
    obtain ⟨ds, hds⟩ := Option.isSome_iff_exists.mp hsome
    obtain ⟨d, hd, _⟩ := StrategyRegistry.registered_of_deps hroot hds
    exact r.mem_known hd
  refine Driver.drain_of_measure (fun w => Along root w w.search)
    (fun w => DepthFirst.work (r.deps root) r.known w.search) ?_ Along.initial ?_
  · intro w w' halong hturn
    obtain ⟨o', hsearch, hrel⟩ := turn_follows w _ halong _ hturn
    cases hrel with
    | some halong' =>
      obtain rfl := halong'.search
      exact ⟨halong', DepthFirst.turn_work hknown hsearch⟩
  · exact StrategyRegistry.work_lt_turns hroot

/-! ### What is resolved -/

/-- A call comes to a result. It succeeds exactly when the version is registered and every
id that can be reached from it is resolved and on no cycle; and then it lists those ids,
each once and after all it depends on, the root last. -/
theorem StrategyRegistry.resolve_dependencies_spec (r : StrategyRegistry) (id : StrategyId)
    (version : StrategyVersion) :
    ∃ result, r.resolve_dependencies id version = some result ∧
      ((∃ order, result = .ok order) ↔
        ∃ root, r.find id version = some root ∧ DepthFirst.Sound (r.deps root) id) ∧
      ∀ order, result = .ok order →
        ∃ root, r.find id version = some root ∧ DepthFirst.Resolved (r.deps root) id order := by
  cases hfind : r.find id version with
  | none =>
    refine ⟨.error (bad "no such strategy" (label id version)), ?_, ?_, ?_⟩
    · rw [resolve_dependencies, hfind]
    · simp
    · intro order horder
      cases horder
  | some root =>
    have hkey : root.key = (id.value, version) := r.keyed _ root hfind
    have hid : root.id = id := StrategyId.ext (congrArg Prod.fst hkey)
    have hversion : root.version = version := congrArg Prod.snd hkey
    subst hid hversion
    have hroot : r.Registered root.id root := ⟨rfl, hfind⟩
    have hdeps : r.deps root root.id = some root.depends_on := if_pos rfl
    obtain ⟨result, hresult⟩ := StrategyRegistry.walk_ends hroot
    have hdrains := Driver.Drains.of_drain hresult
    refine ⟨result.map Walk.ordered, ?_, ?_⟩
    · rw [resolve_dependencies, hfind]
      exact congrArg (Option.map _) hresult
    cases result with
    | ok w =>
      obtain ⟨s, hsearch, halong⟩ := turn_follows.drains hdrains Along.initial
      have hresolved := DepthFirst.resolved_of_drains hdeps hsearch
      rw [← halong.search] at hresolved
      refine ⟨⟨fun _ => ⟨root, rfl, hresolved.sound⟩, fun _ => ⟨w.ordered, rfl⟩⟩, fun order horder => ?_⟩
      cases horder
      exact ⟨root, rfl, hresolved⟩
    | error e =>
      obtain ⟨f, hsearch⟩ := search_follows.fails hdrains Along.initial
      have hunsound := (DepthFirst.explains_of_drains hdeps hsearch).not_sound
      refine ⟨⟨fun ⟨order, horder⟩ => (by cases horder), fun ⟨root', hroot', hsound⟩ => ?_⟩,
        fun order horder => (by cases horder)⟩
      cases hroot'
      exact absurd hsound hunsound

/-! ### Versions apart -/

/-- One version uses another: a dependency, at its latest. -/
def StrategyRegistry.Uses (r : StrategyRegistry) (d d' : StrategyDescriptor) : Prop :=
  ∃ id ∈ d.depends_on, r.latest id = some d'

def trend : StrategyId := (StrategyId.create "trend").value

def blend : StrategyId := (StrategyId.create "blend").value

def trendFirst : StrategyDescriptor := { id := trend, depends_on := [blend] }

def blendOfTrend : StrategyDescriptor := { id := blend, depends_on := [trend] }

def trendSecond : StrategyDescriptor := { id := trend, version := { major := 2 } }

/-- A strategy whose second version no longer uses what uses it. -/
def twoVersions : StrategyRegistry :=
  let readers : NumberReaders := ⟨fun _ => none, fun _ => none⟩
  let first := (StrategyRegistry.register_strategy readers {} trendFirst).2
  let second := (first.register_strategy readers blendOfTrend).2
  (second.register_strategy readers trendSecond).2

theorem twoVersions_uses {d d' : StrategyDescriptor} (huses : twoVersions.Uses d d') :
    (d = trendFirst → d' = blendOfTrend) ∧ (d = blendOfTrend → d' = trendSecond) ∧ d ≠ trendSecond := by
  have htrend : twoVersions.latest trend = some trendSecond := by decide +kernel
  have hblend : twoVersions.latest blend = some blendOfTrend := by decide +kernel
  obtain ⟨id, hid, hlatest⟩ := huses
  refine ⟨?_, ?_, ?_⟩
  · rintro rfl
    obtain rfl := List.mem_singleton.mp hid
    exact (Option.some.inj (hblend.symm.trans hlatest)).symm
  · rintro rfl
    obtain rfl := List.mem_singleton.mp hid
    exact (Option.some.inj (htrend.symm.trans hlatest)).symm
  · rintro rfl
    cases hid

/-- The marks do not tell the versions of an id apart: a dependency on another version of the
root is taken for a cycle. -/
theorem resolve_dependencies_versions : ¬ ∀ (r : StrategyRegistry) (root : StrategyDescriptor),
    r.find root.id root.version = some root →
      ((∃ order, r.resolve_dependencies root.id root.version = some (.ok order)) ↔
        ∀ d, ReflTransGen r.Uses root d →
          (∀ id ∈ d.depends_on, (r.latest id).isSome) ∧ ¬ TransGen r.Uses d d) := by
  intro hall
  have hreach : ∀ {d}, ReflTransGen twoVersions.Uses trendFirst d →
      d = trendFirst ∨ d = blendOfTrend ∨ d = trendSecond := by
    intro d hpath
    induction hpath with
    | refl => exact .inl rfl
    | tail _ huses ih =>
      obtain ⟨hfirst, hblend, hsecond⟩ := twoVersions_uses huses
      rcases ih with heq | heq | heq
      · exact .inr (.inl (hfirst heq))
      · exact .inr (.inr (hblend heq))
      · exact absurd heq hsecond
  -- a version is used up to its second one, and that uses nothing
  have hforward : ∀ {d d'}, TransGen twoVersions.Uses d d' →
      (d = trendFirst → d' ≠ trendFirst) ∧ (d = blendOfTrend → d' = trendSecond) ∧ d ≠ trendSecond := by
    intro d d' hpath
    induction hpath with
    | single huses =>
      obtain ⟨hfirst, hblend, hsecond⟩ := twoVersions_uses huses
      exact ⟨fun heq => hfirst heq ▸ by decide +kernel, hblend, hsecond⟩
    | tail hbefore huses ih =>
      obtain ⟨hfirst, hblend, hsecond⟩ := ih
      obtain ⟨hfirst', hblend', hsecond'⟩ := twoVersions_uses huses
      refine ⟨fun heq hback => ?_, fun heq => absurd (hblend heq) hsecond', hsecond⟩
      obtain hmid | hmid | hmid := hreach (heq ▸ hbefore.to_reflTransGen)
      · exact hfirst heq hmid
      · exact absurd ((hblend' hmid).symm.trans hback) (by decide +kernel)
      · exact hsecond' hmid
  obtain ⟨order, horder⟩ := (hall twoVersions trendFirst (by decide +kernel)).mpr fun d hpath => by
    obtain rfl | rfl | rfl := hreach hpath
    · exact ⟨by decide +kernel, fun hcycle => (hforward hcycle).1 rfl rfl⟩
    · exact ⟨by decide +kernel, fun hcycle => absurd ((hforward hcycle).2.1 rfl) (by decide +kernel)⟩
    · exact ⟨by decide +kernel, fun hcycle => (hforward hcycle).2.2 rfl⟩
  have hfails : ((twoVersions.resolve_dependencies trendFirst.id trendFirst.version).map
      fun result => result.isOk) = some false := by decide +kernel
  rw [horder] at hfails
  cases hfails

end ptl.strategy
