import TradingLab.Machine
import TradingLab.Strategy.Dependencies

open Std (TreeMap)

namespace ptl.strategy

/-! ### What the calls do -/

/-- A registration is refused, or adds a version that was not there. -/
theorem StrategyRegistry.register_cases (readers : NumberReaders) (r : StrategyRegistry) (d : StrategyDescriptor) :
    (r.register_strategy readers d).2 = r ∨
      r.descriptors[d.key]? = none ∧
        (r.register_strategy readers d).2.descriptors = r.descriptors.insert d.key d := by
  unfold register_strategy
  cases d.refusal readers with
  | some err => exact .inl rfl
  | none =>
    by_cases hthere : r.descriptors.contains d.key = true
    · exact .inl (by rw [if_pos hthere])
    · refine .inr ⟨?_, by rw [if_neg hthere]⟩
      exact TreeMap.getElem?_eq_none (by rwa [← TreeMap.contains_iff_mem])

/-- A move is refused or changes nothing, or gives a version that is not retired
another state; a draft is not moved to production. -/
theorem StrategyRegistry.transition_cases (r : StrategyRegistry) (id : StrategyId) (version : StrategyVersion)
    (target : StrategyState) :
    (r.transition id version target).2 = r ∨
      ∃ d, r.find id version = some d ∧ d.state ≠ target ∧ d.state ≠ .Retired ∧
        ¬ (d.state = .Draft ∧ target = .Production) ∧
        (r.transition id version target).2.descriptors =
          r.descriptors.insert (id.value, version) { d with state := target } := by
  unfold transition
  split
  · exact .inl rfl
  · rename_i d hfind
    by_cases hsame : d.state = target
    · exact .inl (by rw [if_pos hsame])
    by_cases hretired : d.state = .Retired
    · exact .inl (by rw [if_neg hsame, if_pos hretired])
    by_cases hdraft : d.state = .Draft ∧ target = .Production
    · exact .inl (by rw [if_neg hsame, if_neg hretired, if_pos hdraft])
    · exact .inr ⟨d, hfind, hsame, hretired, hdraft, by rw [if_neg hsame, if_neg hretired, if_neg hdraft]⟩

/-! ### The catalogue over its calls -/

inductive Call where
  | register (d : StrategyDescriptor)
  | transition (id : StrategyId) (version : StrategyVersion) (target : StrategyState)

/-- A registry, and the states each version has been in since it was registered. -/
structure Catalogue where
  registry : StrategyRegistry
  past : Key → List StrategyState

def Call.run (readers : NumberReaders) (r : StrategyRegistry) : Call → StrategyRegistry
  | .register d => (r.register_strategy readers d).2
  | .transition id version target => (r.transition id version target).2

/-- The past of a version after a call, from its state before and after. -/
def recorded (past : List StrategyState) : Option StrategyState → Option StrategyState → List StrategyState
  | none, some now => [now]
  | some before, some now => if before = now then past else past ++ [now]
  | _, none => past

def StrategyRegistry.state (r : StrategyRegistry) (key : Key) : Option StrategyState :=
  (r.descriptors[key]?).map (·.state)

def Catalogue.next (readers : NumberReaders) (c : Catalogue) (call : Call) : Catalogue where
  registry := call.run readers c.registry
  past := fun key => recorded (c.past key) (c.registry.state key) ((call.run readers c.registry).state key)

/-- An empty catalogue, and then any calls. -/
def catalogueMachine (readers : NumberReaders) : Machine Catalogue Call where
  Init := fun c => c = { registry := .empty, past := fun _ => [] }
  step := fun c call => some (c.next readers call)

/-- A version in production was in research, and later a candidate, before it
entered production. -/
def Catalogue.Reviewed (c : Catalogue) : Prop :=
  ∀ key, c.registry.state key = some .Production →
    ∃ before, c.past key = before ++ [.Production] ∧ [StrategyState.Research, .Candidate].Sublist before

/-- A move that keeps to the review: into candidate from research, or back from
production, and into production from candidate. -/
def Keeps (before target : StrategyState) : Prop :=
  (target = .Candidate → before = .Research ∨ before = .Production) ∧
    (target = .Production → before = .Candidate)

instance Keeps.instDecidable (before target : StrategyState) : Decidable (Keeps before target) :=
  inferInstanceAs (Decidable (_ ∧ _))

/-- A version is registered neither as a candidate nor in production, and every
move that is made keeps to the review. -/
def Proper (c : Catalogue) : Call → Prop
  | .register d => d.state ≠ .Candidate ∧ d.state ≠ .Production
  | .transition id version target =>
    ∀ before, c.registry.state (id.value, version) = some before → before ≠ target → Keeps before target

/-- What a call does to the state of each version: nothing, a registration, or
one move. -/
theorem Call.state_cases (readers : NumberReaders) (r : StrategyRegistry) (call : Call) (key : Key) :
    (call.run readers r).state key = r.state key ∨
      (∃ d, call = .register d ∧ key = d.key ∧ r.state key = none ∧
        (call.run readers r).state key = some d.state) ∨
      ∃ id version target before, call = .transition id version target ∧ key = (id.value, version) ∧
        r.state key = some before ∧ before ≠ target ∧ before ≠ .Retired ∧
          (call.run readers r).state key = some target := by
  cases call with
  | register d =>
    obtain hsame | ⟨hnew, hinsert⟩ := r.register_cases readers d
    · exact .inl (by rw [run, hsame])
    · by_cases hkey : d.key = key
      · refine .inr (.inl ⟨d, rfl, hkey.symm, ?_, ?_⟩)
        · rw [StrategyRegistry.state, ← hkey, hnew]
          rfl
        · rw [run, StrategyRegistry.state, hinsert, ← hkey, Table.getElem?_insert_self]
          rfl
      · refine .inl ?_
        rw [run, StrategyRegistry.state, hinsert, Table.getElem?_insert_of_ne _ _ hkey]
        rfl
  | transition id version target =>
    obtain hsame | ⟨d, hfind, hmoved, hretired, _, hinsert⟩ := r.transition_cases id version target
    · exact .inl (by rw [run, hsame])
    · by_cases hkey : ((id.value, version) : Key) = key
      · refine .inr (.inr ⟨id, version, target, d.state, rfl, hkey.symm, ?_, hmoved, hretired, ?_⟩)
        · rw [← hkey]
          exact congrArg (Option.map (·.state)) hfind
        · rw [run, StrategyRegistry.state, hinsert, ← hkey, Table.getElem?_insert_self]
          rfl
      · refine .inl ?_
        rw [run, StrategyRegistry.state, hinsert, Table.getElem?_insert_of_ne _ _ hkey]
        rfl

/-- What is recorded of a version whose calls were all proper. -/
structure Catalogue.Recorded (c : Catalogue) (key : Key) (now : StrategyState) : Prop where
  ends : ∃ before, c.past key = before ++ [now] ∧
    (now = .Candidate → StrategyState.Research ∈ before) ∧
    (now = .Production → [StrategyState.Research, .Candidate].Sublist before)

theorem Catalogue.Recorded.step {readers : NumberReaders} {c : Catalogue} {call : Call}
    (hproper : Proper c call) (hc : ∀ key now, c.registry.state key = some now → c.Recorded key now)
    (key : Key) (now : StrategyState) (hnow : (c.next readers call).registry.state key = some now) :
    (c.next readers call).Recorded key now := by
  obtain hsame | ⟨d, rfl, rfl, hnone, hstate⟩ | ⟨id, version, target, before, rfl, rfl, hbefore, hmoved, _, hstate⟩ :=
    call.state_cases readers c.registry key
  · have hold : c.registry.state key = some now := hsame ▸ hnow
    have hpast : (c.next readers call).past key = c.past key := by
      simp only [next, hsame, hold, recorded, if_true]
    exact ⟨hpast ▸ (hc key now hold).ends⟩
  · have hd : now = d.state := Option.some.inj (hnow.symm.trans hstate)
    have hpast : (c.next readers (.register d)).past d.key = [] ++ [now] := by
      simp only [next, hnone, hstate, recorded, hd, List.nil_append]
    refine ⟨[], hpast, fun hcandidate => ?_, fun hproduction => ?_⟩
    · exact absurd (hd.symm.trans hcandidate) hproper.1
    · exact absurd (hd.symm.trans hproduction) hproper.2
  · obtain rfl : now = target := Option.some.inj (hnow.symm.trans hstate)
    have hpast : (c.next readers (.transition id version now)).past (id.value, version) =
        c.past (id.value, version) ++ [now] := by
      simp only [next, hbefore, hstate, recorded, if_neg hmoved]
    obtain ⟨earlier, hends, hcandidate, hproduction⟩ := (hc _ _ hbefore).ends
    obtain ⟨hinto, hup⟩ := hproper before hbefore hmoved
    refine ⟨c.past (id.value, version), hpast, fun hnow => ?_, fun hnow => ?_⟩
    · rw [hends]
      obtain rfl | rfl := hinto hnow
      · simp
      · exact List.mem_append_left _ ((hproduction rfl).subset (by simp))
    · obtain rfl := hup hnow
      rw [hends]
      exact List.Sublist.append (List.singleton_sublist.mpr (hcandidate rfl)) (List.Sublist.refl _)

/-- A retired version stays retired whatever is called. -/
theorem Catalogue.retired_stays (readers : NumberReaders) {c c' : Catalogue} {key : Key} (calls : List Call)
    (hretired : c.registry.state key = some .Retired)
    (hexec : (catalogueMachine readers).exec c calls = some c') :
    c'.registry.state key = some .Retired := by
  induction calls generalizing c with
  | nil =>
    cases hexec
    exact hretired
  | cons call calls ih =>
    refine ih (c := c.next readers call) ?_ hexec
    obtain hsame | ⟨d, _, _, hnone, _⟩ | ⟨_, _, _, before, _, _, hbefore, _, hnot, _⟩ :=
      call.state_cases readers c.registry key
    · exact hsame.trans hretired
    · cases hretired.symm.trans hnone
    · exact absurd (Option.some.inj (hbefore.symm.trans hretired)) hnot

/-- As long as every call is proper, every version in production was reviewed;
and in every run a retired version stays retired. -/
theorem catalogueMachine_reviewed (readers : NumberReaders) :
    (∀ c, (catalogueMachine readers).Reaches Proper c → c.Reviewed) ∧
      ∀ c, (catalogueMachine readers).Reachable c → ∀ key, c.registry.state key = some .Retired →
        ∀ calls c', (catalogueMachine readers).exec c calls = some c' →
          c'.registry.state key = some .Retired := by
  refine ⟨fun c hreach key hproduction => ?_, fun c _ key hretired calls c' hexec =>
    c.retired_stays readers calls hretired hexec⟩
  have hrecorded : ∀ key now, c.registry.state key = some now → c.Recorded key now := by
    refine Machine.Reaches.invariant (I := fun c => ∀ key now, c.registry.state key = some now →
      c.Recorded key now) ?_ ?_ hreach
    · rintro c rfl key now hnow
      simp [StrategyRegistry.state, StrategyRegistry.empty] at hnow
    · intro c call c' _ hc hproper hstep
      obtain rfl := Option.some.inj hstep
      exact Catalogue.Recorded.step hproper hc
  obtain ⟨before, hends, _, hreviewed⟩ := (hrecorded key _ hproduction).ends
  exact ⟨before, hends, hreviewed rfl⟩

/-- A version is registered in research and moved straight to production: it was
never a candidate. -/
theorem catalogueMachine_unreviewed : ¬ ∀ (readers : NumberReaders) (c : Catalogue),
    (catalogueMachine readers).Reachable c → c.Reviewed := by
  intro hall
  let calls : List Call :=
    [.register { trendFirst with state := .Research }, .transition trend trendFirst.version .Production]
  obtain ⟨c, hreach, hc⟩ := Machine.Reaches.exec_map (M := catalogueMachine ⟨fun _ => none, fun _ => none⟩)
    (G := fun _ _ => True) (.init rfl) calls (fun c => (c.registry.state trendFirst.key, c.past trendFirst.key))
    (b := (some .Production, [.Research, .Production]))
    (Machine.along_of_forall (fun _ _ => trivial) _ _) (by decide +kernel)
  obtain ⟨hstate, hpast⟩ := Prod.mk.inj hc
  obtain ⟨before, hends, hreviewed⟩ := hall _ c hreach trendFirst.key hstate
  rw [hpast] at hends
  obtain rfl : before = [.Research] := (List.append_inj_left' hends rfl).symm
  revert hreviewed
  decide

end ptl.strategy
