import TradingLab.Features.Order

/-! A partial evaluation, after some base values have changed, finds what a full
one would. -/

open Std (TreeMap)

namespace ptl.features

variable {V : Type}

/-- What a factor computes depends on what it obtains from its inputs only. -/
def FactorDefinition.ReadsThroughGet (f : FactorDefinition V) : Prop :=
  ∀ inputs inputs' : FactorInputs V, (∀ name, inputs.get name = inputs'.get name) →
    f.compute inputs = f.compute inputs'

/-- The values of the names in `dirty` replaced by those of another map. -/
def overwritten (values base : TreeMap String V) (dirty : List String) : TreeMap String V :=
  dirty.foldl (fun values d =>
    match base[d]? with
    | some v => values.insert d v
    | none => values.erase d) values

theorem getElem?_overwritten (values base : TreeMap String V) (dirty : List String) (name : String) :
    (overwritten values base dirty)[name]? = if name ∈ dirty then base[name]? else values[name]? := by
  rw [overwritten]
  induction dirty generalizing values with
  | nil => simp
  | cons d dirty ih =>
    rw [List.foldl_cons, ih]
    by_cases hlater : name ∈ dirty
    · rw [if_pos hlater, if_pos (List.mem_cons_of_mem _ hlater)]
    rw [if_neg hlater]
    by_cases heq : name = d
    · subst heq
      rw [if_pos List.mem_cons_self]
      cases hd : base[name]? <;> simp
    · rw [if_neg (by simp [heq, hlater])]
      cases hd : base[d]? with
      | none => simp [TreeMap.getElem?_erase, Ne.symm heq]
      | some v => simp [TreeMap.getElem?_insert, Ne.symm heq]

/-! ### What is to be computed -/

theorem FactorGraph.mem_dependents_of {g : FactorGraph V} {name other : String} :
    other ∈ g.dependents_of name ↔
      Relation.TransGen (Worklist.User g.definitions.keys g.uses) name other :=
  mem_sorted.trans (Worklist.mem_closure (Table.nodup_keys _))

theorem FactorGraph.user_of_mem {g : FactorGraph V} {name dep : String} {f : FactorDefinition V}
    (hf : g.definitions[name]? = some f) (hdep : dep ∈ f.dependencies) :
    Worklist.User g.definitions.keys g.uses dep name := by
  refine ⟨TreeMap.mem_keys.mpr (TreeMap.mem_iff_isSome_getElem?.mpr (by rw [hf]; rfl)), ?_⟩
  rw [uses, hf]
  exact decide_eq_true hdep

theorem FactorGraph.mem_to_compute {g : FactorGraph V} {dirty : List String} (hdirty : dirty ≠ []) {name : String} :
    name ∈ g.to_compute dirty ↔ ∃ d ∈ dirty, name = d ∨ name ∈ g.dependents_of d := by
  rw [to_compute, if_neg (by simpa using hdirty), List.mem_flatMap]
  simp only [List.mem_cons]

/-- A factor that reads what is computed anew is computed anew. -/
theorem FactorGraph.to_compute_closed {g : FactorGraph V} {dirty : List String} (hdirty : dirty ≠ [])
    {name dep : String} {f : FactorDefinition V} (hf : g.definitions[name]? = some f)
    (hdep : dep ∈ f.dependencies) (hmem : dep ∈ g.to_compute dirty) : name ∈ g.to_compute dirty := by
  obtain ⟨d, hd, hreached⟩ := (mem_to_compute hdirty).mp hmem
  have huser := user_of_mem hf hdep
  refine (mem_to_compute hdirty).mpr ⟨d, hd, .inr (mem_dependents_of.mpr ?_)⟩
  obtain rfl | hreached := hreached
  · exact .single huser
  · exact (mem_dependents_of.mp hreached).tail huser

/-! ### One factor -/

variable {is_finite : V → Bool}

theorem FactorDefinition.ReadsThroughGet.congr {f : FactorDefinition V} (hreads : f.ReadsThroughGet)
    {values values' : TreeMap String V} (hagree : ∀ dep ∈ f.dependencies, values[dep]? = values'[dep]?) :
    f.compute { values, allowed := f.dependencies } =
      f.compute { values := values', allowed := f.dependencies } := by
  refine hreads _ _ fun name => ?_
  by_cases hdeclared : name ∈ f.dependencies
  · simp only [FactorInputs.get, FactorInputs.declared, hagree name hdeclared]
    rfl
  · simp [FactorInputs.get, FactorInputs.declared, hdeclared]

theorem FactorGraph.refresh_clean {g : FactorGraph V} {names : List String} {name : String}
    (hclean : name ∉ names) (values : TreeMap String V) :
    g.refresh is_finite names values name = .ok values :=
  if_pos hclean

theorem FactorGraph.refresh_mem {g : FactorGraph V} {names : List String} {name : String}
    {f : FactorDefinition V} (hf : g.definitions[name]? = some f) (hmem : name ∈ names)
    (values : TreeMap String V) :
    g.refresh is_finite names values name =
      if ¬ is_finite (f.compute { values, allowed := f.dependencies }) then
        .error (bad ("factor produced a non-finite value: " ++ name))
      else .ok (values.insert name (f.compute { values, allowed := f.dependencies })) := by
  rw [refresh, if_neg (not_not.mpr hmem), hf]

/-- The evaluation of one factor writes under its name only. -/
theorem FactorGraph.refresh_frame {g : FactorGraph V} {names : List String} {name other : String}
    {values values' : TreeMap String V} (hrefresh : g.refresh is_finite names values name = .ok values')
    (hne : other ≠ name) : values'[other]? = values[other]? := by
  rw [refresh] at hrefresh
  split at hrefresh
  · cases hrefresh
    rfl
  split at hrefresh
  · cases hrefresh
    rfl
  dsimp only at hrefresh
  split at hrefresh
  · cases hrefresh
  · cases hrefresh
    exact Table.getElem?_insert_of_ne _ _ hne.symm

theorem foldlM_cons_ok {S : Type} {step : S → String → Result S} {name : String} {rest : List String} {s t : S}
    (hrun : (name :: rest).foldlM step s = .ok t) : ∃ u, step s name = .ok u ∧ rest.foldlM step u = .ok t := by
  rw [List.foldlM_cons] at hrun
  cases hstep : step s name with
  | error err =>
    rw [hstep] at hrun
    cases hrun
  | ok u =>
    rw [hstep] at hrun
    exact ⟨u, rfl, hrun⟩

theorem FactorGraph.run_frame {g : FactorGraph V} {names rest : List String} {other : String}
    {values values' : TreeMap String V} (hrun : rest.foldlM (g.refresh is_finite names) values = .ok values')
    (hother : other ∉ rest) : values'[other]? = values[other]? := by
  induction rest generalizing values with
  | nil =>
    cases hrun
    rfl
  | cons name rest ih =>
    obtain ⟨next, hstep, hrest⟩ := foldlM_cons_ok hrun
    rw [List.mem_cons, not_or] at hother
    rw [ih hrest hother.2, g.refresh_frame hstep hother.1]

/-! ### Three runs side by side -/

/-- The factors of `rest` are still to be computed: by the run that came before,
    which will end with `full`, by a full run on the new base values, and by
    the partial run. What is clean has not changed, and what the partial run
    has not come to is as it was left. -/
structure Refreshing (names rest : List String) (full before now partly : TreeMap String V) : Prop where
  fresh : ∀ name ∉ rest, partly[name]? = now[name]?
  clean : ∀ name ∉ rest, name ∉ names → before[name]? = now[name]?
  stale : ∀ name ∈ rest, partly[name]? = full[name]?

/-- A factor that is not computed anew has its old value. A full run finds the
    same one. -/
theorem Refreshing.keep {names rest : List String} {full before now partly : TreeMap String V} {name : String}
    {v : V} (hruns : Refreshing names (name :: rest) full before now partly) (hfull : full[name]? = some v) :
    Refreshing names rest full (before.insert name v) (now.insert name v) partly where
  fresh other hother := by
    rw [Table.getElem?_insert_eq_ite]
    split
    next heq => rw [← heq, hruns.stale name List.mem_cons_self, hfull]
    next hne => exact hruns.fresh other (by simp [Ne.symm hne, hother])
  clean other hother hclean := by
    rw [Table.getElem?_insert_eq_ite, Table.getElem?_insert_eq_ite]
    split
    · rfl
    next hne => exact hruns.clean other (by simp [Ne.symm hne, hother]) hclean
  stale other hother := hruns.stale other (List.mem_cons_of_mem _ hother)

/-- A factor that is computed anew gets one value in both new runs. -/
theorem Refreshing.renew {names rest : List String} {full before now partly : TreeMap String V} {name : String}
    {v w : V} (hruns : Refreshing names (name :: rest) full before now partly) (hlater : name ∉ rest)
    (hmem : name ∈ names) :
    Refreshing names rest full (before.insert name w) (now.insert name v) (partly.insert name v) where
  fresh other hother := by
    rw [Table.getElem?_insert_eq_ite, Table.getElem?_insert_eq_ite]
    split
    · rfl
    next hne => exact hruns.fresh other (by simp [Ne.symm hne, hother])
  clean other hother hclean := by
    have hne : name ≠ other := fun heq => hclean (heq ▸ hmem)
    rw [Table.getElem?_insert_of_ne _ _ hne, Table.getElem?_insert_of_ne _ _ hne]
    exact hruns.clean other (by simp [hne.symm, hother]) hclean
  stale other hother := by
    have hne : name ≠ other := fun heq => hlater (heq ▸ hother)
    rw [Table.getElem?_insert_of_ne _ _ hne]
    exact hruns.stale other (List.mem_cons_of_mem _ hother)

/-- The rest of an order that was resolved: no factor of it reads itself or a
    later one. -/
theorem FactorGraph.Resolved.not_mem_rest {g : FactorGraph V} (hresolved : g.Resolved)
    {seen rest : List String} {name dep : String} {f : FactorDefinition V}
    (horder : g.order = seen ++ name :: rest) (hf : g.definitions[name]? = some f)
    (hdep : dep ∈ f.dependencies) : dep ∉ name :: rest := by
  intro hmem
  have hknown : dep ∈ g.definitions := by
    rw [← TreeMap.mem_keys, ← hresolved.perm.mem_iff, horder]
    exact List.mem_append_right _ hmem
  have hprefixed : seen ++ [name] <+: g.order := ⟨rest, by simp [horder]⟩
  have hseen := hresolved.topological seen name hprefixed f hf dep hdep hknown
  have hnodup := hresolved.nodup
  rw [horder] at hnodup
  exact List.disjoint_of_nodup_append hnodup hseen hmem

theorem Refreshing.run {g : FactorGraph V} (hresolved : g.Resolved)
    (hreads : ∀ (name : String) f, g.definitions[name]? = some f → f.ReadsThroughGet) {names : List String}
    (hclosed : ∀ (name dep : String) f, g.definitions[name]? = some f → dep ∈ f.dependencies → dep ∈ names →
      name ∈ names)
    {full : TreeMap String V} {seen rest : List String} (horder : g.order = seen ++ rest)
    {before now partly : TreeMap String V} (hruns : Refreshing names rest full before now partly)
    (hfull : rest.foldlM (g.refresh is_finite g.order) before = .ok full) :
    (rest.foldlM (g.refresh is_finite names) partly).map TreeMap.toList =
      (rest.foldlM (g.refresh is_finite g.order) now).map TreeMap.toList := by
  induction rest generalizing seen before now partly with
  | nil =>
    have hsame : partly.Equiv now := .of_forall_constGet?_eq fun name => hruns.fresh name List.not_mem_nil
    change Except.ok partly.toList = Except.ok now.toList
    rw [hsame.toList_eq]
  | cons name rest ih =>
    obtain ⟨next, hstep, hrest⟩ := foldlM_cons_ok hfull
    have hnext : g.order = (seen ++ [name]) ++ rest := by simp [horder]
    have hmem : name ∈ g.order := by simp [horder]
    have hlater : name ∉ rest := by
      have hnodup := hresolved.nodup
      rw [horder] at hnodup
      exact (List.nodup_cons.mp hnodup.of_append_right).1
    have hknown : name ∈ g.definitions := TreeMap.mem_keys.mp (hresolved.perm.mem_iff.mp hmem)
    obtain ⟨f, hf⟩ := Option.isSome_iff_exists.mp (TreeMap.isSome_getElem?_iff_mem.mpr hknown)
    have hread : ∀ dep ∈ f.dependencies, dep ∉ name :: rest := fun dep hdep =>
      hresolved.not_mem_rest horder hf hdep
    rw [g.refresh_mem hf hmem] at hstep
    split at hstep
    · cases hstep
    next hfinite =>
      cases hstep
      rw [List.foldlM_cons, List.foldlM_cons, g.refresh_mem hf hmem]
      by_cases hnames : name ∈ names
      · -- both new runs read the same values
        have hvalue := (hreads name f hf).congr fun dep hdep => hruns.fresh dep (hread dep hdep)
        rw [g.refresh_mem hf hnames, hvalue]
        by_cases hbad : is_finite (f.compute { values := now, allowed := f.dependencies }) = true
        · rw [if_neg (not_not.mpr hbad), if_neg (not_not.mpr hbad)]
          exact ih hnext (hruns.renew hlater hnames) hrest
        · rw [if_pos hbad, if_pos hbad]
          rfl
      · -- nothing it reads has changed
        have hvalue := (hreads name f hf).congr fun dep hdep =>
          hruns.clean dep (hread dep hdep) fun hdirty => hnames (hclosed name dep f hf hdep hdirty)
        rw [g.refresh_clean hnames, ← hvalue, if_neg hfinite]
        refine ih hnext (hruns.keep ?_) hrest
        rw [g.run_frame hrest hlater, Table.getElem?_insert_self]

/-- A full evaluation of a resolved graph computes its whole order. -/
theorem FactorGraph.Resolved.evaluate_all {g : FactorGraph V} (hresolved : g.Resolved) (base : TreeMap String V) :
    g.evaluate is_finite base = g.order.foldlM (g.refresh is_finite g.order) base := by
  rw [evaluate, if_neg (by simp [hresolved.finalized])]
  rfl

/-- A partial evaluation of the last full one, with some base values replaced,
    gives what a full evaluation of the new base values gives: the same map,
    or the same error. -/
theorem FactorGraph.evaluate_incremental (is_finite : V → Bool) (g g' : FactorGraph V)
    (hfinal : g.finalize = (.ok true, g'))
    (hreads : ∀ (name : String) f, g.definitions[name]? = some f → f.ReadsThroughGet)
    (dirty : List String) (hdirty : dirty ≠ []) (hbase : ∀ d ∈ dirty, d ∉ g.definitions)
    (b0 b1 full : TreeMap String V) (hagree : ∀ name : String, name ∉ dirty → b1[name]? = b0[name]?)
    (hfull : g'.evaluate is_finite b0 = .ok full) :
    (g'.evaluate is_finite (overwritten full b1 dirty) dirty).map TreeMap.toList =
      (g'.evaluate is_finite b1).map TreeMap.toList := by
  obtain ⟨hresolved, hdefinitions⟩ := finalize_resolved hfinal
  rw [← hdefinitions] at hreads hbase
  rw [hresolved.evaluate_all] at hfull
  have hpart : g'.evaluate is_finite (overwritten full b1 dirty) dirty =
      g'.order.foldlM (g'.refresh is_finite (g'.to_compute dirty)) (overwritten full b1 dirty) :=
    if_neg (by simp [hresolved.finalized])
  rw [hpart, hresolved.evaluate_all]
  have horder : g'.order = [] ++ g'.order := rfl
  refine Refreshing.run hresolved hreads (fun name dep f hf hdep hmem =>
    g'.to_compute_closed hdirty hf hdep hmem) horder ?_ hfull
  refine ⟨fun name hname => ?_, fun name _ hclean => ?_, fun name hname => ?_⟩
  · rw [getElem?_overwritten]
    split
    · rfl
    next hkept => rw [g'.run_frame hfull hname, hagree name hkept]
  · have hkept : name ∉ dirty := fun hmem =>
      hclean ((g'.mem_to_compute hdirty).mpr ⟨name, hmem, .inl rfl⟩)
    exact (hagree name hkept).symm
  · have hkept : name ∉ dirty := fun hmem =>
      hbase name hmem (TreeMap.mem_keys.mp (hresolved.perm.mem_iff.mp hname))
    rw [getElem?_overwritten, if_neg hkept]

/-- Adds up what it reads. It has no value when one of its dependencies has
    none. -/
def totalOf (name : String) (dependencies : List String) : FactorDefinition (Option Int) where
  name
  dependencies
  compute inputs := dependencies.foldl (fun total dep =>
    match inputs.get dep with
    | .ok (some v) => total.map (v + ·)
    | _ => none) (some 0)

theorem totalOf_reads (name : String) (dependencies : List String) :
    (totalOf name dependencies).ReadsThroughGet := by
  intro inputs inputs' hsame
  simp only [totalOf, hsame]

/-- Registers factors, one after the other. -/
def FactorGraph.addAll (g : FactorGraph V) (fs : List (FactorDefinition V)) : FactorGraph V :=
  fs.foldl (fun g f => (g.add f).2) g

theorem FactorGraph.forall_addAll {P : FactorDefinition V → Prop} {g : FactorGraph V} {fs : List (FactorDefinition V)}
    (hfs : ∀ f ∈ fs, P f) (hg : ∀ (name : String) f, g.definitions[name]? = some f → P f) :
    ∀ (name : String) f, (g.addAll fs).definitions[name]? = some f → P f := by
  induction fs generalizing g with
  | nil => exact hg
  | cons f fs ih =>
    refine ih (fun f' hf' => hfs f' (List.mem_cons_of_mem _ hf')) fun name f' hf' => ?_
    change (g.add f).2.definitions[name]? = some f' at hf'
    rw [add] at hf'
    split at hf'
    · exact hg name f' hf'
    split at hf'
    · exact hg name f' hf'
    obtain ⟨-, rfl⟩ | ⟨-, hbefore⟩ := Table.getElem?_insert_eq_some.mp hf'
    · exact hfs f List.mem_cons_self
    · exact hg name f' hbefore

/-- Two factors read the close, and a third reads both, one of them twice. -/
def diamond : FactorGraph (Option Int) :=
  FactorGraph.addAll {} [totalOf "top" ["left", "right", "left"], totalOf "left" ["close"],
    totalOf "right" ["open", "close"]]

def quotes (close : Int) : TreeMap String (Option Int) :=
  (({} : TreeMap String (Option Int)).insert "close" (some close)).insert "open" (some 5)

/-- The close of the diamond moves from 3 to 4. -/
theorem FactorGraph.evaluate_incremental_diamond : ∃ full : TreeMap String (Option Int),
    (diamond.finalize.2.evaluate Option.isSome (overwritten full (quotes 4) ["close"]) ["close"]).map
        TreeMap.toList = (diamond.finalize.2.evaluate Option.isSome (quotes 4)).map TreeMap.toList ∧
      full["top"]? = some (some 14) ∧
      (diamond.finalize.2.evaluate Option.isSome (quotes 4)).toOption.map (fun values => values["top"]?) =
        some (some (some 17)) := by
  have hfinal : diamond.finalize = (.ok true, diamond.finalize.2) :=
    Prod.ext (Result.toOption_eq_some.mp (by decide +kernel)) rfl
  have hreads : ∀ (name : String) f, diamond.definitions[name]? = some f → f.ReadsThroughGet := by
    refine FactorGraph.forall_addAll (fun f hf => ?_) (fun name f hf => by simp at hf)
    simp only [List.mem_cons, List.not_mem_nil, or_false] at hf
    obtain rfl | rfl | rfl := hf <;> exact totalOf_reads _ _
  have hagree : ∀ name : String, name ∉ ["close"] → (quotes 4)[name]? = (quotes 3)[name]? := by
    intro name hname
    have hne : "close" ≠ name := fun heq => hname (by simp [heq])
    simp only [quotes, Table.getElem?_insert_eq_ite, if_neg hne]
  have hbefore : (diamond.finalize.2.evaluate Option.isSome (quotes 3)).toOption.map (fun values => values["top"]?) =
      some (some (some 14)) := by decide +kernel
  obtain ⟨full, hfull, htop⟩ := Option.map_eq_some_iff.mp hbefore
  refine ⟨full, ?_, htop, by decide +kernel⟩
  exact FactorGraph.evaluate_incremental Option.isSome diamond diamond.finalize.2 hfinal hreads ["close"] (by decide)
    (by decide +kernel) (quotes 3) (quotes 4) full hagree (Result.toOption_eq_some.mp hfull)

end ptl.features
