import TradingLab.Config.RunId

open Entries

namespace ptl.research

/-- A map of texts, in key order. -/
structure Parameters where
  entries : List (String × String) := []
  ordered : entries.Pairwise fun e e' => e.1 < e'.1 := by decide
  deriving DecidableEq

/-- Everything that can change a result. -/
structure TrialManifest where
  research_question : String := ""
  hypothesis : String := ""
  data_version : UInt64 := 0
  feature_set_id : UInt64 := 0
  label_config_hash : UInt64 := 0
  fold_config_hash : UInt64 := 0
  model_config_hash : UInt64 := 0
  git_sha : String := ""
  seed : UInt64 := 0
  holdout_boundary : String := ""
  parameters : Parameters := {}
  deriving DecidableEq

/-- The fields in their fixed order. -/
def TrialManifest.fields (m : TrialManifest) : List (String × String) := [
  ("question", m.research_question),
  ("hypothesis", m.hypothesis),
  ("data", hex16 m.data_version),
  ("features", hex16 m.feature_set_id),
  ("labels", hex16 m.label_config_hash),
  ("folds", hex16 m.fold_config_hash),
  ("model", hex16 m.model_config_hash),
  ("git", m.git_sha),
  ("seed", toString m.seed),
  ("holdout", m.holdout_boundary)]

def TrialManifest.entries (m : TrialManifest) : List (String × String) := m.fields ++ m.parameters.entries

def TrialManifest.canonical (m : TrialManifest) : String := String.join (m.entries.map canonical_entry)

def TrialManifest.trial_id (m : TrialManifest) : UInt64 := hash_bytes kFnvOffset (characters m.canonical)

def TrialManifest.trial_id_hex (m : TrialManifest) : String := hex16 m.trial_id

/-- The entries of a manifest are all of it. -/
theorem TrialManifest.entries_inj {m m' : TrialManifest} (heq : m.entries = m'.entries) : m = m' := by
  obtain ⟨question, hypothesis, data, features, labels, folds, model, git, seed, holdout, ⟨parameters, hordered⟩⟩ := m
  obtain ⟨question', hypothesis', data', features', labels', folds', model', git', seed', holdout',
    ⟨parameters', hordered'⟩⟩ := m'
  simp only [entries, fields, List.cons_append, List.nil_append, List.cons.injEq, Prod.mk.injEq, true_and] at heq
  obtain ⟨rfl, rfl, hdata, hfeatures, hlabels, hfolds, hmodel, rfl, hseed, rfl, rfl⟩ := heq
  rw [hex16_inj hdata, hex16_inj hfeatures, hex16_inj hlabels, hex16_inj hfolds, hex16_inj hmodel,
    toString_inj hseed]

/-! ### Texts that can be read in one way only -/

/-- The keys of the parameters are written with some characters, and every other text
with others. -/
structure TrialManifest.Over (keys texts : Char → Prop) (m : TrialManifest) : Prop where
  research_question : ptl.Over texts m.research_question
  hypothesis : ptl.Over texts m.hypothesis
  git_sha : ptl.Over texts m.git_sha
  holdout_boundary : ptl.Over texts m.holdout_boundary
  parameters : ∀ e ∈ m.parameters.entries, ptl.Over keys e.1 ∧ ptl.Over texts e.2

/-- What stands under the fixed labels. -/
theorem TrialManifest.Over.fields {keys texts : Char → Prop} {m : TrialManifest} (hm : m.Over keys texts)
    {mark : Char} (hdigit : Numeral.isDigit 16 mark = false) (hdecimal : mark.isDigit = false)
    (hmark : ¬ texts mark) : ∀ e ∈ m.fields, mark ∉ e.2.toList := by
  have hnot : ∀ {text : String}, ptl.Over texts text → mark ∉ text.toList :=
    fun htext hmem => hmark (htext _ hmem)
  simp only [TrialManifest.fields, List.forall_mem_cons]
  exact ⟨hnot hm.research_question, hnot hm.hypothesis, mark_not_mem_hex16 hdigit _, mark_not_mem_hex16 hdigit _,
    mark_not_mem_hex16 hdigit _, mark_not_mem_hex16 hdigit _, mark_not_mem_hex16 hdigit _, hnot hm.git_sha,
    mark_not_mem_toString hdecimal _, hnot hm.holdout_boundary, nofun⟩

/-- No label of a field has a mark in it. -/
theorem TrialManifest.mark_not_mem_labels (m : TrialManifest) {mark : Char} (hmark : mark = '=' ∨ mark = kSeparator) :
    ∀ e ∈ m.fields, mark ∉ e.1.toList := by
  simp only [fields, List.forall_mem_cons]
  rcases hmark with rfl | rfl
  · refine ⟨?_, ?_, ?_, ?_, ?_, ?_, ?_, ?_, ?_, ?_, nofun⟩ <;> decide
  · refine ⟨?_, ?_, ?_, ?_, ?_, ?_, ?_, ?_, ?_, ?_, nofun⟩ <;> decide

/-- Neither mark is anywhere in the entries but where the keys or the texts have it. -/
theorem TrialManifest.Over.labels_free {keys texts : Char → Prop} {m : TrialManifest} (hm : m.Over keys texts)
    {mark : Char} (hmark : mark = '=' ∨ mark = kSeparator) (hkeys : ¬ keys mark) :
    ∀ e ∈ m.entries, mark ∉ e.1.toList := by
  intro e he
  rcases List.mem_append.mp he with hfield | hparameter
  · exact m.mark_not_mem_labels hmark e hfield
  · exact fun hmem => hkeys ((hm.parameters e hparameter).1 _ hmem)

theorem TrialManifest.Over.texts_free {keys texts : Char → Prop} {m : TrialManifest} (hm : m.Over keys texts)
    {mark : Char} (hmark : mark = '=' ∨ mark = kSeparator) (htexts : ¬ texts mark) :
    ∀ e ∈ m.entries, mark ∉ e.2.toList := by
  have hdigit : Numeral.isDigit 16 mark = false ∧ mark.isDigit = false := by
    rcases hmark with rfl | rfl
    · decide
    · decide
  intro e he
  rcases List.mem_append.mp he with hfield | hparameter
  · exact hm.fields hdigit.1 hdigit.2 htexts e hfield
  · exact fun hmem => htexts ((hm.parameters e hparameter).2 _ hmem)

/-- The entries are read from the front where no key has the equals sign and no other
text the separator, and from the end where it is the other way round. -/
theorem TrialManifest.canonical_inj {keys texts : Char → Prop}
    (hfree : ¬ keys '=' ∧ ¬ texts kSeparator ∨ ¬ texts '=' ∧ ¬ keys kSeparator) {m m' : TrialManifest}
    (hm : m.Over keys texts) (hm' : m'.Over keys texts) (heq : m.canonical = m'.canonical) : m = m' := by
  have hwritten : written '=' kSeparator (m.entries.map spelled) =
      written '=' kSeparator (m'.entries.map spelled) := by
    rw [← join_canonical_entry, ← join_canonical_entry]
    exact congrArg String.toList heq
  refine entries_inj (List.map_injective_iff.mpr spelled_injective ?_)
  rcases hfree with ⟨hkeys, htexts⟩ | ⟨htexts, hkeys⟩
  · have hforward : ∀ {m : TrialManifest}, m.Over keys texts →
        ForwardFree '=' kSeparator (m.entries.map spelled) := fun hm =>
      List.forall_mem_map.mpr fun e he =>
        ⟨hm.labels_free (.inl rfl) hkeys e he, hm.texts_free (.inr rfl) htexts e he⟩
    exact written_inj_forward (hforward hm) (hforward hm') hwritten
  · have hbackward : ∀ {m : TrialManifest}, m.Over keys texts →
        BackwardFree '=' kSeparator (m.entries.map spelled) := fun hm =>
      List.forall_mem_map.mpr fun e he =>
        ⟨hm.labels_free (.inr rfl) hkeys e he, hm.texts_free (.inl rfl) htexts e he⟩
    exact written_inj_backward (hbackward hm) (hbackward hm') hwritten

/-! ### Texts that can be read in two ways -/

/-- Nothing but parameters, over the characters their keys and values have. -/
theorem TrialManifest.over_parameters {keys texts : Char → Prop} {parameters : Parameters}
    (hparameters : ∀ e ∈ parameters.entries, ptl.Over keys e.1 ∧ ptl.Over texts e.2) :
    ({ parameters } : TrialManifest).Over keys texts where
  research_question := nofun
  hypothesis := nofun
  git_sha := nofun
  holdout_boundary := nofun
  parameters := hparameters

/-- A text of nothing but marks. -/
theorem over_marks {alphabet : Char → Prop} {marks : List Char} (hmarks : ∀ c ∈ marks, alphabet c) {text : String}
    (htext : text.toList = marks) : ptl.Over alphabet text :=
  fun c hc => hmarks c (htext ▸ hc)

def one_parameter (key value : String) : Parameters where
  entries := [(key, value)]
  ordered := List.pairwise_singleton _ _

/-- With the equals sign in a key or the separator in a text, and the other way round,
two manifests share a canonical text. -/
theorem TrialManifest.canonical_ambiguous (keys texts : Char → Prop)
    (hfirst : keys '=' ∨ texts kSeparator) (hsecond : texts '=' ∨ keys kSeparator) :
    ∃ m m' : TrialManifest, m.Over keys texts ∧ m'.Over keys texts ∧ m ≠ m' ∧ m.canonical = m'.canonical := by
  have hnone : ∀ alphabet, ptl.Over alphabet "" := fun _ _ hc => nomatch hc
  unfold kSeparator at hfirst hsecond
  rcases hfirst with hkey | htext
  · rcases hsecond with hequals | hseparator
    · refine ⟨{ parameters := one_parameter "=" "" }, { parameters := one_parameter "" "=" }, ?_, ?_, by decide,
        by decide +kernel⟩
      · exact over_parameters (List.forall_mem_singleton.mpr ⟨over_marks (by simp [hkey]) rfl, hnone _⟩)
      · exact over_parameters (List.forall_mem_singleton.mpr ⟨hnone _, over_marks (by simp [hequals]) rfl⟩)
    · refine ⟨{ parameters := { entries := [("", ""), ("=", "")] } },
        { parameters := one_parameter "=\x1f=" "" }, ?_, ?_, by decide, by decide +kernel⟩
      · exact over_parameters (List.forall_mem_cons.mpr ⟨⟨hnone _, hnone _⟩,
          List.forall_mem_singleton.mpr ⟨over_marks (by simp [hkey]) rfl, hnone _⟩⟩)
      · exact over_parameters (List.forall_mem_singleton.mpr
          ⟨over_marks (by simp [hkey, hseparator]) rfl, hnone _⟩)
  · rcases hsecond with hequals | hseparator
    · refine ⟨{ holdout_boundary := "\x1f=" }, { parameters := one_parameter "" "" }, ?_, ?_, by decide,
        by decide +kernel⟩
      · exact ⟨nofun, nofun, nofun, over_marks (by simp [htext, hequals]) rfl, nofun⟩
      · exact over_parameters (List.forall_mem_singleton.mpr ⟨hnone _, hnone _⟩)
    · refine ⟨{ parameters := { entries := [("", "\x1f"), ("\x1f", "")] } },
        { parameters := { entries := [("", ""), ("\x1f\x1f", "")] } }, ?_, ?_, by decide, by decide +kernel⟩
      · exact over_parameters (List.forall_mem_cons.mpr ⟨⟨hnone _, over_marks (by simp [htext]) rfl⟩,
          List.forall_mem_singleton.mpr ⟨over_marks (by simp [hseparator]) rfl, hnone _⟩⟩)
      · exact over_parameters (List.forall_mem_cons.mpr ⟨⟨hnone _, hnone _⟩,
          List.forall_mem_singleton.mpr ⟨over_marks (by simp [hseparator]) rfl, hnone _⟩⟩)

/-- The canonical texts of manifests tell them apart exactly if no key has the equals
sign and no other text the separator, or no other text has the equals sign and no key
the separator; and those of runs exactly if no text of theirs has the separator. -/
theorem identity_texts_iff (keys texts : Char → Prop) :
    ((∀ m m' : TrialManifest, m.Over keys texts → m'.Over keys texts → m ≠ m' → m.canonical ≠ m'.canonical) ↔
        ¬ keys '=' ∧ ¬ texts kSeparator ∨ ¬ texts '=' ∧ ¬ keys kSeparator) ∧
      ((∀ r r' : config.RunInputs, r.Over texts → r'.Over texts → r ≠ r' → r.material ≠ r'.material) ↔
        ¬ texts kSeparator) := by
  constructor
  · constructor
    · intro hinjective
      by_contra hmarks
      obtain ⟨m, m', hm, hm', hne, heq⟩ := TrialManifest.canonical_ambiguous keys texts
        (by tauto) (by tauto)
      exact hinjective m m' hm hm' hne heq
    · intro hfree m m' hm hm' hne heq
      exact hne (TrialManifest.canonical_inj hfree hm hm' heq)
  · constructor
    · intro hinjective hseparator
      obtain ⟨r, r', hr, hr', hne, heq⟩ := config.RunInputs.material_ambiguous hseparator
      exact hinjective r r' hr hr' hne heq
    · intro hfree r r' hr hr' hne heq
      exact hne (config.RunInputs.material_inj hfree hr hr' heq)

/-- A parameter named `=` reads like one of no name whose value is `=`. -/
theorem identity_texts_ambiguous :
    ¬ ((∀ m m' : TrialManifest, m ≠ m' → m.canonical ≠ m'.canonical) ∧
      ∀ r r' : config.RunInputs, r ≠ r' → r.material ≠ r'.material) := by
  intro hinjective
  exact hinjective.1 { parameters := one_parameter "=" "" } { parameters := one_parameter "" "=" } (by decide)
    (by decide +kernel)

end ptl.research
