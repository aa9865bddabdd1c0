import TradingLab.Machine
import TradingLab.Storage.Registry

/-! Every run of the two registries: which model versions are champions, which
the index names, and which a rollback may bring back. -/

open Std (TreeMap)

namespace ptl.storage

/-- The registries, with the versions that have been champion so far. -/
structure Registries where
  datasets : DatasetRegistry := {}
  models : ModelRegistry := {}
  crowned : List VersionKey := []

inductive RegistryCall where
  | register_dataset (d : DatasetVersion)
  | register_model (m : ModelMetadata)
  | promote (model_id : String) (version : UInt32) (at_time : Timestamp) (reason : String)
  | rollback (model_id : String) (version : UInt32) (at_time : Timestamp) (reason : String)

/-- The versions whose status is champion. -/
def ModelRegistry.reigning (r : ModelRegistry) : List VersionKey :=
  (r.models.toList.filter fun entry => entry.2.status = .Champion).map Prod.fst

/-- The model registry after a call, with its champions noted. -/
def Registries.noting (s : Registries) (models : ModelRegistry) : Registries :=
  { s with models, crowned := s.crowned ++ models.reigning }

def Registries.step (s : Registries) : RegistryCall → Registries
  | .register_dataset d => { s with datasets := (s.datasets.register_dataset d).2 }
  | .register_model m => s.noting (s.models.register_model s.datasets m).2
  | .promote model_id version at_time reason => s.noting (s.models.promote model_id version at_time reason).2
  | .rollback model_id version at_time reason => s.noting (s.models.rollback model_id version at_time reason).2

def registryMachine : Machine Registries RegistryCall where
  Init s := s = {}
  step s c := some (s.step c)

/-- What is promised of the lifecycle in one state. -/
structure Registries.Sound (s : Registries) : Prop where
  unique : ∀ (id : String) (v w : UInt32) (m n : ModelMetadata), s.models.models[(id, v)]? = some m →
    s.models.models[(id, w)]? = some n → m.status = .Champion → n.status = .Champion → v = w
  index : ∀ (id : String) (v : UInt32), s.models.champions[id]? = some v ↔
    ∃ m, s.models.models[(id, v)]? = some m ∧ m.status = .Champion
  datasets : ∀ (key : VersionKey) (m : ModelMetadata), s.models.models[key]? = some m →
    s.datasets.contains m.dataset_id m.dataset_version = true
  rollback : ∀ (id : String) (v : UInt32) (at_time : Timestamp) (reason : String),
    (s.models.rollback id v at_time reason).1 = .ok true → (id, v) ∈ s.crowned

/-- A model that is registered has not been champion, and does not say so. -/
def Registries.Honest (s : Registries) : RegistryCall → Prop
  | .register_model m =>
    s.models.refusal s.datasets m = none → m.status ≠ .Champion ∧ m.status ≠ .Archived
  | _ => True

instance (s : Registries) (c : RegistryCall) : Decidable (s.Honest c) := by
  cases c <;> unfold Registries.Honest <;> infer_instance

/-- What every call keeps. -/
structure Registries.Kept (s : Registries) : Prop where
  index : ∀ (id : String) (v : UInt32), s.models.champions[id]? = some v ↔
    ∃ m, s.models.models[(id, v)]? = some m ∧ m.status = .Champion
  datasets : ∀ (key : VersionKey) (m : ModelMetadata), s.models.models[key]? = some m →
    s.datasets.contains m.dataset_id m.dataset_version = true
  reigned : ∀ (key : VersionKey) (m : ModelMetadata), s.models.models[key]? = some m →
    m.status = .Champion ∨ m.status = .Archived → key ∈ s.crowned
  known : ∀ key ∈ s.crowned, key ∈ s.models.models

section Archive

variable {id : String} {key : VersionKey} {m : ModelMetadata}

theorem archive_of_other (hother : key.1 ≠ id) : archive id key m = m := if_neg fun h => hother h.1

/-- No record of the model is left as champion. -/
theorem archive_not_champion (hmodel : key.1 = id) : (archive id key m).status ≠ .Champion := by
  unfold archive
  split
  · exact ModelStatus.noConfusion
  · rename_i hnot
    exact fun hchampion => hnot ⟨hmodel, hchampion⟩

/-- What is archived after a promotion was archived or champion before. -/
theorem status_of_archived (hold : (archive id key m).status = .Archived) :
    m.status = .Champion ∨ m.status = .Archived := by
  unfold archive at hold
  split at hold
  · rename_i hchampion
    exact .inl hchampion.2
  · exact .inr hold

theorem archive_dataset (id : String) (key : VersionKey) (m : ModelMetadata) :
    (archive id key m).dataset_id = m.dataset_id ∧ (archive id key m).dataset_version = m.dataset_version := by
  unfold archive
  split <;> exact ⟨rfl, rfl⟩

end Archive

section Promote

variable {r : ModelRegistry} {id : String} {v : UInt32} {at_time : Timestamp} {reason : String}
  {m : ModelMetadata}

/-- A promotion changes nothing, or crowns its version and archives the other
champions of its model. -/
theorem ModelRegistry.promote_cases (r : ModelRegistry) (id : String) (v : UInt32) (at_time : Timestamp)
    (reason : String) :
    (r.promote id v at_time reason).2 = r ∨
      ∃ m, r.models[(id, v)]? = some m ∧
        (r.promote id v at_time reason).2.champions = r.champions.insert id v ∧
        ∀ key : VersionKey, (r.promote id v at_time reason).2.models[key]? =
          if (id, v) = key then some { m with status := .Champion }
          else (r.models[key]?).map (archive id key) := by
  unfold ModelRegistry.promote
  cases hfind : r.find id v with
  | none => exact .inl rfl
  | some m =>
    dsimp only
    split
    · exact .inl rfl
    · split
      · exact .inl rfl
      · refine .inr ⟨m, hfind, rfl, fun key => ?_⟩
        rw [Table.getElem?_insert_eq_ite, TreeMap.getElem?_map]

/-- A rollback that is granted is of a champion or of an archived version. -/
theorem ModelRegistry.rollback_ok_iff :
    (r.rollback id v at_time reason).1 = .ok true ↔
      ∃ m, r.models[(id, v)]? = some m ∧ (m.status = .Champion ∨ m.status = .Archived) := by
  unfold ModelRegistry.rollback
  cases hfind : r.find id v with
  | none =>
    refine iff_of_false (fun h => by cases h) ?_
    rintro ⟨m, hm, -⟩
    cases hfind.symm.trans hm
  | some m =>
    dsimp only
    have hm : r.models[(id, v)]? = some m := hfind
    split
    · rename_i hother
      refine iff_of_false (fun h => by cases h) ?_
      rintro ⟨n, hn, hstatus⟩
      cases hm.symm.trans hn
      exact hstatus.elim hother.2 hother.1
    · rename_i hstatus
      refine iff_of_true ?_ ⟨m, hm, by tauto⟩
      unfold ModelRegistry.promote
      rw [hfind]
      dsimp only
      split
      · rfl
      · rename_i hnot
        rw [if_neg (by intro hfailed; rw [hfailed] at hstatus; simp at hstatus)]

theorem ModelRegistry.rollback_cases (r : ModelRegistry) (id : String) (v : UInt32) (at_time : Timestamp)
    (reason : String) :
    (r.rollback id v at_time reason).2 = r ∨
      ∃ reason', (r.rollback id v at_time reason).2 = (r.promote id v at_time reason').2 := by
  unfold ModelRegistry.rollback
  split
  · exact .inl rfl
  · split
    · exact .inl rfl
    · exact .inr ⟨_, rfl⟩

theorem ModelRegistry.mem_reigning {key : VersionKey} :
    key ∈ r.reigning ↔ ∃ m, r.models[key]? = some m ∧ m.status = .Champion := by
  unfold ModelRegistry.reigning
  constructor
  · intro hkey
    obtain ⟨⟨k, m⟩, hentry, rfl⟩ := List.mem_map.mp hkey
    obtain ⟨hmem, hstatus⟩ := List.mem_filter.mp hentry
    exact ⟨m, TreeMap.mem_toList_iff_getElem?_eq_some.mp hmem, by simpa using hstatus⟩
  · rintro ⟨m, hm, hstatus⟩
    exact List.mem_map.mpr ⟨(key, m), List.mem_filter.mpr
      ⟨TreeMap.mem_toList_iff_getElem?_eq_some.mpr hm, by simpa using hstatus⟩, rfl⟩

end Promote

/-! ### One call -/

section Step

variable {s : Registries}

theorem DatasetRegistry.register_contains {r : DatasetRegistry} (d : DatasetVersion) {id : String} {v : UInt32}
    (hcontains : r.contains id v = true) : (r.register_dataset d).2.contains id v = true := by
  unfold DatasetRegistry.register_dataset
  split
  · exact hcontains
  · unfold DatasetRegistry.contains at hcontains ⊢
    rw [Table.getElem?_insert_eq_ite]
    split
    · rfl
    · exact hcontains

/-- A model that is not refused is new, trained on a registered dataset. -/
theorem ModelRegistry.refusal_none {r : ModelRegistry} {datasets : DatasetRegistry} {m : ModelMetadata}
    (haccepted : r.refusal datasets m = none) :
    datasets.contains m.dataset_id m.dataset_version = true ∧ r.models[(m.model_id, m.version)]? = none := by
  unfold ModelRegistry.refusal at haccepted
  split at haccepted
  · cases haccepted
  · split at haccepted
    · cases haccepted
    · rename_i hcontains
      split at haccepted
      · cases haccepted
      · rename_i hnew
        exact ⟨by simpa using hcontains,
          TreeMap.getElem?_eq_none fun hmem => hnew (TreeMap.mem_iff_contains.mp hmem)⟩

theorem ModelRegistry.register_of_accepted {r : ModelRegistry} {datasets : DatasetRegistry} {m : ModelMetadata}
    (haccepted : r.refusal datasets m = none) :
    (r.register_model datasets m).2 = { r with models := r.models.insert (m.model_id, m.version) m } := by
  unfold ModelRegistry.register_model
  rw [haccepted]

/-- A champion is named by the index, an archived version was crowned. -/
theorem Registries.Kept.sound (hkept : s.Kept) : s.Sound := by
  refine ⟨fun id v w m n hm hn hchampion hother => ?_, hkept.index, hkept.datasets, fun id v at_time reason hok => ?_⟩
  · have hfirst := (hkept.index id v).mpr ⟨m, hm, hchampion⟩
    have hsecond := (hkept.index id w).mpr ⟨n, hn, hother⟩
    exact Option.some.inj (hfirst.symm.trans hsecond)
  · obtain ⟨m, hm, hstatus⟩ := ModelRegistry.rollback_ok_iff.mp hok
    exact hkept.reigned _ m hm hstatus

/-- New model records are kept when the index names their champions and every
archived one was crowned before. -/
theorem Registries.Kept.noting (hkept : s.Kept) {models : ModelRegistry}
    (hindex : ∀ (id : String) (v : UInt32), models.champions[id]? = some v ↔
      ∃ m, models.models[(id, v)]? = some m ∧ m.status = .Champion)
    (hdatasets : ∀ (key : VersionKey) (m : ModelMetadata), models.models[key]? = some m →
      s.datasets.contains m.dataset_id m.dataset_version = true)
    (harchived : ∀ (key : VersionKey) (m : ModelMetadata), models.models[key]? = some m →
      m.status = .Archived → key ∈ s.crowned)
    (hgrows : ∀ key ∈ s.models.models, key ∈ models.models) : (s.noting models).Kept := by
  refine ⟨hindex, hdatasets, fun key m hm hstatus => ?_, fun key hkey => ?_⟩
  · obtain hchampion | hold := hstatus
    · exact List.mem_append_right _ (ModelRegistry.mem_reigning.mpr ⟨m, hm, hchampion⟩)
    · exact List.mem_append_left _ (harchived key m hm hold)
  · obtain hold | hnew := List.mem_append.mp hkey
    · exact hgrows key (hkept.known key hold)
    · obtain ⟨m, hm, -⟩ := ModelRegistry.mem_reigning.mp hnew
      exact TreeMap.mem_iff_isSome_getElem?.mpr (by
        change (models.models[key]?).isSome = true
        rw [hm]
        rfl)

theorem Registries.Kept.same (hkept : s.Kept) : (s.noting s.models).Kept :=
  hkept.noting hkept.index hkept.datasets (fun key m hm hold => hkept.reigned key m hm (.inr hold)) fun _ hkey => hkey

theorem Registries.Kept.promote (hkept : s.Kept) (id : String) (v : UInt32) (at_time : Timestamp) (reason : String) :
    (s.noting (s.models.promote id v at_time reason).2).Kept := by
  obtain hsame | ⟨m, hm, hchampions, hmodels⟩ := s.models.promote_cases id v at_time reason
  · rw [hsame]
    exact hkept.same
  · have hlookup : ∀ {key : VersionKey} {n : ModelMetadata},
        (s.models.promote id v at_time reason).2.models[key]? = some n ↔
          ((id, v) = key ∧ { m with status := .Champion } = n) ∨
            ((id, v) ≠ key ∧ ∃ old, s.models.models[key]? = some old ∧ archive id key old = n) := by
      intro key n
      rw [hmodels]
      by_cases hkey : (id, v) = key
      · simp [hkey]
      · simp [hkey, Option.map_eq_some_iff]
    refine hkept.noting (fun id' v' => ?_) (fun key n hn => ?_) (fun key n hn hold => ?_) fun key hkey => ?_
    · rw [hchampions, Table.getElem?_insert_eq_some]
      simp only [hlookup]
      by_cases hid : id = id'
      · subst hid
        constructor
        · rintro (⟨-, rfl⟩ | ⟨hother, -⟩)
          · exact ⟨_, .inl ⟨rfl, rfl⟩, rfl⟩
          · exact absurd rfl hother
        · rintro ⟨n, ⟨hkey, -⟩ | ⟨-, old, -, rfl⟩, hchampion⟩
          · exact .inl ⟨rfl, (Prod.mk.inj hkey).2⟩
          · exact absurd hchampion (archive_not_champion rfl)
      · have hapart : (id, v) ≠ (id', v') := fun hkey => hid (Prod.mk.inj hkey).1
        have harchive : ∀ n, archive id (id', v') n = n := fun n => archive_of_other (Ne.symm hid)
        simp only [hid, hapart, harchive, false_and, ne_eq, not_false_eq_true, true_and, false_or, exists_eq_right,
          hkept.index]
    · obtain ⟨hkey, rfl⟩ | ⟨-, old, hold, rfl⟩ := hlookup.mp hn
      · exact hkept.datasets (id, v) m hm
      · obtain ⟨hdataset, hversion⟩ := archive_dataset id key old
        rw [hdataset, hversion]
        exact hkept.datasets key old hold
    · obtain ⟨-, rfl⟩ | ⟨-, old, hbefore, rfl⟩ := hlookup.mp hn
      · cases hold
      · exact hkept.reigned key old hbefore (status_of_archived hold)
    · rw [TreeMap.mem_iff_isSome_getElem?, hmodels]
      split
      · rfl
      · rw [Option.isSome_map]
        exact TreeMap.mem_iff_isSome_getElem?.mp hkey

theorem Registries.Kept.register (hkept : s.Kept) {m : ModelMetadata} (hhonest : s.Honest (.register_model m)) :
    (s.noting (s.models.register_model s.datasets m).2).Kept := by
  cases hrefused : s.models.refusal s.datasets m with
  | some err =>
    have hsame : (s.models.register_model s.datasets m).2 = s.models := by
      unfold ModelRegistry.register_model
      rw [hrefused]
    rw [hsame]
    exact hkept.same
  | none =>
    obtain ⟨hcontains, hnew⟩ := ModelRegistry.refusal_none hrefused
    obtain ⟨hnotChampion, hnotArchived⟩ := hhonest hrefused
    rw [ModelRegistry.register_of_accepted hrefused]
    refine hkept.noting (fun id v => ?_) (fun key n hn => ?_) (fun key n hn hold => ?_) fun key hkey => ?_
    · rw [hkept.index]
      refine exists_congr fun n => and_congr_left fun hchampion => ?_
      rw [Table.getElem?_insert_eq_some]
      constructor
      · intro hn
        refine .inr ⟨?_, hn⟩
        rintro heq
        rw [← heq, hnew] at hn
        cases hn
      · rintro (⟨-, rfl⟩ | ⟨-, hn⟩)
        · exact absurd hchampion hnotChampion
        · exact hn
    · obtain ⟨-, rfl⟩ | ⟨-, hn⟩ := Table.getElem?_insert_eq_some.mp hn
      · exact hcontains
      · exact hkept.datasets key n hn
    · obtain ⟨-, rfl⟩ | ⟨-, hn⟩ := Table.getElem?_insert_eq_some.mp hn
      · exact absurd hold hnotArchived
      · exact hkept.reigned key n hn (.inr hold)
    · exact (Table.mem_insert_iff _ _ _ _).mpr (.inr hkey)

theorem Registries.Kept.step (hkept : s.Kept) {c : RegistryCall} (hhonest : s.Honest c) : (s.step c).Kept := by
  cases c with
  | register_dataset d =>
    exact ⟨hkept.index, fun key m hm => DatasetRegistry.register_contains d (hkept.datasets key m hm),
      hkept.reigned, hkept.known⟩
  | register_model m => exact hkept.register hhonest
  | promote id v at_time reason => exact hkept.promote id v at_time reason
  | rollback id v at_time reason =>
    obtain hsame | ⟨reason', hpromote⟩ := s.models.rollback_cases id v at_time reason
    · rw [Registries.step, hsame]
      exact hkept.same
    · rw [Registries.step, hpromote]
      exact hkept.promote id v at_time reason'

/-- A registration that says champion or archived leaves a state that breaks
the promises. -/
theorem Registries.Kept.honest_of_sound (hkept : s.Kept) {c : RegistryCall} (hsound : (s.step c).Sound) :
    s.Honest c := by
  cases c with
  | register_model m =>
    intro hrefused
    obtain ⟨-, hnew⟩ := ModelRegistry.refusal_none hrefused
    rw [Registries.step, ModelRegistry.register_of_accepted hrefused] at hsound
    have hentered : (s.models.models.insert (m.model_id, m.version) m)[(m.model_id, m.version)]? = some m :=
      Table.getElem?_insert_self _ _ _
    constructor
    · intro hchampion
      have hnamed := (hsound.index m.model_id m.version).mpr ⟨m, hentered, hchampion⟩
      obtain ⟨n, hn, -⟩ := (hkept.index m.model_id m.version).mp hnamed
      cases hnew.symm.trans hn
    · intro hold
      have hrollback := hsound.rollback m.model_id m.version 0 ""
        (ModelRegistry.rollback_ok_iff.mpr ⟨m, hentered, .inr hold⟩)
      obtain hbefore | hnow := List.mem_append.mp hrollback
      · have hmem := TreeMap.mem_iff_isSome_getElem?.mp (hkept.known _ hbefore)
        rw [hnew] at hmem
        cases hmem
      · obtain ⟨n, hn, hchampion⟩ := ModelRegistry.mem_reigning.mp hnow
        cases hentered.symm.trans hn
        rw [hold] at hchampion
        cases hchampion
  | register_dataset d => trivial
  | promote id v at_time reason => trivial
  | rollback id v at_time reason => trivial

end Step

/-- Where every model says what it is when it is registered, the promises hold
in every state; and any other registration breaks them at once. -/
theorem registryMachine_sound {s : Registries} (hreach : registryMachine.Reaches Registries.Honest s) :
    s.Sound ∧ ∀ c, (s.step c).Sound ↔ s.Honest c := by
  have hkept : s.Kept := by
    refine hreach.invariant (I := Registries.Kept) ?_ ?_
    · rintro s rfl
      refine ⟨fun id v => ?_, fun key m hm => ?_, fun key m hm => ?_, fun key hkey => ?_⟩
      · refine iff_of_false (fun h => ?_) ?_
        · simp at h
        · rintro ⟨m, hm, -⟩
          simp at hm
      · simp at hm
      · simp at hm
      · cases hkey
    · intro s c t _ hkept hhonest hstep
      cases hstep
      exact hkept.step hhonest
  exact ⟨hkept.sound, fun c => ⟨hkept.honest_of_sound, fun hhonest => (hkept.step hhonest).sound⟩⟩

/-! ### Concrete runs -/

def barsDataset : DatasetVersion where
  dataset_id := "bars"
  version := 1
  content_checksum := 1
  feature_schema := [{ name := "ret", type := "double" }]

/-- A model trained on it. -/
def ridge (version : UInt32) (status : ModelStatus) : ModelMetadata where
  model_id := "ridge"
  version
  status
  dataset_id := "bars"
  dataset_version := 1
  kind := "ridge"

/-- The statuses of the first two versions, and the version that the index
names. -/
def Registries.shown (s : Registries) : Option ModelStatus × Option ModelStatus × Option UInt32 :=
  ((s.models.find "ridge" 1).map ModelMetadata.status, (s.models.find "ridge" 2).map ModelMetadata.status,
    s.models.champions["ridge"]?)

/-- The first version is promoted, then the second, and then rolled back to. -/
theorem registryMachine_sound_rollback :
    ∃ s, registryMachine.Reaches Registries.Honest s ∧ s.shown = (some .Champion, some .Archived, some 1) ∧
      s.Sound ∧ ∀ c, (s.step c).Sound ↔ s.Honest c := by
  obtain ⟨s, hreach, hshown⟩ := Machine.Reaches.exec_map (M := registryMachine) (G := Registries.Honest) (s := {})
    (.init rfl) [.register_dataset barsDataset, .register_model (ridge 1 .Challenger),
      .register_model (ridge 2 .Trained), .promote "ridge" 1 1 "", .promote "ridge" 2 2 "",
      .rollback "ridge" 1 3 "regression"] Registries.shown (b := (some .Champion, some .Archived, some 1))
    (by decide +kernel) (by decide +kernel)
  exact ⟨s, hreach, hshown, registryMachine_sound hreach⟩

/-- Two versions are registered as champions, and the index names neither. -/
theorem registryMachine_two_champions :
    ∃ s, registryMachine.Reachable s ∧ s.shown = (some .Champion, some .Champion, none) ∧ ¬ s.Sound := by
  obtain ⟨s, hreach, hshown⟩ := Machine.Reaches.exec_map (M := registryMachine) (G := fun _ _ => True) (s := {})
    (.init rfl) [.register_dataset barsDataset, .register_model (ridge 1 .Champion),
      .register_model (ridge 2 .Champion)] Registries.shown (b := (some .Champion, some .Champion, none))
    (Machine.along_of_forall (fun _ _ => trivial) _ _) (by decide +kernel)
  refine ⟨s, hreach, hshown, fun hsound => ?_⟩
  obtain ⟨hfirst, hrest⟩ := Prod.mk.inj hshown
  obtain ⟨m, hm, hchampion⟩ := Option.map_eq_some_iff.mp hfirst
  have hnamed := (hsound.index "ridge" 1).mpr ⟨m, hm, hchampion⟩
  rw [(Prod.mk.inj hrest).2] at hnamed
  cases hnamed

end ptl.storage
