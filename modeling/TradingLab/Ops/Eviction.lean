import Mathlib.Data.String.Basic
import TradingLab.Core.Types
import TradingLab.Machine
import TradingLab.TableSum

open Std (TreeMap)

namespace ptl.ops

/-! ### Alerts -/

inductive AlertSeverity where
  | Info
  | Warning
  | Error
  | Critical
  deriving DecidableEq, Repr

def AlertSeverity.toNat : AlertSeverity → Nat
  | .Info => 0
  | .Warning => 1
  | .Error => 2
  | .Critical => 3

structure Alert where
  key : String
  severity : AlertSeverity := .Info
  summary : String
  detail : String := ""
  raised_at : Timestamp := kNoTimestamp
  last_seen : Timestamp := kNoTimestamp
  occurrences : Nat := 1
  resolved : Bool := false
  resolved_at : Timestamp := kNoTimestamp
  deriving DecidableEq, Repr

structure AlertConfig where
  max_active : Nat := 512
  max_history : Nat := 1024

structure AlertManager where
  active : TreeMap String Alert := ∅
  history : List Alert := []
  raised_total : Nat := 0
  suppressed : Nat := 0

/-- What a call raises. -/
structure Raised where
  key : String
  severity : AlertSeverity
  summary : String
  detail : String := ""

/-- An alert that is raised again: the severity only escalates, and the text
goes with it. -/
def Alert.recur (it : Alert) (now : Timestamp) (raised : Raised) : Alert :=
  let it := { it with occurrences := it.occurrences + 1, last_seen := now }
  if raised.severity.toNat > it.severity.toNat then
    { it with severity := raised.severity, summary := raised.summary, detail := raised.detail }
  else it

def Raised.alert (raised : Raised) (now : Timestamp) : Alert where
  key := raised.key
  severity := raised.severity
  summary := raised.summary
  detail := raised.detail
  raised_at := now
  last_seen := now

def AlertManager.raise (config : AlertConfig) (now : Timestamp) (raised : Raised) (m : AlertManager) :
    AlertManager :=
  if raised.key = "" then m
  else
    match m.active[raised.key]? with
    | some it =>
      { m with
        raised_total := m.raised_total + 1
        active := m.active.insert raised.key (it.recur now raised)
        suppressed := m.suppressed + 1 }
    | none =>
      let active := m.active.insert raised.key (raised.alert now)
      { m with
        raised_total := m.raised_total + 1
        active := BoundedTable.trim config.max_active active.size active }

def AlertManager.resolve (config : AlertConfig) (now : Timestamp) (key : String) (m : AlertManager) :
    AlertManager :=
  match m.active[key]? with
  | none => m
  | some it =>
    let history := m.history ++ [{ it with resolved := true, resolved_at := now }]
    { m with
      active := m.active.erase key
      history := history.drop (history.length - config.max_history) }

/-! What each call does to the active alerts. -/

namespace AlertManager

variable (config : AlertConfig) (now : Timestamp)

theorem raise_of_active {raised : Raised} {m : AlertManager} {it : Alert} (hkey : raised.key ≠ "")
    (hactive : m.active[raised.key]? = some it) :
    (m.raise config now raised).active = m.active.insert raised.key (it.recur now raised) := by
  rw [raise, if_neg hkey, hactive]

theorem raise_of_room {raised : Raised} {m : AlertManager} (hkey : raised.key ≠ "")
    (hnew : m.active[raised.key]? = none) (hroom : m.active.size < config.max_active) :
    (m.raise config now raised).active = m.active.insert raised.key (raised.alert now) := by
  rw [raise, if_neg hkey, hnew]
  exact BoundedTable.trim_of_size_le _ (TreeMap.size_insert_le.trans hroom)

/-- In a full manager the least key is dropped. -/
theorem raise_of_full {raised : Raised} {m : AlertManager} (hkey : raised.key ≠ "")
    (hnew : m.active[raised.key]? = none) (hfull : m.active.size = config.max_active) :
    ∃ least, (m.active.insert raised.key (raised.alert now)).minKey? = some least ∧
      (m.raise config now raised).active =
        (m.active.insert raised.key (raised.alert now)).erase least := by
  have hnot : raised.key ∉ m.active := by
    intro hmem
    rw [TreeMap.mem_iff_isSome_getElem?, hnew] at hmem
    cases hmem
  rw [raise, if_neg hkey, hnew]
  exact BoundedTable.trim_insert (raised.alert now) hnot hfull

theorem resolve_active (key : String) (m : AlertManager) :
    (m.resolve config now key).active = m.active ∨ (m.resolve config now key).active = m.active.erase key := by
  unfold resolve
  split
  · exact .inl rfl
  · exact .inr rfl

end AlertManager

theorem Alert.raised_at_recur (it : Alert) (now : Timestamp) (raised : Raised) :
    (it.recur now raised).raised_at = it.raised_at := by
  unfold recur
  by_cases hworse : raised.severity.toNat > it.severity.toNat
  · simp [hworse]
  · simp [hworse]

theorem Alert.severity_le_recur (it : Alert) (now : Timestamp) (raised : Raised) :
    it.severity.toNat ≤ (it.recur now raised).severity.toNat := by
  unfold recur
  by_cases hworse : raised.severity.toNat > it.severity.toNat
  · simp [hworse, hworse.le]
  · simp [hworse]

/-! ### The manager over its calls -/

inductive AlertCall where
  | raise (raised : Raised)
  | resolve (key : String)

/-- A manager and the time of the last call. -/
structure Monitored where
  manager : AlertManager := {}
  clock : Option Timestamp := none

def Monitored.next (config : AlertConfig) (w : Monitored) (now : Timestamp) (call : AlertCall) : Monitored where
  manager :=
    match call with
    | .raise raised => w.manager.raise config now raised
    | .resolve key => w.manager.resolve config now key
  clock := some now

/-- A new manager, and then any calls under a clock that moves on. -/
def alertMachine (config : AlertConfig) : Machine Monitored (Timestamp × AlertCall) where
  Init := fun w => w = {}
  step := fun w label => if w.clock.all (· < label.1) then some (w.next config label.1 label.2) else none

variable {config : AlertConfig}

/-- The keys that stay are those of a full table and the new one, without the least. -/
theorem getElem?_erase_of_ne {t : TreeMap String Alert} {k k' : String} (hne : k' ≠ k) :
    (t.erase k)[k']? = t[k']? := by
  rw [TreeMap.getElem?_erase, if_neg]
  rw [compare_eq_iff_eq]
  exact fun heq => hne heq.symm

/-- What is active after a raise was active before, or is what was raised. -/
theorem AlertManager.raise_lookup {now : Timestamp} {raised : Raised} {m : AlertManager}
    (hsize : m.active.size ≤ config.max_active) {k : String} {a : Alert}
    (hlookup : (m.raise config now raised).active[k]? = some a) :
    m.active[k]? = some a ∨
      (m.active[k]? = none ∧ a = raised.alert now) ∨ ∃ it, m.active[k]? = some it ∧ a = it.recur now raised := by
  by_cases hkey : raised.key = ""
  · rw [raise, if_pos hkey] at hlookup
    exact .inl hlookup
  cases hold : m.active[raised.key]? with
  | some it =>
    rw [raise_of_active config now hkey hold] at hlookup
    obtain ⟨rfl, rfl⟩ | ⟨_, hsame⟩ := Table.getElem?_insert_eq_some.mp hlookup
    · exact .inr (.inr ⟨it, hold, rfl⟩)
    · exact .inl hsame
  | none =>
    have hinsert : (m.active.insert raised.key (raised.alert now))[k]? = some a := by
      rcases hsize.lt_or_eq with hroom | hfull
      · rwa [raise_of_room config now hkey hold hroom] at hlookup
      · obtain ⟨least, _, hactive⟩ := raise_of_full config now hkey hold hfull
        rw [hactive] at hlookup
        by_cases hne : k = least
        · rw [hne, TreeMap.getElem?_erase_self] at hlookup
          cases hlookup
        · rwa [getElem?_erase_of_ne hne] at hlookup
    obtain ⟨rfl, rfl⟩ | ⟨_, hsame⟩ := Table.getElem?_insert_eq_some.mp hinsert
    · exact .inr (.inl ⟨hold, rfl⟩)
    · exact .inl hsame

theorem AlertManager.size_raise_le {now : Timestamp} {raised : Raised} {m : AlertManager}
    (hsize : m.active.size ≤ config.max_active) :
    (m.raise config now raised).active.size ≤ config.max_active := by
  by_cases hkey : raised.key = ""
  · rwa [raise, if_pos hkey]
  cases hold : m.active[raised.key]? with
  | some it =>
    have hmem : m.active.contains raised.key = true := by
      rw [TreeMap.contains_iff_mem, TreeMap.mem_iff_isSome_getElem?, hold]
      rfl
    rwa [raise_of_active config now hkey hold, TreeMap.size_insert, if_pos hmem]
  | none =>
    rw [raise, if_neg hkey, hold]
    exact BoundedTable.size_trim_le _ (Nat.le_add_left _ _)

theorem AlertManager.resolve_lookup {now : Timestamp} {key : String} {m : AlertManager} {k : String} {a : Alert}
    (hlookup : (m.resolve config now key).active[k]? = some a) : m.active[k]? = some a := by
  obtain hsame | herase := m.resolve_active config now key
  · rwa [hsame] at hlookup
  · rw [herase] at hlookup
    by_cases hne : k = key
    · rw [hne, TreeMap.getElem?_erase_self] at hlookup
      cases hlookup
    · rwa [getElem?_erase_of_ne hne] at hlookup

/-! ### Every run -/

theorem alertMachine_step {w w' : Monitored} {label : Timestamp × AlertCall}
    (hstep : (alertMachine config).step w label = some w') :
    (∀ last, w.clock = some last → last < label.1) ∧ w' = w.next config label.1 label.2 := by
  simp only [alertMachine] at hstep
  split at hstep
  · rename_i hclock
    refine ⟨fun last hlast => ?_, (Option.some.inj hstep).symm⟩
    rw [hlast, Option.all_some] at hclock
    exact of_decide_eq_true hclock
  · cases hstep

/-- The active alerts are within the bound, and none is from the future. -/
structure Monitored.Settled (config : AlertConfig) (w : Monitored) : Prop where
  bounded : w.manager.active.size ≤ config.max_active
  dated : ∀ (k : String) (a : Alert), w.manager.active[k]? = some a → ∃ last, w.clock = some last ∧ a.raised_at ≤ last

theorem Monitored.Settled.before {w : Monitored} (hsettled : w.Settled config) {now : Timestamp}
    (hclock : ∀ last, w.clock = some last → last < now) {k : String} {a : Alert}
    (hactive : w.manager.active[k]? = some a) : a.raised_at < now := by
  obtain ⟨last, hlast, hle⟩ := hsettled.dated k a hactive
  exact lt_of_le_of_lt hle (hclock last hlast)

theorem Monitored.Settled.step {w w' : Monitored} {label : Timestamp × AlertCall} (hsettled : w.Settled config)
    (hstep : (alertMachine config).step w label = some w') : w'.Settled config := by
  obtain ⟨hclock, rfl⟩ := alertMachine_step hstep
  obtain ⟨now, call⟩ := label
  cases call with
  | raise raised =>
    refine ⟨AlertManager.size_raise_le hsettled.bounded, fun k a hlookup => ⟨now, rfl, ?_⟩⟩
    obtain hsame | ⟨_, rfl⟩ | ⟨it, hit, rfl⟩ := AlertManager.raise_lookup hsettled.bounded hlookup
    · exact (hsettled.before hclock hsame).le
    · exact le_refl now
    · rw [it.raised_at_recur]
      exact (hsettled.before hclock hit).le
  | resolve key =>
    refine ⟨?_, fun k a hlookup => ⟨now, rfl, ?_⟩⟩
    · have hactive : (w.next config now (.resolve key)).manager.active =
          (w.manager.resolve config now key).active := rfl
      obtain hsame | herase := w.manager.resolve_active config now key
      · rw [hactive, hsame]
        exact hsettled.bounded
      · rw [hactive, herase]
        exact TreeMap.size_erase_le.trans hsettled.bounded
    · exact (hsettled.before hclock (AlertManager.resolve_lookup hlookup)).le

theorem Monitored.settled_of_reachable {w : Monitored} (hreach : (alertMachine config).Reachable w) :
    w.Settled config := by
  refine hreach.invariant ?_ fun _ _ _ _ hsettled _ hstep => hsettled.step hstep
  rintro w rfl
  exact ⟨Nat.zero_le _, fun k a hlookup => by simp at hlookup⟩

/-- While an alert stays active its severity does not decrease. -/
theorem Monitored.Settled.severity_le {w w' : Monitored} {label : Timestamp × AlertCall}
    (hsettled : w.Settled config) (hstep : (alertMachine config).step w label = some w') {k : String} {a a' : Alert}
    (hbefore : w.manager.active[k]? = some a) (hafter : w'.manager.active[k]? = some a') :
    a.severity.toNat ≤ a'.severity.toNat := by
  obtain ⟨_, rfl⟩ := alertMachine_step hstep
  obtain ⟨now, call⟩ := label
  cases call with
  | raise raised =>
    obtain hsame | ⟨hnone, _⟩ | ⟨it, hit, rfl⟩ := AlertManager.raise_lookup hsettled.bounded hafter
    · obtain rfl : a = a' := Option.some.inj (hbefore.symm.trans hsame)
      exact le_rfl
    · cases hbefore.symm.trans hnone
    · obtain rfl : a = it := Option.some.inj (hbefore.symm.trans hit)
      exact a.severity_le_recur now raised
  | resolve key =>
    obtain rfl : a = a' := Option.some.inj (hbefore.symm.trans (AlertManager.resolve_lookup hafter))
    exact le_rfl

/-! ### Eviction -/

/-- What is raised is active, and what is evicted was raised before everything
that stays. -/
def KeepsNewest (config : AlertConfig) (w : Monitored) (label : Timestamp × AlertCall) : Prop :=
  ∀ raised w', label.2 = .raise raised → (alertMachine config).step w label = some w' →
    (raised.key ≠ "" → raised.key ∈ w'.manager.active) ∧
      ∀ (k : String) (a : Alert), w.manager.active[k]? = some a → k ∉ w'.manager.active →
        ∀ (k' : String) (a' : Alert), w'.manager.active[k']? = some a' → a.raised_at < a'.raised_at

/-- Whatever is raised anew in a full manager has a key above the least active
one, and the alert of that least key was raised before all others. -/
def Orderly (config : AlertConfig) (w : Monitored) (label : Timestamp × AlertCall) : Prop :=
  ∀ raised, label.2 = .raise raised → raised.key ≠ "" → raised.key ∉ w.manager.active →
    w.manager.active.size = config.max_active →
    ∃ (least : String) (oldest : Alert), w.manager.active.minKey? = some least ∧ w.manager.active[least]? = some oldest ∧
      least < raised.key ∧
      ∀ (k : String) (a : Alert), k ≠ least → w.manager.active[k]? = some a → oldest.raised_at < a.raised_at

theorem mem_of_lookup {t : TreeMap String Alert} {k : String} {a : Alert} (hlookup : t[k]? = some a) : k ∈ t := by
  rw [TreeMap.mem_iff_isSome_getElem?, hlookup]
  rfl

theorem lookup_of_mem {t : TreeMap String Alert} {k : String} (hmem : k ∈ t) : ∃ a, t[k]? = some a := by
  rw [TreeMap.mem_iff_isSome_getElem?] at hmem
  exact Option.isSome_iff_exists.mp hmem

theorem isLE_compare_iff {a b : String} : (compare a b).isLE = true ↔ a ≤ b := by
  rw [Ordering.isLE_iff_ne_gt]
  exact compare_le_iff_le

/-- The least key of a table with a new entry, when it is not the new one. -/
theorem minKey?_insert_iff {t : TreeMap String Alert} {key least : String} {v : Alert} (hnew : key ∉ t) :
    (t.insert key v).minKey? = some least ∧ least ≠ key ↔ t.minKey? = some least ∧ least < key := by
  rw [TreeMap.minKey?_eq_some_iff_mem_and_forall, TreeMap.minKey?_eq_some_iff_mem_and_forall]
  constructor
  · rintro ⟨⟨hmem, hleast⟩, hne⟩
    have hmem := (Table.mem_insert_iff t key least v).mp hmem
    refine ⟨⟨hmem.resolve_left hne, fun k hk => hleast k ((Table.mem_insert_iff t key k v).mpr (.inr hk))⟩, ?_⟩
    have hle := hleast key ((Table.mem_insert_iff t key key v).mpr (.inl rfl))
    rw [isLE_compare_iff] at hle
    exact lt_of_le_of_ne hle hne
  · rintro ⟨⟨hmem, hleast⟩, hlt⟩
    refine ⟨⟨(Table.mem_insert_iff t key least v).mpr (.inr hmem), fun k hk => ?_⟩, hlt.ne⟩
    obtain rfl | hk := (Table.mem_insert_iff t key k v).mp hk
    · exact isLE_compare_iff.mpr hlt.le
    · exact hleast k hk

section Raise

variable {w : Monitored} {now : Timestamp} {raised : Raised}

/-- A raise that evicts nothing, and leaves what it raised active. -/
theorem keepsNewest_of_subset (hnewest : raised.key ≠ "" → raised.key ∈ (w.manager.raise config now raised).active)
    (hsubset : ∀ k ∈ w.manager.active, k ∈ (w.manager.raise config now raised).active) :
    KeepsNewest config w (now, .raise raised) := by
  rintro _ w' ⟨⟩ hstep
  obtain ⟨_, rfl⟩ := alertMachine_step hstep
  exact ⟨hnewest, fun k a hactive hgone => absurd (hsubset k (mem_of_lookup hactive)) hgone⟩

/-- Nothing goes where a raise only writes. -/
theorem keepsNewest_of_insert {a : Alert}
    (hactive : (w.manager.raise config now raised).active = w.manager.active.insert raised.key a) :
    KeepsNewest config w (now, .raise raised) := by
  refine keepsNewest_of_subset (fun _ => ?_) fun k hk => ?_
  · rw [hactive]
    exact (Table.mem_insert_iff _ _ _ _).mpr (.inl rfl)
  · rw [hactive]
    exact (Table.mem_insert_iff _ _ _ _).mpr (.inr hk)

/-- In a full manager a new alert stays and the oldest one goes exactly when the
least key is below the new one and belongs to the oldest alert. -/
theorem keepsNewest_iff_of_full (hsettled : w.Settled config) (hclock : ∀ last, w.clock = some last → last < now)
    {w' : Monitored} (hstep : (alertMachine config).step w (now, .raise raised) = some w') (hkey : raised.key ≠ "")
    (hnew : raised.key ∉ w.manager.active) (hfull : w.manager.active.size = config.max_active) :
    KeepsNewest config w (now, .raise raised) ↔ Orderly config w (now, .raise raised) := by
  have hnone : w.manager.active[raised.key]? = none := TreeMap.getElem?_eq_none hnew
  obtain ⟨least, hleast, hactive⟩ := AlertManager.raise_of_full config now hkey hnone hfull
  have hnext : w'.manager.active = (w.manager.active.insert raised.key (raised.alert now)).erase least := by
    obtain ⟨_, rfl⟩ := alertMachine_step hstep
    exact hactive
  have hinsert : ∀ {k : String}, k ≠ raised.key →
      (w.manager.active.insert raised.key (raised.alert now))[k]? = w.manager.active[k]? :=
    fun hne => Table.getElem?_insert_of_ne _ _ hne.symm
  constructor
  · intro hkeeps _ hraise _ _ _
    obtain rfl : raised = _ := AlertCall.raise.inj hraise
    obtain ⟨hnewest, hevicted⟩ := hkeeps raised w' rfl hstep
    rw [hnext] at hnewest hevicted
    have hne : least ≠ raised.key := fun heq => ((Table.mem_erase_iff _ _ _).mp (hnewest hkey)).2 heq.symm
    obtain ⟨hminimal, hlt⟩ := (minKey?_insert_iff hnew).mp ⟨hleast, hne⟩
    obtain ⟨oldest, holdest⟩ := lookup_of_mem (TreeMap.minKey?_eq_some_iff_mem_and_forall.mp hminimal).1
    refine ⟨least, oldest, hminimal, holdest, hlt, fun k a hother hlookup => ?_⟩
    refine hevicted least oldest holdest (fun hmem => ((Table.mem_erase_iff _ _ _).mp hmem).2 rfl) k a ?_
    have hold : k ≠ raised.key := fun heq => hnew (heq ▸ mem_of_lookup hlookup)
    rw [getElem?_erase_of_ne hother, hinsert hold, hlookup]
  · intro horderly _ w'' hraise hstep'
    obtain rfl : raised = _ := AlertCall.raise.inj hraise
    obtain rfl : w' = w'' := Option.some.inj (hstep.symm.trans hstep')
    obtain ⟨first, oldest, hminimal, holdest, hlt, hlater⟩ := horderly raised rfl hkey hnew hfull
    obtain ⟨hfirst, hne⟩ := (minKey?_insert_iff (v := raised.alert now) hnew).mpr ⟨hminimal, hlt⟩
    obtain rfl : least = first := Option.some.inj (hleast.symm.trans hfirst)
    rw [hnext]
    refine ⟨fun _ => (Table.mem_erase_iff _ _ _).mpr ⟨(Table.mem_insert_iff _ _ _ _).mpr (.inl rfl), hne.symm⟩, ?_⟩
    intro k a hlookup hgone k' a' hstays
    -- only the least key goes
    have hk : k = least := by
      by_contra hother
      exact hgone ((Table.mem_erase_iff _ _ _).mpr
        ⟨(Table.mem_insert_iff _ _ _ _).mpr (.inr (mem_of_lookup hlookup)), hother⟩)
    rw [hk] at hlookup
    obtain rfl : oldest = a := Option.some.inj (holdest.symm.trans hlookup)
    have hother : k' ≠ least := fun heq => ((Table.mem_erase_iff _ _ _).mp (mem_of_lookup hstays)).2 heq
    rw [getElem?_erase_of_ne hother] at hstays
    obtain ⟨_, rfl⟩ | ⟨_, hold⟩ := Table.getElem?_insert_eq_some.mp hstays
    · exact hsettled.before hclock holdest
    · exact hlater k' a' hother hold

end Raise

/-- A call keeps the newest alerts exactly when it is orderly. -/
theorem keepsNewest_iff {w w' : Monitored} {label : Timestamp × AlertCall} (hsettled : w.Settled config)
    (hstep : (alertMachine config).step w label = some w') :
    KeepsNewest config w label ↔ Orderly config w label := by
  obtain ⟨hclock, _⟩ := alertMachine_step hstep
  obtain ⟨now, call⟩ := label
  cases call with
  | resolve key => exact ⟨fun _ _ hraise => (by cases hraise), fun _ _ _ hraise => by cases hraise⟩
  | raise raised =>
    by_cases hkey : raised.key = ""
    · have hsame : (w.manager.raise config now raised).active = w.manager.active := by
        rw [AlertManager.raise, if_pos hkey]
      refine iff_of_true (keepsNewest_of_subset (fun hne => absurd hkey hne) fun k hk => by rwa [hsame]) ?_
      rintro _ ⟨⟩ hne
      exact absurd hkey hne
    by_cases hnew : raised.key ∈ w.manager.active
    · obtain ⟨it, hit⟩ := lookup_of_mem hnew
      refine iff_of_true (keepsNewest_of_insert (AlertManager.raise_of_active config now hkey hit)) ?_
      rintro _ ⟨⟩ _ hnot
      exact absurd hnew hnot
    rcases hsettled.bounded.lt_or_eq with hroom | hfull
    · refine iff_of_true (keepsNewest_of_insert
        (AlertManager.raise_of_room config now hkey (TreeMap.getElem?_eq_none hnew) hroom)) ?_
      rintro _ ⟨⟩ _ _ hfull
      exact absurd hfull hroom.ne
    · exact keepsNewest_iff_of_full hsettled hclock hstep hkey hnew hfull

/-- A run keeps the newest alerts at every call exactly when every call is
orderly where it is made. -/
theorem along_keepsNewest_iff {w : Monitored} (hsettled : w.Settled config) (calls : List (Timestamp × AlertCall))
    {final : Monitored} (hexec : (alertMachine config).exec w calls = some final) :
    (alertMachine config).Along (KeepsNewest config) w calls ↔
      (alertMachine config).Along (Orderly config) w calls := by
  induction calls generalizing w with
  | nil => exact Iff.rfl
  | cons label calls ih =>
    cases hstep : (alertMachine config).step w label with
    | none => simp [Machine.exec, hstep] at hexec
    | some w' =>
      simp only [Machine.exec, hstep] at hexec
      simp only [Machine.Along, hstep, Option.mem_def, Option.some.injEq, forall_eq']
      exact and_congr (keepsNewest_iff hsettled hstep) (ih (hsettled.step hstep) hexec)

/-- In every run the active alerts are within the bound and their severity does
not decrease; and a run keeps the newest alerts exactly when it is orderly. -/
theorem alertMachine_bounded (config : AlertConfig) :
    (∀ w, (alertMachine config).Reachable w → w.manager.active.size ≤ config.max_active ∧
      ∀ label w', (alertMachine config).step w label = some w' → ∀ (k : String) (a a' : Alert),
        w.manager.active[k]? = some a → w'.manager.active[k]? = some a' →
          a.severity.toNat ≤ a'.severity.toNat) ∧
      ∀ calls final, (alertMachine config).exec {} calls = some final →
        ((alertMachine config).Along (KeepsNewest config) {} calls ↔
          (alertMachine config).Along (Orderly config) {} calls) := by
  refine ⟨fun w hreach => ?_, fun calls final hexec => ?_⟩
  · have hsettled := Monitored.settled_of_reachable hreach
    exact ⟨hsettled.bounded, fun label w' hstep k a a' => hsettled.severity_le hstep⟩
  · exact along_keepsNewest_iff (Monitored.settled_of_reachable (.init rfl)) calls hexec

/-- With room for one alert, an `a` raised after a `b` is dropped as it comes in. -/
theorem alertMachine_drops_newest : ¬ ∀ config : AlertConfig, 1 ≤ config.max_active → ∀ calls final,
    (alertMachine config).exec {} calls = some final →
      (alertMachine config).Along (KeepsNewest config) {} calls := by
  intro hkeeps
  let b : Raised := ⟨"b", .Error, "second in order", ""⟩
  let a : Raised := ⟨"a", .Critical, "first in order", ""⟩
  let config : AlertConfig := { max_active := 1 }
  let before : Monitored := Monitored.next config {} 1 (.raise b)
  have halong := hkeeps config le_rfl [(1, .raise b), (2, .raise a)] (before.next config 2 (.raise a)) rfl
  have hsecond := (halong.2 before rfl).1 a (before.next config 2 (.raise a)) rfl rfl
  have hgone : (before.next config 2 (.raise a)).manager.active.contains "a" = false := by decide +kernel
  have hstays := TreeMap.contains_iff_mem.mpr (hsecond.1 (by decide))
  exact absurd (hgone.symm.trans hstays) Bool.false_ne_true

end ptl.ops
