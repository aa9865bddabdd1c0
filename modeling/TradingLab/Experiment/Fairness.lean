import TradingLab.Experiment.Comparison
import TradingLab.TableSum
import Mathlib.Algebra.Order.Field.Rat
import Mathlib.Data.Prod.Lex
import Mathlib.Data.String.Basic
import Mathlib.Tactic.Linarith
import Mathlib.Tactic.Positivity

open Std (TreeMap)

namespace ptl.experiment

open ComparisonRow

/-! ### What the comparators compare -/

/-- The value of a row turned so that the better one is smaller, and then its id. -/
def ComparisonMetric.key (metric : ComparisonMetric) (row : ComparisonRow) : ℚ ×ₗ String :=
  toLex (match metric.direction with
    | .HigherIsBetter => -(row.answer metric.name).getD 0
    | .LowerIsBetter => (row.answer metric.name).getD 0, row.experiment_id)

theorem ComparisonMetric.before_iff (metric : ComparisonMetric) (a b : ComparisonRow) :
    metric.before a b = true ↔ metric.key a < metric.key b := by
  unfold before key
  by_cases heq : (a.answer metric.name).getD 0 = (b.answer metric.name).getD 0
  · simp [heq, Prod.Lex.toLex_lt_toLex]
  · cases metric.direction with
    | HigherIsBetter => simp [heq, Prod.Lex.toLex_lt_toLex]
    | LowerIsBetter => simp [heq, Prod.Lex.toLex_lt_toLex]

def ComparisonRow.place_key (row : ComparisonRow) : ℚ ×ₗ String :=
  toLex (-row.composite_score, row.experiment_id)

theorem ComparisonRow.above_iff (a b : ComparisonRow) : a.above b = true ↔ a.place_key < b.place_key := by
  unfold above place_key
  by_cases heq : a.composite_score = b.composite_score
  · simp [heq, Prod.Lex.toLex_lt_toLex]
  · simp [heq, Prod.Lex.toLex_lt_toLex]

theorem nodup_keys_of_ids {K : Type} {key : ComparisonRow → K} (hkey : ∀ a b, key a = key b → a.experiment_id = b.experiment_id)
    {rows : List ComparisonRow} (hids : (rows.map (·.experiment_id)).Nodup) : (rows.map key).Nodup := by
  rw [List.Nodup, List.pairwise_map] at hids ⊢
  exact hids.imp fun hne heq => hne (hkey _ _ heq)

theorem ComparisonMetric.id_of_key (metric : ComparisonMetric) (a b : ComparisonRow)
    (heq : metric.key a = metric.key b) : a.experiment_id = b.experiment_id :=
  (Prod.mk.inj (toLex_inj.mp heq)).2

theorem ComparisonRow.id_of_place_key (a b : ComparisonRow) (heq : a.place_key = b.place_key) :
    a.experiment_id = b.experiment_id :=
  (Prod.mk.inj (toLex_inj.mp heq)).2

/-! ### Ranks -/

/-- How many rows come before a row on a metric. -/
def ComparisonMetric.place (metric : ComparisonMetric) (rows : List ComparisonRow) (row : ComparisonRow) : Nat :=
  (rows.filter fun other => (other.answer metric.name).isSome).countP fun other => metric.before other row

/-- A row's ranks after one more metric. -/
def ComparisonMetric.ranked (metric : ComparisonMetric) (rows : List ComparisonRow) (row : ComparisonRow) :
    ComparisonRow :=
  if (row.answer metric.name).isSome then
    { row with ranks := row.ranks.insert metric.name (some (metric.place rows row + 1)) }
  else row

/-- Filtering rows with their indices is filtering the rows. -/
theorem map_fst_participants (p : ComparisonRow → Bool) (rows : List ComparisonRow) :
    (rows.zipIdx.filter fun row => p row.1).map (·.1) = rows.filter p := by
  have hfilter := List.filter_map (p := p) (f := Prod.fst) (l := rows.zipIdx)
  rw [List.zipIdx_map_fst] at hfilter
  exact hfilter.symm

theorem ComparisonMetric.countP_participants (metric : ComparisonMetric) (rows : List ComparisonRow)
    (row : ComparisonRow) :
    (rows.zipIdx.filter fun r => (r.1.answer metric.name).isSome).countP (fun other => metric.before other.1 row) =
      metric.place rows row := by
  rw [place, ← map_fst_participants fun r => (r.answer metric.name).isSome, List.countP_map]
  rfl

/-- The rows after a metric, whether or not any row answers for it. -/
theorem ComparisonReport.rank_rows_eq (report : ComparisonReport) (metric : ComparisonMetric) :
    (report.rank metric).rows = report.rows.mapIdx fun i row =>
      match (metric.participants report.rows).findIdx? fun other => other.2 == i with
      | some rank => { row with ranks := row.ranks.insert metric.name (some (rank + 1)) }
      | none => row := by
  simp only [rank]
  by_cases hnone : (metric.participants report.rows).isEmpty = true
  · rw [if_pos hnone, List.isEmpty_iff.mp hnone]
    refine List.ext_getElem (by simp) fun i hi hi' => ?_
    simp
  · exact congrArg ComparisonReport.rows (if_neg hnone)

/-- One metric ranks each row that answers for it behind those that come before. -/
theorem ComparisonReport.rank_rows (report : ComparisonReport) (metric : ComparisonMetric)
    (hids : (report.rows.map (·.experiment_id)).Nodup) :
    (report.rank metric).rows = report.rows.map (metric.ranked report.rows) := by
  obtain ⟨entries, hentries⟩ : ∃ entries, entries =
      report.rows.zipIdx.filter fun r => (r.1.answer metric.name).isSome := ⟨_, rfl⟩
  have hbefore : ∀ a b : ComparisonRow × Nat, metric.before a.1 b.1 = true ↔ metric.key a.1 < metric.key b.1 :=
    fun a b => metric.before_iff a.1 b.1
  have hkeys : (entries.map fun r => metric.key r.1).Nodup := by
    have hmap : entries.map (fun r => metric.key r.1) = (entries.map (·.1)).map metric.key := by simp
    rw [hmap, hentries, map_fst_participants fun r => (r.answer metric.name).isSome]
    exact nodup_keys_of_ids metric.id_of_key (hids.sublist (List.filter_sublist.map _))
  have hmem : ∀ row i, (row, i) ∈ entries ↔ report.rows[i]? = some row ∧ (row.answer metric.name).isSome := by
    intro row i
    rw [hentries, List.mem_filter, List.mem_zipIdx_iff_getElem?]
  rw [rank_rows_eq, ComparisonMetric.participants, ← hentries]
  refine List.ext_getElem (by simp) fun i hi hi' => ?_
  rw [List.getElem_mapIdx, List.getElem_map, ComparisonMetric.ranked]
  have hi : i < report.rows.length := by simpa using hi
  have hrow : report.rows[i]? = some report.rows[i] := List.getElem?_eq_getElem hi
  have honly : ∀ other ∈ entries, (other.2 == i) = true → other = (report.rows[i], i) := by
    rintro ⟨row, j⟩ hother hj
    obtain rfl : j = i := by simpa using hj
    exact Prod.ext (Option.some.inj (((hmem _ _).mp hother).1.symm.trans hrow)) rfl
  by_cases hanswer : (report.rows[i].answer metric.name).isSome = true
  · have hfind := Ranking.findIdx?_sort hbefore hkeys ((hmem _ _).mpr ⟨hrow, hanswer⟩)
      (p := fun other => other.2 == i) (by simp) honly
    rw [hentries, metric.countP_participants, ← hentries] at hfind
    simp only [hfind, if_pos hanswer]
  · have hfind : (Ranking.sort (fun a b => metric.before a.1 b.1) entries).findIdx? (fun other => other.2 == i) =
        none := by
      rw [List.findIdx?_eq_none_iff]
      intro other hother
      by_contra hindex
      rw [Ranking.mem_sort] at hother
      have heq := honly other hother (by simpa using hindex)
      exact hanswer (((hmem _ _).mp (heq ▸ hother)).2)
    simp only [hfind, if_neg hanswer]

/-! ### All metrics -/

@[simp] theorem ComparisonMetric.ranked_id (metric : ComparisonMetric) (rows : List ComparisonRow)
    (row : ComparisonRow) : (metric.ranked rows row).experiment_id = row.experiment_id := by
  unfold ranked
  split <;> rfl

@[simp] theorem ComparisonMetric.ranked_values (metric : ComparisonMetric) (rows : List ComparisonRow)
    (row : ComparisonRow) : (metric.ranked rows row).values = row.values := by
  unfold ranked
  split <;> rfl

/-- Two rows that are compared alike. -/
def Alike (a b : ComparisonRow) : Prop := a.experiment_id = b.experiment_id ∧ a.values = b.values

theorem Alike.answer {a b : ComparisonRow} (halike : Alike a b) (name : String) : a.answer name = b.answer name := by
  rw [ComparisonRow.answer, ComparisonRow.answer, halike.2]

theorem Alike.before {a b c d : ComparisonRow} (hab : Alike a b) (hcd : Alike c d) (metric : ComparisonMetric) :
    metric.before a c = metric.before b d := by
  simp only [ComparisonMetric.before, hab.answer, hcd.answer, hab.1, hcd.1]

/-- The place of a row does not depend on the ranks given before. -/
theorem ComparisonMetric.place_map (metric : ComparisonMetric) {f : ComparisonRow → ComparisonRow}
    (hf : ∀ row, Alike (f row) row) (rows : List ComparisonRow) (row : ComparisonRow) :
    metric.place (rows.map f) row = metric.place rows row := by
  rw [place, place, List.filter_map, List.countP_map]
  have hfilter : rows.filter ((fun other => (other.answer metric.name).isSome) ∘ f) =
      rows.filter fun other => (other.answer metric.name).isSome :=
    List.filter_congr fun other _ => by rw [Function.comp_apply, (hf other).answer]
  rw [hfilter]
  exact List.countP_congr fun other _ => by rw [Function.comp_apply, (hf other).before ⟨rfl, rfl⟩]

theorem Alike.place {a b : ComparisonRow} (halike : Alike a b) (metric : ComparisonMetric)
    (rows : List ComparisonRow) : metric.place rows a = metric.place rows b :=
  List.countP_congr fun other _ => by rw [Alike.before ⟨rfl, rfl⟩ halike]

/-- A row after all the metrics of a list. -/
def ranked_all (rows : List ComparisonRow) (metrics : List ComparisonMetric) (row : ComparisonRow) :
    ComparisonRow :=
  metrics.foldl (fun row metric => metric.ranked rows row) row

theorem ranked_all_alike (rows : List ComparisonRow) (metrics : List ComparisonMetric) (row : ComparisonRow) :
    Alike (ranked_all rows metrics row) row := by
  unfold ranked_all
  induction metrics generalizing row with
  | nil => exact ⟨rfl, rfl⟩
  | cons metric metrics ih =>
    obtain ⟨hid, hvalues⟩ := ih (metric.ranked rows row)
    exact ⟨hid.trans (by simp), hvalues.trans (by simp)⟩

/-- The metrics that no row answers for. -/
def unavailable (rows : List ComparisonRow) (metrics : List ComparisonMetric) : List String :=
  (metrics.filter fun metric => !rows.any fun row => (row.answer metric.name).isSome).map (·.name)

theorem unavailable_append (rows : List ComparisonRow) (metrics metrics' : List ComparisonMetric) :
    unavailable rows (metrics ++ metrics') = unavailable rows metrics ++ unavailable rows metrics' := by
  rw [unavailable, List.filter_append, List.map_append, unavailable, unavailable]

theorem ComparisonReport.rank_unavailable (report : ComparisonReport) (metric : ComparisonMetric) :
    (report.rank metric).unavailable_metrics = report.unavailable_metrics ++ unavailable report.rows [metric] := by
  have hempty : (metric.participants report.rows).isEmpty =
      !report.rows.any fun row => (row.answer metric.name).isSome := by
    rw [ComparisonMetric.participants, Ranking.isEmpty_sort, ← List.isEmpty_map (f := Prod.fst),
      map_fst_participants fun row => (row.answer metric.name).isSome, Bool.eq_iff_iff]
    simp
  simp only [rank, hempty, unavailable]
  by_cases hany : (report.rows.any fun row => (row.answer metric.name).isSome) = true
  · simp [hany]
  · simp [hany]

theorem ComparisonReport.rank_metrics (report : ComparisonReport) (metric : ComparisonMetric) :
    (report.rank metric).metrics = report.metrics := by
  simp only [rank]
  split <;> rfl

/-- The rows after the loop over the metrics, each on its own. -/
theorem foldl_rank {rows : List ComparisonRow} (hids : (rows.map (·.experiment_id)).Nodup)
    (metrics past : List ComparisonMetric) (report : ComparisonReport)
    (hrows : report.rows = rows.map (ranked_all rows past)) :
    metrics.foldl ComparisonReport.rank report =
      { report with
        rows := rows.map (ranked_all rows (past ++ metrics))
        unavailable_metrics := report.unavailable_metrics ++ unavailable rows metrics } := by
  induction metrics generalizing past report with
  | nil =>
    obtain ⟨_, _, _⟩ := report
    simp only at hrows
    simp [hrows, unavailable]
  | cons metric metrics ih =>
    have halike := ranked_all_alike rows past
    have hids' : (report.rows.map (·.experiment_id)).Nodup := by
      rw [hrows, List.map_map]
      have hsame : (fun row : ComparisonRow => row.experiment_id) ∘ ranked_all rows past = (·.experiment_id) :=
        funext fun row => (halike row).1
      rwa [hsame]
    have hnext : (report.rank metric).rows = rows.map (ranked_all rows (past ++ [metric])) := by
      rw [report.rank_rows metric hids', hrows, List.map_map]
      refine List.map_congr_left fun row _ => ?_
      rw [Function.comp_apply, ComparisonMetric.ranked, metric.place_map halike, ranked_all, ranked_all,
        List.foldl_append]
      rfl
    have hmissing : unavailable report.rows [metric] = unavailable rows [metric] := by
      have hany : (rows.map (ranked_all rows past)).any (fun row => (row.answer metric.name).isSome) =
          rows.any fun row => (row.answer metric.name).isSome := by
        rw [List.any_map]
        refine congrArg (rows.any ·) (funext fun row => ?_)
        rw [Function.comp_apply, (halike row).answer]
      rw [hrows, unavailable, unavailable, List.filter_singleton, List.filter_singleton, hany]
    rw [List.foldl_cons, ih _ _ hnext, report.rank_unavailable, report.rank_metrics, hmissing, List.append_assoc,
      List.append_assoc, ← unavailable_append]
    rfl

/-- A row with its ranks and its composite. -/
def scored (rows : List ComparisonRow) (metrics : List ComparisonMetric) (row : ComparisonRow) : ComparisonRow :=
  { ranked_all rows metrics row with
    composite_score := (ranked_all rows metrics row).composite metrics rows.length }

@[simp] theorem scored_id (rows : List ComparisonRow) (metrics : List ComparisonMetric) (row : ComparisonRow) :
    (scored rows metrics row).experiment_id = row.experiment_id :=
  (ranked_all_alike rows metrics row).1

@[simp] theorem start_id (metrics : List ComparisonMetric) (result : ExperimentResult) :
    (start metrics result).experiment_id = result.experiment_id := by
  have hfrom : ∀ (ms : List ComparisonMetric) (row : ComparisonRow),
      (ms.foldl (fun row metric => { row with
        values := row.values.insert metric.name (result.metric metric.name)
        ranks := row.ranks.insert metric.name none }) row).experiment_id = row.experiment_id := by
    intro ms
    induction ms with
    | nil => exact fun _ => rfl
    | cons metric ms ih => exact fun row => ih _
  exact hfrom metrics _

theorem nodup_start_ids {results : List ExperimentResult} (hids : (results.map (·.experiment_id)).Nodup)
    (metrics : List ComparisonMetric) :
    ((results.map (start metrics)).map (·.experiment_id)).Nodup := by
  have hsame : (fun row : ComparisonRow => row.experiment_id) ∘ start metrics =
      fun result => result.experiment_id := funext fun result => start_id metrics result
  rwa [List.map_map, hsame]

theorem nodup_scored_keys {rows : List ComparisonRow} (hids : (rows.map (·.experiment_id)).Nodup)
    (metrics : List ComparisonMetric) :
    ((rows.map (scored rows metrics)).map place_key).Nodup := by
  refine nodup_keys_of_ids id_of_place_key ?_
  have hsame : (fun row : ComparisonRow => row.experiment_id) ∘ scored rows metrics =
      fun row => row.experiment_id := funext fun row => scored_id rows metrics row
  rwa [List.map_map, hsame]

/-- Rows in their final order, numbered from one. -/
def numbered (rows : List ComparisonRow) : List ComparisonRow :=
  rows.mapIdx fun i row => { row with overall_rank := i + 1 }

def final_report (metrics : List ComparisonMetric) (rows : List ComparisonRow) : ComparisonReport where
  metrics := metrics
  rows := numbered (Ranking.sort above (rows.map (scored rows metrics)))
  unavailable_metrics := Ranking.sort (fun a b => a < b) (unavailable rows metrics)

/-- The report of a comparison, each row computed on its own. -/
theorem compare_eq (metrics : List ComparisonMetric) {results : List ExperimentResult} (hsome : results ≠ [])
    (hids : (results.map (·.experiment_id)).Nodup) :
    compare metrics results = .ok (final_report metrics (results.map (start metrics))) := by
  have hempty : ¬ results.isEmpty = true := by simpa using hsome
  obtain ⟨rows, hrows⟩ : ∃ rows, rows = results.map (start metrics) := ⟨_, rfl⟩
  have hranked := foldl_rank (hrows ▸ nodup_start_ids hids metrics) metrics [] { metrics, rows }
    (List.map_id rows).symm
  rw [compare, if_neg hempty, ← hrows]
  simp only [hranked, final_report, numbered, List.map_map, List.length_map, List.nil_append]
  rfl

/-! ### The order of the input -/

theorem ComparisonMetric.place_of_perm (metric : ComparisonMetric) {rows rows' : List ComparisonRow}
    (hperm : rows.Perm rows') (row : ComparisonRow) : metric.place rows row = metric.place rows' row :=
  (hperm.filter _).countP_eq _

theorem ranked_all_of_perm {rows rows' : List ComparisonRow} (hperm : rows.Perm rows')
    (metrics : List ComparisonMetric) : ranked_all rows metrics = ranked_all rows' metrics := by
  have hranked : ∀ metric : ComparisonMetric, metric.ranked rows = metric.ranked rows' := by
    intro metric
    funext row
    rw [ComparisonMetric.ranked, metric.place_of_perm hperm, ComparisonMetric.ranked]
  funext row
  simp only [ranked_all, hranked]

theorem unavailable_of_perm {rows rows' : List ComparisonRow} (hperm : rows.Perm rows')
    (metrics : List ComparisonMetric) : unavailable rows metrics = unavailable rows' metrics := by
  have hany : ∀ name : String, (rows.any fun row => (row.answer name).isSome) =
      rows'.any fun row => (row.answer name).isSome := fun name => hperm.any_eq
  simp only [unavailable, hany]

theorem final_report_of_perm {rows rows' : List ComparisonRow} (hperm : rows.Perm rows')
    (hids : (rows.map (·.experiment_id)).Nodup) (metrics : List ComparisonMetric) :
    final_report metrics rows = final_report metrics rows' := by
  have hscored : scored rows' metrics = scored rows metrics := by
    funext row
    rw [scored, scored, ranked_all_of_perm hperm, hperm.length_eq]
  rw [final_report, final_report, hscored, unavailable_of_perm hperm,
    Ranking.sort_eq_of_perm above_iff (nodup_scored_keys hids metrics) (hperm.map _)]

theorem ranks_numbered (rows : List ComparisonRow) :
    (numbered rows).map (·.overall_rank) = List.range' 1 rows.length := by
  refine List.ext_getElem (by simp [numbered]) fun i hi hi' => ?_
  simp [numbered, Nat.add_comm]

/-! ### Dominance -/

def ExperimentResult.answer (r : ExperimentResult) (name : String) : Option ℚ :=
  (r.metric name).bind Double.finite?

def ComparisonMetric.better (metric : ComparisonMetric) (x y : ℚ) : Prop :=
  match metric.direction with
  | .HigherIsBetter => y < x
  | .LowerIsBetter => x < y

/-- `a` answers for what `b` answers for, never worse, better on a metric of
positive weight, and with no tie on one. -/
structure Dominates (metrics : List ComparisonMetric) (a b : ExperimentResult) : Prop where
  same : ∀ metric ∈ metrics, (a.answer metric.name).isSome = (b.answer metric.name).isSome
  good : ∀ metric ∈ metrics, ∀ x ∈ a.answer metric.name, ∀ y ∈ b.answer metric.name,
    x = y ∨ metric.better x y
  strict : ∃ metric ∈ metrics, 0 < metric.weight ∧
    ∃ x ∈ a.answer metric.name, ∃ y ∈ b.answer metric.name, metric.better x y
  untied : ∀ metric ∈ metrics, 0 < metric.weight →
    ∀ x ∈ a.answer metric.name, ∀ y ∈ b.answer metric.name, x ≠ y

/-- The rank a row holds for a name. -/
def ComparisonRow.held (row : ComparisonRow) (name : String) : Option Nat :=
  (row.ranks[name]?).getD none

theorem start_values {metrics : List ComparisonMetric} {metric : ComparisonMetric} (hmem : metric ∈ metrics)
    (result : ExperimentResult) :
    (start metrics result).answer metric.name = result.answer metric.name ∧
      (start metrics result).held metric.name = none := by
  have hfrom : ∀ (ms : List ComparisonMetric) (row : ComparisonRow),
      metric ∈ ms ∨ row.values[metric.name]? = some (result.metric metric.name) ∧
        row.ranks[metric.name]? = some none →
      (ms.foldl (fun row metric => { row with
        values := row.values.insert metric.name (result.metric metric.name)
        ranks := row.ranks.insert metric.name none }) row).values[metric.name]? =
          some (result.metric metric.name) ∧
      (ms.foldl (fun row metric => { row with
        values := row.values.insert metric.name (result.metric metric.name)
        ranks := row.ranks.insert metric.name none }) row).ranks[metric.name]? = some none := by
    intro ms
    induction ms with
    | nil => exact fun row hrow => hrow.resolve_left List.not_mem_nil
    | cons m ms ih =>
      intro row hrow
      refine ih _ (or_iff_not_imp_left.mpr fun hlater => ?_)
      by_cases hname : m.name = metric.name
      · simp only [hname, Table.getElem?_insert_self, and_self]
      · obtain rfl | hold := hrow.imp_left List.mem_cons.mp |>.imp_left (Or.resolve_right · hlater)
        · exact absurd rfl hname
        · simp only [Table.getElem?_insert_of_ne _ _ hname]
          exact hold
  obtain ⟨hvalues, hranks⟩ := hfrom metrics { experiment_id := result.experiment_id } (.inl hmem)
  constructor
  · rw [answer, start, hvalues]
    rfl
  · rw [held, start, hranks]
    rfl

theorem ComparisonMetric.held_ranked (metric : ComparisonMetric) (rows : List ComparisonRow) (row : ComparisonRow)
    (name : String) : (metric.ranked rows row).held name =
      if metric.name = name ∧ (row.answer name).isSome then some (metric.place rows row + 1) else row.held name := by
  by_cases hanswer : (row.answer metric.name).isSome = true
  · rw [ranked, if_pos hanswer, held]
    by_cases hname : metric.name = name
    · rw [if_pos ⟨hname, hname ▸ hanswer⟩, hname, Table.getElem?_insert_self]
      rfl
    · rw [if_neg fun h : _ ∧ _ => hname h.1, Table.getElem?_insert_of_ne _ _ hname]
      rfl
  · rw [ranked, if_neg hanswer]
    refine (if_neg ?_).symm
    rintro ⟨rfl, hanswer'⟩
    exact hanswer hanswer'

/-- One more metric at the end of the list. -/
theorem held_ranked_all_append (rows : List ComparisonRow) (name : String) (metrics : List ComparisonMetric)
    (metric : ComparisonMetric) (row : ComparisonRow) :
    (ranked_all rows (metrics ++ [metric]) row).held name =
      if metric.name = name ∧ (row.answer name).isSome then some (metric.place rows row + 1)
      else (ranked_all rows metrics row).held name := by
  have halike := ranked_all_alike rows metrics row
  have hheld := metric.held_ranked rows (ranked_all rows metrics row) name
  rw [halike.answer, halike.place] at hheld
  rw [ranked_all, List.foldl_append]
  exact hheld

/-- A row that does not answer for a name holds no rank for it. -/
theorem held_of_no_answer (rows : List ComparisonRow) {name : String} (metrics : List ComparisonMetric)
    {row : ComparisonRow} (hrow : row.held name = none) (hanswer : ¬ (row.answer name).isSome = true) :
    (ranked_all rows metrics row).held name = none := by
  induction metrics using List.reverseRecOn with
  | nil => exact hrow
  | append_singleton metrics metric ih =>
    rw [held_ranked_all_append, if_neg fun h : _ ∧ _ => hanswer h.2, ih]

/-- Of several metrics with one name the last one ranks, and it is the same one
for every row. -/
theorem exists_last_metric (rows : List ComparisonRow) (name : String) (metrics : List ComparisonMetric)
    (hname : ∃ metric ∈ metrics, metric.name = name) :
    ∃ last ∈ metrics, last.name = name ∧ ∀ row : ComparisonRow, row.held name = none →
      (row.answer name).isSome → (ranked_all rows metrics row).held name = some (last.place rows row + 1) := by
  induction metrics using List.reverseRecOn with
  | nil =>
    obtain ⟨_, hmem, _⟩ := hname
    cases hmem
  | append_singleton metrics metric ih =>
    by_cases hlast : metric.name = name
    · refine ⟨metric, by simp, hlast, fun row _ hanswer => ?_⟩
      rw [held_ranked_all_append, if_pos ⟨hlast, hanswer⟩]
    · obtain ⟨other, hmem, hother⟩ := hname
      rw [List.mem_append, List.mem_singleton] at hmem
      have hmem : other ∈ metrics := hmem.resolve_right fun heq => hlast (heq ▸ hother)
      obtain ⟨last, hlastmem, hlastname, hheld⟩ := ih ⟨other, hmem, hother⟩
      refine ⟨last, List.mem_append_left _ hlastmem, hlastname, fun row hrow hanswer => ?_⟩
      rw [held_ranked_all_append, if_neg fun h : _ ∧ _ => hlast h.1, hheld row hrow hanswer]

/-- Sums of the same weight, the first one with the higher ranks. -/
def Leads (a b : ℚ × ℚ) : Prop := a.2 = b.2 ∧ 0 < a.2 ∧ b.1 < a.1

theorem normalised_lt {n i j : Nat} (hij : i < j) : normalised n (j + 1) < normalised n (i + 1) := by
  have hpos : (0 : ℚ) < max 1 (n : ℚ) := lt_of_lt_of_le zero_lt_one (le_max_left _ _)
  have hlt : (i : ℚ) < j := Nat.cast_lt.mpr hij
  unfold normalised
  rw [Nat.add_sub_cancel, Nat.add_sub_cancel]
  exact sub_lt_sub_left (div_lt_div_of_pos_right hlt hpos) 1

section Weighing

variable (n : Nat) {ra rb : ComparisonRow} {metric : ComparisonMetric}

theorem weigh_of_none {row : ComparisonRow} (hnone : 0 < metric.weight → row.held metric.name = none)
    (sums : ℚ × ℚ) : row.weigh n sums metric = sums := by
  unfold weigh
  by_cases hweight : metric.weight ≤ 0
  · rw [if_pos hweight]
  · have hheld := hnone (not_le.mp hweight)
    rw [held] at hheld
    rw [if_neg hweight, hheld]

theorem weigh_of_some {row : ComparisonRow} {rank : Nat} (hweight : 0 < metric.weight)
    (hheld : row.held metric.name = some rank) (sums : ℚ × ℚ) :
    row.weigh n sums metric = (sums.1 + metric.weight * normalised n rank, sums.2 + metric.weight) := by
  rw [held] at hheld
  rw [weigh, if_neg (not_le.mpr hweight), hheld]

/-- Neither row takes part in a metric, or both do and the first is ahead. -/
def Ahead (ra rb : ComparisonRow) (metric : ComparisonMetric) : Prop :=
  0 < metric.weight → ra.held metric.name = none ∧ rb.held metric.name = none ∨
    ∃ i j, ra.held metric.name = some (i + 1) ∧ rb.held metric.name = some (j + 1) ∧ i < j

/-- A metric both take part in puts the first one in the lead, from level or
from ahead. -/
theorem Leads.weigh {sa sb : ℚ × ℚ} {i j : Nat} (hweight : 0 < metric.weight)
    (ha : ra.held metric.name = some (i + 1)) (hb : rb.held metric.name = some (j + 1)) (hij : i < j)
    (hsame : sa.2 = sb.2) (hpos : 0 ≤ sa.2) (hle : sb.1 ≤ sa.1) :
    Leads (ra.weigh n sa metric) (rb.weigh n sb metric) := by
  have hgain := mul_lt_mul_of_pos_left (normalised_lt (n := n) hij) hweight
  rw [weigh_of_some n hweight ha, weigh_of_some n hweight hb]
  exact ⟨by rw [hsame], by positivity, by linarith⟩

theorem Leads.foldl {sa sb : ℚ × ℚ} {metrics : List ComparisonMetric}
    (hahead : ∀ metric ∈ metrics, Ahead ra rb metric) (hleads : Leads sa sb) :
    Leads (metrics.foldl (ra.weigh n) sa) (metrics.foldl (rb.weigh n) sb) := by
  induction metrics generalizing sa sb with
  | nil => exact hleads
  | cons metric metrics ih =>
    refine ih (fun m hm => hahead m (List.mem_cons_of_mem _ hm)) ?_
    have hhead := hahead metric List.mem_cons_self
    by_cases hweight : 0 < metric.weight
    · obtain ⟨ha, hb⟩ | ⟨i, j, ha, hb, hij⟩ := hhead hweight
      · rwa [weigh_of_none n fun _ => ha, weigh_of_none n fun _ => hb]
      · exact Leads.weigh n hweight ha hb hij hleads.1 hleads.2.1.le hleads.2.2.le
    · rwa [weigh_of_none n fun h => absurd h hweight, weigh_of_none n fun h => absurd h hweight]

/-- From level sums, one metric both take part in is enough. -/
theorem Leads.foldl_of_mem (sums : ℚ × ℚ) (hpos : 0 ≤ sums.2) {metrics : List ComparisonMetric}
    (hahead : ∀ metric ∈ metrics, Ahead ra rb metric)
    (hsome : ∃ metric ∈ metrics, 0 < metric.weight ∧ ra.held metric.name ≠ none) :
    Leads (metrics.foldl (ra.weigh n) sums) (metrics.foldl (rb.weigh n) sums) := by
  induction metrics generalizing sums with
  | nil =>
    obtain ⟨_, hmem, _⟩ := hsome
    cases hmem
  | cons metric metrics ih =>
    have hrest : ∀ m ∈ metrics, Ahead ra rb m := fun m hm => hahead m (List.mem_cons_of_mem _ hm)
    have hlater : (¬ (0 < metric.weight ∧ ra.held metric.name ≠ none)) →
        ∃ m ∈ metrics, 0 < m.weight ∧ ra.held m.name ≠ none := by
      intro hnot
      obtain ⟨m, hm, htakes⟩ := hsome
      obtain rfl | hm := List.mem_cons.mp hm
      · exact absurd htakes hnot
      · exact ⟨m, hm, htakes⟩
    rw [List.foldl_cons, List.foldl_cons]
    by_cases hweight : 0 < metric.weight
    · obtain ⟨ha, hb⟩ | ⟨i, j, ha, hb, hij⟩ := hahead metric List.mem_cons_self hweight
      · rw [weigh_of_none n fun _ => ha, weigh_of_none n fun _ => hb]
        exact ih sums hpos hrest (hlater fun h => h.2 ha)
      · exact Leads.foldl n hrest (Leads.weigh n hweight ha hb hij rfl hpos le_rfl)
    · rw [weigh_of_none n fun h => absurd h hweight, weigh_of_none n fun h => absurd h hweight]
      exact ih sums hpos hrest (hlater fun h => hweight h.1)

end Weighing

theorem Leads.composite_lt {metrics : List ComparisonMetric} {n : Nat} {ra rb : ComparisonRow}
    (hleads : Leads (metrics.foldl (ra.weigh n) (0, 0)) (metrics.foldl (rb.weigh n) (0, 0))) :
    rb.composite metrics n < ra.composite metrics n := by
  obtain ⟨hsame, hpos, hlt⟩ := hleads
  simp only [composite]
  rw [← hsame, if_pos hpos, if_pos hpos]
  exact div_lt_div_of_pos_right hlt hpos

/-- The better value comes first. -/
theorem ComparisonMetric.before_of_better {metric : ComparisonMetric} {a b : ComparisonRow} {x y : ℚ}
    (ha : a.answer metric.name = some x) (hb : b.answer metric.name = some y) (hne : x ≠ y)
    (hbetter : metric.better x y) : metric.before a b = true := by
  unfold before
  unfold better at hbetter
  rw [ha, hb]
  simp only [Option.getD_some, if_pos hne]
  cases hdirection : metric.direction with
  | HigherIsBetter =>
    rw [hdirection] at hbetter
    exact decide_eq_true hbetter
  | LowerIsBetter =>
    rw [hdirection] at hbetter
    exact decide_eq_true hbetter

theorem Dominates.ahead {metrics : List ComparisonMetric} {a b : ExperimentResult} (hdominates : Dominates metrics a b)
    {rows : List ComparisonRow} (hmem : start metrics a ∈ rows) {metric : ComparisonMetric}
    (hmetric : metric ∈ metrics) :
    Ahead (ranked_all rows metrics (.start metrics a)) (ranked_all rows metrics (.start metrics b)) metric := by
  intro hweight
  obtain ⟨hanswera, hnonea⟩ := start_values hmetric a
  obtain ⟨hanswerb, hnoneb⟩ := start_values hmetric b
  obtain ⟨last, hlast, hname, hheld⟩ := exists_last_metric rows metric.name metrics ⟨metric, hmetric, rfl⟩
  have hsame := hdominates.same metric hmetric
  cases hx : a.answer metric.name with
  | none =>
    rw [hx] at hanswera hsame
    rw [← hanswerb] at hsame
    exact .inl ⟨held_of_no_answer rows metrics hnonea (by rw [hanswera]; decide),
      held_of_no_answer rows metrics hnoneb (by rw [← hsame]; decide)⟩
  | some x =>
    rw [hx] at hanswera hsame
    obtain ⟨y, hy⟩ := Option.isSome_iff_exists.mp hsame.symm
    rw [hy] at hanswerb
    have hne := hdominates.untied metric hmetric hweight x hx y hy
    -- the ranking that counts is the one of the last metric with the name
    have hbetter := (hdominates.good last hlast x (hname ▸ hx) y (hname ▸ hy)).resolve_left hne
    have hbefore := ComparisonMetric.before_of_better (a := .start metrics a) (b := .start metrics b)
      (hname ▸ hanswera) (hname ▸ hanswerb) hne hbetter
    refine .inr ⟨_, _, hheld _ hnonea (by rw [hanswera]; rfl), hheld _ hnoneb (by rw [hanswerb]; rfl), ?_⟩
    refine Ranking.countP_before_lt last.before_iff (List.mem_filter.mpr ⟨hmem, ?_⟩) hbefore
    rw [hname, hanswera]
    rfl

theorem Dominates.place_key_lt {metrics : List ComparisonMetric} {a b : ExperimentResult}
    (hdominates : Dominates metrics a b) {rows : List ComparisonRow}
    (hmem : start metrics a ∈ rows) :
    (scored rows metrics (.start metrics a)).place_key < (scored rows metrics (.start metrics b)).place_key := by
  obtain ⟨metric, hmetric, hweight, x, hx, y, hy, _⟩ := hdominates.strict
  have htakes : (ranked_all rows metrics (.start metrics a)).held metric.name ≠ none := by
    obtain ⟨hanswer, hnone⟩ := start_values hmetric a
    obtain ⟨last, _, _, hheld⟩ := exists_last_metric rows metric.name metrics ⟨metric, hmetric, rfl⟩
    rw [hheld _ hnone (by rw [hanswer, hx]; rfl)]
    exact Option.some_ne_none _
  have hleads := Leads.foldl_of_mem rows.length (0, 0) le_rfl
    (fun metric hmetric => hdominates.ahead hmem hmetric) ⟨metric, hmetric, hweight, htakes⟩
  exact Prod.Lex.toLex_lt_toLex.mpr (.inl (neg_lt_neg hleads.composite_lt))

theorem mem_numbered {rows : List ComparisonRow} {row : ComparisonRow} (hmem : row ∈ numbered rows) :
    ∃ (i : Nat) (hi : i < rows.length), row = { rows[i] with overall_rank := i + 1 } := by
  obtain ⟨i, hi, hrow⟩ := List.mem_mapIdx.mp hmem
  exact ⟨i, hi, hrow.symm⟩

/-- Sorted rows are numbered in their order. -/
theorem numbered_lt {rows : List ComparisonRow} (hsorted : rows.Pairwise fun a b => a.place_key < b.place_key)
    {i j : Nat} (hi : i < rows.length) (hj : j < rows.length) (hlt : rows[i].place_key < rows[j].place_key) :
    i < j := by
  rw [List.pairwise_iff_getElem] at hsorted
  rcases Nat.lt_trichotomy i j with hij | rfl | hji
  · exact hij
  · exact absurd hlt (lt_irrefl _)
  · exact absurd (hsorted j i hj hi hji) (lt_asymm hlt)

theorem dominant_above {metrics : List ComparisonMetric} {results : List ExperimentResult}
    (hids : (results.map (·.experiment_id)).Nodup) {a b : ExperimentResult} (ha : a ∈ results) (hb : b ∈ results)
    (hdominates : Dominates metrics a b) {x y : ComparisonRow}
    (hx : x ∈ (final_report metrics (results.map (start metrics))).rows)
    (hy : y ∈ (final_report metrics (results.map (start metrics))).rows)
    (hxa : x.experiment_id = a.experiment_id) (hyb : y.experiment_id = b.experiment_id) :
    x.overall_rank < y.overall_rank := by
  have hstart := nodup_start_ids hids metrics
  obtain ⟨rows, hrows⟩ : ∃ rows, rows = results.map (start metrics) := ⟨_, rfl⟩
  rw [← hrows] at hx hy hstart
  have hmema : start metrics a ∈ rows := hrows ▸ List.mem_map_of_mem ha
  have hmemb : start metrics b ∈ rows := hrows ▸ List.mem_map_of_mem hb
  have hsorted := Ranking.pairwise_lt_sort above_iff (nodup_scored_keys hstart metrics)
  have hrow : ∀ z ∈ Ranking.sort above (rows.map (scored rows metrics)),
      ∀ r ∈ rows, z.experiment_id = r.experiment_id → z = scored rows metrics r := by
    intro z hz r hr hid
    obtain ⟨r', hr', rfl⟩ := List.mem_map.mp (Ranking.mem_sort.mp hz)
    rw [scored_id] at hid
    rw [List.inj_on_of_nodup_map hstart hr' hr hid]
  obtain ⟨i, hi, rfl⟩ := mem_numbered hx
  obtain ⟨j, hj, rfl⟩ := mem_numbered hy
  have hxi := hrow _ (List.getElem_mem hi) _ hmema (hxa.trans (start_id metrics a).symm)
  have hyj := hrow _ (List.getElem_mem hj) _ hmemb (hyb.trans (start_id metrics b).symm)
  have hlt := numbered_lt hsorted hi hj (by rw [hxi, hyj]; exact hdominates.place_key_lt hmema)
  exact Nat.succ_lt_succ hlt

theorem ids_final_report (metrics : List ComparisonMetric) (rows : List ComparisonRow) :
    ((final_report metrics rows).rows.map (·.experiment_id)).Perm (rows.map (·.experiment_id)) := by
  have hnumbered : ∀ l : List ComparisonRow, (numbered l).map (·.experiment_id) = l.map (·.experiment_id) :=
    fun l => List.ext_getElem (by simp [numbered]) fun i hi hi' => by simp [numbered]
  have hsame : (fun row : ComparisonRow => row.experiment_id) ∘ scored rows metrics = fun row => row.experiment_id :=
    funext fun row => scored_id rows metrics row
  rw [final_report, hnumbered]
  refine ((Ranking.sort_perm _ _).map _).trans ?_
  rw [List.map_map, hsame]

/-- A comparison of results with distinct ids: one report for every order of the
input, with one row a result, the ranks from one on, and a result that
dominates another above it. -/
theorem compare_fair (metrics : List ComparisonMetric) (results : List ExperimentResult) (hsome : results ≠ [])
    (hids : (results.map (·.experiment_id)).Nodup) :
    ∃ report, compare metrics results = .ok report ∧
      (∀ results', results'.Perm results → compare metrics results' = .ok report) ∧
      (report.rows.map (·.experiment_id)).Perm (results.map (·.experiment_id)) ∧
      (report.rows.map (·.overall_rank)).Perm (List.range' 1 results.length) ∧
      ∀ a ∈ results, ∀ b ∈ results, Dominates metrics a b →
        ∀ x ∈ report.rows, ∀ y ∈ report.rows, x.experiment_id = a.experiment_id →
          y.experiment_id = b.experiment_id → x.overall_rank < y.overall_rank := by
  refine ⟨_, compare_eq metrics hsome hids, fun results' hperm => ?_, ?_, ?_, ?_⟩
  · have hsome' : results' ≠ [] := fun hnil => hsome (List.nil_perm.mp (hnil ▸ hperm))
    have hids' : (results'.map (·.experiment_id)).Nodup := (hperm.map _).nodup_iff.mpr hids
    rw [compare_eq metrics hsome' hids',
      final_report_of_perm (hperm.map _) (nodup_start_ids hids' metrics)]
  · have hsame : (fun row : ComparisonRow => row.experiment_id) ∘ start metrics =
        fun result => result.experiment_id := funext fun result => start_id metrics result
    have hperm := ids_final_report metrics (results.map (start metrics))
    rwa [List.map_map, hsame] at hperm
  · have hlength : (Ranking.sort above ((results.map (start metrics)).map
        (scored (results.map (start metrics)) metrics))).length = results.length := by
      rw [(Ranking.sort_perm _ _).length_eq, List.length_map, List.length_map]
    rw [final_report, ranks_numbered, hlength]
  · intro a ha b hb hdominates x hx y hy hxa hyb
    exact dominant_above hids ha hb hdominates hx hy hxa hyb

def steady : ExperimentResult where
  experiment_id := "steady"
  custom_metrics := TreeMap.empty.insert "sharpe" (.finite 2)

def wild : ExperimentResult where
  experiment_id := "wild"
  custom_metrics := (TreeMap.empty.insert "sharpe" (.finite 1)).insert "calmar" .nan

def sharpe : ComparisonMetric where
  name := "sharpe"

theorem compare_fair_pair : ∃ report, compare [sharpe] [wild, steady] = .ok report ∧
    ∀ x ∈ report.rows, ∀ y ∈ report.rows, x.experiment_id = "steady" → y.experiment_id = "wild" →
      x.overall_rank < y.overall_rank := by
  obtain ⟨report, hreport, _, _, _, habove⟩ := compare_fair [sharpe] [wild, steady] (by simp) (by decide)
  have hsteady : steady.answer "sharpe" = some 2 := by decide +kernel
  have hwild : wild.answer "sharpe" = some 1 := by decide +kernel
  have hbetter : sharpe.better 2 1 := by
    unfold ComparisonMetric.better
    exact one_lt_two
  refine ⟨report, hreport, habove steady (by simp) wild (by simp) ⟨?_, ?_, ?_, ?_⟩⟩
  · rintro _ (_ | ⟨_, ⟨⟩⟩)
    rw [sharpe, hsteady, hwild]
    rfl
  · rintro _ (_ | ⟨_, ⟨⟩⟩) x hx y hy
    cases Option.some.inj (hsteady.symm.trans hx)
    cases Option.some.inj (hwild.symm.trans hy)
    exact .inr hbetter
  · exact ⟨sharpe, List.mem_cons_self, one_pos, 2, hsteady, 1, hwild, hbetter⟩
  · rintro _ (_ | ⟨_, ⟨⟩⟩) _ x hx y hy
    cases Option.some.inj (hsteady.symm.trans hx)
    cases Option.some.inj (hwild.symm.trans hy)
    decide

end ptl.experiment
