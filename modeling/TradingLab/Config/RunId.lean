import TradingLab.Core.Numbers
import TradingLab.Entries

open Entries

namespace ptl

/-- The separator of canonical texts. -/
def kSeparator : Char := '\x1f'

/-- `label=text`, and the separator. -/
def canonical_entry (e : String × String) : String := e.1 ++ "=" ++ e.2 ++ String.singleton kSeparator

/-- The characters of an entry. -/
def spelled (e : String × String) : List Char × List Char := (e.1.toList, e.2.toList)

theorem spelled_injective : Function.Injective spelled := by
  intro e e' heq
  obtain ⟨hlabel, htext⟩ := Prod.mk.inj heq
  exact Prod.ext (String.toList_inj.mp hlabel) (String.toList_inj.mp htext)

/-- Lines that are entries make up what is written of the entries. -/
theorem join_entries {stop : Char} {line : String × String → String}
    (hline : ∀ e, (line e).toList = entry '=' stop (spelled e)) (es : List (String × String)) :
    (String.join (es.map line)).toList = written '=' stop (es.map spelled) := by
  induction es with
  | nil => rfl
  | cons e es ih => rw [List.map_cons, List.map_cons, String.join_cons, String.toList_append, ih, hline]; rfl

theorem join_canonical_entry (es : List (String × String)) :
    (String.join (es.map canonical_entry)).toList = written '=' kSeparator (es.map spelled) :=
  join_entries (fun e => by simp [canonical_entry, spelled, entry]) es

theorem hex16_inj {x y : UInt64} (heq : hex16 x = hex16 y) : x = y := by
  have hread (z : UInt64) : from_chars 16 ((hex16 z).toList ++ []) = some z := from_chars_hex16 z (by simp)
  have hx := hread x
  rw [heq, hread y] at hx
  exact (Option.some.inj hx).symm

theorem toString_inj {x y : UInt64} (heq : toString x = toString y) : x = y := by
  have hread (z : UInt64) : from_chars 10 ((toString z).toList ++ []) = some z := from_chars_toString z (by simp)
  have hx := hread x
  rw [heq, hread y] at hx
  exact (Option.some.inj hx).symm

/-- No digit is one of the marks of a canonical text. -/
theorem mark_not_mem_hex16 {mark : Char} (hmark : Numeral.isDigit 16 mark = false) (x : UInt64) :
    mark ∉ (hex16 x).toList := by
  intro hmem
  rw [hex16, String.toList_ofList] at hmem
  have hdigit : Numeral.isDigit 16 mark = true := by
    rcases List.mem_append.mp hmem with hzero | hdigits
    · rw [List.eq_of_mem_replicate hzero]
      decide
    · exact Numeral.isDigit_of_mem_toDigits (by decide) (by decide) hdigits
  rw [hmark] at hdigit
  cases hdigit

theorem mark_not_mem_toString {mark : Char} (hmark : mark.isDigit = false) (x : UInt64) :
    mark ∉ (toString x).toList :=
  not_mem_toString hmark x.toNat

/-- A text written with some characters only. -/
def Over (alphabet : Char → Prop) (text : String) : Prop := ∀ c ∈ text.toList, alphabet c

end ptl

namespace ptl.config

/-- The four things that can change a result. -/
structure RunInputs where
  config_canonical : String
  data_manifest_sha : String
  git_sha : String
  seed : UInt64
  deriving DecidableEq, Repr

/-- What is hashed of them. -/
def RunInputs.material (r : RunInputs) : String :=
  r.config_canonical ++ String.singleton kSeparator ++ r.data_manifest_sha ++ String.singleton kSeparator ++
    r.git_sha ++ String.singleton kSeparator ++ toString r.seed

def make_run_id (r : RunInputs) : UInt64 := hash_bytes kFnvOffset (characters r.material)

structure RunInputs.Over (alphabet : Char → Prop) (r : RunInputs) : Prop where
  config_canonical : ptl.Over alphabet r.config_canonical
  data_manifest_sha : ptl.Over alphabet r.data_manifest_sha
  git_sha : ptl.Over alphabet r.git_sha

/-- Where the separator is in none of the texts, they can be told from each other. -/
theorem RunInputs.material_inj {alphabet : Char → Prop} (hfree : ¬ alphabet kSeparator) {r r' : RunInputs}
    (hr : r.Over alphabet) (hr' : r'.Over alphabet) (heq : r.material = r'.material) : r = r' := by
  have hspelled : r.config_canonical.toList ++ kSeparator :: (r.data_manifest_sha.toList ++ kSeparator ::
        (r.git_sha.toList ++ kSeparator :: (toString r.seed).toList)) =
      r'.config_canonical.toList ++ kSeparator :: (r'.data_manifest_sha.toList ++ kSeparator ::
        (r'.git_sha.toList ++ kSeparator :: (toString r'.seed).toList)) := by
    have hlist := congrArg String.toList heq
    simpa [material] using hlist
  have hnot : ∀ {text : String}, ptl.Over alphabet text → kSeparator ∉ text.toList :=
    fun htext hmem => hfree (htext _ hmem)
  obtain ⟨hconfig, hrest⟩ := append_cons_inj (hnot hr.config_canonical) (hnot hr'.config_canonical) hspelled
  obtain ⟨hdata, hrest⟩ := append_cons_inj (hnot hr.data_manifest_sha) (hnot hr'.data_manifest_sha) hrest
  obtain ⟨hgit, hseed⟩ := append_cons_inj (hnot hr.git_sha) (hnot hr'.git_sha) hrest
  obtain ⟨config, data, git, seed⟩ := r
  obtain ⟨config', data', git', seed'⟩ := r'
  simp only [mk.injEq]
  exact ⟨String.toList_inj.mp hconfig, String.toList_inj.mp hdata, String.toList_inj.mp hgit,
    toString_inj (String.toList_inj.mp hseed)⟩

/-- Two texts, of which the separator is now the one and now the other. -/
theorem RunInputs.material_ambiguous {alphabet : Char → Prop} (hseparator : alphabet kSeparator) :
    ∃ r r' : RunInputs, r.Over alphabet ∧ r'.Over alphabet ∧ r ≠ r' ∧ r.material = r'.material := by
  have hone : ptl.Over alphabet (String.singleton kSeparator) := by
    intro c hc
    rw [String.toList_singleton, List.mem_singleton] at hc
    rwa [hc]
  have hnone : ptl.Over alphabet "" := fun c hc => nomatch hc
  refine ⟨⟨String.singleton kSeparator, "", "", 0⟩, ⟨"", String.singleton kSeparator, "", 0⟩, ⟨hone, hnone, hnone⟩,
    ⟨hnone, hone, hnone⟩, by decide, by decide⟩

end ptl.config
