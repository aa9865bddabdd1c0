import TradingLab.Core.Types
import TradingLab.Core.Time

namespace ptl.market

/-- A vendor symbol, valid until just before `valid_to`. -/
structure SymbolMapping where
  raw_symbol : String := ""
  instrument : InstrumentId := kInvalidInstrument
  vendor_id : UInt32 := 0
  valid_from : Timestamp := kNoTimestamp
  valid_to : Timestamp := kMaxTimestamp
  deriving DecidableEq, Repr

def SymbolMapping.covers (m : SymbolMapping) (ts : Timestamp) : Bool := m.valid_from ≤ ts ∧ ts < m.valid_to

def SymbolMapping.overlaps (m existing : SymbolMapping) : Bool :=
  m.valid_from < existing.valid_to ∧ existing.valid_from < m.valid_to

/-- The tickers are interned through a table that others share. -/
structure SymbolMapper where
  instruments : InstrumentTable
  mappings : List SymbolMapping := []
  deriving DecidableEq, Repr

namespace SymbolMapper

/-- What a mapping is refused for. Only mappings of its own ticker are looked at. -/
def check (s : SymbolMapper) (m : SymbolMapping) : Option Error :=
  if m.raw_symbol.isEmpty then some (make_error .ValidationFailed "symbol mapping has no raw symbol")
  else if ¬ is_set m.valid_from then some (make_error .ValidationFailed "symbol mapping has no valid_from")
  else if m.valid_to ≤ m.valid_from then
    some (make_error .ValidationFailed "symbol mapping validity window is empty" m.raw_symbol)
  else
    (s.mappings.find? fun existing => existing.raw_symbol = m.raw_symbol && m.overlaps existing).map fun existing =>
      make_error .ValidationFailed ("overlapping symbol mapping for " ++ m.raw_symbol)
        (to_iso8601 m.valid_from ++ " overlaps " ++ to_iso8601 existing.valid_from)

def add (s : SymbolMapper) (m : SymbolMapping) : Result InstrumentId × SymbolMapper :=
  match s.check m with
  | some err => (.error err, s)
  | none =>
    let (instrument, instruments) := s.instruments.intern m.raw_symbol
    (.ok instrument, { instruments, mappings := s.mappings ++ [{ m with instrument }] })

/-- Open-ended from the epoch. -/
def add_static (s : SymbolMapper) (raw_symbol : String) (vendor_id : UInt32) : Result InstrumentId × SymbolMapper :=
  s.add { raw_symbol, vendor_id, valid_from := 0, valid_to := kMaxTimestamp }

def resolve (s : SymbolMapper) (raw_symbol : String) (as_of : Timestamp) : Option InstrumentId :=
  (s.mappings.find? fun m => m.raw_symbol = raw_symbol && m.covers as_of).map SymbolMapping.instrument

def resolve_vendor_id (s : SymbolMapper) (vendor_id : UInt32) (as_of : Timestamp) : Option InstrumentId :=
  if vendor_id = 0 then none
  else (s.mappings.find? fun m => m.vendor_id = vendor_id && m.covers as_of).map SymbolMapping.instrument

def raw_symbol_of (s : SymbolMapper) (instrument : InstrumentId) (as_of : Timestamp) : Option String :=
  (s.mappings.find? fun m => m.instrument = instrument && m.covers as_of).map SymbolMapping.raw_symbol

/-- A mapper after some mappings were offered to it. -/
def run (s : SymbolMapper) (offered : List SymbolMapping) : SymbolMapper :=
  offered.foldl (fun s m => (s.add m).2) s

end SymbolMapper

/-! ### What a lookup finds -/

section Lookup

variable {A : Type*} {p : A → Bool} {l l' : List A}

/-- At most one entry passes exactly if no two of them do. -/
theorem filter_length_le_one_iff :
    (l.filter p).length ≤ 1 ↔ l.Pairwise fun a b => ¬ (p a = true ∧ p b = true) := by
  rw [List.pairwise_iff_forall_sublist]
  constructor
  · intro honce a b hsub hboth
    have hkept : [a, b].filter p = [a, b] :=
      List.filter_eq_self.mpr (by simpa using hboth)
    have hlength := (hsub.filter p).length_le
    rw [hkept] at hlength
    simp only [List.length_cons, List.length_nil] at hlength
    omega
  · intro hnone
    match hfilter : l.filter p with
    | [] => exact Nat.zero_le 1
    | [_] => exact Nat.le_refl 1
    | a :: b :: rest =>
      have hsub : [a, b].Sublist (l.filter p) := by
        rw [hfilter]
        exact List.sublist_append_left [a, b] rest
      have hpass : ∀ x ∈ [a, b], p x = true := fun x hx => (List.mem_filter.mp (hsub.subset hx)).2
      exact absurd ⟨hpass a (by simp), hpass b (by simp)⟩ (hnone (hsub.trans List.filter_sublist))

/-- Where at most one entry passes, the first one found is the same in every order. -/
theorem find?_of_perm (hperm : l'.Perm l) (honce : (l.filter p).length ≤ 1) : l'.find? p = l.find? p := by
  have hfilter : (l'.filter p).Perm (l.filter p) := hperm.filter p
  rw [← List.head?_filter, ← List.head?_filter]
  match hlist : l.filter p with
  | [] =>
    rw [hlist] at hfilter
    rw [hfilter.eq_nil]
  | [a] =>
    rw [hlist] at hfilter
    rw [hfilter.eq_singleton]
  | a :: b :: rest =>
    rw [hlist] at honce
    simp only [List.length_cons] at honce
    omega

end Lookup

/-! ### What has been accepted -/

/-- Two windows with something in them overlap where some instant is in both. -/
theorem SymbolMapping.overlaps_iff {m e : SymbolMapping} (hm : m.valid_from < m.valid_to)
    (he : e.valid_from < e.valid_to) :
    m.overlaps e = true ↔ ∃ ts, m.covers ts = true ∧ e.covers ts = true := by
  simp only [SymbolMapping.overlaps, SymbolMapping.covers, decide_eq_true_eq]
  constructor
  · rintro ⟨hbefore, hafter⟩
    exact ⟨max m.valid_from e.valid_from, ⟨le_max_left _ _, max_lt hm hafter⟩, le_max_right _ _, max_lt hbefore he⟩
  · rintro ⟨ts, ⟨hfrom, hto⟩, hfrom', hto'⟩
    exact ⟨lt_of_le_of_lt hfrom hto', lt_of_le_of_lt hfrom' hto⟩

namespace SymbolMapper

/-- What every run keeps: windows have something in them, those of one ticker do not
overlap, and every mapping has the id its ticker was interned to. -/
structure Valid (s : SymbolMapper) : Prop where
  nonempty : ∀ m ∈ s.mappings, m.valid_from < m.valid_to
  interned : ∀ m ∈ s.mappings, s.instruments.find m.raw_symbol = some m.instrument
  apart : s.mappings.Pairwise fun e m => e.raw_symbol = m.raw_symbol → m.overlaps e = false

/-- A mapping that is accepted is stored after the others, under the id of its ticker. -/
theorem add_accepted {s : SymbolMapper} {m : SymbolMapping} (haccepted : s.check m = none) :
    (s.add m).2.instruments = (s.instruments.intern m.raw_symbol).2 ∧
      (s.add m).2.mappings =
        s.mappings ++ [{ m with instrument := (s.instruments.intern m.raw_symbol).1 }] := by
  simp only [add, haccepted, and_self]

theorem add_refused {s : SymbolMapper} {m : SymbolMapping} {err : Error} (hrefused : s.check m = some err) :
    (s.add m).2 = s := by
  simp only [add, hrefused]

theorem check_none {s : SymbolMapper} {m : SymbolMapping} (haccepted : s.check m = none) :
    m.valid_from < m.valid_to ∧ ∀ e ∈ s.mappings, e.raw_symbol = m.raw_symbol → m.overlaps e = false := by
  unfold check at haccepted
  split at haccepted
  · cases haccepted
  · split at haccepted
    · cases haccepted
    · split at haccepted
      · cases haccepted
      · rename_i hwindow
        refine ⟨not_le.mp hwindow, fun e he hsame => ?_⟩
        have hfree := List.find?_eq_none.mp (Option.map_eq_none_iff.mp haccepted) e he
        simpa [hsame] using hfree

theorem Valid.add {s : SymbolMapper} (hvalid : s.Valid) (m : SymbolMapping) : (s.add m).2.Valid := by
  cases hcheck : s.check m with
  | some err =>
    rw [add_refused hcheck]
    exact hvalid
  | none =>
    obtain ⟨hwindow, hfree⟩ := check_none hcheck
    obtain ⟨htable, hmappings⟩ := add_accepted hcheck
    refine ⟨?_, ?_, ?_⟩
    · rw [hmappings, List.forall_mem_append]
      exact ⟨hvalid.nonempty, by simpa using hwindow⟩
    · rw [hmappings, htable, List.forall_mem_append]
      exact ⟨fun e he => InstrumentTable.find_intern_of_find (hvalid.interned e he) _, by simp⟩
    · rw [hmappings, List.pairwise_append]
      refine ⟨hvalid.apart, List.pairwise_singleton _ _, fun e he x hx => ?_⟩
      rw [List.mem_singleton.mp hx]
      exact hfree e he

theorem Valid.run {s : SymbolMapper} (hvalid : s.Valid) (offered : List SymbolMapping) : (s.run offered).Valid := by
  induction offered generalizing s with
  | nil => exact hvalid
  | cons m offered ih => exact ih (hvalid.add m)

theorem Valid.new (instruments : InstrumentTable) : Valid { instruments } where
  nonempty _ hm := absurd hm List.not_mem_nil
  interned _ hm := absurd hm List.not_mem_nil
  apart := List.Pairwise.nil

/-! ### Unambiguous lookups -/

/-- Nothing that was accepted is in doubt: each symbol and each vendor id is covered at
most once at a time, no lookup depends on the order of the mappings, and a ticker that
changes its vendor id changes its instrument. -/
structure Unambiguous (s : SymbolMapper) : Prop where
  raw_once : ∀ raw ts, (s.mappings.filter fun m => m.raw_symbol = raw && m.covers ts).length ≤ 1
  vendor_once : ∀ vendor ts, vendor ≠ 0 →
    (s.mappings.filter fun m => m.vendor_id = vendor && m.covers ts).length ≤ 1
  raw_order : ∀ ms, ms.Perm s.mappings → ∀ raw ts,
    ({ s with mappings := ms } : SymbolMapper).resolve raw ts = s.resolve raw ts
  vendor_order : ∀ ms, ms.Perm s.mappings → ∀ vendor ts,
    ({ s with mappings := ms } : SymbolMapper).resolve_vendor_id vendor ts = s.resolve_vendor_id vendor ts
  renamed : ∀ m ∈ s.mappings, ∀ e ∈ s.mappings, m.raw_symbol = e.raw_symbol → m.vendor_id ≠ e.vendor_id →
    m.overlaps e = false → m.instrument ≠ e.instrument

/-- A mapping beside one that is there: their ticker has one vendor id, and their vendor
id one mapping at a time. -/
def Clear (e m : SymbolMapping) : Prop :=
  (e.raw_symbol = m.raw_symbol → e.vendor_id = m.vendor_id) ∧
    (e.vendor_id = m.vendor_id → e.vendor_id ≠ 0 → m.overlaps e = false)

/-- Tickers are never in doubt. -/
theorem Valid.raw_once {s : SymbolMapper} (hvalid : s.Valid) (raw : String) (ts : Timestamp) :
    (s.mappings.filter fun m => m.raw_symbol = raw && m.covers ts).length ≤ 1 := by
  refine filter_length_le_one_iff.mpr ((List.Pairwise.and_mem.mp hvalid.apart).imp ?_)
  rintro e m ⟨he, hm, hapart⟩ ⟨hecovers, hmcovers⟩
  simp only [Bool.and_eq_true, decide_eq_true_eq] at hecovers hmcovers
  have hoverlap := (SymbolMapping.overlaps_iff (hvalid.nonempty m hm) (hvalid.nonempty e he)).mpr
    ⟨ts, hmcovers.2, hecovers.2⟩
  rw [hapart (hecovers.1.trans hmcovers.1.symm)] at hoverlap
  cases hoverlap

/-- Vendor ids are in doubt where windows under one of them overlap. -/
theorem Valid.vendor_once_iff {s : SymbolMapper} (hvalid : s.Valid) :
    (∀ vendor ts, vendor ≠ 0 → (s.mappings.filter fun m => m.vendor_id = vendor && m.covers ts).length ≤ 1) ↔
      s.mappings.Pairwise fun e m => e.vendor_id = m.vendor_id → e.vendor_id ≠ 0 → m.overlaps e = false := by
  constructor
  · intro honce
    refine List.pairwise_iff_forall_sublist.mpr fun {e m} hsub hsame hvendor => ?_
    have hmem : ∀ x ∈ [e, m], x ∈ s.mappings := fun x hx => hsub.subset hx
    by_contra hoverlap
    rw [Bool.not_eq_false] at hoverlap
    obtain ⟨ts, hm, he⟩ := (SymbolMapping.overlaps_iff (hvalid.nonempty m (hmem m (by simp)))
      (hvalid.nonempty e (hmem e (by simp)))).mp hoverlap
    have hpairs := filter_length_le_one_iff.mp (honce e.vendor_id ts hvendor)
    exact List.pairwise_iff_forall_sublist.mp hpairs hsub (by simp [hsame, hm, he])
  · intro hpairs vendor ts hvendor
    refine filter_length_le_one_iff.mpr ((List.Pairwise.and_mem.mp hpairs).imp ?_)
    rintro e m ⟨he, hm, hapart⟩ ⟨hecovers, hmcovers⟩
    simp only [Bool.and_eq_true, decide_eq_true_eq] at hecovers hmcovers
    have hoverlap := (SymbolMapping.overlaps_iff (hvalid.nonempty m hm) (hvalid.nonempty e he)).mpr
      ⟨ts, hmcovers.2, hecovers.2⟩
    rw [hapart (hecovers.1.trans hmcovers.1.symm) (hecovers.1 ▸ hvendor)] at hoverlap
    cases hoverlap

/-- Every mapping of a ticker has its instrument, so a ticker cannot change both. -/
theorem Valid.renamed_iff {s : SymbolMapper} (hvalid : s.Valid) :
    (∀ m ∈ s.mappings, ∀ e ∈ s.mappings, m.raw_symbol = e.raw_symbol → m.vendor_id ≠ e.vendor_id →
      m.overlaps e = false → m.instrument ≠ e.instrument) ↔
      s.mappings.Pairwise fun e m => e.raw_symbol = m.raw_symbol → e.vendor_id = m.vendor_id := by
  constructor
  · intro hrenamed
    refine List.pairwise_iff_forall_sublist.mpr fun {e m} hsub hsame => ?_
    have he : e ∈ s.mappings := hsub.subset (by simp)
    have hm : m ∈ s.mappings := hsub.subset (by simp)
    by_contra hvendor
    have hapart := List.pairwise_iff_forall_sublist.mp hvalid.apart hsub hsame
    refine hrenamed m hm e he hsame.symm (Ne.symm hvendor) hapart ?_
    have hid := hvalid.interned m hm
    rw [← hsame, hvalid.interned e he] at hid
    exact (Option.some.inj hid).symm
  · intro hpairs m hm e he hsame hvendor
    have hall := hpairs.forall_of_forall_of_flip (fun _ _ _ => rfl)
      (hpairs.imp fun h hsame => (h hsame.symm).symm)
    exact absurd (hall hm he hsame) hvendor

theorem Valid.unambiguous_iff {s : SymbolMapper} (hvalid : s.Valid) :
    s.Unambiguous ↔ s.mappings.Pairwise Clear := by
  have hclear : s.mappings.Pairwise Clear ↔ _ := List.pairwise_and_iff
  rw [hclear, ← hvalid.renamed_iff, ← hvalid.vendor_once_iff]
  refine ⟨fun h => ⟨h.renamed, h.vendor_once⟩, fun ⟨hrenamed, hvendor⟩ =>
    ⟨hvalid.raw_once, hvendor, fun ms hperm raw ts => ?_, fun ms hperm vendor ts => ?_, hrenamed⟩⟩
  · simp only [resolve]
    rw [find?_of_perm hperm (hvalid.raw_once raw ts)]
  · simp only [resolve_vendor_id]
    split
    · rfl
    · rename_i hne
      rw [find?_of_perm hperm (hvendor vendor ts hne)]

/-- Every mapping of a run that is accepted is clear of those accepted before it. -/
def ClearRun : SymbolMapper → List SymbolMapping → Prop
  | _, [] => True
  | s, m :: offered => (s.check m = none → ∀ e ∈ s.mappings, Clear e m) ∧ ClearRun (s.add m).2 offered

theorem pairwise_clear_run (s : SymbolMapper) (offered : List SymbolMapping) :
    (s.run offered).mappings.Pairwise Clear ↔ s.mappings.Pairwise Clear ∧ ClearRun s offered := by
  induction offered generalizing s with
  | nil => exact (and_iff_left trivial).symm
  | cons m offered ih =>
    have hstep : (s.add m).2.mappings.Pairwise Clear ↔
        s.mappings.Pairwise Clear ∧ (s.check m = none → ∀ e ∈ s.mappings, Clear e m) := by
      cases hcheck : s.check m with
      | some err =>
        rw [add_refused hcheck]
        simp
      | none =>
        rw [(add_accepted hcheck).2, List.pairwise_append]
        simp [Clear, SymbolMapping.overlaps]
    rw [ClearRun, ← and_assoc, ← hstep]
    exact ih (s.add m).2

/-- Whatever is offered, the lookups after a run are unambiguous exactly if every
mapping accepted was clear of those before it. -/
theorem run_unambiguous_iff (instruments : InstrumentTable) (offered : List SymbolMapping) :
    (({ instruments } : SymbolMapper).run offered).Unambiguous ↔ ClearRun { instruments } offered := by
  rw [((Valid.new instruments).run offered).unambiguous_iff, pairwise_clear_run]
  exact and_iff_right List.Pairwise.nil

/-- One vendor id for two tickers at once, and one ticker under two vendor ids in turn. -/
theorem run_ambiguous :
    ¬ (({ instruments := {} } : SymbolMapper).run
      [{ raw_symbol := "A", vendor_id := 1, valid_from := 0, valid_to := 10 },
        { raw_symbol := "B", vendor_id := 1, valid_from := 5, valid_to := 15 }]).Unambiguous ∧
    ¬ (({ instruments := {} } : SymbolMapper).run
      [{ raw_symbol := "A", vendor_id := 1, valid_from := 0, valid_to := 10 },
        { raw_symbol := "A", vendor_id := 3, valid_from := 10, valid_to := 20 }]).Unambiguous := by
  refine ⟨fun hclear => ?_, fun hclear => ?_⟩
  · have honce := hclear.vendor_once 1 7 (by decide)
    revert honce
    decide
  · have hrenamed := hclear.renamed
      { raw_symbol := "A", instrument := 0, vendor_id := 1, valid_from := 0, valid_to := 10 } (by decide)
      { raw_symbol := "A", instrument := 0, vendor_id := 3, valid_from := 10, valid_to := 20 } (by decide)
      rfl (by decide) (by decide)
    exact hrenamed rfl

end SymbolMapper

end ptl.market
