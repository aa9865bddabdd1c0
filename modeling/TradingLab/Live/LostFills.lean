import TradingLab.Live.Delivery
import TradingLab.Live.Registries

/-! The fills booked of a polled batch and the fills its poll returns. -/

open ptl.oms ptl.portfolio ptl.execution

namespace ptl.live

variable {R T : Type} (transport : ILiveTransport T) (translator : IOrderTranslator)
  (num : Rat → String)

/-! ### One message -/

/-- A message that cannot be interpreted, or whose fill cannot be ingested. -/
def LiveBroker.refuses (b : LiveBroker R T) (m : BrokerMessage) : Bool :=
  match b.listener.interpret m with
  | .error _ => true
  | .ok u => u.is_fill && (b.simulator.ingest_external_fill (b.report u)).1.toOption.isNone

open LiveBroker

/-- The fill that the simulator books of a message. -/
def LiveBroker.fillOf (b : LiveBroker R T) (m : BrokerMessage) : Option Fill :=
  match b.listener.interpret m with
  | .error _ => none
  | .ok u =>
    if u.is_fill then (b.simulator.ingest_external_fill (b.report u)).1.toOption else none

theorem OrderUpdate.is_fill_eq {u : OrderUpdate} {m : BrokerMessage} (hkind : u.kind = updateKind m.kind) :
    u.is_fill = m.is_fill := by
  rw [OrderUpdate.is_fill, BrokerMessage.is_fill, hkind]
  cases m.kind <;> rfl

theorem LiveBroker.fillOf_isSome {b : LiveBroker R T} {m : BrokerMessage} (htaken : b.refuses m = false) :
    (b.fillOf m).isSome = m.is_fill := by
  unfold refuses at htaken
  unfold fillOf
  split at htaken
  · cases htaken
  · rename_i u hinterpret
    rw [← OrderUpdate.is_fill_eq (LiveOrderListener.interpret_ok hinterpret).1]
    by_cases hfill : u.is_fill = true
    · simpa [hfill, Option.isSome_iff_ne_none] using htaken
    · simp [hfill]

theorem LiveBroker.fillOf_refused {b : LiveBroker R T} {m : BrokerMessage} (hrefused : b.refuses m = true) :
    b.fillOf m = none := by
  unfold refuses at hrefused
  unfold fillOf
  split at hrefused
  · rfl
  · rw [Bool.and_eq_true, Option.isNone_iff_eq_none] at hrefused
    simp only [hrefused.2, ite_self]

/-- What the venue says of the account books nothing. -/
theorem LiveBroker.account_update (b : LiveBroker R T) {m : BrokerMessage} (hkind : m.kind = .AccountUpdate) :
    b.refuses m = false ∧ b.fillOf m = none := by
  simp [refuses, fillOf, LiveOrderListener.interpret, OrderUpdate.is_fill, updateKind,
    hkind]

/-- A fill is refused with an error, or booked, counted and handed on. -/
theorem LiveBroker.ingest_result (b : LiveBroker R T) (u : OrderUpdate) :
    ((b.simulator.ingest_external_fill (b.report u)).1.toOption = none ∧
      (∃ e, (b.ingest translator u).1 = .error e) ∧
      (b.ingest translator u).2.stats.fills_ingested = b.stats.fills_ingested) ∨
    ∃ f, (b.simulator.ingest_external_fill (b.report u)).1.toOption = some f ∧
      (b.ingest translator u).1 = .ok (some f) ∧
      (b.ingest translator u).2.stats.fills_ingested = b.stats.fills_ingested + 1 := by
  unfold ingest
  rcases b.simulator.ingest_external_fill (b.report u) with ⟨result, simulator⟩
  cases result with
  | error e => exact .inl ⟨rfl, ⟨e, rfl⟩, rfl⟩
  | ok f =>
    refine .inr ⟨f, rfl, rfl, ?_⟩
    dsimp only
    split <;> rfl

/-- What a message answers: an error where it is refused, and the fill that it
books elsewhere. -/
structure LiveBroker.Answers (b : LiveBroker R T) (m : BrokerMessage) (result : Result (Option Fill))
    (b' : LiveBroker R T) : Prop where
  refused : b.refuses m = true → ∃ e, result = .error e
  taken : b.refuses m = false → result = .ok (b.fillOf m)
  counted : b'.stats.fills_ingested = b.stats.fills_ingested + (b.fillOf m).toList.length

theorem LiveBroker.apply_answers (b : LiveBroker R T) (m : BrokerMessage) :
    b.Answers m (b.apply translator m).1 (b.apply translator m).2 := by
  unfold apply
  split
  · rename_i hkind
    obtain ⟨htaken, hnone⟩ := b.account_update hkind
    exact ⟨fun hrefused => by simp [htaken] at hrefused, fun _ => by rw [hnone], by rw [hnone]; rfl⟩
  cases hinterpret : b.listener.interpret m with
  | error e =>
    refine ⟨fun _ => ⟨e, rfl⟩, fun htaken => ?_, ?_⟩
    · simp [refuses, hinterpret] at htaken
    · simp [fillOf, hinterpret]
  | ok u =>
    have hquiet : ∀ b' : LiveBroker R T, u.is_fill = false → b'.stats.fills_ingested = b.stats.fills_ingested →
        b.Answers m (.ok none) b' := by
      intro b' hfill hstats
      refine ⟨fun hrefused => ?_, fun _ => ?_, ?_⟩
      · simp [refuses, hinterpret, hfill] at hrefused
      · simp [fillOf, hinterpret, hfill]
      · simp [fillOf, hinterpret, hfill, hstats]
    have hloud : u.is_fill = true →
        b.Answers m (b.ingest translator u).1 (b.ingest translator u).2 := by
      intro hfill
      rcases b.ingest_result translator u with ⟨hnone, herror, hstats⟩ | ⟨f, hsome, hok, hstats⟩
      · refine ⟨fun _ => herror, fun htaken => ?_, ?_⟩
        · simp [refuses, hinterpret, hfill, hnone] at htaken
        · simp [fillOf, hinterpret, hfill, hnone, hstats]
      · refine ⟨fun hrefused => ?_, fun _ => ?_, ?_⟩
        · simp [refuses, hinterpret, hfill, hsome] at hrefused
        · simp [fillOf, hinterpret, hfill, hsome, hok]
        · simp [fillOf, hinterpret, hfill, hsome, hstats]
    cases hkind : u.kind with
    | Ignored =>
      simp only [hkind]
      exact hquiet _ (by simp [OrderUpdate.is_fill, hkind]) rfl
    | Accepted | Replaced =>
      simp only [hkind]
      refine hquiet _ (by simp [OrderUpdate.is_fill, hkind]) ?_
      split <;> rfl
    | Cancelled | Rejected =>
      simp only [hkind]
      exact hquiet _ (by simp [OrderUpdate.is_fill, hkind]) rfl
    | PartiallyFilled | Filled =>
      simp only [hkind]
      exact hloud (by simp [OrderUpdate.is_fill, hkind])

/-! ### One batch -/

/-- The fills booked of a batch, up to the first message that is refused. -/
def LiveBroker.bookedOf (b : LiveBroker R T) : List BrokerMessage → List Fill
  | [] => []
  | m :: rest =>
    (b.fillOf m).toList ++ if b.refuses m then [] else (b.apply translator m).2.bookedOf rest

/-- The messages of a batch around the first that is refused: those before it
    and those after it. -/
def LiveBroker.cut (b : LiveBroker R T) : List BrokerMessage → Option (List BrokerMessage × List BrokerMessage)
  | [] => none
  | m :: rest =>
    if b.refuses m then some ([], rest)
    else ((b.apply translator m).2.cut rest).map fun (before, after) => (m :: before, after)

/-- The messages that a poll takes off the connection and never looks at. -/
def LiveBroker.untouchedOf (b : LiveBroker R T) (batch : List BrokerMessage) : List BrokerMessage :=
  ((b.cut translator batch).map Prod.snd).getD []

/-- A batch is taken to its end, or a refused message is its last and no fill
    stands before it. -/
def LiveBroker.Harmless (b : LiveBroker R T) (batch : List BrokerMessage) : Prop :=
  ∀ around ∈ b.cut translator batch, (∀ m ∈ around.1, m.is_fill = false) ∧ around.2 = []

variable {translator}

theorem LiveBroker.cut_refused {b : LiveBroker R T} {m : BrokerMessage} (rest : List BrokerMessage)
    (hrefused : b.refuses m = true) : b.cut translator (m :: rest) = some ([], rest) := by
  rw [cut, if_pos hrefused]

theorem LiveBroker.cut_taken {b : LiveBroker R T} {m : BrokerMessage} (rest : List BrokerMessage)
    (htaken : b.refuses m = false) :
    b.cut translator (m :: rest) =
      ((b.apply translator m).2.cut translator rest).map fun (before, after) => (m :: before, after) := by
  rw [cut, if_neg (by simp [htaken])]

variable (translator) in
theorem LiveBroker.applyAll_refused {b : LiveBroker R T} {m : BrokerMessage} (rest : List BrokerMessage)
    (hrefused : b.refuses m = true) :
    ∃ e, b.applyAll translator (m :: rest) = (.error e, (b.apply translator m).2) := by
  obtain ⟨e, herror⟩ := (b.apply_answers translator m).refused hrefused
  refine ⟨e, ?_⟩
  rw [applyAll]
  revert herror
  rcases b.apply translator m with ⟨result, b'⟩
  rintro rfl
  rfl

theorem LiveBroker.applyAll_taken {b : LiveBroker R T} {m : BrokerMessage} (rest : List BrokerMessage)
    (htaken : b.refuses m = false) :
    b.applyAll translator (m :: rest) =
      (((b.apply translator m).2.applyAll translator rest).1.map ((b.fillOf m).toList ++ ·),
        ((b.apply translator m).2.applyAll translator rest).2) := by
  have hok := (b.apply_answers translator m).taken htaken
  rw [applyAll]
  revert hok
  rcases b.apply translator m with ⟨result, b'⟩
  rintro rfl
  rfl

/-- A batch that is not cut returns what it books. -/
theorem LiveBroker.applyAll_whole {b : LiveBroker R T} {batch : List BrokerMessage}
    (hcut : b.cut translator batch = none) :
    (b.applyAll translator batch).1 = .ok (b.bookedOf translator batch) := by
  induction batch generalizing b with
  | nil => rfl
  | cons m rest ih =>
    cases hrefused : b.refuses m with
    | true =>
      rw [b.cut_refused rest hrefused] at hcut
      cases hcut
    | false =>
      rw [b.cut_taken rest hrefused, Option.map_eq_none_iff] at hcut
      rw [b.applyAll_taken rest hrefused, bookedOf, ih hcut, if_neg (by simp [hrefused])]
      rfl

/-- A batch that is cut returns nothing, and has booked the fills before the
cut. -/
theorem LiveBroker.applyAll_cut {b : LiveBroker R T} {batch before after : List BrokerMessage}
    (hcut : b.cut translator batch = some (before, after)) :
    (b.applyAll translator batch).1.toOption = none ∧
      (b.bookedOf translator batch).length = (before.filter BrokerMessage.is_fill).length := by
  induction batch generalizing b before with
  | nil => cases hcut
  | cons m rest ih =>
    rw [bookedOf]
    cases hrefused : b.refuses m with
    | true =>
      rw [b.cut_refused rest hrefused] at hcut
      cases hcut
      obtain ⟨e, hall⟩ := b.applyAll_refused translator after hrefused
      simp [hall, b.fillOf_refused hrefused, Except.toOption]
    | false =>
      rw [b.cut_taken rest hrefused, Option.map_eq_some_iff] at hcut
      obtain ⟨⟨earlier, later⟩, hcut, hsame⟩ := hcut
      cases hsame
      obtain ⟨hnone, hlength⟩ := ih hcut
      refine ⟨?_, ?_⟩
      · rw [b.applyAll_taken rest hrefused]
        revert hnone
        rcases (b.apply translator m).2.applyAll translator rest with ⟨result, b'⟩
        cases result with
        | error e => exact fun _ => rfl
        | ok fills => simp [Except.toOption]
      · have hfill := b.fillOf_isSome hrefused
        rw [if_neg (by simp), List.length_append, hlength, List.filter_cons, ← hfill]
        cases b.fillOf m <;> simp [Nat.add_comm]

/-! ### Every poll -/

/-- A broker with what its polls have come to: the fills booked, the fills
    returned to the caller, and the messages taken but never looked at. -/
structure PollRun (R T : Type) where
  broker : LiveBroker R T
  booked : List Fill := []
  returned : List Fill := []
  untouched : List BrokerMessage := []

variable (translator)

def PollRun.step (s : PollRun R T) (l : BrokerMove T) : PollRun R T :=
  let broker := s.broker.step transport translator num l
  match l with
  | .poll => {
      broker
      booked := s.booked ++ (s.broker.drained transport).bookedOf translator (s.broker.batch transport)
      returned := s.returned ++ (s.broker.poll transport translator).1.toOption.getD []
      untouched := s.untouched ++
        (s.broker.drained transport).untouchedOf translator (s.broker.batch transport) }
  | _ => { s with broker }

/-- Every sequence of calls on a broker, whatever the state it is in. -/
def pollMachine : Machine (PollRun R T) (BrokerMove T) where
  Init s := s.booked = [] ∧ s.returned = [] ∧ s.untouched = []
  step s l := some (s.step transport translator num l)

/-- Every fill booked is returned, and every message is processed. -/
def PollRun.Kept (s : PollRun R T) : Prop := s.returned = s.booked ∧ s.untouched = []

/-- Every batch that a poll receives is harmless. -/
def PollRun.Harmless (s : PollRun R T) : BrokerMove T → Prop
  | .poll => (s.broker.drained transport).Harmless translator (s.broker.batch transport)
  | _ => True

/-- A fill or a message is gone, and stays so. -/
def PollRun.Lost (s : PollRun R T) : Prop := s.returned.length < s.booked.length ∨ s.untouched ≠ []

variable {transport translator num}

theorem PollRun.Lost.not_kept {s : PollRun R T} (hlost : s.Lost) : ¬ s.Kept := by
  rintro ⟨hsame, hnone⟩
  rcases hlost with hless | hleft
  · rw [hsame] at hless
    exact absurd hless (lt_irrefl _)
  · exact hleft hnone

/-- What a poll adds: the same fills on both sides when its batch is harmless,
and a loss when it is not. -/
theorem LiveBroker.poll_result (b : LiveBroker R T) :
    let batch := b.batch transport
    let drained := b.drained transport
    let returned := (b.poll transport translator).1.toOption.getD []
    (drained.Harmless translator batch ∧ returned = drained.bookedOf translator batch ∧
      drained.untouchedOf translator batch = []) ∨
    (¬ drained.Harmless translator batch ∧ returned = [] ∧
      (0 < (drained.bookedOf translator batch).length ∨ drained.untouchedOf translator batch ≠ [])) := by
  dsimp only
  rw [b.poll_eq]
  generalize b.drained transport = drained
  generalize b.batch transport = batch
  cases hcut : drained.cut translator batch with
  | none =>
    refine .inl ⟨fun around hmem => ?_, ?_, ?_⟩
    · rw [hcut] at hmem
      cases hmem
    · rw [drained.applyAll_whole hcut]
      rfl
    · rw [untouchedOf, hcut]
      rfl
  | some around =>
    obtain ⟨before, after⟩ := around
    obtain ⟨hnone, hlength⟩ := drained.applyAll_cut hcut
    have huntouched : drained.untouchedOf translator batch = after := by rw [untouchedOf, hcut]; rfl
    have hharmless : drained.Harmless translator batch ↔
        (∀ m ∈ before, m.is_fill = false) ∧ after = [] := by
      simp [LiveBroker.Harmless, hcut]
    have hbooked : (∀ m ∈ before, m.is_fill = false) ↔ drained.bookedOf translator batch = [] := by
      rw [← List.length_eq_zero_iff, hlength, List.length_eq_zero_iff, List.filter_eq_nil_iff]
      simp only [Bool.not_eq_true]
    rw [hharmless, hbooked, hnone, huntouched, List.length_pos_iff]
    by_cases hkept : drained.bookedOf translator batch = [] ∧ after = []
    · exact .inl ⟨hkept, hkept.1.symm, hkept.2⟩
    · exact .inr ⟨hkept, rfl, by simpa [or_iff_not_imp_left] using hkept⟩

theorem PollRun.Kept.step {s : PollRun R T} {l : BrokerMove T} (hkept : s.Kept)
    (hharmless : s.Harmless transport translator l) : (s.step transport translator num l).Kept := by
  cases l with
  | poll =>
    rcases s.broker.poll_result with ⟨-, hreturned, huntouched⟩ | ⟨hharm, -⟩
    · exact ⟨congrArg₂ (· ++ ·) hkept.1 hreturned, congrArg₂ (· ++ ·) hkept.2 huntouched⟩
    · exact absurd hharmless hharm
  | _ => exact hkept

/-- No poll returns more than it books. -/
theorem PollRun.Lost.step {s : PollRun R T} (hlost : s.Lost) (l : BrokerMove T) :
    (s.step transport translator num l).Lost := by
  cases l with
  | poll =>
    rcases hlost with hless | hleft
    · refine .inl ?_
      have hpoll : ((s.broker.poll transport translator).1.toOption.getD []).length ≤
          ((s.broker.drained transport).bookedOf translator (s.broker.batch transport)).length := by
        rcases s.broker.poll_result with ⟨-, hreturned, -⟩ | ⟨-, hreturned, -⟩
        · rw [hreturned]
        · rw [hreturned]
          exact Nat.zero_le _
      simp only [PollRun.step, List.length_append]
      omega
    · exact .inr fun hnone => hleft (List.append_eq_nil_iff.mp hnone).1
  | _ => exact hlost

theorem PollRun.Kept.lost {s : PollRun R T} {l : BrokerMove T} (hkept : s.Kept)
    (hharm : ¬ s.Harmless transport translator l) : (s.step transport translator num l).Lost := by
  cases l with
  | poll =>
    rcases s.broker.poll_result with ⟨hharmless, -⟩ | ⟨-, hreturned, hloses⟩
    · exact absurd hharmless hharm
    · rcases hloses with hbooked | huntouched
      · refine .inl ?_
        simp only [PollRun.step, List.length_append, hreturned, hkept.1, List.length_nil]
        omega
      · exact .inr fun hnone => huntouched (List.append_eq_nil_iff.mp hnone).2
  | _ => exact absurd trivial hharm

theorem PollRun.Lost.exec {s t : PollRun R T} {ls : List (BrokerMove T)} (hlost : s.Lost)
    (hexec : (pollMachine transport translator num).exec s ls = some t) : t.Lost := by
  induction ls generalizing s with
  | nil =>
    cases hexec
    exact hlost
  | cons l ls ih => exact ih (hlost.step l) hexec

/-- In every run, every fill booked so far is returned and every message so far
is processed if and only if every batch so far was harmless. -/
theorem pollMachine_kept_iff {s t : PollRun R T} (hinit : (pollMachine transport translator num).Init s)
    {ls : List (BrokerMove T)} (hexec : (pollMachine transport translator num).exec s ls = some t) :
    t.Kept ↔ (pollMachine transport translator num).Along (PollRun.Harmless transport translator) s ls := by
  have hkept : s.Kept := ⟨hinit.2.1.trans hinit.1.symm, hinit.2.2⟩
  clear hinit
  induction ls generalizing s with
  | nil =>
    cases hexec
    exact iff_of_true hkept trivial
  | cons l ls ih =>
    have hrest : (pollMachine transport translator num).exec (s.step transport translator num l) ls =
        some t := hexec
    by_cases hharmless : s.Harmless transport translator l
    · refine (ih hrest (hkept.step hharmless)).trans ⟨fun halong => ⟨hharmless, fun u hstep => ?_⟩, fun halong => halong.2 _ rfl⟩
      cases hstep
      exact halong
    · exact iff_of_false ((hkept.lost hharmless).exec hrest).not_kept fun halong => hharmless halong.1

/-! ### Concrete runs -/

instance (b : LiveBroker R T) (batch : List BrokerMessage) : Decidable (b.Harmless translator batch) :=
  inferInstanceAs (Decidable (∀ around ∈ b.cut translator batch,
    (∀ m ∈ around.1, m.is_fill = false) ∧ around.2 = []))

instance (s : PollRun R T) (l : BrokerMove T) : Decidable (s.Harmless transport translator l) :=
  match l with
  | .poll => inferInstanceAs (Decidable
      ((s.broker.drained transport).Harmless translator (s.broker.batch transport)))
  | .submit _ | .cancel _ | .replace _ | .elsewhere _ _ _ => inferInstanceAs (Decidable True)

/-- The venue says several things at once, and the broker polls. -/
def sayAll (ms : List BrokerMessage) : List (BrokerMove ScriptedTransport) :=
  [.elsewhere 10000000 readyBroker.connection { opened := true, inbound := ms }, .poll]

/-- A fill of an order that the broker has never heard of. -/
def strayFill : BrokerMessage := { partFill 4 with client_order_id := "ptl-9" }

/-- Two batches that lose nothing, one of which ends in a stray fill. -/
theorem pollMachine_kept_iff_stray :
    ∃ t : PollRun Unit ScriptedTransport, t.booked.length = 1 ∧ t.broker.stats.fills_refused = 1 ∧ t.Kept := by
  obtain ⟨t, hexec, hcounts⟩ := Option.map_eq_some_iff.mp (show ((pollMachine scripted sampleTranslator
    fun _ => "").exec { broker := readyBroker } ([.submit dayBuy] ++ sayAll [partFill 4] ++
      sayAll [{ kind := .OrderAccepted, client_order_id := "ptl-1", venue_order_id := "v" }, strayFill])).map
      (fun t => (t.booked.length, t.broker.stats.fills_refused)) = some (1, 1) by decide +kernel)
  simp only [Prod.mk.injEq] at hcounts
  exact ⟨t, hcounts.1, hcounts.2, (pollMachine_kept_iff ⟨rfl, rfl, rfl⟩ hexec).mpr (by decide +kernel)⟩

/-- A good fill, a stray one and a good one arrive together: the first is booked
and never returned, the last is never booked. -/
theorem pollMachine_fill_lost :
    ∃ t : PollRun Unit ScriptedTransport,
      (pollMachine scripted sampleTranslator fun _ => "").exec { broker := readyBroker }
        ([.submit dayBuy] ++ sayAll [partFill 4, strayFill, partFill 6] ++ [.poll]) = some t ∧
      t.broker.stats.fills_ingested = 1 ∧ t.booked.length = 1 ∧ t.returned = [] ∧
      t.untouched = [{ partFill 6 with received_time := 10000000 }] ∧ ¬ t.Kept := by
  obtain ⟨t, hexec, hends⟩ := Option.map_eq_some_iff.mp (show ((pollMachine scripted sampleTranslator
    fun _ => "").exec { broker := readyBroker } ([.submit dayBuy] ++
      sayAll [partFill 4, strayFill, partFill 6] ++ [.poll])).map (fun t => (t.broker.stats.fills_ingested,
        t.booked.length, t.returned.length, t.untouched)) =
        some (1, 1, 0, [{ partFill 6 with received_time := 10000000 }]) by decide +kernel)
  simp only [Prod.mk.injEq] at hends
  obtain ⟨hingested, hbooked, hreturned, huntouched⟩ := hends
  refine ⟨t, hexec, hingested, hbooked, List.length_eq_zero_iff.mp hreturned, huntouched, fun hkept => ?_⟩
  rw [hkept.2] at huntouched
  cases huntouched

end ptl.live
