import Mathlib.Algebra.BigOperators.Ring.List
import Mathlib.Algebra.Order.Field.Rat
import Mathlib.Algebra.Order.Ring.Rat
import Mathlib.Data.List.Induction
import Mathlib.Tactic.FieldSimp
import Mathlib.Tactic.Linarith
import TradingLab.Core.Types

namespace ptl.algo

/-! ### The profile -/

/-- Volume accumulated by slot of the session, over the sessions observed. -/
structure VolumeProfile where
  totals : List Rat
  shares : List Rat := []
  sessions : Nat := 0
  deriving DecidableEq, Repr

namespace VolumeProfile

def new (slots : Nat) : VolumeProfile where
  totals := List.replicate (max 1 slots) 0

/-- The loop of `add_session` from slot `i` on: the totals it leaves, and the
slot it refused. A slot of `none` is a volume that is not finite. -/
def accumulate : List Rat → List (Option Rat) → Nat → List Rat × Option Nat
  | total :: totals, some v :: slots, i =>
    if v < 0 then (total :: totals, some i)
    else ((total + v) :: (accumulate totals slots (i + 1)).1, (accumulate totals slots (i + 1)).2)
  | totals, none :: _, i => (totals, some i)
  | totals, _, _ => (totals, none)

/-- Fold in one completed session's volumes. -/
def add_session (p : VolumeProfile) (slot_volumes : List (Option Rat)) : Result Bool × VolumeProfile :=
  if slot_volumes.length ≠ p.totals.length then
    (.error (bad ("session volume vector has " ++ toString slot_volumes.length ++
      " slots, profile expects " ++ toString p.totals.length)), p)
  else
    match accumulate p.totals slot_volumes 0 with
    | (totals, some i) =>
      (.error (bad ("session volume is negative or non-finite at slot " ++ toString i)), { p with totals := totals })
    | (totals, none) =>
      let sum := totals.sum
      (.ok true,
        { totals
          shares := if 0 < sum then totals.map (· / sum) else List.replicate totals.length 0
          sessions := p.sessions + 1 })

/-! ### One call -/

/-- A slot volume the loop takes. -/
def usable (slot : Option Rat) : Bool := slot.any (0 ≤ ·)

/-- The session a call is accepted with. -/
def session_of (slots : Nat) (slot_volumes : List (Option Rat)) : Option (List Rat) :=
  if slot_volumes.length = slots ∧ slot_volumes.all usable then some (slot_volumes.map (·.getD 0)) else none

/-- A vector that leaves nothing behind: one of another length, or all usable,
or with nothing but zeros before its first bad slot. -/
def Harmless (slots : Nat) (slot_volumes : List (Option Rat)) : Prop :=
  slot_volumes.length = slots → slot_volumes.all usable = false → ∀ slot ∈ slot_volumes.takeWhile usable, slot = some 0

theorem accumulate_of_usable {totals : List Rat} {slots : List (Option Rat)} (hlength : slots.length = totals.length)
    (husable : slots.all usable = true) (i : Nat) :
    accumulate totals slots i = (List.zipWith (· + ·) totals (slots.map (·.getD 0)), none) := by
  induction slots generalizing totals i with
  | nil =>
    obtain rfl := List.length_eq_zero_iff.mp hlength.symm
    rfl
  | cons slot slots ih =>
    obtain ⟨total, totals, rfl⟩ := List.exists_cons_of_length_eq_add_one hlength.symm
    obtain ⟨hslot, hslots⟩ := Bool.and_eq_true_iff.mp husable
    cases slot with
    | none => exact absurd hslot (by decide)
    | some v =>
      have hnonneg : ¬ v < 0 := not_lt.mpr (of_decide_eq_true hslot)
      rw [accumulate, if_neg hnonneg, ih (Nat.succ.inj hlength) hslots]
      rfl

/-- Stopped at a bad slot, the loop has added what stands before it. -/
theorem accumulate_of_bad {totals : List Rat} {slots : List (Option Rat)} (hlength : slots.length = totals.length)
    (hbad : slots.all usable = false) (i : Nat) :
    (accumulate totals slots i).2 = some (i + (slots.takeWhile usable).length) ∧
      ((accumulate totals slots i).1 = totals ↔ ∀ slot ∈ slots.takeWhile usable, slot = some 0) := by
  induction slots generalizing totals i with
  | nil => exact absurd hbad (by decide)
  | cons slot slots ih =>
    obtain ⟨total, totals, rfl⟩ := List.exists_cons_of_length_eq_add_one hlength.symm
    cases slot with
    | none =>
      have hstop : (none :: slots).takeWhile usable = [] := List.takeWhile_cons_of_neg (by decide)
      rw [hstop]
      exact ⟨rfl, fun _ _ hmem => absurd hmem List.not_mem_nil, fun _ => rfl⟩
    | some v =>
      by_cases hneg : v < 0
      · have hstop : (some v :: slots).takeWhile usable = [] :=
          List.takeWhile_cons_of_neg (by simpa [usable] using hneg)
        rw [hstop, accumulate, if_pos hneg]
        exact ⟨rfl, fun _ _ hmem => absurd hmem List.not_mem_nil, fun _ => rfl⟩
      · have hslot : usable (some v) = true := decide_eq_true (not_lt.mp hneg)
        have hrest : slots.all usable = false := by
          rw [List.all_cons, hslot, Bool.true_and] at hbad
          exact hbad
        obtain ⟨hindex, hsame⟩ := ih (Nat.succ.inj hlength) hrest (i + 1)
        rw [List.takeWhile_cons_of_pos hslot, accumulate, if_neg hneg, hindex]
        refine ⟨congrArg some (by simp only [List.length_cons]; omega), ?_⟩
        rw [List.forall_mem_cons, ← hsame, List.cons_eq_cons, add_eq_left, Option.some_inj]

theorem add_session_wrong_length {p : VolumeProfile} {slot_volumes : List (Option Rat)}
    (hlength : slot_volumes.length ≠ p.totals.length) : (p.add_session slot_volumes).2 = p := by
  rw [add_session, if_pos hlength]

theorem add_session_bad {p : VolumeProfile} {slot_volumes : List (Option Rat)}
    (hlength : slot_volumes.length = p.totals.length) (hbad : slot_volumes.all usable = false) :
    p.add_session slot_volumes =
      (.error (bad ("session volume is negative or non-finite at slot " ++
          toString (slot_volumes.takeWhile usable).length)),
        { p with totals := (accumulate p.totals slot_volumes 0).1 }) := by
  obtain ⟨hindex, -⟩ := accumulate_of_bad hlength hbad 0
  have hloop : accumulate p.totals slot_volumes 0 =
      ((accumulate p.totals slot_volumes 0).1, some (slot_volumes.takeWhile usable).length) := by
    rw [Nat.zero_add] at hindex
    exact Prod.ext rfl hindex
  rw [add_session, if_neg (not_not.mpr hlength), hloop]

/-- The shares of a list of totals. -/
def shares_of (totals : List Rat) : List Rat :=
  if 0 < totals.sum then totals.map (· / totals.sum) else List.replicate totals.length 0

theorem add_session_usable {p : VolumeProfile} {slot_volumes : List (Option Rat)}
    (hlength : slot_volumes.length = p.totals.length) (husable : slot_volumes.all usable = true) :
    p.add_session slot_volumes =
      (.ok true,
        { totals := List.zipWith (· + ·) p.totals (slot_volumes.map (·.getD 0))
          shares := shares_of (List.zipWith (· + ·) p.totals (slot_volumes.map (·.getD 0)))
          sessions := p.sessions + 1 }) := by
  rw [add_session, if_neg (not_not.mpr hlength), accumulate_of_usable hlength husable]
  rfl

/-- A refused call leaves the profile alone just when its vector is harmless. -/
theorem refused_unchanged_iff (p : VolumeProfile) (slot_volumes : List (Option Rat)) :
    (∀ e, (p.add_session slot_volumes).1 = .error e → (p.add_session slot_volumes).2 = p) ↔
      Harmless p.totals.length slot_volumes := by
  by_cases hlength : slot_volumes.length = p.totals.length
  · cases husable : slot_volumes.all usable with
    | true =>
      rw [add_session_usable hlength husable]
      exact ⟨fun _ _ hbad => absurd (husable.symm.trans hbad) (by decide), fun _ _ herror => nomatch herror⟩
    | false =>
      obtain ⟨-, hsame⟩ := accumulate_of_bad hlength husable 0
      rw [add_session_bad hlength husable]
      constructor
      · intro hunchanged _ _
        exact hsame.mp (congrArg VolumeProfile.totals (hunchanged _ rfl))
      · intro hharmless _ _
        rw [hsame.mpr (hharmless hlength husable)]
  · rw [add_session_wrong_length hlength]
    exact ⟨fun _ hequal => absurd hequal hlength, fun _ _ _ => rfl⟩

theorem length_accumulate (totals : List Rat) (slots : List (Option Rat)) (i : Nat) :
    (accumulate totals slots i).1.length = totals.length := by
  induction totals, slots, i using accumulate.induct with
  | case1 total totals v slots i hneg => rw [accumulate, if_pos hneg]
  | case2 total totals v slots i hneg ih =>
    rw [accumulate, if_neg hneg]
    exact congrArg (· + 1) ih
  | case3 totals slots i => cases totals <;> rfl
  | case4 => simp_all [accumulate]

theorem length_add_session (p : VolumeProfile) (slot_volumes : List (Option Rat)) :
    (p.add_session slot_volumes).2.totals.length = p.totals.length := by
  by_cases hlength : slot_volumes.length = p.totals.length
  · cases husable : slot_volumes.all usable with
    | true =>
      rw [add_session_usable hlength husable, List.length_zipWith, List.length_map, hlength, min_self]
    | false =>
      rw [add_session_bad hlength husable]
      exact length_accumulate _ _ _
  · rw [add_session_wrong_length hlength]

/-! ### Many calls -/

def run (p : VolumeProfile) (calls : List (List (Option Rat))) : VolumeProfile :=
  calls.foldl (fun p slot_volumes => (p.add_session slot_volumes).2) p

/-- The sessions accepted among some calls. -/
def accepted (slots : Nat) (calls : List (List (Option Rat))) : List (List Rat) := calls.filterMap (session_of slots)

/-- The sums of the columns of some sessions. -/
def columns (slots : Nat) (sessions : List (List Rat)) : List Rat :=
  sessions.foldl (List.zipWith (· + ·)) (List.replicate slots 0)

/-- A profile that is just what its accepted sessions say. -/
structure Of (slots : Nat) (sessions : List (List Rat)) (p : VolumeProfile) : Prop where
  totals : p.totals = columns slots sessions
  length : p.totals.length = slots
  count : p.sessions = sessions.length
  shares : p.shares = if sessions = [] then [] else shares_of (columns slots sessions)

theorem of_new (slots : Nat) : Of (max 1 slots) [] (new slots) where
  totals := rfl
  length := List.length_replicate
  count := rfl
  shares := rfl

/-- A harmless call keeps a profile what its accepted sessions say. -/
theorem Of.add_session {slots : Nat} {sessions : List (List Rat)} {p : VolumeProfile} (hof : Of slots sessions p)
    {slot_volumes : List (Option Rat)} (hharmless : Harmless slots slot_volumes) :
    Of slots (sessions ++ (session_of slots slot_volumes).toList) (p.add_session slot_volumes).2 := by
  by_cases hok : slot_volumes.length = slots ∧ slot_volumes.all usable = true
  · obtain ⟨hlength, husable⟩ := hok
    have hsum : List.zipWith (· + ·) p.totals (slot_volumes.map (·.getD 0)) =
        columns slots (sessions ++ [slot_volumes.map (·.getD 0)]) := by
      rw [hof.totals, columns, columns, List.foldl_append]
      rfl
    rw [add_session_usable (hlength.trans hof.length.symm) husable, session_of, if_pos ⟨hlength, husable⟩,
      Option.toList_some, hsum]
    refine ⟨rfl, ?_, ?_, ?_⟩
    · rw [← hsum, List.length_zipWith, List.length_map, hof.length, hlength, min_self]
    · rw [List.length_append, ← hof.count]
      rfl
    · rw [if_neg (List.append_ne_nil_of_right_ne_nil _ (List.cons_ne_nil _ _))]
  · have hsame : (p.add_session slot_volumes).2 = p := by
      by_cases hlength : slot_volumes.length = slots
      · have hbad : slot_volumes.all usable = false := Bool.eq_false_iff.mpr fun husable => hok ⟨hlength, husable⟩
        have hkept := (refused_unchanged_iff p slot_volumes).mpr (hof.length ▸ hharmless)
        exact hkept _ (congrArg Prod.fst (add_session_bad (hlength.trans hof.length.symm) hbad))
      · exact add_session_wrong_length (hof.length ▸ hlength)
    rw [hsame, session_of, if_neg hok, Option.toList_none, List.append_nil]
    exact hof

theorem of_run {slots : Nat} {calls : List (List (Option Rat))}
    (hharmless : ∀ slot_volumes ∈ calls, Harmless (max 1 slots) slot_volumes) :
    Of (max 1 slots) (accepted (max 1 slots) calls) ((new slots).run calls) := by
  induction calls using List.reverseRecOn with
  | nil => exact of_new slots
  | append_singleton calls slot_volumes ih =>
    have hbefore := ih fun v hv => hharmless v (List.mem_append_left _ hv)
    have hlast := hharmless slot_volumes (List.mem_append_right _ List.mem_cons_self)
    have hstep := hbefore.add_session hlast
    rw [run, List.foldl_append, accepted, List.filterMap_append]
    have htail : [slot_volumes].filterMap (session_of (max 1 slots)) = (session_of (max 1 slots) slot_volumes).toList := by
      cases hsession : session_of (max 1 slots) slot_volumes with
      | none => exact List.filterMap_cons_none hsession
      | some session => exact List.filterMap_cons_some hsession
    rw [htail]
    exact hstep

theorem length_run (p : VolumeProfile) (calls : List (List (Option Rat))) :
    (p.run calls).totals.length = p.totals.length := by
  induction calls generalizing p with
  | nil => rfl
  | cons slot_volumes calls ih => exact (ih _).trans (length_add_session p slot_volumes)

/-- What is claimed of a sequence of calls to a new profile: a refused call
changes nothing, and at every point with some volume accepted the shares are
those of the accepted sessions. -/
structure Atomic (slots : Nat) (calls : List (List (Option Rat))) : Prop where
  unchanged : ∀ before call after, calls = before ++ call :: after →
    ∀ e, (((new slots).run before).add_session call).1 = .error e →
      (((new slots).run before).add_session call).2 = (new slots).run before
  shares : ∀ before after, calls = before ++ after →
    0 < (columns (max 1 slots) (accepted (max 1 slots) before)).sum →
      ((new slots).run before).shares = (columns (max 1 slots) (accepted (max 1 slots) before)).map
          (· / (columns (max 1 slots) (accepted (max 1 slots) before)).sum) ∧
        ((new slots).run before).shares.sum = 1

theorem sum_map_div_self {totals : List Rat} (hpos : 0 < totals.sum) : (totals.map (· / totals.sum)).sum = 1 := by
  have hmul : (totals.map fun total => total * (totals.sum)⁻¹).sum = totals.sum * (totals.sum)⁻¹ :=
    List.sum_map_mul_right totals (fun total => total) _ |>.trans (by rw [List.map_id'])
  simp only [div_eq_mul_inv]
  rw [hmul, mul_inv_cancel₀ hpos.ne']

/-- The profile is atomic over a sequence of calls just when each of them is
harmless. -/
theorem atomic_iff_harmless (p : VolumeProfile) (slot_volumes : List (Option Rat)) (slots : Nat)
    (calls : List (List (Option Rat))) :
    ((∀ e, (p.add_session slot_volumes).1 = .error e → (p.add_session slot_volumes).2 = p) ↔
        Harmless p.totals.length slot_volumes) ∧
      (Atomic slots calls ↔ ∀ call ∈ calls, Harmless (max 1 slots) call) := by
  refine ⟨refused_unchanged_iff p slot_volumes, ?_, ?_⟩
  · intro hatomic call hmem
    obtain ⟨before, after, hcalls⟩ := List.append_of_mem hmem
    have hharmless := (refused_unchanged_iff _ _).mp (hatomic.unchanged before call after hcalls)
    rw [length_run, new, List.length_replicate] at hharmless
    exact hharmless
  · intro hharmless
    refine ⟨fun before call after hcalls => ?_, fun before after hcalls hpos => ?_⟩
    · have hbefore := of_run fun v hv => hharmless v (hcalls ▸ List.mem_append_left _ hv)
      refine (refused_unchanged_iff _ _).mpr ?_
      rw [hbefore.length]
      exact hharmless call (hcalls ▸ List.mem_append_right _ List.mem_cons_self)
    · have hbefore := of_run fun v hv => hharmless v (hcalls ▸ List.mem_append_left _ hv)
      have hsome : accepted (max 1 slots) before ≠ [] := by
        intro hnone
        rw [hnone, columns, List.foldl_nil, List.sum_replicate, nsmul_zero] at hpos
        exact lt_irrefl _ hpos
      have hshares := hbefore.shares
      rw [if_neg hsome, shares_of, if_pos hpos] at hshares
      exact ⟨hshares, hshares ▸ sum_map_div_self hpos⟩

/-- A session refused at its second slot leaves its first behind, and half of the
next profile with it. -/
theorem refused_session_left_behind : ¬ ∀ slots calls, Atomic slots calls := by
  intro hall
  have hshares := ((hall 2 [[some 100, some (-1)], [some 0, some 100]]).shares _ [] (List.append_nil _).symm
    (by decide +kernel)).1
  exact absurd hshares (by decide +kernel)

end VolumeProfile

end ptl.algo
