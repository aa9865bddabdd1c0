import Mathlib.Logic.Basic

/-! What a policy of repeated attempts permits: when the next one is due, how many
there may be, and when to give up. -/

variable {τ E : Type*}

/-- The longest gap between two attempts, how many are made in a row (zero for no
limit), and what is said when there are no more. -/
structure RetryPolicy (τ E : Type*) where
  cap : τ
  limit : Nat
  exhausted : E

namespace RetryPolicy

/-- The attempts made since it last worked, the last gap, and when the next is
due. -/
structure Outage (τ : Type*) where
  made : Nat := 0
  gap : Option τ := none
  due : Option τ := none

inductive Outcome (E : Type*) where
  | waits
  | works
  | fails (e : E)

/-- A look at an outage: when, what an attempt would be answered, and what came
of it. -/
structure Trial (τ E : Type*) where
  now : τ
  answer : Except E Unit
  outcome : Outcome E

/-- Some attempt is left. -/
def Left (P : RetryPolicy τ E) (o : Outage τ) : Prop := P.limit = 0 ∨ o.made < P.limit

/-- The first attempt is due at once. -/
def Outage.Due [LE τ] (o : Outage τ) (now : τ) : Prop := ∀ due ∈ o.due, due ≤ now

variable [LE τ] [Add τ]

/-- What may come of a look. An attempt is made when it is due and one is left;
each failure is followed by a gap no shorter than the last; and only when none is
left does it end in failure. -/
inductive Permits (P : RetryPolicy τ E) : Outage τ → Trial τ E → Outage τ → Prop where
  | wait {o : Outage τ} {now : τ} {answer : Except E Unit} (hearly : ¬ o.Due now) :
      Permits P o ⟨now, answer, .waits⟩ o
  | works {o : Outage τ} {now : τ} (hdue : o.Due now) (hleft : P.Left o) :
      Permits P o ⟨now, .ok (), .works⟩ {}
  | again {o : Outage τ} {now gap : τ} {e : E} (hdue : o.Due now) (hleft : P.Left o)
      (hgrows : ∀ last ∈ o.gap, last ≤ gap) (hcap : gap ≤ P.cap) :
      Permits P o ⟨now, .error e, .waits⟩ { made := o.made + 1, gap := some gap, due := some (now + gap) }
  | last {o : Outage τ} {now : τ} {e : E} (hdue : o.Due now) (hleft : P.Left o) (hlast : o.made + 1 = P.limit) :
      Permits P o ⟨now, .error e, .fails P.exhausted⟩ {}
  | spent {o : Outage τ} {now : τ} {answer : Except E Unit} (hdue : o.Due now) (hnone : ¬ P.Left o) :
      Permits P o ⟨now, answer, .fails P.exhausted⟩ {}

/-- Every look of a history is one that the policy permits. -/
def Follows (P : RetryPolicy τ E) : Outage τ → List (Trial τ E) → Prop
  | _, [] => True
  | o, t :: ts => ∃ o', P.Permits o t o' ∧ P.Follows o' ts

/-! ### Giving up at once -/

omit [LE τ] [Add τ]

/-- A look that is settled by its first attempt, whatever is answered. -/
def Trial.Hasty (t : Trial τ E) : Prop :=
  t.outcome = match t.answer with
    | .ok _ => .works
    | .error e => .fails e

/-- The attempt works, or it is the only one there may be and its error is the
policy's own. -/
def Bears (P : RetryPolicy τ E) (answer : Except E Unit) : Prop :=
  ∀ e, answer = .error e → P.limit = 1 ∧ e = P.exhausted

instance decidableBears [DecidableEq E] (P : RetryPolicy τ E) :
    (answer : Except E Unit) → Decidable (P.Bears answer)
  | .ok _ => isTrue fun _ he => (by cases he)
  | .error e => decidable_of_iff (P.limit = 1 ∧ e = P.exhausted)
    ⟨fun hlast _ he => (by cases he; exact hlast), fun hbears => hbears e rfl⟩

theorem left_fresh (P : RetryPolicy τ E) : P.Left ({} : Outage τ) :=
  (Nat.eq_zero_or_pos P.limit).imp_right id

theorem due_fresh [LE τ] (now : τ) : ({} : Outage τ).Due now :=
  fun _ hdue => absurd hdue (by simp)

variable [LE τ] [Add τ] {P : RetryPolicy τ E}

theorem permits_hasty_iff {t : Trial τ E} {o' : Outage τ} (hhasty : t.Hasty) :
    P.Permits {} t o' ↔ P.Bears t.answer ∧ o' = {} := by
  obtain ⟨now, answer, outcome⟩ := t
  cases answer with
  | ok done =>
    have hworks : outcome = .works := hhasty
    subst hworks
    constructor
    · intro hpermits
      cases hpermits
      exact ⟨fun e he => (by cases he), rfl⟩
    · rintro ⟨-, rfl⟩
      exact .works (due_fresh now) P.left_fresh
  | error e =>
    have hfails : outcome = .fails e := hhasty
    subst hfails
    constructor
    · intro hpermits
      cases hpermits with
      | last hdue hleft hlast =>
        refine ⟨fun e' he => ?_, rfl⟩
        cases he
        exact ⟨hlast.symm, rfl⟩
      | spent hdue hnone => exact absurd P.left_fresh hnone
    · rintro ⟨hbears, rfl⟩
      obtain ⟨hlimit, rfl⟩ := hbears e rfl
      exact .last (due_fresh now) P.left_fresh hlimit.symm

/-- A history that never tries twice follows the policy if and only if the policy
bears the answer of every attempt. -/
theorem follows_hasty_iff {ts : List (Trial τ E)} (hhasty : ∀ t ∈ ts, t.Hasty) :
    P.Follows {} ts ↔ ∀ t ∈ ts, P.Bears t.answer := by
  induction ts with
  | nil => simp [Follows]
  | cons t ts ih =>
    rw [List.forall_mem_cons] at hhasty
    simp only [Follows, permits_hasty_iff hhasty.1, List.forall_mem_cons, and_assoc, exists_and_left,
      exists_eq_left, ih hhasty.2]

end RetryPolicy
