import Mathlib.Data.Nat.Notation
import Mathlib.Logic.Basic
import Mathlib.Tactic.Linarith

/-! Searching a list from the front: for a pattern, and up to a stop. -/

namespace Scan

variable {A : Type*}

/-- What comes before the first stop. -/
def upTo (stop : A → Bool) (text : List A) : List A :=
  text.takeWhile fun a => !stop a

/-- What is left from the first stop on. -/
def fromStop (stop : A → Bool) (text : List A) : List A :=
  text.dropWhile fun a => !stop a

theorem upTo_append {stop : A → Bool} {text rest : List A} {a : A} (hfree : ∀ b ∈ text, stop b = false)
    (hstop : stop a = true) : upTo stop (text ++ a :: rest) = text := by
  rw [upTo, List.takeWhile_append_of_pos fun b hb => by rw [hfree b hb]; rfl,
    List.takeWhile_cons_of_neg (by simp [hstop]), List.append_nil]

theorem fromStop_append {stop : A → Bool} {text rest : List A} {a : A}
    (hfree : ∀ b ∈ text, stop b = false) (hstop : stop a = true) :
    fromStop stop (text ++ a :: rest) = a :: rest := by
  rw [fromStop, List.dropWhile_append_of_pos fun b hb => by rw [hfree b hb]; rfl,
    List.dropWhile_cons_of_neg (by simp [hstop])]

theorem upTo_free {stop : A → Bool} {text : List A} : ∀ a ∈ upTo stop text, stop a = false := by
  intro a hmem
  simpa using List.all_eq_true.mp List.all_takeWhile a hmem

theorem stop_of_fromStop {stop : A → Bool} {text rest : List A} {a : A}
    (hfrom : fromStop stop text = a :: rest) : stop a = true := by
  have hhead := List.head?_dropWhile_not (fun a => !stop a) text
  rw [fromStop] at hfrom
  rw [hfrom] at hhead
  simpa using hhead

theorem upTo_append_fromStop (stop : A → Bool) (text : List A) :
    upTo stop text ++ fromStop stop text = text :=
  List.takeWhile_append_dropWhile

variable [DecidableEq A]

/-- What follows the first occurrence of a pattern. -/
def after (needle : List A) : List A → Option (List A)
  | [] => if needle = [] then some [] else none
  | a :: rest =>
    if needle <+: a :: rest then some ((a :: rest).drop needle.length) else after needle rest

/-- A part of a text in which no occurrence of the pattern begins, whatever
follows it. -/
def Skips (needle part : List A) : Prop :=
  ∀ rest, after needle (part ++ rest) = after needle rest

theorem after_needle {needle : List A} (hneedle : needle ≠ []) (rest : List A) :
    after needle (needle ++ rest) = some rest := by
  cases needle with
  | nil => exact absurd rfl hneedle
  | cons a more => simp [after]

theorem after_of_not_prefix {needle rest : List A} {a : A} (hno : ¬ needle <+: a :: rest) :
    after needle (a :: rest) = after needle rest := by
  rw [after, if_neg hno]

theorem Skips.nil (needle : List A) : Skips needle [] :=
  fun _ => rfl

theorem Skips.append {needle part part' : List A} (hfirst : Skips needle part)
    (hsecond : Skips needle part') : Skips needle (part ++ part') := by
  intro rest
  rw [List.append_assoc, hfirst, hsecond]

theorem Skips.cons {needle part : List A} {a : A} (hno : ∀ rest, ¬ needle <+: a :: (part ++ rest))
    (hskips : Skips needle part) : Skips needle (a :: part) := by
  intro rest
  rw [List.cons_append, after_of_not_prefix (hno rest), hskips]

/-- A pattern does not begin where its first element does not stand. -/
theorem Skips.of_not_mem {a : A} {more part : List A} (hnot : a ∉ part) : Skips (a :: more) part := by
  induction part with
  | nil => exact .nil _
  | cons b part ih =>
    refine .cons (fun rest hstarts => hnot ?_) (ih fun hmem => hnot (List.mem_cons_of_mem _ hmem))
    rw [List.cons_prefix_cons] at hstarts
    rw [hstarts.1]
    exact List.mem_cons_self

/-- What follows a pattern is the end of the text. -/
theorem after_suffix {needle text rest : List A} (hafter : after needle text = some rest) :
    rest <:+ text := by
  induction text with
  | nil =>
    rw [after] at hafter
    split at hafter
    · cases hafter
      exact List.suffix_rfl
    · cases hafter
  | cons a text ih =>
    rw [after] at hafter
    split at hafter
    · cases hafter
      exact List.drop_suffix _ _
    · exact (ih hafter).trans (List.suffix_cons a text)

end Scan

/-! Numbers in text: digits up to base sixteen, printed by `Nat.toDigits`. -/

namespace Numeral

/-- The value of a digit of either case. -/
def value (c : Char) : Option Nat :=
  if '0' ≤ c ∧ c ≤ '9' then some (c.toNat - 48)
  else if 'a' ≤ c ∧ c ≤ 'f' then some (c.toNat - 87)
  else if 'A' ≤ c ∧ c ≤ 'F' then some (c.toNat - 55)
  else none

def isDigit (base : Nat) (c : Char) : Bool :=
  match value c with
  | some v => v < base
  | none => false

/-- The number a list of digits stands for. -/
def ofDigits (base : Nat) (text : List Char) : Nat :=
  text.foldl (fun n c => base * n + (value c).getD 0) 0

/-- The digits a text begins with. -/
def leading (base : Nat) (text : List Char) : List Char :=
  text.takeWhile (isDigit base)

theorem value_digitChar {d : Nat} (hd : d < 16) : value d.digitChar = some d := by
  have hall : ∀ d : Fin 16, value d.val.digitChar = some d.val := by decide
  exact hall ⟨d, hd⟩

theorem ofDigits_append_digit (base : Nat) (text : List Char) {d : Nat} (hd : d < 16) :
    ofDigits base (text ++ [d.digitChar]) = base * ofDigits base text + d := by
  simp [ofDigits, value_digitChar hd]

theorem ofDigits_zeros (base k : Nat) (text : List Char) :
    ofDigits base (List.replicate k '0' ++ text) = ofDigits base text := by
  have hzero : (value '0').getD 0 = 0 := by decide
  have hzeros : ofDigits base (List.replicate k '0') = 0 := by
    induction k with
    | zero => rfl
    | succ k ih =>
      simp only [ofDigits, List.replicate_succ, List.foldl_cons, hzero] at ih ⊢
      exact ih
  simp only [ofDigits] at hzeros ⊢
  rw [List.foldl_append, hzeros]

section Printed

variable {base : Nat} (hbase : 1 < base) (hsixteen : base ≤ 16)

include hbase hsixteen

/-- Reading back a printed number gives the number. -/
theorem ofDigits_toDigits (n : Nat) : ofDigits base (Nat.toDigits base n) = n := by
  induction n using Nat.strongRecOn with
  | _ n ih =>
    rw [Nat.toDigits_eq_if hbase]
    split
    · rename_i hsmall
      simp [ofDigits, value_digitChar (lt_of_lt_of_le hsmall hsixteen)]
    · rename_i hlarge
      have hdigit : n % base < 16 := lt_of_lt_of_le (Nat.mod_lt _ (by omega)) hsixteen
      rw [ofDigits_append_digit _ _ hdigit, ih _ (Nat.div_lt_self (by omega) hbase),
        Nat.div_add_mod]

theorem isDigit_of_mem_toDigits {n : Nat} {c : Char} (hmem : c ∈ Nat.toDigits base n) :
    isDigit base c = true := by
  have hdigit : ∀ d, d < base → isDigit base d.digitChar = true := by
    intro d hd
    simp [isDigit, value_digitChar (lt_of_lt_of_le hd hsixteen), hd]
  induction n using Nat.strongRecOn with
  | _ n ih =>
    rw [Nat.toDigits_eq_if hbase] at hmem
    split at hmem
    · rename_i hsmall
      rw [List.mem_singleton.mp hmem]
      exact hdigit n hsmall
    · rename_i hlarge
      rcases List.mem_append.mp hmem with hrest | hlast
      · exact ih _ (Nat.div_lt_self (by omega) hbase) hrest
      · rw [List.mem_singleton.mp hlast]
        exact hdigit _ (Nat.mod_lt _ (by omega))

theorem isDigit_zero : isDigit base '0' = true := by
  have hvalue : value '0' = some 0 := by decide
  simp [isDigit, hvalue]
  omega

/-- The leading digits of a text that begins with a padded number. -/
theorem leading_padded {n k : Nat} {rest : List Char}
    (hrest : ∀ c ∈ rest.head?, isDigit base c = false) :
    leading base (List.replicate k '0' ++ Nat.toDigits base n ++ rest) =
      List.replicate k '0' ++ Nat.toDigits base n := by
  have hall : ∀ c ∈ List.replicate k '0' ++ Nat.toDigits base n, isDigit base c = true := by
    intro c hmem
    rcases List.mem_append.mp hmem with hzero | hdigit
    · rw [List.eq_of_mem_replicate hzero]
      exact isDigit_zero hbase hsixteen
    · exact isDigit_of_mem_toDigits hbase hsixteen hdigit
  rw [leading, List.takeWhile_append_of_pos hall]
  cases rest with
  | nil => simp
  | cons c rest =>
    rw [List.takeWhile_cons_of_neg (by simp [hrest c rfl]), List.append_nil]

end Printed

end Numeral
