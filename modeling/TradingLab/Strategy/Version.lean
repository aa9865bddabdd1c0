import Mathlib.Data.List.TakeWhile
import TradingLab.Core.Numbers
import TradingLab.Strategy.Registry

namespace ptl.strategy

/-- `std::from_chars` into 32 bits, with what follows the number. -/
def from_chars32 (text : List Char) : Option (UInt32 × List Char) :=
  let digits := Numeral.leading 10 text
  let n := Numeral.ofDigits 10 digits
  if digits = [] ∨ 2 ^ 32 ≤ n then none else some (UInt32.ofNat n, text.drop digits.length)

def isDot (c : Char) : Bool := c = '.'

/-- The loop with the number of fields to come, the fields read, and the text from `start` on. -/
def parse_fields (text : String) : Nat → List UInt32 → List Char → Result (List UInt32)
  | 0, fields, _ => .ok fields
  | left + 1, fields, rest =>
    let part := Scan.upTo isDot rest
    if part = [] then .error (bad "version has an empty component" text)
    else
      match from_chars32 part with
      | some (n, []) =>
        match Scan.fromStop isDot rest with
        | [] => .ok (fields ++ [n])
        | _ :: rest => parse_fields text left (fields ++ [n]) rest
      | _ => .error (bad "version component is not a number" text)

def StrategyVersion.parse (text : String) : Result StrategyVersion :=
  match parse_fields text 3 [] text.toList with
  | .error err => .error err
  | .ok [major, minor, patch] => .ok { major, minor, patch }
  | .ok _ => .error (bad "version must be major.minor.patch" text)

/-! ### What a version is -/

/-- An unsigned decimal number and its value. -/
structure Decimal (part : List Char) (n : UInt32) : Prop where
  nonempty : part ≠ []
  digits : ∀ c ∈ part, Numeral.isDigit 10 c = true
  value : Numeral.ofDigits 10 part = n.toNat

/-- Three numbers with dots between them, and what follows. -/
def Spells (v : StrategyVersion) (text more : List Char) : Prop :=
  ∃ a b c, text = a ++ '.' :: (b ++ '.' :: (c ++ more)) ∧ Decimal a v.major ∧ Decimal b v.minor ∧ Decimal c v.patch

/-- A version that goes on behind a third dot. -/
def Surplus (text : List Char) : Prop := ∃ v more, Spells v text ('.' :: more)

theorem Decimal.no_dot {part : List Char} {n : UInt32} (h : Decimal part n) : ∀ c ∈ part, isDot c = false := by
  intro c hc
  by_contra hdot
  obtain rfl : c = '.' := by simpa [isDot] using hdot
  exact absurd (h.digits _ hc) (by decide)

theorem from_chars32_iff {part : List Char} {n : UInt32} : from_chars32 part = some (n, []) ↔ Decimal part n := by
  constructor
  · intro hread
    unfold from_chars32 at hread
    dsimp only at hread
    split at hread
    · cases hread
    · rename_i hnumber
      obtain ⟨hn, hrest⟩ := Prod.mk.inj (Option.some.inj hread)
      obtain ⟨hsome, hfits⟩ := not_or.mp hnumber
      have hall : Numeral.leading 10 part = part :=
        (List.takeWhile_prefix _).eq_of_length_le (List.drop_eq_nil_iff.mp hrest)
      rw [hall] at hsome hfits hn
      refine ⟨hsome, fun c hc => ?_, ?_⟩
      · exact List.mem_takeWhile_imp (hall.symm ▸ hc)
      · rw [← hn]
        exact (UInt32.toNat_ofNat_of_lt' (not_le.mp hfits)).symm
  · rintro ⟨hnonempty, hdigits, hvalue⟩
    have hall : Numeral.leading 10 part = part := List.takeWhile_eq_self_iff.mpr hdigits
    have hfits : n.toNat < 2 ^ 32 := n.toNat_lt
    simp [from_chars32, hall, hvalue, hnonempty]
    exact hfits

theorem upTo_dot {part tail : List Char} (hfree : ∀ c ∈ part, isDot c = false)
    (htail : tail = [] ∨ ∃ more, tail = '.' :: more) :
    Scan.upTo isDot (part ++ tail) = part ∧ Scan.fromStop isDot (part ++ tail) = tail := by
  obtain rfl | ⟨more, rfl⟩ := htail
  · have hkeeps : ∀ c ∈ part, (!isDot c) = true := fun c hc => by rw [hfree c hc]; rfl
    rw [List.append_nil]
    exact ⟨List.takeWhile_eq_self_iff.mpr hkeeps, List.dropWhile_eq_nil_iff.mpr hkeeps⟩
  · exact ⟨Scan.upTo_append hfree (by decide), Scan.fromStop_append hfree (by decide)⟩

/-- One turn of the loop reads one number, and ends the loop where no dot follows. -/
theorem parse_fields_succ {text : String} {left : Nat} {fields out : List UInt32} {rest : List Char} :
    parse_fields text (left + 1) fields rest = .ok out ↔ ∃ part n tail, rest = part ++ tail ∧ Decimal part n ∧
      (tail = [] ∧ out = fields ++ [n] ∨
        ∃ more, tail = '.' :: more ∧ parse_fields text left (fields ++ [n]) more = .ok out) := by
  constructor
  · intro hread
    rw [parse_fields] at hread
    split at hread
    · cases hread
    · split at hread
      · rename_i n hnumber
        refine ⟨_, n, _, (Scan.upTo_append_fromStop isDot rest).symm, from_chars32_iff.mp hnumber, ?_⟩
        split at hread
        · rename_i hend
          cases hread
          exact .inl ⟨hend, rfl⟩
        · rename_i c more hmore
          obtain rfl : c = '.' := by simpa [isDot] using Scan.stop_of_fromStop hmore
          exact .inr ⟨more, hmore, hread⟩
      · cases hread
  · rintro ⟨part, n, tail, rfl, hnumber, hcases⟩
    have htail : tail = [] ∨ ∃ more, tail = '.' :: more := by
      obtain ⟨hnil, -⟩ | ⟨more, hmore, -⟩ := hcases
      · exact .inl hnil
      · exact .inr ⟨more, hmore⟩
    obtain ⟨hpart, hrest⟩ := upTo_dot hnumber.no_dot htail
    rw [parse_fields, hpart, hrest]
    simp only [if_neg hnumber.nonempty, from_chars32_iff.mpr hnumber]
    obtain ⟨rfl, rfl⟩ | ⟨more, rfl, hmore⟩ := hcases
    · rfl
    · exact hmore

/-- What is parsed is a version with nothing behind it, or with anything behind a third dot. -/
theorem StrategyVersion.parse_ok_iff {text : String} {v : StrategyVersion} :
    StrategyVersion.parse text = .ok v ↔ Spells v text.toList [] ∨ ∃ more, Spells v text.toList ('.' :: more) := by
  have hfields : StrategyVersion.parse text = .ok v ↔
      parse_fields text 3 [] text.toList = .ok [v.major, v.minor, v.patch] := by
    cases v
    unfold StrategyVersion.parse
    split
    · rename_i err herr
      simp [herr]
    · rename_i major minor patch hread
      simp [hread]
    · rename_i fields hother hread
      simp only [hread, reduceCtorEq, false_iff, Except.ok.injEq]
      exact fun heq => hother _ _ _ heq
  rw [hfields]
  constructor
  · intro hparsed
    obtain ⟨a, major, tail, hsplit, ha, ⟨-, hout⟩ | ⟨rest, rfl, hread⟩⟩ := parse_fields_succ.mp hparsed
    · cases hout
    obtain ⟨b, minor, tail, rfl, hb, ⟨-, hout⟩ | ⟨rest, rfl, hread'⟩⟩ := parse_fields_succ.mp hread
    · cases hout
    obtain ⟨c, patch, tail, rfl, hc, ⟨rfl, hout⟩ | ⟨rest, rfl, hread''⟩⟩ := parse_fields_succ.mp hread'
    · cases hout
      exact .inl ⟨a, b, c, hsplit, ha, hb, hc⟩
    · cases hread''
      exact .inr ⟨rest, a, b, c, hsplit, ha, hb, hc⟩
  · have hspelled : ∀ {tail : List Char}, (tail = [] ∨ ∃ more, tail = '.' :: more) → Spells v text.toList tail →
        parse_fields text 3 [] text.toList = .ok [v.major, v.minor, v.patch] := by
      rintro tail htail ⟨a, b, c, hsplit, ha, hb, hc⟩
      refine parse_fields_succ.mpr ⟨a, v.major, _, hsplit, ha, .inr ⟨_, rfl, ?_⟩⟩
      refine parse_fields_succ.mpr ⟨b, v.minor, _, rfl, hb, .inr ⟨_, rfl, ?_⟩⟩
      refine parse_fields_succ.mpr ⟨c, v.patch, tail, rfl, hc, ?_⟩
      obtain rfl | ⟨more, rfl⟩ := htail
      · exact .inl ⟨rfl, rfl⟩
      · exact .inr ⟨more, rfl, rfl⟩
    rintro (hexact | ⟨more, hmore⟩)
    · exact hspelled (.inl rfl) hexact
    · exact hspelled (.inr ⟨more, rfl⟩) hmore

theorem Decimal.count_dot {part : List Char} {n : UInt32} (h : Decimal part n) : part.count '.' = 0 :=
  List.count_eq_zero.mpr fun hmem => absurd (h.no_dot _ hmem) (by decide)

/-- Two dots are the version's. -/
theorem Spells.count_dot {v : StrategyVersion} {text more : List Char} (h : Spells v text more) :
    text.count '.' = more.count '.' + 2 := by
  obtain ⟨a, b, c, rfl, ha, hb, hc⟩ := h
  simp only [List.count_append, List.count_cons_self, ha.count_dot, hb.count_dot, hc.count_dot]
  omega

theorem decimal_toString (n : UInt32) : Decimal (toString n).toList n := by
  have hprinted : (toString n).toList = Nat.toDigits 10 n.toNat := by
    rw [show toString n = toString n.toNat from rfl]
    simp
  rw [hprinted]
  exact ⟨by simp, fun c hc => Numeral.isDigit_of_mem_toDigits (by decide) (by decide) hc,
    Numeral.ofDigits_toDigits (by decide) (by decide) n.toNat⟩

theorem spells_to_string (v : StrategyVersion) : Spells v v.to_string.toList [] := by
  refine ⟨_, _, _, ?_, decimal_toString v.major, decimal_toString v.minor, decimal_toString v.patch⟩
  simp [StrategyVersion.to_string, show ".".toList = ['.'] from rfl]

/-- A text is parsed for what all of it says exactly if it does not go on behind a version
and a third dot. What is printed is parsed back. -/
theorem StrategyVersion.parse_exact_iff (text : String) (printed : StrategyVersion) :
    ((∀ v, StrategyVersion.parse text = .ok v ↔ Spells v text.toList []) ↔ ¬ Surplus text.toList) ∧
      StrategyVersion.parse printed.to_string = .ok printed := by
  refine ⟨?_, StrategyVersion.parse_ok_iff.mpr (.inl (spells_to_string printed))⟩
  constructor
  · rintro hexact ⟨v, more, hmore⟩
    have hspells := (hexact v).mp (StrategyVersion.parse_ok_iff.mpr (.inr ⟨more, hmore⟩))
    have hcount := hmore.count_dot
    rw [hspells.count_dot, List.count_cons_self, List.count_nil] at hcount
    omega
  · intro hends v
    rw [StrategyVersion.parse_ok_iff]
    exact or_iff_left fun ⟨more, hmore⟩ => hends ⟨v, more, hmore⟩

/-- What stands behind a third dot is not looked at. -/
theorem StrategyVersion.parse_surplus : StrategyVersion.parse "1.2.3.rc" = .ok { major := 1, minor := 2, patch := 3 } ∧
    ¬ ∀ (text : String) (v : StrategyVersion), StrategyVersion.parse text = .ok v ↔ Spells v text.toList [] := by
  have hparsed : StrategyVersion.parse "1.2.3.rc" = .ok { major := 1, minor := 2, patch := 3 } :=
    Result.toOption_eq_some.mp (by decide +kernel)
  refine ⟨hparsed, fun hexact => ?_⟩
  have hcount := ((hexact _ _).mp hparsed).count_dot
  exact absurd hcount (by decide +kernel)

end ptl.strategy
