import Mathlib.Data.List.Basic
import Mathlib.Logic.Basic

/-! ### Reading back what is written -/

namespace Codec

variable {A B E Byte : Type}

/-- What is read off a stream, with what is left of it. -/
abbrev Reader (Byte E A : Type) := List Byte → Except E (A × List Byte)

/-- A reader takes exactly what a writer writes, for the values that fit. -/
structure Parses (read : Reader Byte E A) (write : A → List Byte) (Fits : A → Prop) : Prop where
  sound : ∀ {input a rest}, read input = .ok (a, rest) → input = write a ++ rest ∧ Fits a
  complete : ∀ {a} rest, Fits a → read (write a ++ rest) = .ok (a, rest)

namespace Parses

variable {read : Reader Byte E A} {write : A → List Byte} {Fits : A → Prop}

/-- Nothing that is cut short is read. -/
theorem not_ok_of_cut (hparses : Parses read write Fits) {a : A} (hfits : Fits a) {input : List Byte}
    (hstart : input <+: write a) (hshort : input ≠ write a) (b : A) (rest : List Byte) :
    read input ≠ .ok (b, rest) := by
  intro hread
  obtain ⟨cut, hcut⟩ := hstart
  obtain ⟨hinput, hb⟩ := hparses.sound hread
  have hwhole : write a = write b ++ (rest ++ cut) := by rw [← hcut, hinput, List.append_assoc]
  have hfirst := hparses.complete [] hfits
  rw [List.append_nil, hwhole, hparses.complete (rest ++ cut) hb] at hfirst
  obtain ⟨-, hrest⟩ := Prod.mk.inj (Except.ok.inj hfirst)
  obtain ⟨-, rfl⟩ := List.append_eq_nil_iff.mp hrest
  exact hshort (by rw [← hcut, List.append_nil])

end Parses

/-! ### Readers after each other -/

/-- One reader, and then one that depends on what was read. -/
def andThen (first : Reader Byte E A) (second : A → Reader Byte E B) : Reader Byte E B := fun input => do
  let (a, rest) ← first input
  second a rest

theorem andThen_ok_iff {first : Reader Byte E A} {second : A → Reader Byte E B} {input rest : List Byte} {b : B} :
    andThen first second input = .ok (b, rest) ↔
      ∃ a between, first input = .ok (a, between) ∧ second a between = .ok (b, rest) := by
  unfold andThen
  cases hfirst : first input with
  | error e => exact iff_of_false (nomatch ·) fun ⟨_, _, hread, _⟩ => nomatch hread
  | ok read =>
    constructor
    · exact fun hsecond => ⟨read.1, read.2, rfl, hsecond⟩
    · rintro ⟨a, between, hread, hsecond⟩
      obtain rfl := Except.ok.inj hread
      exact hsecond

/-- Reads a value, then what `build` makes of it. -/
def mapped (build : A → B) (read : Reader Byte E A) : Reader Byte E B := fun input =>
  (read input).map fun r => (build r.1, r.2)

theorem mapped_ok_iff {build : A → B} {read : Reader Byte E A} {input rest : List Byte} {b : B} :
    mapped build read input = .ok (b, rest) ↔ ∃ a, read input = .ok (a, rest) ∧ build a = b := by
  unfold mapped
  cases hread : read input with
  | error e => exact iff_of_false (nomatch ·) fun ⟨_, hok, _⟩ => nomatch hok
  | ok r =>
    constructor
    · intro hok
      obtain ⟨hbuild, hrest⟩ := Prod.mk.inj (Except.ok.inj hok)
      exact ⟨r.1, by rw [← hrest], hbuild⟩
    · rintro ⟨a, hok, rfl⟩
      rw [Except.ok.inj hok]
      rfl

/-! ### Counted readers -/

/-- As many values as a count says. -/
def many (read : Reader Byte E A) : (n : Nat) → Reader Byte E { l : List A // l.length = n }
  | 0, input => .ok (⟨[], rfl⟩, input)
  | n + 1, input => do
    let (a, rest) ← read input
    let (l, rest) ← many read n rest
    return (⟨a :: l.1, congrArg Nat.succ l.2⟩, rest)

theorem many_succ (read : Reader Byte E A) (n : Nat) :
    many read (n + 1) = andThen read fun a =>
      mapped (fun l => ⟨a :: l.1, congrArg Nat.succ l.2⟩) (many read n) := by
  funext input
  rw [many, andThen]
  cases read input with
  | error e => rfl
  | ok r =>
    unfold mapped
    cases hrest : many read n r.2 with
    | error e => simp [bind, Except.bind, hrest, Except.map]
    | ok l => simp [bind, Except.bind, hrest, Except.map, pure, Except.pure]

theorem Parses.many {read : Reader Byte E A} {write : A → List Byte} {Fits : A → Prop}
    (hparses : Parses read write Fits) (n : Nat) :
    Parses (many read n) (fun l => l.1.flatMap write) (fun l => ∀ a ∈ l.1, Fits a) := by
  induction n with
  | zero =>
    constructor
    · intro input a rest hread
      obtain ⟨rfl, rfl⟩ := Prod.mk.inj (Except.ok.inj hread)
      exact ⟨rfl, fun a ha => nomatch ha⟩
    · intro a rest hfits
      obtain ⟨l, hl⟩ := a
      obtain rfl := List.length_eq_zero_iff.mp hl
      rfl
  | succ n ih =>
    rw [many_succ]
    constructor
    · intro input l rest hread
      obtain ⟨a, between, hfirst, hrest⟩ := andThen_ok_iff.mp hread
      obtain ⟨as, has, rfl⟩ := mapped_ok_iff.mp hrest
      obtain ⟨hinput, hfits⟩ := hparses.sound hfirst
      obtain ⟨hbetween, hall⟩ := ih.sound has
      refine ⟨?_, List.forall_mem_cons.mpr ⟨hfits, hall⟩⟩
      rw [hinput, hbetween, List.flatMap_cons, List.append_assoc]
    · intro l rest hfits
      obtain ⟨l, hl⟩ := l
      obtain ⟨a, as, rfl⟩ := List.exists_cons_of_length_eq_add_one hl
      obtain ⟨ha, has⟩ := List.forall_mem_cons.mp hfits
      refine andThen_ok_iff.mpr ⟨a, as.flatMap write ++ rest, ?_, ?_⟩
      · rw [List.flatMap_cons, List.append_assoc]
        exact hparses.complete _ ha
      · have hrest := ih.complete (a := ⟨as, Nat.succ.inj hl⟩) rest has
        exact mapped_ok_iff.mpr ⟨⟨as, Nat.succ.inj hl⟩, hrest, rfl⟩

/-- A block of as many bytes as a count says. -/
def block (failure : E) (n : Nat) : Reader Byte E { l : List Byte // l.length = n } := fun input =>
  if h : input.length < n then .error failure
  else .ok (⟨input.take n, List.length_take_of_le (Nat.not_lt.mp h)⟩, input.drop n)

theorem block_parses (failure : E) (n : Nat) :
    Parses (block failure n) (fun l : { l : List Byte // l.length = n } => l.1) fun _ => True where
  sound {input a rest} hread := by
    unfold block at hread
    split at hread
    · exact nomatch hread
    · obtain ⟨rfl, rfl⟩ := Prod.mk.inj (Except.ok.inj hread)
      exact ⟨(List.take_append_drop n input).symm, trivial⟩
  complete {a} rest _ := by
    obtain ⟨l, hl⟩ := a
    have hlong : ¬ (l ++ rest).length < n := by
      rw [List.length_append]
      omega
    rw [block, dif_neg hlong]
    simp only [List.take_left' hl, List.drop_left' hl]

end Codec

/-! Records that are read in place: a read that comes up short leaves what it got over the
bytes that were there. -/

namespace Fields

variable {S Byte : Type}

/-- Bytes of a stream over bytes in memory: what is there then, what is left of the stream,
and whether there were enough. -/
def overlay (old input : List Byte) : List Byte × List Byte × Bool :=
  (input.take old.length ++ old.drop input.length, input.drop old.length, old.length ≤ input.length)

/-- A block of the right size replaces what was there. -/
theorem overlay_append {old new : List Byte} (hlength : new.length = old.length) (rest : List Byte) :
    overlay old (new ++ rest) = (new, rest, true) := by
  have hgone : old.drop (new ++ rest).length = [] := by
    rw [List.drop_eq_nil_iff, List.length_append]
    omega
  have hlong : decide (old.length ≤ (new ++ rest).length) = true := by
    rw [decide_eq_true_eq, List.length_append]
    omega
  rw [overlay, hgone, hlong, List.take_left' hlength, List.drop_left' hlength, List.append_nil]

/-- A part of a record, as the bytes it has in memory. -/
structure Field (S Byte : Type) where
  get : S → List Byte
  set : List Byte → S → S

def Field.read (f : Field S Byte) (s : S) (input : List Byte) : S × List Byte × Bool :=
  let (found, rest, whole) := overlay (f.get s) input
  (f.set found s, rest, whole)

/-- One field after the other, until one is cut short. -/
def read_fields : List (Field S Byte) → S → List Byte → S × List Byte × Bool
  | [], s, input => (s, input, true)
  | f :: fs, s, input =>
    match f.read s input with
    | (s, rest, true) => read_fields fs s rest
    | (s, rest, false) => (s, rest, false)

def write_fields (fs : List (Field S Byte)) (s : S) : List Byte := fs.flatMap fun f => f.get s

/-- The record after its fields are those of another. -/
def copied (fs : List (Field S Byte)) (source s : S) : S := fs.foldl (fun s f => f.set (f.get source) s) s

/-- A field of one size in every record. -/
def Field.Sized (f : Field S Byte) : Prop := ∀ s t, (f.get s).length = (f.get t).length

/-- What was written of one record is read into another. -/
theorem read_fields_append {fs : List (Field S Byte)} (hsized : ∀ f ∈ fs, f.Sized) (source s : S)
    (rest : List Byte) : read_fields fs s (write_fields fs source ++ rest) = (copied fs source s, rest, true) := by
  induction fs generalizing s with
  | nil => rfl
  | cons f fs ih =>
    obtain ⟨hfirst, hrest⟩ := List.forall_mem_cons.mp hsized
    have hread : f.read s (f.get source ++ (write_fields fs source ++ rest)) =
        (f.set (f.get source) s, write_fields fs source ++ rest, true) := by
      rw [Field.read, overlay_append (hfirst source s)]
    rw [write_fields, List.flatMap_cons, List.append_assoc, ← write_fields, read_fields, hread]
    exact ih hrest _

end Fields
