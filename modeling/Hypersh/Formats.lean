import Mathlib.Data.List.Basic
import Hypersh.Numerals

/-!
Text formats that carry their own round trip. A format prints a value and reads one off
the front of a text; what it has printed is read back, whatever comes after it within
what the format allows. Larger formats are put together from smaller ones.
-/
namespace Formats
open Numerals
variable {Value Other : Type}

structure Format (Value : Type) where
  print : Value → List Char
  read : List Char → Option (Value × List Char)
  fits : Value → Prop
  ends : List Char → Prop
  inverts : ∀ value rest, fits value → ends rest → read (print value ++ rest) = some (value, rest)

theorem Format.reads (format : Format Value) (value : Value) (fits : format.fits value)
    (ends : format.ends []) : format.read (format.print value) = some (value, []) := by
  have read := format.inverts value [] fits ends
  rwa [List.append_nil] at read

/-! Fixed text. -/

def expect : List Char → List Char → Option (List Char)
  | [], input => some input
  | _ :: _, [] => none
  | letter :: text, first :: input => if letter = first then expect text input else none

theorem expect_append (text rest : List Char) : expect text (text ++ rest) = some rest := by
  induction text with
  | nil => rfl
  | cons letter text ih => simp only [List.cons_append, expect, ↓reduceIte, ih]

/-- The value behind a fixed text. -/
def Format.before (text : List Char) (format : Format Value) : Format Value where
  print value := text ++ format.print value
  read input := (expect text input).bind format.read
  fits := format.fits
  ends := format.ends
  inverts := by
    intro value rest fits ends
    rw [List.append_assoc, expect_append, Option.bind_some]
    exact format.inverts value rest fits ends

@[simp]
theorem before_print (text : List Char) (format : Format Value) (value : Value) :
    (Format.before text format).print value = text ++ format.print value := rfl

/-- The value up to a fixed text. -/
def Format.behind (format : Format Value) (text : List Char)
    (meets : ∀ rest, format.ends (text ++ rest)) : Format Value where
  print value := format.print value ++ text
  read input := (format.read input).bind fun found =>
    (expect text found.2).map fun rest => (found.1, rest)
  fits := format.fits
  ends _ := True
  inverts := by
    intro value rest fits _
    rw [List.append_assoc, format.inverts value (text ++ rest) fits (meets rest),
      Option.bind_some, expect_append]
    rfl

@[simp]
theorem behind_print (format : Format Value) (text : List Char)
    (meets : ∀ rest, format.ends (text ++ rest)) (value : Value) :
    (format.behind text meets).print value = format.print value ++ text := rfl

/-! Two values and many. -/

def Format.pair (first : Format Value) (second : Format Other)
    (meets : ∀ value rest, second.fits value → second.ends rest →
      first.ends (second.print value ++ rest)) : Format (Value × Other) where
  print value := first.print value.1 ++ second.print value.2
  read input := (first.read input).bind fun found =>
    (second.read found.2).map fun later => ((found.1, later.1), later.2)
  fits value := first.fits value.1 ∧ second.fits value.2
  ends := second.ends
  inverts := by
    intro value rest fits ends
    rw [List.append_assoc, first.inverts value.1 _ fits.1 (meets value.2 rest fits.2 ends),
      Option.bind_some, second.inverts value.2 rest fits.2 ends]
    rfl

@[simp]
theorem pair_print (first : Format Value) (second : Format Other)
    (meets : ∀ value rest, second.fits value → second.ends rest →
      first.ends (second.print value ++ rest)) (value : Value × Other) :
    (first.pair second meets).print value = first.print value.1 ++ second.print value.2 := rfl

/-- Values of another type with the same texts. -/
def Format.along (format : Format Value) (into : Value → Other) (back : Other → Value)
    (inverse : ∀ other, into (back other) = other) : Format Other where
  print other := format.print (back other)
  read input := (format.read input).map fun found => (into found.1, found.2)
  fits other := format.fits (back other)
  ends := format.ends
  inverts := by
    intro other rest fits ends
    rw [format.inverts (back other) rest fits ends, Option.map_some, inverse]

@[simp]
theorem along_print (format : Format Value) (into : Value → Other) (back : Other → Value)
    (inverse : ∀ other, into (back other) = other) (other : Other) :
    (format.along into back inverse).print other = format.print (back other) := rfl

/-- At most so many values, as long as one can be read. -/
def readMany (item : Format Value) : Nat → List Char → List Value × List Char
  | 0, input => ([], input)
  | more + 1, input =>
      match item.read input with
      | none => ([], input)
      | some (value, rest) =>
          (value :: (readMany item more rest).1, (readMany item more rest).2)

theorem read_many_printed (item : Format Value) (closed : ∀ rest, item.ends rest)
    (values : List Value) (rest : List Char) (most : Nat) (enough : values.length ≤ most)
    (fits : ∀ value ∈ values, item.fits value) (stops : item.read rest = none) :
    readMany item most (values.flatMap item.print ++ rest) = (values, rest) := by
  induction values generalizing most with
  | nil =>
      cases most with
      | zero => rfl
      | succ more => simp only [List.flatMap_nil, List.nil_append, readMany, stops]
  | cons value values ih =>
      obtain ⟨more, rfl⟩ := Nat.exists_eq_add_of_le' (Nat.le_trans (Nat.succ_pos _) enough)
      obtain ⟨here, later⟩ := List.forall_mem_cons.mp fits
      have read := item.inverts value (values.flatMap item.print ++ rest) here (closed _)
      have tail := ih more (Nat.le_of_succ_le_succ enough) later
      rw [List.flatMap_cons, List.append_assoc, readMany, read]
      dsimp only
      rw [tail]

def Format.many (item : Format Value) (closed : ∀ rest, item.ends rest)
    (present : ∀ value, item.print value ≠ []) : Format (List Value) where
  print values := values.flatMap item.print
  read input := some (readMany item input.length input)
  fits values := ∀ value ∈ values, item.fits value
  ends rest := item.read rest = none
  inverts := by
    intro values rest fits stops
    have long : values.length ≤ (values.flatMap item.print).length := by
      induction values with
      | nil => exact Nat.le_refl 0
      | cons value values ih =>
          have some_ := List.length_pos_iff.mpr (present value)
          have later := ih fun next member => fits next (List.mem_cons_of_mem value member)
          rw [List.flatMap_cons, List.length_append, List.length_cons]
          omega
    have enough : values.length ≤ (values.flatMap item.print ++ rest).length := by
      rw [List.length_append]
      omega
    rw [read_many_printed item closed values rest _ enough fits stops]

@[simp]
theorem many_print (item : Format Value) (closed : ∀ rest, item.ends rest)
    (present : ∀ value, item.print value ≠ []) (values : List Value) :
    (item.many closed present).print values = values.flatMap item.print := rfl

/-! Letters, words and numerals. -/

def flag (yes no : Char) (apart : no ≠ yes) : Format Bool where
  print value := [if value then yes else no]
  read
    | [] => none
    | letter :: rest =>
        if letter = yes then some (true, rest)
        else if letter = no then some (false, rest) else none
  fits _ := True
  ends _ := True
  inverts := by
    intro value rest _ _
    cases value with
    | true => simp
    | false => simp [apart]

@[simp]
theorem flag_print (yes no : Char) (apart : no ≠ yes) (value : Bool) :
    (flag yes no apart).print value = [if value then yes else no] := rfl

def upTo (stop : Char) : Format (List Char) where
  print word := word
  read input := some (input.takeWhile (· != stop), input.dropWhile (· != stop))
  fits word := stop ∉ word
  ends rest := rest.head? = some stop
  inverts := by
    intro word rest absent ends
    obtain ⟨later, rfl⟩ := List.head?_eq_some_iff.mp ends
    have apart : ∀ letter ∈ word, (letter != stop) = true := fun letter member =>
      bne_iff_ne.mpr fun same => absent (same ▸ member)
    rw [List.takeWhile_append_of_pos apart, List.dropWhile_append_of_pos apart]
    simp

@[simp]
theorem up_to_print (stop : Char) (word : List Char) : (upTo stop).print word = word := rfl

def digits (base : Nat) (text : List Char) : List Char :=
  text.takeWhile fun letter => (digit base letter).isSome

theorem digits_append (base : Nat) (front rest : List Char) (all : AllDigits base front)
    (ends : rest.head?.bind (digit base) = none) : digits base (front ++ rest) = front := by
  have known : ∀ letter ∈ front, (digit base letter).isSome = true := by
    intro letter member
    obtain ⟨value, read⟩ := all letter member
    rw [read]
    rfl
  unfold digits
  rw [List.takeWhile_append_of_pos known]
  cases rest with
  | nil => simp
  | cons letter later =>
      have none_ : digit base letter = none := ends
      simp [none_]

theorem zeros_digits (base count : Nat) (positive : 0 < base) :
    AllDigits base (List.replicate count '0') := by
  intro letter member
  obtain rfl := List.eq_of_mem_replicate member
  refine ⟨0, ?_⟩
  have zero : digitValue '0' = some 0 := rfl
  simp [digit, zero, positive]

theorem zeros_magnitude (base count : Nat) (positive : 0 < base) :
    magnitude base 0 (List.replicate count '0') = 0 := by
  have zero : digit base '0' = some 0 := by
    have value : digitValue '0' = some 0 := rfl
    simp [digit, value, positive]
  induction count with
  | zero => rfl
  | succ count ih =>
      simp only [List.replicate_succ, magnitude, zero, Nat.mul_zero, Nat.add_zero, ih]

/-- The digits of a number, with zeros in front up to a width. -/
def numeral (base width : Nat) (value : Nat) : List Char :=
  List.replicate (width - (Nat.toDigits base value).length) '0' ++ Nat.toDigits base value

theorem numeral_plain (base value : Nat) : numeral base 0 value = Nat.toDigits base value := by
  rw [numeral, Nat.zero_sub]
  rfl

theorem numeral_digits (base width value : Nat) (binary : 1 < base) (small : base ≤ 16) :
    AllDigits base (numeral base width value) :=
  (allDigits_append base _ _).mpr
    ⟨zeros_digits base _ (Nat.lt_of_succ_lt binary), allDigits_toDigits base value binary small⟩

theorem numeral_magnitude (base width value : Nat) (binary : 1 < base) (small : base ≤ 16) :
    magnitude base 0 (numeral base width value) = value := by
  have positive := Nat.lt_of_succ_lt binary
  rw [numeral, magnitude_append base 0 _ _ (zeros_digits base _ positive),
    zeros_magnitude base _ positive, magnitude_toDigits base value binary small]

theorem numeral_present (base width value : Nat) : numeral base width value ≠ [] := by
  intro empty
  exact Nat.toDigits_ne_nil (List.append_eq_nil_iff.mp empty).2

def number (base width : Nat) (binary : 1 < base) (small : base ≤ 16) : Format Nat where
  print := numeral base width
  read input :=
    if digits base input = [] then none
    else some (magnitude base 0 (digits base input), input.drop (digits base input).length)
  fits _ := True
  ends rest := rest.head?.bind (digit base) = none
  inverts := by
    intro value rest _ ends
    have all := numeral_digits base width value binary small
    rw [digits_append base _ rest all ends, if_neg (numeral_present base width value),
      numeral_magnitude base width value binary small, List.drop_left]

@[simp]
theorem number_print (base width : Nat) (binary : 1 < base) (small : base ≤ 16) (value : Nat) :
    (number base width binary small).print value = numeral base width value := rfl

/-! Texts that cannot be read. -/

theorem before_stops (text : List Char) (format : Format Value) (input : List Char)
    (stops : expect text input = none) : (Format.before text format).read input = none :=
  Option.bind_eq_none_iff.mpr fun rest found => by simp [stops] at found

theorem behind_stops (format : Format Value) (text : List Char)
    (meets : ∀ rest, format.ends (text ++ rest)) (input : List Char)
    (stops : format.read input = none) : (format.behind text meets).read input = none :=
  Option.bind_eq_none_iff.mpr fun rest found => by simp [stops] at found

theorem pair_stops (first : Format Value) (second : Format Other)
    (meets : ∀ value rest, second.fits value → second.ends rest →
      first.ends (second.print value ++ rest)) (input : List Char)
    (stops : first.read input = none) : (first.pair second meets).read input = none :=
  Option.bind_eq_none_iff.mpr fun rest found => by simp [stops] at found

theorem number_stops (base width : Nat) (binary : 1 < base) (small : base ≤ 16)
    (input : List Char) (ends : input.head?.bind (digit base) = none) :
    (number base width binary small).read input = none := by
  have none_ := digits_append base [] input (fun _ absent => absurd absent List.not_mem_nil) ends
  rw [List.nil_append] at none_
  exact if_pos none_

end Formats
