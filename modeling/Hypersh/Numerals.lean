import Mathlib.Data.Nat.Basic
import Mathlib.Tactic.Linarith

/-!
Numerals as the C library writes and reads them: `strtol` with base 0, which
saturates, and `%p`. The digits come from `Nat.toDigits`, so they are the shortest
ones and lower case.
-/
namespace Numerals

def isSpace (letter : Char) : Bool := letter == ' ' || ('\t' ≤ letter && letter ≤ '\r')

def digitValue (letter : Char) : Option Nat :=
  if '0' ≤ letter ∧ letter ≤ '9' then some (letter.toNat - '0'.toNat)
  else if 'a' ≤ letter ∧ letter ≤ 'z' then some (letter.toNat - 'a'.toNat + 10)
  else if 'A' ≤ letter ∧ letter ≤ 'Z' then some (letter.toNat - 'A'.toNat + 10)
  else none

def digit (base : Nat) (letter : Char) : Option Nat :=
  (digitValue letter).filter fun value => decide (value < base)

/-- The number before the first letter that is no digit. -/
def magnitude (base init : Nat) : List Char → Nat
  | [] => init
  | letter :: rest =>
      match digit base letter with
      | none => init
      | some value => magnitude base (base * init + value) rest

/-- The base is read off the text: 16 after `0x` and a digit, 8 after `0`, else 10. -/
def unsigned : List Char → Nat
  -- `0x` without a hexadecimal digit behind it is the octal number 0.
  | '0' :: mark :: first :: rest =>
      if (mark = 'x' ∨ mark = 'X') ∧ (digit 16 first).isSome then magnitude 16 0 (first :: rest)
      else magnitude 8 0 (mark :: first :: rest)
  | '0' :: rest => magnitude 8 0 rest
  | text => magnitude 10 0 text

def signed : List Char → Int
  | '-' :: rest => -unsigned rest
  | '+' :: rest => unsigned rest
  | text => unsigned text

def strtol (text : List Char) : Int :=
  max (-2 ^ 63) (min (signed (text.dropWhile isSpace)) (2 ^ 63 - 1))

/-- The conversion of a `long` to `uint64_t`. -/
def longBits (value : Int) : UInt64 := UInt64.ofInt value

theorem longBits_ofInt (value : Int) : longBits value = (Int64.ofInt value).toUInt64 := by
  have bits : (Int64.ofInt value).toUInt64.toNat = (value % 2 ^ 64).toNat :=
    BitVec.toNat_ofInt value
  rw [← UInt64.toNat_inj, bits, longBits, UInt64.ofInt, UInt64.toNat_ofNat']
  omega

/-- `%p`. -/
def pointer (value : UInt64) : List Char :=
  if value = 0 then "(nil)".toList else '0' :: 'x' :: Nat.toDigits 16 value.toNat

/-- `%u`. -/
def decimal (value : Nat) : List Char := Nat.toDigits 10 value

def hexadecimal (value : UInt64) : List Char := '0' :: 'x' :: Nat.toDigits 16 value.toNat

def signedDecimal (value : Int) : List Char :=
  if value < 0 then '-' :: Nat.toDigits 10 value.natAbs else Nat.toDigits 10 value.natAbs

/-! Digits. -/

def AllDigits (base : Nat) (text : List Char) : Prop :=
  ∀ letter ∈ text, ∃ value, digit base letter = some value

theorem digit_digitChar (base value : Nat) (small : base ≤ 16) (low : value < base) :
    digit base (Nat.digitChar value) = some value := by
  have known : ∀ value : Fin 16, digitValue (Nat.digitChar value) = some value.val := by decide
  rw [digit, known ⟨value, by omega⟩]
  simp [low]

theorem allDigits_append (base : Nat) (front back : List Char) :
    AllDigits base (front ++ back) ↔ AllDigits base front ∧ AllDigits base back := by
  simp only [AllDigits, List.mem_append, or_imp, forall_and]

theorem toDigits_letter (base value : Nat) (binary : 1 < base) (letter : Char)
    (member : letter ∈ Nat.toDigits base value) :
    ∃ digit, digit < base ∧ letter = Nat.digitChar digit := by
  induction value using Nat.strongRecOn with
  | ind value ih =>
      rw [Nat.toDigits_eq_if binary] at member
      split at member
      · rename_i low
        exact ⟨value, low, List.mem_singleton.mp member⟩
      · rename_i high
        rcases List.mem_append.mp member with early | last
        · exact ih (value / base) (Nat.div_lt_self (by omega) binary) early
        · exact ⟨value % base, Nat.mod_lt value (by omega), List.mem_singleton.mp last⟩

theorem allDigits_toDigits (base value : Nat) (binary : 1 < base) (small : base ≤ 16) :
    AllDigits base (Nat.toDigits base value) := by
  intro letter member
  rcases toDigits_letter base value binary letter member with ⟨digit, low, rfl⟩
  exact ⟨digit, digit_digitChar base digit small low⟩

theorem magnitude_append (base init : Nat) (front back : List Char)
    (digits : AllDigits base front) :
    magnitude base init (front ++ back) = magnitude base (magnitude base init front) back := by
  induction front generalizing init with
  | nil => rfl
  | cons letter rest ih =>
      rcases digits letter List.mem_cons_self with ⟨value, read⟩
      simp only [List.cons_append, magnitude, read]
      exact ih _ fun later member => digits later (List.mem_cons_of_mem _ member)

theorem magnitude_digitChar (base init value : Nat) (small : base ≤ 16) (low : value < base) :
    magnitude base init [Nat.digitChar value] = base * init + value := by
  simp only [magnitude, digit_digitChar base value small low]

theorem magnitude_toDigits (base value : Nat) (binary : 1 < base) (small : base ≤ 16) :
    magnitude base 0 (Nat.toDigits base value) = value := by
  induction value using Nat.strongRecOn with
  | ind value ih =>
      rw [Nat.toDigits_eq_if binary]
      split
      · rename_i low
        rw [magnitude_digitChar base 0 value small low, Nat.mul_zero, Nat.zero_add]
      · rename_i high
        have smaller : value / base < value := Nat.div_lt_self (by omega) binary
        have low : value % base < base := Nat.mod_lt value (by omega)
        rw [magnitude_append base 0 _ _ (allDigits_toDigits base _ binary small), ih _ smaller,
          magnitude_digitChar base _ _ small low]
        exact Nat.div_add_mod value base

theorem magnitude_init (base init : Nat) (text : List Char) (digits : AllDigits base text) :
    base ^ text.length * init ≤ magnitude base init text := by
  induction text generalizing init with
  | nil => simp [magnitude]
  | cons letter rest ih =>
      rcases digits letter List.mem_cons_self with ⟨value, read⟩
      have later := ih (base * init + value) fun later member =>
        digits later (List.mem_cons_of_mem _ member)
      simp only [magnitude, read, List.length_cons]
      calc base ^ (rest.length + 1) * init
          = base ^ rest.length * (base * init) := by rw [Nat.pow_succ, Nat.mul_assoc]
        _ ≤ base ^ rest.length * (base * init + value) :=
            Nat.mul_le_mul_left _ (Nat.le_add_right _ _)
        _ ≤ _ := later

theorem magnitude_take_lt (base value kept : Nat) (binary : 1 < base) (small : base ≤ 16)
    (positive : 0 < value) (cut : kept < (Nat.toDigits base value).length) :
    magnitude base 0 ((Nat.toDigits base value).take kept) < value := by
  have digits := allDigits_toDigits base value binary small
  rw [← List.take_append_drop kept (Nat.toDigits base value)] at digits
  rcases (allDigits_append base _ _).mp digits with ⟨front, back⟩
  have whole := magnitude_toDigits base value binary small
  rw [← List.take_append_drop kept (Nat.toDigits base value),
    magnitude_append base 0 _ _ front] at whole
  have grown := magnitude_init base
    (magnitude base 0 ((Nat.toDigits base value).take kept)) _ back
  rw [whole, List.length_drop] at grown
  have factor : 2 ≤ base ^ ((Nat.toDigits base value).length - kept) :=
    Nat.le_trans binary (Nat.le_self_pow (by omega) base)
  by_contra large
  have doubled := Nat.mul_le_mul factor (Nat.le_of_not_lt large)
  omega

/-! Reading back what `%p` wrote. -/

theorem strtol_hex (text : List Char) (digits : AllDigits 16 text) (present : text ≠ []) :
    strtol ('0' :: 'x' :: text) = min (magnitude 16 0 text : Int) (2 ^ 63 - 1) := by
  cases text with
  | nil => contradiction
  | cons letter rest =>
      rcases digits letter List.mem_cons_self with ⟨value, read⟩
      have number : signed ('0' :: 'x' :: letter :: rest) = magnitude 16 0 (letter :: rest) := by
        simp [signed, unsigned, read]
      rw [strtol, List.dropWhile_cons_of_neg (by decide), number]
      omega

theorem strtol_nil : strtol "(nil)".toList = 0 := by decide

theorem toNat_longBits (value : Nat) (low : value < 2 ^ 64) :
    (longBits (value : Int)).toNat = value := by
  simp [longBits, UInt64.ofInt]
  omega

theorem strtol_hexadecimal (value : UInt64) :
    strtol (hexadecimal value) = ((min value.toNat (2 ^ 63 - 1) : Nat) : Int) := by
  rw [hexadecimal, strtol_hex _ (allDigits_toDigits 16 _ (by decide) (by decide))
    Nat.toDigits_ne_nil, magnitude_toDigits 16 _ (by decide) (by decide)]
  omega

/-- The text of a pointer is read as the pointer up to the largest `long`. -/
theorem strtol_pointer (value : UInt64) :
    strtol (pointer value) = ((min value.toNat (2 ^ 63 - 1) : Nat) : Int) := by
  unfold pointer
  split
  · rename_i zero
    rw [zero, strtol_nil]
    rfl
  · exact strtol_hexadecimal value

theorem pointer_survives_iff (value : UInt64) :
    longBits (strtol (pointer value)) = value ↔ value.toNat < 2 ^ 63 := by
  rw [strtol_pointer, ← UInt64.toNat_inj, toNat_longBits _ (by omega)]
  omega

/-- A pointer that loses digits is read as a smaller one. -/
theorem pointer_cut (value : UInt64) (kept : Nat) (digits : 3 ≤ kept) (present : value ≠ 0)
    (cut : kept < (pointer value).length) :
    longBits (strtol ((pointer value).take kept)) ≠ value := by
  rcases Nat.exists_eq_add_of_le' digits with ⟨more, rfl⟩
  simp only [pointer, present, ↓reduceIte, List.length_cons] at cut ⊢
  have positive : 0 < value.toNat :=
    Nat.pos_of_ne_zero fun zero => present (UInt64.toNat_inj.mp zero)
  have smaller := magnitude_take_lt 16 value.toNat (more + 1) (by decide) (by decide) positive
    (by omega)
  have front : AllDigits 16 ((Nat.toDigits 16 value.toNat).take (more + 1)) :=
    fun letter member => allDigits_toDigits 16 value.toNat (by decide) (by decide) letter
      (List.mem_of_mem_take member)
  have nonempty : (Nat.toDigits 16 value.toNat).take (more + 1) ≠ [] := by
    simp [List.take_eq_nil_iff, Nat.toDigits_ne_nil]
  have read : strtol ('0' :: 'x' :: (Nat.toDigits 16 value.toNat).take (more + 1)) =
      ((min (magnitude 16 0 ((Nat.toDigits 16 value.toNat).take (more + 1))) (2 ^ 63 - 1) : Nat) :
        Int) := by
    rw [strtol_hex _ front nonempty]
    omega
  intro same
  have bits := congrArg UInt64.toNat same
  rw [List.take_succ_cons, List.take_succ_cons, read, toNat_longBits _ (by omega)] at bits
  omega

theorem pointer_length (value : UInt64) : (pointer value).length ≤ 18 := by
  unfold pointer
  split
  · decide
  · have digits : (Nat.toDigits 16 value.toNat).length ≤ 16 :=
      (Nat.length_toDigits_le_iff (by decide) (by decide)).mpr value.toNat_lt
    rw [List.length_cons, List.length_cons]
    omega

theorem hexadecimal_survives (value : UInt64) (low : value.toNat < 2 ^ 63) :
    longBits (strtol (hexadecimal value)) = value := by
  rw [strtol_hexadecimal, ← UInt64.toNat_inj, toNat_longBits _ (by omega)]
  omega

theorem hexadecimal_length (value : UInt64) (digits : Nat) (positive : 0 < digits)
    (low : value.toNat < 16 ^ digits) : (hexadecimal value).length ≤ digits + 2 := by
  have length := (Nat.length_toDigits_le_iff (by decide) positive).mpr low
  rw [hexadecimal, List.length_cons, List.length_cons]
  omega

theorem signedDecimal_length (value : Int) (digits : Nat) (positive : 0 < digits)
    (low : value.natAbs < 10 ^ digits) : (signedDecimal value).length ≤ digits + 1 := by
  have length := (Nat.length_toDigits_le_iff (by decide) positive).mpr low
  unfold signedDecimal
  split
  · rw [List.length_cons]
    omega
  · omega

/-! Reading back what `%d` wrote. -/

theorem toDigits_first (base value : Nat) (binary : 1 < base) :
    ∃ first rest, first < base ∧ Nat.toDigits base value = Nat.digitChar first :: rest := by
  rcases List.exists_cons_of_ne_nil (Nat.toDigits_ne_nil (n := value) (b := base)) with
    ⟨letter, rest, text⟩
  have member : letter ∈ Nat.toDigits base value := by
    rw [text]
    exact List.mem_cons_self
  rcases toDigits_letter base value binary letter member with ⟨first, low, rfl⟩
  exact ⟨first, rest, low, text⟩

theorem toDigits_leading (base value : Nat) (binary : 1 < base) (small : base ≤ 16)
    (positive : 0 < value) (rest : List Char) : Nat.toDigits base value ≠ '0' :: rest := by
  have known : ∀ first : Fin 16, Nat.digitChar first = '0' → first = 0 := by decide
  induction value using Nat.strongRecOn generalizing rest with
  | ind value ih =>
      intro leading
      rw [Nat.toDigits_eq_if binary] at leading
      split at leading
      · rename_i low
        have zero := known ⟨value, by omega⟩ (List.cons.inj leading).1
        exact absurd (congrArg Fin.val zero) (Nat.ne_of_gt positive)
      · rename_i high
        have smaller : value / base < value := Nat.div_lt_self positive binary
        rcases toDigits_first base (value / base) binary with ⟨first, more, -, text⟩
        rw [text, List.cons_append] at leading
        apply ih (value / base) smaller (Nat.div_pos (Nat.le_of_not_lt high) (by omega)) more
        rw [text, (List.cons.inj leading).1]

theorem unsigned_decimal (value : Nat) : unsigned (Nat.toDigits 10 value) = value := by
  rcases Nat.eq_zero_or_pos value with rfl | positive
  · decide
  · have leading := toDigits_leading 10 value (by decide) (by decide) positive
    have read := magnitude_toDigits 10 value (by decide) (by decide)
    unfold unsigned
    split
    · rename_i text
      exact absurd text (leading _)
    · rename_i text
      exact absurd text (leading _)
    · exact read

theorem signed_signedDecimal (value : Int) :
    signed ((signedDecimal value).dropWhile isSpace) = value := by
  have known : ∀ first : Fin 10, Nat.digitChar first ≠ '-' ∧ Nat.digitChar first ≠ '+' ∧
      isSpace (Nat.digitChar first) = false := by decide
  unfold signedDecimal
  split
  · rw [List.dropWhile_cons_of_neg (by decide), signed, unsigned_decimal]
    omega
  · rcases toDigits_first 10 value.natAbs (by decide) with ⟨first, rest, low, text⟩
    rcases known ⟨first, low⟩ with ⟨minus, plus, blank⟩
    have digits := unsigned_decimal value.natAbs
    rw [text] at digits ⊢
    rw [List.dropWhile_cons_of_neg (by rw [blank]; decide)]
    unfold signed
    split
    · rename_i same
      exact absurd (List.cons.inj same).1 minus
    · rename_i same
      exact absurd (List.cons.inj same).1 plus
    · rw [digits]
      omega

theorem strtol_signedDecimal (value : Int) (low : -2 ^ 63 ≤ value) (high : value < 2 ^ 63) :
    strtol (signedDecimal value) = value := by
  rw [strtol, signed_signedDecimal]
  omega

end Numerals
