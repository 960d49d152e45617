import Mathlib.Algebra.Group.Nat.Defs
import Mathlib.Data.Nat.ModEq

/-!
Linear congruential generators, and what the low bits of their states depend on.
-/
namespace Congruential

structure Generator where
  multiplier : Nat
  increment : Nat
  modulus : Nat
  deriving DecidableEq, Repr

def Generator.next (generator : Generator) (state : Nat) : Nat :=
  (generator.multiplier * state + generator.increment) % generator.modulus

def Generator.state (generator : Generator) (seed : Nat) : Nat → Nat
  | 0 => seed
  | steps + 1 => generator.next (generator.state seed steps)

variable (generator : Generator)

theorem next_congr (divisor left right : Nat) (divides : divisor ∣ generator.modulus)
    (same : left ≡ right [MOD divisor]) :
    generator.next left ≡ generator.next right [MOD divisor] := by
  unfold Generator.next Nat.ModEq
  rw [Nat.mod_mod_of_dvd _ divides, Nat.mod_mod_of_dvd _ divides]
  exact (same.mul_left generator.multiplier).add_right generator.increment

/-- Low digits of a seed decide the same digits of every later state. -/
theorem state_congr (divisor left right : Nat) (divides : divisor ∣ generator.modulus)
    (same : left ≡ right [MOD divisor]) (steps : Nat) :
    generator.state left steps ≡ generator.state right steps [MOD divisor] := by
  induction steps with
  | zero => exact same
  | succ steps ih => exact next_congr generator divisor _ _ divides ih

theorem next_cancel (divisor left right : Nat) (divides : divisor ∣ generator.modulus)
    (coprime : Nat.Coprime divisor generator.multiplier)
    (same : generator.next left ≡ generator.next right [MOD divisor]) :
    left ≡ right [MOD divisor] := by
  unfold Generator.next Nat.ModEq at same
  rw [Nat.mod_mod_of_dvd _ divides, Nat.mod_mod_of_dvd _ divides] at same
  have scaled : generator.multiplier * left ≡ generator.multiplier * right [MOD divisor] :=
    Nat.ModEq.add_right_cancel' generator.increment same
  exact Nat.ModEq.cancel_left_of_coprime coprime scaled

theorem digits_iff (low middle left right : Nat) :
    left ≡ right [MOD low * middle] ↔
      left ≡ right [MOD low] ∧ left / low % middle = right / low % middle := by
  unfold Nat.ModEq
  constructor
  · intro same
    refine ⟨?_, ?_⟩
    · rw [← Nat.mod_mul_right_mod left low middle, same, Nat.mod_mul_right_mod]
    · rw [← Nat.mod_mul_right_div_self, same, Nat.mod_mul_right_div_self]
  · rintro ⟨below, within⟩
    rw [Nat.mod_mul, Nat.mod_mul, below, within]

end Congruential
