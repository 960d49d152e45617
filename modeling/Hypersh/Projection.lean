import Mathlib.Algebra.BigOperators.Ring.Finset
import Mathlib.Algebra.BigOperators.Group.Finset.Piecewise

/-!
Amounts credited to keys, and sums that weigh each amount by its key. Such a sum is
decided by the totals of the keys.
-/
namespace Projection
variable {Key Amount : Type}

def total [DecidableEq Key] [Add Amount] [Zero Amount] (key : Key) :
    List (Key × Amount) → Amount
  | [] => 0
  | credit :: rest => (if credit.1 = key then credit.2 else 0) + total key rest

def weighted [Add Amount] [Mul Amount] [Zero Amount] (weight : Key → Amount) :
    List (Key × Amount) → Amount
  | [] => 0
  | credit :: rest => weight credit.1 * credit.2 + weighted weight rest

section Semiring
variable [DecidableEq Key] [CommSemiring Amount]

theorem weighted_totals (weight : Key → Amount) (keys : Finset Key)
    (credits : List (Key × Amount)) (covered : ∀ credit ∈ credits, credit.1 ∈ keys) :
    weighted weight credits = ∑ key ∈ keys, weight key * total key credits := by
  induction credits with
  | nil => simp [weighted, total]
  | cons credit rest ih =>
      have here := covered credit List.mem_cons_self
      have later := ih fun other member => covered other (List.mem_cons_of_mem credit member)
      have own : ∑ key ∈ keys, weight key * (if credit.1 = key then credit.2 else 0) =
          weight credit.1 * credit.2 := by
        simp [mul_ite, here]
      simp only [weighted, total, mul_add, Finset.sum_add_distrib, own, later]

theorem weighted_congr (weight : Key → Amount) (left right : List (Key × Amount))
    (same : ∀ key, total key left = total key right) :
    weighted weight left = weighted weight right := by
  have covers : ∀ credits : List (Key × Amount), ∀ credit ∈ credits,
      credit.1 ∈ (credits.map Prod.fst).toFinset := by
    intro credits credit member
    exact List.mem_toFinset.mpr (List.mem_map_of_mem member)
  let keys := (left.map Prod.fst).toFinset ∪ (right.map Prod.fst).toFinset
  rw [weighted_totals weight keys left fun credit member =>
      Finset.mem_union_left _ (covers left credit member),
    weighted_totals weight keys right fun credit member =>
      Finset.mem_union_right _ (covers right credit member)]
  exact Finset.sum_congr rfl fun key _ => congrArg (weight key * ·) (same key)

theorem total_append (key : Key) (front back : List (Key × Amount)) :
    total key (front ++ back) = total key front + total key back := by
  induction front with
  | nil => exact (zero_add _).symm
  | cons credit rest ih => simp only [List.cons_append, total, ih, add_assoc]

theorem total_perm (key : Key) (left right : List (Key × Amount)) (perm : left.Perm right) :
    total key left = total key right := by
  induction perm with
  | nil => rfl
  | cons credit _ ih => simp only [total, ih]
  | swap first second rest => simp only [total, add_left_comm]
  | trans _ _ before after => exact before.trans after

/-- One credit is as good as two that add up to it. -/
theorem total_split (key at_ : Key) (first second : Amount) (front back : List (Key × Amount)) :
    total key (front ++ (at_, first + second) :: back) =
      total key (front ++ (at_, first) :: (at_, second) :: back) := by
  rw [total_append, total_append]
  by_cases here : at_ = key
  · simp only [total, here, if_true, add_assoc]
  · simp only [total, here, if_false, zero_add]

end Semiring
end Projection
