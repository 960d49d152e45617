import Mathlib.Algebra.Group.Nat.Defs
import Mathlib.Data.List.Basic
import Mathlib.Data.UInt
import Mathlib.Tactic.FinCases
import Hypersh.Congruential
import Hypersh.Projection

/-!
The basic-block vectors of host/trace/bbv_count.cc: counts of blocks projected onto
sixteen dimensions by rows that are generated again for every call.
-/
namespace Hypersh.BbvCount
open Congruential Projection

def rngA : UInt64 := 0x5DEECE66D
def rngC : UInt64 := 0xB
def rngM : UInt64 := ((1 : UInt64) <<< 48) - 1

def rngNext (state : UInt64) : UInt64 × UInt64 :=
  let state := (rngA * state + rngC) &&& rngM
  (state, state >>> 16)

def rngSeed (seed : UInt64) : UInt64 := (seed <<< 16) + 0x330E

def numBbv : Nat := 16

structure Bbv where
  mInstrs : UInt64
  mBbvCounts : Vector UInt64 numBbv
  deriving DecidableEq, Repr

def Bbv.new : Bbv := ⟨0, Vector.replicate numBbv 0⟩

def element (pass lane : Fin 4) : Fin numBbv :=
  ⟨4 * pass.val + lane.val, by unfold numBbv; omega⟩

def accumulate (weight count : UInt64) (i : Fin numBbv) (counts : Vector UInt64 numBbv) :
    Vector UInt64 numBbv :=
  counts.set i.val (counts[i] + (weight &&& 0xffff) * count) i.isLt

structure Loop where
  s0 : UInt64
  s1 : UInt64
  s2 : UInt64
  s3 : UInt64
  counts : Vector UInt64 numBbv

def Loop.pass (count : UInt64) (pass : Fin 4) (loop : Loop) : Loop :=
  let first := rngNext loop.s0
  let counts := accumulate first.2 count (element pass 0) loop.counts
  let second := rngNext loop.s1
  let counts := accumulate second.2 count (element pass 1) counts
  let third := rngNext loop.s2
  let counts := accumulate third.2 count (element pass 2) counts
  let fourth := rngNext loop.s3
  let counts := accumulate fourth.2 count (element pass 3) counts
  ⟨first.1, second.1, third.1, fourth.1, counts⟩

/-- `for (int i = 0; i < NUM_BBV; i += 4)`, so far. -/
def Loop.passes (count : UInt64) : (done : Nat) → done ≤ 4 → Loop → Loop
  | 0, _, loop => loop
  | done + 1, inside, loop =>
      (loop.passes count done (Nat.le_of_succ_le inside)).pass count ⟨done, inside⟩

def Bbv.count (address count : UInt64) (bbv : Bbv) : Bbv :=
  let seeded := Loop.mk (rngSeed address) (rngSeed (address + 1)) (rngSeed (address + 2))
    (rngSeed (address + 3)) bbv.mBbvCounts
  ⟨bbv.mInstrs + count, (seeded.passes count 4 (Nat.le_refl 4)).counts⟩

def Bbv.clear (bbv : Bbv) : Bbv :=
  ⟨0, (List.finRange numBbv).foldl (fun counts i => counts.set i.val 0 i.isLt) bbv.mBbvCounts⟩

def Bbv.getDimension (bbv : Bbv) (dim : Fin numBbv) : UInt64 := bbv.mBbvCounts[dim]

def Bbv.getInstructionCount (bbv : Bbv) : UInt64 := bbv.mInstrs

/-! One call. -/

def stateAt (seed : UInt64) : Nat → UInt64
  | 0 => rngSeed seed
  | passes + 1 => (rngNext (stateAt seed passes)).1

def weight (address : UInt64) (pass lane : Fin 4) : UInt64 :=
  (rngNext (stateAt (address + UInt64.ofNat lane.val) pass.val)).2 &&& 0xffff

theorem element_inj (pass lane pass' lane' : Fin 4) :
    element pass lane = element pass' lane' ↔ pass = pass' ∧ lane = lane' := by
  simp only [element, Fin.ext_iff]
  omega

theorem element_cover (dim : Fin numBbv) : ∃ pass lane, dim = element pass lane := by
  have inside : dim.val < 16 := dim.isLt
  refine ⟨⟨dim.val / 4, by omega⟩, ⟨dim.val % 4, by omega⟩, ?_⟩
  simp only [element, Fin.ext_iff]
  omega

theorem accumulate_element (drawn count : UInt64) (i dim : Fin numBbv)
    (counts : Vector UInt64 numBbv) :
    (accumulate drawn count i counts)[dim] =
      counts[dim] + if i = dim then (drawn &&& 0xffff) * count else 0 := by
  simp only [accumulate, Fin.getElem_fin, Vector.getElem_set]
  by_cases here : i = dim
  · subst here
    simp
  · simp [here, Fin.val_ne_of_ne here]

/-- After some passes the generators have advanced as often, and the elements of those
passes have their weighted count. -/
structure Advanced (address count : UInt64) (before : Vector UInt64 numBbv) (done : Nat)
    (loop : Loop) : Prop where
  s0 : loop.s0 = stateAt address done
  s1 : loop.s1 = stateAt (address + 1) done
  s2 : loop.s2 = stateAt (address + 2) done
  s3 : loop.s3 = stateAt (address + 3) done
  counts : ∀ pass lane : Fin 4, loop.counts[element pass lane] = before[element pass lane] +
    if pass.val < done then weight address pass lane * count else 0

theorem pass_advanced (address count : UInt64) (before : Vector UInt64 numBbv) (pass : Fin 4)
    (loop : Loop) (advanced : Advanced address count before pass.val loop) :
    Advanced address count before (pass.val + 1) (loop.pass count pass) := by
  obtain ⟨s0, s1, s2, s3, counts⟩ := advanced
  refine ⟨?_, ?_, ?_, ?_, ?_⟩
  · simp only [Loop.pass, s0, stateAt]
  · simp only [Loop.pass, s1, stateAt]
  · simp only [Loop.pass, s2, stateAt]
  · simp only [Loop.pass, s3, stateAt]
  · intro other lane
    simp only [Loop.pass, accumulate_element, element_inj, counts, s0, s1, s2, s3]
    rcases Nat.lt_trichotomy other.val pass.val with earlier | same | later
    · have apart : pass ≠ other := Fin.ne_of_gt earlier
      simp [earlier, Nat.lt_succ_of_lt earlier, apart]
    · obtain rfl := Fin.ext same
      fin_cases lane
      all_goals simp [weight]
    · have apart : pass ≠ other := Fin.ne_of_lt later
      simp [Nat.not_lt_of_gt later, Nat.not_lt_of_le later, apart]

theorem passes_advanced (address count : UInt64) (before : Vector UInt64 numBbv) (loop : Loop)
    (start : Advanced address count before 0 loop) (done : Nat) (inside : done ≤ 4) :
    Advanced address count before done (loop.passes count done inside) := by
  induction done with
  | zero => exact start
  | succ done ih =>
      exact pass_advanced address count before ⟨done, inside⟩ _ (ih (Nat.le_of_succ_le inside))

theorem count_dimension (bbv : Bbv) (address count : UInt64) (pass lane : Fin 4) :
    (bbv.count address count).getDimension (element pass lane) =
      bbv.getDimension (element pass lane) + weight address pass lane * count := by
  have start : Advanced address count bbv.mBbvCounts 0 ⟨rngSeed address, rngSeed (address + 1),
      rngSeed (address + 2), rngSeed (address + 3), bbv.mBbvCounts⟩ :=
    ⟨rfl, rfl, rfl, rfl, fun _ _ => (UInt64.add_zero _).symm⟩
  have whole := (passes_advanced address count bbv.mBbvCounts _ start 4 (Nat.le_refl 4)).counts
    pass lane
  rw [if_pos pass.isLt] at whole
  exact whole

theorem dimensions_ext (left right : Bbv) (instrs : left.mInstrs = right.mInstrs)
    (dimensions : ∀ pass lane, left.getDimension (element pass lane) =
      right.getDimension (element pass lane)) : left = right := by
  obtain ⟨_, counts⟩ := left
  obtain ⟨_, counts'⟩ := right
  obtain rfl : counts = counts' := by
    apply Vector.ext
    intro i inside
    obtain ⟨pass, lane, same⟩ := element_cover ⟨i, inside⟩
    have here := dimensions pass lane
    rw [← same] at here
    exact here
  exact congrArg (Bbv.mk · counts) instrs

theorem clear_new (bbv : Bbv) : bbv.clear = Bbv.new := by
  have zeroed : ∀ (dims : List (Fin numBbv)) (counts : Vector UInt64 numBbv) (dim : Fin numBbv),
      (dims.foldl (fun counts i => counts.set i.val 0 i.isLt) counts)[dim] =
        if dim ∈ dims then 0 else counts[dim] := by
    intro dims
    induction dims with
    | nil => exact fun _ _ => rfl
    | cons first rest ih =>
        intro counts dim
        rw [List.foldl_cons, ih]
        by_cases later : dim ∈ rest
        · simp [later]
        · by_cases here : dim = first
          · simp [here]
          · simp [here, later, Fin.val_ne_of_ne (Ne.symm here)]
  refine dimensions_ext _ _ rfl fun pass lane => ?_
  have all := zeroed (List.finRange numBbv) bbv.mBbvCounts (element pass lane)
  rw [if_pos (List.mem_finRange _)] at all
  refine Eq.trans all ?_
  simp [Bbv.new, Bbv.getDimension]

/-! The generator. -/

/-- `drand48` as its manual has it: 48 bits of state, of which a seed gives the upper 32
and an output is the upper 32. -/
def drand48 : Generator := ⟨0x5DEECE66D, 0xB, 2 ^ 48⟩

def srand48 (seed : Nat) : Nat := seed % 2 ^ 32 * 2 ^ 16 + 0x330E

def output (state : Nat) : Nat := state / 2 ^ 16

theorem next_drand48 (state : UInt64) :
    (rngNext state).1.toNat = drand48.next state.toNat ∧
      (rngNext state).2.toNat = output (drand48.next state.toNat) := by
  have masked : ((rngA * state + rngC) &&& rngM).toNat = drand48.next state.toNat := by
    have mask : rngM.toNat = 2 ^ 48 - 1 := rfl
    have multiplier : rngA.toNat = 0x5DEECE66D := rfl
    have increment : rngC.toNat = 0xB := rfl
    rw [UInt64.toNat_and, mask, Nat.and_two_pow_sub_one_eq_mod, UInt64.toNat_add,
      UInt64.toNat_mul, multiplier, increment]
    simp only [Generator.next, drand48]
    omega
  have shift : (16 : UInt64).toNat % 64 = 16 := rfl
  refine ⟨masked, ?_⟩
  simp only [rngNext, UInt64.toNat_shiftRight, shift, masked, Nat.shiftRight_eq_div_pow, output]

theorem seed_drand48 (seed : UInt64) :
    (rngSeed seed).toNat ≡ srand48 seed.toNat [MOD 2 ^ 48] := by
  have shift : (16 : UInt64).toNat % 64 = 16 := rfl
  have low : (0x330E : UInt64).toNat = 0x330E := rfl
  rw [rngSeed, UInt64.toNat_add, UInt64.toNat_shiftLeft, shift, low, Nat.shiftLeft_eq]
  unfold srand48 Nat.ModEq
  omega

theorem state_drand48 (seed : UInt64) (passes : Nat) :
    (stateAt seed passes).toNat ≡ drand48.state (srand48 seed.toNat) passes [MOD 2 ^ 48] := by
  induction passes with
  | zero => exact seed_drand48 seed
  | succ passes ih =>
      rw [stateAt, (next_drand48 _).1]
      exact next_congr drand48 _ _ _ (Nat.dvd_refl _) ih

theorem weight_drand48 (address : UInt64) (pass lane : Fin 4) :
    (weight address pass lane).toNat =
      output (drand48.state (srand48 (address.toNat + lane.val)) (pass.val + 1)) % 2 ^ 16 := by
  have mask : (0xffff : UInt64).toNat = 2 ^ 16 - 1 := rfl
  have seeds : srand48 (address + UInt64.ofNat lane.val).toNat =
      srand48 (address.toNat + lane.val) := by
    rw [UInt64.toNat_add, UInt64.toNat_ofNat']
    unfold srand48
    omega
  have state := state_drand48 (address + UInt64.ofNat lane.val) pass.val
  rw [seeds] at state
  have stepped := next_congr drand48 _ _ _ (Nat.dvd_refl _) state
  rw [weight, UInt64.toNat_and, mask, Nat.and_two_pow_sub_one_eq_mod, (next_drand48 _).2]
  -- Both are states of 48 bits, so that congruent ones are the same.
  have same : drand48.next (stateAt (address + UInt64.ofNat lane.val) pass.val).toNat =
      drand48.state (srand48 (address.toNat + lane.val)) (pass.val + 1) := by
    have bound : ∀ before, drand48.next before < 2 ^ 48 := fun before =>
      Nat.mod_lt _ (by decide)
    exact Nat.ModEq.eq_of_lt_of_lt stepped (bound _) (bound _)
  rw [same]

/-! Lists of calls. -/

def project (bbv : Bbv) (calls : List (UInt64 × UInt64)) : Bbv :=
  calls.foldl (fun bbv call => bbv.count call.1 call.2) bbv

/-- A new vector, or one that held something and was cleared. -/
def fresh : Option Bbv → Bbv
  | none => Bbv.new
  | some held => held.clear

theorem fresh_new (held : Option Bbv) : fresh held = Bbv.new := by
  cases held with
  | none => rfl
  | some bbv => exact clear_new bbv

theorem project_instructions (bbv : Bbv) (calls : List (UInt64 × UInt64)) :
    (project bbv calls).mInstrs = bbv.mInstrs + (calls.map Prod.snd).sum := by
  induction calls generalizing bbv with
  | nil => exact (UInt64.add_zero _).symm
  | cons call rest ih =>
      rw [List.map_cons, List.sum_cons, ← UInt64.add_assoc]
      exact ih (bbv.count call.1 call.2)

theorem project_dimension (bbv : Bbv) (calls : List (UInt64 × UInt64)) (pass lane : Fin 4) :
    (project bbv calls).getDimension (element pass lane) =
      bbv.getDimension (element pass lane) +
        weighted (fun address => weight address pass lane) calls := by
  induction calls generalizing bbv with
  | nil => exact (UInt64.add_zero _).symm
  | cons call rest ih =>
      have later := ih (bbv.count call.1 call.2)
      rw [count_dimension, UInt64.add_assoc] at later
      exact later

theorem weighted_bits (row : UInt64 → UInt64) (calls : List (UInt64 × UInt64)) :
    (weighted row calls).toNat =
      (calls.map fun call => call.2.toNat * (row call.1).toNat).sum % 2 ^ 64 := by
  induction calls with
  | nil => rfl
  | cons call rest ih =>
      rw [weighted, UInt64.toNat_add, UInt64.toNat_mul, ih, List.map_cons, List.sum_cons,
        ← Nat.add_mod, Nat.mul_comm]

theorem project_totals (bbv : Bbv) (calls others : List (UInt64 × UInt64))
    (same : ∀ address, total address calls = total address others) :
    project bbv calls = project bbv others := by
  have summed : ∀ row : UInt64 → UInt64, weighted row calls = weighted row others := by
    intro row
    open scoped UInt64.CommRing in exact weighted_congr row calls others same
  have counts : ∀ calls : List (UInt64 × UInt64),
      (calls.map Prod.snd).sum = weighted (fun _ => 1) calls := by
    intro calls
    induction calls with
    | nil => rfl
    | cons call rest ih => rw [List.map_cons, List.sum_cons, ih, weighted, UInt64.one_mul]
  apply dimensions_ext
  · rw [project_instructions, project_instructions, counts, counts, summed]
  · intro pass lane
    rw [project_dimension, project_dimension, summed]

/-- The vector of a list of calls: the sum of the counts, and in each dimension the sum
of the counts by the outputs of the generators of their addresses. It depends only on
the totals of the addresses, so not on the order of the calls nor on how the count of an
address is divided among them. -/
theorem projection_linear (held : Option Bbv) (calls : List (UInt64 × UInt64)) :
    (project (fresh held) calls).getInstructionCount = (calls.map Prod.snd).sum ∧
    (∀ pass lane : Fin 4, ((project (fresh held) calls).getDimension (element pass lane)).toNat =
      (calls.map fun call => call.2.toNat * (output (drand48.state
        (srand48 (call.1.toNat + lane.val)) (pass.val + 1)) % 2 ^ 16)).sum % 2 ^ 64) ∧
    (∀ others, (∀ address, total address calls = total address others) →
      project (fresh held) calls = project (fresh held) others) ∧
    (∀ others, calls.Perm others → project (fresh held) calls = project (fresh held) others) ∧
    ∀ front back address first second,
      calls = front ++ (address, first + second) :: back →
      project (fresh held) calls =
        project (fresh held) (front ++ (address, first) :: (address, second) :: back) := by
  refine ⟨?_, ?_, project_totals _ calls, ?_, ?_⟩
  · have counted := project_instructions (fresh held) calls
    rw [fresh_new] at counted
    rw [Bbv.getInstructionCount, fresh_new, counted]
    exact UInt64.zero_add _
  · intro pass lane
    have empty : Bbv.new.getDimension (element pass lane) = 0 := by
      simp [Bbv.new, Bbv.getDimension]
    rw [fresh_new, project_dimension, empty, UInt64.zero_add, weighted_bits]
    simp only [weight_drand48]
  · intro others perm
    apply project_totals
    intro address
    open scoped UInt64.CommRing in exact total_perm address calls others perm
  · rintro front back address first second rfl
    apply project_totals
    intro key
    open scoped UInt64.CommRing in exact total_split key address first second front back

/-! Telling addresses apart. -/

theorem weight_congr (left right : UInt64) (same : left.toNat % 2 ^ 16 = right.toNat % 2 ^ 16)
    (pass lane : Fin 4) : weight left pass lane = weight right pass lane := by
  have seeds : srand48 (left.toNat + lane.val) ≡ srand48 (right.toNat + lane.val)
      [MOD 2 ^ 16 * 2 ^ 16] := by
    unfold srand48 Nat.ModEq
    omega
  have states := state_congr drand48 (2 ^ 16 * 2 ^ 16) _ _ (by decide) seeds (pass.val + 1)
  apply UInt64.toNat_inj.mp
  rw [weight_drand48, weight_drand48]
  exact ((digits_iff _ _ _ _).mp states).2

/-- Already the first output tells the low 16 bits of the address. -/
theorem first_weight_inj (left right : UInt64)
    (same : weight left 0 0 = weight right 0 0) :
    left.toNat % 2 ^ 16 = right.toNat % 2 ^ 16 := by
  have drawn := congrArg UInt64.toNat same
  rw [weight_drand48, weight_drand48] at drawn
  -- The bits below the drawn ones are the same for every seed.
  have below : drand48.state (srand48 left.toNat) 1 ≡ drand48.state (srand48 right.toNat) 1
      [MOD 2 ^ 16] := by
    apply state_congr drand48 (2 ^ 16) _ _ (by decide)
    unfold srand48 Nat.ModEq
    omega
  have states : drand48.state (srand48 left.toNat) 1 ≡ drand48.state (srand48 right.toNat) 1
      [MOD 2 ^ 16 * 2 ^ 16] := (digits_iff _ _ _ _).mpr ⟨below, drawn⟩
  have seeds := next_cancel drand48 (2 ^ 16 * 2 ^ 16) _ _ (by decide) (by decide) states
  simp only [Generator.state, srand48, Nat.ModEq] at seeds
  omega

theorem cleared_dimension (held : Bbv) (address count : UInt64) (pass lane : Fin 4) :
    (held.clear.count address count).getDimension (element pass lane) =
      weight address pass lane * count := by
  have empty : Bbv.new.getDimension (element pass lane) = 0 := by
    simp [Bbv.new, Bbv.getDimension]
  rw [clear_new, count_dimension, empty, UInt64.zero_add]

/-- On a cleared vector, two addresses are told apart exactly by their low 16 bits. -/
theorem addresses_apart_iff (held : Bbv) (left right count : UInt64) (positive : 0 < count)
    (small : count.toNat < 2 ^ 48) :
    (held.clear.count left count).mBbvCounts ≠ (held.clear.count right count).mBbvCounts ↔
      left.toNat % 2 ^ 16 ≠ right.toNat % 2 ^ 16 := by
  apply not_congr
  constructor
  · intro same
    have first : weight left 0 0 * count = weight right 0 0 * count := by
      rw [← cleared_dimension held left, ← cleared_dimension held right]
      exact congrArg (·[element 0 0]) same
    have bound : ∀ address, (weight address 0 0).toNat < 2 ^ 16 := by
      intro address
      rw [weight_drand48]
      exact Nat.mod_lt _ (by decide)
    have exact_ : ∀ address, (weight address 0 0 * count).toNat =
        (weight address 0 0).toNat * count.toNat := by
      intro address
      rw [UInt64.toNat_mul]
      apply Nat.mod_eq_of_lt
      calc (weight address 0 0).toNat * count.toNat < 2 ^ 16 * 2 ^ 48 :=
            Nat.mul_lt_mul'' (bound address) small
        _ = 2 ^ 64 := by decide
    have products := congrArg UInt64.toNat first
    rw [exact_, exact_] at products
    have rows := Nat.eq_of_mul_eq_mul_right (UInt64.lt_iff_toNat_lt.mp positive) products
    exact first_weight_inj left right (UInt64.toNat_inj.mp rows)
  · intro same
    have whole : (held.clear.count left count) = (held.clear.count right count) := by
      refine dimensions_ext _ _ rfl fun pass lane => ?_
      rw [cleared_dimension, cleared_dimension, weight_congr left right same]
    exact congrArg Bbv.mBbvCounts whole

theorem neighbours_apart :
    (Bbv.new.clear.count 0x1000 1).mBbvCounts ≠ (Bbv.new.clear.count 0x1001 1).mBbvCounts :=
  (addresses_apart_iff Bbv.new 0x1000 0x1001 1 (by decide) (by decide)).mpr (by decide)

/-- Two blocks 64 KiB apart have one row. -/
theorem far_addresses_alike :
    (0x1000 : UInt64) ≠ 0x11000 ∧
      (Bbv.new.clear.count 0x1000 1).mBbvCounts = (Bbv.new.clear.count 0x11000 1).mBbvCounts := by
  refine ⟨by decide, ?_⟩
  have whole : Bbv.new.clear.count 0x1000 1 = Bbv.new.clear.count 0x11000 1 := by
    refine dimensions_ext _ _ rfl fun pass lane => ?_
    rw [cleared_dimension, cleared_dimension, weight_congr 0x1000 0x11000 (by decide)]
  exact congrArg Bbv.mBbvCounts whole

end Hypersh.BbvCount
