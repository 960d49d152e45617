import Mathlib.Algebra.Group.Nat.Defs
import Mathlib.Data.List.Basic
import Hypersh.Transduction
import Hypersh.Getopt
import Hypersh.Mcount
import Hypersh.Pmem

/-!
Which accesses of a stream pmem writes. The count is a `uint32_t`, so that a
position is seen modulo 2^32 before it is seen modulo the interval.
-/
namespace Hypersh.Sampling
open Getopt Pmem Transduction
open Mcount (openReport)

abbrev Logged := Nat × Access

def Logged.event (logged : Logged) : Event := .access logged.1 logged.2

def Logged.line (logged : Logged) : Output :=
  .line logged.1 logged.2.isKernel logged.2.isStore logged.2.vaddr logged.2.paddr

def readWrite (access : Access) : UInt8 := if access.isStore then hsPmemWrite else hsPmemRead

def kernelUser (access : Access) : UInt8 := if access.isKernel then hsPmemKernel else hsPmemUser

/-- Both bits of the access are in the mask, where 0 stands for all. -/
def Admits (mask : UInt8) (access : Access) : Prop :=
  mask = 0 ∨ (mask &&& readWrite access = readWrite access ∧
    mask &&& kernelUser access = kernelUser access)

instance (mask : UInt8) (access : Access) : Decidable (Admits mask access) :=
  inferInstanceAs (Decidable (_ ∨ _))

def Written (begun : Statics) (stream : List Logged) (k : Nat) : Prop :=
  ∃ logged reached earlier next, stream[k]? = some logged ∧
    run step begun ((stream.take k).map Logged.event) = .ok (reached, earlier) ∧
    step reached logged.event = .ok (next, [logged.line])

/-- Every access of the stream is handled, and the admitted ones at multiples of the
interval are written; where the mask passes over none between two of them they are
one interval apart. -/
structure Uniform (interval : Nat) (mask : UInt8) (begun : Statics) (stream : List Logged) :
    Prop where
  returns : ∃ result, run step begun (stream.map Logged.event) = .ok result
  sampled : ∀ k logged, stream[k]? = some logged →
    (Written begun stream k ↔ interval ∣ k ∧ Admits mask logged.2)
  apart : ∀ j k, j < k → Written begun stream j → Written begun stream k →
    (∀ i logged, j < i → i < k → stream[i]? = some logged →
      Admits mask logged.2 ∧ ¬ Written begun stream i) → k = j + interval

theorem and_or_iff (mask left right : UInt8) :
    mask &&& (left ||| right) = left ||| right ↔ mask &&& left = left ∧ mask &&& right = right := by
  have absorbed : ∀ bits : UInt8, mask &&& bits = bits ↔ ∀ i, bits.toBitVec.getLsbD i = true →
      mask.toBitVec.getLsbD i = true := by
    intro bits
    rw [← UInt8.toBitVec_inj, UInt8.toBitVec_and]
    constructor
    · intro same i set
      rw [← same, BitVec.getLsbD_and, Bool.and_eq_true] at set
      exact set.1
    · intro inside
      apply BitVec.eq_of_getLsbD_eq
      intro i _
      rw [BitVec.getLsbD_and]
      cases set : bits.toBitVec.getLsbD i
      · rw [Bool.and_false]
      · rw [inside i set, Bool.and_self]
  rw [absorbed, absorbed, absorbed, UInt8.toBitVec_or]
  constructor
  · intro both
    constructor
    · intro i set
      exact both i (by rw [BitVec.getLsbD_or, set, Bool.true_or])
    · intro i set
      exact both i (by rw [BitVec.getLsbD_or, set, Bool.or_true])
  · rintro ⟨first, second⟩ i set
    rw [BitVec.getLsbD_or, Bool.or_eq_true] at set
    rcases set with set | set
    · exact first i set
    · exact second i set

theorem admits_iff (mask : UInt8) (access : Access) :
    (if mask = 0 then 0xF else mask) &&& access.attr = access.attr ↔ Admits mask access := by
  by_cases all : mask = 0
  · rw [if_pos all]
    refine iff_of_true ?_ (Or.inl all)
    have bits : ∀ isStore isKernel : Bool,
        (0xF : UInt8) &&& ((if isStore then hsPmemWrite else hsPmemRead) |||
          if isKernel then hsPmemKernel else hsPmemUser) =
        (if isStore then hsPmemWrite else hsPmemRead) |||
          if isKernel then hsPmemKernel else hsPmemUser := by decide
    exact bits access.isStore access.isKernel
  · rw [if_neg all, Access.attr, Admits]
    exact (and_or_iff mask _ _).trans (or_iff_right all).symm

theorem due_iff (interval : UInt32) (k : Nat) :
    UInt32.ofNat k % interval = 0 ↔ interval.toNat ∣ k % 2 ^ 32 := by
  rw [← UInt32.toNat_inj, UInt32.toNat_mod, UInt32.toNat_ofNat']
  exact Nat.dvd_iff_mod_eq_zero.symm

def counted (begun : Statics) (k : Nat) : Statics := { begun with pmemCount := UInt32.ofNat k }

theorem written_found (begun : Statics) (stream : List Logged) (k : Nat)
    (written : Written begun stream k) : ∃ logged, stream[k]? = some logged := by
  rcases written with ⟨logged, _, _, _, found, -, -⟩
  exact ⟨logged, found⟩

theorem sampled_apart (interval : Nat) (mask : UInt8) (begun : Statics) (stream : List Logged)
    (sampled : ∀ k logged, stream[k]? = some logged →
      (Written begun stream k ↔ interval ∣ k ∧ Admits mask logged.2))
    (j k : Nat) (before : j < k) (first : Written begun stream j) (last : Written begun stream k)
    (none_ : ∀ i logged, j < i → i < k → stream[i]? = some logged →
      Admits mask logged.2 ∧ ¬ Written begun stream i) : k = j + interval := by
  rcases written_found begun stream j first with ⟨early, present⟩
  rcases written_found begun stream k last with ⟨late, found⟩
  have low := ((sampled j early present).mp first).1
  have high := ((sampled k late found).mp last).1
  have gap : interval ≤ k - j := Nat.le_of_dvd (by omega) (Nat.dvd_sub high low)
  have positive : 0 < interval := Nat.pos_of_dvd_of_pos high (by omega)
  by_contra apart
  -- The multiple that comes next would have been written.
  have inside : j + interval < stream.length := by
    have bound := (List.getElem?_eq_some_iff.mp found).1
    omega
  have skipped := List.getElem?_eq_getElem inside
  rcases none_ (j + interval) _ (by omega) (by omega) skipped with ⟨admitted, unwritten⟩
  exact unwritten ((sampled _ _ skipped).mpr ⟨Nat.dvd_add low (Nat.dvd_refl _), admitted⟩)

section Stream
variable (filename : Option Word) (opens : Bool) (interval : UInt32) (mask : UInt8)

theorem access_counted (positive : interval ≠ 0) (k : Nat) (logged : Logged) :
    step (counted (hypercallPmemInit filename opens interval mask) k) logged.event =
      if interval.toNat ∣ k % 2 ^ 32 ∧ Admits mask logged.2 then
        match openReport filename opens with
        | none => .error .nullFile
        | some _ => .ok (counted (hypercallPmemInit filename opens interval mask) (k + 1),
            [logged.line])
      else .ok (counted (hypercallPmemInit filename opens interval mask) (k + 1), []) := by
  have due := due_iff interval k
  have next : UInt32.ofNat k + 1 = UInt32.ofNat (k + 1) := (UInt32.ofNat_add k 1).symm
  simp only [step, Logged.event, hypercallPmemCb, counted, hypercallPmemInit, positive, next,
    due, admits_iff, if_false, reduceCtorEq]
  rfl

def Writable (first : Nat) (stream : List Logged) : Prop :=
  ∀ k logged, stream[k]? = some logged → interval.toNat ∣ (first + k) % 2 ^ 32 →
    Admits mask logged.2 → (openReport filename opens).isSome = true

theorem run_counted (positive : interval ≠ 0) (first : Nat) (stream : List Logged)
    (final : Statics) (lines : List Output)
    (done : run step (counted (hypercallPmemInit filename opens interval mask) first)
      (stream.map Logged.event) = .ok (final, lines)) :
    final = counted (hypercallPmemInit filename opens interval mask) (first + stream.length) := by
  induction stream generalizing first lines with
  | nil =>
      cases done
      rfl
  | cons logged rest ih =>
      rcases (run_cons_iff _ _ _ _ _ _).mp done with ⟨next, _, later, taken, tail, -⟩
      rw [access_counted filename opens interval mask positive] at taken
      have reached : next = counted (hypercallPmemInit filename opens interval mask) (first + 1) := by
        split at taken
        · split at taken
          · contradiction
          · exact (Prod.mk.inj (Except.ok.inj taken)).1.symm
        · exact (Prod.mk.inj (Except.ok.inj taken)).1.symm
      rw [ih (first + 1) later (reached ▸ tail), List.length_cons, Nat.add_assoc,
        Nat.add_comm 1]

theorem run_returns_iff (positive : interval ≠ 0) (first : Nat) (stream : List Logged) :
    (∃ result, run step (counted (hypercallPmemInit filename opens interval mask) first)
        (stream.map Logged.event) = .ok result) ↔
      Writable filename opens interval mask first stream := by
  induction stream generalizing first with
  | nil =>
      refine iff_of_true ⟨_, rfl⟩ ?_
      intro k logged absent
      contradiction
  | cons logged rest ih =>
      have here := access_counted filename opens interval mask positive first logged
      have split_ : Writable filename opens interval mask first (logged :: rest) ↔
          (interval.toNat ∣ first % 2 ^ 32 → Admits mask logged.2 →
            (openReport filename opens).isSome = true) ∧
          Writable filename opens interval mask (first + 1) rest := by
        constructor
        · intro writable
          refine ⟨writable 0 logged rfl, fun k later found => ?_⟩
          rw [Nat.add_assoc, Nat.add_comm 1]
          exact writable (k + 1) later found
        · rintro ⟨now, later⟩ k other found
          cases k with
          | zero =>
              cases found
              exact now
          | succ k =>
              rw [← Nat.add_assoc, Nat.add_right_comm]
              exact later k other found
      rw [split_, ← ih]
      constructor
      · rintro ⟨result, ran⟩
        rcases (run_cons_iff _ _ _ _ _ _).mp ran with ⟨next, _, later, taken, tail, -⟩
        rw [here] at taken
        split at taken
        · split at taken
          · contradiction
          · rename_i file present
            cases taken
            exact ⟨fun _ _ => by rw [present]; rfl, _, tail⟩
        · rename_i skipped
          cases taken
          exact ⟨fun due admitted => absurd ⟨due, admitted⟩ skipped, _, tail⟩
      · rintro ⟨now, ⟨final, later⟩, tail⟩
        split at here
        · rename_i due
          rcases Option.isSome_iff_exists.mp (now due.1 due.2) with ⟨file, present⟩
          rw [present] at here
          exact ⟨_, run_cons_ok _ _ _ _ _ _ _ _ here tail⟩
        · exact ⟨_, run_cons_ok _ _ _ _ _ _ _ _ here tail⟩

theorem written_iff (positive : interval ≠ 0) (stream : List Logged)
    (writable : Writable filename opens interval mask 0 stream) (k : Nat) (logged : Logged)
    (found : stream[k]? = some logged) :
    Written (hypercallPmemInit filename opens interval mask) stream k ↔
      interval.toNat ∣ k % 2 ^ 32 ∧ Admits mask logged.2 := by
  have here := access_counted filename opens interval mask positive k logged
  have inside : k < stream.length := (List.getElem?_eq_some_iff.mp found).1
  have length : (stream.take k).length = k := by
    rw [List.length_take, Nat.min_eq_left (Nat.le_of_lt inside)]
  constructor
  · rintro ⟨other, reached, earlier, next, same, ran, taken⟩
    cases found.symm.trans same
    have position := run_counted filename opens interval mask positive 0 (stream.take k) reached
      earlier ran
    rw [length, Nat.zero_add] at position
    rw [position, here] at taken
    split at taken
    · assumption
    · cases taken
  · intro due
    have front : Writable filename opens interval mask 0 (stream.take k) := by
      intro j other present
      rw [List.getElem?_take] at present
      split at present
      · exact writable j other present
      · contradiction
    rcases (run_returns_iff filename opens interval mask positive 0 _).mpr front with
      ⟨⟨reached, earlier⟩, ran⟩
    have position := run_counted filename opens interval mask positive 0 _ reached earlier ran
    rw [length, Nat.zero_add] at position
    have some_ := writable k logged found ((Nat.zero_add k).symm ▸ due.1) due.2
    rcases Option.isSome_iff_exists.mp some_ with ⟨file, present⟩
    rw [if_pos due, present] at here
    exact ⟨logged, reached, earlier, _, found, ran, position ▸ here⟩

/-- Where the count has wrapped around it must still say the same of the interval. -/
theorem uniform_stream_iff (positive : interval ≠ 0) (stream : List Logged) :
    Uniform interval.toNat mask (hypercallPmemInit filename opens interval mask) stream ↔
      ∀ k logged, stream[k]? = some logged → Admits mask logged.2 →
        (interval.toNat ∣ k % 2 ^ 32 → (openReport filename opens).isSome = true) ∧
        (interval.toNat ∣ k % 2 ^ 32 ↔ interval.toNat ∣ k) := by
  have returns := run_returns_iff filename opens interval mask positive 0 stream
  constructor
  · intro uniform k logged found admitted
    have writable := returns.mp uniform.returns
    have written := written_iff filename opens interval mask positive stream writable k logged found
    constructor
    · intro due
      exact writable k logged found ((Nat.zero_add k).symm ▸ due) admitted
    · constructor
      · intro due
        exact ((uniform.sampled k logged found).mp (written.mpr ⟨due, admitted⟩)).1
      · intro multiple
        exact (written.mp ((uniform.sampled k logged found).mpr ⟨multiple, admitted⟩)).1
  · intro agrees
    have writable : Writable filename opens interval mask 0 stream := by
      intro k logged found due admitted
      rw [Nat.zero_add] at due
      exact (agrees k logged found admitted).1 due
    have sampled : ∀ k logged, stream[k]? = some logged →
        (Written (hypercallPmemInit filename opens interval mask) stream k ↔
          interval.toNat ∣ k ∧ Admits mask logged.2) := by
      intro k logged found
      rw [written_iff filename opens interval mask positive stream writable k logged found]
      constructor
      · rintro ⟨due, admitted⟩
        exact ⟨(agrees k logged found admitted).2.mp due, admitted⟩
      · rintro ⟨multiple, admitted⟩
        exact ⟨(agrees k logged found admitted).2.mpr multiple, admitted⟩
    exact ⟨returns.mpr writable, sampled, fun j k before first last none_ =>
      sampled_apart _ mask _ stream sampled j k before first last none_⟩

theorem uniform_short (positive : interval ≠ 0) (stream : List Logged)
    (opened : (openReport filename opens).isSome = true) (short : stream.length ≤ 2 ^ 32) :
    Uniform interval.toNat mask (hypercallPmemInit filename opens interval mask) stream := by
  apply (uniform_stream_iff filename opens interval mask positive stream).mpr
  intro k logged found _
  have inside : k < 2 ^ 32 := Nat.lt_of_lt_of_le (List.getElem?_eq_some_iff.mp found).1 short
  rw [Nat.mod_eq_of_lt inside]
  exact ⟨fun _ => opened, Iff.rfl⟩

theorem uniform_always_iff (positive : interval ≠ 0) :
    (∀ stream, Uniform interval.toNat mask (hypercallPmemInit filename opens interval mask) stream) ↔
      (∀ access, ¬ Admits mask access) ∨
        ((openReport filename opens).isSome = true ∧ interval.toNat ∣ 2 ^ 32) := by
  constructor
  · intro always
    by_cases none_ : ∀ access, ¬ Admits mask access
    · exact Or.inl none_
    · rcases not_forall_not.mp none_ with ⟨access, admitted⟩
      have agrees := (uniform_stream_iff filename opens interval mask positive _).mp
        (always (List.replicate (2 ^ 32 + 1) (0, access)))
      have present : ∀ k, k ≤ 2 ^ 32 →
          (List.replicate (2 ^ 32 + 1) (0, access))[k]? = some ((0, access) : Logged) := by
        intro k bound
        rw [List.getElem?_replicate, if_pos (by omega)]
      refine Or.inr ⟨?_, ?_⟩
      · exact (agrees 0 _ (present 0 (by omega)) admitted).1 (by rw [Nat.zero_mod]; exact Nat.dvd_zero _)
      · -- The count is 0 again.
        exact (agrees (2 ^ 32) _ (present _ (Nat.le_refl _)) admitted).2.mp
          (by rw [Nat.mod_self]; exact Nat.dvd_zero _)
  · intro condition stream
    apply (uniform_stream_iff filename opens interval mask positive stream).mpr
    intro k logged _ admitted
    rcases condition with none_ | ⟨opened, divides⟩
    · exact absurd admitted (none_ logged.2)
    · exact ⟨fun _ => opened, Nat.dvd_mod_iff divides⟩

/-- A start samples uniformly every stream whose admitted accesses sit where the wrapped
count and the count agree about the interval, among them all short ones; it does so
for ever only with an interval that divides 2^32. -/
theorem sampling_uniform (positive : interval ≠ 0) (before : Statics) :
    ∃ begun, step before (.start filename opens interval mask) = .ok (begun, []) ∧
      (∀ stream, Uniform interval.toNat mask begun stream ↔
        ∀ k logged, stream[k]? = some logged → Admits mask logged.2 →
          (interval.toNat ∣ k % 2 ^ 32 → (openReport filename opens).isSome = true) ∧
          (interval.toNat ∣ k % 2 ^ 32 ↔ interval.toNat ∣ k)) ∧
      ((∀ stream, Uniform interval.toNat mask begun stream) ↔
        (∀ access, ¬ Admits mask access) ∨
          ((openReport filename opens).isSome = true ∧ interval.toNat ∣ 2 ^ 32)) ∧
      ∀ stream : List Logged, (openReport filename opens).isSome = true →
        stream.length ≤ 2 ^ 32 → Uniform interval.toNat mask begun stream :=
  ⟨_, rfl, uniform_stream_iff filename opens interval mask positive,
    uniform_always_iff filename opens interval mask positive,
    uniform_short filename opens interval mask positive⟩

end Stream

theorem power_interval_uniform :
    ∃ begun, step installed (.start none true 4096 0) = .ok (begun, []) ∧
      ∀ stream, Uniform 4096 0 begun stream := by
  rcases sampling_uniform none true 4096 0 (by decide) installed with
    ⟨begun, started, -, always, -⟩
  exact ⟨begun, started, always.mpr (Or.inr ⟨rfl, by decide⟩)⟩

/-- The default interval does not divide 2^32: access 2^32 is written 7296 accesses
after the one before. -/
theorem default_interval_uneven :
    ¬ Uniform 10000 0 (hypercallPmemInit none true 10000 0)
      (List.replicate (2 ^ 32 + 1) (0, ⟨0, 0, false, false⟩)) := by
  intro uniform
  have agrees := (uniform_stream_iff none true 10000 0 (by decide) _).mp uniform (2 ^ 32)
    (0, ⟨0, 0, false, false⟩) (by rw [List.getElem?_replicate, if_pos (by omega)]) (Or.inl rfl)
  exact absurd (agrees.2.mp (by decide)) (by decide)

end Hypersh.Sampling
