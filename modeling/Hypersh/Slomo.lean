import Mathlib.Algebra.Group.Nat.Defs
import Mathlib.Algebra.GroupWithZero.Nat
import Mathlib.Data.List.FinRange
import Hypersh.Transduction
import Hypersh.Callbacks

/-!
The instruction counter of host/slomo.cc under the callbacks of all vcpus. The block
callback adds in one atomic step; the interrupt callback reads the counter to print it
and stores zero in a second step.
-/
namespace Hypersh.Slomo
open Transduction
variable {n : Nat}

/-- `icount`, and the vcpus that have printed it and have not yet stored the zero. -/
structure Shared (n : Nat) where
  icount : UInt64
  printed : Fin n → Bool

inductive Event (n : Nat) where
  | vcpuTbExecCb (vcpu : Fin n) (udata : UInt64)
  | interruptRead (vcpu : Fin n)
  | interruptStore (vcpu : Fin n)
  deriving DecidableEq, Repr

inductive Fault where
  | outOfOrder
  deriving DecidableEq, Repr

def Shared.mark (shared : Shared n) (vcpu : Fin n) (value : Bool) : Shared n :=
  { shared with printed := fun other => if other = vcpu then value else shared.printed other }

def step : Step (Shared n) (Event n) UInt64 Fault :=
  fun shared event =>
    match event with
    | .vcpuTbExecCb vcpu udata =>
        if shared.printed vcpu then .error .outOfOrder
        else .ok ({ shared with icount := shared.icount + udata }, [])
    | .interruptRead vcpu =>
        if shared.printed vcpu then .error .outOfOrder
        else .ok (shared.mark vcpu true, [shared.icount])
    | .interruptStore vcpu =>
        if shared.printed vcpu then .ok ({ shared.mark vcpu false with icount := 0 }, [])
        else .error .outOfOrder

def loaded : Shared n := ⟨0, fun _ => false⟩

def Shared.Quiet (shared : Shared n) : Prop := ∀ vcpu, shared.printed vcpu = false

instance (shared : Shared n) : Decidable shared.Quiet :=
  inferInstanceAs (Decidable (∀ vcpu, shared.printed vcpu = false))

structure Ledger where
  printed : Nat
  added : Nat
  deriving DecidableEq, Repr

def note (_ : Shared n) (event : Event n) (printed : List UInt64) (ledger : Ledger) : Ledger where
  printed := ledger.printed + (printed.map UInt64.toNat).sum
  added := ledger.added +
    match event with
    | .vcpuTbExecCb _ udata => udata.toNat
    | _ => 0

def Accounted (watched : Shared n × Ledger) : Prop :=
  watched.2.printed + watched.1.icount.toNat = watched.2.added

/-- No instruction is added while an interrupt callback is in progress, none is printed
by two of them, and the counter does not run over. -/
def Alone (watched : Shared n × Ledger) : Event n → Prop
  | .vcpuTbExecCb _ udata =>
      udata = 0 ∨ watched.1.Quiet ∧ watched.1.icount.toNat + udata.toNat < 2 ^ 64
  | .interruptRead _ => watched.1.Quiet ∨ watched.1.icount = 0
  | .interruptStore _ => True

instance (watched : Shared n × Ledger) : ∀ event, Decidable (Alone watched event)
  | .vcpuTbExecCb _ udata => inferInstanceAs (Decidable
      (udata = 0 ∨ watched.1.Quiet ∧ watched.1.icount.toNat + udata.toNat < 2 ^ 64))
  | .interruptRead _ => inferInstanceAs (Decidable (watched.1.Quiet ∨ watched.1.icount = 0))
  | .interruptStore _ => inferInstanceAs (Decidable True)

def Settled (watched : Shared n × Ledger) : Prop :=
  (watched.1.Quiet → Accounted watched) ∧
    (¬ watched.1.Quiet → watched.2.printed = watched.2.added)

theorem mark_quiet (shared : Shared n) (vcpu : Fin n) : ¬ (shared.mark vcpu true).Quiet := by
  intro quiet
  have here := quiet vcpu
  simp [Shared.mark] at here

theorem step_cases (shared next : Shared n) (event : Event n) (lines : List UInt64)
    (taken : step shared event = .ok (next, lines)) :
    (∃ vcpu udata, event = .vcpuTbExecCb vcpu udata ∧ lines = [] ∧
      next = { shared with icount := shared.icount + udata }) ∨
    (∃ vcpu, event = .interruptRead vcpu ∧ lines = [shared.icount] ∧
      next = shared.mark vcpu true) ∨
    ∃ vcpu, event = .interruptStore vcpu ∧ shared.printed vcpu = true ∧ lines = [] ∧
      next = { shared.mark vcpu false with icount := 0 } := by
  cases event with
  | vcpuTbExecCb vcpu udata =>
      simp only [step] at taken
      split at taken
      · cases taken
      · cases taken
        exact .inl ⟨vcpu, udata, rfl, rfl, rfl⟩
  | interruptRead vcpu =>
      simp only [step] at taken
      split at taken
      · cases taken
      · cases taken
        exact .inr (.inl ⟨vcpu, rfl, rfl, rfl⟩)
  | interruptStore vcpu =>
      simp only [step] at taken
      split at taken
      · rename_i inside
        cases taken
        exact .inr (.inr ⟨vcpu, rfl, inside, rfl, rfl⟩)
      · cases taken

theorem step_settled_iff (watched next : Shared n × Ledger) (event : Event n)
    (lines : List UInt64) (settled : Settled watched)
    (taken : watch step note watched event = .ok (next, lines)) :
    Alone watched event ↔ Settled next := by
  obtain ⟨shared, ledger⟩ := watched
  obtain ⟨after, books⟩ := next
  obtain ⟨stepped, rfl⟩ := (watch_iff _ _ _ _ _ _).mp taken
  obtain ⟨quiet, busy⟩ := settled
  rcases step_cases shared after event lines stepped with
    ⟨vcpu, udata, rfl, rfl, rfl⟩ | ⟨vcpu, rfl, rfl, rfl⟩ | ⟨vcpu, rfl, inside, rfl, rfl⟩
  · have zero : udata = 0 ↔ udata.toNat = 0 := UInt64.toNat_inj.symm
    have sum : (shared.icount + udata).toNat = (shared.icount.toNat + udata.toNat) % 2 ^ 64 :=
      UInt64.toNat_add _ _
    by_cases still : shared.Quiet
    · have held := quiet still
      simp only [Accounted] at held
      have room := shared.icount.toNat_lt
      have after : Settled ({ shared with icount := shared.icount + udata },
          note shared (.vcpuTbExecCb vcpu udata) [] ledger) ↔
          ledger.printed + (shared.icount + udata).toNat = ledger.added + udata.toNat :=
        ⟨fun settled => settled.1 still, fun sums => ⟨fun _ => sums, fun busy => absurd still busy⟩⟩
      rw [after, Alone, zero, sum]
      simp only [still, true_and]
      omega
    · have held := busy still
      have after : Settled ({ shared with icount := shared.icount + udata },
          note shared (.vcpuTbExecCb vcpu udata) [] ledger) ↔
          ledger.printed = ledger.added + udata.toNat :=
        ⟨fun settled => settled.2 still, fun sums => ⟨fun quiet => absurd quiet still, fun _ => sums⟩⟩
      rw [after, Alone, zero]
      simp only [still, false_and, or_false]
      simp only at held
      omega
  · have unquiet := mark_quiet shared vcpu
    have after : Settled (shared.mark vcpu true,
        note shared (.interruptRead vcpu) [shared.icount] ledger) ↔
        ledger.printed + shared.icount.toNat = ledger.added :=
      ⟨fun settled => settled.2 unquiet,
        fun sums => ⟨fun quiet => absurd quiet unquiet, fun _ => sums⟩⟩
    have zero : shared.icount = 0 ↔ shared.icount.toNat = 0 := UInt64.toNat_inj.symm
    rw [after, Alone, zero]
    by_cases still : shared.Quiet
    · exact iff_of_true (.inl still) (quiet still)
    · have held := busy still
      simp only [still, false_or]
      simp only at held
      omega
  · have unquiet : ¬ shared.Quiet := fun quiet => by
      rw [quiet vcpu] at inside
      cases inside
    have held := busy unquiet
    exact iff_of_true trivial ⟨fun _ => held, fun _ => held⟩

/-! Callbacks in progress come to their ends. -/

theorem stores_leave (vcpus : List (Fin n)) (watched final : Shared n × Ledger)
    (lines : List UInt64)
    (done : run (watch step note) watched (vcpus.map .interruptStore) = .ok (final, lines)) :
    final.2 = watched.2 ∧ (vcpus = [] ∧ final = watched ∨
      final.1.icount = 0 ∧ ¬ watched.1.Quiet) := by
  induction vcpus generalizing watched lines with
  | nil =>
      cases done
      exact ⟨rfl, .inl ⟨rfl, rfl⟩⟩
  | cons vcpu rest ih =>
      obtain ⟨next, emitted, later, first, tail, -⟩ := (run_cons_iff _ _ _ _ _ _).mp done
      obtain ⟨stepped, noted⟩ := (watch_iff _ _ _ _ _ _).mp first
      obtain ⟨books, ends⟩ := ih next later tail
      rcases step_cases _ _ _ _ stepped with
        ⟨_, _, same, -, -⟩ | ⟨_, same, -, -⟩ | ⟨_, same, inside, rfl, cleared⟩
      · cases same
      · cases same
      · cases same
        refine ⟨books.trans noted, .inr ⟨?_, fun quiet => ?_⟩⟩
        · rcases ends with ⟨-, rfl⟩ | ⟨zero, -⟩
          · rw [cleared]
          · exact zero
        · rw [quiet vcpu] at inside
          cases inside

theorem stores_complete (vcpus : List (Fin n)) (watched : Shared n × Ledger)
    (distinct : vcpus.Nodup) (inside : ∀ vcpu ∈ vcpus, watched.1.printed vcpu = true) :
    ∃ final lines, run (watch step note) watched (vcpus.map .interruptStore) =
        .ok (final, lines) ∧
      ∀ vcpu, final.1.printed vcpu = true → watched.1.printed vcpu = true ∧ vcpu ∉ vcpus := by
  induction vcpus generalizing watched with
  | nil => exact ⟨watched, [], rfl, fun vcpu still => ⟨still, List.not_mem_nil⟩⟩
  | cons vcpu rest ih =>
      obtain ⟨absent, others⟩ := List.nodup_cons.mp distinct
      let next : Shared n := { watched.1.mark vcpu false with icount := 0 }
      have first : watch step note watched (.interruptStore vcpu) =
          .ok ((next, note watched.1 (.interruptStore vcpu) [] watched.2), []) := by
        rw [watch_iff]
        exact ⟨by simp only [step, inside vcpu List.mem_cons_self, if_true, next], rfl⟩
      have kept : ∀ other ∈ rest, next.printed other = true := by
        intro other member
        have apart : other ≠ vcpu := fun same => absent (same ▸ member)
        simp only [next, Shared.mark, apart, if_false]
        exact inside other (List.mem_cons_of_mem vcpu member)
      obtain ⟨final, lines, tail, ended⟩ := ih (next, _) others kept
      refine ⟨final, [] ++ lines, run_cons_ok _ _ _ _ _ _ _ _ first tail, fun other still => ?_⟩
      obtain ⟨before, later⟩ := ended other still
      by_cases here : other = vcpu
      · simp [next, Shared.mark, here] at before
      · simp only [next, Shared.mark, here, if_false] at before
        exact ⟨before, fun member => (List.mem_cons.mp member).elim here later⟩

theorem settled_iff (watched : Shared n × Ledger) :
    Settled watched ↔ ∀ vcpus : List (Fin n), ∀ final lines,
      run (watch step note) watched (vcpus.map .interruptStore) = .ok (final, lines) →
        final.1.Quiet → Accounted final := by
  constructor
  · intro settled vcpus final lines done quiet
    obtain ⟨books, ⟨-, rfl⟩ | ⟨zero, busy⟩⟩ := stores_leave vcpus watched final lines done
    · exact settled.1 quiet
    · rw [Accounted, zero, books]
      exact settled.2 busy
  · intro completed
    refine ⟨fun quiet => completed [] watched [] rfl quiet, fun busy => ?_⟩
    obtain ⟨final, lines, done, ended⟩ := stores_complete
      ((List.finRange n).filter fun vcpu => watched.1.printed vcpu) watched
      ((List.nodup_finRange n).filter _) fun vcpu member => (List.mem_filter.mp member).2
    have quiet : final.1.Quiet := by
      intro vcpu
      by_contra still
      rw [Bool.not_eq_false] at still
      obtain ⟨inside, absent⟩ := ended vcpu still
      exact absent (List.mem_filter.mpr ⟨List.mem_finRange vcpu, inside⟩)
    have sums := completed _ final lines done quiet
    obtain ⟨books, ⟨-, rfl⟩ | ⟨zero, -⟩⟩ := stores_leave _ watched final lines done
    · exact absurd quiet busy
    · rw [Accounted, zero, books] at sums
      exact sums

theorem loaded_settled : Settled (loaded (n := n), ⟨0, 0⟩) :=
  ⟨fun _ => rfl, fun _ => rfl⟩

/-- In any interleaving, wherever it has got and once the callbacks then in progress have
ended, the printed counts and the current one are all that was added, exactly when every
step so far met no callback in progress that it could disturb. -/
theorem instructions_reported_once_iff (events : List (Event n)) (final : Shared n × Ledger)
    (lines : List UInt64)
    (done : run (watch step note) (loaded, ⟨0, 0⟩) events = .ok (final, lines)) :
    (∀ front back, events = front ++ back → ∀ vcpus : List (Fin n), ∀ completed printed,
      run (watch step note) (loaded, ⟨0, 0⟩) (front ++ vcpus.map .interruptStore) =
        .ok (completed, printed) → completed.1.Quiet → Accounted completed) ↔
      Along (watch step note) Alone (loaded, ⟨0, 0⟩) events := by
  rw [along_iff_invariant (watch step note) Alone Settled
    (fun watched event next emitted settled taken =>
      step_settled_iff watched next event emitted settled taken)
    _ final events lines loaded_settled done]
  constructor
  · intro completions front back middle early parts ran
    refine (settled_iff middle).mpr fun vcpus completed printed ended quiet => ?_
    exact completions front back parts vcpus completed _
      (run_append_ok _ _ _ _ _ _ _ _ ran ended) quiet
  · intro settled front back parts vcpus completed printed ran quiet
    obtain ⟨middle, early, late, first, ended, -⟩ := (run_append_iff _ _ _ _ _ _).mp ran
    exact (settled_iff middle).mp (settled front back middle early parts first)
      vcpus completed late ended quiet

/-! Two vcpus. -/

def undisturbed : List (Event 2) :=
  [.vcpuTbExecCb firstVcpu 10, .interruptRead firstVcpu, .interruptStore firstVcpu,
    .vcpuTbExecCb secondVcpu 3]

theorem undisturbed_reported :
    ∃ final lines, run (watch step note) (loaded, ⟨0, 0⟩) undisturbed = .ok (final, lines) ∧
      ∀ front back, undisturbed = front ++ back → ∀ vcpus : List (Fin 2), ∀ completed printed,
        run (watch step note) (loaded, ⟨0, 0⟩) (front ++ vcpus.map .interruptStore) =
          .ok (completed, printed) → completed.1.Quiet → Accounted completed := by
  obtain ⟨final, lines, done⟩ : ∃ final lines,
      run (watch step note) (loaded, ⟨0, 0⟩) undisturbed = .ok (final, lines) := ⟨_, _, rfl⟩
  exact ⟨final, lines, done,
    (instructions_reported_once_iff undisturbed final lines done).mpr (by decide)⟩

/-- A block of the other vcpu between the two steps of an interrupt: its instructions are
neither printed nor counted any more. -/
theorem added_between_lost :
    ∃ final lines, run (watch step note) (loaded (n := 2), ⟨0, 0⟩)
        [.vcpuTbExecCb firstVcpu 10, .interruptRead firstVcpu, .vcpuTbExecCb secondVcpu 3,
          .interruptStore firstVcpu] = .ok (final, lines) ∧
      final.1.Quiet ∧ final.2 = ⟨10, 13⟩ ∧ final.1.icount = 0 ∧ ¬ Accounted final :=
  ⟨_, _, rfl, by decide, rfl, rfl, by unfold Accounted; decide⟩

/-- Two interrupts at once print the same instructions. -/
example : ∃ final, run step (loaded (n := 2)) [.vcpuTbExecCb firstVcpu 10,
    .interruptRead firstVcpu, .interruptRead secondVcpu, .interruptStore firstVcpu,
    .interruptStore secondVcpu] = .ok (final, [10, 10]) :=
  ⟨_, rfl⟩

end Hypersh.Slomo
