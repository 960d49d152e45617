import Mathlib.Data.List.Basic
import Hypersh.Transduction

/-!
A monitor reads a stream letter by letter. It refuses a letter by what it has seen
before, and it can be stated beside a transducer: where the transducer's state and
input tell what the emitted letters do to the monitor, they tell what it accepts.
-/
namespace Monitors
open Transduction
variable {State Letter : Type}

structure Monitor (State Letter : Type) where
  next : State → Letter → State
  allows : State → Letter → Bool

def Monitor.after (monitor : Monitor State Letter) (state : State) (letters : List Letter) :
    State :=
  letters.foldl monitor.next state

def Monitor.accepts (monitor : Monitor State Letter) : State → List Letter → Bool
  | _, [] => true
  | state, letter :: rest =>
      monitor.allows state letter && monitor.accepts (monitor.next state letter) rest

theorem after_append (monitor : Monitor State Letter) (state : State) (front back : List Letter) :
    monitor.after state (front ++ back) = monitor.after (monitor.after state front) back :=
  List.foldl_append

theorem accepts_append (monitor : Monitor State Letter) (state : State)
    (front back : List Letter) :
    monitor.accepts state (front ++ back) =
      (monitor.accepts state front && monitor.accepts (monitor.after state front) back) := by
  induction front generalizing state with
  | nil => rfl
  | cons letter rest ih =>
      rw [List.cons_append, Monitor.accepts, ih, Monitor.accepts, Bool.and_assoc]
      rfl

theorem accepts_all (monitor : Monitor State Letter) (state : State) (letters : List Letter)
    (all : ∀ letter ∈ letters, ∀ at_, monitor.allows at_ letter = true) :
    monitor.accepts state letters = true := by
  induction letters generalizing state with
  | nil => rfl
  | cons letter rest ih =>
      rw [Monitor.accepts, all letter List.mem_cons_self, Bool.true_and]
      exact ih _ fun other member => all other (List.mem_cons_of_mem letter member)

def Monitor.Reads (monitor : Monitor State Letter) (state : State) (letters : List Letter)
    (final : State) : Prop :=
  monitor.accepts state letters = true ∧ monitor.after state letters = final

theorem reads_nil (monitor : Monitor State Letter) (state : State) : monitor.Reads state [] state :=
  ⟨rfl, rfl⟩

theorem reads_cons (monitor : Monitor State Letter) (state final : State) (letter : Letter)
    (rest : List Letter) (allowed : monitor.allows state letter = true)
    (later : monitor.Reads (monitor.next state letter) rest final) :
    monitor.Reads state (letter :: rest) final := by
  obtain ⟨accepted, reached⟩ := later
  constructor
  · rw [Monitor.accepts, allowed, accepted, Bool.true_and]
  · exact reached

theorem reads_append (monitor : Monitor State Letter) (state middle final : State)
    (front back : List Letter) (first : monitor.Reads state front middle)
    (second : monitor.Reads middle back final) : monitor.Reads state (front ++ back) final := by
  obtain ⟨early, reached⟩ := first
  obtain ⟨late, ended⟩ := second
  constructor
  · rw [accepts_append, early, reached, late, Bool.true_and]
  · rw [after_append, reached, ended]

variable {Machine Input Output Fault : Type}

/-- Run rule: a stream is accepted exactly when every step of the run that emits it
meets the condition. -/
theorem run_accepts_iff (monitor : Monitor State Letter) (step : Step Machine Input Output Fault)
    (read : Output → Option Letter) (note : Machine → Input → State → State)
    (condition : Machine × State → Input → Prop) (usual : Input → Prop)
    (noted : ∀ machine input next emitted state, usual input →
      step machine input = .ok (next, emitted) →
        monitor.after state (emitted.filterMap read) = note machine input state)
    (exactly : ∀ machine input next emitted state, usual input →
      step machine input = .ok (next, emitted) →
        (monitor.accepts state (emitted.filterMap read) = true ↔ condition (machine, state) input))
    (machine final : Machine) (state : State) (inputs : List Input) (outputs : List Output)
    (all : ∀ input ∈ inputs, usual input)
    (done : run step machine inputs = .ok (final, outputs)) :
    monitor.accepts state (outputs.filterMap read) = true ↔
      Along (watch step fun machine input _ state => note machine input state) condition
        (machine, state) inputs := by
  induction inputs generalizing machine state outputs with
  | nil =>
      cases done
      exact iff_of_true rfl trivial
  | cons input rest ih =>
      rcases (run_cons_iff _ _ _ _ _ _).mp done with ⟨next, early, late, first, tail, rfl⟩
      have here := all input List.mem_cons_self
      have later := ih next (note machine input state) late
        (fun other member => all other (List.mem_cons_of_mem input member)) tail
      have watched : watch step (fun machine input _ state => note machine input state)
          (machine, state) input = .ok ((next, note machine input state), early) :=
        (watch_iff _ _ _ _ _ _).mpr ⟨first, rfl⟩
      rw [List.filterMap_append, accepts_append, Bool.and_eq_true,
        noted machine input next early state here first, later,
        exactly machine input next early state here first]
      simp only [Along, watched]

/-- The monitor keeps in step with the transducer: whatever relates the two states is
kept while no letter is refused. -/
theorem along_accepts (monitor : Monitor State Letter) (step : Step Machine Input Output Fault)
    (read : Output → Option Letter) (condition : Machine → Input → Prop)
    (related : Machine → State → Prop)
    (each : ∀ machine input next emitted state, related machine state →
      condition machine input → step machine input = .ok (next, emitted) →
        monitor.accepts state (emitted.filterMap read) = true ∧
          related next (monitor.after state (emitted.filterMap read)))
    (machine final : Machine) (state : State) (inputs : List Input) (outputs : List Output)
    (along : Along step condition machine inputs) (start : related machine state)
    (done : run step machine inputs = .ok (final, outputs)) :
    monitor.accepts state (outputs.filterMap read) = true ∧
      related final (monitor.after state (outputs.filterMap read)) := by
  induction inputs generalizing machine state outputs with
  | nil =>
      cases done
      exact ⟨rfl, start⟩
  | cons input rest ih =>
      obtain ⟨next, early, late, first, tail, rfl⟩ := (run_cons_iff _ _ _ _ _ _).mp done
      obtain ⟨here, kept⟩ := each machine input next early state start along.1 first
      obtain ⟨there, reached⟩ := ih next _ late (along_next _ _ _ _ _ _ _ along first) kept tail
      rw [List.filterMap_append, accepts_append, after_append, here, there]
      exact ⟨rfl, reached⟩

theorem run_reads (monitor : Monitor State Output) (step : Step Machine Input Output Fault)
    (related : Machine → State → Prop)
    (each : ∀ machine input next emitted state, related machine state →
      step machine input = .ok (next, emitted) →
        ∃ after, monitor.Reads state emitted after ∧ related next after)
    (machine final : Machine) (state : State) (inputs : List Input) (outputs : List Output)
    (start : related machine state) (done : run step machine inputs = .ok (final, outputs)) :
    ∃ after, monitor.Reads state outputs after ∧ related final after := by
  induction inputs generalizing machine state outputs with
  | nil =>
      cases done
      exact ⟨state, reads_nil monitor state, start⟩
  | cons input rest ih =>
      obtain ⟨next, early, late, first, tail, rfl⟩ := (run_cons_iff _ _ _ _ _ _).mp done
      obtain ⟨middle, here, kept⟩ := each machine input next early state start first
      obtain ⟨after, there, reached⟩ := ih next middle late kept tail
      exact ⟨after, reads_append monitor state middle after early late here there, reached⟩

end Monitors
