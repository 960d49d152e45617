import Mathlib.Data.List.Basic

/-!
Steps that read one input, emit a list of outputs and may fault. A run feeds a
list of inputs and concatenates what was emitted; the first fault ends it. The
rules below carry facts about one step to facts about whole runs.
-/
namespace Transduction
variable {State Input Output Fault Memory : Type}

abbrev Step (State Input Output Fault : Type) :=
  State → Input → Except Fault (State × List Output)

def run (step : Step State Input Output Fault) :
    State → List Input → Except Fault (State × List Output)
  | state, [] => .ok (state, [])
  | state, input :: rest =>
      match step state input with
      | .error fault => .error fault
      | .ok (next, emitted) =>
          match run step next rest with
          | .error fault => .error fault
          | .ok (final, later) => .ok (final, emitted ++ later)

theorem run_nil (step : Step State Input Output Fault) (state : State) :
    run step state [] = .ok (state, []) := rfl

theorem run_cons_ok (step : Step State Input Output Fault) (state next final : State)
    (input : Input) (rest : List Input) (emitted later : List Output)
    (first : step state input = .ok (next, emitted))
    (tail : run step next rest = .ok (final, later)) :
    run step state (input :: rest) = .ok (final, emitted ++ later) := by
  simp only [run, first, tail]

theorem run_cons_iff (step : Step State Input Output Fault) (state final : State)
    (input : Input) (rest : List Input) (outputs : List Output) :
    run step state (input :: rest) = .ok (final, outputs) ↔
      ∃ next emitted later, step state input = .ok (next, emitted) ∧
        run step next rest = .ok (final, later) ∧ outputs = emitted ++ later := by
  constructor
  · intro done
    cases first : step state input with
    | error fault => simp [run, first] at done
    | ok result =>
        obtain ⟨next, emitted⟩ := result
        cases tail : run step next rest with
        | error fault => simp [run, first, tail] at done
        | ok result =>
            obtain ⟨last, later⟩ := result
            simp only [run, first, tail, Except.ok.injEq, Prod.mk.injEq] at done
            obtain ⟨rfl, rfl⟩ := done
            exact ⟨next, emitted, later, rfl, tail, rfl⟩
  · rintro ⟨next, emitted, later, first, tail, rfl⟩
    exact run_cons_ok step state next final input rest emitted later first tail

theorem run_singleton (step : Step State Input Output Fault) (state : State) (input : Input) :
    run step state [input] = step state input := by
  cases first : step state input with
  | error fault => simp [run, first]
  | ok result => obtain ⟨next, emitted⟩ := result; simp [run, first]

theorem run_append_ok (step : Step State Input Output Fault) (state middle final : State)
    (front back : List Input) (early late : List Output)
    (first : run step state front = .ok (middle, early))
    (second : run step middle back = .ok (final, late)) :
    run step state (front ++ back) = .ok (final, early ++ late) := by
  induction front generalizing state early with
  | nil =>
      simp only [run_nil, Except.ok.injEq, Prod.mk.injEq] at first
      obtain ⟨rfl, rfl⟩ := first
      simpa using second
  | cons input rest ih =>
      obtain ⟨next, emitted, later, head, tail, rfl⟩ :=
        (run_cons_iff step state middle input rest early).mp first
      have joined := ih next later tail
      simpa only [List.cons_append, List.append_assoc] using
        run_cons_ok step state next final input (rest ++ back) emitted _ head joined

theorem run_append_iff (step : Step State Input Output Fault) (state final : State)
    (front back : List Input) (outputs : List Output) :
    run step state (front ++ back) = .ok (final, outputs) ↔
      ∃ middle early late, run step state front = .ok (middle, early) ∧
        run step middle back = .ok (final, late) ∧ outputs = early ++ late := by
  constructor
  · intro done
    induction front generalizing state outputs with
    | nil => exact ⟨state, [], outputs, rfl, done, rfl⟩
    | cons input rest ih =>
        obtain ⟨next, emitted, later, head, tail, rfl⟩ :=
          (run_cons_iff step state final input (rest ++ back) outputs).mp done
        obtain ⟨middle, early, late, first, second, rfl⟩ := ih next later tail
        exact ⟨middle, emitted ++ early, late,
          run_cons_ok step state next middle input rest emitted early head first, second,
          (List.append_assoc _ _ _).symm⟩
  · rintro ⟨middle, early, late, first, second, rfl⟩
    exact run_append_ok step state middle final front back early late first second

/-- A coarse input is a list of fine ones: running the expansion is the same as
running coarse steps that are runs themselves. -/
theorem run_expand {Coarse : Type} (step : Step State Input Output Fault)
    (expand : Coarse → List Input) (state final : State) (inputs : List Coarse)
    (outputs : List Output) :
    run step state (inputs.flatMap expand) = .ok (final, outputs) ↔
      run (fun state input => run step state (expand input)) state inputs =
        .ok (final, outputs) := by
  induction inputs generalizing state outputs with
  | nil => simp [run]
  | cons input rest ih =>
      rw [List.flatMap_cons, run_append_iff, run_cons_iff]
      exact exists_congr fun middle => exists_congr fun early => exists_congr fun late =>
        and_congr_right fun _ => and_congr_left fun _ => ih middle late

theorem map_ok {Result View : Type} (result : Except Fault Result) (view : Result → View)
    (value : View) (seen : result.map view = .ok value) :
    ∃ reached, result = .ok reached ∧ view reached = value := by
  cases result with
  | error fault => contradiction
  | ok reached => exact ⟨reached, rfl, Except.ok.inj seen⟩

theorem map_error_iff {Result View : Type} (result : Except Fault Result) (view : Result → View)
    (fault : Fault) : result.map view = .error fault ↔ result = .error fault := by
  cases result <;> simp [Except.map]

/-- The condition holds of every state the run meets together with the input it
is about to read. A fault ends the obligation. -/
def Along (step : Step State Input Output Fault) (condition : State → Input → Prop) :
    State → List Input → Prop
  | _, [] => True
  | state, input :: rest => condition state input ∧
      match step state input with
      | .error _ => True
      | .ok (next, _) => Along step condition next rest

instance decidableAlong (step : Step State Input Output Fault)
    (condition : State → Input → Prop) [∀ state input, Decidable (condition state input)] :
    ∀ state inputs, Decidable (Along step condition state inputs)
  | _, [] => inferInstanceAs (Decidable True)
  | state, input :: rest =>
      match h : step state input with
      | .error _ => decidable_of_iff (condition state input) (by simp [Along, h])
      | .ok (next, _) =>
          have := decidableAlong step condition next rest
          decidable_of_iff (condition state input ∧ Along step condition next rest)
            (by simp [Along, h])

theorem along_next (step : Step State Input Output Fault) (condition : State → Input → Prop)
    (state next : State) (input : Input) (rest : List Input) (emitted : List Output)
    (along : Along step condition state (input :: rest))
    (taken : step state input = .ok (next, emitted)) : Along step condition next rest := by
  have later := along.2
  rw [taken] at later
  exact later

theorem along_append (step : Step State Input Output Fault) (condition : State → Input → Prop)
    (state middle : State) (front back : List Input) (early : List Output)
    (done : run step state front = .ok (middle, early)) :
    Along step condition state (front ++ back) ↔
      Along step condition state front ∧ Along step condition middle back := by
  induction front generalizing state early with
  | nil =>
      simp only [run_nil, Except.ok.injEq, Prod.mk.injEq] at done
      simp [Along, done.1]
  | cons input rest ih =>
      rcases (run_cons_iff step state middle input rest early).mp done with
        ⟨next, emitted, later, first, tail, -⟩
      simp only [List.cons_append, Along, first, ih next later tail, and_assoc]

theorem along_all (step : Step State Input Output Fault) (condition : Input → Prop)
    (state : State) (inputs : List Input) (all : ∀ input ∈ inputs, condition input) :
    Along step (fun _ input => condition input) state inputs := by
  induction inputs generalizing state with
  | nil => trivial
  | cons input rest ih =>
      apply And.intro (all input List.mem_cons_self)
      split
      · trivial
      · exact ih _ fun later member => all later (List.mem_cons_of_mem input member)

/-- What every step preserves under its condition, every run whose steps meet
the condition preserves. -/
theorem along_invariant (step : Step State Input Output Fault)
    (condition : State → Input → Prop) (invariant : State → Prop)
    (preserved : ∀ state input next emitted, invariant state → condition state input →
      step state input = .ok (next, emitted) → invariant next)
    (state final : State) (inputs : List Input) (outputs : List Output)
    (along : Along step condition state inputs) (start : invariant state)
    (done : run step state inputs = .ok (final, outputs)) : invariant final := by
  induction inputs generalizing state outputs with
  | nil =>
      simp only [run_nil, Except.ok.injEq, Prod.mk.injEq] at done
      exact done.1 ▸ start
  | cons input rest ih =>
      rcases (run_cons_iff step state final input rest outputs).mp done with
        ⟨next, emitted, later, first, tail, -⟩
      apply ih next later (along_next _ _ _ _ _ _ _ along first) _ tail
      exact preserved state input next emitted start along.1 first

theorem along_relates (step : Step State Input Output Fault)
    (condition : State → Input → Prop) (related : State → List Output → State → Prop)
    (still : ∀ state, related state [] state)
    (sequence : ∀ state middle final early late, related state early middle →
      related middle late final → related state (early ++ late) final)
    (each : ∀ state input next emitted, condition state input →
      step state input = .ok (next, emitted) → related state emitted next)
    (state final : State) (inputs : List Input) (outputs : List Output)
    (along : Along step condition state inputs)
    (done : run step state inputs = .ok (final, outputs)) : related state outputs final := by
  induction inputs generalizing state outputs with
  | nil =>
      simp only [run_nil, Except.ok.injEq, Prod.mk.injEq] at done
      obtain ⟨rfl, rfl⟩ := done
      exact still state
  | cons input rest ih =>
      obtain ⟨next, emitted, later, first, tail, rfl⟩ :=
        (run_cons_iff step state final input rest outputs).mp done
      have here := each state input next emitted along.1 first
      have there := ih next later (along_next _ _ _ _ _ _ _ along first) tail
      exact sequence state next final emitted later here there

/-- When a step keeps the invariant exactly under its condition, the steps of a run all
meet it exactly when the invariant holds wherever the run has got. -/
theorem along_iff_invariant (step : Step State Input Output Fault)
    (condition : State → Input → Prop) (invariant : State → Prop)
    (exact_ : ∀ state input next emitted, invariant state →
      step state input = .ok (next, emitted) → (condition state input ↔ invariant next))
    (state final : State) (inputs : List Input) (outputs : List Output) (start : invariant state)
    (done : run step state inputs = .ok (final, outputs)) :
    Along step condition state inputs ↔
      ∀ front back middle early, inputs = front ++ back →
        run step state front = .ok (middle, early) → invariant middle := by
  induction inputs generalizing state outputs with
  | nil =>
      refine iff_of_true trivial fun front back middle early parts ran => ?_
      obtain ⟨rfl, -⟩ := List.append_eq_nil_iff.mp parts.symm
      cases ran
      exact start
  | cons input rest ih =>
      obtain ⟨next, emitted, later, first, tail, -⟩ :=
        (run_cons_iff step state final input rest outputs).mp done
      constructor
      · rintro along front back middle early parts ran
        have kept := (exact_ state input next emitted start first).mp along.1
        have after := (ih next later kept tail).mp (along_next _ _ _ _ _ _ _ along first)
        cases front with
        | nil =>
            cases ran
            exact start
        | cons head front =>
            obtain ⟨rfl, others⟩ := List.cons.inj parts
            obtain ⟨reached, _, late, taken, ran, -⟩ := (run_cons_iff _ _ _ _ _ _).mp ran
            obtain ⟨rfl, -⟩ := Prod.mk.inj (Except.ok.inj (first.symm.trans taken))
            exact after front back middle late others ran
      · intro everywhere
        have kept := everywhere [input] rest next emitted rfl
          ((run_singleton step state input).trans first)
        refine ⟨(exact_ state input next emitted start first).mpr kept, ?_⟩
        rw [first]
        refine (ih next later kept tail).mpr fun front back middle early parts ran => ?_
        exact everywhere (input :: front) back middle _ (congrArg (List.cons input) parts)
          (run_cons_ok _ _ _ _ _ _ _ _ first ran)

theorem run_invariant (step : Step State Input Output Fault) (invariant : State → Prop)
    (preserved : ∀ state input next emitted, invariant state →
      step state input = .ok (next, emitted) → invariant next)
    (state final : State) (inputs : List Input) (outputs : List Output)
    (start : invariant state) (done : run step state inputs = .ok (final, outputs)) :
    invariant final := by
  have along := along_all step (fun _ => True) state inputs fun _ _ => trivial
  apply along_invariant step _ invariant _ state final inputs outputs along start done
  exact fun state input next emitted holds _ taken =>
    preserved state input next emitted holds taken

theorem run_history_invariant (step : Step State Input Output Fault)
    (invariant : State → List Output → Prop)
    (preserved : ∀ state past input next emitted, invariant state past →
      step state input = .ok (next, emitted) → invariant next (past ++ emitted))
    (state final : State) (past : List Output) (inputs : List Input) (outputs : List Output)
    (start : invariant state past) (done : run step state inputs = .ok (final, outputs)) :
    invariant final (past ++ outputs) := by
  induction inputs generalizing state past outputs with
  | nil =>
      simp only [run_nil, Except.ok.injEq, Prod.mk.injEq] at done
      rcases done with ⟨rfl, rfl⟩
      rw [List.append_nil]
      exact start
  | cons input rest ih =>
      rcases (run_cons_iff step state final input rest outputs).mp done with
        ⟨next, emitted, later, first, tail, rfl⟩
      rw [← List.append_assoc]
      exact ih next (past ++ emitted) later (preserved state past input next emitted start first) tail

theorem invariant_along (step : Step State Input Output Fault) (invariant : State → Prop)
    (condition : State → Input → Prop)
    (preserved : ∀ state input next emitted, invariant state →
      step state input = .ok (next, emitted) → invariant next)
    (implied : ∀ state input, invariant state → condition state input)
    (state : State) (inputs : List Input) (start : invariant state) :
    Along step condition state inputs := by
  induction inputs generalizing state with
  | nil => trivial
  | cons input rest ih =>
      apply And.intro (implied state input start)
      split
      · trivial
      · rename_i next emitted taken
        exact ih next (preserved state input next emitted start taken)

theorem run_groups_all {Group : Type} (step : Step State Input Output Fault)
    (expand : Group → List Input) (good : Output → Prop) (groups : List Group)
    (each : ∀ group ∈ groups, ∀ state final outputs,
      run step state (expand group) = .ok (final, outputs) → ∀ output ∈ outputs, good output)
    (state final : State) (outputs : List Output)
    (done : run step state (groups.flatMap expand) = .ok (final, outputs)) :
    ∀ output ∈ outputs, good output := by
  induction groups generalizing state outputs with
  | nil =>
      simp only [List.flatMap_nil, run_nil, Except.ok.injEq, Prod.mk.injEq] at done
      rw [← done.2]
      exact fun _ absent => nomatch absent
  | cons group rest ih =>
      rw [List.flatMap_cons] at done
      rcases (run_append_iff step state final _ _ outputs).mp done with
        ⟨middle, early, late, first, second, rfl⟩
      intro output member
      rcases List.mem_append.mp member with before | after
      · exact each group List.mem_cons_self state middle early first output before
      · exact ih (fun other member => each other (List.mem_cons_of_mem group member))
          middle late second output after

theorem along_groups_closed {Group : Type} (step : Step State Input Output Fault)
    (condition : State → Input → Prop) (expand : Group → List Input)
    (closed : List Output → Prop) (none_ : closed [])
    (join : ∀ front back, closed front → closed back → closed (front ++ back))
    (groups : List Group)
    (each : ∀ group ∈ groups, ∀ state final outputs, Along step condition state (expand group) →
      run step state (expand group) = .ok (final, outputs) → closed outputs)
    (state final : State) (outputs : List Output)
    (along : Along step condition state (groups.flatMap expand))
    (done : run step state (groups.flatMap expand) = .ok (final, outputs)) : closed outputs := by
  induction groups generalizing state outputs with
  | nil =>
      simp only [List.flatMap_nil, run_nil, Except.ok.injEq, Prod.mk.injEq] at done
      rw [← done.2]
      exact none_
  | cons group rest ih =>
      rw [List.flatMap_cons] at along done
      obtain ⟨middle, early, late, first, second, rfl⟩ := (run_append_iff _ _ _ _ _ _).mp done
      obtain ⟨before, after⟩ := (along_append _ _ _ _ _ _ _ first).mp along
      have here := each group List.mem_cons_self state middle early before first
      have there := ih (fun other member => each other (List.mem_cons_of_mem group member))
        middle late after second
      exact join early late here there

theorem run_all_iff (step : Step State Input Output Fault) (condition : State → Input → Prop)
    (good : Output → Prop)
    (exactly : ∀ state input next emitted, step state input = .ok (next, emitted) →
      ((∀ output ∈ emitted, good output) ↔ condition state input))
    (state final : State) (inputs : List Input) (outputs : List Output)
    (done : run step state inputs = .ok (final, outputs)) :
    (∀ output ∈ outputs, good output) ↔ Along step condition state inputs := by
  induction inputs generalizing state outputs with
  | nil =>
      simp only [run_nil, Except.ok.injEq, Prod.mk.injEq] at done
      simp [Along, ← done.2]
  | cons input rest ih =>
      rcases (run_cons_iff step state final input rest outputs).mp done with
        ⟨next, emitted, later, first, tail, rfl⟩
      simp only [Along, first, List.mem_append, or_imp, forall_and,
        exactly state input next emitted first, ih next later tail]

/-- When, under an invariant, a step dies of the fault exactly where the condition
fails, a run avoids the fault exactly when it meets the condition throughout. -/
theorem run_avoids_iff (step : Step State Input Output Fault) (fault : Fault)
    (condition : State → Input → Prop) (invariant : State → Prop)
    (preserved : ∀ state input next emitted, invariant state →
      step state input = .ok (next, emitted) → invariant next)
    (exactly : ∀ state input, invariant state →
      (step state input ≠ .error fault ↔ condition state input))
    (state : State) (inputs : List Input) (start : invariant state) :
    run step state inputs ≠ .error fault ↔ Along step condition state inputs := by
  induction inputs generalizing state with
  | nil => simp [run, Along]
  | cons input rest ih =>
      have here := exactly state input start
      cases taken : step state input with
      | error other =>
          rw [taken] at here
          simpa [run, Along, taken] using here
      | ok result =>
          rcases result with ⟨next, emitted⟩
          rw [taken] at here
          have later := ih next (preserved state input next emitted start taken)
          have met : condition state input := here.mp (fun same => nomatch same)
          cases tail : run step next rest with
          | error other =>
              rw [tail] at later
              simpa [run, Along, taken, tail, met] using later
          | ok done =>
              rw [tail] at later
              simpa [run, Along, taken, tail, met] using later

theorem along_avoids (step : Step State Input Output Fault) (fault : Fault)
    (condition : State → Input → Prop) (invariant : State → Prop)
    (preserved : ∀ state input next emitted, invariant state → condition state input →
      step state input = .ok (next, emitted) → invariant next)
    (avoids : ∀ state input, invariant state → condition state input →
      step state input ≠ .error fault)
    (state : State) (inputs : List Input) (along : Along step condition state inputs)
    (start : invariant state) : run step state inputs ≠ .error fault := by
  induction inputs generalizing state with
  | nil => simp [run]
  | cons input rest ih =>
      have first := avoids state input start along.1
      cases taken : step state input with
      | error other =>
          rw [taken] at first
          simpa [run, taken] using first
      | ok result =>
          obtain ⟨next, emitted⟩ := result
          have later := ih next (along_next _ _ _ _ _ _ _ along taken)
            (preserved state input next emitted start along.1 taken)
          cases tail : run step next rest with
          | error other =>
              rw [tail] at later
              simpa [run, taken, tail] using later
          | ok done => simp [run, taken, tail]

theorem run_lives (step : Step State Input Output Fault) (condition : Input → Prop)
    (invariant : State → Prop)
    (lives : ∀ state input, invariant state → condition input →
      ∃ next emitted, step state input = .ok (next, emitted) ∧ invariant next)
    (state : State) (inputs : List Input) (all : ∀ input ∈ inputs, condition input)
    (start : invariant state) :
    ∃ final outputs, run step state inputs = .ok (final, outputs) ∧ invariant final := by
  induction inputs generalizing state with
  | nil => exact ⟨state, [], rfl, start⟩
  | cons input rest ih =>
      obtain ⟨here, later⟩ := List.forall_mem_cons.mp all
      obtain ⟨next, emitted, first, kept⟩ := lives state input start here
      obtain ⟨final, outputs, tail, ended⟩ := ih next later kept
      exact ⟨final, _, run_cons_ok _ _ _ _ _ _ _ _ first tail, ended⟩

/-- Simulation: when every step is matched by a run of the abstract step that
emits what can be seen of the outputs, so is every run. -/
theorem run_simulates {Abstract Small Seen : Type} (step : Step State Input Output Fault)
    (abstract : Step Abstract Small Seen Fault) (view : State → Abstract)
    (small : Input → List Small) (seen : Output → Option Seen)
    (matched : ∀ state input next emitted, step state input = .ok (next, emitted) →
      run abstract (view state) (small input) = .ok (view next, emitted.filterMap seen))
    (state final : State) (inputs : List Input) (outputs : List Output)
    (done : run step state inputs = .ok (final, outputs)) :
    run abstract (view state) (inputs.flatMap small) =
      .ok (view final, outputs.filterMap seen) := by
  induction inputs generalizing state outputs with
  | nil =>
      simp only [run_nil, Except.ok.injEq, Prod.mk.injEq] at done
      rw [← done.1, ← done.2]
      rfl
  | cons input rest ih =>
      rcases (run_cons_iff step state final input rest outputs).mp done with
        ⟨next, emitted, later, first, tail, rfl⟩
      rw [List.flatMap_cons, List.filterMap_append]
      exact run_append_ok _ _ _ _ _ _ _ _ (matched state input next emitted first)
        (ih next later tail)

theorem run_refines {Abstract Small Seen : Type} (step : Step State Input Output Fault)
    (abstract : Step Abstract Small Seen Fault) (view : State → Abstract)
    (seen : Output → Option Seen)
    (matched : ∀ state input next emitted, step state input = .ok (next, emitted) →
      ∃ small, run abstract (view state) small = .ok (view next, emitted.filterMap seen))
    (state final : State) (inputs : List Input) (outputs : List Output)
    (done : run step state inputs = .ok (final, outputs)) :
    ∃ small, run abstract (view state) small = .ok (view final, outputs.filterMap seen) := by
  induction inputs generalizing state outputs with
  | nil =>
      simp only [run_nil, Except.ok.injEq, Prod.mk.injEq] at done
      rcases done with ⟨rfl, rfl⟩
      exact ⟨[], rfl⟩
  | cons input rest ih =>
      rcases (run_cons_iff step state final input rest outputs).mp done with
        ⟨next, emitted, later, first, tail, rfl⟩
      rcases matched state input next emitted first with ⟨front, early⟩
      rcases ih next later tail with ⟨back, late⟩
      rw [List.filterMap_append]
      exact ⟨front ++ back, run_append_ok _ _ _ _ _ _ _ _ early late⟩

/-- The step with a memory beside its state: `note` writes down what was read
and what was emitted, and the step never looks at it. -/
def watch (step : Step State Input Output Fault)
    (note : State → Input → List Output → Memory → Memory) :
    Step (State × Memory) Input Output Fault :=
  fun watched input => (step watched.1 input).map fun result =>
    ((result.1, note watched.1 input result.2 watched.2), result.2)

theorem watch_iff (step : Step State Input Output Fault)
    (note : State → Input → List Output → Memory → Memory) (before after : State × Memory)
    (input : Input) (emitted : List Output) :
    watch step note before input = .ok (after, emitted) ↔
      step before.1 input = .ok (after.1, emitted) ∧
        after.2 = note before.1 input emitted before.2 := by
  rcases before with ⟨state, memory⟩
  rcases after with ⟨next, noted⟩
  cases taken : step state input with
  | error fault => simp [watch, taken, Except.map]
  | ok result =>
      rcases result with ⟨reached, calls⟩
      simp only [watch, taken, Except.map, Except.ok.injEq, Prod.mk.injEq]
      constructor
      · rintro ⟨⟨rfl, rfl⟩, rfl⟩
        exact ⟨⟨rfl, rfl⟩, rfl⟩
      · rintro ⟨⟨rfl, rfl⟩, rfl⟩
        exact ⟨⟨rfl, rfl⟩, rfl⟩

def labelled {Label : Type} (step : Step State Input Output Fault) (label : State → Label) :
    Step State Input (Label × Output) Fault :=
  fun state input => (step state input).map fun result =>
    (result.1, result.2.map (Prod.mk (label state)))

theorem labelled_iff {Label : Type} (step : Step State Input Output Fault) (label : State → Label)
    (state next : State) (input : Input) (written : List (Label × Output)) :
    labelled step label state input = .ok (next, written) ↔
      ∃ emitted, step state input = .ok (next, emitted) ∧
        written = emitted.map (Prod.mk (label state)) := by
  constructor
  · intro taken
    rcases map_ok _ _ _ taken with ⟨⟨reached, emitted⟩, stepped, same⟩
    rcases Prod.mk.inj same with ⟨rfl, rfl⟩
    exact ⟨emitted, stepped, rfl⟩
  · rintro ⟨emitted, stepped, rfl⟩
    rw [labelled, stepped]
    rfl

theorem run_labelled_lift {Label : Type} (step : Step State Input Output Fault)
    (label : State → Label) (state final : State) (inputs : List Input) (outputs : List Output)
    (done : run step state inputs = .ok (final, outputs)) :
    ∃ written, run (labelled step label) state inputs = .ok (final, written) ∧
      written.map Prod.snd = outputs := by
  induction inputs generalizing state outputs with
  | nil =>
      simp only [run_nil, Except.ok.injEq, Prod.mk.injEq] at done
      rcases done with ⟨rfl, rfl⟩
      exact ⟨[], rfl, rfl⟩
  | cons input rest ih =>
      rcases (run_cons_iff _ _ _ _ _ _).mp done with ⟨next, early, late, first, tail, rfl⟩
      rcases ih next late tail with ⟨written, ran, same⟩
      refine ⟨early.map (Prod.mk (label state)) ++ written, ?_, ?_⟩
      · exact run_cons_ok _ _ next _ _ _ _ _
          ((labelled_iff _ _ _ _ _ _).mpr ⟨early, first, rfl⟩) ran
      · rw [List.map_append, same, List.map_map]
        exact congrArg (· ++ late) (List.map_id early)

/-! Exact simulation. -/

def glimpse {Abstract Seen : Type} (view : State → Abstract) (seen : Output → Option Seen)
    (result : Except Fault (State × List Output)) : Except Fault (Abstract × List Seen) :=
  result.map fun done => (view done.1, done.2.filterMap seen)

theorem run_append (step : Step State Input Output Fault) (state : State)
    (front back : List Input) :
    run step state (front ++ back) =
      match run step state front with
      | .error fault => .error fault
      | .ok (middle, early) =>
          (run step middle back).map fun done => (done.1, early ++ done.2) := by
  induction front generalizing state with
  | nil =>
      cases ran : run step state back with
      | error fault => simp [run, ran, Except.map]
      | ok result => simp [run, ran, Except.map]
  | cons input rest ih =>
      simp only [List.cons_append, run]
      cases step state input with
      | error fault => rfl
      | ok first =>
          simp only [ih]
          cases run step first.1 rest with
          | error fault => rfl
          | ok second =>
              cases last : run step second.1 back with
              | error fault => simp [Except.map, last]
              | ok third => simp [Except.map, last]

/-- Where every step of an admissible input looks like the run of what the input means,
every run of admissible inputs does. -/
theorem run_glimpse {Abstract Small Seen : Type} (step : Step State Input Output Fault)
    (abstract : Step Abstract Small Seen Fault) (view : State → Abstract)
    (seen : Output → Option Seen) (means : Input → List Small) (invariant : State → Prop)
    (admissible : Input → Prop)
    (matched : ∀ state input, invariant state → admissible input →
      glimpse view seen (step state input) = run abstract (view state) (means input))
    (kept : ∀ state input next emitted, invariant state → admissible input →
      step state input = .ok (next, emitted) → invariant next)
    (state : State) (inputs : List Input) (holds : invariant state)
    (all : ∀ input ∈ inputs, admissible input) :
    glimpse view seen (run step state inputs) =
      run abstract (view state) (inputs.flatMap means) := by
  induction inputs generalizing state with
  | nil => rfl
  | cons input rest ih =>
      obtain ⟨here, later⟩ := List.forall_mem_cons.mp all
      rw [List.flatMap_cons, run_append, ← matched state input holds here]
      cases first : step state input with
      | error fault => simp only [run, first, glimpse, Except.map]
      | ok result =>
          obtain ⟨next, emitted⟩ := result
          have tail := ih next (kept state input next emitted holds here first) later
          simp only [glimpse] at tail
          simp only [run, first, glimpse, Except.map, ← tail]
          cases run step next rest with
          | error fault => rfl
          | ok last => simp

theorem run_tells {Seen : Type} (step : Step State Input Output Fault)
    (seen : Output → Option Seen) (tells : Input → List Seen) (invariant : State → Prop)
    (admissible : Input → Prop)
    (each : ∀ state input next emitted, invariant state → admissible input →
      step state input = .ok (next, emitted) →
        invariant next ∧ emitted.filterMap seen = tells input)
    (state final : State) (inputs : List Input) (outputs : List Output) (holds : invariant state)
    (all : ∀ input ∈ inputs, admissible input)
    (done : run step state inputs = .ok (final, outputs)) :
    invariant final ∧ outputs.filterMap seen = inputs.flatMap tells := by
  induction inputs generalizing state outputs with
  | nil =>
      simp only [run_nil, Except.ok.injEq, Prod.mk.injEq] at done
      obtain ⟨rfl, rfl⟩ := done
      exact ⟨holds, rfl⟩
  | cons input rest ih =>
      obtain ⟨here, later⟩ := List.forall_mem_cons.mp all
      obtain ⟨next, emitted, late, first, tail, rfl⟩ := (run_cons_iff _ _ _ _ _ _).mp done
      obtain ⟨good, told⟩ := each state input next emitted holds here first
      obtain ⟨last, same⟩ := ih next late good later tail
      refine ⟨last, ?_⟩
      rw [List.filterMap_append, told, same, List.flatMap_cons]

end Transduction
