import Mathlib.Data.List.Basic
import Mathlib.Logic.Function.Basic
import Hypersh.Transduction

/-!
Components side by side. Each input is addressed to one of them and moves its state
alone, so that a run is the runs of the components, in whatever order these are
interleaved.
-/
namespace Components
open Transduction
variable {Index State Input Output Fault Item : Type} [DecidableEq Index]

def composed (step : Index → Step State Input Output Fault) :
    Step (Index → State) (Index × Input) (Index × Output) Fault :=
  fun states input =>
    (step input.1 (states input.1) input.2).map fun result =>
      (Function.update states input.1 result.1, result.2.map (Prod.mk input.1))

/-- What is addressed to one component or comes from it. -/
def own (index : Index) (tagged : List (Index × Item)) : List Item :=
  tagged.filterMap fun item => if item.1 = index then some item.2 else none

@[simp] theorem own_nil (index : Index) : own index ([] : List (Index × Item)) = [] := rfl

@[simp] theorem own_cons (index owner : Index) (item : Item) (rest : List (Index × Item)) :
    own index ((owner, item) :: rest) =
      if owner = index then item :: own index rest else own index rest := by
  unfold own
  by_cases same : owner = index
  · simp [same]
  · simp [same]

@[simp] theorem own_append (index : Index) (front back : List (Index × Item)) :
    own index (front ++ back) = own index front ++ own index back :=
  List.filterMap_append

theorem own_tagged (index owner : Index) (items : List Item) :
    own index (items.map (Prod.mk owner)) = if owner = index then items else [] := by
  induction items with
  | nil => simp
  | cons item rest ih =>
      rw [List.map_cons, own_cons, ih]
      split
      · rfl
      · rfl

theorem composed_ok (step : Index → Step State Input Output Fault) (states next : Index → State)
    (owner : Index) (input : Input) (outputs : List (Index × Output))
    (taken : composed step states (owner, input) = .ok (next, outputs)) :
    ∃ state emitted, step owner (states owner) input = .ok (state, emitted) ∧
      next = Function.update states owner state ∧ outputs = emitted.map (Prod.mk owner) := by
  rcases map_ok _ _ _ taken with ⟨⟨state, emitted⟩, moved, result⟩
  cases result
  exact ⟨state, emitted, moved, rfl, rfl⟩

theorem run_own (step : Index → Step State Input Output Fault) (states final : Index → State)
    (inputs : List (Index × Input)) (outputs : List (Index × Output)) (index : Index)
    (done : run (composed step) states inputs = .ok (final, outputs)) :
    run (step index) (states index) (own index inputs) = .ok (final index, own index outputs) := by
  induction inputs generalizing states outputs with
  | nil =>
      cases done
      rfl
  | cons input rest ih =>
      rcases input with ⟨owner, input⟩
      rcases (run_cons_iff _ _ _ _ _ _).mp done with ⟨next, emitted, later, taken, ran, rfl⟩
      rcases composed_ok step states next owner input emitted taken with ⟨state, calls, moved, rfl, rfl⟩
      have tail := ih _ later ran
      rw [own_cons, own_append, own_tagged]
      by_cases same : owner = index
      · rcases same with rfl
        rw [Function.update_self] at tail
        rw [if_pos rfl, if_pos rfl]
        exact run_cons_ok _ _ _ _ _ _ _ _ moved tail
      · rw [Function.update_of_ne (Ne.symm same)] at tail
        rw [if_neg same, if_neg same, List.nil_append]
        exact tail

theorem run_composed (step : Index → Step State Input Output Fault) (states final : Index → State)
    (inputs : List (Index × Input)) (emitted : Index → List Output)
    (done : ∀ index, run (step index) (states index) (own index inputs) =
      .ok (final index, emitted index)) :
    ∃ outputs, run (composed step) states inputs = .ok (final, outputs) ∧
      ∀ index, own index outputs = emitted index := by
  induction inputs generalizing states emitted with
  | nil =>
      have same : states = final := funext fun index =>
        congrArg Prod.fst (Except.ok.inj (done index))
      have quiet : ∀ index, [] = emitted index := fun index =>
        congrArg Prod.snd (Except.ok.inj (done index))
      rw [same]
      exact ⟨[], rfl, quiet⟩
  | cons input rest ih =>
      rcases input with ⟨owner, input⟩
      have here := done owner
      rw [own_cons, if_pos rfl] at here
      rcases (run_cons_iff _ _ _ _ _ _).mp here with ⟨state, calls, later, moved, ran, all⟩
      have tail : ∀ index, run (step index) (Function.update states owner state index)
          (own index rest) = .ok (final index, Function.update emitted owner later index) := by
        intro index
        by_cases same : index = owner
        · rcases same with rfl
          rw [Function.update_self, Function.update_self]
          exact ran
        · have other := done index
          rw [own_cons, if_neg (Ne.symm same)] at other
          rw [Function.update_of_ne same, Function.update_of_ne same]
          exact other
      rcases ih _ _ tail with ⟨outputs, went, owned⟩
      have taken : composed step states (owner, input) =
          .ok (Function.update states owner state, calls.map (Prod.mk owner)) := by
        rw [composed, moved]
        rfl
      refine ⟨_, run_cons_ok _ _ _ _ _ _ _ _ taken went, ?_⟩
      intro index
      rw [own_append, own_tagged, owned index]
      by_cases same : owner = index
      · rcases same with rfl
        rw [if_pos rfl, Function.update_self, all]
      · rw [if_neg same, Function.update_of_ne (Ne.symm same), List.nil_append]

/-- A run depends on the order of each component's inputs only. -/
theorem run_interleaved (step : Index → Step State Input Output Fault)
    (states final : Index → State) (left right : List (Index × Input))
    (outputs : List (Index × Output)) (orders : ∀ index, own index left = own index right)
    (done : run (composed step) states left = .ok (final, outputs)) :
    ∃ others, run (composed step) states right = .ok (final, others) ∧
      ∀ index, own index others = own index outputs := by
  apply run_composed step states final right (fun index => own index outputs)
  intro index
  rw [← orders index]
  exact run_own step states final left outputs index done

theorem own_swapped (index first second : Index) (different : first ≠ second) (input other : Item)
    (front back : List (Index × Item)) :
    own index (front ++ (first, input) :: (second, other) :: back) =
      own index (front ++ (second, other) :: (first, input) :: back) := by
  simp only [own_append, own_cons]
  by_cases here : first = index
  · have elsewhere : second ≠ index := fun same => different (here.trans same.symm)
    simp only [if_pos here, if_neg elsewhere]
  · simp only [if_neg here]

end Components
