import Mathlib.Data.List.Basic
import Hypersh.Transduction

/-!
Outputs that rest on earlier ones. A need relates an output to the outputs before it;
in a justified list every output finds what it needs.
-/
namespace Precedence
open Transduction

variable {State Input Output Fault : Type} (need : List Output → Output → Prop)

def Justified (outputs : List Output) : Prop :=
  ∀ front output back, outputs = front ++ output :: back → need front output

/-- What is met stays met when more comes in front. -/
def Lasting : Prop :=
  ∀ past front output, need front output → need (past ++ front) output

theorem justified_unneeded (outputs : List Output)
    (free : ∀ output ∈ outputs, ∀ past, need past output) : Justified need outputs := by
  intro front output back parts
  apply free output _ front
  rw [parts]
  exact List.mem_append_right front List.mem_cons_self

theorem justified_nil : Justified need [] :=
  justified_unneeded need [] fun _ absent => absurd absent List.not_mem_nil

theorem justified_cons (output : Output) (rest : List Output) :
    Justified need (output :: rest) ↔
      need [] output ∧ Justified (fun past => need (output :: past)) rest := by
  constructor
  · intro whole
    refine ⟨whole [] output rest rfl, fun front later back parts => ?_⟩
    apply whole (output :: front) later back
    rw [parts, List.cons_append]
  · rintro ⟨here, later⟩ front other back parts
    cases front with
    | nil =>
        obtain ⟨rfl, -⟩ := List.cons.inj parts
        exact here
    | cons head front =>
        obtain ⟨rfl, tail⟩ := List.cons.inj parts
        exact later front other back tail

theorem justified_append (front back : List Output) :
    Justified need (front ++ back) ↔
      Justified need front ∧ Justified (fun past => need (front ++ past)) back := by
  induction front generalizing need with
  | nil => exact (and_iff_right (justified_nil need)).symm
  | cons output rest ih =>
      rw [List.cons_append, justified_cons, ih, justified_cons, and_assoc]
      rfl

theorem justified_join (lasting : Lasting need) (front back : List Output)
    (first : Justified need front) (second : Justified need back) :
    Justified need (front ++ back) := by
  apply (justified_append need front back).mpr
  refine ⟨first, fun early output late parts => ?_⟩
  exact lasting front early output (second early output late parts)

/-- What a run may rely on of its past, when every step leaves it to the next one. -/
theorem run_justified (step : Step State Input Output Fault) (holds : State → List Output → Prop)
    (each : ∀ state past input next emitted, holds state past →
      step state input = .ok (next, emitted) →
        Justified (fun later => need (past ++ later)) emitted ∧ holds next (past ++ emitted))
    (state final : State) (past : List Output) (inputs : List Input) (outputs : List Output)
    (start : holds state past) (done : run step state inputs = .ok (final, outputs)) :
    Justified (fun later => need (past ++ later)) outputs := by
  induction inputs generalizing state past outputs with
  | nil =>
      obtain ⟨rfl, rfl⟩ := Prod.mk.inj (Except.ok.inj done)
      exact justified_nil _
  | cons input rest ih =>
      obtain ⟨next, emitted, later, first, tail, rfl⟩ :=
        (run_cons_iff step state final input rest outputs).mp done
      obtain ⟨here, held⟩ := each state past input next emitted start first
      have there := ih next (past ++ emitted) later held tail
      simp only [List.append_assoc] at there
      exact (justified_append _ emitted later).mpr ⟨here, there⟩

end Precedence
