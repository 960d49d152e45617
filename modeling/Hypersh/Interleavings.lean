import Mathlib.Data.List.Basic
import Mathlib.Logic.Function.Basic
import Hypersh.Transduction
import Hypersh.Callbacks
import Hypersh.Blocks
import Hypersh.Control
import Hypersh.Components
import Hypersh.System

/-!
Callbacks of several vcpus in any order. Between control commands the globals stay, and
each callback reads and writes the entry of its own vcpu only: the vcpus are components
side by side.
-/
namespace Hypersh.Interleavings
open Callbacks Blocks Control Transduction Components
variable {n : Nat}

/-- A callback of one vcpu. A system call is none that executes a program. -/
inductive Happening where
  | invoke (invocation : Invocation)
  | idle
  | resume
  | interrupt
  | interruptRet
  | syscall (num : Int) (pageDirectory : UInt64) (other : System.syscallIsExec num = false)

def Happening.event (vcpu : Fin n) : Happening → System.Event n
  | .invoke invocation => .invoke vcpu invocation
  | .idle => .idle vcpu
  | .resume => .resume vcpu
  | .interrupt => .interrupt vcpu
  | .interruptRet => .interruptRet vcpu
  | .syscall num pageDirectory _ => .syscall vcpu num pageDirectory

def events (happenings : List (Fin n × Happening)) : List (System.Event n) :=
  happenings.map fun happening => happening.2.event happening.1

/-! One vcpu by itself. -/

def set (entry : Vcpu) (effect : Effect) : Vcpu × List Call :=
  ({ entry with data := effect.1 }, effect.2)

def react (globals : Globals) (entry : Vcpu) : Happening → Except Fault (Vcpu × List Call)
  | .invoke invocation => Blocks.invoke globals entry invocation
  | .idle => .ok (set entry (vcpuIdleCb globals entry.data))
  | .resume => .ok (set entry (vcpuResumeCb entry.data))
  | .interrupt => .ok (set entry (vcpuInterruptCb globals entry.data))
  | .interruptRet => .ok (set entry (vcpuInterruptRetCb globals entry.data))
  | .syscall _ _ _ => .ok (entry, [])

def through : List Call → Option Nat → Except Fault (List (Nat × Call))
  | calls, some writer => .ok (calls.map (Prod.mk writer))
  | [], none => .ok []
  | _ :: _, none => .error .nullOutput

def component (globals : Globals) : Step Vcpu Happening (Nat × Call) Fault :=
  fun entry happening =>
    match react globals entry happening with
    | .error fault => .error fault
    | .ok (next, calls) => (through calls entry.data.output).map fun sent => (next, sent)

/-! All of them together. -/

def action (sent : Fin n × Nat × Call) : Action n := .call sent.1 sent.2.1 sent.2.2

def settle (before : Trace n) (result : (Fin n → Vcpu) × List (Fin n × Nat × Call)) :
    Trace n × List (Action n) :=
  ({ before with threads := result.1 }, result.2.map action)

theorem deliver_through (vcpu : Fin n) (calls : List Call) (trace : Trace n) :
    System.deliver vcpu calls trace =
      (through calls (trace.output vcpu)).map (List.map fun sent => action (vcpu, sent)) := by
  unfold System.deliver through
  cases trace.output vcpu with
  | some writer =>
      simp only [Except.map, List.map_map]
      rfl
  | none =>
      cases calls with
      | nil => rfl
      | cons call rest => rfl

theorem callback_settled (before : Trace n) (vcpu : Fin n) (next : Vcpu) (calls : List Call) :
    System.callback vcpu before next calls =
      ((through calls (before.output vcpu)).map fun sent =>
        (Function.update before.threads vcpu next, sent.map (Prod.mk vcpu))).map
          (settle before) := by
  rw [System.callback, deliver_through]
  cases through calls (before.output vcpu) with
  | error fault => rfl
  | ok sent =>
      simp only [Except.map, settle, System.setVcpu, List.map_map]
      rfl

/-- The plugin takes a callback as its vcpu alone does. -/
theorem step_settled (before : Trace n) (vcpu : Fin n) (happening : Happening) :
    System.step before (happening.event vcpu) =
      (composed (fun _ => component before.globals) before.threads (vcpu, happening)).map
        (settle before) := by
  have called : ∀ next calls, react before.globals (before.threads vcpu) happening =
      .ok (next, calls) → System.callback vcpu before next calls =
        (composed (fun _ => component before.globals) before.threads (vcpu, happening)).map
          (settle before) := by
    intro next calls done
    rw [callback_settled, composed, component, done]
    cases reached : through calls (before.output vcpu) with
    | error fault =>
        have stuck : through calls (before.threads vcpu).data.output = .error fault := reached
        simp only [stuck, Except.map]
    | ok sent =>
        have went : through calls (before.threads vcpu).data.output = .ok sent := reached
        simp only [went, Except.map]
  cases happening with
  | invoke invocation =>
      cases done : Blocks.invoke before.globals (before.threads vcpu) invocation with
      | error fault =>
          simp only [Happening.event, System.step, composed, component, react, done, Except.map]
      | ok result =>
          rw [← called result.1 result.2 done]
          simp only [Happening.event, System.step, done]
  | idle => exact called _ _ rfl
  | resume => exact called _ _ rfl
  | interrupt => exact called _ _ rfl
  | interruptRet => exact called _ _ rfl
  | syscall num pageDirectory other =>
      have nothing : System.step before (.syscall vcpu num pageDirectory) = .ok (before, []) := by
        rw [System.step, System.vcpuSyscallCb, other]
        split
        · rfl
        · rfl
      have quiet : through [] (before.threads vcpu).data.output = .ok [] := by
        cases (before.threads vcpu).data.output with
        | none => rfl
        | some writer => rfl
      simp only [Happening.event, nothing, composed, component, react, quiet, Except.map, settle,
        Function.update_eq_self, List.map_nil]

theorem run_settled (before : Trace n) (happenings : List (Fin n × Happening)) :
    run System.step before (events happenings) =
      (run (composed fun _ => component before.globals) before.threads happenings).map
        (settle before) := by
  induction happenings generalizing before with
  | nil => rfl
  | cons happening rest ih =>
      rcases happening with ⟨vcpu, happening⟩
      have first := step_settled before vcpu happening
      cases taken : composed (fun _ => component before.globals) before.threads
          (vcpu, happening) with
      | error fault =>
          rw [taken] at first
          simp only [events, List.map_cons, run, taken, Except.map] at first ⊢
          rw [first]
      | ok result =>
          rw [taken] at first
          have tail := ih { before with threads := result.1 }
          simp only [events, Except.map] at first tail
          simp only [events, List.map_cons, run, taken, first, settle, tail]
          cases run (composed fun _ => component before.globals) result.1 rest with
          | error fault => rfl
          | ok final => simp only [Except.map, settle, List.map_append]

theorem settle_seen (before : Trace n) (vcpu : Fin n)
    (result : (Fin n → Vcpu) × List (Fin n × Nat × Call)) :
    (settle before result).2.filterMap (System.seen vcpu) = (own vcpu result.2).map Prod.snd := by
  simp only [settle, own, List.filterMap_map, List.map_filterMap]
  apply List.filterMap_congr
  intro sent _
  simp only [Function.comp, action, System.seen]
  split
  · rfl
  · rfl

/-- Both orders leave the same entries and block counters, and the same stream of
every vcpu. -/
def Agree (before : Trace n) (left right : List (Fin n × Happening)) : Prop :=
  ∀ final actions, run System.step before (events left) = .ok (final, actions) →
    ∃ others, run System.step before (events right) = .ok (final, others) ∧
      ∀ vcpu, others.filterMap (System.seen vcpu) = actions.filterMap (System.seen vcpu)

theorem agree_reordered (before : Trace n) (left right : List (Fin n × Happening))
    (orders : ∀ vcpu, own vcpu left = own vcpu right) : Agree before left right := by
  intro final actions done
  rw [run_settled] at done
  rcases map_ok _ _ _ done with ⟨result, ran, settled⟩
  rcases run_interleaved _ before.threads result.1 left right result.2 orders ran with
    ⟨others, went, streams⟩
  refine ⟨(settle before (result.1, others)).2, ?_, ?_⟩
  · rw [run_settled, went]
    have same : (settle before (result.1, others)).1 = final := congrArg Prod.fst settled
    rw [← same]
    rfl
  · intro vcpu
    rw [settle_seen, streams vcpu, ← settle_seen before, settled]

/-- Callbacks may be interleaved in any way that keeps the order of each vcpu; two
neighbours of different vcpus commute. -/
theorem interleavings_agree (before : Trace n) :
    (∀ left right : List (Fin n × Happening), (∀ vcpu, own vcpu left = own vcpu right) →
      Agree before left right) ∧
    ∀ (front back : List (Fin n × Happening)) (first second : Fin n) (one other : Happening),
      first ≠ second →
        Agree before (front ++ (first, one) :: (second, other) :: back)
          (front ++ (second, other) :: (first, one) :: back) := by
  refine ⟨agree_reordered before, ?_⟩
  intro front back first second one other different
  apply agree_reordered
  intro vcpu
  exact own_swapped vcpu first second different one other front back

def recording₂ : Trace 2 := (startIn "d" ⟨0, none, fun _ => true⟩ (install 2)).1

def firstAhead : List (Fin 2 × Happening) :=
  [(0, .invoke (.exec .hotBlocks 7 ⟨false, 0⟩)), (0, .idle), (1, .idle)]

def secondAhead : List (Fin 2 × Happening) :=
  [(1, .idle), (0, .invoke (.exec .hotBlocks 7 ⟨false, 0⟩)), (0, .idle)]

theorem halts_interleaved :
    Agree recording₂ firstAhead secondAhead ∧
      ∃ final actions, run System.step recording₂ (events firstAhead) = .ok (final, actions) ∧
        (final.threads 0).blockCnt = [(7, 1)] := by
  refine ⟨(interleavings_agree recording₂).1 firstAhead secondAhead ?_, _, _, rfl, rfl⟩
  intro vcpu
  match vcpu with
  | 0 => rfl
  | 1 => rfl

end Hypersh.Interleavings
