import Mathlib.Data.List.FinRange
import Hypersh.Transduction
import Hypersh.Callbacks
import Hypersh.Blocks
import Hypersh.Control

/-!
Mode requests during one recording. Entering detailed mode happens at once, the
other two switches wait for their flush, and the test for "already in that mode"
reads the mode in force. The mode a quiet plugin ends in is the one its queue
settles to.
-/
namespace Hypersh.Requests
open Callbacks Control Transduction
variable {n : Nat}

inductive Turn (n : Nat) where
  | ask (vcpu : Fin n) (answers : Answers n) (request : Request)
  | flush

def Turn.event : Turn n → Event n
  | .ask vcpu answers request => .command vcpu answers (.mode request.name)
  | .flush => .deferred 0

/-- Recording, with nothing but switches to the two other modes queued. -/
structure Serving (trace : Trace n) : Prop where
  recording : trace.recording = true
  switches : ∀ callback ∈ trace.pending,
    ∃ request cpuIndex, callback = .modeSwitch request cpuIndex ∧ request ≠ .detailed

def Deferred.target (inForce : Mode) : Deferred n → Mode
  | .modeSwitch request _ => request.mode
  | _ => inForce

def settled (trace : Trace n) : Mode :=
  (trace.pending.getLast?).elim trace.globals.currentMode
    (Deferred.target trace.globals.currentMode)

/-- What an accepted request can do: nothing when its mode is in force, switch at
once for detailed, queue a switch otherwise. -/
theorem ask_cases (vcpu : Fin n) (answers : Answers n) (request : Request)
    (trace next : Trace n) (actions : List (Action n)) (recording : trace.recording = true)
    (taken : step trace (Turn.ask vcpu answers request).event = .ok (next, actions)) :
    next.recording = true ∧
    ((trace.globals.currentMode = request.mode ∧
        next.globals.currentMode = trace.globals.currentMode ∧ next.pending = trace.pending) ∨
      (trace.globals.currentMode ≠ request.mode ∧ request = .detailed ∧
        next.globals.currentMode = .detailed ∧ next.pending = trace.pending) ∨
      (trace.globals.currentMode ≠ request.mode ∧ request ≠ .detailed ∧
        next.globals.currentMode = trace.globals.currentMode ∧
        next.pending = trace.pending ++ [.modeSwitch request vcpu])) := by
  simp only [Turn.event, step, perform, recorderMode, recording, Bool.not_true,
    Bool.false_eq_true, ↓reduceIte, request_of_name] at taken
  split at taken
  · rename_i inForce
    cases taken
    exact ⟨recording, Or.inl ⟨inForce, rfl, rfl⟩⟩
  · rename_i other
    cases request with
    | detailed =>
        simp only at taken
        split at taken
        · contradiction
        · rcases map_ok _ _ _ taken with ⟨⟨reached, sent⟩, switched, seen⟩
          rcases Prod.mk.inj seen with ⟨rfl, -⟩
          rcases map_ok _ _ _ switched with ⟨call, -, same⟩
          rcases Prod.mk.inj same with ⟨rfl, -⟩
          exact ⟨recording, Or.inr (Or.inl ⟨other, rfl, rfl, rfl⟩)⟩
    | fastforward =>
        cases taken
        exact ⟨recording, Or.inr (Or.inr ⟨other, by decide, rfl, rfl⟩)⟩
    | cacheonly =>
        cases taken
        exact ⟨recording, Or.inr (Or.inr ⟨other, by decide, rfl, rfl⟩)⟩

theorem flush_cases (trace next : Trace n) (actions : List (Action n)) (serving : Serving trace)
    (taken : step trace (.deferred 0) = .ok (next, actions)) :
    next.recording = true ∧
    ((trace.pending = [] ∧ next = trace) ∨
      ∃ request cpuIndex rest, trace.pending = .modeSwitch request cpuIndex :: rest ∧
        next.globals.currentMode = request.mode ∧ next.pending = rest) := by
  simp only [step] at taken
  cases queue : trace.pending with
  | nil =>
      rw [queue] at taken
      cases taken
      exact ⟨serving.recording, Or.inl ⟨rfl, rfl⟩⟩
  | cons callback rest =>
      rcases serving.switches callback (queue ▸ List.mem_cons_self) with
        ⟨request, cpuIndex, rfl, -⟩
      rw [queue] at taken
      rcases map_ok _ _ _ taken with ⟨call, -, same⟩
      rcases Prod.mk.inj same with ⟨rfl, -⟩
      refine ⟨serving.recording, Or.inr ⟨request, cpuIndex, rest, rfl, rfl, ?_⟩⟩
      show (trace.pending.eraseIdx 0) = rest
      rw [queue]
      rfl

theorem flush_serving (trace next : Trace n) (actions : List (Action n)) (serving : Serving trace)
    (taken : step trace (.deferred 0) = .ok (next, actions)) :
    Serving next ∧ settled next = settled trace := by
  rcases flush_cases trace next actions serving taken with
    ⟨recording, ⟨-, rfl⟩ | ⟨request, cpuIndex, rest, queue, mode, left⟩⟩
  · exact ⟨serving, rfl⟩
  · constructor
    · constructor
      · exact recording
      · intro callback member
        apply serving.switches callback
        rw [queue]
        exact List.mem_cons_of_mem _ (left ▸ member)
    · -- The last queued switch is the same one, or it is the one that just ran.
      rw [settled, settled, left, queue, mode]
      cases later : rest.getLast? with
      | none =>
          rw [List.getLast?_eq_none_iff.mp later]
          rfl
      | some last =>
          have member := List.mem_of_getLast? later
          rcases serving.switches last (by rw [queue]; exact List.mem_cons_of_mem _ member) with
            ⟨request', cpuIndex', rfl, -⟩
          rw [List.getLast?_cons, later]
          rfl

theorem ask_serving (vcpu : Fin n) (answers : Answers n) (request : Request)
    (trace next : Trace n) (actions : List (Action n)) (serving : Serving trace)
    (taken : step trace (Turn.ask vcpu answers request).event = .ok (next, actions)) :
    Serving next := by
  rcases ask_cases vcpu answers request trace next actions serving.recording taken with
    ⟨recording, ⟨-, -, same⟩ | ⟨-, -, -, same⟩ | ⟨-, other, -, queued⟩⟩
  · exact ⟨recording, same ▸ serving.switches⟩
  · exact ⟨recording, same ▸ serving.switches⟩
  · constructor
    · exact recording
    · intro callback member
      rw [queued] at member
      rcases List.mem_append.mp member with early | new
      · exact serving.switches callback early
      · exact ⟨request, vcpu, List.mem_singleton.mp new, other⟩

theorem turns_serving (turns : List (Turn n)) (trace final : Trace n)
    (actions : List (Action n)) (serving : Serving trace)
    (done : run step trace (turns.map Turn.event) = .ok (final, actions)) : Serving final := by
  induction turns generalizing trace actions with
  | nil =>
      cases done
      exact serving
  | cons turn rest ih =>
      rcases (run_cons_iff _ _ _ _ _ _).mp done with ⟨next, early, late, first, tail, rfl⟩
      apply ih next late _ tail
      cases turn with
      | ask vcpu answers request =>
          exact ask_serving vcpu answers request trace next early serving first
      | flush => exact (flush_serving trace next early serving first).1

theorem flushes_settle (count : Nat) (trace final : Trace n) (actions : List (Action n))
    (serving : Serving trace)
    (done : run step trace (List.replicate count (.deferred 0)) = .ok (final, actions)) :
    settled final = settled trace := by
  induction count generalizing trace actions with
  | zero =>
      cases done
      rfl
  | succ count ih =>
      rcases (run_cons_iff _ _ _ _ _ _).mp done with ⟨next, early, late, first, tail, rfl⟩
      rcases flush_serving trace next early serving first with ⟨serving', same⟩
      rw [ih next late serving' tail, same]

theorem mode_injective (first second : Request) (same : first.mode = second.mode) :
    first = second := by
  cases first <;> cases second <;> first | rfl | contradiction

/-- The last request is not overtaken or swallowed: nothing is queued when it is
made, or it queues a switch itself, or the newest queued switch is its own. -/
def Heeded (request : Request) (trace : Trace n) : Prop :=
  trace.pending = [] ∨ (request ≠ .detailed ∧ (trace.globals.currentMode ≠ request.mode ∨
    ∃ cpuIndex, trace.pending.getLast? = some (.modeSwitch request cpuIndex)))

theorem settled_nil (trace : Trace n) (quiet : trace.pending = []) :
    settled trace = trace.globals.currentMode := by
  rw [settled, quiet]
  rfl

theorem settled_last (trace : Trace n) (request : Request) (cpuIndex : Fin n)
    (newest : trace.pending.getLast? = some (.modeSwitch request cpuIndex)) :
    settled trace = request.mode := by
  rw [settled, newest]
  rfl

theorem serving_newest (trace : Trace n) (serving : Serving trace) :
    trace.pending = [] ∨ ∃ request cpuIndex, request ≠ .detailed ∧
      trace.pending.getLast? = some (.modeSwitch request cpuIndex) := by
  cases newest : trace.pending.getLast? with
  | none => exact Or.inl (List.getLast?_eq_none_iff.mp newest)
  | some callback =>
      rcases serving.switches callback (List.mem_of_getLast? newest) with
        ⟨request, cpuIndex, rfl, apart⟩
      exact Or.inr ⟨request, cpuIndex, apart, rfl⟩

theorem ask_settles_iff (vcpu : Fin n) (answers : Answers n) (request : Request)
    (trace next : Trace n) (actions : List (Action n)) (serving : Serving trace)
    (taken : step trace (Turn.ask vcpu answers request).event = .ok (next, actions)) :
    settled next = request.mode ↔ Heeded request trace := by
  have serving' := ask_serving vcpu answers request trace next actions serving taken
  rcases ask_cases vcpu answers request trace next actions serving.recording taken with
    ⟨-, ⟨inForce, mode, same⟩ | ⟨other, rfl, mode, same⟩ | ⟨other, apart, mode, queued⟩⟩
  · -- The request is dropped; only what is queued already can end in its mode.
    rcases serving_newest trace serving with quiet | ⟨queued, cpuIndex, apart, newest⟩
    · rw [settled_nil next (same.trans quiet), mode, inForce]
      exact iff_of_true rfl (Or.inl quiet)
    · rw [settled_last next queued cpuIndex (same ▸ newest)]
      constructor
      · intro equal
        rcases mode_injective queued request equal with rfl
        exact Or.inr ⟨apart, Or.inr ⟨cpuIndex, newest⟩⟩
      · rintro (quiet | ⟨-, other | ⟨cpuIndex', newest'⟩⟩)
        · rw [quiet] at newest
          contradiction
        · exact absurd inForce other
        · rw [newest] at newest'
          cases newest'
          rfl
  · -- Detailed is entered at once and any queued switch leaves it again.
    rcases serving_newest trace serving with quiet | ⟨queued, cpuIndex, apart, newest⟩
    · rw [settled_nil next (same.trans quiet), mode]
      exact iff_of_true rfl (Or.inl quiet)
    · rw [settled_last next queued cpuIndex (same ▸ newest)]
      constructor
      · intro equal
        exact absurd (mode_injective queued .detailed equal) apart
      · rintro (quiet | ⟨differs, -⟩)
        · rw [quiet] at newest
          contradiction
        · exact absurd rfl differs
  · rw [settled_last next request vcpu (by rw [queued, List.getLast?_concat])]
    exact iff_of_true rfl (Or.inr ⟨apart, Or.inl other⟩)

/-- Whatever was asked before and however the queue ran in between, a recording
that has become quiet is in the mode last asked for exactly when that request was
heeded. -/
theorem last_request_in_force_iff (begun before final : Trace n) (turns : List (Turn n))
    (vcpu : Fin n) (answers : Answers n) (request : Request) (count : Nat)
    (early late : List (Action n)) (recording : begun.recording = true)
    (idle : begun.pending = [])
    (asked : run step begun (turns.map Turn.event) = .ok (before, early))
    (done : run step before ((Turn.ask vcpu answers request).event ::
      List.replicate count Turn.flush.event) = .ok (final, late))
    (quiet : final.pending = []) :
    final.globals.currentMode = request.mode ↔ Heeded request before := by
  have serving : Serving begun := ⟨recording, fun callback queued => by
    rw [idle] at queued
    exact absurd queued List.not_mem_nil⟩
  have served := turns_serving turns begun before early serving asked
  rcases (run_cons_iff _ _ _ _ _ _).mp done with ⟨next, sent, rest, first, tail, -⟩
  have served' := ask_serving vcpu answers request before next sent served first
  rw [← settled_nil final quiet, flushes_settle count next final rest served' tail]
  exact ask_settles_iff vcpu answers request before next sent served first

def answers₁ : Answers 1 := ⟨0x3000, none, fun _ => true⟩

def begun₁ : Trace 1 := (startIn "d" answers₁ (install 1)).1

def view (result : Trace 1 × List (Action 1)) : Mode × Nat :=
  (result.1.globals.currentMode, result.1.pending.length)

theorem view_quiet (result : Trace 1 × List (Action 1)) (mode : Mode)
    (seen : view result = (mode, 0)) :
    result.1.globals.currentMode = mode ∧ result.1.pending = [] :=
  ⟨congrArg Prod.fst seen, List.eq_nil_of_length_eq_zero (congrArg Prod.snd seen)⟩

def crowded : List (Turn 1) :=
  [.ask 0 answers₁ .detailed, .ask 0 answers₁ .cacheonly, .flush, .ask 0 answers₁ .detailed,
   .ask 0 answers₁ .fastforward]

theorem crowded_cacheonly_in_force :
    ∃ before early final late, run step begun₁ (crowded.map Turn.event) = .ok (before, early) ∧
      before.pending = [.modeSwitch .fastforward 0] ∧
      run step before ((Turn.ask 0 answers₁ .cacheonly).event ::
        List.replicate 2 Turn.flush.event) = .ok (final, late) ∧
      Heeded .cacheonly before := by
  refine ⟨_, _, _, _, rfl, rfl, rfl, ?_⟩
  exact (last_request_in_force_iff begun₁ _ _ crowded 0 answers₁ .cacheonly 2 _ _ rfl rfl rfl rfl
    rfl).mp rfl

/-- The switch to cache-only that was queued first runs last. -/
theorem detailed_overtakes_cacheonly :
    ∃ final actions, run step (install 1)
        (.command 0 answers₁ (.start (some "d")) ::
          [Turn.ask 0 answers₁ .cacheonly, Turn.ask 0 answers₁ .detailed, Turn.flush].map
            Turn.event) = .ok (final, actions) ∧
      final.pending = [] ∧ final.globals.currentMode ≠ Request.detailed.mode := by
  rcases map_ok (run step (install 1)
    (.command 0 answers₁ (.start (some "d")) ::
      [Turn.ask 0 answers₁ .cacheonly, Turn.ask 0 answers₁ .detailed, Turn.flush].map
        Turn.event)) view (.memory, 0) rfl with ⟨⟨final, actions⟩, done, seen⟩
  rcases view_quiet (final, actions) .memory seen with ⟨mode, quiet⟩
  refine ⟨final, actions, done, quiet, ?_⟩
  rw [show final.globals.currentMode = .memory from mode]
  decide

end Hypersh.Requests
