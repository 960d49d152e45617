import Mathlib.Data.List.FinRange
import Hypersh.Transduction
import Hypersh.Callbacks
import Hypersh.Blocks
import Hypersh.Control
import Hypersh.Writers
import Hypersh.System
import Hypersh.Inversion
import Hypersh.Emulation

/-!
How a recording ends. A stop only queues its callback; the vcpus first leave their
blocks, and what was queued before takes its turn.
-/
namespace Hypersh.Shutdown
open Callbacks Blocks Transduction Emulation
open Control hiding step Event Event.begins
variable {n : Nat}

def left (running : Option Running) : Nat := running.elim 0 fun inside => inside.rest.length + 1

def finish (machine : Machine n) : List (Event n) :=
  (List.finRange n).flatMap fun vcpu => List.replicate (left (machine.running vcpu)) (.advance vcpu)

/-- The vcpus leave their blocks, then everything queued has its turn. -/
def windDown (machine : Machine n) : List (Event n) :=
  finish machine ++ List.replicate machine.trace.pending.length (.deferred 0)

structure Over (machine : Machine n) : Prop where
  recording : machine.trace.recording = false
  writers : ∀ vcpu, machine.trace.output vcpu = none
  files : machine.trace.traceFiles = []
  queue : machine.trace.pending = []
  attached : machine.attached = false
  cache : ∀ block ∈ machine.cache, block.mode = none
  outside : ∀ vcpu, machine.running vcpu = none

/-- Nothing more is commanded, and what is queued has its turn in the order of the queue. -/
def Behind : Event n → Prop
  | .command _ _ _ => False
  | .deferred index => index = 0
  | event => event.Follows

/-- The one stop that has been asked for is the last in the queue, or has had its turn. -/
structure Ending (machine : Machine n) : Prop where
  steady : Steady machine
  branching : Branching machine
  stage : (machine.trace.recording = true ∧
      ∃ queue, machine.trace.pending = queue ++ [.stop] ∧ .stop ∉ queue) ∨ Over machine

theorem callback_queue (vcpu : Fin n) (trace next : Trace n) (entry : Vcpu) (calls : List Call)
    (actions : List (Action n))
    (taken : System.callback vcpu trace entry calls = .ok (next, actions)) :
    next.pending = trace.pending := by
  obtain ⟨sent, -, same⟩ := map_ok _ _ _ taken
  obtain ⟨rfl, -⟩ := Prod.mk.inj same
  rfl

theorem guest_queue (event : System.Event n) (trace next : Trace n) (actions : List (Action n))
    (guest : ∀ control, event ≠ .control control)
    (taken : System.step trace event = .ok (next, actions)) : next.pending = trace.pending := by
  cases event with
  | control event => exact absurd rfl (guest event)
  | invoke vcpu invocation =>
      obtain ⟨entry, calls, -, called⟩ :=
        System.invoke_cases vcpu trace next invocation actions taken
      exact callback_queue vcpu trace next entry calls actions called
  | syscall vcpu num pageDirectory =>
      simp only [System.step, System.vcpuSyscallCb] at taken
      split at taken
      · cases taken
        rfl
      · split at taken
        · obtain ⟨flushed, -, same⟩ := map_ok _ _ _ taken
          obtain ⟨rfl, -⟩ := Prod.mk.inj same
          rfl
        · cases taken
          rfl
  | idle vcpu | resume vcpu | interrupt vcpu | interruptRet vcpu =>
      exact callback_queue vcpu trace next _ _ actions taken

theorem guest_going (event : System.Event n) (trace next : Trace n) (actions : List (Action n))
    (guest : ∀ control, event ≠ .control control)
    (taken : System.step trace event = .ok (next, actions)) :
    next.recording = trace.recording ∧ next.pending = trace.pending :=
  ⟨(Inversion.guest_quiet event trace next actions guest taken).1.recording,
    guest_queue event trace next actions guest taken⟩

theorem guest_ending (emulator : Emulator n) (machine next : Machine n) (event : Event n)
    (actions : List (Action n)) (guest : event.controls = false)
    (taken : step emulator machine event = .ok (next, actions)) :
    next.trace.recording = machine.trace.recording ∧
      next.trace.pending = machine.trace.pending ∧ (Over machine → Over next) := by
  cases step_moved emulator machine next event actions taken with
  | idle event => exact ⟨rfl, rfl, id⟩
  | command vcpu answers command reached actions done => cases guest
  | deferred index callback reached actions alone present done => cases guest
  | flush alone waiting =>
      exact ⟨rfl, rfl, fun gone =>
        { gone with cache := fun _ absent => absurd absent List.not_mem_nil }⟩
  | translate tb =>
      refine ⟨rfl, rfl, fun gone => { gone with cache := fun block member => ?_ }⟩
      rcases List.mem_append.mp member with before | new
      · exact gone.cache block before
      · rw [List.mem_singleton.mp new, gone.attached]
        rfl
  | enter vcpu index cpu started block mode outside cached =>
      refine ⟨rfl, rfl, fun gone => ?_⟩
      cases gone.cache _ (List.mem_of_getElem? cached)
  | leave vcpu =>
      refine ⟨rfl, rfl, fun gone => { gone with outside := fun other => ?_ }⟩
      by_cases own : other = vcpu
      · simp [Machine.run, own]
      · simpa [Machine.run, Function.update_of_ne own] using gone.outside other
  | advance vcpu mode invocation rest reached actions inside done =>
      obtain ⟨recording, queue⟩ := guest_going _ _ reached actions (by simp) done
      refine ⟨recording, queue, fun gone => ?_⟩
      rw [gone.outside vcpu] at inside
      cases inside
  | report report reached actions attached done =>
      obtain ⟨recording, queue⟩ := guest_going _ _ reached actions (report_guest report) done
      refine ⟨recording, queue, fun gone => ?_⟩
      rw [gone.attached] at attached
      cases attached

theorem turn_lives (trace : Trace n) (callback : Deferred n) (queue : List (Deferred n))
    (owned : Writers.Owned trace) (recording : trace.recording = true)
    (queued : trace.pending = callback :: queue) :
    ∃ result, System.step trace (.control (.deferred 0)) = .ok result := by
  have present : trace.pending[0]? = some callback := by
    rw [queued]
    rfl
  simp only [System.step, Control.step, present, runDeferred]
  cases callback with
  | stop => exact ⟨_, rfl⟩
  | reset vcpu => exact ⟨_, rfl⟩
  | modeSwitch request vcpu =>
      obtain ⟨writer, held⟩ := Option.isSome_iff_exists.mp (owned.open_ recording vcpu)
      have called : callOutput vcpu (.magic request.simOpt) (trace.dequeue 0) =
          .ok (.call vcpu writer (.magic request.simOpt)) := by
        unfold callOutput
        rw [show (trace.dequeue 0).output vcpu = some writer from held]
      simp only [doModeSwitch, called, Except.map]
      exact ⟨_, rfl⟩

theorem turn_queue (trace next : Trace n) (callback : Deferred n) (queue : List (Deferred n))
    (actions : List (Action n)) (queued : trace.pending = callback :: queue)
    (taken : System.step trace (.control (.deferred 0)) = .ok (next, actions)) :
    next.pending = queue := by
  have present : trace.pending[0]? = some callback := by
    rw [queued]
    rfl
  have rest : (trace.dequeue 0).pending = queue := by
    simp [Trace.dequeue, queued]
  simp only [System.step, Control.step, present] at taken
  cases callback with
  | modeSwitch request vcpu =>
      obtain ⟨-, -, rfl, -⟩ := Inversion.switch_said request vcpu _ next actions taken
      exact rest
  | reset vcpu =>
      cases taken
      exact rest
  | stop =>
      cases taken
      exact rest

theorem turn_taken (emulator : Emulator n) (machine : Machine n) (callback : Deferred n)
    (queue : List (Deferred n)) (reached : Trace n) (actions : List (Action n))
    (ready : emulator.ready machine = true) (queued : machine.trace.pending = callback :: queue)
    (done : System.step machine.trace (.control (.deferred 0)) = .ok (reached, actions)) :
    step emulator machine (.deferred 0) = .ok ({ machine with
      trace := reached
      attached := machine.attached && !detaches callback
      cache := [] }, actions) := by
  have present : machine.trace.pending[0]? = some callback := by
    rw [queued]
    rfl
  simp only [step, ready, present, done]
  rfl

theorem stop_over (trace next : Trace n) (actions : List (Action n))
    (queued : trace.pending = [.stop])
    (taken : System.step trace (.control (.deferred 0)) = .ok (next, actions)) :
    next.recording = false ∧ (∀ vcpu, next.output vcpu = none) ∧ next.traceFiles = [] := by
  have present : trace.pending[0]? = some .stop := by
    rw [queued]
    rfl
  simp only [System.step, Control.step, present] at taken
  cases taken
  exact ⟨rfl, fun _ => rfl, rfl⟩

theorem turn_ending (emulator : Emulator n) (machine : Machine n) (queue : List (Deferred n))
    (steady : Steady machine) (branching : Branching machine)
    (recording : machine.trace.recording = true) (ready : emulator.ready machine = true)
    (queued : machine.trace.pending = queue ++ [.stop]) (before : .stop ∉ queue) :
    ∃ next said, step emulator machine (.deferred 0) = .ok (next, said) ∧ Ending next := by
  have alone := emulator.waits machine ready
  cases queue with
  | nil =>
      obtain ⟨⟨reached, said⟩, done⟩ :=
        turn_lives machine.trace .stop [] steady.owned recording queued
      have taken := turn_taken emulator machine .stop [] reached said ready queued done
      obtain ⟨idle, writers, files⟩ := stop_over machine.trace reached said queued done
      refine ⟨_, said, taken, step_steady emulator machine _ _ said steady taken,
        step_branching emulator machine _ (.deferred 0) said steady branching trivial taken,
        .inr ⟨idle, writers, files, ?_, Bool.and_false _, ?_, alone⟩⟩
      · exact turn_queue machine.trace reached .stop [] said queued done
      · exact fun _ absent => absurd absent List.not_mem_nil
  | cons callback rest =>
      rw [List.cons_append] at queued
      obtain ⟨⟨reached, said⟩, done⟩ :=
        turn_lives machine.trace callback _ steady.owned recording queued
      have taken := turn_taken emulator machine callback _ reached said ready queued done
      have goes := deferred_recording 0 callback machine.trace reached said
        (by rw [queued]; rfl) done
      have detached : detaches callback = false := by
        cases callback with
        | stop => exact absurd List.mem_cons_self before
        | _ => rfl
      rw [recording, detached] at goes
      exact ⟨_, said, taken, step_steady emulator machine _ _ said steady taken,
        step_branching emulator machine _ (.deferred 0) said steady branching trivial taken,
        .inl ⟨goes, rest, turn_queue machine.trace reached callback _ said queued done,
          fun member => before (List.mem_cons_of_mem callback member)⟩⟩

theorem step_ending (emulator : Emulator n) (machine : Machine n) (event : Event n)
    (ending : Ending machine) (behind : Behind event) :
    ∃ next said, step emulator machine event = .ok (next, said) ∧ Ending next := by
  obtain ⟨steady, branching, stage⟩ := ending
  have goes : event.controls = false → event.Follows →
      ∃ next said, step emulator machine event = .ok (next, said) ∧ Ending next := by
    intro guest follows
    obtain ⟨⟨next, said⟩, taken⟩ := steady_lives emulator machine event steady branching guest
    obtain ⟨recording, queue, gone⟩ := guest_ending emulator machine next event said guest taken
    refine ⟨next, said, taken, step_steady emulator machine next event said steady taken,
      step_branching emulator machine next event said steady branching follows taken, ?_⟩
    rw [recording, queue]
    exact stage.imp_right gone
  cases event with
  | command vcpu answers command => exact behind.elim
  | deferred index =>
      obtain rfl : index = 0 := behind
      cases ready : emulator.ready machine with
      | false => exact ⟨machine, [], by simp only [step, ready], steady, branching, stage⟩
      | true =>
          obtain ⟨recording, queue, queued, before⟩ | gone := stage
          · exact turn_ending emulator machine queue steady branching recording ready queued before
          · exact ⟨machine, [], by simp [step, gone.queue], steady, branching, .inr gone⟩
  | _ => exact goes rfl behind

/-! The vcpus and the queue run out. -/

def further : Option Running → Option Running
  | some ⟨mode, _ :: rest⟩ => some ⟨mode, rest⟩
  | _ => none

theorem advance_further (emulator : Emulator n) (machine next : Machine n) (vcpu : Fin n)
    (said : List (Action n)) (taken : step emulator machine (.advance vcpu) = .ok (next, said)) :
    next.running = Function.update machine.running vcpu (further (machine.running vcpu)) ∧
      next.trace.pending = machine.trace.pending := by
  refine ⟨?_, (guest_ending emulator machine next _ said rfl taken).2.1⟩
  simp only [step] at taken
  split at taken
  · rename_i outside
    cases taken
    rw [outside]
    show machine.running = Function.update machine.running vcpu none
    rw [← outside, Function.update_eq_self]
  · rename_i inside
    cases taken
    rw [inside]
    rfl
  · rename_i mode invocation rest inside
    obtain ⟨reached, done, rfl⟩ := map_step machine.trace _
      (fun result => { machine with trace := result.1 }.run vcpu (some ⟨mode, rest⟩)) next said taken
    rw [inside]
    rfl

theorem finish_vcpu (emulator : Emulator n) (machine next : Machine n) (vcpu : Fin n)
    (said : List (Action n))
    (ran : run (step emulator) machine
      (List.replicate (left (machine.running vcpu)) (.advance vcpu)) = .ok (next, said)) :
    next.running = Function.update machine.running vcpu none ∧
      next.trace.pending = machine.trace.pending := by
  -- Induction on the callbacks that are left; the last step leaves the block.
  induction steps : left (machine.running vcpu) generalizing machine said with
  | zero =>
      have outside : machine.running vcpu = none := by
        cases inside : machine.running vcpu with
        | none => rfl
        | some running => simp [left, inside] at steps
      rw [steps] at ran
      cases ran
      rw [← outside, Function.update_eq_self]
      exact ⟨rfl, rfl⟩
  | succ steps_ ih =>
      rw [steps, List.replicate_succ] at ran
      obtain ⟨middle, early, late, first, tail, rfl⟩ := (run_cons_iff _ _ _ _ _ _).mp ran
      obtain ⟨moved, queue⟩ := advance_further emulator machine middle vcpu early first
      have fewer : left (middle.running vcpu) = steps_ := by
        rw [moved, Function.update_self]
        cases inside : machine.running vcpu with
        | none => simp [left, inside] at steps
        | some running =>
            obtain ⟨mode, rest⟩ := running
            rw [inside] at steps
            cases rest with
            | nil => exact Nat.succ.inj steps
            | cons invocation rest => exact Nat.succ.inj steps
      rw [← fewer] at tail
      obtain ⟨reached, same⟩ := ih middle late tail fewer
      rw [reached, same, moved, queue, Function.update_idem]
      exact ⟨rfl, rfl⟩

theorem finish_vcpus (emulator : Emulator n) (vcpus : List (Fin n)) (machine next : Machine n)
    (said : List (Action n)) (distinct : vcpus.Nodup)
    (ran : run (step emulator) machine (vcpus.flatMap fun vcpu =>
      List.replicate (left (machine.running vcpu)) (.advance vcpu)) = .ok (next, said)) :
    (∀ vcpu, next.running vcpu = if vcpu ∈ vcpus then none else machine.running vcpu) ∧
      next.trace.pending = machine.trace.pending := by
  induction vcpus generalizing machine said with
  | nil =>
      cases ran
      exact ⟨fun _ => rfl, rfl⟩
  | cons first rest ih =>
      obtain ⟨absent, later⟩ := List.nodup_cons.mp distinct
      rw [List.flatMap_cons] at ran
      obtain ⟨middle, early, late, own, tail, -⟩ := (run_append_iff _ _ _ _ _ _).mp ran
      obtain ⟨moved, queue⟩ := finish_vcpu emulator machine middle first early own
      -- The others are where they were.
      have same : (rest.flatMap fun vcpu =>
          List.replicate (left (machine.running vcpu)) (Event.advance vcpu)) =
          rest.flatMap fun vcpu =>
            List.replicate (left (middle.running vcpu)) (Event.advance vcpu) := by
        apply List.flatMap_congr
        intro vcpu member
        have apart : vcpu ≠ first := fun same => absent (same ▸ member)
        rw [moved, Function.update_of_ne apart]
      rw [same] at tail
      obtain ⟨reached, kept⟩ := ih middle late later tail
      refine ⟨fun vcpu => ?_, kept.trans queue⟩
      rw [reached, moved]
      by_cases own : vcpu = first
      · obtain rfl := own
        simp
      · simp [own]

theorem drain (emulator : Emulator n)
    (grants : ∀ machine : Machine n, (∀ vcpu, machine.running vcpu = none) →
      emulator.ready machine = true)
    (queue : List (Deferred n)) (machine next : Machine n) (said : List (Action n))
    (outside : ∀ vcpu, machine.running vcpu = none) (queued : machine.trace.pending = queue)
    (ran : run (step emulator) machine (List.replicate queue.length (.deferred 0)) =
      .ok (next, said)) : next.trace.pending = [] := by
  induction queue generalizing machine said with
  | nil =>
      cases ran
      exact queued
  | cons callback rest ih =>
      rw [List.length_cons, List.replicate_succ] at ran
      obtain ⟨middle, early, late, first, tail, -⟩ := (run_cons_iff _ _ _ _ _ _).mp ran
      have present : machine.trace.pending[0]? = some callback := by
        rw [queued]
        rfl
      simp only [step, grants machine outside, present] at first
      obtain ⟨reached, done, rfl⟩ := map_step machine.trace _ (fun result => { machine with
        trace := result.1
        attached := machine.attached && !detaches callback
        cache := [] }) middle early first
      exact ih { machine with
        trace := reached
        attached := machine.attached && !detaches callback
        cache := [] } late outside
        (turn_queue machine.trace reached callback rest early queued done) tail

theorem finish_behind (machine : Machine n) : ∀ event ∈ finish machine, Behind event := by
  intro event member
  obtain ⟨vcpu, -, inside⟩ := List.mem_flatMap.mp member
  rw [List.eq_of_mem_replicate inside]
  trivial

theorem queue_behind (count : Nat) :
    ∀ event ∈ List.replicate count (.deferred 0 : Emulation.Event n), Behind event := by
  intro event member
  rw [List.eq_of_mem_replicate member]
  rfl

theorem ending_over (machine : Machine n) (ending : Ending machine)
    (empty : machine.trace.pending = []) : Over machine := by
  obtain ⟨-, queue, queued, -⟩ | gone := ending.stage
  · rw [empty] at queued
    exact absurd queued (by simp)
  · exact gone

theorem wind_down_over (emulator : Emulator n)
    (grants : ∀ machine : Machine n, (∀ vcpu, machine.running vcpu = none) →
      emulator.ready machine = true)
    (machine : Machine n) (ending : Ending machine) :
    ∃ ended said, run (step emulator) machine (windDown machine) = .ok (ended, said) ∧
      Over ended := by
  obtain ⟨quiet, early, finished, still⟩ := run_lives (step emulator) Behind Ending
    (step_ending emulator) machine (finish machine) (finish_behind machine) ending
  obtain ⟨outside, queue⟩ := finish_vcpus emulator (List.finRange n) machine quiet early
    (List.nodup_finRange n) finished
  obtain ⟨ended, late, drained, gone⟩ := run_lives (step emulator) Behind Ending
    (step_ending emulator) quiet _ (queue_behind machine.trace.pending.length) still
  refine ⟨ended, _, run_append_ok _ _ _ _ _ _ _ _ finished drained, ending_over ended gone ?_⟩
  exact drain emulator grants machine.trace.pending quiet ended late
    (fun vcpu => by rw [outside, if_pos (List.mem_finRange vcpu)]) queue drained

theorem stop_asked (emulator : Emulator n) (machine : Machine n) (vcpu : Fin n)
    (answers : Answers n) (steady : Steady machine) (branching : Branching machine)
    (recording : machine.trace.recording = true) (unasked : .stop ∉ machine.trace.pending) :
    ∃ next said, step emulator machine (.command vcpu answers .stop) = .ok (next, said) ∧
      Ending next := by
  obtain ⟨writer, held⟩ := Option.isSome_iff_exists.mp (steady.owned.open_ recording vcpu)
  have done : System.step machine.trace (.control (.command vcpu answers .stop)) =
      .ok (machine.trace.defer .stop, [.call vcpu writer .end]) := by
    simp [System.step, Control.step, perform, recorderStop, recording, callOutput, held, Except.map]
  have taken : step emulator machine (.command vcpu answers .stop) =
      .ok (machine.follow (machine.trace.defer .stop) [.call vcpu writer .end],
        [.call vcpu writer .end]) := by
    simp only [step, done]
    rfl
  exact ⟨_, _, taken, step_steady emulator machine _ _ _ steady taken,
    step_branching emulator machine _ (.command vcpu answers .stop) _ steady branching trivial
      taken,
    .inl ⟨recording, machine.trace.pending, rfl, unasked⟩⟩

/-- From every reachable state of a recording that nobody has asked to stop, wherever the
vcpus are and whatever is queued, a stop goes through. While nothing more is commanded and
the queue keeps its order nothing fails in whatever order the vcpus and the emulator go on,
and nothing of the recording is left once the queue is empty; and it can always be brought
to that by an emulator that is ready when no vcpu is inside a block. -/
theorem stop_completes (emulator : Emulator n)
    (grants : ∀ machine : Machine n, (∀ vcpu, machine.running vcpu = none) →
      emulator.ready machine = true)
    (events : List (Event n)) (follows : ∀ event ∈ events, event.Follows) (final : Machine n)
    (actions : List (Action n))
    (done : run (step emulator) (booted n) events = .ok (final, actions))
    (recording : final.trace.recording = true) (unasked : .stop ∉ final.trace.pending)
    (vcpu : Fin n) (answers : Answers n) (later : List (Event n))
    (behind : ∀ event ∈ later, Behind event) :
    ∃ reached said, run (step emulator) final (.command vcpu answers .stop :: later) =
        .ok (reached, said) ∧
      (reached.trace.pending = [] → Over reached) ∧
      ∃ ended told, run (step emulator) reached (windDown reached) = .ok (ended, told) ∧
        Over ended := by
  obtain ⟨steady, branching⟩ := run_branching emulator events final actions follows done
  obtain ⟨asked, first, stopping, ending⟩ :=
    stop_asked emulator final vcpu answers steady branching recording unasked
  obtain ⟨reached, said, ran, still⟩ := run_lives (step emulator) Behind Ending
    (step_ending emulator) asked later behind ending
  exact ⟨reached, _, run_cons_ok _ _ _ _ _ _ _ _ stopping ran, ending_over reached still,
    wind_down_over emulator grants reached still⟩

/-- One vcpu is still inside a block when the other stops a recording with a reset and a
mode switch in the queue. -/
def queuedBehind : List (Event 2) :=
  switchedWithin ++
  [.command secondVcpu ⟨7, none, fun _ => true⟩ .reset,
   .command secondVcpu ⟨7, none, fun _ => true⟩ (.mode "fastforward")]

theorem queued_behind_completes :
    ∃ final actions, run (step (prompt 2)) (booted 2) queuedBehind = .ok (final, actions) ∧
      final.trace.pending = [.reset secondVcpu, .modeSwitch .fastforward secondVcpu] ∧
      ∃ reached said, run (step (prompt 2)) final
          (.command secondVcpu ⟨7, none, fun _ => true⟩ .stop ::
            [.deferred 0, .translate jump.tb, .advance firstVcpu]) = .ok (reached, said) ∧
        (reached.trace.pending = [] → Over reached) ∧
        ∃ ended told, run (step (prompt 2)) reached (windDown reached) = .ok (ended, told) ∧
          Over ended :=
  ⟨_, _, rfl, rfl, stop_completes (prompt 2) (fun machine => (exclusive_iff machine).mpr)
    queuedBehind (by simp [queuedBehind, switchedWithin, Event.Follows, Follows, jump, jumpBlock])
    _ _ rfl rfl (by decide) secondVcpu _ _
    (by simp [Behind, Event.Follows, Follows, jump, jumpBlock])⟩

-- A mode switch behind a stop finds no writer any more.
example : run (step (prompt 2)) (booted 2)
    [.command firstVcpu ⟨7, none, fun _ => true⟩ (.start (some "d")),
     .command firstVcpu ⟨7, none, fun _ => true⟩ .stop,
     .command firstVcpu ⟨7, none, fun _ => true⟩ (.mode "cacheonly"), .deferred 0, .deferred 0] =
    .error .nullOutput :=
  rfl

end Hypersh.Shutdown
