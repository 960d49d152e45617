import Mathlib.Data.List.FinRange
import Hypersh.Transduction
import Hypersh.Callbacks
import Hypersh.Blocks
import Hypersh.Footprint
import Hypersh.Timeline
import Hypersh.Control
import Hypersh.Writers
import Hypersh.System
import Hypersh.Inversion

/-!
The plugin inside the emulator. A block is translated once, with the callbacks of the
mode of that moment, and runs from the code cache until the cache is flushed. A flush,
and with it a queued callback, waits for the vcpus to finish their current blocks, as the
comments of `recorder_stop` and `recorder_mode` in host/trace/control.cc say; a reset also
detaches the callbacks of the plugin.
-/
namespace Hypersh.Emulation
open Callbacks Blocks Control Transduction
variable {n : Nat}

structure Cached where
  tb : Tb
  mode : Option Mode

structure Running where
  mode : Mode
  rest : List Invocation

structure Machine (n : Nat) where
  trace : Trace n
  attached : Bool
  cache : List Cached
  flushes : Nat
  running : Fin n → Option Running

inductive Report (n : Nat) where
  | idle (vcpu : Fin n)
  | resume (vcpu : Fin n)
  | interrupt (vcpu : Fin n)
  | interruptRet (vcpu : Fin n)
  | syscall (vcpu : Fin n) (num : Int) (pageDirectory : UInt64)

def Report.event : Report n → System.Event n
  | .idle vcpu => .idle vcpu
  | .resume vcpu => .resume vcpu
  | .interrupt vcpu => .interrupt vcpu
  | .interruptRet vcpu => .interruptRet vcpu
  | .syscall vcpu num pageDirectory => .syscall vcpu num pageDirectory

inductive Event (n : Nat) where
  | command (vcpu : Fin n) (answers : Answers n) (command : Command)
  | deferred (index : Nat)
  | flush
  | translate (tb : Tb)
  | enter (vcpu : Fin n) (index : Nat) (cpu : Cpu) (started : List Started)
  | advance (vcpu : Fin n)
  | report (report : Report n)

def Event.controls : Event n → Bool
  | .command _ _ _ | .deferred _ => true
  | _ => false

/-- The code behind a branch is not at address 0. -/
def Follows (tb : Tb) : Prop := tb.isBranch = true → tb.nextPc ≠ 0

def Event.Follows : Event n → Prop
  | .translate tb => Emulation.Follows tb
  | _ => True

/-- An emulator decides when it does what has been asked of it, but not while a vcpu is
inside a block. -/
structure Emulator (n : Nat) where
  ready : Machine n → Bool
  waits : ∀ machine, ready machine = true → ∀ vcpu, machine.running vcpu = none

def Machine.exclusive (machine : Machine n) : Bool :=
  (List.finRange n).all fun vcpu => (machine.running vcpu).isNone

theorem exclusive_iff (machine : Machine n) :
    machine.exclusive = true ↔ ∀ vcpu, machine.running vcpu = none := by
  simp [Machine.exclusive]

/-- The emulator that is ready whenever no vcpu is inside a block. -/
def prompt (n : Nat) : Emulator n := ⟨Machine.exclusive, fun machine => (exclusive_iff machine).mp⟩

def Machine.run (machine : Machine n) (vcpu : Fin n) (running : Option Running) : Machine n :=
  { machine with running := Function.update machine.running vcpu running }

def Machine.follow (machine : Machine n) (trace : Trace n) (actions : List (Action n)) :
    Machine n :=
  { machine with
    trace
    attached := machine.attached || actions.contains .registerCallbacks
    flushes := machine.flushes + actions.count .tbFlush }

def detaches : Deferred n → Bool
  | .stop => true
  | _ => false

def step (emulator : Emulator n) : Step (Machine n) (Event n) (Action n) Fault :=
  fun machine event =>
    match event with
    | .command vcpu answers command =>
        (System.step machine.trace (.control (.command vcpu answers command))).map fun result =>
          (machine.follow result.1 result.2, result.2)
    | .deferred index =>
        match emulator.ready machine, machine.trace.pending[index]? with
        | true, some callback =>
            (System.step machine.trace (.control (.deferred index))).map fun result =>
              ({ machine with
                trace := result.1
                attached := machine.attached && !detaches callback
                cache := [] }, result.2)
        | _, _ => .ok (machine, [])
    | .flush =>
        if emulator.ready machine && decide (0 < machine.flushes) then
          .ok ({ machine with cache := [], flushes := machine.flushes - 1 }, [])
        else .ok (machine, [])
    | .translate tb =>
        let mode := if machine.attached then some machine.trace.globals.currentMode else none
        .ok ({ machine with cache := machine.cache ++ [⟨tb, mode⟩] }, [])
    | .enter vcpu index cpu started =>
        match machine.running vcpu, machine.cache[index]? with
        | none, some ⟨tb, some mode⟩ =>
            if bounded : started.length ≤ tb.insns.length then
              let block : BlockRun := ⟨tb, cpu, started, bounded⟩
              .ok (machine.run vcpu (some ⟨mode, block.invocations mode⟩), [])
            else .ok (machine, [])
        -- A block without callbacks runs unseen.
        | _, _ => .ok (machine, [])
    | .advance vcpu =>
        match machine.running vcpu with
        | none => .ok (machine, [])
        | some ⟨_, []⟩ => .ok (machine.run vcpu none, [])
        | some ⟨mode, invocation :: rest⟩ =>
            (System.step machine.trace (.invoke vcpu invocation)).map fun result =>
              ({ machine with trace := result.1 }.run vcpu (some ⟨mode, rest⟩), result.2)
    | .report report =>
        if machine.attached then
          (System.step machine.trace report.event).map fun result =>
            ({ machine with trace := result.1 }, result.2)
        else .ok (machine, [])

def booted (n : Nat) : Machine n := ⟨install n, false, [], 0, fun _ => none⟩

/-! Every step is one of the plugin's, or none. -/

theorem map_step (trace : Trace n) (event : System.Event n)
    (view : Trace n × List (Action n) → Machine n) (next : Machine n) (actions : List (Action n))
    (taken : ((System.step trace event).map fun result => (view result, result.2)) =
      .ok (next, actions)) :
    ∃ reached, System.step trace event = .ok (reached, actions) ∧ next = view (reached, actions) := by
  obtain ⟨result, done, same⟩ := map_ok _ _ _ taken
  obtain ⟨rfl, rfl⟩ := Prod.mk.inj same
  exact ⟨result.1, done, rfl⟩

/-- What a step of the machine can be. -/
inductive Moved (machine : Machine n) : Event n → Machine n → List (Action n) → Prop where
  | idle (event : Event n) : Moved machine event machine []
  | command (vcpu : Fin n) (answers : Answers n) (command : Command) (reached : Trace n)
      (actions : List (Action n))
      (done : System.step machine.trace (.control (.command vcpu answers command)) =
        .ok (reached, actions)) :
      Moved machine (.command vcpu answers command) (machine.follow reached actions) actions
  | deferred (index : Nat) (callback : Deferred n) (reached : Trace n) (actions : List (Action n))
      (alone : ∀ vcpu, machine.running vcpu = none)
      (present : machine.trace.pending[index]? = some callback)
      (done : System.step machine.trace (.control (.deferred index)) = .ok (reached, actions)) :
      Moved machine (.deferred index) { machine with
        trace := reached
        attached := machine.attached && !detaches callback
        cache := [] } actions
  | flush (alone : ∀ vcpu, machine.running vcpu = none) (waiting : 0 < machine.flushes) :
      Moved machine .flush { machine with cache := [], flushes := machine.flushes - 1 } []
  | translate (tb : Tb) :
      Moved machine (.translate tb) { machine with
        cache := machine.cache ++
          [⟨tb, if machine.attached then some machine.trace.globals.currentMode else none⟩] } []
  | enter (vcpu : Fin n) (index : Nat) (cpu : Cpu) (started : List Started) (block : BlockRun)
      (mode : Mode) (outside : machine.running vcpu = none)
      (cached : machine.cache[index]? = some ⟨block.tb, some mode⟩) :
      Moved machine (.enter vcpu index cpu started)
        (machine.run vcpu (some ⟨mode, block.invocations mode⟩)) []
  | leave (vcpu : Fin n) : Moved machine (.advance vcpu) (machine.run vcpu none) []
  | advance (vcpu : Fin n) (mode : Mode) (invocation : Invocation) (rest : List Invocation)
      (reached : Trace n) (actions : List (Action n))
      (inside : machine.running vcpu = some ⟨mode, invocation :: rest⟩)
      (done : System.step machine.trace (.invoke vcpu invocation) = .ok (reached, actions)) :
      Moved machine (.advance vcpu)
        ({ machine with trace := reached }.run vcpu (some ⟨mode, rest⟩)) actions
  | report (report : Report n) (reached : Trace n) (actions : List (Action n))
      (attached : machine.attached = true)
      (done : System.step machine.trace report.event = .ok (reached, actions)) :
      Moved machine (.report report) { machine with trace := reached } actions

theorem step_moved (emulator : Emulator n) (machine next : Machine n) (event : Event n)
    (actions : List (Action n)) (taken : step emulator machine event = .ok (next, actions)) :
    Moved machine event next actions := by
  cases event with
  | command vcpu answers command =>
      obtain ⟨reached, done, rfl⟩ := map_step machine.trace _
        (fun result => machine.follow result.1 result.2) next actions taken
      exact .command vcpu answers command reached actions done
  | deferred index =>
      simp only [step] at taken
      split at taken
      · rename_i callback alone present
        obtain ⟨reached, done, rfl⟩ := map_step machine.trace _ (fun result => { machine with
          trace := result.1
          attached := machine.attached && !detaches callback
          cache := [] }) next actions taken
        exact .deferred index callback reached actions (emulator.waits machine alone) present done
      · cases taken
        exact .idle _
  | flush =>
      simp only [step] at taken
      split at taken
      · rename_i ready
        obtain ⟨alone, waiting⟩ := Bool.and_eq_true_iff.mp ready
        cases taken
        exact .flush (emulator.waits machine alone) (of_decide_eq_true waiting)
      · cases taken
        exact .idle _
  | translate tb =>
      cases taken
      exact .translate tb
  | enter vcpu index cpu started =>
      simp only [step] at taken
      split at taken
      · rename_i tb mode outside cached
        split at taken
        · rename_i bounded
          cases taken
          exact .enter vcpu index cpu started ⟨tb, cpu, started, bounded⟩ mode outside cached
        · cases taken
          exact .idle _
      · cases taken
        exact .idle _
  | advance vcpu =>
      simp only [step] at taken
      split at taken
      · cases taken
        exact .idle _
      · cases taken
        exact .leave vcpu
      · rename_i mode invocation rest inside
        obtain ⟨reached, done, rfl⟩ := map_step machine.trace _
          (fun result => { machine with trace := result.1 }.run vcpu (some ⟨mode, rest⟩))
          next actions taken
        exact .advance vcpu mode invocation rest reached actions inside done
  | report report =>
      simp only [step] at taken
      split at taken
      · rename_i attached
        obtain ⟨reached, done, rfl⟩ := map_step machine.trace _
          (fun result => { machine with trace := result.1 }) next actions taken
        exact .report report reached actions attached done
      · cases taken
        exact .idle _

/-- A run of the machine is a run of the plugin: callbacks come in the order in which the
blocks bring them. -/
theorem run_system (emulator : Emulator n) (machine final : Machine n) (events : List (Event n))
    (actions : List (Action n)) (done : run (step emulator) machine events = .ok (final, actions)) :
    ∃ system, run System.step machine.trace system = .ok (final.trace, actions) := by
  have each : ∀ (machine : Machine n) event next emitted,
      step emulator machine event = .ok (next, emitted) → ∃ system,
        run System.step machine.trace system = .ok (next.trace, emitted.filterMap some) := by
    intro machine event next emitted taken
    rw [List.filterMap_some]
    cases step_moved emulator machine next event emitted taken with
    | idle event => exact ⟨[], rfl⟩
    | command vcpu answers command reached actions done =>
        exact ⟨[_], (run_singleton _ _ _).trans done⟩
    | deferred index callback reached actions alone present done =>
        exact ⟨[_], (run_singleton _ _ _).trans done⟩
    | flush alone waiting => exact ⟨[], rfl⟩
    | translate tb => exact ⟨[], rfl⟩
    | enter vcpu index cpu started block mode outside cached => exact ⟨[], rfl⟩
    | leave vcpu => exact ⟨[], rfl⟩
    | advance vcpu mode invocation rest reached actions inside done =>
        exact ⟨[_], (run_singleton _ _ _).trans done⟩
    | report report reached actions attached done => exact ⟨[_], (run_singleton _ _ _).trans done⟩
  have refined := run_refines (step emulator) System.step Machine.trace some each machine final
    events actions done
  rwa [List.filterMap_some] at refined

/-! The branch callbacks inside a block. -/

def Known (thread : ThreadData) : Prop := thread.brAddr ≠ 0 → thread.brFallthrough ≠ 0

/-- Every branch callback of the list comes behind one that stores a fall-through
address, with no branch sender between; `ready` says that one has come. -/
def Sound : Bool → List Invocation → Prop
  | _, [] => True
  | _, .exec .updateFallthrough userdata _ :: rest => userdata ≠ 0 ∧ Sound true rest
  | ready, .exec .branch _ _ :: rest => ready = true ∧ Sound ready rest
  | _, .exec .branchCacheonly _ _ :: rest => Sound false rest
  | _, .exec .branchDetailed _ _ :: rest => Sound false rest
  | ready, _ :: rest => Sound ready rest

/-- What a vcpu's branch fields promise the callbacks that are still to come. -/
def Prepared (thread : ThreadData) (rest : List Invocation) : Prop :=
  Known thread ∧ ∃ ready, (ready = true → thread.brFallthrough ≠ 0) ∧ Sound ready rest

theorem prepared_kept (before after : ThreadData) (rest : List Invocation)
    (address : after.brAddr = before.brAddr) (fallthrough : after.brFallthrough = before.brFallthrough)
    (prepared : Prepared before rest) : Prepared after rest := by
  unfold Prepared Known
  rw [address, fallthrough]
  exact prepared

theorem branch_sender_prepared (before after : ThreadData) (rest : List Invocation)
    (known : Known before) (sound : Sound false rest)
    (same : after = before ∨ after.brAddr = 0) : Prepared after rest := by
  refine ⟨?_, false, fun ready => absurd ready Bool.false_ne_true, sound⟩
  rcases same with rfl | clear
  · exact known
  · exact fun pending => absurd clear pending

theorem effect_prepared (globals : Globals) (thread : ThreadData) (invocation : Invocation)
    (rest : List Invocation) (prepared : Prepared thread (invocation :: rest)) :
    ∃ result, effect globals thread invocation = .ok result ∧ Prepared result.1 rest := by
  obtain ⟨known, ready, promised, sound⟩ := prepared
  cases invocation with
  | mem called userdata cpu access =>
      refine ⟨_, rfl, prepared_kept thread _ rest ?_ ?_ ⟨known, ready, promised, sound⟩⟩
      · rw [Footprint.mem_written]
        cases called <;> rfl
      · rw [Footprint.mem_written]
        cases called <;> rfl
  | exec called userdata cpu =>
      have kept : ∀ result : Effect, effect globals thread (.exec called userdata cpu) = .ok result →
          (Footprint.written thread result.1 called).brAddr = thread.brAddr →
          (Footprint.written thread result.1 called).brFallthrough = thread.brFallthrough →
          Sound ready rest → ∃ result,
            effect globals thread (.exec called userdata cpu) = .ok result ∧ Prepared result.1 rest := by
        intro result done address fallthrough later
        have written := Footprint.exec_written globals cpu userdata thread called result done
        exact ⟨result, done, prepared_kept thread result.1 rest ((congrArg _ written).trans address)
          ((congrArg _ written).trans fallthrough) ⟨known, ready, promised, later⟩⟩
      cases called with
      | updateFallthrough =>
          exact ⟨_, rfl, fun _ => sound.1, true, fun _ => sound.1, sound.2⟩
      | branch =>
          exact ⟨_, rfl, fun _ => promised sound.1, ready, promised, sound.2⟩
      | branchCacheonly =>
          by_cases clear : thread.brAddr = 0
          · refine ⟨(thread, []), ?_, branch_sender_prepared thread thread rest known sound (.inl rfl)⟩
            exact if_pos clear
          · cases done : tbExecBranchCacheonly userdata thread with
            | error fault =>
                rw [tbExecBranchCacheonly, if_neg clear, if_neg (known clear)] at done
                cases done
            | ok result =>
                refine ⟨result, done, branch_sender_prepared thread _ rest known sound (.inr ?_)⟩
                rcases branch_cacheonly_cases userdata thread result done with
                  ⟨none_, -⟩ | ⟨-, -, rfl⟩
                · exact absurd none_ clear
                · dsimp only
                  unfold syncReported
                  split <;> rfl
      | branchDetailed =>
          by_cases clear : thread.brAddr = 0
          · refine ⟨(thread, []), ?_, branch_sender_prepared thread thread rest known sound (.inl rfl)⟩
            exact if_pos clear
          · cases done : tbExecBranchDetailed globals cpu thread with
            | error fault =>
                rw [tbExecBranchDetailed, if_neg clear, if_neg (known clear)] at done
                cases done
            | ok result =>
                refine ⟨result, done, branch_sender_prepared thread _ rest known sound (.inr ?_)⟩
                rcases branch_detailed_cases globals cpu thread result done with
                  ⟨none_, -⟩ | ⟨-, -, rfl⟩
                · exact absurd none_ clear
                · rfl
      | _ => exact kept _ rfl rfl rfl sound

def branches (mode : Mode) (tb : Tb) : Bool :=
  tb.isBranch && decide (mode = .memory ∨ mode = .detailed)

def Body (branching : Bool) : Invocation → Prop
  | .exec .branch _ _ => branching = true
  | .exec .updateFallthrough _ _ | .exec .branchCacheonly _ _ | .exec .branchDetailed _ _ => False
  | _ => True

theorem body_sound (branching : Bool) (rest : List Invocation)
    (all : ∀ invocation ∈ rest, Body branching invocation) : Sound branching rest := by
  induction rest with
  | nil => trivial
  | cons invocation rest ih =>
      have here := all invocation List.mem_cons_self
      have later := ih fun other member => all other (List.mem_cons_of_mem _ member)
      cases invocation with
      | mem callback userdata cpu access => exact later
      | exec callback userdata cpu =>
          cases callback with
          | branch => exact ⟨here, later⟩
          | updateFallthrough | branchCacheonly | branchDetailed => exact here.elim
          | _ => exact later

theorem insn_hook_body (mode : Mode) (tb : Tb) (index : Nat) (insn : Insn) (cpu : Cpu)
    (hook : ExecCallback × UInt64) (present : tb.insns[index]? = some insn)
    (member : hook ∈ insnHooks mode tb index) :
    Body (branches mode tb) (.exec hook.1 hook.2 cpu) := by
  cases mode with
  | unknown | stop | icount => exact absurd member List.not_mem_nil
  | memory =>
      rw [insn_hooks_memory tb index insn present] at member
      rcases List.mem_cons.mp member with rfl | member
      · trivial
      · split at member
        · rename_i ends
          rcases List.mem_cons.mp member with rfl | member
          · simp [Body, branches, ends.1]
          · rw [List.mem_singleton.mp member]
            trivial
        · exact absurd member List.not_mem_nil
  | detailed =>
      rw [insn_hooks_detailed tb index insn present] at member
      rcases List.mem_append.mp member with member | member
      · rcases List.mem_append.mp member with member | member
        · rcases List.mem_append.mp member with member | member
          · simp only [List.mem_cons, List.not_mem_nil, or_false] at member
            rcases member with rfl | rfl | rfl <;> trivial
          · split at member
            · rw [List.mem_singleton.mp member]
              trivial
            · exact absurd member List.not_mem_nil
        · split at member
          · rw [List.mem_singleton.mp member]
            trivial
          · exact absurd member List.not_mem_nil
      · split at member
        · rename_i ends
          rw [List.mem_singleton.mp member]
          simp [Body, branches, ends.1]
        · exact absurd member List.not_mem_nil

theorem block_body (block : BlockRun) (mode : Mode) :
    ∀ invocation ∈ block.body mode, Body (branches mode block.tb) invocation := by
  intro invocation member
  obtain ⟨entry, begun, inside⟩ := List.mem_flatMap.mp member
  obtain ⟨insn, present⟩ := started_fetched block entry begun
  rcases List.mem_append.mp inside with before | after
  · obtain ⟨hook, from_, rfl⟩ := List.mem_map.mp before
    exact insn_hook_body mode block.tb entry.2 insn entry.1.cpu hook present from_
  · obtain ⟨access, -, accessed⟩ := List.mem_flatMap.mp after
    obtain ⟨hook, -, rfl⟩ := List.mem_map.mp accessed
    trivial

theorem block_sound (block : BlockRun) (mode : Mode) (follows : Follows block.tb) :
    Sound false (block.invocations mode) := by
  have later := body_sound _ _ (block_body block mode)
  unfold BlockRun.invocations BlockRun.entry
  cases mode with
  | unknown | stop | icount =>
      simpa [branches, entryHooks, vcpuTbTransCb, Registration.entryHook, execInvocations, Sound]
        using later
  | memory =>
      rw [entry_hooks_memory]
      cases ends : block.tb.isBranch with
      | false => simpa [branches, ends, execInvocations, Sound] using later
      | true => exact ⟨follows ends, by simpa [branches, ends] using later⟩
  | detailed =>
      rw [entry_hooks_detailed]
      cases ends : block.tb.isBranch with
      | false =>
          cases page : block.tb.page2 with
          | none => simpa [page2Hooks, page, branches, ends, execInvocations, Sound] using later
          | some second => simpa [page2Hooks, page, branches, ends, execInvocations, Sound] using later
      | true =>
          have sound : block.tb.nextPc ≠ 0 ∧ Sound true (block.body .detailed) :=
            ⟨follows ends, by simpa [branches, ends] using later⟩
          cases page : block.tb.page2 with
          | none => simpa [page2Hooks, page, execInvocations, Sound] using sound
          | some second => simpa [page2Hooks, page, execInvocations, Sound] using sound

/-! What holds in every state of the machine. -/

/-- The block is instrumented for the mode while recording, unless a flush is still to
come. -/
def Machine.current (machine : Machine n) (mode : Mode) : Prop :=
  machine.trace.recording = true ∧
    (mode = machine.trace.globals.currentMode ∨ 0 < machine.flushes)

structure Steady (machine : Machine n) : Prop where
  owned : Writers.Owned machine.trace
  attached : machine.attached = machine.trace.recording
  cached : ∀ block ∈ machine.cache, ∀ mode, block.mode = some mode → machine.current mode
  inside : ∀ vcpu running, machine.running vcpu = some running → machine.current running.mode ∧
    ∃ block : BlockRun, running.rest <:+ block.invocations running.mode

/-- Where no code behind a branch is at address 0. -/
structure Branching (machine : Machine n) : Prop where
  cached : ∀ block ∈ machine.cache, Follows block.tb
  known : ∀ vcpu, Known (machine.trace.threads vcpu).data
  inside : ∀ vcpu running, machine.running vcpu = some running →
    Prepared (machine.trace.threads vcpu).data running.rest

theorem booted_steady (n : Nat) : Steady (booted n) where
  owned := Writers.install_owned n
  attached := rfl
  cached := fun _ absent => absurd absent List.not_mem_nil
  inside := fun _ _ outside => by cases outside

theorem booted_branching (n : Nat) : Branching (booted n) where
  cached := fun _ absent => absurd absent List.not_mem_nil
  known := fun _ pending => absurd rfl pending
  inside := fun _ _ outside => by cases outside

theorem current_kept (machine next : Machine n) (mode : Mode)
    (recording : next.trace.recording = machine.trace.recording)
    (same : next.trace.globals.currentMode = machine.trace.globals.currentMode ∨ 0 < next.flushes)
    (flushes : machine.flushes ≤ next.flushes) (current : machine.current mode) :
    next.current mode := by
  refine ⟨recording.trans current.1, ?_⟩
  rcases same with same | waiting
  · rw [same]
    exact current.2.imp_right fun waiting => Nat.lt_of_lt_of_le waiting flushes
  · exact .inr waiting

theorem run_inside (machine : Machine n) (own vcpu : Fin n) (entered : Option Running)
    (running : Running) (now : (machine.run own entered).running vcpu = some running) :
    vcpu = own ∧ entered = some running ∨ vcpu ≠ own ∧ machine.running vcpu = some running := by
  by_cases same : vcpu = own
  · rw [same] at now ⊢
    exact .inl ⟨rfl, by simpa [Machine.run] using now⟩
  · exact .inr ⟨same, by simpa [Machine.run, Function.update_of_ne same] using now⟩

theorem settled_branches (entry final : Timeline.Entry) (events : List Timeline.Event)
    (calls : List Call) (settled : ∀ event ∈ events, System.settled event = true)
    (done : run Timeline.step entry events = .ok (final, calls)) :
    final.vcpu.data.brAddr = entry.vcpu.data.brAddr ∧
      final.vcpu.data.brFallthrough = entry.vcpu.data.brFallthrough := by
  have along := along_all Timeline.step (fun event => System.settled event = true) entry events settled
  refine along_invariant Timeline.step _ (fun reached =>
    reached.vcpu.data.brAddr = entry.vcpu.data.brAddr ∧
      reached.vcpu.data.brFallthrough = entry.vcpu.data.brFallthrough) ?_ entry final events calls
    along ⟨rfl, rfl⟩ done
  intro state event next emitted same still taken
  cases event with
  | invoke invocation => exact Bool.noConfusion still
  | between happened =>
      obtain ⟨rfl, -⟩ := Timeline.step_between state next happened emitted taken
      cases happened with
      | start threadid writer => exact Bool.noConfusion still
      | idle =>
          dsimp only [Timeline.between, Timeline.Entry.update, Timeline.Entry.setData, vcpuIdleCb]
          split <;> exact same
      | resume =>
          dsimp only [Timeline.between, Timeline.Entry.update, Timeline.Entry.setData, vcpuResumeCb]
          split <;> exact same
      | _ => exact same

theorem step_branches (vcpu : Fin n) (trace next : Trace n) (event : System.Event n)
    (actions : List (Action n)) (other : ∀ invocation, event ≠ .invoke vcpu invocation)
    (taken : System.step trace event = .ok (next, actions)) :
    (event.begins trace = true ∧ (next.threads vcpu).data.brAddr = 0) ∨
      ((next.threads vcpu).data.brAddr = (trace.threads vcpu).data.brAddr ∧
        (next.threads vcpu).data.brFallthrough = (trace.threads vcpu).data.brFallthrough) := by
  rcases System.step_cases vcpu trace next event actions taken with
    ⟨invocation, same, -⟩ | ⟨begins, threadid, writer, started⟩ | ⟨-, -, events, settled, ran⟩
  · exact absurd same (other invocation)
  · obtain ⟨same, -⟩ := Timeline.step_between _ _ (.start threadid writer) _ started
    have cleared : (System.view vcpu next).vcpu.data.brAddr = 0 := by
      rw [same]
      rfl
    exact .inl ⟨begins, cleared⟩
  · exact .inr (settled_branches _ _ events _ settled ran)

theorem begins_idle (trace : Trace n) (event : System.Event n) (begins : event.begins trace = true) :
    trace.recording = false ∧
      ∃ vcpu answers dir, event = .control (.command vcpu answers (.start dir)) := by
  unfold System.Event.begins Control.Event.begins at begins
  split at begins
  · split at begins
    · rename_i vcpu answers dir
      exact ⟨by simpa using begins, vcpu, answers, dir, rfl⟩
    · contradiction
  · contradiction

theorem known_kept (vcpu : Fin n) (trace next : Trace n) (event : System.Event n)
    (actions : List (Action n)) (other : ∀ invocation, event ≠ .invoke vcpu invocation)
    (known : Known (trace.threads vcpu).data)
    (taken : System.step trace event = .ok (next, actions)) :
    Known (next.threads vcpu).data := by
  rcases step_branches vcpu trace next event actions other taken with ⟨-, clear⟩ | ⟨address, same⟩
  · exact fun pending => absurd clear pending
  · unfold Known
    rw [address, same]
    exact known

/-- While recording, what is no callback of its block keeps a vcpu's promise. -/
theorem prepared_others (vcpu : Fin n) (rest : List Invocation) (trace next : Trace n)
    (event : System.Event n) (actions : List (Action n))
    (other : ∀ invocation, event ≠ .invoke vcpu invocation) (recording : trace.recording = true)
    (prepared : Prepared (trace.threads vcpu).data rest)
    (taken : System.step trace event = .ok (next, actions)) :
    Prepared (next.threads vcpu).data rest := by
  rcases step_branches vcpu trace next event actions other taken with
    ⟨begins, -⟩ | ⟨address, fallthrough⟩
  · have idle := (begins_idle _ _ begins).1
    rw [recording] at idle
    cases idle
  · exact prepared_kept _ _ _ address fallthrough prepared

theorem command_asks (vcpu : Fin n) (answers : Answers n) (command : Command)
    (trace next : Trace n) (actions : List (Action n))
    (taken : System.step trace (.control (.command vcpu answers command)) = .ok (next, actions)) :
    (next.recording = trace.recording ∧ .registerCallbacks ∉ actions ∧
      (next.globals.currentMode = trace.globals.currentMode ∨ .tbFlush ∈ actions)) ∨
    (trace.recording = false ∧ next.recording = true ∧ .registerCallbacks ∈ actions) := by
  cases Inversion.step_happened _ trace next actions taken with
  | plain alike plain =>
      exact .inl ⟨alike.recording, fun member => plain _ member, .inl alike.mode⟩
  | switched request issuer writer asked held alike plain said =>
      refine .inl ⟨alike.recording, ?_, .inr ?_⟩
      · rw [said]
        intro member
        rcases List.mem_append.mp member with early | late
        · rcases List.mem_append.mp early with asking | announced
          · exact plain _ asking
          · simp at announced
        · simp [Inversion.queued] at late
      · simp [said, Inversion.queued]
  | started dir answers now idle same =>
      have reached : next = (startIn dir answers trace).1 := (congrArg Prod.fst same).symm
      have said : actions = (startIn dir answers trace).2 := (congrArg Prod.snd same).symm
      refine .inr ⟨idle, by rw [reached]; rfl, ?_⟩
      rw [said]
      exact List.mem_append_right _ List.mem_cons_self
  | stopped index later same => cases later

theorem steady_kept (machine next : Machine n) (steady : Steady machine)
    (owned : Writers.Owned next.trace) (attached : next.attached = next.trace.recording)
    (recording : next.trace.recording = machine.trace.recording)
    (same : next.trace.globals.currentMode = machine.trace.globals.currentMode ∨ 0 < next.flushes)
    (flushes : machine.flushes ≤ next.flushes)
    (cache : ∀ block ∈ next.cache, block ∈ machine.cache)
    (running : ∀ vcpu running, next.running vcpu = some running →
      ∃ rest, machine.running vcpu = some ⟨running.mode, rest⟩ ∧ running.rest <:+ rest) :
    Steady next where
  owned := owned
  attached := attached
  cached := fun block member mode instrumented =>
    current_kept machine next mode recording same flushes
      (steady.cached block (cache block member) mode instrumented)
  inside := by
    intro vcpu inside now
    obtain ⟨rest, before, suffix⟩ := running vcpu inside now
    obtain ⟨current, block, ofBlock⟩ := steady.inside vcpu _ before
    exact ⟨current_kept machine next inside.mode recording same flushes current, block,
      suffix.trans ofBlock⟩

theorem command_steady (machine : Machine n) (vcpu : Fin n) (answers : Answers n)
    (command : Command) (next : Trace n) (actions : List (Action n)) (steady : Steady machine)
    (taken : System.step machine.trace (.control (.command vcpu answers command)) =
      .ok (next, actions)) : Steady (machine.follow next actions) := by
  have flushed : .tbFlush ∈ actions → 0 < machine.flushes + actions.count .tbFlush := by
    intro member
    have counted := List.count_pos_iff.mpr member
    omega
  have owned := System.step_owned machine.trace next _ actions steady.owned taken
  rcases command_asks vcpu answers command machine.trace next actions taken with
    ⟨going, unregistered, mode⟩ | ⟨idle, busy, registered⟩
  · refine steady_kept machine (machine.follow next actions) steady owned ?_ going
      (mode.imp_right flushed) (Nat.le_add_right _ _) (fun _ => id)
      fun _ running now => ⟨running.rest, now, List.suffix_refl _⟩
    show (machine.attached || actions.contains .registerCallbacks) = next.recording
    rw [going, ← steady.attached, Bool.or_eq_left_iff_imp]
    simp [unregistered]
  -- Nothing in the cache is instrumented yet, and no vcpu is inside what is.
  · have stale : ∀ mode, ¬ machine.current mode := by
      intro mode current
      rw [current.1] at idle
      cases idle
    refine ⟨owned, ?_, ?_, ?_⟩
    · show (machine.attached || actions.contains .registerCallbacks) = next.recording
      rw [busy, List.contains_iff_mem.mpr registered, Bool.or_true]
    · exact fun block member mode instrumented =>
        absurd (steady.cached block member mode instrumented) (stale mode)
    · exact fun other running now => absurd (steady.inside other running now).1 (stale _)

theorem deferred_recording (index : Nat) (callback : Deferred n) (trace next : Trace n)
    (actions : List (Action n)) (present : trace.pending[index]? = some callback)
    (taken : System.step trace (.control (.deferred index)) = .ok (next, actions)) :
    next.recording = (trace.recording && !detaches callback) := by
  simp only [System.step, Control.step, present] at taken
  cases callback with
  | modeSwitch request vcpu =>
      obtain ⟨-, -, rfl, -⟩ := Inversion.switch_said request vcpu _ next actions taken
      exact (Bool.and_true _).symm
  | reset vcpu =>
      cases taken
      exact (Bool.and_true _).symm
  | stop =>
      cases taken
      exact (Bool.and_false _).symm

theorem flushed_steady (next : Machine n) (owned : Writers.Owned next.trace)
    (attached : next.attached = next.trace.recording) (empty : next.cache = [])
    (alone : ∀ vcpu, next.running vcpu = none) : Steady next where
  owned := owned
  attached := attached
  cached := by
    rw [empty]
    exact fun _ absent => absurd absent List.not_mem_nil
  inside := by
    intro vcpu running some_
    rw [alone vcpu] at some_
    cases some_

theorem entered_steady (machine : Machine n) (vcpu : Fin n) (block : BlockRun) (mode : Mode)
    (steady : Steady machine) (member : (⟨block.tb, some mode⟩ : Cached) ∈ machine.cache) :
    Steady (machine.run vcpu (some ⟨mode, block.invocations mode⟩)) := by
  refine ⟨steady.owned, steady.attached, steady.cached, ?_⟩
  intro other running now
  obtain ⟨-, same⟩ | ⟨-, before⟩ := run_inside machine vcpu other _ running now
  · obtain rfl := Option.some.inj same
    exact ⟨steady.cached _ member mode rfl, block, List.suffix_refl _⟩
  · exact steady.inside other running before

theorem left_steady (machine : Machine n) (vcpu : Fin n) (steady : Steady machine) :
    Steady (machine.run vcpu none) := by
  refine ⟨steady.owned, steady.attached, steady.cached, ?_⟩
  intro other running now
  obtain ⟨-, same⟩ | ⟨-, before⟩ := run_inside machine vcpu other _ running now
  · cases same
  · exact steady.inside other running before

theorem translated_steady (machine : Machine n) (tb : Tb) (steady : Steady machine) :
    Steady { machine with cache := machine.cache ++
      [⟨tb, if machine.attached then some machine.trace.globals.currentMode else none⟩] } := by
  refine ⟨steady.owned, steady.attached, ?_, steady.inside⟩
  intro block member mode instrumented
  rcases List.mem_append.mp member with before | new
  · exact steady.cached block before mode instrumented
  · rw [List.mem_singleton.mp new] at instrumented
    cases attached : machine.attached with
    | false => simp [attached] at instrumented
    | true =>
        have current : machine.trace.globals.currentMode = mode := by
          simpa [attached] using instrumented
        exact ⟨steady.attached.symm.trans attached, .inl current.symm⟩

theorem guest_steady (machine next : Machine n) (event : System.Event n)
    (actions : List (Action n)) (guest : ∀ control, event ≠ .control control)
    (steady : Steady machine) (attached : next.attached = machine.attached)
    (cache : next.cache = machine.cache) (flushes : next.flushes = machine.flushes)
    (running : ∀ vcpu running, next.running vcpu = some running →
      ∃ rest, machine.running vcpu = some ⟨running.mode, rest⟩ ∧ running.rest <:+ rest)
    (taken : System.step machine.trace event = .ok (next.trace, actions)) : Steady next := by
  obtain ⟨alike, -⟩ := Inversion.guest_quiet event _ _ actions guest taken
  refine steady_kept machine next steady (System.step_owned _ _ event actions steady.owned taken)
    ?_ alike.recording (.inl alike.mode) (Nat.le_of_eq flushes.symm) (by simp [cache]) running
  rw [attached, alike.recording, steady.attached]

theorem report_guest (report : Report n) (control : Control.Event n) :
    report.event ≠ .control control := by
  cases report <;> simp [Report.event]

theorem report_invokes (report : Report n) (vcpu : Fin n) (invocation : Invocation) :
    report.event ≠ .invoke vcpu invocation := by
  cases report <;> simp [Report.event]

theorem step_steady (emulator : Emulator n) (machine next : Machine n) (event : Event n)
    (actions : List (Action n)) (steady : Steady machine)
    (taken : step emulator machine event = .ok (next, actions)) : Steady next := by
  cases step_moved emulator machine next event actions taken with
  | idle event => exact steady
  | command vcpu answers command reached actions done =>
      exact command_steady machine vcpu answers command reached actions steady done
  | deferred index callback reached actions alone present done =>
      refine flushed_steady _ (System.step_owned _ _ _ actions steady.owned done) ?_ rfl alone
      show (machine.attached && !detaches callback) = reached.recording
      rw [deferred_recording index callback _ reached actions present done, steady.attached]
  | flush alone waiting => exact flushed_steady _ steady.owned steady.attached rfl alone
  | translate tb => exact translated_steady machine tb steady
  | enter vcpu index cpu started block mode outside cached =>
      exact entered_steady machine vcpu block mode steady (List.mem_of_getElem? cached)
  | leave vcpu => exact left_steady machine vcpu steady
  | report report reached actions attached done =>
      exact guest_steady machine _ report.event actions (report_guest report) steady rfl rfl rfl
        (fun _ running now => ⟨running.rest, now, List.suffix_refl _⟩) done
  | advance vcpu mode invocation rest reached actions inside done =>
      refine guest_steady machine _ (.invoke vcpu invocation) actions (by simp) steady rfl rfl rfl
        ?_ done
      intro other running now
      obtain ⟨rfl, same⟩ | ⟨-, before⟩ :=
        run_inside { machine with trace := reached } vcpu other _ running now
      · obtain rfl := Option.some.inj same
        exact ⟨invocation :: rest, inside, List.suffix_cons invocation rest⟩
      · exact ⟨running.rest, before, List.suffix_refl _⟩

theorem run_steady (emulator : Emulator n) (events : List (Event n)) (final : Machine n)
    (actions : List (Action n))
    (done : run (step emulator) (booted n) events = .ok (final, actions)) : Steady final :=
  run_invariant (step emulator) Steady
    (fun machine event next emitted steady taken =>
      step_steady emulator machine next event emitted steady taken)
    (booted n) final events actions (booted_steady n) done

theorem invoke_entry (owner : Fin n) (trace next : Trace n) (invocation : Invocation)
    (actions : List (Action n)) (result : Effect)
    (done : effect trace.globals (trace.threads owner).data invocation = .ok result)
    (taken : System.step trace (.invoke owner invocation) = .ok (next, actions)) :
    (next.threads owner).data = result.1 := by
  obtain ⟨entry, calls, ran, called⟩ := System.invoke_cases owner trace next invocation actions taken
  have same := invoke_effect _ _ _ _ _ ran
  rw [done, Except.ok.injEq] at same
  obtain ⟨sent, -, reached⟩ := map_ok _ _ _ called
  obtain ⟨rfl, -⟩ := Prod.mk.inj reached
  rw [same]
  simp [System.setVcpu]

theorem advanced_branching (machine : Machine n) (vcpu : Fin n) (mode : Mode)
    (invocation : Invocation) (rest : List Invocation) (reached : Trace n)
    (actions : List (Action n)) (steady : Steady machine) (branching : Branching machine)
    (inside : machine.running vcpu = some ⟨mode, invocation :: rest⟩)
    (done : System.step machine.trace (.invoke vcpu invocation) = .ok (reached, actions)) :
    Branching ({ machine with trace := reached }.run vcpu (some ⟨mode, rest⟩)) := by
  obtain ⟨result, ran, prepared⟩ := effect_prepared machine.trace.globals _ invocation rest
    (branching.inside vcpu _ inside)
  rw [← invoke_entry vcpu _ reached invocation actions result ran done] at prepared
  have others : ∀ other, other ≠ vcpu → ∀ called,
      System.Event.invoke vcpu invocation ≠ .invoke other called :=
    fun other apart _ same => apart (System.Event.invoke.inj same).1.symm
  refine ⟨branching.cached, fun other => ?_, fun other running now => ?_⟩
  · by_cases own : other = vcpu
    · rw [own]
      exact prepared.1
    · exact known_kept other _ reached _ actions (others other own) (branching.known other) done
  · obtain ⟨rfl, same⟩ | ⟨own, before⟩ :=
      run_inside { machine with trace := reached } vcpu other _ running now
    · obtain rfl := Option.some.inj same
      exact prepared
    · exact prepared_others other _ _ reached _ actions (others other own)
        (steady.inside other running before).1.1 (branching.inside other running before) done

theorem between_branching (machine next : Machine n) (event : System.Event n)
    (actions : List (Action n)) (steady : Steady machine) (branching : Branching machine)
    (between : ∀ vcpu invocation, event ≠ .invoke vcpu invocation)
    (cache : ∀ block ∈ next.cache, block ∈ machine.cache)
    (running : next.running = machine.running)
    (taken : System.step machine.trace event = .ok (next.trace, actions)) : Branching next := by
  refine ⟨fun block member => branching.cached block (cache block member), fun vcpu => ?_,
    fun vcpu inside now => ?_⟩
  · exact known_kept vcpu _ _ event actions (between vcpu) (branching.known vcpu) taken
  · rw [running] at now
    exact prepared_others vcpu _ _ _ event actions (between vcpu)
      (steady.inside vcpu inside now).1.1 (branching.inside vcpu inside now) taken

theorem step_branching (emulator : Emulator n) (machine next : Machine n) (event : Event n)
    (actions : List (Action n)) (steady : Steady machine) (branching : Branching machine)
    (follows : event.Follows) (taken : step emulator machine event = .ok (next, actions)) :
    Branching next := by
  cases step_moved emulator machine next event actions taken with
  | idle event => exact branching
  | command vcpu answers command reached actions done =>
      exact between_branching machine (machine.follow reached actions) _ actions steady branching
        (by simp) (fun _ => id) rfl done
  | deferred index callback reached actions alone present done =>
      exact between_branching machine _ _ actions steady branching (by simp)
        (fun _ absent => absurd absent List.not_mem_nil) rfl done
  | flush alone waiting =>
      exact ⟨fun _ absent => absurd absent List.not_mem_nil, branching.known, branching.inside⟩
  | translate tb =>
      refine ⟨fun block member => ?_, branching.known, branching.inside⟩
      rcases List.mem_append.mp member with before | new
      · exact branching.cached block before
      · rw [List.mem_singleton.mp new]
        exact follows
  | enter vcpu index cpu started block mode outside cached =>
      refine ⟨branching.cached, branching.known, fun other running now => ?_⟩
      obtain ⟨rfl, same⟩ | ⟨-, before⟩ := run_inside machine vcpu other _ running now
      · obtain rfl := Option.some.inj same
        exact ⟨branching.known other, false, fun ready => absurd ready Bool.false_ne_true,
          block_sound block mode (branching.cached _ (List.mem_of_getElem? cached))⟩
      · exact branching.inside other running before
  | leave vcpu =>
      refine ⟨branching.cached, branching.known, fun other running now => ?_⟩
      obtain ⟨-, same⟩ | ⟨-, before⟩ := run_inside machine vcpu other _ running now
      · cases same
      · exact branching.inside other running before
  | report report reached actions attached done =>
      exact between_branching machine _ _ actions steady branching
        (fun vcpu invocation => report_invokes report vcpu invocation) (fun _ => id) rfl done
  | advance vcpu mode invocation rest reached actions inside done =>
      exact advanced_branching machine vcpu mode invocation rest reached actions steady branching
        inside done

theorem run_branching (emulator : Emulator n) (events : List (Event n)) (final : Machine n)
    (actions : List (Action n)) (follows : ∀ event ∈ events, event.Follows)
    (done : run (step emulator) (booted n) events = .ok (final, actions)) :
    Steady final ∧ Branching final :=
  along_invariant (step emulator) (fun _ event => event.Follows)
    (fun machine => Steady machine ∧ Branching machine)
    (fun machine event next emitted holds followed taken =>
      ⟨step_steady emulator machine next event emitted holds.1 taken,
        step_branching emulator machine next event emitted holds.1 holds.2 followed taken⟩)
    (booted n) final events actions
    (along_all (step emulator) Event.Follows (booted n) events follows)
    ⟨booted_steady n, booted_branching n⟩ done

/-! No callback of the guest kills the process. -/

theorem deliver_lives (owner : Fin n) (calls : List Call) (trace : Trace n)
    (owned : Writers.Owned trace) (recording : trace.recording = true) :
    ∃ sent, System.deliver owner calls trace = .ok sent := by
  obtain ⟨writer, held⟩ := Option.isSome_iff_exists.mp (owned.open_ recording owner)
  unfold System.deliver
  rw [held]
  cases calls with
  | nil => exact ⟨_, rfl⟩
  | cons call rest => exact ⟨_, rfl⟩

theorem callback_lives (owner : Fin n) (trace : Trace n) (entry : Vcpu) (calls : List Call)
    (owned : Writers.Owned trace) (recording : trace.recording = true) :
    ∃ result, System.callback owner trace entry calls = .ok result := by
  obtain ⟨sent, delivered⟩ := deliver_lives owner calls trace owned recording
  unfold System.callback
  rw [delivered]
  exact ⟨_, rfl⟩

theorem flush_all_lives (pageDirectory : UInt64) (trace : Trace n) (vcpus : List (Fin n))
    (owned : Writers.Owned trace) (recording : trace.recording = true) :
    ∃ flushed, System.flushAll pageDirectory trace vcpus = .ok flushed := by
  induction vcpus with
  | nil => exact ⟨[], rfl⟩
  | cons threadid rest ih =>
      obtain ⟨later, flushed⟩ := ih
      obtain ⟨writer, held⟩ := Option.isSome_iff_exists.mp (owned.open_ recording threadid)
      refine ⟨.call threadid writer (.flushICache pageDirectory) :: later, ?_⟩
      simp [System.flushAll, callOutput, held, flushed, Except.map]

theorem report_lives (trace : Trace n) (report : Report n) (owned : Writers.Owned trace)
    (recording : trace.recording = true) : ∃ result, System.step trace report.event = .ok result := by
  cases report with
  | syscall vcpu num pageDirectory =>
      obtain ⟨flushed, all⟩ := flush_all_lives pageDirectory trace (List.finRange n) owned recording
      simp only [Report.event, System.step, System.vcpuSyscallCb]
      split
      · exact ⟨_, rfl⟩
      · split
        · rw [all]
          exact ⟨_, rfl⟩
        · exact ⟨_, rfl⟩
  | idle vcpu => exact callback_lives vcpu trace _ _ owned recording
  | resume vcpu => exact callback_lives vcpu trace _ _ owned recording
  | interrupt vcpu => exact callback_lives vcpu trace _ _ owned recording
  | interruptRet vcpu => exact callback_lives vcpu trace _ _ owned recording

theorem invoke_lives (trace : Trace n) (vcpu : Fin n) (invocation : Invocation)
    (rest : List Invocation) (owned : Writers.Owned trace) (recording : trace.recording = true)
    (prepared : Prepared (trace.threads vcpu).data (invocation :: rest)) :
    ∃ result, System.step trace (.invoke vcpu invocation) = .ok result := by
  obtain ⟨result, done, -⟩ := effect_prepared trace.globals _ invocation rest prepared
  simp only [System.step, invoke, done, Except.map]
  exact callback_lives vcpu trace _ _ owned recording

theorem steady_lives (emulator : Emulator n) (machine : Machine n) (event : Event n)
    (steady : Steady machine) (branching : Branching machine) (guest : event.controls = false) :
    ∃ result, step emulator machine event = .ok result := by
  cases event with
  | command vcpu answers command => cases guest
  | deferred index => cases guest
  | flush =>
      simp only [step]
      split <;> exact ⟨_, rfl⟩
  | translate tb => exact ⟨_, rfl⟩
  | enter vcpu index cpu started =>
      simp only [step]
      split
      · split <;> exact ⟨_, rfl⟩
      · exact ⟨_, rfl⟩
  | advance vcpu =>
      simp only [step]
      split
      · exact ⟨_, rfl⟩
      · exact ⟨_, rfl⟩
      · rename_i mode invocation rest running
        obtain ⟨result, taken⟩ := invoke_lives machine.trace vcpu invocation rest steady.owned
          (steady.inside vcpu _ running).1.1 (branching.inside vcpu _ running)
        rw [taken]
        exact ⟨_, rfl⟩
  | report report =>
      simp only [step]
      split
      · rename_i attached
        obtain ⟨result, taken⟩ := report_lives machine.trace report steady.owned
          (steady.attached.symm.trans attached)
        rw [taken]
        exact ⟨_, rfl⟩
      · exact ⟨_, rfl⟩

def jump : BlockRun := jumpBlock 0x1000 0x2000 [⟨0x30, 0x40, true⟩]

/-- One vcpu is inside a block instrumented for the caches when the other asks for the
detailed mode. -/
def switchedWithin : List (Event 2) :=
  [.command firstVcpu ⟨7, none, fun _ => true⟩ (.start (some "d")), .flush,
   .command firstVcpu ⟨7, none, fun _ => true⟩ (.mode "cacheonly"), .deferred 0,
   .translate jump.tb, .enter firstVcpu 0 jump.cpu jump.started,
   .advance firstVcpu, .advance firstVcpu, .advance firstVcpu, .advance firstVcpu,
   .command secondVcpu ⟨7, none, fun _ => true⟩ (.mode "detailed"), .flush]

theorem switched_within_follows : ∀ event ∈ switchedWithin, event.Follows := by
  simp [switchedWithin, Event.Follows, Follows, jump, jumpBlock]

/-- Whatever has been commanded and wherever the vcpus are, the callbacks of the blocks
they execute and of what else the emulator reports use writers that are there and, where
no code behind a branch is at address 0, assert what is true: only a command or a queued
callback can kill the process. -/
theorem callbacks_never_fail (emulator : Emulator n) (events : List (Event n))
    (follows : ∀ event ∈ events, event.Follows) (final : Machine n) (actions : List (Action n))
    (done : run (step emulator) (booted n) events = .ok (final, actions))
    (event : Event n) (guest : event.controls = false) :
    ∃ next calls, step emulator final event = .ok (next, calls) := by
  obtain ⟨steady, branching⟩ := run_branching emulator events final actions follows done
  obtain ⟨result, taken⟩ := steady_lives emulator final event steady branching guest
  exact ⟨result.1, result.2, taken⟩

theorem switched_within_goes_on :
    ∃ final actions, run (step (prompt 2)) (booted 2) switchedWithin = .ok (final, actions) ∧
      (final.running firstVcpu).map (fun running => running.rest.length) = some 5 ∧
      ∃ next calls, step (prompt 2) final (.advance firstVcpu) = .ok (next, calls) :=
  ⟨_, _, rfl, rfl, callbacks_never_fail (prompt 2) switchedWithin switched_within_follows _ _ rfl
    (.advance firstVcpu) rfl⟩

/-- The callbacks that a vcpu executes are those of the current mode, unless the flush
that a start or the switch to detailed mode asks for is still to come; and while nothing
is recorded there are none. -/
theorem blocks_in_mode (emulator : Emulator n) (events : List (Event n)) (final : Machine n)
    (actions : List (Action n))
    (done : run (step emulator) (booted n) events = .ok (final, actions)) :
    final.attached = final.trace.recording ∧
    (∀ block ∈ final.cache, ∀ mode, block.mode = some mode → final.trace.recording = true ∧
      (mode = final.trace.globals.currentMode ∨ 0 < final.flushes)) ∧
    ∀ vcpu running, final.running vcpu = some running → final.trace.recording = true ∧
      (∃ block : BlockRun, running.rest <:+ block.invocations running.mode) ∧
      (running.mode = final.trace.globals.currentMode ∨ 0 < final.flushes) := by
  have steady := run_steady emulator events final actions done
  refine ⟨steady.attached, steady.cached, ?_⟩
  intro vcpu running now
  obtain ⟨⟨recording, current⟩, ofBlock⟩ := steady.inside vcpu running now
  exact ⟨recording, ofBlock, current⟩

theorem switched_within_stale :
    ∃ final actions, run (step (prompt 2)) (booted 2) switchedWithin = .ok (final, actions) ∧
      final.trace.globals.currentMode = .detailed ∧ final.flushes = 1 ∧
      (final.running firstVcpu).map Running.mode = some .memory ∧
      final.attached = final.trace.recording ∧
      (∀ block ∈ final.cache, ∀ mode, block.mode = some mode → final.trace.recording = true ∧
        (mode = final.trace.globals.currentMode ∨ 0 < final.flushes)) ∧
      ∀ vcpu running, final.running vcpu = some running → final.trace.recording = true ∧
        (∃ block : BlockRun, running.rest <:+ block.invocations running.mode) ∧
        (running.mode = final.trace.globals.currentMode ∨ 0 < final.flushes) :=
  ⟨_, _, rfl, rfl, rfl, rfl, blocks_in_mode (prompt 2) switchedWithin _ _ rfl⟩

end Hypersh.Emulation
