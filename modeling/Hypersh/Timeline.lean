import Mathlib.Data.List.Basic
import Hypersh.Transduction
import Hypersh.Callbacks
import Hypersh.Blocks

/-!
Everything that happens to the entry of one vcpu between the moments when no
callback runs on it: block callbacks in any instrumentation, idle, resume and
interrupt callbacks, and what control commands of any vcpu do to it.
-/
namespace Hypersh.Timeline
open Callbacks Blocks Transduction

/-- One vcpu's entry together with the globals its callbacks read. -/
structure Entry where
  globals : Globals
  vcpu : Vcpu
  deriving DecidableEq, Repr

/-- Calls that control commands and `vcpu_syscall_cb` make on a writer. They
touch no field of the entry. -/
inductive Notice where
  | gmmCommand (code : Nat) (segment argument : UInt64)
  | sendGMMUserMessage (type : Nat) (payload1 payload2 : UInt64)
  | magic (option : SimOpt)
  | flushICache (pgd : UInt64)
  | isOpen
  | «end»
  deriving DecidableEq, Repr

def Notice.call : Notice → Call
  | .gmmCommand code segment argument => .gmmCommand code segment argument
  | .sendGMMUserMessage type payload1 payload2 => .sendGMMUserMessage type payload1 payload2
  | .magic option => .magic option
  | .flushICache pgd => .flushICache pgd
  | .isOpen => .isOpen
  | .end => .end

/-- What happens between blocks. `mode` is a mode switch taking effect, `roi` the
page directory stored by a mode or reset request, `reset` and `closed` what the
deferred callbacks do here. -/
inductive Between where
  | start (threadid : UInt64) (writer : Nat)
  | closed
  | mode (mode : Mode)
  | roi (pageDirectory : UInt64)
  | magic (address : UInt64)
  | reset
  | notice (notice : Notice)
  | idle
  | resume
  | interrupt
  | interruptRet
  deriving DecidableEq, Repr

inductive Event where
  | between (happened : Between)
  | invoke (invocation : Invocation)
  deriving DecidableEq, Repr

def Event.isStart : Event → Bool
  | .between (.start _ _) => true
  | _ => false

def Entry.setMode (entry : Entry) (mode : Mode) : Entry :=
  { entry with globals := { entry.globals with currentMode := mode } }

def Entry.setRoi (entry : Entry) (pageDirectory : UInt64) : Entry :=
  { entry with globals := { entry.globals with roiCr3 := pageDirectory } }

def Entry.setMagic (entry : Entry) (address : UInt64) : Entry :=
  { entry with globals := { entry.globals with magic := address } }

def Entry.setData (entry : Entry) (thread : ThreadData) : Entry :=
  { entry with vcpu := { entry.vcpu with data := thread } }

def Entry.update (entry : Entry) (effect : Effect) : Entry × List Call :=
  (entry.setData effect.1, effect.2)

def started (threadid : UInt64) (writer : Nat) (entry : Entry) : Entry × List Call :=
  let opened := openFile writer (threadDataReset threadid entry.vcpu.data)
  ({ globals := { entry.globals with currentMode := .icount }, vcpu := ⟨opened.1, []⟩ }, opened.2)

def between (entry : Entry) : Between → Entry × List Call
  | .start threadid writer => started threadid writer entry
  | .closed => entry.update (closeFile entry.vcpu.data)
  | .mode mode => (entry.setMode mode, [])
  | .roi pageDirectory => (entry.setRoi pageDirectory, [])
  | .magic address => (entry.setMagic address, [])
  | .reset => (entry.setData (resetCounters entry.vcpu.data), [])
  | .notice notice => (entry, [notice.call])
  | .idle => entry.update (vcpuIdleCb entry.globals entry.vcpu.data)
  | .resume => entry.update (vcpuResumeCb entry.vcpu.data)
  | .interrupt => entry.update (vcpuInterruptCb entry.globals entry.vcpu.data)
  | .interruptRet => entry.update (vcpuInterruptRetCb entry.globals entry.vcpu.data)

def step : Step Entry Event Call Fault :=
  fun entry event =>
    match event with
    | .between happened => .ok (between entry happened)
    | .invoke invocation =>
        (invoke entry.globals entry.vcpu invocation).map fun result =>
          (⟨entry.globals, result.1⟩, result.2)

def fresh : Entry := ⟨⟨.icount, 0, 0⟩, ⟨installed, []⟩⟩

theorem step_invoke (entry next : Entry) (invocation : Invocation) (calls : List Call)
    (taken : step entry (.invoke invocation) = .ok (next, calls)) :
    effect entry.globals entry.vcpu.data invocation = .ok (next.vcpu.data, calls) ∧
      next.globals = entry.globals := by
  cases done : invoke entry.globals entry.vcpu invocation with
  | error fault => simp [step, done, Except.map] at taken
  | ok result =>
      rcases result with ⟨vcpu, emitted⟩
      simp only [step, done, Except.map, Except.ok.injEq, Prod.mk.injEq] at taken
      rcases taken with ⟨rfl, rfl⟩
      exact ⟨invoke_effect _ _ _ _ _ done, rfl⟩

theorem step_between (entry next : Entry) (happened : Between) (calls : List Call)
    (taken : step entry (.between happened) = .ok (next, calls)) :
    next = (between entry happened).1 ∧ calls = (between entry happened).2 := by
  have same : between entry happened = (next, calls) := Except.ok.inj taken
  rw [same]
  exact ⟨rfl, rfl⟩

/-- A coarser view: blocks run in one piece, each under the instrumentation it was
translated with. -/
inductive Moment where
  | between (happened : Between)
  | block (mode : Mode) (ran : BlockRun)

def Moment.events : Moment → List Event
  | .between happened => [Event.between happened]
  | .block mode ran => (ran.invocations mode).map Event.invoke

def Moment.isStart : Moment → Bool
  | .between (.start _ _) => true
  | _ => false

def stride : Step Entry Moment Call Fault :=
  fun entry moment => run step entry moment.events

theorem run_invoke (entry : Entry) (invocations : List Invocation) :
    run step entry (invocations.map Event.invoke) =
      (run (invoke entry.globals) entry.vcpu invocations).map fun result =>
        (⟨entry.globals, result.1⟩, result.2) := by
  induction invocations generalizing entry with
  | nil => rfl
  | cons invocation rest ih =>
      cases first : invoke entry.globals entry.vcpu invocation with
      | error fault => simp [run, step, first, Except.map]
      | ok result =>
          rcases result with ⟨vcpu, calls⟩
          have tail := ih ⟨entry.globals, vcpu⟩
          cases done : run (invoke entry.globals) vcpu rest with
          | error fault => simp_all [run, step, Except.map]
          | ok result => simp_all [run, step, Except.map]

theorem stride_between (entry : Entry) (happened : Between) :
    stride entry (.between happened) = .ok (between entry happened) := by
  simp [stride, Moment.events, run, step]

theorem stride_block (entry next : Entry) (mode : Mode) (block : BlockRun) (calls : List Call)
    (taken : stride entry (.block mode block) = .ok (next, calls)) :
    run (invoke entry.globals) entry.vcpu (block.invocations mode) = .ok (next.vcpu, calls) ∧
      next.globals = entry.globals := by
  rw [stride, Moment.events, run_invoke] at taken
  cases done : run (invoke entry.globals) entry.vcpu (block.invocations mode) with
  | error fault => simp [done, Except.map] at taken
  | ok result =>
      simp only [done, Except.map, Except.ok.injEq, Prod.mk.injEq] at taken
      rcases taken with ⟨rfl, rfl⟩
      exact ⟨rfl, rfl⟩

theorem run_moments (entry final : Entry) (moments : List Moment) (calls : List Call) :
    run step entry (moments.flatMap Moment.events) = .ok (final, calls) ↔
      run stride entry moments = .ok (final, calls) :=
  run_expand step Moment.events entry final moments calls

end Hypersh.Timeline
